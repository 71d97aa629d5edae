import Mathlib.Data.Int.Notation

/-!
# Durations

Instants and durations are integers of nanoseconds, and the zero time is `0`.
-/

namespace Hy2Route.Foundation

def millisecond : Int := 1000000

def second : Int := 1000000000

def minute : Int := 60 * second

def hour : Int := 60 * minute

end Hy2Route.Foundation
