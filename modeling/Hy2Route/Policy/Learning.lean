import Hy2Route.Foundation.NetIP
import Hy2Route.Foundation.Recency
import Hy2Route.Policy.Domains
import Mathlib.Data.Finset.Basic
import Mathlib.Data.List.AList
import Mathlib.Data.List.Sort

/-!
# The learning table

An observation ties a domain, an action and an address until it expires. The
table keeps four linked structures: the entries, their order of use, the keys
of each address, and a heap of expiry items. The heap deletes lazily: a refresh
pushes a second item for the same key, and an item is acted on only when its
entry still has the item's expiry.

## Implementation notes

The heap is listed in the order in which it is popped. Items of equal expiry
may come in any order, and nothing below depends on it. Removing an entry
removes its own list element, which is the one holding its key.
-/

namespace Hy2Route.Policy

open Foundation

structure Observation where
  domain : Bytes
  action : Action
  ips : List Addr
  expires : Int

structure LearnedDecision where
  action : Action
  direct : Bool
  proxy : Bool
  inspect : Bool
  deriving DecidableEq

structure ObservationKey where
  domain : Bytes
  action : Action
  ip : Addr
  deriving DecidableEq

structure ExpiryItem where
  key : ObservationKey
  expires : Int
  deriving DecidableEq

inductive LearningError where
  /-- learning action must be direct or proxy -/
  | action
  /-- learning expiry is required -/
  | expiry
  /-- the domain does not normalize -/
  | domain (err : DomainError)
  /-- learned IP must be IPv4 -/
  | notIPv4
  /-- the front of an empty list is dereferenced -/
  | nilFront
  deriving DecidableEq

structure LearningTable where
  capacity : Nat
  entries : AList fun _ : ObservationKey => Int
  byIP : AList fun _ : Addr => Finset ObservationKey
  expirations : List ExpiryItem
  lru : List ObservationKey

def newLearningTable (capacity : Int) : LearningTable where
  capacity := if capacity < 1 then 1 else capacity.toNat
  entries := ∅
  byIP := ∅
  expirations := []
  lru := []

/-- The heap order: nothing pops before an item that expires earlier. -/
def ExpiryItem.NotAfter (left right : ExpiryItem) : Prop := left.expires ≤ right.expires

instance : DecidableRel ExpiryItem.NotAfter := fun left right =>
  inferInstanceAs (Decidable (left.expires ≤ right.expires))

instance : Std.Total ExpiryItem.NotAfter := ⟨fun left right => le_total left.expires right.expires⟩

instance : IsTrans ExpiryItem ExpiryItem.NotAfter := ⟨fun _ _ _ h₁ h₂ => le_trans h₁ h₂⟩

/-- Add an item to the heap. -/
def heapPush (item : ExpiryItem) (heap : List ExpiryItem) : List ExpiryItem :=
  heap.orderedInsert ExpiryItem.NotAfter item

namespace LearningTable

/-- The keys listed for an address; an absent address has none. -/
def keysOf (table : LearningTable) (ip : Addr) : Finset ObservationKey :=
  (table.byIP.lookup ip).getD ∅

def removeLocked (table : LearningTable) (key : ObservationKey) : LearningTable :=
  match table.entries.lookup key with
  | none => table
  | some _ =>
      let keys := (table.keysOf key.ip).erase key
      { table with
        lru := table.lru.erase key
        entries := table.entries.erase key
        byIP := if keys = ∅ then table.byIP.erase key.ip else table.byIP.insert key.ip keys }

/-- Remove the least recently observed entries until there is room for one more. -/
def makeRoom (table : LearningTable) : Option LearningTable :=
  evictLoop (fun t : LearningTable => t.entries.keys.length) (fun t => t.lru.head?)
    (fun key t => t.removeLocked key) table.capacity table.entries.keys.length table

/-- Refresh an existing entry. -/
def refresh (table : LearningTable) (key : ObservationKey) (expires : Int) : LearningTable :=
  { table with
    entries := table.entries.insert key expires
    lru := table.lru.erase key ++ [key]
    expirations := heapPush ⟨key, expires⟩ table.expirations }

/-- Add a new entry at the back of the list. -/
def insertNew (table : LearningTable) (key : ObservationKey) (expires : Int) : LearningTable :=
  { table with
    lru := table.lru ++ [key]
    entries := table.entries.insert key expires
    byIP := table.byIP.insert key.ip (insert key (table.keysOf key.ip))
    expirations := heapPush ⟨key, expires⟩ table.expirations }

/-- Record one address of an observation. -/
def observeKey (table : LearningTable) (key : ObservationKey) (expires : Int) :
    Except LearningError LearningTable :=
  match table.entries.lookup key with
  | some _ => .ok (table.refresh key expires)
  | none =>
      match table.makeRoom with
      | none => .error .nilFront
      | some table => .ok (table.insertNew key expires)

/-- The loop over the addresses of an observation. Addresses already seen are
skipped, and the first address that is not IPv4 ends the loop with what was
recorded before it still in place. -/
def observeIPs (domain : Bytes) (action : Action) (expires : Int) :
    List Addr → List Addr → LearningTable → LearningTable × Option LearningError
  | [], _, table => (table, none)
  | ip :: rest, seen, table =>
      if !ip.is4 || ip.is4In6 then (table, some .notIPv4)
      else if ip ∈ seen then observeIPs domain action expires rest seen table
      else
        match table.observeKey ⟨domain, action, ip⟩ expires with
        | .error err => (table, some err)
        | .ok table => observeIPs domain action expires rest (ip :: seen) table

def observe (table : LearningTable) (observation : Observation) :
    LearningTable × Option LearningError :=
  if observation.action ≠ .direct ∧ observation.action ≠ .proxy then (table, some .action)
  else if observation.expires = 0 then (table, some .expiry)
  else
    match normalizeDomain observation.domain with
    | .error err => (table, some (.domain err))
    | .ok domain =>
        observeIPs domain observation.action observation.expires observation.ips [] table

/-- Pop due items from the heap, and drop the entries they still belong to. -/
def expireLoop (now : Int) :
    List ExpiryItem → LearningTable → List Addr → LearningTable × List Addr
  | [], table, changed => ({ table with expirations := [] }, changed)
  | item :: heap, table, changed =>
      if now < item.expires then ({ table with expirations := item :: heap }, changed)
      else
        match table.entries.lookup item.key with
        | none => expireLoop now heap table changed
        | some expires =>
            if expires ≠ item.expires then expireLoop now heap table changed
            else
              expireLoop now heap (table.removeLocked item.key) (changed.insert item.key.ip)

def expireLocked (table : LearningTable) (now : Int) : LearningTable × List Addr :=
  expireLoop now table.expirations table []

def lookupLocked (table : LearningTable) (ip : Addr) : LearnedDecision :=
  let direct := decide (∃ key ∈ table.keysOf ip, key.action = .direct)
  let proxy := decide (∃ key ∈ table.keysOf ip, key.action = .proxy)
  { action := if proxy then .proxy else if direct then .direct else .unknown
    direct := direct
    proxy := proxy
    inspect := direct && proxy }

def lookup (table : LearningTable) (ip : Addr) (now : Int) : LearningTable × LearnedDecision :=
  let table := (table.expireLocked now).1
  (table, table.lookupLocked ip)

/-- The addresses that lost an entry; their order is that of a map iteration. -/
def expire (table : LearningTable) (now : Int) : LearningTable × List Addr :=
  table.expireLocked now

def snapshot (table : LearningTable) (now : Int) :
    LearningTable × List (Addr × LearnedDecision) :=
  let table := (table.expireLocked now).1
  (table, table.byIP.keys.map fun ip => (ip, table.lookupLocked ip))

end LearningTable

end Hy2Route.Policy
