import Hy2Route.Control.Application
import Hy2Route.Control.Lifecycle
import Hy2Route.Control.Wiring
import Hy2Route.DNSProxy.CacheRun
import Hy2Route.DNSProxy.Lifetimes
import Hy2Route.DNSProxy.Upstreams
import Hy2Route.Dataplane.Agreement
import Hy2Route.Dataplane.Relay
import Hy2Route.Dataplane.TCP
import Hy2Route.Dataplane.UDP
import Hy2Route.Dataset.Compile
import Hy2Route.Firewall.Footprint
import Hy2Route.Firewall.KernelPolicy
import Hy2Route.Firewall.Marks
import Hy2Route.Firewall.Membership
import Hy2Route.Firewall.Mirror
import Hy2Route.Firewall.Sync
import Hy2Route.HY2.Redaction
import Hy2Route.Hysteria.Sessions
import Hy2Route.Landing.Associate
import Hy2Route.Landing.Connect
import Hy2Route.Landing.HTTP
import Hy2Route.Landing.PacketSession
import Hy2Route.Policy.DomainSyntax
import Hy2Route.Policy.Specification
import Hy2Route.Sniff.ClientHello
import Hy2Route.Sniff.HostLine
import Hy2Route.Sniff.Peek
import Hy2Route.Transport.Cooldown
import Hy2Route.Transport.PacketHealth
import Hy2Route.Transport.PacketSwitch
import Hy2Route.Transport.Probes
