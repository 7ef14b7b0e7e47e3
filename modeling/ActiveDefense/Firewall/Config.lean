import ActiveDefense.Rust.Net

/-!
# The configuration of `rustwall`

The part of the configuration that decides what happens to a packet: the queues it can come from,
the rules in their order, the named networks they refer to, the trusted sources, the policy for what
no rule matches, and the bounds of the connection and quarantine tables. Defaults are those of the
configuration file.
-/

namespace ActiveDefense.Firewall

inductive Protocol where
  | tcp
  | udp
  | icmp
  | any
deriving DecidableEq, Repr

inductive Action where
  | accept
  | drop
  | reject
deriving DecidableEq, Repr

inductive Direction where
  | inbound
  | outbound
  | any
deriving DecidableEq, Repr

/-- An inclusive range of ports. -/
structure PortRange where
  lo : UInt16
  hi : UInt16
deriving DecidableEq, Repr

def PortRange.contains (r : PortRange) (port : UInt16) : Bool := r.lo ≤ port && port ≤ r.hi

/-- What a rule compares an address with: a network, or a name from the table of aliases. -/
inductive NetworkMatch where
  | cidr (net : IpNet)
  | alias (name : Str)
deriving DecidableEq, Repr

structure Alias where
  name : Str
  cidrs : List IpNet
deriving DecidableEq, Repr

/-- `default_net`. -/
def defaultNet : NetworkMatch := .cidr (.v4 ⟨0, 0, by decide⟩)

/-- `default_ports`. -/
def defaultPorts : PortRange := ⟨0, 65535⟩

structure Rule where
  name : Str
  protocol : Protocol := .any
  direction : Direction := .any
  src : NetworkMatch := defaultNet
  dst : NetworkMatch := defaultNet
  srcPort : PortRange := defaultPorts
  dstPort : PortRange := defaultPorts
  action : Action
  rateLimitPps : Option UInt32 := none
  autoBlockSecs : Option UInt64 := none
  autoBlockThreshold : UInt32 := 1
  autoBlockWindowSecs : UInt64 := 60
  log : Bool := false
deriving DecidableEq, Repr

structure ConntrackConfig where
  tcpEstablishedTimeoutSecs : UInt64 := 3600
  tcpTransitoryTimeoutSecs : UInt64 := 60
  udpTimeoutSecs : UInt64 := 30
  maxEntries : Nat := 250000
deriving DecidableEq, Repr

structure Config where
  queueNum : UInt16 := 0
  queueWorkers : UInt16 := 1
  defaultPolicy : Action := .drop
  conntrack : ConntrackConfig := {}
  rules : List Rule := []
  aliases : List Alias := []
  trusted : List IpAddr := []
  quarantineMaxEntries : Nat := 100000
deriving DecidableEq, Repr

end ActiveDefense.Firewall
