import ActiveDefense.Nsm.Engine
import ActiveDefense.Nsm.Flow
import ActiveDefense.Nsm.ScanWindow
import ActiveDefense.Nsm.System

/-!
# The event loop

`run_event_loop` takes the packets off the channel, shows each to the flow table and the engine, and
blocks the source of a critical alert. Meanwhile the operator gives commands and the sweep takes
expired entries away, in any order. A prefix gets into the kernel map for one of three reasons
(`reason_of_mem`): the persisted file had it, the operator asked for it, or it is that of a source
which is no address of this machine and touched a hundred of its ports within ten seconds. So
there is such a reason for each frame that the program drops (`dropped_for_a_reason`).
-/

namespace ActiveDefense.Nsm

/-! ## The process -/

/-- The options of `Cli` for XDP, the allowlist parsed. -/
structure Cli where
  xdpAllowlist : List Ipv4Network
  xdpAutoBlock : Bool
  xdpAutoBlockEnforce : Bool
  xdpBlockSecs : Nat
  xdpBlockPrefixLen : UInt8
  xdpAutoBlockRateLimit : UInt32
  xdpAutoBlockRateWindowSecs : Nat
deriving DecidableEq, Repr

/-- The networks of the IPv4 addresses of the machine. -/
def autoProtected (localIps : List IpAddr) : List Ipv4Network :=
  localIps.filterMap fun
    | .v4 ip => some ⟨ip, 32, hostLen_le⟩
    | .v6 _ => none

/-- The configuration that `main` starts the capture with. -/
def Cli.autoBlockConfig (cli : Cli) (localIps : List IpAddr) : AutoBlockConfig where
  allowlist := cli.xdpAllowlist ++ autoProtected localIps
  enforce := cli.xdpAutoBlockEnforce
  prefixLen := cli.xdpBlockPrefixLen
  rateLimit := cli.xdpAutoBlockRateLimit
  rateWindow := fromSecs cli.xdpAutoBlockRateWindowSecs

/-- The running process. -/
structure Process (φ M : Type) where
  flows : FlowTable
  engine : DetectionEngine φ
  system : System M

/-- What happens next: an event of the XDP program comes off the channel, with what the clocks say
and what each block reads, the operator sends a line, a half of the sweep runs, or the reaper. -/
inductive LoopEvent where
  | packet (ts : Nat) (ev : PacketEvent) (clocks : Clocks) (env : Nat → Env)
  | control (env : Env) (line : Str)
  | sweepCollect (now : UInt64)
  | sweepRemove
  | reapIdle (idleTimeout now : Nat)

/-- The packet as the port scan detector sees it. -/
def LoopEvent.sighting : LoopEvent → Option Sighting
  | .packet ts ev clocks _ => (eventToMeta ts ev).map clocks.portscan.sighting
  | _ => none

section
variable {φ M : Type} [DetectArith φ] [PrefixMap M 32 UInt64]

/-- The process that `main` starts. -/
def Process.start (cli : Cli) (localIps : List IpAddr) (iface : Str) (persist : Option FileRead)
    (now : UInt64) : Process φ M where
  flows := .new
  engine := .new localIps.toFinset
  system := ⟨Nsm.start (cli.autoBlockConfig localIps) iface persist now, []⟩

omit [DetectArith φ] in
/-- The part of `run_event_loop` that blocks the source of an alert. -/
def autoBlock (cli : Cli) (c : XdpCapture M) (env : Env) (alert : MeasuredAlert φ) :
    XdpCapture M :=
  match alert.srcIp with
  | some (.v4 src) =>
    if cli.xdpAutoBlock ∧ alert.severity = .critical then
      (c.blockIpv4 env src (fromSecs cli.xdpBlockSecs) none).2
    else c
  | _ => c

/-- A control line or a half of the sweep. -/
def Process.act (p : Process φ M) (a : Action) : Process φ M :=
  { p with
    system := (Nsm.act p.system.capture.config p.system.capture.iface (some p.system) a).getD
      p.system }

/-- One step of the process, with the alerts that it emits. -/
def Process.step (w : UsizeWidth) (cli : Cli) :
    Machine (Process φ M) LoopEvent (List (MeasuredAlert φ)) := fun p event =>
  match event with
  | .packet ts ev clocks env =>
    match eventToMeta ts ev with
    | none => ([], p)
    | some pkt =>
      let flows := (p.flows.update pkt).2
      let (alerts, engine) := DetectionEngine.analyze φ w p.engine { clocks with pkt }
      let capture := alerts.zipIdx.foldl (fun c (alert, i) => autoBlock cli c (env i) alert)
        p.system.capture
      (alerts, { flows, engine, system := { p.system with capture } })
  | .control env line => ([], p.act (.control env line))
  | .sweepCollect now => ([], p.act (.sweepCollect now))
  | .sweepRemove => ([], p.act .sweepRemove)
  | .reapIdle idleTimeout now => ([], { p with flows := (p.flows.reapIdle idleTimeout now).2 })

end

/-! ## Reasons for a block -/

/-- Among the packets there are touches one after the other of the source, all to addresses of this
machine, within ten seconds and to a hundred ports or more. -/
def ScannedBy (localIps : Finset IpAddr) (src : IpAddr) (packets : List Sighting) : Prop :=
  ∃ first rest, first :: rest <:+: touchesOf localIps src packets ∧
    (∀ r ∈ first :: rest, r.pkt.dstIp ∈ localIps) ∧
    (∀ r ∈ rest, r.instant ≤ first.instant + 10 * 10 ^ 9) ∧ 100 ≤ (portsOf (first :: rest)).card

/-- Why a prefix is in the kernel map. -/
inductive BlockReason (cli : Cli) (localIps : List IpAddr) (persist : Option FileRead)
    (now : UInt64) (events : List LoopEvent) (key : PrefixKey 32) : Prop
  | restored (text line : Str) (ip : Ipv4Addr) (prefixLen : UInt8) (expiryNs : UInt64)
      (hfile : persist = some (.contents text)) (hline : line ∈ lines text)
      (hentry : parseEntry (trim line) = some (ip, prefixLen, expiryNs)) (hlater : now < expiryNs)
      (hkey : key = blockKey ip prefixLen)
  | commanded (env : Env) (line : Str) (ip : Ipv4Addr) (prefixLen : Option UInt8) (ttlSecs : Nat)
      (hevent : .control env line ∈ events) (hline : parseRequest line = .block ip prefixLen ttlSecs)
      (hkey : key = (cli.autoBlockConfig localIps).blockKey ip prefixLen)
  | scanned (src : Ipv4Addr) (hblock : cli.xdpAutoBlock = true)
      (henforce : cli.xdpAutoBlockEnforce = true) (hremote : .v4 src ∉ localIps)
      (hscan : ScannedBy localIps.toFinset (.v4 src) (events.filterMap LoopEvent.sighting))
      (hkey : key = (cli.autoBlockConfig localIps).blockKey src none)

section
variable {φ M : Type} [DetectArith φ] [PrefixMap M 32 UInt64] {w : UsizeWidth} {cli : Cli}
  {localIps : List IpAddr} {persist : Option FileRead} {now : UInt64} {events : List LoopEvent}
  {key : PrefixKey 32} {src : IpAddr} {packets : List Sighting}

omit [DetectArith φ] [PrefixMap M 32 UInt64] in
/-- The XDP program has no payload to pass on. -/
theorem payloadHead_of_eventToMeta {ts : Nat} {ev : PacketEvent} {pkt : PacketMeta}
    (h : eventToMeta ts ev = some pkt) : pkt.payloadHead = [] := by
  by_cases hver : ev.ipVer = 4 ∨ ev.ipVer = 6
  · rcases hver with hver | hver
    · simp only [eventToMeta, hver, if_true, Option.bind_eq_bind, Option.bind_some] at h
      cases h
      rfl
    · have hother : (6 : UInt8) ≠ 4 := by decide
      simp only [eventToMeta, hver, hother, if_false, if_true, Option.bind_eq_bind,
        Option.bind_some] at h
      cases h
      rfl
  · rw [not_or] at hver
    simp [eventToMeta, hver.1, hver.2] at h

theorem ScannedBy.append {fs : Finset IpAddr} (h : ScannedBy fs src packets) (more : List Sighting) :
    ScannedBy fs src (packets ++ more) := by
  obtain ⟨first, rest, hinfix, hscan⟩ := h
  refine ⟨first, rest, hinfix.trans ?_, hscan⟩
  exact (List.prefix_append packets more).isInfix.filter _

/-- A reason stays one. -/
theorem BlockReason.append (h : BlockReason cli localIps persist now events key)
    (more : List LoopEvent) : BlockReason cli localIps persist now (events ++ more) key := by
  cases h with
  | restored text line ip prefixLen expiryNs hfile hline hentry hlater hkey =>
    exact .restored text line ip prefixLen expiryNs hfile hline hentry hlater hkey
  | commanded env line ip prefixLen ttlSecs hevent hline hkey =>
    exact .commanded env line ip prefixLen ttlSecs (List.mem_append_left _ hevent) hline hkey
  | scanned src hblock henforce hremote hscan hkey =>
    refine .scanned src hblock henforce hremote ?_ hkey
    rw [List.filterMap_append]
    exact hscan.append _

/-- The IPv4 addresses of the machine are allowlisted. -/
theorem allowlists_of_mem {ip : Ipv4Addr} (h : .v4 ip ∈ localIps) :
    (cli.autoBlockConfig localIps).allowlists ip = true := by
  refine List.any_eq_true.mpr ⟨⟨ip, 32, hostLen_le⟩, List.mem_append_right _ ?_, ?_⟩
  · exact List.mem_filterMap.mpr ⟨.v4 ip, h, rfl⟩
  · exact decide_eq_true (PrefixKey.covers_self (w := 32) ⟨32, ip⟩)

/-! ### Blocks of a packet -/

omit [DetectArith φ] in
theorem autoBlock_config {c : XdpCapture M} {env : Env} {alert : MeasuredAlert φ} :
    (autoBlock cli c env alert).config = c.config := by
  unfold autoBlock
  split
  · split
    · exact XdpCapture.blockIpv4Inner_config ..
    · rfl
  · rfl

variable [LawfulPrefixMap M]

/-- What a block adds to the map is the key of its address, which is not allowlisted. -/
theorem mem_block {c : XdpCapture M} {env : Env} {ip : Ipv4Addr} {ttlNs : Nat}
    {prefixLen : Option UInt8} {bypass : Bool} {e : PrefixKey 32 × UInt64}
    (h : e ∈ PrefixMap.entries (c.blockIpv4Inner env ip ttlNs prefixLen bypass).2.blocklist) :
    e ∈ PrefixMap.entries c.blocklist ∨ e.1 = c.config.blockKey ip prefixLen ∧
      c.config.allowlists ip = false ∧ (c.config.enforce || bypass) = true := by
  obtain ⟨res, c', hres, -, ⟨-, -, hmap⟩ | ⟨-, -, -, hmap⟩ | ⟨hadmits, hins, -⟩⟩ :=
    c.blockIpv4Inner_cases env ip ttlNs prefixLen bypass
  · rw [hres, hmap] at h
    exact .inl h
  · rw [hres, hmap] at h
    exact .inl h
  · rw [hres] at h
    rcases (LawfulPrefixMap.mem_insert hins e).mp h with rfl | ⟨hmem, -⟩
    · simp only [XdpCapture.admits, Bool.and_eq_true, Bool.not_eq_true'] at hadmits
      exact .inr ⟨rfl, hadmits.1.1, hadmits.1.2⟩
    · exact .inl hmem

omit [DetectArith φ] in
/-- What an alert adds is the key of its source, and it is critical. -/
theorem mem_autoBlock {c : XdpCapture M} {env : Env} {alert : MeasuredAlert φ}
    {e : PrefixKey 32 × UInt64} (h : e ∈ PrefixMap.entries (autoBlock cli c env alert).blocklist) :
    e ∈ PrefixMap.entries c.blocklist ∨ cli.xdpAutoBlock = true ∧ alert.severity = .critical ∧
      ∃ ip, alert.srcIp = some (.v4 ip) ∧ e.1 = c.config.blockKey ip none ∧
        c.config.allowlists ip = false ∧ c.config.enforce = true := by
  unfold autoBlock at h
  split at h
  · next ip hsrc =>
    split at h
    · next hblock =>
      rcases mem_block h with hmem | ⟨hkey, hlist, henforce⟩
      · exact .inl hmem
      · rw [Bool.or_false] at henforce
        exact .inr ⟨hblock.1, hblock.2, ip, hsrc, hkey, hlist, henforce⟩
    · exact .inl h
  · exact .inl h

omit [DetectArith φ] in
/-- So it is of all the alerts of a packet. -/
theorem mem_foldl_autoBlock {alerts : List (MeasuredAlert φ × Nat)} {env : Nat → Env}
    {c : XdpCapture M} {e : PrefixKey 32 × UInt64}
    (h : e ∈ PrefixMap.entries (alerts.foldl (fun c (alert, i) => autoBlock cli c (env i) alert)
      c).blocklist) :
    e ∈ PrefixMap.entries c.blocklist ∨ cli.xdpAutoBlock = true ∧
      ∃ alert ∈ alerts, alert.1.severity = .critical ∧ ∃ ip, alert.1.srcIp = some (.v4 ip) ∧
        e.1 = c.config.blockKey ip none ∧ c.config.allowlists ip = false ∧
        c.config.enforce = true := by
  induction alerts generalizing c with
  | nil => exact .inl h
  | cons alert alerts ih =>
    rcases ih h with hmem | ⟨hauto, other, hother, hcritical, ip, hsrc, hkey, hlist, henforce⟩
    · rcases mem_autoBlock hmem with hmem | ⟨hauto, hcritical, hblock⟩
      · exact .inl hmem
      · exact .inr ⟨hauto, alert, .head _, hcritical, hblock⟩
    · rw [autoBlock_config] at hkey hlist henforce
      exact .inr ⟨hauto, other, List.mem_cons_of_mem _ hother, hcritical, ip, hsrc, hkey, hlist,
        henforce⟩

omit [DetectArith φ] [LawfulPrefixMap M] in
theorem foldl_autoBlock_config {alerts : List (MeasuredAlert φ × Nat)} {env : Nat → Env}
    {c : XdpCapture M} :
    (alerts.foldl (fun c (alert, i) => autoBlock cli c (env i) alert) c).config = c.config := by
  induction alerts generalizing c with
  | nil => rfl
  | cons alert alerts ih => exact ih.trans autoBlock_config

omit [DetectArith φ] in
/-- A control line adds what it asks for, and the sweep nothing. -/
theorem mem_act {p : Process φ M} {a : Action} {e : PrefixKey 32 × UInt64}
    (hstart : ∀ persist now, a ≠ .start persist now)
    (h : e ∈ PrefixMap.entries (p.act a).system.capture.blocklist) :
    e ∈ PrefixMap.entries p.system.capture.blocklist ∨
      ∃ env ip ttlNs prefixLen bypass, a.blockRequest = some (env, ip, ttlNs, prefixLen, bypass) ∧
        e.1 = p.system.capture.config.blockKey ip prefixLen := by
  obtain ⟨t, ht, hcases⟩ :=
    act_cases p.system.capture.config p.system.capture.iface p.system a
  rw [Process.act, ht] at h
  obtain ⟨persist, now, ha, -⟩ | ⟨env, ip, ttlNs, prefixLen, bypass, hreq, hcapture⟩ |
    ⟨-, -, -, hkept⟩ := hcases
  · exact absurd ha (hstart persist now)
  · rw [Option.getD_some, hcapture] at h
    rcases mem_block h with hmem | ⟨hkey, -⟩
    · exact .inl hmem
    · exact .inr ⟨env, ip, ttlNs, prefixLen, bypass, hreq, hkey⟩
  · exact .inl (hkept e h)

omit [DetectArith φ] in
theorem act_kept {p : Process φ M} {a : Action} :
    (p.act a).system.capture.config = p.system.capture.config ∧ (p.act a).engine = p.engine := by
  obtain ⟨t, ht, -⟩ := act_cases p.system.capture.config p.system.capture.iface p.system a
  have hconfig := act_config (s := some p.system) (by rintro _ ⟨rfl⟩; rfl) ht
  rw [Process.act, ht]
  exact ⟨hconfig, rfl⟩

/-! ### Steps -/

/-- What holds of every state of a run: the configuration stays, and the port scan detector has seen
the packets so far. -/
structure Process.Follows (w : UsizeWidth) (cli : Cli) (localIps : List IpAddr)
    (events : List LoopEvent) (p : Process φ M) : Prop where
  config : p.system.capture.config = cli.autoBlockConfig localIps
  portscan : p.engine.portscan = .after w localIps.toFinset (10 * 10 ^ 9) ⟨20, 15⟩ ⟨60, 40⟩
    (events.filterMap LoopEvent.sighting)

variable {p : Process φ M} {event : LoopEvent}

theorem Process.Follows.step (h : p.Follows w cli localIps events) :
    (Process.step w cli p event).2.Follows w cli localIps (events ++ [event]) := by
  have hquiet : event.sighting = none →
      (events ++ [event]).filterMap LoopEvent.sighting = events.filterMap LoopEvent.sighting := by
    intro hnone
    simp [hnone]
  cases event with
  | packet ts ev clocks env =>
    unfold Process.step
    dsimp only
    cases hpkt : eventToMeta ts ev with
    | none =>
      refine ⟨h.config, ?_⟩
      rw [hquiet (by simp [LoopEvent.sighting, hpkt])]
      exact h.portscan
    | some pkt =>
      refine ⟨foldl_autoBlock_config.trans h.config, ?_⟩
      have hsighting : (events ++ [LoopEvent.packet ts ev clocks env]).filterMap
          LoopEvent.sighting = events.filterMap LoopEvent.sighting ++
            [clocks.portscan.sighting pkt] := by
        simp [LoopEvent.sighting, hpkt]
      rw [hsighting, PortScanDetector.after, Machine.run_append_singleton]
      exact congrArg (fun d => (PortScanDetector.observe w d _).2) h.portscan
  | control | sweepCollect | sweepRemove =>
    obtain ⟨hconfig, hengine⟩ := act_kept (p := p)
    refine ⟨hconfig.trans h.config, ?_⟩
    rw [hquiet rfl]
    exact hengine ▸ h.portscan
  | reapIdle =>
    refine ⟨h.config, ?_⟩
    rw [hquiet rfl]
    exact h.portscan

omit [LawfulPrefixMap M] [DetectArith φ] [PrefixMap M 32 UInt64] in
/-- A touch by a source that is no address of the machine goes to one that is. -/
theorem dstIp_of_isTouch {fs : Finset IpAddr} {pkt : PacketMeta} (hremote : pkt.srcIp ∉ fs)
    (h : PortScanDetector.isTouch fs pkt = true) : pkt.dstIp ∈ fs := by
  simp only [PortScanDetector.isTouch, Bool.and_eq_true, Bool.or_eq_true, decide_eq_true_eq] at h
  exact h.2.resolve_right hremote

omit [PrefixMap M 32 UInt64] [LawfulPrefixMap M] in
/-- A critical alert for an address that is none of the machine's is about a scan. -/
theorem scannedBy_of_critical (h : p.Follows w cli localIps events) {ts : Nat} {ev : PacketEvent}
    {clocks : Clocks} (env : Nat → Env) {pkt : PacketMeta} (hpkt : eventToMeta ts ev = some pkt)
    {alert : MeasuredAlert φ} {ip : Ipv4Addr} (hremote : .v4 ip ∉ localIps)
    (halert : alert ∈ (DetectionEngine.analyze φ w p.engine { clocks with pkt }).1)
    (hcritical : alert.severity = .critical) (hsrc : alert.srcIp = some (.v4 ip)) :
    ScannedBy localIps.toFinset (.v4 ip)
      ((events ++ [LoopEvent.packet ts ev clocks env]).filterMap LoopEvent.sighting) := by
  have hsighting : (events ++ [LoopEvent.packet ts ev clocks env]).filterMap LoopEvent.sighting =
      events.filterMap LoopEvent.sighting ++ [clocks.portscan.sighting pkt] := by
    simp [LoopEvent.sighting, hpkt]
  have hnone := payloadHead_of_eventToMeta hpkt
  have hscan := (critical_analyze halert hcritical hsrc).resolve_right fun hsig => hsig.1 hnone
  rw [h.portscan] at hscan
  obtain ⟨hwho, htouch, first, rest, hsuffix, hrecent, hmany⟩ :=
    critical_observe_after hscan hcritical
  have hip : (clocks.portscan.sighting pkt).pkt.srcIp = .v4 ip :=
    Option.some.inj (hwho.symm.trans hsrc)
  have hfar : IpAddr.v4 ip ∉ localIps.toFinset := by rwa [List.mem_toFinset]
  have hlocal := dstIp_of_isTouch (hip ▸ hfar) htouch
  rw [hsighting]
  refine ⟨first, rest, hip ▸ hsuffix.isInfix, fun r hr => ?_, hrecent, ?_⟩
  · have hr := List.mem_filter.mp (hsuffix.subset hr)
    obtain ⟨hrtouch, hrsrc⟩ := PortScanDetector.key_eq_some.mp (of_decide_eq_true hr.2)
    exact dstIp_of_isTouch (hrsrc ▸ hip ▸ hfar) hrtouch
  · have hhundred : w.saturatingMul 20 5 = 100 := by cases w <;> decide
    rw [if_pos hlocal, hhundred] at hmany
    exact hmany

/-- A step gives a reason for each prefix that it puts into the map. -/
theorem reason_step (h : p.Follows w cli localIps events)
    (hreason : ∀ e ∈ PrefixMap.entries p.system.capture.blocklist,
      BlockReason cli localIps persist now events e.1) :
    ∀ e ∈ PrefixMap.entries (Process.step w cli p event).2.system.capture.blocklist,
      BlockReason cli localIps persist now (events ++ [event]) e.1 := by
  intro e he
  cases event with
  | packet ts ev clocks env =>
    unfold Process.step at he
    dsimp only at he
    cases hpkt : eventToMeta ts ev with
    | none =>
      rw [hpkt] at he
      exact (hreason e he).append _
    | some pkt =>
      rw [hpkt] at he
      rcases mem_foldl_autoBlock he with hmem |
        ⟨hblock, alert, halert, hcritical, ip, hsrc, hkey, hlist, henforce⟩
      · exact (hreason e hmem).append _
      · rw [h.config] at hkey hlist henforce
        have hremote : .v4 ip ∉ localIps := fun hmem => by
          rw [allowlists_of_mem hmem] at hlist
          cases hlist
        have hscan := scannedBy_of_critical h env hpkt hremote
          (List.fst_mem_of_mem_zipIdx halert) hcritical hsrc
        exact .scanned ip hblock henforce hremote hscan hkey
  | control env line =>
    rcases mem_act (by simp) he with hmem | ⟨env', ip, ttlNs, prefixLen, bypass, hreq, hkey⟩
    · exact (hreason e hmem).append _
    · simp only [Action.blockRequest] at hreq
      split at hreq
      · next ip' prefixLen' ttlSecs hline =>
        cases hreq
        exact .commanded env line ip prefixLen ttlSecs (by simp) hline (h.config ▸ hkey)
      · cases hreq
  | sweepCollect | sweepRemove =>
    rcases mem_act (by simp) he with hmem | ⟨_, _, _, _, _, hreq, -⟩
    · exact (hreason e hmem).append _
    · cases hreq
  | reapIdle => exact (hreason e he).append _

/-! ### Runs -/

/-- The process after some events. -/
def Process.after (w : UsizeWidth) (cli : Cli) (localIps : List IpAddr) (iface : Str)
    (persist : Option FileRead) (now : UInt64) (events : List LoopEvent) : Process φ M :=
  ((Process.step w cli).run (.start cli localIps iface persist now) events).2

omit [DetectArith φ] in
/-- What is restored comes from an entry that has not expired. -/
theorem mem_foldl_restoreEntry {es : List BlocklistEntry} {m : M} {e : PrefixKey 32 × UInt64}
    (h : e ∈ PrefixMap.entries (es.foldl (restoreEntry now) m)) :
    e ∈ PrefixMap.entries m ∨ ∃ r ∈ es, now < r.2.2 ∧ e.1 = blockKey r.1 r.2.1 := by
  induction es generalizing m with
  | nil => exact .inl h
  | cons r es ih =>
    rcases ih h with hmem | ⟨r', hr', hlater, hkey⟩
    · rw [restoreEntry] at hmem
      split at hmem
      · exact .inl hmem
      · next hlater =>
        cases hins : PrefixMap.insert m (blockKey r.1 r.2.1) r.2.2 with
        | none =>
          rw [hins] at hmem
          exact .inl hmem
        | some m' =>
          rw [hins] at hmem
          rcases (LawfulPrefixMap.mem_insert hins e).mp hmem with rfl | ⟨hmem, -⟩
          · exact .inr ⟨r, .head _, UInt64.not_le.mp hlater, rfl⟩
          · exact .inl hmem
    · exact .inr ⟨r', .tail _ hr', hlater, hkey⟩

omit [DetectArith φ] in
/-- The prefixes that are there at the start are those of lines of the file. -/
theorem reason_of_mem_start {config : AutoBlockConfig} {iface : Str} {e : PrefixKey 32 × UInt64}
    (h : e ∈ PrefixMap.entries (Nsm.start (M := M) config iface persist now).blocklist) :
    BlockReason cli localIps persist now [] e.1 := by
  unfold Nsm.start at h
  dsimp only at h
  split at h
  · rw [LawfulPrefixMap.entries_empty] at h
    cases h
  · next file =>
    rcases mem_foldl_restoreEntry h with hmem | ⟨⟨ip, prefixLen, expiryNs⟩, hr, hlater, hkey⟩
    · rw [LawfulPrefixMap.entries_empty] at hmem
      cases hmem
    · cases file with
      | notFound | failed => cases hr
      | contents text =>
        obtain ⟨line, hline, hparsed⟩ := List.mem_filterMap.mp hr
        dsimp only at hparsed
        split at hparsed
        · cases hparsed
        · exact .restored text line ip prefixLen expiryNs rfl hline hparsed hlater hkey

/-- After any events, there is a reason for every prefix in the map. -/
theorem reason_of_mem {iface : Str} {e : PrefixKey 32 × UInt64}
    (he : e ∈ PrefixMap.entries (Process.after (φ := φ) (M := M) w cli localIps iface persist now
      events).system.capture.blocklist) :
    BlockReason cli localIps persist now events e.1 := by
  have hrun : (Process.after (φ := φ) (M := M) w cli localIps iface persist now events).Follows w
        cli localIps events ∧
      ∀ e ∈ PrefixMap.entries (Process.after (φ := φ) (M := M) w cli localIps iface persist now
        events).system.capture.blocklist,
          BlockReason cli localIps persist now events e.1 := by
    clear he
    induction events using List.reverseRecOn with
    | nil =>
      exact ⟨⟨rfl, rfl⟩, fun e he => reason_of_mem_start he⟩
    | append_singleton events event ih =>
      rw [Process.after, Machine.run_append_singleton]
      exact ⟨ih.1.step, reason_step ih.1 ih.2⟩
  exact hrun.2 e he

/-- A frame that the program drops while the process runs has an IPv4 source that a prefix covers
for which there is a reason. -/
theorem dropped_for_a_reason (φ M : Type) [DetectArith φ] [PrefixMap M 32 UInt64]
    [LawfulPrefixMap M] (w : UsizeWidth) (cli : Cli) (localIps : List IpAddr) (iface : Str)
    (persist : Option FileRead) (now : UInt64) (events : List LoopEvent) (ctx : XdpContext)
    (stats : Stats)
    (hdrop : (nsmXdp (Process.after (φ := φ) (M := M) w cli localIps iface persist now
      events).system.capture.blocklist ctx stats).action = .drop) :
    ∃ src key, ipv4Source ctx = some src ∧ key.Covers src ∧
      BlockReason cli localIps persist now events key := by
  obtain ⟨src, hsrc, e, ⟨hmem, hcovers, -⟩, -⟩ := (nsmXdp_drop_iff _ ctx stats).mp hdrop
  exact ⟨src, e.1, hsrc, hcovers, reason_of_mem hmem⟩

end

/-- No automatic blocks. -/
def commandedCli : Cli where
  xdpAllowlist := []
  xdpAutoBlock := false
  xdpAutoBlockEnforce := false
  xdpBlockSecs := 300
  xdpBlockPrefixLen := 32
  xdpAutoBlockRateLimit := 20
  xdpAutoBlockRateWindowSecs := 60

/-- A file with a block until half an hour after the start, and one that has expired. -/
def twoBlocks : FileRead :=
  .contents "10.0.0.7/32 1800000000000\n10.0.0.8/32 0\n".toList

/-- A command for another address. -/
def blockNine : List LoopEvent := [.control ⟨0, 0, false⟩ "BLOCK 10.0.0.9".toList]

/-- After it the packets of its address are dropped, and so are those of the restored one. -/
theorem dropped_for_a_command :
    (∃ src key, ipv4Source (minimalContext (Ipv4Addr.new 10 0 0 7) 0) = some src ∧
      key.Covers src ∧ BlockReason commandedCli [] (some twoBlocks) 0 blockNine key) ∧
    ∃ src key, ipv4Source (minimalContext (Ipv4Addr.new 10 0 0 9) 0) = some src ∧
      key.Covers src ∧ BlockReason commandedCli [] (some twoBlocks) 0 blockNine key := by
  constructor
  · exact dropped_for_a_reason Float (ListTrie 32 UInt64 16) .w64 commandedCli [] "eth0".toList
      (some twoBlocks) 0 blockNine (minimalContext (Ipv4Addr.new 10 0 0 7) 0) ⟨0, 0, 0, 0⟩
      (by decide)
  · exact dropped_for_a_reason Float (ListTrie 32 UInt64 16) .w64 commandedCli [] "eth0".toList
      (some twoBlocks) 0 blockNine (minimalContext (Ipv4Addr.new 10 0 0 9) 0) ⟨0, 0, 0, 0⟩
      (by decide)

end ActiveDefense.Nsm
