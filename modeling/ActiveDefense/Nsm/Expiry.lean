import ActiveDefense.Nsm.System
import Mathlib.Data.UInt

/-!
# Expiry of blocks

Two facts about the kernel's check `now < expiry`. The lookup answers with one entry, the most
specific, so a live block can be hidden by an expired one (`live_dropped_iff`). And the expiry is
stored by userspace from the wall clock while the kernel compares it with the time since boot:
`elapsed_passes` is the condition, on what the block reads of the wall clock and its TTL, under
which a block ends when its TTL does.
-/

namespace ActiveDefense.Nsm

/-! ## Live blocks behind expired ones -/

section
variable {M : Type} [PrefixMap M 32 UInt64]

/-- A stored prefix that covers the source and is not expired. -/
def Live (m : M) (src : Ipv4Addr) (now : UInt64) (e : PrefixKey 32 × UInt64) : Prop :=
  e ∈ PrefixMap.entries m ∧ e.1.Covers src ∧ now < e.2

/-- A stored prefix that covers the source and is expired. -/
def Expired (m : M) (src : Ipv4Addr) (now : UInt64) (e : PrefixKey 32 × UInt64) : Prop :=
  e ∈ PrefixMap.entries m ∧ e.1.Covers src ∧ e.2 ≤ now

/-- A live block of the source means a drop exactly when no expired block of it is more specific
than every live one. -/
theorem live_dropped_iff [LawfulPrefixMap M] (m : M) (ctx : XdpContext) (stats : Stats)
    {src : Ipv4Addr} (hsrc : ipv4Source ctx = some src) :
    ((∃ e, Live m src ctx.nowNs e) → (nsmXdp m ctx stats).action = .drop) ↔
      ∀ f, Expired m src ctx.nowNs f → (∃ e, Live m src ctx.nowNs e) →
        ∃ e, Live m src ctx.nowNs e ∧ f.1.prefixLen ≤ e.1.prefixLen := by
  have hdrop : (nsmXdp m ctx stats).action = .drop ↔
      ∃ e, IsLongest (PrefixMap.entries m) src e ∧ ctx.nowNs < e.2 := by
    rw [nsmXdp_drop_iff, hsrc]
    simp
  rw [hdrop]
  constructor
  · intro h f hf hlive
    obtain ⟨e, he, hnow⟩ := h hlive
    exact ⟨e, ⟨he.1, he.2.1, hnow⟩, he.2.2 f hf.1 hf.2.1⟩
  · rintro h ⟨e, he⟩
    obtain ⟨l, hl⟩ := exists_isLongest he.1 he.2.1
    refine ⟨l, hl, ?_⟩
    by_cases hnow : ctx.nowNs < l.2
    · exact hnow
    · -- the longest entry is expired, so a live one has its length and is that entry
      obtain ⟨g, hg, hle⟩ := h l ⟨hl.1, hl.2.1, UInt64.not_lt.mp hnow⟩ ⟨e, he⟩
      have hlen := Nat.le_antisymm hle (hl.2.2 g hg.1 hg.2.1)
      have heq : l = g := eq_of_pairwise_not_same (LawfulPrefixMap.distinct m) hl.1 hg.1
        (.of_covers hlen hl.2.1 hg.2.1)
      exact heq ▸ hg.2.2

end

/-- A live `/24` block and an expired `/32` block inside it. -/
def shadowedMap : ListTrie 32 UInt64 16 where
  entries := [(⟨32, Ipv4Addr.new 10 0 0 9⟩, 50), (⟨24, Ipv4Addr.new 10 0 0 1⟩, 200)]
  bounded := by decide
  distinct := by decide

/-- The neighbour of the expired host is dropped by the live `/24` block. -/
theorem live_dropped_shadowedMap :
    (nsmXdp shadowedMap (minimalContext (Ipv4Addr.new 10 0 0 8) 100) ⟨0, 0, 0, 0⟩).action =
      .drop := by
  refine (live_dropped_iff shadowedMap _ _ (ipv4Source_minimalContext _ 100)).mpr ?_
    ⟨(⟨24, Ipv4Addr.new 10 0 0 1⟩, 200), by decide, by decide +kernel, by decide⟩
  rintro f ⟨hf, hcov, hle⟩
  have hnone : ∀ f ∈ PrefixMap.entries shadowedMap,
      f.1.Covers (Ipv4Addr.new 10 0 0 8) → ¬ f.2 ≤ 100 := by decide +kernel
  exact absurd hle (hnone f hf hcov)

/-- The expired host itself passes, although a live block covers it. -/
theorem not_live_dropped :
    ¬ ∀ (m : ListTrie 32 UInt64 16) (ctx : XdpContext) (stats : Stats) (src : Ipv4Addr),
      ipv4Source ctx = some src → (∃ e, Live m src ctx.nowNs e) →
      (nsmXdp m ctx stats).action = .drop := by
  intro h
  have hdrop := h shadowedMap (minimalContext (Ipv4Addr.new 10 0 0 9) 100) ⟨0, 0, 0, 0⟩ _
    (ipv4Source_minimalContext _ _)
    ⟨(⟨24, Ipv4Addr.new 10 0 0 1⟩, 200), by decide, by decide, by decide⟩
  exact absurd hdrop (by decide)

/-! ## The two clocks -/

/-- A block that was carried out: its key, the monotonic time, what `now_ns` read then, and its TTL
in nanoseconds. -/
structure BlockRecord where
  key : PrefixKey 32
  insertedAt : UInt64
  wallNs : UInt64
  ttlNs : Nat
deriving DecidableEq, Repr

/-- The monotonic time at which the block's TTL has elapsed. -/
def BlockRecord.ends (r : BlockRecord) : Nat := r.insertedAt.toNat + r.ttlNs

/-- The expiry the block stored. -/
def BlockRecord.stored (r : BlockRecord) : UInt64 := expiryNs r.wallNs r.ttlNs

/-- What a block stores is the end of its TTL on the wall clock it read, in 64 bits. -/
theorem BlockRecord.stored_toNat (r : BlockRecord) :
    r.stored.toNat = (r.wallNs.toNat + r.ttlNs) % 2 ^ 64 := by
  simp [stored, expiryNs, Nat.add_mod]

/-- The expiry the block stored is not past the monotonic time its TTL ends at. -/
def BlockRecord.InTime (r : BlockRecord) : Prop :=
  (r.wallNs.toNat + r.ttlNs) % 2 ^ 64 ≤ r.insertedAt.toNat + r.ttlNs

instance (r : BlockRecord) : Decidable r.InTime := by unfold BlockRecord.InTime; infer_instance

/-- The process on a host with its monotonic clock, and the blocks carried out so far. -/
structure Host (M : Type) where
  process : Option (System M)
  mono : UInt64
  blocks : List BlockRecord

/-- What happens on the host: time passes, or the process acts. -/
inductive HostAction where
  | tick (now : UInt64)
  | act (a : Action)

section
variable {M : Type} [PrefixMap M 32 UInt64]

/-- The action asks the running process for a block that is taken: its record. -/
def Action.takenBlock (a : Action) (s : Host M) : Option BlockRecord :=
  match s.process, a.blockRequest with
  | some p, some (env, ip, ttlNs, prefixLen, bypass) =>
    if p.capture.takes env ip ttlNs prefixLen bypass then
      some ⟨p.capture.config.blockKey ip prefixLen, s.mono, env.wallNs, ttlNs⟩
    else none
  | _, _ => none

/-- The host after an action of the process. -/
def Host.act (config : AutoBlockConfig) (iface : Str) (s : Host M) (a : Action) : Host M where
  process := Nsm.act config iface s.process a
  mono := s.mono
  blocks := (a.takenBlock s).toList ++ s.blocks

/-- One step of the host. The monotonic clock never goes back; the wall clock can be set at any
time, so that what an action reads of it is not tied to the monotonic clock. -/
inductive HostStep (config : AutoBlockConfig) (iface : Str) :
    Host M → HostAction → Host M → Prop
  | tick {s : Host M} {now : UInt64} : s.mono ≤ now →
      HostStep config iface s (.tick now) { s with mono := now }
  | act (s : Host M) (a : Action) : HostStep config iface s (.act a) (s.act config iface a)

/-- A block that the action takes stores its expiry in time. -/
def HostMeets (s : Host M) (l : HostAction) : Prop :=
  ∀ a r, l = .act a → a.takenBlock s = some r → r.InTime

/-- Each stored prefix that covers the source was stored by a block whose TTL has elapsed. -/
def Elapsed (s : Host M) (p : System M) (src : Ipv4Addr) : Prop :=
  ∀ e ∈ PrefixMap.entries p.capture.blocklist, e.1.Covers src →
    ∃ r ∈ s.blocks, e.1.Same r.key ∧ e.2 = r.stored ∧ r.ends ≤ s.mono.toNat

/-- The blocks of a run whose steps meet the condition store their expiry in time. -/
theorem inTime_of_run {config : AutoBlockConfig} {iface : Str} {mono : UInt64}
    {ls : List HostAction} {s : Host M}
    (h : Run (HostStep config iface) HostMeets (⟨none, mono, []⟩ : Host M) ls s) :
    ∀ r ∈ s.blocks, r.InTime := by
  refine h.invariant (I := fun s : Host M => ∀ r ∈ s.blocks, r.InTime) (by simp)
    fun t l u ht hmeets hstep r hr => ?_
  cases hstep with
  | tick => exact ht r hr
  | act =>
    rcases List.mem_append.mp hr with hr | hr
    · exact hmeets _ r rfl (Option.mem_toList.mp hr)
    · exact ht r hr

variable [LawfulPrefixMap M]

/-- A source whose blocks have elapsed is still dropped exactly when the block that stored the most
specific entry stored an expiry the monotonic clock has not reached. -/
theorem elapsed_dropped_iff {s : Host M} {p : System M} {src : Ipv4Addr}
    (helapsed : Elapsed s p src) {ctx : XdpContext} (hsrc : ipv4Source ctx = some src)
    (hnow : ctx.nowNs = s.mono) (stats : Stats) :
    (nsmXdp p.capture.blocklist ctx stats).action = .drop ↔
      ∃ e, IsLongest (PrefixMap.entries p.capture.blocklist) src e ∧
        ∃ r ∈ s.blocks, e.1.Same r.key ∧ e.2 = r.stored ∧ r.ends ≤ s.mono.toNat ∧
          s.mono.toNat < (r.wallNs.toNat + r.ttlNs) % 2 ^ 64 := by
  rw [nsmXdp_drop_iff, hsrc, hnow]
  simp only [Option.some.injEq, exists_eq_left']
  refine exists_congr fun e => and_congr_right fun hlong => ?_
  constructor
  · intro hlt
    obtain ⟨r, hr, hsame, hstored, hends⟩ := helapsed e hlong.1 hlong.2.1
    refine ⟨r, hr, hsame, hstored, hends, ?_⟩
    rw [← r.stored_toNat, ← hstored]
    exact UInt64.lt_iff_toNat_lt.mp hlt
  · rintro ⟨r, -, -, hstored, -, hlt⟩
    rw [hstored, UInt64.lt_iff_toNat_lt, r.stored_toNat]
    exact hlt

/-- In a run whose blocks meet the condition, a source whose blocks have elapsed passes, swept or
not. -/
theorem elapsed_passes (config : AutoBlockConfig) (iface : Str) (mono : UInt64)
    {ls : List HostAction} {s : Host M}
    (h : Run (HostStep config iface) HostMeets (⟨none, mono, []⟩ : Host M) ls s) :
    ∀ p ∈ s.process, ∀ (ctx : XdpContext) (stats : Stats) (src : Ipv4Addr),
      ipv4Source ctx = some src → ctx.nowNs = s.mono → Elapsed s p src →
      (nsmXdp p.capture.blocklist ctx stats).action = .pass := by
  intro p _ ctx stats src hsrc hnow helapsed
  cases hact : (nsmXdp p.capture.blocklist ctx stats).action with
  | pass => rfl
  | drop =>
    obtain ⟨e, -, r, hr, -, -, hends, hlt⟩ := (elapsed_dropped_iff helapsed hsrc hnow stats).mp hact
    have hle : (r.wallNs.toNat + r.ttlNs) % 2 ^ 64 ≤ r.ends := inTime_of_run h r hr
    omega

end

/-- Enforces single-host blocks. -/
def enforcingConfig : AutoBlockConfig := { AutoBlockConfig.default with enforce := true }

/-- A host a thousand seconds after its boot, before the process runs. -/
def bootedHost : Host (ListTrie 32 UInt64 16) := ⟨none, 1000 * 10 ^ 9, []⟩

/-- The block of 10.0.0.9 for five minutes, asked for when the wall clock reads `wall`. -/
def fiveMinuteBlock (wall : UInt64) : Action :=
  .autoBlock ⟨wall, 0, true⟩ (Ipv4Addr.new 10 0 0 9) (fromSecs 300) none

/-- The host when the process has started. -/
def startedHost (wall : UInt64) : Host (ListTrie 32 UInt64 16) :=
  bootedHost.act enforcingConfig [] (.start none wall)

/-- The same host six minutes after the block. -/
def sixMinutesLater (wall : UInt64) : Host (ListTrie 32 UInt64 16) :=
  { (startedHost wall).act enforcingConfig [] (fiveMinuteBlock wall) with mono := 1360 * 10 ^ 9 }

theorem run_sixMinutesLater (wall : UInt64)
    (ok : Host (ListTrie 32 UInt64 16) → HostAction → Prop)
    (h₁ : ok bootedHost (.act (.start none wall)))
    (h₂ : ok (startedHost wall) (.act (fiveMinuteBlock wall)))
    (h₃ : ok ((startedHost wall).act enforcingConfig [] (fiveMinuteBlock wall))
      (.tick (1360 * 10 ^ 9))) :
    ∃ ls, Run (HostStep enforcingConfig []) ok bootedHost ls (sixMinutesLater wall) := by
  have hstart : Run (HostStep enforcingConfig []) ok bootedHost
      [.act (.start none wall)] (startedHost wall) :=
    Run.nil.snoc h₁ (.act _ _)
  have hle : (1000 * 10 ^ 9 : UInt64) ≤ 1360 * 10 ^ 9 := by decide
  exact ⟨_, (hstart.snoc h₂ (.act _ _)).snoc h₃ (.tick hle)⟩

/-- On a host whose wall clock counts from its boot as long as nobody sets it, the block ends with
its TTL. -/
theorem passes_sixMinutesLater :
    ∃ p, (sixMinutesLater (1000 * 10 ^ 9)).process = some p ∧
      (nsmXdp p.capture.blocklist (minimalContext (Ipv4Addr.new 10 0 0 9) (1360 * 10 ^ 9))
        ⟨0, 0, 0, 0⟩).action = .pass := by
  obtain ⟨p, hp⟩ : ∃ p, (sixMinutesLater (1000 * 10 ^ 9)).process = some p := ⟨_, rfl⟩
  refine ⟨p, hp, ?_⟩
  have htaken : (fiveMinuteBlock (1000 * 10 ^ 9)).takenBlock (startedHost (1000 * 10 ^ 9)) =
      some ⟨⟨32, Ipv4Addr.new 10 0 0 9⟩, 1000 * 10 ^ 9, 1000 * 10 ^ 9, fromSecs 300⟩ := by decide
  obtain ⟨ls, hrun⟩ := run_sixMinutesLater (1000 * 10 ^ 9) HostMeets
    (by rintro a r ⟨⟩ ⟨⟩)
    (by
      rintro a r ⟨⟩ hr
      cases htaken.symm.trans hr
      decide)
    (by rintro a r ⟨⟩)
  refine elapsed_passes enforcingConfig [] _ hrun p hp _ _ _ (ipv4Source_minimalContext _ _)
    rfl ?_
  cases hp
  unfold Elapsed
  decide

/-- On a host of the present day it does not: six minutes after a block of five, the source is
still dropped. -/
theorem not_elapsed_passes :
    ¬ ∀ (config : AutoBlockConfig) (iface : Str) (mono : UInt64)
      (ls : List HostAction) (s : Host (ListTrie 32 UInt64 16)),
      Run (HostStep config iface) (fun _ _ => True) ⟨none, mono, []⟩ ls s →
      ∀ p ∈ s.process, ∀ (ctx : XdpContext) (stats : Stats) (src : Ipv4Addr),
        ipv4Source ctx = some src → ctx.nowNs = s.mono → Elapsed s p src →
        (nsmXdp p.capture.blocklist ctx stats).action = .pass := by
  intro h
  obtain ⟨ls, hrun⟩ := run_sixMinutesLater (17 * 10 ^ 17) (fun _ _ => True)
    trivial trivial trivial
  obtain ⟨p, hp⟩ : ∃ p, (sixMinutesLater (17 * 10 ^ 17)).process = some p := ⟨_, rfl⟩
  have hpass := h _ _ _ _ _ hrun p hp
    (minimalContext (Ipv4Addr.new 10 0 0 9) (1360 * 10 ^ 9)) ⟨0, 0, 0, 0⟩ _
    (ipv4Source_minimalContext _ _) rfl
    (by
      cases hp
      unfold Elapsed
      decide)
  cases hp
  exact absurd hpass (by decide)

end ActiveDefense.Nsm
