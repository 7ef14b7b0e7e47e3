import ActiveDefense.Nsm.System

/-!
# The allowlist and the map

`block_ipv4_inner` tests the allowlist against the one address it is given and then inserts a
prefix, and a restored file is not tested at all. `allowlisted_passes` is the condition under
which no allowlisted source is ever dropped: every prefix that enters the map differs from each
allowlisted network within the bits they share. `not_allowlisted_passes` is a run that breaks it.
-/

namespace ActiveDefense.Nsm

/-- The prefix and each allowlisted network differ within the shorter of their two lengths. -/
def AutoBlockConfig.ClearOf (config : AutoBlockConfig) (key : PrefixKey 32) : Prop :=
  ∀ net ∈ config.allowlist, ¬ SamePrefix (min net.prefixLen key.prefixLen) net.addr key.data

instance (config : AutoBlockConfig) (key : PrefixKey 32) : Decidable (config.ClearOf key) :=
  inferInstanceAs (Decidable (∀ net ∈ config.allowlist, _))

/-- A prefix is clear of the allowlist exactly when it covers no allowlisted address. -/
theorem clearOf_iff (config : AutoBlockConfig) (key : PrefixKey 32) :
    config.ClearOf key ↔ ∀ a, config.allowlists a = true → ¬ key.Covers a := by
  simp only [AutoBlockConfig.ClearOf, AutoBlockConfig.allowlists, List.any_eq_true,
    Network.contains, decide_eq_true_eq]
  constructor
  · rintro h a ⟨net, hnet, hcov⟩ hkey
    exact h net hnet ((PrefixKey.overlaps_iff net.key key).mp ⟨a, hcov, hkey⟩)
  · intro h net hnet hsame
    obtain ⟨a, hcov, hkey⟩ := (PrefixKey.overlaps_iff net.key key).mpr hsame
    exact h a ⟨net, hnet, hcov⟩ hkey

/-- Being clear of the allowlist does not depend on a prefix's host bits. -/
theorem clearOf_congr {config : AutoBlockConfig} {k l : PrefixKey 32} (h : k.Same l) :
    config.ClearOf k ↔ config.ClearOf l := by
  simp only [clearOf_iff, h.covers_iff]

section
variable {M : Type} [PrefixMap M 32 UInt64]

/-- No stored prefix covers an allowlisted address. -/
def MapClear (config : AutoBlockConfig) (m : M) : Prop :=
  ∀ e ∈ PrefixMap.entries m, ∀ a, config.allowlists a = true → ¬ e.1.Covers a

/-- Each unexpired entry of the file that the map takes at its turn is clear of the allowlist. -/
def RestoreMeets (config : AutoBlockConfig) (now : UInt64) : M → List BlocklistEntry → Prop
  | _, [] => True
  | m, e :: es =>
    (now < e.2.2 → (PrefixMap.insert m (blockKey e.1 e.2.1) e.2.2).isSome →
      config.ClearOf (blockKey e.1 e.2.1)) ∧
    RestoreMeets config now (restoreEntry now m e) es

/-- The prefixes the action puts into the map are clear of the allowlist: the entries a start
restores, and the key of a block that is taken. -/
def ActionMeets (config : AutoBlockConfig) (s : Option (System M)) (a : Action) : Prop :=
  (∀ file now, a = .start (some file) now →
    RestoreMeets config now (PrefixMap.empty : M) ((loadPersistedBlocklist file).getD [])) ∧
  (∀ s' ∈ s, ∀ env ip ttlNs prefixLen bypass,
    a.blockRequest = some (env, ip, ttlNs, prefixLen, bypass) →
    s'.capture.takes env ip ttlNs prefixLen bypass →
    config.ClearOf (config.blockKey ip prefixLen))

variable [LawfulPrefixMap M] {config : AutoBlockConfig}

/-- An attempted insert keeps the map clear exactly when the map was clear and, if the map takes
the key, the key is clear. -/
theorem mapClear_insert_iff (m : M) (k : PrefixKey 32) (v : UInt64) :
    MapClear config ((PrefixMap.insert m k v).getD m) ↔
      MapClear config m ∧ ((PrefixMap.insert m k v).isSome → config.ClearOf k) := by
  cases hins : PrefixMap.insert m k v with
  | none => simp
  | some m' =>
    have hmem := LawfulPrefixMap.mem_insert hins
    simp only [Option.getD_some, Option.isSome_some, true_imp_iff, MapClear, ← clearOf_iff]
    constructor
    · intro h
      have hk : config.ClearOf k := h (k, v) ((hmem _).mpr (.inl rfl))
      refine ⟨fun e he => ?_, hk⟩
      by_cases hs : e.1.Same k
      · exact (clearOf_congr hs).mpr hk
      · exact h e ((hmem e).mpr (.inr ⟨he, hs⟩))
    · rintro ⟨hm, hk⟩ e he
      rcases (hmem e).mp he with rfl | ⟨he, -⟩
      · exact hk
      · exact hm e he

/-- Restoring a file keeps the map clear exactly when what it restores is clear. -/
theorem mapClear_restore_iff (now : UInt64) (entries : List BlocklistEntry) (m : M) :
    MapClear config (entries.foldl (restoreEntry now) m) ↔
      MapClear config m ∧ RestoreMeets config now m entries := by
  induction entries generalizing m with
  | nil => simp [RestoreMeets]
  | cons e es ih =>
    rw [List.foldl_cons, ih, RestoreMeets, ← and_assoc]
    refine and_congr_left fun _ => ?_
    by_cases hexp : e.2.2 ≤ now
    · simp [restoreEntry, hexp, UInt64.not_lt.mpr hexp]
    · simp only [restoreEntry, hexp, if_false, mapClear_insert_iff, UInt64.not_le.mp hexp,
        true_imp_iff]

/-- A start leaves a clear map exactly when it meets the condition. -/
theorem mapClear_start_iff (iface : Str) (s : Option (System M)) (persist : Option FileRead)
    (now : UInt64) :
    MapClear config (start config iface persist now : XdpCapture M).blocklist ↔
      ActionMeets config s (.start persist now) := by
  have hempty : MapClear config (PrefixMap.empty : M) := by
    intro e he
    simp [LawfulPrefixMap.entries_empty] at he
  cases persist with
  | none => simp [start, hempty, ActionMeets, Action.blockRequest]
  | some file => simp [start, mapClear_restore_iff, hempty, ActionMeets, Action.blockRequest]

/-- A block leaves a clear map clear exactly when its key is clear, if it gets as far as the
map. -/
theorem mapClear_block_iff {c : XdpCapture M} (hconfig : c.config = config)
    (hm : MapClear config c.blocklist) (env : Env) (ip : Ipv4Addr) (ttlNs : Nat)
    (prefixLen : Option UInt8) (bypass : Bool) :
    MapClear config (c.blockIpv4Inner env ip ttlNs prefixLen bypass).2.blocklist ↔
      (c.takes env ip ttlNs prefixLen bypass → config.ClearOf (config.blockKey ip prefixLen)) := by
  rw [c.blockIpv4Inner_blocklist, XdpCapture.takes, hconfig]
  cases c.admits env ip bypass with
  | false => simp [hm]
  | true => simp [hm, mapClear_insert_iff]

/-- What every state of a run satisfies: the process keeps its configuration and a clear map. -/
def SystemClear (config : AutoBlockConfig) (s : Option (System M)) : Prop :=
  ∀ s' ∈ s, s'.capture.config = config ∧ MapClear config s'.capture.blocklist

/-- An action keeps the map clear exactly when it meets the condition. -/
theorem systemClear_act_iff (iface : Str) {s : Option (System M)} (hs : SystemClear config s)
    (a : Action) : SystemClear config (act config iface s a) ↔ ActionMeets config s a := by
  cases s with
  | none =>
    cases a with
    | start persist now =>
      rw [← mapClear_start_iff iface]
      simp [SystemClear, act, start]
    | _ => simp [SystemClear, act, ActionMeets]
  | some s =>
    obtain ⟨hconfig, hm⟩ := hs s rfl
    obtain ⟨t, ht, ⟨persist, now, rfl, hcap⟩ | ⟨env, ip, ttlNs, prefixLen, bypass, hreq, hcap⟩ |
      ⟨hreq, hne, hcfg, hsub⟩⟩ := act_cases config iface s a
    · rw [ht, ← mapClear_start_iff iface]
      simp [SystemClear, hcap, start]
    · have hstart : ∀ persist now, a ≠ .start persist now := by
        rintro persist now rfl
        cases hreq
      have hblock := mapClear_block_iff hconfig hm env ip ttlNs prefixLen bypass
      simp only [SystemClear, ht, Option.mem_some_iff, forall_eq', hcap,
        XdpCapture.blockIpv4Inner_config, hconfig, true_and, hblock, ActionMeets, hreq,
        Option.some.injEq, Prod.mk.injEq]
      constructor
      · intro h
        refine ⟨fun file now ha => absurd ha (hstart _ _), ?_⟩
        rintro env ip ttlNs prefixLen bypass ⟨rfl, rfl, rfl, rfl, rfl⟩
        exact h
      · rintro ⟨-, h⟩
        exact h _ _ _ _ _ ⟨rfl, rfl, rfl, rfl, rfl⟩
    · refine iff_of_true ?_ ⟨fun file now ha => absurd ha (hne _ _), ?_⟩
      · rintro t' ht'
        rw [ht] at ht'
        cases ht'
        exact ⟨hcfg.trans hconfig, fun e he => hm e (hsub e he)⟩
      · intro s' _ env ip ttlNs prefixLen bypass h
        rw [hreq] at h
        cases h

/-- In a run whose actions meet the condition, no stored prefix covers an allowlisted address, and
the XDP program passes every frame from one. -/
theorem allowlisted_passes (config : AutoBlockConfig) (iface : Str) {as : List Action}
    {s : System M}
    (h : Run (SystemStep config iface) (ActionMeets config) (none : Option (System M)) as (some s)) :
    MapClear config s.capture.blocklist ∧
      ∀ (ctx : XdpContext) (stats : Stats) (src : Ipv4Addr), ipv4Source ctx = some src →
        config.allowlists src = true → (nsmXdp s.capture.blocklist ctx stats).action = .pass := by
  have hclear : SystemClear config (some s) := by
    refine h.invariant (by simp [SystemClear]) fun t a u ht hmeets hstep => ?_
    rw [hstep]
    exact (systemClear_act_iff iface ht a).mpr hmeets
  obtain ⟨-, hm⟩ := hclear s rfl
  refine ⟨hm, fun ctx stats src hsrc hallow => ?_⟩
  cases hact : (nsmXdp s.capture.blocklist ctx stats).action with
  | pass => rfl
  | drop =>
    obtain ⟨src', hsrc', e, ⟨he, hcov, -⟩, -⟩ := (nsmXdp_drop_iff _ ctx stats).mp hact
    rw [hsrc] at hsrc'
    cases hsrc'
    exact absurd hcov (hm e he src hallow)

end

/-- Blocks `/24` networks, and allowlists the one host 10.0.0.5. -/
def gatewayConfig : AutoBlockConfig :=
  { AutoBlockConfig.default with
    allowlist := [⟨Ipv4Addr.new 10 0 0 5, 32, hostLen_le⟩]
    enforce := true
    prefixLen := 24 }

/-- The gateway's process, over an empty reference map. -/
def gateway : System (ListTrie 32 UInt64 16) := ⟨start gatewayConfig "eth0".toList none 0, []⟩

/-- The same after one automatic block of `ip` for five minutes. -/
def gatewayAfterBlock (ip : Ipv4Addr) : System (ListTrie 32 UInt64 16) :=
  ⟨(gateway.capture.blockIpv4 epochEnv ip (fromSecs 300) none).2, []⟩

theorem run_gatewayAfterBlock {ok : Option (System (ListTrie 32 UInt64 16)) → Action → Prop}
    (ip : Ipv4Addr) (h₁ : ok none (.start none 0))
    (h₂ : ok (some gateway) (.autoBlock epochEnv ip (fromSecs 300) none)) :
    Run (SystemStep gatewayConfig "eth0".toList) ok none
      [.start none 0, .autoBlock epochEnv ip (fromSecs 300) none]
      (some (gatewayAfterBlock ip)) := by
  have hstart : SystemStep gatewayConfig "eth0".toList none (.start none 0) (some gateway) := rfl
  exact (Run.nil.snoc h₁ hstart).snoc h₂ rfl

/-- Blocking 10.0.1.9 leaves the allowlisted host alone. -/
theorem gateway_passes_after_block :
    (nsmXdp (gatewayAfterBlock (Ipv4Addr.new 10 0 1 9)).capture.blocklist
      (minimalContext (Ipv4Addr.new 10 0 0 5) 0) ⟨0, 0, 0, 0⟩).action = .pass := by
  have hmeets : ActionMeets gatewayConfig (none : Option (System (ListTrie 32 UInt64 16)))
      (.start none 0) :=
    ⟨by rintro file now ⟨⟩, by rintro s' ⟨⟩⟩
  refine (allowlisted_passes gatewayConfig "eth0".toList
    (run_gatewayAfterBlock (Ipv4Addr.new 10 0 1 9) hmeets ⟨?_, ?_⟩)).2 _ _ (Ipv4Addr.new 10 0 0 5)
    (ipv4Source_minimalContext _ _) (by decide)
  · rintro file now ⟨⟩
  · intro s' _ env ip ttlNs prefixLen bypass hreq _
    simp only [Action.blockRequest, Option.some.injEq, Prod.mk.injEq] at hreq
    obtain ⟨-, rfl, -, rfl, -⟩ := hreq
    decide

/-- An automatic block of the neighbour 10.0.0.9 makes the program drop the allowlisted 10.0.0.5. -/
theorem not_allowlisted_passes :
    ¬ ∀ (config : AutoBlockConfig) (iface : Str) (as : List Action)
      (s : System (ListTrie 32 UInt64 16)),
      Run (SystemStep config iface) (fun _ _ => True) none as (some s) →
      ∀ (ctx : XdpContext) (stats : Stats) (src : Ipv4Addr), ipv4Source ctx = some src →
        config.allowlists src = true →
        (nsmXdp s.capture.blocklist ctx stats).action = .pass := by
  intro h
  have hpass := h _ _ _ _ (run_gatewayAfterBlock (Ipv4Addr.new 10 0 0 9) trivial trivial)
    (minimalContext (Ipv4Addr.new 10 0 0 5) 0) ⟨0, 0, 0, 0⟩ (Ipv4Addr.new 10 0 0 5)
    (ipv4Source_minimalContext _ _) (by decide)
  have hdrop : (nsmXdp (gatewayAfterBlock (Ipv4Addr.new 10 0 0 9)).capture.blocklist
      (minimalContext (Ipv4Addr.new 10 0 0 5) 0) ⟨0, 0, 0, 0⟩).action = .drop := by
    decide
  rw [hdrop] at hpass
  cases hpass

end ActiveDefense.Nsm
