import ActiveDefense.Firewall.Trusted

/-!
# The ban list against its history

What the ban list is for, in terms of the calls made on it: an address is banned at a time if some
ban of it, after the last unban of it, ends later. `isActive_iff_banned` shows that `is_active`
answers exactly that, whatever bans were refused or repeated and whenever sweeps ran; the packet
loop then drops every packet of a banned source that is not trusted.
-/

namespace ActiveDefense.Firewall

/-- A call on the ban list. -/
inductive BanCall where
  | ban (ip : IpAddr) (duration : Duration)
  | manualUnban (ip : IpAddr)
  | sweepExpired
  | isActive (ip : IpAddr)
deriving DecidableEq, Repr

/-- What is remembered of the calls: the bans that succeeded, with their time, and the unbans. -/
inductive BanRecord where
  | banned (ip : IpAddr) (time : Instant) (duration : Duration)
  | unbanned (ip : IpAddr)
deriving DecidableEq, Repr

/-- A recorded ban of the address ends at this time, and no unban of the address came after it. The
latest record is the first of the list. -/
inductive Standing (ip : IpAddr) (expiry : Instant) : List BanRecord → Prop
  | banned {time : Instant} {duration : Duration} {history : List BanRecord} :
      time + duration = expiry → Standing ip expiry (.banned ip time duration :: history)
  | later {r : BanRecord} {history : List BanRecord} :
      r ≠ .unbanned ip → Standing ip expiry history → Standing ip expiry (r :: history)

/-- The address is banned at a time: some ban that stands ends later. -/
def Banned (history : List BanRecord) (ip : IpAddr) (t : Instant) : Prop :=
  ∃ expiry, Standing ip expiry history ∧ t < expiry

/-- The ban list with the time of the last call and the records of all calls. -/
structure Ledger where
  quarantine : Quarantine
  now : Instant
  history : List BanRecord

namespace Ledger

/-- A call at a given time. A ban whose end is past the last `Instant` panics before it changes
anything. -/
def call (l : Ledger) (t : Instant) : BanCall → Ledger
  | .ban ip duration =>
    match l.quarantine.ban ip duration t with
    | .ok (true, quarantine) => ⟨quarantine, t, .banned ip t duration :: l.history⟩
    | .ok (false, quarantine) => ⟨quarantine, t, l.history⟩
    | .error _ => ⟨l.quarantine, t, l.history⟩
  | .manualUnban ip => ⟨(l.quarantine.manualUnban ip).2, t, .unbanned ip :: l.history⟩
  | .sweepExpired => ⟨l.quarantine.sweepExpired t, t, l.history⟩
  | .isActive _ => ⟨l.quarantine, t, l.history⟩

/-- The steps: calls at times that do not decrease. -/
def Step (l : Ledger) (c : Instant × BanCall) (l' : Ledger) : Prop :=
  l.now ≤ c.1 ∧ l' = l.call c.1 c.2

/-- A ban list as it is made, at a given time. -/
def start (maxEntries : Nat) (osSync : Option SyncQueue) (now : Instant) : Ledger where
  quarantine :=
    match osSync with
    | none => .new maxEntries
    | some tx => .withOsSync maxEntries tx
  now := now
  history := []

/-- The table and the records agree: an entry is the end of a ban that stands, and no ban that
stands ends later than the entry, or it has ended. -/
structure Agrees (l : Ledger) : Prop where
  standing : ∀ {ip expiry}, l.quarantine.table.lookup ip = some expiry →
    Standing ip expiry l.history
  covered : ∀ {ip expiry}, Standing ip expiry l.history →
    expiry ≤ l.now ∨ ∃ entry, l.quarantine.table.lookup ip = some entry ∧ expiry ≤ entry

/-- The bans of an address that stand do not change with a ban of another. -/
theorem standing_banned {ip ip' : IpAddr} {expiry time : Instant} {duration : Duration}
    {history : List BanRecord} :
    Standing ip expiry (.banned ip' time duration :: history) ↔
      (ip' = ip ∧ time + duration = expiry) ∨ Standing ip expiry history := by
  constructor
  · intro h
    cases h with
    | banned hexpiry => exact .inl ⟨rfl, hexpiry⟩
    | later _ h => exact .inr h
  · rintro (⟨rfl, hexpiry⟩ | h)
    · exact .banned hexpiry
    · exact .later (by simp) h

/-- An unban ends the bans of its address and leaves those of the others. -/
theorem standing_unbanned {ip ip' : IpAddr} {expiry : Instant} {history : List BanRecord} :
    Standing ip expiry (.unbanned ip' :: history) ↔ ip' ≠ ip ∧ Standing ip expiry history := by
  constructor
  · intro h
    cases h with
    | later hne h => exact ⟨fun heq => hne (by rw [heq]), h⟩
  · rintro ⟨hne, h⟩
    exact .later (by simpa using hne) h

/-- The agreement lasts while the time goes on and nothing else changes. -/
theorem Agrees.at_time {l : Ledger} (h : l.Agrees) {t : Instant} (ht : l.now ≤ t) :
    Agrees ⟨l.quarantine, t, l.history⟩ where
  standing := h.standing
  covered hstand := (h.covered hstand).imp_left fun hended => hended.trans ht

/-- A ban that succeeds keeps the agreement. -/
theorem Agrees.ban {l : Ledger} (h : l.Agrees) {t : Instant} (ht : l.now ≤ t) {ip : IpAddr}
    {duration : Duration} {quarantine : Quarantine}
    (hban : l.quarantine.ban ip duration t = .ok (true, quarantine)) :
    Agrees ⟨quarantine, t, .banned ip t duration :: l.history⟩ := by
  obtain ⟨entry, htable, hnew, horigin, hmax⟩ := Quarantine.table_ban hban
  constructor <;> dsimp only <;> rw [htable]
  · intro ip' expiry hlookup
    rw [standing_banned]
    by_cases heq : ip' = ip
    · subst heq
      rw [AList.lookup_insert, Option.some.injEq] at hlookup
      subst hlookup
      obtain hnew | hold := horigin
      · exact .inl ⟨rfl, hnew.symm⟩
      · exact .inr (h.standing hold)
    · rw [AList.lookup_insert_ne heq] at hlookup
      exact .inr (h.standing hlookup)
  · intro ip' expiry hstand
    rw [standing_banned] at hstand
    by_cases heq : ip' = ip
    · subst heq
      rw [AList.lookup_insert]
      obtain ⟨-, rfl⟩ | hold := hstand
      · exact .inr ⟨entry, rfl, hnew⟩
      · obtain hended | ⟨old, hlookup, hle⟩ := h.covered hold
        · exact .inl (hended.trans ht)
        · exact .inr ⟨entry, rfl, hle.trans (hmax old hlookup)⟩
    · rw [AList.lookup_insert_ne heq]
      obtain ⟨rfl, -⟩ | hold := hstand
      · exact absurd rfl heq
      · exact (h.covered hold).imp_left fun hended => hended.trans ht

/-- An unban keeps the agreement. -/
theorem Agrees.manualUnban {l : Ledger} (h : l.Agrees) {t : Instant} (ht : l.now ≤ t)
    (ip : IpAddr) :
    Agrees ⟨(l.quarantine.manualUnban ip).2, t, .unbanned ip :: l.history⟩ := by
  constructor <;> dsimp only
  · intro ip' expiry hlookup
    rw [Quarantine.lookup_manualUnban] at hlookup
    split at hlookup
    · cases hlookup
    · next hne => exact standing_unbanned.mpr ⟨Ne.symm hne, h.standing hlookup⟩
  · intro ip' expiry hstand
    obtain ⟨hne, hold⟩ := standing_unbanned.mp hstand
    rw [Quarantine.lookup_manualUnban, if_neg (Ne.symm hne)]
    exact (h.covered hold).imp_left fun hended => hended.trans ht

/-- A sweep keeps the agreement: what it removes has ended. -/
theorem Agrees.sweepExpired {l : Ledger} (h : l.Agrees) {t : Instant} (ht : l.now ≤ t) :
    Agrees ⟨l.quarantine.sweepExpired t, t, l.history⟩ where
  standing hlookup := h.standing (Quarantine.lookup_sweepExpired.mp hlookup).1
  covered := by
    intro ip expiry hstand
    obtain hended | ⟨entry, hlookup, hle⟩ := h.covered hstand
    · exact .inl (hended.trans ht)
    · by_cases hlive : t < entry
      · exact .inr ⟨entry, Quarantine.lookup_sweepExpired.mpr ⟨hlookup, hlive⟩, hle⟩
      · exact .inl (hle.trans (Nat.not_lt.mp hlive))

/-- The step lemma. -/
theorem Agrees.step {l l' : Ledger} {c : Instant × BanCall} (h : l.Agrees) (hst : Step l c l') :
    l'.Agrees := by
  obtain ⟨t, c⟩ := c
  obtain ⟨ht, rfl⟩ := hst
  cases c with
  | ban ip duration =>
    rw [call]
    split
    · next hban => exact h.ban ht hban
    · next hban =>
      have hsame := (h.at_time ht)
      constructor <;> dsimp only <;> rw [Quarantine.table_ban_refused hban]
      · exact hsame.standing
      · exact hsame.covered
    · exact h.at_time ht
  | manualUnban ip => exact h.manualUnban ht ip
  | sweepExpired => exact h.sweepExpired ht
  | isActive ip => exact h.at_time ht

/-- The run lemma: after every sequence of calls the table and the records agree. -/
theorem agrees_of_run {maxEntries : Nat} {osSync : Option SyncQueue} {t₀ : Instant}
    {cs : List (Instant × BanCall)} {l : Ledger}
    (h : Run Step (fun _ _ => True) (start maxEntries osSync t₀) cs l) : l.Agrees := by
  refine h.invariant (I := Agrees) ?_ fun _ _ _ hl _ hst => hl.step hst
  constructor
  · intro ip expiry hlookup
    cases osSync <;> cases hlookup
  · intro ip expiry hstand
    cases hstand

/-- `is_active` answers what the records say. -/
theorem Agrees.isActive_iff {l : Ledger} (h : l.Agrees) {ip : IpAddr} {t : Instant}
    (ht : l.now ≤ t) : l.quarantine.isActive ip t = true ↔ Banned l.history ip t := by
  rw [Quarantine.isActive]
  constructor
  · intro hactive
    split at hactive
    · next expiry hlookup => exact ⟨expiry, h.standing hlookup, of_decide_eq_true hactive⟩
    · cases hactive
  · rintro ⟨expiry, hstand, hlt⟩
    obtain hended | ⟨entry, hlookup, hle⟩ := h.covered hstand
    · exact absurd hlt (Nat.not_lt.mpr (hended.trans ht))
    · rw [hlookup]
      exact decide_eq_true (hlt.trans_le hle)

end Ledger

/-! ## The packet loop -/

section
variable {τ : Type} [TokenArith τ] {E : Etherparse}

/-- A packet from an address with an active ban is dropped, unless the address is trusted. -/
theorem Wall.drops_of_isActive {w : Wall τ} {msg : Msg} {r : PacketReadings} {ip : IpAddr}
    (hsrc : sourceAddress E msg.payload = some ip)
    (hactive : w.quarantine.isActive ip r.isActive = true) (htrust : w.engine.isTrusted ip = false)
    {o : Outcome} {w' : Wall τ} (h : w.process E msg.payload r = .ok (o, w')) :
    o.verdict = .drop := by
  have hsource {pkt : ParsedPacket} (hparse : parse E msg.payload = .parsed pkt) :
      pkt.srcIp = ip := by
    simpa only [sourceAddress, hparse, Option.some.injEq] using hsrc
  cases Wall.processed_of_process h with
  | fragment | malformed | quarantined | tableFull => rfl
  | established hparse hfree | evaluated hparse hfree =>
    rw [hsource hparse, htrust, hactive] at hfree
    obtain h | h := hfree <;> cases h

end

/-- The events of the system are, for its ban list, at most one call. -/
theorem System.Step.call {τ : Type} [TokenArith τ] {E : Etherparse} {s t : System τ} {e : Event}
    {l : Ledger} (hs : s.wall.quarantine = l.quarantine) (hst : System.Step E s e t) :
    t.wall.quarantine = l.quarantine ∨
      ∃ time c, t.wall.quarantine = (l.call time c).quarantine := by
  cases e with
  | packet msg r =>
    cases hp : s.wall.process E msg.payload r with
    | error p => simp [System.Step, System.next, hp, bind, Except.bind] at hst
    | ok res =>
      obtain ⟨o, w⟩ := res
      simp only [System.Step, System.next, hp, bind, Except.bind, Except.ok.injEq] at hst
      subst hst
      cases Wall.processed_of_process hp with
      | fragment | malformed | quarantined | established | tableFull => exact .inl hs
      | @evaluated pkt quarantine _ _ _ _ hban =>
        rw [Wall.autoBlock, hs] at hban
        split at hban
        · cases hban
          exact .inl rfl
        · next secs _ =>
          refine .inr ⟨r.ban, .ban pkt.srcIp (.fromSecs secs), ?_⟩
          show quarantine = _
          rw [Ledger.call]
          cases hcall : l.quarantine.ban pkt.srcIp (.fromSecs secs) r.ban with
          | error p =>
            rw [hcall] at hban
            cases hban
          | ok res =>
            obtain ⟨recorded, q⟩ := res
            rw [hcall] at hban
            cases hban
            cases recorded <;> rfl
  | sweepQuarantine now =>
    cases hst
    exact .inr ⟨now, .sweepExpired, congrArg (fun q => q.sweepExpired now) hs⟩
  | unban ip =>
    cases hst
    exact .inr ⟨l.now, .manualUnban ip, congrArg (fun q => (q.manualUnban ip).2) hs⟩
  | sweepConntrack | engineMaintenance | reload =>
    cases hst
    exact .inl hs

/-- After every sequence of calls at times that do not decrease, `is_active` answers whether some
ban of the address that succeeded after its last unban ends later; and while that is so the loop,
with whatever engine and connection table, drops every packet from the address and submits none of
them to ingestion, unless the address is trusted. -/
theorem isActive_iff_banned {maxEntries : Nat} {osSync : Option SyncQueue} {t₀ : Instant}
    {cs : List (Instant × BanCall)} {l : Ledger}
    (h : Run Ledger.Step (fun _ _ => True) (.start maxEntries osSync t₀) cs l) :
    (∀ ip t, l.now ≤ t → (l.quarantine.isActive ip t = true ↔ Banned l.history ip t)) ∧
    ∀ (τ : Type) [TokenArith τ] (E : Etherparse) (w w' : Wall τ) (msg : Msg) (r : PacketReadings)
      (ip : IpAddr) (o : Outcome),
      w.quarantine = l.quarantine → l.now ≤ r.isActive →
        sourceAddress E msg.payload = some ip → Banned l.history ip r.isActive →
          w.engine.isTrusted ip = false → w.process E msg.payload r = .ok (o, w') →
            o.nfqVerdict = .drop ∧ o.submitted msg = none := by
  have hagrees := Ledger.agrees_of_run h
  refine ⟨fun ip t ht => hagrees.isActive_iff ht, ?_⟩
  intro τ _ E w w' msg r ip o hw ht hsrc hbanned htrust hprocess
  have hactive : w.quarantine.isActive ip r.isActive = true := by
    rw [hw]
    exact (hagrees.isActive_iff ht).mpr hbanned
  have hdrop := Wall.drops_of_isActive hsrc hactive htrust hprocess
  constructor
  · rw [Outcome.nfqVerdict, hdrop]
  · rw [Outcome.submitted, hdrop]
    rfl

/-- A ban of 10.0.0.3 at time 5 for ten nanoseconds, and one at time 8 for two. -/
def bannedTwice : Ledger :=
  ((Ledger.start 10 none 0).call 5 (.ban (.v4 (Ipv4Addr.new 10 0 0 3)) 10)).call 8
    (.ban (.v4 (Ipv4Addr.new 10 0 0 3)) 2)

/-- The second ban does not shorten the first. -/
theorem isActive_iff_banned_twice :
    Banned bannedTwice.history (.v4 (Ipv4Addr.new 10 0 0 3)) 14 ∧
      ¬ Banned bannedTwice.history (.v4 (Ipv4Addr.new 10 0 0 3)) 15 := by
  have hrun : Run Ledger.Step (fun _ _ => True) (.start 10 none 0)
      [(5, .ban (.v4 (Ipv4Addr.new 10 0 0 3)) 10), (8, .ban (.v4 (Ipv4Addr.new 10 0 0 3)) 2)]
      bannedTwice :=
    (Run.nil.snoc trivial ⟨by decide, rfl⟩).snoc trivial ⟨by decide, rfl⟩
  obtain ⟨hactive, -⟩ := isActive_iff_banned hrun
  constructor
  · exact (hactive _ 14 (by decide)).mp (by decide)
  · intro hbanned
    exact absurd ((hactive _ 15 (by decide)).mpr hbanned) (by decide)

end ActiveDefense.Firewall
