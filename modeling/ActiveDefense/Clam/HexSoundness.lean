import ActiveDefense.Clam.Engine

/-!
# What a match of a hex signature stands for

A match is put together from an anchor in the middle: the forward walk places the segments after the
anchor segment, the backward walk those in front of it. Each link of a walk is one pair of
neighbours, so the two walks give a `Placement` (`Placement.of_nearest`), and with overflow checks a
match is always one. Without them a gap whose sum wraps lets the walk go on where no placement is
possible; `verifyIn_sound_iff` says that this is the only way to a match that stands for none.
-/

namespace ActiveDefense.Clam

namespace HexSignature

variable {sig : HexSignature} {buf : Slice}

/-! ## Links -/

/-- A candidate of a forward link is the end of an occurrence that keeps the gap. -/
theorem exists_of_mem_forwardLink {idx after stop : Nat}
    (h : stop ∈ sig.forwardLink buf idx after) :
    ∃ gap seg pos, sig.gaps[idx]? = some gap ∧ sig.segments[idx + 1]? = some seg ∧
      stop = pos + seg.len ∧ seg.MatchesAt buf pos ∧ after + (gapBounds gap).1 ≤ pos ∧
      pos ≤ after + (gapBounds gap).2 := by
  rw [forwardLink] at h
  split at h
  · next gap seg hgap hseg =>
    obtain ⟨pos, hpos, rfl⟩ := List.mem_map.mp h
    obtain ⟨hlo, hhi, hm⟩ := mem_forwardStarts.mp hpos
    exact ⟨gap, seg, pos, hgap, hseg, rfl, hm, hlo, hhi⟩
  · cases h

/-- A candidate of a backward link is the start of an occurrence that keeps the gap. -/
theorem exists_of_mem_backwardLink {idx before pos : Nat}
    (h : pos ∈ sig.backwardLink buf idx before) :
    ∃ gap seg, sig.gaps[idx]? = some gap ∧ sig.segments[idx]? = some seg ∧
      seg.MatchesAt buf pos ∧ pos + seg.len + (gapBounds gap).1 ≤ before ∧
      before ≤ pos + seg.len + (gapBounds gap).2 := by
  rw [backwardLink] at h
  split at h
  · next gap seg hgap hseg =>
    obtain ⟨hlo, hhi, hm⟩ := mem_backwardStarts.mp h
    exact ⟨gap, seg, hgap, hseg, hm, hlo, hhi⟩
  · cases h

/-! ## Parts of a placement -/

/-- The segments from `first` to `last` are placed, and the gaps between them kept. -/
structure PlacesPart (sig : HexSignature) (buf : Slice) (pos : Nat → Nat) (first last : Nat) :
    Prop where
  matchesAt : ∀ (i : Nat) (seg : Segment), first ≤ i → i ≤ last → sig.segments[i]? = some seg →
    seg.MatchesAt buf (pos i)
  gap : ∀ (i : Nat) (seg : Segment) (gap : Gap), first ≤ i → i < last →
    sig.segments[i]? = some seg → sig.gaps[i]? = some gap →
      pos i + seg.len + (gapBounds gap).1 ≤ pos (i + 1) ∧
        pos (i + 1) ≤ pos i + seg.len + (gapBounds gap).2

namespace PlacesPart

variable {pos pos' : Nat → Nat} {first mid last : Nat}

/-- A single segment. -/
theorem single {i x : Nat} (h : ∀ seg, sig.segments[i]? = some seg → seg.MatchesAt buf x) :
    PlacesPart sig buf (fun _ => x) i i where
  matchesAt j seg hfirst hlast hseg := by
    obtain rfl : j = i := by omega
    exact h seg hseg
  gap j seg gap hfirst hlast := by omega

/-- Two parts that share a segment make one. -/
theorem append (h : PlacesPart sig buf pos first mid) (h' : PlacesPart sig buf pos' mid last)
    (hmid : pos mid = pos' mid) :
    PlacesPart sig buf (fun i => if i ≤ mid then pos i else pos' i) first last where
  matchesAt i seg hfirst hlast hseg := by
    by_cases hi : i ≤ mid
    · simp only [if_pos hi]
      exact h.matchesAt i seg hfirst hi hseg
    · simp only [if_neg hi]
      exact h'.matchesAt i seg (by omega) hlast hseg
  gap i seg gap hfirst hlast hseg hgap := by
    by_cases hi : i < mid
    · simp only [if_pos (Nat.le_of_lt hi), if_pos (Nat.succ_le_of_lt hi)]
      exact h.gap i seg gap hfirst hi hseg hgap
    · have hnext := h'.gap i seg gap (by omega) hlast hseg hgap
      have hi' : ¬ i + 1 ≤ mid := by omega
      by_cases heq : i = mid
      · subst heq
        simp only [Nat.le_refl, if_true, if_neg hi', hmid]
        exact hnext
      · simp only [if_neg (show ¬ i ≤ mid by omega), if_neg hi']
        exact hnext

/-- Two neighbours that keep their gap. -/
theorem pair {i : Nat} {seg next : Segment} {gap : Gap} (hseg : sig.segments[i]? = some seg)
    (hnext : sig.segments[i + 1]? = some next) (hgap : sig.gaps[i]? = some gap)
    (hm : seg.MatchesAt buf (pos i)) (hm' : next.MatchesAt buf (pos (i + 1)))
    (hlo : pos i + seg.len + (gapBounds gap).1 ≤ pos (i + 1))
    (hhi : pos (i + 1) ≤ pos i + seg.len + (gapBounds gap).2) :
    PlacesPart sig buf pos i (i + 1) where
  matchesAt j s hfirst hlast hs := by
    obtain rfl | rfl : j = i ∨ j = i + 1 := by omega
    · exact Option.some.inj (hseg.symm.trans hs) ▸ hm
    · exact Option.some.inj (hnext.symm.trans hs) ▸ hm'
  gap j s g hfirst hlast hs hg := by
    obtain rfl : j = i := by omega
    obtain rfl := Option.some.inj (hseg.symm.trans hs)
    obtain rfl := Option.some.inj (hgap.symm.trans hg)
    exact ⟨hlo, hhi⟩

end PlacesPart

/-- The forward search places the segments that it goes through. -/
theorem exists_placesPart_of_forward {n i x stop : Nat} {seg : Segment}
    (hseg : sig.segments[i]? = some seg) (hm : seg.MatchesAt buf x)
    (h : nearest ((List.range' i n).map (sig.forwardLink buf)) (x + seg.len) = some stop) :
    ∃ pos, pos i = x ∧ PlacesPart sig buf pos i (i + n) := by
  induction n generalizing i x seg with
  | zero =>
    refine ⟨fun _ => x, rfl, .single fun s hs => ?_⟩
    rw [hseg] at hs
    cases hs
    exact hm
  | succ n ih =>
    rw [List.range'_succ, List.map_cons] at h
    obtain ⟨_, hlink, hrest⟩ := exists_of_nearest_cons h
    obtain ⟨gap, next, y, hgap, hnext, rfl, hy, hlo, hhi⟩ := exists_of_mem_forwardLink hlink
    obtain ⟨pos, hpos, hpart⟩ := ih hnext hy hrest
    have htotal : i + 1 + n = i + (n + 1) := by omega
    have hpair : PlacesPart sig buf (fun j => if j = i then x else y) i (i + 1) :=
      .pair hseg hnext hgap (by simpa using hm) (by simpa using hy) (by simpa using hlo)
        (by simpa using hhi)
    exact ⟨_, by simp, htotal ▸ hpair.append hpart (by simp [hpos])⟩

/-- The backward search places the segments that it goes through. -/
theorem exists_placesPart_of_backward {n x start : Nat} {seg : Segment}
    (hseg : sig.segments[n]? = some seg) (hm : seg.MatchesAt buf x)
    (h : nearest ((List.range n).reverse.map (sig.backwardLink buf)) x = some start) :
    ∃ pos, pos n = x ∧ pos 0 = start ∧ PlacesPart sig buf pos 0 n := by
  induction n generalizing x seg with
  | zero =>
    refine ⟨fun _ => x, rfl, Option.some.inj h, .single fun s hs => ?_⟩
    rw [hseg] at hs
    cases hs
    exact hm
  | succ n ih =>
    rw [List.range_succ, List.reverse_concat, List.map_cons] at h
    obtain ⟨y, hlink, hrest⟩ := exists_of_nearest_cons h
    obtain ⟨gap, prev, hgap, hprev, hy, hlo, hhi⟩ := exists_of_mem_backwardLink hlink
    obtain ⟨pos, hpos, hstart, hpart⟩ := ih hprev hy hrest
    have hpair : PlacesPart sig buf (fun j => if j = n then y else x) n (n + 1) :=
      .pair hprev hseg hgap (by simpa using hy) (by simpa using hm) (by simpa using hlo)
        (by simpa using hhi)
    exact ⟨_, by simp, by simp [hstart], hpart.append hpair (by simp [hpos])⟩

end HexSignature

/-! ## Placements -/

/-- All segments placed are a placement. -/
def HexSignature.PlacesPart.placement {sig : HexSignature} {buf : Slice} {pos : Nat → Nat}
    (h : PlacesPart sig buf pos 0 sig.gaps.length) (hsig : sig.WellShaped) :
    Placement sig buf (pos sig.anchorSegment + sig.anchorOffset) where
  pos := pos
  matchesAt i seg hseg := by
    have hi := (List.getElem?_eq_some_iff.mp hseg).1
    have hlen := hsig.gaps_length
    exact h.matchesAt i seg (Nat.zero_le _) (by omega) hseg
  gap i seg gap hseg hgap := by
    have hi := (List.getElem?_eq_some_iff.mp hgap).1
    exact h.gap i seg gap (Nat.zero_le _) hi hseg hgap
  anchor := rfl

namespace HexSignature

variable (sig : HexSignature) (buf : Slice)

/-- The signature can be placed in the buffer with its first segment at `start`. -/
def PlacedAt (start : Nat) : Prop :=
  ∃ anchorPos, ∃ p : Placement sig buf anchorPos, p.pos 0 = start

/-- Without overflow checks, the verification at the anchor takes a gap whose sum wraps for one with
a smaller least distance, and comes through to the start of the signature. -/
def Misplaces (anchorPos : Nat) : Prop :=
  (∃ idx < sig.anchorSegment, sig.GapOverflows idx) ∧ sig.AnchorMatches buf anchorPos ∧
    (nearest (sig.forwardLinks buf) (anchorPos - sig.anchorOffset + sig.anchorLen)).isSome ∧
      (nearest (sig.wrappedLinks buf) (anchorPos - sig.anchorOffset)).isSome

instance (anchorPos : Nat) : Decidable (sig.Misplaces buf anchorPos) :=
  inferInstanceAs (Decidable (_ ∧ _))

variable {sig buf}

/-- What the two searches around the anchor find is a placement. -/
theorem placedAt_of_nearest {anchorPos start : Nat} (hsig : sig.WellShaped)
    (hanchor : sig.AnchorMatches buf anchorPos)
    (hforward : (nearest (sig.forwardLinks buf)
      (anchorPos - sig.anchorOffset + sig.anchorLen)).isSome)
    (hbackward : nearest (sig.backwardLinks buf) (anchorPos - sig.anchorOffset) = some start) :
    sig.PlacedAt buf start := by
  obtain ⟨seg, hseg⟩ : ∃ seg, sig.segments[sig.anchorSegment]? = some seg :=
    ⟨_, List.getElem?_eq_getElem hsig.anchor_lt⟩
  have hm := hanchor.2 seg hseg
  have hanchorLen : sig.anchorLen = seg.len := by simp [anchorLen, hseg]
  rw [hanchorLen] at hforward
  obtain ⟨stop, hstop⟩ := Option.isSome_iff_exists.mp hforward
  obtain ⟨pos, hpos, hpart⟩ := exists_placesPart_of_forward hseg hm hstop
  obtain ⟨pos', hpos', hstart, hpart'⟩ := exists_placesPart_of_backward hseg hm hbackward
  have hall := hpart'.append hpart (hpos'.trans hpos.symm)
  have htotal : sig.anchorSegment + (sig.gaps.length - sig.anchorSegment) = sig.gaps.length := by
    have hlen := hsig.gaps_length
    have hlt := hsig.anchor_lt
    omega
  rw [htotal] at hall
  exact ⟨_, hall.placement hsig, by simpa [PlacesPart.placement] using hstart⟩

/-- Where the backward walk does not panic, it is the search along the links. -/
theorem nearest_of_walkBackward (hsig : sig.WellShaped) {n cursorStart : Nat} {r : Option Nat}
    (hn : n ≤ sig.gaps.length) (hcursor : cursorStart ≤ buf.len)
    (h : sig.walkBackward buf (List.range n).reverse cursorStart = .ok r) :
    nearest ((List.range n).reverse.map (sig.backwardLink buf)) cursorStart = r := by
  induction n generalizing cursorStart with
  | zero => exact Except.ok.inj h
  | succ n ih =>
    obtain ⟨gap, seg, _, hgap, hseg, -⟩ := hsig.exists_segments hn
    rw [List.range_succ, List.reverse_concat] at h ⊢
    by_cases hsum : (gapBounds gap).1 + seg.len ≤ usizeMax
    · rw [walkBackward_cons hgap hseg hsum hcursor] at h
      rw [List.map_cons, nearest]
      cases hhead : (sig.backwardLink buf n cursorStart).head? with
      | none =>
        rw [hhead] at h
        exact Except.ok.inj h
      | some pos =>
        rw [hhead] at h
        have hpos := le_of_mem_backwardLink (List.mem_of_mem_head? hhead)
        exact ih (Nat.le_of_succ_le hn) hpos h
    · rw [walkBackward_of_overflow hgap hseg hsum] at h
      cases h

/-- With overflow checks, what `verify` finds is a placement. -/
theorem placedAt_of_verify (hsig : sig.WellShaped) (hshort : sig.Short) {anchorPos start : Nat}
    (hpos : anchorPos ≤ buf.len) (h : sig.verify buf anchorPos = .ok (some start)) :
    sig.PlacedAt buf start := by
  have hcursor : anchorPos - sig.anchorOffset ≤ buf.len := by omega
  rw [verify_eq_walks hsig hshort hcursor] at h
  split at h
  · next hanchor =>
    split at h
    · next stop hforward =>
      have hlen := hsig.gaps_length
      have hlt := hsig.anchor_lt
      have hbackward := nearest_of_walkBackward hsig (by omega) hcursor h
      exact placedAt_of_nearest hsig hanchor (Option.isSome_of_mem hforward) hbackward
    · cases h
  · cases h

/-- Where a gap overflows, the signature cannot be placed in any buffer. -/
theorem not_placedAt_of_gapOverflows (hsig : sig.WellShaped) {idx start : Nat}
    (h : sig.GapOverflows idx) : ¬ sig.PlacedAt buf start := by
  rintro ⟨anchorPos, p, -⟩
  obtain ⟨gap, hgap, seg, hseg, hover⟩ := h
  have hfit := buf.le_usizeMax ((p.fits hsig).gap idx seg gap hseg hgap)
  omega

/-- Without a gap in front of the anchor that overflows, the builds search alike. -/
theorem wrappedLinks_eq (h : ¬ ∃ idx < sig.anchorSegment, sig.GapOverflows idx) :
    sig.wrappedLinks buf = sig.backwardLinks buf := by
  refine List.map_congr_left fun idx hidx => wrappedLink_eq fun hover => h ⟨idx, ?_, hover⟩
  simpa [gapsBackward] using hidx

/-- In every build, what `verify` finds is a placement, if and only if it does not come through a gap
whose sum wraps. -/
theorem verifyIn_sound_iff (hsig : sig.WellShaped) (hshort : sig.Short) (checks : OverflowChecks)
    {anchorPos : Nat} (hpos : anchorPos ≤ buf.len) :
    (∀ start, sig.verifyIn checks buf anchorPos = .ok (some start) → sig.PlacedAt buf start) ↔
      (checks = .off → ¬ sig.Misplaces buf anchorPos) := by
  cases checks with
  | on =>
    rw [verifyIn_on]
    exact iff_of_true (fun _ => placedAt_of_verify hsig hshort hpos) nofun
  | off =>
    rw [verifyIn_off hsig hshort hpos]
    constructor
    · rintro hsound - ⟨⟨idx, -, hover⟩, hanchor, hforward, hbackward⟩
      obtain ⟨stop, hstop⟩ := Option.isSome_iff_exists.mp hforward
      obtain ⟨start, hstart⟩ := Option.isSome_iff_exists.mp hbackward
      refine not_placedAt_of_gapOverflows hsig hover (hsound start ?_)
      rw [if_pos hanchor, hstop, Option.bind_some, hstart]
    · intro hnot start h
      split at h
      · next hanchor =>
        obtain ⟨stop, hforward, hbackward⟩ := Option.bind_eq_some_iff.mp (Except.ok.inj h)
        have hgaps : ¬ ∃ idx < sig.anchorSegment, sig.GapOverflows idx := fun hover =>
          hnot rfl ⟨hover, hanchor, Option.isSome_of_mem hforward, Option.isSome_of_mem hbackward⟩
        rw [wrappedLinks_eq hgaps] at hbackward
        exact placedAt_of_nearest hsig hanchor (Option.isSome_of_mem hforward) hbackward
      · cases h

end HexSignature

/-! ## The scan -/

/-- The shape and the lengths of a parsed signature. -/
theorem HexSignature.FromText.shape {sig : HexSignature} (h : sig.FromText) :
    sig.WellShaped ∧ sig.Short := by
  obtain ⟨_, _, _, hparse, hlen⟩ := h
  exact ⟨wellShaped_of_parse hparse, short_of_parse hparse hlen⟩

namespace SignatureEngine

variable {self : SignatureEngine} {checks : OverflowChecks} {buf : Slice}

/-- The loop over the matches confirms what the verification of a match finds. -/
theorem mem_of_confirm {ms : List Match} {hits : List (HexSignature × Nat)}
    (h : self.confirm checks buf ms = .ok hits) {sig : HexSignature} {start : Nat} :
    (sig, start) ∈ hits ↔ ∃ m ∈ ms, self.hexSigs[m.pattern]? = some sig ∧
      sig.verifyIn checks buf m.start = .ok (some start) := by
  induction ms generalizing hits with
  | nil =>
    cases h
    simp
  | cons m ms ih =>
    simp only [confirm, bind_eq_ok] at h
    obtain ⟨sig', hsig', found, hfound, h⟩ := h
    have hget : self.hexSigs[m.pattern]? = some sig' := getElem?_of_index hsig'
    rw [List.exists_mem_cons_iff, hget]
    cases found with
    | none =>
      rw [ih h, or_iff_right]
      rintro ⟨hsame, hverify⟩
      cases hsame
      rw [hfound] at hverify
      cases hverify
    | some start' =>
      obtain ⟨rest, hrest, h⟩ := bind_eq_ok.mp h
      cases h
      rw [List.mem_cons, ih hrest]
      refine or_congr_left ⟨fun heq => ?_, fun ⟨hsame, hverify⟩ => ?_⟩
      · cases heq
        exact ⟨rfl, hfound⟩
      · cases hsame
        rw [hfound] at hverify
        cases hverify
        rfl

/-- Where the verification of no match panics, the loop does not. -/
theorem exists_of_confirm (self : SignatureEngine) {ms : List Match}
    (h : ∀ m ∈ ms, ∃ sig r, self.hexSigs[m.pattern]? = some sig ∧
      sig.verifyIn checks buf m.start = .ok r) : ∃ hits, self.confirm checks buf ms = .ok hits := by
  induction ms with
  | nil => exact ⟨[], rfl⟩
  | cons m ms ih =>
    obtain ⟨rest, hrest⟩ := ih fun m hm => h m (List.mem_cons_of_mem _ hm)
    obtain ⟨sig, r, hsig, hr⟩ := h m (.head _)
    simp only [confirm, index_of_getElem? hsig, hr, bind, Except.bind, hrest]
    cases r with
    | none => exact ⟨rest, rfl⟩
    | some start => exact ⟨_, rfl⟩

/-- No hash detection is a hex detection. -/
theorem kind_of_mem_hashHits {crates : Crates} {d : Detection} (h : d ∈ self.hashHits crates buf) :
    d.kind ≠ .hexSignature := by
  rw [hashHits] at h
  split at h
  · cases h
  · simp only [List.mem_append, Option.mem_toList, Option.map_eq_some_iff] at h
    obtain (⟨_, -, rfl⟩ | ⟨_, -, rfl⟩) | ⟨_, -, rfl⟩ := h <;> exact nofun

/-- The hex detections of a scan are those of the confirmed signatures, in their order. -/
theorem hexDetections_of_scanBuffer {crates : Crates} {hits : List Detection}
    (h : self.scanBuffer crates checks buf = .ok hits) :
    ∃ confirmed, self.hexHits checks buf = .ok confirmed ∧
      hits.filter (fun d => d.kind = .hexSignature) = confirmed.map hexDetection := by
  obtain ⟨confirmed, hconfirmed, h⟩ := bind_eq_ok.mp h
  cases h
  refine ⟨confirmed, hconfirmed, ?_⟩
  have hhash : (self.hashHits crates buf).filter (fun d => d.kind = .hexSignature) = [] := by
    simpa using fun d hd => kind_of_mem_hashHits hd
  have hhex : (confirmed.map hexDetection).filter (fun d => d.kind = .hexSignature) =
      confirmed.map hexDetection := by
    refine List.filter_eq_self.mpr fun d hd => ?_
    obtain ⟨p, -, rfl⟩ := List.mem_map.mp hd
    rfl
  rw [List.filter_append, hhash, hhex, List.nil_append]

variable (self checks buf) in
/-- Every hex detection among the hits is that of a confirmed signature of the engine, whose segments
can be placed in the buffer from the offset of the detection on. -/
def Justified (hits : List Detection) : Prop :=
  ∃ confirmed, self.hexHits checks buf = .ok confirmed ∧
    hits.filter (fun d => d.kind = .hexSignature) = confirmed.map hexDetection ∧
      ∀ p ∈ confirmed, p.1 ∈ self.hexSigs ∧ p.1.PlacedAt buf p.2

/-- A justified hex detection has a signature of its name, placed at its offset. -/
theorem Justified.exists_placedAt {hits : List Detection} (h : self.Justified checks buf hits)
    {d : Detection} (hd : d ∈ hits) (hkind : d.kind = .hexSignature) :
    ∃ sig ∈ self.hexSigs, ∃ start, d.name = sig.name ∧ d.offset = some start ∧
      sig.PlacedAt buf start := by
  obtain ⟨confirmed, -, hhits, hplaced⟩ := h
  have hmem : d ∈ hits.filter (fun d => d.kind = .hexSignature) := by simp [hd, hkind]
  rw [hhits] at hmem
  obtain ⟨⟨sig, start⟩, hp, rfl⟩ := List.mem_map.mp hmem
  obtain ⟨hsig, hplace⟩ := hplaced _ hp
  exact ⟨sig, hsig, start, rfl, rfl, hplace⟩

end SignatureEngine

/-- In every build, every hex detection of a scan stands for a placement of its signature, if and
only if no anchor of a signature in the buffer is one at which the verification comes through a gap
whose sum wraps; only without overflow checks are there such. -/
theorem scanBuffer_justified_iff {b : SignatureEngineBuilder} (hb : Loaded b) {crates : Crates}
    (hexact : crates.Exact) (checks : OverflowChecks) (buf : Slice) :
    (∀ hits, (b.build crates).scanBuffer crates checks buf = .ok hits →
        (b.build crates).Justified checks buf hits) ↔
      (checks = .off → ∀ sig ∈ b.hexSigs, ∀ start, OccursAt sig.anchorLiteral buf start →
        ¬ sig.Misplaces buf start) := by
  have hmatch : ∀ m, m ∈ (b.build crates).automaton buf ↔
      ∃ sig, b.hexSigs[m.pattern]? = some sig ∧ OccursAt sig.anchorLiteral buf m.start := by
    intro m
    rw [SignatureEngineBuilder.build, hexact.mem_iff]
    simp
  have hsound : ∀ sig ∈ b.hexSigs, ∀ start, OccursAt sig.anchorLiteral buf start →
      ((∀ pos, sig.verifyIn checks buf start = .ok (some pos) → sig.PlacedAt buf pos) ↔
        (checks = .off → ¬ sig.Misplaces buf start)) := by
    intro sig hsig start hoccurs
    obtain ⟨hshape, hshort⟩ := (hb.fromText sig hsig).shape
    exact HexSignature.verifyIn_sound_iff hshape hshort checks (Nat.le_of_add_right_le hoccurs.1)
  constructor
  · rintro hjust rfl sig hsig start hoccurs
    refine (hsound sig hsig start hoccurs).mp (fun pos hpos => ?_) rfl
    -- without the checks no verification panics, so the scan reports what this one finds
    have htotal : ∀ m ∈ (b.build crates).automaton buf, ∃ sig r, b.hexSigs[m.pattern]? = some sig ∧
        sig.verifyIn .off buf m.start = .ok r := by
      intro m hm
      obtain ⟨sig', hsig', hoccurs'⟩ := (hmatch m).mp hm
      obtain ⟨hshape, hshort⟩ := (hb.fromText sig' (List.mem_of_getElem? hsig')).shape
      exact ⟨sig', _, hsig',
        HexSignature.verifyIn_off hshape hshort (Nat.le_of_add_right_le hoccurs'.1)⟩
    obtain ⟨confirmed, hconfirmed⟩ := (b.build crates).exists_of_confirm htotal
    have hsigs : (b.build crates).hexSigs ≠ [] := List.ne_nil_of_mem hsig
    have hhits : (b.build crates).hexHits .off buf = .ok confirmed := by
      rw [SignatureEngine.hexHits, if_neg hsigs, hconfirmed]
    have hscan : (b.build crates).scanBuffer crates .off buf =
        .ok ((b.build crates).hashHits crates buf ++ confirmed.map SignatureEngine.hexDetection) := by
      rw [SignatureEngine.scanBuffer, hhits]
      rfl
    obtain ⟨confirmed', hconfirmed', -, hplaced⟩ := hjust _ hscan
    obtain rfl : confirmed = confirmed' := Except.ok.inj (hhits.symm.trans hconfirmed')
    obtain ⟨i, hi⟩ := List.getElem?_of_mem hsig
    have hm : ⟨i, start⟩ ∈ (b.build crates).automaton buf := (hmatch _).mpr ⟨sig, hi, hoccurs⟩
    exact (hplaced _ ((SignatureEngine.mem_of_confirm hconfirmed).mpr ⟨_, hm, hi, hpos⟩)).2
  · intro hnot hits hhits
    obtain ⟨confirmed, hconfirmed, hhex⟩ := SignatureEngine.hexDetections_of_scanBuffer hhits
    refine ⟨confirmed, hconfirmed, hhex, fun ⟨sig, start⟩ hp => ?_⟩
    rw [SignatureEngine.hexHits] at hconfirmed
    split at hconfirmed
    · cases hconfirmed
      cases hp
    · obtain ⟨m, hm, hsig, hverify⟩ := (SignatureEngine.mem_of_confirm hconfirmed).mp hp
      obtain ⟨sig', hsig', hoccurs⟩ := (hmatch m).mp hm
      obtain rfl : sig' = sig := Option.some.inj (hsig'.symm.trans hsig)
      have hmem := List.mem_of_getElem? hsig'
      exact ⟨hmem, (hsound _ hmem _ hoccurs).mpr (fun h => hnot h _ hmem _ hoccurs) _ hverify⟩

/-- A text of one line adds the signature of that line. -/
theorem loadNdb_line {line name pattern : Str} {sig : HexSignature} (hlines : lines line = [line])
    (htrim : trim line = line) (hskip : ¬ IsSkipped line)
    (hsplit : splitOnce ':' line = some (name, pattern))
    (hsig : HexSignature.parse 1 name pattern = .ok sig) :
    SignatureEngineBuilder.new.loadNdb line = .ok ⟨[sig], HashDb.new⟩ := by
  rw [SignatureEngineBuilder.loadNdb, hlines]
  simp only [List.zipIdx_cons, List.zipIdx_nil, SignatureEngineBuilder.loadNdbLines, htrim,
    if_neg hskip, hsplit, Nat.zero_add, hsig]
  rfl

/-- A search for each literal at each position, and digests of no file. -/
def naiveCrates : Crates where
  automaton literals buf := literals.zipIdx.flatMap fun p =>
    ((List.range (buf.len + 1)).filter fun start => OccursAt p.1 buf start).map (Match.mk p.2)
  md5 _ := ⟨List.replicate 16 0, rfl⟩
  sha1 _ := ⟨List.replicate 20 0, rfl⟩
  sha256 _ := ⟨List.replicate 32 0, rfl⟩

theorem naiveCrates_exact : naiveCrates.Exact where
  mem_iff literals buf m := by
    obtain ⟨pattern, start⟩ := m
    simp only [naiveCrates, List.mem_flatMap, Prod.exists, List.mk_mem_zipIdx_iff_getElem?,
      List.mem_map, List.mem_filter, List.mem_range, decide_eq_true_eq, Match.mk.injEq]
    constructor
    · rintro ⟨lit, i, hlit, pos, ⟨-, hoccurs⟩, rfl, rfl⟩
      exact ⟨lit, hlit, hoccurs⟩
    · rintro ⟨lit, hlit, hoccurs⟩
      have hlt : start < buf.len + 1 := by
        have := hoccurs.1
        omega
      exact ⟨lit, pattern, hlit, start, ⟨hlt, hoccurs⟩, rfl, rfl⟩

theorem loaded_near : Loaded ⟨[HexSignature.aaHello 0 30], HashDb.new⟩ :=
  .ndb "t:6161*{0-30}68656c6c6f".toList .new (by decide)
    (loadNdb_line (by decide) (by decide) (by decide) (by decide)
      HexSignature.parse_aaHello_near)

theorem loaded_far : Loaded ⟨[HexSignature.aaHello usizeMax usizeMax], HashDb.new⟩ :=
  .ndb "t:6161*{18446744073709551615-18446744073709551615}68656c6c6f".toList .new
    (by decide)
    (loadNdb_line (by decide) (by decide) (by decide) (by decide)
      HexSignature.parse_aaHello_far)

theorem scanBuffer_justified_near :
    ∃ hits, (SignatureEngineBuilder.build ⟨[HexSignature.aaHello 0 30], HashDb.new⟩
        naiveCrates).scanBuffer naiveCrates .off (HexSignature.textSlice "aa hello" (by decide)) =
          .ok hits ∧
      (SignatureEngineBuilder.build ⟨[HexSignature.aaHello 0 30], HashDb.new⟩
        naiveCrates).Justified .off (HexSignature.textSlice "aa hello" (by decide)) hits := by
  have hscan : (SignatureEngineBuilder.build ⟨[HexSignature.aaHello 0 30], HashDb.new⟩
      naiveCrates).scanBuffer naiveCrates .off (HexSignature.textSlice "aa hello" (by decide)) =
        .ok [⟨"t".toList, .hexSignature, some 0⟩] := by
    decide
  refine ⟨_, hscan, (scanBuffer_justified_iff loaded_near naiveCrates_exact .off _).mpr ?_ _ hscan⟩
  rintro - sig hsig start - ⟨⟨idx, hidx, hover⟩, -⟩
  obtain rfl := List.mem_singleton.mp hsig
  obtain rfl : idx = 0 := Nat.lt_one_iff.mp hidx
  revert hover
  decide

/-- Without overflow checks, a gap as large as can be written is taken for none: the signature is
reported on `aahello`. -/
theorem not_scanBuffer_justified :
    ¬ ∀ (checks : OverflowChecks) (b : SignatureEngineBuilder) (crates : Crates) (buf : Slice)
      (hits : List Detection), Loaded b → crates.Exact →
        (b.build crates).scanBuffer crates checks buf = .ok hits →
          (b.build crates).Justified checks buf hits := by
  intro h
  have hscan : (SignatureEngineBuilder.build ⟨[HexSignature.aaHello usizeMax usizeMax], HashDb.new⟩
      naiveCrates).scanBuffer naiveCrates .off (HexSignature.textSlice "aahello" (by decide)) =
        .ok [⟨"t".toList, .hexSignature, some 0⟩] := by
    decide
  have hjust := h .off _ _ _ _ loaded_far naiveCrates_exact hscan
  obtain ⟨sig, hsig, start, -, -, hplaced⟩ := hjust.exists_placedAt (.head _) rfl
  obtain rfl := List.mem_singleton.mp hsig
  have hshape := HexSignature.wellShaped_of_parse HexSignature.parse_aaHello_far
  have hover : (HexSignature.aaHello usizeMax usizeMax).GapOverflows 0 := by decide
  exact HexSignature.not_placedAt_of_gapOverflows hshape hover hplaced

end ActiveDefense.Clam
