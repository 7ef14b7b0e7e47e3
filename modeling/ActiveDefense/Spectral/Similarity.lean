import ActiveDefense.Lib.Prefix
import ActiveDefense.Lib.Table
import ActiveDefense.Rust.Arith
import ActiveDefense.Rust.Float

/-!
# The similarity of two nodes

`similarity` compares two nodes by their gateways, their parents, their subnets and their AS paths,
in this order. The subnets are words of 32 bits and the masks are words of 64: a mask keeps the 32
bits in front of the word, so two prefixes that agree share 32 bits more than they have
(`subnetSimilarity_agree`). The score and the reason are as they should be exactly where it is not
the subnets that decide (`scored_similarity_iff`).
-/

namespace ActiveDefense.Spectral

/-! ## The score -/

/-- `VirtualEdgeReason`. -/
inductive VirtualEdgeReason (φ : Type) where
  | sharedSubnet (prefixLen : UInt8)
  | commonGateway (gatewayId : UInt32)
  | asPathOverlap (overlapScore : φ)
  | infrastructureParent (parentNode : UInt32)

structure NodeMeta where
  subnetPrefix : BitVec 32
  prefixLen : UInt8
  gateway : Option UInt32
  asPath : List UInt32
  infraParent : Option UInt32

/-- `a << b` on `u64`. -/
def shlU64 : OverflowChecks → BitVec 64 → Nat → Except Panic (BitVec 64)
  | .on, a, b => if b < 64 then .ok (a <<< b) else .error .overflow
  | .off, a, b => .ok (a <<< (b % 64))

/-- `!0u64 << (32 - prefix_len as u64)`; a `u64` has the range of a `usize`. -/
def subnetMask (checks : OverflowChecks) (prefixLen : UInt8) : Except Panic (BitVec 64) := do
  let host ← subUsize checks 32 prefixLen.toNat
  shlU64 checks (BitVec.allOnes 64) host

/-- `u64::leading_ones`. -/
def leadingOnes (x : BitVec 64) : Nat := ((List.range 64).takeWhile x.getMsbD).length

section
variable {φ : Type} [FloatArith φ]

/-- The comparison by AS paths, the last one of `similarity`. -/
def asPathSimilarity (metaU metaV : NodeMeta) : φ × VirtualEdgeReason φ :=
  let inter := (metaU.asPath.toFinset ∩ metaV.asPath.toFinset).card
  let union := (metaU.asPath.toFinset ∪ metaV.asPath.toFinset).card
  if 0 < union then
    let jaccard : φ := FloatArith.ofUsize inter / FloatArith.ofUsize union
    (jaccard * 0.6, .asPathOverlap jaccard)
  else (0.0, .sharedSubnet 0)

/-- The comparison by subnets, and where they differ the next one. -/
def subnetSimilarity (checks : OverflowChecks) (metaU metaV : NodeMeta) :
    Except Panic (φ × VirtualEdgeReason φ) := do
  let maskU ← subnetMask checks metaU.prefixLen
  let maskV ← subnetMask checks metaV.prefixLen
  let commonMask := maskU &&& maskV
  if metaU.subnetPrefix.setWidth 64 &&& commonMask = metaV.subnetPrefix.setWidth 64 &&& commonMask
  then
    let sharedBits := UInt8.ofNat (leadingOnes commonMask)
    .ok (FloatArith.ofUsize sharedBits.toNat / 32.0, .sharedSubnet sharedBits)
  else .ok (asPathSimilarity metaU metaV)

/-- `if let (Some(a), Some(b)) = (a, b)` and `a == b`. -/
def bothSame (a b : Option UInt32) : Option UInt32 :=
  match a, b with
  | some a, some b => if a = b then some a else none
  | _, _ => none

/-- `similarity`, of nodes that are registered. -/
def similarityOf (checks : OverflowChecks) (metaU metaV : NodeMeta) :
    Except Panic (φ × VirtualEdgeReason φ) :=
  match bothSame metaU.gateway metaV.gateway with
  | some gateway => .ok (0.9, .commonGateway gateway)
  | none =>
    match bothSame metaU.infraParent metaV.infraParent with
    | some parent => .ok (0.8, .infrastructureParent parent)
    | none => subnetSimilarity checks metaU metaV

/-- `DynamicLaplacianRegularizer::similarity`. -/
def similarity (checks : OverflowChecks) (nodeMeta : Table Nat NodeMeta) (u v : Nat) :
    Except Panic (φ × VirtualEdgeReason φ) :=
  match nodeMeta.lookup u with
  | none => .ok (0.0, .sharedSubnet 0)
  | some metaU =>
    match nodeMeta.lookup v with
    | none => .ok (0.0, .sharedSubnet 0)
    | some metaV => similarityOf checks metaU metaV

end

/-! ## Masks -/

theorem getMsbD_mask {host i : Nat} :
    (BitVec.allOnes 64 <<< host).getMsbD i = decide (i + host < 64) := by
  rw [BitVec.getMsbD_shiftLeft, BitVec.getMsbD_allOnes]

theorem leadingOnes_mask {host : Nat} (h : host ≤ 64) :
    leadingOnes (BitVec.allOnes 64 <<< host) = 64 - host := by
  have hsplit : List.range 64 = List.range (64 - host) ++
      (List.range host).map (64 - host + ·) := by
    rw [← List.range_add, Nat.sub_add_cancel h]
  rw [leadingOnes, hsplit, List.takeWhile_append_of_pos]
  · have hnone : ((List.range host).map (64 - host + ·)).takeWhile
        (BitVec.allOnes 64 <<< host).getMsbD = [] := by
      cases host with
      | zero => rfl
      | succ host =>
        rw [List.range_succ_eq_map, List.map_cons, List.takeWhile_cons_of_neg]
        rw [getMsbD_mask, decide_eq_true_eq]
        omega
    rw [hnone, List.append_nil, List.length_range]
  · intro i hi
    rw [List.mem_range] at hi
    rw [getMsbD_mask, decide_eq_true_eq]
    omega

theorem and_mask (a b : Nat) : BitVec.allOnes 64 <<< a &&& BitVec.allOnes 64 <<< b =
    BitVec.allOnes 64 <<< max a b := by
  refine BitVec.eq_of_getMsbD_eq fun i hi => ?_
  rw [BitVec.getMsbD_and, getMsbD_mask, getMsbD_mask, getMsbD_mask, ← Bool.decide_and,
    decide_eq_decide]
  omega

theorem getLsbD_masked {x : BitVec 32} {host i : Nat} (hi : i < 64) :
    (x.setWidth 64 &&& BitVec.allOnes 64 <<< host).getLsbD i =
      (decide (host ≤ i) && x.getLsbD i) := by
  have hone : i - host < 64 := by omega
  simp only [BitVec.getLsbD_and, BitVec.getLsbD_setWidth, BitVec.getLsbD_shiftLeft,
    BitVec.getLsbD_allOnes, hi, hone, decide_true, Bool.true_and, Bool.and_true]
  by_cases hhost : host ≤ i
  · simp [hhost, Nat.not_lt_of_le hhost]
  · simp [hhost, Nat.lt_of_not_le hhost]

/-- Under a mask two words are the same if they agree in front of the host's bits. -/
theorem and_mask_eq_iff {x y : BitVec 32} {host : Nat} :
    x.setWidth 64 &&& BitVec.allOnes 64 <<< host = y.setWidth 64 &&& BitVec.allOnes 64 <<< host ↔
      x >>> host = y >>> host := by
  constructor
  · intro h
    refine BitVec.eq_of_getLsbD_eq fun i _ => ?_
    rw [BitVec.getLsbD_ushiftRight, BitVec.getLsbD_ushiftRight]
    by_cases hin : host + i < 64
    · have hbit := congrArg (BitVec.getLsbD · (host + i)) h
      rwa [getLsbD_masked hin, getLsbD_masked hin, decide_eq_true (Nat.le_add_right host i)] at hbit
    · rw [BitVec.getLsbD_of_ge x _ (by omega), BitVec.getLsbD_of_ge y _ (by omega)]
  · intro h
    refine BitVec.eq_of_getLsbD_eq fun i hi => ?_
    rw [getLsbD_masked hi, getLsbD_masked hi]
    by_cases hhost : host ≤ i
    · have hbit := congrArg (fun z => z.getLsbD (i - host)) h
      simp only [BitVec.getLsbD_ushiftRight, Nat.add_sub_cancel' hhost] at hbit
      rw [hbit]
    · simp [hhost]

/-! ## What the comparison gives -/

section
variable {K : Type} [Field K] [LinearOrder K] [FloorRing K] {metaU metaV : NodeMeta}

theorem subnetMask_of_le {prefixLen : UInt8} (checks : OverflowChecks)
    (h : prefixLen.toNat ≤ 32) :
    subnetMask checks prefixLen = .ok (BitVec.allOnes 64 <<< (32 - prefixLen.toNat)) := by
  have hsub : subUsize checks 32 prefixLen.toNat = .ok (32 - prefixLen.toNat) :=
    Extends.subUsize checks (by decide) _ (checkedSub_of_le h)
  have hlt : 32 - prefixLen.toNat < 64 := by omega
  rw [subnetMask, hsub]
  cases checks with
  | on => exact if_pos hlt
  | off =>
    change Except.ok (BitVec.allOnes 64 <<< ((32 - prefixLen.toNat) % 64)) = _
    rw [Nat.mod_eq_of_lt hlt]

/-- A length over 32 overflows. -/
theorem subnetMask_of_lt {prefixLen : UInt8} (h : 32 < prefixLen.toNat) :
    subnetMask .on prefixLen = .error .overflow := by
  have hsub : checkedSub 32 prefixLen.toNat = .error .overflow := if_neg (Nat.not_le_of_lt h)
  rw [subnetMask, subUsize, hsub]
  rfl

theorem max_host {lenU lenV : Nat} : max (32 - lenU) (32 - lenV) = 32 - min lenU lenV := by
  omega

/-- Two prefixes that agree share 32 bits more than the shorter one has. -/
theorem subnetSimilarity_agree (checks : OverflowChecks) (hu : metaU.prefixLen.toNat ≤ 32)
    (hv : metaV.prefixLen.toNat ≤ 32)
    (hsame : SamePrefix (min metaU.prefixLen.toNat metaV.prefixLen.toNat) metaU.subnetPrefix
      metaV.subnetPrefix) :
    ∃ (score : K) (len : UInt8), subnetSimilarity checks metaU metaV =
        .ok (score, .sharedSubnet len) ∧
      len.toNat = 32 + min metaU.prefixLen.toNat metaV.prefixLen.toNat ∧
      score = len.toNat / 32 := by
  have hmask := and_mask (32 - metaU.prefixLen.toNat) (32 - metaV.prefixLen.toNat)
  rw [max_host] at hmask
  refine ⟨_, UInt8.ofNat (32 + min metaU.prefixLen.toNat metaV.prefixLen.toNat), ?_, ?_, rfl⟩
  · rw [subnetSimilarity, subnetMask_of_le checks hu, subnetMask_of_le checks hv]
    change (if _ then _ else _) = _
    rw [hmask, if_pos (and_mask_eq_iff.mpr hsame), leadingOnes_mask (by omega)]
    have hones : 64 - (32 - min metaU.prefixLen.toNat metaV.prefixLen.toNat) =
        32 + min metaU.prefixLen.toNat metaV.prefixLen.toNat := by omega
    rw [hones]
    refine congrArg (fun score => Except.ok (score, _)) ?_
    norm_num
    rfl
  · rw [UInt8.toNat_ofNat', Nat.mod_eq_of_lt]
    omega

/-- Two prefixes that disagree leave the comparison to the AS paths. -/
theorem subnetSimilarity_disagree (checks : OverflowChecks) (hu : metaU.prefixLen.toNat ≤ 32)
    (hv : metaV.prefixLen.toNat ≤ 32)
    (hdiff : ¬ SamePrefix (min metaU.prefixLen.toNat metaV.prefixLen.toNat) metaU.subnetPrefix
      metaV.subnetPrefix) :
    subnetSimilarity (φ := K) checks metaU metaV = .ok (asPathSimilarity metaU metaV) := by
  have hmask := and_mask (32 - metaU.prefixLen.toNat) (32 - metaV.prefixLen.toNat)
  rw [max_host] at hmask
  rw [subnetSimilarity, subnetMask_of_le checks hu, subnetMask_of_le checks hv]
  change (if _ then _ else _) = _
  rw [hmask, if_neg (and_mask_eq_iff.not.mpr hdiff)]

theorem bothSame_comm (a b : Option UInt32) : bothSame a b = bothSame b a := by
  cases a with
  | none => cases b <;> rfl
  | some a =>
    cases b with
    | none => rfl
    | some b =>
      simp only [bothSame]
      by_cases hab : a = b
      · rw [if_pos hab, if_pos hab.symm, hab]
      · rw [if_neg hab, if_neg fun hba => hab hba.symm]

theorem bothSame_eq_some_iff {a b : Option UInt32} {x : UInt32} :
    bothSame a b = some x ↔ a = some x ∧ b = some x := by
  cases a with
  | none => simp [bothSame]
  | some a =>
    cases b with
    | none => simp [bothSame]
    | some b =>
      simp only [bothSame]
      grind

theorem asPathSimilarity_comm :
    asPathSimilarity (φ := K) metaU metaV = asPathSimilarity metaV metaU := by
  simp only [asPathSimilarity, Finset.inter_comm metaU.asPath.toFinset,
    Finset.union_comm metaU.asPath.toFinset]

/-- With a hop on one of the paths, the comparison by AS paths decides. -/
theorem asPathSimilarity_of_ne [IsStrictOrderedRing K]
    (h : metaU.asPath ≠ [] ∨ metaV.asPath ≠ []) :
    ∃ score jaccard : K, asPathSimilarity metaU metaV = (score, .asPathOverlap jaccard) ∧
      0 ≤ score ∧ score ≤ 1 := by
  have hpos : 0 < (metaU.asPath.toFinset ∪ metaV.asPath.toFinset).card := by
    rw [Finset.card_pos, Finset.union_nonempty, List.toFinset_nonempty_iff,
      List.toFinset_nonempty_iff]
    exact h
  have hle : (metaU.asPath.toFinset ∩ metaV.asPath.toFinset).card ≤
      (metaU.asPath.toFinset ∪ metaV.asPath.toFinset).card :=
    Finset.card_le_card Finset.inter_subset_union
  refine ⟨_, _, if_pos hpos, ?_⟩
  have hjaccard : ∀ a b : Nat, a ≤ b → 0 < b → (0 : K) ≤ a / b ∧ (a : K) / b ≤ 1 := by
    intro a b hab hb
    have hb' : (0 : K) < b := Nat.cast_pos.mpr hb
    exact ⟨by positivity, (div_le_one hb').mpr (Nat.cast_le.mpr hab)⟩
  obtain ⟨h0, h1⟩ := hjaccard _ _ hle hpos
  have hscore : ∀ x : K, 0 ≤ x → x ≤ 1 → 0 ≤ x * 0.6 ∧ x * 0.6 ≤ 1 := by
    intro x hx0 hx1
    norm_num
    constructor
    · positivity
    · linarith
  exact hscore _ h0 h1

/-- The results of a comparison in the two orders are as they should be: there is no overflow, they
are the same, the score is in the unit interval, and a subnet that they name is shared and scores by
its length, so fewer shared bits never score higher. -/
def Scored (x y : Except Panic (K × VirtualEdgeReason K)) (metaU metaV : NodeMeta) : Prop :=
  ∃ score reason, x = .ok (score, reason) ∧ y = .ok (score, reason) ∧ 0 ≤ score ∧ score ≤ 1 ∧
    ∀ len, reason = .sharedSubnet len →
      len.toNat = min metaU.prefixLen.toNat metaV.prefixLen.toNat ∧ len.toNat ≤ 32 ∧
      SamePrefix len.toNat metaU.subnetPrefix metaV.subnetPrefix ∧ score = len.toNat / 32

/-- A result without a subnet. -/
theorem scored_of_score {x y : Except Panic (K × VirtualEdgeReason K)} {score : K}
    {reason : VirtualEdgeReason K} (hx : x = .ok (score, reason)) (hy : y = .ok (score, reason))
    (h0 : 0 ≤ score) (h1 : score ≤ 1) (hreason : ∀ len, reason ≠ .sharedSubnet len) :
    Scored x y metaU metaV :=
  ⟨score, reason, hx, hy, h0, h1, fun len hlen => absurd hlen (hreason len)⟩

theorem samePrefix_zero (a b : BitVec 32) : SamePrefix 0 a b := by
  rw [SamePrefix, BitVec.ushiftRight_eq_zero (by decide), BitVec.ushiftRight_eq_zero (by decide)]

/-- The comparison by subnets is as it should be exactly if they differ, and a hop decides. -/
theorem scored_subnet_iff [IsStrictOrderedRing K] :
    Scored (K := K) (subnetSimilarity .on metaU metaV) (subnetSimilarity .on metaV metaU)
        metaU metaV ↔
      metaU.prefixLen.toNat ≤ 32 ∧ metaV.prefixLen.toNat ≤ 32 ∧
        ¬ SamePrefix (min metaU.prefixLen.toNat metaV.prefixLen.toNat) metaU.subnetPrefix
          metaV.subnetPrefix ∧
        (metaU.asPath ≠ [] ∨ metaV.asPath ≠ []) := by
  constructor
  · rintro ⟨score, reason, hsim, hsim', -, -, hreason⟩
    have hlens : ∀ {a b : NodeMeta}, subnetSimilarity .on a b = .ok (score, reason) →
        a.prefixLen.toNat ≤ 32 := by
      intro a b h
      by_contra hlt
      rw [subnetSimilarity, subnetMask_of_lt (Nat.lt_of_not_le hlt)] at h
      cases h
    have hlenU := hlens hsim
    have hlenV := hlens hsim'
    by_cases hsame : SamePrefix (min metaU.prefixLen.toNat metaV.prefixLen.toNat)
        metaU.subnetPrefix metaV.subnetPrefix
    · -- the length that is reported is 32 too large
      obtain ⟨_, len, hagree, hlen, -⟩ := subnetSimilarity_agree (K := K) .on hlenU hlenV hsame
      cases hagree.symm.trans hsim
      have hbad := (hreason len rfl).1
      omega
    · refine ⟨hlenU, hlenV, hsame, ?_⟩
      by_contra hpaths
      rw [not_or, not_not, not_not] at hpaths
      -- the length that is reported is zero, and the prefixes would agree on no bits
      rw [subnetSimilarity_disagree .on hlenU hlenV hsame, asPathSimilarity, hpaths.1,
        hpaths.2] at hsim
      cases hsim
      have hzero := (hreason 0 rfl).1
      rw [← hzero] at hsame
      exact hsame (samePrefix_zero _ _)
  · rintro ⟨hlenU, hlenV, hdiff, hpaths⟩
    obtain ⟨score, jaccard, hscore, h0, h1⟩ := asPathSimilarity_of_ne (K := K) hpaths
    have hno : ∀ len, (.asPathOverlap jaccard : VirtualEdgeReason K) ≠ .sharedSubnet len := by
      intro len hlen
      cases hlen
    refine scored_of_score ?_ ?_ h0 h1 hno
    · rw [subnetSimilarity_disagree .on hlenU hlenV hdiff, hscore]
    · rw [subnetSimilarity_disagree .on hlenV hlenU, ← asPathSimilarity_comm, hscore]
      rw [Nat.min_comm]
      exact fun h => hdiff h.symm

/-- A comparison of registered nodes is as it should be exactly if it does not come to the subnets,
or comes to them with lengths up to 32, finds them different and has a hop on one of the AS
paths. -/
theorem scored_similarity_iff [IsStrictOrderedRing K] {nodeMeta : Table Nat NodeMeta} {u v : Nat}
    (hu : nodeMeta.lookup u = some metaU) (hv : nodeMeta.lookup v = some metaV) :
    Scored (K := K) (similarity .on nodeMeta u v) (similarity .on nodeMeta v u) metaU metaV ↔
      (∃ gateway, metaU.gateway = some gateway ∧ metaV.gateway = some gateway) ∨
      (∃ parent, metaU.infraParent = some parent ∧ metaV.infraParent = some parent) ∨
      (metaU.prefixLen.toNat ≤ 32 ∧ metaV.prefixLen.toNat ≤ 32 ∧
        ¬ SamePrefix (min metaU.prefixLen.toNat metaV.prefixLen.toNat) metaU.subnetPrefix
          metaV.subnetPrefix ∧
        (metaU.asPath ≠ [] ∨ metaV.asPath ≠ [])) := by
  have hnine : (0 : K) ≤ 0.9 ∧ (0.9 : K) ≤ 1 := by norm_num
  have height : (0 : K) ≤ 0.8 ∧ (0.8 : K) ≤ 1 := by norm_num
  rw [← scored_subnet_iff (K := K)]
  simp only [similarity, hu, hv, similarityOf, ← bothSame_eq_some_iff,
    bothSame_comm metaV.gateway, bothSame_comm metaV.infraParent]
  cases hgateway : bothSame metaU.gateway metaV.gateway with
  | some gateway =>
    refine iff_of_true (scored_of_score rfl rfl hnine.1 hnine.2 ?_) (.inl ⟨gateway, rfl⟩)
    intro len hlen
    cases hlen
  | none =>
    cases hparent : bothSame metaU.infraParent metaV.infraParent with
    | some parent =>
      refine iff_of_true (scored_of_score rfl rfl height.1 height.2 ?_) (.inr (.inl ⟨parent, rfl⟩))
      intro len hlen
      cases hlen
    | none => simp

/-- A node of the subnet 192.168.1.0/24, with no gateway, path or parent. -/
def lanNode (address : BitVec 32) : NodeMeta where
  subnetPrefix := address
  prefixLen := 24
  gateway := none
  asPath := [64512]
  infraParent := none

/-- Nodes of two subnets, on the same path. -/
theorem scored_similarity_iff_lan :
    Scored (K := ℚ)
      (similarity .on ((AList.insert 0 (lanNode 0xC0A80100) ∅).insert 1 (lanNode 0xC0A80200)) 0 1)
      (similarity .on ((AList.insert 0 (lanNode 0xC0A80100) ∅).insert 1 (lanNode 0xC0A80200)) 1 0)
      (lanNode 0xC0A80100) (lanNode 0xC0A80200) := by
  refine (scored_similarity_iff rfl rfl).mpr (.inr (.inr ⟨?_, ?_, ?_, ?_⟩)) <;> decide

/-- Two nodes of one subnet score over 1, for 56 bits. -/
theorem not_scored_similarity :
    ¬ ∀ (nodeMeta : Table Nat NodeMeta) (u v : Nat) (metaU metaV : NodeMeta),
      nodeMeta.lookup u = some metaU → nodeMeta.lookup v = some metaV →
        Scored (K := ℚ) (similarity .on nodeMeta u v) (similarity .on nodeMeta v u) metaU
          metaV := by
  intro h
  obtain ⟨score, reason, hsim, -, -, -, hreason⟩ :=
    h ((AList.insert 0 (lanNode 0xC0A80100) ∅).insert 1 (lanNode 0xC0A80100)) 0 1 _ _ rfl rfl
  have hsubnet : subnetSimilarity (φ := ℚ) .on (lanNode 0xC0A80100) (lanNode 0xC0A80100) =
      .ok (score, reason) := hsim
  have hlen24 : (lanNode 0xC0A80100).prefixLen.toNat ≤ 32 := by decide
  obtain ⟨_, len, hagree, hlen, -⟩ := subnetSimilarity_agree (K := ℚ) .on hlen24 hlen24 rfl
  cases hagree.symm.trans hsubnet
  have hbad := (hreason len rfl).1
  rw [hlen] at hbad
  exact absurd hbad (by decide)

end

end ActiveDefense.Spectral
