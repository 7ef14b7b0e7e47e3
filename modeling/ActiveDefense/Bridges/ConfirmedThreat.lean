import ActiveDefense.Rust.Net
import ActiveDefense.Spectral.Observed

/-!
# Confirmed threats in the spectral graph

`record_confirmed_threat` observes an edge between a host and an anchor. Its documentation calls it
idempotent: the readers of the observed edges should not tell one call from two. The connected graph
is the same unless nothing had been observed before; the Laplacian of the next tick is another one,
as long as the sums in it still change by one more observation (`recordConfirmedThreat_twice_iff`).
-/

namespace ActiveDefense.Bridges

open Spectral

/-- `NodeInterner`. -/
structure NodeInterner where
  counter : Nat
  forward : Table Str Nat
  reverse : Table Nat Str

/-- `get_or_intern`. -/
def NodeInterner.getOrIntern (self : NodeInterner) (val : Str) : Nat × NodeInterner :=
  match self.forward.lookup val with
  | some id => (id, self)
  | none => (self.counter, {
      counter := self.counter + 1
      forward := self.forward.insert val self.counter
      reverse := self.reverse.insert self.counter val })

/-- `QdrantSpectralSecurityEngine`, with what the calls here read and change. -/
structure Engine (φ : Type) where
  interner : NodeInterner
  observedEdges : List ObservedEdge
  regularizer : AnyRegularizer φ

variable {φ β : Type}

/-- Two names are interned and their edge is observed. -/
def Engine.observe (engine : Engine φ) (src dst : Str) : Engine φ where
  interner := ((engine.interner.getOrIntern src).2.getOrIntern dst).2
  observedEdges := engine.observedEdges ++ [(src, dst)]
  regularizer := engine.regularizer

/-- The edge of a host that is a confirmed threat. -/
def threatEdge (host : IpAddr) : ObservedEdge :=
  ("Ip:".toList ++ host.display, "Host:asd_confirmed_threat_anchor".toList)

/-- `record_confirmed_threat`. -/
def recordConfirmedThreat (engine : Engine φ) (host : IpAddr) : Engine φ :=
  engine.observe (threatEdge host).1 (threatEdge host).2

/-- `ingest_cic`, up to the regulariser's tick. -/
def Engine.ingestEdge (engine : Engine φ) (srcIp dstIp : Str) : Engine φ :=
  engine.observe ("Ip:".toList ++ srcIp) ("Ip:".toList ++ dstIp)

theorem threatEdge_ne (host : IpAddr) : (threatEdge host).1 ≠ (threatEdge host).2 := by
  intro h
  have hhead : some 'I' = some 'H' := congrArg List.head? h
  exact absurd hhead (by decide)

theorem getOrIntern_of_mem {self : NodeInterner} {val : Str} (h : val ∈ self.forward) :
    (self.getOrIntern val).2 = self := by
  obtain ⟨id, hid⟩ := Table.mem_iff_lookup.mp h
  rw [NodeInterner.getOrIntern, hid]

theorem mem_getOrIntern (self : NodeInterner) (val x : Str) :
    x ∈ (self.getOrIntern val).2.forward ↔ x ∈ self.forward ∨ x = val := by
  rw [NodeInterner.getOrIntern]
  cases hlookup : self.forward.lookup val with
  | some id =>
    have hold : val ∈ self.forward := Table.mem_iff_lookup.mpr ⟨id, hlookup⟩
    exact ⟨.inl, fun h => h.elim (fun h => h) fun h => h ▸ hold⟩
  | none => rw [AList.mem_insert, or_comm]

/-- The interner does not tell one call from two. -/
theorem interner_twice (engine : Engine φ) (host : IpAddr) :
    (recordConfirmedThreat (recordConfirmedThreat engine host) host).interner =
      (recordConfirmedThreat engine host).interner := by
  have hsrc : (threatEdge host).1 ∈ (recordConfirmedThreat engine host).interner.forward :=
    (mem_getOrIntern _ _ _).mpr (.inl ((mem_getOrIntern _ _ _).mpr (.inr rfl)))
  have hdst : (threatEdge host).2 ∈ (recordConfirmedThreat engine host).interner.forward :=
    (mem_getOrIntern _ _ _).mpr (.inr rfl)
  change ((((recordConfirmedThreat engine host).interner).getOrIntern
    (threatEdge host).1).2.getOrIntern (threatEdge host).2).2 =
      (recordConfirmedThreat engine host).interner
  rw [getOrIntern_of_mem hsrc, getOrIntern_of_mem hdst]

theorem rebuildSpectral_twice_iff (embed : Graph → Option β) (engine : Engine φ)
    (host : IpAddr) :
    rebuildSpectral embed
          (recordConfirmedThreat (recordConfirmedThreat engine host) host).observedEdges =
        rebuildSpectral embed (recordConfirmedThreat engine host).observedEdges ↔
      engine.observedEdges ≠ [] ∨ embed pairGraph = none := by
  rw [← rebuildSpectral_repeat_iff embed engine.observedEdges (threatEdge_ne host)]
  simp only [recordConfirmedThreat, Engine.observe, List.append_assoc, List.cons_append,
    List.nil_append]

variable [FloatFns φ]

/-- The Laplacian of the tick in the next `ingest_cic`. -/
def Engine.nextLaplacian (engine : Engine φ) (srcIp dstIp : Str) : Option (List (List φ)) :=
  tickLaplacian engine.regularizer (engine.ingestEdge srcIp dstIp).observedEdges

theorem nextLaplacian_twice_iff (engine : Engine φ) (host : IpAddr) (srcIp dstIp : Str) :
    let once := recordConfirmedThreat engine host
    let snapshot := (once.ingestEdge srcIp dstIp).observedEdges
    (recordConfirmedThreat once host).nextLaplacian srcIp dstIp =
        once.nextLaplacian srcIp dstIp ↔
      Settled (resize engine.regularizer (nodeSet snapshot).length).epsilon snapshot
        (threatEdge host) := by
  intro once snapshot
  have honce : snapshot = engine.observedEdges ++
      threatEdge host :: [("Ip:".toList ++ srcIp, "Ip:".toList ++ dstIp)] :=
    List.append_assoc _ _ _
  have htwice : ((recordConfirmedThreat once host).ingestEdge srcIp dstIp).observedEdges =
      engine.observedEdges ++ threatEdge host :: threatEdge host ::
        [("Ip:".toList ++ srcIp, "Ip:".toList ++ dstIp)] := by
    change (engine.observedEdges ++ [threatEdge host] ++ [threatEdge host]) ++ [_] = _
    rw [List.append_assoc, List.append_assoc]
    rfl
  change tickLaplacian engine.regularizer _ = tickLaplacian engine.regularizer snapshot ↔ _
  rw [htwice, honce]
  exact tickLaplacian_repeat_iff engine.regularizer engine.observedEdges (threatEdge_ne host) _

/-- Two calls in a row are one to the readers of the observed edges exactly if something had been
observed before, or two nodes are too few to embed, and the sums of the next Laplacian do not change
by one more observation. -/
theorem recordConfirmedThreat_twice_iff (embed : Graph → Option β) (engine : Engine φ)
    (host : IpAddr) (srcIp dstIp : Str) :
    let once := recordConfirmedThreat engine host
    let twice := recordConfirmedThreat once host
    let snapshot := (once.ingestEdge srcIp dstIp).observedEdges
    (rebuildSpectral embed twice.observedEdges = rebuildSpectral embed once.observedEdges ∧
        twice.nextLaplacian srcIp dstIp = once.nextLaplacian srcIp dstIp) ↔
      (engine.observedEdges ≠ [] ∨ embed pairGraph = none) ∧
        Settled (resize engine.regularizer (nodeSet snapshot).length).epsilon snapshot
          (threatEdge host) := by
  intro once twice snapshot
  exact and_congr (rebuildSpectral_twice_iff embed engine host)
    (nextLaplacian_twice_iff engine host srcIp dstIp)

/-- An engine that has observed one flow. -/
def oneFlow (φ : Type) [FloatFns φ] : Engine φ :=
  Engine.ingestEdge ⟨⟨1, ∅, ∅⟩, [], ⟨0, .new 0 0.01 0.5⟩⟩ "10.0.0.5".toList "10.0.0.20".toList

/-- In exact arithmetic the second call shows in the Laplacian. -/
theorem not_recordConfirmedThreat_twice :
    ¬ ∀ (embed : Graph → Option Unit) (engine : Engine ℝ) (host : IpAddr) (srcIp dstIp : Str),
      let once := recordConfirmedThreat engine host
      let twice := recordConfirmedThreat once host
      rebuildSpectral embed twice.observedEdges = rebuildSpectral embed once.observedEdges ∧
        twice.nextLaplacian srcIp dstIp = once.nextLaplacian srcIp dstIp := by
  intro h
  have hsame := (h (fun _ => some ()) (oneFlow ℝ) (.v4 0x0A000005) "10.0.0.5".toList
    "10.0.0.20".toList).2
  exact not_settled _ _ _ ((nextLaplacian_twice_iff _ _ _ _).mp hsame)

end ActiveDefense.Bridges
