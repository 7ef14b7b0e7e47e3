import ActiveDefense.Lib.Run
import ActiveDefense.Siem.Ontology

/-!
# The links and their indexes

A store keeps its links three times: as a set, by source and by target. Every operation of the
engine changes all three together or none, a link goes with either of its ends, and a type once
registered stays as it is. So the three agree, no link dangles, and what `traverse` reads off an
index is what the set of links says.
-/

namespace ActiveDefense.Siem

theorem mem_insertSet {α : Type} [DecidableEq α] {a b : α} {as : List α} :
    b ∈ insertSet a as ↔ b = a ∨ b ∈ as := by
  unfold insertSet
  split
  · next hmem => exact ⟨.inr, fun h => h.elim (fun hb => hb ▸ hmem) id⟩
  · simp [or_comm]

theorem nodup_insertSet {α : Type} [DecidableEq α] {a : α} {as : List α} (h : as.Nodup) :
    (insertSet a as).Nodup := by
  unfold insertSet
  split
  · exact h
  · next hnew => exact h.append (List.nodup_singleton a) (by simpa using hnew)

/-! ## Schemas -/

/-- The properties that a schema asks for: all that are declared, each of its type, and no other. -/
def ObjectType.Fits (schema : ObjectType) (properties : Table Str PropertyValue) : Prop :=
  (∀ name expected, schema.propertySchemas.lookup name = some expected →
    ∃ value, properties.lookup name = some value ∧ value.typeOf = expected) ∧
  ∀ name ∈ properties, name ∈ schema.propertySchemas

theorem propertyIssue_eq_none_iff {properties : Table Str PropertyValue} {name : Str}
    {expected : PropertyType} : OntologyEngine.propertyIssue properties name expected = none ↔
      ∃ value, properties.lookup name = some value ∧ value.typeOf = expected := by
  unfold OntologyEngine.propertyIssue
  cases properties.lookup name with
  | none => simp
  | some value => simp

/-- The validation finds no issue if and only if the properties are those of the schema. -/
theorem validateProperties_eq_nil_iff {schema : ObjectType} {properties : Table Str PropertyValue} :
    OntologyEngine.validateProperties schema properties = [] ↔ schema.Fits properties := by
  unfold OntologyEngine.validateProperties ObjectType.Fits
  rw [List.append_eq_nil_iff, List.filterMap_eq_nil_iff, List.map_eq_nil_iff, List.filter_eq_nil_iff]
  refine and_congr ⟨fun h name expected hname => ?_, fun h p hp => ?_⟩
    ⟨fun h name hname => ?_, fun h name hname => ?_⟩
  · exact propertyIssue_eq_none_iff.mp (h ⟨name, expected⟩ (AList.mem_lookup_iff.mp hname))
  · exact propertyIssue_eq_none_iff.mpr (h p.1 p.2 (AList.mem_lookup_iff.mpr hp))
  · by_contra hunknown
    exact h name (AList.mem_keys.mp hname) (decide_eq_true hunknown)
  · rw [decide_eq_true_eq, not_not]
    exact h name (AList.mem_keys.mpr hname)

/-! ## The store -/

namespace Store

/-- The links are a set, and each index holds it. -/
structure Indexed (s : Store) : Prop where
  nodup : s.links.Nodup
  forward : s.forwardIndex.Indexes fun key target => ⟨key.2, key.1, target⟩ ∈ s.links
  backward : s.backwardIndex.Indexes fun key source => ⟨key.2, source, key.1⟩ ∈ s.links

/-- A new link, in all three. -/
theorem Indexed.insertLink {s s' : Store} {link : LinkInstance} (hs : s.Indexed)
    (h : s.insertLink link = some s') :
    s'.Indexed ∧ s'.instances = s.instances ∧ ∀ l, l ∈ s'.links ↔ l = link ∨ l ∈ s.links := by
  obtain ⟨linkType, sourceId, targetId⟩ := link
  unfold Store.insertLink at h
  split at h
  · cases h
  · cases h
    refine ⟨⟨nodup_insertSet hs.nodup, ?_, ?_⟩, rfl, fun l => mem_insertSet⟩
    · refine hs.forward.insert (nodup_insertSet (hs.forward _).1) (fun target => ?_)
        fun key target hkey => ?_
      · rw [mem_insertSet, mem_insertSet]
        refine or_congr ?_ ((hs.forward _).2 target)
        simp
      · rw [mem_insertSet]
        refine or_iff_right fun heq => hkey ?_
        cases heq
        rfl
    · refine hs.backward.insert (nodup_insertSet (hs.backward _).1) (fun source => ?_)
        fun key source hkey => ?_
      · rw [mem_insertSet, mem_insertSet]
        refine or_congr ?_ ((hs.backward _).2 source)
        simp
      · rw [mem_insertSet]
        refine or_iff_right fun heq => hkey ?_
        cases heq
        rfl

/-- A link less, in all three. -/
theorem Indexed.removeLink {s s' : Store} {link : LinkInstance} (hs : s.Indexed)
    (h : s.removeLink link = some s') :
    s'.Indexed ∧ s'.instances = s.instances ∧ ∀ l, l ∈ s'.links ↔ l ≠ link ∧ l ∈ s.links := by
  obtain ⟨linkType, sourceId, targetId⟩ := link
  have hmem : ∀ l, l ∈ s.links.erase ⟨linkType, sourceId, targetId⟩ ↔
      l ≠ ⟨linkType, sourceId, targetId⟩ ∧ l ∈ s.links := fun l => hs.nodup.mem_erase_iff
  unfold Store.removeLink at h
  split at h
  · next hlink =>
    cases h
    refine ⟨⟨hs.nodup.erase _, ?_, ?_⟩, rfl, hmem⟩
    · have htarget := ((hs.forward (sourceId, linkType)).2 targetId).mpr hlink
      cases htargets : s.forwardIndex.lookup (sourceId, linkType) with
      | none =>
        rw [Table.bucket_of_not_mem htargets] at htarget
        cases htarget
      | some targets =>
        have hkey := hs.forward (sourceId, linkType)
        rw [Table.bucket_of_lookup htargets] at hkey
        refine hs.forward.insert (hkey.1.erase _) (fun target => ?_) fun key target hother => ?_
        · rw [hkey.1.mem_erase_iff, hmem, hkey.2]
          simp
        · rw [hmem]
          refine and_iff_right fun heq => hother ?_
          cases heq
          rfl
    · have hsource := ((hs.backward (targetId, linkType)).2 sourceId).mpr hlink
      cases hsources : s.backwardIndex.lookup (targetId, linkType) with
      | none =>
        rw [Table.bucket_of_not_mem hsources] at hsource
        cases hsource
      | some sources =>
        have hkey := hs.backward (targetId, linkType)
        rw [Table.bucket_of_lookup hsources] at hkey
        refine hs.backward.insert (hkey.1.erase _) (fun source => ?_) fun key source hother => ?_
        · rw [hkey.1.mem_erase_iff, hmem, hkey.2]
          simp
        · rw [hmem]
          refine and_iff_right fun heq => hother ?_
          cases heq
          rfl
  · cases h

/-- A link that is there is removed. -/
theorem removeLink_isSome {s : Store} {link : LinkInstance} (h : link ∈ s.links) :
    ∃ s', s.removeLink link = some s' := by
  unfold removeLink
  rw [if_pos h]
  exact ⟨_, rfl⟩

/-- The loop that removes links, each of which is there. -/
theorem Indexed.removeLinks {s : Store} {toRemove : List LinkInstance} (hs : s.Indexed)
    (hnodup : toRemove.Nodup) (hmem : ∀ l ∈ toRemove, l ∈ s.links) :
    let s' := toRemove.foldl (fun s link => (s.removeLink link).getD s) s
    s'.Indexed ∧ s'.instances = s.instances ∧ ∀ l, l ∈ s'.links ↔ l ∉ toRemove ∧ l ∈ s.links := by
  induction toRemove generalizing s with
  | nil => exact ⟨hs, rfl, fun l => (and_iff_right List.not_mem_nil).symm⟩
  | cons link rest ih =>
    obtain ⟨hnew, hrest⟩ := List.nodup_cons.mp hnodup
    obtain ⟨s₁, hremove⟩ := removeLink_isSome (hmem link (.head _))
    obtain ⟨hs₁, hinstances, hlinks⟩ := hs.removeLink hremove
    have hleft : ∀ l ∈ rest, l ∈ s₁.links := by
      intro l hl
      rw [hlinks]
      refine ⟨?_, hmem l (List.mem_cons_of_mem _ hl)⟩
      rintro rfl
      exact hnew hl
    obtain ⟨hs', hinstances', hlinks'⟩ := ih hs₁ hrest hleft
    simp only [List.foldl_cons, hremove, Option.getD_some]
    refine ⟨hs', hinstances'.trans hinstances, fun l => ?_⟩
    rw [hlinks' l, hlinks l, List.mem_cons, not_or]
    tauto

/-- No link is left that touches the instance. -/
theorem Indexed.removeLinksTouching {s : Store} (hs : s.Indexed) (instanceId : Str) :
    let s' := (s.removeLinksTouching instanceId).1
    s'.Indexed ∧ s'.instances = s.instances ∧
      ∀ l, l ∈ s'.links ↔ ¬ l.Touches instanceId ∧ l ∈ s.links := by
  have hnodup := hs.nodup.filter fun link => decide (link.Touches instanceId)
  obtain ⟨hs', hinstances, hlinks⟩ := hs.removeLinks hnodup fun l hl => (List.mem_filter.mp hl).1
  refine ⟨hs', hinstances, fun l => (hlinks l).trans ?_⟩
  rw [List.mem_filter, decide_eq_true_eq]
  tauto

end Store

namespace OntologyEngine

/-- The two ends of a link are there, each of the type that the type of the link declares. -/
def Typed (e : OntologyEngine) (link : LinkInstance) : Prop :=
  ∃ schema source target, e.linkTypes.lookup link.linkType = some schema ∧
    e.store.instances.lookup link.sourceId = some source ∧
    source.objectType = schema.sourceType ∧
    e.store.instances.lookup link.targetId = some target ∧ target.objectType = schema.targetType

/-- The instance is under its own id, and has the properties that its type asks for. -/
def Valid (e : OntologyEngine) (id : Str) (inst : ObjectInstance) : Prop :=
  inst.id = id ∧ ∃ schema, e.objectTypes.lookup inst.objectType = some schema ∧
    schema.Fits inst.properties

structure Consistent (e : OntologyEngine) : Prop where
  indexed : e.store.Indexed
  typed : ∀ link ∈ e.store.links, e.Typed link
  valid : ∀ id inst, e.store.instances.lookup id = some inst → e.Valid id inst

theorem consistent_new : new.Consistent where
  indexed := ⟨.nil, Table.indexes_empty fun _ _ => List.not_mem_nil,
    Table.indexes_empty fun _ _ => List.not_mem_nil⟩
  typed := nofun
  valid := nofun

/-- A link stays typed where the types and the types of its ends stay. -/
theorem Typed.mono {e e' : OntologyEngine} {link : LinkInstance} (h : e.Typed link)
    (hlinkTypes : ∀ name schema, e.linkTypes.lookup name = some schema →
      e'.linkTypes.lookup name = some schema)
    (hinstances : ∀ id inst, link.Touches id → e.store.instances.lookup id = some inst →
      ∃ inst', e'.store.instances.lookup id = some inst' ∧ inst'.objectType = inst.objectType) :
    e'.Typed link := by
  obtain ⟨schema, source, target, hschema, hsource, hsourceType, htarget, htargetType⟩ := h
  obtain ⟨source', hsource', hsame⟩ := hinstances _ _ (.inl rfl) hsource
  obtain ⟨target', htarget', hsame'⟩ := hinstances _ _ (.inr rfl) htarget
  exact ⟨schema, source', target', hlinkTypes _ _ hschema, hsource', hsame.trans hsourceType,
    htarget', hsame'.trans htargetType⟩

/-! ## What each operation keeps -/

theorem Consistent.registerObjectType {e : OntologyEngine} (h : e.Consistent)
    (objType : ObjectType) : (finalState (registerObjectType objType e)).Consistent := by
  unfold OntologyEngine.registerObjectType
  rw [finalState_guard]
  split
  · exact h
  simp only [get_bind_run]
  rw [finalState_guard]
  split
  · exact h
  · next hnew =>
    refine ⟨h.indexed, fun link hlink => ?_, fun id inst hinst => ?_⟩
    · exact (h.typed link hlink).mono (fun _ _ => id) fun _ inst _ hinst => ⟨inst, hinst, rfl⟩
    · obtain ⟨hid, schema, hschema, hfits⟩ := h.valid id inst hinst
      exact ⟨hid, schema, Table.lookup_insert_of_not_mem hnew hschema, hfits⟩

theorem Consistent.registerLinkType {e : OntologyEngine} (h : e.Consistent) (linkType : LinkType) :
    (finalState (registerLinkType linkType e)).Consistent := by
  unfold OntologyEngine.registerLinkType
  simp only [get_bind_run, finalState_guard]
  split
  · exact h
  split
  · exact h
  split
  · exact h
  · next hname =>
    refine ⟨h.indexed, fun link hlink => ?_, h.valid⟩
    exact (h.typed link hlink).mono (fun _ _ => Table.lookup_insert_of_not_mem hname)
      fun _ inst _ hinst => ⟨inst, hinst, rfl⟩

theorem Consistent.createObjectInstance {e : OntologyEngine} (h : e.Consistent)
    (inst : ObjectInstance) : (finalState (createObjectInstance inst e)).Consistent := by
  unfold OntologyEngine.createObjectInstance
  simp only [get_bind_run]
  cases hschema : e.objectTypes.lookup inst.objectType with
  | none => exact h
  | some schema =>
    simp only [finalState_guard]
    split_ifs with hissues hdup
    · exact h
    · exact h
    · refine ⟨⟨h.indexed.nodup, h.indexed.forward, h.indexed.backward⟩, fun link hlink => ?_,
        fun id inst' hinst' => ?_⟩
      · exact (h.typed link hlink).mono (fun _ _ => id) fun _ inst' _ hinst' =>
          ⟨inst', Table.lookup_insert_of_not_mem hdup hinst', rfl⟩
      · by_cases hid : id = inst.id
        · rw [hid] at hinst' ⊢
          have heq : some inst = some inst' := (AList.lookup_insert _).symm.trans hinst'
          cases heq
          exact ⟨rfl, schema, hschema, validateProperties_eq_nil_iff.mp (not_not.mp hissues)⟩
        · refine h.valid id inst' ((AList.lookup_insert_ne hid).symm.trans hinst')

theorem Consistent.updateObjectProperties {e : OntologyEngine} (h : e.Consistent)
    (instanceId : Str) (updates : Table Str PropertyValue) :
    (finalState (updateObjectProperties instanceId updates e)).Consistent := by
  unfold OntologyEngine.updateObjectProperties
  simp only [get_bind_run]
  cases hexisting : e.store.instances.lookup instanceId with
  | none => exact h
  | some existing =>
    cases hschema : e.objectTypes.lookup existing.objectType with
    | none =>
      simp only [hschema]
      exact h
    | some schema =>
      simp only [hschema, finalState_guard]
      split_ifs with hkey hissues
      · exact h
      · exact h
      · refine ⟨⟨h.indexed.nodup, h.indexed.forward, h.indexed.backward⟩, fun link hlink => ?_,
          fun id inst hinst => ?_⟩
        · refine (h.typed link hlink).mono (fun _ _ => id) fun id inst _ hinst => ?_
          by_cases hid : id = instanceId
          · rw [hid, hexisting] at hinst
            cases hinst
            rw [hid]
            exact ⟨_, AList.lookup_insert _, rfl⟩
          · exact ⟨inst, (AList.lookup_insert_ne hid).trans hinst, rfl⟩
        · by_cases hid : id = instanceId
          · rw [hid] at hinst ⊢
            cases (AList.lookup_insert _).symm.trans hinst
            exact ⟨(h.valid _ _ hexisting).1, schema, hschema,
              validateProperties_eq_nil_iff.mp (not_not.mp hissues)⟩
          · exact h.valid id inst ((AList.lookup_insert_ne hid).symm.trans hinst)

theorem Consistent.deleteObjectInstance {e : OntologyEngine} (h : e.Consistent) (instanceId : Str) :
    (finalState (deleteObjectInstance instanceId e)).Consistent := by
  unfold OntologyEngine.deleteObjectInstance
  simp only [get_bind_run, finalState_guard]
  split
  · exact h
  · have herased : Store.Indexed { e.store with instances := e.store.instances.erase instanceId } :=
      ⟨h.indexed.nodup, h.indexed.forward, h.indexed.backward⟩
    obtain ⟨hindexed, hinstances, hlinks⟩ := herased.removeLinksTouching instanceId
    refine ⟨hindexed, fun link hlink => ?_, fun id inst hinst => ?_⟩
    · obtain ⟨hfree, hlink⟩ := (hlinks link).mp hlink
      refine (h.typed link hlink).mono (fun _ _ => id) fun id inst htouches hinst => ?_
      refine ⟨inst, ?_, rfl⟩
      refine (congrArg (AList.lookup id) hinstances).trans ((AList.lookup_erase_ne ?_).trans hinst)
      rintro rfl
      exact hfree htouches
    · have hinst := (congrArg (AList.lookup id) hinstances).symm.trans hinst
      by_cases hid : id = instanceId
      · rw [hid] at hinst
        cases (AList.lookup_erase _ _).symm.trans hinst
      · exact h.valid id inst ((AList.lookup_erase_ne hid).symm.trans hinst)

theorem Consistent.createLink {e : OntologyEngine} (h : e.Consistent) (link : LinkInstance) :
    (finalState (createLink link e)).Consistent := by
  unfold OntologyEngine.createLink
  simp only [get_bind_run]
  cases hschema : e.linkTypes.lookup link.linkType with
  | none => exact h
  | some schema =>
    cases hsource : e.store.instances.lookup link.sourceId with
    | none => exact h
    | some source =>
      simp only [finalState_guard]
      split_ifs with hsourceType
      · exact h
      cases htarget : e.store.instances.lookup link.targetId with
      | none => exact h
      | some target =>
        simp only [finalState_guard]
        split_ifs with htargetType
        · exact h
        cases hstore : e.store.insertLink link with
        | none => exact h
        | some store =>
          obtain ⟨hindexed, hinstances, hlinks⟩ := h.indexed.insertLink hstore
          have hkept : ∀ l, e.Typed l → Typed { e with store := store } l := fun l hl =>
            hl.mono (fun _ _ => id) fun id inst _ hinst =>
              ⟨inst, (congrArg (AList.lookup id) hinstances).trans hinst, rfl⟩
          refine ⟨hindexed, fun l hl => ?_, fun id inst hinst => ?_⟩
          · rcases (hlinks l).mp hl with rfl | hl
            · exact hkept l ⟨schema, source, target, hschema, hsource, not_not.mp hsourceType,
                htarget, not_not.mp htargetType⟩
            · exact hkept l (h.typed l hl)
          · exact h.valid id inst ((congrArg (AList.lookup id) hinstances).symm.trans hinst)

theorem Consistent.deleteLink {e : OntologyEngine} (h : e.Consistent) (link : LinkInstance) :
    (finalState (deleteLink link e)).Consistent := by
  unfold OntologyEngine.deleteLink
  simp only [get_bind_run]
  cases hstore : e.store.removeLink link with
  | none => exact h
  | some store =>
    obtain ⟨hindexed, hinstances, hlinks⟩ := h.indexed.removeLink hstore
    refine ⟨hindexed, fun l hl => ?_, fun id inst hinst => ?_⟩
    · refine (h.typed l ((hlinks l).mp hl).2).mono (fun _ _ => id) fun id inst _ hinst => ?_
      exact ⟨inst, (congrArg (AList.lookup id) hinstances).trans hinst, rfl⟩
    · exact h.valid id inst ((congrArg (AList.lookup id) hinstances).symm.trans hinst)

end OntologyEngine

/-! ## Runs -/

inductive OntologyAction where
  | registerObjectType (objType : ObjectType)
  | registerLinkType (linkType : LinkType)
  | createObjectInstance (inst : ObjectInstance)
  | updateObjectProperties (instanceId : Str) (updates : Table Str PropertyValue)
  | deleteObjectInstance (instanceId : Str)
  | createLink (link : LinkInstance)
  | deleteLink (link : LinkInstance)

/-- The operation, without its result. -/
def OntologyAction.exec : OntologyAction → Ontology Unit
  | registerObjectType objType => OntologyEngine.registerObjectType objType
  | registerLinkType linkType => OntologyEngine.registerLinkType linkType
  | createObjectInstance inst => OntologyEngine.createObjectInstance inst
  | updateObjectProperties instanceId updates =>
    OntologyEngine.updateObjectProperties instanceId updates
  | deleteObjectInstance instanceId => discard (OntologyEngine.deleteObjectInstance instanceId)
  | createLink link => OntologyEngine.createLink link
  | deleteLink link => OntologyEngine.deleteLink link

/-- The link of a type from or to a node, with its other end. -/
def Direction.link (direction : Direction) (linkType nodeId id : Str) : LinkInstance :=
  match direction with
  | outgoing => ⟨linkType, nodeId, id⟩
  | incoming => ⟨linkType, id, nodeId⟩

namespace OntologyEngine

/-- The engine after an operation, whether that succeeds or fails. -/
def perform (e : OntologyEngine) (a : OntologyAction) : OntologyEngine := finalState (a.exec e)

theorem Consistent.perform {e : OntologyEngine} (h : e.Consistent) (a : OntologyAction) :
    (e.perform a).Consistent := by
  cases a with
  | registerObjectType objType => exact h.registerObjectType objType
  | registerLinkType linkType => exact h.registerLinkType linkType
  | createObjectInstance inst => exact h.createObjectInstance inst
  | updateObjectProperties instanceId updates => exact h.updateObjectProperties instanceId updates
  | deleteObjectInstance instanceId =>
    unfold OntologyEngine.perform OntologyAction.exec
    rw [finalState_discard]
    exact h.deleteObjectInstance instanceId
  | createLink link => exact h.createLink link
  | deleteLink link => exact h.deleteLink link

theorem Consistent.foldl {e : OntologyEngine} (h : e.Consistent) (as : List OntologyAction) :
    (as.foldl OntologyEngine.perform e).Consistent := by
  induction as generalizing e with
  | nil => exact h
  | cons a as ih => exact ih (h.perform a)

/-- The ids that `traverse` goes through. -/
def neighbours (e : OntologyEngine) (nodeId linkType : Str) (direction : Direction) : List Str :=
  match direction with
  | .outgoing => e.store.forwardIndex.bucket (nodeId, linkType)
  | .incoming => e.store.backwardIndex.bucket (nodeId, linkType)

theorem traverse_eq (e : OntologyEngine) (nodeId linkType : Str) (direction : Direction) :
    e.traverse nodeId linkType direction =
      (e.neighbours nodeId linkType direction).filterMap fun id => e.store.instances.lookup id := by
  cases direction with
  | outgoing =>
    simp only [traverse, neighbours, Table.bucket]
    cases e.store.forwardIndex.lookup (nodeId, linkType) with
    | none => rfl
    | some ids => rfl
  | incoming =>
    simp only [traverse, neighbours, Table.bucket]
    cases e.store.backwardIndex.lookup (nodeId, linkType) with
    | none => rfl
    | some ids => rfl

theorem Consistent.neighbours {e : OntologyEngine} (h : e.Consistent) (nodeId linkType : Str)
    (direction : Direction) : (e.neighbours nodeId linkType direction).Nodup ∧
      ∀ id, id ∈ e.neighbours nodeId linkType direction ↔
        direction.link linkType nodeId id ∈ e.store.links := by
  cases direction with
  | outgoing => exact h.indexed.forward (nodeId, linkType)
  | incoming => exact h.indexed.backward (nodeId, linkType)

/-- The other end of a link is there. -/
theorem Consistent.exists_of_link {e : OntologyEngine} (h : e.Consistent) {nodeId linkType id : Str}
    {direction : Direction} (hlink : direction.link linkType nodeId id ∈ e.store.links) :
    ∃ inst, e.store.instances.lookup id = some inst ∧ inst.id = id := by
  obtain ⟨schema, source, target, -, hsource, -, htarget, -⟩ := h.typed _ hlink
  cases direction with
  | outgoing => exact ⟨target, htarget, (h.valid _ _ htarget).1⟩
  | incoming => exact ⟨source, hsource, (h.valid _ _ hsource).1⟩

/-- `traverse` finds an instance for each link, in the order of the index. -/
theorem Consistent.map_traverse {e : OntologyEngine} (h : e.Consistent) (nodeId linkType : Str)
    (direction : Direction) : (e.traverse nodeId linkType direction).map (·.id) =
      e.neighbours nodeId linkType direction := by
  have hfound : ∀ id ∈ e.neighbours nodeId linkType direction,
      ∃ inst, e.store.instances.lookup id = some inst ∧ inst.id = id :=
    fun id hid => h.exists_of_link (((h.neighbours nodeId linkType direction).2 id).mp hid)
  rw [traverse_eq]
  generalize e.neighbours nodeId linkType direction = ids at hfound
  induction ids with
  | nil => rfl
  | cons id ids ih =>
    obtain ⟨inst, hinst, hid⟩ := hfound id (.head _)
    simp only [List.filterMap_cons, hinst, List.map_cons, hid]
    rw [ih fun id' hid' => hfound id' (List.mem_cons_of_mem _ hid')]

/-- `traverse` finds what is linked to the node, and nothing else. -/
theorem Consistent.mem_traverse {e : OntologyEngine} (h : e.Consistent) {nodeId linkType : Str}
    {direction : Direction} {inst : ObjectInstance} :
    inst ∈ e.traverse nodeId linkType direction ↔ e.store.instances.lookup inst.id = some inst ∧
      direction.link linkType nodeId inst.id ∈ e.store.links := by
  have hmem := (h.neighbours nodeId linkType direction).2
  rw [traverse_eq, List.mem_filterMap]
  constructor
  · rintro ⟨id, hid, hinst⟩
    obtain ⟨rfl, -⟩ := h.valid id inst hinst
    exact ⟨hinst, (hmem inst.id).mp hid⟩
  · rintro ⟨hinst, hlink⟩
    exact ⟨inst.id, (hmem inst.id).mpr hlink, hinst⟩

/-- After every sequence of operations, successful or failed: each index holds the links; the ends
of a link are there and of the types that its type declares; every instance has the properties that
its type asks for; and `traverse` finds what is linked to a node, each once, and nothing else. -/
theorem consistent_of_operations (as : List OntologyAction) :
    let e := as.foldl perform new
    (∀ source linkType target, target ∈ e.store.forwardIndex.bucket (source, linkType) ↔
      ⟨linkType, source, target⟩ ∈ e.store.links) ∧
    (∀ source linkType target, source ∈ e.store.backwardIndex.bucket (target, linkType) ↔
      ⟨linkType, source, target⟩ ∈ e.store.links) ∧
    (∀ link ∈ e.store.links, e.Typed link) ∧
    (∀ id inst, e.store.instances.lookup id = some inst → e.Valid id inst) ∧
    ∀ nodeId linkType direction,
      (∀ inst, inst ∈ e.traverse nodeId linkType direction ↔
        e.store.instances.lookup inst.id = some inst ∧
          direction.link linkType nodeId inst.id ∈ e.store.links) ∧
      (∀ id, id ∈ (e.traverse nodeId linkType direction).map (·.id) ↔
        direction.link linkType nodeId id ∈ e.store.links) ∧
      ((e.traverse nodeId linkType direction).map (·.id)).Nodup := by
  intro e
  have h : e.Consistent := consistent_new.foldl as
  refine ⟨fun source linkType => (h.indexed.forward (source, linkType)).2,
    fun source linkType target => (h.indexed.backward (target, linkType)).2 source, h.typed,
    h.valid, fun nodeId linkType direction => ⟨fun inst => h.mem_traverse, fun id => ?_, ?_⟩⟩
  · rw [h.map_traverse]
    exact (h.neighbours nodeId linkType direction).2 id
  · rw [h.map_traverse]
    exact (h.neighbours nodeId linkType direction).1

end OntologyEngine

end ActiveDefense.Siem
