import ActiveDefense.Rust.Float
import ActiveDefense.Siem.Graph

/-!
# What an operation cannot change

An operation of the engine makes its checks before it writes, so that one that fails has written
nothing. An update may name the primary key only with the value that is there, and a type once
registered stays; so the value of the primary key of an instance is the same for as long as the
instance is there.
-/

namespace ActiveDefense.Siem

/-! ## Failures -/

/-- An operation that fails has changed nothing. -/
theorem OntologyAction.atomic (a : OntologyAction) : Atomic a.exec := by
  cases a with
  | registerObjectType objType => exact .guard (.get fun e => .guard .set)
  | registerLinkType linkType => exact .get fun e => .guard (.guard (.guard .set))
  | createObjectInstance inst =>
    refine .get fun e => ?_
    cases e.objectTypes.lookup inst.objectType with
    | none => exact .throw
    | some schema => exact .guard (.guard .set)
  | updateObjectProperties instanceId updates =>
    refine .get fun e => ?_
    cases e.store.instances.lookup instanceId with
    | none => exact .throw
    | some existing =>
      simp only
      cases e.objectTypes.lookup existing.objectType with
      | none => exact .throw
      | some schema => exact .guard (.guard .set)
  | deleteObjectInstance instanceId => exact .bind_pure (.get fun e => .guard (.bind_pure .set))
  | createLink link =>
    refine .get fun e => ?_
    cases e.linkTypes.lookup link.linkType with
    | none => exact .throw
    | some schema =>
      simp only
      cases e.store.instances.lookup link.sourceId with
      | none => exact .throw
      | some source =>
        refine .guard ?_
        cases e.store.instances.lookup link.targetId with
        | none => exact .throw
        | some target =>
          refine .guard ?_
          cases e.store.insertLink link with
          | none => exact .throw
          | some store => exact .set
  | deleteLink link =>
    refine .get fun e => ?_
    cases e.store.removeLink link with
    | none => exact .throw
    | some store => exact .set

/-! ## The value of a property -/

namespace PropertyValue

/-- One value: identical, or equal as the derived equality has it, which does not tell the two zeros
of a float apart. -/
def Same (v w : PropertyValue) : Prop := v = w ∨ (v == w) = true

theorem Same.refl (v : PropertyValue) : v.Same v := .inl rfl

/-- Equal values are identical, unless they are floats. -/
theorem eq_or_float_of_beq {v w : PropertyValue} (h : (v == w) = true) :
    v = w ∨ ∃ a b, v = .float a ∧ w = .float b ∧ (a == b) = true := by
  change PropertyValue.eq v w = true at h
  cases v with
  | float a =>
    cases w with
    | float b => exact .inr ⟨a, b, rfl, rfl, h⟩
    | _ => cases h
  | _ v => cases w <;> first | cases h | exact .inl (congrArg _ (eq_of_beq h))

theorem Same.trans {u v w : PropertyValue} (huv : u.Same v) (hvw : v.Same w) : u.Same w := by
  rcases huv with rfl | huv
  · exact hvw
  rcases hvw with rfl | hvw
  · exact .inr huv
  rcases eq_or_float_of_beq huv with rfl | ⟨a, b, rfl, rfl, hab⟩
  · exact .inr hvw
  rcases eq_or_float_of_beq hvw with rfl | ⟨b', c, hb, rfl, hbc⟩
  · exact .inr huv
  · cases hb
    exact .inr (float_beq_trans hab hbc)

end PropertyValue

/-- A table with entries put into it one after the other. -/
theorem lookup_foldl_insert {κ υ : Type} [DecidableEq κ] {updates : List (Σ _ : κ, υ)}
    (hnodup : updates.NodupKeys) (t : Table κ υ) (k : κ) :
    (updates.foldl (fun m p => m.insert p.1 p.2) t).lookup k =
      (updates.dlookup k).or (t.lookup k) := by
  induction updates generalizing t with
  | nil => rfl
  | cons entry rest ih =>
    obtain ⟨hnew, hrest⟩ := List.nodupKeys_cons.mp hnodup
    rw [List.foldl_cons, ih hrest]
    by_cases hk : k = entry.1
    · subst hk
      rw [List.dlookup_eq_none.mpr hnew, AList.lookup_insert, List.dlookup_cons_eq]
      rfl
    · rw [AList.lookup_insert_ne hk, List.dlookup_cons_ne _ _ hk]

namespace OntologyEngine

/-- The value of the primary key of an instance. -/
def primaryKeyOf (e : OntologyEngine) (id : Str) : Option PropertyValue := do
  let inst ← e.store.instances.lookup id
  let schema ← e.objectTypes.lookup inst.objectType
  inst.properties.lookup schema.primaryKey

/-- It stays where the instance stays, and the registered types. -/
theorem Consistent.primaryKeyOf_congr {e e' : OntologyEngine} (h : e.Consistent) {id : Str}
    (hid : id ∈ e.store.instances)
    (hinstance : e'.store.instances.lookup id = e.store.instances.lookup id)
    (htypes : ∀ name schema, e.objectTypes.lookup name = some schema →
      e'.objectTypes.lookup name = some schema) : e'.primaryKeyOf id = e.primaryKeyOf id := by
  obtain ⟨inst, hinst⟩ := Table.mem_iff_lookup.mp hid
  obtain ⟨-, schema, hschema, -⟩ := h.valid id inst hinst
  unfold primaryKeyOf
  rw [hinstance, hinst]
  simp only [Option.bind_eq_bind, Option.bind_some, hschema, htypes _ _ hschema]

/-! ## What an operation that succeeds leaves -/

theorem registerObjectType_spec {objType : ObjectType} {e e' : OntologyEngine}
    (h : registerObjectType objType e = .ok () e') : objType.name ∉ e.objectTypes ∧
      e' = { e with objectTypes := e.objectTypes.insert objType.name objType } := by
  unfold registerObjectType at h
  obtain ⟨-, h⟩ := of_guard_ok h
  simp only [get_bind_run] at h
  obtain ⟨hnew, h⟩ := of_guard_ok h
  cases h
  exact ⟨hnew, rfl⟩

theorem registerLinkType_spec {linkType : LinkType} {e e' : OntologyEngine}
    (h : registerLinkType linkType e = .ok () e') :
    e' = { e with linkTypes := e.linkTypes.insert linkType.name linkType } := by
  unfold registerLinkType at h
  simp only [get_bind_run] at h
  obtain ⟨-, h⟩ := of_guard_ok (of_guard_ok (of_guard_ok h).2).2
  cases h
  rfl

/-- An update that names the primary key names its value. -/
theorem updateObjectProperties_spec {instanceId : Str} {updates : Table Str PropertyValue}
    {e e' : OntologyEngine} (h : updateObjectProperties instanceId updates e = .ok () e') :
    ∃ existing schema, e.store.instances.lookup instanceId = some existing ∧
      e.objectTypes.lookup existing.objectType = some schema ∧
      (∀ value, updates.lookup schema.primaryKey = some value →
        ∃ current, existing.properties.lookup schema.primaryKey = some current ∧
          (current == value) = true) ∧
      e' = { e with
        store := { e.store with
          instances := e.store.instances.insert instanceId { existing with
            properties := updates.entries.foldl (fun m p => m.insert p.1 p.2)
              existing.properties } } } := by
  unfold updateObjectProperties at h
  simp only [get_bind_run] at h
  cases hexisting : e.store.instances.lookup instanceId with
  | none =>
    rw [hexisting] at h
    cases h
  | some existing =>
    rw [hexisting] at h
    simp only at h
    cases hschema : e.objectTypes.lookup existing.objectType with
    | none =>
      rw [hschema] at h
      cases h
    | some schema =>
      rw [hschema] at h
      obtain ⟨hkey, h⟩ := of_guard_ok h
      obtain ⟨-, h⟩ := of_guard_ok h
      cases h
      refine ⟨existing, schema, rfl, hschema, fun value hvalue => ?_, rfl⟩
      have hequal : (existing.properties.lookup schema.primaryKey == some value) = true := by
        simpa [hvalue, bne] using hkey
      cases hcurrent : existing.properties.lookup schema.primaryKey with
      | none =>
        rw [hcurrent] at hequal
        cases hequal
      | some current =>
        rw [hcurrent] at hequal
        exact ⟨current, rfl, hequal⟩

theorem deleteObjectInstance_spec {instanceId : Str} {n : Nat} {e e' : OntologyEngine}
    (h : deleteObjectInstance instanceId e = .ok n e') : e' = { e with
      store := (Store.removeLinksTouching
        { e.store with instances := e.store.instances.erase instanceId } instanceId).1 } := by
  unfold deleteObjectInstance at h
  simp only [get_bind_run] at h
  obtain ⟨-, h⟩ := of_guard_ok h
  cases h
  rfl

theorem deleteLink_spec {link : LinkInstance} {e e' : OntologyEngine}
    (h : deleteLink link e = .ok () e') :
    ∃ store, e.store.removeLink link = some store ∧ e' = { e with store := store } := by
  unfold deleteLink at h
  simp only [get_bind_run] at h
  cases hstore : e.store.removeLink link with
  | none =>
    rw [hstore] at h
    cases h
  | some store =>
    rw [hstore] at h
    cases h
    exact ⟨store, rfl, rfl⟩

/-! ## The primary key of an instance -/

/-- The primary key of an instance before and after: one value, or none. -/
abbrev SameKey (before after : Option PropertyValue) : Prop :=
  Option.Rel PropertyValue.Same before after

theorem sameKey_of_eq {before after : Option PropertyValue} (h : after = before) :
    SameKey before after := by
  subst h
  cases after with
  | none => exact .none
  | some value => exact .some (.refl value)

theorem Consistent.sameKey_of_lookup {e e' : OntologyEngine} (h : e.Consistent) {id : Str}
    (hid : id ∈ e.store.instances)
    (hinstance : e'.store.instances.lookup id = e.store.instances.lookup id)
    (htypes : e'.objectTypes = e.objectTypes) :
    SameKey (e.primaryKeyOf id) (e'.primaryKeyOf id) := by
  refine sameKey_of_eq (h.primaryKeyOf_congr hid hinstance fun name schema hschema => ?_)
  rw [htypes]
  exact hschema

theorem SameKey.trans {k₁ k₂ k₃ : Option PropertyValue} (h₁₂ : SameKey k₁ k₂)
    (h₂₃ : SameKey k₂ k₃) : SameKey k₁ k₃ := by
  cases h₁₂ with
  | none => exact h₂₃
  | some h =>
    cases h₂₃ with
    | some h' => exact .some (h.trans h')

/-- An update leaves the primary key. -/
theorem Consistent.sameKey_update {e e' : OntologyEngine} (h : e.Consistent) {instanceId : Str}
    {updates : Table Str PropertyValue}
    (hrun : OntologyEngine.updateObjectProperties instanceId updates e = .ok () e') {id : Str}
    (hid : id ∈ e.store.instances) : SameKey (e.primaryKeyOf id) (e'.primaryKeyOf id) := by
  obtain ⟨existing, schema, hexisting, hschema, hkey, rfl⟩ := updateObjectProperties_spec hrun
  by_cases hother : id = instanceId
  · subst hother
    simp only [primaryKeyOf, AList.lookup_insert, hexisting, hschema, Option.bind_eq_bind,
      Option.bind_some, lookup_foldl_insert updates.nodupKeys]
    change SameKey _ ((updates.lookup schema.primaryKey).or _)
    cases hupdate : updates.lookup schema.primaryKey with
    | none => exact sameKey_of_eq rfl
    | some value =>
      obtain ⟨current, hcurrent, hequal⟩ := hkey value hupdate
      rw [hcurrent]
      exact .some (.inr hequal)
  · exact h.sameKey_of_lookup hid (AList.lookup_insert_ne hother) rfl

/-- An operation leaves the primary key of an instance that stays. -/
theorem Consistent.sameKey_perform {e : OntologyEngine} (h : e.Consistent) (a : OntologyAction)
    {id : Str} (hid : id ∈ e.store.instances) (hstays : id ∈ (e.perform a).store.instances) :
    SameKey (e.primaryKeyOf id) ((e.perform a).primaryKeyOf id) := by
  unfold OntologyEngine.perform at hstays ⊢
  cases hrun : a.exec e with
  | error err e' =>
    rw [a.atomic _ _ _ hrun]
    exact sameKey_of_eq rfl
  | ok u e' =>
    rw [hrun] at hstays
    change SameKey _ (e'.primaryKeyOf id)
    cases a with
    | registerObjectType objType =>
      obtain ⟨hnew, rfl⟩ := registerObjectType_spec hrun
      exact sameKey_of_eq (h.primaryKeyOf_congr hid rfl
        fun _ _ => Table.lookup_insert_of_not_mem hnew)
    | registerLinkType linkType =>
      rw [registerLinkType_spec hrun]
      exact sameKey_of_eq rfl
    | createObjectInstance inst =>
      obtain ⟨hnew, rfl⟩ := createObjectInstance_spec hrun
      refine h.sameKey_of_lookup hid (AList.lookup_insert_ne ?_) rfl
      rintro rfl
      exact hnew hid
    | updateObjectProperties instanceId updates => exact h.sameKey_update hrun hid
    | deleteObjectInstance instanceId =>
      obtain ⟨n, hdelete⟩ := exists_of_discard_ok hrun
      obtain rfl := deleteObjectInstance_spec hdelete
      have herased : Store.Indexed { e.store with
          instances := e.store.instances.erase instanceId } :=
        ⟨h.indexed.nodup, h.indexed.forward, h.indexed.backward⟩
      have hinstances : (Store.removeLinksTouching { e.store with
          instances := e.store.instances.erase instanceId } instanceId).1.instances =
            e.store.instances.erase instanceId := (herased.removeLinksTouching instanceId).2.1
      have hmem : id ∈ e.store.instances.erase instanceId := by
        rw [← hinstances]
        exact hstays
      obtain ⟨hother, -⟩ := AList.mem_erase.mp hmem
      have hlookup := (congrArg (AList.lookup id) hinstances).trans (AList.lookup_erase_ne hother)
      exact h.sameKey_of_lookup hid hlookup rfl
    | createLink link =>
      obtain ⟨store, hstore, rfl⟩ := createLink_spec hrun
      obtain ⟨hinstances, -⟩ := Store.insertLink_spec hstore
      exact h.sameKey_of_lookup hid (congrArg _ hinstances) rfl
    | deleteLink link =>
      obtain ⟨store, hstore, rfl⟩ := deleteLink_spec hrun
      obtain ⟨-, hinstances, -⟩ := h.indexed.removeLink hstore
      exact h.sameKey_of_lookup hid (congrArg _ hinstances) rfl

/-- Operations leave the primary key of an instance that is there after each of them. -/
theorem Consistent.sameKey_foldl {e : OntologyEngine} (h : e.Consistent) {bs : List OntologyAction}
    {id : Str} (hstays : ∀ done, done <+: bs →
      id ∈ (done.foldl OntologyEngine.perform e).store.instances) :
    SameKey (e.primaryKeyOf id) ((bs.foldl OntologyEngine.perform e).primaryKeyOf id) := by
  induction bs generalizing e with
  | nil => exact sameKey_of_eq rfl
  | cons a bs ih =>
    have hid : id ∈ e.store.instances := hstays [] List.nil_prefix
    have hfirst : id ∈ (e.perform a).store.instances := hstays [a] (by simp)
    refine (h.sameKey_perform a hid hfirst).trans (ih (h.perform a) fun done hdone => ?_)
    exact hstays (a :: done) (List.cons_prefix_cons.mpr ⟨rfl, hdone⟩)

/-- An operation that fails has changed nothing, in any state. And after every sequence of
operations, the primary key of an instance keeps its value through whatever comes next, for as long
as the instance is there. -/
theorem operations_keep :
    (∀ (e e' : OntologyEngine) (a : OntologyAction) (err : OntologyError),
      a.exec e = .error err e' → e' = e) ∧
    ∀ (as bs : List OntologyAction) (id : Str),
      (∀ done, done <+: bs →
        id ∈ (done.foldl perform (as.foldl perform new)).store.instances) →
      SameKey ((as.foldl perform new).primaryKeyOf id)
        ((bs.foldl perform (as.foldl perform new)).primaryKeyOf id) :=
  ⟨fun _ _ a _ hrun => a.atomic _ _ _ hrun,
    fun as _ _ hstays => (consistent_new.foldl as).sameKey_foldl hstays⟩

end OntologyEngine

end ActiveDefense.Siem
