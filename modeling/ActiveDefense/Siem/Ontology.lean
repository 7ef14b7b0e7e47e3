import ActiveDefense.Lib.Effect
import ActiveDefense.Lib.Table
import ActiveDefense.Rust.Text

/-!
# The ontology engine

A registry of object and link types, and a store of instances and of the links between them, with
an index of the links from each end. An operation keeps the engine at the point where it fails. The
iteration order of the hash sets is left open by the source; here it is the order of insertion.
-/

namespace ActiveDefense.Siem

inductive PropertyType where
  | string
  | integer
  | float
  | boolean
deriving DecidableEq

/-- The `Display` of a `PropertyType`. -/
def PropertyType.toStr : PropertyType → Str
  | string => "String".toList
  | integer => "Integer".toList
  | float => "Float".toList
  | boolean => "Boolean".toList

inductive PropertyValue where
  | string (s : Str)
  | integer (i : Int64)
  | float (v : Float)
  | boolean (b : Bool)

/-- `PropertyValue::type_of`. -/
def PropertyValue.typeOf : PropertyValue → PropertyType
  | string _ => .string
  | integer _ => .integer
  | float _ => .float
  | boolean _ => .boolean

/-- The derived equality: of two floats it is the comparison, which no NaN passes. -/
def PropertyValue.eq : PropertyValue → PropertyValue → Bool
  | string s, string t => s == t
  | integer i, integer j => i == j
  | float v, float w => v == w
  | boolean a, boolean b => a == b
  | _, _ => false

instance : BEq PropertyValue := ⟨PropertyValue.eq⟩

structure ObjectType where
  name : Str
  primaryKey : Str
  propertySchemas : Table Str PropertyType

structure LinkType where
  name : Str
  sourceType : Str
  targetType : Str

structure ObjectInstance where
  id : Str
  objectType : Str
  properties : Table Str PropertyValue

structure LinkInstance where
  linkType : Str
  sourceId : Str
  targetId : Str
deriving DecidableEq

inductive Direction where
  | outgoing
  | incoming
deriving DecidableEq

inductive ValidationIssue where
  | missingProperty (property : Str)
  | typeMismatch (property expected found : Str)
  | unknownProperty (property : Str)
deriving DecidableEq

inductive OntologyError where
  | objectTypeNotRegistered (name : Str)
  | linkTypeNotRegistered (name : Str)
  | objectTypeAlreadyRegistered (name : Str)
  | linkTypeAlreadyRegistered (name : Str)
  | emptyPrimaryKey (name : Str)
  | duplicateInstance (id : Str)
  | instanceNotFound (id : Str)
  | linkSourceTypeMismatch (linkType expectedSource actualSource sourceId : Str)
  | linkTargetTypeMismatch (linkType expectedTarget actualTarget targetId : Str)
  | duplicateLink (linkType sourceId targetId : Str)
  | schemaValidation (instanceId : Str) (issueCount : Nat) (issues : List ValidationIssue)
  | immutablePrimaryKey (instanceId property : Str)
deriving DecidableEq

/-- `HashSet::insert`. -/
def insertSet {α : Type} [DecidableEq α] (a : α) (as : List α) : List α :=
  if a ∈ as then as else as ++ [a]

structure Store where
  instances : Table Str ObjectInstance
  links : List LinkInstance
  /-- the targets, for a source and a link type -/
  forwardIndex : Table (Str × Str) (List Str)
  /-- the sources, for a target and a link type -/
  backwardIndex : Table (Str × Str) (List Str)

/-- `Store::insert_link`, where the link is not there yet. -/
def Store.insertLink (s : Store) (link : LinkInstance) : Option Store :=
  if link ∈ s.links then none
  else
    let forward := (link.sourceId, link.linkType)
    let backward := (link.targetId, link.linkType)
    let targets := (s.forwardIndex.lookup forward).getD []
    let sources := (s.backwardIndex.lookup backward).getD []
    some { s with
      links := insertSet link s.links
      forwardIndex := s.forwardIndex.insert forward (insertSet link.targetId targets)
      backwardIndex := s.backwardIndex.insert backward (insertSet link.sourceId sources) }

/-- `Store::remove_link`, where the link is there. A key whose set becomes empty keeps it. -/
def Store.removeLink (s : Store) (link : LinkInstance) : Option Store :=
  if link ∈ s.links then
    let forward := (link.sourceId, link.linkType)
    let backward := (link.targetId, link.linkType)
    some { s with
      links := s.links.erase link
      forwardIndex :=
        match s.forwardIndex.lookup forward with
        | some targets => s.forwardIndex.insert forward (targets.erase link.targetId)
        | none => s.forwardIndex
      backwardIndex :=
        match s.backwardIndex.lookup backward with
        | some sources => s.backwardIndex.insert backward (sources.erase link.sourceId)
        | none => s.backwardIndex }
  else none

/-- The link starts or ends at the instance. -/
def LinkInstance.Touches (link : LinkInstance) (instanceId : Str) : Prop :=
  link.sourceId = instanceId ∨ link.targetId = instanceId

instance (link : LinkInstance) (instanceId : Str) : Decidable (link.Touches instanceId) :=
  inferInstanceAs (Decidable (_ ∨ _))

/-- `Store::remove_links_touching`, with the links that it removes. -/
def Store.removeLinksTouching (s : Store) (instanceId : Str) : Store × List LinkInstance :=
  let toRemove := s.links.filter fun link => link.Touches instanceId
  (toRemove.foldl (fun s link => (s.removeLink link).getD s) s, toRemove)

/-- What a new link leaves: its source is one more of its target. -/
theorem Store.insertLink_spec {s s' : Store} {link : LinkInstance}
    (h : s.insertLink link = some s') :
    s'.instances = s.instances ∧ s'.backwardIndex =
      s.backwardIndex.insert (link.targetId, link.linkType) (insertSet link.sourceId
        ((s.backwardIndex.lookup (link.targetId, link.linkType)).getD [])) := by
  unfold Store.insertLink at h
  split at h
  · cases h
  · cases h
    exact ⟨rfl, rfl⟩

structure OntologyEngine where
  objectTypes : Table Str ObjectType
  linkTypes : Table Str LinkType
  store : Store

/-- An operation of the engine. -/
abbrev Ontology (α : Type) : Type := EStateM OntologyError OntologyEngine α

namespace OntologyEngine

/-- `OntologyEngine::new`. -/
def new : OntologyEngine := ⟨∅, ∅, ⟨∅, [], ∅, ∅⟩⟩

/-- `register_object_type`. -/
def registerObjectType (objType : ObjectType) : Ontology Unit := do
  if objType.primaryKey = [] then
    throw (.emptyPrimaryKey objType.name)
  let e ← get
  if objType.name ∈ e.objectTypes then
    throw (.objectTypeAlreadyRegistered objType.name)
  set { e with objectTypes := e.objectTypes.insert objType.name objType }

/-- `register_link_type`. -/
def registerLinkType (linkType : LinkType) : Ontology Unit := do
  let e ← get
  if linkType.sourceType ∉ e.objectTypes then
    throw (.objectTypeNotRegistered linkType.sourceType)
  if linkType.targetType ∉ e.objectTypes then
    throw (.objectTypeNotRegistered linkType.targetType)
  if linkType.name ∈ e.linkTypes then
    throw (.linkTypeAlreadyRegistered linkType.name)
  set { e with linkTypes := e.linkTypes.insert linkType.name linkType }

/-- What `validate_properties` says of a declared property. -/
def propertyIssue (properties : Table Str PropertyValue) (name : Str) (expected : PropertyType) :
    Option ValidationIssue :=
  match properties.lookup name with
  | none => some (.missingProperty name)
  | some value =>
    if value.typeOf ≠ expected then
      some (.typeMismatch name expected.toStr value.typeOf.toStr)
    else none

/-- `validate_properties`. -/
def validateProperties (schema : ObjectType) (properties : Table Str PropertyValue) :
    List ValidationIssue :=
  schema.propertySchemas.entries.filterMap (fun p => propertyIssue properties p.1 p.2) ++
    (properties.keys.filter (· ∉ schema.propertySchemas)).map .unknownProperty

/-- `create_object_instance`. -/
def createObjectInstance (inst : ObjectInstance) : Ontology Unit := do
  let e ← get
  match e.objectTypes.lookup inst.objectType with
  | none => throw (.objectTypeNotRegistered inst.objectType)
  | some schema =>
    let issues := validateProperties schema inst.properties
    if issues ≠ [] then
      throw (.schemaValidation inst.id issues.length issues)
    if inst.id ∈ e.store.instances then
      throw (.duplicateInstance inst.id)
    set { e with
      store := { e.store with instances := e.store.instances.insert inst.id inst } }

/-- `update_object_properties`. -/
def updateObjectProperties (instanceId : Str) (updates : Table Str PropertyValue) :
    Ontology Unit := do
  let e ← get
  match e.store.instances.lookup instanceId with
  | none => throw (.instanceNotFound instanceId)
  | some existing =>
    match e.objectTypes.lookup existing.objectType with
    | none => throw (.objectTypeNotRegistered existing.objectType)
    | some schema =>
      if (updates.lookup schema.primaryKey).any fun pkUpdate =>
          existing.properties.lookup schema.primaryKey != some pkUpdate then
        throw (.immutablePrimaryKey instanceId schema.primaryKey)
      let merged := updates.entries.foldl (fun m p => m.insert p.1 p.2) existing.properties
      let issues := validateProperties schema merged
      if issues ≠ [] then
        throw (.schemaValidation instanceId issues.length issues)
      set { e with
        store := { e.store with
          instances := e.store.instances.insert instanceId { existing with properties := merged } } }

/-- `list_instances_by_type`. -/
def listInstancesByType (e : OntologyEngine) (objectType : Str) : List ObjectInstance :=
  (e.store.instances.entries.map (·.2)).filter fun inst => inst.objectType = objectType

/-- `delete_object_instance`. Its result is the number of links that went with the instance. -/
def deleteObjectInstance (instanceId : Str) : Ontology Nat := do
  let e ← get
  if instanceId ∉ e.store.instances then
    throw (.instanceNotFound instanceId)
  let (store, removed) :=
    Store.removeLinksTouching { e.store with instances := e.store.instances.erase instanceId }
      instanceId
  set { e with store := store }
  return removed.length

/-- `create_link`. -/
def createLink (link : LinkInstance) : Ontology Unit := do
  let e ← get
  match e.linkTypes.lookup link.linkType with
  | none => throw (.linkTypeNotRegistered link.linkType)
  | some schema =>
    match e.store.instances.lookup link.sourceId with
    | none => throw (.instanceNotFound link.sourceId)
    | some source =>
      if source.objectType ≠ schema.sourceType then
        throw (.linkSourceTypeMismatch link.linkType schema.sourceType source.objectType
          link.sourceId)
      match e.store.instances.lookup link.targetId with
      | none => throw (.instanceNotFound link.targetId)
      | some target =>
        if target.objectType ≠ schema.targetType then
          throw (.linkTargetTypeMismatch link.linkType schema.targetType target.objectType
            link.targetId)
        match e.store.insertLink link with
        | none => throw (.duplicateLink link.linkType link.sourceId link.targetId)
        | some store => set { e with store := store }

/-- `delete_link`. A link that is not there is reported as a duplicate. -/
def deleteLink (link : LinkInstance) : Ontology Unit := do
  let e ← get
  match e.store.removeLink link with
  | none => throw (.duplicateLink link.linkType link.sourceId link.targetId)
  | some store => set { e with store := store }

/-- `traverse`. -/
def traverse (e : OntologyEngine) (nodeId linkType : Str) (direction : Direction) :
    List ObjectInstance :=
  let index :=
    match direction with
    | .outgoing => e.store.forwardIndex
    | .incoming => e.store.backwardIndex
  match index.lookup (nodeId, linkType) with
  | none => []
  | some ids => ids.filterMap fun id => e.store.instances.lookup id

/-- What a new instance leaves. -/
theorem createObjectInstance_spec {inst : ObjectInstance} {e e' : OntologyEngine}
    (h : createObjectInstance inst e = .ok () e') :
    inst.id ∉ e.store.instances ∧ e' = { e with
      store := { e.store with instances := e.store.instances.insert inst.id inst } } := by
  unfold createObjectInstance at h
  simp only [get_bind_run] at h
  cases hschema : e.objectTypes.lookup inst.objectType with
  | none =>
    rw [hschema] at h
    cases h
  | some schema =>
    rw [hschema] at h
    obtain ⟨hnew, h⟩ := of_guard_ok (of_guard_ok h).2
    cases h
    exact ⟨hnew, rfl⟩

/-- What a new link leaves. -/
theorem createLink_spec {link : LinkInstance} {e e' : OntologyEngine}
    (h : createLink link e = .ok () e') :
    ∃ store, e.store.insertLink link = some store ∧ e' = { e with store := store } := by
  unfold createLink at h
  simp only [get_bind_run] at h
  cases hschema : e.linkTypes.lookup link.linkType with
  | none =>
    rw [hschema] at h
    cases h
  | some schema =>
    rw [hschema] at h
    cases hsource : e.store.instances.lookup link.sourceId with
    | none =>
      rw [hsource] at h
      cases h
    | some source =>
      rw [hsource] at h
      replace h := (of_guard_ok h).2
      cases htarget : e.store.instances.lookup link.targetId with
      | none =>
        rw [htarget] at h
        cases h
      | some target =>
        rw [htarget] at h
        replace h := (of_guard_ok h).2
        cases hstore : e.store.insertLink link with
        | none =>
          rw [hstore] at h
          cases h
        | some store =>
          rw [hstore] at h
          cases h
          exact ⟨store, rfl, rfl⟩

/-- The sources of the links to a node. -/
theorem traverse_incoming (e : OntologyEngine) (nodeId linkType : Str) :
    e.traverse nodeId linkType .incoming =
      ((e.store.backwardIndex.lookup (nodeId, linkType)).getD []).filterMap fun id =>
        e.store.instances.lookup id := by
  unfold traverse
  simp only
  cases e.store.backwardIndex.lookup (nodeId, linkType) with
  | none => rfl
  | some ids => rfl

end OntologyEngine

end ActiveDefense.Siem
