import ActiveDefense.Rust.Fs

/-!
# Directories, links and the components of paths

The walk of the system along a path, component by component: through directories, `..` to the
parent, and through symbolic links, of which it follows at most 40. A file that is opened for
creation is made, or cut to nothing, at the place where the walk ends. Making files does not change
where a walk ends (`Tree.Fills.place_iff`). The program itself compares paths, and takes them apart,
by their components, in which repeated slashes and dots between names do not count; a name that is
joined to a directory is one more component (`PathBuf.components_join`).
-/

namespace ActiveDefense

/-- What a name in a directory stands for. -/
inductive Node where
  | dir (inode : Nat)
  | file
  | symlink (target : PathBuf)
deriving DecidableEq, Repr

/-- The directories of a file system. -/
structure Tree where
  nodes : Nat → List UInt8 → Option Node
  parent : Nat → Nat
  root : Nat
  cwd : Nat
  nextDir : Nat

/-- A directory and a name in it. -/
abbrev Place := Nat × List UInt8

/-- What is between the slashes of a path. -/
def PathBuf.pieces (path : PathBuf) : List (List UInt8) := path.splitOn 47

/-- `Path::parent`, up to repeated slashes and dots. -/
def PathBuf.parent (path : PathBuf) : Option PathBuf :=
  let absolute : Bool := path.head? = some 47
  let names := path.pieces.zipIdx.filterMap fun (name, i) =>
    if name = [] ∨ name = [46] ∧ (i ≠ 0 ∨ absolute) then none else some name
  if names = [] then none
  else
    let parents : PathBuf := [(47 : UInt8)].intercalate names.dropLast
    some (if absolute then 47 :: parents else parents)

namespace Tree

/-- The walk from a directory on, up to a link, which `follow` goes on from. -/
def walk (t : Tree) (follow : Nat → PathBuf → List (List UInt8) → Except IoError Place) :
    Nat → List (List UInt8) → Except IoError Place
  | _, [] => .error (.os 21)
  | d, name :: rest =>
    if name = [] ∨ name = [46] then t.walk follow d rest
    else if name = [46, 46] then t.walk follow (t.parent d) rest
    else
      match t.nodes d name with
      | some (.dir i) => t.walk follow i rest
      | some (.symlink target) => follow d target rest
      | some .file => if rest = [] then .ok (d, name) else .error (.os 20)
      | none => if rest = [] then .ok (d, name) else .error .notFound

/-- The walk that may still follow so many links. -/
def walkLinks (t : Tree) : Nat → Nat → List (List UInt8) → Except IoError Place
  | 0 => t.walk fun _ _ _ => .error (.os 40)
  | links + 1 =>
    t.walk fun d target rest =>
      t.walkLinks links (if target.head? = some 47 then t.root else d) (target.pieces ++ rest)

/-- The place where a file is made that is opened for creation. A path with a NUL is rejected. -/
def place (t : Tree) (path : PathBuf) : Except IoError Place :=
  if 0 ∈ path then .error .invalidInput
  else if path = [] then .error .notFound
  else t.walkLinks 40 (if path.head? = some 47 then t.root else t.cwd) path.pieces

/-- A new empty directory. -/
def mkdir (t : Tree) (p : Place) : Tree :=
  { t with
    nodes := fun d name =>
      if d = t.nextDir then none
      else if (d, name) = p then some (.dir t.nextDir)
      else t.nodes d name
    parent := Function.update t.parent t.nextDir p.1
    nextDir := t.nextDir + 1 }

/-- A file is made at a place where there is nothing. -/
def touch (t : Tree) (p : Place) : Tree :=
  { t with
    nodes := fun d name =>
      if (d, name) = p ∧ t.nodes d name = none then some .file else t.nodes d name }

/-! ## Making files changes no walk -/

/-- The one tree is the other with more files. -/
structure Fills (t t' : Tree) : Prop where
  parent_eq : t'.parent = t.parent
  root_eq : t'.root = t.root
  cwd_eq : t'.cwd = t.cwd
  nodes : ∀ d name, t'.nodes d name = t.nodes d name ∨
    t.nodes d name = none ∧ t'.nodes d name = some .file

theorem Fills.refl (t : Tree) : t.Fills t := ⟨rfl, rfl, rfl, fun _ _ => .inl rfl⟩

variable {t t' : Tree}

/-- One more file. -/
theorem Fills.touch (h : t.Fills t') (p : Place) : t.Fills (t'.touch p) := by
  refine ⟨h.parent_eq, h.root_eq, h.cwd_eq, fun d name => ?_⟩
  change (if (d, name) = p ∧ t'.nodes d name = none then some .file else t'.nodes d name) = _ ∨
    _ ∧ (if (d, name) = p ∧ t'.nodes d name = none then some .file else t'.nodes d name) = _
  split
  · next hnew =>
    rcases h.nodes d name with hsame | ⟨-, hfile⟩
    · exact .inr ⟨hsame.symm.trans hnew.2, rfl⟩
    · cases hfile.symm.trans hnew.2
  · exact h.nodes d name

variable {follow follow' : Nat → PathBuf → List (List UInt8) → Except IoError Place} {p : Place}

theorem Fills.walk_iff (h : t.Fills t')
    (hfollow : ∀ d target rest, follow d target rest = .ok p ↔ follow' d target rest = .ok p)
    (d : Nat) (names : List (List UInt8)) :
    t.walk follow d names = .ok p ↔ t'.walk follow' d names = .ok p := by
  induction names generalizing d with
  | nil => exact iff_of_false (fun h => nomatch h) fun h => nomatch h
  | cons name rest ih =>
    unfold walk
    split
    · exact ih d
    · split
      · rw [h.parent_eq]
        exact ih _
      · rcases h.nodes d name with hsame | ⟨hnone, hfile⟩
        · rw [hsame]
          cases t.nodes d name with
          | none => exact Iff.rfl
          | some node =>
            cases node with
            | dir i => exact ih i
            | file => exact Iff.rfl
            | symlink target => exact hfollow d target rest
        · -- a name that stood for nothing ends a walk as a file does
          rw [hnone, hfile]
          by_cases hrest : rest = []
          · simp only [hrest, if_true]
          · simp only [hrest, if_false]
            exact iff_of_false (fun h => nomatch h) fun h => nomatch h

theorem Fills.walkLinks_iff (h : t.Fills t') (links d : Nat) (names : List (List UInt8)) :
    t.walkLinks links d names = .ok p ↔ t'.walkLinks links d names = .ok p := by
  induction links generalizing d names with
  | zero => exact h.walk_iff (fun _ _ _ => Iff.rfl) d names
  | succ links ih =>
    refine h.walk_iff (fun d target rest => ?_) d names
    rw [h.root_eq]
    exact ih _ _

/-- A path leads to the same place. -/
theorem Fills.place_iff (h : t.Fills t') (path : PathBuf) :
    t.place path = .ok p ↔ t'.place path = .ok p := by
  unfold place
  split
  · exact Iff.rfl
  · split
    · exact Iff.rfl
    · rw [h.root_eq, h.cwd_eq]
      exact h.walkLinks_iff _ _ _

end Tree

/-! ## Components -/

/-- `std::path::Component`. -/
inductive PathComponent where
  | rootDir
  | curDir
  | parentDir
  | normal (name : List UInt8)
deriving DecidableEq, Repr

/-- What a piece of a path after the first one is a component for. -/
def PathComponent.ofPiece : List UInt8 → Option PathComponent
  | [] | [46] => none
  | [46, 46] => some .parentDir
  | name => some (.normal name)

/-- The components of the pieces of a path: a dot counts as the first of them. -/
def componentsOfPieces : List (List UInt8) → List PathComponent
  | [] | [[]] => []
  | [] :: pieces => .rootDir :: pieces.filterMap PathComponent.ofPiece
  | [46] :: pieces => .curDir :: pieces.filterMap PathComponent.ofPiece
  | pieces => pieces.filterMap PathComponent.ofPiece

namespace PathBuf

/-- `Path::components`. -/
def components (path : PathBuf) : List PathComponent := componentsOfPieces path.pieces

/-- `Path::starts_with`. -/
def startsWith (path base : PathBuf) : Bool := base.components.isPrefixOf path.components

/-- `Path::file_name`. -/
def fileName (path : PathBuf) : Option (List UInt8) :=
  match path.components.getLast? with
  | some (.normal name) => some name
  | _ => none

/-- The components of `Path::parent`. -/
def parentComponents (path : PathBuf) : Option (List PathComponent) :=
  match path.components.getLast? with
  | none | some .rootDir => none
  | some _ => some path.components.dropLast

end PathBuf

/-- The pieces after the first ones are taken by themselves. -/
theorem componentsOfPieces_append {first rest : List (List UInt8)} (hfirst : first ≠ [])
    (hrest : rest ≠ []) : componentsOfPieces (first ++ rest) =
      (if first = [[]] then [.rootDir] else componentsOfPieces first) ++
        rest.filterMap PathComponent.ofPiece := by
  obtain ⟨piece, pieces, rfl⟩ := List.exists_cons_of_ne_nil hfirst
  by_cases hempty : piece = []
  · subst hempty
    cases pieces with
    | nil =>
      obtain ⟨next, rest, rfl⟩ := List.exists_cons_of_ne_nil hrest
      simp [componentsOfPieces]
    | cons next pieces =>
      rw [if_neg (by simp), List.cons_append, List.cons_append, componentsOfPieces,
        componentsOfPieces, List.cons_append, ← List.filterMap_append, List.cons_append]
      · exact fun h => nomatch h
      · exact fun h => nomatch h
  · by_cases hdot : piece = [46]
    · simp [componentsOfPieces, hdot]
    · have hplain (pieces : List (List UInt8)) : componentsOfPieces (piece :: pieces) =
          (piece :: pieces).filterMap PathComponent.ofPiece := by
        simp [componentsOfPieces, hempty, hdot]
      rw [List.cons_append, hplain, hplain, if_neg (by simp [hempty]), ← List.filterMap_append]
      rfl

namespace PathBuf

variable {base name : PathBuf}

/-- A name with no slash in it, other than the two of dots. -/
structure IsName (name : List UInt8) : Prop where
  slash : 47 ∉ name
  ne_nil : name ≠ []
  ne_dot : name ≠ [46]
  ne_dots : name ≠ [46, 46]

theorem IsName.ofPiece (h : IsName name) : PathComponent.ofPiece name = some (.normal name) := by
  unfold PathComponent.ofPiece
  split
  · exact absurd rfl h.ne_nil
  · exact absurd rfl h.ne_dot
  · exact absurd rfl h.ne_dots
  · rfl

theorem IsName.pieces (h : IsName name) : PathBuf.pieces name = [name] :=
  List.splitOn_eq_singleton h.slash

theorem pieces_eq_singleton_nil : base.pieces = [[]] ↔ base = [] := by
  refine ⟨fun h => ?_, fun h => ?_⟩
  · have hjoined : [(47 : UInt8)].intercalate (base.splitOn 47) = base :=
      List.intercalate_splitOn 47
    rw [← pieces, h] at hjoined
    exact hjoined.symm
  · rw [h, pieces, List.splitOn_nil]

theorem components_append_slash (first rest : PathBuf) : components (first ++ 47 :: rest) =
    (if first = [] then [.rootDir] else first.components) ++
      rest.pieces.filterMap PathComponent.ofPiece := by
  have hne (path : PathBuf) : path.pieces ≠ [] := List.splitOn_ne_nil 47 path
  rw [components, pieces, List.splitOn_append_cons_self, ← pieces, ← pieces,
    componentsOfPieces_append (hne _) (hne _), components]
  simp only [pieces_eq_singleton_nil]

theorem IsName.components (h : IsName name) : PathBuf.components name = [.normal name] := by
  have hne : name ≠ [] := h.ne_nil
  have hdot : name ≠ [46] := h.ne_dot
  simp [PathBuf.components, h.pieces, componentsOfPieces, hne, hdot, h.ofPiece]

/-- A name in a directory is one more component. -/
theorem components_join (h : IsName name) :
    (base.join name).components = base.components ++ [.normal name] := by
  have hhead : name.head? ≠ some 47 := fun hhead => h.slash (List.mem_of_mem_head? hhead)
  have hname : name.pieces.filterMap PathComponent.ofPiece = [.normal name] := by
    rw [h.pieces, List.filterMap_cons_some h.ofPiece, List.filterMap_nil]
  rw [join, if_neg hhead]
  split
  · next hslash =>
    rcases List.eq_nil_or_concat base with rfl | ⟨first, last, rfl⟩
    · exact h.components
    · -- the slash at the end of the directory is there already
      obtain rfl : last = 47 := by simpa using hslash
      rw [List.concat_eq_append, List.append_assoc, List.singleton_append, components_append_slash,
        components_append_slash, hname]
      simp [pieces, PathComponent.ofPiece]
  · next hslash =>
    have hne : base ≠ [] := fun hnil => hslash (hnil ▸ rfl)
    rw [components_append_slash, if_neg hne, hname]

/-- A name in a directory starts with what the directory starts with. -/
theorem startsWith_join {dir : PathBuf} (hbase : base.startsWith dir = true) (h : IsName name) :
    (base.join name).startsWith dir = true := by
  rw [startsWith, List.isPrefixOf_iff_prefix] at hbase ⊢
  rw [components_join h]
  exact hbase.trans (List.prefix_append _ _)

end PathBuf

end ActiveDefense
