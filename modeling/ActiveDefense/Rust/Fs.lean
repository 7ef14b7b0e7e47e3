import ActiveDefense.Lib.Crash
import ActiveDefense.Lib.WriteCache
import ActiveDefense.Rust.Utf8
import Mathlib.Logic.Function.Basic

/-!
# `std::fs`

The calls on a disk that caches writes: of a directory entry and of a file's bytes alike. A path
stands for the directory entry that it resolves to. A call fails or serves as the system answers it
(`ActiveDefense.call`); a write that is interrupted is made again, and only the last one counts.
-/

namespace ActiveDefense

/-- `std::path::PathBuf`: the bytes of a path. -/
abbrev PathBuf := List UInt8

/-- `Path::join`: an absolute path replaces the one it is joined to. -/
def PathBuf.join (base path : PathBuf) : PathBuf :=
  if path.head? = some 47 then path
  else if base.getLast?.all (· = 47) then base ++ path
  else base ++ 47 :: path

/-- Paths that start alike are told apart by what they are joined to. -/
theorem PathBuf.join_inj {base p q : PathBuf} (hhead : p.head? = q.head?)
    (h : base.join p = base.join q) : p = q := by
  unfold PathBuf.join at h
  rw [hhead] at h
  split at h
  · exact h
  · split at h
    · exact List.append_cancel_left h
    · exact (List.cons.inj (List.append_cancel_left h)).2

/-- Names in a directory are told apart by it. -/
theorem PathBuf.join_inj_of_not_mem {base p q : PathBuf} (hp : 47 ∉ p) (hq : 47 ∉ q)
    (h : base.join p = base.join q) : p = q := by
  have hrelative {p : PathBuf} (hp : 47 ∉ p) : p.head? ≠ some 47 :=
    fun hhead => hp (List.mem_of_mem_head? hhead)
  unfold PathBuf.join at h
  rw [if_neg (hrelative hp), if_neg (hrelative hq)] at h
  split at h
  · exact List.append_cancel_left h
  · exact (List.cons.inj (List.append_cancel_left h)).2

/-- `Path::extension` of a path that ends in a name: what follows the last dot of the name, if
something precedes it. -/
def PathBuf.extension (name : List UInt8) : Option (List UInt8) :=
  let after := (name.reverse.takeWhile (· ≠ 46)).reverse
  if after.length + 1 < name.length then some after else none

theorem PathBuf.extension_append {stem ext : List UInt8} (hstem : stem ≠ []) (hext : 46 ∉ ext) :
    extension (stem ++ 46 :: ext) = some ext := by
  have hafter : ((stem ++ 46 :: ext).reverse.takeWhile (· ≠ 46)).reverse = ext := by
    have hpos : ∀ b ∈ ext.reverse, decide (b ≠ 46) = true := by
      intro b hb
      refine decide_eq_true fun h => hext ?_
      rw [← h]
      exact List.mem_reverse.mp hb
    rw [List.reverse_append, List.reverse_cons, List.append_assoc,
      List.takeWhile_append_of_pos hpos, List.singleton_append,
      List.takeWhile_cons_of_neg (by decide), List.append_nil, List.reverse_reverse]
  have hlen := List.length_pos_iff.mpr hstem
  unfold extension
  dsimp only
  rw [hafter, if_pos]
  rw [List.length_append, List.length_cons]
  omega

/-- `Path::with_extension` of a path that ends in a name: the extension of the name is replaced, or
added if it has none. -/
def PathBuf.withExtension (path : PathBuf) (ext : List UInt8) : PathBuf :=
  let name := (path.reverse.takeWhile (· ≠ 47)).reverse
  let stem :=
    match extension name with
    | some old => path.take (path.length - (old.length + 1))
    | none => path
  stem ++ 46 :: ext

/-- `std::io::Error`. -/
inductive IoError where
  | notFound
  | writeZero
  | invalidInput
  | invalidData
  | os (code : Nat)
deriving DecidableEq, Repr

/-- A directory entry is set to name a file, or nothing. -/
def relink (_ new : Option Nat) : Option Nat := new

/-- A disk: the file that each entry names, and the bytes of each file. -/
structure Disk where
  entries : PathBuf → Cached (Option Nat) (Option Nat)
  data : Nat → Cached (List UInt8) (FileWrite UInt8)
  nextInode : Nat
  allocated : ∀ p i, (entries p).value relink = some i → i < nextInode

namespace Disk

/-- The file that an entry names. -/
def entry (d : Disk) (p : PathBuf) : Option Nat := (d.entries p).value relink

/-- The bytes that are read of a file. -/
def content (d : Disk) (i : Nat) : List UInt8 := (d.data i).value (FileWrite.apply 0)

theorem value_write_relink {c : Cached (Option Nat) (Option Nat)} {new : Option Nat} :
    (c.write new).value relink = new := by
  simp [Cached.write, Cached.value, relink]

/-- An entry for a new file. -/
def alloc (d : Disk) (p : PathBuf) : Disk where
  entries := Function.update d.entries p ((d.entries p).write (some d.nextInode))
  data := Function.update d.data d.nextInode ⟨[], []⟩
  nextInode := d.nextInode + 1
  allocated := by
    intro q i h
    rcases eq_or_ne q p with rfl | hne
    · rw [Function.update_self, value_write_relink, Option.some.injEq] at h
      omega
    · rw [Function.update_of_ne hne] at h
      have hlt := d.allocated q i h
      omega

def write (d : Disk) (i : Nat) (u : FileWrite UInt8) : Disk :=
  { d with data := Function.update d.data i ((d.data i).write u) }

def sync (d : Disk) (i : Nat) : Disk :=
  { d with data := Function.update d.data i ((d.data i).sync (FileWrite.apply 0)) }

def unlink (d : Disk) (p : PathBuf) : Disk where
  entries := Function.update d.entries p ((d.entries p).write none)
  data := d.data
  nextInode := d.nextInode
  allocated := by
    intro q i h
    rcases eq_or_ne q p with rfl | hne
    · rw [Function.update_self, value_write_relink] at h
      cases h
    · rw [Function.update_of_ne hne] at h
      exact d.allocated q i h

/-- An entry is made to name a file that there is. -/
def link (d : Disk) (p : PathBuf) (i : Nat) (hi : i < d.nextInode) : Disk where
  entries := Function.update d.entries p ((d.entries p).write (some i))
  data := d.data
  nextInode := d.nextInode
  allocated := by
    intro q j h
    rcases eq_or_ne q p with rfl | hne
    · rw [Function.update_self, value_write_relink, Option.some.injEq] at h
      exact h ▸ hi
    · rw [Function.update_of_ne hne] at h
      exact d.allocated q j h

/-- The file that an entry names is moved to another one, or to the same. -/
def rename (d : Disk) (p q : PathBuf) : Option Disk :=
  match h : d.entry p with
  | some i => some ((d.unlink p).link q i (d.allocated p i h))
  | none => none

/-- A file that is opened for writing: a new one, or one that is cut to no bytes. -/
def create (d : Disk) (p : PathBuf) : Nat × Disk :=
  match d.entry p with
  | some i => (i, d.write i .truncate)
  | none => (d.nextInode, d.alloc p)

variable {d : Disk} {p q : PathBuf} {i j : Nat} {u : FileWrite UInt8}

theorem create_of_none (h : d.entry p = none) : d.create p = (d.nextInode, d.alloc p) := by
  rw [create, h]

@[simp] theorem entries_alloc :
    (d.alloc p).entries p = (d.entries p).write (some d.nextInode) := Function.update_self ..

@[simp] theorem entries_alloc_of_ne (h : q ≠ p) : (d.alloc p).entries q = d.entries q :=
  Function.update_of_ne h ..

@[simp] theorem data_alloc : (d.alloc p).data d.nextInode = ⟨[], []⟩ := Function.update_self ..

@[simp] theorem data_alloc_of_ne (h : i ≠ d.nextInode) : (d.alloc p).data i = d.data i :=
  Function.update_of_ne h ..

@[simp] theorem entries_write : (d.write i u).entries = d.entries := rfl

@[simp] theorem data_write : (d.write i u).data i = (d.data i).write u := Function.update_self ..

@[simp] theorem entries_sync : (d.sync i).entries = d.entries := rfl

@[simp] theorem data_sync : (d.sync i).data i = (d.data i).sync (FileWrite.apply 0) :=
  Function.update_self ..

@[simp] theorem data_sync_of_ne (h : j ≠ i) : (d.sync i).data j = d.data j :=
  Function.update_of_ne h ..

@[simp] theorem entries_unlink : (d.unlink p).entries p = (d.entries p).write none :=
  Function.update_self ..

@[simp] theorem entries_unlink_of_ne (h : q ≠ p) : (d.unlink p).entries q = d.entries q :=
  Function.update_of_ne h ..

@[simp] theorem entries_link {hi : i < d.nextInode} :
    (d.link p i hi).entries p = (d.entries p).write (some i) := Function.update_self ..

@[simp] theorem data_unlink : (d.unlink p).data = d.data := rfl

/-- The pieces are written to a file, one after the other. -/
def writePieces (d : Disk) (i offset : Nat) (pieces : List (List UInt8)) : Disk :=
  { d with
    data := Function.update d.data i
      { d.data i with pending := (d.data i).pending ++ writesFrom offset pieces } }

variable {offset : Nat} {pieces : List (List UInt8)}

@[simp] theorem entries_writePieces : (d.writePieces i offset pieces).entries = d.entries := rfl

@[simp] theorem data_writePieces :
    (d.writePieces i offset pieces).data i =
      { d.data i with pending := (d.data i).pending ++ writesFrom offset pieces } :=
  Function.update_self ..

@[simp] theorem data_writePieces_of_ne (h : j ≠ i) :
    (d.writePieces i offset pieces).data j = d.data j := Function.update_of_ne h ..

theorem writePieces_nil : d.writePieces i offset [] = d := by
  simp [writePieces, writesFrom]

/-- One more piece goes where the others end. -/
theorem writePieces_append (bytes : List UInt8) :
    d.writePieces i offset (pieces ++ [bytes]) =
      (d.writePieces i offset pieces).write i
        (.writeAt (offset + pieces.flatten.length) bytes) := by
  simp [writePieces, write, Cached.write, writesFrom_append]

/-! What is found at a path. -/

/-- The bytes that are read at a path. -/
def read (d : Disk) (p : PathBuf) : Option (List UInt8) := (d.entry p).map d.content

theorem read_eq_none : d.read p = none ↔ d.entry p = none := Option.map_eq_none_iff

/-- Two disks on which an entry and its file are the same. -/
theorem read_congr {d' : Disk} (hentry : d'.entries p = d.entries p)
    (hdata : ∀ i, d.entry p = some i → d'.data i = d.data i) : d'.read p = d.read p := by
  have hfile : d'.entry p = d.entry p := congrArg (Cached.value relink) hentry
  unfold read
  rw [hfile]
  cases hi : d.entry p with
  | none => rfl
  | some i => exact congrArg (some ∘ Cached.value (FileWrite.apply 0)) (hdata i hi)

/-- A new file, with what is written to it. -/
def newFile (d : Disk) (p : PathBuf) (pieces : List (List UInt8)) : Disk :=
  (d.alloc p).writePieces d.nextInode 0 pieces

/-- A new file changes no other. -/
theorem read_newFile_of_ne (h : q ≠ p) : (d.newFile p pieces).read q = d.read q := by
  refine read_congr (entries_alloc_of_ne h) fun i hi => ?_
  have hne : i ≠ d.nextInode := Nat.ne_of_lt (d.allocated q i hi)
  rw [newFile, data_writePieces_of_ne hne, data_alloc_of_ne hne]

/-- It holds what its pieces are of. -/
theorem read_newFile {bytes : List UInt8} (h : Pieces bytes pieces) :
    (d.newFile p pieces).read p = some bytes := by
  have hentry : (d.newFile p pieces).entry p = some d.nextInode := by
    rw [newFile, entry, entries_writePieces, entries_alloc, value_write_relink]
  have hcontent : (d.newFile p pieces).content d.nextInode = bytes := by
    rw [newFile, content, data_writePieces, data_alloc]
    exact h.foldl_writesFrom
  rw [read, hentry, Option.map_some, hcontent]

@[simp] theorem read_sync : (d.sync i).read p = d.read p := by
  have hcontent : (d.sync i).content = d.content := by
    funext j
    rcases eq_or_ne j i with rfl | hne
    · rw [content, data_sync]
      rfl
    · rw [content, data_sync_of_ne hne]
      rfl
  unfold read
  rw [hcontent]
  rfl

theorem read_unlink : (d.unlink p).read p = none := by
  rw [read_eq_none, entry, entries_unlink, value_write_relink]

theorem read_unlink_of_ne (h : q ≠ p) : (d.unlink p).read q = d.read q :=
  read_congr (entries_unlink_of_ne h) fun _ _ => rfl

theorem read_link {hi : i < d.nextInode} : (d.link p i hi).read p = some (d.content i) := by
  have hentry : (d.link p i hi).entry p = some i := by
    rw [entry, entries_link, value_write_relink]
  rw [read, hentry, Option.map_some]
  rfl

/-- What is moved is found where it is moved to. -/
theorem read_of_rename {d' : Disk} (h : d.rename p q = some d') : d'.read q = d.read p := by
  unfold rename at h
  split at h
  · next i hi =>
    obtain rfl := Option.some.inj h
    have hcontent : (d.unlink p).content i = d.content i := rfl
    exact (read_link.trans (congrArg some hcontent)).trans (congrArg (Option.map d.content) hi).symm
  · cases h

theorem isSome_rename (h : (d.read p).isSome) : (d.rename p q).isSome := by
  unfold rename
  split
  · rfl
  · next hnone =>
    rw [read_eq_none.mpr hnone] at h
    cases h

end Disk

/-! ## The calls -/

/-- A call on the disk. -/
abbrev Io (α : Type) := EStateM IoError (World Disk IoError) α

/-- `std::fs::File`: the file that is open, and where the next write goes. -/
structure File where
  inode : Nat
  position : Nat
deriving DecidableEq, Repr

/-- `File::create`. -/
def File.create (path : PathBuf) : Io File :=
  call fun _ d => .ok (⟨(d.create path).1, 0⟩, (d.create path).2)

/-- `File::write`: how many of the bytes are written. -/
def File.write (f : File) (buf : List UInt8) : Io Nat :=
  call fun most d =>
    match min (most.getD buf.length) buf.length with
    | 0 => .ok (0, d)
    | n + 1 => .ok (n + 1, d.write f.inode (.writeAt f.position (buf.take (n + 1))))

/-- The loop of `File::write_all`, which gets at least one byte further at each turn. -/
def File.writeLoop : Nat → File → List UInt8 → Io PUnit
  | 0, _, _ => pure ⟨⟩
  | _ + 1, _, [] => pure ⟨⟩
  | turns + 1, f, buf => do
    let n ← f.write buf
    if n = 0 then throw .writeZero
    File.writeLoop turns { f with position := f.position + n } (buf.drop n)

/-- `File::write_all`. -/
def File.writeAll (f : File) (buf : List UInt8) : Io PUnit := File.writeLoop buf.length f buf

/-- `File::sync_all`: of the bytes, not of the entry. -/
def File.syncAll (f : File) : Io PUnit := call fun _ d => .ok (⟨⟩, d.sync f.inode)

/-- `fs::write`. -/
def fsWrite (path : PathBuf) (contents : List UInt8) : Io PUnit := do
  let f ← File.create path
  f.writeAll contents

/-- `fs::read`. -/
def fsRead (path : PathBuf) : Io (List UInt8) :=
  call fun _ d =>
    match d.entry path with
    | some i => .ok (d.content i, d)
    | none => .error .notFound

/-- `fs::read_to_string`. -/
def readToString (path : PathBuf) : Io Str := do
  match fromUtf8 (← fsRead path) with
  | some content => return content
  | none => throw .invalidData

/-- `fs::create_dir_all`: only the entries of files are modelled. -/
def createDirAll (_path : PathBuf) : Io PUnit := call fun _ d => .ok (⟨⟩, d)

/-- `fs::remove_file`. -/
def removeFile (path : PathBuf) : Io PUnit :=
  call fun _ d =>
    match d.entry path with
    | some _ => .ok (⟨⟩, d.unlink path)
    | none => .error .notFound

/-- `fs::rename`. -/
def fsRename (source target : PathBuf) : Io PUnit :=
  call fun _ d =>
    match d.rename source target with
    | some d' => .ok (⟨⟩, d')
    | none => .error .notFound

section
variable {C : Disk → Prop} {d : Disk} {p : PathBuf}

theorem File.create_survives (h : d.entry p = none) (hC : C (d.alloc p)) :
    Survives C (· = d) (File.create p) fun f s => f = ⟨d.nextInode, 0⟩ ∧ s = d.alloc p := by
  refine .call fun most s f t hs hact => ?_
  subst hs
  rw [Disk.create_of_none h] at hact
  cases hact
  exact ⟨hC, rfl, rfl⟩

theorem File.syncAll_survives {f : File} (hC : C (d.sync f.inode)) :
    Survives C (· = d) f.syncAll fun _ s => s = d.sync f.inode := by
  refine .call fun most s _ t hs hact => ?_
  subst hs
  cases hact
  exact ⟨hC, rfl⟩

theorem removeFile_survives (hC : C (d.unlink p)) :
    Survives C (· = d) (removeFile p) fun _ s => s = d.unlink p := by
  refine .call fun most s _ t hs hact => ?_
  subst hs
  split at hact
  · cases hact
    exact ⟨hC, rfl⟩
  · cases hact

theorem fsRead_survives (hC : C d) :
    Survives C (· = d) (fsRead p)
      fun bytes s => (∃ i, d.entry p = some i ∧ bytes = d.content i) ∧ s = d := by
  refine .call fun most s _ t hs hact => ?_
  subst hs
  split at hact
  · next i hi =>
    cases hact
    exact ⟨hC, ⟨i, hi, rfl⟩, rfl⟩
  · cases hact

/-- A write gets some of the bytes written, or none. -/
theorem File.write_survives {f : File} {buf : List UInt8} (hzero : C d)
    (hC : ∀ n, C (d.write f.inode (.writeAt f.position (buf.take (n + 1))))) :
    Survives C (· = d) (f.write buf) fun n s =>
      n ≤ buf.length ∧ (n ≠ 0 → s = d.write f.inode (.writeAt f.position (buf.take n))) := by
  refine .call fun most s n t hs hact => ?_
  subst hs
  have hle : min (most.getD buf.length) buf.length ≤ buf.length := Nat.min_le_right ..
  generalize min (most.getD buf.length) buf.length = k at hact hle
  cases k with
  | zero =>
    cases hact
    exact ⟨hzero, Nat.zero_le _, fun h => absurd rfl h⟩
  | succ k =>
    cases hact
    exact ⟨hC k, hle, fun _ => rfl⟩

/-- The loop writes what is left of the bytes in pieces, after those that are written. -/
theorem File.writeLoop_survives {i offset turns : Nat} {buf written rest : List UInt8}
    {pieces : List (List UInt8)} (hC : ∀ ps, C (d.writePieces i offset ps))
    (hpieces : Pieces written pieces) (hturns : rest.length ≤ turns)
    (hbuf : written ++ rest = buf) :
    Survives C (· = d.writePieces i offset pieces)
      (File.writeLoop turns ⟨i, offset + written.length⟩ rest)
      fun _ s => ∃ ps, Pieces buf ps ∧ s = d.writePieces i offset ps := by
  induction turns generalizing written pieces rest with
  | zero =>
    obtain rfl := List.length_eq_zero_iff.mp (Nat.le_zero.mp hturns)
    rw [List.append_nil] at hbuf
    exact .pure fun s hs => ⟨pieces, hbuf ▸ hpieces, hs⟩
  | succ turns ih =>
    match rest, hturns, hbuf with
    | [], _, hbuf =>
      rw [List.append_nil] at hbuf
      exact .pure fun s hs => ⟨pieces, hbuf ▸ hpieces, hs⟩
    | b :: bs, hturns, hbuf =>
      have hwrite (n : Nat) : (d.writePieces i offset pieces).write i
          (.writeAt (offset + written.length) ((b :: bs).take n)) =
            d.writePieces i offset (pieces ++ [(b :: bs).take n]) := by
        rw [Disk.writePieces_append, hpieces.2]
      refine .bind (File.write_survives (hC pieces) fun n => hwrite _ ▸ hC _) fun n =>
        .of_fact fun hn => .guard fun hn0 => ?_
      have hlen : ((b :: bs).take n).length = n := List.length_take_of_le hn
      have hpieces' : Pieces (written ++ (b :: bs).take n) (pieces ++ [(b :: bs).take n]) := by
        refine hpieces.snoc fun h => hn0 ?_
        rw [← hlen, h, List.length_nil]
      have hrest : ((b :: bs).drop n).length ≤ turns := by
        rw [List.length_drop]
        omega
      have hloop := ih hpieces' hrest (by rw [List.append_assoc, List.take_append_drop, hbuf])
      rw [List.length_append, hlen, ← Nat.add_assoc] at hloop
      exact hloop.mono (fun s hs => (hs hn0).trans (hwrite n)) fun _ _ h => h

/-- `write_all` writes all of the bytes, in pieces. -/
theorem File.writeAll_survives {f : File} {buf : List UInt8}
    (hC : ∀ ps, C (d.writePieces f.inode f.position ps)) :
    Survives C (· = d) (f.writeAll buf)
      fun _ s => ∃ ps, Pieces buf ps ∧ s = d.writePieces f.inode f.position ps := by
  have hloop := File.writeLoop_survives hC Pieces.nil (Nat.le_refl buf.length) (List.nil_append buf)
  rw [Disk.writePieces_nil] at hloop
  exact hloop

theorem fsWrite_survives {bytes : List UInt8} (h : d.entry p = none)
    (hC : ∀ ps, C ((d.alloc p).writePieces d.nextInode 0 ps)) :
    Survives C (· = d) (fsWrite p bytes)
      fun _ s => ∃ ps, Pieces bytes ps ∧ s = (d.alloc p).writePieces d.nextInode 0 ps := by
  have hnew : C (d.alloc p) := by
    have hnil := hC []
    rwa [Disk.writePieces_nil] at hnil
  refine .bind (File.create_survives h hnew) fun f => .of_fact ?_
  rintro rfl
  exact File.writeAll_survives hC

/-- What is written over a file, or to a new one, is what is found there. -/
theorem Disk.read_create_writePieces {bytes : List UInt8} {pieces : List (List UInt8)}
    (h : Pieces bytes pieces) :
    ((d.create p).2.writePieces (d.create p).1 0 pieces).read p = some bytes := by
  cases hentry : d.entry p with
  | none =>
    rw [create_of_none hentry]
    exact read_newFile h
  | some i =>
    have hcontent : ((d.write i .truncate).writePieces i 0 pieces).content i = bytes := by
      simp only [content, data_writePieces, data_write, Cached.value, Cached.write,
        List.foldl_append, List.foldl_cons, List.foldl_nil]
      exact h.foldl_writesFrom
    have hfile : ((d.write i .truncate).writePieces i 0 pieces).entry p = some i := hentry
    rw [create, hentry]
    dsimp only
    rw [read, hfile, Option.map_some, hcontent]

/-- A file that is opened for writing, with no assumption on the disk. -/
theorem File.create_opens : Survives (fun _ => True) (· = d) (File.create p)
    fun f s => f = ⟨(d.create p).1, 0⟩ ∧ s = (d.create p).2 := by
  refine .call fun most s f t hs hact => ?_
  subst hs
  cases hact
  exact ⟨trivial, rfl, rfl⟩

/-- What is written to a file that was opened is what is found at its path. -/
theorem File.writeAll_writes {bytes : List UInt8} :
    Survives (fun _ => True) (· = (d.create p).2) (File.writeAll ⟨(d.create p).1, 0⟩ bytes)
      fun _ s => s.read p = some bytes := by
  refine (File.writeAll_survives fun _ => trivial).mono (fun s hs => hs) ?_
  rintro _ s ⟨ps, hps, rfl⟩
  exact Disk.read_create_writePieces hps

/-- `fs::write` leaves its bytes at the path. -/
theorem fsWrite_writes {bytes : List UInt8} :
    Survives (fun _ => True) (fun _ => True) (fsWrite p bytes)
      fun _ s => s.read p = some bytes := by
  refine .of_states fun d _ => .bind File.create_opens fun f => .of_fact ?_
  rintro rfl
  exact File.writeAll_writes

theorem File.syncAll_reads {f : File} {bytes : List UInt8} :
    Survives (fun _ => True) (fun s => s.read p = some bytes) f.syncAll
      fun _ s => s.read p = some bytes := by
  refine .call fun most s _ t hs hact => ?_
  cases hact
  exact ⟨trivial, Disk.read_sync.trans hs⟩

/-- What was at the source is at the target. -/
theorem fsRename_reads {q : PathBuf} {bytes : List UInt8} :
    Survives (fun _ => True) (fun s => s.read p = some bytes) (fsRename p q)
      fun _ s => s.read q = some bytes := by
  refine .call fun most s _ t hs hact => ?_
  split at hact
  · next d' hd' =>
    cases hact
    exact ⟨trivial, (Disk.read_of_rename hd').trans hs⟩
  · cases hact

end

/-! ## Calls that change nothing -/

theorem fsRead_observes (p : PathBuf) : Observes (·.read p) (fsRead p) := by
  refine .call fun most d bytes d' => ?_
  unfold Disk.read
  cases d.entry p with
  | none => simp
  | some i => simp [eq_comm]

theorem readToString_observes (p : PathBuf) :
    Observes (fun d => (d.read p).bind fromUtf8) (readToString p) := by
  have htext (bytes : List UInt8) : Observes (fun _ => fromUtf8 bytes) (match fromUtf8 bytes with
      | some content => return content
      | none => throw .invalidData : Io Str) := by
    cases fromUtf8 bytes with
    | none => exact .throw
    | some content => exact .pure
  exact (fsRead_observes p).bind htext

/-! ## Calls that are not refused -/

theorem File.create_succeeds (p : PathBuf) : Succeeds (File.create p) := .call fun _ => ⟨_, _, rfl⟩

theorem File.syncAll_succeeds (f : File) : Succeeds f.syncAll := .call fun _ => ⟨_, _, rfl⟩

/-- A write that is served in full writes everything. -/
theorem File.exists_write_run (f : File) (b : UInt8) (rest : List UInt8) {w : World Disk IoError}
    (hw : w.answers = []) :
    ∃ w', f.write (b :: rest) w = .ok (rest.length + 1) w' ∧ w'.answers = [] := by
  have hall : min ((none : Option Nat).getD (b :: rest).length) (b :: rest).length =
      rest.length + 1 := Nat.min_self _
  exact (exists_call_run hw (by rw [hall])).imp fun w' h => ⟨h.1, h.2.2⟩

theorem File.writeAll_succeeds (f : File) (buf : List UInt8) : Succeeds (f.writeAll buf) := by
  intro w hw
  cases buf with
  | nil => exact ⟨⟨⟩, w, rfl, hw⟩
  | cons b rest =>
    obtain ⟨w', hrun, hw'⟩ := f.exists_write_run b rest hw
    refine ⟨⟨⟩, w', ?_, hw'⟩
    have hdone : (b :: rest).drop (rest.length + 1) = [] := List.drop_eq_nil_of_le (Nat.le_refl _)
    rw [File.writeAll, List.length_cons, File.writeLoop, bind_run_of_ok hrun,
      if_neg (Nat.succ_ne_zero _)]
    · change File.writeLoop rest.length _ ((b :: rest).drop (rest.length + 1)) w' = _
      rw [hdone]
      cases rest <;> rfl
    · exact fun h => nomatch h

/-- A file that there is is moved. -/
theorem exists_fsRename_run {p q : PathBuf} {w : World Disk IoError} (hw : w.answers = [])
    (h : (w.state.read p).isSome) : ∃ w', fsRename p q w = .ok ⟨⟩ w' := by
  obtain ⟨d, hd⟩ := Option.isSome_iff_exists.mp (Disk.isSome_rename (q := q) h)
  exact (exists_call_run hw (by rw [hd])).imp fun w' h => h.1

theorem fsWrite_succeeds (p : PathBuf) (bytes : List UInt8) : Succeeds (fsWrite p bytes) :=
  .bind (File.create_succeeds p) fun f => f.writeAll_succeeds bytes

/-! ## Crashes -/

/-- What a crash keeps of the writes that are not yet synced. -/
structure Crash (d : Disk) where
  entries : PathBuf → List (Option Nat)
  data : Nat → List (FileWrite UInt8)
  entries_sublist : ∀ p, (entries p).Sublist (d.entries p).pending
  data_sublist : ∀ i, (data i).Sublist (d.data i).pending

namespace Crash

variable {d : Disk}

/-- The file that an entry names after the crash. -/
def entry (c : Crash d) (p : PathBuf) : Option Nat := (d.entries p).after relink (c.entries p)

/-- The bytes that are read of a file after the crash. -/
def content (c : Crash d) (i : Nat) : List UInt8 :=
  (d.data i).after (FileWrite.apply 0) (c.data i)

/-- What is found at a path after the crash. -/
def read (c : Crash d) (p : PathBuf) : Option (List UInt8) := (c.entry p).map c.content

/-- Nothing of what was written at a path is lost: not its entry, and no bytes of its file. -/
def Keeps (c : Crash d) (p : PathBuf) : Prop :=
  c.entries p = (d.entries p).pending ∧ ∀ i, d.entry p = some i → c.data i = (d.data i).pending

/-- A crash that keeps everything. -/
def keepsAll (d : Disk) : Crash d where
  entries p := (d.entries p).pending
  data i := (d.data i).pending
  entries_sublist _ := .refl _
  data_sublist _ := .refl _

/-- A crash that loses the entry of one path. -/
def loses (d : Disk) (p : PathBuf) : Crash d where
  entries := Function.update (fun q => (d.entries q).pending) p []
  data i := (d.data i).pending
  entries_sublist q := by
    rcases eq_or_ne q p with rfl | hne
    · rw [Function.update_self]
      exact List.nil_sublist _
    · rw [Function.update_of_ne hne]
  data_sublist _ := .refl _

theorem entry_loses {p : PathBuf} {old : Option Nat} {lost : List (Option Nat)}
    (h : d.entries p = ⟨old, lost⟩) : (loses d p).entry p = old := by
  have hlost : (loses d p).entries p = [] := by simp [loses]
  rw [entry, hlost, h]
  rfl

theorem entries_loses_of_ne {p q : PathBuf} (hne : q ≠ p) :
    (loses d p).entries q = (d.entries q).pending := by
  simp [loses, hne]

theorem entry_of_synced {c : Crash d} {p : PathBuf} {e : Option Nat} (h : d.entries p = ⟨e, []⟩) :
    c.entry p = e := by
  have hkept := c.entries_sublist p
  rw [h] at hkept
  rw [entry, List.sublist_nil.mp hkept, h]
  rfl

theorem content_of_synced {c : Crash d} {i : Nat} {bytes : List UInt8}
    (h : d.data i = ⟨bytes, []⟩) : c.content i = bytes := by
  have hkept := c.data_sublist i
  rw [h] at hkept
  rw [content, List.sublist_nil.mp hkept, h]
  rfl

/-- What is synced is found. -/
theorem read_of_synced {c : Crash d} {p : PathBuf} {i : Nat} {bytes : List UInt8}
    (hentry : d.entries p = ⟨some i, []⟩) (hdata : d.data i = ⟨bytes, []⟩) :
    c.read p = some bytes := by
  rw [read, entry_of_synced hentry, Option.map_some, content_of_synced hdata]

/-- Of the one write of an entry, a crash keeps it or not. -/
theorem entries_of_single {c : Crash d} {p : PathBuf} {old new : Option Nat}
    (h : d.entries p = ⟨old, [new]⟩) :
    c.entries p = [] ∧ c.entry p = old ∨ c.entries p = [new] ∧ c.entry p = new := by
  have hkept := c.entries_sublist p
  rw [h] at hkept
  rcases List.sublist_singleton.mp hkept with hlost | hkept
  · refine .inl ⟨hlost, ?_⟩
    rw [entry, hlost, h]
    rfl
  · refine .inr ⟨hkept, ?_⟩
    rw [entry, hkept, h]
    rfl

/-- Of bytes without a zero that are written but not synced, a crash leaves the whole only where it
loses none. -/
theorem content_eq_iff {c : Crash d} {i : Nat} {bytes : List UInt8} {pieces : List (List UInt8)}
    (h : d.data i = ⟨[], writesFrom 0 pieces⟩) (hpieces : Pieces bytes pieces) (hzero : 0 ∉ bytes) :
    c.content i = bytes ↔ c.data i = (d.data i).pending := by
  have hkept := c.data_sublist i
  rw [content, Cached.after]
  rw [h] at hkept ⊢
  refine ⟨fun hwhole => eq_of_foldl_writesFrom hpieces hzero rfl hkept hwhole, fun hall => ?_⟩
  rw [hall]
  exact hpieces.foldl_writesFrom

/-- A new file is found whole where nothing of it is lost. -/
theorem read_eq_some_iff_keeps {c : Crash d} {p : PathBuf} {i : Nat} {bytes : List UInt8}
    (hentry : d.entries p = ⟨none, [some i]⟩)
    (hdata : c.content i = bytes ↔ c.data i = (d.data i).pending) :
    c.read p = some bytes ↔ c.Keeps p := by
  have hfile : d.entry p = some i := by
    rw [Disk.entry, hentry]
    rfl
  rcases entries_of_single (c := c) hentry with ⟨hlost, hnone⟩ | ⟨hkept, hsome⟩
  · refine ⟨fun h => ?_, fun h => ?_⟩
    · rw [read, hnone] at h
      cases h
    · have hall := h.1
      rw [hlost, hentry] at hall
      cases hall
  · rw [read, hsome, Option.map_some, Option.some.injEq, hdata]
    refine ⟨fun h => ⟨by rw [hkept, hentry], fun j hj => ?_⟩, fun h => h.2 i hfile⟩
    cases hfile.symm.trans hj
    exact h

end Crash

end ActiveDefense
