import ActiveDefense.Lib.Publish
import ActiveDefense.Nsm.Xdp

/-!
# Concurrent blocks and unblocks

`block_ipv4_inner` and `unblock_ipv4` lock the map for the update, release it, lock it again to
read it back in `persist_blocklist`, and replace the persisted file through one temporary path. Run
by several threads they are an instance of `ActiveDefense.Publish`: `persisted_agrees` is its
condition here, and `not_persisted_agrees` two threads that lose a block from the file. One thread
alone does what the sequential model says (`block_runs`, `unblock_runs`).
-/

namespace ActiveDefense.Nsm

open Publish

/-- What an operation past its gates does to the map. -/
inductive MapOp where
  | block (ip : Ipv4Addr) (prefixLen : Option UInt8) (expiryNs : UInt64)
  | unblock (ip : Ipv4Addr) (prefixLen : Option UInt8)
deriving DecidableEq, Repr

section
variable {M : Type} [PrefixMap M 32 UInt64]

/-- The update of the map; a failed insert ends the operation, a failed removal does not. -/
def MapOp.apply (config : AutoBlockConfig) : MapOp → M → Option M
  | .block ip prefixLen expiryNs, m => PrefixMap.insert m (config.blockKey ip prefixLen) expiryNs
  | .unblock ip prefixLen, m => some ((PrefixMap.remove m (unblockKey ip prefixLen)).getD m)

/-- The file a snapshot of the map is written as. -/
def persisted (m : M) : FileRead := .contents (renderBlocklist (listBlockedRaw m))

/-- The file decodes to exactly the entries of the map. -/
def DecodesTo (file : FileRead) (m : M) : Prop :=
  loadPersistedBlocklist file = some (listBlockedRaw m)

instance (file : FileRead) (m : M) : Decidable (DecodesTo file m) :=
  inferInstanceAs (Decidable (_ = _))

/-- What is written for a map decodes to it. -/
theorem decodesTo_persisted (m : M) : DecodesTo (persisted m) m := by
  rw [DecodesTo, persisted, loadPersistedBlocklist, parseBlocklist_render]

variable (Tid : Type) [DecidableEq Tid]

/-- One atomic step of one thread on the shared handle. -/
abbrev WriterStep (config : AutoBlockConfig) (s : State Tid M FileRead) (l : Label Tid MapOp)
    (t : State Tid M FileRead) : Prop :=
  Step (MapOp.apply config) persisted s l t

variable {Tid}

/-- With any number of threads at work on a handle whose file decodes to its map at the start: if
no rename publishes a snapshot older than one published before, unless another thread has yet to
publish one at least as new, then whenever no operation is in progress and every write has
succeeded, the file decodes to exactly the entries of the map. -/
theorem persisted_agrees (config : AutoBlockConfig) {live : M} {file : FileRead}
    (hfile : DecodesTo file live) (temp : Option (Snapshot FileRead))
    {ls : List (Label Tid MapOp)} {s : State Tid M FileRead}
    (h : Run (WriterStep Tid config) Meets (.init live file temp) ls s) (hq : Quiescent s)
    (hok : s.failed = false) : DecodesTo s.file.content s.live :=
  file_agrees decodesTo_persisted hfile temp h hq hok

/-- A block that is taken, run by one thread with no other in between, leaves the map and the file
`blockIpv4Inner` says. -/
theorem block_runs {c : XdpCapture M} {env : Env} {ip : Ipv4Addr} {ttlNs : Nat}
    {prefixLen : Option UInt8} {bypass : Bool}
    (htakes : c.takes env ip ttlNs prefixLen bypass = true)
    (hw : env.writeOk = true) {file : FileRead} (hp : c.persist = some file) (i : Tid)
    (temp : Option (Snapshot FileRead)) :
    ∃ ls s, Run (WriterStep Tid c.config) Meets (.init c.blocklist file temp) ls s ∧ Quiescent s ∧
      s.live = (c.blockIpv4Inner env ip ttlNs prefixLen bypass).2.blocklist ∧
      (c.blockIpv4Inner env ip ttlNs prefixLen bypass).2.persist = some s.file.content := by
  have hins := XdpCapture.insert_of_takes htakes
  generalize hc' : (c.blockIpv4Inner env ip ttlNs prefixLen bypass).2 = c' at hins
  have hpersist := XdpCapture.persist_of_takes htakes hw hp
  rw [hc'] at hpersist
  have hop : MapOp.apply c.config (.block ip prefixLen (expiryNs env.wallNs ttlNs)) c.blocklist =
      some c'.blocklist := hins
  exact ⟨_, _, run_alone rfl hop (fun _ _ h => h) (Nat.zero_le 1),
    quiescent_publishAlone (fun _ => rfl) i _, rfl, hpersist⟩

/-- The same of an unblock. -/
theorem unblock_runs {c : XdpCapture M} {env : Env} {ip : Ipv4Addr} {prefixLen : Option UInt8}
    (hw : env.writeOk = true) {file : FileRead} (hp : c.persist = some file) (i : Tid)
    (temp : Option (Snapshot FileRead)) :
    ∃ ls s, Run (WriterStep Tid c.config) Meets (.init c.blocklist file temp) ls s ∧ Quiescent s ∧
      s.live = (c.unblockIpv4 env ip prefixLen).blocklist ∧
      (c.unblockIpv4 env ip prefixLen).persist = some s.file.content := by
  have hop : MapOp.apply c.config (.unblock ip prefixLen) c.blocklist =
      some (c.unblockIpv4 env ip prefixLen).blocklist := by
    simp [MapOp.apply]
  refine ⟨_, _, run_alone (i := i) rfl hop (fun _ _ h => h) (Nat.zero_le 1),
    quiescent_publishAlone (fun _ => rfl) i _, rfl, ?_⟩
  simp [XdpCapture.unblockIpv4, XdpCapture.persistBlocklist, hp, hw, State.publishAlone, persisted]

end

/-- Two threads on an empty map, before any file is written. -/
def twoThreads : State Bool (ListTrie 32 UInt64 16) FileRead := .init PrefixMap.empty .notFound none

/-- The two threads block an address each, and thread `true` lifts the block of the other one while
that one publishes the older snapshot. -/
def staleThenNewer : List (Label Bool MapOp) :=
  [.update false (.block (Ipv4Addr.new 10 0 0 8) none 300), .snapshot false,
    .update true (.block (Ipv4Addr.new 10 0 0 9) none 300), .snapshot true, .write true,
    .rename true, .update true (.unblock (Ipv4Addr.new 10 0 0 8) none), .write false,
    .rename false, .snapshot true, .write true, .rename true]

/-- After that the file decodes to the block that is left. -/
theorem persisted_agrees_two : ∃ s : State Bool (ListTrie 32 UInt64 16) FileRead,
    DecodesTo s.file.content s.live ∧ listBlockedRaw s.live = [(Ipv4Addr.new 10 0 0 9, 32, 300)] := by
  obtain ⟨s, hrun, ⟨hidle, hok⟩, hlive⟩ : ∃ s : State Bool (ListTrie 32 UInt64 16) FileRead,
      Run (WriterStep Bool .default) Meets twoThreads staleThenNewer s ∧
        ((∀ i, s.phase i = .idle) ∧ s.failed = false) ∧
        listBlockedRaw s.live = [(Ipv4Addr.new 10 0 0 9, 32, 300)] :=
    Run.exists_of_guarded step_of_next (by decide)
  exact ⟨s, persisted_agrees .default (by decide) none hrun hidle hok, hlive⟩

/-- Thread `false` blocks 10.0.0.8 and takes its snapshot; thread `true` blocks 10.0.0.9 and
publishes; thread `false` publishes the older snapshot. -/
def staleRename : List (Label Bool MapOp) :=
  [.update false (.block (Ipv4Addr.new 10 0 0 8) none 300), .snapshot false,
    .update true (.block (Ipv4Addr.new 10 0 0 9) none 300), .snapshot true, .write true,
    .rename true, .write false, .rename false]

/-- After that no write has failed and no operation is in progress, but the file lacks the second
block. -/
theorem not_persisted_agrees :
    ¬ ∀ (config : AutoBlockConfig) (live : ListTrie 32 UInt64 16) (file : FileRead)
      (ls : List (Label Bool MapOp)) (s : State Bool (ListTrie 32 UInt64 16) FileRead),
      DecodesTo file live →
      Run (WriterStep Bool config) (fun _ _ => True) (.init live file none) ls s →
      Quiescent s → s.failed = false → DecodesTo s.file.content s.live := by
  intro h
  have hlost : (staleRename.foldlM (State.next (MapOp.apply .default) persisted) twoThreads).any
      (fun s => s.phase false = .idle && s.phase true = .idle && !s.failed &&
        !decide (DecodesTo s.file.content s.live)) = true := by
    decide
  cases hs : staleRename.foldlM (State.next (MapOp.apply .default) persisted) twoThreads with
  | none => simp [hs] at hlost
  | some s =>
    simp only [hs, Option.any_some, Bool.and_eq_true, decide_eq_true_eq, Bool.not_eq_true',
      decide_eq_false_iff_not] at hlost
    obtain ⟨⟨⟨hfalse, htrue⟩, hok⟩, hdecode⟩ := hlost
    have hq : Quiescent s := by
      intro i
      cases i with
      | false => exact hfalse
      | true => exact htrue
    exact hdecode (h _ _ _ _ s (by decide) (Run.of_foldlM step_of_next hs) hq hok)

end ActiveDefense.Nsm
