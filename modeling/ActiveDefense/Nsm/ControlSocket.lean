import ActiveDefense.Lib.Run
import ActiveDefense.Nsm.Control
import ActiveDefense.Rust.Utf8

/-!
# One round trip on the control socket

`NsmControlClient::round_trip` writes a command and reads until the server closes; the server
answers a line and reads the next one until the client closes. As two parties on two byte streams,
with every read and write of any size, neither ever closes first: `round_trip_never_returns`, and
from every command both end up waiting for each other (`round_trip_deadlocks`).
-/

namespace ActiveDefense.Nsm

/-- The errors `round_trip` returns once it is connected and has written: an I/O error of the read
(bytes that are not UTF-8), and the server's. -/
inductive XdpControlError where
  | read
  | remote (response : Str)
deriving DecidableEq, Repr

/-- Where the client is in `round_trip`: bytes still to write, bytes of the response so far. -/
inductive Client where
  | writing (rest : List UInt8)
  | reading (got : List UInt8)
  | returned (result : Except XdpControlError Str)

/-- Where the server's task of the connection is: it holds bytes not yet cut into lines, and a
response still to write. -/
inductive Server where
  | reading (buf : List UInt8)
  | writing (rest buf : List UInt8)
  | closed

/-- A connection: both parties, the handle the server works on, and the bytes in flight. -/
structure Connection (M : Type) where
  capture : XdpCapture M
  client : Client
  server : Server
  toServer : List UInt8
  toClient : List UInt8

/-- The step of one party; a line is handled at some moment. -/
inductive ConnAction where
  | client
  | server (env : Env)

/-- The newline byte. -/
def newline : UInt8 := 10

/-- What `round_trip` returns for the bytes of the response. -/
def roundTripResult (got : List UInt8) : Except XdpControlError Str :=
  match fromUtf8 got with
  | none => .error .read
  | some response =>
    let response := trim response
    if "ERROR".toList.isPrefixOf response then .error (.remote response) else .ok response

/-- Drops the carriage return `next_line` takes off with the newline. -/
def stripCr (line : Str) : Str := if line.getLast? = some '\r' then line.dropLast else line

section
variable {M : Type} [PrefixMap M 32 UInt64]

/-- The server's answer to the bytes of a line; `none` if they are not UTF-8. -/
def serveLine (c : XdpCapture M) (env : Env) (line : List UInt8) :
    Option (List UInt8 × XdpCapture M) :=
  (fromUtf8 line).map fun line =>
    let (response, c') := handleControlCommand c env (trim (stripCr line))
    (utf8 response ++ [newline], c')

/-- The client has written nothing yet, and the server waits for its first line. -/
def Connection.opened (c : XdpCapture M) (command : Str) : Connection M where
  capture := c
  client := .writing (utf8 (command ++ ['\n']))
  server := .reading []
  toServer := []
  toClient := []

/-- One step of one party. A read or a write moves any number of bytes; a read at the end of the
stream needs the peer to have closed it. -/
inductive ConnStep : Connection M → ConnAction → Connection M → Prop
  | clientWrite {s : Connection M} {a b : List UInt8} : s.client = .writing (a ++ b) → a ≠ [] →
      ConnStep s .client { s with client := .writing b, toServer := s.toServer ++ a }
  | clientFlush {s : Connection M} : s.client = .writing [] →
      ConnStep s .client { s with client := .reading [] }
  | clientRead {s : Connection M} {got a b : List UInt8} : s.client = .reading got →
      s.toClient = a ++ b → a ≠ [] →
      ConnStep s .client { s with client := .reading (got ++ a), toClient := b }
  | clientEof {s : Connection M} {got : List UInt8} : s.client = .reading got →
      s.toClient = [] → s.server = .closed →
      ConnStep s .client { s with client := .returned (roundTripResult got) }
  | serverRead {s : Connection M} {env : Env} {buf a b : List UInt8} : s.server = .reading buf →
      splitOnce newline buf = none → s.toServer = a ++ b → a ≠ [] →
      ConnStep s (.server env) { s with server := .reading (buf ++ a), toServer := b }
  | serverLine {s : Connection M} {env : Env} {buf line rest out : List UInt8}
      {c : XdpCapture M} : s.server = .reading buf → splitOnce newline buf = some (line, rest) →
      serveLine s.capture env line = some (out, c) →
      ConnStep s (.server env) { s with server := .writing out rest, capture := c }
  | serverLineInvalid {s : Connection M} {env : Env} {buf line rest : List UInt8} :
      s.server = .reading buf → splitOnce newline buf = some (line, rest) →
      serveLine s.capture env line = none →
      ConnStep s (.server env) { s with server := .closed }
  | serverWrite {s : Connection M} {env : Env} {a b buf : List UInt8} :
      s.server = .writing (a ++ b) buf → a ≠ [] →
      ConnStep s (.server env) { s with server := .writing b buf, toClient := s.toClient ++ a }
  | serverNext {s : Connection M} {env : Env} {buf : List UInt8} : s.server = .writing [] buf →
      ConnStep s (.server env) { s with server := .reading buf }
  | serverEof {s : Connection M} {env : Env} {result : Except XdpControlError Str} :
      s.server = .reading [] → s.toServer = [] → s.client = .returned result →
      ConnStep s (.server env) { s with server := .closed }
  | serverLastLine {s : Connection M} {env : Env} {buf out : List UInt8} {c : XdpCapture M}
      {result : Except XdpControlError Str} : s.server = .reading buf → buf ≠ [] →
      splitOnce newline buf = none → s.toServer = [] → s.client = .returned result →
      serveLine s.capture env buf = some (out, c) →
      ConnStep s (.server env) { s with server := .writing out [], capture := c }
  | serverLastInvalid {s : Connection M} {env : Env} {buf : List UInt8}
      {result : Except XdpControlError Str} : s.server = .reading buf → buf ≠ [] →
      splitOnce newline buf = none → s.toServer = [] → s.client = .returned result →
      serveLine s.capture env buf = none →
      ConnStep s (.server env) { s with server := .closed }

/-- The client is inside `round_trip`, both parties wait to read, and nothing is in flight. -/
structure Deadlocked (s : Connection M) : Prop where
  client : ∃ got, s.client = .reading got
  server : ∃ buf, s.server = .reading buf ∧ splitOnce newline buf = none
  toServer : s.toServer = []
  toClient : s.toClient = []

/-- A deadlocked connection takes no step ever again. -/
theorem Deadlocked.no_step {s t : Connection M} {a : ConnAction} (h : Deadlocked s) :
    ¬ ConnStep s a t := by
  obtain ⟨⟨got, hc⟩, ⟨buf, hs, hsplit⟩, hin, hout⟩ := h
  intro hstep
  cases hstep with
  | clientWrite h | clientFlush h => simp [hc] at h
  | clientRead _ h ha =>
    rw [hout] at h
    exact ha (List.append_eq_nil_iff.mp h.symm).1
  | clientEof _ _ h => simp [hs] at h
  | serverRead _ _ h ha =>
    rw [hin] at h
    exact ha (List.append_eq_nil_iff.mp h.symm).1
  | serverLine h hl | serverLineInvalid h hl =>
    rw [hs] at h
    cases h
    simp [hsplit] at hl
  | serverWrite h | serverNext h => simp [hs] at h
  | serverEof _ _ h | serverLastLine _ _ _ _ h | serverLastInvalid _ _ _ _ h => simp [hc] at h

end

/-! ## What the client sends is lines -/

/-- The bytes of whole lines. -/
def lineBytes (ls : List Str) : List UInt8 := ls.flatMap fun l => utf8 l ++ [newline]

/-- What `round_trip` sends is the bytes of whole lines. -/
theorem exists_lineBytes (command : Str) :
    ∃ ls, (∀ l ∈ ls, '\n' ∉ l) ∧ utf8 (command ++ ['\n']) = lineBytes ls := by
  have hnl : utf8 ['\n'] = [newline] := by decide
  induction command with
  | nil => exact ⟨[[]], by simp, hnl⟩
  | cons c cs ih =>
    obtain ⟨ls, hls, heq⟩ := ih
    by_cases hc : c = '\n'
    · subst hc
      refine ⟨[] :: ls, by simpa using hls, ?_⟩
      rw [List.cons_append, ← List.singleton_append, utf8_append, heq, hnl]
      rfl
    · cases ls with
      | nil => simp [utf8_append, hnl, lineBytes] at heq
      | cons l ls =>
        refine ⟨(c :: l) :: ls, fun l' hl' => ?_, ?_⟩
        · rcases List.mem_cons.mp hl' with rfl | hl'
          · simp [Ne.symm hc, hls l (.head _)]
          · exact hls l' (List.mem_cons_of_mem _ hl')
        · rw [List.cons_append, ← List.singleton_append, utf8_append, heq, lineBytes, lineBytes,
            List.flatMap_cons, List.flatMap_cons, ← List.singleton_append (l := l), utf8_append]
          simp

/-- The first line of the bytes of whole lines. -/
theorem splitOnce_lineBytes {l : Str} (h : '\n' ∉ l) (ls : List Str) :
    splitOnce newline (lineBytes (l :: ls)) = some (utf8 l, lineBytes ls) := by
  rw [← splitOnce_append (newline_not_mem_utf8 h)]
  simp [lineBytes, newline]

section
variable {M : Type}

/-! ## Neither party closes first -/

/-- The bytes the server holds back for later lines. -/
def Server.buffered : Server → List UInt8
  | .reading buf => buf
  | .writing _ buf => buf
  | .closed => []

/-- The bytes the client has still to write. -/
def Client.unsent : Client → List UInt8
  | .writing rest => rest
  | _ => []

/-- Neither party has closed, and what is on its way to the server is whole lines of text. -/
structure Waiting (s : Connection M) : Prop where
  client : ∀ result, s.client ≠ .returned result
  server : s.server ≠ .closed
  lines : ∃ ls, (∀ l ∈ ls, '\n' ∉ l) ∧
    s.server.buffered ++ s.toServer ++ s.client.unsent = lineBytes ls

theorem waiting_opened (c : XdpCapture M) (command : Str) :
    Waiting (Connection.opened c command) where
  client := by simp [Connection.opened]
  server := by simp [Connection.opened]
  lines := by
    obtain ⟨ls, hls, heq⟩ := exists_lineBytes command
    exact ⟨ls, hls, heq⟩

/-- What only moves bytes on their way to the server, and closes nothing, keeps the invariant. -/
theorem Waiting.of_moved {s t : Connection M} (h : Waiting s)
    (hclient : ∀ result, t.client ≠ .returned result) (hserver : t.server ≠ .closed)
    (hmoved : t.server.buffered ++ t.toServer ++ t.client.unsent =
      s.server.buffered ++ s.toServer ++ s.client.unsent) : Waiting t where
  client := hclient
  server := hserver
  lines := hmoved ▸ h.lines

/-- A line the server cuts off what it holds is text, and leaves whole lines. -/
theorem Waiting.splitOnce {s : Connection M} (h : Waiting s) {buf line rest : List UInt8}
    (hs : s.server = .reading buf) (hsplit : splitOnce newline buf = some (line, rest)) :
    ∃ l ls, line = utf8 l ∧ (∀ l ∈ ls, '\n' ∉ l) ∧
      rest ++ s.toServer ++ s.client.unsent = lineBytes ls := by
  obtain ⟨ls, hls, heq⟩ := h.lines
  obtain ⟨rfl, hmem⟩ := eq_append_of_splitOnce hsplit
  have hcut := splitOnce_append hmem (rest ++ s.toServer ++ s.client.unsent)
  rw [hs] at heq
  simp only [Server.buffered, List.append_assoc, List.cons_append] at heq hcut
  rw [heq] at hcut
  cases ls with
  | nil => cases hcut
  | cons l ls =>
    rw [splitOnce_lineBytes (hls l (.head _))] at hcut
    simp only [Option.some.injEq, Prod.mk.injEq] at hcut
    refine ⟨l, ls, hcut.1.symm, fun l' hl' => hls l' (List.mem_cons_of_mem _ hl'), ?_⟩
    simp [hcut.2]

section
variable [PrefixMap M 32 UInt64]

/-- The server answers every line of text, with at least a newline. -/
theorem serveLine_utf8 (c : XdpCapture M) (env : Env) (l : Str) :
    ∃ out c', serveLine c env (utf8 l) = some (out, c') ∧ out ≠ [] := by
  rw [serveLine, fromUtf8_utf8]
  exact ⟨_, _, rfl, by simp⟩

/-- No step lets one of the parties close first. -/
theorem Waiting.step {s t : Connection M} {a : ConnAction} (h : Waiting s)
    (hstep : ConnStep s a t) : Waiting t := by
  cases hstep with
  | clientWrite hc | clientFlush hc | clientRead hc =>
    exact h.of_moved (by simp) h.server (by simp [hc, Client.unsent])
  | clientEof _ _ hclosed => exact absurd hclosed h.server
  | serverRead hs _ hin =>
    exact h.of_moved h.client (by simp) (by simp [hs, hin, Server.buffered])
  | serverLine hs hsplit =>
    obtain ⟨l, ls, -, hls, heq⟩ := h.splitOnce hs hsplit
    exact ⟨h.client, by simp, ls, hls, heq⟩
  | serverLineInvalid hs hsplit hnone =>
    obtain ⟨l, -, rfl, -⟩ := h.splitOnce hs hsplit
    rw [serveLine, fromUtf8_utf8] at hnone
    cases hnone
  | serverWrite hs | serverNext hs =>
    exact h.of_moved h.client (by simp) (by simp [hs, Server.buffered])
  | serverEof _ _ hret | serverLastLine _ _ _ _ hret | serverLastInvalid _ _ _ _ hret =>
    exact absurd hret (h.client _)

/-- Whatever the command and the interleaving, `round_trip` never returns. -/
theorem round_trip_never_returns (c : XdpCapture M) (command : Str) {s : Connection M}
    (h : Reachable ConnStep (Connection.opened c command) s)
    (result : Except XdpControlError Str) : s.client ≠ .returned result :=
  (h.invariant (waiting_opened c command) fun _ _ _ hw hstep => hw.step hstep).client result

/-- A server that holds whole lines, while the client reads, answers them all and is then stuck. -/
theorem reaches_deadlock_of_lines {ls : List Str} (hls : ∀ l ∈ ls, '\n' ∉ l) (c : XdpCapture M)
    (got : List UInt8) :
    ∃ t, Reachable ConnStep (⟨c, .reading got, .reading (lineBytes ls), [], []⟩ : Connection M) t ∧
      Deadlocked t := by
  induction ls generalizing c got with
  | nil => exact ⟨_, .refl, ⟨got, rfl⟩, ⟨[], rfl, rfl⟩, rfl, rfl⟩
  | cons l ls ih =>
    obtain ⟨out, c', hserve, hout⟩ := serveLine_utf8 c epochEnv l
    have hline : ConnStep
        (⟨c, .reading got, .reading (lineBytes (l :: ls)), [], []⟩ : Connection M)
        (.server epochEnv) ⟨c', .reading got, .writing out (lineBytes ls), [], []⟩ :=
      .serverLine rfl (splitOnce_lineBytes (hls l (.head _)) ls) hserve
    have hwrite : ConnStep
        (⟨c', .reading got, .writing out (lineBytes ls), [], []⟩ : Connection M)
        (.server epochEnv) ⟨c', .reading got, .writing [] (lineBytes ls), [], out⟩ :=
      .serverWrite (a := out) (by rw [List.append_nil]) hout
    have hnext : ConnStep
        (⟨c', .reading got, .writing [] (lineBytes ls), [], out⟩ : Connection M)
        (.server epochEnv) ⟨c', .reading got, .reading (lineBytes ls), [], out⟩ :=
      .serverNext rfl
    have hread : ConnStep
        (⟨c', .reading got, .reading (lineBytes ls), [], out⟩ : Connection M)
        .client ⟨c', .reading (got ++ out), .reading (lineBytes ls), [], []⟩ :=
      .clientRead rfl (List.append_nil _).symm hout
    obtain ⟨t, ht, hdead⟩ := ih (fun l' hl' => hls l' (List.mem_cons_of_mem _ hl')) c' (got ++ out)
    exact ⟨t, ((((Reachable.refl.tail hline).tail hwrite).tail hnext).tail hread).trans ht, hdead⟩

/-- From every handle and every command a deadlock is reached: the client sends its command, the
server answers all its lines, the client reads the answers. -/
theorem reaches_deadlock (c : XdpCapture M) (command : Str) :
    ∃ t, Reachable ConnStep (Connection.opened c command) t ∧ Deadlocked t := by
  obtain ⟨ls, hls, heq⟩ := exists_lineBytes command
  have hne : lineBytes ls ≠ [] := by
    rw [← heq, utf8_append]
    exact fun h => absurd (List.append_eq_nil_iff.mp h).2 (by decide)
  have hsend : ConnStep (Connection.opened c command) .client
      ⟨c, .writing [], .reading [], lineBytes ls, []⟩ :=
    .clientWrite (a := lineBytes ls) (by rw [List.append_nil, ← heq]; rfl) hne
  have hflush : ConnStep (⟨c, .writing [], .reading [], lineBytes ls, []⟩ : Connection M) .client
      ⟨c, .reading [], .reading [], lineBytes ls, []⟩ :=
    .clientFlush rfl
  have hreceive : ConnStep (⟨c, .reading [], .reading [], lineBytes ls, []⟩ : Connection M)
      (.server epochEnv) ⟨c, .reading [], .reading ([] ++ lineBytes ls), [], []⟩ :=
    .serverRead rfl rfl (List.append_nil _).symm hne
  obtain ⟨t, ht, hdead⟩ := reaches_deadlock_of_lines hls c []
  exact ⟨t, (((Reachable.refl.tail hsend).tail hflush).tail hreceive).trans ht, hdead⟩

/-- For no handle and no command is the round trip free of deadlock. -/
theorem round_trip_deadlocks (c : XdpCapture M) (command : Str) :
    ¬ ∀ s, Reachable ConnStep (Connection.opened c command) s → ¬ Deadlocked s := by
  obtain ⟨t, ht, hdead⟩ := reaches_deadlock c command
  exact fun h => h t ht hdead

end

end

/-- A `STATUS` deadlocks. -/
theorem status_deadlocks :
    ¬ ∀ (c : XdpCapture (ListTrie 32 UInt64 16)) (command : Str)
      (s : Connection (ListTrie 32 UInt64 16)),
      Reachable ConnStep (Connection.opened c command) s → ¬ Deadlocked s := by
  obtain ⟨t, ht, hdead⟩ := reaches_deadlock slash24Capture "STATUS".toList
  exact fun h => h slash24Capture "STATUS".toList t ht hdead

end ActiveDefense.Nsm
