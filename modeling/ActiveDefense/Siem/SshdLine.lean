import ActiveDefense.Rust.Net
import ActiveDefense.Siem.Rules

/-!
# The address in a line of sshd

`parse_sshd_line` takes the word behind the first ` from ` of a line as the source address. In a
line on a failed login the user's name stands in front of the address, and whoever tries to log in
chooses the name. The failures are grouped under the source exactly when the name does not bring a
` from ` of its own in front of another word (`grouped_under_source_iff`).
-/

namespace ActiveDefense.Siem.Sshd

open Rules

/-- What stands between the user and the address. -/
def fromWord : Str := " from ".toList

/-- `parse_sshd_line`. -/
def parseSshdLine (nowMs : Nat) (line : Str) : Option Event :=
  if ¬ "sshd".toList <:+: line then none
  else
    let fields : Table Str Str :=
      match strFind fromWord line with
      | some idx =>
        let rest := line.drop (idx + 6)
        let ip := (splitWhitespace rest).head?.getD []
        if ip.isEmpty then ∅ else AList.insert "src_ip".toList ip ∅
      | none => ∅
    some { id := 0, timestampMs := nowMs, kind := .log "sshd".toList line, fields := fields }

/-- The `kind` of the rule `ssh-bruteforce`. -/
def bruteforceThreshold : Threshold where
  field := "message".toList
  pattern := .contains "Failed password".toList
  groupBy := "src_ip".toList
  count := 5
  windowSecs := 60

/-- The rule `ssh-bruteforce` of `builtin_rules_yaml`. -/
def sshBruteforce : RuleDef where
  id := "ssh-bruteforce".toList
  title := "Repeated SSH authentication failures from one source".toList
  severity := .high
  mitreTechnique := some "T1110".toList
  kind := .threshold bruteforceThreshold

/-! ## The line that sshd writes -/

/-- What sshd writes on a failed login, behind the prefix of the system log. -/
structure Failure where
  logPrefix : Str
  pid : Nat
  invalid : Bool
  user : Str
  ip : IpAddr
  port : UInt16
  clean : ¬ fromWord <:+: logPrefix ++ "sshd[".toList ++ decimal pid ++ "]: ".toList

namespace Failure

variable (f : Failure)

/-- What is in front of the message, up to its last character. -/
def tag : Str := f.logPrefix ++ "sshd[".toList ++ decimal f.pid ++ "]:".toList

/-- What is in front of the user's name, between the blanks. -/
def phrase : Str :=
  if f.invalid then "Failed password for invalid user".toList else "Failed password for".toList

/-- What is behind the user's name, from the address on. -/
def source : Str := f.ip.display ++ " port ".toList ++ decimal f.port.toNat ++ " ssh2".toList

def line : Str :=
  f.logPrefix ++ "sshd[".toList ++ decimal f.pid ++ "]: ".toList ++ "Failed password for ".toList
    ++ (if f.invalid then "invalid user ".toList else []) ++ f.user ++ fromWord ++ f.ip.display
    ++ " port ".toList ++ decimal f.port.toNat ++ " ssh2".toList

/-- The user's name between its blanks. -/
def padded : Str := ' ' :: (f.user ++ [' '])

/-- The first ` from ` around the user's name, if there is one, stands in front of the address. -/
def Unambiguous : Prop :=
  ∀ before behind, f.padded = before ++ fromWord ++ behind →
    ¬ fromWord <:+: before ++ fromWord.dropLast →
      (splitWhitespace behind).head? = some f.ip.display

/-- The line's event, with whatever id and time it is given, counts under the address. -/
def GroupedUnderSource (nowMs : Nat) : Prop :=
  ∃ event, parseSshdLine nowMs f.line = some event ∧
    event.fields.lookup "src_ip".toList = some f.ip.display ∧
    ∀ regexNew id timestampMs,
      sshBruteforce.groupOf regexNew { event with id := id, timestampMs := timestampMs }
        = some f.ip.display

/-- The line from the blank in front of the user's name on. -/
def userOn : Str := f.padded ++ ("from ".toList ++ f.source)

/-! ## Where the address is looked for -/

variable {f}

theorem fromWord_eq : fromWord = " from ".toList := rfl

/-- The search goes on from the last blank of a text that does not have a ` from `. -/
theorem strFind_past {pre : Str} (hpre : ¬ fromWord <:+: pre ++ [' ']) (rest : Str) :
    strFind fromWord (pre ++ ' ' :: rest)
      = (strFind fromWord (' ' :: rest)).map (· + pre.length) :=
  strFind_append_blank (w := "from".toList) (by decide) hpre rest

theorem line_eq : f.line = f.tag ++ ' ' :: f.phrase ++ f.userOn := by
  rw [line, tag, phrase, userOn, padded, source, fromWord_eq]
  cases f.invalid <;> simp

theorem userOn_eq : f.userOn = ' ' :: f.user ++ ' ' :: ("from ".toList ++ f.source) := by
  simp [userOn, padded]

/-- There is no ` from ` in front of the user's name. -/
theorem not_infix_phrase : ¬ fromWord <:+: f.tag ++ ' ' :: f.phrase ++ [' '] := by
  have htag : ¬ fromWord <:+: f.tag ++ [' '] := by
    simpa [tag] using f.clean
  rw [List.append_assoc, ← strFind_eq_none_iff, List.cons_append, strFind_past htag,
    Option.map_eq_none_iff, phrase]
  cases f.invalid <;> rfl

theorem strFind_line :
    strFind fromWord f.line
      = (strFind fromWord f.userOn).map (· + (f.tag ++ ' ' :: f.phrase).length) := by
  rw [line_eq, userOn, padded, List.cons_append]
  exact strFind_past not_infix_phrase _

theorem strFind_userOn (h : ¬ fromWord <:+: f.padded) :
    strFind fromWord f.userOn = some (' ' :: f.user).length := by
  have hhead : strFind fromWord (' ' :: ("from ".toList ++ f.source)) = some 0 := by
    rw [strFind, if_pos ⟨f.source, rfl⟩]
  rw [userOn_eq, strFind_past (by rwa [padded] at h), hhead]
  simp

theorem strFind_userOn_of_first {before behind : Str}
    (hpad : f.padded = before ++ fromWord ++ behind)
    (hfirst : ¬ fromWord <:+: before ++ fromWord.dropLast) :
    strFind fromWord f.userOn = some before.length := by
  rw [userOn, hpad, List.append_assoc]
  exact strFind_first _ (by decide) hfirst

/-! ## What is found there -/

/-- The event of the line has the word behind the first ` from ` for its only field. -/
theorem exists_parseSshdLine (nowMs : Nat) {k : Nat} (hfind : strFind fromWord f.userOn = some k) :
    ∃ event, parseSshdLine nowMs f.line = some event ∧ event.kind = .log "sshd".toList f.line ∧
      event.fields.lookup "message".toList = none ∧
      ∀ ip, event.fields.lookup "src_ip".toList = some ip ↔
        ip ≠ [] ∧ (splitWhitespace (f.userOn.drop (k + 6))).head? = some ip := by
  have hsshd : "sshd".toList <:+: f.line := by
    refine ⟨f.logPrefix, '[' :: (decimal f.pid ++ "]:".toList ++ ' ' :: f.phrase ++ f.userOn), ?_⟩
    rw [line_eq, tag]
    simp
  have hdrop : f.line.drop (k + (f.tag ++ ' ' :: f.phrase).length + 6) = f.userOn.drop (k + 6) := by
    rw [line_eq, Nat.add_comm k, Nat.add_assoc, List.drop_length_add_append]
  refine ⟨_, by rw [parseSshdLine, if_neg (not_not_intro hsshd)], rfl, ?_, fun ip => ?_⟩
  · rw [strFind_line, hfind, Option.map_some]
    dsimp only
    split
    · exact AList.lookup_empty _
    · rw [AList.lookup_insert_ne (by decide), AList.lookup_empty]
  · rw [strFind_line, hfind, Option.map_some]
    dsimp only
    rw [hdrop]
    cases (splitWhitespace (f.userOn.drop (k + 6))).head? with
    | none => simp
    | some word =>
      rw [Option.getD_some]
      split
      · rename_i hword
        rw [AList.lookup_empty, List.isEmpty_iff.mp hword]
        simp [eq_comm]
      · rename_i hword
        rw [AList.lookup_insert]
        constructor
        · rintro ⟨rfl⟩
          exact ⟨by simpa using hword, rfl⟩
        · rintro ⟨-, hip⟩
          exact hip

/-- The first word behind a ` from ` around the name is one of the name, or the `from` of the
line. -/
theorem head?_behind {before behind : Str} (hpad : f.padded = before ++ fromWord ++ behind) :
    (splitWhitespace (f.userOn.drop (before.length + 6))).head?
      = some ((splitWhitespace behind).head?.getD "from".toList) := by
  have hdrop : f.userOn.drop (before.length + 6) = behind ++ ("from ".toList ++ f.source) := by
    rw [userOn, hpad, List.append_assoc, List.append_assoc, List.drop_length_add_append]
    rfl
  have hfrom : splitWhitespace ("from ".toList ++ f.source)
      = "from".toList :: splitWhitespace f.source :=
    splitWhitespace_append_blank (w := "from".toList) (by decide)
      (not_isWhitespace_of_all (by decide)) f.source
  rw [hdrop]
  rcases List.eq_nil_or_concat behind with rfl | ⟨words, c, rfl⟩
  · rw [List.nil_append, hfrom]
    rfl
  · obtain rfl : c = ' ' := by
      have hlast := congrArg List.getLast? hpad
      simpa [padded, eq_comm, List.getLast?_cons] using hlast
    rw [List.concat_eq_append, List.append_assoc, List.singleton_append, splitWhitespace_blank,
      splitWhitespace_blank, hfrom, splitWhitespace, List.append_nil]
    cases splitWhitespace words <;> rfl

/-- Behind the line's own ` from ` the first word is the address. -/
theorem head?_source :
    (splitWhitespace (f.userOn.drop ((' ' :: f.user).length + 6))).head? = some f.ip.display := by
  have hdrop : f.userOn.drop ((' ' :: f.user).length + 6) = f.source := by
    rw [userOn_eq, List.drop_length_add_append]
    rfl
  rw [hdrop, source, List.append_assoc, List.append_assoc]
  refine congrArg List.head? (splitWhitespace_append (display_ne_nil f.ip)
    (fun c hc => not_isWhitespace_of_mem_display hc) ?_)
  rfl

variable (f)

/-- The event counts under an address exactly if the address is its field. -/
theorem groupOf_event {event : Event} (hkind : event.kind = .log "sshd".toList f.line)
    (hmessage : event.fields.lookup "message".toList = none) {ip : Str}
    (hip : event.fields.lookup "src_ip".toList = some ip) (regexNew : RegexCrate) (id : UInt64)
    (timestampMs : Nat) :
    sshBruteforce.groupOf regexNew { event with id := id, timestampMs := timestampMs } =
      some ip := by
  have hfailed : "Failed password".toList <:+: f.line := by
    refine ⟨f.tag ++ [' '], f.phrase.drop 15 ++ f.userOn, ?_⟩
    rw [line_eq, phrase]
    cases f.invalid <;> simp
  have hresolve : resolve { event with id := id, timestampMs := timestampMs } "message".toList
      = some f.line := by
    have hsource : "message".toList ≠ "source".toList := by decide
    simp only [resolve, hmessage, hkind, if_neg hsource, if_true]
  have hgroup : resolve { event with id := id, timestampMs := timestampMs } "src_ip".toList
      = some ip := by
    simp only [resolve, hip]
  have hrule : sshBruteforce.kind = .threshold bruteforceThreshold := rfl
  have hfield : bruteforceThreshold.field = "message".toList := rfl
  have hpattern : bruteforceThreshold.pattern = .contains "Failed password".toList := rfl
  have hgroupBy : bruteforceThreshold.groupBy = "src_ip".toList := rfl
  rw [RuleDef.groupOf_threshold hrule, Threshold.groupOf, hfield, hpattern, hgroupBy, hresolve,
    hgroup]
  simp only [FieldMatch.isMatch, hfailed, decide_true, if_true]

/-- The failures of a line are grouped under its address if and only if the name does not bring a
` from ` of its own, in front of another word. -/
theorem grouped_under_source_iff (nowMs : Nat) : f.GroupedUnderSource nowMs ↔ f.Unambiguous := by
  constructor
  · rintro ⟨event, hparse, hip, -⟩ before behind hpad hfirst
    obtain ⟨_, hparse', -, -, hfields⟩ :=
      exists_parseSshdLine nowMs (strFind_userOn_of_first hpad hfirst)
    obtain rfl := Option.some.inj (hparse.symm.trans hparse')
    obtain ⟨-, hword⟩ := (hfields f.ip.display).mp hip
    rw [head?_behind hpad, Option.some.injEq] at hword
    cases hhead : (splitWhitespace behind).head? with
    | none =>
      rw [hhead, Option.getD_none] at hword
      have hr : 'r' ∈ f.ip.display := by
        rw [← hword]
        decide
      exact absurd (isAddressChar_of_mem_display hr) (by decide)
    | some word =>
      rw [hhead, Option.getD_some] at hword
      rw [hword]
  · intro hunamb
    obtain ⟨k, hfind, hword⟩ : ∃ k, strFind fromWord f.userOn = some k ∧
        (splitWhitespace (f.userOn.drop (k + 6))).head? = some f.ip.display := by
      by_cases hinfix : fromWord <:+: f.padded
      · obtain ⟨before, behind, hpad, hfirst⟩ := exists_first (by decide) hinfix
        refine ⟨before.length, strFind_userOn_of_first hpad hfirst, ?_⟩
        rw [head?_behind hpad, hunamb before behind hpad hfirst, Option.getD_some]
      · exact ⟨(' ' :: f.user).length, strFind_userOn hinfix, head?_source⟩
    obtain ⟨event, hparse, hkind, hmessage, hfields⟩ := exists_parseSshdLine nowMs hfind
    have hip := (hfields f.ip.display).mpr ⟨display_ne_nil f.ip, hword⟩
    exact ⟨event, hparse, hip, f.groupOf_event hkind hmessage hip⟩

end Failure

/-- A failed login of the user `x from 10.0.0.9` from the address 1.2.3.4. -/
def diverted : Failure where
  logPrefix := "Jul 13 10:00:01 web01 ".toList
  pid := 123
  invalid := true
  user := "x from 10.0.0.9".toList
  ip := .v4 (Ipv4Addr.new 1 2 3 4)
  port := 51000
  clean := by
    rw [← strFind_eq_none_iff]
    rfl

/-- The failure of that user counts under the address that the name has. -/
theorem not_grouped_under_source : ¬ ∀ (f : Failure) nowMs, f.GroupedUnderSource nowMs := by
  intro h
  obtain ⟨event, hparse, hip, -⟩ := h diverted 0
  have hpad : diverted.padded = " x".toList ++ fromWord ++ "10.0.0.9 ".toList := rfl
  have hfirst : ¬ fromWord <:+: " x".toList ++ fromWord.dropLast := by
    rw [← strFind_eq_none_iff]
    rfl
  obtain ⟨_, hparse', -, -, hfields⟩ :=
    Failure.exists_parseSshdLine 0 (Failure.strFind_userOn_of_first hpad hfirst)
  obtain rfl := Option.some.inj (hparse.symm.trans hparse')
  obtain ⟨-, hword⟩ := (hfields diverted.ip.display).mp hip
  have hother : some "10.0.0.9".toList = some diverted.ip.display :=
    (Failure.head?_behind hpad).symm.trans hword
  exact absurd hother (by decide)

end ActiveDefense.Siem.Sshd
