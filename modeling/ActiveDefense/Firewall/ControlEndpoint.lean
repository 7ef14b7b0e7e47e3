import ActiveDefense.Firewall.Quarantine
import ActiveDefense.Lib.Machine
import ActiveDefense.Rust.Words

/-!
# The metrics and control endpoint

`serve` answers one request of a connection, with what one read of at most 4096 bytes gives. It
tells the counters, and lifts a ban before its time. Where a token is set, neither happens without
it: whatever bytes arrive, as long as they do not contain the token, the ban list is what the packet
path and the sweeps alone make it, and every answer is a refusal (`bans_need_token`). A request as a
client writes it is read back in full, its last `Authorization` header counts
(`parseRequest_requestText`), and one with the token lifts exactly the ban that it names
(`unban_request`).
-/

namespace ActiveDefense.Firewall

/-! ## Texts -/

/-- `str::split("\r\n")`. -/
def splitCrlf : Str → List Str
  | [] => [[]]
  | '\r' :: '\n' :: cs => [] :: splitCrlf cs
  | c :: cs => consHead c (splitCrlf cs)

theorem splitCrlf_append {l : Str} (h : '\r' ∉ l) (rest : Str) :
    splitCrlf (l ++ '\r' :: '\n' :: rest) = l :: splitCrlf rest := by
  induction l with
  | nil => rfl
  | cons c l ih =>
    obtain ⟨hc, hl⟩ := not_or.mp (List.mem_cons.not.mp h)
    rw [List.cons_append, splitCrlf.eq_3 _ _ fun _ hcr _ => hc hcr.symm, ih hl]
    rfl

theorem splitCrlf_ne_nil (s : Str) : splitCrlf s ≠ [] := by
  fun_induction splitCrlf s with
  | case1 => exact List.cons_ne_nil _ _
  | case2 => exact List.cons_ne_nil _ _
  | case3 c cs _ ih =>
    cases hcs : splitCrlf cs with
    | nil => exact absurd hcs ih
    | cons l ls => exact List.cons_ne_nil _ _

/-- The first line begins the text. -/
theorem prefix_of_splitCrlf {s l : Str} {ls : List Str} (h : splitCrlf s = l :: ls) : l <+: s := by
  fun_induction splitCrlf s generalizing l ls with
  | case1 =>
    cases h
    exact List.prefix_rfl
  | case2 cs ih =>
    cases h
    exact List.nil_prefix
  | case3 c cs _ ih =>
    cases hcs : splitCrlf cs with
    | nil => exact absurd hcs (splitCrlf_ne_nil cs)
    | cons l' ls' =>
      rw [hcs] at h
      cases h
      exact List.prefix_cons_inj c |>.mpr (ih hcs)

/-- A line is part of the text. -/
theorem infix_of_mem_splitCrlf {s l : Str} (h : l ∈ splitCrlf s) : l <:+: s := by
  fun_induction splitCrlf s generalizing l with
  | case1 =>
    cases List.mem_singleton.mp h
    exact List.nil_infix
  | case2 cs ih =>
    rcases List.mem_cons.mp h with rfl | h
    · exact List.nil_infix
    · exact (ih h).trans (List.suffix_append ['\r', '\n'] cs).isInfix
  | case3 c cs hcrlf ih =>
    cases hcs : splitCrlf cs with
    | nil => exact absurd hcs (splitCrlf_ne_nil cs)
    | cons l' ls =>
      rw [hcs] at h
      rcases List.mem_cons.mp h with rfl | h
      · have hlines : splitCrlf (c :: cs) = (c :: l') :: ls := by
          rw [splitCrlf.eq_3 _ _ hcrlf, hcs]
          rfl
        exact (prefix_of_splitCrlf hlines).isInfix
      · exact (ih (hcs ▸ List.mem_cons_of_mem _ h)).trans (List.suffix_cons c cs).isInfix

theorem trim_isInfix (s : Str) : trim s <:+: s := by
  have hend : (trimStart (trimStart s).reverse).reverse <+: trimStart s := by
    have h := (List.dropWhile_suffix isWhitespace (l := (trimStart s).reverse)).reverse
    rwa [List.reverse_reverse] at h
  exact hend.isInfix.trans (List.dropWhile_suffix isWhitespace).isInfix

/-! ## Requests -/

/-- `ParsedRequest`. -/
structure ParsedRequest where
  method : Str
  path : Str
  bearerToken : Option Str
deriving DecidableEq

/-- The token that a header line has, if it is one for `Authorization`. -/
def headerToken (line : Str) : Option Str :=
  match splitOnce ':' line with
  | some (name, value) =>
    if eqIgnoreAsciiCase (trim name) "authorization".toList then
      (stripWord "Bearer ".toList (trim value)).map trim
    else none
  | none => none

/-- The loop over the header lines of `parse_request`, up to the empty one. -/
def bearerLoop (token : Option Str) : List Str → Option Str
  | [] => token
  | line :: rest =>
    if line.isEmpty then token else bearerLoop ((headerToken line).or token) rest

/-- `parse_request`. -/
def parseRequest (raw : Str) : Option ParsedRequest :=
  match splitCrlf raw with
  | [] => none
  | requestLine :: lines =>
    match splitWhitespace requestLine with
    | method :: path :: _ => some ⟨method, path, bearerLoop none lines⟩
    | _ => none

/-- `tokens_match`: the bytes that differ are collected, and none may. -/
def tokensMatch (provided expected : Str) : Bool :=
  let a := utf8 provided
  let b := utf8 expected
  if a.length ≠ b.length then false
  else (a.zip b).foldl (fun diff xy => diff ||| (xy.1 ^^^ xy.2)) 0 = 0

/-! ## The endpoint -/

/-- `Metrics`. -/
structure Metrics where
  accepted : UInt64
  dropped : UInt64
  rejected : UInt64
  conntrackEstablishedHits : UInt64
  conntrackTableFull : UInt64
  parseFailures : UInt64
  fragmentDrops : UInt64
  logsSuppressed : UInt64
  quarantineBlocks : UInt64
  quarantineBans : UInt64
  quarantineSyncFailures : UInt64
  quarantineManualUnbans : UInt64
  authFailures : UInt64

/-- `Metrics::new`. -/
def Metrics.new : Metrics := ⟨0, 0, 0, 0, 0, 0, 0, 0, 0, 0, 0, 0, 0⟩

/-- One family of the counters: its name, its help, its kind and its value. -/
def family (name help kind : String) (value : UInt64) : Str :=
  let name := "rustwall_".toList ++ name.toList
  "# HELP ".toList ++ name ++ ' ' :: help.toList ++ "\n# TYPE ".toList ++ name ++
    ' ' :: kind.toList ++ '\n' :: name ++ ' ' :: decimal value.toNat ++ ['\n']

/-- `Metrics::render`, with what the caller reads off the ban list. -/
def Metrics.render (m : Metrics) (activeFlows ruleCount : UInt64) (q : Quarantine) : Str :=
  family "packets_accepted_total" "Packets accepted." "counter" m.accepted ++
  family "packets_dropped_total" "Packets dropped (silent)." "counter" m.dropped ++
  family "packets_rejected_total" "Packets actively rejected (RST/ICMP)." "counter" m.rejected ++
  family "conntrack_established_hits_total" "Packets fast-pathed via conntrack." "counter"
    m.conntrackEstablishedHits ++
  family "conntrack_table_full_total"
    "Times a new flow was dropped due to a full conntrack table." "counter" m.conntrackTableFull ++
  family "parse_failures_total"
    "Packets that failed to parse and were fail-closed dropped." "counter" m.parseFailures ++
  family "fragment_drops_total"
    ("Non-first IP fragments dropped for lacking a classifiable L4 header (see README " ++
      "Fragmentation section).")
    "counter" m.fragmentDrops ++
  family "logs_suppressed_total" "Policy-decision log lines suppressed by the log rate limiter."
    "counter" m.logsSuppressed ++
  family "quarantine_blocks_total" "Packets blocked because their source was already quarantined."
    "counter" m.quarantineBlocks ++
  family "quarantine_bans_total"
    "Times a rule's auto_block_secs triggered a new or extended ban." "counter" q.bansTotal ++
  family "quarantine_capacity_rejections_total"
    "Times a new IP could not be quarantined because the table was at capacity." "counter"
    q.capacityRejections ++
  family "quarantine_sync_failures_total"
    ("Times the OS firewall sync worker failed to apply a ban/unban (e.g. nft/netsh returned an " ++
      "error).")
    "counter" m.quarantineSyncFailures ++
  family "quarantine_sync_dropped_total"
    "Times a ban/unban sync job was dropped because the sync worker's queue was full." "counter"
    q.syncDropped ++
  family "quarantine_manual_unbans_total"
    "Manual unban requests received via the admin endpoint." "counter" m.quarantineManualUnbans ++
  family "auth_failures_total" "Requests rejected for missing/incorrect bearer token." "counter"
    m.authFailures ++
  family "conntrack_active_flows" "Current number of tracked flows." "gauge" activeFlows ++
  family "quarantine_active_hosts" "Current number of quarantined source IPs." "gauge"
    (.ofNat q.table.len) ++
  family "rules_loaded" "Number of policy rules currently active." "gauge" ruleCount

/-- What the endpoint works on. -/
structure Control where
  metrics : Metrics
  quarantine : Quarantine

/-- What one read of a connection gives. -/
structure Received where
  bytes : List UInt8
  length_le : bytes.length ≤ 4096

/-- What the rest of the program tells at the time of a request. -/
structure Gauges where
  activeFlows : UInt64
  ruleCount : UInt64
  ingestionMetrics : Str

/-- A status and a body. -/
structure Response where
  status : String
  body : Str
deriving DecidableEq

/-- `write_response`. -/
def Response.text (r : Response) : Str :=
  "HTTP/1.1 ".toList ++ r.status.toList ++
    "\r\nContent-Type: text/plain\r\nContent-Length: ".toList ++ decimal (utf8 r.body).length ++
    "\r\nConnection: close\r\n\r\n".toList ++ r.body

def badRequest : Response := ⟨"400 Bad Request", "malformed request\n".toList⟩

def unauthorized : Response := ⟨"401 Unauthorized", "missing or invalid bearer token\n".toList⟩

def noRoute : Response := ⟨"404 Not Found", "no such route\n".toList⟩

/-- The route of `POST /quarantine/unban/<ip>`. -/
def unbanRoute (c : Control) (ipStr : Str) : Response × Control :=
  match parseIpAddr ipStr with
  | none => (⟨"400 Bad Request", "invalid IP address\n".toList⟩, c)
  | some ip =>
    let metrics :=
      { c.metrics with quarantineManualUnbans := c.metrics.quarantineManualUnbans + 1 }
    match c.quarantine.manualUnban ip with
    | (true, q) => (⟨"200 OK", "unbanned\n".toList⟩, ⟨metrics, q⟩)
    | (false, q) => (⟨"404 Not Found", "that IP was not quarantined\n".toList⟩, ⟨metrics, q⟩)

/-- The routes. -/
def route (c : Control) (g : Gauges) (req : ParsedRequest) : Response × Control :=
  if req.method = "GET".toList ∧ req.path = "/metrics".toList then
    (⟨"200 OK", c.metrics.render g.activeFlows g.ruleCount c.quarantine ++ g.ingestionMetrics⟩, c)
  else if req.method = "POST".toList then
    match stripWord "/quarantine/unban/".toList req.path with
    | some ipStr => unbanRoute c ipStr
    | none => (noRoute, c)
  else (noRoute, c)

/-- Whether the request has the token, where there is one. -/
def authorized (authToken : Option Str) (req : ParsedRequest) : Bool :=
  match authToken with
  | none => true
  | some expected => (req.bearerToken.map fun t => tokensMatch t expected).getD false

/-- One turn of `serve`, with a connection. -/
def serveOne (authToken : Option Str) (c : Control) (g : Gauges) (r : Received) :
    Response × Control :=
  match parseRequest (fromUtf8Lossy r.bytes) with
  | none => (badRequest, c)
  | some req =>
    if authorized authToken req then route c g req
    else (unauthorized,
      { c with metrics := { c.metrics with authFailures := c.metrics.authFailures + 1 } })

/-- What happens to the ban list and the counters: a request, a ban of the packet path, a sweep of
the maintenance thread, and packets that are counted. -/
inductive EndpointAction where
  | request (g : Gauges) (r : Received)
  | ban (ip : IpAddr) (duration : Duration) (now : Instant)
  | sweep (now : Instant)
  | packets (m : Metrics)

/-- What the packet path and the sweeps make of the ban list. A ban whose end is past the clock's
range is a panic, which changes nothing. -/
def EndpointAction.onBans (q : Quarantine) : EndpointAction → Quarantine
  | ban ip duration now =>
    match q.ban ip duration now with
    | .ok (_, q) => q
    | .error _ => q
  | sweep now => q.sweepExpired now
  | request _ _ | packets _ => q

/-- A step of the perimeter, with the answer to a request. -/
def controlStep (authToken : Option Str) : Machine Control EndpointAction (Option Response)
  | c, .request g r =>
    let (response, c) := serveOne authToken c g r
    (some response, c)
  | c, .packets m =>
    -- the two counters of the endpoint are its own
    (none, { c with metrics := { m with
      quarantineManualUnbans := c.metrics.quarantineManualUnbans
      authFailures := c.metrics.authFailures } })
  | c, action => (none, { c with quarantine := action.onBans c.quarantine })

/-! ## Nothing without the token -/

/-- The bytes that differ leave a bit. -/
theorem foldl_xor_eq_zero_iff (pairs : List (UInt8 × UInt8)) (diff : UInt8) :
    pairs.foldl (fun diff xy => diff ||| (xy.1 ^^^ xy.2)) diff = 0 ↔
      diff = 0 ∧ ∀ xy ∈ pairs, xy.1 = xy.2 := by
  induction pairs generalizing diff with
  | nil => simp
  | cons xy pairs ih =>
    rw [List.foldl_cons, ih, UInt8.or_eq_zero_iff, UInt8.xor_eq_zero_iff, List.forall_mem_cons,
      and_assoc]

theorem forall_mem_zip_iff {a b : List UInt8} (hlen : a.length = b.length) :
    (∀ xy ∈ a.zip b, xy.1 = xy.2) ↔ a = b := by
  induction a generalizing b with
  | nil =>
    rw [List.length_eq_zero_iff.mp hlen.symm]
    simp
  | cons x a ih =>
    cases b with
    | nil => cases hlen
    | cons y b =>
      rw [List.zip_cons_cons, List.forall_mem_cons, ih (Nat.succ.inj hlen), List.cons.injEq]

/-- The comparison of tokens is equality. -/
theorem tokensMatch_iff {provided expected : Str} :
    tokensMatch provided expected = true ↔ provided = expected := by
  simp only [tokensMatch]
  split
  · next hlen =>
    refine iff_of_false nofun fun heq => hlen ?_
    rw [heq]
  · next hlen =>
    rw [decide_eq_true_eq, foldl_xor_eq_zero_iff, forall_mem_zip_iff (not_not.mp hlen)]
    constructor
    · rintro ⟨-, hbytes⟩
      exact utf8_inj hbytes
    · rintro rfl
      exact ⟨rfl, rfl⟩

/-- The token of a header is part of its line. -/
theorem infix_of_headerToken {line t : Str} (h : headerToken line = some t) : t <:+: line := by
  rw [headerToken] at h
  split at h
  · next name value hsplit =>
    split at h
    · obtain ⟨rest, hrest, rfl⟩ := Option.map_eq_some_iff.mp h
      have hvalue : rest <:+: value := by
        have hsuffix : rest <:+ trim value := ⟨_, (eq_append_of_stripWord hrest).symm⟩
        exact hsuffix.isInfix.trans (trim_isInfix value)
      have hline : value <:+ line :=
        ⟨name ++ [':'], by rw [(eq_append_of_splitOnce hsplit).1, List.append_assoc]; rfl⟩
      exact (trim_isInfix rest).trans (hvalue.trans hline.isInfix)
    · cases h
  · cases h

theorem infix_of_bearerLoop {lines : List Str} {token : Option Str} {t : Str}
    (h : bearerLoop token lines = some t) : token = some t ∨ ∃ line ∈ lines, t <:+: line := by
  induction lines generalizing token with
  | nil => exact .inl h
  | cons line rest ih =>
    rw [bearerLoop] at h
    split at h
    · exact .inl h
    · rcases ih h with htoken | ⟨line', hline', ht⟩
      · rcases Option.or_eq_some_iff.mp htoken with hheader | ⟨-, htoken⟩
        · exact .inr ⟨line, .head _, infix_of_headerToken hheader⟩
        · exact .inl htoken
      · exact .inr ⟨line', List.mem_cons_of_mem _ hline', ht⟩

/-- The token of a request is part of its text. -/
theorem bearerToken_infix {raw t : Str} {req : ParsedRequest} (h : parseRequest raw = some req)
    (ht : req.bearerToken = some t) : t <:+: raw := by
  rw [parseRequest] at h
  split at h
  · cases h
  · next requestLine lines hlines =>
    split at h
    · cases h
      rcases infix_of_bearerLoop ht with hnone | ⟨line, hline, hpart⟩
      · cases hnone
      · have hmem : line ∈ splitCrlf raw := by
          rw [hlines]
          exact List.mem_cons_of_mem _ hline
        exact hpart.trans (infix_of_mem_splitCrlf hmem)
    · cases h

/-- Whether the request can be read. -/
def Received.readable (r : Received) : Bool := (parseRequest (fromUtf8Lossy r.bytes)).isSome

/-- A request without the token is refused. -/
theorem serveOne_without_token {token : Str} {r : Received}
    (h : ¬ token <:+: fromUtf8Lossy r.bytes) (c : Control) (g : Gauges) :
    serveOne (some token) c g r = if r.readable = true then
      (unauthorized,
        { c with metrics := { c.metrics with authFailures := c.metrics.authFailures + 1 } })
    else (badRequest, c) := by
  rw [serveOne, Received.readable]
  cases hparse : parseRequest (fromUtf8Lossy r.bytes) with
  | none => rfl
  | some req =>
    have hrefused : authorized (some token) req = false := by
      rw [authorized]
      cases htoken : req.bearerToken with
      | none => rfl
      | some t =>
        refine Bool.eq_false_iff.mpr fun hmatch => h ?_
        rw [← tokensMatch_iff.mp hmatch]
        exact bearerToken_infix hparse htoken
    simp [hrefused]

/-- A ban that has not ended stays in force, whatever the packet path bans and the sweeps before its
end remove. -/
theorem isActive_foldl_onBans {q : Quarantine} {ip : IpAddr} {expiry now : Instant}
    (hban : q.table.lookup ip = some expiry) (hnow : now < expiry) {actions : List EndpointAction}
    (hsweeps : ∀ now, .sweep now ∈ actions → now < expiry) :
    (actions.foldl EndpointAction.onBans q).isActive ip now = true := by
  -- the expiry of an address is never brought forward
  have hkept : ∀ (actions : List EndpointAction) (q : Quarantine),
      (∃ later, q.table.lookup ip = some later ∧ expiry ≤ later) →
      (∀ now, .sweep now ∈ actions → now < expiry) →
      ∃ later, (actions.foldl EndpointAction.onBans q).table.lookup ip = some later ∧
        expiry ≤ later := by
    intro actions
    induction actions with
    | nil => exact fun q h _ => h
    | cons action actions ih =>
      rintro q ⟨later, hlater, hle⟩ hsweeps
      refine ih _ ?_ fun now hnow => hsweeps now (List.mem_cons_of_mem _ hnow)
      cases action with
      | request g r => exact ⟨later, hlater, hle⟩
      | packets m => exact ⟨later, hlater, hle⟩
      | sweep now =>
        have hbefore := hsweeps now (.head _)
        exact ⟨later, Quarantine.lookup_sweepExpired.mpr ⟨hlater, hbefore.trans_le hle⟩, hle⟩
      | ban ip' duration now =>
        simp only [EndpointAction.onBans]
        split
        · next recorded q' hq =>
          cases recorded with
          | false =>
            rw [Quarantine.table_ban_refused hq]
            exact ⟨later, hlater, hle⟩
          | true =>
            obtain ⟨end', htable, -, -, hold⟩ := Quarantine.table_ban hq
            rw [htable]
            by_cases heq : ip = ip'
            · subst heq
              exact ⟨end', AList.lookup_insert _, hle.trans (hold later hlater)⟩
            · exact ⟨later, (AList.lookup_insert_ne heq).trans hlater, hle⟩
        · exact ⟨later, hlater, hle⟩
  obtain ⟨later, hlater, hle⟩ := hkept actions q ⟨expiry, hban, Nat.le_refl _⟩ hsweeps
  rw [Quarantine.isActive, hlater]
  exact decide_eq_true (hnow.trans_le hle)

/-- Whether it is a request that can be read. -/
def EndpointAction.readable : EndpointAction → Bool
  | request _ r => r.readable
  | _ => false

/-- What a step does whose request, if it is one, does not contain the token. -/
theorem controlStep_without_token {token : Str} {action : EndpointAction}
    (h : ∀ g r, action = .request g r → ¬ token <:+: fromUtf8Lossy r.bytes) (c : Control) :
    let step := controlStep (some token) c action
    step.2.quarantine = action.onBans c.quarantine ∧
    (∀ response, step.1 = some response → response = badRequest ∨ response = unauthorized) ∧
    step.2.metrics.quarantineManualUnbans = c.metrics.quarantineManualUnbans ∧
    step.2.metrics.authFailures =
      c.metrics.authFailures + .ofNat (if action.readable = true then 1 else 0) := by
  cases action with
  | request g r =>
    have hserve := serveOne_without_token (h g r rfl) c g
    cases hreadable : r.readable with
    | true =>
      rw [hreadable, if_pos rfl] at hserve
      simp only [controlStep, hserve, EndpointAction.readable, hreadable]
      exact ⟨rfl, fun _ hresponse => .inr (Option.some.inj hresponse).symm, trivial, rfl⟩
    | false =>
      rw [hreadable, if_neg Bool.false_ne_true] at hserve
      simp only [controlStep, hserve, EndpointAction.readable, hreadable]
      exact ⟨rfl, fun _ hresponse => .inl (Option.some.inj hresponse).symm, trivial,
        (UInt64.add_zero _).symm⟩
  | packets m => exact ⟨rfl, nofun, rfl, (UInt64.add_zero _).symm⟩
  | ban ip duration now => exact ⟨rfl, nofun, rfl, (UInt64.add_zero _).symm⟩
  | sweep now => exact ⟨rfl, nofun, rfl, (UInt64.add_zero _).symm⟩

theorem run_without_token {token : Str} {actions : List EndpointAction}
    (h : ∀ g r, .request g r ∈ actions → ¬ token <:+: fromUtf8Lossy r.bytes) (c : Control) :
    let run := (controlStep (some token)).run c actions
    run.2.quarantine = actions.foldl EndpointAction.onBans c.quarantine ∧
    (∀ response, some response ∈ run.1 → response = badRequest ∨ response = unauthorized) ∧
    run.2.metrics.quarantineManualUnbans = c.metrics.quarantineManualUnbans ∧
    run.2.metrics.authFailures =
      c.metrics.authFailures + .ofNat (actions.countP EndpointAction.readable) := by
  induction actions generalizing c with
  | nil => exact ⟨rfl, nofun, rfl, (UInt64.add_zero _).symm⟩
  | cons action actions ih =>
    obtain ⟨hquarantine, hreply, hunbans, hfailures⟩ :=
      controlStep_without_token (fun g r hr => h g r (hr ▸ .head _)) c
    obtain ⟨hquarantine', hreply', hunbans', hfailures'⟩ :=
      ih (fun g r hr => h g r (List.mem_cons_of_mem _ hr)) (controlStep (some token) c action).2
    refine ⟨hquarantine'.trans (by rw [hquarantine, List.foldl_cons]), fun response hresponse => ?_,
      hunbans'.trans hunbans, hfailures'.trans ?_⟩
    · rcases List.mem_cons.mp hresponse with hfirst | hlater
      · exact hreply response hfirst.symm
      · exact hreply' response hlater
    · rw [hfailures, List.countP_cons, Nat.add_comm, UInt64.ofNat_add, UInt64.add_assoc]

/-- Where a token is set and no request contains it, every request is refused, the ban list is what
the packet path and the sweeps make of it, so that a ban in force stays so until it ends, and the
failures are counted exactly. -/
theorem bans_need_token (token : Str) (c : Control) (actions : List EndpointAction)
    (hwithout : ∀ g r, .request g r ∈ actions → ¬ token <:+: fromUtf8Lossy r.bytes) :
    let run := (controlStep (some token)).run c actions
    run.2.quarantine = actions.foldl EndpointAction.onBans c.quarantine ∧
    (∀ response, some response ∈ run.1 → response = badRequest ∨ response = unauthorized) ∧
    run.2.metrics.quarantineManualUnbans = c.metrics.quarantineManualUnbans ∧
    run.2.metrics.authFailures =
      c.metrics.authFailures + .ofNat (actions.countP EndpointAction.readable) ∧
    ∀ ip expiry, c.quarantine.table.lookup ip = some expiry →
      (∀ now, .sweep now ∈ actions → now < expiry) →
      ∀ now, now < expiry → run.2.quarantine.isActive ip now = true := by
  intro run
  obtain ⟨hquarantine, hreplies, hunbans, hfailures⟩ := run_without_token hwithout c
  refine ⟨hquarantine, hreplies, hunbans, hfailures, ?_⟩
  intro ip expiry hban hsweeps now hnow
  have hactive := isActive_foldl_onBans hban hnow hsweeps
  rwa [← hquarantine] at hactive

/-- One address is banned for a while. -/
private def banned : Control :=
  ⟨.new, { Quarantine.new 8 with table := AList.insert (.v4 0x01020304) 1000 ∅ }⟩

private def guess : Received :=
  ⟨utf8 "POST /quarantine/unban/1.2.3.4 HTTP/1.1\r\nAuthorization: Bearer guess\r\n\r\n".toList,
    by decide⟩

/-- A wrong token does not lift the ban. -/
theorem bans_need_token_guess : ((controlStep (some "secret".toList)).run banned
    [.request ⟨0, 0, []⟩ guess]).2.quarantine.isActive (.v4 0x01020304) 500 = true := by
  have hwithout : ∀ g r, EndpointAction.request g r ∈ [EndpointAction.request ⟨0, 0, []⟩ guess] →
      ¬ "secret".toList <:+: fromUtf8Lossy r.bytes := by
    intro g r hr
    cases List.mem_singleton.mp hr
    rw [guess, fromUtf8Lossy_utf8]
    decide +kernel
  obtain ⟨-, -, -, -, hactive⟩ := bans_need_token _ banned _ hwithout
  exact hactive (.v4 0x01020304) 1000 rfl (fun now hnow => nomatch List.mem_singleton.mp hnow) 500
    (by decide)

/-! ## A request with the token -/

/-- A header as a client writes it. -/
structure Header where
  name : Str
  value : Str
  name_ok : ':' ∉ name ∧ '\r' ∉ name
  value_ok : '\r' ∉ value

def Header.line (h : Header) : Str := h.name ++ ':' :: ' ' :: h.value

/-- The token that it has. -/
def Header.token (h : Header) : Option Str :=
  if eqIgnoreAsciiCase (trim h.name) "authorization".toList then
    (stripWord "Bearer ".toList (trim h.value)).map trim
  else none

/-- A request as a client writes it. -/
def requestText (method path : Str) (headers : List Header) (body : Str) : Str :=
  method ++ ' ' :: path ++ " HTTP/1.1".toList ++ '\r' :: '\n' ::
    ((headers.flatMap fun h => h.line ++ ['\r', '\n']) ++ '\r' :: '\n' :: body)

theorem headerToken_line (h : Header) : headerToken h.line = h.token := by
  have hblank : trimStart (' ' :: h.value) = trimStart h.value :=
    List.dropWhile_cons_of_pos (by decide)
  have htrim : trim (' ' :: h.value) = trim h.value := by rw [trim, trim, hblank]
  rw [headerToken, Header.line, splitOnce_append h.name_ok.1, Header.token]
  simp only [htrim]

theorem not_mem_line (h : Header) : '\r' ∉ h.line := by
  simp [Header.line, h.name_ok.2, h.value_ok]

/-- The last header with a token counts. -/
theorem bearerLoop_headers (headers : List Header) (token : Option Str) (rest : List Str) :
    bearerLoop token (headers.map Header.line ++ [] :: rest) =
      (headers.reverse.findSome? Header.token).or token := by
  induction headers generalizing token with
  | nil => rfl
  | cons h headers ih =>
    have hline : h.line.isEmpty = false := by simp [Header.line]
    rw [List.map_cons, List.cons_append, bearerLoop, hline, if_neg Bool.false_ne_true, ih,
      headerToken_line, List.reverse_cons, List.findSome?_append, Option.or_assoc]
    simp

theorem splitCrlf_headers (headers : List Header) (rest : Str) :
    splitCrlf ((headers.flatMap fun h => h.line ++ ['\r', '\n']) ++ rest) =
      headers.map Header.line ++ splitCrlf rest := by
  induction headers with
  | nil => rfl
  | cons h headers ih =>
    have hfirst := splitCrlf_append (not_mem_line h)
      ((headers.flatMap fun h => h.line ++ ['\r', '\n']) ++ rest)
    rw [ih] at hfirst
    simpa using hfirst

/-- A request reads back: its method, its path, and the token of its last header that has one. -/
theorem parseRequest_requestText {method path : Str} (headers : List Header) (body : Str)
    (hmethod : method ≠ []) (hmethodWord : ∀ c ∈ method, isWhitespace c = false)
    (hpath : path ≠ []) (hpathWord : ∀ c ∈ path, isWhitespace c = false) :
    parseRequest (requestText method path headers body) =
      some ⟨method, path, headers.reverse.findSome? Header.token⟩ := by
  have hcr : ∀ w : Str, (∀ c ∈ w, isWhitespace c = false) → '\r' ∉ w := by
    intro w hw hmem
    exact absurd (hw _ hmem) (by decide)
  have hline : '\r' ∉ method ++ ' ' :: path ++ " HTTP/1.1".toList := by
    simp [hcr method hmethodWord, hcr path hpathWord]
  have hwords : splitWhitespace (method ++ ' ' :: path ++ " HTTP/1.1".toList) =
      [method, path, "HTTP/1.1".toList] := by
    rw [List.append_assoc, List.cons_append, splitWhitespace_append_blank hmethod hmethodWord]
    have hlast : splitWhitespace (path ++ " HTTP/1.1".toList) =
        path :: splitWhitespace "HTTP/1.1".toList :=
      splitWhitespace_append_blank hpath hpathWord "HTTP/1.1".toList
    rw [hlast]
    rfl
  rw [parseRequest, requestText, splitCrlf_append hline, splitCrlf_headers]
  simp only [hwords]
  rw [splitCrlf, bearerLoop_headers, Option.or_none]

/-- The route lifts the ban that it names, and tells whether there was one. -/
theorem unbanRoute_of_parse {ip : IpAddr} {ipStr : Str} (hip : parseIpAddr ipStr = some ip)
    (c : Control) :
    ((unbanRoute c ipStr).1.status = "200 OK" ↔ ip ∈ c.quarantine.table) ∧
    (∀ ip', (unbanRoute c ipStr).2.quarantine.table.lookup ip' =
      if ip' = ip then none else c.quarantine.table.lookup ip') ∧
    (unbanRoute c ipStr).2.metrics.quarantineManualUnbans =
      c.metrics.quarantineManualUnbans + 1 ∧
    (unbanRoute c ipStr).2.metrics.authFailures = c.metrics.authFailures := by
  have hlookup : ∀ ip', (c.quarantine.manualUnban ip).2.table.lookup ip' =
      if ip' = ip then none else c.quarantine.table.lookup ip' :=
    fun _ => Quarantine.lookup_manualUnban
  have hfound : (c.quarantine.manualUnban ip).1 = true ↔ ip ∈ c.quarantine.table := by
    rw [Quarantine.manualUnban, ← AList.lookup_isSome]
    split
    · next hsome => exact iff_of_true rfl hsome
    · next hnone => exact iff_of_false Bool.false_ne_true hnone
  rw [unbanRoute, hip]
  dsimp only
  generalize c.quarantine.manualUnban ip = answer at hlookup hfound
  obtain ⟨found, q⟩ := answer
  cases found with
  | true => exact ⟨iff_of_true rfl (hfound.mp rfl), hlookup, rfl, rfl⟩
  | false =>
    have hstatus : "404 Not Found" ≠ "200 OK" := by decide
    exact ⟨iff_of_false hstatus fun h => Bool.false_ne_true (hfound.mpr h), hlookup, rfl, rfl⟩

/-- A request to lift a ban that has the token, where one is needed, lifts that ban and no other; it
tells whether there was one. -/
theorem unban_request {authToken : Option Str} {ip : IpAddr} {ipStr body : Str}
    {headers : List Header} {r : Received} (hip : parseIpAddr ipStr = some ip)
    (hword : ∀ c ∈ ipStr, isWhitespace c = false)
    (htoken : ∀ token, authToken = some token → headers.reverse.findSome? Header.token = some token)
    (hr : r.bytes = utf8 (requestText "POST".toList ("/quarantine/unban/".toList ++ ipStr) headers
      body)) (c : Control) (g : Gauges) :
    let answer := serveOne authToken c g r
    (answer.1.status = "200 OK" ↔ ip ∈ c.quarantine.table) ∧
    (∀ ip', answer.2.quarantine.table.lookup ip' =
      if ip' = ip then none else c.quarantine.table.lookup ip') ∧
    answer.2.metrics.quarantineManualUnbans = c.metrics.quarantineManualUnbans + 1 ∧
    answer.2.metrics.authFailures = c.metrics.authFailures := by
  have hparse : parseRequest (fromUtf8Lossy r.bytes) = some
      ⟨"POST".toList, "/quarantine/unban/".toList ++ ipStr,
        headers.reverse.findSome? Header.token⟩ := by
    rw [hr, fromUtf8Lossy_utf8]
    refine parseRequest_requestText headers body (by decide) (not_isWhitespace_of_all rfl) nofun
      fun ch hch => ?_
    rcases List.mem_append.mp hch with hroute | hch
    · exact not_isWhitespace_of_all (w := "/quarantine/unban/".toList) rfl ch hroute
    · exact hword ch hch
  have hauthorized : authorized authToken ⟨"POST".toList, "/quarantine/unban/".toList ++ ipStr,
      headers.reverse.findSome? Header.token⟩ = true := by
    cases authToken with
    | none => rfl
    | some token =>
      rw [authorized, htoken token rfl]
      exact tokensMatch_iff.mpr rfl
  have hroute : serveOne authToken c g r = unbanRoute c ipStr := by
    rw [serveOne, hparse]
    simp only [hauthorized, if_true]
    have hget : "POST".toList ≠ "GET".toList := by decide
    rw [route, if_neg fun h => hget h.1, if_pos rfl]
    simp only [stripWord_append]
  have hanswer := unbanRoute_of_parse hip c
  rwa [← hroute] at hanswer

private def secretHeader : Header :=
  ⟨"authorization".toList, "Bearer secret".toList, by decide, by decide⟩

private def secretRequest : Received :=
  ⟨utf8 (requestText "POST".toList ("/quarantine/unban/".toList ++ "1.2.3.4".toList)
    [secretHeader] []), by decide⟩

/-- The token lifts it. -/
theorem unban_request_secret :
    let answer := serveOne (some "secret".toList) banned ⟨0, 0, []⟩ secretRequest
    answer.1.status = "200 OK" ∧ answer.2.quarantine.table.lookup (.v4 0x01020304) = none := by
  have hip : parseIpAddr "1.2.3.4".toList = some (.v4 0x01020304) := by decide
  have htoken : ∀ token, some "secret".toList = some token →
      [secretHeader].reverse.findSome? Header.token = some token := by
    rintro token ⟨⟩
    decide
  obtain ⟨hstatus, hlookup, -⟩ := unban_request hip (not_isWhitespace_of_all rfl) htoken
    (show secretRequest.bytes = _ from rfl) banned ⟨0, 0, []⟩
  exact ⟨hstatus.mpr (by decide), hlookup _⟩

end ActiveDefense.Firewall
