import ActiveDefense.Lib.Run
import ActiveDefense.Nsm.Control
import ActiveDefense.Nsm.Ebpf

/-!
# The process as a transition system

Everything that changes the kernel map, as one action each: a (re)start over whatever the persisted
file holds, an automatic block, a control line, and the two halves of a sweep, between which other
actions may run. `act_cases` says what an action can do to the map.
-/

namespace ActiveDefense.Nsm

/-- An action on the map, with the readings it takes. -/
inductive Action where
  | start (persist : Option FileRead) (now : UInt64)
  | autoBlock (env : Env) (ip : Ipv4Addr) (ttlNs : Nat) (prefixLen : Option UInt8)
  | control (env : Env) (line : Str)
  | sweepCollect (now : UInt64)
  | sweepRemove
deriving Repr

/-- The running process: its handle, and the keys a sweep has collected and not yet removed. -/
structure System (M : Type) where
  capture : XdpCapture M
  collected : List (PrefixKey 32)

/-- The block an action asks for: address, TTL, prefix length, and whether the observe gate is
bypassed. -/
def Action.blockRequest : Action → Option (Env × Ipv4Addr × Nat × Option UInt8 × Bool)
  | .autoBlock env ip ttlNs prefixLen => some (env, ip, ttlNs, prefixLen, false)
  | .control env line =>
    match parseRequest line with
    | .block ip prefixLen ttlSecs => some (env, ip, fromSecs ttlSecs, prefixLen, true)
    | _ => none
  | _ => none

section
variable {M : Type} [PrefixMap M 32 UInt64]

/-- The effect of an action; only a start does something before the process runs. -/
def act (config : AutoBlockConfig) (iface : Str) : Option (System M) → Action → Option (System M)
  | _, .start persist now => some ⟨start config iface persist now, []⟩
  | none, _ => none
  | some s, .autoBlock env ip ttlNs prefixLen =>
    some { s with capture := (s.capture.blockIpv4 env ip ttlNs prefixLen).2 }
  | some s, .control env line =>
    some { s with capture := (handleControlCommand s.capture env line).2 }
  | some s, .sweepCollect now => some { s with collected := expiredKeys s.capture.blocklist now }
  | some s, .sweepRemove =>
    some
      { capture := { s.capture with blocklist := removeKeys s.capture.blocklist s.collected }
        collected := [] }

/-- One step of the system. -/
def SystemStep (config : AutoBlockConfig) (iface : Str) (s : Option (System M)) (a : Action)
    (t : Option (System M)) : Prop :=
  t = act config iface s a

/-- What an action does to the map of a running process: restart it, carry out a block, or leave
only entries that were there. -/
theorem act_cases [LawfulPrefixMap M] (config : AutoBlockConfig) (iface : Str) (s : System M)
    (a : Action) :
    ∃ t, act config iface (some s) a = some t ∧
      ((∃ persist now, a = .start persist now ∧ t.capture = start config iface persist now) ∨
        (∃ env ip ttlNs prefixLen bypass,
          a.blockRequest = some (env, ip, ttlNs, prefixLen, bypass) ∧
          t.capture = (s.capture.blockIpv4Inner env ip ttlNs prefixLen bypass).2) ∨
        (a.blockRequest = none ∧ (∀ persist now, a ≠ .start persist now) ∧
          t.capture.config = s.capture.config ∧
          ∀ e ∈ PrefixMap.entries t.capture.blocklist,
            e ∈ PrefixMap.entries s.capture.blocklist)) := by
  cases a with
  | start persist now => exact ⟨_, rfl, .inl ⟨persist, now, rfl, rfl⟩⟩
  | autoBlock env ip ttlNs prefixLen =>
    exact ⟨_, rfl, .inr (.inl ⟨env, ip, ttlNs, prefixLen, false, rfl, rfl⟩)⟩
  | sweepCollect now => exact ⟨_, rfl, .inr (.inr ⟨rfl, by simp, rfl, fun e he => he⟩)⟩
  | sweepRemove =>
    exact ⟨_, rfl, .inr (.inr ⟨rfl, by simp, rfl, fun e he => mem_of_mem_removeKeys he⟩)⟩
  | control env line =>
    refine ⟨_, rfl, .inr ?_⟩
    simp only [Action.blockRequest, handleControlCommand]
    obtain ⟨ip, prefixLen, ttlSecs, hreq, h⟩ | ⟨ip, prefixLen, hreq, h⟩ | h :=
      s.capture.answer_cases env (parseRequest line)
    · exact .inl ⟨env, ip, fromSecs ttlSecs, prefixLen, true, by rw [hreq], h⟩
    · refine .inr ⟨by rw [hreq], by simp, ?_, fun e he => ?_⟩
      · rw [h, XdpCapture.unblockIpv4_config]
      · rw [h, XdpCapture.unblockIpv4_blocklist] at he
        exact (mem_remove_getD.mp he).1
    · cases hreq : parseRequest line with
      | block ip prefixLen ttlSecs =>
        exact .inl ⟨env, ip, fromSecs ttlSecs, prefixLen, true, rfl, rfl⟩
      | _ =>
        rw [hreq] at h
        exact .inr ⟨rfl, by simp, by rw [h], fun e he => by rwa [h] at he⟩

/-- Every action keeps the configuration the process was started with. -/
theorem act_config {config : AutoBlockConfig} {iface : Str} {s : Option (System M)} {a : Action}
    {t : System M} (hs : ∀ s' ∈ s, s'.capture.config = config)
    (h : act config iface s a = some t) : t.capture.config = config := by
  cases a with
  | start persist now =>
    cases s <;> (cases h; rfl)
  | autoBlock | control | sweepCollect | sweepRemove =>
    cases s with
    | none => cases h
    | some s' =>
      cases h
      simpa [XdpCapture.blockIpv4, handleControlCommand] using hs s' rfl

end

end ActiveDefense.Nsm
