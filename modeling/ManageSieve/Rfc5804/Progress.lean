import ManageSieve.Foundations.Progress
import ManageSieve.Rfc5804.Lockstep
import ManageSieve.Session.Patience

/-!
# Commands that get an answer

A command against a server that answers it with one response, whenever it likes and cut into reads
in any way: every run ends, and unless the response did not fit the buffer, it was read whole and
nothing else was (`ManagesieveCommandSend.completes_command`). AUTHENTICATE never deadlocks against
a server that answers every message (`ManagesieveAuthenticate.progress_authenticate`), although it
can go on for as long as the server sends challenges.
-/

namespace ManageSieve

open Coroutine Dialogue

variable {ε : Type*}

namespace ManagesieveResponseRead

/-- **What the reader does with a part of a response**: it ends on it once it has it whole, asks for
more of it before that, and gives up on it when it does not fit the buffer. -/
theorem resume_of_isResponse {heard a rest : Bytes} (ha : a ≠ [])
    (h : IsResponse (heard ++ a ++ rest)) :
    (rest = [] ∧ ∃ response,
        ManagesieveResponse.parse (heard ++ a) = .ok (some (response, (heard ++ a).length)) ∧
        resume ⟨false, heard⟩ (some a) = (.complete (.ok ⟨response, []⟩), ⟨false, heard ++ a⟩)) ∨
      rest ≠ [] ∧
        (resume ⟨false, heard⟩ (some a) = (.yielded .wantsRead, ⟨false, heard ++ a⟩) ∨
          resume ⟨false, heard⟩ (some a) =
            (.complete (.error .responseTooLarge), ⟨false, heard ++ a⟩)) := by
  obtain ⟨response, hresponse⟩ := h.parse
  have hread := resume_some heard ha
  rcases eq_or_ne rest [] with rfl | hrest
  · rw [List.append_nil] at hresponse
    rw [hresponse] at hread
    dsimp only at hread
    rw [List.drop_length, List.take_length] at hread
    exact Or.inl ⟨rfl, response, hresponse, hread⟩
  · have hparse := responseParser.parse_prefix (List.prefix_append (heard ++ a) rest) hresponse
    have hpos := List.length_pos_iff.2 hrest
    rw [List.length_append, if_neg (by omega), responseParser_parse] at hparse
    rw [hparse] at hread
    dsimp only at hread
    split_ifs at hread
    · exact Or.inr ⟨hrest, Or.inr hread⟩
    · exact Or.inr ⟨hrest, Or.inl hread⟩

end ManagesieveResponseRead

/-! ## Commands -/

namespace ManagesieveCommandSend

variable {R : Type*} (finish : ManagesieveResponseRead.Return → R)

/-- A command and a server that answers it with one response. -/
def parties : Parties ManagesieveCommandSend UInt8 ManagesieveYield R Bytes where
  machine := machine.mapDone finish
  message y := y.written.getD []
  replies _ reply := IsResponse reply

/-- The command gave up on a response that did not fit its buffer. -/
def TooLarge (r : R) : Prop := r = finish (.error .responseTooLarge)

/-- The command waits for the rest of its response, having read `heard` of it. -/
def Awaits (self : ManagesieveCommandSend) (_ : Bytes) (heard : Bytes) : Prop :=
  self = ⟨none, ⟨false, heard⟩⟩

/-- The buffer holds what was read, and nothing else. -/
def Drained (self : ManagesieveCommandSend) (heard : Bytes) : Prop :=
  self = ⟨none, ⟨false, heard⟩⟩

/-- Once the command is written, the coroutine is the reader. -/
theorem resume_mapDone (read : ManagesieveResponseRead) (arg : Option Bytes) :
    (machine.mapDone finish).resume ⟨none, read⟩ arg =
      ((read.resume arg).1.map finish, ⟨none, (read.resume arg).2⟩) := rfl

/-- **A command is in lockstep with its server.** -/
theorem lockstep (bytes : Bytes) : Lockstep (parties finish) (TooLarge finish) (· = new bytes)
    Awaits Drained where
  replies_ne_nil h := h.ne_nil
  starts := by
    rintro s rfl
    exact ⟨rfl, rfl⟩
  asks := by
    rintro s w rfl
    refine ⟨.wantsRead, ⟨none, ⟨false, []⟩⟩, ?_, rfl, rfl⟩
    change (machine.mapDone finish).resume _ none = _
    rw [resume_mapDone, ManagesieveResponseRead.resume_none]
    rfl
  answers := by
    rintro s w heard a rest rfl ha hreply
    change Answers (parties finish) _ _ _ _ _ _ ((machine.mapDone finish).resume _ _)
    rw [resume_mapDone]
    rcases ManagesieveResponseRead.resume_of_isResponse ha hreply with
      ⟨rfl, response, -, hr⟩ | ⟨hrest, hr | hr⟩ <;> rw [hr]
    · exact Or.inr ⟨by rw [List.append_nil], rfl⟩
    · exact ⟨by simpa using hrest, rfl⟩
    · exact Or.inl rfl

/-- A command that ended read its response, and ends on it, unless it did not fit the buffer. -/
theorem ends_of_finished {bytes : Bytes} {c : Config ManagesieveCommandSend UInt8 R Bytes}
    (h : Reachable (parties finish) (new bytes) c) {r : R} {s : ManagesieveCommandSend}
    (hc : c.control = .finished r s) : TooLarge finish r ∨
      ∃ response, ManagesieveResponse.parse c.heard = .ok (some (response, c.heard.length)) ∧
        r = finish (.ok ⟨response, []⟩) ∧ c.unanswered = [] ∧ c.inbox = [] := by
  have hstep := (lockstep finish bytes).inStep rfl h
  rw [InStep, hc] at hstep
  rcases hstep with hex | ⟨hu, hi, hdrained⟩
  · exact Or.inl hex
  · rcases (lockstep finish bytes).finished rfl h hc with
      ⟨t, rfl, hr⟩ | ⟨t, w, heard, a, rest, rfl, ha, hreply, hr⟩
    · cases hr
    · change (machine.mapDone finish).resume _ _ = _ at hr
      rw [resume_mapDone] at hr
      rcases ManagesieveResponseRead.resume_of_isResponse ha hreply with
        ⟨rfl, response, hparse, hread⟩ | ⟨-, hread | hread⟩ <;> rw [hread] at hr <;> cases hr
      · have hheard : heard ++ a = c.heard := congrArg (·.read.buf) (show _ = _ from hdrained)
        rw [hheard] at hparse
        exact Or.inr ⟨response, hparse, rfl, hu, hi⟩
      · exact Or.inl rfl

/-- **Every run of a command ends on its response**, over any server that answers it with one: no
run is infinite, and where neither side can take a step the command ended on what it makes of the
response, which it read to its end and no further, unless the response did not fit the buffer. -/
theorem completes_command (bytes : Bytes) :
    Acc (fun c' c => Step (parties finish) c c') (start (new bytes)) ∧
      ∀ c, Reachable (parties finish) (new bytes) c → (∀ c', ¬ Step (parties finish) c c') →
        ∃ r s, c.control = .finished r s ∧ (TooLarge finish r ∨
          ∃ response, ManagesieveResponse.parse c.heard = .ok (some (response, c.heard.length)) ∧
            r = finish (.ok ⟨response, []⟩) ∧ c.unanswered = [] ∧ c.inbox = []) := by
  obtain ⟨hacc, hends⟩ := (lockstep finish bytes).completes
    (fun _ => ⟨_, isCompletion_ok.isResponse⟩)
    (ManagesieveCommandSend.patient.mapDone finish) rfl (capped_new bytes)
  refine ⟨hacc, fun c hreach hstuck => ?_⟩
  obtain ⟨r, s, hc, -⟩ := hends c hreach hstuck
  exact ⟨r, s, hc, ends_of_finished finish hreach hc⟩

end ManagesieveCommandSend

/-! ## AUTHENTICATE -/

namespace ManagesieveAuthenticate

open Exchange

/-- A message that the coroutine waits to have answered can be. -/
theorem exists_reply (lib : Libraries) (message : Bytes) :
    ∃ reply, (parties (ε := ε) lib (some maxResponse)).replies message reply := by
  refine ⟨asBytes "OK\r\n", ?_, fun _ n hn => ?_⟩
  · unfold Replies
    split_ifs
    · exact isCompletion_ok
    · exact isCompletion_ok.isResponse
    · exact Or.inr isCompletion_ok
  · cases hn
    decide +kernel

/-- **AUTHENTICATE does not deadlock**: in every configuration that it can reach with a server that
answers every message, it ended, or one of the two sides can take a step. -/
theorem progress_authenticate (lib : Libraries) (sasl : Sasl ε)
    (opts : ManagesieveAuthenticateOptions)
    {c : Config (ManagesieveAuthenticate ε) UInt8 (Return ε) Bytes}
    (h : Reachable (parties lib (some maxResponse)) (new sasl opts) c) :
    (∃ r s, c.control = .finished r s) ∨
      ∃ c', Dialogue.Step (parties lib (some maxResponse)) c c' :=
  (lockstep_parties lib opts).progress (fun _ => exists_reply lib _) ⟨sasl, rfl⟩ h

/-- The command was written, and waits to be answered. -/
theorem progress_authenticate_plain :
    let sasl : Sasl Unit := ⟨.plain, fun _ => .complete (.ok ())⟩
    let m : Mechanism Unit := ⟨sasl, [.none]⟩
    ∃ c', Dialogue.Step (parties .standard (some maxResponse))
      (⟨.waiting (embed ⟨true, false⟩ (.reading m none, [])),
        [command .standard sasl ⟨true, false⟩ none], [], []⟩ :
          Config (ManagesieveAuthenticate Unit) UInt8 (Return Unit) Bytes) c' := by
  intro sasl m
  have hstart := @resume_new Unit .standard sasl ⟨true, false⟩ none rfl none
  have hask := @resume_ask Unit .standard ⟨true, false⟩ (.reading m none)
  refine (progress_authenticate .standard sasl ⟨true, false⟩ ?_).resolve_left ?_
  · exact Relation.ReflTransGen.refl.tail (Dialogue.Step.write hstart rfl)
      |>.tail (Dialogue.Step.ask hask rfl)
  · rintro ⟨r, s, h⟩
    cases h

end ManagesieveAuthenticate

end ManageSieve
