import ManageSieve.Rfc5804.Feeding
import ManageSieve.Rfc5804.Standing

/-!
# Cancelling an exchange

A challenge that is not valid base64, or that the mechanism refuses, cancels the exchange: the
coroutine writes `"*"`, waits for the reply, and reports why it gave up. The main result is
`ManagesieveAuthenticate.resume_refused`: from any state that is reached, a refused challenge is
followed by that one write, and whatever the server does next, the coroutine waits for a reply that
is still incomplete or ends on the original cause.
-/

namespace ManageSieve

open Coroutine Reactor

variable {ε : Type*}

/-! ## The client after a cancellation -/

namespace Exchange

variable (lib : Libraries)

/-- A client that still waits for the reply saw no completion. -/
theorem not_completion_of_going {m : Mechanism ε} {error : ManagesieveAuthenticateError ε}
    {q : Phase ε} {b : Bytes}
    (h : ((client lib).consume (.aborting m error) b).verdict = .going q)
    (completion : ManagesieveCompletion) : .completion completion ∉ linesOf b := by
  have hfollow := Client.going_of_close h
  unfold linesOf
  change ((client lib).follow _ (lineParser.items b).1).verdict = _ at hfollow
  generalize (lineParser.items b).1 = items at hfollow
  induction items with
  | nil => simp
  | cons item items ih =>
    rcases item with ⟨line | completion', n⟩
    · simpa using ih hfollow
    · cases hfollow

/-- Waiting for the reply: it is there, or what is buffered is an incomplete line. -/
theorem resume_client_aborting (m : Mechanism ε) (error : ManagesieveAuthenticateError ε)
    (buf : Bytes) (arg : Option Bytes) :
    (∃ rest, (client lib).machine.resume (.aborting m error, buf) arg =
        (.complete (.error error), (.aborting m error, rest))) ∨
      ∃ rest, (client lib).machine.resume (.aborting m error, buf) arg =
          (.yielded .read, (.aborting m error, rest)) ∧
        ManagesieveLine.parse rest = .ok none ∧ rest.length ≤ maxResponse ∧
        ∀ t, ((client lib).consume (.aborting m error) (buf ++ arg.getD [] ++ t)).verdict =
          ((client lib).consume (.aborting m error) (rest ++ t)).verdict := by
  by_cases heof : arg = some []
  · subst heof
    exact Or.inl ⟨buf, rfl⟩
  · have hlooks := (client lib).look_looks (.aborting m error) (buf ++ arg.getD [])
    rw [Client.machine_resume_of_ne heof]
    rw [ManagesieveAuthenticate.look_aborting] at hlooks ⊢
    cases hseen : (ManagesieveAuthenticate.sawCancellationReply (buf ++ arg.getD [])).1 with
    | true => exact Or.inl ⟨_, rfl⟩
    | false =>
      rw [hseen] at hlooks
      obtain ⟨hnone, hlen, n, -, -, hc⟩ := hlooks
      exact Or.inr ⟨_, rfl, hnone, hlen, fun t => by rw [hc t]; rfl⟩

end Exchange

/-! ## The coroutine after a cancellation -/

namespace ManagesieveAuthenticate

open Exchange

/-- What becomes of a cancelled exchange, the bytes `b` having been buffered when it was cancelled:
nothing more is written, the mechanism is left alone, and the run waits for a reply that is
incomplete or ends on the cause. -/
structure Cancelled (mechanism : Option (Mechanism ε)) (error : ManagesieveAuthenticateError ε)
    (b : Bytes) (t : Transcript (ManagesieveAuthenticate ε) UInt8 ManagesieveYield (Return ε)) :
    Prop where
  only_reads : ∀ y ∈ yieldsOf t.events, y = .wantsRead
  left_alone : t.pause.state.mechanism = mechanism
  cause :
    match t.pause with
    | .waiting s =>
      (∀ completion, .completion completion ∉ linesOf (b ++ (fedOf t.events).flatten)) ∧
        ManagesieveLine.parse s.buf = .ok none ∧ s.buf.length ≤ maxResponse
    | .finished r _ => r = .error error
    | .panicked _ _ => False

/-- What holds before every resume of a cancelled exchange. -/
structure Aborting (lib : Libraries) (opts : ManagesieveAuthenticateOptions) (m : Mechanism ε)
    (error : ManagesieveAuthenticateError ε) (b : Bytes) (es : List (Event UInt8 ManagesieveYield))
    (s : ManagesieveAuthenticate ε) (arg : Option Bytes) : Prop where
  only_reads : ∀ y ∈ yieldsOf es, y = .wantsRead
  embedded : ∃ buf, s = embed opts (.aborting m error, buf) ∧
    ∀ t, ((client lib).consume (.aborting m error) (b ++ (fedOf es).flatten ++ t)).verdict =
      ((client lib).consume (.aborting m error) (buf ++ arg.getD [] ++ t)).verdict

/-- **What a resume keeps** of a cancelled exchange. -/
theorem keeps_aborting (lib : Libraries) (opts : ManagesieveAuthenticateOptions) (m : Mechanism ε)
    (error : ManagesieveAuthenticateError ε) (b : Bytes) :
    (machine lib).Keeps (fun _ => True) (Aborting lib opts m error b)
      fun es pause => Cancelled (some m) error b ⟨es, pause, []⟩ := by
  rintro es _ arg ⟨honly, buf, rfl, hverdict⟩
  rw [resume_embed]
  rcases resume_client_aborting lib m error buf arg with
    ⟨rest, hr⟩ | ⟨rest, hr, hnone, hlen, hc⟩ <;> rw [hr]
  · exact ⟨honly, rfl, rfl⟩
  · have hyields : ∀ y ∈ yieldsOf es ++ [.wantsRead], y = .wantsRead := by
      intro y hy
      rcases List.mem_append.1 hy with hy | hy
      · exact honly y hy
      · exact List.mem_singleton.1 hy
    have hreads : (machine (ε := ε) lib).reads .wantsRead = true := rfl
    simp only [wrap, ofRequest, hreads, if_true]
    refine ⟨⟨by simpa using hyields, rfl, fun completion => ?_, hnone, hlen⟩, fun c _ => ⟨?_, ?_⟩⟩
    · -- nothing in what is buffered, so that the client goes on
      have hgoing := (hverdict []).trans (hc [])
      rw [List.append_nil, List.append_nil, Client.consume_none (b := rest) hnone] at hgoing
      simpa using not_completion_of_going lib hgoing completion
    · simpa using hyields
    · refine ⟨rest, rfl, fun t => ?_⟩
      have := hverdict (c ++ t)
      rw [hc] at this
      simpa [List.append_assoc] using this

/-- In `self` a resume with `arg` meets a challenge that is refused for `error`: it is not valid
base64, or the mechanism fails on it. -/
structure MeetsRefused (lib : Libraries) (self : ManagesieveAuthenticate ε) (arg : Option Bytes)
    (error : ManagesieveAuthenticateError ε) : Prop where
  reading : self.state = .read none
  not_eof : arg ≠ some []
  refused : ∃ line n challenge,
    ManagesieveLine.parse (self.buf ++ arg.getD []) = .ok (some (.data line, n)) ∧
      line.string 0 = some challenge ∧
      (lib.base64.decode challenge = none ∧ error = .invalidBase64 ∨
        ∃ data m err, lib.base64.decode challenge = some data ∧ self.mechanism = some m ∧
          m.sasl.answer (m.history ++ [.input data]) = .complete (.error err) ∧
          error = .mechanism err)

/-- A refused challenge is answered with the cancellation. -/
theorem resume_meetsRefused {lib : Libraries} {opts : ManagesieveAuthenticateOptions}
    {self : ManagesieveAuthenticate ε} (hs : Standing opts self) {arg : Option Bytes}
    {error : ManagesieveAuthenticateError ε} (h : MeetsRefused lib self arg error) :
    ∃ m rest, (machine lib).resume self arg =
      (.yielded (.wantsWrite cancellation), embed opts (.aborting m error, rest)) := by
  obtain ⟨hreading, heof, line, n, challenge, hline, hstring, hrefused⟩ := h
  cases hs with
  | start sasl => cases hreading
  | refreshing s capability => cases hreading
  | exchanging s =>
    rcases s with ⟨⟨m, pending⟩ | ⟨m, error'⟩, buf⟩
    swap
    · cases hreading
    obtain rfl : pending = none := by
      cases hreading
      rfl
    rw [resume_embed, Client.machine_resume_of_ne heof,
      Client.look_some (c := client lib) (b := buf ++ arg.getD []) hline]
    rcases hrefused with ⟨hdata, rfl⟩ | ⟨data, m', err, hdata, hm, hanswer, rfl⟩
    · have hd : (client lib).decide (.reading m none) (.data line) =
          .send cancellation (.aborting m .invalidBase64) :=
        decide_invalid lib ⟨challenge, hstring⟩ (by simp [challengeData, hstring, hdata])
      rw [hd]
      exact ⟨m, _, rfl⟩
    · obtain rfl : m = m' := Option.some.inj hm
      have hresume : m.resume (.input data) = (.error (.mechanism err), m.fed [.input data]) :=
        Prod.ext (by rw [Mechanism.resume_fst, hanswer]; rfl) (m.resume_snd _)
      have hd : (client lib).decide (.reading m none) (.data line) =
          .send cancellation (.aborting (m.fed [.input data]) (.mechanism err)) := by
        simp [client, decideReading, hstring, Mechanism.answerChallenge, hdata, hresume]
      rw [hd]
      exact ⟨_, _, rfl⟩

/-- **Cancellation reports the original cause, once.** In every state that is reached, a challenge
that is refused is followed by the cancellation, and nothing else is ever written; the mechanism is
never resumed again; and whatever is fed next, the run waits for a reply that is incomplete or ends
on the cause. -/
theorem resume_refused (lib : Libraries) {sasl : Sasl ε} {opts : ManagesieveAuthenticateOptions}
    {self : ManagesieveAuthenticate ε} (hreached : (machine lib).Reached (new sasl opts) self)
    {arg : Option Bytes} {error : ManagesieveAuthenticateError ε}
    (h : MeetsRefused lib self arg error) :
    ∃ next, (machine lib).resume self arg = (.yielded (.wantsWrite cancellation), next) ∧
      ∀ arg' cs, Cancelled next.mechanism error (next.buf ++ arg'.getD [])
        ((machine lib).drive next arg' cs) := by
  have hs : Standing opts self := (safe_standing lib opts).reached (.start sasl) hreached
  obtain ⟨m, rest, hr⟩ := resume_meetsRefused hs h
  refine ⟨_, hr, fun arg' cs => ?_⟩
  have hstart : Aborting lib opts m error (rest ++ arg'.getD []) []
      (embed opts (.aborting m error, rest)) arg' := ⟨by simp, rest, rfl, by simp⟩
  have hpost := Machine.drive_post (keeps_aborting lib opts m error (rest ++ arg'.getD []))
    (fun c (_ : c ∈ cs) => trivial) hstart
  exact ⟨hpost.only_reads, hpost.left_alone, hpost.cause⟩

/-- A challenge that is not valid base64, met with the reply to the cancellation already buffered.
-/
theorem resume_refused_base64 :
    let sasl : Sasl Unit := ⟨.cramMd5, fun _ => .yielded .wantsRead⟩
    let opts : ManagesieveAuthenticateOptions := ⟨false, false⟩
    ∃ next, (machine .standard).resume (embed opts (firstPhase sasl opts none, []))
        (some (asBytes "\"!\"\r\nNO\r\n")) = (.yielded (.wantsWrite cancellation), next) ∧
      ∀ arg' cs, Cancelled next.mechanism .invalidBase64 (next.buf ++ arg'.getD [])
        ((machine .standard).drive next arg' cs) := by
  intro sasl opts
  have hopen : opening sasl = .ok none := rfl
  have hreached : (machine .standard).Reached (new sasl opts)
      (embed opts (firstPhase sasl opts none, [])) := .resume .start (resume_new hopen none)
  exact resume_refused .standard hreached ⟨rfl, by decide +kernel, ⟨[.string (asBytes "!")]⟩, 5,
    asBytes "!", by decide +kernel, rfl, Or.inl ⟨by decide +kernel, rfl⟩⟩

end ManagesieveAuthenticate

end ManageSieve
