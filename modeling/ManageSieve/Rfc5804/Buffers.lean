import ManageSieve.Ceiling
import ManageSieve.Rfc5804.Standing

/-!
# What the buffers hold

A server cannot make the buffers grow: whenever a read is asked for, what is buffered is within the
ceiling and holds nothing complete, so that a buffer never holds more than the ceiling and one read.
`ManagesieveResponseRead.run_held` says so of the reader; the main result here,
`ManagesieveAuthenticate.buffers_bounded`, adds the exchange of challenges, whose buffer keeps what
a read went past across the writes.
-/

namespace ManageSieve

open Coroutine Reactor

variable {ε : Type*}

namespace ManagesieveAuthenticate

open Exchange

/-- What holds before every resume of a run: in the middle of the exchange the buffer holds no more
than the ceiling and the last read, what the resume carries included. -/
inductive Bounded (opts : ManagesieveAuthenticateOptions)
    (es : List (Event UInt8 ManagesieveYield)) : ManagesieveAuthenticate ε → Option Bytes → Prop
  | start (sasl : Sasl ε) (arg : Option Bytes) : Bounded opts es (new sasl opts) arg
  | exchanging (s : Phase ε × Bytes) (arg : Option Bytes) :
      (s.2 ++ arg.getD []).length ≤ maxResponse + Machine.lastRead es →
        Bounded opts es (embed opts s) arg
  | refreshing (s : Phase ε × Bytes) (capability : ManagesieveCapabilityGet) (arg : Option Bytes) :
      Bounded opts es { ended opts s with state := .capability capability } arg

/-- The coroutine is in the middle of the exchange: it reads challenges, or the reply to its
cancellation. -/
def IsReading (self : ManagesieveAuthenticate ε) : Prop :=
  (∃ pending, self.state = .read pending) ∨ ∃ error, self.state = .abort error

/-- A pause in the middle of the exchange waits with an incomplete line, within the ceiling. -/
def Starved (pause : Pause (ManagesieveAuthenticate ε) (Return ε)) : Prop :=
  ∀ s, pause = .waiting s → s.IsReading →
    s.buf.length ≤ maxResponse ∧ ManagesieveLine.parse s.buf = .ok none

theorem embed_buf (opts : ManagesieveAuthenticateOptions) (s : Phase ε × Bytes) :
    (embed opts s).buf = s.2 := by
  rcases s with ⟨m | ⟨m, error⟩, buf⟩ <;> rfl

theorem not_isReading_refreshing (self : ManagesieveAuthenticate ε)
    (capability : ManagesieveCapabilityGet) :
    ¬ IsReading { self with state := .capability capability } := by
  rintro (⟨pending, h⟩ | ⟨error, h⟩) <;> cases h

/-- **What a resume keeps** of the buffer. -/
theorem keeps_bounded (lib : Libraries) (opts : ManagesieveAuthenticateOptions) :
    (machine (ε := ε) lib).Keeps (fun _ => True) (Bounded opts) fun _ => Starved := by
  intro es self arg h
  have hends : ∀ r s, Starved (.finished r s : Pause (ManagesieveAuthenticate ε) (Return ε)) := by
    rintro r s _ ⟨⟩
  cases h with
  | start sasl arg =>
    cases hopen : opening sasl with
    | error err =>
      rw [resume_new_error hopen]
      exact hends _ _
    | ok payload =>
      rw [resume_new hopen]
      exact .exchanging _ none (Nat.zero_le _)
  | exchanging s arg hlen =>
    rw [resume_embed]
    rcases hr : (client lib).machine.resume s arg with ⟨(_ | w) | (err | _) | msg, s'⟩
    · obtain ⟨hnone, hle⟩ := Client.resume_read hr
      refine ⟨?_, fun c _ => .exchanging s' (some c) ?_⟩
      · rintro _ ⟨⟩ -
        rw [embed_buf]
        exact ⟨hle, hnone⟩
      · rw [Machine.lastRead_fed, List.length_append]
        exact Nat.add_le_add_right hle _
    · have hlt := Client.resume_write hr
      refine .exchanging s' none ?_
      rw [Machine.lastRead_yielded, Option.getD_none, List.append_nil]
      exact hlt.le.trans hlen
    · exact hends _ _
    · simp only [wrap, finish]
      split_ifs
      · exact .refreshing s' _ none
      · exact hends _ _
    · exact absurd hr (Client.resume_ne_panicked s s' arg msg)
  | refreshing s capability arg =>
    have hnests := nests_capability lib (ended_wantsRead opts s)
    rcases hr : ManagesieveCapabilityGet.machine.resume capability arg with ⟨y | r | msg, next⟩
    · rw [hnests.resume_yielded trivial hr]
      cases y with
      | wantsRead =>
        refine ⟨?_, fun c _ => .refreshing s next (some c)⟩
        rintro _ ⟨⟩ hreading
        exact absurd hreading (not_isReading_refreshing _ _)
      | wantsWrite bytes => exact .refreshing s next none
    · rw [hnests.resume_complete trivial hr]
      exact hends _ _
    · have := ManagesieveCapabilityGet.safe.returns (s := capability) trivial arg
      rw [hr] at this
      cases this

/-- What the buffer holds in the middle of an exchange. -/
theorem run_bounded {lib : Libraries} {sasl : Sasl ε} {opts : ManagesieveAuthenticateOptions}
    {es : List (Event UInt8 ManagesieveYield)} {s s' : ManagesieveAuthenticate ε}
    {arg : Option Bytes} (h : (machine lib).Run (new sasl opts) es s arg) (hs : s.IsReading) :
    (s.buf ++ arg.getD []).length ≤ maxResponse + Machine.lastRead es ∧
      ((machine lib).resume s arg = (.yielded .wantsRead, s') →
        s'.buf.length ≤ maxResponse ∧ ManagesieveLine.parse s'.buf = .ok none) := by
  have hbounded := h.keeps (keeps_bounded lib opts) (.start sasl none)
  refine ⟨?_, fun hr => ?_⟩
  · cases hbounded with
    | start sasl arg =>
      rcases hs with ⟨pending, hs⟩ | ⟨error, hs⟩ <;> cases hs
    | exchanging s arg hlen =>
      rw [embed_buf]
      exact hlen
    | refreshing s capability arg => exact absurd hs (not_isReading_refreshing _ _)
  · apply h.keeps_read (keeps_bounded lib opts) (.start sasl none) hr rfl s' rfl
    -- a request for a read leaves the coroutine in the middle of the exchange
    cases hbounded with
    | start sasl arg =>
      rcases hs with ⟨pending, hs⟩ | ⟨error, hs⟩ <;> cases hs
    | exchanging s arg hlen =>
      rw [resume_embed] at hr
      rcases hc : (client lib).machine.resume s arg with ⟨(_ | w) | (err | _) | msg, s''⟩ <;>
        rw [hc] at hr
      · cases hr
        rcases s'' with ⟨m | ⟨m, error⟩, buf⟩
        · exact Or.inl ⟨_, rfl⟩
        · exact Or.inr ⟨_, rfl⟩
      · cases hr
      · cases hr
      · simp only [wrap, finish] at hr
        split_ifs at hr <;> cases hr
      · cases hr
    | refreshing s capability arg => exact absurd hs (not_isReading_refreshing _ _)

/-- **A hostile server cannot grow the buffers.** In every run of the reader, and of the exchange
while it reads challenges or the reply to its cancellation, the buffer never holds more than the
ceiling and the last read; and whenever a read is asked for, no more than the ceiling, and nothing
complete. -/
theorem buffers_bounded (lib : Libraries) (sasl : Sasl ε) (opts : ManagesieveAuthenticateOptions) :
    (∀ es s s' arg, ManagesieveResponseRead.machine.Run .new es s arg →
      (s.buf ++ arg.getD []).length ≤ maxResponse + Machine.lastRead es ∧
        (ManagesieveResponseRead.machine.resume s arg = (.yielded .wantsRead, s') →
          s'.buf.length ≤ maxResponse ∧ ManagesieveResponse.parse s'.buf = .ok none)) ∧
      ∀ es s s' arg, (machine lib).Run (new sasl opts) es s arg → s.IsReading →
        (s.buf ++ arg.getD []).length ≤ maxResponse + Machine.lastRead es ∧
          ((machine lib).resume s arg = (.yielded .wantsRead, s') →
            s'.buf.length ≤ maxResponse ∧ ManagesieveLine.parse s'.buf = .ok none) :=
  ⟨fun _ _ _ _ h => ManagesieveResponseRead.run_held h, fun _ _ _ _ h hs => run_bounded h hs⟩

/-- An incomplete reply to the greeting of a reader, and the first read of an exchange. -/
theorem buffers_bounded_first :
    let sasl : Sasl Unit := ⟨.cramMd5, fun _ => .yielded .wantsRead⟩
    (asBytes "OK").length ≤ maxResponse + (asBytes "OK").length ∧
      ManagesieveResponse.parse (asBytes "OK") = .ok none ∧
      ManagesieveLine.parse (embed ⟨false, false⟩ (firstPhase sasl ⟨false, false⟩ none, [])).buf =
        .ok none := by
  intro sasl
  have hstart : ManagesieveResponseRead.machine.Run .new
      [.yielded .wantsRead, .fed (asBytes "OK")] .new (some (asBytes "OK")) :=
    .read _ .start (ManagesieveResponseRead.resume_none []) rfl
  have hread : ManagesieveResponseRead.machine.resume .new (some (asBytes "OK")) =
      (.yielded .wantsRead, ⟨false, asBytes "OK"⟩) := by decide +kernel
  have hopen : opening sasl = .ok none := rfl
  have hrun : (machine .standard).Run (new sasl ⟨false, false⟩) _ _ none :=
    .yield .start (resume_new hopen none) rfl
  have hasks : (machine .standard).resume
      (embed ⟨false, false⟩ (firstPhase sasl ⟨false, false⟩ none, [])) none =
        (.yielded .wantsRead, embed ⟨false, false⟩ (firstPhase sasl ⟨false, false⟩ none, [])) := by
    have hnone : (client (ε := Unit) .standard).parser.parse [] = .ok none := by
      change ManagesieveLine.parse [] = .ok none
      decide +kernel
    have hlook := Client.look_none (q := firstPhase sasl ⟨false, false⟩ none) hnone
    rw [resume_embed, Client.machine_resume_of_ne (by simp)]
    change wrap _ ((client .standard).look _ []) = _
    rw [hlook]
    rfl
  have h := buffers_bounded .standard sasl ⟨false, false⟩
  have hreader := h.1 _ _ ⟨false, asBytes "OK"⟩ _ hstart
  exact ⟨hreader.1, (hreader.2 hread).2, ((h.2 _ _ _ _ hrun (Or.inl ⟨_, rfl⟩)).2 hasks).2⟩

end ManagesieveAuthenticate

end ManageSieve
