import ManageSieve.Foundations.Reach
import ManageSieve.Rfc5804.Exchange

/-!
# Where AUTHENTICATE stands

The states that `ManagesieveAuthenticate` reaches, whatever its resumes carry: its first one, those
in the middle of the exchange, and those that read the capabilities again (`Standing`). In none of
them a resume unwinds (`ManagesieveAuthenticate.safe_standing`): the credentials are there as long
as they were not taken, and the cause of a cancellation is there as long as it was not reported.
-/

namespace ManageSieve

open Coroutine Reactor

variable {ε : Type*}

/-! ## The base coroutines -/

/-- The reader returns, in every state. -/
theorem ManagesieveResponseRead.safe : machine.Safe fun _ => True where
  returns {s} _ arg := by
    refine loop.run_post (P := fun _ r => r.1.returns = true) (fun t r ht => ?_)
      (fun _ _ _ _ h => h) (s, arg)
    obtain ⟨⟨wantsRead, buf⟩, arg⟩ := t
    cases wantsRead with
    | true =>
      cases ht
      rfl
    | false =>
      rcases arg with _ | _ | ⟨b, data⟩
      · cases ht
      · cases ht
        rfl
      · simp only [loop, turn, Bool.false_eq_true, if_false] at ht
        rcases hp : ManagesieveResponse.parse (buf ++ b :: data) with
          err | _ | ⟨response, consumed⟩ <;> rw [hp] at ht
        · cases ht
          rfl
        · dsimp only at ht
          split_ifs at ht
          cases ht
          rfl
        · cases ht
          rfl
  keeps _ _ := trivial

theorem ManagesieveCommandSend.safe : machine.Safe fun _ => True where
  returns {s} _ arg := by
    rcases s with ⟨_ | bytes, read⟩
    · exact ManagesieveResponseRead.safe.returns trivial arg
    · rfl
  keeps _ _ := trivial

theorem ManagesieveCapabilityGet.safe : machine.Safe fun _ => True :=
  ManagesieveCommandSend.safe.mapDone finish

/-! ## The exchange -/

namespace ManagesieveAuthenticate

open Exchange

/-- The states that the coroutine stands in between two resumes. -/
inductive Standing (opts : ManagesieveAuthenticateOptions) : ManagesieveAuthenticate ε → Prop
  | start (sasl : Sasl ε) : Standing opts (new sasl opts)
  | exchanging (s : Phase ε × Bytes) : Standing opts (embed opts s)
  | refreshing (s : Phase ε × Bytes) (capability : ManagesieveCapabilityGet) :
      Standing opts { ended opts s with state := .capability capability }

theorem ended_wantsRead (opts : ManagesieveAuthenticateOptions) (s : Phase ε × Bytes) :
    (ended opts s).wantsRead = false := by
  rcases s with ⟨m | ⟨m, error⟩, buf⟩ <;> rfl

/-- **What a resume answers** in the states that are reached: a request that leads to another one of
them, or a final value. -/
theorem resume_standing (lib : Libraries) {opts : ManagesieveAuthenticateOptions}
    {self : ManagesieveAuthenticate ε} (h : Standing opts self) (arg : Option Bytes) :
    (∃ y next, (machine lib).resume self arg = (.yielded y, next) ∧ Standing opts next) ∨
      ∃ r next, (machine lib).resume self arg = (.complete r, next) := by
  cases h with
  | start sasl =>
    cases hopen : opening sasl with
    | error err => exact Or.inr ⟨_, _, resume_new_error hopen arg⟩
    | ok payload => exact Or.inl ⟨_, _, resume_new hopen arg, .exchanging _⟩
  | exchanging s =>
    rcases hr : (client lib).machine.resume s arg with ⟨y | (err | _) | msg, s'⟩
    · exact Or.inl ⟨_, _, by rw [resume_embed, hr]; rfl, .exchanging s'⟩
    · exact Or.inr ⟨_, _, by rw [resume_embed, hr]; rfl⟩
    · rw [resume_embed, hr]
      simp only [wrap, finish]
      split_ifs
      · exact Or.inl ⟨_, _, rfl, .refreshing s' _⟩
      · exact Or.inr ⟨_, _, rfl⟩
    · exact absurd hr (Client.resume_ne_panicked s s' arg msg)
  | refreshing s capability =>
    have hnests := nests_capability lib (ended_wantsRead opts s)
    rcases hr : ManagesieveCapabilityGet.machine.resume capability arg with ⟨y | r | msg, next⟩
    · exact Or.inl ⟨_, _, hnests.resume_yielded trivial hr, .refreshing s next⟩
    · exact Or.inr ⟨_, _, hnests.resume_complete trivial hr⟩
    · exact absurd hr (ManagesieveCapabilityGet.safe.ne_panicked trivial arg msg next)

/-- The coroutine never unwinds. -/
theorem safe_standing (lib : Libraries) (opts : ManagesieveAuthenticateOptions) :
    (machine lib).Safe (Standing (ε := ε) opts) where
  returns h arg := by
    rcases resume_standing lib h arg with ⟨y, next, hr, -⟩ | ⟨r, next, hr⟩ <;> rw [hr] <;> rfl
  keeps h hr := by
    rcases resume_standing lib h _ with ⟨y, next, hr', hnext⟩ | ⟨r, next, hr'⟩ <;>
      rw [hr] at hr' <;> cases hr'
    exact hnext

end ManagesieveAuthenticate

end ManageSieve
