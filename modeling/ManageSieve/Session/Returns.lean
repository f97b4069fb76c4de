import ManageSieve.Rfc5804.Standing
import ManageSieve.Session.Open

/-!
# Every resume returns

The loops inside `resume` have no counter: they move from state to state, take lines off a buffer
and resume the coroutines they hold. Each of them has a rank that its turns lower, so it ends, and
in the states that are reached it ends on an answer, not on an expectation that failed.

`ManagesieveSessionOpen.safe_standing` carries the invariant of authentication through the session;
`ManagesieveSessionOpen.resume_returns` is the result.
-/

namespace ManageSieve

open Coroutine

variable {ε : Type*}

/-! ## The reply to a cancellation -/

namespace ManagesieveAuthenticate

/-- The loop of `sawCancellationReply`, a line at a time. -/
def sawCancellationLoop : Loop Bytes (Bool × Bytes) where
  turn buf :=
    match ManagesieveLine.parse buf with
    | .error _ => .done (true, buf)
    | .ok none => .done (decide (maxResponse < buf.length), buf)
    | .ok (some (.completion _, consumed)) => .done (true, buf.drop consumed)
    | .ok (some (.data _, consumed)) => .again (buf.drop consumed)
  rank := List.length
  rank_lt {buf buf'} h := by
    rcases hline : ManagesieveLine.parse buf with err | _ | ⟨line | completion, consumed⟩ <;>
      simp only [hline] at h
    · cases h
    · cases h
    · cases h
      have hpos := lineParser.pos hline
      have hle := lineParser.le_length hline
      rw [List.length_drop]
      omega
    · cases h

theorem run_sawCancellationLoop (buf : Bytes) :
    sawCancellationLoop.run buf = sawCancellationReply buf := by
  induction buf using sawCancellationReply.induct with
  | case1 buf err hline =>
    rw [sawCancellationReply, hline]
    exact Loop.run_done _ (by simp only [sawCancellationLoop, hline])
  | case2 buf hline =>
    rw [sawCancellationReply, hline]
    exact Loop.run_done _ (by simp only [sawCancellationLoop, hline])
  | case3 buf completion consumed hline =>
    rw [sawCancellationReply, hline]
    exact Loop.run_done _ (by simp only [sawCancellationLoop, hline])
  | case4 buf line consumed hline ih =>
    have hturn : sawCancellationLoop.turn buf = .again (buf.drop consumed) := by
      simp only [sawCancellationLoop, hline]
    rw [Loop.run_again _ hturn, ih]
    conv_rhs => rw [sawCancellationReply, hline]

end ManagesieveAuthenticate

/-! ## The session -/

namespace ManagesieveSessionOpen

theorem safe_greeting : ManagesieveGreetingGet.machine.Safe fun _ => True :=
  ManagesieveResponseRead.safe.mapDone ManagesieveGreetingGet.finish

theorem safe_startTls : ManagesieveStartTls.machine.Safe fun _ => True :=
  ManagesieveCommandSend.safe.mapDone ManagesieveStartTls.finish

/-- What holds between two resumes: authentication, once it began, stands where it can be resumed.
-/
def Standing (self : ManagesieveSessionOpen ε) : Prop :=
  ∀ auth, self.state = .auth auth → auth.Standing ⟨true, true⟩

/-- An answer, and where the session stands if it is a request. -/
def Settled (r : SessionAnswer ε) : Prop :=
  match r.1 with
  | .yielded _ => Standing r.2
  | .complete _ => True
  | .panicked _ => False

/-- A turn settles, or leads on to where the session may stand. -/
def Steps : Step ε → Prop
  | .done r => Settled r
  | .again s => Standing s.1

theorem steps_turnAuth (self : ManagesieveSessionOpen ε) (arg : Option Bytes) :
    Steps (self.turnAuth arg) := by
  unfold turnAuth wantsAuth
  rcases self.sasl with _ | sasl
  · trivial
  · dsimp only
    split_ifs
    · trivial
    · rintro _ ⟨⟩
      exact .start sasl

theorem steps_turnGreeting (self : ManagesieveSessionOpen ε) (greeting : ManagesieveGreetingGet)
    (arg : Option Bytes) : Steps (self.turnGreeting greeting arg) := by
  unfold turnGreeting
  rcases hr : ManagesieveGreetingGet.machine.resume greeting arg with
    ⟨y | (err | capabilities) | msg, greeting'⟩
  · rintro _ ⟨⟩
  · trivial
  · dsimp only
    split_ifs
    · trivial
    · rintro _ ⟨⟩
    · exact steps_turnAuth _ arg
  · exact absurd hr (safe_greeting.ne_panicked trivial arg msg greeting')

theorem steps_turnStartTls (self : ManagesieveSessionOpen ε) (starttls : ManagesieveStartTls)
    (arg : Option Bytes) : Steps (self.turnStartTls starttls arg) := by
  unfold turnStartTls
  rcases hr : ManagesieveStartTls.machine.resume starttls arg with
    ⟨y | (err | _) | msg, starttls'⟩
  · rintro _ ⟨⟩
  · trivial
  · rintro _ ⟨⟩
  · exact absurd hr (safe_startTls.ne_panicked trivial arg msg starttls')

theorem steps_turnGreetingTls (self : ManagesieveSessionOpen ε) (greeting : ManagesieveGreetingGet)
    (arg : Option Bytes) : Steps (self.turnGreetingTls greeting arg) := by
  unfold turnGreetingTls
  rcases hr : ManagesieveGreetingGet.machine.resume greeting arg with
    ⟨y | (err | capabilities) | msg, greeting'⟩
  · rintro _ ⟨⟩
  · trivial
  · exact steps_turnAuth _ arg
  · exact absurd hr (safe_greeting.ne_panicked trivial arg msg greeting')

theorem steps_turnAuthenticate (lib : Libraries) (self : ManagesieveSessionOpen ε)
    {auth : ManagesieveAuthenticate ε} (h : auth.Standing ⟨true, true⟩) (arg : Option Bytes) :
    Steps (self.turnAuthenticate lib auth arg) := by
  unfold turnAuthenticate
  rcases ManagesieveAuthenticate.resume_standing lib h arg with
    ⟨y, next, hr, hnext⟩ | ⟨err | capabilities, next, hr⟩ <;> rw [hr]
  · rintro _ ⟨⟩
    exact hnext
  · trivial
  · trivial

theorem steps_turn (lib : Libraries) {self : ManagesieveSessionOpen ε} (h : Standing self)
    (arg : Option Bytes) : Steps (turn lib (self, arg)) := by
  unfold turn
  dsimp only
  cases hs : self.state with
  | connect =>
    dsimp only [turnConnect]
    split_ifs
    · trivial
    · rintro _ ⟨⟩
  | greeting greeting => exact steps_turnGreeting self greeting arg
  | startTls starttls => exact steps_turnStartTls self starttls arg
  | upgraded => rintro _ ⟨⟩
  | greetingTls greeting => exact steps_turnGreetingTls self greeting arg
  | auth auth => exact steps_turnAuthenticate lib self (h auth hs) arg

theorem settled_resume (lib : Libraries) {self : ManagesieveSessionOpen ε} (h : Standing self)
    (arg : Option Bytes) : Settled ((machine lib).resume self arg) := by
  refine (loop lib).run_post (P := fun s r => Standing s.1 → Settled r) ?_ ?_ (self, arg) h
  · rintro ⟨self, arg⟩ r hturn h
    have := steps_turn lib h arg
    rwa [show turn lib (self, arg) = _ from hturn] at this
  · rintro ⟨self, arg⟩ s' r hturn ih h
    have := steps_turn lib h arg
    rw [show turn lib (self, arg) = _ from hturn] at this
    exact ih this

/-- The coroutine never unwinds. -/
theorem safe_standing (lib : Libraries) : (machine lib).Safe (Standing (ε := ε)) where
  returns {self} h arg := by
    have := settled_resume lib h arg
    unfold Settled at this
    rcases hr : ((machine lib).resume self arg).1 with y | r | msg <;> rw [hr] at this
    · rfl
    · rfl
    · cases this
  keeps {self arg y next} h hr := by
    have := settled_resume lib h arg
    rwa [hr] at this

/-- **Every resume returns.** In every state that authentication or a session reaches, whatever its
resumes carried, and in every state of the response reader, a resume ends after a bounded number of
turns on a request or on a final value; so does the loop that waits for the reply to a
cancellation. -/
theorem resume_returns (lib : Libraries) :
    (∀ (sasl : Sasl ε) (opts : ManagesieveAuthenticateOptions) (self : ManagesieveAuthenticate ε),
        (ManagesieveAuthenticate.machine lib).Reached (.new sasl opts) self →
          (ManagesieveAuthenticate.loop lib).Returns self) ∧
      (∀ (transport : ManagesieveSessionTransport) (sasl : Option (Sasl ε))
          (opts : ManagesieveSessionOpenOptions) (self : ManagesieveSessionOpen ε),
        (machine lib).Reached (new transport sasl opts) self → (loop lib).Returns self) ∧
      (∀ self, ManagesieveResponseRead.loop.Returns self) ∧
      ∀ buf, ∃ n ≤ buf.length, ManagesieveAuthenticate.sawCancellationLoop.Takes n buf
        (ManagesieveAuthenticate.sawCancellationReply buf) := by
  refine ⟨fun sasl opts self hreached => ?_, fun transport sasl opts self hreached => ?_,
    fun self => ?_, fun buf => ?_⟩
  · have hsafe := ManagesieveAuthenticate.safe_standing (ε := ε) lib opts
    exact hsafe.loop_returns (fun _ _ => rfl) (hsafe.reached (.start sasl) hreached)
  · have hsafe := safe_standing (ε := ε) lib
    have hstart : Standing (new transport sasl opts) := by
      rintro _ ⟨⟩
    exact hsafe.loop_returns (fun _ _ => rfl) (hsafe.reached hstart hreached)
  · exact ManagesieveResponseRead.safe.loop_returns (fun _ _ => rfl) trivial
  · have := ManagesieveAuthenticate.sawCancellationLoop.exists_takes buf
    rwa [ManagesieveAuthenticate.run_sawCancellationLoop] at this

/-- A session whose first resume already carries the end of the stream. -/
theorem resume_returns_eof :
    (loop (ε := Unit) .standard).Returns
      { new (.tcp "localhost" 4190) none ⟨true, false⟩ with state := .greeting .new } := by
  have hresume : (machine .standard).resume (new (ε := Unit) (.tcp "localhost" 4190) none
      ⟨true, false⟩) (some []) = (.yielded (.wantsTcpConnect "localhost" 4190),
        { new (.tcp "localhost" 4190) none ⟨true, false⟩ with state := .greeting .new }) :=
    resume_of_done rfl
  exact (resume_returns .standard).2.1 _ _ _ _ (.resume .start hresume)

end ManagesieveSessionOpen

end ManageSieve
