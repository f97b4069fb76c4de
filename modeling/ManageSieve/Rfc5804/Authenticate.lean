import ManageSieve.Rfc5804.Capability

/-!
# The AUTHENTICATE coroutine

`authenticate.rs`: the coroutine that carries a SASL mechanism over AUTHENTICATE. Unlike the other
commands it answers before the response is complete, so it reads its buffer one logical line at a
time and keeps what a read went past across its writes. `ManagesieveAuthenticate.turn` is one turn
of the loop in `resume`, state by state.
-/

namespace ManageSieve

open Coroutine

/-- Options of an AUTHENTICATE exchange. -/
structure ManagesieveAuthenticateOptions where
  /-- Inline the initial response of the mechanism with the command. -/
  initialResponse : Bool
  /-- Read the capabilities again once authentication succeeds. -/
  ensureCapabilities : Bool
  deriving DecidableEq

/-- Failure causes of an AUTHENTICATE exchange; `mechanism` stands for the variants of the single
mechanisms, `ε` being the sum of their errors. -/
inductive ManagesieveAuthenticateError (ε : Type*)
  | rejected (completion : ManagesieveCompletion)
  | unsupportedMechanism (mechanism : SaslMechanism)
  | unexpectedOk
  | invalidChallenge
  | invalidBase64
  | mechanism (err : ε)
  | capability (err : ManagesieveCapabilityGetError)
  | parseResponse (err : ManagesieveResponseParseError)
  | send (err : ManagesieveCommandSendError)
  deriving DecidableEq

variable {ε : Type*}

/-! ## The mechanism -/

/-- A running mechanism: its credentials, and what it was resumed with so far. -/
structure Mechanism (ε : Type*) where
  sasl : Sasl ε
  history : List SaslArg

/-- Whether the crate frames a mechanism: all of them but the two Kerberos relays. -/
def SaslMechanism.isFramed : SaslMechanism → Bool
  | .gssapi | .gs2Krb5 | .gs2Krb5Plus => false
  | _ => true

/-- The payload that a step of a mechanism wants written, if any. -/
def saslStep : SaslCoroutineState ε → Except ε (Option Bytes)
  | .yielded (.wantsWrite payload) => .ok (some payload)
  | .yielded .wantsRead => .ok none
  | .complete (.ok ()) => .ok none
  | .complete (.error err) => .error err

namespace Mechanism

/-- Build the mechanism that the credentials describe. -/
def new (sasl : Sasl ε) : Except (ManagesieveAuthenticateError ε) (Mechanism ε) :=
  if sasl.mechanism.isFramed then .ok ⟨sasl, []⟩
  else .error (.unsupportedMechanism sasl.mechanism)

/-- Advance the mechanism. -/
def resume (self : Mechanism ε) (arg : SaslArg) :
    Except (ManagesieveAuthenticateError ε) (Option Bytes) × Mechanism ε :=
  let self := { self with history := self.history ++ [arg] }
  match saslStep (self.sasl.answer self.history) with
  | .ok payload => (.ok payload, self)
  | .error err => (.error (.mechanism err), self)

end Mechanism

/-! ## The coroutine -/

namespace ManagesieveAuthenticate

/-- The states of the coroutine. -/
inductive State (ε : Type*)
  | start
  | write (bytes : Bytes) (pending : Option Bytes)
  | read (pending : Option Bytes)
  | cancel (error : Option (ManagesieveAuthenticateError ε))
  | abort (error : Option (ManagesieveAuthenticateError ε))
  | capability (capability : ManagesieveCapabilityGet)

end ManagesieveAuthenticate

/-- I/O-free AUTHENTICATE coroutine. -/
structure ManagesieveAuthenticate (ε : Type*) where
  state : ManagesieveAuthenticate.State ε
  sasl : Option (Sasl ε)
  mechanism : Option (Mechanism ε)
  buf : Bytes
  wantsRead : Bool
  capabilities : ManagesieveCapabilities
  opts : ManagesieveAuthenticateOptions

namespace ManagesieveAuthenticate

/-- What the coroutine ends on. -/
abbrev Return (ε : Type*) := Except (ManagesieveAuthenticateError ε) ManagesieveCapabilities

/-- A coroutine that runs the mechanism `sasl` describes. -/
def new (sasl : Sasl ε) (opts : ManagesieveAuthenticateOptions) : ManagesieveAuthenticate ε :=
  ⟨.start, some sasl, none, [], false, .default, opts⟩

/-- Advance the mechanism one step. -/
def resumeSasl (self : ManagesieveAuthenticate ε) (arg : SaslArg) :
    Except (ManagesieveAuthenticateError ε) (Option Bytes) × ManagesieveAuthenticate ε :=
  match self.mechanism with
  | none => (.ok none, self)
  | some mechanism =>
    ((mechanism.resume arg).1, { self with mechanism := some (mechanism.resume arg).2 })

/-- Read one logical line out of the buffer, or ask for more. -/
def takeLine (self : ManagesieveAuthenticate ε) :
    Except (ManagesieveAuthenticateError ε) (Option ManagesieveLine) × ManagesieveAuthenticate ε :=
  match ManagesieveLine.parse self.buf with
  | .error err => (.error (.parseResponse err), self)
  | .ok none =>
    if maxResponse < self.buf.length then (.error (.send .responseTooLarge), self)
    else (.ok none, { self with wantsRead := true })
  | .ok (some (line, consumed)) => (.ok (some line), { self with buf := self.buf.drop consumed })

/-- The loop of `saw_cancellation_reply`: whether the reply has arrived, or whatever came instead is
past reading, and the rest of the buffer. -/
def sawCancellationReply (buf : Bytes) : Bool × Bytes :=
  match _h : ManagesieveLine.parse buf with
  | .error _ => (true, buf)
  | .ok none => (decide (maxResponse < buf.length), buf)
  | .ok (some (.completion _, consumed)) => (true, buf.drop consumed)
  | .ok (some (.data _, consumed)) => sawCancellationReply (buf.drop consumed)
termination_by buf.length
decreasing_by
  have hpos := lineParser.pos _h
  have hle := lineParser.le_length _h
  rw [List.length_drop]
  omega

/-- Hand over the final server data that may ride in the SASL response code. -/
def feedFinalData (lib : Libraries) (self : ManagesieveAuthenticate ε)
    (code : Option ManagesieveResponseCode) :
    Except (ManagesieveAuthenticateError ε) (Option Bytes) × ManagesieveAuthenticate ε :=
  match code with
  | some (.sasl data) =>
    match lib.base64.decode data with
    | none => (.error .invalidBase64, self)
    | some data => self.resumeSasl (.input data)
  | _ => (.ok none, self)

/-- Decide what to do once the server ended the exchange. -/
def complete (lib : Libraries) (self : ManagesieveAuthenticate ε)
    (completion : ManagesieveCompletion) (pending : Bool) :
    Except (ManagesieveAuthenticateError ε) (Option (State ε)) × ManagesieveAuthenticate ε :=
  if completion.status ≠ .ok then (.error (.rejected completion), self)
  else if pending then (.error .unexpectedOk, self)
  else
    match self.feedFinalData lib completion.code with
    | (.error err, self) => (.error err, self)
    | (.ok _, self) =>
      match self.resumeSasl .done with
      | (.error err, self) => (.error err, self)
      | (.ok _, self) =>
        (.ok (if self.opts.ensureCapabilities then some (.capability .new) else none), self)

/-- The payload that answers a challenge: the one still pending, or what the mechanism says. -/
def answerChallenge (lib : Libraries) (self : ManagesieveAuthenticate ε) (pending : Option Bytes)
    (challenge : Bytes) :
    Except (ManagesieveAuthenticateError ε) (Option Bytes) × ManagesieveAuthenticate ε :=
  match pending with
  | some payload => (.ok (some payload), self)
  | none =>
    match lib.base64.decode challenge with
    | none => (.error .invalidBase64, self)
    | some challenge => self.resumeSasl (.input challenge)

/-- What a turn decides. -/
abbrev Step (ε : Type*) :=
  Turn (ManagesieveAuthenticate ε × Option Bytes) (Answer (ManagesieveAuthenticate ε) (Return ε))

/-- A turn in `State::Start`. -/
def turnStart (lib : Libraries) (self : ManagesieveAuthenticate ε) (arg : Option Bytes) : Step ε :=
  match self.sasl with
  | none => .done (.panicked "credentials taken twice", self)
  | some sasl =>
    match Mechanism.new sasl with
    | .error err => .done (.complete (.error err), { self with sasl := none })
    | .ok mechanism =>
      match resumeSasl { self with sasl := none, mechanism := some mechanism } .none with
      | (.error err, self) => .done (.complete (.error err), self)
      | (.ok payload, self) =>
        let inline := self.opts.initialResponse && mechanism.sasl.mechanism ≠ .login
        let (initialResponse, pending) := if inline then (payload, none) else (none, payload)
        let cmd : ManagesieveAuthenticateCommand := ⟨mechanism.sasl.mechanism, initialResponse⟩
        .again ({ self with state := .write (cmd.toBytes lib) pending }, arg)

/-- What a turn in `State::Read` does with a line of the server. -/
def turnLine (lib : Libraries) (self : ManagesieveAuthenticate ε) (pending : Option Bytes)
    (line : ManagesieveLine) : Step ε :=
  match line with
  | .data line =>
    match line.string 0 with
    | none => .done (.complete (.error .invalidChallenge), self)
    | some challenge =>
      match self.answerChallenge lib pending challenge with
      | (.ok payload, self) =>
        .again ({ self with state := .write (clientResponse lib (payload.getD [])) none }, none)
      | (.error err, self) => .again ({ self with state := .cancel (some err) }, none)
  | .completion completion =>
    match self.complete lib completion pending.isSome with
    | (.error err, self) => .done (.complete (.error err), self)
    | (.ok (some next), self) => .again ({ self with state := next }, none)
    | (.ok none, self) =>
      .done (.complete (.ok self.capabilities), { self with capabilities := .default })

/-- A turn in `State::Read`. -/
def turnRead (lib : Libraries) (self : ManagesieveAuthenticate ε) (pending : Option Bytes)
    (arg : Option Bytes) : Step ε :=
  let self := { self with state := .read none }
  if arg = some [] then .done (.complete (.error (.send .eof)), self)
  else
    -- a resume that carries nothing still looks at the buffer first
    match takeLine { self with buf := self.buf ++ arg.getD [] } with
    | (.error err, self) => .done (.complete (.error err), self)
    | (.ok none, self) => .again ({ self with state := .read pending }, none)
    | (.ok (some line), self) => self.turnLine lib pending line

/-- A turn in `State::Abort`. -/
def turnAbort (self : ManagesieveAuthenticate ε) (error : Option (ManagesieveAuthenticateError ε))
    (arg : Option Bytes) : Step ε :=
  let self := { self with state := .abort none, buf := self.buf ++ arg.getD [] }
  -- the end of the stream ends the wait rather than replacing the cause
  let (seen, buf) := if arg = some [] then (true, self.buf) else sawCancellationReply self.buf
  let self := { self with buf }
  if !seen then .again ({ self with state := .abort error, wantsRead := true }, none)
  else
    match error with
    | none => .done (.panicked "cancellation cause taken twice", self)
    | some err => .done (.complete (.error err), self)

/-- A turn in `State::Capability`. -/
def turnCapability (self : ManagesieveAuthenticate ε) (capability : ManagesieveCapabilityGet)
    (arg : Option Bytes) : Step ε :=
  let (out, capability) := ManagesieveCapabilityGet.machine.resume capability arg
  let self := { self with state := .capability capability }
  match out with
  | .yielded y => .done (.yielded y, self)
  | .panicked msg => .done (.panicked msg, self)
  | .complete (.error err) => .done (.complete (.error (.capability err)), self)
  | .complete (.ok capabilities) => .done (.complete (.ok capabilities), self)

/-- One turn of the loop of `resume`. -/
def turn (lib : Libraries) (s : ManagesieveAuthenticate ε × Option Bytes) : Step ε :=
  let (self, arg) := s
  if self.wantsRead then .done (.yielded .wantsRead, { self with wantsRead := false })
  else
    match self.state with
    | .start => self.turnStart lib arg
    | .write bytes pending =>
      .done (.yielded (.wantsWrite bytes), { self with state := .read pending })
    | .read pending => self.turnRead lib pending arg
    | .cancel error =>
      .done (.yielded (.wantsWrite cancellation), { self with state := .abort error })
    | .abort error => self.turnAbort error arg
    | .capability capability => self.turnCapability capability arg

/-! ## What a turn can change -/

/-- The step of a mechanism changes the mechanism only. -/
theorem resumeSasl_frame (self : ManagesieveAuthenticate ε) (arg : SaslArg) :
    ∃ mechanism, (self.resumeSasl arg).2 = { self with mechanism } := by
  unfold resumeSasl
  split
  · exact ⟨self.mechanism, rfl⟩
  · exact ⟨_, rfl⟩

theorem answerChallenge_frame (lib : Libraries) (self : ManagesieveAuthenticate ε)
    (pending : Option Bytes) (challenge : Bytes) :
    ∃ mechanism, (self.answerChallenge lib pending challenge).2 = { self with mechanism } := by
  unfold answerChallenge
  split
  · exact ⟨self.mechanism, rfl⟩
  · split
    · exact ⟨self.mechanism, rfl⟩
    · exact self.resumeSasl_frame _

theorem feedFinalData_frame (lib : Libraries) (self : ManagesieveAuthenticate ε)
    (code : Option ManagesieveResponseCode) :
    ∃ mechanism, (self.feedFinalData lib code).2 = { self with mechanism } := by
  unfold feedFinalData
  split
  · split
    · exact ⟨self.mechanism, rfl⟩
    · exact self.resumeSasl_frame _
  · exact ⟨self.mechanism, rfl⟩

theorem complete_frame (lib : Libraries) (self : ManagesieveAuthenticate ε)
    (completion : ManagesieveCompletion) (pending : Bool) :
    ∃ mechanism, (self.complete lib completion pending).2 = { self with mechanism } := by
  unfold complete
  obtain ⟨m, hm⟩ := self.feedFinalData_frame lib completion.code
  split_ifs
  · exact ⟨self.mechanism, rfl⟩
  · exact ⟨self.mechanism, rfl⟩
  · rcases hf : self.feedFinalData lib completion.code with ⟨err | _, self'⟩ <;> rw [hf] at hm
    · exact ⟨m, hm⟩
    · obtain rfl : self' = { self with mechanism := m } := hm
      obtain ⟨m', hm'⟩ := resumeSasl_frame { self with mechanism := m } .done
      dsimp only
      rcases hd : resumeSasl { self with mechanism := m } .done with ⟨err | _, self''⟩ <;>
        rw [hd] at hm' <;> exact ⟨m', hm'⟩

/-- The only state that follows a completion is the one that reads the capabilities. -/
theorem complete_eq_some {lib : Libraries} {self : ManagesieveAuthenticate ε}
    {completion : ManagesieveCompletion} {pending : Bool} {next : State ε}
    (h : (self.complete lib completion pending).1 = .ok (some next)) :
    next = .capability .new := by
  unfold complete at h
  split_ifs at h
  rcases hf : self.feedFinalData lib completion.code with ⟨err | _, self'⟩ <;> rw [hf] at h
  · cases h
  · dsimp only at h
    rcases hd : self'.resumeSasl .done with ⟨err | _, self''⟩ <;> rw [hd] at h
    · cases h
    · dsimp only at h
      cases hc : self''.opts.ensureCapabilities <;> rw [hc] at h <;> cases h
      rfl

/-- Bounds the writes made one after the other: a line of the buffer is consumed for each. -/
def budget (self : ManagesieveAuthenticate ε) : ℕ :=
  match self.state with
  | .start => self.buf.length + 3
  | .write _ _ => self.buf.length + 3
  | .read _ => self.buf.length + 2
  | .cancel _ => 1
  | .abort _ => 0
  | .capability capability => ManagesieveCapabilityGet.machine.budget capability

/-- Lowered by every turn that is not the last one. -/
def rank (self : ManagesieveAuthenticate ε) : ℕ :=
  if self.wantsRead then 0
  else
    match self.state with
    | .start | .read _ => 2
    | _ => 1

/-- What a turn does to the two measures. -/
def Lowers (self : ManagesieveAuthenticate ε) (arg : Option Bytes) : Step ε → Prop
  | .again (self', arg') =>
    self'.rank < self.rank ∧ (arg = none → arg' = none ∧ self'.budget ≤ self.budget)
  | .done (.yielded y, self') => arg = none → y.isRead = false → self'.budget < self.budget
  | .done _ => True

theorem lowers_turnStart {lib : Libraries} {self : ManagesieveAuthenticate ε}
    (hs : self.state = .start) (hw : self.wantsRead = false) (arg : Option Bytes) :
    self.Lowers arg (self.turnStart lib arg) := by
  have hrank : self.rank = 2 := by simp [rank, hw, hs]
  unfold turnStart
  rcases self.sasl with _ | sasl
  · trivial
  · dsimp only
    rcases Mechanism.new sasl with err | mechanism
    · trivial
    · dsimp only
      obtain ⟨m, hm⟩ := resumeSasl_frame
        { self with sasl := none, mechanism := some mechanism } .none
      rcases hr : resumeSasl { self with sasl := none, mechanism := some mechanism } .none with
        ⟨err | payload, self'⟩ <;> rw [hr] at hm
      · trivial
      · obtain rfl : self' = { self with sasl := none, mechanism := m } := hm
        refine ⟨?_, fun harg => ⟨harg, ?_⟩⟩
        · simp [rank, hw, hs]
        · simp [budget, hs]

/-- A line is answered, ends the coroutine, or leads on to the capabilities. -/
theorem turnLine_lowers {lib : Libraries} {self : ManagesieveAuthenticate ε}
    (hw : self.wantsRead = false) (pending : Option Bytes) (line : ManagesieveLine) :
    match self.turnLine lib pending line with
    | .again (self', arg) => arg = none ∧ self'.rank ≤ 1 ∧ self'.budget ≤ self.buf.length + 3
    | .done (.yielded _, _) => False
    | .done _ => True := by
  unfold turnLine
  cases line with
  | data line =>
    dsimp only
    rcases line.string 0 with _ | challenge
    · trivial
    · dsimp only
      obtain ⟨m, hm⟩ := answerChallenge_frame lib self pending challenge
      rcases ha : self.answerChallenge lib pending challenge with ⟨err | payload, self'⟩ <;>
        rw [ha] at hm
      all_goals
        obtain rfl : self' = { self with mechanism := m } := hm
        exact ⟨rfl, by simp [rank, hw], by simp [budget]⟩
  | completion completion =>
    dsimp only
    obtain ⟨m, hm⟩ := complete_frame lib self completion pending.isSome
    have hnext := @complete_eq_some _ lib self completion pending.isSome
    rcases ha : self.complete lib completion pending.isSome with ⟨err | _ | next, self'⟩ <;>
      rw [ha] at hm hnext
    · trivial
    · trivial
    · obtain rfl : self' = { self with mechanism := m } := hm
      rw [hnext rfl]
      refine ⟨rfl, by simp [rank, hw], ?_⟩
      exact Nat.le_trans (show 1 ≤ 3 by decide) (Nat.le_add_left _ _)

theorem lowers_turnRead {lib : Libraries} {self : ManagesieveAuthenticate ε}
    {pending : Option Bytes} (hs : self.state = .read pending) (hw : self.wantsRead = false)
    (arg : Option Bytes) : self.Lowers arg (self.turnRead lib pending arg) := by
  have hrank : self.rank = 2 := by simp [rank, hw, hs]
  have hbudget : self.budget = self.buf.length + 2 := by simp [budget, hs]
  unfold turnRead
  by_cases heof : arg = some []
  · rw [if_pos heof]
    trivial
  rw [if_neg heof]
  dsimp only [takeLine]
  rcases hp : ManagesieveLine.parse (self.buf ++ arg.getD []) with err | _ | ⟨line, consumed⟩
  · trivial
  · dsimp only
    by_cases hlen : maxResponse < (self.buf ++ arg.getD []).length
    · rw [if_pos hlen]
      trivial
    · rw [if_neg hlen]
      refine ⟨by simp [rank, hw, hs], ?_⟩
      rintro rfl
      exact ⟨rfl, by simp [budget, hs]⟩
  · dsimp only
    have hline := @turnLine_lowers _ lib
      { self with state := .read none, buf := (self.buf ++ arg.getD []).drop consumed }
      hw pending line
    rcases hl : turnLine lib
        { self with state := .read none, buf := (self.buf ++ arg.getD []).drop consumed }
        pending line with ⟨self', arg'⟩ | ⟨y | r | msg, self'⟩ <;> rw [hl] at hline
    · obtain ⟨rfl, hr, hb⟩ := hline
      refine ⟨by omega, ?_⟩
      rintro rfl
      have hpos := lineParser.pos hp
      have hle := lineParser.le_length hp
      simp only [Option.getD_none, List.append_nil, List.length_drop] at hb hle
      exact ⟨rfl, by omega⟩
    · exact hline.elim
    · trivial
    · trivial

theorem lowers_turnAbort {self : ManagesieveAuthenticate ε}
    {error : Option (ManagesieveAuthenticateError ε)} (hs : self.state = .abort error)
    (hw : self.wantsRead = false) (arg : Option Bytes) :
    self.Lowers arg (self.turnAbort error arg) := by
  unfold turnAbort
  dsimp only
  rcases (if arg = some [] then (true, self.buf ++ arg.getD [])
    else sawCancellationReply (self.buf ++ arg.getD [])) with ⟨_ | _, buf⟩
  · exact ⟨by simp [rank, hw, hs], fun _ => ⟨rfl, by simp [budget]⟩⟩
  · cases error <;> trivial

theorem lowers_turnCapability {self : ManagesieveAuthenticate ε}
    {capability : ManagesieveCapabilityGet} (hs : self.state = .capability capability)
    (arg : Option Bytes) : self.Lowers arg (self.turnCapability capability arg) := by
  unfold turnCapability
  rcases hr : ManagesieveCapabilityGet.machine.resume capability arg with
    ⟨y | (err | capabilities) | msg, capability'⟩
  · rintro rfl hy
    have := ManagesieveCapabilityGet.machine.budget_lt hr hy
    simpa [budget, hs] using this
  · trivial
  · trivial
  · trivial

theorem lowers_turn (lib : Libraries) (self : ManagesieveAuthenticate ε) (arg : Option Bytes) :
    self.Lowers arg (turn lib (self, arg)) := by
  unfold turn
  dsimp only
  cases hw : self.wantsRead
  · rw [if_neg Bool.false_ne_true]
    cases hs : self.state with
    | start => exact lowers_turnStart hs hw arg
    | write bytes pending =>
      intro _ _
      simp [budget, hs]
    | read pending => exact lowers_turnRead hs hw arg
    | cancel error =>
      intro _ _
      simp [budget, hs]
    | abort error => exact lowers_turnAbort hs hw arg
    | capability capability => exact lowers_turnCapability hs arg
  · rw [if_pos rfl]
    intro _ hy
    cases hy

/-- The loop of `resume`. -/
def loop (lib : Libraries) : Loop (ManagesieveAuthenticate ε × Option Bytes)
    (Answer (ManagesieveAuthenticate ε) (Return ε)) where
  turn := turn lib
  rank s := s.1.rank
  rank_lt {s s'} h := by
    have := lowers_turn lib s.1 s.2
    rw [h] at this
    exact this.1

/-- Advance the coroutine one step. -/
def resume (lib : Libraries) (self : ManagesieveAuthenticate ε) (arg : Option Bytes) :
    Answer (ManagesieveAuthenticate ε) (Return ε) :=
  (loop lib).run (self, arg)

/-- The coroutine as a machine. -/
def machine (lib : Libraries) :
    Machine (ManagesieveAuthenticate ε) UInt8 ManagesieveYield (Return ε) where
  resume := resume lib
  reads := ManagesieveYield.isRead
  budget := budget
  budget_lt {s y s'} h hy := by
    refine Loop.run_lt (l := loop lib) (fun t t' ht => ?_) (fun t t' arg ht => ?_) h
    · have := lowers_turn lib t none
      rw [show turn lib (t, none) = _ from ht] at this
      exact this rfl hy
    · have := lowers_turn lib t none
      rw [show turn lib (t, none) = _ from ht] at this
      exact this.2 rfl

/-- A resume whose first turn is its last one. -/
theorem resume_of_done {lib : Libraries} {self : ManagesieveAuthenticate ε} {arg : Option Bytes}
    {r : Answer (ManagesieveAuthenticate ε) (Return ε)}
    (h : (loop lib).turn (self, arg) = .done r) :
    (machine lib).resume self arg = r :=
  Loop.run_done _ h

/-- A resume whose first turn goes on is a resume from where that turn leads. -/
theorem resume_of_again {lib : Libraries} {self self' : ManagesieveAuthenticate ε}
    {arg arg' : Option Bytes}
    (h : (loop lib).turn (self, arg) = .again (self', arg')) :
    (machine lib).resume self arg = (machine lib).resume self' arg' :=
  Loop.run_again _ h

end ManagesieveAuthenticate

end ManageSieve
