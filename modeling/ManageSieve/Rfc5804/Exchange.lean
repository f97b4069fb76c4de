import ManageSieve.Foundations.Reactor
import ManageSieve.Rfc5804.Authenticate

/-!
# The exchange behind AUTHENTICATE

What `ManagesieveAuthenticate` does, without its buffer and its reads: once the command is written,
it is a client that answers one line of the server at a time (`Exchange.client`), until a completion
ends the exchange or the reply to its cancellation came. `Exchange.nests_client` connects the two: a
resume of the coroutine is a resume of that client, and after an accepted completion a resume of the
coroutine that reads the capabilities again (`ManagesieveAuthenticate.nests_capability`).
-/

namespace ManageSieve

open Coroutine Reactor

variable {ε : Type*}

/-! ## The mechanism, line by line -/

namespace Mechanism

/-- What answers a challenge: the payload still pending, or what the mechanism says to it. -/
def answerChallenge (lib : Libraries) (self : Mechanism ε) (pending : Option Bytes)
    (challenge : Bytes) :
    Except (ManagesieveAuthenticateError ε) (Option Bytes) × Mechanism ε :=
  match pending with
  | some payload => (.ok (some payload), self)
  | none =>
    match lib.base64.decode challenge with
    | none => (.error .invalidBase64, self)
    | some challenge => self.resume (.input challenge)

/-- The final server data that a response code carries, handed to the mechanism. -/
def feedFinalData (lib : Libraries) (self : Mechanism ε) (code : Option ManagesieveResponseCode) :
    Except (ManagesieveAuthenticateError ε) (Option Bytes) × Mechanism ε :=
  match code with
  | some (.sasl data) =>
    match lib.base64.decode data with
    | none => (.error .invalidBase64, self)
    | some data => self.resume (.input data)
  | _ => (.ok none, self)

/-- Whether the mechanism accepts the end of the exchange. -/
def complete (lib : Libraries) (self : Mechanism ε) (completion : ManagesieveCompletion)
    (pending : Bool) : Except (ManagesieveAuthenticateError ε) Unit × Mechanism ε :=
  if completion.status ≠ .ok then (.error (.rejected completion), self)
  else if pending then (.error .unexpectedOk, self)
  else
    match self.feedFinalData lib completion.code with
    | (.error err, self) => (.error err, self)
    | (.ok _, self) =>
      match self.resume .done with
      | (.error err, self) => (.error err, self)
      | (.ok _, self) => (.ok (), self)

end Mechanism

/-! ## The client -/

namespace Exchange

/-- The phases of the exchange once the command is written. -/
inductive Phase (ε : Type*)
  | reading (mechanism : Mechanism ε) (pending : Option Bytes)
  | aborting (mechanism : Mechanism ε) (error : ManagesieveAuthenticateError ε)

/-- The mechanism that runs. -/
def Phase.mechanism : Phase ε → Mechanism ε
  | .reading mechanism _ => mechanism
  | .aborting mechanism _ => mechanism

/-- What the exchange ends on, before the capabilities are read again. -/
abbrev Result (ε : Type*) := Except (ManagesieveAuthenticateError ε) Unit

/-- What a line of the server is answered with. -/
def decideReading (lib : Libraries) (mechanism : Mechanism ε) (pending : Option Bytes) :
    ManagesieveLine → Decision (Phase ε) Bytes (Result ε)
  | .data line =>
    match line.string 0 with
    | none => .stop (.error .invalidChallenge) (.reading mechanism pending)
    | some challenge =>
      match mechanism.answerChallenge lib pending challenge with
      | (.ok payload, mechanism) =>
        .send (clientResponse lib (payload.getD [])) (.reading mechanism none)
      | (.error err, mechanism) => .send cancellation (.aborting mechanism err)
  | .completion completion =>
    .stop (mechanism.complete lib completion pending.isSome).1
      (.reading (mechanism.complete lib completion pending.isSome).2 pending)

/-- After a cancellation only its reply counts. -/
def decideAborting (mechanism : Mechanism ε) (error : ManagesieveAuthenticateError ε) :
    ManagesieveLine → Decision (Phase ε) Bytes (Result ε)
  | .data _ => .skip (.aborting mechanism error)
  | .completion _ => .stop (.error error) (.aborting mechanism error)

/-- The client side of the exchange. -/
def client (lib : Libraries) :
    Client UInt8 ManagesieveResponseParseError ManagesieveLine (Phase ε) Bytes (Result ε) where
  parser := lineParser
  decide
    | .reading mechanism pending => decideReading lib mechanism pending
    | .aborting mechanism error => decideAborting mechanism error
  onError
    | .reading _ _, err => .error (.parseResponse err)
    | .aborting _ error, _ => .error error
  onOverflow
    | .reading _ _ => .error (.send .responseTooLarge)
    | .aborting _ error => .error error
  onEof
    | .reading _ _ => .error (.send .eof)
    | .aborting _ error => .error error
  ceiling := maxResponse

/-- The requests of the client, as the coroutine makes them. -/
def ofRequest : Request Bytes → ManagesieveYield
  | .read => .wantsRead
  | .write bytes => .wantsWrite bytes

/-- The coroutine in the middle of the exchange. -/
def embed (opts : ManagesieveAuthenticateOptions) : Phase ε × Bytes → ManagesieveAuthenticate ε
  | (.reading mechanism pending, buf) =>
    ⟨.read pending, none, some mechanism, buf, false, .default, opts⟩
  | (.aborting mechanism error, buf) =>
    ⟨.abort (some error), none, some mechanism, buf, false, .default, opts⟩

/-- The coroutine when the exchange is over. -/
def ended (opts : ManagesieveAuthenticateOptions) : Phase ε × Bytes → ManagesieveAuthenticate ε
  | (.reading mechanism _, buf) => ⟨.read none, none, some mechanism, buf, false, .default, opts⟩
  | (.aborting mechanism _, buf) => ⟨.abort none, none, some mechanism, buf, false, .default, opts⟩

/-- What the coroutine does when the exchange ends: an accepted one may be followed
by CAPABILITY. -/
def finish (opts : ManagesieveAuthenticateOptions) (result : Result ε) (s : Phase ε × Bytes) :
    Answer (ManagesieveAuthenticate ε) (ManagesieveAuthenticate.Return ε) :=
  match result with
  | .error err => (.complete (.error err), ended opts s)
  | .ok () =>
    if opts.ensureCapabilities then
      (.yielded (.wantsWrite ManagesieveCapabilityGetCommand.toBytes),
        { ended opts s with state := .capability ⟨none, .new⟩ })
    else (.complete (.ok .default), ended opts s)

end Exchange

/-! ## The coroutine runs the client -/

namespace ManagesieveAuthenticate

open Exchange

variable {lib : Libraries} {self : ManagesieveAuthenticate ε} {m : Mechanism ε}

theorem resumeSasl_eq (h : self.mechanism = some m) (arg : SaslArg) :
    self.resumeSasl arg = ((m.resume arg).1, { self with mechanism := some (m.resume arg).2 }) := by
  simp [resumeSasl, h]

theorem answerChallenge_eq (h : self.mechanism = some m) (pending : Option Bytes)
    (challenge : Bytes) :
    self.answerChallenge lib pending challenge =
      ((m.answerChallenge lib pending challenge).1,
        { self with mechanism := some (m.answerChallenge lib pending challenge).2 }) := by
  cases pending with
  | some payload => rw [answerChallenge, Mechanism.answerChallenge, ← h]
  | none =>
    unfold answerChallenge Mechanism.answerChallenge
    dsimp only
    cases lib.base64.decode challenge with
    | none => rw [← h]
    | some challenge => exact resumeSasl_eq h _

theorem feedFinalData_eq (h : self.mechanism = some m) (code : Option ManagesieveResponseCode) :
    self.feedFinalData lib code =
      ((m.feedFinalData lib code).1,
        { self with mechanism := some (m.feedFinalData lib code).2 }) := by
  obtain ⟨state, sasl, mechanism, buf, wantsRead, capabilities, opts⟩ := self
  obtain rfl : mechanism = some m := h
  rcases code with _ | code
  · rfl
  · cases code with
    | sasl data =>
      unfold feedFinalData Mechanism.feedFinalData
      dsimp only
      cases lib.base64.decode data <;> rfl
    | _ => rfl

/-- The coroutine accepts a completion if the mechanism does. -/
theorem complete_eq (h : self.mechanism = some m) (completion : ManagesieveCompletion)
    (pending : Bool) :
    self.complete lib completion pending =
      (match (m.complete lib completion pending).1 with
        | .error err => .error err
        | .ok () => .ok (if self.opts.ensureCapabilities then some (.capability .new) else none),
        { self with mechanism := some (m.complete lib completion pending).2 }) := by
  unfold complete Mechanism.complete
  by_cases hstatus : completion.status ≠ .ok
  · rw [if_pos hstatus, if_pos hstatus, ← h]
  · rw [if_neg hstatus, if_neg hstatus]
    cases pending with
    | true => simp [← h]
    | false =>
      rw [if_neg Bool.false_ne_true, if_neg Bool.false_ne_true, feedFinalData_eq h]
      rcases m.feedFinalData lib completion.code with ⟨err | _, m'⟩
      · rfl
      · dsimp only
        rw [resumeSasl_eq (m := m') rfl]
        rcases m'.resume .done with ⟨err | _, m''⟩ <;> rfl

/-! ### Reading -/

theorem turn_read {self : ManagesieveAuthenticate ε} {pending : Option Bytes}
    (hs : self.state = .read pending) (hw : self.wantsRead = false) (arg : Option Bytes) :
    (loop lib).turn (self, arg) = self.turnRead lib pending arg := by
  simp [loop, turn, hs, hw]

theorem turn_abort {error : Option (ManagesieveAuthenticateError ε)}
    (hs : self.state = .abort error) (hw : self.wantsRead = false) (arg : Option Bytes) :
    (loop lib).turn (self, arg) = self.turnAbort error arg := by
  simp [loop, turn, hs, hw]

theorem resume_wantsRead (hw : self.wantsRead = true) (arg : Option Bytes) :
    (machine lib).resume self arg = (.yielded .wantsRead, { self with wantsRead := false }) := by
  exact resume_of_done (by simp [loop, turn, hw])

theorem resume_write {bytes : Bytes} {pending : Option Bytes}
    (hs : self.state = .write bytes pending) (hw : self.wantsRead = false) (arg : Option Bytes) :
    (machine lib).resume self arg =
      (.yielded (.wantsWrite bytes), { self with state := .read pending }) := by
  exact resume_of_done (by simp [loop, turn, hs, hw])

theorem resume_cancel {error : Option (ManagesieveAuthenticateError ε)}
    (hs : self.state = .cancel error) (hw : self.wantsRead = false) (arg : Option Bytes) :
    (machine lib).resume self arg =
      (.yielded (.wantsWrite cancellation), { self with state := .abort error }) := by
  exact resume_of_done (by simp [loop, turn, hs, hw])

/-- The coroutine that reads the capabilities writes its command first. -/
theorem resume_capability_new (hs : self.state = .capability .new) (hw : self.wantsRead = false)
    (arg : Option Bytes) :
    (machine lib).resume self arg =
      (.yielded (.wantsWrite ManagesieveCapabilityGetCommand.toBytes),
        { self with state := .capability ⟨none, .new⟩ }) := by
  obtain ⟨state, sasl, mechanism, buf, wantsRead, capabilities, opts⟩ := self
  dsimp only at hs hw
  subst hs hw
  exact resume_of_done rfl

/-! ### The client inside the coroutine -/

/-- What a resume of the coroutine answers when a resume of the client answered `out`. -/
def wrap (opts : ManagesieveAuthenticateOptions)
    (out : Resumed (Request Bytes) (Result ε) × (Phase ε × Bytes)) :
    Answer (ManagesieveAuthenticate ε) (Return ε) :=
  match out with
  | (.yielded r, s) => (.yielded (ofRequest r), embed opts s)
  | (.complete r, s) => finish opts r s
  | (.panicked msg, s) => (.panicked msg, embed opts s)

variable (lib) (opts : ManagesieveAuthenticateOptions)

/-- A line read in the middle of the exchange is answered as the client decides. -/
theorem resume_of_turnLine {m : Mechanism ε} {pending : Option Bytes} {buf rest : Bytes}
    {arg : Option Bytes} {line : ManagesieveLine}
    (h : (loop lib).turn (embed opts (.reading m pending, buf), arg) =
      turnLine lib (ended opts (.reading m pending, rest)) pending line) :
    (machine lib).resume (embed opts (.reading m pending, buf)) arg =
      wrap opts ((client lib).act rest (decideReading lib m pending line)) := by
  have hm : (ended opts (.reading m pending, rest) : ManagesieveAuthenticate ε).mechanism =
      some m := rfl
  cases line with
  | data line =>
    simp only [turnLine, answerChallenge_eq hm] at h
    simp only [decideReading]
    rcases hs : line.string 0 with _ | challenge <;> rw [hs] at h
    · exact resume_of_done h
    · dsimp only at h ⊢
      rcases ha : m.answerChallenge lib pending challenge with ⟨err | payload, m'⟩ <;> rw [ha] at h
      · rw [resume_of_again h, resume_cancel rfl rfl]
        rfl
      · rw [resume_of_again h, resume_write rfl rfl]
        rfl
  | completion completion =>
    simp only [turnLine, complete_eq hm] at h
    simp only [decideReading]
    rcases hc : m.complete lib completion pending.isSome with ⟨err | _, m'⟩ <;> rw [hc] at h
    · exact resume_of_done h
    · have hopts : (ended opts (.reading m pending, rest) : ManagesieveAuthenticate ε).opts =
          opts := rfl
      simp only [hopts] at h
      cases he : opts.ensureCapabilities <;> rw [he] at h
      · rw [resume_of_done h]
        simp [wrap, finish, he, ended, Client.act]
      · rw [resume_of_again h, resume_capability_new rfl rfl]
        simp [wrap, finish, he, ended, Client.act]

/-- In the middle of the exchange the coroutine is the client. -/
theorem resume_reading (m : Mechanism ε) (pending : Option Bytes) (buf : Bytes)
    (arg : Option Bytes) :
    (machine lib).resume (embed opts (.reading m pending, buf)) arg =
      wrap opts ((client lib).machine.resume (.reading m pending, buf) arg) := by
  have hturn : (loop lib).turn (embed opts (.reading m pending, buf), arg) = _ :=
    turn_read rfl rfl arg
  by_cases heof : arg = some []
  · subst heof
    exact resume_of_done hturn
  rw [Client.machine_resume_of_ne heof]
  unfold turnRead at hturn
  rw [if_neg heof] at hturn
  dsimp only [takeLine, embed] at hturn
  rcases hp : ManagesieveLine.parse (buf ++ arg.getD []) with err | _ | ⟨line, consumed⟩ <;>
    rw [hp] at hturn
  · rw [Client.look_error (c := client lib) hp]
    exact resume_of_done hturn
  · rw [Client.look_none (c := client lib) hp]
    dsimp only at hturn
    by_cases hlen : maxResponse < (buf ++ arg.getD []).length
    · rw [if_pos hlen] at hturn
      rw [if_pos (show (client lib).ceiling < _ from hlen)]
      exact resume_of_done hturn
    · rw [if_neg hlen] at hturn
      rw [if_neg (show ¬ (client lib).ceiling < _ from hlen)]
      rw [embed, resume_of_again hturn, resume_wantsRead rfl]
      rfl
  · rw [Client.look_some (c := client lib) hp]
    exact resume_of_turnLine lib opts hturn

/-- The loop that waits for the reply to a cancellation is the client's. -/
theorem look_aborting (m : Mechanism ε) (error : ManagesieveAuthenticateError ε) (buf : Bytes) :
    (client lib).look (.aborting m error) buf =
      (if (sawCancellationReply buf).1 then .complete (.error error) else .yielded .read,
        (.aborting m error, (sawCancellationReply buf).2)) := by
  induction hk : buf.length using Nat.strongRecOn generalizing buf with
  | ind k ih =>
    subst hk
    rw [sawCancellationReply]
    rcases hp : ManagesieveLine.parse buf with err | _ | ⟨line | completion, consumed⟩
    · rw [Client.look_error (c := client lib) hp]
      split <;> simp_all [client]
    · rw [Client.look_none (c := client lib) hp]
      split <;> simp_all [client, apply_ite]
    · have hpos := lineParser.pos hp
      have hle := lineParser.le_length hp
      rw [Client.look_some (c := client lib) hp]
      change (client lib).look (.aborting m error) (buf.drop consumed) = _
      rw [ih _ (by rw [List.length_drop]; omega) _ rfl]
    · rw [Client.look_some (c := client lib) hp]
      split <;> simp_all [client, decideAborting, Client.act]

/-- Waiting for the reply to a cancellation, the coroutine is the client. -/
theorem resume_aborting (m : Mechanism ε) (error : ManagesieveAuthenticateError ε) (buf : Bytes)
    (arg : Option Bytes) :
    (machine lib).resume (embed opts (.aborting m error, buf)) arg =
      wrap opts ((client lib).machine.resume (.aborting m error, buf) arg) := by
  have hturn : (loop lib).turn (embed opts (.aborting m error, buf), arg) = _ :=
    turn_abort rfl rfl arg
  unfold turnAbort at hturn
  by_cases heof : arg = some []
  · subst heof
    simp only [Option.getD_some, List.append_nil, if_true] at hturn
    exact resume_of_done hturn
  rw [Client.machine_resume_of_ne heof, look_aborting]
  simp only [if_neg heof, embed] at hturn
  dsimp only
  cases hr : (sawCancellationReply (buf ++ arg.getD [])).1
  · simp only [hr, Bool.not_false, if_true] at hturn
    rw [embed, resume_of_again hturn, resume_wantsRead rfl]
    rfl
  · simp only [hr, Bool.not_true, Bool.false_eq_true, if_false] at hturn
    exact resume_of_done hturn

/-- A resume of the coroutine in the middle of the exchange is a resume of the client. -/
theorem resume_embed (s : Phase ε × Bytes) (arg : Option Bytes) :
    (machine lib).resume (embed opts s) arg = wrap opts ((client lib).machine.resume s arg) := by
  rcases s with ⟨m | ⟨m, error⟩, buf⟩
  · exact resume_reading lib opts m _ buf arg
  · exact resume_aborting lib opts m error buf arg

/-- **The coroutine runs the client**, and goes on with `finish` when the exchange is over. -/
theorem nests_client : Machine.Nests (client lib).machine (machine lib) ofRequest (embed opts)
    (finish opts) fun _ : Phase ε × Bytes => True where
  reads_into r := by cases r <;> rfl
  keeps _ _ := trivial
  resume_yielded _ h := by rw [resume_embed, h]; rfl
  resume_complete _ h := by rw [resume_embed, h]; rfl
  resume_panicked _ h := by rw [resume_embed, h]; rfl

/-- After an accepted completion the coroutine is the one that reads the capabilities. -/
theorem nests_capability {self : ManagesieveAuthenticate ε} (hw : self.wantsRead = false) :
    Machine.Nests ManagesieveCapabilityGet.machine (machine lib) id
      (fun c => { self with state := .capability c })
      (fun r c => (.complete (r.mapError .capability), { self with state := .capability c }))
      fun _ => True := by
  have hturn : ∀ c arg, (loop lib).turn ({ self with state := .capability c }, arg) =
      turnCapability { self with state := .capability c } c arg := by
    intro c arg
    simp [loop, turn, hw]
  exact
    { reads_into := fun _ => rfl
      keeps := fun _ _ => trivial
      resume_yielded := fun {c arg y c'} _ h => by
        refine resume_of_done ((hturn c arg).trans ?_)
        simp [turnCapability, h]
      resume_complete := fun {c arg r c'} _ h => by
        refine resume_of_done ((hturn c arg).trans ?_)
        cases r <;> simp [turnCapability, h, Except.mapError]
      resume_panicked := fun {c arg msg c'} _ h => by
        refine resume_of_done ((hturn c arg).trans ?_)
        simp [turnCapability, h] }

end ManagesieveAuthenticate

/-! ## The whole run -/

namespace Exchange

/-- What the mechanism says first, unless it is refused or refuses. -/
def opening (sasl : Sasl ε) : Except (ManagesieveAuthenticateError ε) (Option Bytes) :=
  match Mechanism.new sasl with
  | .error err => .error err
  | .ok mechanism => (mechanism.resume .none).1

/-- Whether what the mechanism says first goes out with the command. -/
def inlines (sasl : Sasl ε) (opts : ManagesieveAuthenticateOptions) : Bool :=
  opts.initialResponse && sasl.mechanism ≠ .login

/-- The payload still to be sent once the command is written. -/
def unsent (sasl : Sasl ε) (opts : ManagesieveAuthenticateOptions) (payload : Option Bytes) :
    Option Bytes :=
  if inlines sasl opts then none else payload

/-- The command that opens the exchange. -/
def command (lib : Libraries) (sasl : Sasl ε) (opts : ManagesieveAuthenticateOptions)
    (payload : Option Bytes) : Bytes :=
  ManagesieveAuthenticateCommand.toBytes lib
    ⟨sasl.mechanism, if inlines sasl opts then payload else none⟩

/-- The phase that the command leads to. -/
def firstPhase (sasl : Sasl ε) (opts : ManagesieveAuthenticateOptions) (payload : Option Bytes) :
    Phase ε :=
  .reading ⟨sasl, [.none]⟩ (unsent sasl opts payload)

end Exchange

namespace ManagesieveAuthenticate

open Exchange

variable {lib : Libraries} {sasl : Sasl ε} {opts : ManagesieveAuthenticateOptions}

/-- A mechanism that is framed starts with what it says to its first resume. -/
theorem opening_of_isFramed (h : sasl.mechanism.isFramed = true) :
    opening sasl = ((⟨sasl, []⟩ : Mechanism ε).resume .none).1 := by
  simp [opening, Mechanism.new, h]

theorem opening_of_not_isFramed (h : sasl.mechanism.isFramed = false) :
    opening sasl = .error (.unsupportedMechanism sasl.mechanism) := by
  simp [opening, Mechanism.new, h]

theorem isFramed_of_opening {payload : Option Bytes} (h : opening sasl = .ok payload) :
    sasl.mechanism.isFramed = true := by
  by_contra hf
  rw [opening_of_not_isFramed (Bool.eq_false_iff.2 hf)] at h
  cases h

/-- The mechanism after its first resume. -/
theorem resume_none_snd (sasl : Sasl ε) :
    ((⟨sasl, []⟩ : Mechanism ε).resume .none).2 = ⟨sasl, [.none]⟩ := by
  unfold Mechanism.resume
  dsimp only
  split <;> rfl

theorem turn_new (arg : Option Bytes) :
    (loop lib).turn (new sasl opts, arg) = (new sasl opts).turnStart lib arg := rfl

/-- An exchange that cannot be opened ends at once; the mechanism was resumed if it is framed. -/
theorem resume_new_error {err : ManagesieveAuthenticateError ε} (h : opening sasl = .error err)
    (arg : Option Bytes) :
    (machine lib).resume (new sasl opts) arg =
      (.complete (.error err),
        { new sasl opts with
          sasl := none
          mechanism := if sasl.mechanism.isFramed then some ⟨sasl, [.none]⟩ else none }) := by
  refine resume_of_done ((turn_new arg).trans ?_)
  simp only [turnStart, new]
  cases hf : sasl.mechanism.isFramed with
  | false =>
    rw [opening_of_not_isFramed hf] at h
    cases h
    simp [Mechanism.new, hf]
  | true =>
    rw [opening_of_isFramed hf] at h
    have hm : Mechanism.new sasl = .ok ⟨sasl, []⟩ := by simp [Mechanism.new, hf]
    rw [hm]
    dsimp only
    rw [resumeSasl_eq (m := ⟨sasl, []⟩) rfl, h, resume_none_snd]
    rfl

/-- An exchange that is opened starts by writing its command. -/
theorem resume_new {payload : Option Bytes} (h : opening sasl = .ok payload) (arg : Option Bytes) :
    (machine lib).resume (new sasl opts) arg =
      (.yielded (.wantsWrite (command lib sasl opts payload)),
        embed opts (firstPhase sasl opts payload, [])) := by
  have hf := isFramed_of_opening h
  rw [opening_of_isFramed hf] at h
  have hm : Mechanism.new sasl = .ok ⟨sasl, []⟩ := by simp [Mechanism.new, hf]
  have hturn : (loop lib).turn (new sasl opts, arg) = _ := turn_new arg
  simp only [turnStart, new, hm] at hturn
  rw [resumeSasl_eq (m := ⟨sasl, []⟩) rfl, h, resume_none_snd] at hturn
  dsimp only at hturn
  rw [new, resume_of_again hturn, resume_write rfl rfl]
  unfold command firstPhase unsent
  cases hi : inlines sasl opts <;> unfold inlines at hi <;> simp only [hi] <;> rfl

theorem drive_new_error {err : ManagesieveAuthenticateError ε} (h : opening sasl = .error err)
    (arg : Option Bytes) (cs : List Bytes) :
    (machine lib).drive (new sasl opts) arg cs =
      ⟨[], .finished (.error err)
        { new sasl opts with
          sasl := none
          mechanism := if sasl.mechanism.isFramed then some ⟨sasl, [.none]⟩ else none }, cs⟩ :=
  Machine.drive_complete (resume_new_error h arg)

/-- An exchange that is opened writes its command, then runs the client. -/
theorem drive_new {payload : Option Bytes} (h : opening sasl = .ok payload) (arg : Option Bytes)
    (cs : List Bytes) :
    (machine lib).drive (new sasl opts) arg cs =
      (((client lib).machine.drive (firstPhase sasl opts payload, []) none cs).within ofRequest
        (embed opts) fun r s cs' => (machine lib).after (finish opts r s) cs').prepend
        [.yielded (.wantsWrite (command lib sasl opts payload))] := by
  rw [← (nests_client lib opts).drive trivial]
  exact Machine.drive_yield (resume_new h arg) rfl

/-! ### What a run says of the bytes it was fed -/

/-- The exchange was accepted: the coroutine reads the capabilities again, or ended well. -/
def Authenticated (pause : Pause (ManagesieveAuthenticate ε) (Return ε)) : Prop :=
  (∃ capability, pause.state.state = .capability capability) ∨
    ∃ capabilities, pause.result = some (.ok capabilities)

theorem writesOf_map_ofRequest (es : List (Event UInt8 (Request Bytes))) :
    writesOf (es.map (.map ofRequest)) = Reactor.writesOf es := by
  have h : ManagesieveYield.written ∘ ofRequest = Request.written := by
    funext r
    cases r <;> rfl
  rw [writesOf, yieldsOf_map, List.filterMap_map, h]
  rfl

/-- How the client stands when its run does. -/
theorem verdict_of_settled {q : Phase ε} {b : Bytes} {eof : Prop}
    {t : Transcript (Phase ε × Bytes) UInt8 (Request Bytes) (Result ε)}
    (h : (client lib).Settled q b eof t) :
    match t.pause with
    | .waiting s => ((client lib).consume q b).verdict = .going s.1
    | .finished (.error err) s =>
      ((client lib).consume q b).verdict = .stopped (.error err) s.1 ∨
        ((client lib).consume q b).verdict = .going s.1
    | .finished (.ok ()) s => ((client lib).consume q b).verdict = .stopped (.ok ()) s.1
    | .panicked _ _ => False := by
  obtain ⟨-, hp⟩ := h
  rcases hv : ((client lib).consume q b).verdict with q' | ⟨r, q'⟩ <;> rw [hv] at hp
  · have hoverflow : ∃ err, (client lib).onOverflow q' = .error err := by
      cases q' <;> exact ⟨_, rfl⟩
    have heof : ∃ err, (client lib).onEof q' = .error err := by
      cases q' <;> exact ⟨_, rfl⟩
    obtain ⟨err, hoverflow⟩ := hoverflow
    obtain ⟨err', heof⟩ := heof
    rcases hp with ⟨hp, -⟩ | ⟨hp, -⟩ | ⟨hp, -⟩
    · rw [hp]
    · rw [hp, hoverflow]
      exact Or.inr rfl
    · rw [hp, heof]
      exact Or.inr rfl
  · dsimp only at hp
    rw [hp]
    rcases r with err | _
    · exact Or.inl rfl
    · rfl

/-- What is written once the exchange is over. -/
def refresh (opts : ManagesieveAuthenticateOptions) : Verdict (Phase ε) (Result ε) → List Bytes
  | .stopped (.ok ()) _ =>
    if opts.ensureCapabilities then [ManagesieveCapabilityGetCommand.toBytes] else []
  | _ => []

/-- What a run says of the bytes it was fed, the client having done `f` on them. -/
structure RunSpec (opts : ManagesieveAuthenticateOptions) (command : Bytes)
    (f : Followed (Phase ε) Bytes (Result ε))
    (t : Transcript (ManagesieveAuthenticate ε) UInt8 ManagesieveYield (Return ε)) : Prop where
  mechanism : t.pause.state.mechanism = some f.verdict.state.mechanism
  authenticated : Authenticated t.pause ↔ ∃ q, f.verdict = .stopped (.ok ()) q
  writes : writesOf t.events = command :: (f.writes ++ refresh opts f.verdict)

theorem embed_mechanism (s : Phase ε × Bytes) : (embed opts s).mechanism = some s.1.mechanism := by
  rcases s with ⟨m | ⟨m, error⟩, buf⟩ <;> rfl

theorem ended_mechanism (s : Phase ε × Bytes) : (ended opts s).mechanism = some s.1.mechanism := by
  rcases s with ⟨m | ⟨m, error⟩, buf⟩ <;> rfl

theorem not_authenticated_embed (s : Phase ε × Bytes) :
    ¬ Authenticated (.waiting (embed opts s)) := by
  rcases s with ⟨m | ⟨m, error⟩, buf⟩ <;> rintro (⟨capability, h⟩ | ⟨capabilities, h⟩) <;> cases h

theorem not_authenticated_ended (err : ManagesieveAuthenticateError ε) (s : Phase ε × Bytes) :
    ¬ Authenticated (.finished (.error err) (ended opts s)) := by
  rcases s with ⟨m | ⟨m, error⟩, buf⟩ <;> rintro (⟨capability, h⟩ | ⟨capabilities, h⟩) <;> cases h

/-- The run that reads the capabilities after an accepted exchange. -/
theorem after_accepted (s : Phase ε × Bytes) (cs : List Bytes)
    (h : opts.ensureCapabilities = true) :
    (machine lib).after (finish opts (.ok ()) s) cs =
      ⟨.yielded (.wantsWrite ManagesieveCapabilityGetCommand.toBytes) ::
          (ManagesieveResponseRead.machine.drive .new none cs).events,
        (ManagesieveResponseRead.machine.drive .new none cs).pause.map
          (fun r => { ended opts s with state := .capability ⟨none, r⟩ })
          fun r => (ManagesieveCapabilityGet.finish r).mapError .capability,
        (ManagesieveResponseRead.machine.drive .new none cs).unfed⟩ := by
  have hw : (ended opts s).wantsRead = false := by
    rcases s with ⟨m | ⟨m, error⟩, buf⟩ <;> rfl
  have hr : (machine (ε := ε) lib).reads
    (.wantsWrite ManagesieveCapabilityGetCommand.toBytes) = false := rfl
  simp only [finish, h, if_true, Machine.after, hr, Bool.false_eq_true, if_false]
  have hd := (nests_capability lib hw).drive_map (t := ⟨none, .new⟩) trivial none cs
  rw [ManagesieveCapabilityGet.drive_written] at hd
  rw [hd]
  rcases (ManagesieveResponseRead.machine.drive .new none cs).pause with r | ⟨r, s⟩ | ⟨msg, s⟩ <;>
    simp [Transcript.prepend, Pause.map]

/-- **A run does what the client does on the bytes it was fed**, joined together; the bytes fed
after an accepted completion make no difference. -/
theorem drive_new_spec (lib : Libraries) (opts : ManagesieveAuthenticateOptions)
    {payload : Option Bytes} (h : opening sasl = .ok payload) (cs : List Bytes) :
    RunSpec opts (command lib sasl opts payload)
      ((client lib).consume (firstPhase sasl opts payload)
        (fedOf ((machine lib).drive (new sasl opts) none cs).events).flatten)
      ((machine lib).drive (new sasl opts) none cs) := by
  have hs := Client.drive_settled (c := client lib) (firstPhase sasl opts payload, []) none cs
    (by simp)
  rw [drive_new h]
  generalize (client lib).machine.drive (firstPhase sasl opts payload, []) none cs = t at hs ⊢
  simp only [Option.toList_none, List.nil_append] at hs
  have hv := verdict_of_settled hs
  have hw := hs.1
  rcases t with ⟨es, s | ⟨err | _, s⟩ | ⟨msg, s⟩, unfed⟩ <;> dsimp only at hs hv hw
  · simp only [Transcript.within, Transcript.prepend, List.singleton_append, fedOf_yielded,
      fedOf_map]
    refine ⟨?_, iff_of_false (not_authenticated_embed s) ?_, ?_⟩
    · rw [hv]
      exact embed_mechanism s
    · rw [hv]
      rintro ⟨q, hq⟩
      cases hq
    · rw [writesOf_write, writesOf_map_ofRequest, hw, hv]
      simp [refresh]
  · simp only [Transcript.within, Transcript.prepend, List.singleton_append, fedOf_yielded,
      fedOf_map, finish, Machine.after, List.append_nil]
    refine ⟨?_, iff_of_false (not_authenticated_ended err s) ?_, ?_⟩
    · rcases hv with hv | hv <;> rw [hv] <;> exact ended_mechanism s
    · rintro ⟨q, hq⟩
      rcases hv with hv | hv <;> rw [hv] at hq <;> cases hq
    · rw [writesOf_write, writesOf_map_ofRequest, hw]
      rcases hv with hv | hv <;> rw [hv] <;> simp [refresh]
  · cases he : opts.ensureCapabilities with
    | false =>
      simp only [Transcript.within, Transcript.prepend, List.singleton_append, fedOf_yielded,
        fedOf_map, finish, he, Bool.false_eq_true, if_false, Machine.after, List.append_nil]
      refine ⟨?_, iff_of_true (Or.inr ⟨_, rfl⟩) ⟨_, hv⟩, ?_⟩
      · rw [hv]
        exact ended_mechanism s
      · rw [writesOf_write, writesOf_map_ofRequest, hw, hv]
        simp [refresh, he]
    | true =>
      have hreads := (ManagesieveResponseRead.drive_new_reads unfed).only_reads
      simp only [Transcript.within, after_accepted s unfed he]
      simp only [Transcript.prepend, List.singleton_append, fedOf_yielded, fedOf_append, fedOf_map,
        List.flatten_append, Client.consume_append hv]
      refine ⟨?_, iff_of_true (Or.inl ?_) ⟨_, hv⟩, ?_⟩
      · rw [hv]
        rcases (ManagesieveResponseRead.machine.drive .new none unfed).pause with
          r | ⟨r, r'⟩ | ⟨msg, r⟩ <;> exact ended_mechanism s
      · rcases (ManagesieveResponseRead.machine.drive .new none unfed).pause with
          r | ⟨r, r'⟩ | ⟨msg, r⟩ <;> exact ⟨_, rfl⟩
      · rw [writesOf_write, writesOf_append, writesOf_map_ofRequest, hw, hv, writesOf_write,
          writesOf_eq_nil hreads]
        simp [refresh, he]

end ManagesieveAuthenticate

end ManageSieve
