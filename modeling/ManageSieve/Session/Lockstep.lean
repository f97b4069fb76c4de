import ManageSieve.Rfc5804.Progress
import ManageSieve.Session.Legs

/-!
# In step while a session is opened

The session-opening coroutine against a server that greets once it is connected to and once the
connection is upgraded, and answers every message: STARTTLS with a completion, the messages of
AUTHENTICATE as `ManagesieveAuthenticate.parties` says. The replies come whenever the server likes
and are cut into reads in any way.

`ManagesieveSessionOpen.inStep_session` says that the coroutine stays in step and never deadlocks,
`ManagesieveSessionOpen.completes_unsigned` that without credentials every run ends.
-/

namespace ManageSieve

open Coroutine Dialogue

variable {ε : Type*}

namespace ManagesieveSessionOpen

/-- What the server sends in answer to a request. -/
def Answered (lib : Libraries) : ManagesieveSessionOpenYield → Bytes → Prop
  | .wantsWrite message, reply =>
    if message = ManagesieveStartTlsCommand.toBytes then
      IsCompletion reply
    else (ManagesieveAuthenticate.parties (ε := ε) lib (some maxResponse)).replies message reply
  | _, reply => IsResponse reply

/-- The coroutine and its server. -/
def parties (lib : Libraries) : Parties (ManagesieveSessionOpen ε) UInt8
    ManagesieveSessionOpenYield (Return ε) ManagesieveSessionOpenYield where
  machine := machine lib
  message := id
  replies := Answered (ε := ε) lib

/-- The coroutine gave up on a reply that did not fit its buffer, and says so. -/
inductive TooLarge : Return ε → Prop
  | greeting : TooLarge (.error (.greeting (.send .responseTooLarge)))
  | startTls : TooLarge (.error (.startTls (.send .responseTooLarge)))
  | authenticate {err} : ManagesieveAuthenticate.TooLarge (ε := ε) (.error err) →
      TooLarge (.error (.authenticate err))

/-- The coroutine waits for the rest of the reply to a request, having read `heard` of it. -/
inductive Awaits : ManagesieveSessionOpen ε → ManagesieveSessionOpenYield → Bytes → Prop
  | greeting (self : ManagesieveSessionOpen ε) (transport : ManagesieveSessionTransport)
      (heard : Bytes) :
      Awaits { self with state := .greeting ⟨false, heard⟩ } (.connect transport) heard
  | startTls (self : ManagesieveSessionOpen ε) (heard : Bytes) :
      Awaits { self with state := .startTls ⟨none, ⟨false, heard⟩⟩ }
        (.wantsWrite ManagesieveStartTlsCommand.toBytes) heard
  | upgraded (self : ManagesieveSessionOpen ε) :
      Awaits { self with state := .upgraded } .wantsTlsUpgrade []
  | greetingTls (self : ManagesieveSessionOpen ε) (heard : Bytes) :
      Awaits { self with state := .greetingTls ⟨false, heard⟩ } .wantsTlsUpgrade heard
  | auth (self : ManagesieveSessionOpen ε) {auth : ManagesieveAuthenticate ε}
      {message heard : Bytes} (h : ManagesieveAuthenticate.Awaits ⟨true, true⟩ auth message heard) :
      Awaits { self with state := .auth auth } (.wantsWrite message) heard

/-- Nothing of what was read since the last request is left over. -/
def Drained (self : ManagesieveSessionOpen ε) (heard : Bytes) : Prop :=
  match self.state with
  | .connect => heard = []
  | .greeting greeting => greeting.buf = heard
  | .startTls starttls => starttls.read.buf = heard
  | .upgraded => False
  | .greetingTls greeting => greeting.buf = heard
  | .auth auth => ManagesieveAuthenticate.Drained auth heard

theorem isResponse_connect {lib : Libraries} {transport : ManagesieveSessionTransport}
    {reply : Bytes} (h : (parties (ε := ε) lib).replies (.connect transport) reply) :
    IsResponse reply := by
  cases transport <;> exact h

theorem isResponse_startTls {lib : Libraries} {reply : Bytes}
    (h : (parties (ε := ε) lib).replies (.wantsWrite ManagesieveStartTlsCommand.toBytes) reply) :
    IsResponse reply := by
  unfold parties Answered at h
  dsimp only at h
  rw [if_pos rfl] at h
  exact h.isResponse

/-! ## With nothing of a reply at hand -/

theorem asks_greeting : ManagesieveGreetingGet.machine.resume ⟨false, []⟩ none =
    (.yielded .wantsRead, ⟨false, []⟩) := by
  have hinner : ManagesieveGreetingGet.machine.resume ⟨false, []⟩ none =
      ((ManagesieveResponseRead.resume ⟨false, []⟩ none).1.map ManagesieveGreetingGet.finish,
        (ManagesieveResponseRead.resume ⟨false, []⟩ none).2) := rfl
  rwa [ManagesieveResponseRead.resume_none] at hinner

theorem asks_startTls : ManagesieveStartTls.machine.resume ⟨none, ⟨false, []⟩⟩ none =
    (.yielded .wantsRead, ⟨none, ⟨false, []⟩⟩) := by
  have hinner : ManagesieveStartTls.machine.resume ⟨none, ⟨false, []⟩⟩ none =
      ((ManagesieveResponseRead.resume ⟨false, []⟩ none).1.map ManagesieveStartTls.finish,
        ⟨none, (ManagesieveResponseRead.resume ⟨false, []⟩ none).2⟩) := rfl
  rwa [ManagesieveResponseRead.resume_none] at hinner

/-- After the upgrade the greeting is read again. -/
theorem resume_upgraded (lib : Libraries) (self : ManagesieveSessionOpen ε)
    (arg : Option Bytes) :
    (machine lib).resume { self with state := .upgraded } arg =
      (machine lib).resume { self with state := .greetingTls ⟨false, []⟩ } arg :=
  resume_of_again rfl

/-! ## What follows a greeting -/

/-- A session that signs in writes the command that opens the exchange; any other one ends. -/
theorem answers_signIn (lib : Libraries) {self : ManagesieveSessionOpen ε}
    {w : ManagesieveSessionOpenYield} {reply : Bytes} (hd : Drained self reply) :
    Answers (parties lib) TooLarge Awaits Drained w reply reply (signInAnswer lib self) := by
  unfold signInAnswer wantsAuth
  rcases self.sasl with _ | sasl
  · exact Or.inr ⟨rfl, hd⟩
  · dsimp only
    split_ifs
    · exact Or.inr ⟨rfl, hd⟩
    · rcases Exchange.opening_cases sasl with ⟨hopen, -⟩ | ⟨err, hopen, -⟩
      · dsimp only
        rw [(nests_auth lib { self with sasl := none }).resume_yielded trivial
          (ManagesieveAuthenticate.resume_new hopen none)]
        exact ⟨rfl, .auth _ (.exchange (isExchange_command lib _))⟩
      · dsimp only
        rw [(nests_auth lib { self with sasl := none }).resume_complete trivial
          (ManagesieveAuthenticate.resume_new_error hopen none)]
        exact Or.inr ⟨rfl, rfl, trivial⟩

/-- What follows the first greeting: STARTTLS, signing in, or the end. -/
theorem answers_greeted (lib : Libraries) {self : ManagesieveSessionOpen ε}
    {w : ManagesieveSessionOpenYield} {reply : Bytes} (hd : Drained self reply) :
    Answers (parties lib) TooLarge Awaits Drained w reply reply (greetedAnswer lib self) := by
  unfold greetedAnswer
  split_ifs
  · exact Or.inr ⟨rfl, hd⟩
  · have hstart : ManagesieveStartTls.machine.resume .new none =
        (.yielded (.wantsWrite ManagesieveStartTlsCommand.toBytes), ⟨none, .new⟩) := rfl
    rw [(nests_startTls lib self).resume_yielded trivial hstart]
    exact ⟨rfl, .startTls self []⟩
  · exact answers_signIn lib hd

/-! ## With a read in hand -/

/-- What answers a message of AUTHENTICATE is what AUTHENTICATE waits for. -/
theorem replies_of_answered {lib : Libraries} {message reply : Bytes}
    (h : Answered (ε := ε) lib (.wantsWrite message) reply) :
    (ManagesieveAuthenticate.parties (ε := ε) lib (some maxResponse)).replies message reply := by
  unfold Answered at h
  dsimp only at h
  split_ifs at h with hstart
  · -- a completion answers every message of the exchange
    subst hstart
    have hcancel : ManagesieveStartTlsCommand.toBytes ≠ cancellation := by decide +kernel
    have hcapability : ManagesieveStartTlsCommand.toBytes ≠
        ManagesieveCapabilityGetCommand.toBytes := by decide +kernel
    refine ⟨?_, fun hc => absurd hc hcancel⟩
    rw [Replies, if_neg hcancel, if_neg hcapability]
    exact Or.inr h
  · exact h

section Answers

variable (lib : Libraries) (self : ManagesieveSessionOpen ε) {heard a rest : Bytes} (ha : a ≠ [])

include ha

theorem answers_greeting (transport : ManagesieveSessionTransport)
    (h : IsResponse (heard ++ a ++ rest)) :
    Answers (parties lib) TooLarge Awaits Drained (.connect transport) (heard ++ a ++ rest)
      (heard ++ a)
      ((machine lib).resume { self with state := .greeting ⟨false, heard⟩ } (some a)) := by
  have hinner : ManagesieveGreetingGet.machine.resume ⟨false, heard⟩ (some a) =
      ((ManagesieveResponseRead.resume ⟨false, heard⟩ (some a)).1.map ManagesieveGreetingGet.finish,
        (ManagesieveResponseRead.resume ⟨false, heard⟩ (some a)).2) := rfl
  rcases ManagesieveResponseRead.resume_of_isResponse ha h with
    ⟨rfl, response, -, hr⟩ | ⟨hrest, hr | hr⟩ <;> rw [hr] at hinner
  · rw [(nests_greeting lib self).resume_complete trivial hinner, List.append_nil]
    rcases ManagesieveGreetingGet.finish (.ok ⟨response, []⟩) with err | capabilities
    · exact Or.inr ⟨rfl, rfl⟩
    · exact answers_greeted lib rfl
  · rw [(nests_greeting lib self).resume_yielded trivial hinner]
    exact ⟨by simpa using hrest, .greeting self transport (heard ++ a)⟩
  · rw [(nests_greeting lib self).resume_complete trivial hinner]
    exact Or.inl .greeting

theorem answers_greetingTls (h : IsResponse (heard ++ a ++ rest)) :
    Answers (parties lib) TooLarge Awaits Drained .wantsTlsUpgrade (heard ++ a ++ rest)
      (heard ++ a)
      ((machine lib).resume { self with state := .greetingTls ⟨false, heard⟩ } (some a)) := by
  have hinner : ManagesieveGreetingGet.machine.resume ⟨false, heard⟩ (some a) =
      ((ManagesieveResponseRead.resume ⟨false, heard⟩ (some a)).1.map ManagesieveGreetingGet.finish,
        (ManagesieveResponseRead.resume ⟨false, heard⟩ (some a)).2) := rfl
  rcases ManagesieveResponseRead.resume_of_isResponse ha h with
    ⟨rfl, response, -, hr⟩ | ⟨hrest, hr | hr⟩ <;> rw [hr] at hinner
  · rw [(nests_greetingTls lib self).resume_complete trivial hinner, List.append_nil]
    rcases ManagesieveGreetingGet.finish (.ok ⟨response, []⟩) with err | capabilities
    · exact Or.inr ⟨rfl, rfl⟩
    · exact answers_signIn lib rfl
  · rw [(nests_greetingTls lib self).resume_yielded trivial hinner]
    exact ⟨by simpa using hrest, .greetingTls self (heard ++ a)⟩
  · rw [(nests_greetingTls lib self).resume_complete trivial hinner]
    exact Or.inl .greeting

theorem answers_startTls (h : IsResponse (heard ++ a ++ rest)) :
    Answers (parties lib) TooLarge Awaits Drained
      (.wantsWrite ManagesieveStartTlsCommand.toBytes) (heard ++ a ++ rest) (heard ++ a)
      ((machine lib).resume { self with state := .startTls ⟨none, ⟨false, heard⟩⟩ }
        (some a)) := by
  have hinner : ManagesieveStartTls.machine.resume ⟨none, ⟨false, heard⟩⟩ (some a) =
      ((ManagesieveResponseRead.resume ⟨false, heard⟩ (some a)).1.map ManagesieveStartTls.finish,
        ⟨none, (ManagesieveResponseRead.resume ⟨false, heard⟩ (some a)).2⟩) := rfl
  rcases ManagesieveResponseRead.resume_of_isResponse ha h with
    ⟨rfl, response, -, hr⟩ | ⟨hrest, hr | hr⟩ <;> rw [hr] at hinner
  · rw [(nests_startTls lib self).resume_complete trivial hinner, List.append_nil]
    rcases ManagesieveStartTls.finish (.ok ⟨response, []⟩) with err | ⟨⟩
    · exact Or.inr ⟨rfl, rfl⟩
    · exact ⟨rfl, .upgraded { self with upgraded := true }⟩
  · rw [(nests_startTls lib self).resume_yielded trivial hinner]
    exact ⟨by simpa using hrest, .startTls self (heard ++ a)⟩
  · rw [(nests_startTls lib self).resume_complete trivial hinner]
    exact Or.inl .startTls

theorem answers_auth {auth : ManagesieveAuthenticate ε} {message : Bytes}
    (hw : ManagesieveAuthenticate.Awaits ⟨true, true⟩ auth message heard)
    (h : Answered (ε := ε) lib (.wantsWrite message) (heard ++ a ++ rest)) :
    Answers (parties lib) TooLarge Awaits Drained (.wantsWrite message) (heard ++ a ++ rest)
      (heard ++ a) ((machine lib).resume { self with state := .auth auth } (some a)) := by
  have hinner := (ManagesieveAuthenticate.lockstep_parties lib ⟨true, true⟩).answers hw ha
    (replies_of_answered h)
  change Answers _ _ _ _ _ _ _ ((ManagesieveAuthenticate.machine lib).resume auth (some a))
    at hinner
  rcases hr : (ManagesieveAuthenticate.machine lib).resume auth (some a) with
    ⟨(_ | bytes) | (err | capabilities) | msg, auth'⟩ <;> rw [hr] at hinner
  · rw [(nests_auth lib self).resume_yielded trivial hr]
    exact ⟨hinner.1, .auth self hinner.2⟩
  · rw [(nests_auth lib self).resume_yielded trivial hr]
    exact ⟨hinner.1, .auth self hinner.2⟩
  · rw [(nests_auth lib self).resume_complete trivial hr]
    rcases hinner with hlarge | ⟨heq, hd⟩
    · exact Or.inl (.authenticate hlarge)
    · exact Or.inr ⟨heq, hd⟩
  · rw [(nests_auth lib self).resume_complete trivial hr]
    rcases hinner with hlarge | ⟨heq, hd⟩
    · rcases hlarge with hlarge | hlarge <;> cases hlarge
    · exact Or.inr ⟨heq, hd⟩
  · exact hinner.elim

end Answers

/-! ## The session -/

/-- **A session is in lockstep with its server.** -/
theorem lockstep (lib : Libraries) (transport : ManagesieveSessionTransport)
    (sasl : Option (Sasl ε)) (opts : ManagesieveSessionOpenOptions) :
    Lockstep (parties lib) TooLarge (· = new transport sasl opts) Awaits Drained where
  replies_ne_nil {w b} h := by
    cases w with
    | wantsWrite message =>
      unfold parties Answered at h
      dsimp only at h
      split_ifs at h
      · exact h.isResponse.ne_nil
      · exact h.1.ne_nil
    | _ => exact IsResponse.ne_nil h
  starts := by
    rintro s rfl
    by_cases hrefused : (opts.starttls && transport.isProtected) = true
    · have hr : (parties lib).machine.resume (new transport sasl opts) none = _ :=
        resume_new_refused lib sasl hrefused none
      rw [hr]
      exact rfl
    · have hr : (parties lib).machine.resume (new transport sasl opts) none = _ :=
        resume_new_connect lib sasl hrefused none
      rw [hr]
      exact ⟨by cases transport <;> rfl, .greeting (new transport sasl opts) transport []⟩
  asks {s w} h := by
    cases h with
    | greeting self transport =>
      exact ⟨.wantsRead, _, (nests_greeting lib self).resume_yielded trivial asks_greeting, rfl,
        .greeting self transport []⟩
    | startTls self =>
      exact ⟨.wantsRead, _, (nests_startTls lib self).resume_yielded trivial asks_startTls, rfl,
        .startTls self []⟩
    | upgraded self =>
      refine ⟨.wantsRead, _, ?_, rfl, .greetingTls self []⟩
      exact (resume_upgraded lib self none).trans
        ((nests_greetingTls lib self).resume_yielded trivial asks_greeting)
    | greetingTls self =>
      exact ⟨.wantsRead, _, (nests_greetingTls lib self).resume_yielded trivial asks_greeting, rfl,
        .greetingTls self []⟩
    | auth self hw =>
      obtain ⟨y, auth', hr, hy, hw'⟩ :=
        (ManagesieveAuthenticate.lockstep_parties lib ⟨true, true⟩).asks hw
      exact ⟨.ofYield y, _, (nests_auth lib self).resume_yielded trivial hr,
        (ManagesieveSessionOpenYield.isRead_ofYield y).trans hy, .auth self hw'⟩
  answers {s w heard a rest} h ha hreply := by
    cases h with
    | greeting self transport =>
      exact answers_greeting lib self ha transport (isResponse_connect hreply)
    | startTls self => exact answers_startTls lib self ha (isResponse_startTls hreply)
    | upgraded self =>
      have h := answers_greetingTls lib self ha hreply
      rwa [← resume_upgraded] at h
    | greetingTls self => exact answers_greetingTls lib self ha hreply
    | auth self hw => exact answers_auth lib self ha hw hreply

/-- Every request can be answered. -/
theorem exists_answer (lib : Libraries) (w : ManagesieveSessionOpenYield) :
    ∃ reply, (parties (ε := ε) lib).replies w reply := by
  cases w with
  | wantsWrite message =>
    unfold parties Answered
    dsimp only
    split_ifs
    · exact ⟨_, isCompletion_ok⟩
    · exact ManagesieveAuthenticate.exists_reply lib message
  | _ => exact ⟨_, isCompletion_ok.isResponse⟩

/-- **Opening a session stays in step with the server and does not deadlock**, in every
configuration that the two sides can reach: the coroutine waits only for a reply that is on its way,
one of the two sides can take a step until it ended, and when it ended it read every reply that it
was owed and nothing else, unless it gave up on one that did not fit its buffer. -/
theorem inStep_session (lib : Libraries) (transport : ManagesieveSessionTransport)
    (sasl : Option (Sasl ε)) (opts : ManagesieveSessionOpenOptions)
    {c : Config (ManagesieveSessionOpen ε) UInt8 (Return ε) ManagesieveSessionOpenYield}
    (h : Reachable (parties lib) (new transport sasl opts) c) :
    InStep TooLarge Drained c ∧
      ((∃ r s, c.control = .finished r s) ∨ ∃ c', Dialogue.Step (parties lib) c c') :=
  have hl := lockstep lib transport sasl opts
  ⟨hl.inStep rfl h, hl.progress (fun _ => exists_answer lib _) rfl h⟩

/-- A session without credentials, its greeting in two reads. -/
theorem inStep_session_unix :
    let session : ManagesieveSessionOpen Unit := .new (.unix "/run/sieve") none ⟨false, false⟩
    InStep TooLarge Drained
      (⟨.finished (.ok ⟨.default⟩) { session with state := .greeting ⟨false, asBytes "OK\r\n"⟩ },
        [], [], asBytes "OK\r\n"⟩ :
        Config (ManagesieveSessionOpen Unit) UInt8 (Return Unit) ManagesieveSessionOpenYield) := by
  intro session
  have hcuts : Cuts [asBytes "OK\r", [lf]] (asBytes "OK\r\n") :=
    ⟨by decide +kernel, by decide +kernel⟩
  have hconnect := resume_new_connect .standard (none : Option (Sasl Unit)) (by decide :
    ¬ ((⟨false, false⟩ : ManagesieveSessionOpenOptions).starttls &&
      (ManagesieveSessionTransport.unix "/run/sieve").isProtected) = true) none
  have hask := (nests_greeting .standard session).resume_yielded trivial asks_greeting
  have hmore : ManagesieveGreetingGet.machine.resume ⟨false, []⟩ (some (asBytes "OK\r")) =
      (.yielded .wantsRead, ⟨false, asBytes "OK\r"⟩) := by decide +kernel
  have hmore := (nests_greeting .standard session).resume_yielded trivial hmore
  have hend : ManagesieveGreetingGet.machine.resume ⟨false, asBytes "OK\r"⟩ (some [lf]) =
      (.complete (.ok .default), ⟨false, asBytes "OK\r\n"⟩) := by decide +kernel
  have hend := (nests_greeting .standard session).resume_complete trivial hend
  have hreply : (parties (ε := Unit) .standard).replies (.wantsUnixConnect "/run/sieve")
      (asBytes "OK\r\n") := isCompletion_ok.isResponse
  refine (inStep_session .standard (.unix "/run/sieve") none ⟨false, false⟩ ?_).1
  exact Relation.ReflTransGen.refl.tail (Step.write hconnect rfl) |>.tail (Step.ask hask rfl)
    |>.tail (Step.reply hreply hcuts) |>.tail Step.deliver |>.tail (Step.ask hmore rfl)
    |>.tail Step.deliver |>.tail (Step.complete hend)

/-- **Opening a session without credentials ends in every run**: none is infinite, and where neither
side can take a step the coroutine ended, in step. -/
theorem completes_unsigned (lib : Libraries) (transport : ManagesieveSessionTransport)
    (opts : ManagesieveSessionOpenOptions) :
    Acc (fun c' c => Dialogue.Step (parties lib) c c')
        (start (new transport (none : Option (Sasl ε)) opts)) ∧
      ∀ c, Reachable (parties lib) (new transport (none : Option (Sasl ε)) opts) c →
        (∀ c', ¬ Dialogue.Step (parties lib) c c') →
          ∃ r s, c.control = .finished r s ∧ InStep TooLarge Drained c :=
  (lockstep lib transport none opts).completes (fun _ => exists_answer lib _)
    (ManagesieveSessionOpen.patient lib) rfl (unsigned_new transport opts)

end ManagesieveSessionOpen

end ManageSieve
