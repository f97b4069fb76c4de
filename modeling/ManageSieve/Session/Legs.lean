import ManageSieve.Foundations.Legs
import ManageSieve.Session.Open

/-!
# The legs of a session

What a run of the session-opening coroutine shows, as the legs it is made of: the greeting, STARTTLS
and the upgrade, the greeting over TLS, authentication. Neither the resume argument that a state
hands on to the next nor the fields that a state leaves behind appear in `openSession`;
`ManagesieveSessionOpen.drive_shown` says that the coroutine shows nothing else.
-/

namespace ManageSieve

open Coroutine

variable {ε : Type*}

/-! ## The legs -/

/-- What a part of a run of the session-opening coroutine shows. -/
abbrev SessionLeg (ε A : Type*) :=
  Leg UInt8 ManagesieveSessionOpenYield (ManagesieveSessionOpenError ε) A

namespace SessionLeg

/-- Read a greeting. -/
def greet : SessionLeg ε ManagesieveCapabilities :=
  .ofMachine ManagesieveGreetingGet.machine .ofYield .greeting .new

/-- Run STARTTLS. -/
def startTls : SessionLeg ε Unit :=
  .ofMachine ManagesieveStartTls.machine .ofYield .startTls .new

/-- Run AUTHENTICATE, then CAPABILITY. -/
def authenticate (lib : Libraries) (sasl : Sasl ε) : SessionLeg ε ManagesieveCapabilities :=
  .ofMachine (ManagesieveAuthenticate.machine lib) .ofYield .authenticate (.new sasl ⟨true, true⟩)

/-- Whether a mechanism is kept from running over a connection. -/
def refuses (opts : ManagesieveSessionOpenOptions) (protected_ : Bool) (sasl : Sasl ε) : Bool :=
  !protected_ && !opts.allowCleartextAuth && disclosesCredential sasl.mechanism

/-- Authenticate, if there are credentials; without them the greeting has the capabilities. -/
def signIn (lib : Libraries) (opts : ManagesieveSessionOpenOptions) (protected_ : Bool)
    (sasl : Option (Sasl ε)) (capabilities : ManagesieveCapabilities) :
    SessionLeg ε ManagesieveSessionOpenData :=
  match sasl with
  | none => .stop (.ok ⟨capabilities⟩)
  | some sasl =>
    if refuses opts protected_ sasl then .stop (.error (.cleartextAuth sasl.mechanism))
    else (authenticate lib sasl).andThen fun capabilities => .stop (.ok ⟨capabilities⟩)

/-- Connect, and go on to the upgrade. -/
def reachUpgrade (transport : ManagesieveSessionTransport) : SessionLeg ε Unit :=
  .ask (.connect transport) <| greet.andThen fun capabilities =>
    if !capabilities.starttls then .stop (.error .startTlsUnsupported)
    else startTls.andThen fun () => .ask .wantsTlsUpgrade (.stop (.ok ()))

theorem reachUpgrade_andThen {A : Type*} (transport : ManagesieveSessionTransport)
    (f : Unit → SessionLeg ε A) :
    (reachUpgrade transport).andThen f =
      .ask (.connect transport) (greet.andThen fun capabilities =>
        if !capabilities.starttls then .stop (.error .startTlsUnsupported)
        else startTls.andThen fun () => .ask .wantsTlsUpgrade (f ())) := by
  unfold reachUpgrade
  rw [Leg.ask_andThen, Leg.andThen_assoc]
  congr 2
  funext capabilities
  split_ifs
  · rfl
  · simp only [Leg.andThen_assoc, Leg.ask_andThen, Leg.stop_ok_andThen]

/-- Go on after the upgrade. -/
def overTls (lib : Libraries) (opts : ManagesieveSessionOpenOptions) (sasl : Option (Sasl ε)) :
    SessionLeg ε ManagesieveSessionOpenData :=
  greet.andThen (signIn lib opts true sasl)

/-- Open a session. -/
def openSession (lib : Libraries) (transport : ManagesieveSessionTransport) (sasl : Option (Sasl ε))
    (opts : ManagesieveSessionOpenOptions) : SessionLeg ε ManagesieveSessionOpenData :=
  if opts.starttls then
    if transport.isProtected then .stop (.error .startTlsOverTls)
    else (reachUpgrade transport).andThen fun () => overTls lib opts sasl
  else
    .ask (.connect transport) (greet.andThen (signIn lib opts transport.isProtected sasl))

end SessionLeg

/-! ## The coroutine runs the legs -/

namespace ManagesieveSessionOpen

open SessionLeg

variable {lib : Libraries} {self : ManagesieveSessionOpen ε}

/-- What follows a greeting, once it gave its capabilities. -/
def signInAnswer (lib : Libraries) (self : ManagesieveSessionOpen ε) : SessionAnswer ε :=
  match self.wantsAuth with
  | (.error err, self) => (.complete (.error err), self)
  | (.ok none, self) => self.complete
  | (.ok (some next), self) => (machine lib).resume { self with state := next } none

/-- What follows the first greeting, once it gave its capabilities. -/
def greetedAnswer (lib : Libraries) (self : ManagesieveSessionOpen ε) : SessionAnswer ε :=
  if self.opts.starttls then
    if !self.capabilities.starttls then (.complete (.error .startTlsUnsupported), self)
    else (machine lib).resume { self with state := .startTls .new } none
  else signInAnswer lib self

/-! ### Authentication -/

/-- While the inner coroutine runs, the session is that coroutine. -/
theorem nests_auth (lib : Libraries) (self : ManagesieveSessionOpen ε) :
    Machine.Nests (ManagesieveAuthenticate.machine lib) (machine lib)
      ManagesieveSessionOpenYield.ofYield (fun auth => { self with state := .auth auth })
      (fun r auth => match r with
        | .error err => (.complete (.error (.authenticate err)), { self with state := .auth auth })
        | .ok capabilities => complete { self with state := .auth auth, capabilities })
      fun _ => True where
  reads_into y := ManagesieveSessionOpenYield.isRead_ofYield y
  keeps _ _ := trivial
  resume_yielded _ h :=
    resume_of_done (by simp [loop, turn, turnAuthenticate, h])
  resume_complete {auth arg r auth'} _ h := by
    cases r <;> exact resume_of_done (by simp [loop, turn, turnAuthenticate, h])
  resume_panicked _ h :=
    resume_of_done (by simp [loop, turn, turnAuthenticate, h])

/-- A run that starts to authenticate shows that leg. -/
theorem drive_auth (self : ManagesieveSessionOpen ε) (sasl : Sasl ε) (cs : List Bytes) :
    ((machine lib).drive { self with state := .auth (.new sasl ⟨true, true⟩) } none cs).shown =
      ((authenticate lib sasl).andThen fun capabilities => .stop (.ok ⟨capabilities⟩)) cs :=
  (nests_auth lib self).leg trivial (fun _ _ _ => rfl) (fun _ _ _ => rfl) cs

/-- AUTHENTICATE does not look at what its first resume carries. -/
theorem resume_auth_new (self : ManagesieveSessionOpen ε) (sasl : Sasl ε) (arg : Option Bytes) :
    (machine lib).resume { self with state := .auth (.new sasl ⟨true, true⟩) } arg =
      (machine lib).resume { self with state := .auth (.new sasl ⟨true, true⟩) } none := by
  have hnests := nests_auth lib self
  rcases hopen : Exchange.opening sasl with err | payload
  · rw [hnests.resume_complete trivial (ManagesieveAuthenticate.resume_new_error hopen arg),
      hnests.resume_complete trivial (ManagesieveAuthenticate.resume_new_error hopen none)]
  · rw [hnests.resume_yielded trivial (ManagesieveAuthenticate.resume_new hopen arg),
      hnests.resume_yielded trivial (ManagesieveAuthenticate.resume_new hopen none)]

/-- What follows a greeting does not depend on what the resume carried. -/
theorem resume_of_turnAuth {s : ManagesieveSessionOpen ε} {arg : Option Bytes}
    (h : (loop lib).turn (s, arg) = self.turnAuth arg) :
    (machine lib).resume s arg = signInAnswer lib self := by
  unfold turnAuth at h
  unfold signInAnswer
  rcases hw : self.wantsAuth with ⟨err | _ | next, self'⟩ <;> rw [hw] at h
  · exact resume_of_done h
  · exact resume_of_done h
  · unfold wantsAuth at hw
    rcases hsasl : self.sasl with _ | sasl <;> rw [hsasl] at hw
    · cases hw
    · dsimp only at hw
      split_ifs at hw
      · cases hw
      · cases hw
        rw [resume_of_again h]
        exact resume_auth_new { self with sasl := none } sasl arg

/-- What follows a greeting shows the leg that signs in. -/
theorem after_signInAnswer (self : ManagesieveSessionOpen ε) (cs : List Bytes) :
    ((machine lib).after (signInAnswer lib self) cs).shown =
      signIn lib self.opts (self.upgraded || self.transport.isProtected) self.sasl
        self.capabilities cs := by
  unfold signInAnswer wantsAuth signIn refuses
  rcases self.sasl with _ | sasl
  · rfl
  · dsimp only
    split_ifs
    · rfl
    · exact (congrArg Transcript.shown (Machine.drive_eq_after _ _ _)).symm.trans
        (drive_auth { self with sasl := none } sasl cs)

/-! ### The greeting over TLS -/

theorem nests_greetingTls (lib : Libraries) (self : ManagesieveSessionOpen ε) :
    Machine.Nests ManagesieveGreetingGet.machine (machine lib) ManagesieveSessionOpenYield.ofYield
      (fun greeting => { self with state := .greetingTls greeting })
      (fun r greeting => match r with
        | .error err =>
          (.complete (.error (.greeting err)), { self with state := .greetingTls greeting })
        | .ok capabilities =>
          signInAnswer lib { self with state := .greetingTls greeting, capabilities })
      fun _ => True where
  reads_into y := ManagesieveSessionOpenYield.isRead_ofYield y
  keeps _ _ := trivial
  resume_yielded _ h :=
    resume_of_done (by simp [loop, turn, turnGreetingTls, h])
  resume_complete {greeting arg r greeting'} _ h := by
    have hturn : (loop lib).turn ({ self with state := .greetingTls greeting }, arg) =
      turnGreetingTls { self with state := .greetingTls greeting } greeting arg := rfl
    unfold turnGreetingTls at hturn
    rw [h] at hturn
    rcases r with err | capabilities
    · exact resume_of_done hturn
    · exact resume_of_turnAuth hturn
  resume_panicked _ h :=
    resume_of_done (by simp [loop, turn, turnGreetingTls, h])

/-- After the upgrade nothing but the credentials and the policy is left of the run so far. -/
theorem drive_upgraded (hs : self.state = .upgraded) (hu : self.upgraded = true) (cs : List Bytes) :
    ((machine lib).drive self none cs).shown = overTls lib self.opts self.sasl cs := by
  have hturn : (loop lib).turn (self, none) =
      .again ({ self with state := .greetingTls .new }, none) := by
    simp [loop, turn, hs]
  have hresume : (machine lib).resume self none =
      (machine lib).resume { self with state := .greetingTls .new } none :=
    resume_of_again hturn
  rw [Machine.drive_eq_after, hresume, ← Machine.drive_eq_after]
  refine (nests_greetingTls lib self).leg trivial (fun _ _ _ => rfl) (fun _ _ cs => ?_) cs
  rw [after_signInAnswer]
  simp [hu]

/-! ### STARTTLS -/

theorem nests_startTls (lib : Libraries) (self : ManagesieveSessionOpen ε) :
    Machine.Nests ManagesieveStartTls.machine (machine lib) ManagesieveSessionOpenYield.ofYield
      (fun starttls => { self with state := .startTls starttls })
      (fun r starttls => match r with
        | .error err =>
          (.complete (.error (.startTls err)), { self with state := .startTls starttls })
        | .ok () => (.yielded .wantsTlsUpgrade, { self with upgraded := true, state := .upgraded }))
      fun _ => True where
  reads_into y := ManagesieveSessionOpenYield.isRead_ofYield y
  keeps _ _ := trivial
  resume_yielded _ h :=
    resume_of_done (by simp [loop, turn, turnStartTls, h])
  resume_complete {starttls arg r starttls'} _ h := by
    cases r <;> exact resume_of_done (by simp [loop, turn, turnStartTls, h])
  resume_panicked _ h :=
    resume_of_done (by simp [loop, turn, turnStartTls, h])

/-- STARTTLS does not look at what its first resume carries. -/
theorem resume_startTls_new (self : ManagesieveSessionOpen ε) (arg : Option Bytes) :
    (machine lib).resume { self with state := .startTls .new } arg =
      (machine lib).resume { self with state := .startTls .new } none := by
  have h : ∀ arg, ManagesieveStartTls.machine.resume .new arg =
      (.yielded (.wantsWrite ManagesieveStartTlsCommand.toBytes), ⟨none, .new⟩) := fun _ => rfl
  rw [(nests_startTls lib self).resume_yielded trivial (h arg),
    (nests_startTls lib self).resume_yielded trivial (h none)]

/-- A run that starts STARTTLS shows its leg, the upgrade, and what follows it. -/
theorem drive_startTls (self : ManagesieveSessionOpen ε) (cs : List Bytes) :
    ((machine lib).drive { self with state := .startTls .new } none cs).shown =
      (startTls.andThen fun () => .ask .wantsTlsUpgrade (overTls lib self.opts self.sasl)) cs := by
  refine (nests_startTls lib self).leg trivial (fun _ _ _ => rfl) (fun _ st cs => ?_) cs
  have hy : (machine (ε := ε) lib).reads .wantsTlsUpgrade = false := rfl
  simp only [Machine.after, hy, Bool.false_eq_true, if_false, Transcript.shown_prepend, Leg.ask]
  rw [drive_upgraded rfl rfl]

/-! ### The first greeting -/

theorem nests_greeting (lib : Libraries) (self : ManagesieveSessionOpen ε) :
    Machine.Nests ManagesieveGreetingGet.machine (machine lib) ManagesieveSessionOpenYield.ofYield
      (fun greeting => { self with state := .greeting greeting })
      (fun r greeting => match r with
        | .error err =>
          (.complete (.error (.greeting err)), { self with state := .greeting greeting })
        | .ok capabilities =>
          greetedAnswer lib { self with state := .greeting greeting, capabilities })
      fun _ => True where
  reads_into y := ManagesieveSessionOpenYield.isRead_ofYield y
  keeps _ _ := trivial
  resume_yielded _ h :=
    resume_of_done (by simp [loop, turn, turnGreeting, h])
  resume_complete {greeting arg r greeting'} _ h := by
    have hturn : (loop lib).turn ({ self with state := .greeting greeting }, arg) =
      turnGreeting { self with state := .greeting greeting } greeting arg := rfl
    unfold turnGreeting at hturn
    rw [h] at hturn
    rcases r with err | capabilities
    · exact resume_of_done hturn
    · unfold greetedAnswer
      dsimp only at hturn ⊢
      split_ifs at hturn ⊢
      · exact resume_of_done hturn
      · rw [resume_of_again hturn]
        exact resume_startTls_new { self with capabilities } arg
      · exact resume_of_turnAuth hturn
  resume_panicked _ h :=
    resume_of_done (by simp [loop, turn, turnGreeting, h])

/-- A run that starts to read the first greeting. -/
theorem drive_greeting (self : ManagesieveSessionOpen ε) (cs : List Bytes) :
    ((machine lib).drive { self with state := .greeting .new } none cs).shown =
      (greet.andThen fun capabilities =>
        if self.opts.starttls then
          if !capabilities.starttls then .stop (.error .startTlsUnsupported)
          else startTls.andThen fun () => .ask .wantsTlsUpgrade (overTls lib self.opts self.sasl)
        else signIn lib self.opts (self.upgraded || self.transport.isProtected) self.sasl
          capabilities) cs := by
  refine (nests_greeting lib self).leg trivial (fun _ _ _ => rfl) (fun capabilities g cs => ?_) cs
  unfold greetedAnswer
  dsimp only
  split_ifs
  · rfl
  · rw [← Machine.drive_eq_after]
    exact drive_startTls { self with capabilities } cs
  · exact after_signInAnswer _ cs

/-! ### The whole run -/

/-- A session refuses to upgrade a transport that is protected. -/
theorem resume_new_refused (lib : Libraries) {transport : ManagesieveSessionTransport}
    (sasl : Option (Sasl ε)) {opts : ManagesieveSessionOpenOptions}
    (h : (opts.starttls && transport.isProtected) = true) (arg : Option Bytes) :
    (machine lib).resume (new transport sasl opts) arg =
      (.complete (.error .startTlsOverTls), new transport sasl opts) := by
  have hturn : (loop lib).turn (new transport sasl opts, arg) =
      turnConnect (new transport sasl opts) := rfl
  unfold turnConnect at hturn
  exact resume_of_done (hturn.trans (if_pos h))

/-- Any other session connects, then reads the greeting. -/
theorem resume_new_connect (lib : Libraries) {transport : ManagesieveSessionTransport}
    (sasl : Option (Sasl ε)) {opts : ManagesieveSessionOpenOptions}
    (h : ¬ (opts.starttls && transport.isProtected) = true) (arg : Option Bytes) :
    (machine lib).resume (new transport sasl opts) arg =
      (.yielded (.connect transport),
        { new transport sasl opts with state := .greeting .new }) := by
  have hturn : (loop lib).turn (new transport sasl opts, arg) =
      turnConnect (new transport sasl opts) := rfl
  unfold turnConnect at hturn
  exact resume_of_done (hturn.trans (if_neg h))

/-- **A run shows the legs of a session.** -/
theorem drive_shown (lib : Libraries) (transport : ManagesieveSessionTransport)
    (sasl : Option (Sasl ε)) (opts : ManagesieveSessionOpenOptions) (cs : List Bytes) :
    ((machine lib).drive (new transport sasl opts) none cs).shown =
      openSession lib transport sasl opts cs := by
  unfold openSession
  by_cases hrefused : (opts.starttls && transport.isProtected) = true
  · rw [Machine.drive_complete (resume_new_refused lib sasl hrefused none)]
    rw [Bool.and_eq_true] at hrefused
    rw [if_pos hrefused.1, if_pos hrefused.2]
    rfl
  · have hr := resume_new_connect lib sasl hrefused none
    have hy : (machine (ε := ε) lib).reads (.connect transport) = false := by
      cases transport <;> rfl
    rw [Machine.drive_yield hr hy, Transcript.shown_prepend, drive_greeting]
    cases hs : opts.starttls with
    | true =>
      have hp : transport.isProtected = false := by simpa [hs] using hrefused
      simp [new, hs, hp, reachUpgrade_andThen, Leg.ask]
    | false => simp [new, hs, Leg.ask]

end ManagesieveSessionOpen

end ManageSieve
