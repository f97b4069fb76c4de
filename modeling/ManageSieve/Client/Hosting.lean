import ManageSieve.Client.Advertising
import ManageSieve.Client.Opening
import ManageSieve.Client.Signing

/-!
# Opening a session with a server

The loop of `connect` against a server at the other end of its streams. A `Host` greets whoever
connects to it, and again once the connection is encrypted; `Host.opening` is what the session and
the host come to when they deal with each other directly: the greeting, STARTTLS and the upgrade,
the greeting over TLS, authentication.

The legs of a session are carried by the streams (`Host.carried_openSession`), so `connect` comes to
what the two come to, and to nothing else (`Host.connect_iff`).
-/

namespace ManageSieve

open Coroutine

/-- A server that clients connect to: how it greets them, and how once the connection is
encrypted. -/
structure Host (St : Type*) extends SaslServer St where
  welcome : ManagesieveSessionTransport → Reply × St
  secure : St → Reply × St

/-- A stream on which a server was asked to greet. -/
def Connection.greeting {St : Type*} (greeting : Reply × St) (clock : ℕ) : Connection St :=
  ⟨greeting.2, [], greeting.1.bytes, clock⟩

namespace Host

variable {ε : Type*} {ι τ St : Type} (lib : Libraries) (host : Host St)

/-- The streams to a host. -/
def io (ι τ : Type) (cut : ℕ → ℕ) : Io (Connection St) ι τ where
  connectTcp name port := .ok (.greeting (host.welcome (.tcp name port)) 0)
  connectTls name port := .ok (.greeting (host.welcome (.tls name port)) 0)
  connectUnix path := .ok (.greeting (host.welcome (.unix path)) 0)
  upgradeTls conn := .ok (.greeting (host.secure conn.server) conn.clock)
  read conn :=
    let (buf, conn) := ((host.listen lib).stream ι cut).read conn
    buf.map (·, conn)
  writeAll conn bytes :=
    let (written, conn) := ((host.listen lib).stream ι cut).writeAll conn bytes
    written.map fun () => conn

/-! ## The two sides directly -/

/-- What becomes of a greeting. -/
def greeted (reply : Reply) : ManagesieveGreetingGet.Return :=
  if reply.response.completion.status = .ok then .ok (.parse reply.response.data)
  else .error (.rejected reply.response.completion)

/-- What becomes of the answer to STARTTLS. -/
def upgraded (reply : Reply) : ManagesieveStartTls.Return :=
  if reply.response.completion.status = .ok then .ok ()
  else .error (.rejected reply.response.completion)

/-- Read the greeting that was sent. -/
def greet : Deal (Reply × St) St ManagesieveGreetingGetError ManagesieveCapabilities :=
  .answer fun (reply, st) => (greeted reply, st)

/-- Ask for the upgrade. -/
def startTls : Deal St St ManagesieveStartTlsError Unit :=
  .answer fun st => (upgraded (host.answer st .startTls).1, (host.answer st .startTls).2)

/-- Authenticate, then ask for the capabilities. -/
def authenticate (sasl : Sasl ε) :
    Deal St St (ManagesieveAuthenticateError ε) ManagesieveCapabilities := fun st out =>
  ∃ r st', SaslServer.Authenticates lib host.toSaslServer sasl ⟨true, true⟩ st (r, st') ∧
    out = r.map (·, st')

/-- Authenticate, if there are credentials. -/
def signIn (opts : ManagesieveSessionOpenOptions) (protected_ : Bool) (sasl : Option (Sasl ε))
    (capabilities : ManagesieveCapabilities) :
    Deal St St (ManagesieveSessionOpenError ε) ManagesieveSessionOpenData :=
  match sasl with
  | none => .stop (.ok ⟨capabilities⟩)
  | some sasl =>
    if SessionLeg.refuses opts protected_ sasl then .fail (.cleartextAuth sasl.mechanism)
    else ((host.authenticate lib sasl).mapError .authenticate).andThen fun capabilities =>
      .stop (.ok ⟨capabilities⟩)

/-- What the session and the host come to. -/
def opening (transport : ManagesieveSessionTransport) (sasl : Option (Sasl ε))
    (opts : ManagesieveSessionOpenOptions) :
    Deal Unit St (ManagesieveSessionOpenError ε) ManagesieveSessionOpenData :=
  if opts.starttls then
    if transport.isProtected then .fail .startTlsOverTls
    else
      .ask (fun () => host.welcome transport) <| (greet.mapError .greeting).andThen
        fun capabilities =>
          if !capabilities.starttls then .fail .startTlsUnsupported
          else (host.startTls.mapError .startTls).andThen fun () =>
            .ask host.secure <| (greet.mapError .greeting).andThen (host.signIn lib opts true sasl)
  else
    .ask (fun () => host.welcome transport) <|
      (greet.mapError .greeting).andThen (host.signIn lib opts transport.isProtected sasl)

/-! ## Over the streams -/

section Streams

variable {lib host} {cut : ℕ → ℕ}

/-- The stream of a session is the stream of its commands. -/
theorem within_io (lib : Libraries) (host : Host St) (cut : ℕ → ℕ) :
    (((host.listen lib).stream ι cut).transport).Within
      ((host.io lib ι τ cut).transport (ε := ε)) ManagesieveSessionOpenYield.isRead some
      ManagesieveSessionOpenYield.ofYield .io where
  read conn := rfl
  write conn y hy := by
    cases y with
    | wantsRead => cases hy
    | wantsWrite bytes => rfl

/-- The stream carries a greeting. -/
def Greets (greeting : Reply × St) (conn : Connection St) : Prop :=
  ∃ clock, conn = ⟨greeting.2, [], greeting.1.bytes, clock⟩

/-- Everything on the stream was read. -/
def Idles (st : St) (conn : Connection St) : Prop := ∃ clock, conn = .idle st clock

/-- The same of the stream that a session holds. -/
def Holding {D S : Type*} (stands : D → S → Prop) (x : D) (stream : Option S) : Prop :=
  ∃ conn, stands x conn ∧ some conn = stream

theorem greeted_eq (reply : Reply) :
    ManagesieveGreetingGet.finish (.ok ⟨reply.response, []⟩) = greeted reply := by
  unfold ManagesieveGreetingGet.finish greeted
  simp only [ne_eq, not_true_eq_false, if_false, ite_not]

theorem upgraded_eq (reply : Reply) :
    ManagesieveStartTls.finish (.ok ⟨reply.response, []⟩) = upgraded reply := by
  unfold ManagesieveStartTls.finish upgraded
  dsimp only
  rw [if_neg (by simp), ManagesieveClientStd.Method.intoResult_eq]
  split_ifs <;> rfl

theorem deals_greet : ManagesieveGreetingGet.machine.Deals
    ((host.listen lib).stream ι cut).transport Greets Idles .new greet := by
  apply Machine.deals_answer
  rintro ⟨reply, st⟩ _ ⟨clock, rfl⟩
  obtain ⟨clock', hends⟩ :=
    (host.listen lib).ends_read reply ManagesieveGreetingGet.finish ι cut st clock
  rw [greeted_eq] at hends
  exact ⟨_, hends, clock', rfl⟩

theorem deals_startTls (h : Function.Injective lib.asStr) : ManagesieveStartTls.machine.Deals
    ((host.listen lib).stream ι cut).transport Idles Idles .new host.startTls := by
  apply Machine.deals_answer
  rintro st _ ⟨clock, rfl⟩
  have hwrite := (host.answers_listen lib).writeAll h ι cut st clock
    (show ∀ auth, ManagesieveCommand.startTls.normal ≠ .authenticate auth from
      fun auth h => by cases h) (by simp [ManagesieveCommand.arguments])
  obtain ⟨clock', hends⟩ := (host.listen lib).ends_send hwrite ManagesieveStartTls.finish
  rw [upgraded_eq] at hends
  exact ⟨_, hends, clock', rfl⟩

theorem deals_authenticate (h : Function.Injective lib.asStr) {sasl : Sasl ε}
    (hsasl : sasl.Fits lib) : (ManagesieveAuthenticate.machine lib).Deals
      ((host.listen lib).stream ι cut).transport Idles Idles (.new sasl ⟨true, true⟩)
      (host.authenticate lib sasl) where
  forth {st conn out} hst hout := by
    obtain ⟨clock, rfl⟩ := hst
    obtain ⟨r, st', hauth, rfl⟩ := hout
    obtain ⟨clock', hends⟩ := hauth.ends (ι := ι) ⟨true, true⟩ cut h hsasl clock
    rw [valueOf_map]
    exact ⟨_, hends, settles_map ⟨clock', rfl⟩⟩
  back {st conn r conn'} hst hends := by
    obtain ⟨clock, rfl⟩ := hst
    obtain ⟨r', st', clock', hauth, heq⟩ :=
      SaslServer.authenticates_of_ends ⟨true, true⟩ cut h hsasl hends
    cases heq
    exact ⟨_, ⟨r, st', hauth, rfl⟩, valueOf_map r st', settles_map ⟨clock', rfl⟩⟩

/-! ### The legs of a session -/

/-- The streams carry a leg of a session, where this is what the two sides come to. -/
abbrev Carries (ι τ : Type) (lib : Libraries) (host : Host St) (cut : ℕ → ℕ) {D D' A : Type*}
    (pre : D → Option (Connection St) → Prop) (post : D' → Option (Connection St) → Prop)
    (l : SessionLeg ε A) (d : Deal D D' (ManagesieveSessionOpenError ε) A) : Prop :=
  Carried ((host.io lib ι τ cut).transport (ε := ε)) ManagesieveSessionOpenYield.isRead pre post l d

theorem isRead_comp : ManagesieveSessionOpenYield.isRead ∘ ManagesieveSessionOpenYield.ofYield =
    ManagesieveYield.isRead :=
  funext ManagesieveSessionOpenYield.isRead_ofYield

theorem carried_greet : Carries (ε := ε) ι τ lib host cut (Holding Greets) (Holding Idles)
    .greet (greet.mapError .greeting) :=
  Machine.Deals.carried deals_greet (within_io lib host cut) isRead_comp _

theorem carried_startTls (h : Function.Injective lib.asStr) :
    Carries (ε := ε) ι τ lib host cut (Holding Idles) (Holding Idles) .startTls
      (host.startTls.mapError .startTls) :=
  Machine.Deals.carried (deals_startTls h) (within_io lib host cut) isRead_comp _

theorem carried_authenticate (h : Function.Injective lib.asStr) {sasl : Sasl ε}
    (hsasl : sasl.Fits lib) : Carries ι τ lib host cut (Holding Idles) (Holding Idles)
      (.authenticate lib sasl) ((host.authenticate lib sasl).mapError .authenticate) :=
  Machine.Deals.carried (deals_authenticate h hsasl) (within_io lib host cut) isRead_comp _

variable {opts : ManagesieveSessionOpenOptions} {sasl : Option (Sasl ε)}

theorem carried_signIn (h : Function.Injective lib.asStr) (hsasl : ∀ creds ∈ sasl, creds.Fits lib)
    (protected_ : Bool) (capabilities : ManagesieveCapabilities) :
    Carries ι τ lib host cut (Holding Idles) (Holding Idles)
      (SessionLeg.signIn lib opts protected_ sasl capabilities)
      (host.signIn lib opts protected_ sasl capabilities) := by
  cases sasl with
  | none => exact .stop _
  | some sasl =>
    unfold SessionLeg.signIn signIn
    dsimp only
    split_ifs
    · exact .fail _
    · exact (carried_authenticate h (hsasl sasl rfl)).andThen fun capabilities => .stop _

/-- Once it was asked for, the host greets over TLS. -/
theorem carried_overTls (h : Function.Injective lib.asStr)
    (hsasl : ∀ creds ∈ sasl, creds.Fits lib) :
    Carries ι τ lib host cut (Holding Idles) (Holding Idles)
      (.ask .wantsTlsUpgrade (SessionLeg.overTls lib opts sasl))
      (.ask host.secure ((greet.mapError .greeting).andThen (host.signIn lib opts true sasl))) := by
  refine .ask rfl ?_ (carried_greet.andThen (carried_signIn h hsasl true))
  rintro st _ ⟨_, ⟨clock, rfl⟩, rfl⟩
  exact ⟨_, rfl, _, ⟨clock, rfl⟩, rfl⟩

/-- Whoever connects is greeted. -/
theorem write_connect (transport : ManagesieveSessionTransport)
    {stream : Option (Connection St)} (hstream : stream = none) :
    ∃ stream', ((host.io lib ι τ cut).transport (ε := ε)).write stream
        (ManagesieveSessionOpenYield.connect transport) = (.ok (), stream') ∧
      Holding Greets (host.welcome transport) stream' := by
  subst hstream
  cases transport <;> exact ⟨_, rfl, _, ⟨0, rfl⟩, rfl⟩

/-- **The legs of a session are carried**: over the streams to a host, a session comes to what the
two sides come to. -/
theorem carried_openSession (h : Function.Injective lib.asStr)
    (hsasl : ∀ creds ∈ sasl, creds.Fits lib) (transport : ManagesieveSessionTransport) :
    Carries ι τ lib host cut (fun () stream => stream = none) (Holding Idles)
      (SessionLeg.openSession lib transport sasl opts) (host.opening lib transport sasl opts) := by
  unfold SessionLeg.openSession opening
  split_ifs
  · exact .fail _
  · rw [SessionLeg.reachUpgrade_andThen]
    refine .ask (by cases transport <;> rfl) (fun {_ _} => write_connect transport)
      (carried_greet.andThen fun capabilities => ?_)
    split_ifs
    · exact .fail _
    · exact (carried_startTls h).andThen fun () => carried_overTls h hsasl
  · exact .ask (by cases transport <;> rfl) (fun {_ _} => write_connect transport)
      (carried_greet.andThen (carried_signIn h hsasl _))

theorem deals_session (ι τ : Type) (cut : ℕ → ℕ) (h : Function.Injective lib.asStr)
    (hsasl : ∀ creds ∈ sasl, creds.Fits lib) (transport : ManagesieveSessionTransport) :
    (ManagesieveSessionOpen.machine lib).Deals ((host.io lib ι τ cut).transport (ε := ε))
      (fun () stream => stream = none) (Holding Idles) (.new transport sasl opts)
      (host.opening lib transport sasl opts) :=
  (carried_openSession h hsasl transport).deals
    (ManagesieveSessionOpen.drive_shown lib transport sasl opts)

/-- The streams of a host do not fail, but for the one that was not opened. -/
theorem stops_missing {s : ManagesieveSessionOpen ε} {arg : Option Bytes}
    {stream stream' : Option (Connection St)} {err : ManagesieveClientError ε ι τ}
    (h : (ManagesieveSessionOpen.machine lib).Stops (host.io lib ι τ cut).transport s arg stream
      (.failed err, stream')) : err = .missing := by
  have hwrite : ∀ {y}, ((host.io lib ι τ cut).transport (ε := ε)).write stream y =
      (.error err, stream') → err = .missing := by
    intro y h
    rcases stream with _ | conn <;> cases y <;> cases h <;> rfl
  cases h with
  | read hr hy h =>
    rcases stream with _ | conn <;> cases h
    rfl
  | write hr hy h => exact hwrite h

end Streams

/-- What `connect` ends on when the two sides come to `r`. -/
def Opened (r : Except (ManagesieveSessionOpenError ε) (ManagesieveSessionOpenData × St))
    (out : ManagesieveClientStd.Outcome ε (Connection St) ι τ) : Prop :=
  match r with
  | .error err => out = .returned (.error (.sessionOpen err))
  | .ok (data, st) => ∃ clock, out = .returned (.ok (.idle st clock, data.capabilities))

theorem Opened.unique {r r' : Except (ManagesieveSessionOpenError ε)
    (ManagesieveSessionOpenData × St)} {out : ManagesieveClientStd.Outcome ε (Connection St) ι τ}
    (h : Opened r out) (h' : Opened r' out) : r = r' := by
  rcases r with err | ⟨⟨capabilities⟩, st⟩ <;> rcases r' with err' | ⟨⟨capabilities'⟩, st'⟩
  · cases h.symm.trans h'
    rfl
  · obtain ⟨clock, h'⟩ := h'
    cases h.symm.trans h'
  · obtain ⟨clock, h⟩ := h
    cases h'.symm.trans h
  · obtain ⟨clock, h⟩ := h
    obtain ⟨clock', h'⟩ := h'
    cases h.symm.trans h'
    rfl

/-! ## A host that offers an upgrade -/

/-- How far a client of the host is. -/
inductive Stage
  | clear
  | secured
  | signedIn

/-- What the host tells at each stage. -/
def Stage.lines : Stage → List ManagesieveCapability
  | clear => [⟨"StartTLS", none⟩, ⟨"SASL", some ""⟩]
  | secured => [⟨"SASL", some "PLAIN  LOGIN"⟩, ⟨"XVERSION", some "1"⟩]
  | signedIn => [⟨"OWNER", some "user"⟩, ⟨"maxredirects", some "007"⟩, ⟨"OWNER", some "user"⟩]

theorem Stage.fits_lines (stage : Stage) : ∀ line ∈ stage.lines, line.Fits := by
  cases stage <;> decide +kernel

theorem Stage.length_lines (stage : Stage) : (tellingBytes stage.lines).length ≤ maxResponse := by
  cases stage <;> decide +kernel

/-- What the host tells. -/
def Stage.reply (stage : Stage) : Reply := .telling stage.lines stage.fits_lines stage.length_lines

theorem Stage.status_reply (stage : Stage) : stage.reply.response.completion.status = .ok := rfl

theorem Stage.parse_reply (stage : Stage) :
    ManagesieveCapabilities.parse stage.reply.response.data = ⟨stage.lines⟩ :=
  ManagesieveCapabilities.parse_lines stage.lines

/-- A host that tells its stage, and lets everyone sign in. -/
def staged : Host Stage where
  answer stage _ := (stage.reply, stage)
  refusal := .plain .bye
  start _ _ := (.ended (.plain .ok), .signedIn)
  respond stage _ := (.ended (.plain .no), stage)
  cancel stage := (.plain .no, stage)
  welcome transport := if transport.isProtected then (Stage.reply .secured, .secured)
    else (Stage.reply .clear, .clear)
  secure _ := (Stage.reply .secured, .secured)

/-- PLAIN with an initial response. -/
def plainCredentials : Sasl Unit where
  mechanism := .plain
  answer
    | [.none] => .yielded (.wantsWrite (asBytes "user"))
    | _ => .complete (.ok ())

theorem fits_plainCredentials : ∀ creds ∈ some plainCredentials, creds.Fits .standard := by
  rintro _ ⟨⟩ history payload h
  unfold Argument.Fits
  simp only [plainCredentials] at h
  split at h <;> cases h <;> decide +kernel

theorem greeted_reply (stage : Stage) : greeted stage.reply = .ok ⟨stage.lines⟩ := by
  rw [greeted, if_pos stage.status_reply, stage.parse_reply]

theorem greet_staged {E : Type*} (err : ManagesieveGreetingGetError → E) (stage : Stage) :
    greet.mapError err (stage.reply, stage) (.ok (⟨stage.lines⟩, stage)) :=
  ⟨_, congrArg (Except.map (·, stage)) (greeted_reply stage).symm, rfl⟩

/-- PLAIN after the upgrade. -/
theorem opening_staged :
    staged.opening .standard (.tcp "localhost" 4190) (some plainCredentials) ⟨true, false⟩ ()
      (.ok (⟨⟨Stage.lines .signedIn⟩⟩, .signedIn)) := by
  have hauth : staged.authenticate .standard plainCredentials .secured
      (.ok (⟨Stage.lines .signedIn⟩, .signedIn)) := by
    refine ⟨.ok ⟨Stage.lines .signedIn⟩, .signedIn, .opened rfl ?_, rfl⟩
    have hrefreshed : (SaslServer.refreshed (Stage.reply .signedIn) :
        ManagesieveAuthenticate.Return Unit) = .ok ⟨Stage.lines .signedIn⟩ := by
      rw [SaslServer.refreshed, if_pos (Stage.status_reply _), Stage.parse_reply]
    rw [← hrefreshed]
    exact .refreshed rfl rfl
  have hoffer : (⟨Stage.lines .clear⟩ : ManagesieveCapabilities).starttls = true := by
    decide +kernel
  refine .inl ⟨_, _, greet_staged _ .clear, ?_⟩
  dsimp only
  rw [hoffer]
  refine .inl ⟨_, _, ⟨.ok ((), .clear), rfl, rfl⟩, .inl ⟨_, _, greet_staged _ .secured, ?_⟩⟩
  exact .inl ⟨_, _, ⟨_, hauth, rfl⟩, rfl⟩

section Connect

open ManagesieveClientStd

variable {lib host} {cut : ℕ → ℕ} {sasl : Option (Sasl ε)} {opts : ManagesieveSessionOpenOptions}

/-- `connect` ends on what the two sides come to. -/
theorem exists_opened (h : Function.Injective lib.asStr) (cut : ℕ → ℕ)
    (hsasl : ∀ creds ∈ sasl, creds.Fits lib) {transport : ManagesieveSessionTransport}
    {r : Except (ManagesieveSessionOpenError ε) (ManagesieveSessionOpenData × St)}
    (hr : host.opening lib transport sasl opts () r) :
    ∃ out : Outcome ε (Connection St) ι τ,
      EndsWith lib (host.io lib ι τ cut) transport sasl opts out ∧ Opened r out := by
  obtain ⟨stream, hends, hsettles⟩ :=
    (deals_session ι τ cut h hsasl transport).forth rfl hr
  refine ⟨_, endsWith_iff_pump.2 ⟨_, hends, rfl⟩, ?_⟩
  rcases r with err | ⟨data, st⟩
  · rfl
  · obtain ⟨conn, ⟨clock, rfl⟩, rfl⟩ := hsettles data st rfl
    exact ⟨clock, rfl⟩

/-- The two sides come to what `connect` ends on. -/
theorem opened_of_endsWith (h : Function.Injective lib.asStr)
    (hsasl : ∀ creds ∈ sasl, creds.Fits lib) {transport : ManagesieveSessionTransport}
    {out : Outcome ε (Connection St) ι τ}
    (hout : EndsWith lib (host.io lib ι τ cut) transport sasl opts out) :
    ∃ r, host.opening lib transport sasl opts () r ∧ Opened r out := by
  have hsound := sound_of_ends hout connected_new
  obtain ⟨⟨p, stream⟩, hends, rfl⟩ := endsWith_iff_pump.1 hout
  cases p with
  | returned result =>
    obtain ⟨r, hr, rfl, hsettles⟩ := (deals_session ι τ cut h hsasl transport).back rfl hends
    refine ⟨r, hr, ?_⟩
    rcases r with err | ⟨data, st⟩
    · rfl
    · obtain ⟨conn, ⟨clock, rfl⟩, rfl⟩ := hsettles data st rfl
      exact ⟨clock, rfl⟩
  | failed err =>
    obtain ⟨es, s, arg, st, -, -, hstops⟩ := Machine.ends_pump_iff.1 hends
    rw [stops_missing hstops] at hsound
    exact absurd rfl hsound
  | panicked msg => exact hsound.elim

/-- **The wire does not show when a session is opened.** Over the streams to a host, however they
cut what it sends, `connect` ends on what the session and the host come to when they deal with each
other directly, and on nothing else; it returns the connection with nothing left to read. -/
theorem connect_iff (h : Function.Injective lib.asStr) (host : Host St) (cut : ℕ → ℕ)
    (hsasl : ∀ creds ∈ sasl, creds.Fits lib) (transport : ManagesieveSessionTransport)
    (opts : ManagesieveSessionOpenOptions) :
    (∀ r, host.opening lib transport sasl opts () r ↔ ∃ out : Outcome ε (Connection St) ι τ,
      EndsWith lib (host.io lib ι τ cut) transport sasl opts out ∧ Opened r out) ∧
    ∀ out : Outcome ε (Connection St) ι τ,
      EndsWith lib (host.io lib ι τ cut) transport sasl opts out →
        ∃ r : Except (ManagesieveSessionOpenError ε) (ManagesieveSessionOpenData × St),
          Opened r out := by
  refine ⟨fun r => ⟨exists_opened h cut hsasl, ?_⟩, fun out hout => ?_⟩
  · rintro ⟨out, hout, hopened⟩
    obtain ⟨r', hr', hopened'⟩ := opened_of_endsWith h hsasl hout
    rwa [hopened.unique hopened']
  · obtain ⟨r, -, hopened⟩ := opened_of_endsWith h hsasl hout
    exact ⟨r, hopened⟩

/-- PLAIN after an upgrade, over streams that give three octets at a time. -/
theorem connect_iff_staged :
    ∃ out : Outcome Unit (Connection Stage) Unit Unit,
      EndsWith .standard (staged.io .standard Unit Unit fun _ => 3) (.tcp "localhost" 4190)
        (some plainCredentials) ⟨true, false⟩ out ∧
      Opened (.ok (⟨⟨Stage.lines .signedIn⟩⟩, .signedIn)) out :=
  ((connect_iff Libraries.standard_asStr_injective staged (fun _ => 3)
    fits_plainCredentials (.tcp "localhost" 4190) ⟨true, false⟩).1 _).1 opening_staged

/-- **The wire does not show in a whole session.** Opening a session with a host and running a
program over the connection comes to what it comes to when the session and then every method of the
program ask the host directly, and to nothing else; it leaves the stream idle. -/
theorem session_iff {ε ι τ St : Type} {R : Type*} {lib : Libraries}
    (h : Function.Injective lib.asStr) (host : Host St) (cut : ℕ → ℕ) {sasl : Option (Sasl ε)}
    (hsasl : ∀ creds ∈ sasl, creds.Fits lib) (transport : ManagesieveSessionTransport)
    (opts : ManagesieveSessionOpenOptions) {program : ManagesieveCapabilities → Program ε ι R}
    (hfits : ∀ capabilities, (program capabilities).Fits lib) :
    let Comes (r : R) (conn' : Connection St) : Prop := ∃ capabilities conn,
      EndsWith lib (host.io lib ι τ cut) transport sasl opts
        (.returned (.ok (conn, capabilities))) ∧
      Program.Runs ((host.listen lib).stream ι cut) (program capabilities) conn (r, conn')
    (∀ r st, (∃ conn', Comes r conn' ∧ Idles st conn') ↔
      ∃ data opened, host.opening lib transport sasl opts () (.ok (data, opened)) ∧
        (r, st) = (program data.capabilities).exec host.toServer opened) ∧
    ∀ r conn', Comes r conn' → Idles conn'.server conn' := by
  intro Comes
  have hexec := fun capabilities st clock =>
    Program.runs_exec (ι := ι) h (host.answers_listen lib) cut (hfits capabilities) st clock
  -- what the two sides come to when they come to `r` over the streams
  have hback : ∀ {r conn'}, Comes r conn' → ∃ data opened clock,
      host.opening lib transport sasl opts () (.ok (data, opened)) ∧
        r = ((program data.capabilities).exec host.toServer opened).1 ∧
        conn' = .idle ((program data.capabilities).exec host.toServer opened).2 clock := by
    rintro r conn' ⟨capabilities, conn, hends, hruns⟩
    obtain ⟨opened, hopening, hopened⟩ := opened_of_endsWith h hsasl hends
    rcases opened with err | ⟨data, opened⟩
    · cases hopened
    · obtain ⟨clock, heq⟩ := hopened
      cases heq
      obtain ⟨clock', hexec⟩ := hexec data.capabilities opened clock
      cases hruns.unique hexec
      exact ⟨data, opened, clock', hopening, rfl, rfl⟩
  refine ⟨fun r st => ⟨?_, ?_⟩, fun r conn' hcomes => ?_⟩
  · rintro ⟨conn', hcomes, clock, rfl⟩
    obtain ⟨data, opened, clock', hopening, rfl, heq⟩ := hback hcomes
    exact ⟨data, opened, hopening, Prod.ext rfl (congrArg Connection.server heq)⟩
  · rintro ⟨data, opened, hopening, heq⟩
    obtain ⟨out, hends, clock, rfl⟩ := exists_opened (ι := ι) (τ := τ) h cut hsasl hopening
    obtain ⟨clock', hruns⟩ := hexec data.capabilities opened clock
    rw [← heq] at hruns
    exact ⟨_, ⟨_, _, hends, hruns⟩, clock', rfl⟩
  · obtain ⟨data, opened, clock, -, -, rfl⟩ := hback hcomes
    exact ⟨clock, rfl⟩

/-- PLAIN after an upgrade, and then NOOP, which the host answers with its lines. -/
theorem session_iff_noop :
    let program (capabilities : ManagesieveCapabilities) : Program Unit Unit (Option String) :=
      .call (.noop none) fun _ => .done capabilities.owner
    ∃ capabilities conn conn',
      EndsWith .standard (staged.io .standard Unit Unit fun _ => 3) (.tcp "localhost" 4190)
        (some plainCredentials) ⟨true, false⟩ (.returned (.ok (conn, capabilities))) ∧
      Program.Runs ((staged.listen .standard).stream Unit fun _ => 3) (program capabilities) conn
        (some "user", conn') ∧
      Idles .signedIn conn' := by
  intro program
  have hfits : ∀ capabilities, (program capabilities).Fits .standard :=
    fun capabilities => ⟨by decide +kernel, fun _ => trivial⟩
  have hsession := session_iff (τ := Unit) Libraries.standard_asStr_injective staged (fun _ => 3)
    fits_plainCredentials (.tcp "localhost" 4190) ⟨true, false⟩ hfits
  have howner : (⟨Stage.lines .signedIn⟩ : ManagesieveCapabilities).owner = some "user" := by
    decide +kernel
  have hexec : (some "user", Stage.signedIn) =
      (program ⟨Stage.lines .signedIn⟩).exec staged.toServer .signedIn := Prod.ext howner.symm rfl
  obtain ⟨conn', ⟨capabilities, conn, hends, hruns⟩, hidle⟩ :=
    (hsession.1 (some "user") .signedIn).2 ⟨_, _, opening_staged, hexec⟩
  exact ⟨capabilities, conn, conn', hends, hruns, hidle⟩

end Connect

/-! ## What a host advertises -/

/-- A host tells its clients what it offers them in the state that they are in. -/
structure Advertises (host : Host St) (ads : St → Advertisement) : Prop where
  welcome : ∀ transport, (host.welcome transport).1.Tells (ads (host.welcome transport).2)
  secure : ∀ st, (host.secure st).1.Tells (ads (host.secure st).2)
  capability : ∀ st, (host.answer st .capability).1.Tells (ads (host.answer st .capability).2)

section Advertises

variable {host} {ads : St → Advertisement}

theorem ensures_greet (ads : St → Advertisement) :
    greet.Ensures (fun x : Reply × St => x.1.Tells (ads x.2))
      (fun capabilities st => capabilities.advertisement = ads st) := by
  apply Deal.Ensures.answer
  rintro ⟨reply, st⟩ capabilities htells hgreeted
  dsimp only at hgreeted
  unfold greeted at hgreeted
  split_ifs at hgreeted with hok
  cases hgreeted
  exact htells.advertisement_parse hok

/-- An exchange ends well on what the server answers to CAPABILITY. -/
theorem converses_ok {server : SaslServer St} {opts : ManagesieveAuthenticateOptions}
    (hopts : opts.ensureCapabilities = true) {m : Mechanism ε} {pending : Option Bytes}
    {turn : SaslTurn × St} {out : ManagesieveAuthenticate.Return ε × St}
    (h : SaslServer.Converses lib server opts m pending turn out)
    {capabilities : ManagesieveCapabilities} (hout : out.1 = .ok capabilities) :
    ∃ st, (server.answer st .capability).1.response.completion.status = .ok ∧
      capabilities = .parse (server.answer st .capability).1.response.data ∧
      out.2 = (server.answer st .capability).2 := by
  induction h with
  | answered _ _ ih => exact ih hout
  | cancelled _ => cases hout
  | refused _ => cases hout
  | accepted _ hopts' => exact absurd hopts (by simp [hopts'])
  | @refreshed m pending ending st _ _ =>
    unfold SaslServer.refreshed at hout
    dsimp only at hout
    split_ifs at hout with hok
    cases hout
    exact ⟨st, hok, rfl, rfl⟩

theorem ensures_authenticate (hads : host.Advertises ads) (sasl : Sasl ε) :
    (host.authenticate lib sasl).Ensures (fun _ => True)
      (fun capabilities st => capabilities.advertisement = ads st) := by
  rintro st capabilities st' - ⟨r, st'', hauth, heq⟩
  rcases r with err | capabilities' <;> cases heq
  cases hauth with
  | opened hopen hconverses =>
    obtain ⟨st, hok, rfl, rfl⟩ := converses_ok lib rfl hconverses rfl
    exact (hads.capability st).advertisement_parse hok

theorem ensures_signIn (hads : host.Advertises ads) (opts : ManagesieveSessionOpenOptions)
    (protected_ : Bool) (sasl : Option (Sasl ε)) (capabilities : ManagesieveCapabilities) :
    (host.signIn lib opts protected_ sasl capabilities).Ensures
      (fun st => capabilities.advertisement = ads st)
      (fun data st => data.capabilities.advertisement = ads st) := by
  cases sasl with
  | none => exact .stop fun st h => h
  | some sasl =>
    unfold signIn
    dsimp only
    split_ifs
    · exact .fail _
    · have hauth := (ensures_authenticate lib hads sasl).mapError
        (ManagesieveSessionOpenError.authenticate (ε := ε))
      exact .andThen (fun x a x' _ => hauth x a x' trivial) fun _ => .stop fun st h => h

/-- What the session and the host come to. -/
theorem ensures_opening (hads : host.Advertises ads) (transport : ManagesieveSessionTransport)
    (sasl : Option (Sasl ε)) (opts : ManagesieveSessionOpenOptions) :
    (host.opening lib transport sasl opts).Ensures (fun _ => True)
      (fun data st => data.capabilities.advertisement = ads st) := by
  have hwelcome := fun (_ : Unit) (_ : True) => hads.welcome transport
  have hgreet := ensures_greet ads |>.mapError (ManagesieveSessionOpenError.greeting (ε := ε))
  have hsigned := fun protected_ => hgreet.andThen (ensures_signIn lib hads opts protected_ sasl)
  unfold opening
  split_ifs
  · exact .fail _
  · refine .ask hwelcome (hgreet.andThen fun capabilities => ?_)
    split_ifs
    · exact .fail _
    · have hoverTls := Deal.Ensures.ask (fun st (_ : True) => hads.secure st) (hsigned true)
      exact .andThen (fun _ _ _ _ _ => trivial) fun _ => hoverTls
  · exact .ask hwelcome (hsigned _)

open ManagesieveClientStd in
/-- **A connection is returned with what its server advertises then.** Whichever way it was opened,
over TLS, after an upgrade, signed in or neither, the accessors tell what the host offers in the
state that it is in, and nothing that it offered before. -/
theorem connect_advertised {ε ι τ St : Type} {lib : Libraries} (h : Function.Injective lib.asStr)
    {host : Host St} {ads : St → Advertisement} (hads : host.Advertises ads) (cut : ℕ → ℕ)
    {sasl : Option (Sasl ε)} (hsasl : ∀ creds ∈ sasl, creds.Fits lib)
    (transport : ManagesieveSessionTransport) (opts : ManagesieveSessionOpenOptions)
    {conn : Connection St} {capabilities : ManagesieveCapabilities}
    (hends : EndsWith lib (host.io lib ι τ cut) transport sasl opts
      (.returned (.ok (conn, capabilities)))) :
    capabilities.advertisement = ads conn.server := by
  obtain ⟨r, hopening, hopened⟩ := opened_of_endsWith h hsasl hends
  rcases r with err | ⟨data, st⟩
  · cases hopened
  · obtain ⟨clock, heq⟩ := hopened
    cases heq
    exact ensures_opening lib hads transport sasl opts () data st trivial hopening

/-- What `staged` offers. -/
def Stage.advertisement : Stage → Advertisement
  | clear => ⟨none, none, [], [], [], true, false, none, none, none⟩
  | secured => ⟨none, none, [], ["PLAIN", "LOGIN"], [], false, false, none, none, none⟩
  | signedIn => ⟨none, none, [], [], [], false, false, some 7, none, some "user"⟩

theorem Stage.toldBy (stage : Stage) : stage.advertisement.ToldBy stage.lines where
  sound line hline keyword hname := by
    have hmechanisms : Spacing.Spaced isWhitespace (["PLAIN", "LOGIN"].map String.toList)
        "PLAIN  LOGIN".toList := Spacing.words_eq_iff.1 (by decide +kernel)
    cases stage <;> simp only [lines, List.mem_cons, List.not_mem_nil, or_false] at hline <;>
      rcases hline with rfl | rfl | rfl <;> cases keyword <;>
      first
        | exact absurd hname (by decide +kernel)
        | exact ⟨_, rfl, .present _⟩
        | exact ⟨_, rfl, .text _⟩
        | exact ⟨_, rfl, .words hmechanisms⟩
        | exact ⟨_, rfl, .words .nil⟩
        | exact ⟨_, rfl, .number (by decide +kernel) (by decide +kernel) (by decide +kernel)⟩
  complete keyword meaning hmeaning := by
    cases stage <;> cases keyword <;> cases hmeaning <;>
      first
        | exact .inl rfl
        | exact .inr (by decide +kernel)

theorem Stage.tells_reply (stage : Stage) : stage.reply.Tells stage.advertisement :=
  Reply.tells_telling stage.fits_lines stage.length_lines stage.toldBy

theorem advertises_staged : staged.Advertises Stage.advertisement where
  welcome transport := by cases transport <;> exact Stage.tells_reply _
  secure stage := Stage.tells_reply .secured
  capability stage := stage.tells_reply

/-- PLAIN after an upgrade: the offer of STARTTLS is forgotten. -/
theorem connect_advertised_staged :
    ∃ (conn : Connection Stage) (capabilities : ManagesieveCapabilities),
      ManagesieveClientStd.EndsWith .standard (staged.io .standard Unit Unit fun _ => 3)
        (.tcp "localhost" 4190) (some plainCredentials) ⟨true, false⟩
        (.returned (.ok (conn, capabilities))) ∧
      capabilities.advertisement = Stage.advertisement .signedIn := by
  obtain ⟨out, hends, clock, rfl⟩ := exists_opened (ι := Unit) (τ := Unit)
    Libraries.standard_asStr_injective (fun _ => 3) fits_plainCredentials opening_staged
  exact ⟨_, _, hends, connect_advertised Libraries.standard_asStr_injective advertises_staged
    (fun _ => 3) fits_plainCredentials (.tcp "localhost" 4190) ⟨true, false⟩ hends⟩

end Advertises

end Host

end ManageSieve
