import ManageSieve.Rfc5804.Exchange

/-!
# Opening a session

`session.rs`: the coroutine that takes a bare address to an authenticated session. It runs the
coroutines of the greeting, of STARTTLS and of AUTHENTICATE one after the other, and its requests
connect and upgrade the transport besides reading and writing. `ManagesieveSessionOpen.turn` is one
turn of the loop in `resume`, state by state.
-/

namespace ManageSieve

open Coroutine

/-- Where and how the connection is opened. -/
inductive ManagesieveSessionTransport
  | tcp (host : String) (port : UInt16)
  | tls (host : String) (port : UInt16)
  | unix (path : String)
  deriving DecidableEq

/-- Whether the transport protects what travels over it before any upgrade. -/
def ManagesieveSessionTransport.isProtected : ManagesieveSessionTransport → Bool
  | .tcp _ _ => false
  | _ => true

/-- Policy options. -/
structure ManagesieveSessionOpenOptions where
  /-- Upgrade the connection with STARTTLS after the greeting. -/
  starttls : Bool
  /-- Let a mechanism that discloses a reusable credential run over a cleartext connection. -/
  allowCleartextAuth : Bool
  deriving DecidableEq

/-- Failure causes while opening a session. -/
inductive ManagesieveSessionOpenError (ε : Type*)
  | startTlsOverTls
  | startTlsUnsupported
  | cleartextAuth (mechanism : SaslMechanism)
  | urlMissingHost (url : String)
  | urlUnsupportedScheme (url scheme : String)
  | greeting (err : ManagesieveGreetingGetError)
  | startTls (err : ManagesieveStartTlsError)
  | authenticate (err : ManagesieveAuthenticateError ε)
  deriving DecidableEq

/-- An opened session. -/
structure ManagesieveSessionOpenData where
  capabilities : ManagesieveCapabilities
  deriving DecidableEq

/-- Requests made while opening a session. -/
inductive ManagesieveSessionOpenYield
  | wantsTcpConnect (host : String) (port : UInt16)
  | wantsTlsConnect (host : String) (port : UInt16)
  | wantsUnixConnect (path : String)
  | wantsTlsUpgrade
  | wantsRead
  | wantsWrite (bytes : Bytes)
  deriving DecidableEq

namespace ManagesieveSessionOpenYield

/-- A request of a command coroutine. -/
def ofYield : ManagesieveYield → ManagesieveSessionOpenYield
  | .wantsRead => .wantsRead
  | .wantsWrite bytes => .wantsWrite bytes

/-- Whether the caller answers a request with bytes. -/
def isRead : ManagesieveSessionOpenYield → Bool
  | wantsRead => true
  | _ => false

@[simp] theorem isRead_ofYield (y : ManagesieveYield) : (ofYield y).isRead = y.isRead := by
  cases y <;> rfl

/-- The request that opens a connection. -/
def connect : ManagesieveSessionTransport → ManagesieveSessionOpenYield
  | .tcp host port => .wantsTcpConnect host port
  | .tls host port => .wantsTlsConnect host port
  | .unix path => .wantsUnixConnect path

end ManagesieveSessionOpenYield

/-- Whether a mechanism hands a passive observer something it can replay. -/
def disclosesCredential : SaslMechanism → Bool
  | .plain | .login | .oauthBearer | .xoauth2 => true
  | _ => false

variable {ε : Type*}

/-! ## The coroutine -/

namespace ManagesieveSessionOpen

/-- The states of the coroutine. -/
inductive State (ε : Type*)
  | connect
  | greeting (greeting : ManagesieveGreetingGet)
  | startTls (starttls : ManagesieveStartTls)
  | upgraded
  | greetingTls (greeting : ManagesieveGreetingGet)
  | auth (auth : ManagesieveAuthenticate ε)

end ManagesieveSessionOpen

/-- I/O-free session-opening coroutine. -/
structure ManagesieveSessionOpen (ε : Type*) where
  state : ManagesieveSessionOpen.State ε
  transport : ManagesieveSessionTransport
  sasl : Option (Sasl ε)
  capabilities : ManagesieveCapabilities
  upgraded : Bool
  opts : ManagesieveSessionOpenOptions

namespace ManagesieveSessionOpen

/-- What the coroutine ends on. -/
abbrev Return (ε : Type*) := Except (ManagesieveSessionOpenError ε) ManagesieveSessionOpenData

/-- What a resume answers. -/
abbrev SessionAnswer (ε : Type*) :=
  Resumed ManagesieveSessionOpenYield (Return ε) × ManagesieveSessionOpen ε

/-- A coroutine that reaches `transport` and authenticates with `sasl`. -/
def new (transport : ManagesieveSessionTransport) (sasl : Option (Sasl ε))
    (opts : ManagesieveSessionOpenOptions) : ManagesieveSessionOpen ε :=
  ⟨.connect, transport, sasl, .default, false, opts⟩

/-- Build the authentication step, or report that there is nothing to authenticate. -/
def wantsAuth (self : ManagesieveSessionOpen ε) :
    Except (ManagesieveSessionOpenError ε) (Option (State ε)) × ManagesieveSessionOpen ε :=
  match self.sasl with
  | none => (.ok none, self)
  | some sasl =>
    let self := { self with sasl := none }
    let protected_ := self.upgraded || self.transport.isProtected
    if !protected_ && !self.opts.allowCleartextAuth && disclosesCredential sasl.mechanism then
      (.error (.cleartextAuth sasl.mechanism), self)
    else (.ok (some (.auth (.new sasl ⟨true, true⟩))), self)

/-- Terminal value, taking the capabilities observed along the way. -/
def complete (self : ManagesieveSessionOpen ε) : SessionAnswer ε :=
  (.complete (.ok ⟨self.capabilities⟩), { self with capabilities := .default })

/-- What a turn decides. -/
abbrev Step (ε : Type*) := Turn (ManagesieveSessionOpen ε × Option Bytes) (SessionAnswer ε)

/-- What a turn does once a greeting gave its capabilities. -/
def turnAuth (self : ManagesieveSessionOpen ε) (arg : Option Bytes) : Step ε :=
  match self.wantsAuth with
  | (.error err, self) => .done (.complete (.error err), self)
  | (.ok none, self) => .done self.complete
  | (.ok (some next), self) => .again ({ self with state := next }, arg)

/-- A turn in `State::Connect`. -/
def turnConnect (self : ManagesieveSessionOpen ε) : Step ε :=
  if self.opts.starttls && self.transport.isProtected then
    .done (.complete (.error .startTlsOverTls), self)
  else .done (.yielded (.connect self.transport), { self with state := .greeting .new })

/-- A turn in `State::Greeting`. -/
def turnGreeting (self : ManagesieveSessionOpen ε) (greeting : ManagesieveGreetingGet)
    (arg : Option Bytes) : Step ε :=
  let (out, greeting) := ManagesieveGreetingGet.machine.resume greeting arg
  let self := { self with state := .greeting greeting }
  match out with
  | .yielded y => .done (.yielded (.ofYield y), self)
  | .panicked msg => .done (.panicked msg, self)
  | .complete (.error err) => .done (.complete (.error (.greeting err)), self)
  | .complete (.ok capabilities) =>
    let self := { self with capabilities }
    if self.opts.starttls then
      if !self.capabilities.starttls then .done (.complete (.error .startTlsUnsupported), self)
      else .again ({ self with state := .startTls .new }, arg)
    else self.turnAuth arg

/-- A turn in `State::StartTls`. -/
def turnStartTls (self : ManagesieveSessionOpen ε) (starttls : ManagesieveStartTls)
    (arg : Option Bytes) : Step ε :=
  let (out, starttls) := ManagesieveStartTls.machine.resume starttls arg
  let self := { self with state := .startTls starttls }
  match out with
  | .yielded y => .done (.yielded (.ofYield y), self)
  | .panicked msg => .done (.panicked msg, self)
  | .complete (.error err) => .done (.complete (.error (.startTls err)), self)
  | .complete (.ok ()) =>
    .done (.yielded .wantsTlsUpgrade, { self with upgraded := true, state := .upgraded })

/-- A turn in `State::GreetingTls`. -/
def turnGreetingTls (self : ManagesieveSessionOpen ε) (greeting : ManagesieveGreetingGet)
    (arg : Option Bytes) : Step ε :=
  let (out, greeting) := ManagesieveGreetingGet.machine.resume greeting arg
  let self := { self with state := .greetingTls greeting }
  match out with
  | .yielded y => .done (.yielded (.ofYield y), self)
  | .panicked msg => .done (.panicked msg, self)
  | .complete (.error err) => .done (.complete (.error (.greeting err)), self)
  | .complete (.ok capabilities) => turnAuth { self with capabilities } arg

/-- A turn in `State::Auth`. -/
def turnAuthenticate (lib : Libraries) (self : ManagesieveSessionOpen ε)
    (auth : ManagesieveAuthenticate ε) (arg : Option Bytes) : Step ε :=
  let (out, auth) := (ManagesieveAuthenticate.machine lib).resume auth arg
  let self := { self with state := .auth auth }
  match out with
  | .yielded y => .done (.yielded (.ofYield y), self)
  | .panicked msg => .done (.panicked msg, self)
  | .complete (.error err) => .done (.complete (.error (.authenticate err)), self)
  | .complete (.ok capabilities) => .done (complete { self with capabilities })

/-- One turn of the loop of `resume`. -/
def turn (lib : Libraries) (s : ManagesieveSessionOpen ε × Option Bytes) : Step ε :=
  let (self, arg) := s
  match self.state with
  | .connect => self.turnConnect
  | .greeting greeting => self.turnGreeting greeting arg
  | .startTls starttls => self.turnStartTls starttls arg
  | .upgraded => .again ({ self with state := .greetingTls .new }, arg)
  | .greetingTls greeting => self.turnGreetingTls greeting arg
  | .auth auth => self.turnAuthenticate lib auth arg

/-! ## What a turn can change -/

/-- Bounds the requests made one after the other without reading. -/
def budget (self : ManagesieveSessionOpen ε) : ℕ :=
  match self.state with
  | .connect => 6
  | .greeting _ => 5
  | .startTls starttls => ManagesieveStartTls.machine.budget starttls + 4
  | .upgraded => 3
  | .greetingTls _ => 3
  | .auth auth => auth.budget

/-- Lowered by every turn that is not the last one. -/
def rank (self : ManagesieveSessionOpen ε) : ℕ :=
  match self.state with
  | .upgraded => 2
  | .greeting _ | .greetingTls _ => 1
  | _ => 0

/-- What a turn does to the two measures. -/
def Lowers (self : ManagesieveSessionOpen ε) (arg : Option Bytes) : Step ε → Prop
  | .again (self', arg') => self'.rank < self.rank ∧ arg' = arg ∧ self'.budget ≤ self.budget
  | .done (.yielded y, self') => arg = none → y.isRead = false → self'.budget < self.budget
  | .done _ => True

/-- Authentication starts afresh, or not at all. -/
theorem lowers_turnAuth {self : ManagesieveSessionOpen ε} (hr : 0 < self.rank)
    (hb : 3 ≤ self.budget) (arg : Option Bytes) : self.Lowers arg (self.turnAuth arg) := by
  unfold turnAuth wantsAuth
  rcases self.sasl with _ | sasl
  · trivial
  · dsimp only
    split_ifs
    · trivial
    · exact ⟨hr, rfl, hb⟩

theorem lowers_turnGreeting {self : ManagesieveSessionOpen ε} {greeting : ManagesieveGreetingGet}
    (hs : self.state = .greeting greeting) (arg : Option Bytes) :
    self.Lowers arg (self.turnGreeting greeting arg) := by
  have hrank : self.rank = 1 := by simp [rank, hs]
  have hbudget : self.budget = 5 := by simp [budget, hs]
  unfold turnGreeting
  rcases hr : ManagesieveGreetingGet.machine.resume greeting arg with
    ⟨y | (err | capabilities) | msg, greeting'⟩ <;> dsimp only
  · rintro rfl hy
    rw [ManagesieveSessionOpenYield.isRead_ofYield] at hy
    exact absurd (ManagesieveGreetingGet.machine.budget_lt hr hy) (lt_irrefl 0)
  · trivial
  · split_ifs
    · trivial
    · refine ⟨?_, rfl, ?_⟩
      · rw [hrank]
        exact Nat.zero_lt_one
      · rw [hbudget]
        exact Nat.le_refl 5
    · have h := @lowers_turnAuth _ { self with state := .greeting greeting', capabilities }
        Nat.zero_lt_one (show 3 ≤ 5 by decide) arg
      unfold Lowers at h ⊢
      rw [hrank, hbudget]
      exact h
  · trivial

theorem lowers_turnStartTls {self : ManagesieveSessionOpen ε} {starttls : ManagesieveStartTls}
    (hs : self.state = .startTls starttls) (arg : Option Bytes) :
    self.Lowers arg (self.turnStartTls starttls arg) := by
  have hbudget : self.budget = ManagesieveStartTls.machine.budget starttls + 4 := by
    simp [budget, hs]
  unfold turnStartTls
  rcases hr : ManagesieveStartTls.machine.resume starttls arg with
    ⟨y | (err | _) | msg, starttls'⟩ <;> dsimp only
  · rintro rfl hy
    rw [ManagesieveSessionOpenYield.isRead_ofYield] at hy
    rw [hbudget]
    exact Nat.add_lt_add_right (ManagesieveStartTls.machine.budget_lt hr hy) 4
  · trivial
  · intro _ _
    rw [hbudget]
    exact Nat.lt_of_lt_of_le (Nat.lt_succ_self 3) (Nat.le_add_left 4 _)
  · trivial

theorem lowers_turnGreetingTls {self : ManagesieveSessionOpen ε} {greeting : ManagesieveGreetingGet}
    (hs : self.state = .greetingTls greeting) (arg : Option Bytes) :
    self.Lowers arg (self.turnGreetingTls greeting arg) := by
  have hrank : self.rank = 1 := by simp [rank, hs]
  have hbudget : self.budget = 3 := by simp [budget, hs]
  unfold turnGreetingTls
  rcases hr : ManagesieveGreetingGet.machine.resume greeting arg with
    ⟨y | (err | capabilities) | msg, greeting'⟩ <;> dsimp only
  · rintro rfl hy
    rw [ManagesieveSessionOpenYield.isRead_ofYield] at hy
    exact absurd (ManagesieveGreetingGet.machine.budget_lt hr hy) (lt_irrefl 0)
  · trivial
  · have h := @lowers_turnAuth _ { self with state := .greetingTls greeting', capabilities }
      Nat.zero_lt_one (Nat.le_refl 3) arg
    unfold Lowers at h ⊢
    rw [hrank, hbudget]
    exact h
  · trivial

theorem lowers_turnAuthenticate (lib : Libraries) {self : ManagesieveSessionOpen ε}
    {auth : ManagesieveAuthenticate ε} (hs : self.state = .auth auth) (arg : Option Bytes) :
    self.Lowers arg (self.turnAuthenticate lib auth arg) := by
  unfold turnAuthenticate
  rcases hr : (ManagesieveAuthenticate.machine lib).resume auth arg with
    ⟨y | (err | capabilities) | msg, auth'⟩ <;> dsimp only
  · rintro rfl hy
    rw [ManagesieveSessionOpenYield.isRead_ofYield] at hy
    have := (ManagesieveAuthenticate.machine lib).budget_lt hr hy
    rwa [show self.budget = auth.budget by simp [budget, hs]]
  · trivial
  · trivial
  · trivial

theorem lowers_turn (lib : Libraries) (self : ManagesieveSessionOpen ε) (arg : Option Bytes) :
    self.Lowers arg (turn lib (self, arg)) := by
  unfold turn
  dsimp only
  cases hs : self.state with
  | connect =>
    dsimp only [turnConnect]
    split_ifs
    · trivial
    · intro _ _
      simp [budget, hs]
  | greeting greeting => exact lowers_turnGreeting hs arg
  | startTls starttls => exact lowers_turnStartTls hs arg
  | upgraded => exact ⟨by simp [rank, hs], rfl, by simp [budget, hs]⟩
  | greetingTls greeting => exact lowers_turnGreetingTls hs arg
  | auth auth => exact lowers_turnAuthenticate lib hs arg

/-- The loop of `resume`. -/
def loop (lib : Libraries) : Loop (ManagesieveSessionOpen ε × Option Bytes) (SessionAnswer ε) where
  turn := turn lib
  rank s := s.1.rank
  rank_lt {s s'} h := by
    have := lowers_turn lib s.1 s.2
    rw [h] at this
    exact this.1

/-- Advance the coroutine one step. -/
def resume (lib : Libraries) (self : ManagesieveSessionOpen ε) (arg : Option Bytes) :
    SessionAnswer ε :=
  (loop lib).run (self, arg)

/-- The coroutine as a machine. -/
def machine (lib : Libraries) :
    Machine (ManagesieveSessionOpen ε) UInt8 ManagesieveSessionOpenYield (Return ε) where
  resume := resume lib
  reads := ManagesieveSessionOpenYield.isRead
  budget := budget
  budget_lt {s y s'} h hy := by
    refine Loop.run_lt (l := loop lib) (fun t t' ht => ?_) (fun t t' arg ht => ?_) h
    · have := lowers_turn lib t none
      rw [show turn lib (t, none) = _ from ht] at this
      exact this rfl hy
    · have := lowers_turn lib t none
      rw [show turn lib (t, none) = _ from ht] at this
      exact this.2

/-- A resume whose first turn is its last one. -/
theorem resume_of_done {lib : Libraries} {self : ManagesieveSessionOpen ε} {arg : Option Bytes}
    {r : SessionAnswer ε} (h : (loop lib).turn (self, arg) = .done r) :
    (machine lib).resume self arg = r :=
  Loop.run_done _ h

/-- A resume whose first turn goes on is a resume from where that turn leads. -/
theorem resume_of_again {lib : Libraries} {self self' : ManagesieveSessionOpen ε}
    {arg arg' : Option Bytes}
    (h : (loop lib).turn (self, arg) = .again (self', arg')) :
    (machine lib).resume self arg = (machine lib).resume self' arg' :=
  Loop.run_again _ h

end ManagesieveSessionOpen

end ManageSieve
