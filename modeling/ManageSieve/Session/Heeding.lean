import ManageSieve.Foundations.Heeding
import ManageSieve.Rfc5804.Standing
import ManageSieve.Session.Patience

/-!
# When the server closes the connection

A connection that was closed is read as nothing. Every coroutine takes that for a failure: the
reader, the commands, AUTHENTICATE and the session end on an error with the resume that carries it
(`ManagesieveSessionOpen.heeds`).
-/

namespace ManageSieve

open Coroutine

variable {ε : Type*}

/-! ## Commands -/

/-- What holds before every resume of the reader. -/
def ManagesieveResponseRead.Attends (self : ManagesieveResponseRead) (_ : Option Bytes) : Prop :=
  self.wantsRead = false

theorem ManagesieveResponseRead.heeds : machine.Heeds Attends where
  keeps {self arg y self'} h hr := by
    have hw : self'.wantsRead = false := by
      obtain ⟨wantsRead, buf⟩ := self
      obtain rfl : wantsRead = false := h
      rw [machine_resume] at hr
      rcases arg with _ | _ | ⟨b, data⟩
      · rw [resume_none] at hr
        cases hr
        rfl
      · rw [resume_eof] at hr
        cases hr
      · rw [resume_some buf (List.cons_ne_nil b data)] at hr
        split at hr
        · cases hr
        · split_ifs at hr <;> cases hr
          rfl
        · cases hr
    split_ifs
    · exact fun c => hw
    · exact hw
  ends {self} h := by
    obtain ⟨wantsRead, buf⟩ := self
    obtain rfl : wantsRead = false := h
    exact ⟨_, _, ManagesieveResponseRead.resume_eof buf⟩

/-- What holds before every resume of the sender: nothing was read before the command was
written. -/
def ManagesieveCommandSend.Attends (self : ManagesieveCommandSend) (arg : Option Bytes) : Prop :=
  self.read.Attends arg ∧ (arg = some [] → self.bytes = none)

theorem ManagesieveCommandSend.attends_new (bytes : Bytes) {arg : Option Bytes}
    (h : arg ≠ some []) : (new bytes).Attends arg :=
  ⟨rfl, fun harg => absurd harg h⟩

theorem ManagesieveCommandSend.heeds : machine.Heeds Attends where
  keeps {self arg y self'} h hr := by
    obtain ⟨bytes, read⟩ := self
    obtain ⟨hread, -⟩ := h
    cases bytes with
    | some bytes =>
      cases hr
      exact ⟨hread, fun harg => by cases harg⟩
    | none =>
      rw [resume_read rfl, Prod.mk.injEq] at hr
      obtain ⟨hr, rfl⟩ := hr
      have hkeeps := ManagesieveResponseRead.heeds.keeps hread (Prod.ext hr rfl)
      cases y with
      | wantsRead => exact fun c => ⟨hkeeps c, fun _ => rfl⟩
      | wantsWrite bytes => exact ⟨hkeeps, fun _ => rfl⟩
  ends {self} h := by
    obtain ⟨e, read', hr⟩ := ManagesieveResponseRead.heeds.ends h.1
    rw [ManagesieveResponseRead.machine_resume] at hr
    rw [resume_read (h.2 rfl), hr]
    exact ⟨e, _, rfl⟩

theorem ManagesieveCapabilityGet.heeds :
    ManagesieveCapabilityGet.machine.Heeds ManagesieveCommandSend.Attends :=
  ManagesieveCommandSend.heeds.mapDone fun _ => ⟨_, rfl⟩

theorem ManagesieveGreetingGet.heeds :
    ManagesieveGreetingGet.machine.Heeds ManagesieveResponseRead.Attends :=
  ManagesieveResponseRead.heeds.mapDone fun _ => ⟨_, rfl⟩

theorem ManagesieveStartTls.heeds :
    ManagesieveStartTls.machine.Heeds ManagesieveCommandSend.Attends :=
  ManagesieveCommandSend.heeds.mapDone fun _ => ⟨_, rfl⟩

/-! ## The exchange -/

namespace ManagesieveAuthenticate

open Exchange

/-- What holds before every resume of AUTHENTICATE. -/
inductive Attends (opts : ManagesieveAuthenticateOptions) :
    ManagesieveAuthenticate ε → Option Bytes → Prop
  | start (sasl : Sasl ε) (arg : Option Bytes) : arg ≠ some [] → Attends opts (new sasl opts) arg
  | exchanging (s : Phase ε × Bytes) (arg : Option Bytes) : Attends opts (embed opts s) arg
  | refreshing (s : Phase ε × Bytes) (capability : ManagesieveCapabilityGet) (arg : Option Bytes) :
      capability.Attends arg →
        Attends opts { ended opts s with state := .capability capability } arg

theorem onEof_error (q : Phase ε) (lib : Libraries) : ∃ e, (client lib).onEof q = .error e := by
  cases q <;> exact ⟨_, rfl⟩

theorem heeds (lib : Libraries) (opts : ManagesieveAuthenticateOptions) :
    (machine (ε := ε) lib).Heeds (Attends opts) where
  keeps {self arg y self'} h hr := by
    cases h with
    | start sasl arg harg =>
      cases hopen : opening sasl with
      | error err =>
        rw [resume_new_error hopen] at hr
        cases hr
      | ok payload =>
        rw [resume_new hopen] at hr
        cases hr
        exact .exchanging _ none
    | exchanging s arg =>
      rw [resume_embed] at hr
      rcases hc : (client lib).machine.resume s arg with ⟨(_ | w) | (err | _) | msg, s'⟩ <;>
        rw [hc] at hr
      · cases hr
        exact fun c => .exchanging s' (some c)
      · cases hr
        exact .exchanging s' none
      · cases hr
      · simp only [wrap, finish] at hr
        split_ifs at hr <;> cases hr
        exact .refreshing s' _ none ⟨rfl, fun _ => rfl⟩
      · cases hr
    | refreshing s capability arg hcap =>
      have hnests := nests_capability lib (ended_wantsRead opts s)
      rcases hc : ManagesieveCapabilityGet.machine.resume capability arg with ⟨y' | r | msg, next⟩
      · rw [hnests.resume_yielded trivial hc] at hr
        cases hr
        have hkeeps := ManagesieveCapabilityGet.heeds.keeps hcap hc
        cases y' with
        | wantsRead => exact fun c => .refreshing s next (some c) (hkeeps c)
        | wantsWrite bytes => exact .refreshing s next none hkeeps
      · rw [hnests.resume_complete trivial hc] at hr
        cases hr
      · exact absurd hc (ManagesieveCapabilityGet.safe.ne_panicked trivial arg msg next)
  ends {self} h := by
    cases h with
    | start sasl arg harg => exact absurd rfl harg
    | exchanging s arg =>
      obtain ⟨e, he⟩ := onEof_error s.1 lib
      refine ⟨e, ended opts s, ?_⟩
      rw [resume_embed]
      change wrap opts (.complete ((client lib).onEof s.1), s) = _
      rw [he]
      rfl
    | refreshing s capability arg hcap =>
      obtain ⟨e, next, hc⟩ := ManagesieveCapabilityGet.heeds.ends hcap
      exact ⟨_, _, (nests_capability lib (ended_wantsRead opts s)).resume_complete trivial hc⟩

end ManagesieveAuthenticate

/-! ## The session -/

namespace ManagesieveSessionOpen

/-- What holds before every resume of a session: what the coroutine that it runs asks for. -/
def Attends (self : ManagesieveSessionOpen ε) (arg : Option Bytes) : Prop :=
  match self.state with
  | .connect | .upgraded => arg ≠ some []
  | .greeting greeting | .greetingTls greeting => greeting.Attends arg
  | .startTls starttls => starttls.Attends arg
  | .auth auth => auth.Attends ⟨true, true⟩ arg

/-- What a turn leaves to the resumes that follow. -/
def TurnAttends : Step ε → Prop
  | .again (self, arg) => self.Attends arg ∧ arg ≠ some []
  | .done (.yielded y, self) => if y.isRead then ∀ c, self.Attends (some c) else self.Attends none
  | .done _ => True

/-- A request of the coroutine that the session runs. -/
theorem turnAttends_ofYield {self : ManagesieveSessionOpen ε} {I : Option Bytes → Prop}
    {y : ManagesieveYield} (h : if y.isRead then ∀ c, I (some c) else I none)
    (hI : ∀ arg, I arg → self.Attends arg) : TurnAttends (.done (.yielded (.ofYield y), self)) := by
  cases y with
  | wantsRead => exact fun c => hI (some c) (h c)
  | wantsWrite bytes => exact hI none h

theorem turnAttends_turnAuth {self : ManagesieveSessionOpen ε} {arg : Option Bytes}
    (harg : arg ≠ some []) : TurnAttends (self.turnAuth arg) := by
  unfold turnAuth wantsAuth
  rcases self.sasl with _ | sasl
  · trivial
  · dsimp only
    split_ifs
    · trivial
    · exact ⟨.start sasl arg harg, harg⟩

theorem turnAttends_turnGreeting {self : ManagesieveSessionOpen ε}
    {greeting : ManagesieveGreetingGet} {arg : Option Bytes} (h : greeting.Attends arg)
    (harg : arg ≠ some []) : TurnAttends (self.turnGreeting greeting arg) := by
  unfold turnGreeting
  rcases hr : ManagesieveGreetingGet.machine.resume greeting arg with
    ⟨y | (err | capabilities) | msg, greeting'⟩ <;> dsimp only
  · exact turnAttends_ofYield (ManagesieveGreetingGet.heeds.keeps h hr) fun _ h => h
  · trivial
  · split_ifs
    · trivial
    · exact ⟨ManagesieveCommandSend.attends_new _ harg, harg⟩
    · exact turnAttends_turnAuth harg
  · trivial

theorem turnAttends_turnGreetingTls {self : ManagesieveSessionOpen ε}
    {greeting : ManagesieveGreetingGet} {arg : Option Bytes} (h : greeting.Attends arg)
    (harg : arg ≠ some []) : TurnAttends (self.turnGreetingTls greeting arg) := by
  unfold turnGreetingTls
  rcases hr : ManagesieveGreetingGet.machine.resume greeting arg with
    ⟨y | (err | capabilities) | msg, greeting'⟩ <;> dsimp only
  · exact turnAttends_ofYield (ManagesieveGreetingGet.heeds.keeps h hr) fun _ h => h
  · trivial
  · exact turnAttends_turnAuth harg
  · trivial

theorem turnAttends_turnStartTls {self : ManagesieveSessionOpen ε}
    {starttls : ManagesieveStartTls} {arg : Option Bytes} (h : starttls.Attends arg) :
    TurnAttends (self.turnStartTls starttls arg) := by
  unfold turnStartTls
  rcases hr : ManagesieveStartTls.machine.resume starttls arg with
    ⟨y | (err | _) | msg, starttls'⟩ <;> dsimp only
  · exact turnAttends_ofYield (ManagesieveStartTls.heeds.keeps h hr) fun _ h => h
  · trivial
  · exact fun harg => by cases harg
  · trivial

theorem turnAttends_turnAuthenticate (lib : Libraries) {self : ManagesieveSessionOpen ε}
    {auth : ManagesieveAuthenticate ε} {arg : Option Bytes} (h : auth.Attends ⟨true, true⟩ arg) :
    TurnAttends (self.turnAuthenticate lib auth arg) := by
  unfold turnAuthenticate
  rcases hr : (ManagesieveAuthenticate.machine lib).resume auth arg with
    ⟨y | (err | capabilities) | msg, auth'⟩ <;> dsimp only
  · exact turnAttends_ofYield ((ManagesieveAuthenticate.heeds lib ⟨true, true⟩).keeps h hr)
      fun _ h => h
  all_goals trivial

theorem turnAttends_turn (lib : Libraries) {self : ManagesieveSessionOpen ε} {arg : Option Bytes}
    (h : self.Attends arg) (harg : arg ≠ some []) : TurnAttends (turn lib (self, arg)) := by
  unfold Attends at h
  unfold turn
  dsimp only
  cases hs : self.state <;> rw [hs] at h <;> dsimp only at h ⊢
  case connect =>
    unfold turnConnect
    split_ifs
    · trivial
    · have hread : (ManagesieveSessionOpenYield.connect self.transport).isRead = false := by
        cases self.transport <;> rfl
      simp only [TurnAttends, hread, Bool.false_eq_true, if_false]
      exact rfl
  case greeting greeting => exact turnAttends_turnGreeting h harg
  case startTls starttls => exact turnAttends_turnStartTls h
  case upgraded => exact ⟨rfl, harg⟩
  case greetingTls greeting => exact turnAttends_turnGreetingTls h harg
  case auth auth => exact turnAttends_turnAuthenticate lib h

/-- The end of the data is the end of the session. -/
theorem turn_eof (lib : Libraries) {self : ManagesieveSessionOpen ε} (h : self.Attends (some [])) :
    ∃ err self', turn lib (self, some []) = .done (.complete (.error err), self') := by
  unfold Attends at h
  unfold turn
  dsimp only
  cases hs : self.state <;> rw [hs] at h <;> dsimp only at h ⊢
  case connect => exact absurd rfl h
  case upgraded => exact absurd rfl h
  case greeting greeting =>
    obtain ⟨e, greeting', hr⟩ := ManagesieveGreetingGet.heeds.ends h
    unfold turnGreeting
    rw [hr]
    exact ⟨_, _, rfl⟩
  case greetingTls greeting =>
    obtain ⟨e, greeting', hr⟩ := ManagesieveGreetingGet.heeds.ends h
    unfold turnGreetingTls
    rw [hr]
    exact ⟨_, _, rfl⟩
  case startTls starttls =>
    obtain ⟨e, starttls', hr⟩ := ManagesieveStartTls.heeds.ends h
    unfold turnStartTls
    rw [hr]
    exact ⟨_, _, rfl⟩
  case auth auth =>
    obtain ⟨e, auth', hr⟩ := (ManagesieveAuthenticate.heeds lib ⟨true, true⟩).ends h
    unfold turnAuthenticate
    rw [hr]
    exact ⟨_, _, rfl⟩

theorem resume_eof (lib : Libraries) {self : ManagesieveSessionOpen ε}
    (h : self.Attends (some [])) :
    ∃ err self', (machine lib).resume self (some []) = (.complete (.error err), self') := by
  obtain ⟨err, self', hturn⟩ := turn_eof lib h
  exact ⟨err, self', Loop.run_done _ hturn⟩

/-- **A session heeds the end of the data**, whichever of its coroutines it runs. -/
theorem heeds (lib : Libraries) : (machine (ε := ε) lib).Heeds Attends where
  keeps {self arg y self'} h hr := by
    have harg : arg ≠ some [] := by
      rintro rfl
      obtain ⟨err, t, ht⟩ := resume_eof lib h
      cases ht.symm.trans hr
    have key := (loop lib).run_post
      (P := fun s (r : SessionAnswer ε) => s.1.Attends s.2 ∧ s.2 ≠ some [] → TurnAttends (.done r))
      ?_ ?_ (self, arg) ⟨h, harg⟩
    · have hrun : (loop lib).run (self, arg) = (.yielded y, self') := hr
      rwa [hrun] at key
    · rintro ⟨self, arg⟩ r hturn ⟨h, harg⟩
      have := turnAttends_turn lib h harg
      rwa [show turn lib (self, arg) = _ from hturn] at this
    · rintro ⟨self, arg⟩ ⟨self', arg'⟩ r hturn ih ⟨h, harg⟩
      have := turnAttends_turn lib h harg
      rw [show turn lib (self, arg) = _ from hturn] at this
      exact ih this
  ends h := resume_eof lib h

theorem attends_new (transport : ManagesieveSessionTransport) (sasl : Option (Sasl ε))
    (opts : ManagesieveSessionOpenOptions) : (new transport sasl opts).Attends none :=
  fun harg => by cases harg

end ManagesieveSessionOpen

end ManageSieve
