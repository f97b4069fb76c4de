import ManageSieve.Foundations.Pump
import ManageSieve.Session.Open

/-!
# How long the coroutines ask

A read that leaves a coroutine asking has put an octet into its buffer, and a buffer is given up
when it grew past `maxResponse`. So the coroutines that read one response ask for a bounded number
of reads (`ManagesieveResponseRead.patient`, `ManagesieveCommandSend.patient`), and so does a
session that is opened without credentials (`ManagesieveSessionOpen.patient`).

AUTHENTICATE is not among them: it answers challenges for as long as the server has any.
-/

namespace ManageSieve

open Coroutine

namespace ManagesieveResponseRead

/-- The coroutine between two resumes: what it buffers is within the ceiling. -/
def Capped (self : ManagesieveResponseRead) : Prop :=
  self.wantsRead = false ∧ self.buf.length ≤ maxResponse

/-- The octets that it may still buffer. -/
def patience (self : ManagesieveResponseRead) : ℕ := maxResponse - self.buf.length

theorem capped_new : Capped new := ⟨rfl, Nat.zero_le _⟩

/-- A resume that asks for a read either carried nothing, or buffered what it carried. -/
theorem resume_yielded {self self' : ManagesieveResponseRead} {arg : Option Bytes}
    {y : ManagesieveYield} (h : self.Capped) (hr : self.resume arg = (.yielded y, self')) :
    self'.Capped ∧ self'.buf = self.buf ++ arg.getD [] ∧ arg ≠ some [] := by
  obtain ⟨wantsRead, buf⟩ := self
  obtain ⟨hw, hlen⟩ := h
  dsimp only at hw hlen
  subst hw
  rcases arg with _ | _ | ⟨b, data⟩
  · rw [resume_none] at hr
    cases hr
    exact ⟨⟨rfl, hlen⟩, by simp, by simp⟩
  · rw [resume_eof] at hr
    cases hr
  · rw [resume_some buf (List.cons_ne_nil b data)] at hr
    split at hr
    · cases hr
    · split_ifs at hr with hover
      · cases hr
      · rw [Prod.mk.injEq] at hr
        obtain ⟨-, rfl⟩ := hr
        exact ⟨⟨rfl, Nat.not_lt.1 hover⟩, rfl, by simp⟩
    · cases hr

/-- **The reader is patient**: a read that leaves it asking has filled its buffer further. -/
theorem patient : machine.Patient Capped patience where
  keeps h hr := (resume_yielded h hr).1
  lt {s c y s'} h hr := by
    obtain ⟨⟨-, hlen⟩, hbuf, hne⟩ := resume_yielded h hr
    have hpos : 0 < c.length := List.length_pos_iff.2 (by simpa using hne)
    rw [hbuf, Option.getD_some, List.length_append] at hlen
    unfold patience
    rw [hbuf, Option.getD_some, List.length_append]
    omega
  le h hr := by
    obtain ⟨-, hbuf, -⟩ := resume_yielded h hr
    rw [patience, hbuf, Option.getD_none, List.append_nil]
    exact Nat.le_refl _

end ManagesieveResponseRead

namespace ManagesieveCommandSend

/-- The reader is within its ceiling. -/
def Capped (self : ManagesieveCommandSend) : Prop := self.read.Capped

/-- What the reader may still buffer, and the command if it is not written. -/
def patience (self : ManagesieveCommandSend) : ℕ :=
  self.read.patience + if self.bytes.isSome then 1 else 0

theorem capped_new (bytes : Bytes) : (new bytes).Capped := ManagesieveResponseRead.capped_new

/-- What the reader yields, the sender yields. -/
theorem resume_read {self : ManagesieveCommandSend} (h : self.bytes = none) (arg : Option Bytes) :
    machine.resume self arg =
      ((self.read.resume arg).1, ⟨none, (self.read.resume arg).2⟩) := by
  obtain ⟨bytes, read⟩ := self
  dsimp only at h
  subst h
  rfl

/-- **The sender is patient.** -/
theorem patient : machine.Patient Capped patience := by
  have hread := ManagesieveResponseRead.patient
  -- once the command is written, the sender is the reader
  have hinner : ∀ {read : ManagesieveResponseRead} {arg : Option Bytes} {y : ManagesieveYield}
      {s' : ManagesieveCommandSend}, machine.resume ⟨none, read⟩ arg = (.yielded y, s') →
      ∃ read', ManagesieveResponseRead.machine.resume read arg = (.yielded y, read') ∧
        s' = ⟨none, read'⟩ := by
    intro read arg y s' hr
    rw [resume_read rfl, Prod.mk.injEq] at hr
    exact ⟨_, Prod.ext hr.1 rfl, hr.2.symm⟩
  refine ⟨fun {s arg y s'} hs hr => ?_, fun {s c y s'} hs hr => ?_, fun {s y s'} hs hr => ?_⟩ <;>
    rcases s with ⟨_ | bytes, read⟩
  · obtain ⟨read', hr', rfl⟩ := hinner hr
    exact hread.keeps hs hr'
  · cases hr
    exact hs
  · obtain ⟨read', hr', rfl⟩ := hinner hr
    exact hread.lt hs hr'
  · cases hr
    exact Nat.lt_succ_self _
  · obtain ⟨read', hr', rfl⟩ := hinner hr
    exact hread.le hs hr'
  · cases hr
    exact Nat.le_succ _

end ManagesieveCommandSend

theorem ManagesieveGreetingGet.patient : ManagesieveGreetingGet.machine.Patient
    ManagesieveResponseRead.Capped ManagesieveResponseRead.patience :=
  ManagesieveResponseRead.patient.mapDone _

theorem ManagesieveStartTls.patient : ManagesieveStartTls.machine.Patient
    ManagesieveCommandSend.Capped ManagesieveCommandSend.patience :=
  ManagesieveCommandSend.patient.mapDone _

/-! ## A session without credentials -/

namespace ManagesieveSessionOpen

variable {ε : Type*}

/-- The session has no credentials to use, and the coroutine that it runs is within its ceiling. -/
def Unsigned (self : ManagesieveSessionOpen ε) : Prop :=
  self.sasl = none ∧
    match self.state with
    | .connect | .upgraded => True
    | .greeting greeting | .greetingTls greeting => greeting.Capped
    | .startTls starttls => starttls.Capped
    | .auth _ => False

/-- What the coroutines that are still to run may buffer, and the requests between them. -/
def patience (self : ManagesieveSessionOpen ε) : ℕ :=
  match self.state with
  | .connect => 3 * maxResponse + 5
  | .greeting greeting => greeting.patience + 2 * maxResponse + 4
  | .startTls starttls => starttls.patience + maxResponse + 2
  | .upgraded => maxResponse
  | .greetingTls greeting => greeting.patience
  | .auth _ => 0

theorem unsigned_new (transport : ManagesieveSessionTransport)
    (opts : ManagesieveSessionOpenOptions) :
    (new transport (none : Option (Sasl ε)) opts).Unsigned :=
  ⟨rfl, trivial⟩

/-- What a turn does to the patience of a session. -/
def Tires (self : ManagesieveSessionOpen ε) (arg : Option Bytes) : Step ε → Prop
  | .again (self', arg') => arg' = arg ∧ self'.Unsigned ∧ self'.patience ≤ self.patience
  | .done (.yielded _, self') =>
    self'.Unsigned ∧ self'.patience + (if arg.isSome then 1 else 0) ≤ self.patience
  | .done _ => True

/-- There is nothing to sign in with. -/
theorem tires_turnAuth {self₀ self : ManagesieveSessionOpen ε} (h : self.sasl = none)
    (arg : Option Bytes) : self₀.Tires arg (self.turnAuth arg) := by
  unfold turnAuth wantsAuth
  rw [h]
  trivial

theorem tires_turnGreeting {self : ManagesieveSessionOpen ε} {greeting : ManagesieveGreetingGet}
    (h : self.Unsigned) (hs : self.state = .greeting greeting) (arg : Option Bytes) :
    self.Tires arg (self.turnGreeting greeting arg) := by
  obtain ⟨hsasl, hcapped⟩ := h
  rw [hs] at hcapped
  have hpatience : self.patience = greeting.patience + 2 * maxResponse + 4 := by simp [patience, hs]
  unfold turnGreeting
  rcases hr : ManagesieveGreetingGet.machine.resume greeting arg with
    ⟨y | (err | capabilities) | msg, greeting'⟩ <;> dsimp only
  · have hcost := ManagesieveGreetingGet.patient.cost hcapped hr
    refine ⟨⟨hsasl, ManagesieveGreetingGet.patient.keeps hcapped hr⟩, ?_⟩
    rw [hpatience]
    change greeting'.patience + 2 * maxResponse + 4 + _ ≤ _
    omega
  · trivial
  · split_ifs
    · trivial
    · refine ⟨rfl, ⟨hsasl, ManagesieveCommandSend.capped_new _⟩, ?_⟩
      rw [hpatience]
      change maxResponse + 1 + maxResponse + 2 ≤ _
      omega
    · exact @tires_turnAuth _ self { self with state := .greeting greeting', capabilities } hsasl
        arg
  · trivial

theorem tires_turnStartTls {self : ManagesieveSessionOpen ε} {starttls : ManagesieveStartTls}
    (h : self.Unsigned) (hs : self.state = .startTls starttls) (arg : Option Bytes) :
    self.Tires arg (self.turnStartTls starttls arg) := by
  obtain ⟨hsasl, hcapped⟩ := h
  rw [hs] at hcapped
  have hpatience : self.patience = starttls.patience + maxResponse + 2 := by simp [patience, hs]
  unfold turnStartTls
  rcases hr : ManagesieveStartTls.machine.resume starttls arg with
    ⟨y | (err | _) | msg, starttls'⟩ <;> dsimp only
  · have hcost := ManagesieveStartTls.patient.cost hcapped hr
    refine ⟨⟨hsasl, ManagesieveStartTls.patient.keeps hcapped hr⟩, ?_⟩
    rw [hpatience]
    change starttls'.patience + maxResponse + 2 + _ ≤ _
    omega
  · trivial
  · refine ⟨⟨hsasl, trivial⟩, ?_⟩
    rw [hpatience]
    change maxResponse + _ ≤ _
    split_ifs <;> omega
  · trivial

theorem tires_turnGreetingTls {self : ManagesieveSessionOpen ε} {greeting : ManagesieveGreetingGet}
    (h : self.Unsigned) (hs : self.state = .greetingTls greeting) (arg : Option Bytes) :
    self.Tires arg (self.turnGreetingTls greeting arg) := by
  obtain ⟨hsasl, hcapped⟩ := h
  rw [hs] at hcapped
  have hpatience : self.patience = greeting.patience := by simp [patience, hs]
  unfold turnGreetingTls
  rcases hr : ManagesieveGreetingGet.machine.resume greeting arg with
    ⟨y | (err | capabilities) | msg, greeting'⟩ <;> dsimp only
  · refine ⟨⟨hsasl, ManagesieveGreetingGet.patient.keeps hcapped hr⟩, ?_⟩
    rw [hpatience]
    exact ManagesieveGreetingGet.patient.cost hcapped hr
  · trivial
  · exact @tires_turnAuth _ self { self with state := .greetingTls greeting', capabilities } hsasl
      arg
  · trivial

theorem tires_turn (lib : Libraries) {self : ManagesieveSessionOpen ε} (h : self.Unsigned)
    (arg : Option Bytes) : self.Tires arg (turn lib (self, arg)) := by
  unfold turn
  dsimp only
  cases hs : self.state with
  | connect =>
    dsimp only [turnConnect]
    split_ifs
    · trivial
    · refine ⟨⟨h.1, ManagesieveResponseRead.capped_new⟩, ?_⟩
      have hpatience : self.patience = 3 * maxResponse + 5 := by simp [patience, hs]
      rw [hpatience]
      change maxResponse + 2 * maxResponse + 4 + _ ≤ _
      split_ifs <;> omega
  | greeting greeting => exact tires_turnGreeting h hs arg
  | startTls starttls => exact tires_turnStartTls h hs arg
  | upgraded => exact ⟨rfl, ⟨h.1, ManagesieveResponseRead.capped_new⟩, by simp [patience, hs]; rfl⟩
  | greetingTls greeting => exact tires_turnGreetingTls h hs arg
  | auth auth =>
    have := h.2
    rw [hs] at this
    exact this.elim

/-- What a resume that makes a request costs. -/
theorem tires_resume (lib : Libraries) {self self' : ManagesieveSessionOpen ε} {arg : Option Bytes}
    {y : ManagesieveSessionOpenYield} (h : self.Unsigned)
    (hr : (machine lib).resume self arg = (.yielded y, self')) :
    self'.Unsigned ∧ self'.patience + (if arg.isSome then 1 else 0) ≤ self.patience := by
  have key := (loop lib).run_post
    (P := fun t (r : SessionAnswer ε) => t.1.Unsigned → r.1 = .yielded y →
      r.2.Unsigned ∧ r.2.patience + (if t.2.isSome then 1 else 0) ≤ t.1.patience)
    ?_ ?_ (self, arg) h
  · have hrun : (loop lib).run (self, arg) = (.yielded y, self') := hr
    rw [hrun] at key
    exact key rfl
  · rintro ⟨t, arg⟩ ⟨out, t'⟩ hturn ht rfl
    have htires := tires_turn lib ht arg
    rw [show turn lib (t, arg) = _ from hturn] at htires
    exact htires
  · rintro ⟨t, arg⟩ ⟨t', arg'⟩ r hturn ih ht hy
    have htires := tires_turn lib ht arg
    rw [show turn lib (t, arg) = _ from hturn] at htires
    obtain ⟨rfl, ht', hle⟩ := htires
    obtain ⟨hr, hcost⟩ := ih ht' hy
    exact ⟨hr, Nat.le_trans hcost hle⟩

/-- **A session without credentials is patient.** -/
theorem patient (lib : Libraries) : (machine lib).Patient (Unsigned (ε := ε)) patience where
  keeps h hr := (tires_resume lib h hr).1
  lt h hr := (tires_resume lib h hr).2
  le h hr := (tires_resume lib h hr).2

end ManagesieveSessionOpen

end ManageSieve
