import ManageSieve.Foundations.Contained
import ManageSieve.Rfc5804.Standing
import ManageSieve.Session.Legs
import ManageSieve.Session.Patience

/-!
# How much a session holds

What the coroutines hold of what they read: their buffers, of which a session has at most two, that
of an exchange that ended and that of the capabilities that are read after it. A server cannot make
them grow, whatever it sends and however much of it: `ManagesieveSessionOpen.run_buffered` bounds
what a session holds, at any time, by the ceiling on responses and the length of a read, twice.
-/

namespace ManageSieve

open Coroutine Reactor

variable {ε : Type*}

/-! ## Reading one response -/

namespace ManagesieveResponseRead

/-- Between two resumes the buffer is within the ceiling. -/
theorem contained (k : ℕ) : machine.Contained k (maxResponse + k) (fun self => self.buf.length)
    fun self arg => self.Capped ∧ (arg.getD []).length ≤ k where
  before h := Nat.add_le_add h.1.2 h.2
  leaves {self arg} h := by
    obtain ⟨hcapped, harg⟩ := h
    have hsize : (self.resume arg).2.buf.length ≤ maxResponse + k := by
      obtain ⟨wantsRead, buf⟩ := self
      obtain ⟨hw, hlen⟩ := hcapped
      dsimp only at hw hlen
      subst hw
      rcases arg with _ | _ | ⟨b, data⟩
      · rw [resume_none]
        exact Nat.le_add_right_of_le hlen
      · rw [resume_eof]
        exact Nat.le_add_right_of_le hlen
      · have hread : (buf ++ b :: data).length ≤ maxResponse + k := by
          rw [List.length_append]
          exact Nat.add_le_add hlen harg
        rw [resume_some buf (List.cons_ne_nil b data)]
        split
        · exact hread
        · split_ifs <;> exact hread
        · exact Nat.le_trans (List.length_take_le' _ _) hread
    rw [machine_resume]
    rcases hr : self.resume arg with ⟨y | r | msg, self'⟩ <;> rw [hr] at hsize
    · obtain ⟨hcapped', -, -⟩ := resume_yielded hcapped hr
      refine ⟨hsize, ?_⟩
      split_ifs
      · exact fun c hc => ⟨hcapped', hc⟩
      · exact ⟨hcapped', Nat.zero_le k⟩
    · exact hsize
    · exact hsize

end ManagesieveResponseRead

/-- A command holds what its reader does. -/
theorem ManagesieveCommandSend.contained (k : ℕ) :
    machine.Contained k (maxResponse + k) (fun self => self.read.buf.length)
      fun self arg => self.Capped ∧ (arg.getD []).length ≤ k where
  before h := (ManagesieveResponseRead.contained k).before h
  leaves {self arg} h := by
    have hread := (ManagesieveResponseRead.contained k).leaves h
    rcases self with ⟨_ | bytes, read⟩
    · rw [resume_read rfl]
      rcases hr : read.resume arg with ⟨y | r | msg, read'⟩ <;>
        rw [show ManagesieveResponseRead.machine.resume read arg = _ from hr] at hread <;>
        exact hread
    · exact ⟨Nat.le_add_right_of_le h.1.2, h.1, Nat.zero_le k⟩

theorem ManagesieveCapabilityGet.contained (k : ℕ) :
    machine.Contained k (maxResponse + k) (fun self => self.read.buf.length)
      fun self arg => ManagesieveCommandSend.Capped self ∧ (arg.getD []).length ≤ k :=
  (ManagesieveCommandSend.contained k).mapDone finish

theorem ManagesieveGreetingGet.contained (k : ℕ) :
    machine.Contained k (maxResponse + k) (fun self => self.buf.length)
      fun self arg => ManagesieveResponseRead.Capped self ∧ (arg.getD []).length ≤ k :=
  (ManagesieveResponseRead.contained k).mapDone finish

theorem ManagesieveStartTls.contained (k : ℕ) :
    machine.Contained k (maxResponse + k) (fun self => self.read.buf.length)
      fun self arg => ManagesieveCommandSend.Capped self ∧ (arg.getD []).length ≤ k :=
  (ManagesieveCommandSend.contained k).mapDone finish

/-! ## The exchange -/

namespace ManagesieveAuthenticate

open Exchange

/-- What the coroutine holds: its own buffer, and that of the capabilities that are read again. -/
def buffered (self : ManagesieveAuthenticate ε) : ℕ :=
  self.buf.length +
    match self.state with
    | .capability capability => capability.read.buf.length
    | _ => 0

/-- What holds before every resume. The buffer of an exchange that ended stays as it was. -/
inductive Holds (k : ℕ) (opts : ManagesieveAuthenticateOptions) :
    ManagesieveAuthenticate ε → Option Bytes → Prop
  | start (sasl : Sasl ε) (arg : Option Bytes) : (arg.getD []).length ≤ k →
      Holds k opts (new sasl opts) arg
  | exchanging (s : Phase ε × Bytes) (arg : Option Bytes) :
      (s.2 ++ arg.getD []).length ≤ maxResponse + k → Holds k opts (embed opts s) arg
  | refreshing (s : Phase ε × Bytes) (capability : ManagesieveCapabilityGet) (arg : Option Bytes) :
      s.2.length ≤ maxResponse + k → capability.Capped → (arg.getD []).length ≤ k →
      Holds k opts { ended opts s with state := .capability capability } arg

theorem buffered_embed (opts : ManagesieveAuthenticateOptions) (s : Phase ε × Bytes) :
    (embed opts s).buffered = s.2.length := by
  rcases s with ⟨m | ⟨m, error⟩, buf⟩ <;> rfl

theorem buffered_ended (opts : ManagesieveAuthenticateOptions) (s : Phase ε × Bytes) :
    (ended opts s).buffered = s.2.length := by
  rcases s with ⟨m | ⟨m, error⟩, buf⟩ <;> rfl

theorem buffered_refreshing (opts : ManagesieveAuthenticateOptions) (s : Phase ε × Bytes)
    (capability : ManagesieveCapabilityGet) :
    buffered { ended opts s with state := .capability capability } =
      s.2.length + capability.read.buf.length := by
  rcases s with ⟨m | ⟨m, error⟩, buf⟩ <;> rfl

theorem contained (lib : Libraries) (k : ℕ) (opts : ManagesieveAuthenticateOptions) :
    (machine (ε := ε) lib).Contained k (2 * (maxResponse + k)) buffered (Holds k opts) where
  before {self arg} h := by
    cases h with
    | start sasl arg harg => exact Nat.le_trans (Nat.add_le_add_left harg 0) (by omega)
    | exchanging s arg hlen =>
      rw [buffered_embed, ← List.length_append]
      omega
    | refreshing s capability arg hlen hcapped harg =>
      rw [buffered_refreshing]
      have := hcapped.2
      omega
  leaves {self arg} h := by
    cases h with
    | start sasl arg harg =>
      cases hopen : opening sasl with
      | error err =>
        rw [resume_new_error hopen]
        exact Nat.zero_le _
      | ok payload =>
        rw [resume_new hopen]
        refine ⟨?_, .exchanging _ none (Nat.zero_le _)⟩
        rw [buffered_embed]
        exact Nat.zero_le _
    | exchanging s arg hlen =>
      have hsize := (Client.resume_length_le (c := client lib) s arg).trans hlen
      rw [resume_embed]
      rcases hr : (client lib).machine.resume s arg with ⟨(_ | w) | (err | _) | msg, s'⟩ <;>
        rw [hr] at hsize <;> dsimp only at hsize
      · obtain ⟨-, hle⟩ := Client.resume_read hr
        refine ⟨?_, fun c hc => .exchanging s' (some c) ?_⟩
        · rw [buffered_embed]
          omega
        · rw [List.length_append]
          exact Nat.add_le_add hle hc
      · refine ⟨?_, .exchanging s' none ?_⟩
        · rw [buffered_embed]
          omega
        · simpa using hsize
      · change buffered (ended opts s') ≤ _
        rw [buffered_ended]
        omega
      · simp only [wrap, finish]
        split_ifs
        · refine ⟨?_, .refreshing s' _ none hsize
            ManagesieveResponseRead.capped_new (Nat.zero_le k)⟩
          rw [buffered_refreshing]
          change s'.2.length + 0 ≤ _
          omega
        · change buffered (ended opts s') ≤ _
          rw [buffered_ended]
          omega
      · exact absurd hr (Client.resume_ne_panicked s s' arg msg)
    | refreshing s capability arg hlen hcapped harg =>
      have hnests := nests_capability lib (ended_wantsRead opts s)
      have hleaves := (ManagesieveCapabilityGet.contained k).leaves ⟨hcapped, harg⟩
      rcases hr : ManagesieveCapabilityGet.machine.resume capability arg with
        ⟨y | r | msg, next⟩ <;>
        rw [hr] at hleaves
      · rw [hnests.resume_yielded trivial hr]
        obtain ⟨hsize, hleaves⟩ := hleaves
        dsimp only at hsize
        refine ⟨?_, ?_⟩
        · rw [buffered_refreshing]
          omega
        · cases y with
          | wantsRead =>
            exact fun c hc => .refreshing s next (some c) hlen (hleaves c hc).1 (hleaves c hc).2
          | wantsWrite bytes => exact .refreshing s next none hlen hleaves.1 hleaves.2
      · rw [hnests.resume_complete trivial hr]
        change buffered { ended opts s with state := .capability next } ≤ _
        rw [buffered_refreshing]
        have : next.read.buf.length ≤ maxResponse + k := hleaves
        omega
      · exact absurd hr (ManagesieveCapabilityGet.safe.ne_panicked trivial arg msg next)

end ManagesieveAuthenticate

/-! ## The session -/

namespace ManagesieveSessionOpen

/-- What the session holds: the buffers of the coroutine that it runs. -/
def buffered (self : ManagesieveSessionOpen ε) : ℕ :=
  match self.state with
  | .connect | .upgraded => 0
  | .greeting greeting | .greetingTls greeting => greeting.buf.length
  | .startTls starttls => starttls.read.buf.length
  | .auth auth => auth.buffered

/-- What holds before every resume: what the coroutine that the session runs asks for. -/
def Holds (k : ℕ) (self : ManagesieveSessionOpen ε) (arg : Option Bytes) : Prop :=
  (arg.getD []).length ≤ k ∧
    match self.state with
    | .connect | .upgraded => True
    | .greeting greeting | .greetingTls greeting => greeting.Capped
    | .startTls starttls => starttls.Capped
    | .auth auth => auth.Holds k ⟨true, true⟩ arg

/-- What a turn leaves behind. -/
def TurnLeaves (k : ℕ) : Step ε → Prop
  | .again (self, arg) => Holds k self arg
  | .done r => Machine.Leaves ManagesieveSessionOpenYield.isRead k (2 * (maxResponse + k)) buffered
      (Holds k) r

/-- What a request of the coroutine that the session runs leaves behind. -/
theorem leaves_yielded {σ R : Type*} {m : Machine σ UInt8 ManagesieveYield R} {k cap : ℕ}
    {size : σ → ℕ} {I : σ → Option Bytes → Prop} {y : ManagesieveYield} {s : σ}
    {self : ManagesieveSessionOpen ε} (hreads : m.reads = ManagesieveYield.isRead)
    (h : Machine.Leaves (R := R) m.reads k cap size I (.yielded y, s))
    (hcap : cap ≤ 2 * (maxResponse + k)) (hsize : self.buffered = size s)
    (hI : ∀ arg, (arg.getD []).length ≤ k → I s arg → Holds k self arg) :
    TurnLeaves k (.done (.yielded (.ofYield y), self)) := by
  obtain ⟨hle, hnext⟩ := h
  rw [← hsize] at hle
  refine ⟨hle.trans hcap, ?_⟩
  rw [hreads] at hnext
  cases y with
  | wantsRead => exact fun c hc => hI (some c) hc (hnext c hc)
  | wantsWrite bytes => exact hI none (Nat.zero_le k) hnext

/-- A session that ends holds what it held. -/
theorem turnLeaves_turnAuth {k : ℕ} {self : ManagesieveSessionOpen ε} {arg : Option Bytes}
    (harg : (arg.getD []).length ≤ k) (hsize : self.buffered ≤ 2 * (maxResponse + k)) :
    TurnLeaves k (self.turnAuth arg) := by
  unfold turnAuth wantsAuth
  rcases self.sasl with _ | sasl
  · exact hsize
  · dsimp only
    split_ifs
    · exact hsize
    · exact ⟨harg, .start sasl arg harg⟩

theorem turnLeaves_turnGreeting {k : ℕ} {self : ManagesieveSessionOpen ε}
    {greeting : ManagesieveGreetingGet} {arg : Option Bytes} (h : greeting.Capped)
    (harg : (arg.getD []).length ≤ k) : TurnLeaves k (self.turnGreeting greeting arg) := by
  have hleaves := (ManagesieveGreetingGet.contained k).leaves ⟨h, harg⟩
  have hsize := hleaves.size_le
  unfold turnGreeting
  rcases hr : ManagesieveGreetingGet.machine.resume greeting arg with
    ⟨y | (err | capabilities) | msg, greeting'⟩ <;> rw [hr] at hleaves hsize <;> dsimp only at *
  · exact leaves_yielded rfl hleaves (by omega) rfl fun arg harg hI => ⟨harg, hI.1⟩
  · exact hsize.trans (by omega)
  · have hbuffered : greeting'.buf.length ≤ 2 * (maxResponse + k) := by omega
    split_ifs
    · exact hbuffered
    · exact ⟨harg, ManagesieveResponseRead.capped_new⟩
    · exact turnLeaves_turnAuth harg hbuffered
  · exact hsize.trans (by omega)

theorem turnLeaves_turnStartTls {k : ℕ} {self : ManagesieveSessionOpen ε}
    {starttls : ManagesieveStartTls} {arg : Option Bytes} (h : starttls.Capped)
    (harg : (arg.getD []).length ≤ k) : TurnLeaves k (self.turnStartTls starttls arg) := by
  have hleaves := (ManagesieveStartTls.contained k).leaves ⟨h, harg⟩
  have hsize := hleaves.size_le
  unfold turnStartTls
  rcases hr : ManagesieveStartTls.machine.resume starttls arg with
    ⟨y | (err | _) | msg, starttls'⟩ <;> rw [hr] at hleaves hsize <;> dsimp only at *
  · exact leaves_yielded rfl hleaves (by omega) rfl fun arg harg hI => ⟨harg, hI.1⟩
  · exact hsize.trans (by omega)
  · exact ⟨Nat.zero_le _, Nat.zero_le k, trivial⟩
  · exact hsize.trans (by omega)

theorem turnLeaves_turnGreetingTls {k : ℕ} {self : ManagesieveSessionOpen ε}
    {greeting : ManagesieveGreetingGet} {arg : Option Bytes} (h : greeting.Capped)
    (harg : (arg.getD []).length ≤ k) : TurnLeaves k (self.turnGreetingTls greeting arg) := by
  have hleaves := (ManagesieveGreetingGet.contained k).leaves ⟨h, harg⟩
  have hsize := hleaves.size_le
  unfold turnGreetingTls
  rcases hr : ManagesieveGreetingGet.machine.resume greeting arg with
    ⟨y | (err | capabilities) | msg, greeting'⟩ <;> rw [hr] at hleaves hsize <;> dsimp only at *
  · exact leaves_yielded rfl hleaves (by omega) rfl fun arg harg hI => ⟨harg, hI.1⟩
  · exact hsize.trans (by omega)
  · exact turnLeaves_turnAuth harg (show greeting'.buf.length ≤ _ by omega)
  · exact hsize.trans (by omega)

theorem turnLeaves_turnAuthenticate (lib : Libraries) {k : ℕ} {self : ManagesieveSessionOpen ε}
    {auth : ManagesieveAuthenticate ε} {arg : Option Bytes} (h : auth.Holds k ⟨true, true⟩ arg) :
    TurnLeaves k (self.turnAuthenticate lib auth arg) := by
  have hleaves := (ManagesieveAuthenticate.contained lib k ⟨true, true⟩).leaves h
  have hsize := hleaves.size_le
  unfold turnAuthenticate
  rcases hr : (ManagesieveAuthenticate.machine lib).resume auth arg with
    ⟨y | (err | capabilities) | msg, auth'⟩ <;> rw [hr] at hleaves hsize <;> dsimp only at *
  · exact leaves_yielded rfl hleaves le_rfl rfl fun arg harg hI => ⟨harg, hI⟩
  · exact hsize
  · exact hsize
  · exact hsize

theorem turnLeaves_turn (lib : Libraries) {k : ℕ} {self : ManagesieveSessionOpen ε}
    {arg : Option Bytes} (h : Holds k self arg) : TurnLeaves k (turn lib (self, arg)) := by
  obtain ⟨harg, hstate⟩ := h
  unfold turn
  dsimp only
  cases hs : self.state with
  | connect =>
    dsimp only [turnConnect]
    split_ifs
    · change self.buffered ≤ _
      simp [buffered, hs]
    · refine ⟨Nat.zero_le _, ?_⟩
      have hread : (ManagesieveSessionOpenYield.connect self.transport).isRead = false := by
        cases self.transport <;> rfl
      rw [hread]
      exact ⟨Nat.zero_le k, ManagesieveResponseRead.capped_new⟩
  | greeting greeting =>
    rw [hs] at hstate
    exact turnLeaves_turnGreeting hstate harg
  | startTls starttls =>
    rw [hs] at hstate
    exact turnLeaves_turnStartTls hstate harg
  | upgraded => exact ⟨harg, ManagesieveResponseRead.capped_new⟩
  | greetingTls greeting =>
    rw [hs] at hstate
    exact turnLeaves_turnGreetingTls hstate harg
  | auth auth =>
    rw [hs] at hstate
    exact turnLeaves_turnAuthenticate lib hstate

/-- **What a session holds** between two resumes is bounded. -/
theorem contained (lib : Libraries) (k : ℕ) : (machine (ε := ε) lib).Contained k
    (2 * (maxResponse + k)) buffered (Holds k) where
  before {self arg} h := by
    obtain ⟨harg, hstate⟩ := h
    unfold buffered
    rcases hs : self.state with _ | greeting | starttls | _ | greeting | auth <;>
      rw [hs] at hstate <;> dsimp only at *
    · omega
    · have := hstate.2
      omega
    · have : starttls.read.buf.length ≤ maxResponse := hstate.2
      omega
    · omega
    · have := hstate.2
      omega
    · exact (ManagesieveAuthenticate.contained lib k ⟨true, true⟩).before hstate
  leaves {self arg} h := by
    refine (loop lib).run_post (P := fun s r => Holds k s.1 s.2 → Machine.Leaves
      ManagesieveSessionOpenYield.isRead k (2 * (maxResponse + k)) buffered (Holds k) r)
      ?_ ?_ (self, arg) h
    · rintro ⟨self, arg⟩ r hturn h
      have := turnLeaves_turn lib h
      rwa [show turn lib (self, arg) = _ from hturn] at this
    · rintro ⟨self, arg⟩ ⟨self', arg'⟩ r hturn ih h
      have := turnLeaves_turn lib h
      rw [show turn lib (self, arg) = _ from hturn] at this
      exact ih this

theorem holds_new (k : ℕ) (transport : ManagesieveSessionTransport) (sasl : Option (Sasl ε))
    (opts : ManagesieveSessionOpenOptions) : Holds k (new transport sasl opts) none :=
  ⟨Nat.zero_le k, trivial⟩

/-- **A hostile server cannot grow a session**: while no read is longer than `k`, what the session
holds, with what a resume carries, never goes past twice the ceiling and a read, before or after any
of its resumes, however many lines, challenges or parts of a response the server sends. -/
theorem run_buffered {lib : Libraries} {transport : ManagesieveSessionTransport}
    {sasl : Option (Sasl ε)} {opts : ManagesieveSessionOpenOptions}
    {es : List (Event UInt8 ManagesieveSessionOpenYield)} {s : ManagesieveSessionOpen ε}
    {arg : Option Bytes} {k : ℕ}
    (h : (machine lib).Run (new transport sasl opts) es s arg)
    (hk : ∀ c ∈ fedOf es, c.length ≤ k) :
    s.buffered + (arg.getD []).length ≤ 2 * (maxResponse + k) ∧
      ((machine lib).resume s arg).2.buffered ≤ 2 * (maxResponse + k) :=
  (contained lib k).size_le (holds_new k transport sasl opts) h hk

/-- The greeting, of which two octets were read. -/
theorem run_buffered_greeting :
    let session : ManagesieveSessionOpen Unit := .new (.unix "/run/sieve") none ⟨false, false⟩
    buffered { session with state := .greeting ⟨false, []⟩ } + 2 ≤ 2 * (maxResponse + 2) := by
  intro session
  have hconnect := resume_new_connect .standard (none : Option (Sasl Unit)) (by decide :
    ¬ ((⟨false, false⟩ : ManagesieveSessionOpenOptions).starttls &&
      (ManagesieveSessionTransport.unix "/run/sieve").isProtected) = true) none
  have hask : ManagesieveGreetingGet.machine.resume ⟨false, []⟩ none =
      (.yielded .wantsRead, ⟨false, []⟩) := by decide +kernel
  have hask := (nests_greeting .standard session).resume_yielded trivial hask
  exact (run_buffered (.read (asBytes "OK") (.yield .start hconnect rfl) hask rfl)
    (by decide +kernel)).1

end ManagesieveSessionOpen

end ManageSieve
