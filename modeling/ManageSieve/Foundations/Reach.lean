import ManageSieve.Foundations.Coroutine

/-!
# The states that runs reach

What is said of a coroutine in the middle of a run is said of the states that it reaches. There are
two ways to reach a state, apart in what the caller may do.

* `Machine.Reached` leaves the caller free: a resume carries any argument, whatever was asked for.
  `Safe.reached` is the rule of its invariants, those under which no resume unwinds.
* `Machine.Run` is a caller that keeps the contract: it feeds one read for each request for data,
  and nothing after any other request. It sees the events so far, and `Run.keeps` carries over what
  `Machine.Keeps` says of a resume.

`Loop.Takes` counts the turns of the loop inside a resume, and `Loop.exists_takes` bounds them by
the rank.
-/

namespace Coroutine

variable {σ ρ α Y R : Type*}

/-! ## Counting the turns of a loop -/

namespace Loop

/-- The loop takes `n` turns from `s` before the one that returns `r`. -/
inductive Takes (l : Loop σ ρ) : ℕ → σ → ρ → Prop
  | done {s r} : l.turn s = .done r → Takes l 0 s r
  | again {n s s' r} : l.turn s = .again s' → Takes l n s' r → Takes l (n + 1) s r

/-- **A loop returns**, after as many turns as its rank allows. -/
theorem exists_takes (l : Loop σ ρ) (s : σ) : ∃ n ≤ l.rank s, l.Takes n s (l.run s) := by
  induction hk : l.rank s using Nat.strongRecOn generalizing s with
  | ind k ih =>
    subst hk
    cases ht : l.turn s with
    | done r =>
      rw [l.run_done ht]
      exact ⟨0, Nat.zero_le _, .done ht⟩
    | again s' =>
      obtain ⟨n, hn, htakes⟩ := ih _ (l.rank_lt ht) s' rfl
      have hlt := l.rank_lt ht
      rw [l.run_again ht]
      exact ⟨n + 1, by omega, .again ht htakes⟩

end Loop

/-- Whether a resume returned to its caller, rather than unwinding. -/
def Resumed.returns : Resumed Y R → Bool
  | .panicked _ => false
  | _ => true

/-- A resume written as a loop returns from `s`, whatever it carries: the loop ends after no more
turns than its rank allows, on an answer. -/
def Loop.Returns (l : Loop (σ × Option (List α)) (Resumed Y R × σ)) (s : σ) : Prop :=
  ∀ arg, (∃ n ≤ l.rank (s, arg), l.Takes n (s, arg) (l.run (s, arg))) ∧
    (l.run (s, arg)).1.returns = true

namespace Machine

/-- The states that a coroutine started in `s₀` reaches without ending, whatever its resumes
carry. -/
inductive Reached (m : Machine σ α Y R) (s₀ : σ) : σ → Prop
  | start : Reached m s₀ s₀
  | resume {s arg y s'} : Reached m s₀ s → m.resume s arg = (.yielded y, s') → Reached m s₀ s'

/-- `Run m s₀ es s arg`: after the events `es`, a coroutine started in `s₀` stands in `s` and is
about to be resumed with `arg`. -/
inductive Run (m : Machine σ α Y R) (s₀ : σ) :
    List (Event α Y) → σ → Option (List α) → Prop
  | start : Run m s₀ [] s₀ none
  | yield {es s arg y s'} : Run m s₀ es s arg → m.resume s arg = (.yielded y, s') →
      m.reads y = false → Run m s₀ (es ++ [.yielded y]) s' none
  | read {es s arg y s'} (c : List α) : Run m s₀ es s arg → m.resume s arg = (.yielded y, s') →
      m.reads y = true → Run m s₀ (es ++ [.yielded y, .fed c]) s' (some c)

variable {m : Machine σ α Y R} {s₀ s s' : σ} {arg : Option (List α)} {es : List (Event α Y)} {y : Y}

/-- Whatever a resume carries, in a state that satisfies `P` it returns to its caller, and what it
leads to satisfies `P` if it makes a request. -/
structure Safe (m : Machine σ α Y R) (P : σ → Prop) : Prop where
  returns : ∀ {s}, P s → ∀ arg, (m.resume s arg).1.returns = true
  keeps : ∀ {s arg y s'}, P s → m.resume s arg = (.yielded y, s') → P s'

theorem Safe.ne_panicked {P : σ → Prop} (hP : m.Safe P) (hs : P s) (arg : Option (List α))
    (msg : String) (s' : σ) : m.resume s arg ≠ (.panicked msg, s') := by
  intro hr
  have := hP.returns hs arg
  rw [hr] at this
  cases this

theorem Safe.loop_returns {P : σ → Prop} (hP : m.Safe P)
    {l : Loop (σ × Option (List α)) (Resumed Y R × σ)}
    (hl : ∀ s arg, m.resume s arg = l.run (s, arg)) (hs : P s) : l.Returns s := by
  intro arg
  refine ⟨l.exists_takes (s, arg), ?_⟩
  rw [← hl]
  exact hP.returns hs arg

theorem Safe.reached {P : σ → Prop} (hP : m.Safe P) (start : P s₀) (h : m.Reached s₀ s) : P s := by
  induction h with
  | start => exact start
  | resume _ hr ih => exact hP.keeps ih hr

/-- A coroutine that only rewords what another one ends on is as safe. -/
theorem Safe.mapDone {R' : Type*} {P : σ → Prop} (hP : m.Safe P) (f : R → R') :
    (m.mapDone f).Safe P where
  returns {s} hs arg := by
    rcases hr : m.resume s arg with ⟨y | r | msg, s'⟩
    · simp [Machine.mapDone, hr, Resumed.map, Resumed.returns]
    · simp [Machine.mapDone, hr, Resumed.map, Resumed.returns]
    · exact absurd hr (hP.ne_panicked hs arg msg s')
  keeps hs hr := by
    rw [Machine.mapDone, Prod.mk.injEq] at hr
    exact hP.keeps hs (Prod.ext (Resumed.map_eq_yielded hr.1) hr.2)

theorem Run.reached (h : m.Run s₀ es s arg) : m.Reached s₀ s := by
  induction h with
  | start => exact .start
  | yield _ hr _ ih => exact .resume ih hr
  | read _ _ hr _ ih => exact .resume ih hr

/-- **The rule of invariants** along a run: what every resume keeps holds before every resume. -/
theorem Run.keeps {I : List (Event α Y) → σ → Option (List α) → Prop}
    {Q : List (Event α Y) → Pause σ R → Prop} (hk : m.Keeps (fun _ => True) I Q)
    (start : I [] s₀ none) (h : m.Run s₀ es s arg) : I es s arg := by
  induction h with
  | start => exact start
  | yield _ hr hy ih =>
    have := hk _ _ _ ih
    simpa only [hr, hy, Bool.false_eq_true, if_false] using this
  | read c _ hr hy ih =>
    have := hk _ _ _ ih
    simp only [hr, hy, if_true] at this
    exact this.2 c trivial

/-- What a resume that asks for data leaves behind. -/
theorem Run.keeps_read {I : List (Event α Y) → σ → Option (List α) → Prop}
    {Q : List (Event α Y) → Pause σ R → Prop} (hk : m.Keeps (fun _ => True) I Q)
    (start : I [] s₀ none) (h : m.Run s₀ es s arg) (hr : m.resume s arg = (.yielded y, s'))
    (hy : m.reads y = true) : Q (es ++ [.yielded y]) (.waiting s') := by
  have := hk _ _ _ (h.keeps hk start)
  simp only [hr, hy, if_true] at this
  exact this.1

/-- The length of the last read. -/
def lastRead (es : List (Event α Y)) : ℕ := ((fedOf es).getLast?.getD []).length

@[simp] theorem lastRead_yielded (es : List (Event α Y)) (y : Y) :
    lastRead (es ++ [.yielded y]) = lastRead es := by
  simp [lastRead]

@[simp] theorem lastRead_fed (es : List (Event α Y)) (y : Y) (c : List α) :
    lastRead (es ++ [.yielded y, .fed c]) = c.length := by
  simp [lastRead]

end Machine

end Coroutine
