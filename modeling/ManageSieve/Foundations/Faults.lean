import Mathlib.Data.List.Basic

/-!
# Computations that may fault

A program that indexes, slices and adds does not always come to an answer: an index may be out of
range, a sum may not fit the machine, and a loop may run on. Here each of these is a `Fault`, the
operations check before they act, and a loop is given the number of turns that it may take. A
computation that comes out as `.ok v` raised no fault on its way to `v`.

The rule for loops is `loop_eq`: a loop whose turns keep what it computes, and make a measure
smaller, computes it within as many turns as the measure says.
-/

namespace Faults

universe u

variable {α β σ : Type*}

/-- What keeps a computation from its answer. -/
inductive Fault
  | outOfRange
  | overflow
  | outOfTurns
  deriving DecidableEq

/-! ## Operations that check -/

/-- The element `xs[i]`. -/
def index (xs : List α) (i : ℕ) : Except Fault α :=
  match xs[i]? with
  | some x => .ok x
  | none => .error .outOfRange

/-- The slice `xs[start..stop]`. -/
def slice (xs : List α) (start stop : ℕ) : Except Fault (List α) :=
  if start ≤ stop ∧ stop ≤ xs.length then .ok ((xs.take stop).drop start)
  else .error .outOfRange

/-- The slice `xs[start..]`. -/
def sliceFrom (xs : List α) (start : ℕ) : Except Fault (List α) :=
  if start ≤ xs.length then .ok (xs.drop start) else .error .outOfRange

/-- The sum of two machine integers that are at most `max`. -/
def add (max a b : ℕ) : Except Fault ℕ := if a + b ≤ max then .ok (a + b) else .error .overflow

/-- The difference of two machine integers. -/
def sub (a b : ℕ) : Except Fault ℕ := if b ≤ a then .ok (a - b) else .error .overflow

theorem index_eq {xs : List α} {i : ℕ} (h : i < xs.length) : index xs i = .ok xs[i] := by
  rw [index, List.getElem?_eq_getElem h]

theorem slice_eq {xs : List α} {start stop : ℕ} (h : start ≤ stop) (hstop : stop ≤ xs.length) :
    slice xs start stop = .ok ((xs.take stop).drop start) :=
  if_pos ⟨h, hstop⟩

theorem sliceFrom_eq {xs : List α} {start : ℕ} (h : start ≤ xs.length) :
    sliceFrom xs start = .ok (xs.drop start) :=
  if_pos h

theorem add_eq {max a b : ℕ} (h : a + b ≤ max) : add max a b = .ok (a + b) := if_pos h

theorem sub_eq {a b : ℕ} (h : b ≤ a) : sub a b = .ok (a - b) := if_pos h

@[simp] theorem ok_bind {α β : Type u} (a : α) (f : α → Except Fault β) :
    (Except.ok a >>= f) = f a := rfl

@[simp] theorem pure_eq (a : α) : (pure a : Except Fault α) = .ok a := rfl

/-! ## Loops -/

/-- Run a loop from `s`, for at most `turns` turns. A turn ends on the state that the next one
starts from, or on what the loop computes. -/
def loop (turn : σ → Except Fault (σ ⊕ β)) : ℕ → σ → Except Fault β
  | 0, _ => .error .outOfTurns
  | turns + 1, s =>
    match turn s with
    | .error fault => .error fault
    | .ok (.inl s) => loop turn turns s
    | .ok (.inr b) => .ok b

/-- What the turn of a loop does, seen from what the loop computes: it ends on `f s`, or on a state
from which the same is computed and the measure is smaller. -/
def Keeps (f : σ → β) (Inv : σ → Prop) (μ : σ → ℕ) (turn : σ → Except Fault (σ ⊕ β)) (s : σ) :
    Prop :=
  turn s = .ok (.inr (f s)) ∨ ∃ s', turn s = .ok (.inl s') ∧ Inv s' ∧ f s' = f s ∧ μ s' < μ s

/-- **The rule for loops.** -/
theorem loop_eq {f : σ → β} {Inv : σ → Prop} {μ : σ → ℕ} {turn : σ → Except Fault (σ ⊕ β)}
    (hturn : ∀ s, Inv s → Keeps f Inv μ turn s) {s : σ} (hs : Inv s) {turns : ℕ}
    (h : μ s < turns) : loop turn turns s = .ok (f s) := by
  induction turns generalizing s with
  | zero => exact absurd h (Nat.not_lt_zero _)
  | succ turns ih =>
    rcases hturn s hs with hlast | ⟨s', hnext, hs', hf, hμ⟩
    · rw [loop, hlast]
    · rw [loop, hnext, ← hf]
      exact ih hs' (by omega)

end Faults
