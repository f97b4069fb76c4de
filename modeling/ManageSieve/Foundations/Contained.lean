import ManageSieve.Foundations.Reach

/-!
# How much a coroutine holds

A coroutine that is never read more than `k` elements at a time can be said to hold no more than
some number of them, whatever the reads are and however many. `Contained` is what a resume has to
keep for that, `Contained.run` what it gives for a run.
-/

namespace Coroutine

namespace Machine

variable {σ α Y R : Type*} {m : Machine σ α Y R} {k cap : ℕ} {size : σ → ℕ}
  {I : σ → Option (List α) → Prop}

/-- What a resume leaves behind: no more than `cap` elements, and, if it makes a request, a state
from which the next resume may go on. -/
def Leaves (reads : Y → Bool) (k cap : ℕ) (size : σ → ℕ) (I : σ → Option (List α) → Prop) :
    Resumed Y R × σ → Prop
  | (.yielded y, s) =>
    size s ≤ cap ∧ if reads y then ∀ c : List α, c.length ≤ k → I s (some c) else I s none
  | (_, s) => size s ≤ cap

variable (m) in
/-- While no read is longer than `k`, the coroutine holds at most `cap` elements, those that a
resume carries included. `I` is what holds before every resume. -/
structure Contained (k cap : ℕ) (size : σ → ℕ) (I : σ → Option (List α) → Prop) : Prop where
  before : ∀ {s arg}, I s arg → size s + (arg.getD []).length ≤ cap
  leaves : ∀ {s arg}, I s arg → Leaves m.reads k cap size I (m.resume s arg)

theorem Leaves.size_le {reads : Y → Bool} {r : Resumed Y R × σ} (h : Leaves reads k cap size I r) :
    size r.2 ≤ cap := by
  rcases r with ⟨y | r | msg, s⟩
  · exact h.1
  · exact h
  · exact h

/-- What holds before the resumes of a run. -/
theorem Contained.run (hm : m.Contained k cap size I) {s₀ s : σ} {arg : Option (List α)}
    {es : List (Event α Y)} (start : I s₀ none) (h : m.Run s₀ es s arg)
    (hk : ∀ c ∈ fedOf es, c.length ≤ k) : I s arg := by
  induction h with
  | start => exact start
  | yield _ hr hy ih =>
    have hleaves := hm.leaves (ih (by simpa using hk))
    rw [hr] at hleaves
    simpa [hy] using hleaves.2
  | read c _ hr hy ih =>
    simp only [fedOf_append, fedOf_yielded, fedOf_fed, fedOf_nil, List.forall_mem_append,
      List.forall_mem_singleton] at hk
    have hleaves := hm.leaves (ih hk.1)
    rw [hr] at hleaves
    simp only [Leaves, hy, if_true] at hleaves
    exact hleaves.2 c hk.2

/-- **A run holds no more than the cap**, before each of its resumes and after it. -/
theorem Contained.size_le (hm : m.Contained k cap size I) {s₀ s : σ} {arg : Option (List α)}
    {es : List (Event α Y)} (start : I s₀ none) (h : m.Run s₀ es s arg)
    (hk : ∀ c ∈ fedOf es, c.length ≤ k) :
    size s + (arg.getD []).length ≤ cap ∧ size (m.resume s arg).2 ≤ cap :=
  have hI := hm.run start h hk
  ⟨hm.before hI, (hm.leaves hI).size_le⟩

/-- A coroutine that only rewords what another one ends on holds as much. -/
theorem Contained.mapDone {R' : Type*} (hm : m.Contained k cap size I) (f : R → R') :
    (m.mapDone f).Contained k cap size I where
  before := hm.before
  leaves {s arg} h := by
    have hleaves := hm.leaves h
    change Leaves m.reads k cap size I (((m.resume s arg).1.map f), (m.resume s arg).2)
    rcases hr : m.resume s arg with ⟨y | r | msg, s'⟩ <;> rw [hr] at hleaves <;> exact hleaves

end Machine

end Coroutine
