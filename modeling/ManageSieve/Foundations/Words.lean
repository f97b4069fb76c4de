import Mathlib.Data.List.Basic

/-!
# Words between blanks

The words of a list are its maximal runs without a blank; runs of blanks are not told apart. They
are told in another way by `Spaced`, which says how a list may be written so that its words are
these (`words_eq_iff`).
-/

namespace Spacing

variable {α : Type*}

/-- The words of a list. -/
def words (blank : α → Bool) (l : List α) : List (List α) :=
  (l.splitOnP blank).filter fun word => !word.isEmpty

/-- The list holds these words, with blanks around and between them. -/
inductive Spaced (blank : α → Bool) : List (List α) → List α → Prop
  | nil : Spaced blank [] []
  | blank {a ws l} : blank a = true → Spaced blank ws l → Spaced blank ws (a :: l)
  | last {w} : w ≠ [] → (∀ c ∈ w, blank c = false) → Spaced blank [w] w
  | word {w a ws l} : w ≠ [] → (∀ c ∈ w, blank c = false) → blank a = true →
      Spaced blank ws l → Spaced blank (w :: ws) (w ++ a :: l)

variable {blank : α → Bool}

@[simp] theorem words_nil : words blank [] = [] := rfl

theorem words_singleton {w : List α} (hne : w ≠ []) (hw : ∀ c ∈ w, blank c = false) :
    words blank w = [w] := by
  rw [words, List.splitOnP_eq_singleton hw]
  simp [hne]

/-- A word up to the next blank. -/
theorem words_append {w l : List α} (hw : ∀ c ∈ w, blank c = false) {a : α}
    (ha : blank a = true) :
    words blank (w ++ a :: l) = (if w = [] then [] else [w]) ++ words blank l := by
  rw [words, List.splitOnP_append_cons_of_forall_mem hw a ha, words]
  cases w <;> rfl

/-- A list is a word, or a word up to a blank. -/
theorem word_or_blank (blank : α → Bool) (l : List α) : (∀ c ∈ l, blank c = false) ∨
    ∃ w a rest, l = w ++ a :: rest ∧ (∀ c ∈ w, blank c = false) ∧ blank a = true := by
  induction l with
  | nil => exact .inl (List.forall_mem_nil _)
  | cons c l ih =>
    cases hc : blank c with
    | true => exact .inr ⟨[], c, l, rfl, List.forall_mem_nil _, hc⟩
    | false =>
      rcases ih with hl | ⟨w, a, rest, rfl, hw, ha⟩
      · exact .inl (List.forall_mem_cons.2 ⟨hc, hl⟩)
      · exact .inr ⟨c :: w, a, rest, rfl, List.forall_mem_cons.2 ⟨hc, hw⟩, ha⟩

theorem Spaced.words_eq {ws : List (List α)} {l : List α} (h : Spaced blank ws l) :
    words blank l = ws := by
  induction h with
  | nil => rfl
  | @blank a ws l ha _ ih =>
    have hcons := @words_append α blank [] l (List.forall_mem_nil _) a ha
    rw [List.nil_append] at hcons
    rw [hcons, ih]
    rfl
  | last hne hw => exact words_singleton hne hw
  | word hne hw ha _ ih => rw [words_append hw ha, if_neg hne, ih, List.singleton_append]

theorem spaced_words (blank : α → Bool) (l : List α) : Spaced blank (words blank l) l := by
  induction hk : l.length using Nat.strongRecOn generalizing l with
  | ind k ih =>
    rcases word_or_blank blank l with hl | ⟨w, a, rest, rfl, hw, ha⟩
    · rcases eq_or_ne l [] with rfl | hne
      · exact .nil
      · rw [words_singleton hne hl]
        exact .last hne hl
    · have hrest := ih rest.length (by rw [← hk]; simp; omega) rest rfl
      rw [words_append hw ha]
      rcases eq_or_ne w [] with rfl | hne
      · exact .blank ha hrest
      · rw [if_neg hne]
        exact .word hne hw ha hrest

/-- **The words of a list** are the words that it was written from. -/
theorem words_eq_iff {ws : List (List α)} {l : List α} : words blank l = ws ↔ Spaced blank ws l :=
  ⟨fun h => h ▸ spaced_words blank l, Spaced.words_eq⟩

end Spacing
