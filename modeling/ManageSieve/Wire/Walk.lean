import ManageSieve.Wire.Framing

/-!
# The walk over a logical line

Where a logical line ends can only be told by walking over its literals: a segment that ends on a
literal marker takes in the octets that the marker announces, line ends included, and the line goes
on behind them. `Walked` is what the loop of `scanLine` has behind it, and `LogicalLine` a whole
line: such a walk, and a last segment without a literal. The main result, `scanLine_eq_some_iff`,
says that these are the lines that `scanLine` finds.
-/

namespace ManageSieve

/-- A stretch of a walk: the tokens of a segment, and the octets of the literal that it ends on. -/
abbrev Stretch := List Token × Bytes

/-- The tokens read over some stretches. -/
def walkTokens (stretches : List Stretch) : List Token :=
  stretches.flatMap fun stretch => stretch.1 ++ [.string stretch.2]

theorem walkTokens_concat (stretches : List Stretch) (lexed : List Token) (octets : Bytes) :
    walkTokens (stretches ++ [(lexed, octets)]) =
      walkTokens stretches ++ (lexed ++ [.string octets]) := by
  simp [walkTokens]

/-- `Walked stretches front`: `front` is made of segments that end on literal markers, each followed
by the octets that its marker announces. -/
inductive Walked : List Stretch → Bytes → Prop
  | start : Walked [] []
  | literal {stretches front seg lexed octets} : Walked stretches front → lf ∉ seg →
      lex (stripCr seg) = .ok (lexed, some octets.length) →
      front.length + seg.length + 1 + octets.length ≤ usizeMax →
      Walked (stretches ++ [(lexed, octets)]) (front ++ (seg ++ lf :: octets))

/-- `LogicalLine stretches lexed line`: `line` is a walk and then a segment without a literal, whose
tokens are `lexed`. -/
inductive LogicalLine : List Stretch → List Token → Bytes → Prop
  | mk {stretches front seg lexed} : Walked stretches front → lf ∉ seg →
      lex (stripCr seg) = .ok (lexed, none) →
      LogicalLine stretches lexed (front ++ (seg ++ [lf]))

/-- A turn of the loop that takes in a literal. -/
theorem scanLineFrom_literal {front seg octets : Bytes} {lexed : List Token} (hseg : lf ∉ seg)
    (hlex : lex (stripCr seg) = .ok (lexed, some octets.length))
    (hmax : front.length + seg.length + 1 + octets.length ≤ usizeMax) (read : List Token)
    (rest : Bytes) :
    scanLineFrom (front ++ (seg ++ lf :: (octets ++ rest))) front.length read =
      scanLineFrom (front ++ (seg ++ lf :: (octets ++ rest)))
        (front ++ (seg ++ lf :: octets)).length (read ++ (lexed ++ [.string octets])) := by
  have hlen : ¬ (octets ++ rest).length < octets.length := by simp
  rw [scanLineFrom_step (by simp), List.drop_left, segmentAt_line _ hseg, segmentStep, hlex]
  dsimp only
  rw [checkedAdd_of_le hmax]
  dsimp only
  rw [if_neg hlen, List.take_left]
  dsimp only
  congr 1
  simp only [List.length_append, List.length_cons]
  omega

/-- The loop gets over a walk. -/
theorem Walked.scanLine_append {stretches : List Stretch} {front : Bytes}
    (h : Walked stretches front) (rest : Bytes) :
    scanLine (front ++ rest) =
      scanLineFrom (front ++ rest) front.length (walkTokens stretches) := by
  induction h generalizing rest with
  | start => rfl
  | @literal stretches front seg lexed octets _ hseg hlex hmax ih =>
    have := ih (seg ++ lf :: (octets ++ rest))
    rw [scanLineFrom_literal hseg hlex hmax, ← walkTokens_concat] at this
    simpa using this

/-- What lies ahead of a walk when the loop finds the end of the line. -/
theorem Walked.exists_logicalLine {stretches : List Stretch} {front rest : Bytes}
    {tokens : List Token} {n : ℕ} (h : Walked stretches front)
    (hscan : scanLineFrom (front ++ rest) front.length (walkTokens stretches) =
      .ok (some (tokens, n))) :
    ∃ stretches lexed line tail, LogicalLine stretches lexed line ∧ front ++ rest = line ++ tail ∧
      tokens = walkTokens stretches ++ lexed ∧ n = line.length := by
  -- the induction is on what is left of the buffer, the walk grows by a stretch each time
  induction hk : rest.length using Nat.strongRecOn generalizing stretches front rest with
  | ind k ih =>
    subst hk
    have hstep := hscan
    rw [scanLineFrom_step (by simp), List.drop_left] at hstep
    rcases lf_cases rest with hno | ⟨seg, after, rfl, hseg⟩
    · rw [segmentAt_none hno] at hstep
      cases hstep
    rw [segmentAt_line _ hseg, segmentStep] at hstep
    rcases hlex : lex (stripCr seg) with err | ⟨lexed, _ | size⟩ <;> rw [hlex] at hstep
    · cases hstep
    · cases hstep
      exact ⟨stretches, lexed, _, after, .mk h hseg hlex, by simp, rfl, by simp⟩
    · dsimp only at hstep
      by_cases hmax : front.length + seg.length + 1 + size ≤ usizeMax
      swap
      · rw [checkedAdd, if_neg hmax] at hstep
        cases hstep
      rw [checkedAdd_of_le hmax] at hstep
      dsimp only at hstep
      by_cases hlen : after.length < size
      · rw [if_pos hlen] at hstep
        cases hstep
      obtain ⟨octets, rest, rfl, rfl⟩ : ∃ octets rest, after = octets ++ rest ∧
          size = octets.length :=
        ⟨after.take size, after.drop size, by simp, by simp; omega⟩
      have hfront : front ++ (seg ++ lf :: (octets ++ rest)) =
          front ++ (seg ++ lf :: octets) ++ rest := by simp
      rw [scanLineFrom_literal hseg hlex hmax, ← walkTokens_concat, hfront] at hscan
      rw [hfront]
      exact ih rest.length (by simp only [List.length_append, List.length_cons]; omega)
        (.literal h hseg hlex hmax) hscan rfl

/-- **The lines that are found** are the walks that end on a segment without a literal. -/
theorem scanLine_eq_some_iff {buf : Bytes} {tokens : List Token} {n : ℕ} :
    scanLine buf = .ok (some (tokens, n)) ↔
      ∃ stretches lexed line tail, LogicalLine stretches lexed line ∧ buf = line ++ tail ∧
        tokens = walkTokens stretches ++ lexed ∧ n = line.length := by
  constructor
  · intro h
    exact Walked.exists_logicalLine (.start : Walked [] []) h
  · rintro ⟨stretches, lexed, _, tail, ⟨hwalk, hseg, hlex⟩, rfl, rfl, rfl⟩
    rename_i front seg
    have hbuf : front ++ (seg ++ [lf]) ++ tail = front ++ (seg ++ lf :: tail) := by simp
    rw [hbuf, hwalk.scanLine_append, scanLineFrom_step (by simp), List.drop_left,
      segmentAt_line _ hseg, segmentStep, hlex]
    simp

end ManageSieve
