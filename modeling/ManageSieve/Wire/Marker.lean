import Mathlib.Data.Nat.Digits.Defs
import ManageSieve.Wire.Lex

/-!
# Literal markers

`Announces` is the format of the marker of a literal: a number in decimal between braces, with any
number of leading zeros and possibly a plus sign behind it. `lexLiteralMarker` reads this format and
no other, as long as the number fits the machine integer it is read into
(`lexLiteralMarker_of_announces`, `exists_announces`).
-/

namespace ManageSieve

/-! ## Numerals -/

/-- The number that a string of digits denotes in base ten. -/
def numeral (digits : Bytes) : ℕ := Nat.ofDigits 10 (digits.reverse.map fun b => b.toNat - 0x30)

/-- Reading digit by digit, the most significant one first, gives the number they denote. -/
theorem decimalValue_eq_numeral (digits : Bytes) : decimalValue digits = numeral digits := by
  have key : ∀ (digits : Bytes) (init : ℕ),
      digits.foldl (fun n b => 10 * n + (b.toNat - 0x30)) init =
        numeral digits + 10 ^ digits.length * init := by
    intro digits
    induction digits with
    | nil => simp [numeral]
    | cons b digits ih =>
      intro init
      rw [List.foldl_cons, ih, numeral, numeral, List.reverse_cons, List.map_append,
        Nat.ofDigits_append, List.length_cons, List.length_map, List.length_reverse]
      simp only [List.map_cons, List.map_nil, Nat.ofDigits_singleton]
      ring
  rw [decimalValue, key, Nat.mul_zero, Nat.add_zero]

/-- One more digit of a number read into a machine integer, both of its operations checked. -/
def pushDigit (n : ℕ) (b : UInt8) : Option ℕ :=
  if 10 * n < 2 ^ 32 ∧ 10 * n + (b.toNat - 0x30) < 2 ^ 32 then some (10 * n + (b.toNat - 0x30))
  else none

theorem le_foldl_digits (digits : Bytes) (init : ℕ) :
    init ≤ digits.foldl (fun n b => 10 * n + (b.toNat - 0x30)) init := by
  induction digits generalizing init with
  | nil => exact le_rfl
  | cons b digits ih =>
    have := ih (10 * init + (b.toNat - 0x30))
    rw [List.foldl_cons]
    omega

/-- **Only the value can overflow**: the checks made digit by digit fail exactly when the whole
number is out of range, however many zeros it starts with. -/
theorem parseU32_eq_foldlM (digits : Bytes) : parseU32 digits = digits.foldlM pushDigit 0 := by
  have key : ∀ (digits : Bytes) (init : ℕ), init < 2 ^ 32 →
      digits.foldlM pushDigit init =
        if digits.foldl (fun n b => 10 * n + (b.toNat - 0x30)) init < 2 ^ 32 then
          some (digits.foldl (fun n b => 10 * n + (b.toNat - 0x30)) init) else none := by
    intro digits
    induction digits with
    | nil =>
      intro init hinit
      rw [List.foldl_nil, if_pos hinit]
      rfl
    | cons b digits ih =>
      intro init _
      have hle := le_foldl_digits digits (10 * init + (b.toNat - 0x30))
      rw [List.foldlM_cons, List.foldl_cons, pushDigit]
      by_cases hb : 10 * init < 2 ^ 32 ∧ 10 * init + (b.toNat - 0x30) < 2 ^ 32
      · rw [if_pos hb]
        exact ih _ hb.2
      · rw [if_neg hb, if_neg (by omega)]
        rfl
  rw [key digits 0 (by decide), parseU32]
  rfl

theorem parseU32_eq (digits : Bytes) :
    parseU32 digits = if numeral digits < 2 ^ 32 then some (numeral digits) else none := by
  rw [parseU32, decimalValue_eq_numeral]

/-! ## The format -/

/-- `Announces marker size`: `marker` is an opening brace, one or more digits that denote `size`, at
most one plus sign, and a closing brace. -/
inductive Announces : Bytes → ℕ → Prop
  | mk {digits sign : Bytes} : digits ≠ [] → (∀ b ∈ digits, isAsciiDigit b = true) →
      sign = [] ∨ sign = [plus] →
      Announces (openBrace :: (digits ++ (sign ++ [closeBrace]))) (numeral digits)

/-- What is made of a marker that announces `size`: literals that are too large are refused, and a
number beyond the machine integer is no number. -/
def announced (size : ℕ) : Except ManagesieveResponseParseError ℕ :=
  if size < 2 ^ 32 then
    if maxLiteral < size then .error (.literalTooLarge size) else .ok size
  else .error .invalidLiteralMarker

/-- What is between the braces of a marker. -/
theorem braces_eq_some_iff {marker rest : Bytes} :
    ((marker.dropPrefix? [openBrace]).bind fun rest => rest.dropSuffix? [closeBrace]) = some rest ↔
      marker = openBrace :: (rest ++ [closeBrace]) := by
  simp only [Option.bind_eq_some_iff, List.dropPrefix?_eq_some_iff, List.dropSuffix?_eq_some_iff]
  constructor
  · rintro ⟨_, ⟨p, rfl, hp⟩, q, rfl, hq⟩
    obtain rfl : p = [openBrace] := by simpa using hp
    obtain rfl : q = [closeBrace] := by simpa using hq
    rfl
  · rintro rfl
    exact ⟨_, ⟨[openBrace], rfl, by simp⟩, [closeBrace], rfl, by simp⟩

theorem plus_not_digit : isAsciiDigit plus = false := by decide

/-- The digits are what is left without the plus sign. -/
theorem dropPlus_eq {digits sign : Bytes} (hd : ∀ b ∈ digits, isAsciiDigit b = true)
    (hs : sign = [] ∨ sign = [plus]) :
    ((digits ++ sign).dropSuffix? [plus]).getD (digits ++ sign) = digits := by
  rcases hs with rfl | rfl
  · -- digits do not end on a plus sign
    have hnone : digits.dropSuffix? [plus] = none := by
      rw [Option.eq_none_iff_forall_ne_some]
      intro r hr
      obtain ⟨q, rfl, hq⟩ := List.dropSuffix?_eq_some_iff.1 hr
      obtain rfl : q = [plus] := by simpa using hq
      have := hd plus (by simp)
      rw [plus_not_digit] at this
      cases this
    rw [List.append_nil, hnone]
    rfl
  · have hsome : (digits ++ [plus]).dropSuffix? [plus] = some digits := by
      rw [List.dropSuffix?_eq_some_iff]
      exact ⟨[plus], rfl, by simp⟩
    rw [hsome]
    rfl

/-- Without its plus sign, what is between the braces ends on at most one. -/
theorem exists_sign (rest : Bytes) :
    ∃ sign, (sign = [] ∨ sign = [plus]) ∧ rest = (rest.dropSuffix? [plus]).getD rest ++ sign := by
  rcases h : rest.dropSuffix? [plus] with _ | digits
  · exact ⟨[], Or.inl rfl, by simp⟩
  · obtain ⟨q, hrest, hq⟩ := List.dropSuffix?_eq_some_iff.1 h
    obtain rfl : q = [plus] := by simpa using hq
    exact ⟨[plus], Or.inr rfl, hrest⟩

theorem not_bad_digits_iff {digits : Bytes} :
    (digits.isEmpty || !digits.all isAsciiDigit) = false ↔
      digits ≠ [] ∧ ∀ b ∈ digits, isAsciiDigit b = true := by
  simp

/-- **The format is read.** -/
theorem lexLiteralMarker_of_announces {marker : Bytes} {size : ℕ} (h : Announces marker size) :
    lexLiteralMarker marker = announced size := by
  obtain @⟨digits, sign, hne, hd, hs⟩ := h
  have hbraces : (((openBrace :: (digits ++ (sign ++ [closeBrace]))).dropPrefix? [openBrace]).bind
      fun rest => rest.dropSuffix? [closeBrace]) = some (digits ++ sign) :=
    braces_eq_some_iff.2 (by simp)
  have hgood := not_bad_digits_iff.2 ⟨hne, hd⟩
  simp only [lexLiteralMarker, hbraces, dropPlus_eq hd hs, hgood, Bool.false_eq_true,
    if_false, parseU32_eq, announced]
  by_cases h32 : numeral digits < 2 ^ 32
  · simp only [if_pos h32]
  · simp only [if_neg h32]

/-- **No other format is read.** -/
theorem exists_announces {marker : Bytes}
    (h : lexLiteralMarker marker ≠ .error .invalidLiteralMarker) :
    ∃ size, Announces marker size := by
  unfold lexLiteralMarker at h
  split at h
  · exact absurd rfl h
  · rename_i rest hbraces
    obtain ⟨sign, hs, hrest⟩ := exists_sign rest
    obtain rfl := braces_eq_some_iff.1 hbraces
    generalize (rest.dropSuffix? [plus]).getD rest = digits at h hrest
    subst hrest
    dsimp only at h
    cases hbad : digits.isEmpty || !digits.all isAsciiDigit with
    | true =>
      rw [hbad, if_pos rfl] at h
      exact absurd rfl h
    | false =>
      obtain ⟨hne, hd⟩ := not_bad_digits_iff.1 hbad
      refine ⟨numeral digits, ?_⟩
      rw [List.append_assoc]
      exact .mk hne hd hs

end ManageSieve
