import Mathlib.Data.List.Basic

/-!
# Reading octets as UTF-8, with replacement

`decodeLossy` reads octets as UTF-8 text and puts U+FFFD in the place of every maximal part of an
ill-formed sequence, the practice the Unicode standard recommends. ASCII is read as it stands
(`encode_decodeLossyChars`), nothing else reads as ASCII (`ascii_of_encode`), and text is read back
from its own octets (`decodeLossyChars_encode`).
-/

namespace Utf8

/-- The replacement character. -/
def replacement : Char := '\uFFFD'

/-- Whether an octet continues a sequence. -/
def isTail (b : UInt8) : Bool := 0x80 ≤ b && b ≤ 0xBF

/-- Whether `b` may follow the first octet `a` of a three-octet sequence. -/
def isSecondOfThree (a b : UInt8) : Bool :=
  (a == 0xE0 && 0xA0 ≤ b && b ≤ 0xBF) || (0xE1 ≤ a && a ≤ 0xEC && isTail b) ||
    (a == 0xED && 0x80 ≤ b && b ≤ 0x9F) || (0xEE ≤ a && a ≤ 0xEF && isTail b)

/-- Whether `b` may follow the first octet `a` of a four-octet sequence. -/
def isSecondOfFour (a b : UInt8) : Bool :=
  (a == 0xF0 && 0x90 ≤ b && b ≤ 0xBF) || (0xF1 ≤ a && a ≤ 0xF3 && isTail b) ||
    (a == 0xF4 && 0x80 ≤ b && b ≤ 0x8F)

/-- The low six bits of an octet. -/
def low (b : UInt8) : ℕ := b.toNat % 64

/-- The character at the front of a nonempty sequence of octets, or the replacement character, and
the number of octets after the first that it takes. -/
def front (a : UInt8) (rest : List UInt8) : Char × ℕ :=
  if a < 0x80 then (Char.ofNat a.toNat, 0)
  else if 0xC2 ≤ a ∧ a ≤ 0xDF then
    match rest with
    | b :: _ => if isTail b then (Char.ofNat (a.toNat % 32 * 64 + low b), 1) else (replacement, 0)
    | [] => (replacement, 0)
  else if 0xE0 ≤ a ∧ a ≤ 0xEF then
    match rest with
    | b :: c :: _ =>
      if isSecondOfThree a b then
        if isTail c then (Char.ofNat (a.toNat % 16 * 4096 + low b * 64 + low c), 2)
        else (replacement, 1)
      else (replacement, 0)
    | [b] => if isSecondOfThree a b then (replacement, 1) else (replacement, 0)
    | [] => (replacement, 0)
  else if 0xF0 ≤ a ∧ a ≤ 0xF4 then
    match rest with
    | b :: c :: d :: _ =>
      if isSecondOfFour a b then
        if isTail c then
          if isTail d then
            (Char.ofNat (a.toNat % 8 * 262144 + low b * 4096 + low c * 64 + low d), 3)
          else (replacement, 2)
        else (replacement, 1)
      else (replacement, 0)
    | [b, c] =>
      if isSecondOfFour a b then if isTail c then (replacement, 2) else (replacement, 1)
      else (replacement, 0)
    | [b] => if isSecondOfFour a b then (replacement, 1) else (replacement, 0)
    | [] => (replacement, 0)
  else (replacement, 0)

/-- The characters of a sequence of octets. -/
def decodeLossyChars : List UInt8 → List Char
  | [] => []
  | a :: rest => (front a rest).1 :: decodeLossyChars (rest.drop (front a rest).2)
termination_by bs => bs.length
decreasing_by
  rw [List.length_drop, List.length_cons]
  omega

/-- The text of a sequence of octets. -/
def decodeLossy (bs : List UInt8) : String := String.ofList (decodeLossyChars bs)

example : decodeLossy [0x4F, 0x4B, 0xE2, 0x82, 0x28, 0xC3, 0xA9] = "OK\uFFFD(é" := by
  decide +kernel

/-! ## ASCII -/

theorem toNat_ofNat {n : ℕ} (h : n < 0xD800 ∨ 0xDFFF < n ∧ n < 0x110000) :
    (Char.ofNat n).toNat = n := by
  have hvalid : n.isValidChar := h
  rw [Char.ofNat, dif_pos hvalid]
  rfl

theorem isTail_iff {b : UInt8} : isTail b = true ↔ 0x80 ≤ b.toNat ∧ b.toNat ≤ 0xBF := by
  simp [isTail, UInt8.le_iff_toNat_le]

theorem toNat_of_isSecondOfThree {a b : UInt8} (h : isSecondOfThree a b = true) :
    0x800 ≤ a.toNat % 16 * 4096 + low b * 64 ∧
      (a.toNat % 16 * 4096 + low b * 64 + 63 < 0xD800 ∨
        0xDFFF < a.toNat % 16 * 4096 + low b * 64) := by
  simp only [isSecondOfThree, Bool.or_eq_true, Bool.and_eq_true, beq_iff_eq, decide_eq_true_eq,
    isTail_iff, UInt8.le_iff_toNat_le, ← UInt8.toNat_inj, UInt8.reduceToNat] at h
  unfold low
  omega

theorem toNat_of_isSecondOfFour {a b : UInt8} (h : isSecondOfFour a b = true) :
    0x10000 ≤ a.toNat % 8 * 262144 + low b * 4096 ∧
      a.toNat % 8 * 262144 + low b * 4096 + 4095 < 0x110000 := by
  simp only [isSecondOfFour, Bool.or_eq_true, Bool.and_eq_true, beq_iff_eq, decide_eq_true_eq,
    isTail_iff, UInt8.le_iff_toNat_le, ← UInt8.toNat_inj, UInt8.reduceToNat] at h
  unfold low
  omega

theorem low_lt (b : UInt8) : low b < 64 := Nat.mod_lt _ (by decide)

/-- What starts with an octet above ASCII is a character above ASCII. -/
theorem le_front {a : UInt8} (ha : ¬ a < 0x80) (rest : List UInt8) :
    0x80 ≤ (front a rest).1.toNat := by
  have hreplacement : 0x80 ≤ replacement.toNat := by decide
  fun_cases front a rest <;> try exact hreplacement
  case case1 hlt => exact absurd hlt ha
  case case2 hrange b tail htail =>
    have := low_lt b
    simp only [UInt8.le_iff_toNat_le, UInt8.reduceToNat] at hrange
    rw [toNat_ofNat (by omega)]
    omega
  case case5 b c tail hsecond htail =>
    have := low_lt b
    have := low_lt c
    have := toNat_of_isSecondOfThree hsecond
    rw [toNat_ofNat (by omega)]
    omega
  case case11 b c d tail hsecond htail htail' =>
    have := low_lt c
    have := low_lt d
    have := toNat_of_isSecondOfFour hsecond
    rw [toNat_ofNat (by omega)]
    omega

theorem utf8EncodeChar_ascii {c : Char} (h : c.toNat < 0x80) :
    String.utf8EncodeChar c = [UInt8.ofNat c.toNat] := by
  have hle : c.val.toNat ≤ 0x7F := Nat.le_of_lt_succ h
  simp only [String.utf8EncodeChar, if_pos hle]
  rfl

theorem exists_mem_utf8EncodeChar {c : Char} (h : 0x80 ≤ c.toNat) :
    ∃ b ∈ String.utf8EncodeChar c, ¬ b < 0x80 := by
  have hhigh : ∀ n, 0x80 ≤ n → n < 0x100 → ¬ UInt8.ofNat n < 0x80 := by
    intro n hn hlt
    rw [UInt8.lt_iff_toNat_lt, UInt8.toNat_ofNat', Nat.mod_eq_of_lt hlt]
    exact Nat.not_lt.2 hn
  have hle : ¬ c.val.toNat ≤ 0x7F := Nat.not_le.2 h
  simp only [String.utf8EncodeChar, if_neg hle]
  split_ifs
  · exact ⟨_, List.mem_cons_self .., hhigh _ (by omega) (by omega)⟩
  · exact ⟨_, List.mem_cons_self .., hhigh _ (by omega) (by omega)⟩
  · exact ⟨_, List.mem_cons_self .., hhigh _ (by omega) (by omega)⟩

/-- ASCII is read as it stands. -/
theorem encode_decodeLossyChars {bs : List UInt8} (h : ∀ b ∈ bs, b < 0x80) :
    (decodeLossyChars bs).flatMap String.utf8EncodeChar = bs := by
  induction bs with
  | nil =>
    rw [decodeLossyChars]
    rfl
  | cons a rest ih =>
    have ha : a < 0x80 := h a (List.mem_cons_self ..)
    have hlt : a.toNat < 0x80 := UInt8.lt_iff_toNat_lt.1 ha
    have hfront : front a rest = (Char.ofNat a.toNat, 0) := if_pos ha
    have hchar : (Char.ofNat a.toNat).toNat = a.toNat := toNat_ofNat (by omega)
    have hencode : String.utf8EncodeChar (Char.ofNat a.toNat) = [a] := by
      rw [utf8EncodeChar_ascii (by omega), hchar, UInt8.ofNat_toNat]
    rw [decodeLossyChars, hfront, List.flatMap_cons, List.drop_zero,
      ih fun b hb => h b (List.mem_cons_of_mem a hb)]
    exact congrArg (· ++ rest) hencode

/-- What reads as ASCII is ASCII. -/
theorem ascii_of_encode {bs : List UInt8}
    (h : ∀ b ∈ (decodeLossyChars bs).flatMap String.utf8EncodeChar, b < 0x80) :
    ∀ b ∈ bs, b < 0x80 := by
  induction bs with
  | nil => simp
  | cons a rest ih =>
    rw [decodeLossyChars] at h
    by_cases ha : a < 0x80
    · have hfront : front a rest = (Char.ofNat a.toNat, 0) := if_pos ha
      rw [hfront, List.drop_zero] at h
      intro b hb
      rcases List.mem_cons.1 hb with rfl | hb
      · exact ha
      · rw [List.flatMap_cons] at h
        exact ih (fun c hc => h c (List.mem_append_right _ hc)) b hb
    · obtain ⟨b, hb, hhigh⟩ := exists_mem_utf8EncodeChar (le_front ha rest)
      exact absurd (h b (List.mem_flatMap.2 ⟨_, List.mem_cons_self .., hb⟩)) hhigh

/-! ## Text -/

theorem toNat_octet {n : ℕ} (h : n < 256) : (UInt8.ofNat n).toNat = n := by
  rw [UInt8.toNat_ofNat']
  exact Nat.mod_eq_of_lt h

theorem front_one {a : UInt8} (rest : List UInt8) (ha : a.toNat < 0x80) :
    front a rest = (Char.ofNat a.toNat, 0) :=
  if_pos (UInt8.lt_iff_toNat_lt.2 ha)

theorem front_two {a b : UInt8} (rest : List UInt8) (ha : 0xC2 ≤ a.toNat ∧ a.toNat ≤ 0xDF)
    (hb : isTail b = true) :
    front a (b :: rest) = (Char.ofNat (a.toNat % 32 * 64 + low b), 1) := by
  rw [front, if_neg (by simp only [UInt8.lt_iff_toNat_lt, UInt8.reduceToNat]; omega),
    if_pos (by simpa [UInt8.le_iff_toNat_le] using ha), if_pos hb]

theorem front_three {a b c : UInt8} (rest : List UInt8) (ha : 0xE0 ≤ a.toNat ∧ a.toNat ≤ 0xEF)
    (hb : isSecondOfThree a b = true) (hc : isTail c = true) :
    front a (b :: c :: rest) =
      (Char.ofNat (a.toNat % 16 * 4096 + low b * 64 + low c), 2) := by
  rw [front, if_neg (by simp only [UInt8.lt_iff_toNat_lt, UInt8.reduceToNat]; omega),
    if_neg (by simp only [UInt8.le_iff_toNat_le, UInt8.reduceToNat]; omega),
    if_pos (by simpa [UInt8.le_iff_toNat_le] using ha)]
  dsimp only
  rw [if_pos hb, if_pos hc]

theorem front_four {a b c d : UInt8} (rest : List UInt8) (ha : 0xF0 ≤ a.toNat ∧ a.toNat ≤ 0xF4)
    (hb : isSecondOfFour a b = true) (hc : isTail c = true) (hd : isTail d = true) :
    front a (b :: c :: d :: rest) =
      (Char.ofNat (a.toNat % 8 * 262144 + low b * 4096 + low c * 64 + low d), 3) := by
  rw [front, if_neg (by simp only [UInt8.lt_iff_toNat_lt, UInt8.reduceToNat]; omega),
    if_neg (by simp only [UInt8.le_iff_toNat_le, UInt8.reduceToNat]; omega),
    if_neg (by simp only [UInt8.le_iff_toNat_le, UInt8.reduceToNat]; omega),
    if_pos (by simpa [UInt8.le_iff_toNat_le] using ha)]
  dsimp only
  rw [if_pos hb, if_pos hc, if_pos hd]

theorem isSecondOfThree_iff {a b : UInt8} : isSecondOfThree a b = true ↔
    (a.toNat = 0xE0 ∧ 0xA0 ≤ b.toNat ∧ b.toNat ≤ 0xBF) ∨
      (0xE1 ≤ a.toNat ∧ a.toNat ≤ 0xEC ∧ 0x80 ≤ b.toNat ∧ b.toNat ≤ 0xBF) ∨
      (a.toNat = 0xED ∧ 0x80 ≤ b.toNat ∧ b.toNat ≤ 0x9F) ∨
      (0xEE ≤ a.toNat ∧ a.toNat ≤ 0xEF ∧ 0x80 ≤ b.toNat ∧ b.toNat ≤ 0xBF) := by
  simp only [isSecondOfThree, Bool.or_eq_true, Bool.and_eq_true, beq_iff_eq, decide_eq_true_eq,
    isTail_iff, UInt8.le_iff_toNat_le, ← UInt8.toNat_inj, UInt8.reduceToNat]
  omega

theorem isSecondOfFour_iff {a b : UInt8} : isSecondOfFour a b = true ↔
    (a.toNat = 0xF0 ∧ 0x90 ≤ b.toNat ∧ b.toNat ≤ 0xBF) ∨
      (0xF1 ≤ a.toNat ∧ a.toNat ≤ 0xF3 ∧ 0x80 ≤ b.toNat ∧ b.toNat ≤ 0xBF) ∨
      (a.toNat = 0xF4 ∧ 0x80 ≤ b.toNat ∧ b.toNat ≤ 0x8F) := by
  simp only [isSecondOfFour, Bool.or_eq_true, Bool.and_eq_true, beq_iff_eq, decide_eq_true_eq,
    isTail_iff, UInt8.le_iff_toNat_le, ← UInt8.toNat_inj, UInt8.reduceToNat]
  omega

/-- A character is read from its own octets. -/
theorem front_utf8EncodeChar (c : Char) (rest : List UInt8) :
    ∃ a tail, String.utf8EncodeChar c = a :: tail ∧ front a (tail ++ rest) = (c, tail.length) := by
  have hvalid : c.toNat < 0xD800 ∨ 0xDFFF < c.toNat ∧ c.toNat < 0x110000 := c.valid
  have hchar : ∀ n, n = c.toNat → Char.ofNat n = c := fun n hn => hn ▸ Char.ofNat_toNat c
  have hval : c.val.toNat = c.toNat := rfl
  simp only [String.utf8EncodeChar, hval]
  have htail : ∀ n, n < 0x40 → isTail (UInt8.ofNat (n + 0x80)) = true ∧
      low (UInt8.ofNat (n + 0x80)) = n := by
    intro n hn
    rw [isTail_iff, low, toNat_octet (by omega)]
    omega
  split_ifs with h₁ h₂ h₃ <;> refine ⟨_, _, rfl, ?_⟩
  · have ha : (UInt8.ofNat c.toNat).toNat = c.toNat := toNat_octet (by omega)
    refine (front_one _ (by omega)).trans ?_
    rw [hchar _ ha]
    rfl
  · have ha : (UInt8.ofNat (c.toNat / 64 % 0x20 + 0xC0)).toNat = c.toNat / 64 % 0x20 + 0xC0 :=
      toNat_octet (by omega)
    obtain ⟨hb, hlow⟩ := htail (c.toNat % 64) (by omega)
    refine (front_two rest (by omega) hb).trans ?_
    rw [hchar _ (by omega)]
    rfl
  · have ha : (UInt8.ofNat (c.toNat / 4096 % 0x10 + 0xE0)).toNat = c.toNat / 4096 % 0x10 + 0xE0 :=
      toNat_octet (by omega)
    have hb : (UInt8.ofNat (c.toNat / 64 % 0x40 + 0x80)).toNat = c.toNat / 64 % 0x40 + 0x80 :=
      toNat_octet (by omega)
    obtain ⟨-, hlow⟩ := htail (c.toNat / 64 % 64) (by omega)
    obtain ⟨hc, hlow'⟩ := htail (c.toNat % 64) (by omega)
    refine (front_three rest (by omega) (isSecondOfThree_iff.2 (by omega)) hc).trans ?_
    rw [hchar _ (by omega)]
    rfl
  · have ha : (UInt8.ofNat (c.toNat / 262144 % 0x08 + 0xF0)).toNat =
        c.toNat / 262144 % 0x08 + 0xF0 := toNat_octet (by omega)
    have hb : (UInt8.ofNat (c.toNat / 4096 % 0x40 + 0x80)).toNat = c.toNat / 4096 % 0x40 + 0x80 :=
      toNat_octet (by omega)
    obtain ⟨-, hlow⟩ := htail (c.toNat / 4096 % 64) (by omega)
    obtain ⟨hc, hlow'⟩ := htail (c.toNat / 64 % 64) (by omega)
    obtain ⟨hd, hlow''⟩ := htail (c.toNat % 64) (by omega)
    refine (front_four rest (by omega) (isSecondOfFour_iff.2 (by omega)) hc hd).trans ?_
    rw [hchar _ (by omega)]
    rfl

/-- Text is read back from its octets. -/
theorem decodeLossyChars_encode (cs : List Char) :
    decodeLossyChars (cs.flatMap String.utf8EncodeChar) = cs := by
  induction cs with
  | nil => rw [List.flatMap_nil, decodeLossyChars]
  | cons c cs ih =>
    obtain ⟨a, tail, hc, hfront⟩ := front_utf8EncodeChar c (cs.flatMap String.utf8EncodeChar)
    rw [List.flatMap_cons, hc, List.cons_append, decodeLossyChars, hfront, List.drop_left, ih]

end Utf8
