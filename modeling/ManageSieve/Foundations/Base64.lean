import Mathlib.Data.List.Basic
import Mathlib.Tactic.IntervalCases

/-!
# Base64 engines

An engine is a pair of functions that turn octets into base64 text and back, with what their
callers rely on: decoding undoes encoding, and the text stays within the alphabet. `standard` is
the engine of RFC 4648 section 4 with canonical padding, three octets to four digits.
-/

namespace Base64

/-- The octets base64 text is made of: letters, digits, plus, slash and the padding sign. -/
def inAlphabet (b : UInt8) : Bool :=
  (0x41 ≤ b && b ≤ 0x5A) || (0x61 ≤ b && b ≤ 0x7A) || (0x30 ≤ b && b ≤ 0x39) ||
    b == 0x2B || b == 0x2F || b == 0x3D

/-- A base64 encoder and its decoder. -/
structure Engine where
  encode : List UInt8 → List UInt8
  decode : List UInt8 → Option (List UInt8)
  decode_encode : ∀ v, decode (encode v) = some v
  encode_alphabet : ∀ v, ∀ b ∈ encode v, inAlphabet b = true

/-! ## The standard engine -/

/-- The padding sign. -/
def pad : UInt8 := 0x3D

/-- The digit of a six-bit value. -/
def digit (n : ℕ) : UInt8 :=
  if n < 26 then .ofNat (0x41 + n)
  else if n < 52 then .ofNat (0x61 + (n - 26))
  else if n < 62 then .ofNat (0x30 + (n - 52))
  else if n = 62 then 0x2B
  else 0x2F

/-- The six-bit value of a digit. -/
def value (b : UInt8) : Option ℕ :=
  if 0x41 ≤ b ∧ b ≤ 0x5A then some (b.toNat - 0x41)
  else if 0x61 ≤ b ∧ b ≤ 0x7A then some (b.toNat - 0x61 + 26)
  else if 0x30 ≤ b ∧ b ≤ 0x39 then some (b.toNat - 0x30 + 52)
  else if b = 0x2B then some 62
  else if b = 0x2F then some 63
  else none

theorem value_digit {n : ℕ} (h : n < 64) : value (digit n) = some n := by
  have all : ∀ n < 64, value (digit n) = some n := by decide
  exact all n h

theorem digit_ne_pad {n : ℕ} (h : n < 64) : digit n ≠ pad := by
  have all : ∀ n < 64, digit n ≠ pad := by decide
  exact all n h

theorem inAlphabet_digit {n : ℕ} (h : n < 64) : inAlphabet (digit n) = true := by
  have all : ∀ n < 64, inAlphabet (digit n) = true := by decide
  exact all n h

/-- The base64 text of some octets. -/
def encode : List UInt8 → List UInt8
  | [] => []
  | [a] => [digit (a.toNat / 4), digit (a.toNat % 4 * 16), pad, pad]
  | [a, b] =>
    [digit (a.toNat / 4), digit (a.toNat % 4 * 16 + b.toNat / 16), digit (b.toNat % 16 * 4), pad]
  | a :: b :: c :: rest =>
    digit (a.toNat / 4) :: digit (a.toNat % 4 * 16 + b.toNat / 16) ::
      digit (b.toNat % 16 * 4 + c.toNat / 64) :: digit (c.toNat % 64) :: encode rest

/-- The octet of two digits that end a text, the bits left over being zero. -/
def decodeOne (w x : UInt8) : Option (List UInt8) := do
  let w ← value w
  let x ← value x
  if x % 16 = 0 then some [.ofNat (w * 4 + x / 16)] else none

/-- The two octets of three digits that end a text, the bits left over being zero. -/
def decodeTwo (w x y : UInt8) : Option (List UInt8) := do
  let w ← value w
  let x ← value x
  let y ← value y
  if y % 4 = 0 then some [.ofNat (w * 4 + x / 16), .ofNat (x % 16 * 16 + y / 4)] else none

/-- The three octets of four digits. -/
def decodeThree (w x y z : UInt8) : Option (List UInt8) := do
  let w ← value w
  let x ← value x
  let y ← value y
  let z ← value z
  some [.ofNat (w * 4 + x / 16), .ofNat (x % 16 * 16 + y / 4), .ofNat (y % 4 * 64 + z)]

/-- The octets of a base64 text, when it is one. -/
def decode : List UInt8 → Option (List UInt8)
  | [] => some []
  | w :: x :: y :: z :: rest =>
    if rest = [] ∧ z = pad then
      if y = pad then decodeOne w x else decodeTwo w x y
    else do
      let group ← decodeThree w x y z
      let others ← decode rest
      some (group ++ others)
  | _ => none

theorem ofNat_toNat_eq {b : UInt8} {n : ℕ} (h : n = b.toNat) : UInt8.ofNat n = b := by
  rw [h, UInt8.ofNat_toNat]

theorem decode_encode (v : List UInt8) : decode (encode v) = some v := by
  induction v using encode.induct with
  | case1 => rfl
  | case2 a =>
    have ha := a.toNat_lt
    rw [encode, decode, if_pos ⟨rfl, rfl⟩, if_pos rfl, decodeOne, value_digit (by omega),
      value_digit (by omega)]
    simp only [Option.bind_eq_bind, Option.bind_some]
    rw [if_pos (by omega), ofNat_toNat_eq (b := a) (by omega)]
  | case3 a b =>
    have ha := a.toNat_lt
    have hb := b.toNat_lt
    rw [encode, decode, if_pos ⟨rfl, rfl⟩, if_neg (digit_ne_pad (by omega)), decodeTwo,
      value_digit (by omega), value_digit (by omega), value_digit (by omega)]
    simp only [Option.bind_eq_bind, Option.bind_some]
    rw [if_pos (by omega), ofNat_toNat_eq (b := a) (by omega), ofNat_toNat_eq (b := b) (by omega)]
  | case4 a b c rest ih =>
    have ha := a.toNat_lt
    have hb := b.toNat_lt
    have hc := c.toNat_lt
    rw [encode, decode, if_neg (fun h => digit_ne_pad (by omega) h.2), decodeThree,
      value_digit (by omega), value_digit (by omega), value_digit (by omega),
      value_digit (by omega), ih]
    simp only [Option.bind_eq_bind, Option.bind_some]
    rw [ofNat_toNat_eq (b := a) (by omega), ofNat_toNat_eq (b := b) (by omega),
      ofNat_toNat_eq (b := c) (by omega)]
    rfl

theorem encode_alphabet (v : List UInt8) : ∀ b ∈ encode v, inAlphabet b = true := by
  have hpad : inAlphabet pad = true := by decide
  induction v using encode.induct with
  | case1 => simp [encode]
  | case2 a =>
    have ha := a.toNat_lt
    simp only [encode, List.forall_mem_cons]
    exact ⟨inAlphabet_digit (by omega), inAlphabet_digit (by omega), hpad, hpad, by simp⟩
  | case3 a b =>
    have ha := a.toNat_lt
    have hb := b.toNat_lt
    simp only [encode, List.forall_mem_cons]
    exact ⟨inAlphabet_digit (by omega), inAlphabet_digit (by omega), inAlphabet_digit (by omega),
      hpad, by simp⟩
  | case4 a b c rest ih =>
    have ha := a.toNat_lt
    have hb := b.toNat_lt
    have hc := c.toNat_lt
    simp only [encode, List.forall_mem_cons]
    exact ⟨inAlphabet_digit (by omega), inAlphabet_digit (by omega), inAlphabet_digit (by omega),
      inAlphabet_digit (by omega), ih⟩

/-- The standard engine. -/
def standard : Engine := ⟨encode, decode, decode_encode, encode_alphabet⟩

end Base64
