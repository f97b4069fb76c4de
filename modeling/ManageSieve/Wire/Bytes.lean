import Mathlib.Algebra.Group.Nat.Defs
import Mathlib.Data.List.Basic
import Mathlib.Order.Basic
import Mathlib.Tactic.Common

/-!
# Octets and ASCII

The octets of the wire and what the crate asks of them: the ASCII classes of the Rust standard
library, comparison up to letter case, and decimal numbers, printed (`decimal`) and read
(`parseU32`).
-/

namespace ManageSieve

/-- A byte slice or a byte vector. -/
abbrev Bytes := List UInt8

/-- The UTF-8 octets of a string, `str::as_bytes`. -/
def asBytes (s : String) : Bytes := s.toByteArray.data.toList

abbrev cr : UInt8 := 0x0D
abbrev lf : UInt8 := 0x0A
abbrev space : UInt8 := 0x20
abbrev dquote : UInt8 := 0x22
abbrev openParen : UInt8 := 0x28
abbrev closeParen : UInt8 := 0x29
abbrev star : UInt8 := 0x2A
abbrev plus : UInt8 := 0x2B
abbrev slash : UInt8 := 0x2F
abbrev backslash : UInt8 := 0x5C
abbrev openBrace : UInt8 := 0x7B
abbrev closeBrace : UInt8 := 0x7D

/-- The end of a line. -/
abbrev crlf : Bytes := [cr, lf]

/-! ## The first place of an element -/

theorem findIdx?_beq_eq_none {α : Type} [BEq α] [LawfulBEq α] {a : α} {l : List α} (h : a ∉ l) :
    l.findIdx? (· == a) = none :=
  List.idxOf?_eq_none_iff.2 h

theorem findIdx?_beq_append {α : Type} [BEq α] [LawfulBEq α] {a : α} {l : List α} (h : a ∉ l)
    (after : List α) : (l ++ a :: after).findIdx? (· == a) = some l.length := by
  rw [List.findIdx?_append, findIdx?_beq_eq_none h]
  simp [List.findIdx?_cons]

/-! ## ASCII classes -/

/-- `u8::is_ascii_whitespace`. -/
def isAsciiWhitespace (b : UInt8) : Bool :=
  b == space || b == 0x09 || b == lf || b == 0x0C || b == cr

/-- `u8::is_ascii_control`. -/
def isAsciiControl (b : UInt8) : Bool := b < 0x20 || b == 0x7F

/-- `u8::is_ascii_digit`. -/
def isAsciiDigit (b : UInt8) : Bool := 0x30 ≤ b && b ≤ 0x39

/-- `u8::to_ascii_lowercase`. -/
def toAsciiLowercase (b : UInt8) : UInt8 := if 0x41 ≤ b ∧ b ≤ 0x5A then b + 0x20 else b

/-- `[u8]::eq_ignore_ascii_case`. -/
def eqIgnoreAsciiCase (a b : Bytes) : Bool := a.map toAsciiLowercase == b.map toAsciiLowercase

/-- `str::eq_ignore_ascii_case`. -/
def strEqIgnoreAsciiCase (s t : String) : Bool := eqIgnoreAsciiCase (asBytes s) (asBytes t)

@[simp] theorem eqIgnoreAsciiCase_iff {a b : Bytes} :
    eqIgnoreAsciiCase a b = true ↔ a.map toAsciiLowercase = b.map toAsciiLowercase := by
  simp [eqIgnoreAsciiCase]

theorem toAsciiLowercase_lt_iff (b : UInt8) : toAsciiLowercase b < 0x80 ↔ b < 0x80 := by
  unfold toAsciiLowercase
  split
  · rename_i h
    simp only [UInt8.le_iff_toNat_le, UInt8.lt_iff_toNat_lt, UInt8.toNat_add,
      UInt8.reduceToNat] at h ⊢
    omega
  · exact Iff.rfl

theorem isAsciiControl_of_whitespace {b : UInt8} (h : isAsciiWhitespace b = true)
    (hs : b ≠ space) : isAsciiControl b = true := by
  simp only [isAsciiWhitespace, Bool.or_eq_true, beq_iff_eq] at h
  rcases h with (((h | rfl) | rfl) | rfl) | rfl
  · exact absurd h hs
  all_goals decide

/-! ## Machine integers -/

/-- `usize::MAX`. -/
def usizeMax : ℕ := 2 ^ 64 - 1

/-- `isize::MAX`: no slice of octets is longer. -/
def isizeMax : ℕ := 2 ^ 63 - 1

/-- `usize::checked_add`. -/
def checkedAdd (a b : ℕ) : Option ℕ := if a + b ≤ usizeMax then some (a + b) else none

theorem checkedAdd_of_le {a b : ℕ} (h : a + b ≤ usizeMax) : checkedAdd a b = some (a + b) :=
  if_pos h

theorem checkedAdd_eq_some {a b c : ℕ} (h : checkedAdd a b = some c) : c = a + b := by
  unfold checkedAdd at h
  split_ifs at h
  exact (Option.some.inj h).symm

/-! ## Decimal numbers -/

/-- A number in decimal, as `format!("{}")` prints it. -/
def decimal (n : ℕ) : Bytes := (Nat.toDigits 10 n).map fun c => UInt8.ofNat c.toNat

/-- The value of a string of decimal digits. -/
def decimalValue (digits : Bytes) : ℕ := digits.foldl (fun n b => 10 * n + (b.toNat - 0x30)) 0

/-- `str::parse::<u32>` on a nonempty string of decimal digits. -/
def parseU32 (digits : Bytes) : Option ℕ :=
  if decimalValue digits < 2 ^ 32 then some (decimalValue digits) else none

theorem isDigit_toNat {c : Char} (h : c.isDigit = true) : 0x30 ≤ c.toNat ∧ c.toNat ≤ 0x39 := by
  simp only [Char.isDigit, Bool.and_eq_true, decide_eq_true_eq] at h
  exact ⟨h.1, h.2⟩

theorem toNat_ofNat_of_isDigit {c : Char} (h : c.isDigit = true) :
    (UInt8.ofNat c.toNat).toNat = c.toNat := by
  have := isDigit_toNat h
  rw [UInt8.toNat_ofNat']
  omega

theorem decimal_digits (n : ℕ) : ∀ b ∈ decimal n, isAsciiDigit b = true := by
  intro b hb
  obtain ⟨c, hc, rfl⟩ := List.mem_map.1 hb
  have hd : c.isDigit = true := Nat.isDigit_of_mem_toDigits (by omega) (by omega) hc
  have hn := toNat_ofNat_of_isDigit hd
  have := isDigit_toNat hd
  simp only [isAsciiDigit, Bool.and_eq_true, decide_eq_true_eq, UInt8.le_iff_toNat_le, hn]
  exact this

theorem decimal_ne_nil (n : ℕ) : decimal n ≠ [] := by
  simp [decimal, Nat.toDigits_ne_nil]

theorem decimalValue_decimal (n : ℕ) : decimalValue (decimal n) = n := by
  have key : ∀ (cs : List Char) (init : ℕ), (∀ c ∈ cs, c.isDigit = true) →
      (cs.map fun c => UInt8.ofNat c.toNat).foldl (fun n b => 10 * n + (b.toNat - 0x30)) init =
        Nat.ofDigitChars 10 cs init := by
    intro cs
    induction cs with
    | nil => simp
    | cons c cs ih =>
      intro init hcs
      obtain ⟨hc, hcs⟩ := List.forall_mem_cons.1 hcs
      rw [List.map_cons, List.foldl_cons, ih _ hcs, Nat.ofDigitChars_cons,
        toNat_ofNat_of_isDigit hc]
      rfl
  rw [decimalValue, decimal, key _ _ fun c => Nat.isDigit_of_mem_toDigits (by omega) (by omega),
    Nat.ofDigitChars_ten_toDigits]

theorem length_decimal_le {n k : ℕ} (h : n < 10 ^ k) (hk : 0 < k) : (decimal n).length ≤ k := by
  rw [decimal, List.length_map]
  exact (Nat.length_toDigits_le_iff (by omega) hk).2 h

end ManageSieve
