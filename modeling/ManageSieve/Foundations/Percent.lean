import Mathlib.Data.List.Basic

/-!
# Percent-encoding

Text in which the characters that a syntax has no room for are written as their UTF-8 octets, each
as a percent sign and two hexadecimal digits. `keep` says which characters stand for themselves.
Decoding undoes encoding as long as the percent sign is not one of them (`decode_encode`), and text
is its own encoding exactly when all of it is kept (`encode_eq_self_iff`). A character that no
encoding writes goes on separating what it separated (`takeWhile_encode`).
-/

namespace Percent

/-- The hexadecimal digit of a number below sixteen. -/
def hexDigit (n : ℕ) : Char :=
  if n < 10 then Char.ofNat (0x30 + n) else Char.ofNat (0x41 + (n - 10))

/-- The value of a hexadecimal digit, of either case. -/
def hexValue (c : Char) : ℕ :=
  if c.toNat < 0x41 then c.toNat - 0x30
  else if c.toNat < 0x61 then c.toNat - 0x41 + 10
  else c.toNat - 0x61 + 10

theorem hexValue_hexDigit {n : ℕ} (h : n < 16) : hexValue (hexDigit n) = n := by
  have all : ∀ n < 16, hexValue (hexDigit n) = n := by decide
  exact all n h

/-- The encoding of an octet. -/
def encodeOctet (b : UInt8) : List Char := ['%', hexDigit (b.toNat / 16), hexDigit (b.toNat % 16)]

/-- The octets that text stands for. -/
def decode : List Char → List UInt8
  | '%' :: high :: low :: rest => UInt8.ofNat (16 * hexValue high + hexValue low) :: decode rest
  | c :: rest => String.utf8EncodeChar c ++ decode rest
  | [] => []

theorem decode_encodeOctet (b : UInt8) (rest : List Char) :
    decode (encodeOctet b ++ rest) = b :: decode rest := by
  have hb := b.toNat_lt
  change UInt8.ofNat (16 * hexValue (hexDigit (b.toNat / 16)) +
    hexValue (hexDigit (b.toNat % 16))) :: decode rest = _
  rw [hexValue_hexDigit (by omega), hexValue_hexDigit (by omega), Nat.div_add_mod,
    UInt8.ofNat_toNat]

theorem decode_cons {c : Char} (hc : c ≠ '%') (rest : List Char) :
    decode (c :: rest) = String.utf8EncodeChar c ++ decode rest := by
  rw [decode]
  rintro high low rest' rfl
  exact absurd rfl hc

section

variable (keep : Char → Bool)

/-- The encoding of a character. -/
def encodeChar (c : Char) : List Char :=
  if keep c then [c] else (String.utf8EncodeChar c).flatMap encodeOctet

/-- The encoding of some text. -/
def encode (text : List Char) : List Char := text.flatMap (encodeChar keep)

variable {keep}

theorem encode_cons (c : Char) (text : List Char) :
    encode keep (c :: text) = encodeChar keep c ++ encode keep text := rfl

theorem encodeChar_of_keep {c : Char} (h : keep c = true) : encodeChar keep c = [c] := if_pos h

/-- **Decoding undoes encoding.** -/
theorem decode_encode (hkeep : keep '%' = false) (text : List Char) :
    decode (encode keep text) = text.flatMap String.utf8EncodeChar := by
  have octets : ∀ (bs : List UInt8) (rest : List Char),
      decode (bs.flatMap encodeOctet ++ rest) = bs ++ decode rest := by
    intro bs rest
    induction bs with
    | nil => rfl
    | cons b bs ih =>
      rw [List.flatMap_cons, List.append_assoc, decode_encodeOctet, ih, List.cons_append]
  induction text with
  | nil => rfl
  | cons c text ih =>
    rw [encode_cons, List.flatMap_cons, ← ih]
    cases hc : keep c with
    | true =>
      have hne : c ≠ '%' := by
        rintro rfl
        rw [hkeep] at hc
        cases hc
      rw [encodeChar_of_keep hc, List.singleton_append, decode_cons hne]
    | false => rw [encodeChar, if_neg (by simp [hc]), octets]

/-- A character that is not kept grows. -/
theorem length_encodeChar_of_not_keep {c : Char} (h : keep c = false) :
    1 < (encodeChar keep c).length := by
  have hlen : ∀ bs : List UInt8, (bs.flatMap encodeOctet).length = 3 * bs.length := by
    intro bs
    induction bs with
    | nil => rfl
    | cons b bs ih =>
      rw [List.flatMap_cons, List.length_append, ih, List.length_cons, encodeOctet]
      simp only [List.length_cons, List.length_nil]
      omega
  have hpos := c.utf8Size_pos
  rw [encodeChar, if_neg (by simp [h]), hlen, String.length_utf8EncodeChar]
  omega

theorem length_le_length_encode (text : List Char) : text.length ≤ (encode keep text).length := by
  induction text with
  | nil => exact Nat.zero_le _
  | cons c text ih =>
    rw [encode_cons, List.length_append, List.length_cons]
    cases hc : keep c with
    | true =>
      rw [encodeChar_of_keep hc, List.length_singleton]
      omega
    | false =>
      have := length_encodeChar_of_not_keep hc
      omega

/-- **Text is its own encoding** exactly when every character of it is kept. -/
theorem encode_eq_self_iff {text : List Char} :
    encode keep text = text ↔ ∀ c ∈ text, keep c = true := by
  induction text with
  | nil => simp [encode]
  | cons c text ih =>
    rw [encode_cons, List.forall_mem_cons, ← ih]
    cases hc : keep c with
    | true =>
      rw [encodeChar_of_keep hc, List.singleton_append, List.cons.injEq]
      simp
    | false =>
      refine iff_of_false (fun h => ?_) (by simp)
      have hlen := congrArg List.length h
      have hgrows := length_encodeChar_of_not_keep hc
      have hle : text.length ≤ (encode keep text).length := length_le_length_encode text
      rw [List.length_append, List.length_cons] at hlen
      omega

theorem mem_encode_of_not_keep {text : List Char} {c : Char} (hmem : c ∈ text)
    (hc : keep c = false) : '%' ∈ encode keep text := by
  refine List.mem_flatMap.2 ⟨c, hmem, ?_⟩
  have hsize := c.utf8Size_pos
  rw [← String.length_utf8EncodeChar] at hsize
  obtain ⟨b, hb⟩ := List.exists_mem_of_length_pos hsize
  rw [encodeChar, if_neg (by simp [hc])]
  exact List.mem_flatMap.2 ⟨b, hb, List.mem_cons_self⟩

/-- Only the text itself is encoded as some text without a percent sign. -/
theorem eq_of_encode_eq {text written : List Char} (h : encode keep text = written)
    (hpercent : '%' ∉ written) : text = written := by
  rw [← h]
  refine (encode_eq_self_iff.2 fun c hmem => ?_).symm
  cases hc : keep c with
  | true => rfl
  | false => exact absurd (h ▸ mem_encode_of_not_keep hmem hc) hpercent

/-- Whether no octet is encoded with a character. -/
def Separates (sep : Char) : Prop := sep ≠ '%' ∧ ∀ n < 16, hexDigit n ≠ sep

instance (sep : Char) : Decidable (Separates sep) :=
  inferInstanceAs (Decidable (_ ∧ _))

theorem not_mem_encodeChar {sep c : Char} (hsep : Separates sep) (hc : keep c = false) :
    sep ∉ encodeChar keep c := by
  rw [encodeChar, if_neg (by simp [hc])]
  intro hmem
  obtain ⟨b, -, hmem⟩ := List.mem_flatMap.1 hmem
  have hb := b.toNat_lt
  simp only [encodeOctet, List.mem_cons, List.not_mem_nil, or_false] at hmem
  rcases hmem with h | h | h
  · exact hsep.1 h
  · exact hsep.2 _ (by omega) h.symm
  · exact hsep.2 _ (Nat.mod_lt _ (by decide)) h.symm

/-- **What precedes a separator is encoded on its own.** -/
theorem takeWhile_encode {sep : Char} (hsep : Separates sep) (hkeep : keep sep = true)
    (text : List Char) : (encode keep text).takeWhile (· != sep) =
      encode keep (text.takeWhile (· != sep)) := by
  induction text with
  | nil => rfl
  | cons c text ih =>
    rw [encode_cons]
    by_cases heq : c = sep
    · subst heq
      rw [encodeChar_of_keep hkeep, List.singleton_append, List.takeWhile_cons_of_neg (by simp),
        List.takeWhile_cons_of_neg (by simp)]
      rfl
    · rw [List.takeWhile_cons_of_pos (by simpa using heq), encode_cons, ← ih]
      refine List.takeWhile_append_of_pos fun a ha => ?_
      cases hc : keep c with
      | true =>
        rw [encodeChar_of_keep hc, List.mem_singleton] at ha
        simpa [ha] using heq
      | false =>
        have hne : a ≠ sep := fun h => not_mem_encodeChar hsep hc (h ▸ ha)
        simpa using hne

end

end Percent
