import ManageSieve.Wire.Marker

/-!
# Writing strings

The writing half of `utils.rs`: a string travels quoted when it fits the 1024 octets a quoted
string may hold and has no control character (`quote`), and as a non-synchronising literal
otherwise (`literal`).
-/

namespace ManageSieve

/-- `QUOTED_MAX`: the octets a quoted string may hold between its double quotes. -/
def quotedMax : ℕ := 1024

/-- A quoted special after the backslash that escapes it, any other octet alone. -/
def escapeByte (byte : UInt8) : Bytes := if isQuotedSpecial byte then [backslash, byte] else [byte]

/-- `value` between double quotes, its specials escaped. -/
def quoted (value : Bytes) : Bytes := dquote :: value.flatMap escapeByte ++ [dquote]

/-- Render `value` as a quoted string, when it can travel quoted. -/
def quote (value : Bytes) : Option Bytes :=
  let escapes := (value.filter isQuotedSpecial).length
  if quotedMax < value.length + escapes || value.any isAsciiControl then none
  else some (quoted value)

/-- The marker of a literal of `size` octets, non-synchronising when `sync` is false. -/
def literalMarker (sync : Bool) (size : ℕ) : Bytes :=
  openBrace :: decimal size ++ (if sync then [] else [plus]) ++ [closeBrace]

/-- Render `value` as a non-synchronising literal, marker and octets. -/
def literal (value : Bytes) : Bytes := literalMarker false value.length ++ crlf ++ value

/-- Render `value` as a string, quoted when it fits and literal otherwise. -/
def string (value : Bytes) : Bytes := (quote value).getD (literal value)

theorem quote_eq_some_iff {value bytes : Bytes} :
    quote value = some bytes ↔
      value.length + (value.filter isQuotedSpecial).length ≤ quotedMax ∧
        (∀ b ∈ value, isAsciiControl b = false) ∧ bytes = quoted value := by
  unfold quote
  simp only [Bool.or_eq_true, decide_eq_true_eq, List.any_eq_true]
  split_ifs with h
  · constructor
    · intro h'
      cases h'
    · rintro ⟨hlen, hctl, -⟩
      rcases h with h | ⟨b, hb, hc⟩
      · omega
      · rw [hctl b hb] at hc
        cases hc
  · rw [not_or, Nat.not_lt, not_exists] at h
    constructor
    · intro h'
      cases h'
      exact ⟨h.1, fun b hb => by simpa [hb] using h.2 b, rfl⟩
    · rintro ⟨-, -, rfl⟩
      rfl

/-- A string is rendered in one of the two ways. -/
theorem string_cases (value : Bytes) :
    (string value = quoted value ∧ ∀ b ∈ value, isAsciiControl b = false) ∨
      string value = literal value := by
  unfold string
  rcases h : quote value with _ | bytes
  · exact Or.inr rfl
  · obtain ⟨-, hctl, rfl⟩ := quote_eq_some_iff.1 h
    exact Or.inl ⟨rfl, hctl⟩

/-! ## Reading quoted strings back -/

section

variable (pre rest string : Bytes)

theorem lexQuotedFrom_close :
    lexQuotedFrom (pre ++ dquote :: rest) pre.length string = .ok (string, pre.length + 1) := by
  rw [lexQuotedFrom, dif_pos (by simp)]
  simp

theorem lexQuotedFrom_octet {b : UInt8} (hb : isQuotedSpecial b = false) :
    lexQuotedFrom (pre ++ b :: rest) pre.length string =
      lexQuotedFrom (pre ++ b :: rest) (pre.length + 1) (string ++ [b]) := by
  have hlt : pre.length < (pre ++ b :: rest).length := by simp
  have hget : (pre ++ b :: rest)[pre.length] = b := by simp
  simp only [isQuotedSpecial, Bool.or_eq_false_iff, beq_eq_false_iff_ne] at hb
  rw [lexQuotedFrom, dif_pos hlt, hget, if_neg hb.1, if_neg hb.2]

theorem lexQuotedFrom_backslash (after : Bytes) :
    lexQuotedFrom (pre ++ backslash :: after) pre.length string =
      match after with
      | [] => .error .unterminatedQuoted
      | b :: _ =>
        if isQuotedSpecial b then
          lexQuotedFrom (pre ++ backslash :: after) (pre.length + 2) (string ++ [b])
        else .error (.invalidEscape b) := by
  have hlt : pre.length < (pre ++ backslash :: after).length := by simp
  have hget : (pre ++ backslash :: after)[pre.length] = backslash := by simp
  have hnext : (pre ++ backslash :: after)[pre.length + 1]? = after.head? := by
    rw [List.getElem?_append_right (by omega), Nat.add_sub_cancel_left, List.getElem?_cons_succ,
      List.head?_eq_getElem?]
  rw [lexQuotedFrom, dif_pos hlt, hget, if_neg (by decide), if_pos rfl, hnext]
  rcases after with _ | ⟨b, after⟩
  · rfl
  · by_cases hb : b = dquote ∨ b = backslash
    · have hspecial : isQuotedSpecial b = true := by simpa [isQuotedSpecial] using hb
      have hnot : ¬ (b ≠ dquote ∧ b ≠ backslash) := by tauto
      simp only [List.head?_cons, if_neg hnot, hspecial, if_true]
    · rw [not_or] at hb
      have hspecial : isQuotedSpecial b = false := by simpa [isQuotedSpecial] using hb
      simp only [List.head?_cons, ne_eq, hb.1, hb.2, not_false_eq_true, and_self, if_true,
        hspecial, Bool.false_eq_true, if_false]

end

/-- The lexer gets over what was escaped, whatever follows. -/
theorem lexQuotedFrom_append (value pre rest string : Bytes) :
    lexQuotedFrom (pre ++ (value.flatMap escapeByte ++ rest)) pre.length string =
      lexQuotedFrom (pre ++ (value.flatMap escapeByte ++ rest))
        (pre ++ value.flatMap escapeByte).length (string ++ value) := by
  induction value generalizing pre string with
  | nil => simp
  | cons b value ih =>
    have hstep := ih (pre ++ escapeByte b) (string ++ [b])
    simp only [List.append_assoc, List.singleton_append] at hstep
    rw [List.flatMap_cons, List.append_assoc, ← hstep, List.length_append]
    cases hb : isQuotedSpecial b with
    | true =>
      have he : escapeByte b = [backslash, b] := if_pos hb
      rw [he, List.cons_append, List.cons_append, List.nil_append, lexQuotedFrom_backslash]
      dsimp only
      rw [hb, if_pos rfl]
      rfl
    | false =>
      have he : escapeByte b = [b] := if_neg (by simp [hb])
      rw [he, List.singleton_append, lexQuotedFrom_octet _ _ _ hb]
      rfl

/-- What cannot be the rest of a quoted string, and why: it ends, or it goes on with a backslash
that escapes nothing. -/
inductive Dangling : Bytes → ManagesieveResponseParseError → Prop
  | nil : Dangling [] .unterminatedQuoted
  | backslash : Dangling [backslash] .unterminatedQuoted
  | escape {b after} : isQuotedSpecial b = false →
      Dangling (ManageSieve.backslash :: b :: after) (.invalidEscape b)

/-- Behind the octets that were escaped there is a double quote, or nothing that can be read. -/
theorem exists_escaped (rest : Bytes) :
    ∃ value tail : Bytes, rest = value.flatMap escapeByte ++ tail ∧
      ((∃ after, tail = dquote :: after) ∨ ∃ err, Dangling tail err) :=
  match rest with
  | [] => ⟨[], [], rfl, Or.inr ⟨_, .nil⟩⟩
  | b :: rest => by
    by_cases hd : b = dquote
    · subst hd
      exact ⟨[], _, rfl, Or.inl ⟨rest, rfl⟩⟩
    by_cases hb : b = backslash
    · subst hb
      rcases rest with _ | ⟨c, rest⟩
      · exact ⟨[], _, rfl, Or.inr ⟨_, .backslash⟩⟩
      cases hc : isQuotedSpecial c with
      | false => exact ⟨[], _, rfl, Or.inr ⟨_, .escape hc⟩⟩
      | true =>
        obtain ⟨value, tail, hrest, htail⟩ := exists_escaped rest
        exact ⟨c :: value, tail, by simp [escapeByte, hc, ← hrest], htail⟩
    · have hs : isQuotedSpecial b = false := by simp [isQuotedSpecial, hd, hb]
      obtain ⟨value, tail, hrest, htail⟩ := exists_escaped rest
      exact ⟨b :: value, tail, by simp [escapeByte, hs, ← hrest], htail⟩
termination_by rest.length

/-- Between two double quotes, what was escaped is a quoted string. -/
theorem dquote_escaped (value after : Bytes) :
    dquote :: (value.flatMap escapeByte ++ dquote :: after) = quoted value ++ after := by
  simp [quoted]

theorem lexQuoted_append (pre value tail : Bytes) :
    lexQuoted (pre ++ dquote :: (value.flatMap escapeByte ++ tail)) pre.length =
      lexQuotedFrom (pre ++ dquote :: (value.flatMap escapeByte ++ tail))
        (pre ++ dquote :: value.flatMap escapeByte).length value := by
  have h := lexQuotedFrom_append value (pre ++ [dquote]) tail []
  simpa [lexQuoted] using h

/-- A quoted string is read, wherever it stands in a segment. -/
theorem lexQuoted_quoted (pre value s : Bytes) :
    lexQuoted (pre ++ quoted value ++ s) pre.length =
      .ok (value, (pre ++ quoted value).length) := by
  have h := lexQuoted_append pre value (dquote :: s)
  have hclose := lexQuotedFrom_close (pre ++ dquote :: value.flatMap escapeByte) s value
  simp only [List.append_assoc, List.cons_append] at hclose
  rw [hclose] at h
  simpa [quoted, Nat.add_assoc] using h

/-- What dangles is refused for what it is. -/
theorem lexQuoted_dangling (pre value : Bytes) {tail : Bytes} {err : ManagesieveResponseParseError}
    (h : Dangling tail err) :
    lexQuoted (pre ++ dquote :: (value.flatMap escapeByte ++ tail)) pre.length = .error err := by
  rw [lexQuoted_append]
  cases h with
  | nil =>
    rw [lexQuotedFrom, dif_neg (by simp)]
  | backslash =>
    have h := lexQuotedFrom_backslash (pre ++ dquote :: value.flatMap escapeByte) value []
    simpa using h
  | @escape b after hb =>
    have h := lexQuotedFrom_backslash (pre ++ dquote :: value.flatMap escapeByte) value (b :: after)
    simpa [hb] using h

/-! ## Reading markers back -/

theorem numeral_decimal (n : ℕ) : numeral (decimal n) = n := by
  rw [← decimalValue_eq_numeral, decimalValue_decimal]

/-- A marker that is written announces the size it was written for. -/
theorem announces_literalMarker (sync : Bool) (size : ℕ) :
    Announces (literalMarker sync size) size := by
  have h : Announces (openBrace :: (decimal size ++ ((if sync then [] else [plus]) ++
      [closeBrace]))) (numeral (decimal size)) :=
    .mk (decimal_ne_nil size) (decimal_digits size) (by cases sync <;> simp)
  rw [numeral_decimal] at h
  simpa [literalMarker] using h

theorem literalMarker_head (sync : Bool) (size : ℕ) :
    ∃ rest, literalMarker sync size = openBrace :: rest := ⟨_, rfl⟩

theorem announced_of_le {size : ℕ} (h : size ≤ maxLiteral) : announced size = .ok size := by
  have h32 : size < 2 ^ 32 := by
    unfold maxLiteral at h
    omega
  rw [announced, if_pos h32, if_neg (Nat.not_lt.2 h)]

/-- A marker is read back as the size it announces, when literals of that size are read. -/
theorem lexLiteralMarker_literalMarker (sync : Bool) {size : ℕ} (h : size ≤ maxLiteral) :
    lexLiteralMarker (literalMarker sync size) = .ok size := by
  rw [lexLiteralMarker_of_announces (announces_literalMarker sync size), announced_of_le h]

end ManageSieve
