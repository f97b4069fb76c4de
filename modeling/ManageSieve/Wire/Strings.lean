import ManageSieve.Wire.Quote

/-!
# Strings, read and written

The two spellings of a string and the two readers of them, against each other. A quoted string has
one spelling, the one that `quote` writes, and `lexQuoted` accepts no other
(`lexQuoted_spelling`); the marker of a literal has the spellings of `Announces`, and
`lexLiteralMarker` tells the sizes that are read, those that are too large, and everything else
apart (`lexLiteralMarker_exact`).
-/

namespace ManageSieve

/-! ## Quoted strings -/

/-- A segment with a double quote at `open_`, split there. -/
theorem exists_split_dquote {segment : Bytes} {open_ : ℕ} (h : segment[open_]? = some dquote) :
    ∃ pre rest, segment = pre ++ dquote :: rest ∧ open_ = pre.length := by
  obtain ⟨hlt, hget⟩ := List.getElem?_eq_some_iff.1 h
  refine ⟨segment.take open_, segment.drop (open_ + 1), ?_, by rw [List.length_take]; omega⟩
  rw [← hget, List.getElem_cons_drop, List.take_append_drop]

theorem length_flatMap_escapeByte (value : Bytes) :
    (value.flatMap escapeByte).length = value.length + (value.filter isQuotedSpecial).length := by
  induction value with
  | nil => rfl
  | cons b value ih =>
    rw [List.flatMap_cons, List.length_append, ih]
    cases hb : isQuotedSpecial b <;> simp [escapeByte, hb] <;> omega

/-- What is read as a quoted string stands there as it is written. -/
theorem escaped_of_lexQuoted {pre rest value : Bytes} {next : ℕ}
    (h : lexQuoted (pre ++ dquote :: rest) pre.length = .ok (value, next)) :
    ∃ after, pre ++ dquote :: rest = pre ++ quoted value ++ after ∧
      next = (pre ++ quoted value).length := by
  obtain ⟨value', tail, rfl, ⟨after, rfl⟩ | ⟨err, hdangling⟩⟩ := exists_escaped rest
  · rw [dquote_escaped, ← List.append_assoc] at h ⊢
    rw [lexQuoted_quoted pre value' after] at h
    cases h
    exact ⟨after, rfl, rfl⟩
  · rw [lexQuoted_dangling pre value' hdangling] at h
    cases h

/-- What is refused dangles behind the octets that were escaped. -/
theorem dangling_of_lexQuoted {pre rest : Bytes} {err : ManagesieveResponseParseError}
    (h : lexQuoted (pre ++ dquote :: rest) pre.length = .error err) :
    ∃ value tail : Bytes, rest = value.flatMap escapeByte ++ tail ∧ Dangling tail err := by
  obtain ⟨value, tail, rfl, ⟨after, rfl⟩ | ⟨err', hdangling⟩⟩ := exists_escaped rest
  · rw [dquote_escaped, ← List.append_assoc, lexQuoted_quoted pre value after] at h
    cases h
  · rw [lexQuoted_dangling pre value hdangling] at h
    cases h
    exact ⟨value, tail, rfl, hdangling⟩

/-- **A quoted string has one spelling**, the one that is written; it is refused exactly when what
is behind its opening double quote dangles. -/
theorem lexQuoted_spelling {segment : Bytes} {open_ : ℕ} (hopen : segment[open_]? = some dquote) :
    (∀ value next, lexQuoted segment open_ = .ok (value, next) →
      open_ < next ∧ next ≤ segment.length ∧ slice segment open_ next = quoted value ∧
        ((∀ b ∈ value, isAsciiControl b = false) →
          (value.flatMap escapeByte).length ≤ quotedMax →
            quote value = some (slice segment open_ next)) ∧
        (¬ ((∀ b ∈ value, isAsciiControl b = false) ∧
          (value.flatMap escapeByte).length ≤ quotedMax) → quote value = none)) ∧
      ∀ err, lexQuoted segment open_ = .error err ↔
        ∃ value tail : Bytes, segment.drop (open_ + 1) = value.flatMap escapeByte ++ tail ∧
          Dangling tail err := by
  obtain ⟨pre, rest, rfl, rfl⟩ := exists_split_dquote hopen
  refine ⟨fun value next h => ?_, fun err => ?_⟩
  · obtain ⟨hlt, hle⟩ := lexQuoted_bounds h
    obtain ⟨after, hsplit, rfl⟩ := escaped_of_lexQuoted h
    have hslice : slice (pre ++ dquote :: rest) pre.length (pre ++ quoted value).length =
        quoted value := by
      rw [hsplit, slice, List.take_left, List.drop_left]
    refine ⟨by omega, hle, hslice, fun hctl hlen => ?_, fun hnot => ?_⟩
    · rw [hslice, quote_eq_some_iff, ← length_flatMap_escapeByte]
      exact ⟨hlen, hctl, rfl⟩
    · rw [Option.eq_none_iff_forall_ne_some]
      intro bytes hbytes
      rw [quote_eq_some_iff, ← length_flatMap_escapeByte] at hbytes
      exact hnot ⟨hbytes.2.1, hbytes.1⟩
  · have hdrop : (pre ++ dquote :: rest).drop (pre.length + 1) = rest := by
      rw [← List.drop_drop, List.drop_left, List.drop_succ_cons, List.drop_zero]
    rw [hdrop]
    constructor
    · exact dangling_of_lexQuoted
    · rintro ⟨value, tail, rfl, hdangling⟩
      exact lexQuoted_dangling pre value hdangling

/-- A backslash before the closing double quote, itself escaped; and a double quote that is escaped
and so closes nothing. -/
theorem lexQuoted_spelling_backslashes :
    slice (asBytes "OK \"a\\\\\" b") 3 8 = quoted (asBytes "a\\") ∧
      lexQuoted (asBytes "\"a\\\"") 0 = .error .unterminatedQuoted := by
  obtain ⟨hread, -⟩ := lexQuoted_spelling
    (show (asBytes "OK \"a\\\\\" b")[3]? = some dquote by decide +kernel)
  obtain ⟨-, hrefused⟩ := lexQuoted_spelling
    (show (asBytes "\"a\\\"")[0]? = some dquote by decide +kernel)
  have hlex : lexQuoted (asBytes "OK \"a\\\\\" b") 3 = .ok (asBytes "a\\", 8) := by decide +kernel
  obtain ⟨-, -, hslice, -⟩ := hread _ _ hlex
  exact ⟨hslice, (hrefused _).2 ⟨asBytes "a\"", [], by decide +kernel, .nil⟩⟩

/-! ## Literal markers -/

theorem announced_eq_ok_iff {size n : ℕ} :
    announced size = .ok n ↔ size = n ∧ n ≤ maxLiteral := by
  unfold announced
  split_ifs with h32 hmax
  · refine iff_of_false (by simp) fun h => ?_
    omega
  · simp only [Except.ok.injEq]
    omega
  · refine iff_of_false (by simp) fun h => ?_
    unfold maxLiteral at h
    omega

theorem announced_eq_tooLarge_iff {size n : ℕ} :
    announced size = .error (.literalTooLarge n) ↔ size = n ∧ maxLiteral < n ∧ n < 2 ^ 32 := by
  unfold announced
  split_ifs with h32 hmax
  · simp only [Except.error.injEq, ManagesieveResponseParseError.literalTooLarge.injEq]
    omega
  · refine iff_of_false (by simp) fun h => ?_
    omega
  · refine iff_of_false (by simp) fun h => ?_
    omega

theorem announced_eq_invalid_iff {size : ℕ} :
    announced size = .error .invalidLiteralMarker ↔ 2 ^ 32 ≤ size := by
  unfold announced
  split_ifs with h32 hmax
  · exact iff_of_false (by simp) (by omega)
  · exact iff_of_false (by simp) (by omega)
  · exact iff_of_true rfl (by omega)

/-- A marker that is not invalid announces what is made of it. -/
theorem lexLiteralMarker_cases (marker : Bytes) :
    (∃ size, Announces marker size ∧ lexLiteralMarker marker = announced size) ∨
      (∀ size, ¬ Announces marker size) ∧
        lexLiteralMarker marker = .error .invalidLiteralMarker := by
  by_cases h : ∃ size, Announces marker size
  · obtain ⟨size, hsize⟩ := h
    exact Or.inl ⟨size, hsize, lexLiteralMarker_of_announces hsize⟩
  · refine Or.inr ⟨not_exists.1 h, ?_⟩
    by_contra hne
    exact h (exists_announces hne)

theorem lexLiteralMarker_eq_ok_iff {marker : Bytes} {n : ℕ} :
    lexLiteralMarker marker = .ok n ↔ Announces marker n ∧ n ≤ maxLiteral := by
  constructor
  · intro h
    rcases lexLiteralMarker_cases marker with ⟨size, hsize, hlex⟩ | ⟨-, hlex⟩
    · rw [hlex, announced_eq_ok_iff] at h
      obtain ⟨rfl, hmax⟩ := h
      exact ⟨hsize, hmax⟩
    · rw [hlex] at h
      cases h
  · rintro ⟨hn, hmax⟩
    rw [lexLiteralMarker_of_announces hn, announced_of_le hmax]

theorem lexLiteralMarker_eq_tooLarge_iff {marker : Bytes} {n : ℕ} :
    lexLiteralMarker marker = .error (.literalTooLarge n) ↔
      Announces marker n ∧ maxLiteral < n ∧ n < 2 ^ 32 := by
  constructor
  · intro h
    rcases lexLiteralMarker_cases marker with ⟨size, hsize, hlex⟩ | ⟨-, hlex⟩
    · rw [hlex, announced_eq_tooLarge_iff] at h
      obtain ⟨rfl, hmax⟩ := h
      exact ⟨hsize, hmax⟩
    · rw [hlex] at h
      cases h
  · rintro ⟨hn, hmax⟩
    rw [lexLiteralMarker_of_announces hn, announced_eq_tooLarge_iff]
    exact ⟨rfl, hmax⟩

/-- Everything else is invalid. -/
theorem lexLiteralMarker_eq_invalid_iff {marker : Bytes} :
    lexLiteralMarker marker = .error .invalidLiteralMarker ↔
      ∀ n, Announces marker n → 2 ^ 32 ≤ n := by
  constructor
  · intro h n hn
    rwa [lexLiteralMarker_of_announces hn, announced_eq_invalid_iff] at h
  · intro h
    rcases lexLiteralMarker_cases marker with ⟨size, hsize, hlex⟩ | ⟨-, hlex⟩
    · rw [hlex, announced_eq_invalid_iff]
      exact h size hsize
    · exact hlex

/-- **Literal markers are read exactly**, and what is written as a literal starts with a marker that
is read back as its length. -/
theorem lexLiteralMarker_exact :
    (∀ marker n, lexLiteralMarker marker = .ok n ↔ Announces marker n ∧ n ≤ maxLiteral) ∧
      (∀ marker n, lexLiteralMarker marker = .error (.literalTooLarge n) ↔
        Announces marker n ∧ maxLiteral < n ∧ n < 2 ^ 32) ∧
      (∀ marker, lexLiteralMarker marker = .error .invalidLiteralMarker ↔
        ∀ n, Announces marker n → 2 ^ 32 ≤ n) ∧
      ∀ value : Bytes, value.length ≤ maxLiteral →
        ∃ marker, literal value = marker ++ crlf ++ value ∧
          lexLiteralMarker marker = .ok value.length := by
  refine ⟨fun _ _ => lexLiteralMarker_eq_ok_iff, fun _ _ => lexLiteralMarker_eq_tooLarge_iff,
    fun _ => lexLiteralMarker_eq_invalid_iff, ?_⟩
  intro value hvalue
  exact ⟨literalMarker false value.length, rfl, lexLiteralMarker_literalMarker false hvalue⟩

end ManageSieve
