import ManageSieve.Wire.Spelling
import ManageSieve.Wire.Strings
import ManageSieve.Wire.Walk

/-!
# The grammar of a logical line

`SegmentOf` and `LineOf` say what the tokens of a segment and of a logical line are, with no reader
in sight; they leave room for every octet that a reader may meet, where `Spells` only has the ways
to write a line. What is no segment is a segment followed by something that is to blame (`Blames`),
and every run of octets is one or the other (`exists_lexed`). The lexer agrees with the grammar
(`lex_eq_iff`), and so does the reader of lines (`scanLine_lineOf`, `fails_of_scanLine`).
-/

namespace ManageSieve

/-! ## Segments -/

/-- What follows ends an atom. -/
def Bounds (bytes : Bytes) : Prop := bytes = [] ∨ opensSpecial bytes = true

/-- `SegmentOf tokens seg`: the tokens of `seg` are `tokens`. -/
inductive SegmentOf : List Token → Bytes → Prop
  | nil : SegmentOf [] []
  | blank {tokens bytes b} : isAsciiWhitespace b = true → SegmentOf tokens bytes →
      SegmentOf tokens (b :: bytes)
  | quoted {tokens bytes} (value : Bytes) : SegmentOf tokens bytes →
      SegmentOf (.string value :: tokens) (quoted value ++ bytes)
  | atom {tokens bytes value} : IsAtom value → Bounds bytes → SegmentOf tokens bytes →
      SegmentOf (.atom value :: tokens) (value ++ bytes)
  | open_ {tokens bytes} : SegmentOf tokens bytes →
      SegmentOf (.open_ :: tokens) (openParen :: bytes)
  | close {tokens bytes} : SegmentOf tokens bytes →
      SegmentOf (.close :: tokens) (closeParen :: bytes)

/-- An octet that starts nothing: neither a blank, nor a string or a marker, nor a parenthesis, nor
an atom. -/
def StartsNothing (b : UInt8) : Prop :=
  isAtomSpecial b = true ∧ isAsciiWhitespace b = false ∧ b ≠ dquote ∧ b ≠ openBrace ∧
    b ≠ openParen ∧ b ≠ closeParen

/-- `Blames bytes err`: no token starts `bytes`, and `err` says why. -/
inductive Blames : Bytes → ManagesieveResponseParseError → Prop
  | byte {b rest} : StartsNothing b → Blames (b :: rest) (.unexpectedByte b)
  | quoted {value tail : Bytes} {err} : Dangling tail err →
      Blames (dquote :: (value.flatMap escapeByte ++ tail)) err
  | tooLarge {marker size} : Announces marker size → maxLiteral < size → size < 2 ^ 32 →
      Blames marker (.literalTooLarge size)
  | marker {rest} : (∀ size, Announces (openBrace :: rest) size → 2 ^ 32 ≤ size) →
      Blames (openBrace :: rest) .invalidLiteralMarker

/-- `Lexed seg answer`: what there is to say of `seg`. -/
inductive Lexed : Bytes → Except ManagesieveResponseParseError (List Token × Option ℕ) → Prop
  | all {tokens seg} : SegmentOf tokens seg → Lexed seg (.ok (tokens, none))
  | marker {tokens front marker size} : SegmentOf tokens front → Announces marker size →
      size ≤ maxLiteral → Lexed (front ++ marker) (.ok (tokens, some size))
  | blamed {tokens front tail err} : SegmentOf tokens front → Blames tail err →
      Lexed (front ++ tail) (.error err)

theorem Bounds.of_append {x y : Bytes} (h : Bounds (x ++ y)) : Bounds x := by
  rcases x with _ | ⟨b, x⟩
  · exact Or.inl rfl
  · exact Or.inr (by simpa [Bounds, opensSpecial] using h)

theorem Announces.exists_cons {marker : Bytes} {size : ℕ} (h : Announces marker size) :
    ∃ rest, marker = openBrace :: rest := by
  obtain ⟨-, -, -⟩ := h
  exact ⟨_, rfl⟩

/-- A piece in front of what there is to say something of. -/
theorem Lexed.piece {rest : Bytes}
    {answer : Except ManagesieveResponseParseError (List Token × Option ℕ)} (h : Lexed rest answer)
    (x : Bytes) (ts : List Token)
    (hx : ∀ us y, (Bounds rest → Bounds y) → SegmentOf us y → SegmentOf (ts ++ us) (x ++ y)) :
    ∃ answer, Lexed (x ++ rest) answer := by
  obtain @⟨us, seg, hseg⟩ | @⟨us, front, marker, size, hfront, hm, hs⟩ |
    @⟨us, front, tail, err, hfront, hb⟩ := h
  · exact ⟨_, .all (hx us rest id hseg)⟩
  · rw [← List.append_assoc]
    exact ⟨_, .marker (hx us front Bounds.of_append hfront) hm hs⟩
  · rw [← List.append_assoc]
    exact ⟨_, .blamed (hx us front Bounds.of_append hfront) hb⟩

/-- The atom at the front of a segment, up to the octet that ends it. -/
theorem exists_atom {b : UInt8} (hb : isAtomSpecial b = false) (rest : Bytes) :
    ∃ value after, b :: rest = value ++ after ∧ IsAtom value ∧ Bounds after := by
  induction rest generalizing b with
  | nil => exact ⟨[b], [], rfl, ⟨by simp, by simpa using hb⟩, Or.inl rfl⟩
  | cons c rest ih =>
    cases hc : isAtomSpecial c with
    | true =>
      exact ⟨[b], c :: rest, rfl, ⟨by simp, by simpa using hb⟩, Or.inr (by simpa [opensSpecial])⟩
    | false =>
      obtain ⟨value, after, hsplit, ⟨-, hvalue⟩, hafter⟩ := ih hc
      exact ⟨b :: value, after, by rw [hsplit, List.cons_append],
        ⟨by simp, List.forall_mem_cons.2 ⟨hb, hvalue⟩⟩, hafter⟩

/-- What starts with a brace is a marker, or is to blame. -/
theorem exists_lexed_marker (rest : Bytes) : ∃ answer, Lexed (openBrace :: rest) answer := by
  by_cases hinvalid : lexLiteralMarker (openBrace :: rest) = .error .invalidLiteralMarker
  · exact ⟨_, .blamed .nil (.marker (lexLiteralMarker_eq_invalid_iff.1 hinvalid))⟩
  obtain ⟨size, hsize⟩ := exists_announces hinvalid
  rw [lexLiteralMarker_of_announces hsize, announced_eq_invalid_iff, Nat.not_le] at hinvalid
  by_cases hmax : size ≤ maxLiteral
  · exact ⟨_, .marker .nil hsize hmax⟩
  · exact ⟨_, .blamed .nil (.tooLarge hsize (Nat.not_le.1 hmax) hinvalid)⟩

/-- **There is something to say of every segment.** -/
theorem exists_lexed (seg : Bytes) : ∃ answer, Lexed seg answer := by
  induction hk : seg.length using Nat.strongRecOn generalizing seg with
  | ind k ih =>
    subst hk
    rcases seg with _ | ⟨b, rest⟩
    · exact ⟨_, .all .nil⟩
    have hrest := ih rest.length (by simp) rest rfl
    by_cases hw : isAsciiWhitespace b = true
    · obtain ⟨answer, h⟩ := hrest
      exact h.piece [b] [] fun us y _ hy => .blank hw hy
    by_cases hq : b = dquote
    · subst hq
      obtain ⟨value, tail, rfl, ⟨after, rfl⟩ | ⟨err, hdangling⟩⟩ := exists_escaped rest
      · obtain ⟨answer, h⟩ := ih after.length (by simp; omega) after rfl
        rw [dquote_escaped]
        exact h.piece (quoted value) [.string value] fun us y _ hy => .quoted value hy
      · exact ⟨_, .blamed .nil (.quoted hdangling)⟩
    by_cases hb : b = openBrace
    · subst hb
      exact exists_lexed_marker rest
    by_cases ho : b = openParen
    · subst ho
      obtain ⟨answer, h⟩ := hrest
      exact h.piece [openParen] [.open_] fun us y _ hy => .open_ hy
    by_cases hc : b = closeParen
    · subst hc
      obtain ⟨answer, h⟩ := hrest
      exact h.piece [closeParen] [.close] fun us y _ hy => .close hy
    cases hs : isAtomSpecial b with
    | true => exact ⟨_, .blamed .nil (.byte ⟨hs, by simpa using hw, hq, hb, ho, hc⟩)⟩
    | false =>
      obtain ⟨value, after, hsplit, hvalue, hafter⟩ := exists_atom hs rest
      have hlen : after.length < (b :: rest).length := by
        rw [hsplit, List.length_append]
        have := List.length_pos_of_ne_nil hvalue.1
        omega
      obtain ⟨answer, h⟩ := ih after.length hlen after rfl
      rw [hsplit]
      exact h.piece value [.atom value] fun us y hbounds hy => .atom hvalue (hbounds hafter) hy

/-! ## The lexer agrees -/

theorem SegmentOf.eq_nil {tokens : List Token} (h : SegmentOf tokens []) : tokens = [] := by
  generalize hseg : ([] : Bytes) = seg at h
  cases h with
  | nil => rfl
  | atom hv => exact absurd (List.append_eq_nil_iff.1 hseg.symm).1 hv.1
  | _ => cases hseg

/-- A segment is lexed as its tokens. -/
theorem SegmentOf.lexesAs {tokens : List Token} {seg : Bytes} (h : SegmentOf tokens seg) :
    LexesAs seg tokens true := by
  have hnever : ∀ {y : Bytes}, false = true → opensSpecial y = true := by simp
  induction h with
  | nil => exact fun pre s lexed _ => LexesAs.nil pre s lexed (by simp)
  | blank hb _ ih => exact (lexesAs_blank hb).append ih hnever
  | quoted value _ ih => exact (lexesAs_quoted value).append ih hnever
  | @atom tokens bytes value hv hbounds htail ih =>
    rcases hbounds with rfl | hspecial
    · obtain rfl := htail.eq_nil
      rw [List.append_nil]
      exact lexesAs_atom hv
    · exact (lexesAs_atom hv).append ih fun _ => hspecial
  | open_ _ ih => exact lexesAs_open.append ih hnever
  | close _ ih => exact lexesAs_close.append ih hnever

theorem Blames.bounds {tail : Bytes} {err : ManagesieveResponseParseError} (h : Blames tail err) :
    Bounds tail := by
  cases h with
  | byte hb => exact Or.inr (by simpa [opensSpecial] using hb.1)
  | quoted => exact Or.inr rfl
  | tooLarge hm =>
    obtain ⟨rest, rfl⟩ := hm.exists_cons
    exact Or.inr rfl
  | marker => exact Or.inr rfl

theorem lexFrom_blames (pre : Bytes) {tail : Bytes} {err : ManagesieveResponseParseError}
    (h : Blames tail err) (lexed : List Token) :
    lexFrom (pre ++ tail) pre.length lexed = .error err := by
  cases h with
  | @byte b rest hb =>
    obtain ⟨hs, hw, hq, hbrace, ho, hc⟩ := hb
    have hend : atomEnd (pre ++ b :: rest) pre.length = pre.length := by
      rw [atomEnd, dif_pos (by simp), if_pos (by simpa using hs)]
    have hlt : pre.length < (pre ++ b :: rest).length := by simp
    have hget : (pre ++ b :: rest)[pre.length] = b := by simp
    rw [lexFrom, dif_pos hlt, hget, if_neg (by simp [hw]), if_neg hq, if_neg hbrace,
      if_neg ho, if_neg hc, dif_pos hend]
  | @quoted value tail err hdangling =>
    have hq := lexQuoted_dangling pre value hdangling
    rw [lexFrom, dif_pos (by simp), if_neg (by simp; decide), if_pos (by simp)]
    split
    · rename_i err' herr
      rw [hq] at herr
      cases herr
      rfl
    · rename_i string next hok
      rw [hq] at hok
      cases hok
  | tooLarge hm hmax h32 =>
    obtain ⟨rest, hrest⟩ := hm.exists_cons
    rw [lexFrom_marker pre hrest, lexLiteralMarker_eq_tooLarge_iff.2 ⟨hm, hmax, h32⟩]
  | @marker rest hnone =>
    rw [lexFrom_marker pre rfl, lexLiteralMarker_eq_invalid_iff.2 hnone]

/-- The lexer says what there is to say. -/
theorem lex_of_lexed {seg : Bytes}
    {answer : Except ManagesieveResponseParseError (List Token × Option ℕ)} (h : Lexed seg answer) :
    lex seg = answer := by
  have hfront : ∀ {tokens front tail}, SegmentOf tokens front → Bounds tail →
      lex (front ++ tail) = lexFrom (front ++ tail) front.length tokens := by
    intro tokens front tail hfront hbounds
    exact hfront.lexesAs [] tail [] fun _ => hbounds
  cases h with
  | all hseg => exact hseg.lexesAs.lex_eq
  | @marker tokens front marker size hseg hm hs =>
    obtain ⟨rest, hrest⟩ := hm.exists_cons
    rw [hfront hseg (Or.inr (by rw [hrest]; rfl)), lexFrom_marker front hrest,
      lexLiteralMarker_eq_ok_iff.2 ⟨hm, hs⟩]
  | blamed hseg hb => rw [hfront hseg hb.bounds, lexFrom_blames _ hb]

/-- **The lexer agrees with the grammar.** -/
theorem lex_eq_iff {seg : Bytes}
    {answer : Except ManagesieveResponseParseError (List Token × Option ℕ)} :
    lex seg = answer ↔ Lexed seg answer := by
  refine ⟨fun h => ?_, lex_of_lexed⟩
  obtain ⟨answer', hanswer⟩ := exists_lexed seg
  rw [← h, lex_of_lexed hanswer]
  exact hanswer

/-! ## Lines -/

/-- `LineOf tokens line`: `line` is a logical line and its tokens are `tokens`. -/
inductive LineOf : List Token → Bytes → Prop
  | last {tokens seg} : SegmentOf tokens seg → lf ∉ seg → LineOf tokens (seg ++ [lf])
  | literal {tokens seg marker tokens' bytes} (e : LineEnd) (octets : Bytes) :
      SegmentOf tokens seg → lf ∉ seg → Announces marker octets.length →
      octets.length ≤ maxLiteral → LineOf tokens' bytes →
      LineOf (tokens ++ .string octets :: tokens')
        (seg ++ (marker ++ (e.bytes ++ (octets ++ bytes))))

/-- `Fails bytes err`: a logical line starts `bytes`, as far as something is to blame for `err`. -/
inductive Fails : Bytes → ManagesieveResponseParseError → Prop
  | segment {tokens seg tail err} (e : LineEnd) (rest : Bytes) : SegmentOf tokens seg →
      lf ∉ seg ++ tail → Blames tail err → Fails (seg ++ (tail ++ (e.bytes ++ rest))) err
  | literal {tokens seg marker rest err} (e : LineEnd) (octets : Bytes) : SegmentOf tokens seg →
      lf ∉ seg → Announces marker octets.length → octets.length ≤ maxLiteral → Fails rest err →
      Fails (seg ++ (marker ++ (e.bytes ++ (octets ++ rest)))) err

theorem SegmentOf.append_cr {tokens : List Token} {seg : Bytes} (h : SegmentOf tokens seg) :
    SegmentOf tokens (seg ++ [cr]) := by
  induction h with
  | nil => exact .blank (by decide) .nil
  | blank hb _ ih => exact .blank hb ih
  | quoted value _ ih =>
    rw [List.append_assoc]
    exact .quoted value ih
  | @atom tokens bytes value hv hbounds _ ih =>
    rw [List.append_assoc]
    refine .atom hv ?_ ih
    rcases hbounds with rfl | hspecial
    · exact Or.inr (by decide)
    · exact Or.inr (by cases bytes <;> simp_all [opensSpecial])
  | open_ _ ih => exact .open_ ih
  | close _ ih => exact .close ih

/-- A carriage return at the end is not in a piece that ends on something else. -/
theorem exists_of_append_cr {x bytes seg : Bytes} (hx : x.getLast? ≠ some cr)
    (h : x ++ bytes = seg ++ [cr]) : ∃ y, bytes = y ++ [cr] ∧ seg = x ++ y := by
  rcases List.eq_nil_or_concat' bytes with rfl | ⟨y, b, rfl⟩
  · rw [List.append_nil] at h
    exact absurd (by rw [h, List.getLast?_concat]) hx
  · rw [← List.append_assoc] at h
    obtain ⟨hseg, hb⟩ := List.append_inj' h rfl
    obtain rfl : b = cr := by simpa using hb
    exact ⟨y, rfl, hseg.symm⟩

theorem SegmentOf.of_append_cr {tokens : List Token} {seg : Bytes}
    (h : SegmentOf tokens (seg ++ [cr])) : SegmentOf tokens seg := by
  generalize hseg : seg ++ [cr] = seg' at h
  induction h generalizing seg with
  | nil => simp at hseg
  | @blank tokens bytes b hb htail ih =>
    rcases seg with _ | ⟨c, seg⟩
    · obtain ⟨rfl, rfl⟩ : cr = b ∧ [] = bytes := by simpa using hseg
      exact htail
    · obtain ⟨rfl, hbytes⟩ : c = b ∧ seg ++ [cr] = bytes := by simpa using hseg
      exact .blank hb (ih hbytes)
  | quoted value _ ih =>
    have hlast : (ManageSieve.quoted value).getLast? ≠ some cr := by
      rw [ManageSieve.quoted, List.getLast?_concat]
      decide
    obtain ⟨y, rfl, rfl⟩ := exists_of_append_cr hlast hseg.symm
    exact .quoted value (ih rfl)
  | @atom tokens bytes value hv hbounds _ ih =>
    have hlast : value.getLast? ≠ some cr := fun hl => by
      have := hv.2 cr (List.mem_of_getLast? hl)
      revert this
      decide
    obtain ⟨y, rfl, rfl⟩ := exists_of_append_cr hlast hseg.symm
    exact .atom hv hbounds.of_append (ih rfl)
  | @open_ tokens bytes _ ih =>
    obtain ⟨y, rfl, rfl⟩ := exists_of_append_cr (x := [openParen]) (by decide) hseg.symm
    exact .open_ (ih rfl)
  | @close tokens bytes _ ih =>
    obtain ⟨y, rfl, rfl⟩ := exists_of_append_cr (x := [closeParen]) (by decide) hseg.symm
    exact .close (ih rfl)

theorem SegmentOf.stripCr {tokens : List Token} {seg : Bytes} (h : SegmentOf tokens seg) :
    SegmentOf tokens (stripCr seg) := by
  unfold ManageSieve.stripCr
  split
  · rename_i hlast
    obtain ⟨front, rfl⟩ := List.getLast?_eq_some_iff.1 hlast
    rw [List.dropLast_concat]
    exact h.of_append_cr
  · exact h

theorem SegmentOf.of_stripCr {tokens : List Token} {seg : Bytes}
    (h : SegmentOf tokens (ManageSieve.stripCr seg)) : SegmentOf tokens seg := by
  unfold ManageSieve.stripCr at h
  split at h
  · rename_i hlast
    obtain ⟨front, rfl⟩ := List.getLast?_eq_some_iff.1 hlast
    rw [List.dropLast_concat] at h
    exact h.append_cr
  · exact h

/-- A segment and its line feed are the stripped segment and its line end. -/
theorem exists_stripCr {seg : Bytes} (h : lf ∉ seg) :
    ∃ e : LineEnd, (∀ y, seg ++ lf :: y = stripCr seg ++ (e.bytes ++ y)) ∧ lf ∉ stripCr seg := by
  unfold stripCr
  split
  · rename_i hlast
    obtain ⟨front, rfl⟩ := List.getLast?_eq_some_iff.1 hlast
    rw [List.dropLast_concat]
    exact ⟨.crlf, by simp [LineEnd.bytes], fun hl => h (List.mem_append_left _ hl)⟩
  · exact ⟨.bare, by simp [LineEnd.bytes], h⟩

theorem Announces.lf_notMem {marker : Bytes} {size : ℕ} (h : Announces marker size) :
    lf ∉ marker := by
  obtain @⟨digits, sign, -, hd, hs⟩ := h
  have hdigits : lf ∉ digits := fun hl => by
    have := hd lf hl
    revert this
    decide
  rcases hs with rfl | rfl <;> simp [hdigits] <;> decide

theorem Announces.getLast?_eq {marker : Bytes} {size : ℕ} (h : Announces marker size) :
    marker.getLast? = some closeBrace := by
  obtain @⟨digits, sign, -, -, -⟩ := h
  rw [← List.cons_append, ← List.append_assoc, List.getLast?_concat]

/-- The segment that a marker ends, and the line feed behind it. -/
theorem stripCr_marker {front marker : Bytes} {size : ℕ} (h : Announces marker size)
    (hf : lf ∉ front) (e : LineEnd) :
    ∃ seg, front ++ (marker ++ e.bytes) = seg ++ [lf] ∧ lf ∉ seg ∧
      stripCr seg = front ++ marker := by
  have hm := h.lf_notMem
  cases e with
  | crlf =>
    refine ⟨front ++ marker ++ [cr], by simp [LineEnd.bytes], ?_, stripCr_concat _⟩
    simp only [List.mem_append, not_or]
    exact ⟨⟨hf, hm⟩, by decide⟩
  | bare =>
    refine ⟨front ++ marker, by simp [LineEnd.bytes], by simp [hf, hm], if_neg ?_⟩
    rw [List.getLast?_append, h.getLast?_eq]
    simp
    decide

/-! ## The reader of lines agrees -/

/-- A line is read, whatever was read before it and whatever follows. -/
theorem scanLineFrom_lineOf {tokens : List Token} {line : Bytes} (h : LineOf tokens line)
    (pre tail : Bytes) (read : List Token) (hmax : (pre ++ line).length ≤ usizeMax) :
    scanLineFrom (pre ++ (line ++ tail)) pre.length read =
      .ok (some (read ++ tokens, (pre ++ line).length)) := by
  induction h generalizing pre read with
  | @last tokens seg hseg hlf =>
    have hlex : lex (stripCr seg) = .ok (tokens, none) := lex_of_lexed (.all hseg.stripCr)
    rw [scanLineFrom_step (by simp), List.drop_left, List.append_assoc, List.singleton_append,
      segmentAt_line _ hlf, segmentStep, hlex]
    simp
  | @literal tokens seg marker tokens' bytes e octets hseg hlf hm hs _ ih =>
    obtain ⟨seg', hline, hlf', hstrip⟩ := stripCr_marker hm hlf e
    have hlex : lex (stripCr seg') = .ok (tokens, some octets.length) := by
      rw [hstrip]
      exact lex_of_lexed (.marker hseg hm hs)
    have hsplit : ∀ y, seg ++ (marker ++ (e.bytes ++ (octets ++ y))) =
        seg' ++ lf :: (octets ++ y) := by
      intro y
      rw [← List.append_assoc marker, ← List.append_assoc seg, hline]
      simp
    have hstep := ih (pre ++ (seg' ++ lf :: octets)) (read ++ (tokens ++ [.string octets]))
      (by simpa [hsplit] using hmax)
    have hlen : pre.length + seg'.length + 1 + octets.length ≤ usizeMax := by
      rw [hsplit] at hmax
      simp only [List.length_append, List.length_cons] at hmax
      omega
    have hturn := scanLineFrom_literal hlf' hlex hlen read (bytes ++ tail)
    simp only [hsplit, List.append_assoc, List.cons_append, List.nil_append] at hstep hturn ⊢
    rw [hturn, hstep]

theorem scanLine_lineOf {tokens : List Token} {line : Bytes} (h : LineOf tokens line)
    (hmax : line.length ≤ usizeMax) (tail : Bytes) :
    scanLine (line ++ tail) = .ok (some (tokens, line.length)) :=
  scanLineFrom_lineOf h [] tail [] hmax

/-- The literals that are read leave every sum of lengths a machine integer. -/
theorem add_le_usizeMax {index size : ℕ} (hindex : index ≤ isizeMax) (hsize : size ≤ maxLiteral) :
    index + size ≤ usizeMax := by
  unfold isizeMax at hindex
  unfold maxLiteral at hsize
  unfold usizeMax
  omega

theorem length_le_usizeMax {x y : Bytes} (h : (x ++ y).length ≤ isizeMax) :
    x.length ≤ usizeMax := by
  have := add_le_usizeMax h (Nat.zero_le _)
  rw [List.length_append] at this
  omega

/-- The octets of a literal are there when more is not waited for. -/
theorem exists_octets {pre seg after : Bytes} {tokens read : List Token} {size : ℕ}
    (hlf : lf ∉ seg) (hlex : lex (stripCr seg) = .ok (tokens, some size))
    (hlen : pre.length + seg.length + 1 + size ≤ usizeMax)
    (h : scanLineFrom (pre ++ (seg ++ lf :: after)) pre.length read ≠ .ok none) :
    ∃ octets rest, after = octets ++ rest ∧ size = octets.length := by
  rw [scanLineFrom_step (by simp), List.drop_left, segmentAt_line _ hlf, segmentStep, hlex] at h
  dsimp only at h
  rw [checkedAdd_of_le hlen] at h
  dsimp only at h
  by_cases hshort : after.length < size
  · rw [if_pos hshort] at h
    exact absurd rfl h
  · refine ⟨after.take size, after.drop size, by simp, ?_⟩
    rw [List.length_take]
    omega

/-- What is not read as incomplete starts with a line, or fails. -/
theorem lineOf_or_fails (pre rest : Bytes) (read : List Token)
    (hmax : (pre ++ rest).length ≤ isizeMax)
    (h : scanLineFrom (pre ++ rest) pre.length read ≠ .ok none) :
    (∃ tokens line tail, LineOf tokens line ∧ rest = line ++ tail) ∨
      ∃ err, Fails rest err ∧ scanLineFrom (pre ++ rest) pre.length read = .error err := by
  induction hk : rest.length using Nat.strongRecOn generalizing pre rest read with
  | ind k ih =>
    subst hk
    rcases lf_cases rest with hno | ⟨seg, after, rfl, hlf⟩
    · rw [scanLineFrom_step (by simp), List.drop_left, segmentAt_none hno] at h
      exact absurd rfl h
    obtain ⟨answer, hanswer⟩ := exists_lexed (stripCr seg)
    have hlex := lex_of_lexed hanswer
    obtain ⟨e, hsplit, hlf'⟩ := exists_stripCr hlf
    generalize hstrip : stripCr seg = s at *
    obtain @⟨tokens, _, hseg⟩ | @⟨tokens, front, marker, size, hseg, hm, hs⟩ |
      @⟨tokens, front, tail, err, hseg, hb⟩ := hanswer
    · subst hstrip
      exact Or.inl ⟨tokens, seg ++ [lf], after, .last hseg.of_stripCr hlf, by simp⟩
    · rw [← hstrip] at hlex
      have hlen : pre.length + seg.length + 1 + size ≤ usizeMax := by
        refine add_le_usizeMax ?_ hs
        simp only [List.length_append, List.length_cons] at hmax
        omega
      obtain ⟨octets, rest, rfl, rfl⟩ := exists_octets hlf hlex hlen h
      have hbuf : pre ++ (seg ++ lf :: (octets ++ rest)) =
          pre ++ (seg ++ lf :: octets) ++ rest := by simp
      rw [scanLineFrom_literal hlf hlex hlen read rest, hbuf] at h ⊢
      rw [hbuf] at hmax
      rw [hsplit (octets ++ rest), List.append_assoc]
      have hfront : lf ∉ front := fun hmem => hlf' (List.mem_append_left _ hmem)
      have hshort : rest.length < (seg ++ lf :: (octets ++ rest)).length := by
        simp only [List.length_append, List.length_cons]
        omega
      rcases ih rest.length hshort _ rest _ hmax h rfl with
        ⟨tokens', line, tail, hline, rfl⟩ | ⟨err, hfails, herr⟩
      · exact Or.inl ⟨_, _, tail, .literal e octets hseg hfront hm hs hline, by simp⟩
      · exact Or.inr ⟨err, .literal e octets hseg hfront hm hs hfails, herr⟩
    · refine Or.inr ⟨err, ?_, ?_⟩
      · rw [hsplit, List.append_assoc]
        exact .segment e after hseg hlf' hb
      · rw [scanLineFrom_step (by simp), List.drop_left, segmentAt_line _ hlf, segmentStep, hstrip,
          hlex]

/-- **The lines that are read** are those of the grammar. -/
theorem exists_lineOf {buf : Bytes} {tokens : List Token} {n : ℕ} (hmax : buf.length ≤ isizeMax)
    (h : scanLine buf = .ok (some (tokens, n))) :
    ∃ line tail, LineOf tokens line ∧ buf = line ++ tail ∧ n = line.length := by
  have hread : scanLineFrom ([] ++ buf) ([] : Bytes).length [] = .ok (some (tokens, n)) := h
  rcases lineOf_or_fails [] buf [] hmax (by rw [hread]; simp) with
    ⟨tokens', line, tail, hline, rfl⟩ | ⟨err, -, herr⟩
  · rw [scanLine_lineOf hline (length_le_usizeMax hmax) tail] at h
    cases h
    exact ⟨line, tail, hline, rfl, rfl⟩
  · rw [hread] at herr
    cases herr

/-- **What is refused fails.** -/
theorem fails_of_scanLine {buf : Bytes} {err : ManagesieveResponseParseError}
    (hmax : buf.length ≤ isizeMax) (h : scanLine buf = .error err) : Fails buf err := by
  have hread : scanLineFrom ([] ++ buf) ([] : Bytes).length [] = .error err := h
  rcases lineOf_or_fails [] buf [] hmax (by rw [hread]; simp) with
    ⟨tokens', line, tail, hline, rfl⟩ | ⟨err', hfails, herr⟩
  · rw [scanLine_lineOf hline (length_le_usizeMax hmax) tail] at h
    cases h
  · rw [hread] at herr
    cases herr
    exact hfails

end ManageSieve
