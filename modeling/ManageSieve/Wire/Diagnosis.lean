import ManageSieve.Wire.Outside

/-!
# What a refusal says

`Truthful` is what the refusals of `ManagesieveResponse.parse` say of the line that is refused:
where the octet stands, which status was not known, what was too large. The lines that a response
goes on from are data lines (`exists_refused_line`). What is said is true but for one kind of line:
one that opens on a closing parenthesis is refused for an opening one, whether it has one or not
(`tellsTruth_iff`).
-/

namespace ManageSieve

open Incremental

/-- What `err` says of the line that starts `bytes`. -/
def Truthful (bytes : Bytes) : ManagesieveResponseParseError → Prop
  | .unexpectedByte b => Outside bytes b
  | .invalidEscape b => ∃ front value rest : Bytes,
      bytes = front ++ dquote :: (value.flatMap escapeByte ++ backslash :: b :: rest) ∧
        Skips front ∧ lf ∉ value ∧ b ≠ lf
  | .unknownStatus s => ∃ atom tokens line rest, bytes = line ++ rest ∧
      LineOf (.atom atom :: tokens) line ∧ s = text atom ∧
        ∀ keyword ∈ ["OK", "NO", "BYE"], eqIgnoreAsciiCase atom (asBytes keyword) = false
  | .literalTooLarge size => ∃ (front marker : Bytes) (e : LineEnd) (rest : Bytes),
      bytes = front ++ (marker ++ (e.bytes ++ rest)) ∧ Skips front ∧ Announces marker size ∧
        maxLiteral < size
  | .emptyLine => ∃ line rest, bytes = line ++ rest ∧ LineOf [] line
  | _ => True

/-- A well-formed data line: it opens on a string and has no parenthesis. -/
def IsDataLine (line : Bytes) : Prop :=
  ∃ value tokens, LineOf (.string value :: tokens) line ∧ ∀ token ∈ tokens, token.paren = none

/-- Whatever `buf` is refused for is true of one of its lines, and the lines before that one are
data lines. -/
def TellsTruth (buf : Bytes) : Prop :=
  ∀ err, ManagesieveResponse.parse buf = .error err →
    ∃ (lines : List Bytes) (rest : Bytes), buf = lines.flatten ++ rest ∧
      (∀ line ∈ lines, IsDataLine line) ∧ ManagesieveLine.parse rest = .error err ∧
        Truthful rest err

/-- Behind its data lines, `buf` has a line that opens on a closing parenthesis and has no opening
one. -/
def OpensOnClose (buf : Bytes) : Prop :=
  ∃ (lines : List Bytes) (tokens : List Token) (line rest : Bytes),
    buf = lines.flatten ++ (line ++ rest) ∧ (∀ line ∈ lines, IsDataLine line) ∧
      LineOf (.close :: tokens) line ∧ .open_ ∉ tokens

/-! ## What the lexer refuses -/

/-- What is to blame for a line that fails, behind a place outside its strings. -/
theorem Fails.exists_blames {bytes : Bytes} {err : ManagesieveResponseParseError}
    (h : Fails bytes err) :
    ∃ (front tail : Bytes) (e : LineEnd) (rest : Bytes),
      bytes = front ++ (tail ++ (e.bytes ++ rest)) ∧ Skips front ∧ lf ∉ tail ∧ Blames tail err := by
  induction h with
  | @segment tokens seg tail err e rest hseg hlf hb =>
    rw [List.mem_append, not_or] at hlf
    have hskips := hseg.skips hlf.1 .nil
    rw [List.append_nil] at hskips
    exact ⟨seg, tail, e, rest, rfl, hskips, hlf.2, hb⟩
  | literal e octets hseg hlf hm _ _ ih =>
    obtain ⟨front, tail, e', rest, rfl, hfront, hrest⟩ := ih
    exact ⟨_, tail, e', rest, by simp only [List.append_assoc],
      hseg.skips hlf (.literal e octets hm hfront), hrest⟩

/-- **The lexer tells the truth.** -/
theorem Fails.truthful {bytes : Bytes} {err : ManagesieveResponseParseError}
    (h : Fails bytes err) : Truthful bytes err := by
  obtain ⟨front, tail, e, rest, rfl, hfront, hlf, hb⟩ := h.exists_blames
  cases hb with
  | @byte b after hb =>
    obtain ⟨-, -, hq, hbrace, -, -⟩ := hb
    rw [List.mem_cons, not_or] at hlf
    exact ⟨front, after ++ (e.bytes ++ rest), rfl, hfront, hq, hbrace, Ne.symm hlf.1⟩
  | @quoted value tail err hdangling =>
    simp only [List.mem_cons, List.mem_append, not_or] at hlf
    cases hdangling with
    | nil => trivial
    | backslash => trivial
    | @escape b after hb =>
      simp only [List.mem_cons, not_or] at hlf
      refine ⟨front, value, after ++ (e.bytes ++ rest), by simp, hfront, fun hmem => ?_,
        Ne.symm hlf.2.2.2.1⟩
      exact hlf.2.1 (mem_flatMap_escapeByte hmem)
  | tooLarge hm hmax => exact ⟨front, _, e, rest, rfl, hfront, hm, hmax⟩
  | marker => trivial

/-! ## What is refused of the tokens of a line -/

theorem dataToken_error {token : Token} {err : ManagesieveResponseParseError}
    (h : dataToken token = .error err) : ∃ b, token.paren = some b ∧ err = .unexpectedByte b := by
  cases token <;> cases h <;> exact ⟨_, rfl, rfl⟩

theorem dataToken_ok {token : Token} (h : token.paren = none) :
    ∃ data, dataToken token = .ok data := by
  cases token <;> first | exact ⟨_, rfl⟩ | cases h

/-- A parenthesis is refused among the tokens of a data line. -/
theorem dataTokens_error {tokens : List Token} {err : ManagesieveResponseParseError}
    (h : dataTokens tokens = .error err) :
    ∃ token ∈ tokens, ∃ b, token.paren = some b ∧ err = .unexpectedByte b := by
  induction tokens with
  | nil => cases h
  | cons token tokens ih =>
    rw [dataTokens] at h
    rcases htoken : dataToken token with err' | data <;> rw [htoken] at h
    · cases h
      exact ⟨token, List.mem_cons_self, dataToken_error htoken⟩
    · rcases hd : dataTokens tokens with err' | datas <;> rw [hd] at h <;> cases h
      obtain ⟨token', hmem, hb⟩ := ih hd
      exact ⟨token', List.mem_cons_of_mem _ hmem, hb⟩

/-- Nothing else is refused there. -/
theorem dataTokens_ok {tokens : List Token} (h : ∀ token ∈ tokens, token.paren = none) :
    ∃ datas, dataTokens tokens = .ok datas := by
  induction tokens with
  | nil => exact ⟨[], rfl⟩
  | cons token tokens ih =>
    obtain ⟨htoken, htokens⟩ := List.forall_mem_cons.1 h
    obtain ⟨data, hdata⟩ := dataToken_ok htoken
    obtain ⟨datas, hdatas⟩ := ih htokens
    exact ⟨data :: datas, by rw [dataTokens, hdata, hdatas]⟩

theorem paren_none_of_dataTokens {tokens : List Token} {datas : List ManagesieveToken}
    (h : dataTokens tokens = .ok datas) : ∀ token ∈ tokens, token.paren = none := by
  induction tokens generalizing datas with
  | nil => simp
  | cons token tokens ih =>
    rw [dataTokens] at h
    rcases htoken : dataToken token with err | data <;> rw [htoken] at h
    · cases h
    · rcases hd : dataTokens tokens with err | datas' <;> rw [hd] at h <;> cases h
      refine List.forall_mem_cons.2 ⟨?_, ih hd⟩
      cases token <;> first | rfl | cases htoken

theorem parseStatus_error {atom : Bytes} {err : ManagesieveResponseParseError}
    (h : parseStatus atom = .error err) :
    err = .unknownStatus (text atom) ∧
      ∀ keyword ∈ ["OK", "NO", "BYE"], eqIgnoreAsciiCase atom (asBytes keyword) = false := by
  unfold parseStatus at h
  split_ifs at h with hok hno hbye
  cases h
  refine ⟨rfl, ?_⟩
  simp only [List.forall_mem_cons, List.not_mem_nil, false_imp_iff, implies_true, and_true]
  exact ⟨Bool.eq_false_iff.2 hok, Bool.eq_false_iff.2 hno, Bool.eq_false_iff.2 hbye⟩

/-- What is refused behind a status is refused for the response code. -/
theorem splitCode_error {tokens : List Token} {err : ManagesieveResponseParseError}
    (h : splitCode tokens = .error err) :
    err = .unterminatedResponseCode ∨ err = .emptyResponseCode := by
  unfold splitCode at h
  split at h
  · split at h
    · cases h
      exact Or.inl rfl
    · unfold parseCode at h
      split at h
      · rename_i hcode
        split at hcode <;> cases hcode
        cases h
        exact Or.inr rfl
      · cases h
  · cases h

/-- **What the tokens of a line are refused for is true of it**, unless the line opens on a closing
parenthesis and has no opening one. -/
theorem truthful_iff_of_parseLine {tokens : List Token} {line : Bytes}
    {err : ManagesieveResponseParseError} (h : LineOf tokens line)
    (herr : parseLine tokens = .error err) (tail : Bytes) :
    Truthful (line ++ tail) err ↔ ¬ ∃ tokens', tokens = .close :: tokens' ∧ .open_ ∉ tokens' := by
  rcases tokens with _ | ⟨value | atom | _ | _, tokens⟩
  · cases herr
    exact iff_of_true ⟨line, tail, rfl, h⟩ (by simp)
  · -- a string: only parentheses are refused behind it
    rcases hd : dataTokens (.string value :: tokens) with err' | datas
    · have hparse : parseLine (.string value :: tokens) = .error err' := by
        simp only [parseLine, parseData, hd]
      rw [hparse] at herr
      cases herr
      obtain ⟨token, hmem, b, hb, rfl⟩ := dataTokens_error hd
      exact iff_of_true ((h.outside_iff token hb tail).2 hmem) (by simp)
    · simp only [parseLine, parseData, hd] at herr
      cases herr
  · -- an atom: a status that is not known, or a response code
    refine iff_of_true ?_ (by simp)
    rcases hs : parseStatus atom with err' | status
    · simp only [parseLine, parseCompletion, hs] at herr
      cases herr
      obtain ⟨rfl, hkeywords⟩ := parseStatus_error hs
      exact ⟨atom, tokens, line, tail, rfl, h, rfl, hkeywords⟩
    · rcases hc : splitCode tokens with err' | code <;>
        simp only [parseLine, parseCompletion, hs, hc] at herr <;> cases herr
      rcases splitCode_error hc with rfl | rfl <;> trivial
  · cases herr
    exact iff_of_true ((h.outside_iff .open_ rfl tail).2 List.mem_cons_self) (by simp)
  · -- the opening parenthesis is looked for behind the closing one
    cases herr
    have hiff := h.outside_iff .open_ rfl tail
    rw [List.mem_cons, or_iff_right (by simp)] at hiff
    change Outside (line ++ tail) openParen ↔ _
    simpa using hiff

/-! ## Lines -/

theorem parse_of_isDataLine {line : Bytes} (h : IsDataLine line) (hmax : line.length ≤ usizeMax)
    (tail : Bytes) :
    ∃ data, ManagesieveLine.parse (line ++ tail) = .ok (some (.data data, line.length)) := by
  obtain ⟨value, tokens, hline, hparens⟩ := h
  have hnone : ∀ token ∈ Token.string value :: tokens, token.paren = none :=
    List.forall_mem_cons.2 ⟨rfl, hparens⟩
  obtain ⟨datas, hdatas⟩ := dataTokens_ok hnone
  refine ⟨⟨datas⟩, ManagesieveLine.parse_eq_some_iff.2 ⟨_, scanLine_lineOf hline hmax tail, ?_⟩⟩
  simp only [parseLine, parseData, hdatas]

theorem isDataLine_of_parse {buf : Bytes} {data : ManagesieveDataLine} {n : ℕ}
    (hmax : buf.length ≤ isizeMax)
    (h : ManagesieveLine.parse buf = .ok (some (.data data, n))) :
    ∃ line tail, buf = line ++ tail ∧ n = line.length ∧ IsDataLine line := by
  obtain ⟨tokens, hscan, hparse⟩ := ManagesieveLine.parse_eq_some_iff.1 h
  obtain ⟨line, tail, hline, rfl, rfl⟩ := exists_lineOf hmax hscan
  refine ⟨line, tail, rfl, rfl, ?_⟩
  unfold parseLine at hparse
  split at hparse
  · rename_i value rest
    rcases hd : dataTokens (.string value :: rest) with err | datas
    · simp only [parseData, hd] at hparse
      cases hparse
    · exact ⟨value, rest, hline, (List.forall_mem_cons.1 (paren_none_of_dataTokens hd)).2⟩
  · split at hparse <;> cases hparse

/-- **What a line is refused for is true of it**, unless it opens on a closing parenthesis and has
no opening one. -/
theorem truthful_iff_of_parse {bytes : Bytes} {err : ManagesieveResponseParseError}
    (hmax : bytes.length ≤ isizeMax) (h : ManagesieveLine.parse bytes = .error err) :
    Truthful bytes err ↔ ¬ ∃ tokens line tail, bytes = line ++ tail ∧
      LineOf (.close :: tokens) line ∧ .open_ ∉ tokens := by
  unfold ManagesieveLine.parse at h
  rcases hscan : scanLine bytes with err' | _ | ⟨tokens, n⟩ <;> rw [hscan] at h
  · cases h
    refine iff_of_true (fails_of_scanLine hmax hscan).truthful ?_
    rintro ⟨tokens, line, tail, rfl, hline, -⟩
    rw [scanLine_lineOf hline (length_le_usizeMax hmax) tail] at hscan
    cases hscan
  · cases h
  · obtain ⟨line, tail, hline, rfl, rfl⟩ := exists_lineOf hmax hscan
    rcases hparse : parseLine tokens with err' | parsed
    · simp only [hparse] at h
      cases h
      rw [truthful_iff_of_parseLine hline hparse, not_iff_not]
      constructor
      · rintro ⟨tokens', rfl, hopen⟩
        exact ⟨tokens', line, tail, rfl, hline, hopen⟩
      · rintro ⟨tokens', line', tail', hsplit, hline', hopen⟩
        rw [hsplit] at hscan hmax
        rw [scanLine_lineOf hline' (length_le_usizeMax hmax) tail'] at hscan
        obtain ⟨rfl, -⟩ := Prod.mk.inj (Option.some.inj (Except.ok.inj hscan))
        exact ⟨tokens', rfl, hopen⟩
    · simp only [hparse] at h
      cases h

/-! ## Responses -/

/-- The line that a response is refused for, behind its data lines. -/
theorem exists_refused_line (pre : Bytes) {rest : Bytes} {err : ManagesieveResponseParseError}
    (hmax : (pre ++ rest).length ≤ isizeMax)
    (h : untilFrom (fun _ => lineSumParser) (pre ++ rest) pre.length = .error err) :
    ∃ (lines : List Bytes) (last : Bytes), rest = lines.flatten ++ last ∧
      (∀ line ∈ lines, IsDataLine line) ∧ ManagesieveLine.parse last = .error err := by
  induction hk : rest.length using Nat.strongRecOn generalizing pre rest with
  | ind k ih =>
    subst hk
    rcases untilFrom_eq_error h with hp | ⟨data, n, hp, hnext⟩ <;> rw [List.drop_left] at hp
    · exact ⟨[], rest, rfl, by simp, lineSumParser_eq_error hp⟩
    · obtain ⟨line | completion, hparse, hitem⟩ := lineSumParser_eq_some hp
      swap
      · cases hitem
      have hpos := lineParser.pos hparse
      have hrest : rest.length ≤ isizeMax := by
        rw [List.length_append] at hmax
        omega
      obtain ⟨line', tail, rfl, rfl, hline'⟩ := isDataLine_of_parse hrest hparse
      rw [← List.length_append, ← List.append_assoc] at hnext
      rw [← List.append_assoc] at hmax
      obtain ⟨lines, last, rfl, hlines, hlast⟩ :=
        ih tail.length (by rw [List.length_append]; omega) _ hmax hnext rfl
      exact ⟨line' :: lines, last, by simp, List.forall_mem_cons.2 ⟨hline', hlines⟩, hlast⟩

/-- A line is refused behind data lines as it is on its own. -/
theorem untilFrom_refused_line {lines : List Bytes} {last : Bytes}
    {err : ManagesieveResponseParseError} (hlines : ∀ line ∈ lines, IsDataLine line)
    (hlast : ManagesieveLine.parse last = .error err) (pre : Bytes)
    (hmax : (pre ++ (lines.flatten ++ last)).length ≤ isizeMax) :
    untilFrom (fun _ => lineSumParser) (pre ++ (lines.flatten ++ last)) pre.length =
      .error err := by
  induction lines generalizing pre with
  | nil =>
    apply untilFrom_error
    rw [List.drop_left]
    exact lineSumParser_error hlast
  | cons line lines ih =>
    obtain ⟨hline, hlines⟩ := List.forall_mem_cons.1 hlines
    have hlen : line.length ≤ usizeMax := by
      refine length_le_usizeMax (y := pre ++ (lines.flatten ++ last)) ?_
      simp only [List.flatten_cons, List.length_append] at hmax ⊢
      omega
    obtain ⟨data, hparse⟩ := parse_of_isDataLine hline hlen (lines.flatten ++ last)
    rw [List.flatten_cons, List.append_assoc] at hmax ⊢
    have hitem : lineSumParser.parse
        ((pre ++ (line ++ (lines.flatten ++ last))).drop pre.length) =
          .ok (some (.inl data, line.length)) := by
      rw [List.drop_left]
      exact lineSumParser_some hparse
    have hrest := ih hlines (pre ++ line) (by rwa [List.append_assoc])
    rw [List.append_assoc, List.length_append] at hrest
    rw [untilFrom_cons hitem, hrest]

/-- A line that is refused is no data line. -/
theorem not_isDataLine_of_refused {line tail : Bytes} {err : ManagesieveResponseParseError}
    (hmax : (line ++ tail).length ≤ isizeMax)
    (h : ManagesieveLine.parse (line ++ tail) = .error err) : ¬ IsDataLine line := by
  intro hline
  obtain ⟨parsed, hparse⟩ := parse_of_isDataLine hline (length_le_usizeMax hmax) tail
  rw [h] at hparse
  cases hparse

/-- There is one such line. -/
theorem refused_line_unique {lines lines' : List Bytes} {last last' : Bytes}
    {err err' : ManagesieveResponseParseError} (hlines : ∀ line ∈ lines, IsDataLine line)
    (hlines' : ∀ line ∈ lines', IsDataLine line) (hlast : ManagesieveLine.parse last = .error err)
    (hlast' : ManagesieveLine.parse last' = .error err')
    (heq : lines.flatten ++ last = lines'.flatten ++ last')
    (hmax : (lines.flatten ++ last).length ≤ isizeMax) : last = last' := by
  induction lines generalizing lines' with
  | nil =>
    rcases lines' with _ | ⟨line', lines'⟩
    · exact heq
    · obtain ⟨hline', -⟩ := List.forall_mem_cons.1 hlines'
      rw [List.flatten_nil, List.nil_append] at heq hmax
      rw [List.flatten_cons, List.append_assoc] at heq
      rw [heq] at hlast hmax
      exact absurd hline' (not_isDataLine_of_refused hmax hlast)
  | cons line lines ih =>
    obtain ⟨hline, hlines⟩ := List.forall_mem_cons.1 hlines
    rw [List.flatten_cons, List.append_assoc] at heq hmax
    rcases lines' with _ | ⟨line', lines'⟩
    · rw [List.flatten_nil, List.nil_append] at heq
      rw [← heq] at hlast'
      exact absurd hline (not_isDataLine_of_refused hmax hlast')
    · obtain ⟨hline', hlines'⟩ := List.forall_mem_cons.1 hlines'
      rw [List.flatten_cons, List.append_assoc] at heq
      obtain ⟨parsed, hparse⟩ := parse_of_isDataLine hline (length_le_usizeMax hmax)
        (lines.flatten ++ last)
      have hmax' := hmax
      rw [heq] at hparse hmax'
      obtain ⟨parsed', hparse'⟩ := parse_of_isDataLine hline' (length_le_usizeMax hmax')
        (lines'.flatten ++ last')
      rw [hparse'] at hparse
      have hlen := (Prod.mk.inj (Option.some.inj (Except.ok.inj hparse))).2
      obtain ⟨-, htail⟩ := List.append_inj heq hlen.symm
      refine ih hlines hlines' htail ?_
      rw [List.length_append] at hmax
      omega

/-- The line that opens on a closing parenthesis is refused for an opening one. -/
theorem parse_close {tokens : List Token} {line : Bytes} (h : LineOf (.close :: tokens) line)
    (tail : Bytes) (hmax : (line ++ tail).length ≤ isizeMax) :
    ManagesieveLine.parse (line ++ tail) = .error (.unexpectedByte openParen) := by
  rw [ManagesieveLine.parse, scanLine_lineOf h (length_le_usizeMax hmax) tail]
  rfl

/-- What such a buffer is refused for is not true of it. -/
theorem not_tellsTruth_of_opensOnClose {buf : Bytes} (hmax : buf.length ≤ isizeMax)
    (h : OpensOnClose buf) : ¬ TellsTruth buf := by
  obtain ⟨lines, tokens, line, rest, rfl, hlines, hline, hopen⟩ := h
  intro htruth
  have hrest : (line ++ rest).length ≤ isizeMax := by
    rw [List.length_append] at hmax
    omega
  have hclose := parse_close hline rest hrest
  obtain ⟨lines', last, heq, hlines', hlast, htrue⟩ :=
    htruth _ (ManagesieveResponse.parse_eq_error_iff.2
      (untilFrom_refused_line hlines hclose [] hmax))
  obtain rfl := refused_line_unique hlines hlines' hclose hlast heq hmax
  exact (truthful_iff_of_parse hrest hclose).1 htrue ⟨tokens, line, rest, rfl, hline, hopen⟩

theorem OpensOnClose.closeParen_mem {buf : Bytes} (h : OpensOnClose buf) : closeParen ∈ buf := by
  obtain ⟨lines, tokens, line, rest, rfl, -, hline, -⟩ := h
  obtain ⟨front, after, heq, -, -⟩ :=
    (hline.outside_iff .close rfl rest).2 List.mem_cons_self
  rw [heq]
  simp

/-- **What a buffer is refused for is true of it**, and the lines before the one at fault are data
lines, exactly when that line does not open on a closing parenthesis without having an opening
one. -/
theorem tellsTruth_iff {buf : Bytes} (hmax : buf.length ≤ isizeMax) :
    TellsTruth buf ↔ ¬ OpensOnClose buf := by
  refine ⟨fun htruth hclose => not_tellsTruth_of_opensOnClose hmax hclose htruth, ?_⟩
  intro hclose err herr
  obtain ⟨lines, last, rfl, hlines, hlast⟩ :=
    exists_refused_line [] hmax (ManagesieveResponse.parse_eq_error_iff.1 herr)
  have hrest : last.length ≤ isizeMax := by
    rw [List.length_append] at hmax
    omega
  refine ⟨lines, last, rfl, hlines, hlast, (truthful_iff_of_parse hrest hlast).2 ?_⟩
  rintro ⟨tokens, line, tail, rfl, hline, hopen⟩
  exact hclose ⟨lines, tokens, line, tail, rfl, hlines, hline, hopen⟩

/-- A string that is refused for its escape, behind a data line. -/
theorem tellsTruth_escape :
    TellsTruth (asBytes "\"name\"\r\n\"a\\n\"\r\n") ∧
      ManagesieveResponse.parse (asBytes "\"name\"\r\n\"a\\n\"\r\n") =
        .error (.invalidEscape 0x6E) := by
  refine ⟨(tellsTruth_iff (by decide +kernel)).2 fun h => ?_, by decide +kernel⟩
  have hmem := h.closeParen_mem
  revert hmem
  decide +kernel

/-- A closing parenthesis is refused for an opening one where there is none. -/
theorem not_tellsTruth_close :
    ManagesieveResponse.parse (asBytes ") x\r\n") = .error (.unexpectedByte openParen) ∧
      openParen ∉ asBytes ") x\r\n" ∧ ¬ TellsTruth (asBytes ") x\r\n") := by
  refine ⟨by decide +kernel, by decide +kernel, ?_⟩
  have hline : LineOf [.close, .atom (asBytes "x")] (asBytes ") x\r\n") := by
    have hx : SegmentOf [.atom (asBytes "x")] (asBytes "x" ++ [cr]) :=
      .atom (by decide +kernel) (Or.inr (by decide)) (.blank (by decide) .nil)
    have hseg : SegmentOf [.close, .atom (asBytes "x")]
        (closeParen :: space :: (asBytes "x" ++ [cr])) := .close (.blank (by decide) hx)
    exact .last hseg (by decide +kernel)
  exact not_tellsTruth_of_opensOnClose (by decide +kernel)
    ⟨[], _, _, [], by simp, by simp, hline, by simp⟩

end ManageSieve
