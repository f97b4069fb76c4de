import ManageSieve.Wire.Diagnosis
import ManageSieve.Wire.Rendering

/-!
# The language of responses

Which octets are read as which response, and which are refused for what. The reader takes more than
the format `Renders` has: tokens need no blank between them, the arguments of a code are anything up
to a closing parenthesis, and behind its text a completion line may go on. `TokensOf` says so of the
tokens of a line, `ResponseOf` and `RefusedFor` of a response.

The main results are `ManagesieveResponse.parse_responseOf_iff` and
`ManagesieveResponse.parse_refusedFor_iff`: what is read and what is refused is this and no more,
and whatever else there may be in a buffer is waited for.
-/

namespace ManageSieve

open Incremental

/-! ## The tokens of a line -/

/-- `CodeOf tokens answer`: what stands behind a status word. A response code goes up to the first
closing parenthesis, whatever is opened before it. -/
inductive CodeOf : List Token →
    Except ManagesieveResponseParseError (Option ManagesieveResponseCode × List Token) → Prop
  | none {rest} : rest.head? ≠ some .open_ → CodeOf rest (.ok (none, rest))
  | some {code name arguments rest} : RendersCode code name arguments → .close ∉ arguments →
      CodeOf (.open_ :: (.atom name :: arguments ++ .close :: rest)) (.ok (some code, rest))
  | unterminated {tokens} : .close ∉ tokens →
      CodeOf (.open_ :: tokens) (.error .unterminatedResponseCode)
  | unnamed {tokens rest} : .close ∉ tokens → (∀ name, tokens.head? ≠ some (.atom name)) →
      CodeOf (.open_ :: (tokens ++ .close :: rest)) (.error .emptyResponseCode)

/-- `TextOf rest txt`: what stands behind the code. A text is a string, and anything may follow. -/
inductive TextOf : List Token → Option String → Prop
  | none {rest} : (∀ value, rest.head? ≠ some (.string value)) → TextOf rest none
  | some (value : Bytes) (rest : List Token) : TextOf (.string value :: rest) (some (text value))

/-- `TokensOf tokens answer`: what the tokens of a line say. -/
inductive TokensOf : List Token → Except ManagesieveResponseParseError ManagesieveLine → Prop
  | data {value tokens written} : List.Forall₂ RendersToken tokens written →
      TokensOf (.string value :: written) (.ok (.data ⟨.string value :: tokens⟩))
  | completion {status : ManagesieveStatus} {word tokens code rest txt} :
      eqIgnoreAsciiCase word (asBytes status.asStr) = true → CodeOf tokens (.ok (code, rest)) →
      TextOf rest txt → TokensOf (.atom word :: tokens) (.ok (.completion ⟨status, code, txt⟩))
  | empty : TokensOf [] (.error .emptyLine)
  | paren {token tokens b} : token.paren = some b →
      TokensOf (token :: tokens) (.error (.unexpectedByte openParen))
  | dataParen {value tokens front token back b} :
      List.Forall₂ RendersToken tokens front → token.paren = some b →
      TokensOf (.string value :: (front ++ token :: back)) (.error (.unexpectedByte b))
  | status {word tokens} :
      (∀ status : ManagesieveStatus, eqIgnoreAsciiCase word (asBytes status.asStr) = false) →
      TokensOf (.atom word :: tokens) (.error (.unknownStatus (text word)))
  | code {status : ManagesieveStatus} {word tokens err} :
      eqIgnoreAsciiCase word (asBytes status.asStr) = true → CodeOf tokens (.error err) →
      TokensOf (.atom word :: tokens) (.error err)

/-! ## What the tokens say -/

/-- Every name names a code. -/
theorem exists_rendersCode (name : Bytes) (arguments : List Token) :
    ∃ code, RendersCode code name arguments := by
  by_cases hknown : ∃ keyword ∈ codeNames,
      eqIgnoreAsciiCase (splitName name).1 (asBytes keyword) = true
  · obtain ⟨keyword, hmem, hhead⟩ := hknown
    have hrefines := refines_splitName hhead
    rcases List.mem_append.1 hmem with hplain | hrest
    · obtain ⟨⟨keyword, code⟩, hcode, rfl⟩ := List.mem_map.1 hplain
      exact ⟨code, .plain hcode hrefines⟩
    · simp only [List.mem_cons, List.not_mem_nil, or_false] at hrest
      rcases hrest with rfl | rfl | rfl | rfl
      · by_cases hquota : ∃ quota ∈ quotaNames, ∃ found ∈ (splitName name).2,
            eqIgnoreAsciiCase found (asBytes quota.1) = true
        · obtain ⟨⟨keyword, limit⟩, hlimit, found, hfound, hdetail⟩ := hquota
          rw [Option.mem_def.1 hfound] at hrefines
          exact ⟨_, .quota hlimit hrefines hdetail⟩
        · push Not at hquota
          refine ⟨_, .quotas hrefines fun quota hq found hf => ?_⟩
          exact Bool.eq_false_iff.2 (hquota quota hq found hf)
      · exact ⟨_, .referral hrefines⟩
      · exact ⟨_, .sasl hrefines⟩
      · exact ⟨_, .tag hrefines⟩
  · refine ⟨_, .other fun keyword hkeyword detail hrefines => hknown ⟨keyword, hkeyword, ?_⟩⟩
    have hslash : ∀ keyword ∈ codeNames, slash ∉ (asBytes keyword).map toAsciiLowercase := by
      decide +kernel
    obtain ⟨head, hsplit, hhead⟩ := splitName_refines hrefines (hslash keyword hkeyword)
    rwa [hsplit]

theorem parseCode_of_renders {code : ManagesieveResponseCode} {name : Bytes}
    {arguments : List Token} (h : RendersCode code name arguments) :
    parseCode (.atom name :: arguments) = .ok code := by
  rw [parseCode, codeArgument_cons, namedCode_of_renders h]

theorem splitCode_of_close {tokens : List Token} (h : .close ∉ tokens) (rest : List Token) :
    splitCode (.open_ :: (tokens ++ .close :: rest)) =
      match parseCode tokens with
      | .error err => .error err
      | .ok code => .ok (some code, rest) := by
  have hfind : (tokens ++ Token.close :: rest).findIdx? (· == .close) = some tokens.length :=
    findIdx?_beq_append h rest
  have hdrop : (tokens ++ Token.close :: rest).drop (tokens.length + 1) = rest := by
    rw [List.drop_length_add_append, List.drop_one, List.tail_cons]
  rcases hcode : parseCode tokens with err | code
  · simp only [splitCode, hfind, List.take_left, hcode]
  · simp only [splitCode, hfind, List.take_left, hcode, hdrop]

/-- **What the reader makes of what stands behind a status.** -/
theorem splitCode_eq_iff {tokens : List Token} {answer : Except ManagesieveResponseParseError
    (Option ManagesieveResponseCode × List Token)} :
    splitCode tokens = answer ↔ CodeOf tokens answer := by
  have hof : ∀ {tokens answer}, CodeOf tokens answer → splitCode tokens = answer := by
    intro tokens answer h
    cases h with
    | none h =>
      unfold splitCode
      split
      · exact absurd rfl h
      · rfl
    | @some code name arguments rest hcode hclose =>
      rw [splitCode_of_close (by simpa using hclose), parseCode_of_renders hcode]
    | unterminated hclose => rw [splitCode, findIdx?_beq_eq_none hclose]
    | @unnamed tokens rest hclose hname =>
      rw [splitCode_of_close hclose]
      rcases tokens with _ | ⟨_ | name | _ | _, tokens⟩ <;> first | rfl | exact absurd rfl (hname _)
  refine ⟨fun h => ?_, hof⟩
  suffices htotal : ∃ answer, CodeOf tokens answer by
    obtain ⟨answer', hanswer⟩ := htotal
    rwa [← h, hof hanswer]
  by_cases hopen : tokens.head? = some .open_
  swap
  · exact ⟨_, .none hopen⟩
  obtain ⟨tokens, rfl⟩ := List.head?_eq_some_iff.1 hopen
  by_cases hclose : Token.close ∈ tokens
  swap
  · exact ⟨_, .unterminated hclose⟩
  obtain ⟨inside, rest, rfl, hinside⟩ := List.eq_append_cons_of_mem hclose
  by_cases hname : ∃ name, inside.head? = some (.atom name)
  · obtain ⟨name, hname⟩ := hname
    obtain ⟨arguments, rfl⟩ := List.head?_eq_some_iff.1 hname
    obtain ⟨code, hcode⟩ := exists_rendersCode name arguments
    exact ⟨_, .some hcode (by simpa using hinside)⟩
  · exact ⟨_, .unnamed hinside (by simpa using hname)⟩

theorem completionText_eq_iff {rest : List Token} {txt : Option String} :
    completionText rest = txt ↔ TextOf rest txt := by
  have hof : ∀ {txt}, TextOf rest txt → completionText rest = txt := by
    intro txt h
    cases h with
    | none h =>
      unfold completionText
      split
      · exact absurd ‹_› (h _)
      · rfl
    | some value rest => rfl
  refine ⟨?_, hof⟩
  rintro rfl
  by_cases h : ∃ value, rest.head? = some (.string value)
  · obtain ⟨value, h⟩ := h
    obtain ⟨rest, rfl⟩ := List.head?_eq_some_iff.1 h
    exact .some value rest
  · rw [not_exists] at h
    rw [hof (.none h)]
    exact .none h

/-- A word is a status, or none. -/
theorem parseStatus_of_forall {word : Bytes}
    (h : ∀ status : ManagesieveStatus, eqIgnoreAsciiCase word (asBytes status.asStr) = false) :
    parseStatus word = .error (.unknownStatus (text word)) := by
  have hok := h .ok
  have hno := h .no
  have hbye := h .bye
  simp only [ManagesieveStatus.asStr] at hok hno hbye
  simp only [parseStatus, hok, hno, hbye, Bool.false_eq_true, if_false]

/-- The tokens of a data line are taken as they are, up to a parenthesis. -/
theorem exists_rendersTokens (written : List Token) :
    (∃ tokens, List.Forall₂ RendersToken tokens written) ∨
      ∃ tokens front token back b, written = front ++ token :: back ∧
        List.Forall₂ RendersToken tokens front ∧ token.paren = some b := by
  induction written with
  | nil => exact Or.inl ⟨[], .nil⟩
  | cons token written ih =>
    cases hparen : token.paren with
    | some b => exact Or.inr ⟨[], [], token, written, b, rfl, .nil, hparen⟩
    | none =>
      obtain ⟨shown, hshown⟩ : ∃ shown, RendersToken shown token := by
        cases token with
        | string value => exact ⟨_, .string value⟩
        | atom value => exact ⟨_, .atom value⟩
        | open_ => cases hparen
        | close => cases hparen
      rcases ih with ⟨tokens, htokens⟩ | ⟨tokens, front, other, back, b, rfl, htokens, hb⟩
      · exact Or.inl ⟨shown :: tokens, .cons hshown htokens⟩
      · exact Or.inr
          ⟨shown :: tokens, token :: front, other, back, b, rfl, .cons hshown htokens, hb⟩

theorem dataTokens_paren {tokens : List ManagesieveToken} {front : List Token} {token : Token}
    {b : UInt8} (h : List.Forall₂ RendersToken tokens front) (hb : token.paren = some b)
    (back : List Token) :
    dataTokens (front ++ token :: back) = .error (.unexpectedByte b) := by
  induction h with
  | nil => cases token <;> cases hb <;> rfl
  | cons ht _ ih => cases ht <;> simp only [List.cons_append, dataTokens, dataToken, ih]

/-- **What the reader makes of the tokens of a line.** -/
theorem parseLine_eq_iff {tokens : List Token}
    {answer : Except ManagesieveResponseParseError ManagesieveLine} :
    parseLine tokens = answer ↔ TokensOf tokens answer := by
  have hof : ∀ {tokens answer}, TokensOf tokens answer → parseLine tokens = answer := by
    intro tokens answer h
    cases h with
    | @data value tokens written htokens =>
      have hdata := dataTokens_of_renders (.cons (.string value) htokens)
      simp only [parseLine, parseData, hdata]
    | completion hword hcode htext =>
      simp only [parseLine, parseCompletion, parseStatus_word hword, splitCode_eq_iff.2 hcode,
        completionText_eq_iff.2 htext]
    | empty => rfl
    | @paren token tokens b hb => cases token <;> cases hb <;> rfl
    | @dataParen value tokens front token back b hfront hb =>
      have hdata := dataTokens_paren (.cons (.string value) hfront) hb back
      rw [List.cons_append] at hdata
      simp only [parseLine, parseData, hdata]
    | status hword => simp only [parseLine, parseCompletion, parseStatus_of_forall hword]
    | code hword hcode =>
      simp only [parseLine, parseCompletion, parseStatus_word hword, splitCode_eq_iff.2 hcode]
  refine ⟨fun h => ?_, hof⟩
  suffices htotal : ∃ answer, TokensOf tokens answer by
    obtain ⟨answer', hanswer⟩ := htotal
    rwa [← h, hof hanswer]
  rcases tokens with _ | ⟨value | word | _ | _, tokens⟩
  · exact ⟨_, .empty⟩
  · rcases exists_rendersTokens tokens with
      ⟨shown, hshown⟩ | ⟨shown, front, token, back, b, rfl, hshown, hb⟩
    · exact ⟨_, .data hshown⟩
    · exact ⟨_, .dataParen hshown hb⟩
  · by_cases hword : ∃ status : ManagesieveStatus,
        eqIgnoreAsciiCase word (asBytes status.asStr) = true
    · obtain ⟨status, hword⟩ := hword
      rcases hcode : splitCode tokens with err | ⟨code, rest⟩
      · exact ⟨_, .code hword (splitCode_eq_iff.1 hcode)⟩
      · exact ⟨_, .completion hword (splitCode_eq_iff.1 hcode) (completionText_eq_iff.1 rfl)⟩
    · rw [not_exists] at hword
      exact ⟨_, .status fun status => Bool.eq_false_iff.2 (hword status)⟩
  · exact ⟨_, .paren rfl⟩
  · exact ⟨_, .paren rfl⟩

/-! ## Lines -/

/-- `FailsFor bytes err`: behind its literals, the line that starts `bytes` has a segment that is
refused for `err`. A carriage return before the line feed belongs to the line end. -/
inductive FailsFor : Bytes → ManagesieveResponseParseError → Prop
  | segment {seg err} (rest : Bytes) : lf ∉ seg → Lexed (stripCr seg) (.error err) →
      FailsFor (seg ++ lf :: rest) err
  | literal {tokens seg marker rest err} (e : LineEnd) (octets : Bytes) : SegmentOf tokens seg →
      lf ∉ seg → Announces marker octets.length → octets.length ≤ maxLiteral → FailsFor rest err →
      FailsFor (seg ++ (marker ++ (e.bytes ++ (octets ++ rest)))) err

/-- A literal is read over, whatever was read before it and whatever follows. -/
theorem scanLineFrom_over {tokens : List Token} {seg marker octets rest : Bytes} (e : LineEnd)
    (hseg : SegmentOf tokens seg) (hlf : lf ∉ seg) (hm : Announces marker octets.length)
    (hs : octets.length ≤ maxLiteral) (pre : Bytes) (read : List Token)
    (hmax : (pre ++ (seg ++ (marker ++ (e.bytes ++ (octets ++ rest))))).length ≤ isizeMax) :
    ∃ pre', pre ++ (seg ++ (marker ++ (e.bytes ++ (octets ++ rest)))) = pre' ++ rest ∧
      scanLineFrom (pre ++ (seg ++ (marker ++ (e.bytes ++ (octets ++ rest))))) pre.length read =
        scanLineFrom (pre' ++ rest) pre'.length (read ++ (tokens ++ [.string octets])) := by
  obtain ⟨seg', hline, hlf', hstrip⟩ := stripCr_marker hm hlf e
  have hsplit : seg ++ (marker ++ (e.bytes ++ (octets ++ rest))) =
      seg' ++ lf :: (octets ++ rest) := by
    rw [← List.append_assoc marker, ← List.append_assoc seg, hline]
    simp
  have hlex : lex (stripCr seg') = .ok (tokens, some octets.length) := by
    rw [hstrip]
    exact lex_of_lexed (.marker hseg hm hs)
  rw [hsplit] at hmax ⊢
  have hlen : pre.length + seg'.length + 1 + octets.length ≤ usizeMax := by
    refine add_le_usizeMax ?_ hs
    simp only [List.length_append, List.length_cons] at hmax
    omega
  have hbuf : pre ++ (seg' ++ lf :: (octets ++ rest)) =
      pre ++ (seg' ++ lf :: octets) ++ rest := by simp
  refine ⟨pre ++ (seg' ++ lf :: octets), hbuf, ?_⟩
  rw [scanLineFrom_literal hlf' hlex hlen read rest, hbuf]

/-- What fails is refused, whatever was read before it. -/
theorem scanLineFrom_failsFor {rest : Bytes} {err : ManagesieveResponseParseError}
    (h : FailsFor rest err) (pre : Bytes) (read : List Token)
    (hmax : (pre ++ rest).length ≤ isizeMax) :
    scanLineFrom (pre ++ rest) pre.length read = .error err := by
  induction h generalizing pre read with
  | @segment seg err rest hlf hlexed =>
    rw [scanLineFrom_step (by simp), List.drop_left, segmentAt_line _ hlf, segmentStep,
      lex_of_lexed hlexed]
  | @literal tokens seg marker rest err e octets hseg hlf hm hs _ ih =>
    obtain ⟨pre', hbuf, hscan⟩ := scanLineFrom_over e hseg hlf hm hs pre read hmax
    rw [hbuf] at hmax
    rw [hscan]
    exact ih pre' _ hmax

/-- **What is refused fails**, for what it is refused for. -/
theorem failsFor_of_scanLineFrom (pre : Bytes) {rest : Bytes} {read : List Token}
    {err : ManagesieveResponseParseError} (hmax : (pre ++ rest).length ≤ isizeMax)
    (h : scanLineFrom (pre ++ rest) pre.length read = .error err) : FailsFor rest err := by
  induction hk : rest.length using Nat.strongRecOn generalizing pre rest read with
  | ind k ih =>
    subst hk
    rcases lf_cases rest with hno | ⟨seg, after, rfl, hlf⟩
    · rw [scanLineFrom_step (by simp), List.drop_left, segmentAt_none hno] at h
      cases h
    have hstep := h
    rw [scanLineFrom_step (by simp), List.drop_left, segmentAt_line _ hlf, segmentStep] at hstep
    rcases hlex : lex (stripCr seg) with err' | ⟨tokens, _ | size⟩ <;> rw [hlex] at hstep
    · cases hstep
      exact .segment after hlf (lex_eq_iff.1 hlex)
    · cases hstep
    · generalize hstrip : stripCr seg = s at hlex
      obtain ⟨e, hsplit, hlf'⟩ := exists_stripCr hlf
      rw [hstrip] at hsplit hlf'
      obtain @⟨_, _, _⟩ | @⟨tokens, front, marker, size, hseg, hm, hs⟩ := lex_eq_iff.1 hlex
      have hlen : pre.length + seg.length + 1 + size ≤ usizeMax := by
        refine add_le_usizeMax ?_ hs
        simp only [List.length_append, List.length_cons] at hmax
        omega
      rw [← hstrip] at hlex
      obtain ⟨octets, rest, rfl, rfl⟩ := exists_octets hlf hlex hlen (by rw [h]; simp)
      have hbuf : pre ++ (seg ++ lf :: (octets ++ rest)) =
          pre ++ (seg ++ lf :: octets) ++ rest := by simp
      rw [scanLineFrom_literal hlf hlex hlen read rest, hbuf] at h
      rw [hbuf] at hmax
      rw [hsplit (octets ++ rest), List.append_assoc]
      have hfront : lf ∉ front := fun hmem => hlf' (List.mem_append_left _ hmem)
      have hshort : rest.length < (seg ++ lf :: (octets ++ rest)).length := by
        simp only [List.length_append, List.length_cons]
        omega
      exact .literal e octets hseg hfront hm hs (ih rest.length hshort _ hmax h rfl)

theorem scanLine_eq_error_iff {buf : Bytes} {err : ManagesieveResponseParseError}
    (hmax : buf.length ≤ isizeMax) : scanLine buf = .error err ↔ FailsFor buf err :=
  ⟨fun h => failsFor_of_scanLineFrom [] hmax h,
    fun h => scanLineFrom_failsFor h [] [] hmax⟩

/-- `LineFor line bytes`: a line of the grammar, and what it says. -/
def LineFor (line : ManagesieveLine) (bytes : Bytes) : Prop :=
  ∃ tokens, LineOf tokens bytes ∧ TokensOf tokens (.ok line)

/-- `LineRefused err bytes`: the line that starts `bytes` is refused for `err`. -/
inductive LineRefused (err : ManagesieveResponseParseError) : Bytes → Prop
  | fails {bytes} : FailsFor bytes err → LineRefused err bytes
  | tokens {tokens line} (tail : Bytes) : LineOf tokens line → TokensOf tokens (.error err) →
      LineRefused err (line ++ tail)

theorem ManagesieveLine.parse_lineFor_iff {buf : Bytes} {line : ManagesieveLine} {n : ℕ}
    (hmax : buf.length ≤ isizeMax) : ManagesieveLine.parse buf = .ok (some (line, n)) ↔
      ∃ bytes tail, buf = bytes ++ tail ∧ n = bytes.length ∧ LineFor line bytes := by
  rw [ManagesieveLine.parse_eq_some_iff]
  constructor
  · rintro ⟨tokens, hscan, hline⟩
    obtain ⟨bytes, tail, hbytes, rfl, rfl⟩ := exists_lineOf hmax hscan
    exact ⟨bytes, tail, rfl, rfl, tokens, hbytes, parseLine_eq_iff.1 hline⟩
  · rintro ⟨bytes, tail, rfl, rfl, tokens, hbytes, hline⟩
    exact ⟨tokens, scanLine_lineOf hbytes (length_le_usizeMax hmax) tail, parseLine_eq_iff.2 hline⟩

theorem ManagesieveLine.parse_lineRefused_iff {buf : Bytes} {err : ManagesieveResponseParseError}
    (hmax : buf.length ≤ isizeMax) :
    ManagesieveLine.parse buf = .error err ↔ LineRefused err buf := by
  constructor
  · intro h
    unfold ManagesieveLine.parse at h
    rcases hscan : scanLine buf with err' | _ | ⟨tokens, n⟩ <;> rw [hscan] at h
    · cases h
      exact .fails ((scanLine_eq_error_iff hmax).1 hscan)
    · cases h
    · dsimp only at h
      rcases hline : parseLine tokens with err' | line <;> rw [hline] at h <;> cases h
      obtain ⟨line, tail, hline', rfl, -⟩ := exists_lineOf hmax hscan
      exact .tokens tail hline' (parseLine_eq_iff.1 hline)
  · rintro (hfails | @⟨tokens, line, tail, hline, htokens⟩)
    · rw [ManagesieveLine.parse, (scanLine_eq_error_iff hmax).2 hfails]
    · rw [ManagesieveLine.parse, scanLine_lineOf hline (length_le_usizeMax hmax) tail]
      simp only [parseLine_eq_iff.2 htokens]

/-! ## Responses -/

/-- `ResponseOf response bytes`: `bytes` are the data lines of `response` and its completion. -/
inductive ResponseOf : ManagesieveResponse → Bytes → Prop
  | completion {completion bytes} : LineFor (.completion completion) bytes →
      ResponseOf ⟨[], completion⟩ bytes
  | data {line data completion bytes rest} : LineFor (.data line) bytes →
      ResponseOf ⟨data, completion⟩ rest → ResponseOf ⟨line :: data, completion⟩ (bytes ++ rest)

/-- `RefusedFor err buf`: behind its data lines, `buf` has a line that is refused for `err`. -/
inductive RefusedFor (err : ManagesieveResponseParseError) : Bytes → Prop
  | line {buf} : LineRefused err buf → RefusedFor err buf
  | data {line bytes rest} : LineFor (.data line) bytes → RefusedFor err rest →
      RefusedFor err (bytes ++ rest)

/-- What `LineFor` says of a line, as the repetition of lines takes it. -/
theorem lineSumParser_lineFor {line : ManagesieveLine} {bytes : Bytes} (h : LineFor line bytes)
    (pre tail : Bytes) (hmax : (pre ++ (bytes ++ tail)).length ≤ isizeMax) :
    lineSumParser.parse ((pre ++ (bytes ++ tail)).drop pre.length) =
      .ok (some (line.toSum, bytes.length)) := by
  rw [List.drop_left]
  apply lineSumParser_some
  rw [ManagesieveLine.parse_lineFor_iff (by rw [List.length_append] at hmax; omega)]
  exact ⟨bytes, tail, rfl, rfl, h⟩

theorem untilFrom_responseOf {response : ManagesieveResponse} {bytes : Bytes}
    (h : ResponseOf response bytes) (pre tail : Bytes)
    (hmax : (pre ++ (bytes ++ tail)).length ≤ isizeMax) :
    untilFrom (fun _ => lineSumParser) (pre ++ (bytes ++ tail)) pre.length =
      .ok (some ((response.data, response.completion), pre.length + bytes.length)) := by
  induction h generalizing pre with
  | completion hline => exact untilFrom_last (lineSumParser_lineFor hline pre tail hmax)
  | @data line data completion bytes rest hline _ ih =>
    rw [List.append_assoc] at hmax ⊢
    have hrest := ih (pre ++ bytes) (by rwa [List.append_assoc])
    rw [List.append_assoc, List.length_append] at hrest
    rw [untilFrom_cons (lineSumParser_lineFor hline pre (rest ++ tail) hmax), hrest,
      List.length_append, Nat.add_assoc]

/-- The line that an item of the repetition was. -/
theorem exists_lineFor {pre rest : Bytes} {item : ManagesieveDataLine ⊕ ManagesieveCompletion}
    {n : ℕ} (hmax : (pre ++ rest).length ≤ isizeMax)
    (h : lineSumParser.parse ((pre ++ rest).drop pre.length) = .ok (some (item, n))) :
    ∃ line bytes tail, rest = bytes ++ tail ∧ n = bytes.length ∧ LineFor line bytes ∧
      line.toSum = item := by
  rw [List.drop_left] at h
  obtain ⟨line, hparse, hitem⟩ := lineSumParser_eq_some h
  have hrest : rest.length ≤ isizeMax := by
    rw [List.length_append] at hmax
    omega
  obtain ⟨bytes, tail, hbytes, hn, hline⟩ := (ManagesieveLine.parse_lineFor_iff hrest).1 hparse
  exact ⟨line, bytes, tail, hbytes, hn, hline, hitem⟩

theorem responseOf_of_untilFrom {data : List ManagesieveDataLine}
    {completion : ManagesieveCompletion} (pre : Bytes) {rest : Bytes} {m : ℕ}
    (hmax : (pre ++ rest).length ≤ isizeMax)
    (h : untilFrom (fun _ => lineSumParser) (pre ++ rest) pre.length =
      .ok (some ((data, completion), m))) :
    ∃ bytes tail, rest = bytes ++ tail ∧ m = pre.length + bytes.length ∧
      ResponseOf ⟨data, completion⟩ bytes := by
  induction data generalizing pre rest with
  | nil =>
    obtain ⟨n, hp, -, rfl⟩ | ⟨v, n, ws, -, hvs, -⟩ := untilFrom_eq_some h
    · obtain ⟨line, bytes, tail, rfl, rfl, hline, hitem⟩ := exists_lineFor hmax hp
      cases line with
      | data line => cases hitem
      | completion done =>
        cases hitem
        exact ⟨bytes, tail, rfl, rfl, .completion hline⟩
    · cases hvs
  | cons v data ih =>
    obtain ⟨n, -, hvs, -⟩ | ⟨v', n, ws, hp, hvs, hrest⟩ := untilFrom_eq_some h
    · cases hvs
    · cases hvs
      obtain ⟨line, bytes, tail, rfl, rfl, hline, hitem⟩ := exists_lineFor hmax hp
      cases line with
      | completion done => cases hitem
      | data line =>
        cases hitem
        rw [← List.length_append, ← List.append_assoc] at hrest
        rw [← List.append_assoc] at hmax
        obtain ⟨bytes', tail, rfl, rfl, hresponse⟩ := ih _ hmax hrest
        exact ⟨bytes ++ bytes', tail, by rw [List.append_assoc], by simp [Nat.add_assoc],
          .data hline hresponse⟩

theorem untilFrom_refusedFor {buf : Bytes} {err : ManagesieveResponseParseError}
    (h : RefusedFor err buf) (pre : Bytes) (hmax : (pre ++ buf).length ≤ isizeMax) :
    untilFrom (fun _ => lineSumParser) (pre ++ buf) pre.length = .error err := by
  induction h generalizing pre with
  | @line buf hline =>
    apply untilFrom_error
    rw [List.drop_left]
    apply lineSumParser_error
    rwa [ManagesieveLine.parse_lineRefused_iff (by rw [List.length_append] at hmax; omega)]
  | @data line bytes rest hline _ ih =>
    have hrest := ih (pre ++ bytes) (by rwa [List.append_assoc])
    rw [List.append_assoc, List.length_append] at hrest
    rw [untilFrom_cons (lineSumParser_lineFor hline pre rest hmax), hrest]

theorem refusedFor_of_untilFrom (pre : Bytes) {rest : Bytes} {err : ManagesieveResponseParseError}
    (hmax : (pre ++ rest).length ≤ isizeMax)
    (h : untilFrom (fun _ => lineSumParser) (pre ++ rest) pre.length = .error err) :
    RefusedFor err rest := by
  induction hk : rest.length using Nat.strongRecOn generalizing pre rest with
  | ind k ih =>
    subst hk
    rcases untilFrom_eq_error h with hp | ⟨data, n, hp, hnext⟩
    · rw [List.drop_left] at hp
      rw [List.length_append] at hmax
      exact .line ((ManagesieveLine.parse_lineRefused_iff (by omega)).1 (lineSumParser_eq_error hp))
    · have hpos := lineSumParser.pos hp
      obtain ⟨line, bytes, tail, rfl, rfl, hline, hitem⟩ := exists_lineFor hmax hp
      cases line with
      | completion done => cases hitem
      | data line =>
        rw [← List.length_append, ← List.append_assoc] at hnext
        rw [← List.append_assoc] at hmax
        exact .data hline (ih tail.length (by rw [List.length_append]; omega) _ hmax hnext rfl)

namespace ManagesieveResponse

variable {buf : Bytes}

theorem responseOf_of_parse (hmax : buf.length ≤ isizeMax) {response : ManagesieveResponse} {n : ℕ}
    (h : ManagesieveResponse.parse buf = .ok (some (response, n))) :
    ∃ bytes tail, buf = bytes ++ tail ∧ n = bytes.length ∧ ResponseOf response bytes := by
  obtain ⟨bytes, tail, rfl, rfl, hresponse⟩ :=
    responseOf_of_untilFrom [] hmax (untilFrom_of_parse h)
  exact ⟨bytes, tail, rfl, by simp, hresponse⟩

theorem parse_of_responseOf {response : ManagesieveResponse} {bytes tail : Bytes}
    (hmax : (bytes ++ tail).length ≤ isizeMax) (hresponse : ResponseOf response bytes) :
    ManagesieveResponse.parse (bytes ++ tail) = .ok (some (response, bytes.length)) := by
  have h := untilFrom_responseOf hresponse [] tail hmax
  rw [List.nil_append, List.length_nil, Nat.zero_add] at h
  rw [parse, parseFrom_eq_untilFrom (Nat.zero_le _), h]
  rfl

/-- **What is read is a response of the language**, up to its last octet and no further. -/
theorem parse_responseOf_iff (hmax : buf.length ≤ isizeMax) {response : ManagesieveResponse}
    {n : ℕ} : ManagesieveResponse.parse buf = .ok (some (response, n)) ↔
      ∃ bytes tail, buf = bytes ++ tail ∧ n = bytes.length ∧ ResponseOf response bytes := by
  constructor
  · exact responseOf_of_parse hmax
  · rintro ⟨bytes, tail, rfl, rfl, hresponse⟩
    exact parse_of_responseOf hmax hresponse

/-- Tokens without blanks, a code that opens two parentheses and closes one, and a line that goes on
behind its text. -/
theorem parse_responseOf_iff_dense :
    ∃ bytes tail, asBytes "\"a\"b\r\nok(x\"y\"()\"t\"more\nNO" = bytes ++ tail ∧ 23 = bytes.length ∧
      ResponseOf ⟨[⟨[.string (asBytes "a"), .atom "b"]⟩], ⟨.ok, some (.other "x"), some "t"⟩⟩
        bytes :=
  (parse_responseOf_iff (by decide +kernel)).1 (by decide +kernel)

/-- **What is refused is refused for the first line that is no data line**, and a buffer in which
there is neither a response nor such a line is waited for. -/
theorem parse_refusedFor_iff (hmax : buf.length ≤ isizeMax) :
    (∀ err, ManagesieveResponse.parse buf = .error err ↔ RefusedFor err buf) ∧
      (ManagesieveResponse.parse buf = .ok none ↔ (∀ err, ¬ RefusedFor err buf) ∧
        ∀ response bytes tail, buf = bytes ++ tail → ¬ ResponseOf response bytes) := by
  have hrefused : ∀ err, ManagesieveResponse.parse buf = .error err ↔ RefusedFor err buf := by
    intro err
    rw [parse_eq_error_iff]
    exact ⟨fun h => refusedFor_of_untilFrom [] hmax h,
      fun h => untilFrom_refusedFor h [] hmax⟩
  refine ⟨hrefused, ?_⟩
  constructor
  · intro h
    refine ⟨fun err herr => ?_, fun response bytes tail hbuf hresponse => ?_⟩
    · rw [(hrefused err).2 herr] at h
      cases h
    · subst hbuf
      rw [parse_of_responseOf hmax hresponse] at h
      cases h
  · rintro ⟨hnot, hno⟩
    rcases hparse : ManagesieveResponse.parse buf with err | _ | ⟨response, n⟩
    · exact absurd ((hrefused err).1 hparse) (hnot err)
    · rfl
    · obtain ⟨bytes, tail, hbuf, -, hresponse⟩ := responseOf_of_parse hmax hparse
      exact absurd hresponse (hno response bytes tail hbuf)

/-- A code that is not closed, behind a data line. -/
theorem parse_refusedFor_iff_unterminated :
    RefusedFor .unterminatedResponseCode (asBytes "\"a\"\r\nNO (TRYLATER \"x\"\r\n") :=
  ((parse_refusedFor_iff (by decide +kernel)).1 _).1 (by decide +kernel)

end ManagesieveResponse

end ManageSieve
