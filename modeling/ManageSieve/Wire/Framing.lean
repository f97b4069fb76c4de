import ManageSieve.Foundations.Incremental
import ManageSieve.Wire.Response

/-!
# The framing of lines and responses

`scanLine`, `ManagesieveLine.parse` and `ManagesieveResponse.parse` are incremental parsers: what
they answer on a buffer is final for every buffer that extends it, and they answer as soon as the
bytes they consume are there (`lineParser`, `responseParser`).

A logical line is a run of segments, each of which ends on a line feed or on the octets of a
literal; a response is a run of logical lines that ends on a completion. Both walks are the
repetition of a parser up to its last item, so that their laws come from those of one segment.
-/

namespace ManageSieve

open Incremental

/-! ## One segment -/

/-- A segment without the carriage return that ends it. -/
def stripCr (seg : Bytes) : Bytes := if seg.getLast? = some cr then seg.dropLast else seg

/-- What the segment `seg`, found at `index` and followed by `after`, contributes to a logical line:
its tokens, on the right when the line ends with it and on the left, the string of its literal
included, when the line goes on behind that literal. -/
def segmentStep (index : ℕ) (seg after : Bytes) :
    Except ManagesieveResponseParseError (Option ((List Token ⊕ List Token) × ℕ)) :=
  match lex (stripCr seg) with
  | .error err => .error err
  | .ok (lexed, none) => .ok (some (.inr lexed, seg.length + 1))
  | .ok (lexed, some size) =>
    match checkedAdd (index + seg.length + 1) size with
    | none => .error (.literalTooLarge size)
    | some _ =>
      if after.length < size then .ok none
      else .ok (some (.inl (lexed ++ [.string (after.take size)]), seg.length + 1 + size))

/-- The segment at the front of `rest`, where `rest` is found at `index`. -/
def segmentAt (index : ℕ) (rest : Bytes) :
    Except ManagesieveResponseParseError (Option ((List Token ⊕ List Token) × ℕ)) :=
  match rest.findIdx? (· == lf) with
  | none => .ok none
  | some offset => segmentStep index (rest.take offset) (rest.drop (offset + 1))

/-- A buffer has no line feed, or a first one. -/
theorem lf_cases (rest : Bytes) :
    lf ∉ rest ∨ ∃ seg after, rest = seg ++ lf :: after ∧ lf ∉ seg := by
  by_cases h : lf ∈ rest
  · exact Or.inr (List.eq_append_cons_of_mem h)
  · exact Or.inl h

theorem segmentAt_none {index : ℕ} {rest : Bytes} (h : lf ∉ rest) :
    segmentAt index rest = .ok none := by
  rw [segmentAt, findIdx?_beq_eq_none h]

theorem segmentAt_line (index : ℕ) {seg : Bytes} (h : lf ∉ seg) (after : Bytes) :
    segmentAt index (seg ++ lf :: after) = segmentStep index seg after := by
  rw [segmentAt, findIdx?_beq_append h]
  simp

/-- An answer other than more octets to come is about a buffer with a line feed. -/
theorem exists_segmentStep {index : ℕ} {rest : Bytes}
    (h : segmentAt index rest ≠ .ok none) :
    ∃ seg after, rest = seg ++ lf :: after ∧ lf ∉ seg ∧
      segmentAt index rest = segmentStep index seg after := by
  rcases lf_cases rest with hn | ⟨seg, after, rfl, hseg⟩
  · exact absurd (segmentAt_none hn) h
  · exact ⟨seg, after, rfl, hseg, segmentAt_line index hseg after⟩

theorem segmentStep_length {index n : ℕ} {seg after : Bytes} {item : List Token ⊕ List Token}
    (h : segmentStep index seg after = .ok (some (item, n))) :
    seg.length < n ∧ n ≤ seg.length + 1 + after.length := by
  unfold segmentStep at h
  split at h
  · cases h
  · cases h
    omega
  · split at h
    · cases h
    · split at h
      · cases h
      · cases h
        omega

theorem segmentStep_take {index n : ℕ} {seg after : Bytes} {item : List Token ⊕ List Token}
    (h : segmentStep index seg after = .ok (some (item, n))) :
    segmentStep index seg (after.take (n - (seg.length + 1))) = .ok (some (item, n)) := by
  unfold segmentStep at h ⊢
  split at h
  · cases h
  · exact h
  · split at h
    · cases h
    · split at h
      · cases h
      · rename_i hlen
        cases h
        rw [Nat.add_sub_cancel_left, if_neg (by rw [List.length_take]; omega), List.take_take,
          Nat.min_self]

theorem segmentStep_some_append {index n : ℕ} {seg after : Bytes} {item : List Token ⊕ List Token}
    (h : segmentStep index seg after = .ok (some (item, n))) (t : Bytes) :
    segmentStep index seg (after ++ t) = .ok (some (item, n)) := by
  unfold segmentStep at h ⊢
  split at h
  · cases h
  · exact h
  · split at h
    · cases h
    · split at h
      · cases h
      · rename_i hlen
        cases h
        rw [if_neg (by rw [List.length_append]; omega), List.take_append_of_le_length (by omega)]

theorem segmentStep_error_append {index : ℕ} {seg after : Bytes}
    {err : ManagesieveResponseParseError} (h : segmentStep index seg after = .error err)
    (t : Bytes) : segmentStep index seg (after ++ t) = .error err := by
  unfold segmentStep at h ⊢
  split at h
  · exact h
  · cases h
  · split at h
    · exact h
    · split at h <;> cases h

/-- The parser of one segment. -/
def segmentParser (index : ℕ) :
    Parser UInt8 ManagesieveResponseParseError (List Token ⊕ List Token) where
  parse := segmentAt index
  pos {rest item n} h := by
    obtain ⟨seg, after, rfl, -, heq⟩ := exists_segmentStep (by rw [h]; simp)
    have := segmentStep_length (heq.symm.trans h)
    omega
  le_length {rest item n} h := by
    obtain ⟨seg, after, rfl, -, heq⟩ := exists_segmentStep (by rw [h]; simp)
    have := segmentStep_length (heq.symm.trans h)
    simp only [List.length_append, List.length_cons]
    omega
  parse_take {rest item n} h := by
    obtain ⟨seg, after, rfl, hseg, heq⟩ := exists_segmentStep (by rw [h]; simp)
    have hstep := heq.symm.trans h
    have hn := (segmentStep_length hstep).1
    have htake : (seg ++ lf :: after).take n = seg ++ lf :: after.take (n - (seg.length + 1)) := by
      rw [List.take_append, List.take_of_length_le hn.le,
        show n - seg.length = n - (seg.length + 1) + 1 by omega, List.take_succ_cons]
    rw [htake, segmentAt_line _ hseg, segmentStep_take hstep]
  some_append {rest item n} h t := by
    obtain ⟨seg, after, rfl, hseg, heq⟩ := exists_segmentStep (by rw [h]; simp)
    rw [List.append_assoc, List.cons_append, segmentAt_line _ hseg]
    exact segmentStep_some_append (heq.symm.trans h) t
  error_append {rest err} h t := by
    obtain ⟨seg, after, rfl, hseg, heq⟩ := exists_segmentStep (by rw [h]; simp)
    rw [List.append_assoc, List.cons_append, segmentAt_line _ hseg]
    exact segmentStep_error_append (heq.symm.trans h) t

@[simp] theorem segmentParser_parse (index : ℕ) (rest : Bytes) :
    (segmentParser index).parse rest = segmentAt index rest := rfl

/-! ## Logical lines -/

theorem slice_append (pre mid post : Bytes) :
    slice (pre ++ (mid ++ post)) pre.length (pre.length + mid.length) = mid := by
  rw [slice, ← List.append_assoc, ← List.length_append, List.take_left, List.drop_left]

/-- The segment at an index is found between that index and its stripped end. -/
theorem slice_segmentEnd (pre seg after : Bytes) :
    slice (pre ++ (seg ++ lf :: after)) pre.length
      (segmentEnd (pre ++ (seg ++ lf :: after)) pre.length (pre.length + seg.length)) =
        stripCr seg := by
  rcases List.eq_nil_or_concat' seg with rfl | ⟨s, b, rfl⟩
  · rw [segmentEnd, if_neg (by simp)]
    exact slice_append pre [] (lf :: after)
  · have hlast : (pre ++ (s ++ [b] ++ lf :: after))[pre.length + (s ++ [b]).length - 1]? =
        some b := by
      rw [List.getElem?_append_right (by simp)]
      simp [Nat.add_sub_assoc]
    have hlt : pre.length < pre.length + (s ++ [b]).length := by simp
    rw [segmentEnd, stripCr, hlast, List.getLast?_concat]
    by_cases hb : b = cr
    · subst hb
      rw [if_pos ⟨hlt, rfl⟩, if_pos rfl, List.dropLast_concat]
      have := slice_append pre s ([cr] ++ lf :: after)
      simpa [Nat.add_sub_assoc] using this
    · rw [if_neg (by simp [hb]), if_neg (by simp [hb])]
      exact slice_append pre (s ++ [b]) (lf :: after)

/-- What the loop of `scanLine` does at `index` is to read a segment and go on behind it. -/
theorem scanLineFrom_step {buf : Bytes} {index : ℕ} (h : index ≤ buf.length)
    (tokens : List Token) :
    scanLineFrom buf index tokens =
      match segmentAt index (buf.drop index) with
      | .error err => .error err
      | .ok none => .ok none
      | .ok (some (.inr lexed, n)) => .ok (some (tokens ++ lexed, index + n))
      | .ok (some (.inl lexed, n)) => scanLineFrom buf (index + n) (tokens ++ lexed) := by
  obtain ⟨pre, rest, rfl, rfl⟩ : ∃ pre rest, buf = pre ++ rest ∧ index = pre.length :=
    ⟨buf.take index, buf.drop index, by simp, by simp [h]⟩
  rw [List.drop_left, scanLineFrom, List.drop_left]
  rcases lf_cases rest with hn | ⟨seg, after, rfl, hseg⟩
  · simp only [segmentAt_none hn, findIdx?_beq_eq_none hn]
  · rw [segmentAt_line _ hseg, segmentStep]
    simp only [findIdx?_beq_append hseg, slice_segmentEnd]
    rcases lex (stripCr seg) with err | ⟨lexed, _ | size⟩
    · rfl
    · rfl
    · have hlen : (pre ++ (seg ++ lf :: after)).length =
          pre.length + seg.length + 1 + after.length := by
        simp only [List.length_append, List.length_cons]
        omega
      have hliteral : slice (pre ++ (seg ++ lf :: after)) (pre.length + seg.length + 1)
          (pre.length + seg.length + 1 + size) = after.take size := by
        have hpre : pre ++ (seg ++ lf :: after) = (pre ++ seg ++ [lf]) ++ after := by simp
        have hpos : pre.length + seg.length + 1 = (pre ++ seg ++ [lf]).length := by
          simp [Nat.add_assoc]
        rw [hpre, hpos, slice, List.take_length_add_append, List.drop_left]
      dsimp only
      split
      · rename_i hstop
        simp only [hstop]
      · rename_i stop hstop
        obtain rfl := checkedAdd_eq_some hstop
        simp only [hstop, hlen, hliteral]
        by_cases hb : after.length < size
        · rw [dif_pos (by omega), if_pos hb]
        · rw [dif_neg (by omega), if_neg hb]
          simp only [Nat.add_assoc, List.append_assoc]

/-- A logical line is the repetition of a segment up to one without a literal. -/
theorem scanLineFrom_eq_untilFrom {buf : Bytes} {index : ℕ} (h : index ≤ buf.length)
    (tokens : List Token) :
    scanLineFrom buf index tokens =
      match untilFrom segmentParser buf index with
      | .error err => .error err
      | .ok none => .ok none
      | .ok (some ((segments, lexed), consumed)) =>
        .ok (some (tokens ++ segments.flatten ++ lexed, consumed)) := by
  induction hk : buf.length - index using Nat.strongRecOn generalizing index tokens with
  | ind k ih =>
    rw [scanLineFrom_step h, ← segmentParser_parse]
    rcases hs : (segmentParser index).parse (buf.drop index) with err | _ | ⟨lexed | lexed, n⟩
    · rw [untilFrom_error hs]
    · rw [untilFrom_none hs]
    · have hpos := (segmentParser index).pos hs
      have hle := (segmentParser index).le_length hs
      rw [List.length_drop] at hle
      rw [untilFrom_cons hs]
      dsimp only
      rw [ih _ (by omega) (by omega) _ rfl]
      rcases untilFrom segmentParser buf (index + n) with err | _ | ⟨⟨segments, last⟩, consumed⟩
      · rfl
      · rfl
      · simp
    · rw [untilFrom_last hs]
      simp

/-- The parser of the tokens of a logical line. -/
def scanLineParser : Parser UInt8 ManagesieveResponseParseError (List Token) :=
  ((untilLast segmentParser).mapM fun line => .ok (line.1.flatten ++ line.2)).copy scanLine
    fun buf => by
      rw [Parser.mapM_parse, Parser.checked, untilLast_parse, scanLine,
        scanLineFrom_eq_untilFrom (Nat.zero_le _)]
      rcases untilFrom segmentParser buf 0 with err | _ | ⟨⟨segments, lexed⟩, consumed⟩ <;> rfl

@[simp] theorem scanLineParser_parse (buf : Bytes) : scanLineParser.parse buf = scanLine buf := rfl

/-- **Logical lines are framed incrementally**: the parser of the lines of a response. -/
def lineParser : Parser UInt8 ManagesieveResponseParseError ManagesieveLine :=
  (scanLineParser.mapM parseLine).copy ManagesieveLine.parse fun buf => by
    rw [Parser.mapM_parse, Parser.checked, scanLineParser_parse, ManagesieveLine.parse]
    rcases scanLine buf with err | _ | ⟨tokens, consumed⟩
    · rfl
    · rfl
    · dsimp only
      rcases parseLine tokens with err | line <;> rfl

@[simp] theorem lineParser_parse (buf : Bytes) :
    lineParser.parse buf = ManagesieveLine.parse buf := rfl

/-! ## Responses -/

/-- The loop of `ManagesieveResponse.parse`, at `consumed`, with the data lines read so far. -/
def ManagesieveResponse.parseFrom (buf : Bytes) (consumed : ℕ) (data : List ManagesieveDataLine) :
    Except ManagesieveResponseParseError (Option (ManagesieveResponse × ℕ)) :=
  match _h : ManagesieveLine.parse (buf.drop consumed) with
  | .error err => .error err
  | .ok none => .ok none
  | .ok (some (.data line, read)) => parseFrom buf (consumed + read) (data ++ [line])
  | .ok (some (.completion completion, read)) => .ok (some (⟨data, completion⟩, consumed + read))
termination_by buf.length - consumed
decreasing_by
  have hpos := lineParser.pos _h
  have hle := lineParser.le_length _h
  rw [List.length_drop] at hle
  omega

/-- Parse one complete response from the front of `buf`: nothing while it is incomplete, the
response and the number of bytes it consumed once it is. -/
def ManagesieveResponse.parse (buf : Bytes) :
    Except ManagesieveResponseParseError (Option (ManagesieveResponse × ℕ)) :=
  parseFrom buf 0 []

/-- A line is a data line, or the completion that ends the response. -/
def ManagesieveLine.toSum : ManagesieveLine → ManagesieveDataLine ⊕ ManagesieveCompletion
  | .data line => .inl line
  | .completion done => .inr done

/-- The parser of lines, as a response repeats it. -/
def lineSumParser :
    Parser UInt8 ManagesieveResponseParseError (ManagesieveDataLine ⊕ ManagesieveCompletion) :=
  lineParser.mapM fun line => .ok line.toSum

theorem lineSumParser_error {buf : Bytes} {err : ManagesieveResponseParseError}
    (h : ManagesieveLine.parse buf = .error err) : lineSumParser.parse buf = .error err := by
  rw [lineSumParser, Parser.mapM_parse, Parser.checked, lineParser_parse, h]

theorem lineSumParser_none {buf : Bytes} (h : ManagesieveLine.parse buf = .ok none) :
    lineSumParser.parse buf = .ok none := by
  rw [lineSumParser, Parser.mapM_parse, Parser.checked, lineParser_parse, h]

theorem lineSumParser_some {buf : Bytes} {line : ManagesieveLine} {read : ℕ}
    (h : ManagesieveLine.parse buf = .ok (some (line, read))) :
    lineSumParser.parse buf = .ok (some (line.toSum, read)) := by
  rw [lineSumParser, Parser.mapM_parse, Parser.checked, lineParser_parse, h]

theorem lineSumParser_eq_some {buf : Bytes} {item : ManagesieveDataLine ⊕ ManagesieveCompletion}
    {read : ℕ} (h : lineSumParser.parse buf = .ok (some (item, read))) :
    ∃ line, ManagesieveLine.parse buf = .ok (some (line, read)) ∧ line.toSum = item := by
  rw [lineSumParser, Parser.mapM_parse] at h
  obtain ⟨line, hline, hitem⟩ := Parser.checked_eq_some_iff.1 h
  exact ⟨line, hline, Except.ok.inj hitem⟩

theorem lineSumParser_eq_error {buf : Bytes} {err : ManagesieveResponseParseError}
    (h : lineSumParser.parse buf = .error err) : ManagesieveLine.parse buf = .error err := by
  rw [lineSumParser, Parser.mapM_parse] at h
  rcases Parser.checked_eq_error_iff.1 h with hline | ⟨line, n, -, hitem⟩
  · exact hline
  · cases hitem

/-- A response is the repetition of a line up to a completion. -/
theorem ManagesieveResponse.parseFrom_eq_untilFrom {buf : Bytes} {consumed : ℕ}
    (h : consumed ≤ buf.length) (data : List ManagesieveDataLine) :
    parseFrom buf consumed data =
      match untilFrom (fun _ => lineSumParser) buf consumed with
      | .error err => .error err
      | .ok none => .ok none
      | .ok (some ((lines, completion), n)) => .ok (some (⟨data ++ lines, completion⟩, n)) := by
  induction hk : buf.length - consumed using Nat.strongRecOn generalizing consumed data with
  | ind k ih =>
    rw [parseFrom]
    split
    · rename_i err hs
      rw [untilFrom_error (lineSumParser_error hs)]
    · rename_i hs
      rw [untilFrom_none (lineSumParser_none hs)]
    · rename_i line read hs
      have hpos := lineParser.pos hs
      have hle := lineParser.le_length hs
      rw [List.length_drop] at hle
      rw [untilFrom_cons (lineSumParser_some hs), ih _ (by omega) (by omega) _ rfl]
      rcases untilFrom (fun _ => lineSumParser) buf (consumed + read) with
        err | _ | ⟨⟨lines, completion⟩, n⟩
      · rfl
      · rfl
      · simp
    · rename_i completion read hs
      rw [untilFrom_last (lineSumParser_some hs)]
      simp

/-- The parser of the lines of a response, put together. -/
def linesParser : Parser UInt8 ManagesieveResponseParseError ManagesieveResponse :=
  (untilLast fun _ => lineSumParser).mapM fun lines => .ok ⟨lines.1, lines.2⟩

theorem ManagesieveResponse.parse_eq (buf : Bytes) :
    ManagesieveResponse.parse buf = linesParser.parse buf := by
  rw [linesParser, Parser.mapM_parse, Parser.checked, untilLast_parse, ManagesieveResponse.parse,
    ManagesieveResponse.parseFrom_eq_untilFrom (Nat.zero_le _)]
  rcases untilFrom (fun _ => lineSumParser) buf 0 with
    err | _ | ⟨⟨lines, completion⟩, consumed⟩ <;> rfl

/-- The lines of a response. -/
theorem ManagesieveResponse.untilFrom_of_parse {buf : Bytes} {response : ManagesieveResponse}
    {n : ℕ} (h : ManagesieveResponse.parse buf = .ok (some (response, n))) :
    untilFrom (fun _ => lineSumParser) buf 0 =
      .ok (some ((response.data, response.completion), n)) := by
  rw [ManagesieveResponse.parse_eq, linesParser, Parser.mapM_parse] at h
  obtain ⟨⟨lines, completion⟩, hlines, hresponse⟩ := Parser.checked_eq_some_iff.1 h
  cases hresponse
  exact hlines

/-- A response is refused where the repetition of its lines is. -/
theorem ManagesieveResponse.parse_eq_error_iff {buf : Bytes} {err : ManagesieveResponseParseError} :
    ManagesieveResponse.parse buf = .error err ↔
      untilFrom (fun _ => lineSumParser) buf 0 = .error err := by
  rw [ManagesieveResponse.parse, ManagesieveResponse.parseFrom_eq_untilFrom (Nat.zero_le _)]
  rcases untilFrom (fun _ => lineSumParser) buf 0 with
    err' | _ | ⟨⟨lines, completion⟩, consumed⟩ <;> simp

/-- **Responses are framed incrementally**: the parser of whole responses. -/
def responseParser : Parser UInt8 ManagesieveResponseParseError ManagesieveResponse :=
  linesParser.copy ManagesieveResponse.parse ManagesieveResponse.parse_eq

@[simp] theorem responseParser_parse (buf : Bytes) :
    responseParser.parse buf = ManagesieveResponse.parse buf := rfl

end ManageSieve
