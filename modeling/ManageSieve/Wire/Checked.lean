import ManageSieve.Foundations.Faults
import ManageSieve.Wire.Strings
import ManageSieve.Wire.Walk

/-!
# The parser, with its faults

The parser once more, as the machine runs it: an index, a slice or a sum that goes out of range is a
fault, and each loop has a number of turns that it may take. The main result,
`ManagesieveResponse.parse_checked`, says that none of this ever happens: on a buffer of `n` octets
`n + 1` turns are enough for every loop, and what comes out is what `ManagesieveResponse.parse`
says.

What indexes nothing and adds nothing is taken over as it stands: `lexLiteralMarker`, which only
strips and compares, and the interpretation of tokens, up to the places where it slices them.
-/

namespace ManageSieve

open Incremental

namespace Checked

open Faults

/-- A turn of the loop of `lex_quoted`. -/
def lexQuotedTurn (segment : Bytes) : ℕ × Bytes →
    Except Fault ((ℕ × Bytes) ⊕ Except ManagesieveResponseParseError (Bytes × ℕ))
  | (index, string) => do
    if index < segment.length then
      let byte ← Faults.index segment index
      if byte = dquote then
        let next ← add usizeMax index 1
        return .inr (.ok (string, next))
      else if byte = backslash then
        let next ← add usizeMax index 1
        match segment[next]? with
        | none => return .inr (.error .unterminatedQuoted)
        | some byte =>
          if byte ≠ dquote ∧ byte ≠ backslash then return .inr (.error (.invalidEscape byte))
          else
            let index ← add usizeMax index 2
            return .inl (index, string ++ [byte])
      else
        let index ← add usizeMax index 1
        return .inl (index, string ++ [byte])
    else return .inr (.error .unterminatedQuoted)

/-- `lex_quoted`. -/
def lexQuoted (turns : ℕ) (segment : Bytes) (open_ : ℕ) :
    Except Fault (Except ManagesieveResponseParseError (Bytes × ℕ)) := do
  let index ← add usizeMax open_ 1
  loop (lexQuotedTurn segment) turns (index, [])

/-- A turn of the loop over the octets of an atom. -/
def atomTurn (segment : Bytes) (index : ℕ) : Except Fault (ℕ ⊕ ℕ) := do
  if index < segment.length then
    let byte ← Faults.index segment index
    if isAtomSpecial byte then return .inr index
    else
      let index ← add usizeMax index 1
      return .inl index
  else return .inr index

/-- A turn of the loop of `lex`. -/
def lexTurn (turns : ℕ) (segment : Bytes) : ℕ × List Token →
    Except Fault
      ((ℕ × List Token) ⊕ Except ManagesieveResponseParseError (List Token × Option ℕ))
  | (index, tokens) => do
    if index < segment.length then
      let byte ← Faults.index segment index
      if isAsciiWhitespace byte then
        let index ← add usizeMax index 1
        return .inl (index, tokens)
      else if byte = dquote then
        match ← lexQuoted turns segment index with
        | .error err => return .inr (.error err)
        | .ok (string, next) => return .inl (next, tokens ++ [.string string])
      else if byte = openBrace then
        let marker ← sliceFrom segment index
        match lexLiteralMarker marker with
        | .error err => return .inr (.error err)
        | .ok size => return .inr (.ok (tokens, some size))
      else if byte = openParen then
        let index ← add usizeMax index 1
        return .inl (index, tokens ++ [.open_])
      else if byte = closeParen then
        let index ← add usizeMax index 1
        return .inl (index, tokens ++ [.close])
      else
        let stop ← loop (atomTurn segment) turns index
        if stop = index then
          let byte ← Faults.index segment index
          return .inr (.error (.unexpectedByte byte))
        else
          let atom ← Faults.slice segment index stop
          return .inl (stop, tokens ++ [.atom atom])
    else return .inr (.ok (tokens, none))

/-- `lex`. -/
def lex (turns : ℕ) (segment : Bytes) :
    Except Fault (Except ManagesieveResponseParseError (List Token × Option ℕ)) :=
  loop (lexTurn turns segment) turns (0, [])

/-- The end of the segment from `index` to the line feed at `eol`. -/
def segmentEnd (buf : Bytes) (index eol : ℕ) : Except Fault ℕ := do
  if index < eol then
    let last ← sub eol 1
    let byte ← Faults.index buf last
    if byte = cr then sub eol 1 else return eol
  else return eol

/-- A turn of the loop of `scan_line`. -/
def scanLineTurn (turns : ℕ) (buf : Bytes) : ℕ × List Token →
    Except Fault
      ((ℕ × List Token) ⊕ Except ManagesieveResponseParseError (Option (List Token × ℕ)))
  | (index, tokens) => do
    let rest ← sliceFrom buf index
    match rest.findIdx? (· == lf) with
    | none => return .inr (.ok none)
    | some offset =>
      let eol ← add usizeMax index offset
      let stop ← segmentEnd buf index eol
      let segment ← Faults.slice buf index stop
      match ← lex turns segment with
      | .error err => return .inr (.error err)
      | .ok (lexed, none) =>
        let consumed ← add usizeMax eol 1
        return .inr (.ok (some (tokens ++ lexed, consumed)))
      | .ok (lexed, some size) =>
        let start ← add usizeMax eol 1
        match checkedAdd start size with
        | none => return .inr (.error (.literalTooLarge size))
        | some stop =>
          if buf.length < stop then return .inr (.ok none)
          else
            let octets ← Faults.slice buf start stop
            return .inl (stop, tokens ++ lexed ++ [.string octets])

/-- `scan_line`. -/
def scanLine (turns : ℕ) (buf : Bytes) :
    Except Fault (Except ManagesieveResponseParseError (Option (List Token × ℕ))) :=
  loop (scanLineTurn turns buf) turns (0, [])

/-- The two parts of the name of a response code. -/
def splitName (name : Bytes) : Except Fault (Bytes × Option Bytes) := do
  match name.findIdx? (· == slash) with
  | some slash =>
    let head ← Faults.slice name 0 slash
    let start ← add usizeMax slash 1
    let detail ← sliceFrom name start
    return (head, some detail)
  | none => return (name, none)

/-- `parse_code`. -/
def parseCode (tokens : List Token) :
    Except Fault (Except ManagesieveResponseParseError ManagesieveResponseCode) := do
  match tokens.head? with
  | some (.atom name) =>
    -- the comparisons of these two parts with the names of the codes index nothing
    let _ ← splitName name
    return .ok (namedCode name (codeArgument tokens))
  | _ => return .error .emptyResponseCode

/-- The response code of a completion line, and the tokens behind it. -/
def splitCode (tokens : List Token) : Except Fault
    (Except ManagesieveResponseParseError (Option ManagesieveResponseCode × List Token)) := do
  match tokens[1]? with
  | some .open_ =>
    let inside ← sliceFrom tokens 2
    match inside.findIdx? (· == .close) with
    | none => return .error .unterminatedResponseCode
    | some index =>
      let stop ← add usizeMax 2 index
      let code ← Faults.slice tokens 2 stop
      match ← parseCode code with
      | .error err => return .error err
      | .ok code =>
        let start ← add usizeMax 3 index
        let rest ← sliceFrom tokens start
        return .ok (some code, rest)
  | _ =>
    let rest ← sliceFrom tokens (min 1 tokens.length)
    return .ok (none, rest)

/-- `parse_completion`. -/
def parseCompletion (tokens : List Token) :
    Except Fault (Except ManagesieveResponseParseError ManagesieveCompletion) := do
  match tokens.head? with
  | some (.atom atom) =>
    match parseStatus atom with
    | .error err => return .error err
    | .ok status =>
      match ← splitCode tokens with
      | .error err => return .error err
      | .ok (code, rest) => return .ok ⟨status, code, completionText rest⟩
  | some _ => return .error (.unexpectedByte openParen)
  | none => return .error .emptyLine

/-- `ManagesieveLine::parse`. -/
def parseLine (turns : ℕ) (buf : Bytes) :
    Except Fault (Except ManagesieveResponseParseError (Option (ManagesieveLine × ℕ))) := do
  match ← scanLine turns buf with
  | .error err => return .error err
  | .ok none => return .ok none
  | .ok (some (tokens, consumed)) =>
    match tokens.head? with
    | some (.string _) =>
      match parseData tokens with
      | .error err => return .error err
      | .ok line => return .ok (some (.data line, consumed))
    | _ =>
      match ← parseCompletion tokens with
      | .error err => return .error err
      | .ok completion => return .ok (some (.completion completion, consumed))

/-- A turn of the loop of `ManagesieveResponse::parse`. -/
def parseTurn (turns : ℕ) (buf : Bytes) : ℕ × List ManagesieveDataLine →
    Except Fault ((ℕ × List ManagesieveDataLine) ⊕
      Except ManagesieveResponseParseError (Option (ManagesieveResponse × ℕ)))
  | (consumed, data) => do
    let rest ← sliceFrom buf consumed
    match ← parseLine turns rest with
    | .error err => return .inr (.error err)
    | .ok none => return .inr (.ok none)
    | .ok (some (line, read)) =>
      let consumed ← add usizeMax consumed read
      match line with
      | .data line => return .inl (consumed, data ++ [line])
      | .completion completion => return .inr (.ok (some (⟨data, completion⟩, consumed)))

/-- `ManagesieveResponse::parse`. -/
def parse (turns : ℕ) (buf : Bytes) :
    Except Fault (Except ManagesieveResponseParseError (Option (ManagesieveResponse × ℕ))) :=
  loop (parseTurn turns buf) turns (0, [])

/-! ## Quoted strings and atoms -/

section

variable {segment : Bytes} (hmax : segment.length ≤ usizeMax)

include hmax

theorem lexQuotedTurn_keeps (index : ℕ) (string : Bytes) :
    Keeps (fun s : ℕ × Bytes => lexQuotedFrom segment s.1 s.2) (fun _ => True)
      (fun s => segment.length - s.1) (lexQuotedTurn segment) (index, string) := by
  dsimp only [Keeps]
  rw [lexQuotedTurn, lexQuotedFrom]
  by_cases hi : index < segment.length
  · rw [if_pos hi, dif_pos hi, index_eq hi, add_eq (show index + 1 ≤ usizeMax by omega)]
    simp only [ok_bind, pure_eq]
    by_cases hq : segment[index] = dquote
    · rw [if_pos hq, if_pos hq]
      exact Or.inl rfl
    rw [if_neg hq, if_neg hq]
    by_cases hb : segment[index] = backslash
    · rw [if_pos hb, if_pos hb]
      rcases hnext : segment[index + 1]? with _ | byte
      · exact Or.inl rfl
      obtain ⟨hlt, -⟩ := List.getElem?_eq_some_iff.1 hnext
      dsimp only
      by_cases he : byte ≠ dquote ∧ byte ≠ backslash
      · rw [if_pos he, if_pos he]
        exact Or.inl rfl
      · rw [if_neg he, if_neg he, add_eq (by omega)]
        exact Or.inr ⟨(index + 2, string ++ [byte]), rfl, trivial, rfl, by dsimp only; omega⟩
    · rw [if_neg hb, if_neg hb]
      exact Or.inr
        ⟨(index + 1, string ++ [segment[index]]), rfl, trivial, rfl, by dsimp only; omega⟩
  · rw [if_neg hi, dif_neg hi]
    exact Or.inl rfl

theorem lexQuoted_eq {open_ turns : ℕ} (hopen : open_ < segment.length)
    (hturns : segment.length ≤ turns) :
    lexQuoted turns segment open_ = .ok (ManageSieve.lexQuoted segment open_) := by
  rw [lexQuoted, add_eq (by omega), ok_bind, ManageSieve.lexQuoted]
  exact loop_eq (f := fun s : ℕ × Bytes => lexQuotedFrom segment s.1 s.2)
    (fun s _ => lexQuotedTurn_keeps hmax s.1 s.2) trivial (by dsimp only; omega)

theorem atomTurn_keeps (index : ℕ) :
    Keeps (fun s => atomEnd segment s) (fun _ => True)
      (fun s => segment.length - s) (atomTurn segment) index := by
  dsimp only [Keeps]
  rw [atomTurn, atomEnd]
  by_cases hi : index < segment.length
  · rw [if_pos hi, dif_pos hi, index_eq hi, add_eq (show index + 1 ≤ usizeMax by omega)]
    simp only [ok_bind, pure_eq]
    by_cases hs : isAtomSpecial segment[index] = true
    · rw [if_pos hs, if_pos hs]
      exact Or.inl rfl
    · rw [if_neg hs, if_neg hs]
      exact Or.inr ⟨index + 1, rfl, trivial, rfl, by omega⟩
  · rw [if_neg hi, dif_neg hi]
    exact Or.inl rfl

theorem loop_atomTurn (index : ℕ) {turns : ℕ} (hturns : segment.length < turns) :
    loop (atomTurn segment) turns index = .ok (atomEnd segment index) :=
  loop_eq (fun s _ => atomTurn_keeps hmax s) trivial (by omega)

/-! ## Segments -/

theorem lexTurn_keeps {turns : ℕ} (hturns : segment.length < turns) {index : ℕ}
    (tokens : List Token) (hindex : index ≤ segment.length) :
    Keeps (fun s : ℕ × List Token => lexFrom segment s.1 s.2) (fun s => s.1 ≤ segment.length)
      (fun s => segment.length - s.1) (lexTurn turns segment) (index, tokens) := by
  dsimp only [Keeps]
  rw [lexTurn, lexFrom]
  by_cases hi : index < segment.length
  swap
  · rw [if_neg hi, dif_neg hi]
    exact Or.inl rfl
  have hnext : ∀ toks, ∃ s' : ℕ × List Token,
      (Except.ok (.inl (index + 1, toks)) : Except Fault
        ((ℕ × List Token) ⊕ Except ManagesieveResponseParseError (List Token × Option ℕ))) =
          .ok (.inl s') ∧ s'.1 ≤ segment.length ∧
        lexFrom segment s'.1 s'.2 = lexFrom segment (index + 1) toks ∧
        segment.length - s'.1 < segment.length - index :=
    fun toks => ⟨(index + 1, toks), rfl, hi, rfl, by dsimp only; omega⟩
  rw [if_pos hi, dif_pos hi, index_eq hi, add_eq (show index + 1 ≤ usizeMax by omega),
    sliceFrom_eq hi.le, lexQuoted_eq hmax hi hturns.le, loop_atomTurn hmax index hturns]
  simp only [ok_bind, pure_eq]
  by_cases hw : isAsciiWhitespace segment[index] = true
  · rw [if_pos hw, if_pos hw]
    exact Or.inr (hnext tokens)
  rw [if_neg hw, if_neg hw]
  by_cases hq : segment[index] = dquote
  · rw [if_pos hq, if_pos hq]
    rcases hquoted : ManageSieve.lexQuoted segment index with err | ⟨string, next⟩
    · exact Or.inl rfl
    · have hbounds := lexQuoted_bounds hquoted
      exact Or.inr ⟨(next, tokens ++ [.string string]), rfl, hbounds.2, rfl, by dsimp only; omega⟩
  rw [if_neg hq, if_neg hq]
  by_cases hb : segment[index] = openBrace
  · rw [if_pos hb, if_pos hb]
    rcases lexLiteralMarker (segment.drop index) with err | size <;> exact Or.inl rfl
  rw [if_neg hb, if_neg hb]
  by_cases ho : segment[index] = openParen
  · rw [if_pos ho, if_pos ho]
    exact Or.inr (hnext _)
  rw [if_neg ho, if_neg ho]
  by_cases hc : segment[index] = closeParen
  · rw [if_pos hc, if_pos hc]
    exact Or.inr (hnext _)
  rw [if_neg hc, if_neg hc]
  by_cases hs : atomEnd segment index = index
  · rw [if_pos hs, dif_pos hs]
    exact Or.inl rfl
  · have hle := le_atomEnd segment index
    have hstop := atomEnd_le hindex
    rw [if_neg hs, dif_neg hs, slice_eq hle hstop]
    exact Or.inr ⟨_, rfl, hstop, rfl, by dsimp only; omega⟩

theorem lex_eq {turns : ℕ} (hturns : segment.length < turns) :
    lex turns segment = .ok (ManageSieve.lex segment) := by
  rw [lex, ManageSieve.lex]
  exact loop_eq (f := fun s : ℕ × List Token => lexFrom segment s.1 s.2)
    (fun s hs => lexTurn_keeps hmax hturns s.2 hs) (Nat.zero_le _) hturns

end

/-! ## Logical lines -/

theorem segmentEnd_eq {buf : Bytes} {eol : ℕ} (index : ℕ) (heol : eol < buf.length) :
    segmentEnd buf index eol = .ok (ManageSieve.segmentEnd buf index eol) := by
  rw [segmentEnd, ManageSieve.segmentEnd]
  by_cases hi : index < eol
  · have hlast : eol - 1 < buf.length := by omega
    rw [if_pos hi, sub_eq (by omega), ok_bind, index_eq hlast, ok_bind,
      List.getElem?_eq_getElem hlast]
    by_cases hcr : buf[eol - 1] = cr
    · rw [if_pos hcr, if_pos ⟨hi, by rw [hcr]⟩]
    · rw [if_neg hcr, if_neg fun h => hcr (Option.some.inj h.2)]
      rfl
  · rw [if_neg hi, if_neg fun h => hi h.1]
    rfl

theorem segmentEnd_bounds (buf : Bytes) {index eol : ℕ} (h : index ≤ eol) :
    index ≤ ManageSieve.segmentEnd buf index eol ∧ ManageSieve.segmentEnd buf index eol ≤ eol := by
  unfold ManageSieve.segmentEnd
  split
  · rename_i hcr
    omega
  · omega

section

variable {buf : Bytes} (hmax : buf.length ≤ usizeMax) {turns : ℕ} (hturns : buf.length < turns)

include hmax hturns

theorem scanLineTurn_keeps {index : ℕ} (tokens : List Token) (hindex : index ≤ buf.length) :
    Keeps (fun s : ℕ × List Token => scanLineFrom buf s.1 s.2) (fun s => s.1 ≤ buf.length)
      (fun s => buf.length - s.1) (scanLineTurn turns buf) (index, tokens) := by
  dsimp only [Keeps]
  rw [scanLineTurn, scanLineFrom, sliceFrom_eq hindex, ok_bind]
  rcases hoffset : (buf.drop index).findIdx? (· == lf) with _ | offset
  · exact Or.inl rfl
  have heol : index + offset < buf.length := by
    have := (List.findIdx?_eq_some_iff_findIdx_eq.1 hoffset).1
    rw [List.length_drop] at this
    omega
  obtain ⟨hstart, hstop⟩ := segmentEnd_bounds buf (Nat.le_add_right index offset)
  have hsegment : (slice buf index (ManageSieve.segmentEnd buf index (index + offset))).length ≤
      buf.length := by
    rw [slice, List.length_drop, List.length_take]
    omega
  have hlex := lex_eq (hsegment.trans hmax) (hsegment.trans_lt hturns)
  dsimp only
  rw [add_eq (by omega), ok_bind, segmentEnd_eq index heol, ok_bind,
    slice_eq hstart (by omega), ok_bind, ← slice, hlex, ok_bind,
    add_eq (show index + offset + 1 ≤ usizeMax by omega)]
  rcases ManageSieve.lex (slice buf index (ManageSieve.segmentEnd buf index (index + offset))) with
    err | ⟨lexed, _ | size⟩
  · exact Or.inl rfl
  · exact Or.inl rfl
  simp only [ok_bind, pure_eq]
  rcases hadd : checkedAdd (index + offset + 1) size with _ | stop
  · exact Or.inl rfl
  · have hadded := checkedAdd_eq_some hadd
    dsimp only
    by_cases hb : buf.length < stop
    · rw [if_pos hb, dif_pos hb]
      exact Or.inl rfl
    · rw [if_neg hb, dif_neg hb, slice_eq (by omega) (not_lt.1 hb)]
      exact Or.inr ⟨_, rfl, not_lt.1 hb, rfl, by dsimp only; omega⟩

theorem scanLine_eq : scanLine turns buf = .ok (ManageSieve.scanLine buf) := by
  rw [scanLine, ManageSieve.scanLine]
  exact loop_eq (f := fun s : ℕ × List Token => scanLineFrom buf s.1 s.2)
    (fun s hs => scanLineTurn_keeps hmax hturns s.2 hs) (Nat.zero_le _) hturns

end

/-! ## The tokens of a line -/

/-- What the loop of `lex` adds to the tokens that it has read. -/
structure Lexed (segment : Bytes) (index : ℕ) (tokens out : List Token) (marker : Option ℕ) :
    Prop where
  length : out.length + index ≤ tokens.length + segment.length
  atoms : ∀ atom, .atom atom ∈ out → .atom atom ∈ tokens ∨ atom.length ≤ segment.length
  marker : ∀ size, marker = some size → size ≤ maxLiteral

theorem Lexed.token {segment : Bytes} {index next : ℕ} {tokens out : List Token} {token : Token}
    {marker : Option ℕ} (h : Lexed segment next (tokens ++ [token]) out marker)
    (hnext : index < next) (htoken : ∀ atom, token = .atom atom → atom.length ≤ segment.length) :
    Lexed segment index tokens out marker := by
  obtain ⟨hlength, hatoms, hmarker⟩ := h
  rw [List.length_append, List.length_singleton] at hlength
  refine ⟨by omega, fun atom hatom => ?_, hmarker⟩
  rcases hatoms atom hatom with hmem | hle
  · rcases List.mem_append.1 hmem with hmem | hmem
    · exact Or.inl hmem
    · exact Or.inr (htoken atom (List.mem_singleton.1 hmem).symm)
  · exact Or.inr hle

theorem lexFrom_lexed {segment : Bytes} {index : ℕ} {tokens out : List Token} {marker : Option ℕ}
    (hindex : index ≤ segment.length) (h : lexFrom segment index tokens = .ok (out, marker)) :
    Lexed segment index tokens out marker := by
  induction index, tokens using lexFrom.induct segment with
  | case1 index tokens hi hw ih =>
    rw [lexFrom, dif_pos hi, if_pos hw] at h
    obtain ⟨hlength, hatoms, hmarker⟩ := ih hi h
    exact ⟨by omega, hatoms, hmarker⟩
  | case2 index tokens hi hw hq err hquoted =>
    rw [lexFrom, dif_pos hi, if_neg hw, if_pos hq, hquoted] at h
    cases h
  | case3 index tokens hi hw hq string next hquoted ih =>
    rw [lexFrom, dif_pos hi, if_neg hw, if_pos hq, hquoted] at h
    have hbounds := lexQuoted_bounds hquoted
    exact (ih hbounds.2 h).token (by omega) (by simp)
  | case4 index tokens hi hw hq hb err hmarker =>
    rw [lexFrom, dif_pos hi, if_neg hw, if_neg hq, if_pos hb, hmarker] at h
    cases h
  | case5 index tokens hi hw hq hb size hmarker =>
    rw [lexFrom, dif_pos hi, if_neg hw, if_neg hq, if_pos hb, hmarker] at h
    cases h
    refine ⟨by omega, fun atom hatom => Or.inl hatom, ?_⟩
    rintro _ ⟨⟩
    exact (lexLiteralMarker_eq_ok_iff.1 hmarker).2
  | case6 index tokens hi hw hq hb ho ih =>
    rw [lexFrom, dif_pos hi, if_neg hw, if_neg hq, if_neg hb, if_pos ho] at h
    exact (ih hi h).token (by omega) (by simp)
  | case7 index tokens hi hw hq hb ho hc ih =>
    rw [lexFrom, dif_pos hi, if_neg hw, if_neg hq, if_neg hb, if_neg ho, if_pos hc] at h
    exact (ih hi h).token (by omega) (by simp)
  | case8 index tokens hi hw hq hb ho hc hs =>
    rw [lexFrom, dif_pos hi, if_neg hw, if_neg hq, if_neg hb, if_neg ho, if_neg hc,
      dif_pos hs] at h
    cases h
  | case9 index tokens hi hw hq hb ho hc hs ih =>
    rw [lexFrom, dif_pos hi, if_neg hw, if_neg hq, if_neg hb, if_neg ho, if_neg hc,
      dif_neg hs] at h
    have hle := le_atomEnd segment index
    refine (ih (atomEnd_le hindex) h).token (by omega) ?_
    rintro _ ⟨⟩
    rw [slice, List.length_drop, List.length_take]
    omega
  | case10 index tokens hi =>
    rw [lexFrom, dif_neg hi] at h
    cases h
    exact ⟨by omega, fun atom hatom => Or.inl hatom, by simp⟩

theorem lex_lexed {segment : Bytes} {out : List Token} {marker : Option ℕ}
    (h : ManageSieve.lex segment = .ok (out, marker)) : Lexed segment 0 [] out marker :=
  lexFrom_lexed (Nat.zero_le _) h

theorem stripCr_length_le (seg : Bytes) : (stripCr seg).length ≤ seg.length := by
  unfold stripCr
  split
  · exact (List.dropLast_sublist seg).length_le
  · exact le_rfl

/-- Tokens that fit into `n` octets: neither are there more of them, nor is an atom longer. -/
structure Fits (n : ℕ) (tokens : List Token) : Prop where
  length : tokens.length ≤ n
  atoms : ∀ atom, .atom atom ∈ tokens → atom.length ≤ n

theorem Fits.append {m n : ℕ} {tokens tokens' : List Token} (h : Fits m tokens)
    (h' : Fits n tokens') : Fits (m + n) (tokens ++ tokens') := by
  refine ⟨?_, fun atom hatom => ?_⟩
  · rw [List.length_append]
    exact Nat.add_le_add h.length h'.length
  · rcases List.mem_append.1 hatom with hatom | hatom
    · exact (h.atoms atom hatom).trans (Nat.le_add_right m n)
    · exact (h'.atoms atom hatom).trans (Nat.le_add_left n m)

theorem Fits.mono {m n : ℕ} {tokens : List Token} (h : Fits m tokens) (hmn : m ≤ n) :
    Fits n tokens :=
  ⟨h.length.trans hmn, fun atom hatom => (h.atoms atom hatom).trans hmn⟩

theorem fits_lex {seg : Bytes} {lexed : List Token} {marker : Option ℕ}
    (h : ManageSieve.lex (stripCr seg) = .ok (lexed, marker)) : Fits seg.length lexed := by
  obtain ⟨hlength, hatoms, -⟩ := lex_lexed h
  have hstrip := stripCr_length_le seg
  refine ⟨?_, fun atom hatom => ?_⟩
  · rw [List.length_nil] at hlength
    omega
  · rcases hatoms atom hatom with hmem | hle
    · cases hmem
    · exact hle.trans hstrip

theorem fits_walked {stretches : List Stretch} {front : Bytes} (h : Walked stretches front) :
    Fits front.length (walkTokens stretches) := by
  induction h with
  | start => exact ⟨le_rfl, fun _ hatom => absurd hatom (List.not_mem_nil)⟩
  | @literal stretches front seg lexed octets _ _ hlex _ ih =>
    have hstring : Fits 1 [Token.string octets] := ⟨le_rfl, by simp⟩
    rw [walkTokens_concat]
    refine (ih.append ((fits_lex hlex).append hstring)).mono ?_
    simp only [List.length_append, List.length_cons]
    omega

theorem fits_scanLine {buf : Bytes} {tokens : List Token} {n : ℕ}
    (h : ManageSieve.scanLine buf = .ok (some (tokens, n))) : Fits buf.length tokens := by
  obtain ⟨stretches, lexed, _, tail, ⟨hwalk, -, hlex⟩, rfl, rfl, -⟩ := scanLine_eq_some_iff.1 h
  refine ((fits_walked hwalk).append (fits_lex hlex)).mono ?_
  simp only [List.length_append]
  omega

/-- A literal that was taken in is not larger than what is allowed. -/
theorem octets_le_maxLiteral {stretches : List Stretch} {front : Bytes}
    (h : Walked stretches front) : ∀ stretch ∈ stretches, stretch.2.length ≤ maxLiteral := by
  induction h with
  | start => simp
  | @literal stretches front seg lexed octets _ _ hlex _ ih =>
    intro stretch hstretch
    rcases List.mem_append.1 hstretch with hstretch | hstretch
    · exact ih stretch hstretch
    · obtain rfl := List.mem_singleton.1 hstretch
      exact (lex_lexed hlex).marker _ rfl

/-! ## The tokens of a completion line -/

theorem splitName_eq {name : Bytes} (hmax : name.length ≤ usizeMax) :
    splitName name = .ok (ManageSieve.splitName name) := by
  rw [splitName, ManageSieve.splitName]
  rcases hslash : name.findIdx? (· == slash) with _ | index
  · rfl
  · obtain ⟨hindex, -⟩ := List.findIdx?_eq_some_iff_findIdx_eq.1 hslash
    dsimp only
    rw [slice_eq (Nat.zero_le _) hindex.le, add_eq (by omega)]
    simp only [ok_bind, List.drop_zero]
    rw [sliceFrom_eq (by omega)]
    rfl

theorem parseCode_eq {tokens : List Token} (h : Fits usizeMax tokens) :
    parseCode tokens = .ok (ManageSieve.parseCode tokens) := by
  rcases tokens with _ | ⟨_ | name | _ | _, tokens⟩
  · rfl
  · rfl
  · rw [parseCode, List.head?_cons]
    dsimp only
    rw [splitName_eq (h.atoms name (List.mem_cons_self ..))]
    rfl
  · rfl
  · rfl

theorem Fits.sublist {n : ℕ} {tokens tokens' : List Token} (h : Fits n tokens)
    (hsub : tokens'.Sublist tokens) : Fits n tokens' :=
  ⟨hsub.length_le.trans h.length, fun atom hatom => h.atoms atom (hsub.subset hatom)⟩

theorem splitCode_eq {status : Token} {tokens : List Token} (h : Fits usizeMax (status :: tokens)) :
    splitCode (status :: tokens) = .ok (ManageSieve.splitCode tokens) := by
  rw [splitCode]
  rcases tokens with _ | ⟨_ | _ | _ | _, tokens⟩
  · rfl
  · rfl
  · rfl
  · have hlength := h.length
    simp only [List.length_cons] at hlength
    rw [ManageSieve.splitCode]
    dsimp only [List.getElem?_cons_succ, List.getElem?_cons_zero]
    rw [sliceFrom_eq (by simp), ok_bind, List.drop_succ_cons, List.drop_succ_cons, List.drop_zero]
    rcases hclose : tokens.findIdx? (· == Token.close) with _ | index
    · rfl
    obtain ⟨hindex, -⟩ := List.findIdx?_eq_some_iff_findIdx_eq.1 hclose
    have hcode : ((status :: .open_ :: tokens).take (2 + index)).drop 2 = tokens.take index := by
      rw [Nat.add_comm, List.take_succ_cons, List.take_succ_cons, List.drop_succ_cons,
        List.drop_succ_cons, List.drop_zero]
    have hrest : (status :: .open_ :: tokens).drop (3 + index) = tokens.drop (index + 1) := by
      rw [show 3 + index = index + 1 + 1 + 1 by omega, List.drop_succ_cons, List.drop_succ_cons]
    have hfits : Fits usizeMax (tokens.take index) := h.sublist
      ((List.take_sublist index tokens).trans ((List.sublist_cons_self _ _).trans
        (List.sublist_cons_self _ _)))
    dsimp only
    rw [add_eq (by omega), ok_bind, slice_eq (by omega) (by simp only [List.length_cons]; omega),
      ok_bind, hcode, parseCode_eq hfits, ok_bind, add_eq (show 3 + index ≤ usizeMax by omega)]
    rcases ManageSieve.parseCode (tokens.take index) with err | code
    · rfl
    · dsimp only
      rw [ok_bind, sliceFrom_eq (by simp only [List.length_cons]; omega), ok_bind, hrest]
      rfl
  · rfl

theorem parseCompletion_eq {tokens : List Token} (h : Fits usizeMax tokens) :
    parseCompletion tokens = .ok (ManageSieve.parseCompletion tokens) := by
  rcases tokens with _ | ⟨_ | atom | _ | _, tokens⟩
  · rfl
  · rfl
  · rw [parseCompletion, ManageSieve.parseCompletion, List.head?_cons]
    dsimp only
    rcases parseStatus atom with err | status
    · rfl
    dsimp only
    rw [splitCode_eq h, ok_bind]
    rcases ManageSieve.splitCode tokens with err | ⟨code, rest⟩ <;> rfl
  · rfl
  · rfl

/-! ## Responses -/

section

variable {buf : Bytes} (hmax : buf.length ≤ usizeMax) {turns : ℕ} (hturns : buf.length < turns)

include hmax hturns

theorem parseLine_eq : parseLine turns buf = .ok (ManagesieveLine.parse buf) := by
  rw [parseLine, ManagesieveLine.parse, scanLine_eq hmax hturns, ok_bind]
  rcases hscan : ManageSieve.scanLine buf with err | _ | ⟨tokens, consumed⟩
  · rfl
  · rfl
  have hcompletion := parseCompletion_eq ((fits_scanLine hscan).mono hmax)
  dsimp only
  rcases tokens with _ | ⟨_ | _ | _ | _, tokens⟩
  · rfl
  · dsimp only [List.head?_cons, ManageSieve.parseLine]
    rcases parseData _ with err | line <;> rfl
  all_goals
    dsimp only [List.head?_cons, ManageSieve.parseLine]
    rw [hcompletion, ok_bind]
    rcases ManageSieve.parseCompletion _ with err | completion <;> rfl

theorem parseTurn_keeps {consumed : ℕ} (data : List ManagesieveDataLine)
    (hconsumed : consumed ≤ buf.length) :
    Keeps (fun s : ℕ × List ManagesieveDataLine => ManagesieveResponse.parseFrom buf s.1 s.2)
      (fun s => s.1 ≤ buf.length) (fun s => buf.length - s.1) (parseTurn turns buf)
      (consumed, data) := by
  dsimp only [Keeps]
  have hrest : (buf.drop consumed).length ≤ buf.length := by
    rw [List.length_drop]
    omega
  rw [parseTurn, ManagesieveResponse.parseFrom, sliceFrom_eq hconsumed, ok_bind,
    parseLine_eq (hrest.trans hmax) (hrest.trans_lt hturns), ok_bind]
  rcases hline : ManagesieveLine.parse (buf.drop consumed) with err | _ | ⟨line, read⟩
  · exact Or.inl rfl
  · exact Or.inl rfl
  have hpos := lineParser.pos hline
  have hle := lineParser.le_length hline
  rw [List.length_drop] at hle
  dsimp only
  rw [add_eq (by omega), ok_bind]
  rcases line with line | completion
  · exact Or.inr ⟨_, rfl, by dsimp only; omega, rfl, by dsimp only; omega⟩
  · exact Or.inl rfl

theorem parse_eq : parse turns buf = .ok (ManagesieveResponse.parse buf) := by
  rw [parse, ManagesieveResponse.parse]
  exact loop_eq
    (f := fun s : ℕ × List ManagesieveDataLine => ManagesieveResponse.parseFrom buf s.1 s.2)
    (fun s hs => parseTurn_keeps hmax hturns s.2 hs) (Nat.zero_le _) hturns

end

end Checked

theorem lf_of_scanLine {buf : Bytes} {tokens : List Token} {n : ℕ}
    (h : scanLine buf = .ok (some (tokens, n))) : buf[n - 1]? = some lf := by
  obtain ⟨_, _, _, tail, ⟨-, -, -⟩, rfl, -, rfl⟩ := scanLine_eq_some_iff.1 h
  rw [List.getElem?_append_left (by simp), ← List.append_assoc, ← List.getLast?_eq_getElem?,
    List.getLast?_concat]

/-- A response ends where its completion line does, on a line feed. -/
theorem ManagesieveResponse.lf_of_parse {buf : Bytes} {response : ManagesieveResponse} {n : ℕ}
    (h : ManagesieveResponse.parse buf = .ok (some (response, n))) : buf[n - 1]? = some lf := by
  obtain ⟨c, read, hlast, rfl⟩ := exists_last_of_untilFrom (untilFrom_of_parse h)
  obtain ⟨line, hline, -⟩ := lineSumParser_eq_some hlast
  obtain ⟨tokens, hscan, -⟩ := ManagesieveLine.parse_eq_some_iff.1 hline
  have hpos := lineParser.pos hline
  have hlf := lf_of_scanLine hscan
  rwa [List.getElem?_drop, ← Nat.add_sub_assoc hpos] at hlf

/-- **The parser never faults, comes to an end and gets on.** -/
theorem ManagesieveResponse.parse_checked {buf : Bytes} (hmax : buf.length ≤ usizeMax) :
    (∀ turns, buf.length < turns →
        Checked.parse turns buf = .ok (ManagesieveResponse.parse buf)) ∧
      (∀ response n, ManagesieveResponse.parse buf = .ok (some (response, n)) →
        0 < n ∧ n ≤ buf.length ∧ buf[n - 1]? = some lf ∧
          ManagesieveResponse.parse (buf.take n) = .ok (some (response, n))) ∧
      ∀ start tokens n, scanLine (buf.drop start) = .ok (some (tokens, n)) →
        ∃ stretches lexed line, LogicalLine stretches lexed line ∧ line <+: buf.drop start ∧
          line.length = n ∧ tokens = walkTokens stretches ++ lexed ∧
          ∀ stretch ∈ stretches, stretch.2.length ≤ maxLiteral := by
  refine ⟨fun turns hturns => Checked.parse_eq hmax hturns, fun response n h => ?_,
    fun start tokens n h => ?_⟩
  · exact ⟨responseParser.pos h, responseParser.le_length h, lf_of_parse h,
      responseParser.parse_take h⟩
  · obtain ⟨stretches, lexed, line, tail, hline, hbuf, htokens, hn⟩ := scanLine_eq_some_iff.1 h
    refine ⟨stretches, lexed, line, hline, hbuf ▸ List.prefix_append _ _, hn.symm, htokens, ?_⟩
    obtain ⟨hwalk, -, -⟩ := hline
    exact Checked.octets_le_maxLiteral hwalk

/-- A response with a literal: at most as many turns as it has octets, and one. -/
theorem ManagesieveResponse.parse_checked_literal :
    Checked.parse 25 (asBytes "OK \x7b2+\x7d\r\nok\r\nNO\r\n") =
      .ok (ManagesieveResponse.parse (asBytes "OK \x7b2+\x7d\r\nok\r\nNO\r\n")) := by
  have hlen : (asBytes "OK \x7b2+\x7d\r\nok\r\nNO\r\n").length = 17 := by decide +kernel
  have hmax : (asBytes "OK \x7b2+\x7d\r\nok\r\nNO\r\n").length ≤ usizeMax := by
    rw [hlen]
    decide
  obtain ⟨hparse, -, -⟩ := ManagesieveResponse.parse_checked hmax
  exact hparse 25 (by rw [hlen]; decide)

end ManageSieve
