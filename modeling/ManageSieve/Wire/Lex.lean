import ManageSieve.Wire.Bytes

/-!
# Reading a logical line

The reading half of `utils.rs`. ManageSieve has atoms, numbers and strings, a string being either
quoted or a length-prefixed literal, so reading a line means reading a physical line, then possibly
a counted run of octets, then the rest of the same logical line: `scanLine`. `lex` reads the tokens
of one physical segment, `lexQuoted` a quoted string, `lexLiteralMarker` the marker of a literal.

The loops walk a buffer by index, as in the source; each of them terminates because the index it
works at grows and stays within the buffer (`lexQuotedFrom_bounds`, `atomEnd_le`).
-/

namespace ManageSieve

/-- `MAX_LITERAL`: the largest literal that is read. -/
def maxLiteral : ℕ := 8 * 1024 * 1024

/-- Failure causes while parsing a response. -/
inductive ManagesieveResponseParseError
  | emptyLine
  | unexpectedByte (byte : UInt8)
  | unterminatedQuoted
  | invalidEscape (byte : UInt8)
  | invalidLiteralMarker
  | literalTooLarge (size : ℕ)
  | unknownStatus (status : String)
  | unterminatedResponseCode
  | emptyResponseCode
  deriving DecidableEq

/-- One lexed item of a line. -/
inductive Token
  | string (value : Bytes)
  | atom (value : Bytes)
  | open_
  | close
  deriving DecidableEq

/-- The slice `&buf[start..stop]`. -/
def slice (buf : Bytes) (start stop : ℕ) : Bytes := (buf.take stop).drop start

/-! ## Quoted strings -/

/-- Whether an octet is one of the two that a quoted string escapes. -/
def isQuotedSpecial (byte : UInt8) : Bool := byte == dquote || byte == backslash

/-- The loop of `lexQuoted`, at `index`, with what was read so far. -/
def lexQuotedFrom (segment : Bytes) (index : ℕ) (string : Bytes) :
    Except ManagesieveResponseParseError (Bytes × ℕ) :=
  if h : index < segment.length then
    if segment[index] = dquote then .ok (string, index + 1)
    else if segment[index] = backslash then
      match segment[index + 1]? with
      | none => .error .unterminatedQuoted
      | some byte =>
        if byte ≠ dquote ∧ byte ≠ backslash then .error (.invalidEscape byte)
        else lexQuotedFrom segment (index + 2) (string ++ [byte])
    else lexQuotedFrom segment (index + 1) (string ++ [segment[index]])
  else .error .unterminatedQuoted
termination_by segment.length - index

/-- Lex a quoted string whose opening double quote is at `open_`: its value and the index after its
closing double quote. -/
def lexQuoted (segment : Bytes) (open_ : ℕ) : Except ManagesieveResponseParseError (Bytes × ℕ) :=
  lexQuotedFrom segment (open_ + 1) []

theorem lexQuotedFrom_bounds {segment string value : Bytes} {index next : ℕ}
    (h : lexQuotedFrom segment index string = .ok (value, next)) :
    index < next ∧ next ≤ segment.length := by
  induction index, string using lexQuotedFrom.induct segment with
  | case1 index string hi hq =>
    rw [lexQuotedFrom, dif_pos hi, if_pos hq] at h
    cases h
    omega
  | case2 index string hi hq hb hn =>
    rw [lexQuotedFrom, dif_pos hi, if_neg hq, if_pos hb, hn] at h
    cases h
  | case3 index string hi hq hb byte hn he =>
    rw [lexQuotedFrom, dif_pos hi, if_neg hq, if_pos hb, hn] at h
    simp only [if_pos he] at h
    cases h
  | case4 index string hi hq hb byte hn he ih =>
    rw [lexQuotedFrom, dif_pos hi, if_neg hq, if_pos hb, hn] at h
    simp only [if_neg he] at h
    have := ih h
    omega
  | case5 index string hi hq hb ih =>
    rw [lexQuotedFrom, dif_pos hi, if_neg hq, if_neg hb] at h
    have := ih h
    omega
  | case6 index string hi =>
    rw [lexQuotedFrom, dif_neg hi] at h
    cases h

theorem lexQuoted_bounds {segment value : Bytes} {open_ next : ℕ}
    (h : lexQuoted segment open_ = .ok (value, next)) :
    open_ + 1 < next ∧ next ≤ segment.length :=
  lexQuotedFrom_bounds h

/-! ## Literal markers and atoms -/

/-- Read a `{size}` or `{size+}` marker occupying the rest of a segment. -/
def lexLiteralMarker (marker : Bytes) : Except ManagesieveResponseParseError ℕ :=
  match (marker.dropPrefix? [openBrace]).bind fun rest => rest.dropSuffix? [closeBrace] with
  | none => .error .invalidLiteralMarker
  | some rest =>
    let digits := (rest.dropSuffix? [plus]).getD rest
    if digits.isEmpty || !digits.all isAsciiDigit then .error .invalidLiteralMarker
    else
      match parseU32 digits with
      | none => .error .invalidLiteralMarker
      | some size => if maxLiteral < size then .error (.literalTooLarge size) else .ok size

/-- Whether an octet is one of those an atom cannot contain. -/
def isAtomSpecial (byte : UInt8) : Bool :=
  byte == openParen || byte == closeParen || byte == openBrace || byte == space ||
    byte == dquote || byte == backslash || isAsciiControl byte

/-- The index where the atom that starts at `index` ends. -/
def atomEnd (segment : Bytes) (index : ℕ) : ℕ :=
  if h : index < segment.length then
    if isAtomSpecial segment[index] then index else atomEnd segment (index + 1)
  else index
termination_by segment.length - index

theorem le_atomEnd (segment : Bytes) (index : ℕ) : index ≤ atomEnd segment index := by
  induction index using atomEnd.induct segment with
  | case1 index hi hs => simp [atomEnd, hi, hs]
  | case2 index hi hs ih =>
    rw [atomEnd, dif_pos hi, if_neg hs]
    omega
  | case3 index hi => simp [atomEnd, hi]

theorem atomEnd_le {segment : Bytes} {index : ℕ} (h : index ≤ segment.length) :
    atomEnd segment index ≤ segment.length := by
  induction index using atomEnd.induct segment with
  | case1 index hi hs =>
    rw [atomEnd, dif_pos hi, if_pos hs]
    exact h
  | case2 index hi hs ih =>
    rw [atomEnd, dif_pos hi, if_neg hs]
    exact ih hi
  | case3 index hi =>
    rw [atomEnd, dif_neg hi]
    exact h

/-! ## Segments -/

/-- The loop of `lex`, at `index`, with the tokens read so far. -/
def lexFrom (segment : Bytes) (index : ℕ) (tokens : List Token) :
    Except ManagesieveResponseParseError (List Token × Option ℕ) :=
  if h : index < segment.length then
    if isAsciiWhitespace segment[index] then lexFrom segment (index + 1) tokens
    else if segment[index] = dquote then
      match _hq : lexQuoted segment index with
      | .error err => .error err
      | .ok (string, next) => lexFrom segment next (tokens ++ [.string string])
    else if segment[index] = openBrace then
      match lexLiteralMarker (segment.drop index) with
      | .error err => .error err
      | .ok size => .ok (tokens, some size)
    else if segment[index] = openParen then lexFrom segment (index + 1) (tokens ++ [.open_])
    else if segment[index] = closeParen then lexFrom segment (index + 1) (tokens ++ [.close])
    else if _hs : atomEnd segment index = index then .error (.unexpectedByte segment[index])
    else
      lexFrom segment (atomEnd segment index)
        (tokens ++ [.atom (slice segment index (atomEnd segment index))])
  else .ok (tokens, none)
termination_by segment.length - index
decreasing_by
  · omega
  · have := lexQuoted_bounds _hq
    omega
  · omega
  · omega
  · have := le_atomEnd segment index
    omega

/-- Lex one physical segment, its line end already stripped: the tokens it holds and, when it ends
on a literal marker, the octet count that the marker announces. -/
def lex (segment : Bytes) : Except ManagesieveResponseParseError (List Token × Option ℕ) :=
  lexFrom segment 0 []

/-! ## Logical lines -/

/-- Where the segment from `index` to the line feed at `eol` ends, its carriage return stripped. -/
def segmentEnd (buf : Bytes) (index eol : ℕ) : ℕ :=
  if index < eol ∧ buf[eol - 1]? = some cr then eol - 1 else eol

/-- The loop of `scanLine`, at `index`, with the tokens read so far. -/
def scanLineFrom (buf : Bytes) (index : ℕ) (tokens : List Token) :
    Except ManagesieveResponseParseError (Option (List Token × ℕ)) :=
  match (buf.drop index).findIdx? (· == lf) with
  | none => .ok none
  | some offset =>
    match lex (slice buf index (segmentEnd buf index (index + offset))) with
    | .error err => .error err
    | .ok (lexed, none) => .ok (some (tokens ++ lexed, index + offset + 1))
    | .ok (lexed, some size) =>
      match _hs : checkedAdd (index + offset + 1) size with
      | none => .error (.literalTooLarge size)
      | some stop =>
        if _hb : buf.length < stop then .ok none
        else
          scanLineFrom buf stop
            (tokens ++ lexed ++ [.string (slice buf (index + offset + 1) stop)])
termination_by buf.length - index
decreasing_by
  have := checkedAdd_eq_some _hs
  omega

/-- Read one logical line from the front of `buf`: nothing while it is still incomplete, and its
tokens plus the number of bytes they consumed once it is. -/
def scanLine (buf : Bytes) : Except ManagesieveResponseParseError (Option (List Token × ℕ)) :=
  scanLineFrom buf 0 []

example :
    scanLine (asBytes "OK (TAG {16}\r\nSTARTTLS-SYNC-42) \"Done\"\r\n") =
      .ok (some ([.atom (asBytes "OK"), .open_, .atom (asBytes "TAG"),
        .string (asBytes "STARTTLS-SYNC-42"), .close, .string (asBytes "Done")], 40)) := by
  decide +kernel

end ManageSieve
