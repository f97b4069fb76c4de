import ManageSieve.Foundations.Utf8
import ManageSieve.Wire.Lex

/-!
# Responses

The response half of the protocol, `rfc5804/response.rs`: data lines, the completion line that ends
them, and the response code that a completion may carry, as the tokens of a logical line say them.
`ManagesieveLine.parse` reads one line from the front of a buffer; whole responses are read in
`Wire.Framing`.
-/

namespace ManageSieve

/-- The completion status that ends a response. -/
inductive ManagesieveStatus
  | ok
  | no
  | bye
  deriving DecidableEq

/-- Which quota a QUOTA response code was refined to. -/
inductive ManagesieveQuota
  | maxScripts
  | maxSize
  deriving DecidableEq

/-- The machine-readable code that a completion line may carry. -/
inductive ManagesieveResponseCode
  | authTooWeak
  | encryptNeeded
  | quota (limit : Option ManagesieveQuota)
  | referral (url : String)
  | sasl (data : Bytes)
  | transitionNeeded
  | tryLater
  | active
  | nonexistent
  | alreadyExists
  | warnings
  | tag (tag : String)
  | other (name : String)
  deriving DecidableEq

/-- One token of a data line. -/
inductive ManagesieveToken
  | string (value : Bytes)
  | atom (value : String)
  deriving DecidableEq

/-- One data line of a response, split into its tokens. -/
structure ManagesieveDataLine where
  tokens : List ManagesieveToken
  deriving DecidableEq

/-- The string token at `index`, when the line has one there. -/
def ManagesieveDataLine.string (line : ManagesieveDataLine) (index : ℕ) : Option Bytes :=
  match line.tokens[index]? with
  | some (.string string) => some string
  | _ => none

/-- The completion line that ends a response. -/
structure ManagesieveCompletion where
  status : ManagesieveStatus
  code : Option ManagesieveResponseCode
  text : Option String
  deriving DecidableEq

/-- One logical line of a response. -/
inductive ManagesieveLine
  | data (line : ManagesieveDataLine)
  | completion (completion : ManagesieveCompletion)
  deriving DecidableEq

/-- A complete response: its data lines and the completion that ends them. -/
structure ManagesieveResponse where
  data : List ManagesieveDataLine
  completion : ManagesieveCompletion
  deriving DecidableEq

/-- Split the response on its status: itself on OK, its completion on NO or BYE. -/
def ManagesieveResponse.intoResult (response : ManagesieveResponse) :
    Except ManagesieveCompletion ManagesieveResponse :=
  match response.completion.status with
  | .ok => .ok response
  | _ => .error response.completion

theorem ManagesieveResponse.of_intoResult {response response' : ManagesieveResponse}
    (h : response.intoResult = .ok response') :
    response.completion.status = .ok ∧ response' = response := by
  unfold intoResult at h
  cases hs : response.completion.status <;> rw [hs] at h <;> cases h
  exact ⟨rfl, rfl⟩

theorem ManagesieveResponse.intoResult_of_ok {response : ManagesieveResponse}
    (h : response.completion.status = .ok) : response.intoResult = .ok response := by
  rw [intoResult, h]

theorem ManagesieveResponse.intoResult_of_ne {response : ManagesieveResponse}
    (h : response.completion.status ≠ .ok) :
    response.intoResult = .error response.completion := by
  unfold intoResult
  split
  · rename_i hok
    exact absurd hok h
  · rfl

/-! ## Interpreting the tokens of a line -/

/-- Decode server text, with invalid sequences replaced. -/
def text (bytes : Bytes) : String := Utf8.decodeLossy bytes

theorem asBytes_text (bytes : Bytes) :
    asBytes (text bytes) = (Utf8.decodeLossyChars bytes).flatMap String.utf8EncodeChar := by
  rw [asBytes, text, Utf8.decodeLossy, String.toByteArray_ofList, List.utf8Encode,
    List.toList_data_toByteArray]

/-- Replacing invalid sequences makes no octets read as a keyword that do not spell it. -/
theorem strEqIgnoreAsciiCase_text {keyword : String} (hk : ∀ b ∈ asBytes keyword, b < 0x80)
    (bytes : Bytes) :
    strEqIgnoreAsciiCase (text bytes) keyword = eqIgnoreAsciiCase bytes (asBytes keyword) := by
  -- octets that equal ASCII up to case are ASCII
  have hascii : ∀ bs : Bytes, eqIgnoreAsciiCase bs (asBytes keyword) = true →
      ∀ b ∈ bs, b < 0x80 := by
    intro bs heq b hb
    have hmem : toAsciiLowercase b ∈ (asBytes keyword).map toAsciiLowercase := by
      rw [← eqIgnoreAsciiCase_iff.1 heq]
      exact List.mem_map_of_mem hb
    obtain ⟨k, hkmem, hlower⟩ := List.mem_map.1 hmem
    exact (toAsciiLowercase_lt_iff b).1 (hlower ▸ (toAsciiLowercase_lt_iff k).2 (hk k hkmem))
  rw [strEqIgnoreAsciiCase, asBytes_text]
  by_cases h : ∀ b ∈ bytes, b < 0x80
  · rw [Utf8.encode_decodeLossyChars h]
  · have htext := fun heq => h (Utf8.ascii_of_encode (hascii _ heq))
    have hbytes := fun heq => h (hascii bytes heq)
    rw [Bool.eq_false_iff.2 htext, Bool.eq_false_iff.2 hbytes]

/-- The public shape of a token of a data line. -/
def dataToken : Token → Except ManagesieveResponseParseError ManagesieveToken
  | .string string => .ok (.string string)
  | .atom atom => .ok (.atom (text atom))
  | .open_ => .error (.unexpectedByte openParen)
  | .close => .error (.unexpectedByte closeParen)

/-- The public shape of a list of tokens, unless one of them is refused. -/
def dataTokens : List Token → Except ManagesieveResponseParseError (List ManagesieveToken)
  | [] => .ok []
  | token :: tokens =>
    match dataToken token with
    | .error err => .error err
    | .ok token =>
      match dataTokens tokens with
      | .error err => .error err
      | .ok tokens => .ok (token :: tokens)

/-- Turn the tokens of a data line into their public shape. -/
def parseData (tokens : List Token) : Except ManagesieveResponseParseError ManagesieveDataLine :=
  match dataTokens tokens with
  | .error err => .error err
  | .ok tokens => .ok ⟨tokens⟩

/-- The argument of a response code: its second token, when it is a string. -/
def codeArgument (tokens : List Token) : Bytes :=
  match tokens[1]? with
  | some (Token.string string) => string
  | _ => []

/-- Split a code name at its first slash. -/
def splitName (name : Bytes) : Bytes × Option Bytes :=
  match name.findIdx? (· == slash) with
  | some index => (name.take index, some (name.drop (index + 1)))
  | none => (name, none)

/-- The quota that the detail of a QUOTA code names. -/
def quotaDetail (detail : Option Bytes) : Option ManagesieveQuota :=
  match detail with
  | some detail =>
    if eqIgnoreAsciiCase detail (asBytes "MAXSCRIPTS") then some .maxScripts
    else if eqIgnoreAsciiCase detail (asBytes "MAXSIZE") then some .maxSize
    else none
  | none => none

/-- The code named `name`, its head compared case-insensitively. -/
def namedCode (name argument : Bytes) : ManagesieveResponseCode :=
  let (head, detail) := splitName name
  if eqIgnoreAsciiCase head (asBytes "AUTH-TOO-WEAK") then .authTooWeak
  else if eqIgnoreAsciiCase head (asBytes "ENCRYPT-NEEDED") then .encryptNeeded
  else if eqIgnoreAsciiCase head (asBytes "QUOTA") then .quota (quotaDetail detail)
  else if eqIgnoreAsciiCase head (asBytes "REFERRAL") then .referral (text argument)
  else if eqIgnoreAsciiCase head (asBytes "SASL") then .sasl argument
  else if eqIgnoreAsciiCase head (asBytes "TRANSITION-NEEDED") then .transitionNeeded
  else if eqIgnoreAsciiCase head (asBytes "TRYLATER") then .tryLater
  else if eqIgnoreAsciiCase head (asBytes "ACTIVE") then .active
  else if eqIgnoreAsciiCase head (asBytes "NONEXISTENT") then .nonexistent
  else if eqIgnoreAsciiCase head (asBytes "ALREADYEXISTS") then .alreadyExists
  else if eqIgnoreAsciiCase head (asBytes "WARNINGS") then .warnings
  else if eqIgnoreAsciiCase head (asBytes "TAG") then .tag (text argument)
  else .other (text name)

/-- Read the tokens between the parentheses of a response code. -/
def parseCode (tokens : List Token) :
    Except ManagesieveResponseParseError ManagesieveResponseCode :=
  match tokens with
  | .atom name :: _ => .ok (namedCode name (codeArgument tokens))
  | _ => .error .emptyResponseCode

/-- The status that opens a completion line. -/
def parseStatus (atom : Bytes) : Except ManagesieveResponseParseError ManagesieveStatus :=
  if eqIgnoreAsciiCase atom (asBytes "OK") then .ok .ok
  else if eqIgnoreAsciiCase atom (asBytes "NO") then .ok .no
  else if eqIgnoreAsciiCase atom (asBytes "BYE") then .ok .bye
  else .error (.unknownStatus (text atom))

/-- The response code among the tokens that follow a status, and the tokens after it: a code runs
up to the first closing parenthesis. -/
def splitCode (tokens : List Token) :
    Except ManagesieveResponseParseError (Option ManagesieveResponseCode × List Token) :=
  match tokens with
  | .open_ :: tokens =>
    match tokens.findIdx? (· == .close) with
    | none => .error .unterminatedResponseCode
    | some index =>
      match parseCode (tokens.take index) with
      | .error err => .error err
      | .ok code => .ok (some code, tokens.drop (index + 1))
  | _ => .ok (none, tokens)

/-- The text that opens the rest of a completion line. -/
def completionText (rest : List Token) : Option String :=
  match rest.head? with
  | some (.string string) => some (text string)
  | _ => none

/-- Read a completion line: the status, its optional response code and its optional text. -/
def parseCompletion (tokens : List Token) :
    Except ManagesieveResponseParseError ManagesieveCompletion :=
  match tokens with
  | .atom atom :: tokens =>
    match parseStatus atom with
    | .error err => .error err
    | .ok status =>
      match splitCode tokens with
      | .error err => .error err
      | .ok (code, rest) => .ok ⟨status, code, completionText rest⟩
  | _ :: _ => .error (.unexpectedByte openParen)
  | [] => .error .emptyLine

/-- The first token alone tells a data line from a completion line. -/
def parseLine (tokens : List Token) : Except ManagesieveResponseParseError ManagesieveLine :=
  match tokens with
  | .string _ :: _ =>
    match parseData tokens with
    | .error err => .error err
    | .ok line => .ok (.data line)
  | _ =>
    match parseCompletion tokens with
    | .error err => .error err
    | .ok completion => .ok (.completion completion)

/-- A data line opens on a string. -/
theorem string_zero_of_parseLine {tokens : List Token} {line : ManagesieveDataLine}
    (h : parseLine tokens = .ok (.data line)) : ∃ string, line.string 0 = some string := by
  unfold parseLine at h
  split at h
  · next string rest =>
    unfold parseData dataTokens at h
    simp only [dataToken] at h
    rcases hd : dataTokens rest with err | rest <;> rw [hd] at h <;> cases h
    exact ⟨string, rfl⟩
  · split at h <;> cases h

/-! ## Reading lines and responses -/

/-- Parse one logical line from the front of `buf`: nothing while the line is incomplete, the line
and the number of bytes it consumed once it is. -/
def ManagesieveLine.parse (buf : Bytes) :
    Except ManagesieveResponseParseError (Option (ManagesieveLine × ℕ)) :=
  match scanLine buf with
  | .error err => .error err
  | .ok none => .ok none
  | .ok (some (tokens, consumed)) =>
    match parseLine tokens with
    | .error err => .error err
    | .ok line => .ok (some (line, consumed))

theorem ManagesieveLine.parse_eq_some_iff {buf : Bytes} {line : ManagesieveLine} {consumed : ℕ} :
    ManagesieveLine.parse buf = .ok (some (line, consumed)) ↔
      ∃ tokens, scanLine buf = .ok (some (tokens, consumed)) ∧ parseLine tokens = .ok line := by
  unfold ManagesieveLine.parse
  rcases hs : scanLine buf with err | _ | ⟨tokens, n⟩
  · simp
  · simp
  · dsimp only
    rcases hl : parseLine tokens with err | line'
    · simp [hl]
    · simp only [Except.ok.injEq, Option.some.injEq, Prod.mk.injEq]
      constructor
      · rintro ⟨rfl, rfl⟩
        exact ⟨tokens, ⟨rfl, rfl⟩, hl⟩
      · rintro ⟨tokens', ⟨rfl, rfl⟩, hline⟩
        rw [hl] at hline
        exact ⟨Except.ok.inj hline, rfl⟩

theorem ManagesieveLine.string_zero_of_parse {buf : Bytes} {line : ManagesieveDataLine}
    {consumed : ℕ} (h : ManagesieveLine.parse buf = .ok (some (.data line, consumed))) :
    ∃ string, line.string 0 = some string := by
  obtain ⟨tokens, -, hline⟩ := ManagesieveLine.parse_eq_some_iff.1 h
  exact string_zero_of_parseLine hline

end ManageSieve
