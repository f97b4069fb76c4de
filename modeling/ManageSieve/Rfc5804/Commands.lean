import ManageSieve.Sasl
import ManageSieve.Wire.Spelling

/-!
# Commands

How each command is serialised, and the continuation lines of an authentication exchange. Every
command is a verb and its arguments, each after a space, ended by CRLF (`commandLine`). The main
result is `ManagesieveCommand.scanLine_toBytes`: a serialised command is one logical line that
carries the verb and exactly the arguments, whatever bytes they hold.
-/

namespace ManageSieve

/-- A command line: a verb, its rendered arguments, and the end of the line. -/
def commandLine (verb : String) (arguments : List Bytes) : Bytes :=
  asBytes verb ++ (arguments.flatMap (space :: ·) ++ crlf)

/-! ## The commands -/

/-- HAVESPACE, `havespace.rs`. -/
structure ManagesieveHaveSpaceCommand where
  name : String
  size : UInt32

def ManagesieveHaveSpaceCommand.toBytes (cmd : ManagesieveHaveSpaceCommand) : Bytes :=
  commandLine "HAVESPACE" [string (asBytes cmd.name), decimal cmd.size.toNat]

/-- PUTSCRIPT, `putscript.rs`. -/
structure ManagesieveScriptPutCommand where
  name : String
  script : Bytes

def ManagesieveScriptPutCommand.toBytes (cmd : ManagesieveScriptPutCommand) : Bytes :=
  commandLine "PUTSCRIPT" [string (asBytes cmd.name), literal cmd.script]

/-- GETSCRIPT, `getscript.rs`. -/
structure ManagesieveScriptGetCommand where
  name : String

def ManagesieveScriptGetCommand.toBytes (cmd : ManagesieveScriptGetCommand) : Bytes :=
  commandLine "GETSCRIPT" [string (asBytes cmd.name)]

/-- SETACTIVE, `setactive.rs`: no name deactivates the active script. -/
structure ManagesieveScriptActivateCommand where
  name : Option String

def ManagesieveScriptActivateCommand.toBytes (cmd : ManagesieveScriptActivateCommand) : Bytes :=
  commandLine "SETACTIVE" [string (asBytes (cmd.name.getD ""))]

/-- DELETESCRIPT, `deletescript.rs`. -/
structure ManagesieveScriptDeleteCommand where
  name : String

def ManagesieveScriptDeleteCommand.toBytes (cmd : ManagesieveScriptDeleteCommand) : Bytes :=
  commandLine "DELETESCRIPT" [string (asBytes cmd.name)]

/-- RENAMESCRIPT, `renamescript.rs`. -/
structure ManagesieveScriptRenameCommand where
  name : String
  newName : String

def ManagesieveScriptRenameCommand.toBytes (cmd : ManagesieveScriptRenameCommand) : Bytes :=
  commandLine "RENAMESCRIPT" [string (asBytes cmd.name), string (asBytes cmd.newName)]

/-- CHECKSCRIPT, `checkscript.rs`. -/
structure ManagesieveScriptCheckCommand where
  script : Bytes

def ManagesieveScriptCheckCommand.toBytes (cmd : ManagesieveScriptCheckCommand) : Bytes :=
  commandLine "CHECKSCRIPT" [literal cmd.script]

/-- NOOP, `noop.rs`. -/
structure ManagesieveNoopCommand where
  tag : Option String

def ManagesieveNoopCommand.toBytes (cmd : ManagesieveNoopCommand) : Bytes :=
  commandLine "NOOP" (cmd.tag.toList.map fun tag => string (asBytes tag))

/-- AUTHENTICATE, `authenticate.rs`: the initial response is raw rather than base64. -/
structure ManagesieveAuthenticateCommand where
  mechanism : SaslMechanism
  initialResponse : Option Bytes

def ManagesieveAuthenticateCommand.toBytes (lib : Libraries)
    (cmd : ManagesieveAuthenticateCommand) : Bytes :=
  commandLine "AUTHENTICATE" (string (asBytes (lib.asStr cmd.mechanism)) ::
    cmd.initialResponse.toList.map fun response => string (lib.base64.encode response))

/-- The command starts as its verb does. -/
theorem ManagesieveAuthenticateCommand.head?_toBytes (lib : Libraries)
    (cmd : ManagesieveAuthenticateCommand) : (cmd.toBytes lib).head? = some 65 := by
  have hverb : asBytes "AUTHENTICATE" = 65 :: asBytes "UTHENTICATE" := by decide +kernel
  rw [toBytes, commandLine, hverb]
  rfl

/-- CAPABILITY, `capability.rs`. -/
def ManagesieveCapabilityGetCommand.toBytes : Bytes := commandLine "CAPABILITY" []

/-- LISTSCRIPTS, `listscripts.rs`. -/
def ManagesieveScriptListCommand.toBytes : Bytes := commandLine "LISTSCRIPTS" []

/-- STARTTLS, `starttls.rs`. -/
def ManagesieveStartTlsCommand.toBytes : Bytes := commandLine "STARTTLS" []

/-- LOGOUT, `logout.rs`. -/
def ManagesieveLogoutCommand.toBytes : Bytes := commandLine "LOGOUT" []

/-- UNAUTHENTICATE, `unauthenticate.rs`. -/
def ManagesieveUnauthenticateCommand.toBytes : Bytes := commandLine "UNAUTHENTICATE" []

/-- `client_response`: a continuation line of an authentication exchange, base64 in a string. -/
def clientResponse (lib : Libraries) (payload : Bytes) : Bytes :=
  string (lib.base64.encode payload) ++ crlf

/-- The line that cancels an authentication exchange. -/
def cancellation : Bytes := asBytes "\"*\"\r\n"

/-- Any command but the raw passthrough. -/
inductive ManagesieveCommand
  | haveSpace (cmd : ManagesieveHaveSpaceCommand)
  | putScript (cmd : ManagesieveScriptPutCommand)
  | getScript (cmd : ManagesieveScriptGetCommand)
  | setActive (cmd : ManagesieveScriptActivateCommand)
  | deleteScript (cmd : ManagesieveScriptDeleteCommand)
  | renameScript (cmd : ManagesieveScriptRenameCommand)
  | checkScript (cmd : ManagesieveScriptCheckCommand)
  | noop (cmd : ManagesieveNoopCommand)
  | authenticate (cmd : ManagesieveAuthenticateCommand)
  | capability
  | listScripts
  | startTls
  | logout
  | unauthenticate

/-- The serialised command. -/
def ManagesieveCommand.toBytes (lib : Libraries) : ManagesieveCommand → Bytes
  | haveSpace cmd => cmd.toBytes
  | putScript cmd => cmd.toBytes
  | getScript cmd => cmd.toBytes
  | setActive cmd => cmd.toBytes
  | deleteScript cmd => cmd.toBytes
  | renameScript cmd => cmd.toBytes
  | checkScript cmd => cmd.toBytes
  | noop cmd => cmd.toBytes
  | authenticate cmd => cmd.toBytes lib
  | capability => ManagesieveCapabilityGetCommand.toBytes
  | listScripts => ManagesieveScriptListCommand.toBytes
  | startTls => ManagesieveStartTlsCommand.toBytes
  | logout => ManagesieveLogoutCommand.toBytes
  | unauthenticate => ManagesieveUnauthenticateCommand.toBytes

/-! ## What a command carries -/

/-- An argument of a command: a string, a script, a number, or a SASL payload. -/
inductive Argument
  | string (value : Bytes)
  | script (value : Bytes)
  | number (value : UInt32)
  | payload (value : Bytes)

namespace Argument

/-- The argument as it is rendered. -/
def render (lib : Libraries) : Argument → Bytes
  | string value => ManageSieve.string value
  | script value => literal value
  | number value => decimal value.toNat
  | payload value => ManageSieve.string (lib.base64.encode value)

/-- The token carries the argument: strings byte for byte, numbers as their digits, payloads as
base64 text. -/
def Carries (lib : Libraries) : Argument → Token → Prop
  | string value, token => token = .string value
  | script value, token => token = .string value
  | number value, token => token = .atom (decimal value.toNat)
  | payload value, token => ∃ txt, token = .string txt ∧ lib.base64.decode txt = some value

/-- The argument fits into the largest literal that is read. -/
def Fits (lib : Libraries) : Argument → Prop
  | string value => value.length ≤ maxLiteral
  | script value => value.length ≤ maxLiteral
  | number _ => True
  | payload value => (lib.base64.encode value).length ≤ maxLiteral

instance (lib : Libraries) : (argument : Argument) → Decidable (argument.Fits lib)
  | string value => inferInstanceAs (Decidable (value.length ≤ maxLiteral))
  | script value => inferInstanceAs (Decidable (value.length ≤ maxLiteral))
  | number _ => inferInstanceAs (Decidable True)
  | payload value => inferInstanceAs (Decidable ((lib.base64.encode value).length ≤ maxLiteral))

end Argument

namespace ManagesieveCommand

/-- The verb of a command. -/
def verb : ManagesieveCommand → String
  | haveSpace _ => "HAVESPACE"
  | putScript _ => "PUTSCRIPT"
  | getScript _ => "GETSCRIPT"
  | setActive _ => "SETACTIVE"
  | deleteScript _ => "DELETESCRIPT"
  | renameScript _ => "RENAMESCRIPT"
  | checkScript _ => "CHECKSCRIPT"
  | noop _ => "NOOP"
  | authenticate _ => "AUTHENTICATE"
  | capability => "CAPABILITY"
  | listScripts => "LISTSCRIPTS"
  | startTls => "STARTTLS"
  | logout => "LOGOUT"
  | unauthenticate => "UNAUTHENTICATE"

/-- The arguments of a command, in order. -/
def arguments (lib : Libraries) : ManagesieveCommand → List Argument
  | haveSpace cmd => [.string (asBytes cmd.name), .number cmd.size]
  | putScript cmd => [.string (asBytes cmd.name), .script cmd.script]
  | getScript cmd => [.string (asBytes cmd.name)]
  | setActive cmd => [.string (asBytes (cmd.name.getD ""))]
  | deleteScript cmd => [.string (asBytes cmd.name)]
  | renameScript cmd => [.string (asBytes cmd.name), .string (asBytes cmd.newName)]
  | checkScript cmd => [.script cmd.script]
  | noop cmd => cmd.tag.toList.map fun tag => .string (asBytes tag)
  | authenticate cmd =>
    .string (asBytes (lib.asStr cmd.mechanism)) :: cmd.initialResponse.toList.map .payload
  | capability | listScripts | startTls | logout | unauthenticate => []

/-- A serialised command is its verb and its rendered arguments. -/
theorem toBytes_eq (lib : Libraries) (cmd : ManagesieveCommand) :
    cmd.toBytes lib = commandLine cmd.verb ((cmd.arguments lib).map (·.render lib)) := by
  cases cmd with
  | noop cmd => rcases cmd with ⟨_ | tag⟩ <;> rfl
  | authenticate cmd => rcases cmd with ⟨mechanism, _ | response⟩ <;> rfl
  | _ => rfl

end ManagesieveCommand

/-! ## Reading a command back -/

/-- The bytes spell the token, whatever the rest of the line, as long as that ends an atom. -/
def SpellsToken (token : Token) (bytes : Bytes) : Prop :=
  ∀ tokens rest, opensSpecial rest = true → Spells tokens rest →
    Spells (token :: tokens) (bytes ++ rest)

theorem spellsToken_literal {value : Bytes} (h : value.length ≤ maxLiteral) :
    SpellsToken (.string value) (literal value) := by
  intro tokens rest _ hrest
  have := Spells.literal false .crlf h hrest
  simpa [literal, LineEnd.bytes] using this

theorem spellsToken_string {value : Bytes} (h : value.length ≤ maxLiteral) :
    SpellsToken (.string value) (string value) := by
  rcases string_cases value with ⟨hq, hctl⟩ | hl
  · intro tokens rest _ hrest
    rw [hq]
    exact .quoted (quotable_of_not_control hctl) hrest
  · rw [hl]
    exact spellsToken_literal h

theorem isAtom_decimal (n : ℕ) : IsAtom (decimal n) := by
  refine ⟨decimal_ne_nil n, fun b hb => ?_⟩
  have hd := decimal_digits n b hb
  simp only [isAsciiDigit, Bool.and_eq_true, decide_eq_true_eq, UInt8.le_iff_toNat_le,
    UInt8.toNat_ofNat] at hd
  simp only [isAtomSpecial, isAsciiControl, Bool.or_eq_false_iff, beq_eq_false_iff_ne,
    decide_eq_false_iff_not, UInt8.lt_iff_toNat_lt, ne_eq, ← UInt8.toNat_inj, UInt8.toNat_ofNat]
  omega

theorem spellsToken_atom {value : Bytes} (h : IsAtom value) : SpellsToken (.atom value) value :=
  fun _ _ hopens hrest => .atom h hopens hrest

/-- A fitting argument is spelled as a token that carries it. -/
theorem Argument.Fits.spells {lib : Libraries} {argument : Argument} (h : argument.Fits lib) :
    ∃ token, SpellsToken token (argument.render lib) ∧ argument.Carries lib token := by
  cases argument with
  | string value => exact ⟨_, spellsToken_string h, rfl⟩
  | script value => exact ⟨_, spellsToken_literal h, rfl⟩
  | number value => exact ⟨_, spellsToken_atom (isAtom_decimal _), rfl⟩
  | payload value =>
    exact ⟨_, spellsToken_string h, _, rfl, lib.base64.decode_encode value⟩

/-- The arguments of a line are spelled one after the other. -/
theorem spells_arguments {lib : Libraries} {arguments : List Argument}
    (h : ∀ argument ∈ arguments, argument.Fits lib) :
    ∃ tokens, List.Forall₂ (Argument.Carries lib) arguments tokens ∧
      Spells tokens ((arguments.map (·.render lib)).flatMap (space :: ·) ++ crlf) := by
  induction arguments with
  | nil => exact ⟨[], .nil, .eol .crlf⟩
  | cons argument arguments ih =>
    obtain ⟨hfits, hrest⟩ := List.forall_mem_cons.1 h
    obtain ⟨tokens, hcarries, hspells⟩ := ih hrest
    obtain ⟨token, htoken, hcarry⟩ := hfits.spells
    have hopens : opensSpecial ((arguments.map (·.render lib)).flatMap (space :: ·) ++ crlf) =
        true := by cases arguments <;> rfl
    refine ⟨token :: tokens, .cons hcarry hcarries, ?_⟩
    have := Spells.blank (htoken _ _ hopens hspells)
    simpa using this

/-! ### Lengths -/

theorem length_literal_le {value : Bytes} (h : value.length ≤ maxLiteral) :
    (literal value).length ≤ value.length + 13 := by
  have hd : (decimal value.length).length ≤ 8 :=
    length_decimal_le (Nat.lt_of_le_of_lt h (by decide)) (by decide)
  simp only [literal, literalMarker, crlf, List.length_append, List.length_cons, List.length_nil,
    Bool.false_eq_true, if_false]
  omega

theorem length_string_le {value : Bytes} (h : value.length ≤ maxLiteral) :
    (string value).length ≤ 2 * value.length + 13 := by
  rcases string_cases value with ⟨hq, -⟩ | hl
  · have hescape : (value.flatMap escapeByte).length ≤ 2 * value.length := by
      clear h hq
      induction value with
      | nil => simp
      | cons b value ih =>
        have hb : (escapeByte b).length ≤ 2 := by
          unfold escapeByte
          split_ifs <;> simp
        simp only [List.flatMap_cons, List.length_append, List.length_cons]
        omega
    rw [hq, quoted]
    simp only [List.length_append, List.length_cons, List.length_nil]
    omega
  · rw [hl]
    have := length_literal_le h
    omega

theorem Argument.Fits.length_render_le {lib : Libraries} {argument : Argument}
    (h : argument.Fits lib) : (argument.render lib).length ≤ 2 * maxLiteral + 13 := by
  cases argument with
  | string value =>
    have hfits : value.length ≤ maxLiteral := h
    exact Nat.le_trans (length_string_le h) (by omega)
  | script value =>
    have hfits : value.length ≤ maxLiteral := h
    exact Nat.le_trans (length_literal_le h) (by omega)
  | number value =>
    have hlt : value.toNat < 10 ^ 10 := Nat.lt_trans value.toNat_lt (by decide)
    exact Nat.le_trans (length_decimal_le hlt (by decide)) (by omega)
  | payload value =>
    have hfits : (lib.base64.encode value).length ≤ maxLiteral := h
    exact Nat.le_trans (length_string_le h) (by omega)

theorem length_arguments_le {lib : Libraries} {arguments : List Argument}
    (h : ∀ argument ∈ arguments, argument.Fits lib) :
    ((arguments.map (·.render lib)).flatMap (space :: ·)).length ≤
      arguments.length * (2 * maxLiteral + 14) := by
  induction arguments with
  | nil => simp
  | cons argument arguments ih =>
    obtain ⟨hfits, hrest⟩ := List.forall_mem_cons.1 h
    have := hfits.length_render_le
    have := ih hrest
    simp only [List.map_cons, List.flatMap_cons, List.length_append, List.length_cons, Nat.add_mul,
      Nat.one_mul]
    omega

namespace ManagesieveCommand

theorem isAtom_verb (cmd : ManagesieveCommand) : IsAtom (asBytes cmd.verb) := by
  cases cmd <;> rw [verb] <;> decide +kernel

theorem length_verb_le (cmd : ManagesieveCommand) : (asBytes cmd.verb).length ≤ 14 := by
  cases cmd <;> rw [verb] <;> decide +kernel

theorem length_arguments_le_two (lib : Libraries) (cmd : ManagesieveCommand) :
    (cmd.arguments lib).length ≤ 2 := by
  cases cmd with
  | noop cmd => rcases cmd with ⟨_ | tag⟩ <;> simp [arguments]
  | authenticate cmd => rcases cmd with ⟨mechanism, _ | response⟩ <;> simp [arguments]
  | _ => simp [arguments]

theorem length_toBytes_le {lib : Libraries} {cmd : ManagesieveCommand}
    (h : ∀ argument ∈ cmd.arguments lib, argument.Fits lib) :
    (cmd.toBytes lib).length ≤ usizeMax := by
  have hargs := length_arguments_le h
  have hverb := cmd.length_verb_le
  have htwo := Nat.mul_le_mul_right (2 * maxLiteral + 14) (cmd.length_arguments_le_two lib)
  rw [toBytes_eq, commandLine]
  simp only [crlf, List.length_append, List.length_cons, List.length_nil]
  unfold maxLiteral at hargs htwo
  unfold usizeMax
  omega

/-- A command is one logical line, and carries its arguments. -/
theorem scanLine_command {lib : Libraries} {cmd : ManagesieveCommand}
    (h : ∀ argument ∈ cmd.arguments lib, argument.Fits lib) (tail : Bytes) :
    ∃ tokens, scanLine (cmd.toBytes lib ++ tail) =
        .ok (some (.atom (asBytes cmd.verb) :: tokens, (cmd.toBytes lib).length)) ∧
      List.Forall₂ (Argument.Carries lib) (cmd.arguments lib) tokens := by
  obtain ⟨tokens, hcarries, hspells⟩ := spells_arguments h
  have hopens : opensSpecial (((cmd.arguments lib).map (·.render lib)).flatMap (space :: ·) ++
      crlf) = true := by cases cmd.arguments lib <;> rfl
  have hline := Spells.atom cmd.isAtom_verb hopens hspells
  have hmax := length_toBytes_le h
  refine ⟨tokens, ?_, hcarries⟩
  rw [toBytes_eq, commandLine] at hmax ⊢
  exact scanLine_spells hline hmax tail

end ManagesieveCommand

/-! ## Reading a continuation line back -/

theorem encode_ne_star (lib : Libraries) (payload : Bytes) :
    lib.base64.encode payload ≠ [star] := by
  intro h
  have := lib.base64.encode_alphabet payload star (by rw [h]; simp)
  revert this
  decide

/-- A continuation line is one string, which carries the payload. -/
theorem scanLine_clientResponse {lib : Libraries} {payload : Bytes}
    (h : (lib.base64.encode payload).length ≤ maxLiteral) (tail : Bytes) :
    scanLine (clientResponse lib payload ++ tail) =
      .ok (some ([.string (lib.base64.encode payload)], (clientResponse lib payload).length)) := by
  have hspells := spellsToken_string h [] crlf rfl (.eol .crlf)
  refine scanLine_spells hspells ?_ tail
  have := length_string_le h
  simp only [crlf, List.length_append, List.length_cons, List.length_nil]
  unfold maxLiteral at h
  unfold usizeMax
  omega

/-- **Every command is exactly one logical line that carries exactly its arguments**, and so is
every continuation line, which is never the cancellation of the exchange. -/
theorem ManagesieveCommand.scanLine_toBytes (lib : Libraries) :
    (∀ cmd : ManagesieveCommand, (∀ argument ∈ cmd.arguments lib, argument.Fits lib) →
      ∀ tail, ∃ tokens, scanLine (cmd.toBytes lib ++ tail) =
          .ok (some (.atom (asBytes cmd.verb) :: tokens, (cmd.toBytes lib).length)) ∧
        List.Forall₂ (Argument.Carries lib) (cmd.arguments lib) tokens) ∧
    ∀ payload, (Argument.payload payload).Fits lib → ∀ tail, ∃ token,
      scanLine (clientResponse lib payload ++ tail) =
          .ok (some ([token], (clientResponse lib payload).length)) ∧
        (Argument.payload payload).Carries lib token ∧ token ≠ .string [star] := by
  refine ⟨fun cmd h tail => scanLine_command h tail, fun payload h tail => ?_⟩
  refine ⟨_, scanLine_clientResponse h tail, ⟨_, rfl, lib.base64.decode_encode payload⟩, ?_⟩
  rw [Ne, Token.string.injEq]
  exact encode_ne_star lib payload

/-- A script name that holds a quote, a line end and another command is one argument. -/
theorem ManagesieveCommand.scanLine_toBytes_rename :
    ∃ tokens, scanLine
      (toBytes .standard (.renameScript ⟨"a\"\\", "b\r\nLOGOUT\r\n"⟩) ++ asBytes "x") =
        .ok (some (.atom (asBytes "RENAMESCRIPT") :: tokens, 41)) ∧
      List.Forall₂ (Argument.Carries .standard)
        [.string (asBytes "a\"\\"), .string (asBytes "b\r\nLOGOUT\r\n")] tokens := by
  have h := (scanLine_toBytes .standard).1 (.renameScript ⟨"a\"\\", "b\r\nLOGOUT\r\n"⟩)
    (by decide +kernel) (asBytes "x")
  exact h

end ManageSieve
