import ManageSieve.Rfc5804.Commands
import ManageSieve.Wire.Framing

/-!
# Reading the client back

What a client writes is a sequence of lines: commands, the continuation lines of an authentication
exchange, and its cancellation. `ClientLine.ofTokens` tells from the tokens of a logical line which
one it is. The main result, `ClientLine.items_stream`, says that the octets of any sequence of such
lines are read back as that sequence, whatever the names, scripts and payloads hold.

A command is read back up to `ManagesieveCommand.normal`: SETACTIVE with an empty name is written as
SETACTIVE without one is.
-/

namespace ManageSieve

open Incremental

/-- Text is read back from its octets. -/
theorem text_asBytes (s : String) : text (asBytes s) = s := by
  have hbytes : asBytes s = s.toList.flatMap String.utf8EncodeChar := by
    rw [asBytes, ← String.utf8Encode_toList, List.utf8Encode, List.toList_data_toByteArray]
  rw [text, Utf8.decodeLossy, hbytes, Utf8.decodeLossyChars_encode, String.ofList_toList]

/-- A number is read back from its digits. -/
theorem parseU32_decimal (n : UInt32) : parseU32 (decimal n.toNat) = some n.toNat := by
  rw [parseU32, decimalValue_decimal, if_pos n.toNat_lt]

/-! ## Commands -/

/-- The tags of the mechanisms. -/
def SaslMechanism.all : List SaslMechanism :=
  [anonymous, cramMd5, external, gs2Krb5, gs2Krb5Plus, gssapi, login, oauthBearer, plain, scramSha1,
    scramSha1Plus, scramSha256, scramSha256Plus, scramSha512, scramSha512Plus, xoauth2]

theorem SaslMechanism.mem_all (mechanism : SaslMechanism) : mechanism ∈ all := by
  cases mechanism <;> decide

theorem Libraries.standard_asStr_injective : Function.Injective Libraries.standard.asStr := by
  have key : ∀ a ∈ SaslMechanism.all, ∀ b ∈ SaslMechanism.all,
      Libraries.standard.asStr a = Libraries.standard.asStr b → a = b := by decide +kernel
  exact fun a b => key a a.mem_all b b.mem_all

/-- The mechanism of this name. -/
def SaslMechanism.ofName (lib : Libraries) (name : String) : Option SaslMechanism :=
  all.find? fun mechanism => lib.asStr mechanism = name

theorem SaslMechanism.ofName_asStr {lib : Libraries} (h : Function.Injective lib.asStr)
    (mechanism : SaslMechanism) : ofName lib (lib.asStr mechanism) = some mechanism := by
  obtain ⟨found, hfound⟩ : ∃ found, ofName lib (lib.asStr mechanism) = some found := by
    rw [← Option.isSome_iff_exists, ofName, List.find?_isSome]
    exact ⟨mechanism, mechanism.mem_all, by simp⟩
  have hname := List.find?_some hfound
  rw [hfound, h (of_decide_eq_true hname)]

namespace ManagesieveCommand

/-- The command that this verb and these arguments make. -/
def ofArguments (lib : Libraries) : String → List Token → Option ManagesieveCommand
  | "HAVESPACE", [.string name, .atom size] =>
    (parseU32 size).map fun size => .haveSpace ⟨text name, UInt32.ofNat size⟩
  | "PUTSCRIPT", [.string name, .string script] => some (.putScript ⟨text name, script⟩)
  | "GETSCRIPT", [.string name] => some (.getScript ⟨text name⟩)
  | "SETACTIVE", [.string name] =>
    some (.setActive ⟨if text name = "" then none else some (text name)⟩)
  | "DELETESCRIPT", [.string name] => some (.deleteScript ⟨text name⟩)
  | "RENAMESCRIPT", [.string name, .string newName] =>
    some (.renameScript ⟨text name, text newName⟩)
  | "CHECKSCRIPT", [.string script] => some (.checkScript ⟨script⟩)
  | "NOOP", [] => some (.noop ⟨none⟩)
  | "NOOP", [.string tag] => some (.noop ⟨some (text tag)⟩)
  | "AUTHENTICATE", [.string name] =>
    (SaslMechanism.ofName lib (text name)).map fun mechanism => .authenticate ⟨mechanism, none⟩
  | "AUTHENTICATE", [.string name, .string response] =>
    match SaslMechanism.ofName lib (text name), lib.base64.decode response with
    | some mechanism, some response => some (.authenticate ⟨mechanism, some response⟩)
    | _, _ => none
  | "CAPABILITY", [] => some .capability
  | "LISTSCRIPTS", [] => some .listScripts
  | "STARTTLS", [] => some .startTls
  | "LOGOUT", [] => some .logout
  | "UNAUTHENTICATE", [] => some .unauthenticate
  | _, _ => none

/-- The command as it is read back. -/
def normal : ManagesieveCommand → ManagesieveCommand
  | .setActive cmd => .setActive ⟨if cmd.name = some "" then none else cmd.name⟩
  | cmd => cmd

/-- Tokens that carry the arguments of a command make it. -/
theorem ofArguments_of_carries {lib : Libraries} (h : Function.Injective lib.asStr)
    (cmd : ManagesieveCommand) {tokens : List Token}
    (hcarries : List.Forall₂ (Argument.Carries lib) (cmd.arguments lib) tokens) :
    ofArguments lib cmd.verb tokens = some cmd.normal := by
  cases cmd with
  | haveSpace cmd =>
    obtain _ | ⟨rfl, _ | ⟨rfl, _ | _⟩⟩ := hcarries
    simp [ofArguments, verb, normal, text_asBytes, parseU32_decimal]
  | putScript cmd =>
    obtain _ | ⟨rfl, _ | ⟨rfl, _ | _⟩⟩ := hcarries
    simp [ofArguments, verb, normal, text_asBytes]
  | getScript cmd =>
    obtain _ | ⟨rfl, _ | _⟩ := hcarries
    simp [ofArguments, verb, normal, text_asBytes]
  | setActive cmd =>
    obtain _ | ⟨rfl, _ | _⟩ := hcarries
    rcases cmd with ⟨_ | name⟩ <;> simp [ofArguments, verb, normal, text_asBytes]
  | deleteScript cmd =>
    obtain _ | ⟨rfl, _ | _⟩ := hcarries
    simp [ofArguments, verb, normal, text_asBytes]
  | renameScript cmd =>
    obtain _ | ⟨rfl, _ | ⟨rfl, _ | _⟩⟩ := hcarries
    simp [ofArguments, verb, normal, text_asBytes]
  | checkScript cmd =>
    obtain _ | ⟨rfl, _ | _⟩ := hcarries
    simp [ofArguments, verb, normal]
  | noop cmd =>
    rcases cmd with ⟨_ | tag⟩
    · obtain _ | _ := hcarries
      rfl
    · obtain _ | ⟨rfl, _ | _⟩ := hcarries
      simp [ofArguments, verb, normal, text_asBytes]
  | authenticate cmd =>
    rcases cmd with ⟨mechanism, _ | response⟩
    · obtain _ | ⟨rfl, _ | _⟩ := hcarries
      simp [ofArguments, verb, normal, text_asBytes, SaslMechanism.ofName_asStr h]
    · obtain _ | ⟨rfl, _ | ⟨⟨txt, rfl, htxt⟩, _ | _⟩⟩ := hcarries
      simp [ofArguments, verb, normal, text_asBytes, SaslMechanism.ofName_asStr h, htxt]
  | capability | listScripts | startTls | logout | unauthenticate =>
    obtain _ | _ := hcarries
    rfl

end ManagesieveCommand

/-! ## Lines -/

/-- A line that a client writes. -/
inductive ClientLine
  | command (cmd : ManagesieveCommand)
  /-- A continuation line of an authentication exchange. -/
  | response (payload : Bytes)
  /-- The line that cancels an authentication exchange. -/
  | cancel

namespace ClientLine

/-- The line as it is written. -/
def toBytes (lib : Libraries) : ClientLine → Bytes
  | command cmd => cmd.toBytes lib
  | response payload => clientResponse lib payload
  | cancel => cancellation

/-- What the line carries fits into the largest literal that is read. -/
def Fits (lib : Libraries) : ClientLine → Prop
  | command cmd => ∀ argument ∈ cmd.arguments lib, argument.Fits lib
  | response payload => (Argument.payload payload).Fits lib
  | cancel => True

/-- The line as it is read back. -/
def normal : ClientLine → ClientLine
  | command cmd => command cmd.normal
  | line => line

/-- The line with these tokens. -/
def ofTokens (lib : Libraries) : List Token → Option ClientLine
  | [.string txt] => if txt = [star] then some cancel else (lib.base64.decode txt).map response
  | .atom verb :: tokens => (ManagesieveCommand.ofArguments lib (text verb) tokens).map command
  | _ => none

variable {lib : Libraries}

/-- A line is scanned as tokens that tell which one it is. -/
theorem Fits.reads (h : Function.Injective lib.asStr) {line : ClientLine} (hfits : line.Fits lib) :
    ∃ tokens, scanLineParser.Reads (line.toBytes lib) tokens ∧
      ofTokens lib tokens = some line.normal := by
  cases line with
  | command cmd =>
    obtain ⟨tokens, hscan, hcarries⟩ := ManagesieveCommand.scanLine_command hfits []
    rw [List.append_nil] at hscan
    refine ⟨_, fun t => scanLineParser.some_append hscan t, ?_⟩
    rw [ofTokens, text_asBytes, ManagesieveCommand.ofArguments_of_carries h cmd hcarries]
    rfl
  | response payload =>
    refine ⟨_, scanLine_clientResponse hfits, ?_⟩
    rw [ofTokens, if_neg (encode_ne_star lib payload), lib.base64.decode_encode]
    rfl
  | cancel =>
    have hscan : scanLine cancellation = .ok (some ([.string [star]], 5)) := by decide +kernel
    exact ⟨_, fun t => scanLineParser.some_append hscan t, rfl⟩

/-- The lines of a stream are scanned as tokens that tell which ones they are. -/
theorem items_lines (h : Function.Injective lib.asStr) {lines : List ClientLine}
    (hfits : ∀ line ∈ lines, line.Fits lib) :
    ∃ items, scanLineParser.items (lines.flatMap (toBytes lib)) = (items, none) ∧
      items.map (fun item => ofTokens lib item.1) = lines.map (fun line => some line.normal) ∧
      items.map Prod.snd = lines.map (fun line => (line.toBytes lib).length) := by
  have hreads : ∃ encs : List (Bytes × List Token), encs.map Prod.fst = lines.map (toBytes lib) ∧
      (∀ x ∈ encs, scanLineParser.Reads x.1 x.2) ∧
      encs.map (fun x => ofTokens lib x.2) = lines.map (fun line => some line.normal) := by
    induction lines with
    | nil => exact ⟨[], rfl, by simp, rfl⟩
    | cons line lines ih =>
      obtain ⟨hline, hlines⟩ := List.forall_mem_cons.1 hfits
      obtain ⟨encs, hencs, hall, hofTokens⟩ := ih hlines
      obtain ⟨tokens, htokens, hof⟩ := hline.reads h
      refine ⟨(line.toBytes lib, tokens) :: encs, ?_, ?_, ?_⟩
      · rw [List.map_cons, List.map_cons, hencs]
      · exact List.forall_mem_cons.2 ⟨htokens, hall⟩
      · rw [List.map_cons, List.map_cons, hof, hofTokens]
  obtain ⟨encs, hencs, hall, hofTokens⟩ := hreads
  have hitems := Parser.items_reads hall []
  have hnil : scanLineParser.items [] = ([], none) := Parser.items_none (by decide +kernel)
  rw [List.append_nil, hnil, List.append_nil, hencs, ← List.flatMap_def] at hitems
  refine ⟨_, hitems, ?_, ?_⟩
  · rw [List.map_map]
    exact hofTokens
  · have hlengths := congrArg (List.map List.length) hencs
    simpa [Function.comp_def] using hlengths

/-- **What a client writes is read back line by line**: neither do two lines run into one, nor does
anything in a name, a script or a payload start a line of its own, and nothing is left over. So no
two sequences of lines are written in the same octets, but for how they are read back. -/
theorem items_stream (h : Function.Injective lib.asStr) {lines : List ClientLine}
    (hfits : ∀ line ∈ lines, line.Fits lib) :
    (∃ items, scanLineParser.items (lines.flatMap (toBytes lib)) = (items, none) ∧
      items.map (fun item => ofTokens lib item.1) = lines.map (fun line => some line.normal) ∧
      items.map Prod.snd = lines.map (fun line => (line.toBytes lib).length)) ∧
    ∀ lines' : List ClientLine, (∀ line ∈ lines', line.Fits lib) →
      lines'.flatMap (toBytes lib) = lines.flatMap (toBytes lib) →
        lines'.map normal = lines.map normal := by
  obtain ⟨items, hitems, hof, hlengths⟩ := items_lines h hfits
  refine ⟨⟨items, hitems, hof, hlengths⟩, fun lines' hfits' heq => ?_⟩
  obtain ⟨items', hitems', hof', -⟩ := items_lines h hfits'
  rw [heq, hitems] at hitems'
  cases hitems'
  have hsome : (lines'.map normal).map some = (lines.map normal).map some := by
    simpa [Function.comp_def] using hof'.symm.trans hof
  exact List.map_injective_iff.2 (Option.some_injective _) hsome

/-- An exchange that is cancelled, and a script whose name and text hold line ends and quotes. -/
theorem items_stream_cancelled :
    let lines : List ClientLine := [.command (.authenticate ⟨.plain, some [0x00, 0x61]⟩),
      .response [0x2A], .cancel,
      .command (.putScript ⟨"a\"\r\nLOGOUT", asBytes "keep;\r\n\"*\"\r\n"⟩),
      .command (.setActive ⟨some ""⟩), .command .logout]
    ∃ items, scanLineParser.items (lines.flatMap (toBytes .standard)) = (items, none) ∧
      items.map (fun item => ofTokens .standard item.1) =
        lines.map (fun line => some line.normal) := by
  intro lines
  have hfits : ∀ line ∈ lines, line.Fits .standard := by
    simp only [lines, List.forall_mem_cons, List.not_mem_nil, false_implies, implies_true, and_true]
    refine ⟨?_, ?_, trivial, ?_, ?_, ?_⟩ <;> unfold Fits <;> decide +kernel
  obtain ⟨⟨items, hitems, hof, -⟩, -⟩ := items_stream Libraries.standard_asStr_injective hfits
  exact ⟨items, hitems, hof⟩

end ClientLine

end ManageSieve
