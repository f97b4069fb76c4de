import ManageSieve.Rfc5804.Scripts
import ManageSieve.Wire.Rendering

/-!
# What the other commands end on

The coroutines of `logout.rs`, `noop.rs`, `unauthenticate.rs`, `havespace.rs`, `putscript.rs`,
`checkscript.rs`, `setactive.rs`, `deletescript.rs` and `renamescript.rs`. Each of them sends its
command, refuses a response that is not OK with its completion, and makes something of an accepted
one (`ManagesieveCommandSend.finishWith`).

`commands_outcome` says of all of them what they end on for a response in any of its renderings, cut
into reads in any way.
-/

namespace ManageSieve

open Coroutine

/-- Failure causes of a command: the server refused it, or the exchange failed. -/
inductive ManagesieveCommandError
  | rejected (completion : ManagesieveCompletion)
  | send (err : ManagesieveCommandSendError)
  deriving DecidableEq

/-- What a command ends on that makes `accept` of an accepted response. -/
def ManagesieveCommandSend.finishWith {A : Type*} (accept : ManagesieveResponse → A) :
    ManagesieveResponseRead.Return → Except ManagesieveCommandError A
  | .error err => .error (.send err)
  | .ok out =>
    match out.response.intoResult with
    | .error completion => .error (.rejected completion)
    | .ok response => .ok (accept response)

/-- The warning text that a server attached to an accepted script. -/
def ManagesieveCompletion.warnings (self : ManagesieveCompletion) : Option String :=
  match self.code with
  | some .warnings => self.text
  | _ => none

/-- The tag that a completion echoes. -/
def ManagesieveCompletion.tag (self : ManagesieveCompletion) : Option String :=
  match self.code with
  | some (.tag tag) => some tag
  | _ => none

/-! ## The coroutines -/

abbrev ManagesieveLogoutError := ManagesieveCommandError

/-- I/O-free LOGOUT coroutine. -/
abbrev ManagesieveLogout := ManagesieveCommandSend

namespace ManagesieveLogout

def new : ManagesieveLogout := ManagesieveCommandSend.new ManagesieveLogoutCommand.toBytes

def finish : ManagesieveResponseRead.Return → Except ManagesieveLogoutError Unit :=
  ManagesieveCommandSend.finishWith fun _ => ()

def machine :
    Machine ManagesieveLogout UInt8 ManagesieveYield (Except ManagesieveLogoutError Unit) :=
  ManagesieveCommandSend.machine.mapDone finish

end ManagesieveLogout

abbrev ManagesieveNoopError := ManagesieveCommandError

/-- I/O-free NOOP coroutine. -/
abbrev ManagesieveNoop := ManagesieveCommandSend

namespace ManagesieveNoop

/-- A coroutine that asks the server to echo `tag` back, if there is one. -/
def new (tag : Option String) : ManagesieveNoop :=
  ManagesieveCommandSend.new (ManagesieveNoopCommand.toBytes ⟨tag⟩)

/-- The tag that the server echoed, whether or not it is the one that was sent. -/
def finish : ManagesieveResponseRead.Return → Except ManagesieveNoopError (Option String) :=
  ManagesieveCommandSend.finishWith fun response => response.completion.tag

def machine :
    Machine ManagesieveNoop UInt8 ManagesieveYield (Except ManagesieveNoopError (Option String)) :=
  ManagesieveCommandSend.machine.mapDone finish

end ManagesieveNoop

abbrev ManagesieveUnauthenticateError := ManagesieveCommandError

/-- I/O-free UNAUTHENTICATE coroutine. -/
abbrev ManagesieveUnauthenticate := ManagesieveCommandSend

namespace ManagesieveUnauthenticate

def new : ManagesieveUnauthenticate :=
  ManagesieveCommandSend.new ManagesieveUnauthenticateCommand.toBytes

def finish : ManagesieveResponseRead.Return → Except ManagesieveUnauthenticateError Unit :=
  ManagesieveCommandSend.finishWith fun _ => ()

def machine : Machine ManagesieveUnauthenticate UInt8 ManagesieveYield
    (Except ManagesieveUnauthenticateError Unit) :=
  ManagesieveCommandSend.machine.mapDone finish

end ManagesieveUnauthenticate

abbrev ManagesieveHaveSpaceError := ManagesieveCommandError

/-- I/O-free HAVESPACE coroutine. -/
abbrev ManagesieveHaveSpace := ManagesieveCommandSend

namespace ManagesieveHaveSpace

/-- A coroutine that asks whether `size` octets fit under `name`. -/
def new (name : String) (size : UInt32) : ManagesieveHaveSpace :=
  ManagesieveCommandSend.new (ManagesieveHaveSpaceCommand.toBytes ⟨name, size⟩)

def finish : ManagesieveResponseRead.Return → Except ManagesieveHaveSpaceError Unit :=
  ManagesieveCommandSend.finishWith fun _ => ()

def machine :
    Machine ManagesieveHaveSpace UInt8 ManagesieveYield (Except ManagesieveHaveSpaceError Unit) :=
  ManagesieveCommandSend.machine.mapDone finish

end ManagesieveHaveSpace

abbrev ManagesieveScriptPutError := ManagesieveCommandError

/-- I/O-free PUTSCRIPT coroutine. -/
abbrev ManagesieveScriptPut := ManagesieveCommandSend

namespace ManagesieveScriptPut

/-- A coroutine that stores `script` under `name`. -/
def new (name : String) (script : Bytes) : ManagesieveScriptPut :=
  ManagesieveCommandSend.new (ManagesieveScriptPutCommand.toBytes ⟨name, script⟩)

def finish : ManagesieveResponseRead.Return → Except ManagesieveScriptPutError (Option String) :=
  ManagesieveCommandSend.finishWith fun response => response.completion.warnings

def machine : Machine ManagesieveScriptPut UInt8 ManagesieveYield
    (Except ManagesieveScriptPutError (Option String)) :=
  ManagesieveCommandSend.machine.mapDone finish

end ManagesieveScriptPut

abbrev ManagesieveScriptCheckError := ManagesieveCommandError

/-- I/O-free CHECKSCRIPT coroutine. -/
abbrev ManagesieveScriptCheck := ManagesieveCommandSend

namespace ManagesieveScriptCheck

/-- A coroutine that has `script` checked without storing it. -/
def new (script : Bytes) : ManagesieveScriptCheck :=
  ManagesieveCommandSend.new (ManagesieveScriptCheckCommand.toBytes ⟨script⟩)

def finish : ManagesieveResponseRead.Return → Except ManagesieveScriptCheckError (Option String) :=
  ManagesieveCommandSend.finishWith fun response => response.completion.warnings

def machine : Machine ManagesieveScriptCheck UInt8 ManagesieveYield
    (Except ManagesieveScriptCheckError (Option String)) :=
  ManagesieveCommandSend.machine.mapDone finish

end ManagesieveScriptCheck

abbrev ManagesieveScriptActivateError := ManagesieveCommandError

/-- I/O-free SETACTIVE coroutine. -/
abbrev ManagesieveScriptActivate := ManagesieveCommandSend

namespace ManagesieveScriptActivate

/-- A coroutine that activates `name`, or deactivates whichever script is active. -/
def new (name : Option String) : ManagesieveScriptActivate :=
  ManagesieveCommandSend.new (ManagesieveScriptActivateCommand.toBytes ⟨name⟩)

def finish : ManagesieveResponseRead.Return → Except ManagesieveScriptActivateError Unit :=
  ManagesieveCommandSend.finishWith fun _ => ()

def machine : Machine ManagesieveScriptActivate UInt8 ManagesieveYield
    (Except ManagesieveScriptActivateError Unit) :=
  ManagesieveCommandSend.machine.mapDone finish

end ManagesieveScriptActivate

abbrev ManagesieveScriptDeleteError := ManagesieveCommandError

/-- I/O-free DELETESCRIPT coroutine. -/
abbrev ManagesieveScriptDelete := ManagesieveCommandSend

namespace ManagesieveScriptDelete

/-- A coroutine that deletes `name`. -/
def new (name : String) : ManagesieveScriptDelete :=
  ManagesieveCommandSend.new (ManagesieveScriptDeleteCommand.toBytes ⟨name⟩)

def finish : ManagesieveResponseRead.Return → Except ManagesieveScriptDeleteError Unit :=
  ManagesieveCommandSend.finishWith fun _ => ()

def machine : Machine ManagesieveScriptDelete UInt8 ManagesieveYield
    (Except ManagesieveScriptDeleteError Unit) :=
  ManagesieveCommandSend.machine.mapDone finish

end ManagesieveScriptDelete

abbrev ManagesieveScriptRenameError := ManagesieveCommandError

/-- I/O-free RENAMESCRIPT coroutine. -/
abbrev ManagesieveScriptRename := ManagesieveCommandSend

namespace ManagesieveScriptRename

/-- A coroutine that renames `name` to `newName`. -/
def new (name newName : String) : ManagesieveScriptRename :=
  ManagesieveCommandSend.new (ManagesieveScriptRenameCommand.toBytes ⟨name, newName⟩)

def finish : ManagesieveResponseRead.Return → Except ManagesieveScriptRenameError Unit :=
  ManagesieveCommandSend.finishWith fun _ => ()

def machine : Machine ManagesieveScriptRename UInt8 ManagesieveYield
    (Except ManagesieveScriptRenameError Unit) :=
  ManagesieveCommandSend.machine.mapDone finish

end ManagesieveScriptRename

/-! ## What they end on -/

namespace ManagesieveCommandSend

/-- What a command ends on, by the status of the response. -/
def outcome {A : Type*} (accept : ManagesieveResponse → A) (response : ManagesieveResponse) :
    Except ManagesieveCommandError A :=
  if response.completion.status = .ok then .ok (accept response)
  else .error (.rejected response.completion)

theorem finishWith_ok {A : Type*} (accept : ManagesieveResponse → A)
    (response : ManagesieveResponse) (trailing : Bytes) :
    finishWith accept (.ok ⟨response, trailing⟩) = outcome accept response := by
  unfold finishWith outcome
  dsimp only
  by_cases h : response.completion.status = .ok
  · rw [ManagesieveResponse.intoResult_of_ok h, if_pos h]
  · rw [ManagesieveResponse.intoResult_of_ne h, if_neg h]

/-- A command ends by the status of its response, wherever the reads are cut. -/
theorem result_eq_outcome {A : Type*} (accept : ManagesieveResponse → A) (command : Bytes)
    {response : ManagesieveResponse} {b : Bytes} {n : ℕ} {cs : List Bytes} (hcs : Cuts cs b)
    (hlen : b.length ≤ maxResponse) (hp : ManagesieveResponse.parse b = .ok (some (response, n))) :
    ((machine.mapDone (finishWith accept)).drive (new command) none cs).pause.result =
      some (outcome accept response) := by
  obtain ⟨trailing, h⟩ := result_of_parse hcs hlen hp (finishWith accept) command
  rw [h, finishWith_ok]

theorem outcome_eq_ok_iff {A : Type*} {accept : ManagesieveResponse → A}
    {response : ManagesieveResponse} {a : A} :
    outcome accept response = .ok a ↔ response.completion.status = .ok ∧ accept response = a := by
  unfold outcome
  split <;> simp [*]

theorem outcome_eq_error_iff {A : Type*} {accept : ManagesieveResponse → A}
    {response : ManagesieveResponse} {completion : ManagesieveCompletion} :
    outcome accept response = .error (.rejected completion) ↔
      response.completion.status ≠ .ok ∧ response.completion = completion := by
  unfold outcome
  split <;> simp [*]

end ManagesieveCommandSend

theorem ManagesieveCompletion.warnings_eq_some_iff {completion : ManagesieveCompletion}
    {warnings : String} :
    completion.warnings = some warnings ↔
      completion.code = some .warnings ∧ completion.text = some warnings := by
  unfold ManagesieveCompletion.warnings
  split <;> simp_all

theorem ManagesieveCompletion.tag_eq_some_iff {completion : ManagesieveCompletion} {tag : String} :
    completion.tag = some tag ↔ completion.code = some (.tag tag) := by
  unfold ManagesieveCompletion.tag
  split <;> simp_all

/-- **What the commands end on is what the server answered**, in any of the renderings of its
response, cut into reads in any way and whatever follows it: a command is accepted on OK and only
then, warnings are the text under the WARNINGS code, a tag is the one that the server echoed, and a
refusal hands over the whole completion. -/
theorem commands_outcome {response : ManagesieveResponse} {bytes tail : Bytes} {cs : List Bytes}
    (h : Renders response bytes) (hcs : Cuts cs (bytes ++ tail))
    (hlen : (bytes ++ tail).length ≤ maxResponse) (name newName : String) (size : UInt32)
    (script : Bytes) (active tag : Option String) :
    let accepted := response.completion.status = .ok
    let rejected : ManagesieveCommandError := .rejected response.completion
    let noop := (ManagesieveNoop.machine.drive (.new tag) none cs).pause.result
    (∀ result ∈ [(ManagesieveLogout.machine.drive .new none cs).pause.result,
        (ManagesieveUnauthenticate.machine.drive .new none cs).pause.result,
        (ManagesieveHaveSpace.machine.drive (.new name size) none cs).pause.result,
        (ManagesieveScriptActivate.machine.drive (.new active) none cs).pause.result,
        (ManagesieveScriptDelete.machine.drive (.new name) none cs).pause.result,
        (ManagesieveScriptRename.machine.drive (.new name newName) none cs).pause.result],
      (accepted → result = some (.ok ())) ∧ (¬ accepted → result = some (.error rejected))) ∧
    (∀ result ∈ [(ManagesieveScriptPut.machine.drive (.new name script) none cs).pause.result,
        (ManagesieveScriptCheck.machine.drive (.new script) none cs).pause.result],
      (accepted → ∃ warnings, result = some (.ok warnings) ∧
        ∀ txt, warnings = some txt ↔
          response.completion.code = some .warnings ∧ response.completion.text = some txt) ∧
      (¬ accepted → result = some (.error rejected))) ∧
    (accepted → ∃ echoed, noop = some (.ok echoed) ∧
      ∀ txt, echoed = some txt ↔ response.completion.code = some (.tag txt)) ∧
    (¬ accepted → noop = some (.error rejected)) := by
  have hmax : bytes.length ≤ usizeMax := by
    rw [List.length_append] at hlen
    unfold maxResponse maxLiteral at hlen
    unfold usizeMax
    omega
  have hp := (h.readsLines hmax).parse tail
  -- all of them are one coroutine, up to the command and what is made of the response
  have hresult : ∀ {A : Type} (accept : ManagesieveResponse → A) (command : Bytes),
      ((ManagesieveCommandSend.machine.mapDone (ManagesieveCommandSend.finishWith accept)).drive
        (.new command) none cs).pause.result =
        some (ManagesieveCommandSend.outcome accept response) :=
    fun accept command => ManagesieveCommandSend.result_eq_outcome accept command hcs hlen hp
  have hrefused : ∀ {A : Type} (accept : ManagesieveResponse → A),
      response.completion.status ≠ .ok → ManagesieveCommandSend.outcome accept response =
        .error (.rejected response.completion) :=
    fun accept hne => ManagesieveCommandSend.outcome_eq_error_iff.2 ⟨hne, rfl⟩
  have hunit := fun command => hresult (fun _ => ()) command
  have hwarn := fun command => hresult (fun response => response.completion.warnings) command
  have htag := hresult (fun response => response.completion.tag)
    (ManagesieveNoopCommand.toBytes ⟨tag⟩)
  intro accepted rejected noop
  refine ⟨?_, ?_, fun hok => ?_, fun hne => ?_⟩
  · have key : ∀ result, result = some (ManagesieveCommandSend.outcome (fun _ => ()) response) →
        (accepted → result = some (.ok ())) ∧ (¬ accepted → result = some (.error rejected)) := by
      rintro _ rfl
      refine ⟨fun hok => ?_, fun hne => ?_⟩
      · rw [ManagesieveCommandSend.outcome_eq_ok_iff.2 ⟨hok, rfl⟩]
      · rw [hrefused _ hne]
    simp only [List.forall_mem_cons, List.not_mem_nil, false_implies, implies_true, and_true]
    exact ⟨key _ (hunit _), key _ (hunit _), key _ (hunit _), key _ (hunit _), key _ (hunit _),
      key _ (hunit _)⟩
  · have key : ∀ result, result = some (ManagesieveCommandSend.outcome
        (fun response => response.completion.warnings) response) →
        (accepted → ∃ warnings, result = some (.ok warnings) ∧ ∀ txt, warnings = some txt ↔
          response.completion.code = some .warnings ∧ response.completion.text = some txt) ∧
        (¬ accepted → result = some (.error rejected)) := by
      rintro _ rfl
      refine ⟨fun hok => ⟨response.completion.warnings, ?_, fun txt => ?_⟩, fun hne => ?_⟩
      · rw [ManagesieveCommandSend.outcome_eq_ok_iff.2 ⟨hok, rfl⟩]
      · exact ManagesieveCompletion.warnings_eq_some_iff
      · rw [hrefused _ hne]
    simp only [List.forall_mem_cons, List.not_mem_nil, false_implies, implies_true, and_true]
    exact ⟨key _ (hwarn _), key _ (hwarn _)⟩
  · refine ⟨response.completion.tag, htag.trans ?_, fun txt => ?_⟩
    · rw [ManagesieveCommandSend.outcome_eq_ok_iff.2 ⟨hok, rfl⟩]
    · exact ManagesieveCompletion.tag_eq_some_iff
  · exact htag.trans (by rw [hrefused _ hne])

/-- A refused upload whose refusal is spelled in lower case and comes in three reads. -/
theorem commands_outcome_quota :
    (ManagesieveScriptPut.machine.drive (.new "a" (asBytes "keep;")) none
        [asBytes "no (quota/", asBytes "MaxSize) \"full\"\r", asBytes "\nOK\r\n"]).pause.result =
      some (.error (.rejected
        ⟨.no, some (.quota (some .maxSize)), some (text (asBytes "full"))⟩)) := by
  have hrefines : Refines "QUOTA" (asBytes "quota" ++ slash :: asBytes "MaxSize")
      (some (asBytes "MaxSize")) := .detail _ (by decide +kernel)
  have hcode : RendersCode (.quota (some .maxSize)) _ [] :=
    .quota (by decide +kernel : ("MAXSIZE", _) ∈ quotaNames) hrefines (by decide +kernel)
  have hrenders : Renders ⟨[], ⟨.no, some (.quota (some .maxSize)), some (text (asBytes "full"))⟩⟩
      _ :=
    .completion (.line (by decide +kernel : eqIgnoreAsciiCase (asBytes "no") _ = true)
      (.some hcode (by simp)) (.some (asBytes "full"))
      (.atom (by decide +kernel) (by decide +kernel) (.blank (.open_ (.atom (by decide +kernel)
        (by decide +kernel) (.close (.blank (.quoted (by decide +kernel) (.eol .crlf)))))))))
  have h := @commands_outcome _ _ (asBytes "OK\r\n")
    [asBytes "no (quota/", asBytes "MaxSize) \"full\"\r", asBytes "\nOK\r\n"] hrenders
    ⟨by decide +kernel, by decide +kernel⟩ (by decide +kernel) "a" "" 0 (asBytes "keep;") none none
  exact (h.2.1 _ List.mem_cons_self).2 (by decide)

end ManageSieve
