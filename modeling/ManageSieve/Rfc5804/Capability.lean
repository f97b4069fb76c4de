import ManageSieve.Rfc5804.Commands
import ManageSieve.Send

/-!
# Capabilities, the greeting and STARTTLS

The coroutines of `capability.rs`, `greeting.rs` and `starttls.rs`. Each of them is one of the base
coroutines and an interpretation of the response it ends on.
-/

namespace ManageSieve

open Coroutine

/-! ## Capabilities -/

/-- One capability line, a name and the value it may carry. -/
structure ManagesieveCapability where
  name : String
  value : Option String
  deriving DecidableEq

/-- The capability set a server advertises. -/
structure ManagesieveCapabilities where
  capabilities : List ManagesieveCapability
  deriving DecidableEq

namespace ManagesieveCapabilities

/-- The empty set, `ManagesieveCapabilities::default`. -/
def default : ManagesieveCapabilities := ⟨[]⟩

/-- The capability of a data line, when the line opens on a string. -/
def parseLine (line : ManagesieveDataLine) : Option ManagesieveCapability :=
  (line.string 0).map fun name => ⟨text name, (line.string 1).map text⟩

/-- Read a capability set out of the data lines of a response. -/
def parse (data : List ManagesieveDataLine) : ManagesieveCapabilities :=
  ⟨data.filterMap parseLine⟩

/-- Whether `name` was advertised, compared case-insensitively. -/
def has (self : ManagesieveCapabilities) (name : String) : Bool :=
  self.capabilities.any fun capability => strEqIgnoreAsciiCase capability.name name

/-- Whether the server offers a TLS upgrade. -/
def starttls (self : ManagesieveCapabilities) : Bool := self.has "STARTTLS"

end ManagesieveCapabilities

/-- Failure causes of the CAPABILITY command. -/
inductive ManagesieveCapabilityGetError
  | rejected (completion : ManagesieveCompletion)
  | send (err : ManagesieveCommandSendError)
  deriving DecidableEq

/-- I/O-free CAPABILITY coroutine. -/
abbrev ManagesieveCapabilityGet := ManagesieveCommandSend

namespace ManagesieveCapabilityGet

def new : ManagesieveCapabilityGet :=
  ManagesieveCommandSend.new ManagesieveCapabilityGetCommand.toBytes

/-- What the coroutine ends on. -/
abbrev Return := Except ManagesieveCapabilityGetError ManagesieveCapabilities

/-- The capabilities in the response, whatever the server sent past it. -/
def finish : ManagesieveResponseRead.Return → Return
  | .error err => .error (.send err)
  | .ok out =>
    match out.response.intoResult with
    | .error completion => .error (.rejected completion)
    | .ok response => .ok (.parse response.data)

/-- The coroutine as a machine. -/
def machine : Machine ManagesieveCapabilityGet UInt8 ManagesieveYield Return :=
  ManagesieveCommandSend.machine.mapDone finish

/-- Once the command is written, a run is a run of the reader. -/
theorem drive_written (cs : List Bytes) :
    machine.drive ⟨none, .new⟩ none cs =
      ⟨(ManagesieveResponseRead.machine.drive .new none cs).events,
        (ManagesieveResponseRead.machine.drive .new none cs).pause.map (⟨none, ·⟩) finish,
        (ManagesieveResponseRead.machine.drive .new none cs).unfed⟩ := by
  have h := ManagesieveCommandSend.nests_read.drive_map (f := id) (t := .new) trivial none cs
  rw [machine, Machine.drive_mapDone, h]
  rcases (ManagesieveResponseRead.machine.drive .new none cs).pause with s | ⟨r, s⟩ | ⟨msg, s⟩ <;>
    simp [Pause.map]

end ManagesieveCapabilityGet

/-! ## The greeting -/

/-- Failure causes while reading a greeting. -/
inductive ManagesieveGreetingGetError
  | rejected (completion : ManagesieveCompletion)
  | injection
  | send (err : ManagesieveCommandSendError)
  deriving DecidableEq

/-- I/O-free greeting coroutine. -/
abbrev ManagesieveGreetingGet := ManagesieveResponseRead

namespace ManagesieveGreetingGet

def new : ManagesieveGreetingGet := ManagesieveResponseRead.new

/-- What the coroutine ends on. -/
abbrev Return := Except ManagesieveGreetingGetError ManagesieveCapabilities

/-- The capabilities in the greeting, unless the server sent bytes past it. -/
def finish : ManagesieveResponseRead.Return → Return
  | .error err => .error (.send err)
  | .ok out =>
    if out.trailing ≠ [] then .error .injection
    else if out.response.completion.status ≠ .ok then .error (.rejected out.response.completion)
    else .ok (.parse out.response.data)

/-- The coroutine as a machine. -/
def machine : Machine ManagesieveGreetingGet UInt8 ManagesieveYield Return :=
  ManagesieveResponseRead.machine.mapDone finish

end ManagesieveGreetingGet

/-! ## STARTTLS -/

/-- Failure causes of the STARTTLS exchange. -/
inductive ManagesieveStartTlsError
  | rejected (completion : ManagesieveCompletion)
  | injection
  | send (err : ManagesieveCommandSendError)
  deriving DecidableEq

/-- I/O-free STARTTLS coroutine. -/
abbrev ManagesieveStartTls := ManagesieveCommandSend

namespace ManagesieveStartTls

def new : ManagesieveStartTls := ManagesieveCommandSend.new ManagesieveStartTlsCommand.toBytes

/-- What the coroutine ends on. -/
abbrev Return := Except ManagesieveStartTlsError Unit

/-- Whether the upgrade was accepted, unless the server sent bytes past its reply. -/
def finish : ManagesieveResponseRead.Return → Return
  | .error err => .error (.send err)
  | .ok out =>
    if out.trailing ≠ [] then .error .injection
    else
      match out.response.intoResult with
      | .error completion => .error (.rejected completion)
      | .ok _ => .ok ()

/-- The coroutine as a machine. -/
def machine : Machine ManagesieveStartTls UInt8 ManagesieveYield Return :=
  ManagesieveCommandSend.machine.mapDone finish

end ManagesieveStartTls

end ManageSieve
