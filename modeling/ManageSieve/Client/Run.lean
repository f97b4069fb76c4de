import ManageSieve.Client.Connect
import ManageSieve.Rfc5804.Outcomes
import ManageSieve.Rfc5804.Raw
import ManageSieve.Session.Patience

/-!
# The client that runs commands

`client.rs`: the command surface of a client, and `ManagesieveClientStd`, which runs the coroutines
behind it against one stream. `ManagesieveClientStd.turn` is one turn of the loop in `run`, and each
method of the surface is a `Call`: the coroutine it starts, and what becomes of its errors.

* `ManagesieveClientStd.runsTo_iff` says what a call comes to: a run of its coroutine on what the
  stream gave, then its end or a failure of the stream.
* `ManagesieveClientStd.runsTo_of_readsOne` says that the calls that read one response return
  whatever the stream does, and what they wrote by then.
-/

namespace ManageSieve

open Coroutine

/-- How the stream of a client answers; a failure leaves it in some state, too. -/
structure StreamIo (S ι : Type*) where
  read : S → Except ι ReadBuffer × S
  writeAll : S → Bytes → Except ι Unit × S

/-- The stream as a transport. -/
def StreamIo.transport {S ι : Type*} (io : StreamIo S ι) :
    Transport S UInt8 ManagesieveYield ι where
  read st := ((io.read st).1.map Subtype.val, (io.read st).2)
  write st y := io.writeAll st (y.written.getD [])

/-- The errors that the methods of a client return. -/
inductive ManagesieveClientCallError (ε ι : Type*)
  | greeting (err : ManagesieveGreetingGetError)
  | capability (err : ManagesieveCapabilityGetError)
  | startTls (err : ManagesieveStartTlsError)
  | authenticate (err : ManagesieveAuthenticateError ε)
  | logout (err : ManagesieveLogoutError)
  | noop (err : ManagesieveNoopError)
  | unauthenticate (err : ManagesieveUnauthenticateError)
  | haveSpace (err : ManagesieveHaveSpaceError)
  | scriptList (err : ManagesieveScriptListError)
  | scriptGet (err : ManagesieveScriptGetError)
  | scriptPut (err : ManagesieveScriptPutError)
  | scriptCheck (err : ManagesieveScriptCheckError)
  | scriptActivate (err : ManagesieveScriptActivateError)
  | scriptDelete (err : ManagesieveScriptDeleteError)
  | scriptRename (err : ManagesieveScriptRenameError)
  | raw (err : ManagesieveRawError)
  /-- Reading from or writing to the stream failed. -/
  | io (err : ι)
  deriving DecidableEq

namespace ManagesieveClientStd

/-! ## The command surface -/

/-- A method of the command surface: the coroutine that it runs, and the variant of its errors. -/
structure Call (ε ι T : Type) where
  State : Type
  Err : Type
  machine : Machine State UInt8 ManagesieveYield (Except Err T)
  coroutine : State
  into : Err → ManagesieveClientCallError ε ι
  /-- The coroutine speaks the vocabulary that every client serves. -/
  reads_eq : machine.reads = ManagesieveYield.isRead

variable {ε ι T : Type} {S : Type*}

namespace Call

def greeting : Call ε ι ManagesieveCapabilities :=
  ⟨_, _, ManagesieveGreetingGet.machine, .new, .greeting, rfl⟩

def capability : Call ε ι ManagesieveCapabilities :=
  ⟨_, _, ManagesieveCapabilityGet.machine, .new, .capability, rfl⟩

def starttls : Call ε ι Unit := ⟨_, _, ManagesieveStartTls.machine, .new, .startTls, rfl⟩

def authenticate (lib : Libraries) (sasl : Sasl ε) (opts : ManagesieveAuthenticateOptions) :
    Call ε ι ManagesieveCapabilities :=
  ⟨_, _, ManagesieveAuthenticate.machine lib, .new sasl opts, .authenticate, rfl⟩

def logout : Call ε ι Unit := ⟨_, _, ManagesieveLogout.machine, .new, .logout, rfl⟩

def noop (tag : Option String) : Call ε ι (Option String) :=
  ⟨_, _, ManagesieveNoop.machine, .new tag, .noop, rfl⟩

def unauthenticate : Call ε ι Unit :=
  ⟨_, _, ManagesieveUnauthenticate.machine, .new, .unauthenticate, rfl⟩

def haveSpace (name : String) (size : UInt32) : Call ε ι Unit :=
  ⟨_, _, ManagesieveHaveSpace.machine, .new name size, .haveSpace, rfl⟩

def listScripts : Call ε ι (List ManagesieveScript) :=
  ⟨_, _, ManagesieveScriptList.machine, .new, .scriptList, rfl⟩

def getScript (name : String) : Call ε ι Bytes :=
  ⟨_, _, ManagesieveScriptGet.machine, .new name, .scriptGet, rfl⟩

def putScript (name : String) (script : Bytes) : Call ε ι (Option String) :=
  ⟨_, _, ManagesieveScriptPut.machine, .new name script, .scriptPut, rfl⟩

def checkScript (script : Bytes) : Call ε ι (Option String) :=
  ⟨_, _, ManagesieveScriptCheck.machine, .new script, .scriptCheck, rfl⟩

def activateScript (name : Option String) : Call ε ι Unit :=
  ⟨_, _, ManagesieveScriptActivate.machine, .new name, .scriptActivate, rfl⟩

def deleteScript (name : String) : Call ε ι Unit :=
  ⟨_, _, ManagesieveScriptDelete.machine, .new name, .scriptDelete, rfl⟩

def renameScript (name newName : String) : Call ε ι Unit :=
  ⟨_, _, ManagesieveScriptRename.machine, .new name newName, .scriptRename, rfl⟩

def raw (command : Bytes) : Call ε ι ManagesieveResponse :=
  ⟨_, _, ManagesieveRaw.machine, .new command, .raw, rfl⟩

end Call

/-! ## The loop -/

/-- The variables of the loop of `run`. -/
structure Running (σ S : Type*) where
  coroutine : σ
  arg : Option Bytes
  stream : S

/-- How `run` ends: it returns, or the coroutine unwinds. -/
inductive Ran (ε ι T : Type*)
  | returned (r : Except (ManagesieveClientCallError ε ι) T)
  | panicked (msg : String)

/-- One turn of the loop of `run`. -/
def turn (io : StreamIo S ι) (call : Call ε ι T) (self : Running call.State S) :
    Turn (Running call.State S) (Ran ε ι T × S) :=
  let (out, coroutine) := call.machine.resume self.coroutine self.arg
  match out with
  | .complete (.ok out) => .done (.returned (.ok out), self.stream)
  | .complete (.error err) => .done (.returned (.error (call.into err)), self.stream)
  | .panicked msg => .done (.panicked msg, self.stream)
  | .yielded .wantsRead =>
    match io.read self.stream with
    | (.ok buf, stream) => .again ⟨coroutine, some buf.1, stream⟩
    | (.error err, stream) => .done (.returned (.error (.io err)), stream)
  | .yielded (.wantsWrite bytes) =>
    match io.writeAll self.stream bytes with
    | (.ok (), stream) => .again ⟨coroutine, none, stream⟩
    | (.error err, stream) => .done (.returned (.error (.io err)), stream)

/-- `run`, given the turns that it may take. -/
def run (io : StreamIo S ι) (call : Call ε ι T) (stream : S) (turns : ℕ) :
    Option (Ran ε ι T × S) :=
  runFor (turn io call) turns ⟨call.coroutine, none, stream⟩

/-- A call on a stream ends with `out`. -/
def RunsTo (io : StreamIo S ι) (call : Call ε ι T) (stream : S) (out : Ran ε ι T × S) : Prop :=
  Ends (turn io call) ⟨call.coroutine, none, stream⟩ out

theorem runsTo_iff_run {io : StreamIo S ι} {call : Call ε ι T} {stream : S}
    {out : Ran ε ι T × S} :
    RunsTo io call stream out ↔ ∃ turns, run io call stream turns = some out :=
  ends_iff_runFor

/-! ## The loop is a pump -/

variable {io : StreamIo S ι} {call : Call ε ι T} {stream : S} {out : Ran ε ι T × S}

/-- What a pump comes to, as a call returns it. -/
def Call.returns (call : Call ε ι T) : Pumped (Except call.Err T) ι × S → Ran ε ι T × S
  | (.returned (.ok out), stream) => (.returned (.ok out), stream)
  | (.returned (.error err), stream) => (.returned (.error (call.into err)), stream)
  | (.failed err, stream) => (.returned (.error (.io err)), stream)
  | (.panicked msg, stream) => (.panicked msg, stream)

/-- A turn of the loop is a turn of a pump. -/
theorem turn_eq (io : StreamIo S ι) (call : Call ε ι T)
    (s : call.State × Option Bytes × S) :
    turn io call ⟨s.1, s.2.1, s.2.2⟩ =
      (call.machine.pumpTurn io.transport s).map (fun s => ⟨s.1, s.2.1, s.2.2⟩) call.returns := by
  obtain ⟨coroutine, arg, stream⟩ := s
  unfold turn Machine.pumpTurn
  rcases call.machine.resume coroutine arg with
    ⟨(_ | bytes) | (err | out) | msg, coroutine'⟩ <;> simp only
  · simp only [call.reads_eq, ManagesieveYield.isRead, if_true, StreamIo.transport]
    rcases io.read stream with ⟨err | buf, stream'⟩ <;> rfl
  · simp only [call.reads_eq, ManagesieveYield.isRead, Bool.false_eq_true, if_false,
      StreamIo.transport, ManagesieveYield.written, Option.getD_some]
    rcases io.writeAll stream bytes with ⟨err | _, stream'⟩ <;> rfl
  · rfl
  · rfl
  · rfl

theorem runsTo_iff_pump : RunsTo io call stream out ↔
    ∃ pumped, Ends (call.machine.pumpTurn io.transport) (call.coroutine, none, stream) pumped ∧
      call.returns pumped = out :=
  ends_map_iff (s := (call.coroutine, none, stream)) (turn_eq io call)

/-- The stream gave the reads among some events, and took the writes. -/
abbrev Served (io : StreamIo S ι) :
    S → List (Event UInt8 ManagesieveYield) → S → Prop :=
  Serves io.transport ManagesieveYield.isRead

theorem RunsTo.exists_run (h : RunsTo io call stream out) :
    ∃ es s arg stream', call.machine.Run call.coroutine es s arg ∧ Served io stream es stream' ∧
      ∃ pumped, call.machine.Stops io.transport s arg stream' pumped ∧
        call.returns pumped = out := by
  obtain ⟨pumped, hends, hout⟩ := runsTo_iff_pump.1 h
  obtain ⟨es, s, arg, stream', hrun, hserved, hstops⟩ := Machine.ends_pump_iff.1 hends
  rw [call.reads_eq] at hserved
  exact ⟨es, s, arg, stream', hrun, hserved, pumped, hstops, hout⟩

/-- **What a call comes to** is a run of its coroutine on what the stream gave, then the end of the
coroutine, with the error in the variant of the call, or the first failure of the stream. -/
theorem runsTo_iff : RunsTo io call stream out ↔
    ∃ es s arg stream', call.machine.Run call.coroutine es s arg ∧ Served io stream es stream' ∧
      ∃ pumped, call.machine.Stops io.transport s arg stream' pumped ∧
        call.returns pumped = out := by
  refine ⟨RunsTo.exists_run, ?_⟩
  rintro ⟨es, s, arg, stream', hrun, hserved, pumped, hstops, hout⟩
  have hserves : Serves io.transport call.machine.reads stream es stream' := by
    rwa [call.reads_eq]
  exact runsTo_iff_pump.2
    ⟨pumped, Machine.ends_pump_iff.2 ⟨es, s, arg, stream', hrun, hserves, hstops⟩, hout⟩

/-! ## The calls that read one response -/

/-- `ReadsOne call command`: the call reads one response, after writing `command` if there is
one. -/
inductive ReadsOne : {T : Type} → Call ε ι T → Option Bytes → Prop
  | greeting : ReadsOne .greeting none
  | capability : ReadsOne .capability (some ManagesieveCapabilityGetCommand.toBytes)
  | starttls : ReadsOne .starttls (some ManagesieveStartTlsCommand.toBytes)
  | logout : ReadsOne .logout (some ManagesieveLogoutCommand.toBytes)
  | noop (tag) : ReadsOne (.noop tag) (some (ManagesieveNoopCommand.toBytes ⟨tag⟩))
  | unauthenticate : ReadsOne .unauthenticate (some ManagesieveUnauthenticateCommand.toBytes)
  | haveSpace (name size) :
      ReadsOne (.haveSpace name size) (some (ManagesieveHaveSpaceCommand.toBytes ⟨name, size⟩))
  | listScripts : ReadsOne .listScripts (some ManagesieveScriptListCommand.toBytes)
  | getScript (name) :
      ReadsOne (.getScript name) (some (ManagesieveScriptGetCommand.toBytes ⟨name⟩))
  | putScript (name script) :
      ReadsOne (.putScript name script) (some (ManagesieveScriptPutCommand.toBytes ⟨name, script⟩))
  | checkScript (script) :
      ReadsOne (.checkScript script) (some (ManagesieveScriptCheckCommand.toBytes ⟨script⟩))
  | activateScript (name) :
      ReadsOne (.activateScript name) (some (ManagesieveScriptActivateCommand.toBytes ⟨name⟩))
  | deleteScript (name) :
      ReadsOne (.deleteScript name) (some (ManagesieveScriptDeleteCommand.toBytes ⟨name⟩))
  | renameScript (name newName) : ReadsOne (.renameScript name newName)
      (some (ManagesieveScriptRenameCommand.toBytes ⟨name, newName⟩))
  | raw (command) : ReadsOne (.raw command) (some (ManagesieveRawCommand.toBytes ⟨command⟩))

/-- What these calls have in common. -/
structure OneResponse (call : Call ε ι T) (command : Option Bytes) : Prop where
  patient : ∃ P patience, call.machine.Patient P patience ∧ P call.coroutine ∧
    patience call.coroutine ≤ maxResponse + 1
  safe : call.machine.Safe fun _ => True
  writes : ∀ cs, writesOf (call.machine.drive call.coroutine none cs).events = command.toList

theorem oneResponse_send {E : Type} (bytes : Bytes)
    (finish : ManagesieveResponseRead.Return → Except E T)
    (into : E → ManagesieveClientCallError ε ι) :
    OneResponse ⟨_, _, ManagesieveCommandSend.machine.mapDone finish, .new bytes, into, rfl⟩
      (some bytes) where
  patient := ⟨_, _, ManagesieveCommandSend.patient.mapDone finish,
    ManagesieveCommandSend.capped_new bytes, Nat.le_refl _⟩
  safe := ManagesieveCommandSend.safe.mapDone finish
  writes cs := by
    rw [Machine.drive_mapDone, ManagesieveCommandSend.drive_new]
    simp only [Transcript.prepend_events, List.singleton_append, writesOf_write]
    rw [writesOf_eq_nil (ManagesieveResponseRead.drive_new_reads cs).only_reads]
    rfl

theorem oneResponse_greeting : OneResponse (Call.greeting : Call ε ι _) none where
  patient := ⟨_, _, ManagesieveGreetingGet.patient, ManagesieveResponseRead.capped_new,
    Nat.le_succ _⟩
  safe := ManagesieveResponseRead.safe.mapDone _
  writes cs := by
    change writesOf (ManagesieveGreetingGet.machine.drive .new none cs).events = _
    rw [ManagesieveGreetingGet.machine, Machine.drive_mapDone]
    exact writesOf_eq_nil (ManagesieveResponseRead.drive_new_reads cs).only_reads

theorem ReadsOne.oneResponse {call : Call ε ι T} {command : Option Bytes}
    (h : ReadsOne call command) : OneResponse call command := by
  cases h with
  | greeting => exact oneResponse_greeting
  | _ => exact oneResponse_send _ _ _

/-- Writing never goes past what is written in all. -/
theorem writesOf_isPrefix {es es' : List (Event UInt8 ManagesieveYield)} (h : es <+: es') :
    writesOf es <+: writesOf es' := by
  obtain ⟨rest, rfl⟩ := h
  rw [writesOf_append]
  exact List.prefix_append _ _

/-- **A call that reads one response returns, whatever the stream does.** On the run that it made,
up to where its coroutine ended or the stream failed, it read no more often than its buffer allows
and wrote nothing but its command, which it did write unless the stream failed; and unless the
stream failed it returns what its coroutine makes of what it read. -/
theorem runsTo_of_readsOne {command : Option Bytes} (h : ReadsOne call command)
    (io : StreamIo S ι) (stream : S) :
    (∃ out, RunsTo io call stream out) ∧ ∀ out, RunsTo io call stream out →
      ∃ es s arg stream', call.machine.Run call.coroutine es s arg ∧ Served io stream es stream' ∧
        (∃ pumped, call.machine.Stops io.transport s arg stream' pumped ∧
          call.returns pumped = out) ∧
        (fedOf es).length ≤ maxResponse + 2 ∧ writesOf es <+: command.toList ∧
        ∃ r, out.1 = .returned r ∧
          ((∀ err, r ≠ .error (.io err)) → out.2 = stream' ∧ writesOf es = command.toList ∧
            ∃ result, (call.machine.drive call.coroutine none (fedOf es)).pause.result =
              some result ∧ r = result.mapError call.into) := by
  obtain ⟨⟨P, patience, hpatient, hP, hle⟩, hsafe, hwrites⟩ := h.oneResponse
  refine ⟨?_, fun out hout => ?_⟩
  · obtain ⟨pumped, hpumped⟩ := hpatient.ends_pump io.transport hP none stream
    exact ⟨_, runsTo_iff_pump.2 ⟨pumped, hpumped, rfl⟩⟩
  · obtain ⟨es, s, arg, stream', hrun, hserved, pumped, hstops, rfl⟩ := hout.exists_run
    have hfed : (fedOf es).length ≤ maxResponse + 2 := by
      have := (hpatient.fed_le hP hrun).2
      split_ifs at this <;> omega
    have hfirst : writesOf es <+: command.toList := by
      have := writesOf_isPrefix hrun.isPrefix
      rwa [hwrites] at this
    refine ⟨es, s, arg, stream', hrun, hserved, ⟨pumped, hstops, rfl⟩, hfed, hfirst, ?_⟩
    cases hstops with
    | @returned result s' hr =>
      have hdrive := hrun.drive []
      rw [List.append_nil, Machine.drive_complete hr] at hdrive
      have hall := hwrites (fedOf es)
      rw [hdrive, Transcript.prepend_events, List.append_nil] at hall
      have hresult : (call.machine.drive call.coroutine none (fedOf es)).pause.result =
          some result := by
        rw [hdrive]
        rfl
      cases result with
      | error err => exact ⟨_, rfl, fun _ => ⟨rfl, hall, _, hresult, rfl⟩⟩
      | ok out => exact ⟨_, rfl, fun _ => ⟨rfl, hall, _, hresult, rfl⟩⟩
    | panicked hr => exact absurd hr (hsafe.ne_panicked trivial arg _ _)
    | @read _ _ err _ hr hy hio => exact ⟨_, rfl, fun hne => absurd rfl (hne err)⟩
    | @write _ _ err _ hr hy hio => exact ⟨_, rfl, fun hne => absurd rfl (hne err)⟩

/-- NOOP over a stream that gives a refusal at each read. -/
theorem runsTo_of_readsOne_noop :
    let io : StreamIo ℕ Unit :=
      ⟨fun n => (.ok ⟨asBytes "NO\r\n", by decide +kernel⟩, n + 1), fun n _ => (.ok (), n)⟩
    ∃ out, RunsTo io (.noop none : Call Unit Unit _) 0 out :=
  (runsTo_of_readsOne (.noop none) _ 0).1

end ManagesieveClientStd

end ManageSieve
