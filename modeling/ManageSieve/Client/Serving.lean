import ManageSieve.Client.Run
import ManageSieve.Foundations.Dealing
import ManageSieve.Rfc5804.Decoding

/-!
# Clients and servers

A session as its two ends see it. A `Server` answers the commands that it reads off the stream, one
response for each; `Server.stream` is the stream between it and a client, which delivers what was
sent in reads of any size. A `Program` is what a client does with the connection: it calls methods,
and goes on by what they return.

The main result, `Program.runs_iff`, says that the wire does not show: a program over the stream
returns what it returns when every method asks the server directly (`Program.exec`), and leaves the
stream as empty as it found it, so that no response is ever taken for the answer to a later command.
-/

namespace ManageSieve

open Coroutine Incremental

/-! ## Servers -/

/-- A response, as a server sends it. -/
structure Reply where
  response : ManagesieveResponse
  bytes : Bytes
  renders : Renders response bytes
  fits : bytes.length ≤ maxResponse

namespace Reply

/-- A completion without a code or a text. -/
def completion (status : ManagesieveStatus) : ManagesieveCompletion := ⟨status, none, none⟩

theorem renders_completion (status : ManagesieveStatus) :
    RendersCompletion (completion status) (asBytes status.asStr ++ crlf) := by
  refine .line ?_ .none .none (.atom ?_ rfl (.eol .crlf)) <;> cases status <;> decide +kernel

theorem length_completion (status : ManagesieveStatus) :
    (asBytes status.asStr ++ crlf).length ≤ 5 := by
  cases status <;> decide +kernel

/-- A response without data. -/
def plain (status : ManagesieveStatus) : Reply where
  response := ⟨[], completion status⟩
  bytes := asBytes status.asStr ++ crlf
  renders := .completion (renders_completion status)
  fits := Nat.le_trans (length_completion status) (by decide)

/-- The reply is read back. -/
theorem parse_bytes (reply : Reply) :
    ManagesieveResponse.parse reply.bytes = .ok (some (reply.response, reply.bytes.length)) := by
  have hmax : reply.bytes.length ≤ usizeMax := Nat.le_trans reply.fits (by decide)
  simpa using (reply.renders.readsLines hmax).parse []

theorem bytes_ne_nil (reply : Reply) : reply.bytes ≠ [] :=
  List.length_pos_iff.1 (responseParser.pos reply.parse_bytes)

/-- A client reads on to the end of the reply. -/
theorem gathers (reply : Reply) :
    ManagesieveResponseRead.machine.Gathers (⟨false, ·⟩) reply.bytes where
  asks := ⟨.wantsRead, rfl, ManagesieveResponseRead.resume_none []⟩
  asks_on {heard a rest} ha hrest hb := by
    refine ⟨.wantsRead, rfl, ?_⟩
    have hlen := reply.fits
    have hparse := responseParser.parse_prefix (b := reply.bytes) ⟨rest, hb⟩ reply.parse_bytes
    have hpos := List.length_pos_iff.2 hrest
    rw [← hb, List.length_append] at hlen hparse
    rw [if_neg (by omega), responseParser_parse] at hparse
    rw [ManagesieveResponseRead.machine_resume, ManagesieveResponseRead.resume_some heard ha,
      hparse]
    exact if_neg (by omega)

/-- It ends on the reply once it has it whole. -/
theorem resume_whole (reply : Reply) {heard a : Bytes} (ha : a ≠ [])
    (hb : heard ++ a = reply.bytes) :
    ManagesieveResponseRead.machine.resume ⟨false, heard⟩ (some a) =
      (.complete (.ok ⟨reply.response, []⟩), ⟨false, reply.bytes⟩) := by
  rw [ManagesieveResponseRead.machine_resume, ManagesieveResponseRead.resume_some heard ha, hb,
    reply.parse_bytes]
  simp

/-- So does a command that was written. -/
theorem gathers_send (reply : Reply) {R : Type*} (finish : ManagesieveResponseRead.Return → R) :
    (ManagesieveCommandSend.machine.mapDone finish).Gathers (⟨none, ⟨false, ·⟩⟩) reply.bytes :=
  (reply.gathers.nests ManagesieveCommandSend.nests_read fun _ => trivial).mapDone finish

theorem send_whole (reply : Reply) {R : Type*} (finish : ManagesieveResponseRead.Return → R)
    {heard a : Bytes} (ha : a ≠ []) (hb : heard ++ a = reply.bytes) :
    ∃ s, (ManagesieveCommandSend.machine.mapDone finish).resume ⟨none, ⟨false, heard⟩⟩ (some a) =
      (.complete (finish (.ok ⟨reply.response, []⟩)), s) :=
  ⟨_, Machine.mapDone_complete finish (ManagesieveCommandSend.nests_read.resume_complete trivial
    (reply.resume_whole ha hb))⟩

end Reply

/-- A server: how it answers commands, and what it says to a line that is none. -/
structure Server (St : Type*) where
  answer : St → ManagesieveCommand → Reply × St
  refusal : Reply

/-- The ends of a stream between a client and a server. -/
structure Connection (St : Type*) where
  server : St
  /-- What the client wrote, from the first line that is not complete. -/
  inbox : Bytes
  /-- What the server sent and the client did not read. -/
  outbox : Bytes
  /-- How often the client has read. -/
  clock : ℕ

/-- A stream on which everything was read. -/
def Connection.idle {St : Type*} (st : St) (clock : ℕ) : Connection St := ⟨st, [], [], clock⟩

/-- How the other end of a stream takes a line: what it sends, and where that leaves it. -/
abbrev Listener (St : Type*) := St → List Token → Bytes × St

namespace Listener

variable {St : Type*} (listen : Listener St)

/-- What is sent in answer to some lines. -/
def serve : St → List (List Token) → Bytes × St
  | st, [] => ([], st)
  | st, tokens :: lines =>
    let (bytes, st) := listen st tokens
    let (rest, st) := serve st lines
    (bytes ++ rest, st)

/-- How many octets a read may give. -/
def quantum (cut : ℕ → ℕ) (clock : ℕ) : ℕ := min (max 1 (cut clock)) readBufferSize

theorem quantum_pos (cut : ℕ → ℕ) (clock : ℕ) : 0 < quantum cut clock := by
  unfold quantum readBufferSize
  omega

theorem quantum_le (cut : ℕ → ℕ) (clock : ℕ) : quantum cut clock ≤ readBufferSize :=
  Nat.min_le_right _ _

/-- The stream, which cuts what is sent as `cut` says. -/
def stream (ι : Type*) (cut : ℕ → ℕ) : StreamIo (Connection St) ι where
  read conn :=
    (.ok ⟨conn.outbox.take (quantum cut conn.clock),
        Nat.le_trans (List.length_take_le _ _) (quantum_le cut conn.clock)⟩,
      { conn with
        outbox := conn.outbox.drop (quantum cut conn.clock)
        clock := conn.clock + 1 })
  writeAll conn bytes :=
    let items := (scanLineParser.items (conn.inbox ++ bytes)).1
    let (out, st) := listen.serve conn.server (items.map Prod.fst)
    (.ok (),
      { conn with
        server := st
        inbox := (conn.inbox ++ bytes).drop (items.map Prod.snd).sum
        outbox := conn.outbox ++ out })

/-- What is sent arrives, however it is cut. -/
theorem exists_gives (ι : Type*) (cut : ℕ → ℕ) (st : St) (b : Bytes) (clock : ℕ) :
    ∃ cs clock', Cuts cs b ∧
      Gives (listen.stream ι cut).transport ⟨st, [], b, clock⟩ cs (.idle st clock') := by
  induction hk : b.length using Nat.strongRecOn generalizing b clock with
  | ind k ih =>
    subst hk
    cases b with
    | nil => exact ⟨[], clock, ⟨rfl, by simp⟩, .nil⟩
    | cons a b =>
      have hpos := quantum_pos cut clock
      obtain ⟨cs, clock', hcs, hgives⟩ := ih ((a :: b).drop (quantum cut clock)).length
        (by rw [List.length_drop, List.length_cons]; omega) _ (clock + 1) rfl
      refine ⟨(a :: b).take (quantum cut clock) :: cs, clock', ⟨?_, ?_⟩, .cons rfl hgives⟩
      · rw [List.flatten_cons, hcs.flatten, List.take_append_drop]
      · rw [List.forall_mem_cons]
        refine ⟨?_, hcs.ne_nil⟩
        rw [Ne, List.take_eq_nil_iff]
        simp [Nat.ne_of_gt hpos]

/-- A line that is written to an idle stream is answered. -/
theorem writeAll_line {lib : Libraries} (h : Function.Injective lib.asStr) (ι : Type*)
    (cut : ℕ → ℕ) (st : St) (clock : ℕ) {line : ClientLine} (hfits : line.Fits lib) :
    ∃ tokens, ClientLine.ofTokens lib tokens = some line.normal ∧
      (listen.stream ι cut).writeAll (.idle st clock) (line.toBytes lib) =
        (.ok (), ⟨(listen st tokens).2, [], (listen st tokens).1, clock⟩) := by
  obtain ⟨tokens, hreads, hof⟩ := hfits.reads h
  have hitems : scanLineParser.items (line.toBytes lib) =
      ([(tokens, (line.toBytes lib).length)], none) := by
    have hnil : scanLineParser.items [] = ([], none) := Parser.items_none (by decide +kernel)
    have hall : ∀ x ∈ [(line.toBytes lib, tokens)], scanLineParser.Reads x.1 x.2 := by
      simpa using hreads
    simpa [hnil] using Parser.items_reads hall []
  refine ⟨tokens, hof, ?_⟩
  simp [stream, Connection.idle, hitems, serve]

/-- The other end answers the commands as a server does, but for those that start an exchange. -/
def Answers (lib : Libraries) (server : Server St) : Prop :=
  ∀ st tokens cmd, ClientLine.ofTokens lib tokens = some (.command cmd) →
    (∀ auth, cmd ≠ .authenticate auth) →
      listen st tokens = ((server.answer st cmd).1.bytes, (server.answer st cmd).2)

/-- A command that is written to an idle stream is answered. -/
theorem Answers.writeAll {listen : Listener St} {lib : Libraries} {server : Server St}
    (hanswers : listen.Answers lib server) (h : Function.Injective lib.asStr) (ι : Type*)
    (cut : ℕ → ℕ) (st : St) (clock : ℕ) {cmd : ManagesieveCommand}
    (hcmd : ∀ auth, cmd.normal ≠ .authenticate auth)
    (hfits : ∀ argument ∈ cmd.arguments lib, argument.Fits lib) :
    (listen.stream ι cut).writeAll (.idle st clock) (cmd.toBytes lib) =
      (.ok (), ⟨(server.answer st cmd.normal).2, [], (server.answer st cmd.normal).1.bytes,
        clock⟩) := by
  have hline : (ClientLine.command cmd).Fits lib := hfits
  obtain ⟨tokens, hof, hwrite⟩ := listen.writeAll_line h ι cut st clock hline
  rwa [hanswers st tokens cmd.normal hof hcmd] at hwrite

/-- A coroutine that reads a reply to its end leaves the stream idle. -/
theorem ends_gathers {σ R : Type*} {m : Machine σ UInt8 ManagesieveYield R} {holds : Bytes → σ}
    {b : Bytes} (hm : m.Gathers holds b) (hb : b ≠ []) {r : R}
    (hdone : ∀ heard a, a ≠ [] → heard ++ a = b →
      ∃ s, m.resume (holds heard) (some a) = (.complete r, s))
    (ι : Type*) (cut : ℕ → ℕ) (st : St) (clock : ℕ) :
    ∃ clock', Ends (m.pumpTurn (listen.stream ι cut).transport)
      (holds [], none, ⟨st, [], b, clock⟩) (.returned r, .idle st clock') := by
  obtain ⟨cs, clock', hcs, hgives⟩ := listen.exists_gives ι cut st b clock
  exact ⟨clock', hm.ends hdone hcs hb hgives⟩

/-- The reader ends on a reply. -/
theorem ends_read (reply : Reply) {R : Type*} (finish : ManagesieveResponseRead.Return → R)
    (ι : Type*) (cut : ℕ → ℕ) (st : St) (clock : ℕ) :
    ∃ clock', Ends ((ManagesieveResponseRead.machine.mapDone finish).pumpTurn
        (listen.stream ι cut).transport) (.new, none, ⟨st, [], reply.bytes, clock⟩)
      (.returned (finish (.ok ⟨reply.response, []⟩)), .idle st clock') := by
  apply listen.ends_gathers (reply.gathers.mapDone finish) reply.bytes_ne_nil
  intro heard a ha hb
  exact ⟨_, Machine.mapDone_complete finish (reply.resume_whole ha hb)⟩

/-- A command that is answered ends on the reply. -/
theorem ends_send {ι : Type*} {cut : ℕ → ℕ} {st st' : St} {clock : ℕ} {bytes : Bytes}
    {reply : Reply} (hwrite : (listen.stream ι cut).writeAll (.idle st clock) bytes =
      (.ok (), ⟨st', [], reply.bytes, clock⟩)) {R : Type*}
    (finish : ManagesieveResponseRead.Return → R) :
    ∃ clock', Ends ((ManagesieveCommandSend.machine.mapDone finish).pumpTurn
        (listen.stream ι cut).transport) (.new bytes, none, .idle st clock)
      (.returned (finish (.ok ⟨reply.response, []⟩)), .idle st' clock') := by
  have hturn : (ManagesieveCommandSend.machine.mapDone finish).pumpTurn
      (listen.stream ι cut).transport (.new bytes, none, .idle st clock) =
      .again (⟨none, .new⟩, none, ⟨st', [], reply.bytes, clock⟩) :=
    Machine.pumpTurn_write rfl rfl hwrite
  obtain ⟨clock', hends⟩ := listen.ends_gathers (reply.gathers_send finish) reply.bytes_ne_nil
    (fun heard a ha hb => reply.send_whole finish ha hb) ι cut st' clock
  exact ⟨clock', (Leads.of_again hturn).ends hends⟩

end Listener

namespace Server

variable {St : Type*} (lib : Libraries) (server : Server St)

/-- What the server answers to a line. -/
def reply (st : St) (tokens : List Token) : Reply × St :=
  match ClientLine.ofTokens lib tokens with
  | some (.command cmd) => server.answer st cmd
  | _ => (server.refusal, st)

/-- The server at the end of a stream. -/
def listen : Listener St := fun st tokens =>
  ((server.reply lib st tokens).1.bytes, (server.reply lib st tokens).2)

/-- The stream to a server, which cuts the responses as `cut` says. -/
def stream (ι : Type*) (cut : ℕ → ℕ) : StreamIo (Connection St) ι :=
  (server.listen lib).stream ι cut

theorem answers_listen : (server.listen lib).Answers lib server := by
  intro st tokens cmd hof hcmd
  simp only [listen, reply, hof]

end Server

/-! ## Methods that run one command -/

namespace ManagesieveClientStd

/-- A method of the command surface that sends a command and reads one response. -/
inductive Method : Type → Type
  | capability : Method ManagesieveCapabilities
  | starttls : Method Unit
  | logout : Method Unit
  | noop (tag : Option String) : Method (Option String)
  | unauthenticate : Method Unit
  | haveSpace (name : String) (size : UInt32) : Method Unit
  | listScripts : Method (List ManagesieveScript)
  | getScript (name : String) : Method Bytes
  | putScript (name : String) (script : Bytes) : Method (Option String)
  | checkScript (script : Bytes) : Method (Option String)
  | activateScript (name : Option String) : Method Unit
  | deleteScript (name : String) : Method Unit
  | renameScript (name newName : String) : Method Unit

namespace Method

variable {ε ι T : Type}

/-- The method, as the client runs it. -/
def call : Method T → Call ε ι T
  | capability => .capability
  | starttls => .starttls
  | logout => .logout
  | noop tag => .noop tag
  | unauthenticate => .unauthenticate
  | haveSpace name size => .haveSpace name size
  | listScripts => .listScripts
  | getScript name => .getScript name
  | putScript name script => .putScript name script
  | checkScript script => .checkScript script
  | activateScript name => .activateScript name
  | deleteScript name => .deleteScript name
  | renameScript name newName => .renameScript name newName

/-- The command that the method sends. -/
def command : Method T → ManagesieveCommand
  | capability => .capability
  | starttls => .startTls
  | logout => .logout
  | noop tag => .noop ⟨tag⟩
  | unauthenticate => .unauthenticate
  | haveSpace name size => .haveSpace ⟨name, size⟩
  | listScripts => .listScripts
  | getScript name => .getScript ⟨name⟩
  | putScript name script => .putScript ⟨name, script⟩
  | checkScript script => .checkScript ⟨script⟩
  | activateScript name => .setActive ⟨name⟩
  | deleteScript name => .deleteScript ⟨name⟩
  | renameScript name newName => .renameScript ⟨name, newName⟩

/-- What becomes of a response: it is accepted on OK, and refused with its completion otherwise. -/
def settle {T : Type} (response : ManagesieveResponse)
    (rejected : ManagesieveCompletion → ManagesieveClientCallError ε ι)
    (accepted : Except (ManagesieveClientCallError ε ι) T) :
    Except (ManagesieveClientCallError ε ι) T :=
  if response.completion.status = .ok then accepted else .error (rejected response.completion)

/-- What the method returns for a response. -/
def result (method : Method T) (response : ManagesieveResponse) :
    Except (ManagesieveClientCallError ε ι) T :=
  match method with
  | capability =>
    settle response (.capability ∘ .rejected)
      (.ok ⟨response.data.filterMap ManagesieveCapabilities.parseLine⟩)
  | starttls => settle response (.startTls ∘ .rejected) (.ok ())
  | logout => settle response (.logout ∘ .rejected) (.ok ())
  | noop _ => settle response (.noop ∘ .rejected) (.ok response.completion.tag)
  | unauthenticate => settle response (.unauthenticate ∘ .rejected) (.ok ())
  | haveSpace _ _ => settle response (.haveSpace ∘ .rejected) (.ok ())
  | listScripts =>
    settle response (.scriptList ∘ .rejected)
      (.ok (response.data.filterMap ManagesieveScript.parse))
  | getScript _ =>
    settle response (.scriptGet ∘ .rejected)
      (match response.data.head?.bind fun line => line.string 0 with
        | none => .error (.scriptGet .missingScript)
        | some script => .ok script)
  | putScript _ _ => settle response (.scriptPut ∘ .rejected) (.ok response.completion.warnings)
  | checkScript _ => settle response (.scriptCheck ∘ .rejected) (.ok response.completion.warnings)
  | activateScript _ => settle response (.scriptActivate ∘ .rejected) (.ok ())
  | deleteScript _ => settle response (.scriptDelete ∘ .rejected) (.ok ())
  | renameScript _ _ => settle response (.scriptRename ∘ .rejected) (.ok ())

/-- What the method returns when the connection is lost before the response is whole. -/
def lost : Method T → ManagesieveClientCallError ε ι
  | capability => .capability (.send .eof)
  | starttls => .startTls (.send .eof)
  | logout => .logout (.send .eof)
  | noop _ => .noop (.send .eof)
  | unauthenticate => .unauthenticate (.send .eof)
  | haveSpace _ _ => .haveSpace (.send .eof)
  | listScripts => .scriptList (.send .eof)
  | getScript _ => .scriptGet (.send .eof)
  | putScript _ _ => .scriptPut (.send .eof)
  | checkScript _ => .scriptCheck (.send .eof)
  | activateScript _ => .scriptActivate (.send .eof)
  | deleteScript _ => .scriptDelete (.send .eof)
  | renameScript _ _ => .scriptRename (.send .eof)

theorem intoResult_eq (response : ManagesieveResponse) : response.intoResult =
    if response.completion.status = .ok then .ok response else .error response.completion := by
  split_ifs with hok
  · exact ManagesieveResponse.intoResult_of_ok hok
  · exact ManagesieveResponse.intoResult_of_ne hok

theorem settle_finishWith {A : Type} (accept : ManagesieveResponse → A)
    (into : ManagesieveCommandError → ManagesieveClientCallError ε ι)
    (response : ManagesieveResponse) :
    (ManagesieveCommandSend.finishWith accept (.ok ⟨response, []⟩)).mapError into =
      settle response (into ∘ .rejected) (.ok (accept response)) := by
  unfold ManagesieveCommandSend.finishWith settle
  dsimp only
  rw [intoResult_eq]
  split_ifs <;> rfl

/-- The method is the sender, with what it makes of a response that ends where the stream does, and
of the end of the stream. -/
theorem exists_finish (lib : Libraries) (method : Method T) :
    ∃ (E : Type) (finish : ManagesieveResponseRead.Return → Except E T)
      (into : E → ManagesieveClientCallError ε ι),
      method.call = ⟨_, _, ManagesieveCommandSend.machine.mapDone finish,
        .new (method.command.toBytes lib), into, rfl⟩ ∧
      (∀ response, (finish (.ok ⟨response, []⟩)).mapError into = method.result response) ∧
      (finish (.error .eof)).mapError into = .error method.lost := by
  cases method with
  | capability =>
    refine ⟨_, ManagesieveCapabilityGet.finish, .capability, rfl, fun response => ?_, rfl⟩
    unfold ManagesieveCapabilityGet.finish result settle
    dsimp only
    rw [intoResult_eq]
    split_ifs <;> rfl
  | listScripts =>
    refine ⟨_, ManagesieveScriptList.finish, .scriptList, rfl, fun response => ?_, rfl⟩
    unfold ManagesieveScriptList.finish result settle
    dsimp only
    rw [intoResult_eq]
    split_ifs <;> rfl
  | getScript name =>
    refine ⟨_, ManagesieveScriptGet.finish, .scriptGet, rfl, fun response => ?_, rfl⟩
    unfold ManagesieveScriptGet.finish result settle
    dsimp only
    rw [intoResult_eq]
    split_ifs
    · dsimp only
      rcases response.data.head?.bind fun line => line.string 0 with _ | script <;> rfl
    · rfl
  | starttls =>
    refine ⟨_, ManagesieveStartTls.finish, .startTls, rfl, fun response => ?_, rfl⟩
    unfold ManagesieveStartTls.finish result settle
    dsimp only
    rw [if_neg (by simp), intoResult_eq]
    split_ifs <;> rfl
  | _ => exact ⟨_, _, _, rfl, settle_finishWith _ _, rfl⟩

theorem command_ne_authenticate (method : Method T) (auth : ManagesieveAuthenticateCommand) :
    method.command.normal ≠ .authenticate auth := by
  cases method <;> exact fun h => by cases h

/-- **A method asks the server**: over an idle stream it returns what it makes of the answer to its
command, and leaves the stream idle. -/
theorem runsTo_idle {St : Type} {lib : Libraries} (h : Function.Injective lib.asStr)
    {listen : Listener St} {server : Server St} (hanswers : listen.Answers lib server)
    (cut : ℕ → ℕ) (method : Method T)
    (hfits : ∀ argument ∈ method.command.arguments lib, argument.Fits lib) (st : St) (clock : ℕ) :
    let (reply, st') := server.answer st method.command.normal
    ∃ clock', RunsTo (listen.stream ι cut) (method.call : Call ε ι T) (.idle st clock)
      (.returned (method.result reply.response), .idle st' clock') := by
  have hwrite := hanswers.writeAll h ι cut st clock method.command_ne_authenticate hfits
  rcases hanswer : server.answer st method.command.normal with ⟨reply, st'⟩
  rw [hanswer] at hwrite
  dsimp only at hwrite ⊢
  obtain ⟨E, finish, into, hcall, hfinish, -⟩ := exists_finish (ε := ε) (ι := ι) lib method
  obtain ⟨clock', hends⟩ := listen.ends_send hwrite finish
  refine ⟨clock', ?_⟩
  rw [hcall, runsTo_iff_pump]
  refine ⟨_, hends, ?_⟩
  rw [← hfinish]
  rcases finish (.ok ⟨reply.response, []⟩) with err | out <;> rfl

end Method

/-! ## Programs -/

/-- What a client does with a connection. -/
inductive Program (ε ι : Type) (R : Type*)
  | done (r : R)
  /-- Call a method, and go on by what it returns. -/
  | call {T : Type} (method : Method T)
      (next : Except (ManagesieveClientCallError ε ι) T → Program ε ι R)

namespace Program

variable {ε ι St : Type} {R R' : Type*} {S : Type*}

/-- What the commands of the program carry fits into the largest literal that is read. -/
def Fits (lib : Libraries) : Program ε ι R → Prop
  | done _ => True
  | call method next =>
    (∀ argument ∈ method.command.arguments lib, argument.Fits lib) ∧
      ∀ result, (next result).Fits lib

/-- What the program comes to when every method asks the server directly. -/
def exec (server : Server St) : Program ε ι R → St → R × St
  | done r, st => (r, st)
  | call method next, st =>
    let (reply, st) := server.answer st method.command.normal
    (next (method.result reply.response)).exec server st

/-- What the program comes to over a stream: each method runs to its end before the next one. -/
inductive Runs (io : StreamIo S ι) : Program ε ι R → S → R × S → Prop
  | done {r stream} : Runs io (.done r) stream (r, stream)
  | call {T : Type} {method : Method T} {next stream result stream' out} :
      RunsTo io method.call stream (.returned result, stream') →
      Runs io (next result) stream' out → Runs io (.call method next) stream out

theorem Runs.unique {io : StreamIo S ι} {program : Program ε ι R} {stream : S} {out out' : R × S}
    (h : Runs io program stream out) (h' : Runs io program stream out') : out = out' := by
  induction h with
  | done =>
    cases h'
    rfl
  | call hcall _ ih =>
    cases h' with
    | call hcall' h' =>
      cases hcall.unique hcall'
      exact ih h'

/-- A program comes to what it comes to when it asks the server, and leaves the stream idle. -/
theorem runs_exec {lib : Libraries} (h : Function.Injective lib.asStr) {listen : Listener St}
    {server : Server St} (hanswers : listen.Answers lib server) (cut : ℕ → ℕ)
    {program : Program ε ι R} (hfits : program.Fits lib) (st : St) (clock : ℕ) :
    ∃ clock', Runs (listen.stream ι cut) program (.idle st clock)
      ((program.exec server st).1, .idle (program.exec server st).2 clock') := by
  induction program generalizing st clock with
  | done r => exact ⟨clock, .done⟩
  | call method next ih =>
    obtain ⟨hmethod, hnext⟩ := hfits
    obtain ⟨clock', hcall⟩ :=
      method.runsTo_idle (ε := ε) (ι := ι) h hanswers cut hmethod st clock
    obtain ⟨clock'', hruns⟩ := ih _ (hnext _) (server.answer st method.command.normal).2 clock'
    exact ⟨clock'', .call hcall hruns⟩

/-- **The wire does not show.** Over an idle stream, however it cuts the responses, a program comes
to what it comes to when every method asks the server directly, and to nothing else; it leaves the
stream idle, with no octet of a response for a later command to read. -/
theorem runs_iff {lib : Libraries} (h : Function.Injective lib.asStr) (server : Server St)
    (cut : ℕ → ℕ) {program : Program ε ι R} (hfits : program.Fits lib) (st : St) (clock : ℕ) :
    ∃ clock', ∀ out, Runs (server.stream lib ι cut) program (Connection.idle st clock) out ↔
      out = ((program.exec server st).1, .idle (program.exec server st).2 clock') := by
  obtain ⟨clock', hruns⟩ := runs_exec h (server.answers_listen lib) cut hfits st clock
  refine ⟨clock', fun out => ⟨fun hout => hout.unique hruns, ?_⟩⟩
  rintro rfl
  exact hruns

/-- Ask for space and store a script if there is some, over a stream that gives three octets at a
time. -/
theorem runs_iff_haveSpace :
    let server : Server ℕ := ⟨fun n _ => (.plain (if n = 0 then .ok else .no), n + 1), .plain .bye⟩
    let program : Program Unit Unit
        (Except (ManagesieveClientCallError Unit Unit) (Option String)) :=
      .call (.haveSpace "main" 5) fun space =>
        match space with
        | .ok _ => .call (.putScript "main" (asBytes "keep;")) .done
        | .error err => .done (.error err)
    ∃ clock, ∀ out, Runs (server.stream .standard Unit fun _ => 3) program (.idle 0 0) out ↔
      out = (.error (.scriptPut (.rejected ⟨.no, none, none⟩)), .idle 2 clock) := by
  intro server program
  have hfits : program.Fits .standard := by
    refine ⟨by decide +kernel, fun space => ?_⟩
    cases space with
    | error err => exact trivial
    | ok _ => exact ⟨by decide +kernel, fun _ => trivial⟩
  exact runs_iff Libraries.standard_asStr_injective server (fun _ => 3) hfits 0 0

end Program

end ManagesieveClientStd

end ManageSieve
