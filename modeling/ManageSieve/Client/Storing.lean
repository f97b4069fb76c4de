import Mathlib.Logic.Function.Basic
import ManageSieve.Ceiling
import ManageSieve.Client.Serving

/-!
# Scripts come back as they were stored

What a client may expect of a server that keeps scripts (`Server.Keeps`): the octets that PUTSCRIPT
stored are the octets that GETSCRIPT returns, whatever they are and whatever was done in between, as
long as nothing touched that script (`Program.getScript_of_putScript`). `ScriptStore.server` is such
a server.
-/

namespace ManageSieve

open Coroutine

/-- The scripts that a command may change. -/
def ManagesieveCommand.changes : ManagesieveCommand → List String
  | .putScript cmd => [cmd.name]
  | .deleteScript cmd => [cmd.name]
  | .renameScript cmd => [cmd.name, cmd.newName]
  | _ => []

theorem ManagesieveCommand.changes_normal (cmd : ManagesieveCommand) :
    cmd.normal.changes = cmd.changes := by
  cases cmd <;> rfl

/-- A server keeps scripts: what it stores under a name is what was last put there. -/
structure Server.Keeps {St : Type*} (server : Server St) (stored : St → String → Option Bytes) :
    Prop where
  put : ∀ st cmd, (server.answer st (.putScript cmd)).1.response.completion.status = .ok →
    stored (server.answer st (.putScript cmd)).2 cmd.name = some cmd.script
  get : ∀ st cmd script, stored st cmd.name = some script →
    (server.answer st (.getScript cmd)).1.response.completion.status = .ok ∧
      (server.answer st (.getScript cmd)).1.response.data = [⟨[.string script]⟩]
  keeps : ∀ st cmd name, name ∉ cmd.changes → stored (server.answer st cmd).2 name = stored st name

namespace ManagesieveClientStd.Program

variable {ε ι St : Type} {R R' : Type*}

/-- Go on with another program. -/
def andThen : Program ε ι R → (R → Program ε ι R') → Program ε ι R'
  | done r, next => next r
  | call method rest, next => .call method fun result => (rest result).andThen next

theorem exec_andThen (server : Server St) (program : Program ε ι R)
    (next : R → Program ε ι R') (st : St) :
    (program.andThen next).exec server st =
      (next (program.exec server st).1).exec server (program.exec server st).2 := by
  induction program generalizing st with
  | done r => rfl
  | call method rest ih => exact ih _ _

theorem Fits.andThen {lib : Libraries} {program : Program ε ι R} {next : R → Program ε ι R'}
    (h : program.Fits lib) (hnext : ∀ r, (next r).Fits lib) : (program.andThen next).Fits lib := by
  induction program with
  | done r => exact hnext r
  | call method rest ih => exact ⟨h.1, fun result => ih result (h.2 result)⟩

/-- The program calls no method that may change the script of this name. -/
def Spares (name : String) : Program ε ι R → Prop
  | done _ => True
  | call method next => name ∉ method.command.changes ∧ ∀ result, (next result).Spares name

variable {server : Server St} {stored : St → String → Option Bytes}

/-- A script that is spared stays as it is. -/
theorem Spares.stored_exec (hkeeps : server.Keeps stored) {name : String}
    {program : Program ε ι R} (h : program.Spares name) (st : St) :
    stored (program.exec server st).2 name = stored st name := by
  induction program generalizing st with
  | done r => rfl
  | call method next ih =>
    have hstep := hkeeps.keeps st method.command.normal name
      (by rw [ManagesieveCommand.changes_normal]; exact h.1)
    exact (ih _ (h.2 _) _).trans hstep

/-- Store a script, do something else, and fetch it. -/
def storing (name : String) (script : Bytes) (between : Program ε ι R) :
    Program ε ι (Except (ManagesieveClientCallError ε ι) (Option String) × R ×
      Except (ManagesieveClientCallError ε ι) Bytes) :=
  .call (.putScript name script) fun put =>
    between.andThen fun r => .call (.getScript name) fun got => .done (put, r, got)

theorem exec_storing (hkeeps : server.Keeps stored) {name : String} {script : Bytes}
    {between : Program ε ι R} (hspares : between.Spares name) {st : St} {warnings : Option String}
    (h : ((storing name script between).exec server st).1.1 = .ok warnings) :
    ((storing name script between).exec server st).1.2.2 = .ok script := by
  let put := server.answer st (.putScript ⟨name, script⟩)
  let mid := between.exec server put.2
  let got := server.answer mid.2 (.getScript ⟨name⟩)
  have hexec : (storing name script between).exec server st =
      ((Method.result (.putScript name script) put.1.response, mid.1,
        Method.result (.getScript name) got.1.response), got.2) :=
    exec_andThen server between _ put.2
  rw [hexec] at h ⊢
  have hok : put.1.response.completion.status = .ok := by
    by_contra hne
    dsimp only [Method.result, Method.settle] at h
    rw [if_neg hne] at h
    cases h
  have hstored : stored mid.2 name = some script := by
    rw [hspares.stored_exec hkeeps]
    exact hkeeps.put st ⟨name, script⟩ hok
  obtain ⟨hstatus, hdata⟩ := hkeeps.get mid.2 ⟨name⟩ script hstored
  change Method.result (.getScript name) got.1.response = .ok script
  dsimp only [Method.result, Method.settle]
  rw [if_pos hstatus, hdata]
  rfl

theorem Fits.storing {lib : Libraries} {name : String} {script : Bytes} {between : Program ε ι R}
    (hname : (asBytes name).length ≤ maxLiteral) (hscript : script.length ≤ maxLiteral)
    (h : between.Fits lib) : (storing name script between).Fits lib := by
  refine ⟨List.forall_mem_cons.2 ⟨hname, List.forall_mem_cons.2 ⟨hscript, by simp⟩⟩, fun put => ?_⟩
  refine h.andThen fun r => ⟨List.forall_mem_cons.2 ⟨hname, by simp⟩, fun got => trivial⟩

/-- **Scripts come back as they were stored.** Over an idle stream to a server that keeps scripts,
however it cuts the responses, GETSCRIPT returns the octets that an accepted PUTSCRIPT sent, after
any program that spares the script. -/
theorem getScript_of_putScript {lib : Libraries} (hnames : Function.Injective lib.asStr)
    (hkeeps : server.Keeps stored) (cut : ℕ → ℕ) {name : String} {script : Bytes}
    {between : Program ε ι R} (hname : (asBytes name).length ≤ maxLiteral)
    (hscript : script.length ≤ maxLiteral) (hfits : between.Fits lib)
    (hspares : between.Spares name) (st : St) (clock : ℕ) :
    ∃ put r got conn, Runs (server.stream lib ι cut) (storing name script between)
        (.idle st clock) ((put, r, got), conn) ∧
      (∀ out, Runs (server.stream lib ι cut) (storing name script between)
        (.idle st clock) out → out = ((put, r, got), conn)) ∧
      ∀ warnings, put = .ok warnings → got = .ok script := by
  obtain ⟨clock', hruns⟩ := runs_exec (ε := ε) (ι := ι) hnames (server.answers_listen lib)
    cut (Fits.storing hname hscript hfits) st clock
  exact ⟨_, _, _, _, hruns, fun out hout => hout.unique hruns,
    fun warnings hput => exec_storing hkeeps hspares hput⟩

end ManagesieveClientStd.Program

/-! ## A server that keeps scripts -/

namespace ScriptStore

/-- A script that fits into a literal. -/
abbrev Script := { script : Bytes // script.length ≤ maxLiteral }

/-- A response that carries a script, as a literal. -/
def carryingBytes (script : Script) : Bytes :=
  ManagesieveResponseRead.scriptLine script.1 ++ (asBytes "OK" ++ crlf)

theorem renders_carryingBytes (script : Script) :
    Renders ⟨[⟨[.string script.1]⟩], Reply.completion .ok⟩ (carryingBytes script) :=
  .data (ManagesieveResponseRead.renders_scriptLine script.2)
    (.completion (Reply.renders_completion .ok))

theorem length_carryingBytes (script : Script) : (carryingBytes script).length ≤ maxResponse := by
  have hscript := script.2
  have hdigits : (decimal script.1.length).length ≤ 8 :=
    length_decimal_le (Nat.lt_of_le_of_lt hscript (by decide)) (by decide)
  have hok : (asBytes "OK" ++ crlf).length ≤ 5 := Reply.length_completion .ok
  rw [carryingBytes, List.length_append]
  simp only [ManagesieveResponseRead.scriptLine, literalMarker, crlf, List.length_append,
    List.length_cons, List.length_nil, if_true] at hok ⊢
  unfold maxResponse
  omega

def carrying (script : Script) : Reply where
  response := ⟨[⟨[.string script.1]⟩], Reply.completion .ok⟩
  bytes := carryingBytes script
  renders := renders_carryingBytes script
  fits := length_carryingBytes script

/-- What the server answers, and the scripts that it keeps then. -/
def answer (st : String → Option Script) :
    ManagesieveCommand → Reply × (String → Option Script)
  | .putScript cmd =>
    if h : cmd.script.length ≤ maxLiteral then
      (.plain .ok, Function.update st cmd.name (some ⟨cmd.script, h⟩))
    else (.plain .no, st)
  | .getScript cmd =>
    match st cmd.name with
    | some script => (carrying script, st)
    | none => (.plain .no, st)
  | .deleteScript cmd => (.plain .ok, Function.update st cmd.name none)
  | .renameScript cmd =>
    match st cmd.name, st cmd.newName with
    | some script, none =>
      (.plain .ok, Function.update (Function.update st cmd.name none) cmd.newName (some script))
    | _, _ => (.plain .no, st)
  | _ => (.plain .ok, st)

def server : Server (String → Option Script) := ⟨answer, .plain .no⟩

/-- The octets of a script that is kept. -/
def stored (st : String → Option Script) (name : String) : Option Bytes :=
  (st name).map Subtype.val

theorem keeps_stored : server.Keeps stored where
  put st cmd h := by
    change (answer st (.putScript cmd)).1.response.completion.status = .ok at h
    change stored (answer st (.putScript cmd)).2 cmd.name = _
    by_cases hlen : cmd.script.length ≤ maxLiteral
    · simp [answer, hlen, stored]
    · simp only [answer, hlen, dif_neg, not_false_eq_true] at h
      cases h
  get st cmd script h := by
    obtain ⟨kept, hkept, rfl⟩ := Option.map_eq_some_iff.1 h
    change (answer st (.getScript cmd)).1.response.completion.status = .ok ∧
      (answer st (.getScript cmd)).1.response.data = _
    simp only [answer, hkept]
    exact ⟨rfl, rfl⟩
  keeps st cmd name hname := by
    change stored (answer st cmd).2 name = _
    have hupdate : ∀ {changed script} {st : String → Option Script}, name ≠ changed →
        stored (Function.update st changed script) name = stored st name := by
      intro changed script st hne
      rw [stored, Function.update_of_ne hne, stored]
    cases cmd with
    | putScript cmd =>
      unfold answer
      dsimp only
      split_ifs
      · exact hupdate (by simpa [ManagesieveCommand.changes] using hname)
      · rfl
    | getScript cmd =>
      unfold answer
      dsimp only
      rcases st cmd.name with _ | script <;> rfl
    | deleteScript cmd => exact hupdate (by simpa [ManagesieveCommand.changes] using hname)
    | renameScript cmd =>
      simp only [ManagesieveCommand.changes, List.mem_cons, List.not_mem_nil, or_false, not_or]
        at hname
      unfold answer
      dsimp only
      rcases st cmd.name with _ | script
      · rfl
      · rcases st cmd.newName with _ | script'
        · exact (hupdate hname.2).trans (hupdate hname.1)
        · rfl
    | _ => rfl

/-- A script that holds a completion line, over a stream that gives one octet at a time. -/
theorem getScript_of_putScript_keep :
    let script := asBytes "keep;\r\nOK\r\n\"\x7b3\x7d\r\n"
    let between : ManagesieveClientStd.Program Unit Unit
        (Except (ManagesieveClientCallError Unit Unit) Unit) :=
      .call (.deleteScript "spam") .done
    ∃ put r got conn, ManagesieveClientStd.Program.Runs (server.stream .standard Unit fun _ => 0)
        (.storing "main" script between) (.idle (fun _ => none) 0) ((put, r, got), conn) ∧
      (∀ warnings, put = .ok warnings → got = .ok script) := by
  intro script between
  have hname : (asBytes "main").length ≤ maxLiteral := by decide +kernel
  have hscript : script.length ≤ maxLiteral := by decide +kernel
  have hfits : between.Fits .standard := ⟨by decide +kernel, fun _ => trivial⟩
  have hspares : between.Spares "main" := ⟨by decide, fun _ => trivial⟩
  obtain ⟨put, r, got, conn, hruns, -, hgot⟩ :=
    ManagesieveClientStd.Program.getScript_of_putScript Libraries.standard_asStr_injective
      keeps_stored (fun _ => 0) hname hscript hfits hspares (fun _ => none) 0
  exact ⟨put, r, got, conn, hruns, hgot⟩

end ScriptStore

end ManageSieve
