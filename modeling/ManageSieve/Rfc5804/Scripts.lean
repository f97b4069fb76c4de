import Mathlib.Data.List.Forall2
import ManageSieve.Rfc5804.Capability

/-!
# What the data lines say

The coroutines of `listscripts.rs` and `getscript.rs`. The commands that read data lines neither
lose nor invent one: `DataLines` says which lines of the wire these are, as the tokens that are
scanned, and `dataLines_returned` compares them with what the coroutines of LISTSCRIPTS, CAPABILITY,
the greeting and GETSCRIPT end on.

All of them skip what they cannot read. That nothing is skipped rests on the parser: a data line
opens on a string (`Shows.head`).
-/

namespace ManageSieve

open Coroutine Incremental

/-! ## LISTSCRIPTS and GETSCRIPT -/

/-- Whether the line carries `atom`, compared case-insensitively. -/
def ManagesieveDataLine.hasAtom (line : ManagesieveDataLine) (atom : String) : Bool :=
  line.tokens.any fun
    | .atom found => strEqIgnoreAsciiCase found atom
    | .string _ => false

/-- One stored script. -/
structure ManagesieveScript where
  name : String
  active : Bool
  deriving DecidableEq

/-- Read a script out of one data line. -/
def ManagesieveScript.parse (line : ManagesieveDataLine) : Option ManagesieveScript :=
  (line.string 0).map fun name => ⟨text name, line.hasAtom "ACTIVE"⟩

/-- Failure causes of the LISTSCRIPTS exchange. -/
inductive ManagesieveScriptListError
  | rejected (completion : ManagesieveCompletion)
  | send (err : ManagesieveCommandSendError)
  deriving DecidableEq

/-- I/O-free LISTSCRIPTS coroutine. -/
abbrev ManagesieveScriptList := ManagesieveCommandSend

namespace ManagesieveScriptList

def new : ManagesieveScriptList := ManagesieveCommandSend.new ManagesieveScriptListCommand.toBytes

/-- What the coroutine ends on. -/
abbrev Return := Except ManagesieveScriptListError (List ManagesieveScript)

/-- The scripts in the response. -/
def finish : ManagesieveResponseRead.Return → Return
  | .error err => .error (.send err)
  | .ok out =>
    match out.response.intoResult with
    | .error completion => .error (.rejected completion)
    | .ok response => .ok (response.data.filterMap ManagesieveScript.parse)

/-- The coroutine as a machine. -/
def machine : Machine ManagesieveScriptList UInt8 ManagesieveYield Return :=
  ManagesieveCommandSend.machine.mapDone finish

end ManagesieveScriptList

/-- Failure causes of the GETSCRIPT exchange. -/
inductive ManagesieveScriptGetError
  | rejected (completion : ManagesieveCompletion)
  | missingScript
  | send (err : ManagesieveCommandSendError)
  deriving DecidableEq

/-- I/O-free GETSCRIPT coroutine. -/
abbrev ManagesieveScriptGet := ManagesieveCommandSend

namespace ManagesieveScriptGet

/-- A coroutine that downloads the script called `name`. -/
def new (name : String) : ManagesieveScriptGet :=
  ManagesieveCommandSend.new (ManagesieveScriptGetCommand.toBytes ⟨name⟩)

/-- What the coroutine ends on. -/
abbrev Return := Except ManagesieveScriptGetError Bytes

/-- The script in the response. -/
def finish : ManagesieveResponseRead.Return → Return
  | .error err => .error (.send err)
  | .ok out =>
    match out.response.intoResult with
    | .error completion => .error (.rejected completion)
    | .ok response =>
      match response.data.head?.bind fun line => line.string 0 with
      | none => .error .missingScript
      | some script => .ok script

/-- The coroutine as a machine. -/
def machine : Machine ManagesieveScriptGet UInt8 ManagesieveYield Return :=
  ManagesieveCommandSend.machine.mapDone finish

end ManagesieveScriptGet

/-! ## The data lines on the wire -/

/-- `DataLines b lines`: the logical lines at the front of `b` that open on a string are `lines`,
and the line behind them does not open on one. -/
inductive DataLines : Bytes → List (List Token) → Prop
  | done {b tokens n} : scanLine b = .ok (some (tokens, n)) →
      (∀ name, tokens.head? ≠ some (.string name)) → DataLines b []
  | line {b name tokens n lines} : scanLine b = .ok (some (.string name :: tokens, n)) →
      DataLines (b.drop n) lines → DataLines b ((.string name :: tokens) :: lines)

/-- A script is what a line of the wire lists. -/
structure Lists (tokens : List Token) (script : ManagesieveScript) : Prop where
  name : ∃ name, tokens.head? = some (.string name) ∧ script.name = text name
  active : script.active = true ↔
    ∃ atom, .atom atom ∈ tokens ∧ eqIgnoreAsciiCase atom (asBytes "ACTIVE") = true

/-- A capability is what a line of the wire advertises. -/
structure Advertises (tokens : List Token) (capability : ManagesieveCapability) : Prop where
  name : ∃ name, tokens.head? = some (.string name) ∧ capability.name = text name
  value : ∀ value, capability.value = some value ↔
    ∃ string, tokens[1]? = some (.string string) ∧ value = text string

/-! ## From the wire to the data lines of a response -/

/-- A data line shows the tokens of a line of the wire that opens on a string. -/
structure Shows (tokens : List Token) (line : ManagesieveDataLine) : Prop where
  head : ∃ name, tokens.head? = some (.string name)
  tokens : List.Forall₂ (fun token shown => dataToken token = .ok shown) tokens line.tokens

theorem forall₂_of_dataTokens {tokens : List Token} {shown : List ManagesieveToken}
    (h : dataTokens tokens = .ok shown) :
    List.Forall₂ (fun token shown => dataToken token = .ok shown) tokens shown := by
  induction tokens generalizing shown with
  | nil =>
    cases h
    exact .nil
  | cons token tokens ih =>
    rw [dataTokens] at h
    rcases htoken : dataToken token with err | t <;> rw [htoken] at h
    · cases h
    · dsimp only at h
      rcases htokens : dataTokens tokens with err | ts <;> rw [htokens] at h <;> cases h
      exact .cons htoken (ih htokens)

theorem shows_of_parseLine {tokens : List Token} {line : ManagesieveDataLine}
    (h : parseLine tokens = .ok (.data line)) : Shows tokens line := by
  unfold parseLine at h
  split at h
  · next name rest =>
    rw [parseData] at h
    rcases htokens : dataTokens (.string name :: rest) with err | shown <;> rw [htokens] at h <;>
      cases h
    exact ⟨⟨name, rfl⟩, forall₂_of_dataTokens htokens⟩
  · split at h <;> cases h

theorem head?_of_parseLine {tokens : List Token} {completion : ManagesieveCompletion}
    (h : parseLine tokens = .ok (.completion completion)) (name : Bytes) :
    tokens.head? ≠ some (.string name) := by
  intro hhead
  rcases tokens with _ | ⟨token, tokens⟩
  · cases hhead
  · cases hhead
    unfold parseLine at h
    dsimp only at h
    split at h <;> cases h

/-- The data lines of a response show the lines at its front that open on a string. -/
theorem dataLines_of_untilFrom {buf : Bytes} {consumed n : ℕ} {data : List ManagesieveDataLine}
    {completion : ManagesieveCompletion}
    (h : untilFrom (fun _ => lineSumParser) buf consumed = .ok (some ((data, completion), n))) :
    ∃ lines, DataLines (buf.drop consumed) lines ∧ List.Forall₂ Shows lines data := by
  induction data generalizing consumed with
  | nil =>
    obtain ⟨read, hlast, -, -⟩ | ⟨v, read, ws, -, hvs, -⟩ := untilFrom_eq_some h
    · obtain ⟨line | done, hline, hsum⟩ := lineSumParser_eq_some hlast
      · cases hsum
      · obtain ⟨tokens, hscan, hparse⟩ := ManagesieveLine.parse_eq_some_iff.1 hline
        exact ⟨[], .done hscan (head?_of_parseLine hparse), .nil⟩
    · cases hvs
  | cons line data ih =>
    obtain ⟨read, -, hvs, -⟩ | ⟨v, read, ws, hfirst, hvs, hrest⟩ := untilFrom_eq_some h
    · cases hvs
    · cases hvs
      obtain ⟨line' | done, hline, hsum⟩ := lineSumParser_eq_some hfirst
      · cases hsum
        obtain ⟨tokens, hscan, hparse⟩ := ManagesieveLine.parse_eq_some_iff.1 hline
        obtain ⟨lines, hlines, hshows⟩ := ih hrest
        have hshow := shows_of_parseLine hparse
        obtain ⟨name, hname⟩ := hshow.head
        obtain ⟨rest, rfl⟩ := List.head?_eq_some_iff.1 hname
        rw [← List.drop_drop] at hlines
        exact ⟨_, .line hscan hlines, .cons hshow hshows⟩
      · cases hsum

theorem exists_dataLines {b : Bytes} {response : ManagesieveResponse} {n : ℕ}
    (h : ManagesieveResponse.parse b = .ok (some (response, n))) :
    ∃ lines, DataLines b lines ∧ List.Forall₂ Shows lines response.data :=
  dataLines_of_untilFrom (ManagesieveResponse.untilFrom_of_parse h)

/-! ## What the entries are read from -/

namespace Shows

variable {tokens : List Token} {line : ManagesieveDataLine}

theorem string_iff (h : Shows tokens line) (index : ℕ) (string : Bytes) :
    line.string index = some string ↔ tokens[index]? = some (.string string) := by
  obtain ⟨hlength, hget⟩ := List.forall₂_iff_get.1 h.tokens
  unfold ManagesieveDataLine.string
  by_cases hi : index < tokens.length
  · have hshown := hget index hi (hlength ▸ hi)
    rw [List.getElem?_eq_getElem hi, List.getElem?_eq_getElem (hlength ▸ hi)]
    rw [List.get_eq_getElem, List.get_eq_getElem] at hshown
    rcases htoken : tokens[index] with s | a | _ | _ <;> rw [htoken] at hshown <;>
      simp only [dataToken, reduceCtorEq, Except.ok.injEq] at hshown
    · simp [← hshown]
    · simp [← hshown]
  · rw [List.getElem?_eq_none (not_lt.1 hi), List.getElem?_eq_none (hlength ▸ not_lt.1 hi)]
    simp

theorem hasAtom_iff (h : Shows tokens line) {keyword : String}
    (hk : ∀ b ∈ asBytes keyword, b < 0x80) : line.hasAtom keyword = true ↔
      ∃ atom, .atom atom ∈ tokens ∧ eqIgnoreAsciiCase atom (asBytes keyword) = true := by
  obtain ⟨-, htokens⟩ := h
  unfold ManagesieveDataLine.hasAtom
  generalize line.tokens = shown at htokens
  induction htokens with
  | nil => simp
  | @cons token shown tokens rest htoken _ ih =>
    rw [List.any_cons, Bool.or_eq_true, ih]
    rcases token with s | a | _ | _ <;> cases htoken
    · simp
    · dsimp only
      rw [strEqIgnoreAsciiCase_text hk]
      simp

theorem lists (h : Shows tokens line) :
    ∃ script, ManagesieveScript.parse line = some script ∧ Lists tokens script := by
  obtain ⟨name, hname⟩ := h.head
  have hstring : line.string 0 = some name := by
    rw [h.string_iff, ← List.head?_eq_getElem?, hname]
  refine ⟨⟨text name, line.hasAtom "ACTIVE"⟩, ?_, ⟨name, hname, rfl⟩, ?_⟩
  · rw [ManagesieveScript.parse, hstring, Option.map_some]
  · exact h.hasAtom_iff (by decide +kernel)

theorem advertises (h : Shows tokens line) :
    ∃ capability, ManagesieveCapabilities.parseLine line = some capability ∧
      Advertises tokens capability := by
  obtain ⟨name, hname⟩ := h.head
  have hstring : line.string 0 = some name := by
    rw [h.string_iff, ← List.head?_eq_getElem?, hname]
  refine ⟨⟨text name, (line.string 1).map text⟩, ?_, ⟨name, hname, rfl⟩, fun value => ?_⟩
  · rw [ManagesieveCapabilities.parseLine, hstring, Option.map_some]
  · rw [Option.map_eq_some_iff]
    constructor
    · rintro ⟨string, hsecond, rfl⟩
      exact ⟨string, (h.string_iff 1 string).1 hsecond, rfl⟩
    · rintro ⟨string, hsecond, rfl⟩
      exact ⟨string, (h.string_iff 1 string).2 hsecond, rfl⟩

end Shows

/-- **Nothing is skipped** where every line is read as an entry. -/
theorem forall₂_filterMap {α β γ : Type*} {P : α → β → Prop} {Q : α → γ → Prop} {f : β → Option γ}
    {as : List α} {bs : List β} (h : List.Forall₂ P as bs)
    (hf : ∀ a b, P a b → ∃ c, f b = some c ∧ Q a c) : List.Forall₂ Q as (bs.filterMap f) := by
  induction h with
  | nil => exact .nil
  | cons hab _ ih =>
    obtain ⟨c, hc, hq⟩ := hf _ _ hab
    rw [List.filterMap_cons_some hc]
    exact .cons hq ih

/-! ## What the coroutines end on -/

section

variable {b : Bytes} {cs : List Bytes} {response : ManagesieveResponse} {n : ℕ}
variable (hcs : Cuts cs b) (hlen : b.length ≤ maxResponse)
variable (hp : ManagesieveResponse.parse b = .ok (some (response, n)))

include hcs hlen hp

/-- The reader ends on the response, wherever the reads are cut. -/
theorem ManagesieveResponseRead.result_of_parse :
    (machine.drive .new none cs).pause.result =
      some (.ok ⟨response, (fedOf (machine.drive .new none cs).events).flatten.drop n⟩) := by
  have hends := ManagesieveResponseRead.endsAsParsed hcs hlen
  unfold EndsAsParsed at hends
  rw [hp] at hends
  obtain ⟨⟨s, hs⟩, -⟩ := hends
  rw [hs]
  rfl

/-- A command ends on what it makes of the response. -/
theorem ManagesieveCommandSend.result_of_parse {R : Type*}
    (finish : ManagesieveResponseRead.Return → R) (bytes : Bytes) :
    ∃ trailing, ((machine.mapDone finish).drive (.new bytes) none cs).pause.result =
      some (finish (.ok ⟨response, trailing⟩)) := by
  have hread := ManagesieveResponseRead.result_of_parse hcs hlen hp
  rw [Machine.drive_mapDone, ManagesieveCommandSend.drive_new]
  simp only [Transcript.prepend_pause, Pause.result_map, hread]
  exact ⟨_, rfl⟩

/-- A greeting that no byte was read past ends on what it makes of the response. -/
theorem ManagesieveGreetingGet.result_of_parse
    (hexact : (fedOf (machine.drive .new none cs).events).flatten.length ≤ n) :
    (machine.drive .new none cs).pause.result = some (finish (.ok ⟨response, []⟩)) := by
  have hread := ManagesieveResponseRead.result_of_parse hcs hlen hp
  rw [machine, Machine.drive_mapDone, new] at hexact ⊢
  rw [Pause.result_map, hread, Option.map_some, List.drop_eq_nil_of_le hexact]

end

/-- **The commands that read data lines lose none and invent none.** -/
theorem dataLines_returned {b : Bytes} {cs : List Bytes} {response : ManagesieveResponse} {n : ℕ}
    (hcs : Cuts cs b) (hlen : b.length ≤ maxResponse)
    (hp : ManagesieveResponse.parse b = .ok (some (response, n))) (script : String) :
    let listed := ManagesieveScriptList.machine.drive .new none cs
    let asked := ManagesieveCapabilityGet.machine.drive .new none cs
    let greeted := ManagesieveGreetingGet.machine.drive .new none cs
    let got := ManagesieveScriptGet.machine.drive (.new script) none cs
    (response.completion.status = .ok → ∃ lines, DataLines b lines ∧
      (∃ scripts, listed.pause.result = some (.ok scripts) ∧ List.Forall₂ Lists lines scripts) ∧
      (∃ capabilities, asked.pause.result = some (.ok ⟨capabilities⟩) ∧
        List.Forall₂ Advertises lines capabilities) ∧
      ((fedOf greeted.events).flatten.length ≤ n →
        ∃ capabilities, greeted.pause.result = some (.ok ⟨capabilities⟩) ∧
          List.Forall₂ Advertises lines capabilities) ∧
      (got.pause.result = some (.error .missingScript) ↔ lines = []) ∧
      ∀ tokens ∈ lines.head?, ∃ body, tokens.head? = some (.string body) ∧
        got.pause.result = some (.ok body)) ∧
    (response.completion.status ≠ .ok →
      listed.pause.result = some (.error (.rejected response.completion)) ∧
      asked.pause.result = some (.error (.rejected response.completion)) ∧
      ((fedOf greeted.events).flatten.length ≤ n →
        greeted.pause.result = some (.error (.rejected response.completion))) ∧
      got.pause.result = some (.error (.rejected response.completion))) := by
  intro listed asked greeted got
  obtain ⟨t₁, hlisted⟩ : ∃ trailing, listed.pause.result = some _ :=
    ManagesieveCommandSend.result_of_parse hcs hlen hp ManagesieveScriptList.finish _
  obtain ⟨t₂, hasked⟩ : ∃ trailing, asked.pause.result = some _ :=
    ManagesieveCommandSend.result_of_parse hcs hlen hp ManagesieveCapabilityGet.finish _
  obtain ⟨t₃, hgot⟩ : ∃ trailing, got.pause.result = some _ :=
    ManagesieveCommandSend.result_of_parse hcs hlen hp ManagesieveScriptGet.finish _
  have hgreeted := ManagesieveGreetingGet.result_of_parse hcs hlen hp
  unfold ManagesieveScriptList.finish at hlisted
  unfold ManagesieveCapabilityGet.finish at hasked
  unfold ManagesieveScriptGet.finish at hgot
  unfold ManagesieveGreetingGet.finish at hgreeted
  constructor
  · intro hok
    obtain ⟨lines, hlines, hshows⟩ := exists_dataLines hp
    simp only [ManagesieveResponse.intoResult_of_ok hok] at hlisted hasked hgot
    simp only [hok, ne_eq, not_true_eq_false, if_false] at hgreeted
    have hscripts := forall₂_filterMap hshows fun _ _ => Shows.lists
    have hcapabilities := forall₂_filterMap hshows fun _ _ => Shows.advertises
    refine ⟨lines, hlines, ⟨_, hlisted, hscripts⟩, ⟨_, hasked, hcapabilities⟩,
      fun hexact => ⟨_, hgreeted hexact, hcapabilities⟩, ?_⟩
    generalize response.data = data at hshows hgot
    cases hshows with
    | nil => exact ⟨iff_of_true hgot rfl, by simp⟩
    | @cons tokens line lines data hshow _ =>
      obtain ⟨body, hbody⟩ := hshow.head
      have hstring : line.string 0 = some body := by
        rw [hshow.string_iff, ← List.head?_eq_getElem?, hbody]
      simp only [List.head?_cons, Option.bind_some, hstring] at hgot
      rw [hgot]
      refine ⟨by simp, ?_⟩
      rintro _ ⟨⟩
      exact ⟨body, hbody, rfl⟩
  · intro hne
    simp only [ManagesieveResponse.intoResult_of_ne hne] at hlisted hasked hgot
    simp only [ne_eq, not_true_eq_false, if_false, if_pos hne] at hgreeted
    exact ⟨hlisted, hasked, hgreeted, hgot⟩

/-- Two scripts in three reads, the active one named by a literal and marked in lower case; the name
of the other one is no marker. -/
theorem dataLines_returned_active :
    let cs := [asBytes "\"ACTIVE\"\r\n\x7b2\x7d\r", asBytes "\nab active\r\nO", asBytes "K\r\n"]
    ∃ lines scripts, DataLines cs.flatten lines ∧
      (ManagesieveScriptList.machine.drive .new none cs).pause.result = some (.ok scripts) ∧
      List.Forall₂ Lists lines scripts := by
  intro cs
  have hcs : Cuts cs cs.flatten := ⟨rfl, by decide +kernel⟩
  have hlen : cs.flatten.length ≤ maxResponse := by decide +kernel
  have hp : ManagesieveResponse.parse cs.flatten = .ok (some (⟨[⟨[.string (asBytes "ACTIVE")]⟩,
      ⟨[.string (asBytes "ab"), .atom (text (asBytes "active"))]⟩], ⟨.ok, none, none⟩⟩, 30)) := by
    decide +kernel
  obtain ⟨lines, hlines, ⟨scripts, hscripts, hlists⟩, -⟩ :=
    (dataLines_returned hcs hlen hp "").1 rfl
  exact ⟨lines, scripts, hlines, hscripts, hlists⟩

end ManageSieve
