import ManageSieve.Foundations.Coroutine
import ManageSieve.Wire.Framing

/-!
# The base coroutines

`send.rs` and the coroutine contract of `coroutine.rs`. `ManagesieveResponseRead` reads one response
off the stream, parsing its buffer again after every read; `ManagesieveCommandSend` writes a command
first. `ManagesieveResponseRead.drive_new_reads` says what a run does with the bytes it was fed: it
is what the parser says of them, wherever the reads were cut.
-/

namespace ManageSieve

open Coroutine

/-- `MAX_RESPONSE`: the bytes that an incomplete response may occupy. -/
def maxResponse : ℕ := maxLiteral + 1024 * 1024

/-- The requests of a coroutine to its caller. -/
inductive ManagesieveYield
  | wantsRead
  | wantsWrite (bytes : Bytes)
  deriving DecidableEq

namespace ManagesieveYield

/-- Whether the caller answers a request with bytes. -/
def isRead : ManagesieveYield → Bool
  | wantsRead => true
  | wantsWrite _ => false

/-- The bytes that a request writes. -/
def written : ManagesieveYield → Option Bytes
  | wantsRead => none
  | wantsWrite bytes => some bytes

end ManagesieveYield

/-- The bytes written by some events, one entry for each request. -/
def writesOf (es : List (Event UInt8 ManagesieveYield)) : List Bytes :=
  (yieldsOf es).filterMap ManagesieveYield.written

@[simp] theorem writesOf_nil : writesOf [] = [] := rfl
@[simp] theorem writesOf_write (bytes : Bytes) (es : List (Event UInt8 ManagesieveYield)) :
    writesOf (.yielded (.wantsWrite bytes) :: es) = bytes :: writesOf es := rfl
@[simp] theorem writesOf_append (es es' : List (Event UInt8 ManagesieveYield)) :
    writesOf (es ++ es') = writesOf es ++ writesOf es' := by
  simp [writesOf]

/-- Events that only ask for reads write nothing. -/
theorem writesOf_eq_nil {es : List (Event UInt8 ManagesieveYield)}
    (h : ∀ y ∈ yieldsOf es, y = .wantsRead) : writesOf es = [] := by
  rw [writesOf, List.filterMap_eq_nil_iff]
  intro y hy
  rw [h y hy]
  rfl

/-- Failure causes raised by the two base coroutines. -/
inductive ManagesieveCommandSendError
  | eof
  | responseTooLarge
  | parseResponse (err : ManagesieveResponseParseError)
  deriving DecidableEq

/-- What the two base coroutines end on: the response, and whatever the server sent past it. -/
structure ManagesieveResponseReadOk where
  response : ManagesieveResponse
  trailing : Bytes
  deriving DecidableEq

/-- What a resume answers. -/
abbrev Answer (σ R : Type*) := Resumed ManagesieveYield R × σ

/-! ## Reading a response -/

/-- I/O-free coroutine that reads one response. -/
structure ManagesieveResponseRead where
  wantsRead : Bool
  buf : Bytes
  deriving DecidableEq

namespace ManagesieveResponseRead

/-- A fresh coroutine. -/
def new : ManagesieveResponseRead := ⟨false, []⟩

/-- What the coroutine ends on. -/
abbrev Return := Except ManagesieveCommandSendError ManagesieveResponseReadOk

/-- One turn of the loop of `resume`, on the coroutine and the argument that is left. -/
def turn (s : ManagesieveResponseRead × Option Bytes) :
    Turn (ManagesieveResponseRead × Option Bytes) (Answer ManagesieveResponseRead Return) :=
  let (self, arg) := s
  if self.wantsRead then .done (.yielded .wantsRead, { self with wantsRead := false })
  else
    match arg with
    | some [] => .done (.complete (.error .eof), self)
    | none => .again ({ self with wantsRead := true }, none)
    | some data =>
      let buf := self.buf ++ data
      match ManagesieveResponse.parse buf with
      | .error err => .done (.complete (.error (.parseResponse err)), { self with buf })
      | .ok none =>
        if maxResponse < buf.length then
          .done (.complete (.error .responseTooLarge), { self with buf })
        else .again (⟨true, buf⟩, none)
      | .ok (some (response, consumed)) =>
        .done (.complete (.ok ⟨response, buf.drop consumed⟩),
          { self with buf := buf.take consumed })

/-- The loop of `resume`: a turn that is not the last one asks for a read. -/
def loop :
    Loop (ManagesieveResponseRead × Option Bytes) (Answer ManagesieveResponseRead Return) where
  turn := turn
  rank s := if s.1.wantsRead then 0 else 1
  rank_lt {s s'} h := by
    rcases s with ⟨⟨_ | _, buf⟩, _ | _ | ⟨b, data⟩⟩
    · cases h
      simp
    · cases h
    · simp only [turn, Bool.false_eq_true, if_false] at h
      rcases hp : ManagesieveResponse.parse (buf ++ b :: data) with
        err | _ | ⟨response, consumed⟩ <;> rw [hp] at h
      · cases h
      · dsimp only at h
        split_ifs at h
        cases h
        exact Nat.zero_lt_one
      · cases h
    all_goals cases h

/-- Advance the coroutine one step. -/
def resume (self : ManagesieveResponseRead) (arg : Option Bytes) :
    Answer ManagesieveResponseRead Return :=
  loop.run (self, arg)

theorem resume_none (buf : Bytes) :
    resume ⟨false, buf⟩ none = (.yielded .wantsRead, ⟨false, buf⟩) := by
  have h₁ : loop.turn (⟨false, buf⟩, none) = .again (⟨true, buf⟩, none) := rfl
  have h₂ : loop.turn (⟨true, buf⟩, none) = .done (.yielded .wantsRead, ⟨false, buf⟩) := rfl
  rw [resume, Loop.run_again _ h₁, Loop.run_done _ h₂]

theorem resume_eof (buf : Bytes) :
    resume ⟨false, buf⟩ (some []) = (.complete (.error .eof), ⟨false, buf⟩) :=
  Loop.run_done _ rfl

/-- What a resume does with the bytes that were read. -/
theorem resume_some (buf : Bytes) {data : Bytes} (h : data ≠ []) :
    resume ⟨false, buf⟩ (some data) =
      match ManagesieveResponse.parse (buf ++ data) with
      | .error err => (.complete (.error (.parseResponse err)), ⟨false, buf ++ data⟩)
      | .ok none =>
        if maxResponse < (buf ++ data).length then
          (.complete (.error .responseTooLarge), ⟨false, buf ++ data⟩)
        else (.yielded .wantsRead, ⟨false, buf ++ data⟩)
      | .ok (some (response, consumed)) =>
        (.complete (.ok ⟨response, (buf ++ data).drop consumed⟩),
          ⟨false, (buf ++ data).take consumed⟩) := by
  obtain ⟨b, data, rfl⟩ := List.exists_cons_of_ne_nil h
  have hturn : loop.turn (⟨false, buf⟩, some (b :: data)) =
      match ManagesieveResponse.parse (buf ++ b :: data) with
      | .error err => .done (.complete (.error (.parseResponse err)), ⟨false, buf ++ b :: data⟩)
      | .ok none =>
        if maxResponse < (buf ++ b :: data).length then
          .done (.complete (.error .responseTooLarge), ⟨false, buf ++ b :: data⟩)
        else .again (⟨true, buf ++ b :: data⟩, none)
      | .ok (some (response, consumed)) =>
        .done (.complete (.ok ⟨response, (buf ++ b :: data).drop consumed⟩),
          ⟨false, (buf ++ b :: data).take consumed⟩) := rfl
  rcases hp : ManagesieveResponse.parse (buf ++ b :: data) with err | _ | ⟨response, consumed⟩ <;>
    rw [hp] at hturn
  · exact Loop.run_done _ hturn
  · dsimp only at hturn ⊢
    split_ifs at hturn ⊢
    · exact Loop.run_done _ hturn
    · exact (Loop.run_again _ hturn).trans (Loop.run_done _ rfl)
  · exact Loop.run_done _ hturn

/-- The coroutine as a machine. -/
def machine : Machine ManagesieveResponseRead UInt8 ManagesieveYield Return where
  resume := resume
  reads := ManagesieveYield.isRead
  budget _ := 0
  budget_lt {s y s'} h hy := by
    rcases s with ⟨_ | _, buf⟩
    · rw [resume_none] at h
      cases h
      cases hy
    · have : resume ⟨true, buf⟩ none = (.yielded .wantsRead, ⟨false, buf⟩) :=
        Loop.run_done _ rfl
      rw [this] at h
      cases h
      cases hy

@[simp] theorem machine_resume (s : ManagesieveResponseRead) (arg : Option Bytes) :
    machine.resume s arg = s.resume arg := rfl

@[simp] theorem machine_reads : machine.reads = ManagesieveYield.isRead := rfl

/-- How a run stands once the bytes `b` were buffered; it met the end of the stream only if `eof`
holds. -/
def Outcome (b : Bytes) (eof : Prop) (pause : Pause ManagesieveResponseRead Return) : Prop :=
  match ManagesieveResponse.parse b with
  | .error err => pause = .finished (.error (.parseResponse err)) ⟨false, b⟩
  | .ok none =>
    pause = .waiting ⟨false, b⟩ ∨
      pause = .finished (.error .responseTooLarge) ⟨false, b⟩ ∧ maxResponse < b.length ∨
        pause = .finished (.error .eof) ⟨false, b⟩ ∧ eof
  | .ok (some (response, consumed)) =>
    pause = .finished (.ok ⟨response, b.drop consumed⟩) ⟨false, b.take consumed⟩

/-- What a run says of the bytes buffered before it, `buf`, and the reads it was fed. -/
structure ReadsStream (buf : Bytes) (fed : List Bytes)
    (t : Transcript ManagesieveResponseRead UInt8 ManagesieveYield Return) : Prop where
  only_reads : ∀ y ∈ yieldsOf t.events, y = .wantsRead
  outcome : Outcome (buf ++ fed.flatten) ([] ∈ fed) t.pause
  /-- Before the last read there was no response, and no error. -/
  waited : ∀ k < fed.length, ManagesieveResponse.parse (buf ++ (fed.take k).flatten) = .ok none

/-- What holds before every resume of a run: nothing was found in what is buffered, nor before the
last read, and what is buffered and what the resume carries are the reads so far. -/
structure Reading (es : List (Event UInt8 ManagesieveYield)) (s : ManagesieveResponseRead)
    (arg : Option Bytes) : Prop where
  wantsRead : s.wantsRead = false
  only_reads : ∀ y ∈ yieldsOf es, y = .wantsRead
  buffered : s.buf ++ arg.getD [] = (fedOf es).flatten
  eof : arg = some [] → [] ∈ fedOf es
  nothing : ManagesieveResponse.parse s.buf = .ok none
  waited : ∀ k < (fedOf es).length, ManagesieveResponse.parse ((fedOf es).take k).flatten = .ok none

/-- What holds at every pause of a run. -/
def Paused (es : List (Event UInt8 ManagesieveYield))
    (pause : Pause ManagesieveResponseRead Return) :
    Prop :=
  ReadsStream [] (fedOf es) ⟨es, pause, []⟩

/-- A request for a read, nothing being found in the reads so far. -/
theorem Reading.asks {es : List (Event UInt8 ManagesieveYield)} {s : ManagesieveResponseRead}
    {arg : Option Bytes} (h : Reading es s arg)
    (hnone : ManagesieveResponse.parse (s.buf ++ arg.getD []) = .ok none) :
    Paused (es ++ [.yielded .wantsRead]) (.waiting ⟨false, s.buf ++ arg.getD []⟩) ∧
      ∀ c, Reading (es ++ [.yielded .wantsRead, .fed c]) ⟨false, s.buf ++ arg.getD []⟩
        (some c) := by
  have hyields : ∀ y ∈ yieldsOf es ++ [.wantsRead], y = .wantsRead := by
    intro y hy
    rcases List.mem_append.1 hy with hy | hy
    · exact h.only_reads y hy
    · exact List.mem_singleton.1 hy
  have hnone' := hnone
  rw [h.buffered] at hnone'
  refine ⟨⟨by simpa using hyields, ?_, by simpa using h.waited⟩, fun c => ?_⟩
  · simp [Outcome, hnone', h.buffered]
  · refine ⟨rfl, by simpa using hyields, by simp [h.buffered], ?_, hnone, fun k hk => ?_⟩
    · rintro ⟨⟩
      simp
    simp only [fedOf_append, fedOf_yielded, fedOf_fed, fedOf_nil, List.length_append,
      List.length_singleton] at hk ⊢
    rw [List.take_append_of_le_length (by omega)]
    rcases Nat.lt_or_ge k (fedOf es).length with hlt | hge
    · exact h.waited k hlt
    · rwa [List.take_of_length_le hge]

/-- **What a resume keeps**: it asks for a read, or ends on what the parser says of the reads so
far. -/
theorem keeps_reading : machine.Keeps (fun _ => True) Reading Paused := by
  rintro es ⟨wantsRead, buf⟩ arg h
  obtain rfl : wantsRead = false := h.wantsRead
  -- a resume that ends leaves the events as they are
  have hends : ∀ pause, Outcome (buf ++ arg.getD []) ([] ∈ fedOf es) pause → Paused es pause := by
    intro pause hout
    rw [h.buffered] at hout
    exact ⟨h.only_reads, by simpa using hout, by simpa using h.waited⟩
  rw [machine_resume]
  rcases arg with _ | _ | ⟨b, data⟩
  · rw [resume_none]
    simpa [ManagesieveYield.isRead] using h.asks (by simpa using h.nothing)
  · rw [resume_eof]
    apply hends _
    rw [Option.getD_some, List.append_nil, Outcome, h.nothing]
    exact Or.inr (Or.inr ⟨rfl, h.eof rfl⟩)
  · rw [resume_some buf (List.cons_ne_nil b data)]
    dsimp only [Option.getD_some] at hends
    unfold Outcome at hends
    rcases hp : ManagesieveResponse.parse (buf ++ b :: data) with err | _ | ⟨response, consumed⟩ <;>
      rw [hp] at hends
    · exact hends _ rfl
    · dsimp only
      by_cases hlen : maxResponse < (buf ++ b :: data).length
      · rw [if_pos hlen]
        exact hends _ (Or.inr (Or.inl ⟨rfl, hlen⟩))
      · rw [if_neg hlen]
        simpa [ManagesieveYield.isRead] using h.asks hp
    · exact hends _ rfl

end ManagesieveResponseRead

/-! ## Sending a command -/

/-- I/O-free coroutine that sends one command and reads its response. -/
structure ManagesieveCommandSend where
  bytes : Option Bytes
  read : ManagesieveResponseRead
  deriving DecidableEq

namespace ManagesieveCommandSend

/-- The coroutine of a command that is serialised as `bytes`. -/
def new (bytes : Bytes) : ManagesieveCommandSend := ⟨some bytes, .new⟩

/-- Advance the coroutine one step. -/
def resume (self : ManagesieveCommandSend) (arg : Option Bytes) :
    Answer ManagesieveCommandSend ManagesieveResponseRead.Return :=
  match self.bytes with
  | some bytes => (.yielded (.wantsWrite bytes), { self with bytes := none })
  | none => ((self.read.resume arg).1, { self with read := (self.read.resume arg).2 })

/-- The coroutine as a machine. -/
def machine : Machine ManagesieveCommandSend UInt8 ManagesieveYield
    ManagesieveResponseRead.Return where
  resume := resume
  reads := ManagesieveYield.isRead
  budget s := if s.bytes.isSome then 1 else 0
  budget_lt {s y s'} h hy := by
    rcases s with ⟨_ | bytes, read⟩
    · simp only [resume, Prod.mk.injEq] at h
      have hread : ManagesieveResponseRead.machine.resume read none =
          (.yielded y, (read.resume none).2) := Prod.ext h.1 rfl
      exact absurd (ManagesieveResponseRead.machine.budget_lt hread hy)
        (by simp [ManagesieveResponseRead.machine])
    · cases h
      simp

/-- Once the command is written, the coroutine is the reader. -/
theorem nests_read : Machine.Nests ManagesieveResponseRead.machine machine id (⟨none, ·⟩)
    (fun r s => (.complete r, ⟨none, s⟩)) fun _ => True where
  reads_into _ := rfl
  keeps _ _ := trivial
  resume_yielded {t arg y t'} _ h := by
    rw [ManagesieveResponseRead.machine_resume] at h
    simp [machine, resume, h]
  resume_complete {t arg r t'} _ h := by
    rw [ManagesieveResponseRead.machine_resume] at h
    simp [machine, resume, h]
  resume_panicked {t arg msg t'} _ h := by
    rw [ManagesieveResponseRead.machine_resume] at h
    simp [machine, resume, h]

/-- A run of the sender is a write, then a run of the reader. -/
theorem drive_new (bytes : Bytes) (arg : Option Bytes) (cs : List Bytes) :
    machine.drive (new bytes) arg cs =
      (⟨(ManagesieveResponseRead.machine.drive .new none cs).events,
        (ManagesieveResponseRead.machine.drive .new none cs).pause.map (⟨none, ·⟩) id,
        (ManagesieveResponseRead.machine.drive .new none cs).unfed⟩ :
          Transcript ManagesieveCommandSend UInt8 ManagesieveYield _).prepend
        [.yielded (.wantsWrite bytes)] := by
  have hr : machine.resume (new bytes) arg =
      (.yielded (.wantsWrite bytes), ⟨none, .new⟩) := rfl
  have hmap := nests_read.drive_map (f := id) (t := .new) trivial none cs
  rw [Machine.drive_yield hr rfl, hmap]
  simp

end ManagesieveCommandSend

/-! ## Where the reads are cut -/

/-- A run on the whole stream `b` ends as the parser says: on its error, on its response as soon as
the reads cover it, or waiting for more. -/
def EndsAsParsed {σ : Type*} (b : Bytes)
    (t : Transcript σ UInt8 ManagesieveYield ManagesieveResponseRead.Return) : Prop :=
  match ManagesieveResponse.parse b with
  | .error err => ∃ s, t.pause = .finished (.error (.parseResponse err)) s
  | .ok none => (∃ s, t.pause = .waiting s) ∧ t.unfed = []
  | .ok (some (response, n)) =>
    (∃ s, t.pause = .finished (.ok ⟨response, (fedOf t.events).flatten.drop n⟩) s) ∧
      n ≤ (fedOf t.events).flatten.length ∧ (fedOf t.events).dropLast.flatten.length < n

theorem parse_nil : ManagesieveResponse.parse [] = .ok none := by decide +kernel

/-- **A run of the reader says what the parser says of the bytes it was fed**, joined together. -/
theorem ManagesieveResponseRead.drive_new_reads (cs : List Bytes) :
    ReadsStream [] (fedOf (machine.drive .new none cs).events) (machine.drive .new none cs) := by
  have hstart : Reading [] .new none := ⟨rfl, by simp, rfl, by simp, parse_nil, by simp⟩
  obtain ⟨honly, hout, hwaited⟩ :=
    Machine.drive_post keeps_reading (fun c (_ : c ∈ cs) => trivial) hstart
  exact ⟨honly, hout, hwaited⟩

/-- A run of the reader that ends well ends on the response it was fed, and what came past it. -/
theorem ManagesieveResponseRead.parse_of_ok {cs : List Bytes} {out : ManagesieveResponseReadOk}
    (h : (machine.drive .new none cs).pause.result = some (.ok out)) :
    ∃ n, ManagesieveResponse.parse (fedOf (machine.drive .new none cs).events).flatten =
        .ok (some (out.response, n)) ∧
      out.trailing = (fedOf (machine.drive .new none cs).events).flatten.drop n := by
  have hout := (drive_new_reads cs).outcome
  generalize machine.drive .new none cs = t at *
  rw [List.nil_append, Outcome] at hout
  rcases hp : ManagesieveResponse.parse (fedOf t.events).flatten with err | _ | ⟨response, n⟩ <;>
    rw [hp] at hout
  · rw [hout] at h
    cases h
  · rcases hout with hout | ⟨hout, -⟩ | ⟨hout, -⟩ <;> rw [hout] at h <;> cases h
  · dsimp only at hout
    rw [hout] at h
    cases h
    exact ⟨n, rfl, rfl⟩

/-- What a run of the reader was fed is a prefix of the stream. -/
theorem ManagesieveResponseRead.fed_isPrefix {b : Bytes} {cs : List Bytes} (hcs : Cuts cs b) :
    (fedOf (machine.drive .new none cs).events).flatten <+: b := by
  have hfed := Machine.fed_append_unfed (m := machine) .new none cs
  exact ⟨(machine.drive .new none cs).unfed.flatten,
    by rw [← List.flatten_append, hfed, hcs.flatten]⟩

/-- A run of the reader that found nothing waits, fed the whole stream, or gave up at the
ceiling. -/
theorem ManagesieveResponseRead.pause_of_none {b : Bytes} {cs : List Bytes} (hcs : Cuts cs b)
    (hnone : ManagesieveResponse.parse (fedOf (machine.drive .new none cs).events).flatten =
      .ok none) :
    (∃ s, (machine.drive .new none cs).pause = .waiting s) ∧
        (machine.drive .new none cs).unfed = [] ∧
        (fedOf (machine.drive .new none cs).events).flatten = b ∨
      (∃ s, (machine.drive .new none cs).pause = .finished (.error .responseTooLarge) s) ∧
        maxResponse < (fedOf (machine.drive .new none cs).events).flatten.length := by
  have hout := (drive_new_reads cs).outcome
  have hfed := Machine.fed_append_unfed (m := machine) .new none cs
  have hwait := @Machine.unfed_of_waiting _ _ _ _ machine none cs .new
  generalize machine.drive .new none cs = t at *
  rw [List.nil_append, Outcome, hnone] at hout
  rcases hout with h | ⟨h, hover⟩ | ⟨-, h⟩
  · have hun := hwait h
    rw [hun, List.append_nil] at hfed
    exact Or.inl ⟨⟨_, h⟩, hun, by rw [hfed, hcs.flatten]⟩
  · exact Or.inr ⟨⟨_, h⟩, hover⟩
  · exact absurd rfl (hcs.ne_nil [] (by rw [← hfed]; simp [h]))

/-- On a stream within the ceiling it was fed the whole of it. -/
theorem ManagesieveResponseRead.waiting_of_none {b : Bytes} {cs : List Bytes} (hcs : Cuts cs b)
    (hlen : b.length ≤ maxResponse)
    (hnone : ManagesieveResponse.parse (fedOf (machine.drive .new none cs).events).flatten =
      .ok none) :
    (∃ s, (machine.drive .new none cs).pause = .waiting s) ∧
      (machine.drive .new none cs).unfed = [] ∧
      (fedOf (machine.drive .new none cs).events).flatten = b := by
  rcases pause_of_none hcs hnone with h | ⟨-, hover⟩
  · exact h
  · have := (fed_isPrefix hcs).length_le
    omega

/-- The reads before the last one did not cover the response. -/
theorem ManagesieveResponseRead.dropLast_lt {b : Bytes} {cs : List Bytes} (hcs : Cuts cs b)
    {response : ManagesieveResponse} {n : ℕ}
    (hp : ManagesieveResponse.parse b = .ok (some (response, n)))
    (hne : fedOf (machine.drive .new none cs).events ≠ []) :
    (fedOf (machine.drive .new none cs).events).dropLast.flatten.length < n := by
  have hwaited := (drive_new_reads cs).waited
  have hprefix := fed_isPrefix hcs
  generalize machine.drive .new none cs = t at *
  have hlast := hwaited ((fedOf t.events).length - 1)
    (Nat.sub_lt (List.length_pos_iff.2 hne) Nat.one_pos)
  rw [List.nil_append, ← List.dropLast_eq_take] at hlast
  have hprefix' : (fedOf t.events).dropLast.flatten <+: b :=
    (List.IsPrefix.flatten (List.dropLast_prefix _)).trans hprefix
  have hpre := responseParser.parse_prefix hprefix' hp
  rw [responseParser_parse, hlast] at hpre
  split_ifs at hpre with hn
  · cases hpre
  · exact Nat.not_le.1 hn

/-- A run of the reader ends as the parser says of the whole stream. -/
theorem ManagesieveResponseRead.endsAsParsed {b : Bytes} {cs : List Bytes} (hcs : Cuts cs b)
    (hlen : b.length ≤ maxResponse) :
    EndsAsParsed b (machine.drive .new none cs) := by
  have hout := (drive_new_reads cs).outcome
  have hnone := waiting_of_none hcs hlen
  have hprefix := fed_isPrefix hcs
  rw [List.nil_append, Outcome] at hout
  unfold EndsAsParsed
  rcases hp : ManagesieveResponse.parse b with err | _ | ⟨response, n⟩
  · rcases responseParser.error_or_none_of_prefix hprefix hp with h | h
    · rw [responseParser_parse] at h
      rw [h] at hout
      exact ⟨_, hout⟩
    · obtain ⟨-, -, hb⟩ := hnone h
      rw [responseParser_parse, hb, hp] at h
      cases h
  · obtain ⟨u, hu⟩ := hprefix
    have h := responseParser.none_of_append
      (b := (fedOf (machine.drive .new none cs).events).flatten) (t := u) (by rwa [hu])
    obtain ⟨hwait, hun, -⟩ := hnone h
    exact ⟨hwait, hun⟩
  · have hpre := responseParser.parse_prefix hprefix hp
    rw [responseParser_parse] at hpre
    split_ifs at hpre with hn
    · rw [hpre] at hout
      have hne : fedOf (machine.drive .new none cs).events ≠ [] := by
        intro h
        rw [h, List.flatten_nil, parse_nil] at hpre
        cases hpre
      exact ⟨⟨_, hout⟩, hn, dropLast_lt hcs hp hne⟩
    · obtain ⟨-, -, hb⟩ := hnone hpre
      rw [hb, hp] at hpre
      cases hpre

/-- **Where the reads are cut never shows.** The sender writes its command once, first; then it and
the bare reader end as the parser says of the whole stream. -/
theorem ManagesieveCommandSend.chunk_split (bytes : Bytes) {b : Bytes} {cs : List Bytes}
    (hcs : Cuts cs b) (hlen : b.length ≤ maxResponse) :
    (∃ es, (machine.drive (new bytes) none cs).events = .yielded (.wantsWrite bytes) :: es ∧
        ∀ y ∈ yieldsOf es, y = .wantsRead) ∧
      EndsAsParsed b (machine.drive (new bytes) none cs) ∧
      (∀ y ∈ yieldsOf (ManagesieveResponseRead.machine.drive .new none cs).events,
        y = .wantsRead) ∧
      EndsAsParsed b (ManagesieveResponseRead.machine.drive .new none cs) := by
  have honly := (ManagesieveResponseRead.drive_new_reads cs).only_reads
  have hends := ManagesieveResponseRead.endsAsParsed hcs hlen
  rw [drive_new]
  refine ⟨⟨_, rfl, honly⟩, ?_, honly, hends⟩
  unfold EndsAsParsed at hends ⊢
  rcases hp : ManagesieveResponse.parse b with err | _ | ⟨response, n⟩ <;> rw [hp] at hends
  · obtain ⟨s, hs⟩ := hends
    exact ⟨⟨none, s⟩, by simp [hs, Pause.map]⟩
  · obtain ⟨⟨s, hs⟩, hun⟩ := hends
    exact ⟨⟨⟨none, s⟩, by simp [hs, Pause.map]⟩, hun⟩
  · obtain ⟨⟨s, hs⟩, hcover⟩ := hends
    exact ⟨⟨⟨none, s⟩, by simp [hs, Pause.map]⟩, hcover⟩

/-- A response cut inside both of its line ends, with bytes past it in the last read. -/
theorem ManagesieveCommandSend.chunk_split_crlf :
    ManagesieveResponse.parse (asBytes "\"a\"\r\nOK\r\nNO\r\n") =
        .ok (some (⟨[⟨[.string (asBytes "a")]⟩], ⟨.ok, none, none⟩⟩, 9)) ∧
      EndsAsParsed (asBytes "\"a\"\r\nOK\r\nNO\r\n")
        (machine.drive (new (asBytes "LISTSCRIPTS\r\n")) none
          [asBytes "\"a\"\r", asBytes "\nOK\r", asBytes "\nNO\r\n"]) :=
  ⟨by decide +kernel,
    (chunk_split _ ⟨by decide +kernel, by decide +kernel⟩ (by decide +kernel)).2.1⟩

end ManageSieve
