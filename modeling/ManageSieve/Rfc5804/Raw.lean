import ManageSieve.Send
import ManageSieve.Wire.Walk

/-!
# The raw passthrough

The coroutine of `raw.rs`: an arbitrary command goes out as the caller wrote it, and its CRLF is
added when the caller left it out. Whether it was left out is read off the last two octets, and a
literal may end on any octets. `ManagesieveRawCommand.sentComplete_iff` says when the command goes
out complete: unless it ends on CRLF where its last literal ends.
-/

namespace ManageSieve

open Coroutine

/-- An arbitrary command line, CRLF added when it is missing. -/
structure ManagesieveRawCommand where
  command : Bytes

def ManagesieveRawCommand.toBytes (cmd : ManagesieveRawCommand) : Bytes :=
  if crlf.isSuffixOf cmd.command then cmd.command else cmd.command ++ crlf

/-- Failure causes of a raw exchange. -/
inductive ManagesieveRawError
  | send (err : ManagesieveCommandSendError)
  deriving DecidableEq

/-- I/O-free raw passthrough coroutine. -/
abbrev ManagesieveRaw := ManagesieveCommandSend

namespace ManagesieveRaw

def new (command : Bytes) : ManagesieveRaw :=
  ManagesieveCommandSend.new (ManagesieveRawCommand.toBytes ⟨command⟩)

/-- What the coroutine ends on. -/
abbrev Return := Except ManagesieveRawError ManagesieveResponse

/-- The response, whatever its status. -/
def finish : ManagesieveResponseRead.Return → Return
  | .error err => .error (.send err)
  | .ok out => .ok out.response

/-- The coroutine as a machine. -/
def machine : Machine ManagesieveRaw UInt8 ManagesieveYield Return :=
  ManagesieveCommandSend.machine.mapDone finish

/-- A run writes the command first, and nothing else. -/
theorem writesOf_drive (command : Bytes) (cs : List Bytes) :
    writesOf (machine.drive (new command) none cs).events =
      [ManagesieveRawCommand.toBytes ⟨command⟩] := by
  rw [machine, Machine.drive_mapDone, new, ManagesieveCommandSend.drive_new]
  simp only [Transcript.prepend_events, List.singleton_append, writesOf_write]
  rw [writesOf_eq_nil (ManagesieveResponseRead.drive_new_reads cs).only_reads]

end ManagesieveRaw

namespace ManagesieveRawCommand

/-! ## Commands and their closing CRLF -/

/-- `bytes` are one complete logical line. -/
def IsLine (bytes : Bytes) : Prop := ∃ tokens, scanLine bytes = .ok (some (tokens, bytes.length))

/-- `command` lacks only its closing CRLF. -/
def LacksCrlf (command : Bytes) : Prop :=
  IsLine (command ++ crlf) ∧ scanLine command = .ok none

/-- The command goes out with its closing CRLF, as one complete logical line. -/
def SentComplete (command : Bytes) : Prop :=
  toBytes ⟨command⟩ = command ++ crlf ∧ IsLine (toBytes ⟨command⟩)

/-- `command` ends on CRLF where its last literal ends: the walk over its literals reaches its last
octet, or the carriage return that is added to it. -/
def ClosedByLiteral (command : Bytes) : Prop :=
  crlf <:+ command ∧
    ∃ stretches front, Walked stretches front ∧ (front = command ∨ front = command ++ [cr])

theorem toBytes_of_suffix {command : Bytes} (h : crlf <:+ command) :
    toBytes ⟨command⟩ = command :=
  if_pos (List.isSuffixOf_iff_suffix.2 h)

theorem toBytes_of_not_suffix {command : Bytes} (h : ¬ crlf <:+ command) :
    toBytes ⟨command⟩ = command ++ crlf :=
  if_neg fun hs => h (List.isSuffixOf_iff_suffix.1 hs)

/-- A command that lacks its CRLF and ends on one ends where its last literal ends: the segment
behind that literal is all in the CRLF that is added. -/
theorem LacksCrlf.closedByLiteral {command : Bytes} (h : LacksCrlf command)
    (hs : crlf <:+ command) : ClosedByLiteral command := by
  obtain ⟨⟨tokens, hline⟩, -⟩ := h
  obtain ⟨stretches, lexed, _, tail, ⟨hwalk, hseg, -⟩, heq, -, hn⟩ := scanLine_eq_some_iff.1 hline
  rename_i front seg
  refine ⟨hs, stretches, front, hwalk, ?_⟩
  obtain rfl : tail = [] := by
    have hlen := congrArg List.length heq
    rw [@List.length_append _ _ tail, ← hn] at hlen
    exact List.length_eq_zero_iff.1 (by omega)
  have hcr : command ++ [cr] = front ++ seg := by
    have : command ++ [cr] ++ [lf] = front ++ seg ++ [lf] := by simpa using heq
    exact List.append_cancel_right this
  rcases List.eq_nil_or_concat' seg with rfl | ⟨seg, b, rfl⟩
  · exact Or.inr (by simpa using hcr.symm)
  · rw [← List.append_assoc] at hcr
    obtain ⟨rfl, -⟩ := List.append_inj' hcr rfl
    rcases List.eq_nil_or_concat' seg with rfl | ⟨seg, a, rfl⟩
    · exact Or.inl (by simp)
    · -- the last octet of the command would be a line feed in the last segment
      obtain ⟨pre, hpre⟩ := hs
      have hlast : (pre ++ [cr]) ++ [lf] = (front ++ seg) ++ [a] := by simpa using hpre
      obtain ⟨-, ha⟩ := List.append_inj' hlast rfl
      cases ha
      exact absurd (by simp) hseg

/-- **When a command goes out complete.** A command that lacks only its closing CRLF gets it, and is
one complete logical line, unless it ends on CRLF where its last literal ends; a command that ends
its logical line on CRLF goes out as it is. What goes out is what every run writes. -/
theorem sentComplete_iff (command : Bytes) :
    (LacksCrlf command → (SentComplete command ↔ ¬ ClosedByLiteral command)) ∧
      (IsLine command → crlf <:+ command → toBytes ⟨command⟩ = command) ∧
      ∀ cs, writesOf (ManagesieveRaw.machine.drive (.new command) none cs).events =
        [toBytes ⟨command⟩] := by
  refine ⟨fun h => ⟨?_, fun hclosed => ?_⟩, fun _ => toBytes_of_suffix,
    ManagesieveRaw.writesOf_drive command⟩
  · rintro ⟨heq, -⟩ ⟨hs, -⟩
    rw [toBytes_of_suffix hs] at heq
    have := congrArg List.length heq
    simp at this
  · have hs : ¬ crlf <:+ command := fun hs => hclosed (h.closedByLiteral hs)
    rw [SentComplete, toBytes_of_not_suffix hs]
    exact ⟨rfl, h.1⟩

/-- A command without a literal. -/
theorem sentComplete_iff_capability :
    SentComplete (asBytes "CAPABILITY") ∧ toBytes ⟨asBytes "NOOP\r\n"⟩ = asBytes "NOOP\r\n" := by
  have hlacks : LacksCrlf (asBytes "CAPABILITY") :=
    ⟨⟨[.atom (asBytes "CAPABILITY")], by decide +kernel⟩, by decide +kernel⟩
  have hno : ¬ crlf <:+ asBytes "CAPABILITY" := by
    rw [← List.isSuffixOf_iff_suffix]
    decide +kernel
  have hline : IsLine (asBytes "NOOP\r\n") := ⟨[.atom (asBytes "NOOP")], by decide +kernel⟩
  have hs : crlf <:+ asBytes "NOOP\r\n" := ⟨asBytes "NOOP", by decide +kernel⟩
  exact ⟨((sentComplete_iff _).1 hlacks).2 fun hclosed => hno hclosed.1,
    (sentComplete_iff _).2.1 hline hs⟩

/-- A script that ends on CRLF, passed whole as the literal that ends the command: the CRLF of the
command is not added, and the server goes on waiting for it. -/
theorem not_sentComplete :
    ¬ ∀ command, LacksCrlf command → SentComplete command := by
  intro hall
  have hlacks : LacksCrlf (asBytes "CHECKSCRIPT {7+}\r\nkeep;\r\n") :=
    ⟨⟨[.atom (asBytes "CHECKSCRIPT"), .string (asBytes "keep;\r\n")], by decide +kernel⟩,
      by decide +kernel⟩
  have heq := (hall _ hlacks).1
  revert heq
  decide +kernel

end ManagesieveRawCommand

end ManageSieve
