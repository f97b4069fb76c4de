import Mathlib.Logic.Relation
import ManageSieve.Foundations.Coroutine

/-!
# Dialogues of a coroutine with a peer

A coroutine on one side of a connection, and on the other a peer that answers every message it was
sent with one reply, whenever it likes, cut into reads in any way. `Dialogue.Step` is the step
relation of the two with the messages and the reads in flight.

`Dialogue.Lockstep` is what a coroutine has to satisfy, one resume at a time, to stay in step with
such a peer; `Dialogue.Lockstep.inStep` is the rule: in every configuration that can be reached, a
coroutine that waits has a reply to wait for, and one that ended left nothing unanswered and nothing
unread.
-/

namespace Dialogue

open Coroutine

variable {σ α Y R W : Type*}

/-- Where the coroutine stands: about to be resumed, waiting for a read, or ended. -/
inductive Control (σ α R : Type*)
  | ready (s : σ) (arg : Option (List α))
  | waiting (s : σ)
  | finished (r : R) (s : σ)
  | panicked (msg : String) (s : σ)

/-- The two sides: the coroutine, the messages that the peer has not answered, the reads that were
not delivered, and what was delivered since the last message. -/
structure Config (σ α R W : Type*) where
  control : Control σ α R
  unanswered : List W
  inbox : List (List α)
  heard : List α

/-- A coroutine and its peer: what a request writes, and the replies that a message can have. -/
structure Parties (σ α Y R W : Type*) where
  machine : Machine σ α Y R
  /-- The message that a request writes, when it does not ask for data. -/
  message : Y → W
  replies : W → List α → Prop

variable (p : Parties σ α Y R W)

/-- Where the coroutine starts from. -/
def start (s : σ) : Config σ α R W := ⟨.ready s none, [], [], []⟩

/-- The steps of the two sides. -/
inductive Step : Config σ α R W → Config σ α R W → Prop
  | write {s arg y s' u i h} (hr : p.machine.resume s arg = (.yielded y, s'))
      (hy : p.machine.reads y = false) :
      Step ⟨.ready s arg, u, i, h⟩ ⟨.ready s' none, u ++ [p.message y], i, []⟩
  | ask {s arg y s' u i h} (hr : p.machine.resume s arg = (.yielded y, s'))
      (hy : p.machine.reads y = true) :
      Step ⟨.ready s arg, u, i, h⟩ ⟨.waiting s', u, i, h⟩
  | complete {s arg r s' u i h} (hr : p.machine.resume s arg = (.complete r, s')) :
      Step ⟨.ready s arg, u, i, h⟩ ⟨.finished r s', u, i, h⟩
  | panic {s arg msg s' u i h} (hr : p.machine.resume s arg = (.panicked msg, s')) :
      Step ⟨.ready s arg, u, i, h⟩ ⟨.panicked msg s', u, i, h⟩
  | reply {c w u i h b cs} (hb : p.replies w b) (hcs : Cuts cs b) :
      Step ⟨c, w :: u, i, h⟩ ⟨c, u, i ++ cs, h⟩
  | deliver {s a u i h} : Step ⟨.waiting s, u, a :: i, h⟩ ⟨.ready s (some a), u, i, h ++ a⟩

/-- The configurations that can be reached. -/
def Reachable (s : σ) : Config σ α R W → Prop := Relation.ReflTransGen (Step p) (start s)

/-- In step with the peer: a reply is outstanding when the coroutine waits, and when it ended every
message was answered, and every element of the answers read, unless what it ended on is excused. -/
def InStep (Excused : R → Prop) (Done : σ → List α → Prop) (c : Config σ α R W) : Prop :=
  match c.control with
  | .ready _ _ => True
  | .waiting _ => c.unanswered ≠ [] ∨ c.inbox ≠ []
  | .finished r s => Excused r ∨ c.unanswered = [] ∧ c.inbox = [] ∧ Done s c.heard
  | .panicked _ _ => False

/-! ## The rule -/

/-- What a resume may do once the reply `b` is at hand up to `heard`. -/
def Answers (Excused : R → Prop) (Awaits : σ → W → List α → Prop) (Done : σ → List α → Prop) (w : W)
    (b heard : List α) : Resumed Y R × σ → Prop
  | (.yielded y, s) =>
    if p.machine.reads y then heard ≠ b ∧ Awaits s w heard
    else heard = b ∧ Awaits s (p.message y) []
  | (.complete r, s) => Excused r ∨ heard = b ∧ Done s heard
  | (.panicked _, _) => False

/-- One resume at a time: what a coroutine does to stay in step, `Awaits s w heard` being that `s`
waits for the rest of the reply to `w`, `Done s heard` that nothing is left unread in `s`, and
`Excused r` that it may end on `r` all the same. -/
structure Lockstep (Excused : R → Prop) (Starts : σ → Prop) (Awaits : σ → W → List α → Prop)
    (Done : σ → List α → Prop) : Prop where
  replies_ne_nil : ∀ {w b}, p.replies w b → b ≠ []
  /-- It starts by writing, or ends. -/
  starts : ∀ {s}, Starts s →
    match p.machine.resume s none with
    | (.yielded y, s') => p.machine.reads y = false ∧ Awaits s' (p.message y) []
    | (.complete _, s') => Done s' []
    | (.panicked _, _) => False
  /-- With nothing of a reply at hand it asks for it. -/
  asks : ∀ {s w}, Awaits s w [] → ∃ y s', p.machine.resume s none = (.yielded y, s') ∧
    p.machine.reads y = true ∧ Awaits s' w []
  /-- It asks for more of a reply until it has it whole; then it writes again, or ends. -/
  answers : ∀ {s w heard a rest}, Awaits s w heard → a ≠ [] → p.replies w (heard ++ a ++ rest) →
    Answers p Excused Awaits Done w (heard ++ a ++ rest) (heard ++ a) (p.machine.resume s (some a))

variable {p}

/-- A reply is on its way: the message is not answered yet, or the rest of its reply is
in flight. -/
def Outstanding (p : Parties σ α Y R W) (w : W) (c : Config σ α R W) : Prop :=
  (c.unanswered = [w] ∧ c.inbox = [] ∧ c.heard = []) ∨
    (c.unanswered = [] ∧ p.replies w (c.heard ++ c.inbox.flatten) ∧ ∀ a ∈ c.inbox, a ≠ [])

/-- What holds of every configuration that can be reached. -/
def Inv (p : Parties σ α Y R W) (Excused : R → Prop) (Starts : σ → Prop)
    (Awaits : σ → W → List α → Prop) (Done : σ → List α → Prop) (c : Config σ α R W) : Prop :=
  match c.control with
  | .ready s none =>
    (Starts s ∧ c.unanswered = [] ∧ c.inbox = [] ∧ c.heard = []) ∨
      ∃ w, Awaits s w [] ∧ c.heard = [] ∧ Outstanding p w c
  | .ready s (some a) => ∃ w heard, Awaits s w heard ∧ a ≠ [] ∧ c.heard = heard ++ a ∧
      c.unanswered = [] ∧ p.replies w (c.heard ++ c.inbox.flatten) ∧ ∀ a ∈ c.inbox, a ≠ []
  | .waiting s => ∃ w, Awaits s w c.heard ∧ Outstanding p w c ∧ (c.unanswered = [] → c.inbox ≠ [])
  | .finished r s => Excused r ∨ c.unanswered = [] ∧ c.inbox = [] ∧ Done s c.heard
  | .panicked _ _ => False

section Rule

variable {Excused : R → Prop} {Starts : σ → Prop} {Awaits : σ → W → List α → Prop}
  {Done : σ → List α → Prop}
variable {c c' : Config σ α R W}

theorem flatten_ne_nil_of_ne {i : List (List α)} {h : List α} (hne : h ≠ h ++ i.flatten) :
    i ≠ [] := by
  rintro rfl
  simp at hne

theorem eq_nil_of_flatten {i : List (List α)} {h : List α} (hi : ∀ a ∈ i, a ≠ [])
    (heq : h = h ++ i.flatten) : i = [] := by
  rw [List.self_eq_append_right, List.flatten_eq_nil_iff] at heq
  cases i with
  | nil => rfl
  | cons a i => exact absurd (heq a (by simp)) (hi a (by simp))

/-- The reply to an outstanding message arrives. -/
theorem Outstanding.reply {k : Control σ α R} {w w' : W} {u : List W} {i cs : List (List α)}
    {h b : List α} (ho : Outstanding p w ⟨k, w' :: u, i, h⟩) (hb : p.replies w' b)
    (hcs : Cuts cs b) : u = [] ∧ i = [] ∧ Outstanding p w ⟨k, u, i ++ cs, h⟩ := by
  rcases ho with ⟨hu, hi, hh⟩ | ⟨hu, -⟩
  · obtain ⟨rfl, rfl⟩ : w' = w ∧ u = [] := by simpa using hu
    dsimp only at hi hh
    subst hi hh
    refine ⟨rfl, rfl, Or.inr ⟨rfl, ?_, hcs.ne_nil⟩⟩
    simpa [hcs.flatten] using hb
  · cases hu

/-- From the start: the first resume writes, or ends. -/
theorem Lockstep.inv_starts (hl : Lockstep p Excused Starts Awaits Done) {s : σ} (hs : Starts s)
    (h : Step p ⟨.ready s none, [], [], []⟩ c') : Inv p Excused Starts Awaits Done c' := by
  have hst := hl.starts hs
  cases h with
  | write hr hy =>
    rw [hr] at hst
    exact Or.inr ⟨_, hst.2, rfl, Or.inl ⟨rfl, rfl, rfl⟩⟩
  | ask hr hy =>
    rw [hr] at hst
    cases hy.symm.trans hst.1
  | complete hr =>
    rw [hr] at hst
    exact Or.inr ⟨rfl, rfl, hst⟩
  | panic hr =>
    rw [hr] at hst
    exact hst

/-- With nothing of a reply at hand: the resume asks for data, or the reply arrives. -/
theorem Lockstep.inv_asks (hl : Lockstep p Excused Starts Awaits Done) {s : σ} {w : W} {u : List W}
    {i : List (List α)} (hw : Awaits s w []) (ho : Outstanding p w ⟨.ready s none, u, i, []⟩)
    (h : Step p ⟨.ready s none, u, i, []⟩ c') : Inv p Excused Starts Awaits Done c' := by
  obtain ⟨y, s', hask, hreads, hw'⟩ := hl.asks hw
  cases h with
  | write hr hy =>
    cases hask.symm.trans hr
    cases hreads.symm.trans hy
  | ask hr hy =>
    cases hask.symm.trans hr
    refine ⟨w, hw', ho, fun hu => ?_⟩
    rcases ho with ⟨hu', -⟩ | ⟨-, hb, -⟩
    · cases hu'.symm.trans hu
    · exact flatten_ne_nil_of_ne (h := []) (Ne.symm (hl.replies_ne_nil hb))
  | complete hr => cases hask.symm.trans hr
  | panic hr => cases hask.symm.trans hr
  | reply hb hcs => exact Or.inr ⟨w, hw, rfl, (ho.reply hb hcs).2.2⟩

/-- With a read in hand: the resume asks for the rest of the reply, or had it whole. -/
theorem Lockstep.inv_answers (hl : Lockstep p Excused Starts Awaits Done) {s : σ} {w : W}
    {heard a : List α} {i : List (List α)} (hw : Awaits s w heard) (ha : a ≠ [])
    (hb : p.replies w (heard ++ a ++ i.flatten)) (hi : ∀ a ∈ i, a ≠ [])
    (h : Step p ⟨.ready s (some a), [], i, heard ++ a⟩ c') :
    Inv p Excused Starts Awaits Done c' := by
  have hans := hl.answers hw ha hb
  cases h with
  | write hr hy =>
    rw [hr] at hans
    simp only [Answers, hy, Bool.false_eq_true, if_false] at hans
    obtain rfl := eq_nil_of_flatten hi hans.1
    exact Or.inr ⟨_, hans.2, rfl, Or.inl ⟨rfl, rfl, rfl⟩⟩
  | ask hr hy =>
    rw [hr] at hans
    simp only [Answers, hy, if_true] at hans
    exact ⟨w, hans.2, Or.inr ⟨rfl, hb, hi⟩, fun _ => flatten_ne_nil_of_ne hans.1⟩
  | complete hr =>
    rw [hr] at hans
    rcases hans with hex | ⟨heq, hdone⟩
    · exact Or.inl hex
    · exact Or.inr ⟨rfl, eq_nil_of_flatten hi heq, hdone⟩
  | panic hr =>
    rw [hr] at hans
    exact hans

/-- While it waits: the reply arrives, or a part of it is delivered. -/
theorem Lockstep.inv_waiting (hl : Lockstep p Excused Starts Awaits Done) {s : σ} {w : W}
    {u : List W} {i : List (List α)} {heard : List α} (hw : Awaits s w heard)
    (ho : Outstanding p w ⟨.waiting s, u, i, heard⟩) (h : Step p ⟨.waiting s, u, i, heard⟩ c') :
    Inv p Excused Starts Awaits Done c' := by
  cases h with
  | @reply _ _ _ _ _ _ cs hb hcs =>
    refine ⟨w, hw, (ho.reply hb hcs).2.2, fun _ => ?_⟩
    have hne : cs ≠ [] := by
      rintro rfl
      exact hl.replies_ne_nil hb hcs.flatten.symm
    simp [hne]
  | @deliver _ a =>
    rcases ho with ⟨-, hi, -⟩ | ⟨hu, hb, hi⟩
    · cases hi
    · refine ⟨w, heard, hw, hi a (by simp), rfl, hu, ?_, fun a' ha' => hi a' (by simp [ha'])⟩
      simpa using hb

/-- What a step keeps. -/
theorem Lockstep.inv_step (hl : Lockstep p Excused Starts Awaits Done)
    (hc : Inv p Excused Starts Awaits Done c) (h : Step p c c') :
    Inv p Excused Starts Awaits Done c' := by
  rcases c with ⟨⟨s, _ | a⟩ | s | ⟨r, s⟩ | ⟨msg, s⟩, u, i, heard⟩
  · rcases hc with ⟨hs, hu, hi, hh⟩ | ⟨w, hw, hh, ho⟩
    · dsimp only at hu hi hh
      subst hu hi hh
      exact hl.inv_starts hs h
    · dsimp only at hh
      subst hh
      exact hl.inv_asks hw ho h
  · obtain ⟨w, heard, hw, ha, hh, hu, hb, hi⟩ := hc
    dsimp only at hu hh hb
    subst hu hh
    exact hl.inv_answers hw ha hb hi h
  · obtain ⟨w, hw, ho, -⟩ := hc
    exact hl.inv_waiting hw ho h
  · cases h with
    | reply hb hcs =>
      -- nothing is unanswered any more, unless the end is excused
      rcases hc with hex | ⟨hu, -⟩
      · exact Or.inl hex
      · cases hu
  · exact hc.elim

/-- What a run keeps. -/
theorem Lockstep.inv_reachable (hl : Lockstep p Excused Starts Awaits Done) {s : σ} (hs : Starts s)
    (h : Reachable p s c) : Inv p Excused Starts Awaits Done c := by
  induction h with
  | refl => exact Or.inl ⟨hs, rfl, rfl, rfl⟩
  | tail _ hstep ih => exact hl.inv_step ih hstep

/-- **A coroutine in lockstep is in step with its peer** in every configuration that can
be reached. -/
theorem Lockstep.inStep (hl : Lockstep p Excused Starts Awaits Done) {s : σ} (hs : Starts s)
    (h : Reachable p s c) : InStep Excused Done c := by
  have hinv := hl.inv_reachable hs h
  rcases c with ⟨⟨s, arg⟩ | s | ⟨r, s⟩ | ⟨msg, s⟩, u, i, heard⟩
  · trivial
  · obtain ⟨w, -, -, hne⟩ := hinv
    exact or_iff_not_imp_left.2 fun hu => hne (not_not.1 hu)
  · exact hinv
  · exact hinv

end Rule

end Dialogue
