import Mathlib.Data.List.Induction

/-!
# Resumable coroutines

An I/O-free program is a state and a `resume` function: a resume takes what the caller read, if it
was asked to read, and answers with a request for the caller or with a final value. This module
has what one needs to speak of whole runs of such programs.

* `Loop.run` is the body of a resume that is written as a loop: turns are taken until one of them
  returns. The loop carries the rank that its turns lower, so it always returns.
* `Machine` is a coroutine. Its requests are of two kinds, those answered with data and the others,
  and a budget bounds how many of the others it makes before it asks for data or ends.
* `Machine.drive` runs a coroutine against a list of reads: one read for each request for data, and
  nothing after any other request. The five equations `drive_read_nil`, `drive_read_cons`,
  `drive_yield`, `drive_complete`, `drive_panicked` determine it.
* `Machine.drive_post` is the rule of invariants over runs, `Machine.Nests.drive` the rule of a
  coroutine that runs another one.
-/

namespace Coroutine

variable {σ τ ρ α Y R : Type*}

/-! ## The loop inside a resume -/

/-- What one turn of a loop decides: take another turn, or return. -/
inductive Turn (σ ρ : Type*)
  | again (s : σ)
  | done (r : ρ)

/-- A loop whose turns lower a rank. -/
structure Loop (σ ρ : Type*) where
  turn : σ → Turn σ ρ
  rank : σ → ℕ
  rank_lt : ∀ {s s'}, turn s = .again s' → rank s' < rank s

namespace Loop

variable (l : Loop σ ρ)

/-- Take turns until one returns. -/
def run (s : σ) : ρ :=
  match _h : l.turn s with
  | .done r => r
  | .again s' => run s'
termination_by l.rank s
decreasing_by exact l.rank_lt _h

theorem run_done {s : σ} {r : ρ} (h : l.turn s = .done r) : l.run s = r := by
  rw [run]
  split <;> simp_all

theorem run_again {s s' : σ} (h : l.turn s = .again s') : l.run s = l.run s' := by
  rw [run]
  split <;> simp_all

/-- What the last turn establishes and the others hand back holds of the whole loop. -/
theorem run_post {P : σ → ρ → Prop} (done : ∀ s r, l.turn s = .done r → P s r)
    (again : ∀ s s' r, l.turn s = .again s' → P s' r → P s r) (s : σ) : P s (l.run s) := by
  induction hk : l.rank s using Nat.strongRecOn generalizing s with
  | ind k ih =>
    cases ht : l.turn s with
    | done r =>
      rw [l.run_done ht]
      exact done s r ht
    | again s' =>
      rw [l.run_again ht]
      exact again s s' _ ht (ih _ (hk ▸ l.rank_lt ht) s' rfl)

end Loop

/-! ## Coroutines and their runs -/

/-- What a resume answers: a request, a final value, or an unwinding. -/
inductive Resumed (Y R : Type*)
  | yielded (y : Y)
  | complete (r : R)
  | panicked (msg : String)
  deriving DecidableEq

/-- The same answer, a final value in other words. -/
def Resumed.map {R' : Type*} (f : R → R') : Resumed Y R → Resumed Y R'
  | .yielded y => .yielded y
  | .complete r => .complete (f r)
  | .panicked msg => .panicked msg

theorem Resumed.map_eq_yielded {R' : Type*} {f : R → R'} {out : Resumed Y R} {y : Y}
    (h : out.map f = .yielded y) : out = .yielded y := by
  cases out <;> cases h
  rfl

/-- A coroutine over reads of elements of `α`. -/
structure Machine (σ α Y R : Type*) where
  resume : σ → Option (List α) → Resumed Y R × σ
  /-- The requests that are answered with data. -/
  reads : Y → Bool
  /-- Bounds the requests that are made one after the other, with nothing read in between. -/
  budget : σ → ℕ
  budget_lt : ∀ {s y s'}, resume s none = (.yielded y, s') → reads y = false →
    budget s' < budget s

/-- What a resume written as a loop makes of a measure that no turn raises and that the turns making
a request lower. -/
theorem Loop.run_lt {l : Loop (σ × Option (List α)) (Resumed Y R × σ)} {budget : σ → ℕ} {y : Y}
    (done : ∀ s s', l.turn (s, none) = .done (.yielded y, s') → budget s' < budget s)
    (again : ∀ s s' arg, l.turn (s, none) = .again (s', arg) → arg = none ∧ budget s' ≤ budget s)
    {s s' : σ} (h : l.run (s, none) = (.yielded y, s')) : budget s' < budget s := by
  have key := l.run_post (P := fun t r => t.2 = none → r.1 = .yielded y → budget r.2 < budget t.1)
    ?_ ?_ (s, none) rfl
  · rw [h] at key
    exact key rfl
  · rintro ⟨t, arg⟩ ⟨out, t'⟩ hturn harg hout
    dsimp only at harg hout
    subst harg hout
    exact done t t' hturn
  · rintro ⟨t, arg⟩ ⟨t', arg'⟩ r hturn ih harg hout
    dsimp only at harg
    subst harg
    obtain ⟨harg', hle⟩ := again t t' arg' hturn
    exact Nat.lt_of_lt_of_le (ih harg' hout) hle

/-- The same coroutine, with what it ends on in other words. -/
def Machine.mapDone {R' : Type*} (m : Machine σ α Y R) (f : R → R') : Machine σ α Y R' where
  resume s arg := ((m.resume s arg).1.map f, (m.resume s arg).2)
  reads := m.reads
  budget := m.budget
  budget_lt h hy := by
    rw [Prod.mk.injEq] at h
    exact m.budget_lt (Prod.ext (Resumed.map_eq_yielded h.1) h.2) hy

/-- What happened at the boundary of a coroutine. -/
inductive Event (α Y : Type*)
  | yielded (y : Y)
  | fed (c : List α)
  deriving DecidableEq

/-- The same event, its request in other words. -/
def Event.map {Y' : Type*} (f : Y → Y') : Event α Y → Event α Y'
  | .yielded y => .yielded (f y)
  | .fed c => .fed c

@[simp] theorem Event.map_id : Event.map (id : Y → Y) = (id : Event α Y → Event α Y) := by
  funext e
  cases e <;> rfl

/-- Where a run stands: it waits for data, or it ended. -/
inductive Pause (σ R : Type*)
  | waiting (s : σ)
  | finished (r : R) (s : σ)
  | panicked (msg : String) (s : σ)

/-- The state that a run stopped in. -/
def Pause.state : Pause σ R → σ
  | .waiting s => s
  | .finished _ s => s
  | .panicked _ s => s

/-- What a run ended on, if it ended. -/
def Pause.result : Pause σ R → Option R
  | .waiting _ => none
  | .finished r _ => some r
  | .panicked _ _ => none

/-- The same pause, its state and its final value in other words. -/
def Pause.map {R' : Type*} (f : σ → τ) (g : R → R') : Pause σ R → Pause τ R'
  | .waiting s => .waiting (f s)
  | .finished r s => .finished (g r) (f s)
  | .panicked msg s => .panicked msg (f s)

theorem Pause.result_map {R' : Type*} (f : σ → τ) (g : R → R') (p : Pause σ R) :
    (p.map f g).result = p.result.map g := by
  cases p <;> rfl

/-- A run: its events, where it stands, and the reads it did not ask for. -/
structure Transcript (σ α Y R : Type*) where
  events : List (Event α Y)
  pause : Pause σ R
  unfed : List (List α)

namespace Transcript

/-- The run that starts with the events `es`. -/
def prepend (es : List (Event α Y)) (t : Transcript σ α Y R) : Transcript σ α Y R :=
  { t with events := es ++ t.events }

@[simp] theorem prepend_events (es : List (Event α Y)) (t : Transcript σ α Y R) :
    (t.prepend es).events = es ++ t.events := rfl

@[simp] theorem prepend_pause (es : List (Event α Y)) (t : Transcript σ α Y R) :
    (t.prepend es).pause = t.pause := rfl

@[simp] theorem prepend_unfed (es : List (Event α Y)) (t : Transcript σ α Y R) :
    (t.prepend es).unfed = t.unfed := rfl

end Transcript

/-- `cs` cuts the stream `b` into reads. -/
structure Cuts (cs : List (List α)) (b : List α) : Prop where
  flatten : cs.flatten = b
  ne_nil : ∀ c ∈ cs, c ≠ []

/-- The reads among some events. -/
def fedOf (es : List (Event α Y)) : List (List α) :=
  es.filterMap fun
    | .fed c => some c
    | .yielded _ => none

/-- The requests among some events. -/
def yieldsOf (es : List (Event α Y)) : List Y :=
  es.filterMap fun
    | .fed _ => none
    | .yielded y => some y

section Events

variable (es es' : List (Event α Y)) (y : Y) (c : List α)

@[simp] theorem fedOf_nil : fedOf ([] : List (Event α Y)) = [] := rfl
@[simp] theorem fedOf_fed : fedOf (.fed c :: es) = c :: fedOf es := rfl
@[simp] theorem fedOf_yielded : fedOf (.yielded y :: es) = fedOf es := rfl
@[simp] theorem fedOf_append : fedOf (es ++ es') = fedOf es ++ fedOf es' := List.filterMap_append
@[simp] theorem yieldsOf_nil : yieldsOf ([] : List (Event α Y)) = [] := rfl
@[simp] theorem yieldsOf_fed : yieldsOf (.fed c :: es) = yieldsOf es := rfl
@[simp] theorem yieldsOf_yielded : yieldsOf (.yielded y :: es) = y :: yieldsOf es := rfl
@[simp] theorem yieldsOf_append : yieldsOf (es ++ es') = yieldsOf es ++ yieldsOf es' :=
  List.filterMap_append

theorem fedOf_map {Y' : Type*} (f : Y → Y') (es : List (Event α Y)) :
    fedOf (es.map (.map f)) = fedOf es := by
  induction es with
  | nil => rfl
  | cons e es ih => cases e <;> simp [Event.map, ih]

theorem yieldsOf_map {Y' : Type*} (f : Y → Y') (es : List (Event α Y)) :
    yieldsOf (es.map (.map f)) = (yieldsOf es).map f := by
  induction es with
  | nil => rfl
  | cons e es ih => cases e <;> simp [Event.map, ih]

theorem mem_yieldsOf {es : List (Event α Y)} {y : Y} : y ∈ yieldsOf es ↔ .yielded y ∈ es := by
  simp only [yieldsOf, List.mem_filterMap]
  constructor
  · rintro ⟨e | e, he, h⟩
    · cases h
      exact he
    · cases h
  · exact fun h => ⟨_, h, rfl⟩

end Events

namespace Machine

variable (m : Machine σ α Y R)

/-- Resume with nothing until the coroutine waits for data or ends. -/
def settle (s : σ) : List (Event α Y) × Pause σ R :=
  match _h : m.resume s none with
  | (.complete r, s') => ([], .finished r s')
  | (.panicked msg, s') => ([], .panicked msg s')
  | (.yielded y, s') =>
    if _hy : m.reads y then ([.yielded y], .waiting s')
    else (.yielded y :: (settle s').1, (settle s').2)
termination_by m.budget s
decreasing_by all_goals exact m.budget_lt _h (by simpa using _hy)

/-- Resume with `arg`, then with nothing until the coroutine waits for data or ends. -/
def answer (s : σ) (arg : Option (List α)) : List (Event α Y) × Pause σ R :=
  match m.resume s arg with
  | (.complete r, s') => ([], .finished r s')
  | (.panicked msg, s') => ([], .panicked msg s')
  | (.yielded y, s') =>
    if m.reads y then ([.yielded y], .waiting s')
    else (.yielded y :: (m.settle s').1, (m.settle s').2)

/-- Run a coroutine against a list of reads, starting with a resume that takes `arg`. -/
def drive (s : σ) (arg : Option (List α)) : List (List α) → Transcript σ α Y R
  | [] => ⟨(m.answer s arg).1, (m.answer s arg).2, []⟩
  | c :: cs =>
    match m.answer s arg with
    | (es, .waiting s') => (drive s' (some c) cs).prepend (es ++ [.fed c])
    | (es, pause) => ⟨es, pause, c :: cs⟩

theorem answer_none (s : σ) : m.answer s none = m.settle s := by
  rw [settle]
  split <;> rename_i h <;> simp [answer, h]

variable {m} {s s' : σ} {arg : Option (List α)} {y : Y} {cs : List (List α)} {c : List α}

theorem drive_complete {r : R} (h : m.resume s arg = (.complete r, s')) :
    m.drive s arg cs = ⟨[], .finished r s', cs⟩ := by
  cases cs <;> simp [drive, answer, h]

theorem drive_panicked {msg : String} (h : m.resume s arg = (.panicked msg, s')) :
    m.drive s arg cs = ⟨[], .panicked msg s', cs⟩ := by
  cases cs <;> simp [drive, answer, h]

theorem drive_read_nil (h : m.resume s arg = (.yielded y, s')) (hy : m.reads y = true) :
    m.drive s arg [] = ⟨[.yielded y], .waiting s', []⟩ := by
  simp [drive, answer, h, hy]

theorem drive_read_cons (h : m.resume s arg = (.yielded y, s')) (hy : m.reads y = true) :
    m.drive s arg (c :: cs) = (m.drive s' (some c) cs).prepend [.yielded y, .fed c] := by
  simp [drive, answer, h, hy]

theorem drive_yield (h : m.resume s arg = (.yielded y, s')) (hy : m.reads y = false) :
    m.drive s arg cs = (m.drive s' none cs).prepend [.yielded y] := by
  have ha : m.answer s arg = (.yielded y :: (m.answer s' none).1, (m.answer s' none).2) := by
    rw [answer_none, answer, h]
    simp [hy]
  cases cs with
  | nil => simp [drive, ha, Transcript.prepend]
  | cons c cs =>
    rw [drive, ha, drive]
    rcases m.answer s' none with ⟨es, s'' | ⟨r, s''⟩ | ⟨msg, s''⟩⟩ <;> simp [Transcript.prepend]

/-- An induction over a run follows the requests it makes. -/
theorem drive_induction {P : σ → Option (List α) → List (List α) → Prop}
    (complete : ∀ s arg cs r s', m.resume s arg = (.complete r, s') → P s arg cs)
    (panicked : ∀ s arg cs msg s', m.resume s arg = (.panicked msg, s') → P s arg cs)
    (read_nil : ∀ s arg y s', m.resume s arg = (.yielded y, s') → m.reads y = true → P s arg [])
    (read_cons : ∀ s arg y s' c cs, m.resume s arg = (.yielded y, s') → m.reads y = true →
      P s' (some c) cs → P s arg (c :: cs))
    (yield : ∀ s arg cs y s', m.resume s arg = (.yielded y, s') → m.reads y = false →
      P s' none cs → P s arg cs)
    (s : σ) (arg : Option (List α)) (cs : List (List α)) : P s arg cs := by
  -- the reads first, then, for a fixed list of them, the budget
  have settled : ∀ n s cs, m.budget s = n →
      (∀ c cs', cs = c :: cs' → ∀ s', P s' (some c) cs') → P s none cs := by
    intro n
    induction n using Nat.strongRecOn with
    | ind n ih =>
      intro s cs hn hcs
      rcases hr : m.resume s none with ⟨y | r | msg, s'⟩
      · cases hy : m.reads y with
        | true =>
          cases cs with
          | nil => exact read_nil _ _ _ _ hr hy
          | cons c cs => exact read_cons _ _ _ _ _ _ hr hy (hcs c cs rfl s')
        | false => exact yield _ _ _ _ _ hr hy (ih _ (hn ▸ m.budget_lt hr hy) _ _ rfl hcs)
      · exact complete _ _ _ _ _ hr
      · exact panicked _ _ _ _ _ hr
  induction cs generalizing s arg with
  | nil =>
    rcases hr : m.resume s arg with ⟨y | r | msg, s'⟩
    · cases hy : m.reads y with
      | true => exact read_nil _ _ _ _ hr hy
      | false => exact yield _ _ _ _ _ hr hy (settled _ _ _ rfl (by simp))
    · exact complete _ _ _ _ _ hr
    · exact panicked _ _ _ _ _ hr
  | cons c cs ih =>
    rcases hr : m.resume s arg with ⟨y | r | msg, s'⟩
    · cases hy : m.reads y with
      | true => exact read_cons _ _ _ _ _ _ hr hy (ih s' (some c))
      | false =>
        refine yield _ _ _ _ _ hr hy (settled _ _ _ rfl ?_)
        rintro c cs' ⟨⟩ s'
        exact ih s' (some c)
    · exact complete _ _ _ _ _ hr
    · exact panicked _ _ _ _ _ hr

/-- The reads of a run are the reads it was given, up to where it ended. -/
theorem fed_append_unfed (s : σ) (arg : Option (List α)) (cs : List (List α)) :
    fedOf (m.drive s arg cs).events ++ (m.drive s arg cs).unfed = cs := by
  induction s, arg, cs using drive_induction (m := m) with
  | complete s arg cs r s' h => simp [drive_complete h]
  | panicked s arg cs msg s' h => simp [drive_panicked h]
  | read_nil s arg y s' h hy => simp [drive_read_nil h hy]
  | read_cons s arg y s' c cs h hy ih => simpa [drive_read_cons h hy] using ih
  | yield s arg cs y s' h hy ih => simpa [drive_yield h hy] using ih

/-- A run that waits was fed all its reads. -/
theorem unfed_of_waiting {s s' : σ} (h : (m.drive s arg cs).pause = .waiting s') :
    (m.drive s arg cs).unfed = [] := by
  induction s, arg, cs using drive_induction (m := m) with
  | complete s arg cs r s' hr => simp [drive_complete hr] at h
  | panicked s arg cs msg s' hr => simp [drive_panicked hr] at h
  | read_nil s arg y s' hr hy => simp [drive_read_nil hr hy]
  | read_cons s arg y s' c cs hr hy ih =>
    rw [drive_read_cons hr hy] at h ⊢
    exact ih h
  | yield s arg cs y s' hr hy ih =>
    rw [drive_yield hr hy] at h ⊢
    exact ih h

/-- A run that ended ends in the same way whatever else could be read. -/
theorem drive_append {s s' : σ} {r : R} (h : (m.drive s arg cs).pause = .finished r s')
    (cs' : List (List α)) :
    m.drive s arg (cs ++ cs') =
      ⟨(m.drive s arg cs).events, .finished r s', (m.drive s arg cs).unfed ++ cs'⟩ := by
  induction s, arg, cs using drive_induction (m := m) with
  | complete s arg cs r' s'' hr =>
    rw [drive_complete hr] at h ⊢
    rw [drive_complete hr]
    dsimp only at h ⊢
    rw [h]
  | panicked s arg cs msg s'' hr =>
    rw [drive_panicked hr] at h
    cases h
  | read_nil s arg y s'' hr hy =>
    rw [drive_read_nil hr hy] at h
    cases h
  | read_cons s arg y s'' c cs hr hy ih =>
    rw [drive_read_cons hr hy] at h ⊢
    rw [List.cons_append, drive_read_cons hr hy, ih h]
    rfl
  | yield s arg cs y s'' hr hy ih =>
    rw [drive_yield hr hy] at h ⊢
    rw [drive_yield hr hy, ih h]
    rfl

/-- A run that waits goes on with the next read. -/
theorem drive_of_waiting {s s' : σ} {c : List α} (h : (m.drive s arg cs).pause = .waiting s')
    (cs' : List (List α)) :
    m.drive s arg (cs ++ c :: cs') =
      (m.drive s' (some c) cs').prepend ((m.drive s arg cs).events ++ [.fed c]) := by
  induction s, arg, cs using drive_induction (m := m) with
  | complete s arg cs r s'' hr =>
    rw [drive_complete hr] at h
    cases h
  | panicked s arg cs msg s'' hr =>
    rw [drive_panicked hr] at h
    cases h
  | read_nil s arg y s'' hr hy =>
    rw [drive_read_nil hr hy] at h ⊢
    cases h
    rw [List.nil_append, drive_read_cons hr hy]
    rfl
  | read_cons s arg y s'' c' cs hr hy ih =>
    rw [drive_read_cons hr hy] at h ⊢
    rw [List.cons_append, drive_read_cons hr hy, ih h]
    simp [Transcript.prepend]
  | yield s arg cs y s'' hr hy ih =>
    rw [drive_yield hr hy] at h ⊢
    rw [drive_yield hr hy, ih h]
    simp [Transcript.prepend]

/-- **What precedes a read is a run of its own**, which waits for it. -/
theorem drive_before_fed {before after : List (Event α Y)} {c : List α}
    (h : (m.drive s arg cs).events = before ++ .fed c :: after) :
    ∃ s', m.drive s arg (fedOf before) = ⟨before, .waiting s', []⟩ := by
  induction s, arg, cs using drive_induction (m := m) generalizing before with
  | complete s arg cs r s' hr =>
    rw [drive_complete hr] at h
    exact absurd h.symm (List.append_ne_nil_of_right_ne_nil _ (List.cons_ne_nil _ _))
  | panicked s arg cs msg s' hr =>
    rw [drive_panicked hr] at h
    exact absurd h.symm (List.append_ne_nil_of_right_ne_nil _ (List.cons_ne_nil _ _))
  | read_nil s arg y s' hr hy =>
    rw [drive_read_nil hr hy] at h
    rcases before with _ | ⟨e, before⟩
    · cases h
    · exact absurd (List.cons.inj h).2.symm
        (List.append_ne_nil_of_right_ne_nil _ (List.cons_ne_nil _ _))
  | read_cons s arg y s' c' cs hr hy ih =>
    rw [drive_read_cons hr hy] at h
    rcases before with _ | ⟨e, _ | ⟨e', before⟩⟩
    · cases h
    · obtain ⟨rfl, -⟩ := List.cons.inj h
      exact ⟨s', drive_read_nil hr hy⟩
    · simp only [Transcript.prepend_events, List.cons_append, List.nil_append,
        List.cons.injEq] at h
      obtain ⟨rfl, rfl, h⟩ := h
      obtain ⟨s'', hs⟩ := ih h
      refine ⟨s'', ?_⟩
      rw [fedOf_yielded, fedOf_fed, drive_read_cons hr hy, hs]
      rfl
  | yield s arg cs y s' hr hy ih =>
    rw [drive_yield hr hy] at h
    rcases before with _ | ⟨e, before⟩
    · cases h
    · simp only [Transcript.prepend_events, List.cons_append, List.nil_append,
        List.cons.injEq] at h
      obtain ⟨rfl, h⟩ := h
      obtain ⟨s'', hs⟩ := ih h
      refine ⟨s'', ?_⟩
      rw [fedOf_yielded, drive_yield hr hy, hs]
      rfl

/-- The read that brings something about. -/
theorem exists_fed_first {P : List α → Prop} {es : List (Event α Y)} (hnil : ¬ P [])
    (h : P (fedOf es).flatten) :
    ∃ before c after, es = before ++ .fed c :: after ∧ ¬ P (fedOf before).flatten ∧
      P ((fedOf before).flatten ++ c) := by
  induction es using List.reverseRecOn with
  | nil => exact absurd h hnil
  | append_singleton es e ih =>
    by_cases hes : P (fedOf es).flatten
    · obtain ⟨before, c, after, rfl, hbefore, hc⟩ := ih hes
      exact ⟨before, c, after ++ [e], by simp, hbefore, hc⟩
    · cases e with
      | yielded y => exact absurd (by simpa using h) hes
      | fed c => exact ⟨es, c, [], rfl, hes, by simpa using h⟩

/-! ## Invariants of runs -/

variable (m) in
/-- `I` holds before every resume and `Q` at every pause, when the reads satisfy `A`; both see the
events so far. -/
def Keeps (A : List α → Prop) (I : List (Event α Y) → σ → Option (List α) → Prop)
    (Q : List (Event α Y) → Pause σ R → Prop) : Prop :=
  ∀ es s arg, I es s arg →
    match m.resume s arg with
    | (.yielded y, s') =>
      if m.reads y then
        Q (es ++ [.yielded y]) (.waiting s') ∧
          ∀ c, A c → I (es ++ [.yielded y, .fed c]) s' (some c)
      else I (es ++ [.yielded y]) s' none
    | (.complete r, s') => Q es (.finished r s')
    | (.panicked msg, s') => Q es (.panicked msg s')

/-- **The rule of invariants**: what every resume keeps holds at the end of every run. -/
theorem drive_post {A : List α → Prop} {I : List (Event α Y) → σ → Option (List α) → Prop}
    {Q : List (Event α Y) → Pause σ R → Prop} (hk : m.Keeps A I Q) {es : List (Event α Y)}
    (hA : ∀ c ∈ cs, A c) (h : I es s arg) :
    Q (es ++ (m.drive s arg cs).events) (m.drive s arg cs).pause := by
  induction s, arg, cs using drive_induction (m := m) generalizing es with
  | complete s arg cs r s' hr =>
    have := hk es s arg h
    simpa [drive_complete hr, hr] using this
  | panicked s arg cs msg s' hr =>
    have := hk es s arg h
    simpa [drive_panicked hr, hr] using this
  | read_nil s arg y s' hr hy =>
    have := hk es s arg h
    simp only [hr, hy, if_true] at this
    simpa [drive_read_nil hr hy] using this.1
  | read_cons s arg y s' c cs hr hy ih =>
    have := hk es s arg h
    simp only [hr, hy, if_true] at this
    have := ih (fun c hc => hA c (by simp [hc])) (this.2 c (hA c (by simp)))
    simpa [drive_read_cons hr hy] using this
  | yield s arg cs y s' hr hy ih =>
    have := hk es s arg h
    simp only [hr, hy, Bool.false_eq_true, if_false] at this
    simpa [drive_yield hr hy] using ih hA this

/-! ## Coroutines inside coroutines -/

variable (m) in
/-- The run that goes on from what a resume answered. -/
def after : Resumed Y R × σ → List (List α) → Transcript σ α Y R
  | (.complete r, s), cs => ⟨[], .finished r s, cs⟩
  | (.panicked msg, s), cs => ⟨[], .panicked msg s, cs⟩
  | (.yielded y, s), cs =>
    if m.reads y then
      match cs with
      | [] => ⟨[.yielded y], .waiting s, []⟩
      | c :: cs => (m.drive s (some c) cs).prepend [.yielded y, .fed c]
    else (m.drive s none cs).prepend [.yielded y]

theorem drive_eq_after (s : σ) (arg : Option (List α)) (cs : List (List α)) :
    m.drive s arg cs = m.after (m.resume s arg) cs := by
  rcases hr : m.resume s arg with ⟨y | r | msg, s'⟩
  · cases hy : m.reads y with
    | true =>
      cases cs with
      | nil => simp [drive_read_nil hr hy, after, hy]
      | cons c cs => simp [drive_read_cons hr hy, after, hy]
    | false => simp [drive_yield hr hy, after, hy]
  · exact drive_complete hr
  · exact drive_panicked hr

variable {Y' R' : Type*}

/-- `m'` runs inside `m`, from the states that satisfy `P`: a resume of `m` resumes `m'`, forwards
its requests, and goes on with `finish` when `m'` ends. -/
structure Nests (m' : Machine τ α Y' R') (m : Machine σ α Y R) (into : Y' → Y) (embed : τ → σ)
    (finish : R' → τ → Resumed Y R × σ) (P : τ → Prop) : Prop where
  reads_into : ∀ y, m.reads (into y) = m'.reads y
  keeps : ∀ {t arg y t'}, P t → m'.resume t arg = (.yielded y, t') → P t'
  resume_yielded : ∀ {t arg y t'}, P t → m'.resume t arg = (.yielded y, t') →
    m.resume (embed t) arg = (.yielded (into y), embed t')
  resume_complete : ∀ {t arg r t'}, P t → m'.resume t arg = (.complete r, t') →
    m.resume (embed t) arg = finish r t'
  resume_panicked : ∀ {t arg msg t'}, P t → m'.resume t arg = (.panicked msg, t') →
    m.resume (embed t) arg = (.panicked msg, embed t')

end Machine

/-- The run of the outer coroutine that follows a run of the inner one. -/
def Transcript.within {Y' R' : Type*} (t : Transcript τ α Y' R') (into : Y' → Y) (embed : τ → σ)
    (rest : R' → τ → List (List α) → Transcript σ α Y R) : Transcript σ α Y R :=
  match t.pause with
  | .waiting s => ⟨t.events.map (.map into), .waiting (embed s), t.unfed⟩
  | .panicked msg s => ⟨t.events.map (.map into), .panicked msg (embed s), t.unfed⟩
  | .finished r s => (rest r s t.unfed).prepend (t.events.map (.map into))

theorem Transcript.within_prepend {Y' R' : Type*} (es : List (Event α Y'))
    (t : Transcript τ α Y' R') (into : Y' → Y) (embed : τ → σ)
    (rest : R' → τ → List (List α) → Transcript σ α Y R) :
    (t.prepend es).within into embed rest =
      (t.within into embed rest).prepend (es.map (.map into)) := by
  rcases t with ⟨es', s | ⟨r, s⟩ | ⟨msg, s⟩, un⟩ <;> simp [within, prepend]

/-- **A run of nested coroutines** is a run of the inner one, followed by what the outer one does
when the inner one ends. -/
theorem Machine.Nests.drive {Y' R' : Type*} {m' : Machine τ α Y' R'} {m : Machine σ α Y R}
    {into : Y' → Y} {embed : τ → σ} {finish : R' → τ → Resumed Y R × σ} {P : τ → Prop}
    (h : Nests m' m into embed finish P) {t : τ} (ht : P t) (arg : Option (List α))
    (cs : List (List α)) :
    m.drive (embed t) arg cs =
      (m'.drive t arg cs).within into embed fun r t' cs' => m.after (finish r t') cs' := by
  induction t, arg, cs using drive_induction (m := m') with
  | complete t arg cs r t' hr =>
    rw [drive_eq_after, h.resume_complete ht hr, drive_complete hr]
    simp [Transcript.within, Transcript.prepend]
  | panicked t arg cs msg t' hr =>
    rw [drive_panicked (h.resume_panicked ht hr), drive_panicked hr]
    rfl
  | read_nil t arg y t' hr hy =>
    rw [drive_read_nil (h.resume_yielded ht hr) ((h.reads_into y).trans hy), drive_read_nil hr hy]
    rfl
  | read_cons t arg y t' c cs hr hy ih =>
    rw [drive_read_cons (h.resume_yielded ht hr) ((h.reads_into y).trans hy), drive_read_cons hr hy,
      Transcript.within_prepend, ih (h.keeps ht hr)]
    rfl
  | yield t arg cs y t' hr hy ih =>
    rw [drive_yield (h.resume_yielded ht hr) ((h.reads_into y).trans hy), drive_yield hr hy,
      Transcript.within_prepend, ih (h.keeps ht hr)]
    rfl

/-- A run of a coroutine that only rewords what the inner one ends on. -/
theorem Machine.Nests.drive_map {Y' R' : Type*} {m' : Machine τ α Y' R'} {m : Machine σ α Y R}
    {into : Y' → Y} {embed : τ → σ} {f : R' → R} {P : τ → Prop}
    (h : Nests m' m into embed (fun r t => (.complete (f r), embed t)) P) {t : τ} (ht : P t)
    (arg : Option (List α)) (cs : List (List α)) :
    m.drive (embed t) arg cs =
      ⟨(m'.drive t arg cs).events.map (.map into), (m'.drive t arg cs).pause.map embed f,
        (m'.drive t arg cs).unfed⟩ := by
  rw [h.drive ht, Transcript.within]
  rcases (m'.drive t arg cs).pause with s | ⟨r, s⟩ | ⟨msg, s⟩
  · rfl
  · simp [after, Transcript.prepend, Pause.map]
  · rfl

theorem Machine.drive_mapDone {R' : Type*} (m : Machine σ α Y R) (f : R → R') (s : σ)
    (arg : Option (List α)) (cs : List (List α)) :
    (m.mapDone f).drive s arg cs =
      ⟨(m.drive s arg cs).events, (m.drive s arg cs).pause.map id f, (m.drive s arg cs).unfed⟩ := by
  have h : Nests m (m.mapDone f) id id (fun r t => (.complete (f r), id t)) fun _ => True :=
    { reads_into := fun _ => rfl
      keeps := fun _ _ => trivial
      resume_yielded := fun _ h => by simp [mapDone, h, Resumed.map]
      resume_complete := fun _ h => by simp [mapDone, h, Resumed.map]
      resume_panicked := fun _ h => by simp [mapDone, h, Resumed.map] }
  have := h.drive_map (t := s) trivial arg cs
  simpa using this

end Coroutine
