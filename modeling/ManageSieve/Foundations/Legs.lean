import ManageSieve.Foundations.Coroutine

/-!
# Legs of a run

A coroutine that runs others one after the other is best spoken of by what its runs show: their
events and what they end on, not the states in between. A `Leg` is what a part of a run shows, given
the reads that are left for it; `Leg.andThen` goes on with another leg when the first one ended
well.

`Machine.Nests.leg` is the rule that brings a run to this form, `Leg.andThen_ok` and
`Leg.andThen_failed` say what a run in this form shows, and `Machine.drive_fed` that a run is
determined by the reads it was fed.
-/

namespace Coroutine

variable {σ τ α Y Y' R E E' A B : Type*}

/-- What a pause shows. -/
def Pause.shown (p : Pause σ R) : Pause Unit R := p.map (fun _ => ()) id

/-- What a run shows. -/
def Transcript.shown (t : Transcript σ α Y R) : Transcript Unit α Y R :=
  ⟨t.events, t.pause.shown, t.unfed⟩

theorem Pause.result_shown (p : Pause σ R) : p.shown.result = p.result := by
  rw [shown, result_map, Option.map_id, id]

@[simp] theorem Transcript.shown_events (t : Transcript σ α Y R) : t.shown.events = t.events := rfl
theorem Transcript.shown_prepend (es : List (Event α Y)) (t : Transcript σ α Y R) :
    (t.prepend es).shown = t.shown.prepend es := rfl

/-- What a part of a run shows, given the reads that are left for it. -/
abbrev Leg (α Y E A : Type*) := List (List α) → Transcript Unit α Y (Except E A)

namespace Leg

/-- End. -/
def stop (r : Except E A) : Leg α Y E A := fun cs => ⟨[], .finished r (), cs⟩

/-- Make a request that is not answered with data. -/
def ask (y : Y) (l : Leg α Y E A) : Leg α Y E A := fun cs => (l cs).prepend [.yielded y]

/-- Go on with another leg if this one ends well. -/
def andThen (l : Leg α Y E A) (f : A → Leg α Y E B) : Leg α Y E B := fun cs =>
  match (l cs).pause with
  | .finished (.ok a) _ => (f a (l cs).unfed).prepend (l cs).events
  | .finished (.error e) _ => ⟨(l cs).events, .finished (.error e) (), (l cs).unfed⟩
  | .waiting _ => ⟨(l cs).events, .waiting (), (l cs).unfed⟩
  | .panicked msg _ => ⟨(l cs).events, .panicked msg (), (l cs).unfed⟩

/-- The run of a coroutine, its requests and its errors in other words. -/
def ofMachine (m : Machine σ α Y' (Except E' A)) (into : Y' → Y) (err : E' → E) (s : σ) :
    Leg α Y E A := fun cs =>
  ⟨(m.drive s none cs).events.map (.map into),
    (m.drive s none cs).pause.map (fun _ => ()) (·.mapError err), (m.drive s none cs).unfed⟩

variable {l : Leg α Y E A} {f : A → Leg α Y E B} {cs : List (List α)}

theorem andThen_ok {a : A} (h : (l cs).pause.result = some (.ok a)) :
    l.andThen f cs = (f a (l cs).unfed).prepend (l cs).events := by
  unfold andThen
  rcases hp : (l cs).pause with _ | ⟨r, _⟩ | ⟨msg, _⟩ <;> rw [hp] at h <;> cases h
  rfl

/-- A leg that does not end well is all that is shown. -/
theorem andThen_failed (h : ∀ a, (l cs).pause.result ≠ some (.ok a)) :
    (l.andThen f cs).events = (l cs).events ∧
      (∀ e, (l cs).pause.result = some (.error e) →
        (l.andThen f cs).pause.result = some (.error e)) ∧
      ∀ b, (l.andThen f cs).pause.result ≠ some (.ok b) := by
  unfold andThen
  rcases hp : (l cs).pause with _ | ⟨e | a, _⟩ | ⟨msg, _⟩ <;> rw [hp] at h
  · simp [Pause.result]
  · simp [Pause.result]
  · exact absurd rfl (h a)
  · simp [Pause.result]

/-- What is shown is the first leg, or both. -/
theorem andThen_events (l : Leg α Y E A) (f : A → Leg α Y E B) (cs : List (List α)) :
    (l.andThen f cs).events = (l cs).events ∨
      ∃ a, (l.andThen f cs).events = (l cs).events ++ (f a (l cs).unfed).events := by
  unfold andThen
  rcases (l cs).pause with _ | ⟨e | a, _⟩ | ⟨msg, _⟩
  · exact Or.inl rfl
  · exact Or.inl rfl
  · exact Or.inr ⟨a, rfl⟩
  · exact Or.inl rfl

/-- A leg either ends well or it does not. -/
theorem ok_or_failed (l : Leg α Y E A) (cs : List (List α)) :
    (∃ a, (l cs).pause.result = some (.ok a)) ∨ ∀ a, (l cs).pause.result ≠ some (.ok a) := by
  by_cases h : ∃ a, (l cs).pause.result = some (.ok a)
  · exact Or.inl h
  · exact Or.inr fun a ha => h ⟨a, ha⟩

/-- What ends well did so after a first leg that ended well. -/
theorem ok_of_andThen {b : B} (h : (l.andThen f cs).pause.result = some (.ok b)) :
    ∃ a, (l cs).pause.result = some (.ok a) ∧
      (f a (l cs).unfed).pause.result = some (.ok b) ∧
      (l.andThen f cs).events = (l cs).events ++ (f a (l cs).unfed).events := by
  rcases ok_or_failed l cs with ⟨a, ha⟩ | hfail
  · rw [andThen_ok ha] at h ⊢
    exact ⟨a, ha, h, rfl⟩
  · exact absurd h ((andThen_failed hfail).2.2 b)

@[simp] theorem ask_events (y : Y) (l : Leg α Y E A) (cs : List (List α)) :
    (ask y l cs).events = .yielded y :: (l cs).events := rfl
@[simp] theorem ask_pause (y : Y) (l : Leg α Y E A) (cs : List (List α)) :
    (ask y l cs).pause = (l cs).pause := rfl
@[simp] theorem stop_apply (r : Except E A) (cs : List (List α)) :
    (stop r : Leg α Y E A) cs = ⟨[], .finished r (), cs⟩ := rfl

theorem ask_andThen (y : Y) (l : Leg α Y E A) (f : A → Leg α Y E B) :
    (ask y l).andThen f = ask y (l.andThen f) := by
  funext cs
  unfold andThen ask
  rcases hp : (l cs).pause with _ | ⟨e | a, _⟩ | ⟨msg, _⟩ <;> simp [hp, Transcript.prepend]

theorem stop_ok_andThen (a : A) (f : A → Leg α Y E B) : (stop (.ok a)).andThen f = f a := by
  funext cs
  simp [stop, andThen, Transcript.prepend]

theorem andThen_assoc {C : Type*} (l : Leg α Y E A) (f : A → Leg α Y E B) (g : B → Leg α Y E C) :
    (l.andThen f).andThen g = l.andThen fun a => (f a).andThen g := by
  funext cs
  rcases hp : (l cs).pause with _ | ⟨e | a, _⟩ | ⟨msg, _⟩
  · simp [andThen, hp]
  · simp [andThen, hp]
  · rcases hq : (f a (l cs).unfed).pause with _ | ⟨e | b, _⟩ | ⟨msg, _⟩ <;>
      simp [andThen, hp, hq, Transcript.prepend]
  · simp [andThen, hp]

end Leg

/-- **A run of nested coroutines** shows the leg of the inner one, then what the outer one goes on
with. -/
theorem Machine.Nests.leg {m' : Machine τ α Y' (Except E' A)} {m : Machine σ α Y (Except E B)}
    {into : Y' → Y} {embed : τ → σ} {finish : Except E' A → τ → Resumed Y (Except E B) × σ}
    {P : τ → Prop} {err : E' → E} {f : A → Leg α Y E B} {t : τ} (h : Nests m' m into embed finish P)
    (ht : P t)
    (herr : ∀ e t cs, (m.after (finish (.error e) t) cs).shown = Leg.stop (.error (err e)) cs)
    (hok : ∀ a t cs, (m.after (finish (.ok a) t) cs).shown = f a cs) (cs : List (List α)) :
    (m.drive (embed t) none cs).shown = (Leg.ofMachine m' into err t).andThen f cs := by
  rw [h.drive ht]
  unfold Leg.andThen Leg.ofMachine Transcript.within
  rcases (m'.drive t none cs).pause with s | ⟨e | a, s⟩ | ⟨msg, s⟩ <;>
    simp only [Pause.map, Except.mapError]
  · rfl
  · rw [Transcript.shown_prepend, herr]
    simp [Leg.stop, Transcript.prepend]
  · rw [Transcript.shown_prepend, hok]
  · rfl

/-- **A run is determined by the reads it was fed.** -/
theorem Machine.drive_fed {m : Machine σ α Y R} (s : σ) (arg : Option (List α))
    (cs : List (List α)) :
    m.drive s arg (fedOf (m.drive s arg cs).events) =
      ⟨(m.drive s arg cs).events, (m.drive s arg cs).pause, []⟩ := by
  induction s, arg, cs using drive_induction (m := m) with
  | complete s arg cs r s' hr => simp [drive_complete hr]
  | panicked s arg cs msg s' hr => simp [drive_panicked hr]
  | read_nil s arg y s' hr hy => simp [drive_read_nil hr hy]
  | read_cons s arg y s' c cs hr hy ih =>
    simp [drive_read_cons hr hy, ih, Transcript.prepend]
  | yield s arg cs y s' hr hy ih => simp [drive_yield hr hy, ih, Transcript.prepend]

end Coroutine
