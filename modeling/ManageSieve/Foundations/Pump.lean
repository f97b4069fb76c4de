import ManageSieve.Foundations.Reach

/-!
# Coroutines against a transport

A pump is the loop that an I/O-free program needs around it: it resumes the coroutine and answers
its requests from a transport, a read for a request for data and a write for any other, until the
coroutine ends or the transport fails.

* `Ends` is what a loop comes to when no rank bounds its turns, `runFor` the same with fuel
  (`ends_iff_runFor`).
* `Machine.ends_pump_iff` is the rule of pumps: what a pump comes to is a run of the coroutine on
  reads that the transport served, followed by a resume that ends it or a request that failed.
* `Machine.Patient` is a coroutine that does not ask for data forever. It ends when it was fed
  enough reads (`Patient.length_le`), and so does a pump around it, whatever the transport
  (`Patient.ends_pump`).
-/

namespace Coroutine

variable {σ τ ρ α Y R S F : Type*}

/-! ## Loops that no rank bounds -/

/-- The loop with these turns ends on `r` when it starts from `s`. -/
inductive Ends (turn : σ → Turn σ ρ) : σ → ρ → Prop
  | done {s r} : turn s = .done r → Ends turn s r
  | again {s s' r} : turn s = .again s' → Ends turn s' r → Ends turn s r

/-- Take turns until one returns, or the fuel is used up. -/
def runFor (turn : σ → Turn σ ρ) : ℕ → σ → Option ρ
  | 0, _ => none
  | n + 1, s =>
    match turn s with
    | .done r => some r
    | .again s' => runFor turn n s'

variable {turn : σ → Turn σ ρ}

/-- A loop ends if some amount of fuel is enough for it. -/
theorem ends_iff_runFor {s : σ} {r : ρ} : Ends turn s r ↔ ∃ n, runFor turn n s = some r := by
  constructor
  · intro h
    induction h with
    | done ht => exact ⟨1, by rw [runFor, ht]⟩
    | again ht _ ih =>
      obtain ⟨n, hn⟩ := ih
      exact ⟨n + 1, by simp only [runFor, ht, hn]⟩
  · rintro ⟨n, hn⟩
    induction n generalizing s with
    | zero => cases hn
    | succ n ih =>
      rw [runFor] at hn
      cases ht : turn s with
      | done r' =>
        rw [ht] at hn
        cases hn
        exact .done ht
      | again s' =>
        rw [ht] at hn
        exact .again ht (ih hn)

/-- A loop ends in one way. -/
theorem Ends.unique {s : σ} {r r' : ρ} (h : Ends turn s r) (h' : Ends turn s r') : r = r' := by
  induction h with
  | done ht =>
    cases h' with
    | done ht' => exact Turn.done.inj (ht.symm.trans ht')
    | again ht' => cases ht.symm.trans ht'
  | again ht _ ih =>
    cases h' with
    | done ht' => cases ht.symm.trans ht'
    | again ht' h' =>
      cases ht.symm.trans ht'
      exact ih h'

/-- The same decision, in other words. -/
def Turn.map {σ' ρ' : Type*} (f : σ → σ') (g : ρ → ρ') : Turn σ ρ → Turn σ' ρ'
  | .again s => .again (f s)
  | .done r => .done (g r)

/-- A loop whose turns are those of another one, in other words, ends as that one does. -/
theorem ends_map_iff {σ' ρ' : Type*} {turn' : σ' → Turn σ' ρ'} {f : σ → σ'} {g : ρ → ρ'}
    (h : ∀ s, turn' (f s) = (turn s).map f g) {s : σ} {r' : ρ'} :
    Ends turn' (f s) r' ↔ ∃ r, Ends turn s r ∧ g r = r' := by
  constructor
  · intro hends
    generalize hs : f s = s' at hends
    induction hends generalizing s with
    | done ht =>
      subst hs
      rw [h] at ht
      cases hturn : turn s with
      | done r =>
        rw [hturn] at ht
        exact ⟨r, .done hturn, Turn.done.inj ht⟩
      | again t =>
        rw [hturn] at ht
        cases ht
    | again ht _ ih =>
      subst hs
      rw [h] at ht
      cases hturn : turn s with
      | done r =>
        rw [hturn] at ht
        cases ht
      | again t =>
        rw [hturn] at ht
        obtain ⟨r, hr, hg⟩ := ih (Turn.again.inj ht)
        exact ⟨r, .again hturn hr, hg⟩
  · rintro ⟨r, hends, rfl⟩
    induction hends with
    | done ht => exact .done (by rw [h, ht]; rfl)
    | again ht _ ih => exact .again (by rw [h, ht]; rfl) ih

/-! ## Transports -/

/-- How a transport answers: what a read gives, and what a write does. -/
structure Transport (S α Y F : Type*) where
  read : S → Except F (List α) × S
  write : S → Y → Except F Unit × S

/-- What a pump comes to. -/
inductive Pumped (R F : Type*)
  | returned (r : R)
  | failed (err : F)
  | panicked (msg : String)

variable (io : Transport S α Y F)

/-- `Serves io reads st es st'`: the transport goes from `st` to `st'` over the events `es`, serving
the reads among them and taking the writes. -/
inductive Serves (reads : Y → Bool) : S → List (Event α Y) → S → Prop
  | nil {st} : Serves reads st [] st
  | ask {st y es st'} (hy : reads y = true) : Serves reads st es st' →
      Serves reads st (.yielded y :: es) st'
  | fed {st c st' es st''} (h : io.read st = (.ok c, st')) : Serves reads st' es st'' →
      Serves reads st (.fed c :: es) st''
  | write {st y st' es st''} (hy : reads y = false) (h : io.write st y = (.ok (), st')) :
      Serves reads st' es st'' → Serves reads st (.yielded y :: es) st''

variable {io} {reads : Y → Bool}

theorem Serves.append {st st' st'' : S} {es es' : List (Event α Y)} (h : Serves io reads st es st')
    (h' : Serves io reads st' es' st'') : Serves io reads st (es ++ es') st'' := by
  induction h with
  | nil => exact h'
  | ask hy _ ih => exact .ask hy (ih h')
  | fed hr _ ih => exact .fed hr (ih h')
  | write hy hw _ ih => exact .write hy hw (ih h')

theorem Serves.split {st st'' : S} {es es' : List (Event α Y)}
    (h : Serves io reads st (es ++ es') st'') :
    ∃ st', Serves io reads st es st' ∧ Serves io reads st' es' st'' := by
  induction es generalizing st with
  | nil => exact ⟨st, .nil, h⟩
  | cons e es ih =>
    cases h with
    | ask hy h =>
      obtain ⟨st', h₁, h₂⟩ := ih h
      exact ⟨st', .ask hy h₁, h₂⟩
    | fed hr h =>
      obtain ⟨st', h₁, h₂⟩ := ih h
      exact ⟨st', .fed hr h₁, h₂⟩
    | write hy hw h =>
      obtain ⟨st', h₁, h₂⟩ := ih h
      exact ⟨st', .write hy hw h₁, h₂⟩

variable (io) in
/-- `Gives io st cs st'`: reading again and again gives `cs`. -/
inductive Gives : S → List (List α) → S → Prop
  | nil {st} : Gives st [] st
  | cons {st c st' cs st''} (h : io.read st = (.ok c, st')) : Gives st' cs st'' →
      Gives st (c :: cs) st''

namespace Machine

variable (m : Machine σ α Y R)

/-- One turn of the loop around a coroutine. -/
def pumpTurn (io : Transport S α Y F) (s : σ × Option (List α) × S) :
    Turn (σ × Option (List α) × S) (Pumped R F × S) :=
  match m.resume s.1 s.2.1 with
  | (.complete r, _) => .done (.returned r, s.2.2)
  | (.panicked msg, _) => .done (.panicked msg, s.2.2)
  | (.yielded y, s') =>
    if m.reads y then
      match io.read s.2.2 with
      | (.ok c, st) => .again (s', some c, st)
      | (.error err, st) => .done (.failed err, st)
    else
      match io.write s.2.2 y with
      | (.ok (), st) => .again (s', none, st)
      | (.error err, st) => .done (.failed err, st)

/-- The turn that a pump ends on. -/
inductive Stops (io : Transport S α Y F) (s : σ) (arg : Option (List α)) (st : S) :
    Pumped R F × S → Prop
  | returned {r s'} (hr : m.resume s arg = (.complete r, s')) : Stops io s arg st (.returned r, st)
  | panicked {msg s'} (hr : m.resume s arg = (.panicked msg, s')) :
      Stops io s arg st (.panicked msg, st)
  | read {y s' err st'} (hr : m.resume s arg = (.yielded y, s')) (hy : m.reads y = true)
      (h : io.read st = (.error err, st')) : Stops io s arg st (.failed err, st')
  | write {y s' err st'} (hr : m.resume s arg = (.yielded y, s')) (hy : m.reads y = false)
      (h : io.write st y = (.error err, st')) : Stops io s arg st (.failed err, st')

variable {m} {s s₀ : σ} {arg : Option (List α)} {st st₀ : S} {es : List (Event α Y)}

theorem pumpTurn_eq_done_iff {out : Pumped R F × S} :
    m.pumpTurn io (s, arg, st) = .done out ↔ m.Stops io s arg st out := by
  constructor
  · intro h
    unfold pumpTurn at h
    dsimp only at h
    rcases hr : m.resume s arg with ⟨y | r | msg, s'⟩ <;> rw [hr] at h <;> dsimp only at h
    · split at h
      · next hy =>
        rcases hio : io.read st with ⟨err | c, st'⟩ <;> rw [hio] at h <;> cases h
        exact .read hr hy hio
      · next hy =>
        rcases hio : io.write st y with ⟨err | _, st'⟩ <;> rw [hio] at h <;> cases h
        exact .write hr (by simpa using hy) hio
    · cases h
      exact .returned hr
    · cases h
      exact .panicked hr
  · rintro (hr | hr | ⟨hr, hy, hio⟩ | ⟨hr, hy, hio⟩) <;> simp [pumpTurn, *]

/-- A turn of a pump that goes on is a step of a run, and serves what it asks for. -/
theorem Run.of_again {s' : σ} {arg' : Option (List α)} {st' : S} (h : m.Run s₀ es s arg)
    (hserves : Serves io m.reads st₀ es st)
    (ht : m.pumpTurn io (s, arg, st) = .again (s', arg', st')) :
    ∃ es', m.Run s₀ es' s' arg' ∧ Serves io m.reads st₀ es' st' := by
  unfold pumpTurn at ht
  dsimp only at ht
  rcases hr : m.resume s arg with ⟨y | r | msg, s''⟩ <;> rw [hr] at ht <;> dsimp only at ht
  · split at ht
    · next hy =>
      rcases hio : io.read st with ⟨err | c, st''⟩ <;> rw [hio] at ht <;> cases ht
      exact ⟨_, .read c h hr hy, hserves.append (.ask hy (.fed hio .nil))⟩
    · next hy =>
      have hy : m.reads y = false := by simpa using hy
      rcases hio : io.write st y with ⟨err | _, st''⟩ <;> rw [hio] at ht <;> cases ht
      exact ⟨_, .yield h hr hy, hserves.append (.write hy hio .nil)⟩
  · cases ht
  · cases ht

/-- What a pump comes to from the end of a run that was served, it comes to from its start. -/
theorem Run.ends_pump {out : Pumped R F × S} (h : m.Run s₀ es s arg)
    (hserves : Serves io m.reads st₀ es st) (hends : Ends (m.pumpTurn io) (s, arg, st) out) :
    Ends (m.pumpTurn io) (s₀, none, st₀) out := by
  induction h generalizing st with
  | start =>
    cases hserves
    exact hends
  | @yield es s arg y s' h hr hy ih =>
    obtain ⟨st', hserves, hlast⟩ := hserves.split
    rcases hlast with _ | ⟨hy', -⟩ | _ | @⟨_, _, st'', _, _, -, hio, hlast⟩
    · cases hy.symm.trans hy'
    · cases hlast
      refine ih hserves (.again ?_ hends)
      simp [pumpTurn, hr, hy, hio]
  | @read es s arg y s' c h hr hy ih =>
    obtain ⟨st', hserves, hlast⟩ := hserves.split
    rcases hlast with _ | ⟨-, hlast⟩ | _ | ⟨hy', -⟩
    · rcases hlast with _ | _ | ⟨hio, hlast⟩ | _
      cases hlast
      refine ih hserves (.again ?_ hends)
      simp [pumpTurn, hr, hy, hio]
    · cases hy.symm.trans hy'

/-- What a pump comes to from the end of a run is a longer run, and the turn that ends it. -/
theorem Run.of_ends {t : σ × Option (List α) × S} {out : Pumped R F × S}
    (h : Ends (m.pumpTurn io) t out) (hrun : m.Run s₀ es t.1 t.2.1)
    (hserves : Serves io m.reads st₀ es t.2.2) :
    ∃ es s arg st, m.Run s₀ es s arg ∧ Serves io m.reads st₀ es st ∧ m.Stops io s arg st out := by
  induction h generalizing es with
  | @done t out ht => exact ⟨es, t.1, t.2.1, t.2.2, hrun, hserves, pumpTurn_eq_done_iff.1 ht⟩
  | again ht _ ih =>
    obtain ⟨es', hrun', hserves'⟩ := hrun.of_again hserves ht
    exact ih hrun' hserves'

/-- **The rule of pumps.** What a pump comes to is a run of the coroutine on reads that the
transport served, and the turn that ends it. -/
theorem ends_pump_iff {out : Pumped R F × S} :
    Ends (m.pumpTurn io) (s₀, none, st₀) out ↔
      ∃ es s arg st, m.Run s₀ es s arg ∧ Serves io m.reads st₀ es st ∧ m.Stops io s arg st out := by
  constructor
  · exact fun h => Run.of_ends h .start .nil
  · rintro ⟨es, s, arg, st, hrun, hserves, hstops⟩
    exact hrun.ends_pump hserves (.done (pumpTurn_eq_done_iff.2 hstops))

/-! ## Runs of a pump as runs on a list of reads -/

/-- A run goes on as the run from the state that it reached. -/
theorem Run.drive (h : m.Run s₀ es s arg) (cs : List (List α)) :
    m.drive s₀ none (fedOf es ++ cs) = (m.drive s arg cs).prepend es := by
  induction h generalizing cs with
  | start => simp [Transcript.prepend]
  | yield _ hr hy ih =>
    rw [fedOf_append, List.append_assoc, fedOf_yielded, fedOf_nil, List.nil_append, ih,
      drive_yield hr hy]
    simp [Transcript.prepend]
  | read c _ hr hy ih =>
    rw [fedOf_append, List.append_assoc, fedOf_yielded, fedOf_fed, fedOf_nil, List.singleton_append,
      ih, drive_read_cons hr hy]
    simp [Transcript.prepend]

/-- What happened so far is how a run on the reads so far starts. -/
theorem Run.isPrefix (h : m.Run s₀ es s arg) : es <+: (m.drive s₀ none (fedOf es)).events := by
  have hdrive := h.drive []
  rw [List.append_nil] at hdrive
  rw [hdrive]
  exact List.prefix_append _ _

/-- The events of a run that ended are a run of their own. -/
theorem exists_run_of_drive {r : R} {s' : σ} (cs : List (List α))
    (h : (m.drive s arg cs).pause = .finished r s') (hrun : m.Run s₀ es s arg) :
    ∃ s'' arg'', m.Run s₀ (es ++ (m.drive s arg cs).events) s'' arg'' ∧
      m.resume s'' arg'' = (.complete r, s') := by
  induction s, arg, cs using drive_induction (m := m) generalizing es with
  | complete s arg cs r' s'' hr =>
    rw [drive_complete hr] at h ⊢
    cases h
    exact ⟨s, arg, by simpa using hrun, hr⟩
  | panicked s arg cs msg s'' hr =>
    rw [drive_panicked hr] at h
    cases h
  | read_nil s arg y s'' hr hy =>
    rw [drive_read_nil hr hy] at h
    cases h
  | read_cons s arg y s'' c cs hr hy ih =>
    rw [drive_read_cons hr hy] at h ⊢
    simpa using ih h (.read c hrun hr hy)
  | yield s arg cs y s'' hr hy ih =>
    rw [drive_yield hr hy] at h ⊢
    simpa using ih h (.yield hrun hr hy)

/-- **A pump returns what the coroutine ends on**, on the reads that the transport served. -/
theorem ends_pump_returned_iff {r : R} {st : S} :
    Ends (m.pumpTurn io) (s₀, none, st₀) (.returned r, st) ↔
      ∃ cs, (m.drive s₀ none cs).pause.result = some r ∧
        Serves io m.reads st₀ (m.drive s₀ none cs).events st := by
  rw [ends_pump_iff]
  constructor
  · rintro ⟨es, s, arg, st', hrun, hserves, hstops⟩
    rcases hstops with hr | _ | _ | _
    have hdrive := hrun.drive []
    rw [List.append_nil, drive_complete hr] at hdrive
    exact ⟨fedOf es, by rw [hdrive]; rfl, by simpa [hdrive] using hserves⟩
  · rintro ⟨cs, hresult, hserves⟩
    rcases hp : (m.drive s₀ none cs).pause with s' | ⟨r', s'⟩ | ⟨msg, s'⟩ <;> rw [hp] at hresult <;>
      cases hresult
    obtain ⟨s, arg, hrun, hr⟩ := exists_run_of_drive cs hp .start
    exact ⟨_, s, arg, st, by simpa using hrun, hserves, .returned hr⟩

/-! ## Coroutines that do not ask forever -/

/-- `patience` bounds how often a coroutine asks for data: every resume that carries data and asks
on lowers it, and no other resume raises it. -/
structure Patient (m : Machine σ α Y R) (P : σ → Prop) (patience : σ → ℕ) : Prop where
  keeps : ∀ {s arg y s'}, P s → m.resume s arg = (.yielded y, s') → P s'
  lt : ∀ {s c y s'}, P s → m.resume s (some c) = (.yielded y, s') → patience s' < patience s
  le : ∀ {s y s'}, P s → m.resume s none = (.yielded y, s') → patience s' ≤ patience s

namespace Patient

variable {P : σ → Prop} {patience : σ → ℕ}

/-- A resume that asks on costs patience if it carries data. -/
theorem cost (hm : m.Patient P patience) (hs : P s) {y : Y} {s' : σ}
    (hr : m.resume s arg = (.yielded y, s')) :
    patience s' + (if arg.isSome then 1 else 0) ≤ patience s := by
  cases arg with
  | none => simpa using hm.le hs hr
  | some c => exact hm.lt hs hr

/-- A coroutine that waits was fed no more reads than its patience allows. -/
theorem length_le (hm : m.Patient P patience) (hs : P s) {cs : List (List α)} {s' : σ}
    (h : (m.drive s none cs).pause = .waiting s') : cs.length ≤ patience s := by
  -- a resume that carries data counts as a read
  have key : ∀ s arg cs, P s → (m.drive s arg cs).pause = .waiting s' →
      cs.length + (if arg.isSome then 1 else 0) ≤ patience s := by
    intro s arg cs
    induction s, arg, cs using drive_induction (m := m) with
    | complete s arg cs r t hr =>
      intro _ h
      rw [drive_complete hr] at h
      cases h
    | panicked s arg cs msg t hr =>
      intro _ h
      rw [drive_panicked hr] at h
      cases h
    | read_nil s arg y t hr hy =>
      intro hs _
      have := hm.cost hs hr
      rw [List.length_nil]
      omega
    | read_cons s arg y t c cs hr hy ih =>
      intro hs h
      rw [drive_read_cons hr hy] at h
      have := hm.cost hs hr
      have := ih (hm.keeps hs hr) h
      simp only [Option.isSome_some, if_true, List.length_cons] at this ⊢
      omega
    | yield s arg cs y t hr hy ih =>
      intro hs h
      rw [drive_yield hr hy] at h
      have := hm.cost hs hr
      have := ih (hm.keeps hs hr) h
      simp only [Option.isSome_none, Bool.false_eq_true, if_false] at this
      omega
  simpa using key s none cs hs h

/-- A coroutine in the middle of a run was fed no more reads than its patience allows, and the one
that it is about to be resumed with. -/
theorem fed_le (hm : m.Patient P patience) (hs : P s₀) (h : m.Run s₀ es s arg) :
    P s ∧ (fedOf es).length + patience s ≤ patience s₀ + (if arg.isSome then 1 else 0) := by
  induction h with
  | start => exact ⟨hs, by simp⟩
  | yield _ hr _ ih =>
    obtain ⟨hs, hle⟩ := ih
    have := hm.cost hs hr
    refine ⟨hm.keeps hs hr, ?_⟩
    rw [fedOf_append, fedOf_yielded, fedOf_nil, List.append_nil]
    omega
  | read c _ hr _ ih =>
    obtain ⟨hs, hle⟩ := ih
    have := hm.cost hs hr
    refine ⟨hm.keeps hs hr, ?_⟩
    rw [fedOf_append, fedOf_yielded, fedOf_fed, fedOf_nil, List.length_append,
      List.length_singleton, Option.isSome_some, if_pos rfl]
    omega

/-- **A pump around a patient coroutine ends**, whatever the transport. -/
theorem ends_pump (hm : m.Patient P patience) (io : Transport S α Y F) (hs : P s)
    (arg : Option (List α)) (st : S) : ∃ out, Ends (m.pumpTurn io) (s, arg, st) out := by
  -- by the patience, then whether data is asked for, then the budget
  induction hp : patience s using Nat.strongRecOn generalizing s arg st with
  | ind p ihp =>
    subst hp
    have hsome : ∀ {s' : σ}, P s' → patience s' ≤ patience s → ∀ c st,
        ∃ out, Ends (m.pumpTurn io) (s', some c, st) out := by
      intro s' hs' hle c st
      cases ht : m.pumpTurn io (s', some c, st) with
      | done out => exact ⟨out, .done ht⟩
      | again t =>
        obtain ⟨t, arg', st'⟩ := t
        obtain ⟨y, hr⟩ : ∃ y, m.resume s' (some c) = (.yielded y, t) := by
          unfold pumpTurn at ht
          dsimp only at ht
          rcases hr : m.resume s' (some c) with ⟨y | r | msg, t'⟩ <;> rw [hr] at ht <;>
            dsimp only at ht
          · refine ⟨y, ?_⟩
            split at ht <;> split at ht <;> cases ht <;> rfl
          · cases ht
          · cases ht
        obtain ⟨out, hout⟩ := ihp _ (Nat.lt_of_lt_of_le (hm.lt hs' hr) hle) (hm.keeps hs' hr) arg'
          st' rfl
        exact ⟨out, .again ht hout⟩
    have hnone : ∀ n (s' : σ), m.budget s' = n → P s' → patience s' ≤ patience s → ∀ st,
        ∃ out, Ends (m.pumpTurn io) (s', none, st) out := by
      intro n
      induction n using Nat.strongRecOn with
      | ind n ihn =>
        rintro s' rfl hs' hle st
        rcases hr : m.resume s' none with ⟨y | r | msg, t⟩
        · have hle' := Nat.le_trans (hm.le hs' hr) hle
          cases hy : m.reads y with
          | true =>
            rcases hio : io.read st with ⟨err | c, st'⟩
            · exact ⟨_, .done (by simp [pumpTurn, hr, hy, hio]; rfl)⟩
            · obtain ⟨out, hout⟩ := hsome (hm.keeps hs' hr) hle' c st'
              exact ⟨out, .again (by simp [pumpTurn, hr, hy, hio]) hout⟩
          | false =>
            rcases hio : io.write st y with ⟨err | _, st'⟩
            · exact ⟨_, .done (by simp [pumpTurn, hr, hy, hio]; rfl)⟩
            · obtain ⟨out, hout⟩ := ihn _ (m.budget_lt hr hy) t rfl (hm.keeps hs' hr) hle' st'
              exact ⟨out, .again (by simp [pumpTurn, hr, hy, hio]) hout⟩
        · exact ⟨_, .done (by simp [pumpTurn, hr]; rfl)⟩
        · exact ⟨_, .done (by simp [pumpTurn, hr]; rfl)⟩
    cases arg with
    | none => exact hnone _ s rfl hs (Nat.le_refl _) st
    | some c => exact hsome hs (Nat.le_refl _) c st

/-- A coroutine that only rewords what another one ends on is as patient. -/
theorem mapDone {R' : Type*} (hm : m.Patient P patience) (f : R → R') :
    (m.mapDone f).Patient P patience := by
  have hyield : ∀ {s arg y s'}, (m.mapDone f).resume s arg = (.yielded y, s') →
      m.resume s arg = (.yielded y, s') := by
    intro s arg y s' hr
    rw [Machine.mapDone, Prod.mk.injEq] at hr
    exact Prod.ext (Resumed.map_eq_yielded hr.1) hr.2
  exact ⟨fun hs hr => hm.keeps hs (hyield hr), fun hs hr => hm.lt hs (hyield hr),
    fun hs hr => hm.le hs (hyield hr)⟩

end Patient

end Machine

end Coroutine
