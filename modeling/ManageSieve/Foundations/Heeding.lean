import ManageSieve.Foundations.Pump

/-!
# The end of the data

A transport says that there is no more data by a read that gives nothing. A coroutine heeds that
(`Machine.Heeds`) if the resume that carries it is the last one, and ends on an error.

* A pump that never ends is fed for ever (`Machine.Endless.fed`). Around a coroutine that heeds the
  end of the data, a pump ends if and only if it is not fed something for ever
  (`Heeds.ends_iff_fed`).
* A pump that was told of the end of the data ends there, on an error (`Heeds.failed`).
-/

namespace Coroutine

variable {σ α Y S F E E' A B R : Type*}

namespace Machine

section Fed

variable {m : Machine σ α Y R} {io : Transport S α Y F} {s₀ s : σ} {st₀ st : S}
  {arg : Option (List α)} {es : List (Event α Y)}

variable (m io) in
/-- A pump that never ends. -/
def Endless (t : σ × Option (List α) × S) : Prop := ∀ out, ¬ Ends (m.pumpTurn io) t out

variable (m io) in
/-- In some run the transport gave `n` reads, and something each time. -/
def FedFor (s₀ : σ) (st₀ : S) (n : ℕ) : Prop := ∃ es s arg st,
  m.Run s₀ es s arg ∧ Serves io m.reads st₀ es st ∧ (fedOf es).length = n ∧ [] ∉ fedOf es

/-- A pump that never ends goes on, after a read or after a write. -/
theorem Endless.again (h : m.Endless io (s, arg, st)) : ∃ y s', m.resume s arg = (.yielded y, s') ∧
    ((m.reads y = true ∧ ∃ c st', io.read st = (.ok c, st') ∧ m.Endless io (s', some c, st')) ∨
      (m.reads y = false ∧ ∃ st', io.write st y = (.ok (), st') ∧
        m.Endless io (s', none, st'))) := by
  have hstops : ∀ out, ¬ m.Stops io s arg st out :=
    fun out hstops => h out (.done (pumpTurn_eq_done_iff.2 hstops))
  have hagain : ∀ {t}, m.pumpTurn io (s, arg, st) = .again t → m.Endless io t :=
    fun ht out hout => h out (.again ht hout)
  rcases hr : m.resume s arg with ⟨y | r | msg, s'⟩
  · refine ⟨y, s', rfl, ?_⟩
    cases hy : m.reads y with
    | true =>
      rcases hio : io.read st with ⟨err | c, st'⟩
      · exact absurd (.read hr hy hio) (hstops _)
      · exact .inl ⟨rfl, c, st', rfl, hagain (by simp [pumpTurn, hr, hy, hio])⟩
    | false =>
      rcases hio : io.write st y with ⟨err | _, st'⟩
      · exact absurd (.write hr hy hio) (hstops _)
      · exact .inr ⟨rfl, st', rfl, hagain (by simp [pumpTurn, hr, hy, hio])⟩
  · exact absurd (.returned hr) (hstops _)
  · exact absurd (.panicked hr) (hstops _)

/-- It comes to its next read. -/
theorem Endless.next_read (h : m.Endless io (s, arg, st)) (hrun : m.Run s₀ es s arg)
    (hserves : Serves io m.reads st₀ es st) :
    ∃ es' s' c st', m.Run s₀ es' s' (some c) ∧ Serves io m.reads st₀ es' st' ∧
      (fedOf es').length = (fedOf es).length + 1 ∧ m.Endless io (s', some c, st') := by
  -- once nothing is carried, by the budget
  have key : ∀ n s es st, m.budget s = n → m.Endless io (s, none, st) → m.Run s₀ es s none →
      Serves io m.reads st₀ es st →
      ∃ es' s' c st', m.Run s₀ es' s' (some c) ∧ Serves io m.reads st₀ es' st' ∧
        (fedOf es').length = (fedOf es).length + 1 ∧ m.Endless io (s', some c, st') := by
    intro n
    induction n using Nat.strongRecOn with
    | ind n ih =>
      rintro s es st rfl h hrun hserves
      obtain ⟨y, s', hr, ⟨hy, c, st', hio, h'⟩ | ⟨hy, st', hio, h'⟩⟩ := h.again
      · exact ⟨_, s', c, st', .read c hrun hr hy, hserves.append (.ask hy (.fed hio .nil)),
          by simp, h'⟩
      · obtain ⟨es', t, c, st'', hrun', hserves', hlen, h''⟩ :=
          ih _ (m.budget_lt hr hy) s' _ st' rfl h' (.yield hrun hr hy)
            (hserves.append (.write hy hio .nil))
        exact ⟨es', t, c, st'', hrun', hserves', by simpa using hlen, h''⟩
  obtain ⟨y, s', hr, ⟨hy, c, st', hio, h'⟩ | ⟨hy, st', hio, h'⟩⟩ := h.again
  · exact ⟨_, s', c, st', .read c hrun hr hy, hserves.append (.ask hy (.fed hio .nil)), by simp, h'⟩
  · obtain ⟨es', t, c, st'', hrun', hserves', hlen, h''⟩ := key _ s' _ st' rfl h'
      (.yield hrun hr hy) (hserves.append (.write hy hio .nil))
    exact ⟨es', t, c, st'', hrun', hserves', by simpa using hlen, h''⟩

/-- **A pump that never ends is fed for ever.** -/
theorem Endless.fed (h : m.Endless io (s₀, none, st₀)) (n : ℕ) :
    ∃ es s arg st, m.Run s₀ es s arg ∧ Serves io m.reads st₀ es st ∧ (fedOf es).length = n ∧
      m.Endless io (s, arg, st) := by
  induction n with
  | zero => exact ⟨[], s₀, none, st₀, .start, .nil, rfl, h⟩
  | succ n ih =>
    obtain ⟨es, s, arg, st, hrun, hserves, rfl, h⟩ := ih
    obtain ⟨es', s', c, st', hrun', hserves', hlen, h'⟩ := h.next_read hrun hserves
    exact ⟨es', s', some c, st', hrun', hserves', hlen, h'⟩

/-- A pump that ends has turns left after each of its reads. -/
theorem Run.exists_fuel {out : Pumped R F × S} {n : ℕ} (h : m.Run s₀ es s arg)
    (hserves : Serves io m.reads st₀ es st)
    (hn : runFor (m.pumpTurn io) n (s₀, none, st₀) = some out) :
    ∃ k, runFor (m.pumpTurn io) k (s, arg, st) = some out ∧ k + (fedOf es).length ≤ n := by
  induction h generalizing st with
  | start =>
    cases hserves
    exact ⟨n, hn, Nat.le_refl n⟩
  | @yield es s arg y s' h hr hy ih =>
    obtain ⟨st', hserves, hlast⟩ := hserves.split
    rcases hlast with _ | ⟨hy', -⟩ | _ | @⟨_, _, st'', _, _, -, hio, hlast⟩
    · cases hy.symm.trans hy'
    · cases hlast
      obtain ⟨k, hk, hle⟩ := ih hserves
      have hturn : m.pumpTurn io (s, arg, st') = .again (s', none, st) := by
        simp [pumpTurn, hr, hy, hio]
      cases k with
      | zero => cases hk
      | succ k =>
        simp only [runFor, hturn] at hk
        exact ⟨k, hk, by simp only [fedOf_append, fedOf_yielded, fedOf_nil, List.append_nil]; omega⟩
  | @read es s arg y s' c h hr hy ih =>
    obtain ⟨st', hserves, hlast⟩ := hserves.split
    rcases hlast with _ | ⟨-, hlast⟩ | _ | ⟨hy', -⟩
    · rcases hlast with _ | _ | ⟨hio, hlast⟩ | _
      cases hlast
      obtain ⟨k, hk, hle⟩ := ih hserves
      have hturn : m.pumpTurn io (s, arg, st') = .again (s', some c, st) := by
        simp [pumpTurn, hr, hy, hio]
      cases k with
      | zero => cases hk
      | succ k =>
        simp only [runFor, hturn] at hk
        refine ⟨k, hk, ?_⟩
        simp only [fedOf_append, fedOf_yielded, fedOf_fed, fedOf_nil, List.length_append,
          List.length_singleton]
        omega
    · cases hy.symm.trans hy'

/-- A pump that ends is not fed for ever. -/
theorem not_fedFor_of_ends {out : Pumped R F × S}
    (h : Ends (m.pumpTurn io) (s₀, none, st₀) out) : ∃ n, ¬ m.FedFor io s₀ st₀ n := by
  obtain ⟨n, hn⟩ := ends_iff_runFor.1 h
  refine ⟨n, ?_⟩
  rintro ⟨es, s, arg, st, hrun, hserves, rfl, -⟩
  obtain ⟨k, hk, hle⟩ := hrun.exists_fuel hserves hn
  obtain rfl : k = 0 := by omega
  cases hk

end Fed

/-- The coroutine ends on an error when it is told that there is no more data. `I` is what holds
before every resume. -/
structure Heeds (m : Machine σ α Y (Except E A)) (I : σ → Option (List α) → Prop) : Prop where
  keeps : ∀ {s arg y s'}, I s arg → m.resume s arg = (.yielded y, s') →
    if m.reads y then ∀ c, I s' (some c) else I s' none
  ends : ∀ {s}, I s (some []) → ∃ e s', m.resume s (some []) = (.complete (.error e), s')

namespace Heeds

variable {m : Machine σ α Y (Except E A)} {I : σ → Option (List α) → Prop} {io : Transport S α Y F}
  {s₀ s : σ} {st₀ st : S} {arg : Option (List α)} {es : List (Event α Y)}

/-- In a run, only the last resume may carry the end of the data. -/
theorem run (hm : m.Heeds I) (start : I s₀ none) (h : m.Run s₀ es s arg) :
    I s arg ∧ ([] ∈ fedOf es → arg = some []) := by
  -- a resume that asks on did not carry the end of the data
  have hne : ∀ {s arg y s'}, I s arg → m.resume s arg = (.yielded y, s') → arg ≠ some [] := by
    rintro s _ y s' hI hr rfl
    obtain ⟨e, t, ht⟩ := hm.ends hI
    cases hr.symm.trans ht
  induction h with
  | start => exact ⟨start, fun hmem => absurd hmem List.not_mem_nil⟩
  | yield _ hr hy ih =>
    have hkeeps := hm.keeps ih.1 hr
    simp only [hy, Bool.false_eq_true, if_false] at hkeeps
    refine ⟨hkeeps, fun hmem => absurd (ih.2 ?_) (hne ih.1 hr)⟩
    simpa using hmem
  | read c _ hr hy ih =>
    have hkeeps := hm.keeps ih.1 hr
    simp only [hy, if_true] at hkeeps
    refine ⟨hkeeps c, fun hmem => ?_⟩
    rw [fedOf_append, List.mem_append] at hmem
    rcases hmem with hmem | hmem
    · exact absurd (ih.2 hmem) (hne ih.1 hr)
    · simpa [eq_comm] using hmem

/-- A run that ends on a value was not told of the end of the data. -/
theorem nil_notMem_fed {a : A} {s' : σ} (hm : m.Heeds I) (start : I s₀ none)
    (h : m.Run s₀ es s arg) (hr : m.resume s arg = (.complete (.ok a), s')) : [] ∉ fedOf es := by
  intro hmem
  obtain ⟨hI, harg⟩ := hm.run start h
  obtain rfl := harg hmem
  obtain ⟨e, t, hends⟩ := hm.ends hI
  cases hr.symm.trans hends

/-- **A pump ends if and only if it is not fed something for ever.** -/
theorem ends_iff_fed (hm : m.Heeds I) (start : I s₀ none) (io : Transport S α Y F) (st₀ : S) :
    (∃ out, Ends (m.pumpTurn io) (s₀, none, st₀) out) ↔ ∃ n, ¬ m.FedFor io s₀ st₀ n := by
  constructor
  · rintro ⟨out, h⟩
    exact not_fedFor_of_ends h
  · rintro ⟨n, hn⟩
    by_contra h
    refine hn ?_
    obtain ⟨es, s, arg, st, hrun, hserves, hlen, hendless⟩ := Endless.fed (not_exists.1 h) n
    refine ⟨es, s, arg, st, hrun, hserves, hlen, fun hmem => ?_⟩
    obtain ⟨hI, harg⟩ := hm.run start hrun
    obtain rfl := harg hmem
    obtain ⟨e, t, hr⟩ := hm.ends hI
    exact hendless _ (.done (pumpTurn_eq_done_iff.2 (.returned hr)))

/-- **A pump that was told of the end of the data ends there**, on an error. -/
theorem failed (hm : m.Heeds I) (start : I s₀ none) (h : m.Run s₀ es s arg)
    (hserves : Serves io m.reads st₀ es st) (hmem : [] ∈ fedOf es) :
    ∃ e, Ends (m.pumpTurn io) (s₀, none, st₀) (.returned (.error e), st) := by
  obtain ⟨hI, harg⟩ := hm.run start h
  obtain rfl := harg hmem
  obtain ⟨e, t, hr⟩ := hm.ends hI
  exact ⟨e, ends_pump_iff.2 ⟨es, s, some [], st, h, hserves, .returned hr⟩⟩

/-- A coroutine that only rewords what another one ends on, errors as errors. -/
theorem mapDone (hm : m.Heeds I) {f : Except E A → Except E' B}
    (hf : ∀ e, ∃ e', f (.error e) = .error e') : (m.mapDone f).Heeds I where
  keeps {s arg y s'} hI hr := by
    rw [Machine.mapDone, Prod.mk.injEq] at hr
    exact hm.keeps hI (Prod.ext (Resumed.map_eq_yielded hr.1) hr.2)
  ends {s} hI := by
    obtain ⟨e, t, hr⟩ := hm.ends hI
    obtain ⟨e', he'⟩ := hf e
    exact ⟨e', t, by simp only [Machine.mapDone, hr, ← he']; rfl⟩

end Heeds

end Machine

end Coroutine
