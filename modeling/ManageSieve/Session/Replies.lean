import ManageSieve.Session.Legs

/-!
# Replies without a byte too many

The greeting and the reply to STARTTLS are read by coroutines that accept an OK response only, and
refuse it when the read that completes it carries bytes past its end (`Strict`).
`SessionLeg.reading_ok` and `SessionLeg.reading_overruns` say what such a leg read, wherever the
reads were cut.
-/

namespace ManageSieve

open Coroutine

variable {ε A : Type*}

/-! ## Exact replies -/

/-- The bytes are exactly one response, and it is an OK. -/
def IsOk (b : Bytes) : Prop :=
  ∃ response, ManagesieveResponse.parse b = .ok (some (response, b.length)) ∧
    response.completion.status = .ok

/-- The read that completes a response carries bytes past its end. -/
def Overruns (cs : List Bytes) : Prop :=
  ∃ cs₁ c cs₂, cs = cs₁ ++ c :: cs₂ ∧ ManagesieveResponse.parse cs₁.flatten = .ok none ∧
    ∃ response n, ManagesieveResponse.parse (cs₁.flatten ++ c) = .ok (some (response, n)) ∧
      n < (cs₁.flatten ++ c).length

theorem not_overruns_nil : ¬ Overruns [] := by
  rintro ⟨cs₁, c, cs₂, h, -⟩
  simp at h

/-- Reads that cut an OK response exactly do not overrun it, whatever is read after them. -/
theorem IsOk.not_overruns {cs : List Bytes} (h : IsOk cs.flatten) (cs' : List Bytes) :
    ¬ Overruns (cs ++ cs') := by
  rintro ⟨cs₁, c, cs₂, heq, hnone, response, n, hsome, hn⟩
  obtain ⟨response', hok, -⟩ := h
  rw [List.append_eq_append_iff] at heq
  rcases heq with ⟨as, rfl, -⟩ | ⟨bs, rfl, hbs⟩
  · -- the response was whole before the read that is said to complete it
    have hmore := responseParser.some_append hok as.flatten
    rw [← List.flatten_append, responseParser_parse, hnone] at hmore
    cases hmore
  · rcases bs with _ | ⟨b, bs⟩
    · rw [List.append_nil, hnone] at hok
      cases hok
    · obtain ⟨rfl, rfl⟩ := List.cons.inj hbs
      have hprefix : cs₁.flatten ++ c <+: (cs₁ ++ c :: bs).flatten := ⟨bs.flatten, by simp⟩
      have hwhole := responseParser.parse_prefix hprefix hok
      have hle := hprefix.length_le
      rw [responseParser_parse, hsome] at hwhole
      split_ifs at hwhole <;> cases hwhole
      omega

/-- A reading of what the response reader ends on that accepts an OK response only, and nothing past
its end. -/
structure Strict {E : Type*} (interpret : ManagesieveResponseRead.Return → Except E A)
    (injection : E) : Prop where
  of_ok : ∀ {r a}, interpret r = .ok a →
    ∃ response, r = .ok ⟨response, []⟩ ∧ response.completion.status = .ok
  of_trailing : ∀ {out}, out.trailing ≠ [] → interpret (.ok out) = .error injection

theorem strict_greeting : Strict ManagesieveGreetingGet.finish .injection where
  of_ok {r a} h := by
    rcases r with err | ⟨response, trailing⟩
    · cases h
    · unfold ManagesieveGreetingGet.finish at h
      dsimp only at h
      split_ifs at h with htrailing hstatus
      exact ⟨response, by rw [not_not.1 htrailing], not_not.1 hstatus⟩
  of_trailing h := if_pos h

theorem strict_startTls : Strict ManagesieveStartTls.finish .injection where
  of_ok {r a} h := by
    rcases r with err | ⟨response, trailing⟩
    · cases h
    · unfold ManagesieveStartTls.finish at h
      dsimp only at h
      split_ifs at h with htrailing
      refine ⟨response, by rw [not_not.1 htrailing], ?_⟩
      rcases hr : response.intoResult with completion | response' <;> rw [hr] at h
      · cases h
      · exact (ManagesieveResponse.of_intoResult hr).1
  of_trailing h := if_pos h

theorem Strict.mapError {E E' : Type*} {interpret : ManagesieveResponseRead.Return → Except E A}
    {injection : E} (h : Strict interpret injection) (err : E → E') :
    Strict (fun r => (interpret r).mapError err) (err injection) where
  of_ok {r a} hr := by
    rcases hi : interpret r with e | a' <;> simp only [hi, Except.mapError] at hr
    · cases hr
    · exact h.of_ok hi
  of_trailing hout := by simp only [h.of_trailing hout, Except.mapError]

/-! ## What the legs read -/

namespace SessionLeg

/-- Read a response. -/
def reading
    (interpret : ManagesieveResponseRead.Return → Except (ManagesieveSessionOpenError ε) A) :
    SessionLeg ε A := fun cs =>
  ⟨(ManagesieveResponseRead.machine.drive .new none cs).events.map (.map .ofYield),
    (ManagesieveResponseRead.machine.drive .new none cs).pause.map (fun _ => ()) interpret,
    (ManagesieveResponseRead.machine.drive .new none cs).unfed⟩

theorem greet_eq : (greet : SessionLeg ε _) =
    reading fun r => (ManagesieveGreetingGet.finish r).mapError .greeting := by
  funext cs
  unfold greet Leg.ofMachine reading ManagesieveGreetingGet.machine
  rw [Machine.drive_mapDone]
  change _ =
    (⟨_, (ManagesieveResponseRead.machine.drive ManagesieveGreetingGet.new none cs).pause.map _ _,
      _⟩ : Transcript _ _ _ _)
  rcases (ManagesieveResponseRead.machine.drive ManagesieveGreetingGet.new none cs).pause with
    s | ⟨r, s⟩ | ⟨msg, s⟩ <;> rfl

theorem startTls_eq : (startTls : SessionLeg ε _) =
    .ask (.wantsWrite ManagesieveStartTlsCommand.toBytes)
      (reading fun r => (ManagesieveStartTls.finish r).mapError .startTls) := by
  funext cs
  unfold startTls Leg.ofMachine Leg.ask reading ManagesieveStartTls.machine ManagesieveStartTls.new
  rw [Machine.drive_mapDone, ManagesieveCommandSend.drive_new]
  rcases (ManagesieveResponseRead.machine.drive .new none cs).pause with
    s | ⟨r, s⟩ | ⟨msg, s⟩ <;> rfl

/-- Events that only ask for reads. -/
def OnlyReads (es : List (Event UInt8 ManagesieveSessionOpenYield)) : Prop :=
  ∀ y ∈ yieldsOf es, y = .wantsRead

variable {interpret : ManagesieveResponseRead.Return → Except (ManagesieveSessionOpenError ε) A}
variable {injection : ManagesieveSessionOpenError ε} {cs : List Bytes}

theorem reading_onlyReads : OnlyReads (reading interpret cs).events := by
  have h := (ManagesieveResponseRead.drive_new_reads cs).only_reads
  intro y hy
  simp only [reading, yieldsOf_map, List.mem_map] at hy
  obtain ⟨y, hy, rfl⟩ := hy
  rw [h y hy]
  rfl

theorem reading_fed : fedOf (reading interpret cs).events =
    fedOf (ManagesieveResponseRead.machine.drive .new none cs).events := by
  rw [reading, fedOf_map]

theorem reading_result : (reading interpret cs).pause.result =
    (ManagesieveResponseRead.machine.drive .new none cs).pause.result.map interpret :=
  Pause.result_map _ _ _

/-- What ends well was exactly an OK response. -/
theorem reading_ok (h : Strict interpret injection) {a : A}
    (ha : (reading interpret cs).pause.result = some (.ok a)) :
    ∃ response, ManagesieveResponse.parse (fedOf (reading interpret cs).events).flatten =
        .ok (some (response, (fedOf (reading interpret cs).events).flatten.length)) ∧
      response.completion.status = .ok ∧ interpret (.ok ⟨response, []⟩) = .ok a := by
  rw [reading_result, Option.map_eq_some_iff] at ha
  obtain ⟨r, hr, ha⟩ := ha
  obtain ⟨response, rfl, hstatus⟩ := h.of_ok ha
  obtain ⟨n, hp, htrailing⟩ := ManagesieveResponseRead.parse_of_ok hr
  rw [reading_fed]
  have hle := responseParser.le_length hp
  have hge := List.drop_eq_nil_iff.1 htrailing.symm
  rw [Nat.le_antisymm hle hge] at hp
  exact ⟨response, hp, hstatus, ha⟩

/-- A read that overruns the response is refused. -/
theorem reading_overruns (h : Strict interpret injection)
    (hover : Overruns (fedOf (reading interpret cs).events)) :
    (reading interpret cs).pause.result = some (.error injection) := by
  obtain ⟨-, hout, hwaited⟩ := ManagesieveResponseRead.drive_new_reads cs
  rw [reading_fed] at hover
  rw [reading_result]
  simp only [List.nil_append] at hout hwaited
  generalize ManagesieveResponseRead.machine.drive .new none cs = t at *
  obtain ⟨cs₁, c, cs₂, hfed, -, response, n, hsome, hn⟩ := hover
  rw [hfed] at hwaited hout
  -- the reader stops with the read that completes the response
  rcases cs₂ with _ | ⟨c', cs₂⟩
  · have hflat : (cs₁ ++ [c]).flatten = cs₁.flatten ++ c := by simp
    rw [hflat, ManagesieveResponseRead.Outcome, hsome] at hout
    rw [hout]
    refine congrArg some (h.of_trailing ?_)
    rw [ne_eq, List.drop_eq_nil_iff]
    omega
  · have hk := hwaited (cs₁.length + 1) (by simp)
    have htake : ((cs₁ ++ c :: c' :: cs₂).take (cs₁.length + 1)).flatten = cs₁.flatten ++ c := by
      simp [List.take_append, List.take_of_length_le]
    rw [htake, hsome] at hk
    cases hk

/-- Only reads, of an OK response exactly when it ends well; a byte too many ends it in an
injection. -/
structure ReadsExactly (injection : ManagesieveSessionOpenError ε)
    (t : Transcript Unit UInt8 ManagesieveSessionOpenYield
      (Except (ManagesieveSessionOpenError ε) A)) :
    Prop where
  onlyReads : OnlyReads t.events
  isOk : ∀ {a}, t.pause.result = some (.ok a) → IsOk (fedOf t.events).flatten
  overruns : Overruns (fedOf t.events) → t.pause.result = some (.error injection)

theorem reading_readsExactly (h : Strict interpret injection) :
    ReadsExactly injection (reading interpret cs) where
  onlyReads := reading_onlyReads
  isOk ha := by
    obtain ⟨response, hparse, hstatus, -⟩ := reading_ok h ha
    exact ⟨response, hparse, hstatus⟩
  overruns := reading_overruns h

theorem greet_readsExactly (cs : List Bytes) :
    ReadsExactly (.greeting .injection) (greet (ε := ε) cs) := by
  rw [greet_eq]
  exact reading_readsExactly (strict_greeting.mapError ManagesieveSessionOpenError.greeting)

/-- A greeting that ends well has the capabilities of the response that was read. -/
theorem greet_ok {capabilities : ManagesieveCapabilities}
    (h : (greet (ε := ε) cs).pause.result = some (.ok capabilities)) :
    ∃ response, ManagesieveResponse.parse (fedOf (greet (ε := ε) cs).events).flatten =
        .ok (some (response, (fedOf (greet (ε := ε) cs).events).flatten.length)) ∧
      response.completion.status = .ok ∧ capabilities = .parse response.data := by
  rw [greet_eq] at h ⊢
  obtain ⟨response, hparse, hstatus, hok⟩ :=
    reading_ok (strict_greeting.mapError ManagesieveSessionOpenError.greeting) h
  refine ⟨response, hparse, hstatus, ?_⟩
  simp only [ManagesieveGreetingGet.finish, hstatus, ne_eq, not_true_eq_false, if_false,
    Except.mapError] at hok
  cases hok
  rfl

theorem startTls_readsExactly (cs : List Bytes) :
    ∃ t, startTls (ε := ε) cs =
        t.prepend [.yielded (.wantsWrite ManagesieveStartTlsCommand.toBytes)] ∧
      ReadsExactly (.startTls .injection) t := by
  rw [startTls_eq]
  exact ⟨_, rfl,
    reading_readsExactly (strict_startTls.mapError ManagesieveSessionOpenError.startTls)⟩

end SessionLeg

end ManageSieve
