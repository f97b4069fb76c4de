import ManageSieve.Foundations.Pump
import ManageSieve.Rfc5804.Cancelling

/-!
# The challenges of a run

Which challenges a run meets, of the lines that the server sends (`Exchange.met`): those before the
completion, up to the one that the exchange is cancelled on. In the runs of the client nothing else
is met (`Exchange.met_of_run`) and nothing of it is missed (`Exchange.exists_meets`), wherever the
reads are cut. `ManagesieveAuthenticate.run_of_client` and `ManagesieveAuthenticate.tracks_of_run`
turn the runs of the client into those of the coroutine and back.
-/

namespace ManageSieve

open Coroutine Reactor

variable {ε : Type*}

namespace Exchange

/-- The challenges that are met among some lines: those before the completion, up to the one that
the exchange is cancelled on. -/
def met (lib : Libraries) : Phase ε → List ManagesieveLine → List ManagesieveDataLine
  | .reading m pending, .data line :: lines =>
    match decideReading lib m pending (.data line) with
    | .send _ q => line :: met lib q lines
    | _ => [line]
  | _, _ => []

variable (lib : Libraries)

theorem met_nil (q : Phase ε) : met lib q [] = [] := by
  cases q <;> rfl

theorem met_aborting (m : Mechanism ε) (error : ManagesieveAuthenticateError ε)
    (lines : List ManagesieveLine) : met lib (.aborting m error) lines = [] := by
  cases lines <;> rfl

theorem linesOf_none {b : Bytes} (h : ManagesieveLine.parse b = .ok none) : linesOf b = [] := by
  rw [linesOf, Incremental.Parser.items_none (p := lineParser) h]
  rfl

theorem linesOf_error {b : Bytes} {err : ManagesieveResponseParseError}
    (h : ManagesieveLine.parse b = .error err) : linesOf b = [] := by
  rw [linesOf, Incremental.Parser.items_error (p := lineParser) h]
  rfl

theorem linesOf_some {b : Bytes} {line : ManagesieveLine} {n : ℕ}
    (h : ManagesieveLine.parse b = .ok (some (line, n))) :
    linesOf b = line :: linesOf (b.drop n) := by
  rw [linesOf, Incremental.Parser.items_some (p := lineParser) h]
  rfl

/-- The client, about to be resumed with `arg`, meets the challenge `line`. -/
def Meets (s : Phase ε × Bytes) (arg : Option Bytes) (line : ManagesieveDataLine) : Prop :=
  (∃ m pending, s.1 = .reading m pending) ∧ arg ≠ some [] ∧
    ∃ n, ManagesieveLine.parse (s.2 ++ arg.getD []) = .ok (some (.data line, n))

/-- A challenge is answered, with a response or with the cancellation. -/
theorem decideReading_data (m : Mechanism ε) (pending : Option Bytes) {line : ManagesieveDataLine}
    (hline : ∃ string, line.string 0 = some string) :
    ∃ bytes q, decideReading lib m pending (.data line) = .send bytes q := by
  obtain ⟨string, hstring⟩ := hline
  rw [decideReading, hstring]
  dsimp only
  rcases m.answerChallenge lib pending string with ⟨err | payload, m'⟩ <;> exact ⟨_, _, rfl⟩

theorem met_data {m : Mechanism ε} {pending : Option Bytes} {line : ManagesieveDataLine}
    {bytes : Bytes} {q : Phase ε} (hd : decideReading lib m pending (.data line) = .send bytes q)
    (lines : List ManagesieveLine) :
    met lib (.reading m pending) (.data line :: lines) = line :: met lib q lines := by
  rw [met, hd]

/-- What a resume of the client makes of what there is to meet: it asks for more when there is
nothing, and answers the first otherwise. -/
theorem met_resume {s s' : Phase ε × Bytes} {arg : Option Bytes} {y : Request Bytes}
    (h : (client lib).machine.resume s arg = (.yielded y, s')) :
    (y = .read ∧
        ∀ t, met lib s.1 (linesOf (s.2 ++ (arg.getD [] ++ t))) =
          met lib s'.1 (linesOf (s'.2 ++ t))) ∨
      ∃ bytes line, y = .write bytes ∧ Meets s arg line ∧
        ∀ t, met lib s.1 (linesOf (s.2 ++ (arg.getD [] ++ t))) =
          line :: met lib s'.1 (linesOf (s'.2 ++ t)) := by
  have heof : arg ≠ some [] := by
    rintro rfl
    cases h
  rcases s with ⟨⟨m, pending⟩ | ⟨m, error⟩, buf⟩
  swap
  · rcases resume_client_aborting lib m error buf arg with ⟨rest, hr⟩ | ⟨rest, hr, -⟩ <;>
      rw [hr] at h <;> cases h
    exact Or.inl ⟨rfl, fun t => by rw [met_aborting, met_aborting]⟩
  rw [Client.machine_resume_of_ne heof] at h
  dsimp only at h ⊢
  rcases hp : ManagesieveLine.parse (buf ++ arg.getD []) with err | _ | ⟨line | completion, n⟩
  · rw [Client.look_error (c := client lib) hp] at h
    cases h
  · rw [Client.look_none (c := client lib) hp] at h
    split_ifs at h
    · cases h
    · cases h
      exact Or.inl ⟨rfl, fun t => by rw [List.append_assoc]⟩
  · rw [Client.look_some (c := client lib) hp] at h
    obtain ⟨bytes, q, hd⟩ :=
      decideReading_data lib m pending (ManagesieveLine.string_zero_of_parse hp)
    have hact : (client lib).act ((buf ++ arg.getD []).drop n)
        ((client lib).decide (.reading m pending) (.data line)) =
          (.yielded (.write bytes), (q, (buf ++ arg.getD []).drop n)) := by
      change (client lib).act _ (decideReading lib m pending (.data line)) = _
      rw [hd]
      rfl
    rw [hact] at h
    cases h
    refine Or.inr ⟨bytes, line, rfl, ⟨⟨m, pending, rfl⟩, heof, n, hp⟩, fun t => ?_⟩
    have hle : n ≤ (buf ++ arg.getD []).length := lineParser.le_length hp
    rw [← List.append_assoc, linesOf_some (lineParser.some_append hp t), met_data lib hd,
      List.drop_append_of_le_length hle]
  · rw [Client.look_some (c := client lib) hp] at h
    cases h

/-- A client that ends met nothing more, whatever else is sent if it ended well. -/
theorem met_resume_complete {s s' : Phase ε × Bytes} {arg : Option Bytes} {r : Result ε}
    (heof : arg = some [] → ManagesieveLine.parse s.2 = .ok none)
    (h : (client lib).machine.resume s arg = (.complete r, s')) {t : Bytes}
    (ht : r = .ok () ∨ t = []) : met lib s.1 (linesOf (s.2 ++ (arg.getD [] ++ t))) = [] := by
  rcases s with ⟨⟨m, pending⟩ | ⟨m, error⟩, buf⟩
  swap
  · exact met_aborting lib _ _ _
  by_cases harg : arg = some []
  · subst harg
    cases h
    obtain rfl : t = [] := ht.resolve_left (by simp [client])
    simp only [Option.getD_some, List.append_nil, linesOf_none (heof rfl), met_nil]
  rw [Client.machine_resume_of_ne harg] at h
  dsimp only at h ⊢
  rw [← List.append_assoc]
  rcases hp : ManagesieveLine.parse (buf ++ arg.getD []) with err | _ | ⟨line | completion, n⟩
  · rw [linesOf_error (lineParser.error_append hp t), met_nil]
  · rw [Client.look_none (c := client lib) hp] at h
    split_ifs at h <;> cases h
    obtain rfl : t = [] := ht.resolve_left (by simp [client])
    rw [List.append_nil, linesOf_none hp, met_nil]
  · rw [Client.look_some (c := client lib) hp] at h
    obtain ⟨bytes, q, hd⟩ :=
      decideReading_data lib m pending (ManagesieveLine.string_zero_of_parse hp)
    change (client lib).act _ (decideReading lib m pending (.data line)) = _ at h
    rw [hd] at h
    cases h
  · rw [linesOf_some (lineParser.some_append hp t)]
    rfl

/-- What is met in a run of the client stands at the front of what there is to meet. -/
theorem met_of_run {q : Phase ε} {es : List (Event UInt8 (Request Bytes))} {s : Phase ε × Bytes}
    {arg : Option Bytes} (h : (client lib).machine.Run (q, []) es s arg) :
    (arg = some [] → ManagesieveLine.parse s.2 = .ok none) ∧
      ∃ done, ∀ t, met lib q (linesOf ((fedOf es).flatten ++ t)) =
        done ++ met lib s.1 (linesOf (s.2 ++ (arg.getD [] ++ t))) := by
  induction h with
  | start => exact ⟨by simp, [], fun t => by simp⟩
  | @yield es s arg y s' _ hr hy ih =>
    obtain ⟨-, done, hdone⟩ := ih
    refine ⟨by simp, ?_⟩
    rcases met_resume lib hr with ⟨rfl, -⟩ | ⟨bytes, line, rfl, -, hmet⟩
    · cases hy
    · exact ⟨done ++ [line], fun t => by simp [hdone, hmet]⟩
  | @read es s arg y s' c _ hr hy ih =>
    obtain ⟨-, done, hdone⟩ := ih
    rcases met_resume lib hr with ⟨rfl, hmet⟩ | ⟨bytes, line, rfl, -, -⟩
    · refine ⟨fun _ => (Client.resume_read hr).1, done, fun t => ?_⟩
      simpa [hmet] using hdone (c ++ t)
    · cases hy

/-- What a client meets is the first that there is to meet. -/
theorem met_of_meets {s : Phase ε × Bytes} {arg : Option Bytes} {line : ManagesieveDataLine}
    (h : Meets s arg line) (t : Bytes) :
    line ∈ met lib s.1 (linesOf (s.2 ++ (arg.getD [] ++ t))) := by
  obtain ⟨⟨m, pending, hq⟩, -, n, hline⟩ := h
  obtain ⟨bytes, q, hd⟩ := decideReading_data lib m pending
    (ManagesieveLine.string_zero_of_parse hline)
  rw [hq, ← List.append_assoc, linesOf_some (lineParser.some_append hline t), met_data lib hd]
  exact List.mem_cons_self

/-- **Everything that there is to meet is met**, in a run that goes on from `s`. -/
theorem exists_meets {q : Phase ε} (s : Phase ε × Bytes) (arg : Option Bytes) (cs : List Bytes)
    {es : List (Event UInt8 (Request Bytes))} (h : (client lib).machine.Run (q, []) es s arg)
    {t : Bytes} (ht : (∃ s', ((client lib).machine.drive s arg cs).pause = .finished (.ok ()) s') ∨
      t = []) {line : ManagesieveDataLine}
    (hline : line ∈ met lib s.1 (linesOf (s.2 ++ (arg.getD [] ++
      ((fedOf ((client lib).machine.drive s arg cs).events).flatten ++ t))))) :
    ∃ es' s' arg', (client lib).machine.Run (q, []) es' s' arg' ∧ fedOf es' <+: fedOf es ++ cs ∧
      Meets s' arg' line := by
  induction s, arg, cs using Machine.drive_induction (m := (client lib).machine)
    generalizing es with
  | complete s arg cs r s' hr =>
    rw [Machine.drive_complete hr] at hline ht
    have hnone := met_resume_complete lib (met_of_run lib h).1 hr (t := t) <| ht.imp (fun hfin => by
      obtain ⟨s'', hs⟩ := hfin
      cases hs
      rfl) id
    simp only [fedOf_nil, List.flatten_nil, List.nil_append, hnone] at hline
    cases hline
  | panicked s arg cs msg s' hr => exact absurd hr (Client.resume_ne_panicked s s' arg msg)
  | read_nil s arg y s' hr hy =>
    rcases met_resume lib hr with ⟨rfl, hmet⟩ | ⟨bytes, line, rfl, -, -⟩
    · rw [Machine.drive_read_nil hr hy] at hline ht
      obtain rfl : t = [] := ht.resolve_left (by simp)
      have hrest : ManagesieveLine.parse s'.2 = .ok none := (Client.resume_read hr).1
      rw [hmet] at hline
      simp [linesOf_none hrest, met_nil] at hline
    · cases hy
  | read_cons s arg y s' c cs hr hy ih =>
    rcases met_resume lib hr with ⟨rfl, hmet⟩ | ⟨bytes, line, rfl, -, -⟩
    · rw [Machine.drive_read_cons hr hy] at hline ht
      obtain ⟨es', s'', arg', hrun, hfed, hmeets⟩ := ih (h.read c hr hy) ht (by
        simpa [hmet] using hline)
      exact ⟨es', s'', arg', hrun, by simpa using hfed, hmeets⟩
    · cases hy
  | yield s arg cs y s' hr hy ih =>
    rcases met_resume lib hr with ⟨rfl, -⟩ | ⟨bytes, first, rfl, hfirst, hmet⟩
    · cases hy
    · rw [Machine.drive_yield hr hy] at hline ht
      simp only [Transcript.prepend_events, List.singleton_append, fedOf_yielded, hmet,
        List.mem_cons] at hline
      rcases hline with rfl | hline
      · exact ⟨es, s, arg, h, List.prefix_append _ _, hfirst⟩
      · obtain ⟨es', s'', arg', hrun, hfed, hmeets⟩ := ih (h.yield hr hy) ht (by
          simpa using hline)
        exact ⟨es', s'', arg', hrun, by simpa using hfed, hmeets⟩

end Exchange

namespace ManagesieveAuthenticate

open Exchange

variable {lib : Libraries} {sasl : Sasl ε} {opts : ManagesieveAuthenticateOptions}

/-- A run of the client is one of the coroutine. -/
theorem run_of_client {payload : Option Bytes} (hopen : opening sasl = .ok payload)
    {es : List (Event UInt8 (Request Bytes))} {s : Phase ε × Bytes}
    {arg : Option Bytes}
    (h : (client lib).machine.Run (firstPhase sasl opts payload, []) es s arg) :
    (machine lib).Run (new sasl opts)
      (.yielded (.wantsWrite (command lib sasl opts payload)) :: es.map (.map ofRequest))
      (embed opts s) arg := by
  induction h with
  | start => exact .yield .start (resume_new hopen none) rfl
  | yield _ hr hy ih =>
    have hr' := (nests_client lib opts).resume_yielded trivial hr
    simpa [Event.map] using ih.yield hr' (((nests_client lib opts).reads_into _).trans hy)
  | read c _ hr hy ih =>
    have hr' := (nests_client lib opts).resume_yielded trivial hr
    simpa [Event.map] using ih.read c hr' (((nests_client lib opts).reads_into _).trans hy)

/-- Where a run of the coroutine stands: it did not start, it is a run of the client, or it reads
the capabilities. -/
inductive Tracks (lib : Libraries) (sasl : Sasl ε) (opts : ManagesieveAuthenticateOptions)
    (payload : Option Bytes) :
    List (Event UInt8 ManagesieveYield) → ManagesieveAuthenticate ε → Option Bytes → Prop
  | start : Tracks lib sasl opts payload [] (new sasl opts) none
  | exchanging {es es' s arg} :
      (client lib).machine.Run (firstPhase sasl opts payload, []) es' s arg →
      fedOf es = fedOf es' → Tracks lib sasl opts payload es (embed opts s) arg
  | refreshing (es s capability arg) :
      Tracks lib sasl opts payload es { ended opts s with state := .capability capability } arg

/-- **What a resume keeps.** -/
theorem Tracks.step {payload : Option Bytes} (hopen : opening sasl = .ok payload)
    {es : List (Event UInt8 ManagesieveYield)} {self self' : ManagesieveAuthenticate ε}
    {arg : Option Bytes} {y : ManagesieveYield} (h : Tracks lib sasl opts payload es self arg)
    (hr : (machine lib).resume self arg = (.yielded y, self')) :
    ((machine (ε := ε) lib).reads y = false →
        Tracks lib sasl opts payload (es ++ [.yielded y]) self' none) ∧
      ((machine (ε := ε) lib).reads y = true →
        ∀ c, Tracks lib sasl opts payload (es ++ [.yielded y, .fed c]) self' (some c)) := by
  cases h with
  | start =>
    rw [resume_new hopen] at hr
    cases hr
    exact ⟨fun _ => .exchanging .start rfl, fun h => by cases h⟩
  | @exchanging _ es' s _ hrun hfed =>
    rw [resume_embed] at hr
    rcases hc : (client lib).machine.resume s arg with ⟨r | (err | _) | msg, s'⟩ <;> rw [hc] at hr
    · cases hr
      have hreads := (nests_client (ε := ε) lib opts).reads_into r
      exact ⟨fun hy => .exchanging (hrun.yield hc (hreads.symm.trans hy)) (by simp [hfed]),
        fun hy c => .exchanging (hrun.read c hc (hreads.symm.trans hy)) (by simp [hfed])⟩
    · cases hr
    · simp only [wrap, finish] at hr
      split_ifs at hr
      · cases hr
        exact ⟨fun _ => .refreshing _ s' _ _, fun h => by cases h⟩
      · cases hr
    · cases hr
  | refreshing _ s capability _ =>
    have hnests := nests_capability lib (ended_wantsRead opts s)
    rcases hc : ManagesieveCapabilityGet.machine.resume capability arg with ⟨r | r | msg, next⟩
    · rw [hnests.resume_yielded trivial hc] at hr
      cases hr
      exact ⟨fun _ => .refreshing _ s next _, fun _ c => .refreshing _ s next _⟩
    · rw [hnests.resume_complete trivial hc] at hr
      cases hr
    · rw [hnests.resume_panicked trivial hc] at hr
      cases hr

theorem tracks_of_run {payload : Option Bytes} (hopen : opening sasl = .ok payload)
    {es : List (Event UInt8 ManagesieveYield)} {self : ManagesieveAuthenticate ε}
    {arg : Option Bytes} (h : (machine lib).Run (new sasl opts) es self arg) :
    Tracks lib sasl opts payload es self arg := by
  induction h with
  | start => exact .start
  | yield _ hr hy ih => exact (ih.step hopen hr).1 hy
  | read c _ hr hy ih => exact (ih.step hopen hr).2 hy c

/-- A run that was not opened stands where it started. -/
theorem eq_new_of_run {err : ManagesieveAuthenticateError ε} (hopen : opening sasl = .error err)
    {es : List (Event UInt8 ManagesieveYield)} {self : ManagesieveAuthenticate ε}
    {arg : Option Bytes} (h : (machine lib).Run (new sasl opts) es self arg) :
    self = new sasl opts := by
  induction h with
  | start => rfl
  | yield _ hr _ ih =>
    rw [ih, resume_new_error hopen] at hr
    cases hr
  | read c _ hr _ ih =>
    rw [ih, resume_new_error hopen] at hr
    cases hr

/-- What a run is fed is what its client is fed, and what comes after an accepted exchange. -/
theorem fedOf_drive (lib : Libraries) (opts : ManagesieveAuthenticateOptions)
    {payload : Option Bytes} (hopen : opening sasl = .ok payload) (cs : List Bytes) :
    ∃ t, (fedOf ((machine lib).drive (new sasl opts) none cs).events).flatten =
        (fedOf ((client lib).machine.drive (firstPhase sasl opts payload, [])
          none cs).events).flatten ++ t ∧
      ((∃ s, ((client lib).machine.drive (firstPhase sasl opts payload, []) none cs).pause =
        .finished (.ok ()) s) ∨ t = []) := by
  rw [drive_new hopen]
  rcases (client lib).machine.drive (firstPhase sasl opts payload, []) none cs with
    ⟨es, s | ⟨err | _, s⟩ | ⟨msg, s⟩, unfed⟩
  · exact ⟨[], by simp [Transcript.within, Transcript.prepend, fedOf_map], Or.inr rfl⟩
  · exact ⟨[], by simp [Transcript.within, Transcript.prepend, fedOf_map, finish, Machine.after],
      Or.inr rfl⟩
  · exact ⟨(fedOf ((machine lib).after (finish opts (.ok ()) s) unfed).events).flatten,
      by simp [Transcript.within, Transcript.prepend, fedOf_map], Or.inl ⟨s, rfl⟩⟩
  · exact ⟨[], by simp [Transcript.within, Transcript.prepend, fedOf_map], Or.inr rfl⟩

end ManagesieveAuthenticate

end ManageSieve
