import ManageSieve.Client.Opening
import ManageSieve.Client.Run
import ManageSieve.Session.Heeding

/-!
# The client when the server closes the connection

Whatever its streams do, a client returns if and only if it is not fed for ever. When a stream has
no more data, it returns with that read, an error: from every method of the command surface
(`ManagesieveClientStd.run_closed`), and from `connect` wherever the session was
(`ManagesieveClientStd.connect_closed`).
-/

namespace ManageSieve

open Coroutine

namespace ManagesieveClientStd

section Run

variable {ε ι T : Type} {S : Type*}

/-- The methods of the command surface. -/
inductive Offered : {T : Type} → Call ε ι T → Prop
  | readsOne {T : Type} {call : Call ε ι T} {command : Option Bytes} : ReadsOne call command →
      Offered call
  | authenticate (lib : Libraries) (sasl : Sasl ε) (opts : ManagesieveAuthenticateOptions) :
      Offered (.authenticate lib sasl opts)

variable {call : Call ε ι T}

theorem heeds_send {E : Type} (bytes : Bytes) {finish : ManagesieveResponseRead.Return → Except E T}
    (hfinish : ∀ err, ∃ e, finish (.error err) = .error e) :
    ∃ I, (ManagesieveCommandSend.machine.mapDone finish).Heeds I ∧
      I (ManagesieveCommandSend.new bytes) none :=
  ⟨_, ManagesieveCommandSend.heeds.mapDone hfinish,
    ManagesieveCommandSend.attends_new bytes fun h => by cases h⟩

/-- Every method heeds the end of the data. -/
theorem Offered.heeds (h : Offered call) :
    ∃ I, call.machine.Heeds I ∧ I call.coroutine none := by
  cases h with
  | authenticate lib sasl opts =>
    exact ⟨_, ManagesieveAuthenticate.heeds lib opts, .start sasl none fun h => by cases h⟩
  | readsOne h =>
    cases h with
    | greeting => exact ⟨_, ManagesieveGreetingGet.heeds, rfl⟩
    | _ => exact heeds_send _ fun err => ⟨_, rfl⟩

/-- No method unwinds. -/
theorem Offered.safe (h : Offered call) : ∃ P, call.machine.Safe P ∧ P call.coroutine := by
  cases h with
  | authenticate lib sasl opts =>
    exact ⟨_, ManagesieveAuthenticate.safe_standing lib opts, .start sasl⟩
  | readsOne h => exact ⟨_, h.oneResponse.safe, trivial⟩

/-- **A method returns if and only if it is not fed for ever**, whatever the stream does, and a
method that finds the connection closed returns an error there and then. -/
theorem run_closed (h : Offered call) (io : StreamIo S ι) (stream : S) :
    ((∃ r stream', RunsTo io call stream (.returned r, stream')) ↔
      ∃ n, ¬ call.machine.FedFor io.transport call.coroutine stream n) ∧
    ∀ es s arg stream', call.machine.Run call.coroutine es s arg → Served io stream es stream' →
      [] ∈ fedOf es →
        ∃ err, RunsTo io call stream (.returned (.error (call.into err)), stream') := by
  obtain ⟨I, hheeds, hstart⟩ := h.heeds
  obtain ⟨P, hsafe, hP⟩ := h.safe
  refine ⟨Iff.trans ⟨?_, ?_⟩ (hheeds.ends_iff_fed hstart io.transport stream), ?_⟩
  · rintro ⟨r, stream', hruns⟩
    obtain ⟨out, hends, -⟩ := runsTo_iff_pump.1 hruns
    exact ⟨_, hends⟩
  · rintro ⟨⟨r | err | msg, stream'⟩, hends⟩
    · refine ⟨r.mapError call.into, stream', runsTo_iff_pump.2 ⟨_, hends, ?_⟩⟩
      cases r <;> rfl
    · exact ⟨_, stream', runsTo_iff_pump.2 ⟨_, hends, rfl⟩⟩
    · obtain ⟨es, s, arg, st, hrun, -, hstops⟩ := Machine.ends_pump_iff.1 hends
      cases hstops with
      | panicked hr =>
        exact absurd hr (hsafe.ne_panicked (hsafe.reached hP hrun.reached) arg msg _)
  · intro es s arg stream' hrun hserved hmem
    have hserves : Serves io.transport call.machine.reads stream es stream' := by
      rwa [call.reads_eq]
    obtain ⟨err, hends⟩ := hheeds.failed hstart hrun hserves hmem
    exact ⟨err, runsTo_iff_pump.2 ⟨_, hends, rfl⟩⟩

/-- NOOP to a server that takes the command and closes the connection. -/
theorem run_closed_noop :
    let io : StreamIo Unit Unit := ⟨fun _ => (.ok ⟨[], Nat.zero_le _⟩, ()), fun _ _ => (.ok (), ())⟩
    ∃ err, RunsTo io (.noop none : Call Unit Unit _) () (.returned (.error (.noop err)), ()) := by
  have hread : ManagesieveNoop.machine.resume ⟨none, ⟨false, []⟩⟩ none =
      (.yielded .wantsRead, ⟨none, ⟨false, []⟩⟩) := by
    simp only [ManagesieveNoop.machine, Machine.mapDone, ManagesieveCommandSend.machine,
      ManagesieveCommandSend.resume, ManagesieveResponseRead.resume_none]
    rfl
  exact (run_closed (.readsOne (.noop none)) _ ()).2 _ _ _ ()
    (.read [] (.yield .start rfl rfl) hread rfl) (.write rfl rfl (.ask rfl (.fed rfl .nil)))
    (List.mem_singleton_self _)

end Run

section Connect

variable {ε S ι τ : Type*}

/-- `connect` returns if and only if the pump around its session ends. -/
theorem returns_iff_fed (lib : Libraries) (io : Io S ι τ) (transport : ManagesieveSessionTransport)
    (sasl : Option (Sasl ε)) (opts : ManagesieveSessionOpenOptions) :
    (∃ r, EndsWith lib io transport sasl opts (.returned r)) ↔
      ∃ n, ¬ (ManagesieveSessionOpen.machine lib).FedFor (io.transport (ε := ε))
        (.new transport sasl opts) none n := by
  have hheeds := ManagesieveSessionOpen.heeds (ε := ε) lib
  have hstart := ManagesieveSessionOpen.attends_new transport sasl opts
  refine Iff.trans ⟨?_, ?_⟩ (hheeds.ends_iff_fed hstart io.transport none)
  · rintro ⟨r, hends⟩
    obtain ⟨pumped, hpumped, -⟩ := endsWith_iff_pump.1 hends
    exact ⟨_, hpumped⟩
  · rintro ⟨pumped, hends⟩
    have hout := endsWith_iff_pump.2 ⟨pumped, hends, rfl⟩
    have hsound := sound_of_ends hout connected_new
    rcases hpumped : outcome pumped with r | msg
    · exact ⟨r, hpumped ▸ hout⟩
    · rw [hpumped] at hsound
      exact hsound.elim

/-- **`connect` returns if and only if it is not fed for ever**, whatever its streams and the
mechanism do, and once it finds the connection closed it returns an error there and then. -/
theorem connect_closed (lib : Libraries) (io : Io S ι τ) (transport : ManagesieveSessionTransport)
    (sasl : Option (Sasl ε)) (opts : ManagesieveSessionOpenOptions) :
    ((∃ r, EndsWith lib io transport sasl opts (.returned r)) ↔
      ∃ n, ¬ (ManagesieveSessionOpen.machine lib).FedFor (io.transport (ε := ε))
        (.new transport sasl opts) none n) ∧
    ∀ es s arg stream,
      (ManagesieveSessionOpen.machine lib).Run (.new transport sasl opts) es s arg →
      Shown (ε := ε) io none es stream → [] ∈ fedOf es →
        ∃ err, EndsWith lib io transport sasl opts (.returned (.error (.sessionOpen err))) := by
  refine ⟨returns_iff_fed lib io transport sasl opts, fun es s arg stream hrun hshown hmem => ?_⟩
  obtain ⟨err, hends⟩ := (ManagesieveSessionOpen.heeds (ε := ε) lib).failed
    (ManagesieveSessionOpen.attends_new transport sasl opts) hrun hshown hmem
  exact ⟨err, endsWith_iff_pump.2 ⟨_, hends, rfl⟩⟩

/-- A socket whose server closes the connection in place of a greeting. -/
theorem connect_closed_unix :
    let io : Io Unit Unit Unit := ⟨fun _ _ => .ok (), fun _ _ => .ok (), fun _ => .ok (),
      fun _ => .ok (), fun _ => .ok (⟨[], Nat.zero_le _⟩, ()), fun _ _ => .ok ()⟩
    ∃ err, EndsWith .standard io (.unix "/run/sieve") (none : Option (Sasl Unit)) ⟨false, false⟩
      (.returned (.error (.sessionOpen err))) := by
  intro io
  let session : ManagesieveSessionOpen Unit := .new (.unix "/run/sieve") none ⟨false, false⟩
  have hask : ManagesieveGreetingGet.machine.resume ⟨false, []⟩ none =
      (.yielded .wantsRead, ⟨false, []⟩) := by decide +kernel
  have hask := (ManagesieveSessionOpen.nests_greeting .standard session).resume_yielded trivial hask
  have hconnect := @ManagesieveSessionOpen.resume_new_connect Unit .standard (.unix "/run/sieve")
    none ⟨false, false⟩ (by decide) none
  have hserved : Shown (ε := Unit) io none [.yielded (.wantsUnixConnect "/run/sieve"),
      .yielded .wantsRead, .fed []] (some ()) := .write rfl rfl (.ask rfl (.fed rfl .nil))
  exact (connect_closed .standard io (.unix "/run/sieve") none ⟨false, false⟩).2 _ _ _ (some ())
    (.read [] (.yield .start hconnect rfl) hask rfl) hserved (List.mem_singleton_self _)

end Connect

end ManagesieveClientStd

end ManageSieve
