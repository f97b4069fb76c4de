import ManageSieve.Client.Connect
import ManageSieve.Foundations.Pump
import ManageSieve.Session.Memory

/-!
# What the streams of a client see while it connects

The loop of `connect` is a pump around the session-opening coroutine: its transport is the stream it
holds, if it holds one already. So what is proved of the runs of a session holds of what the client
does to its streams, also when one of them fails half way (`ManagesieveClientStd.endsWith_iff`).

`ManagesieveClientStd.connect_cleartext` says what the streams see before they are encrypted, and
`ManagesieveClientStd.connect_returns` that a client without credentials returns, whatever they do.
-/

namespace ManageSieve

open Coroutine

variable {ε S ι τ : Type*}

deriving instance DecidableEq for ManagesieveClientError
deriving instance DecidableEq for ManagesieveClientStd.Outcome

namespace Io

/-- The stream that was opened or upgraded, in place of the one before it. -/
def opening (stream : Option S) :
    Except τ S → Except (ManagesieveClientError ε ι τ) Unit × Option S
  | .error err => (.error (.tls err), stream)
  | .ok stream => (.ok (), some stream)

/-- The streams as a transport: none until the first one is open. -/
def transport (io : Io S ι τ) : Transport (Option S) UInt8 ManagesieveSessionOpenYield
    (ManagesieveClientError ε ι τ) where
  read
    | none => (.error .missing, none)
    | some stream =>
      match io.read stream with
      | .error err => (.error (.io err), some stream)
      | .ok (buf, stream) => (.ok buf.1, some stream)
  write stream
    | .wantsTcpConnect host port => opening stream (io.connectTcp host port)
    | .wantsTlsConnect host port => opening stream (io.connectTls host port)
    | .wantsUnixConnect path => opening stream (io.connectUnix path)
    | .wantsTlsUpgrade =>
      match stream with
      | none => (.error .missing, none)
      | some plain => opening (some plain) (io.upgradeTls plain)
    | .wantsRead => (.ok (), stream)
    | .wantsWrite bytes =>
      match stream with
      | none => (.error .missing, none)
      | some stream =>
        match io.writeAll stream bytes with
        | .error err => (.error (.io err), some stream)
        | .ok stream => (.ok (), some stream)

end Io

namespace ManagesieveClientStd

variable {lib : Libraries} {io : Io S ι τ} {transport : ManagesieveSessionTransport}
variable {sasl : Option (Sasl ε)} {opts : ManagesieveSessionOpenOptions}

/-- `connect` over these streams ends on `out`. -/
def EndsWith (lib : Libraries) (io : Io S ι τ) (transport : ManagesieveSessionTransport)
    (sasl : Option (Sasl ε)) (opts : ManagesieveSessionOpenOptions) (out : Outcome ε S ι τ) :
    Prop :=
  Ends (Connecting.turn lib io) (.new transport sasl opts) out

/-- What a pump comes to, as `connect` returns it. -/
def outcome : Pumped (ManagesieveSessionOpen.Return ε) (ManagesieveClientError ε ι τ) × Option S →
    Outcome ε S ι τ
  | (.returned (.error err), _) => .returned (.error (.sessionOpen err))
  | (.returned (.ok data), some stream) => .returned (.ok (stream, data.capabilities))
  | (.returned (.ok _), none) => .returned (.error .missing)
  | (.failed err, _) => .returned (.error err)
  | (.panicked msg, _) => .panicked msg

/-- A turn of the loop is a turn of a pump. -/
theorem turn_eq_pumpTurn (lib : Libraries) (io : Io S ι τ)
    (s : ManagesieveSessionOpen ε × Option Bytes × Option S) :
    Connecting.turn lib io ⟨s.1, s.2.2, s.2.1⟩ =
      ((ManagesieveSessionOpen.machine lib).pumpTurn io.transport s).map
        (fun s => ⟨s.1, s.2.2, s.2.1⟩) outcome := by
  obtain ⟨session, arg, stream⟩ := s
  unfold Connecting.turn Machine.pumpTurn
  rcases (ManagesieveSessionOpen.machine lib).resume session arg with
    ⟨y | (err | data) | msg, session'⟩ <;> simp only
  · have hreads : (ManagesieveSessionOpen.machine (ε := ε) lib).reads = (·.isRead) := rfl
    rw [hreads]
    cases y with
    | wantsTcpConnect host port =>
      simp only [ManagesieveSessionOpenYield.isRead, Io.transport, Connecting.answer]
      rcases io.connectTcp host port with err | stream' <;> rfl
    | wantsTlsConnect host port =>
      simp only [ManagesieveSessionOpenYield.isRead, Io.transport, Connecting.answer]
      rcases io.connectTls host port with err | stream' <;> rfl
    | wantsUnixConnect path =>
      simp only [ManagesieveSessionOpenYield.isRead, Io.transport, Connecting.answer]
      rcases io.connectUnix path with err | stream' <;> rfl
    | wantsTlsUpgrade =>
      simp only [ManagesieveSessionOpenYield.isRead, Io.transport, Connecting.answer]
      rcases stream with _ | plain
      · rfl
      · simp only [Connecting.withStream]
        rcases io.upgradeTls plain with err | stream' <;> rfl
    | wantsRead =>
      simp only [ManagesieveSessionOpenYield.isRead, Io.transport, Connecting.answer]
      rcases stream with _ | stream
      · rfl
      · simp only [Connecting.withStream]
        rcases io.read stream with err | ⟨buf, stream'⟩ <;> rfl
    | wantsWrite bytes =>
      simp only [ManagesieveSessionOpenYield.isRead, Io.transport, Connecting.answer]
      rcases stream with _ | stream
      · rfl
      · simp only [Connecting.withStream]
        rcases io.writeAll stream bytes with err | stream' <;> rfl
  · rfl
  · rcases stream with _ | stream <;> rfl
  · rfl

/-- The streams gave the reads among some events, took the writes, and were opened and upgraded. -/
abbrev Shown (io : Io S ι τ) : Option S → List SessionEvent → Option S → Prop :=
  Serves (io.transport (ε := ε)) ManagesieveSessionOpenYield.isRead

/-- The loop is a pump around the session. -/
theorem endsWith_iff_pump {out : Outcome ε S ι τ} : EndsWith lib io transport sasl opts out ↔
    ∃ pumped, Ends ((ManagesieveSessionOpen.machine lib).pumpTurn io.transport)
      (.new transport sasl opts, none, none) pumped ∧ outcome pumped = out :=
  ends_map_iff (s := (.new transport sasl opts, none, none)) (turn_eq_pumpTurn lib io)

theorem EndsWith.exists_run {out : Outcome ε S ι τ}
    (h : EndsWith lib io transport sasl opts out) :
    ∃ es s arg stream,
      (ManagesieveSessionOpen.machine lib).Run (.new transport sasl opts) es s arg ∧
      Shown (ε := ε) io none es stream ∧
      ∃ pumped, (ManagesieveSessionOpen.machine lib).Stops io.transport s arg stream pumped ∧
        outcome pumped = out := by
  obtain ⟨pumped, hends, hout⟩ := endsWith_iff_pump.1 h
  obtain ⟨es, s, arg, stream, hrun, hshown, hstops⟩ := Machine.ends_pump_iff.1 hends
  exact ⟨es, s, arg, stream, hrun, hshown, pumped, hstops, hout⟩

/-- **What `connect` ends on** is a run of the session on what the streams gave, then the end of the
session, or the first failure of a stream. -/
theorem endsWith_iff {out : Outcome ε S ι τ} : EndsWith lib io transport sasl opts out ↔
    ∃ es s arg stream,
      (ManagesieveSessionOpen.machine lib).Run (.new transport sasl opts) es s arg ∧
      Shown (ε := ε) io none es stream ∧
      ∃ pumped, (ManagesieveSessionOpen.machine lib).Stops io.transport s arg stream pumped ∧
        outcome pumped = out := by
  refine ⟨EndsWith.exists_run, ?_⟩
  rintro ⟨es, s, arg, stream, hrun, hshown, pumped, hstops, hout⟩
  exact endsWith_iff_pump.2
    ⟨pumped, Machine.ends_pump_iff.2 ⟨es, s, arg, stream, hrun, hshown, hstops⟩, hout⟩

/-- `connect` returns a connection when its session ends on one. -/
theorem endsWith_ok_iff {stream : S} {capabilities : ManagesieveCapabilities} :
    EndsWith lib io transport sasl opts (.returned (.ok (stream, capabilities))) ↔
      ∃ es s arg s', (ManagesieveSessionOpen.machine lib).Run (.new transport sasl opts) es s arg ∧
        Shown (ε := ε) io none es (some stream) ∧
        (ManagesieveSessionOpen.machine lib).resume s arg =
          (.complete (.ok ⟨capabilities⟩), s') := by
  constructor
  · intro h
    obtain ⟨es, s, arg, stream', hrun, hshown, pumped, hstops, hout⟩ := h.exists_run
    cases hstops with
    | @returned result s' hr =>
      rcases result with err | data
      · cases hout
      · rcases stream' with _ | stream' <;> cases hout
        exact ⟨es, s, arg, s', hrun, hshown, hr⟩
    | panicked hr => cases hout
    | read hr hy h => cases hout
    | write hr hy h => cases hout
  · rintro ⟨es, s, arg, s', hrun, hshown, hr⟩
    exact endsWith_iff_pump.2
      ⟨_, Machine.ends_pump_iff.2 ⟨es, s, arg, some stream, hrun, hshown, .returned hr⟩, rfl⟩

/-- What the loop ends on is neither a panic nor the error of a request before the connection. -/
theorem sound_of_ends {s : Connecting ε S} {out : Outcome ε S ι τ}
    (h : Ends (Connecting.turn lib io) s out) (hs : Connected transport sasl opts s) :
    Sound transport sasl opts (.done out : Step ε S ι τ) := by
  induction h with
  | done ht =>
    have hsound := sound_turn lib io hs
    rwa [ht] at hsound
  | again ht _ ih =>
    have hsound := sound_turn lib io hs
    rw [ht] at hsound
    exact ih hsound

/-! ## Before the streams are encrypted -/

/-- What precedes the upgrade in the first events of a run precedes it in the run. -/
theorem upToUpgrade_isPrefix {es es' : List SessionEvent} (h : es <+: es') :
    upToUpgrade es <+: upToUpgrade es' := by
  obtain ⟨rest, rfl⟩ := h
  induction es with
  | nil => exact List.nil_prefix
  | cons e es ih =>
    rw [List.cons_append, upToUpgrade, upToUpgrade]
    split_ifs
    · exact List.prefix_refl _
    · exact (List.prefix_cons_inj e).2 ih

/-- A client that was given a connection ran a session to its end. -/
theorem result_of_stops {s : ManagesieveSessionOpen ε} {arg : Option Bytes} {stream : Option S}
    {es : List SessionEvent} {r : S × ManagesieveCapabilities}
    {pumped : Pumped (ManagesieveSessionOpen.Return ε) (ManagesieveClientError ε ι τ) × Option S}
    (hrun : (ManagesieveSessionOpen.machine lib).Run (.new transport sasl opts) es s arg)
    (hstops : (ManagesieveSessionOpen.machine lib).Stops io.transport s arg stream pumped)
    (hout : outcome pumped = .returned (.ok r)) :
    (ManagesieveSessionOpen.run lib transport sasl opts (fedOf es)).events = es ∧
      (ManagesieveSessionOpen.run lib transport sasl opts (fedOf es)).pause.result =
        some (.ok ⟨r.2⟩) := by
  cases hstops with
  | @returned result s' hr =>
    have hdrive := hrun.drive []
    rw [List.append_nil, Machine.drive_complete hr] at hdrive
    unfold ManagesieveSessionOpen.run
    rw [hdrive]
    rcases result with err | data
    · cases hout
    · rcases stream with _ | stream <;> cases hout
      exact ⟨by simp [Transcript.prepend], rfl⟩
  | panicked hr => cases hout
  | read hr hy h => cases hout
  | write hr hy h => cases hout

/-- **No stream sees a credential in the clear.** Over TCP, a client that is to encrypt its
connection wrote nothing but STARTTLS by the time it asks for the upgrade, and returns no connection
that was not upgraded; one that is not to encrypt it writes nothing at all for a mechanism that
discloses its credentials, unless that is allowed. This holds of the run that the session made,
whatever the streams gave, and also when one of them failed. -/
theorem connect_cleartext {host : String} {port : UInt16} {out : Outcome ε S ι τ}
    (h : EndsWith lib io (.tcp host port) sasl opts out) :
    ∃ es s arg stream,
      (ManagesieveSessionOpen.machine lib).Run (.new (.tcp host port) sasl opts) es s arg ∧
      Shown (ε := ε) io none es stream ∧
      (∃ pumped, (ManagesieveSessionOpen.machine lib).Stops io.transport s arg stream pumped ∧
        outcome pumped = out) ∧
      (opts.starttls = true →
        (∀ bytes, .yielded (.wantsWrite bytes) ∈ upToUpgrade es →
          bytes = ManagesieveStartTlsCommand.toBytes) ∧
        ∀ r, out = .returned (.ok r) → upgrade ∈ es) ∧
      (opts.starttls = false → opts.allowCleartextAuth = false → ∀ creds, sasl = some creds →
        disclosesCredential creds.mechanism = true →
          WritesNothing es ∧ ∀ r, out ≠ .returned (.ok r)) := by
  obtain ⟨es, s, arg, stream, hrun, hshown, pumped, hstops, hout⟩ := h.exists_run
  have hfirst : es <+:
      (SessionLeg.openSession lib (.tcp host port) sasl opts (fedOf es)).events := by
    rw [← ManagesieveSessionOpen.run_events]
    exact hrun.isPrefix
  refine ⟨es, s, arg, stream, hrun, hshown, ⟨pumped, hstops, hout⟩,
    fun hs => ⟨fun bytes hb => ?_, fun r hr => ?_⟩, fun hs ha creds hcreds hd => ?_⟩
  · have hmem := (upToUpgrade_isPrefix hfirst).subset hb
    rw [SessionLeg.openSession_upToUpgrade hs rfl] at hmem
    exact (SessionLeg.reachUpgrade_climb (.tcp host port) (fedOf es)).writes hmem
  · obtain ⟨hes, hresult⟩ := result_of_stops hrun hstops (hout.trans hr)
    rw [ManagesieveSessionOpen.run_events] at hes
    rw [ManagesieveSessionOpen.run_result] at hresult
    rw [← hes]
    exact SessionLeg.upgrade_mem_of_ok hs rfl hresult
  · subst hcreds
    have hrefuses : SessionLeg.refuses opts false creds = true := by
      simp [SessionLeg.refuses, ha, hd]
    obtain ⟨hwrites, hfails⟩ := @SessionLeg.openSession_refused _ lib (.tcp host port) opts
      (fedOf es) hs creds hrefuses
    refine ⟨fun bytes hb => hwrites bytes (hfirst.subset hb), fun r hr => ?_⟩
    obtain ⟨-, hresult⟩ := result_of_stops hrun hstops (hout.trans hr)
    rw [ManagesieveSessionOpen.run_result] at hresult
    exact hfails _ hresult

/-- PLAIN over a stream that offers no STARTTLS, and then fails. -/
theorem connect_cleartext_plain :
    let io : Io ℕ Unit Unit := ⟨fun _ _ => .ok 0, fun _ _ => .error (), fun _ => .error (),
      fun _ => .error (),
      fun n => if n = 0 then .ok (⟨asBytes "\"SASL\"\r\n", by decide +kernel⟩, 1) else .error (),
      fun n _ => .ok n⟩
    let creds : Sasl Unit := ⟨.plain, fun _ => .yielded (.wantsWrite [0x78])⟩
    let out : Outcome Unit ℕ Unit Unit := .returned (.error (.io ()))
    EndsWith .standard io (.tcp "localhost" 4190) (some creds) ⟨false, false⟩ out ∧
      ∃ es s arg stream,
        (ManagesieveSessionOpen.machine .standard).Run
          (.new (.tcp "localhost" 4190) (some creds) ⟨false, false⟩) es s arg ∧
        Shown (ε := Unit) io none es stream ∧ WritesNothing es := by
  intro io creds out
  have hends : EndsWith .standard io (.tcp "localhost" 4190) (some creds) ⟨false, false⟩ out :=
    ends_iff_runFor.2 ⟨3, by decide +kernel⟩
  obtain ⟨es, s, arg, stream, hrun, hshown, -, -, hclear⟩ := connect_cleartext hends
  exact ⟨hends, es, s, arg, stream, hrun, hshown, (hclear rfl rfl creds rfl rfl).1⟩

/-! ## Without credentials -/

/-- **A client without credentials returns**, whatever its streams do: it opens the connection or
reports an error, after a bounded number of reads. -/
theorem connect_returns (lib : Libraries) (io : Io S ι τ) (transport : ManagesieveSessionTransport)
    (opts : ManagesieveSessionOpenOptions) :
    (∃ out, EndsWith (ε := ε) lib io transport none opts out) ∧
      ∀ out, EndsWith (ε := ε) lib io transport none opts out →
        (∃ r, out = .returned r) ∧ ∃ es s arg stream,
          (ManagesieveSessionOpen.machine lib).Run (.new transport none opts) es s arg ∧
          Shown (ε := ε) io none es stream ∧
          (∃ pumped, (ManagesieveSessionOpen.machine lib).Stops io.transport s arg stream pumped ∧
            outcome pumped = out) ∧
          (fedOf es).length ≤ 3 * maxResponse + 6 := by
  have hpatient := ManagesieveSessionOpen.patient (ε := ε) lib
  have hstart := ManagesieveSessionOpen.unsigned_new (ε := ε) transport opts
  refine ⟨?_, fun out hout => ?_⟩
  · obtain ⟨pumped, hpumped⟩ := hpatient.ends_pump (io.transport (ε := ε)) hstart none none
    exact ⟨_, endsWith_iff_pump.2 ⟨pumped, hpumped, rfl⟩⟩
  · obtain ⟨es, s, arg, stream, hrun, hshown, pumped, hstops, rfl⟩ := hout.exists_run
    refine ⟨?_, es, s, arg, stream, hrun, hshown, ⟨pumped, hstops, rfl⟩, ?_⟩
    · rcases hstops with hr | @⟨msg, s', hr⟩ | ⟨hr, hy, h⟩ | ⟨hr, hy, h⟩
      · rename_i r _
        rcases r with err | data
        · exact ⟨_, rfl⟩
        · rcases stream with _ | stream <;> exact ⟨_, rfl⟩
      · have hsafe := ManagesieveSessionOpen.safe_standing (ε := ε) lib
        have hstanding := hsafe.reached (by rintro _ ⟨⟩) hrun.reached
        exact absurd hr (hsafe.ne_panicked hstanding arg msg s')
      · exact ⟨_, rfl⟩
      · exact ⟨_, rfl⟩
    · have := (hpatient.fed_le hstart hrun).2
      have hnew : (ManagesieveSessionOpen.new transport (none : Option (Sasl ε)) opts).patience =
          3 * maxResponse + 5 := rfl
      rw [hnew] at this
      split_ifs at this <;> omega

/-! ## What a client holds -/

/-- What holds of the loop where a turn goes on: no read was longer than the buffer of `connect`. -/
def Holds : Step ε S ι τ → Prop
  | .again s => s.session.Holds readBufferSize s.arg
  | .done _ => True

theorem holds_opened {s : Connecting ε S} (h : s.session.Holds readBufferSize s.arg)
    (r : Except τ S) : Holds (s.opened r : Step ε S ι τ) := by
  cases r with
  | error err => trivial
  | ok stream => exact h

theorem holds_withStream {s : Connecting ε S} {f : S → Step ε S ι τ}
    (hf : ∀ stream, Holds (f stream)) : Holds (s.withStream f) := by
  unfold Connecting.withStream
  rcases s.stream with _ | stream
  · trivial
  · exact hf stream

/-- A request for data is answered with as much as the buffer takes, any other one with nothing. -/
theorem holds_answer (io : Io S ι τ) {s : Connecting ε S} (harg : s.arg = none)
    {y : ManagesieveSessionOpenYield}
    (h : if y.isRead then ∀ c : Bytes, c.length ≤ readBufferSize →
        s.session.Holds readBufferSize (some c) else s.session.Holds readBufferSize none) :
    Holds (s.answer io y) := by
  have hopened : y.isRead = false → ∀ r : Except τ S, Holds (s.opened r : Step ε S ι τ) := by
    intro hy r
    rw [hy] at h
    exact holds_opened (by rwa [harg]) r
  cases y with
  | wantsTcpConnect host port => exact hopened rfl _
  | wantsTlsConnect host port => exact hopened rfl _
  | wantsUnixConnect path => exact hopened rfl _
  | wantsTlsUpgrade => exact holds_withStream fun plain => hopened rfl _
  | wantsRead =>
    refine holds_withStream fun stream => ?_
    rcases io.read stream with err | ⟨buf, stream⟩
    · trivial
    · exact h buf.1 buf.2
  | wantsWrite bytes =>
    refine holds_withStream fun stream => ?_
    rcases io.writeAll stream bytes with err | stream
    · trivial
    · change s.session.Holds readBufferSize s.arg
      rw [harg]
      exact h

theorem holds_turn (lib : Libraries) (io : Io S ι τ) {s : Connecting ε S}
    (h : s.session.Holds readBufferSize s.arg) : Holds (s.turn lib io) := by
  have hleaves := (ManagesieveSessionOpen.contained lib readBufferSize).leaves h
  unfold Connecting.turn
  rcases hr : (ManagesieveSessionOpen.machine lib).resume s.session s.arg with
    ⟨y | (err | data) | msg, session⟩ <;> rw [hr] at hleaves <;> dsimp only
  · exact holds_answer (s := ⟨session, s.stream, none⟩) io rfl hleaves.2
  · trivial
  · exact holds_withStream fun stream => trivial
  · trivial

/-- **No server makes a connecting client hold more than it can bound**: wherever the loop of
`connect` comes to, however its streams answer, what the session holds and what was read for it stay
within twice the ceiling and the read buffer. -/
theorem connect_buffered {s : Connecting ε S}
    (h : Reached lib ι τ (.new transport sasl opts) s) :
    s.session.buffered + (s.arg.getD []).length ≤ 2 * (maxResponse + readBufferSize) := by
  have hholds : s.session.Holds readBufferSize s.arg := by
    induction h with
    | start => exact ManagesieveSessionOpen.holds_new readBufferSize transport sasl opts
    | @turn s s' io _ hturn ih =>
      have hnext := holds_turn lib io ih
      rwa [hturn] at hnext
  exact (ManagesieveSessionOpen.contained lib readBufferSize).before hholds

/-- A socket that gives a part of the greeting. -/
theorem connect_buffered_greeting :
    let session : ManagesieveSessionOpen Unit := .new (.unix "/run/sieve") none ⟨false, false⟩
    ManagesieveSessionOpen.buffered { session with state := .greeting ⟨false, []⟩ } + 2 ≤
      2 * (maxResponse + readBufferSize) := by
  intro session
  let io : Io Unit Unit Unit := ⟨fun _ _ => .ok (), fun _ _ => .ok (), fun _ => .ok (),
    fun _ => .ok (), fun _ => .ok (⟨asBytes "OK", by decide +kernel⟩, ()), fun _ _ => .ok ()⟩
  let s : Connecting Unit Unit :=
    ⟨{ session with state := .greeting ⟨false, []⟩ }, some (), none⟩
  have hconnect : (Connecting.new (.unix "/run/sieve") none ⟨false, false⟩).turn .standard io =
      .again s := by
    unfold Connecting.turn Connecting.new
    rw [ManagesieveSessionOpen.resume_new_connect .standard (none : Option (Sasl Unit)) (by decide)]
    rfl
  have hask : ManagesieveGreetingGet.machine.resume ⟨false, []⟩ none =
      (.yielded .wantsRead, ⟨false, []⟩) := by decide +kernel
  have hask := (ManagesieveSessionOpen.nests_greeting .standard session).resume_yielded trivial hask
  have hread : s.turn .standard io = .again { s with arg := some (asBytes "OK") } := by
    unfold Connecting.turn
    rw [show s.session = { session with state := .greeting ⟨false, []⟩ } from rfl,
      show s.arg = none from rfl, hask]
    rfl
  exact connect_buffered (.turn io (.turn io .start hconnect) hread)

end ManagesieveClientStd

end ManageSieve
