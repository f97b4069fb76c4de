import ManageSieve.Session.Replies

/-!
# Up to the upgrade

What a session shows before the connection is encrypted. Whatever the server sends and wherever the
reads are cut, the run up to the upgrade is one of the four that `Climb` lists. From it follow that
credentials never precede encryption (`ManagesieveSessionOpen.drive_cleartext`) and that no byte
read in the clear survives into the upgrade (`ManagesieveSessionOpen.drive_upgrade`).
-/

namespace ManageSieve

open Coroutine

variable {ε A : Type*}

/-- What happens at the boundary of the session-opening coroutine. -/
abbrev SessionEvent := Event UInt8 ManagesieveSessionOpenYield

/-- The event that STARTTLS is written. -/
def wroteStartTls : SessionEvent := .yielded (.wantsWrite ManagesieveStartTlsCommand.toBytes)

/-- The event that the upgrade is requested. -/
def upgrade : SessionEvent := .yielded .wantsTlsUpgrade

/-- The event that the connection is requested. -/
def connected (transport : ManagesieveSessionTransport) : SessionEvent :=
  .yielded (.connect transport)

/-- Nothing is written in some events. -/
def WritesNothing (es : List SessionEvent) : Prop := ∀ bytes, .yielded (.wantsWrite bytes) ∉ es

theorem WritesNothing.cons_connect {es : List SessionEvent} (h : WritesNothing es)
    (transport : ManagesieveSessionTransport) : WritesNothing (connected transport :: es) := by
  intro bytes hb
  rcases List.mem_cons.1 hb with hb | hb
  · cases transport <;> cases hb
  · exact h bytes hb

namespace SessionLeg

theorem OnlyReads.not_mem {es : List SessionEvent} (h : OnlyReads es)
    {y : ManagesieveSessionOpenYield} (hy : y ≠ .wantsRead) : .yielded y ∉ es :=
  fun hmem => hy (h y (mem_yieldsOf.2 hmem))

theorem OnlyReads.writesNothing {es : List SessionEvent} (h : OnlyReads es) : WritesNothing es :=
  fun _ => h.not_mem (by simp)

theorem upgrade_not_mem {es : List SessionEvent} (h : OnlyReads es) : upgrade ∉ es :=
  h.not_mem (by simp)

/-- The run up to the upgrade: the greeting is not accepted, has no STARTTLS, the reply to STARTTLS
is not accepted, or the upgrade is requested. -/
inductive Climb (transport : ManagesieveSessionTransport) :
    List SessionEvent → Option (Except (ManagesieveSessionOpenError ε) Unit) → Prop
  | greeting {es r} (h : OnlyReads es)
      (hover : Overruns (fedOf es) → r = some (.error (.greeting .injection)))
      (hfail : r ≠ some (.ok ())) : Climb transport (connected transport :: es) r
  | unsupported {es} (h : OnlyReads es) (hg : IsOk (fedOf es).flatten) :
      Climb transport (connected transport :: es) (some (.error .startTlsUnsupported))
  | startTls {es es' r} (h : OnlyReads es) (hg : IsOk (fedOf es).flatten) (h' : OnlyReads es')
      (hover : Overruns (fedOf es') → r = some (.error (.startTls .injection)))
      (hfail : r ≠ some (.ok ())) :
      Climb transport (connected transport :: es ++ wroteStartTls :: es') r
  | reached {es es'} (h : OnlyReads es) (hg : IsOk (fedOf es).flatten) (h' : OnlyReads es')
      (hs : IsOk (fedOf es').flatten) :
      Climb transport (connected transport :: es ++ wroteStartTls :: es' ++ [upgrade])
        (some (.ok ()))

/-- **The run up to the upgrade is a climb**, whatever is read and wherever it is cut. -/
theorem reachUpgrade_climb (transport : ManagesieveSessionTransport) (cs : List Bytes) :
    Climb transport (reachUpgrade (ε := ε) transport cs).events
      (reachUpgrade (ε := ε) transport cs).pause.result := by
  have hgreet := greet_readsExactly (ε := ε) cs
  unfold reachUpgrade
  rw [Leg.ask_events, Leg.ask_pause]
  rcases Leg.ok_or_failed (greet (ε := ε)) cs with ⟨capabilities, hok⟩ | hfail
  · rw [Leg.andThen_ok hok]
    split_ifs
    · simpa [connected, Pause.result] using
        Climb.unsupported (ε := ε) hgreet.onlyReads (hgreet.isOk hok)
    · obtain ⟨t, ht, hstart⟩ := startTls_readsExactly (ε := ε) (greet (ε := ε) cs).unfed
      rcases Leg.ok_or_failed (startTls (ε := ε)) (greet (ε := ε) cs).unfed with ⟨_, hok'⟩ | hfail'
      · rw [Leg.andThen_ok hok']
        rw [ht] at hok' ⊢
        simpa [connected, wroteStartTls, upgrade, Pause.result] using
          Climb.reached (ε := ε) hgreet.onlyReads (hgreet.isOk hok) hstart.onlyReads
            (hstart.isOk hok')
      · obtain ⟨hevents, herror, hstop⟩ := Leg.andThen_failed (B := Unit)
          (f := fun _ => .ask .wantsTlsUpgrade (.stop (.ok ()))) hfail'
        rw [Transcript.prepend_events, Transcript.prepend_pause, hevents]
        rw [ht] at herror ⊢
        exact Climb.startTls hgreet.onlyReads (hgreet.isOk hok) hstart.onlyReads
          (fun h => herror _ (hstart.overruns h)) (hstop ())
  · obtain ⟨hevents, herror, hstop⟩ := Leg.andThen_failed (B := Unit) hfail
    rw [hevents]
    exact Climb.greeting hgreet.onlyReads (fun h => herror _ (hgreet.overruns h)) (hstop ())

theorem upgrade_ne_connected (transport : ManagesieveSessionTransport) :
    upgrade ≠ connected transport := by
  cases transport <;> simp [upgrade, connected, ManagesieveSessionOpenYield.connect]

theorem upgrade_ne_wroteStartTls : upgrade ≠ wroteStartTls := by
  simp [upgrade, wroteStartTls]

/-- A climb ends on the upgrade, or does not come to it. -/
theorem Climb.ends {transport : ManagesieveSessionTransport} {es : List SessionEvent}
    {r : Option (Except (ManagesieveSessionOpenError ε) Unit)} (h : Climb transport es r) :
    (r ≠ some (.ok ()) ∧ upgrade ∉ es) ∨
      r = some (.ok ()) ∧ ∃ es', es = es' ++ [upgrade] ∧ upgrade ∉ es' := by
  have hconnect := upgrade_ne_connected transport
  have hwrote := upgrade_ne_wroteStartTls
  cases h with
  | greeting h hover hfail => exact Or.inl ⟨hfail, by simp [hconnect, upgrade_not_mem h]⟩
  | unsupported h hg => exact Or.inl ⟨by simp, by simp [hconnect, upgrade_not_mem h]⟩
  | startTls h hg h' hover hfail =>
    exact Or.inl ⟨hfail, by simp [hconnect, hwrote, upgrade_not_mem h, upgrade_not_mem h']⟩
  | reached h hg h' hs =>
    exact Or.inr ⟨rfl, _, rfl, by simp [hconnect, hwrote, upgrade_not_mem h, upgrade_not_mem h']⟩

/-- Nothing but STARTTLS is written on a climb. -/
theorem Climb.writes {transport : ManagesieveSessionTransport} {es : List SessionEvent}
    {r : Option (Except (ManagesieveSessionOpenError ε) Unit)} (h : Climb transport es r)
    {bytes : Bytes} (hb : .yielded (.wantsWrite bytes) ∈ es) :
    bytes = ManagesieveStartTlsCommand.toBytes := by
  have hconnect : Event.yielded (.wantsWrite bytes) ≠ connected transport := by
    cases transport <;> simp [connected, ManagesieveSessionOpenYield.connect]
  cases h with
  | greeting h hover hfail => simp [hconnect, h.writesNothing bytes] at hb
  | unsupported h hg => simp [hconnect, h.writesNothing bytes] at hb
  | startTls h hg h' hover hfail =>
    simpa [hconnect, h.writesNothing bytes, h'.writesNothing bytes, wroteStartTls] using hb
  | reached h hg h' hs =>
    simpa [hconnect, h.writesNothing bytes, h'.writesNothing bytes, wroteStartTls, upgrade] using hb

end SessionLeg

/-! ## The whole run -/

/-- The events up to the first upgrade. -/
def upToUpgrade : List SessionEvent → List SessionEvent
  | [] => []
  | e :: es => if e = upgrade then [upgrade] else e :: upToUpgrade es

theorem upToUpgrade_of_not_mem {es : List SessionEvent} (h : upgrade ∉ es) :
    upToUpgrade es = es := by
  induction es with
  | nil => rfl
  | cons e es ih =>
    rw [List.mem_cons, not_or] at h
    rw [upToUpgrade, if_neg (Ne.symm h.1), ih h.2]

theorem upToUpgrade_append {es : List SessionEvent} (h : upgrade ∉ es) (es' : List SessionEvent) :
    upToUpgrade (es ++ upgrade :: es') = es ++ [upgrade] := by
  induction es with
  | nil => simp [upToUpgrade]
  | cons e es ih =>
    rw [List.mem_cons, not_or] at h
    rw [List.cons_append, upToUpgrade, if_neg (Ne.symm h.1), ih h.2, List.cons_append]

namespace SessionLeg

variable {lib : Libraries} {transport : ManagesieveSessionTransport} {sasl : Option (Sasl ε)}
variable {opts : ManagesieveSessionOpenOptions} {cs : List Bytes}

/-- STARTTLS is not asked of a transport that is protected. -/
theorem openSession_startTlsOverTls (hs : opts.starttls = true)
    (hp : transport.isProtected = true) :
    openSession lib transport sasl opts cs = Leg.stop (.error .startTlsOverTls) cs := by
  simp [openSession, hs, hp]

/-- Before the upgrade a session shows the climb, whatever the credentials. -/
theorem openSession_upToUpgrade (hs : opts.starttls = true) (hp : transport.isProtected = false) :
    upToUpgrade (openSession lib transport sasl opts cs).events =
      (reachUpgrade (ε := ε) transport cs).events := by
  have hclimb := reachUpgrade_climb (ε := ε) transport cs
  unfold openSession
  rw [if_pos hs, hp, if_neg Bool.false_ne_true]
  rcases hclimb.ends with ⟨hfail, hmem⟩ | ⟨hok, es, hes, hmem⟩
  · rw [(Leg.andThen_failed fun _ => hfail).1, upToUpgrade_of_not_mem hmem]
  · rw [Leg.andThen_ok hok, Transcript.prepend_events, hes, List.append_assoc,
      List.singleton_append, upToUpgrade_append hmem]

/-- A session that is to be encrypted is not opened without the upgrade. -/
theorem upgrade_mem_of_ok (hs : opts.starttls = true) (hp : transport.isProtected = false)
    {data : ManagesieveSessionOpenData}
    (hok : (openSession lib transport sasl opts cs).pause.result = some (.ok data)) :
    upgrade ∈ (openSession lib transport sasl opts cs).events := by
  have hclimb := reachUpgrade_climb (ε := ε) transport cs
  unfold openSession at hok ⊢
  rw [if_pos hs, hp, if_neg Bool.false_ne_true] at hok ⊢
  rcases hclimb.ends with ⟨hfail, -⟩ | ⟨hreached, es, hes, -⟩
  · exact absurd hok ((Leg.andThen_failed fun _ => hfail).2.2 data)
  · rw [Leg.andThen_ok hreached, Transcript.prepend_events, hes]
    simp

/-- A mechanism that may not run in the clear is not run, and no session is opened without it. -/
theorem openSession_refused (hs : opts.starttls = false) {sasl : Sasl ε}
    (hr : refuses opts transport.isProtected sasl = true) :
    WritesNothing (openSession lib transport (some sasl) opts cs).events ∧
      ∀ data, (openSession lib transport (some sasl) opts cs).pause.result ≠ some (.ok data) := by
  have hgreet := greet_readsExactly (ε := ε) cs
  have hwrites := hgreet.onlyReads.writesNothing.cons_connect transport
  unfold openSession signIn
  simp only [hs, Bool.false_eq_true, if_false, hr, if_true]
  rw [Leg.ask_events, Leg.ask_pause]
  rcases Leg.ok_or_failed (greet (ε := ε)) cs with ⟨capabilities, hok⟩ | hfail
  · rw [Leg.andThen_ok hok]
    refine ⟨?_, fun data => by simp [Pause.result]⟩
    simpa [connected] using hwrites
  · obtain ⟨hevents, -, hstop⟩ := Leg.andThen_failed (B := ManagesieveSessionOpenData) hfail
    rw [hevents]
    exact ⟨hwrites, hstop⟩

end SessionLeg

namespace ManagesieveSessionOpen

open SessionLeg

/-- A whole run. -/
def run (lib : Libraries) (transport : ManagesieveSessionTransport) (sasl : Option (Sasl ε))
    (opts : ManagesieveSessionOpenOptions) (cs : List Bytes) :
    Transcript (ManagesieveSessionOpen ε) UInt8 ManagesieveSessionOpenYield (Return ε) :=
  (machine lib).drive (new transport sasl opts) none cs

variable {lib : Libraries} {transport : ManagesieveSessionTransport} {sasl : Option (Sasl ε)}
variable {opts : ManagesieveSessionOpenOptions} {cs : List Bytes}

theorem run_events :
    (run lib transport sasl opts cs).events = (openSession lib transport sasl opts cs).events := by
  rw [← drive_shown]
  rfl

theorem run_shown : (run lib transport sasl opts cs).pause.shown =
    (openSession lib transport sasl opts cs).pause := by
  rw [← drive_shown]
  rfl

theorem run_result : (run lib transport sasl opts cs).pause.result =
    (openSession lib transport sasl opts cs).pause.result := by
  rw [← run_shown, Pause.result_shown]

/-- **Credentials never precede encryption.** Over TCP, a session that is to be encrypted writes
nothing but STARTTLS before the upgrade, shows the same up to there whatever the credentials, and is
not opened without the upgrade; one that is not to be encrypted does not run a mechanism that
discloses its credentials, unless that is allowed. -/
theorem drive_cleartext (lib : Libraries) (host : String) (port : UInt16)
    (opts : ManagesieveSessionOpenOptions) (cs : List Bytes) :
    (opts.starttls = true →
      (∀ sasl : Option (Sasl ε),
        (∀ bytes, .yielded (.wantsWrite bytes) ∈
            upToUpgrade (run lib (.tcp host port) sasl opts cs).events →
          bytes = ManagesieveStartTlsCommand.toBytes) ∧
        ∀ data, (run lib (.tcp host port) sasl opts cs).pause.result = some (.ok data) →
          upgrade ∈ (run lib (.tcp host port) sasl opts cs).events) ∧
      ∀ sasl sasl' : Option (Sasl ε),
        upToUpgrade (run lib (.tcp host port) sasl opts cs).events =
          upToUpgrade (run lib (.tcp host port) sasl' opts cs).events) ∧
    (opts.starttls = false → opts.allowCleartextAuth = false → ∀ sasl : Sasl ε,
      disclosesCredential sasl.mechanism = true →
        WritesNothing (run lib (.tcp host port) (some sasl) opts cs).events ∧
        ∀ data, (run lib (.tcp host port) (some sasl) opts cs).pause.result ≠ some (.ok data)) := by
  refine ⟨fun hs => ⟨fun sasl => ⟨fun bytes hb => ?_, fun data hok => ?_⟩, fun sasl sasl' => ?_⟩,
    fun hs ha sasl hd => ?_⟩
  · rw [run_events, openSession_upToUpgrade hs rfl] at hb
    exact (reachUpgrade_climb (.tcp host port) cs).writes hb
  · rw [run_result] at hok
    rw [run_events]
    exact upgrade_mem_of_ok hs rfl hok
  · rw [run_events, run_events, openSession_upToUpgrade hs rfl, openSession_upToUpgrade hs rfl]
  · rw [run_events, run_result]
    exact openSession_refused hs
      (by simp [refuses, ManagesieveSessionTransport.isProtected, ha, hd])

/-- PLAIN, with STARTTLS and without it. -/
theorem drive_cleartext_plain :
    let sasl : Sasl Unit := ⟨.plain, fun _ => .yielded (.wantsWrite [0x78])⟩
    let cs := [asBytes "\"STARTTLS\"\r\nOK\r\n", asBytes "OK\r\n", asBytes "OK\r\n"]
    (upgrade ∈ (run (ε := Unit) .standard (.tcp "localhost" 4190) none ⟨true, false⟩ cs).events ∧
      upToUpgrade (run .standard (.tcp "localhost" 4190) (some sasl) ⟨true, false⟩ cs).events =
        upToUpgrade
          (run (ε := Unit) .standard (.tcp "localhost" 4190) none ⟨true, false⟩ cs).events) ∧
      WritesNothing (run .standard (.tcp "localhost" 4190) (some sasl) ⟨false, false⟩ cs).events := by
  intro sasl cs
  have hencrypted := (drive_cleartext (ε := Unit) .standard "localhost" 4190 ⟨true, false⟩ cs).1 rfl
  exact ⟨⟨(hencrypted.1 none).2 ⟨.default⟩ (by decide +kernel), hencrypted.2 (some sasl) none⟩,
    ((drive_cleartext .standard "localhost" 4190 ⟨false, false⟩ cs).2 rfl rfl sasl rfl).1⟩

end ManagesieveSessionOpen

end ManageSieve
