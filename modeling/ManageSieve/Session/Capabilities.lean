import ManageSieve.Session.Injection

/-!
# Nothing learnt in the clear outlives the upgrade

After the upgrade a session is `SessionLeg.overTls`, which nothing read before it is part of
(`SessionLeg.openSession_upgraded`): two runs that are read the same bytes from there on show the
same. The capabilities that a session ends on are those of the last leg that asked for them
(`SessionLeg.openSession_lastCapabilities`). `ManagesieveSessionOpen.drive_forgets` puts the two
together.
-/

namespace ManageSieve

open Coroutine

variable {ε A : Type*}

/-- The capabilities are those of a response read after the request `asked`, with nothing but reads
since. -/
def LastCapabilities (asked : ManagesieveSessionOpenYield) (es : List SessionEvent)
    (capabilities : ManagesieveCapabilities) : Prop :=
  ∃ es₁ es₂ response n, es = es₁ ++ .yielded asked :: es₂ ∧ SessionLeg.OnlyReads es₂ ∧
    ManagesieveResponse.parse (fedOf es₂).flatten = .ok (some (response, n)) ∧
    response.completion.status = .ok ∧ capabilities = .parse response.data

theorem LastCapabilities.append {asked : ManagesieveSessionOpenYield} {es : List SessionEvent}
    {capabilities : ManagesieveCapabilities} (h : LastCapabilities asked es capabilities)
    (es₀ : List SessionEvent) : LastCapabilities asked (es₀ ++ es) capabilities := by
  obtain ⟨es₁, es₂, response, n, rfl, h⟩ := h
  exact ⟨es₀ ++ es₁, es₂, response, n, by simp, h⟩

namespace ManagesieveAuthenticate

open Exchange

variable {lib : Libraries} {sasl : Sasl ε} {opts : ManagesieveAuthenticateOptions}

/-- An exchange that ends well ends on the capabilities that it read again. -/
theorem drive_new_ok (he : opts.ensureCapabilities = true) {cs : List Bytes}
    {capabilities : ManagesieveCapabilities}
    (h : ((machine lib).drive (new sasl opts) none cs).pause.result = some (.ok capabilities)) :
    ∃ es rest out, ((machine lib).drive (new sasl opts) none cs).events =
        es ++ .yielded (.wantsWrite ManagesieveCapabilityGetCommand.toBytes) ::
          (ManagesieveResponseRead.machine.drive .new none rest).events ∧
      (ManagesieveResponseRead.machine.drive .new none rest).pause.result = some (.ok out) ∧
      ManagesieveCapabilityGet.finish (.ok out) = .ok capabilities := by
  rcases hopen : opening sasl with err | payload
  · rw [drive_new_error hopen] at h
    cases h
  · rw [drive_new hopen] at h ⊢
    generalize (client lib).machine.drive (firstPhase sasl opts payload, []) none cs = t at h ⊢
    rcases t with ⟨es, s | ⟨err | _, s⟩ | ⟨msg, s⟩, unfed⟩ <;>
      simp only [Transcript.within, Transcript.prepend] at h ⊢
    · cases h
    · cases h
    · simp only [after_accepted s unfed he, Pause.result_map, Option.map_eq_some_iff] at h ⊢
      obtain ⟨r, hr, hcaps⟩ := h
      rcases r with err | out
      · cases hcaps
      · refine ⟨_, unfed, out, (List.append_assoc ..).symm, hr, ?_⟩
        rcases hf : ManagesieveCapabilityGet.finish (.ok out) with err | c <;> rw [hf] at hcaps <;>
          cases hcaps
        rfl
    · cases h

end ManagesieveAuthenticate

namespace SessionLeg

variable {lib : Libraries} {transport : ManagesieveSessionTransport} {sasl : Option (Sasl ε)}
variable {opts : ManagesieveSessionOpenOptions} {cs : List Bytes}

/-! ## What a leg has learnt -/

theorem map_onlyReads {es : List (Event UInt8 ManagesieveYield)}
    (h : ∀ y ∈ yieldsOf es, y = .wantsRead) : OnlyReads (es.map (.map .ofYield)) := by
  intro y hy
  rw [yieldsOf_map, List.mem_map] at hy
  obtain ⟨y, hy, rfl⟩ := hy
  rw [h y hy]
  rfl

/-- A greeting has the capabilities of the response that was read. -/
theorem greet_lastCapabilities {capabilities : ManagesieveCapabilities}
    (h : (greet (ε := ε) cs).pause.result = some (.ok capabilities))
    (asked : ManagesieveSessionOpenYield) :
    LastCapabilities asked (.yielded asked :: (greet (ε := ε) cs).events) capabilities := by
  obtain ⟨response, hparse, hstatus, hcaps⟩ := greet_ok h
  exact ⟨[], _, response, _, rfl, (greet_readsExactly cs).onlyReads, hparse, hstatus, hcaps⟩

/-- AUTHENTICATE has the capabilities of the response to CAPABILITY. -/
theorem authenticate_lastCapabilities {creds : Sasl ε} {capabilities : ManagesieveCapabilities}
    (h : (authenticate lib creds cs).pause.result = some (.ok capabilities)) :
    LastCapabilities (.wantsWrite ManagesieveCapabilityGetCommand.toBytes)
      (authenticate lib creds cs).events capabilities := by
  simp only [authenticate, Leg.ofMachine, Pause.result_map, Option.map_eq_some_iff] at h ⊢
  obtain ⟨r, hr, hcaps⟩ := h
  rcases r with err | c <;> cases hcaps
  obtain ⟨es, rest, out, hevents, hout, hfinish⟩ := ManagesieveAuthenticate.drive_new_ok rfl hr
  obtain ⟨n, hparse, -⟩ := ManagesieveResponseRead.parse_of_ok hout
  have honly := (ManagesieveResponseRead.drive_new_reads rest).only_reads
  rw [hevents, List.map_append, List.map_cons]
  rw [← fedOf_map ManagesieveSessionOpenYield.ofYield] at hparse
  unfold ManagesieveCapabilityGet.finish at hfinish
  rcases hr : out.response.intoResult with completion | response <;>
    simp only [hr, reduceCtorEq, Except.ok.injEq] at hfinish
  obtain ⟨hstatus, rfl⟩ := ManagesieveResponse.of_intoResult hr
  exact ⟨_, _, _, n, rfl, map_onlyReads honly, hparse, hstatus, hfinish.symm⟩

/-- What signing in ends on, the greeting having had the capabilities `capabilities`. -/
theorem signIn_lastCapabilities {protected_ : Bool} {capabilities : ManagesieveCapabilities}
    {data : ManagesieveSessionOpenData}
    (h : (signIn lib opts protected_ sasl capabilities cs).pause.result = some (.ok data)) :
    (sasl = none ∧ (signIn lib opts protected_ sasl capabilities cs).events = [] ∧
        data.capabilities = capabilities) ∨
      ∃ creds, sasl = some creds ∧
        LastCapabilities (.wantsWrite ManagesieveCapabilityGetCommand.toBytes)
          (signIn lib opts protected_ sasl capabilities cs).events data.capabilities := by
  unfold signIn at h ⊢
  rcases sasl with _ | creds
  · cases h
    exact Or.inl ⟨rfl, rfl, rfl⟩
  · refine Or.inr ⟨creds, rfl, ?_⟩
    dsimp only at h ⊢
    split_ifs at h ⊢
    · cases h
    · obtain ⟨c, hc, hdata, hevents⟩ := Leg.ok_of_andThen h
      cases hdata
      rw [hevents, Leg.stop_apply, List.append_nil]
      exact authenticate_lastCapabilities hc

/-- The request that the last capabilities of a session answer. -/
def lastAsked (transport : ManagesieveSessionTransport) (sasl : Option (Sasl ε))
    (opts : ManagesieveSessionOpenOptions) : ManagesieveSessionOpenYield :=
  match sasl with
  | some _ => .wantsWrite ManagesieveCapabilityGetCommand.toBytes
  | none => if opts.starttls then .wantsTlsUpgrade else .connect transport

/-- A greeting and what follows it, read after the request `asked`. -/
theorem greeted_lastCapabilities {protected_ : Bool} {asked : ManagesieveSessionOpenYield}
    {data : ManagesieveSessionOpenData}
    (h : (greet.andThen (signIn lib opts protected_ sasl) cs).pause.result = some (.ok data)) :
    LastCapabilities
      (if sasl.isSome then .wantsWrite ManagesieveCapabilityGetCommand.toBytes else asked)
      (.yielded asked :: (greet.andThen (signIn lib opts protected_ sasl) cs).events)
      data.capabilities := by
  obtain ⟨capabilities, hok, hdata, hevents⟩ := Leg.ok_of_andThen h
  rw [hevents]
  rcases signIn_lastCapabilities hdata with ⟨rfl, hnil, hcaps⟩ | ⟨creds, rfl, hlast⟩
  · rw [hnil, List.append_nil, hcaps]
    exact greet_lastCapabilities hok asked
  · rw [← List.cons_append]
    exact hlast.append _

/-! ## Whole sessions -/

/-- A session ends on the capabilities that it asked for last. -/
theorem openSession_lastCapabilities {data : ManagesieveSessionOpenData}
    (h : (openSession lib transport sasl opts cs).pause.result = some (.ok data)) :
    LastCapabilities (lastAsked transport sasl opts)
      (openSession lib transport sasl opts cs).events data.capabilities := by
  have hasked : lastAsked transport sasl opts =
      if sasl.isSome then .wantsWrite ManagesieveCapabilityGetCommand.toBytes
      else if opts.starttls then .wantsTlsUpgrade else .connect transport := by
    cases sasl <;> rfl
  rw [hasked]
  unfold openSession at h ⊢
  cases hs : opts.starttls with
  | true =>
    simp only [hs, if_true] at h ⊢
    cases hp : transport.isProtected with
    | true =>
      rw [hp] at h
      cases h
    | false =>
      simp only [hp, Bool.false_eq_true, if_false] at h ⊢
      obtain ⟨_, hok, hdata, hevents⟩ := Leg.ok_of_andThen h
      have hclimb := reachUpgrade_climb (ε := ε) transport cs
      rw [hok] at hclimb
      obtain ⟨es₁, es₂, hes, -⟩ := hclimb.of_ok
      rw [hevents, hes, List.append_assoc, List.singleton_append]
      exact (greeted_lastCapabilities hdata).append _
  | false =>
    simp only [hs, Bool.false_eq_true, if_false] at h ⊢
    exact greeted_lastCapabilities h

/-- A session that came to the upgrade goes on over TLS, and has forgotten what was before. -/
theorem openSession_upgraded {es es' : List SessionEvent}
    (h : (openSession lib transport sasl opts cs).events = es ++ upgrade :: es') :
    ∃ rest, openSession lib transport sasl opts cs =
      (overTls lib opts sasl rest).prepend (es ++ [upgrade]) := by
  cases hs : opts.starttls with
  | true =>
    cases hp : transport.isProtected with
    | true =>
      rw [openSession_startTlsOverTls hs hp] at h
      simp at h
    | false =>
      have hclimb := reachUpgrade_climb (ε := ε) transport cs
      unfold openSession at h ⊢
      simp only [hs, hp, if_true, Bool.false_eq_true, if_false] at h ⊢
      rcases hclimb.ends with ⟨hfail, hmem⟩ | ⟨hok, -⟩
      · rw [(Leg.andThen_failed fun _ => hfail).1] at h
        exact absurd (by simp [h]) hmem
      · rw [hok] at hclimb
        obtain ⟨es₁, es₂, hes, -, -, -, -, hmem⟩ := hclimb.of_ok
        rw [Leg.andThen_ok hok] at h ⊢
        rw [Transcript.prepend_events, hes, List.append_assoc, List.singleton_append] at h
        obtain ⟨rfl, -, -⟩ := (List.append_cons_inj_of_notMem hmem
          (upgrade_not_mem_overTls lib opts sasl _)).1 h
        rw [hes]
        exact ⟨_, rfl⟩
  | false =>
    obtain ⟨es₀, rest, hreads, hevents, hrest, -⟩ :=
      openSession_plain lib sasl cs hs
    have hmem : upgrade ∉ connected transport :: es₀ ++ rest := by
      simp [upgrade_ne_connected, upgrade_not_mem hreads, hrest]
    rw [← hevents, h] at hmem
    simp at hmem

end SessionLeg

namespace ManagesieveSessionOpen

open SessionLeg

/-- What follows the upgrade is determined by the reads it was fed. -/
theorem overTls_fed (lib : Libraries) (opts : ManagesieveSessionOpenOptions)
    (sasl : Option (Sasl ε)) (cs : List Bytes) :
    overTls lib opts sasl (fedOf (overTls lib opts sasl cs).events) =
      ⟨(overTls lib opts sasl cs).events, (overTls lib opts sasl cs).pause, []⟩ := by
  let self : ManagesieveSessionOpen ε := ⟨.upgraded, .unix "", sasl, .default, true, opts⟩
  have hdrive : ∀ cs, ((machine lib).drive self none cs).shown = overTls lib opts sasl cs :=
    drive_upgraded rfl rfl
  rw [← hdrive cs, ← hdrive, Transcript.shown_events, Machine.drive_fed]
  rfl

/-- **Nothing learnt in the clear outlives the upgrade.** Two runs with the same credentials and
policy that are read the same after their upgrades show the same from there on, and end on the same;
and the capabilities a session ends on are those of the response it asked for last. -/
theorem drive_forgets (lib : Libraries) (transport : ManagesieveSessionTransport)
    (sasl : Option (Sasl ε)) (opts : ManagesieveSessionOpenOptions) :
    (∀ cs cs' es es' after after',
      (run lib transport sasl opts cs).events = es ++ upgrade :: after →
      (run lib transport sasl opts cs').events = es' ++ upgrade :: after' →
      fedOf after = fedOf after' →
        after = after' ∧ (run lib transport sasl opts cs).pause.shown =
          (run lib transport sasl opts cs').pause.shown) ∧
    ∀ cs data, (run lib transport sasl opts cs).pause.result = some (.ok data) →
      LastCapabilities (lastAsked transport sasl opts) (run lib transport sasl opts cs).events
        data.capabilities := by
  refine ⟨fun cs cs' es es' after after' h h' hfed => ?_, fun cs data h => ?_⟩
  · rw [run_events] at h h'
    rw [run_shown, run_shown]
    obtain ⟨rest, hrest⟩ := openSession_upgraded h
    obtain ⟨rest', hrest'⟩ := openSession_upgraded h'
    rw [hrest, Transcript.prepend_events, List.append_assoc, List.singleton_append,
      List.append_cancel_left_eq, List.cons.injEq] at h
    rw [hrest', Transcript.prepend_events, List.append_assoc, List.singleton_append,
      List.append_cancel_left_eq, List.cons.injEq] at h'
    obtain ⟨-, rfl⟩ := h
    obtain ⟨-, rfl⟩ := h'
    have hsame := overTls_fed lib opts sasl rest
    rw [hfed, overTls_fed lib opts sasl rest', Transcript.mk.injEq] at hsame
    rw [hrest, hrest']
    exact ⟨hsame.1.symm, hsame.2.1.symm⟩
  · rw [run_result] at h
    rw [run_events]
    exact openSession_lastCapabilities h

/-- Two greetings and two replies to STARTTLS, one greeting over TLS. -/
theorem drive_forgets_greetings :
    let tls := asBytes "\"SASL\" \"PLAIN\"\r\nOK\r\n"
    let t := run (ε := Unit) .standard (.tcp "localhost" 4190) none ⟨true, false⟩
      [asBytes "\"STARTTLS\"\r\nOK\r\n", asBytes "OK\r\n", tls]
    let t' := run (ε := Unit) .standard (.tcp "localhost" 4190) none ⟨true, false⟩
      [asBytes "\"SASL\" \"LOGIN\"\r\n\"STARTTLS\"\r\n", asBytes "OK\r\n", asBytes "OK \"Go\"\r\n",
        tls]
    t.pause.shown = t'.pause.shown ∧
      LastCapabilities .wantsTlsUpgrade t'.events ⟨[⟨"SASL", some "PLAIN"⟩]⟩ := by
  intro tls t t'
  let after : List SessionEvent := [.yielded .wantsRead, .fed tls]
  have h := drive_forgets (ε := Unit) .standard (.tcp "localhost" 4190) none ⟨true, false⟩
  have hbefore : t.events = [connected (.tcp "localhost" 4190), .yielded .wantsRead,
      .fed (asBytes "\"STARTTLS\"\r\nOK\r\n"), wroteStartTls, .yielded .wantsRead,
      .fed (asBytes "OK\r\n")] ++ upgrade :: after := by decide +kernel
  have hbefore' : t'.events = [connected (.tcp "localhost" 4190), .yielded .wantsRead,
      .fed (asBytes "\"SASL\" \"LOGIN\"\r\n\"STARTTLS\"\r\n"), .yielded .wantsRead,
      .fed (asBytes "OK\r\n"), wroteStartTls, .yielded .wantsRead,
      .fed (asBytes "OK \"Go\"\r\n")] ++ upgrade :: after := by decide +kernel
  exact ⟨(h.1 _ _ _ _ _ _ hbefore hbefore' rfl).2, h.2 _ ⟨_⟩ (by decide +kernel)⟩

end ManagesieveSessionOpen

end ManageSieve
