import ManageSieve.Session.Upgrade

/-!
# No byte injected into the upgrade

A byte that the server, or somebody on the way, sends past the end of the greeting or of the reply
to STARTTLS would be read as part of what comes over TLS. `ManagesieveSessionOpen.drive_upgrade`
says that what was read before the upgrade is exactly the two replies, and that a run in which a
read goes past either of them ends in an injection instead.
-/

namespace ManageSieve

open Coroutine

variable {ε A : Type*}

/-- An event that is not in the first part of a list comes in the second one. -/
theorem exists_of_append_eq {a c es es' : List SessionEvent} {e : SessionEvent} (h : e ∉ a)
    (heq : a ++ c = es ++ e :: es') : ∃ d, es = a ++ d ∧ c = d ++ e :: es' := by
  rw [List.append_eq_append_iff] at heq
  rcases heq with ⟨d, rfl, hc⟩ | ⟨d, rfl, he⟩
  · exact ⟨d, rfl, hc⟩
  · rcases d with _ | ⟨e', d⟩
    · exact ⟨[], by simp, by simpa using he.symm⟩
    · obtain ⟨rfl, -⟩ := List.cons.inj he
      exact absurd (by simp) h

/-- The first write of a list of events is where it is. -/
theorem WritesNothing.split {es es' fs fs' : List SessionEvent} {w w' : Bytes}
    (h : WritesNothing es) (h' : WritesNothing es')
    (heq : es ++ .yielded (.wantsWrite w) :: fs = es' ++ .yielded (.wantsWrite w') :: fs') :
    es = es' ∧ w = w' ∧ fs = fs' := by
  obtain ⟨d, rfl, hd⟩ := exists_of_append_eq (h' w) heq.symm
  cases d with
  | nil =>
    obtain ⟨hw, rfl⟩ := List.cons.inj hd
    cases hw
    exact ⟨List.append_nil es', rfl, rfl⟩
  | cons e d =>
    obtain ⟨rfl, -⟩ := List.cons.inj hd
    exact absurd (by simp) (h w')

namespace SessionLeg

/-! ## The legs after the upgrade -/

theorem upgrade_not_mem_map (es : List (Event UInt8 ManagesieveYield)) :
    upgrade ∉ es.map (.map .ofYield) := by
  intro h
  obtain ⟨e, -, he⟩ := List.mem_map.1 h
  rcases e with (_ | w) | c <;> cases he

variable (lib : Libraries) (opts : ManagesieveSessionOpenOptions) (protected_ : Bool)
variable (sasl : Option (Sasl ε)) (capabilities : ManagesieveCapabilities) (cs : List Bytes)

/-- Signing in shows AUTHENTICATE, or nothing. -/
theorem signIn_events : (signIn lib opts protected_ sasl capabilities cs).events = [] ∨
    ∃ creds : Sasl ε, (signIn lib opts protected_ sasl capabilities cs).events =
      (authenticate lib creds cs).events := by
  unfold signIn
  rcases sasl with _ | creds
  · exact Or.inl rfl
  · dsimp only
    split_ifs
    · exact Or.inl rfl
    · refine Or.inr ⟨creds, ?_⟩
      rcases Leg.andThen_events (authenticate lib creds)
        (fun capabilities => .stop (.ok (⟨capabilities⟩ : ManagesieveSessionOpenData))) cs with
        h | ⟨a, h⟩ <;> rw [h]
      simp

/-- What AUTHENTICATE writes first is not STARTTLS. -/
theorem authenticate_events (creds : Sasl ε) : (authenticate lib creds cs).events = [] ∨
    ∃ w es, (authenticate lib creds cs).events = .yielded (.wantsWrite w) :: es ∧
      w ≠ ManagesieveStartTlsCommand.toBytes := by
  unfold authenticate Leg.ofMachine
  rcases hopen : Exchange.opening creds with err | payload
  · rw [ManagesieveAuthenticate.drive_new_error hopen]
    exact Or.inl rfl
  · rw [ManagesieveAuthenticate.drive_new hopen]
    refine Or.inr ⟨_, _, rfl, fun h => ?_⟩
    have hhead := congrArg List.head? h
    rw [Exchange.command, ManagesieveAuthenticateCommand.head?_toBytes] at hhead
    revert hhead
    decide +kernel

theorem upgrade_not_mem_signIn :
    upgrade ∉ (signIn lib opts protected_ sasl capabilities cs).events := by
  rcases signIn_events lib opts protected_ sasl capabilities cs with h | ⟨creds, h⟩ <;> rw [h]
  · simp
  · exact upgrade_not_mem_map _

theorem upgrade_not_mem_overTls : upgrade ∉ (overTls lib opts sasl cs).events := by
  have hgreet := upgrade_not_mem (greet_readsExactly (ε := ε) cs).onlyReads
  unfold overTls
  rcases Leg.andThen_events greet (signIn lib opts true sasl) cs with h | ⟨a, h⟩ <;> rw [h]
  · exact hgreet
  · rw [List.mem_append, not_or]
    exact ⟨hgreet, upgrade_not_mem_signIn lib opts true sasl a _⟩

/-! ## Whole sessions -/

variable {opts} {transport : ManagesieveSessionTransport}

/-- A session that is to be encrypted is a climb and, from the upgrade on, what follows it. -/
theorem openSession_climb (hs : opts.starttls = true) (hp : transport.isProtected = false) :
    ∃ es rest r, Climb (ε := ε) transport es r ∧
      (openSession lib transport sasl opts cs).events = es ++ rest ∧ upgrade ∉ rest ∧
      (r = some (.ok ()) ∨ rest = [] ∧ ∀ err, r = some (.error err) →
        (openSession lib transport sasl opts cs).pause.result = some (.error err)) := by
  have hclimb := reachUpgrade_climb (ε := ε) transport cs
  unfold openSession
  rw [if_pos hs, hp, if_neg Bool.false_ne_true]
  rcases hclimb.ends with ⟨hfail, -⟩ | ⟨hok, -⟩
  · obtain ⟨hevents, herror, -⟩ := Leg.andThen_failed
      (f := fun _ => overTls lib opts sasl) fun _ => hfail
    exact ⟨_, [], _, hclimb, by rw [hevents, List.append_nil], by simp, Or.inr ⟨rfl, herror⟩⟩
  · rw [Leg.andThen_ok hok]
    exact ⟨_, _, _, hclimb, rfl, upgrade_not_mem_overTls lib opts sasl _, Or.inl hok⟩

/-- A session that is not to be encrypted reads its greeting, then signs in. -/
theorem openSession_plain (hs : opts.starttls = false) :
    ∃ es rest, OnlyReads es ∧
      (openSession lib transport sasl opts cs).events = connected transport :: es ++ rest ∧
      upgrade ∉ rest ∧
      (rest = [] ∨ ∃ w es', rest = .yielded (.wantsWrite w) :: es' ∧
        w ≠ ManagesieveStartTlsCommand.toBytes) ∧
      (IsOk (fedOf es).flatten ∨ rest = [] ∧ (Overruns (fedOf es) →
        (openSession lib transport sasl opts cs).pause.result =
          some (.error (.greeting .injection)))) := by
  have hgreet := greet_readsExactly (ε := ε) cs
  unfold openSession
  simp only [hs, Bool.false_eq_true, if_false]
  rw [Leg.ask_events, Leg.ask_pause]
  rcases Leg.ok_or_failed (greet (ε := ε)) cs with ⟨capabilities, hok⟩ | hfail
  · rw [Leg.andThen_ok hok]
    refine ⟨_, _, hgreet.onlyReads, rfl, upgrade_not_mem_signIn _ _ _ _ _ _, ?_,
      Or.inl (hgreet.isOk hok)⟩
    rcases signIn_events lib opts transport.isProtected sasl capabilities (greet (ε := ε) cs).unfed
      with h | ⟨creds, h⟩ <;> rw [h]
    · exact Or.inl rfl
    · exact authenticate_events lib _ creds
  · obtain ⟨hevents, herror, -⟩ := Leg.andThen_failed
      (f := signIn lib opts transport.isProtected sasl) hfail
    refine ⟨_, [], hgreet.onlyReads, by rw [hevents, List.append_nil]; rfl, by simp, Or.inl rfl,
      Or.inr ⟨rfl, fun h => herror _ (hgreet.overruns h)⟩⟩

@[simp] theorem fedOf_connected (es : List SessionEvent) :
    fedOf (connected transport :: es) = fedOf es := rfl
@[simp] theorem fedOf_wroteStartTls (es : List SessionEvent) :
    fedOf (wroteStartTls :: es) = fedOf es := rfl
@[simp] theorem fedOf_upgrade (es : List SessionEvent) : fedOf (upgrade :: es) = fedOf es := rfl

/-- A climb that comes to the upgrade. -/
theorem Climb.of_ok {es : List SessionEvent}
    (h : Climb transport es (some (.ok () : Except (ManagesieveSessionOpenError ε) Unit))) :
    ∃ es₁ es₂, es = connected transport :: es₁ ++ wroteStartTls :: es₂ ++ [upgrade] ∧
      OnlyReads es₁ ∧ OnlyReads es₂ ∧ IsOk (fedOf es₁).flatten ∧ IsOk (fedOf es₂).flatten ∧
      upgrade ∉ connected transport :: es₁ ++ wroteStartTls :: es₂ := by
  cases h with
  | greeting h hover hfail => exact absurd rfl hfail
  | startTls h hg h' hover hfail => exact absurd rfl hfail
  | reached h hg h' hs =>
    exact ⟨_, _, rfl, h, h', hg, hs, by simp [upgrade_ne_connected, upgrade_ne_wroteStartTls,
      upgrade_not_mem h, upgrade_not_mem h']⟩

/-- What is read before the upgrade is the greeting, then the reply to STARTTLS. -/
theorem Climb.exact {es rest fs fs' : List SessionEvent}
    {r : Option (Except (ManagesieveSessionOpenError ε) Unit)} (h : Climb transport es r)
    (hrest : upgrade ∉ rest) (hr : r = some (.ok ()) ∨ rest = [])
    (heq : es ++ rest = fs ++ upgrade :: fs') :
    ∃ es₁ es₂, fs = es₁ ++ wroteStartTls :: es₂ ∧ WritesNothing es₁ ∧ WritesNothing es₂ ∧
      IsOk (fedOf es₁).flatten ∧ IsOk (fedOf es₂).flatten := by
  rcases h.ends with ⟨hfail, hmem⟩ | ⟨rfl, -⟩
  · obtain rfl := hr.resolve_left hfail
    rw [List.append_nil] at heq
    exact absurd (by simp [heq]) hmem
  · obtain ⟨es₁, es₂, rfl, h₁, h₂, hg, hs, hmem⟩ := h.of_ok
    rw [List.append_assoc, List.singleton_append] at heq
    obtain ⟨rfl, -, -⟩ := (List.append_cons_inj_of_notMem hmem hrest).1 heq
    exact ⟨connected transport :: es₁, es₂, rfl, h₁.writesNothing.cons_connect transport,
      h₂.writesNothing, hg, hs⟩

/-- A read past the end of the greeting ends a climb in an injection. -/
theorem Climb.overruns_greeting {es rest : List SessionEvent}
    {r : Option (Except (ManagesieveSessionOpenError ε) Unit)} (h : Climb transport es r)
    (hr : r = some (.ok ()) ∨ rest = []) (hover : Overruns (fedOf (es ++ rest))) :
    r = some (.error (.greeting .injection)) ∧ upgrade ∉ es ++ rest := by
  cases h with
  | greeting h hinj hfail =>
    obtain rfl := hr.resolve_left hfail
    rw [List.append_nil] at hover ⊢
    exact ⟨hinj hover, by simp [upgrade_ne_connected, upgrade_not_mem h]⟩
  | unsupported h hg =>
    apply absurd hover
    simpa using hg.not_overruns (fedOf rest)
  | startTls h hg h' hinj hfail =>
    apply absurd hover
    simpa using hg.not_overruns _
  | reached h hg h' hs =>
    apply absurd hover
    simpa using hg.not_overruns _

/-- A read past the end of the reply to STARTTLS ends a climb in an injection. -/
theorem Climb.overruns_startTls {es rest fs fs' : List SessionEvent}
    {r : Option (Except (ManagesieveSessionOpenError ε) Unit)} (h : Climb transport es r)
    (hr : r = some (.ok ()) ∨ rest = []) (heq : es ++ rest = fs ++ wroteStartTls :: fs')
    (hfs : WritesNothing fs) (hover : Overruns (fedOf fs')) :
    r = some (.error (.startTls .injection)) ∧ upgrade ∉ es ++ rest := by
  cases h with
  | greeting h hinj hfail =>
    obtain rfl := hr.resolve_left hfail
    rw [List.append_nil] at heq
    exact absurd (by rw [heq]; simp [wroteStartTls])
      (h.writesNothing.cons_connect transport ManagesieveStartTlsCommand.toBytes)
  | unsupported h hg =>
    obtain rfl := hr.resolve_left (by simp)
    rw [List.append_nil] at heq
    exact absurd (by rw [heq]; simp [wroteStartTls])
      (h.writesNothing.cons_connect transport ManagesieveStartTlsCommand.toBytes)
  | startTls h hg h' hinj hfail =>
    obtain rfl := hr.resolve_left hfail
    rw [List.append_nil] at heq ⊢
    obtain ⟨-, -, rfl⟩ := (h.writesNothing.cons_connect transport).split hfs heq
    exact ⟨hinj hover, by simp [upgrade_ne_connected, upgrade_ne_wroteStartTls, upgrade_not_mem h,
      upgrade_not_mem h']⟩
  | reached h hg h' hs =>
    simp only [List.append_assoc, List.cons_append] at heq
    obtain ⟨-, -, rfl⟩ := (h.writesNothing.cons_connect transport).split hfs heq
    apply absurd hover
    simpa using hs.not_overruns _

end SessionLeg

namespace ManagesieveSessionOpen

open SessionLeg

/-- **No byte injected before the upgrade survives into it.** What was read before an upgrade is the
greeting, read before STARTTLS was written, and the reply to STARTTLS, each an OK response and
nothing past its end; a run in which a read goes past the end of either ends in an injection,
without an upgrade. -/
theorem drive_upgrade (lib : Libraries) (transport : ManagesieveSessionTransport)
    (sasl : Option (Sasl ε)) (opts : ManagesieveSessionOpenOptions) (cs : List Bytes) :
    (∀ es es', (run lib transport sasl opts cs).events = es ++ upgrade :: es' →
      ∃ es₁ es₂, es = es₁ ++ wroteStartTls :: es₂ ∧ WritesNothing es₁ ∧ WritesNothing es₂ ∧
        (fedOf es).flatten = (fedOf es₁).flatten ++ (fedOf es₂).flatten ∧
        IsOk (fedOf es₁).flatten ∧ IsOk (fedOf es₂).flatten) ∧
    (Overruns (fedOf (run lib transport sasl opts cs).events) →
      (run lib transport sasl opts cs).pause.result = some (.error (.greeting .injection)) ∧
        upgrade ∉ (run lib transport sasl opts cs).events) ∧
    ∀ es es', (run lib transport sasl opts cs).events = es ++ wroteStartTls :: es' →
      WritesNothing es → Overruns (fedOf es') →
        (run lib transport sasl opts cs).pause.result = some (.error (.startTls .injection)) ∧
          upgrade ∉ (run lib transport sasl opts cs).events := by
  rw [run_events, run_result]
  cases hs : opts.starttls with
  | true =>
    cases hp : transport.isProtected with
    | true =>
      rw [openSession_startTlsOverTls hs hp]
      simp [not_overruns_nil]
    | false =>
      obtain ⟨es, rest, r, hclimb, hevents, hrest, hr⟩ :=
        openSession_climb lib sasl cs hs hp
      have hstop : r = some (.ok ()) ∨ rest = [] := hr.imp_right And.left
      have hresult : ∀ err, r = some (.error err) →
          (openSession lib transport sasl opts cs).pause.result = some (.error err) := by
        rintro err rfl
        exact (hr.resolve_left (by simp)).2 err rfl
      rw [hevents]
      refine ⟨fun fs fs' heq => ?_, fun hover => ?_, fun fs fs' heq hfs hover => ?_⟩
      · obtain ⟨es₁, es₂, rfl, h₁, h₂, hg, hs⟩ := hclimb.exact hrest hstop heq
        exact ⟨es₁, es₂, rfl, h₁, h₂, by simp, hg, hs⟩
      · obtain ⟨hinj, hmem⟩ := hclimb.overruns_greeting hstop hover
        exact ⟨hresult _ hinj, hmem⟩
      · obtain ⟨hinj, hmem⟩ := hclimb.overruns_startTls hstop heq hfs hover
        exact ⟨hresult _ hinj, hmem⟩
  | false =>
    obtain ⟨es, rest, hreads, hevents, hrest, hfirst, hok⟩ :=
      openSession_plain lib sasl cs hs
    have hmem : upgrade ∉ connected transport :: es ++ rest := by
      simp [upgrade_ne_connected, upgrade_not_mem hreads, hrest]
    rw [hevents]
    refine ⟨fun fs fs' heq => ?_, fun hover => ?_, fun fs fs' heq hfs hover => ?_⟩
    · exact absurd (by simp [heq]) hmem
    · rcases hok with hok | ⟨rfl, hinj⟩
      · exact absurd hover (by simpa using hok.not_overruns (fedOf rest))
      · exact ⟨hinj (by simpa using hover), hmem⟩
    · have hwrites := hreads.writesNothing.cons_connect transport
      rcases hfirst with rfl | ⟨w, es', rfl, hw⟩
      · rw [List.append_nil] at heq
        exact absurd (by rw [heq]; simp [wroteStartTls])
          (hwrites ManagesieveStartTlsCommand.toBytes)
      · exact absurd (hwrites.split hfs heq).2.1 hw

/-- The greeting of a server that offers STARTTLS, in two reads; then a reply with a command after
it. -/
theorem drive_upgrade_injected :
    let t := run .standard (.tcp "localhost" 4190) (none : Option (Sasl Unit)) ⟨true, false⟩
      [asBytes "\"STARTTLS\"\r", asBytes "\nOK\r\n", asBytes "OK\r\nNOOP\r\n"]
    t.pause.result = some (.error (.startTls .injection)) ∧ upgrade ∉ t.events := by
  have hwrites : WritesNothing [connected (.tcp "localhost" 4190), .yielded .wantsRead,
      .fed (asBytes "\"STARTTLS\"\r"), .yielded .wantsRead, .fed (asBytes "\nOK\r\n")] := by
    intro bytes
    simp [connected, ManagesieveSessionOpenYield.connect]
  have hover : Overruns [asBytes "OK\r\nNOOP\r\n"] :=
    ⟨[], _, [], rfl, by decide +kernel, ⟨[], ⟨.ok, none, none⟩⟩, 4, by decide +kernel,
      by decide +kernel⟩
  exact (drive_upgrade .standard (.tcp "localhost" 4190) none ⟨true, false⟩ _).2.2 _
    [.yielded .wantsRead, .fed (asBytes "OK\r\nNOOP\r\n")] (by decide +kernel) hwrites hover

end ManagesieveSessionOpen

end ManageSieve
