import ManageSieve.Rfc5804.Feeding
import ManageSieve.Session.Injection

/-!
# The order of the steps

Opening a session connects, reads a greeting, upgrades the connection if that was asked for, reads a
second greeting, and authenticates. `SessionLeg.Course` lists what a run can show, whatever is read
and wherever the reads are cut (`SessionLeg.openSession_course`); that each step comes in its place
and at most once is read off it (`ManagesieveSessionOpen.inOrder_run`).
-/

namespace ManageSieve

open Coroutine Reactor

variable {ε : Type*}

/-! ## What AUTHENTICATE writes -/

/-- The bytes start with the verb of AUTHENTICATE. -/
def IsAuthenticate (bytes : Bytes) : Prop := asBytes "AUTHENTICATE" <+: bytes

theorem isAuthenticate_toBytes (lib : Libraries) (cmd : ManagesieveAuthenticateCommand) :
    IsAuthenticate (cmd.toBytes lib) := by
  unfold IsAuthenticate ManagesieveAuthenticateCommand.toBytes commandLine
  exact (List.prefix_append _ _).trans (List.prefix_append _ _)

/-- AUTHENTICATE starts with an A. -/
theorem IsAuthenticate.head? {bytes : Bytes} (h : IsAuthenticate bytes) :
    bytes.head? = some 65 := by
  obtain ⟨rest, rfl⟩ := h
  have hverb : asBytes "AUTHENTICATE" = 65 :: asBytes "UTHENTICATE" := by decide +kernel
  rw [hverb]
  rfl

/-- What starts with another letter is not AUTHENTICATE. -/
theorem not_isAuthenticate {bytes : Bytes} (h : bytes.head? ≠ some 65) : ¬ IsAuthenticate bytes :=
  fun ha => h ha.head?

theorem not_isAuthenticate_cancellation : ¬ IsAuthenticate cancellation :=
  not_isAuthenticate (by decide +kernel)

theorem not_isAuthenticate_capability :
    ¬ IsAuthenticate ManagesieveCapabilityGetCommand.toBytes :=
  not_isAuthenticate (by decide +kernel)

theorem not_isAuthenticate_startTls : ¬ IsAuthenticate ManagesieveStartTlsCommand.toBytes :=
  not_isAuthenticate (by decide +kernel)

/-- A continuation line opens on a quote or on a brace. -/
theorem not_isAuthenticate_clientResponse (lib : Libraries) (payload : Bytes) :
    ¬ IsAuthenticate (clientResponse lib payload) := by
  apply not_isAuthenticate
  unfold clientResponse
  rcases string_cases (lib.base64.encode payload) with ⟨hs, -⟩ | hs <;> rw [hs]
  · simp [quoted, dquote]
  · simp [literal, literalMarker, openBrace]

namespace ManagesieveAuthenticate

open Exchange

variable {lib : Libraries} {sasl : Sasl ε} {opts : ManagesieveAuthenticateOptions}

/-- No message of the exchange is the command again. -/
theorem consume_not_isAuthenticate (q : Phase ε) (b : Bytes) :
    ∀ bytes ∈ ((client lib).consume q b).writes, ¬ IsAuthenticate bytes := by
  refine Client.consume_writes (fun q line bytes q' hd => ?_) q b
  rcases q with ⟨m, pending⟩ | ⟨m, error⟩
  · change decideReading lib m pending line = _ at hd
    rcases line with line | completion <;> simp only [decideReading] at hd
    · rcases hs : line.string 0 with _ | challenge <;> rw [hs] at hd
      · cases hd
      · dsimp only at hd
        rcases ha : m.answerChallenge lib pending challenge with ⟨err | payload, m'⟩ <;>
          rw [ha] at hd <;> cases hd
        · exact not_isAuthenticate_cancellation
        · exact not_isAuthenticate_clientResponse lib _
    · cases hd
  · change decideAborting m error line = _ at hd
    rcases line with line | completion <;> cases hd

/-- An exchange writes its command, and not a second time. -/
theorem events_new (lib : Libraries) (sasl : Sasl ε) (opts : ManagesieveAuthenticateOptions)
    (cs : List Bytes) :
    ((machine lib).drive (new sasl opts) none cs).events = [] ∨
      ∃ payload es, ((machine lib).drive (new sasl opts) none cs).events =
          .yielded (.wantsWrite (command lib sasl opts payload)) :: es ∧
        ∀ bytes ∈ writesOf es, ¬ IsAuthenticate bytes := by
  rcases hopen : opening sasl with err | payload
  · rw [drive_new_error hopen]
    exact Or.inl rfl
  · have hspec := drive_new_spec lib opts hopen cs
    have hevents := congrArg Transcript.events (@drive_new _ lib sasl opts _ hopen none cs)
    rw [Transcript.prepend_events, List.singleton_append] at hevents
    refine Or.inr ⟨payload, _, hevents, fun bytes hb => ?_⟩
    have hwrites := hspec.writes
    rw [hevents, writesOf_write, List.cons.injEq] at hwrites
    rw [hwrites.2, List.mem_append] at hb
    rcases hb with hb | hb
    · exact consume_not_isAuthenticate _ _ bytes hb
    · unfold refresh at hb
      split at hb
      · split_ifs at hb
        · rw [List.mem_singleton.1 hb]
          exact not_isAuthenticate_capability
        · cases hb
      · cases hb

end ManagesieveAuthenticate

/-! ## What a run can show -/

/-- The bytes are exactly an OK response that offers STARTTLS. -/
def OffersStartTls (b : Bytes) : Prop :=
  ∃ response, ManagesieveResponse.parse b = .ok (some (response, b.length)) ∧
    response.completion.status = .ok ∧ (ManagesieveCapabilities.parse response.data).starttls = true

theorem OffersStartTls.isOk {b : Bytes} (h : OffersStartTls b) : IsOk b := by
  obtain ⟨response, hparse, hstatus, -⟩ := h
  exact ⟨response, hparse, hstatus⟩

/-- Some events start with AUTHENTICATE, and go on with reads and with writes of something else. -/
def SignsIn (es : List SessionEvent) : Prop :=
  ∃ w es', es = .yielded (.wantsWrite w) :: es' ∧ IsAuthenticate w ∧
    ∀ y, .yielded y ∈ es' → y = .wantsRead ∨ ∃ bytes, y = .wantsWrite bytes ∧ ¬ IsAuthenticate bytes

/-- Signing in only reads and writes. -/
theorem SignsIn.not_mem {w : List SessionEvent} (h : SignsIn w) {y : ManagesieveSessionOpenYield}
    (hr : y ≠ .wantsRead) (hw : ∀ bytes, y ≠ .wantsWrite bytes) : .yielded y ∉ w := by
  obtain ⟨bytes, es, rfl, -, hes⟩ := h
  intro hy
  rcases List.mem_cons.1 hy with hy | hy
  · cases hy
    exact hw bytes rfl
  · rcases hes y hy with rfl | ⟨bytes', rfl, -⟩
    · exact hr rfl
    · exact hw bytes' rfl

/-- AUTHENTICATE is what signing in starts with, and nothing else. -/
theorem SignsIn.split {d es : List SessionEvent} {bytes : Bytes}
    (h : SignsIn (d ++ .yielded (.wantsWrite bytes) :: es)) (hb : IsAuthenticate bytes) :
    d = [] ∧ ∀ y, .yielded y ∈ es →
      y = .wantsRead ∨ ∃ bytes', y = .wantsWrite bytes' ∧ ¬ IsAuthenticate bytes' := by
  obtain ⟨first, rest, heq, -, hrest⟩ := h
  rcases d with _ | ⟨e, d⟩
  · obtain ⟨-, rfl⟩ := List.cons.inj heq
    exact ⟨rfl, hrest⟩
  · obtain ⟨-, rfl⟩ := List.cons.inj heq
    rcases hrest (.wantsWrite bytes) (by simp) with h | ⟨bytes', h, hn⟩ <;> cases h
    exact absurd hb hn

namespace SessionLeg

/-- What a run can show: nothing; the connection and a greeting, after which it may sign in; the
same up to STARTTLS; the same up to the upgrade and a second greeting, after which it may sign in.
-/
inductive Course (transport : ManagesieveSessionTransport) (opts : ManagesieveSessionOpenOptions) :
    List SessionEvent → Prop
  | refused (hs : opts.starttls = true) (hp : transport.isProtected = true) :
      Course transport opts []
  | greeting {g w} (hs : opts.starttls = true → transport.isProtected = false) (hg : OnlyReads g)
      (hw : w = [] ∨ opts.starttls = false ∧ IsOk (fedOf g).flatten ∧ SignsIn w) :
      Course transport opts (connected transport :: g ++ w)
  | startTls {g s} (hs : opts.starttls = true) (hp : transport.isProtected = false)
      (hg : OnlyReads g) (ho : OffersStartTls (fedOf g).flatten) (hr : OnlyReads s) :
      Course transport opts (connected transport :: g ++ wroteStartTls :: s)
  | upgraded {g s g' w} (hs : opts.starttls = true) (hp : transport.isProtected = false)
      (hg : OnlyReads g) (ho : OffersStartTls (fedOf g).flatten) (hr : OnlyReads s)
      (hg' : OnlyReads g') (hw : w = [] ∨ IsOk (fedOf g').flatten ∧ SignsIn w) :
      Course transport opts (connected transport :: g ++ wroteStartTls :: s ++ upgrade :: g' ++ w)

variable {lib : Libraries} {opts : ManagesieveSessionOpenOptions} {cs : List Bytes}
variable {transport : ManagesieveSessionTransport} {sasl : Option (Sasl ε)}

theorem authenticate_signsIn (creds : Sasl ε) (cs : List Bytes) :
    (authenticate lib creds cs).events = [] ∨ SignsIn (authenticate lib creds cs).events := by
  simp only [authenticate, Leg.ofMachine]
  rcases ManagesieveAuthenticate.events_new lib creds ⟨true, true⟩ cs
    with h | ⟨payload, es, h, hes⟩ <;> rw [h]
  · exact Or.inl rfl
  · refine Or.inr ⟨_, _, rfl, isAuthenticate_toBytes lib _, fun y hy => ?_⟩
    obtain ⟨e, he, hmap⟩ := List.mem_map.1 hy
    rcases e with (_ | bytes) | c <;> cases hmap
    · exact Or.inl rfl
    · refine Or.inr ⟨bytes, rfl, hes bytes ?_⟩
      exact List.mem_filterMap.2 ⟨.wantsWrite bytes, mem_yieldsOf.2 he, rfl⟩

theorem signIn_signsIn (protected_ : Bool) (capabilities : ManagesieveCapabilities) :
    (signIn lib opts protected_ sasl capabilities cs).events = [] ∨
      SignsIn (signIn lib opts protected_ sasl capabilities cs).events := by
  rcases signIn_events lib opts protected_ sasl capabilities cs with h | ⟨creds, h⟩ <;> rw [h]
  · exact Or.inl rfl
  · exact authenticate_signsIn creds cs

/-- A greeting, and signing in after one that was accepted. -/
theorem greeted_events (lib : Libraries) (opts : ManagesieveSessionOpenOptions)
    (protected_ : Bool) (sasl : Option (Sasl ε)) (cs : List Bytes) :
    ∃ g w, (greet.andThen (signIn lib opts protected_ sasl) cs).events = g ++ w ∧ OnlyReads g ∧
      (w = [] ∨ IsOk (fedOf g).flatten ∧ SignsIn w) := by
  have hgreet := greet_readsExactly (ε := ε) cs
  rcases Leg.ok_or_failed (greet (ε := ε)) cs with ⟨capabilities, hok⟩ | hfail
  · rw [Leg.andThen_ok hok]
    refine ⟨_, _, rfl, hgreet.onlyReads, ?_⟩
    rcases signIn_signsIn protected_ capabilities with h | h
    · exact Or.inl h
    · exact Or.inr ⟨hgreet.isOk hok, h⟩
  · refine ⟨_, [], ?_, hgreet.onlyReads, Or.inl rfl⟩
    rw [(Leg.andThen_failed hfail).1, List.append_nil]

/-- STARTTLS, and a second greeting after a reply that was accepted. -/
theorem startTls_events (lib : Libraries) (opts : ManagesieveSessionOpenOptions)
    (sasl : Option (Sasl ε)) (cs : List Bytes) :
    ∃ s t, (startTls.andThen (fun () => .ask .wantsTlsUpgrade (overTls lib opts sasl)) cs).events =
        wroteStartTls :: s ++ t ∧ OnlyReads s ∧
      (t = [] ∨ ∃ g w, t = upgrade :: g ++ w ∧ OnlyReads g ∧
        (w = [] ∨ IsOk (fedOf g).flatten ∧ SignsIn w)) := by
  obtain ⟨t, ht, hstart⟩ := startTls_readsExactly (ε := ε) cs
  have hevents : (startTls (ε := ε) cs).events = wroteStartTls :: t.events := by
    rw [ht]
    rfl
  rcases Leg.ok_or_failed (startTls (ε := ε)) cs with ⟨_, hok⟩ | hfail
  · obtain ⟨g, w, hover, hg, hw⟩ := greeted_events lib opts true sasl
      (startTls (ε := ε) cs).unfed
    rw [Leg.andThen_ok hok, Transcript.prepend_events, hevents, Leg.ask_events, overTls, hover]
    exact ⟨_, _, rfl, hstart.onlyReads, Or.inr ⟨g, w, rfl, hg, hw⟩⟩
  · rw [(Leg.andThen_failed hfail).1, hevents]
    exact ⟨_, [], (List.append_nil _).symm, hstart.onlyReads, Or.inl rfl⟩

/-- **A run shows a course**, whatever is read and wherever it is cut. -/
theorem openSession_course (lib : Libraries) (transport : ManagesieveSessionTransport)
    (sasl : Option (Sasl ε)) (opts : ManagesieveSessionOpenOptions) (cs : List Bytes) :
    Course transport opts (openSession lib transport sasl opts cs).events := by
  unfold openSession
  cases hs : opts.starttls with
  | false =>
    rw [if_neg Bool.false_ne_true, Leg.ask_events]
    obtain ⟨g, w, hevents, hg, hw⟩ := greeted_events lib opts transport.isProtected sasl cs
    rw [hevents]
    refine .greeting (by simp [hs]) hg (hw.imp_right fun hw => ⟨hs, hw⟩)
  | true =>
    cases hp : transport.isProtected with
    | true => exact .refused hs hp
    | false =>
      have hgreet := greet_readsExactly (ε := ε) cs
      rw [if_pos rfl, if_neg Bool.false_ne_true, reachUpgrade_andThen, Leg.ask_events]
      rcases Leg.ok_or_failed (greet (ε := ε)) cs with ⟨capabilities, hok⟩ | hfail
      · rw [Leg.andThen_ok hok, Transcript.prepend_events]
        split_ifs with hno
        · exact .greeting (fun _ => hp) hgreet.onlyReads (Or.inl rfl)
        · obtain ⟨response, hparse, hstatus, rfl⟩ := greet_ok hok
          have ho : OffersStartTls (fedOf (greet (ε := ε) cs).events).flatten :=
            ⟨response, hparse, hstatus, by simpa using hno⟩
          obtain ⟨s, t, hevents, hr, ht⟩ := startTls_events lib opts sasl
            (greet (ε := ε) cs).unfed
          rw [hevents]
          rcases ht with rfl | ⟨g, w, rfl, hg, hw⟩
          · rw [List.append_nil]
            exact .startTls hs hp hgreet.onlyReads ho hr
          · simpa [connected] using Course.upgraded hs hp hgreet.onlyReads ho hr hg hw
      · rw [(Leg.andThen_failed hfail).1]
        simpa [connected] using Course.greeting (fun _ => hp) hgreet.onlyReads (Or.inl rfl)

/-! ## What comes when -/

theorem connect_ne_wantsRead (transport : ManagesieveSessionTransport) :
    ManagesieveSessionOpenYield.connect transport ≠ .wantsRead := by
  cases transport <;> simp [ManagesieveSessionOpenYield.connect]

theorem connect_ne_wantsWrite (transport : ManagesieveSessionTransport) (bytes : Bytes) :
    ManagesieveSessionOpenYield.connect transport ≠ .wantsWrite bytes := by
  cases transport <;> simp [ManagesieveSessionOpenYield.connect]

theorem OnlyReads.connected_not_mem {es : List SessionEvent} (h : OnlyReads es)
    (transport : ManagesieveSessionTransport) : connected transport ∉ es :=
  h.not_mem (connect_ne_wantsRead transport)

variable {es es₁ es₂ : List SessionEvent}

/-- A course is refused, or it connects once and first of all, and goes no further than a greeting
that was not accepted. -/
theorem Course.connects (h : Course transport opts es) :
    (es = [] ∧ opts.starttls = true ∧ transport.isProtected = true) ∨
      (opts.starttls = true → transport.isProtected = false) ∧
        ∃ g rest, es = connected transport :: g ++ rest ∧ OnlyReads g ∧
          (rest = [] ∨ IsOk (fedOf g).flatten) ∧ ∀ transport', connected transport' ∉ rest := by
  have hwrote : ∀ transport', connected transport' ≠ wroteStartTls := fun transport' => by
    simpa [connected, wroteStartTls] using connect_ne_wantsWrite transport' _
  have hsigns : ∀ {w}, SignsIn w → ∀ transport', connected transport' ∉ w := fun h transport' =>
    h.not_mem (connect_ne_wantsRead transport') (connect_ne_wantsWrite transport')
  cases h with
  | refused hs hp => exact Or.inl ⟨rfl, hs, hp⟩
  | greeting hs hg hw =>
    refine Or.inr ⟨hs, _, _, rfl, hg, hw.imp_right fun hw => hw.2.1, ?_⟩
    rcases hw with rfl | ⟨-, -, hw⟩
    · simp
    · exact hsigns hw
  | startTls hs hp hg ho hr =>
    refine Or.inr ⟨fun _ => hp, _, _, rfl, hg, Or.inr ho.isOk, fun transport' => ?_⟩
    simp [hwrote, hr.connected_not_mem]
  | @upgraded g s g' w hs hp hg ho hr hg' hw =>
    refine Or.inr ⟨fun _ => hp, _, _, by rw [List.append_assoc, List.append_assoc], hg,
      Or.inr ho.isOk, fun transport' => ?_⟩
    have hw' : connected transport' ∉ w := by
      rcases hw with rfl | ⟨-, hw⟩
      · exact List.not_mem_nil
      · exact hsigns hw transport'
    simp [hwrote, hr.connected_not_mem, (upgrade_ne_connected transport').symm,
      hg'.connected_not_mem, hw']

/-- Nothing is written before the greeting was accepted. -/
theorem Course.greets (h : Course transport opts es) {bytes : Bytes}
    (heq : es = es₁ ++ .yielded (.wantsWrite bytes) :: es₂) :
    ∃ g, connected transport :: g <+: es₁ ∧ OnlyReads g ∧ IsOk (fedOf g).flatten := by
  rcases h.connects with ⟨rfl, -⟩ | ⟨-, g, rest, rfl, hg, hok, -⟩
  · simp at heq
  · obtain ⟨d, rfl, rfl⟩ :=
      exists_of_append_eq (hg.writesNothing.cons_connect transport bytes) heq
    exact ⟨g, List.prefix_append _ _, hg, hok.resolve_left (by simp)⟩

/-- The upgrade comes once, and after a greeting that offers STARTTLS. -/
theorem Course.upgrades (h : Course transport opts es) (heq : es = es₁ ++ upgrade :: es₂) :
    upgrade ∉ es₁ ∧ upgrade ∉ es₂ ∧ opts.starttls = true ∧ transport.isProtected = false ∧
      ∃ g, connected transport :: g <+: es₁ ∧ OnlyReads g ∧ OffersStartTls (fedOf g).flatten := by
  have hconnect := upgrade_ne_connected transport
  have hwrote := upgrade_ne_wroteStartTls
  have hsigns : ∀ {w}, SignsIn w → upgrade ∉ w := fun h => h.not_mem (by simp) (by simp)
  cases h with
  | refused hs hp => simp at heq
  | @greeting g w hs hg hw =>
    have hmem : upgrade ∉ connected transport :: g ++ w := by
      rcases hw with rfl | ⟨-, -, hw⟩
      · simp [hconnect, upgrade_not_mem hg]
      · simp [hconnect, upgrade_not_mem hg, hsigns hw]
    exact absurd (by simp [heq]) hmem
  | @startTls g s hs hp hg ho hr =>
    have hmem : upgrade ∉ connected transport :: g ++ wroteStartTls :: s := by
      simp [hconnect, hwrote, upgrade_not_mem hg, upgrade_not_mem hr]
    exact absurd (by simp [heq]) hmem
  | @upgraded g s g' w hs hp hg ho hr hg' hw =>
    have hmem : upgrade ∉ connected transport :: g ++ wroteStartTls :: s := by
      simp [hconnect, hwrote, upgrade_not_mem hg, upgrade_not_mem hr]
    have hrest : upgrade ∉ g' ++ w := by
      rcases hw with rfl | ⟨-, hw⟩
      · simp [upgrade_not_mem hg']
      · simp [upgrade_not_mem hg', hsigns hw]
    rw [List.append_assoc, List.cons_append] at heq
    obtain ⟨rfl, -, rfl⟩ := (List.append_cons_inj_of_notMem hmem hrest).1 heq
    exact ⟨hmem, hrest, hs, hp, g, List.prefix_append _ _, hg, ho⟩

/-- AUTHENTICATE comes once, and right after the last greeting. -/
theorem Course.authenticates (h : Course transport opts es) {bytes : Bytes}
    (heq : es = es₁ ++ .yielded (.wantsWrite bytes) :: es₂) (hb : IsAuthenticate bytes) :
    (∃ es₀ g, es₁ = es₀ ++
        .yielded (if opts.starttls then .wantsTlsUpgrade else .connect transport) :: g ∧
      OnlyReads g ∧ IsOk (fedOf g).flatten) ∧
    (∀ bytes', IsAuthenticate bytes' → .yielded (.wantsWrite bytes') ∉ es₁) ∧
    ∀ y, .yielded y ∈ es₂ →
      y = .wantsRead ∨ ∃ bytes', y = .wantsWrite bytes' ∧ ¬ IsAuthenticate bytes' := by
  have hbefore : ∀ {g}, OnlyReads g → ∀ bytes', IsAuthenticate bytes' →
      .yielded (.wantsWrite bytes') ∉ connected transport :: g := fun hg bytes' _ =>
    hg.writesNothing.cons_connect transport bytes'
  have hwrote : ∀ bytes', IsAuthenticate bytes' →
      (.yielded (.wantsWrite bytes') : SessionEvent) ≠ wroteStartTls := by
    intro bytes' hb' h
    cases h
    exact not_isAuthenticate_startTls hb'
  cases h with
  | refused hs hp => simp at heq
  | @greeting g w hs hg hw =>
    obtain ⟨d, rfl, rfl⟩ := exists_of_append_eq (hbefore hg bytes hb) heq
    obtain ⟨hs, hok, hw⟩ := hw.resolve_left (by simp)
    obtain ⟨rfl, hrest⟩ := hw.split hb
    rw [List.append_nil, hs, if_neg Bool.false_ne_true]
    exact ⟨⟨[], g, rfl, hg, hok⟩, hbefore hg, hrest⟩
  | @startTls g s hs hp hg ho hr =>
    obtain ⟨d, -, hd⟩ := exists_of_append_eq (hbefore hg bytes hb) heq
    have hmem : .yielded (.wantsWrite bytes) ∈ wroteStartTls :: s := by simp [hd]
    rcases List.mem_cons.1 hmem with h | h
    · exact absurd h (hwrote bytes hb)
    · exact absurd h (hr.writesNothing bytes)
  | @upgraded g s g' w hs hp hg ho hr hg' hw =>
    have hmem : ∀ bytes', IsAuthenticate bytes' → .yielded (.wantsWrite bytes') ∉
        connected transport :: g ++ wroteStartTls :: s ++ upgrade :: g' := fun bytes' hb' => by
      have := hbefore hg bytes' hb'
      simp only [List.mem_append, List.mem_cons, not_or] at this ⊢
      exact ⟨⟨this, hwrote bytes' hb', hr.writesNothing bytes'⟩, by simp [upgrade],
        hg'.writesNothing bytes'⟩
    obtain ⟨d, rfl, rfl⟩ := exists_of_append_eq (hmem bytes hb) heq
    obtain ⟨hok, hw⟩ := hw.resolve_left (by simp)
    obtain ⟨rfl, hrest⟩ := hw.split hb
    rw [List.append_nil, hs, if_pos rfl]
    exact ⟨⟨connected transport :: g ++ wroteStartTls :: s, g', rfl, hg', hok⟩, hmem, hrest⟩

/-! ## What a session that was opened went through -/

/-- The events hold AUTHENTICATE for the credentials, and what was read after it ends the exchange
in a success. -/
def Signed (lib : Libraries) (creds : Sasl ε) (es : List SessionEvent) : Prop :=
  ∃ es₁ es₂ payload, es = es₁ ++
      .yielded (.wantsWrite (Exchange.command lib creds ⟨true, true⟩ payload)) :: es₂ ∧
    Exchange.Accepts lib creds ⟨true, true⟩ (fedOf es₂).flatten

theorem Signed.append {creds : Sasl ε} (h : Signed lib creds es) (es₀ : List SessionEvent) :
    Signed lib creds (es₀ ++ es) := by
  obtain ⟨es₁, es₂, payload, rfl, h⟩ := h
  exact ⟨es₀ ++ es₁, es₂, payload, (List.append_assoc ..).symm, h⟩

theorem authenticate_signed {creds : Sasl ε} {capabilities : ManagesieveCapabilities}
    (h : (authenticate lib creds cs).pause.result = some (.ok capabilities)) :
    Signed lib creds (authenticate lib creds cs).events := by
  simp only [authenticate, Leg.ofMachine, Pause.result_map, Option.map_eq_some_iff] at h ⊢
  obtain ⟨r, hr, hcaps⟩ := h
  rcases r with err | c <;> cases hcaps
  have haccepts := (ManagesieveAuthenticate.drive_fedAsCalled lib creds ⟨true, true⟩ cs).accepted.1
    (Or.inr ⟨_, hr⟩)
  rcases hopen : Exchange.opening creds with err | payload
  · exact absurd haccepts (Exchange.not_accepts hopen _)
  · rw [ManagesieveAuthenticate.drive_new hopen, Transcript.prepend_events, List.singleton_append]
      at haccepts ⊢
    refine ⟨[], _, payload, rfl, ?_⟩
    rwa [fedOf_map]

theorem greeted_signed {protected_ : Bool} {creds : Sasl ε} {data : ManagesieveSessionOpenData}
    (h : (greet.andThen (signIn lib opts protected_ (some creds)) cs).pause.result =
      some (.ok data)) :
    Signed lib creds (greet.andThen (signIn lib opts protected_ (some creds)) cs).events := by
  obtain ⟨capabilities, -, hdata, hevents⟩ := Leg.ok_of_andThen h
  rw [hevents]
  refine Signed.append ?_ _
  unfold signIn at hdata ⊢
  dsimp only at hdata ⊢
  split_ifs at hdata ⊢
  · cases hdata
  · obtain ⟨c, hc, -, hsigned⟩ := Leg.ok_of_andThen hdata
    rw [hsigned, Leg.stop_apply, List.append_nil]
    exact authenticate_signed hc

/-- **A session with credentials is not opened without an exchange that succeeded.** -/
theorem openSession_signed {creds : Sasl ε} {data : ManagesieveSessionOpenData}
    (h : (openSession lib transport (some creds) opts cs).pause.result = some (.ok data)) :
    Signed lib creds (openSession lib transport (some creds) opts cs).events := by
  unfold openSession at h ⊢
  split_ifs at h ⊢
  · cases h
  · obtain ⟨_, -, hdata, hevents⟩ := Leg.ok_of_andThen h
    rw [hevents]
    exact (greeted_signed hdata).append _
  · exact (greeted_signed h).append [_]

end SessionLeg

/-! ## The whole run -/

namespace ManagesieveSessionOpen

open SessionLeg

variable {lib : Libraries} {transport : ManagesieveSessionTransport} {sasl : Option (Sasl ε)}
variable {opts : ManagesieveSessionOpenOptions} {cs : List Bytes}

/-- The steps of a run come in order, and each at most once. -/
structure InOrder (lib : Libraries) (transport : ManagesieveSessionTransport)
    (sasl : Option (Sasl ε)) (opts : ManagesieveSessionOpenOptions) (es : List SessionEvent)
    (result : Option (Return ε)) : Prop where
  /-- The run ends at once exactly when STARTTLS is asked of a transport that is protected. -/
  refuses : es = [] ∧ result = some (.error .startTlsOverTls) ↔
    opts.starttls = true ∧ transport.isProtected = true
  /-- Otherwise it connects, first of all and once. -/
  connects : ¬ (opts.starttls = true ∧ transport.isProtected = true) →
    ∃ es', es = connected transport :: es' ∧ ∀ transport', connected transport' ∉ es'
  /-- Nothing is written before a greeting that was accepted. -/
  greets : ∀ es₁ bytes es₂, es = es₁ ++ .yielded (.wantsWrite bytes) :: es₂ →
    ∃ g, connected transport :: g <+: es₁ ∧ OnlyReads g ∧ IsOk (fedOf g).flatten
  /-- The upgrade comes once, over TCP and when it was asked for, and after a greeting that offers
  STARTTLS. -/
  upgrades : ∀ es₁ es₂, es = es₁ ++ upgrade :: es₂ →
    (upgrade ∉ es₁ ∧ upgrade ∉ es₂) ∧ opts.starttls = true ∧
      (∃ host port, transport = .tcp host port) ∧
      ∃ g, connected transport :: g <+: es₁ ∧ OnlyReads g ∧ OffersStartTls (fedOf g).flatten
  /-- AUTHENTICATE is written once, right after the last greeting: the one that the upgrade leads
  to, or the connection when there is none. -/
  authenticates : ∀ es₁ bytes es₂, es = es₁ ++ .yielded (.wantsWrite bytes) :: es₂ →
    IsAuthenticate bytes →
    (∃ es₀ g, es₁ = es₀ ++
        .yielded (if opts.starttls then .wantsTlsUpgrade else .connect transport) :: g ∧
      OnlyReads g ∧ IsOk (fedOf g).flatten) ∧
    (∀ bytes', IsAuthenticate bytes' → .yielded (.wantsWrite bytes') ∉ es₁) ∧
    ∀ y, .yielded y ∈ es₂ →
      y = .wantsRead ∨ ∃ bytes', y = .wantsWrite bytes' ∧ ¬ IsAuthenticate bytes'
  /-- With credentials, the session is opened only after an exchange that succeeded. -/
  completes : ∀ creds data, sasl = some creds → result = some (.ok data) → Signed lib creds es

theorem isProtected_eq_false (h : transport.isProtected = false) :
    ∃ host port, transport = .tcp host port := by
  cases transport with
  | tcp host port => exact ⟨host, port, rfl⟩
  | tls host port => cases h
  | unix path => cases h

/-- **The steps of every run come in order.** -/
theorem inOrder_run (lib : Libraries) (transport : ManagesieveSessionTransport)
    (sasl : Option (Sasl ε)) (opts : ManagesieveSessionOpenOptions) (cs : List Bytes) :
    InOrder lib transport sasl opts (run lib transport sasl opts cs).events
      (run lib transport sasl opts cs).pause.result := by
  have hcourse := openSession_course lib transport sasl opts cs
  rw [run_events, run_result]
  refine ⟨⟨fun h => ?_, fun h => ?_⟩, fun h => ?_, fun es₁ bytes es₂ heq => hcourse.greets heq,
    fun es₁ es₂ heq => ?_, fun es₁ bytes es₂ heq hb => hcourse.authenticates heq hb, ?_⟩
  · rcases hcourse.connects with ⟨-, hrefused⟩ | ⟨-, g, rest, hes, -⟩
    · exact hrefused
    · rw [hes] at h
      simp at h
  · rw [openSession_startTlsOverTls h.1 h.2]
    exact ⟨rfl, rfl⟩
  · rcases hcourse.connects with ⟨-, hrefused⟩ | ⟨-, g, rest, hes, hg, -, hrest⟩
    · exact absurd hrefused h
    · refine ⟨g ++ rest, hes, fun transport' => ?_⟩
      rw [List.mem_append, not_or]
      exact ⟨hg.connected_not_mem transport', hrest transport'⟩
  · obtain ⟨h₁, h₂, hs, hp, hoffers⟩ := hcourse.upgrades heq
    exact ⟨⟨h₁, h₂⟩, hs, isProtected_eq_false hp, hoffers⟩
  · rintro creds data rfl hok
    exact openSession_signed hok

end ManagesieveSessionOpen

end ManageSieve
