import ManageSieve.Rfc5804.Feeding

/-!
# Where the reads of an exchange are cut

What a run of AUTHENTICATE writes and ends on, against the way the reads cut the bytes of the
server. The exchange itself never shows it: a line that a read went past stays in the buffer. But
the coroutine that reads the capabilities again has a buffer of its own, and what the read that
brought the OK went past is dropped. `ManagesieveAuthenticate.splitInvariant_iff` says when that
shows.
-/

namespace ManageSieve

open Coroutine Reactor

variable {ε : Type*}

/-! ## Reading the capabilities again -/

/-- How the coroutine stands once the bytes `b` came after its CAPABILITY command. -/
def ManagesieveCapabilityGet.outcome (b : Bytes) :
    Pause Unit (ManagesieveAuthenticate.Return ε) :=
  match ManagesieveResponse.parse b with
  | .error err => .finished (.error (.capability (.send (.parseResponse err)))) ()
  | .ok none => .waiting ()
  | .ok (some (response, _)) =>
    .finished ((ManagesieveCapabilityGet.finish (.ok ⟨response, []⟩)).mapError .capability) ()

theorem ManagesieveCapabilityGet.outcome_eq_waiting {b : Bytes}
    (h : (outcome b : Pause Unit (ManagesieveAuthenticate.Return ε)) = .waiting ()) :
    ManagesieveResponse.parse b = .ok none := by
  unfold outcome at h
  rcases hp : ManagesieveResponse.parse b with err | _ | ⟨response, n⟩
  · rw [hp] at h
    cases h
  · rfl
  · rw [hp] at h
    cases h

/-- What is past the response makes no difference to the capabilities. -/
theorem ManagesieveCapabilityGet.finish_trailing (response : ManagesieveResponse)
    (trailing : Bytes) : finish (.ok ⟨response, trailing⟩) = finish (.ok ⟨response, []⟩) := rfl

theorem ManagesieveCapabilityGet.drive_outcome {σ : Type*} {cs : List Bytes} {b : Bytes}
    (hcs : Cuts cs b) (hlen : b.length ≤ maxResponse) (f : ManagesieveResponseRead → σ) :
    (((ManagesieveResponseRead.machine.drive .new none cs).pause.map f
        fun r => (finish r).mapError .capability).map (fun _ => ()) id :
      Pause Unit (ManagesieveAuthenticate.Return ε)) = outcome b := by
  have hends := ManagesieveResponseRead.endsAsParsed hcs hlen
  unfold EndsAsParsed at hends
  unfold outcome
  rcases hp : ManagesieveResponse.parse b with err | _ | ⟨response, n⟩ <;> rw [hp] at hends
  · obtain ⟨s, hs⟩ := hends
    rw [hs]
    rfl
  · obtain ⟨⟨s, hs⟩, -⟩ := hends
    rw [hs]
    rfl
  · obtain ⟨⟨s, hs⟩, -⟩ := hends
    rw [hs]
    simp [Pause.map, finish_trailing response]

namespace ManagesieveAuthenticate

open Exchange

variable {lib : Libraries} {sasl : Sasl ε} {opts : ManagesieveAuthenticateOptions}

/-- What can be seen of a run: what it wrote, and what it ended on if it ended. -/
def observed (t : Transcript (ManagesieveAuthenticate ε) UInt8 ManagesieveYield (Return ε)) :
    List Bytes × Pause Unit (Return ε) :=
  (writesOf t.events, t.pause.map (fun _ => ()) id)

/-- The way reads cut the stream `b` does not show. -/
def SplitInvariant (lib : Libraries) (sasl : Sasl ε) (opts : ManagesieveAuthenticateOptions)
    (b : Bytes) : Prop :=
  ∀ cs cs', Cuts cs b → Cuts cs' b →
    observed ((machine lib).drive (new sasl opts) none cs) =
      observed ((machine lib).drive (new sasl opts) none cs')

/-- The run of the client inside a run. -/
abbrev clientRun (lib : Libraries) (sasl : Sasl ε) (opts : ManagesieveAuthenticateOptions)
    (cs : List Bytes) : Transcript (Phase ε × Bytes) UInt8 (Request Bytes) (Result ε) :=
  (client lib).machine.drive (firstPhase sasl opts (sasl.payload [.none]), []) none cs

/-- What can be seen of a run, the bytes of the server leading the client to the verdict `v`. -/
def seen (opts : ManagesieveAuthenticateOptions) (unfed : Bytes) :
    Verdict (Phase ε) (Result ε) → Pause Unit (Return ε)
  | .going _ => .waiting ()
  | .stopped (.error err) _ => .finished (.error err) ()
  | .stopped (.ok ()) _ =>
    if opts.ensureCapabilities then ManagesieveCapabilityGet.outcome unfed
    else .finished (.ok .default) ()

/-- **What can be seen of a run** is what the client does on the whole stream, and what the reads
that it left hold of the capabilities. -/
theorem observed_drive (hopen : opening sasl = .ok (sasl.payload [.none])) {cs : List Bytes}
    {b : Bytes} (hcs : Cuts cs b) (hlen : b.length ≤ maxResponse) :
    let f := (client lib).consume (firstPhase sasl opts (sasl.payload [.none])) b
    observed ((machine lib).drive (new sasl opts) none cs) =
      (command lib sasl opts (sasl.payload [.none]) :: (f.writes ++ refresh opts f.verdict),
        seen opts (clientRun lib sasl opts cs).unfed.flatten f.verdict) := by
  intro f
  have hcover := Client.drive_covers (c := client lib)
    (firstPhase sasl opts (sasl.payload [.none])) hcs hlen
  have hfed := Machine.fed_append_unfed (m := (client lib).machine)
    (firstPhase sasl opts (sasl.payload [.none]), []) none cs
  rw [drive_new hopen]
  change (client lib).Covers _ b (clientRun lib sasl opts cs) at hcover
  change fedOf (clientRun lib sasl opts cs).events ++ (clientRun lib sasl opts cs).unfed = cs
    at hfed
  change observed (((clientRun lib sasl opts cs).within ofRequest _ _).prepend _) = _
  generalize clientRun lib sasl opts cs = t at hcover hfed ⊢
  obtain ⟨hw, hp⟩ := hcover
  change Reactor.writesOf t.events = f.writes at hw
  change match f.verdict with | _ => _ at hp
  rcases t with ⟨es, pause, unfed⟩
  dsimp only at hw hp hfed
  rcases hv : f.verdict with q | ⟨err | _, q⟩ <;> rw [hv] at hp
  · obtain ⟨⟨rest, rfl⟩, -⟩ := hp
    simp [observed, Transcript.within, Transcript.prepend, writesOf_map_ofRequest, hw, seen,
      refresh, Pause.map]
  · obtain ⟨⟨rest, rfl⟩, -⟩ := hp
    simp [observed, Transcript.within, Transcript.prepend, writesOf_map_ofRequest, hw, seen,
      refresh, Pause.map, finish, Machine.after]
  · obtain ⟨⟨rest, rfl⟩, -⟩ := hp
    cases he : opts.ensureCapabilities with
    | false =>
      simp [observed, Transcript.within, Transcript.prepend, writesOf_map_ofRequest, hw, seen,
        refresh, Pause.map, finish, Machine.after, he]
    | true =>
      have hcuts : Cuts unfed unfed.flatten :=
        ⟨rfl, fun c hc => hcs.ne_nil c (by simp [← hfed, hc])⟩
      have hle : unfed.flatten.length ≤ maxResponse := by
        refine Nat.le_trans ?_ hlen
        rw [← hcs.flatten, ← hfed, List.flatten_append, List.length_append]
        omega
      have hreads := (ManagesieveResponseRead.drive_new_reads unfed).only_reads
      have hout := fun f => ManagesieveCapabilityGet.drive_outcome (ε := ε)
        (σ := ManagesieveAuthenticate ε) hcuts hle f
      simp only [observed, Transcript.within, after_accepted _ _ he, Transcript.prepend_pause, hout,
        seen, he, if_true]
      simp [Transcript.prepend, writesOf_map_ofRequest, hw, refresh, he, writesOf_eq_nil hreads]

theorem line_parse_nil : (client (ε := ε) lib).parser.parse [] = .ok none := by
  have h : ManagesieveLine.parse [] = .ok none := by decide +kernel
  exact h

/-- The reads of an accepted exchange: those the client was fed end it in a success, and the rest of
the stream is left to the coroutine that reads the capabilities. -/
theorem accepts_fed (hopen : opening sasl = .ok (sasl.payload [.none])) {cs : List Bytes}
    {b : Bytes} (hcs : Cuts cs b) (hlen : b.length ≤ maxResponse) (h : Accepts lib sasl opts b) :
    (fedOf (clientRun lib sasl opts cs).events).flatten ++
        (clientRun lib sasl opts cs).unfed.flatten = b ∧
      Accepts lib sasl opts (fedOf (clientRun lib sasl opts cs).events).flatten := by
  have hfed := Machine.fed_append_unfed (m := (client lib).machine)
    (firstPhase sasl opts (sasl.payload [.none]), []) none cs
  have hcover := Client.drive_covers (c := client lib)
    (firstPhase sasl opts (sasl.payload [.none])) hcs hlen
  obtain ⟨q, hq⟩ := (accepts_iff hopen b).1 h
  obtain ⟨-, hp⟩ := hcover
  rw [hq] at hp
  refine ⟨?_, (accepts_iff hopen _).2 ⟨q, ?_⟩⟩
  · rw [← List.flatten_append, hfed, hcs.flatten]
  · rw [hp.2, hq]

/-- One read that holds everything, against one that stops where the exchange was accepted: what
comes past that must not read as a response, nor as an error. -/
theorem SplitInvariant.parse_rest (hopen : opening sasl = .ok (sasl.payload [.none]))
    {pre post : Bytes} (hsplit : SplitInvariant lib sasl opts (pre ++ post))
    (hlen : (pre ++ post).length ≤ maxResponse) (he : opts.ensureCapabilities = true)
    (hpre : Accepts lib sasl opts pre) : ManagesieveResponse.parse post = .ok none := by
  rcases eq_or_ne post [] with rfl | hpost
  · exact parse_nil
  obtain ⟨q, hq⟩ := (accepts_iff hopen pre).1 hpre
  have hne : pre ≠ [] := by
    rintro rfl
    rw [Client.consume_none line_parse_nil] at hq
    cases hq
  have hq' : ((client lib).consume (firstPhase sasl opts (sasl.payload [.none]))
      (pre ++ post)).verdict = .stopped (.ok ()) q := by
    rw [Client.consume_append hq, hq]
  have hlen' : pre.length ≤ maxResponse := by
    rw [List.length_append] at hlen
    omega
  have hne' : pre ++ post ≠ [] := by simp [hne]
  have hcs : Cuts [pre ++ post] (pre ++ post) := ⟨by simp, by simpa using hne'⟩
  have hcs' : Cuts [pre, post] (pre ++ post) := ⟨by simp, by simp [hne, hpost]⟩
  have hun := (Client.drive_first_read (c := client lib) line_parse_nil hne' hlen hq' []).2
  have hun' := (Client.drive_first_read (c := client lib) line_parse_nil hne hlen' hq [post]).2
  have hobs := hsplit [pre ++ post] [pre, post] hcs hcs'
  rw [observed_drive hopen hcs hlen, observed_drive hopen hcs' hlen, Prod.mk.injEq, hq'] at hobs
  have hseen := hobs.2
  simp only [seen, he, if_true] at hseen
  rw [hun, hun', List.flatten_nil, List.flatten_singleton] at hseen
  exact ManagesieveCapabilityGet.outcome_eq_waiting
    (hseen.symm.trans (by rw [ManagesieveCapabilityGet.outcome, parse_nil]))

/-- When nothing past the accepted completion reads as a response, or as an error, every run that
asks for the capabilities waits for them. -/
theorem splitInvariant_of_parse_rest (hopen : opening sasl = .ok (sasl.payload [.none])) {b : Bytes}
    (hlen : b.length ≤ maxResponse)
    (hrest : opts.ensureCapabilities = true → ∀ pre post, pre ++ post = b →
      Accepts lib sasl opts pre → ManagesieveResponse.parse post = .ok none) :
    SplitInvariant lib sasl opts b := by
  intro cs cs' hcs hcs'
  rw [observed_drive hopen hcs hlen, observed_drive hopen hcs' hlen, Prod.mk.injEq]
  refine ⟨rfl, ?_⟩
  rcases hv : ((client lib).consume (firstPhase sasl opts (sasl.payload [.none])) b).verdict with
    q | ⟨err | _, q⟩
  · rfl
  · rfl
  · have haccepts : Accepts lib sasl opts b := (accepts_iff hopen b).2 ⟨q, hv⟩
    cases he : opts.ensureCapabilities with
    | false => simp [seen, he]
    | true =>
      have hnone : ∀ {cs : List Bytes}, Cuts cs b →
          ManagesieveResponse.parse (clientRun lib sasl opts cs).unfed.flatten = .ok none := by
        intro cs hcs
        obtain ⟨hb, hpre⟩ := accepts_fed hopen hcs hlen haccepts
        exact hrest he _ _ hb hpre
      simp [seen, he, ManagesieveCapabilityGet.outcome, hnone hcs, hnone hcs']

/-- **Where the reads are cut shows only in what is left of the stream once the capabilities are
asked for**: never, exactly when no rest of the stream past the accepted completion reads as a
response or as an error. -/
theorem splitInvariant_iff (lib : Libraries) (sasl : Sasl ε) (opts : ManagesieveAuthenticateOptions)
    {b : Bytes} (hlen : b.length ≤ maxResponse) :
    SplitInvariant lib sasl opts b ↔
      (opts.ensureCapabilities = true → ∀ pre post, pre ++ post = b → Accepts lib sasl opts pre →
        ManagesieveResponse.parse post = .ok none) := by
  rcases opening_cases sasl with ⟨hopen, -⟩ | ⟨err, hopen, -⟩
  · constructor
    · rintro hsplit he pre post rfl hpre
      exact hsplit.parse_rest hopen hlen he hpre
    · exact splitInvariant_of_parse_rest hopen hlen
  · -- a mechanism that does not start writes nothing, and nothing can be accepted
    refine iff_of_true (fun cs cs' _ _ => ?_) fun _ pre post _ h => absurd h (not_accepts hopen pre)
    rw [drive_new_error hopen, drive_new_error hopen]
    rfl

/-- A challenge and the OK, cut in any way, when the capabilities are not read again. -/
theorem splitInvariant_iff_challenge :
    SplitInvariant .standard (⟨.plain, fun _ => .complete (.ok ())⟩ : Sasl Unit) ⟨false, false⟩
      (asBytes "\"\"\r\nOK\r\n") :=
  (splitInvariant_iff .standard _ _ (by decide +kernel)).2 fun h => absurd h (by decide)

/-- The OK and the capabilities in one read, then in two: the first run waits for capabilities that
it was sent, the second one ends. -/
theorem not_splitInvariant :
    let sasl : Sasl Unit := ⟨.plain, fun history =>
      if history.length = 1 then .yielded (.wantsWrite (asBytes "p")) else .complete (.ok ())⟩
    let run := (machine .standard).drive (new sasl ⟨true, true⟩) none
    (run [asBytes "OK\r\nOK\r\n"]).pause.result = none ∧
      (run [asBytes "OK\r\n", asBytes "OK\r\n"]).pause.result = some (.ok .default) ∧
      ¬ SplitInvariant .standard sasl ⟨true, true⟩ (asBytes "OK\r\nOK\r\n") := by
  intro sasl run
  have h₁ : (run [asBytes "OK\r\nOK\r\n"]).pause.result = none := by decide +kernel
  have h₂ : (run [asBytes "OK\r\n", asBytes "OK\r\n"]).pause.result = some (.ok .default) := by
    decide +kernel
  refine ⟨h₁, h₂, fun hsplit => ?_⟩
  have hobs := hsplit [asBytes "OK\r\nOK\r\n"] [asBytes "OK\r\n", asBytes "OK\r\n"]
    ⟨by decide +kernel, by decide +kernel⟩ ⟨by decide +kernel, by decide +kernel⟩
  have hresult : ∀ p p' : Pause (ManagesieveAuthenticate Unit) (Return Unit),
      p.map (fun _ => ()) id = p'.map (fun _ => ()) id → p.result = p'.result := by
    rintro (s | ⟨r, s⟩ | ⟨msg, s⟩) (s' | ⟨r', s'⟩ | ⟨msg', s'⟩) h <;> cases h <;> rfl
  have := hresult _ _ (congrArg Prod.snd hobs)
  rw [h₁, h₂] at this
  cases this

end ManagesieveAuthenticate

end ManageSieve
