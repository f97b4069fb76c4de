import ManageSieve.Rfc5804.Payloads

/-!
# Inlining the initial response

What a mechanism says first goes out with the AUTHENTICATE command, or in answer to the challenge
that a server sends when it got nothing. The main result, `ManagesieveAuthenticate.drive_inlined`,
says that this makes no other difference: behind the payload the two runs are the same, event by
event, whatever is fed to them.

Both runs reach the same client (`Exchange.client`), one from its first phase and the other by the
payload that was pending. What the client writes from there on never comes from that payload
(`Exchange.consume_continues`).
-/

namespace ManageSieve

open Coroutine Reactor

variable {ε : Type*}

/-! ## What is written behind the payload -/

namespace Exchange

variable (lib : Libraries)

/-- What a mechanism that spoke already writes: the cancellation, or what the mechanism says to a
later resume. -/
structure Continues (m : Mechanism ε) (f : Followed (Phase ε) Bytes (Result ε)) : Prop where
  grows : m.history <+: f.verdict.state.mechanism.history
  writes : ∀ bytes ∈ f.writes, bytes = cancellation ∨
    ∃ args, args ≠ [] ∧ m.history ++ args <+: f.verdict.state.mechanism.history ∧
      bytes = clientResponse lib ((m.sasl.payload (m.history ++ args)).getD [])

theorem follow_aborting_writes (m : Mechanism ε) (error : ManagesieveAuthenticateError ε)
    (items : List (ManagesieveLine × ℕ)) :
    ((client lib).follow (.aborting m error) items).writes = [] := by
  induction items with
  | nil => rfl
  | cons item items ih =>
    rcases item with ⟨line | completion, n⟩
    · exact ih
    · rfl

/-- A client that stops wrote nothing to go with it. -/
theorem continues_stopped (m : Mechanism ε) (args : List SaslArg) (r : Result ε)
    (pending : Option Bytes) (n : ℕ) :
    Continues lib m ⟨[], .stopped r (.reading (m.fed args) pending), n⟩ :=
  ⟨List.prefix_append _ _, by simp⟩

/-- Cancelling is the last that is written. -/
theorem continues_cancelled (m : Mechanism ε) (args : List SaslArg)
    (error : ManagesieveAuthenticateError ε) (items : List (ManagesieveLine × ℕ)) (n : ℕ) :
    Continues lib m
      (((client lib).follow (.aborting (m.fed args) error) items).after [cancellation] n) := by
  constructor
  · change m.history <+: ((client lib).follow _ items).verdict.state.mechanism.history
    rw [(follow_aborting lib (m.fed args) error items).1]
    exact List.prefix_append _ _
  · intro bytes hbytes
    simp only [Followed.after, follow_aborting_writes, List.append_nil, List.mem_singleton]
      at hbytes
    exact Or.inl hbytes

/-- An answer to a challenge, before what is written next. -/
theorem Continues.input {m : Mechanism ε} {data : Bytes} {payload : Option Bytes}
    {f : Followed (Phase ε) Bytes (Result ε)} (h : Continues lib (m.fed [.input data]) f)
    (hr : (m.resume (.input data)).1 = .ok payload) (n : ℕ) :
    Continues lib m (f.after [clientResponse lib (payload.getD [])] n) := by
  obtain ⟨hgrows, hwrites⟩ := h
  refine ⟨(List.prefix_append _ _).trans hgrows, fun bytes hbytes => ?_⟩
  rcases List.mem_cons.1 hbytes with rfl | hbytes
  · refine Or.inr ⟨[.input data], by simp, hgrows, ?_⟩
    rw [payload_of_resume hr]
  · rcases hwrites bytes hbytes with hcancel | ⟨args, -, hargs, hw⟩
    · exact Or.inl hcancel
    · have hfed : (m.fed [.input data]).history ++ args = m.history ++ .input data :: args :=
        List.append_assoc m.history [.input data] args
      rw [hfed] at hargs hw
      exact Or.inr ⟨.input data :: args, List.cons_ne_nil _ _, hargs, hw⟩

/-- **What is written behind the payload** is what the mechanism says later, or the cancellation. -/
theorem follow_continues (m : Mechanism ε) (items : List (ManagesieveLine × ℕ)) :
    Continues lib m ((client lib).follow (.reading m none) items) := by
  generalize hp : (none : Option Bytes) = pending
  induction m, pending, items using reading_induction lib with
  | nil m pending => exact ⟨List.prefix_rfl, by simp [Client.follow]⟩
  | unreadable m pending line n items hs hd =>
    rw [Client.follow_stop hd]
    simpa using continues_stopped lib m [] (.error .invalidChallenge) pending n
  | pending m payload line n items hd ih => cases hp
  | invalid m line n items hdata hd =>
    rw [Client.follow_send hd]
    simpa using continues_cancelled lib m [] .invalidBase64 items n
  | input m line data payload n items hdata htakes hr hd ih =>
    rw [Client.follow_send hd]
    exact (ih rfl).input lib hr n
  | refused m line data err n items hdata hrefuses hd =>
    rw [Client.follow_send hd]
    exact continues_cancelled lib m [.input data] err items n
  | completion m pending completion n items hd =>
    rw [Client.follow_stop hd]
    rcases m.complete_cases lib completion pending.isSome with ⟨hc, -⟩ | ⟨err, args, hc, -⟩ <;>
      rw [hc] <;> exact continues_stopped lib m _ _ pending n

theorem consume_continues (m : Mechanism ε) (b : Bytes) :
    Continues lib m ((client lib).consume (.reading m none) b) := by
  obtain ⟨hgrows, hwrites⟩ := follow_continues lib m (lineParser.items b).1
  refine ⟨?_, ?_⟩
  · rw [Client.consume, Client.close_state]
    exact hgrows
  · rw [Client.consume, Client.close_writes, Client.close_state]
    exact hwrites

/-- A challenge that comes as a read of its own while a payload is pending is answered with it, and
the run goes on as if the payload had been sent before. -/
theorem drive_pending (m : Mechanism ε) (payload : Bytes) {challenge : Bytes}
    {line : ManagesieveDataLine}
    (hline : ManagesieveLine.parse challenge = .ok (some (.data line, challenge.length)))
    (cs : List Bytes) :
    (client lib).machine.drive (.reading m (some payload), []) none (challenge :: cs) =
      ((client lib).machine.drive (.reading m none, []) none cs).prepend
        [.yielded .read, .fed challenge, .yielded (.write (clientResponse lib payload))] := by
  have hne : (some challenge : Option Bytes) ≠ some [] := by
    rintro ⟨⟩
    exact absurd (lineParser.pos hline) (Nat.lt_irrefl 0)
  have hnil : ManagesieveLine.parse [] = .ok none := by decide +kernel
  have hasks : (client lib).machine.resume (.reading m (some payload), []) none =
      (.yielded .read, (.reading m (some payload), [])) := by
    rw [Client.machine_resume_of_ne (by simp)]
    exact Client.look_none (c := client lib) hnil
  have hanswers : (client lib).machine.resume (.reading m (some payload), []) (some challenge) =
      (.yielded (.write (clientResponse lib payload)), (.reading m none, [])) := by
    rw [Client.machine_resume_of_ne hne]
    have hd := decide_pending lib (m := m) (ManagesieveLine.string_zero_of_parse hline) payload
    refine (Client.look_some (c := client lib) hline).trans ?_
    rw [hd, List.drop_length]
    rfl
  rw [Machine.drive_read_cons hasks rfl, Machine.drive_yield hanswers rfl]
  rfl

end Exchange

/-! ## Two runs -/

namespace ManagesieveAuthenticate

open Exchange

/-- The run that follows the command, the client having run as `t`. -/
def exchanged (lib : Libraries) (opts : ManagesieveAuthenticateOptions)
    (t : Transcript (Phase ε × Bytes) UInt8 (Request Bytes) (Result ε)) :
    Transcript (ManagesieveAuthenticate ε) UInt8 ManagesieveYield (Return ε) :=
  t.within ofRequest (embed opts) fun r s cs => (machine lib).after (finish opts r s) cs

/-- The same coroutine under other options. -/
def withOpts (opts : ManagesieveAuthenticateOptions) (self : ManagesieveAuthenticate ε) :
    ManagesieveAuthenticate ε :=
  { self with opts }

theorem embed_withOpts (opts opts' : ManagesieveAuthenticateOptions) (s : Phase ε × Bytes) :
    embed opts' s = (embed opts s).withOpts opts' := by
  rcases s with ⟨m | ⟨m, error⟩, buf⟩ <;> rfl

theorem ended_withOpts (opts opts' : ManagesieveAuthenticateOptions) (s : Phase ε × Bytes) :
    ended opts' s = (ended opts s).withOpts opts' := by
  rcases s with ⟨m | ⟨m, error⟩, buf⟩ <;> rfl

/-- Once the command is written, the initial response is no option any more. -/
theorem exchanged_withOpts (lib : Libraries) {opts opts' : ManagesieveAuthenticateOptions}
    (h : opts'.ensureCapabilities = opts.ensureCapabilities)
    (t : Transcript (Phase ε × Bytes) UInt8 (Request Bytes) (Result ε)) :
    exchanged lib opts' t =
      ⟨(exchanged lib opts t).events, (exchanged lib opts t).pause.map (withOpts opts') id,
        (exchanged lib opts t).unfed⟩ := by
  rcases t with ⟨es, s | ⟨err | _, s⟩ | ⟨msg, s⟩, unfed⟩
  · simp only [exchanged, Transcript.within, Pause.map, embed_withOpts opts opts']
  · simp only [exchanged, Transcript.within, finish, Machine.after, Transcript.prepend, Pause.map,
      ended_withOpts opts opts', id]
  · cases he : opts.ensureCapabilities with
    | false =>
      simp only [exchanged, Transcript.within, finish, h, he, Bool.false_eq_true, if_false,
        Machine.after, Transcript.prepend, Pause.map, ended_withOpts opts opts', id]
    | true =>
      simp only [exchanged, Transcript.within, after_accepted s unfed he,
        after_accepted s unfed (h.trans he), Transcript.prepend]
      rcases (ManagesieveResponseRead.machine.drive .new none unfed).pause with
        r | ⟨r, r'⟩ | ⟨msg, r⟩ <;>
        simp only [Pause.map, ended_withOpts opts opts', withOpts, id]
  · simp only [exchanged, Transcript.within, Pause.map, embed_withOpts opts opts']

/-- What a run writes once the initial payload is out: what the mechanism says later in this run,
the cancellation, or CAPABILITY. -/
def IsContinuation (lib : Libraries) (sasl : Sasl ε) (history : List SaslArg) (bytes : Bytes) :
    Prop :=
  bytes = cancellation ∨ bytes = ManagesieveCapabilityGetCommand.toBytes ∨
    ∃ args, args ≠ [] ∧ .none :: args <+: history ∧
      bytes = clientResponse lib ((sasl.payload (.none :: args)).getD [])

theorem RunSpec.isContinuation {lib : Libraries} {sasl : Sasl ε}
    {opts : ManagesieveAuthenticateOptions} {command b : Bytes}
    {t : Transcript (ManagesieveAuthenticate ε) UInt8 ManagesieveYield (Return ε)}
    (h : RunSpec opts command ((client lib).consume (.reading ⟨sasl, [.none]⟩ none) b) t)
    {writes : List Bytes} (hwrites : writesOf t.events = command :: writes) :
    ∀ bytes ∈ writes, IsContinuation lib sasl t.pause.state.history bytes := by
  intro bytes hbytes
  obtain ⟨-, hcontinues⟩ := consume_continues lib ⟨sasl, [.none]⟩ b
  have hhistory : t.pause.state.history = ((client lib).consume (.reading ⟨sasl, [.none]⟩ none)
      b).verdict.state.mechanism.history := by
    rw [history, h.mechanism]
    rfl
  obtain rfl := (List.cons.inj (hwrites.symm.trans h.writes)).2
  rw [hhistory]
  rcases List.mem_append.1 hbytes with hbytes | hbytes
  · rcases hcontinues bytes hbytes with hcancel | hlater
    · exact Or.inl hcancel
    · exact Or.inr (Or.inr hlater)
  · refine Or.inr (Or.inl ?_)
    unfold refresh at hbytes
    split at hbytes
    · split at hbytes
      · exact List.mem_singleton.1 hbytes
      · cases hbytes
    · cases hbytes

/-- The run that sends the payload with its command. -/
theorem drive_new_inlines (lib : Libraries) {sasl : Sasl ε} {payload : Bytes}
    (hopen : opening sasl = .ok (some payload)) (ensureCapabilities : Bool)
    (hinline : inlines sasl ⟨true, ensureCapabilities⟩ = true) (cs : List Bytes) :
    (machine lib).drive (new sasl ⟨true, ensureCapabilities⟩) none cs =
      (exchanged lib ⟨true, ensureCapabilities⟩
        ((client lib).machine.drive (.reading ⟨sasl, [.none]⟩ none, []) none cs)).prepend
          [.yielded (.wantsWrite (ManagesieveAuthenticateCommand.toBytes lib
            ⟨sasl.mechanism, some payload⟩))] := by
  refine (drive_new hopen none cs).trans ?_
  rw [firstPhase, unsent, command, if_pos hinline, if_pos hinline]
  rfl

/-- The run that sends it in answer to a challenge that is read on its own. -/
theorem drive_new_asked (lib : Libraries) {sasl : Sasl ε} {payload : Bytes}
    (hopen : opening sasl = .ok (some payload)) (ensureCapabilities : Bool) {challenge : Bytes}
    {line : ManagesieveDataLine}
    (hline : ManagesieveLine.parse challenge = .ok (some (.data line, challenge.length)))
    (cs : List Bytes) :
    (machine lib).drive (new sasl ⟨false, ensureCapabilities⟩) none (challenge :: cs) =
      ((exchanged lib ⟨false, ensureCapabilities⟩
        ((client lib).machine.drive (.reading ⟨sasl, [.none]⟩ none, []) none cs)).prepend
          [.yielded .wantsRead, .fed challenge,
            .yielded (.wantsWrite (clientResponse lib payload))]).prepend
        [.yielded (.wantsWrite (ManagesieveAuthenticateCommand.toBytes lib
          ⟨sasl.mechanism, none⟩))] := by
  refine (drive_new hopen none (challenge :: cs)).trans ?_
  have hphase : firstPhase sasl ⟨false, ensureCapabilities⟩ (some payload) =
      .reading ⟨sasl, [.none]⟩ (some payload) := rfl
  rw [hphase, drive_pending lib _ payload hline, Transcript.within_prepend]
  rfl

/-- **The inlined initial response agrees with the path over a challenge.** One run sends the
payload with its command, the other in answer to a challenge that is read on its own. Behind the
payload they go through the same events; what they write there is no more of it; and they resumed
the mechanism with the same arguments and end on the same result. -/
theorem drive_inlined (lib : Libraries) {sasl : Sasl ε} {payload : Bytes}
    (hopen : opening sasl = .ok (some payload)) (hlogin : sasl.mechanism ≠ .login)
    (ensureCapabilities : Bool) {challenge : Bytes} {line : ManagesieveDataLine}
    (hline : ManagesieveLine.parse challenge = .ok (some (.data line, challenge.length)))
    (cs : List Bytes) :
    let inlined := (machine lib).drive (new sasl ⟨true, ensureCapabilities⟩) none cs
    let asked := (machine lib).drive (new sasl ⟨false, ensureCapabilities⟩) none (challenge :: cs)
    ∃ es,
      inlined.events =
          .yielded (.wantsWrite (ManagesieveAuthenticateCommand.toBytes lib
            ⟨sasl.mechanism, some payload⟩)) :: es ∧
        asked.events =
          .yielded (.wantsWrite (ManagesieveAuthenticateCommand.toBytes lib
            ⟨sasl.mechanism, none⟩)) :: .yielded .wantsRead :: .fed challenge ::
              .yielded (.wantsWrite (clientResponse lib payload)) :: es ∧
        (∀ bytes ∈ writesOf es, IsContinuation lib sasl inlined.pause.state.history bytes) ∧
        asked.pause.state.history = inlined.pause.state.history ∧
        asked.pause.result = inlined.pause.result ∧ asked.unfed = inlined.unfed := by
  intro inlined asked
  have hinline : inlines sasl ⟨true, ensureCapabilities⟩ = true := by simp [inlines, hlogin]
  have hinlined : inlined = _ := drive_new_inlines lib hopen ensureCapabilities hinline cs
  have hasked : asked = _ := drive_new_asked lib hopen ensureCapabilities hline cs
  have hspec := drive_new_spec lib ⟨true, ensureCapabilities⟩ hopen cs
  rw [firstPhase, unsent, if_pos hinline] at hspec
  change RunSpec _ _ ((client lib).consume _ (fedOf inlined.events).flatten) inlined at hspec
  have hopts := @exchanged_withOpts _ lib ⟨true, ensureCapabilities⟩ ⟨false, ensureCapabilities⟩ rfl
    ((client lib).machine.drive (.reading ⟨sasl, [.none]⟩ none, []) none cs)
  rw [hopts] at hasked
  refine ⟨(exchanged lib ⟨true, ensureCapabilities⟩
    ((client lib).machine.drive (.reading ⟨sasl, [.none]⟩ none, []) none cs)).events, ?_, ?_, ?_,
    ?_, ?_, ?_⟩
  · rw [hinlined]
    rfl
  · rw [hasked]
    rfl
  · apply hspec.isContinuation
    rw [hinlined, command, if_pos hinline]
    rfl
  · rw [hasked, hinlined]
    simp only [Transcript.prepend_pause]
    rcases (exchanged lib ⟨true, ensureCapabilities⟩ _).pause with s | ⟨r, s⟩ | ⟨msg, s⟩ <;> rfl
  · simp only [hasked, hinlined, Transcript.prepend_pause, Pause.result_map, Option.map_id, id]
  · rw [hasked, hinlined]
    rfl

/-- PLAIN, accepted as soon as its payload is out. -/
theorem drive_inlined_plain :
    let sasl : Sasl Unit := ⟨.plain, fun args =>
      if args = [.none] then .yielded (.wantsWrite (asBytes "secret")) else .complete (.ok ())⟩
    let inlined := (machine .standard).drive (new sasl ⟨true, false⟩) none [asBytes "OK\r\n"]
    let asked := (machine .standard).drive (new sasl ⟨false, false⟩) none
      [asBytes "\"\"\r\n", asBytes "OK\r\n"]
    asked.pause.state.history = inlined.pause.state.history ∧
      asked.pause.result = inlined.pause.result := by
  intro sasl inlined asked
  have hline : ManagesieveLine.parse (asBytes "\"\"\r\n") =
      .ok (some (.data ⟨[.string []]⟩, (asBytes "\"\"\r\n").length)) := by decide +kernel
  have hopen : opening sasl = .ok (some (asBytes "secret")) := rfl
  have hlogin : sasl.mechanism ≠ .login := by decide
  obtain ⟨es, -, -, -, hhistory, hresult, -⟩ :=
    drive_inlined .standard hopen hlogin false hline [asBytes "OK\r\n"]
  exact ⟨hhistory, hresult⟩

end ManagesieveAuthenticate

end ManageSieve
