import ManageSieve.Client.Serving
import ManageSieve.Foundations.Dealing
import ManageSieve.Rfc5804.Lockstep

/-!
# Signing in

AUTHENTICATE as the two ends see it. A `SaslServer` answers what a mechanism says with a challenge
or with the end of the exchange; `SaslServer.Converses` is the exchange without lines and reads, the
mechanism and the server talking to each other. What the server says stays a string, which is
decoded as the coroutine decodes it.

The main result, `SaslServer.authenticate_iff`, says that AUTHENTICATE over a stream comes to what
they come to, and to nothing else, and that it leaves the stream as empty as it found it.
-/

namespace ManageSieve

open Coroutine Reactor

/-! ## Servers that authenticate -/

/-- A challenge, as a server sends it: a string on a line of its own. -/
structure Challenge where
  string : Bytes
  bytes : Bytes
  spells : Spells [.string string] bytes
  fits : bytes.length ≤ maxResponse

/-- A challenge that carries nothing. -/
def Challenge.blank : Challenge where
  string := []
  bytes := quoted [] ++ crlf
  spells := .quoted (List.forall_mem_nil _) (.eol .crlf)
  fits := Nat.le_of_ble_eq_true rfl

/-- The end of an exchange, as a server sends it. -/
structure Ending where
  completion : ManagesieveCompletion
  bytes : Bytes
  renders : RendersCompletion completion bytes
  fits : bytes.length ≤ maxResponse

/-- The end of an exchange without a code or a text. -/
def Ending.plain (status : ManagesieveStatus) : Ending where
  completion := Reply.completion status
  bytes := asBytes status.asStr ++ crlf
  renders := Reply.renders_completion status
  fits := (Reply.plain status).fits

/-- What a server says in an exchange. -/
inductive SaslTurn
  | challenge (challenge : Challenge)
  | ended (ending : Ending)

namespace SaslTurn

/-- The turn as it is sent. -/
def bytes : SaslTurn → Bytes
  | challenge sent => sent.bytes
  | ended ending => ending.bytes

/-- The line that it is read as. -/
def line : SaslTurn → ManagesieveLine
  | challenge sent => .data ⟨[.string sent.string]⟩
  | ended ending => .completion ending.completion

theorem length_bytes_le (turn : SaslTurn) : turn.bytes.length ≤ maxResponse := by
  cases turn with
  | challenge sent => exact sent.fits
  | ended ending => exact ending.fits

theorem readsAs (turn : SaslTurn) : ReadsAs turn.bytes turn.line := by
  have hmax : turn.bytes.length ≤ usizeMax := Nat.le_trans turn.length_bytes_le (by decide)
  have hreads : lineParser.Reads turn.bytes turn.line := by
    cases turn with
    | challenge sent => exact lineParser_reads sent.spells hmax rfl
    | ended ending => exact ending.renders.reads hmax
  have hparse := hreads []
  rwa [List.append_nil] at hparse

end SaslTurn

/-- A server that authenticates: how it takes what a mechanism says first, what it says then, and
its cancellation. -/
structure SaslServer (St : Type*) extends Server St where
  start : St → ManagesieveAuthenticateCommand → SaslTurn × St
  respond : St → Bytes → SaslTurn × St
  cancel : St → Ending × St

/-- Whatever the mechanism says fits into the largest literal that is read. -/
def Sasl.Fits {ε : Type*} (lib : Libraries) (sasl : Sasl ε) : Prop :=
  ∀ history payload, saslStep (sasl.answer history) = .ok payload →
    (Argument.payload (payload.getD [])).Fits lib

namespace SaslServer

variable {ε : Type*} {ι St : Type} {lib : Libraries} {server : SaslServer St}

/-- The server at the end of a stream. -/
def listen (lib : Libraries) (server : SaslServer St) : Listener St := fun st tokens =>
  match ClientLine.ofTokens lib tokens with
  | some (.command (.authenticate cmd)) => (server.start st cmd).map SaslTurn.bytes id
  | some (.command cmd) => (server.answer st cmd).map Reply.bytes id
  | some (.response payload) => (server.respond st payload).map SaslTurn.bytes id
  | some .cancel => (server.cancel st).map Ending.bytes id
  | none => (server.refusal.bytes, st)

theorem answers_listen (server : SaslServer St) (lib : Libraries) :
    (server.listen lib).Answers lib server.toServer := by
  intro st tokens cmd hof hcmd
  rw [listen, hof]
  cases cmd with
  | authenticate auth => exact absurd rfl (hcmd auth)
  | _ => rfl

/-! ## The exchange -/

/-- What becomes of the capabilities that the server answers with. -/
def refreshed (reply : Reply) : ManagesieveAuthenticate.Return ε :=
  if reply.response.completion.status = .ok then .ok (.parse reply.response.data)
  else .error (.capability (.rejected reply.response.completion))

/-- The mechanism and the server talk to each other, the server having its turn; `pending` is what
the mechanism said and the client did not send. -/
inductive Converses (lib : Libraries) (server : SaslServer St)
    (opts : ManagesieveAuthenticateOptions) :
    Mechanism ε → Option Bytes → SaslTurn × St → ManagesieveAuthenticate.Return ε × St → Prop
  | answered {m m' : Mechanism ε} {pending payload challenge st out} :
      m.answerChallenge lib pending challenge.string = (.ok payload, m') →
      Converses lib server opts m' none (server.respond st (payload.getD [])) out →
      Converses lib server opts m pending (.challenge challenge, st) out
  | cancelled {m m' : Mechanism ε} {pending err challenge st} :
      m.answerChallenge lib pending challenge.string = (.error err, m') →
      Converses lib server opts m pending (.challenge challenge, st)
        (.error err, (server.cancel st).2)
  | refused {m : Mechanism ε} {pending ending st err} :
      (m.complete lib ending.completion pending.isSome).1 = .error err →
      Converses lib server opts m pending (.ended ending, st) (.error err, st)
  | accepted {m : Mechanism ε} {pending ending st} :
      (m.complete lib ending.completion pending.isSome).1 = .ok () →
      opts.ensureCapabilities = false →
      Converses lib server opts m pending (.ended ending, st) (.ok .default, st)
  | refreshed {m : Mechanism ε} {pending ending st} :
      (m.complete lib ending.completion pending.isSome).1 = .ok () →
      opts.ensureCapabilities = true →
      Converses lib server opts m pending (.ended ending, st)
        (refreshed (server.answer st .capability).1, (server.answer st .capability).2)

/-- What an exchange comes to when the two talk to each other. -/
inductive Authenticates (lib : Libraries) (server : SaslServer St) (sasl : Sasl ε)
    (opts : ManagesieveAuthenticateOptions) (st : St) :
    ManagesieveAuthenticate.Return ε × St → Prop
  | refused {err} : Exchange.opening sasl = .error err →
      Authenticates lib server sasl opts st (.error err, st)
  | opened {payload out} : Exchange.opening sasl = .ok payload →
      Converses lib server opts ⟨sasl, [.none]⟩ (Exchange.unsent sasl opts payload)
        (server.start st ⟨sasl.mechanism, if Exchange.inlines sasl opts then payload else none⟩)
        out →
      Authenticates lib server sasl opts st out


/-! ## What the mechanism says -/

section Mechanism

variable {m m' : Mechanism ε} {pending payload : Option Bytes}

theorem sasl_resume (m : Mechanism ε) (arg : SaslArg) : (m.resume arg).2.sasl = m.sasl := by
  rw [Mechanism.resume_snd]
  rfl

theorem fits_resume (hm : m.sasl.Fits lib) {arg : SaslArg}
    (h : (m.resume arg).1 = .ok payload) : (Argument.payload (payload.getD [])).Fits lib := by
  rw [Mechanism.resume_fst, mapError_eq_ok] at h
  exact hm _ payload h

/-- What answers a challenge fits if all that the mechanism says does. -/
theorem fits_answerChallenge (hm : m.sasl.Fits lib)
    (hpending : ∀ payload ∈ pending, (Argument.payload payload).Fits lib) {challenge : Bytes}
    (h : m.answerChallenge lib pending challenge = (.ok payload, m')) :
    m'.sasl = m.sasl ∧ (Argument.payload (payload.getD [])).Fits lib := by
  unfold Mechanism.answerChallenge at h
  cases pending with
  | some sent =>
    cases h
    exact ⟨rfl, hpending sent rfl⟩
  | none =>
    rcases hd : lib.base64.decode challenge with _ | data <;> rw [hd] at h <;> dsimp only at h
    · cases h
    · have hsasl := sasl_resume m (.input data)
      have hfits := @fits_resume _ lib m payload hm (.input data)
      rw [h] at hsasl hfits
      exact ⟨hsasl, hfits rfl⟩

end Mechanism

/-! ## Over the stream -/

section Stream

open Exchange ManagesieveAuthenticate

variable (opts : ManagesieveAuthenticateOptions) (cut : ℕ → ℕ)

/-- A turn of the client that runs AUTHENTICATE over the stream. -/
abbrev clientTurn (ε ι : Type*) {St : Type} (lib : Libraries) (server : SaslServer St)
    (cut : ℕ → ℕ) :=
  (machine (ε := ε) lib).pumpTurn ((server.listen lib).stream ι cut).transport

/-- Where the client stands when a message of the server is on its way. -/
def awaiting (q : Phase ε) (b : Bytes) (st : St) (clock : ℕ) :
    ManagesieveAuthenticate ε × Option Bytes × Connection St :=
  (embed opts (q, []), none, ⟨st, [], b, clock⟩)

/-- The client reads on to the end of a line. -/
theorem gathers_line (lib : Libraries) {b : Bytes} {line : ManagesieveLine} (hline : ReadsAs b line)
    (hlen : b.length ≤ maxResponse) (q : Phase ε) :
    (machine lib).Gathers (fun heard => embed opts (q, heard)) b where
  asks := ⟨.wantsRead, rfl, resume_ask q⟩
  asks_on {heard a rest} ha hrest hb := by
    subst hb
    refine ⟨.wantsRead, rfl,
      resume_incomplete (by simpa using ha) (ReadsAs.parse_prefix hline hrest) ?_⟩
    rw [List.length_append] at hlen
    exact Nat.le_trans (Nat.le_add_right _ _) hlen

variable (ι server)

/-- It answers the turn of the server once it has it whole. -/
theorem leads_line (lib : Libraries) (turn : SaslTurn) (q : Phase ε) (st : St) (clock : ℕ) :
    ∃ s arg clock', Leads (clientTurn ε ι lib server cut) (awaiting opts q turn.bytes st clock)
        (s, arg, .idle st clock') ∧ (machine lib).resume s arg =
          wrap opts ((client lib).act [] ((client lib).decide q turn.line)) := by
  obtain ⟨cs, clock', hcs, hgives⟩ := (server.listen lib).exists_gives ι cut st turn.bytes clock
  obtain ⟨heard, a, ha, hb, hleads⟩ :=
    (gathers_line opts lib turn.readsAs turn.length_bytes_le q).leads hcs turn.readsAs.ne_nil hgives
  have hline := turn.readsAs
  rw [← hb] at hline
  exact ⟨_, _, clock', hleads, resume_line ha hline⟩

/-- A line that the client writes is answered. -/
theorem clientTurn_write (h : Function.Injective lib.asStr) {s : ManagesieveAuthenticate ε}
    {arg : Option Bytes} (st : St) (clock : ℕ) {line : ClientLine} (hfits : line.Fits lib)
    {q : Phase ε}
    (hr : (machine lib).resume s arg = wrap opts (.yielded (.write (line.toBytes lib)), (q, []))) :
    ∃ tokens, ClientLine.ofTokens lib tokens = some line.normal ∧
      clientTurn ε ι lib server cut (s, arg, .idle st clock) =
        .again (awaiting opts q (server.listen lib st tokens).1 (server.listen lib st tokens).2
          clock) := by
  obtain ⟨tokens, hof, hwrite⟩ := (server.listen lib).writeAll_line h ι cut st clock hfits
  exact ⟨tokens, hof, Machine.pumpTurn_write hr rfl hwrite⟩

/-! ### The turns of the server -/

variable {ι server}
variable {m m' : Mechanism ε} {pending payload : Option Bytes}

/-- A challenge is answered with what the mechanism says. -/
theorem leads_answered (h : Function.Injective lib.asStr) {challenge : Challenge}
    (hfits : (Argument.payload (payload.getD [])).Fits lib)
    (ha : m.answerChallenge lib pending challenge.string = (.ok payload, m')) (st : St)
    (clock : ℕ) :
    ∃ clock', Leads (clientTurn ε ι lib server cut)
      (awaiting opts (.reading m pending) challenge.bytes st clock)
      (awaiting opts (.reading m' none) (server.respond st (payload.getD [])).1.bytes
        (server.respond st (payload.getD [])).2 clock') := by
  obtain ⟨s, arg, clock', hleads, hr⟩ := leads_line ι server opts cut lib (.challenge challenge)
    (.reading m pending) st clock
  have hline : (ClientLine.response (payload.getD [])).Fits lib := hfits
  have hstring : (⟨[.string challenge.string]⟩ : ManagesieveDataLine).string 0 =
      some challenge.string := rfl
  simp only [client, SaslTurn.line, decideReading, hstring, ha] at hr
  obtain ⟨tokens, hof, hturn⟩ := clientTurn_write ι server opts cut h st clock' hline hr
  refine ⟨clock', hleads.trans (.of_again ?_)⟩
  rw [hturn, listen, hof]
  rfl

/-- A challenge that the mechanism refuses is answered with the cancellation, and its reply ends the
exchange. -/
theorem ends_cancelled (h : Function.Injective lib.asStr) {challenge : Challenge}
    {err : ManagesieveAuthenticateError ε}
    (ha : m.answerChallenge lib pending challenge.string = (.error err, m')) (st : St)
    (clock : ℕ) :
    ∃ clock', Ends (clientTurn ε ι lib server cut)
      (awaiting opts (.reading m pending) challenge.bytes st clock)
      (.returned (.error err), .idle (server.cancel st).2 clock') := by
  obtain ⟨s, arg, clock', hleads, hr⟩ := leads_line ι server opts cut lib (.challenge challenge)
    (.reading m pending) st clock
  have hline : ClientLine.cancel.Fits lib := trivial
  have hstring : (⟨[.string challenge.string]⟩ : ManagesieveDataLine).string 0 =
      some challenge.string := rfl
  simp only [client, SaslTurn.line, decideReading, hstring, ha] at hr
  obtain ⟨tokens, hof, hturn⟩ := clientTurn_write ι server opts cut h st clock' hline hr
  rw [listen, hof] at hturn
  obtain ⟨s', arg', clock'', hleads', hr'⟩ := leads_line ι server opts cut lib
    (.ended (server.cancel st).1) (.aborting m' err) (server.cancel st).2 clock'
  exact ⟨clock'', hleads.ends ((Leads.of_again hturn).ends
    (hleads'.ends (Machine.ends_of_complete hr')))⟩

/-- What the client makes of the end of the exchange. -/
theorem leads_ended (ending : Ending) (st : St) (clock : ℕ) :
    ∃ s arg clock' m', Leads (clientTurn ε ι lib server cut)
        (awaiting opts (.reading m pending) ending.bytes st clock) (s, arg, .idle st clock') ∧
      (machine lib).resume s arg =
        finish opts (m.complete lib ending.completion pending.isSome).1
          (.reading m' pending, []) := by
  obtain ⟨s, arg, clock', hleads, hr⟩ := leads_line ι server opts cut lib (.ended ending)
    (.reading m pending) st clock
  exact ⟨s, arg, clock', _, hleads, hr⟩

theorem refreshed_eq (reply : Reply) :
    (refreshed reply : Return ε) =
      (ManagesieveCapabilityGet.finish (.ok ⟨reply.response, []⟩)).mapError .capability := by
  unfold refreshed ManagesieveCapabilityGet.finish
  dsimp only
  rw [ManagesieveClientStd.Method.intoResult_eq]
  split_ifs <;> rfl

/-- After the exchange the capabilities are read to their end. -/
theorem ends_capability {self : ManagesieveAuthenticate ε} (hw : self.wantsRead = false)
    (reply : Reply) (st : St) (clock : ℕ) :
    ∃ clock', Ends (clientTurn ε ι lib server cut)
      ({ self with state := .capability ⟨none, .new⟩ }, none, ⟨st, [], reply.bytes, clock⟩)
      (.returned (refreshed reply), .idle st clock') := by
  have hnests := @nests_capability _ lib _ hw
  have hgathers : (machine lib).Gathers
      (fun heard => { self with state := .capability ⟨none, ⟨false, heard⟩⟩ }) reply.bytes :=
    ((reply.gathers.nests ManagesieveCommandSend.nests_read fun _ => trivial).mapDone
      ManagesieveCapabilityGet.finish).nests hnests fun _ => trivial
  refine (server.listen lib).ends_gathers hgathers reply.bytes_ne_nil ?_ ι cut st clock
  intro heard a ha hb
  rw [refreshed_eq]
  exact ⟨_, hnests.resume_complete trivial (Machine.mapDone_complete _
    (ManagesieveCommandSend.nests_read.resume_complete trivial (reply.resume_whole ha hb)))⟩

/-- An end that is not accepted is an error. -/
theorem ends_refused {ending : Ending} {err : ManagesieveAuthenticateError ε}
    (hc : (m.complete lib ending.completion pending.isSome).1 = .error err) (st : St)
    (clock : ℕ) :
    ∃ clock', Ends (clientTurn ε ι lib server cut)
      (awaiting opts (.reading m pending) ending.bytes st clock)
      (.returned (.error err), .idle st clock') := by
  obtain ⟨s, arg, clock', m', hleads, hr⟩ := leads_ended opts cut ending st clock
  rw [hc] at hr
  exact ⟨clock', hleads.ends (Machine.ends_of_complete hr)⟩

/-- An end that is accepted may be all. -/
theorem ends_accepted (hopts : opts.ensureCapabilities = false) {ending : Ending}
    (hc : (m.complete lib ending.completion pending.isSome).1 = .ok ()) (st : St) (clock : ℕ) :
    ∃ clock', Ends (clientTurn ε ι lib server cut)
      (awaiting opts (.reading m pending) ending.bytes st clock)
      (.returned (.ok .default), .idle st clock') := by
  obtain ⟨s, arg, clock', m', hleads, hr⟩ := leads_ended opts cut ending st clock
  rw [hc, finish, if_neg (by simp [hopts])] at hr
  exact ⟨clock', hleads.ends (Machine.ends_of_complete hr)⟩

/-- Otherwise the capabilities are asked for. -/
theorem ends_refreshed (h : Function.Injective lib.asStr) (hopts : opts.ensureCapabilities = true)
    {ending : Ending} (hc : (m.complete lib ending.completion pending.isSome).1 = .ok ()) (st : St)
    (clock : ℕ) :
    ∃ clock', Ends (clientTurn ε ι lib server cut)
      (awaiting opts (.reading m pending) ending.bytes st clock)
      (.returned (refreshed (server.answer st .capability).1),
        .idle (server.answer st .capability).2 clock') := by
  obtain ⟨s, arg, clock', m', hleads, hr⟩ := leads_ended opts cut ending st clock
  rw [hc, finish, if_pos hopts] at hr
  have hwrite := (server.answers_listen lib).writeAll h ι cut st clock'
    (show ∀ auth, ManagesieveCommand.capability.normal ≠ .authenticate auth from
      fun auth h => by cases h) (by simp [ManagesieveCommand.arguments])
  have hturn : clientTurn ε ι lib server cut (s, arg, .idle st clock') = _ :=
    Machine.pumpTurn_write hr rfl hwrite
  obtain ⟨clock'', hends⟩ := ends_capability cut
    (show (ended opts (.reading m' pending, [])).wantsRead = false from rfl)
    (server.answer st .capability).1 (server.answer st .capability).2 clock'
  exact ⟨clock'', hleads.ends ((Leads.of_again hturn).ends hends)⟩

/-! ### The whole exchange -/

/-- The client comes to what the mechanism and the server come to. -/
theorem Converses.ends (h : Function.Injective lib.asStr)
    {turn : SaslTurn × St} {out : Return ε × St}
    (hconverses : Converses lib server opts m pending turn out) (hm : m.sasl.Fits lib)
    (hpending : ∀ payload ∈ pending, (Argument.payload payload).Fits lib) (clock : ℕ) :
    ∃ clock', Ends (clientTurn ε ι lib server cut)
      (awaiting opts (.reading m pending) turn.1.bytes turn.2 clock)
      (.returned out.1, .idle out.2 clock') := by
  induction hconverses generalizing clock with
  | @answered m m' pending payload challenge st out ha _ ih =>
    obtain ⟨hsasl, hfits⟩ := fits_answerChallenge hm hpending ha
    obtain ⟨clock', hleads⟩ := leads_answered opts cut h hfits ha st clock
    obtain ⟨clock'', hends⟩ := ih (hsasl ▸ hm) (by simp) clock'
    exact ⟨clock'', hleads.ends hends⟩
  | cancelled ha => exact ends_cancelled opts cut h ha _ clock
  | refused hc => exact ends_refused opts cut hc _ clock
  | accepted hc hopts => exact ends_accepted opts cut hopts hc _ clock
  | refreshed hc hopts => exact ends_refreshed opts cut h hopts hc _ clock

/-- What the client comes to, the mechanism and the server come to. -/
theorem converses_of_runFor (h : Function.Injective lib.asStr) (hm : m.sasl.Fits lib)
    (hpending : ∀ payload ∈ pending, (Argument.payload payload).Fits lib) {turn : SaslTurn}
    {st : St} {clock n : ℕ} {out : Pumped (Return ε) ι × Connection St}
    (hn : runFor (clientTurn ε ι lib server cut) n
      (awaiting opts (.reading m pending) turn.bytes st clock) = some out) :
    ∃ r st' clock', Converses lib server opts m pending (turn, st) (r, st') ∧
      out = (.returned r, .idle st' clock') := by
  induction n using Nat.strongRecOn generalizing m pending turn st clock with
  | ind n ih =>
    -- an exchange that either side ends
    have hover : ∀ {r st'}, Converses lib server opts m pending (turn, st) (r, st') →
        ∃ r st' clock', Converses lib server opts m pending (turn, st) (r, st') ∧
          out = (.returned r, .idle st' clock') := by
      intro r st' hconverses
      obtain ⟨clock', hends⟩ := hconverses.ends opts cut h hm hpending clock
      exact ⟨r, st', clock', hconverses, (ends_iff_runFor.2 ⟨n, hn⟩).unique hends⟩
    cases turn with
    | challenge challenge =>
      rcases ha : m.answerChallenge lib pending challenge.string with ⟨err | payload, m'⟩
      · exact hover (.cancelled ha)
      · obtain ⟨hsasl, hfits⟩ := fits_answerChallenge hm hpending ha
        obtain ⟨clock', hleads⟩ := leads_answered opts cut h hfits ha st clock
        obtain ⟨k, hk, hrun⟩ := hleads.runFor_lt hn
        obtain ⟨r, st', clock'', hconverses, rfl⟩ := ih k hk (hsasl ▸ hm) (by simp) hrun
        exact ⟨r, st', clock'', .answered ha hconverses, rfl⟩
    | ended ending =>
      rcases hc : (m.complete lib ending.completion pending.isSome).1 with err | _
      · exact hover (.refused hc)
      · cases hopts : opts.ensureCapabilities with
        | false => exact hover (.accepted hc hopts)
        | true => exact hover (.refreshed hc hopts)

variable {sasl : Sasl ε} {clock : ℕ} {st : St}

/-- What the mechanism says first fits, too. -/
theorem fits_opening (hsasl : sasl.Fits lib) (hopen : opening sasl = .ok payload) :
    ∀ response ∈ payload, (Argument.payload response).Fits lib := by
  have hf := isFramed_of_opening hopen
  rw [opening_of_isFramed hf] at hopen
  have hfits := @fits_resume _ lib ⟨sasl, []⟩ payload hsasl .none hopen
  intro response hresponse
  rw [Option.mem_def] at hresponse
  rwa [hresponse] at hfits

/-- An exchange that is opened awaits the first turn of the server. -/
theorem clientTurn_new (server : SaslServer St) (opts : ManagesieveAuthenticateOptions)
    (cut : ℕ → ℕ) (h : Function.Injective lib.asStr) (hsasl : sasl.Fits lib)
    (hopen : opening sasl = .ok payload) (st : St) (clock : ℕ) :
    clientTurn ε ι lib server cut (ManagesieveAuthenticate.new sasl opts, none, .idle st clock) =
      .again (awaiting opts (firstPhase sasl opts payload)
        (server.start st ⟨sasl.mechanism, if inlines sasl opts then payload else none⟩).1.bytes
        (server.start st ⟨sasl.mechanism, if inlines sasl opts then payload else none⟩).2
        clock) := by
  have hline : (ClientLine.command (.authenticate
      ⟨sasl.mechanism, if inlines sasl opts then payload else none⟩)).Fits lib := by
    refine List.forall_mem_cons.2 ⟨?_, ?_⟩
    · exact Nat.le_trans (lib.length_asStr sasl.mechanism) (by decide)
    · intro argument hargument
      obtain ⟨response, hresponse, rfl⟩ := List.mem_map.1 hargument
      split_ifs at hresponse
      · exact fits_opening hsasl hopen response (Option.mem_toList.1 hresponse)
      · cases hresponse
  obtain ⟨tokens, hof, hwrite⟩ := (server.listen lib).writeAll_line h ι cut st clock hline
  rw [listen, hof] at hwrite
  exact Machine.pumpTurn_write (resume_new hopen none) rfl hwrite

theorem fits_unsent (hsasl : sasl.Fits lib) (hopen : opening sasl = .ok payload) :
    ∀ response ∈ unsent sasl opts payload, (Argument.payload response).Fits lib := by
  unfold unsent
  split_ifs
  · simp
  · exact fits_opening hsasl hopen

/-- AUTHENTICATE comes to what the mechanism and the server come to. -/
theorem Authenticates.ends (h : Function.Injective lib.asStr) (hsasl : sasl.Fits lib)
    {out : Return ε × St} (hout : Authenticates lib server sasl opts st out) (clock : ℕ) :
    ∃ clock', Ends (clientTurn ε ι lib server cut)
      (ManagesieveAuthenticate.new sasl opts, none, .idle st clock)
      (.returned out.1, .idle out.2 clock') := by
  cases hout with
  | refused hopen => exact ⟨clock, Machine.ends_of_complete (resume_new_error hopen none)⟩
  | opened hopen hconverses =>
    obtain ⟨clock', hends⟩ :=
      hconverses.ends (ι := ι) opts cut h hsasl (fits_unsent opts hsasl hopen) clock
    exact ⟨clock', .again (clientTurn_new server opts cut h hsasl hopen st clock) hends⟩

/-- What AUTHENTICATE comes to, the mechanism and the server come to. -/
theorem authenticates_of_ends (h : Function.Injective lib.asStr) (hsasl : sasl.Fits lib)
    {out : Pumped (Return ε) ι × Connection St}
    (hout : Ends (clientTurn ε ι lib server cut)
      (ManagesieveAuthenticate.new sasl opts, none, .idle st clock) out) :
    ∃ r st' clock', Authenticates lib server sasl opts st (r, st') ∧
      out = (.returned r, .idle st' clock') := by
  rcases hopen : opening sasl with err | payload
  · exact ⟨_, _, _, .refused hopen,
      hout.unique (Machine.ends_of_complete (resume_new_error hopen none))⟩
  · have hturn := clientTurn_new (ι := ι) server opts cut h hsasl hopen st clock
    obtain ⟨n, hn⟩ := ends_iff_runFor.1 hout
    obtain ⟨k, -, hrun⟩ := (Leads.of_again hturn).runFor_lt hn
    obtain ⟨r, st', clock', hconverses, rfl⟩ :=
      converses_of_runFor opts cut h hsasl (fits_unsent opts hsasl hopen) hrun
    exact ⟨r, st', clock', .opened hopen hconverses, rfl⟩

end Stream

open ManagesieveClientStd in
/-- **The wire does not show in an exchange.** Over an idle stream, however it cuts what the server
sends, AUTHENTICATE comes to what the mechanism and the server come to when they talk to each other,
and to nothing else; it leaves the stream idle, also when either of them gives up. -/
theorem authenticate_iff {ε ι St : Type} {lib : Libraries} (h : Function.Injective lib.asStr)
    (server : SaslServer St) (cut : ℕ → ℕ) {sasl : Sasl ε} (hsasl : sasl.Fits lib)
    (opts : ManagesieveAuthenticateOptions) (st : St) (clock : ℕ) :
    (∀ r st', Authenticates lib server sasl opts st (r, st') ↔
      ∃ clock', RunsTo ((server.listen lib).stream ι cut) (.authenticate lib sasl opts)
        (.idle st clock) (.returned (r.mapError .authenticate), .idle st' clock')) ∧
    ∀ out, RunsTo ((server.listen lib).stream ι cut) (.authenticate lib sasl opts)
        (.idle st clock) out →
      ∃ (r : ManagesieveAuthenticate.Return ε) (st' : St) (clock' : ℕ),
        out = (.returned (r.mapError .authenticate), .idle st' clock') := by
  have hback : ∀ {out}, RunsTo ((server.listen lib).stream ι cut) (.authenticate lib sasl opts)
      (.idle st clock) out → ∃ r st' clock', Authenticates lib server sasl opts st (r, st') ∧
        out = (.returned (r.mapError .authenticate), .idle st' clock') := by
    intro out hout
    obtain ⟨pumped, hends, rfl⟩ := runsTo_iff_pump.1 hout
    obtain ⟨r, st', clock', hauth, rfl⟩ := authenticates_of_ends opts cut h hsasl hends
    refine ⟨r, st', clock', hauth, ?_⟩
    cases r <;> rfl
  refine ⟨fun r st' => ⟨fun hauth => ?_, ?_⟩, fun out hout => ?_⟩
  · obtain ⟨clock', hends⟩ := hauth.ends (ι := ι) opts cut h hsasl clock
    refine ⟨clock', runsTo_iff_pump.2 ⟨_, hends, ?_⟩⟩
    cases r <;> rfl
  · rintro ⟨clock', hout⟩
    obtain ⟨r', st'', clock'', hauth, heq⟩ := hback hout
    rw [Prod.mk.injEq] at heq
    obtain ⟨hr, hst⟩ := heq
    obtain rfl : st' = st'' := congrArg Connection.server hst
    obtain rfl : r = r' := by
      rcases r with err | a <;> rcases r' with err' | a' <;> cases hr <;> rfl
    exact hauth
  · obtain ⟨r, st', clock', -, heq⟩ := hback hout
    exact ⟨r, st', clock', heq⟩

open ManagesieveClientStd in
/-- LOGIN, which sends the name and the password in answer to two challenges. -/
theorem authenticate_iff_login :
    let sasl : Sasl Unit := ⟨.login, fun
      | [.none] => .yielded (.wantsWrite (asBytes "user"))
      | [.none, .input _] => .yielded (.wantsWrite (asBytes "pass"))
      | _ => .complete (.ok ())⟩
    let server : SaslServer (List Bytes) := {
      answer := fun st _ => (.plain .no, st)
      refusal := .plain .bye
      start := fun st _ => (.challenge .blank, st)
      respond := fun st payload =>
        (if st = [] then .challenge .blank else .ended (.plain .ok), st ++ [payload])
      cancel := fun st => (.plain .no, st) }
    ∃ clock, RunsTo ((server.listen .standard).stream Unit fun _ => 3)
      (.authenticate .standard sasl ⟨true, false⟩) (.idle [] 0)
      (.returned (.ok .default), .idle [asBytes "user", asBytes "pass"] clock) := by
  intro sasl server
  have hsasl : sasl.Fits .standard := by
    intro history payload h
    unfold Argument.Fits
    simp only [sasl] at h
    split at h <;> cases h <;> decide +kernel
  have hblank : (Libraries.standard.base64.decode Challenge.blank.string) = some [] := by
    decide +kernel
  have hopen : Exchange.opening sasl = .ok (some (asBytes "user")) := rfl
  have hname : (⟨sasl, [.none]⟩ : Mechanism Unit).answerChallenge .standard
      (some (asBytes "user")) Challenge.blank.string =
      (.ok (some (asBytes "user")), ⟨sasl, [.none]⟩) := rfl
  have hpassword : (⟨sasl, [.none]⟩ : Mechanism Unit).answerChallenge .standard none
      Challenge.blank.string = (.ok (some (asBytes "pass")), ⟨sasl, [.none, .input []]⟩) := by
    unfold Mechanism.answerChallenge
    rw [hblank]
    rfl
  exact ((authenticate_iff Libraries.standard_asStr_injective server (fun _ => 3) hsasl
    ⟨true, false⟩ [] 0).1 (.ok .default) _).1
    (.opened hopen (.answered hname (.answered hpassword (.accepted rfl rfl))))

end SaslServer

end ManageSieve
