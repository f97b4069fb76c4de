import ManageSieve.Foundations.Dialogue
import ManageSieve.Rfc5804.Feeding
import ManageSieve.Wire.Language

/-!
# In step with the server

AUTHENTICATE against a server that answers every message with exactly one reply: one line during the
exchange, a completion to its cancellation, one whole response to CAPABILITY (`Replies`). A reply is
of the grammar of responses (`LineFor`, `ResponseOf`), in which a literal is at most `MAX_LITERAL`
octets. The replies come whenever the server likes and are cut into reads in any way;
`ManagesieveAuthenticate.parties` is the two sides. `ManagesieveAuthenticate.lockstep_parties` says
that the coroutine stays in step as long as the reply to a cancellation is no longer than what it
buffers: when it ends, unless on a reply that was too large, it read every reply it was owed and
nothing else.
-/

namespace ManageSieve

open Coroutine Reactor Dialogue

variable {ε : Type*}

/-! ## The server -/

/-- The bytes are exactly one line, and no more than a buffer can hold. -/
def IsLine (reply : Bytes) (line : ManagesieveLine) : Prop :=
  reply.length ≤ isizeMax ∧ LineFor line reply

/-- The bytes are exactly one completion. -/
def IsCompletion (reply : Bytes) : Prop := ∃ completion, IsLine reply (.completion completion)

/-- The bytes are exactly one response, and no more than a buffer can hold. -/
def IsResponse (reply : Bytes) : Prop :=
  reply.length ≤ isizeMax ∧ ∃ response, ResponseOf response reply

/-- What a message of the exchange can be answered with. -/
def Replies (message reply : Bytes) : Prop :=
  if message = cancellation then IsCompletion reply
  else if message = ManagesieveCapabilityGetCommand.toBytes then IsResponse reply
  else (∃ string, IsLine reply (.data ⟨[.string string]⟩)) ∨ IsCompletion reply

/-- A message that is neither the cancellation nor the CAPABILITY command. -/
def IsExchange (message : Bytes) : Prop :=
  message ≠ cancellation ∧ message ≠ ManagesieveCapabilityGetCommand.toBytes

/-- The bytes are read as exactly one line. -/
def ReadsAs (reply : Bytes) (line : ManagesieveLine) : Prop :=
  ManagesieveLine.parse reply = .ok (some (line, reply.length))

/-- A line of the grammar is read as what it says. -/
theorem isLine_iff {reply : Bytes} {line : ManagesieveLine} :
    IsLine reply line ↔ reply.length ≤ isizeMax ∧ ReadsAs reply line := by
  refine and_congr_right fun hmax => ?_
  rw [ReadsAs, ManagesieveLine.parse_lineFor_iff hmax]
  constructor
  · intro h
    exact ⟨reply, [], (List.append_nil _).symm, rfl, h⟩
  · rintro ⟨bytes, tail, rfl, hlen, h⟩
    obtain rfl : tail = [] := by simpa using hlen
    rwa [List.append_nil]

theorem IsLine.readsAs {reply : Bytes} {line : ManagesieveLine} (h : IsLine reply line) :
    ReadsAs reply line :=
  (isLine_iff.1 h).2

theorem IsCompletion.isResponse {reply : Bytes} (h : IsCompletion reply) : IsResponse reply := by
  obtain ⟨completion, hmax, hline⟩ := h
  exact ⟨hmax, _, .completion hline⟩

/-- A response of the grammar is read. -/
theorem IsResponse.parse {reply : Bytes} (h : IsResponse reply) :
    ∃ response, ManagesieveResponse.parse reply = .ok (some (response, reply.length)) := by
  obtain ⟨hmax, response, hresponse⟩ := h
  rw [← List.append_nil reply] at hmax
  have hparse := ManagesieveResponse.parse_of_responseOf hmax hresponse
  rw [List.append_nil] at hparse
  exact ⟨response, hparse⟩

theorem isCompletion_ok : IsCompletion (asBytes "OK\r\n") := by
  refine ⟨⟨.ok, none, none⟩, isLine_iff.2 ⟨by decide +kernel, ?_⟩⟩
  unfold ReadsAs
  decide +kernel

theorem replies_cancellation {reply : Bytes} (h : Replies cancellation reply) :
    ∃ completion, ReadsAs reply (.completion completion) := by
  rw [Replies, if_pos rfl] at h
  exact h.imp fun _ h => h.readsAs

theorem replies_capability {reply : Bytes}
    (h : Replies ManagesieveCapabilityGetCommand.toBytes reply) :
    ∃ response, ManagesieveResponse.parse reply = .ok (some (response, reply.length)) := by
  rw [Replies, if_neg (by decide +kernel), if_pos rfl] at h
  exact h.parse

theorem replies_exchange {message reply : Bytes} (hm : IsExchange message)
    (h : Replies message reply) :
    (∃ string, ReadsAs reply (.data ⟨[.string string]⟩)) ∨
      ∃ completion, ReadsAs reply (.completion completion) := by
  rw [Replies, if_neg hm.1, if_neg hm.2] at h
  exact h.imp (fun h => h.imp fun _ h => h.readsAs) fun h => h.imp fun _ h => h.readsAs

theorem ReadsAs.ne_nil {reply : Bytes} {line : ManagesieveLine} (h : ReadsAs reply line) :
    reply ≠ [] := by
  have := lineParser.pos h
  exact List.length_pos_iff.1 this

theorem IsResponse.ne_nil {reply : Bytes} (h : IsResponse reply) : reply ≠ [] := by
  have := responseParser.pos h.parse.choose_spec
  exact List.length_pos_iff.1 this

theorem Replies.ne_nil {message reply : Bytes} (h : Replies message reply) : reply ≠ [] := by
  unfold Replies at h
  split_ifs at h
  · exact h.isResponse.ne_nil
  · exact h.ne_nil
  · rcases h with ⟨string, h⟩ | h
    · exact h.readsAs.ne_nil
    · exact h.isResponse.ne_nil

/-! ## The messages -/

theorem escapeByte_ne_nil (b : UInt8) : escapeByte b ≠ [] := by
  unfold escapeByte
  split_ifs <;> simp

/-- Only a star is escaped as a star. -/
theorem eq_star_of_flatMap {value : Bytes} (h : value.flatMap escapeByte = [star]) :
    value = [star] := by
  cases value with
  | nil => cases h
  | cons b value =>
    rw [List.flatMap_cons] at h
    unfold escapeByte at h
    split_ifs at h
    · cases h
    · obtain ⟨rfl, hrest⟩ := List.cons.inj h
      cases value with
      | nil => rfl
      | cons b value =>
        have hnil : escapeByte b ++ value.flatMap escapeByte = [] := hrest
        exact absurd (List.append_eq_nil_iff.1 hnil).1 (escapeByte_ne_nil b)

/-- A continuation line is a message of the exchange. -/
theorem isExchange_clientResponse (lib : Libraries) (payload : Bytes) :
    IsExchange (clientResponse lib payload) := by
  have hcancel : cancellation = dquote :: ([star] ++ ([dquote] ++ crlf)) := by decide +kernel
  have hcapability : ManagesieveCapabilityGetCommand.toBytes.head? = some 67 := by decide +kernel
  unfold clientResponse
  rcases string_cases (lib.base64.encode payload) with ⟨hs, -⟩ | hs <;> rw [hs]
  · refine ⟨fun h => ?_, fun h => ?_⟩
    · rw [hcancel, quoted] at h
      simp only [List.cons_append, List.append_assoc, List.cons.injEq, true_and] at h
      have hstar : (lib.base64.encode payload).flatMap escapeByte ++ dquote :: crlf =
          [star] ++ dquote :: crlf := h
      exact encode_ne_star lib payload (eq_star_of_flatMap (List.append_cancel_right hstar))
    · rw [← h] at hcapability
      revert hcapability
      simp [quoted, dquote]
  · refine ⟨fun h => ?_, fun h => ?_⟩
    · rw [hcancel, literal, literalMarker] at h
      exact absurd (List.cons.inj h).1 (by decide)
    · rw [← h] at hcapability
      revert hcapability
      simp [literal, literalMarker, openBrace]

/-- The command that opens the exchange is a message of the exchange. -/
theorem isExchange_command (lib : Libraries) (cmd : ManagesieveAuthenticateCommand) :
    IsExchange (cmd.toBytes lib) := by
  have h := cmd.head?_toBytes lib
  refine ⟨fun hc => ?_, fun hc => ?_⟩
  · rw [hc] at h
    revert h
    decide +kernel
  · rw [hc] at h
    revert h
    decide +kernel

/-! ## A reply longer than the buffer -/

/-- A refusal that carries two literals. -/
def longReply (value : Bytes) : Bytes :=
  asBytes "NO" ++ space :: openParen :: (asBytes "X" ++ space ::
    (literalMarker true value.length ++ (crlf ++ (value ++ closeParen :: space ::
      (literalMarker true value.length ++ (crlf ++ (value ++ crlf)))))))

theorem length_longReply {value : Bytes} (h : value.length ≤ maxLiteral) :
    2 * value.length ≤ (longReply value).length ∧ (longReply value).length ≤ isizeMax := by
  have hd : (decimal value.length).length ≤ 8 :=
    length_decimal_le (Nat.lt_of_le_of_lt h (by decide)) (by decide)
  have hno : (asBytes "NO").length = 2 := by decide +kernel
  have hx : (asBytes "X").length = 1 := by decide +kernel
  unfold maxLiteral at h
  unfold isizeMax
  simp only [longReply, literalMarker, crlf, List.length_append, List.length_cons, List.length_nil,
    if_true]
  omega

/-- It is one completion line. -/
theorem readsAs_longReply {value : Bytes} (h : value.length ≤ maxLiteral) :
    ReadsAs (longReply value)
      (.completion ⟨.no, some (.other (text (asBytes "X"))), some (text value)⟩) := by
  have hspells : Spells [.atom (asBytes "NO"), .open_, .atom (asBytes "X"), .string value, .close,
      .string value] (longReply value) :=
    .atom (by decide +kernel) rfl (.blank (.open_ (.atom (by decide +kernel) rfl (.blank
      (.literal true .crlf h (.close (.blank (.literal true .crlf h (.eol .crlf)))))))))
  have hscan := scanLine_spells hspells
    ((length_longReply h).2.trans (by decide : isizeMax ≤ usizeMax)) []
  rw [List.append_nil] at hscan
  have hstatus : parseStatus (asBytes "NO") = .ok .no := by decide +kernel
  have hcode : namedCode (asBytes "X") value = .other (text (asBytes "X")) := by
    have hsplit : splitName (asBytes "X") = (asBytes "X", none) := by decide +kernel
    rw [namedCode, hsplit]
    rfl
  unfold ReadsAs ManagesieveLine.parse
  rw [hscan]
  simp [parseLine, parseCompletion, hstatus, splitCode, parseCode, hcode, codeArgument,
    completionText, List.findIdx?_cons]

/-- A refusal whose text is one literal. -/
def literalReply (value : Bytes) : Bytes :=
  asBytes "NO" ++ space :: (literalMarker true value.length ++ (crlf ++ (value ++ crlf)))

/-- Its literal is not read when it is too large, nor is anything behind its marker. -/
theorem literalReply_eq {value : Bytes} (h : value.length = maxLiteral + 1) :
    literalReply value = asBytes "NO {8388609}\r\n" ++ (value ++ crlf) := by
  have hmarker : asBytes "NO" ++ space :: (literalMarker true (maxLiteral + 1) ++ crlf) =
      asBytes "NO {8388609}\r\n" := by decide +kernel
  rw [literalReply, h, ← hmarker]
  simp

/-! ## The two sides -/

namespace ManagesieveAuthenticate

open Exchange

variable {lib : Libraries} {opts : ManagesieveAuthenticateOptions}

/-- The coroutine and a server whose replies to a cancellation are at most `limit` bytes long, when
there is a limit. -/
def parties (lib : Libraries) (limit : Option ℕ) :
    Parties (ManagesieveAuthenticate ε) UInt8 ManagesieveYield (Return ε) Bytes where
  machine := machine lib
  message y := y.written.getD []
  replies message reply :=
    Replies message reply ∧ (message = cancellation → ∀ n ∈ limit, reply.length ≤ n)

/-- The coroutine gave up on a reply that did not fit its buffer, and says so. -/
def TooLarge (r : Return ε) : Prop :=
  r = .error (.send .responseTooLarge) ∨ r = .error (.capability (.send .responseTooLarge))

/-- The message that a phase waits to have answered. -/
def Sent (message : Bytes) : Phase ε → Prop
  | .reading _ _ => IsExchange message
  | .aborting _ _ => message = cancellation

/-- The coroutine waits for the rest of the reply to a message, having read `heard` of it. -/
inductive Awaits (opts : ManagesieveAuthenticateOptions) :
    ManagesieveAuthenticate ε → Bytes → Bytes → Prop
  | exchange {q : Phase ε} {message heard : Bytes} (h : Sent message q) :
      Awaits opts (embed opts (q, heard)) message heard
  | capability {self : ManagesieveAuthenticate ε} {heard : Bytes} (hw : self.wantsRead = false)
      (hb : self.buf = []) :
      Awaits opts { self with state := .capability ⟨none, ⟨false, heard⟩⟩ }
        ManagesieveCapabilityGetCommand.toBytes heard

/-- Nothing of what was read since the last message is left over. -/
def Drained (self : ManagesieveAuthenticate ε) (heard : Bytes) : Prop :=
  self.buf = [] ∧
    match self.state with
    | .capability capability => capability.read.buf = heard
    | _ => True

theorem drained_ended (q : Phase ε) (heard : Bytes) : Drained (ended opts (q, [])) heard := by
  cases q <;> exact ⟨rfl, trivial⟩

variable {limit : Option ℕ}

/-- The end of the exchange leaves nothing unread, and may be followed by CAPABILITY. -/
theorem answers_finish (r : Result ε) (q : Phase ε) (message reply : Bytes) :
    Dialogue.Answers (parties lib limit) TooLarge (Awaits opts) Drained message reply reply
      (finish opts r (q, [])) := by
  rcases r with err | _
  · exact Or.inr ⟨rfl, drained_ended q reply⟩
  · unfold finish
    dsimp only
    split_ifs
    · exact ⟨rfl, .capability (by cases q <;> rfl) (by cases q <;> rfl)⟩
    · exact Or.inr ⟨rfl, drained_ended q reply⟩

theorem answers_send {q : Phase ε} {w : Bytes} (hsent : Sent w q) (message reply : Bytes) :
    Dialogue.Answers (parties lib limit) TooLarge (Awaits opts) Drained message reply reply
      (wrap opts (.yielded (.write w), (q, []))) :=
  ⟨rfl, .exchange hsent⟩

/-- What a phase does with the reply to its message, once it was read whole. -/
theorem answers_line {q : Phase ε} {message reply : Bytes} {line : ManagesieveLine}
    (hsent : Sent message q) (hreplies : Replies message reply) (hline : ReadsAs reply line) :
    Dialogue.Answers (parties lib limit) TooLarge (Awaits opts) Drained message reply reply
      (wrap opts ((client lib).act [] ((client lib).decide q line))) := by
  have hsame : ∀ {line'}, ReadsAs reply line' → line = line' := by
    intro line' h
    have := hline.symm.trans h
    cases this
    rfl
  cases q with
  | reading m pending =>
    rcases replies_exchange hsent hreplies with ⟨string, h⟩ | ⟨completion, h⟩
    · obtain rfl := hsame h
      have hstring : (⟨[.string string]⟩ : ManagesieveDataLine).string 0 = some string := rfl
      rcases hans : m.answerChallenge lib pending string with ⟨err | payload, m'⟩
      · have hd : (client lib).decide (.reading m pending) (.data ⟨[.string string]⟩) =
            .send cancellation (.aborting m' err) := by
          simp only [client, decideReading, hstring, hans]
        rw [hd]
        exact answers_send (q := .aborting m' err) rfl message reply
      · have hd : (client lib).decide (.reading m pending) (.data ⟨[.string string]⟩) =
            .send (clientResponse lib (payload.getD [])) (.reading m' none) := by
          simp only [client, decideReading, hstring, hans]
        rw [hd]
        exact answers_send (q := .reading m' none) (isExchange_clientResponse lib _) message reply
    · obtain rfl := hsame h
      exact answers_finish _ _ message reply
  | aborting m error =>
    obtain rfl : message = cancellation := hsent
    obtain ⟨completion, h⟩ := replies_cancellation hreplies
    obtain rfl := hsame h
    exact answers_finish (.error error) (.aborting m error) cancellation reply

theorem exists_line {q : Phase ε} {message reply : Bytes} (hsent : Sent message q)
    (hreplies : Replies message reply) : ∃ line, ReadsAs reply line := by
  cases q with
  | reading m pending =>
    rcases replies_exchange hsent hreplies with ⟨string, h⟩ | ⟨completion, h⟩ <;> exact ⟨_, h⟩
  | aborting m error =>
    obtain rfl : message = cancellation := hsent
    obtain ⟨completion, h⟩ := replies_cancellation hreplies
    exact ⟨_, h⟩

/-- A line that was read whole is answered. -/
theorem resume_line {q : Phase ε} {heard a : Bytes} {line : ManagesieveLine} (ha : a ≠ [])
    (hline : ReadsAs (heard ++ a) line) :
    (machine lib).resume (embed opts (q, heard)) (some a) =
      wrap opts ((client lib).act [] ((client lib).decide q line)) := by
  rw [resume_embed, Client.machine_resume_of_ne (by simpa using ha)]
  dsimp only [Option.getD_some]
  rw [Client.look_some (c := client lib) hline, List.drop_length]

/-- The rest of an incomplete line is asked for. -/
theorem resume_incomplete {q : Phase ε} {heard : Bytes} {arg : Option Bytes} (harg : arg ≠ some [])
    (hparse : ManagesieveLine.parse (heard ++ arg.getD []) = .ok none)
    (hlen : (heard ++ arg.getD []).length ≤ maxResponse) :
    (machine lib).resume (embed opts (q, heard)) arg =
      (.yielded .wantsRead, embed opts (q, heard ++ arg.getD [])) := by
  rw [resume_embed, Client.machine_resume_of_ne harg, Client.look_none (c := client lib) hparse,
    if_neg (show ¬ (client lib).ceiling < _ from Nat.not_lt.2 hlen)]
  rfl

/-- With nothing of a line at hand it is asked for. -/
theorem resume_ask (q : Phase ε) :
    (machine lib).resume (embed opts (q, [])) none = (.yielded .wantsRead, embed opts (q, [])) :=
  resume_incomplete (by simp) (by decide +kernel) (Nat.zero_le _)

/-- An incomplete line that does not fit the buffer ends the exchange. -/
theorem resume_overflow {q : Phase ε} {heard a : Bytes} (ha : a ≠ [])
    (hparse : ManagesieveLine.parse (heard ++ a) = .ok none)
    (hlen : maxResponse < (heard ++ a).length) :
    (machine lib).resume (embed opts (q, heard)) (some a) =
      finish opts ((client lib).onOverflow q) (q, heard ++ a) := by
  rw [resume_embed, Client.machine_resume_of_ne (by simpa using ha)]
  dsimp only [Option.getD_some]
  rw [Client.look_none (c := client lib) hparse,
    if_pos (show (client lib).ceiling < _ from hlen)]
  rfl

/-- The prefixes of a line are incomplete. -/
theorem ReadsAs.parse_prefix {heard rest : Bytes} {line : ManagesieveLine}
    (hline : ReadsAs (heard ++ rest) line) (hrest : rest ≠ []) :
    ManagesieveLine.parse heard = .ok none := by
  have hparse := lineParser.parse_prefix (List.prefix_append heard rest) hline
  have hpos := List.length_pos_iff.2 hrest
  rwa [List.length_append, if_neg (by omega)] at hparse

/-- While a line is read, the coroutine asks for the rest of it; then it answers it. -/
theorem answers_exchange {q : Phase ε} {message heard a rest : Bytes} (ha : a ≠ [])
    (hsent : Sent message q)
    (hreplies : (parties (ε := ε) lib (some maxResponse)).replies message (heard ++ a ++ rest)) :
    Dialogue.Answers (parties lib (some maxResponse)) TooLarge (Awaits opts) Drained message
      (heard ++ a ++ rest)
      (heard ++ a) ((machine lib).resume (embed opts (q, heard)) (some a)) := by
  obtain ⟨hreplies, hlen⟩ := hreplies
  obtain ⟨line, hline⟩ := exists_line hsent hreplies
  rcases eq_or_ne rest [] with rfl | hrest
  · rw [List.append_nil] at hreplies hline ⊢
    rw [resume_line ha hline]
    exact answers_line hsent hreplies hline
  · have hparse := ReadsAs.parse_prefix hline hrest
    rcases Nat.lt_or_ge maxResponse (heard ++ a).length with hover | hmax
    · rw [resume_overflow ha hparse hover]
      cases q with
      | reading m pending => exact Or.inl (Or.inl rfl)
      | aborting m error =>
        have hfits := hlen hsent maxResponse rfl
        rw [List.length_append] at hfits
        omega
    · rw [resume_incomplete (show some a ≠ some [] by simpa using ha) hparse hmax]
      exact ⟨by simpa using hrest, .exchange hsent⟩

/-- While the capabilities are read, the coroutine asks for the rest of them; then it ends. -/
theorem answers_capability {self : ManagesieveAuthenticate ε} {heard a rest : Bytes} (ha : a ≠ [])
    (hw : self.wantsRead = false) (hb : self.buf = [])
    (hreplies : (parties (ε := ε) lib (some maxResponse)).replies
      ManagesieveCapabilityGetCommand.toBytes (heard ++ a ++ rest)) :
    Dialogue.Answers (parties lib (some maxResponse)) TooLarge (Awaits opts) Drained
      ManagesieveCapabilityGetCommand.toBytes (heard ++ a ++ rest) (heard ++ a)
      ((machine lib).resume { self with state := .capability ⟨none, ⟨false, heard⟩⟩ }
        (some a)) := by
  obtain ⟨response, hresponse⟩ := replies_capability hreplies.1
  have hread := ManagesieveResponseRead.resume_some heard ha
  have hinner : ManagesieveCapabilityGet.machine.resume ⟨none, ⟨false, heard⟩⟩ (some a) =
      ((ManagesieveResponseRead.resume ⟨false, heard⟩ (some a)).1.map
          ManagesieveCapabilityGet.finish,
        ⟨none, (ManagesieveResponseRead.resume ⟨false, heard⟩ (some a)).2⟩) := rfl
  rw [hread] at hinner
  rcases eq_or_ne rest [] with rfl | hrest
  · rw [List.append_nil] at hresponse ⊢
    rw [hresponse] at hinner
    rw [(nests_capability lib hw).resume_complete trivial hinner]
    exact Or.inr ⟨rfl, hb, List.take_length⟩
  · have hparse := responseParser.parse_prefix (List.prefix_append (heard ++ a) rest) hresponse
    have hpos := List.length_pos_iff.2 hrest
    rw [List.length_append, if_neg (by omega), responseParser_parse] at hparse
    rw [hparse] at hinner
    dsimp only at hinner
    rcases Nat.lt_or_ge maxResponse (heard ++ a).length with hover | hmax
    · rw [if_pos hover] at hinner
      rw [(nests_capability lib hw).resume_complete trivial hinner]
      exact Or.inl (Or.inr rfl)
    · rw [if_neg (Nat.not_lt.2 hmax)] at hinner
      rw [(nests_capability lib hw).resume_yielded trivial hinner]
      exact ⟨by simpa using hrest, .capability hw hb⟩

/-- **AUTHENTICATE is in lockstep** with a server whose replies to a cancellation fit its buffer. -/
theorem lockstep_parties (lib : Libraries) (opts : ManagesieveAuthenticateOptions) :
    Lockstep (parties (ε := ε) lib (some maxResponse)) TooLarge
      (fun self => ∃ sasl, self = new sasl opts) (Awaits opts) Drained where
  replies_ne_nil h := h.1.ne_nil
  starts := by
    rintro s ⟨sasl, rfl⟩
    rcases opening_cases sasl with ⟨hopen, -⟩ | ⟨err, hopen, -⟩
    · have hr : (parties lib (some maxResponse)).machine.resume (new sasl opts) none = _ :=
        resume_new hopen none
      rw [hr]
      exact ⟨rfl, .exchange (isExchange_command lib _)⟩
    · have hr : (parties lib (some maxResponse)).machine.resume (new sasl opts) none = _ :=
        resume_new_error hopen none
      rw [hr]
      exact ⟨rfl, trivial⟩
  asks := by
    intro s w h
    cases h with
    | @exchange q _ _ hsent =>
      exact ⟨.wantsRead, embed opts (q, []), resume_ask q, rfl, .exchange hsent⟩
    | @capability self _ hw hb =>
      refine ⟨.wantsRead, { self with state := .capability ⟨none, ⟨false, []⟩⟩ }, ?_, rfl,
        .capability hw hb⟩
      have hinner : ManagesieveCapabilityGet.machine.resume ⟨none, ⟨false, []⟩⟩ none =
          ((ManagesieveResponseRead.resume ⟨false, []⟩ none).1.map ManagesieveCapabilityGet.finish,
            ⟨none, (ManagesieveResponseRead.resume ⟨false, []⟩ none).2⟩) := rfl
      rw [ManagesieveResponseRead.resume_none] at hinner
      exact (nests_capability lib hw).resume_yielded trivial hinner
  answers := by
    intro s w heard a rest h ha hreplies
    cases h with
    | exchange hsent => exact answers_exchange ha hsent hreplies
    | capability hw hb => exact answers_capability ha hw hb hreplies

/-- **AUTHENTICATE stays in step with a server whose replies to a cancellation fit its buffer**, the
literals of all its replies being within `MAX_LITERAL`, in every configuration that the two sides can
reach and whatever the coroutine ended on, unless it was another reply that did not fit. -/
theorem inStep_authenticate (lib : Libraries) (sasl : Sasl ε) (opts : ManagesieveAuthenticateOptions)
    {c : Config (ManagesieveAuthenticate ε) UInt8 (Return ε) Bytes}
    (h : Reachable (parties lib (some maxResponse)) (new sasl opts) c) : InStep TooLarge Drained c :=
  (lockstep_parties lib opts).inStep ⟨sasl, rfl⟩ h

/-- A whole exchange, its reply in two reads. -/
theorem inStep_authenticate_plain :
    let sasl : Sasl Unit := ⟨.plain, fun _ => .complete (.ok ())⟩
    let m : Mechanism Unit := ⟨sasl, [.none, .done]⟩
    InStep TooLarge Drained
      (⟨.finished (.ok .default) (ended ⟨true, false⟩ (.reading m none, [])), [], [],
      asBytes "OK\r\n"⟩ : Config (ManagesieveAuthenticate Unit) UInt8 (Return Unit) Bytes) := by
  intro sasl m
  let q : Phase Unit := .reading ⟨sasl, [.none]⟩ none
  have hexchange : IsExchange (command .standard sasl ⟨true, false⟩ none) :=
    isExchange_command .standard _
  have hline : ReadsAs (asBytes "OK\r\n") (.completion ⟨.ok, none, none⟩) := by
    unfold ReadsAs
    decide +kernel
  have hreply : (parties (ε := Unit) .standard (some maxResponse)).replies
      (command .standard sasl ⟨true, false⟩ none) (asBytes "OK\r\n") := by
    refine ⟨?_, fun h => absurd h hexchange.1⟩
    rw [Replies, if_neg hexchange.1, if_neg hexchange.2]
    exact Or.inr isCompletion_ok
  have hcuts : Cuts [asBytes "OK\r", [lf]] (asBytes "OK\r\n") :=
    ⟨by decide +kernel, by decide +kernel⟩
  have hstart := @resume_new Unit .standard sasl ⟨true, false⟩ none rfl none
  have hask := @resume_ask Unit .standard ⟨true, false⟩ q
  have hmore := @resume_incomplete Unit .standard ⟨true, false⟩ q [] (some (asBytes "OK\r"))
    (by decide +kernel) (by decide +kernel) (by decide +kernel)
  have hend := @resume_line Unit .standard ⟨true, false⟩ q (asBytes "OK\r") [lf] _ (by decide)
    hline
  refine inStep_authenticate .standard sasl ⟨true, false⟩ ?_
  exact Relation.ReflTransGen.refl.tail (Step.write hstart rfl) |>.tail (Step.ask hask rfl)
    |>.tail (Step.reply hreply hcuts) |>.tail Step.deliver |>.tail (Step.ask hmore rfl)
    |>.tail Step.deliver |>.tail (Step.complete hend)

/-- A line that is refused ends the wait for the reply to a cancellation. -/
theorem resume_unreadable {m : Mechanism ε} {error : ManagesieveAuthenticateError ε}
    {heard a : Bytes} {err : ManagesieveResponseParseError} (ha : a ≠ [])
    (hparse : ManagesieveLine.parse (heard ++ a) = .error err) :
    (machine lib).resume (embed opts (.aborting m error, heard)) (some a) =
      finish opts (.error error) (.aborting m error, heard ++ a) := by
  rw [resume_embed, Client.machine_resume_of_ne (by simpa using ha)]
  dsimp only [Option.getD_some]
  rw [Client.look_error (c := client lib) hparse]
  rfl

/-- A mechanism that has nothing to say. -/
def silent : Sasl Unit := ⟨.plain, fun _ => .complete (.ok ())⟩

/-- A challenge that is not base64, and a reply to the cancellation that is given up on after its
first read: the coroutine ends with the rest of it on the stream. -/
theorem reachable_abandoned {replies : Bytes → Bytes → Prop} {front back : Bytes}
    (hchallenge : replies (command .standard silent ⟨true, false⟩ none) (asBytes "\"!\"\r\n"))
    (hrefusal : replies cancellation (front ++ back)) (hfront : front ≠ []) (hback : back ≠ [])
    (hends : ∀ m : Mechanism Unit,
      (machine .standard).resume (embed ⟨true, false⟩ (.aborting m .invalidBase64, []))
        (some front) = finish ⟨true, false⟩ (.error .invalidBase64)
          (.aborting m .invalidBase64, front)) :
    ∃ s, Reachable { parties .standard none with replies := replies } (new silent ⟨true, false⟩)
      ⟨.finished (.error .invalidBase64) s, [], [back], front⟩ := by
  let m : Mechanism Unit := ⟨silent, [.none]⟩
  let q : Phase Unit := .aborting m .invalidBase64
  have hline : ReadsAs (asBytes "\"!\"\r\n") (.data ⟨[.string (asBytes "!")]⟩) := by
    unfold ReadsAs
    decide +kernel
  have hcuts : Cuts [asBytes "\"!\"\r\n"] (asBytes "\"!\"\r\n") :=
    ⟨by decide +kernel, by decide +kernel⟩
  have hcuts' : Cuts [front, back] (front ++ back) := ⟨by simp, by simp [hfront, hback]⟩
  have hstart := @resume_new Unit .standard silent ⟨true, false⟩ none rfl none
  have hask := @resume_ask Unit .standard ⟨true, false⟩ (.reading m none)
  have hcancel := @resume_line Unit .standard ⟨true, false⟩ (.reading m none) []
    (asBytes "\"!\"\r\n") _ (by decide +kernel) hline
  rw [decide_invalid .standard ⟨_, rfl⟩ (by decide +kernel)] at hcancel
  have hwait := @resume_ask Unit .standard ⟨true, false⟩ q
  exact ⟨_, Relation.ReflTransGen.refl.tail (Step.write hstart rfl) |>.tail (Step.ask hask rfl)
    |>.tail (Step.reply hchallenge hcuts) |>.tail Step.deliver |>.tail (Step.write hcancel rfl)
    |>.tail (Step.ask hwait rfl) |>.tail (Step.reply hrefusal hcuts') |>.tail Step.deliver
    |>.tail (Step.complete (hends m))⟩

theorem replies_challenge (sasl : Sasl ε) :
    Replies (command lib sasl opts none) (asBytes "\"!\"\r\n") := by
  have hexchange : IsExchange (command lib sasl opts none) := isExchange_command lib _
  rw [Replies, if_neg hexchange.1, if_neg hexchange.2]
  refine Or.inl ⟨asBytes "!", isLine_iff.2 ⟨by decide +kernel, ?_⟩⟩
  unfold ReadsAs
  decide +kernel

/-- A server that answers a cancellation with more than the buffer holds is not read to the end. -/
theorem reachable_longReply {value : Bytes} (hvalue : value.length = maxLiteral) :
    ∃ s, Reachable (parties .standard none) (new silent ⟨true, false⟩)
      ⟨.finished (.error .invalidBase64) s, [], [(longReply value).drop (maxResponse + 1)],
        (longReply value).take (maxResponse + 1)⟩ := by
  have hlong : maxResponse + 1 < (longReply value).length := by
    have := (length_longReply hvalue.le).1
    have hmax : maxResponse + 1 < 2 * maxLiteral := by decide
    omega
  have htake : ((longReply value).take (maxResponse + 1)).length = maxResponse + 1 := by
    rw [List.length_take]
    omega
  have hfront : (longReply value).take (maxResponse + 1) ≠ [] := List.length_pos_iff.1 (by omega)
  have hback : (longReply value).drop (maxResponse + 1) ≠ [] :=
    List.length_pos_iff.1 (by rw [List.length_drop]; omega)
  have hline := readsAs_longReply hvalue.le
  have hrefusal : Replies cancellation (longReply value) := by
    rw [Replies, if_pos rfl]
    exact ⟨_, isLine_iff.2 ⟨(length_longReply hvalue.le).2, hline⟩⟩
  rw [← List.take_append_drop (maxResponse + 1) (longReply value)] at hrefusal hline
  refine reachable_abandoned ⟨replies_challenge _, by simp⟩ ⟨hrefusal, by simp⟩ hfront hback
    fun m => ?_
  rw [resume_overflow hfront (ReadsAs.parse_prefix hline hback)
    (by rw [List.nil_append]; omega)]
  rfl

/-- The replies of a server that may also answer a cancellation with a larger literal. -/
def RepliesAtLength (message reply : Bytes) : Prop :=
  Replies message reply ∨
    message = cancellation ∧ ∃ value, value.length = maxLiteral + 1 ∧ reply = literalReply value

/-- Nor is one that answers it with a literal larger than what is read, although it would fit the
buffer. -/
theorem reachable_literalReply {value : Bytes} (hvalue : value.length = maxLiteral + 1) :
    ∃ s, Reachable { parties .standard none with replies := RepliesAtLength }
      (new silent ⟨true, false⟩)
      ⟨.finished (.error .invalidBase64) s, [], [value ++ crlf], asBytes "NO {8388609}\r\n"⟩ := by
  have hliteral : RepliesAtLength cancellation (literalReply value) :=
    Or.inr ⟨rfl, value, hvalue, rfl⟩
  rw [literalReply_eq hvalue] at hliteral
  exact reachable_abandoned (Or.inl (replies_challenge _)) hliteral (by decide +kernel)
    (by simp [crlf]) fun m => resume_unreadable (by decide +kernel)
      (show ManagesieveLine.parse _ = .error (.literalTooLarge 8388609) by decide +kernel)

/-- A run that ended before all of a reply was read is out of step, whatever the buffer holds. -/
theorem not_inStep_of_inbox {s : ManagesieveAuthenticate Unit} {back heard : Bytes} :
    ¬ InStep TooLarge Drained (⟨.finished (.error .invalidBase64) s, [], [back], heard⟩ :
      Config (ManagesieveAuthenticate Unit) UInt8 (Return Unit) Bytes) := by
  rintro (hlarge | ⟨-, hinbox, -⟩)
  · rcases hlarge with hlarge | hlarge <;> cases hlarge
  · cases hinbox

/-- With no limit on the reply to a cancellation, or none on its literals, bytes of it can be left
unread. -/
theorem not_inStep :
    (¬ ∀ (sasl : Sasl Unit) (opts : ManagesieveAuthenticateOptions)
      (c : Config (ManagesieveAuthenticate Unit) UInt8 (Return Unit) Bytes),
      Reachable (parties .standard none) (new sasl opts) c → InStep TooLarge Drained c) ∧
    ¬ ∀ (sasl : Sasl Unit) (opts : ManagesieveAuthenticateOptions)
      (c : Config (ManagesieveAuthenticate Unit) UInt8 (Return Unit) Bytes),
      Reachable { parties .standard none with replies := RepliesAtLength } (new sasl opts) c →
        InStep TooLarge Drained c := by
  constructor <;> intro h
  · obtain ⟨s, hrun⟩ := reachable_longReply (List.length_replicate (a := 0x78))
    exact not_inStep_of_inbox (h _ _ _ hrun)
  · obtain ⟨s, hrun⟩ := reachable_literalReply (List.length_replicate (a := 0x78))
    exact not_inStep_of_inbox (h _ _ _ hrun)

end ManagesieveAuthenticate

end ManageSieve
