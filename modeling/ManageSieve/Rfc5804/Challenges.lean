import ManageSieve.Rfc5804.Meeting

/-!
# Challenges that are more than one string

A challenge is a data line, and what is decoded of it is its first string. A data line has one
whatever follows it, so that a line is never refused for not being one string
(`ManagesieveAuthenticate.reached_ne_invalidChallenge`): in every state that is reached, a longer
line is answered as its first string is (`ManagesieveAuthenticate.resume_meetsChallenge`). A run
keeps to challenges of one string exactly when the server sends no other
(`ManagesieveAuthenticate.onlyOneString_iff`), up to the completion or the challenge that the
exchange is cancelled on.
-/

namespace ManageSieve

open Coroutine Reactor

variable {ε : Type*}

/-- A data line of one string and nothing else. -/
def ManagesieveDataLine.IsOneString (line : ManagesieveDataLine) : Prop :=
  ∃ value, line.tokens = [.string value]

namespace ManagesieveAuthenticate

open Exchange

/-- In `self` a resume with `arg` meets the challenge `line`. -/
structure MeetsChallenge (self : ManagesieveAuthenticate ε) (arg : Option Bytes)
    (line : ManagesieveDataLine) : Prop where
  reading : ∃ pending, self.state = .read pending
  not_eof : arg ≠ some []
  parsed : ∃ n, ManagesieveLine.parse (self.buf ++ arg.getD []) = .ok (some (.data line, n))

/-- The resume answers what it met, with a response or with the cancellation. -/
def Answers (lib : Libraries) (self : ManagesieveAuthenticate ε) (arg : Option Bytes) : Prop :=
  ∃ bytes next, (machine lib).resume self arg = (.yielded (.wantsWrite bytes), next)

/-- The resume ends the exchange for an invalid challenge, and the mechanism is left alone. -/
def RefusesChallenge (lib : Libraries) (self : ManagesieveAuthenticate ε) (arg : Option Bytes) :
    Prop :=
  ∃ next, (machine lib).resume self arg = (.complete (.error .invalidChallenge), next) ∧
    next.mechanism = self.mechanism

/-- In every run on the reads `cs`, the challenges that are answered are one string, and any other
ends the exchange. -/
def OnlyOneString (lib : Libraries) (sasl : Sasl ε) (opts : ManagesieveAuthenticateOptions)
    (cs : List Bytes) : Prop :=
  ∀ es self arg, (machine lib).Run (new sasl opts) es self arg → fedOf es <+: cs →
    ∀ line, MeetsChallenge self arg line →
      (line.IsOneString ∧ Answers lib self arg) ∨ RefusesChallenge lib self arg

/-! ## What a challenge is answered with -/

/-- What a resume does with a data line at the front of what it has. -/
theorem resume_data (lib : Libraries) (opts : ManagesieveAuthenticateOptions) (m : Mechanism ε)
    (pending : Option Bytes) (buf : Bytes) {arg : Option Bytes} {line : ManagesieveDataLine} {n : ℕ}
    (heof : arg ≠ some [])
    (hline : ManagesieveLine.parse (buf ++ arg.getD []) = .ok (some (.data line, n))) :
    (machine lib).resume (embed opts (.reading m pending, buf)) arg =
      wrap opts ((client lib).act ((buf ++ arg.getD []).drop n)
        (decideReading lib m pending (.data line))) := by
  rw [resume_embed, Client.machine_resume_of_ne heof,
    Client.look_some (c := client lib) (b := buf ++ arg.getD []) hline]
  rfl

/-- **A challenge is answered as its first string is**, in every state that is reached: from the
payload that is pending, or by the mechanism. -/
theorem resume_meetsChallenge (lib : Libraries) {opts : ManagesieveAuthenticateOptions}
    {self : ManagesieveAuthenticate ε} (hs : Standing opts self) {arg : Option Bytes}
    {line : ManagesieveDataLine} (h : MeetsChallenge self arg line) :
    ∃ m pending challenge rest, self = embed opts (.reading m pending, self.buf) ∧
      line.string 0 = some challenge ∧
      (machine lib).resume self arg =
        match m.answerChallenge lib pending challenge with
        | (.ok payload, m') => (.yielded (.wantsWrite (clientResponse lib (payload.getD []))),
            embed opts (.reading m' none, rest))
        | (.error err, m') =>
          (.yielded (.wantsWrite cancellation), embed opts (.aborting m' err, rest)) := by
  obtain ⟨⟨pending, hreading⟩, heof, n, hline⟩ := h
  cases hs with
  | start sasl => cases hreading
  | refreshing s capability => cases hreading
  | exchanging s =>
    rcases s with ⟨⟨m, pending⟩ | ⟨m, error⟩, buf⟩
    swap
    · cases hreading
    obtain ⟨challenge, hstring⟩ := ManagesieveLine.string_zero_of_parse hline
    refine ⟨m, pending, challenge, (buf ++ arg.getD []).drop n, rfl, hstring, ?_⟩
    rw [resume_data lib opts m pending buf heof hline]
    simp only [decideReading, hstring]
    rcases m.answerChallenge lib pending challenge with ⟨err | payload, m'⟩ <;> rfl

theorem answers_of_meetsChallenge (lib : Libraries) {opts : ManagesieveAuthenticateOptions}
    {self : ManagesieveAuthenticate ε} (hs : Standing opts self) {arg : Option Bytes}
    {line : ManagesieveDataLine} (h : MeetsChallenge self arg line) : Answers lib self arg := by
  obtain ⟨m, pending, challenge, rest, -, -, hr⟩ := resume_meetsChallenge lib hs h
  rcases ha : m.answerChallenge lib pending challenge with ⟨err | payload, m'⟩ <;> rw [ha] at hr
  · exact ⟨_, _, hr⟩
  · exact ⟨_, _, hr⟩

/-- What is answered is not refused. -/
theorem Answers.not_refuses {lib : Libraries} {self : ManagesieveAuthenticate ε}
    {arg : Option Bytes} (h : Answers lib self arg) : ¬ RefusesChallenge lib self arg := by
  rintro ⟨next, hrefused, -⟩
  obtain ⟨bytes, next', hanswer⟩ := h
  rw [hanswer] at hrefused
  cases hrefused

end ManagesieveAuthenticate

/-! ## No challenge is invalid -/

namespace Exchange

section

variable {lib : Libraries} {m m' : Mechanism ε} {err : ManagesieveAuthenticateError ε}

theorem resume_error {arg : SaslArg} (h : m.resume arg = (.error err, m')) :
    err ≠ .invalidChallenge := by
  rcases m.resume_cases arg with ⟨err', -, hr⟩ | ⟨payload, -, hr⟩ <;> rw [hr] at h <;> cases h
  simp

theorem opening_error {sasl : Sasl ε} (h : opening sasl = .error err) :
    err ≠ .invalidChallenge := by
  cases hf : sasl.mechanism.isFramed with
  | false =>
    rw [ManagesieveAuthenticate.opening_of_not_isFramed hf] at h
    cases h
    simp
  | true =>
    rw [ManagesieveAuthenticate.opening_of_isFramed hf] at h
    exact resume_error (Prod.ext h rfl)

theorem answerChallenge_error {pending : Option Bytes} {challenge : Bytes}
    (h : m.answerChallenge lib pending challenge = (.error err, m')) : err ≠ .invalidChallenge := by
  unfold Mechanism.answerChallenge at h
  split at h
  · cases h
  · split at h
    · cases h
      simp
    · exact resume_error h

theorem complete_error {completion : ManagesieveCompletion} {pending : Bool}
    (h : (m.complete lib completion pending).1 = .error err) : err ≠ .invalidChallenge := by
  unfold Mechanism.complete at h
  split_ifs at h
  · cases h
    simp
  · cases h
    simp
  · rcases hf : m.feedFinalData lib completion.code with ⟨err' | _, m₁⟩ <;> rw [hf] at h
    · cases h
      unfold Mechanism.feedFinalData at hf
      split at hf
      · split at hf
        · cases hf
          simp
        · exact resume_error hf
      · cases hf
    · dsimp only at h
      rcases hd : m₁.resume .done with ⟨err' | _, m₂⟩ <;> rw [hd] at h <;> cases h
      exact resume_error hd

end

/-- A phase that is not about to report an invalid challenge. -/
def Phase.Sound : Phase ε → Prop
  | .reading _ _ => True
  | .aborting _ error => error ≠ .invalidChallenge

/-- **What a resume of the client keeps**: it neither reports an invalid challenge nor is about
to. -/
theorem resume_client_sound (lib : Libraries) {q : Phase ε} (hq : q.Sound) (buf : Bytes)
    (arg : Option Bytes) :
    ((client lib).machine.resume (q, buf) arg).2.1.Sound ∧
      ((client lib).machine.resume (q, buf) arg).1 ≠ .complete (.error .invalidChallenge) := by
  rcases q with ⟨m, pending⟩ | ⟨m, error⟩
  · by_cases heof : arg = some []
    · subst heof
      exact ⟨trivial, by simp [Client.machine, client]⟩
    rw [Client.machine_resume_of_ne heof]
    rcases hp : ManagesieveLine.parse (buf ++ arg.getD []) with
      err | _ | ⟨line | completion, consumed⟩
    · rw [Client.look_error (c := client lib) hp]
      exact ⟨trivial, by simp [client]⟩
    · rw [Client.look_none (c := client lib) hp]
      split_ifs
      · exact ⟨trivial, by simp [client]⟩
      · exact ⟨trivial, by simp⟩
    · rw [Client.look_some (c := client lib) hp]
      obtain ⟨challenge, hstring⟩ := ManagesieveLine.string_zero_of_parse hp
      change ((client lib).act _ (decideReading lib m pending (.data line))).2.1.Sound ∧
        ((client lib).act _ (decideReading lib m pending (.data line))).1 ≠ _
      simp only [decideReading, hstring]
      rcases ha : m.answerChallenge lib pending challenge with ⟨err | payload, m'⟩
      · exact ⟨answerChallenge_error ha, by simp [Client.act]⟩
      · exact ⟨trivial, by simp [Client.act]⟩
    · rw [Client.look_some (c := client lib) hp]
      refine ⟨trivial, fun h => ?_⟩
      exact complete_error (Resumed.complete.inj h) rfl
  · rcases resume_client_aborting lib m error buf arg with ⟨rest, hr⟩ | ⟨rest, hr, -⟩ <;> rw [hr]
    · refine ⟨hq, fun h => hq ?_⟩
      exact Except.error.inj (Resumed.complete.inj h)
    · exact ⟨hq, by simp⟩

end Exchange

namespace ManagesieveAuthenticate

open Exchange

/-- The states that are not about to report an invalid challenge. -/
inductive Sound (opts : ManagesieveAuthenticateOptions) : ManagesieveAuthenticate ε → Prop
  | start (sasl : Sasl ε) : Sound opts (new sasl opts)
  | exchanging {q : Phase ε} (buf : Bytes) : q.Sound → Sound opts (embed opts (q, buf))
  | refreshing (s : Phase ε × Bytes) (capability : ManagesieveCapabilityGet) :
      Sound opts { ended opts s with state := .capability capability }

/-- What a resume keeps of them. -/
theorem resume_sound (lib : Libraries) {opts : ManagesieveAuthenticateOptions}
    {self : ManagesieveAuthenticate ε} (h : Sound opts self) (arg : Option Bytes) :
    (∃ y next, (machine lib).resume self arg = (.yielded y, next) ∧ Sound opts next) ∨
      ∃ r next, (machine lib).resume self arg = (.complete r, next) ∧
        r ≠ .error .invalidChallenge := by
  cases h with
  | start sasl =>
    cases hopen : opening sasl with
    | error err =>
      refine Or.inr ⟨_, _, resume_new_error hopen arg, fun h => ?_⟩
      exact opening_error hopen (Except.error.inj h)
    | ok payload => exact Or.inl ⟨_, _, resume_new hopen arg, .exchanging _ trivial⟩
  | @exchanging q buf hq =>
    obtain ⟨hnext, hne⟩ := resume_client_sound lib hq buf arg
    rcases hr : (client lib).machine.resume (q, buf) arg with ⟨y | (err | _) | msg, s'⟩ <;>
      rw [hr] at hnext hne
    · exact Or.inl ⟨_, _, by rw [resume_embed, hr]; rfl, .exchanging s'.2 hnext⟩
    · refine Or.inr ⟨_, _, by rw [resume_embed, hr]; rfl, fun h => hne ?_⟩
      rw [Except.error.inj h]
    · rw [resume_embed, hr]
      simp only [wrap, finish]
      split_ifs
      · exact Or.inl ⟨_, _, rfl, .refreshing s' _⟩
      · exact Or.inr ⟨_, _, rfl, by simp⟩
    · exact absurd hr (Client.resume_ne_panicked (q, buf) s' arg msg)
  | refreshing s capability =>
    have hnests := nests_capability lib (ended_wantsRead opts s)
    rcases hr : ManagesieveCapabilityGet.machine.resume capability arg with ⟨y | r | msg, next⟩
    · exact Or.inl ⟨_, _, hnests.resume_yielded trivial hr, .refreshing s next⟩
    · refine Or.inr ⟨_, _, hnests.resume_complete trivial hr, ?_⟩
      cases r <;> simp [Except.mapError]
    · exact absurd hr (ManagesieveCapabilityGet.safe.ne_panicked trivial arg msg next)

theorem reached_sound (lib : Libraries) {sasl : Sasl ε} {opts : ManagesieveAuthenticateOptions}
    {self : ManagesieveAuthenticate ε} (h : (machine lib).Reached (new sasl opts) self) :
    Sound opts self := by
  induction h with
  | start => exact .start sasl
  | resume _ hr ih =>
    rcases resume_sound lib ih _ with ⟨y, next, hr', hnext⟩ | ⟨r, next, hr', -⟩ <;>
      rw [hr] at hr' <;> cases hr'
    exact hnext

/-- **No challenge is refused as invalid**, in any state that is reached. -/
theorem reached_ne_invalidChallenge (lib : Libraries) {sasl : Sasl ε}
    {opts : ManagesieveAuthenticateOptions} {self : ManagesieveAuthenticate ε}
    (h : (machine lib).Reached (new sasl opts) self) (arg : Option Bytes)
    (next : ManagesieveAuthenticate ε) :
    (machine lib).resume self arg ≠ (.complete (.error .invalidChallenge), next) := by
  intro hr
  rcases resume_sound lib (reached_sound lib h) arg with
    ⟨y, next', hr', -⟩ | ⟨r, next', hr', hne⟩ <;> rw [hr] at hr' <;> cases hr'
  exact hne rfl

/-! ## Runs -/

/-- A longer challenge that is answered. -/
theorem not_onlyOneString {lib : Libraries} {sasl : Sasl ε} {opts : ManagesieveAuthenticateOptions}
    {cs : List Bytes} {es : List (Event UInt8 ManagesieveYield)} {self : ManagesieveAuthenticate ε}
    {arg : Option Bytes} {line : ManagesieveDataLine}
    (hrun : (machine lib).Run (new sasl opts) es self arg) (hfed : fedOf es <+: cs)
    (hmeets : MeetsChallenge self arg line) (hline : ¬ line.IsOneString)
    (hanswers : Answers lib self arg) : ¬ OnlyOneString lib sasl opts cs := by
  intro honly
  rcases honly es self arg hrun hfed line hmeets with ⟨hone, -⟩ | hrefused
  · exact hline hone
  · exact hanswers.not_refuses hrefused

theorem meetsChallenge_embed {opts : ManagesieveAuthenticateOptions} {s : Phase ε × Bytes}
    {arg : Option Bytes} {line : ManagesieveDataLine} :
    MeetsChallenge (embed opts s) arg line ↔ Meets s arg line := by
  rcases s with ⟨⟨m, pending⟩ | ⟨m, error⟩, buf⟩
  · exact ⟨fun ⟨_, heof, hline⟩ => ⟨⟨m, pending, rfl⟩, heof, hline⟩,
      fun ⟨_, heof, hline⟩ => ⟨⟨pending, rfl⟩, heof, hline⟩⟩
  · constructor
    · rintro ⟨⟨pending, h⟩, -, -⟩
      cases h
    · rintro ⟨⟨m', pending, h⟩, -, -⟩
      cases h

theorem not_meetsChallenge_new {sasl : Sasl ε} {opts : ManagesieveAuthenticateOptions}
    {arg : Option Bytes} {line : ManagesieveDataLine} :
    ¬ MeetsChallenge (new sasl opts) arg line := by
  rintro ⟨⟨pending, h⟩, -, -⟩
  cases h

/-- **The challenges that are met in the runs on some reads** are those among the lines that are
read, up to the one that the exchange is cancelled on. -/
theorem meets_iff (lib : Libraries) (sasl : Sasl ε) (opts : ManagesieveAuthenticateOptions)
    (cs : List Bytes) (line : ManagesieveDataLine) :
    (∃ es self arg, (machine lib).Run (new sasl opts) es self arg ∧ fedOf es <+: cs ∧
        MeetsChallenge self arg line) ↔
      line ∈ met lib (firstPhase sasl opts (sasl.payload [.none]))
        (linesOf (fedOf ((machine lib).drive (new sasl opts) none cs).events).flatten) := by
  rcases opening_cases sasl with ⟨hopen, -⟩ | ⟨err, hopen, -⟩
  swap
  · rw [drive_new_error hopen, fedOf_nil, List.flatten_nil,
      linesOf_none (by decide +kernel), met_nil]
    refine iff_of_false ?_ List.not_mem_nil
    rintro ⟨es, self, arg, hrun, -, hmeets⟩
    rw [eq_new_of_run hopen hrun] at hmeets
    exact not_meetsChallenge_new hmeets
  constructor
  · rintro ⟨es, self, arg, hrun, ⟨cs', rfl⟩, hmeets⟩
    rw [hrun.drive cs', Transcript.prepend_events, fedOf_append, List.flatten_append]
    cases tracks_of_run hopen hrun with
    | start => exact absurd hmeets not_meetsChallenge_new
    | refreshing _ s capability _ =>
      obtain ⟨⟨pending, h⟩, -, -⟩ := hmeets
      cases h
    | @exchanging _ es' s _ hrun' hfed =>
      obtain ⟨-, done, hdone⟩ := met_of_run lib hrun'
      rw [hfed, hdone]
      exact List.mem_append_right _ (met_of_meets lib (meetsChallenge_embed.1 hmeets) _)
  · intro hline
    obtain ⟨t, hbytes, ht⟩ := fedOf_drive lib opts hopen cs
    rw [hbytes] at hline
    obtain ⟨es, s, arg, hrun, hfed, hmeets⟩ :=
      exists_meets lib (firstPhase sasl opts (sasl.payload [.none]), []) none cs .start ht hline
    exact ⟨_, embed opts s, arg, run_of_client hopen hrun, by simpa [fedOf_map] using hfed,
      meetsChallenge_embed.2 hmeets⟩

/-- **Only challenges of one string are answered** in the runs in which the server sends no other,
and in no more: a longer one is answered too. The server sends no other when each challenge that is
met is one string, and so when each of those is that stand among the lines that are read, up to the
one that the exchange is cancelled on. -/
theorem onlyOneString_iff (lib : Libraries) (sasl : Sasl ε) (opts : ManagesieveAuthenticateOptions)
    (cs : List Bytes) :
    (OnlyOneString lib sasl opts cs ↔
      ∀ es self arg, (machine lib).Run (new sasl opts) es self arg → fedOf es <+: cs →
        ∀ line, MeetsChallenge self arg line → line.IsOneString) ∧
    (OnlyOneString lib sasl opts cs ↔
      ∀ line ∈ met lib (firstPhase sasl opts (sasl.payload [.none]))
          (linesOf (fedOf ((machine lib).drive (new sasl opts) none cs).events).flatten),
        line.IsOneString) := by
  have hanswers : ∀ {es self arg line}, (machine lib).Run (new sasl opts) es self arg →
      MeetsChallenge self arg line → Answers lib self arg := by
    intro es self arg line hrun hmeets
    have hs := (safe_standing lib opts).reached (.start sasl) hrun.reached
    exact answers_of_meetsChallenge lib hs hmeets
  have hmet : OnlyOneString lib sasl opts cs ↔
      ∀ es self arg, (machine lib).Run (new sasl opts) es self arg → fedOf es <+: cs →
        ∀ line, MeetsChallenge self arg line → line.IsOneString := by
    constructor
    · intro honly es self arg hrun hfed line hmeets
      by_contra hline
      exact not_onlyOneString hrun hfed hmeets hline (hanswers hrun hmeets) honly
    · intro hone es self arg hrun hfed line hmeets
      exact Or.inl ⟨hone es self arg hrun hfed line hmeets, hanswers hrun hmeets⟩
  refine ⟨hmet, hmet.trans ⟨fun hone line hline => ?_, fun hone es self arg hrun hfed line h => ?_⟩⟩
  · obtain ⟨es, self, arg, hrun, hfed, hmeets⟩ := (meets_iff lib sasl opts cs line).2 hline
    exact hone es self arg hrun hfed line hmeets
  · exact hone line ((meets_iff lib sasl opts cs line).1 ⟨es, self, arg, hrun, hfed, h⟩)

/-- The first read of a run. -/
theorem run_firstRead (lib : Libraries) {sasl : Sasl ε} (opts : ManagesieveAuthenticateOptions)
    {payload : Option Bytes} (hopen : opening sasl = .ok payload) (c : Bytes) :
    (machine lib).Run (new sasl opts)
      [.yielded (.wantsWrite (command lib sasl opts payload)), .yielded .wantsRead, .fed c]
      (embed opts (firstPhase sasl opts payload, [])) (some c) := by
  have hnew : (machine lib).resume (new sasl opts) none = _ := resume_new hopen none
  have hwrite := Machine.Run.yield .start hnew rfl
  have hread : (machine lib).resume (embed opts (firstPhase sasl opts payload, [])) none =
      (.yielded .wantsRead, embed opts (firstPhase sasl opts payload, [])) := by
    have hnil : (client (ε := ε) lib).parser.parse [] = .ok none :=
      show ManagesieveLine.parse [] = .ok none by decide +kernel
    rw [resume_embed, Client.machine_resume_of_ne (by simp)]
    simp only [Option.getD_none, List.append_nil, Client.look_none hnil]
    rfl
  exact hwrite.read c hread rfl

/-- A challenge of two strings, answered from the payload that was pending, and fed to a mechanism
that had said nothing. -/
theorem answers_two_strings :
    let plain : Sasl Unit := ⟨.plain, fun _ => .yielded (.wantsWrite (asBytes "x"))⟩
    let cram : Sasl Unit := ⟨.cramMd5, fun _ => .yielded .wantsRead⟩
    let opts : ManagesieveAuthenticateOptions := ⟨false, false⟩
    let bytes := asBytes "\"\" \"extra\"\r\n"
    let line : ManagesieveDataLine := ⟨[.string [], .string (asBytes "extra")]⟩
    (∃ es self next, (machine .standard).Run (new plain opts) es self (some bytes) ∧
      MeetsChallenge self (some bytes) line ∧
      (machine .standard).resume self (some bytes) =
        (.yielded (.wantsWrite (clientResponse .standard (asBytes "x"))), next)) ∧
    (∃ es self next, (machine .standard).Run (new cram opts) es self (some bytes) ∧
      MeetsChallenge self (some bytes) line ∧
      (machine .standard).resume self (some bytes) =
        (.yielded (.wantsWrite (clientResponse .standard [])), next) ∧
      next.mechanism = some ⟨cram, [.none, .input []]⟩) ∧
    ¬ OnlyOneString .standard plain opts [bytes] ∧ ¬ OnlyOneString .standard cram opts [bytes] := by
  intro plain cram opts bytes line
  have hparse : ManagesieveLine.parse ([] ++ (some bytes).getD []) =
      .ok (some (.data line, 12)) := by decide +kernel
  have hne : some bytes ≠ some [] := by decide +kernel
  have htwo : ¬ line.IsOneString := by
    rintro ⟨value, hvalue⟩
    cases hvalue
  have hmeets : ∀ (sasl : Sasl Unit) (payload : Option Bytes),
      MeetsChallenge (embed opts (firstPhase sasl opts payload, [])) (some bytes) line :=
    fun sasl payload => ⟨⟨_, rfl⟩, hne, 12, hparse⟩
  have hopen : opening plain = .ok (some (asBytes "x")) := rfl
  have hopen' : opening cram = .ok none := rfl
  have hplain := run_firstRead .standard opts hopen bytes
  have hcram := run_firstRead .standard opts hopen' bytes
  have hresume : (machine .standard).resume
      (embed opts (firstPhase plain opts (some (asBytes "x")), [])) (some bytes) =
        (.yielded (.wantsWrite (clientResponse .standard (asBytes "x"))), _) :=
    resume_data .standard opts _ _ [] hne hparse
  have hresume' : (machine .standard).resume (embed opts (firstPhase cram opts none, []))
      (some bytes) = (.yielded (.wantsWrite (clientResponse .standard [])), _) :=
    resume_data .standard opts _ _ [] hne hparse
  exact ⟨⟨_, _, _, hplain, hmeets _ _, hresume⟩, ⟨_, _, _, hcram, hmeets _ _, hresume', rfl⟩,
    not_onlyOneString hplain (by simp) (hmeets _ _) htwo ⟨_, _, hresume⟩,
    not_onlyOneString hcram (by simp) (hmeets _ _) htwo ⟨_, _, hresume'⟩⟩

end ManagesieveAuthenticate

end ManageSieve
