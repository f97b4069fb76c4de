import ManageSieve.Rfc5804.Exchange

/-!
# What the mechanism is fed

The arguments that a mechanism is resumed with, against those that the lines of the server call for
(`fedArgs`): nothing, then the challenges decoded, then the final data of an OK and the end of the
exchange. The main result is `ManagesieveAuthenticate.drive_feeds`: in every run the mechanism saw a
prefix of these, and the exchange is accepted exactly when the mechanism took all of them.
-/

namespace ManageSieve

open Coroutine Reactor

variable {ε : Type*}

/-! ## What the lines of the server call for -/

/-- The text of a challenge, decoded. -/
def challengeData (lib : Libraries) (line : ManagesieveDataLine) : Option Bytes :=
  (line.string 0).bind lib.base64.decode

/-- What a completion calls for: the final data of its SASL code, then the end of the exchange. -/
def finalArgs (lib : Libraries) (completion : ManagesieveCompletion) : List SaslArg :=
  match completion.status, completion.code with
  | .ok, some (.sasl data) =>
    match lib.base64.decode data with
    | some data => [.input data, .done]
    | none => []
  | .ok, _ => [.done]
  | _, _ => []

/-- What the lines of the server call for, up to the first text that does not decode; `unsent` when
the first challenge is answered by the payload that was not sent with the command. -/
def fedArgs (lib : Libraries) : Bool → List ManagesieveLine → List SaslArg
  | _, [] => []
  | _, .completion completion :: _ => finalArgs lib completion
  | true, .data _ :: lines => fedArgs lib false lines
  | false, .data line :: lines =>
    match challengeData lib line with
    | some data => .input data :: fedArgs lib false lines
    | none => []

/-- Whether the final data of a completion decodes, when it carries some. -/
def FinalDecodes (lib : Libraries) (completion : ManagesieveCompletion) : Prop :=
  ∀ data, completion.code = some (.sasl data) → (lib.base64.decode data).isSome

/-- The server ended the exchange well: the first completion is an OK, no payload was still unsent,
and every text to decode is valid. -/
def Concluded (lib : Libraries) (unsent : Bool) (lines : List ManagesieveLine) : Prop :=
  ∃ challenges completion rest,
    lines = challenges.map ManagesieveLine.data ++ .completion completion :: rest ∧
      completion.status = .ok ∧ (unsent = true → challenges ≠ []) ∧
      (∀ line ∈ if unsent then challenges.tail else challenges, (challengeData lib line).isSome) ∧
      FinalDecodes lib completion

/-- What the mechanism yields on the last resume of a history. -/
def Sasl.payload (sasl : Sasl ε) (history : List SaslArg) : Option Bytes :=
  match sasl.answer history with
  | .yielded (.wantsWrite payload) => some payload
  | _ => none

/-- The mechanism refuses the last resume of a history. -/
def Sasl.Refuses (sasl : Sasl ε) (history : List SaslArg) : Prop :=
  ∃ err, sasl.answer history = .complete (.error err)

/-- The mechanism refuses none of the resumes with `args`, made after `history`. -/
def Sasl.Takes (sasl : Sasl ε) (history args : List SaslArg) : Prop :=
  ∀ seen, seen ≠ [] → seen <+: args → ¬ sasl.Refuses (history ++ seen)

section Concluded

variable {lib : Libraries} {unsent : Bool} {lines : List ManagesieveLine}

theorem not_concluded_nil : ¬ Concluded lib unsent [] := by
  rintro ⟨challenges, completion, rest, h, -⟩
  simp at h

theorem concluded_completion {completion : ManagesieveCompletion} :
    Concluded lib unsent (.completion completion :: lines) ↔
      completion.status = .ok ∧ unsent = false ∧ FinalDecodes lib completion := by
  constructor
  · rintro ⟨_ | ⟨line, challenges⟩, completion', rest, h, hstatus, hunsent, -, hfinal⟩
    · cases h
      exact ⟨hstatus, by simpa using hunsent, hfinal⟩
    · cases h
  · rintro ⟨hstatus, rfl, hfinal⟩
    exact ⟨[], completion, lines, rfl, hstatus, by simp, by simp, hfinal⟩

theorem concluded_data_true {line : ManagesieveDataLine} :
    Concluded lib true (.data line :: lines) ↔ Concluded lib false lines := by
  constructor
  · rintro ⟨_ | ⟨line', challenges⟩, completion, rest, h, hstatus, -, hdata, hfinal⟩
    · cases h
    · cases h
      exact ⟨challenges, completion, rest, rfl, hstatus, by simp, by simpa using hdata, hfinal⟩
  · rintro ⟨challenges, completion, rest, rfl, hstatus, -, hdata, hfinal⟩
    exact ⟨line :: challenges, completion, rest, rfl, hstatus, by simp, by simpa using hdata,
      hfinal⟩

theorem concluded_data_false {line : ManagesieveDataLine} :
    Concluded lib false (.data line :: lines) ↔
      (challengeData lib line).isSome ∧ Concluded lib false lines := by
  constructor
  · rintro ⟨_ | ⟨line', challenges⟩, completion, rest, h, hstatus, -, hdata, hfinal⟩
    · cases h
    · cases h
      simp only [Bool.false_eq_true, if_false, List.forall_mem_cons] at hdata
      exact ⟨hdata.1, challenges, completion, rest, rfl, hstatus, by simp, by simpa using hdata.2,
        hfinal⟩
  · rintro ⟨hline, challenges, completion, rest, rfl, hstatus, -, hdata, hfinal⟩
    refine ⟨line :: challenges, completion, rest, rfl, hstatus, by simp, ?_, hfinal⟩
    simpa using ⟨hline, hdata⟩

/-- **Induction along a concluded exchange**: up to its completion, over the challenge that the
unsent payload answers and those that are decoded. -/
@[elab_as_elim] theorem Concluded.induction
    {motive : ∀ lines unsent, Concluded lib unsent lines → Prop}
    (completion : ∀ completion lines (h : Concluded lib false (.completion completion :: lines)),
      motive (.completion completion :: lines) false h)
    (unsent : ∀ line lines (h : Concluded lib false lines), motive lines false h →
      motive (.data line :: lines) true (concluded_data_true.2 h))
    (challenge : ∀ line lines data (hdata : challengeData lib line = some data)
      (h : Concluded lib false lines), motive lines false h →
        motive (.data line :: lines) false (concluded_data_false.2 ⟨by simp [hdata], h⟩))
    {first : Bool} (h : Concluded lib first lines) : motive lines first h := by
  induction lines generalizing first with
  | nil => exact absurd h not_concluded_nil
  | cons line lines ih =>
    cases line with
    | completion c =>
      obtain ⟨-, rfl, -⟩ := concluded_completion.1 h
      exact completion c lines h
    | data line =>
      cases first with
      | true => exact unsent line lines (concluded_data_true.1 h) (ih _)
      | false =>
        obtain ⟨hdata, h⟩ := concluded_data_false.1 h
        obtain ⟨data, hdata⟩ := Option.isSome_iff_exists.1 hdata
        exact challenge line lines data hdata h (ih h)

end Concluded

/-! ## The resumes of a mechanism -/

section Mechanism

variable {m : Mechanism ε} {arg : SaslArg}

/-- The mechanism after one more resume. -/
def Mechanism.fed (m : Mechanism ε) (args : List SaslArg) : Mechanism ε :=
  { m with history := m.history ++ args }

theorem Mechanism.resume_snd (m : Mechanism ε) (arg : SaslArg) :
    (m.resume arg).2 = m.fed [arg] := by
  unfold Mechanism.resume
  dsimp only
  split <;> rfl

theorem Mechanism.resume_fst (m : Mechanism ε) (arg : SaslArg) :
    (m.resume arg).1 =
      (saslStep (m.sasl.answer (m.history ++ [arg]))).mapError .mechanism := by
  unfold Mechanism.resume
  dsimp only
  split <;> simp_all [Except.mapError]

theorem Sasl.takes_nil (sasl : Sasl ε) (history : List SaslArg) : sasl.Takes history [] := by
  intro seen hne hseen
  exact absurd (List.prefix_nil.1 hseen) hne

theorem Sasl.takes_cons {sasl : Sasl ε} {history args : List SaslArg} :
    sasl.Takes history (arg :: args) ↔
      ¬ sasl.Refuses (history ++ [arg]) ∧ sasl.Takes (history ++ [arg]) args := by
  constructor
  · intro h
    refine ⟨h [arg] (by simp) (by simp), fun seen hne hseen => ?_⟩
    have := h (arg :: seen) (by simp) (by simpa using hseen)
    simpa using this
  · rintro ⟨h₁, h₂⟩ seen hne hseen
    obtain ⟨a, seen, rfl⟩ := List.exists_cons_of_ne_nil hne
    obtain ⟨rfl, hseen'⟩ := List.cons_prefix_cons.1 hseen
    rcases eq_or_ne seen [] with rfl | hne'
    · exact h₁
    · simpa using h₂ seen hne' hseen'

/-- A resume fails exactly when the mechanism refuses it. -/
theorem Mechanism.resume_cases (m : Mechanism ε) (arg : SaslArg) :
    (∃ err, m.sasl.Refuses (m.history ++ [arg]) ∧
        m.resume arg = (.error (.mechanism err), m.fed [arg])) ∨
      ∃ payload, ¬ m.sasl.Refuses (m.history ++ [arg]) ∧
        m.resume arg = (.ok payload, m.fed [arg]) := by
  have h₁ := m.resume_fst arg
  have h₂ := m.resume_snd arg
  rcases hr : m.resume arg with ⟨out, m'⟩
  rw [hr] at h₁ h₂
  dsimp only at h₁ h₂
  subst h₁ h₂
  unfold Sasl.Refuses
  rcases m.sasl.answer (m.history ++ [arg]) with (payload | _) | (err | _)
  · exact Or.inr ⟨some payload, by simp, rfl⟩
  · exact Or.inr ⟨none, by simp, rfl⟩
  · exact Or.inl ⟨err, by simp, rfl⟩
  · exact Or.inr ⟨none, by simp, rfl⟩

/-- No resume changes nothing; further ones add up. -/
@[simp] theorem Mechanism.fed_nil (m : Mechanism ε) : m.fed [] = m := by
  simp [Mechanism.fed]

theorem Mechanism.fed_fed (m : Mechanism ε) (args args' : List SaslArg) :
    (m.fed args).fed args' = m.fed (args ++ args') := by
  simp [Mechanism.fed]

/-- What the end of the exchange does to a mechanism that took all of its final data. -/
theorem Mechanism.done_cases (m : Mechanism ε) :
    (∃ payload, m.sasl.Takes m.history [.done] ∧ m.resume .done = (.ok payload, m.fed [.done])) ∨
      ∃ err, ¬ m.sasl.Takes m.history [.done] ∧ m.resume .done = (.error err, m.fed [.done]) := by
  rcases m.resume_cases .done with ⟨err, hrefuses, hr⟩ | ⟨payload, htakes, hr⟩
  · exact Or.inr ⟨_, fun h => (Sasl.takes_cons.1 h).1 hrefuses, hr⟩
  · exact Or.inl ⟨payload, Sasl.takes_cons.2 ⟨htakes, Sasl.takes_nil _ _⟩, hr⟩

variable (lib : Libraries)

/-- A completion that carries no final data only ends the exchange. -/
theorem Mechanism.complete_bare (m : Mechanism ε) {completion : ManagesieveCompletion}
    (hstatus : completion.status = .ok) (hcode : ∀ data, completion.code ≠ some (.sasl data)) :
    finalArgs lib completion = [.done] ∧ FinalDecodes lib completion ∧
      m.complete lib completion false =
        (match (m.resume .done).1 with
          | .ok _ => .ok ()
          | .error err => .error err, (m.resume .done).2) := by
  have hargs : finalArgs lib completion = [.done] := by
    unfold finalArgs
    rw [hstatus]
    split <;> simp_all
  have hfeed : m.feedFinalData lib completion.code = (.ok none, m) := by
    unfold Mechanism.feedFinalData
    split
    · next data hdata => exact absurd hdata (hcode data)
    · rfl
  refine ⟨hargs, fun data hdata => absurd hdata (hcode data), ?_⟩
  unfold Mechanism.complete
  rw [if_neg (not_not.2 hstatus), if_neg Bool.false_ne_true, hfeed]
  dsimp only
  rcases m.resume .done with ⟨err | payload, m'⟩ <;> rfl

/-- A completion that carries final data hands it over first, when it decodes. -/
theorem Mechanism.complete_sasl (m : Mechanism ε) {completion : ManagesieveCompletion}
    {data : Bytes} (hstatus : completion.status = .ok)
    (hcode : completion.code = some (.sasl data)) :
    (FinalDecodes lib completion ↔ (lib.base64.decode data).isSome) ∧
      match lib.base64.decode data with
      | none => m.complete lib completion false = (.error .invalidBase64, m)
      | some data =>
        finalArgs lib completion = [.input data, .done] ∧
          m.complete lib completion false =
            match m.resume (.input data) with
            | (.error err, m') => (.error err, m')
            | (.ok _, m') =>
              match m'.resume .done with
              | (.error err, m'') => (.error err, m'')
              | (.ok _, m'') => (.ok (), m'') := by
  refine ⟨⟨fun h => h data hcode, fun h data' hdata' => ?_⟩, ?_⟩
  · rw [hcode] at hdata'
    cases hdata'
    exact h
  · unfold Mechanism.complete finalArgs
    rw [if_neg (not_not.2 hstatus), if_neg Bool.false_ne_true, hstatus, hcode,
      Mechanism.feedFinalData]
    dsimp only
    cases hd : lib.base64.decode data with
    | none => rfl
    | some data => exact ⟨rfl, rfl⟩

/-- The mechanism takes the final data and the end of the exchange, or the completion fails. -/
theorem Mechanism.complete_cases (m : Mechanism ε) (completion : ManagesieveCompletion)
    (pending : Bool) :
    (m.complete lib completion pending = (.ok (), m.fed (finalArgs lib completion)) ∧
        completion.status = .ok ∧ pending = false ∧ FinalDecodes lib completion ∧
        m.sasl.Takes m.history (finalArgs lib completion)) ∨
      ∃ err args, m.complete lib completion pending = (.error err, m.fed args) ∧
        args <+: finalArgs lib completion ∧
        ¬ (completion.status = .ok ∧ pending = false ∧ FinalDecodes lib completion ∧
          m.sasl.Takes m.history (finalArgs lib completion)) := by
  by_cases hstatus : completion.status = .ok
  swap
  · refine Or.inr ⟨.rejected completion, [], ?_, List.nil_prefix, fun h => hstatus h.1⟩
    rw [Mechanism.complete, if_pos hstatus, fed_nil]
  cases pending with
  | true =>
    refine Or.inr ⟨.unexpectedOk, [], ?_, List.nil_prefix, fun h => Bool.noConfusion h.2.1⟩
    rw [Mechanism.complete, if_neg (not_not.2 hstatus), if_pos rfl, fed_nil]
  | false =>
    by_cases hcode : ∃ data, completion.code = some (.sasl data)
    · obtain ⟨data, hcode⟩ := hcode
      obtain ⟨hdecodes, hc⟩ := m.complete_sasl lib hstatus hcode
      cases hd : lib.base64.decode data with
      | none =>
        rw [hd] at hc hdecodes
        refine Or.inr ⟨_, [], by rw [hc, fed_nil], List.nil_prefix, fun h => ?_⟩
        simpa using hdecodes.1 h.2.2.1
      | some data =>
        rw [hd] at hc hdecodes
        obtain ⟨hargs, hc⟩ := hc
        rw [hargs, hc]
        rcases m.resume_cases (.input data) with ⟨err, hrefuses, hr⟩ | ⟨payload, htakes, hr⟩ <;>
          rw [hr]
        · refine Or.inr ⟨_, _, rfl, by simp, fun h => ?_⟩
          exact (Sasl.takes_cons.1 h.2.2.2).1 hrefuses
        · dsimp only
          rcases (m.fed [.input data]).done_cases with
            ⟨payload', hdone, hr'⟩ | ⟨err, hdone, hr'⟩ <;>
            rw [hr']
          · refine Or.inl ⟨?_, hstatus, rfl, hdecodes.2 rfl, Sasl.takes_cons.2 ⟨htakes, hdone⟩⟩
            rw [fed_fed]
            rfl
          · refine Or.inr ⟨_, _, by rw [fed_fed], by simp, fun h => ?_⟩
            exact hdone (Sasl.takes_cons.1 h.2.2.2).2
    · obtain ⟨hargs, hdecodes, hc⟩ := m.complete_bare lib hstatus (not_exists.1 hcode)
      rw [hargs, hc]
      rcases m.done_cases with ⟨payload', hdone, hr'⟩ | ⟨err, hdone, hr'⟩ <;> rw [hr']
      · exact Or.inl ⟨rfl, hstatus, rfl, hdecodes, hdone⟩
      · exact Or.inr ⟨_, _, rfl, by simp, fun h => hdone h.2.2.2⟩

end Mechanism

/-! ## The client, line by line -/

namespace Exchange

variable (lib : Libraries)

section Data

variable {m : Mechanism ε} {line : ManagesieveDataLine}

/-- A challenge without a string ends the exchange. -/
theorem decide_unreadable (hline : line.string 0 = none) (pending : Option Bytes) :
    (client lib).decide (.reading m pending) (.data line) =
      .stop (.error .invalidChallenge) (.reading m pending) := by
  simp [client, decideReading, hline]

/-- A challenge met while a payload is pending is answered with it. -/
theorem decide_pending (hline : ∃ string, line.string 0 = some string) (payload : Bytes) :
    (client lib).decide (.reading m (some payload)) (.data line) =
      .send (clientResponse lib payload) (.reading m none) := by
  obtain ⟨challenge, hline⟩ := hline
  simp [client, decideReading, hline, Mechanism.answerChallenge]

/-- A challenge that does not decode cancels the exchange. -/
theorem decide_invalid (hline : ∃ string, line.string 0 = some string)
    (hdata : challengeData lib line = none) :
    (client lib).decide (.reading m none) (.data line) =
      .send cancellation (.aborting m .invalidBase64) := by
  obtain ⟨challenge, hline⟩ := hline
  simp only [challengeData, hline, Option.bind_some] at hdata
  simp [client, decideReading, hline, Mechanism.answerChallenge, hdata]

/-- A challenge that decodes is handed to the mechanism, which cancels the exchange if
it refuses. -/
theorem decide_input {data : Bytes} (hdata : challengeData lib line = some data) :
    (∃ payload, ¬ m.sasl.Refuses (m.history ++ [.input data]) ∧
        (m.resume (.input data)).1 = .ok payload ∧
        (client lib).decide (.reading m none) (.data line) =
          .send (clientResponse lib (payload.getD [])) (.reading (m.fed [.input data]) none)) ∨
      ∃ err, m.sasl.Refuses (m.history ++ [.input data]) ∧
        (client lib).decide (.reading m none) (.data line) =
          .send cancellation (.aborting (m.fed [.input data]) err) := by
  obtain ⟨challenge, hline, hd⟩ := Option.bind_eq_some_iff.1 hdata
  rcases m.resume_cases (.input data) with ⟨err, hrefuses, hr⟩ | ⟨payload, htakes, hr⟩
  · refine Or.inr ⟨.mechanism err, hrefuses, ?_⟩
    simp [client, decideReading, hline, Mechanism.answerChallenge, hd, hr]
  · refine Or.inl ⟨payload, htakes, by rw [hr], ?_⟩
    simp [client, decideReading, hline, Mechanism.answerChallenge, hd, hr]

end Data

/-- After a cancellation the mechanism is left alone, and nothing is accepted. -/
theorem follow_aborting (m : Mechanism ε) (error : ManagesieveAuthenticateError ε)
    (items : List (ManagesieveLine × ℕ)) :
    ((client lib).follow (.aborting m error) items).verdict.state.mechanism = m ∧
      ¬ ∃ q, ((client lib).follow (.aborting m error) items).verdict = .stopped (.ok ()) q := by
  induction items with
  | nil => exact ⟨rfl, by rintro ⟨q, h⟩; cases h⟩
  | cons item items ih =>
    rcases item with ⟨line | completion, n⟩
    · exact ih
    · exact ⟨rfl, by rintro ⟨q, h⟩; cases h⟩

/-- **The lines that a client reads, one at a time**: a challenge holds no string, is answered with
the payload that is pending, does not decode, is taken by the mechanism or refused; or the exchange
ends. -/
theorem reading_induction {P : Mechanism ε → Option Bytes → List (ManagesieveLine × ℕ) → Prop}
    (nil : ∀ m pending, P m pending [])
    (unreadable : ∀ m pending line n items, line.string 0 = none →
      (client lib).decide (.reading m pending) (.data line) =
        .stop (.error .invalidChallenge) (.reading m pending) →
      P m pending ((.data line, n) :: items))
    (pending : ∀ m payload line n items,
      (client lib).decide (.reading m (some payload)) (.data line) =
        .send (clientResponse lib payload) (.reading m none) →
      P m none items → P m (some payload) ((.data line, n) :: items))
    (invalid : ∀ m line n items, challengeData lib line = none →
      (client lib).decide (.reading m none) (.data line) =
        .send cancellation (.aborting m .invalidBase64) →
      P m none ((.data line, n) :: items))
    (input : ∀ m line data payload n items, challengeData lib line = some data →
      ¬ m.sasl.Refuses (m.history ++ [.input data]) → (m.resume (.input data)).1 = .ok payload →
      (client lib).decide (.reading m none) (.data line) =
        .send (clientResponse lib (payload.getD [])) (.reading (m.fed [.input data]) none) →
      P (m.fed [.input data]) none items → P m none ((.data line, n) :: items))
    (refused : ∀ m line data err n items, challengeData lib line = some data →
      m.sasl.Refuses (m.history ++ [.input data]) →
      (client lib).decide (.reading m none) (.data line) =
        .send cancellation (.aborting (m.fed [.input data]) err) →
      P m none ((.data line, n) :: items))
    (completion : ∀ m pending completion n items,
      (client lib).decide (.reading m pending) (.completion completion) =
        .stop (m.complete lib completion pending.isSome).1
          (.reading (m.complete lib completion pending.isSome).2 pending) →
      P m pending ((.completion completion, n) :: items))
    (m : Mechanism ε) (pending₀ : Option Bytes) (items : List (ManagesieveLine × ℕ)) :
    P m pending₀ items := by
  induction items generalizing m pending₀ with
  | nil => exact nil m pending₀
  | cons item items ih =>
    obtain ⟨line | c, n⟩ := item
    · rcases hs : line.string 0 with _ | string
      · exact unreadable m pending₀ line n items hs (decide_unreadable lib hs pending₀)
      · cases pending₀ with
        | some payload =>
          exact pending m payload line n items (decide_pending lib ⟨string, hs⟩ payload) (ih m none)
        | none =>
          cases hdata : challengeData lib line with
          | none => exact invalid m line n items hdata (decide_invalid lib ⟨string, hs⟩ hdata)
          | some data =>
            rcases decide_input lib (m := m) hdata with ⟨payload, ht, hr, hd⟩ | ⟨err, hr, hd⟩
            · exact input m line data payload n items hdata ht hr hd (ih _ none)
            · exact refused m line data err n items hdata hr hd
    · exact completion m pending₀ c n items rfl

/-- What the client made of some lines: how much of what they call for the mechanism saw, and
whether the exchange was accepted. -/
structure Feeds (m : Mechanism ε) (unsent : Bool) (lines : List ManagesieveLine)
    (v : Verdict (Phase ε) (Result ε)) : Prop where
  fed : ∃ args, args <+: fedArgs lib unsent lines ∧ v.state.mechanism = m.fed args
  accepted : (∃ q, v = .stopped (.ok ()) q) ↔
    Concluded lib unsent lines ∧ m.sasl.Takes m.history (fedArgs lib unsent lines)
  accepted_fed : ∀ q, v = .stopped (.ok ()) q → v.state.mechanism = m.fed (fedArgs lib unsent lines)

/-- What becomes of a mechanism when the exchange is not accepted. -/
theorem Feeds.of_not_concluded {m : Mechanism ε} {unsent : Bool} {lines : List ManagesieveLine}
    {v : Verdict (Phase ε) (Result ε)} (args : List SaslArg) (hm : v.state.mechanism = m.fed args)
    (hargs : args <+: fedArgs lib unsent lines) (hv : ¬ ∃ q, v = .stopped (.ok ()) q)
    (h : ¬ (Concluded lib unsent lines ∧ m.sasl.Takes m.history (fedArgs lib unsent lines))) :
    Feeds lib m unsent lines v :=
  ⟨⟨args, hargs, hm⟩, iff_of_false hv h, fun q hq => absurd ⟨q, hq⟩ hv⟩

/-- A challenge that the mechanism took comes before what is fed to it next. -/
theorem Feeds.input {m : Mechanism ε} {line : ManagesieveDataLine} {data : Bytes}
    {lines : List ManagesieveLine} {v : Verdict (Phase ε) (Result ε)}
    (hdata : challengeData lib line = some data)
    (htakes : ¬ m.sasl.Refuses (m.history ++ [.input data]))
    (h : Feeds lib (m.fed [.input data]) false lines v) :
    Feeds lib m false (.data line :: lines) v := by
  have hargs :
      fedArgs lib false (.data line :: lines) = .input data :: fedArgs lib false lines := by
    rw [fedArgs, hdata]
  obtain ⟨⟨args, hpre, hm⟩, haccepted, hall⟩ := h
  refine ⟨⟨.input data :: args, ?_, ?_⟩, ?_, ?_⟩
  · rw [hargs]
    exact List.cons_prefix_cons.2 ⟨rfl, hpre⟩
  · rw [hm, Mechanism.fed_fed]
    rfl
  · rw [haccepted, concluded_data_false, hargs, Sasl.takes_cons, hdata]
    simp [htakes, Mechanism.fed]
  · intro q hq
    rw [hall q hq, hargs, Mechanism.fed_fed]
    rfl

/-- **The client feeds the mechanism what the lines call for**, and accepts the exchange exactly
when the server concluded it and the mechanism took everything. -/
theorem follow_feeds (m : Mechanism ε) (pending : Option Bytes) (items : List (ManagesieveLine × ℕ))
    (hlines : ∀ line, .data line ∈ items.map Prod.fst → ∃ string, line.string 0 = some string) :
    Feeds lib m pending.isSome (items.map Prod.fst)
      ((client lib).follow (.reading m pending) items).verdict := by
  induction m, pending, items using reading_induction lib with
  | nil m pending =>
    refine Feeds.of_not_concluded lib [] ?_ List.nil_prefix ?_
      fun h => not_concluded_nil h.1
    · rw [Mechanism.fed_nil]
      rfl
    · rintro ⟨q, h⟩
      cases h
  | unreadable m pending line n items hs hd =>
    obtain ⟨string, hstring⟩ := hlines line (by simp)
    rw [hs] at hstring
    cases hstring
  | pending m payload line n items hd ih =>
    rw [Client.follow_send hd]
    obtain ⟨hfed, haccepted, hall⟩ := ih fun line h => hlines line (by simp [h])
    exact ⟨hfed, haccepted.trans (and_congr_left' concluded_data_true.symm), hall⟩
  | invalid m line n items hdata hd =>
    rw [Client.follow_send hd]
    obtain ⟨hm, hv⟩ := follow_aborting lib m .invalidBase64 items
    refine Feeds.of_not_concluded lib [] ?_ List.nil_prefix hv ?_
    · rw [Mechanism.fed_nil]
      exact hm
    · rintro ⟨h, -⟩
      simpa [hdata] using (concluded_data_false.1 h).1
  | input m line data payload n items hdata htakes hr hd ih =>
    rw [Client.follow_send hd]
    exact Feeds.input lib hdata htakes (ih fun line h => hlines line (by simp [h]))
  | refused m line data err n items hdata hrefuses hd =>
    have hargs : fedArgs lib false (.data line :: items.map Prod.fst) =
        .input data :: fedArgs lib false (items.map Prod.fst) := by
      rw [fedArgs, hdata]
    rw [Client.follow_send hd]
    obtain ⟨hm, hv⟩ := follow_aborting lib (m.fed [.input data]) err items
    refine Feeds.of_not_concluded lib _ hm ?_ hv ?_
    · exact hargs ▸ List.cons_prefix_cons.2 ⟨rfl, List.nil_prefix⟩
    · rintro ⟨-, h⟩
      exact (Sasl.takes_cons.1 (hargs ▸ h)).1 hrefuses
  | completion m pending completion n items hd =>
    have hargs : fedArgs lib pending.isSome (.completion completion :: items.map Prod.fst) =
        finalArgs lib completion := by rw [fedArgs]
    rw [Client.follow_stop hd]
    rcases m.complete_cases lib completion pending.isSome with
      ⟨hc, hstatus, hpending, hdecodes, htakes⟩ | ⟨err, args, hc, hpre, hnot⟩ <;> rw [hc]
    · refine ⟨⟨_, List.prefix_rfl, ?_⟩, ?_, ?_⟩
      · exact hargs ▸ rfl
      · refine iff_of_true ⟨_, rfl⟩ ⟨concluded_completion.2 ⟨hstatus, hpending, hdecodes⟩, ?_⟩
        exact hargs ▸ htakes
      · exact fun q _ => hargs ▸ rfl
    · refine Feeds.of_not_concluded lib args rfl (hargs ▸ hpre) ?_ ?_
      · rintro ⟨q, h⟩
        cases h
      · rintro ⟨h, htakes⟩
        obtain ⟨hstatus, hpending, hdecodes⟩ := concluded_completion.1 h
        exact hnot ⟨hstatus, hpending, hdecodes, hargs ▸ htakes⟩

/-- The lines at the front of a stream. -/
def linesOf (b : Bytes) : List ManagesieveLine := (lineParser.items b).1.map Prod.fst

/-- More bytes only add lines. -/
theorem linesOf_append (b t : Bytes) : linesOf b <+: linesOf (b ++ t) :=
  (lineParser.items_append b t).map Prod.fst

/-- A data line at the front of a stream opens on a string. -/
theorem string_zero_of_mem_linesOf {b : Bytes} {line : ManagesieveDataLine}
    (h : .data line ∈ linesOf b) : ∃ string, line.string 0 = some string := by
  obtain ⟨⟨line', n⟩, hmem, hline⟩ := List.mem_map.1 h
  obtain rfl : line' = .data line := hline
  obtain ⟨b', hb'⟩ := lineParser.parse_of_mem_items hmem
  exact ManagesieveLine.string_zero_of_parse hb'

/-- Whether what the mechanism says first is still unsent once the command is written. -/
def isUnsent (sasl : Sasl ε) (opts : ManagesieveAuthenticateOptions) : Bool :=
  (unsent sasl opts (sasl.payload [.none])).isSome

/-- An exchange is opened when the mechanism is framed and does not refuse its first resume. -/
theorem opening_cases (sasl : Sasl ε) :
    (opening sasl = .ok (sasl.payload [.none]) ∧ sasl.mechanism.isFramed = true ∧
        ¬ sasl.Refuses [.none]) ∨
      ∃ err, opening sasl = .error err ∧
        (sasl.mechanism.isFramed = false ∨ sasl.Refuses [.none]) := by
  cases hf : sasl.mechanism.isFramed with
  | false => exact Or.inr ⟨_, ManagesieveAuthenticate.opening_of_not_isFramed hf, Or.inl rfl⟩
  | true =>
    rw [ManagesieveAuthenticate.opening_of_isFramed hf, Mechanism.resume_fst]
    unfold Sasl.payload Sasl.Refuses
    simp only [List.nil_append]
    rcases sasl.answer [.none] with (payload | _) | (err | _)
    · exact Or.inl ⟨rfl, trivial, by simp⟩
    · exact Or.inl ⟨rfl, trivial, by simp⟩
    · exact Or.inr ⟨_, rfl, Or.inr ⟨err, rfl⟩⟩
    · exact Or.inl ⟨rfl, trivial, by simp⟩

theorem onError_ne_ok (q : Phase ε) (e : ManagesieveResponseParseError) :
    (client lib).onError q e ≠ .ok () := by
  intro h
  cases q <;> cases h

/-- On a stream too, the client feeds the mechanism what the lines call for. -/
theorem consume_feeds (m : Mechanism ε) (pending : Option Bytes) (b : Bytes) :
    Feeds lib m pending.isSome (linesOf b)
      ((client lib).consume (.reading m pending) b).verdict := by
  obtain ⟨hfed, haccepted, hall⟩ := follow_feeds lib m pending (lineParser.items b).1
    fun line => string_zero_of_mem_linesOf
  refine ⟨?_, ?_, fun q hq => ?_⟩
  · rw [Client.consume, Client.close_state]
    exact hfed
  · simp only [Client.consume, Client.close_verdict_eq (onError_ne_ok lib)]
    exact haccepted
  · rw [Client.consume, Client.close_verdict_eq (onError_ne_ok lib)] at hq
    rw [Client.consume, Client.close_state]
    exact hall q hq

/-- The resumes that the bytes of the server call for. -/
def argsOf (lib : Libraries) (sasl : Sasl ε) (opts : ManagesieveAuthenticateOptions) (b : Bytes) :
    List SaslArg :=
  .none :: fedArgs lib (isUnsent sasl opts) (linesOf b)

/-- The bytes of the server end the exchange in a success: the mechanism is framed, the server
concluded the exchange, and the mechanism takes every resume that this calls for. -/
def Accepts (lib : Libraries) (sasl : Sasl ε) (opts : ManagesieveAuthenticateOptions) (b : Bytes) :
    Prop :=
  sasl.mechanism.isFramed = true ∧ Concluded lib (isUnsent sasl opts) (linesOf b) ∧
    sasl.Takes [] (argsOf lib sasl opts b)

section Accepts

variable {lib : Libraries} {sasl : Sasl ε} {opts : ManagesieveAuthenticateOptions}

/-- The client accepts the exchange exactly when the bytes it was fed end it in a success. -/
theorem accepts_iff (hopen : opening sasl = .ok (sasl.payload [.none])) (b : Bytes) :
    Accepts lib sasl opts b ↔
      ∃ q, ((client lib).consume (firstPhase sasl opts (sasl.payload [.none])) b).verdict =
        .stopped (.ok ()) q := by
  have hfeeds := consume_feeds lib (⟨sasl, [.none]⟩ : Mechanism ε)
    (unsent sasl opts (sasl.payload [.none])) b
  have htakes : ¬ sasl.Refuses [.none] := by
    rcases opening_cases sasl with ⟨-, -, h⟩ | ⟨err, h, -⟩
    · exact h
    · rw [h] at hopen
      cases hopen
  rw [Accepts, argsOf, Sasl.takes_cons]
  refine Iff.trans ⟨fun h => ?_, fun h => ?_⟩ hfeeds.accepted.symm
  · exact ⟨h.2.1, h.2.2.2⟩
  · exact ⟨ManagesieveAuthenticate.isFramed_of_opening hopen, h.1, htakes, h.2⟩

/-- No bytes end well an exchange that was not opened. -/
theorem not_accepts {err : ManagesieveAuthenticateError ε} (hopen : opening sasl = .error err)
    (b : Bytes) : ¬ Accepts lib sasl opts b := by
  rintro ⟨hframed, -, htakes⟩
  rcases opening_cases sasl with ⟨h, -⟩ | ⟨err', -, h | h⟩
  · rw [h] at hopen
    cases hopen
  · rw [h] at hframed
    cases hframed
  · exact (Sasl.takes_cons.1 htakes).1 h

/-- A success does not depend on what follows it. -/
theorem Accepts.append {b : Bytes} (h : Accepts lib sasl opts b) (u : Bytes) :
    Accepts lib sasl opts (b ++ u) := by
  rcases opening_cases sasl with ⟨hopen, -⟩ | ⟨err, hopen, -⟩
  · obtain ⟨q, hq⟩ := (accepts_iff hopen b).1 h
    exact (accepts_iff hopen (b ++ u)).2 ⟨q, by rw [Client.consume_append hq, hq]⟩
  · exact absurd h (not_accepts hopen b)

end Accepts

end Exchange

/-! ## The coroutine -/

namespace ManagesieveAuthenticate

open Exchange

/-- What the mechanism was resumed with so far. -/
def history (self : ManagesieveAuthenticate ε) : List SaslArg :=
  (self.mechanism.map Mechanism.history).getD []

/-- What a run made of the bytes `b` it was fed: the mechanism was resumed with a prefix of what
they call for; the exchange is accepted exactly when they end it in a success. -/
structure FedAsCalled (lib : Libraries) (sasl : Sasl ε) (opts : ManagesieveAuthenticateOptions)
    (b : Bytes) (pause : Pause (ManagesieveAuthenticate ε) (Return ε)) : Prop where
  fed : pause.state.history <+: argsOf lib sasl opts b
  accepted : Authenticated pause ↔ Accepts lib sasl opts b
  accepted_fed : Authenticated pause → pause.state.history = argsOf lib sasl opts b

theorem drive_fedAsCalled (lib : Libraries) (sasl : Sasl ε) (opts : ManagesieveAuthenticateOptions)
    (cs : List Bytes) :
    FedAsCalled lib sasl opts
      (fedOf ((machine lib).drive (new sasl opts) none cs).events).flatten
      ((machine lib).drive (new sasl opts) none cs).pause := by
  generalize ht : (machine lib).drive (new sasl opts) none cs = t
  rcases opening_cases sasl with ⟨hopen, -⟩ | ⟨err, hopen, -⟩
  · have hspec := drive_new_spec lib opts hopen cs
    rw [ht] at hspec
    have hfeeds := consume_feeds lib (⟨sasl, [.none]⟩ : Mechanism ε)
      (unsent sasl opts (sasl.payload [.none])) (fedOf t.events).flatten
    have hhist : ∀ args, ((client lib).consume (firstPhase sasl opts (sasl.payload [.none]))
        (fedOf t.events).flatten).verdict.state.mechanism =
          Mechanism.fed (⟨sasl, [.none]⟩ : Mechanism ε) args →
        t.pause.state.history = .none :: args := by
      intro args hm
      rw [history, hspec.mechanism]
      exact congrArg Mechanism.history hm
    obtain ⟨⟨args, hpre, hm⟩, -, hall⟩ := hfeeds
    refine ⟨?_, hspec.authenticated.trans (accepts_iff hopen _).symm, fun hauth => ?_⟩
    · rw [hhist args hm]
      exact List.cons_prefix_cons.2 ⟨rfl, hpre⟩
    · obtain ⟨q, hq⟩ := hspec.authenticated.1 hauth
      exact hhist _ (hall q hq)
  · rw [drive_new_error hopen] at ht
    subst ht
    have hauth : ¬ Authenticated (.finished (.error err)
        ({ new sasl opts with
          sasl := none
          mechanism := if sasl.mechanism.isFramed then some ⟨sasl, [.none]⟩ else none } :
            ManagesieveAuthenticate ε)) := by
      rintro (⟨capability, h⟩ | ⟨capabilities, h⟩) <;> cases h
    refine ⟨?_, iff_of_false hauth (not_accepts hopen _), fun h => absurd h hauth⟩
    simp only [Pause.state, history]
    cases sasl.mechanism.isFramed
    · exact List.nil_prefix
    · exact List.cons_prefix_cons.2 ⟨rfl, List.nil_prefix⟩

/-- **The framing feeds the mechanism faithfully, and never lets a success reply stand in for it.**
In every run the mechanism was resumed with a prefix of what the bytes of the server call for; the
exchange is accepted exactly when they end it in a success, and the mechanism then saw all of it. A
run that waits for more was fed all that there was to read. -/
theorem drive_feeds (lib : Libraries) (sasl : Sasl ε) (opts : ManagesieveAuthenticateOptions)
    (cs : List Bytes) :
    let t := (machine lib).drive (new sasl opts) none cs
    let b := (fedOf t.events).flatten
    t.pause.state.history <+: argsOf lib sasl opts b ∧
      (Authenticated t.pause ↔ Accepts lib sasl opts b) ∧
      (Authenticated t.pause → t.pause.state.history = argsOf lib sasl opts b) ∧
      ∀ s, t.pause = .waiting s → fedOf t.events = cs := by
  obtain ⟨hfed, haccepted, hall⟩ := drive_fedAsCalled lib sasl opts cs
  refine ⟨hfed, haccepted, hall, fun s hs => ?_⟩
  have hreads := Machine.fed_append_unfed (m := machine lib) (new sasl opts) none cs
  rwa [Machine.unfed_of_waiting hs, List.append_nil] at hreads

end ManagesieveAuthenticate

end ManageSieve
