import Mathlib.Data.List.ReduceOption
import ManageSieve.Rfc5804.Feeding

/-!
# What the mechanism says, and what is written of it

The payloads that a mechanism yields, against those the framing writes: with the command, or as the
answer to a challenge (`Exchange.said`). `ManagesieveAuthenticate.SpeaksFirst` is what a run should
do about them: a run that ends well wrote all of them, and one at least before the read that brought
the OK; an OK that came before any was written ends the run on `UnexpectedOk`.

`ManagesieveAuthenticate.drive_speaks` says which runs do. The coroutine looks at the payload that
is still to be sent and at nothing else, so that the others depend on when the reads of the server
come, and on what the mechanism has to say to the completion.
-/

namespace ManageSieve

open Coroutine Reactor

variable {ε : Type*}

/-- What the mechanism yields on the resumes with `args`, made after `history`. -/
def Sasl.payloads (sasl : Sasl ε) : List SaslArg → List SaslArg → List Bytes
  | _, [] => []
  | history, arg :: args =>
    (sasl.payload (history ++ [arg])).toList ++ sasl.payloads (history ++ [arg]) args

theorem Sasl.payloads_append (sasl : Sasl ε) (history args args' : List SaslArg) :
    sasl.payloads history (args ++ args') =
      sasl.payloads history args ++ sasl.payloads (history ++ args) args' := by
  induction args generalizing history with
  | nil => simp [payloads]
  | cons arg args ih => simp [payloads, ih]

theorem Sasl.takes_append {sasl : Sasl ε} {history args args' : List SaslArg} :
    sasl.Takes history (args ++ args') ↔
      sasl.Takes history args ∧ sasl.Takes (history ++ args) args' := by
  induction args generalizing history with
  | nil => simp [Sasl.takes_nil]
  | cons arg args ih =>
    rw [List.cons_append, Sasl.takes_cons, Sasl.takes_cons, ih, and_assoc, List.append_assoc,
      List.singleton_append]

theorem Mechanism.resume_ne_unexpectedOk (m : Mechanism ε) (arg : SaslArg) :
    (m.resume arg).1 ≠ .error .unexpectedOk := by
  rcases m.resume_cases arg with ⟨err, -, hr⟩ | ⟨payload, -, hr⟩ <;> rw [hr] <;> simp

/-- Only a payload that is pending makes an OK unexpected. -/
theorem Mechanism.complete_ne_unexpectedOk (lib : Libraries) (m : Mechanism ε)
    (completion : ManagesieveCompletion) :
    (m.complete lib completion false).1 ≠ .error .unexpectedOk := by
  intro h
  unfold Mechanism.complete at h
  by_cases hstatus : completion.status ≠ .ok
  · rw [if_pos hstatus] at h
    cases h
  · rw [if_neg hstatus, if_neg Bool.false_ne_true] at h
    rcases hf : m.feedFinalData lib completion.code with ⟨err | _, m'⟩ <;> rw [hf] at h
    · cases h
      unfold Mechanism.feedFinalData at hf
      split at hf
      · split at hf
        · cases hf
        · exact m.resume_ne_unexpectedOk _ (congrArg Prod.fst hf)
      · cases hf
    · dsimp only at h
      rcases hd : m'.resume .done with ⟨err | _, m''⟩ <;> rw [hd] at h <;> cases h
      exact m'.resume_ne_unexpectedOk _ (congrArg Prod.fst hd)

namespace Exchange

/-! ## Challenges and completion -/

/-- The challenges at the front of some lines. -/
def challengesOf : List ManagesieveLine → List ManagesieveDataLine
  | .data line :: lines => line :: challengesOf lines
  | _ => []

/-- The completion behind them. -/
def completionOf : List ManagesieveLine → Option ManagesieveCompletion
  | [] => none
  | .data _ :: lines => completionOf lines
  | .completion completion :: _ => some completion

theorem challengesOf_isPrefix {front lines : List ManagesieveLine} (h : front <+: lines) :
    challengesOf front <+: challengesOf lines := by
  obtain ⟨more, rfl⟩ := h
  induction front with
  | nil => exact List.nil_prefix
  | cons line front ih =>
    cases line with
    | data line => exact (List.prefix_cons_inj line).2 ih
    | completion completion => exact List.prefix_refl _

/-- What comes past the completion makes no difference. -/
theorem completionOf_isPrefix {front lines : List ManagesieveLine} (h : front <+: lines)
    {completion : ManagesieveCompletion} (hc : completionOf front = some completion) :
    completionOf lines = some completion ∧ challengesOf lines = challengesOf front := by
  obtain ⟨more, rfl⟩ := h
  induction front with
  | nil => cases hc
  | cons line front ih =>
    cases line with
    | data line =>
      obtain ⟨hcompletion, hchallenges⟩ := ih hc
      exact ⟨hcompletion, congrArg (line :: ·) hchallenges⟩
    | completion completion' => exact ⟨hc, rfl⟩

/-- Lines are challenges, and behind them nothing or a completion. -/
theorem lines_cases (lines : List ManagesieveLine) :
    (completionOf lines = none ∧ lines = (challengesOf lines).map .data ++ []) ∨
      ∃ completion rest, completionOf lines = some completion ∧
        lines = (challengesOf lines).map .data ++ .completion completion :: rest := by
  induction lines with
  | nil => exact Or.inl ⟨rfl, rfl⟩
  | cons line lines ih =>
    cases line with
    | completion completion => exact Or.inr ⟨completion, lines, rfl, rfl⟩
    | data line =>
      rcases ih with ⟨hnone, hlines⟩ | ⟨completion, rest, hsome, hlines⟩
      · exact Or.inl ⟨hnone, congrArg (.data line :: ·) hlines⟩
      · exact Or.inr ⟨completion, rest, hsome, congrArg (.data line :: ·) hlines⟩

theorem string_zero_of_mem_challengesOf {b : Bytes} {line : ManagesieveDataLine}
    (h : line ∈ challengesOf (linesOf b)) : ∃ string, line.string 0 = some string := by
  have hmem : .data line ∈ (challengesOf (linesOf b)).map ManagesieveLine.data :=
    List.mem_map_of_mem h
  refine string_zero_of_mem_linesOf (b := b) ?_
  rcases lines_cases (linesOf b) with ⟨-, hlines⟩ | ⟨completion, rest, -, hlines⟩ <;> rw [hlines]
  · exact List.mem_append_left _ hmem
  · exact List.mem_append_left _ hmem

/-! ## What the challenges call for, and how they are answered -/

variable (lib : Libraries)

/-- What the challenges call for; `unsent` when the first one is answered with the payload that did
not go out with the command. -/
def challengeArgs : Bool → List ManagesieveDataLine → List SaslArg
  | _, [] => []
  | true, _ :: challenges => challengeArgs false challenges
  | false, line :: challenges =>
    match challengeData lib line with
    | some data => .input data :: challengeArgs false challenges
    | none => []

/-- No challenge cancels the exchange: each of them decodes, and the mechanism takes it. -/
def Heeds (sasl : Sasl ε) : Bool → List SaslArg → List ManagesieveDataLine → Prop
  | _, _, [] => True
  | true, history, _ :: challenges => Heeds sasl false history challenges
  | false, history, line :: challenges =>
    ∃ data, challengeData lib line = some data ∧ ¬ sasl.Refuses (history ++ [.input data]) ∧
      Heeds sasl false (history ++ [.input data]) challenges

/-- What each challenge is answered with: the payload still pending, or what the mechanism
yields. -/
def answers (sasl : Sasl ε) : Option Bytes → List SaslArg → List ManagesieveDataLine →
    List (Option Bytes)
  | _, _, [] => []
  | some payload, history, _ :: challenges => some payload :: answers sasl none history challenges
  | none, history, line :: challenges =>
    match challengeData lib line with
    | some data =>
      sasl.payload (history ++ [.input data]) ::
        answers sasl none (history ++ [.input data]) challenges
    | none => []

/-- The payload that is still pending behind some challenges. -/
def leftover (pending : Option Bytes) : List ManagesieveDataLine → Option Bytes
  | [] => pending
  | _ :: _ => none

theorem leftover_none (challenges : List ManagesieveDataLine) :
    leftover none challenges = none := by
  cases challenges <;> rfl

theorem leftover_isSome {pending : Option Bytes} {challenges : List ManagesieveDataLine} :
    (leftover pending challenges).isSome = false ↔ (pending.isSome = true → challenges ≠ []) := by
  cases challenges <;> simp [leftover]

variable {lib} {sasl : Sasl ε} {challenges : List ManagesieveDataLine}

theorem Heeds.of_isPrefix {first : Bool} {history : List SaslArg}
    {front : List ManagesieveDataLine} (h : Heeds lib sasl first history challenges)
    (hfront : front <+: challenges) : Heeds lib sasl first history front := by
  obtain ⟨more, rfl⟩ := hfront
  induction front generalizing first history with
  | nil => cases first <;> trivial
  | cons line front ih =>
    cases first with
    | true => exact ih h
    | false =>
      obtain ⟨data, hdata, htakes, h⟩ := h
      exact ⟨data, hdata, htakes, ih h⟩

/-- A challenge that only asks for the first payload calls for nothing else. -/
theorem heeds_of_length_le {first : Bool} (h : challenges.length ≤ first.toNat)
    (history : List SaslArg) : Heeds lib sasl first history challenges := by
  rcases challenges with _ | ⟨line, _ | ⟨line', challenges⟩⟩
  · cases first <;> trivial
  · cases first with
    | true => trivial
    | false => exact absurd h (Nat.not_succ_le_zero 0)
  · have := Bool.toNat_le first
    simp only [List.length_cons] at h
    omega

/-- What is said in answer to the challenges is what the mechanism yields on them. -/
theorem reduceOption_answers_none {history : List SaslArg}
    (h : Heeds lib sasl false history challenges) :
    (answers lib sasl none history challenges).reduceOption =
      sasl.payloads history (challengeArgs lib false challenges) := by
  induction challenges generalizing history with
  | nil => rfl
  | cons line challenges ih =>
    obtain ⟨data, hdata, -, h⟩ := h
    have ih := ih h
    cases hpayload : sasl.payload (history ++ [.input data]) <;>
      simp_all [answers, challengeArgs, Sasl.payloads, List.reduceOption_cons_of_some,
        List.reduceOption_cons_of_none]

/-- A resume that succeeds hands over what the mechanism yields. -/
theorem payload_of_resume {m : Mechanism ε} {arg : SaslArg} {payload : Option Bytes}
    (h : (m.resume arg).1 = .ok payload) : payload = m.sasl.payload (m.history ++ [arg]) := by
  rw [Mechanism.resume_fst] at h
  unfold Sasl.payload
  rcases ha : m.sasl.answer (m.history ++ [arg]) with (payload' | _) | (err | _) <;>
    rw [ha] at h <;> cases h <;> rfl

/-- **Challenges that cancel nothing are answered**, one after the other, and the mechanism saw
what they call for. -/
theorem follow_heeds {m : Mechanism ε} {pending : Option Bytes}
    {items : List (ManagesieveLine × ℕ)} {rest : List ManagesieveLine}
    (hitems : items.map Prod.fst = challenges.map .data ++ rest)
    (hlines : ∀ line ∈ challenges, ∃ string, line.string 0 = some string)
    (h : Heeds lib m.sasl pending.isSome m.history challenges) :
    ∃ n items', items'.map Prod.fst = rest ∧
      (client lib).follow (.reading m pending) items =
        ((client lib).follow (.reading (m.fed (challengeArgs lib pending.isSome challenges))
          (leftover pending challenges)) items').after
            ((answers lib m.sasl pending m.history challenges).map
              fun payload => clientResponse lib (payload.getD [])) n := by
  induction challenges generalizing m pending items with
  | nil => exact ⟨0, items, hitems, by cases pending <;> simp [challengeArgs, answers, leftover]⟩
  | cons line challenges ih =>
    obtain ⟨⟨-, k⟩, later, rfl, rfl, hlater⟩ := List.map_eq_cons_iff.1 hitems
    have hline := hlines line List.mem_cons_self
    have hrest := fun line h => hlines line (List.mem_cons_of_mem _ h)
    cases pending with
    | some payload =>
      obtain ⟨n, items', hitems', hfollow⟩ := @ih m none later hlater hrest h
      refine ⟨k + n, items', hitems', ?_⟩
      rw [Client.follow_send (decide_pending lib hline payload), hfollow, Followed.after_after,
        leftover_none]
      rfl
    | none =>
      obtain ⟨data, hdata, htakes, h⟩ := h
      rcases decide_input lib (m := m) hdata with ⟨payload, -, hr, hd⟩ | ⟨err, hrefuses, -⟩
      · obtain ⟨n, items', hitems', hfollow⟩ := @ih (m.fed [.input data]) none later hlater hrest h
        have hargs : challengeArgs lib (none : Option Bytes).isSome (line :: challenges) =
            .input data :: challengeArgs lib false challenges := by
          rw [Option.isSome_none, challengeArgs, hdata]
        have hanswers : answers lib m.sasl none m.history (line :: challenges) =
            m.sasl.payload (m.history ++ [.input data]) ::
              answers lib m.sasl none (m.history ++ [.input data]) challenges := by
          rw [answers, hdata]
        refine ⟨k + n, items', hitems', ?_⟩
        rw [Client.follow_send hd, hfollow, Followed.after_after, payload_of_resume hr,
          Mechanism.fed_fed, leftover_none, hargs, hanswers]
        rfl
      · exact absurd hrefuses htakes

section Consume

variable {m : Mechanism ε} {pending : Option Bytes} {b : Bytes}
  (hh : Heeds lib m.sasl pending.isSome m.history (challengesOf (linesOf b)))

include hh

/-- Before its completion, an exchange answered its challenges. -/
theorem consume_of_none (hb : completionOf (linesOf b) = none) :
    ((client lib).consume (.reading m pending) b).writes =
        (answers lib m.sasl pending m.history (challengesOf (linesOf b))).map
          (fun payload => clientResponse lib (payload.getD [])) ∧
      ¬ ∃ q, ((client lib).consume (.reading m pending) b).verdict = .stopped (.ok ()) q := by
  rcases lines_cases (linesOf b) with ⟨-, hlines⟩ | ⟨completion, rest, hsome, -⟩
  swap
  · rw [hb] at hsome
    cases hsome
  obtain ⟨n, items', hnil, hfollow⟩ :=
    follow_heeds hlines (fun _ => string_zero_of_mem_challengesOf) hh
  obtain rfl := List.map_eq_nil_iff.1 hnil
  have hwrites : ((client lib).follow (.reading m pending) (lineParser.items b).1).writes =
      (answers lib m.sasl pending m.history (challengesOf (linesOf b))).map
        fun payload => clientResponse lib (payload.getD []) := by
    rw [hfollow]
    exact List.append_nil _
  refine ⟨(Client.close_writes _ _).trans hwrites, ?_⟩
  rintro ⟨q, hq⟩
  have hstopped : ((client lib).follow (.reading m pending) (lineParser.items b).1).verdict = _ :=
    (Client.close_verdict_eq (onError_ne_ok lib)).1 hq
  rw [hfollow] at hstopped
  cases hstopped

/-- At its completion, it ends on what the mechanism makes of it. -/
theorem consume_of_completion {completion : ManagesieveCompletion}
    (hb : completionOf (linesOf b) = some completion) :
    ((client lib).consume (.reading m pending) b).writes =
        (answers lib m.sasl pending m.history (challengesOf (linesOf b))).map
          (fun payload => clientResponse lib (payload.getD [])) ∧
      ∃ q, ((client lib).consume (.reading m pending) b).verdict =
        .stopped ((m.fed (challengeArgs lib pending.isSome (challengesOf (linesOf b)))).complete lib
          completion (leftover pending (challengesOf (linesOf b))).isSome).1 q := by
  rcases lines_cases (linesOf b) with ⟨hnone, -⟩ | ⟨completion', rest, hsome, hlines⟩
  · rw [hb] at hnone
    cases hnone
  obtain rfl : completion = completion' := Option.some.inj (hb.symm.trans hsome)
  obtain ⟨n, items', hitems, hfollow⟩ :=
    follow_heeds hlines (fun _ => string_zero_of_mem_challengesOf) hh
  obtain ⟨⟨-, k⟩, later, rfl, rfl, -⟩ := List.map_eq_cons_iff.1 hitems
  rw [Client.follow_stop rfl] at hfollow
  have hconsume : (client lib).consume (.reading m pending) b =
      (client lib).close ((client lib).follow (.reading m pending) (lineParser.items b).1)
        (lineParser.items b).2 := rfl
  rw [hconsume, hfollow]
  refine ⟨(Client.close_writes _ _).trans (List.append_nil _), ?_⟩
  rcases (lineParser.items b).2 with _ | err <;> exact ⟨_, rfl⟩

end Consume

section Concluded

variable {first : Bool} {history : List SaslArg} {lines : List ManagesieveLine}

/-- Up to its completion, an exchange calls for its challenges, then for its completion. -/
theorem fedArgs_eq {completion : ManagesieveCompletion} (hc : completionOf lines = some completion)
    (h : Heeds lib sasl first history (challengesOf lines)) :
    fedArgs lib first lines =
      challengeArgs lib first (challengesOf lines) ++ finalArgs lib completion := by
  induction lines generalizing first history with
  | nil => cases hc
  | cons line lines ih =>
    cases line with
    | completion completion' =>
      cases hc
      cases first <;> rfl
    | data line =>
      cases first with
      | true => exact ih hc h
      | false =>
        obtain ⟨data, hdata, -, h⟩ := h
        rw [fedArgs, hdata, challengesOf, challengeArgs, hdata]
        exact congrArg (.input data :: ·) (ih hc h)

/-- A concluded exchange that the mechanism takes part in cancels nothing. -/
theorem Concluded.heeds (h : Concluded lib first lines)
    (ht : sasl.Takes history (fedArgs lib first lines)) :
    ∃ completion, completionOf lines = some completion ∧ completion.status = .ok ∧
      (first = true → challengesOf lines ≠ []) ∧ FinalDecodes lib completion ∧
      Heeds lib sasl first history (challengesOf lines) := by
  induction h using Concluded.induction generalizing history with
  | completion completion lines h =>
    obtain ⟨hstatus, -, hfinal⟩ := concluded_completion.1 h
    exact ⟨completion, rfl, hstatus, by simp, hfinal, trivial⟩
  | unsent line lines h ih =>
    obtain ⟨completion, hc, hstatus, -, hfinal, hheeds⟩ := ih ht
    exact ⟨completion, hc, hstatus, fun _ => List.cons_ne_nil _ _, hfinal, hheeds⟩
  | challenge line lines data hdata h ih =>
    rw [fedArgs, hdata] at ht
    obtain ⟨htakes, ht⟩ := Sasl.takes_cons.1 ht
    obtain ⟨completion, hc, hstatus, -, hfinal, hheeds⟩ := ih ht
    exact ⟨completion, hc, hstatus, by simp, hfinal, data, hdata, htakes, hheeds⟩

end Concluded

/-- What goes out with the command. -/
def inlined (sasl : Sasl ε) (opts : ManagesieveAuthenticateOptions) : Option Bytes :=
  if inlines sasl opts then sasl.payload [.none] else none

variable (lib) in
/-- The payloads that the messages carry, up to the answer to the last of some challenges: the
command, then one answer to each. -/
def said (sasl : Sasl ε) (opts : ManagesieveAuthenticateOptions)
    (challenges : List ManagesieveDataLine) : List (Option Bytes) :=
  inlined sasl opts ::
    answers lib sasl (unsent sasl opts (sasl.payload [.none])) [.none] challenges

variable (lib) in
/-- The messages that carry some payloads. -/
def messages (mechanism : SaslMechanism) : List (Option Bytes) → List Bytes
  | [] => []
  | payload :: payloads =>
    ManagesieveAuthenticateCommand.toBytes lib ⟨mechanism, payload⟩ ::
      payloads.map fun payload => clientResponse lib (payload.getD [])

/-- What the mechanism says first goes out with the command, or is still to be sent. -/
theorem unsent_cases (sasl : Sasl ε) (opts : ManagesieveAuthenticateOptions) :
    (unsent sasl opts (sasl.payload [.none]) = none ∧
        inlined sasl opts = sasl.payload [.none]) ∨
      ∃ payload, unsent sasl opts (sasl.payload [.none]) = some payload ∧
        inlined sasl opts = none ∧ sasl.payload [.none] = some payload := by
  unfold unsent inlined
  cases inlines sasl opts <;> cases sasl.payload [.none] <;> simp

/-- Once the first payload went out, what is said is all that the mechanism yields. -/
theorem reduceOption_said {opts : ManagesieveAuthenticateOptions}
    (h : Heeds lib sasl (isUnsent sasl opts) [.none] challenges)
    (hsent : isUnsent sasl opts = true → challenges ≠ []) :
    (said lib sasl opts challenges).reduceOption =
      sasl.payloads [] (.none :: challengeArgs lib (isUnsent sasl opts) challenges) := by
  have hpayloads : ∀ args, sasl.payloads [] (.none :: args) =
      (sasl.payload [.none]).toList ++ sasl.payloads [.none] args := fun _ => rfl
  rw [hpayloads]
  rcases unsent_cases sasl opts with ⟨hunsent, hinlined⟩ | ⟨payload, hunsent, hinlined, hfirst⟩
  · have hno : isUnsent sasl opts = false := by rw [isUnsent, hunsent, Option.isSome_none]
    rw [hno] at h ⊢
    rw [said, hunsent, hinlined, ← reduceOption_answers_none h]
    cases sasl.payload [.none] <;>
      simp [List.reduceOption_cons_of_some, List.reduceOption_cons_of_none]
  · have hyes : isUnsent sasl opts = true := by rw [isUnsent, hunsent, Option.isSome_some]
    obtain ⟨line, challenges, rfl⟩ := List.exists_cons_of_ne_nil (hsent hyes)
    rw [hyes] at h ⊢
    rw [said, hunsent, hinlined, hfirst, answers, challengeArgs, ← reduceOption_answers_none h]
    simp [List.reduceOption_cons_of_some, List.reduceOption_cons_of_none]

variable (lib) in
/-- The mechanism yields a payload on its start or on one of some challenges, and the one that did
not go out with the command is asked for. -/
def Speaks (sasl : Sasl ε) (opts : ManagesieveAuthenticateOptions)
    (challenges : List ManagesieveDataLine) : Prop :=
  (isUnsent sasl opts = true → challenges ≠ []) ∧
    sasl.payloads [] (.none :: challengeArgs lib (isUnsent sasl opts) challenges) ≠ []

theorem reduceOption_said_ne_nil {opts : ManagesieveAuthenticateOptions}
    (h : Heeds lib sasl (isUnsent sasl opts) [.none] challenges) :
    (said lib sasl opts challenges).reduceOption ≠ [] ↔ Speaks lib sasl opts challenges := by
  by_cases hsent : isUnsent sasl opts = true → challenges ≠ []
  · rw [reduceOption_said h hsent, Speaks, and_iff_right hsent]
  · refine iff_of_false (not_not.2 ?_) fun h => hsent h.1
    push Not at hsent
    obtain ⟨hunsent, rfl⟩ := hsent
    rcases unsent_cases sasl opts with ⟨hno, -⟩ | ⟨payload, -, hinlined, -⟩
    · rw [isUnsent, hno] at hunsent
      cases hunsent
    · rw [said, hinlined]
      rfl

end Exchange

/-! ## Whole runs -/

namespace ManagesieveAuthenticate

open Exchange

/-- The challenges that were read. -/
def heard (es : List (Event UInt8 ManagesieveYield)) : List ManagesieveDataLine :=
  challengesOf (linesOf (fedOf es).flatten)

/-- After the events `before` of a run, the read `c` brings the completion that ends the exchange:
none had come before, and no challenge up to it cancels the exchange. -/
structure Brings (lib : Libraries) (sasl : Sasl ε) (opts : ManagesieveAuthenticateOptions)
    (es before : List (Event UInt8 ManagesieveYield)) (c : Bytes)
    (completion : ManagesieveCompletion) : Prop where
  read : ∃ after, es = before ++ .fed c :: after
  awaited : completionOf (linesOf (fedOf before).flatten) = none
  brought : completionOf (linesOf (fedOf (before ++ [.fed c])).flatten) = some completion
  heeded : Heeds lib sasl (isUnsent sasl opts) [.none] (heard (before ++ [.fed c]))

/-- What a run ends on once the exchange ended on `result`, the reads `post` being left. -/
def closing (opts : ManagesieveAuthenticateOptions) (result : Result ε) (post : List Bytes) :
    Option (Return ε) :=
  match result with
  | .error err => some (.error err)
  | .ok () =>
    if opts.ensureCapabilities then
      (ManagesieveCapabilityGet.machine.drive .new none post).pause.result.map
        (Except.mapError .capability)
    else some (.ok .default)

theorem result_after_finish (lib : Libraries) (opts : ManagesieveAuthenticateOptions)
    (result : Result ε) (s : Phase ε × Bytes) (post : List Bytes) :
    ((machine lib).after (finish opts result s) post).pause.result = closing opts result post := by
  rcases result with err | _
  · rfl
  cases he : opts.ensureCapabilities with
  | false => simp [finish, closing, he, Machine.after, Pause.result]
  | true =>
    rw [after_accepted s post he, Pause.result_map, closing, he, ManagesieveCapabilityGet.machine,
      Machine.drive_mapDone, ManagesieveCapabilityGet.new, ManagesieveCommandSend.drive_new]
    simp [Pause.result_map, Function.comp_def]

/-- What was read so far stays at the front of what is read. -/
theorem linesOf_fedOf_isPrefix (es es' : List (Event UInt8 ManagesieveYield)) :
    linesOf (fedOf es).flatten <+: linesOf (fedOf (es ++ es')).flatten := by
  rw [fedOf_append, List.flatten_append]
  exact linesOf_append _ _

theorem closing_eq_ok {opts : ManagesieveAuthenticateOptions} {result : Result ε}
    {post : List Bytes} {capabilities : ManagesieveCapabilities}
    (h : closing opts result post = some (.ok capabilities)) :
    result = .ok () ∧ (opts.ensureCapabilities = true →
      (ManagesieveCapabilityGet.machine.drive .new none post).pause.result =
        some (.ok capabilities)) := by
  rcases result with err | _
  · cases h
  refine ⟨rfl, fun he => ?_⟩
  simp only [closing, he, if_true, Option.map_eq_some_iff] at h
  obtain ⟨out, hout, hok⟩ := h
  rcases out with err | capabilities' <;> cases hok
  exact hout

theorem closing_ne_unexpectedOk {opts : ManagesieveAuthenticateOptions} {result : Result ε}
    (h : result ≠ .error .unexpectedOk) (post : List Bytes) :
    closing opts result post ≠ some (.error .unexpectedOk) := by
  intro hc
  rcases result with err | _
  · exact h (congrArg Except.error (by simpa [closing] using hc))
  · simp only [closing] at hc
    split_ifs at hc
    · obtain ⟨out, -, hout⟩ := Option.map_eq_some_iff.1 hc
      rcases out with err | capabilities <;> cases hout
    · cases hc

/-- What was read up to a completion tells how the whole run looks. -/
theorem heard_read {es before after : List (Event UInt8 ManagesieveYield)} {c : Bytes}
    {completion : ManagesieveCompletion} (hes : es = before ++ .fed c :: after)
    (hc : completionOf (linesOf (fedOf (before ++ [.fed c])).flatten) = some completion) :
    completionOf (linesOf (fedOf es).flatten) = some completion ∧
      heard es = heard (before ++ [.fed c]) := by
  have h := linesOf_fedOf_isPrefix (before ++ [.fed c]) after
  rw [List.append_assoc, List.singleton_append, ← hes] at h
  exact completionOf_isPrefix h hc

section Brings

variable {lib : Libraries} {sasl : Sasl ε} {opts : ManagesieveAuthenticateOptions}
  {cs post : List Bytes} {before : List (Event UInt8 ManagesieveYield)} {c : Bytes}
  {completion : ManagesieveCompletion}
  (hb : Brings lib sasl opts ((machine lib).drive (new sasl opts) none cs).events before c
    completion)

include hb

theorem Brings.opened : opening sasl = .ok (sasl.payload [.none]) := by
  rcases opening_cases sasl with ⟨hopen, -⟩ | ⟨err, hopen, -⟩
  · exact hopen
  · obtain ⟨after, hes⟩ := hb.read
    rw [drive_new_error hopen] at hes
    exact absurd hes.symm (List.append_ne_nil_of_right_ne_nil _ (List.cons_ne_nil _ _))

theorem Brings.heeded_before : Heeds lib sasl (isUnsent sasl opts) [.none] (heard before) :=
  hb.heeded.of_isPrefix (challengesOf_isPrefix (linesOf_fedOf_isPrefix before _))

theorem Brings.reads : ∃ post, cs = fedOf before ++ c :: post := by
  obtain ⟨after, hes⟩ := hb.read
  have hfed := Machine.fed_append_unfed (m := machine lib) (new sasl opts) none cs
  rw [hes, fedOf_append, fedOf_fed, List.append_assoc, List.cons_append] at hfed
  exact ⟨_, hfed.symm⟩

/-- What was written before the read is the command and the answers to the challenges that were
read. -/
theorem Brings.writes :
    writesOf before = messages lib sasl.mechanism (said lib sasl opts (heard before)) := by
  obtain ⟨after, hes⟩ := hb.read
  obtain ⟨s, hwaits⟩ := Machine.drive_before_fed hes
  have hspec := drive_new_spec lib opts hb.opened (fedOf before)
  rw [hwaits] at hspec
  obtain ⟨hwrites, hnot⟩ := @consume_of_none _ lib ⟨sasl, [.none]⟩
    (unsent sasl opts (sasl.payload [.none])) _ hb.heeded_before hb.awaited
  have hrefresh : refresh opts ((client lib).consume (firstPhase sasl opts (sasl.payload [.none]))
      (fedOf before).flatten).verdict = [] := by
    unfold refresh
    split
    · next q hq => exact absurd ⟨q, hq⟩ hnot
    · rfl
  rw [hspec.writes, hrefresh, List.append_nil, firstPhase, hwrites]
  rfl

/-- The client waits for the read. -/
theorem Brings.waits : ∃ s, ((client lib).machine.drive
    (firstPhase sasl opts (sasl.payload [.none]), []) none (fedOf before)).pause = .waiting s := by
  obtain ⟨after, hes⟩ := hb.read
  obtain ⟨s, hwaits⟩ := Machine.drive_before_fed hes
  have hsettled := Client.drive_settled (c := client lib)
    (firstPhase sasl opts (sasl.payload [.none]), []) none (fedOf before) (by simp)
  have hfed := Machine.fed_append_unfed (m := (client lib).machine)
    (firstPhase sasl opts (sasl.payload [.none]), []) none (fedOf before)
  obtain ⟨-, hnot⟩ := @consume_of_none _ lib ⟨sasl, [.none]⟩
    (unsent sasl opts (sasl.payload [.none])) _ hb.heeded_before hb.awaited
  rw [drive_new hb.opened] at hwaits
  generalize (client lib).machine.drive (firstPhase sasl opts (sasl.payload [.none]), []) none
    (fedOf before) = t at hwaits hsettled hfed ⊢
  simp only [Option.toList_none, List.nil_append] at hsettled
  have hv := verdict_of_settled hsettled
  rcases t with ⟨es, s' | ⟨err | _, s'⟩ | ⟨msg, s'⟩, unfed⟩
  · exact ⟨s', rfl⟩
  · cases congrArg Transcript.pause hwaits
  · refine absurd ⟨s'.1, ?_⟩ hnot
    rw [← hfed, List.flatten_append]
    exact (congrArg Followed.verdict (Client.consume_append hv _)).trans hv
  · exact hv.elim

/-- **What a run ends on is settled by the read that brings the completion.** -/
theorem Brings.result (hcs : cs = fedOf before ++ c :: post) :
    ((machine lib).drive (new sasl opts) none cs).pause.result =
      closing opts (((⟨sasl, [.none]⟩ : Mechanism ε).fed
        (challengeArgs lib (isUnsent sasl opts) (heard (before ++ [.fed c])))).complete lib
          completion (leftover (unsent sasl opts (sasl.payload [.none]))
            (heard (before ++ [.fed c]))).isSome).1 post := by
  obtain ⟨s, hwaits⟩ := hb.waits
  obtain ⟨-, q, hq⟩ := @consume_of_completion _ lib ⟨sasl, [.none]⟩
    (unsent sasl opts (sasl.payload [.none])) _ hb.heeded _ hb.brought
  have hbytes : (fedOf (before ++ [.fed c])).flatten = (fedOf before).flatten ++ c := by
    simp
  rw [hbytes] at hq
  obtain ⟨es, rest, hdrive⟩ := Client.drive_stopped_by hwaits hq post
  rw [drive_new hb.opened, hcs, hdrive]
  exact (result_after_finish lib opts _ (q, rest) post).trans (by rw [heard, hbytes]; rfl)

end Brings

/-- A success that is granted: its final data decodes, the mechanism takes that and the end of the
exchange, and CAPABILITY is answered well when it is asked for. -/
structure Grants (lib : Libraries) (sasl : Sasl ε) (opts : ManagesieveAuthenticateOptions)
    (args : List SaslArg) (completion : ManagesieveCompletion) (post : List Bytes) : Prop where
  decodes : FinalDecodes lib completion
  taken : sasl.Takes args (finalArgs lib completion)
  refreshed : opts.ensureCapabilities = true → ∃ capabilities,
    (ManagesieveCapabilityGet.machine.drive .new none post).pause.result = some (.ok capabilities)

theorem Grants.closing {lib : Libraries} {sasl : Sasl ε} {opts : ManagesieveAuthenticateOptions}
    {args : List SaslArg} {completion : ManagesieveCompletion} {post : List Bytes}
    (h : Grants lib sasl opts args completion post) (hstatus : completion.status = .ok) :
    ∃ capabilities, ManagesieveAuthenticate.closing opts
      ((⟨sasl, args⟩ : Mechanism ε).complete lib completion false).1 post =
        some (.ok capabilities) := by
  rcases Mechanism.complete_cases lib ⟨sasl, args⟩ completion false with
    ⟨hc, -⟩ | ⟨err, args', -, -, hnot⟩
  · rw [hc]
    cases he : opts.ensureCapabilities with
    | false => exact ⟨.default, by simp [ManagesieveAuthenticate.closing, he]⟩
    | true =>
      obtain ⟨capabilities, hasked⟩ := h.refreshed he
      exact ⟨capabilities, by simp [ManagesieveAuthenticate.closing, he, hasked, Except.mapError]⟩
  · exact absurd ⟨hstatus, rfl, h.decodes, h.taken⟩ hnot

/-- What a run should do about the payloads of its mechanism. -/
structure SpeaksFirst (lib : Libraries) (sasl : Sasl ε) (opts : ManagesieveAuthenticateOptions)
    (t : Transcript (ManagesieveAuthenticate ε) UInt8 ManagesieveYield (Return ε)) : Prop where
  /-- A success was brought by a read, before which a payload was written. -/
  spoke : ∀ capabilities, t.pause.result = some (.ok capabilities) →
    ∃ before c completion, Brings lib sasl opts t.events before c completion ∧
      writesOf before = messages lib sasl.mechanism (said lib sasl opts (heard before)) ∧
      (said lib sasl opts (heard before)).reduceOption ≠ []
  /-- All the payloads were written by then. -/
  inFull : ∀ capabilities, t.pause.result = some (.ok capabilities) →
    writesOf t.events = messages lib sasl.mechanism (said lib sasl opts (heard t.events)) ++
        (if opts.ensureCapabilities then [ManagesieveCapabilityGetCommand.toBytes] else []) ∧
      (said lib sasl opts (heard t.events)).reduceOption = sasl.payloads [] t.pause.state.history
  /-- An OK that came before any was written is unexpected. -/
  unexpected : ∀ before c completion, Brings lib sasl opts t.events before c completion →
    completion.status = .ok → (said lib sasl opts (heard before)).reduceOption = [] →
    t.pause.result = some (.error .unexpectedOk)

section Ok

variable {lib : Libraries} {sasl : Sasl ε} {opts : ManagesieveAuthenticateOptions}
  {cs : List Bytes} {capabilities : ManagesieveCapabilities}
  (h : ((machine lib).drive (new sasl opts) none cs).pause.result = some (.ok capabilities))

include h

/-- A success was brought by a read, and granted. -/
theorem exists_brings : ∃ before c completion post,
    Brings lib sasl opts ((machine lib).drive (new sasl opts) none cs).events before c completion ∧
      cs = fedOf before ++ c :: post ∧ completion.status = .ok ∧
      (isUnsent sasl opts = true → heard (before ++ [.fed c]) ≠ []) ∧
      Grants lib sasl opts
        (.none :: challengeArgs lib (isUnsent sasl opts) (heard (before ++ [.fed c]))) completion
        post := by
  have hauth : Authenticated ((machine lib).drive (new sasl opts) none cs).pause := Or.inr ⟨_, h⟩
  have hfed := Machine.fed_append_unfed (m := machine lib) (new sasl opts) none cs
  obtain ⟨-, hconcluded, htakes⟩ := (drive_fedAsCalled lib sasl opts cs).accepted.1 hauth
  have htakes := (Sasl.takes_cons.1 htakes).2
  obtain ⟨completion, hc, hstatus, hsent, hfinal, hheeds⟩ := Concluded.heeds hconcluded htakes
  rw [fedArgs_eq hc hheeds, Sasl.takes_append] at htakes
  obtain ⟨before, c, after, hes, hbefore, hcompletes⟩ := Machine.exists_fed_first
    (P := fun b => completionOf (linesOf b) ≠ none)
    (show ¬ completionOf (linesOf []) ≠ none by decide +kernel) (by rw [hc]; simp)
  have hcut : (fedOf before).flatten ++ c = (fedOf (before ++ [.fed c])).flatten := by simp
  rw [hcut] at hcompletes
  obtain ⟨completion', hc'⟩ := Option.ne_none_iff_exists'.1 hcompletes
  obtain ⟨hsame, hchallenges⟩ := heard_read hes hc'
  obtain rfl : completion = completion' := Option.some.inj (hc.symm.trans hsame)
  rw [heard] at hchallenges
  rw [hchallenges] at hsent hheeds htakes
  have hb : Brings lib sasl opts ((machine lib).drive (new sasl opts) none cs).events before c
      completion :=
    ⟨⟨after, hes⟩, not_not.1 hbefore, hc', hheeds⟩
  have hcs : cs = fedOf before ++
      c :: (fedOf after ++ ((machine lib).drive (new sasl opts) none cs).unfed) := by
    simpa [hes] using hfed.symm
  refine ⟨before, c, completion, _, hb, hcs, hstatus, hsent,
    ⟨hfinal, htakes.2, fun he => ⟨capabilities, ?_⟩⟩⟩
  exact (closing_eq_ok ((hb.result hcs).symm.trans h)).2 he

/-- A run that ends well wrote what the mechanism says up to its last challenge, and that is all it
yields exactly when it has nothing to say to the completion. -/
theorem Brings.of_ok {before : List (Event UInt8 ManagesieveYield)} {c : Bytes}
    {completion : ManagesieveCompletion}
    (hb : Brings lib sasl opts ((machine lib).drive (new sasl opts) none cs).events before c
      completion) :
    let t := (machine lib).drive (new sasl opts) none cs
    let asked := .none :: challengeArgs lib (isUnsent sasl opts) (heard (before ++ [.fed c]))
    writesOf t.events = messages lib sasl.mechanism (said lib sasl opts (heard t.events)) ++
        (if opts.ensureCapabilities then [ManagesieveCapabilityGetCommand.toBytes] else []) ∧
      ((said lib sasl opts (heard t.events)).reduceOption =
          sasl.payloads [] t.pause.state.history ↔
        sasl.payloads asked (finalArgs lib completion) = []) := by
  intro t asked
  have hauth : Authenticated t.pause := Or.inr ⟨_, h⟩
  obtain ⟨-, haccepted, hall⟩ := drive_fedAsCalled lib sasl opts cs
  obtain ⟨after, hes⟩ := hb.read
  obtain ⟨hc, hheard⟩ := heard_read hes hb.brought
  change heard t.events = _ at hheard
  have hheeds : Heeds lib sasl (isUnsent sasl opts) [.none] (heard t.events) := hheard ▸ hb.heeded
  obtain ⟨-, hconcluded, htakes⟩ := haccepted.1 hauth
  obtain ⟨-, -, -, hsent, -, -⟩ := Concluded.heeds hconcluded (Sasl.takes_cons.1 htakes).2
  constructor
  · have hspec := drive_new_spec lib opts hb.opened cs
    obtain ⟨q, hq⟩ := hspec.authenticated.1 hauth
    have hwrites := (@consume_of_completion _ lib ⟨sasl, [.none]⟩
      (unsent sasl opts (sasl.payload [.none])) _ hheeds _ hc).1
    rw [hspec.writes, hq, firstPhase, hwrites]
    rfl
  · have hhistory : t.pause.state.history = asked ++ finalArgs lib completion := by
      have hcalled : t.pause.state.history = .none :: fedArgs lib (isUnsent sasl opts) _ :=
        hall hauth
      rw [hcalled, fedArgs_eq hc hheeds]
      exact congrArg (fun line => .none :: (challengeArgs lib _ line ++ _)) hheard
    rw [hhistory, Sasl.payloads_append, List.nil_append, reduceOption_said hheeds hsent, hheard,
      List.self_eq_append_right]

end Ok

/-- **When a run speaks first.** It does exactly when, at every read that brings the OK of the
server, the mechanism spoke on what was read before, and has nothing to say to an OK that is
granted; an OK that comes while the first payload is still to be asked for is refused by itself. -/
theorem drive_speaks (lib : Libraries) (sasl : Sasl ε) (opts : ManagesieveAuthenticateOptions)
    (cs : List Bytes) :
    let t := (machine lib).drive (new sasl opts) none cs
    SpeaksFirst lib sasl opts t ↔
      ∀ before c completion post, Brings lib sasl opts t.events before c completion →
        cs = fedOf before ++ c :: post → completion.status = .ok →
        (isUnsent sasl opts = true → heard (before ++ [.fed c]) ≠ []) →
        let asked := .none :: challengeArgs lib (isUnsent sasl opts) (heard (before ++ [.fed c]))
        Speaks lib sasl opts (heard before) ∧
          (Grants lib sasl opts asked completion post →
            sasl.payloads asked (finalArgs lib completion) = []) := by
  intro t
  constructor
  · intro hspeaks before c completion post hb hcs hstatus hsent asked
    have hresult := hb.result hcs
    rw [leftover_isSome.2 hsent] at hresult
    constructor
    · rw [← reduceOption_said_ne_nil hb.heeded_before]
      intro hsilent
      exact closing_ne_unexpectedOk (Mechanism.complete_ne_unexpectedOk lib _ completion) post
        (hresult.symm.trans (hspeaks.unexpected before c completion hb hstatus hsilent))
    · intro hgrants
      obtain ⟨capabilities, hok⟩ := hgrants.closing hstatus
      have hok : t.pause.result = some (.ok capabilities) := hresult.trans hok
      exact (hb.of_ok hok).2.1 (hspeaks.inFull _ hok).2
  · intro hreads
    constructor
    · intro capabilities hok
      obtain ⟨before, c, completion, post, hb, hcs, hstatus, hsent, -⟩ := exists_brings hok
      have hspoke := (hreads before c completion post hb hcs hstatus hsent).1
      exact ⟨before, c, completion, hb, hb.writes,
        (reduceOption_said_ne_nil hb.heeded_before).2 hspoke⟩
    · intro capabilities hok
      obtain ⟨before, c, completion, post, hb, hcs, hstatus, hsent, hgrants⟩ := exists_brings hok
      obtain ⟨hwrites, hfull⟩ := hb.of_ok hok
      exact ⟨hwrites, hfull.2 ((hreads before c completion post hb hcs hstatus hsent).2 hgrants)⟩
    · intro before c completion hb hstatus hsilent
      obtain ⟨post, hcs⟩ := hb.reads
      have hspoke := fun hsent => (hreads before c completion post hb hcs hstatus hsent).1
      have hpending : (leftover (unsent sasl opts (sasl.payload [.none]))
          (heard (before ++ [.fed c]))).isSome = true := by
        by_contra hno
        have hspoke := hspoke (leftover_isSome.1 (Bool.eq_false_iff.2 hno))
        exact (reduceOption_said_ne_nil hb.heeded_before).2 hspoke hsilent
      rw [hb.result hcs, hpending, Mechanism.complete, if_neg (not_not.2 hstatus), if_pos rfl]
      rfl

/-- Three runs that end well without having spoken in time: of a mechanism that waits for the server
and is told that the exchange is over instead, of one that has more to say to the final data than
was sent, and of one whose only payload is written when the OK is there already. -/
theorem not_speaks :
    (let sasl : Sasl Unit := ⟨.cramMd5, fun history =>
        if history.length = 1 then .yielded .wantsRead else .complete (.ok ())⟩
      let t := (machine .standard).drive (new sasl ⟨true, false⟩) none [asBytes "OK\r\n"]
      t.pause.result = some (.ok .default) ∧ sasl.payloads [] t.pause.state.history = [] ∧
        ¬ SpeaksFirst .standard sasl ⟨true, false⟩ t) ∧
    (let sasl : Sasl Unit := ⟨.scramSha256, fun history =>
        if history.length < 3 then .yielded (.wantsWrite (asBytes "p")) else .complete (.ok ())⟩
      let t := (machine .standard).drive (new sasl ⟨true, false⟩) none
        [asBytes "OK (SASL \"cA==\")\r\n"]
      t.pause.result = some (.ok .default) ∧
        writesOf t.events = [asBytes "AUTHENTICATE \"SCRAM-SHA-256\" \"cA==\"\r\n"] ∧
        sasl.payloads [] t.pause.state.history = [asBytes "p", asBytes "p"] ∧
        ¬ SpeaksFirst .standard sasl ⟨true, false⟩ t) ∧
    (let sasl : Sasl Unit := ⟨.plain, fun history =>
        if history.length = 1 then .yielded (.wantsWrite (asBytes "p")) else .complete (.ok ())⟩
      let t := (machine .standard).drive (new sasl ⟨false, false⟩) none
        [asBytes "\"\"\r\nOK\r\n"]
      t.pause.result = some (.ok .default) ∧
        t.events = [.yielded (.wantsWrite (asBytes "AUTHENTICATE \"PLAIN\"\r\n")),
          .yielded .wantsRead, .fed (asBytes "\"\"\r\nOK\r\n"),
          .yielded (.wantsWrite (asBytes "\"cA==\"\r\n"))] ∧
        ¬ SpeaksFirst .standard sasl ⟨false, false⟩ t) := by
  refine ⟨⟨by decide +kernel, by decide +kernel, fun h => ?_⟩,
    ⟨by decide +kernel, by decide +kernel, by decide +kernel, fun h => ?_⟩,
    ⟨by decide +kernel, by decide +kernel, fun h => ?_⟩⟩
  · have hread := h.unexpected
      [.yielded (.wantsWrite (asBytes "AUTHENTICATE \"CRAM-MD5\"\r\n")), .yielded .wantsRead]
      (asBytes "OK\r\n") ⟨.ok, none, none⟩
      ⟨⟨[], by decide +kernel⟩, by decide +kernel, by decide +kernel,
        heeds_of_length_le (by decide +kernel) _⟩ rfl (by decide +kernel)
    exact absurd hread (by decide +kernel)
  · exact absurd (h.inFull .default (by decide +kernel)).2 (by decide +kernel)
  · have hread := h.unexpected
      [.yielded (.wantsWrite (asBytes "AUTHENTICATE \"PLAIN\"\r\n")), .yielded .wantsRead]
      (asBytes "\"\"\r\nOK\r\n") ⟨.ok, none, none⟩
      ⟨⟨[.yielded (.wantsWrite (asBytes "\"cA==\"\r\n"))], by decide +kernel⟩,
        by decide +kernel, by decide +kernel, heeds_of_length_le (by decide +kernel) _⟩ rfl
      (by decide +kernel)
    exact absurd hread (by decide +kernel)

end ManagesieveAuthenticate

end ManageSieve
