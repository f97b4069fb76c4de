import Mathlib.Order.WellFounded
import ManageSieve.Foundations.Dialogue
import ManageSieve.Foundations.Pump

/-!
# Dialogues that get somewhere

A coroutine in lockstep with its peer does not deadlock: unless it ended, one of the two sides can
take a step, as long as every message it sends can be answered (`Dialogue.Lockstep.progress`). A
patient coroutine does not talk forever either, whatever the peer does: no configuration starts an
infinite sequence of steps (`Dialogue.acc_of_patient`). A coroutine that is both ends in every run,
in step (`Dialogue.Lockstep.completes`).
-/

namespace Dialogue

open Coroutine

variable {σ α Y R W : Type*} {p : Parties σ α Y R W}
variable {Excused : R → Prop} {Starts : σ → Prop} {Awaits : σ → W → List α → Prop}
  {Done : σ → List α → Prop}

/-! ## No deadlock -/

/-- A coroutine that is about to be resumed can be. -/
theorem exists_step_of_ready (s : σ) (arg : Option (List α)) (u : List W) (i : List (List α))
    (h : List α) : ∃ c, Step p ⟨.ready s arg, u, i, h⟩ c := by
  rcases hr : p.machine.resume s arg with ⟨y | r | msg, s'⟩
  · cases hy : p.machine.reads y with
    | true => exact ⟨_, .ask hr hy⟩
    | false => exact ⟨_, .write hr hy⟩
  · exact ⟨_, .complete hr⟩
  · exact ⟨_, .panic hr⟩

/-- An outstanding message is answered, or a part of its reply is delivered. -/
theorem exists_step_of_outstanding {s : σ} {w : W} {u : List W} {i : List (List α)} {h : List α}
    (ho : Outstanding p w ⟨.waiting s, u, i, h⟩) (hi : u = [] → i ≠ [])
    (hw : ∃ b, p.replies w b ∧ b ≠ []) : ∃ c, Step p ⟨.waiting s, u, i, h⟩ c := by
  rcases ho with ⟨hu, -⟩ | ⟨hu, -⟩
  · obtain ⟨b, hb, hne⟩ := hw
    dsimp only at hu
    subst hu
    exact ⟨_, .reply hb ⟨List.flatten_singleton, by simpa using hne⟩⟩
  · obtain ⟨a, i, rfl⟩ := List.exists_cons_of_ne_nil (hi hu)
    exact ⟨_, .deliver⟩

/-- **There is no deadlock**: in every configuration that can be reached, the coroutine ended or one
of the two sides can take a step. -/
theorem Lockstep.progress (hl : Lockstep p Excused Starts Awaits Done)
    (hreplies : ∀ {s w heard}, Awaits s w heard → ∃ b, p.replies w b) {s : σ} (hs : Starts s)
    {c : Config σ α R W} (h : Reachable p s c) :
    (∃ r s', c.control = .finished r s') ∨ ∃ c', Step p c c' := by
  have hinv := hl.inv_reachable hs h
  rcases c with ⟨⟨s, arg⟩ | s | ⟨r, s⟩ | ⟨msg, s⟩, u, i, heard⟩
  · exact Or.inr (exists_step_of_ready s arg u i heard)
  · obtain ⟨w, hw, ho, hi⟩ := hinv
    obtain ⟨b, hb⟩ := hreplies hw
    exact Or.inr (exists_step_of_outstanding ho hi ⟨b, hb, hl.replies_ne_nil hb⟩)
  · exact Or.inl ⟨r, s, rfl⟩
  · exact hinv.elim

/-! ## How it ended -/

/-- A coroutine that ended did so at once, or with a reply at hand that it was waiting for. -/
theorem Lockstep.finished (hl : Lockstep p Excused Starts Awaits Done) {s : σ} (hs : Starts s)
    {c : Config σ α R W} (h : Reachable p s c) {r : R} {s' : σ} (hc : c.control = .finished r s') :
    (∃ t, Starts t ∧ p.machine.resume t none = (.complete r, s')) ∨
      ∃ t w heard a rest, Awaits t w heard ∧ a ≠ [] ∧ p.replies w (heard ++ a ++ rest) ∧
        p.machine.resume t (some a) = (.complete r, s') := by
  induction h with
  | refl => cases hc
  | @tail c c' hreach hstep ih =>
    have hinv := hl.inv_reachable hs hreach
    cases hstep with
    | reply hb hcs => exact ih hc
    | @complete t arg r t' u i h hr =>
      cases hc
      cases arg with
      | none =>
        rcases hinv with ⟨ht, -⟩ | ⟨w, hw, -⟩
        · exact Or.inl ⟨t, ht, hr⟩
        · obtain ⟨y, t'', hask, -⟩ := hl.asks hw
          cases hask.symm.trans hr
      | some a =>
        obtain ⟨w, heard, hw, ha, hh, -, hb, -⟩ := hinv
        dsimp only at hh hb
        subst hh
        exact Or.inr ⟨t, w, heard, a, _, hw, ha, hb, hr⟩
    | write _ _ => cases hc
    | ask _ _ => cases hc
    | panic _ => cases hc
    | deliver => cases hc

/-! ## No infinite run -/

/-- The coroutine satisfies `P`, unless it ended. -/
def Holds (P : σ → Prop) (c : Config σ α R W) : Prop :=
  match c.control with
  | .ready s _ => P s
  | .waiting s => P s
  | _ => True

/-- How often the coroutine may still be fed, a read in its hand counting half. -/
def appetite (patience : σ → ℕ) (c : Config σ α R W) : ℕ :=
  match c.control with
  | .ready s none => 2 * patience s + 1
  | .ready s (some _) => 2 * patience s
  | .waiting s => 2 * patience s + 1
  | _ => 0

/-- How often the coroutine may still write before it asks for data or ends. -/
def urge (p : Parties σ α Y R W) (c : Config σ α R W) : ℕ :=
  match c.control with
  | .ready s none => p.machine.budget s + 1
  | .ready _ (some _) => 1
  | _ => 0

/-- The measure of a configuration. -/
def measure (p : Parties σ α Y R W) (patience : σ → ℕ) (c : Config σ α R W) : ℕ × ℕ × ℕ :=
  (appetite patience c, urge p c, c.unanswered.length)

/-- A measure is below another one. -/
abbrev Below : ℕ × ℕ × ℕ → ℕ × ℕ × ℕ → Prop :=
  Prod.Lex (· < ·) (Prod.Lex (· < ·) (· < ·))

theorem below_of_le {a b c a' b' c' : ℕ} (ha : a' ≤ a) (hb : b' < b) :
    Below (a', b', c') (a, b, c) := by
  rcases Nat.lt_or_eq_of_le ha with ha | rfl
  · exact .left _ _ ha
  · exact .right _ (.left _ _ hb)

variable {P : σ → Prop} {patience : σ → ℕ}

/-- **Every step of a patient coroutine and its peer lowers the measure.** -/
theorem measure_lt (hm : p.machine.Patient P patience) {c c' : Config σ α R W} (hc : Holds P c)
    (h : Step p c c') : Holds P c' ∧ Below (measure p patience c') (measure p patience c) := by
  cases h with
  | @write s arg y s' u i h hr hy =>
    refine ⟨hm.keeps hc hr, ?_⟩
    cases arg with
    | none =>
      have hle := hm.le hc hr
      have hlt := p.machine.budget_lt hr hy
      refine below_of_le ?_ ?_
      · change 2 * patience s' + 1 ≤ 2 * patience s + 1
        omega
      · exact Nat.succ_lt_succ hlt
    | some a =>
      have hlt := hm.lt hc hr
      refine .left _ _ ?_
      change 2 * patience s' + 1 < 2 * patience s
      omega
  | @ask s arg y s' u i h hr hy =>
    refine ⟨hm.keeps hc hr, ?_⟩
    cases arg with
    | none =>
      have hle := hm.le hc hr
      refine below_of_le ?_ (Nat.succ_pos _)
      change 2 * patience s' + 1 ≤ 2 * patience s + 1
      omega
    | some a =>
      have hlt := hm.lt hc hr
      refine .left _ _ ?_
      change 2 * patience s' + 1 < 2 * patience s
      omega
  | @complete s arg r s' u i h hr =>
    refine ⟨trivial, below_of_le (Nat.zero_le _) ?_⟩
    cases arg <;> exact Nat.succ_pos _
  | @panic s arg msg s' u i h hr =>
    refine ⟨trivial, below_of_le (Nat.zero_le _) ?_⟩
    cases arg <;> exact Nat.succ_pos _
  | reply hb hcs => exact ⟨hc, .right _ (.right _ (Nat.lt_succ_self _))⟩
  | deliver => exact ⟨hc, .left _ _ (Nat.lt_succ_self _)⟩

/-- **There is no infinite run** from a configuration of a patient coroutine, whatever the peer
answers and however it is cut. -/
theorem acc_of_patient (hm : p.machine.Patient P patience) {c : Config σ α R W} (hc : Holds P c) :
    Acc (fun c' c => Step p c c') c := by
  have hnat : WellFounded fun a b : ℕ => a < b := wellFounded_lt
  have hwf : WellFounded Below := (Prod.lex ⟨_, hnat⟩ (Prod.lex ⟨_, hnat⟩ ⟨_, hnat⟩)).wf
  induction hk : measure p patience c using hwf.induction generalizing c with
  | _ k ih =>
    subst hk
    refine ⟨c, fun c' hstep => ?_⟩
    obtain ⟨hc', hlt⟩ := measure_lt hm hc hstep
    exact ih _ hlt hc' rfl

/-! ## Completion -/

/-- **A coroutine that is in lockstep and patient ends in every run**: none is infinite, and the
last configuration of a run is one in which it ended, in step. -/
theorem Lockstep.completes (hl : Lockstep p Excused Starts Awaits Done)
    (hreplies : ∀ {s w heard}, Awaits s w heard → ∃ b, p.replies w b)
    (hm : p.machine.Patient P patience) {s : σ} (hs : Starts s) (hP : P s) :
    Acc (fun c' c => Step p c c') (start s) ∧
      ∀ c, Reachable p s c → (∀ c', ¬ Step p c c') →
        ∃ r s', c.control = .finished r s' ∧ InStep Excused Done c := by
  refine ⟨acc_of_patient hm hP, fun c hreach hstuck => ?_⟩
  rcases hl.progress hreplies hs hreach with ⟨r, s', hc⟩ | ⟨c', hstep⟩
  · exact ⟨r, s', hc, hl.inStep hs hreach⟩
  · exact absurd hstep (hstuck c')

end Dialogue
