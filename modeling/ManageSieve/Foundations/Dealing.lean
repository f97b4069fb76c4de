import Mathlib.Logic.Relation
import ManageSieve.Foundations.Legs
import ManageSieve.Foundations.Pump

/-!
# Dealing with a peer directly

What a coroutine and its peer come to, told without the transport between them. A `Deal` is a
relation between where the peer stands and what the two sides come to; deals are put together as the
legs of a run are.

* `Carried` says that a leg over a transport comes to what a deal comes to, and to nothing else. It
  has a rule for each way of putting legs together.
* `Machine.Deals` says the same of a pump around a coroutine; `Machine.Deals.carried` and
  `Carried.deals` lead from the one to the other.
* `Machine.Gathers.leads` is how a coroutine gets hold of a reply that arrives in parts.
-/

namespace Coroutine

variable {σ ρ α Y Y' R E E' A B D D' D'' S S' F F' : Type*}

/-! ## Turns that go on -/

/-- The loop goes from one state to another in one or more turns. -/
def Leads (turn : σ → Turn σ ρ) : σ → σ → Prop :=
  Relation.TransGen fun s s' => turn s = .again s'

theorem Leads.of_again {turn : σ → Turn σ ρ} {s s' : σ} (h : turn s = .again s') :
    Leads turn s s' :=
  Relation.TransGen.single h

section Leads

variable {turn : σ → Turn σ ρ} {s s' s'' : σ}

theorem Leads.trans (h : Leads turn s s') (h' : Leads turn s' s'') : Leads turn s s'' :=
  Relation.TransGen.trans h h'

theorem Leads.ends {r : ρ} (h : Leads turn s s') (hends : Ends turn s' r) : Ends turn s r := by
  induction h using Relation.TransGen.head_induction_on with
  | single h => exact .again h hends
  | head h _ ih => exact .again h ih

/-- Turns that were taken need not be taken again. -/
theorem Leads.runFor_lt {r : ρ} (h : Leads turn s s') {n : ℕ} (hn : runFor turn n s = some r) :
    ∃ k < n, runFor turn k s' = some r := by
  induction h using Relation.TransGen.head_induction_on generalizing n with
  | single h =>
    cases n with
    | zero => cases hn
    | succ n =>
      rw [runFor, h] at hn
      exact ⟨n, Nat.lt_succ_self n, hn⟩
  | head h _ ih =>
    cases n with
    | zero => cases hn
    | succ n =>
      rw [runFor, h] at hn
      obtain ⟨k, hk, hrun⟩ := ih hn
      exact ⟨k, Nat.lt_succ_of_lt hk, hrun⟩

end Leads

/-! ## A reply that arrives in parts -/

/-- Having read a part of `b`, the coroutine asks for the rest and keeps what it read. -/
structure Machine.Gathers (m : Machine σ α Y R) (holds : List α → σ) (b : List α) : Prop where
  asks : ∃ y, m.reads y = true ∧ m.resume (holds []) none = (.yielded y, holds [])
  asks_on : ∀ {heard a rest}, a ≠ [] → rest ≠ [] → heard ++ a ++ rest = b →
    ∃ y, m.reads y = true ∧ m.resume (holds heard) (some a) = (.yielded y, holds (heard ++ a))

namespace Machine

variable {m : Machine σ α Y R} {holds : List α → σ} {b : List α} {io : Transport S α Y F}

theorem pumpTurn_read {s s' : σ} {arg : Option (List α)} {st st' : S} {y : Y} {c : List α}
    (hr : m.resume s arg = (.yielded y, s')) (hy : m.reads y = true)
    (hread : io.read st = (.ok c, st')) :
    m.pumpTurn io (s, arg, st) = .again (s', some c, st') := by
  simp only [pumpTurn, hr, hy, hread, if_true]

theorem pumpTurn_write {s s' : σ} {arg : Option (List α)} {st st' : S} {y : Y}
    (hr : m.resume s arg = (.yielded y, s')) (hy : m.reads y = false)
    (hwrite : io.write st y = (.ok (), st')) :
    m.pumpTurn io (s, arg, st) = .again (s', none, st') := by
  simp only [pumpTurn, hr, hy, hwrite, Bool.false_eq_true, if_false]

theorem mapDone_complete {R' : Type*} (f : R → R') {s s' : σ} {arg : Option (List α)} {r : R}
    (hr : m.resume s arg = (.complete r, s')) :
    (m.mapDone f).resume s arg = (.complete (f r), s') := by
  simp only [mapDone, hr]
  rfl

theorem ends_of_complete {s s' : σ} {arg : Option (List α)} {st : S} {r : R}
    (hr : m.resume s arg = (.complete r, s')) :
    Ends (m.pumpTurn io) (s, arg, st) (.returned r, st) :=
  .done (pumpTurn_eq_done_iff.2 (.returned hr))

/-- A pump around a coroutine that asks for the rest of a reply reads on to its end. -/
theorem Gathers.leads_of_asked (h : m.Gathers holds b) {cs : List (List α)} {rest : List α}
    (hcs : Cuts cs rest) (hrest : rest ≠ []) {st st' : S} (hgives : Gives io st cs st') {s : σ}
    {arg : Option (List α)} {y : Y} {heard : List α} (hy : m.reads y = true)
    (hr : m.resume s arg = (.yielded y, holds heard)) (hb : heard ++ rest = b) :
    ∃ heard' a, a ≠ [] ∧ heard' ++ a = b ∧
      Leads (m.pumpTurn io) (s, arg, st) (holds heard', some a, st') := by
  induction cs generalizing rest st s arg y heard with
  | nil => exact absurd hcs.flatten.symm hrest
  | cons c cs ih =>
    obtain ⟨hc, hcs'⟩ := List.forall_mem_cons.1 hcs.ne_nil
    have hflat : c ++ cs.flatten = rest := hcs.flatten
    cases hgives with
    | cons hread hgives =>
      have hturn := Leads.of_again (pumpTurn_read hr hy hread)
      rcases eq_or_ne cs.flatten [] with hnil | hne
      · -- nothing but this read is left
        obtain rfl : cs = [] := by
          cases cs with
          | nil => rfl
          | cons c' cs =>
            rw [List.flatten_cons, List.append_eq_nil_iff] at hnil
            exact absurd hnil.1 (hcs' c' List.mem_cons_self)
        cases hgives
        refine ⟨heard, c, hc, ?_, hturn⟩
        rw [← hb, ← hflat, List.flatten_nil, List.append_nil]
      · have hb' : heard ++ c ++ cs.flatten = b := by rw [List.append_assoc, hflat, hb]
        obtain ⟨y', hy', hr'⟩ := h.asks_on hc hne hb'
        obtain ⟨heard', a, ha, hall, hleads⟩ := ih ⟨rfl, hcs'⟩ hne hgives hy' hr' hb'
        exact ⟨heard', a, ha, hall, hturn.trans hleads⟩

/-- **A reply is read to its end**, and no further, however it is cut. -/
theorem Gathers.leads (h : m.Gathers holds b) {cs : List (List α)} (hcs : Cuts cs b) (hb : b ≠ [])
    {st st' : S} (hgives : Gives io st cs st') :
    ∃ heard a, a ≠ [] ∧ heard ++ a = b ∧
      Leads (m.pumpTurn io) (holds [], none, st) (holds heard, some a, st') := by
  obtain ⟨y, hy, hr⟩ := h.asks
  exact h.leads_of_asked hcs hb hgives hy hr rfl

/-- A coroutine that ends once it has the reply whole ends a pump. -/
theorem Gathers.ends (h : m.Gathers holds b) {r : R} (hdone : ∀ heard a, a ≠ [] → heard ++ a = b →
      ∃ s, m.resume (holds heard) (some a) = (.complete r, s)) {cs : List (List α)}
    (hcs : Cuts cs b) (hb : b ≠ []) {st st' : S} (hgives : Gives io st cs st') :
    Ends (m.pumpTurn io) (holds [], none, st) (.returned r, st') := by
  obtain ⟨heard, a, ha, hall, hleads⟩ := h.leads hcs hb hgives
  obtain ⟨s, hr⟩ := hdone heard a ha hall
  exact hleads.ends (ends_of_complete hr)

/-- A coroutine that ends when there is no more data ends a pump that does not get hold of all of a
reply. -/
theorem Gathers.ends_lost (h : m.Gathers holds b) {r : R}
    (heof : ∀ heard, ∃ s, m.resume (holds heard) (some []) = (.complete r, s))
    {cs : List (List α)} {part rest : List α} (hcs : Cuts cs part) (hrest : rest ≠ [])
    (hb : part ++ rest = b) {st st' st'' : S} (hgives : Gives io st cs st')
    (hread : io.read st' = (.ok [], st'')) :
    Ends (m.pumpTurn io) (holds [], none, st) (.returned r, st'') := by
  have key : ∀ cs {st s arg y heard part}, Cuts cs part → Gives io st cs st' → m.reads y = true →
      m.resume s arg = (.yielded y, holds heard) → heard ++ part ++ rest = b →
      Ends (m.pumpTurn io) (s, arg, st) (.returned r, st'') := by
    intro cs
    induction cs with
    | nil =>
      intro st s arg y heard part _ hgives hy hr _
      cases hgives
      obtain ⟨s', heof⟩ := heof heard
      exact .again (pumpTurn_read hr hy hread) (ends_of_complete heof)
    | cons c cs ih =>
      intro st s arg y heard part hcs hgives hy hr hb
      obtain ⟨hc, hcs'⟩ := List.forall_mem_cons.1 hcs.ne_nil
      obtain rfl : c ++ cs.flatten = part := hcs.flatten
      cases hgives with
      | cons hread' hgives =>
        have hb' : heard ++ c ++ (cs.flatten ++ rest) = b := by
          rw [← hb]
          simp only [List.append_assoc]
        obtain ⟨y', hy', hr'⟩ := h.asks_on hc (by simp [hrest]) hb'
        refine .again (pumpTurn_read hr hy hread') (ih ⟨rfl, hcs'⟩ hgives hy' hr' ?_)
        rw [← hb']
        simp only [List.append_assoc]
  obtain ⟨y, hy, hr⟩ := h.asks
  exact key cs hcs hgives hy hr (by simpa using hb)

end Machine

namespace Machine.Gathers

variable {m : Machine σ α Y R} {holds : List α → σ} {b : List α}

/-- A coroutine that runs another one reads on as that one does. -/
theorem nests {τ R' : Type*} {m' : Machine τ α Y' R'} {holds : List α → τ} {into : Y' → Y}
    {embed : τ → σ} {finish : R' → τ → Resumed Y R × σ} {P : τ → Prop} (h : m'.Gathers holds b)
    (hn : Machine.Nests m' m into embed finish P) (hP : ∀ heard, P (holds heard)) :
    m.Gathers (fun heard => embed (holds heard)) b where
  asks := by
    obtain ⟨y, hy, hr⟩ := h.asks
    exact ⟨into y, (hn.reads_into y).trans hy, hn.resume_yielded (hP []) hr⟩
  asks_on {heard a rest} ha hrest hb := by
    obtain ⟨y, hy, hr⟩ := h.asks_on ha hrest hb
    exact ⟨into y, (hn.reads_into y).trans hy, hn.resume_yielded (hP heard) hr⟩

theorem mapDone {R' : Type*} (h : m.Gathers holds b) (f : R → R') :
    (m.mapDone f).Gathers holds b where
  asks := by
    obtain ⟨y, hy, hr⟩ := h.asks
    exact ⟨y, hy, by simp only [Machine.mapDone, hr]; rfl⟩
  asks_on {heard a rest} ha hrest hb := by
    obtain ⟨y, hy, hr⟩ := h.asks_on ha hrest hb
    exact ⟨y, hy, by simp only [Machine.mapDone, hr]; rfl⟩

end Machine.Gathers

/-! ## One transport in another -/

/-- A transport that serves as another one does, its states, requests and failures in other
words. -/
structure Transport.Within (io' : Transport S' α Y' F') (io : Transport S α Y F) (reads : Y → Bool)
    (embed : S' → S) (into : Y' → Y) (fails : F' → F) : Prop where
  read : ∀ st, io.read (embed st) = ((io'.read st).1.mapError fails, embed (io'.read st).2)
  write : ∀ st y, reads (into y) = false →
    io.write (embed st) (into y) = ((io'.write st y).1.mapError fails, embed (io'.write st y).2)

theorem mapError_eq_ok {fails : F' → F} {r : Except F' A} {a : A} :
    r.mapError fails = .ok a ↔ r = .ok a := by
  cases r <;> simp [Except.mapError]

theorem Transport.Within.serves_iff {io' : Transport S' α Y' F'} {io : Transport S α Y F}
    {reads : Y → Bool} {embed : S' → S} {into : Y' → Y} {fails : F' → F}
    (h : io'.Within io reads embed into fails) {st : S'} {es : List (Event α Y')} {s : S} :
    Serves io reads (embed st) (es.map (.map into)) s ↔
      ∃ st', Serves io' (reads ∘ into) st es st' ∧ embed st' = s := by
  constructor
  · intro hserves
    induction es generalizing st with
    | nil =>
      cases hserves
      exact ⟨st, .nil, rfl⟩
    | cons e es ih =>
      cases e with
      | fed c =>
        cases hserves with
        | fed hread hserves =>
          rw [h.read, Prod.mk.injEq, mapError_eq_ok] at hread
          obtain ⟨hread, rfl⟩ := hread
          obtain ⟨st', hst', rfl⟩ := ih hserves
          exact ⟨st', .fed (Prod.ext hread rfl) hst', rfl⟩
      | yielded y =>
        cases hserves with
        | ask hy hserves =>
          obtain ⟨st', hst', rfl⟩ := ih hserves
          exact ⟨st', .ask hy hst', rfl⟩
        | write hy hwrite hserves =>
          rw [h.write st y hy, Prod.mk.injEq, mapError_eq_ok] at hwrite
          obtain ⟨hwrite, rfl⟩ := hwrite
          obtain ⟨st', hst', rfl⟩ := ih hserves
          exact ⟨st', .write hy (Prod.ext hwrite rfl) hst', rfl⟩
  · rintro ⟨st', hserves, rfl⟩
    induction hserves with
    | nil => exact .nil
    | ask hy _ ih => exact .ask hy ih
    | @fed st c st' es st'' hread _ ih =>
      refine .fed ?_ ih
      rw [h.read, hread]
      rfl
    | @write st y st' es st'' hy hwrite _ ih =>
      refine .write hy ?_ ih
      rw [h.write st y hy, hwrite]
      rfl

/-! ## Deals -/

/-- What two sides come to, from where the peer stands: a failure, or a value and where the peer
stands then. -/
abbrev Deal (D D' E A : Type*) := D → Except E (A × D') → Prop

namespace Deal

/-- End. -/
def stop (r : Except E A) : Deal D D E A := fun x out => out = r.map (·, x)

/-- End on a failure. -/
def fail (e : E) : Deal D D' E A := fun _ out => out = .error e

/-- Make a request that changes where the peer stands. -/
def ask (f : D → D') (d : Deal D' D'' E A) : Deal D D'' E A := fun x => d (f x)

/-- Ask for an answer. -/
def answer (f : D → Except E A × D') : Deal D D' E A := fun x out =>
  out = (f x).1.map (·, (f x).2)

/-- Go on with another deal if this one ends well. -/
def andThen (d : Deal D D' E A) (f : A → Deal D' D'' E B) : Deal D D'' E B := fun x out =>
  (∃ a x', d x (.ok (a, x')) ∧ f a x' out) ∨ ∃ e, d x (.error e) ∧ out = .error e

/-- The same deal, its failures in other words. -/
def mapError (err : E' → E) (d : Deal D D' E' A) : Deal D D' E A := fun x out =>
  ∃ out', d x out' ∧ out = out'.mapError err

end Deal

/-! ### Pre- and postconditions -/

/-- From a peer that stands as `pre` says, a deal that ends well ends as `post` says. -/
def Deal.Ensures (d : Deal D D' E A) (pre : D → Prop) (post : A → D' → Prop) : Prop :=
  ∀ x a x', pre x → d x (.ok (a, x')) → post a x'

namespace Deal.Ensures

variable {pre : D → Prop} {post : A → D' → Prop}

theorem stop {pre : D → Prop} {post : A → D → Prop} {a : A} (h : ∀ x, pre x → post a x) :
    (stop (.ok a) : Deal D D E A).Ensures pre post := by
  rintro x b x' hx hout
  cases hout
  exact h x hx

theorem fail (e : E) : (fail e : Deal D D' E A).Ensures pre post := by
  rintro x a x' - ⟨⟩

theorem ask {d : Deal D' D'' E A} {mid : D' → Prop} {post : A → D'' → Prop} {f : D → D'}
    (hf : ∀ x, pre x → mid (f x)) (hd : d.Ensures mid post) : (Deal.ask f d).Ensures pre post :=
  fun x a x' hx => hd (f x) a x' (hf x hx)

theorem answer {f : D → Except E A × D'}
    (h : ∀ x a, pre x → (f x).1 = .ok a → post a (f x).2) : (Deal.answer f).Ensures pre post := by
  intro x a x' hx hout
  have hok := h x a hx
  unfold Deal.answer at hout
  rcases hf : f x with ⟨e | b, y⟩ <;> rw [hf] at hout hok <;> cases hout
  exact hok rfl

theorem andThen {d : Deal D D' E A} {f : A → Deal D' D'' E B} {post' : B → D'' → Prop}
    (hd : d.Ensures pre post) (hf : ∀ a, (f a).Ensures (post a) post') :
    (d.andThen f).Ensures pre post' := by
  rintro x b x' hx (⟨a, y, hy, hout⟩ | ⟨e, -, ⟨⟩⟩)
  exact hf a y b x' (hd x a y hx hy) hout

theorem mapError {d : Deal D D' E' A} (hd : d.Ensures pre post) (err : E' → E) :
    (d.mapError err).Ensures pre post := by
  rintro x a x' hx ⟨out, hout, heq⟩
  rw [eq_comm, mapError_eq_ok] at heq
  subst heq
  exact hd x a x' hx hout

end Deal.Ensures

/-- The value that was come to. -/
def valueOf (out : Except E (A × D)) : Except E A := out.map Prod.fst

/-- Where the peer stands, when the deal ended well. -/
def Settles (post : D → S → Prop) (out : Except E (A × D)) (s : S) : Prop :=
  ∀ a x, out = .ok (a, x) → post x s

theorem valueOf_map (r : Except E A) (x : D) : valueOf (r.map (·, x)) = r := by
  cases r <;> rfl

theorem valueOf_mapError (err : E' → E) (out : Except E' (A × D)) :
    valueOf (out.mapError err) = (valueOf out).mapError err := by
  cases out <;> rfl

theorem settles_map {post : D → S → Prop} {r : Except E A} {x : D} {s : S} (h : post x s) :
    Settles post (r.map (·, x)) s := by
  rintro a x' hout
  cases r with
  | error e => cases hout
  | ok a =>
    cases hout
    exact h

theorem settles_error {post : D → S → Prop} {e : E} {s : S} :
    Settles post (.error e : Except E (A × D)) s := by
  rintro a x ⟨⟩

theorem settles_mapError {post : D → S → Prop} {err : E' → E} {out : Except E' (A × D)} {s : S} :
    Settles post (out.mapError err) s ↔ Settles post out s := by
  unfold Settles
  simp only [mapError_eq_ok]

/-! ## Legs that are carried -/

/-- Over the transport, the leg comes to `r` on the reads `cs`, whatever reads are left for
others. -/
def Leg.ComesTo (io : Transport S α Y F) (reads : Y → Bool) (l : Leg α Y E A) (s : S)
    (cs : List (List α)) (r : Except E A) (s' : S) : Prop :=
  ∀ rest, ∃ es, l (cs ++ rest) = ⟨es, .finished r (), rest⟩ ∧ Serves io reads s es s'

/-- `Carried io reads pre post l d`: from where the peer stands, the leg `l` over the transport
comes to what the deal `d` comes to, and to nothing else. -/
structure Carried (io : Transport S α Y F) (reads : Y → Bool) (pre : D → S → Prop)
    (post : D' → S → Prop) (l : Leg α Y E A) (d : Deal D D' E A) : Prop where
  /-- What the deal comes to, the leg comes to. -/
  forth : ∀ {x s out}, pre x s → d x out →
    ∃ cs s', l.ComesTo io reads s cs (valueOf out) s' ∧ Settles post out s'
  /-- What the leg comes to, the deal comes to. -/
  back : ∀ {x s cs r s'}, pre x s → (l cs).pause.result = some r →
    Serves io reads s (l cs).events s' → ∃ out, d x out ∧ valueOf out = r ∧ Settles post out s'

namespace Carried

variable {io : Transport S α Y F} {reads : Y → Bool} {pre : D → S → Prop} {mid : D' → S → Prop}
  {post : D'' → S → Prop}

theorem stop (r : Except E A) : Carried io reads pre pre (.stop r) (.stop r) where
  forth {x s out} hpre hout := by
    obtain rfl : out = r.map (·, x) := hout
    refine ⟨[], s, fun rest => ⟨[], ?_, .nil⟩, settles_map hpre⟩
    rw [valueOf_map]
    rfl
  back {x s cs r' s'} hpre hr hserves := by
    cases hr
    cases hserves
    exact ⟨_, rfl, valueOf_map r x, settles_map hpre⟩

theorem fail (e : E) :
    Carried io reads pre post (.stop (.error e) : Leg α Y E A) (.fail e) where
  forth {x s out} hpre hout := by
    obtain rfl : out = .error e := hout
    exact ⟨[], s, fun rest => ⟨[], rfl, .nil⟩, settles_error⟩
  back {x s cs r s'} hpre hr hserves := by
    cases hr
    exact ⟨_, rfl, rfl, settles_error⟩

theorem ask {y : Y} {f : D → D'} {l : Leg α Y E A} {d : Deal D' D'' E A} (hy : reads y = false)
    (hwrite : ∀ {x s}, pre x s → ∃ s', io.write s y = (.ok (), s') ∧ mid (f x) s')
    (h : Carried io reads mid post l d) : Carried io reads pre post (.ask y l) (.ask f d) where
  forth {x s out} hpre hout := by
    obtain ⟨s', hs', hmid⟩ := hwrite hpre
    obtain ⟨cs, s'', hcomes, hsettles⟩ := h.forth hmid hout
    refine ⟨cs, s'', fun rest => ?_, hsettles⟩
    obtain ⟨es, hl, hserves⟩ := hcomes rest
    refine ⟨.yielded y :: es, ?_, .write hy hs' hserves⟩
    rw [Leg.ask, hl]
    rfl
  back {x s cs r s''} hpre hr hserves := by
    obtain ⟨s', hs', hmid⟩ := hwrite hpre
    cases hserves with
    | ask hy' _ => cases hy.symm.trans hy'
    | write _ hs hserves =>
      cases hs'.symm.trans hs
      exact h.back hmid hr hserves

/-- **Legs one after the other carry deals one after the other.** -/
theorem andThen {l : Leg α Y E A} {d : Deal D D' E A} {f : A → Leg α Y E B}
    {g : A → Deal D' D'' E B} (h : Carried io reads pre mid l d)
    (hf : ∀ a, Carried io reads mid post (f a) (g a)) :
    Carried io reads pre post (l.andThen f) (d.andThen g) where
  forth {x s out} hpre hout := by
    rcases hout with ⟨a, x', hd, hg⟩ | ⟨e, hd, rfl⟩
    · obtain ⟨cs, s', hcomes, hmid⟩ := h.forth hpre hd
      obtain ⟨cs', s'', hcomes', hsettles⟩ := (hf a).forth (hmid a x' rfl) hg
      refine ⟨cs ++ cs', s'', fun rest => ?_, hsettles⟩
      obtain ⟨es, hl, hserves⟩ := hcomes (cs' ++ rest)
      obtain ⟨es', hl', hserves'⟩ := hcomes' rest
      refine ⟨es ++ es', ?_, hserves.append hserves'⟩
      rw [List.append_assoc, Leg.andThen, hl]
      dsimp only [valueOf, Except.map]
      rw [hl']
      rfl
    · obtain ⟨cs, s', hcomes, -⟩ := h.forth hpre hd
      refine ⟨cs, s', fun rest => ?_, settles_error⟩
      obtain ⟨es, hl, hserves⟩ := hcomes rest
      refine ⟨es, ?_, hserves⟩
      rw [Leg.andThen, hl]
      rfl
  back {x s cs r s''} hpre hr hserves := by
    rcases Leg.ok_or_failed l cs with ⟨a, ha⟩ | hfail
    · rw [Leg.andThen_ok ha] at hr hserves
      obtain ⟨s', hserves, hserves'⟩ := hserves.split
      obtain ⟨out, hd, hvalue, hmid⟩ := h.back hpre ha hserves
      rcases out with e | ⟨a', x'⟩
      · cases hvalue
      · obtain rfl : a' = a := Except.ok.inj hvalue
        obtain ⟨out, hg, hvalue, hsettles⟩ := (hf a').back (hmid a' x' rfl) hr hserves'
        exact ⟨out, Or.inl ⟨a', x', hd, hg⟩, hvalue, hsettles⟩
    · -- the first leg failed, too
      unfold Leg.andThen at hr hserves
      rcases hp : (l cs).pause with _ | ⟨e | a, _⟩ | ⟨msg, _⟩ <;> rw [hp] at hr hserves
      · cases hr
      · cases hr
        obtain ⟨out, hd, hvalue, -⟩ := h.back hpre (congrArg Pause.result hp) hserves
        rcases out with e' | ⟨a, x'⟩
        · obtain rfl : e' = e := Except.error.inj hvalue
          exact ⟨_, Or.inr ⟨e', hd, rfl⟩, rfl, settles_error⟩
        · cases hvalue
      · exact absurd (congrArg Pause.result hp) (hfail a)
      · cases hr

end Carried

/-! ## Pumps -/

/-- From where the peer stands, a pump around the coroutine returns what the deal comes to, and
nothing else. -/
structure Machine.Deals (m : Machine σ α Y (Except E A)) (io : Transport S α Y F)
    (pre : D → S → Prop) (post : D' → S → Prop) (s₀ : σ) (d : Deal D D' E A) : Prop where
  forth : ∀ {x st out}, pre x st → d x out → ∃ st',
    Ends (m.pumpTurn io) (s₀, none, st) (.returned (valueOf out), st') ∧ Settles post out st'
  back : ∀ {x st r st'}, pre x st → Ends (m.pumpTurn io) (s₀, none, st) (.returned r, st') →
    ∃ out, d x out ∧ valueOf out = r ∧ Settles post out st'

namespace Machine

variable {pre : D → S → Prop} {post : D' → S → Prop} {s₀ : σ}

/-- A coroutine deals if it always ends as the peer answers. -/
theorem deals_answer {m : Machine σ α Y (Except E A)} {io : Transport S α Y F}
    {f : D → Except E A × D'} (h : ∀ {x st}, pre x st →
      ∃ st', Ends (m.pumpTurn io) (s₀, none, st) (.returned (f x).1, st') ∧ post (f x).2 st') :
    m.Deals io pre post s₀ (.answer f) where
  forth {x st out} hpre hout := by
    obtain rfl : out = _ := hout
    obtain ⟨st', hends, hpost⟩ := h hpre
    rw [valueOf_map]
    exact ⟨st', hends, settles_map hpost⟩
  back {x st r st'} hpre hends := by
    obtain ⟨st'', hends', hpost⟩ := h hpre
    cases hends.unique hends'
    exact ⟨_, rfl, valueOf_map _ _, settles_map hpost⟩

/-- A run that ends takes no read that it was not fed, whatever is left for others. -/
theorem comesTo_of_result {m : Machine σ α Y R} {cs : List (List α)} {r : R}
    (h : (m.drive s₀ none cs).pause.result = some r) (rest : List (List α)) :
    ∃ s, m.drive s₀ none (fedOf (m.drive s₀ none cs).events ++ rest) =
      ⟨(m.drive s₀ none cs).events, .finished r s, rest⟩ := by
  rcases hp : (m.drive s₀ none cs).pause with s | ⟨r', s⟩ | ⟨msg, s⟩ <;> rw [hp] at h <;> cases h
  have hfed := drive_fed (m := m) s₀ none cs
  rw [hp] at hfed
  refine ⟨s, ?_⟩
  rw [drive_append (congrArg Transcript.pause hfed), hfed]
  rfl

/-- A coroutine that deals over one transport carries its leg over any transport that one is
within. -/
theorem Deals.carried {m : Machine σ α Y' (Except E' A)} {io' : Transport S' α Y' F'}
    {io : Transport S α Y F} {reads : Y → Bool} {pre : D → S' → Prop} {post : D' → S' → Prop}
    {embed : S' → S} {into : Y' → Y} {fails : F' → F} {d : Deal D D' E' A}
    (h : m.Deals io' pre post s₀ d) (hin : io'.Within io reads embed into fails)
    (hreads : reads ∘ into = m.reads) (err : E' → E) :
    Carried io reads (fun x s => ∃ st, pre x st ∧ embed st = s)
      (fun x s => ∃ st, post x st ∧ embed st = s) (Leg.ofMachine m into err s₀)
      (d.mapError err) where
  forth {x s out} hpre hout := by
    obtain ⟨st, hst, rfl⟩ := hpre
    obtain ⟨out, hd, rfl⟩ := hout
    obtain ⟨st', hends, hsettles⟩ := h.forth hst hd
    obtain ⟨cs, hresult, hserves⟩ := ends_pump_returned_iff.1 hends
    refine ⟨fedOf (m.drive s₀ none cs).events, embed st', fun rest => ?_, ?_⟩
    · obtain ⟨s, hdrive⟩ := comesTo_of_result hresult rest
      refine ⟨(m.drive s₀ none cs).events.map (.map into), ?_, ?_⟩
      · rw [Leg.ofMachine, hdrive, valueOf_mapError]
        rfl
      · rw [hin.serves_iff, hreads]
        exact ⟨st', hserves, rfl⟩
    · rw [settles_mapError]
      rintro a x' hout
      exact ⟨st', hsettles a x' hout, rfl⟩
  back {x s cs r s'} hpre hr hserves := by
    obtain ⟨st, hst, rfl⟩ := hpre
    rw [Leg.ofMachine] at hserves hr
    rw [hin.serves_iff, hreads] at hserves
    obtain ⟨st', hserves, rfl⟩ := hserves
    rw [Pause.result_map, Option.map_eq_some_iff] at hr
    obtain ⟨r, hr, rfl⟩ := hr
    obtain ⟨out, hd, rfl, hsettles⟩ := h.back hst (ends_pump_returned_iff.2 ⟨cs, hr, hserves⟩)
    refine ⟨_, ⟨out, hd, rfl⟩, valueOf_mapError err out, ?_⟩
    rw [settles_mapError]
    rintro a x' hout
    exact ⟨st', hsettles a x' hout, rfl⟩

end Machine

/-- A coroutine whose runs show a leg that is carried deals. -/
theorem Carried.deals {m : Machine σ α Y (Except E A)} {io : Transport S α Y F}
    {pre : D → S → Prop} {post : D' → S → Prop} {s₀ : σ} {l : Leg α Y E A} {d : Deal D D' E A}
    (h : Carried io m.reads pre post l d) (hl : ∀ cs, (m.drive s₀ none cs).shown = l cs) :
    m.Deals io pre post s₀ d where
  forth {x st out} hpre hout := by
    obtain ⟨cs, st', hcomes, hsettles⟩ := h.forth hpre hout
    obtain ⟨es, hleg, hserves⟩ := hcomes []
    rw [List.append_nil, ← hl] at hleg
    refine ⟨st', Machine.ends_pump_returned_iff.2 ⟨cs, ?_, ?_⟩, hsettles⟩
    · rw [← Pause.result_shown]
      exact congrArg (fun t => t.pause.result) hleg
    · have hevents := congrArg Transcript.events hleg
      rw [Transcript.shown_events] at hevents
      rwa [hevents]
  back {x st r st'} hpre hends := by
    obtain ⟨cs, hr, hserves⟩ := Machine.ends_pump_returned_iff.1 hends
    have hresult : (l cs).pause.result = some r := by
      rw [← hl, ← hr]
      exact Pause.result_shown _
    have hevents : Serves io m.reads st (l cs).events st' := by
      rw [← hl]
      exact hserves
    exact h.back hpre hresult hevents

end Coroutine
