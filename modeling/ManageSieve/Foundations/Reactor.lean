import ManageSieve.Foundations.Coroutine
import ManageSieve.Foundations.Incremental

/-!
# Clients that answer one item at a time

Many I/O-free clients have one shape: they read items off a growing buffer and decide on each of
them whether to write something, to pass over it, or to stop. `Client` is such a client over an
incremental parser, `Client.machine` the coroutine that runs it with a buffer of its own: what a
read went past stays in the buffer and is looked at before the next read is asked for.

`Client.consume` is what a client does on a whole stream, with no buffer and no reads. The main
result is `Client.drive_settled`: a run does on the bytes it was fed what `consume` does on them
joined together, so that where the reads were cut never shows (`Client.drive_covers`).
-/

namespace Reactor

open Coroutine Incremental

variable {α ε β Q W R : Type*}

/-- The two requests of such a client. -/
inductive Request (W : Type*)
  | read
  | write (w : W)
  deriving DecidableEq

/-- Whether a request is answered with data. -/
def Request.isRead : Request W → Bool
  | .read => true
  | .write _ => false

/-- What a request writes. -/
def Request.written : Request W → Option W
  | .read => none
  | .write w => some w

/-- What some events write. -/
def writesOf (es : List (Event α (Request W))) : List W := (yieldsOf es).filterMap Request.written

@[simp] theorem writesOf_nil : writesOf ([] : List (Event α (Request W))) = [] := rfl
@[simp] theorem writesOf_fed (c : List α) (es : List (Event α (Request W))) :
    writesOf (.fed c :: es) = writesOf es := rfl
@[simp] theorem writesOf_read (es : List (Event α (Request W))) :
    writesOf (.yielded .read :: es) = writesOf es := rfl
@[simp] theorem writesOf_append (es es' : List (Event α (Request W))) :
    writesOf (es ++ es') = writesOf es ++ writesOf es' := by
  simp [writesOf]
@[simp] theorem writesOf_write (w : W) (es : List (Event α (Request W))) :
    writesOf (.yielded (.write w) :: es) = w :: writesOf es := rfl

/-- What a client decides on an item. -/
inductive Decision (Q W R : Type*)
  | send (w : W) (q : Q)
  | skip (q : Q)
  | stop (r : R) (q : Q)

/-- A client over the items of a parser, with what it ends on when no item can be read. -/
structure Client (α ε β Q W R : Type*) where
  parser : Parser α ε β
  decide : Q → β → Decision Q W R
  onError : Q → ε → R
  onOverflow : Q → R
  onEof : Q → R
  /-- The elements that an incomplete item may occupy. -/
  ceiling : ℕ

/-! ## On a whole stream -/

/-- How a client stands after a stream: it goes on, or it stopped. -/
inductive Verdict (Q R : Type*)
  | going (q : Q)
  | stopped (r : R) (q : Q)

/-- The state that a client stands in. -/
def Verdict.state : Verdict Q R → Q
  | .going q => q
  | .stopped _ q => q

/-- What a client did on a stream: what it wrote, how it stands, and the elements it consumed. -/
structure Followed (Q W R : Type*) where
  writes : List W
  verdict : Verdict Q R
  consumed : ℕ

/-- The same, after writing `ws` and consuming `n` elements. -/
def Followed.after (ws : List W) (n : ℕ) (f : Followed Q W R) : Followed Q W R :=
  ⟨ws ++ f.writes, f.verdict, n + f.consumed⟩

theorem Followed.after_after (ws vs : List W) (n m : ℕ) (f : Followed Q W R) :
    (f.after vs m).after ws n = f.after (ws ++ vs) (n + m) := by
  simp [after, Nat.add_assoc]

@[simp] theorem Followed.after_nil_zero (f : Followed Q W R) : f.after [] 0 = f := by
  simp [after]

namespace Client

variable (c : Client α ε β Q W R)

/-- What a client does on a list of items. -/
def follow : Q → List (β × ℕ) → Followed Q W R
  | q, [] => ⟨[], .going q, 0⟩
  | q, (v, n) :: items =>
    match c.decide q v with
    | .send w q' => (follow q' items).after [w] n
    | .skip q' => (follow q' items).after [] n
    | .stop r q' => ⟨[], .stopped r q', n⟩

/-- The same, the items ended by an error or not. -/
def close (f : Followed Q W R) : Option ε → Followed Q W R
  | none => f
  | some e =>
    match f.verdict with
    | .going q => ⟨f.writes, .stopped (c.onError q e) q, f.consumed⟩
    | .stopped _ _ => f

/-- What a client does on a whole stream. -/
def consume (q : Q) (b : List α) : Followed Q W R :=
  c.close (c.follow q (c.parser.items b).1) (c.parser.items b).2

variable {c} {q q' : Q} {b : List α} {v : β} {n : ℕ} {w : W} {r : R}

section Follow

variable {items : List (β × ℕ)}

theorem follow_send (hd : c.decide q v = .send w q') :
    c.follow q ((v, n) :: items) = (c.follow q' items).after [w] n := by
  rw [follow, hd]

theorem follow_skip (hd : c.decide q v = .skip q') :
    c.follow q ((v, n) :: items) = (c.follow q' items).after [] n := by
  rw [follow, hd]

theorem follow_stop (hd : c.decide q v = .stop r q') :
    c.follow q ((v, n) :: items) = ⟨[], .stopped r q', n⟩ := by
  rw [follow, hd]

end Follow

/-- What holds of everything that a client may send holds of everything that it writes. -/
theorem follow_writes {P : W → Prop} (h : ∀ q v w q', c.decide q v = .send w q' → P w) (q : Q)
    (items : List (β × ℕ)) : ∀ w ∈ (c.follow q items).writes, P w := by
  induction items generalizing q with
  | nil => simp [follow]
  | cons item items ih =>
    obtain ⟨v, n⟩ := item
    intro w hw
    cases hd : c.decide q v with
    | send w' q' =>
      rw [follow_send hd] at hw
      rcases List.mem_cons.1 hw with rfl | hw
      · exact h q v _ q' hd
      · exact ih q' w hw
    | skip q' =>
      rw [follow_skip hd] at hw
      exact ih q' w hw
    | stop r q' =>
      rw [follow_stop hd] at hw
      cases hw

theorem close_after (ws : List W) (n : ℕ) (f : Followed Q W R) (e : Option ε) :
    c.close (f.after ws n) e = (c.close f e).after ws n := by
  rcases f with ⟨ws', q | ⟨r, q⟩, m⟩ <;> cases e <;> rfl

@[simp] theorem close_writes (f : Followed Q W R) (e : Option ε) :
    (c.close f e).writes = f.writes := by
  rcases f with ⟨ws, q | ⟨r, q⟩, m⟩ <;> cases e <;> rfl

@[simp] theorem close_state (f : Followed Q W R) (e : Option ε) :
    (c.close f e).verdict.state = f.verdict.state := by
  rcases f with ⟨ws, q | ⟨r, q⟩, m⟩ <;> cases e <;> rfl

/-- A client that goes on was not stopped by its items. -/
theorem going_of_close {f : Followed Q W R} {e : Option ε}
    (h : (c.close f e).verdict = .going q) : f.verdict = .going q := by
  rcases f with ⟨ws, q' | ⟨r', q'⟩, m⟩ <;> cases e <;> simp_all [close]

/-- Only the items make a client stop on what it does not stop on for want of an item. -/
theorem close_verdict_eq {f : Followed Q W R} {e : Option ε} (hr : ∀ q e, c.onError q e ≠ r) :
    (c.close f e).verdict = .stopped r q ↔ f.verdict = .stopped r q := by
  rcases f with ⟨ws, q' | ⟨r', q'⟩, m⟩ <;> cases e <;> simp [close, hr]

/-- What a client writes on a whole stream is what it may send. -/
theorem consume_writes {P : W → Prop} (h : ∀ q v w q', c.decide q v = .send w q' → P w) (q : Q)
    (b : List α) : ∀ w ∈ (c.consume q b).writes, P w := by
  rw [consume, close_writes]
  exact follow_writes h q _

theorem consume_error {e : ε} (h : c.parser.parse b = .error e) :
    c.consume q b = ⟨[], .stopped (c.onError q e) q, 0⟩ := by
  rw [consume, Parser.items_error h]
  rfl

theorem consume_none (h : c.parser.parse b = .ok none) : c.consume q b = ⟨[], .going q, 0⟩ := by
  rw [consume, Parser.items_none h]
  rfl

theorem consume_send (h : c.parser.parse b = .ok (some (v, n))) (hd : c.decide q v = .send w q') :
    c.consume q b = (c.consume q' (b.drop n)).after [w] n := by
  rw [consume, Parser.items_some h, follow_send hd, close_after]
  rfl

theorem consume_skip (h : c.parser.parse b = .ok (some (v, n))) (hd : c.decide q v = .skip q') :
    c.consume q b = (c.consume q' (b.drop n)).after [] n := by
  rw [consume, Parser.items_some h, follow_skip hd, close_after]
  rfl

theorem consume_stop (h : c.parser.parse b = .ok (some (v, n))) (hd : c.decide q v = .stop r q') :
    c.consume q b = ⟨[], .stopped r q', n⟩ := by
  rw [consume, Parser.items_some h, follow_stop hd]
  rcases (c.parser.items (b.drop n)).2 with _ | e <;> rfl

/-- What a client that stopped did does not depend on what follows. -/
theorem consume_append (h : (c.consume q b).verdict = .stopped r q') (t : List α) :
    c.consume q (b ++ t) = c.consume q b := by
  induction hk : b.length using Nat.strongRecOn generalizing q b with
  | ind k ih =>
    subst hk
    rcases hb : c.parser.parse b with e | _ | ⟨v, n⟩
    · rw [consume_error hb, consume_error (c.parser.error_append hb t)]
    · rw [consume_none hb] at h
      cases h
    · have hpos := c.parser.pos hb
      have hle := c.parser.le_length hb
      have hlt : (b.drop n).length < b.length := by
        rw [List.length_drop]
        omega
      have hbt := c.parser.some_append hb t
      cases hd : c.decide q v with
      | send w q₁ =>
        rw [consume_send hb hd] at h ⊢
        rw [consume_send hbt hd, List.drop_append_of_le_length hle, ih _ hlt h rfl]
      | skip q₁ =>
        rw [consume_skip hb hd] at h ⊢
        rw [consume_skip hbt hd, List.drop_append_of_le_length hle, ih _ hlt h rfl]
      | stop r₁ q₁ => rw [consume_stop hb hd, consume_stop hbt hd]

/-! ## With a buffer, one read at a time -/

variable (c) in
/-- Look at the buffer: pass over items until one is answered, ends the client, or is missing. -/
def look (q : Q) (b : List α) : Resumed (Request W) R × (Q × List α) :=
  match _h : c.parser.parse b with
  | .error e => (.complete (c.onError q e), (q, b))
  | .ok none =>
    if c.ceiling < b.length then (.complete (c.onOverflow q), (q, b)) else (.yielded .read, (q, b))
  | .ok (some (v, n)) =>
    match c.decide q v with
    | .send w q' => (.yielded (.write w), (q', b.drop n))
    | .skip q' => look q' (b.drop n)
    | .stop r q' => (.complete r, (q', b.drop n))
termination_by b.length
decreasing_by
  have hpos := c.parser.pos _h
  have hle := c.parser.le_length _h
  rw [List.length_drop]
  omega

theorem look_error {e : ε} (h : c.parser.parse b = .error e) :
    c.look q b = (.complete (c.onError q e), (q, b)) := by
  rw [look]
  split <;> simp_all

theorem look_none (h : c.parser.parse b = .ok none) :
    c.look q b =
      if c.ceiling < b.length then (.complete (c.onOverflow q), (q, b))
      else (.yielded .read, (q, b)) := by
  rw [look]
  split <;> simp_all

variable (c) in
/-- What a decision leads to, `rest` being what is left in the buffer. -/
def act (rest : List α) : Decision Q W R → Resumed (Request W) R × (Q × List α)
  | .send w q => (.yielded (.write w), (q, rest))
  | .skip q => c.look q rest
  | .stop r q => (.complete r, (q, rest))

theorem look_some (h : c.parser.parse b = .ok (some (v, n))) :
    c.look q b = c.act (b.drop n) (c.decide q v) := by
  rw [look]
  split <;> simp_all
  rfl

variable (c) in
/-- What looking at the buffer `b` can answer, compared with what the client does on any stream that
starts with `b`. -/
def Looks (q : Q) (b : List α) : Resumed (Request W) R × (Q × List α) → Prop
  | (.yielded .read, (q', rest)) =>
    c.parser.parse rest = .ok none ∧ rest.length ≤ c.ceiling ∧ ∃ n ≤ b.length, rest = b.drop n ∧
      ∀ t, c.consume q (b ++ t) = (c.consume q' (rest ++ t)).after [] n
  | (.yielded (.write w), (q', rest)) =>
    ∃ n ≤ b.length, 0 < n ∧ rest = b.drop n ∧
      ∀ t, c.consume q (b ++ t) = (c.consume q' (rest ++ t)).after [w] n
  | (.complete r, (q', rest)) =>
    ∃ n ≤ b.length, rest = b.drop n ∧
      ((∀ t, c.consume q (b ++ t) = ⟨[], .stopped r q', n⟩) ∨
        c.parser.parse rest = .ok none ∧ c.ceiling < rest.length ∧ r = c.onOverflow q' ∧
          ∀ t, c.consume q (b ++ t) = (c.consume q' (rest ++ t)).after [] n)
  | (.panicked _, _) => False

/-- Passing over an item first changes nothing but the elements consumed. -/
theorem Looks.skip {out : Resumed (Request W) R × (Q × List α)} (hn : n ≤ b.length)
    (hskip : ∀ t, c.consume q (b ++ t) = (c.consume q' (b.drop n ++ t)).after [] n)
    (h : c.Looks q' (b.drop n) out) : c.Looks q b out := by
  rcases out with ⟨(_ | w) | r | msg, q'', rest⟩
  · obtain ⟨hrest, hlen, m, hm, rfl, hc⟩ := h
    rw [List.length_drop] at hm
    refine ⟨hrest, hlen, n + m, by omega, by rw [List.drop_drop], fun t => ?_⟩
    rw [hskip, hc, Followed.after_after, List.nil_append]
  · obtain ⟨m, hm, hpos, rfl, hc⟩ := h
    rw [List.length_drop] at hm
    refine ⟨n + m, by omega, by omega, by rw [List.drop_drop], fun t => ?_⟩
    rw [hskip, hc, Followed.after_after, List.nil_append]
  · obtain ⟨m, hm, rfl, hc⟩ := h
    rw [List.length_drop] at hm
    refine ⟨n + m, by omega, by rw [List.drop_drop], ?_⟩
    rcases hc with hc | ⟨hrest, hlen, hr, hc⟩
    · exact Or.inl fun t => by rw [hskip, hc]; rfl
    · refine Or.inr ⟨hrest, hlen, hr, fun t => ?_⟩
      rw [hskip, hc, Followed.after_after, List.nil_append]
  · exact h

theorem look_looks (q : Q) (b : List α) : c.Looks q b (c.look q b) := by
  induction hk : b.length using Nat.strongRecOn generalizing q b with
  | ind k ih =>
    subst hk
    rcases hb : c.parser.parse b with e | _ | ⟨v, n⟩
    · rw [look_error hb]
      exact ⟨0, by omega, by simp, Or.inl fun t => consume_error (c.parser.error_append hb t)⟩
    · rw [look_none hb]
      split_ifs with hlen
      · exact ⟨0, by omega, by simp, Or.inr ⟨hb, hlen, rfl, fun t => by simp⟩⟩
      · exact ⟨hb, by omega, 0, by omega, by simp, fun t => by simp⟩
    · have hpos := c.parser.pos hb
      have hle := c.parser.le_length hb
      have hdrop : ∀ t, (b ++ t).drop n = b.drop n ++ t := fun t =>
        List.drop_append_of_le_length hle
      rw [look_some hb]
      cases hd : c.decide q v with
      | send w q' =>
        refine ⟨n, hle, hpos, rfl, fun t => ?_⟩
        rw [consume_send (c.parser.some_append hb t) hd, hdrop]
      | stop r q' =>
        refine ⟨n, hle, rfl, Or.inl fun t => ?_⟩
        rw [consume_stop (c.parser.some_append hb t) hd]
      | skip q' =>
        refine Looks.skip hle (fun t => ?_)
          (ih (b.drop n).length (by rw [List.length_drop]; omega) q' (b.drop n) rfl)
        rw [consume_skip (c.parser.some_append hb t) hd, hdrop]

/-- The coroutine of a client: what was read goes to the end of the buffer, and an empty read is the
end of the stream. -/
def machine (c : Client α ε β Q W R) : Machine (Q × List α) α (Request W) R where
  resume s arg :=
    match arg with
    | some [] => (.complete (c.onEof s.1), s)
    | some (a :: as) => c.look s.1 (s.2 ++ a :: as)
    | none => c.look s.1 s.2
  reads := Request.isRead
  budget s := s.2.length
  budget_lt {s y s'} h hy := by
    have hl := c.look_looks s.1 s.2
    dsimp only at h
    rw [h] at hl
    cases y with
    | read => cases hy
    | write w =>
      obtain ⟨n, hn, hpos, hrest, -⟩ := hl
      rw [hrest, List.length_drop]
      omega

theorem machine_resume_of_ne {s : Q × List α} {arg : Option (List α)} (h : arg ≠ some []) :
    c.machine.resume s arg = c.look s.1 (s.2 ++ arg.getD []) := by
  rcases arg with _ | _ | ⟨a, as⟩
  · simp [machine]
  · exact absurd rfl h
  · rfl

/-- A resume that is not the end of the stream looks at the buffer. -/
theorem resume_looks {s : Q × List α} {arg : Option (List α)}
    {out : Resumed (Request W) R × (Q × List α)} (harg : arg ≠ some [])
    (h : c.machine.resume s arg = out) : c.Looks s.1 (s.2 ++ arg.getD []) out := by
  rw [machine_resume_of_ne harg] at h
  rw [← h]
  exact c.look_looks _ _

/-- A request is never the answer to the end of the stream. -/
theorem resume_yielded_looks {s s' : Q × List α} {arg : Option (List α)} {y : Request W}
    (h : c.machine.resume s arg = (.yielded y, s')) :
    c.Looks s.1 (s.2 ++ arg.getD []) (.yielded y, s') := by
  have harg : arg ≠ some [] := by
    rintro rfl
    cases h
  exact resume_looks harg h

/-- What is buffered when a read is asked for is an incomplete item within the ceiling. -/
theorem resume_read {s s' : Q × List α} {arg : Option (List α)}
    (h : c.machine.resume s arg = (.yielded .read, s')) :
    c.parser.parse s'.2 = .ok none ∧ s'.2.length ≤ c.ceiling := by
  obtain ⟨hrest, hlen, -⟩ := resume_yielded_looks h
  exact ⟨hrest, hlen⟩

/-- A write leaves less in the buffer than there was. -/
theorem resume_write {s s' : Q × List α} {arg : Option (List α)}
    (h : c.machine.resume s arg = (.yielded (.write w), s')) :
    s'.2.length < (s.2 ++ arg.getD []).length := by
  obtain ⟨n, hn, hpos, hrest, -⟩ := resume_yielded_looks h
  rw [hrest, List.length_drop]
  omega

/-- No resume leaves more in the buffer than there was. -/
theorem resume_length_le (s : Q × List α) (arg : Option (List α)) :
    (c.machine.resume s arg).2.2.length ≤ (s.2 ++ arg.getD []).length := by
  by_cases harg : arg = some []
  · subst harg
    exact (List.prefix_append _ _).length_le
  · have hl : c.Looks s.1 (s.2 ++ arg.getD []) (c.machine.resume s arg) := resume_looks harg rfl
    rcases hr : c.machine.resume s arg with ⟨(_ | w) | r | msg, s'⟩ <;> rw [hr] at hl
    · obtain ⟨-, -, n, -, hrest, -⟩ := hl
      rw [hrest, List.length_drop]
      exact Nat.sub_le _ _
    · obtain ⟨n, -, -, hrest, -⟩ := hl
      rw [hrest, List.length_drop]
      exact Nat.sub_le _ _
    · obtain ⟨n, -, hrest, -⟩ := hl
      rw [hrest, List.length_drop]
      exact Nat.sub_le _ _
    · exact hl.elim

/-- A client never unwinds. -/
theorem resume_ne_panicked (s s' : Q × List α) (arg : Option (List α)) (msg : String) :
    c.machine.resume s arg ≠ (.panicked msg, s') := by
  intro hr
  by_cases harg : arg = some []
  · subst harg
    cases hr
  · exact resume_looks harg hr

variable (c) in
/-- A run stands as the client does after the stream `b`; it met the end of the stream only if `eof`
holds. -/
def Settled (q : Q) (b : List α) (eof : Prop) (t : Transcript (Q × List α) α (Request W) R) :
    Prop :=
  writesOf t.events = (c.consume q b).writes ∧
    match (c.consume q b).verdict with
    | .stopped r q' => t.pause = .finished r (q', b.drop (c.consume q b).consumed)
    | .going q' =>
      t.pause = .waiting (q', b.drop (c.consume q b).consumed) ∧ t.unfed = [] ∨
        t.pause = .finished (c.onOverflow q') (q', b.drop (c.consume q b).consumed) ∧
          c.ceiling < (b.drop (c.consume q b).consumed).length ∨
        t.pause = .finished (c.onEof q') (q', b.drop (c.consume q b).consumed) ∧ eof

/-- A run on the rest of a stream, after what came first. -/
theorem Settled.after {t : Transcript (Q × List α) α (Request W) R} {eof eof' : Prop}
    {rest u : List α} {ws : List W} (es : List (Event α (Request W)))
    (h : c.Settled q' (rest ++ u) eof t) (hn : n ≤ b.length) (hrest : rest = b.drop n)
    (hc : c.consume q (b ++ u) = (c.consume q' (rest ++ u)).after ws n)
    (hes : writesOf es = ws) (heof : eof → eof') : c.Settled q (b ++ u) eof' (t.prepend es) := by
  obtain ⟨hw, hp⟩ := h
  have hdrop : (b ++ u).drop (n + (c.consume q' (rest ++ u)).consumed) =
      (rest ++ u).drop (c.consume q' (rest ++ u)).consumed := by
    rw [← List.drop_drop, List.drop_append_of_le_length hn, ← hrest]
  constructor
  · rw [hc, Transcript.prepend_events, writesOf_append, hw, hes]
    rfl
  · rw [hc]
    simp only [Followed.after, hdrop, Transcript.prepend_pause, Transcript.prepend_unfed]
    cases hv : (c.consume q' (rest ++ u)).verdict <;> rw [hv] at hp
    · rcases hp with hp | hp | ⟨hp, he⟩
      · exact Or.inl hp
      · exact Or.inr (Or.inl hp)
      · exact Or.inr (Or.inr ⟨hp, heof he⟩)
    · exact hp

theorem flatten_toList (arg : Option (List α)) : arg.toList.flatten = arg.getD [] := by
  cases arg <;> simp

/-- A run that ends at once. -/
theorem settled_of_complete {s s' : Q × List α} {arg : Option (List α)} {r : R}
    (heof : arg = some [] → c.parser.parse s.2 = .ok none)
    (hr : c.machine.resume s arg = (.complete r, s')) (cs : List (List α)) :
    c.Settled s.1 (s.2 ++ arg.toList.flatten) ([] ∈ arg.toList) ⟨[], .finished r s', cs⟩ := by
  obtain ⟨q, b⟩ := s
  by_cases harg : arg = some []
  · subst harg
    cases hr
    have hb := heof rfl
    simp [Settled, consume_none hb]
  · obtain ⟨n, hn, hrest, hc⟩ := resume_looks harg hr
    rw [flatten_toList]
    rcases hc with hc | ⟨hrest', hlen, rfl, hc⟩
    · have hend := hc []
      rw [List.append_nil] at hend
      simp [Settled, hend, ← hrest]
    · have hover := hc []
      rw [List.append_nil, List.append_nil, consume_none hrest'] at hover
      simp [Settled, hover, Followed.after, ← hrest, hlen]

/-- **A run does what the client does on the bytes it was fed, joined together.** -/
theorem drive_settled (s : Q × List α) (arg : Option (List α)) (cs : List (List α))
    (heof : arg = some [] → c.parser.parse s.2 = .ok none) :
    c.Settled s.1 (s.2 ++ (arg.toList ++ fedOf (c.machine.drive s arg cs).events).flatten)
      ([] ∈ arg.toList ++ fedOf (c.machine.drive s arg cs).events) (c.machine.drive s arg cs) := by
  induction s, arg, cs using Machine.drive_induction (m := c.machine) with
  | complete s arg cs r s' hr =>
    rw [Machine.drive_complete hr]
    simpa using settled_of_complete heof hr cs
  | panicked s arg cs msg s' hr => exact absurd hr (resume_ne_panicked s s' arg msg)
  | read_nil s arg y s' hr hy =>
    cases y with
    | write w => cases hy
    | read =>
      obtain ⟨hrest', -, n, hn, hrest, hc⟩ := resume_yielded_looks hr
      have hwait := hc []
      rw [List.append_nil, List.append_nil, consume_none hrest'] at hwait
      rw [Machine.drive_read_nil hr hy]
      simp [Settled, hwait, Followed.after, ← hrest, flatten_toList]
  | read_cons s arg y s' a cs hr hy ih =>
    cases y with
    | write w => cases hy
    | read =>
      obtain ⟨hrest', -, n, hn, hrest, hc⟩ := resume_yielded_looks hr
      have hfed := (ih fun _ => hrest').after [.yielded .read, .fed a] hn hrest (hc _) rfl
        fun h => List.mem_append_right arg.toList h
      rw [Machine.drive_read_cons hr hy]
      simpa [flatten_toList] using hfed
  | yield s arg cs y s' hr hy ih =>
    cases y with
    | read => cases hy
    | write w =>
      obtain ⟨n, hn, -, hrest, hc⟩ := resume_yielded_looks hr
      have hwritten := (ih (by simp)).after [.yielded (.write w)] hn hrest (hc _) rfl
        fun h => List.mem_append_right arg.toList h
      rw [Machine.drive_yield hr hy]
      simpa [flatten_toList] using hwritten

/-- A run that waits, and that the next read brings to an end, is fed that read and no other. -/
theorem drive_stopped_by {s : Q × List α} {cs : List (List α)} {a : List α}
    (hwaits : (c.machine.drive (q, []) none cs).pause = .waiting s)
    (hstops : (c.consume q (cs.flatten ++ a)).verdict = .stopped r q') (post : List (List α)) :
    ∃ es rest, c.machine.drive (q, []) none (cs ++ a :: post) =
      ⟨es, .finished r (q', rest), post⟩ := by
  have hsettled := drive_settled (c := c) (q, []) none (cs ++ [a]) (by simp)
  have hfed := Machine.fed_append_unfed (m := c.machine) (q, []) none (cs ++ [a])
  have hbefore := Machine.fed_append_unfed (m := c.machine) (q, []) none cs
  rw [Machine.unfed_of_waiting hwaits, List.append_nil] at hbefore
  have hnext := Machine.drive_of_waiting hwaits (c := a) []
  generalize hrest : c.machine.drive s (some a) [] = t at hnext
  have hall : fedOf t.events = [] ∧ t.unfed = [] := by
    rw [hnext] at hfed
    simpa [hbefore] using hfed
  have hevents : fedOf (c.machine.drive (q, []) none (cs ++ [a])).events = cs ++ [a] := by
    rw [hnext]
    simp [hbefore, hall.1]
  have hunfed : (c.machine.drive (q, []) none (cs ++ [a])).unfed = [] := by
    rw [hnext]
    exact hall.2
  obtain ⟨-, hpause⟩ := hsettled
  simp only [Option.toList_none, List.nil_append, hevents, List.flatten_append,
    List.flatten_singleton, hstops] at hpause
  have hmore := Machine.drive_append hpause post
  rw [List.append_assoc, List.singleton_append, hunfed, List.nil_append] at hmore
  exact ⟨_, _, hmore⟩

variable (c) in
/-- A run stands as the client does after the whole stream `b`, fed as much of it as that took. -/
def Covers (q : Q) (b : List α) (t : Transcript (Q × List α) α (Request W) R) : Prop :=
  writesOf t.events = (c.consume q b).writes ∧
    match (c.consume q b).verdict with
    | .going q' => (∃ rest, t.pause = .waiting (q', rest)) ∧ t.unfed = []
    | .stopped r q' => (∃ rest, t.pause = .finished r (q', rest)) ∧
        c.consume q (fedOf t.events).flatten = c.consume q b

/-- **Where the reads are cut never shows**: a run against reads that cut a stream within the
ceiling stands as the client does after it. -/
theorem drive_covers {cs : List (List α)} (q : Q) (hcs : Cuts cs b) (hlen : b.length ≤ c.ceiling) :
    c.Covers q b (c.machine.drive (q, []) none cs) := by
  have hs := drive_settled (c := c) (q, []) none cs (by simp)
  have hfed := Machine.fed_append_unfed (m := c.machine) (q, []) none cs
  generalize c.machine.drive (q, []) none cs = t at hs hfed ⊢
  simp only [Option.toList_none, List.nil_append] at hs
  have hflat : (fedOf t.events).flatten ++ t.unfed.flatten = b := by
    rw [← List.flatten_append, hfed, hcs.flatten]
  obtain ⟨hw, hp⟩ := hs
  rcases hv : (c.consume q (fedOf t.events).flatten).verdict with q' | ⟨r, q'⟩ <;> rw [hv] at hp
  · rcases hp with ⟨hp, hun⟩ | ⟨-, hover⟩ | ⟨-, heof⟩
    · rw [hun, List.flatten_nil, List.append_nil] at hflat
      rw [hflat] at hw hv
      exact ⟨hw, by rw [hv]; exact ⟨⟨_, hp⟩, hun⟩⟩
    · have hle : ((fedOf t.events).flatten).length ≤ b.length := by
        rw [← hflat, List.length_append]
        omega
      rw [List.length_drop] at hover
      omega
    · exact absurd rfl (hcs.ne_nil [] (by rw [← hfed]; simp [heof]))
  · have hb : c.consume q b = c.consume q (fedOf t.events).flatten := by
      rw [← hflat, consume_append hv]
    exact ⟨hb ▸ hw, by rw [hb, hv]; exact ⟨⟨_, hp⟩, rfl⟩⟩

/-- A client that stops in its first read asks for no other. -/
theorem drive_first_read (hnil : c.parser.parse [] = .ok none) (hb : b ≠ [])
    (hlen : b.length ≤ c.ceiling) (h : (c.consume q b).verdict = .stopped r q')
    (cs : List (List α)) :
    fedOf (c.machine.drive (q, []) none (b :: cs)).events = [b] ∧
      (c.machine.drive (q, []) none (b :: cs)).unfed = cs := by
  have hcover : c.Covers q b (c.machine.drive (q, []) none [b]) :=
    drive_covers q ⟨by simp, by simpa using hb⟩ hlen
  have hfed := Machine.fed_append_unfed (m := c.machine) (q, []) none [b]
  obtain ⟨-, hp⟩ := hcover
  rw [h] at hp
  obtain ⟨⟨rest, hp⟩, hc⟩ := hp
  have hdrive := Machine.drive_append hp cs
  rw [List.singleton_append] at hdrive
  rw [hdrive]
  rcases hf : fedOf (c.machine.drive (q, []) none [b]).events with _ | ⟨b', fed⟩
  · rw [hf, List.flatten_nil, consume_none hnil] at hc
    rw [← hc] at h
    cases h
  · rw [hf, List.cons_append, List.cons.injEq, List.append_eq_nil_iff] at hfed
    obtain ⟨rfl, rfl, hun⟩ := hfed
    exact ⟨rfl, by rw [hun]; rfl⟩

end Client

end Reactor
