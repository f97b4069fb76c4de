import Mathlib.Data.List.Basic
import Mathlib.Data.List.Infix

/-!
# Incremental parsers

A reader that is handed a growing buffer asks the same question of it after every read: is there
an item at its front yet? An incremental parser answers with an error, with "not yet" (`none`), or
with the item and the number of elements it consumed. What makes such a parser usable on a stream
is that its answers are final: an item or an error found on a buffer is found on every extension of
that buffer, and an item is found as soon as the elements it consumed are there
(`Parser.parse_take_of_le`, `Parser.parse_take_of_lt`).

* `Parser` carries the laws of a final answer next to the parsing function.
* `Parser.mapM` checks and converts the items of a parser.
* `Parser.items` lists the items at the front of a buffer.
* `untilFrom`, `untilLast` repeat a parser up to a distinguished last item, over one buffer.
* `Parser.Reads` says that an encoding is read back, whatever follows it.
-/

namespace Incremental

variable {α ε β γ : Type*}

/-- A parser of items from the front of a buffer, whose answers are final. -/
structure Parser (α ε β : Type*) where
  parse : List α → Except ε (Option (β × ℕ))
  pos : ∀ {b v n}, parse b = .ok (some (v, n)) → 0 < n
  le_length : ∀ {b v n}, parse b = .ok (some (v, n)) → n ≤ b.length
  parse_take : ∀ {b v n}, parse b = .ok (some (v, n)) → parse (b.take n) = .ok (some (v, n))
  some_append : ∀ {b v n}, parse b = .ok (some (v, n)) → ∀ t, parse (b ++ t) = .ok (some (v, n))
  error_append : ∀ {b e}, parse b = .error e → ∀ t, parse (b ++ t) = .error e

namespace Parser

variable (p : Parser α ε β)

/-- No item, and no error, is found on a part of a buffer on which none is found. -/
theorem none_of_append {b t : List α} (h : p.parse (b ++ t) = .ok none) : p.parse b = .ok none := by
  rcases hb : p.parse b with e | _ | ⟨v, n⟩
  · rw [p.error_append hb] at h
    cases h
  · rfl
  · rw [p.some_append hb] at h
    cases h

/-- An item is found on every part of the buffer that covers it. -/
theorem parse_take_of_le {b : List α} {v : β} {n m : ℕ} (h : p.parse b = .ok (some (v, n)))
    (hm : n ≤ m) : p.parse (b.take m) = .ok (some (v, n)) := by
  have hsplit : b.take m = b.take n ++ (b.drop n).take (m - n) := by
    rw [← List.take_add, Nat.add_sub_cancel' hm]
  rw [hsplit]
  exact p.some_append (p.parse_take h) _

/-- Nothing is found on a part of the buffer that does not cover the item. -/
theorem parse_take_of_lt {b : List α} {v : β} {n m : ℕ} (h : p.parse b = .ok (some (v, n)))
    (hm : m < n) : p.parse (b.take m) = .ok none := by
  have hb : p.parse (b.take m ++ b.drop m) = .ok (some (v, n)) := by rwa [List.take_append_drop]
  rcases ht : p.parse (b.take m) with e | _ | ⟨v', n'⟩
  · rw [p.error_append ht] at hb
    cases hb
  · rfl
  · -- an item found this early would be the item of the whole buffer, and too long
    rw [p.some_append ht] at hb
    cases hb
    have := p.le_length ht
    rw [List.length_take] at this
    omega

/-- An item of the buffer is found on a prefix exactly when the prefix covers it. -/
theorem parse_prefix {a b : List α} {v : β} {n : ℕ} (hab : a <+: b)
    (h : p.parse b = .ok (some (v, n))) :
    p.parse a = if n ≤ a.length then .ok (some (v, n)) else .ok none := by
  rw [List.prefix_iff_eq_take.1 hab]
  split_ifs with hn
  · rw [← List.prefix_iff_eq_take.1 hab] at hn
    exact p.parse_take_of_le h hn
  · rw [← List.prefix_iff_eq_take.1 hab] at hn
    exact p.parse_take_of_lt h (not_le.1 hn)

/-- On a prefix of a buffer the parser answers the error of the buffer, or nothing yet. -/
theorem error_or_none_of_prefix {a b : List α} {e : ε} (hab : a <+: b)
    (h : p.parse b = .error e) : p.parse a = .error e ∨ p.parse a = .ok none := by
  obtain ⟨t, rfl⟩ := hab
  rcases ha : p.parse a with e' | _ | ⟨v, n⟩
  · rw [p.error_append ha] at h
    exact Or.inl h
  · exact Or.inr rfl
  · rw [p.some_append ha] at h
    cases h

/-! ## Encodings that are read back -/

/-- The parser reads `enc` as `v`, whatever follows. -/
def Reads (enc : List α) (v : β) : Prop := ∀ t, p.parse (enc ++ t) = .ok (some (v, enc.length))

/-! ## Checking the items -/

/-- The answer of a parser, its item checked and converted by `f`. -/
def checked (f : β → Except ε γ) (b : List α) : Except ε (Option (γ × ℕ)) :=
  match p.parse b with
  | .error e => .error e
  | .ok none => .ok none
  | .ok (some (v, n)) =>
    match f v with
    | .error e => .error e
    | .ok w => .ok (some (w, n))

variable {p} {f : β → Except ε γ}

theorem checked_eq_some_iff {b : List α} {w : γ} {n : ℕ} :
    p.checked f b = .ok (some (w, n)) ↔ ∃ v, p.parse b = .ok (some (v, n)) ∧ f v = .ok w := by
  unfold checked
  rcases hb : p.parse b with e | _ | ⟨v, m⟩
  · simp
  · simp
  · dsimp only
    rcases hf : f v with e | w'
    · simp [hf]
    · simp only [Except.ok.injEq, Option.some.injEq, Prod.mk.injEq]
      constructor
      · rintro ⟨rfl, rfl⟩
        exact ⟨v, ⟨rfl, rfl⟩, hf⟩
      · rintro ⟨v', ⟨rfl, rfl⟩, hv⟩
        rw [hf] at hv
        exact ⟨Except.ok.inj hv, rfl⟩

theorem checked_eq_error_iff {b : List α} {e : ε} :
    p.checked f b = .error e ↔
      p.parse b = .error e ∨ ∃ v n, p.parse b = .ok (some (v, n)) ∧ f v = .error e := by
  unfold checked
  rcases hb : p.parse b with e' | _ | ⟨v, m⟩
  · simp
  · simp
  · rcases hf : f v with e' | w' <;> simp [hf]

/-- The parser whose items are checked and converted by `f`. -/
def mapM (p : Parser α ε β) (f : β → Except ε γ) : Parser α ε γ where
  parse := p.checked f
  pos h := by
    obtain ⟨v, hv, -⟩ := checked_eq_some_iff.1 h
    exact p.pos hv
  le_length h := by
    obtain ⟨v, hv, -⟩ := checked_eq_some_iff.1 h
    exact p.le_length hv
  parse_take h := by
    obtain ⟨v, hv, hf⟩ := checked_eq_some_iff.1 h
    exact checked_eq_some_iff.2 ⟨v, p.parse_take hv, hf⟩
  some_append h t := by
    obtain ⟨v, hv, hf⟩ := checked_eq_some_iff.1 h
    exact checked_eq_some_iff.2 ⟨v, p.some_append hv t, hf⟩
  error_append h t := by
    rcases checked_eq_error_iff.1 h with hb | ⟨v, n, hb, hf⟩
    · exact checked_eq_error_iff.2 (Or.inl (p.error_append hb t))
    · exact checked_eq_error_iff.2 (Or.inr ⟨v, n, p.some_append hb t, hf⟩)

@[simp] theorem mapM_parse (b : List α) : (p.mapM f).parse b = p.checked f b := rfl

theorem Reads.mapM {enc : List α} {v : β} {w : γ} (h : p.Reads enc v) (hf : f v = .ok w) :
    (p.mapM f).Reads enc w :=
  fun t => checked_eq_some_iff.2 ⟨v, h t, hf⟩

/-- The same parser, its parsing function spelled differently. -/
def copy (p : Parser α ε β) (parse : List α → Except ε (Option (β × ℕ)))
    (h : ∀ b, parse b = p.parse b) : Parser α ε β where
  parse := parse
  pos hb := p.pos (by rwa [← h])
  le_length hb := p.le_length (by rwa [← h])
  parse_take hb := by
    rw [h] at hb ⊢
    exact p.parse_take hb
  some_append hb t := by
    rw [h] at hb ⊢
    exact p.some_append hb t
  error_append hb t := by
    rw [h] at hb ⊢
    exact p.error_append hb t

/-! ## The items of a buffer -/

/-- The items at the front of a buffer, with their lengths, and the error that ends them, if one
does. -/
def items (p : Parser α ε β) (b : List α) : List (β × ℕ) × Option ε :=
  match _h : p.parse b with
  | .error e => ([], some e)
  | .ok none => ([], none)
  | .ok (some (v, n)) => ((v, n) :: (items p (b.drop n)).1, (items p (b.drop n)).2)
termination_by b.length
decreasing_by
  all_goals
    have hpos := p.pos _h
    have hle := p.le_length _h
    rw [List.length_drop]
    omega

theorem items_error {b : List α} {e : ε} (h : p.parse b = .error e) :
    p.items b = ([], some e) := by
  rw [items]
  split <;> simp_all

theorem items_none {b : List α} (h : p.parse b = .ok none) : p.items b = ([], none) := by
  rw [items]
  split <;> simp_all

theorem items_some {b : List α} {v : β} {n : ℕ} (h : p.parse b = .ok (some (v, n))) :
    p.items b = ((v, n) :: (p.items (b.drop n)).1, (p.items (b.drop n)).2) := by
  rw [items]
  split <;> simp_all

/-- The items of a buffer are read from its suffixes. -/
theorem parse_of_mem_items {b : List α} {v : β} {n : ℕ} (h : (v, n) ∈ (p.items b).1) :
    ∃ b', p.parse b' = .ok (some (v, n)) := by
  induction hk : b.length using Nat.strongRecOn generalizing b with
  | ind k ih =>
    subst hk
    rcases hb : p.parse b with e | _ | ⟨v', n'⟩
    · rw [items_error hb] at h
      cases h
    · rw [items_none hb] at h
      cases h
    · have hpos := p.pos hb
      have hle := p.le_length hb
      rw [items_some hb] at h
      rcases List.mem_cons.1 h with h | h
      · cases h
        exact ⟨b, hb⟩
      · exact ih (b.drop n').length (by rw [List.length_drop]; omega) h rfl

/-- Encodings are read back one after the other. -/
theorem items_reads {encs : List (List α × β)} (h : ∀ x ∈ encs, p.Reads x.1 x.2) (t : List α) :
    p.items ((encs.map Prod.fst).flatten ++ t) =
      (encs.map (fun x => (x.2, x.1.length)) ++ (p.items t).1, (p.items t).2) := by
  induction encs with
  | nil => rfl
  | cons x encs ih =>
    obtain ⟨hx, hencs⟩ := List.forall_mem_cons.1 h
    have hp := hx ((encs.map Prod.fst).flatten ++ t)
    rw [List.map_cons, List.flatten_cons, List.append_assoc, items_some hp, List.drop_left,
      ih hencs]
    rfl

/-- More bytes only add items. -/
theorem items_append (p : Parser α ε β) (b t : List α) :
    (p.items b).1 <+: (p.items (b ++ t)).1 := by
  induction hk : b.length using Nat.strongRecOn generalizing b with
  | ind k ih =>
    subst hk
    rcases hb : p.parse b with e | _ | ⟨v, n⟩
    · rw [items_error hb]
      exact List.nil_prefix
    · rw [items_none hb]
      exact List.nil_prefix
    · have hpos := p.pos hb
      have hle := p.le_length hb
      rw [items_some hb, items_some (p.some_append hb t), List.drop_append_of_le_length hle]
      exact List.cons_prefix_cons.2 ⟨rfl, ih _ (by rw [List.length_drop]; omega) (b.drop n) rfl⟩

end Parser

/-! ## Repeating a parser up to a last item -/

section Until

variable (p : ℕ → Parser α ε (β ⊕ γ))

/-- Repeat a parser over `buf` from index `consumed`, up to and including the first item on the
right; the parser may depend on the index it starts at. The items come with the index reached. -/
def untilFrom (buf : List α) (consumed : ℕ) : Except ε (Option ((List β × γ) × ℕ)) :=
  match _h : (p consumed).parse (buf.drop consumed) with
  | .error e => .error e
  | .ok none => .ok none
  | .ok (some (.inr w, n)) => .ok (some (([], w), consumed + n))
  | .ok (some (.inl v, n)) =>
    match untilFrom buf (consumed + n) with
    | .error e => .error e
    | .ok none => .ok none
    | .ok (some ((vs, w), m)) => .ok (some ((v :: vs, w), m))
termination_by buf.length - consumed
decreasing_by
  have hpos := (p consumed).pos _h
  have hle := (p consumed).le_length _h
  rw [List.length_drop] at hle
  omega

variable {p} {buf : List α} {consumed : ℕ}

theorem untilFrom_error {e : ε} (h : (p consumed).parse (buf.drop consumed) = .error e) :
    untilFrom p buf consumed = .error e := by
  rw [untilFrom]
  split <;> simp_all

theorem untilFrom_none (h : (p consumed).parse (buf.drop consumed) = .ok none) :
    untilFrom p buf consumed = .ok none := by
  rw [untilFrom]
  split <;> simp_all

theorem untilFrom_last {w : γ} {n : ℕ}
    (h : (p consumed).parse (buf.drop consumed) = .ok (some (.inr w, n))) :
    untilFrom p buf consumed = .ok (some (([], w), consumed + n)) := by
  rw [untilFrom]
  split <;> simp_all

theorem untilFrom_cons {v : β} {n : ℕ}
    (h : (p consumed).parse (buf.drop consumed) = .ok (some (.inl v, n))) :
    untilFrom p buf consumed =
      match untilFrom p buf (consumed + n) with
      | .error e => .error e
      | .ok none => .ok none
      | .ok (some ((vs, w), m)) => .ok (some ((v :: vs, w), m)) := by
  rw [untilFrom]
  split <;> simp_all

/-- What a step of the repetition can do when it finds items up to the last one. -/
theorem untilFrom_eq_some {vs : List β} {w : γ} {m : ℕ}
    (h : untilFrom p buf consumed = .ok (some ((vs, w), m))) :
    (∃ n, (p consumed).parse (buf.drop consumed) = .ok (some (.inr w, n)) ∧ vs = [] ∧
        m = consumed + n) ∨
      ∃ v n ws, (p consumed).parse (buf.drop consumed) = .ok (some (.inl v, n)) ∧ vs = v :: ws ∧
        untilFrom p buf (consumed + n) = .ok (some ((ws, w), m)) := by
  rcases hb : (p consumed).parse (buf.drop consumed) with e | _ | ⟨v | w', n⟩
  · rw [untilFrom_error hb] at h
    cases h
  · rw [untilFrom_none hb] at h
    cases h
  · rw [untilFrom_cons hb] at h
    rcases hr : untilFrom p buf (consumed + n) with e | _ | ⟨⟨ws, w'⟩, m'⟩ <;> rw [hr] at h <;>
      cases h
    exact Or.inr ⟨v, n, ws, rfl, rfl, hr⟩
  · rw [untilFrom_last hb] at h
    cases h
    exact Or.inl ⟨n, rfl, rfl, rfl⟩

/-- What a step of the repetition can do when it finds an error. -/
theorem untilFrom_eq_error {e : ε} (h : untilFrom p buf consumed = .error e) :
    (p consumed).parse (buf.drop consumed) = .error e ∨
      ∃ v n, (p consumed).parse (buf.drop consumed) = .ok (some (.inl v, n)) ∧
        untilFrom p buf (consumed + n) = .error e := by
  rcases hb : (p consumed).parse (buf.drop consumed) with e' | _ | ⟨v | w, n⟩
  · rw [untilFrom_error hb] at h
    cases h
    exact Or.inl rfl
  · rw [untilFrom_none hb] at h
    cases h
  · rw [untilFrom_cons hb] at h
    rcases hr : untilFrom p buf (consumed + n) with e' | _ | ⟨⟨ws, w⟩, m⟩ <;> rw [hr] at h <;>
      cases h
    exact Or.inr ⟨v, n, rfl, hr⟩
  · rw [untilFrom_last hb] at h
    cases h

theorem untilFrom_bounds {vs : List β} {w : γ} {m : ℕ}
    (h : untilFrom p buf consumed = .ok (some ((vs, w), m))) :
    consumed < m ∧ m ≤ buf.length := by
  induction vs generalizing consumed with
  | nil =>
    obtain ⟨n, hp, -, rfl⟩ | ⟨v, n, ws, -, hvs, -⟩ := untilFrom_eq_some h
    · have hpos := (p consumed).pos hp
      have hle := (p consumed).le_length hp
      rw [List.length_drop] at hle
      omega
    · cases hvs
  | cons v vs ih =>
    obtain ⟨n, -, hvs, -⟩ | ⟨v', n, ws, hp, hvs, hrest⟩ := untilFrom_eq_some h
    · cases hvs
    · cases hvs
      have hpos := (p consumed).pos hp
      have := ih hrest
      omega

/-- The items reach as far as the last one does. -/
theorem exists_last_of_untilFrom {vs : List β} {w : γ} {m : ℕ}
    (h : untilFrom p buf consumed = .ok (some ((vs, w), m))) :
    ∃ c n, (p c).parse (buf.drop c) = .ok (some (.inr w, n)) ∧ m = c + n := by
  induction vs generalizing consumed with
  | nil =>
    obtain ⟨n, hp, -, rfl⟩ | ⟨v, n, ws, -, hvs, -⟩ := untilFrom_eq_some h
    · exact ⟨consumed, n, hp, rfl⟩
    · cases hvs
  | cons v vs ih =>
    obtain ⟨n, -, hvs, -⟩ | ⟨v', n, ws, -, hvs, hrest⟩ := untilFrom_eq_some h
    · cases hvs
    · cases hvs
      exact ih hrest

theorem untilFrom_take {vs : List β} {w : γ} {m : ℕ}
    (h : untilFrom p buf consumed = .ok (some ((vs, w), m))) :
    untilFrom p (buf.take m) consumed = .ok (some ((vs, w), m)) := by
  -- the part of the buffer that is kept still covers every item found before its end
  have hkept : ∀ {c n : ℕ} {v : β ⊕ γ}, c + n ≤ m →
      (p c).parse (buf.drop c) = .ok (some (v, n)) →
      (p c).parse ((buf.take m).drop c) = .ok (some (v, n)) := by
    intro c n v hm hp
    rw [List.drop_take]
    exact (p c).parse_take_of_le hp (by omega)
  induction vs generalizing consumed with
  | nil =>
    obtain ⟨n, hp, -, rfl⟩ | ⟨v, n, ws, -, hvs, -⟩ := untilFrom_eq_some h
    · exact untilFrom_last (hkept le_rfl hp)
    · cases hvs
  | cons v vs ih =>
    obtain ⟨n, -, hvs, -⟩ | ⟨v', n, ws, hp, hvs, hrest⟩ := untilFrom_eq_some h
    · cases hvs
    · cases hvs
      rw [untilFrom_cons (hkept (untilFrom_bounds hrest).1.le hp), ih hrest]

theorem untilFrom_some_append {vs : List β} {w : γ} {m : ℕ}
    (h : untilFrom p buf consumed = .ok (some ((vs, w), m))) (t : List α) :
    untilFrom p (buf ++ t) consumed = .ok (some ((vs, w), m)) := by
  induction vs generalizing consumed with
  | nil =>
    have hlt := untilFrom_bounds h
    obtain ⟨n, hp, -, rfl⟩ | ⟨v, n, ws, -, hvs, -⟩ := untilFrom_eq_some h
    · apply untilFrom_last
      rw [List.drop_append_of_le_length (by omega)]
      exact (p consumed).some_append hp t
    · cases hvs
  | cons v vs ih =>
    have hlt := untilFrom_bounds h
    obtain ⟨n, -, hvs, -⟩ | ⟨v', n, ws, hp, hvs, hrest⟩ := untilFrom_eq_some h
    · cases hvs
    · cases hvs
      have hp' : (p consumed).parse ((buf ++ t).drop consumed) = .ok (some (.inl v, n)) := by
        rw [List.drop_append_of_le_length (by omega)]
        exact (p consumed).some_append hp t
      rw [untilFrom_cons hp', ih hrest]

theorem untilFrom_error_append {e : ε} (hc : consumed ≤ buf.length)
    (h : untilFrom p buf consumed = .error e) (t : List α) :
    untilFrom p (buf ++ t) consumed = .error e := by
  induction hk : buf.length - consumed using Nat.strongRecOn generalizing consumed with
  | ind k ih =>
    rcases untilFrom_eq_error h with hp | ⟨v, n, hp, hrest⟩
    · apply untilFrom_error
      rw [List.drop_append_of_le_length hc]
      exact (p consumed).error_append hp t
    · have hpos := (p consumed).pos hp
      have hle := (p consumed).le_length hp
      rw [List.length_drop] at hle
      have hp' : (p consumed).parse ((buf ++ t).drop consumed) = .ok (some (.inl v, n)) := by
        rw [List.drop_append_of_le_length hc]
        exact (p consumed).some_append hp t
      rw [untilFrom_cons hp', ih _ (by omega) (by omega) hrest rfl]

variable (p) in
/-- The parser of the items up to a last one. -/
def untilLast : Parser α ε (List β × γ) where
  parse buf := untilFrom p buf 0
  pos h := (untilFrom_bounds h).1
  le_length h := (untilFrom_bounds h).2
  parse_take h := untilFrom_take h
  some_append h t := untilFrom_some_append h t
  error_append h t := untilFrom_error_append (Nat.zero_le _) h t

@[simp] theorem untilLast_parse (b : List α) : (untilLast p).parse b = untilFrom p b 0 := rfl

/-- **Repetition composes**: what reads as items before the last one, then as the last one, reads
as the list of them. -/
theorem untilFrom_reads {p : Parser α ε (β ⊕ γ)} {encs : List (List α × β)} {enc : List α} {w : γ}
    (hitems : ∀ x ∈ encs, p.Reads x.1 (.inl x.2)) (henc : p.Reads enc (.inr w))
    (pre t : List α) :
    untilFrom (fun _ => p) (pre ++ ((encs.map Prod.fst).flatten ++ enc) ++ t) pre.length =
      .ok (some ((encs.map Prod.snd, w),
        pre.length + ((encs.map Prod.fst).flatten ++ enc).length)) := by
  induction encs generalizing pre with
  | nil =>
    apply untilFrom_last (n := enc.length)
    simpa [List.append_assoc] using henc t
  | cons x encs ih =>
    have hp := hitems x (by simp) ((encs.map Prod.fst).flatten ++ enc ++ t)
    have hrest := ih (fun y hy => hitems y (by simp [hy])) (pre ++ x.1)
    simp only [List.map_cons, List.flatten_cons, List.append_assoc, List.length_append]
      at hp hrest ⊢
    rw [untilFrom_cons (v := x.2) (n := x.1.length) (by simpa using hp), hrest]
    simp only [Nat.add_assoc]

theorem untilLast_reads {p : Parser α ε (β ⊕ γ)} {encs : List (List α × β)} {enc : List α} {w : γ}
    (hitems : ∀ x ∈ encs, p.Reads x.1 (.inl x.2)) (henc : p.Reads enc (.inr w)) :
    (untilLast fun _ => p).Reads ((encs.map Prod.fst).flatten ++ enc) (encs.map Prod.snd, w) :=
  fun t => by
    rw [untilLast_parse]
    simpa using untilFrom_reads hitems henc [] t

end Until

end Incremental
