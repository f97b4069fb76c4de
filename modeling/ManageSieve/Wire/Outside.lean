import ManageSieve.Wire.Grammar

/-!
# Inside and outside the strings of a line

`Skips` walks over a line string by string: it says which places of a line are outside its strings,
whatever else stands there. Each of the strings has one end (`quoted_inj`, `announces_inj`), so that
the walk along the tokens of a line and the walk over its strings agree: a parenthesis is outside
the strings of a line exactly when it is one of its tokens (`LineOf.outside_iff`).
-/

namespace ManageSieve

/-- An octet that neither starts a string nor ends a line. -/
def Plain (b : UInt8) : Prop := b ≠ dquote ∧ b ≠ openBrace ∧ b ≠ lf

/-- `Skips front`: the end of `front` is outside the strings of a line that starts with it. -/
inductive Skips : Bytes → Prop
  | nil : Skips []
  | octet {b front} : Plain b → Skips front → Skips (b :: front)
  | quoted {value front : Bytes} : lf ∉ value → Skips front → Skips (quoted value ++ front)
  | literal {marker front} (e : LineEnd) (octets : Bytes) : Announces marker octets.length →
      Skips front → Skips (marker ++ (e.bytes ++ (octets ++ front)))

/-- The octet `b` occurs outside the strings of the line that starts `bytes`. -/
def Outside (bytes : Bytes) (b : UInt8) : Prop :=
  ∃ front rest, bytes = front ++ b :: rest ∧ Skips front ∧ Plain b

/-- The octet of a token that is a parenthesis. -/
def Token.paren : Token → Option UInt8
  | .open_ => some openParen
  | .close => some closeParen
  | _ => none

theorem Token.paren_cases {token : Token} {b : UInt8} (h : token.paren = some b) :
    (token = .open_ ∧ b = openParen) ∨ (token = .close ∧ b = closeParen) := by
  cases token <;> cases h
  · exact Or.inl ⟨rfl, rfl⟩
  · exact Or.inr ⟨rfl, rfl⟩

/-- A parenthesis is one token. -/
theorem Token.paren_inj {token token' : Token} {b : UInt8} (h : token.paren = some b)
    (h' : token'.paren = some b) : token = token' := by
  rcases Token.paren_cases h with ⟨rfl, rfl⟩ | ⟨rfl, rfl⟩ <;>
    rcases Token.paren_cases h' with ⟨rfl, hb⟩ | ⟨rfl, hb⟩ <;> first | rfl | cases hb

theorem Token.plain_paren (token : Token) {b : UInt8} (h : token.paren = some b) : Plain b := by
  rcases Token.paren_cases h with ⟨-, rfl⟩ | ⟨-, rfl⟩ <;> exact ⟨by decide, by decide, by decide⟩

theorem plain_of_not_special {b : UInt8} (h : isAtomSpecial b = false) : Plain b := by
  refine ⟨?_, ?_, ?_⟩ <;> rintro rfl <;> revert h <;> decide

/-! ## Strings have one end -/

theorem quoted_inj {value value' x y : Bytes} (h : quoted value ++ x = quoted value' ++ y) :
    value = value' ∧ x = y := by
  have hv := lexQuoted_quoted [] value x
  have hv' := lexQuoted_quoted [] value' y
  simp only [List.nil_append] at hv hv'
  rw [h, hv'] at hv
  cases hv
  exact ⟨rfl, List.append_cancel_left h⟩

theorem LineEnd.bytes_inj {e e' : LineEnd} {x y : Bytes} (h : e.bytes ++ x = e'.bytes ++ y) :
    e = e' ∧ x = y := by
  have hne : cr ≠ lf := by decide
  cases e <;> cases e' <;> simp_all [LineEnd.bytes]

/-- A marker ends on the first brace that closes it. -/
theorem Announces.exists_body {marker : Bytes} {size : ℕ} (h : Announces marker size) :
    ∃ body, marker = body ++ [closeBrace] ∧ closeBrace ∉ body := by
  obtain @⟨digits, sign, -, hd, hs⟩ := h
  have hdigits : closeBrace ∉ digits := fun hb => by
    have := hd closeBrace hb
    revert this
    decide
  refine ⟨openBrace :: (digits ++ sign), by simp, ?_⟩
  rcases hs with rfl | rfl <;> simp [hdigits] <;> decide

/-- A marker announces one size. -/
theorem Announces.unique {marker : Bytes} {size size' : ℕ} (h : Announces marker size)
    (h' : Announces marker size') : size = size' := by
  obtain @⟨digits, sign, -, hd, hs⟩ := h
  generalize hm : openBrace :: (digits ++ (sign ++ [closeBrace])) = marker at h'
  obtain @⟨digits', sign', -, hd', hs'⟩ := h'
  simp only [List.cons.injEq, true_and, ← List.append_assoc] at hm
  have hbody := List.append_cancel_right hm
  rw [← dropPlus_eq hd hs, hbody, dropPlus_eq hd' hs']

theorem announces_inj {marker marker' x y : Bytes} {size size' : ℕ} (h : Announces marker size)
    (h' : Announces marker' size') (heq : marker ++ x = marker' ++ y) :
    marker = marker' ∧ size = size' ∧ x = y := by
  obtain ⟨body, rfl, hbody⟩ := h.exists_body
  obtain ⟨body', rfl, hbody'⟩ := h'.exists_body
  simp only [List.append_assoc, List.singleton_append] at heq
  have hlen := findIdx?_beq_append hbody x
  rw [heq, findIdx?_beq_append hbody' y] at hlen
  obtain ⟨rfl, hrest⟩ := List.append_inj heq (Option.some.inj hlen).symm
  exact ⟨rfl, h.unique h', (List.cons.inj hrest).2⟩

/-! ## The first string of a walk -/

theorem Skips.tail {b : UInt8} {front : Bytes} (h : Skips (b :: front)) (hq : b ≠ dquote)
    (hb : b ≠ openBrace) : Plain b ∧ Skips front := by
  generalize hf : b :: front = bytes at h
  cases h with
  | nil => cases hf
  | octet hplain hfront =>
    cases hf
    exact ⟨hplain, hfront⟩
  | quoted =>
    cases hf
    exact absurd rfl hq
  | literal e octets hm =>
    obtain ⟨rest, rfl⟩ := hm.exists_cons
    cases hf
    exact absurd rfl hb

/-- Over a quoted string. -/
theorem Skips.of_quoted {front value x y : Bytes} {b : UInt8} (h : Skips front) (hb : b ≠ dquote)
    (heq : ManageSieve.quoted value ++ x = front ++ b :: y) :
    ∃ front', Skips front' ∧ x = front' ++ b :: y := by
  cases h with
  | nil => exact absurd (List.cons.inj heq).1.symm hb
  | octet hplain => exact absurd (List.cons.inj heq).1.symm hplain.1
  | @quoted value' front hlf hfront =>
    rw [List.append_assoc] at heq
    obtain ⟨rfl, rfl⟩ := quoted_inj heq
    exact ⟨front, hfront, rfl⟩
  | literal e octets hm =>
    obtain ⟨rest, rfl⟩ := hm.exists_cons
    exact absurd (List.cons.inj heq).1 (by decide)

/-- Over a literal. -/
theorem Skips.of_literal {front marker octets x y : Bytes} {b : UInt8} {e : LineEnd}
    (h : Skips front) (hb : b ≠ openBrace) (hm : Announces marker octets.length)
    (heq : marker ++ (e.bytes ++ (octets ++ x)) = front ++ b :: y) :
    ∃ front', Skips front' ∧ x = front' ++ b :: y := by
  obtain ⟨rest, hrest⟩ := hm.exists_cons
  cases h with
  | nil =>
    rw [hrest] at heq
    exact absurd (List.cons.inj heq).1.symm hb
  | octet hplain =>
    rw [hrest] at heq
    exact absurd (List.cons.inj heq).1.symm hplain.2.1
  | quoted =>
    rw [hrest] at heq
    exact absurd (List.cons.inj heq).1 (by decide)
  | @literal marker' front e' octets' hm' hfront =>
    simp only [List.append_assoc] at heq
    obtain ⟨rfl, hlen, hline⟩ := announces_inj hm hm' heq
    obtain ⟨rfl, hoctets⟩ := LineEnd.bytes_inj hline
    obtain ⟨rfl, rfl⟩ := List.append_inj hoctets hlen
    exact ⟨front, hfront, rfl⟩

/-- Over an octet that is not the one looked for. -/
theorem Skips.of_octet {front x y : Bytes} {c b : UInt8} (h : Skips front) (hc : c ≠ b)
    (hq : c ≠ dquote) (hbrace : c ≠ openBrace) (heq : c :: x = front ++ b :: y) :
    ∃ front', Skips front' ∧ x = front' ++ b :: y := by
  rcases front with _ | ⟨c', front⟩
  · exact absurd (List.cons.inj heq).1 hc
  · obtain ⟨rfl, htail⟩ := List.cons.inj heq
    exact ⟨front, (h.tail hq hbrace).2, htail⟩

/-- Over an atom. -/
theorem Skips.of_atom {front value x y : Bytes} {b : UInt8} (h : Skips front)
    (hv : ∀ c ∈ value, isAtomSpecial c = false) (hb : isAtomSpecial b = true)
    (heq : value ++ x = front ++ b :: y) : ∃ front', Skips front' ∧ x = front' ++ b :: y := by
  induction value generalizing front with
  | nil => exact ⟨front, h, heq⟩
  | cons c value ih =>
    obtain ⟨hc, hv⟩ := List.forall_mem_cons.1 hv
    have hcb : c ≠ b := by
      rintro rfl
      rw [hc] at hb
      cases hb
    have hplain := plain_of_not_special hc
    obtain ⟨front', hfront', htail⟩ := h.of_octet hcb hplain.1 hplain.2.1 heq
    exact ih hfront' hv htail

/-! ## Segments and lines -/

theorem mem_flatMap_escapeByte {b : UInt8} {value : Bytes} (h : b ∈ value) :
    b ∈ value.flatMap escapeByte := by
  refine List.mem_flatMap.2 ⟨b, h, ?_⟩
  cases hb : isQuotedSpecial b <;> simp [escapeByte, hb]

theorem Skips.append_plain {x front : Bytes} (hx : ∀ b ∈ x, Plain b) (h : Skips front) :
    Skips (x ++ front) := by
  induction x with
  | nil => exact h
  | cons b x ih =>
    obtain ⟨hb, hx⟩ := List.forall_mem_cons.1 hx
    exact .octet hb (ih hx)

/-- The walk over the strings gets over a segment. -/
theorem SegmentOf.skips {tokens : List Token} {seg front : Bytes} (h : SegmentOf tokens seg)
    (hlf : lf ∉ seg) (hfront : Skips front) : Skips (seg ++ front) := by
  induction h with
  | nil => exact hfront
  | @blank tokens bytes b hb _ ih =>
    rw [List.mem_cons, not_or] at hlf
    refine .octet ⟨?_, ?_, Ne.symm hlf.1⟩ (ih hlf.2) <;> rintro rfl <;> revert hb <;> decide
  | quoted value _ ih =>
    rw [List.mem_append, not_or] at hlf
    rw [List.append_assoc]
    refine .quoted (fun hmem => hlf.1 ?_) (ih hlf.2)
    simp [ManageSieve.quoted, mem_flatMap_escapeByte hmem]
  | atom hv _ _ ih =>
    rw [List.mem_append, not_or] at hlf
    rw [List.append_assoc]
    exact (ih hlf.2).append_plain fun b hb => plain_of_not_special (hv.2 b hb)
  | open_ _ ih =>
    rw [List.mem_cons, not_or] at hlf
    exact .octet (Token.plain_paren .open_ rfl) (ih hlf.2)
  | close _ ih =>
    rw [List.mem_cons, not_or] at hlf
    exact .octet (Token.plain_paren .close rfl) (ih hlf.2)

/-- A segment, cut at one of its parentheses. -/
theorem SegmentOf.exists_front {tokens : List Token} {seg : Bytes} {token : Token} {b : UInt8}
    (h : SegmentOf tokens seg) (hmem : token ∈ tokens) (hb : token.paren = some b) :
    ∃ tokens' front rest, seg = front ++ b :: rest ∧ SegmentOf tokens' front := by
  induction h with
  | nil => cases hmem
  | blank hw _ ih =>
    obtain ⟨tokens', front, rest, rfl, hfront⟩ := ih hmem
    exact ⟨_, _, rest, rfl, .blank hw hfront⟩
  | quoted value _ ih =>
    rcases List.mem_cons.1 hmem with rfl | hmem
    · cases hb
    · obtain ⟨tokens', front, rest, rfl, hfront⟩ := ih hmem
      exact ⟨_, _, rest, (List.append_assoc _ _ _).symm, .quoted value hfront⟩
  | atom hv hbounds _ ih =>
    rcases List.mem_cons.1 hmem with rfl | hmem
    · cases hb
    · obtain ⟨tokens', front, rest, rfl, hfront⟩ := ih hmem
      exact ⟨_, _, rest, (List.append_assoc _ _ _).symm, .atom hv hbounds.of_append hfront⟩
  | open_ _ ih =>
    rcases List.mem_cons.1 hmem with rfl | hmem
    · cases hb
      exact ⟨[], [], _, rfl, .nil⟩
    · obtain ⟨tokens', front, rest, rfl, hfront⟩ := ih hmem
      exact ⟨_, _, rest, rfl, .open_ hfront⟩
  | close _ ih =>
    rcases List.mem_cons.1 hmem with rfl | hmem
    · cases hb
      exact ⟨[], [], _, rfl, .nil⟩
    · obtain ⟨tokens', front, rest, rfl, hfront⟩ := ih hmem
      exact ⟨_, _, rest, rfl, .close hfront⟩

/-- A parenthesis among the tokens of a segment is outside its strings. -/
theorem SegmentOf.outside {tokens : List Token} {seg : Bytes} {token : Token} {b : UInt8}
    (h : SegmentOf tokens seg) (hlf : lf ∉ seg) (hmem : token ∈ tokens)
    (hb : token.paren = some b) (tail : Bytes) : Outside (seg ++ tail) b := by
  obtain ⟨tokens', front, rest, rfl, hfront⟩ := h.exists_front hmem hb
  have hskips := hfront.skips (fun hmem => hlf (List.mem_append_left _ hmem)) .nil
  rw [List.append_nil] at hskips
  exact ⟨front, rest ++ tail, by simp, hskips, token.plain_paren hb⟩

/-- A parenthesis that is no token of a segment is not outside its strings. -/
theorem SegmentOf.over {tokens : List Token} {seg front x y : Bytes} {token : Token} {b : UInt8}
    (h : SegmentOf tokens seg) (hb : token.paren = some b) (hmem : token ∉ tokens)
    (hfront : Skips front) (heq : seg ++ x = front ++ b :: y) :
    ∃ front', Skips front' ∧ x = front' ++ b :: y := by
  have hspecial : isAtomSpecial b = true ∧ isAsciiWhitespace b = false := by
    rcases Token.paren_cases hb with ⟨-, rfl⟩ | ⟨-, rfl⟩ <;> decide
  induction h generalizing front with
  | nil => exact ⟨front, hfront, heq⟩
  | @blank tokens bytes c hw _ ih =>
    have hcb : c ≠ b := by
      rintro rfl
      rw [hspecial.2] at hw
      cases hw
    have hc : c ≠ dquote ∧ c ≠ openBrace := by
      constructor <;> rintro rfl <;> revert hw <;> decide
    obtain ⟨front', hfront', htail⟩ := hfront.of_octet hcb hc.1 hc.2 heq
    exact ih hmem hfront' htail
  | quoted value _ ih =>
    rw [List.mem_cons, not_or] at hmem
    rw [List.append_assoc] at heq
    obtain ⟨front', hfront', htail⟩ := hfront.of_quoted (token.plain_paren hb).1 heq
    exact ih hmem.2 hfront' htail
  | atom hv _ _ ih =>
    rw [List.mem_cons, not_or] at hmem
    rw [List.append_assoc] at heq
    obtain ⟨front', hfront', htail⟩ := hfront.of_atom hv.2 hspecial.1 heq
    exact ih hmem.2 hfront' htail
  | open_ _ ih =>
    rw [List.mem_cons, not_or] at hmem
    have hne : openParen ≠ b := by
      rintro rfl
      exact hmem.1 (Token.paren_inj hb rfl)
    obtain ⟨front', hfront', htail⟩ := hfront.of_octet hne (by decide) (by decide) heq
    exact ih hmem.2 hfront' htail
  | close _ ih =>
    rw [List.mem_cons, not_or] at hmem
    have hne : closeParen ≠ b := by
      rintro rfl
      exact hmem.1 (Token.paren_inj hb rfl)
    obtain ⟨front', hfront', htail⟩ := hfront.of_octet hne (by decide) (by decide) heq
    exact ih hmem.2 hfront' htail

/-- A line feed is behind every place outside the strings of a segment. -/
theorem Skips.lf_ne {front x y : Bytes} {b : UInt8} (h : Skips front) (hb : Plain b) :
    lf :: x ≠ front ++ b :: y := by
  intro heq
  rcases front with _ | ⟨c, front⟩
  · exact hb.2.2 (List.cons.inj heq).1.symm
  · obtain ⟨rfl, -⟩ := List.cons.inj heq
    exact (h.tail (by decide) (by decide)).1.2.2 rfl

/-- **A parenthesis is outside the strings of a line exactly when it is one of its tokens.** -/
theorem LineOf.outside_iff {tokens : List Token} {line : Bytes} {b : UInt8}
    (h : LineOf tokens line) (token : Token) (hb : token.paren = some b) (tail : Bytes) :
    Outside (line ++ tail) b ↔ token ∈ tokens := by
  have hplain := token.plain_paren hb
  constructor
  · rintro ⟨front, rest, heq, hfront, -⟩
    by_contra hmem
    induction h generalizing front with
    | @last tokens seg hseg hlf =>
      rw [List.append_assoc] at heq
      obtain ⟨front', hfront', htail⟩ := hseg.over hb hmem hfront heq
      exact hfront'.lf_ne hplain htail
    | @literal tokens seg marker tokens' bytes e octets hseg hlf hm _ _ ih =>
      simp only [List.mem_append, List.mem_cons, not_or] at hmem
      simp only [List.append_assoc] at heq
      obtain ⟨front', hfront', htail⟩ := hseg.over hb hmem.1 hfront heq
      obtain ⟨front'', hfront'', htail'⟩ := hfront'.of_literal hplain.2.1 hm htail
      exact ih front'' htail' hfront'' hmem.2.2
  · intro hmem
    induction h with
    | last hseg hlf =>
      rw [List.append_assoc]
      exact hseg.outside hlf hmem hb _
    | @literal tokens seg marker tokens' bytes e octets hseg hlf hm _ _ ih =>
      rcases List.mem_append.1 hmem with hmem | hmem
      · rw [List.append_assoc]
        exact hseg.outside hlf hmem hb _
      rcases List.mem_cons.1 hmem with rfl | hmem
      · cases hb
      · obtain ⟨front, rest, heq, hfront, -⟩ := ih hmem
        refine ⟨seg ++ (marker ++ (e.bytes ++ (octets ++ front))), rest, by simp [heq],
          hseg.skips hlf (.literal e octets hm hfront), hplain⟩

end ManageSieve
