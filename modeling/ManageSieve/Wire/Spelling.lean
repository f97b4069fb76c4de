import ManageSieve.Wire.Framing
import ManageSieve.Wire.Quote

/-!
# Spellings of a logical line

A logical line can be written in many ways: each string quoted or as a literal, of the
synchronising form or the other, any blanks between the tokens, each line end with or without its
carriage return. `Spells` is the relation between the tokens of a line and the ways to write it, and
`scanLine_spells` says that the reader finds the tokens again, and the end of the line, whatever
follows.

The proof walks along the line. What was read of the current segment is kept as a judgment on its
own, `LexesAs`, which holds of a piece of a segment wherever that piece stands.
-/

namespace ManageSieve

/-! ## The ways to write a line -/

/-- The two line ends that are read. -/
inductive LineEnd
  | crlf
  | bare
  deriving DecidableEq

/-- The octets of a line end. -/
def LineEnd.bytes : LineEnd → Bytes
  | .crlf => ManageSieve.crlf
  | .bare => [lf]

/-- Whether `bytes` opens on an octet that ends an atom. -/
def opensSpecial (bytes : Bytes) : Bool := bytes.head?.any isAtomSpecial

/-- An octet sequence that travels as an atom. -/
def IsAtom (value : Bytes) : Prop := value ≠ [] ∧ ∀ b ∈ value, isAtomSpecial b = false

instance (value : Bytes) : Decidable (IsAtom value) :=
  @instDecidableAnd _ _ inferInstance
    (List.decidableBAll (fun b => isAtomSpecial b = false) value)

/-- An octet sequence that can travel between double quotes: it holds no line end. -/
def Quotable (value : Bytes) : Prop := ∀ b ∈ value, b ≠ cr ∧ b ≠ lf

instance (value : Bytes) : Decidable (Quotable value) :=
  List.decidableBAll (fun b => b ≠ cr ∧ b ≠ lf) value

/-- What the writer quotes can travel so; it sends other controls as literals. -/
theorem quotable_of_not_control {value : Bytes} (h : ∀ b ∈ value, isAsciiControl b = false) :
    Quotable value := by
  intro b hb
  have hcontrol := h b hb
  constructor <;> rintro rfl <;> revert hcontrol <;> decide

/-- `Spells tokens bytes`: writing the tokens of a logical line can give `bytes`, line ends
included. -/
inductive Spells : List Token → Bytes → Prop
  | eol (e : LineEnd) : Spells [] e.bytes
  | blank {tokens bytes} : Spells tokens bytes → Spells tokens (space :: bytes)
  | quoted {tokens bytes value} : Quotable value → Spells tokens bytes →
      Spells (.string value :: tokens) (quoted value ++ bytes)
  | literal {tokens bytes value} (sync : Bool) (e : LineEnd) : value.length ≤ maxLiteral →
      Spells tokens bytes →
      Spells (.string value :: tokens)
        (literalMarker sync value.length ++ (e.bytes ++ (value ++ bytes)))
  | atom {tokens bytes value} : IsAtom value → opensSpecial bytes = true → Spells tokens bytes →
      Spells (.atom value :: tokens) (value ++ bytes)
  | open_ {tokens bytes} : Spells tokens bytes → Spells (.open_ :: tokens) (openParen :: bytes)
  | close {tokens bytes} : Spells tokens bytes → Spells (.close :: tokens) (closeParen :: bytes)

/-! ## Pieces of a segment -/

/-- The piece `x` of a segment is lexed as `tokens` wherever it stands, provided, when `bounded`,
that what follows does not prolong it. -/
def LexesAs (x : Bytes) (tokens : List Token) (bounded : Bool) : Prop :=
  ∀ pre s lexed, (bounded = true → s = [] ∨ opensSpecial s = true) →
    lexFrom (pre ++ (x ++ s)) pre.length lexed =
      lexFrom (pre ++ (x ++ s)) (pre ++ x).length (lexed ++ tokens)

theorem LexesAs.nil : LexesAs [] [] false := by
  intro pre s lexed _
  simp

theorem LexesAs.append {x y : Bytes} {ts us : List Token} {b c : Bool} (hx : LexesAs x ts b)
    (hy : LexesAs y us c) (hb : b = true → opensSpecial y = true) :
    LexesAs (x ++ y) (ts ++ us) c := by
  intro pre s lexed hs
  have h₁ := hx pre (y ++ s) lexed fun h => Or.inr (by
    cases y with
    | nil => simpa [opensSpecial] using hb h
    | cons a y => simpa [opensSpecial] using hb h)
  have h₂ := hy (pre ++ x) s (lexed ++ ts) hs
  simp only [List.append_assoc] at h₁ h₂ ⊢
  rw [h₁, h₂]

theorem lexesAs_blank {b : UInt8} (hb : isAsciiWhitespace b = true) : LexesAs [b] [] false := by
  intro pre s lexed _
  rw [lexFrom, dif_pos (by simp), if_pos (by simpa using hb)]
  simp

theorem lexesAs_space : LexesAs [space] [] false := lexesAs_blank (by decide)

theorem lexesAs_open : LexesAs [openParen] [.open_] false := by
  intro pre s lexed _
  have hlt : pre.length < (pre ++ ([openParen] ++ s)).length := by simp
  have hget : (pre ++ ([openParen] ++ s))[pre.length] = openParen := by simp
  rw [lexFrom, dif_pos hlt, hget, if_neg (by decide), if_neg (by decide), if_neg (by decide),
    if_pos rfl, List.length_append, List.length_singleton]

theorem lexesAs_close : LexesAs [closeParen] [.close] false := by
  intro pre s lexed _
  have hlt : pre.length < (pre ++ ([closeParen] ++ s)).length := by simp
  have hget : (pre ++ ([closeParen] ++ s))[pre.length] = closeParen := by simp
  rw [lexFrom, dif_pos hlt, hget, if_neg (by decide), if_neg (by decide), if_neg (by decide),
    if_neg (by decide), if_pos rfl, List.length_append, List.length_singleton]

theorem lexesAs_quoted (value : Bytes) : LexesAs (quoted value) [.string value] false := by
  intro pre s lexed _
  have hq := lexQuoted_quoted pre value s
  rw [List.append_assoc] at hq
  have hhead : quoted value = dquote :: (value.flatMap escapeByte ++ [dquote]) := rfl
  have hlt : pre.length < (pre ++ (quoted value ++ s)).length := by
    rw [hhead]
    simp
  have hget : (pre ++ (quoted value ++ s))[pre.length] = dquote := by
    simp [hhead]
  rw [lexFrom, dif_pos hlt, hget, if_neg (by decide), if_pos rfl]
  split
  · rename_i err herr
    rw [hq] at herr
    cases herr
  · rename_i string next hok
    rw [hq] at hok
    cases hok
    rfl

theorem atomEnd_atom {value s : Bytes} (hv : ∀ b ∈ value, isAtomSpecial b = false)
    (hs : s = [] ∨ opensSpecial s = true) (pre : Bytes) :
    atomEnd (pre ++ (value ++ s)) pre.length = (pre ++ value).length := by
  induction value generalizing pre with
  | nil =>
    rw [atomEnd]
    rcases hs with rfl | hs
    · simp
    · cases s with
      | nil => simp [opensSpecial] at hs
      | cons b s =>
        have hb : isAtomSpecial b = true := by simpa [opensSpecial] using hs
        simp [hb]
  | cons b value ih =>
    obtain ⟨hb, hv⟩ := List.forall_mem_cons.1 hv
    have := ih hv (pre ++ [b])
    rw [atomEnd, dif_pos (by simp), if_neg (by simp [hb])]
    simpa using this

theorem not_whitespace_of_not_special {b : UInt8} (h : isAtomSpecial b = false) :
    isAsciiWhitespace b = false := by
  by_contra hw
  rw [Bool.not_eq_false] at hw
  have : isAtomSpecial b = true := by
    by_cases hs : b = space
    · simp [isAtomSpecial, hs]
    · simp [isAtomSpecial, isAsciiControl_of_whitespace hw hs]
  rw [h] at this
  cases this

theorem lexesAs_atom {value : Bytes} (h : IsAtom value) : LexesAs value [.atom value] true := by
  intro pre s lexed hs
  obtain ⟨hne, hv⟩ := h
  have hend := atomEnd_atom hv (hs rfl) pre
  obtain ⟨b, rest, rfl⟩ := List.exists_cons_of_ne_nil hne
  have hb := hv b (by simp)
  have hlt : pre.length < (pre ++ (b :: rest ++ s)).length := by simp
  have hget : (pre ++ (b :: rest ++ s))[pre.length] = b := by simp
  have hslice := slice_append pre (b :: rest) s
  rw [← List.length_append] at hslice
  have hw := not_whitespace_of_not_special hb
  simp only [isAtomSpecial, Bool.or_eq_false_iff, beq_eq_false_iff_ne] at hb
  rw [lexFrom, dif_pos hlt, hget, if_neg (by simp [hw]), if_neg hb.1.1.2, if_neg hb.1.1.1.1.2,
    if_neg hb.1.1.1.1.1.1, if_neg hb.1.1.1.1.1.2, hend, dif_neg (by simp), hslice]

/-- A segment is lexed as its pieces are. -/
theorem LexesAs.lex_eq {seg : Bytes} {tokens : List Token} {b : Bool} (h : LexesAs seg tokens b) :
    lex seg = .ok (tokens, none) := by
  have := h [] [] [] fun _ => Or.inl rfl
  simp only [List.nil_append, List.append_nil, List.length_nil] at this
  rw [lex, this, lexFrom, dif_neg (Nat.lt_irrefl _)]

/-- What is read at a brace is a marker. -/
theorem lexFrom_marker (pre : Bytes) {marker rest : Bytes} (hm : marker = openBrace :: rest)
    (lexed : List Token) :
    lexFrom (pre ++ marker) pre.length lexed =
      match lexLiteralMarker marker with
      | .error err => .error err
      | .ok size => .ok (lexed, some size) := by
  have hlt : pre.length < (pre ++ marker).length := by simp [hm]
  have hget : (pre ++ marker)[pre.length] = openBrace := by simp [hm]
  rw [lexFrom, dif_pos hlt, hget, if_neg (by decide), if_neg (by decide), if_pos rfl]
  rcases hmarker : lexLiteralMarker marker with err | size <;> rw [List.drop_left, hmarker]

/-- A segment that ends on a marker announces the octets of a literal. -/
theorem LexesAs.lex_marker {seg : Bytes} {tokens : List Token} {b : Bool}
    (h : LexesAs seg tokens b) (sync : Bool) {size : ℕ} (hs : size ≤ maxLiteral) :
    lex (seg ++ literalMarker sync size) = .ok (tokens, some size) := by
  have hmarker := lexLiteralMarker_literalMarker sync hs
  obtain ⟨rest, hrest⟩ := literalMarker_head sync size
  have := h [] (literalMarker sync size) [] fun _ => Or.inr (by
    rw [hrest]
    rfl)
  simp only [List.nil_append, List.length_nil] at this
  rw [lex, this, lexFrom_marker seg hrest, hmarker]

/-! ## Segments and their line ends -/

theorem stripCr_of_clean {seg : Bytes} (h : Quotable seg) : stripCr seg = seg := by
  exact if_neg fun hl => (h cr (List.mem_of_getLast? hl)).1 rfl

theorem stripCr_concat (seg : Bytes) : stripCr (seg ++ [cr]) = seg := by
  rw [stripCr, List.getLast?_concat, if_pos rfl, List.dropLast_concat]

theorem lf_not_mem {seg : Bytes} (h : Quotable seg) : lf ∉ seg := fun hl => (h lf hl).2 rfl

/-- A segment is found up to its line end. -/
theorem segmentAt_lineEnd {seg : Bytes} (h : Quotable seg) (e : LineEnd) (index : ℕ)
    (after : Bytes) :
    ∃ eol : Bytes, e.bytes = eol ++ [lf] ∧ stripCr (seg ++ eol) = seg ∧
      segmentAt index (seg ++ (e.bytes ++ after)) = segmentStep index (seg ++ eol) after := by
  cases e with
  | crlf =>
    refine ⟨[cr], rfl, stripCr_concat seg, ?_⟩
    have hlf : lf ∉ seg ++ [cr] := by
      rw [List.mem_append, not_or]
      exact ⟨lf_not_mem h, by decide⟩
    have := segmentAt_line index hlf after
    simpa [LineEnd.bytes] using this
  | bare =>
    refine ⟨[], rfl, by rw [List.append_nil, stripCr_of_clean h], ?_⟩
    have := segmentAt_line index (lf_not_mem h) after
    simpa [LineEnd.bytes] using this

theorem segmentAt_eol {seg : Bytes} {lexed : List Token} (h : Quotable seg)
    (hlex : lex seg = .ok (lexed, none)) (e : LineEnd) (index : ℕ) (after : Bytes) :
    segmentAt index (seg ++ (e.bytes ++ after)) =
      .ok (some (.inr lexed, seg.length + e.bytes.length)) := by
  obtain ⟨eol, heol, hstrip, hstep⟩ := segmentAt_lineEnd h e index after
  rw [hstep, segmentStep, hstrip, hlex, heol]
  simp [Nat.add_assoc]

theorem segmentAt_literal {seg value : Bytes} {lexed : List Token} (h : Quotable seg)
    (hlex : lex seg = .ok (lexed, some value.length)) (e : LineEnd) {index : ℕ}
    (hmax : index + (seg.length + e.bytes.length + value.length) ≤ usizeMax) (after : Bytes) :
    segmentAt index (seg ++ (e.bytes ++ (value ++ after))) =
      .ok (some (.inl (lexed ++ [.string value]), seg.length + e.bytes.length + value.length)) := by
  obtain ⟨eol, heol, hstrip, hstep⟩ := segmentAt_lineEnd h e index (value ++ after)
  have hlen : (seg ++ eol).length + 1 = seg.length + e.bytes.length := by
    rw [heol]
    simp [Nat.add_assoc]
  rw [hstep, segmentStep, hstrip, hlex]
  simp only [hlen, Nat.add_assoc index]
  rw [checkedAdd_of_le (by omega)]
  simp

/-! ## Reading a spelled line -/

theorem quotable_quoted {value : Bytes} (h : Quotable value) : Quotable (quoted value) := by
  have hd : dquote ≠ cr ∧ dquote ≠ lf := by decide
  have he : ∀ b ∈ value, ∀ c ∈ escapeByte b, c ≠ cr ∧ c ≠ lf := by
    intro b hb c hc
    unfold escapeByte at hc
    split_ifs at hc
    · rcases List.mem_pair.1 hc with rfl | rfl
      · decide
      · exact h _ hb
    · rw [List.mem_singleton] at hc
      exact hc ▸ h b hb
  intro c hc
  simp only [quoted, List.mem_append, List.mem_cons, List.mem_flatMap, List.not_mem_nil,
    or_false] at hc
  rcases hc with (rfl | ⟨b, hb, hc⟩) | rfl
  · exact hd
  · exact he b hb c hc
  · exact hd

theorem quotable_literalMarker (sync : Bool) (size : ℕ) : Quotable (literalMarker sync size) := by
  apply quotable_of_not_control
  have hdigit : ∀ b, isAsciiDigit b = true → isAsciiControl b = false := by
    intro b hb
    simp only [isAsciiDigit, Bool.and_eq_true, decide_eq_true_eq, UInt8.le_iff_toNat_le] at hb
    simp only [isAsciiControl, Bool.or_eq_false_iff, decide_eq_false_iff_not, beq_eq_false_iff_ne,
      UInt8.lt_iff_toNat_lt, ne_eq, ← UInt8.toNat_inj]
    simp only [UInt8.toNat_ofNat] at hb ⊢
    omega
  intro b hb
  simp only [literalMarker, List.mem_append, List.mem_cons, List.not_mem_nil, or_false] at hb
  rcases hb with ((rfl | hb) | hb) | rfl
  · decide
  · exact hdigit b (decimal_digits size b hb)
  · cases sync with
    | false =>
      rw [if_neg (by decide), List.mem_singleton] at hb
      subst hb
      decide
    | true => simp at hb
  · decide

theorem quotable_atom {value : Bytes} (h : IsAtom value) : Quotable value := by
  refine quotable_of_not_control fun b hb => ?_
  have := h.2 b hb
  rw [isAtomSpecial, Bool.or_eq_false_iff] at this
  exact this.2

theorem Quotable.append {x y : Bytes} (hx : Quotable x) (hy : Quotable y) : Quotable (x ++ y) := by
  intro b hb
  rcases List.mem_append.1 hb with hb | hb
  · exact hx b hb
  · exact hy b hb

/-- `seg` is what was read of the current segment, its tokens are `lexed`, and `bytes` may follow
it. -/
structure ReadSoFar (seg : Bytes) (lexed : List Token) (bytes : Bytes) (b : Bool) : Prop where
  quotable : Quotable seg
  lexes : LexesAs seg lexed b
  bounded : b = true → opensSpecial bytes = true

theorem ReadSoFar.nil (bytes : Bytes) : ReadSoFar [] [] bytes false :=
  ⟨by simp [Quotable], LexesAs.nil, by simp⟩

/-- Reading on, over one more piece of the segment. -/
theorem ReadSoFar.append {seg x bytes : Bytes} {lexed tokens : List Token} {b c : Bool}
    (h : ReadSoFar seg lexed (x ++ bytes) b) (hne : x ≠ []) (hx : LexesAs x tokens c)
    (hq : Quotable x) (hc : c = true → opensSpecial bytes = true) :
    ReadSoFar (seg ++ x) (lexed ++ tokens) bytes c where
  quotable := h.quotable.append hq
  lexes := h.lexes.append hx fun hb => by
    obtain ⟨a, x, rfl⟩ := List.exists_cons_of_ne_nil hne
    exact h.bounded hb
  bounded := hc

/-- `bytes` end a line with `tokens`, whatever was read before them and whatever follows. -/
def EndsLine (tokens : List Token) (bytes : Bytes) : Prop :=
  ∀ {seg : Bytes} {lexed : List Token} {b : Bool}, ReadSoFar seg lexed bytes b →
    ∀ {pre : Bytes}, pre.length + (seg.length + bytes.length) ≤ usizeMax →
      ∀ (read : List Token) (tail : Bytes),
        scanLineFrom (pre ++ (seg ++ (bytes ++ tail))) pre.length read =
          .ok (some (read ++ lexed ++ tokens, pre.length + (seg.length + bytes.length)))

theorem EndsLine.eol (e : LineEnd) : EndsLine [] e.bytes := by
  intro seg lexed b hseg pre hmax read tail
  rw [scanLineFrom_step (by simp), List.drop_left, segmentAt_eol hseg.quotable hseg.lexes.lex_eq]
  simp only [List.append_nil]

/-- One more piece of the segment in front. -/
theorem EndsLine.piece {tokens ts : List Token} {bytes x : Bytes} {c : Bool}
    (h : EndsLine tokens bytes) (hne : x ≠ []) (hx : LexesAs x ts c) (hq : Quotable x)
    (hc : c = true → opensSpecial bytes = true) : EndsLine (ts ++ tokens) (x ++ bytes) := by
  intro seg lexed b hseg pre hmax read tail
  have hseg' := hseg.append hne hx hq hc
  rw [List.length_append, ← Nat.add_assoc seg.length, ← List.length_append] at hmax
  have := h hseg' hmax read tail
  simpa only [List.append_assoc, List.length_append, Nat.add_assoc] using this

/-- A literal in front, which ends the segment and starts the next one. -/
theorem EndsLine.literal {tokens : List Token} {bytes value : Bytes} (sync : Bool) (e : LineEnd)
    (hv : value.length ≤ maxLiteral) (h : EndsLine tokens bytes) :
    EndsLine (.string value :: tokens)
      (literalMarker sync value.length ++ (e.bytes ++ (value ++ bytes))) := by
  intro seg lexed b hseg pre hmax read tail
  have hmarker := quotable_literalMarker sync value.length
  have hmax' : pre.length + ((seg ++ literalMarker sync value.length).length + e.bytes.length +
      value.length) ≤ usizeMax := by
    simp only [List.length_append] at hmax ⊢
    omega
  have hstep := segmentAt_literal (hseg.quotable.append hmarker)
    (hseg.lexes.lex_marker sync hv) e hmax' (bytes ++ tail)
  have hmax'' : (pre ++ (seg ++ (literalMarker sync value.length ++ (e.bytes ++ value)))).length +
      (([] : Bytes).length + bytes.length) ≤ usizeMax := by
    simp only [List.length_append, List.length_nil] at hmax ⊢
    omega
  have hrest := h (ReadSoFar.nil bytes) hmax'' (read ++ (lexed ++ [.string value])) tail
  rw [scanLineFrom_step (by simp), List.drop_left]
  simp only [List.append_assoc, List.length_append, List.nil_append] at hstep hrest ⊢
  rw [hstep]
  simp only [Nat.add_assoc] at hrest ⊢
  rw [hrest]
  simp

/-- **The reader finds a spelled line**: whatever was read before it and whatever follows. -/
theorem endsLine_spells {tokens : List Token} {bytes : Bytes} (h : Spells tokens bytes) :
    EndsLine tokens bytes := by
  induction h with
  | eol e => exact EndsLine.eol e
  | blank h ih => exact ih.piece (by simp) lexesAs_space (by decide) (by simp)
  | @quoted tokens bytes value hv h ih =>
    exact ih.piece (by simp [ManageSieve.quoted]) (lexesAs_quoted value) (quotable_quoted hv)
      (by simp)
  | @literal tokens bytes value sync e hv h ih => exact ih.literal sync e hv
  | atom hv hb h ih => exact ih.piece hv.1 (lexesAs_atom hv) (quotable_atom hv) fun _ => hb
  | open_ h ih => exact ih.piece (by simp) lexesAs_open (by decide) (by simp)
  | close h ih => exact ih.piece (by simp) lexesAs_close (by decide) (by simp)

/-- **A spelled line is read back**: its tokens, and the end of it, whatever follows. -/
theorem scanLine_spells {tokens : List Token} {bytes : Bytes} (h : Spells tokens bytes)
    (hmax : bytes.length ≤ usizeMax) (tail : Bytes) :
    scanLine (bytes ++ tail) = .ok (some (tokens, bytes.length)) := by
  have hmax' : ([] : Bytes).length + (([] : Bytes).length + bytes.length) ≤ usizeMax := by
    simpa using hmax
  have := endsLine_spells h (ReadSoFar.nil bytes) hmax' [] tail
  simpa [scanLine] using this

end ManageSieve
