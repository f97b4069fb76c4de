import ManageSieve.Wire.Rendering

/-!
# Response codes with extension data

A code that is not modelled carries extension data: strings, numbers, and parenthesised extension
data, nested to any depth. The reader keeps the name of such a code and is to skip the rest of it.
It looks for the first closing parenthesis, in a flat list of tokens, and this is the one that
matches the opening one only when no list is nested in the data. `ExtensionData.stray` is what
stands behind the first closing parenthesis otherwise, and the main result,
`ManagesieveResponse.parse_extended_iff`, says when the code is skipped as a whole.
-/

namespace ManageSieve

/-! ## Extension data -/

/-- Extension data: a sequence of strings, numbers and parenthesised extension data. -/
inductive ExtensionData
  | nil
  | string (value : Bytes) (rest : ExtensionData)
  | number (n : ℕ) (rest : ExtensionData)
  | list (inner rest : ExtensionData)

namespace ExtensionData

/-- The tokens of extension data. -/
def tokens : ExtensionData → List Token
  | nil => []
  | string value rest => .string value :: rest.tokens
  | number n rest => .atom (decimal n) :: rest.tokens
  | list inner rest => .open_ :: (inner.tokens ++ .close :: rest.tokens)

/-- The string that extension data opens on. -/
def opening : ExtensionData → Option Bytes
  | string value _ => some value
  | _ => none

/-- What stands right behind the first closing parenthesis of the data, when there is one: a string,
or anything else. -/
def stray : ExtensionData → Option (Option Bytes)
  | nil => none
  | string _ rest => rest.stray
  | number _ rest => rest.stray
  | list inner rest => some (inner.stray.getD rest.opening)

/-- A string that opens extension data is what a reader takes for the text there. -/
theorem completionText_tokens (ext : ExtensionData) (after : List Token) :
    completionText (ext.tokens ++ .close :: after) = ext.opening.map text := by
  cases ext <;> rfl

/-- **Where the first closing parenthesis is**: behind it stands what is stray in the data, or, when
the data holds none, what follows the parenthesis that matches. -/
theorem exists_firstClose (ext : ExtensionData) (after : List Token) :
    ∃ before rest, ext.tokens ++ .close :: after = before ++ .close :: rest ∧
      Token.close ∉ before ∧
      completionText rest = (ext.stray.map (Option.map text)).getD (completionText after) := by
  induction ext generalizing after with
  | nil => exact ⟨[], after, rfl, by simp, rfl⟩
  | string value rest ih =>
    obtain ⟨before, behind, heq, hclose, htext⟩ := ih after
    exact ⟨.string value :: before, behind, by simp [tokens, heq], by simp [hclose], htext⟩
  | number n rest ih =>
    obtain ⟨before, behind, heq, hclose, htext⟩ := ih after
    exact ⟨.atom (decimal n) :: before, behind, by simp [tokens, heq], by simp [hclose], htext⟩
  | list inner rest ihInner _ =>
    -- the first closing parenthesis is inside the inner data, or the one that ends it
    obtain ⟨before, behind, heq, hclose, htext⟩ := ihInner (rest.tokens ++ .close :: after)
    refine ⟨.open_ :: before, behind, ?_, by simp [hclose], ?_⟩
    · rw [tokens, List.cons_append, List.append_assoc, List.cons_append, heq, List.cons_append]
    · rw [htext, completionText_tokens, stray]
      cases inner.stray <;> rfl

end ExtensionData

/-! ## Completions with extension data -/

/-- `name` is none of the modelled code names, whatever detail refines it. -/
def Unmodelled (name : Bytes) : Prop :=
  ∀ keyword ∈ codeNames, ∀ detail, ¬ Refines keyword name detail

/-- A response whose completion carries an unmodelled code with extension data. The response is what
remains when the code is skipped as a whole: its name, and the text behind the parenthesis that
matches the opening one. -/
inductive RendersExtended (ext : ExtensionData) : ManagesieveResponse → Bytes → Prop
  | completion {status word name txt textTokens bytes} :
      eqIgnoreAsciiCase word (asBytes status.asStr) = true → Unmodelled name →
      RendersText txt textTokens →
      Spells (.atom word :: .open_ :: .atom name :: (ext.tokens ++ .close :: textTokens)) bytes →
      RendersExtended ext ⟨[], ⟨status, some (.other (text name)), txt⟩⟩ bytes
  | data {line data completion bytes rest} : RendersData line bytes →
      RendersExtended ext ⟨data, completion⟩ rest →
      RendersExtended ext ⟨line :: data, completion⟩ (bytes ++ rest)

/-- The response that is read: its text is the stray string of the data, if the data has a place for
one. -/
def ExtensionData.misread (ext : ExtensionData) (response : ManagesieveResponse) :
    ManagesieveResponse :=
  { response with completion.text :=
      (ext.stray.map (Option.map text)).getD response.completion.text }

theorem ExtensionData.misread_eq_iff {ext : ExtensionData} {response : ManagesieveResponse} :
    ext.misread response = response ↔
      ∀ found ∈ ext.stray, found.map text = response.completion.text := by
  obtain ⟨data, status, code, txt⟩ := response
  rw [misread]
  cases ext.stray <;> simp

theorem splitCode_extended {name : Bytes} (hname : Unmodelled name) (ext : ExtensionData)
    (after : List Token) :
    ∃ rest, splitCode (.open_ :: .atom name :: (ext.tokens ++ .close :: after)) =
        .ok (some (.other (text name)), rest) ∧
      completionText rest = (ext.stray.map (Option.map text)).getD (completionText after) := by
  obtain ⟨before, rest, heq, hclose, htext⟩ := ext.exists_firstClose after
  refine ⟨rest, ?_, htext⟩
  have hsplit : (Token.atom name :: (ext.tokens ++ .close :: after)) =
      (Token.atom name :: before) ++ .close :: rest := by rw [heq, List.cons_append]
  have hfirst : ((Token.atom name :: before) ++ .close :: rest).findIdx? (· == .close) =
      some (Token.atom name :: before).length :=
    findIdx?_beq_append (by simp [hclose]) rest
  have hcode : parseCode (.atom name :: before) = .ok (.other (text name)) := by
    rw [parseCode, codeArgument_cons, namedCode_of_renders (.other hname)]
  rw [splitCode, hsplit]
  simp only [hfirst, List.take_left, hcode, List.drop_length_add_append]
  rfl

theorem parseCompletion_extended {status : ManagesieveStatus} {word name : Bytes}
    {txt : Option String} {textTokens : List Token}
    (hword : eqIgnoreAsciiCase word (asBytes status.asStr) = true) (hname : Unmodelled name)
    (htext : RendersText txt textTokens) (ext : ExtensionData) :
    parseCompletion (.atom word :: .open_ :: .atom name :: (ext.tokens ++ .close :: textTokens)) =
      .ok ⟨status, some (.other (text name)), (ext.stray.map (Option.map text)).getD txt⟩ := by
  obtain ⟨rest, hsplit, hrest⟩ := splitCode_extended hname ext textTokens
  rw [completionText_of_renders htext] at hrest
  simp only [parseCompletion, parseStatus_word hword, hsplit, hrest]

theorem RendersExtended.readsLines {ext : ExtensionData} {response : ManagesieveResponse}
    {bytes : Bytes} (h : RendersExtended ext response bytes) (hmax : bytes.length ≤ usizeMax) :
    ReadsLines (ext.misread response).data (ext.misread response).completion bytes := by
  induction h with
  | completion hword hname htext hspells =>
    refine .completion (lineParser_reads hspells hmax ?_)
    simp only [parseLine, parseCompletion_extended hword hname htext, ExtensionData.misread]
  | data hline _ ih =>
    rw [List.length_append] at hmax
    exact .data (hline.reads (by omega)) (ih (by omega))

/-- What is read of a response with extension data. -/
theorem ManagesieveResponse.parse_extended {ext : ExtensionData} {response : ManagesieveResponse}
    {bytes : Bytes} (h : RendersExtended ext response bytes) (hmax : bytes.length ≤ usizeMax)
    (tail : Bytes) :
    ManagesieveResponse.parse (bytes ++ tail) =
      .ok (some (ext.misread response, bytes.length)) :=
  (h.readsLines hmax).parse tail

/-- **When a code is skipped as a whole**: its data holds no parenthesised list, or what stands
behind the first closing parenthesis of the data reads as the text of the line. -/
theorem ManagesieveResponse.parse_extended_iff {ext : ExtensionData}
    {response : ManagesieveResponse} {bytes : Bytes} (h : RendersExtended ext response bytes)
    (hmax : bytes.length ≤ usizeMax) (tail : Bytes) :
    ManagesieveResponse.parse (bytes ++ tail) = .ok (some (response, bytes.length)) ↔
      ∀ found ∈ ext.stray, found.map text = response.completion.text := by
  rw [ManagesieveResponse.parse_extended h hmax, ← ExtensionData.misread_eq_iff]
  simp

/-- The name of an extension that the crate does not model. -/
theorem unmodelled_foo : Unmodelled (asBytes "X-FOO") := by
  have hslash : splitName (asBytes "X-FOO") = (asBytes "X-FOO", none) := by decide +kernel
  have hkeyword : ∀ keyword ∈ codeNames,
      eqIgnoreAsciiCase (asBytes "X-FOO") (asBytes keyword) = false := by decide +kernel
  have hno : ∀ keyword ∈ codeNames, slash ∉ (asBytes keyword).map toAsciiLowercase := by
    decide +kernel
  intro keyword hk detail h
  obtain ⟨head, hsplit, hhead⟩ := splitName_refines h (hno keyword hk)
  rw [hslash] at hsplit
  cases hsplit
  rw [hkeyword keyword hk] at hhead
  cases hhead

/-- `NO (X-FOO 7 "a") "b"`: flat data is skipped as a whole. -/
theorem ManagesieveResponse.parse_extended_iff_flat :
    ManagesieveResponse.parse (asBytes "NO (X-FOO 7 \"a\") \"b\"\r\n") =
      .ok (some (⟨[], ⟨.no, some (.other "X-FOO"), some "b"⟩⟩, 22)) := by
  have hrenders : RendersExtended (.number 7 (.string (asBytes "a") .nil))
      ⟨[], ⟨.no, some (.other _), some (text (asBytes "b"))⟩⟩ _ :=
    .completion (by decide +kernel : eqIgnoreAsciiCase (asBytes "NO") _ = true) unmodelled_foo
      (.some _)
      (.atom (by decide +kernel) (by decide +kernel) (.blank (.open_ (.atom (by decide +kernel)
        (by decide +kernel) (.blank (.atom (by decide +kernel) (by decide +kernel) (.blank
          (.quoted (by decide +kernel) (.close (.blank (.quoted (by decide +kernel)
            (.eol .crlf))))))))))))
  have h := (ManagesieveResponse.parse_extended_iff hrenders (by decide +kernel) []).2
    (by simp [ExtensionData.stray])
  exact (congrArg ManagesieveResponse.parse (by decide +kernel)).trans (h.trans (by decide +kernel))

/-- `OK (X-FOO (1) "a") "b"`: an argument behind a nested list is read as the text. -/
theorem ManagesieveResponse.not_skips_extended :
    ¬ ∀ (ext : ExtensionData) (response : ManagesieveResponse) (bytes tail : Bytes),
      RendersExtended ext response bytes → bytes.length ≤ usizeMax →
        ManagesieveResponse.parse (bytes ++ tail) = .ok (some (response, bytes.length)) := by
  intro hall
  have hrenders : RendersExtended (.list (.number 1 .nil) (.string (asBytes "a") .nil))
      ⟨[], ⟨.ok, some (.other _), some (text (asBytes "b"))⟩⟩ _ :=
    .completion (by decide +kernel : eqIgnoreAsciiCase (asBytes "OK") _ = true) unmodelled_foo
      (.some _)
      (.atom (by decide +kernel) (by decide +kernel) (.blank (.open_ (.atom (by decide +kernel)
        (by decide +kernel) (.blank (.open_ (.atom (by decide +kernel) (by decide +kernel) (.close
          (.blank (.quoted (by decide +kernel) (.close (.blank (.quoted (by decide +kernel)
            (.eol .crlf))))))))))))))
  have hread := hall _ _ _ [] hrenders (by decide +kernel)
  revert hread
  decide +kernel

end ManageSieve
