import ManageSieve.Wire.Spelling

/-!
# Renderings of a response

The response format as a relation between responses and octets. A response is rendered line by line:
its data lines, each opening on a string, then its completion, with a status word, at most one
response code and at most one text. The words are in any letter case, a code may be refined by a
detail after a slash, and each line is spelled in any of the ways of `Spells`. The main result is
`ManagesieveResponse.parse_renders`: every rendering is read back, whatever follows it.
-/

namespace ManageSieve

/-- The status word as it travels on the wire. -/
def ManagesieveStatus.asStr : ManagesieveStatus → String
  | .ok => "OK"
  | .no => "NO"
  | .bye => "BYE"

/-! ## The format -/

/-- The public shape of a written token. -/
inductive RendersToken : ManagesieveToken → Token → Prop
  | string (value : Bytes) : RendersToken (.string value) (.string value)
  | atom (value : Bytes) : RendersToken (.atom (text value)) (.atom value)

/-- A data line opens on a string and goes on with strings and atoms. -/
inductive RendersData : ManagesieveDataLine → Bytes → Prop
  | line {value tokens written bytes} : List.Forall₂ RendersToken tokens written →
      Spells (.string value :: written) bytes → RendersData ⟨.string value :: tokens⟩ bytes

/-- `name` is `keyword` in some letter case, possibly refined by a detail after a slash. -/
inductive Refines (keyword : String) : Bytes → Option Bytes → Prop
  | plain {head} : eqIgnoreAsciiCase head (asBytes keyword) = true → Refines keyword head none
  | detail {head} (detail : Bytes) : eqIgnoreAsciiCase head (asBytes keyword) = true →
      Refines keyword (head ++ slash :: detail) (some detail)

/-- The codes that are known by their name alone. -/
def plainCodes : List (String × ManagesieveResponseCode) :=
  [("AUTH-TOO-WEAK", .authTooWeak), ("ENCRYPT-NEEDED", .encryptNeeded),
    ("TRANSITION-NEEDED", .transitionNeeded), ("TRYLATER", .tryLater), ("ACTIVE", .active),
    ("NONEXISTENT", .nonexistent), ("ALREADYEXISTS", .alreadyExists), ("WARNINGS", .warnings)]

/-- The names of all codes that are told apart. -/
def codeNames : List String :=
  plainCodes.map Prod.fst ++ ["QUOTA", "REFERRAL", "SASL", "TAG"]

/-- The quotas and their names. -/
def quotaNames : List (String × ManagesieveQuota) :=
  [("MAXSCRIPTS", .maxScripts), ("MAXSIZE", .maxSize)]

/-- The string that opens the arguments of a code, empty when there is none. -/
def firstString : List Token → Bytes
  | .string value :: _ => value
  | _ => []

/-- `RendersCode code name arguments`: a code named `name` with these arguments is `code`. -/
inductive RendersCode : ManagesieveResponseCode → Bytes → List Token → Prop
  | plain {keyword code name detail arguments} : (keyword, code) ∈ plainCodes →
      Refines keyword name detail → RendersCode code name arguments
  | quota {keyword limit name detail arguments} : (keyword, limit) ∈ quotaNames →
      Refines "QUOTA" name (some detail) → eqIgnoreAsciiCase detail (asBytes keyword) = true →
      RendersCode (.quota (some limit)) name arguments
  | quotas {name detail arguments} : Refines "QUOTA" name detail →
      (∀ quota ∈ quotaNames, ∀ found ∈ detail,
        eqIgnoreAsciiCase found (asBytes quota.1) = false) →
      RendersCode (.quota none) name arguments
  | referral {name detail arguments} : Refines "REFERRAL" name detail →
      RendersCode (.referral (text (firstString arguments))) name arguments
  | sasl {name detail arguments} : Refines "SASL" name detail →
      RendersCode (.sasl (firstString arguments)) name arguments
  | tag {name detail arguments} : Refines "TAG" name detail →
      RendersCode (.tag (text (firstString arguments))) name arguments
  | other {name arguments} : (∀ keyword ∈ codeNames, ∀ detail, ¬ Refines keyword name detail) →
      RendersCode (.other (text name)) name arguments

/-- The tokens of a response code: none, or a name and arguments between parentheses. -/
inductive RendersCodeTokens : Option ManagesieveResponseCode → List Token → Prop
  | none : RendersCodeTokens none []
  | some {code name arguments} : RendersCode code name arguments →
      (∀ token ∈ arguments, token ≠ .open_ ∧ token ≠ .close) →
      RendersCodeTokens (some code) (.open_ :: .atom name :: arguments ++ [.close])

/-- The tokens of a human-readable text: none, or a string. -/
inductive RendersText : Option String → List Token → Prop
  | none : RendersText none []
  | some (value : Bytes) : RendersText (some (text value)) [.string value]

/-- A completion line: a status word, an optional code and an optional text. -/
inductive RendersCompletion : ManagesieveCompletion → Bytes → Prop
  | line {status code txt word codeTokens textTokens bytes} :
      eqIgnoreAsciiCase word (asBytes status.asStr) = true → RendersCodeTokens code codeTokens →
      RendersText txt textTokens → Spells (.atom word :: codeTokens ++ textTokens) bytes →
      RendersCompletion ⟨status, code, txt⟩ bytes

/-- A response: its data lines, then its completion. -/
inductive Renders : ManagesieveResponse → Bytes → Prop
  | completion {completion bytes} : RendersCompletion completion bytes →
      Renders ⟨[], completion⟩ bytes
  | data {line data completion bytes rest} : RendersData line bytes →
      Renders ⟨data, completion⟩ rest → Renders ⟨line :: data, completion⟩ (bytes ++ rest)

/-! ## Reading the tokens back -/

theorem dataTokens_of_renders {tokens : List ManagesieveToken} {written : List Token}
    (h : List.Forall₂ RendersToken tokens written) : dataTokens written = .ok tokens := by
  induction h with
  | nil => rfl
  | cons ht _ ih => cases ht <;> simp only [dataTokens, dataToken, ih]

theorem eqIgnoreAsciiCase_congr {a b : Bytes} (h : eqIgnoreAsciiCase a b = true) (c : Bytes) :
    eqIgnoreAsciiCase a c = eqIgnoreAsciiCase b c := by
  rw [eqIgnoreAsciiCase_iff] at h
  rw [eqIgnoreAsciiCase, eqIgnoreAsciiCase, h]

theorem parseStatus_word {status : ManagesieveStatus} {word : Bytes}
    (h : eqIgnoreAsciiCase word (asBytes status.asStr) = true) : parseStatus word = .ok status := by
  unfold parseStatus
  simp only [eqIgnoreAsciiCase_congr h]
  cases status <;> rfl

/-- A head that reads as a word without a slash has none. -/
theorem slash_not_mem_head {head word : Bytes} (h : eqIgnoreAsciiCase head word = true)
    (hw : slash ∉ word.map toAsciiLowercase) : slash ∉ head := by
  rw [eqIgnoreAsciiCase_iff] at h
  intro hs
  rw [← h] at hw
  exact hw (List.mem_map.2 ⟨slash, hs, by decide⟩)

theorem splitName_refines {keyword : String} {name : Bytes} {detail : Option Bytes}
    (h : Refines keyword name detail)
    (hk : slash ∉ (asBytes keyword).map toAsciiLowercase) :
    ∃ head, splitName name = (head, detail) ∧ eqIgnoreAsciiCase head (asBytes keyword) = true := by
  cases h with
  | plain hh =>
    refine ⟨name, ?_, hh⟩
    rw [splitName, findIdx?_beq_eq_none (slash_not_mem_head hh hk)]
  | @detail head detail hh =>
    refine ⟨head, ?_, hh⟩
    rw [splitName, findIdx?_beq_append (slash_not_mem_head hh hk)]
    simp

/-- A name is read as the level above the details that its head does not have. -/
theorem refines_splitName {keyword : String} {name : Bytes}
    (h : eqIgnoreAsciiCase (splitName name).1 (asBytes keyword) = true) :
    Refines keyword name (splitName name).2 := by
  unfold splitName at h ⊢
  split at h
  · rename_i index hi
    obtain ⟨hlt, hget, -⟩ := List.findIdx?_eq_some_iff_getElem.1 hi
    have hname : name = name.take index ++ slash :: name.drop (index + 1) := by
      have : name[index] = slash := by simpa using hget
      rw [← this, List.cons_getElem_drop_succ, List.take_append_drop]
    dsimp only
    have := Refines.detail (name.drop (index + 1)) h
    rwa [← hname] at this
  · rename_i hi
    exact .plain h

/-! ## Reading the code back -/

theorem codeArgument_cons (name : Bytes) (arguments : List Token) :
    codeArgument (.atom name :: arguments) = firstString arguments := by
  rcases arguments with _ | ⟨_ | _ | _ | _, arguments⟩ <;> rfl

theorem quotaDetail_of_mem {keyword : String} {limit : ManagesieveQuota} {detail : Bytes}
    (h : (keyword, limit) ∈ quotaNames)
    (hd : eqIgnoreAsciiCase detail (asBytes keyword) = true) :
    quotaDetail (some detail) = some limit := by
  simp only [quotaDetail, eqIgnoreAsciiCase_congr hd]
  simp only [quotaNames, List.mem_cons, Prod.mk.injEq, List.not_mem_nil, or_false] at h
  rcases h with ⟨rfl, rfl⟩ | ⟨rfl, rfl⟩ <;> rfl

theorem quotaDetail_of_forall {detail : Option Bytes}
    (h : ∀ quota ∈ quotaNames, ∀ found ∈ detail,
      eqIgnoreAsciiCase found (asBytes quota.1) = false) : quotaDetail detail = none := by
  cases detail with
  | none => rfl
  | some detail =>
    have h₁ := h ("MAXSCRIPTS", .maxScripts) (by simp [quotaNames]) detail rfl
    have h₂ := h ("MAXSIZE", .maxSize) (by simp [quotaNames]) detail rfl
    simp [quotaDetail, h₁, h₂]

theorem namedCode_of_renders {code : ManagesieveResponseCode} {name : Bytes}
    {arguments : List Token} (h : RendersCode code name arguments) :
    namedCode name (firstString arguments) = code := by
  cases h with
  | plain hmem hr =>
    simp only [plainCodes, List.mem_cons, Prod.mk.injEq, List.not_mem_nil, or_false] at hmem
    rcases hmem with ⟨rfl, rfl⟩ | ⟨rfl, rfl⟩ | ⟨rfl, rfl⟩ | ⟨rfl, rfl⟩ | ⟨rfl, rfl⟩ | ⟨rfl, rfl⟩ |
      ⟨rfl, rfl⟩ | ⟨rfl, rfl⟩
    all_goals
      obtain ⟨head, hsplit, hhead⟩ := splitName_refines hr (by decide +kernel)
      simp only [namedCode, hsplit, eqIgnoreAsciiCase_congr hhead]
      rfl
  | quota hmem hr hd =>
    obtain ⟨head, hsplit, hhead⟩ := splitName_refines hr (by decide +kernel)
    simp only [namedCode, hsplit, eqIgnoreAsciiCase_congr hhead, quotaDetail_of_mem hmem hd]
    rfl
  | quotas hr hd =>
    obtain ⟨head, hsplit, hhead⟩ := splitName_refines hr (by decide +kernel)
    simp only [namedCode, hsplit, eqIgnoreAsciiCase_congr hhead, quotaDetail_of_forall hd]
    rfl
  | referral hr =>
    obtain ⟨head, hsplit, hhead⟩ := splitName_refines hr (by decide +kernel)
    simp only [namedCode, hsplit, eqIgnoreAsciiCase_congr hhead]
    rfl
  | sasl hr =>
    obtain ⟨head, hsplit, hhead⟩ := splitName_refines hr (by decide +kernel)
    simp only [namedCode, hsplit, eqIgnoreAsciiCase_congr hhead]
    rfl
  | tag hr =>
    obtain ⟨head, hsplit, hhead⟩ := splitName_refines hr (by decide +kernel)
    simp only [namedCode, hsplit, eqIgnoreAsciiCase_congr hhead]
    rfl
  | other hno =>
    have hhead : ∀ keyword ∈ codeNames,
        eqIgnoreAsciiCase (splitName name).1 (asBytes keyword) = false := by
      intro keyword hk
      rw [← Bool.not_eq_true]
      exact fun h => hno keyword hk _ (refines_splitName h)
    simp only [codeNames, plainCodes, List.map_cons, List.map_nil, List.cons_append,
      List.nil_append, List.forall_mem_cons, List.not_mem_nil, false_implies, implies_true,
      and_true] at hhead
    simp only [namedCode, hhead, Bool.false_eq_true, if_false]

theorem splitCode_of_renders {code : Option ManagesieveResponseCode} {txt : Option String}
    {codeTokens textTokens : List Token} (hc : RendersCodeTokens code codeTokens)
    (ht : RendersText txt textTokens) :
    splitCode (codeTokens ++ textTokens) = .ok (code, textTokens) := by
  cases hc with
  | none => cases ht <;> rfl
  | @some code name arguments hcode hargs =>
    have hclose : Token.close ∉ Token.atom name :: arguments := by
      rw [List.mem_cons, not_or]
      exact ⟨by simp, fun hmem => (hargs _ hmem).2 rfl⟩
    have hsome : (Token.atom name :: arguments ++ [Token.close] ++ textTokens).findIdx?
        (· == .close) = some (Token.atom name :: arguments).length := by
      rw [List.append_assoc]
      exact findIdx?_beq_append hclose textTokens
    have htake : (Token.atom name :: arguments ++ [Token.close] ++ textTokens).take
        (Token.atom name :: arguments).length = Token.atom name :: arguments := by
      rw [List.append_assoc, List.take_left]
    have hdrop : (Token.atom name :: arguments ++ [Token.close] ++ textTokens).drop
        ((Token.atom name :: arguments).length + 1) = textTokens := by
      rw [List.append_assoc, List.drop_length_add_append]
      rfl
    have hparse : parseCode (Token.atom name :: arguments) = .ok code := by
      rw [parseCode, codeArgument_cons, namedCode_of_renders hcode]
    change splitCode
      (Token.open_ :: (Token.atom name :: arguments ++ [Token.close] ++ textTokens)) = _
    simp only [splitCode, hsome, htake, hdrop, hparse]

theorem completionText_of_renders {txt : Option String} {textTokens : List Token}
    (h : RendersText txt textTokens) : completionText textTokens = txt := by
  cases h <;> rfl

/-! ## Reading lines and responses back -/

/-- A line is what its tokens say. -/
theorem lineParser_reads {tokens : List Token} {bytes : Bytes} {line : ManagesieveLine}
    (h : Spells tokens bytes) (hmax : bytes.length ≤ usizeMax)
    (hline : parseLine tokens = .ok line) : lineParser.Reads bytes line := by
  intro tail
  rw [lineParser_parse, ManagesieveLine.parse, scanLine_spells h hmax tail]
  simp only [hline]

theorem lineSumParser_reads {bytes : Bytes} {line : ManagesieveLine}
    (h : lineParser.Reads bytes line) : lineSumParser.Reads bytes line.toSum :=
  h.mapM rfl

theorem RendersData.reads {line : ManagesieveDataLine} {bytes : Bytes} (h : RendersData line bytes)
    (hmax : bytes.length ≤ usizeMax) : lineParser.Reads bytes (.data line) := by
  obtain @⟨value, tokens, written, _, htokens, hspells⟩ := h
  apply lineParser_reads hspells hmax
  have := dataTokens_of_renders (List.Forall₂.cons (RendersToken.string value) htokens)
  simp only [parseLine, parseData, this]

theorem RendersCompletion.reads {completion : ManagesieveCompletion} {bytes : Bytes}
    (h : RendersCompletion completion bytes) (hmax : bytes.length ≤ usizeMax) :
    lineParser.Reads bytes (.completion completion) := by
  obtain ⟨hword, hcode, htext, hspells⟩ := h
  apply lineParser_reads hspells hmax
  simp only [List.cons_append, parseLine, parseCompletion, parseStatus_word hword,
    splitCode_of_renders hcode htext, completionText_of_renders htext]

/-- `bytes` are data lines and then a completion, each of them read on its own. -/
def ReadsLines (data : List ManagesieveDataLine) (completion : ManagesieveCompletion)
    (bytes : Bytes) : Prop :=
  ∃ (encs : List (Bytes × ManagesieveDataLine)) (enc : Bytes),
    bytes = (encs.map Prod.fst).flatten ++ enc ∧ data = encs.map Prod.snd ∧
      (∀ x ∈ encs, lineSumParser.Reads x.1 (.inl x.2)) ∧
      lineSumParser.Reads enc (.inr completion)

theorem ReadsLines.completion {completion : ManagesieveCompletion} {bytes : Bytes}
    (h : lineParser.Reads bytes (.completion completion)) : ReadsLines [] completion bytes :=
  ⟨[], bytes, by simp, rfl, by simp, lineSumParser_reads h⟩

theorem ReadsLines.data {line : ManagesieveDataLine} {data : List ManagesieveDataLine}
    {completion : ManagesieveCompletion} {bytes rest : Bytes}
    (h : lineParser.Reads bytes (.data line)) (hrest : ReadsLines data completion rest) :
    ReadsLines (line :: data) completion (bytes ++ rest) := by
  obtain ⟨encs, enc, rfl, rfl, hencs, henc⟩ := hrest
  refine ⟨(bytes, line) :: encs, enc, by simp, by simp, ?_, henc⟩
  rw [List.forall_mem_cons]
  exact ⟨lineSumParser_reads h, hencs⟩

/-- Lines that are each read on their own are read as a response, whatever follows. -/
theorem ReadsLines.parse {response : ManagesieveResponse} {bytes : Bytes}
    (h : ReadsLines response.data response.completion bytes) (tail : Bytes) :
    ManagesieveResponse.parse (bytes ++ tail) = .ok (some (response, bytes.length)) := by
  obtain ⟨encs, enc, rfl, hdata, hencs, henc⟩ := h
  have hreads : linesParser.Reads _ response :=
    (Incremental.untilLast_reads hencs henc).mapM (by rw [← hdata])
  rw [ManagesieveResponse.parse_eq]
  exact hreads tail

theorem Renders.readsLines {response : ManagesieveResponse} {bytes : Bytes}
    (h : Renders response bytes) (hmax : bytes.length ≤ usizeMax) :
    ReadsLines response.data response.completion bytes := by
  induction h with
  | completion h => exact .completion (h.reads hmax)
  | data hline _ ih =>
    rw [List.length_append] at hmax
    exact .data (hline.reads (by omega)) (ih (by omega))

/-- **Decoding undoes encoding**: a rendered response is read back, and ends where its rendering
does, whatever bytes follow in the buffer. -/
theorem ManagesieveResponse.parse_renders {response : ManagesieveResponse} {bytes : Bytes}
    (h : Renders response bytes) (hmax : bytes.length ≤ usizeMax) (tail : Bytes) :
    ManagesieveResponse.parse (bytes ++ tail) = .ok (some (response, bytes.length)) :=
  (h.readsLines hmax).parse tail

/-- A literal that holds a completion, quotes and braces stays a string, and a bare line feed ends
the line before it. -/
theorem ManagesieveResponse.parse_renders_literal :
    ManagesieveResponse.parse (asBytes
        "\"a\\\"b\" {9+}\nOK\r\n\"\x7b9\x7d\r  ACTIVE\nok (tag/x {1}\r\n)) \"é\"\r\nNO\r\n") =
      .ok (some (⟨[⟨[.string (asBytes "a\"b"), .string (asBytes "OK\r\n\"\x7b9\x7d\r"),
        .atom "ACTIVE"]⟩], ⟨.ok, some (.tag ")"), some "é"⟩⟩, 54)) := by
  have hline : RendersData ⟨[.string (asBytes "a\"b"), .string (asBytes "OK\r\n\"\x7b9\x7d\r"),
      .atom (text (asBytes "ACTIVE"))]⟩ _ :=
    .line (.cons (.string _) (.cons (.atom _) .nil))
      (.quoted (by decide +kernel) (.blank (.literal false .bare (by decide +kernel)
        (.blank (.blank (.atom (by decide +kernel) (by decide +kernel) (.eol .bare)))))))
  have hname : Refines "TAG" (asBytes "tag" ++ slash :: asBytes "x") (some (asBytes "x")) :=
    .detail _ (by decide +kernel)
  have hcode : RendersCode _ _ [.string (asBytes ")")] := .tag hname
  have hdone : RendersCompletion ⟨.ok, some (.tag _), some (text (asBytes "é"))⟩ _ :=
    .line (by decide +kernel : eqIgnoreAsciiCase (asBytes "ok") _ = true)
      (.some hcode (by decide)) (.some _)
      (.atom (by decide +kernel) (by decide +kernel) (.blank (.open_ (.atom (by decide +kernel)
        (by decide +kernel) (.blank (.literal true .crlf (by decide +kernel) (.close (.blank
          (.quoted (by decide +kernel) (.eol .crlf))))))))))
  have h := ManagesieveResponse.parse_renders (.data hline (.completion hdone))
    (by decide +kernel) (asBytes "NO\r\n")
  exact (congrArg ManagesieveResponse.parse (by decide +kernel)).trans (h.trans (by decide +kernel))

end ManageSieve
