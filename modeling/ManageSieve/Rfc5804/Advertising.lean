import ManageSieve.Foundations.Words
import ManageSieve.Rfc5804.Capability
import ManageSieve.Rfc5804.Decoding
import ManageSieve.Wire.Rendering

/-!
# What a server advertises

The accessors of `ManagesieveCapabilities`, and the advertisement that a server makes: the lines
that tell it may come in any order, twice, in any letter case and with lines in between that mean
something else (`Advertisement.ToldBy`). The accessors tell it back
(`Advertisement.ToldBy.advertisement`).
-/

namespace ManageSieve

open Spacing

/-! ## The accessors -/

/-- `char::is_whitespace`: the characters with the Unicode property `White_Space`. -/
def isWhitespace (c : Char) : Bool :=
  (9 ≤ c.toNat && c.toNat ≤ 13) || (0x2000 ≤ c.toNat && c.toNat ≤ 0x200a) ||
    [0x20, 0x85, 0xa0, 0x1680, 0x2028, 0x2029, 0x202f, 0x205f, 0x3000].contains c.toNat

/-- `str::split_whitespace`. -/
def splitWhitespace (s : String) : List String := (words isWhitespace s.toList).map String.ofList

/-- A number without its sign, which is no minus. -/
def dropSign : Bytes → Bytes
  | [] => []
  | b :: digits => if b = plus then digits else b :: digits

/-- `str::parse::<u32>`. -/
def u32FromStr (s : String) : Option UInt32 :=
  let digits := dropSign (asBytes s)
  if digits ≠ [] ∧ digits.all isAsciiDigit then (parseU32 digits).map UInt32.ofNat else none

namespace ManagesieveCapabilities

variable (self : ManagesieveCapabilities) (name : String)

/-- The value of `name`, compared case-insensitively. -/
def value : Option String :=
  (self.capabilities.find? fun capability => strEqIgnoreAsciiCase capability.name name).bind
    (·.value)

/-- The words in the value of `name`. -/
def list : List String := ((self.value name).map splitWhitespace).getD []

/-- The server name and version. -/
def implementation : Option String := self.value "IMPLEMENTATION"

/-- The protocol version. -/
def version : Option String := self.value "VERSION"

/-- The Sieve extensions that the interpreter accepts. -/
def sieve : List String := self.list "SIEVE"

/-- The authentication mechanisms that the server offers. -/
def sasl : List String := self.list "SASL"

/-- The URI schemes that a script can notify. -/
def notify : List String := self.list "NOTIFY"

/-- Whether the server can return to the non-authenticated state. -/
def unauthenticate : Bool := self.has "UNAUTHENTICATE"

/-- How many `redirect` actions one evaluation may perform. -/
def maxRedirects : Option UInt32 := (self.value "MAXREDIRECTS").bind u32FromStr

/-- The language of the human-readable texts. -/
def language : Option String := self.value "LANGUAGE"

/-- The canonical name of the authenticated user. -/
def owner : Option String := self.value "OWNER"

end ManagesieveCapabilities

/-! ## Advertisements -/

/-- What a server advertises. -/
@[ext]
structure Advertisement where
  implementation : Option String
  version : Option String
  sieve : List String
  sasl : List String
  notify : List String
  starttls : Bool
  unauthenticate : Bool
  maxRedirects : Option UInt32
  language : Option String
  owner : Option String

/-- What the accessors tell. -/
def ManagesieveCapabilities.advertisement (self : ManagesieveCapabilities) : Advertisement where
  implementation := self.implementation
  version := self.version
  sieve := self.sieve
  sasl := self.sasl
  notify := self.notify
  starttls := self.starttls
  unauthenticate := self.unauthenticate
  maxRedirects := self.maxRedirects
  language := self.language
  owner := self.owner

/-- What a line of an advertisement means. -/
inductive Meaning
  | text (value : String)
  | words (words : List String)
  | number (n : UInt32)
  | present

/-- How a line carries what it means. -/
inductive Meaning.CarriedBy : Meaning → Option String → Prop
  | text (value) : CarriedBy (.text value) (some value)
  | words {words value} : Spaced isWhitespace (words.map String.toList) value.toList →
      CarriedBy (.words words) (some value)
  | noWords : CarriedBy (.words []) none
  | number {n value} : asBytes value ≠ [] → (∀ b ∈ asBytes value, isAsciiDigit b = true) →
      decimalValue (asBytes value) = n.toNat → CarriedBy (.number n) (some value)
  | present (value) : CarriedBy .present value

/-- The capabilities that the accessors read. -/
inductive Keyword
  | implementation
  | version
  | sieve
  | sasl
  | notify
  | starttls
  | unauthenticate
  | maxRedirects
  | language
  | owner

/-- The name of a capability. -/
def Keyword.asStr : Keyword → String
  | implementation => "IMPLEMENTATION"
  | version => "VERSION"
  | sieve => "SIEVE"
  | sasl => "SASL"
  | notify => "NOTIFY"
  | starttls => "STARTTLS"
  | unauthenticate => "UNAUTHENTICATE"
  | maxRedirects => "MAXREDIRECTS"
  | language => "LANGUAGE"
  | owner => "OWNER"

/-- The line is about this capability. -/
def Keyword.names (keyword : Keyword) (line : ManagesieveCapability) : Bool :=
  strEqIgnoreAsciiCase line.name keyword.asStr

namespace Advertisement

/-- What a server that advertises `ad` means by a capability. -/
def meaning (ad : Advertisement) : Keyword → Option Meaning
  | .implementation => ad.implementation.map .text
  | .version => ad.version.map .text
  | .sieve => some (.words ad.sieve)
  | .sasl => some (.words ad.sasl)
  | .notify => some (.words ad.notify)
  | .starttls => if ad.starttls then some .present else none
  | .unauthenticate => if ad.unauthenticate then some .present else none
  | .maxRedirects => ad.maxRedirects.map .number
  | .language => ad.language.map .text
  | .owner => ad.owner.map .text

/-- The lines tell the advertisement: a capability is only told as it is meant, and what is meant is
told, but for a list of no words, which may be left out. -/
structure ToldBy (ad : Advertisement) (lines : List ManagesieveCapability) : Prop where
  sound : ∀ line ∈ lines, ∀ keyword : Keyword, keyword.names line = true →
    ∃ meaning, ad.meaning keyword = some meaning ∧ meaning.CarriedBy line.value
  complete : ∀ keyword meaning, ad.meaning keyword = some meaning → meaning = .words [] ∨
    ∃ line ∈ lines, keyword.names line = true

end Advertisement

/-! ## Telling it back -/

theorem splitWhitespace_of_spaced {ws : List String} {s : String}
    (h : Spaced isWhitespace (ws.map String.toList) s.toList) : splitWhitespace s = ws := by
  rw [splitWhitespace, h.words_eq, List.map_map]
  exact List.map_id'' (fun _ => String.ofList_toList) ws

theorem dropSign_of_digits {digits : Bytes} (h : ∀ b ∈ digits, isAsciiDigit b = true) :
    dropSign digits = digits := by
  cases digits with
  | nil => rfl
  | cons b digits =>
    refine if_neg ?_
    rintro rfl
    exact absurd (h plus List.mem_cons_self) (by decide)

theorem u32FromStr_of_digits {s : String} {n : UInt32} (hne : asBytes s ≠ [])
    (hdigits : ∀ b ∈ asBytes s, isAsciiDigit b = true) (hn : decimalValue (asBytes s) = n.toNat) :
    u32FromStr s = some n := by
  unfold u32FromStr
  rw [dropSign_of_digits hdigits]
  dsimp only
  rw [if_pos ⟨hne, List.all_eq_true.2 hdigits⟩, parseU32, hn, if_pos n.toNat_lt, Option.map_some,
    UInt32.ofNat_toNat]

theorem value_eq_find (lines : List ManagesieveCapability) (keyword : Keyword) :
    (⟨lines⟩ : ManagesieveCapabilities).value keyword.asStr =
      (lines.find? keyword.names).bind (·.value) :=
  rfl

theorem has_eq_any (lines : List ManagesieveCapability) (keyword : Keyword) :
    (⟨lines⟩ : ManagesieveCapabilities).has keyword.asStr = lines.any keyword.names :=
  rfl

namespace Advertisement.ToldBy

variable {ad : Advertisement} {lines : List ManagesieveCapability}

/-- The line that an accessor reads is one that carries what is meant. -/
theorem find (h : ad.ToldBy lines) (keyword : Keyword) :
    (∃ line meaning, lines.find? keyword.names = some line ∧
      ad.meaning keyword = some meaning ∧ meaning.CarriedBy line.value) ∨
    (lines.find? keyword.names = none ∧
      ∀ meaning, ad.meaning keyword = some meaning → meaning = .words []) := by
  rcases hfind : lines.find? keyword.names with _ | line
  · refine .inr ⟨rfl, fun meaning hmeaning => ?_⟩
    rcases h.complete keyword meaning hmeaning with hwords | ⟨line, hline, hname⟩
    · exact hwords
    · exact absurd hname (by simpa using List.find?_eq_none.1 hfind line hline)
  · obtain ⟨meaning, hmeaning, hcarried⟩ :=
      h.sound line (List.mem_of_find?_eq_some hfind) keyword
        (by simpa using List.find?_some hfind)
    exact .inl ⟨line, meaning, rfl, hmeaning, hcarried⟩

theorem value_of_text (h : ad.ToldBy lines) (keyword : Keyword) {told : Option String}
    (hmeaning : ad.meaning keyword = told.map .text) :
    (⟨lines⟩ : ManagesieveCapabilities).value keyword.asStr = told := by
  rw [value_eq_find]
  rcases h.find keyword with ⟨line, meaning, hfind, hm, hcarried⟩ | ⟨hfind, hm⟩ <;>
    rw [hfind] <;> rw [hmeaning] at hm
  · obtain ⟨value, rfl, rfl⟩ := Option.map_eq_some_iff.1 hm
    rw [Option.bind_some]
    generalize line.value = value at hcarried
    cases hcarried
    rfl
  · cases told with
    | none => rfl
    | some value => cases hm _ rfl

theorem list_of_words (h : ad.ToldBy lines) (keyword : Keyword) {told : List String}
    (hmeaning : ad.meaning keyword = some (.words told)) :
    (⟨lines⟩ : ManagesieveCapabilities).list keyword.asStr = told := by
  rw [ManagesieveCapabilities.list, value_eq_find]
  rcases h.find keyword with ⟨line, meaning, hfind, hm, hcarried⟩ | ⟨hfind, hm⟩ <;>
    rw [hfind]
  · cases hmeaning.symm.trans hm
    rw [Option.bind_some]
    generalize line.value = value at hcarried
    cases hcarried with
    | words hspaced => exact splitWhitespace_of_spaced hspaced
    | noWords => rfl
  · cases hm _ hmeaning
    rfl

theorem has_of_present (h : ad.ToldBy lines) (keyword : Keyword) {told : Bool}
    (hmeaning : ad.meaning keyword = if told then some .present else none) :
    (⟨lines⟩ : ManagesieveCapabilities).has keyword.asStr = told := by
  rw [has_eq_any]
  rcases h.find keyword with ⟨line, meaning, hfind, hm, hcarried⟩ | ⟨hfind, hm⟩ <;>
    rw [hmeaning] at hm <;> cases told
  · cases hm
  · have hname := List.find?_some hfind
    exact List.any_eq_true.2 ⟨line, List.mem_of_find?_eq_some hfind, hname⟩
  · exact List.any_eq_false.2 fun line hline => List.find?_eq_none.1 hfind line hline
  · cases hm _ rfl

theorem number_of_number (h : ad.ToldBy lines) (keyword : Keyword) {told : Option UInt32}
    (hmeaning : ad.meaning keyword = told.map .number) :
    ((⟨lines⟩ : ManagesieveCapabilities).value keyword.asStr).bind u32FromStr = told := by
  rw [value_eq_find]
  rcases h.find keyword with ⟨line, meaning, hfind, hm, hcarried⟩ | ⟨hfind, hm⟩ <;>
    rw [hfind] <;> rw [hmeaning] at hm
  · obtain ⟨n, rfl, rfl⟩ := Option.map_eq_some_iff.1 hm
    rw [Option.bind_some]
    generalize line.value = value at hcarried
    cases hcarried with
    | number hne hdigits hn => exact u32FromStr_of_digits hne hdigits hn
  · cases told with
    | none => rfl
    | some n => cases hm _ rfl

/-- **The accessors tell the advertisement back.** -/
theorem advertisement_eq (h : ad.ToldBy lines) :
    (⟨lines⟩ : ManagesieveCapabilities).advertisement = ad := by
  apply Advertisement.ext
  · exact h.value_of_text .implementation rfl
  · exact h.value_of_text .version rfl
  · exact h.list_of_words .sieve rfl
  · exact h.list_of_words .sasl rfl
  · exact h.list_of_words .notify rfl
  · exact h.has_of_present .starttls rfl
  · exact h.has_of_present .unauthenticate rfl
  · exact h.number_of_number .maxRedirects rfl
  · exact h.value_of_text .language rfl
  · exact h.value_of_text .owner rfl

end Advertisement.ToldBy

/-! ## Writing it down -/

namespace ManagesieveCapability

/-- The data line of a capability. -/
def line (self : ManagesieveCapability) : ManagesieveDataLine :=
  ⟨.string (asBytes self.name) :: (self.value.map (.string ∘ asBytes)).toList⟩

/-- The octets of a capability line. -/
def bytes (self : ManagesieveCapability) : Bytes :=
  string (asBytes self.name) ++
    ((self.value.map fun value => space :: string (asBytes value)).getD [] ++ crlf)

/-- The strings of the capability fit into literals. -/
def Fits (self : ManagesieveCapability) : Prop :=
  (asBytes self.name).length ≤ maxLiteral ∧
    ∀ value ∈ self.value, (asBytes value).length ≤ maxLiteral

instance (self : ManagesieveCapability) : Decidable self.Fits := inferInstanceAs (Decidable (_ ∧ _))

theorem renders_bytes {self : ManagesieveCapability} (h : self.Fits) :
    RendersData self.line self.bytes := by
  rcases self with ⟨name, _ | value⟩
  · exact .line .nil (spellsToken_string h.1 _ _ rfl (.eol .crlf))
  · have hspells := spellsToken_string (h.2 value rfl) _ _ rfl (.eol .crlf)
    exact .line (.cons (.string _) .nil) (spellsToken_string h.1 _ _ rfl (.blank hspells))

/-- A capability is read back from its line. -/
theorem parseLine_line (self : ManagesieveCapability) :
    ManagesieveCapabilities.parseLine self.line = some self := by
  rcases self with ⟨name, _ | value⟩
  · simp [ManagesieveCapabilities.parseLine, line, ManagesieveDataLine.string, text_asBytes]
  · simp [ManagesieveCapabilities.parseLine, line, ManagesieveDataLine.string, text_asBytes]

end ManagesieveCapability

theorem ManagesieveCapabilities.parse_lines (lines : List ManagesieveCapability) :
    parse (lines.map ManagesieveCapability.line) = ⟨lines⟩ := by
  have hline : parseLine ∘ ManagesieveCapability.line = some :=
    funext ManagesieveCapability.parseLine_line
  rw [parse, List.filterMap_map, hline, List.filterMap_some]

end ManageSieve
