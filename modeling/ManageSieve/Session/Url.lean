import ManageSieve.Foundations.Percent
import ManageSieve.Session.Open

/-!
# Transports and their URLs

`ManagesieveSessionTransport::from_url` reads a transport out of a URL. The URL itself is parsed by
a library, of which `Url` keeps the accessors that are asked; `StandardUrl` is the way to write a
transport as a URL, and `ReadsUrl` what the library is documented to do with it: an IPv6 address
stays in its brackets and the path percent-encoded, but dot segments are resolved, a host that is
not ASCII is percent-encoded and an empty one is none. A transport survives the trip exactly when
its URL writes it as it is and the library leaves it alone (`fromUrl_eq_iff`).
-/

namespace ManageSieve

variable {ε : Type*}

/-- A URL, by the accessors that are asked. -/
structure Url where
  scheme : String
  path : String
  hostStr : Option String
  port : Option UInt16
  asStr : String
  deriving DecidableEq

/-- `DEFAULT_PORT`. -/
def defaultPort : UInt16 := 4190

/-- Read the transport out of a URL. -/
def ManagesieveSessionTransport.fromUrl (url : Url) :
    Except (ManagesieveSessionOpenError ε) ManagesieveSessionTransport :=
  if strEqIgnoreAsciiCase url.scheme "unix" then .ok (.unix url.path)
  else
    match url.hostStr with
    | none => .error (.urlMissingHost url.asStr)
    | some host =>
      let port := url.port.getD defaultPort
      if strEqIgnoreAsciiCase url.scheme "sieve" then .ok (.tcp host port)
      else if strEqIgnoreAsciiCase url.scheme "sieves" then .ok (.tls host port)
      else .error (.urlUnsupportedScheme url.asStr url.scheme)

/-! ## Writing a transport as a URL -/

/-- The parts of a URL, as they are written. -/
structure UrlText where
  scheme : String
  host : Option String
  port : Option UInt16
  path : String
  deriving DecidableEq

/-- The URL. -/
def UrlText.text (u : UrlText) : String :=
  u.scheme ++ "://" ++ u.host.getD "" ++ (u.port.elim "" fun port => ":" ++ toString port) ++ u.path

/-- Whether a host is an IPv6 address: no other host has a colon. -/
def isIpv6 (host : String) : Bool := host.toList.contains ':'

/-- Whether a character can stand in a host name: those of a registered name, and those of names
that are not ASCII. -/
def isNameChar (c : Char) : Bool :=
  c.isAlphanum || "-._~!$&\x27()*+,;=".toList.contains c || 0x80 ≤ c.toNat

/-- Whether a character can stand in an IPv6 address. -/
def isIpv6Char (c : Char) : Bool :=
  c.isDigit || "abcdefABCDEF:.".toList.contains c

/-- A host: a name, an IPv4 or an IPv6 address. -/
def IsHost (host : String) : Prop :=
  ∀ c ∈ host.toList, if isIpv6 host then isIpv6Char c = true else isNameChar c = true

instance (host : String) : Decidable (IsHost host) :=
  List.decidableBAll (fun c => if isIpv6 host then isIpv6Char c = true else isNameChar c = true)
    host.toList

/-- A host as a URL writes it, an IPv6 address in brackets. -/
def hostText (host : String) : String := if isIpv6 host then "[" ++ host ++ "]" else host

/-- Whether a character of a path is written as it is: the `pchar` of the URL syntax and the
slash. -/
def isPathChar (c : Char) : Bool := c.isAlphanum || "-._~!$&\x27()*+,;=:@/".toList.contains c

/-- A path as a URL writes it, percent-encoded. -/
def pathText (path : String) : String := String.ofList (Percent.encode isPathChar path.toList)

/-- The ways to write a port: the default one may be left out. -/
inductive PortText : UInt16 → Option UInt16 → Prop
  | explicit (port) : PortText port (some port)
  | default : PortText defaultPort none

/-- `StandardUrl transport u`: `u` is the URL of `transport`. -/
inductive StandardUrl : ManagesieveSessionTransport → UrlText → Prop
  | tcp {host port portText} : IsHost host → PortText port portText →
      StandardUrl (.tcp host port) ⟨"sieve", hostText host, portText, ""⟩
  | tls {host port portText} : IsHost host → PortText port portText →
      StandardUrl (.tls host port) ⟨"sieves", hostText host, portText, ""⟩
  | unix {path} : path.toList.head? = some '/' →
      StandardUrl (.unix path) ⟨"unix", none, none, pathText path⟩

/-! ## What the library makes of it -/

/-- Whether a character is ASCII. -/
def isAscii (c : Char) : Bool := c.toNat < 0x80

/-- A host name as the library gives it: what is not ASCII is percent-encoded. -/
def nameText (name : String) : String := String.ofList (Percent.encode isAscii name.toList)

/-- `HostStr written host`: what `host_str()` can give of a URL whose host is written `written`. An
address in brackets is given in brackets, in the spelling of the library. -/
def HostStr (written : String) (host : Option String) : Prop :=
  if written = "" then host = none
  else if written.toList.head? = some '[' then ∃ address, host = some ("[" ++ address ++ "]")
  else host = some (nameText written)

/-- Whether a segment of a path stands for a directory relative to the segment before it. -/
def isDotSegment (segment : List Char) : Bool := segment == ['.'] || segment == ['.', '.']

/-- Whether a path has such a segment. -/
def hasDotSegment : List Char → Bool
  | [] => false
  | c :: rest => (c == '/' && isDotSegment (rest.takeWhile (· != '/'))) || hasDotSegment rest

/-- `PathStr written path`: what `path()` can give of a URL whose path is written `written`. Dot
segments are resolved; a path without them is given as it is written. -/
def PathStr (written path : String) : Prop :=
  hasDotSegment path.toList = false ∧ (hasDotSegment written.toList = false → path = written)

/-- What is relied on of the library: it accepts the URL, save one without a host, and its accessors
give the parts of the URL. -/
def ReadsUrl (parse : String → Option Url) (u : UrlText) : Prop :=
  (parse u.text = none → u.host = some "") ∧ ∀ url, parse u.text = some url →
    url.scheme = u.scheme ∧ url.port = u.port ∧ PathStr u.path url.path ∧
      ∀ written, u.host = some written → HostStr written url.hostStr

namespace ManagesieveSessionTransport

/-- The transport comes out of its URL as it went in: its host is a name or an IPv4 address in
ASCII, no character of its path is percent-encoded, and no segment of it is a dot segment. -/
def WrittenAsIs : ManagesieveSessionTransport → Prop
  | .tcp host _ => host ≠ "" ∧ isIpv6 host = false ∧ ∀ c ∈ host.toList, isAscii c = true
  | .tls host _ => host ≠ "" ∧ isIpv6 host = false ∧ ∀ c ∈ host.toList, isAscii c = true
  | .unix path =>
    (∀ c ∈ path.toList, isPathChar c = true) ∧ hasDotSegment path.toList = false

instance : (transport : ManagesieveSessionTransport) → Decidable transport.WrittenAsIs
  | .tcp host _ => @instDecidableAnd _ _ inferInstance (@instDecidableAnd _ _ inferInstance
      (List.decidableBAll (fun c => isAscii c = true) host.toList))
  | .tls host _ => @instDecidableAnd _ _ inferInstance (@instDecidableAnd _ _ inferInstance
      (List.decidableBAll (fun c => isAscii c = true) host.toList))
  | .unix path => @instDecidableAnd _ _
      (List.decidableBAll (fun c => isPathChar c = true) path.toList) inferInstance

end ManagesieveSessionTransport

/-! ## Reading it back -/

theorem PortText.getD_eq {port : UInt16} {portText : Option UInt16} (h : PortText port portText) :
    portText.getD defaultPort = port := by
  cases h <;> rfl

theorem ofList_encode_eq_self_iff {keep : Char → Bool} {s : String} :
    String.ofList (Percent.encode keep s.toList) = s ↔ ∀ c ∈ s.toList, keep c = true := by
  rw [← Percent.encode_eq_self_iff]
  constructor
  · intro h
    rw [← String.toList_ofList (l := Percent.encode keep s.toList), h]
  · intro h
    rw [h, String.ofList_toList]

/-- The octets that an encoded path stands for are those of the path. -/
theorem decode_pathText (path : String) :
    Percent.decode (pathText path).toList = asBytes path := by
  have h : asBytes (String.ofList path.toList) = path.toList.flatMap String.utf8EncodeChar := by
    rw [asBytes, String.toByteArray_ofList, List.utf8Encode, List.toList_data_toByteArray]
  rw [String.ofList_toList] at h
  rw [pathText, String.toList_ofList, Percent.decode_encode (by decide +kernel), h]

/-- Encoding makes no dot segment, and takes none away. -/
theorem isDotSegment_encode (segment : List Char) :
    isDotSegment (Percent.encode isPathChar segment) = isDotSegment segment := by
  have hof : ∀ written : List Char, '%' ∉ written → (∀ c ∈ written, isPathChar c = true) →
      (Percent.encode isPathChar segment = written ↔ segment = written) := by
    intro written hpercent hkept
    refine ⟨fun h => Percent.eq_of_encode_eq h hpercent, ?_⟩
    rintro rfl
    exact Percent.encode_eq_self_iff.2 hkept
  have hdot : isPathChar '.' = true := by decide +kernel
  have hone := hof ['.'] (by decide) (by simp [hdot])
  have htwo := hof ['.', '.'] (by decide) (by simp [hdot])
  rw [Bool.eq_iff_iff]
  simp only [isDotSegment, Bool.or_eq_true, beq_iff_eq, hone, htwo]

theorem hasDotSegment_append {front : List Char} (h : '/' ∉ front) (back : List Char) :
    hasDotSegment (front ++ back) = hasDotSegment back := by
  induction front with
  | nil => rfl
  | cons c front ih =>
    rw [List.mem_cons, not_or] at h
    have hc : (c == '/') = false := by simpa using Ne.symm h.1
    rw [List.cons_append, hasDotSegment, hc, Bool.false_and, Bool.false_or, ih h.2]

theorem hasDotSegment_encode (path : List Char) :
    hasDotSegment (Percent.encode isPathChar path) = hasDotSegment path := by
  have hseparates : Percent.Separates '/' := by decide
  induction path with
  | nil => rfl
  | cons c path ih =>
    rw [Percent.encode_cons]
    cases hc : isPathChar c with
    | true =>
      rw [Percent.encodeChar_of_keep hc, List.singleton_append, hasDotSegment, hasDotSegment,
        Percent.takeWhile_encode hseparates (by decide +kernel), isDotSegment_encode, ih]
    | false =>
      have hne : (c == '/') = false := by
        rw [beq_eq_false_iff_ne]
        rintro rfl
        exact absurd hc (by decide +kernel)
      rw [hasDotSegment_append (Percent.not_mem_encodeChar hseparates hc), ih, hasDotSegment, hne,
        Bool.false_and, Bool.false_or]

/-- **A path comes back** exactly when its URL writes it as it is and has nothing to resolve. -/
theorem PathStr.eq_iff {path read : String} (h : PathStr (pathText path) read) :
    read = path ↔ (∀ c ∈ path.toList, isPathChar c = true) ∧ hasDotSegment path.toList = false := by
  obtain ⟨hresolved, hsame⟩ := h
  have hdots : hasDotSegment (pathText path).toList = hasDotSegment path.toList := by
    rw [pathText, String.toList_ofList, hasDotSegment_encode]
  constructor
  · rintro rfl
    exact ⟨ofList_encode_eq_self_iff.1 (hsame (hdots.trans hresolved)).symm, hresolved⟩
  · rintro ⟨hkept, hnone⟩
    rw [hsame (hdots.trans hnone)]
    exact ofList_encode_eq_self_iff.2 hkept

/-- **A host comes back** exactly when it is neither empty nor an IPv6 address, and ASCII. -/
theorem HostStr.eq_iff {host : String} {read : Option String} (hhost : IsHost host)
    (h : HostStr (hostText host) read) :
    read = some host ↔
      host ≠ "" ∧ isIpv6 host = false ∧ ∀ c ∈ host.toList, isAscii c = true := by
  have hbracket : ¬ host.toList.head? = some '[' := by
    intro hhead
    have hmem := hhost '[' (List.mem_of_head? hhead)
    split_ifs at hmem <;> exact absurd hmem (by decide +kernel)
  unfold HostStr hostText at h
  cases hv : isIpv6 host with
  | true =>
    rw [hv, if_pos rfl, if_neg (by simp [String.ext_iff]), if_pos (by simp)] at h
    obtain ⟨address, rfl⟩ := h
    refine iff_of_false (fun h => hbracket ?_) (by simp)
    rw [← Option.some.inj h]
    simp
  | false =>
    rw [hv, if_neg Bool.false_ne_true] at h
    by_cases hempty : host = ""
    · rw [if_pos hempty] at h
      simp [h, hempty]
    · rw [if_neg hempty, if_neg hbracket] at h
      rw [h, Option.some.injEq, nameText, ofList_encode_eq_self_iff]
      simp [hempty]

theorem ReadsUrl.of_some {parse : String → Option Url} {u : UrlText} {url : Url}
    (h : parse u.text = some url) (hscheme : url.scheme = u.scheme) (hport : url.port = u.port)
    (hpath : PathStr u.path url.path)
    (hhost : ∀ written, u.host = some written → HostStr written url.hostStr) :
    ReadsUrl parse u := by
  refine ⟨fun hnone => ?_, fun url' hsome => ?_⟩
  · rw [h] at hnone
    cases hnone
  · obtain rfl : url = url' := Option.some.inj (h.symm.trans hsome)
    exact ⟨hscheme, hport, hpath, hhost⟩

namespace ManagesieveSessionTransport

/-! What is read, scheme by scheme. -/

variable {url : Url}

theorem fromUrl_unix (h : url.scheme = "unix") :
    fromUrl (ε := ε) url = .ok (.unix url.path) := by
  rw [fromUrl, h, if_pos (by decide +kernel)]

theorem fromUrl_sieve (h : url.scheme = "sieve") : fromUrl (ε := ε) url =
    url.hostStr.elim (.error (.urlMissingHost url.asStr))
      fun host => .ok (.tcp host (url.port.getD defaultPort)) := by
  have hunix : strEqIgnoreAsciiCase "sieve" "unix" = false := by decide +kernel
  have hsieve : strEqIgnoreAsciiCase "sieve" "sieve" = true := by decide +kernel
  unfold fromUrl
  rw [h, hunix, if_neg Bool.false_ne_true]
  cases url.hostStr with
  | none => rfl
  | some host => simp only [hsieve, if_true, Option.elim_some]

theorem fromUrl_sieves (h : url.scheme = "sieves") : fromUrl (ε := ε) url =
    url.hostStr.elim (.error (.urlMissingHost url.asStr))
      fun host => .ok (.tls host (url.port.getD defaultPort)) := by
  have hunix : strEqIgnoreAsciiCase "sieves" "unix" = false := by decide +kernel
  have hsieve : strEqIgnoreAsciiCase "sieves" "sieve" = false := by decide +kernel
  have hsieves : strEqIgnoreAsciiCase "sieves" "sieves" = true := by decide +kernel
  unfold fromUrl
  rw [h, hunix, if_neg Bool.false_ne_true]
  cases url.hostStr with
  | none => rfl
  | some host =>
    simp only [hsieve, hsieves, Bool.false_eq_true, if_false, if_true, Option.elim_some]

/-- A network transport, read back by its host. -/
theorem fromUrl_host_iff {f : String → UInt16 → ManagesieveSessionTransport}
    (hf : ∀ {host host' port}, f host port = f host' port ↔ host = host')
    {parse : String → Option Url} {scheme host : String} {port : UInt16}
    {portText : Option UInt16} (hhost : IsHost host) (hp : PortText port portText)
    (hreads : ReadsUrl parse ⟨scheme, hostText host, portText, ""⟩)
    (hfrom : ∀ url : Url, url.scheme = scheme → fromUrl (ε := ε) url =
      url.hostStr.elim (.error (.urlMissingHost url.asStr))
        fun host => .ok (f host (url.port.getD defaultPort))) :
    (parse (UrlText.text ⟨scheme, hostText host, portText, ""⟩)).map (fromUrl (ε := ε)) =
        some (.ok (f host port)) ↔
      host ≠ "" ∧ isIpv6 host = false ∧ ∀ c ∈ host.toList, isAscii c = true := by
  obtain ⟨haccepts, hreads⟩ := hreads
  cases hparse : parse (UrlText.text ⟨scheme, hostText host, portText, ""⟩) with
  | none =>
    -- only a URL without a host is not accepted
    have hempty : hostText host = "" := Option.some.inj (haccepts hparse)
    refine iff_of_false (by simp) ?_
    rintro ⟨hne, hname, -⟩
    rw [hostText, hname, if_neg Bool.false_ne_true] at hempty
    exact hne hempty
  | some url =>
    obtain ⟨hscheme, hport, -, hstr⟩ := hreads url hparse
    rw [← (hstr _ rfl).eq_iff hhost, Option.map_some, Option.some.injEq, hfrom url hscheme, hport,
      hp.getD_eq]
    cases url.hostStr with
    | none => simp
    | some read => rw [Option.elim_some, Except.ok.injEq, hf, Option.some.injEq]

/-- **A transport survives the trip through a URL** exactly when its URL writes it as it is, and the
library has nothing to rewrite in it. -/
theorem fromUrl_eq_iff {parse : String → Option Url} {transport : ManagesieveSessionTransport}
    {u : UrlText} (hu : StandardUrl transport u) (hreads : ReadsUrl parse u) :
    (parse u.text).map (fromUrl (ε := ε)) = some (.ok transport) ↔ transport.WrittenAsIs := by
  cases hu with
  | tcp hhost hp =>
    exact fromUrl_host_iff (f := .tcp) (by simp) hhost hp hreads fun _ h => fromUrl_sieve h
  | tls hhost hp =>
    exact fromUrl_host_iff (f := .tls) (by simp) hhost hp hreads fun _ h => fromUrl_sieves h
  | @unix path habsolute =>
    obtain ⟨haccepts, hreads⟩ := hreads
    cases hparse : parse (UrlText.text ⟨"unix", none, none, pathText path⟩) with
    | none => cases haccepts hparse
    | some url =>
      obtain ⟨hscheme, -, hpath, -⟩ := hreads url hparse
      rw [Option.map_some, Option.some.injEq, fromUrl_unix hscheme, Except.ok.injEq,
        ManagesieveSessionTransport.unix.injEq, hpath.eq_iff]
      rfl

/-- A socket path that a URL writes as it is. -/
theorem fromUrl_eq_sieve_sock :
    let u : UrlText := ⟨"unix", none, none, pathText "/run/sieve.sock"⟩
    let parse := fun s =>
      if s = "unix:///run/sieve.sock" then
        some (⟨"unix", "/run/sieve.sock", none, none, "unix:///run/sieve.sock"⟩ : Url)
      else none
    u.text = "unix:///run/sieve.sock" ∧
      (parse u.text).map (fromUrl (ε := Unit)) = some (.ok (.unix "/run/sieve.sock")) := by
  intro u parse
  let url : Url := ⟨"unix", "/run/sieve.sock", none, none, "unix:///run/sieve.sock"⟩
  have hu : StandardUrl (.unix "/run/sieve.sock") u := .unix (by decide +kernel)
  have hparse : parse u.text = some url := by decide +kernel
  have hreads : ReadsUrl parse u :=
    .of_some hparse rfl rfl ⟨by decide +kernel, fun _ => by decide +kernel⟩ (by simp [u])
  exact ⟨by decide +kernel, (fromUrl_eq_iff hu hreads).2 (by decide +kernel)⟩

/-- A socket path with a blank comes back percent-encoded, and an IPv6 address in its brackets. -/
theorem fromUrl_ne_my_sieve :
    let unix : UrlText := ⟨"unix", none, none, pathText "/run/my sieve.sock"⟩
    let tls : UrlText := ⟨"sieves", hostText "::1", none, ""⟩
    let parse := fun s =>
      if s = "unix:///run/my%20sieve.sock" then
        some (⟨"unix", "/run/my%20sieve.sock", none, none, "unix:///run/my%20sieve.sock"⟩ : Url)
      else if s = "sieves://[::1]" then
        some ⟨"sieves", "", some "[::1]", none, "sieves://[::1]"⟩
      else none
    (StandardUrl (.unix "/run/my sieve.sock") unix ∧ ReadsUrl parse unix ∧
      (parse unix.text).map (fromUrl (ε := Unit)) = some (.ok (.unix "/run/my%20sieve.sock"))) ∧
    (StandardUrl (.tls "::1" 4190) tls ∧ ReadsUrl parse tls ∧
      (parse tls.text).map (fromUrl (ε := Unit)) = some (.ok (.tls "[::1]" 4190))) := by
  intro unix tls parse
  let socket : Url := ⟨"unix", "/run/my%20sieve.sock", none, none, "unix:///run/my%20sieve.sock"⟩
  let server : Url := ⟨"sieves", "", some "[::1]", none, "sieves://[::1]"⟩
  have hunix : StandardUrl (.unix "/run/my sieve.sock") unix := .unix (by decide +kernel)
  have htls : StandardUrl (.tls "::1" 4190) tls := .tls (by decide +kernel) .default
  have hsocket : parse unix.text = some socket := by decide +kernel
  have hserver : parse tls.text = some server := by decide +kernel
  refine ⟨⟨hunix, ?_, ?_⟩, htls, ?_, ?_⟩
  · exact .of_some hsocket rfl rfl ⟨by decide +kernel, fun _ => by decide +kernel⟩ (by simp [unix])
  · rw [hsocket, Option.map_some, fromUrl_unix rfl]
  · refine .of_some hserver rfl rfl ⟨by decide, fun _ => rfl⟩ fun written hwritten => ?_
    have hbrackets : hostText "::1" = "[::1]" := by decide +kernel
    obtain rfl : hostText "::1" = written := Option.some.inj hwritten
    rw [hbrackets, HostStr, if_neg (by decide), if_pos (by decide +kernel)]
    exact ⟨"::1", by decide +kernel⟩
  · rw [hserver, Option.map_some, fromUrl_sieves rfl]
    rfl

end ManagesieveSessionTransport

end ManageSieve
