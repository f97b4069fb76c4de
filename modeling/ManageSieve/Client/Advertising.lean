import ManageSieve.Client.Serving
import ManageSieve.Rfc5804.Advertising

/-!
# Replies that advertise

The replies that carry capabilities. `Reply.telling` writes any capability lines down,
`Reply.Tells` says what a reply advertises, and `Reply.Tells.advertisement_parse` that a client is
told it.
-/

namespace ManageSieve

/-- The octets of some capability lines and an OK. -/
def tellingBytes (lines : List ManagesieveCapability) : Bytes :=
  lines.flatMap ManagesieveCapability.bytes ++ (asBytes "OK" ++ crlf)

theorem renders_tellingBytes {lines : List ManagesieveCapability} (h : ∀ line ∈ lines, line.Fits) :
    Renders ⟨lines.map ManagesieveCapability.line, Reply.completion .ok⟩ (tellingBytes lines) := by
  unfold tellingBytes
  induction lines with
  | nil => exact .completion (Reply.renders_completion .ok)
  | cons line lines ih =>
    obtain ⟨hline, hlines⟩ := List.forall_mem_cons.1 h
    rw [List.flatMap_cons, List.append_assoc]
    exact .data (ManagesieveCapability.renders_bytes hline) (ih hlines)

namespace Reply

/-- A reply that carries capability lines. -/
def telling (lines : List ManagesieveCapability) (hfits : ∀ line ∈ lines, line.Fits)
    (hlen : (tellingBytes lines).length ≤ maxResponse) : Reply where
  response := ⟨lines.map ManagesieveCapability.line, completion .ok⟩
  bytes := tellingBytes lines
  renders := renders_tellingBytes hfits
  fits := hlen

/-- The reply advertises `ad`, if it is accepted. -/
def Tells (reply : Reply) (ad : Advertisement) : Prop :=
  reply.response.completion.status = .ok →
    ∃ lines, reply.response.data = lines.map ManagesieveCapability.line ∧ ad.ToldBy lines

variable {reply : Reply} {ad : Advertisement}

theorem tells_telling {lines : List ManagesieveCapability} (hfits : ∀ line ∈ lines, line.Fits)
    (hlen : (tellingBytes lines).length ≤ maxResponse) (h : ad.ToldBy lines) :
    (telling lines hfits hlen).Tells ad :=
  fun _ => ⟨lines, rfl, h⟩

/-- A client is told what is advertised. -/
theorem Tells.advertisement_parse (h : reply.Tells ad)
    (hok : reply.response.completion.status = .ok) :
    (ManagesieveCapabilities.parse reply.response.data).advertisement = ad := by
  obtain ⟨lines, hdata, htold⟩ := h hok
  rw [hdata, ManagesieveCapabilities.parse_lines]
  exact htold.advertisement_eq

end Reply

end ManageSieve
