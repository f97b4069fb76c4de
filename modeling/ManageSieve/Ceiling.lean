import ManageSieve.Foundations.Reach
import ManageSieve.Send
import ManageSieve.Wire.Rendering

/-!
# The ceiling on responses

`ManagesieveResponseRead` gives up on a response once its buffer grows past `MAX_RESPONSE`. It looks
at the length of the buffer only where no response was found in it, so that a long response is
accepted when its end comes in the read that goes past the ceiling. The main result,
`ManagesieveResponseRead.respectsCeiling_iff`, says when the ceiling is respected: unless some read
ends beyond it and short of the end of the response, a response that is too long is accepted.
-/

namespace ManageSieve

open Coroutine

namespace ManagesieveResponseRead

/-! ## What the buffer holds -/

/-- What holds before every resume of a run: the buffer is within the ceiling, as were the reads
before the last one. -/
structure Within (es : List (Event UInt8 ManagesieveYield)) (s : ManagesieveResponseRead)
    (arg : Option Bytes) : Prop where
  reading : Reading es s arg
  held : s.buf.length ≤ maxResponse
  earlier : ∀ k < (fedOf es).length, ((fedOf es).take k).flatten.length ≤ maxResponse
  last : Machine.lastRead es = (arg.getD []).length

theorem within_new : Within [] .new none :=
  ⟨⟨rfl, by simp, rfl, by simp, parse_nil, by simp⟩, Nat.zero_le _, by simp, rfl⟩

/-- What holds at every pause of a run: a buffer that waits for more is within the ceiling and holds
no response, and the reads before the last one are within it. -/
structure Held (es : List (Event UInt8 ManagesieveYield))
    (pause : Pause ManagesieveResponseRead Return) : Prop where
  waiting : ∀ s, pause = .waiting s →
    s.buf.length ≤ maxResponse ∧ ManagesieveResponse.parse s.buf = .ok none
  earlier : ∀ k < (fedOf es).length, ((fedOf es).take k).flatten.length ≤ maxResponse

/-- A request for a read, nothing being found in a buffer that is within the ceiling. -/
theorem Within.asks {es : List (Event UInt8 ManagesieveYield)} {s : ManagesieveResponseRead}
    {arg : Option Bytes} (h : Within es s arg)
    (hnone : ManagesieveResponse.parse (s.buf ++ arg.getD []) = .ok none)
    (hlen : (s.buf ++ arg.getD []).length ≤ maxResponse) :
    Held (es ++ [.yielded .wantsRead]) (.waiting ⟨false, s.buf ++ arg.getD []⟩) ∧
      ∀ c, Within (es ++ [.yielded .wantsRead, .fed c]) ⟨false, s.buf ++ arg.getD []⟩ (some c) := by
  refine ⟨⟨?_, by simpa using h.earlier⟩, fun c => ⟨(h.reading.asks hnone).2 c, hlen, ?_, by simp⟩⟩
  · rintro _ ⟨⟩
    exact ⟨hlen, hnone⟩
  · intro k hk
    simp only [fedOf_append, fedOf_yielded, fedOf_fed, fedOf_nil, List.length_append,
      List.length_singleton] at hk ⊢
    rw [List.take_append_of_le_length (by omega)]
    rcases Nat.lt_or_ge k (fedOf es).length with hlt | hge
    · exact h.earlier k hlt
    · rwa [List.take_of_length_le hge, ← h.reading.buffered]

theorem keeps_within : machine.Keeps (fun _ => True) Within Held := by
  rintro es ⟨wantsRead, buf⟩ arg h
  obtain rfl : wantsRead = false := h.reading.wantsRead
  have hends : ∀ r s, Held es (.finished r s) := fun r s => ⟨by rintro _ ⟨⟩, h.earlier⟩
  rw [machine_resume]
  rcases arg with _ | _ | ⟨b, data⟩
  · rw [resume_none]
    simpa [ManagesieveYield.isRead] using
      h.asks (by simpa using h.reading.nothing) (by simpa using h.held)
  · rw [resume_eof]
    exact hends _ _
  · rw [resume_some buf (List.cons_ne_nil b data)]
    rcases hp : ManagesieveResponse.parse (buf ++ b :: data) with err | _ | ⟨response, consumed⟩
    · exact hends _ _
    · dsimp only
      by_cases hlen : maxResponse < (buf ++ b :: data).length
      · rw [if_pos hlen]
        exact hends _ _
      · rw [if_neg hlen]
        simpa [ManagesieveYield.isRead] using h.asks hp (Nat.not_lt.1 hlen)
    · exact hends _ _

/-- **What the buffer holds in a run**: never more than the ceiling and the last read, and, whenever
a read is asked for, no more than the ceiling and no response. -/
theorem run_held {es : List (Event UInt8 ManagesieveYield)} {s s' : ManagesieveResponseRead}
    {arg : Option Bytes} (h : machine.Run .new es s arg) :
    (s.buf ++ arg.getD []).length ≤ maxResponse + Machine.lastRead es ∧
      (machine.resume s arg = (.yielded .wantsRead, s') →
        s'.buf.length ≤ maxResponse ∧ ManagesieveResponse.parse s'.buf = .ok none) := by
  have hwithin := h.keeps keeps_within within_new
  refine ⟨?_, fun hr => (h.keeps_read keeps_within within_new hr rfl).waiting s' rfl⟩
  rw [List.length_append, hwithin.last]
  exact Nat.add_le_add_right hwithin.held _

/-- The reads before the last one of a run are within the ceiling. -/
theorem drive_new_earlier (cs : List Bytes) :
    ∀ k < (fedOf (machine.drive .new none cs).events).length,
      ((fedOf (machine.drive .new none cs).events).take k).flatten.length ≤ maxResponse :=
  (Machine.drive_post keeps_within (fun c (_ : c ∈ cs) => trivial) within_new).earlier

/-! ## Where the reads are cut -/

/-- A run accepts a response of `n` bytes that is within the ceiling, and refuses a longer one. -/
def RespectsCeiling (response : ManagesieveResponse) (n : ℕ)
    (t : Transcript ManagesieveResponseRead UInt8 ManagesieveYield Return) : Prop :=
  (n ≤ maxResponse → ∃ trailing, t.pause.result = some (.ok ⟨response, trailing⟩)) ∧
    (maxResponse < n → t.pause.result = some (.error .responseTooLarge))

/-- The reads that a run was fed are the first ones. -/
theorem take_of_le_fed {cs : List Bytes} {k : ℕ}
    (hk : k ≤ (fedOf (machine.drive .new none cs).events).length) :
    cs.take k = (fedOf (machine.drive .new none cs).events).take k := by
  have hfed := Machine.fed_append_unfed (m := machine) .new none cs
  calc cs.take k
    _ = (fedOf (machine.drive .new none cs).events ++
          (machine.drive .new none cs).unfed).take k := by rw [hfed]
    _ = _ := List.take_append_of_le_length hk

/-- How a run ends on a stream that begins with a response: it accepts it, having read no further
than the ceiling before its last read, or it refuses it somewhere between the ceiling and its end.
-/
theorem drive_new_cases {b : Bytes} {cs : List Bytes} (hcs : Cuts cs b)
    {response : ManagesieveResponse} {n : ℕ}
    (hp : ManagesieveResponse.parse b = .ok (some (response, n))) :
    (∃ trailing, (machine.drive .new none cs).pause.result = some (.ok ⟨response, trailing⟩) ∧
        ∀ k, (cs.take k).flatten.length < n → (cs.take k).flatten.length ≤ maxResponse) ∨
      (machine.drive .new none cs).pause.result = some (.error .responseTooLarge) ∧
        ∃ k, maxResponse < (cs.take k).flatten.length ∧ (cs.take k).flatten.length < n := by
  have hout := (drive_new_reads cs).outcome
  have hearlier := drive_new_earlier cs
  have hnone := pause_of_none hcs
  have hpre := responseParser.parse_prefix (fed_isPrefix hcs) hp
  have htake := @take_of_le_fed cs
  generalize machine.drive .new none cs = t at *
  rw [List.nil_append] at hout
  rw [responseParser_parse] at hpre
  split_ifs at hpre with hn
  · rw [Outcome, hpre] at hout
    refine Or.inl ⟨_, by rw [hout]; rfl, fun k hk => ?_⟩
    -- a cut short of the end of the response comes before the last read
    rcases Nat.lt_or_ge k (fedOf t.events).length with hlt | hge
    · rw [htake hlt.le]
      exact hearlier k hlt
    · exfalso
      have hle : (fedOf t.events).flatten.length ≤ (cs.take k).flatten.length := by
        have hsub : fedOf t.events <+: cs.take k := by
          rw [← List.take_of_length_le (le_refl (fedOf t.events).length), ← htake le_rfl]
          exact List.take_prefix_take_left hge
        exact hsub.flatten.length_le
      omega
  · have hlt : (fedOf t.events).flatten.length < n := Nat.not_le.1 hn
    rcases hnone hpre with ⟨-, -, hb⟩ | ⟨⟨s, hs⟩, hover⟩
    · -- a run that waits was fed the whole stream, with the response in it
      rw [hb, hp] at hpre
      cases hpre
    · refine Or.inr ⟨by rw [hs]; rfl, (fedOf t.events).length, ?_, ?_⟩ <;>
        rwa [htake le_rfl, List.take_length]

/-- **When the ceiling is respected**: the response is within it, or some read ends beyond it and
short of the end of the response. -/
theorem respectsCeiling_iff {b : Bytes} {cs : List Bytes} (hcs : Cuts cs b)
    {response : ManagesieveResponse} {n : ℕ}
    (hp : ManagesieveResponse.parse b = .ok (some (response, n))) :
    RespectsCeiling response n (machine.drive .new none cs) ↔
      n ≤ maxResponse ∨
        ∃ k, maxResponse < (cs.take k).flatten.length ∧ (cs.take k).flatten.length < n := by
  unfold RespectsCeiling
  rcases drive_new_cases hcs hp with ⟨trailing, hr, hcut⟩ | ⟨hr, k, hover, hshort⟩
  · constructor
    · rintro ⟨-, hlarge⟩
      by_contra hno
      rw [not_or, not_le] at hno
      rw [hlarge hno.1] at hr
      cases hr
    · rintro (hle | ⟨k, hover, hshort⟩)
      · exact ⟨fun _ => ⟨trailing, hr⟩, fun hlt => absurd hlt (not_lt.2 hle)⟩
      · exact absurd hover (not_lt.2 (hcut k hshort))
  · refine iff_of_true ⟨fun hle => ?_, fun _ => hr⟩ (Or.inr ⟨k, hover, hshort⟩)
    omega

/-- A short response, cut inside its line end. -/
theorem respectsCeiling_iff_ok :
    RespectsCeiling ⟨[], ⟨.ok, none, none⟩⟩ 4
      (machine.drive .new none [asBytes "OK\r", asBytes "\nNO\r\n"]) :=
  (respectsCeiling_iff (b := asBytes "OK\r\nNO\r\n") ⟨by decide +kernel, by decide +kernel⟩
    (by decide +kernel)).2 (Or.inl (by decide))

/-- A data line with a script, as a literal. -/
def scriptLine (script : Bytes) : Bytes :=
  literalMarker true script.length ++ (crlf ++ (script ++ crlf))

theorem renders_scriptLine {script : Bytes} (h : script.length ≤ maxLiteral) :
    RendersData ⟨[.string script]⟩ (scriptLine script) :=
  .line .nil (.literal true .crlf h (.eol .crlf))

/-- Two scripts of five mebibytes and an OK, in a single read: a response that is longer than the
ceiling is accepted. -/
theorem not_respectsCeiling :
    ¬ ∀ (b : Bytes) (cs : List Bytes) (response : ManagesieveResponse) (n : ℕ), Cuts cs b →
      ManagesieveResponse.parse b = .ok (some (response, n)) →
        RespectsCeiling response n (machine.drive .new none cs) := by
  intro hall
  obtain ⟨script, hscript⟩ : ∃ script : Bytes, script.length = 5242880 :=
    ⟨List.replicate 5242880 0x61, List.length_replicate⟩
  have hmax : script.length ≤ maxLiteral := by
    rw [hscript]
    unfold maxLiteral
    omega
  have hline : RendersData _ _ := renders_scriptLine hmax
  have hdone : RendersCompletion ⟨.ok, none, none⟩ (asBytes "OK" ++ crlf) :=
    .line (by decide +kernel : eqIgnoreAsciiCase (asBytes "OK") _ = true) .none .none
      (.atom (by decide +kernel) (by decide +kernel) (.eol .crlf))
  have hrenders := Renders.data hline (.data hline (.completion hdone))
  have hlen : (scriptLine script ++ (scriptLine script ++ (asBytes "OK" ++ crlf))).length =
      10485790 := by
    have hmarker : (literalMarker true 5242880).length = 9 := by decide +kernel
    have hok : (asBytes "OK" ++ crlf).length = 4 := by decide +kernel
    have hwhole : ∀ b : Bytes, (b ++ (asBytes "OK" ++ crlf)).length = b.length + 4 := fun b => by
      rw [List.length_append, hok]
    simp only [scriptLine, hwhole, hscript,
      List.length_append, hmarker, List.length_cons, List.length_nil]
  have hp := (hrenders.readsLines (by rw [hlen]; unfold usizeMax; omega)).parse []
  generalize scriptLine script ++ (scriptLine script ++ (asBytes "OK" ++ crlf)) = b at hlen hp
  rw [List.append_nil] at hp
  have hne : b ≠ [] := by
    rintro rfl
    cases hlen
  have hcs : Cuts [b] b := ⟨by simp, by simpa using hne⟩
  have hover : maxResponse < b.length := by
    rw [hlen]
    unfold maxResponse maxLiteral
    omega
  rcases drive_new_cases hcs hp with ⟨trailing, hr, -⟩ | ⟨-, k, hcut, hshort⟩
  · rw [(hall b [b] _ _ hcs hp).2 hover] at hr
    cases hr
  -- the only cuts of a single read are its two ends
  · cases k with
    | zero => exact absurd hcut (Nat.not_lt_zero _)
    | succ k =>
      rw [List.take_succ_cons, List.take_nil, List.flatten_singleton] at hshort
      exact absurd hshort (lt_irrefl _)

end ManagesieveResponseRead

end ManageSieve
