import ManageSieve.Client.Closing
import ManageSieve.Client.Hosting

/-!
# When the connection is lost

Only so many octets of a stream arrive (`StreamIo.lossy`), and every read after them gives nothing:
the server closed the connection, or somebody cut it, maybe in the middle of a response.

* A program comes to what it comes to when every method asks the server directly, until the octets
  of the answers are used up: the method that runs out of them, and every method after it, fails
  with the end of the stream (`Program.runs_lost_iff`). No part of a response is ever taken for a
  response.
* So it is from the start of a session on (`Host.session_lost`): `connect` returns no connection but
  the one that it returns when everything arrives.
-/

namespace ManageSieve

open Coroutine

/-- What arrives of a read when only `n` more octets do. -/
def ReadBuffer.first (buf : ReadBuffer) (n : ℕ) : ReadBuffer :=
  ⟨buf.1.take n, Nat.le_trans (List.length_take_le' n buf.1) buf.2⟩

/-- The stream, of which only so many octets arrive. -/
def StreamIo.lossy {S ι : Type*} (io : StreamIo S ι) : StreamIo (S × ℕ) ι where
  read st :=
    match io.read st.1 with
    | (.ok buf, s) => (.ok (buf.first st.2), s, st.2 - buf.1.length)
    | (.error err, s) => (.error err, s, st.2)
  writeAll st bytes := ((io.writeAll st.1 bytes).1, (io.writeAll st.1 bytes).2, st.2)

/-! ## Methods -/

namespace Listener

variable {St : Type*} (listen : Listener St) (ι : Type*) (cut : ℕ → ℕ)

/-- Nothing arrives any more. -/
theorem read_lost (conn : Connection St) : ∃ conn',
    (listen.stream ι cut).lossy.transport.read (conn, 0) = (.ok [], conn', 0) :=
  ⟨_, Prod.ext rfl (Prod.ext rfl (Nat.zero_sub _))⟩

/-- What arrives of what is sent, however it is cut. -/
theorem exists_gives_lossy (st : St) (b : Bytes) (clock n : ℕ) : ∃ cs conn,
    Cuts cs (b.take n) ∧
      Gives (listen.stream ι cut).lossy.transport (⟨st, [], b, clock⟩, n) cs
        (conn, n - b.length) ∧
      (b.length ≤ n → ∃ clock', conn = .idle st clock') := by
  induction hk : b.length using Nat.strongRecOn generalizing b clock n with
  | ind k ih =>
    subst hk
    by_cases hnil : b.take n = []
    · have hor := List.take_eq_nil_iff.1 hnil
      refine ⟨[], ⟨st, [], b, clock⟩, ⟨hnil.symm, by simp⟩, ?_, fun hle => ?_⟩
      · have hlen : n - b.length = n := by rcases hor with rfl | rfl <;> simp
        rw [hlen]
        exact .nil
      · obtain rfl : b = [] := by
          rcases hor with rfl | rfl
          · exact List.length_eq_zero_iff.1 (Nat.le_zero.1 hle)
          · rfl
        exact ⟨clock, rfl⟩
    · have hpos := quantum_pos cut clock
      obtain ⟨hn, hb⟩ := not_or.1 (mt List.take_eq_nil_iff.2 hnil)
      have hlen := List.length_pos_iff.2 hb
      -- the next read, and what is left after it
      obtain ⟨cs, conn, hcs, hgives, hidle⟩ := ih (b.drop (quantum cut clock)).length
        (by rw [List.length_drop]; omega) (b.drop (quantum cut clock)) (clock + 1)
        (n - (b.take (quantum cut clock)).length) rfl
      have hread : (listen.stream ι cut).lossy.transport.read (⟨st, [], b, clock⟩, n) =
          (.ok ((b.take (quantum cut clock)).take n),
            ⟨st, [], b.drop (quantum cut clock), clock + 1⟩,
            n - (b.take (quantum cut clock)).length) := rfl
      have hsum : (b.take (quantum cut clock)).length + (b.drop (quantum cut clock)).length =
          b.length := by
        rw [← List.length_append, List.take_append_drop]
      rw [Nat.sub_sub, hsum] at hgives
      refine ⟨(b.take (quantum cut clock)).take n :: cs, conn, ⟨?_, ?_⟩, .cons hread hgives,
        fun hle => hidle (by omega)⟩
      · conv_rhs => rw [← List.take_append_drop (quantum cut clock) b]
        rw [List.flatten_cons, hcs.flatten, List.take_append]
      · refine List.forall_mem_cons.2 ⟨?_, hcs.ne_nil⟩
        simp only [Ne, List.take_eq_nil_iff, hn, hb, Nat.ne_of_gt hpos, or_self, not_false_eq_true]

end Listener

namespace ManagesieveClientStd

namespace Method

variable {ε ι T St : Type} {lib : Libraries} {listen : Listener St}

/-- A command that was written ends when there is no more data. -/
theorem send_eof {R : Type*} (finish : ManagesieveResponseRead.Return → R) (heard : Bytes) :
    ∃ s, (ManagesieveCommandSend.machine.mapDone finish).resume ⟨none, ⟨false, heard⟩⟩ (some []) =
      (.complete (finish (.error .eof)), s) :=
  ⟨_, Machine.mapDone_complete finish (ManagesieveCommandSend.nests_read.resume_complete trivial
    (ManagesieveResponseRead.resume_eof heard))⟩

/-- **A method returns what the server answered, or that the connection was lost**, which it was
when fewer octets arrive than the answer has. -/
theorem runsTo_lossy (h : Function.Injective lib.asStr) {server : Server St}
    (hanswers : listen.Answers lib server) (cut : ℕ → ℕ) (method : Method T)
    (hfits : ∀ argument ∈ method.command.arguments lib, argument.Fits lib) (st : St)
    (clock n : ℕ) :
    let (reply, st') := server.answer st method.command.normal
    ∃ conn, RunsTo (listen.stream ι cut).lossy (method.call : Call ε ι T) (.idle st clock, n)
        (.returned (if reply.bytes.length ≤ n then method.result reply.response
          else .error method.lost), conn, n - reply.bytes.length) ∧
      (reply.bytes.length ≤ n → ∃ clock', conn = .idle st' clock') := by
  have hwrite := hanswers.writeAll h ι cut st clock method.command_ne_authenticate hfits
  rcases hanswer : server.answer st method.command.normal with ⟨reply, st'⟩
  rw [hanswer] at hwrite
  dsimp only at hwrite ⊢
  obtain ⟨E, finish, into, hcall, hfinish, hlost⟩ := exists_finish (ε := ε) (ι := ι) lib method
  have hlossy : (listen.stream ι cut).lossy.writeAll (.idle st clock, n)
      (method.command.toBytes lib) = (.ok (), ⟨st', [], reply.bytes, clock⟩, n) := by
    simp only [StreamIo.lossy, hwrite]
  have hturn : (ManagesieveCommandSend.machine.mapDone finish).pumpTurn
      (listen.stream ι cut).lossy.transport
      (.new (method.command.toBytes lib), none, .idle st clock, n) =
      .again (⟨none, .new⟩, none, ⟨st', [], reply.bytes, clock⟩, n) :=
    Machine.pumpTurn_write rfl rfl hlossy
  obtain ⟨cs, conn, hcs, hgives, hidle⟩ :=
    listen.exists_gives_lossy ι cut st' reply.bytes clock n
  rw [hcall]
  by_cases hle : reply.bytes.length ≤ n
  · rw [List.take_of_length_le hle] at hcs
    have hends := (reply.gathers_send finish).ends
      (fun heard a ha hb => reply.send_whole finish ha hb) hcs reply.bytes_ne_nil hgives
    refine ⟨conn, runsTo_iff_pump.2 ⟨_, .again hturn hends, ?_⟩, hidle⟩
    rw [if_pos hle, ← hfinish]
    rcases finish (.ok ⟨reply.response, []⟩) with err | out <;> rfl
  · have hzero : n - reply.bytes.length = 0 := by omega
    rw [hzero] at hgives ⊢
    obtain ⟨conn', hread⟩ := listen.read_lost ι cut conn
    have hrest : reply.bytes.drop n ≠ [] := by
      rw [Ne, List.drop_eq_nil_iff]
      exact hle
    have hends := (reply.gathers_send finish).ends_lost (send_eof finish) hcs hrest
      (List.take_append_drop n reply.bytes) hgives hread
    refine ⟨conn', runsTo_iff_pump.2 ⟨_, .again hturn hends, ?_⟩, fun hle' => absurd hle' hle⟩
    rw [if_neg hle, ← hlost]
    rcases finish (.error .eof) with err | out <;> rfl

/-- Once the connection was lost, every method says so. -/
theorem runsTo_lost (listen : Listener St) (cut : ℕ → ℕ) (method : Method T)
    (conn : Connection St) : ∃ conn',
      RunsTo (listen.stream ι cut).lossy (method.call : Call ε ι T) (conn, 0)
        (.returned (.error method.lost), conn', 0) := by
  obtain ⟨E, finish, into, hcall, -, hlost⟩ := exists_finish (ε := ε) (ι := ι) .standard method
  obtain ⟨y, hy, hr⟩ := ((Reply.plain .ok).gathers_send finish).asks
  obtain ⟨conn', hread⟩ := listen.read_lost ι cut _
  obtain ⟨s, heof⟩ := send_eof finish []
  have hends : Ends ((ManagesieveCommandSend.machine.mapDone finish).pumpTurn
      (listen.stream ι cut).lossy.transport)
      (.new (method.command.toBytes .standard), none, conn, 0)
      (.returned (finish (.error .eof)), conn', 0) :=
    .again (Machine.pumpTurn_write rfl rfl rfl)
      (.again (Machine.pumpTurn_read hr hy hread) (Machine.ends_of_complete heof))
  refine ⟨conn', ?_⟩
  rw [hcall]
  refine runsTo_iff_pump.2 ⟨_, hends, ?_⟩
  rw [← hlost]
  rcases finish (.error .eof) with err | out <;> rfl

end Method

/-! ## Programs -/

namespace Program

variable {ε ι St : Type} {R : Type*}

/-- What the program comes to when every method asks the server directly, of whose answers only so
many octets arrive. -/
def execLost (server : Server St) : Program ε ι R → St → ℕ → R
  | done r, _, _ => r
  | call method next, st, n =>
    let (reply, st) := server.answer st method.command.normal
    if reply.bytes.length ≤ n then
      (next (method.result reply.response)).execLost server st (n - reply.bytes.length)
    else (next (.error method.lost)).execLost server st 0

/-- Once the connection was lost, a program comes to what it comes to without any answer. -/
theorem runs_lost (server : Server St) (listen : Listener St) (cut : ℕ → ℕ)
    (program : Program ε ι R) (st : St) (conn : Connection St) : ∃ conn',
      Runs (listen.stream ι cut).lossy program (conn, 0)
        (program.execLost server st 0, conn') := by
  induction program generalizing st conn with
  | done r => exact ⟨_, .done⟩
  | call method next ih =>
    obtain ⟨conn', hcall⟩ := method.runsTo_lost (ε := ε) (ι := ι) listen cut conn
    have hne : ¬ (server.answer st method.command.normal).1.bytes.length ≤ 0 := fun hle =>
      (server.answer st method.command.normal).1.bytes_ne_nil
        (List.length_eq_zero_iff.1 (Nat.le_zero.1 hle))
    obtain ⟨conn'', hruns⟩ :=
      ih (.error method.lost) (server.answer st method.command.normal).2 conn'
    rw [execLost]
    dsimp only
    rw [if_neg hne]
    exact ⟨conn'', .call hcall hruns⟩

/-- A program comes to what it comes to when it asks the server, as far as the answers arrive. -/
theorem runs_execLost {lib : Libraries} (h : Function.Injective lib.asStr) {listen : Listener St}
    {server : Server St} (hanswers : listen.Answers lib server) (cut : ℕ → ℕ)
    {program : Program ε ι R} (hfits : program.Fits lib) (st : St) (clock n : ℕ) :
    ∃ conn, Runs (listen.stream ι cut).lossy program (.idle st clock, n)
      (program.execLost server st n, conn) := by
  induction program generalizing st clock n with
  | done r => exact ⟨_, .done⟩
  | call method next ih =>
    obtain ⟨hmethod, hnext⟩ := hfits
    obtain ⟨conn, hcall, hidle⟩ :=
      method.runsTo_lossy (ε := ε) (ι := ι) h hanswers cut hmethod st clock n
    rw [execLost]
    dsimp only
    by_cases hle : (server.answer st method.command.normal).1.bytes.length ≤ n
    · rw [if_pos hle] at hcall ⊢
      obtain ⟨clock', rfl⟩ := hidle hle
      obtain ⟨conn', hruns⟩ := ih _ (hnext _) (server.answer st method.command.normal).2 clock' _
      exact ⟨conn', .call hcall hruns⟩
    · rw [if_neg hle] at hcall ⊢
      have hzero : n - (server.answer st method.command.normal).1.bytes.length = 0 := by omega
      rw [hzero] at hcall
      obtain ⟨conn', hruns⟩ := runs_lost server listen cut (next (.error method.lost))
        (server.answer st method.command.normal).2 conn
      exact ⟨conn', .call hcall hruns⟩

/-- **A lost connection never shows as an answer.** Over an idle stream to a server, of which only
so many octets arrive, however they are cut, a program comes to what it comes to when every method
asks the server directly until they are used up, and every method from there on fails with the end
of the stream; and to nothing else. -/
theorem runs_lost_iff {lib : Libraries} (h : Function.Injective lib.asStr) (server : Server St)
    (cut : ℕ → ℕ) {program : Program ε ι R} (hfits : program.Fits lib) (st : St) (clock n : ℕ) :
    ∃ conn, ∀ out, Runs (server.stream lib ι cut).lossy program (Connection.idle st clock, n) out ↔
      out = (program.execLost server st n, conn) := by
  obtain ⟨conn, hruns⟩ := runs_execLost h (server.answers_listen lib) cut hfits st clock n
  refine ⟨conn, fun out => ⟨fun hout => hout.unique hruns, ?_⟩⟩
  rintro rfl
  exact hruns

/-- Two commands to a server that answers each with four octets, of which five arrive. -/
theorem runs_lost_iff_noop :
    let server : Server Unit := ⟨fun _ _ => (.plain .ok, ()), .plain .bye⟩
    let program : Program Unit Unit (Except (ManagesieveClientCallError Unit Unit) Unit ×
        Except (ManagesieveClientCallError Unit Unit) (Option String)) :=
      .call (.haveSpace "main" 5) fun space => .call (.noop none) fun tag => .done (space, tag)
    ∃ conn, ∀ out,
      Runs (server.stream .standard Unit fun _ => 3).lossy program (Connection.idle () 0, 5) out ↔
        out = ((.ok (), .error (.noop (.send .eof))), conn) := by
  intro server program
  have hfits : program.Fits .standard :=
    ⟨by decide +kernel, fun _ => ⟨by decide +kernel, fun _ => trivial⟩⟩
  have hlost : program.execLost server () 5 = (.ok (), .error (.noop (.send .eof))) := by
    decide +kernel
  rw [← hlost]
  exact runs_lost_iff Libraries.standard_asStr_injective server (fun _ => 3) hfits () 0 5

end Program

end ManagesieveClientStd

/-! ## Sessions -/

/-- The streams, of which only so many octets arrive from when one was opened. -/
def Io.lossy {S ι τ : Type*} (io : Io S ι τ) (n : ℕ) : Io (S × ℕ) ι τ where
  connectTcp host port := (io.connectTcp host port).map (·, n)
  connectTls host port := (io.connectTls host port).map (·, n)
  connectUnix path := (io.connectUnix path).map (·, n)
  upgradeTls st := (io.upgradeTls st.1).map (·, st.2)
  read st := (io.read st.1).map fun (buf, s) => (buf.first st.2, s, st.2 - buf.1.length)
  writeAll st bytes := (io.writeAll st.1 bytes).map (·, st.2)

namespace Io

variable {ε S ι τ : Type*} (io : Io S ι τ) (n : ℕ)

theorem lossy_connect (transport : ManagesieveSessionTransport) :
    ((io.lossy n).transport (ε := ε)).write none (.connect transport) =
      ((io.transport.write none (.connect transport)).1,
        (io.transport (ε := ε).write none (.connect transport)).2.map (·, n)) := by
  cases transport with
  | tcp host port =>
    simp only [ManagesieveSessionOpenYield.connect, Io.transport, lossy]
    rcases io.connectTcp host port with err | s <;> rfl
  | tls host port =>
    simp only [ManagesieveSessionOpenYield.connect, Io.transport, lossy]
    rcases io.connectTls host port with err | s <;> rfl
  | unix path =>
    simp only [ManagesieveSessionOpenYield.connect, Io.transport, lossy]
    rcases io.connectUnix path with err | s <;> rfl

theorem lossy_write {y : ManagesieveSessionOpenYield}
    (hy : ∀ transport, y ≠ .connect transport) (s : S) (k : ℕ) :
    ((io.lossy n).transport (ε := ε)).write (some (s, k)) y =
      ((io.transport.write (some s) y).1,
        (io.transport (ε := ε).write (some s) y).2.map (·, k)) := by
  cases y with
  | wantsTcpConnect host port => exact absurd rfl (hy (.tcp host port))
  | wantsTlsConnect host port => exact absurd rfl (hy (.tls host port))
  | wantsUnixConnect path => exact absurd rfl (hy (.unix path))
  | wantsTlsUpgrade =>
    simp only [Io.transport, lossy]
    rcases io.upgradeTls s with err | s' <;> rfl
  | wantsRead => rfl
  | wantsWrite bytes =>
    simp only [Io.transport, lossy]
    rcases io.writeAll s bytes with err | s' <;> rfl

theorem lossy_read (s : S) (k : ℕ) :
    ((io.lossy n).transport (ε := ε)).read (some (s, k)) =
      match io.read s with
      | .error err => (.error (.io err), some (s, k))
      | .ok (buf, s') => (.ok (buf.1.take k), some (s', k - buf.1.length)) := by
  simp only [Io.transport, lossy]
  rcases io.read s with err | ⟨buf, s'⟩ <;> rfl

/-- A stream stays open. -/
theorem write_some (s : S) (y : ManagesieveSessionOpenYield) :
    ∃ s', (io.transport (ε := ε).write (some s) y).2 = some s' := by
  cases y with
  | wantsTcpConnect host port =>
    simp only [Io.transport]
    rcases io.connectTcp host port with err | s' <;> exact ⟨_, rfl⟩
  | wantsTlsConnect host port =>
    simp only [Io.transport]
    rcases io.connectTls host port with err | s' <;> exact ⟨_, rfl⟩
  | wantsUnixConnect path =>
    simp only [Io.transport]
    rcases io.connectUnix path with err | s' <;> exact ⟨_, rfl⟩
  | wantsTlsUpgrade =>
    simp only [Io.transport]
    rcases io.upgradeTls s with err | s' <;> exact ⟨_, rfl⟩
  | wantsRead => exact ⟨_, rfl⟩
  | wantsWrite bytes =>
    simp only [Io.transport]
    rcases io.writeAll s bytes with err | s' <;> exact ⟨_, rfl⟩

/-- No stream is opened among some events. -/
def OpensNone (es : List SessionEvent) : Prop := ∀ transport, connected transport ∉ es

variable {io n} {es : List SessionEvent}

theorem OpensNone.ne_connect {y : ManagesieveSessionOpenYield}
    (h : OpensNone (.yielded y :: es)) (transport : ManagesieveSessionTransport) :
    y ≠ .connect transport := by
  rintro rfl
  exact h transport List.mem_cons_self

theorem OpensNone.tail {e : Event UInt8 ManagesieveSessionOpenYield} (h : OpensNone (e :: es)) :
    OpensNone es :=
  fun transport hmem => h transport (List.mem_cons_of_mem e hmem)

/-- What was read of a stream is what less is left of it. -/
theorem lossy_left {s : S} {k : ℕ} {stream : Option (S × ℕ)} (hnone : OpensNone es)
    (h : ManagesieveClientStd.Shown (ε := ε) (io.lossy n) (some (s, k)) es stream) :
    ∃ s' k', stream = some (s', k') ∧ k' + (fedOf es).flatten.length = k := by
  induction es generalizing s k with
  | nil =>
    cases h
    exact ⟨s, k, rfl, rfl⟩
  | cons e es ih =>
    cases h with
    | ask hy h =>
      obtain ⟨s', k', hstream, hk⟩ := ih hnone.tail h
      exact ⟨s', k', hstream, hk⟩
    | write hy hwrite h =>
      rw [lossy_write io n hnone.ne_connect, Prod.mk.injEq] at hwrite
      obtain ⟨t, ht⟩ := io.write_some (ε := ε) s _
      rw [ht] at hwrite
      obtain ⟨-, rfl⟩ := hwrite
      exact ih hnone.tail h
    | fed hread h =>
      rw [lossy_read] at hread
      rcases hio : io.read s with err | ⟨buf, t⟩ <;> rw [hio] at hread <;> cases hread
      obtain ⟨s', k', hstream, hk⟩ := ih hnone.tail h
      refine ⟨s', k', hstream, ?_⟩
      rw [fedOf_fed, List.flatten_cons, List.length_append, List.length_take]
      omega

/-- A stream of which enough octets arrive serves what it serves when all of them do. -/
theorem lossy_shown {s : S} {stream : Option S} (hnone : OpensNone es)
    (h : ManagesieveClientStd.Shown (ε := ε) io (some s) es stream) (k : ℕ) :
    ManagesieveClientStd.Shown (ε := ε) (io.lossy n)
      (some (s, (fedOf es).flatten.length + k)) es (stream.map (·, k)) := by
  induction es generalizing s with
  | nil =>
    cases h
    simpa using Serves.nil
  | cons e es ih =>
    cases h with
    | ask hy h => exact .ask hy (ih hnone.tail h)
    | write hy hwrite h =>
      obtain ⟨t, ht⟩ := io.write_some (ε := ε) s _
      rw [Prod.ext_iff, ht] at hwrite
      obtain ⟨hok, rfl⟩ := hwrite
      refine .write hy ?_ (ih hnone.tail h)
      rw [lossy_write io n hnone.ne_connect, hok, ht]
      rfl
    | @fed _ c _ _ _ hread h =>
      simp only [Io.transport] at hread
      rcases hio : io.read s with err | ⟨buf, t⟩ <;> rw [hio] at hread <;> cases hread
      refine .fed ?_ (ih hnone.tail h)
      rw [lossy_read, hio]
      dsimp only
      rw [fedOf_fed, List.flatten_cons, List.length_append, List.take_of_length_le (by omega)]
      simp only [Prod.mk.injEq, Option.some.injEq, true_and]
      omega

end Io

/-- A session opens one stream, first of all. -/
theorem ManagesieveSessionOpen.opens_first {ε : Type*} {lib : Libraries}
    {transport : ManagesieveSessionTransport} {sasl : Option (Sasl ε)}
    {opts : ManagesieveSessionOpenOptions} {es : List SessionEvent} {s : ManagesieveSessionOpen ε}
    {arg : Option Bytes} (h : (machine lib).Run (.new transport sasl opts) es s arg) :
    es = [] ∨ ∃ es', es = connected transport :: es' ∧ Io.OpensNone es' := by
  have hrun := inOrder_run lib transport sasl opts (fedOf es)
  have hfirst : es <+: (run lib transport sasl opts (fedOf es)).events := h.isPrefix
  by_cases hrefused : opts.starttls = true ∧ transport.isProtected = true
  · rw [(hrun.refuses.2 hrefused).1, List.prefix_nil] at hfirst
    exact .inl hfirst
  · obtain ⟨es', hes', hnone⟩ := hrun.connects hrefused
    rw [hes'] at hfirst
    rcases es with _ | ⟨e, es⟩
    · exact .inl rfl
    · obtain ⟨rfl, hes⟩ := List.cons_prefix_cons.1 hfirst
      exact .inr ⟨es, rfl, fun transport' hmem => hnone transport' (hes.subset hmem)⟩

namespace Io

open ManagesieveClientStd

variable {ε S ι τ : Type*} {lib : Libraries} {io : Io S ι τ} {n : ℕ}
  {transport : ManagesieveSessionTransport} {sasl : Option (Sasl ε)}
  {opts : ManagesieveSessionOpenOptions}

theorem isRead_connect (transport : ManagesieveSessionTransport) :
    (ManagesieveSessionOpenYield.connect transport).isRead = false := by
  cases transport <;> rfl

/-- The stream that was opened. -/
theorem exists_connect
    (h : (io.transport (ε := ε).write none (.connect transport)).1 = .ok ()) :
    ∃ opened, io.transport (ε := ε).write none (.connect transport) = (.ok (), some opened) := by
  have hopening : ∀ {r : Except τ S}, (opening (ε := ε) (ι := ι) none r).1 = .ok () →
      ∃ opened, opening (ε := ε) (ι := ι) none r = (.ok (), some opened) := by
    rintro (err | opened) h
    · cases h
    · exact ⟨opened, rfl⟩
  cases transport <;> exact hopening h

/-- What a session did to streams that may be lost. -/
theorem lossy_opened {es : List SessionEvent} {s : ManagesieveSessionOpen ε} {arg : Option Bytes}
    {stream : Option (S × ℕ)}
    (hrun : (ManagesieveSessionOpen.machine lib).Run (.new transport sasl opts) es s arg)
    (hshown : Shown (ε := ε) (io.lossy n) none es stream) :
    (es = [] ∧ stream = none) ∨ ∃ opened es', es = connected transport :: es' ∧ OpensNone es' ∧
      io.transport (ε := ε).write none (.connect transport) = (.ok (), some opened) ∧
      Shown (ε := ε) (io.lossy n) (some (opened, n)) es' stream := by
  rcases ManagesieveSessionOpen.opens_first hrun with rfl | ⟨es', rfl, hnone⟩
  · cases hshown
    exact .inl ⟨rfl, rfl⟩
  · refine .inr ?_
    cases hshown with
    | ask hy _ => cases hy.symm.trans (isRead_connect transport)
    | write _ hwrite h =>
      rw [lossy_connect] at hwrite
      obtain ⟨opened, hopened⟩ := exists_connect (congrArg Prod.fst hwrite)
      rw [hopened] at hwrite
      cases hwrite
      exact ⟨opened, es', rfl, hnone, hopened, h⟩

theorem length_le_length_flatten {α : Type*} {cs : List (List α)} (h : [] ∉ cs) :
    cs.length ≤ cs.flatten.length := by
  induction cs with
  | nil => exact Nat.le_refl 0
  | cons c cs ih =>
    obtain ⟨hc, hcs⟩ := not_or.1 (mt List.mem_cons.2 h)
    have hpos := List.length_pos_iff.2 (Ne.symm hc)
    have hle := ih hcs
    rw [List.flatten_cons, List.length_append, List.length_cons]
    omega

/-- A client returns whose streams are lost. -/
theorem lossy_returns (lib : Libraries) (io : Io S ι τ) (n : ℕ)
    (transport : ManagesieveSessionTransport) (sasl : Option (Sasl ε))
    (opts : ManagesieveSessionOpenOptions) :
    ∃ r, EndsWith lib (io.lossy n) transport sasl opts (.returned r) := by
  refine (returns_iff_fed lib (io.lossy n) transport sasl opts).2 ⟨n + 1, ?_⟩
  rintro ⟨es, s, arg, stream, hrun, hserves, hlen, hne⟩
  rcases lossy_opened hrun hserves with ⟨rfl, -⟩ | ⟨opened, es', rfl, hnone, -, hshown⟩
  · cases hlen
  · obtain ⟨s', k', -, hk⟩ := lossy_left hnone hshown
    have hle : (fedOf es').length ≤ (fedOf es').flatten.length := length_le_length_flatten hne
    rw [connected, fedOf_yielded] at hlen
    omega

end Io

namespace Host

variable {ε ι τ St : Type} {lib : Libraries} {host : Host St} {cut cut' : ℕ → ℕ}

/-- The stream with some octets before those that it holds. -/
def holding (lost : Bytes) (conn : Connection St) : Connection St :=
  { conn with outbox := lost ++ conn.outbox }

/-- A read of a stream of which some octets do not arrive is a read of the whole stream, cut where
they are missing. -/
theorem read_of_lossy (lib : Libraries) (host : Host St) {conn : Connection St} {k : ℕ}
    {c : Bytes} (hc : (conn.outbox.take (Listener.quantum cut conn.clock)).take k = c)
    (hne : c ≠ []) (hcut : cut' conn.clock = c.length) :
    ∃ lost, ((host.io lib ι τ cut').transport (ε := ε)).read (some conn) =
        (.ok c, some (holding lost { conn with
          outbox := conn.outbox.drop (Listener.quantum cut conn.clock)
          clock := conn.clock + 1 })) ∧
      (0 < k - (conn.outbox.take (Listener.quantum cut conn.clock)).length → lost = []) := by
  have hpos := List.length_pos_iff.2 hne
  have hle : c.length ≤ (conn.outbox.take (Listener.quantum cut conn.clock)).length := by
    rw [← hc]
    exact List.length_take_le' k _
  have hprefix : c <+: conn.outbox := by
    rw [← hc]
    exact (List.take_prefix k _).trans (List.take_prefix _ _)
  -- the read is as long as what arrived
  have hquantum : Listener.quantum cut' conn.clock = c.length := by
    have hbuffer := Listener.quantum_le cut conn.clock
    rw [List.length_take] at hle
    unfold Listener.quantum at hle hbuffer ⊢
    rw [hcut]
    omega
  have htake : conn.outbox.take c.length = c := (List.prefix_iff_eq_take.1 hprefix).symm
  have hdrop : conn.outbox.drop c.length =
      (conn.outbox.take (Listener.quantum cut conn.clock)).drop c.length ++
        conn.outbox.drop (Listener.quantum cut conn.clock) := by
    rw [← List.drop_append_of_le_length hle, List.take_append_drop]
  refine ⟨(conn.outbox.take (Listener.quantum cut conn.clock)).drop c.length, ?_, fun hk => ?_⟩
  · change (Except.ok (conn.outbox.take (Listener.quantum cut' conn.clock)),
      some { conn with
        outbox := conn.outbox.drop (Listener.quantum cut' conn.clock)
        clock := conn.clock + 1 }) = _
    rw [hquantum, htake, hdrop]
    rfl
  · rw [List.drop_eq_nil_iff, ← hc]
    simp only [List.length_take] at hk ⊢
    omega

/-- What a stream served of which some octets did not arrive, the whole stream serves when it is cut
where they are missing. -/
theorem shown_of_lossy {n k : ℕ} {conn : Connection St} {es : List SessionEvent}
    {stream : Option (Connection St × ℕ)} {lost : Bytes} (hnone : Io.OpensNone es)
    (h : ManagesieveClientStd.Shown (ε := ε) ((host.io lib ι τ cut).lossy n) (some (conn, k)) es
      stream) (hne : [] ∉ fedOf es)
    (hcut : ∀ i c, (fedOf es)[i]? = some c → cut' (conn.clock + i) = c.length)
    (hlost : 0 < k → lost = []) :
    ∃ conn' k' lost', stream = some (conn', k') ∧
      ManagesieveClientStd.Shown (ε := ε) (host.io lib ι τ cut') (some (holding lost conn)) es
        (some (holding lost' conn')) := by
  induction es generalizing conn k lost with
  | nil =>
    cases h
    exact ⟨conn, k, lost, rfl, .nil⟩
  | cons e es ih =>
    cases h with
    | ask hy h =>
      obtain ⟨conn', k', lost', hstream, hshown⟩ := ih hnone.tail h hne hcut hlost
      exact ⟨conn', k', lost', hstream, .ask hy hshown⟩
    | @write _ y _ _ _ hy hwrite h =>
      rw [Io.lossy_write _ n hnone.ne_connect] at hwrite
      cases y with
      | wantsTcpConnect name port => exact absurd rfl (hnone.ne_connect (.tcp name port))
      | wantsTlsConnect name port => exact absurd rfl (hnone.ne_connect (.tls name port))
      | wantsUnixConnect path => exact absurd rfl (hnone.ne_connect (.unix path))
      | wantsRead => cases hy
      | wantsTlsUpgrade =>
        cases hwrite
        have hnil : 0 < k → ([] : Bytes) = [] := fun _ => rfl
        obtain ⟨conn', k', lost', hstream, hshown⟩ := ih hnone.tail h hne hcut hnil
        exact ⟨conn', k', lost', hstream, .write hy rfl hshown⟩
      | wantsWrite bytes =>
        cases hwrite
        obtain ⟨conn', k', lost', hstream, hshown⟩ := ih hnone.tail h hne hcut hlost
        refine ⟨conn', k', lost', hstream, .write hy ?_ hshown⟩
        simp [Io.transport, Host.io, Listener.stream, holding, Except.map]
    | @fed _ c _ _ _ hread h =>
      rw [fedOf_fed, List.mem_cons, not_or] at hne
      rw [Io.lossy_read] at hread
      obtain ⟨hc, hst⟩ := Prod.mk.inj hread
      obtain ⟨lost', hread', hlost'⟩ := read_of_lossy (ε := ε) (ι := ι) (τ := τ) lib host
        (Except.ok.inj hc) (Ne.symm hne.1) (hcut 0 c (by simp))
      subst hst
      have hk : 0 < k := by
        rcases Nat.eq_zero_or_pos k with rfl | hk
        · exact absurd (Except.ok.inj hc) hne.1
        · exact hk
      obtain rfl := hlost hk
      obtain ⟨conn', k', lost'', hstream, hshown⟩ := ih hnone.tail h hne.2
        (fun i c' hi => by
          rw [Nat.add_assoc, Nat.add_comm 1 i]
          exact hcut (i + 1) c' (by simpa using hi)) hlost'
      exact ⟨conn', k', lost'', hstream, .fed hread' hshown⟩

section Connect

open ManagesieveClientStd

variable {sasl : Option (Sasl ε)} {opts : ManagesieveSessionOpenOptions}
  {transport : ManagesieveSessionTransport} {n : ℕ}

/-- Where a session got to over streams that may be lost, it gets to over the whole ones. -/
theorem exists_shown_of_lossy {es : List SessionEvent} {s : ManagesieveSessionOpen ε}
    {arg : Option Bytes} {conn : Connection St × ℕ}
    (hrun : (ManagesieveSessionOpen.machine lib).Run (.new transport sasl opts) es s arg)
    (hshown : Shown (ε := ε) ((host.io lib ι τ cut).lossy n) none es (some conn))
    (hne : [] ∉ fedOf es) : ∃ cut' conn' k lost, conn = (conn', k) ∧ k ≤ n ∧
      Shown (ε := ε) (host.io lib ι τ cut') none es (some (holding lost conn')) := by
  rcases Io.lossy_opened hrun hshown with ⟨-, hconn⟩ | ⟨opened, es', rfl, hnone, hopen, hshown'⟩
  · cases hconn
  · -- the reads are as long as what arrived
    let cut' : ℕ → ℕ := fun i => ((fedOf es')[i - opened.clock]?.getD []).length
    have hcut : ∀ i c, (fedOf es')[i]? = some c → cut' (opened.clock + i) = c.length :=
      fun i c hi => by simp [cut', hi]
    have hnil : 0 < n → ([] : Bytes) = [] := fun _ => rfl
    obtain ⟨conn', k, lost, hconn, hwhole⟩ := shown_of_lossy (ε := ε) hnone hshown' hne hcut hnil
    obtain ⟨conn'', m, hconn', hk⟩ := Io.lossy_left hnone hshown'
    cases hconn
    cases hconn'
    have hconnect : ((host.io lib ι τ cut').transport (ε := ε)).write none (.connect transport) =
        (.ok (), some opened) := by
      rw [← hopen]
      cases transport <;> rfl
    exact ⟨cut', conn', k, lost, rfl, by omega,
      .write (Io.isRead_connect transport) hconnect hwhole⟩

/-- Nothing is left on a stream on which nothing is left with some octets before. -/
theorem idle_of_holding {lost : Bytes} {conn : Connection St} {st : St} {clock : ℕ}
    (h : holding lost conn = .idle st clock) : conn = .idle st clock := by
  obtain ⟨server, inbox, outbox, clock'⟩ := conn
  simp only [holding, Connection.idle, Connection.mk.injEq, List.append_eq_nil_iff] at h ⊢
  exact ⟨h.1, h.2.1, h.2.2.1.2, h.2.2.2⟩

/-- A connection that was returned over streams that may be lost is the one that the two sides come
to, with everything read that arrived. -/
theorem opened_of_lossy (h : Function.Injective lib.asStr) (hsasl : ∀ creds ∈ sasl, creds.Fits lib)
    {conn : Connection St × ℕ} {capabilities : ManagesieveCapabilities}
    (hends : EndsWith lib ((host.io lib ι τ cut).lossy n) transport sasl opts
      (.returned (.ok (conn, capabilities)))) :
    ∃ data st clock m, m ≤ n ∧ host.opening lib transport sasl opts () (.ok (data, st)) ∧
      capabilities = data.capabilities ∧ conn = (.idle st clock, m) := by
  obtain ⟨es, s, arg, s', hrun, hshown, hr⟩ := endsWith_ok_iff.1 hends
  have hne := (ManagesieveSessionOpen.heeds (ε := ε) lib).nil_notMem_fed
    (ManagesieveSessionOpen.attends_new transport sasl opts) hrun hr
  obtain ⟨cut', conn', k, lost, hconn, hk, hwhole⟩ := exists_shown_of_lossy hrun hshown hne
  cases hconn
  obtain ⟨r, hopening, hopened⟩ :=
    opened_of_endsWith h hsasl (endsWith_ok_iff.2 ⟨es, s, arg, s', hrun, hwhole, hr⟩)
  rcases r with err | ⟨data, st⟩
  · cases hopened
  · obtain ⟨clock, heq⟩ := hopened
    simp only [Outcome.returned.injEq, Except.ok.injEq, Prod.mk.injEq] at heq
    obtain ⟨hidle, hcapabilities⟩ := heq
    exact ⟨data, st, clock, k, hk, hopening, hcapabilities,
      congrArg (·, k) (idle_of_holding hidle)⟩

/-- A connection that the two sides come to is returned when enough octets arrive. -/
theorem lossy_of_opened (h : Function.Injective lib.asStr) (cut : ℕ → ℕ)
    (hsasl : ∀ creds ∈ sasl, creds.Fits lib) {data : ManagesieveSessionOpenData} {st : St}
    (hopening : host.opening lib transport sasl opts () (.ok (data, st))) :
    ∃ k clock, ∀ m, EndsWith lib ((host.io lib ι τ cut).lossy (k + m)) transport sasl opts
      (.returned (.ok ((.idle st clock, m), data.capabilities))) := by
  obtain ⟨out, hends, clock, rfl⟩ := exists_opened (ι := ι) (τ := τ) h cut hsasl hopening
  obtain ⟨es, s, arg, s', hrun, hshown, hr⟩ := endsWith_ok_iff.1 hends
  rcases ManagesieveSessionOpen.opens_first hrun with rfl | ⟨es', rfl, hnone⟩
  · cases hshown
  · cases hshown with
    | ask hy _ => cases hy.symm.trans (Io.isRead_connect transport)
    | write hy hconnect hshown =>
      obtain ⟨opened, hopened⟩ := Io.exists_connect (congrArg Prod.fst hconnect)
      rw [hopened] at hconnect
      cases hconnect
      refine ⟨(fedOf es').flatten.length, clock, fun m => endsWith_ok_iff.2
        ⟨_, s, arg, s', hrun, .write hy ?_ (Io.lossy_shown hnone hshown m), hr⟩⟩
      rw [Io.lossy_connect, hopened]
      rfl

/-- **A session whose streams are lost.** Of the streams to a host, however they are cut, only so
many octets arrive. `connect` returns; it returns no connection but the one that the session and the
host come to when they deal with each other directly, over which a program comes to what it comes to
when every method asks the host, until the octets are used up; and when enough of them arrive it
does return that connection. -/
theorem session_lost {R : Type*} (h : Function.Injective lib.asStr) (host : Host St)
    (cut : ℕ → ℕ) (hsasl : ∀ creds ∈ sasl, creds.Fits lib)
    (transport : ManagesieveSessionTransport) (opts : ManagesieveSessionOpenOptions)
    {program : ManagesieveCapabilities → Program ε ι R}
    (hfits : ∀ capabilities, (program capabilities).Fits lib) :
    let Comes (n : ℕ) (r : R) : Prop := ∃ capabilities conn conn',
      EndsWith lib ((host.io lib ι τ cut).lossy n) transport sasl opts
        (.returned (.ok (conn, capabilities))) ∧
      Program.Runs ((host.listen lib).stream ι cut).lossy (program capabilities) conn (r, conn')
    (∀ n, ∃ r, EndsWith lib ((host.io lib ι τ cut).lossy n) transport sasl opts (.returned r)) ∧
    (∀ n r, Comes n r → ∃ data st m, m ≤ n ∧
      host.opening lib transport sasl opts () (.ok (data, st)) ∧
      r = (program data.capabilities).execLost host.toServer st m) ∧
    ∀ data st, host.opening lib transport sasl opts () (.ok (data, st)) →
      ∃ k, ∀ m, Comes (k + m) ((program data.capabilities).execLost host.toServer st m) := by
  intro Comes
  have hexec := fun capabilities st clock m =>
    Program.runs_execLost (ι := ι) h (host.answers_listen lib) cut (hfits capabilities) st clock m
  refine ⟨fun n => Io.lossy_returns lib _ n transport sasl opts, ?_, fun data st hopening => ?_⟩
  · rintro n r ⟨capabilities, conn, conn', hends, hruns⟩
    obtain ⟨data, st, clock, m, hm, hopening, rfl, rfl⟩ := opened_of_lossy h hsasl hends
    obtain ⟨conn'', hexec⟩ := hexec data.capabilities st clock m
    cases hruns.unique hexec
    exact ⟨data, st, m, hm, hopening, rfl⟩
  · obtain ⟨k, clock, hends⟩ := lossy_of_opened (ι := ι) (τ := τ) h cut hsasl hopening
    refine ⟨k, fun m => ?_⟩
    obtain ⟨conn', hruns⟩ := hexec data.capabilities st clock m
    exact ⟨data.capabilities, _, conn', hends m, hruns⟩

/-- PLAIN after an upgrade, over streams that are lost right after it: NOOP says so. -/
theorem session_lost_noop :
    let program (_ : ManagesieveCapabilities) : Program Unit Unit
        (Except (ManagesieveClientCallError Unit Unit) (Option String)) :=
      .call (.noop none) .done
    ∃ k capabilities conn conn',
      EndsWith .standard ((staged.io .standard Unit Unit fun _ => 3).lossy k)
        (.tcp "localhost" 4190) (some plainCredentials) ⟨true, false⟩
        (.returned (.ok (conn, capabilities))) ∧
      Program.Runs ((staged.listen .standard).stream Unit fun _ => 3).lossy (program capabilities)
        conn (.error (.noop (.send .eof)), conn') := by
  intro program
  have hfits : ∀ capabilities, (program capabilities).Fits .standard :=
    fun capabilities => ⟨by decide +kernel, fun _ => trivial⟩
  have hsession := session_lost (τ := Unit) Libraries.standard_asStr_injective staged (fun _ => 3)
    fits_plainCredentials (.tcp "localhost" 4190) ⟨true, false⟩ hfits
  obtain ⟨k, hcomes⟩ := hsession.2.2 _ _ opening_staged
  obtain ⟨capabilities, conn, conn', hends, hruns⟩ := hcomes 0
  have hlost : (program ⟨Stage.lines .signedIn⟩).execLost staged.toServer .signedIn 0 =
      .error (.noop (.send .eof)) := by
    decide +kernel
  rw [hlost] at hruns
  exact ⟨k + 0, capabilities, conn, conn', hends, hruns⟩

end Connect

end Host

end ManageSieve
