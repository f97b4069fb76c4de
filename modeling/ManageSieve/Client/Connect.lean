import ManageSieve.Session.Order
import ManageSieve.Session.Returns

/-!
# The client that opens a session

`client/connect.rs`: the loop that answers the requests of the session-opening coroutine with a
stream. It holds no stream until the coroutine asked for a connection, and has an error for a
request that would come before that. `ManagesieveClientStd.connect_inOrder` says that the steps of a
session come in order, and that this error is never returned.
-/

namespace ManageSieve

open Coroutine

variable {ε S ι τ : Type*}

/-- The bytes that one read may fill. -/
def readBufferSize : ℕ := 16 * 1024

/-- What one read put into the buffer. -/
abbrev ReadBuffer := { bytes : Bytes // bytes.length ≤ readBufferSize }

/-- How the streams `S` answer in one turn of the loop. -/
structure Io (S ι τ : Type*) where
  connectTcp : String → UInt16 → Except τ S
  connectTls : String → UInt16 → Except τ S
  connectUnix : String → Except τ S
  upgradeTls : S → Except τ S
  read : S → Except ι (ReadBuffer × S)
  writeAll : S → Bytes → Except ι S

/-- The errors that `connect` returns. -/
inductive ManagesieveClientError (ε ι τ : Type*)
  | sessionOpen (err : ManagesieveSessionOpenError ε)
  | io (err : ι)
  | tls (err : τ)
  /-- The session yielded I/O before connecting. -/
  | missing

namespace ManagesieveClientStd

/-- The variables of the loop. -/
structure Connecting (ε S : Type*) where
  session : ManagesieveSessionOpen ε
  stream : Option S
  arg : Option Bytes

/-- How `connect` ends: it returns, or the session unwinds. -/
inductive Outcome (ε S ι τ : Type*)
  | returned (r : Except (ManagesieveClientError ε ι τ) (S × ManagesieveCapabilities))
  | panicked (msg : String)

/-- What a turn of the loop decides. -/
abbrev Step (ε S ι τ : Type*) := Turn (Connecting ε S) (Outcome ε S ι τ)

/-- Return an error. -/
def Step.fail (err : ManagesieveClientError ε ι τ) : Step ε S ι τ := .done (.returned (.error err))

namespace Connecting

/-- The loop at its start. -/
def new (transport : ManagesieveSessionTransport) (sasl : Option (Sasl ε))
    (opts : ManagesieveSessionOpenOptions) : Connecting ε S :=
  ⟨.new transport sasl opts, none, none⟩

/-- Go on with the stream that was opened or upgraded. -/
def opened (self : Connecting ε S) : Except τ S → Step ε S ι τ
  | .error err => .fail (.tls err)
  | .ok stream => .again { self with stream := some stream }

/-- Go on with the stream, which is there unless a request came before the connection. -/
def withStream (self : Connecting ε S) (f : S → Step ε S ι τ) : Step ε S ι τ :=
  match self.stream with
  | none => .fail .missing
  | some stream => f stream

/-- Answer a request. -/
def answer (io : Io S ι τ) (self : Connecting ε S) : ManagesieveSessionOpenYield → Step ε S ι τ
  | .wantsTcpConnect host port => self.opened (io.connectTcp host port)
  | .wantsTlsConnect host port => self.opened (io.connectTls host port)
  | .wantsUnixConnect path => self.opened (io.connectUnix path)
  | .wantsTlsUpgrade => self.withStream fun plain => self.opened (io.upgradeTls plain)
  | .wantsRead => self.withStream fun stream =>
    match io.read stream with
    | .error err => .fail (.io err)
    | .ok (buf, stream) => .again { self with stream := some stream, arg := some buf.1 }
  | .wantsWrite bytes => self.withStream fun stream =>
    match io.writeAll stream bytes with
    | .error err => .fail (.io err)
    | .ok stream => .again { self with stream := some stream }

/-- One turn of the loop of `connect`. -/
def turn (lib : Libraries) (io : Io S ι τ) (self : Connecting ε S) : Step ε S ι τ :=
  let (out, session) := (ManagesieveSessionOpen.machine lib).resume self.session self.arg
  let self := { self with session, arg := none }
  match out with
  | .complete (.error err) => .fail (.sessionOpen err)
  | .complete (.ok data) =>
    self.withStream fun stream => .done (.returned (.ok (stream, data.capabilities)))
  | .panicked msg => .done (.panicked msg)
  | .yielded y => self.answer io y

end Connecting

/-- Where the loop comes to, however the streams answer in each turn. -/
inductive Reached (lib : Libraries) (ι τ : Type*) (s₀ : Connecting ε S) : Connecting ε S → Prop
  | start : Reached lib ι τ s₀ s₀
  | turn {s s' : Connecting ε S} (io : Io S ι τ) (h : Reached lib ι τ s₀ s)
      (ht : s.turn lib io = .again s') : Reached lib ι τ s₀ s'

/-! ## The connection comes first -/

/-- The stream is open, unless the session has not begun. -/
structure Connected (transport : ManagesieveSessionTransport) (sasl : Option (Sasl ε))
    (opts : ManagesieveSessionOpenOptions) (s : Connecting ε S) : Prop where
  standing : s.session.Standing
  stream : s.stream.isSome ∨ s.session = .new transport sasl opts

variable {lib : Libraries} {transport : ManagesieveSessionTransport} {sasl : Option (Sasl ε)}
variable {opts : ManagesieveSessionOpenOptions}

/-- A turn goes on with the connection in its place, or returns something else than the error of a
request that came before it. -/
def Sound (transport : ManagesieveSessionTransport) (sasl : Option (Sasl ε))
    (opts : ManagesieveSessionOpenOptions) : Step ε S ι τ → Prop
  | .again s => Connected transport sasl opts s
  | .done (.returned r) => r ≠ .error .missing
  | .done (.panicked _) => False

theorem connected_new :
    Connected transport sasl opts (.new transport sasl opts : Connecting ε S) where
  standing := by rintro _ ⟨⟩
  stream := Or.inr rfl

theorem sound_opened {s : Connecting ε S} (h : s.session.Standing) (r : Except τ S) :
    Sound transport sasl opts (s.opened r : Step ε S ι τ) := by
  cases r with
  | error err => exact fun h => by cases h
  | ok stream => exact ⟨h, Or.inl rfl⟩

theorem sound_withStream {s : Connecting ε S} (h : s.stream.isSome) {f : S → Step ε S ι τ}
    (hf : ∀ stream, Sound transport sasl opts (f stream)) :
    Sound transport sasl opts (s.withStream f) := by
  obtain ⟨stream, hs⟩ := Option.isSome_iff_exists.1 h
  unfold Connecting.withStream
  rw [hs]
  exact hf stream

/-- A request is answered once the stream is open. -/
theorem sound_answer (io : Io S ι τ) {s : Connecting ε S} (h : s.session.Standing)
    (hs : s.stream.isSome) (y : ManagesieveSessionOpenYield) :
    Sound transport sasl opts (s.answer io y) := by
  cases y with
  | wantsTcpConnect host port => exact sound_opened h _
  | wantsTlsConnect host port => exact sound_opened h _
  | wantsUnixConnect path => exact sound_opened h _
  | wantsTlsUpgrade => exact sound_withStream hs fun plain => sound_opened h _
  | wantsRead =>
    refine sound_withStream hs fun stream => ?_
    rcases io.read stream with err | ⟨buf, stream⟩
    · exact fun h => by cases h
    · exact ⟨h, Or.inl rfl⟩
  | wantsWrite bytes =>
    refine sound_withStream hs fun stream => ?_
    rcases io.writeAll stream bytes with err | stream
    · exact fun h => by cases h
    · exact ⟨h, Or.inl rfl⟩

/-- The request that opens the connection is answered without a stream. -/
theorem sound_answer_connect (io : Io S ι τ) {s : Connecting ε S} (h : s.session.Standing)
    (transport' : ManagesieveSessionTransport) :
    Sound transport sasl opts (s.answer io (.connect transport')) := by
  cases transport' <;> exact sound_opened h _

/-- One turn keeps the connection in its place. -/
theorem sound_turn (lib : Libraries) (io : Io S ι τ) {s : Connecting ε S}
    (h : Connected transport sasl opts s) : Sound transport sasl opts (s.turn lib io) := by
  have hsettled := ManagesieveSessionOpen.settled_resume lib h.standing s.arg
  unfold Connecting.turn
  rcases h.stream with hstream | hnew
  · rcases hr : (ManagesieveSessionOpen.machine lib).resume s.session s.arg with
      ⟨y | (err | data) | msg, session⟩ <;> rw [hr] at hsettled
    · exact sound_answer (s := ⟨session, s.stream, none⟩) io hsettled hstream y
    · exact fun h => by cases h
    · exact sound_withStream hstream fun stream h => by cases h
    · cases hsettled
  · rw [hnew] at hsettled ⊢
    by_cases hrefused : (opts.starttls && transport.isProtected) = true
    · rw [ManagesieveSessionOpen.resume_new_refused lib sasl hrefused]
      exact fun h => by cases h
    · rw [ManagesieveSessionOpen.resume_new_connect lib sasl hrefused] at hsettled ⊢
      exact sound_answer_connect (s := ⟨_, s.stream, none⟩) io hsettled transport

/-- The connection is in its place wherever the loop comes to. -/
theorem Reached.connected {s : Connecting ε S}
    (h : Reached lib ι τ (.new transport sasl opts) s) : Connected transport sasl opts s := by
  induction h with
  | start => exact connected_new
  | turn io h ht ih =>
    have hsound := sound_turn lib io ih
    rw [ht] at hsound
    exact hsound

/-- **The steps of a session come in order, and each at most once.** The client that opens one never
comes to the error of a request before the connection, however its streams answer. -/
theorem connect_inOrder (lib : Libraries) (transport : ManagesieveSessionTransport)
    (sasl : Option (Sasl ε)) (opts : ManagesieveSessionOpenOptions) :
    (∀ cs, ManagesieveSessionOpen.InOrder lib transport sasl opts
      (ManagesieveSessionOpen.run lib transport sasl opts cs).events
      (ManagesieveSessionOpen.run lib transport sasl opts cs).pause.result) ∧
    ∀ (s : Connecting ε S) (io : Io S ι τ), Reached lib ι τ (.new transport sasl opts) s →
      s.turn lib io ≠ .done (.returned (.error .missing)) := by
  refine ⟨ManagesieveSessionOpen.inOrder_run lib transport sasl opts, fun s io h hturn => ?_⟩
  have hsound := sound_turn lib io h.connected
  rw [hturn] at hsound
  exact hsound rfl

/-- A session over TCP that upgrades, and its client right after the connection. -/
theorem connect_inOrder_tcp :
    let transport := .tcp "localhost" 4190
    let opts : ManagesieveSessionOpenOptions := ⟨true, false⟩
    let io : Io Unit Unit Unit := ⟨fun _ _ => .ok (), fun _ _ => .ok (), fun _ => .ok (),
      fun _ => .ok (), fun _ => .ok (⟨asBytes "OK\r\n", by decide +kernel⟩, ()), fun _ _ => .ok ()⟩
    let s : Connecting Unit Unit :=
      ⟨{ ManagesieveSessionOpen.new transport none opts with state := .greeting .new }, some (),
        none⟩
    (∃ es, (ManagesieveSessionOpen.run .standard transport (none : Option (Sasl Unit)) opts
        [asBytes "\"STARTTLS\"\r\nOK\r\n"]).events = connected transport :: es ∧
      ∀ transport', connected transport' ∉ es) ∧
      s.turn .standard io ≠ .done (.returned (.error .missing)) := by
  intro transport opts io s
  have h := connect_inOrder (ε := Unit) (S := Unit) (ι := Unit) (τ := Unit) .standard transport none
    opts
  have hresume := ManagesieveSessionOpen.resume_new_connect .standard (none : Option (Sasl Unit))
    (show ¬ (opts.starttls && transport.isProtected) = true by decide) none
  have hturn : (Connecting.new transport none opts).turn .standard io = .again s := by
    unfold Connecting.turn Connecting.new
    rw [hresume]
    rfl
  exact ⟨(h.1 _).connects (by decide), h.2 s io (.turn io .start hturn)⟩

end ManagesieveClientStd

end ManageSieve
