import ManageSieve.Foundations.Base64
import ManageSieve.Wire.Bytes

/-!
# SASL mechanisms

What the crate uses of the SASL and base64 libraries it rests on. A mechanism is a state machine
that is resumed with what the server sent and answers with what to send. All that the framing can
see of it is its name and what it answers, so `Sasl` describes a mechanism by these: its answer to a
resume is a function of the arguments of all the resumes so far. Every state machine is described
in this way (`Sasl.ofMachine_answer`).
-/

namespace ManageSieve

/-- The tag of a SASL mechanism. -/
inductive SaslMechanism
  | anonymous
  | cramMd5
  | external
  | gs2Krb5
  | gs2Krb5Plus
  | gssapi
  | login
  | oauthBearer
  | plain
  | scramSha1
  | scramSha1Plus
  | scramSha256
  | scramSha256Plus
  | scramSha512
  | scramSha512Plus
  | xoauth2
  deriving DecidableEq

/-- What a mechanism is resumed with. -/
inductive SaslArg
  | none
  | input (data : Bytes)
  | done
  deriving DecidableEq

/-- What a mechanism asks for. -/
inductive SaslYield
  | wantsWrite (payload : Bytes)
  | wantsRead
  deriving DecidableEq

/-- What a resume of a mechanism answers. -/
inductive SaslCoroutineState (ε : Type*)
  | yielded (y : SaslYield)
  | complete (result : Except ε Unit)

/-- Credentials, by the mechanism they are for and what it answers to the last resume of a history
of resumes. -/
structure Sasl (ε : Type*) where
  mechanism : SaslMechanism
  answer : List SaslArg → SaslCoroutineState ε

/-- The state of a state machine after a history of resumes. -/
def Sasl.stateAfter {σ ε : Type*} (step : σ → SaslArg → SaslCoroutineState ε × σ) (s : σ)
    (history : List SaslArg) : σ :=
  history.foldl (fun s arg => (step s arg).2) s

/-- The description of a state machine that starts in `s`. -/
def Sasl.ofMachine {σ ε : Type*} (mechanism : SaslMechanism)
    (step : σ → SaslArg → SaslCoroutineState ε × σ) (s : σ) : Sasl ε where
  mechanism := mechanism
  answer history :=
    match history.getLast? with
    | some arg => (step (stateAfter step s history.dropLast) arg).1
    | .none => .yielded .wantsRead

/-- **Every state machine is described**: after any history of resumes, its description answers what
it answers in the state it reached. -/
theorem Sasl.ofMachine_answer {σ ε : Type*} (mechanism : SaslMechanism)
    (step : σ → SaslArg → SaslCoroutineState ε × σ) (s : σ) (history : List SaslArg)
    (arg : SaslArg) :
    (ofMachine mechanism step s).answer (history ++ [arg]) =
      (step (stateAfter step s history) arg).1 := by
  simp [ofMachine]

/-- The libraries: base64, and the names of the mechanisms, which are at most twenty octets long. -/
structure Libraries where
  base64 : Base64.Engine
  asStr : SaslMechanism → String
  length_asStr : ∀ mechanism, (asBytes (asStr mechanism)).length ≤ 20

/-- The libraries with the standard base64 engine and the registered names. -/
def Libraries.standard : Libraries where
  base64 := Base64.standard
  asStr
    | .anonymous => "ANONYMOUS"
    | .cramMd5 => "CRAM-MD5"
    | .external => "EXTERNAL"
    | .gs2Krb5 => "GS2-KRB5"
    | .gs2Krb5Plus => "GS2-KRB5-PLUS"
    | .gssapi => "GSSAPI"
    | .login => "LOGIN"
    | .oauthBearer => "OAUTHBEARER"
    | .plain => "PLAIN"
    | .scramSha1 => "SCRAM-SHA-1"
    | .scramSha1Plus => "SCRAM-SHA-1-PLUS"
    | .scramSha256 => "SCRAM-SHA-256"
    | .scramSha256Plus => "SCRAM-SHA-256-PLUS"
    | .scramSha512 => "SCRAM-SHA-512"
    | .scramSha512Plus => "SCRAM-SHA-512-PLUS"
    | .xoauth2 => "XOAUTH2"
  length_asStr mechanism := by cases mechanism <;> decide +kernel

end ManageSieve
