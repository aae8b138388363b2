import Mathlib.Data.List.Induction
import NseHft.Lib.Machine
import NseHft.OrderManager.NnfEncoder

/-!
# NNF session

Login, heartbeat, sign-off and reconnect as a state machine. The encoders write into the
caller's buffer; responses and disconnects are reported by the caller in any order.
-/
namespace NseHft

open FixedWidth

def kErrOrderNotFound : Int := 16444
def kErrPriceOutOfRange : Int := 16445

inductive SessionState where
  | disconnected
  | signOnSent
  | ready
  | signOffSent
  | closed
  deriving DecidableEq, Repr

inductive ErrorAction where
  | none
  | ignore
  | alert
  deriving DecidableEq, Repr

def kHeartbeatIntervalNs : Nat := 30 * kNsPerSecond
def kReconnectWindowNs : Nat := 5 * kNsPerSecond

structure NnfSession where
  encoder : NnfEncoder := {}
  state : SessionState := .disconnected
  traderId : Int := 0
  password : Option (List UInt8) := none
  outSeq : Nat := 0
  lastSendNs : Nat := 0
  disconnectNs : Nat := 0

namespace NnfSession

def configure (s : NnfSession) (traderId : Int) (alpha0 alpha1 : UInt8)
    (password : Option (List UInt8)) : NnfSession :=
  { s with
    encoder := { s.encoder with traderId := traderId }.setAlphaChar alpha0 alpha1
    traderId := traderId
    password := password }

def startLogin (s : NnfSession) (buf : Buffer) (now : Nat) : (Nat × Buffer) × NnfSession :=
  (s.encoder.encodeSignOn buf s.password now, { s with state := .signOnSent, lastSendNs := now })

/-- The state in which the response arrives is not looked at. -/
def onSignOnResponse (s : NnfSession) (error : Int) (assignedSeq : Nat) : NnfSession :=
  if error = 0 then { s with state := .ready, outSeq := assignedSeq }
  else { s with state := .disconnected }

def startLogout (s : NnfSession) (buf : Buffer) (now : Nat) : (Nat × Buffer) × NnfSession :=
  (s.encoder.encodeSignOff buf now, { s with state := .signOffSent, lastSendNs := now })

def onSignOffResponse (s : NnfSession) : NnfSession := { s with state := .closed }

def onDisconnect (s : NnfSession) (now : Nat) : NnfSession :=
  { s with state := .disconnected, disconnectNs := now }

def shouldReconnect (s : NnfSession) (now : Nat) : Bool :=
  s.state == .disconnected && s.disconnectNs != 0 &&
    decide (u64Sub now s.disconnectNs ≤ kReconnectWindowNs)

def shouldHeartbeat (s : NnfSession) (now : Nat) : Bool :=
  s.state == .ready && decide (u64Sub now s.lastSendNs ≥ kHeartbeatIntervalNs)

def makeHeartbeat (s : NnfSession) (buf : Buffer) (now : Nat) : (Nat × Buffer) × NnfSession :=
  (s.encoder.encodeHeartbeat buf now, { s with lastSendNs := now })

def noteSend (s : NnfSession) (now : Nat) : NnfSession :=
  { s with lastSendNs := now, outSeq := u64 (s.outSeq + 1) }

def classifyError (code : Int) : ErrorAction :=
  if code = kErrOrderNotFound then .ignore
  else if code = kErrPriceOutOfRange then .alert
  else if code ≠ 0 then .alert else .none

def isReady (s : NnfSession) : Bool := s.state == .ready

/-! ### Runs -/

/-- The calls that change a session. -/
inductive Call where
  | configure (traderId : Int) (alpha0 alpha1 : UInt8) (password : Option (List UInt8))
  | startLogin (buf : Buffer) (now : Nat)
  | onSignOnResponse (error : Int) (assignedSeq : Nat)
  | startLogout (buf : Buffer) (now : Nat)
  | onSignOffResponse
  | onDisconnect (now : Nat)
  | makeHeartbeat (buf : Buffer) (now : Nat)
  | noteSend (now : Nat)

/-- One call, with the message it encodes. -/
def step (s : NnfSession) : Call → Option (Nat × Buffer) × NnfSession
  | .configure traderId alpha0 alpha1 password =>
    (none, s.configure traderId alpha0 alpha1 password)
  | .startLogin buf now => (some (s.startLogin buf now).1, (s.startLogin buf now).2)
  | .onSignOnResponse error assignedSeq => (none, s.onSignOnResponse error assignedSeq)
  | .startLogout buf now => (some (s.startLogout buf now).1, (s.startLogout buf now).2)
  | .onSignOffResponse => (none, s.onSignOffResponse)
  | .onDisconnect now => (none, s.onDisconnect now)
  | .makeHeartbeat buf now => (some (s.makeHeartbeat buf now).1, (s.makeHeartbeat buf now).2)
  | .noteSend now => (none, s.noteSend now)

/-- A fresh session after a list of calls. -/
def run (calls : List Call) : NnfSession := Machine.after step {} calls

namespace Call

def isLogin : Call → Bool
  | startLogin .. => true
  | _ => false

/-- A sign-on response without an error. -/
def signsOn : Call → Bool
  | onSignOnResponse error _ => error == 0
  | _ => false

/-- A disconnect, a logout, the end of a logout or a failed sign-on. -/
def signsOff : Call → Bool
  | onSignOnResponse error _ => error != 0
  | startLogout .. | onSignOffResponse | onDisconnect _ => true
  | _ => false

/-- Neither a new login nor the end of one. -/
def keepsLogin (call : Call) : Bool := !call.isLogin && !call.signsOff

end Call

/-- The last login of the calls was not ended since. -/
def LoginPending (calls : List Call) : Prop :=
  ∃ before login since, calls = before ++ login :: since ∧ login.isLogin = true ∧
    ∀ call ∈ since, call.keepsLogin = true

/-- The last login of the calls was accepted and not ended since. -/
def LoggedIn (calls : List Call) : Prop :=
  ∃ before login since, calls = before ++ login :: since ∧ login.isLogin = true ∧
    (∀ call ∈ since, call.keepsLogin = true) ∧ ∃ call ∈ since, call.signsOn = true

/-! ### One more call -/

section Snoc

variable (calls : List Call) (call : Call)

theorem run_snoc : run (calls ++ [call]) = ((run calls).step call).2 := by
  rw [run, Machine.after_append]
  rfl

/-- What a call leaves of the readiness of a session, whatever its state. -/
theorem step_isReady (s : NnfSession) :
    (s.step call).2.isReady = (call.signsOn || (s.isReady && call.keepsLogin)) := by
  cases call with
  | onSignOnResponse error assignedSeq =>
    by_cases accepted : error = 0
    · simp [step, NnfSession.onSignOnResponse, accepted, isReady, Call.signsOn]
    · have failed : (error == 0) = false := beq_eq_false_iff_ne.mpr accepted
      simp [step, NnfSession.onSignOnResponse, accepted, isReady, Call.signsOn, Call.keepsLogin,
        Call.signsOff, bne, failed]
  | configure | makeHeartbeat | noteSend =>
    simp [step, NnfSession.configure, NnfSession.makeHeartbeat, NnfSession.noteSend, isReady,
      Call.signsOn, Call.keepsLogin, Call.isLogin, Call.signsOff]
  | startLogin | startLogout | onSignOffResponse | onDisconnect =>
    simp [step, NnfSession.startLogin, NnfSession.startLogout, NnfSession.onSignOffResponse,
      NnfSession.onDisconnect, isReady, Call.signsOn, Call.keepsLogin, Call.isLogin, Call.signsOff]

theorem LoggedIn.pending {calls : List Call} (logged : LoggedIn calls) : LoginPending calls := by
  obtain ⟨before, login, since, split, isLogin, kept, _⟩ := logged
  exact ⟨before, login, since, split, isLogin, kept⟩

/-- A pending login is accepted by a response without an error. -/
theorem LoginPending.signsOn {calls : List Call} {call : Call} (pending : LoginPending calls)
    (accepted : call.signsOn = true) : LoggedIn (calls ++ [call]) := by
  obtain ⟨before, login, since, rfl, isLogin, kept⟩ := pending
  have keeps : call.keepsLogin = true := by
    cases call <;> simp_all [Call.signsOn, Call.keepsLogin, Call.isLogin, Call.signsOff]
  refine ⟨before, login, since ++ [call], by simp, isLogin, ?_, call, by simp, accepted⟩
  intro other member
  rcases List.mem_append.mp member with old | new
  · exact kept other old
  · rwa [List.mem_singleton.mp new]

theorem LoggedIn.keeps {calls : List Call} {call : Call} (logged : LoggedIn calls)
    (keeps : call.keepsLogin = true) : LoggedIn (calls ++ [call]) := by
  obtain ⟨before, login, since, rfl, isLogin, kept, response, received, accepted⟩ := logged
  refine ⟨before, login, since ++ [call], by simp, isLogin, ?_, response, by simp [received], accepted⟩
  intro other member
  rcases List.mem_append.mp member with old | new
  · exact kept other old
  · rwa [List.mem_singleton.mp new]

/-- A login that is accepted by the end was pending before the last call. -/
theorem LoggedIn.pending_before {calls : List Call} {call : Call}
    (logged : LoggedIn (calls ++ [call])) : LoginPending calls := by
  obtain ⟨before, login, since, split, isLogin, kept, response, received, _⟩ := logged
  -- the response stands behind the login, so the last call is not the login
  rcases List.eq_nil_or_concat since with rfl | ⟨rest, last, rfl⟩
  · simp at received
  · rw [List.concat_eq_append, ← List.cons_append, ← List.append_assoc] at split
    obtain ⟨rfl, _⟩ := List.append_inj' split rfl
    refine ⟨before, login, rest, rfl, isLogin, ?_⟩
    intro other member
    exact kept other (by simp [member])

end Snoc

/-- Along a run the session is ready only after an accepted login exactly if every sign-on
response without an error answers a login that is still pending. -/
theorem ready_only_if_logged_in_iff (calls : List Call) :
    (∀ before rest, calls = before ++ rest → (run before).isReady = true → LoggedIn before) ↔
      ∀ before response rest, calls = before ++ response :: rest → response.signsOn = true →
        LoginPending before := by
  constructor
  · intro sound before response rest split accepted
    -- the response alone makes the session ready
    have ready : (run (before ++ [response])).isReady = true := by
      rw [run_snoc, step_isReady, accepted, Bool.true_or]
    exact (sound (before ++ [response]) rest (by simp [split]) ready).pending_before
  · intro answered before
    -- from one call to the next, along the run
    induction before using List.reverseRecOn with
    | nil =>
      intro rest _ ready
      simp [run, Machine.after, isReady] at ready
    | append_singleton before call ih =>
      intro rest split ready
      rw [run_snoc, step_isReady, Bool.or_eq_true, Bool.and_eq_true] at ready
      have split' : calls = before ++ call :: rest := by simp [split]
      rcases ready with accepted | ⟨ready, keeps⟩
      · exact (answered before call rest split' accepted).signsOn accepted
      · exact (ih (call :: rest) split' ready).keeps keeps

/-- A login that is accepted at once. -/
theorem accepted_login_ready :
    (run [.startLogin [] 1, .onSignOnResponse 0 7, .noteSend 3]).isReady = true ∧
      LoggedIn [.startLogin [] 1, .onSignOnResponse 0 7, .noteSend 3] := by
  have ready : (run [.startLogin [] 1, .onSignOnResponse 0 7, .noteSend 3]).isReady = true := rfl
  refine ⟨ready, (ready_only_if_logged_in_iff
    [.startLogin [] 1, .onSignOnResponse 0 7, .noteSend 3]).mpr ?_ _ [] (by simp) ready⟩
  intro before response rest split accepted
  rcases before with _ | ⟨first, _ | ⟨second, _ | ⟨third, _⟩⟩⟩ <;> simp at split
  · rw [← split.1] at accepted
    simp [Call.signsOn] at accepted
  · exact ⟨[], first, [], rfl, by rw [← split.1]; rfl, by simp⟩
  · rw [← split.2.2.1] at accepted
    simp [Call.signsOn] at accepted

/-- The response to a login arrives after the connection was lost: the session counts as
ready on a dead connection. -/
theorem late_response_makes_ready :
    (run [.startLogin [] 1, .onDisconnect 2, .onSignOnResponse 0 7]).isReady = true ∧
      ¬ LoggedIn [.startLogin [] 1, .onDisconnect 2, .onSignOnResponse 0 7] := by
  refine ⟨rfl, ?_⟩
  rintro ⟨before, login, since, split, isLogin, kept, _⟩
  rcases before with _ | ⟨first, _ | ⟨second, _ | ⟨third, _⟩⟩⟩ <;> simp at split
  · simp [← split.2, Call.keepsLogin, Call.signsOff] at kept
  · simp [← split.2.1, Call.isLogin] at isLogin
  · simp [← split.2.2.1, Call.isLogin] at isLogin

end NnfSession

end NseHft
