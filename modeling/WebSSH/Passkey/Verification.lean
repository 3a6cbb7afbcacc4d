import Mathlib.Logic.Function.Basic
import WebSSH.Lib.System

/-!
# Passkey logins and step-ups

`create_challenge` and `consume_challenge` of `webauthn_service.py`, `verify_authentication` of
`webauthn_routes.py` and `passkey_step_up_verify` of `account_step_up_routes.py`. A query and a
commit are one step each. The two routes hold different locks, and the challenges a third.
Every assertion is validly signed, over the challenge it names.
-/

namespace WebSSH.Passkey
open Lib Function

inductive Purpose
  | register
  | login
  | mfaLogin
  | stepUp
  deriving DecidableEq, Repr

/-- What a challenge is found by. -/
structure Key where
  userId : Option Nat
  purpose : Purpose
  sessionBindingHash : String
  deriving DecidableEq, Repr

/-- A row of `WebAuthnChallenge`. The random bytes are told apart by a number. -/
structure Challenge where
  key : Key
  challenge : Nat
  expiresAt : Nat
  deriving DecidableEq, Repr

/-- A row of `WebAuthnCredential`. -/
structure Credential where
  userId : Nat
  signCount : Nat
  deriving DecidableEq, Repr

/-- What an authenticator has signed. -/
structure Assertion where
  credentialId : Nat
  challenge : Nat
  newSignCount : Nat
  deriving DecidableEq, Repr

inductive Route
  /-- `verify_authentication` under `_authentication_lock` -/
  | login
  /-- `passkey_step_up_verify` under `_passkey_lock` -/
  | stepUp
  deriving DecidableEq, Repr

structure Request where
  route : Route
  key : Key
  assertion : Assertion

/-- The credential is one the request may use: of the pending user, or of the user who steps up. -/
def Request.permits (request : Request) (row : Credential) : Bool :=
  match request.route with
  | .login => request.key.userId.all (· = row.userId)
  | .stepUp => request.key.userId = some row.userId

/-- How far a request has come. -/
inductive Phase
  | waiting
  /-- The lock of the route is held. -/
  | entered
  /-- The challenge has been read, under `_challenge_lock`. -/
  | selected (row : Challenge)
  /-- The challenge has been deleted. -/
  | consumed (challenge : Nat)
  /-- The credential has been read with this `sign_count`, and the assertion passed the checks. -/
  | verified (challenge signCount : Nat)
  | accepted
  | rejected
  deriving DecidableEq, Repr

/-- A commit that has written `sign_count`. -/
structure Commit where
  credentialId : Nat
  before : Nat
  after : Nat
  deriving DecidableEq, Repr

structure State where
  credentials : Nat → Option Credential
  /-- The newest row is the last one. -/
  challenges : List Challenge
  /-- How many challenges have been issued. -/
  issued : Nat
  challengeLock : Option Nat
  lock : Route → Option Nat
  phase : Nat → Phase
  commits : List Commit
  accepted : List Assertion

namespace State

def init (credentials : Nat → Option Credential) : State where
  credentials
  challenges := []
  issued := 0
  challengeLock := none
  lock := fun _ => none
  phase := fun _ => .waiting
  commits := []
  accepted := []

def setPhase (s : State) (i : Nat) (p : Phase) : State := { s with phase := update s.phase i p }

def setLock (s : State) (route : Route) (owner : Option Nat) : State :=
  { s with lock := update s.lock route owner }

/-- The committed `sign_count`. -/
def signCount (s : State) (credentialId : Nat) : Nat :=
  ((s.credentials credentialId).map Credential.signCount).getD 0

end State

inductive Action
  /-- `create_challenge` at a time -/
  | create (key : Key) (now : Nat)
  /-- The lock of the request's route is taken. -/
  | enter (i : Nat)
  /-- The query of `consume_challenge`. -/
  | select (i : Nat)
  /-- The commit of `consume_challenge`, and its check at a time. -/
  | consume (i now : Nat)
  /-- The query for the credential, and the checks. -/
  | read (i : Nat)
  | commit (i : Nat)
  /-- Anything raises. -/
  | fail (i : Nat)
  deriving DecidableEq, Repr

/-- Five minutes. -/
def challengeTtl : Nat := 300

variable (requests : Nat → Request)

/-- The request leaves its route with an error. -/
def State.reject (s : State) (i : Nat) : State :=
  (s.setPhase i .rejected).setLock (requests i).route none

/-- The `sign_count` of a row is written. -/
def State.write (s : State) (credentialId count : Nat) : State :=
  { s with
    credentials := update s.credentials credentialId
      ((s.credentials credentialId).map fun row => { row with signCount := count }) }

/-- The commit of a request that has read `signCount`; a count that has not changed is not
written. -/
def State.accept (s : State) (i signCount : Nat) : State :=
  let assertion := (requests i).assertion
  let count := max signCount assertion.newSignCount
  let s' := (s.setPhase i .accepted).setLock (requests i).route none
  if count = signCount then { s' with accepted := assertion :: s.accepted }
  else
    { s'.write assertion.credentialId count with
      commits := ⟨assertion.credentialId, s.signCount assertion.credentialId, count⟩ :: s.commits
      accepted := assertion :: s.accepted }

def step (s : State) : Action → Option State
  | .create key now =>
    if s.challengeLock = none then
      some { s with
        challenges := (s.challenges.filter fun row => ¬(row.expiresAt < now ∨ row.key = key)) ++
          [⟨key, s.issued, now + challengeTtl⟩]
        issued := s.issued + 1 }
    else none
  | .enter i =>
    if s.phase i = .waiting ∧ s.lock (requests i).route = none then
      some ((s.setPhase i .entered).setLock (requests i).route (some i))
    else none
  | .select i =>
    if s.phase i = .entered ∧ s.challengeLock = none then
      match s.challenges.reverse.find? fun row => row.key = (requests i).key with
      | none => some (s.reject requests i)
      | some row => some { s.setPhase i (.selected row) with challengeLock := some i }
    else none
  | .consume i now =>
    match s.phase i with
    | .selected row =>
      let s := { s with
        challenges := s.challenges.filter fun other => other.challenge ≠ row.challenge
        challengeLock := none }
      if row.expiresAt < now then some (s.reject requests i)
      else some (s.setPhase i (.consumed row.challenge))
    | _ => none
  | .read i =>
    match s.phase i with
    | .consumed challenge =>
      let assertion := (requests i).assertion
      match s.credentials assertion.credentialId with
      | none => some (s.reject requests i)
      | some row =>
        if (requests i).permits row ∧ assertion.challenge = challenge ∧
            ¬(row.signCount ≠ 0 ∧ assertion.newSignCount ≤ row.signCount) then
          some (s.setPhase i (.verified challenge row.signCount))
        else some (s.reject requests i)
    | _ => none
  | .commit i =>
    match s.phase i with
    | .verified _ signCount => some (s.accept requests i signCount)
    | _ => none
  | .fail i =>
    match s.phase i with
    | .entered | .consumed _ | .verified .. => some (s.reject requests i)
    | .selected _ => some { s.reject requests i with challengeLock := none }
    | _ => none

/-- All interleavings of the requests, with the credentials registered before. -/
def system (credentials : Nat → Option Credential) : System State Action where
  Init s := s = .init credentials
  Step s a t := step requests s a = some t

/-! ## What is to hold -/

/-- No committed count is less than the one before it, no two accepted assertions of a credential
carry one counter other than zero, and no challenge is accepted twice. -/
structure Safe (s : State) : Prop where
  counts : ∀ commit ∈ s.commits, commit.before ≤ commit.after
  counters : s.accepted.Pairwise fun a b => a.credentialId = b.credentialId →
    a.newSignCount = b.newSignCount → a.newSignCount = 0
  challenges : (s.accepted.map Assertion.challenge).Nodup

/-- A commit of `j` makes void what `i` has compared: the other route accepts a counter of the same
credential that is not less than the one of `i`. -/
structure Overtakes (j i : Nat) : Prop where
  route : (requests j).route ≠ (requests i).route
  credential : (requests j).assertion.credentialId = (requests i).assertion.credentialId
  counter : 0 < (requests i).assertion.newSignCount ∧
    (requests i).assertion.newSignCount ≤ (requests j).assertion.newSignCount

/-- Some request commits after such a commit has come between its query and its own. -/
def Crossed (as : List Action) : Prop :=
  ∃ i j before between after, as = before ++ .read i :: (between ++ .commit i :: after) ∧
    .commit j ∈ between ∧ Overtakes requests j i

end WebSSH.Passkey
