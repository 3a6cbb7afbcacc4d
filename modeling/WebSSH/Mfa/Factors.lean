import Mathlib.Data.List.Basic
import Mathlib.Logic.Function.Basic
import WebSSH.Lib.System

/-!
# Factors and the MFA flag of one account

The requests of `webauthn_routes.py`, `totp_routes.py`, `totp_service.py`,
`account_step_up_routes.py` and `recovery_routes.py` that change the passkeys, the TOTP
authenticators or `mfa_enabled` of an account. Every query and every commit is a step, and a request
takes the locks the code takes. The session writes `mfa_enabled` only where it differs from the value
it has loaded. The database gives an inserted row any id that is free.
-/

namespace WebSSH.Mfa
open Lib Function

inductive Lock
  /-- `_registration_lock` -/
  | registration
  /-- `_recovery_lock` -/
  | recovery
  /-- `_totp_lock` -/
  | totp
  /-- `_factor_mutation_lock` -/
  | factor
  deriving DecidableEq, Repr

/-- A row of `TOTPAuthenticator`. -/
structure Authenticator where
  id : Nat
  active : Bool
  deriving DecidableEq, Repr

inductive Request
  | enablePasskeyMfa
  | deleteCredential (id : Nat)
  | deleteTotpAuthenticator (id : Nat)
  | verifyRegistration
  | activateTotpEnrollment
  | disableAccountMfa
  | disableMfaAfterRecovery
  deriving DecidableEq, Repr

/-- How far a request has come. -/
inductive Phase
  | waiting
  /-- The user has been loaded, with this flag, and no lock is held. -/
  | loaded (mfaEnabled : Bool)
  /-- The account has MFA, by the first look of `disable_account_mfa`. -/
  | allowed
  /-- The first of two locks is held. -/
  | entered (mfaEnabled : Bool)
  /-- All locks are held. -/
  | locked (mfaEnabled : Bool)
  /-- The row that is to be deleted has been found. -/
  | found
  /-- The user has been read under the locks. -/
  | read (mfaEnabled : Bool)
  /-- The other passkeys have been counted. -/
  | counted (mfaEnabled : Bool) (passkeys : Nat)
  /-- Every check has passed. -/
  | ready (mfaEnabled : Bool)
  | done
  | refused
  deriving DecidableEq, Repr

structure State where
  mfaEnabled : Bool
  /-- The ids of the passkeys. -/
  passkeys : List Nat
  authenticators : List Authenticator
  lock : Lock → Option Nat
  phase : Nat → Phase

namespace State

def setPhase (s : State) (i : Nat) (p : Phase) : State := { s with phase := update s.phase i p }

/-- The lock is taken by the request, or it waits. -/
def acquire (s : State) (i : Nat) (l : Lock) (p : Phase) : Option State :=
  if s.lock l = none then some { s.setPhase i p with lock := update s.lock l (some i) } else none

/-- The request ends, and its locks are free. -/
def leave (s : State) (i : Nat) (p : Phase) : State :=
  { s.setPhase i p with lock := fun l => if s.lock l = some i then none else s.lock l }

/-- The active authenticators, without one of them. -/
def activeExcept (s : State) (id : Option Nat) : List Authenticator :=
  s.authenticators.filter fun row => row.active ∧ some row.id ≠ id

/-- The passkeys, without one of them. -/
def passkeysExcept (s : State) (id : Option Nat) : List Nat :=
  s.passkeys.filter fun row => some row ≠ id

/-- `excluding_totp_id` of the deletion of an authenticator -/
def excluded (s : State) (id : Nat) : Option Nat :=
  if (s.authenticators.find? fun row => row.id = id).any Authenticator.active then some id else none

end State

def maxPasskeys : Nat := 10
def maxAuthenticatorsPerUser : Nat := 5

variable (requests : Nat → Request)

/-- The next step of a request, where an inserted row gets the id `rowid`. -/
def advance (s : State) (i rowid : Nat) : Option State :=
  match requests i, s.phase i with
  | .enablePasskeyMfa, .waiting => s.acquire i .registration (.entered false)
  | .enablePasskeyMfa, .entered _ => s.acquire i .recovery (.locked false)
  | .enablePasskeyMfa, .locked _ =>
    some (if s.mfaEnabled then s.leave i .refused else s.setPhase i (.read false))
  | .enablePasskeyMfa, .read _ =>
    some (if s.passkeys = [] then s.leave i .refused else s.setPhase i (.ready false))
  | .enablePasskeyMfa, .ready _ => some { s.leave i .done with mfaEnabled := true }
  | .deleteCredential _, .waiting => s.acquire i .factor (.locked false)
  | .deleteCredential id, .locked _ =>
    some (if id ∈ s.passkeys then s.setPhase i .found else s.leave i .refused)
  | .deleteCredential _, .found => some (s.setPhase i (.read s.mfaEnabled))
  | .deleteCredential id, .read mfaEnabled =>
    some (s.setPhase i (.counted mfaEnabled (s.passkeysExcept (some id)).length))
  | .deleteCredential _, .counted mfaEnabled passkeys =>
    some (if mfaEnabled ∧ passkeys + (s.activeExcept none).length = 0 then s.leave i .refused
      else s.setPhase i (.ready mfaEnabled))
  | .deleteCredential id, .ready _ =>
    some { s.leave i .done with passkeys := s.passkeysExcept (some id) }
  | .deleteTotpAuthenticator _, .waiting => s.acquire i .factor (.locked false)
  | .deleteTotpAuthenticator id, .locked _ =>
    some (if id ∈ s.authenticators.map Authenticator.id then s.setPhase i .found
      else s.leave i .refused)
  | .deleteTotpAuthenticator _, .found => some (s.setPhase i (.read s.mfaEnabled))
  | .deleteTotpAuthenticator _, .read mfaEnabled =>
    some (s.setPhase i (.counted mfaEnabled (s.passkeysExcept none).length))
  | .deleteTotpAuthenticator id, .counted mfaEnabled passkeys =>
    some (if mfaEnabled ∧ passkeys + (s.activeExcept (s.excluded id)).length = 0 then
        s.leave i .refused
      else s.setPhase i (.ready mfaEnabled))
  | .deleteTotpAuthenticator id, .ready _ =>
    some { s.leave i .done with
      authenticators := s.authenticators.filter fun row => row.id ≠ id }
  | .verifyRegistration, .waiting => s.acquire i .registration (.locked false)
  | .verifyRegistration, .locked _ =>
    some (if maxPasskeys ≤ s.passkeys.length then s.leave i .refused else s.setPhase i (.ready false))
  | .verifyRegistration, .ready _ =>
    if rowid ∈ s.passkeys then none
    else some { s.leave i .done with passkeys := s.passkeys ++ [rowid] }
  | .activateTotpEnrollment, .waiting => some (s.setPhase i (.loaded s.mfaEnabled))
  | .activateTotpEnrollment, .loaded mfaEnabled => s.acquire i .totp (.entered mfaEnabled)
  | .activateTotpEnrollment, .entered mfaEnabled => s.acquire i .recovery (.locked mfaEnabled)
  | .activateTotpEnrollment, .locked mfaEnabled =>
    some (if maxAuthenticatorsPerUser ≤ s.authenticators.length then s.leave i .refused
      else s.setPhase i (.ready mfaEnabled))
  | .activateTotpEnrollment, .ready mfaEnabled =>
    if rowid ∈ s.authenticators.map Authenticator.id then none
    else some { s.leave i .done with
      authenticators := s.authenticators ++ [⟨rowid, true⟩]
      mfaEnabled := if mfaEnabled then s.mfaEnabled else true }
  | .disableAccountMfa, .waiting =>
    some (if s.mfaEnabled then s.setPhase i .allowed else s.leave i .refused)
  | .disableAccountMfa, .allowed => some (s.setPhase i (.loaded s.mfaEnabled))
  | .disableMfaAfterRecovery, .waiting => some (s.setPhase i (.loaded s.mfaEnabled))
  | .disableAccountMfa, .loaded mfaEnabled | .disableMfaAfterRecovery, .loaded mfaEnabled =>
    some { s.leave i .done with
      authenticators := []
      mfaEnabled := if mfaEnabled then false else s.mfaEnabled }
  | _, _ => none

inductive Action
  | advance (i rowid : Nat)
  /-- Anything raises, or another check of the request fails. -/
  | fail (i : Nat)
  deriving DecidableEq, Repr

def step (s : State) : Action → Option State
  | .advance i rowid => advance requests s i rowid
  | .fail i => some (s.leave i .refused)

/-- The account has a passkey or an active authenticator. -/
def State.HasFactor (s : State) : Prop := s.passkeys ≠ [] ∨ s.activeExcept none ≠ []

/-- MFA is never without a factor. -/
def Usable (s : State) : Prop := s.mfaEnabled = true → s.HasFactor

/-- No request has begun. -/
structure Starts (s : State) : Prop where
  phase : ∀ i, s.phase i = .waiting
  lock : ∀ l, s.lock l = none
  /-- The ids are a primary key. -/
  ids : (s.authenticators.map Authenticator.id).Nodup
  usable : Usable s

/-- All interleavings of the requests. -/
def system : System State Action where
  Init := Starts
  Step s a t := step requests s a = some t

/-- A deletion has read the user, and has not committed. -/
def Phase.Reading : Phase → Prop
  | .read _ | .counted .. | .ready _ => True
  | _ => False

/-- The commit of request `i`, with the id `rowid` of an inserted row, comes between what request `j`
has checked and its own commit. -/
inductive Crosses (s : State) (i rowid j : Nat) : Prop
  /-- The only passkey is deleted after `enable_passkey_mfa` has found it. -/
  | deletes {id : Nat} {m m' : Bool} (hi : requests i = .deleteCredential id)
    (hp : s.phase i = .ready m) (honly : s.passkeysExcept (some id) = [])
    (hj : requests j = .enablePasskeyMfa) (hq : s.phase j = .ready m')
  /-- `enable_passkey_mfa` commits after a deletion of the only passkey has read the user. -/
  | enables {id : Nat} {m : Bool} (hi : requests i = .enablePasskeyMfa) (hp : s.phase i = .ready m)
    (hj : requests j = .deleteCredential id) (hq : (s.phase j).Reading)
    (honly : s.passkeysExcept (some id) = [])
  /-- MFA is enabled after a disabling request has loaded the user with MFA off. -/
  | disables {m : Bool}
    (hi : requests i = .enablePasskeyMfa ∨ requests i = .activateTotpEnrollment ∧ m = false)
    (hp : s.phase i = .ready m)
    (hj : requests j = .disableAccountMfa ∨ requests j = .disableMfaAfterRecovery)
    (hq : s.phase j = .loaded false)
  /-- A new authenticator gets the id of one that a deletion is about to delete. -/
  | reuses {m : Bool} (hi : requests i = .activateTotpEnrollment) (hp : s.phase i = .ready m)
    (hj : requests j = .deleteTotpAuthenticator rowid) (hq : (s.phase j).Reading)

/-- The step is a commit that crosses another request. -/
def Crossing (s : State) : Action → Prop
  | .advance i rowid => ∃ j, Crosses requests s i rowid j
  | .fail _ => False

end WebSSH.Mfa
