import Mathlib.Logic.Function.Basic
import WebSSH.Lib.Pending
import WebSSH.Lib.System

/-!
# The revocation fence of LDAP accounts

`LDAPRevocationFence` of `ldap_session.py` and the calls that use it. An operation of the fence
runs under its lock and is one step; a marker is written or unlinked, and a database transaction
committed, or not at all. The locks that order the validations of one account are left out, so
that validations of an account may overlap.
-/

namespace WebSSH.Ldap
open Lib Function

/-- `_validation_identity_key` -/
structure IdentityKey where
  authGeneration : Int
  mappingId : Nat
  provider : String
  subject : String
  directoryUsername : String
  deriving DecidableEq

/-- `LDAPValidationReceipt` -/
structure Receipt where
  verifiedAtEpoch : Nat
  completedMonotonic : Nat
  identityKey : IdentityKey
  deriving DecidableEq

inductive ValidationError
  /-- `LDAPLookupRejected` -/
  | rejected
  /-- `LDAPUnavailable` -/
  | unavailable
  | other
  deriving DecidableEq

structure Fence where
  pending : Nat → Bool
  validating : Nat → Option Nat
  successfulValidations : Nat → Option Receipt
  /-- The files of the marker directory. -/
  markers : Nat → Bool
  /-- How many validation tokens have been made. -/
  tokenCount : Nat

namespace Fence

/-- `_marker_exists_locked`; an `lstat` that raises is taken for a marker. -/
def markerExists (F : Fence) (u : Nat) (lstatFails : Bool) : Bool := lstatFails || F.markers u

def contains (F : Fence) (u : Nat) (lstatFails : Bool) : Bool :=
  if F.pending u then true
  else if (F.validating u).isSome then false
  else F.markerExists u lstatFails

def recentValidation (F : Fence) (u : Nat) (identityKey : IdentityKey) (notBefore : Nat)
    (lstatFails : Bool) : Option Receipt × Fence :=
  if F.pending u then (none, F)
  else if (F.validating u).isNone && F.markerExists u lstatFails then (none, F)
  else
    match F.successfulValidations u with
    | none => (none, F)
    | some receipt =>
      if receipt.identityKey ≠ identityKey then
        (none, { F with successfulValidations := update F.successfulValidations u none })
      else if ¬notBefore < receipt.completedMonotonic then (none, F)
      else (some receipt, F)

/-- The account is pending, and its last success forgotten. -/
def deny (F : Fence) (u : Nat) : Fence :=
  { F with
    pending := update F.pending u true
    successfulValidations := update F.successfulValidations u none }

def stopValidating (F : Fence) (u : Nat) : Fence :=
  { F with validating := update F.validating u none }

def writeMarker (F : Fence) (u : Nat) : Fence := { F with markers := update F.markers u true }

def unlinkMarker (F : Fence) (u : Nat) : Fence := { F with markers := update F.markers u false }

/-- The token of the validation, or what is raised. -/
def beginValidation (F : Fence) (u : Nat) (lstatFails writeFails : Bool) :
    Except ValidationError Nat × Fence :=
  if F.pending u || F.markerExists u lstatFails then (.error .rejected, F.deny u)
  else if writeFails then
    (.error .unavailable, { (F.stopValidating u).deny u with tokenCount := F.tokenCount + 1 })
  else
    (.ok F.tokenCount,
      { F.writeMarker u with
        validating := update F.validating u (some F.tokenCount)
        tokenCount := F.tokenCount + 1 })

def failValidation (F : Fence) (u token : Nat) : Fence :=
  if F.validating u ≠ some token then F else (F.stopValidating u).deny u

def completeValidation (F : Fence) (u token : Nat) (identityKey : IdentityKey) (epoch now : Nat)
    (unlinkFails : Bool) : Except ValidationError Receipt × Fence :=
  if F.validating u ≠ some token ∨ F.pending u then (.error .rejected, F)
  else if unlinkFails then (.error .unavailable, F)
  else
    let receipt := ⟨epoch, now, identityKey⟩
    (.ok receipt,
      { (F.unlinkMarker u).stopValidating u with
        pending := update F.pending u false
        successfulValidations := update F.successfulValidations u (some receipt) })

def mark (F : Fence) (u : Nat) (writeFails : Bool) : Fence :=
  let F := (F.stopValidating u).deny u
  if writeFails then F else F.writeMarker u

/-- `discard`, when the marker could be unlinked. -/
def discard (F : Fence) (u : Nat) : Fence :=
  { (F.unlinkMarker u).stopValidating u with
    pending := update F.pending u false
    successfulValidations := update F.successfulValidations u none }

/-- What is left of the fence for the next process. -/
def crash (F : Fence) : Fence :=
  { F with
    pending := fun _ => false
    validating := fun _ => none
    successfulValidations := fun _ => none }

end Fence

/-! ## Calls -/

/-- `revalidate_all_linked_users` with the accounts that are still to be visited. -/
structure Sweep where
  started : Nat
  remaining : List Nat
  deriving DecidableEq

/-- What a call does next. -/
inductive Task
  /-- The sweep visits its next account. -/
  | visit
  /-- `recent_validation` -/
  | recent (u : Nat) (identityKey : IdentityKey)
  /-- `begin_validation` -/
  | begin (u : Nat) (identityKey : IdentityKey)
  /-- `revalidate_user` -/
  | lookup (u token : Nat) (identityKey : IdentityKey)
  /-- `complete_validation` -/
  | complete (u token : Nat) (identityKey : IdentityKey)
  /-- `fail_validation`, after which the error is raised. -/
  | fail (u token : Nat) (error : ValidationError)
  /-- `mark` of `persist_ldap_authentication_invalidation`. -/
  | mark (u : Nat)
  /-- `invalidate_user_authentication` and its commit; `controlFlow` is `marker_control_flow`. -/
  | invalidate (u : Nat) (controlFlow : Bool)
  /-- `discard` -/
  | discard (u : Nat) (controlFlow : Bool)
  deriving DecidableEq

/-- A call, which may be part of a sweep. -/
structure Call where
  task : Task
  sweep : Option Sweep
  deriving DecidableEq

inductive Raise
  | exception
  | baseException
  deriving DecidableEq

/-- What a step finds outside the fence. -/
structure Input where
  lstatFails : Bool
  /-- What the marker's write or unlink, or the commit, raises. -/
  raises : Option Raise
  /-- The row of the account exists. -/
  found : Bool
  /-- `none` is an account that is not eligible. -/
  identityKey : Option IdentityKey
  /-- What `revalidate_user` raises. -/
  lookup : Option ValidationError
  now : Nat
  epoch : Nat
  deriving DecidableEq

inductive Action
  | contains (u : Nat) (lstatFails : Bool)
  | recentValidation (u : Nat) (identityKey : IdentityKey) (notBefore : Nat) (lstatFails : Bool)
  /-- `_perform_durable_validation` -/
  | validate (u : Nat) (identityKey : IdentityKey)
  /-- `persist_ldap_authentication_invalidation` -/
  | persist (u : Nat)
  /-- `revalidate_all_linked_users`; `linked` are the accounts with an LDAP identity. -/
  | sweep (linked : List Nat) (now : Nat)
  | next (k : Nat) (input : Input)
  /-- Other code commits an invalidation. -/
  | invalidate (u : Nat)
  /-- The process ends; the marker files stay. -/
  | crash
  deriving DecidableEq

inductive Reply
  | done
  | contains (u : Nat) (answer : Bool)
  | recent (u : Nat) (receipt : Option Receipt)
  | began (u token : Nat)
  /-- The validation of the token has succeeded, and its receipt is stored. -/
  | published (u token : Nat) (receipt : Receipt)
  | marked (u : Nat)
  | invalidated (u : Nat)
  | discarded (u : Nat)
  deriving DecidableEq

structure State where
  fence : Fence
  calls : List Call
  /-- A revocation that no invalidation has been committed for since: a mark or the failure of the
  current validation. It is durable if its marker was written. -/
  due : Nat → Option Bool

namespace State

/-- The call at `k` goes on with `next`. -/
def advance (s : State) (k : Nat) (next : List Call) : State :=
  { s with calls := s.calls.eraseIdx k ++ next }

def setDue (s : State) (u : Nat) (due : Option Bool) : State :=
  { s with due := update s.due u due }

/-- `fail_validation`, whose validation had written its marker. -/
def failValidation (s : State) (u token : Nat) : State :=
  let t := { s with fence := s.fence.failValidation u token }
  if s.fence.validating u = some token then t.setDue u (some true) else t

def mark (s : State) (u : Nat) (writeFails : Bool) : State :=
  { s with fence := s.fence.mark u writeFails }.setDue u (some (!writeFails || s.due u = some true))

def crash (s : State) : State where
  fence := s.fence.crash
  calls := []
  due u := if s.due u = some true then some true else none

end State

/-- What is left of a call when its task is done, or raises. -/
def Call.finish (call : Call) (raised : Bool) : List Call :=
  match call.sweep with
  | none => []
  | some sweep => if raised then [] else [⟨.visit, some sweep⟩]

def Call.goOn (call : Call) (task : Task) : List Call := [{ call with task }]

/-- A validation has raised. -/
def Call.rejected (call : Call) (u : Nat) (error : ValidationError) : List Call :=
  if call.sweep.isSome ∧ error ≠ .other then call.goOn (.mark u) else []

/-- The sweep visits its next account. -/
def Call.visit (call : Call) (F : Fence) (input : Input) : List Call :=
  match call.sweep with
  | none | some ⟨_, []⟩ => []
  | some ⟨started, u :: remaining⟩ =>
    let call := { call with sweep := some ⟨started, remaining⟩ }
    if !input.found then call.goOn .visit
    else if F.contains u input.lstatFails then call.goOn (.mark u)
    else
      match input.identityKey with
      | none => call.rejected u .rejected
      | some identityKey => call.goOn (.recent u identityKey)

/-- The next step of the call at `k`. -/
def State.next (s : State) (k : Nat) (call : Call) (input : Input) : Reply × State :=
  let raised := input.raises.isSome
  match call.task with
  | .visit => (.done, s.advance k (call.visit s.fence input))
  | .recent u identityKey =>
    let (receipt, F) := s.fence.recentValidation u identityKey
      ((call.sweep.map Sweep.started).getD 0) input.lstatFails
    (.recent u receipt,
      { s with fence := F }.advance k
        (if receipt.isSome then call.finish false else call.goOn (.begin u identityKey)))
  | .begin u identityKey =>
    let (result, F) := s.fence.beginValidation u input.lstatFails raised
    match result with
    | .ok token =>
      (.began u token, { s with fence := F }.advance k (call.goOn (.lookup u token identityKey)))
    | .error error => (.done, { s with fence := F }.advance k (call.rejected u error))
  | .lookup u token identityKey =>
    match input.lookup with
    | none => (.done, s.advance k (call.goOn (.complete u token identityKey)))
    | some error => (.done, s.advance k (call.goOn (.fail u token error)))
  | .complete u token identityKey =>
    let (result, F) :=
      s.fence.completeValidation u token identityKey input.epoch input.now raised
    match result with
    | .ok receipt =>
      (.published u token receipt, { s with fence := F }.advance k (call.finish false))
    | .error error => (.done, { s with fence := F }.advance k (call.goOn (.fail u token error)))
  | .fail u token error => (.done, (s.failValidation u token).advance k (call.rejected u error))
  | .mark u =>
    (.marked u,
      (s.mark u raised).advance k
        (call.goOn (.invalidate u (input.raises = some .baseException))))
  | .invalidate u controlFlow =>
    match input.raises with
    | none => (.invalidated u, (s.setDue u none).advance k (call.goOn (.discard u controlFlow)))
    | some .exception => (.done, s.advance k (call.finish controlFlow))
    | some .baseException => (.done, s.advance k (call.finish true))
  | .discard u controlFlow =>
    match input.raises with
    | none =>
      (.discarded u, { s with fence := s.fence.discard u }.advance k (call.finish controlFlow))
    | some .exception => (.done, s.advance k (call.finish controlFlow))
    | some .baseException => (.done, s.advance k (call.finish true))

def step (s : State) : Action → Option (Reply × State)
  | .contains u lstatFails => some (.contains u (s.fence.contains u lstatFails), s)
  | .recentValidation u identityKey notBefore lstatFails =>
    let (receipt, F) := s.fence.recentValidation u identityKey notBefore lstatFails
    some (.recent u receipt, { s with fence := F })
  | .validate u identityKey =>
    some (.done, { s with calls := s.calls ++ [⟨.begin u identityKey, none⟩] })
  | .persist u => some (.done, { s with calls := s.calls ++ [⟨.mark u, none⟩] })
  | .sweep linked now =>
    some (.done, { s with calls := s.calls ++ [⟨.visit, some ⟨now, linked⟩⟩] })
  | .next k input => (s.calls[k]?).map fun call => s.next k call input
  | .invalidate u => some (.invalidated u, s.setDue u none)
  | .crash => some (.done, s.crash)

/-- A process starts, with the markers that others have left. -/
def State.init (markers : Nat → Bool) : State where
  fence := ⟨fun _ => false, fun _ => none, fun _ => none, markers, 0⟩
  calls := []
  due _ := none

def system (markers : Nat → Bool) : System State (Action × Reply) := .calls (.init markers) step

end WebSSH.Ldap
