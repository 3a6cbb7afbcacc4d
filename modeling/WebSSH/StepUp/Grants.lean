import WebSSH.Lib.System
import WebSSH.Lib.Python
import Mathlib

/-!
# Step-up grants

`step_up.py`. A block under `_intent_lock` or `_grant_lock` with its commit is one step; what a
call does before such a block and after it are steps of their own, and a call in progress is kept
in `calls`. The tables have integer primary keys without `AUTOINCREMENT`, so the ids of deleted rows
are used again: rows carry the number of the session, the intent or the grant they stand for.
-/

namespace WebSSH.StepUp
open Lib Python

inductive AssuranceLevel
  | basic
  | mfa
  | phishingResistant
  deriving DecidableEq, Repr

/-- `_assurance_rank` -/
def AssuranceLevel.rank : AssuranceLevel → Nat
  | .basic => 0
  | .mfa => 1
  | .phishingResistant => 2

/-- What the code uses of its environment: the hex digest of SHA-256, and `str.lower`. -/
structure Runtime where
  sha256 : Bytes → String
  lower : String → String

/-! ## Arguments -/

/-- A match of `[first][rest]{0,n}`. -/
def matchesPattern (first rest : Char → Bool) (n : Nat) (text : String) : Bool :=
  match text.toList with
  | [] => false
  | c :: cs => first c && cs.length ≤ n && cs.all rest

/-- `none` is a `StepUpError`. -/
def normalizeAction (value : String) : Option String :=
  let action := strip value
  if matchesPattern (fun c => c.isLower || c.isDigit)
      (fun c => c.isLower || c.isDigit || c ∈ ['_', '.', ':', '-']) 95 action then
    some action
  else none

def maxTargetBytes : Nat := 1024

/-- `_TARGET_DOMAIN` -/
def targetDomain : Bytes := encode "webssh-step-up-target-v1" ++ [0]

def hashStepUpTarget (R : Runtime) (value : Value) : Option String :=
  let target? : Option String :=
    match value with
    | .str s => some s
    | .int i => some (toString i)
    | .none | .bool _ | .other _ => none
  target?.bind fun target =>
    let encoded := encode target
    if encoded = [] ∨ maxTargetBytes < encoded.length then none
    else some (R.sha256 (targetDomain ++ encoded))

def tokenHash (R : Runtime) (value : String) : String := R.sha256 (encode value)

/-- `re.fullmatch(r"[0-9a-f]{64}", target_hash)` -/
def isTargetHash (targetHash : String) : Bool :=
  targetHash.toList.length = 64 &&
    targetHash.toList.all fun c => c.isDigit || c ∈ ['a', 'b', 'c', 'd', 'e', 'f']

/-- `str(method).strip().lower()`, if it matches `_METHOD_PATTERN`. -/
def normalizeMethod (R : Runtime) (method : String) : Option String :=
  let method := R.lower (strip method)
  if matchesPattern Char.isLower (fun c => c.isLower || c.isDigit || c ∈ ['_', '-']) 23 method then
    some method
  else none

/-- The tokens that are looked up at all. -/
def isToken (token : String) : Bool := token ≠ "" && token.toList.length ≤ 256

def accountStepUpActions : List String :=
  ["passkey.enroll", "passkey.delete", "mfa.enable", "totp.enroll", "totp.delete", "mfa.disable",
    "recovery.rotate", "github.link", "github.unlink", "oidc.self_link"]

/-! ## Rows -/

structure User where
  mfaEnabled : Bool
  authGeneration : Int
  deriving DecidableEq

def requiredAssuranceForUser (user : User) : AssuranceLevel :=
  if user.mfaEnabled then .mfa else .basic

/-- What a caller passes as its `AuthenticationSession`. -/
structure AuthSession where
  /-- The number of the session among all that were created. -/
  serial : Nat
  id : Option Nat
  userId : Nat
  expiresAt : Nat
  authGeneration : Int
  deriving DecidableEq

inductive IntentStatus
  | pending
  | approved
  | completed
  deriving DecidableEq

structure StepUpIntent where
  /-- The number of the intent among all that were created. -/
  serial : Nat
  id : Nat
  tokenHash : String
  authenticationSessionId : Nat
  userId : Nat
  scope : String
  action : String
  targetHash : String
  requiredAssurance : AssuranceLevel
  status : IntentStatus
  approvedAssurance : Option AssuranceLevel
  expiresAt : Nat
  deriving DecidableEq

structure StepUpGrant where
  /-- The number of the grant among all that were issued. -/
  serial : Nat
  id : Nat
  tokenHash : String
  authenticationSessionId : Nat
  action : String
  targetHash : String
  assurance : AssuranceLevel
  createdAt : Nat
  expiresAt : Nat
  deriving DecidableEq

/-- A grant as it was issued. -/
structure Issue where
  token : String
  /-- The session it was issued for. -/
  session : Nat
  authenticationSessionId : Nat
  action : String
  targetHash : String
  assurance : AssuranceLevel
  expiresAt : Nat
  /-- The account intent it completes. -/
  intent : Option Nat
  deriving DecidableEq

/-- An intent was approved. -/
structure Approval where
  intent : Nat
  assurance : AssuranceLevel
  requiredAssurance : AssuranceLevel
  deriving DecidableEq

/-- A `consume_step_up_grant` has returned `True`. -/
structure Consumption where
  /-- The grant it has deleted. -/
  grant : Nat
  token : String
  /-- The session it was called for. -/
  session : Nat
  authenticationSessionId : Nat
  action : String
  targetHash : String
  /-- When it has read the clock. -/
  startedAt : Nat
  /-- When it has returned. -/
  returnedAt : Nat
  /-- What the user's MFA state requires then. -/
  requiredAssurance : AssuranceLevel
  deriving DecidableEq

/-- A call between two of its steps. -/
inductive Call
  | creatingIntent (sessionId userId : Nat) (action targetHash : String)
      (requiredAssurance : AssuranceLevel) (token : String) (now : Nat)
  | creatingGrant (session sessionId : Nat) (action targetHash : String)
      (assurance : AssuranceLevel) (token : String) (now : Nat)
  | consuming (token : String) (authSession : Option AuthSession) (action targetHash : String)
      (now : Nat)
  /-- The row is deleted. -/
  | validating (row : StepUpGrant) (token : String) (authSession : Option AuthSession)
      (action targetHash : String) (now : Nat)
  deriving DecidableEq

structure State where
  now : Nat
  users : Nat → Option User
  /-- The sessions that were created, in order. -/
  sessions : List AuthSession
  /-- The numbers of those that have a row. -/
  sessionRows : List Nat
  intents : List StepUpIntent
  grants : List StepUpGrant
  calls : List Call
  intentCount : Nat
  issued : List Issue
  approvals : List Approval
  consumed : List Consumption

inductive Result
  | raised
  | returned
  /-- The raw token of an intent or of a grant. -/
  | token (token : String)
  | running
  deriving DecidableEq

inductive Action
  /-- `token` is what `secrets.token_urlsafe` returns. -/
  | createAccountStepUpIntent (authSession : Option AuthSession) (action : String) (target : Value)
      (token : String)
  | approveAccountStepUpIntent (token : String) (authSession : Option AuthSession)
      (assurance : Option AssuranceLevel) (method : String)
  | approveAccountStepUpIntentById (intentId : Nat) (authSession : Option AuthSession)
      (assurance : Option AssuranceLevel) (method : String)
  | claimAccountStepUpGrant (token : String) (authSession : Option AuthSession) (grant : String)
  | createStepUpGrant (authSession : Option AuthSession) (action : String) (target : Value)
      (assurance : Option AssuranceLevel) (token : String)
  | createStepUpGrantForHash (authSession : Option AuthSession) (action targetHash : String)
      (assurance : Option AssuranceLevel) (token : String)
  | consumeStepUpGrant (token : String) (authSession : Option AuthSession) (action : String)
      (target : Value)
  /-- The next step of a call. -/
  | resume (k : Nat)
  /-- A login, or the rotation of a session. -/
  | createAuthenticationSession (userId expiresAt : Nat) (authGeneration : Int)
  /-- The logout of a session. -/
  | deleteCurrentAuthenticationSession (session : Nat)
  /-- Other code changes a user. -/
  | setUser (userId : Nat) (user : Option User)
  /-- Other code deletes sessions, by their numbers, and rows. -/
  | deleteRows (sessions intents grants : List Nat)
  | tick (microseconds : Nat)

/-- The session that a call is made for. -/
def Action.authSession : Action → Option AuthSession
  | .createAccountStepUpIntent authSession ..
  | .approveAccountStepUpIntent _ authSession ..
  | .approveAccountStepUpIntentById _ authSession ..
  | .claimAccountStepUpGrant _ authSession _
  | .createStepUpGrant authSession ..
  | .createStepUpGrantForHash authSession ..
  | .consumeStepUpGrant _ authSession .. => authSession
  | .resume _ | .createAuthenticationSession .. | .deleteCurrentAuthenticationSession _
  | .setUser .. | .deleteRows .. | .tick _ => none

/-- `timedelta(minutes=5)`, in microseconds. -/
def ttl : Nat := 5 * 60 * 1000000

def maxGrantsPerSession : Nat := 32
def maxAccountIntentsPerSession : Nat := 8

/-- The id of a new row. -/
def nextId (ids : List Nat) : Nat := ids.foldl max 0 + 1

namespace State

def init : State where
  now := 0
  users _ := none
  sessions := []
  sessionRows := []
  intents := []
  grants := []
  calls := []
  intentCount := 0
  issued := []
  approvals := []
  consumed := []

/-! ### Sessions -/

/-- The id that the next session gets. -/
def nextSessionId (s : State) : Nat :=
  nextId ((s.sessions.filter (·.serial ∈ s.sessionRows)).filterMap (·.id))

def createAuthenticationSession (s : State) (userId expiresAt : Nat) (authGeneration : Int) :
    State :=
  { s with
    sessions := s.sessions ++
      [⟨s.sessions.length, some s.nextSessionId, userId, expiresAt, authGeneration⟩]
    sessionRows := s.sessionRows ++ [s.sessions.length] }

/-- `delete_current_authentication_session`: the rows that name the session stay. -/
def deleteCurrentAuthenticationSession (s : State) (session : Nat) : State :=
  { s with sessionRows := s.sessionRows.filter (· ≠ session) }

/-- A caller passes `None`, an object that was never stored, or one that it has loaded while the
session had its row. -/
def loadable (s : State) (authSession : Option AuthSession) : Bool :=
  authSession.all fun authSession => authSession.id.isNone || authSession ∈ s.sessions

/-- `_valid_authentication_session`, with the id of the session. -/
def validAuthenticationSession (s : State) (authSession : Option AuthSession) (now : Nat) :
    Option (Nat × AuthSession × User) := do
  let authSession ← authSession
  let user ← s.users authSession.userId
  let sessionId ← authSession.id
  if authSession.expiresAt ≤ now ∨ authSession.authGeneration ≠ user.authGeneration then none
  else some (sessionId, authSession, user)

/-! ### Intents -/

/-- `create_account_step_up_intent` before its lock. -/
def startIntent (R : Runtime) (s : State) (authSession : Option AuthSession) (action : String)
    (target : Value) (token : String) : Option Call := do
  let action ← normalizeAction action
  if action ∉ accountStepUpActions then none
  else
    let targetHash ← hashStepUpTarget R target
    let (sessionId, authSession, user) ← s.validAuthenticationSession authSession s.now
    some (.creatingIntent sessionId authSession.userId action targetHash
      (requiredAssuranceForUser user) token s.now)

/-- `create_account_step_up_intent` under its lock; an error rolls back the deletion. -/
def storeIntent (R : Runtime) (s : State) (sessionId userId : Nat) (action targetHash : String)
    (requiredAssurance : AssuranceLevel) (token : String) (now : Nat) : Result × State :=
  let rows := s.intents.filter (now < ·.expiresAt)
  let liveCount := rows.countP fun row => row.authenticationSessionId = sessionId ∧
    row.scope = "account" ∧ (row.status = .pending ∨ row.status = .approved)
  if maxAccountIntentsPerSession ≤ liveCount then (.raised, s)
  else if rows.any (·.tokenHash = tokenHash R token) then (.raised, s)
  else
    (.token token,
      { s with
        intentCount := s.intentCount + 1
        intents := rows ++
          [⟨s.intentCount, nextId (rows.map (·.id)), tokenHash R token, sessionId, userId,
            "account", action, targetHash, requiredAssurance, .pending, none, now + ttl⟩] })

/-- The checks of `_bound_account_intent` on the row it has found. -/
def usableIntent (row? : Option StepUpIntent) (user : User) (now : Nat) : Option StepUpIntent :=
  row?.bind fun row =>
    if row.expiresAt ≤ now ∨ row.action ∉ accountStepUpActions ∨
        row.requiredAssurance ≠ requiredAssuranceForUser user then none
    else some row

def boundAccountIntent (R : Runtime) (s : State) (token : String)
    (authSession : Option AuthSession) (status : IntentStatus) :
    Option (StepUpIntent × Nat × AuthSession × User) := do
  if isToken token then
    let (sessionId, authSession, user) ← s.validAuthenticationSession authSession s.now
    let row ← usableIntent (s.intents.find? fun row => row.tokenHash = tokenHash R token ∧
      row.authenticationSessionId = sessionId ∧ row.userId = authSession.userId ∧
      row.scope = "account" ∧ row.status = status) user s.now
    some (row, sessionId, authSession, user)
  else none

def updateIntent (s : State) (id : Nat) (update : StepUpIntent → StepUpIntent) : State :=
  { s with intents := s.intents.map fun row => if row.id = id then update row else row }

/-- `_approve_bound_account_intent` -/
def approveBoundAccountIntent (s : State) (row : StepUpIntent) (assurance : AssuranceLevel) :
    Result × State :=
  if assurance.rank < row.requiredAssurance.rank then (.raised, s)
  else
    (.returned,
      { s.updateIntent row.id
          ({ · with status := .approved, approvedAssurance := some assurance }) with
        approvals := s.approvals ++ [⟨row.serial, assurance, row.requiredAssurance⟩] })

def approveAccountStepUpIntent (R : Runtime) (s : State) (token : String)
    (authSession : Option AuthSession) (assurance : Option AssuranceLevel) (method : String) :
    Result × State :=
  match assurance, normalizeMethod R method with
  | some assurance, some _ =>
    match s.boundAccountIntent R token authSession .pending with
    | some (row, _) => s.approveBoundAccountIntent row assurance
    | none => (.raised, s)
  | _, _ => (.raised, s)

def approveAccountStepUpIntentById (R : Runtime) (s : State) (intentId : Nat)
    (authSession : Option AuthSession) (assurance : Option AssuranceLevel) (method : String) :
    Result × State :=
  match assurance, normalizeMethod R method with
  | some assurance, some _ =>
    match s.validAuthenticationSession authSession s.now with
    | some (sessionId, authSession, user) =>
      match usableIntent (s.intents.find? fun row => row.id = intentId ∧
          row.authenticationSessionId = sessionId ∧ row.userId = authSession.userId ∧
          row.scope = "account" ∧ row.status = .pending) user s.now with
      | some row => s.approveBoundAccountIntent row assurance
      | none => (.raised, s)
    | none => (.raised, s)
  | _, _ => (.raised, s)

/-! ### Grants -/

/-- The rows without those of the session that make way for a new one, the oldest ones. -/
def evictGrants (rows : List StepUpGrant) (sessionId : Nat) : List StepUpGrant :=
  let liveRows := (rows.filter (·.authenticationSessionId = sessionId)).mergeSort fun a b =>
    decide (b.createdAt < a.createdAt ∨ b.createdAt = a.createdAt ∧ b.id ≤ a.id)
  let stale := liveRows.drop (maxGrantsPerSession - 1)
  rows.filter (· ∉ stale)

/-- A new grant beside `rows`; the hashes are unique. -/
def insertGrant (R : Runtime) (s : State) (rows : List StepUpGrant) (issue : Issue) (now : Nat) :
    Option State :=
  if rows.any (·.tokenHash = tokenHash R issue.token) then none
  else
    let kept := evictGrants rows issue.authenticationSessionId
    some
      { s with
        grants := kept ++
          [⟨s.issued.length, nextId (kept.map (·.id)), tokenHash R issue.token,
            issue.authenticationSessionId, issue.action, issue.targetHash, issue.assurance, now,
            issue.expiresAt⟩]
        issued := s.issued ++ [issue] }

def claimAccountStepUpGrant (R : Runtime) (s : State) (token : String)
    (authSession : Option AuthSession) (grant : String) : Result × State :=
  match s.boundAccountIntent R token authSession .approved with
  | none => (.raised, s)
  | some (row, sessionId, authSession, user) =>
    match row.approvedAssurance with
    | none => (.raised, s)
    | some assurance =>
      if assurance.rank < row.requiredAssurance.rank then (.raised, s)
      else if authSession.authGeneration ≠ user.authGeneration then (.raised, s)
      else
        match s.insertGrant R s.grants ⟨grant, authSession.serial, sessionId, row.action,
          row.targetHash, assurance, s.now + ttl, some row.serial⟩ s.now with
        | none => (.raised, s)
        | some s => (.token grant, s.updateIntent row.id ({ · with status := .completed }))

/-- `create_step_up_grant_for_hash` before its lock. -/
def startGrant (s : State) (authSession : Option AuthSession) (action targetHash : String)
    (assurance : Option AssuranceLevel) (token : String) : Option Call := do
  let action ← normalizeAction action
  if isTargetHash targetHash then
    let assurance ← assurance
    let (sessionId, authSession, user) ← s.validAuthenticationSession authSession s.now
    if assurance.rank < (requiredAssuranceForUser user).rank then none
    else
      some (.creatingGrant authSession.serial sessionId action targetHash assurance token s.now)
  else none

/-- `create_step_up_grant` before the lock of `create_step_up_grant_for_hash`. -/
def startGrantForTarget (R : Runtime) (s : State) (authSession : Option AuthSession)
    (action : String) (target : Value) (assurance : Option AssuranceLevel) (token : String) :
    Option Call := do
  let targetHash ← hashStepUpTarget R target
  s.startGrant authSession action targetHash assurance token

/-- `create_step_up_grant_for_hash` under its lock. -/
def storeGrant (R : Runtime) (s : State) (session sessionId : Nat) (action targetHash : String)
    (assurance : AssuranceLevel) (token : String) (now : Nat) : Result × State :=
  match s.insertGrant R (s.grants.filter (now < ·.expiresAt))
    ⟨token, session, sessionId, action, targetHash, assurance, now + ttl, none⟩ now with
  | none => (.raised, s)
  | some s => (.token token, s)

/-- `consume_step_up_grant` before its lock: what is invalid becomes empty. -/
def startConsume (R : Runtime) (s : State) (token : String) (authSession : Option AuthSession)
    (action : String) (target : Value) : Option Call :=
  if isToken token then
    match normalizeAction action, hashStepUpTarget R target with
    | some action, some targetHash => some (.consuming token authSession action targetHash s.now)
    | _, _ => some (.consuming token authSession "" "" s.now)
  else none

/-- `consume_step_up_grant` after its lock. -/
def validate (s : State) (row : StepUpGrant) (token : String) (authSession : Option AuthSession)
    (action targetHash : String) (now : Nat) : Result × State :=
  match authSession with
  | none => (.raised, s)
  | some authSession =>
    if some row.authenticationSessionId ≠ authSession.id ∨ row.action ≠ action ∨
        row.targetHash ≠ targetHash ∨ row.expiresAt ≤ now then (.raised, s)
    else
      match s.users authSession.userId with
      | none => (.raised, s)
      | some user =>
        if row.assurance.rank < (requiredAssuranceForUser user).rank then (.raised, s)
        else
          (.returned,
            { s with consumed := s.consumed ++
                [⟨row.serial, token, authSession.serial, row.authenticationSessionId, action,
                  targetHash, now, s.now, requiredAssuranceForUser user⟩] })

/-! ### Steps -/

/-- The first step of a call that goes on in `resume`. -/
def start (s : State) (call? : Option Call) : Result × State :=
  match call? with
  | none => (.raised, s)
  | some call => (.running, { s with calls := s.calls ++ [call] })

/-- The next step of a call, with what is then in its place. -/
def continueCall (R : Runtime) (s : State) : Call → Result × State
  | .creatingIntent sessionId userId action targetHash requiredAssurance token now =>
    s.storeIntent R sessionId userId action targetHash requiredAssurance token now
  | .creatingGrant session sessionId action targetHash assurance token now =>
    s.storeGrant R session sessionId action targetHash assurance token now
  | .consuming token authSession action targetHash now =>
    match s.grants.find? (·.tokenHash = tokenHash R token) with
    | none => (.raised, s)
    | some row =>
      (.running,
        { s with
          grants := s.grants.filter (·.tokenHash ≠ tokenHash R token)
          calls := s.calls ++ [.validating row token authSession action targetHash now] })
  | .validating row token authSession action targetHash now =>
    s.validate row token authSession action targetHash now

def perform (R : Runtime) (s : State) : Action → Option (Result × State)
  | .createAccountStepUpIntent authSession action target token =>
    some (s.start (s.startIntent R authSession action target token))
  | .approveAccountStepUpIntent token authSession assurance method =>
    some (s.approveAccountStepUpIntent R token authSession assurance method)
  | .approveAccountStepUpIntentById intentId authSession assurance method =>
    some (s.approveAccountStepUpIntentById R intentId authSession assurance method)
  | .claimAccountStepUpGrant token authSession grant =>
    some (s.claimAccountStepUpGrant R token authSession grant)
  | .createStepUpGrant authSession action target assurance token =>
    some (s.start (s.startGrantForTarget R authSession action target assurance token))
  | .createStepUpGrantForHash authSession action targetHash assurance token =>
    some (s.start (s.startGrant authSession action targetHash assurance token))
  | .consumeStepUpGrant token authSession action target =>
    some (s.start (s.startConsume R token authSession action target))
  | .resume k =>
    (s.calls[k]?).map fun call => { s with calls := s.calls.eraseIdx k }.continueCall R call
  | .createAuthenticationSession userId expiresAt authGeneration =>
    some (.returned, s.createAuthenticationSession userId expiresAt authGeneration)
  | .deleteCurrentAuthenticationSession session =>
    some (.returned, s.deleteCurrentAuthenticationSession session)
  | .setUser userId user => some (.returned, { s with users := Function.update s.users userId user })
  | .deleteRows sessions intents grants =>
    some (.returned,
      { s with
        sessionRows := s.sessionRows.filter (· ∉ sessions)
        intents := s.intents.filter (·.id ∉ intents)
        grants := s.grants.filter (·.id ∉ grants) })
  | .tick microseconds => some (.returned, { s with now := s.now + microseconds })

def step (R : Runtime) (s : State) (action : Action) : Option (Result × State) :=
  if s.loadable action.authSession then s.perform R action else none

end State

/-- All interleavings; a label is a call, or a step of one, with its result. -/
def system (R : Runtime) : System State (Action × Result) := System.calls .init (State.step R)

end WebSSH.StepUp
