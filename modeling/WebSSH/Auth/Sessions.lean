import Mathlib.Data.List.Sort
import WebSSH.Lib.Pending
import WebSSH.StepUp.Grants

/-!
# Logins and authentication sessions

`auth_assurance.py` with `load_user` of `auth.py`. A query and a commit are one step each, and a
call in progress is kept in `calls`. From its first write to its commit a transaction holds the
database's write lock, so that its writes are part of the step of the commit. The tokens that
`secrets.token_urlsafe` draws do not repeat: a token and its digest are the number of the token.
-/

namespace WebSSH.Auth
open Lib StepUp

structure User where
  isAdmin : Bool
  isLocked : Bool
  isLdapManaged : Bool
  isGithubManaged : Bool
  authGeneration : Int
  deriving DecidableEq

/-- What `load_user` and `finalize_login` both ask of an account. -/
def User.eligible (user : User) : Bool :=
  !(user.isLocked || (user.isAdmin && (user.isLdapManaged || user.isGithubManaged)))

structure BeginArgs where
  primaryMethod : String
  /-- `none` is an unsupported value. -/
  assurance : Option AssuranceLevel
  sessionBinding : String
  remember : Bool
  recoveryRequired : Bool
  deriving DecidableEq

/-- `begin_authentication` with the account it was given. -/
structure Begin where
  userId : Nat
  /-- What it writes to its evidence as `_auth_generation`. -/
  generation : Int
  /-- How many invalidations of the account had been committed when it was loaded. -/
  begun : Nat
  primaryMethod : String
  assurance : AssuranceLevel
  sessionBinding : String
  remember : Bool
  recoveryRequired : Bool
  deriving DecidableEq

/-- A row of `pending_authentications`. -/
structure PendingAuthentication extends Begin where
  id : Nat
  token : Nat
  createdAt : Nat
  expiresAt : Nat
  deriving DecidableEq

/-- What a row of `authentication_sessions` holds besides its token. -/
structure SessionData where
  userId : Nat
  assurance : AssuranceLevel
  methods : List String
  authenticatedAt : Nat
  strongAuthenticatedAt : Option Nat
  authGeneration : Int
  expiresAt : Nat
  /-- The `begun` of the login; a replacement counts the invalidation that issued it as well. -/
  begun : Nat
  deriving DecidableEq

structure AuthenticationSession extends SessionData where
  token : Nat
  deriving DecidableEq

/-- How far `finalize_login` has come with a consumed pending authentication. -/
inductive Phase
  | consumed
  /-- No row has its id. -/
  | absent
  | eligible (row : SessionData)
  deriving DecidableEq

/-- A request that presents a login identifier. -/
structure Browser where
  userId : Nat
  /-- `current_user.auth_generation` -/
  generation : Int
  token : Option Nat
  /-- `load_user` has returned the account. -/
  loggedIn : Bool
  deriving DecidableEq

/-- `invalidate_user_authentication` with the account it was given. -/
structure Invalidation where
  userId : Nat
  generation : Int
  /-- `replacement` -/
  replacement : Option SessionData
  deriving DecidableEq

/-- A call between two of its steps, or an object that a request holds. -/
inductive Call
  | beginning (start : Begin)
  | pending (pending : PendingAuthentication) (phase : Phase)
  | browser (browser : Browser)
  | invalidating (invalidation : Invalidation)
  deriving DecidableEq

structure State where
  users : Nat → Option User
  pendings : List PendingAuthentication
  sessions : List AuthenticationSession
  calls : List Call
  /-- How many tokens have been drawn. -/
  tokenCount : Nat
  /-- How many invalidations of each account have been committed. -/
  invalidations : Nat → Nat

inductive Reply
  | raised
  /-- The call goes on. -/
  | running
  /-- `begin_authentication` returns a token. -/
  | token (token : Nat)
  /-- `consume_pending` accepts a token. -/
  | consumed (pending : PendingAuthentication)
  /-- `finalize_login` accepts a consumed pending authentication. -/
  | eligible (pending : PendingAuthentication)
  /-- `finalize_login` returns. -/
  | finalized (pending : PendingAuthentication) (row : AuthenticationSession)
  /-- `load_user` returns the account, for an identifier with or without a session. -/
  | loaded (userId : Nat) (row : Option AuthenticationSession)
  /-- `current_authentication_session` returns the row. -/
  | current (row : AuthenticationSession)
  /-- An invalidation is committed. -/
  | invalidated (userId : Nat) (replacement : Option AuthenticationSession)
  deriving DecidableEq

inductive Action
  /-- The caller has loaded the account. -/
  | begin (userId : Nat) (args : BeginArgs)
  | insertPending (k : Nat) (now : Nat) (fails : Bool)
  | consumePending (token : Nat) (sessionBinding : String) (now : Nat) (fails : Bool)
  | finalizeLogin (k : Nat)
  /-- `fenced` is `ldap_revocation_pending`, `lifetime` is `_session_lifetime`. -/
  | checkAccount (k : Nat) (methods : List String) (strongAuthenticatedAt : Option Nat)
      (fenced : Bool) (now lifetime : Nat)
  | insertSession (k : Nat) (fails : Bool)
  | loadUser (userId : Nat) (generation : Int) (token : Option Nat)
  | loadSession (k : Nat) (now : Nat)
  /-- A commit has expired `current_user`, which is read again. -/
  | refresh (k : Nat)
  | currentAuthenticationSession (k : Nat) (now : Nat) (fails : Bool)
  /-- The caller has loaded the account. -/
  | invalidate (userId : Nat)
  /-- With `preserve_current_browser`, for the request of a browser. -/
  | rotate (k : Nat) (now : Nat) (fails : Bool)
  | commitInvalidation (k : Nat) (fails : Bool)
  /-- Other code changes an account, but not its generation. -/
  | setUser (userId : Nat) (user : User)
  deriving DecidableEq

/-- `_PENDING_TTL`, in microseconds. -/
def pendingTtl : Nat := 5 * 60 * 1000000

def maxPendingPerUser : Nat := 5
def maxMethods : Nat := 8

/-- `_normalize_methods`; `none` is an exception. -/
def normalizeMethods (R : Runtime) (methods : List String) (primaryMethod : String) :
    Option (List String) := do
  let normalized ← methods.mapM (normalizeMethod R)
  let normalized := normalized.reverse.dedup.reverse
  if normalized = [] ∨ maxMethods < normalized.length ∨ primaryMethod ∉ normalized then none
  else some normalized

namespace State

/-- The call at `k` takes a step and goes on as `next`. -/
def advance (s : State) (k : Nat) (next : List Call) : State :=
  { s with calls := s.calls.eraseIdx k ++ next }

/-! ## Pending authentications -/

/-- `begin_authentication` before its first write. -/
def startBegin (R : Runtime) (s : State) (userId : Nat) (args : BeginArgs) : Option Begin := do
  let user ← s.users userId
  let method ← normalizeMethod R args.primaryMethod
  let assurance ← args.assurance
  if args.sessionBinding = "" ∨ 512 < args.sessionBinding.length then none
  else
    some ⟨userId, user.authGeneration, s.invalidations userId, method, assurance,
      args.sessionBinding, args.remember, args.recoveryRequired⟩

/-- The rows that `begin_authentication` leaves: none that has expired, and of the account only
the newest. -/
def livePendings (s : State) (userId now : Nat) : List PendingAuthentication :=
  let rows := s.pendings.filter (now < ·.expiresAt)
  let live := (rows.filter (·.userId = userId)).insertionSort (fun a b => b.createdAt ≤ a.createdAt)
  let stale := live.drop (maxPendingPerUser - 1)
  rows.filter (·.id ∉ stale.map (·.id))

def storePending (s : State) (start : Begin) (now : Nat) : State :=
  let rows := s.livePendings start.userId now
  { s with
    tokenCount := s.tokenCount + 1
    pendings := rows ++
      [⟨start, nextId (rows.map (·.id)), s.tokenCount, now, now + pendingTtl⟩] }

/-- The row that the statement of `consume_pending` deletes. -/
def findPending (s : State) (token : Nat) (sessionBinding : String) (now : Nat) :
    Option PendingAuthentication :=
  s.pendings.find? fun row =>
    row.token = token ∧ row.sessionBinding = sessionBinding ∧ now < row.expiresAt

def deletePending (s : State) (token : Nat) : State :=
  { s with pendings := s.pendings.filter (·.token ≠ token) }

/-! ## Logins -/

/-- The checks of `finalize_login` on the account and the row it is going to store. -/
def checkAccount (R : Runtime) (s : State) (pending : PendingAuthentication)
    (methods : List String) (strongAuthenticatedAt : Option Nat) (fenced : Bool)
    (now lifetime : Nat) : Option SessionData := do
  let user ← s.users pending.userId
  if !user.eligible || (user.isLdapManaged && fenced) || user.authGeneration ≠ pending.generation
  then none
  else
    let methods ← normalizeMethods R methods pending.primaryMethod
    let strong := strongAuthenticatedAt <|>
      if pending.assurance = .basic then none else some now
    some ⟨pending.userId, pending.assurance, methods, now, strong, user.authGeneration,
      now + lifetime, pending.begun⟩

/-- The row under the next token. -/
def newSession (s : State) (data : SessionData) : AuthenticationSession := ⟨data, s.tokenCount⟩

def storeSession (s : State) (data : SessionData) : State :=
  { s with
    tokenCount := s.tokenCount + 1
    sessions := s.sessions ++ [s.newSession data] }

/-! ## Login identifiers -/

def findSession (s : State) (token : Nat) : Option AuthenticationSession :=
  s.sessions.find? (·.token = token)

/-- `load_user` up to the lookup of the session. -/
def loadUser (s : State) (userId : Nat) (generation : Int) : Option User := do
  if userId = 0 ∨ generation < 0 then none
  else
    let user ← s.users userId
    if user.eligible ∧ user.authGeneration = generation then some user else none

/-- `authentication_session_for_token` -/
def sessionForToken (s : State) (browser : Browser) (now : Nat) : Option AuthenticationSession := do
  let row ← s.findSession (← browser.token)
  if row.expiresAt ≤ now ∨ row.userId ≠ browser.userId ∨ row.authGeneration ≠ browser.generation
  then none
  else some row

/-- `current_authentication_session` deletes a row that has expired. -/
def dropExpired (s : State) (browser : Browser) (now : Nat) (fails : Bool) : State :=
  if fails then s
  else
    { s with sessions := s.sessions.filter fun row =>
        ¬(some row.token = browser.token ∧ row.expiresAt ≤ now) }

/-! ## Invalidation -/

/-- The session that keeps the browser logged in. -/
def replacementRow (s : State) (invalidation : Invalidation) : Option AuthenticationSession :=
  invalidation.replacement.map fun data => s.newSession
    { data with authGeneration := invalidation.generation + 1, begun := data.begun + 1 }

/-- The commit of `invalidate_user_authentication`: the rows of the account are deleted, its
generation is written, and the replacement is stored. -/
def invalidate (s : State) (invalidation : Invalidation) : State :=
  { s with
    users := Function.update s.users invalidation.userId
      ((s.users invalidation.userId).map fun user =>
        { user with authGeneration := invalidation.generation + 1 })
    pendings := s.pendings.filter (·.userId ≠ invalidation.userId)
    sessions := s.sessions.filter (·.userId ≠ invalidation.userId) ++
      (s.replacementRow invalidation).toList
    tokenCount := s.tokenCount + 1
    invalidations := Function.update s.invalidations invalidation.userId
      (s.invalidations invalidation.userId + 1) }

def setUser (s : State) (userId : Nat) (user : User) : State :=
  { s with
    users := Function.update s.users userId
      ((s.users userId).map fun old => { user with authGeneration := old.authGeneration }) }

end State

/-! ## Steps -/

section
variable (R : Runtime)

/-- The next step of a call; `none` when the action is not one of its steps. -/
def resume (s : State) (k : Nat) : Call → Action → Option (Reply × State)
  | .beginning start, .insertPending _ now fails =>
    if fails then some (.raised, s.advance k [])
    else some (.token s.tokenCount, (s.storePending start now).advance k [])
  | .pending pending .consumed, .finalizeLogin _ =>
    if s.pendings.any (·.id = pending.id) then some (.raised, s)
    else some (.running, s.advance k [.pending pending .absent])
  | .pending pending .absent, .checkAccount _ methods strong fenced now lifetime =>
    match s.checkAccount R pending methods strong fenced now lifetime with
    | none => some (.raised, s.advance k [.pending pending .consumed])
    | some row => some (.eligible pending, s.advance k [.pending pending (.eligible row)])
  | .pending pending (.eligible row), .insertSession _ fails =>
    if fails then some (.raised, s.advance k [.pending pending .consumed])
    else some (.finalized pending (s.newSession row), (s.storeSession row).advance k [])
  | .browser browser, .loadSession _ now =>
    if browser.loggedIn then none
    else
      match s.sessionForToken browser now with
      | none => some (.raised, s.advance k [])
      | some row =>
        some (.loaded browser.userId (some row),
          s.advance k [.browser { browser with loggedIn := true }])
  | .browser browser, .refresh _ =>
    if browser.loggedIn then
      match s.users browser.userId with
      | none => some (.raised, s.advance k [])
      | some user =>
        some (.running, s.advance k [.browser { browser with generation := user.authGeneration }])
    else none
  | .browser browser, .currentAuthenticationSession _ now fails =>
    if browser.loggedIn then
      match s.sessionForToken browser now with
      | none => some (.raised, s.dropExpired browser now fails)
      | some row => some (.current row, s)
    else none
  | .browser browser, .rotate _ now fails =>
    if browser.loggedIn then
      match s.sessionForToken browser now with
      | none => some (.raised, s.dropExpired browser now fails)
      | some row =>
        some (.current row, s.advance k [.browser browser,
          .invalidating ⟨browser.userId, browser.generation, some row.toSessionData⟩])
    else none
  | .invalidating invalidation, .commitInvalidation _ fails =>
    if fails then some (.raised, s.advance k [])
    else
      some (.invalidated invalidation.userId (s.replacementRow invalidation),
        (s.invalidate invalidation).advance k [])
  | _, _ => none

/-- The call that an action resumes. -/
def Action.call? : Action → Option Nat
  | .insertPending k .. | .finalizeLogin k | .checkAccount k .. | .insertSession k _
  | .loadSession k _ | .refresh k | .currentAuthenticationSession k .. | .rotate k ..
  | .commitInvalidation k _ => some k
  | _ => none

def step (s : State) : Action → Option (Reply × State)
  | .begin userId args =>
    match s.startBegin R userId args with
    | none => some (.raised, s)
    | some start => some (.running, { s with calls := s.calls ++ [.beginning start] })
  | .consumePending token sessionBinding now fails =>
    if fails then some (.raised, s)
    else
      match s.findPending token sessionBinding now with
      | none => some (.raised, s)
      | some row =>
        some (.consumed row,
          { s.deletePending token with calls := s.calls ++ [.pending row .consumed] })
  | .loadUser userId generation token =>
    -- a token becomes known with the answer that hands it out
    if token.any (s.tokenCount ≤ ·) then none
    else
      match s.loadUser userId generation with
      | none => some (.raised, s)
      | some _ =>
        some (if token.isNone then .loaded userId none else .running,
          { s with calls := s.calls ++ [.browser ⟨userId, generation, token, token.isNone⟩] })
  | .invalidate userId =>
    match s.users userId with
    | none => some (.raised, s)
    | some user =>
      some (.running,
        { s with calls := s.calls ++ [.invalidating ⟨userId, user.authGeneration, none⟩] })
  | .setUser userId user => some (.running, s.setUser userId user)
  | action => do
    let k ← action.call?
    let call ← s.calls[k]?
    resume R s k call action

def State.init (users : Nat → Option User) : State where
  users := users
  pendings := []
  sessions := []
  calls := []
  tokenCount := 0
  invalidations _ := 0

def system (users : Nat → Option User) : System State (Action × Reply) :=
  .calls (.init users) (step R)

end

end WebSSH.Auth
