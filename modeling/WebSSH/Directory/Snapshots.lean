import Mathlib.Logic.Function.Basic
import WebSSH.Lib.Dict
import WebSSH.Lib.Python
import WebSSH.Lib.System
import WebSSH.Directory.Listing

/-!
# Directory snapshots

The pagination of `FileService` in `file_service.py`. A call proceeds by one block under
`_directory_snapshot_lock` or under the lock of a snapshot at a time, and the calls are
interleaved freely; opening, reading and closing a listing take two steps each, with any steps of
the other calls between them.
-/

namespace WebSSH.Directory
open Lib Python

/-- The configuration, and the hex digest of HMAC-SHA-256 of a key and a message. -/
structure Runtime where
  pageSize : Nat
  snapshotTtl : Nat
  maxPerUser : Nat
  maxStates : Nat
  hmacSha256 : Bytes → Bytes → String

/-- `source`, as resolved. -/
structure Source where
  sourceId : String
  handleId : String
  backendId : Nat
  /-- The backend has an `open_directory_listing`. -/
  paginated : Bool
  deriving DecidableEq

/-- What a snapshot is bound to. -/
structure Binding where
  owner : String
  sourceId : String
  path : String
  handleId : String
  backendId : Nat
  clientId : String
  deriving DecidableEq

inductive Status
  | opening
  | active
  | cancelled
  | closing
  deriving DecidableEq

/-- What a cancellation makes of a status. -/
def Status.cancel : Status → Status
  | .opening | .cancelled => .cancelled
  | .active | .closing => .closing

/-- A `state`, with the key it is registered under. -/
structure Snapshot where
  /-- The number of the call that has reserved it. -/
  opener : Nat
  id : String
  binding : Binding
  requestId : String
  /-- `state['listing']` is not `None`. -/
  listing : Bool
  nextOffset : Nat
  signingKey : Bytes
  lastUsed : Nat
  status : Status
  cancelWaiter : Bool
  closeStarted : Bool
  /-- A call holds `state['lock']` beyond one step. -/
  locked : Bool
  closed : Bool
  deriving DecidableEq

/-- What stands where no snapshot was reserved yet. -/
def Snapshot.unused : Snapshot :=
  ⟨0, "", ⟨"", "", "", "", 0, ""⟩, "", false, 0, [], 0, .closing, false, true, false, true⟩

/-- What `open_directory_listing` does: the entries of the listing and the end of them, or an
error. -/
inductive Opening (α : Type)
  | raised
  | returned (listing : Option (List α × Ending)) (error : Option String)

/-- What a call returns. -/
inductive Reply (α : Type)
  | page (entries : List α) (cursor : Option String)
  | error (message : String)
  | cancelled (matched : Bool)
  | raised
  | done
  deriving DecidableEq

/-- `list_directory_page` with the cursor 0. -/
structure PageZero (α : Type) where
  binding : Binding
  requestId : String
  /-- What `secrets.token_urlsafe` returns, one after another. -/
  ids : List String
  /-- What `secrets.token_bytes` returns. -/
  signingKey : Bytes
  lastUsed : Nat
  opening : Opening α

/-- `_continue_directory_snapshot`, with the parsed cursor. -/
structure Continuation where
  binding : Binding
  snapshotId : String
  offset : Nat
  signature : String
  now : Nat
  deriving DecidableEq

/-- `cancel_directory_snapshot`, with the parsed cursor. -/
structure Cancellation where
  owner : String
  sourceId : String
  clientId : String
  offset : Nat
  signature : String
  deriving DecidableEq

/-- Where a call is; a snapshot is given by its number. -/
inductive Pc (α : Type)
  | reserving (request : PageZero α)
  /-- `open_directory_listing` is running. -/
  | opening (n : Nat) (opening : Opening α)
  | opened (n : Nat) (listing : Bool) (error : Option String)
  | checkingOpened (n : Nat)
  /-- The first `read_page` is running. -/
  | readingFirst (n : Nat)
  | activating (n : Nat) (page : List α) (now : Nat)
  | publishing (n : Nat) (page : List α)
  | pruning (request : Continuation)
  | lookingUp (request : Continuation)
  | locking (request : Continuation) (n : Nat)
  /-- From here on the call holds the lock of the snapshot. -/
  | checking (request : Continuation) (n : Nat)
  /-- `read_page` is running. -/
  | reading (request : Continuation) (n : Nat)
  | advanced (n : Nat) (page : List α)
  | electing (n : Nat) (reply : Reply α)
  /-- `_retire_directory_snapshot`, and then the reply. -/
  | retiring (n : Nat) (reply : Reply α)
  | cancelling (request : Cancellation) (n : Nat)
  /-- For the `closed` event of the snapshots. -/
  | waiting (ns : List Nat) (reply : Reply α)
  | expiring (n : Nat) (expectedLastUsed : Nat)
  | returning (reply : Reply α)

/-- Where a `_close_directory_state` is. -/
inductive Stage
  | take
  /-- With whether there is a listing to close. -/
  | close (listing : Bool)
  /-- `listing.close()` is running. -/
  | closing
  | pop
  deriving DecidableEq

/-- A call: it closes the snapshots of `closing`, and then goes on. -/
structure Call (α : Type) where
  /-- Its number among all that were started. -/
  number : Nat
  closing : List Nat
  stage : Stage
  pc : Pc α

/-- An armed `Timer`. The timers a snapshot had before are cancelled. -/
structure Timer where
  snapshot : Nat
  expectedLastUsed : Nat
  due : Nat
  deriving DecidableEq

/-- A page that a call returns. -/
structure Page (α : Type) where
  call : Nat
  snapshot : Nat
  entries : List α
  deriving DecidableEq

/-- A cursor was accepted when `served` entries of the snapshot had been returned. -/
structure Acceptance where
  call : Nat
  snapshot : Nat
  request : Continuation
  served : Nat
  deriving DecidableEq

/-- What the other code and the environment do. -/
inductive Action (α : Type)
  | listDirectoryPage (userId : String) (source : Source) (path : String)
      (clientId requestId : Option String) (ids : List String) (signingKey : Bytes)
      (opening : Opening α)
  | continueDirectoryPage (userId : String) (source : Source) (path cursor : String)
      (clientId : Option String)
  | cancelDirectorySnapshot (cursor userId sourceId : String) (clientId : Option String)
  | cancelDirectoryRequest (requestId userId sourceId : String) (clientId : Option String)
  | discardDirectorySnapshots (userId sourceId clientId : Option String)
  /-- The next step of a call. -/
  | proceed (k : Nat)
  /-- A timer calls `_expire_directory_snapshot`. -/
  | fire (timer : Timer)
  | tick (time : Nat)

structure State (α : Type) where
  now : Nat
  /-- The calls that were started. -/
  started : List (Action α)
  /-- `_directory_snapshots` -/
  registry : Dict String Nat
  snapshotCount : Nat
  snapshots : Nat → Snapshot
  /-- The listing a snapshot has opened. -/
  listings : Nat → Option (Listing α)
  /-- What it yields in all. -/
  listed : Nat → List α
  timers : List Timer
  calls : List (Call α)
  /-- The snapshots whose `listing.close()` was called. -/
  closeCalls : List Nat
  pages : List (Page α)
  accepted : List Acceptance

/-- After a step, a call goes on or returns. -/
inductive Next (α : Type)
  | call (call : Call α)
  | reply (reply : Reply α)

variable {α : Type} (R : Runtime)

/-! ## Cursors -/

/-- `_directory_cursor`, its signature. -/
def directorySignature (snapshotId : String) (offset : Nat) (signingKey : Bytes) : String :=
  let message := encode (snapshotId ++ ":" ++ toString offset)
  String.ofList ((R.hmacSha256 signingKey message).toList.take 32)

def directoryCursor (snapshotId : String) (offset : Nat) (signingKey : Bytes) : String :=
  "v1." ++ snapshotId ++ "." ++ toString offset ++ "." ++
    directorySignature R snapshotId offset signingKey

/-- A match of the class `{low,high}`. -/
def isRepeated (low high : Nat) (p : Char → Bool) (text : List Char) : Bool :=
  low ≤ text.length && text.length ≤ high && text.all p

def parseDirectoryCursor (cursor : String) : Option (String × Nat × String) :=
  match cursor.toList.splitOn '.' with
  | [version, snapshotId, offset, signature] =>
    if cursor.toList.length ≤ 160 ∧ version = ['v', '1'] ∧
        isRepeated 16 64 (fun c => c.isAlphanum || c = '_' || c = '-') snapshotId ∧
        isRepeated 1 8 Char.isDigit offset ∧ offset.head? ≠ some '0' ∧
        isRepeated 32 32 (fun c => c.isDigit || c ∈ ['a', 'b', 'c', 'd', 'e', 'f']) signature then
      some (String.ofList snapshotId, offset.foldl (fun n c => 10 * n + (c.toNat - 48)) 0,
        String.ofList signature)
    else none
  | _ => none

def validDirectoryRequestId (requestId : String) : Bool :=
  isRepeated 1 128 (fun c => c.isAlphanum || c ∈ [':', '.', '_', '-']) requestId.toList

/-- `'' if client_id is None else str(client_id)` -/
def clientKey (clientId : Option String) : String := clientId.getD ""

/-! ## The registry -/

namespace State

variable (s : State α) (c : Nat)

def init : State α where
  now := 0
  started := []
  registry := ∅
  snapshotCount := 0
  snapshots _ := .unused
  listings _ := none
  listed _ := []
  timers := []
  calls := []
  closeCalls := []
  pages := []
  accepted := []

def update (n : Nat) (f : Snapshot → Snapshot) : State α :=
  { s with snapshots := Function.update s.snapshots n (f (s.snapshots n)) }

/-- `_directory_snapshots.get(snapshot_id) is state` -/
def registered (n : Nat) : Bool := s.registry.get? (s.snapshots n).id = some n

def status (n : Nat) : Status := (s.snapshots n).status

/-- The entries of a snapshot that are returned. -/
def served (n : Nat) : List α := (s.pages.filter (·.snapshot = n)).flatMap (·.entries)

/-- Snapshots that are to be closed. -/
def markClosing (ns : List Nat) : State α :=
  { s with snapshots := fun n =>
      if n ∈ ns then { s.snapshots n with status := .closing } else s.snapshots n }

/-- Cancel snapshots, opening or active. -/
def cancelAll (ns : List Nat) (cancelWaiter : Nat → Bool) : State α :=
  { s with snapshots := fun n =>
      if n ∈ ns then
        { s.snapshots n with status := (s.status n).cancel, cancelWaiter := cancelWaiter n }
      else s.snapshots n }

/-- `_prune_directory_snapshots_locked` -/
def prune (now : Nat) : List Nat :=
  s.registry.values.filter fun n =>
    s.status n = .active ∧ R.snapshotTtl ≤ now - (s.snapshots n).lastUsed

def ownerCount (owner : String) : Nat :=
  s.registry.values.countP fun n => (s.snapshots n).binding.owner = owner

/-- `min` of `(last_used, snapshot_id)` -/
def oldest (s : State α) : List Nat → Option Nat
  | [] => none
  | n :: ns =>
    match oldest s ns with
    | none => some n
    | some m =>
      if (s.snapshots n).lastUsed < (s.snapshots m).lastUsed ∨
          (s.snapshots n).lastUsed = (s.snapshots m).lastUsed ∧
            strLe (s.snapshots n).id (s.snapshots m).id then some n
      else some m

/-- `_retire_for_directory_capacity_locked` -/
def retireForCapacity (owner : String) : List Nat :=
  let owned := s.registry.values.filter fun n =>
    (s.snapshots n).binding.owner = owner ∧ s.status n = .active
  if R.maxPerUser ≤ s.ownerCount owner then (s.oldest owned).toList
  else if R.maxStates ≤ s.registry.size then (s.oldest owned).toList
  else []

/-- `state['timer'].cancel()` -/
def disarm (n : Nat) : State α := { s with timers := s.timers.filter (·.snapshot ≠ n) }

/-- `_arm_directory_snapshot_locked` -/
def arm (n : Nat) : State α :=
  { s.disarm n with timers := (s.disarm n).timers ++
      [⟨n, (s.snapshots n).lastUsed, s.now + R.snapshotTtl⟩] }

def serve (n : Nat) (page : List α) : State α :=
  { s with pages := s.pages ++ [⟨c, n, page⟩] }

def unlock (n : Nat) : State α := s.update n ({ · with locked := false })

/-! ## Closing -/

/-- `_close_directory_state` of the first snapshot of a call; `none` while it waits. -/
def close (n : Nat) (rest : List Nat) (pc : Pc α) : Stage → Option (State α × Call α)
  | .take =>
    if (s.snapshots n).locked then none
    else if (s.snapshots n).closeStarted then some (s, ⟨c, rest, .take, pc⟩)
    else
      some
        ((s.update n
            ({ · with closeStarted := true, cancelWaiter := true, listing := false })).disarm n,
          ⟨c, n :: rest, .close (s.snapshots n).listing, pc⟩)
  | .close true => some ({ s with closeCalls := s.closeCalls ++ [n] }, ⟨c, n :: rest, .closing, pc⟩)
  | .close false => some (s, ⟨c, n :: rest, .pop, pc⟩)
  | .closing =>
    some
      ({ s with listings := Function.update s.listings n ((s.listings n).map Listing.close) },
        ⟨c, n :: rest, .pop, pc⟩)
  | .pop =>
    some
      ({ s.update n ({ · with closed := true }) with
          registry := if s.registered n then s.registry.erase (s.snapshots n).id else s.registry },
        ⟨c, rest, .take, pc⟩)

/-- The call goes on with `pc`. -/
def goto (pc : Pc α) : Option (State α × Next α) := some (s, .call ⟨c, [], .take, pc⟩)

/-- The call closes `ns` first. -/
def gotoClosing (ns : List Nat) (pc : Pc α) : Option (State α × Next α) :=
  some (s, .call ⟨c, ns, .take, pc⟩)

def reply (reply : Reply α) : Option (State α × Next α) := some (s, .reply reply)

/-- The registry block of `_retire_directory_snapshot`. -/
def retire (n : Nat) (reply : Reply α) : Option (State α × Next α) :=
  if s.registered n then
    (s.update n ({ · with status := .closing })).gotoClosing c [n] (.returning reply)
  else s.reply reply

/-! ## The first page -/

/-- What is closed before a new snapshot is reserved. -/
def toRetire (owner : String) : List Nat :=
  let retired := s.prune R s.now
  if retired = [] then s.retireForCapacity R owner else retired

/-- One round of `_reserve_directory_snapshot`. -/
def reserve (request : PageZero α) : Option (State α × Next α) :=
  let retired := s.toRetire R request.binding.owner
  if retired ≠ [] then (s.markClosing retired).gotoClosing c retired (.reserving request)
  else if R.maxPerUser ≤ s.ownerCount request.binding.owner ∨
      R.maxStates ≤ s.registry.size then
    s.reply (.error "Too many active directory listings")
  else
    match request.ids.find? fun id => !s.registry.contains id with
    | none => s.goto c (.reserving request)
    | some id =>
      let n := s.snapshotCount
      { s with
        registry := s.registry.set id n
        snapshotCount := n + 1
        snapshots := Function.update s.snapshots n
          ⟨c, id, request.binding, request.requestId, false, 0, request.signingKey, request.lastUsed,
            .opening, false, false, false, false⟩ }.goto c (.opening n request.opening)

/-- `open_directory_listing` returns. -/
def openListing (n : Nat) : Opening α → Option (State α × Next α)
  | .raised => s.goto c (.retiring n .raised)
  | .returned none error => s.goto c (.opened n false error)
  | .returned (some (entries, ending)) error =>
    { s with
      listings := Function.update s.listings n (some (Listing.new entries ending))
      listed := Function.update s.listed n entries }.goto c (.opened n true error)

/-- `with state['lock']: state['listing'] = listing`, and the check of it. -/
def storeListing (n : Nat) (listing : Bool) (error : Option String) : Option (State α × Next α) :=
  if (s.snapshots n).locked then none
  else
    let s := s.update n ({ · with listing := listing })
    match error.filter (· ≠ ""), listing with
    | some error, _ => s.goto c (.retiring n (.error error))
    | none, false => s.goto c (.retiring n (.error "Directory pagination unavailable"))
    | none, true => s.goto c (.checkingOpened n)

def cancelledMessage : String := "Directory listing cancelled"

def checkOpened (n : Nat) : Option (State α × Next α) :=
  if s.registered n ∧ s.status n = .opening then s.goto c (.readingFirst n)
  else s.goto c (.retiring n (.error cancelledMessage))

/-- `error or 'Invalid directory response'` -/
def responseError (error : String) : String :=
  if error = "" then "Invalid directory response" else error

/-- The first `read_page` returns. -/
def readFirst (n : Nat) : Option (State α × Next α) :=
  match s.listings n with
  | none => s.goto c (.retiring n .raised)
  | some listing =>
    let (result, listing) := listing.readPage R.pageSize
    let s := { s with listings := Function.update s.listings n (some listing) }
    match result with
    | ⟨_, some error, _⟩ => s.goto c (.retiring n (.error (responseError error)))
    | ⟨none, none, _⟩ => s.goto c (.retiring n (.error "Invalid directory response"))
    | ⟨some page, none, hasMore⟩ =>
      if R.pageSize < page.length then
        s.goto c (.retiring n (.error "Invalid directory response"))
      else if !hasMore then (s.serve c n page).goto c (.retiring n (.page page none))
      else if page = [] then s.goto c (.retiring n (.error "Invalid directory response"))
      else s.goto c (.activating n page s.now)

def activate (n : Nat) (page : List α) (now : Nat) : Option (State α × Next α) :=
  if s.registered n ∧ s.status n = .opening then
    (((s.update n ({ · with status := .active, nextOffset := page.length, lastUsed := now })).arm R
      n).serve c n page).goto c (.publishing n page)
  else s.goto c (.retiring n (.error cancelledMessage))

def publish (n : Nat) (page : List α) : Option (State α × Next α) :=
  let snapshot := s.snapshots n
  s.reply (.page page (some (directoryCursor R snapshot.id snapshot.nextOffset snapshot.signingKey)))

/-! ## The next pages -/

def expiredCursor : String := "Invalid or expired directory cursor"

def lookUp (request : Continuation) : Option (State α × Next α) :=
  match s.registry.get? request.snapshotId with
  | none => s.reply (.error expiredCursor)
  | some n => s.goto c (.locking request n)

def lock (request : Continuation) (n : Nat) : Option (State α × Next α) :=
  if (s.snapshots n).locked then none
  else (s.update n ({ · with locked := true })).goto c (.checking request n)

/-- The checks under the locks; then `read_page` is called. -/
def check (request : Continuation) (n : Nat) : Option (State α × Next α) :=
  let snapshot := s.snapshots n
  if s.registry.get? request.snapshotId ≠ some n ∨ s.status n ≠ .active ∨
      request.signature ≠
        directorySignature R request.snapshotId request.offset snapshot.signingKey ∨
      snapshot.binding ≠ request.binding ∨ request.offset ≠ snapshot.nextOffset then
    (s.unlock n).reply (.error expiredCursor)
  else
    let accepted : List Acceptance := s.accepted ++ [⟨c, n, request, (s.served n).length⟩]
    { s with accepted := accepted }.goto c (.reading request n)

/-- `read_page` returns. -/
def read (request : Continuation) (n : Nat) : Option (State α × Next α) :=
  match (s.snapshots n).listing, s.listings n with
  | true, some listing =>
    let (result, listing) := listing.readPage R.pageSize
    let s := { s with listings := Function.update s.listings n (some listing) }
    match result with
    | ⟨_, some error, _⟩ => s.goto c (.electing n (.error (responseError error)))
    | ⟨none, none, _⟩ => s.goto c (.electing n (.error "Invalid directory response"))
    | ⟨some page, none, hasMore⟩ =>
      if R.pageSize < page.length ∨ hasMore ∧ page = [] then
        s.goto c (.electing n (.error "Invalid directory response"))
      else if !hasMore then (s.serve c n page).goto c (.electing n (.page page none))
      else
        (s.update n fun snapshot =>
          { snapshot with
            nextOffset := snapshot.nextOffset + page.length
            lastUsed := request.now }).goto c (.advanced n page)
  | _, _ => (s.unlock n).reply .raised

/-- The registry block after a page that is not the last one. -/
def advance (n : Nat) (page : List α) : Option (State α × Next α) :=
  let snapshot := s.snapshots n
  let cursor := directoryCursor R snapshot.id snapshot.nextOffset snapshot.signingKey
  if ¬ s.registered n then (s.unlock n).reply (.error expiredCursor)
  else
    match s.status n with
    | .active => (((s.arm R n).serve c n page).unlock n).reply (.page page (some cursor))
    | .closing => ((s.serve c n page).unlock n).reply (.page page (some cursor))
    | .opening | .cancelled => (s.unlock n).reply (.error expiredCursor)

/-- The registry block after the last page. -/
def elect (n : Nat) (reply : Reply α) : Option (State α × Next α) :=
  if s.registered n ∧ s.status n = .active then
    ((s.update n ({ · with status := .closing, cancelWaiter := true })).unlock n).goto c
      (.retiring n reply)
  else (s.unlock n).goto c (.retiring n reply)

/-! ## Cancellation and expiry -/

/-- The second registry block of `cancel_directory_snapshot`. -/
def cancelSnapshot (request : Cancellation) (n : Nat) : Option (State α × Next α) :=
  let snapshot := s.snapshots n
  if ¬ s.registered n ∨
      request.signature ≠
        directorySignature R snapshot.id request.offset snapshot.signingKey ∨
      snapshot.binding.owner ≠ request.owner ∨ snapshot.binding.sourceId ≠ request.sourceId ∨
      snapshot.binding.clientId ≠ request.clientId then
    s.reply (.cancelled false)
  else
    match snapshot.status with
    | .active =>
      let s := s.update n ({ · with status := .closing, cancelWaiter := true })
      if snapshot.cancelWaiter then s.reply (.cancelled true)
      else s.gotoClosing c [n] (.returning (.cancelled true))
    | .cancelled | .closing =>
      if snapshot.cancelWaiter then s.reply (.cancelled true)
      else (s.update n ({ · with cancelWaiter := true })).goto c (.waiting [n] (.cancelled true))
    | .opening => s.reply (.cancelled false)

/-- The snapshots a `cancel_directory_request` matches. -/
def matching (requestId owner sourceId clientId : String) : List Nat :=
  s.registry.values.filter fun n =>
    (s.snapshots n).requestId = requestId ∧ (s.snapshots n).binding.owner = owner ∧
      (s.snapshots n).binding.sourceId = sourceId ∧ (s.snapshots n).binding.clientId = clientId

/-- The registry block of `cancel_directory_request`. -/
def cancelRequest (requestId owner sourceId clientId : String) : Option (State α × Next α) :=
  let matched := s.matching requestId owner sourceId clientId
  let retired := matched.filter fun n => s.status n = .active
  let waits := matched.filter fun n => s.status n ≠ .active ∧ ¬ (s.snapshots n).cancelWaiter
  (s.cancelAll matched fun _ => true).gotoClosing c retired
    (.waiting waits (.cancelled (matched ≠ [])))

/-- The registry block of `discard_directory_snapshots`. -/
def discard (owner sourceId clientId : Option String) : Option (State α × Next α) :=
  let matched := s.registry.values.filter fun n =>
    (∀ owner' ∈ owner, (s.snapshots n).binding.owner = owner') ∧
      (∀ sourceId' ∈ sourceId, (s.snapshots n).binding.sourceId = sourceId') ∧
      ∀ clientId' ∈ clientId, (s.snapshots n).binding.clientId = clientId'
  let retired := matched.filter fun n => s.status n = .active
  (s.cancelAll matched fun n => (s.snapshots n).cancelWaiter).gotoClosing c retired (.returning .done)

/-- The registry block of `_expire_directory_snapshot`. -/
def expire (n : Nat) (expectedLastUsed : Nat) : Option (State α × Next α) :=
  if ¬ s.registered n ∨ (s.snapshots n).lastUsed ≠ expectedLastUsed ∨ s.status n ≠ .active then
    s.reply .done
  else (s.update n ({ · with status := .closing })).gotoClosing c [n] (.returning .done)

/-! ## Steps -/

/-- The next step of a call that closes nothing; `none` while it waits. -/
def continueCall : Pc α → Option (State α × Next α)
  | .reserving request => s.reserve R c request
  | .opening n opening => s.openListing c n opening
  | .opened n listing error => s.storeListing c n listing error
  | .checkingOpened n => s.checkOpened c n
  | .readingFirst n => s.readFirst R c n
  | .activating n page now => s.activate R c n page now
  | .publishing n page => s.publish R n page
  | .pruning request =>
    let retired := s.prune R request.now
    (s.markClosing retired).gotoClosing c retired (.lookingUp request)
  | .lookingUp request => s.lookUp c request
  | .locking request n => s.lock c request n
  | .checking request n => s.check R c request n
  | .reading request n => s.read R c request n
  | .advanced n page => s.advance R c n page
  | .electing n reply => s.elect c n reply
  | .retiring n reply => s.retire c n reply
  | .cancelling request n => s.cancelSnapshot R c request n
  | .waiting [] reply => s.reply reply
  | .waiting (n :: ns) reply =>
    if (s.snapshots n).closed then s.goto c (.waiting ns reply) else none
  | .expiring n expectedLastUsed => s.expire c n expectedLastUsed
  | .returning reply => s.reply reply

/-- The next step of a call. -/
def proceed (call : Call α) : Option (State α × Next α) :=
  match call.closing with
  | [] => s.continueCall R call.number call.pc
  | n :: rest => (s.close call.number n rest call.pc call.stage).map fun (s, call) => (s, .call call)

/-! ## Calls -/

def binding (userId : String) (source : Source) (path : String) (clientId : Option String) :
    Binding :=
  ⟨userId, source.sourceId, path, source.handleId, source.backendId, clientKey clientId⟩

/-- What a call returned, if it did. -/
def answer (c : Nat) (next : Option (State α × Next α)) :
    Option (Option (Nat × Reply α) × State α) :=
  next.map fun
    | (s, .call call) => (none, { s with calls := s.calls ++ [call] })
    | (s, .reply reply) => (some (c, reply), s)

/-- The first step of a call. -/
def enter : Action α → Option (State α × Next α)
  | .listDirectoryPage userId source path clientId requestId ids signingKey opening =>
    if source.paginated then
      let requestId := (requestId.filter validDirectoryRequestId).getD ""
      s.goto c (.reserving ⟨binding userId source path clientId, requestId, ids, signingKey, s.now,
        opening⟩)
    else s.reply (.error "Directory pagination unavailable")
  | .continueDirectoryPage userId source path cursor clientId =>
    match parseDirectoryCursor cursor with
    | none => s.reply (.error expiredCursor)
    | some (snapshotId, offset, signature) =>
      s.goto c (.pruning ⟨binding userId source path clientId, snapshotId, offset, signature, s.now⟩)
  | .cancelDirectorySnapshot cursor userId sourceId clientId =>
    match parseDirectoryCursor cursor with
    | none => s.reply (.cancelled false)
    | some (snapshotId, offset, signature) =>
      match s.registry.get? snapshotId with
      | none => s.reply (.cancelled false)
      | some n => s.goto c (.cancelling ⟨userId, sourceId, clientKey clientId, offset, signature⟩ n)
  | .cancelDirectoryRequest requestId userId sourceId clientId =>
    if validDirectoryRequestId requestId then
      s.cancelRequest c requestId userId sourceId (clientKey clientId)
    else s.reply (.cancelled false)
  | .discardDirectorySnapshots userId sourceId clientId => s.discard c userId sourceId clientId
  | .fire timer =>
    if timer ∈ s.timers ∧ timer.due ≤ s.now then
      { s with timers := s.timers.erase timer }.goto c
        (.expiring timer.snapshot timer.expectedLastUsed)
    else none
  | .proceed _ | .tick _ => none

def step : Action α → Option (Option (Nat × Reply α) × State α)
  | .proceed k =>
    (s.calls[k]?).bind fun call =>
      answer call.number ({ s with calls := s.calls.eraseIdx k }.proceed R call)
  | .tick time => some (none, { s with now := s.now + time })
  | action =>
    answer s.started.length
      ({ s with started := s.started ++ [action] }.enter s.started.length action)

end State

/-- All interleavings; a label is an action, with what the call it ends returned and the number of
that call. -/
def system : System (State α) (Action α × Option (Nat × Reply α)) :=
  System.calls .init (State.step R)

end WebSSH.Directory
