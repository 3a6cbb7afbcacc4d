import Mathlib
import WebSSH.Lib.Program

/-!
# Opening a verified path on an SMB share

`_open_verified_path` of `smb_protocol.py`. A handle is known by its number; it keeps what the
server has said about its object, and whether `open()` and `close()` have been called. Every call to
the server may fail, and what it answers is arbitrary; only a `close()` fails by an `Exception`. The
local variables of the function are part of the state, as `walk`.
-/

namespace WebSSH.Smb.Verified
open Lib Program

/-- An exception, with its code or the one that `_mapped_protocol_error` finds for it. -/
inductive Error
  | protocol (publicCode : String)
  | library (mapped : Option String)
  deriving DecidableEq, Repr

/-- `_permission_denied` -/
def permissionDenied : Error → Bool
  | .protocol publicCode => publicCode = "PERMISSION_DENIED"
  | .library mapped => mapped = some "PERMISSION_DENIED"

inductive Purpose
  | metadata
  | directory
  | directoryPin
  | fileRead
  | fileMove
  | rename
  | delete
  | deleteReadOnly
  deriving DecidableEq, Repr

/-! ## What the server answers -/

/-- The tree connection of a handle. -/
structure Tree where
  shareName : Option String
  isDfsShare : Option Bool
  deriving DecidableEq, Repr

/-- `SMBObjectInfo`, but for the time of the last write. -/
structure ObjectInfo where
  name : String
  fileId : Nat
  fileAttributes : Nat
  endOfFile : Nat
  numberOfLinks : Nat
  identityChain : List Nat := []
  deriving DecidableEq, Repr

/-- The results of the queries of `_query_open_info`. -/
structure RawInfo where
  indexNumber : Nat
  fileAttributes : Nat
  endOfFile : Nat
  numberOfLinks : Nat
  deriving DecidableEq, Repr

/-- An entry of a directory; its name may not be UTF-16. -/
structure RawEntry where
  fileName : Option String
  fileId : Nat
  fileAttributes : Nat
  endOfFile : Nat
  deriving DecidableEq, Repr

structure Reply where
  tree : Tree
  /-- `raw.fd.file_attributes` after an `open()`. -/
  attributes : Option Nat
  info : RawInfo
  /-- A page of `query_directory`, or `NoMoreFiles`. -/
  page : Option (List RawEntry)

structure Server where
  replies : Nat → Reply
  casefold : String → String

/-! ## The state -/

structure Handle where
  path : String
  desiredAccess : Nat
  shareAccess : String
  tree : Tree
  attributes : Option Nat := none
  infos : List RawInfo := []
  /-- `open()` has been called. -/
  opening : Bool := false
  /-- `close()` has been called. -/
  closing : Bool := false
  deriving DecidableEq, Repr

/-- An element of `opaque_records`. -/
structure Record where
  path : String
  handle : Nat
  info : ObjectInfo
  deriving DecidableEq, Repr

structure Walk where
  current : Nat
  currentPath : String
  currentInfo : ObjectInfo
  identityChain : List Nat
  isOpaque : Bool
  opaqueRecords : List Record
  deriving DecidableEq, Repr

structure State where
  handles : List Handle
  walk : Walk
  deriving DecidableEq, Repr

def State.init : State := ⟨[], ⟨0, "", ⟨"", 0, 0, 0, 0, []⟩, [], false, []⟩⟩

abbrev Session := Program State Error

/-- A step on the object of a handle. -/
def onHandle (raw : Nat) (f : Handle → Handle) : Session PUnit :=
  modify fun s => { s with handles := s.handles.modify raw f }

/-- An assignment to local variables. -/
def assign (f : Walk → Walk) : Session PUnit := modify fun s => { s with walk := f s.walk }

def locals : Session Walk := do return (← Program.get).walk

def ofExcept {α : Type} : Except Error α → Session α
  | .ok a => pure a
  | .error e => raise e

/-! ## Calls -/

section
variable (server : Server)

/-- A call that the server answers. -/
def ask : Session Reply := call fun n s => .ok (server.replies n, s)

/-- `raw_type(path, …)` -/
def construct (path : String) (desiredAccess : Nat) (shareAccess : String) : Session Nat := do
  let reply ← ask server
  let s ← Program.get
  modify fun s => { s with handles := s.handles ++ [⟨path, desiredAccess, shareAccess, reply.tree,
    none, [], false, false⟩] }
  return s.handles.length

/-- `raw.open()` -/
def rawOpen (raw : Nat) : Session PUnit := do
  onHandle raw fun h => { h with opening := true }
  let reply ← ask server
  onHandle raw fun h => { h with tree := reply.tree, attributes := reply.attributes }

/-- `raw.close()` -/
def close (raw : Nat) : Session PUnit := do
  onHandle raw fun h => { h with closing := true }
  let _ ← (ask server).raising (.library none)

/-- `try: raw.close() except Exception: pass` -/
def closeQuietly (raw : Nat) : Session PUnit := (close server raw).handle fun _ => pure ⟨⟩

/-- `for raw in …: try: raw.close() except Exception: pass` -/
def closeAll : List Nat → Session PUnit
  | [] => pure ⟨⟩
  | raw :: raws => do
    closeQuietly server raw
    closeAll raws

/-! ## Checks -/

def fileAttributeReparsePoint : Nat := 0x400

def fileAttributeDirectory : Nat := 0x10

def isReparsePoint (attributes : Nat) : Bool := attributes &&& fileAttributeReparsePoint ≠ 0

def hasDirectoryFlag (attributes : Nat) : Bool := attributes &&& fileAttributeDirectory ≠ 0

/-- Named, so that no definition of this module carries a proof of it. -/
local instance componentLawful : LawfulBEq (List Char) := inferInstance

/-- `_split_unc` -/
def splitUnc (path : String) : Except Error (String × List String) :=
  match path.toList with
  | '\\' :: '\\' :: rest =>
    let parts := rest.splitOn '\\'
    if parts.length < 2 ∨ [] ∈ parts then .error (.protocol "OPERATION_FAILED")
    else
      .ok (String.ofList ('\\' :: '\\' :: ['\\'].intercalate (parts.take 2)),
        (parts.drop 2).map String.ofList)
  | _ => .error (.protocol "OPERATION_FAILED")

/-- `share.rstrip('\\')` -/
def stripBackslashes (share : String) : String :=
  String.ofList (share.toList.reverse.dropWhile (· = '\\')).reverse

/-- `_validate_share_binding` -/
def validateShareBinding (raw : Nat) (path : String) : Session PUnit := do
  let (requestedShare, _) ← ofExcept (splitUnc path)
  let s ← Program.get
  match s.handles[raw]?.map Handle.tree with
  | some ⟨some actualShare, some false⟩ =>
    if server.casefold (stripBackslashes actualShare) =
        server.casefold (stripBackslashes requestedShare) then return ⟨⟩
    else raise (.protocol "SHARE_UNAVAILABLE")
  | _ => raise (.protocol "SHARE_UNAVAILABLE")

/-- `_safe_int(getattr(raw.fd, 'file_attributes', None))`, and not a reparse point. -/
def validateAttributes (raw : Nat) : Session Nat := do
  let s ← Program.get
  match s.handles[raw]?.bind Handle.attributes with
  | none => raise (.protocol "OPERATION_FAILED")
  | some attributes =>
    if isReparsePoint attributes then raise (.protocol "REPARSE_POINT_REJECTED")
    else return attributes

/-- `_validate_open_type` -/
def validateOpenType (isDirectory : Bool) (raw : Nat) : Session PUnit := do
  let attributes ← validateAttributes raw
  if hasDirectoryFlag attributes ≠ isDirectory then raise (.protocol "CONFLICT") else return ⟨⟩

/-- What `_open_raw` and `_open_untyped_raw` have in common. -/
def openWith (validateType : Nat → Session PUnit) (path : String) (desiredAccess : Nat)
    (shareAccess : String) : Session Nat := do
  let raw ← construct server path desiredAccess shareAccess
  let opened : Session Nat := do
    validateShareBinding server raw path
    rawOpen server raw
    validateShareBinding server raw path
    validateType raw
    return raw
  opened.onFailure (closeQuietly server raw)

/-- `_open_raw` -/
def openRaw (path : String) (isDirectory : Bool) (desiredAccess : Nat) (shareAccess : String) :
    Session Nat :=
  openWith server (validateOpenType isDirectory) path desiredAccess shareAccess

/-- `_open_untyped_raw` -/
def openUntypedRaw (path : String) (desiredAccess : Nat) : Session Nat :=
  openWith server (fun raw => do let _ ← validateAttributes raw) path desiredAccess "rwd"

/-- `_stable_identity` of what a server sends. -/
def stableIdentity (identity : Nat) : Except Error Nat :=
  if identity = 0 then .error (.protocol "IDENTITY_UNAVAILABLE") else .ok identity

/-- `_query_open_info` -/
def queryOpenInfo (raw : Nat) (name : String) : Session ObjectInfo := do
  let reply ← ask server
  let info := reply.info
  onHandle raw fun h => { h with infos := h.infos ++ [info] }
  let fileId ← ofExcept (stableIdentity info.indexNumber)
  return ⟨name, fileId, info.fileAttributes, info.endOfFile, info.numberOfLinks, []⟩

/-- `_verified_directory_flag` -/
def verifiedDirectoryFlag (info : ObjectInfo) : Except Error Bool :=
  if isReparsePoint info.fileAttributes then .error (.protocol "REPARSE_POINT_REJECTED")
  else .ok (hasDirectoryFlag info.fileAttributes)

/-! ## The child of a directory -/

/-- `_entry_from_directory_info` -/
def entryFromDirectoryInfo (raw : RawEntry) : Except Error ObjectInfo :=
  match raw.fileName with
  | none => .error (.library none)
  | some name => do
    let fileId ← stableIdentity raw.fileId
    return ⟨name, fileId, raw.fileAttributes, raw.endOfFile, 0, []⟩

/-- The `special_entries` that have been seen, and the `matches`, of which there is one at most. -/
structure Scan where
  dot : Bool := false
  dots : Bool := false
  found : Option ObjectInfo := none

/-- How many more entries are accepted. -/
def Scan.room (scan : Scan) : Nat :=
  (if scan.dot then 0 else 1) + (if scan.dots then 0 else 1) + (if scan.found.isSome then 0 else 1)

/-- What `_directory_entries` and `_query_exact_child` do with an entry. -/
def Scan.entry (scan : Scan) (name : String) (raw : RawEntry) : Except Error Scan := do
  let entry ← entryFromDirectoryInfo raw
  if entry.name = "." then
    if scan.dot then throw (.protocol "OPERATION_FAILED") else return { scan with dot := true }
  else if entry.name = ".." then
    if scan.dots then throw (.protocol "OPERATION_FAILED") else return { scan with dots := true }
  else if server.casefold entry.name ≠ server.casefold name then throw (.protocol "CONFLICT")
  else if scan.found.isSome then throw (.protocol "CONFLICT")
  else return { scan with found := some entry }

theorem Scan.room_entry {scan scan' : Scan} {name : String} {raw : RawEntry}
    (h : scan.entry server name raw = .ok scan') : scan'.room < scan.room := by
  unfold Scan.entry at h
  cases hentry : entryFromDirectoryInfo raw with
  | error e =>
    rw [hentry] at h
    cases h
  | ok entry =>
    rw [hentry] at h
    simp only [bind, Except.bind, pure, Except.pure, throw, throwThe, MonadExceptOf.throw] at h
    repeat' split at h
    all_goals cases h
    all_goals simp_all [Scan.room]

theorem Scan.room_page {scan scan' : Scan} {name : String} {raws : List RawEntry}
    (h : raws.foldlM (Scan.entry server · name) scan = .ok scan') :
    scan'.room + raws.length ≤ scan.room := by
  induction raws generalizing scan with
  | nil => cases h; exact Nat.le_refl _
  | cons raw raws ih =>
    rw [List.foldlM_cons] at h
    cases hentry : scan.entry server name raw with
    | error e =>
      rw [hentry] at h
      cases h
    | ok scan₁ =>
      rw [hentry] at h
      have := ih h
      have := scan.room_entry server hentry
      rw [List.length_cons]
      omega

/-- The pages of a directory; each takes up some of the room that there is. -/
def queryPages (name : String) (scan : Scan) : Session Scan := do
  let reply ← ask server
  match reply.page with
  | none => return scan
  | some [] => raise (.protocol "OPERATION_FAILED")
  | some (raw :: raws) =>
    match _h : (raw :: raws).foldlM (Scan.entry server · name) scan with
    | .error e => raise e
    | .ok scan' => queryPages name scan'
termination_by scan.room
decreasing_by
  have := Scan.room_page server _h
  rw [List.length_cons] at this
  omega

/-- `_query_exact_child` -/
def queryExactChild (name : String) : Session ObjectInfo := do
  let scan ← queryPages server name {}
  match scan.found with
  | none => raise (.protocol "NOT_FOUND")
  | some entry => return entry

end

/-! ## The walk -/

/-- What the caller expects to find; an identity is known by what `int()` makes of it. -/
inductive IdentityArg
  | bool (b : Bool)
  | other (asInt : Option Int)
  deriving DecidableEq, Repr

inductive Expected
  | none
  | notIterable
  | identities (values : List IdentityArg)
  deriving DecidableEq, Repr

/-- `_stable_identity` of an argument. -/
def IdentityArg.stable : IdentityArg → Except Error Nat
  | bool _ => .error (.protocol "IDENTITY_UNAVAILABLE")
  | other Option.none => .error (.protocol "IDENTITY_UNAVAILABLE")
  | other (some i) =>
    if i ≤ 0 then .error (.protocol "IDENTITY_UNAVAILABLE") else .ok i.toNat

/-- `expected`, of which there is one for each component. -/
def expectedIdentities (components : List String) : Expected → Except Error (Option (List Nat))
  | .none => .ok Option.none
  | .notIterable => .error (.protocol "OPERATION_FAILED")
  | .identities values =>
    if values.length ≠ components.length then .error (.protocol "OPERATION_FAILED")
    else some <$> values.mapM IdentityArg.stable

def readAttributes : Nat := 0x80

def readData : Nat := 0x1

def writeAttributes : Nat := 0x100

def deleteAccess : Nat := 0x10000

/-- `FILE_LIST_DIRECTORY | FILE_READ_ATTRIBUTES` -/
def listAccess : Nat := 0x1 ||| readAttributes

def leafAccess : Purpose → Nat
  | .directory => listAccess
  | .directoryPin => readAttributes
  | .fileRead => readData ||| readAttributes
  | .fileMove => deleteAccess ||| readData ||| readAttributes
  | .rename => deleteAccess ||| readAttributes
  | .delete => deleteAccess ||| readAttributes
  | .deleteReadOnly => deleteAccess ||| readAttributes ||| writeAttributes
  | .metadata => readAttributes

/-- The arguments of a walk. -/
structure Route where
  server : Server
  root : String
  components : List String
  purpose : Purpose
  expected : Option (List Nat)

namespace Route
variable (r : Route)

/-- `opaque_records.append(…)`, and the child becomes the current handle. -/
def descend (path : String) (child : Nat) (info : ObjectInfo) (retained : Bool) : Session PUnit :=
  assign fun w =>
    { w with
      opaqueRecords := if retained then w.opaqueRecords ++ [⟨path, child, info⟩] else w.opaqueRecords
      current := child
      currentInfo := info
      currentPath := path }

def isFile : Bool := r.purpose = .fileRead ∨ r.purpose = .fileMove

def isDirectory : Bool := r.purpose = .directory ∨ r.purpose = .directoryPin

/-- Whether an identity is the one expected of a component. -/
def isExpected (index fileId : Nat) : Bool :=
  match r.expected with
  | none => true
  | some identities => identities[index]? = some fileId

/-- `share_access='r' if … else 'rwd'` -/
def shareOf (exclusive : Bool) : String := if exclusive then "r" else "rwd"

/-- The turns of the loop over the prefixes; `pinned` are closed if one fails. -/
def pinPrefixes (position : Nat) (pinPath : String) (pinned : List Record) :
    List String → Session (List Record)
  | [] => pure pinned
  | component :: components => do
    let pinPath := pinPath ++ "\\" ++ component
    let pinOne : Session Record := do
      let pin ← openRaw r.server pinPath true readAttributes "r"
      let checked : Session ObjectInfo := do
        let pinInfo ← queryOpenInfo r.server pin component
        let w ← locals
        if w.identityChain[position]? ≠ some pinInfo.fileId then raise (.protocol "CONFLICT")
        else
          let isDirectory ← ofExcept (verifiedDirectoryFlag pinInfo)
          if isDirectory then return pinInfo else raise (.protocol "CONFLICT")
      let pinInfo ← checked.onFailure (closeQuietly r.server pin)
      return ⟨pinPath, pin, pinInfo⟩
    let record ← pinOne.onFailure (closeAll r.server (pinned.reverse.map Record.handle))
    pinPrefixes (position + 1) pinPath (pinned ++ [record]) components

/-- `retain_opaque_prefix` -/
def retainOpaquePrefix (componentCount : Nat) : Session PUnit := do
  let w ← locals
  if w.opaqueRecords ≠ [] then return ⟨⟩
  else if componentCount = 0 then
    assign fun w => { w with opaqueRecords := [⟨w.currentPath, w.current, w.currentInfo⟩] }
  else
    let pinned ← r.pinPrefixes 0 r.root [] (r.components.take componentCount)
    (close r.server w.current).onFailure
      (closeAll r.server (pinned.reverse.map Record.handle))
    match pinned.getLast? with
    | none => raise (.library none)
    | some last =>
      assign fun w =>
        { w with
          opaqueRecords := w.opaqueRecords ++ pinned
          currentPath := last.path
          current := last.handle
          currentInfo := last.info }

/-- The handle of a component that cannot be listed. -/
def openOpaque (childPath : String) (isLeaf : Bool) : Session Nat :=
  let desiredAccess := if isLeaf then leafAccess r.purpose else readAttributes
  if isLeaf = false then openRaw r.server childPath true desiredAccess "r"
  else if r.isFile then
    openRaw r.server childPath false desiredAccess (shareOf (r.purpose = .fileMove))
  else if r.isDirectory then
    openRaw r.server childPath true desiredAccess (shareOf (r.purpose = .directoryPin))
  else openUntypedRaw r.server childPath desiredAccess

/-- The turn of the loop for a component that cannot be listed. -/
def opaqueTurn (index : Nat) (component childPath : String) (isLeaf : Bool) : Session PUnit := do
  let child ← r.openOpaque childPath isLeaf
  let checked : Session ObjectInfo := do
    let info ← queryOpenInfo r.server child component
    let isDirectory ← ofExcept (verifiedDirectoryFlag info)
    if isLeaf = false ∧ isDirectory = false then raise (.protocol "NOT_FOUND")
    else if isLeaf ∧ r.isFile ∧ isDirectory then raise (.protocol "CONFLICT")
    else if isLeaf ∧ r.isDirectory ∧ isDirectory = false then raise (.protocol "CONFLICT")
    else if r.isExpected index info.fileId then return info
    else raise (.protocol "CONFLICT")
  let info ← checked.onFailure (closeQuietly r.server child)
  assign fun w => { w with identityChain := w.identityChain ++ [info.fileId] }
  descend childPath child info true

/-- The turn of the loop for a component with its directory entry. -/
def listedTurn (index : Nat) (childPath : String) (isLeaf : Bool) (entry : ObjectInfo) :
    Session PUnit := do
  assign fun w => { w with identityChain := w.identityChain ++ [entry.fileId] }
  let isDirectory := hasDirectoryFlag entry.fileAttributes
  if isReparsePoint entry.fileAttributes then raise (.protocol "REPARSE_POINT_REJECTED")
  else if isLeaf = false ∧ isDirectory = false then raise (.protocol "NOT_FOUND")
  else if r.isExpected index entry.fileId = false then raise (.protocol "CONFLICT")
  else if isLeaf ∧ r.isFile ∧ isDirectory then raise (.protocol "CONFLICT")
  else if isLeaf ∧ r.isDirectory ∧ isDirectory = false then raise (.protocol "CONFLICT")
  else
    let desiredAccess := if isLeaf then leafAccess r.purpose else listAccess
    let exclusive : Bool := isLeaf ∧ (r.purpose = .directoryPin ∨ r.purpose = .fileMove)
    let child ← (openRaw r.server childPath isDirectory desiredAccess (shareOf exclusive)).handle
      fun e => do
        if isDirectory ∧ permissionDenied e ∧ (isLeaf = false ∨ r.purpose = .directoryPin) then
          r.retainOpaquePrefix index
          let exclusive : Bool := r.purpose = .directoryPin ∧ isLeaf ∨ isLeaf = false
          let child ← openRaw r.server childPath true readAttributes (shareOf exclusive)
          assign fun w => { w with isOpaque := true }
          return child
        else raise e
    let checked : Session ObjectInfo := do
      let info ← queryOpenInfo r.server child entry.name
      if info.fileId ≠ entry.fileId then raise (.protocol "CONFLICT")
      else
        let flag ← ofExcept (verifiedDirectoryFlag info)
        if flag ≠ isDirectory then raise (.protocol "CONFLICT") else return info
    let info ← checked.onFailure (closeQuietly r.server child)
    let w ← locals
    let closeParent : Session PUnit :=
      if w.isOpaque then pure ⟨⟩
      else (close r.server w.current).onFailure (closeQuietly r.server child)
    closeParent
    descend childPath child info w.isOpaque

/-- The turn of the loop for a component. -/
def turn (index : Nat) (component : String) (isLeaf : Bool) : Session PUnit := do
  let w ← locals
  let childPath := w.currentPath ++ "\\" ++ component
  let listed : Session (Option ObjectInfo) := do
    return some (← queryExactChild r.server component)
  let found : Session (Option ObjectInfo) :=
    if w.isOpaque then pure none
    else listed.handle fun e => do
      if permissionDenied e then
        r.retainOpaquePrefix index
        assign fun w => { w with isOpaque := true }
        return none
      else raise e
  let entry ← found
  match entry with
  | none => r.opaqueTurn index component childPath isLeaf
  | some entry => r.listedTurn index childPath isLeaf entry

def loop (index : Nat) : List String → Session PUnit
  | [] => pure ⟨⟩
  | component :: components => do
    r.turn index component components.isEmpty
    loop (index + 1) components

/-- The second look at an object that is held. -/
def verify (record : Record) : Session PUnit := do
  let verifyDirectory ← ofExcept (verifiedDirectoryFlag record.info)
  let verifier ← openRaw r.server record.path verifyDirectory readAttributes "rwd"
  let checked : Session PUnit := do
    let verifyInfo ← queryOpenInfo r.server verifier ""
    if verifyInfo.fileId ≠ record.info.fileId then raise (.protocol "CONFLICT")
    else
      let flag ← ofExcept (verifiedDirectoryFlag verifyInfo)
      if flag ≠ verifyDirectory then raise (.protocol "CONFLICT") else return ⟨⟩
  checked.onFailure (close r.server verifier)
  close r.server verifier

def verifyAll : List Record → Session PUnit
  | [] => pure ⟨⟩
  | record :: records => do
    r.verify record
    verifyAll records

/-- `for … in opaque_records[:-1]: held.close()` -/
def closeHeld : List Nat → Session PUnit
  | [] => pure ⟨⟩
  | raw :: raws => do
    close r.server raw
    closeHeld raws

/-- The body of the outer `try`. -/
def walk : Session (Nat × ObjectInfo) := do
  let w ← locals
  let currentInfo ← queryOpenInfo r.server w.current ""
  assign fun w =>
    { w with
      currentInfo := currentInfo
      opaqueRecords :=
        if w.isOpaque then w.opaqueRecords ++ [⟨r.root, w.current, currentInfo⟩]
        else w.opaqueRecords }
  if r.components = [] then
    if r.purpose = .fileRead ∨ r.purpose = .fileMove ∨ r.purpose = .rename then
      raise (.protocol "CONFLICT")
    else return (w.current, currentInfo)
  else
    r.loop 0 r.components
    let w ← locals
    r.verifyAll w.opaqueRecords
    r.closeHeld (w.opaqueRecords.dropLast.map Record.handle)
    return (w.current, { w.currentInfo with identityChain := w.identityChain })

/-- The handles that have not been `closed` yet are closed. -/
def closeOnce (closed : List Nat) : List Nat → Session PUnit
  | [] => pure ⟨⟩
  | raw :: raws =>
    if raw ∈ closed then closeOnce closed raws
    else do
      closeQuietly r.server raw
      closeOnce (raw :: closed) raws

/-- The handler of the outer `try`. -/
def closeRecords : Session PUnit := do
  let w ← locals
  r.closeOnce [] (w.opaqueRecords.reverse.map Record.handle ++ [w.current])

/-- The handle of the share, and whether it cannot be listed. -/
def openRoot : Session (Nat × Bool) := do
  let rootAccess :=
    if r.components ≠ [] ∨ r.purpose = .directory then listAccess else readAttributes
  let shareAccess := shareOf (r.purpose = .directoryPin ∧ r.components = [])
  let listed : Session (Nat × Bool) := do
    return (← openRaw r.server r.root true rootAccess shareAccess, false)
  listed.handle fun e => do
    if r.components = [] ∨ rootAccess ≠ listAccess ∨ permissionDenied e = false then raise e
    else return (← openRaw r.server r.root true readAttributes shareAccess, true)

def run : Session (Nat × ObjectInfo) := do
  let (current, isOpaque) ← r.openRoot
  assign fun w =>
    { w with
      current := current
      currentPath := r.root
      identityChain := []
      isOpaque := isOpaque
      opaqueRecords := [] }
  r.walk.onFailure r.closeRecords

end Route

/-- `_open_verified_path` -/
def openVerifiedPath (server : Server) (path : String) (purpose : Purpose) (expected : Expected) :
    Session (Nat × ObjectInfo) := do
  let (root, components) ← ofExcept (splitUnc path)
  let expected ← ofExcept (expectedIdentities components expected)
  Route.run ⟨server, root, components, purpose, expected⟩

end WebSSH.Smb.Verified
