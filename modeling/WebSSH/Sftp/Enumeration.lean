import Mathlib
import WebSSH.Lib.Program
import WebSSH.Sftp.Messages

/-!
# Enumerating a remote directory

`_iter_paramiko_directory_entries` and `_directory_entries` of `sftp_handler.py`. The server may
answer every request with whatever it likes, also in view of all requests before. The generator
runs in turns with the body of the loop that draws from it, so the loop is modelled with its body:
the body runs where the generator yields, and an exception of the body closes the generator.
-/

namespace WebSSH.Sftp

open Lib Lib.Program
open Lib.Python (Bytes encode)

/-! ## The budget -/

/-- `_TransferMemberBudget` -/
structure Budget where
  limit : Nat
  used : Nat
  metadataLimit : Nat
  metadataUsed : Nat
  deriving DecidableEq, Repr

namespace Budget

def new (limit metadataLimit : Nat) : Budget := ⟨limit, 0, metadataLimit, 0⟩

/-- `consume`; a member is counted also when it is refused. -/
def consume (config : Config) (b : Budget) (name : Option String) (extraMetadataBytes : Nat) :
    Option Error × Budget :=
  let b := { b with used := b.used + 1 }
  if b.limit < b.used then (some .memberLimit, b)
  else
    match name with
    | none => (none, b)
    | some name =>
      match remoteMetadataTextSize config name with
      | .error e => (some e, b)
      | .ok nameSize =>
        let nextSize := b.metadataUsed + nameSize + extraMetadataBytes + 128
        if b.metadataLimit < nextSize then
          (some (.metadataLimit "Directory metadata exceeds configured byte limit"), b)
        else (none, { b with metadataUsed := nextSize })

def consumeEntry (config : Config) (b : Budget) (entry : Entry) : Option Error × Budget :=
  b.consume config (some entry.filename) entry.extraMetadataBytes

/-- A charge never changes the limits and always counts; an accepted one stays within them. -/
structure Charges (b b' : Budget) : Prop where
  limit : b'.limit = b.limit
  metadataLimit : b'.metadataLimit = b.metadataLimit
  used : b'.used = b.used + 1
  metadataUsed : b.metadataUsed ≤ b'.metadataUsed

theorem charges_consume (config : Config) (b : Budget) (name : Option String) (extra : Nat) :
    b.Charges (b.consume config name extra).2 := by
  unfold consume
  dsimp only
  split
  · exact ⟨rfl, rfl, rfl, Nat.le_refl _⟩
  · split
    · exact ⟨rfl, rfl, rfl, Nat.le_refl _⟩
    · split
      · exact ⟨rfl, rfl, rfl, Nat.le_refl _⟩
      · split
        · exact ⟨rfl, rfl, rfl, Nat.le_refl _⟩
        · refine ⟨rfl, rfl, rfl, ?_⟩
          dsimp only
          omega

theorem consume_metadata (config : Config) {b : Budget} (h : b.metadataUsed ≤ b.metadataLimit)
    (name : Option String) (extra : Nat) :
    (b.consume config name extra).2.metadataUsed ≤ b.metadataLimit := by
  unfold consume
  dsimp only
  split
  · exact h
  · split
    · exact h
    · split
      · exact h
      · split
        · exact h
        · rename_i hnext
          exact Nat.le_of_not_lt hnext

/-- What an accepted entry has cost. -/
theorem consumeEntry_none {config : Config} {b : Budget} {entry : Entry}
    (h : (b.consumeEntry config entry).1 = none) :
    b.used + 1 ≤ b.limit ∧ (b.consumeEntry config entry).2.metadataUsed = b.metadataUsed +
      (encode entry.filename).length + entry.extraMetadataBytes + 128 := by
  unfold consumeEntry consume at h ⊢
  dsimp only at h ⊢
  split
  · rename_i hused
    rw [if_pos hused] at h
    cases h
  · rename_i hused
    rw [if_neg hused] at h
    refine ⟨Nat.le_of_not_lt hused, ?_⟩
    cases hsize : remoteMetadataTextSize config entry.filename with
    | error e =>
      rw [hsize] at h
      cases h
    | ok n =>
      rw [hsize] at h
      dsimp only at h ⊢
      split
      · rename_i hnext
        rw [if_pos hnext] at h
        cases h
      · rw [remoteMetadataTextSize_ok hsize]

end Budget

/-! ## The client and the server -/

/-- What the code calls of an `SFTPClient`, or of a file it has opened. -/
inductive Call
  | opendir (path : String)
  | readdir (handle : Bytes)
  | closeHandle (handle : Bytes)
  /-- `sftp.close()` -/
  | closeChannel
  | lstat (path : String)
  /-- `sftp.file(path, 'rb')` -/
  | file (path : String)
  /-- `stat()` of the opened file -/
  | stat
  | read (size : Nat)
  /-- The end of the `with` statement of the file. -/
  | closeFile
  deriving DecidableEq, Repr

/-- The path that a call is about. -/
def Call.path? : Call → Option String
  | .opendir path => some path
  | .lstat path => some path
  | .file path => some path
  | _ => none

structure Stat where
  stMode : Option Nat
  stSize : Option Nat
  deriving DecidableEq, Repr

/-- What a call returns; of a request, the type of the response and its message. -/
@[reducible] def Call.Answer : Call → Type
  | .opendir _ => Nat × Bytes
  | .readdir _ => Nat × Bytes
  | .closeHandle _ => Nat × Bytes
  | .lstat _ => Stat
  | .stat => Stat
  | .read _ => Bytes
  | .closeChannel => Unit
  | .file _ => Unit
  | .closeFile => Unit

/-- A call with its outcome. -/
structure Event where
  call : Call
  outcome : Result Error call.Answer

/-- The other side: what each call meets after the calls before it, and whether the user has
cancelled by the time of each check. -/
structure Server where
  answer : List Event → (c : Call) → Result Error c.Answer
  cancelled : Nat → Bool

/-- The client, and what its user keeps of the entries. -/
structure Client (δ : Type) where
  log : List Event
  checks : Nat
  budget : Budget
  /-- A loop of the model has run out of fuel. -/
  stuck : Bool
  own : δ

abbrev Prog (δ α : Type) := Program (Client δ) Error α

variable {δ β : Type}

def Client.logged (s : Client δ) (e : Event) : Client δ := { s with log := s.log ++ [e] }

@[simp] theorem Client.logged_log (s : Client δ) (e : Event) :
    (s.logged e).log = s.log ++ [e] := rfl

@[simp] theorem Client.logged_budget (s : Client δ) (e : Event) :
    (s.logged e).budget = s.budget := rfl

@[simp] theorem Client.logged_own (s : Client δ) (e : Event) : (s.logged e).own = s.own := rfl

def cmdHandle : Nat := 102
def cmdName : Nat := 104

section
variable (server : Server) (config : Config)

def ask (c : Call) : Prog δ c.Answer :=
  react fun s => (server.answer s.log c, s.logged ⟨c, server.answer s.log c⟩)

/-- `_is_cancelled` -/
def isCancelled : Prog δ Bool :=
  react fun s => (.ok (server.cancelled s.checks), { s with checks := s.checks + 1 })

/-- `member_budget.consume_entry(attributes)` -/
def charge (entry : Entry) : Prog δ Unit :=
  react fun s =>
    (match (s.budget.consumeEntry config entry).1 with
      | none => .ok ()
      | some e => .raised e,
      { s with budget := (s.budget.consumeEntry config entry).2 })

/-- The model's fuel is gone. -/
def runOut {α : Type} : Prog δ α := react fun s => (.aborted, { s with stuck := true })

def ofExcept {α : Type} : Except Error α → Prog δ α
  | .ok a => pure a
  | .error e => raise e

/-! ## The generator -/

/-- The names that `_directory_entries` lets pass. -/
def SafeName (name : String) : Prop := name ≠ "" ∧ '/' ∉ name.toList ∧ '\x00' ∉ name.toList

instance (name : String) : Decidable (SafeName name) :=
  inferInstanceAs (Decidable (name ≠ "" ∧ '/' ∉ name.toList ∧ '\x00' ∉ name.toList))

/-- An entry as it comes out of `validated_entries`. -/
def validated (body : β → Entry → Prog δ β) (b : β) (entry : Entry) : Prog δ β :=
  if entry.filename = "." ∨ entry.filename = ".." then pure b
  else if SafeName entry.filename then body b entry
  else raise (.operation "unsafe directory entry name")

/-- Dot names are not yielded. -/
def yieldEntry (body : β → Entry → Prog δ β) (b : β) (entry : Entry) : Prog δ β :=
  if entry.filename = "." ∨ entry.filename = ".." then pure b else body b entry

/-- The entries of a reply: the loop over `entry_count`. Every entry is charged, whatever its name. -/
def readEntries (body : β → Entry → Prog δ β) : Nat → Bytes → β → Prog δ (β × Bytes)
  | 0, message, b => pure (b, message)
  | count + 1, message, b => do
    let (entry, message) ← ofExcept (readEntry config message)
    charge config entry
    let b ← yieldEntry body b entry
    readEntries body count message b

/-- A reply of the server. -/
def readReply (body : β → Entry → Prog δ β) (response : Nat × Bytes) (b : β) : Prog δ β := do
  if response.1 = cmdName then
    let (entryCount, message) ← ofExcept (messageUint32 "directory entry count" response.2)
    if entryCount = 0 then raise (.metadataLimit "Malformed empty directory response")
    else
      let (b, rest) ← readEntries config body entryCount message b
      if rest = [] then pure b
      else raise (.metadataLimit "Directory response contains trailing metadata")
  else raise (.sftp "Expected name response")

/-- `while True`, with the `try` around the request alone. -/
def readDirectory (body : β → Entry → Prog δ β) (handle : Bytes) : Nat → β → Prog δ β
  | 0, _ => runOut
  | fuel + 1, b => do
    match ← (ask server (.readdir handle)).attempt with
    | .error .eof => pure b
    | .error e => raise e
    | .ok response => do
      let b ← readReply config body response b
      readDirectory body handle fuel b

/-- The `finally` block. -/
def closeDirectory (handle : Bytes) : Prog δ PUnit := do
  match ← (ask server (.closeHandle handle)).attempt with
  | .ok _ => pure ⟨⟩
  | .error _ => do
    let _ ← (ask server .closeChannel).attempt
    pure ⟨⟩

/-- The handle of a response to `OPENDIR`, which has nothing behind it. -/
def readHandle (message : Bytes) : Except Error Bytes :=
  match boundedMessageBinary "directory handle" config.sftpMaxHandleBytes message with
  | .error e => .error e
  | .ok (handle, []) => .ok handle
  | .ok (_, _ :: _) =>
    .error (.metadataLimit "Directory handle response contains trailing metadata")

/-- `for entry in _iter_paramiko_directory_entries(sftp, path): b = body(b, entry)` -/
def iterParamikoDirectoryEntries (fuel : Nat) (path : String) (body : β → Entry → Prog δ β)
    (b : β) : Prog δ β := do
  let response ← ask server (.opendir path)
  if response.1 = cmdHandle then
    match readHandle config response.2 with
    | .error e => do
      let _ ← (ask server .closeChannel).attempt
      raise e
    | .ok handle =>
      (readDirectory server config body handle fuel b).finallyDo (closeDirectory server handle)
  else raise (.sftp "Expected handle")

/-- `with _directory_entries(sftp, path) as entries: for entry in entries: b = body(b, entry)` -/
def directoryEntries (fuel : Nat) (path : String) (body : β → Entry → Prog δ β) (b : β) :
    Prog δ β :=
  iterParamikoDirectoryEntries server config fuel path (validated body) b

end

end WebSSH.Sftp
