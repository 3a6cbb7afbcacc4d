import Mathlib
import WebSSH.Lib.System
import WebSSH.Lib.Sequence
import WebSSH.Lib.Utf16
import WebSSH.Terminal.Output

/-!
# Live output and restored sessions

One session, its reader and the pages of its user: `read_ssh_output` with the room of
`emit_ssh_output`, `handle_connect` with `restore_user_sessions` (`socket_events.py`), and what
`terminal-manager.js` keeps of the output, as UTF-16 code units. A connection is known by its sid;
what the reader emits to it arrives in order, and the restored session at any point in between.
-/

namespace WebSSH.Terminal
open Lib Utf16

/-! ## The page -/

/-- `maxTranscriptSize` -/
def maxTranscriptSize : Nat := 200000

/-- `Number.MAX_SAFE_INTEGER` -/
def maxSafeInteger : Nat := 2 ^ 53 - 1

/-- What `TerminalManager` keeps for the session. -/
structure Page where
  transcripts : List Units
  transcriptSizes : Nat
  sequencedOutput : List (Nat × Units)
  sequencedOutputSizes : Nat
  lastOutputSequences : Nat

namespace Page

def init : Page := ⟨[], 0, [], 0, 0⟩

def getTranscript (c : Page) : Units := c.transcripts.flatten

/-- The loop of `appendTranscript`. -/
def evictTranscript : List Units → Nat → List Units × Nat
  | [], size => ([], size)
  | removed :: rest, size =>
    if maxTranscriptSize < size then evictTranscript rest (size - removed.length)
    else (removed :: rest, size)

def appendTranscript (c : Page) (data : Units) : Page :=
  let (transcripts, size) :=
    evictTranscript (c.transcripts ++ [data]) (c.transcriptSizes + data.length)
  { c with transcripts := transcripts, transcriptSizes := size }

/-- The loop of `writeOutput` over `sequencedOutput`. -/
def evictSequenced : List (Nat × Units) → Nat → List (Nat × Units) × Nat
  | removed :: next :: rest, size =>
    if maxTranscriptSize < size then evictSequenced (next :: rest) (size - removed.2.length)
    else (removed :: next :: rest, size)
  | events, size => (events, size)

/-- The events that carry a sequence number are kept for a later restore. -/
def keepSequenced (c : Page) (data : Units) (sequence : Nat) : Page :=
  let (events, size) := evictSequenced (c.sequencedOutput ++ [(sequence, data)])
    (c.sequencedOutputSizes + data.length)
  { c with
    lastOutputSequences := sequence
    sequencedOutput := events
    sequencedOutputSizes := size }

def writeOutput (c : Page) (data : Units) (sequence : Nat) : Page :=
  if sequence ≤ maxSafeInteger ∧ 0 < sequence then
    if sequence ≤ c.lastOutputSequences then c
    else (c.keepSequenced data sequence).appendTranscript data
  else c.appendTranscript data

/-- What `seedRestoredOutput` does when the sequence is a watermark. -/
def applyWatermark (c : Page) (watermark : Nat) : Page :=
  let events := c.sequencedOutput.filter (watermark < ·.1)
  { c with
    sequencedOutput := events
    sequencedOutputSizes := (events.map Prod.snd).flatten.length
    lastOutputSequences := max c.lastOutputSequences watermark }

def seedRestoredOutput (c : Page) (bufferedOutput : Units) (outputSequence : Nat) : Page :=
  let watermark := decide (outputSequence ≤ maxSafeInteger)
  let c' := if watermark then c.applyWatermark outputSequence else c
  let liveOutput :=
    if watermark then (c'.sequencedOutput.map Prod.snd).flatten else c.getTranscript
  let bounded := sliceLast maxTranscriptSize (bufferedOutput ++ liveOutput)
  { c' with
    transcripts := if bounded = [] then [] else [bounded]
    transcriptSizes := bounded.length }

/-- `resyncRestoredOutput`, which besides rebuilds the terminals of the session. -/
def resyncRestoredOutput (c : Page) (bufferedOutput : Units) (outputSequence : Nat) : Page :=
  c.seedRestoredOutput bufferedOutput outputSequence

/-- `restoreSession` of `session-manager.js`; the page may know the session. -/
def restoreSession (c : Page) (known : Bool) (bufferedOutput : Units) (outputSequence : Nat) :
    Page :=
  if known then c.resyncRestoredOutput bufferedOutput outputSequence
  else c.seedRestoredOutput bufferedOutput outputSequence

end Page

/-! ## The server and its connections -/

/-- How far `handle_connect` has come with the session of a connection in the room. -/
inductive Restore
  | joined
  /-- The restored session is on its way. -/
  | sent (bufferedOutput : String) (outputSequence : Nat)
  | restored
  deriving DecidableEq

structure Connection where
  page : Nat
  disconnected : Bool
  /-- What the reader has emitted and the page has not yet processed. -/
  live : List Payload
  restore : Restore

inductive Reader
  | idle
  | recorded (payload : Payload)
  /-- Emitting to the participants that are left. -/
  | emitting (payload : Payload) (left : List Nat)
  /-- `record_output` has refused. -/
  | stopped

structure State where
  session : Session
  reader : Reader
  /-- The sids in the room of the user. -/
  room : List Nat
  connections : Nat → Connection
  nextSid : Nat
  pages : Nat → Page
  /-- The connection of a page. -/
  current : Nat → Option Nat
  /-- Everything that was recorded. -/
  chunks : List String

inductive Action
  /-- The reader has decoded and filtered what it received. -/
  | record (decodedData : String)
  /-- `_room_participants` -/
  | participants
  | emit (sid : Nat)
  | emitted
  /-- A page connects, or connects anew, and joins the room. -/
  | connect (page : Nat)
  | restore (sid : Nat)
  | disconnect (sid : Nat)
  | deliverOutput (page : Nat)
  | deliverRestored (page : Nat) (known : Bool)
  deriving DecidableEq

namespace State

def init (outputBufferMax : Nat) : State where
  session := ⟨true, 0, [], 0, outputBufferMax⟩
  reader := .idle
  room := []
  connections _ := ⟨0, true, [], .joined⟩
  nextSid := 0
  pages _ := .init
  current _ := none
  chunks := []

def setConnection (s : State) (sid : Nat) (connection : Connection) : State :=
  { s with connections := Function.update s.connections sid connection }

def setPage (s : State) (page : Nat) (c : Page) : State :=
  { s with pages := Function.update s.pages page c }

/-- Chunks are not empty. -/
def record (s : State) (decodedData : String) : Option State :=
  match s.reader with
  | .idle =>
    if decodedData = "" then none
    else
      match recordOutput s.session decodedData with
      | (none, session) => some { s with session := session, reader := .stopped }
      | (some sequence, session) =>
        some { s with
          session := session
          reader := .recorded ⟨decodedData, sequence⟩
          chunks := s.chunks ++ [decodedData] }
  | _ => none

/-- What is sent to a connection that is gone is lost. -/
def send (s : State) (sid : Nat) (payload : Payload) : State :=
  let connection := s.connections sid
  if connection.disconnected then s
  else s.setConnection sid { connection with live := connection.live ++ [payload] }

def emit (s : State) (sid : Nat) : Option State :=
  match s.reader with
  | .emitting payload left =>
    if sid ∈ left then
      some { s.send sid payload with reader := .emitting payload (left.filter (· ≠ sid)) }
    else none
  | _ => none

def connect (s : State) (page : Nat) : State :=
  { s.setConnection s.nextSid ⟨page, false, [], .joined⟩ with
    room := s.room ++ [s.nextSid]
    current := Function.update s.current page (some s.nextSid)
    nextSid := s.nextSid + 1 }

/-- `restore_user_sessions` -/
def restore (s : State) (sid : Nat) : Option State :=
  let connection := s.connections sid
  if connection.restore = .joined ∧ connection.disconnected = false ∧ s.session.connected then
    let (bufferedOutput, outputSequence) := getOutputSnapshot s.session
    some (s.setConnection sid { connection with restore := .sent bufferedOutput outputSequence })
  else none

def disconnect (s : State) (sid : Nat) : State :=
  { s.setConnection sid { s.connections sid with disconnected := true } with
    room := s.room.filter (· ≠ sid) }

def deliverOutput (s : State) (page : Nat) : Option State := do
  let sid ← s.current page
  match (s.connections sid).live with
  | [] => none
  | payload :: live =>
    some ((s.setConnection sid { s.connections sid with live := live }).setPage page
      ((s.pages page).writeOutput (encode payload.data) payload.sequence))

def deliverRestored (s : State) (page : Nat) (known : Bool) : Option State := do
  let sid ← s.current page
  match (s.connections sid).restore with
  | .sent bufferedOutput outputSequence =>
    some ((s.setConnection sid { s.connections sid with restore := .restored }).setPage page
      ((s.pages page).restoreSession known (encode bufferedOutput) outputSequence))
  | _ => none

def step (s : State) : Action → Option State
  | .record decodedData => s.record decodedData
  | .participants =>
    match s.reader with
    | .recorded payload => some { s with reader := .emitting payload s.room }
    | _ => none
  | .emit sid => s.emit sid
  | .emitted =>
    match s.reader with
    | .emitting _ [] => some { s with reader := .idle }
    | _ => none
  | .connect page => some (s.connect page)
  | .restore sid => s.restore sid
  | .disconnect sid => if sid < s.nextSid then some (s.disconnect sid) else none
  | .deliverOutput page => s.deliverOutput page
  | .deliverRestored page known => s.deliverRestored page known

end State

/-- All interleavings for a session whose buffer holds `outputBufferMax` characters. -/
def restoreSystem (outputBufferMax : Nat) : System State Action where
  Init s := s = .init outputBufferMax
  Step s action t := s.step action = some t

end WebSSH.Terminal
