import Mathlib
import WebSSH.Lib.Text

/-!
# Linux diagnostics

The awk programs of `LINUX_DIAGNOSTICS_COMMAND` that print the processes, and `parse_linux_stats`
of `session_insights.py`, which reads the whole output.
-/

namespace WebSSH.Diagnostics
open Lib Lib.Text Function

/-- A `str`, by its characters. -/
abbrev Text := List Char

/-- What is used of Python's `float`. -/
structure Floats where
  Value : Type
  /-- `float(text)`, or none where that is a `ValueError`. -/
  float : Text → Option Value
  /-- `math.isfinite(value) and 0 <= value <= maximum` -/
  inRange : Value → Nat → Bool
  /-- `int(value)` -/
  truncate : Value → Int

/-! ## The awk programs -/

/-- A line of the output. -/
def outputLine (key : String) (value : Text) : Text := key.toList ++ '=' :: value ++ ['\n']

/-- `$1|$2|$3|$4|$5` -/
def awkRow (record : Text) : Text :=
  field record 1 ++ '|' :: field record 2 ++ '|' :: field record 3 ++ '|' :: field record 4 ++
    '|' :: field record 5

/-- `substr($1, 1, 1) == "Z"` -/
def isZombie (record : Text) : Bool := (field record 1).head? = some 'Z'

/-- What the process part prints, of the records that the three calls of `ps` print. -/
def processOutput (stat byCpu byMemory : List Text) : Text :=
  outputLine "process_total" (Nat.toDigits 10 stat.length) ++
    outputLine "process_zombies" (Nat.toDigits 10 (stat.countP isZombie)) ++
    (byCpu.take 5).flatMap (fun record => outputLine "process_cpu" (awkRow record)) ++
    (byMemory.take 5).flatMap (fun record => outputLine "process_memory" (awkRow record))

/-! ## The parser -/

def defaultMaxBytes : Nat := 16 * 1024

/-- `_SINGLE_KEYS` -/
def singleKeys : List Text :=
  ["cpu", "mem_total_kib", "mem_available_kib", "disk_total_kib", "disk_used_kib",
    "disk_available_kib", "disk_percent", "uptime_seconds", "os_name", "load_1", "load_5", "load_15",
    "cpu_count", "swap_total_kib", "swap_free_kib", "network_received_bytes",
    "network_transmitted_bytes", "process_total", "process_zombies"].map String.toList

/-- `_MULTI_KEYS` -/
def multiKeys : List Text := ["process_cpu", "process_memory", "permission_denied"].map String.toList

/-- `_PERMISSION_SCOPES` -/
def permissionScopes : List Text := ["processes".toList]

/-- Named, so that no definition of this module carries a proof of it. -/
local instance keyLawful : LawfulBEq Text := inferInstance

/-- `values` and `repeated` -/
structure Collected where
  values : Text → Option Text
  repeated : Text → List Text

namespace Collected

def empty : Collected := ⟨fun _ => none, fun _ => []⟩

/-- One round of the loop over the lines. -/
def add (acc : Collected) (line : Text) : Collected :=
  match partition '=' line with
  | (_, none) => acc
  | (key, some value) =>
    if key ∈ singleKeys then { acc with values := update acc.values key (some (trim value)) }
    else if key ∈ multiKeys ∧ (acc.repeated key).length < 16 then
      { acc with repeated := update acc.repeated key (acc.repeated key ++ [trim value]) }
    else acc

/-- `values.get(key)` -/
def value (acc : Collected) (key : String) : Option Text := acc.values key.toList

/-- `repeated[key]` -/
def rows (acc : Collected) (key : String) : List Text := acc.repeated key.toList

end Collected

/-- `_optional_int`, of a value that is there. -/
def optionalInt (maximum : Nat) (value : Text) : Option Nat :=
  (int value).bind fun n => if n < 0 ∨ maximum < n then none else some n.toNat

/-- `_safe_text` -/
def safeText (maximum : Nat) (value : Text) : Option Text :=
  let normalized := trim value
  if normalized = [] ∨ maximum < normalized.length then none
  else if normalized.any fun c => c.toNat < 32 || c.toNat = 127 then none
  else some normalized

variable (F : Floats)

/-- `_optional_float`, of a value that is there. -/
def optionalFloat (maximum : Nat) (value : Text) : Option F.Value :=
  (F.float value).filter fun x => F.inRange x maximum

structure Row where
  pid : Nat
  user : Text
  command : Text
  cpuPercent : F.Value
  memoryPercent : F.Value

/-- One round of `_parse_process_rows`. -/
def parseRow (row : Text) : Option (Row F) :=
  match row.splitOn '|' with
  | [pid, user, command, cpu, memory] => do
    let pid ← optionalInt 2147483647 pid
    let user ← safeText 64 user
    let command ← safeText 128 command
    let cpuPercent ← optionalFloat F 100000 cpu
    let memoryPercent ← optionalFloat F 100 memory
    if pid = 0 then none else some ⟨pid, user, command, cpuPercent, memoryPercent⟩
  | _ => none

/-- `_parse_process_rows` -/
def parseProcessRows (rows : List Text) : List (Row F) := (rows.take 5).filterMap (parseRow F)

structure Memory where
  totalKib : Nat
  availableKib : Nat
  usedKib : Nat

structure Disk where
  totalKib : Nat
  usedKib : Nat
  availableKib : Nat
  percent : Nat

structure Load where
  one : F.Value
  five : F.Value
  fifteen : F.Value
  cpuCount : Nat

structure Network where
  receivedBytes : Nat
  transmittedBytes : Nat

structure Processes where
  total : Nat
  zombies : Nat
  topCpu : List (Row F)
  topMemory : List (Row F)

/-- The payload; what it does not hold is none. -/
structure Stats where
  cpu : Option (List Int)
  memory : Option Memory
  disk : Option Disk
  uptimeSeconds : Option Int
  osName : Option Text
  load : Option (Load F)
  swap : Option Memory
  network : Option Network
  processes : Option (Processes F)
  permissionDenied : Option (List Text)

variable (acc : Collected)

namespace Collected

def int (key : String) (maximum : Nat) : Option Nat := (acc.value key).bind (optionalInt maximum)

def float (key : String) (maximum : Nat) : Option F.Value :=
  (acc.value key).bind (optionalFloat F maximum)

end Collected

def parseCpu : Option (List Int) :=
  match (words ((acc.value "cpu").getD [])).mapM Text.int with
  | none => none
  | some cpu => if 4 ≤ cpu.length ∧ ∀ value ∈ cpu, 0 ≤ value then some cpu else none

def parseMemory : Option Memory := do
  let total ← acc.int "mem_total_kib" (2 ^ 63 - 1)
  let available ← acc.int "mem_available_kib" (2 ^ 63 - 1)
  if 0 < total ∧ available ≤ total then some ⟨total, available, total - available⟩ else none

def parseDisk : Option Disk := do
  let total ← acc.int "disk_total_kib" (2 ^ 63 - 1)
  let used ← acc.int "disk_used_kib" (2 ^ 63 - 1)
  let available ← acc.int "disk_available_kib" (2 ^ 63 - 1)
  let percent ← acc.int "disk_percent" 100
  if 0 < total ∧ used ≤ total ∧ available ≤ total then some ⟨total, used, available, percent⟩
  else none

def parseLoad : Option (Load F) := do
  let one ← acc.float F "load_1" 1000000
  let five ← acc.float F "load_5" 1000000
  let fifteen ← acc.float F "load_15" 1000000
  let cpuCount ← acc.int "cpu_count" 1000000
  if cpuCount = 0 then none else some ⟨one, five, fifteen, cpuCount⟩

def parseSwap : Option Memory := do
  let total ← acc.int "swap_total_kib" (2 ^ 63 - 1)
  let free ← acc.int "swap_free_kib" (2 ^ 63 - 1)
  if free ≤ total then some ⟨total, free, total - free⟩ else none

def parseNetwork : Option Network := do
  let received ← acc.int "network_received_bytes" (2 ^ 64 - 1)
  let transmitted ← acc.int "network_transmitted_bytes" (2 ^ 64 - 1)
  some ⟨received, transmitted⟩

def parseProcesses : Option (Processes F) := do
  let total ← acc.int "process_total" 10000000
  let zombies ← acc.int "process_zombies" 10000000
  let topCpu := parseProcessRows F (acc.rows "process_cpu")
  let topMemory := parseProcessRows F (acc.rows "process_memory")
  if zombies ≤ total ∧ (topCpu.length ≠ 0 ∨ topMemory.length ≠ 0) then
    some ⟨total, zombies, topCpu, topMemory⟩
  else none

/-- The scopes that are known, each once. -/
def parsePermissions : Option (List Text) :=
  let permissions := (acc.rows "permission_denied").foldl (fun permissions scope =>
    if scope ∈ permissionScopes ∧ scope ∉ permissions then permissions ++ [scope] else permissions) []
  if permissions = [] then none else some permissions

def stats : Stats F where
  cpu := parseCpu acc
  memory := parseMemory acc
  disk := parseDisk acc
  uptimeSeconds := (acc.float F "uptime_seconds" (2 ^ 63 - 1)).map F.truncate
  osName := (acc.value "os_name").bind (safeText 200)
  load := parseLoad F acc
  swap := parseSwap acc
  network := parseNetwork acc
  processes := parseProcesses F acc
  permissionDenied := parsePermissions acc

namespace Stats

variable {F}

/-- `not result` -/
def isEmpty (result : Stats F) : Bool :=
  result.cpu.isNone && result.memory.isNone && result.disk.isNone && result.uptimeSeconds.isNone &&
    result.osName.isNone && result.load.isNone && result.swap.isNone && result.network.isNone &&
    result.processes.isNone && result.permissionDenied.isNone

end Stats

/-- `parse_linux_stats` -/
def parseLinuxStats (text : Text) (maxBytes : Nat) : Except String (Stats F) :=
  if maxBytes < (Python.encode (String.ofList text)).length then .error "stats payload too large"
  else
    let result := stats F ((splitlines text).foldl Collected.add .empty)
    if result.isEmpty then .error "no supported metrics" else .ok result

end WebSSH.Diagnostics
