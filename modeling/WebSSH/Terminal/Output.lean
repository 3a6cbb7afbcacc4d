import WebSSH.Lib.Utf8

/-!
# The output of an SSH session

`record_output`, `get_output_snapshot` and the loop of `read_ssh_output` (`ssh_manager.py`) for one
session that is in `sessions`.
-/

namespace WebSSH.Terminal
open Lib Python Utf8

/-! ## Device attributes -/

/-- The length of a match of `[0-9;]*c`. -/
def matchParameters : List Char → Option Nat
  | [] => none
  | c :: rest =>
    if c = 'c' then some 1
    else if c.isDigit ∨ c = ';' then (matchParameters rest).map (· + 1)
    else none

/-- The length of a match of `\x1b\[[?>]?[0-9;]*c`. -/
def matchDeviceAttributes : List Char → Option Nat
  | '\x1b' :: '[' :: '?' :: rest => (matchParameters rest).map (· + 3)
  | '\x1b' :: '[' :: '>' :: rest => (matchParameters rest).map (· + 3)
  | '\x1b' :: '[' :: rest => (matchParameters rest).map (· + 2)
  | _ => none

/-- `re.sub(r'\x1b\[[?>]?[0-9;]*c', '', text)`; the first `skip` characters are in a match. -/
def subFrom : Nat → List Char → List Char
  | _, [] => []
  | skip + 1, _ :: rest => subFrom skip rest
  | 0, c :: rest =>
    match matchDeviceAttributes (c :: rest) with
    | some n => subFrom (n - 1) rest
    | none => c :: subFrom 0 rest

def removeDeviceAttributes (text : String) : String := String.ofList (subFrom 0 text.toList)

example : removeDeviceAttributes "a\x1b[?1;2cb\x1b[31mc" = "ab\x1b[31mc" := by decide

/-! ## The session -/

structure Session where
  connected : Bool
  outputSequence : Nat
  outputBuffer : List String
  outputBufferSize : Nat
  outputBufferMax : Nat

/-- The loop of `record_output` that drops the oldest chunks of a full buffer. -/
def evict (limit : Nat) : List String → Nat → List String × Nat
  | removed :: next :: buf, size =>
    if limit < size then evict limit (next :: buf) (size - removed.toList.length)
    else (removed :: next :: buf, size)
  | buf, size => (buf, size)

def recordOutput (s : Session) (decodedData : String) : Option Nat × Session :=
  if s.connected = false then (none, s)
  else
    let sequence := s.outputSequence + 1
    let (buf, size) := evict s.outputBufferMax (s.outputBuffer ++ [decodedData])
      (s.outputBufferSize + decodedData.toList.length)
    (some sequence,
      { s with outputSequence := sequence, outputBuffer := buf, outputBufferSize := size })

def getOutputSnapshot (s : Session) : String × Nat :=
  (removeDeviceAttributes (String.join s.outputBuffer), s.outputSequence)

/-- What `read_ssh_output` emits for one chunk. -/
structure Payload where
  data : String
  sequence : Nat

/-- The loop of `read_ssh_output` over the results of `channel.recv`. -/
def readSshOutput : Session → List Bytes → List Payload × Session
  | s, [] => ([], s)
  | s, data :: rest =>
    if data = [] then ([], s)
    else
      let decodedData := removeDeviceAttributes (decodeReplace data)
      if decodedData = "" then readSshOutput s rest
      else
        match recordOutput s decodedData with
        | (none, s) => ([], s)
        | (some sequence, s) =>
          let (payloads, s) := readSshOutput s rest
          (⟨decodedData, sequence⟩ :: payloads, s)

/-! ## Lemmas on the filter -/

theorem matchParameters_le {l : List Char} {n : Nat} (h : matchParameters l = some n) :
    0 < n ∧ n ≤ l.length := by
  induction l generalizing n with
  | nil => cases h
  | cons c l ih =>
    simp only [matchParameters] at h
    split at h
    · cases h; simp
    · split at h
      · obtain ⟨m, hm, rfl⟩ := Option.map_eq_some_iff.mp h
        have := ih hm
        simp only [List.length_cons]
        omega
      · cases h

/-- A match depends on the characters it matches. -/
theorem matchParameters_take {l : List Char} {n : Nat} (h : matchParameters l = some n) :
    matchParameters (l.take n) = some n := by
  induction l generalizing n with
  | nil => cases h
  | cons c l ih =>
    simp only [matchParameters] at h
    split at h
    · cases h; simp [matchParameters, *]
    · split at h
      · obtain ⟨m, hm, rfl⟩ := Option.map_eq_some_iff.mp h
        rw [List.take_succ_cons, matchParameters, if_neg ‹_›, if_pos ‹_›, ih hm]
        rfl
      · cases h

/-- A match is an escape, a bracket, at most one mark, and parameters. -/
theorem matchDeviceAttributes_cases {l : List Char} {n : Nat}
    (h : matchDeviceAttributes l = some n) :
    (∃ mark rest m, (mark = '?' ∨ mark = '>') ∧ l = '\x1b' :: '[' :: mark :: rest ∧
      matchParameters rest = some m ∧ n = m + 3) ∨
    ∃ rest m, l = '\x1b' :: '[' :: rest ∧ matchParameters rest = some m ∧ n = m + 2 := by
  unfold matchDeviceAttributes at h
  split at h
  · obtain ⟨m, hm, rfl⟩ := Option.map_eq_some_iff.mp h
    exact .inl ⟨'?', _, m, .inl rfl, rfl, hm, rfl⟩
  · obtain ⟨m, hm, rfl⟩ := Option.map_eq_some_iff.mp h
    exact .inl ⟨'>', _, m, .inr rfl, rfl, hm, rfl⟩
  · obtain ⟨m, hm, rfl⟩ := Option.map_eq_some_iff.mp h
    exact .inr ⟨_, m, rfl, hm, rfl⟩
  · cases h

theorem matchDeviceAttributes_le {l : List Char} {n : Nat}
    (h : matchDeviceAttributes l = some n) : 3 ≤ n ∧ n ≤ l.length := by
  rcases matchDeviceAttributes_cases h with ⟨_, _, m, _, rfl, hm, rfl⟩ | ⟨_, m, rfl, hm, rfl⟩
  · have := matchParameters_le hm
    simp only [List.length_cons]
    omega
  · have := matchParameters_le hm
    simp only [List.length_cons]
    omega

/-- Parameters do not start with a mark. -/
theorem matchDeviceAttributes_of_parameters {rest : List Char} {n : Nat}
    (h : matchParameters rest = some n) :
    matchDeviceAttributes ('\x1b' :: '[' :: rest) = some (n + 2) := by
  unfold matchDeviceAttributes
  split
  · rename_i heq
    cases heq
    cases h
  · rename_i heq
    cases heq
    cases h
  · rename_i heq
    cases heq
    rw [h]
    rfl
  · rename_i hne
    exact absurd rfl (hne _)

theorem matchDeviceAttributes_take {l : List Char} {n : Nat}
    (h : matchDeviceAttributes l = some n) : matchDeviceAttributes (l.take n) = some n := by
  rcases matchDeviceAttributes_cases h with ⟨mark, rest, m, hmark, rfl, hm, rfl⟩ | ⟨rest, m, rfl, hm, rfl⟩
  · have htake := matchParameters_take hm
    rcases hmark with rfl | rfl <;> simp [matchDeviceAttributes, htake]
  · exact matchDeviceAttributes_of_parameters (matchParameters_take hm)

/-- The text has a sequence that the filter removes. -/
def HasDeviceAttributes (text : List Char) : Prop :=
  ∃ rest n, rest <:+ text ∧ matchDeviceAttributes rest = some n

theorem subFrom_eq_self {text : List Char} (h : ¬ HasDeviceAttributes text) :
    subFrom 0 text = text := by
  induction text with
  | nil => rfl
  | cons c rest ih =>
    have hnone : matchDeviceAttributes (c :: rest) = none := by
      cases hm : matchDeviceAttributes (c :: rest) with
      | none => rfl
      | some n => exact absurd ⟨_, n, List.suffix_refl _, hm⟩ h
    rw [subFrom, hnone]
    refine congrArg (c :: ·) (ih fun ⟨l, n, hl, hm⟩ => h ⟨l, n, ?_, hm⟩)
    exact hl.trans (List.suffix_cons c rest)

theorem subFrom_length (text : List Char) : subFrom text.length text = [] := by
  induction text with
  | nil => rfl
  | cons c rest ih => exact ih

/-- A text that is one sequence is removed. -/
theorem subFrom_of_match {text : List Char} (h : matchDeviceAttributes text = some text.length) :
    subFrom 0 text = [] := by
  cases text with
  | nil => rfl
  | cons c rest =>
    rw [subFrom, h]
    exact subFrom_length rest

theorem not_hasDeviceAttributes {text : List Char} (h : text.length < 3) :
    ¬ HasDeviceAttributes text := by
  rintro ⟨rest, n, hrest, hm⟩
  have := matchDeviceAttributes_le hm
  have := hrest.length_le
  omega

end WebSSH.Terminal
