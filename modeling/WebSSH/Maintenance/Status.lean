import WebSSH.Backup.Archive

/-!
# The persisted restore status

`_valid_status_document`, `_read` and `is_active` of `maintenance_mode.py`, on the bytes of the
status file. `loads` is `json.loads(payload.decode('utf-8'))`.
-/

namespace WebSSH.Maintenance.Status
open Lib Python Json

/-- A JSON object. -/
abbrev Items := List (String × Json)

inductive Loaded
  | document (document : Json)
  /-- `UnicodeError` or `json.JSONDecodeError` -/
  | decodeError
  /-- Any other error of the parser: `RecursionError` for a deep nesting, `ValueError` for a
  numeral that `int` refuses. -/
  | raised (error : String)

/-- What the operating system makes of reading the file. -/
inductive StatusFile
  | absent
  /-- An `OSError` other than `FileNotFoundError`. -/
  | unreadable
  | content (payload : Bytes)

/-- An exception that leaves the function. -/
inductive StatusError
  | typeError (message : String)
  | loads (error : String)

def knownStates : List String := ["preparing", "in_progress", "succeeded", "failed", "rollback_failed"]

def hashable : Json → Bool
  | .list _ | .dict _ => false
  | _ => true

/-- `value in names`, of a set of strings; `None` stands for a missing key. -/
def inSet (names : List String) : Option Json → Except StatusError Bool
  | none => .ok false
  | some (.str s) => .ok (s ∈ names)
  | some value => if hashable value then .ok false else .error (.typeError "unhashable type")

/-- `document.get(key)`, where `null` and a missing key are both `None`. -/
def getValue (document : Items) (key : String) : Option Json :=
  match get document key with
  | some .null => none
  | value => value

def validOperationId : Option Json → Bool
  | some (.str s) => s ≠ "" && s.length ≤ 256
  | _ => false

def isText : Option Json → Bool
  | some (.str _) => true
  | _ => false

def isNumber : Option Json → Bool
  | some (.int _) | some (.float _) => true
  | _ => false

def validFingerprint : Option Json → Bool
  | none => true
  | some (.str s) => s.length = 64 && s.toList.all (· ∈ "0123456789abcdef".toList)
  | some _ => false

/-- `PurePath(rollback_relative)` is relative, does not go up and has two parts. -/
def validRollback : Option Json → Bool
  | none => true
  | some (.str s) =>
    let parts := Backup.posixParts s
    s.toList.head? ≠ some '/' && ".." ∉ parts && parts.length = 2
  | some _ => false

/-- The checks after that of the state. -/
def validFields (document : Items) : Bool :=
  let fingerprint := getValue document "data_fingerprint"
  let rollbackRelative := getValue document "rollback_relative"
  validOperationId (get document "operation_id") && isText (get document "message") &&
    isNumber (get document "updated_at") && validFingerprint fingerprint &&
    validRollback rollbackRelative &&
    match get document "state" with
    | some (.str "in_progress") => fingerprint.isSome && rollbackRelative.isSome
    | some (.str "preparing") => fingerprint.isSome
    | _ => true

def validStatusDocument : Json → Except StatusError Bool
  | .dict document => do
    if ← inSet knownStates (get document "state") then return validFields document
    else return false
  | _ => .ok false

/-- `now` is `time.time()`. -/
def unreadableStatus (now : String) : Items :=
  [("state", .str "rollback_failed"), ("message", .str "Restore status is unreadable"),
    ("updated_at", .float now)]

/-- What `_read` makes of what the parser gives; only an object can be valid. -/
def accept (now : String) : Loaded → Except StatusError Items
  | .decodeError => .ok (unreadableStatus now)
  | .raised error => .error (.loads error)
  | .document (.dict items) => do
    if ← validStatusDocument (.dict items) then return items else return unreadableStatus now
  | .document _ => .ok (unreadableStatus now)

variable (loads : Bytes → Loaded) (now : String)

/-- `_read`; the document that the process keeps comes before the file. -/
def read (cached : Option Items) (file : StatusFile) : Except StatusError (Option Items) :=
  match cached, file with
  | some document, _ => .ok (some document)
  | none, .absent => .ok none
  | none, .unreadable => .ok (some (unreadableStatus now))
  | none, .content payload => some <$> accept now (loads payload)

def isActive (cached : Option Items) (file : StatusFile) : Except StatusError Bool := do
  match ← read loads now cached file with
  | none => return false
  | some [] => return false
  | some document => inSet ["preparing", "in_progress", "rollback_failed"] (get document "state")

/-! ## Failing closed -/

/-- The file is a valid document of a restore that has ended. -/
def Finished (file : StatusFile) : Prop :=
  ∃ payload document, file = .content payload ∧ loads payload = .document (.dict document) ∧
    validStatusDocument (.dict document) = .ok true ∧
    ∃ s, get document "state" = some (.str s) ∧ (s = "succeeded" ∨ s = "failed")

/-- Reading returns, nothing is found only where there is no file, and what is found is valid or
holds the server in maintenance. -/
structure FailsClosed (file : StatusFile) : Prop where
  returns : ∃ found, read loads now none file = .ok found ∧ (found = none ↔ file = .absent) ∧
    ∀ document ∈ found, validStatusDocument (.dict document) = .ok true ∨
      get document "state" = some (.str "rollback_failed")
  active : file ≠ .absent → ¬ Finished loads file → isActive loads now none file = .ok true

variable {loads now} {names : List String} {document : Items} {value : Json} {file : StatusFile}
  {payload : Bytes}

theorem inSet_of_hashable (names : List String) (h : ∀ v ∈ get document "state", hashable v = true) :
    ∃ b, inSet names (get document "state") = .ok b := by
  unfold inSet
  split
  · exact ⟨_, rfl⟩
  · exact ⟨_, rfl⟩
  · rename_i v _ hv
    exact ⟨false, if_pos (h v hv)⟩

theorem inSet_of_not_hashable (h : hashable value = false) :
    inSet names (some value) = .error (.typeError "unhashable type") := by
  cases value with
  | list | dict => rfl
  | null | bool | int | float | str => nomatch h

/-- Only a text is in a set of texts. -/
theorem eq_str_of_inSet {v : Option Json} (h : inSet names v = .ok true) : ∃ s, v = some (.str s) ∧ s ∈ names := by
  unfold inSet at h
  split at h
  · nomatch h
  · rename_i s
    exact ⟨s, rfl, of_decide_eq_true (Except.ok.inj h)⟩
  · split at h
    · nomatch h
    · nomatch h

/-- The check decides about every object whose state can be looked up in a set. -/
theorem validStatusDocument_returns (h : ∀ v ∈ get document "state", hashable v = true) :
    ∃ b, validStatusDocument (.dict document) = .ok b := by
  obtain ⟨b, hb⟩ := inSet_of_hashable knownStates h
  cases b with
  | false => exact ⟨false, bind_eq_ok.mpr ⟨false, hb, rfl⟩⟩
  | true => exact ⟨validFields document, bind_eq_ok.mpr ⟨true, hb, rfl⟩⟩

theorem validStatusDocument_raises (h : get document "state" = some value) (hv : hashable value = false)
    (b : Bool) : validStatusDocument (.dict document) ≠ .ok b := by
  intro hok
  obtain ⟨_, hin, -⟩ := bind_eq_ok.mp hok
  rw [h, inSet_of_not_hashable hv] at hin
  nomatch hin

theorem state_of_valid (h : validStatusDocument (.dict document) = .ok true) :
    ∃ s, get document "state" = some (.str s) ∧ s ∈ knownStates := by
  unfold validStatusDocument at h
  obtain ⟨b, hb, h⟩ := bind_eq_ok.mp h
  cases b with
  | false => nomatch h
  | true => exact eq_str_of_inSet hb

theorem read_unreadable_active (h : read loads now none file = .ok (some (unreadableStatus now))) :
    isActive loads now none file = .ok true := by
  unfold isActive
  rw [h]
  rfl

/-- A valid document of a restore that has not ended keeps the server in maintenance. -/
theorem isActive_of_valid (h : read loads now none file = .ok (some document))
    (hvalid : validStatusDocument (.dict document) = .ok true)
    (hended : ¬ ∃ s, get document "state" = some (.str s) ∧ (s = "succeeded" ∨ s = "failed")) :
    isActive loads now none file = .ok true := by
  obtain ⟨s, hs, hknown⟩ := state_of_valid hvalid
  have hactive : s ∈ ["preparing", "in_progress", "rollback_failed"] := by
    have hsucceeded : s ≠ "succeeded" := fun h => hended ⟨s, hs, .inl h⟩
    have hfailed : s ≠ "failed" := fun h => hended ⟨s, hs, .inr h⟩
    simp only [knownStates, List.mem_cons, List.not_mem_nil, or_false] at hknown ⊢
    rcases hknown with h | h | h | h | h
    · exact .inl h
    · exact .inr (.inl h)
    · exact absurd h hsucceeded
    · exact absurd h hfailed
    · exact .inr (.inr h)
  unfold isActive
  rw [h]
  cases document with
  | nil => nomatch hs
  | cons item rest =>
    refine bind_eq_ok.mpr ⟨_, rfl, ?_⟩
    dsimp only
    rw [hs]
    exact congrArg Except.ok (decide_eq_true hactive)

theorem read_content {found : Option Items} :
    read loads now none (.content payload) = .ok found ↔
      ∃ document, accept now (loads payload) = .ok document ∧ some document = found := by
  refine Iff.trans bind_eq_ok ?_
  exact exists_congr fun document => and_congr_right fun _ => ⟨Except.ok.inj, congrArg Except.ok⟩

/-- The parser gives a document whose state can be looked up, or an error that is caught. -/
def Anticipated : Loaded → Prop
  | .raised _ => False
  | .document (.dict document) => ∀ value ∈ get document "state", hashable value = true
  | _ => True

theorem accept_returns_iff {loaded : Loaded} :
    (∃ document, accept now loaded = .ok document) ↔ Anticipated loaded := by
  cases loaded with
  | decodeError => exact iff_of_true ⟨_, rfl⟩ trivial
  | raised error => exact iff_of_false (fun h => nomatch h) id
  | document json =>
    cases json with
    | dict items =>
      constructor
      · rintro ⟨document, h⟩ value hvalue
        obtain ⟨b, hvalid, -⟩ := bind_eq_ok.mp h
        refine (Bool.not_eq_false _).mp fun hv => ?_
        exact validStatusDocument_raises hvalue hv b hvalid
      · intro h
        obtain ⟨b, hvalid⟩ := validStatusDocument_returns h
        cases b with
        | true => exact ⟨items, bind_eq_ok.mpr ⟨true, hvalid, rfl⟩⟩
        | false => exact ⟨_, bind_eq_ok.mpr ⟨false, hvalid, rfl⟩⟩
    | null | bool | int | float | str | list => exact iff_of_true ⟨_, rfl⟩ trivial

/-- What is accepted is a valid document of the file, or the one for an unreadable file. -/
theorem of_accept {loaded : Loaded} (h : accept now loaded = .ok document) :
    document = unreadableStatus now ∨ loaded = .document (.dict document) ∧
      validStatusDocument (.dict document) = .ok true := by
  unfold accept at h
  split at h
  · exact .inl (Except.ok.inj h).symm
  · nomatch h
  · obtain ⟨b, hvalid, h⟩ := bind_eq_ok.mp h
    cases b with
    | true =>
      cases h
      exact .inr ⟨rfl, hvalid⟩
    | false => exact .inl (Except.ok.inj h).symm
  · exact .inl (Except.ok.inj h).symm

/-- Reading fails closed unless the parser raises another error, or the state is a list or an
object. -/
theorem read_failsClosed_iff (loads : Bytes → Loaded) (now : String) (file : StatusFile) :
    FailsClosed loads now file ↔ ∀ payload, file = .content payload → Anticipated (loads payload) := by
  constructor
  · rintro H payload rfl
    obtain ⟨found, hread, -⟩ := H.returns
    obtain ⟨document, haccept, -⟩ := read_content.mp hread
    exact accept_returns_iff.mp ⟨document, haccept⟩
  · intro h
    cases file with
    | absent =>
      exact ⟨⟨none, rfl, iff_of_true rfl rfl, fun _ hfound => nomatch hfound⟩,
        fun hpresent => absurd rfl hpresent⟩
    | unreadable =>
      refine ⟨⟨_, rfl, iff_of_false (fun h => nomatch h) (fun h => nomatch h), ?_⟩,
        fun _ _ => read_unreadable_active rfl⟩
      rintro _ ⟨⟩
      exact .inr rfl
    | content payload =>
      obtain ⟨document, haccept⟩ := accept_returns_iff.mpr (h payload rfl)
      have hread := read_content.mpr ⟨document, haccept, rfl⟩
      refine ⟨⟨_, hread, iff_of_false (fun h => nomatch h) (fun h => nomatch h), ?_⟩, fun _ hended => ?_⟩
      · rintro _ ⟨⟩
        rcases of_accept haccept with rfl | ⟨-, hvalid⟩
        · exact .inr rfl
        · exact .inl hvalid
      · rcases of_accept haccept with rfl | ⟨hloads, hvalid⟩
        · exact read_unreadable_active hread
        · refine isActive_of_valid hread hvalid fun hstate => hended ?_
          exact ⟨payload, document, rfl, hloads, hvalid, hstate⟩

def listStatePayload : Bytes := encode "\x7b\"state\":[]\x7d"

/-- The parser on that payload and on the empty one. -/
def listStateLoads (payload : Bytes) : Loaded :=
  if payload = listStatePayload then .document (.dict [("state", .list [])]) else .decodeError

/-- A list for a state cannot be looked up, and the error leaves the reader. -/
theorem listState_raises :
    read listStateLoads "0.0" none (.content listStatePayload) =
        .error (.typeError "unhashable type") ∧
      isActive listStateLoads "0.0" none (.content listStatePayload) =
        .error (.typeError "unhashable type") ∧
      ¬ FailsClosed listStateLoads "0.0" (.content listStatePayload) := by
  have hloads : listStateLoads listStatePayload = .document (.dict [("state", .list [])]) := if_pos rfl
  have hread : read listStateLoads "0.0" none (.content listStatePayload) =
      .error (.typeError "unhashable type") := by
    rw [read, hloads]
    rfl
  refine ⟨hread, ?_, fun H => ?_⟩
  · rw [isActive, hread]
    rfl
  · obtain ⟨found, hok, -⟩ := H.returns
    rw [hread] at hok
    nomatch hok

end WebSSH.Maintenance.Status
