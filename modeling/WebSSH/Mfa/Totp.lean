import Mathlib.Data.Int.Order.Basic
import Mathlib.Data.List.Nodup
import WebSSH.Lib.Ascending
import WebSSH.Lib.Python
import WebSSH.Lib.System

/-!
# One-time codes

The calls `verify_totp` and `activate_totp_enrollment` of `totp_service.py`. Both hold `_totp_lock`
from their first query to the commit, so a call is one step. The codes of a secret are an arbitrary
function of the step: two neighbouring steps may have one code.
-/

namespace WebSSH.Mfa.Totp
open Lib Lib.Python

/-- The functions that the service calls. -/
structure Runtime (Secret : Type) where
  /-- `decrypt_totp_secret`; `none` where it raises. -/
  decrypt : Nat → Bytes → Option Secret
  /-- `pyotp.TOTP(secret, digits=6, interval=30).at(step * 30)` -/
  code : Secret → Int → String
  /-- `int(now.timestamp())` of a number of microseconds. -/
  timestamp : Int → Int
  /-- `_digest` -/
  digest : String → String
  /-- `_hash` of `recovery_service.py`. -/
  hash : String → Bytes

def maxAuthenticatorsPerUser : Nat := 5

structure User where
  id : Nat
  isLocked : Bool
  mfaEnabled : Bool
  deriving DecidableEq, Repr

/-- A row of `TOTPAuthenticator`. -/
structure Authenticator where
  id : Nat
  userId : Nat
  encryptedSecret : Bytes
  label : String
  active : Bool
  lastAcceptedStep : Option Int
  createdAt : Int
  activatedAt : Option Int
  lastUsedAt : Option Int
  deriving DecidableEq, Repr

/-- A row of `TOTPEnrollment`. -/
structure Enrollment where
  tokenHash : String
  userId : Nat
  sessionBindingHash : String
  encryptedSecret : Bytes
  label : String
  createdAt : Int
  expiresAt : Int
  deriving DecidableEq, Repr

/-! ## The table of the authenticators -/

/-- The rows of a table whose primary key is `id`. -/
structure Authenticators where
  rows : List Authenticator
  unique : (rows.map Authenticator.id).Nodup

namespace Authenticators

variable {table : Authenticators} {row other : Authenticator}

theorem eq_of_id_eq (hrow : row ∈ table.rows) (hother : other ∈ table.rows)
    (h : row.id = other.id) : row = other :=
  List.inj_on_of_nodup_map table.unique hrow hother h

/-- The columns of a row are written. -/
def write (table : Authenticators) (row : Authenticator) : Authenticators where
  rows := table.rows.map fun other => if other.id = row.id then row else other
  unique := by
    have hids : table.rows.map (Authenticator.id ∘ fun other =>
        if other.id = row.id then row else other) = table.rows.map Authenticator.id := by
      refine List.map_congr_left fun other _ => ?_
      simp only [Function.comp_apply]
      split
      · exact (‹other.id = row.id›).symm
      · rfl
    rw [List.map_map, hids]
    exact table.unique

theorem mem_write (hrow : row ∈ (table.write other).rows) :
    row = other ∨ row ∈ table.rows ∧ row.id ≠ other.id := by
  obtain ⟨old, hold, rfl⟩ := List.mem_map.mp hrow
  split
  · exact .inl rfl
  · exact .inr ⟨hold, ‹_›⟩

/-- The row that is written stands in the table if one with its id did. -/
theorem write_mem (hold : row ∈ table.rows) (hid : row.id = other.id) :
    other ∈ (table.write other).rows :=
  List.mem_map.mpr ⟨row, hold, if_pos hid⟩

theorem mem_write_of_ne (hrow : row ∈ table.rows) (hid : row.id ≠ other.id) :
    row ∈ (table.write other).rows :=
  List.mem_map.mpr ⟨row, hrow, if_neg hid⟩

/-- A row is inserted; its id must be free. -/
def insert? (table : Authenticators) (row : Authenticator) : Option Authenticators :=
  if h : row.id ∈ table.rows.map Authenticator.id then none
  else some ⟨table.rows ++ [row], by
    rw [List.map_append, List.nodup_append_comm]
    exact List.nodup_cons.mpr ⟨h, table.unique⟩⟩

theorem insert?_eq_some {table' : Authenticators} (h : table.insert? row = some table') :
    (∀ other ∈ table.rows, other.id ≠ row.id) ∧ table'.rows = table.rows ++ [row] := by
  unfold insert? at h
  split at h
  · cases h
  · rename_i hfree
    cases h
    exact ⟨fun other hother hid => hfree (List.mem_map.mpr ⟨other, hother, hid⟩), rfl⟩

end Authenticators

structure State where
  users : List User
  enrollments : List Enrollment
  authenticators : Authenticators
  /-- The user and the hash of each row of `RecoveryCode`. -/
  recoveryCodes : List (Nat × Bytes)

variable {Secret : Type}

/-! ## The accepted step -/

/-- The code as it is compared: six digits without the space around them. -/
def candidate (code : Option String) : Option String :=
  let candidate := strip (code.getD "")
  if candidate.length ≠ 6 ∨ isAscii candidate = false ∨
      candidate.toList.all Char.isDigit = false then none
  else some candidate

/-- The steps that are tried, in their order. -/
def window (timestamp : Int) : List Int :=
  let baseStep := timestamp / 30
  [-1, 0, 1].map fun offset => baseStep + offset

/-- `_accepted_step` -/
def acceptedStep (R : Runtime Secret) (secret : Secret) (code : Option String) (now : Int) :
    Option Int :=
  (candidate code).bind fun candidate =>
    (window (R.timestamp now)).find? fun step => R.code secret step = candidate

/-- The step at which a row accepts the code, in the loop of `verify_totp`. -/
def Authenticator.matchedStep (row : Authenticator) (R : Runtime Secret) (code : Option String)
    (now : Int) : Option Int :=
  (R.decrypt row.userId row.encryptedSecret).bind fun secret =>
    (acceptedStep R secret code now).filter fun step =>
      row.lastAcceptedStep.all fun last => last < step

/-- The active rows of a user, `order_by(TOTPAuthenticator.id.asc())`. -/
def State.activeRows (s : State) (userId : Nat) : List Authenticator :=
  (s.authenticators.rows.filter fun row => row.userId = userId ∧ row.active = true).mergeSort
    fun row other => row.id ≤ other.id

/-- `matched` with its `last_accepted_step` and `last_used_at` set. -/
def State.matched (s : State) (R : Runtime Secret) (userId : Nat) (code : Option String)
    (now : Int) : Option Authenticator :=
  (s.activeRows userId).findSome? fun row =>
    (row.matchedStep R code now).map fun step =>
      { row with lastAcceptedStep := some step, lastUsedAt := some now }

/-- `verify_totp`: `True` is returned as the row that was written. -/
def State.verifyTotp (s : State) (R : Runtime Secret) (userId : Nat) (code : Option String)
    (now : Int) (committed : Bool) : Option Authenticator × State :=
  match s.matched R userId code now with
  | none => (none, s)
  | some row =>
    if committed then (some row, { s with authenticators := s.authenticators.write row })
    else (none, s)

/-! ## Activation -/

inductive Error
  | enrollment (message : String)
  /-- `decrypt_totp_secret` raises. -/
  | decrypt
  /-- `db.session.commit` raises. -/
  | commit
  deriving DecidableEq, Repr

/-- What an activation is called with, and what it gets from outside. -/
structure Activation where
  token : String
  code : Option String
  sessionBinding : String
  now : Int
  label : Option String
  /-- The id the database gives the new row. -/
  id : Nat
  /-- The new recovery codes, in plain text. -/
  recoveryCodes : List String
  committed : Bool

/-- `a or b` of two strings. -/
def orElse (a : Option String) (b : String) : String :=
  match a with
  | none | some "" => b
  | some a => a

/-- `activate_totp_enrollment`, with the row and the recovery codes that it returns. -/
def State.activateTotpEnrollment (s : State) (R : Runtime Secret) (a : Activation) :
    Except Error (Authenticator × List String) × State :=
  let found := s.enrollments.find? fun e =>
    e.tokenHash = R.digest a.token ∧ e.sessionBindingHash = R.digest a.sessionBinding
  match found with
  | none => (.error (.enrollment "TOTP enrollment is invalid or expired"), s)
  | some enrollment =>
    if enrollment.expiresAt ≤ a.now then
      (.error (.enrollment "TOTP enrollment is invalid or expired"), s)
    else
      match s.users.find? fun user => user.id = enrollment.userId with
      | none => (.error (.enrollment "account is unavailable"), s)
      | some user =>
        if user.isLocked then (.error (.enrollment "account is unavailable"), s)
        else if maxAuthenticatorsPerUser ≤
            s.authenticators.rows.countP fun row => row.userId = user.id then
          (.error (.enrollment "TOTP authenticator limit reached"), s)
        else
          match R.decrypt user.id enrollment.encryptedSecret with
          | none => (.error .decrypt, s)
          | some secret =>
            match acceptedStep R secret a.code a.now with
            | none => (.error (.enrollment "TOTP code is invalid"), s)
            | some accepted =>
              let label := strip (orElse a.label (orElse (some enrollment.label) "Authenticator"))
              if label = "" ∨ 80 < label.length then
                (.error (.enrollment "TOTP label is invalid"), s)
              else
                let authenticator : Authenticator :=
                  { id := a.id
                    userId := user.id
                    encryptedSecret := enrollment.encryptedSecret
                    label := label
                    active := true
                    lastAcceptedStep := some accepted
                    createdAt := enrollment.createdAt
                    activatedAt := some a.now
                    lastUsedAt := none }
                let codes := if user.mfaEnabled then [] else a.recoveryCodes
                let hashes :=
                  if user.mfaEnabled then s.recoveryCodes
                  else s.recoveryCodes.filter (fun row => row.1 ≠ user.id) ++
                    codes.map fun code => (user.id, R.hash code)
                match s.authenticators.insert? authenticator with
                | none => (.error .commit, s)
                | some authenticators =>
                  if a.committed then
                    (.ok (authenticator, codes),
                      { users := s.users.map fun u =>
                          if u.id = user.id then { u with mfaEnabled := true } else u
                        enrollments := s.enrollments.erase enrollment
                        authenticators := authenticators
                        recoveryCodes := hashes })
                  else (.error .commit, s)

/-! ## Histories -/

inductive Call
  | verify (userId : Nat) (code : Option String) (now : Int) (committed : Bool)
  | activate (a : Activation)

inductive Reply
  | verified (row : Option Authenticator)
  | activated (result : Except Error (Authenticator × List String))

/-- The row whose step was accepted. -/
def Reply.row? : Reply → Option Authenticator
  | verified row => row
  | activated (.ok (row, _)) => some row
  | activated (.error _) => none

/-- The authenticator and the step that were accepted. -/
def Reply.accepted (reply : Reply) : Option (Nat × Int) :=
  reply.row?.bind fun row => row.lastAcceptedStep.map fun step => (row.id, step)

def State.step (R : Runtime Secret) (s : State) : Call → Reply × State
  | .verify userId code now committed =>
    let (row, s) := s.verifyTotp R userId code now committed
    (.verified row, s)
  | .activate a =>
    let (result, s) := s.activateTotpEnrollment R a
    (.activated result, s)

/-- The calls, from any tables. -/
def system (R : Runtime Secret) : System State (Call × Reply) where
  Init _ := True
  Step s e t := s.step R e.1 = (e.2, t)

/-! ## What a call accepts -/

variable {R : Runtime Secret} {s t : State} {row other : Authenticator} {userId : Nat}
  {code : Option String} {now step : Int} {call : Call} {reply : Reply}

/-- The row has the submitted code for the step, which is one of the three that are tried. -/
def Authenticator.Matches (row : Authenticator) (R : Runtime Secret) (code : Option String)
    (now step : Int) : Prop :=
  ∃ secret, R.decrypt row.userId row.encryptedSecret = some secret ∧
    step ∈ window (R.timestamp now) ∧ some (R.code secret step) = candidate code

/-- The step is greater than the last one the row accepted. -/
def Authenticator.Fresh (row : Authenticator) (step : Int) : Prop :=
  ∀ last, row.lastAcceptedStep = some last → last < step

theorem window_sorted (timestamp : Int) : (window timestamp).Pairwise (· < ·) := by
  simp only [window, List.map_cons, List.map_nil, List.pairwise_cons, List.forall_mem_cons,
    List.not_mem_nil, false_implies, implies_true, List.Pairwise.nil, and_true]
  omega

/-- The first step with the code is the least one. -/
theorem acceptedStep_eq_some {secret : Secret} :
    acceptedStep R secret code now = some step ↔
      (step ∈ window (R.timestamp now) ∧ some (R.code secret step) = candidate code) ∧
      ∀ earlier ∈ window (R.timestamp now),
        some (R.code secret earlier) = candidate code → step ≤ earlier := by
  unfold acceptedStep
  cases candidate code with
  | none =>
    simp only [Option.bind_none, reduceCtorEq, and_false, false_and]
  | some c =>
    simp only [Option.bind_some, Option.some_inj]
    rw [find?_eq_some_iff_least (window_sorted _)]
    simp only [decide_eq_true_eq]

theorem matchedStep_eq_some : row.matchedStep R code now = some step ↔
    (row.Matches R code now step ∧ row.Fresh step) ∧
      ∀ earlier, row.Matches R code now earlier → step ≤ earlier := by
  unfold Authenticator.matchedStep Authenticator.Matches
  cases R.decrypt row.userId row.encryptedSecret with
  | none => simp only [Option.bind_none, reduceCtorEq, false_and, exists_false]
  | some secret =>
    have hfresh : (row.lastAcceptedStep.all fun last => decide (last < step)) = true ↔
        row.Fresh step := by
      simp only [Option.all_eq_true, decide_eq_true_eq, Authenticator.Fresh]
    simp only [Option.bind_some, Option.filter_eq_some_iff, acceptedStep_eq_some, hfresh,
      Option.some_inj, exists_eq_left', and_imp]
    exact and_right_comm

/-- A row accepts a step if it has the code for a step, and for none that is not fresh. -/
theorem matchedStep_exists : (∃ step, row.matchedStep R code now = some step) ↔
    (∃ step, row.Matches R code now step) ∧
      ∀ step, row.Matches R code now step → row.Fresh step := by
  constructor
  · rintro ⟨step, h⟩
    obtain ⟨⟨hmatch, hfresh⟩, hleast⟩ := matchedStep_eq_some.mp h
    exact ⟨⟨step, hmatch⟩, fun later hlater last hlast =>
      lt_of_lt_of_le (hfresh last hlast) (hleast later hlater)⟩
  · rintro ⟨⟨step, secret, hsecret, hmem, hcode⟩, hfresh⟩
    obtain ⟨first, hfirst⟩ : ∃ first, acceptedStep R secret code now = some first := by
      obtain ⟨c, hc⟩ : ∃ c, candidate code = some c := ⟨_, hcode.symm⟩
      have hfind : (acceptedStep R secret code now).isSome = true := by
        rw [acceptedStep, hc, Option.bind_some, List.find?_isSome]
        exact ⟨step, hmem, decide_eq_true (Option.some_inj.mp (hcode.trans hc))⟩
      exact Option.isSome_iff_exists.mp hfind
    obtain ⟨⟨hfirstmem, hfirstcode⟩, hleast⟩ := acceptedStep_eq_some.mp hfirst
    refine ⟨first, matchedStep_eq_some.mpr
      ⟨⟨⟨secret, hsecret, hfirstmem, hfirstcode⟩, hfresh first ⟨secret, hsecret, hfirstmem,
        hfirstcode⟩⟩, ?_⟩⟩
    rintro earlier ⟨secret', hsecret', hmem', hcode'⟩
    cases hsecret.symm.trans hsecret'
    exact hleast earlier hmem' hcode'

theorem mem_activeRows : row ∈ s.activeRows userId ↔
    row ∈ s.authenticators.rows ∧ row.userId = userId ∧ row.active = true := by
  simp only [State.activeRows, List.mem_mergeSort, List.mem_filter, decide_eq_true_eq]

/-- A row is written if one accepts a step. -/
theorem matched_exists : (∃ row, s.matched R userId code now = some row) ↔
    ∃ row ∈ s.authenticators.rows, row.userId = userId ∧ row.active = true ∧
      ∃ step, row.matchedStep R code now = some step := by
  rw [← Option.isSome_iff_exists, State.matched, List.findSome?_isSome_iff]
  simp only [mem_activeRows, Option.isSome_map, Option.isSome_iff_exists, and_assoc]

/-- The row that is written is a row of the table with a fresh step. -/
theorem matched_eq_some (h : s.matched R userId code now = some other) :
    ∃ row ∈ s.authenticators.rows, ∃ step, row.Fresh step ∧
      other = { row with lastAcceptedStep := some step, lastUsedAt := some now } := by
  obtain ⟨row, hrow, h⟩ := List.exists_of_findSome?_eq_some h
  obtain ⟨step, hstep, rfl⟩ := Option.map_eq_some_iff.mp h
  exact ⟨row, (mem_activeRows.mp hrow).1, step, (matchedStep_eq_some.mp hstep).1.2, rfl⟩

/-! ## The marks of the authenticators -/

/-- The last accepted step of the row with the id. -/
def Authenticators.mark (table : Authenticators) (id : Nat) : Option Int :=
  (table.rows.find? fun row => row.id = id).bind Authenticator.lastAcceptedStep

theorem mark_of_mem {table : Authenticators} (h : row ∈ table.rows) :
    table.mark row.id = row.lastAcceptedStep := by
  unfold Authenticators.mark
  cases hfind : table.rows.find? fun other => other.id = row.id with
  | none => exact absurd (decide_eq_true rfl) (List.find?_eq_none.mp hfind row h)
  | some other =>
    have hid : other.id = row.id := of_decide_eq_true (List.find?_some hfind :)
    rw [Authenticators.eq_of_id_eq (List.mem_of_find?_eq_some hfind) h hid]
    rfl

theorem mark_of_forall_ne {table : Authenticators} {id : Nat}
    (h : ∀ row ∈ table.rows, row.id ≠ id) : table.mark id = none := by
  have hfind : table.rows.find? (fun row => row.id = id) = none :=
    List.find?_eq_none.mpr fun row hrow => by simpa using h row hrow
  rw [Authenticators.mark, hfind]
  rfl

/-- Tables with the same rows of an id have the same mark for it. -/
theorem mark_congr {table table' : Authenticators} {id : Nat}
    (h : ∀ row, row.id = id → (row ∈ table'.rows ↔ row ∈ table.rows)) :
    table'.mark id = table.mark id := by
  by_cases hmem : ∃ row ∈ table.rows, row.id = id
  · obtain ⟨row, hrow, rfl⟩ := hmem
    rw [mark_of_mem hrow, mark_of_mem ((h row rfl).mpr hrow)]
  · have hnone : ∀ row ∈ table.rows, row.id ≠ id := fun row hrow hid => hmem ⟨row, hrow, hid⟩
    rw [mark_of_forall_ne hnone,
      mark_of_forall_ne fun row hrow hid => hnone row ((h row hid).mp hrow) hid]

/-- Either nothing is accepted and nothing changes, or one row gets a step beyond its mark. -/
inductive Accepts (s : State) (reply : Reply) (t : State) : Prop
  | nothing (hreply : reply.row? = none) (hstate : t = s)
  | row (row : Authenticator) (step : Int) (hreply : reply.row? = some row)
    (hstep : row.lastAcceptedStep = some step)
    (hfresh : ∀ last, s.authenticators.mark row.id = some last → last < step)
    (hmem : row ∈ t.authenticators.rows)
    (hframe : ∀ other, other.id ≠ row.id →
      (other ∈ t.authenticators.rows ↔ other ∈ s.authenticators.rows))

theorem verifyTotp_accepts {committed : Bool} :
    Accepts s (.verified (s.verifyTotp R userId code now committed).1)
      (s.verifyTotp R userId code now committed).2 := by
  unfold State.verifyTotp
  cases hmatched : s.matched R userId code now with
  | none => exact .nothing rfl rfl
  | some other =>
    cases committed with
    | false => exact .nothing rfl rfl
    | true =>
      obtain ⟨row, hrow, step, hfresh, rfl⟩ := matched_eq_some hmatched
      refine .row _ step rfl rfl ?_ (Authenticators.write_mem hrow rfl) fun other hne => ⟨?_, ?_⟩
      · rw [mark_of_mem hrow]
        exact hfresh
      · intro hother
        obtain rfl | ⟨hother, -⟩ := Authenticators.mem_write hother
        · exact absurd rfl hne
        · exact hother
      · exact fun hother => Authenticators.mem_write_of_ne hother hne

theorem activateTotpEnrollment_accepts (a : Activation) :
    Accepts s (.activated (s.activateTotpEnrollment R a).1) (s.activateTotpEnrollment R a).2 := by
  unfold State.activateTotpEnrollment
  simp only
  split
  · exact .nothing rfl rfl
  split
  · exact .nothing rfl rfl
  split
  · exact .nothing rfl rfl
  split
  · exact .nothing rfl rfl
  split
  · exact .nothing rfl rfl
  split
  · exact .nothing rfl rfl
  split
  · exact .nothing rfl rfl
  split
  · exact .nothing rfl rfl
  split
  · exact .nothing rfl rfl
  split
  · obtain ⟨hfree, hrows⟩ := Authenticators.insert?_eq_some ‹_›
    refine .row _ _ rfl rfl ?_ ?_ fun other hne => ?_
    · rw [mark_of_forall_ne hfree]
      exact nofun
    · rw [hrows]
      exact List.mem_append_right _ (List.mem_singleton_self _)
    · rw [hrows, List.mem_append, List.mem_singleton]
      exact or_iff_left fun h => hne (congrArg Authenticator.id h)
  · exact .nothing rfl rfl

theorem step_accepts (h : s.step R call = (reply, t)) : Accepts s reply t := by
  cases call with
  | verify userId code now committed => cases h; exact verifyTotp_accepts
  | activate a => cases h; exact activateTotpEnrollment_accepts a

/-- The accepted steps of a history stay at or below the marks, and increase. -/
theorem marked {history : List (Call × Reply)} (h : (system R).Run s history t) :
    Marked t.authenticators.mark (history.filterMap fun e => e.2.accepted) := by
  refine h.history (P := fun history t =>
    Marked t.authenticators.mark (history.filterMap fun e => e.2.accepted)) (.nil _) ?_
  intro history s e t H hstep
  rw [List.filterMap_append]
  cases step_accepts hstep with
  | nothing hreply hstate =>
    subst hstate
    simpa [Reply.accepted, hreply] using H
  | row row step hreply hlast hfresh hmem hframe =>
    have haccepted : e.2.accepted = some (row.id, step) := by
      rw [Reply.accepted, hreply, Option.bind_some, hlast]
      rfl
    simp only [List.filterMap_cons, haccepted, List.filterMap_nil]
    refine H.snoc hfresh ((mark_of_mem hmem).trans hlast) fun id hne => mark_congr ?_
    rintro other rfl
    exact hframe other hne

/-! ## Acceptance -/

/-- Some active authenticator of the user has the code for a fresh step. -/
def State.Acceptable (s : State) (R : Runtime Secret) (userId : Nat) (code : Option String)
    (now : Int) : Prop :=
  ∃ row ∈ s.authenticators.rows, row.userId = userId ∧ row.active = true ∧
    ∃ step, row.Matches R code now step ∧ row.Fresh step

/-- Some active authenticator of the user has the code for a step, and only for fresh steps. -/
def State.Unambiguous (s : State) (R : Runtime Secret) (userId : Nat) (code : Option String)
    (now : Int) : Prop :=
  ∃ row ∈ s.authenticators.rows, row.userId = userId ∧ row.active = true ∧
    (∃ step, row.Matches R code now step) ∧ ∀ step, row.Matches R code now step → row.Fresh step

theorem verifyTotp_isSome {committed : Bool} :
    (s.verifyTotp R userId code now committed).1.isSome = true ↔
      committed = true ∧ s.Unambiguous R userId code now := by
  have hmatched : (∃ row, s.matched R userId code now = some row) ↔
      s.Unambiguous R userId code now := by
    simp only [matched_exists, matchedStep_exists, State.Unambiguous]
  rw [← hmatched, State.verifyTotp]
  cases s.matched R userId code now with
  | none =>
    simp only [Option.isSome_none, Bool.false_eq_true, reduceCtorEq, exists_false, and_false]
  | some row =>
    cases committed with
    | false => simp only [Bool.false_eq_true, if_false, Option.isSome_none, false_and]
    | true => simp only [if_true, Option.isSome_some, Option.some_inj, exists_eq', and_self]

theorem Unambiguous.acceptable (h : s.Unambiguous R userId code now) :
    s.Acceptable R userId code now := by
  obtain ⟨row, hrow, huser, hactive, ⟨step, hstep⟩, hfresh⟩ := h
  exact ⟨row, hrow, huser, hactive, step, hstep, hfresh step hstep⟩

/-- After every history, a code is accepted whenever it should be, if and only if the commit
succeeds and the code of the fresh step is not the code of an earlier one too; and no step is
accepted twice. -/
theorem totp_acceptance {history : List (Call × Reply)} (h : (system R).Run s history t) :
    (∀ userId code now committed,
      (((t.verifyTotp R userId code now committed).1.isSome = true ↔
          t.Acceptable R userId code now) ↔
        (t.Acceptable R userId code now → committed = true ∧ t.Unambiguous R userId code now))) ∧
    Ascending (history.filterMap fun e => e.2.accepted) ∧
    (history.filterMap fun e => e.2.accepted).Nodup := by
  have hmarked := marked h
  refine ⟨fun userId code now committed => ?_, hmarked.ascending, hmarked.ascending.nodup⟩
  rw [verifyTotp_isSome]
  exact ⟨Iff.mpr, fun hiff => ⟨fun h => Unambiguous.acceptable h.2, hiff⟩⟩

/-- One user with one authenticator, which has not accepted a step yet. -/
def oneAuthenticator : State where
  users := [⟨7, false, true⟩]
  enrollments := []
  authenticators := ⟨[⟨1, 7, [1], "Phone", true, none, 0, some 0, none⟩], by decide⟩
  recoveryCodes := []

/-- Every step has a code of its own. -/
def stepped : Runtime Unit where
  decrypt _ _ := some ()
  code _ step := toString (100000 + step)
  timestamp now := now / 1000000
  digest token := token
  hash _ := []

/-- The code of step 100, the same code once more, and the code of step 101. -/
def threeCalls : List Call :=
  [.verify 7 (some "100100") 3000000000 true, .verify 7 (some "100100") 3010000000 true,
    .verify 7 (some "100101") 3030000000 true]

theorem totp_acceptance_threeCalls :
    ∃ history t, (system stepped).Run oneAuthenticator history t ∧
      history.map Prod.fst = threeCalls ∧
      history.map (fun e => e.2.accepted) = [some (1, 100), none, some (1, 101)] ∧
      Ascending (history.filterMap fun e => e.2.accepted) := by
  have hstep : ∀ s call, (system stepped).Step s (call, (s.step stepped call).1)
      (s.step stepped call).2 := fun _ _ => rfl
  have h := ((System.Run.single (hstep oneAuthenticator (.verify 7 (some "100100") 3000000000 true))).snoc
    (hstep _ (.verify 7 (some "100100") 3010000000 true))).snoc
    (hstep _ (.verify 7 (some "100101") 3030000000 true))
  exact ⟨_, _, h, rfl, by decide +kernel, (totp_acceptance h).2.1⟩

/-! ## Two steps with one code -/

/-- Every code of the secret is "123456". -/
def constant : Runtime Unit where
  decrypt _ _ := some ()
  code _ _ := "123456"
  timestamp now := now / 1000000
  digest token := token
  hash _ := []

def firstCall : Call := .verify 7 (some "123456") 3000000000 true

theorem fresh_step_refused :
    ∃ history t, (system constant).Run oneAuthenticator history t ∧
      t.Acceptable constant 7 (some "123456") 3000000000 ∧
      (t.verifyTotp constant 7 (some "123456") 3000000000 true).1 = none := by
  refine ⟨[(firstCall, _)], _, .single rfl, ?_, by decide +kernel⟩
  refine ⟨⟨1, 7, [1], "Phone", true, some 99, 0, some 0, some 3000000000⟩, by decide +kernel, rfl,
    rfl, 100, ⟨(), rfl, by decide, by decide⟩, ?_⟩
  intro last hlast
  cases hlast
  decide

end WebSSH.Mfa.Totp
