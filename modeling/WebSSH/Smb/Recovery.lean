import Mathlib
import WebSSH.Smb.Replace

/-!
# A replacement loses no data

The original is never disposed of before the new file is at the destination, so that it is kept at
the destination or at the recovery name (`Kept`) until the new data is installed (`Installed`). Each
call has one lemma, about a state that is known; the rollback only has to keep `Kept`.
-/

namespace WebSSH.Smb
open Lib Program

variable {env : Env} {old new data : Data} {s t : State} {handle : Handle}
  {place source target : Place} {I A : State → Prop} {R : Failure → State → Prop}

/-! ## What the server holds -/

namespace State

/-- The complete `data` is at `place`. -/
def Holds (s : State) (place : Place) (data : Data) : Prop :=
  ∃ handle, ∃ file ∈ s.file handle, file.place = some place ∧ file.data = data

theorem At.unique (h : s.At handle source) (h' : s.At handle target) : source = target := by
  obtain ⟨file, hfile, hplace⟩ := h
  obtain ⟨file', hfile', hplace'⟩ := h'
  cases hfile.symm.trans hfile'
  exact Option.some.inj (hplace.symm.trans hplace')

theorem At.move (h : s.At handle source) : (s.move handle target).At handle target := by
  obtain ⟨file, hfile, -⟩ := h
  cases handle with
  | destination => exact ⟨_, rfl, rfl⟩
  | temporary =>
    refine ⟨{ file with place := some target }, ?_, rfl⟩
    change (s.temporary.map _) = _
    rw [show s.temporary = some file from hfile]
    rfl

end State

/-- The original is untouched, but for its name. -/
def Kept (old : Data) (s : State) : Prop :=
  (s.original.place = some .destination ∨ s.original.place = some .recovery) ∧
    s.original.pending = false ∧ s.original.data = old

def Installed (new : Data) (s : State) : Prop :=
  s.temporary = some ⟨some .destination, false, new⟩

/-- The original or the new data is complete somewhere. -/
def Safe (old new : Data) (s : State) : Prop :=
  s.Holds .destination old ∨ s.Holds .destination new ∨ s.Holds .recovery old

theorem Kept.safe (h : Kept old s) : Safe old new s := by
  obtain ⟨hplace | hplace, -, hdata⟩ := h
  · exact .inl ⟨.destination, s.original, rfl, hplace, hdata⟩
  · exact .inr (.inr ⟨.destination, s.original, rfl, hplace, hdata⟩)

theorem Installed.safe (h : Installed new s) : Safe old new s :=
  .inr (.inl ⟨.temporary, _, h, rfl, rfl⟩)

theorem Kept.close (h : Kept old s) : Kept old s.close := by
  obtain ⟨hplace, hpending, hdata⟩ := h
  have hclose : s.close.original = s.original := by
    simp only [State.close, State.File.close, hpending, Bool.false_eq_true, if_false]
  unfold Kept
  rw [hclose]
  exact ⟨hplace, hpending, hdata⟩

theorem Installed.close (h : Installed new s) : Installed new s.close := by
  unfold Installed State.close at *
  rw [h]
  rfl

/-! ## The calls -/

theorem openHandleLocation_spec (hI : I s) (places : List Place) :
    (openHandleLocation handle places).Wp I
      (fun r t => t = s ∧ ∀ p, r = some p → s.At handle p) R (fun t => t = s) s := by
  induction places with
  | nil => exact .pure ⟨rfl, nofun⟩
  | cons place places ih =>
    have hmatches : (attempt (openHandleMatches handle place)).Wp I
        (fun r t => t = s ∧ (r = .ok true → s.At handle place)) R (fun t => t = s) s := by
      refine .attempt (.call (fun e => ⟨rfl, nofun⟩) rfl fun n a t hop => ?_)
      cases hop
      exact ⟨hI, ⟨rfl, fun h => of_decide_eq_true (by injection h)⟩, fun e => ⟨rfl, nofun⟩, rfl⟩
    refine .bind hmatches fun r t ⟨ht, hat⟩ => ?_
    subst ht
    match r, hat with
    | .error _, _ => exact .pure ⟨rfl, nofun⟩
    | .ok true, hat => exact .pure ⟨rfl, fun p hp => Option.some.inj hp ▸ hat rfl⟩
    | .ok false, _ => exact ih

/-- What a reconciled rename leaves, by what it reports. -/
def Renamed (s : State) (handle : Handle) (target : Place) :
    Option Bool × Option Failure → State → Prop
  | (some true, _), t => t = s.move handle target
  | (some false, _), t => t = s
  | (none, _), t => t = s ∨ t = s.move handle target

/-- What a rename leaves. -/
def Attempted (s : State) (handle : Handle) (target : Place) :
    Except Failure PUnit → State → Prop
  | .ok _, t => t = s.move handle target
  | .error _, t => t = s ∨ t = s.move handle target

theorem renameReconciled_spec (hat : s.At handle source) (hne : source ≠ target) (hI : I s)
    (hmove : I (s.move handle target)) :
    (renameReconciled handle source target).Wp I (Renamed s handle target) R
      (fun t => t = s ∨ t = s.move handle target) s := by
  have hrename : (attempt (renameOpenHandle handle target)).Wp I
      (Attempted s handle target) R
      (fun t => t = s ∨ t = s.move handle target) s := by
    refine .attempt (.call (fun e => .inl rfl) (.inl rfl) fun n a t hop => ?_)
    split at hop <;> cases hop
    exact ⟨hmove, rfl, fun e => .inr rfl, .inr rfl⟩
  refine .bind hrename fun r t ht => ?_
  cases r with
  | ok a => exact .pure ht
  | error error =>
    have hIt : I t := by rcases ht with rfl | rfl <;> assumption
    refine .bind ((openHandleLocation_spec hIt _).mono (fun _ _ h => h) (fun _ _ h => h)
      fun u hu => hu ▸ ht) ?_
    rintro location u ⟨hu, hlocation⟩
    subst hu
    split
    · rename_i htarget
      have hatu := hlocation _ htarget
      rcases ht with rfl | rfl
      · exact absurd (hat.unique hatu) hne
      · exact .pure rfl
    · split
      · rename_i hsource
        have hatu := hlocation _ hsource
        rcases ht with rfl | rfl
        · exact .pure rfl
        · exact absurd (hatu.unique hat.move) hne
      · exact .pure ht

theorem deleteGeneratedHandle_spec (hdispose : I (s.dispose handle)) :
    (deleteGeneratedHandle handle).Wp I
      (fun r t => t = s.dispose handle ∨ r = false ∧ t = s) R
      (fun t => t = s ∨ t = s.dispose handle) s := by
  have hdelete : (attempt (deleteOpenHandle handle)).Wp I
      (fun r t => t = s.dispose handle ∨ r.isOk = false ∧ t = s) R
      (fun t => t = s ∨ t = s.dispose handle) s := by
    refine .attempt (.call (fun e => .inr ⟨rfl, rfl⟩) (.inl rfl) fun n a t hop => ?_)
    cases hop
    exact ⟨hdispose, .inl rfl, fun e => .inl rfl, .inr rfl⟩
  refine .bind hdelete fun r t ht => ?_
  match r, ht with
  | .ok _, ht => exact .pure (ht.imp id fun h => absurd h.1 nofun)
  | .error _, ht => exact .pure (ht.imp id fun h => ⟨rfl, h.2⟩)

/-! ## The rollback -/

/-- Nothing is installed yet, and the original is kept. -/
def Open (old : Data) (s : State) : Prop := s.replacementInstalled = false ∧ Kept old s

section
variable (hI : ∀ s, Open old s → I s)
include hI

theorem openHandleLocation_keeps (places : List Place) :
    Keeps I (Open old) (openHandleLocation handle places) := fun s hs =>
  (openHandleLocation_spec (hI s hs) places).mono (fun _ _ h => h.1 ▸ hs) (fun _ _ h => h)
    fun _ h => h ▸ hs

theorem locate_keeps (obtained : Bool) (places : List Place) :
    Keeps I (Open old) (locate obtained handle places) := by
  unfold locate
  split
  · exact openHandleLocation_keeps hI places
  · exact .pure

/-- The original keeps its data wherever the temporary file is moved. -/
theorem renameOpenHandle_keeps (h : handle = .destination → target = .destination) :
    Keeps I (Open old) (renameOpenHandle handle target) := by
  refine .call hI fun n s a t ⟨hopen, hkept⟩ hop => ?_
  split at hop <;> cases hop
  cases handle with
  | destination => exact ⟨hopen, .inl (by rw [h rfl]; rfl), hkept.2⟩
  | temporary => exact ⟨hopen, hkept⟩

theorem renameReconciled_keeps (h : handle = .destination → target = .destination) :
    Keeps I (Open old) (renameReconciled handle source target) := by
  refine .bind (.attempt (renameOpenHandle_keeps hI h)) fun r => ?_
  match r with
  | .ok _ => exact .pure
  | .error error =>
    refine .bind (openHandleLocation_keeps hI _) fun location => ?_
    split
    · exact .pure
    · split <;> exact .pure

theorem deleteTemporary_keeps : Keeps I (Open old) (deleteGeneratedHandle .temporary) := by
  refine .bind (.attempt (.call hI fun n s a t hs hop => ?_)) fun r => ?_
  · cases hop
    exact hs
  · split <;> exact .pure

theorem moveBack_keeps (location : Option Place) : Keeps I (Open old) (moveBack location) := by
  unfold moveBack
  split
  · exact .bind (renameReconciled_keeps hI nofun) fun _ => .pure
  · exact .pure

theorem rollback_keeps : Keeps I (Open old) rollback := by
  refine .catchAll (.bind (fun s hs => .get hs) fun s => ?_)
  refine .bind (locate_keeps hI _ _) fun original => .bind (locate_keeps hI _ _) fun temporary => ?_
  split
  · split
    · exact .bind (deleteTemporary_keeps hI) fun _ => .pure
    · exact .pure
  · refine .bind (moveBack_keeps hI _) fun location => ?_
    split
    · exact .pure
    · refine .bind (renameReconciled_keeps hI fun _ => rfl) fun (restored, _) => ?_
      dsimp only
      split
      · exact .bind (deleteTemporary_keeps hI) fun _ => .pure
      · exact .pure
  · exact .pure

end

/-! ## The replacement -/

/-- What is true when the body is left by an exception. -/
def Left (old new : Data) (s : State) : Prop :=
  if s.replacementInstalled then Installed new s else Kept old s

/-- What an outcome says of the files that are left. -/
structure Reported (env : Env) (old new : Data) (outcome : FileWriteOutcome) (s : State) : Prop where
  success : outcome.success = true → s.Holds .destination new
  failure : outcome.success = false → outcome.code ≠ some "SMB_RECOVERY_REQUIRED" →
    s.Holds .destination old
  temporary : s.temporaryHandle = true → s.Occupied .temporary →
    env.temporaryName ∈ outcome.recoveryLeaves
  recovery : s.Occupied .recovery → env.recoveryName ∈ outcome.recoveryLeaves

/-- The original is at `place`, and the temporary file as given. -/
def during (old : Data) (place : Place) (temporary : Option File) : State :=
  ⟨⟨some place, false, old⟩, temporary, true, true, false⟩

/-- The temporary file with what has been written. -/
def writing (old written : Data) : State :=
  during old .destination (some ⟨some .temporary, false, written⟩)

theorem write_spec (written : Data) :
    (write data).Wp (Safe old new)
      (fun count t => count ≤ data.length ∧ t = writing old (written ++ data.take count))
      (fun _ t => ∃ d, t = writing old d) (fun t => ∃ d, t = writing old d)
      (writing old written) := by
  refine .call (fun e => ⟨written, rfl⟩) ⟨written, rfl⟩ fun n a t hop => ?_
  cases hop
  have htake : data.take (min n data.length) = data.take n := by
    rw [← List.take_take, List.take_length]
  refine ⟨Kept.safe ⟨.inl rfl, rfl, rfl⟩, ⟨Nat.min_le_right _ _, ?_⟩, fun e => ⟨_, rfl⟩, ⟨_, rfl⟩⟩
  rw [htake]
  rfl

theorem writeAll_spec (data written : Data) :
    (writeAll data).Wp (Safe old new) (fun _ t => t = writing old (written ++ data))
      (fun _ t => ∃ d, t = writing old d) (fun t => ∃ d, t = writing old d)
      (writing old written) := by
  induction hn : data.length using Nat.strongRecOn generalizing data written with
  | ind n ih =>
    rw [writeAll]
    split
    · rename_i hnil
      rw [hnil, List.append_nil]
      exact .pure rfl
    · refine .bind (write_spec written) fun count t ⟨hcount, ht⟩ => ?_
      subst ht
      split
      · exact .raise ⟨_, rfl⟩
      · have hlt : (data.drop count).length < n := by
          rw [List.length_drop]
          omega
        refine (ih _ hlt (data.drop count) (written ++ data.take count) rfl).mono (fun _ u hu => ?_)
          (fun _ _ h => h) fun _ h => h
        rw [hu, List.append_assoc, List.take_append_drop]

/-- The destination is open; there may be a temporary file without a handle. -/
def opened (old : Data) (temporary : Option File) : State :=
  ⟨⟨some .destination, false, old⟩, temporary, true, false, false⟩

/-- The destination is untouched, and no handle of a temporary file was obtained. -/
def Untouched (old : Data) (s : State) : Prop :=
  s.original = ⟨some .destination, false, old⟩ ∧ s.temporaryHandle = false ∧
    s.replacementInstalled = false ∧ ∀ file ∈ s.temporary, file.place = some .temporary

theorem Untouched.left (h : Untouched old s) : Left old new s := by
  obtain ⟨horiginal, -, hinstalled, -⟩ := h
  unfold Left Kept
  rw [hinstalled, if_neg nofun, horiginal]
  exact ⟨.inl rfl, rfl, rfl⟩

theorem opened_untouched {temporary : Option File}
    (h : ∀ file ∈ temporary, file.place = some .temporary) : Untouched old (opened old temporary) :=
  ⟨rfl, rfl, rfl, h⟩

/-- What a failure to write the temporary file leaves. -/
def Unwritten (old : Data) (s : State) : Prop := Untouched old s ∨ ∃ d, s = writing old d

theorem opened_safe (temporary : Option File) : Safe old new (opened old temporary) :=
  Kept.safe ⟨.inl rfl, rfl, rfl⟩

theorem writing_safe (d : Data) : Safe old new (writing old d) := Kept.safe ⟨.inl rfl, rfl, rfl⟩

theorem Unwritten.left (h : Unwritten old s) : Left old new s := by
  rcases h with h | ⟨d, rfl⟩
  · exact h.left
  · exact ⟨.inl rfl, rfl, rfl⟩

theorem validatePathComponents_spec :
    validatePathComponents.Wp (Safe old new) (fun _ t => t = opened old none)
      (fun _ => Unwritten old) (Unwritten old) (opened old none) := by
  have hopened : Unwritten old (opened old none) := .inl (opened_untouched nofun)
  refine .call (fun _ => hopened) hopened fun n a t hop => ?_
  cases hop
  exact ⟨opened_safe none, rfl, fun _ => hopened, hopened⟩

theorem writeTemporary_spec :
    (writeTemporary data).Wp (Safe old new) (fun _ t => t = writing old data)
      (fun _ => Unwritten old) (Unwritten old) (opened old none) := by
  refine .bind validatePathComponents_spec fun _ t ht => ?_
  subst ht
  refine .bind validatePathComponents_spec fun _ t ht => ?_
  subst ht
  have hcreated : Unwritten old (opened old (some ⟨some .temporary, false, []⟩)) :=
    .inl (opened_untouched fun file h => Option.some.inj h ▸ rfl)
  have hcreate : createFileMove.Wp (Safe old new)
      (fun _ t => t = opened old (some ⟨some .temporary, false, []⟩)) (fun _ => Unwritten old)
      (Unwritten old) (opened old none) := by
    have hopened : Unwritten old (opened old none) := .inl (opened_untouched nofun)
    refine .call (fun _ => hopened) hopened fun n a t hop => ?_
    split at hop <;> cases hop
    exact ⟨opened_safe _, rfl, fun _ => hcreated, hcreated⟩
  refine .bind hcreate fun _ t ht => ?_
  subst ht
  have hassign : (modify fun s => { s with temporaryHandle := true } : Session PUnit).Wp
      (Safe old new) (fun _ t => t = writing old []) (fun _ => Unwritten old) (Unwritten old)
      (opened old (some ⟨some .temporary, false, []⟩)) := .modify (writing_safe []) rfl
  refine .bind hassign fun _ t ht => ?_
  subst ht
  exact (writeAll_spec data []).mono (fun _ _ h => h) (fun _ _ h => .inr h) fun _ h => .inr h

/-! ## The ways out -/

/-- An outcome is right of what is left when the handles are closed. -/
def Returns (env : Env) (old new : Data) (outcome : FileWriteOutcome) (s : State) : Prop :=
  Safe old new s.close ∧ Reported env old new outcome s.close

theorem returns_recoveryRequired {error : String} {leaves : List String} (hkept : Kept old s)
    (htemporary : s.temporaryHandle = true → s.close.Occupied .temporary →
      env.temporaryName ∈ leaves)
    (hrecovery : s.close.Occupied .recovery → env.recoveryName ∈ leaves) :
    Returns env old new (recoveryRequired error leaves) s :=
  ⟨hkept.close.safe, nofun, fun _ h => absurd rfl h, htemporary, hrecovery⟩

/-- Everything generated is named. -/
theorem returns_bothNamed {error : String} (hkept : Kept old s) :
    Returns env old new (recoveryRequired error [env.temporaryName, env.recoveryName]) s :=
  returns_recoveryRequired hkept (fun _ _ => List.mem_cons_self)
    fun _ => List.mem_cons_of_mem _ List.mem_cons_self

/-- The original is at the destination, and the temporary file is named or disposed of. -/
theorem returns_original {outcome : FileWriteOutcome} (hsuccess : outcome.success = false)
    (d : Data) (pending : Bool)
    (hnamed : pending = true ∨ env.temporaryName ∈ outcome.recoveryLeaves) :
    Returns env old new outcome (during old .destination (some ⟨some .temporary, pending, d⟩)) := by
  have hkept : Kept old (during old .destination (some ⟨some .temporary, pending, d⟩)) :=
    ⟨.inl rfl, rfl, rfl⟩
  refine ⟨hkept.close.safe, fun h => ?_, fun _ _ => ?_, fun _ hoccupied => ?_, fun hoccupied => ?_⟩
  · rw [hsuccess] at h
    cases h
  · exact ⟨.destination, _, rfl, rfl, rfl⟩
  · rcases hnamed with rfl | hnamed
    · rcases hoccupied with ⟨file, hfile, hplace⟩ | ⟨file, hfile, hplace⟩ <;> cases hfile <;>
        cases hplace
    · exact hnamed
  · cases pending <;>
      rcases hoccupied with ⟨file, hfile, hplace⟩ | ⟨file, hfile, hplace⟩ <;> cases hfile <;>
        cases hplace

/-- The temporary file is deleted, or named. -/
theorem returns_deleted {d : Data} {r : Bool} {outcome : FileWriteOutcome}
    (hsuccess : outcome.success = false)
    (hnamed : r = true ∨ env.temporaryName ∈ outcome.recoveryLeaves)
    (ht : t = (writing old d).dispose .temporary ∨ r = false ∧ t = writing old d) :
    Returns env old new outcome t := by
  rcases ht with rfl | ⟨rfl, rfl⟩
  · exact returns_original hsuccess d true (.inl rfl)
  · exact returns_original hsuccess d false (.inr (hnamed.resolve_left nofun))

theorem deleteTemporary_spec (d : Data) :
    (deleteGeneratedHandle .temporary).Wp (Safe old new)
      (fun r t => t = (writing old d).dispose .temporary ∨ r = false ∧ t = writing old d)
      (fun _ => Left old new) (Left old new) (writing old d) := by
  have hdispose : Safe old new ((writing old d).dispose .temporary) :=
    Kept.safe ⟨.inl rfl, rfl, rfl⟩
  refine (deleteGeneratedHandle_spec hdispose).mono (fun _ _ h => h) (fun _ _ h => h)
    fun t ht => ?_
  rcases ht with rfl | rfl <;> exact ⟨.inl rfl, rfl, rfl⟩

/-- The new data is at the destination, and the original at the recovery name. -/
def exchanged (old new : Data) : State := during old .recovery (some ⟨some .destination, false, new⟩)

theorem deleteBackup_spec :
    (deleteBackup env new).Wp (Safe old new) (Returns env old new) (fun _ => Left old new)
      (Left old new) (exchanged old new) := by
  have hinstalled : Installed new { exchanged old new with replacementInstalled := true } := rfl
  have hassign : (modify fun s => { s with replacementInstalled := true } : Session PUnit).Wp
      (Safe old new) (fun _ t => t = { exchanged old new with replacementInstalled := true })
      (fun _ => Left old new) (Left old new) (exchanged old new) := .modify hinstalled.safe rfl
  refine .bind hassign fun _ t ht => ?_
  subst ht
  have hdispose : Installed new
    (State.dispose { exchanged old new with replacementInstalled := true } .destination) := rfl
  have hdelete : (deleteGeneratedHandle .destination).Wp (Safe old new) _ (fun _ => Left old new)
      (Left old new) { exchanged old new with replacementInstalled := true } :=
    (deleteGeneratedHandle_spec hdispose.safe).mono (fun _ _ h => h) (fun _ _ h => h)
      fun t ht => by rcases ht with rfl | rfl <;> exact rfl
  refine .bind hdelete fun r t ht => ?_
  have hnew : Installed new t := by
    rcases ht with rfl | ⟨-, rfl⟩ <;> rfl
  have hholds : t.close.Holds .destination new := ⟨.temporary, _, hnew.close, rfl, rfl⟩
  have htemporary : ¬ t.close.Occupied .temporary := by
    rcases ht with rfl | ⟨-, rfl⟩ <;> rintro (⟨file, hfile, hplace⟩ | ⟨file, hfile, hplace⟩) <;>
      cases hfile <;> cases hplace
  cases r with
  | true =>
    have hdisposed := ht.resolve_right fun h => nomatch h.1
    refine .pure ⟨hnew.close.safe, fun _ => hholds, nofun, fun _ h => absurd h htemporary,
      fun hrecovery => ?_⟩
    subst hdisposed
    rcases hrecovery with ⟨file, hfile, hplace⟩ | ⟨file, hfile, hplace⟩ <;> cases hfile <;>
      cases hplace
  | false =>
    exact .pure ⟨hnew.close.safe, fun _ => hholds, nofun, fun _ h => absurd h htemporary,
      fun _ => List.mem_cons_self⟩

theorem Open.left (h : Open old s) : Left old new s := by
  unfold Left
  rw [h.1, if_neg nofun]
  exact h.2

/-- A rename while nothing is installed yet. -/
theorem rename_spec (hat : s.At handle source) (hne : source ≠ target) (hs : Open old s)
    (hmove : Open old (s.move handle target)) :
    (renameReconciled handle source target).Wp (Safe old new) (Renamed s handle target)
      (fun _ => Left old new) (Left old new) s :=
  (renameReconciled_spec hat hne hs.2.safe hmove.2.safe).mono (fun _ _ h => h) (fun _ _ h => h)
    fun t ht => by
      rcases ht with rfl | rfl
      · exact hs.left
      · exact hmove.left

theorem install_spec :
    (install env new).Wp (Safe old new) (Returns env old new) (fun _ => Left old new)
      (Left old new) (during old .recovery (some ⟨some .temporary, false, new⟩)) := by
  have hbefore : Open old (during old .recovery (some ⟨some .temporary, false, new⟩)) :=
    ⟨rfl, .inr rfl, rfl, rfl⟩
  have hafter : Open old ((during old .recovery (some ⟨some .temporary, false, new⟩)).move
    .temporary .destination) := ⟨rfl, .inr rfl, rfl, rfl⟩
  refine .bind (rename_spec ⟨_, rfl, rfl⟩ nofun hbefore hafter)
    fun (installed, _) t ht => ?_
  match installed, ht with
  | some true, ht =>
    subst ht
    exact deleteBackup_spec
  | none, ht =>
    refine .pure (returns_bothNamed ?_)
    rcases ht with rfl | rfl
    · exact hbefore.2
    · exact hafter.2
  | some false, ht =>
    subst ht
    have hback : Open old ((during old .recovery (some ⟨some .temporary, false, new⟩)).move
      .destination .destination) := ⟨rfl, .inl rfl, rfl, rfl⟩
    refine .bind (rename_spec ⟨_, rfl, rfl⟩ nofun hbefore hback)
      fun (rolledBack, _) t ht => ?_
    dsimp only
    split
    · refine .pure (returns_bothNamed ?_)
      match rolledBack, ht with
      | none, ht =>
        rcases ht with rfl | rfl
        · exact hbefore.2
        · exact hback.2
      | some true, ht => subst ht; exact hback.2
      | some false, ht => subst ht; exact hbefore.2
    · rename_i hrolled
      have hrolled := not_not.mp hrolled
      subst hrolled
      subst ht
      refine .bind (deleteTemporary_spec new) fun r t ht => ?_
      cases r with
      | true => exact .pure (returns_deleted rfl (.inl rfl) ht)
      | false => exact .pure (returns_deleted rfl (.inr List.mem_cons_self) ht)

theorem exchange_spec :
    (exchange env new).Wp (Safe old new) (Returns env old new) (fun _ => Left old new)
      (Left old new) (writing old new) := by
  have hbefore : Open old (writing old new) := ⟨rfl, .inl rfl, rfl, rfl⟩
  have hafter : Open old ((writing old new).move .destination .recovery) :=
    ⟨rfl, .inr rfl, rfl, rfl⟩
  refine .bind (rename_spec ⟨_, rfl, rfl⟩ nofun hbefore hafter)
    fun (committed, error) t ht => ?_
  match committed, ht with
  | some true, ht =>
    subst ht
    exact install_spec
  | none, ht =>
    refine .pure (returns_bothNamed ?_)
    rcases ht with rfl | rfl
    · exact hbefore.2
    · exact hafter.2
  | some false, ht =>
    subst ht
    refine .bind (deleteTemporary_spec new) fun r t ht => ?_
    cases r with
    | true => exact .pure (returns_deleted rfl (.inl rfl) ht)
    | false => exact .pure (returns_deleted rfl (.inr List.mem_cons_self) ht)

theorem Untouched.returns {outcome : FileWriteOutcome} (h : Untouched old s)
    (hsuccess : outcome.success = false) : Returns env old new outcome s := by
  obtain ⟨horiginal, hhandle, -, htemporary⟩ := h
  have hclose : s.close.original = ⟨some .destination, false, old⟩ := by
    simp only [State.close, horiginal]
    rfl
  have hholds : s.close.Holds .destination old := ⟨.destination, s.close.original, rfl, by
    rw [hclose]; exact ⟨rfl, rfl⟩⟩
  refine ⟨.inl hholds, fun h => ?_, fun _ _ => hholds, fun h => ?_, fun hrecovery => ?_⟩
  · rw [hsuccess] at h
    cases h
  · rw [show s.close.temporaryHandle = false from hhandle] at h
    cases h
  · rcases hrecovery with ⟨file, hfile, hplace⟩ | ⟨file, hfile, hplace⟩
    · cases hfile
      rw [hclose] at hplace
      cases hplace
    · obtain ⟨before, hbefore, rfl⟩ := Option.map_eq_some_iff.mp hfile
      unfold State.File.close at hplace
      split at hplace
      · cases hplace
      · rw [htemporary before hbefore] at hplace
        cases hplace

theorem editorRevisionFromHandle_spec :
    (editorRevisionFromHandle env).Wp (Safe old new) (fun _ t => t = opened old none)
      (fun _ t => t = opened old none) (fun t => t = opened old none) (opened old none) := by
  have hread : readHandle.Wp (Safe old new) (fun _ t => t = opened old none)
      (fun _ t => t = opened old none) (fun t => t = opened old none) (opened old none) := by
    refine .call (fun _ => rfl) rfl fun n a t hop => ?_
    cases hop
    exact ⟨opened_safe none, rfl, fun _ => rfl, rfl⟩
  refine .bind hread fun data t ht => ?_
  split
  · exact .raise ht
  · exact .pure ht

/-- The first `try`: the destination is opened and its revision read. -/
theorem open_spec :
    (attempt do
      openFileMove
      modify fun s => { s with destinationHandle := true }
      editorRevisionFromHandle env).Wp (Safe old new)
        (fun r t => match r with
          | .ok _ => t = opened old none
          | .error _ => Untouched old t) (fun _ => Left old new) (Left old new) (.init old) := by
  have hinit : Untouched old (.init old) := ⟨rfl, rfl, rfl, nofun⟩
  have hsafe : Safe old new (.init old) := Kept.safe ⟨.inl rfl, rfl, rfl⟩
  refine .attempt ?_
  have hopen : openFileMove.Wp (Safe old new) (fun _ t => t = .init old) (fun _ => Untouched old)
      (Left old new) (.init old) := by
    refine .call (fun _ => hinit) hinit.left fun n a t hop => ?_
    split at hop <;> cases hop
    exact ⟨hsafe, rfl, fun _ => hinit, hinit.left⟩
  refine .bind hopen fun _ t ht => ?_
  subst ht
  have hassign : (modify fun s => { s with destinationHandle := true } : Session PUnit).Wp
      (Safe old new) (fun _ t => t = opened old none) (fun _ => Untouched old) (Left old new)
      (.init old) := .modify (opened_safe none) rfl
  refine .bind hassign fun _ t ht => ?_
  subst ht
  have hopened : Untouched old (opened old none) := opened_untouched nofun
  exact editorRevisionFromHandle_spec.mono (fun _ _ h => h) (fun _ _ h => h ▸ hopened)
    fun _ h => h ▸ hopened.left

/-- What the writing of the temporary file leaves. -/
def Staged (old new : Data) : Except Failure PUnit → State → Prop
  | .ok _, t => t = writing old new
  | .error _, t => Unwritten old t

theorem replaceBody_spec (expectedRevision : Option String) :
    (replaceBody env new expectedRevision).Wp (Safe old new) (Returns env old new)
      (fun _ => Left old new) (Left old new) (.init old) := by
  refine .bind open_spec fun r t ht => ?_
  cases r with
  | error error => exact .pure (ht.returns rfl)
  | ok revision =>
    obtain rfl := ht
    dsimp only
    split
    · have hwrite : (attempt (writeTemporary new)).Wp (Safe old new)
          (Staged old new) (fun _ => Left old new) (Left old new)
          (opened old none) :=
        .attempt (writeTemporary_spec.mono (fun _ _ h => h) (fun _ _ h => h) fun _ h => h.left)
      refine .bind hwrite fun r t ht => ?_
      cases r with
      | ok a =>
        obtain rfl := ht
        exact exchange_spec
      | error error =>
        refine .bind (.get (Q := fun a u => a = t ∧ u = t) ⟨rfl, rfl⟩) ?_
        rintro _ _ ⟨rfl, rfl⟩
        rcases ht with ht | ⟨d, rfl⟩
        · rw [if_neg (by rw [ht.2.1]; exact Bool.false_ne_true)]
          exact .pure (ht.returns rfl)
        · rw [if_pos (show (writing old d).temporaryHandle = true from rfl)]
          refine .bind (deleteTemporary_spec d) fun r t ht => ?_
          cases r with
          | true => exact .pure (returns_deleted rfl (.inl rfl) ht)
          | false => exact .pure (returns_deleted rfl (.inr List.mem_cons_self) ht)
    · have hopened : Untouched old (opened old none) := opened_untouched fun _ h => by cases h
      exact .pure (hopened.returns rfl)

theorem Left.close_safe (h : Left old new s) : Safe old new s.close := by
  unfold Left at h
  split at h
  · exact h.close.safe
  · exact h.close.safe

theorem recoverableReplace_spec (expectedRevision : Option String) :
    (recoverableReplace env new expectedRevision).Wp (Safe old new) (Reported env old new)
      (fun _ => Safe old new) (Safe old new) (.init old) := by
  refine .andFinally ?_
  have hcleanup : ∀ t, Left old new t →
      (do
        let s ← Program.get
        if s.replacementInstalled then return ⟨⟩ else rollback : Session PUnit).Wp (Safe old new)
          (fun _ => Left old new) (fun _ => Left old new) (Left old new) t := by
    intro t ht
    refine .bind (.get (Q := fun a u => a = t ∧ u = t) ⟨rfl, rfl⟩) fun a u ⟨ha, hu⟩ => ?_
    subst ha
    subst hu
    split
    · exact .pure ht
    · rename_i hinstalled
      have hopen : Open old u := by
        unfold Left at ht
        rw [if_neg hinstalled] at ht
        exact ⟨by simpa using hinstalled, ht⟩
      exact (rollback_keeps (fun _ h => h.2.safe) u hopen).mono (fun _ _ h => h.left)
        (fun _ _ h => h.left) fun _ h => h.left
  exact ((replaceBody_spec expectedRevision).onFailure (fun _ t ht => hcleanup t ht)
    fun t ht => hcleanup t ht).mono (fun _ _ h => h) (fun _ t h => ⟨h.close_safe, h.close_safe⟩)
      fun t h => ⟨h.close_safe, h.close_safe⟩

/-! ## The replacement is recoverable -/

/-- Whatever the calls do: the original or the new data is complete in every state that is reached,
and an outcome says what is left. -/
theorem replace_recoverable (script : Script Failure) (expectedRevision : Option String) :
    let run := recoverableReplace env new expectedRevision script ⟨.init old, [.init old], 0⟩
    (∀ s ∈ run.2.visited, Safe old new s) ∧
      ∀ outcome, run.1 = .ok outcome → Reported env old new outcome run.2.state := by
  have hinit : ∀ s ∈ [State.init old], Safe old new s := fun s hs => by
    rw [List.mem_singleton.mp hs]
    exact Kept.safe ⟨.inl rfl, rfl, rfl⟩
  have hspec : (recoverableReplace env new expectedRevision).Wp _ _ _ _ (.init old) :=
    recoverableReplace_spec expectedRevision
  have hends := hspec script ⟨.init old, [.init old], 0⟩ rfl hinit
  dsimp only
  generalize recoverableReplace env new expectedRevision script _ = run at hends
  match run, hends with
  | (.ok outcome, w), hends =>
    exact ⟨hends.1, fun outcome' h => by cases h; exact hends.2⟩
  | (.raised _, _), hends => exact ⟨hends.1, nofun⟩
  | (.aborted, _), hends => exact ⟨hends.1, nofun⟩

end WebSSH.Smb
