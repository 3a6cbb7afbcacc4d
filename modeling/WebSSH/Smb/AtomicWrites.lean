import WebSSH.Lib.Calls
import WebSSH.Smb.AtomicWriter

/-!
# What the atomic writer leaves

Every way out of the writer leaves the original or what was written at the destination. The
temporary file is another matter: the `except` clause that deletes it runs when the mutation guard
has been left, so that the session refuses the deletion (`cleanup_spec`). A run is `Sound` where no
temporary file is left that is known not to be installed, and only there.
-/

namespace WebSSH.Smb.Writer
open Lib Program

variable {env : Env} {body : Body} {original : Option Data} {replace : Bool} {s : State}
  {h : Nat} {d data : Data} {left : Prop} {script : Script Error} {w : Trace State}
  {K : State → Prop}

/-! ## Sound runs, and the runs that are spared the deletion -/

namespace State

/-- There is a temporary file, and no rename was sent or a query has found it in its place. -/
def ProvablyNotInstalled (s : State) : Prop :=
  s.temporary.isSome = true ∧ (s.renameSent = false ∨ s.located = some .temporary)

/-- A rename was sent, and nothing tells where the file is. -/
def Uncertain (s : State) : Prop := s.renameSent = true ∧ s.renamed = false ∧ s.located = none

end State

/-- What is left of a run that began with `original` at the destination. -/
structure Sound (replace : Bool) (original : Option Data)
    (run : Result Error PUnit × Trace State) : Prop where
  content : run.2.state.content = original ∨ run.2.state.content = some run.2.state.written
  installed : run.1 = .ok ⟨⟩ → run.2.state.content = some run.2.state.written
  deleted : run.2.state.ProvablyNotInstalled → run.2.state.deleteSent = true
  spared : run.2.state.Uncertain → run.2.state.deleteSent = false
  kept : replace = false → original.isSome = true → run.2.state.content = original

/-- The rename fails without effect. -/
def RenameFails (replace : Bool) (script : Script Error) (w : Trace State) : Prop :=
  match (script w.calls).fault with
  | .none => w.state.Occupied replace
  | .raises tookEffect _ => tookEffect = true → w.state.Occupied replace
  | .aborts _ => False

/-- The rename fails without effect, and both queries are answered. -/
def Refused (replace : Bool) (script : Script Error) (w : Trace State) : Prop :=
  RenameFails replace script w ∧ (script (w.calls + 1)).fault = .none ∧
    (script (w.calls + 2)).fault = .none

/-- What precedes the creation of the temporary file. -/
def prepare (env : Env) (temporary : SMBPath) : Session PUnit := do
  pinAll (ancestors [env.destination, temporary])
  modify fun s => { s with mutationGuardDepth := s.mutationGuardDepth + 1 }
  validatePathComponents env.destination

/-- The call that creates the temporary file fails without effect. -/
def CreationFails (script : Script Error) (w : Trace State) : Prop :=
  match (script w.calls).fault with
  | .none => False
  | .raises tookEffect _ | .aborts tookEffect => tookEffect = false

/-- The program returns, and the run goes on with `P`. -/
def Goes (x : Session PUnit) (script : Script Error) (w : Trace State)
    (P : Trace State → Prop) : Prop :=
  match x script w with
  | (.ok _, w) => P w
  | _ => False

/-- From the creation on: it fails without effect; or it returns, the block and the checks that
follow it return, and the rename is not found to have failed. -/
def SparedFrom (env : Env) (body : Body) (script : Script Error) (w : Trace State) : Prop :=
  CreationFails script w ∨
    Goes (do
      createFileMove
      modify fun s => { s with remoteFile := true }
      fill env body
      validatePathComponents env.destination) script w fun w => ¬ Refused env.replace script w

/-- The creation of the temporary file is not reached, or what follows is spared. -/
def Spared (env : Env) (body : Body) (script : Script Error) (w : Trace State) : Prop :=
  match env.temporary with
  | .error _ => True
  | .ok temporary =>
    match prepare env temporary script w with
    | (.ok _, w) => SparedFrom env body script w
    | _ => True

/-! ## The states of a run -/

/-- What every way out of the writer leaves. -/
structure Settled (replace : Bool) (original : Option Data) (left : Prop) (s : State) : Prop where
  content : s.content = original ∨ s.content = some s.written
  plain : ∀ file ∈ s.temporary, file.pending = false
  installed : s.installed = true → s.content = some s.written
  kept : replace = false → original.isSome = true → s.content = original
  deleteSent : s.deleteSent = false
  known : s.ProvablyNotInstalled ↔ left

/-- Before the file is created. -/
def before (original : Option Data) (h depth : Nat) : State :=
  { State.init original with handles := h, mutationGuardDepth := depth }

/-- While the file is written. -/
def filled (original : Option Data) (h : Nat) (remoteFile : Bool) (data : Data) : State :=
  { before original h 1 with
    temporary := some ⟨some .temporary, false, data⟩
    remoteFile := remoteFile
    written := data }

/-- The rename has been sent. -/
def sent (original : Option Data) (h : Nat) (data : Data) : State :=
  { filled original h true data with cleanupAllowed := false, renameSent := true }

theorem before_settled {depth : Nat} (hleft : ¬ left) :
    Settled replace original left (before original h depth) where
  content := .inl rfl
  plain := fun file h => by cases h
  installed := fun h => by cases h
  kept _ _ := rfl
  deleteSent := rfl
  known := iff_of_false (fun h => by cases h.1) hleft

theorem filled_settled {remoteFile : Bool} (hleft : left) :
    Settled replace original left (filled original h remoteFile d) where
  content := .inl rfl
  plain := fun file h => by cases h; rfl
  installed := fun h => by cases h
  kept _ _ := rfl
  deleteSent := rfl
  known := iff_of_true ⟨rfl, .inl rfl⟩ hleft

/-- The file stays, and a query has said so or it is not known. -/
theorem stays_settled {located : Option Place} {cleanupAllowed : Bool}
    (hleft : located = some .temporary ↔ left) :
    Settled replace original left
      { sent original h d with located := located, cleanupAllowed := cleanupAllowed } where
  content := .inl rfl
  plain := fun file h => by cases h; rfl
  installed := fun h => by cases h
  kept _ _ := rfl
  deleteSent := rfl
  known := ⟨fun h => hleft.mp (h.2.resolve_left fun h => by cases h),
    fun h => ⟨rfl, .inr (hleft.mpr h)⟩⟩

/-- The file is the destination, whether or not that is known. -/
theorem install_settled {located : Option Place} {cleanupAllowed renamed installed : Bool}
    (hfree : ¬ (sent original h d).Occupied replace) (hlocated : located ≠ some .temporary)
    (hleft : ¬ left) :
    Settled replace original left { (sent original h d).install with
      located := located, cleanupAllowed := cleanupAllowed, renamed := renamed,
      installed := installed } where
  content := .inr rfl
  plain := fun file h => by cases h; rfl
  installed _ := rfl
  kept hreplace hsome := absurd ⟨hsome, hreplace⟩ hfree
  deleteSent := rfl
  known := iff_of_false (fun h => h.2.elim (fun h => by cases h) hlocated) hleft

namespace Settled

variable (H : Settled replace original left s)
include H

theorem close : s.close = s := by
  obtain ⟨original, temporary, _⟩ := s
  cases temporary with
  | none => rfl
  | some file =>
    have hplain : file.pending = false := H.plain file rfl
    simp only [State.close, Option.map_some, Smb.State.File.close, hplain, Bool.false_eq_true,
      if_false]

theorem leaveGuard : Settled replace original left
    { s with mutationGuardDepth := s.mutationGuardDepth - 1 } :=
  ⟨H.content, H.plain, H.installed, H.kept, H.deleteSent, H.known⟩

theorem setClosed : Settled replace original left { s.close with closed := true } := by
  rw [H.close]
  exact ⟨H.content, H.plain, H.installed, H.kept, H.deleteSent, H.known⟩

theorem setSessionClosed : Settled replace original left { s.close with sessionClosed := true } := by
  rw [H.close]
  exact ⟨H.content, H.plain, H.installed, H.kept, H.deleteSent, H.known⟩

end Settled

/-! ## The calls that change nothing -/

/-- Every call keeps `K`. -/
abbrev Stable (K : State → Prop) {α : Type} (x : Session α) : Prop := Keeps (fun _ => True) K x

theorem ask_stable : Stable K ask := by
  refine .call (fun _ _ => trivial) fun n s a t hs hop => ?_
  cases hop
  exact hs

theorem stat_stable : Stable K stat := .bind ask_stable fun _ => .pure

theorem closeHandles_stable (n : Nat) : Stable K (closeHandles n) := by
  induction n with
  | zero => exact .pure
  | succ n ih => exact .bind ask_stable.attempt fun _ => ih

theorem closeDirectories_stable : Stable K closeDirectories := fun _ hs =>
  .bind (P := fun _ => K) (.get hs) fun a t ht => closeHandles_stable a.handles t ht

theorem validateComponents_stable (length : Nat) (indices : List Nat) :
    Stable K (validateComponents length indices) := by
  induction indices with
  | nil => exact .pure
  | cons index indices ih =>
    refine .bind stat_stable.attempt fun r => ?_
    rcases r with error | _ | _
    · dsimp only
      split
      · exact .pure
      · exact .raise
    · exact ih
    · exact .raise

theorem validatePathComponents_stable (path : SMBPath) : Stable K (validatePathComponents path) :=
  validateComponents_stable _ _

theorem checkCancelled_stable : Stable K (checkCancelled env) := by
  unfold checkCancelled
  split
  · refine .bind ask_stable fun choice => ?_
    split
    · exact .raise
    · exact .pure
  · exact .pure

/-- The `except` clause of the installation raises. -/
theorem renameFailed_raises {I A : State → Prop} {Q : PUnit → State → Prop} {R : Error → State → Prop}
    (error : Error) (hR : ∀ e, R e s) : (renameFailed replace error).Wp I Q R A s := by
  unfold renameFailed
  dsimp only
  split
  · split
    · split
      · exact .raise (hR _)
      · split
        · exact .raise (hR _)
        · exact .raise (hR _)
    · split
      · exact .raise (hR _)
      · exact .raise (hR _)
    · exact .raise (hR _)
  · exact .raise (hR _)

theorem pinAll_stable (hK : ∀ s n, K s → K { s with handles := n }) (paths : List (List String)) :
    Stable K (pinAll paths) := by
  induction paths with
  | nil => exact .pure
  | cons path paths ih =>
    refine .bind (.bind ask_stable fun choice => .bind (fun s hs => ?_) fun _ => ?_) fun _ => ih
    · exact .modify trivial (hK s _ hs)
    · split
      · exact .raise
      · exact .pure

/-! ## The creation and the block of the caller -/

theorem guarded_apply {α : Type} {x : Session α} (hw : w.state.mutationGuardDepth = 1) :
    guarded x script w = x script w := by
  unfold guarded
  rw [get_bind, hw, if_neg (Nat.lt_irrefl 1)]

/-- The ways in which the creation turns out. -/
inductive Creates (original : Option Data) (h : Nat) (script : Script Error) (w : Trace State) :
    Result Error PUnit × Trace State → Prop
  | created (v : Trace State) (hfails : ¬ CreationFails script w)
      (hstate : v.state = filled original h false []) : Creates original h script w (.ok ⟨⟩, v)
  | failed (v : Trace State) (error : Error) (hfails : CreationFails script w)
      (hstate : v.state = before original h 1) : Creates original h script w (.raised error, v)
  | lost (v : Trace State) (error : Error) (hfails : ¬ CreationFails script w)
      (hstate : v.state = filled original h false []) :
      Creates original h script w (.raised error, v)
  | aborted (v : Trace State) (hfails : CreationFails script w)
      (hstate : v.state = before original h 1) : Creates original h script w (.aborted, v)
  | abandoned (v : Trace State) (hfails : ¬ CreationFails script w)
      (hstate : v.state = filled original h false []) : Creates original h script w (.aborted, v)

theorem createFileMove_creates (script : Script Error) (hw : w.state = before original h 1) :
    Creates original h script w (createFileMove script w) := by
  have hop : ((if w.state.temporary.isSome then .error (Error.protocol "CONFLICT")
      else .ok (PUnit.unit, { w.state with temporary := some ⟨some .temporary, false, []⟩ })) :
      Except Error (PUnit × State)) = .ok (PUnit.unit, filled original h false []) := by
    rw [hw]
    rfl
  unfold createFileMove
  rw [guarded_apply (by rw [hw]; rfl)]
  have hcalled := call_called (fun _ s => if s.temporary.isSome then .error (Error.protocol "CONFLICT")
    else .ok (PUnit.unit, { s with temporary := some ⟨some .temporary, false, []⟩ })) script w
  generalize call _ script w = run at hcalled ⊢
  cases hcalled with
  | returned a t hfault hcase =>
    cases hop.symm.trans hcase
    exact .created _ (by simp [CreationFails, hfault]) rfl
  | refused e hfault hcase => cases hop.symm.trans hcase
  | failed tookEffect e hfault hcase =>
    have htook : tookEffect = false := by
      refine Bool.eq_false_iff.mpr fun htook => ?_
      obtain ⟨e', he'⟩ := hcase htook
      cases hop.symm.trans he'
    exact .failed _ _ (by simp [CreationFails, hfault, htook]) hw
  | lost e a t hfault hcase =>
    cases hop.symm.trans hcase
    exact .lost _ _ (by simp [CreationFails, hfault]) rfl
  | aborted tookEffect hfault hcase =>
    have htook : tookEffect = false := by
      refine Bool.eq_false_iff.mpr fun htook => ?_
      obtain ⟨e', he'⟩ := hcase htook
      cases hop.symm.trans he'
    exact .aborted _ (by simp [CreationFails, hfault, htook]) hw
  | abandoned a t hfault hcase =>
    cases hop.symm.trans hcase
    exact .abandoned _ (by simp [CreationFails, hfault]) rfl

/-- The file holds what the writes have taken. -/
def Writing (original : Option Data) (h : Nat) (s : State) : Prop :=
  ∃ d, s = filled original h true d

theorem body_stable (body : Body) : Stable (Writing original h) body.run := by
  induction body with
  | leave => exact .pure
  | raise error => exact .raise
  | abort => exact fun s hs => .abort hs
  | write data next ih =>
    refine .bind (.attempt (.call (fun _ _ => trivial) ?_)) fun r => ih r
    rintro n s a t ⟨d, rfl⟩ hop
    cases hop
    exact ⟨d ++ data.take n, rfl⟩

theorem fill_stable : Stable (Writing original h) (fill env body) :=
  .bind (body_stable body) fun _ => checkCancelled_stable

/-! ## The rename -/

/-- The four ways in which the rename turns out. -/
inductive Renames (replace : Bool) (original : Option Data) (h : Nat) (d : Data)
    (script : Script Error) (w : Trace State) : Result Error PUnit × Trace State → Prop
  | acknowledged (v : Trace State) (hfree : ¬ (sent original h d).Occupied replace)
      (hfails : ¬ RenameFails replace script w)
      (hstate : v.state = { (sent original h d).install with renamed := true }) :
      Renames replace original h d script w (.ok ⟨⟩, v)
  | failed (v : Trace State) (error : Error) (hfails : RenameFails replace script w)
      (hstate : v.state = sent original h d) (hcalls : v.calls = w.calls + 1) :
      Renames replace original h d script w (.raised error, v)
  | lost (v : Trace State) (error : Error) (hfree : ¬ (sent original h d).Occupied replace)
      (hfails : ¬ RenameFails replace script w) (hstate : v.state = (sent original h d).install)
      (hcalls : v.calls = w.calls + 1) : Renames replace original h d script w (.raised error, v)
  | aborted (v : Trace State) (hfails : ¬ RenameFails replace script w)
      (hstate : v.state = sent original h d ∨
        ¬ (sent original h d).Occupied replace ∧ v.state = (sent original h d).install) :
      Renames replace original h d script w (.aborted, v)

theorem renameOpenHandle_renames (replace : Bool) (script : Script Error)
    (hw : w.state = { filled original h true d with cleanupAllowed := false }) :
    Renames replace original h d script w (renameOpenHandle replace script w) := by
  have hocc : w.state.Occupied replace ↔ (sent original h d).Occupied replace := by rw [hw]; rfl
  have hsent : (w.to { w.state with renameSent := true }).state = sent original h d := by
    rw [hw]; rfl
  unfold renameOpenHandle
  rw [guarded_apply (by rw [hw]; rfl), bind_apply]
  change Renames replace original h d script w ((call _ >>= _) script
    (w.to { w.state with renameSent := true }))
  rw [bind_apply]
  have hcalled := call_called (fun _ s => if s.Occupied replace then .error (Error.protocol "CONFLICT")
    else .ok (PUnit.unit, s.install)) script (w.to { w.state with renameSent := true })
  generalize call _ script (w.to { w.state with renameSent := true }) = run at hcalled ⊢
  have hfree : ∀ {a t}, (if (w.to { w.state with renameSent := true }).state.Occupied replace then
        .error (Error.protocol "CONFLICT")
      else .ok (PUnit.unit, (w.to { w.state with renameSent := true }).state.install)) =
        Except.ok (a, t) → ¬ (sent original h d).Occupied replace ∧
      t = (sent original h d).install := by
    intro a t hop
    rw [hsent] at hop
    split at hop
    · cases hop
    · cases hop
      exact ⟨‹_›, rfl⟩
  have hfull : ∀ {e}, (if (w.to { w.state with renameSent := true }).state.Occupied replace then
        .error (Error.protocol "CONFLICT")
      else .ok (PUnit.unit, (w.to { w.state with renameSent := true }).state.install)) =
        Except.error e → (sent original h d).Occupied replace := by
    intro e hop
    rw [hsent] at hop
    split at hop
    · assumption
    · cases hop
  unfold Trace.to at hcalled
  dsimp only at hcalled
  cases hcalled with
  | returned a t hfault hop =>
    obtain ⟨hnot, rfl⟩ := hfree hop
    refine .acknowledged _ hnot (fun hfails => ?_) rfl
    unfold RenameFails at hfails
    rw [hfault] at hfails
    exact hnot (hocc.mp hfails)
  | refused e hfault hop =>
    refine .failed _ _ ?_ hsent rfl
    unfold RenameFails
    rw [hfault]
    exact hocc.mpr (hfull hop)
  | failed tookEffect e hfault hop =>
    refine .failed _ _ ?_ hsent rfl
    unfold RenameFails
    rw [hfault]
    intro htook
    obtain ⟨e', hop⟩ := hop htook
    exact hocc.mpr (hfull hop)
  | lost e a t hfault hop =>
    obtain ⟨hnot, rfl⟩ := hfree hop
    refine .lost _ _ hnot (fun hfails => ?_) rfl rfl
    unfold RenameFails at hfails
    rw [hfault] at hfails
    exact hnot (hocc.mp (hfails rfl))
  | aborted tookEffect hfault hop =>
    refine .aborted _ (fun hfails => ?_) (.inl hsent)
    unfold RenameFails at hfails
    rw [hfault] at hfails
    exact hfails
  | abandoned a t hfault hop =>
    obtain ⟨hnot, rfl⟩ := hfree hop
    refine .aborted _ (fun hfails => ?_) (.inr ⟨hnot, rfl⟩)
    unfold RenameFails at hfails
    rw [hfault] at hfails
    exact hfails

/-! ## The queries -/

def State.At (s : State) (place : Place) : Prop := ∃ file ∈ s.temporary, file.place = some place

/-- The ways in which a query turns out. -/
inductive Queried (place : Place) (script : Script Error) (w : Trace State) :
    Result Error Bool × Trace State → Prop
  | found (v : Trace State) (hfault : (script w.calls).fault = .none) (hat : w.state.At place)
      (hstate : v.state = { w.state with located := some place }) :
      Queried place script w (.ok true, v)
  | missed (v : Trace State) (hfault : (script w.calls).fault = .none) (hat : ¬ w.state.At place)
      (hstate : v.state = w.state) (hcalls : v.calls = w.calls + 1) :
      Queried place script w (.ok false, v)
  | failed (v : Trace State) (error : Error) (hfault : (script w.calls).fault ≠ .none)
      (hstate : v.state = w.state) : Queried place script w (.raised error, v)
  | aborted (v : Trace State) (hfault : (script w.calls).fault ≠ .none)
      (hstate : v.state = w.state) : Queried place script w (.aborted, v)

theorem openHandleMatches_queried (place : Place) (script : Script Error) (w : Trace State) :
    Queried place script w (openHandleMatches place script w) := by
  have hcalled := call_called (fun _ s => (.ok (decide (∃ file ∈ s.temporary,
    file.place = some place), s) : Except Error (Bool × State))) script w
  unfold openHandleMatches
  rw [bind_apply]
  generalize call _ script w = run at hcalled ⊢
  cases hcalled with
  | returned a t hfault hop =>
    cases hop
    by_cases hat : w.state.At place
    · have hfound : decide (∃ file ∈ w.state.temporary, file.place = some place) = true :=
        decide_eq_true hat
      rw [hfound]
      exact .found _ hfault hat rfl
    · have hfound : decide (∃ file ∈ w.state.temporary, file.place = some place) = false :=
        decide_eq_false hat
      rw [hfound]
      exact .missed _ hfault hat rfl rfl
  | refused e hfault hop => cases hop
  | failed tookEffect e hfault hop => exact .failed _ _ (by rw [hfault]; intro h; cases h) rfl
  | lost e a t hfault hop =>
    cases hop
    exact .failed _ _ (by rw [hfault]; intro h; cases h) rfl
  | aborted tookEffect hfault hop => exact .aborted _ (by rw [hfault]; intro h; cases h) rfl
  | abandoned a t hfault hop =>
    cases hop
    exact .aborted _ (by rw [hfault]; intro h; cases h) rfl

/-- The ways in which the search for the handle turns out. -/
inductive Locates (script : Script Error) (w : Trace State) :
    Result Error (Option Place) × Trace State → Prop
  | destination (v : Trace State) (hat : w.state.At .destination)
      (hstate : v.state = { w.state with located := some .destination }) :
      Locates script w (.ok (some .destination), v)
  | temporary (v : Trace State) (hat : w.state.At .temporary)
      (hfault : (script w.calls).fault = .none) (hfault' : (script (w.calls + 1)).fault = .none)
      (hstate : v.state = { w.state with located := some .temporary }) :
      Locates script w (.ok (some .temporary), v)
  | unknown (v : Trace State) (r : Result Error (Option Place)) (hr : r = .ok none ∨ r = .aborted)
      (hfault : w.state.At .temporary → ¬ ((script w.calls).fault = .none ∧
        (script (w.calls + 1)).fault = .none))
      (hstate : v.state = w.state) : Locates script w (r, v)

theorem openHandleLocation_locates (script : Script Error) (w : Trace State) :
    Locates script w (openHandleLocation [.destination, .temporary] script w) := by
  have hfirst := openHandleMatches_queried .destination script w
  unfold openHandleLocation
  rw [attempt_bind]
  generalize openHandleMatches .destination script w = run at hfirst ⊢
  cases hfirst with
  | found v hfault hat hstate => exact .destination v hat hstate
  | failed v error hfault hstate => exact .unknown v _ (.inl rfl) (fun _ h => hfault h.1) hstate
  | aborted v hfault hstate => exact .unknown v _ (.inr rfl) (fun _ h => hfault h.1) hstate
  | missed v hfault hat hstate hcalls =>
    have hsecond := openHandleMatches_queried .temporary script v
    dsimp only
    unfold openHandleLocation
    rw [attempt_bind]
    generalize openHandleMatches .temporary script v = run at hsecond ⊢
    cases hsecond with
    | found u hfault' hat' hstate' =>
      rw [hstate] at hat' hstate'
      exact .temporary u hat' hfault (hcalls ▸ hfault') hstate'
    | missed u hfault' hat' hstate' =>
      rw [hstate] at hat'
      exact .unknown u _ (.inl rfl) (fun h => absurd h hat') (hstate'.trans hstate)
    | failed u error hfault' hstate' =>
      exact .unknown u _ (.inl rfl) (fun _ h => hfault' (hcalls ▸ h.2)) (hstate'.trans hstate)
    | aborted u hfault' hstate' =>
      exact .unknown u _ (.inr rfl) (fun _ h => hfault' (hcalls ▸ h.2)) (hstate'.trans hstate)

/-! ## The installation -/

/-- A state that every way out may leave, while `n` guards are held. -/
def Within (replace : Bool) (original : Option Data) (left : Prop) (n : Nat) (s : State) : Prop :=
  Settled replace original left s ∧ s.mutationGuardDepth = n

theorem stays_within {located : Option Place} {cleanupAllowed : Bool}
    (hleft : located = some .temporary ↔ left) : Within replace original left 1
      { sent original h d with located := located, cleanupAllowed := cleanupAllowed } :=
  ⟨stays_settled hleft, rfl⟩

theorem install_within (located : Option Place) {cleanupAllowed renamed installed : Bool}
    (hfree : ¬ (sent original h d).Occupied replace) (hlocated : located ≠ some .temporary)
    (hleft : ¬ left) : Within replace original left 1 { (sent original h d).install with
      located := located, cleanupAllowed := cleanupAllowed, renamed := renamed,
      installed := installed } :=
  ⟨install_settled hfree hlocated hleft, rfl⟩

theorem sent_not_at_destination : ¬ (sent original h d).At .destination := by
  rintro ⟨file, hfile, hplace⟩
  cases hfile
  cases hplace

theorem sent_at_temporary : (sent original h d).At .temporary := ⟨_, rfl, rfl⟩

theorem install_not_at_temporary : ¬ (sent original h d).install.At .temporary := by
  rintro ⟨file, hfile, hplace⟩
  cases hfile
  cases hplace

theorem commit_ends (replace : Bool) (script : Script Error) (hw : w.state = filled original h true d) :
    Ends (fun _ => True)
      (fun _ t => t.installed = true ∧ Within replace original (Refused replace script w) 1 t)
      (fun _ => Within replace original (Refused replace script w) 1)
      (Within replace original (Refused replace script w) 1) (commit replace script w) := by
  have hopen : (w.to { w.state with cleanupAllowed := false }).state =
      { filled original h true d with cleanupAllowed := false } := by
    rw [hw]
    rfl
  have hrename := renameOpenHandle_renames replace script hopen
  unfold commit
  rw [bind_apply]
  change Ends _ _ _ _ ((renameReconciled replace >>= _) script
    (w.to { w.state with cleanupAllowed := false }))
  rw [bind_apply]
  unfold renameReconciled
  rw [attempt_bind]
  generalize renameOpenHandle replace script (w.to { w.state with cleanupAllowed := false }) = run
    at hrename ⊢
  cases hrename with
  | acknowledged v hfree hfails hstate =>
    have hwithin : Within replace original (Refused replace script w) 1
        { v.state with installed := true } := by
      rw [hstate]
      exact install_within none hfree (fun h => by cases h) fun h => hfails h.1
    exact ⟨fun _ _ => trivial, rfl, hwithin⟩
  | failed v error hfails hstate hcalls =>
    have hlocates := openHandleLocation_locates script v
    dsimp only
    rw [bind_apply]
    generalize openHandleLocation [.destination, .temporary] script v = run at hlocates ⊢
    cases hlocates with
    | destination u hat hstate' =>
      rw [hstate] at hat
      exact absurd hat sent_not_at_destination
    | temporary u hat hfault hfault' hstate' =>
      rw [hcalls] at hfault hfault'
      have hwithin : Within replace original (Refused replace script w) 1
          { u.state with cleanupAllowed := true } := by
        rw [hstate', hstate]
        exact stays_within (iff_of_true rfl ⟨hfails, hfault, hfault'⟩)
      exact ⟨fun _ _ => trivial, hwithin⟩
    | unknown u r hr hfault hstate' =>
      rw [hcalls, hstate] at hfault
      have hleft : ¬ Refused replace script w := fun h => hfault sent_at_temporary h.2
      have hwithin : ∀ cleanupAllowed, Within replace original (Refused replace script w) 1
          { u.state with cleanupAllowed := cleanupAllowed } := fun _ => by
        rw [hstate', hstate]
        exact stays_within (iff_of_false (fun h => by cases h) hleft)
      rcases hr with rfl | rfl
      · exact ⟨fun _ _ => trivial, hwithin false⟩
      · exact ⟨fun _ _ => trivial, hwithin u.state.cleanupAllowed⟩
  | lost v error hfree hfails hstate hcalls =>
    have hlocates := openHandleLocation_locates script v
    have hleft : ¬ Refused replace script w := fun h => hfails h.1
    dsimp only
    rw [bind_apply]
    generalize openHandleLocation [.destination, .temporary] script v = run at hlocates ⊢
    cases hlocates with
    | destination u hat hstate' =>
      have hwithin : Within replace original (Refused replace script w) 1
          { u.state with installed := true } := by
        rw [hstate', hstate]
        exact install_within (some .destination) hfree (fun h => by cases h) hleft
      exact ⟨fun _ _ => trivial, rfl, hwithin⟩
    | temporary u hat hfault hfault' hstate' =>
      rw [hstate] at hat
      exact absurd hat install_not_at_temporary
    | unknown u r hr hfault hstate' =>
      have hwithin : ∀ cleanupAllowed, Within replace original (Refused replace script w) 1
          { u.state with cleanupAllowed := cleanupAllowed } := fun _ => by
        rw [hstate', hstate]
        exact install_within none hfree (fun h => by cases h) hleft
      rcases hr with rfl | rfl
      · exact ⟨fun _ _ => trivial, hwithin false⟩
      · exact ⟨fun _ _ => trivial, hwithin u.state.cleanupAllowed⟩
  | aborted v hfails hstate =>
    have hleft : ¬ Refused replace script w := fun h => hfails h.1
    refine ⟨fun _ _ => trivial, ?_⟩
    rcases hstate with hstate | ⟨hfree, hstate⟩
    · rw [hstate]
      exact stays_within (iff_of_false (fun h => by cases h) hleft)
    · rw [hstate]
      exact install_within none hfree (fun h => by cases h) hleft

theorem Within.of_iff {left' : Prop} {n : Nat} (hiff : left ↔ left')
    (H : Within replace original left n s) : Within replace original left' n s :=
  propext hiff ▸ H

/-- The three ways out of the writing, where the file is left or not. -/
abbrev Leaves (env : Env) (original : Option Data) (left : Prop) (n : Nat) :
    Result Error PUnit × Trace State → Prop :=
  Ends (fun _ => True) (fun _ t => t.installed = true ∧ Within env.replace original left n t)
    (fun _ => Within env.replace original left n) (Within env.replace original left n)

theorem filled_within (hleft : left) : Within replace original left 1 (filled original h true d) :=
  ⟨filled_settled hleft, rfl⟩

theorem installFile_leaves (hw : w.state = filled original h true d)
    (hleft : left ↔ ¬ Goes (validatePathComponents env.destination) script w
      fun w => ¬ Refused env.replace script w) :
    Leaves env original left 1 (installFile env script w) := by
  have hvalid := validatePathComponents_stable (K := (· = filled original h true d))
    env.destination w.state hw script w rfl fun _ _ => trivial
  unfold Goes at hleft
  unfold installFile
  rw [handle_apply, bind_apply]
  generalize validatePathComponents env.destination script w = run at hvalid hleft ⊢
  rcases run with ⟨_ | error | _, v⟩
  · have hcommit := commit_ends env.replace script hvalid.2
    rw [not_not] at hleft
    dsimp only
    rcases hrun : commit env.replace script v with ⟨_ | error | _, u⟩
    · rw [hrun] at hcommit
      exact ⟨hcommit.1, hcommit.2.1, hcommit.2.2.of_iff hleft.symm⟩
    · rw [hrun] at hcommit
      exact (renameFailed_raises error fun _ => hcommit.2.of_iff hleft.symm).ends hcommit.1
    · rw [hrun] at hcommit
      exact ⟨hcommit.1, hcommit.2.of_iff hleft.symm⟩
  · exact (renameFailed_raises error fun _ => hvalid.2 ▸ filled_within (hleft.mpr id)).ends hvalid.1
  · exact ⟨hvalid.1, hvalid.2 ▸ filled_within (hleft.mpr id)⟩

/-- The block of the caller and what follows it, once the file was created. -/
theorem fill_leaves (hw : w.state = filled original h true [])
    (hleft : left ↔ ¬ Goes (do
      fill env body
      validatePathComponents env.destination) script w fun w => ¬ Refused env.replace script w) :
    Leaves env original left 1 ((do
      fill env body
      installFile env : Session PUnit) script w) := by
  have hfill : Ends _ _ _ _ (fill env body script w) :=
    fill_stable w.state ⟨[], hw⟩ script w rfl fun _ _ => trivial
  unfold Goes at hleft
  rw [bind_apply] at hleft ⊢
  generalize fill env body script w = run at hfill hleft ⊢
  rcases run with ⟨_ | error | _, v⟩
  · obtain ⟨-, d, hd⟩ := hfill
    exact installFile_leaves hd hleft
  · obtain ⟨hI, d, hd⟩ := hfill
    exact ⟨hI, hd ▸ filled_within (hleft.mpr id)⟩
  · obtain ⟨hI, d, hd⟩ := hfill
    exact ⟨hI, hd ▸ filled_within (hleft.mpr id)⟩

theorem before_within {n : Nat} (hleft : ¬ left) :
    Within replace original left n (before original h n) := ⟨before_settled hleft, rfl⟩

/-- The creation, and what follows it. -/
theorem create_leaves (hw : w.state = before original h 1)
    (hleft : left ↔ ¬ SparedFrom env body script w) :
    Leaves env original left 1 ((do
      createFileMove
      modify fun s => { s with remoteFile := true }
      fill env body
      installFile env : Session PUnit) script w) := by
  have hcreates := createFileMove_creates script hw
  unfold SparedFrom Goes at hleft
  rw [bind_apply] at hleft ⊢
  generalize createFileMove script w = run at hcreates hleft ⊢
  have hfilled : ¬ CreationFails script w → (left ↔ ¬ (CreationFails script w ∨ False)) →
      Within env.replace original left 1 (filled original h false []) := fun hfails hiff =>
    ⟨filled_settled (hiff.mpr (by simpa using hfails)), rfl⟩
  have hbefore : CreationFails script w → (left ↔ ¬ (CreationFails script w ∨ False)) →
      Within env.replace original left 1 (before original h 1) := fun hfails hiff =>
    before_within fun hl => hiff.mp hl (.inl hfails)
  cases hcreates with
  | created v hfails hstate =>
    refine fill_leaves (w := v.to { v.state with remoteFile := true }) (h := h) ?_ ?_
    · show ({ v.state with remoteFile := true } : State) = filled original h true []
      rw [hstate]
      rfl
    · exact hleft.trans (not_congr (or_iff_right hfails))
  | failed v error hfails hstate => exact ⟨fun _ _ => trivial, hstate ▸ hbefore hfails hleft⟩
  | lost v error hfails hstate => exact ⟨fun _ _ => trivial, hstate ▸ hfilled hfails hleft⟩
  | aborted v hfails hstate => exact ⟨fun _ _ => trivial, hstate ▸ hbefore hfails hleft⟩
  | abandoned v hfails hstate => exact ⟨fun _ _ => trivial, hstate ▸ hfilled hfails hleft⟩

theorem writeGuarded_leaves (hw : w.state = before original h 1)
    (hleft : left ↔ ¬ match validatePathComponents env.destination script w with
      | (.ok _, w) => SparedFrom env body script w
      | _ => True) :
    Leaves env original left 1 (writeGuarded env body script w) := by
  have hvalid := validatePathComponents_stable (K := (· = before original h 1))
    env.destination w.state hw script w rfl fun _ _ => trivial
  unfold writeGuarded create
  rw [bind_apply, bind_apply]
  generalize validatePathComponents env.destination script w = run at hvalid hleft ⊢
  rcases run with ⟨_ | error | _, v⟩
  · have hcreated := create_leaves hvalid.2 hleft
    dsimp only
    rw [bind_apply] at hcreated ⊢
    generalize createFileMove script v = run at hcreated ⊢
    rcases run with ⟨_ | _ | _, u⟩ <;> exact hcreated
  · exact ⟨hvalid.1, hvalid.2 ▸ before_within fun hl => hleft.mp hl trivial⟩
  · exact ⟨hvalid.1, hvalid.2 ▸ before_within fun hl => hleft.mp hl trivial⟩

/-- The guard is left on every way out. -/
theorem pinMutationAncestors_leaves {temporary : SMBPath} (hw : w.state = .init original)
    (hleft : left ↔ ¬ match prepare env temporary script w with
      | (.ok _, w) => SparedFrom env body script w
      | _ => True) :
    Leaves env original left 0 (pinMutationAncestors (ancestors [env.destination, temporary])
      (writeGuarded env body) script w) := by
  have hclose : ∀ K : State → Prop, ∀ t, K t →
      closeDirectories.Wp (fun _ => True) (fun _ => K) (fun _ => K) K t :=
    fun K t ht => closeDirectories_stable t ht
  refine .finallyDo (P := fun _ t => t.installed = true ∧ Within env.replace original left 0 t)
    (E := fun _ => Within env.replace original left 0) (F := Within env.replace original left 0)
    ?_ (fun _ t ht => (hclose _ t ht).mono (fun _ _ h => h) (fun _ _ h => h.2) fun _ h => h.2)
    (fun _ t ht => hclose _ t ht) fun t ht => hclose _ t ht
  have hpin := (pinAll_stable (K := fun s => ∃ h, s = before original h 0)
    (by rintro _ n ⟨h, rfl⟩; exact ⟨n, rfl⟩) (ancestors [env.destination, temporary]) w.state
    ⟨0, hw⟩) script w rfl fun _ _ => trivial
  have hbefore : ∀ {h}, (left ↔ ¬ True) → Within env.replace original left 0 (before original h 0) :=
    fun hiff => before_within fun hl => hiff.mp hl trivial
  unfold prepare at hleft
  rw [bind_apply] at hleft ⊢
  generalize pinAll (ancestors [env.destination, temporary]) script w = run at hpin hleft ⊢
  rcases run with ⟨_ | error | _, v⟩
  · obtain ⟨-, h, hv⟩ := hpin
    have hdeep : (v.to { v.state with mutationGuardDepth := v.state.mutationGuardDepth + 1 }).state =
        before original h 1 := by
      rw [hv]
      rfl
    dsimp only
    rw [bind_apply]
    change Ends _ _ _ _ (andFinally (writeGuarded env body) _ script (v.to _))
    refine .andFinally ((writeGuarded_leaves hdeep hleft).mono ?_ ?_ ?_)
    · rintro _ t ⟨hinstalled, hsettled, hdepth⟩
      exact ⟨trivial, hinstalled, hsettled.leaveGuard, by rw [hdepth]⟩
    · rintro _ t ⟨hsettled, hdepth⟩
      exact ⟨trivial, hsettled.leaveGuard, by rw [hdepth]⟩
    · rintro t ⟨hsettled, hdepth⟩
      exact ⟨trivial, hsettled.leaveGuard, by rw [hdepth]⟩
  · obtain ⟨hI, h, hv⟩ := hpin
    exact ⟨hI, hv ▸ hbefore hleft⟩
  · obtain ⟨hI, h, hv⟩ := hpin
    exact ⟨hI, hv ▸ hbefore hleft⟩

/-! ## The cleanup -/

theorem Wp.get_bind {α : Type} {f : State → Session α} {I A : State → Prop} {Q : α → State → Prop}
    {R : Error → State → Prop} (hf : (f s).Wp I Q R A s) :
    (Program.get >>= f : Session α).Wp I Q R A s := by
  intro script w hw hI
  rw [Program.get_bind, hw]
  exact hf script w hw hI

/-- The guard has been left: the session refuses the deletion, and the refusal is swallowed. -/
theorem cleanup_spec (hs : s.mutationGuardDepth = 0) {I A : State → Prop} {Q : PUnit → State → Prop}
    {R : Error → State → Prop} (hQ : Q ⟨⟩ s) : cleanup.Wp I Q R A s := by
  refine Wp.get_bind ?_
  split
  · refine .bind (P := fun _ t => t = s) (.attempt (Wp.get_bind ?_)) fun _ t ht => .pure (ht ▸ hQ)
    rw [if_pos (by rw [hs]; exact Nat.zero_lt_one)]
    exact .raise rfl
  · exact .pure hQ

theorem closeFile_stable (hK : ∀ s, K s → K { s.close with closed := true }) : Stable K closeFile := by
  refine .call (fun _ _ => trivial) fun n s a t hs hop => ?_
  cases hop
  exact hK s hs

theorem closeSession_stable (hK : ∀ s, K s → K { s.close with sessionClosed := true }) :
    Stable K closeSession := by
  refine .call (fun _ _ => trivial) fun n s a t hs hop => ?_
  cases hop
  exact hK s hs

theorem Stable.outcome {α : Type} {x : Session α} (h : Stable K x) : Stable K (outcome x) :=
  fun s hs => .outcome (h s hs)

theorem Stable.get : Stable K (Program.get : Session State) := fun _ hs => .get hs

theorem closeHandleOrTaintSession_stable (hclosed : ∀ s, K s → K { s.close with closed := true })
    (hsession : ∀ s, K s → K { s.close with sessionClosed := true }) :
    Stable K closeHandleOrTaintSession := by
  refine .bind (Stable.outcome (closeFile_stable hclosed)) fun closing => ?_
  rcases closing with _ | error | _
  · exact .pure
  · refine .bind Stable.get fun t => ?_
    split
    · exact .pure
    · refine .bind (Stable.outcome (closeSession_stable hsession)) fun r => ?_
      rcases r with _ | _ | _
      · exact .pure
      · exact .raise
      · exact .raise
  · refine .bind Stable.get fun t => ?_
    split
    · exact fun s hs => .abort hs
    · exact .bind (Stable.outcome (closeSession_stable hsession)) fun _ s hs => .abort hs

theorem closeRemoteFile_stable (hclosed : ∀ s, K s → K { s.close with closed := true })
    (hsession : ∀ s, K s → K { s.close with sessionClosed := true }) :
    Stable K closeRemoteFile := by
  refine .bind Stable.get fun t => ?_
  split
  · refine .bind (closeHandleOrTaintSession_stable hclosed hsession).attempt fun r => ?_
    rcases r with error | _
    · dsimp only
      split
      · exact .raise
      · exact .pure
    · exact .pure
  · exact .pure

/-! ## All runs -/

theorem Within.sound {run : Result Error PUnit × Trace State} {n : Nat}
    (H : Within replace original left n run.2.state)
    (hok : run.1 = .ok ⟨⟩ → run.2.state.installed = true) : Sound replace original run ↔ ¬ left := by
  have hsettled := H.1
  constructor
  · intro hsound hleft
    have := hsound.deleted (hsettled.known.mpr hleft)
    rw [hsettled.deleteSent] at this
    cases this
  · intro hleft
    exact
      { content := hsettled.content
        installed := fun h => hsettled.installed (hok h)
        deleted := fun h => absurd (hsettled.known.mp h) hleft
        spared := fun _ => hsettled.deleteSent
        kept := hsettled.kept }

theorem openAtomicWriter_leaves (env : Env) (body : Body) (original : Option Data)
    (script : Script Error) :
    Leaves env original (¬ Spared env body script ⟨.init original, [], 0⟩) 0
      (openAtomicWriter env body script ⟨.init original, [], 0⟩) := by
  unfold openAtomicWriter Spared
  rcases env.temporary with error | temporary
  · exact ⟨fun _ _ => trivial, before_within (h := 0) fun h => h trivial⟩
  dsimp only
  generalize hleft : (¬ match prepare env temporary script ⟨.init original, [], 0⟩ with
    | (.ok _, w) => SparedFrom env body script w
    | _ => True) = left
  have hclosing : ∀ t, Within env.replace original left 0 t →
      closeRemoteFile.Wp (fun _ => True) (fun _ => Within env.replace original left 0)
        (fun _ => Within env.replace original left 0) (Within env.replace original left 0) t :=
    closeRemoteFile_stable (fun _ h => ⟨h.1.setClosed, h.2⟩) fun _ h => ⟨h.1.setSessionClosed, h.2⟩
  have hinstalled : ∀ t, t.installed = true ∧ Within env.replace original left 0 t →
      closeRemoteFile.Wp (fun _ => True)
        (fun _ t => t.installed = true ∧ Within env.replace original left 0 t)
        (fun _ t => t.installed = true ∧ Within env.replace original left 0 t)
        (fun t => t.installed = true ∧ Within env.replace original left 0 t) t :=
    closeRemoteFile_stable (fun _ h => ⟨h.1, h.2.1.setClosed, h.2.2⟩)
      fun _ h => ⟨h.1, h.2.1.setSessionClosed, h.2.2⟩
  have hguarded := pinMutationAncestors_leaves (w := ⟨.init original, [], 0⟩) rfl
    (iff_of_eq hleft.symm)
  exact .finallyDo
    (.onFailure hguarded (fun _ _ ht => cleanup_spec ht.2 ht) fun _ ht => cleanup_spec ht.2 ht)
    (fun _ t ht => (hinstalled t ht).mono (fun _ _ h => h) (fun _ _ h => h.2) fun _ h => h.2)
    (fun _ t ht => hclosing t ht) fun t ht => hclosing t ht

/-- Whatever the calls do, and whatever the block does: the run is sound exactly when no temporary file
is left that is known not to be installed. -/
theorem atomic_writer_sound_iff (env : Env) (body : Body) (original : Option Data)
    (script : Script Error) :
    Sound env.replace original (openAtomicWriter env body script ⟨.init original, [], 0⟩) ↔
      Spared env body script ⟨.init original, [], 0⟩ := by
  have hends := openAtomicWriter_leaves env body original script
  generalize openAtomicWriter env body script ⟨.init original, [], 0⟩ = run at hends ⊢
  rw [← not_not (a := Spared env body script ⟨.init original, [], 0⟩)]
  rcases run with ⟨_ | error | _, v⟩
  · exact Within.sound hends.2.2 fun _ => hends.2.1
  · exact Within.sound hends.2 fun h => by cases h
  · exact Within.sound hends.2 fun h => by cases h

/-- A block that writes one byte and then raises. -/
def exampleBody : Body := .write [7] fun _ => .raise .other

def exampleEnv : Env where
  destination := ⟨["report.txt"], by decide⟩
  token := "0123456789abcdef01234567"
  replace := false
  cancellable := false

/-- Every call returns: the block raises, and the temporary file stays. -/
theorem atomic_writer_leaves_temporary : ¬ Sound exampleEnv.replace none
    (openAtomicWriter exampleEnv exampleBody (fun _ => ⟨.none, 2⟩) ⟨.init none, [], 0⟩) := by
  intro h
  have hstate : (openAtomicWriter exampleEnv exampleBody (fun _ => ⟨.none, 2⟩)
      ⟨.init none, [], 0⟩).2.state = ⟨none, some ⟨some .temporary, false, [7]⟩, 0, 0, true, false,
        true, true, false, [7], false, false, none, false⟩ := by decide
  have hsent := h.deleted (by rw [hstate]; exact ⟨rfl, .inl rfl⟩)
  rw [hstate] at hsent
  cases hsent

end WebSSH.Smb.Writer
