import Mathlib
import WebSSH.Client.Queue

/-!
# Cancellation in the transfer client

A cancelled transfer must cancel what it has prepared on the server. `cancelSent` belongs to the
local transfer, but a conflict that is resolved by replacing prepares a second server transfer; a
run in which this happens only before the first `cancel_transfer` message keeps `Cancels`.
-/

namespace WebSSH.Client
open Lib

set_option autoImplicit false

/-- What `cancelSent` and `cancelRequested` say about a transfer that is not terminal. -/
structure Transfer.Answered (t : Transfer) (i : Nat) (sent : List (Nat × String))
    (tasks : List Task) : Prop where
  sent : t.cancelSent = true → ∃ id, t.transferId = some id ∧ (i, id) ∈ sent
  pending : t.cancelRequested = true → t.transferId ≠ none →
    t.cancelSent = true ∨ .cancelPrepared i ∈ tasks
  early : t.pc.early = true → t.transferId = none
  late : t.pc.early = false → t.pc ≠ .aborting → t.transferId ≠ none

def Cancels (s : State) : Prop :=
  ∀ i, (s.transfers i).terminalized = false → (s.transfers i).Answered i s.sent s.tasks

theorem Cancels.init : Cancels .init := fun _ _ => ⟨nofun, nofun, fun _ => rfl, nofun⟩

section
variable {s s' : State} {i : Nat} {t : Transfer}

theorem Transfer.Answered.mono {sent sent' : List (Nat × String)} {tasks tasks' : List Task}
    (H : t.Answered i sent tasks) (hsent : ∀ x ∈ sent, x ∈ sent')
    (htasks : .cancelPrepared i ∈ tasks → .cancelPrepared i ∈ tasks') :
    t.Answered i sent' tasks' where
  sent h :=
    let ⟨id, hid, hmem⟩ := H.sent h
    ⟨id, hid, hsent _ hmem⟩
  pending h hid := (H.pending h hid).imp_right htasks
  early := H.early
  late := H.late

/-- Nothing has been sent for a transfer that is being prepared. -/
theorem Transfer.Answered.not_sent {sent : List (Nat × String)} {tasks : List Task}
    (H : t.Answered i sent tasks) (hpc : t.pc.early = true) : t.cancelSent = false := by
  cases h : t.cancelSent with
  | false => rfl
  | true =>
    obtain ⟨id, hid, _⟩ := H.sent h
    rw [H.early hpc] at hid
    cases hid

/-! ## The parts of the methods -/

theorem Cancels.set (H : Cancels s) (h : t.terminalized = false → t.Answered i s.sent s.tasks) :
    Cancels (s.set i t) := by
  intro j hj
  by_cases hji : j = i
  · subst j
    simp only [State.set, Function.update_self] at hj ⊢
    exact h hj
  · simp only [State.set, Function.update_of_ne hji] at hj ⊢
    exact H j hj

theorem Cancels.emit (H : Cancels s) (e : Event) : Cancels (s.emit i e) := H

theorem Cancels.defer (H : Cancels s) (task : Task) : Cancels (s.defer task) :=
  fun j hj => (H j hj).mono (fun _ => id) fun h => List.mem_append_left _ h

theorem Cancels.releaseSlot (H : Cancels s) (i : Nat) : Cancels (s.releaseSlot i) := by
  rw [State.releaseSlot]
  split
  · exact H
  · have hset : Cancels (s.set i { s.transfers i with slotReleased := true }) :=
      H.set fun ht =>
        have h := H i ht
        ⟨h.sent, h.pending, h.early, h.late⟩
    exact hset.defer .drainQueue

theorem finalize_terminalized (s : State) (i : Nat) (e : Event) (deferRelease : Bool) :
    ((s.finalize i e deferRelease).transfers i).terminalized = true := by
  rw [State.finalize]
  split
  · assumption
  · cases deferRelease <;> simp [State.set, State.emit, State.defer]

/-- What was wrong with the transfer no longer matters once it is terminal. -/
theorem cancels_finalize (H : ∀ j, j ≠ i → (s.transfers j).terminalized = false →
    (s.transfers j).Answered j s.sent s.tasks) (e : Event) (deferRelease : Bool) :
    Cancels (s.finalize i e deferRelease) := by
  rw [State.finalize]
  split
  · rename_i ht
    intro j hj
    refine H j (fun hji => ?_) hj
    rw [hji, ht] at hj
    cases hj
  · have hset : Cancels ((s.set i { s.transfers i with terminalized := true }).emit i e) := by
      intro j hj
      by_cases hji : j = i
      · subst j; simp [State.set, State.emit] at hj
      · simp only [State.set, State.emit, Function.update_of_ne hji] at hj ⊢
        exact H j hji hj
    cases deferRelease with
    | true => exact hset
    | false => exact hset.defer (.releaseSlot i)

theorem Cancels.finalize (H : Cancels s) (i : Nat) (e : Event) (deferRelease : Bool) :
    Cancels (s.finalize i e deferRelease) :=
  cancels_finalize (fun j _ => H j) e deferRelease

theorem failOperation_terminalized (s : State) (i : Nat) :
    ((s.failOperation i).transfers i).terminalized = true := by
  simp only [State.failOperation]
  split
  · exact finalize_terminalized s i .error _
  · exact finalize_terminalized s i .error _

theorem Cancels.failOperation (H : Cancels s) (i : Nat) : Cancels (s.failOperation i) := by
  simp only [State.failOperation]
  split
  · exact (H.finalize i .error _).defer _
  · exact H.finalize i .error _

/-- A terminal transfer may go anywhere. -/
theorem Cancels.setPc_of_terminalized (H : Cancels s) (ht : (s.transfers i).terminalized = true)
    (pc : Pc) : Cancels (s.setPc i pc) :=
  H.set fun h => by
    have h : (s.transfers i).terminalized = false := h
    rw [ht] at h
    cases h

/-- The operation goes on with a prepared transfer. -/
theorem Cancels.setPc (H : Cancels s) {pc : Pc}
    (hid : (s.transfers i).terminalized = false → (s.transfers i).transferId ≠ none)
    (hpc : pc.early = false) : Cancels (s.setPc i pc) :=
  H.set fun ht =>
    have h := H i ht
    { sent := h.sent
      pending := h.pending
      early := fun hearly => by rw [show pc.early = true from hearly] at hpc; cases hpc
      late := fun _ _ => hid ht }

theorem Cancels.prepared (H : Cancels s) {pc : Pc} (hpc : (s.transfers i).pc = pc)
    (hearly : pc.early = false) (haborting : pc ≠ .aborting)
    (ht : (s.transfers i).terminalized = false) : (s.transfers i).transferId ≠ none :=
  (H i ht).late (by rw [hpc]; exact hearly) (by rw [hpc]; exact haborting)

/-! ## The queue -/

theorem releaseSlot_pc (s : State) (i j : Nat) :
    ((s.releaseSlot i).transfers j).pc = (s.transfers j).pc := by
  rw [State.releaseSlot]
  split
  · rfl
  · by_cases h : j = i
    · subst j; simp [State.set]
    · simp [State.set, h]

theorem mem_releaseSlot_queue {s : State} {i j : Nat} (h : j ∈ (s.releaseSlot i).operationQueue) :
    j ∈ s.operationQueue := by
  rw [State.releaseSlot] at h
  split at h
  · exact h
  · exact List.mem_of_mem_filter h

theorem Cancels.drainLoop (n : Nat) (H : Cancels s)
    (hqueue : ∀ i ∈ s.operationQueue, (s.transfers i).pc = .queued) :
    Cancels (State.drainLoop n s) := by
  induction n generalizing s with
  | zero => exact H
  | succ n ih =>
    rw [State.drainLoop]
    split
    · exact H
    rename_i i rest hq
    have hrest : ∀ j ∈ rest, (s.transfers j).pc = .queued := by
      intro j hj
      exact hqueue j (by rw [hq]; exact List.mem_cons_of_mem i hj)
    have hi : (s.transfers i).pc = .queued := hqueue i (by rw [hq]; exact List.mem_cons_self)
    have H' : Cancels { s with operationQueue := rest } := H
    dsimp only
    split
    · refine ih (H'.releaseSlot i) fun j hj => ?_
      rw [releaseSlot_pc]
      exact hrest j (mem_releaseSlot_queue hj)
    · have hset : Cancels (State.setPc { s with operationQueue := rest } i .scheduled) :=
        H'.set fun ht =>
          have h := H i ht
          { sent := h.sent
            pending := h.pending
            early := fun _ => h.early (by rw [hi]; rfl)
            late := fun h => by cases h }
      exact hset

theorem Inv.queued_of_mem (H : Inv s) (hi : i ∈ s.operationQueue) :
    (s.transfers i).pc = .queued := by
  by_contra hpc
  exact absurd (H.fifo i (H.waiting i hpc) i hi) (Nat.lt_irrefl i)

theorem Cancels.drainQueue (H : Cancels s)
    (hqueue : ∀ i ∈ s.operationQueue, (s.transfers i).pc = .queued) : Cancels s.drainQueue := by
  rw [State.drainQueue]
  split
  · exact H
  · exact H.drainLoop _ hqueue

theorem Cancels.enqueue (H : Cancels s) (Hs : Inv s) (kind : Kind) : Cancels (s.enqueue kind) := by
  have hset : Cancels (s.set s.created (.new kind)) :=
    H.set fun _ => ⟨nofun, nofun, fun _ => rfl, nofun⟩
  refine Cancels.drainQueue (s := { s.set s.created (.new kind) with
    created := s.created + 1
    activeTransfers := s.activeTransfers ++ [s.created]
    operationQueue := s.operationQueue ++ [s.created] }) hset fun j hj => ?_
  rcases List.mem_append.mp hj with hj | hj
  · have hlt : j < s.created := Hs.known j (by simp [State.mentioned, hj])
    simp only [State.set, Function.update_of_ne (Nat.ne_of_lt hlt)]
    exact Hs.queued_of_mem hj
  · rw [List.mem_singleton.mp hj]
    simp [State.set, Transfer.new]

/-! ## Messages -/

/-- The call of `cancelPreparedTransfer` that `tasks` no longer lists. -/
theorem Cancels.cancelPreparedTransfer (H : Cancels s) {tasks : List Task} (throws : Bool)
    (htasks : ∀ j, j ≠ i → .cancelPrepared j ∈ s.tasks → .cancelPrepared j ∈ tasks) :
    Cancels (State.cancelPreparedTransfer { s with tasks := tasks } i throws) := by
  have hother : ∀ t : Transfer, ∀ sent : List (Nat × String), (∀ x ∈ s.sent, x ∈ sent) →
      (t.terminalized = false → t.Answered i sent tasks) →
      Cancels { s.set i t with tasks := tasks, sent := sent } := by
    intro t sent hsent ht j hj
    by_cases hji : j = i
    · subst j
      simp only [State.set, Function.update_self] at hj ⊢
      exact ht hj
    · simp only [State.set, Function.update_of_ne hji] at hj ⊢
      exact (H j hj).mono hsent (htasks j hji)
  have hself : ∀ ht : (s.transfers i).terminalized = false,
      (s.transfers i).transferId = none ∨ (s.transfers i).cancelSent = true →
      (s.transfers i).Answered i s.sent tasks := by
    intro ht hdone
    have h := H i ht
    refine ⟨h.sent, fun _ hid => .inl ?_, h.early, h.late⟩
    exact hdone.resolve_left hid
  have hsame : { s.set i (s.transfers i) with tasks := tasks } = { s with tasks := tasks } := by
    simp [State.set]
  rw [State.cancelPreparedTransfer]
  dsimp only
  split
  · rename_i hid
    rw [← hsame]
    exact hother _ s.sent (fun _ h => h) fun ht => hself ht (.inl hid)
  rename_i id hid
  split
  · rename_i hsent
    rw [← hsame]
    exact hother _ s.sent (fun _ h => h) fun ht => hself ht (.inr hsent)
  split
  · -- the message could not be sent: the transfer is terminal or becomes so
    split
    · rename_i hterminal
      refine Cancels.releaseSlot ?_ i
      exact hother _ s.sent (fun _ h => h) fun ht => by
        rw [show (s.transfers i).terminalized = false from ht] at hterminal
        cases hterminal
    · refine cancels_finalize (fun j hji hj => ?_) .error false
      simp only [State.set, Function.update_of_ne hji] at hj ⊢
      exact (H j hj).mono (fun _ h => h) (htasks j hji)
  · refine hother _ _ (fun x hx => List.mem_append_left _ hx) fun ht => ?_
    have h := H i ht
    exact
      { sent := fun _ => ⟨id, hid, by simp⟩
        pending := fun _ _ => .inl rfl
        early := h.early
        late := h.late }

theorem mem_eraseIdx_of_ne {tasks : List Task} {k : Nat} {task x : Task} (hk : tasks[k]? = some task)
    (hx : x ∈ tasks) (hne : x ≠ task) : x ∈ tasks.eraseIdx k := by
  obtain ⟨j, hj⟩ := List.mem_iff_getElem?.mp hx
  refine List.mem_eraseIdx_iff_getElem?.mpr ⟨j, fun h => ?_, hj⟩
  rw [h, hk] at hj
  exact hne (Option.some.inj hj).symm

theorem Cancels.runTask (H : Cancels s) (Hs : Inv s) {k : Nat} {task : Task}
    (hk : s.tasks[k]? = some task) (throws : Bool) :
    Cancels (State.runTask { s with tasks := s.tasks.eraseIdx k } throws task) := by
  have hkeep : (∀ j, task ≠ .cancelPrepared j) → Cancels { s with tasks := s.tasks.eraseIdx k } :=
    fun hne j hj => (H j hj).mono (fun _ h => h) fun h => mem_eraseIdx_of_ne hk h (hne j).symm
  cases task with
  | releaseSlot i => exact (hkeep nofun).releaseSlot i
  | drainQueue => exact (hkeep nofun).drainQueue fun j hj => Hs.queued_of_mem hj
  | cancelPrepared i =>
    refine H.cancelPreparedTransfer throws fun j hj hmem => mem_eraseIdx_of_ne hk hmem ?_
    intro h
    exact hj (Task.cancelPrepared.inj h)

theorem Cancels.cancelTransfer (H : Cancels s) (i : Nat) : Cancels (s.cancelTransfer i) := by
  simp only [State.cancelTransfer]
  split
  · exact H
  have hother : ∀ j, j ≠ i →
      ((s.set i { s.transfers i with cancelRequested := true }).transfers j).terminalized = false →
      ((s.set i { s.transfers i with cancelRequested := true }).transfers j).Answered j
        s.sent s.tasks := by
    intro j hji hj
    simp only [State.set, Function.update_of_ne hji] at hj ⊢
    exact H j hj
  split
  · exact cancels_finalize hother .cancel false
  · intro j hj
    by_cases hji : j = i
    · subst j
      have h := H i (by simpa [State.set, State.emit, State.defer] using hj)
      simp only [State.set, State.emit, State.defer, Function.update_self]
      exact
        { sent := h.sent
          pending := fun _ _ => .inr (by simp)
          early := h.early
          late := h.late }
    · exact (hother j hji hj).mono (fun _ h => h) fun h => List.mem_append_left _ h

theorem Cancels.cancelAcknowledged (H : Cancels s) (i : Nat) (ack : CancelAck) :
    Cancels (s.cancelAcknowledged i ack) := by
  have H' : Cancels { s with acks := s.acks.erase i } := H
  simp only [State.cancelAcknowledged]
  split
  · exact H'.releaseSlot i
  · cases ack with
    | cancelled => exact H'.finalize i .cancel false
    | unavailable => exact H'.finalize i .error false
    | other => exact H'

theorem Cancels.transferFinished (H : Cancels s) (id : String) (status : FinishedStatus) :
    Cancels (s.transferFinished id status) := by
  rw [State.transferFinished]
  split
  · exact H
  rename_i i _
  have hflag : Cancels (s.set i { s.transfers i with serverFinished := true }) :=
    H.set fun ht =>
      have h := H i ht
      ⟨h.sent, h.pending, h.early, h.late⟩
  dsimp only
  split
  · exact H
  cases status with
  | completed =>
    dsimp only
    split
    · exact hflag
    · exact H.finalize i .complete false
  | cancelled => exact H.finalize i .cancel false
  | failed conflict =>
    dsimp only
    split
    · exact hflag
    · exact H.finalize i .error false

/-! ## The operations -/

theorem releaseSlot_terminalized (s : State) (i j : Nat) :
    ((s.releaseSlot i).transfers j).terminalized = (s.transfers j).terminalized := by
  rw [State.releaseSlot]
  split
  · rfl
  · by_cases h : j = i
    · subst j; simp [State.set]
    · simp [State.set, h]

theorem Cancels.catchError (H : Cancels s) (i : Nat) : Cancels (s.catchError i) := by
  simp only [State.catchError]
  split
  · rename_i ht
    split
    · exact (H.releaseSlot i).setPc_of_terminalized (by rw [releaseSlot_terminalized]; exact ht) _
    · exact H.setPc_of_terminalized ht _
  · split
    · split
      · exact (H.finalize i .cancel false).setPc_of_terminalized (finalize_terminalized ..) _
      · rename_i hid
        exact H.setPc (fun _ => hid) rfl
    · exact (H.failOperation i).setPc_of_terminalized (failOperation_terminalized s i) _

theorem Cancels.operationThrows (H : Cancels s) (i : Nat) : Cancels (s.operationThrows i) := by
  rw [State.operationThrows]
  split
  · refine H.set fun ht => ?_
    have h := H i ht
    exact
      { sent := h.sent
        pending := h.pending
        early := fun h => by cases h
        late := fun _ hpc => absurd rfl hpc }
  · exact H.catchError i

/-- Nothing has been sent for the transfer that is about to be prepared. -/
theorem Cancels.prepare (H : Cancels s)
    (hid : (s.transfers i).terminalized = false →
      (s.transfers i).transferId = none ∧ (s.transfers i).cancelSent = false) :
    Cancels (s.prepare i) := by
  refine H.set fun ht => ?_
  obtain ⟨hnone, hsent⟩ := hid ht
  exact
    { sent := fun h => by rw [show (s.transfers i).cancelSent = true from h] at hsent; cases hsent
      pending := fun _ h => absurd hnone h
      early := fun _ => hnone
      late := nofun }

theorem Cancels.runOperation (H : Cancels s) (hpc : (s.transfers i).pc = .scheduled)
    (tooLarge : Bool) : Cancels (s.runOperation i tooLarge) := by
  simp only [State.runOperation]
  split
  · rename_i ht
    exact (H.releaseSlot i).setPc_of_terminalized (by rw [releaseSlot_terminalized]; exact ht) _
  · split
    · exact H.operationThrows i
    · refine H.prepare fun ht => ?_
      have h := H i ht
      have hearly : (s.transfers i).pc.early = true := by rw [hpc]; rfl
      exact ⟨h.early hearly, h.not_sent hearly⟩

theorem Cancels.prepareAcknowledged (H : Cancels s) (hpc : (s.transfers i).pc = .preparing)
    {ack : Option (Option String)} (hack : ack ≠ some none) :
    Cancels (s.prepareAcknowledged i ack) := by
  have hearly : (s.transfers i).pc.early = true := by rw [hpc]; rfl
  rcases ack with _ | _ | id
  · exact H.operationThrows i
  · exact absurd rfl hack
  · have hsent : (s.transfers i).terminalized = false → (s.transfers i).cancelSent = false :=
      fun ht => (H i ht).not_sent hearly
    simp only [State.prepareAcknowledged]
    split
    · -- cancelled while it was prepared: the message follows
      intro j hj
      by_cases hji : j = i
      · subst j
        simp only [State.set, State.defer, Function.update_self] at hj ⊢
        exact
          { sent := fun h => by rw [hsent hj] at h; cases h
            pending := fun _ _ => .inr (by simp)
            early := fun h => by cases h
            late := fun _ _ h => by cases h }
      · simp only [State.set, State.defer, Function.update_of_ne hji] at hj ⊢
        exact (H j hj).mono (fun _ h => h) fun h => List.mem_append_left _ h
    · rename_i hlive
      simp only [Bool.or_eq_true, not_or, Bool.not_eq_true] at hlive
      have hgo : ∀ started pc, pc.early = false → Cancels (s.set i
          { s.transfers i with transferId := some id, started := started, pc := pc }) := by
        intro started pc hpc'
        refine H.set fun ht => ?_
        exact
          { sent := fun h => by
              rw [hsent ht] at h
              cases h
            pending := fun h => by
              rw [show (s.transfers i).cancelRequested = true from h] at hlive
              cases hlive.2
            early := fun h => by rw [show pc.early = true from h] at hpc'; cases hpc'
            late := fun _ _ h => by cases h }
      split
      · split
        · exact hgo true .fetching rfl
        · exact (hgo true .fetching rfl).emit .start
      · exact (hgo _ .navigating rfl).emit .start
      · exact (hgo _ .fetching rfl).emit .start

theorem Cancels.navigated (H : Cancels s) (hpc : (s.transfers i).pc = .navigating) (ok : Bool) :
    Cancels (s.navigated i ok) := by
  rw [State.navigated]
  split
  · exact H.setPc (H.prepared hpc rfl fun h => by cases h) rfl
  · exact H.operationThrows i

/-- The operation ends with the terminal event of the transfer. -/
theorem Cancels.finishWith (H : Cancels s) (i : Nat) (e : Event) (pc : Pc) :
    Cancels ((s.finalize i e false).setPc i pc) :=
  (H.finalize i e false).setPc_of_terminalized (finalize_terminalized ..) pc

theorem Cancels.responded (H : Cancels s) (hpc : (s.transfers i).pc = .fetching)
    (response : Response) : Cancels (s.responded i response) := by
  cases response with
  | ok =>
    rw [State.responded]
    split
    · exact H.setPc (H.prepared hpc rfl fun h => by cases h) rfl
    · exact H.finishWith i .complete .returned
  | notOk => exact H.setPc (H.prepared hpc rfl fun h => by cases h) rfl
  | rejected => exact H.operationThrows i

theorem Cancels.failureRead (H : Cancels s) (hpc : (s.transfers i).pc = .readingFailure)
    (conflict : Bool) : Cancels (s.failureRead i conflict) := by
  simp only [State.failureRead]
  split
  · exact H.operationThrows i
  · exact H.setPc (H.prepared hpc rfl fun h => by cases h) rfl

theorem set_set (s : State) (i : Nat) (t t' : Transfer) : (s.set i t).set i t' = s.set i t' := by
  simp [State.set, Function.update_idem]

theorem Cancels.decided (H : Cancels s) (decision : Decision)
    (hsafe : decision = .replace → (s.transfers i).terminalized = false →
      (s.transfers i).cancelSent = false) : Cancels (s.decided i decision) := by
  cases decision with
  | replace =>
    simp only [State.decided, State.setPc, State.prepare]
    split
    · rename_i ht
      rw [set_set]
      refine H.set fun h => ?_
      simp only [State.set, Function.update_self] at ht h
      rw [ht] at h
      cases h
    · rw [set_set]
      refine H.set fun h => ?_
      simp only [State.set, Function.update_self] at h ⊢
      have hsent := hsafe rfl h
      exact
        { sent := fun h' => by
            rw [show (s.transfers i).cancelSent = true from h'] at hsent
            cases hsent
          pending := fun _ h' => absurd rfl h'
          early := fun _ => rfl
          late := fun h => by cases h }
  | skip => exact H.finishWith i .skip .returned
  | cancel => exact H.finishWith i .cancel .returned
  | rejected => exact H.operationThrows i

theorem Cancels.sunk (H : Cancels s) (hpc : (s.transfers i).pc = .sinking) (ok : Bool) :
    Cancels (s.sunk i ok) := by
  rw [State.sunk]
  split
  · exact H.setPc (H.prepared hpc rfl fun h => by cases h) rfl
  · exact H.operationThrows i

theorem Cancels.piped (H : Cancels s) (i : Nat) (ok : Bool) : Cancels (s.piped i ok) := by
  rw [State.piped]
  split
  · exact H.finishWith i .complete .returned
  · exact H.operationThrows i

/-! ## Runs -/

/-- A granted preparation carries an id, and `onConflict` answers with a replacement only while no
`cancel_transfer` has been sent for the transfer. -/
def Action.Safe (s : State) : Action → Prop
  | .prepareAcknowledged _ ack => ack ≠ some none
  | .decided i decision => decision = .replace → (s.transfers i).terminalized = false →
      (s.transfers i).cancelSent = false
  | _ => True

instance (s : State) (a : Action) : Decidable (a.Safe s) := by
  cases a <;> unfold Action.Safe <;> infer_instance

def State.safeStep (s : State) (a : Action) : Option State := if a.Safe s then s.step a else none

/-- The interleavings whose steps are all safe. -/
def safeSystem : System State Action where
  Init s := s = .init
  Step s a s' := a.Safe s ∧ s.step a = some s'

theorem Cancels.step (H : Cancels s) (Hs : Inv s) {a : Action} (hsafe : a.Safe s)
    (h : s.step a = some s') : Cancels s' := by
  cases a with
  | enqueue kind => cases h; exact H.enqueue Hs kind
  | cancelTransfer i => cases h; exact H.cancelTransfer i
  | task k throws =>
    obtain ⟨task, hk, rfl⟩ := Option.map_eq_some_iff.mp h
    exact H.runTask Hs hk throws
  | runOperation i tooLarge =>
    obtain ⟨hpc, rfl⟩ := State.at_inv h
    exact H.runOperation hpc tooLarge
  | prepareAcknowledged i ack =>
    obtain ⟨hpc, rfl⟩ := State.at_inv h
    exact H.prepareAcknowledged hpc hsafe
  | navigated i ok =>
    obtain ⟨hpc, rfl⟩ := State.at_inv h
    exact H.navigated hpc ok
  | responded i response =>
    obtain ⟨hpc, rfl⟩ := State.at_inv h
    exact H.responded hpc response
  | failureRead i conflict =>
    obtain ⟨hpc, rfl⟩ := State.at_inv h
    exact H.failureRead hpc conflict
  | decided i decision =>
    obtain ⟨hpc, rfl⟩ := State.at_inv h
    exact H.decided decision hsafe
  | sunk i ok =>
    obtain ⟨hpc, rfl⟩ := State.at_inv h
    exact H.sunk hpc ok
  | piped i ok =>
    obtain ⟨hpc, rfl⟩ := State.at_inv h
    exact H.piped i ok
  | aborted i =>
    obtain ⟨hpc, rfl⟩ := State.at_inv h
    exact H.catchError i
  | transferFinished id status => cases h; exact H.transferFinished id status
  | transferProgress i id =>
    cases h
    rw [State.transferProgress]
    split
    · exact H
    · exact H.emit .progress
  | cancelAcknowledged i ack =>
    simp only [State.step] at h
    split at h
    · cases h; exact H.cancelAcknowledged i ack
    · cases h

theorem safe_inv (h : safeSystem.Reachable s) : Inv s ∧ Cancels s := by
  refine h.invariant (P := fun s => Inv s ∧ Cancels s) (fun _ hinit => ?_) fun _ _ _ H hstep => ?_
  · rw [show _ = State.init from hinit]
    exact ⟨.init, .init⟩
  · exact ⟨H.1.step hstep.2, H.2.step H.1 hstep.1 hstep.2⟩

end

/-- The operation has returned and left the transfer cancelled but not terminal; the call of
`cancelPreparedTransfer` it ends with is no longer going on. -/
structure State.LeftCancelled (s : State) (i : Nat) : Prop where
  returned : (s.transfers i).pc = .returned
  cancelRequested : (s.transfers i).cancelRequested = true
  live : (s.transfers i).terminalized = false
  idle : .cancelPrepared i ∉ s.tasks

/-- `cancel_transfer` has been emitted for the server transfer that the local one has now. -/
def State.CancelSent (s : State) (i : Nat) : Prop :=
  ∃ id, (s.transfers i).transferId = some id ∧ (i, id) ∈ s.sent

/-- A cancelled transfer has cancelled its server transfer when its operation has returned, in
every run of safe steps. -/
theorem cancellation_sent {s : State} (h : safeSystem.Reachable s) (i : Nat)
    (hi : s.LeftCancelled i) : s.CancelSent i := by
  have H := (safe_inv h).2 i hi.live
  have hid : (s.transfers i).transferId ≠ none :=
    H.late (by rw [hi.returned]; rfl) (by rw [hi.returned]; nofun)
  exact H.sent ((H.pending hi.cancelRequested hid).resolve_right hi.idle)

/-- The conflict of an upload is resolved by a replacement after the user has cancelled it. -/
def cancelledConflict : List Action :=
  [.enqueue .upload, .runOperation 0 false, .prepareAcknowledged 0 (some (some "t0")),
    .responded 0 .notOk, .failureRead 0 true, .cancelTransfer 0, .task 0 false,
    .decided 0 .replace, .prepareAcknowledged 0 (some (some "t1")), .task 0 false]

theorem cancellation_lost : ∃ s, system.Reachable s ∧ s.LeftCancelled 0 ∧ ¬ s.CancelSent 0 ∧
    (s.transfers 0).transferId = some "t1" ∧ s.sent = [(0, "t0")] ∧
    s.activeOperation = some 0 := by
  have hexec : (cancelledConflict.foldlM State.step .init).any (fun s => decide <|
      ((s.transfers 0).pc = .returned ∧ (s.transfers 0).cancelRequested = true ∧
        (s.transfers 0).terminalized = false ∧ s.tasks = []) ∧
      (s.transfers 0).transferId = some "t1" ∧ s.sent = [(0, "t0")] ∧
      s.activeOperation = some 0) = true := by
    decide
  obtain ⟨s, hs, hd⟩ := (Option.any_eq_true _ _).mp hexec
  obtain ⟨⟨hpc, hreq, hlive, htasks⟩, hid, hsent, hactive⟩ := of_decide_eq_true hd
  refine ⟨s, (System.Reachable.init rfl).run (System.run_of_foldlM (fun _ _ _ h => h) hs),
    ⟨hpc, hreq, hlive, by simp [htasks]⟩, ?_, hid, hsent, hactive⟩
  rintro ⟨id, hid', hmem⟩
  rw [hid] at hid'
  cases hid'
  rw [hsent] at hmem
  simp at hmem

/-- The same upload, cancelled while its conflict is replaced. -/
def cancelledReplacement : List Action :=
  [.enqueue .upload, .runOperation 0 false, .prepareAcknowledged 0 (some (some "t0")),
    .responded 0 .notOk, .failureRead 0 true, .decided 0 .replace, .cancelTransfer 0,
    .prepareAcknowledged 0 (some (some "t1")), .task 0 false, .task 0 false]

theorem cancellation_sent_replacement : ∃ s, safeSystem.Reachable s ∧ s.LeftCancelled 0 ∧
    s.CancelSent 0 ∧ (s.transfers 0).transferId = some "t1" := by
  have hexec : (cancelledReplacement.foldlM State.safeStep .init).any (fun s => decide <|
      (s.transfers 0).pc = .returned ∧ (s.transfers 0).cancelRequested = true ∧
        (s.transfers 0).terminalized = false ∧ s.tasks = [] ∧
        (s.transfers 0).transferId = some "t1") = true := by
    decide
  obtain ⟨s, hs, hd⟩ := (Option.any_eq_true _ _).mp hexec
  obtain ⟨hpc, hreq, hlive, htasks, hid⟩ := of_decide_eq_true hd
  have hreach : safeSystem.Reachable s := by
    refine (System.Reachable.init rfl).run (System.run_of_foldlM (fun s a t h => ?_) hs)
    rw [State.safeStep] at h
    split at h
    · exact ⟨‹_›, h⟩
    · cases h
  have hleft : s.LeftCancelled 0 := ⟨hpc, hreq, hlive, by simp [htasks]⟩
  exact ⟨s, hreach, hleft, cancellation_sent hreach 0 hleft, hid⟩

end WebSSH.Client
