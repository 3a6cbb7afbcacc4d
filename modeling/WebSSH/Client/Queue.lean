import WebSSH.Client.Invariant
import Mathlib

/-!
# The transfer queue of the client

One lemma for each method, one for each step, and what follows for every interleaving: a slot
that is taken and not released belongs to the active operation, operations begin and emit `start`
in the order of `enqueue`, a terminal event is the last event of its transfer, and each slot is
released once.
-/

namespace WebSSH.Client
open Lib

set_option autoImplicit false

section
variable {s : State} {i : Nat}

/-! ## What methods leave alone -/

namespace State

@[simp] theorem set_created (t : Transfer) : (s.set i t).created = s.created := rfl
@[simp] theorem set_begun (t : Transfer) : (s.set i t).begun = s.begun := rfl
@[simp] theorem set_log (t : Transfer) : (s.set i t).log = s.log := rfl
@[simp] theorem set_acks (t : Transfer) : (s.set i t).acks = s.acks := rfl
@[simp] theorem set_self (t : Transfer) : (s.set i t).transfers i = t := by simp [set]

@[simp] theorem releaseSlot_created : (s.releaseSlot i).created = s.created := by
  rw [releaseSlot]; split <;> rfl

@[simp] theorem releaseSlot_begun : (s.releaseSlot i).begun = s.begun := by
  rw [releaseSlot]; split <;> rfl

@[simp] theorem finalize_created (e : Event) (d : Bool) :
    (s.finalize i e d).created = s.created := by
  rw [finalize]; split
  · rfl
  · cases d <;> rfl

@[simp] theorem finalize_begun (e : Event) (d : Bool) : (s.finalize i e d).begun = s.begun := by
  rw [finalize]; split
  · rfl
  · cases d <;> rfl

@[simp] theorem failOperation_begun : (s.failOperation i).begun = s.begun := by
  simp only [failOperation]
  split
  · exact finalize_begun ..
  · exact finalize_begun ..

theorem releaseSlot_idle (h : s.activeOperation = none) :
    (s.releaseSlot i).activeOperation = none := by
  rw [releaseSlot]; split
  · exact h
  · simp [h]

end State

/-! ## Patches -/

theorem Patch.setPc {t : Transfer} {pc : Pc} (hlate : pc.early = false)
    (hfits : pc.fits t.kind = true) : Patch t { t with pc := pc } where
  terminalized := rfl
  slotReleased := rfl
  mayStart h := by
    unfold Transfer.mayStart at h ⊢
    cases hk : t.kind with
    | upload => simpa [hk] using h
    | download | writable => exact hlate
  ok h := ⟨h.released, hfits⟩

theorem Inv.setPc (H : Inv s) (hi : i ∈ s.begun) {pc : Pc} (hlate : pc.early = false)
    (hfits : pc.fits (s.transfers i).kind = true) : Inv (s.setPc i pc) :=
  H.patch (.setPc hlate hfits) fun _ => hi

theorem Inv.return (H : Inv s) (hi : i ∈ s.begun) : Inv (s.setPc i .returned) :=
  H.setPc hi rfl rfl

/-- Flags that the invariant does not count. -/
theorem Inv.flags (H : Inv s) (transferId : Option String) (cancelRequested cancelSent
    serverFinished replacing : Bool) :
    Inv (s.set i { s.transfers i with
      transferId := transferId, cancelRequested := cancelRequested, cancelSent := cancelSent,
      serverFinished := serverFinished, replacing := replacing }) :=
  H.patch ⟨rfl, rfl, id, fun h => ⟨h.released, h.fits⟩⟩ (H.waiting i)

/-! ## Terminal events and slots -/

theorem Inv.finalize (H : Inv s) (hi : i < s.created) {e : Event} (he : e ≠ .start) (d : Bool) :
    Inv (s.finalize i e d) := by
  rw [State.finalize]
  split
  · exact H
  rename_i ht
  have H' := H.terminalize hi he (by simpa using ht)
  cases d with
  | true => exact H'
  | false =>
    refine H'.defer (fun j hj => ?_) fun j hj => ?_
    · cases hj; exact hi
    · cases hj; simp [State.set, State.emit]

theorem Inv.failOperation (H : Inv s) (hi : i < s.created) : Inv (s.failOperation i) := by
  simp only [State.failOperation]
  have H' := fun d => H.finalize hi (e := .error) nofun d
  split
  · refine (H' _).defer (fun j hj => ?_) nofun
    cases hj
    simpa using hi
  · exact H' _

theorem Inv.cancelPreparedTransfer (H : Inv s) (hi : i < s.created) (throws : Bool) :
    Inv (s.cancelPreparedTransfer i throws) := by
  rw [State.cancelPreparedTransfer]
  dsimp only
  split
  · exact H
  rename_i id _
  split
  · exact H
  have H' : Inv (s.set i { s.transfers i with cancelSent := true }) := H.flags _ _ _ _ _
  split
  · split
    · exact H'.releaseSlot hi (by simpa)
    · exact H'.finalize hi (e := .error) nofun false
  · refine H'.aside s.tasks (s.acks ++ [i]) (s.sent ++ [(i, id)]) (fun j hj => H.taskBound hj)
      H'.pending ?_
    intro j hj
    rcases List.mem_append.mp hj with hj | hj
    · exact H.ackBound hj
    · rw [List.mem_singleton.mp hj]; exact hi

/-! ## The queue -/

theorem Inv.queued (H : Inv s) {j : Nat} (h : j ∈ s.operationQueue) : j < s.created :=
  H.known j (by simp only [State.mentioned, List.mem_append]; tauto)

/-- The head of the queue is taken off. -/
theorem Inv.shift (H : Inv s) {rest : List Nat} (hq : s.operationQueue = i :: rest) :
    Inv { s with operationQueue := rest } :=
  { H with
    known := by
      intro j hj
      have := H.known j
      simp only [State.mentioned, List.mem_append, hq, List.mem_cons] at this hj
      exact this (by tauto)
    queue := (List.pairwise_cons.mp (hq ▸ H.queue)).2
    fifo := fun b hb q hq' => H.fifo b hb q (by rw [hq]; exact List.mem_cons_of_mem _ hq') }

/-- The head of the queue becomes the active operation. -/
theorem Inv.begin_ (H : Inv s) {rest : List Nat} (hq : s.operationQueue = i :: rest)
    (hidle : s.activeOperation = none) (ht : (s.transfers i).terminalized = false) :
    Inv { s with operationQueue := rest, activeOperation := some i, begun := s.begun ++ [i] } := by
  have hi : i ∈ s.operationQueue := hq ▸ List.mem_cons_self
  have hfree : (s.transfers i).slotReleased = false := by
    cases h : (s.transfers i).slotReleased with
    | false => rfl
    | true => rw [(H.ok i).released h] at ht; cases ht
  refine { H.shift hq with
    known := ?_, waiting := ?_, started := ?_, begun := ?_, fifo := ?_, active := ?_, single := ?_ }
  · intro j hj
    have := H.known j
    simp only [State.mentioned, List.mem_append, hq, List.mem_cons, List.not_mem_nil,
      or_false] at this hj
    exact this (by tauto)
  · intro j hj
    exact List.mem_append_left _ (H.waiting j hj)
  · intro j hj
    exact ⟨List.mem_append_left _ (H.started j hj).1, (H.started j hj).2⟩
  · refine List.pairwise_append.mpr ⟨H.begun, List.pairwise_singleton _ _, fun b hb c hc => ?_⟩
    rw [List.mem_singleton.mp hc]
    exact H.fifo b hb i hi
  · intro b hb q hq'
    rcases List.mem_append.mp hb with hb | hb
    · exact H.fifo b hb q (by rw [hq]; exact List.mem_cons_of_mem _ hq')
    · rw [List.mem_singleton.mp hb]
      exact (List.pairwise_cons.mp (hq ▸ H.queue)).1 q hq'
  · intro j hj
    cases hj
    refine ⟨by simp, hfree, fun b hb => ?_⟩
    rcases List.mem_append.mp hb with hb | hb
    · exact Nat.le_of_lt (H.fifo b hb i hi)
    · exact Nat.le_of_eq (List.mem_singleton.mp hb)
  · intro j hj hfree
    rcases List.mem_append.mp hj with hj | hj
    · have := H.single j hj hfree
      rw [hidle] at this
      cases this
    · rw [List.mem_singleton.mp hj]

theorem Inv.drainLoop (n : Nat) (H : Inv s) (hidle : s.activeOperation = none) :
    Inv (State.drainLoop n s) := by
  induction n generalizing s with
  | zero => exact H
  | succ n ih =>
    rw [State.drainLoop]
    split
    · exact H
    rename_i i rest hq
    have hi : i ∈ s.operationQueue := hq ▸ List.mem_cons_self
    dsimp only
    split
    · rename_i ht
      exact ih ((H.shift hq).releaseSlot (H.queued hi) ht) (State.releaseSlot_idle hidle)
    · rename_i ht
      -- The head has not begun, so its operation has not run.
      have hpc : (s.transfers i).pc = .queued := by
        by_contra h
        exact Nat.lt_irrefl i (H.fifo i (H.waiting i h) i hi)
      refine (H.begin_ hq hidle (by simpa using ht)).patch ⟨rfl, rfl, fun h => ?_, fun h => ?_⟩ ?_
      · unfold Transfer.mayStart at h ⊢
        cases hk : (s.transfers i).kind with
        | upload => simpa [hk] using h
        | download | writable => simp [hk, hpc, Pc.early] at h
      · exact ⟨h.released, rfl⟩
      · intro _
        simp

theorem Inv.drainQueue (H : Inv s) : Inv s.drainQueue := by
  rw [State.drainQueue]
  split
  · exact H
  · rename_i h
    exact H.drainLoop _ (by simpa using h)

/-- A new transfer joins the queue. -/
theorem Inv.join (H : Inv s) (kind : Kind) :
    Inv { s.set s.created (.new kind) with
      created := s.created + 1
      activeTransfers := s.activeTransfers ++ [s.created]
      operationQueue := s.operationQueue ++ [s.created] } := by
  have hne : ∀ {j}, j ∈ s.mentioned → j ≠ s.created := fun h => Nat.ne_of_lt (H.known _ h)
  have hbegun : ∀ {j}, j ∈ s.begun → j ≠ s.created := fun h => hne (by simp [State.mentioned, h])
  refine { H with
    known := ?_, ok := ?_, pending := ?_, waiting := ?_, live := ?_, started := ?_, released := ?_
    queue := ?_, fifo := ?_, active := ?_, single := ?_ }
  · intro j hj
    have := H.known j
    simp only [State.mentioned, State.set, List.mem_append, List.mem_singleton] at this hj
    by_cases h : j = s.created
    · exact Nat.lt_succ_of_le (Nat.le_of_eq h)
    · exact Nat.lt_succ_of_lt (this (by tauto))
  · intro j
    by_cases h : j = s.created
    · subst j
      simp only [State.set, Function.update_self]
      exact ⟨(fun h => by cases h), by cases kind <;> rfl⟩
    · simpa [State.set, h] using H.ok j
  · intro j hj
    have h : j ≠ s.created := by
      refine Nat.ne_of_lt (H.taskBound (List.mem_filterMap.mpr ⟨_, hj, rfl⟩))
    simpa [State.set, h] using H.pending j hj
  · intro j hj
    by_cases h : j = s.created
    · subst j
      simp [State.set, Transfer.new] at hj
    · exact H.waiting j (by simpa [State.set, h] using hj)
  · intro j hj e he
    by_cases h : j = s.created
    · subst j
      obtain ⟨x, hx, rfl⟩ := List.mem_map.mp he
      have hx := List.mem_filter.mp hx
      refine absurd (of_decide_eq_true hx.2) (hne ?_)
      have := List.mem_map_of_mem (f := Prod.fst) hx.1
      simp only [State.mentioned, List.mem_append]
      tauto
    · exact H.live j (by simpa [State.set, h] using hj) e he
  · intro j hj
    have := H.started j hj
    exact ⟨this.1, by simpa [State.set, hbegun this.1] using this.2⟩
  · intro j hj
    have h : j ≠ s.created := hne (by simp only [State.mentioned, List.mem_append]; tauto)
    simpa [State.set, h] using H.released j hj
  · refine List.pairwise_append.mpr ⟨H.queue, List.pairwise_singleton _ _, fun b hb c hc => ?_⟩
    rw [List.mem_singleton.mp hc]
    exact H.queued hb
  · intro b hb q hq
    rcases List.mem_append.mp hq with hq | hq
    · exact H.fifo b hb q hq
    · rw [List.mem_singleton.mp hq]
      exact H.lt_of_begun hb
  · intro j hj
    obtain ⟨hb, hfree, hmax⟩ := H.active j hj
    exact ⟨hb, by simpa [State.set, hbegun hb] using hfree, hmax⟩
  · intro j hj hfree
    exact H.single j hj (by simpa [State.set, hbegun hj] using hfree)

theorem Inv.enqueue (H : Inv s) (kind : Kind) : Inv (s.enqueue kind) :=
  (H.join kind).drainQueue

/-! ## The operations -/

theorem Inv.catchError (H : Inv s) (hi : i ∈ s.begun) : Inv (s.catchError i) := by
  have hlt := H.lt_of_begun hi
  rw [State.catchError]
  split
  · rename_i ht
    split
    · exact (H.releaseSlot hlt ht).return (by simpa)
    · exact H.return hi
  · split
    · split
      · exact (H.finalize hlt (e := .cancel) nofun false).return (by simpa)
      · exact H.return hi
    · exact (H.failOperation hlt).return (by simpa)

theorem Inv.operationThrows (H : Inv s) (hi : i ∈ s.begun) : Inv (s.operationThrows i) := by
  rw [State.operationThrows]
  split
  · exact H.setPc hi rfl rfl
  · exact H.catchError hi

/-- A download prepares once, right after it is scheduled; an upload emits `start` once anyway. -/
theorem Inv.prepare (H : Inv s) (hi : i ∈ s.begun)
    (h : (s.transfers i).kind = .upload ∨ (s.transfers i).pc = .scheduled) :
    Inv (s.prepare i) := by
  refine H.patch ⟨rfl, rfl, fun hm => ?_, fun hok => ⟨hok.released, rfl⟩⟩ fun _ => hi
  unfold Transfer.mayStart at hm ⊢
  cases hk : (s.transfers i).kind with
  | upload => simpa [hk] using hm
  | download | writable =>
    rcases h with h | h
    · rw [hk] at h; cases h
    · simp [hk, h, Pc.early] at hm

theorem Inv.runOperation (H : Inv s) (hpc : (s.transfers i).pc = .scheduled) (tooLarge : Bool) :
    Inv (s.runOperation i tooLarge) := by
  have hi := H.mem_begun hpc nofun
  rw [State.runOperation]
  split
  · rename_i ht
    exact (H.releaseSlot (H.lt_of_begun hi) ht).return (by simpa)
  · split
    · exact H.operationThrows hi
    · exact H.prepare hi (.inr hpc)

/-- An operation that waits for its acknowledgement and may still emit `start` has not done so. -/
theorem Inv.not_started (H : Inv s) (h : (s.transfers i).mayStart = true) : i ∉ startsOf s.log := by
  intro hi
  rw [(H.started i hi).2] at h
  cases h

theorem Inv.prepareAcknowledged (H : Inv s) (hpc : (s.transfers i).pc = .preparing)
    (ack : Option (Option String)) : Inv (s.prepareAcknowledged i ack) := by
  have hi := H.mem_begun hpc nofun
  cases ack with
  | none => exact H.operationThrows hi
  | some transferId =>
    rw [State.prepareAcknowledged]
    dsimp only
    split
    · refine Inv.defer (H.patch (t := { s.transfers i with transferId := transferId
                                                           pc := .returned })
        ⟨rfl, rfl, fun h => ?_, fun h => ⟨h.released, rfl⟩⟩ fun _ => hi) ?_ nofun
      · unfold Transfer.mayStart at h ⊢
        cases hk : (s.transfers i).kind with
        | upload => simpa [hk] using h
        | download | writable => rfl
      · intro j hj
        cases hj
        exact H.lt_of_begun hi
    · rename_i hlive
      have ht : (s.transfers i).terminalized = false := by
        cases h : (s.transfers i).terminalized with
        | false => rfl
        | true => simp [h] at hlive
      split
      · rename_i hk
        have H' : Inv (s.set i { s.transfers i with
            transferId := transferId, started := true, pc := .fetching }) := by
          refine H.patch ⟨rfl, rfl, fun _ => ?_, fun h => ⟨h.released, ?_⟩⟩ fun _ => hi
          · simp [Transfer.mayStart, hk]
          · simp only [hk]; rfl
        split
        · exact H'
        · rename_i hs
          refine H'.emit_start hi (by simpa) (H.not_started ?_) ?_
          · simpa [Transfer.mayStart, hk] using hs
          · simp [Transfer.mayStart, hk]
      · rename_i hk
        refine Inv.emit_start (H.patch ⟨rfl, rfl, fun _ => ?_, fun h => ⟨h.released, ?_⟩⟩
          fun _ => hi) hi (by simpa) (H.not_started ?_) ?_
        · simp [Transfer.mayStart, hk, Pc.early]
        · rfl
        · simp [Transfer.mayStart, hk, hpc, Pc.early]
        · simp [Transfer.mayStart, hk, Pc.early]
      · rename_i hk
        refine Inv.emit_start (H.patch ⟨rfl, rfl, fun _ => ?_, fun h => ⟨h.released, ?_⟩⟩
          fun _ => hi) hi (by simpa) (H.not_started ?_) ?_
        · simp [Transfer.mayStart, hk, Pc.early]
        · simp only [hk]; rfl
        · simp [Transfer.mayStart, hk, hpc, Pc.early]
        · simp [Transfer.mayStart, hk, Pc.early]

theorem Inv.navigated (H : Inv s) (hi : i ∈ s.begun) (ok : Bool) : Inv (s.navigated i ok) := by
  rw [State.navigated]
  split
  · exact H.return hi
  · exact H.operationThrows hi

theorem Inv.finishWith (H : Inv s) (hi : i ∈ s.begun) {e : Event} (he : e ≠ .start) :
    Inv ((s.finalize i e false).setPc i .returned) :=
  (H.finalize (H.lt_of_begun hi) he false).return (by simpa)

theorem Inv.responded (H : Inv s) (hpc : (s.transfers i).pc = .fetching) (response : Response) :
    Inv (s.responded i response) := by
  have hi := H.mem_begun hpc nofun
  cases response with
  | ok =>
    rw [State.responded]
    split
    · exact H.setPc hi rfl rfl
    · exact H.finishWith hi nofun
  | notOk =>
    have hfits := (H.ok i).fits
    exact H.setPc hi rfl (by cases hk : (s.transfers i).kind <;> simp_all [Pc.fits])
  | rejected => exact H.operationThrows hi

theorem Inv.failureRead (H : Inv s) (hpc : (s.transfers i).pc = .readingFailure)
    (conflict : Bool) : Inv (s.failureRead i conflict) := by
  have hi := H.mem_begun hpc nofun
  rw [State.failureRead]
  split
  · exact H.operationThrows hi
  · rename_i h
    have hfits := (H.ok i).fits
    exact H.setPc hi rfl (by cases hk : (s.transfers i).kind <;> simp_all [Pc.fits])

theorem Inv.decided (H : Inv s) (hpc : (s.transfers i).pc = .deciding) (decision : Decision) :
    Inv (s.decided i decision) := by
  have hi := H.mem_begun hpc nofun
  cases decision with
  | replace =>
    have H' := H.flags (i := i) none (s.transfers i).cancelRequested (s.transfers i).cancelSent
      false true
    have hfits := (H.ok i).fits
    rw [State.decided]
    dsimp only
    split
    · exact H'.return hi
    · refine H'.prepare hi (.inl ?_)
      simp only [State.set_self]
      cases hk : (s.transfers i).kind <;> simp_all [Pc.fits]
  | skip => exact H.finishWith hi nofun
  | cancel => exact H.finishWith hi nofun
  | rejected => exact H.operationThrows hi

theorem Inv.sunk (H : Inv s) (hi : i ∈ s.begun) (ok : Bool) : Inv (s.sunk i ok) := by
  rw [State.sunk]
  split
  · exact H.setPc hi rfl rfl
  · exact H.operationThrows hi

theorem Inv.piped (H : Inv s) (hi : i ∈ s.begun) (ok : Bool) : Inv (s.piped i ok) := by
  rw [State.piped]
  split
  · exact H.finishWith hi nofun
  · exact H.operationThrows hi

/-! ## Callers and socket events -/

theorem Inv.cancelTransfer (H : Inv s) (i : Nat) : Inv (s.cancelTransfer i) := by
  rw [State.cancelTransfer]
  dsimp only
  split
  · exact H
  rename_i h
  simp only [not_or, Decidable.not_not] at h
  have hlt := H.listed h.1
  have H' : Inv (s.set i { s.transfers i with cancelRequested := true }) := H.flags _ _ _ _ _
  split
  · exact H'.finalize hlt (e := .cancel) nofun false
  · refine Inv.defer (H'.emit hlt (e := .cancelling) rfl nofun (by simpa using h.2.1)) (fun j hj => ?_)
      nofun
    cases hj
    exact hlt

theorem Inv.cancelAcknowledged (H : Inv s) (hi : i ∈ s.acks) (ack : CancelAck) :
    Inv (s.cancelAcknowledged i ack) := by
  have hlt := H.ackBound hi
  have H' : Inv { s with acks := s.acks.erase i } :=
    H.aside s.tasks _ s.sent (fun j hj => H.taskBound hj) H.pending
      fun j hj => H.ackBound (List.mem_of_mem_erase hj)
  simp only [State.cancelAcknowledged]
  split
  · rename_i ht
    exact H'.releaseSlot hlt ht
  · cases ack with
    | cancelled => exact H'.finalize hlt (e := .cancel) nofun false
    | unavailable => exact H'.finalize hlt (e := .error) nofun false
    | other => exact H'

theorem Inv.transferFinished (H : Inv s) (id : String) (status : FinishedStatus) :
    Inv (s.transferFinished id status) := by
  rw [State.transferFinished]
  split
  · exact H
  rename_i i hfind
  have hlt := H.listed (List.mem_of_find?_eq_some hfind)
  have hflag : Inv (s.set i { s.transfers i with serverFinished := true }) := H.flags _ _ _ _ _
  dsimp only
  split
  · exact H
  cases status with
  | completed =>
    dsimp only
    split
    · exact hflag
    · exact H.finalize hlt (e := .complete) nofun false
  | cancelled => exact H.finalize hlt (e := .cancel) nofun false
  | failed conflict =>
    dsimp only
    split
    · exact hflag
    · exact H.finalize hlt (e := .error) nofun false

theorem Inv.transferProgress (H : Inv s) (i : Nat) (id : String) :
    Inv (s.transferProgress i id) := by
  rw [State.transferProgress]
  split
  · exact H
  rename_i h
  simp only [not_or, Decidable.not_not] at h
  exact H.emit (H.listed h.1) (e := .progress) rfl nofun (by simpa using h.2.2)

/-- When only the last event may be terminal, at most one is. -/
theorem countP_terminal_le {es : List Event} (h : es.Pairwise fun e _ => e.terminal = false) :
    es.countP Event.terminal ≤ 1 := by
  induction h with
  | nil => exact Nat.zero_le 1
  | @cons e es he _ ih =>
    cases es with
    | nil => exact List.countP_le_length
    | cons e' es => simpa [List.countP_cons, he e' List.mem_cons_self] using ih

/-! ## Every interleaving -/

theorem Inv.runTask (H : Inv s) {k : Nat} {task : Task} (hk : s.tasks[k]? = some task)
    (throws : Bool) : Inv (State.runTask { s with tasks := s.tasks.eraseIdx k } throws task) := by
  have hmem : task ∈ s.tasks := List.mem_of_getElem? hk
  have hkeep : ∀ {x}, x ∈ s.tasks.eraseIdx k → x ∈ s.tasks := fun h => List.mem_of_mem_eraseIdx h
  have H' : Inv { s with tasks := s.tasks.eraseIdx k } := by
    refine H.aside _ s.acks s.sent (fun j hj => ?_) (fun j hj => H.pending j (hkeep hj))
      fun j hj => H.ackBound hj
    obtain ⟨x, hx, hxj⟩ := List.mem_filterMap.mp hj
    exact H.taskBound (List.mem_filterMap.mpr ⟨x, hkeep hx, hxj⟩)
  cases task with
  | releaseSlot i =>
    exact H'.releaseSlot (H.taskBound (List.mem_filterMap.mpr ⟨_, hmem, rfl⟩)) (H.pending i hmem)
  | cancelPrepared i =>
    exact H'.cancelPreparedTransfer (H.taskBound (List.mem_filterMap.mpr ⟨_, hmem, rfl⟩)) throws
  | drainQueue => exact H'.drainQueue

theorem State.at_inv {pc : Pc} {s' t : State} (h : State.step.at_ s i pc s' = some t) :
    (s.transfers i).pc = pc ∧ s' = t := by
  rw [State.step.at_] at h
  split at h
  · cases h; exact ⟨‹_›, rfl⟩
  · cases h

theorem Inv.step (H : Inv s) {a : Action} {s' : State} (h : s.step a = some s') : Inv s' := by
  cases a with
  | enqueue kind => cases h; exact H.enqueue kind
  | cancelTransfer i => cases h; exact H.cancelTransfer i
  | task k throws =>
    obtain ⟨task, hk, rfl⟩ := Option.map_eq_some_iff.mp h
    exact H.runTask hk throws
  | runOperation i tooLarge =>
    obtain ⟨hpc, rfl⟩ := State.at_inv h
    exact H.runOperation hpc tooLarge
  | prepareAcknowledged i ack =>
    obtain ⟨hpc, rfl⟩ := State.at_inv h
    exact H.prepareAcknowledged hpc ack
  | navigated i ok =>
    obtain ⟨hpc, rfl⟩ := State.at_inv h
    exact H.navigated (H.mem_begun hpc nofun) ok
  | responded i response =>
    obtain ⟨hpc, rfl⟩ := State.at_inv h
    exact H.responded hpc response
  | failureRead i conflict =>
    obtain ⟨hpc, rfl⟩ := State.at_inv h
    exact H.failureRead hpc conflict
  | decided i decision =>
    obtain ⟨hpc, rfl⟩ := State.at_inv h
    exact H.decided hpc decision
  | sunk i ok =>
    obtain ⟨hpc, rfl⟩ := State.at_inv h
    exact H.sunk (H.mem_begun hpc nofun) ok
  | piped i ok =>
    obtain ⟨hpc, rfl⟩ := State.at_inv h
    exact H.piped (H.mem_begun hpc nofun) ok
  | aborted i =>
    obtain ⟨hpc, rfl⟩ := State.at_inv h
    exact H.catchError (H.mem_begun hpc nofun)
  | transferFinished id status => cases h; exact H.transferFinished id status
  | transferProgress i id => cases h; exact H.transferProgress i id
  | cancelAcknowledged i ack =>
    simp only [State.step] at h
    split at h
    · cases h; exact H.cancelAcknowledged ‹_› ack
    · cases h

theorem reachable_inv (h : system.Reachable s) : Inv s :=
  h.invariant (fun _ hinit => hinit ▸ .init) fun _ _ _ H hstep => H.step hstep

end

/-- A transfer has begun and its slot is not released. -/
def State.Running (s : State) (i : Nat) : Prop :=
  i ∈ s.begun ∧ (s.transfers i).slotReleased = false

/-- For every interleaving: the active operation is the only one that runs, transfers begin and
emit `start` in the order of `enqueue`, nothing follows a terminal event of the same transfer, and
every slot is released at most once. -/
theorem transfer_queue {s : State} (h : system.Reachable s) :
    (∀ i, s.Running i ↔ s.activeOperation = some i) ∧
    s.begun.Pairwise (· < ·) ∧ (∀ i ∈ s.begun, ∀ j ∈ s.operationQueue, i < j) ∧
    (startsOf s.log).Pairwise (· < ·) ∧ (∀ i ∈ startsOf s.log, i ∈ s.begun) ∧
    (∀ i, (eventsOf i s.log).Pairwise fun e _ => e.terminal = false) ∧
    (∀ i, (eventsOf i s.log).countP Event.terminal ≤ 1) ∧
    ∀ i, s.released.count i ≤ 1 := by
  have H := reachable_inv h
  refine ⟨fun i => ⟨fun hi => H.single i hi.1 hi.2, fun hi => ?_⟩, H.begun, H.fifo, H.starts,
    fun i hi => (H.started i hi).1, H.silent, fun i => ?_, fun i => ?_⟩
  · exact ⟨(H.active i hi).1, (H.active i hi).2.1⟩
  · exact countP_terminal_le (H.silent i)
  · exact List.nodup_iff_count_le_one.mp H.once i

/-- An upload that is cancelled, and a download that waits behind it. -/
def cancelledUpload : List Action :=
  [.enqueue .upload, .enqueue .download, .runOperation 0 false,
    .prepareAcknowledged 0 (some (some "t0")), .cancelTransfer 0, .task 0 false,
    .responded 0 .rejected, .cancelAcknowledged 0 .cancelled, .task 0 false, .task 0 false,
    .runOperation 1 false, .prepareAcknowledged 1 (some (some "t1"))]

theorem transfer_queue_cancelledUpload : ∃ s, system.Reachable s ∧
    s.log = [(0, .start), (0, .cancelling), (0, .cancel), (1, .start)] ∧ s.released = [0] ∧
    ∀ i, s.Running i ↔ i = 1 := by
  have hexec : (cancelledUpload.foldlM State.step .init).any (fun s => decide <|
      s.log = [(0, .start), (0, .cancelling), (0, .cancel), (1, .start)] ∧ s.released = [0] ∧
      s.activeOperation = some 1) = true := by
    decide
  obtain ⟨s, hs, hlog⟩ := (Option.any_eq_true _ _).mp hexec
  obtain ⟨hlog, hreleased, hactive⟩ := of_decide_eq_true hlog
  have hr : system.Reachable s :=
    (System.Reachable.init rfl).run (System.run_of_foldlM (fun _ _ _ h => h) hs)
  refine ⟨s, hr, hlog, hreleased, fun i => (transfer_queue hr).1 i |>.trans ?_⟩
  rw [hactive, Option.some.injEq, eq_comm]

end WebSSH.Client
