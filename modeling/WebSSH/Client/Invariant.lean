import WebSSH.Client.Transfers
import Mathlib.Data.List.Basic

/-!
# The invariant of the transfer client

Every method changes one transfer at a time, in one of four ways: it patches the record and leaves
the terminal flags alone (`Inv.patch`), emits an event that is not terminal (`Inv.emit`,
`Inv.emit_start`), terminalizes the transfer with its terminal event (`Inv.finalize`), or releases
its slot (`Inv.releaseSlot`). The queue moves in `drainQueue` and `enqueue` only.
-/

namespace WebSSH.Client
open Lib

set_option autoImplicit false

/-- The operation has not emitted `start` when it waits here, unless it prepares again. -/
def Pc.early : Pc → Bool
  | .queued | .scheduled | .preparing => true
  | _ => false

/-- Operations of this kind wait here. -/
def Pc.fits : Pc → Kind → Bool
  | .fetching, .download | .readingFailure, .download => false
  | .deciding, .download | .deciding, .writable => false
  | _, _ => true

/-- The transfer may still emit `start`. -/
def Transfer.mayStart (t : Transfer) : Bool :=
  match t.kind with
  | .upload => !t.started
  | .download | .writable => t.pc.early

/-- What holds of each record. -/
structure Transfer.OK (t : Transfer) : Prop where
  released : t.slotReleased = true → t.terminalized = true
  fits : t.pc.fits t.kind = true

def Task.transfer : Task → Option Nat
  | .releaseSlot i | .cancelPrepared i => some i
  | .drainQueue => none

/-- Every transfer that the state names. -/
def State.mentioned (s : State) : List Nat :=
  s.operationQueue ++ s.begun ++ s.released ++ s.log.map Prod.fst ++ s.activeTransfers ++
    s.tasks.filterMap Task.transfer ++ s.acks

/-- The events of one transfer, in order. -/
def eventsOf (i : Nat) (log : List (Nat × Event)) : List Event :=
  (log.filter fun x => x.1 = i).map Prod.snd

/-- The transfers that have emitted `start`, in order. -/
def startsOf (log : List (Nat × Event)) : List Nat :=
  (log.filter fun x => x.2 = .start).map Prod.fst

structure Inv (s : State) : Prop where
  known : ∀ i ∈ s.mentioned, i < s.created
  ok : ∀ i, (s.transfers i).OK
  pending : ∀ i, .releaseSlot i ∈ s.tasks → (s.transfers i).terminalized = true
  waiting : ∀ i, (s.transfers i).pc ≠ .queued → i ∈ s.begun
  silent : ∀ i, (eventsOf i s.log).Pairwise fun e _ => e.terminal = false
  live : ∀ i, (s.transfers i).terminalized = false → ∀ e ∈ eventsOf i s.log, e.terminal = false
  starts : (startsOf s.log).Pairwise (· < ·)
  started : ∀ i ∈ startsOf s.log, i ∈ s.begun ∧ (s.transfers i).mayStart = false
  once : s.released.Nodup
  released : ∀ i ∈ s.released, (s.transfers i).slotReleased = true
  begun : s.begun.Pairwise (· < ·)
  queue : s.operationQueue.Pairwise (· < ·)
  fifo : ∀ b ∈ s.begun, ∀ q ∈ s.operationQueue, b < q
  active : ∀ i, s.activeOperation = some i →
    i ∈ s.begun ∧ (s.transfers i).slotReleased = false ∧ ∀ b ∈ s.begun, b ≤ i
  single : ∀ i ∈ s.begun, (s.transfers i).slotReleased = false → s.activeOperation = some i

theorem Inv.init : Inv .init where
  known _ h := by cases h
  ok _ := ⟨nofun, rfl⟩
  pending _ h := by cases h
  waiting _ h := absurd rfl h
  silent _ := .nil
  live _ _ _ h := by cases h
  starts := .nil
  started _ h := by cases h
  once := .nil
  released _ h := by cases h
  begun := .nil
  queue := .nil
  fifo _ h := by cases h
  active _ h := by cases h
  single _ h := by cases h

section
variable {s s' : State} {i : Nat} {t : Transfer}

theorem eventsOf_append (j : Nat) (log : List (Nat × Event)) (e : Event) :
    eventsOf j (log ++ [(i, e)]) = eventsOf j log ++ if j = i then [e] else [] := by
  by_cases h : j = i
  · subst j; simp [eventsOf]
  · simp [eventsOf, h, Ne.symm h]

theorem startsOf_append (log : List (Nat × Event)) (e : Event) :
    startsOf (log ++ [(i, e)]) = startsOf log ++ if e = .start then [i] else [] := by
  by_cases h : e = .start
  · subst e; simp [startsOf]
  · simp [startsOf, h]

/-! ## Patches of a record -/

/-- `t'` differs from `t` in what the invariant does not count. -/
structure Patch (t t' : Transfer) : Prop where
  terminalized : t'.terminalized = t.terminalized
  slotReleased : t'.slotReleased = t.slotReleased
  mayStart : t.mayStart = false → t'.mayStart = false
  ok : t.OK → t'.OK

theorem Inv.mem_begun (H : Inv s) {pc : Pc} (hpc : (s.transfers i).pc = pc) (h : pc ≠ .queued) :
    i ∈ s.begun := H.waiting i (hpc ▸ h)

theorem Inv.lt_of_begun (H : Inv s) (h : i ∈ s.begun) : i < s.created :=
  H.known i (by simp [State.mentioned, h])

theorem Inv.patch (H : Inv s) {t : Transfer} (hp : Patch (s.transfers i) t)
    (hpc : t.pc ≠ .queued → i ∈ s.begun) : Inv (s.set i t) where
  known := H.known
  ok j := by
    by_cases h : j = i
    · subst j; simpa [State.set] using hp.ok (H.ok i)
    · simpa [State.set, h] using H.ok j
  pending j hj := by
    by_cases h : j = i
    · subst j; simpa [State.set, hp.terminalized] using H.pending i hj
    · simpa [State.set, h] using H.pending j hj
  waiting j hj := by
    by_cases h : j = i
    · subst j; exact hpc (by simpa [State.set] using hj)
    · exact H.waiting j (by simpa [State.set, h] using hj)
  silent := H.silent
  live j hj := by
    by_cases h : j = i
    · subst j
      exact H.live i (by simpa [State.set, hp.terminalized] using hj)
    · exact H.live j (by simpa [State.set, h] using hj)
  starts := H.starts
  started j hj := by
    refine ⟨(H.started j hj).1, ?_⟩
    by_cases h : j = i
    · subst j; simpa [State.set] using hp.mayStart (H.started i hj).2
    · simpa [State.set, h] using (H.started j hj).2
  once := H.once
  released j hj := by
    by_cases h : j = i
    · subst j; simpa [State.set, hp.slotReleased] using H.released i hj
    · simpa [State.set, h] using H.released j hj
  begun := H.begun
  queue := H.queue
  fifo := H.fifo
  active j hj := by
    refine ⟨(H.active j hj).1, ?_, (H.active j hj).2.2⟩
    by_cases h : j = i
    · subst j; simpa [State.set, hp.slotReleased] using (H.active i hj).2.1
    · simpa [State.set, h] using (H.active j hj).2.1
  single j hj hfree := by
    refine H.single j hj ?_
    by_cases h : j = i
    · subst j; simpa [State.set, hp.slotReleased] using hfree
    · simpa [State.set, h] using hfree

/-- Tasks, messages and acknowledgements come and go. -/
theorem Inv.aside (H : Inv s) (tasks : List Task) (acks : List Nat) (sent : List (Nat × String))
    (ht : ∀ j ∈ tasks.filterMap Task.transfer, j < s.created)
    (hp : ∀ j, .releaseSlot j ∈ tasks → (s.transfers j).terminalized = true)
    (ha : ∀ j ∈ acks, j < s.created) :
    Inv { s with tasks := tasks, acks := acks, sent := sent } :=
  { H with
    pending := hp
    known := by
      intro j hj
      simp only [State.mentioned, List.mem_append] at hj
      rcases hj with hj | hj
      · rcases hj with hj | hj
        · exact H.known j (by simp only [State.mentioned, List.mem_append]; tauto)
        · exact ht j hj
      · exact ha j hj }

theorem Inv.taskBound (H : Inv s) {j : Nat} (h : j ∈ s.tasks.filterMap Task.transfer) :
    j < s.created :=
  H.known j (by simp only [State.mentioned, List.mem_append]; tauto)

theorem Inv.ackBound (H : Inv s) {j : Nat} (h : j ∈ s.acks) : j < s.created :=
  H.known j (by simp only [State.mentioned, List.mem_append]; tauto)

theorem Inv.listed (H : Inv s) {j : Nat} (h : j ∈ s.activeTransfers) : j < s.created :=
  H.known j (by simp only [State.mentioned, List.mem_append]; tauto)

theorem Inv.defer (H : Inv s) {task : Task} (h : ∀ j, task.transfer = some j → j < s.created)
    (ht : ∀ j, task = .releaseSlot j → (s.transfers j).terminalized = true) :
    Inv (s.defer task) := by
  refine H.aside (s.tasks ++ [task]) s.acks s.sent (fun j hj => ?_) (fun j hj => ?_)
    fun j hj => H.ackBound hj
  · rw [List.filterMap_append] at hj
    rcases List.mem_append.mp hj with hj | hj
    · exact H.taskBound hj
    · obtain ⟨x, hx, hxj⟩ := List.mem_filterMap.mp hj
      rw [List.mem_singleton.mp hx] at hxj
      exact h j hxj
  · rcases List.mem_append.mp hj with hj | hj
    · exact H.pending j hj
    · exact ht j (List.mem_singleton.mp hj).symm

/-! ## Events -/

/-- A transfer that is not terminal emits something. -/
theorem Inv.emit (H : Inv s) (hi : i < s.created) {e : Event} (he : e.terminal = false)
    (hstart : e ≠ .start) (ht : (s.transfers i).terminalized = false) : Inv (s.emit i e) :=
  { H with
    known := by
      intro j hj
      simp only [State.mentioned, State.emit, List.map_append, List.mem_append, List.map_cons,
        List.map_nil, List.mem_singleton] at hj
      have := H.known j
      simp only [State.mentioned, List.mem_append] at this
      by_cases h : j = i
      · exact h ▸ hi
      · exact this (by tauto)
    silent := by
      intro j
      simp only [State.emit, eventsOf_append]
      split
      · subst j
        refine List.pairwise_append.mpr ⟨H.silent i, List.pairwise_singleton _ _, ?_⟩
        exact fun e' he' _ _ => H.live i ht e' he'
      · simpa using H.silent j
    live := by
      intro j hj e' he'
      simp only [State.emit, eventsOf_append] at he'
      rcases List.mem_append.mp he' with he' | he'
      · exact H.live j hj e' he'
      · split at he'
        · rw [List.mem_singleton.mp he']; exact he
        · cases he'
    starts := by
      simp only [State.emit, startsOf_append, hstart, if_false, List.append_nil]
      exact H.starts
    started := by
      simp only [State.emit, startsOf_append, hstart, if_false, List.append_nil]
      exact H.started }

/-- The active operation emits `start`, for the first time. -/
theorem Inv.emit_start (H : Inv s) (hi : i ∈ s.begun)
    (ht : (s.transfers i).terminalized = false) (hnew : i ∉ startsOf s.log)
    (hmay : (s.transfers i).mayStart = false) : Inv (s.emit i .start) := by
  have hfree : (s.transfers i).slotReleased = false := by
    cases h : (s.transfers i).slotReleased with
    | false => rfl
    | true => rw [(H.ok i).released h] at ht; cases ht
  have hmax := (H.active i (H.single i hi hfree)).2.2
  refine { H with known := ?_, silent := ?_, live := ?_, starts := ?_, started := ?_ }
  · intro j hj
    simp only [State.mentioned, State.emit, List.map_append, List.mem_append, List.map_cons,
      List.map_nil, List.mem_singleton] at hj
    have := H.known j
    simp only [State.mentioned, List.mem_append] at this
    by_cases h : j = i
    · exact h.symm ▸ H.lt_of_begun hi
    · exact this (by tauto)
  · intro j
    simp only [State.emit, eventsOf_append]
    split
    · subst j
      refine List.pairwise_append.mpr ⟨H.silent i, List.pairwise_singleton _ _, ?_⟩
      exact fun e' he' _ _ => H.live i ht e' he'
    · simpa using H.silent j
  · intro j hj e' he'
    simp only [State.emit, eventsOf_append] at he'
    rcases List.mem_append.mp he' with he' | he'
    · exact H.live j hj e' he'
    · split at he'
      · rw [List.mem_singleton.mp he']; rfl
      · cases he'
  · simp only [State.emit, startsOf_append, if_true]
    refine List.pairwise_append.mpr ⟨H.starts, List.pairwise_singleton _ _, fun j hj k hk => ?_⟩
    rw [List.mem_singleton.mp hk]
    refine Nat.lt_of_le_of_ne (hmax j (H.started j hj).1) ?_
    intro h
    exact hnew (h ▸ hj)
  · intro j hj
    simp only [State.emit, startsOf_append, if_true] at hj
    rcases List.mem_append.mp hj with hj | hj
    · exact H.started j hj
    · rw [List.mem_singleton.mp hj]; exact ⟨hi, hmay⟩

/-- The transfer becomes terminal with its terminal event. -/
theorem Inv.terminalize (H : Inv s) (hi : i < s.created) {e : Event} (he : e ≠ .start)
    (ht : (s.transfers i).terminalized = false) :
    Inv ((s.set i { s.transfers i with terminalized := true }).emit i e) where
  known := by
    intro j hj
    simp only [State.mentioned, State.emit, State.set, List.map_append, List.mem_append,
      List.map_cons, List.map_nil, List.mem_singleton] at hj
    have := H.known j
    simp only [State.mentioned, List.mem_append] at this
    by_cases h : j = i
    · exact h.symm ▸ hi
    · exact this (by tauto)
  ok j := by
    by_cases h : j = i
    · subst j
      have := H.ok i
      simp only [State.set, State.emit, Function.update_self]
      exact ⟨fun _ => rfl, this.fits⟩
    · simpa [State.set, State.emit, h] using H.ok j
  pending j hj := by
    by_cases h : j = i
    · subst j; simp [State.set, State.emit]
    · simpa [State.set, State.emit, h] using H.pending j hj
  waiting j hj := by
    refine H.waiting j ?_
    by_cases h : j = i
    · subst j; simpa [State.set, State.emit] using hj
    · simpa [State.set, State.emit, h] using hj
  silent j := by
    simp only [State.emit, State.set, eventsOf_append]
    split
    · subst j
      refine List.pairwise_append.mpr ⟨H.silent i, List.pairwise_singleton _ _, ?_⟩
      exact fun e' he' _ _ => H.live i ht e' he'
    · simpa using H.silent j
  live j hj := by
    by_cases h : j = i
    · subst j; simp [State.set, State.emit] at hj
    · simpa [State.set, State.emit, eventsOf_append, h] using
        H.live j (by simpa [State.set, State.emit, h] using hj)
  starts := by
    simp only [State.emit, State.set, startsOf_append, he, if_false, List.append_nil]
    exact H.starts
  started j hj := by
    simp only [State.emit, State.set, startsOf_append, he, if_false, List.append_nil] at hj
    refine ⟨(H.started j hj).1, ?_⟩
    by_cases h : j = i
    · subst j; simpa [State.set, State.emit, Transfer.mayStart] using (H.started i hj).2
    · simpa [State.set, State.emit, h] using (H.started j hj).2
  once := H.once
  released j hj := by
    by_cases h : j = i
    · subst j; simpa [State.set, State.emit] using H.released i hj
    · simpa [State.set, State.emit, h] using H.released j hj
  begun := H.begun
  queue := H.queue
  fifo := H.fifo
  active j hj := by
    refine ⟨(H.active j hj).1, ?_, (H.active j hj).2.2⟩
    by_cases h : j = i
    · subst j; simpa [State.set, State.emit] using (H.active i hj).2.1
    · simpa [State.set, State.emit, h] using (H.active j hj).2.1
  single j hj hfree := by
    refine H.single j hj ?_
    by_cases h : j = i
    · subst j; simpa [State.set, State.emit] using hfree
    · simpa [State.set, State.emit, h] using hfree

/-! ## Slots -/

theorem Inv.releaseSlot (H : Inv s) (hi : i < s.created)
    (ht : (s.transfers i).terminalized = true) : Inv (s.releaseSlot i) := by
  rw [State.releaseSlot]
  split
  · exact H
  rename_i hheld
  have hnew : i ∉ s.released := fun h => hheld (H.released i h)
  refine { H with
    known := ?_, ok := ?_, pending := ?_, waiting := ?_, live := ?_, started := ?_, once := ?_
    released := ?_, queue := ?_, fifo := ?_, active := ?_, single := ?_ }
  · intro j hj
    simp only [State.mentioned, State.set, List.mem_append, List.mem_filter,
      List.filterMap_append] at hj
    have := H.known j
    simp only [State.mentioned, List.mem_append] at this
    by_cases h : j = i
    · exact h.symm ▸ hi
    · have herase : j ∈ s.activeTransfers.erase i → j ∈ s.activeTransfers :=
        fun h => List.mem_of_mem_erase h
      simp only [List.filterMap_cons, Task.transfer, List.filterMap_nil, List.mem_singleton,
        List.not_mem_nil, or_false, h] at hj
      exact this (by tauto)
  · intro j
    by_cases h : j = i
    · subst j
      have := H.ok i
      simp only [State.set, Function.update_self]
      exact ⟨fun _ => ht, this.fits⟩
    · simpa [State.set, h] using H.ok j
  · intro j hj
    have hj : .releaseSlot j ∈ s.tasks := by simpa using hj
    by_cases h : j = i
    · subst j; simpa [State.set] using ht
    · simpa [State.set, h] using H.pending j hj
  · intro j hj
    refine H.waiting j ?_
    by_cases h : j = i
    · subst j; simpa [State.set] using hj
    · simpa [State.set, h] using hj
  · intro j hj
    refine H.live j ?_
    by_cases h : j = i
    · subst j; simpa [State.set] using hj
    · simpa [State.set, h] using hj
  · intro j hj
    refine ⟨(H.started j hj).1, ?_⟩
    by_cases h : j = i
    · subst j; simpa [State.set, Transfer.mayStart] using (H.started i hj).2
    · simpa [State.set, h] using (H.started j hj).2
  · refine List.nodup_append.mpr ⟨H.once, by simp, fun a ha b hb hab => ?_⟩
    rw [List.mem_singleton.mp hb] at hab
    exact hnew (hab ▸ ha)
  · intro j hj
    by_cases h : j = i
    · subst j; simp [State.set]
    · have hj : j ∈ s.released := by simpa [State.set, h] using hj
      simpa [State.set, h] using H.released j hj
  · exact H.queue.sublist List.filter_sublist
  · intro b hb q hq
    exact H.fifo b hb q (List.mem_of_mem_filter hq)
  · intro j hj
    have hj : s.activeOperation = some j ∧ j ≠ i := by
      simp only at hj
      split at hj
      · cases hj
      · rename_i hne
        exact ⟨hj, fun h => hne (h ▸ hj)⟩
    obtain ⟨hb, hfree, hmax⟩ := H.active j hj.1
    exact ⟨hb, by simpa [State.set, hj.2] using hfree, hmax⟩
  · intro j hj hfree
    by_cases h : j = i
    · subst j; simp [State.set] at hfree
    · have hactive := H.single j hj (by simpa [State.set, h] using hfree)
      simp [hactive, h]

end
end WebSSH.Client
