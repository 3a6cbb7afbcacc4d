import WebSSH.Barrier.Model
import WebSSH.Lib.Count

/-!
# The invariant of the snapshot barrier

`Core` says who holds which mutex and what the three counters of the barrier count; `Sleep` says
that a thread is only asleep while what it waits for has not happened. Every step is one of the
`Moves` (`step_moves`), each of which updates the record of one thread, so `Core` is kept by one
lemma about such an update (`Core.set`) and `notify_all` (`Core.notifyAll`).
-/

namespace WebSSH.Barrier
open Lib

set_option linter.unusedSectionVars false

section Thread
variable {Key : Type}

/-- The mutexes a thread holds: those of its blocks and the one of a block it is entering. -/
def Thread.locks (th : Thread Key) : List Key :=
  match th.phase, th.program with
  | .entering _, .acquire key :: _ => key :: th.held.filterMap (·.lock)
  | _, _ => th.held.filterMap (·.lock)

/-- The program starts with the `with` statement of a block `lock`, followed by `rest`. -/
inductive Opens : Option Key → List (Instr Key) → List (Instr Key) → Prop
  | acquire {key rest} : Opens (some key) rest (.acquire key :: rest)
  | enterWrite {rest} : Opens none rest (.enterWrite :: rest)

/-- Only the innermost blocks are nested; the last one entered the barrier. -/
def ContextsOK : List (Frame Key) → Prop
  | [] => True
  | f :: held => (f.context = .outermost ↔ held = []) ∧ ContextsOK held

/-- What a phase says about the rest of the record. -/
def PhaseOK (th : Thread Key) : Prop :=
  match th.phase with
  | .ready => True
  | .entering asleep => (∃ lock rest, Opens lock rest th.program) ∧
      (asleep = true → th.writeDepth = 0)
  | .unlocking => ∃ key context held rest, th.held = ⟨some key, context⟩ :: held ∧
      th.program = .exit :: rest
  | .waiting _ | .snapshotting => ∃ rest, th.program = .snapshot :: rest

/-- The record of a thread that runs `program` by the discipline. -/
structure Thread.OK [LT Key] (program : List (Instr Key)) (th : Thread Key) : Prop where
  disciplined : Disciplined (th.held.map (·.lock)) th.program
  phase : PhaseOK th
  depth : th.writeDepth = if th.phase = .unlocking then th.held.length - 1 else th.held.length
  contexts : ContextsOK th.held
  ordered : (th.held.filterMap (·.lock)).Pairwise fun a b => b < a
  acquires : ∀ x ∈ acquisitions th.held.length th.program, x ∈ acquisitions 0 program
  snapshots : .snapshot ∈ th.program → .snapshot ∈ program

def Thread.isWaiting (th : Thread Key) : Prop := ∃ asleep, th.phase = .waiting asleep

instance (th : Thread Key) : Decidable th.isWaiting :=
  match h : th.phase with
  | .waiting asleep => .isTrue ⟨asleep, h⟩
  | .ready | .entering _ | .unlocking | .snapshotting =>
    .isFalse fun ⟨_, h'⟩ => by rw [h] at h'; cases h'

theorem wake_cases (th : Thread Key) :
    (th.phase = .entering true ∧ th.wake = { th with phase := .entering false }) ∨
    (th.phase = .waiting true ∧ th.wake = { th with phase := .waiting false }) ∨
    (th.phase ≠ .entering true ∧ th.phase ≠ .waiting true ∧ th.wake = th) := by
  obtain ⟨program, phase, held, depth⟩ := th
  rcases phase with _ | (_ | _) | _ | (_ | _) | _ <;> simp [Thread.wake]

theorem wake_locks (th : Thread Key) : th.wake.locks = th.locks := by
  obtain ⟨program, phase, held, depth⟩ := th
  rcases phase with _ | (_ | _) | _ | (_ | _) | _ <;> try rfl
  cases program with
  | nil => rfl
  | cons i rest => cases i <;> rfl

theorem wake_writeDepth (th : Thread Key) : th.wake.writeDepth = th.writeDepth := by
  rcases wake_cases th with ⟨_, hw⟩ | ⟨_, hw⟩ | ⟨_, _, hw⟩ <;> rw [hw]

theorem wake_isWaiting (th : Thread Key) : th.wake.isWaiting ↔ th.isWaiting := by
  rcases wake_cases th with ⟨h, hw⟩ | ⟨h, hw⟩ | ⟨_, _, hw⟩
  · simp [hw, Thread.isWaiting, h]
  · simp [hw, Thread.isWaiting, h]
  · rw [hw]

theorem wake_snapshotting (th : Thread Key) :
    th.wake.phase = .snapshotting ↔ th.phase = .snapshotting := by
  rcases wake_cases th with ⟨h, hw⟩ | ⟨h, hw⟩ | ⟨_, _, hw⟩
  · simp [hw, h]
  · simp [hw, h]
  · rw [hw]

theorem wake_not_asleep (th : Thread Key) :
    th.wake.phase ≠ .entering true ∧ th.wake.phase ≠ .waiting true := by
  rcases wake_cases th with ⟨h, hw⟩ | ⟨h, hw⟩ | ⟨h₁, h₂, hw⟩ <;> simp_all

theorem Thread.OK.wake [LT Key] {program : List (Instr Key)} {th : Thread Key}
    (H : th.OK program) : th.wake.OK program := by
  rcases wake_cases th with ⟨h, hw⟩ | ⟨h, hw⟩ | ⟨_, _, hw⟩ <;> rw [hw]
  · have hp := H.phase
    have hd := H.depth
    simp only [PhaseOK, h] at hp
    rw [h] at hd
    exact { H with phase := ⟨hp.1, fun h => by cases h⟩, depth := hd }
  · have hp := H.phase
    have hd := H.depth
    simp only [PhaseOK, h] at hp
    rw [h] at hd
    exact { H with phase := hp, depth := hd }
  · exact H

end Thread

section
variable {Tid Key : Type} [Fintype Tid] [DecidableEq Tid] [DecidableEq Key] [Preorder Key]
variable {programs : Tid → List (Instr Key)} {s s' : State Tid Key} {t : Tid}

/-- The records are in order, and the mutexes and counters say what the records say. -/
structure Core (programs : Tid → List (Instr Key)) (s : State Tid Key) : Prop where
  threads : ∀ t, (s.threads t).OK (programs t)
  holder : ∀ key t, s.holder key = some t ↔ key ∈ (s.threads t).locks
  readers : s.readers = count (0 < ·.writeDepth) s.threads
  waiting : s.waitingWriters = count (·.isWaiting) s.threads
  writing : s.writer = true → ∃ t, (s.threads t).phase = .snapshotting

/-- No wakeup has been lost: a sleeping thread still has something to wait for. -/
structure Sleep (s : State Tid Key) : Prop where
  asleepReader : ∀ t, (s.threads t).phase = .entering true → s.writer = true ∨ 0 < s.waitingWriters
  asleepWriter : ∀ t, (s.threads t).phase = .waiting true → s.writer = true ∨ 0 < s.readers

structure Inv (programs : Tid → List (Instr Key)) (s : State Tid Key) : Prop
    extends Core programs s, Sleep s

/-- The steps of a thread, by what they do. -/
inductive Moves (s : State Tid Key) (t : Tid) : State Tid Key → Prop
  | lock {key rest} : (s.threads t).phase = .ready →
      (s.threads t).program = .acquire key :: rest → s.holder key = none →
      Moves s t { s.setThread t { s.threads t with phase := .entering false } with
        holder := Function.update s.holder key (some t) }
  | beginWrite {rest} : (s.threads t).phase = .ready →
      (s.threads t).program = .enterWrite :: rest →
      Moves s t (s.setThread t { s.threads t with phase := .entering false })
  | enter {lock rest} : (s.threads t).phase = .entering false →
      Opens lock rest (s.threads t).program → Moves s t (s.enter t lock rest)
  | leaveLock {key context held rest} : (s.threads t).phase = .ready →
      (s.threads t).program = .exit :: rest →
      (s.threads t).held = ⟨some key, context⟩ :: held →
      Moves s t (s.leave t context { s.threads t with phase := .unlocking })
  | leaveWrite {context held rest} : (s.threads t).phase = .ready →
      (s.threads t).program = .exit :: rest → (s.threads t).held = ⟨none, context⟩ :: held →
      Moves s t (s.leave t context { s.threads t with program := rest, held := held })
  | unlock {key context held rest} : (s.threads t).phase = .unlocking →
      (s.threads t).program = .exit :: rest →
      (s.threads t).held = ⟨some key, context⟩ :: held →
      Moves s t { s.setThread t
          { s.threads t with program := rest, phase := .ready, held := held } with
        holder := Function.update s.holder key none }
  | refuse {rest} : (s.threads t).phase = .ready →
      (s.threads t).program = .snapshot :: rest → 0 < (s.threads t).writeDepth →
      Moves s t (s.setThread t { s.threads t with program := rest })
  | announce {rest} : (s.threads t).phase = .ready →
      (s.threads t).program = .snapshot :: rest → ¬ 0 < (s.threads t).writeDepth →
      Moves s t ({ s with waitingWriters := s.waitingWriters + 1 }.tryWrite t)
  | retry {rest} : (s.threads t).phase = .waiting false →
      (s.threads t).program = .snapshot :: rest → Moves s t (s.tryWrite t)
  | endSnapshot {rest} : (s.threads t).phase = .snapshotting →
      (s.threads t).program = .snapshot :: rest →
      Moves s t { s.setThread t { s.threads t with program := rest, phase := .ready } with
        writer := false }.notifyAll

theorem step_moves (h : s.step t = some s') : Moves s t s' := by
  simp only [State.step] at h
  split at h
  · rename_i key rest hph hpr
    split at h
    · cases h; exact .lock hph hpr ‹_›
    · cases h
  · cases h; exact .beginWrite ‹_› ‹_›
  · rename_i hph hpr
    cases h; exact .enter hph (hpr ▸ .acquire)
  · rename_i hph hpr
    cases h; exact .enter hph (hpr ▸ .enterWrite)
  · split at h
    · cases h
    · cases h; exact .leaveLock ‹_› ‹_› ‹_›
    · cases h; exact .leaveWrite ‹_› ‹_› ‹_›
  · split at h
    · cases h; exact .unlock ‹_› ‹_› ‹_›
    · cases h
  · split at h
    · cases h; exact .refuse ‹_› ‹_› ‹_›
    · cases h; exact .announce ‹_› ‹_› ‹_›
  · cases h; exact .retry ‹_› ‹_›
  · cases h; exact .endSnapshot ‹_› ‹_›
  · cases h

/-! ## Updates of one record -/

theorem Core.set (H : Core programs s) (th : Thread Key)
    (hthreads : s'.threads = Function.update s.threads t th) (hok : th.OK (programs t))
    (hholder : ∀ key u, s'.holder key = some u ↔
      if u = t then key ∈ th.locks else s.holder key = some u)
    (hreaders : s'.readers + (if 0 < (s.threads t).writeDepth then 1 else 0) =
      s.readers + if 0 < th.writeDepth then 1 else 0)
    (hwaiting : s'.waitingWriters + (if (s.threads t).isWaiting then 1 else 0) =
      s.waitingWriters + if th.isWaiting then 1 else 0)
    (hwriting : s'.writer = true →
      th.phase = .snapshotting ∨ (s.threads t).phase ≠ .snapshotting ∧ s.writer = true) :
    Core programs s' := by
  refine ⟨fun u => ?_, fun key u => ?_, ?_, ?_, fun hw => ?_⟩
  · rw [hthreads]
    by_cases hu : u = t
    · subst u; simpa using hok
    · simpa [hu] using H.threads u
  · rw [hthreads, hholder]
    by_cases hu : u = t
    · subst u; simp
    · simpa [hu] using H.holder key u
  · have := count_update (0 < ·.writeDepth) s.threads t th
    rw [hthreads]
    have := H.readers
    omega
  · have := count_update (·.isWaiting) s.threads t th
    rw [hthreads]
    have := H.waiting
    omega
  · rw [hthreads]
    rcases hwriting hw with h | ⟨hne, h⟩
    · exact ⟨t, by simpa using h⟩
    · obtain ⟨u, hu⟩ := H.writing h
      have hut : u ≠ t := by rintro rfl; exact hne hu
      exact ⟨u, by simpa [hut] using hu⟩

/-- A record with the same mutexes leaves `holder` right. -/
theorem Core.holder_same (H : Core programs s) {th : Thread Key}
    (h : ∀ key, key ∈ th.locks ↔ key ∈ (s.threads t).locks) (key : Key) (u : Tid) :
    s.holder key = some u ↔ if u = t then key ∈ th.locks else s.holder key = some u := by
  split
  · subst u; rw [H.holder, h]
  · rfl

theorem Core.notifyAll (H : Core programs s) : Core programs s.notifyAll where
  threads u := (H.threads u).wake
  holder key u := by
    simp only [State.notifyAll, wake_locks]
    exact H.holder key u
  readers := by
    simp only [State.notifyAll, H.readers]
    exact count_congr fun u => by rw [wake_writeDepth]
  waiting := by
    simp only [State.notifyAll, H.waiting]
    exact count_congr fun u => (wake_isWaiting _).symm
  writing h := by
    obtain ⟨u, hu⟩ := H.writing h
    exact ⟨u, (wake_snapshotting _).mpr hu⟩

theorem sleep_notifyAll (s : State Tid Key) : Sleep s.notifyAll where
  asleepReader _ h := absurd h (wake_not_asleep _).1
  asleepWriter _ h := absurd h (wake_not_asleep _).2

/-- Updating one record keeps the others' reasons to sleep if no counter they watch drops. -/
theorem Sleep.set (H : Sleep s) (th : Thread Key)
    (hthreads : s'.threads = Function.update s.threads t th)
    (hreader : s.writer = true ∨ 0 < s.waitingWriters → s'.writer = true ∨ 0 < s'.waitingWriters)
    (hwriter : s.writer = true ∨ 0 < s.readers → s'.writer = true ∨ 0 < s'.readers)
    (hth₁ : th.phase = .entering true → s'.writer = true ∨ 0 < s'.waitingWriters)
    (hth₂ : th.phase = .waiting true → s'.writer = true ∨ 0 < s'.readers) : Sleep s' := by
  constructor
  · intro u hu
    rw [hthreads] at hu
    by_cases h : u = t
    · subst u; exact hth₁ (by simpa using hu)
    · exact hreader (H.asleepReader u (by simpa [h] using hu))
  · intro u hu
    rw [hthreads] at hu
    by_cases h : u = t
    · subst u; exact hth₂ (by simpa using hu)
    · exact hwriter (H.asleepWriter u (by simpa [h] using hu))

end
end WebSSH.Barrier
