import WebSSH.Lib.Count
import WebSSH.Lib.System

/-!
# Isolation of snapshots

`_SnapshotBarrier` (`backup_coordination.py`) on its own. A thread enters and leaves
`persistent_write` and `snapshot` sections as it likes, in any nesting, and an exception may reach
it while it waits. A `with self._condition` block never waits for anything but its own condition,
so it is one step; `wait()` leaves the thread asleep until some `notify_all()`, after which the loop
checks again.
-/

namespace WebSSH.Isolation
open Lib

set_option linter.unusedSectionVars false

/-- The section of a `with` statement, by the way its generator was entered. -/
inductive Section
  | outermostWrite
  | nestedWrite
  | snapshot
  deriving DecidableEq

inductive Phase
  /-- In the body of the innermost section, or in none. -/
  | running
  /-- In the loop of `persistent_write`. -/
  | entering (asleep : Bool)
  /-- At the end of an outermost `persistent_write`: `write_depth` is 0 again, and `_readers` still
  counts the thread. -/
  | leaving
  /-- In the loop of `snapshot`, counted in `_waiting_writers`. -/
  | waiting (asleep : Bool)
  deriving DecidableEq

structure Thread where
  phase : Phase
  /-- The sections around the thread, innermost first. -/
  sections : List Section
  writeDepth : Nat

structure State (Tid : Type) where
  threads : Tid → Thread
  readers : Nat
  writer : Bool
  waitingWriters : Nat

/-- What a thread does next. -/
inductive Action
  /-- `with persistent_write():` -/
  | persistentWrite
  /-- `with snapshot_barrier():` -/
  | snapshot
  /-- The next critical section of the statement it is in. -/
  | check
  /-- An exception is raised where the thread waits. -/
  | interrupt
  /-- The body of the innermost section ends, by an exception or not. -/
  | exit
  deriving DecidableEq

/-- A notified thread is no longer asleep. -/
def Thread.wake (th : Thread) : Thread :=
  match th.phase with
  | .entering true => { th with phase := .entering false }
  | .waiting true => { th with phase := .waiting false }
  | _ => th

section
variable {Tid : Type}

/-- `notify_all()`. -/
def State.notifyAll (s : State Tid) : State Tid :=
  { s with threads := fun u => (s.threads u).wake }

def State.init : State Tid where
  threads _ := ⟨.running, [], 0⟩
  readers := 0
  writer := false
  waitingWriters := 0

variable [DecidableEq Tid]

def State.setThread (s : State Tid) (t : Tid) (th : Thread) : State Tid :=
  { s with threads := Function.update s.threads t th }

/-- The start of `persistent_write`: only a nested one is entered without the condition. -/
def State.persistentWrite (s : State Tid) (t : Tid) : State Tid :=
  let th := s.threads t
  if 0 < th.writeDepth then
    s.setThread t
      { th with sections := .nestedWrite :: th.sections, writeDepth := th.writeDepth + 1 }
  else s.setThread t { th with phase := .entering false }

/-- One pass of the loop in `persistent_write`. -/
def State.tryRead (s : State Tid) (t : Tid) : State Tid :=
  let th := s.threads t
  if s.writer ∨ 0 < s.waitingWriters then s.setThread t { th with phase := .entering true }
  else
    { s.setThread t
        { phase := .running, sections := .outermostWrite :: th.sections, writeDepth := 1 } with
      readers := s.readers + 1 }

/-- The last critical section of an outermost `persistent_write`. -/
def State.release (s : State Tid) (t : Tid) : State Tid :=
  let th := s.threads t
  let s' : State Tid := { s.setThread t { th with phase := .running, sections := th.sections.tail } with
    readers := s.readers - 1 }
  if s'.readers = 0 then s'.notifyAll else s'

/-- One pass of the loop in `snapshot`, which the thread has announced in `_waiting_writers`. -/
def State.tryWrite (s : State Tid) (t : Tid) : State Tid :=
  let th := s.threads t
  if s.writer ∨ 0 < s.readers then s.setThread t { th with phase := .waiting true }
  else
    { s.setThread t { th with phase := .running, sections := .snapshot :: th.sections } with
      writer := true
      waitingWriters := s.waitingWriters - 1 }

/-- The start of `snapshot`, which raises inside a write. -/
def State.snapshot (s : State Tid) (t : Tid) : State Tid :=
  if 0 < (s.threads t).writeDepth then s
  else { s with waitingWriters := s.waitingWriters + 1 }.tryWrite t

/-- The end of the innermost section's body. -/
def State.exit (s : State Tid) (t : Tid) : Option (State Tid) :=
  let th := s.threads t
  match th.sections with
  | [] => none
  | .nestedWrite :: rest =>
    some (s.setThread t { th with sections := rest, writeDepth := th.writeDepth - 1 })
  | .outermostWrite :: _ => some (s.setThread t { th with phase := .leaving, writeDepth := 0 })
  | .snapshot :: rest =>
    some { s.setThread t { th with sections := rest } with writer := false }.notifyAll

def State.step (s : State Tid) (t : Tid) (a : Action) : Option (State Tid) :=
  let th := s.threads t
  match th.phase, a with
  | .running, .persistentWrite => some (s.persistentWrite t)
  | .running, .snapshot => some (s.snapshot t)
  | .running, .exit => s.exit t
  | .entering false, .check => some (s.tryRead t)
  | .leaving, .check => some (s.release t)
  | .waiting false, .check => some (s.tryWrite t)
  | .entering _, .interrupt => some (s.setThread t { th with phase := .running })
  | .waiting _, .interrupt =>
    -- the `finally` of `snapshot` withdraws the announcement
    some { s.setThread t { th with phase := .running } with
      waitingWriters := s.waitingWriters - 1 }
  | _, _ => none

/-- All interleavings of the threads `Tid`; a label names the thread that takes the step. -/
def system (Tid : Type) [DecidableEq Tid] : System (State Tid) (Tid × Action) where
  Init s := s = .init
  Step s a s' := s.step a.1 a.2 = some s'

end

/-! ## The invariant -/

section Thread
variable {th : Thread}

/-- Inside an outermost `persistent_write` section, from its `_readers += 1` to its
`_readers -= 1`. -/
def Thread.InWrite (th : Thread) : Prop := .outermostWrite ∈ th.sections

/-- In the body of a `snapshot` section. -/
def Thread.InSnapshot (th : Thread) : Prop := .snapshot ∈ th.sections

/-- Counted in `_waiting_writers`. -/
def Phase.isWaiting : Phase → Bool
  | .waiting _ => true
  | .running | .entering _ | .leaving => false

instance : DecidablePred Thread.InWrite := fun th => inferInstanceAs (Decidable (_ ∈ th.sections))

instance : DecidablePred Thread.InSnapshot := fun th =>
  inferInstanceAs (Decidable (_ ∈ th.sections))

/-- The sections of a thread and what `write_depth` says of them. -/
inductive Shape : Phase → List Section → Nat → Prop
  | outside {phase} : phase ≠ .leaving → Shape phase [] 0
  | snapshot {phase} : phase ≠ .leaving → Shape phase [.snapshot] 0
  | write (n : Nat) :
    Shape .running (List.replicate n Section.nestedWrite ++ [Section.outermostWrite]) (n + 1)
  | leaving : Shape .leaving [.outermostWrite] 0

def Thread.OK (th : Thread) : Prop := Shape th.phase th.sections th.writeDepth

/-- A positive depth means that the thread runs inside a write. -/
theorem Thread.OK.of_depth (H : th.OK) (h : 0 < th.writeDepth) :
    ∃ n, th = ⟨.running, List.replicate n Section.nestedWrite ++ [Section.outermostWrite], n + 1⟩ := by
  obtain ⟨phase, sections, depth⟩ := th
  cases H with
  | write n => exact ⟨n, rfl⟩
  | outside | snapshot | leaving => cases h

/-- Depth zero means that the thread is in no write it has not begun to leave. -/
theorem Thread.OK.of_running (H : th.OK) (hp : th.phase ≠ .leaving) (h : th.writeDepth = 0) :
    th.sections = [] ∨ th.sections = [.snapshot] := by
  obtain ⟨phase, sections, depth⟩ := th
  cases H with
  | outside => exact .inl rfl
  | snapshot => exact .inr rfl
  | write n => cases h
  | leaving => exact absurd rfl hp

/-- A thread that waits is in no write. -/
theorem Thread.OK.depth_eq (H : th.OK) (h : th.phase ≠ .running) : th.writeDepth = 0 := by
  obtain ⟨phase, sections, depth⟩ := th
  cases H with
  | outside | snapshot | leaving => rfl
  | write n => exact absurd rfl h

theorem Thread.OK.of_leaving (H : th.OK) (h : th.phase = .leaving) :
    th = ⟨.leaving, [.outermostWrite], 0⟩ := by
  obtain ⟨phase, sections, depth⟩ := th
  cases H with
  | outside hp | snapshot hp => exact absurd h hp
  | write n => cases h
  | leaving => rfl

theorem Thread.OK.running_cases (H : th.OK) (h : th.phase = .running) :
    th = ⟨.running, [], 0⟩ ∨ th = ⟨.running, [.snapshot], 0⟩ ∨
    ∃ n, th = ⟨.running, List.replicate n Section.nestedWrite ++ [Section.outermostWrite], n + 1⟩ := by
  obtain ⟨phase, sections, depth⟩ := th
  cases h
  cases H with
  | outside => exact .inl rfl
  | snapshot => exact .inr (.inl rfl)
  | write n => exact .inr (.inr ⟨n, rfl⟩)

theorem Thread.OK.setPhase (H : th.OK) (hp : th.phase ≠ .leaving) (hd : th.writeDepth = 0)
    {phase : Phase} (h : phase ≠ .leaving) : Thread.OK { th with phase := phase } := by
  obtain ⟨phase', sections, depth⟩ := th
  cases hd
  rcases H.of_running hp rfl with hs | hs
  · cases hs; exact .outside h
  · cases hs; exact .snapshot h

/-- Waking a thread changes nothing but its sleep. -/
theorem Thread.wake_cases (th : Thread) : th.wake = th ∨
    ∃ phase, phase ≠ .leaving ∧ th.wake = { th with phase := phase } ∧ th.phase ≠ .leaving ∧
      th.phase ≠ .running ∧ phase.isWaiting = th.phase.isWaiting := by
  unfold Thread.wake
  split
  · rename_i h
    exact .inr ⟨.entering false, nofun, rfl, by simp [h], by simp [h], by rw [h]; rfl⟩
  · rename_i h
    exact .inr ⟨.waiting false, nofun, rfl, by simp [h], by simp [h], by rw [h]; rfl⟩
  · exact .inl rfl

@[simp] theorem Thread.wake_sections (th : Thread) : th.wake.sections = th.sections := by
  rcases th.wake_cases with h | ⟨_, _, h, _⟩ <;> rw [h]

theorem Thread.wake_isWaiting (th : Thread) :
    th.wake.phase.isWaiting = th.phase.isWaiting := by
  rcases th.wake_cases with h | ⟨_, _, h, _, _, hw⟩
  · rw [h]
  · rw [h]; exact hw

theorem Thread.OK.wake (H : th.OK) : th.wake.OK := by
  rcases th.wake_cases with h | ⟨phase, hphase, h, hleaving, hrunning, _⟩
  · rwa [h]
  · rw [h]; exact H.setPhase hleaving (H.depth_eq hrunning) hphase

end Thread

section
variable {Tid : Type} [Fintype Tid] [DecidableEq Tid] {s s' : State Tid} {t : Tid}

/-- What the counters count and what they exclude. -/
structure Inv (s : State Tid) : Prop where
  threads : ∀ t, (s.threads t).OK
  readers : s.readers = count Thread.InWrite s.threads
  waiting : s.waitingWriters = count (·.phase.isWaiting) s.threads
  writing : ∀ t, (s.threads t).InSnapshot → s.writer = true
  writer : s.writer = true → s.readers = 0 ∧ ∃ t, (s.threads t).InSnapshot
  alone : ∀ t u, (s.threads t).InSnapshot → (s.threads u).InSnapshot → t = u

theorem Inv.init : Inv (State.init : State Tid) where
  threads _ := .outside nofun
  readers := by simp [State.init, count, Thread.InWrite]
  waiting := by simp [State.init, count, Phase.isWaiting]
  writing _ h := by cases h
  writer h := by cases h
  alone _ _ h := by cases h

theorem Inv.notifyAll (H : Inv s) : Inv s.notifyAll where
  threads t := (H.threads t).wake
  readers := by
    rw [State.notifyAll, H.readers]
    exact count_congr fun t => by simp [Thread.InWrite]
  waiting := by
    rw [State.notifyAll, H.waiting]
    exact count_congr fun t => by rw [Thread.wake_isWaiting]
  writing t h := H.writing t (by simpa [State.notifyAll, Thread.InSnapshot] using h)
  writer h := by
    obtain ⟨hr, t, ht⟩ := H.writer h
    exact ⟨hr, t, by simpa [State.notifyAll, Thread.InSnapshot] using ht⟩
  alone t u ht hu := H.alone t u (by simpa [State.notifyAll, Thread.InSnapshot] using ht)
    (by simpa [State.notifyAll, Thread.InSnapshot] using hu)

/-- An update of one record that leaves the thread in a snapshot if it was in one. -/
theorem Inv.set (H : Inv s) (th : Thread) (hok : th.OK)
    (hthreads : s'.threads = Function.update s.threads t th)
    (hreaders : s'.readers + (if (s.threads t).InWrite then 1 else 0) =
      s.readers + if th.InWrite then 1 else 0)
    (hwaiting : s'.waitingWriters + (if (s.threads t).phase.isWaiting then 1 else 0) =
      s.waitingWriters + if th.phase.isWaiting then 1 else 0)
    (hwriter : s'.writer = s.writer) (hzero : s.writer = true → s'.readers = 0)
    (hsnap : th.InSnapshot ↔ (s.threads t).InSnapshot) : Inv s' := by
  have hin : ∀ u, (s'.threads u).InSnapshot ↔ (s.threads u).InSnapshot := by
    intro u
    rw [hthreads]
    by_cases hu : u = t
    · subst u; simpa using hsnap
    · simp [hu]
  refine ⟨fun u => ?_, ?_, ?_, fun u h => ?_, fun h => ?_, fun u v hu hv => ?_⟩
  · rw [hthreads]
    by_cases hu : u = t
    · subst u; simpa using hok
    · simpa [hu] using H.threads u
  · have := count_update Thread.InWrite s.threads t th
    have := H.readers
    rw [hthreads]
    omega
  · have := count_update (·.phase.isWaiting) s.threads t th
    have := H.waiting
    rw [hthreads]
    omega
  · rw [hwriter]; exact H.writing u ((hin u).mp h)
  · rw [hwriter] at h
    obtain ⟨_, u, hu⟩ := H.writer h
    exact ⟨hzero h, u, (hin u).mpr hu⟩
  · exact H.alone u v ((hin u).mp hu) ((hin v).mp hv)

theorem Inv.readers_pos (H : Inv s) (h : (s.threads t).InWrite) : 0 < s.readers := by
  rw [H.readers]; exact count_pos_of h

/-- Only one of a write and a snapshot is going on. -/
theorem Inv.excludes (H : Inv s) {u : Tid} (ht : (s.threads t).InSnapshot) :
    ¬ (s.threads u).InWrite := by
  intro hu
  have := H.readers_pos hu
  rw [(H.writer (H.writing t ht)).1] at this
  cases this

/-- A change of phase of a thread outside all writes. -/
theorem Inv.setPhase (H : Inv s) {phase : Phase} {n : Nat} (hp : (s.threads t).phase ≠ .leaving)
    (hd : (s.threads t).writeDepth = 0) (hphase : phase ≠ .leaving)
    (hn : n + (if (s.threads t).phase.isWaiting then 1 else 0) =
      s.waitingWriters + if phase.isWaiting then 1 else 0) :
    Inv { s.setThread t { s.threads t with phase := phase } with waitingWriters := n } :=
  H.set _ ((H.threads t).setPhase hp hd hphase) rfl rfl hn rfl (fun h => (H.writer h).1) .rfl

theorem not_inWrite (H : (s.threads t).OK) (hp : (s.threads t).phase ≠ .leaving)
    (hd : (s.threads t).writeDepth = 0) : ¬ (s.threads t).InWrite := by
  rcases H.of_running hp hd with h | h <;> simp [Thread.InWrite, h]

/-! ## The steps -/

theorem Inv.persistentWrite (H : Inv s) (hp : (s.threads t).phase = .running) :
    Inv (s.persistentWrite t) := by
  simp only [State.persistentWrite]
  split
  · rename_i hd
    obtain ⟨n, hth⟩ := (H.threads t).of_depth hd
    refine H.set ⟨.running, .nestedWrite :: (s.threads t).sections, (s.threads t).writeDepth + 1⟩
      ?_ (by rw [← hp]; rfl) ?_ ?_ rfl (fun h => (H.writer h).1) ?_
    · rw [hth]; exact .write (n + 1)
    · simp [Thread.InWrite, State.setThread, hth]
    · simp [hp, Phase.isWaiting, State.setThread]
    · simp [Thread.InSnapshot]
  · rename_i hd
    refine H.setPhase (by simp [hp]) (by omega) nofun ?_
    simp [hp, Phase.isWaiting]

theorem Inv.tryRead (H : Inv s) (hp : (s.threads t).phase = .entering false) :
    Inv (s.tryRead t) := by
  have hd : (s.threads t).writeDepth = 0 := (H.threads t).depth_eq (by simp [hp])
  simp only [State.tryRead]
  split
  · refine H.setPhase (by simp [hp]) hd nofun ?_
    simp [hp, Phase.isWaiting]
  · rename_i hfree
    have hs : (s.threads t).sections = [] := by
      refine ((H.threads t).of_running (by simp [hp]) hd).resolve_right fun h => ?_
      exact hfree (.inl (H.writing t (by simp [Thread.InSnapshot, h])))
    rw [hs]
    refine H.set ⟨.running, [.outermostWrite], 1⟩ (.write 0) rfl ?_ ?_ rfl
      (fun h => absurd (.inl h) hfree) ?_
    · simp [Thread.InWrite, hs]
    · simp [hp, Phase.isWaiting, State.setThread]
    · simp [Thread.InSnapshot, hs]

theorem Inv.release (H : Inv s) (hp : (s.threads t).phase = .leaving) : Inv (s.release t) := by
  have hth := (H.threads t).of_leaving hp
  have hpos := H.readers_pos (t := t) (by simp [Thread.InWrite, hth])
  have hinv : Inv { s.setThread t ⟨.running, [], 0⟩ with readers := s.readers - 1 } := by
    refine H.set ⟨.running, [], 0⟩ (.outside nofun) rfl ?_ ?_ rfl (fun h => ?_) ?_
    · simp only [Thread.InWrite, hth]
      simp
      omega
    · simp [hth, Phase.isWaiting, State.setThread]
    · simp [(H.writer h).1]
    · simp [Thread.InSnapshot, hth]
  simp only [State.release, hth, List.tail_cons]
  split
  · exact hinv.notifyAll
  · exact hinv

/-- A snapshot begins where neither a write nor a snapshot is going on. -/
theorem Inv.begin (H : Inv s) {n : Nat} (hfree : s.writer = false) (hreaders : s.readers = 0)
    (hsections : (s.threads t).sections = [])
    (hn : n + (if (s.threads t).phase.isWaiting then 1 else 0) = s.waitingWriters) :
    Inv { s.setThread t ⟨.running, [.snapshot], 0⟩ with writer := true, waitingWriters := n } := by
  have hnone : ∀ u, ¬ (s.threads u).InSnapshot := by
    intro u hu
    have := H.writing u hu
    rw [hfree] at this
    cases this
  have hin : ∀ u, (Function.update s.threads t ⟨.running, [.snapshot], 0⟩ u).InSnapshot → u = t := by
    intro u hu
    by_contra hne
    rw [Function.update_of_ne hne] at hu
    exact hnone u hu
  have hok : Thread.OK ⟨.running, [.snapshot], 0⟩ := .snapshot nofun
  refine ⟨fun u => ?_, ?_, ?_, fun _ _ => rfl, fun _ => ⟨hreaders, t, ?_⟩, fun u v hu hv => ?_⟩
  · by_cases hu : u = t
    · subst u; simpa [State.setThread] using hok
    · simpa [State.setThread, hu] using H.threads u
  · have hcount := count_update Thread.InWrite s.threads t ⟨.running, [.snapshot], 0⟩
    rw [if_neg (by simp [Thread.InWrite, hsections]), if_neg (by simp [Thread.InWrite])] at hcount
    exact H.readers.trans hcount.symm
  · have hcount := count_update (·.phase.isWaiting) s.threads t ⟨.running, [.snapshot], 0⟩
    have := H.waiting
    rw [if_neg (c := Phase.isWaiting .running = true) nofun] at hcount
    show n = count (·.phase.isWaiting) (Function.update s.threads t _)
    omega
  · simp [State.setThread, Thread.InSnapshot]
  · rw [hin u hu, hin v hv]

/-- One pass of the loop; `n` is the number of announced threads besides this one. -/
theorem Inv.tryWrite (H : Inv s) {n : Nat} (hp : (s.threads t).phase ≠ .leaving)
    (hd : (s.threads t).writeDepth = 0)
    (hn : n + (if (s.threads t).phase.isWaiting then 1 else 0) = s.waitingWriters) :
    Inv ({ s with waitingWriters := n + 1 }.tryWrite t) := by
  simp only [State.tryWrite]
  split
  · refine H.setPhase (n := n + 1) hp hd nofun ?_
    rw [if_pos (c := Phase.isWaiting (.waiting true) = true) rfl]
    omega
  · rename_i hfree
    obtain ⟨hw, hr⟩ := not_or.mp hfree
    have hs : (s.threads t).sections = [] := by
      refine ((H.threads t).of_running hp hd).resolve_right fun h => hw ?_
      exact H.writing t (by simp [Thread.InSnapshot, h])
    rw [hs, hd]
    exact H.begin (by simpa using hw) (by omega) hs (by simpa using hn)

theorem Inv.snapshot (H : Inv s) (hp : (s.threads t).phase = .running) : Inv (s.snapshot t) := by
  unfold State.snapshot
  split
  · exact H
  · rename_i hd
    refine H.tryWrite (by simp [hp]) (by omega) ?_
    simp [hp, Phase.isWaiting]

/-- The end of a snapshot. -/
theorem Inv.endSnapshot (H : Inv s) (hth : s.threads t = ⟨.running, [.snapshot], 0⟩) :
    Inv { s.setThread t ⟨.running, [], 0⟩ with writer := false } := by
  have ht : (s.threads t).InSnapshot := by simp [Thread.InSnapshot, hth]
  have hnone : ∀ u, ¬ (Function.update s.threads t ⟨.running, [], 0⟩ u).InSnapshot := by
    intro u hu
    by_cases hne : u = t
    · subst u; simp [Thread.InSnapshot] at hu
    · rw [Function.update_of_ne hne] at hu
      exact hne (H.alone u t hu ht)
  have hok : Thread.OK ⟨.running, [], 0⟩ := .outside nofun
  refine ⟨fun u => ?_, ?_, ?_, fun u hu => absurd hu (hnone u), nofun,
    fun u _ hu => absurd hu (hnone u)⟩
  · by_cases hu : u = t
    · subst u; simpa [State.setThread] using hok
    · simpa [State.setThread, hu] using H.threads u
  · have hcount := count_update Thread.InWrite s.threads t ⟨.running, [], 0⟩
    rw [if_neg (H.excludes ht), if_neg (by simp [Thread.InWrite])] at hcount
    exact H.readers.trans hcount.symm
  · have hcount := count_update (·.phase.isWaiting) s.threads t ⟨.running, [], 0⟩
    rw [hth] at hcount
    exact H.waiting.trans (Nat.add_right_cancel hcount).symm

theorem Inv.exit (H : Inv s) (hp : (s.threads t).phase = .running) (h : s.exit t = some s') :
    Inv s' := by
  rcases (H.threads t).running_cases hp with hth | hth | ⟨n, hth⟩
  · simp only [State.exit, hth] at h
    cases h
  · simp only [State.exit, hth] at h
    cases h
    exact (H.endSnapshot hth).notifyAll
  cases n with
  | zero =>
    simp only [State.exit, hth, List.replicate_zero, List.nil_append] at h
    cases h
    refine H.set ⟨.leaving, [.outermostWrite], 0⟩ .leaving rfl ?_ ?_ rfl
      (fun h => (H.writer h).1) ?_
    · simp [Thread.InWrite, State.setThread, hth]
    · simp [hp, Phase.isWaiting, State.setThread]
    · simp [Thread.InSnapshot, hth]
  | succ n =>
    simp only [State.exit, hth, List.replicate_succ, List.cons_append] at h
    cases h
    have hok : Thread.OK ⟨.running, List.replicate n Section.nestedWrite ++ [Section.outermostWrite], n + 1⟩ :=
      .write n
    refine H.set _ hok rfl ?_ ?_ rfl (fun h => (H.writer h).1) ?_
    · simp [Thread.InWrite, State.setThread, hth]
    · simp [hp, Phase.isWaiting, State.setThread]
    · simp [Thread.InSnapshot, hth]

theorem Inv.step (H : Inv s) {a : Action} (h : s.step t a = some s') : Inv s' := by
  simp only [State.step] at h
  split at h
  · cases h; exact H.persistentWrite ‹_›
  · cases h; exact H.snapshot ‹_›
  · exact H.exit ‹_› h
  · cases h; exact H.tryRead ‹_›
  · cases h; exact H.release ‹_›
  · rename_i hp
    cases h
    have hpos : 0 < s.waitingWriters := by
      rw [H.waiting]; exact count_pos_of (i := t) (by rw [hp]; rfl)
    have hn : s.waitingWriters = s.waitingWriters - 1 + 1 := by omega
    have hinv := H.tryWrite (t := t) (n := s.waitingWriters - 1) (by simp [hp])
      ((H.threads t).depth_eq (by simp [hp])) (by simp [hp, Phase.isWaiting]; omega)
    rwa [← hn] at hinv
  · rename_i hp
    cases h
    refine H.setPhase (by simp [hp]) ((H.threads t).depth_eq (by simp [hp])) nofun ?_
    simp [hp, Phase.isWaiting]
  · rename_i hp
    cases h
    have hpos : 0 < s.waitingWriters := by
      rw [H.waiting]; exact count_pos_of (i := t) (by rw [hp]; rfl)
    refine H.setPhase (by simp [hp]) ((H.threads t).depth_eq (by simp [hp])) nofun ?_
    simp [hp, Phase.isWaiting]
    omega
  · cases h

theorem reachable_inv (h : (system Tid).Reachable s) : Inv s :=
  h.invariant (fun _ hs => hs ▸ Inv.init) fun _ _ _ H hs => H.step hs

/-- A snapshot's body runs alone, `_readers` counts the outermost writes, and a thread inside a
write enters a nested one at once. -/
theorem snapshot_isolation (h : (system Tid).Reachable s) :
    (∀ t u, (s.threads t).InSnapshot →
      ¬ (s.threads u).InWrite ∧ ((s.threads u).InSnapshot → u = t)) ∧
    s.readers = (Finset.univ.filter fun t => (s.threads t).InWrite).card ∧
    ∀ t, (s.threads t).InWrite →
      (∀ asleep, (s.threads t).phase ≠ .entering asleep) ∧
      ((s.threads t).phase = .running → ∃ s', s.step t .persistentWrite = some s' ∧
        (s'.threads t).phase = .running ∧
        (s'.threads t).sections = .nestedWrite :: (s.threads t).sections) := by
  have H := reachable_inv h
  refine ⟨fun t u ht => ⟨H.excludes ht, fun hu => H.alone u t hu ht⟩,
    H.readers.trans count_eq_card, fun t ht => ⟨fun asleep hp => ?_, fun hp => ?_⟩⟩
  · exact not_inWrite (H.threads t) (by simp [hp]) ((H.threads t).depth_eq (by simp [hp])) ht
  · have hd : 0 < (s.threads t).writeDepth := by
      by_contra hd
      exact not_inWrite (H.threads t) (by simp [hp]) (by omega) ht
    refine ⟨s.persistentWrite t, by simp [State.step, hp], ?_⟩
    simp [State.persistentWrite, hd, State.setThread, hp]

end

/-- Thread 0 is in a nested write when thread 1 asks for a snapshot, thread 2 in the loop of
`persistent_write`. -/
def sampleSchedule : List (Fin 3 × Action) :=
  [(0, .persistentWrite), (0, .check), (1, .snapshot), (0, .persistentWrite),
    (2, .persistentWrite), (2, .check)]

theorem snapshot_isolation_nested : ∃ s : State (Fin 3),
    (s.threads 0).sections = [.nestedWrite, .outermostWrite] ∧
    (s.threads 1).phase = .waiting true ∧ (s.threads 2).phase = .entering true ∧
    s.readers = (Finset.univ.filter fun t => (s.threads t).InWrite).card ∧
    ∃ s', s.step 0 .persistentWrite = some s' ∧ (s'.threads 0).phase = .running := by
  have hsample : ((sampleSchedule.foldlM (fun s a => State.step s a.1 a.2) State.init).map fun s =>
      decide ((s.threads 0).sections = [.nestedWrite, .outermostWrite] ∧
        (s.threads 0).phase = .running ∧ (s.threads 1).phase = .waiting true ∧
        (s.threads 2).phase = .entering true)) = some true := by
    decide
  obtain ⟨s, hs, hd⟩ := Option.map_eq_some_iff.mp hsample
  obtain ⟨h₀, hrun, h₁, h₂⟩ := of_decide_eq_true hd
  have hreach : (system (Fin 3)).Reachable s :=
    (System.Reachable.init rfl).run (System.run_of_foldlM (fun _ _ _ h => h) hs)
  obtain ⟨-, hreaders, hnested⟩ := snapshot_isolation hreach
  obtain ⟨s', hs', hp, -⟩ := (hnested 0 (by simp [Thread.InWrite, h₀])).2 hrun
  exact ⟨s, h₀, h₁, h₂, hreaders, s', hs', hp⟩

end WebSSH.Isolation
