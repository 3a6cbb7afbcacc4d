import Mathlib.Data.List.Basic
import WebSSH.Runtime.Lifecycle

/-!
# What a shutdown has done when it publishes its report

For each phase of `begin_shutdown`: which jobs it is still going to signal and which waiters it
is still going to wait for. What the other threads do in the meantime only sets events, finishes
jobs and moves the clock (`State.Extends`).
-/

namespace WebSSH.Runtime
open Lib

section
set_option linter.unusedSectionVars false

variable {Owner : Type} [DecidableEq Owner] {s s' : State Owner} {c c' : Shutdown Owner}
  {result : Result Owner}

namespace Phase

/-- The shutdown is still going to signal the job. -/
def Signals : Phase Owner → JobHandle Owner → Prop
  | .starting _, _ | .callbacks _, _ | .aborted, _ => True
  | .immediate left, handle => handle.deferCancelUntilCallbacks = true ∨ handle ∈ left
  | .awaiting _, handle => handle.deferCancelUntilCallbacks = true
  | .deferred left, handle => handle ∈ left
  | .joining _, _ | .testing .., _ | .published, _ => False

/-- The shutdown is still going to wait for the waiter. -/
def Awaits : Phase Owner → Waiter Owner → Prop
  | .starting _, _ | .callbacks _, _ | .immediate _, _ | .aborted, _ => True
  | .awaiting left, waiter => waiter ∈ left
  | .deferred _, _ | .joining _, _ | .testing .., _ | .published, _ => False

/-- The callbacks that have not returned. -/
def callbacksLeft (callbacks : List String) : Phase Owner → List String
  | .starting _ => callbacks
  | .callbacks left => left
  | _ => []

/-- The jobs that are signalled without waiting for the waiters. -/
def signalledEarly : Phase Owner → List (JobHandle Owner)
  | .immediate left => left
  | _ => []

end Phase

/-- What the steps of other threads may change once a shutdown has started. -/
structure State.Extends (s s' : State Owner) : Prop where
  accepted : s'.accepted = s.accepted
  removedBefore : s'.removedBefore = s.removedBefore
  shutdownCallbacks : s'.shutdownCallbacks = s.shutdownCallbacks
  done : ∀ i, s.done i = true → s'.done i = true
  cancelEvent : ∀ i, s.cancelEvent i = true → s'.cancelEvent i = true
  doneEvent : ∀ i, s.doneEvent i = true → s'.doneEvent i = true
  now : s.now ≤ s'.now

/-- Nothing of what the shutdown looks at has changed. -/
theorem State.Extends.of_eq (haccepted : s'.accepted = s.accepted)
    (hremoved : s'.removedBefore = s.removedBefore)
    (hcallbacks : s'.shutdownCallbacks = s.shutdownCallbacks) (hdone : s'.done = s.done)
    (hcancel : s'.cancelEvent = s.cancelEvent) (hevent : s'.doneEvent = s.doneEvent)
    (hnow : s'.now = s.now) : s.Extends s' where
  accepted := haccepted
  removedBefore := hremoved
  shutdownCallbacks := hcallbacks
  done _ h := by rwa [hdone]
  cancelEvent _ h := by rwa [hcancel]
  doneEvent _ h := by rwa [hevent]
  now := hnow.ge

theorem State.expired_iff : s.expired c = true ↔ ∃ d, c.deadline = some d ∧ d ≤ s.now := by
  rw [State.expired, Option.any_eq_true]
  simp

theorem State.Extends.expired (E : s.Extends s') (h : s.expired c = true) :
    s'.expired c = true := by
  obtain ⟨d, hd, hle⟩ := State.expired_iff.mp h
  exact State.expired_iff.mpr ⟨d, hd, hle.trans E.now⟩

/-- The waiter has finished or the deadline has passed. -/
def State.Settled (s : State Owner) (c : Shutdown Owner) (waiter : Waiter Owner) : Prop :=
  s.doneEvent waiter.doneEvent = true ∨ s.expired c = true

def State.unfinished (s : State Owner) (handles : List (JobHandle Owner)) :
    List (JobHandle Owner) :=
  handles.filter fun handle => !s.done handle.jobId

theorem State.unfinished_append (handles handles' : List (JobHandle Owner)) :
    s.unfinished (handles ++ handles') = s.unfinished handles ++ s.unfinished handles' :=
  List.filter_append ..

/-- Jobs that finish leave lists with the same unfinished jobs alike. -/
theorem State.unfinished_congr {handles handles' : List (JobHandle Owner)}
    (hdone : ∀ i, s.done i = true → s'.done i = true)
    (h : s.unfinished handles = s.unfinished handles') :
    s'.unfinished handles = s'.unfinished handles' := by
  have hsub : ∀ l, s'.unfinished (s.unfinished l) = s'.unfinished l := by
    intro l
    rw [State.unfinished, State.unfinished, List.filter_filter]
    apply List.filter_congr
    intro handle _
    cases hs : s.done handle.jobId
    · simp
    · simp [hdone _ hs]
  rw [← hsub handles, h, hsub]

/-- `found` is what the tests of `all`, of which those of `left` are to come, have found unfinished:
at least what is unfinished now, and at most what was unfinished before. -/
def Tests {α : Type} (before now : α → Bool) (all left found : List α) : Prop :=
  ∃ tested, all = tested ++ left ∧ (tested.filter (!now ·)).Sublist found ∧
    found.Sublist (tested.filter (!before ·))

section
variable {α : Type} {before now now' : α → Bool} {all left found : List α}

theorem Tests.start : Tests before now all all [] :=
  ⟨[], rfl, List.Sublist.refl _, List.Sublist.refl _⟩

theorem Tests.later (h : Tests before now all left found)
    (hnow : ∀ a, now a = true → now' a = true) :
    Tests before now' all left found := by
  obtain ⟨tested, hall, hleast, hmost⟩ := h
  refine ⟨tested, hall, ?_, hmost⟩
  refine (List.monotone_filter_right tested fun a ha => ?_).trans hleast
  cases hb : now a with
  | true =>
    rw [hnow a hb] at ha
    cases ha
  | false => rfl

/-- The next test. -/
theorem Tests.test {a : α} (h : Tests before now all (a :: left) found)
    (hbefore : before a = true → now a = true) :
    Tests before now all left (if now a then found else found ++ [a]) := by
  obtain ⟨tested, hall, hleast, hmost⟩ := h
  refine ⟨tested ++ [a], by rw [hall, List.append_assoc, List.singleton_append], ?_⟩
  rw [List.filter_append, List.filter_append]
  split
  · rename_i hdone
    rw [List.filter_cons_of_neg (by rw [hdone]; exact Bool.false_ne_true), List.filter_nil,
      List.append_nil]
    exact ⟨hleast, hmost.trans (List.sublist_append_left _ _)⟩
  · rename_i hrunning
    have hnot : before a ≠ true := fun hb => hrunning (hbefore hb)
    rw [List.filter_cons_of_pos (by simpa using hrunning),
      List.filter_cons_of_pos (by simpa using hnot), List.filter_nil, List.filter_nil]
    exact ⟨hleast.append_right _, hmost.append_right _⟩

theorem Tests.finish (h : Tests before now all [] found) :
    (all.filter (!now ·)).Sublist found ∧ found.Sublist (all.filter (!before ·)) := by
  obtain ⟨tested, rfl, h⟩ := h
  rwa [List.append_nil]

end

/-- What has been found while the report is being made. -/
def Shutdown.Found (s : State Owner) (c : Shutdown Owner) : Prop :=
  ∀ jobs waiters foundJobs foundWaiters, c.phase = .testing jobs waiters foundJobs foundWaiters →
    Tests (fun handle => c.doneBefore.1 handle.jobId) (fun handle => s.done handle.jobId)
        c.handles jobs foundJobs ∧
      Tests (fun waiter => c.doneBefore.2 waiter.doneEvent)
        (fun waiter => s.doneEvent waiter.doneEvent) c.callbackWaiters waiters foundWaiters ∧
      (∀ i, c.doneBefore.1 i = true → s.done i = true) ∧
      (∀ i, c.doneBefore.2 i = true → s.doneEvent i = true) ∧
      c.handles.filter (fun handle => !c.doneBefore.1 handle.jobId) =
        s.accepted.filter (fun handle => !c.doneBefore.1 handle.jobId)

theorem Shutdown.Found.extend (h : c.Found s) (E : s.Extends s') : c.Found s' := by
  intro jobs waiters foundJobs foundWaiters hp
  obtain ⟨hjobs, hwaiters, hdone, hevents, hhandles⟩ := h jobs waiters foundJobs foundWaiters hp
  refine ⟨hjobs.later fun handle => E.done _, hwaiters.later fun waiter => E.doneEvent _,
    fun i hi => E.done i (hdone i hi), fun i hi => E.doneEvent i (hevents i hi), ?_⟩
  rw [E.accepted]
  exact hhandles

theorem Shutdown.Found.of_phase (h : ∀ jobs waiters foundJobs foundWaiters,
    c.phase ≠ .testing jobs waiters foundJobs foundWaiters) : c.Found s :=
  fun jobs waiters foundJobs foundWaiters hp => absurd hp (h jobs waiters foundJobs foundWaiters)

structure Shutdown.Ok (s : State Owner) (c : Shutdown Owner) : Prop where
  known : ∀ handle ∈ c.handles, handle ∈ s.accepted
  unfinished : s.unfinished c.handles = s.unfinished s.accepted
  covered : ∀ handle ∈ s.accepted, handle ∈ c.handles ∨
    s.done handle.jobId = true ∧ handle.jobId ∈ s.removedBefore
  callbacks : c.callbacks = s.shutdownCallbacks
  returned : c.phase = .aborted ∨ c.returned ++ c.phase.callbacksLeft c.callbacks = c.callbacks
  early : ∀ handle ∈ c.phase.signalledEarly,
    handle ∈ c.handles ∧ handle.deferCancelUntilCallbacks = false
  signalled : ∀ handle ∈ c.handles, s.cancelEvent handle.jobId = true ∨ c.phase.Signals handle
  awaited : ∀ waiter ∈ c.callbackWaiters, s.Settled c waiter ∨ c.phase.Awaits waiter
  found : c.Found s

theorem Shutdown.Ok.extend (K : c.Ok s) (E : s.Extends s') : c.Ok s' where
  known := by rw [E.accepted]; exact K.known
  unfinished := by rw [E.accepted]; exact State.unfinished_congr E.done K.unfinished
  covered := by
    rw [E.accepted, E.removedBefore]
    intro handle hmem
    exact (K.covered handle hmem).imp_right (And.imp_left (E.done _))
  callbacks := K.callbacks.trans E.shutdownCallbacks.symm
  returned := K.returned
  early := K.early
  signalled handle hmem := (K.signalled handle hmem).imp_left (E.cancelEvent _)
  awaited waiter hmem := (K.awaited waiter hmem).imp_left (.imp (E.doneEvent _) E.expired)
  found := K.found.extend E

structure Inv (s : State Owner) : Prop where
  accepting : s.acceptingJobs = !s.shutdownStarted
  started : s.shutdownStarted = s.shutdown.isSome
  fresh : ∀ handle ∈ s.accepted, handle.jobId < s.nextJobId
  unique : ∀ handle ∈ s.accepted, ∀ handle' ∈ s.accepted, handle.jobId = handle'.jobId →
    handle = handle'
  finished : ∀ i, s.done i = true → ∃ handle ∈ s.accepted, handle.jobId = i
  known : ∀ handle ∈ s.jobs, handle ∈ s.accepted
  unfinished : s.unfinished s.jobs = s.unfinished s.accepted
  covered : s.shutdown = none → ∀ handle ∈ s.accepted, handle ∈ s.jobs ∨
    s.done handle.jobId = true ∧ handle.jobId ∈ s.removedBefore
  ok : ∀ c, s.shutdown = some c → c.Ok s
  report : ∀ report, s.shutdownReport = some report → ∃ c, s.shutdown = some c ∧
    c.phase = .published

theorem Inv.init : Inv (State.init : State Owner) where
  accepting := rfl
  started := rfl
  fresh := by simp [State.init]
  unique := by simp [State.init]
  finished := by simp [State.init]
  known := by simp [State.init]
  unfinished := rfl
  covered := by simp [State.init]
  ok _ h := by cases h
  report _ h := by cases h

/-! ## Steps beside the shutdown -/

/-- A step that leaves the table of jobs and the shutdown alone. -/
theorem Inv.extend (H : Inv s) (E : s.Extends s')
    (hfinished : ∀ i, s'.done i = true → s.done i = true ∨ s.isAccepted i = true)
    (haccepting : s'.acceptingJobs = s.acceptingJobs)
    (hstarted : s'.shutdownStarted = s.shutdownStarted) (hnext : s'.nextJobId = s.nextJobId)
    (hjobs : s'.jobs = s.jobs) (hshutdown : s'.shutdown = s.shutdown)
    (hreport : s'.shutdownReport = s.shutdownReport) : Inv s' where
  accepting := by rw [haccepting, hstarted]; exact H.accepting
  started := by rw [hstarted, hshutdown]; exact H.started
  fresh := by rw [E.accepted, hnext]; exact H.fresh
  unique := by rw [E.accepted]; exact H.unique
  finished i hi := by
    rw [E.accepted]
    rcases hfinished i hi with hi | hi
    · exact H.finished i hi
    · simpa [State.isAccepted] using hi
  known := by rw [hjobs, E.accepted]; exact H.known
  unfinished := by rw [hjobs, E.accepted]; exact State.unfinished_congr E.done H.unfinished
  covered := by
    rw [hshutdown, E.accepted, hjobs, E.removedBefore]
    intro hnone handle hmem
    exact (H.covered hnone handle hmem).imp_right (And.imp_left (E.done _))
  ok c hc := (H.ok c (hshutdown ▸ hc)).extend E
  report := by rw [hreport, hshutdown]; exact H.report

theorem Inv.shutdown_none (H : Inv s) (h : s.acceptingJobs = true) : s.shutdown = none := by
  have hstarted := H.accepting ▸ h
  rw [H.started] at hstarted
  simpa using hstarted

theorem Inv.shutdownReport_none (H : Inv s) (h : s.shutdown = none) : s.shutdownReport = none := by
  cases hr : s.shutdownReport with
  | none => rfl
  | some report =>
    obtain ⟨c, hc, -⟩ := H.report report hr
    rw [h] at hc
    cases hc

theorem Inv.startJob (H : Inv s) (name : String) (ownerId : Owner) (deferCancel submitFails : Bool) :
    Inv (s.startJob name ownerId deferCancel submitFails).2 := by
  simp only [State.startJob]
  split
  · exact H
  split
  · exact H
  rename_i haccepting
  have hnone := H.shutdown_none (by simpa using haccepting)
  have hfresh : ∀ handle ∈ s.accepted, handle.jobId < s.nextJobId + 1 := fun handle hmem =>
    Nat.lt_succ_of_lt (H.fresh handle hmem)
  split
  · exact ⟨H.accepting, H.started, hfresh, H.unique, H.finished, H.known, H.unfinished, H.covered,
      fun c hc => (H.ok c hc).extend (.of_eq rfl rfl rfl rfl rfl rfl rfl), H.report⟩
  · have hunfinished : ∀ handles handle, s.unfinished (handles ++ [handle]) =
        s.unfinished handles ++ s.unfinished [handle] := fun _ _ => State.unfinished_append ..
    refine ⟨H.accepting, H.started, ?_, ?_, ?_, ?_, ?_, fun _ => ?_, fun c hc => ?_, H.report⟩
    · intro handle hmem
      rcases List.mem_append.mp hmem with hmem | hmem
      · exact hfresh handle hmem
      · rw [List.mem_singleton.mp hmem]
        exact Nat.lt_succ_self _
    · intro handle hmem handle' hmem' heq
      rcases List.mem_append.mp hmem with hmem | hmem
      · rcases List.mem_append.mp hmem' with hmem' | hmem'
        · exact H.unique handle hmem handle' hmem' heq
        · rw [List.mem_singleton.mp hmem'] at heq
          exact absurd (H.fresh handle hmem) (by simp only at heq; omega)
      · rcases List.mem_append.mp hmem' with hmem' | hmem'
        · rw [List.mem_singleton.mp hmem] at heq
          exact absurd (H.fresh handle' hmem') (by simp only at heq; omega)
        · rw [List.mem_singleton.mp hmem, List.mem_singleton.mp hmem']
    · intro i hi
      obtain ⟨handle, hmem, heq⟩ := H.finished i hi
      exact ⟨handle, List.mem_append_left _ hmem, heq⟩
    · intro handle hmem
      rcases List.mem_append.mp hmem with hmem | hmem
      · exact List.mem_append_left _ (H.known handle hmem)
      · exact List.mem_append_right _ hmem
    · exact (hunfinished _ _).trans (H.unfinished ▸ (hunfinished _ _).symm)
    · intro handle hmem
      rcases List.mem_append.mp hmem with hmem | hmem
      · exact (H.covered hnone handle hmem).imp_left (List.mem_append_left _)
      · exact .inl (List.mem_append_right _ hmem)
    · rw [hnone] at hc
      cases hc

/-- Only finished jobs are removed. -/
theorem Inv.removeJob (H : Inv s) {job : Nat} (hdone : s.done job = true) :
    Inv (s.removeJob job) := by
  have hunfinished : s.unfinished (s.jobs.filter (·.jobId ≠ job)) = s.unfinished s.jobs := by
    rw [State.unfinished, List.filter_filter]
    apply List.filter_congr
    intro handle _
    by_cases heq : handle.jobId = job
    · simp [heq, hdone]
    · simp [heq]
  refine ⟨H.accepting, H.started, H.fresh, H.unique, H.finished, fun handle hmem => ?_,
    hunfinished.trans H.unfinished, fun hnone handle hmem => ?_, fun c hc => ?_, H.report⟩
  · exact H.known handle ((List.mem_filter.mp hmem).1)
  · have hstarted : s.shutdownStarted = false := by
      rw [H.started, show s.shutdown = none from hnone]
      rfl
    have hremoved : (s.removeJob job).removedBefore = s.removedBefore ++ [job] := by
      simp [State.removeJob, hstarted]
    rw [hremoved]
    rcases H.covered hnone handle hmem with hjob | ⟨hd, hr⟩
    · by_cases heq : handle.jobId = job
      · exact .inr ⟨heq ▸ hdone, List.mem_append_right _ (by simp [heq])⟩
      · exact .inl (List.mem_filter.mpr ⟨hjob, by simpa using heq⟩)
    · exact .inr ⟨hd, List.mem_append_left _ hr⟩
  · have hstarted : s.shutdownStarted = true := by
      rw [H.started, show s.shutdown = some c from hc]
      rfl
    exact (H.ok c hc).extend
      (.of_eq rfl (by simp [State.removeJob, hstarted]) rfl rfl rfl rfl rfl)

theorem State.Extends.setCancelEvent (job : Nat) : s.Extends (s.setCancelEvent job) := by
  refine ⟨Eq.refl _, Eq.refl _, Eq.refl _, fun _ h => h, fun i hi => ?_, fun _ h => h, le_refl _⟩
  rw [State.setCancelEvent]
  by_cases heq : i = job
  · simp [heq]
  · simpa [Function.update_of_ne heq] using hi

theorem State.Extends.cancelHandle (job : Nat) : s.Extends (s.cancelHandle job).2 := by
  rw [State.cancelHandle]
  split
  · exact .of_eq rfl rfl rfl rfl rfl rfl rfl
  · exact .setCancelEvent job

theorem State.cancelHandle_cancelEvent (job : Nat) :
    (s.cancelHandle job).2.cancelEvent job = true := by
  rw [State.cancelHandle]
  split
  · assumption
  · exact Function.update_self ..

theorem Inv.setCancelEvent (H : Inv s) (job : Nat) : Inv (s.setCancelEvent job) :=
  H.extend (.setCancelEvent job) (fun _ => .inl) rfl rfl rfl rfl rfl rfl

theorem Inv.cancelHandle (H : Inv s) (job : Nat) : Inv (s.cancelHandle job).2 := by
  rw [State.cancelHandle]
  split
  · exact H
  · exact H.setCancelEvent job

theorem Inv.registerShutdownCallback (H : Inv s) (name : String) :
    Inv (s.registerShutdownCallback name).2 := by
  rw [State.registerShutdownCallback]
  split
  · exact H
  · rename_i haccepting
    have hnone := H.shutdown_none (by simp only [not_or] at haccepting; simpa using haccepting.2.1)
    exact ⟨H.accepting, H.started, H.fresh, H.unique, H.finished, H.known, H.unfinished, H.covered,
      fun c hc => (by cases hnone.symm.trans hc), H.report⟩

theorem Inv.beginShutdown (H : Inv s) (graceSeconds : Option Rat) (fromWorker : Bool) :
    Inv (s.beginShutdown graceSeconds fromWorker).2 := by
  rw [State.beginShutdown.eq_def]
  split
  · exact H
  split
  · exact H
  split
  · exact H
  split
  · exact H.extend (.of_eq rfl rfl rfl rfl rfl rfl rfl)
      (fun _ => .inl) rfl rfl rfl rfl rfl rfl
  split
  · exact H.extend (.of_eq rfl rfl rfl rfl rfl rfl rfl)
      (fun _ => .inl) rfl rfl rfl rfl rfl rfl
  · rename_i hreport hstarted
    have hnone : s.shutdown = none := by simpa [H.started] using hstarted
    refine ⟨rfl, rfl, H.fresh, H.unique, H.finished, H.known, H.unfinished, nofun, fun c hc => ?_,
      fun report hr => ?_⟩
    · cases hc
      exact ⟨H.known, H.unfinished, H.covered hnone, rfl, .inr rfl, nofun,
        fun _ _ => .inr trivial, nofun, .of_phase nofun⟩
    · cases (H.shutdownReport_none hnone).symm.trans hr

/-! ## The steps of the shutdown -/

/-- A step of the shutdown that has not published: `s'` is what it has done to the events. -/
theorem Inv.setShutdown (H : Inv s') (h : s'.shutdown = some c) (hunpublished : c.phase ≠ .published)
    (K : c'.Ok s') : Inv (s'.setShutdown c') := by
  have hstarted : s'.shutdownStarted = true := by rw [H.started, h]; rfl
  refine ⟨H.accepting, hstarted, H.fresh, H.unique, H.finished, H.known, H.unfinished, nofun,
    fun d hd => ?_, fun report hr => ?_⟩
  · cases hd
    exact K.extend (.of_eq rfl rfl rfl rfl rfl rfl rfl)
  · obtain ⟨d, hd, hp⟩ := H.report report hr
    cases h.symm.trans hd
    exact absurd hp hunpublished

/-- A later phase, by what it says of the callbacks, the jobs and the waiters. -/
theorem Shutdown.Ok.atPhase (K : c.Ok s) {phase : Phase Owner}
    (haborted : c.phase ≠ .aborted)
    (hreturned : phase.callbacksLeft c.callbacks = c.phase.callbacksLeft c.callbacks)
    (hearly : ∀ handle ∈ phase.signalledEarly,
      handle ∈ c.handles ∧ handle.deferCancelUntilCallbacks = false)
    (hsignals : ∀ handle ∈ c.handles, c.phase.Signals handle →
      s.cancelEvent handle.jobId = true ∨ phase.Signals handle)
    (hawaits : ∀ waiter ∈ c.callbackWaiters, c.phase.Awaits waiter →
      s.Settled c waiter ∨ phase.Awaits waiter)
    (hfound : Shutdown.Found s { c with phase := phase }) :
    Shutdown.Ok s { c with phase := phase } where
  known := K.known
  unfinished := K.unfinished
  covered := K.covered
  callbacks := K.callbacks
  returned := .inr ((congrArg _ hreturned).trans (K.returned.resolve_left haborted))
  early := hearly
  signalled handle hmem := (K.signalled handle hmem).elim .inl (hsignals handle hmem)
  awaited waiter hmem := (K.awaited waiter hmem).elim .inl (hawaits waiter hmem)
  found := hfound

theorem Inv.publish (H : Inv s) (h : s.shutdown = some c) {jobs : List (JobHandle Owner)}
    {callbacks : List (Waiter Owner)} (hp : c.phase = .testing [] [] jobs callbacks) :
    Inv (s.publish c jobs callbacks).2 := by
  have hpublished : c.phase ≠ .published := by rw [hp]; exact nofun
  have K := H.ok c h
  have hok : Shutdown.Ok s { c with phase := .published } := by
    refine K.atPhase (by rw [hp]; exact nofun) ?_ nofun ?_ ?_ (.of_phase nofun) <;> rw [hp]
    · rfl
    · exact fun _ _ => False.elim
    · exact fun _ _ => False.elim
  have H' := H.setShutdown h hpublished hok
  exact ⟨H'.accepting, H'.started, H'.fresh, H'.unique, H'.finished, H'.known, H'.unfinished,
    H'.covered, fun d hd => (H'.ok d hd).extend (.of_eq rfl rfl rfl rfl rfl rfl rfl),
    fun _ _ => ⟨_, rfl, rfl⟩⟩

/-- The shutdown goes on with its tests, or is left without a report. -/
theorem Inv.toPhase (H : Inv s) (h : s.shutdown = some c) {phase : Phase Owner}
    (hunpublished : c.phase ≠ .published) (K : Shutdown.Ok s { c with phase := phase }) :
    Inv (s.atPhase c phase) :=
  H.setShutdown h hunpublished K

/-- What no `Exception` is leaves the shutdown as it was. -/
theorem Inv.aborted (H : Inv s) (h : s.shutdown = some c) (hunpublished : c.phase ≠ .published) :
    Inv (s.atPhase c .aborted) := by
  have K := H.ok c h
  exact H.toPhase h hunpublished ⟨K.known, K.unfinished, K.covered, K.callbacks, .inl rfl, nofun,
    fun _ _ => .inr trivial, fun _ _ => .inr trivial, .of_phase nofun⟩

theorem Inv.proceed (H : Inv s) (h : s.shutdown = some c) (hs : s.proceed c = some (result, s')) :
    Inv s' := by
  have K := H.ok c h
  simp only [State.proceed] at hs
  split at hs
  case h_1 grace hp =>
    cases hs
    refine H.setShutdown h (by rw [hp]; exact nofun) ⟨K.known, K.unfinished, K.covered, K.callbacks,
      .inr ?_, nofun, fun _ _ => .inr trivial, fun _ _ => .inr trivial, .of_phase nofun⟩
    simpa [hp, Phase.callbacksLeft] using K.returned
  case h_2 hp =>
    cases hs
    refine H.setShutdown h (by rw [hp]; exact nofun)
      (K.atPhase (by rw [hp]; exact nofun) (by rw [hp]; rfl) ?_ ?_ ?_ (.of_phase nofun))
    · simp only [Phase.signalledEarly, List.mem_filter]
      exact fun handle hmem => ⟨hmem.1, by simpa using hmem.2⟩
    · intro handle hmem _
      right
      cases hdefer : handle.deferCancelUntilCallbacks with
      | true => exact .inl hdefer
      | false => exact .inr (List.mem_filter.mpr ⟨hmem, by simp [hdefer]⟩)
    · exact fun _ _ _ => .inr trivial
  case h_3 => cases hs
  case h_4 hp =>
    cases hs
    refine H.setShutdown h (by rw [hp]; exact nofun)
      (K.atPhase (by rw [hp]; exact nofun) (by rw [hp]; rfl) nofun ?_ ?_
      (.of_phase nofun))
    · rw [hp]
      exact fun handle _ hsig => .inr (hsig.resolve_right List.not_mem_nil)
    · exact fun waiter hmem _ => .inr hmem
  case h_5 handle left hp =>
    cases hs
    have K' := K.extend (.cancelHandle handle.jobId)
    have hearly := K.early
    rw [hp] at hearly
    refine (H.cancelHandle handle.jobId).setShutdown ?_ (by rw [hp]; exact nofun)
      (K'.atPhase (by rw [hp]; exact nofun) (by rw [hp]; rfl) ?_ ?_ ?_ (.of_phase nofun))
    · rw [State.cancelHandle]
      split <;> exact h
    · exact fun _ hmem => hearly _ (List.mem_cons_of_mem _ hmem)
    · rw [hp]
      rintro other _ (hdefer | hmem)
      · exact .inr (.inl hdefer)
      · rcases List.mem_cons.mp hmem with rfl | hmem
        · exact .inl (State.cancelHandle_cancelEvent _)
        · exact .inr (.inr hmem)
    · exact fun _ _ _ => .inr trivial
  case h_6 hp =>
    cases hs
    refine H.setShutdown h (by rw [hp]; exact nofun)
      (K.atPhase (by rw [hp]; exact nofun) (by rw [hp]; rfl) nofun ?_ ?_
      (.of_phase nofun))
    · rw [hp]
      exact fun handle hmem hsig => .inr (List.mem_filter.mpr ⟨hmem, hsig⟩)
    · rw [hp]
      exact fun waiter _ hmem => absurd hmem List.not_mem_nil
  case h_7 waiter left hp =>
    have hawaiting : ∀ rest : List (Waiter Owner),
        (∀ other ∈ waiter :: left, s.Settled c other ∨ other ∈ rest) →
        Inv (s.atPhase c (.awaiting rest)) := by
      intro rest hrest
      refine H.setShutdown h (by rw [hp]; exact nofun)
        (K.atPhase (by rw [hp]; exact nofun) (by rw [hp]; rfl) nofun ?_ ?_
      (.of_phase nofun))
      · rw [hp]
        exact fun _ _ => .inr
      · rw [hp]
        exact fun other _ => hrest other
    split at hs
    · cases hs
      exact hawaiting [] fun _ _ => .inl (.inr ‹_›)
    split at hs
    · cases hs
      apply hawaiting left
      intro other hmem
      rcases List.mem_cons.mp hmem with rfl | hmem
      · exact .inl (.inl ‹_›)
      · exact .inr hmem
    · cases hs
  case h_8 hp =>
    cases hs
    refine H.setShutdown h (by rw [hp]; exact nofun)
      (K.atPhase (by rw [hp]; exact nofun) (by rw [hp]; rfl) nofun ?_ ?_
      (.of_phase nofun))
    · rw [hp]
      exact fun _ _ hmem => absurd hmem List.not_mem_nil
    · rw [hp]
      exact fun _ _ => .inr
  case h_9 handle left hp =>
    cases hs
    have K' := K.extend (.cancelHandle handle.jobId)
    refine (H.cancelHandle handle.jobId).setShutdown ?_ (by rw [hp]; exact nofun)
      (K'.atPhase (by rw [hp]; exact nofun) (by rw [hp]; rfl) nofun ?_ ?_ (.of_phase nofun))
    · rw [State.cancelHandle]
      split <;> exact h
    · rw [hp]
      intro other _ hmem
      rcases List.mem_cons.mp hmem with rfl | hmem
      · exact .inl (State.cancelHandle_cancelEvent _)
      · exact .inr hmem
    · rw [hp]
      exact fun _ _ => False.elim
  case h_10 hp =>
    cases hs
    have hreturned := K.returned.resolve_left (by rw [hp]; exact nofun)
    have hsignalled := K.signalled
    have hawaited := K.awaited
    rw [hp] at hreturned hsignalled hawaited
    refine H.setShutdown h (by rw [hp]; exact nofun) ⟨K.known, K.unfinished, K.covered, K.callbacks,
      .inr hreturned, nofun, hsignalled, hawaited, ?_⟩
    intro jobs waiters foundJobs foundWaiters htesting
    cases htesting
    exact ⟨.start, .start, fun _ h => h, fun _ h => h, K.unfinished⟩
  case h_11 handle left hp =>
    have hjoining : ∀ rest, Inv (s.atPhase c (.joining rest)) := by
      intro rest
      refine H.setShutdown h (by rw [hp]; exact nofun) (K.atPhase (by rw [hp]; exact nofun)
        (by rw [hp]; rfl) nofun ?_ ?_ (.of_phase nofun))
      · rw [hp]
        exact fun _ _ => False.elim
      · rw [hp]
        exact fun _ _ => False.elim
    split at hs
    · cases hs; exact hjoining []
    split at hs
    · split at hs <;> cases hs
      · exact H.aborted h (by rw [hp]; exact nofun)
      · exact hjoining left
    · cases hs
  case h_12 handle left waiters jobs callbacks hp =>
    cases hs
    refine H.setShutdown h (by rw [hp]; exact nofun) (K.atPhase (by rw [hp]; exact nofun)
      (by rw [hp]; rfl) nofun ?_ ?_ ?_)
    · rw [hp]
      exact fun _ _ => False.elim
    · rw [hp]
      exact fun _ _ => False.elim
    · obtain ⟨hjobs, hwaiters, hdone, hevents, hhandles⟩ := K.found _ _ _ _ hp
      intro _ _ _ _ htesting
      cases htesting
      exact ⟨hjobs.test (hdone _), hwaiters, hdone, hevents, hhandles⟩
  case h_13 waiter left jobs callbacks hp =>
    cases hs
    refine H.setShutdown h (by rw [hp]; exact nofun) (K.atPhase (by rw [hp]; exact nofun)
      (by rw [hp]; rfl) nofun ?_ ?_ ?_)
    · rw [hp]
      exact fun _ _ => False.elim
    · rw [hp]
      exact fun _ _ => False.elim
    · obtain ⟨hjobs, hwaiters, hdone, hevents, hhandles⟩ := K.found _ _ _ _ hp
      intro _ _ _ _ htesting
      cases htesting
      exact ⟨hjobs, hwaiters.test (hevents _), hdone, hevents, hhandles⟩
  case h_14 jobs callbacks hp =>
    cases hs
    exact H.publish h hp
  case h_15 => cases hs
  case h_16 => cases hs

theorem Inv.callback (H : Inv s) (h : s.shutdown = some c) {waiters : List (Waiter Owner)}
    (hs : s.callback c waiters = some (result, s')) : Inv s' := by
  have K := H.ok c h
  simp only [State.callback] at hs
  split at hs
  · rename_i name left hp
    cases hs
    refine H.setShutdown h (by rw [hp]; exact nofun) ⟨K.known, K.unfinished, K.covered, K.callbacks,
      .inr ?_, nofun, fun _ _ => .inr trivial, fun _ _ => .inr trivial, .of_phase nofun⟩
    have hreturned := K.returned.resolve_left (by rw [hp]; exact nofun)
    rw [hp] at hreturned
    simpa [Phase.callbacksLeft] using hreturned
  · cases hs

theorem State.act_of_step {action : Action Owner} {x : Result Owner × State Owner}
    (h : s.step action = some x) : s.act action = some x := by
  unfold State.step at h
  split at h
  · cases h
  · exact h

theorem Inv.act (H : Inv s) {action : Action Owner} (h : s.act action = some (result, s')) :
    Inv s' := by
  cases action with
  | startJob name ownerId deferCancel submitFails =>
    have hstart := H.startJob name ownerId deferCancel submitFails
    rw [Option.some.inj h] at hstart
    exact hstart
  | complete job fatal =>
    simp only [State.act] at h
    split at h
    · rename_i haccepted
      cases h
      refine H.extend ⟨rfl, rfl, rfl, fun i hi => ?_, fun _ h => h, fun _ h => h, le_refl _⟩
        (fun i hi => ?_) rfl rfl rfl rfl rfl rfl
      · by_cases heq : i = job
        · simp [heq]
        · simpa [Function.update_of_ne heq] using hi
      · by_cases heq : i = job
        · exact .inr (heq ▸ haccepted.1)
        · exact .inl (by simpa [Function.update_of_ne heq] using hi)
    · cases h
  | removeJob job =>
    simp only [State.act] at h
    split at h
    · cases h; exact H.removeJob ‹_›
    · cases h
  | cancel job =>
    simp only [State.act] at h
    split at h
    · have hcancel := H.cancelHandle job
      rw [Option.some.inj h] at hcancel
      exact hcancel
    · cases h
  | registerShutdownCallback name =>
    have hregister := H.registerShutdownCallback name
    rw [Option.some.inj h] at hregister
    exact hregister
  | setEvent event =>
    cases h
    refine H.extend ⟨rfl, rfl, rfl, fun _ h => h, fun _ h => h, fun i hi => ?_, le_refl _⟩
      (fun _ => .inl) rfl rfl rfl rfl rfl rfl
    by_cases heq : i = event
    · simp [heq]
    · simpa [Function.update_of_ne heq] using hi
  | beginShutdown graceSeconds fromWorker =>
    have hbegin := H.beginShutdown graceSeconds fromWorker
    rw [Option.some.inj h] at hbegin
    exact hbegin
  | callback waiters =>
    obtain ⟨c, hc, hs⟩ := Option.bind_eq_some_iff.mp h
    exact H.callback hc hs
  | abort =>
    obtain ⟨c, hc, hs⟩ := Option.bind_eq_some_iff.mp h
    simp only [State.abort] at hs
    split at hs <;> rename_i hp <;> cases hs
    exact H.aborted hc (by rw [hp]; exact nofun)
  | proceed =>
    obtain ⟨c, hc, hs⟩ := Option.bind_eq_some_iff.mp h
    exact H.proceed hc hs
  | wake =>
    simp only [State.act, State.wake] at h
    split at h
    · split at h
      · cases h
      · cases h
        exact H.extend (.of_eq rfl rfl rfl rfl rfl rfl rfl) (fun _ => .inl) rfl rfl rfl rfl rfl rfl
    · cases h
  | tick seconds =>
    simp only [State.act] at h
    split at h
    · cases h
      exact H.extend ⟨rfl, rfl, rfl, fun _ h => h, fun _ h => h, fun _ h => h,
        le_add_of_nonneg_right ‹_›⟩ (fun _ => .inl) rfl rfl rfl rfl rfl rfl
    · cases h

theorem Inv.step (H : Inv s) {action : Action Owner} (h : s.step action = some (result, s')) :
    Inv s' :=
  H.act (State.act_of_step h)

theorem run_inv {labels : List (Action Owner × Result Owner)}
    (h : (system Owner).Run .init labels s) : Inv s :=
  h.invariant .init fun _ _ _ H hs => H.step hs

/-! ## The report and the signals -/

theorem State.proceed_shutdownReport (h : s.proceed c = some (result, s'))
    (hp : ∀ jobs callbacks, c.phase ≠ .testing [] [] jobs callbacks) :
    s'.shutdownReport = s.shutdownReport ∧ (result = .running ∨ result = .raised) := by
  have hcancel : ∀ job, (s.cancelHandle job).2.shutdownReport = s.shutdownReport := by
    intro job
    rw [State.cancelHandle]
    split <;> rfl
  simp only [State.proceed] at h
  split at h
  case h_14 hp' => exact absurd hp' (hp _ _)
  case h_5 | h_9 => cases h; exact ⟨hcancel _, .inl rfl⟩
  case h_7 =>
    split at h
    · cases h; exact ⟨rfl, .inl rfl⟩
    split at h
    · cases h; exact ⟨rfl, .inl rfl⟩
    · cases h
  case h_11 =>
    split at h
    · cases h; exact ⟨rfl, .inl rfl⟩
    split at h
    · split at h <;> cases h
      · exact ⟨rfl, .inr rfl⟩
      · exact ⟨rfl, .inl rfl⟩
    · cases h
  case h_3 | h_15 | h_16 => cases h
  all_goals exact (by cases h; exact ⟨rfl, .inl rfl⟩)

/-- A step keeps the report, which is the one it returns if any, or it is the publishing one. -/
theorem Inv.step_report (H : Inv s) {action : Action Owner}
    (h : s.step action = some (result, s')) :
    s'.shutdownReport = s.shutdownReport ∧
      (∀ report, result = .report report → s.shutdownReport = some report) ∨
    s.shutdownReport = none ∧ ∃ c jobs callbacks, s.shutdown = some c ∧
      c.phase = .testing [] [] jobs callbacks ∧ (result, s') = s.publish c jobs callbacks := by
  have h := State.act_of_step h
  cases action with
  | startJob =>
    left
    simp only [State.act, State.startJob] at h
    split at h
    · cases h; exact ⟨rfl, nofun⟩
    split at h
    · cases h; exact ⟨rfl, nofun⟩
    split at h <;> (cases h; exact ⟨rfl, nofun⟩)
  | complete | removeJob | tick =>
    left
    simp only [State.act] at h
    split at h
    · cases h; exact ⟨rfl, nofun⟩
    · cases h
  | cancel =>
    left
    simp only [State.act, State.cancelHandle] at h
    split at h
    · split at h <;> (cases h; exact ⟨rfl, nofun⟩)
    · cases h
  | registerShutdownCallback =>
    left
    simp only [State.act, State.registerShutdownCallback] at h
    split at h <;> (cases h; exact ⟨rfl, nofun⟩)
  | setEvent => cases h; exact .inl ⟨rfl, nofun⟩
  | beginShutdown =>
    left
    simp only [State.act, State.beginShutdown] at h
    split at h
    · cases h; exact ⟨rfl, nofun⟩
    split at h
    · cases h; exact ⟨rfl, nofun⟩
    split at h
    · cases h; exact ⟨rfl, nofun⟩
    split at h
    · rename_i hr
      cases h
      exact ⟨rfl, fun report heq => by cases heq; exact hr⟩
    · split at h <;> (cases h; exact ⟨rfl, nofun⟩)
  | callback =>
    left
    obtain ⟨c, -, hs⟩ := Option.bind_eq_some_iff.mp h
    simp only [State.callback] at hs
    split at hs
    · cases hs; exact ⟨rfl, nofun⟩
    · cases hs
  | abort =>
    left
    obtain ⟨c, -, hs⟩ := Option.bind_eq_some_iff.mp h
    simp only [State.abort] at hs
    split at hs
    · cases hs; exact ⟨rfl, nofun⟩
    · cases hs
  | proceed =>
    obtain ⟨c, hc, hs⟩ := Option.bind_eq_some_iff.mp h
    by_cases hp : ∃ jobs callbacks, c.phase = .testing [] [] jobs callbacks
    · right
      obtain ⟨jobs, callbacks, hp⟩ := hp
      have hnone : s.shutdownReport = none := by
        cases hr : s.shutdownReport with
        | none => rfl
        | some report =>
          obtain ⟨d, hd, hp'⟩ := H.report report hr
          cases hc.symm.trans hd
          cases hp.symm.trans hp'
      simp only [State.proceed, hp] at hs
      exact ⟨hnone, c, jobs, callbacks, hc, hp, (Option.some.inj hs).symm⟩
    · obtain ⟨hr, hresult⟩ := State.proceed_shutdownReport hs fun jobs callbacks hp' =>
        hp ⟨jobs, callbacks, hp'⟩
      exact .inl ⟨hr, by rcases hresult with rfl | rfl <;> exact nofun⟩
  | wake =>
    left
    simp only [State.act, State.wake] at h
    split at h
    · rename_i hr
      split at h
      · cases h
      · cases h
        exact ⟨rfl, fun report heq => by cases heq; exact hr⟩
    · cases h

/-- Every report that was returned is the one that is stored. -/
theorem reports_agree {labels : List (Action Owner × Result Owner)}
    (h : (system Owner).Run .init labels s) (action : Action Owner)
    (report : ShutdownReport Owner) (hmem : (action, .report report) ∈ labels) :
    s.shutdownReport = some report := by
  have hrun : Inv s ∧ ∀ label ∈ labels, ∀ report, label.2 = .report report →
      s.shutdownReport = some report := by
    refine h.history (P := fun labels s => Inv s ∧ ∀ label ∈ labels, ∀ report,
      label.2 = .report report → s.shutdownReport = some report) ⟨.init, nofun⟩
      fun bs x label y hbs hs => ⟨hbs.1.step hs, ?_⟩
    intro label' hmem report heq
    rcases hbs.1.step_report hs with ⟨hsame, hreturned⟩ | ⟨hnone, c, jobs, callbacks, -, -, hpub⟩
    · rw [hsame]
      rcases List.mem_append.mp hmem with hmem | hmem
      · exact hbs.2 label' hmem report heq
      · exact hreturned report (List.mem_singleton.mp hmem ▸ heq)
    · rcases List.mem_append.mp hmem with hmem | hmem
      · rw [hbs.2 label' hmem report heq] at hnone
        cases hnone
      · have hres : label.2 = _ := congrArg Prod.fst hpub
        have hstate : y = _ := congrArg Prod.snd hpub
        rw [List.mem_singleton.mp hmem, hres] at heq
        cases heq
        rw [hstate]
        rfl
  exact hrun.2 _ hmem report rfl

theorem State.cancelHandle_of_ne (s : State Owner) {i job : Nat} (hne : i ≠ job) :
    (s.cancelHandle job).2.cancelEvent i = s.cancelEvent i := by
  rw [State.cancelHandle]
  split
  · rfl
  · exact Function.update_of_ne hne ..

/-- The shutdown signals the job at the head of its list only. -/
theorem State.proceed_cancelEvent (h : s.proceed c = some (result, s')) {i : Nat}
    (hunset : s.cancelEvent i = false) (hset : s'.cancelEvent i = true) :
    ∃ handle left, handle.jobId = i ∧
      (c.phase = .immediate (handle :: left) ∨ c.phase = .deferred (handle :: left)) := by
  have hsame : ∀ {t : State Owner}, t.cancelEvent = s.cancelEvent → t ≠ s' := by
    rintro t heq rfl
    rw [heq, hunset] at hset
    cases hset
  have hhead : ∀ {handle : JobHandle Owner} {d : Shutdown Owner},
      s' = (s.cancelHandle handle.jobId).2.setShutdown d → handle.jobId = i := by
    rintro handle d rfl
    by_contra hne
    have := s.cancelHandle_of_ne (Ne.symm hne : i ≠ handle.jobId)
    rw [show (State.setShutdown _ d).cancelEvent i = _ from this, hunset] at hset
    cases hset
  simp only [State.proceed] at h
  split at h
  case h_5 handle left hp => cases h; exact ⟨handle, left, hhead rfl, .inl hp⟩
  case h_9 handle left hp => cases h; exact ⟨handle, left, hhead rfl, .inr hp⟩
  case h_7 =>
    split at h
    · cases h; exact absurd rfl (hsame rfl)
    split at h
    · cases h; exact absurd rfl (hsame rfl)
    · cases h
  case h_11 =>
    split at h
    · cases h; exact absurd rfl (hsame rfl)
    split at h
    · split at h <;> (cases h; exact absurd rfl (hsame rfl))
    · cases h
  case h_3 | h_15 | h_16 => cases h
  all_goals exact (by cases h; exact absurd rfl (hsame rfl))

/-- A deferred job is signalled by a caller, or once the callbacks and the waiters are done. -/
theorem Inv.step_signal (H : Inv s) {action : Action Owner}
    (h : s.step action = some (result, s')) {handle : JobHandle Owner}
    (hmem : handle ∈ s.accepted) (hdefer : handle.deferCancelUntilCallbacks = true)
    (hunset : s.cancelEvent handle.jobId = false) (hset : s'.cancelEvent handle.jobId = true) :
    action = .cancel handle.jobId ∨ ∃ c, s.shutdown = some c ∧
      c.returned = s.shutdownCallbacks ∧ ∀ waiter ∈ c.callbackWaiters, s.Settled c waiter := by
  have hsame : s'.cancelEvent = s.cancelEvent → False := by
    intro heq
    rw [heq, hunset] at hset
    cases hset
  have h := State.act_of_step h
  cases action with
  | startJob =>
    simp only [State.act, State.startJob] at h
    split at h
    · cases h; exact (hsame rfl).elim
    split at h
    · cases h; exact (hsame rfl).elim
    split at h <;> (cases h; exact (hsame rfl).elim)
  | complete | removeJob | tick =>
    simp only [State.act] at h
    split at h
    · cases h; exact (hsame rfl).elim
    · cases h
  | cancel job =>
    simp only [State.act] at h
    split at h
    · left
      by_contra hne
      have hother : handle.jobId ≠ job := fun heq => hne (by rw [heq])
      have hframe := s.cancelHandle_of_ne hother
      rw [Option.some.inj h, hset, hunset] at hframe
      cases hframe
    · cases h
  | registerShutdownCallback =>
    simp only [State.act, State.registerShutdownCallback] at h
    split at h <;> (cases h; exact (hsame rfl).elim)
  | setEvent => cases h; exact (hsame rfl).elim
  | beginShutdown =>
    simp only [State.act, State.beginShutdown] at h
    split at h
    · cases h; exact (hsame rfl).elim
    split at h
    · cases h; exact (hsame rfl).elim
    split at h
    · cases h; exact (hsame rfl).elim
    split at h
    · cases h; exact (hsame rfl).elim
    · split at h <;> (cases h; exact (hsame rfl).elim)
  | callback =>
    obtain ⟨c, -, hs⟩ := Option.bind_eq_some_iff.mp h
    simp only [State.callback] at hs
    split at hs
    · cases hs; exact (hsame rfl).elim
    · cases hs
  | abort =>
    obtain ⟨c, -, hs⟩ := Option.bind_eq_some_iff.mp h
    simp only [State.abort] at hs
    split at hs
    · cases hs; exact (hsame rfl).elim
    · cases hs
  | proceed =>
    obtain ⟨c, hc, hs⟩ := Option.bind_eq_some_iff.mp h
    have K := H.ok c hc
    obtain ⟨other, left, hid, hp | hp⟩ := State.proceed_cancelEvent hs hunset hset
    · have hearly := K.early other (by rw [hp]; exact List.mem_cons_self)
      have heq := H.unique other (K.known other hearly.1) handle hmem hid
      rw [heq, hdefer] at hearly
      cases hearly.2
    · have hreturned := K.returned.resolve_left (by rw [hp]; exact nofun)
      have hawaited := K.awaited
      rw [hp] at hreturned hawaited
      simp only [Phase.callbacksLeft, List.append_nil] at hreturned
      exact .inr ⟨c, hc, hreturned.trans K.callbacks,
        fun waiter hw => (hawaited waiter hw).resolve_right id⟩
  | wake =>
    simp only [State.act, State.wake] at h
    split at h
    · split at h
      · cases h
      · cases h; exact (hsame rfl).elim
    · cases h

/-- The last step of the report: it lists what its tests have found unfinished. -/
theorem Inv.publishes (H : Inv s) {report : ShutdownReport Owner}
    (h : s.step .proceed = some (.report report, s')) :
    ∃ c jobs callbacks, s.shutdown = some c ∧ s'.shutdownReport = some report ∧
      report.remaining = jobs.map (·.snapshot) ++ callbacks.map (·.snapshot) ∧
      ((s.accepted.filter fun handle => !s.done handle.jobId).Sublist jobs ∧
        jobs.Sublist (s.accepted.filter fun handle => !c.doneBefore.1 handle.jobId)) ∧
      (c.callbackWaiters.filter fun waiter => !s.doneEvent waiter.doneEvent).Sublist callbacks ∧
        callbacks.Sublist
          (c.callbackWaiters.filter fun waiter => !c.doneBefore.2 waiter.doneEvent) := by
  rcases H.step_report h with ⟨-, hreturned⟩ | ⟨-, c, jobs, callbacks, hc, hp, hpub⟩
  · obtain ⟨d, hd, hp⟩ := H.report report (hreturned report rfl)
    have hs := State.act_of_step h
    simp only [State.act, hd, Option.bind_some, State.proceed, hp] at hs
    cases hs
  · cases hpub
    obtain ⟨hjobs, hcallbacks, -, -, hhandles⟩ := (H.ok c hc).found _ _ _ _ hp
    obtain ⟨hleast, hmost⟩ := hjobs.finish
    refine ⟨c, jobs, callbacks, hc, rfl, rfl, ⟨?_, hhandles ▸ hmost⟩, hcallbacks.finish⟩
    have hunfinished := (H.ok c hc).unfinished
    simp only [State.unfinished] at hunfinished
    rwa [← hunfinished]

/-- For every interleaving: once a shutdown has started no job is accepted; when the report is
published every accepted job has been signalled, or it had finished and left the table before;
deferred jobs are signalled by the shutdown only after all callbacks and waiters, or the deadline;
all callers that return get the same report; and it lists as remaining all that has not finished by
then, and nothing that had finished before it was made. -/
theorem shutdown_report {labels : List (Action Owner × Result Owner)}
    (h : (system Owner).Run .init labels s) :
    (s.shutdownStarted = true → ∀ name ownerId deferCancel submitFails result s',
      s.step (.startJob name ownerId deferCancel submitFails) = some (result, s') →
        result = .raised ∧ s' = s) ∧
    (s.shutdownReport.isSome = true → ∀ handle ∈ s.accepted,
      s.cancelEvent handle.jobId = true ∨
        s.done handle.jobId = true ∧ handle.jobId ∈ s.removedBefore) ∧
    (∀ action result s', s.step action = some (result, s') → ∀ handle ∈ s.accepted,
      handle.deferCancelUntilCallbacks = true → s.cancelEvent handle.jobId = false →
      s'.cancelEvent handle.jobId = true → action = .cancel handle.jobId ∨
        ∃ c, s.shutdown = some c ∧ c.returned = s.shutdownCallbacks ∧
          ∀ waiter ∈ c.callbackWaiters, s.doneEvent waiter.doneEvent = true ∨
            ∃ deadline, c.deadline = some deadline ∧ deadline ≤ s.now) ∧
    (∀ action report, (action, .report report) ∈ labels → s.shutdownReport = some report) ∧
    (∀ report s', s.step .proceed = some (.report report, s') →
      ∃ c jobs callbacks, s.shutdown = some c ∧ s'.shutdownReport = some report ∧
        report.remaining = jobs.map (·.snapshot) ++ callbacks.map (·.snapshot) ∧
        ((s.accepted.filter fun handle => !s.done handle.jobId).Sublist jobs ∧
          jobs.Sublist (s.accepted.filter fun handle => !c.doneBefore.1 handle.jobId)) ∧
        (c.callbackWaiters.filter fun waiter => !s.doneEvent waiter.doneEvent).Sublist callbacks ∧
          callbacks.Sublist
            (c.callbackWaiters.filter fun waiter => !c.doneBefore.2 waiter.doneEvent)) := by
  have H := run_inv h
  refine ⟨fun hstarted name ownerId deferCancel submitFails result s' hs => ?_,
    fun hr handle hmem => ?_, fun action result s' hs handle hmem hdefer hunset hset => ?_,
    reports_agree h, fun report s' hs => H.publishes hs⟩
  · have haccepting : s.acceptingJobs = false := by rw [H.accepting, hstarted]; rfl
    have hs := State.act_of_step hs
    simp only [State.act, State.startJob, haccepting, Bool.not_false, if_true, ite_self] at hs
    cases hs
    exact ⟨rfl, rfl⟩
  · obtain ⟨report, hreport⟩ := Option.isSome_iff_exists.mp hr
    obtain ⟨c, hc, hp⟩ := H.report report hreport
    have K := H.ok c hc
    rcases K.covered handle hmem with hin | hgone
    · have hsignalled := K.signalled handle hin
      rw [hp] at hsignalled
      exact .inl (hsignalled.resolve_right id)
    · exact .inr hgone
  · rcases H.step_signal hs hmem hdefer hunset hset with hcancel | ⟨c, hc, hreturned, hsettled⟩
    · exact .inl hcancel
    · exact .inr ⟨c, hc, hreturned, fun waiter hw =>
        (hsettled waiter hw).imp_right State.expired_iff.mp⟩

end

/-- A job finishes and is removed before the shutdown starts. -/
def finishedEarly : List (Action Nat) :=
  [.startJob "download" 1 false false, .complete 0 false, .removeJob 0,
    .beginShutdown (some 5) false] ++ List.replicate 7 .proceed

/-- Of three jobs, the first one finishes after its test, and then the second one before its own. -/
def finishedBetween : List (Action Nat) :=
  [.startJob "download" 1 false false, .startJob "upload" 2 false false,
    .startJob "backup" 3 false false, .beginShutdown (some 0) false] ++
    List.replicate 11 .proceed ++ [.complete 0 false, .complete 1 false, .proceed, .proceed, .proceed]

/-- A finished job has not been signalled; and the jobs that a report lists as remaining were not
those that were unfinished in any state of the run. -/
theorem finished_job_not_signalled :
    (∃ (s : State Nat) (handle : JobHandle Nat), (system Nat).Reachable s ∧ handle ∈ s.accepted ∧
      s.shutdownReport.isSome = true ∧ s.cancelEvent handle.jobId = false) ∧
    ∃ labels s, System.answer State.step (.init : State Nat) finishedBetween = some (labels, s) ∧
      (s.shutdownReport.map ShutdownReport.remaining) = some [("download", 1), ("backup", 3)] ∧
      ∀ n ≤ finishedBetween.length,
        (System.answer State.step (.init : State Nat) (finishedBetween.take n)).all fun e =>
          (e.2.unfinished e.2.accepted).map (·.snapshot) ≠ [("download", 1), ("backup", 3)] := by
  constructor
  · have hexec : (System.answer State.step .init finishedEarly).any (fun (_, s) => decide <|
        (⟨0, "download", 1, false⟩ : JobHandle Nat) ∈ s.accepted ∧
        s.shutdownReport.isSome = true ∧ s.cancelEvent 0 = false) = true := by
      decide
    obtain ⟨⟨labels, s⟩, hs, hd⟩ := (Option.any_eq_true _ _).mp hexec
    obtain ⟨hmem, hr, hunset⟩ := of_decide_eq_true hd
    exact ⟨s, ⟨0, "download", 1, false⟩,
      (System.Reachable.init rfl).run (System.run_of_answer hs), hmem, hr, hunset⟩
  · have hexec : (System.answer State.step (.init : State Nat) finishedBetween).any (fun (_, s) =>
        (s.shutdownReport.map ShutdownReport.remaining) = some [("download", 1), ("backup", 3)]) =
          true := by
      decide +kernel
    obtain ⟨⟨labels, s⟩, hs, hd⟩ := (Option.any_eq_true _ _).mp hexec
    exact ⟨labels, s, hs, of_decide_eq_true hd, by decide +kernel⟩

/-- A deferred job is still running when the report is published; a second caller waits. -/
def deferredShutdown : List (Action Nat) :=
  [.startJob "backup" 1 true false, .startJob "download" 2 false false,
    .registerShutdownCallback "active_transfers", .beginShutdown (some 5) false, .proceed,
    .beginShutdown (some 1) false, .callback [⟨"transfer", 2, 0⟩], .proceed, .proceed,
    .complete 1 false, .proceed, .setEvent 0, .proceed, .proceed, .proceed, .proceed, .tick 5] ++
    List.replicate 6 .proceed ++ [.wake]

theorem shutdown_report_deferred : ∃ (labels : List (Action Nat × Result Nat)) (s : State Nat),
    (system Nat).Run .init labels s ∧
    (Action.wake, Result.report ⟨[("backup", 1), ("download", 2), ("transfer", 2)],
      [("backup", 1)]⟩) ∈ labels ∧
    s.shutdownReport = some ⟨[("backup", 1), ("download", 2), ("transfer", 2)],
      [("backup", 1)]⟩ ∧
    s.step (.startJob "late" 1 false false) = some (.raised, s) := by
  have hexec : (System.answer State.step .init deferredShutdown).any (fun (labels, s) => decide <|
      (Action.wake, Result.report ⟨[("backup", 1), ("download", 2), ("transfer", 2)],
        [("backup", 1)]⟩) ∈ labels ∧ s.shutdownStarted = true ∧
      (s.step (.startJob "late" 1 false false)).isSome = true) = true := by
    decide +kernel
  obtain ⟨⟨labels, s⟩, hs, hd⟩ := (Option.any_eq_true _ _).mp hexec
  obtain ⟨hmem, hstarted, hlate⟩ := of_decide_eq_true hd
  have hrun : (system Nat).Run .init labels s := System.run_of_answer hs
  obtain ⟨hrejected, -, -, hagree, -⟩ := shutdown_report hrun
  obtain ⟨⟨result, s'⟩, hstep⟩ := Option.isSome_iff_exists.mp hlate
  obtain ⟨rfl, rfl⟩ := hrejected hstarted "late" 1 false false result s' hstep
  exact ⟨labels, s', hrun, hmem, hagree _ _ hmem, hstep⟩

end WebSSH.Runtime
