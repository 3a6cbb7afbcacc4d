import Mathlib
import WebSSH.Barrier.Invariant

/-!
# Every step keeps the invariant of the snapshot barrier

One lemma for each of the `Moves`. The record a move writes is shown to be in order
(`Thread.OK.enter`, `Thread.OK.leave`, ...), and `Core.set` and `Sleep.set` do the rest.
-/

namespace WebSSH.Barrier
open Lib

set_option linter.unusedSectionVars false

section Thread
variable {Key : Type} [Preorder Key] {program rest : List (Instr Key)} {th : Thread Key}

theorem Thread.OK.setPhase (H : th.OK program) {phase : Phase}
    (hp : PhaseOK { th with phase := phase }) (h₁ : th.phase ≠ .unlocking)
    (h₂ : phase ≠ .unlocking) : ({ th with phase := phase } : Thread Key).OK program :=
  { H with
    phase := hp
    depth := by
      have := H.depth
      rw [if_neg h₁] at this
      simpa [h₂] using this }

theorem locks_of_ne_entering (th : Thread Key) (h : ∀ asleep, th.phase ≠ .entering asleep) :
    th.locks = th.held.filterMap (·.lock) := by
  unfold Thread.locks
  split
  · exact absurd ‹_› (h _)
  · rfl

theorem locks_setEntering (asleep : Bool) {lock : Option Key} (ho : Opens lock rest th.program) :
    ({ th with phase := .entering asleep } : Thread Key).locks =
      lock.toList ++ th.held.filterMap (·.lock) := by
  obtain ⟨program, phase, held, depth⟩ := th
  cases ho <;> rfl

theorem locks_entering {asleep : Bool} {lock : Option Key} (h : th.phase = .entering asleep)
    (ho : Opens lock rest th.program) : th.locks = lock.toList ++ th.held.filterMap (·.lock) := by
  rw [← locks_setEntering asleep ho, ← h]

theorem Opens.of_acquire {p : List (Instr Key)} {key : Key} (h : p = .acquire key :: rest) :
    Opens (some key) rest p := h ▸ .acquire

theorem Opens.of_enterWrite {p : List (Instr Key)} (h : p = .enterWrite :: rest) :
    Opens none rest p := h ▸ .enterWrite

/-- The depth of a thread outside `release` is the number of its blocks. -/
theorem Thread.OK.depth_eq (H : th.OK program) (h : th.phase ≠ .unlocking) :
    th.writeDepth = th.held.length := by
  rw [H.depth, if_neg h]

theorem Opens.disciplined {lock : Option Key} {held : List (Option Key)} {p : List (Instr Key)}
    (ho : Opens lock rest p) (h : Disciplined held p) :
    (∀ key, lock = some key → ∀ k, some k ∈ held → k < key) ∧ Disciplined (lock :: held) rest := by
  cases ho with
  | acquire => exact ⟨fun key hk k hm => Option.some.inj hk ▸ h.1 k hm, h.2⟩
  | enterWrite => exact ⟨fun _ hk => (by cases hk), h⟩

theorem Opens.acquisitions {lock : Option Key} {p : List (Instr Key)} (ho : Opens lock rest p)
    {n : Nat} : ∀ x ∈ acquisitions (n + 1) rest, x ∈ acquisitions n p := by
  cases ho with
  | acquire => exact fun x hx => List.mem_cons_of_mem _ hx
  | enterWrite => exact fun x hx => hx

theorem Opens.mem {lock : Option Key} {p : List (Instr Key)} (ho : Opens lock rest p) :
    ∀ i ∈ rest, i ∈ p := by
  cases ho <;> exact fun i hi => List.mem_cons_of_mem _ hi

/-- The record of a thread that has entered a block. -/
theorem Thread.OK.push (H : th.OK program) {lock : Option Key} (ho : Opens lock rest th.program)
    {context : WriteContext} (hc : context = .outermost ↔ th.held = []) :
    (⟨rest, .ready, ⟨lock, context⟩ :: th.held, th.held.length + 1⟩ : Thread Key).OK program where
  disciplined := (ho.disciplined H.disciplined).2
  phase := trivial
  depth := by simp
  contexts := ⟨hc, H.contexts⟩
  ordered := by
    rw [List.filterMap_cons]
    cases lock with
    | none => exact H.ordered
    | some key =>
      refine List.pairwise_cons.mpr ⟨fun k hk => ?_, H.ordered⟩
      obtain ⟨f, hf, hfk⟩ := List.mem_filterMap.mp hk
      exact (ho.disciplined H.disciplined).1 key rfl k (List.mem_map.mpr ⟨f, hf, hfk⟩)
  acquires x hx := H.acquires x (ho.acquisitions x hx)
  snapshots hs := H.snapshots (ho.mem _ hs)

/-- The record of a thread that has left its innermost block. -/
theorem Thread.OK.pop (H : th.OK program) {f : Frame Key} {held : List (Frame Key)}
    (hp : th.program = .exit :: rest) (hh : th.held = f :: held) {depth : Nat}
    (hd : depth = held.length) : (⟨rest, .ready, held, depth⟩ : Thread Key).OK program where
  disciplined := by
    have := H.disciplined
    rw [hp, hh] at this
    exact this
  phase := trivial
  depth := by simpa using hd
  contexts := by
    have := H.contexts
    rw [hh] at this
    exact this.2
  ordered := by
    have := H.ordered
    rw [hh] at this
    exact this.sublist ((List.sublist_cons_self f held).filterMap _)
  acquires x hx := H.acquires x (by rw [hp, hh]; exact hx)
  snapshots hs := H.snapshots (by rw [hp]; exact List.mem_cons_of_mem _ hs)

/-- The record of a thread in `release` between the barrier and the mutex. -/
theorem Thread.OK.unlocking (H : th.OK program) {key : Key} {context : WriteContext}
    {held : List (Frame Key)} (hp : th.program = .exit :: rest)
    (hh : th.held = ⟨some key, context⟩ :: held) {depth : Nat} (hd : depth = held.length) :
    (⟨th.program, .unlocking, th.held, depth⟩ : Thread Key).OK program :=
  { H with
    phase := ⟨key, context, held, rest, hh, hp⟩
    depth := by simp [hh, hd] }

/-- The record of a thread after its `snapshot` statement. -/
theorem Thread.OK.skip (H : th.OK program) (hp : th.program = .snapshot :: rest)
    (hph : th.phase ≠ .unlocking) :
    (⟨rest, .ready, th.held, th.writeDepth⟩ : Thread Key).OK program where
  disciplined := by
    have := H.disciplined
    rw [hp] at this
    exact this.2
  phase := trivial
  depth := by simpa [hph] using H.depth
  contexts := H.contexts
  ordered := H.ordered
  acquires x hx := H.acquires x (by rw [hp]; exact hx)
  snapshots hs := H.snapshots (by rw [hp]; exact List.mem_cons_of_mem _ hs)

/-- A thread at its `snapshot` statement is in no block. -/
theorem Thread.OK.held_nil (H : th.OK program) (hp : th.program = .snapshot :: rest) :
    th.held = [] := by
  have := H.disciplined
  rw [hp] at this
  exact List.map_eq_nil_iff.mp this.1

end Thread

section
variable {Tid Key : Type} [Fintype Tid] [DecidableEq Tid] [DecidableEq Key] [Preorder Key]
variable {programs : Tid → List (Instr Key)} {s s' : State Tid Key} {t : Tid}

theorem isWaiting_of_phase {th : Thread Key} {p : Phase} (h : th.phase = p)
    (hp : ∀ asleep, p ≠ .waiting asleep) : ¬ th.isWaiting := by
  rintro ⟨asleep, ha⟩
  exact hp asleep (h ▸ ha)

theorem Core.step_lock (H : Core programs s) {key : Key} {rest : List (Instr Key)}
    (hph : (s.threads t).phase = .ready) (hpr : (s.threads t).program = .acquire key :: rest)
    (hfree : s.holder key = none) :
    Core programs { s.setThread t { s.threads t with phase := .entering false } with
      holder := Function.update s.holder key (some t) } := by
  have hlocks : ({ s.threads t with phase := .entering false } : Thread Key).locks =
      key :: (s.threads t).locks := by
    rw [locks_setEntering false (.of_acquire hpr), locks_of_ne_entering (s.threads t) (by simp [hph])]
    rfl
  refine H.set { s.threads t with phase := .entering false } rfl ?_ (fun k u => ?_) rfl ?_ ?_
  · exact (H.threads t).setPhase ⟨⟨some key, rest, .of_acquire hpr⟩, fun h => by cases h⟩
      (by simp [hph]) (by simp)
  · simp only [hlocks, List.mem_cons]
    by_cases hk : k = key
    · subst k
      by_cases hu : u = t
      · subst u; simp
      · simp [hu, hfree, Ne.symm hu]
    · rw [Function.update_of_ne hk]
      by_cases hu : u = t
      · subst u; simp [hk, H.holder]
      · simp [hu]
  · simp [Thread.isWaiting, hph, State.setThread]
  · exact fun hw => .inr ⟨by simp [hph], hw⟩

theorem Core.step_beginWrite (H : Core programs s) {rest : List (Instr Key)}
    (hph : (s.threads t).phase = .ready) (hpr : (s.threads t).program = .enterWrite :: rest) :
    Core programs (s.setThread t { s.threads t with phase := .entering false }) := by
  refine H.set { s.threads t with phase := .entering false } rfl ?_ (H.holder_same fun k => ?_)
    rfl ?_ ?_
  · exact (H.threads t).setPhase ⟨⟨none, rest, .of_enterWrite hpr⟩, fun h => by cases h⟩
      (by simp [hph]) (by simp)
  · rw [locks_setEntering false (.of_enterWrite hpr),
      locks_of_ne_entering (s.threads t) (by simp [hph])]
    rfl
  · simp [Thread.isWaiting, hph, State.setThread]
  · exact fun hw => .inr ⟨by simp [hph], hw⟩

/-- What a pass of the loop of `persistent_write` does. -/
theorem enter_cases (s : State Tid Key) (t : Tid) (lock : Option Key) (rest : List (Instr Key)) :
    (0 < (s.threads t).writeDepth ∧ s.enter t lock rest = s.setThread t
      ⟨rest, .ready, ⟨lock, .nested⟩ :: (s.threads t).held, (s.threads t).writeDepth + 1⟩) ∨
    ((s.threads t).writeDepth = 0 ∧ (s.writer = true ∨ 0 < s.waitingWriters) ∧
      s.enter t lock rest = s.setThread t { s.threads t with phase := .entering true }) ∨
    ((s.threads t).writeDepth = 0 ∧ s.writer = false ∧ s.waitingWriters = 0 ∧
      s.enter t lock rest = { s.setThread t
        ⟨rest, .ready, ⟨lock, .outermost⟩ :: (s.threads t).held, 1⟩ with
        readers := s.readers + 1 }) := by
  by_cases hd : 0 < (s.threads t).writeDepth
  · exact .inl ⟨hd, by simp [State.enter, hd]⟩
  · by_cases hw : s.writer = true ∨ 0 < s.waitingWriters
    · exact .inr (.inl ⟨by omega, hw, by simp [State.enter, hd, hw]⟩)
    · refine .inr (.inr ⟨by omega, ?_, ?_, by simp [State.enter, hd, hw]⟩)
      · simpa using fun h => hw (.inl h)
      · exact Nat.eq_zero_of_not_pos fun h => hw (.inr h)

theorem Inv.step_enter (H : Inv programs s) {lock : Option Key} {rest : List (Instr Key)}
    (hph : (s.threads t).phase = .entering false)
    (ho : Opens lock rest (s.threads t).program) : Inv programs (s.enter t lock rest) := by
  have hok := H.threads t
  have hdepth := hok.depth_eq (by simp [hph])
  have hlocks := locks_entering hph ho
  -- entering a block turns the mutex being taken into one of the blocks
  have hpush : ∀ context n, ∀ k, k ∈ (⟨rest, .ready, ⟨lock, context⟩ :: (s.threads t).held, n⟩ :
      Thread Key).locks ↔ k ∈ (s.threads t).locks := by
    intro context n k
    rw [hlocks, locks_of_ne_entering _ (by simp)]
    cases lock <;> simp
  rcases enter_cases s t lock rest with ⟨hd, he⟩ | ⟨hd, hw, he⟩ | ⟨hd, hw, hz, he⟩ <;> rw [he]
  · have hne : (s.threads t).held ≠ [] := by
      intro h; rw [hdepth, h] at hd; exact absurd hd (by simp)
    refine ⟨H.toCore.set _ rfl ?_ (H.holder_same (hpush _ _)) ?_ ?_ ?_, H.toSleep.set _ rfl id id ?_ ?_⟩
    · rw [hdepth]
      exact hok.push ho (by simp [hne])
    · simp [hd, State.setThread]
    · simp [Thread.isWaiting, hph, State.setThread]
    · exact fun h => .inr ⟨by simp [hph], h⟩
    · exact fun h => by cases h
    · exact fun h => by cases h
  · refine ⟨H.toCore.set { s.threads t with phase := .entering true } rfl ?_
      (H.holder_same fun k => ?_) rfl ?_ ?_, H.toSleep.set _ rfl id id (fun _ => hw) ?_⟩
    · exact hok.setPhase ⟨⟨lock, rest, ho⟩, fun _ => hd⟩ (by simp [hph]) (by simp)
    · rw [hlocks, locks_setEntering true ho]
    · simp [Thread.isWaiting, hph, State.setThread]
    · exact fun h => .inr ⟨by simp [hph], h⟩
    · exact fun h => by cases h
  · have hnil : (s.threads t).held = [] := List.eq_nil_of_length_eq_zero (by omega)
    refine ⟨H.toCore.set ⟨rest, .ready, ⟨lock, .outermost⟩ :: (s.threads t).held, 1⟩ rfl ?_
      (H.holder_same (hpush _ _)) ?_ ?_ ?_, H.toSleep.set _ rfl id ?_ ?_ ?_⟩
    · have := hok.push ho (show WriteContext.outermost = .outermost ↔ _ by simp [hnil])
      rw [hnil] at this ⊢
      exact this
    · simp [hd]
    · simp [Thread.isWaiting, hph, State.setThread]
    · exact fun h => .inr ⟨by simp [hph], h⟩
    · exact fun _ => .inr (Nat.succ_pos _)
    · exact fun h => by cases h
    · exact fun h => by cases h

/-! ## Leaving a block -/

/-- Leaving a block is an update of one record that takes the thread off `_readers` if the block
was the outermost one, followed by a notification if that was the last reader. -/
theorem leave_eq (s : State Tid Key) (t : Tid) {context : WriteContext} {held : List (Frame Key)}
    {lock : Option Key} (hok : (s.threads t).OK (programs t)) (hph : (s.threads t).phase = .ready)
    (hh : (s.threads t).held = ⟨lock, context⟩ :: held) (th : Thread Key)
    (hth : th.writeDepth = (s.threads t).writeDepth) :
    let s₁ : State Tid Key := { s.setThread t { th with writeDepth := held.length } with
      readers := if held = [] then s.readers - 1 else s.readers }
    s.leave t context th = s₁ ∧ (0 < s.readers → 0 < s₁.readers) ∨
      s.leave t context th = s₁.notifyAll := by
  have hd := hok.depth_eq (by simp [hph])
  have hc := hok.contexts
  rw [hh] at hd hc
  simp only [ContextsOK, List.length_cons] at hc hd
  cases context with
  | nested =>
    have hne : held ≠ [] := fun h => by simpa using hc.1.mpr h
    refine .inl ⟨?_, ?_⟩
    · simp [State.leave, hth, hd, hne, State.setThread]
    · simp [hne]
  | outermost =>
    obtain rfl : held = [] := hc.1.mp rfl
    by_cases hr : s.readers - 1 = 0
    · exact .inr (by simp [State.leave, hr])
    · refine .inl ⟨by simp [State.leave, hr], fun _ => ?_⟩
      simpa using Nat.pos_of_ne_zero hr

/-- Both moves that leave a block: `th` is the record after it. -/
theorem Inv.step_leave (H : Inv programs s) {context : WriteContext} {held : List (Frame Key)}
    {lock : Option Key} (hph : (s.threads t).phase = .ready)
    (hh : (s.threads t).held = ⟨lock, context⟩ :: held) (th : Thread Key)
    (hth : th.writeDepth = (s.threads t).writeDepth)
    (hok : ({ th with writeDepth := held.length } : Thread Key).OK (programs t))
    (hlocks : ∀ k, k ∈ ({ th with writeDepth := held.length } : Thread Key).locks ↔
      k ∈ (s.threads t).locks)
    (hphase : th.phase = .ready ∨ th.phase = .unlocking) :
    Inv programs (s.leave t context th) := by
  have hd := (H.threads t).depth_eq (by simp [hph])
  rw [hh, List.length_cons] at hd
  have hpos : 0 < s.readers := by
    rw [H.readers]; exact count_pos_of (i := t) (by omega)
  let s₁ : State Tid Key := { s.setThread t { th with writeDepth := held.length } with
    readers := if held = [] then s.readers - 1 else s.readers }
  have hcore : Core programs s₁ := by
    refine H.toCore.set { th with writeDepth := held.length } rfl hok (H.holder_same hlocks) ?_ ?_ ?_
    · simp only [s₁, hd, Nat.succ_pos, if_true]
      cases held with
      | nil => simp; omega
      | cons f held => simp
    · have h₁ : ¬ (s.threads t).isWaiting := isWaiting_of_phase hph (by simp)
      have h₂ : ¬ ({ th with writeDepth := held.length } : Thread Key).isWaiting := by
        rcases hphase with h | h <;> exact isWaiting_of_phase h (by simp)
      rw [if_neg h₁, if_neg h₂]
      rfl
    · exact fun h => .inr ⟨by simp [hph], h⟩
  rcases leave_eq s t (H.threads t) hph hh th hth with ⟨he, hr⟩ | he <;> rw [he]
  · refine ⟨hcore, H.toSleep.set _ rfl id ?_ ?_ ?_⟩
    · rintro (h | h)
      · exact .inl h
      · exact .inr (hr h)
    · rcases hphase with h | h <;> simp [h]
    · rcases hphase with h | h <;> simp [h]
  · exact ⟨hcore.notifyAll, sleep_notifyAll _⟩

theorem Core.step_unlock (H : Core programs s) {key : Key} {context : WriteContext}
    {held : List (Frame Key)} {rest : List (Instr Key)}
    (hph : (s.threads t).phase = .unlocking) (hpr : (s.threads t).program = .exit :: rest)
    (hh : (s.threads t).held = ⟨some key, context⟩ :: held) :
    Core programs { s.setThread t
        { s.threads t with program := rest, phase := .ready, held := held } with
      holder := Function.update s.holder key none } := by
  have hok := H.threads t
  have hd : (s.threads t).writeDepth = held.length := by
    have := hok.depth
    simpa [hph, hh] using this
  have hold : (s.threads t).locks = key :: held.filterMap (·.lock) := by
    rw [locks_of_ne_entering _ (by simp [hph]), hh]
    rfl
  have hnew : key ∉ held.filterMap (·.lock) := by
    have := hok.ordered
    rw [hh] at this
    exact fun h => lt_irrefl _ ((List.pairwise_cons.mp this).1 key h)
  refine H.set { s.threads t with program := rest, phase := .ready, held := held } rfl
    (hok.pop hpr hh hd) (fun k u => ?_) rfl ?_ ?_
  · rw [locks_of_ne_entering _ (by simp)]
    by_cases hk : k = key
    · subst k
      have : s.holder key = some t := (H.holder key t).mpr (by simp [hold])
      by_cases hu : u = t
      · subst u; simpa using hnew
      · simp [hu, this, Ne.symm hu]
    · simp only [Function.update_of_ne hk]
      by_cases hu : u = t
      · subst u; simp [H.holder, hold, hk]
      · simp [hu]
  · simp [Thread.isWaiting, hph, State.setThread]
  · exact fun hw => .inr ⟨by simp [hph], hw⟩

/-! ## Snapshots -/

/-- A pass of the loop of `snapshot`: from a state that differs from `s` in `_waiting_writers`
only, which counts the thread. -/
theorem Inv.tryWrite (H : Inv programs s) {n : Nat} {rest : List (Instr Key)}
    (hpr : (s.threads t).program = .snapshot :: rest) (hph : (s.threads t).phase ≠ .unlocking)
    (hent : ∀ asleep, (s.threads t).phase ≠ .entering asleep)
    (hsn : (s.threads t).phase ≠ .snapshotting) (hpos : 0 < n)
    (hn : n + (if (s.threads t).isWaiting then 1 else 0) = s.waitingWriters + 1) :
    Inv programs ({ s with waitingWriters := n }.tryWrite t) := by
  have hok := H.threads t
  have hsame : ∀ p : Phase, (∀ asleep, p ≠ .entering asleep) → ∀ k,
      k ∈ ({ s.threads t with phase := p } : Thread Key).locks ↔ k ∈ (s.threads t).locks := by
    intro p hp k
    rw [locks_of_ne_entering _ hp, locks_of_ne_entering _ hent]
  unfold State.tryWrite
  dsimp only
  split
  · rename_i hw
    refine ⟨H.toCore.set { s.threads t with phase := .waiting true } rfl ?_
      (H.holder_same (hsame _ (by simp))) rfl ?_ ?_, H.toSleep.set _ rfl ?_ id ?_ (fun _ => hw)⟩
    · exact hok.setPhase ⟨rest, hpr⟩ hph (by simp)
    · rw [if_pos (show Thread.isWaiting { s.threads t with phase := .waiting true } from ⟨_, rfl⟩)]
      exact hn
    · exact fun h => .inr ⟨hsn, h⟩
    · exact fun _ => .inr hpos
    · exact fun h => by cases h
  · refine ⟨H.toCore.set { s.threads t with phase := .snapshotting } rfl ?_
      (H.holder_same (hsame _ (by simp))) rfl ?_ ?_,
      H.toSleep.set _ rfl (fun _ => .inl rfl) (fun _ => .inl rfl) ?_ ?_⟩
    · exact hok.setPhase ⟨rest, hpr⟩ hph (by simp)
    · have : ¬ Thread.isWaiting { s.threads t with phase := .snapshotting } :=
        isWaiting_of_phase rfl (by simp)
      rw [if_neg this]
      dsimp only
      omega
    · exact fun _ => .inl rfl
    · exact fun h => by cases h
    · exact fun h => by cases h

theorem Core.step_endSnapshot (H : Core programs s) {rest : List (Instr Key)}
    (hph : (s.threads t).phase = .snapshotting)
    (hpr : (s.threads t).program = .snapshot :: rest) :
    Core programs { s.setThread t { s.threads t with program := rest, phase := .ready } with
      writer := false } := by
  refine H.set { s.threads t with program := rest, phase := .ready } rfl
    ((H.threads t).skip hpr (by simp [hph])) (H.holder_same fun k => ?_) rfl ?_ (fun h => by cases h)
  · rw [locks_of_ne_entering _ (by simp), locks_of_ne_entering _ (by simp [hph])]
  · simp [Thread.isWaiting, hph, State.setThread]

theorem Core.step_refuse (H : Core programs s) {rest : List (Instr Key)}
    (hph : (s.threads t).phase = .ready) (hpr : (s.threads t).program = .snapshot :: rest) :
    Core programs (s.setThread t { s.threads t with program := rest }) := by
  have hok := (H.threads t).skip hpr (by simp [hph])
  rw [← hph] at hok
  refine H.set { s.threads t with program := rest } rfl hok (H.holder_same fun k => ?_) rfl ?_ ?_
  · rw [locks_of_ne_entering _ (by simp [hph]), locks_of_ne_entering _ (by simp [hph])]
  · simp [Thread.isWaiting, hph, State.setThread]
  · exact fun hw => .inr ⟨by simp [hph], hw⟩

/-! ## Every step and every run -/

theorem Inv.step (H : Inv programs s) (h : s.step t = some s') : Inv programs s' := by
  cases step_moves h with
  | lock hph hpr hfree =>
    exact ⟨H.toCore.step_lock hph hpr hfree,
      H.toSleep.set _ rfl id id (fun h => by cases h) (fun h => by cases h)⟩
  | beginWrite hph hpr =>
    exact ⟨H.toCore.step_beginWrite hph hpr,
      H.toSleep.set _ rfl id id (fun h => by cases h) (fun h => by cases h)⟩
  | enter hph ho => exact H.step_enter hph ho
  | @leaveLock key context held rest hph hpr hh =>
    have hd : ((s.threads t).held.filterMap (·.lock)) = (s.threads t).locks :=
      (locks_of_ne_entering _ (by simp [hph])).symm
    refine H.step_leave hph hh _ rfl ((H.threads t).unlocking hpr hh rfl) (fun k => ?_) (.inr rfl)
    rw [locks_of_ne_entering _ (by simp), hd]
  | @leaveWrite context held rest hph hpr hh =>
    refine H.step_leave hph hh _ rfl ?_ (fun k => ?_) (.inl hph)
    · simp only [hph]
      exact (H.threads t).pop hpr hh rfl
    · rw [locks_of_ne_entering _ (by simp [hph]), locks_of_ne_entering _ (by simp [hph]), hh]
      rfl
  | unlock hph hpr hh =>
    exact ⟨H.toCore.step_unlock hph hpr hh,
      H.toSleep.set _ rfl id id (fun h => by cases h) (fun h => by cases h)⟩
  | refuse hph hpr _ =>
    exact ⟨H.toCore.step_refuse hph hpr,
      H.toSleep.set _ rfl id id (fun h => by simp [hph] at h) (fun h => by simp [hph] at h)⟩
  | announce hph hpr _ =>
    refine H.tryWrite hpr (by simp [hph]) (by simp [hph]) (by simp [hph]) (Nat.succ_pos _) ?_
    rw [if_neg (isWaiting_of_phase hph (by simp))]
  | retry hph hpr =>
    have hw : (s.threads t).isWaiting := ⟨_, hph⟩
    refine H.tryWrite (n := s.waitingWriters) hpr (by simp [hph]) (by simp [hph]) (by simp [hph])
      ?_ ?_
    · rw [H.waiting]; exact count_pos_of hw
    · rw [if_pos hw]
  | endSnapshot hph hpr => exact ⟨(H.toCore.step_endSnapshot hph hpr).notifyAll, sleep_notifyAll _⟩

theorem Inv.init (h : ∀ t, Disciplined [] (programs t)) : Inv programs (.init programs) where
  threads t :=
    { disciplined := h t
      phase := trivial
      depth := rfl
      contexts := trivial
      ordered := .nil
      acquires := fun _ hx => hx
      snapshots := id }
  holder key t := by
    rw [locks_of_ne_entering _ (by simp [State.init])]
    simp [State.init]
  readers := by simp [State.init, count]
  waiting := by simp [State.init, count, Thread.isWaiting]
  writing h := by cases h
  asleepReader t h := by cases h
  asleepWriter t h := by cases h

theorem reachable_inv (hd : ∀ t, Disciplined [] (programs t))
    (h : (system programs).Reachable s) : Inv programs s :=
  h.invariant (fun _ hs => hs ▸ Inv.init hd) fun _ _ _ H hs => H.step hs

end
end WebSSH.Barrier
