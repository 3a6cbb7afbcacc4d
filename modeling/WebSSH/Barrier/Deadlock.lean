import WebSSH.Barrier.Steps
import Mathlib.Order.Preorder.Finite

/-!
# Deadlocks of the storage locks

A blocked thread waits for a mutex, for the readers gate or for the readers to leave
(`blocked_cases`). Among the threads blocked on a mutex take one whose key is maximal in the lock
order: the thread that holds this mutex is itself stuck at the closed gate, in the outermost block
of its program. So a deadlock needs a `CrossEntry`, and where there is one it is reachable.
-/

namespace WebSSH.Barrier
open Lib

set_option linter.unusedSectionVars false

section
variable {Tid Key : Type} [Fintype Tid] [DecidableEq Tid] [DecidableEq Key] [PartialOrder Key]
variable {programs : Tid → List (Instr Key)} {s s' : State Tid Key} {t u : Tid}

/-- The thread waits for the mutex of `key`. -/
def BlockedOn (s : State Tid Key) (t : Tid) (key : Key) : Prop :=
  (s.threads t).phase = .ready ∧ (∃ rest, (s.threads t).program = .acquire key :: rest) ∧
    s.holder key ≠ none

/-- Why a thread cannot step. -/
theorem blocked_cases (H : Inv programs s) (h : s.step t = none) :
    (s.threads t).program = [] ∨ (∃ key, BlockedOn s t key) ∨
    (s.threads t).phase = .entering true ∨ (s.threads t).phase = .waiting true := by
  have hok := H.threads t
  have hp := hok.phase
  cases hph : (s.threads t).phase with
  | ready =>
    cases hpr : (s.threads t).program with
    | nil => exact .inl rfl
    | cons i rest =>
      cases i with
      | acquire key =>
        refine .inr (.inl ⟨key, hph, ⟨rest, hpr⟩, fun hfree => ?_⟩)
        simp [State.step, hph, hpr, hfree] at h
      | enterWrite => simp [State.step, hph, hpr] at h
      | exit =>
        have hd := hok.disciplined
        rw [hpr] at hd
        cases hh : (s.threads t).held with
        | nil => rw [hh] at hd; exact hd.elim
        | cons f held =>
          obtain ⟨_ | key, context⟩ := f <;> simp [State.step, hph, hpr, hh] at h
      | snapshot =>
        simp only [State.step, hph, hpr] at h
        split at h <;> cases h
  | entering asleep =>
    cases asleep with
    | true => exact .inr (.inr (.inl rfl))
    | false =>
      simp only [PhaseOK, hph] at hp
      obtain ⟨⟨lock, rest, ho⟩, _⟩ := hp
      generalize hpr : (s.threads t).program = p at ho
      cases ho <;> simp [State.step, hph, hpr] at h
  | unlocking =>
    simp only [PhaseOK, hph] at hp
    obtain ⟨key, context, held, rest, hh, hpr⟩ := hp
    simp [State.step, hph, hpr, hh] at h
  | waiting asleep =>
    cases asleep with
    | true => exact .inr (.inr (.inr rfl))
    | false =>
      simp only [PhaseOK, hph] at hp
      obtain ⟨rest, hpr⟩ := hp
      simp [State.step, hph, hpr] at h
  | snapshotting =>
    simp only [PhaseOK, hph] at hp
    obtain ⟨rest, hpr⟩ := hp
    simp [State.step, hph, hpr] at h

/-- A thread in a block has not finished. -/
theorem program_ne_nil (H : Inv programs s) (h : (s.threads t).held ≠ []) :
    (s.threads t).program ≠ [] := by
  intro hp
  have hd := (H.threads t).disciplined
  rw [hp] at hd
  exact h (List.map_eq_nil_iff.mp hd)

/-- The key a thread waits for comes after the storage locks it holds. -/
theorem BlockedOn.lt (H : Inv programs s) {key k : Key} (hb : BlockedOn s t key)
    (hk : k ∈ (s.threads t).locks) : k < key := by
  obtain ⟨hph, ⟨rest, hpr⟩, _⟩ := hb
  rw [locks_of_ne_entering _ (by simp [hph])] at hk
  obtain ⟨f, hf, hfk⟩ := List.mem_filterMap.mp hk
  have hd := (H.threads t).disciplined
  rw [hpr] at hd
  exact hd.1 k (List.mem_map.mpr ⟨f, hf, hfk⟩)

/-- A thread asleep at the gate is entering the outermost block of its program. -/
theorem held_of_asleep (H : Inv programs s) (h : (s.threads t).phase = .entering true) :
    (s.threads t).held = [] := by
  have hp := (H.threads t).phase
  simp only [PhaseOK, h] at hp
  have := (H.threads t).depth_eq (by simp [h])
  rw [hp.2 trivial] at this
  exact List.eq_nil_of_length_eq_zero this.symm

/-- A thread asleep at the gate that holds `key` takes `key` on its own. -/
theorem takes_outermost (H : Inv programs s) {key : Key}
    (h : (s.threads t).phase = .entering true) (hk : key ∈ (s.threads t).locks) :
    (key, 0) ∈ acquisitions 0 (programs t) := by
  have hp := (H.threads t).phase
  simp only [PhaseOK, h] at hp
  obtain ⟨⟨lock, rest, ho⟩, _⟩ := hp
  have hnil := held_of_asleep H h
  rw [locks_entering h ho, hnil] at hk
  have hac := (H.threads t).acquires
  rw [hnil] at hac
  generalize (s.threads t).program = p at ho hac
  cases ho with
  | acquire =>
    obtain rfl : key = _ := by simpa using hk
    exact hac _ (by simp [acquisitions])
  | enterWrite => simp at hk

/-- The holder of the greatest wanted mutex of a class of blocked threads sleeps at the gate, if
it can only be asleep there or belong to the class. -/
theorem exists_holder_asleep (H : Inv programs s) {P : Tid → Prop}
    (hne : ∃ t key, P t ∧ BlockedOn s t key)
    (hall : ∀ u, (s.threads u).locks ≠ [] →
      (s.threads u).phase = .entering true ∨ P u ∧ ∃ key, BlockedOn s u key) :
    ∃ t u key, P t ∧ BlockedOn s t key ∧ (s.threads u).phase = .entering true ∧
      key ∈ (s.threads u).locks := by
  classical
  let wanted : Finset Key := (Finset.univ.filter fun t => P t ∧ ∃ key, BlockedOn s t key).image
    fun t => if h : ∃ key, BlockedOn s t key then h.choose else
      (hne.choose_spec.choose)
  have hwanted : ∀ key, key ∈ wanted ↔ ∃ t, P t ∧ BlockedOn s t key := by
    intro key
    simp only [wanted, Finset.mem_image, Finset.mem_filter, Finset.mem_univ, true_and]
    constructor
    · rintro ⟨t, ⟨hP, hb⟩, rfl⟩
      rw [dif_pos hb]
      exact ⟨t, hP, hb.choose_spec⟩
    · rintro ⟨t, hP, hb⟩
      refine ⟨t, ⟨hP, key, hb⟩, ?_⟩
      have hex : ∃ key, BlockedOn s t key := ⟨key, hb⟩
      rw [dif_pos hex]
      -- a thread waits for one key only
      obtain ⟨_, ⟨rest, hpr⟩, _⟩ := hb
      obtain ⟨_, ⟨rest', hpr'⟩, _⟩ := hex.choose_spec
      rw [hpr] at hpr'
      injection hpr' with hi _
      injection hi with hi
      exact hi.symm
  obtain ⟨t₀, key₀, hP₀, hb₀⟩ := hne
  obtain ⟨key, hmax⟩ := wanted.exists_maximal ⟨key₀, (hwanted key₀).mpr ⟨t₀, hP₀, hb₀⟩⟩
  obtain ⟨t, hP, hb⟩ := (hwanted key).mp hmax.prop
  obtain ⟨u, hu⟩ := Option.ne_none_iff_exists'.mp hb.2.2
  have hk := (H.holder key u).mp hu
  rcases hall u (List.ne_nil_of_mem hk) with h | ⟨hPu, key', hb'⟩
  · exact ⟨t, u, key, hP, hb, h, hk⟩
  · have hlt := hb'.lt H hk
    exact absurd (hmax.le_of_ge ((hwanted key').mpr ⟨u, hPu, hb'⟩) hlt.le) (not_le_of_gt hlt)

/-- A deadlock needs three threads that meet on one storage lock. -/
theorem crossEntry_of_deadlock (H : Inv programs s) (hdead : Deadlock s) :
    CrossEntry programs := by
  obtain ⟨⟨t₀, ht₀⟩, hstuck⟩ := hdead
  have hcases := fun t => blocked_cases H (hstuck t)
  have hwriter : s.writer = false := by
    by_contra hw
    obtain ⟨t, ht⟩ := H.writing (by simpa using hw)
    rcases hcases t with h | ⟨key, h, _⟩ | h | h
    · have hp := (H.threads t).phase
      simp only [PhaseOK, ht] at hp
      obtain ⟨rest, hpr⟩ := hp
      rw [h] at hpr; cases hpr
    all_goals rw [ht] at h; cases h
  -- a thread that holds a mutex waits for another one, or sleeps at the gate
  have hlocks : ∀ u, (s.threads u).locks ≠ [] →
      (s.threads u).phase = .entering true ∨ ∃ key, BlockedOn s u key := by
    intro u hu
    rcases hcases u with h | h | h | h
    · refine absurd h (program_ne_nil H fun hh => hu ?_)
      unfold Thread.locks
      rw [h, hh]
      cases (s.threads u).phase <;> rfl
    · exact .inr h
    · exact .inl h
    · have hp := (H.threads u).phase
      simp only [PhaseOK, h] at hp
      obtain ⟨rest, hpr⟩ := hp
      rw [locks_of_ne_entering _ (by simp [h]), (H.threads u).held_nil hpr] at hu
      exact absurd rfl hu
  by_cases hwait : ∃ t₃, (s.threads t₃).phase = .waiting true
  · obtain ⟨t₃, ht₃⟩ := hwait
    have hreaders : 0 < s.readers := by
      rcases H.asleepWriter t₃ ht₃ with h | h
      · rw [hwriter] at h; cases h
      · exact h
    rw [H.readers] at hreaders
    obtain ⟨r, hr⟩ := count_pos hreaders
    -- a reader inside a block waits for a mutex
    have hin : ∀ u, 0 < (s.threads u).writeDepth → ∃ key, BlockedOn s u key := by
      intro u hu
      have hdep := (H.threads u).depth
      rcases hcases u with h | h | h | h
      · refine absurd h (program_ne_nil H fun hh => ?_)
        rw [hh] at hdep
        split at hdep <;> simp at hdep <;> omega
      · exact h
      · rw [(H.threads u).depth_eq (by simp [h]), held_of_asleep H h] at hu
        exact absurd hu (lt_irrefl _)
      · have hp := (H.threads u).phase
        simp only [PhaseOK, h] at hp
        obtain ⟨rest, hpr⟩ := hp
        rw [(H.threads u).depth_eq (by simp [h]), (H.threads u).held_nil hpr] at hu
        exact absurd hu (lt_irrefl _)
    obtain ⟨key₀, hb₀⟩ := hin r hr
    obtain ⟨t₂, t₁, key, hd₂, hb, hasleep, hk⟩ :=
      exists_holder_asleep H (P := fun u => 0 < (s.threads u).writeDepth) ⟨r, key₀, hr, hb₀⟩ <| by
        intro u hu
        rcases hlocks u hu with h | ⟨key, hb⟩
        · exact .inl h
        · refine .inr ⟨?_, key, hb⟩
          rw [(H.threads u).depth_eq (by simp [hb.1])]
          rw [locks_of_ne_entering _ (by simp [hb.1])] at hu
          exact List.length_pos_of_ne_nil fun h => hu (by simp [h])
    obtain ⟨hph₂, ⟨rest, hpr⟩, _⟩ := hb
    refine ⟨t₁, t₂, t₃, key, (s.threads t₂).held.length - 1, ?_, ?_, ?_,
      takes_outermost H hasleep hk, (H.threads t₂).acquires _ ?_, (H.threads t₃).snapshots ?_⟩
    · rintro rfl; rw [hph₂] at hasleep; cases hasleep
    · rintro rfl; rw [ht₃] at hasleep; cases hasleep
    · rintro rfl; rw [hph₂] at ht₃; cases ht₃
    · have := (H.threads t₂).depth_eq (by simp [hph₂])
      rw [hpr, show (s.threads t₂).held.length - 1 + 1 = (s.threads t₂).held.length by omega]
      exact List.mem_cons_self
    · have hp := (H.threads t₃).phase
      simp only [PhaseOK, ht₃] at hp
      obtain ⟨rest, hpr⟩ := hp
      rw [hpr]; exact List.mem_cons_self
  · -- nobody waits for a snapshot, so the gate is open and only mutexes are left to wait for
    have hz : ¬ 0 < s.waitingWriters := by
      rw [H.waiting]
      intro h
      obtain ⟨u, asleep, hu⟩ := count_pos h
      have hp := (H.threads u).phase
      simp only [PhaseOK, hu] at hp
      obtain ⟨rest, hpr⟩ := hp
      rcases hcases u with h | ⟨key, h, _⟩ | h | h
      · rw [h] at hpr; cases hpr
      · rw [hu] at h; cases h
      · rw [hu] at h; cases h
      · exact hwait ⟨u, h⟩
    have hgate : ∀ u, (s.threads u).phase ≠ .entering true := by
      intro u hu
      rcases H.asleepReader u hu with h | h
      · rw [hwriter] at h; cases h
      · exact hz h
    have hb₀ : ∃ key, BlockedOn s t₀ key := by
      rcases hcases t₀ with h | h | h | h
      · exact absurd h ht₀
      · exact h
      · exact absurd h (hgate t₀)
      · exact absurd ⟨t₀, h⟩ hwait
    obtain ⟨key₀, hb₀⟩ := hb₀
    obtain ⟨_, u, _, _, _, hu, _⟩ :=
      exists_holder_asleep H (P := fun _ => True) ⟨t₀, key₀, trivial, hb₀⟩ fun u hu =>
        (hlocks u hu).imp_right fun h => ⟨trivial, h⟩
    exact absurd hu (hgate u)

end
end WebSSH.Barrier
