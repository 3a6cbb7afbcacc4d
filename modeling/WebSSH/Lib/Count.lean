import Mathlib.Algebra.BigOperators.Group.Finset.Piecewise
import Mathlib.Algebra.Order.BigOperators.Group.Finset
import Mathlib.Data.Fintype.Card

/-!
# Counting the members of a family

How many members of a finite family satisfy a property, and how the number changes when one member
does.
-/

namespace Lib

universe u v

variable {ι : Type u} {β : Type v} [Fintype ι]

/-- How many members satisfy `p`. -/
def count (p : β → Prop) [DecidablePred p] (f : ι → β) : Nat :=
  ∑ i, if p (f i) then 1 else 0

section
variable {p : β → Prop} [DecidablePred p] {f g : ι → β} {i : ι}

theorem count_update [DecidableEq ι] (p : β → Prop) [DecidablePred p] (f : ι → β) (i : ι) (b : β) :
    count p (Function.update f i b) + (if p (f i) then 1 else 0) =
      count p f + if p b then 1 else 0 := by
  have hu : (fun j => if p (Function.update f i b j) then 1 else 0) =
      Function.update (fun j => if p (f j) then 1 else 0) i (if p b then 1 else 0) := by
    funext j
    by_cases h : j = i
    · subst h; simp
    · simp [Function.update_of_ne h]
  have hs := Finset.add_sum_erase Finset.univ (fun j => if p (f j) then 1 else 0)
    (Finset.mem_univ i)
  unfold count
  rw [hu, Finset.sum_update_of_mem (Finset.mem_univ i), Finset.sdiff_singleton_eq_erase, ← hs]
  omega

theorem count_pos (h : 0 < count p f) : ∃ i, p (f i) := by
  obtain ⟨i, _, hi⟩ := Finset.exists_ne_zero_of_sum_ne_zero (Nat.pos_iff_ne_zero.mp h)
  exact ⟨i, by by_contra hp; exact hi (if_neg hp)⟩

theorem count_pos_of (h : p (f i)) : 0 < count p f := by
  have := Finset.single_le_sum (f := fun j => if p (f j) then 1 else 0)
    (fun _ _ => Nat.zero_le _) (Finset.mem_univ i)
  simp only [if_pos h] at this
  exact this

theorem count_congr (h : ∀ i, p (f i) ↔ p (g i)) : count p f = count p g := by
  unfold count
  exact Finset.sum_congr rfl fun i _ => if_congr (h i) rfl rfl

theorem count_eq_card : count p f = (Finset.univ.filter fun i => p (f i)).card :=
  (Finset.card_filter _ _).symm

end
end Lib
