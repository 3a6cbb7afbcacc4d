import Mathlib

/-!
# Deleting items, by position

When items of a list are deleted, the rest move to the front. A relation between what stood at a
position and what comes to stand there holds for every deletion exactly when it holds of every item
and all later ones.
-/

namespace Lib.Sublists

universe u

variable {α : Type u} {R : α → α → Prop} {l kept : List α}

/-- An item that is kept stood at its position or later. -/
theorem exists_of_getElem? (h : kept.Sublist l) {i : Nat} {b : α} (hb : kept[i]? = some b) :
    ∃ j, i ≤ j ∧ l[j]? = some b := by
  obtain ⟨f, hf⟩ := List.sublist_iff_exists_orderEmbedding_getElem?_eq.mp h
  exact ⟨f i, f.strictMono.le_apply, (hf i).symm.trans hb⟩

/-- Any later item can be moved to a position. -/
theorem exists_sublist {i j : Nat} (hij : i ≤ j) (hj : j < l.length) :
    ∃ kept : List α, kept.Sublist l ∧ kept[i]? = l[j]? := by
  refine ⟨l.take i ++ l.drop j, ?_, ?_⟩
  · have hdrop : (l.drop j).Sublist (l.drop i) := by
      rw [← Nat.add_sub_cancel' hij, ← List.drop_drop]
      exact List.drop_sublist _ _
    have happend := (List.Sublist.refl (l.take i)).append hdrop
    rwa [List.take_append_drop] at happend
  · have hlen : (l.take i).length = i := by
      rw [List.length_take]
      omega
    rw [List.getElem?_append_right (Nat.le_of_eq hlen), hlen, Nat.sub_self, List.getElem?_drop,
      Nat.add_zero]

theorem forall_sublist_iff :
    (∀ kept : List α, kept.Sublist l → ∀ (i : Nat) (a b : α), l[i]? = some a → kept[i]? = some b → R a b) ↔
      l.Pairwise R ∧ ∀ a ∈ l, R a a := by
  constructor
  · intro h
    constructor
    · rw [List.pairwise_iff_getElem]
      intro i j hi hj hij
      obtain ⟨kept, hkept, hmoved⟩ := exists_sublist (Nat.le_of_lt hij) hj
      exact h kept hkept i l[i] l[j] (List.getElem?_eq_getElem hi)
        (hmoved.trans (List.getElem?_eq_getElem hj))
    · intro a ha
      obtain ⟨i, hi, rfl⟩ := List.getElem_of_mem ha
      have hget := List.getElem?_eq_getElem hi
      exact h l (List.Sublist.refl l) i l[i] l[i] hget hget
  · rintro ⟨hpairs, hrefl⟩ kept hkept i a b ha hb
    obtain ⟨j, hij, hj⟩ := exists_of_getElem? hkept hb
    obtain ⟨hi', rfl⟩ := List.getElem?_eq_some_iff.mp ha
    obtain ⟨hj', rfl⟩ := List.getElem?_eq_some_iff.mp hj
    rcases Nat.eq_or_lt_of_le hij with rfl | hlt
    · exact hrefl _ (List.getElem_mem hi')
    · exact List.pairwise_iff_getElem.mp hpairs i j hi' hj' hlt

/-- What is kept may also be changed, along a relation that `R` allows on its right. -/
theorem forall_reduced_iff {S : α → α → Prop} (hrefl : ∀ a, S a a)
    (hchange : ∀ a b b', R a b → S b' b → R a b') :
    (∀ kept new : List α, kept.Sublist l → List.Forall₂ S new kept →
        ∀ (i : Nat) (a b : α), l[i]? = some a → new[i]? = some b → R a b) ↔
      l.Pairwise R ∧ ∀ a ∈ l, R a a := by
  rw [← forall_sublist_iff]
  constructor
  · intro h kept hkept
    exact h kept kept hkept (List.forall₂_same.mpr fun a _ => hrefl a)
  · intro h kept new hkept hnew i a b ha hb
    obtain ⟨hi, rfl⟩ := List.getElem?_eq_some_iff.mp hb
    have hi' : i < kept.length := hnew.length_eq ▸ hi
    exact hchange a _ _ (h kept hkept i a kept[i] ha (List.getElem?_eq_getElem hi'))
      (hnew.get hi hi')

end Lib.Sublists
