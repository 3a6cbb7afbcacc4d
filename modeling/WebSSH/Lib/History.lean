import Mathlib.Data.List.Basic

/-!
# The order of events in a history

A history grows at its end. `Before a b l` says that `a` occurs in `l` before an occurrence of `b`.
-/

namespace Lib

universe u

variable {α : Type u} {a b x : α} {l : List α}

def Before (a b : α) (l : List α) : Prop := [a, b].Sublist l

theorem not_before_nil : ¬ Before a b ([] : List α) := nofun

theorem Before.append (h : Before a b l) (l' : List α) : Before a b (l ++ l') :=
  List.Sublist.trans h (List.sublist_append_left l l')

theorem Before.mem_right (h : Before a b l) : b ∈ l := List.Sublist.subset h (by simp)

/-- The last event comes after all that were there. -/
theorem before_concat : Before a b (l ++ [x]) ↔ Before a b l ∨ a ∈ l ∧ b = x := by
  constructor
  · intro h
    obtain ⟨l₁, l₂, hl, h₁, h₂⟩ := List.sublist_append_iff.mp h
    cases l₂ with
    | nil =>
      rw [List.append_nil] at hl
      subst hl
      exact .inl h₁
    | cons y l₂ =>
      have hlast : y :: l₂ = [x] := by
        rcases List.sublist_singleton.mp h₂ with h | h
        · cases h
        · exact h
      cases hlast
      have hl : [a] ++ [b] = l₁ ++ [x] := hl
      obtain ⟨rfl, hb⟩ := List.append_inj' hl rfl
      cases hb
      exact .inr ⟨List.singleton_sublist.mp h₁, rfl⟩
  · rintro (h | ⟨ha, rfl⟩)
    · exact h.append [x]
    · exact List.Sublist.append (List.singleton_sublist.mpr ha) (.refl [b])

theorem before_total (hne : a ≠ b) (ha : a ∈ l) (hb : b ∈ l) : Before a b l ∨ Before b a l := by
  induction l with
  | nil => exact absurd ha List.not_mem_nil
  | cons y l ih =>
    rcases List.mem_cons.mp ha with rfl | hal
    · have hbl := (List.mem_cons.mp hb).resolve_left (Ne.symm hne)
      exact .inl (.cons_cons _ (List.singleton_sublist.mpr hbl))
    · rcases List.mem_cons.mp hb with rfl | hbl
      · exact .inr (.cons_cons _ (List.singleton_sublist.mpr hal))
      · exact (ih hal hbl).imp (List.Sublist.cons y) (List.Sublist.cons y)

end Lib
