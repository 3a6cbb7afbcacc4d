import Mathlib.Order.Defs.LinearOrder
import Mathlib.Data.List.MinMax

/-!
# Locks taken in order

Threads that wait for locks they take in ascending order do not wait for each other in a circle.
-/

namespace Lib

universe u v

variable {ι : Type u} {κ : Type v} [LinearOrder κ]

/-- Some waiting thread wants a lock that no one holds, if the locks are only held by waiting
threads, and each of these wants a greater one than it holds. -/
theorem exists_free_of_ascending {waiting : List ι} (hne : waiting ≠ []) (wants : ι → κ)
    (holder : κ → Option ι) (hin : ∀ i ∈ waiting, ∀ j, holder (wants i) = some j → j ∈ waiting)
    (hlt : ∀ k, ∀ j ∈ waiting, holder k = some j → k < wants j) :
    ∃ i ∈ waiting, holder (wants i) = none := by
  -- the thread that wants the greatest lock
  obtain ⟨i, hi⟩ : ∃ i, i ∈ waiting.argmax wants :=
    Option.ne_none_iff_exists'.mp (mt List.argmax_eq_none.mp hne)
  have hmem : i ∈ waiting := List.argmax_mem hi
  refine ⟨i, hmem, ?_⟩
  cases h : holder (wants i) with
  | none => rfl
  | some j =>
    have hj : j ∈ waiting := hin i hmem j h
    exact absurd (hlt (wants i) j hj h) (not_lt_of_ge (List.le_of_mem_argmax hj hi))

end Lib
