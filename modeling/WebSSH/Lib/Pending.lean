import Mathlib

/-!
# Calls in progress

A list of calls, any of which may take the next step: it leaves the list and what it still has to
do joins it at the end. What the calls hold together changes by what the one call held and holds.
-/

namespace Lib.Pending

universe u v

variable {α : Type u} {β : Type v} {calls next : List α} {k : Nat} {call x : α}

theorem perm (h : calls[k]? = some call) : (call :: calls.eraseIdx k).Perm calls := by
  obtain ⟨hk, rfl⟩ := List.getElem?_eq_some_iff.mp h
  exact List.getElem_cons_eraseIdx_perm hk

theorem mem_of_advance (h : x ∈ calls.eraseIdx k ++ next) : x ∈ calls ∨ x ∈ next := by
  rcases List.mem_append.mp h with h | h
  · exact .inl (List.mem_of_mem_eraseIdx h)
  · exact .inr h

/-- What the calls hold, before and after a step. -/
theorem count_advance [DecidableEq β] (next : List α) (f : α → List β) (b : β) (h : calls[k]? = some call) :
    ((calls.eraseIdx k ++ next).flatMap f).count b + (f call).count b =
      (calls.flatMap f).count b + (next.flatMap f).count b := by
  have hcount := ((perm h).flatMap_right f).count_eq b
  simp only [List.flatMap_cons, List.count_append] at hcount
  simp only [List.flatMap_append, List.count_append]
  omega

/-- How many calls satisfy `p`, before and after a step. -/
theorem countP_advance (next : List α) (p : α → Bool) (h : calls[k]? = some call) :
    (calls.eraseIdx k ++ next).countP p + (if p call then 1 else 0) =
      calls.countP p + next.countP p := by
  have hcount := (perm h).countP_eq p
  rw [List.countP_cons] at hcount
  rw [List.countP_append]
  omega

/-- What the calls hold, before and after a call is replaced. -/
theorem count_set [DecidableEq β] (call' : α) (f : α → List β) (b : β)
    (h : calls[k]? = some call) :
    ((calls.set k call').flatMap f).count b + (f call).count b =
      (calls.flatMap f).count b + (f call').count b := by
  induction calls generalizing k with
  | nil => cases h
  | cons x calls ih =>
    cases k with
    | zero =>
      cases h
      simp only [List.set_cons_zero, List.flatMap_cons, List.count_append]
      omega
    | succ k =>
      have := ih h
      simp only [List.set_cons_succ, List.flatMap_cons, List.count_append]
      omega

/-- What the calls still have to do, before and after a call is replaced. -/
theorem sum_set (call' : α) (f : α → Nat) (h : calls[k]? = some call) :
    ((calls.set k call').map f).sum + f call = (calls.map f).sum + f call' := by
  induction calls generalizing k with
  | nil => cases h
  | cons x calls ih =>
    cases k with
    | zero =>
      cases h
      simp only [List.set_cons_zero, List.map_cons, List.sum_cons]
      omega
    | succ k =>
      have := ih h
      simp only [List.set_cons_succ, List.map_cons, List.sum_cons]
      omega

end Lib.Pending
