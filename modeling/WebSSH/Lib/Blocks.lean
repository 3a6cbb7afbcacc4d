import Mathlib
import WebSSH.Lib.Text

/-!
# A list that is read in blocks

Splitting a list of which only the end is known: the pieces after the first separator are final, and
the piece before it still grows at its front.
-/

namespace Lib.Blocks

variable {α : Type}

theorem of_mem_head_splitOnP (p : α → Bool) (t : List α) :
    ∀ c ∈ (t.splitOnP p).headD [], p c = false := by
  obtain ⟨piece, rest, hsplit⟩ := List.exists_cons_of_ne_nil (List.splitOnP_ne_nil p t)
  intro c hc
  rw [hsplit] at hc
  exact (Text.of_mem_splitOnP (hsplit ▸ List.mem_cons_self) c hc).1

/-- All pieces but the first of the second part are pieces of the whole. -/
theorem splitOnP_append (p : α → Bool) (l t : List α) :
    (l ++ t).splitOnP p =
      (l ++ (t.splitOnP p).headD []).splitOnP p ++ (t.splitOnP p).tail := by
  induction l with
  | nil =>
    obtain ⟨piece, rest, hsplit⟩ := List.exists_cons_of_ne_nil (List.splitOnP_ne_nil p t)
    have hpiece := of_mem_head_splitOnP p t
    rw [hsplit, List.headD_cons] at hpiece
    rw [List.nil_append, hsplit, List.headD_cons, List.nil_append,
      List.splitOnP_eq_singleton hpiece]
    rfl
  | cons c l ih =>
    rw [List.cons_append, List.cons_append, List.splitOnP_cons_eq_if_modifyHead,
      List.splitOnP_cons_eq_if_modifyHead, ih]
    split
    · rfl
    · obtain ⟨piece, rest, hsplit⟩ :=
        List.exists_cons_of_ne_nil (List.splitOnP_ne_nil p (l ++ (t.splitOnP p).headD []))
      rw [hsplit]
      rfl

/-- A block stands between what precedes it and what follows it. -/
theorem take_append_block {l : List α} {start position : Nat} (h : start ≤ position) :
    l.take start ++ (l.drop start).take (position - start) = l.take position := by
  rw [← List.take_add, Nat.add_sub_cancel' h]

end Lib.Blocks
