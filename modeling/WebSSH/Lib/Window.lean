import Mathlib.Algebra.Order.Group.Defs
import Mathlib.Algebra.Order.Monoid.Unbundled.Basic
import Mathlib.Data.List.TakeWhile

/-!
# Sliding windows

A queue keeps the end of a history of times. What it has dropped is at least `w` old, so it counts
every time of the history that a window of length `w` still holds.
-/

namespace Lib

universe u

variable {τ : Type u} [AddCommGroup τ] [LinearOrder τ]

/-- At `now` the queue has dropped nothing of the history that is younger than `w`. -/
def Window (w now : τ) (history queue : List τ) : Prop :=
  ∃ dropped, history = dropped ++ queue ∧ ∀ e ∈ dropped, e + w ≤ now

namespace Window

variable {w now : τ} {history queue : List τ}

theorem nil : Window w now [] [] := ⟨[], rfl, fun _ h => absurd h List.not_mem_nil⟩

theorem mono {later : τ} (H : Window w now history queue) (h : now ≤ later) :
    Window w later history queue :=
  let ⟨dropped, heq, hold⟩ := H
  ⟨dropped, heq, fun e he => (hold e he).trans h⟩

/-- A queue whose times are all `w` old may be dropped. -/
theorem clear (H : Window w now history queue) (h : ∀ e ∈ queue, e + w ≤ now) :
    Window w now history [] := by
  obtain ⟨dropped, heq, hold⟩ := H
  refine ⟨history, (List.append_nil _).symm, fun e he => ?_⟩
  rw [heq] at he
  rcases List.mem_append.mp he with he | he
  · exact hold e he
  · exact h e he

theorem push (H : Window w now history queue) (e : τ) :
    Window w now (history ++ [e]) (queue ++ [e]) :=
  let ⟨dropped, heq, hold⟩ := H
  ⟨dropped, by rw [heq, List.append_assoc], hold⟩

/-- Times that are younger than `w` are all in the queue. -/
theorem countP_le {p : τ → Bool} (H : Window w now history queue)
    (h : ∀ e, p e = true → now < e + w) : history.countP p ≤ queue.length := by
  obtain ⟨dropped, rfl, hold⟩ := H
  have hnone : dropped.countP p = 0 :=
    List.countP_eq_zero.mpr fun e he hin => absurd (hold e he) (not_le.mpr (h e hin))
  rw [List.countP_append, hnone, Nat.zero_add]
  exact List.countP_le_length

/-- What is left after the front has been trimmed is in the window. -/
theorem mem_of_dropWhile (h : queue.Pairwise (· ≤ ·)) {e : τ}
    (he : e ∈ queue.dropWhile (· < now - w)) : now - w ≤ e := by
  induction queue with
  | nil => exact absurd he List.not_mem_nil
  | cons first queue ih =>
    obtain ⟨hfirst, hrest⟩ := List.pairwise_cons.mp h
    rw [List.dropWhile_cons] at he
    split at he
    · exact ih hrest he
    · rename_i hin
      have hin : now - w ≤ first := not_lt.mp fun hlt => hin (decide_eq_true hlt)
      rcases List.mem_cons.mp he with rfl | he
      · exact hin
      · exact hin.trans (hfirst e he)

/-- The times of the queue are times of the history. -/
theorem length_le (H : Window w now history queue) (hnow : ∀ e ∈ history, e ≤ now)
    (hin : ∀ e ∈ queue, now - w ≤ e) :
    queue.length ≤ history.countP fun e => now - w ≤ e ∧ e ≤ now := by
  obtain ⟨dropped, rfl, -⟩ := H
  have hall : queue.countP (fun e => now - w ≤ e ∧ e ≤ now) = queue.length :=
    List.countP_eq_length.mpr fun e he =>
      decide_eq_true ⟨hin e he, hnow e (List.mem_append_right _ he)⟩
  rw [List.countP_append, hall]
  exact Nat.le_add_left _ _

theorem subset (H : Window w now history queue) : queue ⊆ history := by
  obtain ⟨dropped, rfl, -⟩ := H
  exact List.subset_append_right _ _

theorem pairwise (H : Window w now history queue) {r : τ → τ → Prop} (h : history.Pairwise r) :
    queue.Pairwise r := by
  obtain ⟨dropped, rfl, -⟩ := H
  exact (List.pairwise_append.mp h).2.1

section
variable [IsOrderedAddMonoid τ]

/-- The times at the front that are before the window are dropped. -/
theorem trim (H : Window w now history queue) :
    Window w now history (queue.dropWhile (· < now - w)) := by
  obtain ⟨dropped, heq, hold⟩ := H
  refine ⟨dropped ++ queue.takeWhile (· < now - w), ?_, fun e he => ?_⟩
  · rw [List.append_assoc, List.takeWhile_append_dropWhile, heq]
  · rcases List.mem_append.mp he with he | he
    · exact hold e he
    · have hlt : e < now - w := by simpa using List.mem_takeWhile_imp he
      exact le_of_lt (lt_sub_iff_add_lt.mp hlt)

end

end Window
end Lib
