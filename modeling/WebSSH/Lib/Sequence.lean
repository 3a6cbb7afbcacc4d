import Mathlib.Data.List.Basic

/-!
# Stretches of a numbered sequence

The items of a list are numbered from 1. `between items a b` are those numbered `a + 1, …, b`:
what a reader who has seen the first `a` still has to see of the first `b`.
-/

namespace Lib.Sequence

universe u v

variable {α : Type u} {β : Type v} {items : List α} {a b : Nat}

/-- The items after the first `a` among the first `b`, with their numbers. -/
def between (items : List α) (a b : Nat) : List (Nat × α) :=
  (((items.take b).drop a).zipIdx (a + 1)).map Prod.swap

theorem between_of_le (h : b ≤ a) : between items a b = [] := by
  have hdrop : (items.take b).drop a = [] := List.drop_eq_nil_of_le (by simp; omega)
  rw [between, hdrop]
  rfl

theorem between_append (h : b ≤ items.length) (more : List α) :
    between (items ++ more) a b = between items a b := by
  rw [between, List.take_append_of_le_length h, between]

/-- The stretch grows by the next item. -/
theorem between_succ (ha : a ≤ b) {x : α} (hx : items[b]? = some x) :
    between items a (b + 1) = between items a b ++ [(b + 1, x)] := by
  have hb : b < items.length := (List.getElem?_eq_some_iff.mp hx).1
  have hlen : (items.take b).length = b := by simp; omega
  have htake : (items.take (b + 1)).drop a = (items.take b).drop a ++ [x] := by
    rw [List.take_add_one, hx, List.drop_append_of_le_length (by omega)]
    rfl
  rw [between, htake, List.zipIdx_append, List.map_append, List.length_drop, hlen,
    show a + 1 + (b - a) = b + 1 by omega]
  rfl

/-- The stretch starts with the item after the first `a`. -/
theorem between_cons {e : Nat × α} {rest : List (Nat × α)} (h : between items a b = e :: rest) :
    a < b ∧ e.1 = a + 1 ∧ items[a]? = some e.2 ∧ rest = between items (a + 1) b := by
  have hab : a < b := by
    by_contra hge
    rw [between_of_le (Nat.not_lt.mp hge)] at h
    cases h
  cases hx : items[a]? with
  | none =>
    have hdrop : (items.take b).drop a = [] := by
      have := List.getElem?_eq_none_iff.mp hx
      exact List.drop_eq_nil_of_le (by simp; omega)
    rw [between, hdrop] at h
    cases h
  | some x =>
    have hdrop : (items.take b).drop a = x :: (items.take b).drop (a + 1) := by
      have htake : (items.take b)[a]? = some x := by rw [List.getElem?_take_of_lt hab, hx]
      obtain ⟨ha, heq⟩ := List.getElem?_eq_some_iff.mp htake
      rw [List.drop_eq_getElem_cons ha, heq]
    rw [between, hdrop, List.zipIdx_cons, List.map_cons] at h
    cases h
    exact ⟨hab, rfl, rfl, rfl⟩

theorem map_snd_between : (between items a b).map Prod.snd = (items.take b).drop a := by
  rw [between, List.map_map]
  exact List.zipIdx_map_fst ..

/-- The first `a` items and the stretch after them are the first `b`. -/
theorem take_append_between (h : a ≤ b) :
    items.take a ++ (between items a b).map Prod.snd = items.take b := by
  rw [map_snd_between]
  conv_rhs => rw [← List.take_append_drop a (items.take b), List.take_take, Nat.min_eq_left h]

end Lib.Sequence
