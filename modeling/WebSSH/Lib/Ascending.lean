import Mathlib

/-!
# Ascending histories

A history of keys with values in which the values of each key increase. A mark for each key that is
at least every value the key has had is what a checker has to keep of the history.
-/

namespace Lib

universe u v
variable {κ : Type u} {ν : Type v} [LinearOrder ν]

/-- The first member of an ascending list that satisfies `p` is the least one. -/
theorem find?_eq_some_iff_least {p : ν → Bool} {l : List ν} (h : l.Pairwise (· < ·)) {x : ν} :
    l.find? p = some x ↔ (x ∈ l ∧ p x = true) ∧ ∀ y ∈ l, p y = true → x ≤ y := by
  induction l with
  | nil => simp
  | cons z l ih =>
    obtain ⟨hz, hl⟩ := List.pairwise_cons.mp h
    cases hpz : p z with
    | true =>
      rw [List.find?_cons_of_pos hpz, Option.some_inj]
      constructor
      · rintro rfl
        refine ⟨⟨List.mem_cons_self, hpz⟩, fun y hy _ => ?_⟩
        obtain rfl | hy := List.mem_cons.mp hy
        · exact le_refl _
        · exact le_of_lt (hz y hy)
      · rintro ⟨⟨hx, -⟩, hleast⟩
        obtain rfl | hx := List.mem_cons.mp hx
        · rfl
        · exact absurd (hz x hx) (not_lt_of_ge (hleast z List.mem_cons_self hpz))
    | false =>
      have hne : ∀ y, p y = true → (y ∈ z :: l ↔ y ∈ l) := by
        intro y hy
        refine List.mem_cons.trans ⟨fun h => h.resolve_left ?_, .inr⟩
        rintro rfl
        exact Bool.noConfusion (hpz.symm.trans hy)
      rw [List.find?_cons_of_neg (by rw [hpz]; exact Bool.false_ne_true), ih hl]
      constructor
      · rintro ⟨⟨hx, hpx⟩, hleast⟩
        exact ⟨⟨List.mem_cons_of_mem z hx, hpx⟩, fun y hy hpy => hleast y ((hne y hpy).mp hy) hpy⟩
      · rintro ⟨⟨hx, hpx⟩, hleast⟩
        exact ⟨⟨(hne x hpx).mp hx, hpx⟩, fun y hy => hleast y (List.mem_cons_of_mem z hy)⟩

/-- The values of each key increase. -/
def Ascending (l : List (κ × ν)) : Prop := l.Pairwise fun a b => a.1 = b.1 → a.2 < b.2

theorem Ascending.nodup {l : List (κ × ν)} (h : Ascending l) : l.Nodup := by
  refine List.Pairwise.imp (fun {a b} hab heq => ?_) h
  subst heq
  exact lt_irrefl _ (hab rfl)

/-- The values of the history increase, and no key has had a greater value than its mark. -/
structure Marked (mark : κ → Option ν) (l : List (κ × ν)) : Prop where
  ascending : Ascending l
  le : ∀ e ∈ l, ∃ last, mark e.1 = some last ∧ e.2 ≤ last

namespace Marked

variable {mark mark' : κ → Option ν} {l : List (κ × ν)} {k : κ} {x : ν}

theorem nil (mark : κ → Option ν) : Marked mark [] := ⟨.nil, nofun⟩

/-- A key is given a value beyond its mark. -/
theorem snoc (H : Marked mark l) (hx : ∀ last, mark k = some last → last < x)
    (hk : mark' k = some x) (hframe : ∀ j, j ≠ k → mark' j = mark j) :
    Marked mark' (l ++ [(k, x)]) where
  ascending := by
    refine List.pairwise_append.mpr ⟨H.ascending, List.pairwise_singleton _ _, ?_⟩
    rintro a ha b hb hkey
    obtain rfl := List.mem_singleton.mp hb
    obtain ⟨last, hlast, hle⟩ := H.le a ha
    rw [show a.1 = k from hkey] at hlast
    exact lt_of_le_of_lt hle (hx last hlast)
  le := by
    intro e he
    obtain he | he := List.mem_append.mp he
    · obtain ⟨last, hlast, hle⟩ := H.le e he
      by_cases hkey : e.1 = k
      · rw [hkey] at hlast ⊢
        exact ⟨x, hk, le_of_lt (lt_of_le_of_lt hle (hx last hlast))⟩
      · exact ⟨last, (hframe e.1 hkey).trans hlast, hle⟩
    · obtain rfl := List.mem_singleton.mp he
      exact ⟨x, hk, le_refl x⟩

end Marked

end Lib
