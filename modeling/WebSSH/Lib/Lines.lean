import Mathlib.Data.List.Basic
import Mathlib.Logic.Basic

/-!
# Lines and their terminators

The lines of a list, each with the terminator that ends it; only the last may be without one.
Splitting the list at the terminator gives the same lines without it, and an empty piece after a
terminator that stands at the end.
-/

namespace Lib

universe u

variable {α : Type u} {sep c : α} {l p t : List α}

/-- Puts `c` in front of the first line. -/
def glue (c : α) : List (List α) → List (List α)
  | [] => [[c]]
  | line :: rest => (c :: line) :: rest

/-- Nothing follows the last terminator. -/
def Closed (sep : α) (l : List α) : Prop := ∀ c ∈ l.getLast?, c = sep

theorem Closed.nil : Closed sep [] := fun _ h => nomatch h

theorem closed_singleton : Closed sep [c] ↔ c = sep :=
  ⟨fun H => H c rfl, fun h _ hd => (Option.some.inj hd).symm.trans h⟩

theorem closed_cons (h : l ≠ []) : Closed sep (c :: l) ↔ Closed sep l := by
  obtain ⟨d, rest, rfl⟩ := List.exists_cons_of_ne_nil h
  unfold Closed
  rw [List.getLast?_cons_cons]

theorem closed_append (h : t ≠ []) : Closed sep (p ++ t) ↔ Closed sep t := by
  unfold Closed
  rw [List.getLast?_append, List.getLast?_eq_some_getLast h, Option.some_or]

theorem drop_glue (c : α) (k : Nat) (ls : List (List α)) : (glue c ls).drop (k + 1) = ls.drop (k + 1) := by
  cases ls with
  | nil => rw [List.drop_nil, glue, List.drop_succ_cons, List.drop_nil]
  | cons line rest => rfl

theorem flatten_glue (c : α) (ls : List (List α)) : (glue c ls).flatten = c :: ls.flatten := by
  cases ls <;> rfl

theorem suffix_flatten {k ls : List (List α)} (h : k <:+ ls) : k.flatten <:+ ls.flatten := by
  obtain ⟨init, rfl⟩ := h
  exact ⟨init.flatten, List.flatten_append.symm⟩

theorem suffix_eq_of_length {l' : List α} (h : l' <:+ l) (h' : t <:+ l) (hlen : l'.length = t.length) :
    l' = t := by
  have hsuffix := List.suffix_of_suffix_length_le h h' (Nat.le_of_eq hlen)
  exact hsuffix.eq_of_length hlen

section

variable [DecidableEq α]

instance : Decidable (Closed sep l) := inferInstanceAs (Decidable (∀ c ∈ l.getLast?, c = sep))

/-- The lines of a list, each with its terminator. -/
def lines (sep : α) : List α → List (List α)
  | [] => []
  | c :: rest => if c = sep then [c] :: lines sep rest else glue c (lines sep rest)

theorem lines_cons_sep : lines sep (sep :: l) = [sep] :: lines sep l := if_pos rfl

theorem lines_cons (h : c ≠ sep) : lines sep (c :: l) = glue c (lines sep l) := if_neg h

/-- Nothing is lost between the lines. -/
@[simp] theorem flatten_lines (sep : α) (l : List α) : (lines sep l).flatten = l := by
  induction l with
  | nil => rfl
  | cons c l ih =>
    by_cases h : c = sep
    · subst h
      rw [lines_cons_sep, List.flatten_cons, ih]
      rfl
    · rw [lines_cons h, flatten_glue, ih]

theorem ne_nil_of_mem_lines {line : List α} (h : line ∈ lines sep l) : line ≠ [] := by
  induction l generalizing line with
  | nil => nomatch h
  | cons c l ih =>
    by_cases hc : c = sep
    · subst hc
      rw [lines_cons_sep] at h
      rcases List.mem_cons.mp h with rfl | h
      · exact List.cons_ne_nil _ _
      · exact ih h
    · rw [lines_cons hc] at h
      cases hl : lines sep l with
      | nil =>
        rw [hl] at h
        rw [List.mem_singleton.mp h]
        exact List.cons_ne_nil _ _
      | cons first rest =>
        rw [hl] at h
        rcases List.mem_cons.mp h with rfl | h
        · exact List.cons_ne_nil _ _
        · exact ih (hl ▸ List.mem_cons_of_mem _ h)

theorem lines_ne_nil (sep : α) (h : l ≠ []) : lines sep l ≠ [] := by
  intro hnil
  apply h
  rw [← flatten_lines sep l, hnil]
  rfl

/-- Where the first part is closed, the lines of a list are those of its parts. -/
theorem lines_append (H : Closed sep p) (t : List α) : lines sep (p ++ t) = lines sep p ++ lines sep t := by
  induction p with
  | nil => rfl
  | cons c p ih =>
    by_cases hp : p = []
    · subst hp
      obtain rfl := closed_singleton.mp H
      rw [List.singleton_append, lines_cons_sep, lines_cons_sep]
      rfl
    · have hrest := ih ((closed_cons hp).mp H)
      by_cases hc : c = sep
      · subst hc
        rw [List.cons_append, lines_cons_sep, lines_cons_sep, hrest, List.cons_append]
      · rw [List.cons_append, lines_cons hc, lines_cons hc, hrest]
        obtain ⟨first, rest, hl⟩ := List.exists_cons_of_ne_nil (lines_ne_nil sep hp)
        rw [hl]
        rfl

/-- Where it is not, its last line goes on into the second part. -/
theorem lines_append_of_not_closed (H : ¬ Closed sep p) {first : List α} {rest : List (List α)}
    (ht : lines sep t = first :: rest) :
    ∃ init last, last ≠ [] ∧ lines sep (p ++ t) = init ++ (last ++ first) :: rest := by
  induction p with
  | nil => exact absurd Closed.nil H
  | cons c p ih =>
    by_cases hp : p = []
    · subst hp
      have hc : c ≠ sep := fun h => H (closed_singleton.mpr h)
      refine ⟨[], [c], List.cons_ne_nil _ _, ?_⟩
      rw [List.singleton_append, lines_cons hc, ht]
      rfl
    · obtain ⟨init, last, hlast, hl⟩ := ih fun h => H ((closed_cons hp).mpr h)
      by_cases hc : c = sep
      · subst hc
        exact ⟨[c] :: init, last, hlast, by rw [List.cons_append, lines_cons_sep, hl, List.cons_append]⟩
      · rw [List.cons_append, lines_cons hc, hl]
        cases init with
        | nil => exact ⟨[], c :: last, List.cons_ne_nil _ _, rfl⟩
        | cons line init => exact ⟨(c :: line) :: init, last, hlast, rfl⟩

/-! ## Splitting at the terminator -/

/-- A terminator at the end makes one piece more. -/
theorem length_splitOn (l : List α) :
    (l.splitOn sep).length = (lines sep l).length + if Closed sep l then 1 else 0 := by
  induction l with
  | nil => rfl
  | cons c l ih =>
    by_cases hc : c = sep
    · subst hc
      rw [List.splitOn_cons_eq_if_modifyHead, if_pos (beq_self_eq_true _), lines_cons_sep,
        List.length_cons, List.length_cons, ih]
      by_cases hl : l = []
      · subst hl
        rw [if_pos Closed.nil, if_pos (closed_singleton.mpr rfl)]
      · rw [if_congr (closed_cons hl) rfl rfl]
        omega
    · rw [List.splitOn_cons_eq_if_modifyHead, if_neg fun h => hc (beq_iff_eq.mp h), lines_cons hc,
        List.length_modifyHead, ih]
      by_cases hl : l = []
      · subst hl
        rw [if_pos Closed.nil, if_neg fun h => hc (closed_singleton.mp h)]
        rfl
      · obtain ⟨first, rest, hlines⟩ := List.exists_cons_of_ne_nil (lines_ne_nil sep hl)
        rw [if_congr (closed_cons hl) rfl rfl, hlines]
        rfl

/-- The pieces from one of them on, put together again, are the lines from there on. -/
theorem intercalate_drop_splitOn {k : Nat} (h : k < (l.splitOn sep).length) :
    [sep].intercalate ((l.splitOn sep).drop k) = ((lines sep l).drop k).flatten := by
  induction l generalizing k with
  | nil =>
    obtain rfl : k = 0 := Nat.lt_one_iff.mp h
    rfl
  | cons c l ih =>
    cases k with
    | zero => rw [List.drop_zero, List.drop_zero, List.intercalate_splitOn, flatten_lines]
    | succ k =>
      by_cases hc : c = sep
      · subst hc
        rw [List.splitOn_cons_eq_if_modifyHead, if_pos (beq_self_eq_true _)] at h ⊢
        rw [lines_cons_sep, List.drop_succ_cons, List.drop_succ_cons]
        exact ih (Nat.lt_of_succ_lt_succ h)
      · rw [List.splitOn_cons_eq_if_modifyHead, if_neg fun h => hc (beq_iff_eq.mp h)] at h ⊢
        rw [List.length_modifyHead] at h
        rw [lines_cons hc, drop_glue, ← ih h]
        obtain ⟨first, rest, hsplit⟩ := List.exists_cons_of_ne_nil (List.splitOn_ne_nil sep l)
        rw [hsplit]
        rfl

/-! ## The last lines -/

/-- The last `n` lines, or all of them. -/
def lastLines (sep : α) (n : Nat) (l : List α) : List α :=
  ((lines sep l).drop ((lines sep l).length - n)).flatten

theorem lastLines_of_le {n : Nat} (h : (lines sep l).length ≤ n) : lastLines sep n l = l := by
  rw [lastLines, Nat.sub_eq_zero_of_le h, List.drop_zero, flatten_lines]

theorem lastLines_suffix (n : Nat) (l : List α) : lastLines sep n l <:+ l := by
  have h := suffix_flatten (List.drop_suffix ((lines sep l).length - n) (lines sep l))
  rwa [flatten_lines] at h

/-- One line more is longer. -/
theorem length_lastLines_lt {m n : Nat} (hmn : m < n) (hn : n ≤ (lines sep l).length) :
    (lastLines sep m l).length < (lastLines sep n l).length := by
  have hk : (lines sep l).length - n < (lines sep l).length := by omega
  have hsplit : (lines sep l).drop ((lines sep l).length - n) =
      (lines sep l)[(lines sep l).length - n] :: (lines sep l).drop ((lines sep l).length - n + 1) :=
    List.drop_eq_getElem_cons hk
  have hline := List.length_pos_iff.mpr (ne_nil_of_mem_lines (List.getElem_mem hk))
  have hmore : ((lines sep l).drop ((lines sep l).length - m)).flatten <:+
      ((lines sep l).drop ((lines sep l).length - n + 1)).flatten := by
    apply suffix_flatten
    have hdrop := List.drop_suffix (n - 1 - m) ((lines sep l).drop ((lines sep l).length - n + 1))
    rwa [List.drop_drop, show (lines sep l).length - n + 1 + (n - 1 - m) = (lines sep l).length - m by
      omega] at hdrop
  have hle := hmore.length_le
  rw [lastLines, lastLines, hsplit, List.flatten_cons, List.length_append]
  omega

/-- Fewer lines than an end has are the last lines of that end. -/
theorem lastLines_append {n : Nat} (h : n < (lines sep t).length) :
    lastLines sep n (p ++ t) = lastLines sep n t := by
  obtain ⟨first, rest, ht⟩ := List.exists_cons_of_ne_nil (List.length_pos_iff.mp (Nat.zero_lt_of_lt h))
  have hrest : n ≤ rest.length := by
    rw [ht, List.length_cons] at h
    omega
  have hshort (init : List (List α)) (line : List α) :
      (init ++ line :: rest).drop ((init ++ line :: rest).length - n) = rest.drop (rest.length - n) := by
    rw [show init ++ line :: rest = (init ++ [line]) ++ rest by rw [List.append_assoc]; rfl,
      List.length_append, Nat.add_sub_assoc hrest, List.drop_length_add_append]
  unfold lastLines
  by_cases H : Closed sep p
  · rw [lines_append H, ht, hshort, ← List.nil_append (first :: rest), hshort]
  · obtain ⟨init, last, -, hl⟩ := lines_append_of_not_closed H ht
    rw [hl, ht, hshort, ← List.nil_append (first :: rest), hshort]

/-- As many lines as an end has are that end where it begins with a line. -/
theorem lastLines_append_of_closed (H : Closed sep p) :
    lastLines sep (lines sep t).length (p ++ t) = t := by
  rw [lastLines, lines_append H, List.length_append, Nat.add_sub_cancel, List.drop_left, flatten_lines]

theorem length_lines_append_of_closed (H : Closed sep p) :
    (lines sep (p ++ t)).length = (lines sep p).length + (lines sep t).length := by
  rw [lines_append H, List.length_append]

/-- An end has at most the lines of the list. -/
theorem length_lines_le (p t : List α) : (lines sep t).length ≤ (lines sep (p ++ t)).length := by
  cases ht : lines sep t with
  | nil => exact Nat.zero_le _
  | cons first rest =>
    by_cases H : Closed sep p
    · rw [length_lines_append_of_closed H, ht]
      exact Nat.le_add_left _ _
    · obtain ⟨init, last, -, hl⟩ := lines_append_of_not_closed H ht
      rw [hl, List.length_append]
      exact Nat.le_add_left _ _

/-- An end that begins within a line is shorter than as many lines. -/
theorem length_lt_lastLines (H : ¬ Closed sep p) (h : t ≠ []) :
    t.length < (lastLines sep (lines sep t).length (p ++ t)).length := by
  obtain ⟨first, rest, ht⟩ := List.exists_cons_of_ne_nil (lines_ne_nil sep h)
  obtain ⟨init, last, hlast, hl⟩ := lines_append_of_not_closed H ht
  have hpos := List.length_pos_iff.mpr hlast
  have hall := congrArg List.length (flatten_lines sep t)
  rw [ht, List.flatten_cons, List.length_append] at hall
  rw [lastLines, hl, ht, List.length_append, List.length_cons, List.length_cons, Nat.add_sub_cancel,
    List.drop_left, List.flatten_cons, List.length_append, List.length_append]
  omega

/-- Fewer lines of an end are shorter than more lines of the list. -/
theorem length_lastLines_lt_append {k n : Nat} (hkn : k < n) (hn : n ≤ (lines sep (p ++ t)).length)
    (h : t ≠ []) : (lastLines sep k t).length < (lastLines sep n (p ++ t)).length := by
  rcases Nat.lt_or_ge k (lines sep t).length with hk | hk
  · rw [← lastLines_append (p := p) hk]
    exact length_lastLines_lt hkn hn
  · have hall : t.length ≤ (lastLines sep (lines sep t).length (p ++ t)).length := by
      by_cases H : Closed sep p
      · exact Nat.le_of_eq (congrArg List.length (lastLines_append_of_closed H)).symm
      · exact Nat.le_of_lt (length_lt_lastLines H h)
    rw [lastLines_of_le hk]
    exact Nat.lt_of_le_of_lt hall (length_lastLines_lt (Nat.lt_of_le_of_lt hk hkn) hn)

/-- The last `n` lines of an end are those of the list where the end has more of them, or begins
with the first of them. -/
theorem lastLines_append_eq_iff {n : Nat} (hp : p ≠ []) (ht : t ≠ []) :
    n < (lines sep (p ++ t)).length ∧ lastLines sep n t = lastLines sep n (p ++ t) ↔
      n < (lines sep t).length ∨ n = (lines sep t).length ∧ Closed sep p := by
  constructor
  · rintro ⟨hn, heq⟩
    rcases Nat.lt_trichotomy n (lines sep t).length with hlt | rfl | hgt
    · exact .inl hlt
    · refine .inr ⟨rfl, Decidable.byContradiction fun H => ?_⟩
      have hlong := length_lt_lastLines H ht
      rw [← heq, lastLines_of_le (Nat.le_refl _)] at hlong
      exact Nat.lt_irrefl _ hlong
    · have hlong := length_lastLines_lt_append hgt (Nat.le_of_lt hn) ht
      rw [← heq, lastLines_of_le (Nat.le_refl _), lastLines_of_le (Nat.le_of_lt hgt)] at hlong
      exact absurd hlong (Nat.lt_irrefl _)
  · rintro (hlt | ⟨rfl, H⟩)
    · exact ⟨Nat.lt_of_lt_of_le hlt (length_lines_le p t), (lastLines_append hlt).symm⟩
    · have hpos := List.length_pos_iff.mpr (lines_ne_nil sep hp)
      rw [lastLines_append_of_closed H, lastLines_of_le (Nat.le_refl _),
        length_lines_append_of_closed H]
      exact ⟨by omega, rfl⟩

end

end Lib
