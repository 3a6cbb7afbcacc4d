import Mathlib.Data.List.Basic

/-!
# Two styles of newline

A text whose newlines are written as a pair, collapsed to the second half of the pair and expanded
again. An encoding that spends one symbol on each half, and neither of them on anything else,
commutes with both.
-/

namespace Lib.Newlines

universe u v

variable {α : Type u} {β : Type v} [DecidableEq α] [DecidableEq β] {cr lf c : α} {text rest : List α}

/-- `text.replace('\r\n', '\n')` -/
def collapse (cr lf : α) : List α → List α
  | [] => []
  | [c] => [c]
  | c :: d :: rest =>
    if c = cr ∧ d = lf then lf :: collapse cr lf rest else c :: collapse cr lf (d :: rest)

/-- `text.replace('\n', '\r\n')` -/
def expand (cr lf : α) (text : List α) : List α :=
  text.flatMap fun c => if c = lf then [cr, lf] else [c]

/-- `'\r\n' in text` -/
def hasPair (cr lf : α) : List α → Bool
  | c :: d :: rest => decide (c = cr ∧ d = lf) || hasPair cr lf (d :: rest)
  | _ => false

theorem collapse_pair : collapse cr lf (cr :: lf :: rest) = lf :: collapse cr lf rest := if_pos ⟨rfl, rfl⟩

theorem collapse_cons (h : c ≠ cr) : collapse cr lf (c :: rest) = c :: collapse cr lf rest := by
  cases rest with
  | nil => rfl
  | cons d rest => exact if_neg fun hpair => h hpair.1

theorem collapse_cr {d : α} (h : d ≠ lf) :
    collapse cr lf (cr :: d :: rest) = cr :: collapse cr lf (d :: rest) :=
  if_neg fun hpair => h hpair.2

theorem expand_cons (c : α) (rest : List α) :
    expand cr lf (c :: rest) = (if c = lf then [cr, lf] else [c]) ++ expand cr lf rest :=
  List.flatMap_cons

theorem collapse_eq_self (h : hasPair cr lf text = false) : collapse cr lf text = text := by
  induction text with
  | nil => rfl
  | cons c rest ih =>
    cases rest with
    | nil => rfl
    | cons d rest =>
      obtain ⟨hpair, hrest⟩ := Bool.or_eq_false_iff.mp h
      rw [collapse, if_neg (of_decide_eq_false hpair), ih hrest]

/-! ## Encodings -/

/-- The encoding spends `cr'` on `cr` and `lf'` on `lf`, and neither on another symbol. -/
structure Keeps (cr lf : α) (cr' lf' : β) (f : α → List β) : Prop where
  apply_cr : f cr = [cr']
  apply_lf : f lf = [lf']
  nonempty : ∀ c, f c ≠ []
  cr_only : ∀ c, cr' ∈ f c → c = cr
  lf_only : ∀ c, lf' ∈ f c → c = lf

variable {cr' lf' : β} {f : α → List β}

omit [DecidableEq α] in
theorem collapse_append {before : List β} (h : cr' ∉ before) (rest : List β) :
    collapse cr' lf' (before ++ rest) = before ++ collapse cr' lf' rest := by
  induction before with
  | nil => rfl
  | cons b before ih =>
    obtain ⟨hb, hbefore⟩ := not_or.mp (fun h' => h (List.mem_cons.mpr h'))
    rw [List.cons_append, collapse_cons (Ne.symm hb), ih hbefore, List.cons_append]

theorem Keeps.collapse_flatMap (H : Keeps cr lf cr' lf' f) (hne : cr ≠ lf) (text : List α) :
    (collapse cr lf text).flatMap f = collapse cr' lf' (text.flatMap f) := by
  fun_induction collapse cr lf text with
  | case1 => rfl
  | case2 c =>
    by_cases hc : c = cr
    · subst hc
      rw [List.flatMap_singleton, H.apply_cr]
      rfl
    · rw [List.flatMap_singleton, ← List.append_nil (f c),
        collapse_append fun hmem => hc (H.cr_only c hmem)]
      rfl
  | case3 c d rest hpair ih =>
    obtain ⟨rfl, rfl⟩ := hpair
    rw [List.flatMap_cons, List.flatMap_cons, List.flatMap_cons, ih, H.apply_cr, H.apply_lf]
    exact collapse_pair.symm
  | case4 c d rest hpair ih =>
    have hsplit : (c :: d :: rest).flatMap f = f c ++ (d :: rest).flatMap f := List.flatMap_cons
    rw [hsplit, List.flatMap_cons, ih]
    by_cases hc : c = cr
    · subst hc
      have hd : d ≠ lf := fun hd => hpair ⟨rfl, hd⟩
      obtain ⟨b, more, hb⟩ := List.exists_cons_of_ne_nil (H.nonempty d)
      have hb' : b ≠ lf' := by
        rintro rfl
        exact hd (H.lf_only d (hb ▸ List.mem_cons_self))
      rw [List.flatMap_cons, H.apply_cr, hb]
      exact (collapse_cr hb').symm
    · rw [collapse_append fun hmem => hc (H.cr_only c hmem)]

theorem Keeps.expand_flatMap (H : Keeps cr lf cr' lf' f) (text : List α) :
    (expand cr lf text).flatMap f = expand cr' lf' (text.flatMap f) := by
  have hself {bytes : List β} (h : lf' ∉ bytes) : expand cr' lf' bytes = bytes := by
    induction bytes with
    | nil => rfl
    | cons b bytes ih =>
      obtain ⟨hb, hbytes⟩ := not_or.mp (fun h' => h (List.mem_cons.mpr h'))
      rw [expand_cons, if_neg (Ne.symm hb), ih hbytes]
      rfl
  induction text with
  | nil => rfl
  | cons c rest ih =>
    rw [expand_cons, List.flatMap_append, ih, List.flatMap_cons, expand, expand, List.flatMap_append]
    congr 1
    by_cases hc : c = lf
    · subst hc
      rw [if_pos rfl, List.flatMap_cons, List.flatMap_singleton, H.apply_cr, H.apply_lf,
        List.flatMap_singleton, if_pos rfl]
      rfl
    · rw [if_neg hc, List.flatMap_singleton]
      exact (hself fun hmem => hc (H.lf_only c hmem)).symm

/-! ## There and back -/

/-- Each newline has exactly one return before it, where `k` returns have just been read. -/
def Paired (cr lf : α) : Nat → List α → Prop
  | _, [] => True
  | k, c :: rest =>
    if c = cr then Paired cr lf (k + 1) rest else (c = lf → k = 1) ∧ Paired cr lf 0 rest

/-- Before a newline a run of returns loses one. -/
theorem collapse_run (hne : cr ≠ lf) (hc : c ≠ cr) (k : Nat) (rest : List α) :
    collapse cr lf (List.replicate k cr ++ c :: rest) =
      List.replicate (if c = lf then k - 1 else k) cr ++ c :: collapse cr lf rest := by
  induction k with
  | zero =>
    rw [List.replicate_zero, List.nil_append, collapse_cons hc]
    split <;> rfl
  | succ k ih =>
    cases k with
    | zero =>
      by_cases hlf : c = lf
      · subst hlf
        rw [if_pos rfl]
        exact collapse_pair
      · rw [if_neg hlf]
        exact (collapse_cr hlf).trans (congrArg (List.cons cr) (collapse_cons hc))
    | succ k =>
      rw [List.replicate_succ, List.cons_append, List.replicate_succ, List.cons_append, collapse_cr hne,
        ← List.cons_append, ← List.replicate_succ, ih]
      split
      · rfl
      · rfl

theorem collapse_replicate (hne : cr ≠ lf) (k : Nat) :
    collapse cr lf (List.replicate k cr) = List.replicate k cr := by
  apply collapse_eq_self
  induction k with
  | zero => rfl
  | succ k ih =>
    cases k with
    | zero => rfl
    | succ k =>
      refine Bool.or_eq_false_iff.mpr ⟨decide_eq_false fun h => hne h.2, ih⟩

theorem expand_replicate (hne : cr ≠ lf) (k : Nat) (rest : List α) :
    expand cr lf (List.replicate k cr ++ rest) = List.replicate k cr ++ expand cr lf rest := by
  induction k with
  | zero => rfl
  | succ k ih => rw [List.replicate_succ, List.cons_append, expand_cons, if_neg hne, ih]; rfl

omit [DecidableEq α] in
/-- A run of returns ends where another symbol stands. -/
theorem replicate_append_inj (hc : c ≠ cr) {j k : Nat} {rest' : List α} :
    List.replicate j cr ++ c :: rest = List.replicate k cr ++ c :: rest' ↔ j = k ∧ rest = rest' := by
  induction j generalizing k with
  | zero =>
    cases k with
    | zero => exact ⟨fun h => ⟨rfl, (List.cons.inj h).2⟩, fun h => congrArg (List.cons c) h.2⟩
    | succ k => exact iff_of_false (fun h => hc (List.cons.inj h).1) fun h => nomatch h.1
  | succ j ih =>
    cases k with
    | zero => exact iff_of_false (fun h => hc (List.cons.inj h).1.symm) fun h => nomatch h.1
    | succ k =>
      rw [List.replicate_succ, List.replicate_succ, List.cons_append, List.cons_append,
        List.cons_inj_right, ih, Nat.succ_inj]

/-- Collapsed twice and expanded once, the text comes back where each newline has one return. -/
theorem expand_collapse_iff (hne : cr ≠ lf) (k : Nat) (text : List α) :
    expand cr lf (collapse cr lf (collapse cr lf (List.replicate k cr ++ text))) =
      List.replicate k cr ++ text ↔ Paired cr lf k text := by
  induction text generalizing k with
  | nil =>
    have hrun := expand_replicate hne k []
    rw [List.append_nil] at hrun ⊢
    rw [collapse_replicate hne, collapse_replicate hne, hrun]
    exact iff_of_true (List.append_nil _) trivial
  | cons c rest ih =>
    by_cases hc : c = cr
    · subst hc
      rw [Paired, if_pos rfl, ← ih (k + 1), List.replicate_succ', List.append_assoc]
      rfl
    · have hrest := ih 0
      rw [List.replicate_zero, List.nil_append] at hrest
      rw [Paired, if_neg hc, collapse_run hne hc, collapse_run hne hc, expand_replicate hne, expand_cons,
        ← hrest]
      by_cases hlf : c = lf
      · subst hlf
        rw [if_pos rfl, if_pos rfl, if_pos rfl, List.cons_append, List.singleton_append, ← List.singleton_append,
          ← List.append_assoc, ← List.replicate_succ', replicate_append_inj hc]
        exact and_congr_left fun _ => ⟨fun h _ => by omega, fun h => by have := h rfl; omega⟩
      · rw [if_neg hlf, if_neg hlf, if_neg hlf, List.singleton_append, replicate_append_inj hc]
        exact ⟨fun h => ⟨fun heq => absurd heq hlf, h.2⟩, fun h => ⟨rfl, h.2⟩⟩

end Lib.Newlines
