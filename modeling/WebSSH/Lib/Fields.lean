import WebSSH.Lib.Text

/-!
# Fields of a line

The pieces of a text between separators, and how the lines of a text change when text is put after
it.
-/

namespace Lib.Text
open Lib.Python

/-! ## Fields -/

/-- The pieces of the text between separators, without the empty ones. -/
def fieldsBy (p : Char → Bool) (text : List Char) : List (List Char) := (text.splitOnP p).filter (· ≠ [])

variable {p : Char → Bool} {text word line : List Char} {c : Char}

/-- A field ends at the first separator. -/
theorem fieldsBy_word (h : ∀ d ∈ word, p d = false) (hne : word ≠ []) (hc : p c = true) (text : List Char) :
    fieldsBy p (word ++ c :: text) = word :: fieldsBy p text := by
  rw [fieldsBy, List.splitOnP_append_cons_of_forall_mem h c hc, List.filter_cons_of_pos (by simpa using hne)]
  rfl

theorem fieldsBy_last (h : ∀ d ∈ word, p d = false) (hne : word ≠ []) : fieldsBy p word = [word] := by
  rw [fieldsBy, List.splitOnP_eq_singleton h, List.filter_cons_of_pos (by simpa using hne)]
  rfl

theorem of_mem_fieldsBy (h : word ∈ fieldsBy p text) : word ≠ [] ∧ ∀ d ∈ word, p d = false ∧ d ∈ text :=
  ⟨by simpa using (List.mem_filter.mp h).2, of_mem_splitOnP (List.mem_filter.mp h).1⟩

theorem splitOnP_append (h : ∀ d ∈ word, p d = false) (text : List Char) :
    (word ++ text).splitOnP p = (text.splitOnP p).modifyHead (word ++ ·) := by
  induction word with
  | nil =>
    rw [List.nil_append]
    cases text.splitOnP p <;> rfl
  | cons c word ih =>
    rw [List.cons_append, List.splitOnP_cons_eq_if_modifyHead, h c List.mem_cons_self,
      if_neg Bool.false_ne_true, ih fun d hd => h d (List.mem_cons_of_mem c hd), List.modifyHead_modifyHead]
    rfl

/-- With a separator in the first part the first piece is within it. -/
theorem splitOnP_append_of_mem (h : ∃ d ∈ word, p d = true) (text : List Char) :
    ∃ first more, (word ++ text).splitOnP p = first :: more ∧ first <+: word ∧
      ∀ c ∈ word.head?, p c = false → first.head? = some c := by
  induction word with
  | nil =>
    obtain ⟨_, hd, -⟩ := h
    nomatch hd
  | cons c word ih =>
    rw [List.cons_append, List.splitOnP_cons_eq_if_modifyHead]
    by_cases hc : p c = true
    · rw [if_pos hc]
      refine ⟨[], _, rfl, List.nil_prefix, fun d hd hpd => ?_⟩
      cases hd
      rw [hc] at hpd
      nomatch hpd
    · rw [if_neg hc]
      obtain ⟨d, hd, hpd⟩ := h
      obtain ⟨first, more, hsplit, hbegins, -⟩ := ih (by
        rcases List.mem_cons.mp hd with rfl | hd
        · exact absurd hpd hc
        · exact ⟨d, hd, hpd⟩)
      rw [hsplit]
      exact ⟨c :: first, more, rfl, List.cons_prefix_cons.mpr ⟨rfl, hbegins⟩, fun e he _ => he⟩

theorem length_splitOnP (p : Char → Bool) (text : List Char) :
    (text.splitOnP p).length = text.countP p + 1 := by
  induction text with
  | nil => rw [List.splitOnP_nil]; rfl
  | cons c text ih =>
    rw [List.splitOnP_cons_eq_if_modifyHead]
    split
    · rename_i hc
      rw [List.length_cons, ih, List.countP_cons_of_pos hc]
    · rename_i hc
      rw [List.length_modifyHead, ih, List.countP_cons_of_neg hc]

/-- A text with few separators has few fields. -/
theorem length_fieldsBy_le (p : Char → Bool) (text : List Char) :
    (fieldsBy p text).length ≤ text.countP p + 1 := by
  rw [← length_splitOnP]
  exact List.length_filter_le _ _

/-- The first field begins the text where no separator does. -/
theorem head_fieldsBy (hc : p c = false) (text : List Char) :
    ∃ more rest, fieldsBy p (c :: text) = (c :: more) :: rest := by
  rw [fieldsBy, List.splitOnP_cons_eq_if_modifyHead, hc, if_neg Bool.false_ne_true]
  cases h : text.splitOnP p with
  | nil => exact absurd h (List.splitOnP_ne_nil p text)
  | cons first rest =>
    rw [List.modifyHead_cons, List.filter_cons_of_pos (by simp)]
    exact ⟨first, _, rfl⟩

/-! ## White space at the end -/

/-- `str.rstrip()` -/
def trimEnd (text : List Char) : List Char := (text.reverse.dropWhile isSpace).reverse

theorem trim_of_head (h : ∀ d ∈ text.head?, isSpace d = false) : trim text = trimEnd text := by
  cases text with
  | nil => rfl
  | cons c text => rw [trim, List.dropWhile_cons, h c rfl, if_neg Bool.false_ne_true]; rfl

theorem trimEnd_append (h : trimEnd text ≠ []) (before : List Char) :
    trimEnd (before ++ text) = before ++ trimEnd text := by
  have hne : text.reverse.dropWhile isSpace ≠ [] := fun hnil => h (by rw [trimEnd, hnil]; rfl)
  rw [trimEnd, List.reverse_append, List.dropWhile_append, if_neg (by simpa using hne),
    List.reverse_append, List.reverse_reverse]
  rfl

theorem trimEnd_append_of_nil (h : trimEnd text = []) (before : List Char) :
    trimEnd (before ++ text) = trimEnd before := by
  have hnil : text.reverse.dropWhile isSpace = [] := List.reverse_eq_nil_iff.mp h
  rw [trimEnd, List.reverse_append, List.dropWhile_append, hnil]
  rfl

theorem trimEnd_space (hc : isSpace c = true) (before : List Char) :
    trimEnd (before ++ [c]) = trimEnd before := by
  apply trimEnd_append_of_nil
  rw [trimEnd, List.reverse_singleton, List.dropWhile_cons, if_pos hc]
  rfl

theorem trimEnd_cons (hc : isSpace c = false) (text : List Char) : trimEnd (c :: text) = c :: trimEnd text := by
  have hlast : trimEnd [c] = [c] := by
    rw [trimEnd, List.reverse_singleton, List.dropWhile_cons, hc, if_neg Bool.false_ne_true]
    rfl
  by_cases h : trimEnd text = []
  · have happend := trimEnd_append_of_nil h [c]
    rw [List.singleton_append] at happend
    rw [happend, hlast, h]
  · exact trimEnd_append h [c]

theorem trimEnd_begins (text : List Char) : trimEnd text <+: text := by
  have h := List.dropWhile_suffix isSpace (l := text.reverse)
  rwa [← List.reverse_prefix, List.reverse_reverse] at h

/-- What is left of a text does not begin with white space. -/
theorem head_trim (text : List Char) : ∀ c ∈ (trim text).head?, isSpace c = false := by
  intro c hc
  have hbegins : trim text <+: text.dropWhile isSpace := trimEnd_begins _
  obtain ⟨more, hmore⟩ := List.head?_eq_some_iff.mp hc
  obtain ⟨rest, hrest⟩ := hbegins
  rw [hmore, List.cons_append] at hrest
  have hhead := List.head?_dropWhile_not isSpace text
  rw [← hrest] at hhead
  simpa using hhead

/-! ## Lines of a longer text -/

theorem splitlinesFrom_cons (before : List Char) (h : ¬ (c = '\r' ∧ text.head? = some '\n')) :
    splitlinesFrom before (c :: text) =
      if isBoundary c then before :: splitlines text else splitlinesFrom (before ++ [c]) text := by
  rw [splitlinesFrom]
  · rfl
  · rintro rest rfl rfl
    exact h ⟨rfl, rfl⟩

/-- A text that ends in a newline keeps its lines when text is put after it. -/
theorem splitlinesFrom_append (before text after : List Char) :
    splitlinesFrom before (text ++ '\n' :: after) =
      splitlinesFrom before (text ++ ['\n']) ++ splitlines after := by
  induction before, text using splitlinesFrom.induct with
  | case1 | case2 before hne => rfl
  | case3 before text ih =>
    exact congrArg (List.cons before) ih
  | case4 before c text hcr hb ih =>
    by_cases hreturn : c = '\r' ∧ text = []
    · obtain ⟨rfl, rfl⟩ := hreturn
      rfl
    · have hhead (rest : List Char) : ¬ (c = '\r' ∧ (text ++ '\n' :: rest).head? = some '\n') := by
        rintro ⟨rfl, hnl⟩
        cases text with
        | nil => exact hreturn ⟨rfl, rfl⟩
        | cons d text => exact hcr text rfl (congrArg (· :: text) (Option.some.inj hnl))
      rw [List.cons_append, List.cons_append, splitlinesFrom_cons before (hhead after),
        splitlinesFrom_cons before (hhead []), if_pos hb, if_pos hb]
      exact congrArg (List.cons before) ih
  | case5 before c text hcr hb ih =>
    have hhead (rest : List Char) : ¬ (c = '\r' ∧ (text ++ '\n' :: rest).head? = some '\n') := by
      rintro ⟨rfl, -⟩
      exact hb rfl
    rw [List.cons_append, List.cons_append, splitlinesFrom_cons before (hhead after),
      splitlinesFrom_cons before (hhead []), if_neg hb, if_neg hb]
    exact ih

/-- A newline at the end ends the last line, or makes an empty one. -/
theorem splitlinesFrom_newline (before text : List Char) :
    splitlinesFrom before (text ++ ['\n']) = splitlinesFrom before text ∨
      splitlinesFrom before (text ++ ['\n']) = splitlinesFrom before text ++ [[]] := by
  induction before, text using splitlinesFrom.induct with
  | case1 => exact .inr rfl
  | case2 before hne => exact .inl (by rw [splitlinesFrom, if_neg hne]; rfl)
  | case3 before text ih => exact ih.imp (congrArg (List.cons before)) (congrArg (List.cons before))
  | case4 before c text hcr hb ih =>
    have hself : ¬ (c = '\r' ∧ text.head? = some '\n') := by
      rintro ⟨rfl, hnl⟩
      obtain ⟨rest, rfl⟩ := List.head?_eq_some_iff.mp hnl
      exact hcr rest rfl rfl
    by_cases hreturn : c = '\r' ∧ text = []
    · obtain ⟨rfl, rfl⟩ := hreturn
      exact .inl rfl
    · have hhead : ¬ (c = '\r' ∧ (text ++ ['\n']).head? = some '\n') := by
        rintro ⟨rfl, hnl⟩
        cases text with
        | nil => exact hreturn ⟨rfl, rfl⟩
        | cons d text => exact hcr text rfl (congrArg (· :: text) (Option.some.inj hnl))
      rw [List.cons_append, splitlinesFrom_cons before hhead, splitlinesFrom_cons before hself, if_pos hb,
        if_pos hb]
      exact ih.imp (congrArg (List.cons before)) (congrArg (List.cons before))
  | case5 before c text hcr hb ih =>
    have hhead (rest : List Char) : ¬ (c = '\r' ∧ rest.head? = some '\n') := by
      rintro ⟨rfl, -⟩
      exact hb rfl
    rw [List.cons_append, splitlinesFrom_cons before (hhead _), splitlinesFrom_cons before (hhead _),
      if_neg hb, if_neg hb]
    exact ih

/-- Without a carriage return each boundary ends a line. -/
theorem splitlines_newline (h : '\r' ∉ text) : splitlines (text ++ ['\n']) = text.splitOnP isBoundary := by
  have hself (ls : List (List Char)) : ls.modifyHead ([] ++ ·) = ls := by cases ls <;> rfl
  have hfrom (before : List Char) : splitlinesFrom before (text ++ ['\n']) =
      (text.splitOnP isBoundary).modifyHead (before ++ ·) := by
    induction text generalizing before with
    | nil =>
      rw [List.splitOnP_nil, List.modifyHead_cons, List.append_nil]
      rfl
    | cons c text ih =>
      have hc : c ≠ '\r' := fun hc => h (hc ▸ List.mem_cons_self)
      have ih := ih fun hmem => h (List.mem_cons_of_mem c hmem)
      rw [List.cons_append, splitlinesFrom_cons before fun hpair => hc hpair.1,
        List.splitOnP_cons_eq_if_modifyHead]
      split
      · rw [List.modifyHead_cons, List.append_nil, splitlines, ih, hself]
      · rw [ih, List.modifyHead_modifyHead]
        congr 1
        funext line
        exact List.append_assoc _ _ _
  rw [splitlines, hfrom, hself]

end Lib.Text
