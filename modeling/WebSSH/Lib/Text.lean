import Mathlib.Data.List.Infix
import WebSSH.Lib.Python

/-!
# Lines, fields and numerals of a text

What Python and awk do to the characters of a text: its lines, the fields of a line, and the numerals
that `int` accepts.
-/

namespace Lib.Text
open Lib.Python

/-! ## Pieces -/

/-- No piece of a split holds a separator, and every character of a piece is of the text. -/
theorem of_mem_splitOnP {α : Type} {p : α → Bool} {text piece : List α}
    (h : piece ∈ text.splitOnP p) : ∀ c ∈ piece, p c = false ∧ c ∈ text := by
  induction text generalizing piece with
  | nil =>
    rw [List.splitOnP_nil] at h
    cases List.mem_singleton.mp h
    exact fun _ hc => absurd hc List.not_mem_nil
  | cons d text ih =>
    have hlater {piece : List α} (h : piece ∈ text.splitOnP p) :
        ∀ c ∈ piece, p c = false ∧ c ∈ d :: text :=
      fun c hc => ⟨(ih h c hc).1, List.mem_cons_of_mem d (ih h c hc).2⟩
    rw [List.splitOnP_cons_eq_if_modifyHead] at h
    split at h
    · rcases List.mem_cons.mp h with rfl | h
      · exact fun _ hc => absurd hc List.not_mem_nil
      · exact hlater h
    · rename_i hd
      cases hpieces : text.splitOnP p with
      | nil => exact absurd hpieces (List.splitOnP_ne_nil p text)
      | cons first rest =>
        rw [hpieces] at h
        rcases List.mem_cons.mp h with rfl | h
        · refine List.forall_mem_cons.mpr ⟨⟨Bool.eq_false_iff.mpr hd, List.mem_cons_self⟩, ?_⟩
          exact hlater (hpieces ▸ List.mem_cons_self)
        · exact hlater (hpieces ▸ List.mem_cons_of_mem first h)

/-! ## Lines -/

/-- A character that ends a line for `str.splitlines()`. -/
def isBoundary (c : Char) : Bool :=
  let n := c.toNat
  (10 ≤ n && n ≤ 13) || (28 ≤ n && n ≤ 30) || n = 0x85 || n = 0x2028 || n = 0x2029

/-- `str.splitlines()`, after the characters `line` of the current line. -/
def splitlinesFrom (line : List Char) : List Char → List (List Char)
  | [] => if line = [] then [] else [line]
  | '\r' :: '\n' :: text => line :: splitlinesFrom [] text
  | c :: text =>
    if isBoundary c then line :: splitlinesFrom [] text else splitlinesFrom (line ++ [c]) text

/-- `str.splitlines()` -/
def splitlines (text : List Char) : List (List Char) := splitlinesFrom [] text

example : splitlines "a\r\nb\n\nc".toList = ["a".toList, "b".toList, [], "c".toList] := by decide

theorem splitlinesFrom_line {line : List Char} (h : ∀ c ∈ line, isBoundary c = false)
    (before text : List Char) :
    splitlinesFrom before (line ++ '\n' :: text) = (before ++ line) :: splitlines text := by
  induction line generalizing before with
  | nil => rw [List.nil_append, List.append_nil]; rfl
  | cons c line ih =>
    have hc := h c List.mem_cons_self
    have ih := ih (fun d hd => h d (List.mem_cons_of_mem c hd)) (before ++ [c])
    have hr : c ≠ '\r' := by
      rintro rfl
      exact absurd hc (by decide)
    rw [List.cons_append, splitlinesFrom, hc, if_neg Bool.false_ne_true, ih, List.append_assoc]
    · rfl
    · rintro rest rfl
      exact absurd rfl hr

/-- A line without a boundary, before its newline, is the first one. -/
theorem splitlines_line {line : List Char} (h : ∀ c ∈ line, isBoundary c = false)
    (text : List Char) : splitlines (line ++ '\n' :: text) = line :: splitlines text :=
  splitlinesFrom_line h [] text

theorem of_mem_splitlinesFrom {before text line : List Char}
    (hbefore : ∀ c ∈ before, isBoundary c = false) (h : line ∈ splitlinesFrom before text) :
    ∀ c ∈ line, isBoundary c = false ∧ (c ∈ before ∨ c ∈ text) := by
  induction before, text using splitlinesFrom.induct generalizing line with
  | case1 =>
    exact absurd h List.not_mem_nil
  | case2 before hne =>
    rw [splitlinesFrom, if_neg hne] at h
    cases List.mem_singleton.mp h
    exact fun c hc => ⟨hbefore c hc, .inl hc⟩
  | case3 before text ih =>
    rw [splitlinesFrom] at h
    rcases List.mem_cons.mp h with rfl | h
    · exact fun c hc => ⟨hbefore c hc, .inl hc⟩
    · intro c hc
      obtain ⟨hb, hmem⟩ := ih (fun _ h => absurd h List.not_mem_nil) h c hc
      exact ⟨hb, .inr (List.mem_cons_of_mem _ (List.mem_cons_of_mem _
        (hmem.resolve_left List.not_mem_nil)))⟩
  | case4 before c text hcr hb ih =>
    rw [splitlinesFrom, if_pos hb] at h
    · rcases List.mem_cons.mp h with rfl | h
      · exact fun c hc => ⟨hbefore c hc, .inl hc⟩
      · intro d hd
        obtain ⟨hb, hmem⟩ := ih (fun _ h => absurd h List.not_mem_nil) h d hd
        exact ⟨hb, .inr (List.mem_cons_of_mem _ (hmem.resolve_left List.not_mem_nil))⟩
    · exact hcr
  | case5 before c text hcr hb ih =>
    have hline : ∀ e ∈ before ++ [c], isBoundary e = false := fun e he => by
      rcases List.mem_append.mp he with he | he
      · exact hbefore e he
      · exact List.mem_singleton.mp he ▸ Bool.eq_false_iff.mpr hb
    rw [splitlinesFrom, if_neg hb] at h
    · intro d hd
      obtain ⟨hbd, hmem⟩ := ih hline h d hd
      refine ⟨hbd, ?_⟩
      rcases hmem with hmem | hmem
      · rcases List.mem_append.mp hmem with hmem | hmem
        · exact .inl hmem
        · exact .inr (List.mem_singleton.mp hmem ▸ List.mem_cons_self)
      · exact .inr (List.mem_cons_of_mem c hmem)
    · exact hcr

theorem of_mem_splitlines {text line : List Char} (h : line ∈ splitlines text) :
    ∀ c ∈ line, isBoundary c = false ∧ c ∈ text := fun c hc =>
  have ⟨hb, hmem⟩ := of_mem_splitlinesFrom (fun _ h => absurd h List.not_mem_nil) h c hc
  ⟨hb, hmem.resolve_left List.not_mem_nil⟩

/-- `text.partition(separator)`: what is before the separator, and what is after it if there is one. -/
def partition (separator : Char) (text : List Char) : List Char × Option (List Char) :=
  (text.takeWhile (· ≠ separator), (text.dropWhile (· ≠ separator)).tail?)

theorem partition_append {separator : Char} {before : List Char} (h : separator ∉ before)
    (after : List Char) : partition separator (before ++ separator :: after) = (before, some after) := by
  have hne : ∀ c ∈ before, (decide (c ≠ separator)) = true := fun c hc =>
    decide_eq_true fun heq => h (heq ▸ hc)
  rw [partition, List.takeWhile_append_of_pos hne, List.dropWhile_append_of_pos hne]
  simp

theorem eq_of_partition {separator : Char} {text before after : List Char}
    (h : partition separator text = (before, some after)) : text = before ++ separator :: after := by
  rw [partition, Prod.mk.injEq] at h
  obtain ⟨rfl, h⟩ := h
  cases hrest : text.dropWhile (· ≠ separator) with
  | nil =>
    rw [hrest] at h
    cases h
  | cons c rest =>
    rw [hrest] at h
    cases h
    have hc : c = separator := by
      have hhead := List.head_dropWhile_not (fun c => decide (c ≠ separator)) (l := text)
        (by rw [hrest]; exact List.cons_ne_nil _ _)
      simp only [hrest, List.head_cons] at hhead
      simpa using hhead
    subst hc
    rw [← hrest, List.takeWhile_append_dropWhile]

/-! ## White space -/

/-- `str.strip()` -/
def trim (text : List Char) : List Char :=
  ((text.dropWhile isSpace).reverse.dropWhile isSpace).reverse

theorem trim_subset (text : List Char) : trim text ⊆ text := by
  intro c hc
  have hc := (List.dropWhile_suffix isSpace).subset (List.mem_reverse.mp hc)
  exact (List.dropWhile_suffix isSpace).subset (List.mem_reverse.mp hc)

/-- A text whose first and last characters are not white space. -/
theorem trim_eq_self {text : List Char} (hhead : ∀ c ∈ text.head?, isSpace c = false)
    (hlast : ∀ c ∈ text.getLast?, isSpace c = false) : trim text = text := by
  have hdrop {l : List Char} (h : ∀ c ∈ l.head?, isSpace c = false) : l.dropWhile isSpace = l := by
    cases l with
    | nil => rfl
    | cons c l => rw [List.dropWhile_cons, h c rfl, if_neg Bool.false_ne_true]
  rw [trim, hdrop hhead, hdrop (by rwa [List.head?_reverse]), List.reverse_reverse]

theorem trim_trim (text : List Char) : trim (trim text) = trim text := by
  have hhead {l : List Char} : ∀ c ∈ (l.dropWhile isSpace).head?, isSpace c = false := by
    intro c hc
    have hne : l.dropWhile isSpace ≠ [] := by
      intro hnil
      rw [hnil] at hc
      cases hc
    have h := List.head_dropWhile_not isSpace (l := l) hne
    rw [List.head?_eq_some_head hne] at hc
    cases hc
    simpa using h
  refine trim_eq_self (fun c hc => ?_) fun c hc => ?_
  · -- The first character is the first of a suffix's prefix.
    have hpre : trim text <+: text.dropWhile isSpace := by
      rw [trim, ← List.reverse_suffix, List.reverse_reverse]
      exact List.dropWhile_suffix isSpace
    obtain ⟨rest, hrest⟩ := hpre
    refine hhead (l := text) c ?_
    rw [← hrest, List.head?_append_of_ne_nil]
    · exact hc
    · intro hnil
      rw [hnil] at hc
      cases hc
  · rw [trim, List.getLast?_reverse] at hc
    exact hhead c hc

/-- `str.split()` -/
def words (text : List Char) : List (List Char) := (text.splitOnP isSpace).filter (· ≠ [])

/-! ## Fields -/

/-- What separates the fields of a record in awk. -/
def isBlank (c : Char) : Bool := c = ' ' || c = '\t' || c = '\n'

/-- `$1`, `$2`, … of a record in awk. -/
def fields (record : List Char) : List (List Char) := (record.splitOnP isBlank).filter (· ≠ [])

/-- `$k` of a record in awk, which is empty where the record has fewer fields. -/
def field (record : List Char) (k : Nat) : List Char := (fields record).getD (k - 1) []

theorem not_blank_of_mem_field {record : List Char} {k : Nat} :
    ∀ c ∈ field record k, isBlank c = false := by
  intro c hc
  rw [field, List.getD_eq_getElem?_getD] at hc
  cases h : (fields record)[k - 1]? with
  | none =>
    rw [h] at hc
    exact absurd hc List.not_mem_nil
  | some piece =>
    rw [h] at hc
    exact (of_mem_splitOnP (List.mem_filter.mp (List.mem_of_getElem? h)).1 c hc).1

theorem fields_blanks {blanks : List Char} (h : ∀ c ∈ blanks, isBlank c = true)
    (record : List Char) : fields (blanks ++ record) = fields record := by
  induction blanks with
  | nil => rfl
  | cons c blanks ih =>
    rw [List.cons_append, fields, List.splitOnP_cons_eq_if_modifyHead, h c List.mem_cons_self, if_pos rfl,
      List.filter_cons_of_neg (by simp)]
    exact ih fun d hd => h d (List.mem_cons_of_mem c hd)

/-- A field ends at the first blank. -/
theorem fields_word {word : List Char} (h : ∀ c ∈ word, isBlank c = false) (hne : word ≠ [])
    {c : Char} (hc : isBlank c = true) (record : List Char) :
    fields (word ++ c :: record) = word :: fields record := by
  rw [fields, List.splitOnP_append_cons_of_forall_mem h c hc,
    List.filter_cons_of_pos (by simpa using hne)]
  rfl

theorem fields_last {word : List Char} (h : ∀ c ∈ word, isBlank c = false) (hne : word ≠ []) :
    fields word = [word] := by
  rw [fields, List.splitOnP_eq_singleton h, List.filter_cons_of_pos (by simpa using hne)]
  rfl

/-! ## Numerals -/

/-- The zeros of the decimal digits of Unicode. -/
def zeros : List Nat :=
  [0x30, 0x660, 0x6F0, 0x7C0, 0x966, 0x9E6, 0xA66, 0xAE6, 0xB66, 0xBE6, 0xC66, 0xCE6, 0xD66, 0xDE6,
    0xE50, 0xED0, 0xF20, 0x1040, 0x1090, 0x17E0, 0x1810, 0x1946, 0x19D0, 0x1A80, 0x1A90, 0x1B50,
    0x1BB0, 0x1C40, 0x1C50, 0xA620, 0xA8D0, 0xA900, 0xA9D0, 0xA9F0, 0xAA50, 0xABF0, 0xFF10, 0x104A0,
    0x10D30, 0x11066, 0x110F0, 0x11136, 0x111D0, 0x112F0, 0x11450, 0x114D0, 0x11650, 0x116C0, 0x11730,
    0x118E0, 0x11950, 0x11C50, 0x11D50, 0x11DA0, 0x11F50, 0x16A60, 0x16AC0, 0x16B50, 0x1D7CE, 0x1D7D8,
    0x1D7E2, 0x1D7EC, 0x1D7F6, 0x1E140, 0x1E2F0, 0x1E4F0, 0x1E950, 0x1FBF0]

/-- `unicodedata.decimal(c)` -/
def decimal (c : Char) : Option Nat :=
  (zeros.find? fun start => start ≤ c.toNat ∧ c.toNat < start + 10).map (c.toNat - ·)

/-- Longer numerals are a `ValueError`. -/
def maxStrDigits : Nat := 4300

/-- The value of a numeral without a sign, whose digits may be grouped by underscores. -/
def natural (numeral : List Char) : Option Nat :=
  let groups := numeral.splitOn '_'
  if [] ∈ groups then none
  else (groups.flatten.mapM decimal).bind fun digits =>
    if maxStrDigits < digits.length then none
    else some (digits.foldl (fun value digit => 10 * value + digit) 0)

/-- `int(text)`, or none where that is a `ValueError`. -/
def int (text : List Char) : Option Int :=
  match trim text with
  | '-' :: numeral => (natural numeral).map fun n => -n
  | '+' :: numeral => (natural numeral).map fun n => n
  | numeral => (natural numeral).map fun n => n

example : int " -1_0 ".toList = some (-10) ∧ int "1 0".toList = none := by decide

end Lib.Text
