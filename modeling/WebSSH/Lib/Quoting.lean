import Mathlib

/-!
# Quoted words

Two lexers for one command line, of a POSIX shell and of fish, that differ in what a backslash does
between single quotes. Outside quotes only blanks, quotes and plain characters are read: anything else
could be an operator or an expansion, and is no line of words.
-/

namespace Lib.Quoting

universe u

/-- The characters of a shell. -/
structure Alphabet (α : Type u) where
  quote : α
  doubleQuote : α
  backslash : α
  newline : α
  blank : α → Bool
  /-- Outside quotes the character stands for itself. -/
  plain : α → Bool
  /-- Between double quotes the character begins an expansion. -/
  expands : α → Bool
  doubleQuote_ne_quote : doubleQuote ≠ quote
  backslash_ne_quote : backslash ≠ quote
  backslash_ne_doubleQuote : backslash ≠ doubleQuote
  newline_ne_quote : newline ≠ quote
  not_expands_quote : expands quote = false
  not_blank_quote : blank quote = false
  not_blank_doubleQuote : blank doubleQuote = false
  not_blank_backslash : blank backslash = false

/-- What has been read, with the word that is being read. -/
inductive State (α : Type u)
  | between
  | word (read : List α)
  | single (read : List α)
  /-- After a backslash between single quotes, in fish. -/
  | singleEscape (read : List α)
  | double (read : List α)
  /-- After a backslash outside quotes. -/
  | escape (read : List α)

variable {α : Type u} [DecidableEq α] (A : Alphabet α)

/-- The word that a blank or the end of the line ends, if the quotes are closed. -/
def State.words : State α → Option (List (List α))
  | between => some []
  | word read => some [read]
  | _ => none

/-- A character outside quotes; `escapes` where a backslash keeps the next character. -/
def plainStep (escapes : Bool) (read : List α) (c : α) : Option (State α) :=
  if c = A.quote then some (.single read)
  else if escapes ∧ c = A.doubleQuote then some (.double read)
  else if escapes ∧ c = A.backslash then some (.escape read)
  else if A.plain c then some (.word (read ++ [c]))
  else none

/-- One character of a POSIX shell's line. -/
def posixStep : State α → α → Option (State α)
  | .between, c => plainStep A true [] c
  | .word read, c => plainStep A true read c
  | .single read, c => some (if c = A.quote then .word read else .single (read ++ [c]))
  | .double read, c =>
    if c = A.doubleQuote then some (.word read)
    else if c = A.backslash ∨ A.expands c then none
    else some (.double (read ++ [c]))
  | .escape read, c => if c = A.newline then none else some (.word (read ++ [c]))
  | .singleEscape _, _ => none

/-- One character of a fish line. -/
def fishStep : State α → α → Option (State α)
  | .between, c => plainStep A false [] c
  | .word read, c => plainStep A false read c
  | .single read, c =>
    some (if c = A.quote then .word read
      else if c = A.backslash then .singleEscape read
      else .single (read ++ [c]))
  | .singleEscape read, c =>
    some (.single (read ++ if c = A.quote ∨ c = A.backslash then [c] else [A.backslash, c]))
  | _, _ => none

/-- The words of a line, by the step of its shell. -/
def lex (step : State α → α → Option (State α)) : State α → List α → Option (List (List α))
  | s, [] => s.words
  | s, c :: rest =>
    if A.blank c ∧ s.words.isSome then do
      let words ← s.words
      let more ← lex step .between rest
      return words ++ more
    else do
      let s ← step s c
      lex step s rest

/-- The words of a line of a POSIX shell. -/
def posix (line : List α) : Option (List (List α)) := lex A (posixStep A) .between line

/-- The words of a line of fish. -/
def fish (line : List α) : Option (List (List α)) := lex A (fishStep A) .between line

/-! ## Between single quotes -/

section
omit [DecidableEq α]
variable {A} {step : State α → α → Option (State α)} {s s' : State α} {rest : List α} {c : α}

/-- No word ends: quotes are open, or the character is no blank. -/
theorem lex_cons (hblank : s.words = none ∨ A.blank c = false) (h : step s c = some s') :
    lex A step s (c :: rest) = lex A step s' rest := by
  have hne : ¬ (A.blank c ∧ s.words.isSome) := by
    rintro ⟨hc, hs⟩
    cases hblank with
    | inl hnone =>
      rw [hnone] at hs
      cases hs
    | inr hno =>
      rw [hno] at hc
      cases hc
  rw [lex, if_neg hne, h]
  rfl

end

variable {A} {read rest : List α}

/-- `'` where a word could begin. -/
theorem posix_quote : lex A (posixStep A) .between (A.quote :: rest) =
    lex A (posixStep A) (.single []) rest :=
  lex_cons (.inr A.not_blank_quote) (if_pos rfl)

theorem fish_quote : lex A (fishStep A) .between (A.quote :: rest) =
    lex A (fishStep A) (.single []) rest :=
  lex_cons (.inr A.not_blank_quote) (if_pos rfl)

/-- The closing quote at the end of the line. -/
theorem posix_close : lex A (posixStep A) (.single read) [A.quote] = some [read] := by
  rw [lex_cons (.inl rfl) (congrArg some (if_pos rfl))]
  rfl

theorem fish_close : lex A (fishStep A) (.single read) [A.quote] = some [read] := by
  rw [lex_cons (.inl rfl) (congrArg some (if_pos rfl))]
  rfl

/-- `'\''`: the quotes are closed, and opened again after a quote that was escaped. -/
def closeEscape (A : Alphabet α) (c : α) : List α :=
  if c = A.quote then [A.quote, A.backslash, A.quote, A.quote] else [c]

/-- `'"'"'`: the quote stands between double quotes. -/
def closeDouble (A : Alphabet α) (c : α) : List α :=
  if c = A.quote then [A.quote, A.doubleQuote, A.quote, A.doubleQuote, A.quote] else [c]

/-- A backslash before each backslash and each quote. -/
def backslashed (A : Alphabet α) (c : α) : List α :=
  if c = A.backslash then [A.backslash, A.backslash]
  else if c = A.quote then [A.backslash, A.quote] else [c]

theorem posix_single {c : α} (h : c ≠ A.quote) :
    lex A (posixStep A) (.single read) (c :: rest) =
      lex A (posixStep A) (.single (read ++ [c])) rest :=
  lex_cons (.inl rfl) (congrArg some (if_neg h))

theorem posix_closeEscape (c : α) :
    lex A (posixStep A) (.single read) (closeEscape A c ++ rest) =
      lex A (posixStep A) (.single (read ++ [c])) rest := by
  unfold closeEscape
  split
  · next h =>
    subst h
    have hescape : posixStep A (.word read) A.backslash = some (.escape read) := by
      simp [posixStep, plainStep, A.backslash_ne_quote, A.backslash_ne_doubleQuote]
    have hquote : posixStep A (.escape read) A.quote = some (.word (read ++ [A.quote])) :=
      if_neg A.newline_ne_quote.symm
    calc lex A (posixStep A) (.single read) (A.quote :: A.backslash :: A.quote :: A.quote :: rest)
        = lex A (posixStep A) (.word read) (A.backslash :: A.quote :: A.quote :: rest) :=
          lex_cons (.inl rfl) (congrArg some (if_pos rfl))
      _ = lex A (posixStep A) (.escape read) (A.quote :: A.quote :: rest) :=
          lex_cons (.inr A.not_blank_backslash) hescape
      _ = lex A (posixStep A) (.word (read ++ [A.quote])) (A.quote :: rest) :=
          lex_cons (.inl rfl) hquote
      _ = lex A (posixStep A) (.single (read ++ [A.quote])) rest :=
          lex_cons (.inr A.not_blank_quote) (if_pos rfl)
  · next h => exact posix_single h

theorem posix_closeDouble (c : α) :
    lex A (posixStep A) (.single read) (closeDouble A c ++ rest) =
      lex A (posixStep A) (.single (read ++ [c])) rest := by
  unfold closeDouble
  split
  · next h =>
    subst h
    have hopen (read : List α) :
        posixStep A (.word read) A.doubleQuote = some (.double read) := by
      simp [posixStep, plainStep, A.doubleQuote_ne_quote]
    have hquote : posixStep A (.double read) A.quote = some (.double (read ++ [A.quote])) := by
      simp [posixStep, A.doubleQuote_ne_quote.symm, A.backslash_ne_quote.symm, A.not_expands_quote]
    calc lex A (posixStep A) (.single read)
          (A.quote :: A.doubleQuote :: A.quote :: A.doubleQuote :: A.quote :: rest)
        = lex A (posixStep A) (.word read)
            (A.doubleQuote :: A.quote :: A.doubleQuote :: A.quote :: rest) :=
          lex_cons (.inl rfl) (congrArg some (if_pos rfl))
      _ = lex A (posixStep A) (.double read) (A.quote :: A.doubleQuote :: A.quote :: rest) :=
          lex_cons (.inr A.not_blank_doubleQuote) (hopen read)
      _ = lex A (posixStep A) (.double (read ++ [A.quote])) (A.doubleQuote :: A.quote :: rest) :=
          lex_cons (.inl rfl) hquote
      _ = lex A (posixStep A) (.word (read ++ [A.quote])) (A.quote :: rest) :=
          lex_cons (.inl rfl) (if_pos rfl)
      _ = lex A (posixStep A) (.single (read ++ [A.quote])) rest :=
          lex_cons (.inr A.not_blank_quote) (if_pos rfl)
  · next h => exact posix_single h

theorem fish_backslashed (c : α) :
    lex A (fishStep A) (.single read) (backslashed A c ++ rest) =
      lex A (fishStep A) (.single (read ++ [c])) rest := by
  have hescape : fishStep A (.single read) A.backslash = some (.singleEscape read) := by
    simp [fishStep, A.backslash_ne_quote]
  unfold backslashed
  split
  · next h =>
    subst h
    have hkeep : fishStep A (.singleEscape read) A.backslash =
        some (.single (read ++ [A.backslash])) := by simp [fishStep]
    exact (lex_cons (.inl rfl) hescape).trans (lex_cons (.inl rfl) hkeep)
  · next hb =>
    split
    · next h =>
      subst h
      have hkeep : fishStep A (.singleEscape read) A.quote = some (.single (read ++ [A.quote])) := by
        simp [fishStep]
      exact (lex_cons (.inl rfl) hescape).trans (lex_cons (.inl rfl) hkeep)
    · next hq =>
      have hkeep : fishStep A (.single read) c = some (.single (read ++ [c])) := by
        simp [fishStep, hq, hb]
      exact lex_cons (.inl rfl) hkeep

omit [DecidableEq α] in
/-- A text quoted character by character is read as it was. -/
theorem lex_flatMap {step : State α → α → Option (State α)} {escape : α → List α}
    (h : ∀ read rest c, lex A step (.single read) (escape c ++ rest) =
      lex A step (.single (read ++ [c])) rest) (text : List α) :
    lex A step (.single read) (text.flatMap escape ++ rest) =
      lex A step (.single (read ++ text)) rest := by
  induction text generalizing read with
  | nil => rw [List.flatMap_nil, List.nil_append, List.append_nil]
  | cons c text ih => rw [List.flatMap_cons, List.append_assoc, h, ih, List.append_assoc,
      List.singleton_append]

/-- The whole text between quotes is one word. -/
theorem posix_quoted {escape : α → List α}
    (h : ∀ read rest c, lex A (posixStep A) (.single read) (escape c ++ rest) =
      lex A (posixStep A) (.single (read ++ [c])) rest) (text : List α) :
    posix A (A.quote :: text.flatMap escape ++ [A.quote]) = some [text] := by
  rw [posix, List.cons_append, posix_quote, lex_flatMap h, posix_close, List.nil_append]

theorem fish_quoted (text : List α) :
    fish A (A.quote :: text.flatMap (backslashed A) ++ [A.quote]) = some [text] := by
  rw [fish, List.cons_append, fish_quote, lex_flatMap fun _ _ => fish_backslashed, fish_close,
    List.nil_append]

end Lib.Quoting
