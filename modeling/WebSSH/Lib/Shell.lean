import Mathlib.Data.List.Basic

/-!
# Words of a shell

How a shell reads a text character by character: blanks and operators end a word, quotes and a
backslash keep the meaning of what follows them, a backslash before a line end joins two lines, and
a `#` where a word could begin starts a comment. A quotation, a command substitution, an arithmetic
or a parameter expansion belongs to its word as far as its end, with everything that is nested in
it. A command line ends at a line end that is in none of these and not joined.

A `$((` is an arithmetic expansion, the parentheses in `$(` come in pairs, and there are no
here-documents.
-/

namespace Lib.Shell

def isBlank (c : Char) : Bool := c = ' ' || c = '\t'

def isOperator (c : Char) : Bool := c ∈ [';', '&', '|', '(', ')', '<', '>']

/-- Where a character of a command stands. -/
inductive Place
  /-- No token has been read on this command line. -/
  | start
  | between
  | word
  /-- In a word, after a `$`. -/
  | dollar
  deriving DecidableEq, Repr

/-- A word is open. -/
def Place.isOpen : Place → Bool
  | start | between => false
  | word | dollar => true

def Place.blank : Place → Place
  | start => start
  | between | word | dollar => between

/-- After a character of a word. -/
def Place.letter (p : Place) (c : Char) : Place :=
  if c = '$' ∧ p ≠ .dollar then .dollar else .word

/-! ## Quotations and expansions -/

/-- A quotation or an expansion that has not ended. -/
inductive Context
  | single
  | double
  | backquote
  /-- The command of a `$(`, or one in parentheses there. -/
  | command (p : Place)
  /-- A comment in such a command. -/
  | comment
  | arithmetic
  /-- The parameter of a `${` in double quotes; `first` before it. -/
  | parameter (first : Bool)
  /-- A `${`, in which single quotes may be characters. -/
  | brace (quotes : Bool)
  deriving DecidableEq, Repr

/-- The characters before the next one that may belong together with it. -/
inductive Seen
  | nothing
  | dollar
  /-- `$(` -/
  | substitution
  | backslash (before : Seen)
  deriving DecidableEq, Repr

/-- What a character does in a command. -/
inductive Kind
  | newline
  | blank
  | operator
  | backslash
  | comment
  | opening (seen : Seen) (context : Context)
  | letter
  deriving DecidableEq, Repr

def kind (p : Place) (c : Char) : Kind :=
  if c = '\n' then .newline
  else if isBlank c then .blank
  else if c = '(' ∧ p = .dollar then .opening .substitution (.command .between)
  else if c = '{' ∧ p = .dollar then .opening .nothing (.brace true)
  else if isOperator c then .operator
  else if c = '\\' then .backslash
  else if c = '\'' then .opening .nothing .single
  else if c = '"' then .opening .nothing .double
  else if c = '`' then .opening .nothing .backquote
  else if c = '#' ∧ p.isOpen = false then .comment
  else .letter

/-- What a `${` opens: in double quotes, and wherever else a quote is a character, whether single
quotes quote depends on the operator after the parameter. -/
def Context.opened : Context → Context
  | double | arithmetic | brace false => parameter true
  | _ => brace true

/-- After a backslash and a character that it quotes. -/
def Context.escaped : Context → Context
  | command _ => command .word
  | parameter _ => brace false
  | context => context

/-- A character that is special in double quotes, or an ordinary one. -/
def Context.expand (context : Context) (outer : List Context) (c : Char) : Seen × List Context :=
  if c = '\\' then (.backslash .nothing, context :: outer)
  else if c = '$' then (.dollar, context :: outer)
  else if c = '`' then (.nothing, .backquote :: context :: outer)
  else (.nothing, context :: outer)

def readBrace (quotes : Bool) (outer : List Context) (c : Char) : Seen × List Context :=
  if c = '}' then (.nothing, outer)
  else if c = '"' then (.nothing, .double :: .brace quotes :: outer)
  else if c = '\'' ∧ quotes then (.nothing, .single :: .brace quotes :: outer)
  else Context.expand (.brace quotes) outer c

def isName (c : Char) : Bool := c.isAlphanum || c = '_'

/-- The next character in the innermost context. -/
def Context.read (outer : List Context) (c : Char) : Context → Seen × List Context
  | single => (.nothing, if c = '\'' then outer else .single :: outer)
  | double => if c = '"' then (.nothing, outer) else expand .double outer c
  | backquote =>
    if c = '`' then (.nothing, outer)
    else (if c = '\\' then .backslash .nothing else .nothing, .backquote :: outer)
  | command p =>
    match kind p c with
    | .newline => (.nothing, .command .start :: outer)
    | .blank => (.nothing, .command p.blank :: outer)
    | .operator =>
      if c = '(' then (.nothing, .command .between :: .command .between :: outer)
      else if c = ')' then (.nothing, outer)
      else (.nothing, .command .between :: outer)
    | .backslash => (.backslash .nothing, .command p :: outer)
    | .comment => (.nothing, .comment :: .command .start :: outer)
    | .opening seen context => (seen, context :: .command .word :: outer)
    | .letter => (.nothing, .command (p.letter c) :: outer)
  | comment => (.nothing, if c = '\n' then outer else .comment :: outer)
  | arithmetic =>
    if c = '(' then (.nothing, .arithmetic :: .arithmetic :: outer)
    else if c = ')' then (.nothing, outer)
    else expand .arithmetic outer c
  | parameter first =>
    if c = '\\' then (.backslash .nothing, .parameter first :: outer)
    else if c ≠ '}' ∧ (first ∨ isName c) then (.nothing, .parameter false :: outer)
    -- the expansions that remove a part of the value
    else if c = '%' ∨ c = '#' then (.nothing, .brace true :: outer)
    else readBrace false outer c
  | brace quotes => readBrace quotes outer c

/-- The contexts after the next character. -/
def Seen.next : Seen → List Context → Char → Seen × List Context
  | _, [], _ => (.nothing, [])
  | .backslash before, context :: outer, c =>
    if c = '\n' then (before, context :: outer) else (.nothing, context.escaped :: outer)
  | .dollar, context :: outer, c =>
    if c = '(' then (.substitution, .command .between :: context :: outer)
    else if c = '{' then (.nothing, context.opened :: context :: outer)
    else if c = '$' then (.nothing, context :: outer)
    else if c = '\\' then (.backslash .dollar, context :: outer)
    else context.read outer c
  | .substitution, context :: outer, c =>
    if c = '(' then (.nothing, .arithmetic :: .arithmetic :: outer)
    else if c = '\\' then (.backslash .substitution, context :: outer)
    else context.read outer c
  | .nothing, context :: outer, c => context.read outer c

/-! ## States -/

/-- What has to be known of a text to read the next character. -/
inductive State
  | plain (p : Place)
  /-- After a backslash. -/
  | escape (p : Place)
  | comment
  /-- In a word, in these contexts, the innermost first. -/
  | inside (seen : Seen) (contexts : List Context)
  deriving DecidableEq, Repr

def State.within : Seen × List Context → State
  | (_, []) => plain .word
  | (seen, contexts) => inside seen contexts

def State.step : State → Char → State
  | plain p, c =>
    match kind p c with
    | .newline => plain .start
    | .blank => plain p.blank
    | .operator => plain .between
    | .backslash => escape p
    | .comment => comment
    | .opening seen context => inside seen [context]
    | .letter => plain (p.letter c)
  | escape p, c => if c = '\n' then plain p else plain .word
  | comment, c => if c = '\n' then plain .start else comment
  | inside seen contexts, c => within (seen.next contexts c)

/-- The state after a text. -/
def State.run (s : State) (text : List Char) : State := text.foldl step s

inductive Token
  /-- A word with its quotes, without joined line ends outside them. -/
  | word (text : List Char)
  | operator (c : Char)
  /-- The end of a command line. -/
  | newline
  deriving DecidableEq, Repr

/-- The word that ends where the next character is unquoted. -/
def Place.close (cur : List Char) (p : Place) : List Token := if p.isOpen then [.word cur] else []

/-- The tokens that the character completes, `cur` being read of the word it stands in. -/
def State.emit (cur : List Char) : State → Char → List Token
  | plain p, c =>
    match kind p c with
    | .newline => p.close cur ++ [.newline]
    | .blank => p.close cur
    | .operator => p.close cur ++ [.operator c]
    | .backslash | .comment | .opening .. | .letter => []
  | comment, c => if c = '\n' then [.newline] else []
  | escape _, _ | inside .., _ => []

/-- The word in which the next character stands. -/
def State.grow (cur : List Char) : State → Char → List Char
  | plain p, c =>
    match kind p c with
    | .newline | .blank | .operator | .comment => []
    | .backslash => cur
    | .opening .. | .letter => cur ++ [c]
  | escape _, c => if c = '\n' then cur else cur ++ ['\\', c]
  | comment, _ => []
  | inside .., c => cur ++ [c]

/-- The word that ends with the text. -/
def State.close (cur : List Char) : State → List Token
  | plain p => p.close cur
  | escape _ => [.word (cur ++ ['\\'])]
  | comment => []
  | inside .. => [.word cur]

def tokensFrom : State → List Char → List Char → List Token
  | s, cur, [] => s.close cur
  | s, cur, c :: rest => s.emit cur c ++ tokensFrom (s.step c) (s.grow cur c) rest

/-- The tokens of a text. -/
def tokens (text : List Char) : List Token := tokensFrom (.plain .start) [] text

example : tokens "a 'b;c' \\\n  d;# e\nf".toList =
    [.word ['a'], .word "'b;c'".toList, .word ['d'], .operator ';', .newline, .word ['f']] := by
  decide

example : tokens "a \"$(b \"c\nd\" # )\n)\" $((1 +\n(2)))\ne".toList =
    [.word ['a'], .word "\"$(b \"c\nd\" # )\n)\"".toList, .word "$((1 +\n(2)))".toList, .newline,
      .word ['e']] := by
  decide

/-! ## A word in front of every command line -/

variable (w : List Char)

/-- A word begins with the character, before the rest of the text. -/
def beginsWord (c : Char) (rest : List Char) : Bool :=
  c ≠ '\n' && !isBlank c && !isOperator c && c ≠ '#' && !(c = '\\' && rest.head? = some '\n')

/-- The word that begins with the text is `w`. -/
def beginsWith (text : List Char) : Bool :=
  (tokensFrom (.plain .start) [] text).head? = some (.word w)

/-- `w` and a blank are put in front of each word that starts a command line, except of `w`. -/
def prefixWords : State → List Char → List Char
  | _, [] => []
  | s, c :: rest =>
    if s = .plain .start ∧ beginsWord c rest ∧ !beginsWith w (c :: rest) then
      w ++ ' ' :: c :: prefixWords (s.step c) rest
    else c :: prefixWords (s.step c) rest

/-- A character that has no meaning of its own anywhere in a command. -/
def IsPlain (c : Char) : Prop :=
  c ≠ '\n' ∧ isBlank c = false ∧ isOperator c = false ∧
    c ∉ ['#', '\\', '\'', '"', '`', '$']

instance (c : Char) : Decidable (IsPlain c) := inferInstanceAs (Decidable (_ ∧ _ ∧ _ ∧ _))

variable {p : Place} {c : Char}

/-- The characters of a kind. -/
def Kind.Fits (p : Place) (c : Char) : Kind → Prop
  | newline => c = '\n'
  | blank => isBlank c = true
  | operator => isOperator c = true
  | backslash => c = '\\'
  | comment => c = '#' ∧ p.isOpen = false
  | opening .. | letter => True

theorem fits_ite {P : Prop} [Decidable P] {first second : Kind} (h : P → first.Fits p c)
    (h' : second.Fits p c) : (if P then first else second).Fits p c := by
  by_cases hP : P
  · rw [if_pos hP]
    exact h hP
  · rw [if_neg hP]
    exact h'

theorem fits_kind (p : Place) (c : Char) : (kind p c).Fits p c := by
  unfold kind
  refine fits_ite id (fits_ite id ?_)
  refine fits_ite (fun _ => trivial) (fits_ite (fun _ => trivial) ?_)
  refine fits_ite id (fits_ite id ?_)
  refine fits_ite (fun _ => trivial) (fits_ite (fun _ => trivial) (fits_ite (fun _ => trivial) ?_))
  exact fits_ite id trivial

theorem isOpen_letter (p : Place) (c : Char) : (p.letter c).isOpen = true := by
  unfold Place.letter
  split <;> rfl

theorem IsPlain.kind (h : IsPlain c) (hp : p ≠ .dollar) : kind p c = .letter := by
  obtain ⟨h1, h2, h3, h4⟩ := h
  simp only [List.mem_cons, List.not_mem_nil, or_false, not_or] at h4
  obtain ⟨h4, h5, h6, h7, h8, -⟩ := h4
  simp [Shell.kind, *]

theorem IsPlain.letter (h : IsPlain c) (p : Place) : p.letter c = .word := by
  refine if_neg fun hc => h.2.2.2 ?_
  rw [hc.1]
  decide

theorem beginsWord_iff {rest : List Char} : beginsWord c rest = true ↔
    c ≠ '\n' ∧ isBlank c = false ∧ isOperator c = false ∧ c ≠ '#' ∧
      ¬ (c = '\\' ∧ rest.head? = some '\n') := by
  simp [beginsWord, and_assoc, Decidable.imp_iff_not_or]

/-- A word is open. -/
def State.Open : State → Prop
  | plain p | escape p => p.isOpen = true
  | comment => False
  | inside .. => True

theorem open_within (next : Seen × List Context) : (State.within next).Open := by
  obtain ⟨seen, contexts⟩ := next
  cases contexts with
  | nil => rfl
  | cons context outer => trivial

theorem open_letter (p : Place) (c : Char) : (State.plain (p.letter c)).Open := isOpen_letter p c

/-- An open word is the first token, and what has been read of it is its beginning. -/
theorem State.Open.tokensFrom {s : State} (H : s.Open) (cur text : List Char) :
    ∃ more rest, tokensFrom s cur text = .word (cur ++ more) :: rest := by
  have hgrow {s : State} {cur added : List Char} {text : List Char}
      (ih : ∃ more rest, Shell.tokensFrom s (cur ++ added) text =
        .word (cur ++ added ++ more) :: rest) :
      ∃ more rest, Shell.tokensFrom s (cur ++ added) text = .word (cur ++ more) :: rest := by
    obtain ⟨more, rest, h⟩ := ih
    exact ⟨added ++ more, rest, by rw [h, List.append_assoc]⟩
  have hclosed {p : Place} (hp : p.isOpen = true) (cur : List Char) (more : List Token) :
      ∃ added rest, p.close cur ++ more = .word (cur ++ added) :: rest := by
    refine ⟨[], more, ?_⟩
    rw [Place.close, if_pos hp, List.append_nil]
    rfl
  induction text generalizing s cur with
  | nil =>
    cases s with
    | plain p =>
      obtain ⟨added, rest, h⟩ := hclosed H cur []
      exact ⟨added, rest, (List.append_nil _).symm.trans h⟩
    | escape p => exact ⟨['\\'], [], rfl⟩
    | comment => cases H
    | inside => exact ⟨[], [], by rw [List.append_nil]; rfl⟩
  | cons c text ih =>
    cases s with
    | plain p =>
      simp only [Shell.tokensFrom, emit, grow, step]
      cases hkind : kind p c with
      | newline =>
        dsimp only
        rw [List.append_assoc]
        exact hclosed H _ _
      | blank => exact hclosed H _ _
      | operator =>
        dsimp only
        rw [List.append_assoc]
        exact hclosed H _ _
      | backslash => exact ih (s := .escape p) H cur
      | comment =>
        have hfits := fits_kind p c
        rw [hkind] at hfits
        exact absurd (hfits.2.symm.trans H) nofun
      | opening seen context => exact hgrow (ih (s := .inside seen [context]) trivial _)
      | letter => exact hgrow (ih (open_letter p c) _)
    | escape p =>
      simp only [Shell.tokensFrom, emit, grow, step, List.nil_append]
      split
      · exact ih (s := .plain p) H cur
      · exact hgrow (ih (s := .plain .word) rfl _)
    | comment => cases H
    | inside seen contexts => exact hgrow (ih (open_within _) _)

variable {w}

theorem prefixWords_cons {s : State} {c : Char} {rest : List Char}
    (h : ¬ (s = .plain .start ∧ beginsWord c rest ∧ !beginsWith w (c :: rest))) :
    prefixWords w s (c :: rest) = c :: prefixWords w (s.step c) rest := if_neg h

theorem prefixWords_newline (s : State) (rest : List Char) :
    prefixWords w s ('\n' :: rest) = '\n' :: prefixWords w (s.step '\n') rest :=
  prefixWords_cons fun h => absurd rfl (beginsWord_iff.mp h.2.1).1

end Lib.Shell
