import Mathlib.Tactic.Ring
import WebSSH.Commands.Sets

/-!
# Which stored sets can be launched

A payload is accepted by the length of its step texts joined by line ends. The text that is
launched has the prefixes and the separators besides, so that it can be too long; `launchLength` is
its length in terms of the step texts, and that is all that can make a stored set fail.
-/

namespace WebSSH.Commands
open Lib Lib.Python

/-! ## Lines -/

theorem join_lines (value : Text) : join (lines value) = value :=
  List.intercalate_splitOn '\n'

theorem lines_ne_nil (value : Text) : lines value ≠ [] := List.splitOn_ne_nil '\n' value

/-- The length of the lines with their line ends. -/
def linesLength (ls : List Text) : Nat := (ls.map fun line => line.length + 1).sum

theorem length_join {ls : List Text} (h : ls ≠ []) : (join ls).length + 1 = linesLength ls := by
  induction ls with
  | nil => exact absurd rfl h
  | cons line rest ih =>
    cases rest with
    | nil => simp [join, linesLength]
    | cons next rest =>
      have ih := ih (List.cons_ne_nil next rest)
      simp only [join, linesLength, List.intercalate_cons_cons, List.length_append, List.map_cons,
        List.sum_cons, List.length_singleton] at ih ⊢
      omega

theorem linesLength_set {ls : List Text} {n : Nat} (h : n < ls.length) (line : Text) :
    linesLength (ls.set n line) + (ls.getD n []).length = linesLength ls + line.length := by
  induction ls generalizing n with
  | nil => exact absurd h (Nat.not_lt_zero n)
  | cons first rest ih =>
    cases n with
    | zero => simp [linesLength]; omega
    | succ n =>
      have ih := ih (Nat.lt_of_succ_lt_succ h)
      simp only [linesLength, List.set_cons_succ, List.map_cons, List.sum_cons,
        List.getD_cons_succ] at ih ⊢
      omega

theorem length_join_set (value : Text) {n : Nat} (h : n < (lines value).length) (line : Text) :
    (join ((lines value).set n line)).length + ((lines value).getD n []).length =
      value.length + line.length := by
  have hset := linesLength_set h line
  have hne : (lines value).set n line ≠ [] :=
    List.ne_nil_of_length_pos (by rw [List.length_set]; omega)
  have hnew := length_join hne
  have hold := length_join (lines_ne_nil value)
  rw [join_lines] at hold
  omega

/-! ## The lengths of the step texts -/

/-- What the prefix adds to a line. -/
def sudoGrowth (useSudo : Bool) (line : Text) : Nat := if useSudo ∧ takesSudo line then 5 else 0

theorem length_prefixLine (line : Text) :
    (prefixLine line).length = line.length + sudoGrowth true line := by
  unfold prefixLine sudoGrowth
  split
  · rename_i h
    have hlength := congrArg List.length (List.takeWhile_append_dropWhile (p := isSpace) (l := line))
    simp only [List.length_append, List.length_cons, sudoWord, List.length_nil, h, and_self,
      if_true, lstrip] at hlength ⊢
    omega
  · rename_i h
    simp [h]

/-- The lines of a step that are launched. -/
def keptLines (part : Text) : List Text := (lines part).rdropWhile allSpace

/-- A line that is neither blank nor a comment. -/
def hasCommand (line : Text) : Bool := !allSpace line && (lstrip line).head? ≠ some '#'

/-- The length of the text that is launched for a step, without its separator. -/
def stepLength (useSudo : Bool) (part : Text) : Nat :=
  if keptLines part = [] then 1
  else
    (if (keptLines part).any hasCommand then 0 else 2) +
      ((keptLines part).map fun line => line.length + sudoGrowth useSudo line + 1).sum - 1

/-- What `_append_operator` adds to a line. -/
def operatorGrowth (commandText : Text) (lineNumber : Nat) (scan : Scan) : Int :=
  if endsAt commandText lineNumber scan.semicolonPositions then
    3 - (commandText.length - (rstrip commandText.dropLast).length : Int)
  else if endsAt commandText lineNumber scan.ampersandPositions then 5
  else 3

/-- What `_append_step_separator` adds to a step. -/
def separatorGrowth (text : Text) : Int :=
  let scan := shellTokenPositions text
  let lastLine := (lines text).length - 1
  if (scan.commentPositions.lookup lastLine).isNone then
    operatorGrowth ((lines text).getD lastLine []) lastLine scan + 1
  else
    match findCommand (lines text) scan.commentPositions (lines text).length with
    | none => 6
    | some (commandLine, commandText, none) =>
      operatorGrowth commandText commandLine scan + 1 -
        (((lines text).getD commandLine []).length - commandText.length : Int)
    | some (commandLine, commandText, some comment) =>
      operatorGrowth commandText commandLine scan + 2 -
        (((lines text).getD commandLine []).length - commandText.length - comment.length : Int)

/-- The step's text as it is launched, without its separator. -/
def launched (useSudo : Bool) (part : Text) : Text :=
  prepareStepForChaining (if useSudo then prefixCommandsWithSudo part else part)

/-- The length of the launched text of a set, from the texts of its steps. -/
def launchLength (useSudo : Bool) (parts : List Text) : Int :=
  (parts.map fun part => (stepLength useSudo part : Int)).sum +
    (parts.dropLast.map fun part => separatorGrowth (launched useSudo part)).sum

/-! ### The prefix keeps the shape of a step -/

theorem newline_notMem_lines {value line : Text} (h : line ∈ lines value) : '\n' ∉ line := by
  induction value generalizing line with
  | nil =>
    cases List.mem_singleton.mp h
    exact List.not_mem_nil
  | cons c rest ih =>
    rw [lines, List.splitOn_cons_eq_if_modifyHead] at h
    split at h
    · rcases List.mem_cons.mp h with rfl | h
      · exact List.not_mem_nil
      · exact ih h
    · rename_i hc
      have hne := lines_ne_nil rest
      cases hlines : lines rest with
      | nil => exact absurd hlines hne
      | cons first more =>
        rw [lines] at hlines
        rw [hlines, List.modifyHead_cons] at h
        rcases List.mem_cons.mp h with rfl | h
        · have hfirst : '\n' ∉ first := ih (by rw [lines, hlines]; exact List.mem_cons_self)
          rw [List.mem_cons, not_or]
          exact ⟨fun h => hc (by rw [h]; exact beq_self_eq_true c), hfirst⟩
        · exact ih (by rw [lines, hlines]; exact List.mem_cons_of_mem first h)

theorem lines_join {ls : List Text} (h : ∀ line ∈ ls, '\n' ∉ line) (hne : ls ≠ []) :
    lines (join ls) = ls :=
  List.splitOn_intercalate '\n' h hne

theorem mem_prefixLine {line : Text} {c : Char} (h : c ∈ prefixLine line) :
    c ∈ line ∨ c ∈ sudoWord ∨ c = ' ' := by
  unfold prefixLine at h
  split at h
  · simp only [List.mem_append, List.mem_cons, or_assoc] at h
    rcases h with h | h | h | h
    · exact .inl ((List.takeWhile_prefix isSpace).subset h)
    · exact .inr (.inl h)
    · exact .inr (.inr h)
    · exact .inl ((List.dropWhile_suffix isSpace).subset h)
  · exact .inl h

theorem lines_prefixCommandsWithSudo (value : Text) :
    lines (prefixCommandsWithSudo value) = (lines value).map prefixLine := by
  refine lines_join (fun line hline hnewline => ?_) (by simpa using lines_ne_nil value)
  obtain ⟨old, hold, rfl⟩ := List.mem_map.mp hline
  rcases mem_prefixLine hnewline with h | h | h
  · exact newline_notMem_lines hold h
  · exact absurd h (by decide)
  · exact absurd h (by decide)

theorem lstrip_of_blank (lead : Text) (h : ∀ c ∈ lead, isSpace c = true) (rest : Text) :
    lstrip (lead ++ rest) = lstrip rest :=
  List.dropWhile_append_of_pos h

theorem lstrip_prefixLine {line : Text} (h : takesSudo line = true) :
    lstrip (prefixLine line) = sudoWord ++ ' ' :: lstrip line := by
  rw [prefixLine, if_pos h, List.append_assoc,
    lstrip_of_blank _ fun c hc => List.mem_takeWhile_imp hc]
  exact List.dropWhile_cons_of_neg (by decide)

theorem not_blank_of_takesSudo {line : Text} (h : takesSudo line = true) : allSpace line = false := by
  have hne : lstrip line ≠ [] := by
    intro hnil
    rw [takesSudo, hnil] at h
    cases h
  refine Bool.eq_false_iff.mpr fun hblank => hne ?_
  exact List.dropWhile_eq_nil_iff.mpr (List.all_eq_true.mp hblank)

theorem allSpace_prefixLine (line : Text) : allSpace (prefixLine line) = allSpace line := by
  cases h : takesSudo line with
  | false => rw [prefixLine, if_neg (Bool.eq_false_iff.mp h)]
  | true =>
    rw [not_blank_of_takesSudo h, prefixLine, if_pos h]
    simp [allSpace, sudoWord, show isSpace 's' = false by decide]

theorem hasCommand_prefixLine (line : Text) : hasCommand (prefixLine line) = hasCommand line := by
  cases h : takesSudo line with
  | false => rw [prefixLine, if_neg (Bool.eq_false_iff.mp h)]
  | true =>
    have hhead : (lstrip line).head? ≠ some '#' := by
      intro hhead
      rw [takesSudo, hhead] at h
      simp at h
    rw [hasCommand, hasCommand, allSpace_prefixLine, lstrip_prefixLine h,
      not_blank_of_takesSudo h]
    simp [sudoWord, hhead]

theorem rdropWhile_map {α β : Type} (f : α → β) (p : β → Bool) (l : List α) :
    (l.map f).rdropWhile p = (l.rdropWhile (p ∘ f)).map f := by
  simp only [List.rdropWhile, ← List.map_reverse, List.dropWhile_map]

theorem keptLines_prefix (part : Text) :
    keptLines (prefixCommandsWithSudo part) = (keptLines part).map prefixLine := by
  rw [keptLines, lines_prefixCommandsWithSudo, rdropWhile_map,
    show allSpace ∘ prefixLine = allSpace from funext allSpace_prefixLine]
  rfl

/-! ### Every function adds what is counted -/

theorem prepareStepForChaining_eq (part : Text) :
    prepareStepForChaining part =
      if keptLines part = [] then [':']
      else (if (keptLines part).any hasCommand then [] else [':', '\n']) ++ join (keptLines part) := by
  rw [prepareStepForChaining]
  change (if (keptLines part).isEmpty then _ else
    if (keptLines part).any hasCommand then _ else _) = _
  simp only [List.isEmpty_iff]
  split
  · rfl
  · split <;> rfl

theorem length_launched (useSudo : Bool) (part : Text) :
    (launched useSudo part).length = stepLength useSudo part := by
  have hplain (text : Text) : (prepareStepForChaining text).length =
      if keptLines text = [] then 1
      else (if (keptLines text).any hasCommand then 0 else 2) + linesLength (keptLines text) - 1 := by
    rw [prepareStepForChaining_eq]
    split
    · rfl
    · rename_i hne
      have hlength := length_join hne
      rw [List.length_append]
      split <;> simp only [List.length_nil, List.length_cons] <;> omega
  rw [launched, hplain, stepLength]
  cases useSudo with
  | false => simp [sudoGrowth, linesLength]
  | true =>
    have hany : ((keptLines part).map prefixLine).any hasCommand = (keptLines part).any hasCommand := by
      rw [List.any_map, show hasCommand ∘ prefixLine = hasCommand from funext hasCommand_prefixLine]
    have hsum : linesLength ((keptLines part).map prefixLine) =
        ((keptLines part).map fun line => line.length + sudoGrowth true line + 1).sum := by
      simp only [linesLength, List.map_map]
      congr 1
      exact List.map_congr_left fun line _ => congrArg (· + 1) (length_prefixLine line)
    rw [if_pos rfl, keptLines_prefix, hany, hsum]
    simp only [List.map_eq_nil_iff]

theorem length_appendOperator (commandText : Text) (lineNumber : Nat) (scan : Scan) :
    ((appendOperator commandText lineNumber scan.semicolonPositions scan.ampersandPositions).length :
      Int) = commandText.length + operatorGrowth commandText lineNumber scan := by
  rw [appendOperator, operatorGrowth]
  split
  · rw [List.length_append]
    simp only [List.length_cons, List.length_nil, Nat.cast_add]
    omega
  · split <;> simp only [List.length_append, List.length_cons, List.length_nil] <;> omega

/-- The command is on one of the lines, and its comment is the rest of the line. -/
theorem findCommand_some {ls : List Text} {comments : List (Nat × Nat)} {n commandLine : Nat}
    {commandText : Text} {commentText : Option Text}
    (h : findCommand ls comments n = some (commandLine, commandText, commentText)) :
    commandLine < n := by
  induction n with
  | zero => cases h
  | succ n ih =>
    rw [findCommand] at h
    split at h
    · exact (ih h).trans (Nat.lt_succ_self n)
    · cases h
      exact Nat.lt_succ_self _

theorem length_appendStepSeparator (text : Text) :
    ((appendStepSeparator text).length : Int) = text.length + separatorGrowth text := by
  have hpos : 0 < (lines text).length := List.length_pos_of_ne_nil (lines_ne_nil text)
  rw [appendStepSeparator, separatorGrowth]
  dsimp only
  split
  · have hset := length_join_set text (n := (lines text).length - 1) (by omega)
      (appendOperator ((lines text).getD ((lines text).length - 1) []) ((lines text).length - 1)
        (shellTokenPositions text).semicolonPositions (shellTokenPositions text).ampersandPositions)
    have hoperator := length_appendOperator ((lines text).getD ((lines text).length - 1) [])
      ((lines text).length - 1) (shellTokenPositions text)
    rw [List.length_append, List.length_singleton]
    omega
  · cases hfind : findCommand (lines text) (shellTokenPositions text).commentPositions
      (lines text).length with
    | none =>
      have hjoin := length_join (List.cons_ne_nil [':', ' ', '&', '&'] (lines text))
      have hold := length_join (lines_ne_nil text)
      rw [join_lines] at hold
      simp only [linesLength, List.map_cons, List.sum_cons, List.length_cons, List.length_nil] at hjoin hold
      simp only [List.length_append, List.length_singleton]
      omega
    | some found =>
      obtain ⟨commandLine, commandText, commentText⟩ := found
      have hset := length_join_set text (findCommand_some hfind)
      have hoperator := length_appendOperator commandText commandLine (shellTokenPositions text)
      cases commentText with
      | none =>
        have hset := hset (appendOperator commandText commandLine
          (shellTokenPositions text).semicolonPositions (shellTokenPositions text).ampersandPositions)
        simp only [List.length_append, List.length_singleton]
        omega
      | some comment =>
        have hset := hset (appendOperator commandText commandLine
          (shellTokenPositions text).semicolonPositions
          (shellTokenPositions text).ampersandPositions ++ ' ' :: comment)
        simp only [List.length_append, List.length_cons, List.length_nil] at hset ⊢
        omega

theorem length_flatten_separated (texts : List Text) :
    ((texts.map appendStepSeparator).flatten.length : Int) =
      (texts.map fun text => (text.length : Int)).sum + (texts.map separatorGrowth).sum := by
  induction texts with
  | nil => rfl
  | cons text rest ih =>
    simp only [List.map_cons, List.flatten_cons, List.length_append, List.sum_cons, Nat.cast_add,
      length_appendStepSeparator, ih]
    ring

theorem chain_eq (useSudo : Bool) (parts : List Text) :
    chain useSudo parts = (((parts.map (launched useSudo)).dropLast.map appendStepSeparator).flatten ++
      (parts.map (launched useSudo)).getLast?.getD []) := by
  cases useSudo with
  | false => rfl
  | true =>
    rw [chain, if_pos rfl, List.map_map]
    rfl

theorem length_chain (useSudo : Bool) {parts : List Text} (h : parts ≠ []) :
    ((chain useSudo parts).length : Int) = launchLength useSudo parts := by
  obtain rfl | ⟨before, last, rfl⟩ := List.eq_nil_or_concat' parts
  · exact absurd rfl h
  · have hbefore := length_flatten_separated (before.map (launched useSudo))
    simp only [List.map_map, Function.comp_def] at hbefore
    rw [chain_eq, launchLength]
    simp only [List.map_append, List.map_singleton, List.dropLast_concat, List.getLast?_concat,
      Option.getD_some, List.length_append, Nat.cast_add, List.sum_append, List.sum_singleton,
      List.map_map, Function.comp_def, hbefore, ← length_launched]
    ring

/-! ## A stored set is resolved to the texts it was accepted with -/

theorem length_universalNewlines (value : Text) : (universalNewlines value).length ≤ value.length := by
  fun_induction universalNewlines value with
  | case1 rest ih => simp only [List.length_cons]; omega
  | case2 rest hne ih => simp only [List.length_cons]; omega
  | case3 c rest h1 h2 ih => simp only [List.length_cons]; omega
  | case4 => exact Nat.le_refl _

theorem carriageReturn_notMem (value : Text) : '\r' ∉ universalNewlines value := by
  fun_induction universalNewlines value with
  | case1 rest ih => simpa using ih
  | case2 rest hne ih => simpa using ih
  | case3 c rest h1 h2 ih =>
    rw [List.mem_cons, not_or]
    exact ⟨fun h => h2 h.symm, ih⟩
  | case4 => exact List.not_mem_nil

theorem mem_universalNewlines {value : Text} {c : Char} (h : c ∈ universalNewlines value) :
    c ∈ value ∨ c = '\n' := by
  fun_induction universalNewlines value with
  | case1 rest ih =>
    rcases List.mem_cons.mp h with h | h
    · exact .inr h
    · exact (ih h).imp_left fun h => List.mem_cons_of_mem _ (List.mem_cons_of_mem _ h)
  | case2 rest hne ih =>
    rcases List.mem_cons.mp h with h | h
    · exact .inr h
    · exact (ih h).imp_left (List.mem_cons_of_mem _)
  | case3 d rest h1 h2 ih =>
    rcases List.mem_cons.mp h with rfl | h
    · exact .inl List.mem_cons_self
    · exact (ih h).imp_left (List.mem_cons_of_mem _)
  | case4 => exact .inl h

/-- What is normalized is short and without NUL. -/
theorem normalize_eq_ok {value text : Text} :
    normalizeStartupCommands value = .ok text ↔
      value.length ≤ maxStartupCommandsLength ∧ '\x00' ∉ value ∧ text = universalNewlines value := by
  have hle := length_universalNewlines value
  rw [normalizeStartupCommands]
  split
  · rename_i hlong
    simp only [reduceCtorEq, false_iff]
    exact fun h => absurd h.1 (Nat.not_le.mpr hlong)
  · rename_i hshort
    split
    · rename_i hnul
      simp only [reduceCtorEq, false_iff]
      exact fun h => absurd hnul h.2.1
    · rename_i hnul
      rw [if_neg (Nat.not_lt.mpr (hle.trans (Nat.not_lt.mp hshort)))]
      simp only [Except.ok.injEq]
      exact ⟨fun h => ⟨Nat.not_lt.mp hshort, hnul, h.symm⟩, fun h => h.2.2.symm⟩

theorem normalize_normalized {value text : Text} (h : normalizeStartupCommands value = .ok text) :
    normalizeStartupCommands text = .ok text := by
  obtain ⟨hshort, hnul, rfl⟩ := normalize_eq_ok.mp h
  refine normalize_eq_ok.mpr ⟨(length_universalNewlines value).trans hshort, fun h => ?_,
    (universalNewlines_eq_self (carriageReturn_notMem value)).symm⟩
  rcases mem_universalNewlines h with h | h
  · exact hnul h
  · exact absurd h (by decide)

theorem normalizeStep_inline (commands : Dict String (List (String × Json))) (position : Nat)
    (command : String) : normalizeStep commands position (Step.inline command).json = (do
      let normalized ← normalizeStartupCommands command.toList
      if allSpace normalized then .error s!"Command set step {position} is empty"
      else .ok (.inline (String.ofList normalized), normalized)) := rfl

theorem normalizeStep_library {commands : Dict String (List (String × Json))} (position : Nat)
    {commandId : String} {command : List (String × Json)} (h : commands.get? commandId = some command)
    {override : Option (Option String)}
    (hoverride : ∀ parameters, override.join = some parameters →
      validateCommandParameters (.str parameters) = none) :
    normalizeStep commands position (Step.library commandId override).json = (do
      let text ← libraryText command (override.join.map Json.str)
      .ok (.library commandId override, text)) := by
  match override with
  | none => simp [normalizeStep, Step.json, Json.get, h]
  | some none => simp [normalizeStep, Step.json, Json.get, h]
  | some (some parameters) =>
    simp [normalizeStep, Step.json, Json.get, h, hoverride parameters rfl]

/-- Storing a step and reading it again changes neither the step nor its text. -/
theorem normalizeStep_stored {commands : Dict String (List (String × Json))} {position : Nat}
    {rawStep : Json} {step : Step × Text} (h : normalizeStep commands position rawStep = .ok step) :
    normalizeStep commands position step.1.json = .ok step := by
  unfold normalizeStep at h
  split at h
  · split at h
    · split at h
      · obtain ⟨normalized, hnormalized, h⟩ := bind_eq_ok.mp h
        split at h
        · cases h
        · rename_i hblank
          cases h
          rw [normalizeStep_inline, String.toList_ofList, normalize_normalized hnormalized]
          exact if_neg hblank
      · cases h
    · split at h
      · split at h
        · cases h
        · rename_i hget
          split at h
          · obtain ⟨text, htext, h⟩ := bind_eq_ok.mp h
            cases h
            rw [normalizeStep_library position hget (fun _ h => by cases h)]
            exact bind_eq_ok.mpr ⟨text, htext, rfl⟩
          · obtain ⟨text, htext, h⟩ := bind_eq_ok.mp h
            cases h
            rw [normalizeStep_library position hget (fun _ h => by cases h)]
            exact bind_eq_ok.mpr ⟨text, htext, rfl⟩
          · split at h
            · cases h
            · rename_i hvalid
              obtain ⟨text, htext, h⟩ := bind_eq_ok.mp h
              cases h
              rw [normalizeStep_library position hget (fun _ h => by cases h; exact hvalid)]
              exact bind_eq_ok.mpr ⟨text, htext, rfl⟩
            · cases h
      · cases h
    · cases h
  · cases h

theorem normalizeEach_stored {commands : Dict String (List (String × Json))} {position : Nat}
    {rawSteps : List Json} {steps : List (Step × Text)}
    (h : normalizeEach commands position rawSteps = .ok steps) :
    normalizeEach commands position ((steps.map Prod.fst).map Step.json) = .ok steps := by
  induction rawSteps generalizing position steps with
  | nil =>
    cases h
    rfl
  | cons rawStep rest ih =>
    obtain ⟨step, hstep, h⟩ := bind_eq_ok.mp h
    obtain ⟨others, hothers, h⟩ := bind_eq_ok.mp h
    cases h
    exact bind_eq_ok.mpr ⟨step, normalizeStep_stored hstep,
      bind_eq_ok.mpr ⟨others, ih hothers, rfl⟩⟩

theorem normalizeSteps_stored {commands : Dict String (List (String × Json))} {rawSteps : Json}
    {steps : List (Step × Text)} (h : normalizeSteps rawSteps commands = .ok steps) :
    normalizeSteps (.list ((steps.map Prod.fst).map Step.json)) commands = .ok steps := by
  unfold normalizeSteps at h
  split at h
  · obtain ⟨others, hothers, h⟩ := bind_eq_ok.mp h
    obtain ⟨validated, hvalidated, h⟩ := bind_eq_ok.mp h
    cases h
    have hstored := normalizeEach_stored hothers
    obtain ⟨step, _, hothers⟩ := bind_eq_ok.mp hothers
    obtain ⟨more, _, hothers⟩ := bind_eq_ok.mp hothers
    cases hothers
    exact bind_eq_ok.mpr ⟨_, hstored, bind_eq_ok.mpr ⟨validated, hvalidated, rfl⟩⟩
  · cases h

/-! ## The launched text is made of the step texts -/

theorem mem_join {ls : List Text} {c : Char} (h : c ∈ join ls) :
    (∃ line ∈ ls, c ∈ line) ∨ c = '\n' := by
  induction ls with
  | nil => cases h
  | cons line rest ih =>
    cases rest with
    | nil => exact .inl ⟨line, List.mem_cons_self, by simpa [join] using h⟩
    | cons next rest =>
      rw [join, List.intercalate_cons_cons, List.mem_append, List.mem_append] at h
      rcases h with (h | h) | h
      · exact .inl ⟨line, List.mem_cons_self, h⟩
      · exact .inr (List.mem_singleton.mp h)
      · exact (ih h).imp_left fun ⟨l, hl, hc⟩ => ⟨l, List.mem_cons_of_mem line hl, hc⟩

theorem mem_join_of_mem {ls : List Text} {line : Text} {c : Char} (hline : line ∈ ls)
    (h : c ∈ line) : c ∈ join ls := by
  induction ls with
  | nil => cases hline
  | cons first rest ih =>
    cases rest with
    | nil =>
      cases List.mem_singleton.mp hline
      simpa [join] using h
    | cons next rest =>
      rw [join, List.intercalate_cons_cons, List.mem_append, List.mem_append]
      rcases List.mem_cons.mp hline with rfl | hline
      · exact .inl (.inl h)
      · exact .inr (ih hline)

theorem mem_of_mem_lines {value line : Text} {c : Char} (hline : line ∈ lines value)
    (h : c ∈ line) : c ∈ value := by
  have hmem := mem_join_of_mem hline h
  rwa [join_lines] at hmem

theorem mem_of_mem_getD {value : Text} {n : Nat} {c : Char} (h : c ∈ (lines value).getD n []) :
    c ∈ value := by
  rw [List.getD_eq_getElem?_getD] at h
  cases hget : (lines value)[n]? with
  | none =>
    rw [hget] at h
    cases h
  | some line =>
    rw [hget] at h
    exact mem_of_mem_lines (List.mem_of_getElem? hget) h

/-- The characters that are added. -/
def added : Text := ['s', 'u', 'd', 'o', ' ', ':', '&', '\n']

theorem mem_prefixCommandsWithSudo {value : Text} {c : Char}
    (h : c ∈ prefixCommandsWithSudo value) : c ∈ value ∨ c ∈ added := by
  rcases mem_join h with ⟨line, hline, h⟩ | rfl
  · obtain ⟨old, hold, rfl⟩ := List.mem_map.mp hline
    rcases mem_prefixLine h with h | h | rfl
    · exact .inl (mem_of_mem_lines hold h)
    · exact .inr (List.mem_append_left [' ', ':', '&', '\n'] h)
    · exact .inr (by decide)
  · exact .inr (by decide)

theorem mem_prepareStepForChaining {value : Text} {c : Char}
    (h : c ∈ prepareStepForChaining value) : c ∈ value ∨ c ∈ added := by
  rw [prepareStepForChaining_eq] at h
  split at h
  · cases List.mem_singleton.mp h
    exact .inr (by decide)
  · rcases List.mem_append.mp h with h | h
    · split at h
      · cases h
      · rcases List.mem_pair.mp h with rfl | rfl <;> exact .inr (by decide)
    · rcases mem_join h with ⟨line, hline, h⟩ | rfl
      · exact .inl (mem_of_mem_lines ((List.rdropWhile_prefix allSpace _).subset hline) h)
      · exact .inr (by decide)

theorem mem_launched {useSudo : Bool} {part : Text} {c : Char} (h : c ∈ launched useSudo part) :
    c ∈ part ∨ c ∈ added := by
  rcases mem_prepareStepForChaining h with h | h
  · cases useSudo with
    | false => exact .inl h
    | true => exact mem_prefixCommandsWithSudo h
  · exact .inr h

theorem mem_appendOperator {text : Text} {lineNumber : Nat} {semicolons ampersands : List (Nat × Nat)}
    {c : Char} (h : c ∈ appendOperator text lineNumber semicolons ampersands) :
    c ∈ text ∨ c ∈ added := by
  have htail {tail : Text} (htail : ∀ d ∈ tail, d ∈ added) (h : c ∈ text ++ tail) :
      c ∈ text ∨ c ∈ added := (List.mem_append.mp h).imp_right (htail c)
  rw [appendOperator] at h
  split at h
  · rcases List.mem_append.mp h with h | h
    · exact .inl (List.dropLast_subset _ ((List.rdropWhile_prefix isSpace _).subset h))
    · exact .inr ((by decide : ∀ d ∈ [' ', '&', '&'], d ∈ added) c h)
  · split at h
    · exact htail (by decide) h
    · exact htail (by decide) h

theorem mem_findCommand {ls : List Text} {comments : List (Nat × Nat)} {n commandLine : Nat}
    {commandText : Text} {commentText : Option Text} {c : Char}
    (hfind : findCommand ls comments n = some (commandLine, commandText, commentText))
    (h : c ∈ commandText ∨ ∃ comment, commentText = some comment ∧ c ∈ comment) :
    c ∈ ls.getD commandLine [] := by
  induction n with
  | zero => cases hfind
  | succ n ih =>
    rw [findCommand] at hfind
    split at hfind
    · exact ih hfind
    · cases hfind
      rcases h with h | ⟨comment, hcomment, h⟩
      · have h := (List.rdropWhile_prefix isSpace _).subset h
        cases hlookup : comments.lookup commandLine with
        | none =>
          rw [hlookup] at h
          exact h
        | some commentAt =>
          rw [hlookup] at h
          exact List.mem_of_mem_take h
      · obtain ⟨commentAt, _, rfl⟩ := Option.map_eq_some_iff.mp hcomment
        exact List.mem_of_mem_drop h

theorem mem_appendStepSeparator {text : Text} {c : Char} (h : c ∈ appendStepSeparator text) :
    c ∈ text ∨ c ∈ added := by
  have hset {n : Nat} {new : Text} (hnew : c ∈ new → c ∈ text ∨ c ∈ added)
      (h : c ∈ join ((lines text).set n new)) : c ∈ text ∨ c ∈ added := by
    rcases mem_join h with ⟨line, hline, h⟩ | rfl
    · rcases List.mem_or_eq_of_mem_set hline with hline | hline
      · exact .inl (mem_of_mem_lines hline h)
      · exact hnew (hline ▸ h)
    · exact .inr (by decide)
  have hend {new : Text} {d : Char} (hd : d ∈ added) (hnew : c ∈ new → c ∈ text ∨ c ∈ added)
      (h : c ∈ new ++ [d]) : c ∈ text ∨ c ∈ added :=
    (List.mem_append.mp h).elim hnew fun h => .inr (List.mem_singleton.mp h ▸ hd)
  rw [appendStepSeparator] at h
  dsimp only at h
  split at h
  · exact hend (by decide) (hset fun h => (mem_appendOperator h).imp_left mem_of_mem_getD) h
  · cases hfind : findCommand (lines text) (shellTokenPositions text).commentPositions
      (lines text).length with
    | none =>
      rw [hfind] at h
      refine hend (by decide) (fun h => ?_) h
      rcases mem_join h with ⟨line, hline, h⟩ | rfl
      · rcases List.mem_cons.mp hline with rfl | hline
        · exact .inr ((by decide : ∀ d ∈ [':', ' ', '&', '&'], d ∈ added) c h)
        · exact .inl (mem_of_mem_lines hline h)
      · exact .inr (by decide)
    | some found =>
      obtain ⟨commandLine, commandText, commentText⟩ := found
      rw [hfind] at h
      have hcommand (h : c ∈ commandText) : c ∈ text :=
        mem_of_mem_getD (mem_findCommand hfind (.inl h))
      cases commentText with
      | none => exact hend (by decide) (hset fun h => (mem_appendOperator h).imp_left hcommand) h
      | some comment =>
        refine hend (by decide) (hset fun h => ?_) h
        rcases List.mem_append.mp h with h | h
        · exact (mem_appendOperator h).imp_left hcommand
        · rcases List.mem_cons.mp h with rfl | h
          · exact .inr (by decide)
          · exact .inl (mem_of_mem_getD (mem_findCommand hfind (.inr ⟨comment, rfl, h⟩)))

theorem mem_chain {useSudo : Bool} {parts : List Text} {c : Char} (h : c ∈ chain useSudo parts) :
    (∃ part ∈ parts, c ∈ part) ∨ c ∈ added := by
  have hpart {text : Text} (htext : text ∈ parts.map (launched useSudo)) (h : c ∈ text) :
      (∃ part ∈ parts, c ∈ part) ∨ c ∈ added := by
    obtain ⟨part, hmem, rfl⟩ := List.mem_map.mp htext
    exact (mem_launched h).imp_left fun h => ⟨part, hmem, h⟩
  rw [chain_eq] at h
  rcases List.mem_append.mp h with h | h
  · obtain ⟨_, hseparated, h⟩ := List.mem_flatten.mp h
    obtain ⟨text, htext, rfl⟩ := List.mem_map.mp hseparated
    rcases mem_appendStepSeparator h with h | h
    · exact hpart (List.dropLast_subset _ htext) h
    · exact .inr h
  · cases hlast : (parts.map (launched useSudo)).getLast? with
    | none =>
      rw [hlast] at h
      cases h
    | some text =>
      rw [hlast] at h
      exact hpart (List.mem_of_getLast? hlast) h

/-! ## The stores after an accepted payload -/

variable {env : Env}

/-- The texts of the payload's steps, as they are accepted. -/
def stepTexts (store : Store) (payload : Json) : List Text :=
  match payload, store.commandIndex with
  | .dict payload, .ok commands =>
    match normalizeSteps ((Json.get payload "steps").getD .null) commands with
    | .ok steps => steps.map Prod.snd
    | .error _ => []
  | _, _ => []

theorem replaceFirst_some {id : String} {update : CommandSet → CommandSet}
    (hid : ∀ existing, (update existing).id = existing.id) {sets : List CommandSet}
    {found : CommandSet × List CommandSet} (h : replaceFirst id update sets = some found) :
    (∃ existing, found.1 = update existing) ∧ found.1.id = id ∧
      (found.2.find? fun item => item.id = id) = some found.1 := by
  induction sets generalizing found with
  | nil => cases h
  | cons existing rest ih =>
    rw [replaceFirst] at h
    split at h
    · rename_i hexisting
      cases h
      have hupdate : (update existing).id = id := (hid existing).trans hexisting
      exact ⟨⟨existing, rfl⟩, hupdate, by simp [hupdate]⟩
    · rename_i hexisting
      obtain ⟨later, hlater, rfl⟩ := Option.map_eq_some_iff.mp h
      obtain ⟨hupdate, hfound, hfind⟩ := ih hlater
      exact ⟨hupdate, hfound, by simp [hexisting, hfind]⟩

theorem validatePayload_ok {payload : Json} {existingSets : List CommandSet}
    {commands : Dict String (List (String × Json))} {validated : Validated}
    (h : validatePayload env payload existingSets commands = .ok validated) :
    ∃ fields, payload = .dict fields ∧
      normalizeSteps ((Json.get fields "steps").getD .null) commands = .ok validated.steps := by
  unfold validatePayload at h
  split at h
  · rename_i fields
    obtain ⟨name, _, h⟩ := bind_eq_ok.mp h
    obtain ⟨description, _, h⟩ := bind_eq_ok.mp h
    obtain ⟨useSudo, _, h⟩ := bind_eq_ok.mp h
    obtain ⟨commandSetId, _, h⟩ := bind_eq_ok.mp h
    obtain ⟨_, _, h⟩ := bind_eq_ok.mp h
    obtain ⟨_, _, h⟩ := bind_eq_ok.mp h
    obtain ⟨steps, hsteps, h⟩ := bind_eq_ok.mp h
    cases h
    exact ⟨fields, rfl, hsteps⟩
  · cases h

/-- A drawn id is a text of its own. -/
def Fresh (env : Env) (store : Store) : Prop :=
  env.newId ≠ "" ∧ ∀ item ∈ store.commandSets, item.id ≠ env.newId

/-- The stored set has the payload's steps and is the one found under its id. -/
theorem Validated.place_ok {validated : Validated} {commandSets : List CommandSet}
    {found : CommandSet × List CommandSet} (hne : env.newId ≠ "")
    (hnew : ∀ item ∈ commandSets, item.id ≠ env.newId)
    (h : validated.place env commandSets = .ok found) :
    found.1.steps = validated.steps.map Prod.fst ∧ found.1.id ≠ "" ∧
      (found.2.find? fun item => item.id = found.1.id) = some found.1 := by
  have hcreated : (commandSets ++ [validated.created env]).find?
      (fun item => item.id = (validated.created env).id) = some (validated.created env) := by
    have hother : commandSets.find? (fun item => item.id = (validated.created env).id) = none :=
      List.find?_eq_none.mpr fun item hitem => by
        rw [decide_eq_true_eq]
        exact hnew item hitem
    rw [List.find?_append, hother]
    simp
  unfold Validated.place at h
  split at h
  · cases h
    exact ⟨rfl, hne, hcreated⟩
  · cases h
    exact ⟨rfl, hne, hcreated⟩
  · rename_i id hempty _
    split at h
    · rename_i hreplace
      cases h
      obtain ⟨⟨existing, hupdate⟩, hid, hfind⟩ := replaceFirst_some
        (fun existing => show (validated.updated env existing).id = existing.id from rfl) hreplace
      exact ⟨by rw [hupdate]; rfl, fun h => hempty (hid ▸ h), hid ▸ hfind⟩
    · cases h

/-- What is known of the store after an accepted payload. -/
theorem upsertCommandSet_ok {store store' : Store} {payload : Json} {result : CommandSet}
    (hfresh : Fresh env store) (h : upsertCommandSet env store payload = .ok (result, store')) :
    ∃ index steps, store'.commandIndex = .ok index ∧
      normalizeSteps (.list (result.steps.map Step.json)) index = .ok steps ∧
      stepTexts store payload = steps.map Prod.snd ∧
      getCommandSet store' result.id = .ok result := by
  obtain ⟨index, hindex, h⟩ := bind_eq_ok.mp h
  obtain ⟨validated, hvalidated, h⟩ := bind_eq_ok.mp h
  obtain ⟨found, hfound, hsaved⟩ := bind_eq_ok.mp h
  obtain ⟨fields, rfl, hsteps⟩ := validatePayload_ok hvalidated
  obtain ⟨hstored, hid, hfind⟩ := Validated.place_ok hfresh.1 hfresh.2 hfound
  dsimp only at hsaved
  split at hsaved
  · cases hsaved
  · cases hsaved
    refine ⟨index, validated.steps, hindex, hstored ▸ normalizeSteps_stored hsteps, ?_, ?_⟩
    · simp only [stepTexts, hindex, hsteps]
    · rw [getCommandSet, if_neg hid, hfind]

/-! ## The law -/

theorem chain_nul {steps : List (Step × Text)} {rawSteps : Json}
    {commands : Dict String (List (String × Json))} (h : normalizeSteps rawSteps commands = .ok steps)
    (useSudo : Bool) : steps.map Prod.snd ≠ [] ∧ '\x00' ∉ chain useSudo (steps.map Prod.snd) := by
  unfold normalizeSteps at h
  split at h
  · obtain ⟨others, hothers, h⟩ := bind_eq_ok.mp h
    obtain ⟨validated, hvalidated, h⟩ := bind_eq_ok.mp h
    cases h
    refine ⟨?_, fun hnul => ?_⟩
    · obtain ⟨step, _, hothers⟩ := bind_eq_ok.mp hothers
      obtain ⟨more, _, hothers⟩ := bind_eq_ok.mp hothers
      cases hothers
      exact List.cons_ne_nil _ _
    · rcases mem_chain hnul with ⟨part, hpart, hnul⟩ | hnul
      · exact (normalize_eq_ok.mp hvalidated).2.1 (mem_join_of_mem hpart hnul)
      · exact absurd hnul (by decide)
  · cases h

/-- A set that was accepted is resolved to a text of at most 4096 characters exactly if the length
of the launched text, as counted from the step texts, is at most that. -/
theorem upserted_launchable_iff (env : Env) {store store' : Store} {payload : Json}
    {result : CommandSet} (hfresh : Fresh env store)
    (h : upsertCommandSet env store payload = .ok (result, store')) :
    (∃ text, resolveCommandSet store' result.id = .ok text ∧
        text.length ≤ maxStartupCommandsLength) ↔
      launchLength (result.useSudo = some true) (stepTexts store payload) ≤
        maxStartupCommandsLength := by
  obtain ⟨index, steps, hindex, hsteps, htexts, hget⟩ := upsertCommandSet_ok hfresh h
  obtain ⟨hne, hnul⟩ := chain_nul hsteps (result.useSudo = some true)
  have hresolve : resolveCommandSet store' result.id =
      normalizeStartupCommands (chain (result.useSudo = some true) (steps.map Prod.snd)) := by
    rw [resolveCommandSet, hget, hindex]
    change resolveLoadedCommandSet result index = _
    rw [resolveLoadedCommandSet, hsteps]
  rw [hresolve, htexts, ← length_chain _ hne, Nat.cast_le]
  constructor
  · rintro ⟨text, htext, _⟩
    exact (normalize_eq_ok.mp htext).1
  · intro hshort
    exact ⟨_, normalize_eq_ok.mpr ⟨hshort, hnul, rfl⟩,
      (length_universalNewlines _).trans hshort⟩

/-- A payload of one inline step, with the prefix. -/
def onePayload (command : String) : Json :=
  .dict [("name", .str "one"), ("use_sudo", .bool true),
    ("steps", .list [.dict [("type", .str "inline"), ("command", .str command)]])]

def plainEnv : Env where
  casefold := id
  maximumSteps := 100
  refused := fun _ => none
  now := "2026-01-01T00:00:00+00:00"
  newId := "e6d8"

def emptyStore : Store := ⟨some [], []⟩

/-- Steps that are joined in different ways: a list, one in the background, one with a final `;`
and one that ends with a comment. -/
def severalPayload : Json :=
  .dict [("name", .str "several"), ("use_sudo", .bool true),
    ("steps", .list (["cd /srv\nls -l", "sleep 5 &", "echo done ;", "date # now", "uptime"].map
      fun command => .dict [("type", .str "inline"), ("command", .str command)]))]

theorem upserted_launchable_iff_several :
    ∃ result store', upsertCommandSet plainEnv emptyStore severalPayload = .ok (result, store') ∧
      ∃ text, resolveCommandSet store' result.id = .ok text ∧
        text.length ≤ maxStartupCommandsLength := by
  have h : returns (upsertCommandSet plainEnv emptyStore severalPayload) fun r =>
      decide (launchLength (r.1.useSudo = some true) (stepTexts emptyStore severalPayload) ≤
        maxStartupCommandsLength) := by
    decide +kernel
  obtain ⟨⟨result, store'⟩, h, hlength⟩ := exists_of_returns h
  have hfresh : Fresh plainEnv emptyStore := ⟨by decide, fun _ h => absurd h List.not_mem_nil⟩
  exact ⟨result, store', h,
    (upserted_launchable_iff plainEnv hfresh h).mpr (of_decide_eq_true hlength)⟩

/-- The set stored for one inline step, with the prefix. -/
def oneSet (command : Text) : CommandSet where
  id := "e6d8"
  name := "one"
  description := some ""
  useSudo := some true
  steps := [.inline (String.ofList command)]
  createdAt := some "2026-01-01T00:00:00+00:00"
  updatedAt := some "2026-01-01T00:00:00+00:00"
  unknown := []

theorem oneSet_steps {command : Text} (hnormal : normalizeStartupCommands command = .ok command)
    (hblank : allSpace command = false) :
    normalizeSteps (.list ((oneSet command).steps.map Step.json)) ∅ =
      .ok [(.inline (String.ofList command), command)] := by
  have hstep : normalizeStep ∅ 1 (Step.inline (String.ofList command)).json =
      .ok (.inline (String.ofList command), command) := by
    rw [normalizeStep_inline, String.toList_ofList, hnormal]
    exact (if_neg (Bool.eq_false_iff.mp hblank)).trans rfl
  refine bind_eq_ok.mpr ⟨[(.inline (String.ofList command), command)],
    bind_eq_ok.mpr ⟨_, hstep, rfl⟩, bind_eq_ok.mpr ⟨command, ?_, rfl⟩⟩
  rw [List.map_singleton, join, List.intercalate_singleton, hnormal]

theorem oneSet_accepted {command : Text} (hnormal : normalizeStartupCommands command = .ok command)
    (hblank : allSpace command = false)
    (hbytes : (encode (String.ofList command)).length ≤ commandTextMaxBytes) :
    upsertCommandSet plainEnv emptyStore (onePayload (String.ofList command)) =
      .ok (oneSet command, ⟨some [], [oneSet command]⟩) := by
  have hlimits : validateCommandSet plainEnv.maximumSteps "" "one" ""
      (.list ((oneSet command).steps.map Step.json)) none = .ok () := by
    refine bind_eq_ok.mpr ⟨(), rfl, bind_eq_ok.mpr ⟨(), rfl, bind_eq_ok.mpr ⟨(), rfl,
      bind_eq_ok.mpr ⟨(), rfl, ?_⟩⟩⟩⟩
    refine forM_eq_ok.mpr fun step hstep => ?_
    cases List.mem_singleton.mp hstep
    exact if_pos hbytes
  refine bind_eq_ok.mpr ⟨∅, rfl, bind_eq_ok.mpr ⟨⟨none, "one", "", true,
    [(.inline (String.ofList command), command)]⟩, ?_, rfl⟩⟩
  have hstrip : strip "one" = "one" := by decide
  have hname (fields : List (String × Json)) : payloadName (("name", .str "one") :: fields) =
      .ok "one" := by
    simp only [payloadName, Json.get, List.find?_cons, decide_true, Option.map_some, hstrip]
    rfl
  exact bind_eq_ok.mpr ⟨"one", hname _, bind_eq_ok.mpr ⟨"", rfl,
    bind_eq_ok.mpr ⟨true, rfl, bind_eq_ok.mpr ⟨none, rfl, bind_eq_ok.mpr ⟨(), rfl,
      bind_eq_ok.mpr ⟨(), hlimits, bind_eq_ok.mpr ⟨_, oneSet_steps hnormal hblank, rfl⟩⟩⟩⟩⟩⟩⟩

theorem oneSet_resolved {command : Text} (hnormal : normalizeStartupCommands command = .ok command)
    (hblank : allSpace command = false) :
    resolveCommandSet ⟨some [], [oneSet command]⟩ "e6d8" =
      normalizeStartupCommands (chain true [command]) := by
  change resolveLoadedCommandSet (oneSet command) ∅ = _
  rw [resolveLoadedCommandSet, oneSet_steps hnormal hblank]
  rfl

/-- A command of one word on one line takes five characters more when it is launched. -/
theorem length_chain_word {c : Char} {rest : Text} (hspace : isSpace c = false) (hhash : c ≠ '#')
    (hs : c ≠ 's') (hline : '\n' ∉ c :: rest) :
    (chain true [c :: rest]).length = rest.length + 6 := by
  have hlines : lines (c :: rest) = [c :: rest] := List.splitOn_eq_singleton hline
  have hstrip : lstrip (c :: rest) = c :: rest :=
    List.dropWhile_cons_of_neg (by rw [hspace]; exact Bool.false_ne_true)
  have hblank : allSpace (c :: rest) = false := by rw [allSpace, List.all_cons, hspace]; rfl
  have htakes : takesSudo (c :: rest) = true := by
    rw [takesSudo, hstrip]
    simp [alreadySudo, sudoWord, hhash, hs, List.isPrefixOf, beq_eq_false_iff_ne.mpr (Ne.symm hs)]
  have hkept : keptLines (c :: rest) = [c :: rest] := by
    rw [keptLines, hlines]
    simp [List.rdropWhile, hblank]
  have hcommand : hasCommand (c :: rest) = true := by
    rw [hasCommand, hstrip, hblank]
    simp [hhash]
  have hchain : chain true [c :: rest] = launched true (c :: rest) := by
    rw [chain_eq]
    simp
  rw [hchain, length_launched, stepLength, hkept]
  simp [hcommand, sudoGrowth, htakes]

theorem length_encode_replicate (n : Nat) :
    (encode (String.ofList (List.replicate n 'a'))).length = n := by
  induction n with
  | zero => rfl
  | succ n ih =>
    rw [List.replicate_succ, String.ofList_cons, encode_append, List.length_append, ih]
    have hone : (encode (String.singleton 'a')).length = 1 := by decide
    omega

/-- `aa…a` is launched as `sudo aa…a`. -/
theorem stored_too_long :
    ¬ ∀ (env : Env) (store store' : Store) (payload : Json) (result : CommandSet),
      Fresh env store → upsertCommandSet env store payload = .ok (result, store') →
      ∃ text, resolveCommandSet store' result.id = .ok text ∧
        text.length ≤ maxStartupCommandsLength := by
  intro hall
  obtain ⟨n, hn⟩ : ∃ n, n = 4091 := ⟨_, rfl⟩
  have hmem {c : Char} (h : c ∈ List.replicate (n + 1) 'a') : c = 'a' := (List.mem_replicate.mp h).2
  have hnotMem {c : Char} (hc : c ≠ 'a') : c ∉ List.replicate (n + 1) 'a' := fun h => hc (hmem h)
  have hnormal : normalizeStartupCommands (List.replicate (n + 1) 'a') =
      .ok (List.replicate (n + 1) 'a') :=
    normalize_eq_ok.mpr ⟨by rw [List.length_replicate, hn]; decide, hnotMem (by decide),
      (universalNewlines_eq_self (hnotMem (by decide))).symm⟩
  have hblank : allSpace (List.replicate (n + 1) 'a') = false := by
    rw [List.replicate_succ, allSpace, List.all_cons]
    rfl
  have hbytes := length_encode_replicate (n + 1)
  obtain ⟨text, htext, _⟩ := hall plainEnv emptyStore _ _ (oneSet (List.replicate (n + 1) 'a'))
    ⟨by decide, fun _ h => absurd h List.not_mem_nil⟩
    (oneSet_accepted hnormal hblank (by rw [hbytes, hn]; decide))
  have hresolve := (oneSet_resolved hnormal hblank).symm.trans htext
  have hshort := (normalize_eq_ok.mp hresolve).1
  rw [List.replicate_succ, length_chain_word (by decide) (by decide) (by decide)
    (List.replicate_succ ▸ hnotMem (by decide)), List.length_replicate, hn] at hshort
  exact absurd hshort (by decide)

end WebSSH.Commands
