import Mathlib
import WebSSH.Diagnostics.Stats

/-!
# The processes of the diagnostics

Which process tables come through the columns of `ps`, the fields of awk and the rows of the parser
unchanged. A command name with a blank or with `|` does not.
-/

namespace WebSSH.Diagnostics
open Lib Lib.Text Function

/-! ## Process tables -/

/-- What `ps` prints for a number. -/
structure IsNumeral (text : Text) : Prop where
  ne : text ≠ []
  digits : ∀ c ∈ text, c.isDigit = true ∨ c = '.'

/-- A process, with its values as `ps` prints them and what `float` makes of the percentages. -/
structure Process (F : Floats) where
  pid : Nat
  user : Text
  comm : Text
  pcpu : Text
  pmem : Text
  cpuPercent : F.Value
  memoryPercent : F.Value
  pid_pos : 0 < pid
  pid_le : pid ≤ 2147483647
  user_ne : user ≠ []
  user_blank : ∀ c ∈ user, isBlank c = false
  comm_line : '\n' ∉ comm
  pcpu_numeral : IsNumeral pcpu
  pmem_numeral : IsNumeral pmem
  float_pcpu : F.float pcpu = some cpuPercent
  float_pmem : F.float pmem = some memoryPercent
  cpu_range : F.inRange cpuPercent 100000 = true
  memory_range : F.inRange memoryPercent 100 = true

/-- The widths of the blanks around the columns, beyond the one that separates them. -/
structure Padding where
  pid : Nat
  user : Nat
  comm : Nat
  pcpu : Nat
  pmem : Nat
  after : Nat

variable {F : Floats}

def blanks (n : Nat) : Text := List.replicate n ' '

namespace Process

/-- The row of the payload. -/
def row (p : Process F) : Row F := ⟨p.pid, p.user, p.comm, p.cpuPercent, p.memoryPercent⟩

/-- The record that `ps` prints. -/
def record (p : Process F) (pad : Padding) : Text :=
  blanks pad.pid ++ Nat.toDigits 10 p.pid ++ ' ' :: blanks pad.user ++ p.user ++ ' ' :: blanks pad.comm ++
    p.comm ++ ' ' :: blanks pad.pcpu ++ p.pcpu ++ ' ' :: blanks pad.pmem ++ p.pmem ++ blanks pad.after

/-- The row that awk makes of it where no field is shifted. -/
def text (p : Process F) : Text :=
  Nat.toDigits 10 p.pid ++ '|' :: p.user ++ '|' :: p.comm ++ '|' :: p.pcpu ++ '|' :: p.pmem

end Process

/-- A line of the output before the processes. -/
structure Metric where
  key : String
  value : Text
  key_mem : key.toList ∈ singleKeys
  value_line : ∀ c ∈ value, isBoundary c = false

/-- A table in the order in which `ps` prints it. -/
abbrev Table (F : Floats) := List (Process F × Padding)

def Table.records (table : Table F) : List Text := table.map fun e => e.1.record e.2

/-- The rows that the payload should hold. -/
def Table.top (table : Table F) : List (Row F) := (table.take 5).map fun e => e.1.row

/-- The output of `LINUX_DIAGNOSTICS_COMMAND`. -/
def diagnostics (metrics : List Metric) (stat : List Text) (byCpu byMemory : Table F) : Text :=
  metrics.flatMap (fun metric => outputLine metric.key metric.value) ++
    processOutput stat byCpu.records byMemory.records

/-- A text that no separator of the three formats occurs in, and that the parser keeps. -/
structure Plain (maximum : Nat) (text : Text) : Prop where
  ne : text ≠ []
  length : text.length ≤ maximum
  strip : trim text = text
  blank : ∀ c ∈ text, isBlank c = false
  bar : '|' ∉ text
  boundary : ∀ c ∈ text, isBoundary c = false
  control : ∀ c ∈ text, 32 ≤ c.toNat ∧ c.toNat ≠ 127

/-! ## Digits -/

theorem toNat_of_isDigit {c : Char} (h : c.isDigit = true) : 48 ≤ c.toNat ∧ c.toNat ≤ 57 := by
  rw [Char.isDigit, Bool.and_eq_true] at h
  exact ⟨of_decide_eq_true h.1, of_decide_eq_true h.2⟩

/-- The characters of numbers are separators of none of the formats. -/
theorem numeral_char {c : Char} (h : c.isDigit = true ∨ c = '.') :
    isBlank c = false ∧ c ≠ '|' ∧ isBoundary c = false ∧ Python.isSpace c = false := by
  rcases h with h | rfl
  · have hn := toNat_of_isDigit h
    have hne {d : Char} (hd : d.toNat < 48 ∨ 57 < d.toNat) : c ≠ d := by
      rintro rfl
      omega
    refine ⟨?_, hne (by decide), ?_, ?_⟩
    · simp [isBlank, hne (show ' '.toNat < 48 ∨ _ by decide), hne (show '\t'.toNat < 48 ∨ _ by decide),
        hne (show '\n'.toNat < 48 ∨ _ by decide)]
    · simp [isBoundary]
      omega
    · simp [Python.isSpace]
      omega
  · decide

theorem isNumeral_toDigits (n : Nat) : IsNumeral (Nat.toDigits 10 n) :=
  ⟨Nat.toDigits_ne_nil, fun _ hc => .inl (Nat.isDigit_of_mem_toDigits (by decide) (by decide) hc)⟩

namespace IsNumeral

variable {text : Text}

theorem blank (H : IsNumeral text) : ∀ c ∈ text, isBlank c = false :=
  fun c hc => (numeral_char (H.digits c hc)).1

theorem bar (H : IsNumeral text) : '|' ∉ text :=
  fun hc => (numeral_char (H.digits _ hc)).2.1 rfl

theorem boundary (H : IsNumeral text) : ∀ c ∈ text, isBoundary c = false :=
  fun c hc => (numeral_char (H.digits c hc)).2.2.1

theorem space (H : IsNumeral text) : ∀ c ∈ text, Python.isSpace c = false :=
  fun c hc => (numeral_char (H.digits c hc)).2.2.2

theorem trim (H : IsNumeral text) : trim text = text :=
  trim_eq_self (fun c hc => H.space c (List.mem_of_mem_head? hc))
    fun c hc => H.space c (List.mem_of_getLast? hc)

end IsNumeral

theorem decimal_of_isDigit {c : Char} (h : c.isDigit = true) : decimal c = some (c.toNat - '0'.toNat) := by
  have hn := toNat_of_isDigit h
  have hfind : (zeros.find? fun start => start ≤ c.toNat ∧ c.toNat < start + 10) = some 0x30 := by
    rw [zeros, List.find?_cons_of_pos]
    simp
    omega
  rw [decimal, hfind]
  rfl

theorem mapM_decimal {digits : Text} (h : ∀ c ∈ digits, c.isDigit = true) :
    digits.mapM decimal = some (digits.map fun c => c.toNat - '0'.toNat) := by
  induction digits with
  | nil => rfl
  | cons c digits ih =>
    rw [List.mapM_cons, decimal_of_isDigit (h c List.mem_cons_self),
      ih fun d hd => h d (List.mem_cons_of_mem c hd)]
    rfl

theorem natural_toDigits {n : Nat} (h : n < 10 ^ 10) : natural (Nat.toDigits 10 n) = some n := by
  have hlength : ((Nat.toDigits 10 n).map fun c => c.toNat - '0'.toNat).length ≤ 10 := by
    rw [List.length_map]
    exact (Nat.length_toDigits_le_iff (by decide) (by decide)).mpr h
  have hgroups : (Nat.toDigits 10 n).splitOn '_' = [Nat.toDigits 10 n] :=
    List.splitOn_eq_singleton Nat.underscore_not_in_toDigits
  have hnil : [] ∉ [Nat.toDigits 10 n] := fun h =>
    Nat.toDigits_ne_nil (List.mem_singleton.mp h).symm
  rw [natural, hgroups]
  simp only [hnil, if_false, List.flatten_cons, List.flatten_nil, List.append_nil]
  rw [mapM_decimal fun c hc => Nat.isDigit_of_mem_toDigits (by decide) (by decide) hc,
    Option.bind_some, if_neg (by rw [maxStrDigits]; omega), List.foldl_map]
  exact congrArg some Nat.ofDigitChars_ten_toDigits

theorem optionalInt_toDigits {n maximum : Nat} (h : n ≤ maximum) (hn : n < 10 ^ 10) :
    optionalInt maximum (Nat.toDigits 10 n) = some n := by
  have hint : int (Nat.toDigits 10 n) = some (n : Int) := by
    rw [int, (isNumeral_toDigits n).trim]
    split
    · rename_i numeral heq
      have hc : '-' ∈ Nat.toDigits 10 n := heq ▸ List.mem_cons_self
      exact absurd (Nat.isDigit_of_mem_toDigits (by decide) (by decide) hc) (by decide)
    · rename_i numeral heq
      have hc : '+' ∈ Nat.toDigits 10 n := heq ▸ List.mem_cons_self
      exact absurd (Nat.isDigit_of_mem_toDigits (by decide) (by decide) hc) (by decide)
    · rw [natural_toDigits hn]
      rfl
  rw [optionalInt, hint, Option.bind_some, if_neg (by omega)]
  rfl

/-! ## Rows -/

theorem safeText_eq {maximum : Nat} {text : Text} (H : Plain maximum text) :
    safeText maximum text = some text := by
  have hcontrol : text.any (fun c => c.toNat < 32 || c.toNat = 127) = false := by
    refine List.any_eq_false.mpr fun c hc => ?_
    have h := H.control c hc
    simp
    omega
  rw [safeText, H.strip, if_neg (not_or.mpr ⟨H.ne, Nat.not_lt.mpr H.length⟩), hcontrol,
    if_neg Bool.false_ne_true]

/-- What the parser keeps of a piece of a row without blanks and line boundaries. -/
theorem plain_of_safeText {maximum : Nat} {value text : Text} (h : safeText maximum value = some text)
    (hblank : ∀ c ∈ value, isBlank c = false) (hbar : '|' ∉ value)
    (hboundary : ∀ c ∈ value, isBoundary c = false) : Plain maximum text := by
  rw [safeText] at h
  split at h
  · cases h
  · rename_i hlength
    obtain ⟨hne, hlength⟩ := not_or.mp hlength
    split at h
    · cases h
    · rename_i hcontrol
      cases h
      have hsub := trim_subset value
      refine ⟨hne, Nat.not_lt.mp hlength, trim_trim value, fun c hc => hblank c (hsub hc),
        fun hc => hbar (hsub hc), fun c hc => hboundary c (hsub hc), fun c hc => ?_⟩
      have h := List.any_eq_false.mp (Bool.eq_false_iff.mpr hcontrol) c hc
      simp at h
      omega

/-- A row that is kept has five pieces. -/
theorem parseRow_plain {row : Text} {r : Row F} (h : parseRow F row = some r)
    (hblank : ∀ c ∈ row, isBlank c = false) (hboundary : ∀ c ∈ row, isBoundary c = false) :
    Plain 64 r.user ∧ Plain 128 r.command := by
  rw [parseRow] at h
  split at h
  · rename_i pid user command cpu memory hsplit
    have hpiece {maximum : Nat} {piece text : Text} (hmem : piece ∈ row.splitOn '|')
        (hsafe : safeText maximum piece = some text) : Plain maximum text := by
      rw [List.splitOn_eq_splitOnP] at hmem
      have hchars := of_mem_splitOnP hmem
      refine plain_of_safeText hsafe (fun c hc => hblank c (hchars c hc).2) (fun hc => ?_)
        fun c hc => hboundary c (hchars c hc).2
      exact absurd (hchars _ hc).1 (by decide)
    obtain ⟨_, _, h⟩ := Option.bind_eq_some_iff.mp h
    obtain ⟨_, huser, h⟩ := Option.bind_eq_some_iff.mp h
    obtain ⟨_, hcommand, h⟩ := Option.bind_eq_some_iff.mp h
    obtain ⟨_, _, h⟩ := Option.bind_eq_some_iff.mp h
    obtain ⟨_, _, h⟩ := Option.bind_eq_some_iff.mp h
    split at h
    · cases h
    · cases h
      exact ⟨hpiece (by rw [hsplit]; simp) huser, hpiece (by rw [hsplit]; simp) hcommand⟩
  · cases h

namespace Process

variable {p : Process F}

theorem isNumeral_pid (p : Process F) : IsNumeral (Nat.toDigits 10 p.pid) := isNumeral_toDigits p.pid

theorem blank_blanks {n : Nat} : ∀ c ∈ blanks n, isBlank c = true := by
  intro c hc
  rw [(List.mem_replicate.mp hc).2]
  rfl

/-- The fields of the record, where the name of the command is one field. -/
theorem fields_record (hcomm : ∀ c ∈ p.comm, isBlank c = false) (hne : p.comm ≠ []) (pad : Padding) :
    fields (p.record pad) = [Nat.toDigits 10 p.pid, p.user, p.comm, p.pcpu, p.pmem] := by
  have hlast : fields (p.pmem ++ blanks pad.after) = [p.pmem] := by
    cases hafter : pad.after with
    | zero =>
      rw [blanks, List.replicate_zero, List.append_nil]
      exact fields_last p.pmem_numeral.blank p.pmem_numeral.ne
    | succ n =>
      rw [blanks, List.replicate_succ, fields_word p.pmem_numeral.blank p.pmem_numeral.ne rfl]
      have h := fields_blanks (blank_blanks (n := n)) []
      rw [List.append_nil] at h
      exact congrArg _ h
  rw [record]
  simp only [List.append_assoc, List.cons_append]
  rw [fields_blanks blank_blanks, fields_word p.isNumeral_pid.blank p.isNumeral_pid.ne rfl,
    fields_blanks blank_blanks, fields_word p.user_blank p.user_ne rfl, fields_blanks blank_blanks,
    fields_word hcomm hne rfl, fields_blanks blank_blanks,
    fields_word p.pcpu_numeral.blank p.pcpu_numeral.ne rfl, fields_blanks blank_blanks, hlast]

theorem awkRow_record (hcomm : Plain 128 p.comm) (pad : Padding) : awkRow (p.record pad) = p.text := by
  simp only [awkRow, field, fields_record hcomm.blank hcomm.ne pad]
  rfl

theorem boundary_text (huser : Plain 64 p.user) (hcomm : Plain 128 p.comm) :
    ∀ c ∈ p.text, isBoundary c = false := by
  intro c hc
  simp only [text, List.mem_append, List.mem_cons] at hc
  rcases hc with (((hc | rfl | hc) | rfl | hc) | rfl | hc) | rfl | hc
  · exact p.isNumeral_pid.boundary c hc
  · rfl
  · exact huser.boundary c hc
  · rfl
  · exact hcomm.boundary c hc
  · rfl
  · exact p.pcpu_numeral.boundary c hc
  · rfl
  · exact p.pmem_numeral.boundary c hc

theorem trim_text (p : Process F) : trim p.text = p.text := by
  refine trim_eq_self (fun c hc => ?_) fun c hc => ?_
  · simp only [text, List.append_assoc] at hc
    rw [List.head?_append_of_ne_nil _ p.isNumeral_pid.ne] at hc
    exact p.isNumeral_pid.space c (List.mem_of_mem_head? hc)
  · rw [text, List.getLast?_append_of_ne_nil _ (List.cons_ne_nil _ _),
      List.getLast?_cons_of_ne_nil p.pmem_numeral.ne] at hc
    exact p.pmem_numeral.space c (List.mem_of_getLast? hc)

theorem splitOn_text (huser : Plain 64 p.user) (hcomm : Plain 128 p.comm) :
    p.text.splitOn '|' = [Nat.toDigits 10 p.pid, p.user, p.comm, p.pcpu, p.pmem] := by
  simp only [text, List.append_assoc, List.cons_append]
  rw [List.splitOn_append_cons_self_of_not_mem p.isNumeral_pid.bar,
    List.splitOn_append_cons_self_of_not_mem huser.bar,
    List.splitOn_append_cons_self_of_not_mem hcomm.bar,
    List.splitOn_append_cons_self_of_not_mem p.pcpu_numeral.bar,
    List.splitOn_eq_singleton p.pmem_numeral.bar]

/-- A row is read back where neither the user nor the command holds a separator. -/
theorem parseRow_text (huser : Plain 64 p.user) (hcomm : Plain 128 p.comm) :
    parseRow F p.text = some p.row := by
  have hpid := p.pid_le
  have hcpu : optionalFloat F 100000 p.pcpu = some p.cpuPercent := by
    rw [optionalFloat, p.float_pcpu, Option.filter_some, if_pos p.cpu_range]
  have hmemory : optionalFloat F 100 p.pmem = some p.memoryPercent := by
    rw [optionalFloat, p.float_pmem, Option.filter_some, if_pos p.memory_range]
  rw [parseRow, splitOn_text huser hcomm]
  simp only [optionalInt_toDigits hpid (show p.pid < 10 ^ 10 by omega), safeText_eq huser,
    safeText_eq hcomm, hcpu, hmemory, Option.bind_eq_bind, Option.bind_some,
    if_neg (Nat.ne_of_gt p.pid_pos)]
  rfl

end Process

/-! ## Lines -/

/-- A line of the output, without its end. -/
def line (key : String) (value : Text) : Text := key.toList ++ '=' :: value

theorem key_char : ∀ key ∈ singleKeys ++ multiKeys, ∀ c ∈ key,
    isBoundary c = false ∧ isBlank c = false ∧ c ≠ '=' := by decide

theorem partition_line {key : String} (hkey : key.toList ∈ singleKeys ++ multiKeys) (value : Text) :
    partition '=' (line key value) = (key.toList, some value) :=
  partition_append (fun hc => (key_char _ hkey _ hc).2.2 rfl) value

theorem splitlines_outputLine {key : String} (hkey : key.toList ∈ singleKeys ++ multiKeys)
    {value : Text} (hvalue : ∀ c ∈ value, isBoundary c = false) (text : Text) :
    splitlines (outputLine key value ++ text) = line key value :: splitlines text := by
  have h : ∀ c ∈ line key value, isBoundary c = false := by
    intro c hc
    rcases List.mem_append.mp hc with hc | hc
    · exact (key_char _ hkey c hc).1
    · rcases List.mem_cons.mp hc with rfl | hc
      · rfl
      · exact hvalue c hc
  have hline : outputLine key value ++ text = line key value ++ '\n' :: text := by
    simp [outputLine, line]
  rw [hline, splitlines_line h]

theorem splitlines_outputLines {α : Type} {key : α → String} {value : α → Text} {items : List α}
    (h : ∀ a ∈ items, (key a).toList ∈ singleKeys ++ multiKeys ∧ ∀ c ∈ value a, isBoundary c = false)
    (text : Text) :
    splitlines (items.flatMap (fun a => outputLine (key a) (value a)) ++ text) =
      items.map (fun a => line (key a) (value a)) ++ splitlines text := by
  induction items with
  | nil => rfl
  | cons a items ih =>
    obtain ⟨hkey, hvalue⟩ := h a List.mem_cons_self
    rw [List.flatMap_cons, List.append_assoc, splitlines_outputLine hkey hvalue,
      ih fun b hb => h b (List.mem_cons_of_mem a hb)]
    rfl

theorem splitlines_metrics (metrics : List Metric) (text : Text) :
    splitlines (metrics.flatMap (fun metric => outputLine metric.key metric.value) ++ text) =
      metrics.map (fun metric => line metric.key metric.value) ++ splitlines text :=
  splitlines_outputLines
    (fun metric _ => ⟨List.mem_append_left _ metric.key_mem, metric.value_line⟩) text

namespace Collected

variable {acc : Collected} {key : String}

theorem add_single (hkey : key.toList ∈ singleKeys) (value : Text) :
    acc.add (line key value) =
      { acc with values := update acc.values key.toList (some (trim value)) } := by
  rw [add, partition_line (List.mem_append_left _ hkey)]
  exact if_pos hkey

theorem value_add (hkey : key.toList ∈ singleKeys) (value : Text) :
    (acc.add (line key value)).value key = some (trim value) := by
  rw [add_single hkey]
  exact update_self key.toList (some (trim value)) acc.values

theorem value_add_of_ne (hkey : key.toList ∈ singleKeys) (value : Text) {other : String}
    (h : other.toList ≠ key.toList) : (acc.add (line key value)).value other = acc.value other := by
  rw [add_single hkey]
  exact update_of_ne h (some (trim value)) acc.values

theorem add_multi (hkey : key.toList ∈ multiKeys) (hsingle : key.toList ∉ singleKeys)
    (hlength : (acc.repeated key.toList).length < 16) (value : Text) :
    acc.add (line key value) = { acc with
      repeated := update acc.repeated key.toList (acc.repeated key.toList ++ [trim value]) } := by
  rw [add, partition_line (List.mem_append_right _ hkey)]
  exact (if_neg hsingle).trans (if_pos ⟨hkey, hlength⟩)

theorem foldl_metrics (metrics : List Metric) (acc : Collected) :
    ((metrics.map fun metric => line metric.key metric.value).foldl add acc).repeated =
      acc.repeated := by
  induction metrics generalizing acc with
  | nil => rfl
  | cons metric metrics ih =>
    rw [List.map_cons, List.foldl_cons, ih, add_single metric.key_mem]

theorem foldl_rows (hkey : key.toList ∈ multiKeys) (hsingle : key.toList ∉ singleKeys)
    (rows : List Text) (acc : Collected)
    (hlength : (acc.repeated key.toList).length + rows.length ≤ 16) :
    (rows.map (line key)).foldl add acc = { acc with
      repeated := update acc.repeated key.toList (acc.repeated key.toList ++ rows.map trim) } := by
  induction rows generalizing acc with
  | nil => simp
  | cons row rows ih =>
    rw [List.length_cons] at hlength
    rw [List.map_cons, List.foldl_cons, add_multi hkey hsingle (by omega), ih]
    · simp
    · simp
      omega

theorem foldl_lines (key : String) (hkey : key.toList ∈ multiKeys) (hsingle : key.toList ∉ singleKeys)
    {lines : List Text} (hnil : acc.rows key = []) (hlength : lines.length ≤ 5) :
    ((lines.map (line key)).foldl add acc).values = acc.values ∧
      ((lines.map (line key)).foldl add acc).rows key = lines.map trim ∧
      ∀ other : String, other.toList ≠ key.toList →
        ((lines.map (line key)).foldl add acc).rows other = acc.rows other := by
  have hfold := foldl_rows hkey hsingle lines acc (by rw [show acc.repeated key.toList = [] from hnil, List.length_nil]; omega)
  rw [show acc.repeated key.toList = [] from hnil, List.nil_append] at hfold
  rw [hfold]
  exact ⟨rfl, update_self .., fun other hother => update_of_ne hother ..⟩

/-- Every row that is collected comes from a line. -/
theorem mem_repeated {lines : List Text} {acc : Collected} {key row : Text}
    (h : row ∈ (lines.foldl add acc).repeated key) : row ∈ acc.repeated key ∨
      ∃ l ∈ lines, ∃ value, partition '=' l = (key, some value) ∧ row = trim value := by
  induction lines generalizing acc with
  | nil => exact .inl h
  | cons l lines ih =>
    rcases ih h with h | ⟨l', hl, h⟩
    · rw [add] at h
      split at h
      · exact .inl h
      · rename_i key' value hpart
        split at h
        · exact .inl h
        · split at h
          · dsimp only at h
            by_cases hk : key = key'
            · subst hk
              rw [update_self] at h
              rcases List.mem_append.mp h with h | h
              · exact .inl h
              · exact .inr ⟨l, List.mem_cons_self, value, hpart, List.mem_singleton.mp h⟩
            · rw [update_of_ne hk] at h
              exact .inl h
          · exact .inl h
    · exact .inr ⟨l', List.mem_cons_of_mem l hl, h⟩

end Collected

/-! ## The characters of the process part -/

theorem awkRow_char (record : Text) : ∀ c ∈ awkRow record, isBlank c = false := by
  intro c hc
  simp only [awkRow, List.mem_append, List.mem_cons] at hc
  rcases hc with (((hc | rfl | hc) | rfl | hc) | rfl | hc) | rfl | hc
  · exact not_blank_of_mem_field c hc
  · rfl
  · exact not_blank_of_mem_field c hc
  · rfl
  · exact not_blank_of_mem_field c hc
  · rfl
  · exact not_blank_of_mem_field c hc
  · rfl
  · exact not_blank_of_mem_field c hc

theorem outputLine_char {key : String} (hkey : key.toList ∈ singleKeys ++ multiKeys) {value : Text}
    (hvalue : ∀ c ∈ value, isBlank c = false) :
    ∀ c ∈ outputLine key value, isBlank c = false ∨ c = '\n' := by
  intro c hc
  simp only [outputLine, List.mem_append, List.mem_cons, List.not_mem_nil, or_false] at hc
  rcases hc with (hc | rfl | hc) | rfl
  · exact .inl (key_char _ hkey c hc).2.1
  · exact .inl rfl
  · exact .inl (hvalue c hc)
  · exact .inr rfl

/-- The process part has no blanks. -/
theorem processOutput_char (stat byCpu byMemory : List Text) :
    ∀ c ∈ processOutput stat byCpu byMemory, isBlank c = false ∨ c = '\n' := by
  have hrows {key : String} (hkey : key.toList ∈ singleKeys ++ multiKeys) (records : List Text) :
      ∀ c ∈ records.flatMap (fun record => outputLine key (awkRow record)),
        isBlank c = false ∨ c = '\n' := by
    intro c hc
    obtain ⟨record, -, hc⟩ := List.mem_flatMap.mp hc
    exact outputLine_char hkey (awkRow_char record) c hc
  intro c hc
  rw [processOutput, List.mem_append, List.mem_append, List.mem_append] at hc
  rcases hc with ((hc | hc) | hc) | hc
  · exact outputLine_char (by decide) (isNumeral_toDigits _).blank c hc
  · exact outputLine_char (by decide) (isNumeral_toDigits _).blank c hc
  · exact hrows (by decide) _ c hc
  · exact hrows (by decide) _ c hc

/-! ## Tables -/

/-- What the parser has collected. -/
def collected (metrics : List Metric) (stat : List Text) (byCpu byMemory : Table F) : Collected :=
  (splitlines (diagnostics metrics stat byCpu byMemory)).foldl Collected.add .empty

variable {metrics : List Metric} {stat : List Text} {byCpu byMemory : Table F}

/-- The rows that are collected have no blanks and no line boundaries, whatever the names are. -/
theorem char_of_mem_rows {key : String} (hsingle : key.toList ∉ singleKeys) {row : Text}
    (h : row ∈ (collected metrics stat byCpu byMemory).rows key) :
    ∀ c ∈ row, isBlank c = false ∧ isBoundary c = false := by
  rcases Collected.mem_repeated h with h | ⟨l, hl, value, hpart, rfl⟩
  · exact absurd h List.not_mem_nil
  rw [diagnostics, splitlines_metrics] at hl
  rcases List.mem_append.mp hl with hl | hl
  · obtain ⟨metric, -, rfl⟩ := List.mem_map.mp hl
    rw [partition_line (List.mem_append_left _ metric.key_mem)] at hpart
    have hkey : metric.key.toList = key.toList := congrArg Prod.fst hpart
    exact absurd (hkey ▸ metric.key_mem) hsingle
  · intro c hc
    have hc : c ∈ l := by
      rw [eq_of_partition hpart]
      exact List.mem_append_right _ (List.mem_cons_of_mem _ (trim_subset value hc))
    obtain ⟨hboundary, hmem⟩ := of_mem_splitlines hl c hc
    refine ⟨(processOutput_char _ _ _ c hmem).resolve_right ?_, hboundary⟩
    rintro rfl
    exact absurd hboundary (by decide)

/-- The rows of the parser have plain names, whatever the names of the processes are. -/
theorem plain_of_mem_top (key : String) (hsingle : key.toList ∉ singleKeys) {r : Row F}
    (h : r ∈ parseProcessRows F ((collected metrics stat byCpu byMemory).rows key)) :
    Plain 64 r.user ∧ Plain 128 r.command := by
  obtain ⟨row, hrow, hparse⟩ := List.mem_filterMap.mp h
  have hchars := char_of_mem_rows hsingle ((List.take_subset 5 _) hrow)
  exact parseRow_plain hparse (fun c hc => (hchars c hc).1) fun c hc => (hchars c hc).2

/-- Every name of the first five rows is plain. -/
def Table.Plain (table : Table F) : Prop :=
  ∀ e ∈ table.take 5, Diagnostics.Plain 64 e.1.user ∧ Diagnostics.Plain 128 e.1.comm

namespace Table

variable {table : Table F}

/-- The names are plain if the rows of the parser are those of the table. -/
theorem plain_of_top (h : ∀ r ∈ table.top, Diagnostics.Plain 64 r.user ∧ Diagnostics.Plain 128 r.command) :
    table.Plain := fun e he => h e.1.row (List.mem_map_of_mem he)

/-- The rows that awk prints of a table. -/
def texts (table : Table F) : List Text := (table.take 5).map fun e => e.1.text

theorem output_eq (H : table.Plain) (key : String) :
    (table.records.take 5).flatMap (fun record => outputLine key (awkRow record)) =
      table.texts.flatMap (outputLine key) := by
  rw [records, texts, ← List.map_take, List.flatMap_map, List.flatMap_map]
  refine List.flatMap_congr fun e he => ?_
  rw [e.1.awkRow_record (H e he).2]

theorem boundary_texts (H : table.Plain) : ∀ text ∈ table.texts, ∀ c ∈ text, isBoundary c = false := by
  intro text htext
  obtain ⟨e, he, rfl⟩ := List.mem_map.mp htext
  exact e.1.boundary_text (H e he).1 (H e he).2

theorem trim_texts (table : Table F) : table.texts.map trim = table.texts := by
  rw [texts, List.map_map]
  exact List.map_congr_left fun e _ => e.1.trim_text

theorem length_texts (table : Table F) : table.texts.length ≤ 5 := by
  rw [texts, List.length_map]
  exact List.length_take_le 5 table

/-- The parser reads the rows of a table back. -/
theorem parseProcessRows_texts (H : table.Plain) : parseProcessRows F table.texts = table.top := by
  rw [parseProcessRows, List.take_of_length_le table.length_texts, texts, top, List.filterMap_map]
  rw [← List.filterMap_eq_map]
  refine List.filterMap_congr fun e he => ?_
  exact e.1.parseRow_text (H e he).1 (H e he).2

end Table

/-- The lines of plain tables. -/
theorem splitlines_diagnostics (hcpu : byCpu.Plain) (hmemory : byMemory.Plain) :
    splitlines (diagnostics metrics stat byCpu byMemory) =
      metrics.map (fun metric => line metric.key metric.value) ++
        line "process_total" (Nat.toDigits 10 stat.length) ::
        line "process_zombies" (Nat.toDigits 10 (stat.countP isZombie)) ::
        (byCpu.texts.map (line "process_cpu") ++ byMemory.texts.map (line "process_memory")) := by
  have hrows {table : Table F} (H : table.Plain) (key : String)
      (hkey : key.toList ∈ singleKeys ++ multiKeys) (text : Text) :
      splitlines (table.texts.flatMap (outputLine key) ++ text) =
        table.texts.map (line key) ++ splitlines text :=
    splitlines_outputLines (fun row hrow => ⟨hkey, table.boundary_texts H row hrow⟩) text
  have hlast := hrows hmemory "process_memory" (by decide) []
  rw [List.append_nil] at hlast
  rw [diagnostics, splitlines_metrics, processOutput, byCpu.output_eq hcpu,
    byMemory.output_eq hmemory]
  simp only [List.append_assoc]
  rw [splitlines_outputLine (by decide) (isNumeral_toDigits _).boundary,
    splitlines_outputLine (by decide) (isNumeral_toDigits _).boundary, hrows hcpu _ (by decide), hlast]
  simp [splitlines, splitlinesFrom]

/-- What is collected of plain tables. -/
theorem collected_plain (metrics : List Metric) (stat : List Text) (hcpu : byCpu.Plain)
    (hmemory : byMemory.Plain) :
    (collected metrics stat byCpu byMemory).value "process_total" =
        some (Nat.toDigits 10 stat.length) ∧
      (collected metrics stat byCpu byMemory).value "process_zombies" =
        some (Nat.toDigits 10 (stat.countP isZombie)) ∧
      (collected metrics stat byCpu byMemory).rows "process_cpu" = byCpu.texts ∧
      (collected metrics stat byCpu byMemory).rows "process_memory" = byMemory.texts := by
  have hmetrics : ((metrics.map fun metric => line metric.key metric.value).foldl Collected.add
      .empty).repeated = fun _ => [] := Collected.foldl_metrics metrics .empty
  rw [collected, splitlines_diagnostics hcpu hmemory, List.foldl_append, List.foldl_cons,
    List.foldl_cons, List.foldl_append]
  generalize (metrics.map fun metric => line metric.key metric.value).foldl Collected.add .empty = acc
    at hmetrics ⊢
  -- After the two totals nothing has been collected of the rows.
  obtain ⟨totals, htotals⟩ : ∃ totals, totals =
      (acc.add (line "process_total" (Nat.toDigits 10 stat.length))).add
        (line "process_zombies" (Nat.toDigits 10 (stat.countP isZombie))) := ⟨_, rfl⟩
  have hrows (key : String) : totals.rows key = [] := by
    rw [htotals, Collected.add_single (by decide), Collected.add_single (by decide)]
    exact congrFun hmetrics key.toList
  have htotal : totals.value "process_total" = some (Nat.toDigits 10 stat.length) := by
    rw [htotals, Collected.value_add_of_ne (by decide) _ (by decide), Collected.value_add (by decide),
      (isNumeral_toDigits _).trim]
  have hzombies : totals.value "process_zombies" = some (Nat.toDigits 10 (stat.countP isZombie)) := by
    rw [htotals, Collected.value_add (by decide), (isNumeral_toDigits _).trim]
  rw [← htotals]
  obtain ⟨hvalues, hself, hother⟩ := Collected.foldl_lines "process_cpu" (by decide)
    (by decide) (hrows "process_cpu") byCpu.length_texts
  obtain ⟨hvaluesLast, hselfLast, hotherLast⟩ := Collected.foldl_lines "process_memory" (by decide)
    (by decide) ((hother "process_memory" (by decide)).trans (hrows _)) byMemory.length_texts
  refine ⟨?_, ?_, ?_, hselfLast.trans byMemory.trim_texts⟩
  · exact (congrFun (hvaluesLast.trans hvalues) _).trans htotal
  · exact (congrFun (hvaluesLast.trans hvalues) _).trans hzombies
  · exact (hotherLast "process_cpu" (by decide)).trans (hself.trans byCpu.trim_texts)

/-- The processes of the payload are the first five of each table, with their own names and values,
exactly if no such name holds a separator of one of the three formats. -/
theorem processes_iff (metrics : List Metric) (stat : List Text) (byCpu byMemory : Table F)
    (maxBytes : Nat) :
    (∃ result, parseLinuxStats F (diagnostics metrics stat byCpu byMemory) maxBytes = .ok result ∧
      result.processes = some ⟨stat.length, stat.countP isZombie, byCpu.top, byMemory.top⟩) ↔
    (byCpu.Plain ∧ byMemory.Plain) ∧ (byCpu ≠ [] ∨ byMemory ≠ []) ∧ stat.length ≤ 10000000 ∧
      (Python.encode (String.ofList (diagnostics metrics stat byCpu byMemory))).length ≤ maxBytes := by
  have hshort {table : Table F} : table.top.length ≠ 0 ↔ table ≠ [] := by
    rw [Table.top, List.length_map, List.length_take, ← List.length_pos_iff]
    omega
  constructor
  · rintro ⟨result, hparse, hresult⟩
    rw [parseLinuxStats] at hparse
    split at hparse
    · cases hparse
    · rename_i hsize
      dsimp only at hparse
      split at hparse
      · cases hparse
      · cases hparse
        change parseProcesses F (collected metrics stat byCpu byMemory) = _ at hresult
        obtain ⟨total, htotal, hresult⟩ := Option.bind_eq_some_iff.mp hresult
        obtain ⟨zombies, -, hresult⟩ := Option.bind_eq_some_iff.mp hresult
        dsimp only at hresult
        split at hresult
        · rename_i hnonempty
          injection hresult with hresult
          injection hresult with htotal' _ hcpu hmemory
          refine ⟨⟨Table.plain_of_top fun r hr => ?_, Table.plain_of_top fun r hr => ?_⟩, ?_, ?_,
            Nat.not_lt.mp hsize⟩
          · exact plain_of_mem_top "process_cpu" (by decide) (hcpu ▸ hr)
          · exact plain_of_mem_top "process_memory" (by decide) (hmemory ▸ hr)
          · rw [hcpu, hmemory, hshort, hshort] at hnonempty
            exact hnonempty.2
          · obtain ⟨text, -, hint⟩ := Option.bind_eq_some_iff.mp htotal
            obtain ⟨n, -, hint⟩ := Option.bind_eq_some_iff.mp hint
            split at hint
            · cases hint
            · cases hint
              omega
        · cases hresult
  · rintro ⟨⟨hcpu, hmemory⟩, hnonempty, hstat, hsize⟩
    obtain ⟨htotal, hzombies, hrows, hrows'⟩ :=
      collected_plain metrics stat hcpu hmemory
    have hcount : stat.countP isZombie ≤ stat.length := List.countP_le_length
    have hprocesses : parseProcesses F (collected metrics stat byCpu byMemory) =
        some ⟨stat.length, stat.countP isZombie, byCpu.top, byMemory.top⟩ := by
      rw [parseProcesses, Collected.int, Collected.int, htotal, hzombies, hrows, hrows',
        Table.parseProcessRows_texts hcpu, Table.parseProcessRows_texts hmemory]
      simp only [Option.bind_some, Option.bind_eq_bind,
        optionalInt_toDigits hstat (show stat.length < 10 ^ 10 by omega),
        optionalInt_toDigits (show stat.countP isZombie ≤ 10000000 by omega)
          (show stat.countP isZombie < 10 ^ 10 by omega), hshort]
      exact if_pos ⟨hcount, hnonempty⟩
    refine ⟨stats F (collected metrics stat byCpu byMemory), ?_, hprocesses⟩
    have hsome : (stats F (collected metrics stat byCpu byMemory)).isEmpty = false := by
      have h : (stats F (collected metrics stat byCpu byMemory)).processes.isNone = false := by
        rw [show (stats F (collected metrics stat byCpu byMemory)).processes = _ from hprocesses]
        rfl
      rw [Stats.isEmpty, h, Bool.and_false, Bool.false_and]
    rw [parseLinuxStats, if_neg (Nat.not_lt.mpr hsize)]
    exact if_neg (Bool.eq_false_iff.mp hsome)

/-! ## A command name with a blank -/

/-- A percentage with one decimal, in tenths. -/
def parseTenths (text : Text) : Option Nat :=
  match text.splitOn '.' with
  | [whole, [digit]] => (natural whole).bind fun n => (natural [digit]).map fun d => 10 * n + d
  | _ => none

def tenths : Floats where
  Value := Nat
  float := parseTenths
  inRange value maximum := value ≤ 10 * maximum
  truncate value := (value / 10 : Nat)

def init : Process tenths where
  pid := 1
  user := "root".toList
  comm := "init".toList
  pcpu := "0.3".toList
  pmem := "0.2".toList
  cpuPercent := (3 : Nat)
  memoryPercent := (2 : Nat)
  pid_pos := by decide
  pid_le := by decide
  user_ne := by decide
  user_blank := by decide
  comm_line := by decide
  pcpu_numeral := ⟨by decide, by decide⟩
  pmem_numeral := ⟨by decide, by decide⟩
  float_pcpu := show parseTenths "0.3".toList = some 3 by decide
  float_pmem := show parseTenths "0.2".toList = some 2 by decide
  cpu_range := by decide
  memory_range := by decide

def tmux : Process tenths :=
  { init with
    pid := 812
    comm := "tmux: server".toList
    pid_pos := by decide
    pid_le := by decide
    comm_line := by decide }

/-- Both processes, in either order of `ps`. -/
def twoProcesses : Table tenths := [(tmux, ⟨2, 4, 0, 2, 1, 0⟩), (init, ⟨4, 4, 8, 2, 1, 0⟩)]

/-- `tmux: server` becomes `tmux:`, and `server` is no percentage. -/
theorem tmux_dropped : ¬ ∃ result,
    parseLinuxStats tenths (diagnostics [] ["Ss".toList, "Ss".toList] twoProcesses twoProcesses)
      defaultMaxBytes = .ok result ∧
    result.processes = some ⟨2, 0, twoProcesses.top, twoProcesses.top⟩ := by
  rintro ⟨result, hparse, hresult⟩
  have h : ((parseLinuxStats tenths (diagnostics [] ["Ss".toList, "Ss".toList] twoProcesses
      twoProcesses) defaultMaxBytes).toOption.bind Stats.processes).map (fun processes =>
        processes.topCpu.map Row.command) = some ["init".toList] := by decide +kernel
  rw [hparse] at h
  change (result.processes.map fun processes => processes.topCpu.map Row.command) = _ at h
  rw [hresult] at h
  exact absurd h (by decide)

end WebSSH.Diagnostics
