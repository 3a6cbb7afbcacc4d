import Mathlib
import WebSSH.Lib.Except
import WebSSH.Lib.Latin1
import WebSSH.Lib.Lines

/-!
# Previews of remote files

`sftp_handler.read_file_preview`: a bounded read from the start or of the last lines, a guess from
the first bytes whether the file is text, and the text. `opened` is what `open_bound_reader` gives
for the path, the file or the public text of its error.
-/

namespace WebSSH.Files
open Lib Lib.Python

/-- `config.MAX_PREVIEW_SIZE`, `config.MAX_SUPPORTED_FILE_SIZE` and `config.MAX_PREVIEW_TAIL_LINES`. -/
structure PreviewLimits where
  previewSize : Nat
  supportedFile : Nat
  tailLines : Nat
  previewSize_pos : 0 < previewSize

/-- `isinstance(value, int)` and not a `bool`, from `least` on. -/
def integerFrom (least : Nat) (message : String) : Value → Except String Nat
  | .int i => if (least : Int) ≤ i then .ok i.toNat else .error message
  | _ => .error message

def positive (message : String) (value : Value) : Except String Nat := integerFrom 1 message value

/-- `tail_lines`, which may be left out. -/
def tailOption : Value → Except String (Option Nat)
  | .none => .ok none
  | value => some <$> positive "tail_lines must be a positive integer" value

def normalizeFilePreviewOptions (limits : PreviewLimits) (maxBytes offset tailLines : Value) :
    Except String (Nat × Nat × Option Nat) := do
  let maxBytes ← positive "max_bytes must be a positive integer" maxBytes
  let offset ← integerFrom 0 "offset must be a non-negative integer" offset
  let tailLines ← tailOption tailLines
  raiseIf (limits.supportedFile < offset) "offset exceeds the supported file size"
  raiseIf (∃ n ∈ tailLines, limits.tailLines < n) "tail_lines exceeds the configured limit"
  return (min maxBytes limits.previewSize, offset, tailLines)

/-- The byte `\n`. -/
def lf : UInt8 := 10

/-- The last `n` pieces of what was read, and whether any piece was left out. -/
def tailContent (n : Nat) (content : Bytes) : Bytes × Bool :=
  let lines := content.splitOn lf
  if n < lines.length then ([lf].intercalate (lines.drop (lines.length - n)), true)
  else (content, false)

/-- What is read, and `truncated`. -/
def readContent (file : Bytes) (maxBytes offset : Nat) : Option Nat → Bytes × Bool
  | some n =>
    let (content, cut) := tailContent n ((file.drop (file.length - maxBytes)).take maxBytes)
    (content, decide (maxBytes < file.length) || cut)
  | none =>
    ((file.drop offset).take (min file.length maxBytes), decide (maxBytes < file.length))

/-- How many of the first bytes tell a text from a binary file. -/
def sampleBytes : Nat := 1024

def isBinary (content : Bytes) : Bool :=
  let sample := content.take sampleBytes
  sample.contains 0 || (decode sample).isNone

/-- UTF-8, and Latin-1 where that fails. -/
def decodeText (content : Bytes) : String := (decode content).getD (Latin1.decode content)

structure Preview where
  content : Option String
  size : Nat
  readSize : Nat
  truncated : Bool
  isBinary : Bool
  offset : Nat
  deriving DecidableEq

def readFilePreview (limits : PreviewLimits) (opened : Except String Bytes)
    (maxBytes offset tailLines : Value) : Except String Preview := do
  let (maxBytes, offset, tailLines) ← normalizeFilePreviewOptions limits maxBytes offset tailLines
  let file ← opened
  let size := file.length
  let maxSupportedFile := limits.supportedFile
  raiseIf (maxSupportedFile < size)
    s!"File too large ({size} bytes). Maximum supported size is {maxSupportedFile} bytes."
  let (content, truncated) := readContent file maxBytes offset tailLines
  raiseIf (maxBytes < content.length) "Preview exceeds the configured size limit"
  return {
    content := if isBinary content then none else some (decodeText content)
    size
    readSize := content.length
    truncated
    isBinary := isBinary content
    offset }

/-! ## Accepted options -/

variable {limits : PreviewLimits} {file content : Bytes} {maxBytes offset m e o n : Nat}
  {value offsetValue tailValue : Value} {tail : Option Nat} {message : String}

theorem eq_of_integerFrom {least : Nat} (h : integerFrom least message value = .ok m) :
    value = .int m ∧ least ≤ m := by
  unfold integerFrom at h
  split at h
  · rename_i i
    split at h
    · rename_i hle
      cases h
      have hpos : (0 : Int) ≤ i := Int.le_trans (Int.natCast_nonneg least) hle
      rw [Int.toNat_of_nonneg hpos]
      exact ⟨rfl, by omega⟩
    · nomatch h
  · nomatch h

theorem eq_of_tailOption (h : tailOption tailValue = .ok tail) :
    ∀ n ∈ tail, tailValue = .int n ∧ 0 < n := by
  unfold tailOption at h
  split at h
  · cases h
    exact fun _ hn => nomatch hn
  · obtain ⟨n, hn, h⟩ := bind_eq_ok.mp h
    cases h
    intro n' hn'
    cases hn'
    exact eq_of_integerFrom hn

/-- Accepted options bound the read by the server's own limit. -/
theorem of_normalizeFilePreviewOptions
    (h : normalizeFilePreviewOptions limits value offsetValue tailValue = .ok (e, o, tail)) :
    ∃ m : Nat, value = .int m ∧ 0 < m ∧ offsetValue = .int o ∧ e = min m limits.previewSize ∧
      tailOption tailValue = .ok tail := by
  unfold normalizeFilePreviewOptions at h
  obtain ⟨m, hm, h⟩ := bind_eq_ok.mp h
  obtain ⟨o', ho, h⟩ := bind_eq_ok.mp h
  obtain ⟨tail', htail, h⟩ := bind_eq_ok.mp h
  obtain ⟨_, -, h⟩ := bind_eq_ok.mp h
  obtain ⟨_, -, h⟩ := bind_eq_ok.mp h
  cases h
  obtain ⟨hvalue, hpos⟩ := eq_of_integerFrom hm
  exact ⟨m, hvalue, hpos, (eq_of_integerFrom ho).1, rfl, htail⟩

/-! ## What is read -/

theorem tailContent_eq (n : Nat) (content : Bytes) (h : 0 < n) :
    tailContent n content =
      (((lines lf content).drop ((content.splitOn lf).length - n)).flatten,
        decide (n < (content.splitOn lf).length)) := by
  unfold tailContent
  dsimp only
  split
  · rename_i hlt
    rw [intercalate_drop_splitOn (by omega), decide_eq_true hlt]
  · rename_i hge
    rw [Nat.sub_eq_zero_of_le (Nat.le_of_not_lt hge), List.drop_zero, flatten_lines,
      decide_eq_false hge]

theorem length_tailContent_le (n : Nat) (content : Bytes) (h : 0 < n) :
    (tailContent n content).1.length ≤ content.length := by
  have hsuffix := suffix_flatten (List.drop_suffix ((content.splitOn lf).length - n) (lines lf content))
  rw [flatten_lines] at hsuffix
  rw [tailContent_eq n content h]
  exact hsuffix.length_le

theorem length_readContent_le (file : Bytes) (maxBytes offset : Nat) (h : ∀ n ∈ tail, 0 < n) :
    (readContent file maxBytes offset tail).1.length ≤ maxBytes := by
  cases tail with
  | none => exact (List.length_take_le _ _).trans (Nat.min_le_right _ _)
  | some n => exact (length_tailContent_le n _ (h n rfl)).trans (List.length_take_le _ _)

/-- The reply for accepted options, within the supported size. -/
def shown (file content : Bytes) (truncated : Bool) (offset : Nat) : Preview where
  content := if isBinary content then none else some (decodeText content)
  size := file.length
  readSize := content.length
  truncated := truncated
  isBinary := isBinary content
  offset := offset

theorem readFilePreview_eq_ok {preview : Preview}
    (h : normalizeFilePreviewOptions limits value offsetValue tailValue = .ok (e, o, tail)) :
    readFilePreview limits (.ok file) value offsetValue tailValue = .ok preview ↔
      file.length ≤ limits.supportedFile ∧
        preview = shown file (readContent file e o tail).1 (readContent file e o tail).2 o := by
  obtain ⟨m, -, -, -, -, htail⟩ := of_normalizeFilePreviewOptions h
  have hfits := length_readContent_le file e o fun n hn => (eq_of_tailOption htail n hn).2
  unfold readFilePreview
  rw [h]
  constructor
  · intro h
    obtain ⟨_, ⟨⟩, h⟩ := bind_eq_ok.mp h
    obtain ⟨_, ⟨⟩, h⟩ := bind_eq_ok.mp h
    obtain ⟨_, hsize, h⟩ := bind_eq_ok.mp h
    obtain ⟨_, -, h⟩ := bind_eq_ok.mp h
    cases h
    exact ⟨Nat.le_of_not_lt (raiseIf_eq_ok.mp hsize), rfl⟩
  · rintro ⟨hsize, rfl⟩
    refine bind_eq_ok.mpr ⟨_, rfl, bind_eq_ok.mpr ⟨_, rfl, ?_⟩⟩
    refine bind_eq_ok.mpr ⟨(), raiseIf_eq_ok.mpr (Nat.not_lt.mpr hsize), ?_⟩
    exact bind_eq_ok.mpr ⟨(), raiseIf_eq_ok.mpr (Nat.not_lt.mpr hfits), rfl⟩

/-! ## The last lines -/

/-- The reply is the text of the last `n` lines, and is truncated where there are more. -/
structure ShowsLastLines (file : Bytes) (n : Nat) (preview : Preview) : Prop where
  content : preview.content = some (decodeText (lastLines lf n file))
  readSize : preview.readSize = (lastLines lf n file).length
  truncated : preview.truncated = true ↔ n < (lines lf file).length

/-- The file is supported, the lines are taken for text, and the end of the file that is read has
the lines and tells how many there are. -/
def LastLinesReadable (limits : PreviewLimits) (n : Nat) (file : Bytes) : Prop :=
  let before := file.take (file.length - limits.previewSize)
  let read := file.drop (file.length - limits.previewSize)
  file.length ≤ limits.supportedFile ∧ isBinary (lastLines lf n file) = false ∧
    if Closed lf file then before = [] ∧ (lines lf file).length < n
    else before = [] ∨ n < (lines lf read).length ∨ n = (lines lf read).length ∧ Closed lf before

/-- The empty piece after a last newline counts as a line. -/
theorem tailContent_lines (h : 0 < n) (content : Bytes) :
    tailContent n content =
      (lastLines lf (n - if Closed lf content then 1 else 0) content,
        decide ((n - if Closed lf content then 1 else 0) < (lines lf content).length)) := by
  rw [tailContent_eq n content h, length_splitOn, lastLines]
  split
  · rw [show (lines lf content).length + 1 - n = (lines lf content).length - (n - 1) by omega]
    exact congrArg (Prod.mk _) (decide_eq_decide.mpr (by omega))
  · rfl

theorem readContent_tail (h : 0 < n) (file : Bytes) (maxBytes offset : Nat) :
    readContent file maxBytes offset (some n) =
      let read := file.drop (file.length - maxBytes)
      (lastLines lf (n - if Closed lf read then 1 else 0) read,
        decide (maxBytes < file.length) ||
          decide ((n - if Closed lf read then 1 else 0) < (lines lf read).length)) := by
  have hread : (file.drop (file.length - maxBytes)).take maxBytes = file.drop (file.length - maxBytes) := by
    apply List.take_of_length_le
    rw [List.length_drop]
    omega
  simp only [readContent, hread, tailContent_lines h]

/-- A file that is read whole. -/
theorem lastLines_whole_iff (h : 0 < n) :
    (lastLines lf (n - if Closed lf file then 1 else 0) file = lastLines lf n file ∧
        ((n - if Closed lf file then 1 else 0) < (lines lf file).length ↔
          n < (lines lf file).length)) ↔
      (Closed lf file → (lines lf file).length < n) := by
  split
  · rename_i H
    constructor
    · rintro ⟨heq, -⟩ -
      refine Nat.lt_of_not_le fun hn => ?_
      have hshort : (lastLines lf (n - 1) file).length < (lastLines lf n file).length :=
        length_lastLines_lt (Nat.sub_one_lt_of_lt h) hn
      rw [heq] at hshort
      exact Nat.lt_irrefl _ hshort
    · intro hn
      have hlines := hn H
      rw [lastLines_of_le (Nat.le_of_lt hlines), lastLines_of_le (by omega)]
      exact ⟨rfl, by omega⟩
  · rename_i H
    exact iff_of_true ⟨rfl, Iff.rfl⟩ fun hclosed => absurd hclosed H

/-- What is read is the last lines, and the flag tells it, where the file is readable. -/
theorem readContent_tail_iff (offset : Nat) (h : 0 < n) (hm : file.length ≤ m) (hpos : 0 < limits.previewSize) :
    ((readContent file (min m limits.previewSize) offset (some n)).1 = lastLines lf n file ∧
        ((readContent file (min m limits.previewSize) offset (some n)).2 = true ↔
          n < (lines lf file).length)) ↔
      let before := file.take (file.length - limits.previewSize)
      let read := file.drop (file.length - limits.previewSize)
      if Closed lf file then before = [] ∧ (lines lf file).length < n
      else before = [] ∨ n < (lines lf read).length ∨ n = (lines lf read).length ∧ Closed lf before := by
  have hstart : file.length - min m limits.previewSize = file.length - limits.previewSize := by omega
  rw [readContent_tail h, hstart]
  dsimp only
  rw [Bool.or_eq_true, decide_eq_true_iff, decide_eq_true_iff]
  by_cases hsmall : file.length ≤ limits.previewSize
  · have hwhole : ¬ min m limits.previewSize < file.length := by omega
    rw [Nat.sub_eq_zero_of_le hsmall, List.take_zero, List.drop_zero, or_iff_right hwhole,
      lastLines_whole_iff h]
    split
    · rename_i H
      exact ⟨fun hn => ⟨rfl, hn H⟩, fun hn _ => hn.2⟩
    · rename_i H
      exact iff_of_true (fun hclosed => absurd hclosed H) (.inl rfl)
  · have hcut : min m limits.previewSize < file.length := by omega
    have hbefore : file.take (file.length - limits.previewSize) ≠ [] := by
      rw [← List.length_pos_iff, List.length_take]
      omega
    have hend : file.drop (file.length - limits.previewSize) ≠ [] := by
      rw [← List.length_pos_iff, List.length_drop]
      omega
    have hsplit := List.take_append_drop (file.length - limits.previewSize) file
    have htrue (P : Prop) : (min m limits.previewSize < file.length ∨ P ↔
        n < (lines lf file).length) ↔ n < (lines lf file).length :=
      ⟨fun h => h.mp (.inl hcut), fun h => iff_of_true (.inl hcut) h⟩
    rw [htrue]
    generalize file.take (file.length - limits.previewSize) = before at *
    generalize file.drop (file.length - limits.previewSize) = read at *
    subst hsplit
    rw [if_congr (closed_append hend) rfl rfl]
    split
    · refine iff_of_false ?_ fun hnil => hbefore hnil.1
      rintro ⟨heq, hn⟩
      have hshort := length_lastLines_lt_append (p := before) (Nat.sub_one_lt_of_lt h) (Nat.le_of_lt hn) hend
      rw [heq] at hshort
      exact Nat.lt_irrefl _ hshort
    · rw [Nat.sub_zero, and_comm, lastLines_append_eq_iff hbefore hend, or_iff_right hbefore]

/-- The preview shows the last lines of exactly the readable files. -/
theorem readFilePreview_lastLines_iff
    (h : normalizeFilePreviewOptions limits (.int m) offsetValue tailValue = .ok (e, o, some n))
    (hm : file.length ≤ m) :
    (∃ preview, readFilePreview limits (.ok file) (.int m) offsetValue tailValue = .ok preview ∧
      ShowsLastLines file n preview) ↔ LastLinesReadable limits n file := by
  obtain ⟨m', hm', -, -, rfl, htail⟩ := of_normalizeFilePreviewOptions h
  obtain rfl : m = m' := by
    injection hm' with hm'
    exact Int.ofNat.inj hm'
  have hn : 0 < n := (eq_of_tailOption htail n rfl).2
  have hiff := readContent_tail_iff o hn hm limits.previewSize_pos
  constructor
  · rintro ⟨preview, hread, H⟩
    obtain ⟨hsize, rfl⟩ := (readFilePreview_eq_ok h).mp hread
    have hsuffix : (readContent file (min m limits.previewSize) o (some n)).1 <:+ file := by
      rw [readContent_tail hn]
      exact (lastLines_suffix _ _).trans (List.drop_suffix _ _)
    have hcontent : (readContent file (min m limits.previewSize) o (some n)).1 = lastLines lf n file :=
      suffix_eq_of_length hsuffix (lastLines_suffix n file) H.readSize
    refine ⟨hsize, ?_, hiff.mp ⟨hcontent, H.truncated⟩⟩
    have htext := H.content
    rw [shown, hcontent] at htext
    refine Bool.eq_false_iff.mpr fun hbinary => ?_
    rw [if_pos hbinary] at htext
    nomatch htext
  · rintro ⟨hsize, hbinary, hreadable⟩
    obtain ⟨hcontent, htruncated⟩ := hiff.mpr hreadable
    refine ⟨_, (readFilePreview_eq_ok h).mpr ⟨hsize, rfl⟩, ?_, ?_, htruncated⟩
    · rw [shown, hcontent, if_neg (by rw [hbinary]; exact Bool.false_ne_true)]
    · rw [shown, hcontent]

/-- `config.py` without environment variables. -/
def defaultLimits : PreviewLimits where
  previewSize := 512000
  supportedFile := 1024 * 1024 * 1024
  tailLines := 10000
  previewSize_pos := by decide

/-- The last line of `a` and `b`, each ended by a newline, is shown as an empty text. -/
theorem finalNewline_shows_nothing :
    normalizeFilePreviewOptions defaultLimits (.int 512000) (.int 0) (.int 1) =
        .ok (512000, 0, some 1) ∧
      ([97, 10, 98, 10] : Bytes).length ≤ 512000 ∧
      readFilePreview defaultLimits (.ok [97, 10, 98, 10]) (.int 512000) (.int 0) (.int 1) =
        .ok ⟨some "", 4, 0, true, false, 0⟩ ∧
      ¬ ∃ preview, readFilePreview defaultLimits (.ok [97, 10, 98, 10]) (.int 512000) (.int 0)
        (.int 1) = .ok preview ∧ ShowsLastLines [97, 10, 98, 10] 1 preview := by
  have hrun : readFilePreview defaultLimits (.ok [97, 10, 98, 10]) (.int 512000) (.int 0) (.int 1) =
      .ok ⟨some "", 4, 0, true, false, 0⟩ := by decide
  refine ⟨by decide, by decide, hrun, ?_⟩
  rintro ⟨preview, hpreview, H⟩
  obtain rfl := Except.ok.inj (hrun.symm.trans hpreview)
  exact absurd H.readSize (by decide)

/-- Without the last newline it is shown. -/
theorem readFilePreview_lastLines_open :
    LastLinesReadable defaultLimits 1 [97, 10, 98] ∧
      ∃ preview, readFilePreview defaultLimits (.ok [97, 10, 98]) (.int 512000) (.int 0) (.int 1) =
        .ok preview ∧ ShowsLastLines [97, 10, 98] 1 preview := by
  have hreadable : LastLinesReadable defaultLimits 1 [97, 10, 98] := by
    unfold LastLinesReadable
    decide
  have haccepted : normalizeFilePreviewOptions defaultLimits (.int (512000 : Nat)) (.int 0) (.int 1) =
      .ok (512000, 0, some 1) := by decide
  exact ⟨hreadable, (readFilePreview_lastLines_iff haccepted (by decide)).mpr hreadable⟩

/-! ## Texts -/

/-- No character of the text stands on both sides of byte `k`. -/
def AtBoundary (text : String) (k : Nat) : Prop :=
  ∃ p, p <+: text.toList ∧ (Utf8.encodeChars p).length = k

/-- The reply is a text that begins the file's, with every character whose bytes were all read. -/
structure ShowsBeginning (text : String) (k : Nat) (preview : Preview) : Prop where
  notBinary : preview.isBinary = false
  content : ∃ s, preview.content = some s ∧ s.toList <+: text.toList ∧ (encode s).length ≤ k ∧
    ∀ p, p <+: text.toList → (Utf8.encodeChars p).length ≤ k → p <+: s.toList

variable {text s : String} {k : Nat}

theorem take_encode {p : List Char} (h : p <+: text.toList) :
    (encode text).take (Utf8.encodeChars p).length = Utf8.encodeChars p := by
  obtain ⟨rest, hrest⟩ := h
  rw [Utf8.encode_toList, ← hrest, Utf8.encodeChars_append, List.take_left]

/-- What is cut off at a boundary is a text. -/
theorem decode_take_of_atBoundary (h : AtBoundary text k) :
    ∃ s, decode ((encode text).take k) = some s ∧ s.toList <+: text.toList ∧ (encode s).length = k := by
  obtain ⟨p, hp, rfl⟩ := h
  refine ⟨String.ofList p, ?_, ?_, ?_⟩
  · rw [take_encode hp, Utf8.decode_encodeChars]
  · rwa [String.toList_ofList]
  · rw [Utf8.encode_toList, String.toList_ofList]

/-- Only there is it one. -/
theorem atBoundary_of_decode_take (hk : k ≤ (encode text).length)
    (h : decode ((encode text).take k) = some s) : AtBoundary text k := by
  have hbytes := encode_of_decode h
  have hsplit : Utf8.encodeChars s.toList ++ (encode text).drop k = Utf8.encodeChars text.toList := by
    rw [← Utf8.encode_toList, hbytes, List.take_append_drop, Utf8.encode_toList]
  refine ⟨s.toList, Utf8.prefix_of_encodeChars hsplit, ?_⟩
  rw [← Utf8.encode_toList, hbytes, List.length_take, Nat.min_eq_left hk]

/-- The sample of a text without NUL is taken for binary where it cuts a character. -/
theorem isBinary_take_iff (hk : k ≤ (encode text).length) (h0 : 0 ∉ encode text) :
    isBinary ((encode text).take k) = false ↔ AtBoundary text (min sampleBytes k) := by
  have hnul : ((encode text).take (min sampleBytes k)).contains 0 = false :=
    Bool.eq_false_iff.mpr fun h => h0 (List.mem_of_mem_take (List.contains_iff_mem.mp h))
  rw [isBinary, List.take_take, hnul, Bool.false_or]
  constructor
  · intro h
    obtain ⟨s, hs⟩ := Option.isSome_iff_exists.mp (Option.isNone_eq_false_iff.mp h)
    exact atBoundary_of_decode_take ((Nat.min_le_right _ _).trans hk) hs
  · intro h
    obtain ⟨s, hs, -⟩ := decode_take_of_atBoundary h
    rw [hs]
    rfl

/-- Of two beginnings of a text the one with fewer bytes begins the other. -/
theorem prefix_of_length_encodeChars {p q chars : List Char} (hp : p <+: chars) (hq : q <+: chars)
    (h : (Utf8.encodeChars p).length ≤ (Utf8.encodeChars q).length) : p <+: q := by
  rcases List.prefix_or_prefix_of_prefix hp hq with hpq | ⟨rest, rfl⟩
  · exact hpq
  · cases rest with
    | nil => exact ⟨[], by rw [List.append_nil, List.append_nil]⟩
    | cons c rest =>
      have hc := Utf8.length_utf8EncodeChar_pos c
      rw [Utf8.encodeChars_append, Utf8.encodeChars_cons, List.length_append, List.length_append] at h
      omega

/-- The Latin-1 reading of bytes that are no UTF-8 is a longer text than they are. -/
theorem length_lt_of_decode_eq_none (h : decode content = none) :
    content.length < (encode (Latin1.decode content)).length := by
  rw [Utf8.encode_toList, Latin1.decode, String.toList_ofList]
  refine Latin1.length_lt_encodeChars fun heq => ?_
  have hdecode := Utf8.decode_encodeChars (content.map Latin1.char)
  rw [heq, h] at hdecode
  cases hdecode

/-- The preview shows a text where neither the sample nor the read cuts a character. -/
theorem readFilePreview_text_iff
    (h : normalizeFilePreviewOptions limits value (.int 0) .none = .ok (e, o, tail))
    (htext : decode file = some text) (h0 : 0 ∉ file) :
    (∃ preview, readFilePreview limits (.ok file) value (.int 0) .none = .ok preview ∧
      ShowsBeginning text (min file.length e) preview) ↔
      file.length ≤ limits.supportedFile ∧ AtBoundary text (min sampleBytes (min file.length e)) ∧
        AtBoundary text (min file.length e) := by
  obtain ⟨m, -, -, ho, -, htail⟩ := of_normalizeFilePreviewOptions h
  obtain rfl : o = 0 := by
    injection ho with ho
    exact (Int.ofNat.inj ho).symm
  obtain rfl : tail = none := (Except.ok.inj htail).symm
  obtain rfl := encode_of_decode htext
  have hk : min (encode text).length e ≤ (encode text).length := Nat.min_le_left _ _
  have hread : (readContent (encode text) e 0 none).1 = (encode text).take (min (encode text).length e) := rfl
  generalize min (encode text).length e = k at *
  constructor
  · rintro ⟨preview, hpreview, H⟩
    obtain ⟨hsize, rfl⟩ := (readFilePreview_eq_ok h).mp hpreview
    have hbinary : isBinary ((encode text).take k) = false := hread ▸ H.notBinary
    refine ⟨hsize, (isBinary_take_iff hk h0).mp hbinary, ?_⟩
    obtain ⟨s, hs, -, hfits, -⟩ := H.content
    rw [shown, hread, if_neg (by rw [hbinary]; exact Bool.false_ne_true)] at hs
    cases hdecode : decode ((encode text).take k) with
    | some s' => exact atBoundary_of_decode_take hk hdecode
    | none =>
      have hlong := length_lt_of_decode_eq_none hdecode
      rw [decodeText, hdecode] at hs
      rw [← Option.some.inj hs] at hfits
      rw [List.length_take, Nat.min_eq_left hk] at hlong
      exact absurd hfits (Nat.not_le.mpr hlong)
  · rintro ⟨hsize, hsample, hbound⟩
    obtain ⟨s, hs, hbegins, hlength⟩ := decode_take_of_atBoundary hbound
    have hbinary := (isBinary_take_iff hk h0).mpr hsample
    refine ⟨_, (readFilePreview_eq_ok h).mpr ⟨hsize, rfl⟩, ?_, s, ?_, hbegins, Nat.le_of_eq hlength, ?_⟩
    · rw [shown, hread, hbinary]
    · rw [shown, hread, if_neg (by rw [hbinary]; exact Bool.false_ne_true), decodeText, hs]
      rfl
    · intro p hp hle
      rw [← hlength, Utf8.encode_toList] at hle
      exact prefix_of_length_encodeChars hp hbegins hle

/-- One byte of a character of two is taken for a binary file. -/
theorem cutCharacter_is_binary :
    normalizeFilePreviewOptions defaultLimits (.int 1) (.int 0) .none = .ok (1, 0, none) ∧
      decode [0xC3, 0xA9] = some "é" ∧ (0 : UInt8) ∉ [0xC3, 0xA9] ∧
      readFilePreview defaultLimits (.ok [0xC3, 0xA9]) (.int 1) (.int 0) .none =
        .ok ⟨none, 2, 1, true, true, 0⟩ ∧
      ¬ ∃ preview, readFilePreview defaultLimits (.ok [0xC3, 0xA9]) (.int 1) (.int 0) .none =
        .ok preview ∧ ShowsBeginning "é" 1 preview := by
  have hrun : readFilePreview defaultLimits (.ok [0xC3, 0xA9]) (.int 1) (.int 0) .none =
      .ok ⟨none, 2, 1, true, true, 0⟩ := by decide
  refine ⟨by decide, by decide, by decide, hrun, ?_⟩
  rintro ⟨preview, hpreview, H⟩
  obtain rfl := Except.ok.inj (hrun.symm.trans hpreview)
  exact absurd H.notBinary (by decide)

/-- Both bytes of it are shown. -/
theorem readFilePreview_text_whole :
    ∃ preview, readFilePreview defaultLimits (.ok [0xC3, 0xA9]) (.int 2) (.int 0) .none = .ok preview ∧
      ShowsBeginning "é" 2 preview := by
  have haccepted : normalizeFilePreviewOptions defaultLimits (.int 2) (.int 0) .none = .ok (2, 0, none) := by
    decide
  have hbound : AtBoundary "é" 2 := ⟨"é".toList, List.prefix_refl _, by decide⟩
  have htext : decode [0xC3, 0xA9] = some "é" := by decide
  exact (readFilePreview_text_iff haccepted htext (by decide)).mpr ⟨by decide, hbound, hbound⟩

end WebSSH.Files
