import Mathlib
import WebSSH.Files.Preview
import WebSSH.Smb.Replace

/-!
# Previews of files on an SMB share

`read_file_preview` of `smb_backend.py`, beside the one of `sftp_handler.py`. Both read the same bytes
of a file. They differ in what they take for a binary file, and in when they call the preview
truncated.
-/

namespace WebSSH.Smb
open Lib Lib.Python Files

/-- `int()` and `bool()` of what is neither an integer nor `None`. -/
structure Conversions where
  int : Value → Option Int
  truthy : Value → Bool

variable (conversions : Conversions)

/-- `int(value)`. Every failure is a `TypeError` or a `ValueError`. -/
def toInt (failure : Failure) : Value → Except Failure Int
  | .int i => .ok i
  | .bool b => .ok (if b then 1 else 0)
  | .none => .error failure
  | value => (conversions.int value).elim (.error failure) .ok

/-- `bool(value)` -/
def truthy : Value → Bool
  | .none => false
  | .bool b => b
  | .int i => i ≠ 0
  | value => conversions.truthy value

/-- `_decode`: the text, whether it is binary, and the encoding. -/
def decode (data : Bytes) : Option String × Bool × Option String :=
  if (data.take 1024).contains 0 then (none, true, none)
  else
    match Python.decode data with
    | some text => (some text, false, some "utf-8")
    | none => (some (Latin1.decode data), false, some "latin-1")

/-- The end of what was read, where the last lines are asked for. -/
def tailData (limits : PreviewLimits) (data : Bytes) (tailLines : Value) : Except Failure Bytes := do
  if truthy conversions tailLines then
    let n ← toInt conversions (.backend "Invalid preview options") tailLines
    let requestedLines := max 1 (min n limits.tailLines)
    return (tailContent requestedLines.toNat data).1
  else return data

/-- `read_file_preview`. `opened` is what `_open_reader_locked` gives for the path. -/
def readFilePreview (limits : PreviewLimits) (opened : Except Failure Bytes)
    (maxBytes offset tailLines : Value) : Except String Preview :=
  Except.mapError publicError do
    let maxBytes := min (← toInt conversions .other maxBytes) limits.previewSize
    let offset ← toInt conversions .other offset
    raiseIf (maxBytes ≤ 0 ∨ offset < 0) (.backend "Invalid preview options")
    let maxBytes := maxBytes.toNat
    let file ← opened
    let fileSize := file.length
    raiseIf (limits.supportedFile < fileSize) (.backend "File exceeds supported size")
    let readOffset := if truthy conversions tailLines then fileSize - maxBytes else offset.toNat
    let data := (file.drop readOffset).take (maxBytes + 1)
    let availableAtStat := fileSize - readOffset
    raiseIf (maxBytes < data.length ∧ availableAtStat ≤ maxBytes)
      (.backend "File exceeds preview limit")
    let data ← tailData conversions limits (data.take maxBytes) tailLines
    let (content, binary, _) := decode data
    return {
      content
      size := fileSize
      readSize := data.length
      truncated := 0 < readOffset || readOffset + data.length < fileSize
      isBinary := binary
      offset := readOffset }

/-! ## What both read -/

variable {limits : PreviewLimits} {file : Bytes} {e o n : Nat} {value offsetValue tailValue : Value}
  {tail : Option Nat}

/-- The bytes from `o` on, or those of the last `n` lines, of at most `e` bytes. -/
def window (file : Bytes) (e o : Nat) : Option Nat → Bytes
  | none => (file.drop o).take e
  | some n => [lf].intercalate (((file.drop (file.length - e)).splitOn lf).rtake n)

theorem rtake_splitOn (n : Nat) (content : Bytes) :
    [lf].intercalate ((content.splitOn lf).rtake n) = (tailContent n content).1 := by
  unfold tailContent List.rtake
  dsimp only
  split
  · rfl
  · next hle =>
    rw [Nat.sub_eq_zero_of_le (Nat.le_of_not_lt hle), List.drop_zero]
    exact List.intercalate_splitOn lf

theorem take_drop_end (file : Bytes) (e : Nat) :
    (file.drop (file.length - e)).take e = file.drop (file.length - e) := by
  apply List.take_of_length_le
  rw [List.length_drop]
  omega

theorem readContent_eq_window (file : Bytes) (e o : Nat) (tail : Option Nat) :
    (readContent file e o tail).1 = window file e o tail := by
  cases tail with
  | some n =>
    show _ = [lf].intercalate (((file.drop (file.length - e)).splitOn lf).rtake n)
    rw [rtake_splitOn]
    exact congrArg (fun read => (tailContent n read).1) (take_drop_end file e)
  | none =>
    have hlen : (file.drop o).length ≤ file.length := by
      rw [List.length_drop]
      exact Nat.sub_le _ _
    show (file.drop o).take (min file.length e) = (file.drop o).take e
    rw [← List.take_take, List.take_of_length_le ((List.length_take_le' e _).trans hlen)]

/-- A tail without a cut is all that was read, and a cut one is shorter. -/
theorem tailContent_cut_iff (hn : 0 < n) (content : Bytes) :
    (tailContent n content).2 = true ↔ (tailContent n content).1.length < content.length := by
  rw [tailContent_eq n content hn]
  have hflat := flatten_lines lf content
  constructor
  · intro hcut
    have hcut : n < (content.splitOn lf).length := of_decide_eq_true hcut
    have hsplit : (content.splitOn lf).length = _ := length_splitOn content
    obtain ⟨k, hk⟩ : ∃ k, (content.splitOn lf).length - n = k + 1 :=
      Nat.exists_eq_succ_of_ne_zero (Nat.sub_ne_zero_of_lt hcut)
    show ((lines lf content).drop _).flatten.length < content.length
    rw [hk]
    cases hlines : lines lf content with
    | nil =>
      rw [hlines] at hsplit
      split at hsplit
      · rw [List.length_nil] at hsplit
        omega
      · rw [List.length_nil] at hsplit
        omega
    | cons line rest =>
      have hline : line ≠ [] := ne_nil_of_mem_lines (hlines ▸ List.mem_cons_self)
      have hrest : (rest.drop k).flatten.length ≤ rest.flatten.length :=
        (suffix_flatten (List.drop_suffix k rest)).length_le
      have hpos := List.length_pos_iff.mpr hline
      rw [← hflat, hlines, List.drop_succ_cons, List.flatten_cons, List.length_append]
      omega
  · intro hlt
    refine decide_eq_true (Nat.lt_of_not_le fun hle => ?_)
    have hall : ((lines lf content).drop ((content.splitOn lf).length - n)).flatten = content := by
      rw [Nat.sub_eq_zero_of_le hle, List.drop_zero, hflat]
    exact absurd hlt (by rw [hall]; exact Nat.lt_irrefl _)

/-! ## The reply for accepted options -/

theorem eq_none_of_tailOption (h : tailOption tailValue = .ok none) : tailValue = .none := by
  unfold tailOption at h
  split at h
  · rfl
  · obtain ⟨n, -, h⟩ := bind_eq_ok.mp h
    cases h

theorem le_of_normalizeFilePreviewOptions
    (h : normalizeFilePreviewOptions limits value offsetValue tailValue = .ok (e, o, tail)) :
    ∀ n ∈ tail, n ≤ limits.tailLines := by
  unfold normalizeFilePreviewOptions at h
  obtain ⟨m, -, h⟩ := bind_eq_ok.mp h
  obtain ⟨o', -, h⟩ := bind_eq_ok.mp h
  obtain ⟨tail', -, h⟩ := bind_eq_ok.mp h
  obtain ⟨_, -, h⟩ := bind_eq_ok.mp h
  obtain ⟨_, hlines, h⟩ := bind_eq_ok.mp h
  cases h
  intro n hn
  exact Nat.le_of_not_lt fun hlt => raiseIf_eq_ok.mp hlines ⟨n, hn, hlt⟩

/-- Where the read begins. -/
def readStart (file : Bytes) (e o : Nat) : Option Nat → Nat
  | none => o
  | some _ => file.length - e

/-- The reply of the backend, for the bytes it read from `start` on. -/
def shown (file data : Bytes) (start : Nat) : Preview where
  content := (decode data).1
  size := file.length
  readSize := data.length
  truncated := 0 < start || start + data.length < file.length
  isBinary := (decode data).2.1
  offset := start

theorem take_succ_take (l : Bytes) (e : Nat) : (l.take (e + 1)).take e = l.take e := by
  rw [List.take_take, Nat.min_eq_left (Nat.le_succ e)]

/-- No file changes between the two looks at its size. -/
theorem fits_at_stat (file : Bytes) (start e : Nat) :
    ¬ (e < ((file.drop start).take (e + 1)).length ∧ file.length - start ≤ e) := by
  rw [List.length_take, List.length_drop]
  omega

theorem tailData_eq (h : normalizeFilePreviewOptions limits value offsetValue tailValue =
      .ok (e, o, tail)) (file : Bytes) :
    tailData conversions limits ((file.drop (readStart file e o tail)).take e) tailValue =
      .ok (window file e o tail) := by
  obtain ⟨m, -, -, -, -, htail⟩ := of_normalizeFilePreviewOptions h
  cases tail with
  | none =>
    obtain rfl := eq_none_of_tailOption htail
    rfl
  | some n =>
    obtain ⟨rfl, hn⟩ := eq_of_tailOption htail n rfl
    have hle := le_of_normalizeFilePreviewOptions h n rfl
    have hrequested : (max 1 (min (n : Int) limits.tailLines)).toNat = n := by omega
    have htruthy : truthy conversions (.int n) = true := decide_eq_true (by omega)
    rw [tailData, if_pos htruthy]
    refine bind_eq_ok.mpr ⟨n, rfl, ?_⟩
    dsimp only
    rw [hrequested]
    exact congrArg Except.ok (readContent_eq_window file e o (some n))

theorem readFilePreview_eq
    (h : normalizeFilePreviewOptions limits value offsetValue tailValue = .ok (e, o, tail))
    (hsize : file.length ≤ limits.supportedFile) :
    readFilePreview conversions limits (.ok file) value offsetValue tailValue =
      .ok (shown file (window file e o tail) (readStart file e o tail)) := by
  obtain ⟨m, rfl, hm, rfl, rfl, htail⟩ := of_normalizeFilePreviewOptions h
  have hpos := limits.previewSize_pos
  have hmax : (min (m : Int) limits.previewSize).toNat = min m limits.previewSize := by omega
  have hstart : (if truthy conversions tailValue then file.length - min m limits.previewSize
      else (o : Int).toNat) = readStart file (min m limits.previewSize) o tail := by
    cases tail with
    | none =>
      obtain rfl := eq_none_of_tailOption htail
      rfl
    | some n =>
      obtain ⟨rfl, hn⟩ := eq_of_tailOption htail n rfl
      exact if_pos (decide_eq_true (by omega))
  have hdata := tailData_eq conversions h file
  unfold readFilePreview
  refine congrArg (Except.mapError publicError) (?_ : _ = Except.ok _)
  refine bind_eq_ok.mpr ⟨m, rfl, bind_eq_ok.mpr ⟨o, rfl, ?_⟩⟩
  refine bind_eq_ok.mpr ⟨(), raiseIf_eq_ok.mpr (by omega), bind_eq_ok.mpr ⟨file, rfl, ?_⟩⟩
  refine bind_eq_ok.mpr ⟨(), raiseIf_eq_ok.mpr (Nat.not_lt.mpr hsize), ?_⟩
  dsimp only
  rw [hmax, hstart, take_succ_take]
  refine bind_eq_ok.mpr ⟨(), raiseIf_eq_ok.mpr (fits_at_stat _ _ _), ?_⟩
  exact bind_eq_ok.mpr ⟨_, hdata, rfl⟩

theorem readFilePreview_error
    (h : normalizeFilePreviewOptions limits value offsetValue tailValue = .ok (e, o, tail))
    (hsize : limits.supportedFile < file.length) :
    readFilePreview conversions limits (.ok file) value offsetValue tailValue =
      .error "File exceeds supported size" := by
  obtain ⟨m, rfl, hm, rfl, rfl, htail⟩ := of_normalizeFilePreviewOptions h
  have hpos := limits.previewSize_pos
  unfold readFilePreview
  have hopts : raiseIf (min (m : Int) limits.previewSize ≤ 0 ∨ (o : Int) < 0)
      (Failure.backend "Invalid preview options") = .ok () := raiseIf_eq_ok.mpr (by omega)
  have hlarge : raiseIf (limits.supportedFile < file.length)
      (Failure.backend "File exceeds supported size") = .error _ := if_pos hsize
  simp only [toInt, bind, Except.bind, hopts, hlarge]
  rfl

/-! ## Where they agree -/

/-- What the browser shows of a preview. -/
def visible (preview : Preview) : Option String × Bool × Bool :=
  (preview.content, preview.isBinary, preview.truncated)

theorem truncated_iff
    (h : normalizeFilePreviewOptions limits value offsetValue tailValue = .ok (e, o, tail)) :
    (readContent file e o tail).2 =
        (shown file (window file e o tail) (readStart file e o tail)).truncated ↔
      (tail = none → 0 < o → e < file.length) := by
  obtain ⟨m, -, -, -, -, htail⟩ := of_normalizeFilePreviewOptions h
  rw [Bool.eq_iff_iff]
  unfold shown
  rw [Bool.or_eq_true, decide_eq_true_iff, decide_eq_true_iff]
  cases tail with
  | none =>
    show (decide (e < file.length) = true ↔
      0 < o ∨ o + ((file.drop o).take e).length < file.length) ↔ _
    rw [decide_eq_true_iff, List.length_take, List.length_drop]
    constructor
    · intro hiff _ ho
      exact hiff.mpr (.inl ho)
    · intro H
      have H := H rfl
      omega
  | some n =>
    obtain ⟨-, hn⟩ := eq_of_tailOption htail n rfl
    refine iff_of_true ?_ fun hnone => by cases hnone
    have hcut := tailContent_cut_iff hn (file.drop (file.length - e))
    show (decide (e < file.length) || (tailContent n _).2) = true ↔
      0 < file.length - e ∨ file.length - e + ([lf].intercalate _).length < file.length
    rw [Bool.or_eq_true, decide_eq_true_iff, take_drop_end, hcut, rtake_splitOn, List.length_drop]
    omega

theorem decode_of_nul {content : Bytes} (h : 0 ∈ content.take sampleBytes) :
    decode content = (none, true, none) :=
  if_pos (List.contains_iff_mem.mpr h)

theorem decode_of_not_nul {content : Bytes} (h : 0 ∉ content.take sampleBytes) :
    (decode content).1 = some (decodeText content) ∧ (decode content).2.1 = false := by
  have hnul : ¬ (content.take 1024).contains 0 = true := fun hc => h (List.contains_iff_mem.mp hc)
  unfold decode decodeText
  rw [if_neg hnul]
  cases Python.decode content with
  | none => exact ⟨rfl, rfl⟩
  | some text => exact ⟨rfl, rfl⟩

theorem isBinary_iff {content : Bytes} :
    isBinary content = true ↔
      0 ∈ content.take sampleBytes ∨ Python.decode (content.take sampleBytes) = none := by
  unfold isBinary
  rw [Bool.or_eq_true, List.contains_iff_mem, Option.isNone_iff_eq_none]

/-- The sample is taken for binary by both, or for a text by both. -/
theorem content_iff (file content : Bytes) (truncated : Bool) (offset start : Nat) :
    ((Files.shown file content truncated offset).content, isBinary content) =
        ((shown file content start).content, (shown file content start).isBinary) ↔
      0 ∈ content.take sampleBytes ∨ (Python.decode (content.take sampleBytes)).isSome := by
  unfold Files.shown shown
  dsimp only
  rcases Classical.em (0 ∈ content.take sampleBytes) with hnul | hnul
  · have hbinary : isBinary content = true := isBinary_iff.mpr (.inl hnul)
    refine iff_of_true ?_ (.inl hnul)
    rw [decode_of_nul hnul, if_pos hbinary, hbinary]
  · obtain ⟨htext, hnot⟩ := decode_of_not_nul hnul
    rw [htext, hnot, or_iff_right hnul]
    cases hsample : Python.decode (content.take sampleBytes) with
    | none =>
      have hbinary : isBinary content = true := isBinary_iff.mpr (.inr hsample)
      rw [hbinary]
      exact iff_of_false (fun heq => by cases (Prod.mk.inj heq).2) (by decide)
    | some text =>
      have hbinary : isBinary content = false := by
        refine Bool.eq_false_iff.mpr fun hb => ?_
        rcases isBinary_iff.mp hb with hb | hb
        · exact hnul hb
        · rw [hsample] at hb
          cases hb
      rw [hbinary]
      exact iff_of_true rfl rfl

/-- The two agree where the file is too large for both; otherwise where an offset comes with a file
larger than the preview, and the bytes shown have a NUL in their sample or a sample in UTF-8. -/
theorem previews_agree_iff
    (h : normalizeFilePreviewOptions limits value offsetValue tailValue = .ok (e, o, tail)) :
    (Files.readFilePreview limits (.ok file) value offsetValue tailValue).toOption.map visible =
        (readFilePreview conversions limits (.ok file) value offsetValue tailValue).toOption.map
          visible ↔
      limits.supportedFile < file.length ∨
        (tail = none → 0 < o → e < file.length) ∧
          (0 ∈ (window file e o tail).take sampleBytes ∨
            (Python.decode ((window file e o tail).take sampleBytes)).isSome) := by
  rcases Nat.lt_or_ge limits.supportedFile file.length with hlarge | hsize
  · refine iff_of_true ?_ (.inl hlarge)
    rw [readFilePreview_error conversions h hlarge]
    cases hread : Files.readFilePreview limits (.ok file) value offsetValue tailValue with
    | error message => rfl
    | ok preview =>
      have hle := ((readFilePreview_eq_ok h).mp hread).1
      exact absurd hlarge (Nat.not_lt.mpr hle)
  · rw [or_iff_right (Nat.not_lt.mpr hsize), readFilePreview_eq conversions h hsize,
      (readFilePreview_eq_ok h).mpr ⟨hsize, rfl⟩, ← truncated_iff h, ← content_iff file _
        (readContent file e o tail).2 o (readStart file e o tail), readContent_eq_window, and_comm]
    show some (visible _) = some (visible _) ↔ _
    rw [Option.some.injEq]
    unfold visible
    rw [Prod.mk.injEq, Prod.mk.injEq, Prod.mk.injEq, and_assoc]
    rfl

/-- Objects that are neither numbers nor empty. -/
def noConversions : Conversions where
  int _ := none
  truthy _ := true

/-- A Latin-1 text is a binary file to one and a text to the other, and from an offset on a preview of
the whole rest is truncated to one only. -/
theorem previews_differ :
    normalizeFilePreviewOptions defaultLimits (.int 512000) (.int 0) .none = .ok (512000, 0, none) ∧
      Files.readFilePreview defaultLimits (.ok [0xE9]) (.int 512000) (.int 0) .none =
        .ok ⟨none, 1, 1, false, true, 0⟩ ∧
      readFilePreview noConversions defaultLimits (.ok [0xE9]) (.int 512000) (.int 0) .none =
        .ok ⟨some "é", 1, 1, false, false, 0⟩ ∧
      normalizeFilePreviewOptions defaultLimits (.int 512000) (.int 1) .none = .ok (512000, 1, none) ∧
      Files.readFilePreview defaultLimits (.ok [97, 98]) (.int 512000) (.int 1) .none =
        .ok ⟨some "b", 2, 1, false, false, 1⟩ ∧
      readFilePreview noConversions defaultLimits (.ok [97, 98]) (.int 512000) (.int 1) .none =
        .ok ⟨some "b", 2, 1, true, false, 1⟩ := by
  decide

/-- The last lines of a text in UTF-8 are the same. -/
theorem previews_agree_tail :
    (Files.readFilePreview defaultLimits (.ok [97, 10, 98]) (.int 512000) (.int 0)
        (.int 1)).toOption.map visible =
      (readFilePreview noConversions defaultLimits (.ok [97, 10, 98]) (.int 512000) (.int 0)
        (.int 1)).toOption.map visible := by
  have haccepted : normalizeFilePreviewOptions defaultLimits (.int 512000) (.int 0) (.int 1) =
      .ok (512000, 0, some 1) := by decide
  exact (previews_agree_iff noConversions haccepted).mpr
    (.inr ⟨(fun hnone => by cases hnone), .inr (by decide)⟩)

end WebSSH.Smb
