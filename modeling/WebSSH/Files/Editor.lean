import WebSSH.Files.Preview
import WebSSH.Lib.Newlines

/-!
# Editing remote files

`sftp_handler.read_file_for_edit` and `write_file_text`. `digest` is SHA-256 in hexadecimal, `limit`
is `config.MAX_EDITOR_FILE_SIZE`, and `replace` is what staging the temporary file and renaming it
over the file give, nothing or the public text of the error.
-/

namespace WebSSH.Files
open Lib Lib.Python Lib.Newlines

/-- What the editor is given. -/
structure Opened (Digest : Type) where
  content : String
  size : Nat
  encoding : String
  newline : String
  revision : Digest
  deriving DecidableEq

/-- `FileWriteOutcome` -/
structure FileWriteOutcome (Digest : Type) where
  success : Bool
  error : Option String
  code : Option String
  revision : Option Digest
  deriving DecidableEq

variable {Digest : Type} (limit : Nat) (digest : Bytes → Digest)

def megabytes (size : Nat) : Nat := size / (1024 * 1024)

def tooLargeToEdit (size maxBytes : Nat) : String :=
  s!"File too large to edit ({megabytes size}MB). Maximum: {megabytes maxBytes}MB"

/-- The byte `\r`. -/
def cr : UInt8 := 13

def crlfToLf (text : String) : String := String.ofList (collapse '\r' '\n' text.toList)

def lfToCrlf (text : String) : String := String.ofList (expand '\r' '\n' text.toList)

def readFileForEdit (maxBytes : Option Nat) (opened : Except String Bytes) :
    Except String (Opened Digest) := do
  let maxBytes := maxBytes.getD limit
  let file ← opened
  raiseIf (maxBytes < file.length) (tooLargeToEdit file.length maxBytes)
  let raw := file.take (maxBytes + 1)
  raiseIf (maxBytes < raw.length) (tooLargeToEdit raw.length maxBytes)
  raiseIf (0 ∈ raw.take sampleBytes) "Binary file cannot be edited"
  let (text, encoding) := match decode raw with
    | some text => (text, "utf-8")
    | none => (Latin1.decode raw, "latin-1")
  let newline := if hasPair cr lf raw then "crlf" else "lf"
  return {
    content := crlfToLf text
    size := file.length
    encoding
    newline
    revision := digest raw }

/-- `text.encode(encoding)`, UTF-8 for another encoding and for what Latin-1 does not have. -/
def encodeAs (text encoding : String) : Bytes :=
  if encoding = "latin-1" then (Latin1.encode text).getD (encode text) else encode text

/-- The text that is saved. -/
def savedText (content newline : String) : String :=
  let text := crlfToLf content
  if newline = "crlf" then lfToCrlf text else text

/-- The outcome, and the file afterwards. -/
def writeFileText [DecidableEq Digest] (replace : Except String Unit) (opened : Except String Bytes)
    (content encoding newline : String) (expectedRevision : Option Digest) :
    FileWriteOutcome Digest × Except String Bytes :=
  let data := encodeAs (savedText content newline) encoding
  match opened with
  | .error e => (⟨false, some e, none, none⟩, opened)
  | .ok file =>
    if limit < file.length then (⟨false, some "File too large to edit", none, none⟩, opened)
    else
      let original := file.take (limit + 1)
      if limit < original.length then (⟨false, some "File too large to edit", none, none⟩, opened)
      else if expectedRevision ≠ some (digest original) then
        (⟨false, some "The file changed on the server. Reopen it before saving.",
          some "EDIT_CONFLICT", none⟩, opened)
      else
        match replace with
        | .error e => (⟨false, some e, none, none⟩, opened)
        | .ok () => (⟨true, none, none, some (digest data)⟩, .ok data)

/-! ## What is saved unedited -/

variable {limit digest} {raw : Bytes} {opened : Opened Digest} {maxBytes : Option Nat}

theorem latin1_keeps : Keeps cr lf '\r' '\n' fun b => [Latin1.char b] where
  apply_cr := rfl
  apply_lf := rfl
  nonempty _ := List.cons_ne_nil _ _
  cr_only _ h := Latin1.char_injective (List.mem_singleton.mp h).symm
  lf_only _ h := Latin1.char_injective (List.mem_singleton.mp h).symm

theorem utf8_keeps : Keeps '\r' '\n' cr lf String.utf8EncodeChar where
  apply_cr := by decide
  apply_lf := by decide
  nonempty c := List.length_pos_iff.mp (Utf8.length_utf8EncodeChar_pos c)
  cr_only c h := Latin1.eq_of_mem_utf8EncodeChar (by decide) h
  lf_only c h := Latin1.eq_of_mem_utf8EncodeChar (by decide) h

/-- The bytes that are saved where nothing is edited. -/
def savedBytes (raw : Bytes) : Bytes :=
  let bytes := collapse cr lf (collapse cr lf raw)
  if hasPair cr lf raw then expand cr lf bytes else bytes

theorem cr_ne_lf : cr ≠ lf := by decide

theorem encode_savedText_utf8 {text : String} (h : decode raw = some text) :
    encode (savedText (crlfToLf text) (if hasPair cr lf raw then "crlf" else "lf")) = savedBytes raw := by
  have hraw : text.toList.flatMap String.utf8EncodeChar = raw := by
    rw [← Utf8.encode_eq, encode_of_decode h]
  have hcollapse := utf8_keeps.collapse_flatMap (by decide) text.toList
  have hagain := utf8_keeps.collapse_flatMap (by decide) (collapse '\r' '\n' text.toList)
  rw [hcollapse, hraw] at hagain
  unfold savedText savedBytes
  split
  · rw [if_pos rfl, Utf8.encode_eq, crlfToLf, crlfToLf, lfToCrlf, String.toList_ofList,
      String.toList_ofList, String.toList_ofList, utf8_keeps.expand_flatMap, hagain]
  · rw [if_neg (by decide), Utf8.encode_eq, crlfToLf, crlfToLf, String.toList_ofList,
      String.toList_ofList, hagain]

theorem savedText_latin1 (raw : Bytes) :
    savedText (crlfToLf (Latin1.decode raw)) (if hasPair cr lf raw then "crlf" else "lf") =
      Latin1.decode (savedBytes raw) := by
  have hmap (bytes : Bytes) : bytes.map Latin1.char = bytes.flatMap fun b => [Latin1.char b] :=
    List.map_eq_flatMap
  have hcollapse (bytes : Bytes) := latin1_keeps.collapse_flatMap cr_ne_lf bytes
  unfold savedText savedBytes
  split
  · rw [if_pos rfl, crlfToLf, crlfToLf, lfToCrlf, Latin1.decode, Latin1.decode, String.toList_ofList,
      String.toList_ofList, String.toList_ofList, hmap, hmap, latin1_keeps.expand_flatMap,
      hcollapse, hcollapse]
  · rw [if_neg (by decide), crlfToLf, crlfToLf, Latin1.decode, Latin1.decode, String.toList_ofList,
      String.toList_ofList, hmap, hmap, hcollapse, hcollapse]

/-- Whether it decodes as UTF-8 or as Latin-1, a file that is not edited is saved as its collapsed
and expanded bytes. -/
theorem encodeAs_savedText (h : readFileForEdit limit digest maxBytes (.ok raw) = .ok opened) :
    encodeAs (savedText opened.content opened.newline) opened.encoding = savedBytes raw ∧
      opened.revision = digest raw := by
  unfold readFileForEdit at h
  obtain ⟨_, ⟨⟩, h⟩ := bind_eq_ok.mp h
  obtain ⟨_, hsize, h⟩ := bind_eq_ok.mp h
  obtain ⟨_, -, h⟩ := bind_eq_ok.mp h
  obtain ⟨_, -, h⟩ := bind_eq_ok.mp h
  have hraw : raw.take (maxBytes.getD limit + 1) = raw :=
    List.take_of_length_le (Nat.le_succ_of_le (Nat.le_of_not_lt (raiseIf_eq_ok.mp hsize)))
  rw [hraw] at h
  cases hdecode : decode raw with
  | some text =>
    rw [hdecode] at h
    cases h
    have hutf8 : ¬ "utf-8" = "latin-1" := by decide
    exact ⟨(if_neg hutf8).trans (encode_savedText_utf8 hdecode), rfl⟩
  | none =>
    rw [hdecode] at h
    cases h
    refine ⟨(if_pos rfl).trans ?_, rfl⟩
    rw [savedText_latin1, Latin1.encode_decode]
    rfl

/-- Each newline of the bytes has exactly one return before it, or none has one. -/
def Uniform (raw : Bytes) : Prop := hasPair cr lf raw = false ∨ Paired cr lf 0 raw

theorem savedBytes_eq_self_iff (raw : Bytes) : savedBytes raw = raw ↔ Uniform raw := by
  unfold savedBytes Uniform
  dsimp only
  cases h : hasPair cr lf raw with
  | true =>
    rw [if_pos rfl, or_iff_right fun htrue => nomatch htrue]
    exact expand_collapse_iff cr_ne_lf 0 raw
  | false =>
    rw [if_neg Bool.false_ne_true, collapse_eq_self h, collapse_eq_self h]
    exact iff_of_true rfl (.inl rfl)

/-- The outcome of a save without an edit, and the file afterwards. -/
def saveUnedited [DecidableEq Digest] (limit : Nat) (digest : Bytes → Digest)
    (replace : Except String Unit) (raw : Bytes) (opened : Opened Digest) :
    FileWriteOutcome Digest × Except String Bytes :=
  writeFileText limit digest replace (.ok raw) opened.content opened.encoding opened.newline
    (some opened.revision)

/-- A save without an edit gives the file back where the server can replace it, the editor's own
limit admits it and its newlines are uniform. -/
theorem writeFileText_unedited_iff [DecidableEq Digest] {replace : Except String Unit}
    (h : readFileForEdit limit digest maxBytes (.ok raw) = .ok opened) :
    (saveUnedited limit digest replace raw opened).1.success = true ∧
        (saveUnedited limit digest replace raw opened).2 = .ok raw ↔
      raw.length ≤ limit ∧ replace = .ok () ∧ Uniform raw := by
  obtain ⟨hdata, hrevision⟩ := encodeAs_savedText h
  unfold saveUnedited writeFileText
  rw [hdata, hrevision, ← savedBytes_eq_self_iff]
  dsimp only
  split
  · rename_i hlarge
    exact iff_of_false (fun hsaved => Bool.false_ne_true hsaved.1) fun hsmall => by omega
  · rename_i hsize
    have hsize := Nat.le_of_not_lt hsize
    rw [List.take_of_length_le (Nat.le_succ_of_le hsize), if_neg (Nat.not_lt.mpr hsize),
      if_neg (not_not.mpr rfl)]
    cases replace with
    | error e =>
      exact iff_of_false (fun hsaved => Bool.false_ne_true hsaved.1) fun hok => nomatch hok.2.1
    | ok =>
      exact ⟨fun hsaved => ⟨hsize, rfl, Except.ok.inj hsaved.2⟩,
        fun hok => ⟨rfl, congrArg Except.ok hok.2.2⟩⟩

/-- A file with newlines of both styles is saved with one. -/
theorem mixedNewlines_rewritten :
    readFileForEdit 5242880 id none (.ok [97, 13, 10, 98, 10]) =
        .ok ⟨"a\nb\n", 5, "utf-8", "crlf", [97, 13, 10, 98, 10]⟩ ∧
      saveUnedited 5242880 id (.ok ()) [97, 13, 10, 98, 10]
          ⟨"a\nb\n", 5, "utf-8", "crlf", [97, 13, 10, 98, 10]⟩ =
        (⟨true, none, none, some [97, 13, 10, 98, 13, 10]⟩, .ok [97, 13, 10, 98, 13, 10]) ∧
      ([97, 13, 10, 98, 13, 10] : Bytes) ≠ [97, 13, 10, 98, 10] := by
  decide

/-- A file of one style is not changed. -/
theorem writeFileText_unedited_crlf :
    (saveUnedited 5242880 id (.ok ()) [97, 13, 10] ⟨"a\n", 3, "utf-8", "crlf", [97, 13, 10]⟩).1.success =
        true ∧
      (saveUnedited 5242880 id (.ok ()) [97, 13, 10] ⟨"a\n", 3, "utf-8", "crlf", [97, 13, 10]⟩).2 =
        .ok [97, 13, 10] := by
  have hopened : readFileForEdit 5242880 id none (.ok [97, 13, 10]) =
      .ok ⟨"a\n", 3, "utf-8", "crlf", [97, 13, 10]⟩ := by decide
  exact (writeFileText_unedited_iff hopened).mpr
    ⟨by decide, rfl, .inr ⟨by decide, by decide, trivial⟩⟩

end WebSSH.Files
