import Mathlib.Logic.Basic

/-!
# Python values

What a function of untyped arguments can receive, JSON documents, and what is used of `str` and
`bytes`.
-/

namespace Lib.Python

/-- An argument, by what an `isinstance` check can tell about it. -/
inductive Value
  | none
  | bool (b : Bool)
  | int (i : Int)
  | str (s : String)
  /-- An instance of any other type, with its `str()`. -/
  | other (text : String)
  deriving DecidableEq, Repr

/-- What `json.loads` returns. -/
inductive Json
  | null
  | bool (b : Bool)
  | int (i : Int)
  | float (text : String)
  | str (s : String)
  | list (items : List Json)
  | dict (items : List (String × Json))

namespace Json

/-- `document.get(key)` -/
def get (document : List (String × Json)) (key : String) : Option Json :=
  (document.find? fun item => item.1 = key).map Prod.snd

/-- `set(document) == keys` -/
def hasKeys (document : List (String × Json)) (keys : List String) : Bool :=
  (document.map Prod.fst).all (· ∈ keys) && keys.all (· ∈ document.map Prod.fst)

end Json

/-- A statement about the characters of a string is decided on the string. -/
instance (priority := 10000) decidableForallMem (l : List Char) (p : Char → Prop)
    [DecidablePred p] : Decidable (∀ c ∈ l, p c) := List.decidableBAll p l

/-- `str.isspace()` of one character. -/
def isSpace (c : Char) : Bool :=
  let n := c.toNat
  (9 ≤ n && n ≤ 13) || (28 ≤ n && n ≤ 32) || n = 0x85 || n = 0xA0 || n = 0x1680 ||
    (0x2000 ≤ n && n ≤ 0x200A) || n = 0x2028 || n = 0x2029 || n = 0x202F || n = 0x205F ||
    n = 0x3000

/-- `str.strip()` -/
def strip (s : String) : String :=
  String.ofList (((s.toList.dropWhile isSpace).reverse.dropWhile isSpace).reverse)

example : strip " \ta b\n" = "a b" := by decide

/-- `a <= b`, by code points. -/
def strLe (a b : String) : Bool :=
  !(b.toList.map Char.toNat).lex (a.toList.map Char.toNat) Nat.blt

example : strLe "x//y" "x/y" = true ∧ strLe "x/y" "x//y" = false := by decide

/-- `text.startswith(start)` -/
def startsWith (text start : String) : Bool := start.toList.isPrefixOf text.toList

/-- `text.removeprefix(start)` -/
def removePrefix (text start : String) : String :=
  if startsWith text start then String.ofList (text.toList.drop start.toList.length) else text

/-- `str.isascii()` -/
def isAscii (text : String) : Bool := text.toList.all (·.toNat < 128)

/-! ## Bytes -/

abbrev Bytes := List UInt8

/-- `text.encode('utf-8')` -/
def encode (text : String) : Bytes := text.toByteArray.data.toList

/-- `content.decode('utf-8')` -/
def decode (content : Bytes) : Option String := String.fromUTF8? ⟨content.toArray⟩

theorem decode_encode (text : String) : decode (encode text) = some text := by
  simp only [decode, encode, Array.toArray_toList]
  rw [String.fromUTF8?]
  have h : text.toByteArray.IsValidUTF8 := text.isValidUTF8
  simp [String.fromUTF8, h]

theorem encode_of_decode {content : Bytes} {text : String} (h : decode content = some text) :
    encode text = content := by
  rw [decode, String.fromUTF8?] at h
  split at h
  · cases h
    simp [encode, String.fromUTF8]
  · cases h

theorem encode_append (text text' : String) : encode (text ++ text') = encode text ++ encode text' := by
  simp [encode]

/-- What reading a file as text makes of its line ends. -/
def universalNewlines : List Char → List Char
  | '\r' :: '\n' :: rest => '\n' :: universalNewlines rest
  | '\r' :: rest => '\n' :: universalNewlines rest
  | c :: rest => c :: universalNewlines rest
  | [] => []

theorem universalNewlines_eq_self {text : List Char} (h : '\r' ∉ text) :
    universalNewlines text = text := by
  induction text with
  | nil => rfl
  | cons c rest ih =>
    obtain ⟨hc, hrest⟩ := not_or.mp (mt List.mem_cons.mpr h)
    unfold universalNewlines
    split
    · rename_i heq
      cases heq
      exact absurd rfl hc
    · rename_i heq
      cases heq
      exact absurd rfl hc
    · rename_i heq
      cases heq
      rw [ih hrest]
    · rename_i heq
      cases heq

/-- `path.read_text(encoding='utf-8')` -/
def readText (content : Bytes) : Option String :=
  (decode content).map fun text => String.ofList (universalNewlines text.toList)

theorem readText_encode {text : String} (h : '\r' ∉ text.toList) :
    readText (encode text) = some text := by
  rw [readText, decode_encode, Option.map_some, universalNewlines_eq_self h, String.ofList_toList]

end Lib.Python
