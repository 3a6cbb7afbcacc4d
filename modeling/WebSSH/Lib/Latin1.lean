import Mathlib
import WebSSH.Lib.Utf8

/-!
# Latin-1

`bytes.decode('latin-1')` and `str.encode('latin-1')`: the byte `b` is the character of code `b`.
-/

namespace Lib.Latin1
open Python

def char (b : UInt8) : Char := Char.ofNat b.toNat

/-- `content.decode('latin-1')` -/
def decode (content : Bytes) : String := String.ofList (content.map char)

def byte (c : Char) : Option UInt8 := if c.toNat < 256 then some (UInt8.ofNat c.toNat) else none

/-- `text.encode('latin-1')`, or none where it raises. -/
def encode (text : String) : Option Bytes := text.toList.mapM byte

theorem toNat_char (b : UInt8) : (char b).toNat = b.toNat := by
  have hb := b.toNat_lt
  have hvalid : b.toNat.isValidChar := .inl (by omega)
  simp only [char, Char.ofNat, dif_pos hvalid]
  rfl

theorem char_injective {b b' : UInt8} (h : char b = char b') : b = b' := by
  rw [← UInt8.toNat_inj, ← toNat_char, ← toNat_char, h]

theorem byte_char (b : UInt8) : byte (char b) = some b := by
  have hb := b.toNat_lt
  rw [byte, toNat_char, if_pos (by omega), UInt8.ofNat_toNat]

theorem encode_decode (content : Bytes) : encode (decode content) = some content := by
  rw [encode, decode, String.toList_ofList]
  induction content with
  | nil => rfl
  | cons b content ih =>
    rw [List.map_cons, List.mapM_cons, byte_char, ih]
    rfl

/-! ## The same text in UTF-8 -/

theorem utf8EncodeChar_char {b : UInt8} (h : b.toNat < 0x80) : String.utf8EncodeChar (char b) = [b] := by
  have hval : (char b).val.toNat = b.toNat := toNat_char b
  have hb : UInt8.ofNat b.toNat = b := UInt8.ofNat_toNat
  simp only [String.utf8EncodeChar, hval]
  rw [if_pos (by omega), hb]

/-- An ASCII byte stands for itself alone. -/
theorem eq_of_mem_utf8EncodeChar {c : Char} {b : UInt8} (hb : b.toNat < 0x80)
    (h : b ∈ String.utf8EncodeChar c) : c = char b := by
  have hc : Char.ofNat c.val.toNat = c := c.ofNat_toNat
  have hvalid : c.val.toNat < 0xD800 ∨ 0xDFFF < c.val.toNat ∧ c.val.toNat < 0x110000 := c.valid
  generalize hv : c.val.toNat = v at hc hvalid
  have hhigh {n : Nat} (hn : n < 256) (hout : 0x80 ≤ n) : b ≠ UInt8.ofNat n := by
    rintro rfl
    rw [Utf8.toNat_ofNat hn] at hb
    omega
  unfold String.utf8EncodeChar at h
  simp only [hv] at h
  split at h
  · rw [← hc, char, List.mem_singleton.mp h, Utf8.toNat_ofNat (by omega)]
  split at h
  · rcases List.mem_cons.mp h with h | h
    · exact absurd h (hhigh (by omega) (by omega))
    · exact absurd (List.mem_singleton.mp h) (hhigh (by omega) (by omega))
  split at h
  · rcases List.mem_cons.mp h with h | h
    · exact absurd h (hhigh (by omega) (by omega))
    rcases List.mem_cons.mp h with h | h
    · exact absurd h (hhigh (by omega) (by omega))
    · exact absurd (List.mem_singleton.mp h) (hhigh (by omega) (by omega))
  · rcases List.mem_cons.mp h with h | h
    · exact absurd h (hhigh (by omega) (by omega))
    rcases List.mem_cons.mp h with h | h
    · exact absurd h (hhigh (by omega) (by omega))
    rcases List.mem_cons.mp h with h | h
    · exact absurd h (hhigh (by omega) (by omega))
    · exact absurd (List.mem_singleton.mp h) (hhigh (by omega) (by omega))

theorem length_utf8EncodeChar_char {b : UInt8} (h : 0x80 ≤ b.toNat) :
    1 < (String.utf8EncodeChar (char b)).length := by
  have hval : (char b).val.toNat = b.toNat := toNat_char b
  have hb := b.toNat_lt
  simp only [String.utf8EncodeChar, hval]
  rw [if_neg (by omega), if_pos (by omega)]
  exact Nat.one_lt_two

/-- A text that the bytes would not decode to in UTF-8 is longer in it than they are. -/
theorem length_lt_encodeChars {content : Bytes} (h : Utf8.encodeChars (content.map char) ≠ content) :
    content.length < (Utf8.encodeChars (content.map char)).length := by
  have hle (l : Bytes) : l.length ≤ (Utf8.encodeChars (l.map char)).length := by
    induction l with
    | nil => exact Nat.le_refl _
    | cons b l ih =>
      have hb := Utf8.length_utf8EncodeChar_pos (char b)
      rw [List.map_cons, Utf8.encodeChars_cons, List.length_append, List.length_cons]
      omega
  induction content with
  | nil => exact absurd rfl h
  | cons b content ih =>
    rw [List.map_cons, Utf8.encodeChars_cons, List.length_append, List.length_cons]
    rcases Nat.lt_or_ge b.toNat 0x80 with hb | hb
    · have hrest := ih fun heq => h (by
        rw [List.map_cons, Utf8.encodeChars_cons, heq, utf8EncodeChar_char hb]
        rfl)
      have hpos := Utf8.length_utf8EncodeChar_pos (char b)
      omega
    · have hlong := length_utf8EncodeChar_char hb
      have hrest := hle content
      omega

end Lib.Latin1
