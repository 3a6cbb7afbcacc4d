import Mathlib.Data.List.Flatten

/-!
# UTF-16

A string of JavaScript as its code units: `length` counts them and `slice` cuts between them.
-/

namespace Lib.Utf16

abbrev Units := List UInt16

def encodeChar (c : Char) : Units :=
  if c.toNat < 0x10000 then [.ofNat c.toNat]
  else
    let v := c.toNat - 0x10000
    [.ofNat (0xd800 + v / 0x400), .ofNat (0xdc00 + v % 0x400)]

def encode (s : String) : Units := s.toList.flatMap encodeChar

/-- `s.slice(-n)` for `0 < n`. -/
def sliceLast (n : Nat) (s : Units) : Units := s.drop (s.length - n)

theorem sliceLast_eq_self {n : Nat} {s : Units} (h : s.length ≤ n) : sliceLast n s = s := by
  rw [sliceLast, Nat.sub_eq_zero_of_le h, List.drop_zero]

theorem length_encodeChar_pos (c : Char) : 0 < (encodeChar c).length := by
  rw [encodeChar]
  split <;> simp

@[simp] theorem encode_empty : encode "" = [] := rfl

@[simp] theorem encode_append (s t : String) : encode (s ++ t) = encode s ++ encode t := by
  simp [encode]

theorem encode_join (l : List String) : encode (String.join l) = (l.map encode).flatten := by
  induction l with
  | nil => rfl
  | cons s l ih => rw [String.join_cons, encode_append, ih, List.map_cons, List.flatten_cons]

/-- Only the empty string has no code units. -/
theorem length_encode_pos {s : String} (h : s ≠ "") : 0 < (encode s).length := by
  cases hs : s.toList with
  | nil => exact absurd (by simpa using hs) h
  | cons c rest =>
    have := length_encodeChar_pos c
    simp only [encode, hs, List.flatMap_cons, List.length_append]
    omega

example : encodeChar '😀' = [0xd83d, 0xde00] := by decide

end Lib.Utf16
