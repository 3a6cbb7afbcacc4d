import WebSSH.Lib.Python
import Mathlib.Data.List.Chain

/-!
# Decoding UTF-8 with replacement

The machine behind `bytes.decode('utf-8', errors='replace')`: one replacement character stands for
each longest start of a sequence that the next byte, or the end of the input, cuts off.
-/

namespace Lib.Utf8
open Python

/-- A sequence that is not complete: the bounds of its next byte, how many bytes it needs after
that one, and the bits it has. -/
structure Pending where
  low : Nat
  high : Nat
  more : Nat
  value : Nat

def replacement : Char := '\uFFFD'

/-- The sequence that a first byte opens, if it is one of several bytes. -/
def opens (b : Nat) : Option Pending :=
  if 0xC2 ≤ b ∧ b ≤ 0xDF then some ⟨0x80, 0xBF, 0, b - 0xC0⟩
  else if 0xE0 ≤ b ∧ b ≤ 0xEF then
    some ⟨if b = 0xE0 then 0xA0 else 0x80, if b = 0xED then 0x9F else 0xBF, 1, b - 0xE0⟩
  else if 0xF0 ≤ b ∧ b ≤ 0xF4 then
    some ⟨if b = 0xF0 then 0x90 else 0x80, if b = 0xF4 then 0x8F else 0xBF, 2, b - 0xF0⟩
  else none

/-- A byte between two sequences. -/
def start (b : Nat) : List Char × Option Pending :=
  if b < 0x80 then ([Char.ofNat b], none)
  else
    match opens b with
    | some p => ([], some p)
    | none => ([replacement], none)

/-- The next byte: the characters it completes and the sequence it leaves open. -/
def step : Option Pending → Nat → List Char × Option Pending
  | none, b => start b
  | some p, b =>
    if p.low ≤ b ∧ b ≤ p.high then
      let value := p.value * 64 + (b - 0x80)
      match p.more with
      | 0 => ([Char.ofNat value], none)
      | n + 1 => ([], some ⟨0x80, 0xBF, n, value⟩)
    else (replacement :: (start b).1, (start b).2)

def decodeFrom : Option Pending → Bytes → List Char
  | none, [] => []
  | some _, [] => [replacement]
  | pending, b :: rest =>
    (step pending b.toNat).1 ++ decodeFrom (step pending b.toNat).2 rest

/-- `content.decode('utf-8', errors='replace')` -/
def decodeReplace (content : Bytes) : String := String.ofList (decodeFrom none content)

example : decodeReplace [0x61, 0xC3, 0xA9, 0xE2, 0x82, 0x62, 0xF0] = "aé\uFFFDb\uFFFD" := by decide

theorem decodeFrom_cons (pending : Option Pending) (b : UInt8) (rest : Bytes) :
    decodeFrom pending (b :: rest) =
      (step pending b.toNat).1 ++ decodeFrom (step pending b.toNat).2 rest := by
  cases pending <;> rfl

/-! ## Complete characters -/

theorem toNat_ofNat {n : Nat} (h : n < 256) : (UInt8.ofNat n).toNat = n := by
  rw [UInt8.toNat_ofNat']
  omega

/-- A byte that fits completes the last place of a sequence. -/
theorem step_last {low high value b : Nat} (hl : low ≤ b) (hh : b ≤ high) :
    step (some ⟨low, high, 0, value⟩) b = ([Char.ofNat (value * 64 + (b - 0x80))], none) := by
  simp [step, hl, hh]

theorem step_more {low high n value b : Nat} (hl : low ≤ b) (hh : b ≤ high) :
    step (some ⟨low, high, n + 1, value⟩) b =
      ([], some ⟨0x80, 0xBF, n, value * 64 + (b - 0x80)⟩) := by
  simp [step, hl, hh]

theorem step_opens {b : Nat} {p : Pending} (h : opens b = some p) : step none b = ([], some p) := by
  have hb : ¬ b < 0x80 := by
    intro hb
    simp only [opens] at h
    repeat' split at h
    all_goals first | omega | cases h
  simp [step, start, hb, h]

theorem opens_two {b : Nat} (hl : 0xC2 ≤ b) (hh : b ≤ 0xDF) :
    opens b = some ⟨0x80, 0xBF, 0, b - 0xC0⟩ := by
  rw [opens, if_pos ⟨hl, hh⟩]

theorem opens_three {b : Nat} (hl : 0xE0 ≤ b) (hh : b ≤ 0xEF) :
    opens b = some ⟨if b = 0xE0 then 0xA0 else 0x80, if b = 0xED then 0x9F else 0xBF, 1,
      b - 0xE0⟩ := by
  rw [opens, if_neg (by omega), if_pos ⟨hl, hh⟩]

theorem opens_four {b : Nat} (hl : 0xF0 ≤ b) (hh : b ≤ 0xF4) :
    opens b = some ⟨if b = 0xF0 then 0x90 else 0x80, if b = 0xF4 then 0x8F else 0xBF, 2,
      b - 0xF0⟩ := by
  rw [opens, if_neg (by omega), if_neg (by omega), if_pos ⟨hl, hh⟩]

/-- The decoder reads back what the encoder writes. -/
theorem decodeFrom_encodeChar (c : Char) (rest : Bytes) :
    decodeFrom none (String.utf8EncodeChar c ++ rest) = c :: decodeFrom none rest := by
  have hvalid : c.val.toNat < 0xD800 ∨ 0xDFFF < c.val.toNat ∧ c.val.toNat < 0x110000 := c.valid
  have hc : Char.ofNat c.val.toNat = c := c.ofNat_toNat
  generalize hv : c.val.toNat = v at hvalid hc
  unfold String.utf8EncodeChar
  simp only [hv]
  split
  · have hb : (UInt8.ofNat v).toNat = v := toNat_ofNat (by omega)
    simp only [List.cons_append, List.nil_append, decodeFrom_cons, hb]
    simp only [step, start, if_pos (by omega : v < 0x80), List.singleton_append, hc]
  split
  · have hopens := opens_two (b := v / 64 % 32 + 0xC0) (by omega) (by omega)
    simp only [List.cons_append, List.nil_append, decodeFrom_cons]
    rw [toNat_ofNat (by omega), toNat_ofNat (by omega), step_opens hopens,
      step_last (by omega) (by omega), List.nil_append, List.singleton_append]
    rw [show (v / 64 % 32 + 0xC0 - 0xC0) * 64 + (v % 0x40 + 0x80 - 0x80) = v by omega, hc]
  split
  · have hopens := opens_three (b := v / 4096 % 16 + 0xE0) (by omega) (by omega)
    simp only [List.cons_append, List.nil_append, decodeFrom_cons]
    rw [toNat_ofNat (by omega), toNat_ofNat (by omega), toNat_ofNat (by omega), step_opens hopens,
      step_more (by split <;> omega) (by split <;> omega), step_last (by omega) (by omega),
      List.nil_append, List.nil_append, List.singleton_append]
    rw [show ((v / 4096 % 16 + 0xE0 - 0xE0) * 64 + (v / 64 % 64 + 0x80 - 0x80)) * 64 +
      (v % 64 + 0x80 - 0x80) = v by omega, hc]
  · have hopens := opens_four (b := v / 262144 % 8 + 0xF0) (by omega) (by omega)
    simp only [List.cons_append, List.nil_append, decodeFrom_cons]
    rw [toNat_ofNat (by omega), toNat_ofNat (by omega), toNat_ofNat (by omega),
      toNat_ofNat (by omega), step_opens hopens, step_more (by split <;> omega)
      (by split <;> omega), step_more (by omega) (by omega), step_last (by omega) (by omega)]
    simp only [List.nil_append, List.singleton_append]
    rw [show (((v / 262144 % 8 + 0xF0 - 0xF0) * 64 + (v / 4096 % 64 + 0x80 - 0x80)) * 64 +
      (v / 64 % 64 + 0x80 - 0x80)) * 64 + (v % 64 + 0x80 - 0x80) = v by omega, hc]

theorem encode_eq (text : String) : encode text = text.toList.flatMap String.utf8EncodeChar := by
  have h : text.toList.utf8Encode = text.toByteArray := String.utf8Encode_toList
  rw [encode, ← h]
  simp [List.utf8Encode]

/-- The encoding of a list of characters. -/
def encodeChars (chars : List Char) : Bytes := chars.flatMap String.utf8EncodeChar

theorem encode_toList (text : String) : encode text = encodeChars text.toList := encode_eq text

@[simp] theorem encodeChars_append (l l' : List Char) :
    encodeChars (l ++ l') = encodeChars l ++ encodeChars l' := List.flatMap_append

@[simp] theorem encodeChars_nil : encodeChars [] = [] := rfl

theorem encodeChars_cons (c : Char) (l : List Char) :
    encodeChars (c :: l) = String.utf8EncodeChar c ++ encodeChars l := List.flatMap_cons

theorem decode_encodeChars (chars : List Char) :
    decode (encodeChars chars) = some (String.ofList chars) := by
  have h := decode_encode (String.ofList chars)
  rwa [encode_toList, String.toList_ofList] at h

theorem decodeFrom_encodeChars (chars : List Char) (rest : Bytes) :
    decodeFrom none (encodeChars chars ++ rest) = chars ++ decodeFrom none rest := by
  induction chars with
  | nil => rfl
  | cons c chars ih =>
    rw [encodeChars_cons, List.append_assoc, decodeFrom_encodeChar, ih, List.cons_append]

/-- No encoding is the beginning of another one. -/
theorem prefix_of_encodeChars {l l' : List Char} {rest : Bytes}
    (h : encodeChars l ++ rest = encodeChars l') : l <+: l' := by
  have hdecode := decodeFrom_encodeChars l' []
  rw [List.append_nil, ← h, decodeFrom_encodeChars] at hdecode
  exact ⟨decodeFrom none rest, by simpa [decodeFrom] using hdecode⟩

theorem length_utf8EncodeChar_le (c : Char) : (String.utf8EncodeChar c).length ≤ 4 := by
  rw [String.length_utf8EncodeChar]
  exact c.utf8Size_le_four

theorem length_utf8EncodeChar_pos (c : Char) : 0 < (String.utf8EncodeChar c).length := by
  rw [String.length_utf8EncodeChar]
  exact c.utf8Size_pos

/-- A text has at least as many bytes as characters. -/
theorem length_le_encodeChars (chars : List Char) : chars.length ≤ (encodeChars chars).length := by
  induction chars with
  | nil => exact Nat.le_refl 0
  | cons c rest ih =>
    have hc := length_utf8EncodeChar_pos c
    rw [encodeChars_cons, List.length_append, List.length_cons]
    omega

/-! ## Continuation bytes -/

/-- A byte that does not begin a character. -/
def Continues (b : UInt8) : Prop := 0x80 ≤ b.toNat ∧ b.toNat < 0xC0

/-- The bytes of a character: only those after the first one are continuation bytes. -/
theorem continues_utf8EncodeChar {c : Char} {i : Nat} {b : UInt8}
    (h : (String.utf8EncodeChar c)[i]? = some b) : Continues b ↔ i ≠ 0 := by
  have hvalid : c.val.toNat < 0xD800 ∨ 0xDFFF < c.val.toNat ∧ c.val.toNat < 0x110000 := c.valid
  generalize hv : c.val.toNat = v at hvalid
  have hlow (n : Nat) : Continues (UInt8.ofNat (n % 64 + 0x80)) := by
    unfold Continues
    rw [toNat_ofNat (by omega)]
    omega
  have hhigh {n : Nat} (hn : n < 256) (hout : n < 0x80 ∨ 0xC0 ≤ n) : ¬Continues (UInt8.ofNat n) := by
    unfold Continues
    rw [toNat_ofNat hn]
    omega
  have hsome {n : Nat} (h : some (UInt8.ofNat (n % 64 + 0x80)) = some b) : Continues b := by
    cases h
    exact hlow n
  have hfirst {n : Nat} (hn : n < 256) (hout : n < 0x80 ∨ 0xC0 ≤ n)
      (h : some (UInt8.ofNat n) = some b) : ¬Continues b := by
    cases h
    exact hhigh hn hout
  unfold String.utf8EncodeChar at h
  simp only [hv] at h
  split at h
  · match i, h with
    | 0, h => exact iff_of_false (hfirst (by omega) (by omega) h) (by omega)
  split at h
  · match i, h with
    | 0, h => exact iff_of_false (hfirst (by omega) (by omega) h) (by omega)
    | 1, h => exact iff_of_true (hsome h) (by omega)
  split at h
  · match i, h with
    | 0, h => exact iff_of_false (hfirst (by omega) (by omega) h) (by omega)
    | 1, h => exact iff_of_true (hsome h) (by omega)
    | 2, h => exact iff_of_true (hsome h) (by omega)
  · match i, h with
    | 0, h => exact iff_of_false (hfirst (by omega) (by omega) h) (by omega)
    | 1, h => exact iff_of_true (hsome h) (by omega)
    | 2, h => exact iff_of_true (hsome h) (by omega)
    | 3, h => exact iff_of_true (hsome h) (by omega)

theorem continues_encodeChars {pre rest : List Char} {c : Char} {k : Nat} {b : UInt8}
    (hk : k < (String.utf8EncodeChar c).length)
    (h : (encodeChars (pre ++ c :: rest))[(encodeChars pre).length + k]? = some b) :
    Continues b ↔ k ≠ 0 := by
  rw [encodeChars_append, List.getElem?_append_right (Nat.le_add_right _ _), Nat.add_sub_cancel_left,
    encodeChars_cons, List.getElem?_append_left hk] at h
  exact continues_utf8EncodeChar h

theorem decodeReplace_encode (text : String) : decodeReplace (encode text) = text := by
  have h : ∀ chars : List Char, decodeFrom none (chars.flatMap String.utf8EncodeChar) = chars := by
    intro chars
    induction chars with
    | nil => rfl
    | cons c chars ih => rw [List.flatMap_cons, decodeFrom_encodeChar, ih]
  rw [decodeReplace, encode_eq, h, String.ofList_toList]

/-! ## Bytes that stand alone -/

/-- What a byte that is cut off on both sides decodes to. -/
def byteChar (b : UInt8) : Char := if b.toNat < 0x80 then Char.ofNat b.toNat else replacement

/-- The second byte continues the sequence that the first one opens. -/
def Joins (x y : UInt8) : Prop := ∃ p, opens x.toNat = some p ∧ p.low ≤ y.toNat ∧ y.toNat ≤ p.high

theorem start_not_joined {x : UInt8} {rest : Bytes}
    (h : (x :: rest).IsChain fun x y => ¬ Joins x y) :
    (start x.toNat).1 ++ decodeFrom (start x.toNat).2 rest = (x :: rest).map byteChar := by
  induction rest generalizing x with
  | nil =>
    simp only [start, byteChar, List.map_cons, List.map_nil]
    split
    · rfl
    · split <;> rfl
  | cons y rest ih =>
    obtain ⟨hxy, hrest⟩ := List.isChain_cons_cons.mp h
    rw [List.map_cons, ← ih hrest, byteChar]
    simp only [start]
    split
    · simp [decodeFrom_cons, step, start]
    · split
      · rename_i p hp
        have hout : ¬ (p.low ≤ y.toNat ∧ y.toNat ≤ p.high) := fun hy => hxy ⟨p, hp, hy⟩
        simp [decodeFrom_cons, step, hout, start]
      · simp [decodeFrom_cons, step, start]

/-- Bytes none of which continues the one before it are decoded one by one. -/
theorem decodeFrom_not_joined {content : Bytes} (h : content.IsChain fun x y => ¬ Joins x y) :
    decodeFrom none content = content.map byteChar := by
  cases content with
  | nil => rfl
  | cons x rest => rw [decodeFrom_cons, step, start_not_joined h]

/-- Two bytes of one sequence decode to one character. -/
theorem decodeFrom_joined {x y : UInt8} (h : Joins x y) :
    (decodeFrom none [x, y]).length = 1 := by
  obtain ⟨⟨low, high, more, value⟩, hp, hl, hh⟩ := h
  rw [decodeFrom_cons, step_opens hp, decodeFrom_cons]
  cases more with
  | zero => rw [step_last hl hh]; rfl
  | succ n => rw [step_more hl hh]; rfl

end Lib.Utf8
