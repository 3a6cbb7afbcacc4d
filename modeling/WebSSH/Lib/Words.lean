import Mathlib

/-!
# Unsigned integers in bytes

Integers of a fixed width in either byte order, and the fields of a record at an offset.
-/

namespace Lib

/-- The integer whose least significant byte comes first. -/
def littleValue : List UInt8 → Nat
  | [] => 0
  | b :: rest => b.toNat + 256 * littleValue rest

/-- The least significant byte of `n` first. -/
def littleBytes : Nat → Nat → List UInt8
  | 0, _ => []
  | width + 1, n => UInt8.ofNat (n % 256) :: littleBytes width (n / 256)

theorem length_littleBytes (width n : Nat) : (littleBytes width n).length = width := by
  induction width generalizing n with
  | zero => rfl
  | succ width ih => rw [littleBytes, List.length_cons, ih]

theorem littleValue_littleBytes {width n : Nat} (h : n < 256 ^ width) :
    littleValue (littleBytes width n) = n := by
  induction width generalizing n with
  | zero =>
    rw [Nat.pow_zero, Nat.lt_one_iff] at h
    exact h.symm
  | succ width ih =>
    have hdiv : n / 256 < 256 ^ width := by
      rw [Nat.pow_succ] at h
      exact Nat.div_lt_of_lt_mul (Nat.mul_comm _ _ ▸ h)
    have hbyte : (UInt8.ofNat (n % 256)).toNat = n % 256 := by
      rw [UInt8.toNat_ofNat']
      omega
    rw [littleBytes, littleValue, ih hdiv, hbyte]
    omega

theorem littleBytes_littleValue (bytes : List UInt8) :
    littleBytes bytes.length (littleValue bytes) = bytes := by
  induction bytes with
  | nil => rfl
  | cons b rest ih =>
    have hbyte := b.toNat_lt
    have hmod : (b.toNat + 256 * littleValue rest) % 256 = b.toNat := by omega
    have hdiv : (b.toNat + 256 * littleValue rest) / 256 = littleValue rest := by omega
    rw [List.length_cons, littleValue, littleBytes, hmod, hdiv, ih, UInt8.ofNat_toNat]

theorem littleValue_lt (bytes : List UInt8) : littleValue bytes < 256 ^ bytes.length := by
  induction bytes with
  | nil => exact Nat.one_pos
  | cons b rest ih =>
    have hbyte := b.toNat_lt
    rw [littleValue, List.length_cons, Nat.pow_succ]
    omega

inductive ByteOrder
  | little
  | big
  deriving DecidableEq

namespace ByteOrder

variable (order : ByteOrder)

def value (bytes : List UInt8) : Nat :=
  match order with
  | little => littleValue bytes
  | big => littleValue bytes.reverse

def bytes (width n : Nat) : List UInt8 :=
  match order with
  | little => littleBytes width n
  | big => (littleBytes width n).reverse

@[simp] theorem length_bytes (width n : Nat) : (order.bytes width n).length = width := by
  cases order with
  | little => exact length_littleBytes width n
  | big => rw [bytes, List.length_reverse, length_littleBytes]

theorem value_bytes {width n : Nat} (h : n < 256 ^ width) :
    order.value (order.bytes width n) = n := by
  cases order with
  | little => exact littleValue_littleBytes h
  | big => rw [value, bytes, List.reverse_reverse, littleValue_littleBytes h]

theorem bytes_value (bytes : List UInt8) : order.bytes bytes.length (order.value bytes) = bytes := by
  cases order with
  | little => exact littleBytes_littleValue bytes
  | big =>
    have h := littleBytes_littleValue bytes.reverse
    rw [List.length_reverse] at h
    rw [ByteOrder.bytes, value, h, List.reverse_reverse]

theorem value_lt (bytes : List UInt8) : order.value bytes < 256 ^ bytes.length := by
  cases order with
  | little => exact littleValue_lt bytes
  | big =>
    rw [value, ← List.length_reverse]
    exact littleValue_lt bytes.reverse

/-- The integer of `width` bytes at an offset. -/
def field (data : List UInt8) (offset width : Nat) : Nat :=
  order.value ((data.drop offset).take width)

/-- A field is found behind whatever comes before it. -/
theorem field_append (before : List UInt8) {width n : Nat} (after : List UInt8)
    (h : n < 256 ^ width) :
    order.field (before ++ (order.bytes width n ++ after)) before.length width = n := by
  have htake : (order.bytes width n ++ after).take width = order.bytes width n :=
    List.take_left' (order.length_bytes width n)
  rw [field, List.drop_left, htake, order.value_bytes h]

end ByteOrder
end Lib
