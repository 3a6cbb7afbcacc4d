import Mathlib.Algebra.Order.Field.Basic
import Mathlib.Tactic.Linarith

/-!
# Token buckets

A bucket is refilled at a rate, up to its capacity, by the time since it was last used. While it is
not used before that time, what has been taken is bounded by the capacity and the time.
-/

namespace Lib

universe u

structure TokenBucket (K : Type u) where
  tokens : K
  updatedAt : K
  deriving DecidableEq

namespace TokenBucket

variable {K : Type u} [Field K] [LinearOrder K] [IsStrictOrderedRing K]

/-- A bucket at `now`; a new one is full. -/
def refill (capacity rate now : K) : Option (TokenBucket K) → TokenBucket K
  | none => ⟨capacity, now⟩
  | some b => ⟨min capacity (b.tokens + max 0 (now - b.updatedAt) * rate), now⟩

def take (n : K) (b : TokenBucket K) : TokenBucket K := { b with tokens := b.tokens - n }

/-- What has been taken since `first`. -/
structure Accounts (capacity rate first spent : K) (b : TokenBucket K) : Prop where
  nonneg : 0 ≤ b.tokens
  started : first ≤ b.updatedAt
  bounded : spent + b.tokens ≤ capacity + rate * (b.updatedAt - first)

variable {capacity rate first spent now : K} {b : TokenBucket K}

/-- The bucket is full at `now`, and stays so. -/
def FullAt (capacity rate now : K) (b : TokenBucket K) : Prop :=
  0 ≤ rate ∧ b.updatedAt ≤ now ∧ capacity ≤ b.tokens + (now - b.updatedAt) * rate

omit [IsStrictOrderedRing K] in
@[simp] theorem refill_updatedAt (o : Option (TokenBucket K)) :
    (refill capacity rate now o).updatedAt = now := by
  cases o <;> rfl

theorem Accounts.new (h : 0 ≤ capacity) : Accounts capacity rate now 0 (refill capacity rate now none) where
  nonneg := h
  started := le_refl now
  bounded := by
    simp only [refill]
    linarith

/-- The bucket is used at a time that is not before the last one. -/
theorem Accounts.refill (H : Accounts capacity rate first spent b) (hcapacity : 0 ≤ capacity)
    (hrate : 0 ≤ rate) (h : b.updatedAt ≤ now) :
    Accounts capacity rate first spent (TokenBucket.refill capacity rate now (some b)) where
  nonneg := le_min hcapacity
    (add_nonneg H.nonneg (mul_nonneg (le_max_left _ _) hrate))
  started := H.started.trans h
  bounded := by
    have hmin := min_le_right capacity (b.tokens + max 0 (now - b.updatedAt) * rate)
    rw [max_eq_right (sub_nonneg.mpr h)] at hmin
    have hbounded := H.bounded
    simp only [TokenBucket.refill]
    rw [max_eq_right (sub_nonneg.mpr h)]
    nlinarith

theorem Accounts.take (H : Accounts capacity rate first spent b) {n : K} (h : n ≤ b.tokens) :
    Accounts capacity rate first (spent + n) (b.take n) where
  nonneg := sub_nonneg.mpr h
  started := H.started
  bounded := by
    have hbounded := H.bounded
    simp only [TokenBucket.take]
    linarith

theorem Accounts.spent_le (H : Accounts capacity rate first spent b) :
    spent ≤ capacity + rate * (b.updatedAt - first) := by
  have hbounded := H.bounded
  have hnonneg := H.nonneg
  linarith

/-- A bucket that is removed when it would be full twice over can be replaced by a new one. -/
theorem Accounts.replace (H : Accounts capacity rate first spent b)
    (h : 2 * capacity ≤ (now - b.updatedAt) * rate) (hcapacity : 0 ≤ capacity) :
    spent ≤ rate * (now - first) := by
  have hspent := H.spent_le
  nlinarith

/-- A new bucket in the place of one that was full. -/
theorem Accounts.renew (hspent : spent ≤ rate * (now - first)) (hcapacity : 0 ≤ capacity)
    (h : first ≤ now) : Accounts capacity rate first spent (TokenBucket.refill capacity rate now none) where
  nonneg := hcapacity
  started := h
  bounded := by
    simp only [TokenBucket.refill]
    linarith

theorem FullAt.mono {later : K} (H : FullAt capacity rate now b) (h : now ≤ later) :
    FullAt capacity rate later b := by
  obtain ⟨hrate, hstarted, hfull⟩ := H
  exact ⟨hrate, hstarted.trans h, by nlinarith⟩

/-- It makes no difference whether a full bucket is kept. -/
theorem FullAt.refill (H : FullAt capacity rate now b) :
    TokenBucket.refill capacity rate now (some b) = TokenBucket.refill capacity rate now none := by
  obtain ⟨-, hstarted, hfull⟩ := H
  simp only [TokenBucket.refill]
  rw [max_eq_right (sub_nonneg.mpr hstarted), min_eq_left hfull]

end TokenBucket
end Lib
