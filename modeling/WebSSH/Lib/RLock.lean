import Mathlib.Logic.Basic

/-!
# Reentrant locks

A lock is free, or held by one thread some number of times. `count` says how often a thread holds
it.
-/

namespace Lib

universe u

/-- `some (t, n)` is held by `t`, and by `n` more acquisitions of `t`. -/
def RLock (τ : Type u) : Type u := Option (τ × Nat)

namespace RLock

variable {τ : Type u} [DecidableEq τ] {l l' : RLock τ} {t u : τ}

def free : RLock τ := none

/-- `acquire()`, unless it has to wait. -/
def acquire (l : RLock τ) (t : τ) : Option (RLock τ) :=
  match l with
  | none => some (some (t, 0))
  | some (owner, n) => if owner = t then some (some (owner, n + 1)) else none

/-- `release()` by the owner. -/
def release (l : RLock τ) : RLock τ :=
  match l with
  | none => none
  | some (_, 0) => none
  | some (owner, n + 1) => some (owner, n)

def count (l : RLock τ) (t : τ) : Nat :=
  match l with
  | none => 0
  | some (owner, n) => if t = owner then n + 1 else 0

@[simp] theorem count_free (t : τ) : (free : RLock τ).count t = 0 := rfl

/-- One thread holds a lock at a time. -/
theorem eq_of_count_pos (ht : 0 < l.count t) (hu : 0 < l.count u) : t = u := by
  cases l with
  | none => cases ht
  | some held =>
    obtain ⟨owner, n⟩ := held
    simp only [count] at ht hu
    split at ht
    · split at hu
      · exact ‹t = owner›.trans ‹u = owner›.symm
      · cases hu
    · cases ht

theorem count_acquire (h : l.acquire t = some l') (u : τ) :
    l'.count u = l.count u + if u = t then 1 else 0 := by
  cases l with
  | none =>
    cases h
    simp [count]
  | some held =>
    obtain ⟨owner, n⟩ := held
    simp only [acquire] at h
    split at h
    · rename_i howner
      cases h
      subst howner
      simp only [count]
      split <;> rfl
    · cases h

theorem count_release (h : 0 < l.count t) (u : τ) :
    l.release.count u = l.count u - if u = t then 1 else 0 := by
  cases l with
  | none => cases h
  | some held =>
    obtain ⟨owner, n⟩ := held
    simp only [count] at h
    split at h
    · rename_i howner
      subst howner
      cases n with
      | zero =>
        simp only [release, count]
        split <;> rfl
      | succ n =>
        simp only [release, count]
        split <;> rfl
    · cases h

end RLock

end Lib
