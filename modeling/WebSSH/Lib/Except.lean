import Mathlib.Logic.Basic
import Mathlib.Data.List.Basic

/-!
# Computations that raise

Inversion lemmas for `Except`: what is known when a sequence, a check or a loop has returned.
-/

namespace Lib

universe u

variable {ε α β σ : Type u}

/-- `if condition: raise error` -/
def raiseIf (condition : Prop) [Decidable condition] (error : ε) : Except ε Unit :=
  if condition then .error error else .ok ()

theorem raiseIf_eq_ok {condition : Prop} [Decidable condition] {error : ε} {u : Unit} :
    raiseIf condition error = .ok u ↔ ¬ condition := by
  unfold raiseIf
  split <;> simp [*]

theorem bind_eq_ok {x : Except ε α} {f : α → Except ε β} {b : β} :
    (x >>= f) = .ok b ↔ ∃ a, x = .ok a ∧ f a = .ok b := by
  cases x with
  | error e => simp [bind, Except.bind]
  | ok a => simp [bind, Except.bind]

theorem forM_eq_ok {f : α → Except ε PUnit.{u + 1}} {l : List α} {v : PUnit} :
    l.forM f = .ok v ↔ ∀ a ∈ l, f a = .ok ⟨⟩ := by
  induction l with
  | nil => simp [pure, Except.pure]
  | cons a l ih =>
    rw [List.forM_eq_forM] at ih
    simp only [List.forM_eq_forM, List.forM_cons, bind_eq_ok, ih, List.forall_mem_cons,
      exists_and_right]
    exact and_congr_left fun _ => ⟨fun ⟨⟨⟩, h⟩ => h, fun h => ⟨_, h⟩⟩

theorem mapM_eq_ok {f : α → Except ε β} {l : List α} {bs : List β} (h : l.mapM f = .ok bs) :
    List.Forall₂ (fun a b => f a = .ok b) l bs := by
  induction l generalizing bs with
  | nil => cases h; exact .nil
  | cons a l ih =>
    rw [List.mapM_cons] at h
    obtain ⟨b, hb, h⟩ := bind_eq_ok.mp h
    obtain ⟨bs', hbs, h⟩ := bind_eq_ok.mp h
    cases h
    exact .cons hb (ih hbs)

theorem map_eq_of_mapM {f : α → Except ε β} {l : List α} {bs : List β} (h : l.mapM f = .ok bs) :
    l.map f = bs.map .ok := by
  have hall := mapM_eq_ok h
  clear h
  induction hall with
  | nil => rfl
  | cons hx _ ih => rw [List.map_cons, List.map_cons, hx, ih]

/-- What every element of a `mapM` returns is in the result, and nothing else is. -/
theorem mem_of_mapM {f : α → Except ε β} {l : List α} {bs : List β} (h : l.mapM f = .ok bs)
    {b : β} : b ∈ bs ↔ ∃ a ∈ l, f a = .ok b := by
  replace h := mapM_eq_ok h
  induction h with
  | nil => simp
  | cons hab _ ih => simp [ih, hab, eq_comm]

/-- Every step of a `mapM` that returned has returned. -/
theorem ok_of_mapM {f : α → Except ε β} {l : List α} {bs : List β} (h : l.mapM f = .ok bs) {a : α}
    (ha : a ∈ l) : ∃ b ∈ bs, f a = .ok b := by
  replace h := mapM_eq_ok h
  induction h with
  | nil => cases ha
  | cons hab _ ih =>
    rcases List.mem_cons.mp ha with rfl | ha
    · exact ⟨_, List.mem_cons_self, hab⟩
    · obtain ⟨b, hb, h⟩ := ih ha
      exact ⟨b, List.mem_cons_of_mem _ hb, h⟩

/-- Every step of a loop that returned has returned. -/
theorem ok_of_foldlM {f : σ → α → Except ε σ} {l : List α} {s t : σ} (h : l.foldlM f s = .ok t)
    {a : α} (ha : a ∈ l) : ∃ u v, f u a = .ok v := by
  induction l generalizing s with
  | nil => cases ha
  | cons b l ih =>
    obtain ⟨u, hu, h⟩ := bind_eq_ok.mp h
    rcases List.mem_cons.mp ha with rfl | ha
    · exact ⟨s, u, hu⟩
    · exact ih h ha

theorem foldlM_append_singleton {f : σ → α → Except ε σ} {l : List α} {a : α} {s t : σ} :
    (l ++ [a]).foldlM f s = .ok t ↔ ∃ u, l.foldlM f s = .ok u ∧ f u a = .ok t := by
  simp [List.foldlM_append, bind_eq_ok]

/-! ## Running a computation -/

/-- It returns a value that satisfies `p`. -/
def returns (x : Except ε α) (p : α → Bool) : Bool :=
  match x with
  | .ok a => p a
  | .error _ => false

/-- It raises an error that satisfies `p`. -/
def raises (x : Except ε α) (p : ε → Bool) : Bool :=
  match x with
  | .ok _ => false
  | .error e => p e

theorem exists_of_returns {x : Except ε α} {p : α → Bool} (h : returns x p = true) :
    ∃ a, x = .ok a ∧ p a = true := by
  cases x with
  | ok a => exact ⟨a, rfl, h⟩
  | error e => cases h

theorem exists_of_raises {x : Except ε α} {p : ε → Bool} (h : raises x p = true) :
    ∃ e, x = .error e ∧ p e = true := by
  cases x with
  | ok a => cases h
  | error e => exact ⟨e, rfl, h⟩

end Lib
