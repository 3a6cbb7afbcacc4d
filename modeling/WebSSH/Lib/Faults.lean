import Mathlib.Logic.Basic

/-!
# Operations that may raise

A program performs operations on a state; the one at point `pt` may raise, before or after it has
taken effect, and then the state it leaves behind is part of the exception. `Outcome P E x` is the
postcondition of such a program: `P` of the state it returns with, `E` of what it raises. The rules
follow the program: one for each operation, one for sequencing and one for a loop.
-/

namespace Lib

universe u v w

/-- An exception: where it was raised, whether that operation took effect, and the state left. -/
structure Raised (π : Type u) (σ : Type v) where
  point : π
  tookEffect : Bool
  state : σ

/-- What the environment does to the operation at a point: nothing, or an exception. -/
abbrev Faults (π : Type u) := π → Option Bool

variable {π : Type u} {σ : Type v} {α : Type w}

/-- The operation at `pt`, which raises on its own unless the state is `ready` for it. -/
def perform (faults : Faults π) (pt : π) (ready : Bool) (effect : σ → σ) (s : σ) :
    Except (Raised π σ) σ :=
  if ready then
    match faults pt with
    | none => .ok (effect s)
    | some false => .error ⟨pt, false, s⟩
    | some true => .error ⟨pt, true, effect s⟩
  else .error ⟨pt, false, s⟩

/-- The postcondition of a program that may raise. -/
def Outcome (P : σ → Prop) (E : π → Bool → σ → Prop) : Except (Raised π σ) σ → Prop
  | .ok s => P s
  | .error r => E r.point r.tookEffect r.state

section
variable {P Q : σ → Prop} {E : π → Bool → σ → Prop} {x : Except (Raised π σ) σ} {s : σ}

theorem Outcome.ok (h : Outcome P E x) (hx : x = .ok s) : P s := by subst hx; exact h

theorem Outcome.error {r : Raised π σ} (h : Outcome P E x) (hx : x = .error r) :
    E r.point r.tookEffect r.state := by subst hx; exact h

theorem Outcome.mono (h : Outcome Q E x) (hPQ : ∀ s, Q s → P s) : Outcome P E x := by
  cases x with
  | ok s => exact hPQ s h
  | error r => exact h

theorem Outcome.pure (h : P s) : Outcome P E (.ok s) := h

theorem Outcome.perform {faults : Faults π} {pt : π} {ready : Bool} {effect : σ → σ}
    (hP : ready = true → P (effect s)) (hbefore : E pt false s)
    (hafter : ready = true → E pt true (effect s)) :
    Outcome P E (perform faults pt ready effect s) := by
  unfold Lib.perform
  split
  · split
    · exact hP ‹_›
    · exact hbefore
    · exact hafter ‹_›
  · exact hbefore

theorem Outcome.bind {f : σ → Except (Raised π σ) σ} (hx : Outcome Q E x)
    (hf : ∀ s, Q s → Outcome P E (f s)) : Outcome P E (x >>= f) := by
  cases x with
  | ok s => exact hf s hx
  | error r => exact hx

/-- A loop keeps an invariant of the items it has done. -/
theorem Outcome.foldlM {I : List α → σ → Prop} {f : σ → α → Except (Raised π σ) σ} {l : List α}
    (hs : I [] s)
    (hstep : ∀ done a rest s, l = done ++ a :: rest → I done s → Outcome (I (done ++ [a])) E (f s a)) :
    Outcome (I l) E (l.foldlM f s) := by
  suffices h : ∀ todo done s, l = done ++ todo → I done s → Outcome (I l) E (todo.foldlM f s) from
    h l [] s rfl hs
  intro todo
  induction todo with
  | nil =>
    intro done s hl hI
    rw [List.append_nil] at hl
    exact Outcome.pure (hl ▸ hI)
  | cons a rest ih =>
    intro done s hl hI
    rw [List.foldlM_cons]
    refine Outcome.bind (hstep done a rest s hl hI) fun s' hI' => ?_
    exact ih (done ++ [a]) s' (by rw [hl, List.append_assoc]; rfl) hI'

end
end Lib
