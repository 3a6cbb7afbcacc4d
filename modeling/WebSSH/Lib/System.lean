import Mathlib.Logic.Basic

/-!
# Labelled transition systems and their runs

A system is a set of start states and a step relation whose steps carry a label. A run keeps its
labels, so that a statement may speak of the history (`Run.history`) as well as of the state
reached (`Run.invariant`).
-/

namespace Lib

universe u v

/-- The states a run may start in and the labelled steps it may take. -/
structure System (σ : Type u) (α : Type v) where
  Init : σ → Prop
  Step : σ → α → σ → Prop

namespace System

variable {σ : Type u} {α : Type v} {T : System σ α}

/-- `T.Run s as t`: the labels `as`, in order, lead from `s` to `t`. -/
inductive Run (T : System σ α) (s : σ) : List α → σ → Prop
  | refl : Run T s [] s
  | snoc {as t a u} : Run T s as t → T.Step t a u → Run T s (as ++ [a]) u

/-- A state some run reaches from a start state. -/
def Reachable (T : System σ α) (t : σ) : Prop := ∃ s as, T.Init s ∧ T.Run s as t

theorem Reachable.init {s : σ} (h : T.Init s) : T.Reachable s := ⟨s, [], h, .refl⟩

theorem Reachable.step {s t : σ} {a : α} (h : T.Reachable s) (hs : T.Step s a t) :
    T.Reachable t :=
  let ⟨s₀, as, h₀, hr⟩ := h
  ⟨s₀, as ++ [a], h₀, hr.snoc hs⟩

theorem Run.single {s t : σ} {a : α} (h : T.Step s a t) : T.Run s [a] t := .snoc .refl h

theorem Run.trans {s t u : σ} {as bs : List α} (h₁ : T.Run s as t) (h₂ : T.Run t bs u) :
    T.Run s (as ++ bs) u := by
  induction h₂ with
  | refl => simpa using h₁
  | snoc _ hs ih => rw [← List.append_assoc]; exact ih.snoc hs

theorem Run.cons {s t u : σ} {a : α} {as : List α} (h₁ : T.Step s a t) (h₂ : T.Run t as u) :
    T.Run s (a :: as) u :=
  (Run.single h₁).trans h₂

/-- The step of a label in a run. -/
theorem Run.split {s t : σ} {as bs : List α} {a : α} (h : T.Run s (as ++ a :: bs) t) :
    ∃ x y, T.Run s as x ∧ T.Step x a y ∧ T.Run y bs t := by
  generalize hcs : as ++ a :: bs = cs at h
  induction h generalizing bs with
  | refl => exact absurd hcs (List.append_ne_nil_of_right_ne_nil as (List.cons_ne_nil a bs))
  | @snoc cs u b v hr hs ih =>
    rcases List.eq_nil_or_concat bs with rfl | ⟨bs, c, rfl⟩
    · obtain ⟨rfl, hb⟩ := List.append_inj' hcs rfl
      cases hb
      exact ⟨u, v, hr, hs, .refl⟩
    · rw [List.concat_eq_append, ← List.cons_append, ← List.append_assoc] at hcs
      obtain ⟨hinit, hb⟩ := List.append_inj' hcs rfl
      cases hb
      obtain ⟨x, y, hx, hxy, hy⟩ := ih hinit
      exact ⟨x, y, hx, hxy, List.concat_eq_append ▸ hy.snoc hs⟩

theorem Reachable.run {s t : σ} {as : List α} (h : T.Reachable s) (hr : T.Run s as t) :
    T.Reachable t :=
  let ⟨s₀, bs, h₀, hb⟩ := h
  ⟨s₀, bs ++ as, h₀, hb.trans hr⟩

/-- A property of the history and the state that every step keeps holds along the run. -/
theorem Run.history {P : List α → σ → Prop} {s t : σ} {as : List α} (h : T.Run s as t)
    (h₀ : P [] s) (hstep : ∀ bs x a y, P bs x → T.Step x a y → P (bs ++ [a]) y) : P as t := by
  induction h with
  | refl => exact h₀
  | snoc _ hs ih => exact hstep _ _ _ _ ih hs

/-- An invariant whose steps are only known to keep it for labels satisfying `Q`. -/
theorem Run.invariant_of {P : σ → Prop} {Q : α → Prop} {s t : σ} {as : List α}
    (h : T.Run s as t) (hQ : ∀ a ∈ as, Q a) (h₀ : P s)
    (hstep : ∀ x a y, Q a → P x → T.Step x a y → P y) : P t := by
  induction h with
  | refl => exact h₀
  | snoc _ hs ih =>
    exact hstep _ _ _ (hQ _ (by simp)) (ih fun b hb => hQ b (by simp [hb])) hs

theorem Run.invariant {P : σ → Prop} {s t : σ} {as : List α} (h : T.Run s as t) (h₀ : P s)
    (hstep : ∀ x a y, P x → T.Step x a y → P y) : P t :=
  h.invariant_of (Q := fun _ => True) (fun _ _ => trivial) h₀ fun x a y _ => hstep x a y

theorem Reachable.invariant {P : σ → Prop} {t : σ} (h : T.Reachable t)
    (h₀ : ∀ s, T.Init s → P s) (hstep : ∀ x a y, P x → T.Step x a y → P y) : P t :=
  let ⟨s, _, hi, hr⟩ := h
  hr.invariant (h₀ s hi) hstep

/-- The system whose steps all satisfy `Q` of the states they lead between. -/
def restrict (T : System σ α) (Q : σ → α → σ → Prop) : System σ α where
  Init := T.Init
  Step s a t := Q s a t ∧ T.Step s a t

theorem Run.of_restrict {Q : σ → α → σ → Prop} {s t : σ} {as : List α}
    (h : (T.restrict Q).Run s as t) : T.Run s as t := by
  induction h with
  | refl => exact .refl
  | snoc _ hs ih => exact ih.snoc hs.2

/-- A run whose labels satisfy `Q` wherever they are met. -/
theorem Run.restrict_labels {Q : σ → α → σ → Prop} {s t : σ} {as : List α} (h : T.Run s as t)
    (hQ : ∀ a ∈ as, ∀ x y, Q x a y) : (T.restrict Q).Run s as t := by
  induction h with
  | refl => exact .refl
  | snoc _ hs ih =>
    exact (ih fun a ha => hQ a (List.mem_append_left _ ha)).snoc
      ⟨hQ _ (List.mem_append_right _ (List.mem_singleton_self _)) _ _, hs⟩

/-- A run whose steps, along the invariant `P`, are steps of the system and satisfy `Q`. -/
theorem Run.restrict_of {U : System σ α} {P : σ → Prop} {Q : σ → α → σ → Prop} {s t : σ}
    {as : List α} (h : U.Run s as t) (h₀ : P s)
    (hstep : ∀ x a y, P x → U.Step x a y → Q x a y ∧ T.Step x a y ∧ P y) :
    (T.restrict Q).Run s as t := by
  suffices h : (T.restrict Q).Run s as t ∧ P t from h.1
  induction h with
  | refl => exact ⟨.refl, h₀⟩
  | snoc _ hs ih =>
    obtain ⟨hQ, hT, hP⟩ := hstep _ _ _ ih.2 hs
    exact ⟨ih.1.snoc ⟨hQ, hT⟩, hP⟩

/-! ## Systems of a guarded step function -/

/-- The system that starts in `init` and takes the step `next s a` whenever `guard s a`. -/
def guarded (init : σ) (guard : σ → α → Prop) (next : σ → α → σ) : System σ α where
  Init s := s = init
  Step s a t := guard s a ∧ next s a = t

/-- Every label is guarded in the state it meets when `as` is executed from `s`. -/
def Enabled (guard : σ → α → Prop) (next : σ → α → σ) : σ → List α → Prop
  | _, [] => True
  | s, a :: as => guard s a ∧ Enabled guard next (next s a) as

/-- Executing enabled labels is a run. -/
theorem run_of_enabled {init : σ} {guard : σ → α → Prop} {next : σ → α → σ} {s : σ}
    {as : List α} (h : Enabled guard next s as) :
    (guarded init guard next).Run s as (as.foldl next s) := by
  induction as generalizing s with
  | nil => exact .refl
  | cons a as ih => exact .cons ⟨h.1, rfl⟩ (ih h.2)

/-! ## Systems of a partial step function -/

/-- Executing the labels by a step function whose steps are steps of the system is a run. -/
theorem run_of_foldlM {step : σ → α → Option σ} (hT : ∀ s a t, step s a = some t → T.Step s a t)
    {s t : σ} {as : List α} (h : as.foldlM step s = some t) : T.Run s as t := by
  induction as generalizing s with
  | nil => cases h; exact .refl
  | cons a as ih =>
    obtain ⟨s₁, hs, h⟩ := Option.bind_eq_some_iff.mp h
    exact .cons (hT _ _ _ hs) (ih h)

/-! ## Systems of calls that return results -/

section
universe w
variable {β : Type w} {step : σ → α → Option (β × σ)}

/-- The system that starts in `init` and answers each call; a label is a call with its result. -/
def calls (init : σ) (step : σ → α → Option (β × σ)) : System σ (α × β) where
  Init s := s = init
  Step s e t := step s e.1 = some (e.2, t)

/-- Answer the calls one after another. -/
def answer (step : σ → α → Option (β × σ)) (s : σ) : List α → Option (List (α × β) × σ)
  | [] => some ([], s)
  | a :: as =>
    match step s a with
    | none => none
    | some (b, t) => (answer step t as).map fun (es, u) => ((a, b) :: es, u)

theorem run_of_answer {init s t : σ} {as : List α} {es : List (α × β)}
    (h : answer step s as = some (es, t)) : (calls init step).Run s es t := by
  induction as generalizing s es with
  | nil => cases h; exact .refl
  | cons a as ih =>
    simp only [answer] at h
    split at h
    · cases h
    · obtain ⟨⟨es', u⟩, hx, h⟩ := Option.map_eq_some_iff.mp h
      cases h
      exact .cons ‹_› (ih hx)

/-- Answer the calls as long as each satisfies `Q` in the state it meets. -/
def answerIf (Q : σ → α → Prop) [∀ s a, Decidable (Q s a)] (step : σ → α → Option (β × σ)) (s : σ)
    (as : List α) : Option (List (α × β) × σ) :=
  answer (fun s a => if Q s a then step s a else none) s as

theorem run_of_answerIf {Q : σ → α → Prop} [∀ s a, Decidable (Q s a)] {init s t : σ} {as : List α}
    {es : List (α × β)} (h : answerIf Q step s as = some (es, t)) :
    ((calls init step).restrict fun s e _ => Q s e.1).Run s es t := by
  have hrun : (calls init fun s a => if Q s a then step s a else none).Run s es t :=
    run_of_answer h
  clear h
  induction hrun with
  | refl => exact .refl
  | snoc _ hs ih =>
    simp only [calls] at hs
    split at hs
    · exact ih.snoc ⟨‹_›, hs⟩
    · cases hs

end

end System
end Lib
