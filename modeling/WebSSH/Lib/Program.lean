import Mathlib.Logic.Basic
import Mathlib.Data.List.Basic

/-!
# Programs whose calls may fail

A program makes calls that change a state. A script says of each call whether it returns, or raises,
or aborts the program, before or after it has taken effect; and it chooses among the ways in which
the call may turn out. An exception can be caught, an abort (a control-flow exception, a crash) only
by what is run on every way out. `Wp x I Q R A s` is the precondition `s` of the program `x` for the
three ways out, with `I` of every state it passes through.
-/

namespace Lib

universe u

variable {σ ε α β : Type u}

inductive Fault (ε : Type u)
  | none
  | raises (tookEffect : Bool) (error : ε)
  | aborts (tookEffect : Bool)

/-- What a call meets. -/
structure Answer (ε : Type u) where
  fault : Fault ε
  choice : Nat

abbrev Script (ε : Type u) := Nat → Answer ε

inductive Result (ε α : Type u)
  | ok (a : α)
  | raised (e : ε)
  | aborted

structure Trace (σ : Type u) where
  state : σ
  /-- The states the calls have led to. -/
  visited : List σ
  /-- How many calls were made. -/
  calls : Nat

def Trace.to (w : Trace σ) (s : σ) : Trace σ := { w with state := s, visited := w.visited ++ [s] }

def Program (σ ε α : Type u) := Script ε → Trace σ → Result ε α × Trace σ

/-- The program has returned a value and a state for which `p` holds. -/
def hasReturned (run : Result ε α × Trace σ) (p : α → σ → Bool) : Bool :=
  match run with
  | (.ok a, w) => p a w.state
  | _ => false

theorem exists_of_hasReturned {run : Result ε α × Trace σ} {p : α → σ → Bool}
    (h : hasReturned run p = true) : ∃ a w, run = (.ok a, w) ∧ p a w.state = true := by
  match run, h with
  | (.ok a, w), h => exact ⟨a, w, rfl, h⟩

namespace Program

/-- A call; `op` is its effect, or the error of a call that is not accepted. -/
def call (op : Nat → σ → Except ε (α × σ)) : Program σ ε α := fun script w =>
  let answer := script w.calls
  let w := { w with calls := w.calls + 1 }
  match answer.fault, op answer.choice w.state with
  | .none, .ok (a, s) => (.ok a, w.to s)
  | .none, .error e => (.raised e, w)
  | .raises true e, .ok (_, s) => (.raised e, w.to s)
  | .raises _ e, _ => (.raised e, w)
  | .aborts true, .ok (_, s) => (.aborted, w.to s)
  | .aborts _, _ => (.aborted, w)

def raise (e : ε) : Program σ ε α := fun _ w => (.raised e, w)

protected def pure (a : α) : Program σ ε α := fun _ w => (.ok a, w)

protected def bind (x : Program σ ε α) (f : α → Program σ ε β) : Program σ ε β := fun script w =>
  match x script w with
  | (.ok a, w) => f a script w
  | (.raised e, w) => (.raised e, w)
  | (.aborted, w) => (.aborted, w)

instance : Monad (Program σ ε) where
  pure := Program.pure
  bind := Program.bind

/-- A step of the program itself, which does not fail. -/
def modify (f : σ → σ) : Program σ ε PUnit := fun _ w => (.ok ⟨⟩, w.to (f w.state))

protected def get : Program σ ε σ := fun _ w => (.ok w.state, w)

/-- `try … except Exception` -/
def attempt (x : Program σ ε α) : Program σ ε (Except ε α) := fun script w =>
  match x script w with
  | (.ok a, w) => (.ok (.ok a), w)
  | (.raised e, w) => (.ok (.error e), w)
  | (.aborted, w) => (.aborted, w)

/-- `try … except BaseException: cleanup; raise` -/
def onFailure (x : Program σ ε α) (cleanup : Program σ ε PUnit) : Program σ ε α := fun script w =>
  match x script w with
  | (.ok a, w) => (.ok a, w)
  | (.raised e, w) =>
    match cleanup script w with
    | (.ok _, w) => (.raised e, w)
    | (.raised e, w) => (.raised e, w)
    | (.aborted, w) => (.aborted, w)
  | (.aborted, w) =>
    match cleanup script w with
    | (.ok _, w) => (.aborted, w)
    | (.raised e, w) => (.raised e, w)
    | (.aborted, w) => (.aborted, w)

/-- `try … except Exception as e: handler(e)` -/
def handle (x : Program σ ε α) (handler : ε → Program σ ε α) : Program σ ε α := do
  match ← x.attempt with
  | .ok a => pure a
  | .error e => handler e

/-- A call of which it is known what it meets. -/
def meet (answer : Answer ε) (op : Nat → σ → Except ε (α × σ)) : Program σ ε α := fun _ w =>
  call op (fun _ => answer) w

/-- `try … except BaseException: return a` -/
def catchAll (x : Program σ ε α) (a : α) : Program σ ε α := fun script w =>
  match x script w with
  | (.ok a, w) => (.ok a, w)
  | (.raised _, w) => (.ok a, w)
  | (.aborted, w) => (.ok a, w)

/-- The program does not abort; it raises `e` instead. -/
def raising (x : Program σ ε α) (e : ε) : Program σ ε α := fun script w =>
  match x script w with
  | (.ok a, w) => (.ok a, w)
  | (.raised e, w) => (.raised e, w)
  | (.aborted, w) => (.raised e, w)

/-- A control-flow exception. -/
def abort : Program σ ε α := fun _ w => (.aborted, w)

/-- A call to which the state decides what it meets. -/
def react (f : σ → Result ε α × σ) : Program σ ε α := fun _ w =>
  ((f w.state).1, w.to (f w.state).2)

/-- The way out as a value. -/
def outcome (x : Program σ ε α) : Program σ ε (Result ε α) := fun script w =>
  (.ok (x script w).1, (x script w).2)

/-- `try … finally: cleanup` -/
def finallyDo (x : Program σ ε α) (cleanup : Program σ ε PUnit) : Program σ ε α := do
  let a ← x.onFailure cleanup
  cleanup
  return a

/-- `try … finally` with an effect that does not fail. -/
def andFinally (x : Program σ ε α) (f : σ → σ) : Program σ ε α := fun script w =>
  let (result, w) := x script w
  (result, w.to (f w.state))

/-! ## Preconditions -/

/-- The three ways out. -/
def Ends (I : σ → Prop) (Q : α → σ → Prop) (R : ε → σ → Prop) (A : σ → Prop) :
    Result ε α × Trace σ → Prop
  | (.ok a, w) => (∀ t ∈ w.visited, I t) ∧ Q a w.state
  | (.raised e, w) => (∀ t ∈ w.visited, I t) ∧ R e w.state
  | (.aborted, w) => (∀ t ∈ w.visited, I t) ∧ A w.state

def Wp (x : Program σ ε α) (I : σ → Prop) (Q : α → σ → Prop) (R : ε → σ → Prop) (A : σ → Prop)
    (s : σ) : Prop :=
  ∀ (script : Script ε) (w : Trace σ), w.state = s → (∀ t ∈ w.visited, I t) →
    Ends I Q R A (x script w)

theorem visited_to {I : σ → Prop} {w : Trace σ} {s : σ} (hI : ∀ t ∈ w.visited, I t) (hs : I s) :
    ∀ t ∈ (w.to s).visited, I t := by
  intro t ht
  rcases List.mem_append.mp ht with ht | ht
  · exact hI t ht
  · rw [List.mem_singleton.mp ht]
    exact hs

section
variable {I : σ → Prop} {Q : α → σ → Prop} {R E : ε → σ → Prop} {A F : σ → Prop}
  {x : Program σ ε α} {script : Script ε} {w : Trace σ}

theorem Wp.ends (h : x.Wp I Q R A w.state) (hI : ∀ t ∈ w.visited, I t) :
    Ends I Q R A (x script w) := h script w rfl hI

theorem Ends.mono {Q' : α → σ → Prop} {R' : ε → σ → Prop} {A' : σ → Prop}
    {run : Result ε α × Trace σ} (h : Ends I Q R A run) (hQ : ∀ a t, Q a t → Q' a t)
    (hR : ∀ e t, R e t → R' e t) (hA : ∀ t, A t → A' t) : Ends I Q' R' A' run := by
  match run, h with
  | (.ok a, _), h => exact ⟨h.1, hQ a _ h.2⟩
  | (.raised e, _), h => exact ⟨h.1, hR e _ h.2⟩
  | (.aborted, _), h => exact ⟨h.1, hA _ h.2⟩

/-- What holds on every way out. -/
theorem Ends.always {P : σ → Prop} {run : Result ε α × Trace σ}
    (h : Ends I (fun _ => P) (fun _ => P) P run) : P run.2.state ∧ ∀ t ∈ run.2.visited, I t := by
  match run, h with
  | (.ok _, _), h => exact ⟨h.2, h.1⟩
  | (.raised _, _), h => exact ⟨h.2, h.1⟩
  | (.aborted, _), h => exact ⟨h.2, h.1⟩

theorem Ends.bind {P : β → σ → Prop} {y : Program σ ε β} {f : β → Program σ ε α}
    (h : Ends I P R A (y script w))
    (hf : ∀ b v, y script w = (.ok b, v) → (∀ t ∈ v.visited, I t) → P b v.state →
      Ends I Q R A (f b script v)) : Ends I Q R A ((y >>= f) script w) := by
  change Ends I Q R A (Program.bind y f script w)
  unfold Program.bind
  match hrun : y script w, h with
  | (.ok b, v), h => exact hf b v hrun h.1 h.2
  | (.raised _, _), h => exact h
  | (.aborted, _), h => exact h

theorem Ends.onFailure {cleanup : Program σ ε PUnit} (h : Ends I Q E F (x script w))
    (hR : ∀ e t, E e t → cleanup.Wp I (fun _ => R e) R A t)
    (hA : ∀ t, F t → cleanup.Wp I (fun _ => A) R A t) :
    Ends I Q R A (x.onFailure cleanup script w) := by
  unfold Program.onFailure
  match x script w, h with
  | (.ok _, _), h => exact h
  | (.raised e, v), h =>
    have hcleanup := hR e _ h.2 script v rfl h.1
    dsimp only
    match cleanup script v, hcleanup with
    | (.ok _, _), hcleanup => exact hcleanup
    | (.raised _, _), hcleanup => exact hcleanup
    | (.aborted, _), hcleanup => exact hcleanup
  | (.aborted, v), h =>
    have hcleanup := hA _ h.2 script v rfl h.1
    dsimp only
    match cleanup script v, hcleanup with
    | (.ok _, _), hcleanup => exact hcleanup
    | (.raised _, _), hcleanup => exact hcleanup
    | (.aborted, _), hcleanup => exact hcleanup

theorem Ends.andFinally {f : σ → σ} (h : Ends I (fun a t => I (f t) ∧ Q a (f t))
      (fun e t => I (f t) ∧ R e (f t)) (fun t => I (f t) ∧ A (f t)) (x script w)) :
    Ends I Q R A (x.andFinally f script w) := by
  unfold Program.andFinally
  match x script w, h with
  | (.ok _, _), h => exact ⟨visited_to h.1 h.2.1, h.2.2⟩
  | (.raised _, _), h => exact ⟨visited_to h.1 h.2.1, h.2.2⟩
  | (.aborted, _), h => exact ⟨visited_to h.1 h.2.1, h.2.2⟩

theorem Ends.finallyDo {P : α → σ → Prop} {cleanup : Program σ ε PUnit}
    (h : Ends I P E F (x script w))
    (hQ : ∀ a t, P a t → cleanup.Wp I (fun _ => Q a) R A t)
    (hR : ∀ e t, E e t → cleanup.Wp I (fun _ => R e) R A t)
    (hA : ∀ t, F t → cleanup.Wp I (fun _ => A) R A t) :
    Ends I Q R A (x.finallyDo cleanup script w) := by
  refine .bind (.onFailure h hR hA) fun a v _ hI ha => ?_
  exact .bind ((hQ a v.state ha).ends hI) fun _ u _ hI hu => ⟨hI, hu⟩

end

section
variable {I : σ → Prop} {Q Q' : α → σ → Prop} {R R' : ε → σ → Prop} {A A' : σ → Prop} {s : σ}
  {x : Program σ ε α}

theorem Wp.mono (h : x.Wp I Q R A s) (hQ : ∀ a t, Q a t → Q' a t) (hR : ∀ e t, R e t → R' e t)
    (hA : ∀ t, A t → A' t) : x.Wp I Q' R' A' s :=
  fun script w hw hI => (h script w hw hI).mono hQ hR hA

theorem Wp.pure {a : α} (h : Q a s) : (Pure.pure a : Program σ ε α).Wp I Q R A s := by
  intro script w hw hI
  subst hw
  exact ⟨hI, h⟩

theorem Wp.raise {e : ε} (h : R e s) : (raise e : Program σ ε α).Wp I Q R A s := by
  intro script w hw hI
  subst hw
  exact ⟨hI, h⟩

theorem Wp.modify {Q : PUnit → σ → Prop} {f : σ → σ} (hI : I (f s)) (h : Q ⟨⟩ (f s)) :
    (modify f : Program σ ε PUnit).Wp I Q R A s := by
  intro script w hw hvisited
  subst hw
  exact ⟨visited_to hvisited hI, h⟩

theorem Wp.get {Q : σ → σ → Prop} (h : Q s s) : (Program.get : Program σ ε σ).Wp I Q R A s := by
  intro script w hw hI
  subst hw
  exact ⟨hI, h⟩

theorem Wp.bind {P : β → σ → Prop} {y : Program σ ε β} {f : β → Program σ ε α}
    (h : y.Wp I P R A s) (hf : ∀ b t, P b t → (f b).Wp I Q R A t) : (y >>= f).Wp I Q R A s :=
  fun script w hw hI => .bind (h script w hw hI) fun b v _ hI hb => hf b v.state hb script v rfl hI

theorem Wp.meet {answer : Answer ε} {op : Nat → σ → Except ε (α × σ)} (hR : ∀ e, R e s) (hA : A s)
    (h : ∀ n a t, op n s = .ok (a, t) → I t ∧ (answer.fault = .none → Q a t) ∧
      (∀ e, answer.fault = .raises true e → R e t) ∧ (answer.fault = .aborts true → A t)) :
    (meet answer op).Wp I Q R A s := by
  intro script w hw hI
  subst hw
  unfold Program.meet Program.call
  dsimp only
  split
  · rename_i hfault hop
    obtain ⟨hi, hq, -, -⟩ := h _ _ _ hop
    exact ⟨visited_to hI hi, hq hfault⟩
  · exact ⟨hI, hR _⟩
  · rename_i hfault hop
    obtain ⟨hi, -, hr, -⟩ := h _ _ _ hop
    exact ⟨visited_to hI hi, hr _ hfault⟩
  · exact ⟨hI, hR _⟩
  · rename_i hfault hop
    obtain ⟨hi, -, -, ha⟩ := h _ _ _ hop
    exact ⟨visited_to hI hi, ha hfault⟩
  · exact ⟨hI, hA⟩

/-- A call: nothing is known of it when it fails, and it has had its effect when it returns. -/
theorem Wp.call {op : Nat → σ → Except ε (α × σ)} (hR : ∀ e, R e s) (hA : A s)
    (h : ∀ n a t, op n s = .ok (a, t) → I t ∧ Q a t ∧ (∀ e, R e t) ∧ A t) :
    (call op).Wp I Q R A s := by
  intro script w hw hI
  subst hw
  unfold Program.call
  dsimp only
  split
  · rename_i hop
    obtain ⟨hi, hq, -, -⟩ := h _ _ _ hop
    exact ⟨visited_to hI hi, hq⟩
  · exact ⟨hI, hR _⟩
  · rename_i hop
    obtain ⟨hi, -, hr, -⟩ := h _ _ _ hop
    exact ⟨visited_to hI hi, hr _⟩
  · exact ⟨hI, hR _⟩
  · rename_i hop
    obtain ⟨hi, -, -, ha⟩ := h _ _ _ hop
    exact ⟨visited_to hI hi, ha⟩
  · exact ⟨hI, hA⟩

theorem Wp.attempt {Q : Except ε α → σ → Prop}
    (h : x.Wp I (fun a => Q (.ok a)) (fun e => Q (.error e)) A s) :
    x.attempt.Wp I Q R A s := by
  intro script w hw hI
  have hends := h script w hw hI
  unfold Program.attempt
  match x script w, hends with
  | (.ok _, _), hends => exact hends
  | (.raised _, _), hends => exact hends
  | (.aborted, _), hends => exact hends

theorem Wp.handle {E : ε → σ → Prop} {handler : ε → Program σ ε α} (h : x.Wp I Q E A s)
    (hE : ∀ e t, E e t → (handler e).Wp I Q R A t) : (x.handle handler).Wp I Q R A s := by
  refine .bind (P := fun r t => match r with | .ok a => Q a t | .error e => E e t) (.attempt h) ?_
  intro r t ht
  cases r with
  | ok a => exact .pure ht
  | error e => exact hE e t ht

theorem Wp.onFailure {E : ε → σ → Prop} {F : σ → Prop} {cleanup : Program σ ε PUnit}
    (h : x.Wp I Q E F s)
    (hR : ∀ e t, E e t → cleanup.Wp I (fun _ => R e) R A t)
    (hA : ∀ t, F t → cleanup.Wp I (fun _ => A) R A t) : (x.onFailure cleanup).Wp I Q R A s :=
  fun script w hw hI => .onFailure (h script w hw hI) hR hA

theorem Wp.finallyDo {P : α → σ → Prop} {E : ε → σ → Prop} {F : σ → Prop}
    {cleanup : Program σ ε PUnit} (h : x.Wp I P E F s)
    (hQ : ∀ a t, P a t → cleanup.Wp I (fun _ => Q a) R A t)
    (hR : ∀ e t, E e t → cleanup.Wp I (fun _ => R e) R A t)
    (hA : ∀ t, F t → cleanup.Wp I (fun _ => A) R A t) : (x.finallyDo cleanup).Wp I Q R A s :=
  fun script w hw hI => .finallyDo (h script w hw hI) hQ hR hA

theorem Wp.catchAll {a : α} (h : x.Wp I Q (fun _ => Q a) (Q a) s) :
    (x.catchAll a).Wp I Q R A s := by
  intro script w hw hI
  have hends := h script w hw hI
  unfold Program.catchAll
  match x script w, hends with
  | (.ok _, _), hends => exact hends
  | (.raised _, _), hends => exact hends
  | (.aborted, _), hends => exact hends

theorem Wp.raising {e : ε} (h : x.Wp I Q R (R e) s) : (x.raising e).Wp I Q R A s := by
  intro script w hw hI
  have hends := h script w hw hI
  unfold Program.raising
  match x script w, hends with
  | (.ok _, _), hends => exact hends
  | (.raised _, _), hends => exact hends
  | (.aborted, _), hends => exact hends

theorem Wp.abort (h : A s) : (abort : Program σ ε α).Wp I Q R A s := by
  intro script w hw hI
  subst hw
  exact ⟨hI, h⟩

theorem Wp.react {f : σ → Result ε α × σ} (hI : I (f s).2)
    (hQ : ∀ a, (f s).1 = .ok a → Q a (f s).2) (hR : ∀ e, (f s).1 = .raised e → R e (f s).2)
    (hA : (f s).1 = .aborted → A (f s).2) : (react f).Wp I Q R A s := by
  intro script w hw hvisited
  subst hw
  unfold Program.react
  cases h : (f w.state).1 with
  | ok a => exact ⟨visited_to hvisited hI, hQ a h⟩
  | raised e => exact ⟨visited_to hvisited hI, hR e h⟩
  | aborted => exact ⟨visited_to hvisited hI, hA h⟩

theorem Wp.outcome {Q : Result ε α → σ → Prop}
    (h : x.Wp I (fun a => Q (.ok a)) (fun e => Q (.raised e)) (Q .aborted) s) :
    x.outcome.Wp I Q R A s := by
  intro script w hw hI
  have hends := h script w hw hI
  unfold Program.outcome
  match x script w, hends with
  | (.ok _, _), hends => exact hends
  | (.raised _, _), hends => exact hends
  | (.aborted, _), hends => exact hends

theorem Wp.andFinally {f : σ → σ} (h : x.Wp I (fun a t => I (f t) ∧ Q a (f t))
      (fun e t => I (f t) ∧ R e (f t)) (fun t => I (f t) ∧ A (f t)) s) :
    (x.andFinally f).Wp I Q R A s :=
  fun script w hw hI => .andFinally (h script w hw hI)

end

/-! ## Programs that run alike -/

/-- The programs run alike, except where the second returns into `P`. -/
def AlikeUnless (P : α → Prop) (x y : Program σ ε α) : Prop :=
  ∀ script w, x script w = y script w ∨ ∃ a v, y script w = (.ok a, v) ∧ P a

section
variable {P : α → Prop} {x y : Program σ ε α}

theorem AlikeUnless.refl : AlikeUnless P x x := fun _ _ => .inl rfl

theorem bind_apply {z : Program σ ε β} {f : β → Program σ ε α} (script : Script ε) (w : Trace σ) :
    (z >>= f) script w = match z script w with
      | (.ok b, v) => f b script v
      | (.raised e, v) => (.raised e, v)
      | (.aborted, v) => (.aborted, v) := rfl

theorem get_bind {f : σ → Program σ ε α} (script : Script ε) (w : Trace σ) :
    (Program.get >>= f) script w = f w.state script w := rfl

theorem attempt_bind {z : Program σ ε β} {f : Except ε β → Program σ ε α} (script : Script ε)
    (w : Trace σ) :
    (z.attempt >>= f) script w = match z script w with
      | (.ok b, v) => f (.ok b) script v
      | (.raised e, v) => f (.error e) script v
      | (.aborted, v) => (.aborted, v) := by
  rw [bind_apply]
  unfold Program.attempt
  match z script w with
  | (.ok _, _) => rfl
  | (.raised _, _) => rfl
  | (.aborted, _) => rfl

theorem handle_apply {handler : ε → Program σ ε α} (script : Script ε) (w : Trace σ) :
    x.handle handler script w = match x script w with
      | (.ok a, v) => (.ok a, v)
      | (.raised e, v) => handler e script v
      | (.aborted, v) => (.aborted, v) := by
  unfold Program.handle
  rw [attempt_bind]
  match x script w with
  | (.ok _, _) => rfl
  | (.raised _, _) => rfl
  | (.aborted, _) => rfl

theorem handle_bind {x : Program σ ε β} {handler : ε → Program σ ε β} {f : β → Program σ ε α}
    (script : Script ε) (w : Trace σ) :
    (x.handle handler >>= f) script w = match x script w with
      | (.ok b, v) => f b script v
      | (.raised e, v) => (handler e >>= f) script v
      | (.aborted, v) => (.aborted, v) := by
  rw [bind_apply, handle_apply]
  match x script w with
  | (.ok _, _) => rfl
  | (.raised _, _) => rfl
  | (.aborted, _) => rfl

theorem AlikeUnless.bind {z : Program σ ε β} {f g : β → Program σ ε α}
    (h : ∀ b, AlikeUnless P (f b) (g b)) : AlikeUnless P (z >>= f) (z >>= g) := by
  intro script w
  rw [bind_apply, bind_apply]
  match z script w with
  | (.ok b, v) => exact h b script v
  | (.raised _, _) => exact .inl rfl
  | (.aborted, _) => exact .inl rfl

/-- The programs go on alike, and return into `P` where they have not run alike. -/
theorem AlikeUnless.bind_of {K : β → Prop} {z z' : Program σ ε β} {f : β → Program σ ε α}
    (h : AlikeUnless K z z') (hf : ∀ b, K b → ∃ a, f b = pure a ∧ P a) :
    AlikeUnless P (z >>= f) (z' >>= f) := by
  intro script w
  rw [bind_apply, bind_apply]
  rcases h script w with h | ⟨b, v, h, hb⟩
  · rw [h]
    exact .inl rfl
  · obtain ⟨a, hpure, ha⟩ := hf b hb
    rw [h]
    dsimp only
    rw [hpure]
    exact .inr ⟨a, v, rfl, ha⟩

theorem AlikeUnless.attempt (h : AlikeUnless P x y) :
    AlikeUnless (fun r => ∃ a, r = .ok a ∧ P a) x.attempt y.attempt := by
  intro script w
  unfold Program.attempt
  rcases h script w with h | ⟨a, v, h, ha⟩
  · rw [h]
    exact .inl rfl
  · rw [h]
    exact .inr ⟨.ok a, v, rfl, a, rfl, ha⟩

theorem AlikeUnless.handle {handler : ε → Program σ ε α} (h : AlikeUnless P x y) :
    AlikeUnless P (x.handle handler) (y.handle handler) := by
  refine .bind_of h.attempt ?_
  rintro _ ⟨a, rfl, ha⟩
  exact ⟨a, rfl, ha⟩

/-- A call that nothing happens to and that is accepted returns. -/
theorem AlikeUnless.meet {answer : Answer ε} {n : Nat} {op : Nat → σ → Except ε (α × σ)}
    (h : ∀ s, ∃ a t, op n s = .ok (a, t)) :
    AlikeUnless (fun _ => True) (meet answer op) (meet ⟨.none, n⟩ op) := by
  intro script w
  obtain ⟨a, t, hop⟩ := h w.state
  refine .inr ⟨a, { w with calls := w.calls + 1 }.to t, ?_, trivial⟩
  unfold Program.meet Program.call
  dsimp only
  rw [hop]

end

/-! ## Programs that only look -/

/-- The program leaves the state as it is, and returns a value with `p`. -/
def Looks (I : σ → Prop) (p : α → Prop) (x : Program σ ε α) (s : σ) : Prop :=
  x.Wp I (fun a t => t = s ∧ p a) (fun _ t => t = s) (fun t => t = s) s

section
variable {I : σ → Prop} {p : α → Prop} {q : β → Prop} {x : Program σ ε α} {f : α → Program σ ε β} {s : σ}
  {Q : β → σ → Prop} {R : ε → σ → Prop} {A : σ → Prop}

theorem Looks.pure {a : α} (h : p a) : Looks I p (Pure.pure a : Program σ ε α) s :=
  Wp.pure ⟨rfl, h⟩

theorem Looks.raise {e : ε} : Looks I p (raise e : Program σ ε α) s := Wp.raise rfl

theorem Looks.call {op : Nat → σ → Except ε (α × σ)} (hI : I s)
    (h : ∀ n a t, op n s = .ok (a, t) → t = s ∧ p a) : Looks I p (call op) s := by
  refine Wp.call (fun _ => rfl) rfl fun n a t hop => ?_
  obtain ⟨rfl, ha⟩ := h n a t hop
  exact ⟨hI, ⟨rfl, ha⟩, fun _ => rfl, rfl⟩

/-- What a program does after it has looked. -/
theorem Looks.bind_wp (hx : Looks I p x s) (hR : ∀ e, R e s) (hA : A s)
    (hf : ∀ a, p a → (f a).Wp I Q R A s) : (x >>= f).Wp I Q R A s := by
  refine Wp.bind (P := fun a t => t = s ∧ p a) (Wp.mono hx (fun _ _ h => h) ?_ ?_) ?_
  · rintro e t rfl
    exact hR e
  · rintro t rfl
    exact hA
  · rintro a t ⟨rfl, ha⟩
    exact hf a ha

theorem Looks.bind (hx : Looks I p x s) (hf : ∀ a, p a → Looks I q (f a) s) :
    Looks I q (x >>= f) s := hx.bind_wp (fun _ => rfl) rfl hf

end

/-! ## Programs that keep a property -/

/-- Every call keeps `K`, on whatever way out. -/
def Keeps (I K : σ → Prop) (x : Program σ ε α) : Prop :=
  ∀ s, K s → x.Wp I (fun _ => K) (fun _ => K) K s

section
variable {I K : σ → Prop} {x : Program σ ε α}

theorem Keeps.pure {a : α} : Keeps I K (Pure.pure a : Program σ ε α) := fun _ h => .pure h

theorem Keeps.bind {y : Program σ ε β} {f : β → Program σ ε α} (hy : Keeps I K y)
    (hf : ∀ b, Keeps I K (f b)) : Keeps I K (y >>= f) :=
  fun s h => .bind (hy s h) fun b t ht => hf b t ht

theorem Keeps.raise {e : ε} : Keeps I K (raise e : Program σ ε α) := fun _ h => .raise h

theorem Keeps.handle {handler : ε → Program σ ε α} (hx : Keeps I K x)
    (hh : ∀ e, Keeps I K (handler e)) : Keeps I K (x.handle handler) :=
  fun s h => .handle (hx s h) fun e t ht => hh e t ht

theorem Keeps.attempt (hx : Keeps I K x) : Keeps I K x.attempt := fun s h => .attempt (hx s h)

theorem Keeps.catchAll {a : α} (hx : Keeps I K x) : Keeps I K (x.catchAll a) :=
  fun s h => .catchAll (hx s h)

theorem Keeps.call {op : Nat → σ → Except ε (α × σ)} (hI : ∀ s, K s → I s)
    (h : ∀ n s a t, K s → op n s = .ok (a, t) → K t) : Keeps I K (call op) :=
  fun s hs => .call (fun _ => hs) hs fun n a t hop =>
    have ht := h n s a t hs hop
    ⟨hI t ht, ht, fun _ => ht, ht⟩

end

/-! ## Programs whose calls have all returned -/

/-- Where it has returned, the program has made `k` calls, and they have returned. -/
def Counts (k : Nat) (x : Program σ ε α) : Prop :=
  ∀ script w a v, x script w = (.ok a, v) →
    v.calls = w.calls + k ∧ ∀ i, w.calls ≤ i → i < v.calls → (script i).fault = .none

section
variable {k l : Nat} {x : Program σ ε α}

theorem Counts.pure {a : α} : Counts 0 (Pure.pure a : Program σ ε α) := by
  intro script w b v h
  cases h
  exact ⟨rfl, fun i hi hlt => absurd hlt (Nat.not_lt.mpr hi)⟩

theorem Counts.get : Counts 0 (Program.get : Program σ ε σ) := by
  intro script w b v h
  cases h
  exact ⟨rfl, fun i hi hlt => absurd hlt (Nat.not_lt.mpr hi)⟩

theorem Counts.modify {f : σ → σ} : Counts 0 (modify f : Program σ ε PUnit) := by
  intro script w b v h
  cases h
  exact ⟨rfl, fun i hi hlt => absurd hlt (Nat.not_lt.mpr hi)⟩

theorem Counts.raise {e : ε} : Counts k (raise e : Program σ ε α) := by
  intro script w b v h
  cases h

theorem Counts.call {op : Nat → σ → Except ε (α × σ)} : Counts 1 (call op) := by
  intro script w a v h
  unfold Program.call at h
  dsimp only at h
  split at h
  · rename_i hfault _
    cases h
    refine ⟨rfl, fun i hi hlt => ?_⟩
    rw [show i = w.calls from Nat.le_antisymm (Nat.lt_succ_iff.mp hlt) hi]
    exact hfault
  all_goals cases h

theorem Counts.bind {y : Program σ ε β} {f : β → Program σ ε α} (hy : Counts k y)
    (hf : ∀ b, Counts l (f b)) : Counts (k + l) (y >>= f) := by
  intro script w a v h
  rw [bind_apply] at h
  rcases hrun : y script w with ⟨b | _ | _, u⟩
  · rw [hrun] at h
    obtain ⟨hu, hfirst⟩ := hy _ _ _ _ hrun
    obtain ⟨hv, hsecond⟩ := hf b _ _ _ _ h
    refine ⟨by omega, fun i hi hlt => ?_⟩
    rcases Nat.lt_or_ge i u.calls with hlt' | hge
    · exact hfirst i hi hlt'
    · exact hsecond i hge hlt
  all_goals
    rw [hrun] at h
    cases h

/-- The program does not return. -/
def Fails (x : Program σ ε α) : Prop := ∀ script w a v, x script w ≠ (.ok a, v)

theorem Fails.raise {e : ε} : Fails (raise e : Program σ ε α) := nofun

theorem Fails.bind {y : Program σ ε β} {f : β → Program σ ε α} (h : ∀ b, Fails (f b)) :
    Fails (y >>= f) := by
  intro script w a v hrun
  rw [bind_apply] at hrun
  rcases hy : y script w with ⟨b | _ | _, u⟩
  · rw [hy] at hrun
    exact h b _ _ _ _ hrun
  all_goals
    rw [hy] at hrun
    cases hrun

/-- A handler that does not return adds nothing. -/
theorem Counts.handle {handler : ε → Program σ ε α} (hx : Counts k x)
    (hh : ∀ e, Fails (handler e)) : Counts k (x.handle handler) := by
  intro script w a v h
  rw [handle_apply] at h
  rcases hrun : x script w with ⟨b | e | _, u⟩
  · rw [hrun] at h
    cases h
    exact hx _ _ _ _ hrun
  · rw [hrun] at h
    exact absurd h (hh e _ _ _ _)
  · rw [hrun] at h
    cases h

/-- Where the next `k` calls return, the program returns with them. -/
def Returns (k : Nat) (x : Program σ ε α) : Prop :=
  ∀ script w, (∀ i, w.calls ≤ i → i < w.calls + k → (script i).fault = .none) →
    ∃ a v, x script w = (.ok a, v) ∧ v.calls = w.calls + k

theorem Returns.get : Returns 0 (Program.get : Program σ ε σ) := fun _ _ _ => ⟨_, _, rfl, rfl⟩

theorem Returns.call {op : Nat → σ → Except ε (α × σ)} (h : ∀ n s, ∃ a t, op n s = .ok (a, t)) :
    Returns 1 (call op) := by
  intro script w hreturn
  obtain ⟨a, t, hop⟩ := h (script w.calls).choice w.state
  refine ⟨a, { w with calls := w.calls + 1 }.to t, ?_, rfl⟩
  unfold Program.call
  dsimp only
  rw [hreturn w.calls (Nat.le_refl _) (Nat.lt_succ_self _), hop]

theorem Returns.bind {y : Program σ ε β} {f : β → Program σ ε α} (hy : Returns k y)
    (hf : ∀ b, Returns l (f b)) : Returns (k + l) (y >>= f) := by
  intro script w hreturn
  obtain ⟨b, u, hrun, hu⟩ := hy script w fun i hi hlt => hreturn i hi (by omega)
  obtain ⟨a, v, hnext, hv⟩ := hf b script u fun i hi hlt => hreturn i (by omega) (by omega)
  refine ⟨a, v, ?_, by omega⟩
  rw [bind_apply, hrun]
  exact hnext

theorem Returns.handle {handler : ε → Program σ ε α} (hx : Returns k x) :
    Returns k (x.handle handler) := by
  intro script w hreturn
  obtain ⟨a, v, hrun, hv⟩ := hx script w hreturn
  exact ⟨a, v, by rw [handle_apply, hrun], hv⟩

end
/-! ## Runs of which everything is known -/

/-- From `s` the program returns `a`, and leaves `t`. -/
def Gives (x : Program σ ε α) (s : σ) (a : α) (t : σ) : Prop :=
  ∀ (script : Script ε) (w : Trace σ), w.state = s →
    (x script w).1 = .ok a ∧ (x script w).2.state = t

section
variable {x : Program σ ε α} {s t u : σ} {a : α}

theorem Gives.pure : Gives (Pure.pure a : Program σ ε α) s a s := fun _ _ hw => ⟨rfl, hw⟩

theorem Gives.react {f : σ → Result ε α × σ} (h : f s = (.ok a, t)) : Gives (react f) s a t := by
  intro script w hw
  subst hw
  exact ⟨congrArg Prod.fst h, congrArg Prod.snd h⟩

theorem Gives.bind {y : Program σ ε β} {f : β → Program σ ε α} {b : β} (hy : Gives y s b t)
    (hf : Gives (f b) t a u) : Gives (y >>= f) s a u := by
  intro script w hw
  obtain ⟨hok, hstate⟩ := hy script w hw
  have hrest := hf script (y script w).2 hstate
  rw [bind_apply]
  revert hok hrest
  cases y script w with
  | mk result v =>
    intro hok hrest
    cases hok
    exact hrest

theorem Gives.attempt (h : Gives x s a t) : Gives x.attempt s (.ok a) t := by
  intro script w hw
  have hx := h script w hw
  unfold Program.attempt
  revert hx
  cases x script w with
  | mk result v =>
    intro hx
    cases hx.1
    exact ⟨rfl, hx.2⟩

theorem Gives.attempt_react {f : σ → Result ε α × σ} {e : ε} (h : f s = (.raised e, t)) :
    Gives (Program.react f).attempt s (.error e) t := by
  intro script w hw
  subst hw
  unfold Program.attempt Program.react
  rw [h]
  exact ⟨rfl, rfl⟩

theorem Gives.finallyDo {cleanup : Program σ ε PUnit} (hx : Gives x s a t)
    (hcleanup : Gives cleanup t ⟨⟩ u) : Gives (x.finallyDo cleanup) s a u := by
  refine .bind (t := t) (fun script w hw => ?_) (.bind hcleanup .pure)
  have h := hx script w hw
  unfold Program.onFailure
  revert h
  cases x script w with
  | mk result v =>
    intro h
    cases h.1
    exact ⟨rfl, h.2⟩

end

end Program
end Lib
