import WebSSH.Lib.Program

/-!
# One call

`Wp.call` forgets what a call has met. For a script that is known, `Called` says how the call turns
out, by what the script says of it.
-/

namespace Lib

universe u

variable {σ ε α : Type u}

/-- The trace once a call was made that has had no effect. -/
def Trace.called (w : Trace σ) : Trace σ := { w with calls := w.calls + 1 }

namespace Program

variable {op : Nat → σ → Except ε (α × σ)} {script : Script ε} {w : Trace σ}

/-- The ways in which a call turns out. -/
inductive Called (op : Nat → σ → Except ε (α × σ)) (script : Script ε) (w : Trace σ) :
    Result ε α × Trace σ → Prop
  | returned (a : α) (s : σ) (hfault : (script w.calls).fault = .none)
      (hop : op (script w.calls).choice w.state = .ok (a, s)) :
      Called op script w (.ok a, w.called.to s)
  | refused (e : ε) (hfault : (script w.calls).fault = .none)
      (hop : op (script w.calls).choice w.state = .error e) :
      Called op script w (.raised e, w.called)
  | failed (tookEffect : Bool) (e : ε) (hfault : (script w.calls).fault = .raises tookEffect e)
      (hop : tookEffect = true → ∃ e, op (script w.calls).choice w.state = .error e) :
      Called op script w (.raised e, w.called)
  | lost (e : ε) (a : α) (s : σ) (hfault : (script w.calls).fault = .raises true e)
      (hop : op (script w.calls).choice w.state = .ok (a, s)) :
      Called op script w (.raised e, w.called.to s)
  | aborted (tookEffect : Bool) (hfault : (script w.calls).fault = .aborts tookEffect)
      (hop : tookEffect = true → ∃ e, op (script w.calls).choice w.state = .error e) :
      Called op script w (.aborted, w.called)
  | abandoned (a : α) (s : σ) (hfault : (script w.calls).fault = .aborts true)
      (hop : op (script w.calls).choice w.state = .ok (a, s)) :
      Called op script w (.aborted, w.called.to s)

theorem call_called (op : Nat → σ → Except ε (α × σ)) (script : Script ε) (w : Trace σ) :
    Called op script w (call op script w) := by
  unfold call
  dsimp only
  rcases hop : op (script w.calls).choice w.state with e | ⟨a, s⟩ <;>
    rcases hfault : (script w.calls).fault with _ | ⟨_ | _, e'⟩ | _ | _
  · exact .refused e hfault hop
  · exact .failed false e' hfault fun h => by cases h
  · exact .failed true e' hfault fun _ => ⟨e, hop⟩
  · exact .aborted false hfault fun h => by cases h
  · exact .aborted true hfault fun _ => ⟨e, hop⟩
  · exact .returned a s hfault hop
  · exact .failed false e' hfault fun h => by cases h
  · exact .lost e' a s hfault hop
  · exact .aborted false hfault fun h => by cases h
  · exact .abandoned a s hfault hop

end Program
end Lib
