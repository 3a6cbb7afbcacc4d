import WebSSH.Attempt.Model
import WebSSH.Lib.Pending

/-!
# Who closes the resources of an attempt

`Attempt.OK` follows the resources that were passed to `own` to the place where each of them is:
among the attempt's resources, handed off, closed, or in a call that is going to close it. Every
method keeps it, and the registry only adds that a finished attempt does not come back.
-/

namespace WebSSH.SSHAttempt
open Lib

section
variable {R : Type} [DecidableEq R]

/-- The resources a call is going to close. -/
def Call.resources : Call R → List R
  | .rejected resource => [resource]
  | .closing resources _ => resources
  | .finishing _ | .releasing _ | .unregistering => []

def Call.isReleasing : Call R → Bool
  | .releasing _ => true
  | .rejected _ | .closing _ _ | .finishing _ | .unregistering => false

/-- The call is one of `finish`, after its `cancel`. -/
def Call.cancels : Call R → Bool
  | .closing _ finish => finish.isSome
  | .finishing _ => true
  | .rejected _ | .releasing _ | .unregistering => false

/-- How often the reservation has been or is being released. -/
def due : Phase → Bool → Nat
  | .finished, true => 1
  | _, _ => 0

theorem due_of_ne {state : Phase} {reservation : Bool} (h : state ≠ .finished) :
    due state reservation = 0 := by
  cases state with
  | finished => exact absurd rfl h
  | pending | committed | cancelled => rfl

namespace Attempt
variable {a a' : Attempt R}

/-- How often `resource` is somewhere. -/
def places (a : Attempt R) (resource : R) : Nat :=
  a.resources.count resource + a.handedOff.count resource + a.closed.count resource +
    (a.calls.flatMap Call.resources).count resource

structure OK (a : Attempt R) : Prop where
  places_le : ∀ r, a.places r ≤ a.passed.count r
  covered : ∀ r ∈ a.passed, 0 < a.places r
  emptied : a.cancelEvent = true → a.resources = []
  finishing : ∀ call ∈ a.calls, call.cancels = true → a.cancelEvent = true
  finished : a.state = .finished → a.cancelEvent = true
  committed : a.committedOnce = true → a.state = .committed ∨ a.state = .finished
  released : a.releases + a.calls.countP Call.isReleasing = due a.state a.reservation

theorem OK.new (key : Key) (reservation : Bool) (deadline : Option Nat) :
    (State.newAttempt key reservation deadline : Attempt R).OK where
  places_le _ := Nat.le_refl 0
  covered _ h := by cases h
  emptied h := by cases h
  finishing _ h := by cases h
  finished h := by cases h
  committed h := by cases h
  released := rfl

theorem OK.runtime (H : a.OK) (runtimeCancel : Option Bool) :
    OK { a with runtimeCancel := runtimeCancel } :=
  ⟨H.places_le, H.covered, H.emptied, H.finishing, H.finished, H.committed, H.released⟩

omit [DecidableEq R] in
theorem cancelEvent_of_not_isSet {now : Nat} {refused : Bool} (h : a.isSet now refused = false) :
    a.cancelEvent = false ∧ a.state ≠ .finished ∧ a.runtimeCancel ≠ some true := by
  simp only [isSet, Bool.or_eq_false_iff, decide_eq_false_iff_not] at h
  exact ⟨h.1.1.1.1, h.1.1.1.2, h.1.1.2⟩

theorem OK.commitIfActive (H : a.OK) (now : Nat) (refused : Bool) :
    (a.commitIfActive now refused).2.OK := by
  rw [Attempt.commitIfActive]
  split
  · exact H
  · rename_i h
    have hlive := cancelEvent_of_not_isSet (by simpa using h)
    refine ⟨H.places_le, H.covered, H.emptied, H.finishing, nofun, fun _ => .inl rfl, ?_⟩
    have hreleased := H.released
    rw [due_of_ne hlive.2.1] at hreleased
    exact hreleased

/-- Passing a resource adds one place, or none if it is among the resources already. -/
theorem OK.own (H : a.OK) (now : Nat) (refused : Bool) (resource : R) :
    (a.own now refused resource).2.OK := by
  rw [Attempt.own]
  split
  · refine ⟨fun r => ?_, fun r hr => ?_, H.emptied, fun call hcall hc => ?_, H.finished,
      H.committed, ?_⟩
    · have := H.places_le r
      simp only [places, List.flatMap_append, List.count_append] at this ⊢
      simp only [List.flatMap_cons, List.flatMap_nil, List.append_nil, Call.resources]
      omega
    · simp only [places, List.flatMap_append, List.count_append]
      simp only [List.flatMap_cons, List.flatMap_nil, List.append_nil, Call.resources]
      rcases List.mem_append.mp hr with hr | hr
      · have := H.covered r hr
        simp only [places] at this
        omega
      · have : 0 < [resource].count r := List.count_pos_iff.mpr hr
        omega
    · rcases List.mem_append.mp hcall with hcall | hcall
      · exact H.finishing call hcall hc
      · rw [List.mem_singleton.mp hcall] at hc
        cases hc
    · have := H.released
      simpa [List.countP_append, Call.isReleasing] using this
  · rename_i h
    have hlive := cancelEvent_of_not_isSet (by simpa using h)
    have hcount : ∀ r, (if resource ∈ a.resources then a.resources
        else a.resources ++ [resource]).count r ≤ a.resources.count r + [resource].count r ∧
        a.resources.count r ≤ (if resource ∈ a.resources then a.resources
          else a.resources ++ [resource]).count r ∧
        (r = resource → 0 < (if resource ∈ a.resources then a.resources
          else a.resources ++ [resource]).count r) := by
      intro r
      split
      · rename_i hmem
        refine ⟨by omega, Nat.le_refl _, ?_⟩
        rintro rfl
        exact List.count_pos_iff.mpr hmem
      · rw [List.count_append]
        refine ⟨Nat.le_refl _, by omega, ?_⟩
        rintro rfl
        simp
    refine ⟨fun r => ?_, fun r hr => ?_, fun hc => ?_, H.finishing, H.finished, H.committed,
      H.released⟩
    · have := H.places_le r
      have := (hcount r).1
      simp only [places, List.count_append] at *
      omega
    · have hle := (hcount r).2.1
      have hpos := (hcount r).2.2
      simp only [places]
      rcases List.mem_append.mp hr with hr | hr
      · have := H.covered r hr
        simp only [places] at this
        omega
      · have := hpos (List.mem_singleton.mp hr)
        omega
    · rw [show a.cancelEvent = true from hc] at hlive
      cases hlive.1

theorem OK.handoffOne (H : a.OK) (resource : R) : (a.handoffOne resource).OK := by
  rw [Attempt.handoffOne]
  split
  · rename_i hmem
    have hcount : ∀ r, (a.resources.erase resource).count r + (a.handedOff ++ [resource]).count r =
        a.resources.count r + a.handedOff.count r := by
      intro r
      have hpos := List.count_pos_iff.mpr hmem
      rw [List.count_append, List.count_erase, List.count_singleton]
      split
      · rename_i heq
        rw [beq_iff_eq] at heq
        subst heq
        omega
      · omega
    refine ⟨fun r => ?_, fun r hr => ?_, fun hc => ?_, H.finishing, H.finished, H.committed,
      H.released⟩
    · have := H.places_le r
      have := hcount r
      simp only [places] at *
      omega
    · have := H.covered r hr
      have := hcount r
      simp only [places] at *
      omega
    · rw [H.emptied hc] at hmem
      cases hmem
  · exact H

theorem OK.handoff (H : a.OK) (now : Nat) (refused : Bool) (resources : List R) :
    (a.handoff now refused resources).2.OK := by
  have hfold : ∀ a : Attempt R, a.OK → (resources.foldl Attempt.handoffOne a).OK := by
    induction resources with
    | nil => exact fun _ H => H
    | cons r rest ih => exact fun a H => ih _ (H.handoffOne r)
  rw [Attempt.handoff]
  split
  · exact H
  · exact hfold a H

/-- The resources move from the attempt to the call that closes them. -/
theorem OK.cancel (H : a.OK) {reason : String} {finish : Option Caller}
    (hfinish : finish = none ∨ reason ∈ runtimeReasons) : (a.cancel reason finish).2.OK := by
  rw [Attempt.cancel.eq_def]
  split
  · rename_i hdone
    cases finish with
    | none => exact H
    | some caller =>
      have hstate : a.state = .finished :=
        hdone.resolve_left fun h => h.2 (hfinish.resolve_left nofun)
      refine ⟨fun r => ?_, fun r hr => ?_, H.emptied, fun call hcall hc => ?_, H.finished,
        H.committed, ?_⟩
      · simpa [places, Call.resources] using H.places_le r
      · simpa [places, Call.resources] using H.covered r hr
      · exact H.finished hstate
      · simpa [List.countP_append, Call.isReleasing] using H.released
  · rename_i hlive
    have hne : a.state ≠ .finished := fun h => hlive (.inr h)
    have hplaces : ∀ r, ([] : List R).count r + a.handedOff.count r + a.closed.count r +
        ((a.calls ++ [Call.closing a.resources.reverse finish]).flatMap Call.resources).count r =
        a.places r := by
      intro r
      simp only [places, List.flatMap_append, List.count_append, List.flatMap_cons,
        List.flatMap_nil, List.append_nil, Call.resources, List.count_reverse, List.count_nil]
      omega
    refine ⟨fun r => (hplaces r).trans_le (H.places_le r), fun r hr => ?_, fun _ => rfl,
      fun _ _ _ => rfl, fun _ => rfl, fun hc => ?_, ?_⟩
    · exact (H.covered r hr).trans_eq (hplaces r).symm
    · rcases H.committed hc with h | h
      · exact .inl (if_pos h)
      · exact absurd h hne
    · have hreleased := H.released
      have hphase : (if a.state = .committed then Phase.committed else .cancelled) ≠ .finished := by
        split <;> nofun
      rw [due_of_ne hne] at hreleased
      rw [due_of_ne hphase, List.countP_append]
      simpa [Call.isReleasing] using hreleased

/-- What the next step of a call has to keep. -/
theorem OK.advance (H : a.OK) {k : Nat} {call : Call R} (next : List (Call R))
    (hk : a.calls[k]? = some call) (hcalls : a'.calls = a.calls.eraseIdx k ++ next)
    (hpassed : a'.passed = a.passed) (hresources : a'.resources = a.resources)
    (hhandedOff : a'.handedOff = a.handedOff)
    (hclosed : ∀ r, a'.closed.count r + (next.flatMap Call.resources).count r =
      a.closed.count r + call.resources.count r)
    (hevent : a'.cancelEvent = a.cancelEvent)
    (hnext : ∀ c ∈ next, c.cancels = true → a.cancelEvent = true)
    (hfinished : a'.state = .finished → a.cancelEvent = true)
    (hcommitted : a'.committedOnce = true → a'.state = .committed ∨ a'.state = .finished)
    (hreleased : a'.releases + a.calls.countP Call.isReleasing + next.countP Call.isReleasing =
      due a'.state a'.reservation + if call.isReleasing then 1 else 0) : a'.OK := by
  have hplaces : ∀ r, a'.places r = a.places r := by
    intro r
    have hcount := Pending.count_advance next Call.resources r hk
    have := hclosed r
    simp only [places, hcalls, hresources, hhandedOff]
    omega
  refine ⟨fun r => ?_, fun r hr => ?_, ?_, fun c hc hcancels => ?_, ?_, hcommitted, ?_⟩
  · rw [hplaces, hpassed]
    exact H.places_le r
  · rw [hplaces]
    exact H.covered r (hpassed ▸ hr)
  · rw [hevent, hresources]
    exact H.emptied
  · rw [hevent]
    rw [hcalls] at hc
    rcases Pending.mem_of_advance hc with hc | hc
    · exact H.finishing c hc hcancels
    · exact hnext c hc hcancels
  · rw [hevent]
    exact hfinished
  · have hcount := Pending.countP_advance next Call.isReleasing hk
    rw [hcalls]
    omega

omit [DecidableEq R] in
theorem returning_idle (caller : Caller) :
    (returning caller : List (Call R)).flatMap Call.resources = [] ∧
    (returning caller : List (Call R)).countP Call.isReleasing = 0 ∧
    ∀ c ∈ (returning caller : List (Call R)), c.cancels = false := by
  cases caller with
  | direct => exact ⟨rfl, rfl, nofun⟩
  | registry =>
    refine ⟨rfl, rfl, fun c hc => ?_⟩
    rw [List.mem_singleton.mp hc]
    rfl

/-- The attempt after the next step of the call at `k`. -/
def resumed (a : Attempt R) (k : Nat) (call : Call R) : Attempt R :=
  { ({ a with calls := a.calls.eraseIdx k }.resume call).1 with
    calls := a.calls.eraseIdx k ++ ({ a with calls := a.calls.eraseIdx k }.resume call).2 }

theorem OK.resumed (H : a.OK) {k : Nat} {call : Call R} (hk : a.calls[k]? = some call) :
    (a.resumed k call).OK := by
  have hcancels := H.finishing call (List.mem_of_getElem? hk)
  have hreleased := H.released
  cases call with
  | rejected resource =>
    refine H.advance [] hk rfl rfl rfl rfl (fun r => ?_) rfl nofun H.finished
      H.committed ?_
    · simp [Attempt.resumed, Attempt.resume, Call.resources]
    · simpa [Attempt.resumed, Attempt.resume, Call.isReleasing] using hreleased
  | closing resources finish =>
    cases resources with
    | cons resource rest =>
      refine H.advance [.closing rest finish] hk rfl rfl rfl rfl (fun r => ?_) rfl
        (fun c hc hcc => ?_) H.finished H.committed ?_
      · simp only [Attempt.resumed, Attempt.resume, Call.resources, List.flatMap_cons,
          List.flatMap_nil, List.append_nil, List.count_append, List.count_cons, List.count_nil]
        omega
      · rw [List.mem_singleton.mp hc] at hcc
        exact hcancels hcc
      · simpa [Attempt.resumed, Attempt.resume, Call.isReleasing] using hreleased
    | nil =>
      cases finish with
      | none =>
        refine H.advance [] hk rfl rfl rfl rfl (fun r => rfl) rfl nofun H.finished
          H.committed ?_
        simpa [Attempt.resumed, Attempt.resume, Call.isReleasing] using hreleased
      | some caller =>
        refine H.advance [.finishing caller] hk rfl rfl rfl rfl (fun r => rfl) rfl
          (fun _ _ _ => hcancels rfl) H.finished H.committed ?_
        simpa [Attempt.resumed, Attempt.resume, Call.isReleasing] using hreleased
  | finishing caller =>
    obtain ⟨hres, hcount, hidle⟩ := returning_idle (R := R) caller
    by_cases hfin : a.state = .finished
    · have heq : a.resumed k (.finishing caller) =
          { a with calls := a.calls.eraseIdx k ++ returning caller } := by
        simp [Attempt.resumed, Attempt.resume, hfin]
      rw [heq]
      refine H.advance (returning caller) hk rfl rfl rfl rfl (fun r => ?_) rfl
        (fun _ _ _ => hcancels rfl) H.finished H.committed ?_
      · simp [Call.resources, hres]
      · simpa [Call.isReleasing, hcount] using hreleased
    · rw [due_of_ne hfin] at hreleased
      have hnext : ∀ next, (next : List (Call R)).flatMap Call.resources = [] →
          next.countP Call.isReleasing = due .finished a.reservation →
          OK { a with state := .finished, calls := a.calls.eraseIdx k ++ next } := by
        intro next hnone hcountP
        refine H.advance _ hk rfl rfl rfl rfl (fun r => ?_) rfl (fun _ _ _ => hcancels rfl)
          (fun _ => hcancels rfl) (fun _ => .inr rfl) ?_
        · simp [Call.resources, hnone]
        · simp only [hcountP, Call.isReleasing, Bool.false_eq_true, if_false]
          omega
      have heq : a.resumed k (.finishing caller) = { a with
          state := .finished
          calls := a.calls.eraseIdx k ++
            if a.reservation then [.releasing caller] else returning caller } := by
        simp [Attempt.resumed, Attempt.resume, hfin]
      rw [heq]
      apply hnext
      · split
        · rfl
        · exact hres
      · cases a.reservation with
        | true => rfl
        | false => exact hcount
  | releasing caller =>
    obtain ⟨hres, hcount, hidle⟩ := returning_idle (R := R) caller
    refine H.advance (returning caller) hk rfl rfl rfl rfl (fun r => ?_) rfl
      (fun c hc hcc => ?_) H.finished H.committed ?_
    · simp [Attempt.resumed, Attempt.resume, Call.resources, hres]
    · rw [hidle c hc] at hcc
      cases hcc
    · simp only [Attempt.resumed, Attempt.resume, Call.isReleasing, hcount]
      simp only [if_true]
      omega
  | unregistering =>
    refine H.advance [] hk rfl rfl rfl rfl (fun r => rfl) rfl nofun H.finished
      H.committed ?_
    simpa [Attempt.resumed, Attempt.resume, Call.isReleasing] using hreleased

/-- A call leaves the attempt's place in the registry alone. -/
structure Stays (a a' : Attempt R) : Prop where
  key : a'.registryKey = a.registryKey
  unregistered : a'.unregistered = a.unregistered

omit [DecidableEq R] in
theorem Stays.commitIfActive (a : Attempt R) (now : Nat) (refused : Bool) :
    a.Stays (a.commitIfActive now refused).2 := by
  rw [Attempt.commitIfActive]
  split <;> exact ⟨rfl, rfl⟩

theorem Stays.own (a : Attempt R) (now : Nat) (refused : Bool) (resource : R) :
    a.Stays (a.own now refused resource).2 := by
  rw [Attempt.own]
  split <;> exact ⟨rfl, rfl⟩

theorem Stays.handoff (a : Attempt R) (now : Nat) (refused : Bool) (resources : List R) :
    a.Stays (a.handoff now refused resources).2 := by
  have hfold : ∀ b : Attempt R, a.Stays b → a.Stays (resources.foldl Attempt.handoffOne b) := by
    induction resources with
    | nil => exact fun _ h => h
    | cons r rest ih =>
      intro b h
      refine ih _ ?_
      rw [Attempt.handoffOne]
      split
      · exact ⟨h.key, h.unregistered⟩
      · exact h
  rw [Attempt.handoff]
  split
  · exact ⟨rfl, rfl⟩
  · exact hfold a ⟨rfl, rfl⟩

omit [DecidableEq R] in
theorem Stays.cancel (a : Attempt R) (reason : String) (finish : Option Caller) :
    a.Stays (a.cancel reason finish).2 := by
  rw [Attempt.cancel.eq_def]
  split
  · split <;> exact ⟨rfl, rfl⟩
  · exact ⟨rfl, rfl⟩

omit [DecidableEq R] in
theorem resumed_key (a : Attempt R) (k : Nat) (call : Call R) :
    (a.resumed k call).registryKey = a.registryKey := by
  cases call with
  | rejected resource | releasing caller | unregistering => rfl
  | closing resources finish =>
    cases resources with
    | nil => cases finish <;> rfl
    | cons resource rest => rfl
  | finishing caller =>
    by_cases h : a.state = .finished <;> simp [Attempt.resumed, Attempt.resume, h]

omit [DecidableEq R] in
theorem resumed_unregistered (a : Attempt R) (k : Nat) {call : Call R}
    (hne : call ≠ .unregistering) : (a.resumed k call).unregistered = a.unregistered := by
  cases call with
  | rejected resource | releasing caller => rfl
  | unregistering => exact absurd rfl hne
  | closing resources finish =>
    cases resources with
    | nil => cases finish <;> rfl
    | cons resource rest => rfl
  | finishing caller =>
    by_cases h : a.state = .finished <;> simp [Attempt.resumed, Attempt.resume, h]

end Attempt

/-! ## The registry -/

structure Inv (s : State R) : Prop where
  ok : ∀ i, (s.attempts i).OK
  fresh : ∀ i, s.created ≤ i → (s.attempts i).committedOnce = false
  registered : ∀ key i, s.registry.get? key = some i →
    i < s.created ∧ (s.attempts i).registryKey = key ∧ (s.attempts i).unregistered = false

variable {s s' : State R} {result : Result}

theorem Inv.init : Inv (State.init : State R) where
  ok _ := .new ..
  fresh _ _ := rfl
  registered _ _ h := by cases h

theorem Inv.onAttempt (H : Inv s) {i : Nat} {call : Attempt R → Result × Attempt R}
    (h : s.onAttempt i call = some (result, s')) (hok : (call (s.attempts i)).2.OK)
    (hstays : (s.attempts i).Stays (call (s.attempts i)).2) : Inv s' := by
  rw [State.onAttempt] at h
  split at h
  · rename_i hi
    cases h
    refine ⟨fun j => ?_, fun j hj => ?_, fun key j hj => ?_⟩
    · by_cases hji : j = i
      · subst j; simpa [State.setAttempt] using hok
      · simpa [State.setAttempt, hji] using H.ok j
    · have hji : j ≠ i := Nat.ne_of_gt (Nat.lt_of_lt_of_le hi hj)
      simpa [State.setAttempt, hji] using H.fresh j hj
    · obtain ⟨hlt, hkey, hun⟩ := H.registered key j hj
      refine ⟨hlt, ?_⟩
      by_cases hji : j = i
      · subst j
        simp only [State.setAttempt, Function.update_self]
        exact ⟨hstays.key.trans hkey, hstays.unregistered.trans hun⟩
      · simpa [State.setAttempt, hji] using ⟨hkey, hun⟩
  · cases h

theorem Inv.create (H : Inv s) (userId sid : String) (requestId : Option String) (token : String)
    (reserve : Bool) (timeout : Option Nat) (admitted : Bool) :
    Inv (s.create userId sid requestId token reserve timeout admitted).2 := by
  rw [State.create]
  split
  · exact H
  dsimp only
  split
  · exact H
  refine ⟨fun j => ?_, fun j hj => ?_, fun key j hj => ?_⟩
  · by_cases hj : j = s.created
    · subst j; simpa [State.setAttempt] using Attempt.OK.new ..
    · simpa [State.setAttempt, hj] using H.ok j
  · have hj : s.created < j := hj
    simpa [State.setAttempt, Nat.ne_of_gt hj] using H.fresh j (Nat.le_of_lt hj)
  · simp only [Dict.get?_set] at hj
    split at hj
    · rename_i hkey
      cases hj
      simp [State.setAttempt, State.newAttempt, hkey]
    · obtain ⟨hlt, hkey, hun⟩ := H.registered key j hj
      refine ⟨Nat.lt_succ_of_lt hlt, ?_⟩
      simpa [State.setAttempt, Nat.ne_of_lt hlt] using ⟨hkey, hun⟩

omit [DecidableEq R] in
theorem unregister_get? (s : State R) (i : Nat) {key : Key} {j : Nat}
    (h : (s.unregister i).registry.get? key = some j) :
    s.registry.get? key = some j ∧ (j = i → key ≠ (s.attempts i).registryKey) := by
  simp only [State.unregister] at h
  split at h
  · rename_i hi
    simp only [Dict.get?_erase] at h
    split at h
    · cases h
    · exact ⟨h, fun _ => ‹_›⟩
  · rename_i hi
    refine ⟨h, ?_⟩
    rintro rfl rfl
    exact hi h

omit [DecidableEq R] in
theorem unregister_attempts (s : State R) (i : Nat) :
    (s.unregister i).attempts = s.attempts ∧ (s.unregister i).created = s.created := by
  simp only [State.unregister]
  split <;> exact ⟨rfl, rfl⟩

omit [DecidableEq R] in
theorem resume_calls (a : Attempt R) (call : Call R) : (a.resume call).1.calls = a.calls := by
  cases call with
  | rejected resource | releasing caller | unregistering => rfl
  | closing resources finish =>
    cases resources with
    | nil => cases finish <;> rfl
    | cons resource rest => rfl
  | finishing caller =>
    by_cases h : a.state = .finished <;> simp [Attempt.resume, h]

theorem resume_eq {i k : Nat} (h : s.resume i k = some s') :
    ∃ call, (s.attempts i).calls[k]? = some call ∧
      s' = State.setAttempt (if call = .unregistering then s.unregister i else s) i
        ((s.attempts i).resumed k call) := by
  obtain ⟨call, hk, rfl⟩ := Option.map_eq_some_iff.mp h
  refine ⟨call, hk, ?_⟩
  simp only [resume_calls]
  rfl

theorem Inv.resume (H : Inv s) {i k : Nat} (hi : i < s.created) (h : s.resume i k = some s') :
    Inv s' := by
  obtain ⟨call, hk, rfl⟩ := resume_eq h
  have hok := (H.ok i).resumed hk
  have hkey := (s.attempts i).resumed_key k call
  have hattempts : (if call = .unregistering then s.unregister i else s).attempts = s.attempts := by
    split
    · exact (unregister_attempts s i).1
    · rfl
  have hcreated : (if call = .unregistering then s.unregister i else s).created = s.created := by
    split
    · exact (unregister_attempts s i).2
    · rfl
  refine ⟨fun j => ?_, fun j hj => ?_, fun key j hj => ?_⟩
  · simp only [State.setAttempt, hattempts]
    by_cases hji : j = i
    · subst j; simpa using hok
    · simpa [hji] using H.ok j
  · have hj : s.created ≤ j := hcreated ▸ hj
    have hji : j ≠ i := Nat.ne_of_gt (Nat.lt_of_lt_of_le hi hj)
    simpa [State.setAttempt, hattempts, hji] using H.fresh j hj
  · have hj' : s.registry.get? key = some j ∧
        (j = i → call = .unregistering → key ≠ (s.attempts i).registryKey) := by
      simp only [State.setAttempt] at hj
      split at hj
      · obtain ⟨hget, hne⟩ := unregister_get? s i hj
        exact ⟨hget, fun h _ => hne h⟩
      · exact ⟨hj, fun _ h => absurd h ‹_›⟩
    obtain ⟨hlt, hjkey, hun⟩ := H.registered key j hj'.1
    refine ⟨by simpa [State.setAttempt, hcreated] using hlt, ?_⟩
    simp only [State.setAttempt, hattempts]
    by_cases hji : j = i
    · subst j
      have hne : call ≠ .unregistering := fun hc => hj'.2 rfl hc hjkey.symm
      simp only [Function.update_self]
      exact ⟨hkey.trans hjkey, ((s.attempts i).resumed_unregistered k hne).trans hun⟩
    · simpa [hji] using ⟨hjkey, hun⟩

/-- Fields of the state that the attempts and the registry do not depend on. -/
theorem Inv.aside (H : Inv s) (stopping : Bool) (now : Nat) (sweeps : List (List Nat × String)) :
    Inv { s with stopping := stopping, now := now, sweeps := sweeps } :=
  ⟨H.ok, H.fresh, H.registered⟩

theorem Inv.step (H : Inv s) {action : Action R} (h : s.step action = some (result, s')) :
    Inv s' := by
  have hreason : "finished" ∈ runtimeReasons := by decide
  cases action with
  | create userId sid requestId token reserve timeout admitted =>
    have hcreate := H.create userId sid requestId token reserve timeout admitted
    rw [Option.some.inj h] at hcreate
    exact hcreate
  | cancelSocket sid => cases h; exact H.aside s.stopping s.now _
  | shutdown => cases h; exact H.aside true s.now _
  | finish i =>
    simp only [State.step] at h
    exact H.onAttempt h ((H.ok i).cancel (.inr hreason)) (.cancel ..)
  | sweep k =>
    simp only [State.step] at h
    split at h
    · have H' := H.aside s.stopping s.now (s.sweeps.set k (‹List Nat›, ‹String›))
      exact H'.onAttempt h ((H.ok _).cancel (.inl rfl)) (.cancel ..)
    · cases h; exact H.aside s.stopping s.now _
    · cases h
  | bindRuntime i isSet =>
    simp only [State.step] at h
    exact H.onAttempt h ((H.ok i).runtime _) ⟨rfl, rfl⟩
  | runtimeSignal i =>
    simp only [State.step] at h
    exact H.onAttempt h ((H.ok i).runtime _) ⟨rfl, rfl⟩
  | check i refused =>
    simp only [State.step] at h
    exact H.onAttempt h (H.ok i) ⟨rfl, rfl⟩
  | commitIfActive i refused =>
    simp only [State.step] at h
    exact H.onAttempt h ((H.ok i).commitIfActive ..) (.commitIfActive ..)
  | own i refused resource =>
    simp only [State.step] at h
    exact H.onAttempt h ((H.ok i).own ..) (.own ..)
  | handoff i refused resources =>
    simp only [State.step] at h
    exact H.onAttempt h ((H.ok i).handoff ..) (.handoff ..)
  | cancel i reason =>
    simp only [State.step] at h
    exact H.onAttempt h ((H.ok i).cancel (.inl rfl)) (.cancel ..)
  | finishAttempt i =>
    simp only [State.step] at h
    exact H.onAttempt h ((H.ok i).cancel (.inr hreason)) (.cancel ..)
  | resume i k =>
    simp only [State.step] at h
    split at h
    · obtain ⟨t, ht, heq⟩ := Option.map_eq_some_iff.mp h
      cases heq
      exact H.resume ‹_› ht
    · cases h
  | tick => cases h; exact H.aside s.stopping (s.now + 1) s.sweeps

theorem reachable_inv (h : (system R).Reachable s) : Inv s :=
  h.invariant (fun _ hs => hs ▸ Inv.init) fun _ _ _ H hs => H.step hs

/-- For every interleaving: a commit succeeds only before any cancellation, after it nothing but a
runtime reason cancels, a resource is handed off or closed at most as often as it was passed to
`own`, and a finished attempt has done both for all of them, released its reservation once and left
the registry. -/
theorem attempt_ownership (h : (system R).Reachable s) (i : Nat) :
    (∀ refused s', s.step (.commitIfActive i refused) = some (.bool true, s') →
      (s.attempts i).cancelEvent = false ∧ (s.attempts i).runtimeCancel ≠ some true) ∧
    ((s.attempts i).committedOnce = true → ∀ reason, reason ∉ runtimeReasons →
      s.step (.cancel i reason) = some (.bool false, s)) ∧
    (∀ r, (s.attempts i).handedOff.count r + (s.attempts i).closed.count r ≤
      (s.attempts i).passed.count r) ∧
    (s.attempts i).releases ≤ 1 ∧
    ((s.attempts i).state = .finished → (s.attempts i).calls = [] →
      (∀ r ∈ (s.attempts i).passed, r ∈ (s.attempts i).handedOff ∨ r ∈ (s.attempts i).closed) ∧
      (s.attempts i).releases = if (s.attempts i).reservation then 1 else 0) ∧
    ((s.attempts i).unregistered = true → ∀ key, s.registry.get? key ≠ some i) := by
  have H := reachable_inv h
  have Hi := H.ok i
  refine ⟨fun refused s' hstep => ?_, fun hcommitted reason hreason => ?_, fun r => ?_, ?_,
    fun hfinished hcalls => ⟨fun r hr => ?_, ?_⟩, fun hun key hkey => ?_⟩
  · simp only [State.step, State.onAttempt, Attempt.commitIfActive] at hstep
    split at hstep
    · split at hstep
      · cases hstep
      · rename_i hset
        have hlive := Attempt.cancelEvent_of_not_isSet (by simpa using hset)
        exact ⟨hlive.1, hlive.2.2⟩
    · cases hstep
  · have hi : i < s.created := by
      by_contra hge
      rw [H.fresh i (Nat.not_lt.mp hge)] at hcommitted
      cases hcommitted
    have hdone : (s.attempts i).state = .committed ∧ reason ∉ runtimeReasons ∨
        (s.attempts i).state = .finished := (Hi.committed hcommitted).imp_left (⟨·, hreason⟩)
    simp only [State.step, State.onAttempt, if_pos hi, Attempt.cancel, if_pos hdone]
    simp [State.setAttempt]
  · have := Hi.places_le r
    simp only [Attempt.places] at this
    omega
  · have := Hi.released
    have hdue : due (s.attempts i).state (s.attempts i).reservation ≤ 1 := by
      unfold due
      split <;> omega
    omega
  · have := Hi.covered r hr
    rw [Attempt.places, hcalls, Hi.emptied (Hi.finished hfinished)] at this
    rw [← List.count_pos_iff, ← List.count_pos_iff]
    simp only [List.count_nil, List.flatMap_nil] at this
    omega
  · have := Hi.released
    rw [hcalls, hfinished] at this
    cases hres : (s.attempts i).reservation <;> simpa [hres, due] using this
  · rw [(H.registered key i hkey).2.2] at hun
    cases hun

end

/-- A user cancels while the jump host's socket is owned; the connection passes it to `own`
again. -/
def ownedTwice : List (Action Nat) :=
  [.create "1" "sid" (some "req") "token" true none true, .own 0 false 7, .cancel 0 "user",
    .resume 0 0, .resume 0 0, .own 0 false 7, .resume 0 0, .finishAttempt 0, .resume 0 0,
    .resume 0 0, .resume 0 0]

theorem owned_twice_closed_twice : ∃ s, (system Nat).Reachable s ∧
    (s.attempts 0).closed = [7, 7] ∧ (s.attempts 0).state = .finished ∧
    (s.attempts 0).calls = [] ∧ s.registry.get? ⟨"1", "sid", "req"⟩ = some 0 := by
  have hexec : (System.answer State.step .init ownedTwice).any (fun (_, s) => decide <|
      (s.attempts 0).closed = [7, 7] ∧ (s.attempts 0).state = .finished ∧
      (s.attempts 0).calls = [] ∧ s.registry.get? ⟨"1", "sid", "req"⟩ = some 0) = true := by
    decide
  obtain ⟨⟨labels, s⟩, hs, hd⟩ := (Option.any_eq_true _ _).mp hexec
  exact ⟨s, (System.Reachable.init rfl).run (System.run_of_answer hs), of_decide_eq_true hd⟩

/-- A connection that is set up, handed off and finished. -/
def handedOffOnce : List (Action Nat) :=
  [.create "1" "sid" (some "req") "token" true none true, .own 0 false 7, .own 0 false 8,
    .handoff 0 false [7], .commitIfActive 0 false, .cancel 0 "user", .finish 0, .resume 0 0,
    .resume 0 0, .resume 0 0, .resume 0 0, .resume 0 0]

theorem attempt_ownership_handedOff : ∃ s, (system Nat).Reachable s ∧
    (s.attempts 0).handedOff = [7] ∧ (s.attempts 0).closed = [8] ∧
    s.step (.cancel 0 "user") = some (.bool false, s) ∧
    (s.attempts 0).releases = 1 ∧ ∀ key, s.registry.get? key ≠ some 0 := by
  have hexec : (System.answer State.step .init handedOffOnce).any (fun (_, s) => decide <|
      (s.attempts 0).handedOff = [7] ∧ (s.attempts 0).closed = [8] ∧
      (s.attempts 0).state = .finished ∧ (s.attempts 0).calls = [] ∧
      (s.attempts 0).reservation = true ∧ (s.attempts 0).committedOnce = true ∧
      (s.attempts 0).unregistered = true) = true := by
    decide
  obtain ⟨⟨labels, s⟩, hs, hd⟩ := (Option.any_eq_true _ _).mp hexec
  obtain ⟨hhanded, hclosed, hfinished, hcalls, hres, hcommitted, hun⟩ := of_decide_eq_true hd
  have hreach : (system Nat).Reachable s :=
    (System.Reachable.init rfl).run (System.run_of_answer hs)
  obtain ⟨-, hcancel, -, -, hdone, hgone⟩ := attempt_ownership hreach 0
  refine ⟨s, hreach, hhanded, hclosed, hcancel hcommitted "user" (by decide), ?_, hgone hun⟩
  rw [(hdone hfinished hcalls).2, hres]
  rfl

end WebSSH.SSHAttempt
