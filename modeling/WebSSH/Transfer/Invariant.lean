import WebSSH.Transfer.Manager
import Mathlib.Data.List.Nodup

/-!
# The invariant of the transfer manager

A record changes in two ways only: it is marked, from one state that is not terminal to another
(`Inv.mark`), or it is terminated, which releases its quota unit and moves its id from `_records`
to `_terminal_states` (`Inv.terminate`). Both let the record advance (`Advances`): a consumed
token stays consumed, and a terminal record never changes again.
-/

namespace WebSSH.Transfer
open Lib Quota

set_option autoImplicit false

section Record
variable {Time : Type}

/-- How a record may change. -/
structure Advances (r r' : TransferRecord Time) : Prop where
  transferId : r'.transferId = r.transferId
  userId : r'.userId = r.userId
  expiresAt : r'.expiresAt = r.expiresAt
  consumed : r.tokenConsumed = true → r'.tokenConsumed = true
  token : r'.token = r.token ∨ r'.token = none
  terminal : r.state.terminal = true → r' = r

theorem Advances.refl (r : TransferRecord Time) : Advances r r :=
  ⟨rfl, rfl, rfl, id, .inl rfl, fun _ => rfl⟩

theorem Advances.trans {r₁ r₂ r₃ : TransferRecord Time} (h : Advances r₁ r₂)
    (h' : Advances r₂ r₃) : Advances r₁ r₃ where
  transferId := h'.transferId.trans h.transferId
  userId := h'.userId.trans h.userId
  expiresAt := h'.expiresAt.trans h.expiresAt
  consumed hc := h'.consumed (h.consumed hc)
  token := by
    rcases h'.token with ht | ht
    · rw [ht]; exact h.token
    · exact .inr ht
  terminal ht := by
    obtain rfl := h.terminal ht
    exact h'.terminal ht

/-- The flags of a record agree with its state. -/
structure RecordOK (r : TransferRecord Time) : Prop where
  consumed : r.tokenConsumed = false ↔ r.state = .pending
  token : r.state ≠ .pending → r.token = none

/-- No record was added, and each one advanced. -/
structure Evolves (s s' : State Time) : Prop where
  length : s'.heap.length = s.heap.length
  advances : ∀ {i : Nat} {r : TransferRecord Time}, s.heap[i]? = some r → ∃ r', s'.heap[i]? = some r' ∧ Advances r r'

theorem Evolves.of_heap {s s' : State Time} (h : s'.heap = s.heap) : Evolves s s' :=
  ⟨by rw [h], fun {i r} hi => ⟨r, by rw [h]; exact hi, .refl r⟩⟩

theorem Evolves.trans {s₁ s₂ s₃ : State Time} (h : Evolves s₁ s₂) (h' : Evolves s₂ s₃) :
    Evolves s₁ s₃ where
  length := h'.length.trans h.length
  advances hi := by
    obtain ⟨r₂, h₂, ha⟩ := h.advances hi
    obtain ⟨r₃, h₃, ha'⟩ := h'.advances h₂
    exact ⟨r₃, h₃, ha.trans ha'⟩

theorem get_set {heap : List (TransferRecord Time)} {i j : Nat} {r r' : TransferRecord Time}
    (hi : heap[i]? = some r) : (heap.set i r')[j]? = if j = i then some r' else heap[j]? := by
  have hlt : i < heap.length := (List.getElem?_eq_some_iff.mp hi).1
  rw [List.getElem?_set]
  by_cases h : i = j
  · subst h; simp [hlt]
  · simp [h, Ne.symm h]

theorem Evolves.set {s s' : State Time} {i : Nat} {r r' : TransferRecord Time}
    (hi : s.heap[i]? = some r) (ha : Advances r r') (hh : s'.heap = s.heap.set i r') :
    Evolves s s' where
  length := by rw [hh, List.length_set]
  advances {j r₁} hj := by
    rw [hh, get_set hi]
    split
    · subst j
      obtain rfl : r = r₁ := by simpa [hi] using hj
      exact ⟨r', rfl, ha⟩
    · exact ⟨r₁, hj, .refl r₁⟩

/-- An expired record of a later state had not consumed its token in an earlier one either. -/
theorem Evolves.back {s s' : State Time} (h : Evolves s s') {i : Nat} {r' : TransferRecord Time}
    (hi : s'.heap[i]? = some r') : ∃ r, s.heap[i]? = some r ∧ Advances r r' := by
  have hlt : i < s.heap.length := by
    rw [← h.length]; exact (List.getElem?_eq_some_iff.mp hi).1
  obtain ⟨r₁, h₁, ha⟩ := h.advances (List.getElem?_eq_getElem hlt)
  obtain rfl : r₁ = r' := by simpa [h₁] using hi
  exact ⟨_, List.getElem?_eq_getElem hlt, ha⟩

end Record

/-- A user's record that is not terminal. -/
def heldBy {Time : Type} (u : String) (r : TransferRecord Time) : Bool :=
  !r.state.terminal && r.userId = u

/-- The record at `i` is in the table and not terminal. -/
def Active {Time : Type} (s : State Time) (i : Nat) (r : TransferRecord Time) : Prop :=
  s.heap[i]? = some r ∧ r.state.terminal = false

structure Inv {Time : Type} (s : State Time) : Prop where
  accounts : s.quota.Accounts
  records : ∀ id i, s.records.get? id = some i ↔ ∃ r, Active s i r ∧ r.transferId = id
  disjoint : ∀ id i, s.records.get? id = some i → s.terminalStates.get? id = none
  ok : ∀ {i : Nat} {r : TransferRecord Time}, s.heap[i]? = some r → RecordOK r
  reserved : ∀ {i r}, Active s i r →
    s.quota.reservations[r.quotaReservation]? = some ⟨.transfer, r.userId, 1, false⟩
  separate : ∀ {i j r r'}, Active s i r → Active s j r' →
    r.quotaReservation = r'.quotaReservation → i = j
  held : ∀ u, s.quota.userCounts.getD (.transfer, u) 0 = (s.heap.countP (heldBy u) : Nat)

section
variable {Time : Type} {s s' : State Time} {i : Nat} {r r' : TransferRecord Time}

theorem Active.unique (h : Active s i r) (h' : Active s i r') : r = r' :=
  Option.some.inj (h.1.symm.trans h'.1)

theorem Inv.unique_id (H : Inv s) {j : Nat} (h : Active s i r) (h' : Active s j r')
    (hid : r.transferId = r'.transferId) : i = j := by
  have h₁ := (H.records r.transferId i).mpr ⟨r, h, rfl⟩
  rw [hid, (H.records r'.transferId j).mpr ⟨r', h', rfl⟩] at h₁
  exact (Option.some.inj h₁).symm

theorem Inv.init (limits : QuotaKind → KindLimits) : Inv (.init limits : State Time) where
  accounts := .init limits
  records id i := by simp [State.init, Active]
  disjoint id i h := by cases h
  ok h := by simp [State.init] at h
  reserved h := by simp [State.init, Active] at h
  separate h := by simp [State.init, Active] at h
  held u := rfl

theorem countP_set_heap {heap : List (TransferRecord Time)} (p : TransferRecord Time → Bool)
    (hi : heap[i]? = some r) (r' : TransferRecord Time) : (heap.set i r').countP p + (if p r then 1 else 0) =
      heap.countP p + if p r' then 1 else 0 := by
  obtain ⟨hlt, hr⟩ := List.getElem?_eq_some_iff.mp hi
  rw [List.countP_set hlt, hr]
  have : (if p r then 1 else 0) ≤ heap.countP p := by
    split
    · exact List.countP_pos_iff.mpr ⟨r, List.mem_of_getElem? hi, ‹_›⟩
    · exact Nat.zero_le _
  omega

/-- Updates that concern neither the quota nor the tables. -/
theorem Inv.of_eq (H : Inv s) (hq : s'.quota = s.quota) (hh : s'.heap = s.heap)
    (hr : s'.records = s.records)
    (ht : ∀ id, s.terminalStates.get? id = none → s'.terminalStates.get? id = none) : Inv s' where
  accounts := hq ▸ H.accounts
  records id i := by simp only [hr, Active, hh]; exact H.records id i
  disjoint id i h := ht id (H.disjoint id i (hr ▸ h))
  ok h := H.ok (hh ▸ h)
  reserved h := by simp only [Active, hh] at h; rw [hq]; exact H.reserved h
  separate h h' := by simp only [Active, hh] at h h'; exact H.separate h h'
  held u := by rw [hq, hh]; exact H.held u

/-- Marking a record with another state that is not terminal. -/
theorem Inv.mark (H : Inv s) (hi : Active s i r) (hid : r'.transferId = r.transferId)
    (huser : r'.userId = r.userId) (hres : r'.quotaReservation = r.quotaReservation)
    (hst : r'.state.terminal = false) (hok : RecordOK r') :
    Inv { s with heap := s.heap.set i r' } := by
  have hactive : ∀ {j r₁}, Active { s with heap := s.heap.set i r' } j r₁ →
      ∃ r₀, Active s j r₀ ∧ r₁.transferId = r₀.transferId ∧ r₁.userId = r₀.userId ∧
        r₁.quotaReservation = r₀.quotaReservation := by
    rintro j r₁ ⟨hj, hs⟩
    rw [get_set hi.1] at hj
    split at hj
    · subst j
      obtain rfl := Option.some.inj hj
      exact ⟨r, hi, hid, huser, hres⟩
    · exact ⟨r₁, ⟨hj, hs⟩, rfl, rfl, rfl⟩
  refine ⟨H.accounts, fun id j => ?_, H.disjoint, fun {j r₁} hj => ?_, fun hj => ?_,
    fun hj hj' he => ?_, fun u => ?_⟩
  · rw [H.records id j]
    constructor
    · rintro ⟨r₀, h₀, rfl⟩
      by_cases hji : j = i
      · subst j
        obtain rfl := hi.unique h₀
        exact ⟨r', ⟨by rw [get_set hi.1, if_pos rfl], hst⟩, hid⟩
      · exact ⟨r₀, ⟨by rw [get_set hi.1, if_neg hji]; exact h₀.1, h₀.2⟩, rfl⟩
    · rintro ⟨r₁, h₁, rfl⟩
      obtain ⟨r₀, h₀, he, -⟩ := hactive h₁
      exact ⟨r₀, h₀, he.symm⟩
  · rw [get_set hi.1] at hj
    split at hj
    · obtain rfl := Option.some.inj hj; exact hok
    · exact H.ok hj
  · obtain ⟨r₀, h₀, -, hu, hq⟩ := hactive hj
    rw [hu, hq]
    exact H.reserved h₀
  · obtain ⟨r₀, h₀, -, -, hq⟩ := hactive hj
    obtain ⟨r₀', h₀', -, -, hq'⟩ := hactive hj'
    exact H.separate h₀ h₀' (by rw [← hq, ← hq', he])
  · have hc := countP_set_heap (heldBy u) hi.1 r'
    have hp : heldBy u r' = heldBy u r := by simp [heldBy, hst, hi.2, huser]
    rw [hp] at hc
    dsimp only
    rw [H.held u]
    omega

/-- One record has been changed, and nothing that later calls rely on was lost. -/
structure Touched (s : State Time) (i : Nat) (s' : State Time) : Prop where
  inv : Inv s'
  evolves : Evolves s s'
  others : ∀ j, j ≠ i → s'.heap[j]? = s.heap[j]?

/-- What a termination does. -/
structure Terminated (s : State Time) (i : Nat) (r r' : TransferRecord Time) (s' : State Time) :
    Prop where
  heap : s'.heap = s.heap.set i r'
  records : s'.records = s.records.erase r.transferId
  terminalStates : ∃ entry, s'.terminalStates = s.terminalStates.set r.transferId entry
  quota : QuotaManager.Released s.quota r.quotaReservation ⟨.transfer, r.userId, 1, false⟩ s'.quota
  ended : r'.state.terminal = true ∧ r'.token = none ∧ r'.tokenConsumed = true
  same : r'.transferId = r.transferId ∧ r'.userId = r.userId ∧ r'.expiresAt = r.expiresAt

/-- The records that are active after a termination. -/
theorem Terminated.active (h : Terminated s i r r' s') (hi : Active s i r) {j : Nat}
    {r₁ : TransferRecord Time} : Active s' j r₁ ↔ j ≠ i ∧ Active s j r₁ := by
  unfold Active
  rw [h.heap, get_set hi.1]
  by_cases hj : j = i
  · subst j
    rw [if_pos rfl]
    constructor
    · rintro ⟨hr, hs⟩
      obtain rfl := Option.some.inj hr
      rw [h.ended.1] at hs
      cases hs
    · exact fun hne => absurd rfl hne.1
  · rw [if_neg hj]
    exact ⟨fun ha => ⟨hj, ha⟩, fun ha => ha.2⟩

theorem Terminated.inv (h : Terminated s i r r' s') (H : Inv s) (hi : Active s i r) : Inv s' where
  accounts := h.quota.accounts H.accounts (H.reserved hi) rfl
  records id j := by
    rw [h.records, Dict.get?_erase]
    constructor
    · intro hj
      split at hj
      · cases hj
      obtain ⟨r₀, h₀, rfl⟩ := (H.records id j).mp hj
      refine ⟨r₀, (h.active hi).mpr ⟨?_, h₀⟩, rfl⟩
      rintro rfl
      exact absurd (congrArg TransferRecord.transferId (h₀.unique hi)) ‹_›
    · rintro ⟨r₁, h₁, rfl⟩
      obtain ⟨hji, h₁⟩ := (h.active hi).mp h₁
      rw [if_neg fun hid => hji (H.unique_id h₁ hi hid)]
      exact (H.records _ j).mpr ⟨r₁, h₁, rfl⟩
  disjoint id j hj := by
    obtain ⟨entry, he⟩ := h.terminalStates
    rw [h.records, Dict.get?_erase] at hj
    split at hj
    · cases hj
    · rw [he, Dict.get?_set_of_ne ‹_›]
      exact H.disjoint id j hj
  ok {j r₁} hj := by
    rw [h.heap, get_set hi.1] at hj
    split at hj
    · obtain rfl := Option.some.inj hj
      refine ⟨⟨fun hc => ?_, fun hp => ?_⟩, fun _ => h.ended.2.1⟩
      · rw [h.ended.2.2] at hc; cases hc
      · have := h.ended.1
        rw [hp] at this; cases this
    · exact H.ok hj
  reserved hj := by
    obtain ⟨hji, h₁⟩ := (h.active hi).mp hj
    rw [h.quota.reservations, List.getElem?_set_ne fun he => hji (H.separate h₁ hi he.symm)]
    exact H.reserved h₁
  separate hj hj' he := H.separate ((h.active hi).mp hj).2 ((h.active hi).mp hj').2 he
  held u := by
    have hc := countP_set_heap (heldBy u) hi.1 r'
    have hr' : heldBy u r' = false := by simp [heldBy, h.ended.1]
    have hr : heldBy u r = decide (u = r.userId) := by simp [heldBy, hi.2, eq_comm]
    rw [hr', hr, ← h.heap] at hc
    rw [h.quota.user, H.held u]
    by_cases hu : u = r.userId
    · simp only [hu, decide_true, if_true] at hc ⊢
      simp at hc
      omega
    · simp only [hu, decide_false, Prod.mk.injEq, and_false, if_false] at hc ⊢
      simp at hc
      omega

end

section
variable {Time : Type} [Add Time] (cfg : Config Time)
variable {s : State Time} {i : Nat} {r : TransferRecord Time}

theorem Inv.exists_terminate (H : Inv s) (hi : Active s i r) (target : TransferState)
    (ht : target.terminal = true) (releaseSourceHolds setCancelEvent : Bool) :
    ∃ r' s', s.terminate cfg i target releaseSourceHolds setCancelEvent = some s' ∧
      Terminated s i r r' s' := by
  obtain ⟨quota, hq, hrel⟩ := QuotaManager.exists_release H.accounts (H.reserved hi) rfl
  let r₁ := { r with holdsReleased := r.holdsReleased || releaseSourceHolds }
  have hs : s.terminate cfg i target releaseSourceHolds setCancelEvent =
      some (State.finalizeRecord cfg { s with quota := quota, heap := s.heap.set i r₁ } i r₁
        target setCancelEvent) := by
    simp only [State.terminate, hi.1, State.releaseForTerminal, hq, Option.map_some, r₁]
  refine ⟨{ r₁ with
    state := target, token := none, tokenConsumed := true
    cancelEvent := r₁.cancelEvent || setCancelEvent }, _, hs, ?_⟩
  exact ⟨List.set_set .., rfl, ⟨_, rfl⟩, hrel, ⟨ht, rfl, rfl⟩, rfl, rfl, rfl⟩

theorem Inv.terminate (H : Inv s) (hi : Active s i r) (target : TransferState)
    (ht : target.terminal = true) (releaseSourceHolds setCancelEvent : Bool) :
    ∃ s', s.terminate cfg i target releaseSourceHolds setCancelEvent = some s' ∧
      Touched s i s' ∧ ∀ r', s'.heap[i]? = some r' → r'.state.terminal = true := by
  obtain ⟨r', s', hs, h⟩ := H.exists_terminate cfg hi target ht releaseSourceHolds setCancelEvent
  refine ⟨s', hs, ⟨h.inv H hi, .set hi.1 ?_ h.heap, fun j hj => ?_⟩, fun r₁ hr₁ => ?_⟩
  · exact ⟨h.same.1, h.same.2.1, h.same.2.2, fun _ => h.ended.2.2, .inr h.ended.2.1,
      fun ht => by rw [hi.2] at ht; cases ht⟩
  · rw [h.heap, get_set hi.1, if_neg hj]
  · rw [h.heap, get_set hi.1, if_pos rfl] at hr₁
    obtain rfl := Option.some.inj hr₁
    exact h.ended.1

end
end WebSSH.Transfer
