import Mathlib
import WebSSH.Lib.Python
import WebSSH.Lib.System
import WebSSH.Quota.Manager

/-!
# Every sequence of reservations and releases

The calls of `reserve` with any arguments and the releases of the reservations it has returned, each
of which may come any number of times and in any order.
-/

namespace WebSSH.Quota
open Lib Lib.Python

namespace QuotaManager

/-! ## Calls -/

/-- The kinds whose slots are shared fairly. -/
def fairSlotKinds : List QuotaKind := [.sshSession, .quickConnection, .transfer]

/-- `QuotaManager(limits)` raises for limits that do not satisfy this. -/
def LimitsValid (limits : QuotaKind → KindLimits) : Prop :=
  ∀ kind, 0 < (limits kind).globalLimit ∧ 0 < (limits kind).perUser ∧
    ¬ ((limits kind).globalLimit < (limits kind).perUser ∨
      kind ∈ fairSlotKinds ∧ (limits kind).perUser = (limits kind).globalLimit)

inductive Rejection
  /-- `ValueError('kind must be a QuotaKind')` -/
  | kind
  /-- `ValueError('user_id is required')` -/
  | userId
  | quota (error : QuotaError)
  deriving DecidableEq, Repr

/-- `str(user_id)`, unless it is `None` or a `bool`. -/
def userText : Value → Option String
  | .none | .bool _ => none
  | .int i => some (toString i)
  | .str s => some s
  | .other text => some text

/-- `reserve` with its arguments checked; a kind is `none` if it is no `QuotaKind`. -/
def reserveAny (m : QuotaManager) (kind : Option QuotaKind) (userId amount : Value) :
    Except Rejection (Nat × QuotaManager) :=
  match kind with
  | none => .error .kind
  | some kind =>
    match amount with
    | .int amount =>
      if amount ≤ 0 then .error (.quota .amountNotPositive)
      else
        match userText userId with
        | none => .error .userId
        | some userId =>
          match m.reserve kind userId amount with
          | .error error => .error (.quota error)
          | .ok granted => .ok granted
    | _ => .error (.quota .amountNotPositive)

inductive Call
  | reserve (kind : Option QuotaKind) (userId amount : Value)
  /-- `release()` of the reservation at this position. -/
  | release (i : Nat)
  deriving DecidableEq, Repr

inductive Reply
  /-- The reservation, with its position. -/
  | reserved (i : Nat) (kind : QuotaKind) (userId : String) (amount : Int)
  | rejected (reason : Rejection)
  | released
  /-- `release` raises a `KeyError`. -/
  | keyError
  deriving DecidableEq, Repr

/-- A reservation can only be released once it has been returned. -/
def step (m : QuotaManager) : Call → Option (Reply × QuotaManager)
  | .reserve kind userId amount =>
    match m.reserveAny kind userId amount with
    | .error reason => some (.rejected reason, m)
    | .ok (i, m') =>
      match m'.reservations[i]? with
      | none => none
      | some r => some (.reserved i r.kind r.userId r.amount, m')
  | .release i =>
    match m.reservations[i]? with
    | none => none
    | some _ =>
      match m.release i with
      | none => some (.keyError, m)
      | some m' => some (.released, m')

/-! ## The reservations of a history -/

/-- What was reserved, in order. -/
def Reply.granted : Reply → Option (QuotaKind × String × Int)
  | reserved _ kind userId amount => some (kind, userId, amount)
  | _ => none

/-- The units reserved by a history and not released by it. -/
def outstanding (p : QuotaKind → String → Bool) (history : List (Call × Reply)) : Int :=
  (((history.filterMap fun e => e.2.granted).zipIdx).map fun ((kind, userId, amount), i) =>
    if Call.release i ∉ history.map Prod.fst ∧ p kind userId = true then amount else 0).sum

/-- A counter is stored unless it is zero. -/
def counted (total : Int) : Option Int := if total = 0 then none else some total

/-! ## What the manager keeps -/

variable {m m' : QuotaManager} {limits : QuotaKind → KindLimits} {kind : Option QuotaKind}
  {userId amount : Value} {call : Call} {reply : Reply} {history : List (Call × Reply)}

/-- No counter that is stored is zero. -/
def NoZero {κ : Type} [DecidableEq κ] (counts : Dict κ Int) : Prop :=
  ∀ key total, counts.get? key = some total → total ≠ 0

theorem NoZero.get?_eq {κ : Type} [DecidableEq κ] {counts : Dict κ Int} (h : NoZero counts)
    (key : κ) : counts.get? key = counted (counts.getD key 0) := by
  unfold counted
  cases hget : counts.get? key with
  | none =>
    rw [if_pos]
    simp [Dict.getD, hget]
  | some total =>
    rw [Dict.getD_of_get? hget, if_neg (h key total hget)]

theorem NoZero.set {κ : Type} [DecidableEq κ] {counts : Dict κ Int} (h : NoZero counts) {key : κ}
    {total : Int} (htotal : total ≠ 0) : NoZero (counts.set key total) := by
  intro k n hget
  rw [Dict.get?_set] at hget
  split at hget
  · cases hget
    exact htotal
  · exact h k n hget

theorem NoZero.store {κ : Type} [DecidableEq κ] {counts : Dict κ Int} (h : NoZero counts)
    (key : κ) (total : Int) : NoZero (store counts key total) := by
  unfold QuotaManager.store
  split
  · exact h.set ‹_›
  · intro k n hget
    rw [Dict.get?_erase] at hget
    split at hget
    · cases hget
    · exact h k n hget

/-- The manager after a history. -/
structure Inv (limits : QuotaKind → KindLimits) (history : List (Call × Reply))
    (m : QuotaManager) : Prop where
  accounts : Accounts m
  limits_eq : m.limits = limits
  users : NoZero m.userCounts
  kinds : NoZero m.globalCounts
  userLimit : ∀ kind userId, m.userCounts.getD (kind, userId) 0 ≤ (limits kind).perUser
  globalLimit : ∀ kind, m.globalCounts.getD kind 0 ≤ (limits kind).globalLimit
  granted : m.reservations.map (fun r => (r.kind, r.userId, r.amount)) =
    history.filterMap fun e => e.2.granted
  released : ∀ i r, m.reservations[i]? = some r →
    (r.released = true ↔ Call.release i ∈ history.map Prod.fst)
  known : ∀ i, Call.release i ∈ history.map Prod.fst → i < m.reservations.length
  noKeyError : Reply.keyError ∉ history.map Prod.snd

theorem Inv.init (hlimits : LimitsValid limits) : Inv limits [] (.init limits) where
  accounts := .init limits
  limits_eq := rfl
  users _ _ h := nomatch h
  kinds _ _ h := nomatch h
  userLimit kind _ := (hlimits kind).2.1.le
  globalLimit kind := (hlimits kind).1.le
  granted := rfl
  released _ _ h := nomatch h
  known _ h := nomatch h
  noKeyError h := nomatch h

/-- A call that is rejected is only added to the history. -/
theorem Inv.rejected (H : Inv limits history m) (reason : Rejection) :
    Inv limits (history ++ [(.reserve kind userId amount, .rejected reason)]) m where
  __ := H
  granted := by simpa [Reply.granted] using H.granted
  released i r hi := by simpa using H.released i r hi
  known i hi := H.known i (by simpa using hi)
  noKeyError := by simpa using H.noKeyError

theorem reserveAny_ok {i : Nat} (h : m.reserveAny kind userId amount = .ok (i, m')) :
    ∃ kind userId amount, m.reserve kind userId amount = .ok (i, m') := by
  unfold reserveAny at h
  split at h
  · cases h
  split at h
  · split at h
    · cases h
    split at h
    · cases h
    split at h
    · cases h
    · cases h
      exact ⟨_, _, _, ‹_›⟩
  · cases h

/-- The dictionaries of a successful `reserve`. -/
theorem reserve_stores {kind : QuotaKind} {userId : String} {amount : Int} {i : Nat}
    (h : m.reserve kind userId amount = .ok (i, m')) :
    m'.userCounts = m.userCounts.set (kind, userId) (m.userCounts.getD (kind, userId) 0 + amount) ∧
      m'.globalCounts = m.globalCounts.set kind (m.globalCounts.getD kind 0 + amount) := by
  simp only [reserve] at h
  split at h
  · cases h
  split at h
  · cases h
  split at h
  · cases h
  cases h
  exact ⟨rfl, rfl⟩

theorem live_nonneg {p : Reservation → Bool} (H : Accounts m) : 0 ≤ live p m.reservations := by
  refine List.sum_nonneg fun x hx => ?_
  obtain ⟨r, hr, rfl⟩ := List.mem_map.mp hx
  split
  · exact (H.positive r hr).le
  · exact le_refl _

theorem Inv.reserved (H : Inv limits history m) {k : QuotaKind} {u : String} {n : Int} {i : Nat}
    (h : m.reserve k u n = .ok (i, m')) :
    Inv limits (history ++ [(.reserve kind userId amount, .reserved i k u n)]) m' := by
  have hr := reserve_ok h
  obtain ⟨husers, hkinds⟩ := reserve_stores h
  have hpos := hr.positive
  have hnonneg : 0 ≤ m.userCounts.getD (k, u) 0 := by
    rw [H.accounts.user]
    exact live_nonneg H.accounts
  have hnonneg' : 0 ≤ m.globalCounts.getD k 0 := by
    rw [H.accounts.global]
    exact live_nonneg H.accounts
  refine ⟨hr.accounts H.accounts, hr.limits.trans H.limits_eq, ?_, ?_, fun kind userId => ?_,
    fun kind => ?_, ?_, fun j r hj => ?_, fun j hj => ?_, ?_⟩
  · rw [husers]
    exact H.users.set (by omega)
  · rw [hkinds]
    exact H.kinds.set (by omega)
  · rcases Decidable.eq_or_ne (kind, userId) (k, u) with heq | hne
    · cases heq
      exact H.limits_eq ▸ hr.userLimit
    · rw [hr.user, if_neg hne, Int.add_zero]
      exact H.userLimit kind userId
  · rcases Decidable.eq_or_ne kind k with rfl | hne
    · exact H.limits_eq ▸ hr.globalLimit
    · rw [hr.global, if_neg hne, Int.add_zero]
      exact H.globalLimit kind
  · rw [hr.reservations, List.map_append, H.granted, List.filterMap_append]
    rfl
  · rw [hr.reservations] at hj
    simp only [List.map_append, List.map_cons, List.map_nil, List.mem_append, List.mem_singleton,
      reduceCtorEq, or_false]
    rcases Nat.lt_or_ge j m.reservations.length with hlt | hge
    · rw [List.getElem?_append_left hlt] at hj
      exact H.released j r hj
    · have hnew : r.released = false := by
        rw [List.getElem?_append_right hge] at hj
        rw [List.mem_singleton.mp (List.mem_of_getElem? hj)]
      exact iff_of_false (by rw [hnew]; exact Bool.false_ne_true)
        fun hmem => absurd (H.known j hmem) (Nat.not_lt.mpr hge)
  · rw [hr.reservations, List.length_append]
    exact Nat.lt_of_lt_of_le (H.known j (by simpa using hj)) (Nat.le_add_right _ _)
  · simpa using H.noKeyError

/-- The dictionaries of a release. -/
theorem release_stores {i : Nat} (h : m.release i = some m') :
    m' = m ∨ ∃ key total kind total', m'.userCounts = store m.userCounts key total ∧
      m'.globalCounts = store m.globalCounts kind total' := by
  unfold release at h
  split at h
  · cases h
  split at h
  · cases h
    exact .inl rfl
  split at h
  · cases h
    exact .inr ⟨_, _, _, _, rfl, rfl⟩
  · cases h

/-- Releasing again changes nothing. -/
theorem Inv.releasedAgain (H : Inv limits history m) {i : Nat} {r : Reservation}
    (hi : m.reservations[i]? = some r) (hr : r.released = true) :
    Inv limits (history ++ [(.release i, .released)]) m where
  __ := H
  granted := by simpa [Reply.granted] using H.granted
  released j r' hj := by
    simp only [List.map_append, List.map_cons, List.map_nil, List.mem_append, List.mem_singleton,
      Call.release.injEq]
    refine (H.released j r' hj).trans ⟨.inl, fun h => h.elim id ?_⟩
    rintro rfl
    exact (H.released j r hi).mp hr
  known j hj := by
    simp only [List.map_append, List.map_cons, List.map_nil, List.mem_append, List.mem_singleton,
      Call.release.injEq] at hj
    rcases hj with hj | rfl
    · exact H.known j hj
    · exact (List.getElem?_eq_some_iff.mp hi).1
  noKeyError := by simpa using H.noKeyError

theorem Inv.releasedFirst (H : Inv limits history m) {i : Nat} {r : Reservation}
    (hi : m.reservations[i]? = some r) (hr : r.released = false) (h : m.release i = some m')
    (hm : Released m i r m') : Inv limits (history ++ [(.release i, .released)]) m' := by
  have hpos := H.accounts.positive r (List.mem_of_getElem? hi)
  have hlt := (List.getElem?_eq_some_iff.mp hi).1
  have hlen : m'.reservations.length = m.reservations.length := by
    rw [hm.reservations, List.length_set]
  refine ⟨hm.accounts H.accounts hi hr, hm.limits.trans H.limits_eq, ?_, ?_, fun kind userId => ?_,
    fun kind => ?_, ?_, fun j x hj => ?_, fun j hj => ?_, ?_⟩
  · obtain rfl | ⟨key, total, -, -, husers, -⟩ := release_stores h
    · exact H.users
    · rw [husers]
      exact H.users.store key total
  · obtain rfl | ⟨-, -, kind, total, -, hkinds⟩ := release_stores h
    · exact H.kinds
    · rw [hkinds]
      exact H.kinds.store kind total
  · have := H.userLimit kind userId
    rw [hm.user]
    split <;> omega
  · have := H.globalLimit kind
    rw [hm.global]
    split <;> omega
  · rw [hm.reservations, List.map_set, List.filterMap_append, ← H.granted]
    simp only [List.filterMap_cons, Reply.granted, List.filterMap_nil, List.append_nil]
    have hsame : (m.reservations.map fun r => (r.kind, r.userId, r.amount))[i]? =
        some (r.kind, r.userId, r.amount) := by rw [List.getElem?_map, hi]; rfl
    obtain ⟨_, hget⟩ := List.getElem?_eq_some_iff.mp hsame
    rw [← hget, List.set_getElem_self]
  · rw [hm.reservations] at hj
    simp only [List.map_append, List.map_cons, List.map_nil, List.mem_append, List.mem_singleton,
      Call.release.injEq]
    rcases Decidable.eq_or_ne i j with rfl | hne
    · rw [List.getElem?_set_self hlt] at hj
      cases hj
      exact iff_of_true rfl (.inr rfl)
    · rw [List.getElem?_set_ne hne] at hj
      exact (H.released j x hj).trans (or_iff_left hne.symm).symm
  · simp only [List.map_append, List.map_cons, List.map_nil, List.mem_append, List.mem_singleton,
      Call.release.injEq] at hj
    rw [hlen]
    rcases hj with hj | rfl
    · exact H.known j hj
    · exact hlt
  · simpa using H.noKeyError

theorem Inv.step (H : Inv limits history m) (h : m.step call = some (reply, m')) :
    Inv limits (history ++ [(call, reply)]) m' := by
  cases call with
  | reserve kind userId amount =>
    simp only [QuotaManager.step] at h
    split at h
    · cases h
      exact H.rejected _
    · rename_i hany
      obtain ⟨k, u, n, hreserve⟩ := reserveAny_ok hany
      have hr := reserve_ok hreserve
      rw [hr.reservations, hr.index, List.getElem?_concat_length] at h
      cases h
      exact H.reserved (hr.index ▸ hreserve)
  | release i =>
    simp only [QuotaManager.step] at h
    split at h
    · cases h
    rename_i r hi
    cases hr : r.released with
    | true =>
      rw [release_released hi hr] at h
      cases h
      exact H.releasedAgain hi hr
    | false =>
      obtain ⟨m'', hrelease, hm⟩ := exists_release H.accounts hi hr
      rw [hrelease] at h
      cases h
      exact H.releasedFirst hi hr hrelease hm

/-- The live units are those that the history has reserved and not released. -/
theorem Inv.outstanding_eq (H : Inv limits history m) (p : QuotaKind → String → Bool) :
    outstanding p history = live (fun r => p r.kind r.userId) m.reservations := by
  have hamount : ∀ x ∈ m.reservations.zipIdx,
      (if Call.release x.2 ∉ history.map Prod.fst ∧ p x.1.kind x.1.userId = true then x.1.amount
        else 0) = if !x.1.released && p x.1.kind x.1.userId then x.1.amount else 0 := by
    rintro ⟨r, i⟩ hmem
    have hreleased := H.released i r (List.mem_zipIdx_iff_getElem?.mp hmem)
    simp only [← hreleased]
    cases r.released with
    | true => rfl
    | false => simp
  have hgranted : (history.filterMap fun e => e.2.granted).zipIdx =
      m.reservations.zipIdx.map fun x => ((x.1.kind, x.1.userId, x.1.amount), x.2) := by
    rw [← H.granted, List.zipIdx_map]
    rfl
  rw [outstanding, live, hgranted, List.map_map]
  calc _ = (m.reservations.zipIdx.map fun x =>
        if !x.1.released && p x.1.kind x.1.userId then x.1.amount else 0).sum :=
        congrArg List.sum (List.map_congr_left hamount)
    _ = _ := by
        conv_rhs => rw [← List.zipIdx_map_fst 0 m.reservations]
        rw [List.map_map]
        rfl

/-- `QuotaManager.__init__` -/
def system (limits : QuotaKind → KindLimits) : System QuotaManager (Call × Reply) :=
  .calls (.init limits) step

theorem run_inv (hlimits : LimitsValid limits)
    (h : (system limits).Run (.init limits) history m) : Inv limits history m :=
  h.history (.init hlimits) fun _ _ _ _ H hstep => H.step hstep

/-- After every sequence of calls, the counter of each user and kind is the sum of what has been
reserved and not released, and is stored unless that is zero. The sums stay within the limits, no
release raises, and a rejected `reserve` changes nothing. -/
theorem quota_accounting (hlimits : LimitsValid limits)
    (h : (system limits).Run (.init limits) history m) :
    (∀ kind userId, m.userCounts.get? (kind, userId) =
      counted (outstanding (fun k u => k = kind ∧ u = userId) history)) ∧
    (∀ kind, m.globalCounts.get? kind = counted (outstanding (fun k _ => k = kind) history)) ∧
    (∀ kind userId, 0 ≤ outstanding (fun k u => k = kind ∧ u = userId) history ∧
      outstanding (fun k u => k = kind ∧ u = userId) history ≤ (limits kind).perUser) ∧
    (∀ kind, 0 ≤ outstanding (fun k _ => k = kind) history ∧
      outstanding (fun k _ => k = kind) history ≤ (limits kind).globalLimit) ∧
    Reply.keyError ∉ history.map Prod.snd ∧
    ∀ call reason m', m.step call = some (.rejected reason, m') → m' = m := by
  have H := run_inv hlimits h
  have huser : ∀ kind userId, outstanding (fun k u => k = kind ∧ u = userId) history =
      m.userCounts.getD (kind, userId) 0 := by
    intro kind userId
    rw [H.accounts.user, H.outstanding_eq]
    simp only [live, ofUser, Prod.mk.injEq]
  have hkind : ∀ kind, outstanding (fun k _ => k = kind) history = m.globalCounts.getD kind 0 := by
    intro kind
    rw [H.accounts.global, H.outstanding_eq]
    rfl
  refine ⟨fun kind userId => ?_, fun kind => ?_, fun kind userId => ⟨?_, ?_⟩, fun kind => ⟨?_, ?_⟩,
    H.noKeyError, fun call reason m' hstep => ?_⟩
  · rw [huser, H.users.get?_eq]
  · rw [hkind, H.kinds.get?_eq]
  · rw [huser, H.accounts.user]
    exact live_nonneg H.accounts
  · rw [huser]
    exact H.userLimit kind userId
  · rw [hkind, H.accounts.global]
    exact live_nonneg H.accounts
  · rw [hkind]
    exact H.globalLimit kind
  · cases call with
    | reserve kind userId amount =>
      simp only [QuotaManager.step] at hstep
      split at hstep
      · cases hstep
        rfl
      · split at hstep
        · cases hstep
        · cases hstep
    | release i =>
      simp only [QuotaManager.step] at hstep
      split at hstep
      · cases hstep
      · split at hstep
        · cases hstep
        · cases hstep

def smallLimits : QuotaKind → KindLimits := fun _ => ⟨3, 2⟩

def exampleCalls : List Call :=
  [.reserve (some .transfer) (.int 7) (.int 2), .reserve (some .transfer) (.int 7) (.int 1),
    .reserve (some .transfer) (.str "8") (.int 1), .release 0, .release 0]

theorem quota_accounting_example :
    ∃ history m, (system smallLimits).Run (.init smallLimits) history m ∧
      history.map Prod.snd = [.reserved 0 .transfer "7" 2,
        .rejected (.quota (.exceeded .transfer 2 .perUser)), .reserved 1 .transfer "8" 1,
        .released, .released] ∧
      ∀ kind, m.globalCounts.get? kind = counted (outstanding (fun k _ => k = kind) history) := by
  have hlimits : LimitsValid smallLimits := fun kind =>
    ⟨by simp [smallLimits], by simp [smallLimits], by simp [smallLimits]⟩
  have hexec : (System.answer step (.init smallLimits) exampleCalls).any (fun (es, _) =>
      es.map Prod.snd = [.reserved 0 .transfer "7" 2,
        .rejected (.quota (.exceeded .transfer 2 .perUser)), .reserved 1 .transfer "8" 1,
        .released, .released]) = true := by decide
  obtain ⟨⟨history, m⟩, hrun, hreplies⟩ := (Option.any_eq_true _ _).mp hexec
  have h : (system smallLimits).Run (.init smallLimits) history m := System.run_of_answer hrun
  exact ⟨history, m, h, of_decide_eq_true hreplies, (quota_accounting hlimits h).2.1⟩

end QuotaManager
end WebSSH.Quota
