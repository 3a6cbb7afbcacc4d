import WebSSH.Lib.Dict
import Mathlib

/-!
# Quotas

`QuotaManager` of `quota_manager.py`: per-user and global counters of reserved units, under the
limits of the configuration. A reservation is an object that several owners may release, so the
reservations are kept in the order of their creation and named by their position.
-/

namespace WebSSH.Quota
open Lib

inductive QuotaKind
  | sshSession
  | quickConnection
  | transfer
  | tempBytes
  | backgroundJob
  deriving DecidableEq, Repr

/-- `{'global': .., 'per_user': ..}` -/
structure KindLimits where
  globalLimit : Int
  perUser : Int
  deriving DecidableEq, Repr

inductive Scope
  | perUser
  | globally
  deriving DecidableEq, Repr

inductive QuotaError
  /-- `ValueError('reservation amount must be a positive integer')` -/
  | amountNotPositive
  /-- `QuotaExceeded(kind, limit, scope)` -/
  | exceeded (kind : QuotaKind) (limit : Int) (scope : Scope)
  deriving DecidableEq, Repr

structure Reservation where
  kind : QuotaKind
  userId : String
  amount : Int
  released : Bool
  deriving DecidableEq, Repr

structure QuotaManager where
  limits : QuotaKind → KindLimits
  userCounts : Dict (QuotaKind × String) Int
  globalCounts : Dict QuotaKind Int
  reservations : List Reservation

namespace QuotaManager

def init (limits : QuotaKind → KindLimits) : QuotaManager := ⟨limits, ∅, ∅, []⟩

/-- `reserve(kind, user_id, amount)`: the position of the new reservation. -/
def reserve (m : QuotaManager) (kind : QuotaKind) (userId : String) (amount : Int) :
    Except QuotaError (Nat × QuotaManager) :=
  if amount ≤ 0 then .error .amountNotPositive
  else
    let userTotal := m.userCounts.getD (kind, userId) 0
    if userTotal + amount > (m.limits kind).perUser then
      .error (.exceeded kind (m.limits kind).perUser .perUser)
    else
      let globalTotal := m.globalCounts.getD kind 0
      if globalTotal + amount > (m.limits kind).globalLimit then
        .error (.exceeded kind (m.limits kind).globalLimit .globally)
      else .ok (m.reservations.length,
        { m with
          userCounts := m.userCounts.set (kind, userId) (userTotal + amount)
          globalCounts := m.globalCounts.set kind (globalTotal + amount)
          reservations := m.reservations ++ [⟨kind, userId, amount, false⟩] })

/-- `if total: counts[key] = total else: del counts[key]` -/
def store {κ : Type} [DecidableEq κ] (counts : Dict κ Int) (key : κ) (total : Int) : Dict κ Int :=
  if total ≠ 0 then counts.set key total else counts.erase key

/-- `_release(reservation)`; `none` is the `KeyError` of a counter that is not there. -/
def release (m : QuotaManager) (i : Nat) : Option QuotaManager :=
  match m.reservations[i]? with
  | none => none
  | some r =>
    if r.released then some m
    else
      match m.userCounts.get? (r.kind, r.userId), m.globalCounts.get? r.kind with
      | some userTotal, some globalTotal => some
        { m with
          userCounts := store m.userCounts (r.kind, r.userId) (userTotal - r.amount)
          globalCounts := store m.globalCounts r.kind (globalTotal - r.amount)
          reservations := m.reservations.set i { r with released := true } }
      | _, _ => none

/-! ## Accounting -/

theorem getD_store {κ : Type} [DecidableEq κ] {counts : Dict κ Int} {key k : κ} {total : Int} :
    (store counts key total).getD k 0 = if k = key then total else counts.getD k 0 := by
  unfold store
  split
  · exact Dict.getD_set
  · rename_i h
    rw [Dict.getD_erase]
    split
    · omega
    · rfl

/-- The units of the reservations of `rs` that satisfy `p` and are not released. -/
def live (p : Reservation → Bool) (rs : List Reservation) : Int :=
  (rs.map fun r => if !r.released && p r then r.amount else 0).sum

theorem live_append {p : Reservation → Bool} {rs : List Reservation} {r : Reservation} :
    live p (rs ++ [r]) = live p rs + if !r.released && p r then r.amount else 0 := by
  simp [live]

/-- Releasing a reservation takes its units off. -/
theorem live_set {p : Reservation → Bool} {rs : List Reservation} {i : Nat} {r : Reservation}
    (hi : rs[i]? = some r) (hr : r.released = false) :
    live p (rs.set i { r with released := true }) = live p rs - if p r then r.amount else 0 := by
  induction rs generalizing i with
  | nil => cases hi
  | cons a rs ih =>
    cases i with
    | zero =>
      obtain rfl : a = r := by simpa using hi
      simp [live, hr]
    | succ i =>
      have := ih (i := i) (by simpa using hi)
      simp only [live, List.set_cons_succ, List.map_cons, List.sum_cons] at this ⊢
      omega

/-- A live reservation is part of what it counts for. -/
theorem le_live {p : Reservation → Bool} {rs : List Reservation} {i : Nat} {r : Reservation}
    (hpos : ∀ r ∈ rs, 0 < r.amount) (hi : rs[i]? = some r) (hr : r.released = false)
    (hp : p r = true) : r.amount ≤ live p rs := by
  induction rs generalizing i with
  | nil => cases hi
  | cons a rs ih =>
    have hrest : 0 ≤ live p rs := by
      refine List.sum_nonneg fun x hx => ?_
      obtain ⟨b, hb, rfl⟩ := List.mem_map.mp hx
      split
      · exact (hpos b (List.mem_cons_of_mem _ hb)).le
      · exact le_refl _
    have ha := hpos a List.mem_cons_self
    have hcons : live p (a :: rs) = (if !a.released && p a then a.amount else 0) + live p rs := by
      simp [live]
    cases i with
    | zero =>
      obtain rfl : a = r := by simpa using hi
      rw [hcons, hr, hp]
      simpa using hrest
    | succ i =>
      have := ih (fun b hb => hpos b (List.mem_cons_of_mem _ hb)) (i := i) (by simpa using hi)
      rw [hcons]
      split <;> omega

/-- Which reservations a counter counts. -/
def ofUser (key : QuotaKind × String) (r : Reservation) : Bool := (r.kind, r.userId) = key
def ofKind (kind : QuotaKind) (r : Reservation) : Bool := r.kind = kind

/-- The counters are the sums over the live reservations. -/
structure Accounts (m : QuotaManager) : Prop where
  positive : ∀ r ∈ m.reservations, 0 < r.amount
  user : ∀ key, m.userCounts.getD key 0 = live (ofUser key) m.reservations
  global : ∀ kind, m.globalCounts.getD kind 0 = live (ofKind kind) m.reservations

theorem Accounts.init (limits : QuotaKind → KindLimits) : Accounts (.init limits) where
  positive _ h := by cases h
  user _ := rfl
  global _ := rfl

/-- What a successful `reserve` does. -/
structure Reserved (m : QuotaManager) (kind : QuotaKind) (userId : String) (amount : Int)
    (i : Nat) (m' : QuotaManager) : Prop where
  index : i = m.reservations.length
  reservations : m'.reservations = m.reservations ++ [⟨kind, userId, amount, false⟩]
  positive : 0 < amount
  limits : m'.limits = m.limits
  user : ∀ key, m'.userCounts.getD key 0 =
    m.userCounts.getD key 0 + if key = (kind, userId) then amount else 0
  global : ∀ k, m'.globalCounts.getD k 0 = m.globalCounts.getD k 0 + if k = kind then amount else 0
  userLimit : m'.userCounts.getD (kind, userId) 0 ≤ (m.limits kind).perUser
  globalLimit : m'.globalCounts.getD kind 0 ≤ (m.limits kind).globalLimit

theorem reserve_ok {m m' : QuotaManager} {kind : QuotaKind} {userId : String} {amount : Int}
    {i : Nat} (h : m.reserve kind userId amount = .ok (i, m')) :
    Reserved m kind userId amount i m' := by
  simp only [reserve] at h
  split at h
  · cases h
  split at h
  · cases h
  split at h
  · cases h
  cases h
  refine ⟨rfl, rfl, by omega, rfl, fun key => ?_, fun k => ?_, ?_, ?_⟩
  · rw [Dict.getD_set]
    split
    · subst key; rfl
    · omega
  · rw [Dict.getD_set]
    split
    · subst k; rfl
    · omega
  · rw [Dict.getD_set_self]; omega
  · rw [Dict.getD_set_self]; omega

theorem Reserved.accounts {m m' : QuotaManager} {kind : QuotaKind} {userId : String}
    {amount : Int} {i : Nat} (h : Reserved m kind userId amount i m') (H : Accounts m) :
    Accounts m' where
  positive r hr := by
    rw [h.reservations] at hr
    rcases List.mem_append.mp hr with hr | hr
    · exact H.positive r hr
    · rw [List.mem_singleton.mp hr]; exact h.positive
  user key := by
    rw [h.user, h.reservations, live_append, H.user]
    simp [ofUser, eq_comm]
  global k := by
    rw [h.global, h.reservations, live_append, H.global]
    simp [ofKind, eq_comm]

/-- What the release of a live reservation does. -/
structure Released (m : QuotaManager) (i : Nat) (r : Reservation) (m' : QuotaManager) : Prop where
  reservations : m'.reservations = m.reservations.set i { r with released := true }
  limits : m'.limits = m.limits
  user : ∀ key, m'.userCounts.getD key 0 =
    m.userCounts.getD key 0 - if key = (r.kind, r.userId) then r.amount else 0
  global : ∀ k, m'.globalCounts.getD k 0 =
    m.globalCounts.getD k 0 - if k = r.kind then r.amount else 0

/-- The counters of a live reservation are there, so its release does not raise. -/
theorem exists_release {m : QuotaManager} (H : Accounts m) {i : Nat} {r : Reservation}
    (hi : m.reservations[i]? = some r) (hr : r.released = false) :
    ∃ m', m.release i = some m' ∧ Released m i r m' := by
  have hpos := H.positive r (List.mem_of_getElem? hi)
  have hcount : ∀ {κ : Type} [DecidableEq κ] (counts : Dict κ Int) (key : κ),
      r.amount ≤ counts.getD key 0 → counts.get? key = some (counts.getD key 0) := by
    intro κ _ counts key hle
    cases hg : counts.get? key with
    | none => simp only [Dict.getD, hg, Option.getD_none] at hle; omega
    | some v => rw [Dict.getD_of_get? hg]
  have hu := hcount m.userCounts (r.kind, r.userId) <| by
    rw [H.user]; exact le_live H.positive hi hr (by simp [ofUser])
  have hg := hcount m.globalCounts r.kind <| by
    rw [H.global]; exact le_live H.positive hi hr (by simp [ofKind])
  have hrelease : m.release i = some { m with
      userCounts := store m.userCounts (r.kind, r.userId)
        (m.userCounts.getD (r.kind, r.userId) 0 - r.amount)
      globalCounts := store m.globalCounts r.kind (m.globalCounts.getD r.kind 0 - r.amount)
      reservations := m.reservations.set i { r with released := true } } := by
    simp [release, hi, hr, hu, hg]
  refine ⟨_, hrelease, rfl, rfl, fun key => ?_, fun k => ?_⟩
  · rw [getD_store]
    split
    · subst key; rfl
    · omega
  · rw [getD_store]
    split
    · subst k; rfl
    · omega

theorem Released.accounts {m m' : QuotaManager} {i : Nat} {r : Reservation}
    (h : Released m i r m') (H : Accounts m) (hi : m.reservations[i]? = some r)
    (hr : r.released = false) : Accounts m' where
  positive x hx := by
    rw [h.reservations] at hx
    rcases List.mem_or_eq_of_mem_set hx with hx | rfl
    · exact H.positive x hx
    · exact H.positive r (List.mem_of_getElem? hi)
  user key := by
    rw [h.user, h.reservations, live_set hi hr, H.user]
    simp [ofUser, eq_comm]
  global k := by
    rw [h.global, h.reservations, live_set hi hr, H.global]
    simp [ofKind, eq_comm]

/-- Releasing a released reservation does nothing. -/
theorem release_released {m : QuotaManager} {i : Nat} {r : Reservation}
    (hi : m.reservations[i]? = some r) (hr : r.released = true) : m.release i = some m := by
  simp [release, hi, hr]

end QuotaManager
end WebSSH.Quota
