import Mathlib.Algebra.Order.Ring.Rat
import Mathlib.Tactic.NormNum
import WebSSH.Lib.Dict
import WebSSH.Lib.System
import WebSSH.Lib.TokenBucket

/-!
# The budget of interactive input

`SSHInputBudget` of `ssh_input_budget.py`, in exact arithmetic. Each call is charged to the bucket of
its user and to that of its session, under the lock. A call has read its clock before it took the
lock, so a bucket may be used at a time before that of its last use.
-/

namespace WebSSH.Limits.InputBudget
open Lib

/-! ## The budget -/

/-- The constructor refuses other values. -/
structure SSHInputBudget where
  sessionCapacity : Int
  sessionRate : Int
  userCapacity : Int
  userRate : Int
  sessionCapacity_pos : 0 < sessionCapacity
  sessionRate_pos : 0 < sessionRate
  userCapacity_pos : 0 < userCapacity
  userRate_pos : 0 < userRate

inductive Key
  | user (userId : Int)
  | session (userId : Int) (sessionId : String)
  deriving DecidableEq

abbrev Bucket := TokenBucket ℚ
abbrev Buckets := Dict Key Bucket

structure Call where
  userId : Int
  sessionId : String
  byteCount : Int
  /-- What the clock showed. -/
  now : ℚ

def Call.userKey (c : Call) : Key := .user c.userId
def Call.sessionKey (c : Call) : Key := .session c.userId c.sessionId

namespace SSHInputBudget

variable (budget : SSHInputBudget)

def capacity : Key → ℚ
  | .user _ => budget.userCapacity
  | .session _ _ => budget.sessionCapacity

def rate : Key → ℚ
  | .user _ => budget.userRate
  | .session _ _ => budget.sessionRate

/-- `_state` -/
def state (key : Key) (now : ℚ) (buckets : Buckets) : Bucket × Buckets :=
  let bucket := TokenBucket.refill (budget.capacity key) (budget.rate key) now (buckets.get? key)
  (bucket, buckets.set key bucket)

def removeStaleFullBuckets (now : ℚ) (buckets : Buckets) : Buckets :=
  buckets.filter fun key bucket =>
    let refillSeconds := budget.capacity key / budget.rate key
    !decide (max 60 (refillSeconds * 2) ≤ now - bucket.updatedAt)

/-- `allow` up to the removal of stale buckets; the delay is in milliseconds. -/
def charge (c : Call) (buckets : Buckets) : (Bool × Int) × Buckets :=
  if c.byteCount ≤ 0 then ((true, 0), buckets)
  else
    let (userBucket, buckets) := budget.state c.userKey c.now buckets
    let (sessionBucket, buckets) := budget.state c.sessionKey c.now buckets
    let waitSeconds := max (max 0 (c.byteCount - userBucket.tokens) / budget.userRate)
      (max 0 (c.byteCount - sessionBucket.tokens) / budget.sessionRate)
    if 0 < waitSeconds then ((false, max 1 (waitSeconds * 1000).ceil), buckets)
    else
      ((true, 0), (buckets.set c.userKey (userBucket.take c.byteCount)).set c.sessionKey
        (sessionBucket.take c.byteCount))

def allow (c : Call) (buckets : Buckets) : (Bool × Int) × Buckets :=
  let (result, buckets) := budget.charge c buckets
  if 0 < c.byteCount ∧ result.1 ∧ 1024 < buckets.size then
    (result, budget.removeStaleFullBuckets c.now buckets)
  else (result, buckets)

end SSHInputBudget

/-! ## All runs -/

structure World where
  buckets : Buckets := ∅
  /-- When the bucket of a key was last used, or was removed. -/
  seen : Key → Option ℚ := fun _ => none

variable (budget : SSHInputBudget)

/-- The call is charged to the bucket. -/
def Call.Uses (c : Call) (key : Key) : Prop :=
  0 < c.byteCount ∧ (key = c.userKey ∨ key = c.sessionKey)

instance (c : Call) (key : Key) : Decidable (c.Uses key) := inferInstanceAs (Decidable (_ ∧ _))

/-- The world after a call that leaves these buckets. -/
def World.after (w : World) (c : Call) (buckets : Buckets) : World where
  buckets := buckets
  seen key :=
    if c.Uses key ∨ (w.buckets.get? key).isSome ∧ buckets.get? key = none then some c.now
    else w.seen key

/-- A call takes the lock. -/
def next (w : World) (c : Call) : Option ((Bool × Int) × World) :=
  let (result, buckets) := budget.allow c w.buckets
  some (result, w.after c buckets)

/-- The calls in the order in which they take the lock, with their results. -/
def system : System World (Call × (Bool × Int)) := System.calls {} (next budget)

/-- The same budget that keeps every bucket. -/
def keeping : System Buckets (Call × (Bool × Int)) :=
  System.calls ∅ fun buckets c => some (budget.charge c buckets)

/-- The clock of the call is behind the last use, or the removal, of a bucket that it is charged
to. -/
def Behind (w : World) (c : Call) : Prop :=
  0 < c.byteCount ∧
    ((w.seen c.userKey).any (c.now < ·) = true ∨ (w.seen c.sessionKey).any (c.now < ·) = true)

instance (w : World) (c : Call) : Decidable (Behind w c) := inferInstanceAs (Decidable (_ ∧ _))

/-- The bytes that were allowed and charged to the bucket. -/
def spent (key : Key) (history : List (Call × (Bool × Int))) : ℚ :=
  (history.map fun a => if a.1.Uses key ∧ a.2.1 then (a.1.byteCount : ℚ) else 0).sum

variable {budget : SSHInputBudget} {key : Key} {c : Call} {buckets : Buckets}

theorem spent_concat (history : List (Call × (Bool × Int))) (r : Bool × Int) :
    spent key (history ++ [(c, r)]) =
      spent key history + if c.Uses key ∧ r.1 then (c.byteCount : ℚ) else 0 := by
  rw [spent, List.map_append, List.sum_append, ← spent]
  simp

theorem SSHInputBudget.capacity_pos (key : Key) : 0 < budget.capacity key := by
  cases key
  · exact Int.cast_pos.mpr budget.userCapacity_pos
  · exact Int.cast_pos.mpr budget.sessionCapacity_pos

theorem SSHInputBudget.rate_pos (key : Key) : 0 < budget.rate key := by
  cases key
  · exact Int.cast_pos.mpr budget.userRate_pos
  · exact Int.cast_pos.mpr budget.sessionRate_pos

theorem userKey_ne_sessionKey : c.userKey ≠ c.sessionKey := nofun

/-! ## What a call does -/

/-- The bucket as the call finds it. -/
def found (budget : SSHInputBudget) (buckets : Buckets) (now : ℚ) (key : Key) : Bucket :=
  TokenBucket.refill (budget.capacity key) (budget.rate key) now (buckets.get? key)

/-- The three ways in which a call ends. -/
inductive Charged (budget : SSHInputBudget) (c : Call) (buckets : Buckets) :
    (Bool × Int) × Buckets → Prop
  | unused (h : c.byteCount ≤ 0) : Charged budget c buckets ((true, 0), buckets)
  | denied {r : Int} {after : Buckets} (h : 0 < c.byteCount)
    (hafter : ∀ key, after.get? key =
      if c.Uses key then some (found budget buckets c.now key) else buckets.get? key) :
    Charged budget c buckets ((false, r), after)
  | allowed {after : Buckets} (h : 0 < c.byteCount)
    (htokens : ∀ key, c.Uses key → c.byteCount ≤ (found budget buckets c.now key).tokens)
    (hafter : ∀ key, after.get? key =
      if c.Uses key then some ((found budget buckets c.now key).take (c.byteCount : ℚ))
      else buckets.get? key) :
    Charged budget c buckets ((true, 0), after)

theorem get?_set_set {userBucket sessionBucket : Bucket} (h : 0 < c.byteCount) (key : Key) :
    ((buckets.set c.userKey userBucket).set c.sessionKey sessionBucket).get? key =
      if c.Uses key then some (if key = c.userKey then userBucket else sessionBucket)
      else buckets.get? key := by
  rw [Dict.get?_set, Dict.get?_set]
  rcases eq_or_ne key c.sessionKey with rfl | hsession
  · rw [if_pos rfl, if_pos ⟨h, .inr rfl⟩, if_neg userKey_ne_sessionKey.symm]
  · rw [if_neg hsession]
    rcases eq_or_ne key c.userKey with rfl | huser
    · rw [if_pos rfl, if_pos ⟨h, .inl rfl⟩, if_pos rfl]
    · rw [if_neg huser, if_neg fun hu => hu.2.elim huser hsession]

/-- A call that does not have to wait for a bucket. -/
theorem le_of_deficit {n tokens rate : ℚ} (hrate : 0 < rate) (h : max 0 (n - tokens) / rate ≤ 0) :
    n ≤ tokens := by
  have hmax : max 0 (n - tokens) ≤ 0 := by
    have hmul := (div_le_iff₀ hrate).mp h
    rwa [zero_mul] at hmul
  exact sub_nonpos.mp ((le_max_right _ _).trans hmax)

/-- The call is decided by the two buckets as it finds them. -/
theorem charge_of_pos (h : 0 < c.byteCount) :
    budget.charge c buckets =
      let userBucket := found budget buckets c.now c.userKey
      let sessionBucket := found budget buckets c.now c.sessionKey
      let waitSeconds := max (max 0 (c.byteCount - userBucket.tokens) / budget.userRate)
        (max 0 (c.byteCount - sessionBucket.tokens) / budget.sessionRate)
      let after := (buckets.set c.userKey userBucket).set c.sessionKey sessionBucket
      if 0 < waitSeconds then ((false, max 1 (waitSeconds * 1000).ceil), after)
      else
        ((true, 0), (after.set c.userKey (userBucket.take (c.byteCount : ℚ))).set c.sessionKey
          (sessionBucket.take (c.byteCount : ℚ))) := by
  have hsession : TokenBucket.refill (budget.capacity c.sessionKey) (budget.rate c.sessionKey) c.now
      ((buckets.set c.userKey (found budget buckets c.now c.userKey)).get? c.sessionKey) =
        found budget buckets c.now c.sessionKey := by
    rw [Dict.get?_set_of_ne userKey_ne_sessionKey.symm]
    rfl
  have huser : TokenBucket.refill (budget.capacity c.userKey) (budget.rate c.userKey) c.now
      (buckets.get? c.userKey) = found budget buckets c.now c.userKey := rfl
  rw [SSHInputBudget.charge, if_neg (not_le.mpr h)]
  dsimp only [SSHInputBudget.state]
  rw [huser, hsession]

theorem charge_charged (budget : SSHInputBudget) (c : Call) (buckets : Buckets) :
    Charged budget c buckets (budget.charge c buckets) := by
  rcases le_or_gt c.byteCount 0 with h | h
  · rw [SSHInputBudget.charge, if_pos h]
    exact .unused h
  · have hkey (f : Bucket → Bucket) (key : Key) : (if c.Uses key then
        some (if key = c.userKey then f (found budget buckets c.now c.userKey)
          else f (found budget buckets c.now c.sessionKey)) else buckets.get? key) =
        if c.Uses key then some (f (found budget buckets c.now key)) else buckets.get? key := by
      split
      · rename_i hu
        split
        · rename_i hk
          rw [hk]
        · rename_i hk
          rw [hu.2.resolve_left hk]
      · rfl
    rw [charge_of_pos h]
    dsimp only
    split
    · exact .denied h fun key => (get?_set_set h key).trans (hkey id key)
    · rename_i hwait
      have hwait := not_lt.mp hwait
      refine .allowed h (fun key hu => ?_) fun key => ?_
      · rcases hu.2 with rfl | rfl
        · exact le_of_deficit (Int.cast_pos.mpr budget.userRate_pos) ((le_max_left _ _).trans hwait)
        · exact le_of_deficit (Int.cast_pos.mpr budget.sessionRate_pos)
            ((le_max_right _ _).trans hwait)
      · rw [get?_set_set h, get?_set_set h, ← hkey (TokenBucket.take (c.byteCount : ℚ))]
        split
        · rfl
        · rfl

/-- Calls that find the same buckets are told the same. -/
theorem charge_congr {buckets' : Buckets}
    (h : ∀ key, c.Uses key → found budget buckets c.now key = found budget buckets' c.now key) :
    (budget.charge c buckets).1 = (budget.charge c buckets').1 := by
  rcases le_or_gt c.byteCount 0 with hc | hc
  · rw [SSHInputBudget.charge, SSHInputBudget.charge, if_pos hc, if_pos hc]
  · rw [charge_of_pos hc, charge_of_pos hc, h c.userKey ⟨hc, .inl rfl⟩, h c.sessionKey ⟨hc, .inr rfl⟩]
    dsimp only
    split
    · rfl
    · rfl

/-- The bucket would have been filled twice since it was last used. -/
def Stale (budget : SSHInputBudget) (now : ℚ) (key : Key) (b : Bucket) : Prop :=
  0 < now - b.updatedAt ∧ 2 * budget.capacity key ≤ (now - b.updatedAt) * budget.rate key

theorem get?_removeStale (now : ℚ) (key : Key) :
    (budget.removeStaleFullBuckets now buckets).get? key = buckets.get? key ∨
      (budget.removeStaleFullBuckets now buckets).get? key = none ∧
        ∃ b, buckets.get? key = some b ∧ Stale budget now key b := by
  rw [SSHInputBudget.removeStaleFullBuckets, Dict.get?_filter]
  cases hb : buckets.get? key with
  | none => exact .inl rfl
  | some b =>
    rw [Option.filter_some]
    split
    · exact .inl rfl
    · rename_i hstale
      refine .inr ⟨rfl, b, rfl, ?_⟩
      have hmax : max 60 (budget.capacity key / budget.rate key * 2) ≤ now - b.updatedAt := by
        simpa using hstale
      obtain ⟨h60, hrefill⟩ := max_le_iff.mp hmax
      have hrate := budget.rate_pos key
      refine ⟨by linarith, ?_⟩
      have hmul := mul_le_mul_of_nonneg_right hrefill hrate.le
      have heq : budget.capacity key / budget.rate key * 2 * budget.rate key =
          2 * budget.capacity key := by
        rw [mul_right_comm, div_mul_cancel₀ _ (ne_of_gt hrate), mul_comm]
      linarith

/-- A call leaves the buckets that it is charged to, and any other one unless it is stale. -/
theorem allow_spec (budget : SSHInputBudget) (c : Call) (buckets : Buckets) :
    (budget.allow c buckets).1 = (budget.charge c buckets).1 ∧
      ∀ key, (budget.allow c buckets).2.get? key = (budget.charge c buckets).2.get? key ∨
        (budget.allow c buckets).2.get? key = none ∧
          ∃ b, (budget.charge c buckets).2.get? key = some b ∧ Stale budget c.now key b := by
  unfold SSHInputBudget.allow
  dsimp only
  split
  · exact ⟨rfl, fun key => get?_removeStale c.now key⟩
  · exact ⟨rfl, fun _ => .inl rfl⟩

/-! ## What has been spent -/

def times (history : List (Call × (Bool × Int))) : List ℚ := history.map fun a => a.1.now

/-- The bucket of a key, and when it was last seen, with what has been spent. -/
inductive Accounted (budget : SSHInputBudget) (history : List (Call × (Bool × Int))) (key : Key) :
    Option Bucket → Option ℚ → Prop
  | fresh (h : spent key history = 0) : Accounted budget history key none none
  | used {b : Bucket} {first t : ℚ} (hb : b.updatedAt = t) (hfirst : first ∈ times history)
    (ht : t ∈ times history)
    (H : b.Accounts (budget.capacity key) (budget.rate key) first (spent key history)) :
    Accounted budget history key (some b) (some t)
  | removed {first t : ℚ} (hfirst : first ∈ times history) (ht : t ∈ times history) (hle : first ≤ t)
    (hspent : spent key history ≤ budget.rate key * (t - first)) :
    Accounted budget history key none (some t)

/-- The bucket as a call finds it that is not behind. -/
theorem Accounted.found {history : List (Call × (Bool × Int))} {now : ℚ} {seen : Option ℚ}
    (H : Accounted budget history key (buckets.get? key) seen)
    (h : ∀ t, seen = some t → t ≤ now) :
    ∃ first, (first ∈ times history ∨ first = now) ∧
      (found budget buckets now key).Accounts (budget.capacity key) (budget.rate key) first
        (spent key history) := by
  have hcapacity := (budget.capacity_pos key).le
  unfold InputBudget.found
  cases hb : buckets.get? key with
  | none =>
    rw [hb] at H
    cases H with
    | fresh hspent => exact ⟨now, .inr rfl, hspent ▸ .new hcapacity⟩
    | removed hfirst ht hle hspent =>
      have hnow := h _ rfl
      refine ⟨_, .inl hfirst, .renew (hspent.trans ?_) hcapacity (hle.trans hnow)⟩
      exact mul_le_mul_of_nonneg_left (sub_le_sub_right hnow _) (budget.rate_pos key).le
  | some b =>
    rw [hb] at H
    cases H with
    | used hb hfirst ht H =>
      exact ⟨_, .inl hfirst, H.refill hcapacity (budget.rate_pos key).le (hb ▸ h _ rfl)⟩

theorem times_concat (history : List (Call × (Bool × Int))) (r : Bool × Int) :
    times (history ++ [(c, r)]) = times history ++ [c.now] := by
  rw [times, List.map_append]
  rfl

/-- A call keeps the accounts of the buckets that it is charged to. -/
theorem Accounted.charge {history : List (Call × (Bool × Int))} {seen : Option ℚ}
    (H : Accounted budget history key (buckets.get? key) seen) (huses : c.Uses key)
    (h : ∀ t, seen = some t → t ≤ c.now) :
    Accounted budget (history ++ [(c, (budget.charge c buckets).1)]) key
      ((budget.charge c buckets).2.get? key) (some c.now) := by
  obtain ⟨first, hfirst, hfound⟩ := H.found h
  have hnow : (InputBudget.found budget buckets c.now key).updatedAt = c.now :=
    TokenBucket.refill_updatedAt _
  have hfirst (r : Bool × Int) : first ∈ times (history ++ [(c, r)]) := by
    rw [times_concat]
    rcases hfirst with hfirst | rfl
    · exact List.mem_append_left _ hfirst
    · exact List.mem_append_right _ (List.mem_singleton_self _)
  have hlast (r : Bool × Int) : c.now ∈ times (history ++ [(c, r)]) := by
    rw [times_concat]
    exact List.mem_append_right _ (List.mem_singleton_self _)
  have hcharged := charge_charged budget c buckets
  generalize budget.charge c buckets = r at hcharged
  cases hcharged with
  | unused hzero => exact absurd huses.1 (not_lt.mpr hzero)
  | denied _ hafter =>
    rw [hafter, if_pos huses]
    refine .used hnow (hfirst _) (hlast _) ?_
    rw [spent_concat, if_neg (by simp), add_zero]
    exact hfound
  | allowed _ htokens hafter =>
    rw [hafter, if_pos huses]
    refine .used hnow (hfirst _) (hlast _) ?_
    rw [spent_concat, if_pos ⟨huses, rfl⟩]
    exact hfound.take (htokens key huses)

/-- The accounts of another bucket stay as they are, also where it is removed. -/
theorem Accounted.other {history : List (Call × (Bool × Int))} {seen : Option ℚ} {o : Option Bucket}
    (H : Accounted budget history key o seen) (huses : ¬c.Uses key) (r : Bool × Int) :
    Accounted budget (history ++ [(c, r)]) key o seen := by
  have hspent : spent key (history ++ [(c, r)]) = spent key history := by
    rw [spent_concat, if_neg fun h => huses h.1, add_zero]
  have htimes {t : ℚ} (ht : t ∈ times history) : t ∈ times (history ++ [(c, r)]) := by
    rw [times_concat]
    exact List.mem_append_left _ ht
  cases H with
  | fresh h => exact .fresh (hspent.trans h)
  | used hb hfirst ht H => exact .used hb (htimes hfirst) (htimes ht) (hspent ▸ H)
  | removed hfirst ht hle h => exact .removed (htimes hfirst) (htimes ht) hle (hspent ▸ h)

theorem Accounted.remove {history : List (Call × (Bool × Int))} {seen : Option ℚ} {b : Bucket}
    (H : Accounted budget history key (some b) seen) (hstale : Stale budget c.now key b)
    (r : Bool × Int) (hspent : spent key (history ++ [(c, r)]) = spent key history) :
    Accounted budget (history ++ [(c, r)]) key none (some c.now) := by
  cases H with
  | used hb hfirst ht H =>
    have hlater := sub_pos.mp hstale.1
    refine .removed (?_ : _ ∈ _) ?_ (H.started.trans hlater.le) ?_
    · rw [times_concat]
      exact List.mem_append_left _ hfirst
    · rw [times_concat]
      exact List.mem_append_right _ (List.mem_singleton_self _)
    · rw [hspent]
      exact H.replace hstale.2 (budget.capacity_pos key).le

theorem Accounted.fullAt {history : List (Call × (Bool × Int))} {seen : Option ℚ} {b : Bucket}
    {now : ℚ} (H : Accounted budget history key (some b) seen) (hstale : Stale budget now key b) :
    b.FullAt (budget.capacity key) (budget.rate key) now := by
  cases H with
  | used hb hfirst ht H =>
    have hnonneg := H.nonneg
    have hcapacity := budget.capacity_pos key
    refine ⟨(budget.rate_pos key).le, (sub_pos.mp hstale.1).le, ?_⟩
    linarith [hstale.2]

/-- The bound on what has been spent. -/
theorem Accounted.spent_le {history : List (Call × (Bool × Int))} {seen : Option ℚ}
    {o : Option Bucket} (H : Accounted budget history key o seen) {lo hi : ℚ} (hle : lo ≤ hi)
    (h : ∀ t ∈ times history, lo ≤ t ∧ t ≤ hi) :
    spent key history ≤ budget.capacity key + budget.rate key * (hi - lo) := by
  have hcapacity := budget.capacity_pos key
  have hrate := budget.rate_pos key
  have hwithin {first t : ℚ} (hfirst : first ∈ times history) (ht : t ∈ times history) :
      budget.rate key * (t - first) ≤ budget.rate key * (hi - lo) :=
    mul_le_mul_of_nonneg_left (sub_le_sub (h t ht).2 (h first hfirst).1) hrate.le
  cases H with
  | fresh hspent =>
    rw [hspent]
    exact add_nonneg hcapacity.le (mul_nonneg hrate.le (sub_nonneg.mpr hle))
  | used hb hfirst ht H =>
    have hspent := H.spent_le
    rw [hb] at hspent
    linarith [hwithin hfirst ht]
  | removed hfirst ht _ hspent =>
    linarith [hwithin hfirst ht]

/-! ## A budget that keeps every bucket -/

/-- The buckets are the same, or one of them was removed when it was full. -/
inductive Alike (budget : SSHInputBudget) (key : Key) :
    Option Bucket → Option Bucket → Option ℚ → Prop
  | same {o : Option Bucket} {seen : Option ℚ} : Alike budget key o o seen
  | removed {b : Bucket} {t : ℚ} (h : b.FullAt (budget.capacity key) (budget.rate key) t) :
    Alike budget key none (some b) (some t)

theorem Alike.found {kept : Buckets} {seen : Option ℚ}
    (H : Alike budget key (buckets.get? key) (kept.get? key) seen) {now : ℚ}
    (h : ∀ t, seen = some t → t ≤ now) :
    InputBudget.found budget buckets now key = InputBudget.found budget kept now key := by
  unfold InputBudget.found
  generalize buckets.get? key = o, kept.get? key = o' at H
  cases H with
  | same => rfl
  | removed hfull => exact ((hfull.mono (h _ rfl)).refill).symm

/-- What holds of a run in which no call is behind. -/
structure Inv (budget : SSHInputBudget) (history : List (Call × (Bool × Int))) (w : World)
    (kept : Buckets) : Prop where
  accounted : ∀ key, Accounted budget history key (w.buckets.get? key) (w.seen key)
  alike : ∀ key, Alike budget key (w.buckets.get? key) (kept.get? key) (w.seen key)

theorem Inv.init : Inv budget [] {} ∅ where
  accounted _ := .fresh rfl
  alike _ := .same

theorem charge_other (huses : ¬c.Uses key) :
    (budget.charge c buckets).2.get? key = buckets.get? key := by
  have hcharged := charge_charged budget c buckets
  generalize budget.charge c buckets = r at hcharged
  cases hcharged with
  | unused => rfl
  | denied _ hafter => rw [hafter, if_neg huses]
  | allowed _ _ hafter => rw [hafter, if_neg huses]

/-- Calls that find the same buckets leave the same buckets. -/
theorem charge_get?_congr {kept : Buckets}
    (h : ∀ key, c.Uses key → found budget buckets c.now key = found budget kept c.now key)
    (huses : c.Uses key) :
    (budget.charge c buckets).2.get? key = (budget.charge c kept).2.get? key := by
  have hresult := charge_congr h
  have hcharged := charge_charged budget c buckets
  have hkept := charge_charged budget c kept
  generalize budget.charge c buckets = r at hcharged hresult
  generalize budget.charge c kept = r' at hkept hresult
  cases hcharged with
  | unused hzero => exact absurd huses.1 (not_lt.mpr hzero)
  | denied _ hafter =>
    cases hkept with
    | unused hzero => exact absurd huses.1 (not_lt.mpr hzero)
    | denied _ hafter' => rw [hafter, hafter', if_pos huses, if_pos huses, h key huses]
    | allowed => cases hresult
  | allowed _ _ hafter =>
    cases hkept with
    | unused hzero => exact absurd huses.1 (not_lt.mpr hzero)
    | denied => cases hresult
    | allowed _ _ hafter' => rw [hafter, hafter', if_pos huses, if_pos huses, h key huses]

/-- The bucket that a call has been charged to is not stale. -/
theorem charge_not_stale (huses : c.Uses key) {b : Bucket}
    (hb : (budget.charge c buckets).2.get? key = some b) : ¬Stale budget c.now key b := by
  have hnow : (found budget buckets c.now key).updatedAt = c.now := TokenBucket.refill_updatedAt _
  have hupdated : b.updatedAt = c.now := by
    have hcharged := charge_charged budget c buckets
    generalize budget.charge c buckets = r at hcharged hb
    cases hcharged with
    | unused hzero => exact absurd huses.1 (not_lt.mpr hzero)
    | denied _ hafter =>
      rw [hafter, if_pos huses] at hb
      cases hb
      exact hnow
    | allowed _ _ hafter =>
      rw [hafter, if_pos huses] at hb
      cases hb
      exact hnow
  intro hstale
  have hpos := hstale.1
  rw [hupdated, sub_self] at hpos
  exact lt_irrefl _ hpos

/-- A call that is not behind keeps the accounts, and is told what the other budget tells it. -/
theorem Inv.allow {history : List (Call × (Bool × Int))} {w : World} {kept : Buckets}
    (H : Inv budget history w kept) (h : ¬Behind w c) :
    (budget.allow c w.buckets).1 = (budget.charge c kept).1 ∧
      Inv budget (history ++ [(c, (budget.allow c w.buckets).1)])
        (w.after c (budget.allow c w.buckets).2) (budget.charge c kept).2 := by
  have hnow (key : Key) (huses : c.Uses key) (t : ℚ) (ht : w.seen key = some t) : t ≤ c.now := by
    have hany (hlt : c.now < t) : (w.seen key).any (c.now < ·) = true := by
      rw [ht]
      exact decide_eq_true hlt
    refine not_lt.mp fun hlt => h ⟨huses.1, ?_⟩
    rcases huses.2 with rfl | rfl
    · exact .inl (hany hlt)
    · exact .inr (hany hlt)
  have hfound (key : Key) (huses : c.Uses key) :
      found budget w.buckets c.now key = found budget kept c.now key :=
    (H.alike key).found (hnow key huses)
  obtain ⟨hresult, hleft⟩ := allow_spec budget c w.buckets
  have hseen (key : Key) : (w.after c (budget.allow c w.buckets).2).seen key =
      if c.Uses key ∨
        (w.buckets.get? key).isSome ∧ (budget.allow c w.buckets).2.get? key = none then some c.now
      else w.seen key := rfl
  have hkey (key : Key) :
      Accounted budget (history ++ [(c, (budget.allow c w.buckets).1)]) key
          ((budget.allow c w.buckets).2.get? key)
          ((w.after c (budget.allow c w.buckets).2).seen key) ∧
        Alike budget key ((budget.allow c w.buckets).2.get? key)
          ((budget.charge c kept).2.get? key)
          ((w.after c (budget.allow c w.buckets).2).seen key) := by
    rw [hseen]
    by_cases huses : c.Uses key
    · have hsame : (budget.allow c w.buckets).2.get? key = (budget.charge c w.buckets).2.get? key :=
        (hleft key).resolve_right fun ⟨_, b, hb, hstale⟩ => charge_not_stale huses hb hstale
      rw [if_pos (.inl huses), hsame, ← charge_get?_congr hfound huses, hresult]
      exact ⟨(H.accounted key).charge huses (hnow key huses), .same⟩
    · have hleft := hleft key
      rw [charge_other huses] at hleft
      rw [charge_other huses]
      rcases hleft with hsame | ⟨hnone, b, hb, hstale⟩
      · rw [hsame, if_neg]
        · exact ⟨(H.accounted key).other huses _, H.alike key⟩
        · rintro (hu | ⟨hsome, hnone⟩)
          · exact huses hu
          · rw [hnone] at hsome
            cases hsome
      · have haccounted := H.accounted key
        have halike := H.alike key
        rw [hb] at haccounted halike
        rw [hnone, if_pos (.inr ⟨by rw [hb]; rfl, rfl⟩)]
        refine ⟨haccounted.remove hstale _ ?_, ?_⟩
        · rw [spent_concat, if_neg fun hu => huses hu.1, add_zero]
        · generalize kept.get? key = o at halike
          cases halike with
          | same => exact .removed (haccounted.fullAt hstale)
  exact ⟨hresult.trans (charge_congr hfound), fun key => (hkey key).1, fun key => (hkey key).2⟩

/-! ## The bound -/

/-- In a run in which no call is behind, no bucket is overdrawn, and removing buckets is not seen. -/
theorem run_bounded {history : List (Call × (Bool × Int))} {w : World}
    (h : ((system budget).restrict fun w a _ => ¬Behind w a.1).Run {} history w) :
    (∀ key lo hi, lo ≤ hi → (∀ a ∈ history, lo ≤ a.1.now ∧ a.1.now ≤ hi) →
      spent key history ≤ budget.capacity key + budget.rate key * (hi - lo)) ∧
    ∃ kept, (keeping budget).Run ∅ history kept := by
  have hinv : ∃ kept, Inv budget history w kept ∧ (keeping budget).Run ∅ history kept := by
    refine h.history (P := fun history w => ∃ kept, Inv budget history w kept ∧
      (keeping budget).Run ∅ history kept) ⟨∅, .init, .refl⟩ ?_
    rintro history w ⟨c, r⟩ v ⟨kept, H, hrun⟩ ⟨hbehind, hstep⟩
    have hnext : next budget w c = some (r, v) := hstep
    obtain ⟨rfl, rfl⟩ := Prod.mk.inj (Option.some.inj hnext)
    obtain ⟨hresult, hinv⟩ := H.allow hbehind
    exact ⟨_, hinv, hrun.snoc (congrArg some (Prod.ext hresult.symm rfl))⟩
  obtain ⟨kept, H, hrun⟩ := hinv
  refine ⟨fun key lo hi hle hwithin => (H.accounted key).spent_le hle fun t ht => ?_, kept, hrun⟩
  obtain ⟨a, ha, rfl⟩ := List.mem_map.mp ht
  exact hwithin a ha

/-- Ten bytes, and one byte a second. -/
def tenBytes : SSHInputBudget where
  sessionCapacity := 10
  sessionRate := 1
  userCapacity := 10
  userRate := 1
  sessionCapacity_pos := by decide
  sessionRate_pos := by decide
  userCapacity_pos := by decide
  userRate_pos := by decide

def typed (byteCount : Int) (now : ℚ) : Call := ⟨1, "s", byteCount, now⟩

/-- The third call read its clock before all others, and takes the lock after the second. -/
def lateCall : List Call := [typed 10 0, typed 10 10, typed 10 0, typed 10 10]

theorem lateCall_overdraws : ∃ history w, (system tenBytes).Run {} history w ∧
    (∀ a ∈ history, 0 ≤ a.1.now ∧ a.1.now ≤ 10) ∧ spent (.user 1) history = 30 ∧
    ¬ spent (.user 1) history ≤ tenBytes.capacity (.user 1) + tenBytes.rate (.user 1) * (10 - 0) := by
  have hrun : (System.answer (next tenBytes) {} lateCall).any (fun r => decide
      ((∀ a ∈ r.1, 0 ≤ a.1.now ∧ a.1.now ≤ 10) ∧ spent (.user 1) r.1 = 30)) = true := by
    decide +kernel
  obtain ⟨⟨history, w⟩, hr, hspent⟩ := (Option.any_eq_true _ _).mp hrun
  obtain ⟨hwithin, hspent⟩ := of_decide_eq_true hspent
  refine ⟨history, w, System.run_of_answer hr, hwithin, hspent, ?_⟩
  rw [hspent]
  decide +kernel

/-- The first bucket is empty, and is full again after ten seconds. -/
theorem run_bounded_inOrder : ∃ history w,
    ((system tenBytes).restrict fun w a _ => ¬Behind w a.1).Run {} history w ∧
    history.map (·.2.1) = [true, false, true] ∧
    spent (.user 1) history ≤ tenBytes.capacity (.user 1) + tenBytes.rate (.user 1) * (10 - 0) := by
  have hrun : (System.answerIf (fun w c => ¬Behind w c) (next tenBytes) {}
      [typed 10 0, typed 1 (1 / 2), typed 10 10]).any (fun r => decide
      (r.1.map (·.2.1) = [true, false, true] ∧ ∀ a ∈ r.1, 0 ≤ a.1.now ∧ a.1.now ≤ 10)) = true := by
    decide +kernel
  obtain ⟨⟨history, w⟩, hr, hresults⟩ := (Option.any_eq_true _ _).mp hrun
  obtain ⟨hresults, hwithin⟩ := of_decide_eq_true hresults
  have hsteps : ((system tenBytes).restrict fun w a _ => ¬Behind w a.1).Run {} history w :=
    System.run_of_answerIf hr
  exact ⟨history, w, hsteps, hresults, (run_bounded hsteps).1 (.user 1) 0 10 (by decide) hwithin⟩

end WebSSH.Limits.InputBudget
