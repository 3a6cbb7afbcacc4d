import Mathlib
import WebSSH.Limits.RateLimiter

/-!
# The Redis rate limiter beside the in-memory one

`RedisRateLimiter.allow` evaluates `_REDIS_ALLOW_SCRIPT` on a sorted set for each key. Both limiters
keep the end of the same history of admitted times. They count it differently only where a time lies
exactly on the edge of the window.
-/

namespace WebSSH.Limits
open Lib

/-! ## Sorted sets -/

/-- The scores of the members of a sorted set, and when its key expires. -/
structure SortedSet where
  scores : List ℚ
  expireAt : Option ℚ

abbrev Redis := Dict String SortedSet

namespace Redis
variable (r : Redis) (key : String)

/-- Keys are gone when their time has come. -/
def expired (now : ℚ) : Redis := r.filter fun _ set => set.expireAt.all (now < ·)

/-- A set that loses its last member is removed. -/
def zremrangebyscore (low high : ℚ) : Redis :=
  match r.get? key with
  | none => r
  | some set =>
    let scores := set.scores.filter fun score => ¬ (low ≤ score ∧ score ≤ high)
    if scores = [] then r.erase key else r.set key { set with scores := scores }

def zcard : Nat :=
  match r.get? key with
  | none => 0
  | some set => set.scores.length

/-- `ZADD` of a new member. -/
def zadd (score : ℚ) : Redis :=
  match r.get? key with
  | none => r.set key ⟨[score], none⟩
  | some set => r.set key { set with scores := set.scores ++ [score] }

/-- `EXPIRE`; a time that is not positive deletes the key. -/
def expire (ttl : Int) (now : ℚ) : Redis :=
  if ttl ≤ 0 then r.erase key
  else
    match r.get? key with
    | none => r
    | some set => r.set key { set with expireAt := some (now + ttl) }

/-- `_REDIS_ALLOW_SCRIPT` -/
def allowScript (windowStart now : ℚ) (limit ttl : Int) : Bool × Redis :=
  let r := r.zremrangebyscore key 0 windowStart
  if limit ≤ r.zcard key then (false, r)
  else (true, (r.zadd key now).expire key ttl now)

/-- `RedisRateLimiter.allow` while the server answers. -/
def allow (limit windowSeconds : Int) (now : ℚ) : Bool × Redis :=
  (r.expired now).allowScript ("ratelimit:" ++ key) (now - windowSeconds) now limit
    (windowSeconds + 1)

/-- The scores of a rate-limit bucket. -/
def scores : List ℚ := ((r.get? ("ratelimit:" ++ key)).map SortedSet.scores).getD []

end Redis

/-! ## Sequences of requests -/

section
variable (limit window : String → Int)

/-- What the in-memory limiter answers, request after request. -/
def RateLimiter.answers : RateLimiter → List Call → List Bool
  | _, [] => []
  | s, c :: cs =>
    let (b, t) := s.allow c.key (limit c.key) (window c.key) c.now
    b :: t.answers cs

/-- What the Redis limiter answers. -/
def Redis.answers : Redis → List Call → List Bool
  | _, [] => []
  | r, c :: cs =>
    let (b, t) := r.allow c.key (limit c.key) (window c.key) c.now
    b :: answers t cs

/-- The newest time of the bucket is inside the window, the times younger than the window leave room
for the request, and those exactly a window old fill the bucket. -/
def OnEdge (s : RateLimiter) (c : Call) : Prop :=
  (∃ last ∈ (s.queue c.key).getLast?, c.now < last + window c.key) ∧
    (s.queue c.key).countP (c.now - window c.key < ·) < limit c.key ∧
    limit c.key ≤ (s.queue c.key).countP (c.now - window c.key ≤ ·)

/-- Some request of the sequence meets the edge. -/
def MeetsEdge : RateLimiter → List Call → Prop
  | _, [] => False
  | s, c :: cs => OnEdge limit window s c ∨
      MeetsEdge (s.allow c.key (limit c.key) (window c.key) c.now).2 cs

instance (s : RateLimiter) (c : Call) : Decidable (OnEdge limit window s c) :=
  inferInstanceAs (Decidable (_ ∧ _ ∧ _))

instance decidableMeetsEdge : ∀ (s : RateLimiter) (cs : List Call),
    Decidable (MeetsEdge limit window s cs)
  | _, [] => inferInstanceAs (Decidable False)
  | s, c :: cs =>
    have := decidableMeetsEdge (s.allow c.key (limit c.key) (window c.key) c.now).2 cs
    inferInstanceAs (Decidable (_ ∨ _))

end

variable {limit window : String → Int} {key : String} {s t : RateLimiter} {r : Redis}
  {history : List (Call × Bool)}

/-! ## The times inside the window -/

/-- From `now` on, the queue has the times of the history that are younger than `w`. -/
def Recent (w now : ℚ) (history queue : List ℚ) : Prop :=
  ∀ later, now ≤ later → queue.filter (later - w < ·) = history.filter (later - w < ·)

namespace Recent
variable {w now : ℚ} {times queue : List ℚ}

theorem of_window (H : Window w now times queue) : Recent w now times queue := by
  obtain ⟨dropped, rfl, hold⟩ := H
  intro later hlater
  have hnone : dropped.filter (later - w < ·) = [] := by
    refine List.filter_eq_nil_iff.mpr fun e he hin => ?_
    have hin : later - w < e := of_decide_eq_true hin
    linarith [hold e he]
  rw [List.filter_append, hnone, List.nil_append]

theorem mono {later : ℚ} (H : Recent w now times queue) (h : now ≤ later) :
    Recent w later times queue := fun _ hlater => H _ (h.trans hlater)

/-- Times that are a window old may be dropped. -/
theorem filter (H : Recent w now times queue) {p : ℚ → Bool}
    (h : ∀ e ∈ queue, now - w < e → p e = true) : Recent w now times (queue.filter p) := by
  intro later hlater
  rw [← H later hlater, List.filter_filter]
  refine List.filter_congr fun e he => ?_
  rcases lt_or_ge (later - w) e with hin | hout
  · rw [h e he (lt_of_le_of_lt (sub_le_sub_right hlater w) hin), Bool.and_true]
  · rw [decide_eq_false (not_lt.mpr hout), Bool.false_and]

theorem clear (H : Recent w now times queue) (h : ∀ e ∈ queue, e ≤ now - w) :
    Recent w now times [] := by
  have hnone := H.filter (p := fun _ => false) fun e he hin => absurd hin (not_lt.mpr (h e he))
  rwa [List.filter_false] at hnone

theorem push (H : Recent w now times queue) (e : ℚ) : Recent w now (times ++ [e]) (queue ++ [e]) :=
  fun later hlater => by rw [List.filter_append, List.filter_append, H later hlater]

end Recent

/-! ## The deadlines of the in-memory limiter -/

/-- A deadline is no later than the window of the newest time of its bucket. -/
def Tight (window : String → ℚ) (s : RateLimiter) : Prop :=
  ∀ key d, s.expiryDeadlines.get? key = some d →
    ∃ e ∈ (s.queue key).getLast?, d ≤ e + max (window key) 0

section
variable {window : String → ℚ}

theorem Tight.init : Tight window {} := nofun

/-- Deadlines may go, and so may the queues of keys without one. -/
theorem Tight.of_erase (H : Tight window s)
    (h : ∀ k d, t.expiryDeadlines.get? k = some d →
      s.expiryDeadlines.get? k = some d ∧ (t.queue k).getLast? = (s.queue k).getLast?) :
    Tight window t := by
  intro k d hd
  obtain ⟨hold, hlast⟩ := h k d hd
  rw [hlast]
  exact H k d hold

theorem Tight.removeBucket (H : Tight window s) (key : String) :
    Tight window (s.removeBucket key) := by
  refine H.of_erase fun k d hd => ?_
  obtain ⟨hne, hd⟩ := Dict.get?_of_erase hd
  rw [queue_removeBucket, if_neg hne]
  exact ⟨hd, rfl⟩

theorem Tight.purgeFrom (H : Tight window s) (now : ℚ) (heap : List HeapEntry) :
    Tight window (RateLimiter.purgeFrom now heap s) := by
  induction heap generalizing s with
  | nil => exact H
  | cons entry heap ih =>
    rw [RateLimiter.purgeFrom]
    split
    · split
      · exact ih (H.removeBucket entry.key)
      · exact ih H
    · exact H

theorem Tight.cleanupKey (H : Tight window s) : Tight window s.cleanupKey := by
  unfold RateLimiter.cleanupKey
  split
  · exact H
  · rename_i key keys hkeys
    dsimp only
    split
    · exact H.of_erase fun k d hd => ⟨(Dict.get?_of_erase hd).2, rfl⟩
    · exact Tight.removeBucket (s := { s with cleanupKeys := keys }) H key
    · exact H

theorem Tight.cleanup (H : Tight window s) : Tight window s.cleanupEmptyBuckets := by
  unfold RateLimiter.cleanupEmptyBuckets
  generalize min cleanupWorkPerRequest s.cleanupKeys.length = n
  induction n generalizing s with
  | zero => exact H
  | succ n ih => exact ih H.cleanupKey

theorem getLast?_dropWhile {p : ℚ → Bool} {queue : List ℚ} (h : queue.dropWhile p ≠ []) :
    (queue.dropWhile p).getLast? = queue.getLast? := by
  obtain ⟨front, hfront⟩ := List.dropWhile_suffix (l := queue) p
  have hlast := congrArg List.getLast? hfront
  rwa [List.getLast?_append_of_ne_nil _ h] at hlast

theorem Tight.trim (H : Tight window s) (key : String) (start : ℚ) :
    Tight window (s.trim key start) := by
  unfold RateLimiter.trim
  split
  · exact H
  · rename_i queue hqueue
    dsimp only
    split
    · refine H.of_erase fun k d hd => ?_
      obtain ⟨hne, hd⟩ := Dict.get?_of_erase hd
      refine ⟨hd, congrArg List.getLast? ?_⟩
      exact (queue_set (queue.dropWhile (· < start)) k).trans (if_neg hne)
    · rename_i hne
      refine H.of_erase fun k d hd => ⟨hd, ?_⟩
      rw [queue_set]
      split
      · rename_i hk
        rw [hk, queue_of_get? hqueue]
        exact getLast?_dropWhile hne
      · rfl

theorem Tight.record (H : Tight window s) (key : String) (hreclaims : Reclaims window s) {now : ℚ}
    (hnow : ∀ e ∈ s.queue key, e ≤ now) : Tight window (s.record key (window key) now) := by
  have hqueue := (record_reclaims hreclaims key now).2
  have hdeadlines : (s.record key (window key) now).expiryDeadlines =
      s.expiryDeadlines.set key
        ((s.expiryDeadlines.get? key).elim (now + max (window key) 0)
          fun deadline => max deadline (now + max (window key) 0)) := by
    unfold RateLimiter.record
    cases hdeadline : s.expiryDeadlines.get? key <;> cases s.events.get? key <;>
      simp [RateLimiter.pushExpiry, RateLimiter.appendCleanupKey, hdeadline]
  intro k d hd
  rw [hdeadlines, Dict.get?_set] at hd
  rw [hqueue]
  split at hd
  · rename_i hk
    subst hk
    rw [if_pos rfl, List.getLast?_append_of_ne_nil _ (List.cons_ne_nil _ _)]
    refine ⟨now, rfl, ?_⟩
    obtain rfl := Option.some.inj hd
    rcases hold : s.expiryDeadlines.get? k with _ | old
    · exact le_refl _
    · refine max_le ?_ (le_refl _)
      obtain ⟨e, he, hle⟩ := H k old hold
      linarith [hnow e (List.mem_of_getLast? he)]
  · rename_i hk
    rw [if_neg hk]
    exact H k d hd

/-- The bucket when the limit is checked. A bucket whose newest time has left the window is gone. -/
theorem Inv.queue_checked (H : Inv window history s) (T : Tight window s) {c : Call}
    (hnow : ∀ a ∈ history, a.1.now ≤ c.now) :
    (((s.purgeExpiredBuckets c.now).cleanupEmptyBuckets).trim c.key (c.now - window c.key)).queue
        c.key = [] ∧ (∀ last ∈ (s.queue c.key).getLast?, last + window c.key ≤ c.now) ∨
      (((s.purgeExpiredBuckets c.now).cleanupEmptyBuckets).trim c.key (c.now - window c.key)).queue
        c.key = (s.queue c.key).dropWhile (· < c.now - window c.key) ∧
      ∃ last ∈ (s.queue c.key).getLast?, c.now < last + window c.key := by
  obtain ⟨hpurge, hexpires⟩ := purge_reclaims H.reclaims c.now
  rw [queue_trim, if_pos rfl, (cleanup_reclaims hpurge).2]
  cases hlast : (s.queue c.key).getLast? with
  | none =>
    left
    have hnil : (s.queue c.key) = [] := List.getLast?_eq_none_iff.mp hlast
    refine ⟨?_, nofun⟩
    rcases hexpires c.key with h | h
    · rw [h, hnil]
      rfl
    · rw [h.1]
      rfl
  | some last =>
    have hmem : last ∈ s.queue c.key := List.mem_of_getLast? hlast
    rcases le_or_gt (last + window c.key) c.now with hold | hyoung
    · left
      refine ⟨?_, fun e he => by cases he; exact hold⟩
      obtain ⟨entry, hentry, hkey, hlive⟩ := H.reclaims.live c.key (List.ne_nil_of_mem hmem)
      obtain ⟨e, he, hle⟩ := T c.key _ hlive
      obtain rfl : last = e := Option.some.inj (hlast.symm.trans he)
      obtain ⟨a, ha, hlast⟩ := exists_of_mem_allowed ((H.counts c.now hnow c.key).subset hmem)
      have hdue : entry.deadline ≤ c.now := by
        refine hle.trans ?_
        rcases max_cases (window c.key) 0 with ⟨h, -⟩ | ⟨h, -⟩
        · rwa [h]
        · rw [h, add_zero, ← hlast]
          exact hnow a ha
      have hnone : (s.purgeExpiredBuckets c.now).events.get? c.key = none :=
        purgeFrom_live H.reclaims.sorted hentry hkey hlive hdue
      rw [queue_eq_nil hnone]
      rfl
    · right
      refine ⟨?_, last, rfl, hyoung⟩
      rcases hexpires c.key with h | h
      · rw [h]
      · exact absurd (h.2 last hmem) (not_le.mpr hyoung)

end

/-! ## What Redis keeps -/

namespace Redis

theorem bucket_inj {a b : String} (h : "ratelimit:" ++ a = "ratelimit:" ++ b) : a = b := by
  have hlist := congrArg String.toList h
  rw [String.toList_append, String.toList_append] at hlist
  exact String.toList_inj.mp (List.append_cancel_left hlist)

/-- The buckets hold all times that may still count, and expire after their windows. -/
structure Keeps (window : String → Int) (now : ℚ) (history : List (Call × Bool)) (r : Redis) :
    Prop where
  recent : ∀ key, Recent (window key) now (allowed key history) (r.scores key)
  mem : ∀ key, ∀ e ∈ r.scores key, e ∈ allowed key history
  later : ∀ key set, r.get? ("ratelimit:" ++ key) = some set →
    ∀ d ∈ set.expireAt, ∀ e ∈ set.scores, e + window key ≤ d

theorem scores_of_get? {set : SortedSet} (h : r.get? ("ratelimit:" ++ key) = some set) :
    r.scores key = set.scores := by
  rw [scores, h]
  rfl

theorem scores_eq_nil (h : r.get? ("ratelimit:" ++ key) = none) : r.scores key = [] := by
  rw [scores, h]
  rfl

theorem scores_set {set : SortedSet} (k : String) :
    scores (r.set ("ratelimit:" ++ key) set) k = if k = key then set.scores else r.scores k := by
  unfold scores
  rw [Dict.get?_set]
  by_cases hk : k = key
  · rw [if_pos (congrArg _ hk), if_pos hk]
    rfl
  · rw [if_neg fun h => hk (bucket_inj h), if_neg hk]

theorem scores_erase (k : String) :
    scores (r.erase ("ratelimit:" ++ key)) k = if k = key then [] else r.scores k := by
  unfold scores
  rw [Dict.get?_erase]
  by_cases hk : k = key
  · rw [if_pos (congrArg _ hk), if_pos hk]
    rfl
  · rw [if_neg fun h => hk (bucket_inj h), if_neg hk]

namespace Keeps
variable {now : ℚ}

theorem init (now : ℚ) : Keeps window now [] ∅ where
  recent _ _ _ := rfl
  mem _ _ h := nomatch h
  later _ _ h := nomatch h

/-- A bucket that expires is a window old. -/
theorem expired (H : Keeps window now history r) : Keeps window now history (r.expired now) := by
  have hcases (k : String) : (r.expired now).scores k = r.scores k ∨
      (r.expired now).scores k = [] ∧ ∀ e ∈ r.scores k, e ≤ now - window k := by
    cases hset : r.get? ("ratelimit:" ++ k) with
    | none =>
      left
      rw [scores_eq_nil hset, scores_eq_nil]
      rw [Redis.expired, Dict.get?_filter, hset]
      rfl
    | some set =>
      cases hlive : set.expireAt.all (now < ·) with
      | true =>
        left
        have hkept : (r.expired now).get? ("ratelimit:" ++ k) = some set := by
          rw [Redis.expired, Dict.get?_filter, hset]
          exact if_pos hlive
        rw [scores_of_get? hset, scores_of_get? hkept]
      | false =>
        right
        obtain ⟨d, hd, hdue⟩ : ∃ d ∈ set.expireAt, d ≤ now := by
          cases hat : set.expireAt with
          | none =>
            rw [hat] at hlive
            cases hlive
          | some d =>
            rw [hat] at hlive
            exact ⟨d, rfl, not_lt.mp (of_decide_eq_false hlive)⟩
        refine ⟨?_, fun e he => ?_⟩
        · refine scores_eq_nil ?_
          rw [Redis.expired, Dict.get?_filter, hset]
          exact if_neg fun h => absurd (hlive.symm.trans h) Bool.false_ne_true
        · rw [scores_of_get? hset] at he
          linarith [H.later k set hset d hd e he]
  refine ⟨fun k => ?_, fun k e he => ?_, fun k set hset => ?_⟩
  · rcases hcases k with h | ⟨h, hold⟩
    · rw [h]
      exact H.recent k
    · rw [h]
      exact (H.recent k).clear hold
  · rcases hcases k with h | ⟨h, -⟩
    · exact H.mem k e (h ▸ he)
    · rw [h] at he
      cases he
  · exact H.later k set (Dict.get?_of_filter hset).1

/-- The first command of the script. -/
theorem zremrangebyscore (H : Keeps window now history r) (key : String)
    (hepoch : ∀ e ∈ allowed key history, 0 ≤ e) :
    Keeps window now history
        (r.zremrangebyscore ("ratelimit:" ++ key) 0 (now - window key)) ∧
      (r.zremrangebyscore ("ratelimit:" ++ key) 0 (now - window key)).zcard
        ("ratelimit:" ++ key) = ((allowed key history).filter (now - window key < ·)).length := by
  have hkept : (r.scores key).filter (fun e => ¬ (0 ≤ e ∧ e ≤ now - window key)) =
      (allowed key history).filter (now - window key < ·) := by
    rw [← H.recent key now (le_refl _)]
    refine List.filter_congr fun e he => decide_eq_decide.mpr ?_
    rw [not_and, not_le]
    exact ⟨fun h => h (hepoch e (H.mem key e he)), fun h _ => h⟩
  unfold Redis.zremrangebyscore
  split
  · rename_i hnone
    rw [scores_eq_nil hnone] at hkept
    refine ⟨H, ?_⟩
    rw [zcard, hnone, ← hkept]
    rfl
  · rename_i set hset
    rw [scores_of_get? hset] at hkept
    have hsub : (set.scores.filter fun e => ¬ (0 ≤ e ∧ e ≤ now - window key)) ⊆ set.scores :=
      List.filter_subset_self _
    have hold : ∀ e ∈ set.scores, now - window key < e →
        decide (¬ (0 ≤ e ∧ e ≤ now - window key)) = true :=
      fun e _ h => decide_eq_true fun hin => absurd hin.2 (not_le.mpr h)
    have hrecent := (scores_of_get? hset ▸ H.recent key).filter hold
    have hmem := scores_of_get? hset ▸ H.mem key
    dsimp only
    split
    · rename_i hnil
      rw [hnil] at hrecent hkept
      refine ⟨⟨fun k => ?_, fun k e he => ?_, fun k s hs => ?_⟩, ?_⟩
      · rw [scores_erase]
        split
        · rename_i hk
          rw [hk]
          exact hrecent
        · exact H.recent k
      · rw [scores_erase] at he
        split at he
        · cases he
        · exact H.mem k e he
      · exact H.later k s (Dict.get?_of_erase hs).2
      · rw [zcard, Dict.get?_erase_self, ← hkept]
        rfl
    · refine ⟨⟨fun k => ?_, fun k e he => ?_, fun k s hs => ?_⟩, ?_⟩
      · rw [scores_set]
        split
        · rename_i hk
          rw [hk]
          exact hrecent
        · exact H.recent k
      · rw [scores_set] at he
        split at he
        · rename_i hk
          rw [hk]
          exact hmem e (hsub he)
        · exact H.mem k e he
      · rw [Dict.get?_set] at hs
        split at hs
        · rename_i hk
          obtain rfl := bucket_inj hk
          cases hs
          exact fun d hd e he => H.later k set hset d hd e (hsub he)
        · exact H.later k s hs
      · rw [zcard, Dict.get?_set_self]
        exact congrArg List.length hkept

/-- A denied request changes nothing, an admitted one is added. -/
theorem deny (H : Keeps window now history r) (c : Call) :
    Keeps window now (history ++ [(c, false)]) r := by
  have hsame (k : String) : allowed k (history ++ [(c, false)]) = allowed k history := by
    rw [allowed_concat, if_neg (by simp)]
  exact ⟨fun k => by rw [hsame]; exact H.recent k, fun k => by rw [hsame]; exact H.mem k, H.later⟩

theorem zadd_eq (r : Redis) (key : String) (score : ℚ) : ∃ d,
    r.zadd ("ratelimit:" ++ key) score = r.set ("ratelimit:" ++ key) ⟨r.scores key ++ [score], d⟩ := by
  unfold Redis.zadd
  split
  · rename_i hnone
    exact ⟨none, by rw [scores_eq_nil hnone, List.nil_append]⟩
  · rename_i set hset
    exact ⟨set.expireAt, by rw [scores_of_get? hset]⟩

theorem record (H : Keeps window now history r) {c : Call} (hnow : c.now = now)
    (hlate : ∀ a ∈ history, a.1.now ≤ now) :
    Keeps window now (history ++ [(c, true)])
      ((r.zadd ("ratelimit:" ++ c.key) now).expire ("ratelimit:" ++ c.key) (window c.key + 1) now) := by
  have hallowed (k : String) : allowed k (history ++ [(c, true)]) =
      if k = c.key then allowed k history ++ [now] else allowed k history := by
    rw [allowed_concat, hnow]
    by_cases hk : k = c.key
    · rw [if_pos ⟨rfl, hk.symm⟩, if_pos hk]
    · rw [if_neg fun h => hk h.2.symm, if_neg hk]
  have hold (e : ℚ) (he : e ∈ r.scores c.key ++ [now]) : e ≤ now := by
    rcases List.mem_append.mp he with he | he
    · obtain ⟨a, ha, rfl⟩ := exists_of_mem_allowed (H.mem c.key e he)
      exact hlate a ha
    · exact (List.mem_singleton.mp he).le
  have hrecent : Recent (window c.key) now (allowed c.key history ++ [now])
      (r.scores c.key ++ [now]) := (H.recent c.key).push now
  obtain ⟨d, hzadd⟩ := zadd_eq r c.key now
  unfold Redis.expire
  split
  · rename_i httl
    -- a window below zero: the key is deleted, and its times were old at once
    rw [hzadd]
    refine ⟨fun k => ?_, fun k e he => ?_, fun k s hs => ?_⟩
    · rw [hallowed, scores_erase, scores_set]
      split
      · rename_i hk
        rw [hk]
        refine hrecent.clear fun e he => (hold e he).trans ?_
        have hneg : (window c.key : ℚ) ≤ 0 := by exact_mod_cast (by omega : window c.key ≤ 0)
        linarith
      · exact H.recent k
    · rw [scores_erase, scores_set] at he
      rw [hallowed]
      split at he
      · cases he
      · rename_i hk
        rw [if_neg hk]
        exact H.mem k e he
    · obtain ⟨hne, hs⟩ := Dict.get?_of_erase hs
      rw [Dict.get?_set_of_ne hne] at hs
      exact H.later k s hs
  · rename_i httl
    rw [hzadd, Dict.get?_set_self]
    refine ⟨fun k => ?_, fun k e he => ?_, fun k s hs => ?_⟩
    · rw [hallowed, scores_set, scores_set]
      split
      · rename_i hk
        rw [hk]
        exact hrecent
      · exact H.recent k
    · rw [scores_set, scores_set] at he
      rw [hallowed]
      split at he
      · rename_i hk
        rw [if_pos hk, hk]
        rcases List.mem_append.mp he with he | he
        · exact List.mem_append_left _ (H.mem c.key e he)
        · exact List.mem_append_right _ he
      · rename_i hk
        rw [if_neg hk]
        exact H.mem k e he
    · rw [Dict.get?_set] at hs
      split at hs
      · rename_i hk
        obtain rfl := bucket_inj hk
        cases hs
        intro d' hd' e he
        obtain rfl := Option.some.inj hd'
        have hle := hold e he
        push_cast
        linarith
      · rename_i hk
        rw [Dict.get?_set_of_ne hk] at hs
        exact H.later k s hs

theorem mono {later : ℚ} (H : Keeps window now history r) (h : now ≤ later) :
    Keeps window later history r := ⟨fun k => (H.recent k).mono h, H.mem, H.later⟩

end Keeps

/-- Redis admits a request exactly if the times younger than the window leave room for it. -/
theorem allow_keeps (limit : String → Int) {c : Call} (H : Keeps window c.now history r)
    (hlate : ∀ a ∈ history, a.1.now ≤ c.now) (hepoch : ∀ a ∈ history, 0 ≤ a.1.now) :
    Keeps window c.now
      (history ++ [(c, (r.allow c.key (limit c.key) (window c.key) c.now).1)])
      (r.allow c.key (limit c.key) (window c.key) c.now).2 ∧
    ((r.allow c.key (limit c.key) (window c.key) c.now).1 = true ↔
      (((allowed c.key history).filter (c.now - window c.key < ·)).length : Int) < limit c.key) := by
  have hpositive : ∀ e ∈ allowed c.key history, 0 ≤ e := by
    intro e he
    obtain ⟨a, ha, rfl⟩ := exists_of_mem_allowed he
    exact hepoch a ha
  obtain ⟨hkeeps, hcard⟩ := H.expired.zremrangebyscore c.key hpositive
  unfold allow allowScript
  dsimp only
  rw [hcard]
  split
  · rename_i hfull
    exact ⟨hkeeps.deny c, nofun, fun h => absurd hfull (not_le.mpr h)⟩
  · rename_i hfree
    exact ⟨hkeeps.record rfl hlate, fun _ => not_le.mp hfree, fun _ => rfl⟩

end Redis

/-! ## Both limiters -/

theorem full_iff {limit : Int} : (limit ≤ 0 ∨ (s.events.get? key).any fun queue =>
    limit ≤ queue.length) ↔ limit ≤ (s.queue key).length := by
  cases hqueue : s.events.get? key with
  | none =>
    rw [queue_eq_nil hqueue]
    simp
  | some queue =>
    rw [queue_of_get? hqueue, Option.any_some, decide_eq_true_iff, or_iff_right_of_imp]
    intro h
    omega

theorem length_dropWhile {start : ℚ} {queue : List ℚ} (h : queue.Pairwise (· ≤ ·)) :
    (queue.dropWhile (· < start)).length = queue.countP (start ≤ ·) := by
  induction queue with
  | nil => rfl
  | cons e queue ih =>
    obtain ⟨hfirst, hrest⟩ := List.pairwise_cons.mp h
    rw [List.dropWhile_cons]
    split
    · rename_i hout
      have hout : e < start := of_decide_eq_true hout
      rw [ih hrest, List.countP_cons_of_neg (by simpa using hout)]
    · rename_i hin
      have hin : start ≤ e := by simpa using hin
      refine (List.countP_eq_length.mpr fun e' he' => decide_eq_true ?_).symm
      rcases List.mem_cons.mp he' with rfl | he'
      · exact hin
      · exact hin.trans (hfirst e' he')

theorem le_of_getLast? {queue : List ℚ} (h : queue.Pairwise (· ≤ ·)) {last : ℚ}
    (hlast : queue.getLast? = some last) : ∀ e ∈ queue, e ≤ last := by
  obtain ⟨front, rfl⟩ := List.getLast?_eq_some_iff.mp hlast
  intro e he
  rcases List.mem_append.mp he with he | he
  · exact (List.pairwise_append.mp h).2.2 e he last (List.mem_singleton_self _)
  · exact (List.mem_singleton.mp he).le

/-- The in-memory limiter denies a request that is on the edge, and is right about any other. -/
theorem Inv.allow_iff (limit : String → Int) {c : Call} (H : Inv (fun k => window k) history s)
    (T : Tight (fun k => window k) s) (hordered : Ordered history)
    (hlate : ∀ a ∈ history, a.1.now ≤ c.now) :
    (s.allow c.key (limit c.key) (window c.key) c.now).1 = true ↔
      (((allowed c.key history).filter (c.now - window c.key < ·)).length : Int) < limit c.key ∧
        ¬ OnEdge limit window s c := by
  have hrecent := Recent.of_window (H.counts c.now hlate c.key) c.now (le_refl _)
  have hsorted : (s.queue c.key).Pairwise (· ≤ ·) :=
    (H.counts c.now hlate c.key).pairwise (hordered.allowed _)
  have hchecked := H.queue_checked T hlate
  have hallow : (s.allow c.key (limit c.key) (window c.key) c.now).1 = true ↔
      ¬ limit c.key ≤ ((((s.purgeExpiredBuckets c.now).cleanupEmptyBuckets).trim c.key
        (c.now - (window c.key : ℚ))).queue c.key).length := by
    unfold RateLimiter.allow
    dsimp only
    rw [← full_iff]
    split
    · rename_i hfull
      exact ⟨nofun, fun h => absurd hfull h⟩
    · rename_i hfree
      exact ⟨fun _ => hfree, fun _ => rfl⟩
  rw [hallow, ← hrecent, ← List.countP_eq_length_filter]
  rcases hchecked with ⟨hnil, hold⟩ | ⟨hqueue, hyoung⟩
  · have hnone : (s.queue c.key).countP (c.now - window c.key < ·) = 0 := by
      refine List.countP_eq_zero.mpr fun e he hin => ?_
      have hin : c.now - window c.key < e := of_decide_eq_true hin
      obtain ⟨last, hlast⟩ : ∃ last, (s.queue c.key).getLast? = some last :=
        Option.isSome_iff_exists.mp (List.getLast?_isSome.mpr (List.ne_nil_of_mem he))
      have hle := le_of_getLast? hsorted hlast e he
      linarith [hold last hlast]
    have hoff : ¬ OnEdge limit window s c := by
      rintro ⟨⟨last, hlast, hin⟩, -⟩
      exact absurd (hold last hlast) (not_le.mpr hin)
    rw [hnil, hnone]
    exact ⟨fun h => ⟨not_le.mp h, hoff⟩, fun h => not_le.mpr h.1⟩
  · have hmono : (s.queue c.key).countP (c.now - window c.key < ·) ≤
        (s.queue c.key).countP (c.now - window c.key ≤ ·) :=
      List.countP_mono_left fun e _ h => decide_eq_true (of_decide_eq_true h).le
    rw [hqueue, length_dropWhile hsorted]
    constructor
    · intro hfree
      exact ⟨by omega, fun hedge => hfree hedge.2.2⟩
    · rintro ⟨hroom, hoff⟩ hfull
      exact hoff ⟨hyoung, hroom, hfull⟩

theorem Tight.allow {c : Call} (H : Inv (fun k => window k) history s)
    (T : Tight (fun k => window k) s) (hordered : Ordered history)
    (hlate : ∀ a ∈ history, a.1.now ≤ c.now) :
    Tight (fun k => window k) (s.allow c.key (limit c.key) (window c.key) c.now).2 := by
  have hchecked := H.checked hordered hlate
  have htight : Tight (fun k => window k)
      (((s.purgeExpiredBuckets c.now).cleanupEmptyBuckets).trim c.key (c.now - window c.key)) :=
    ((T.purgeFrom c.now s.expiryHeap).cleanup).trim _ _
  unfold RateLimiter.allow
  dsimp only
  split
  · split
    · exact htight.removeBucket c.key
    · exact htight
  · refine htight.record c.key hchecked.reclaims fun e he => ?_
    obtain ⟨a, ha, rfl⟩ := exists_of_mem_allowed ((hchecked.counts c.key).subset he)
    exact hlate a ha

/-- After the same answers to the same requests, both limiters answer alike until a request meets
the edge. -/
theorem answers_iff {calls : List Call} (H : Inv (fun k => window k) history s)
    (T : Tight (fun k => window k) s)
    (hredis : ∀ now, (∀ a ∈ history, a.1.now ≤ now) → Redis.Keeps window now history r)
    (hhistory : Ordered history) (hbefore : ∀ a ∈ history, ∀ c ∈ calls, a.1.now ≤ c.now)
    (hcalls : calls.Pairwise (·.now ≤ ·.now)) (hepoch : ∀ a ∈ history, 0 ≤ a.1.now)
    (hpositive : ∀ c ∈ calls, 0 ≤ c.now) :
    s.answers limit window calls = r.answers limit window calls ↔
      ¬ MeetsEdge limit window s calls := by
  induction calls generalizing history s r with
  | nil => exact ⟨fun _ => id, fun _ => rfl⟩
  | cons c calls ih =>
    obtain ⟨hfirst, hcalls⟩ := List.pairwise_cons.mp hcalls
    have hlate (a : Call × Bool) (ha : a ∈ history) : a.1.now ≤ c.now :=
      hbefore a ha c List.mem_cons_self
    obtain ⟨hkeeps, hadmits⟩ := Redis.allow_keeps limit (hredis c.now hlate) hlate hepoch
    have hmemory := H.allow_iff limit T hhistory hlate
    rw [← hadmits] at hmemory
    rw [RateLimiter.answers, Redis.answers, MeetsEdge, List.cons.injEq]
    by_cases hedge : OnEdge limit window s c
    · -- the in-memory limiter denies what Redis admits
      have hroom := (Redis.allow_keeps limit (hredis c.now hlate) hlate hepoch).2.mpr (by
        have hcount := Recent.of_window (H.counts c.now hlate c.key) c.now (le_refl _)
        rw [← hcount, ← List.countP_eq_length_filter]
        exact hedge.2.1)
      refine ⟨fun h => absurd hedge (hmemory.mp ?_).2, fun h => absurd (.inl hedge) h⟩
      exact h.1.trans hroom
    · have hsame : (s.allow c.key (limit c.key) (window c.key) c.now).1 =
          (r.allow c.key (limit c.key) (window c.key) c.now).1 :=
        Bool.eq_iff_iff.mpr (hmemory.trans (and_iff_left hedge))
      have hordered : Ordered (history ++ [(c, (r.allow c.key (limit c.key) (window c.key) c.now).1)]) :=
        List.pairwise_append.mpr ⟨hhistory, List.pairwise_singleton _ _, fun a ha b hb => by
          obtain rfl := List.mem_singleton.mp hb
          exact hlate a ha⟩
      have hstep := ih (H.keep hordered (Prod.ext hsame rfl)) (T.allow H hhistory hlate)
        (fun now hall => hkeeps.mono (hall _ (List.mem_append_right _ (List.mem_singleton_self _))))
        hordered (fun a ha c' hc' => ?_) hcalls (fun a ha => ?_)
        fun c' hc' => hpositive c' (List.mem_cons_of_mem _ hc')
      · rw [or_iff_right hedge, ← hstep]
        exact and_iff_right hsame
      · rcases List.mem_append.mp ha with ha | ha
        · exact hbefore a ha c' (List.mem_cons_of_mem _ hc')
        · obtain rfl := List.mem_singleton.mp ha
          exact hfirst c' hc'
      · rcases List.mem_append.mp ha with ha | ha
        · exact hepoch a ha
        · obtain rfl := List.mem_singleton.mp ha
          exact hpositive c List.mem_cons_self

/-- Both limiters give the same answers exactly if no request meets the edge of its window. -/
theorem answers_agree_iff (limit window : String → Int) {calls : List Call}
    (hcalls : calls.Pairwise (·.now ≤ ·.now)) (hpositive : ∀ c ∈ calls, 0 ≤ c.now) :
    RateLimiter.answers limit window {} calls = Redis.answers limit window ∅ calls ↔
      ¬ MeetsEdge limit window {} calls :=
  answers_iff .init .init (fun now _ => .init now) .nil nofun hcalls nofun hpositive

theorem answers_agree_fourCalls :
    RateLimiter.answers (fun _ => 2) (fun _ => 10) {} fourCalls = [true, true, false, true] ∧
      RateLimiter.answers (fun _ => 2) (fun _ => 10) {} fourCalls =
        Redis.answers (fun _ => 2) (fun _ => 10) ∅ fourCalls := by
  have hedge : ¬ MeetsEdge (fun _ => 2) (fun _ => 10) {} fourCalls := by decide +kernel
  refine ⟨by decide +kernel, ?_⟩
  exact (answers_agree_iff _ _ (by decide +kernel) (by decide +kernel)).mpr hedge

/-- The third request comes exactly a window after the first one: Redis admits it. -/
theorem edge_answers_differ :
    let calls : List Call := [⟨"login", 0⟩, ⟨"login", 5⟩, ⟨"login", 10⟩]
    RateLimiter.answers (fun _ => 2) (fun _ => 10) {} calls = [true, true, false] ∧
      Redis.answers (fun _ => 2) (fun _ => 10) ∅ calls = [true, true, true] := by
  decide +kernel

end WebSSH.Limits
