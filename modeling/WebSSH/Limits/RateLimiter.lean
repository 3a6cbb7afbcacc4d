import Mathlib.Algebra.Order.Ring.Rat
import Mathlib.Data.List.Sort
import WebSSH.Lib.Dict
import WebSSH.Lib.System
import WebSSH.Lib.Window

/-!
# The in-memory rate limiter

`InMemoryRateLimiter` of `rate_limiter.py`. The expiry heap is kept in the order in which `heappop`
returns its entries; times are exact.
-/

namespace WebSSH.Limits
open Lib

/-! ## The limiter -/

structure HeapEntry where
  deadline : ℚ
  sequence : Nat
  key : String
  deriving DecidableEq

/-- The order of the tuples; no two entries have the same sequence number. -/
def HeapEntry.le (a b : HeapEntry) : Prop :=
  a.deadline < b.deadline ∨ a.deadline = b.deadline ∧ a.sequence ≤ b.sequence

instance : DecidableRel HeapEntry.le := fun _ _ => inferInstanceAs (Decidable (_ ∨ _))

structure RateLimiter where
  events : Dict String (List ℚ) := ∅
  expiryHeap : List HeapEntry := []
  expiryDeadlines : Dict String ℚ := ∅
  cleanupKeys : List String := []
  expirySequence : Nat := 0

/-- `_CLEANUP_WORK_PER_REQUEST` -/
def cleanupWorkPerRequest : Nat := 64

namespace RateLimiter

def removeBucket (s : RateLimiter) (key : String) : RateLimiter :=
  { s with events := s.events.erase key, expiryDeadlines := s.expiryDeadlines.erase key }

/-- The loop of `_purge_expired_buckets` over the heap. -/
def purgeFrom (now : ℚ) : List HeapEntry → RateLimiter → RateLimiter
  | [], s => { s with expiryHeap := [] }
  | entry :: heap, s =>
    if entry.deadline ≤ now then
      purgeFrom now heap
        (if s.expiryDeadlines.get? entry.key = some entry.deadline then s.removeBucket entry.key
        else s)
    else { s with expiryHeap := entry :: heap }

def purgeExpiredBuckets (now : ℚ) (s : RateLimiter) : RateLimiter := purgeFrom now s.expiryHeap s

/-- `_cleanup_keys.append`; the oldest key leaves a full deque. -/
def appendCleanupKey (s : RateLimiter) (key : String) : RateLimiter :=
  let keys := s.cleanupKeys ++ [key]
  { s with cleanupKeys := keys.drop (keys.length - cleanupWorkPerRequest) }

/-- One turn of `_cleanup_empty_buckets`. -/
def cleanupKey (s : RateLimiter) : RateLimiter :=
  match s.cleanupKeys with
  | [] => s
  | key :: keys =>
    let s := { s with cleanupKeys := keys }
    match s.events.get? key with
    | none => { s with expiryDeadlines := s.expiryDeadlines.erase key }
    | some [] => s.removeBucket key
    | some _ => s.appendCleanupKey key

def cleanupEmptyBuckets (s : RateLimiter) : RateLimiter :=
  cleanupKey^[min cleanupWorkPerRequest s.cleanupKeys.length] s

/-- What is done to the queue of the key before the limit is checked. -/
def trim (key : String) (windowStart : ℚ) (s : RateLimiter) : RateLimiter :=
  match s.events.get? key with
  | none => s
  | some queue =>
    let queue := queue.dropWhile (· < windowStart)
    let s := { s with events := s.events.set key queue }
    if queue = [] then { s with expiryDeadlines := s.expiryDeadlines.erase key } else s

/-- `heapq.heappush` of the deadline of the key. -/
def pushExpiry (key : String) (deadline : ℚ) (s : RateLimiter) : RateLimiter :=
  { s with
    expiryDeadlines := s.expiryDeadlines.set key deadline
    expirySequence := s.expirySequence + 1
    expiryHeap := s.expiryHeap.orderedInsert HeapEntry.le ⟨deadline, s.expirySequence + 1, key⟩ }

/-- The request is recorded. -/
def record (key : String) (window now : ℚ) (s : RateLimiter) : RateLimiter :=
  let s :=
    match s.events.get? key with
    | none => { s with events := s.events.set key [now] }.appendCleanupKey key
    | some queue => { s with events := s.events.set key (queue ++ [now]) }
  let deadline :=
    match s.expiryDeadlines.get? key with
    | none => now + max window 0
    | some deadline => max deadline (now + max window 0)
  s.pushExpiry key deadline

def allow (key : String) (limit : Int) (window now : ℚ) (s : RateLimiter) : Bool × RateLimiter :=
  let s := ((s.purgeExpiredBuckets now).cleanupEmptyBuckets).trim key (now - window)
  let queue := s.events.get? key
  if limit ≤ 0 ∨ queue.any fun queue => limit ≤ queue.length then
    (false, if queue = some [] then s.removeBucket key else s)
  else (true, s.record key window now)

end RateLimiter

/-! ## All runs -/

structure Call where
  key : String
  now : ℚ

variable (limit : String → Int) (window : String → ℚ)

/-- Each key always has the same limit and the same window; a label is a call with its result. -/
def limiterSystem : System RateLimiter (Call × Bool) :=
  System.calls {} fun s c => some (s.allow c.key (limit c.key) (window c.key) c.now)

/-- The times of the calls of a key that were allowed. -/
def allowed (key : String) (history : List (Call × Bool)) : List ℚ :=
  history.filterMap fun a => if a.2 ∧ a.1.key = key then some a.1.now else none

variable {limit : String → Int} {window : String → ℚ} {key : String} {s : RateLimiter}

theorem allowed_append (history history' : List (Call × Bool)) :
    allowed key (history ++ history') = allowed key history ++ allowed key history' :=
  List.filterMap_append

/-! ## What the state keeps -/

/-- The queue of a key, which is empty where there is none. -/
def RateLimiter.queue (s : RateLimiter) (key : String) : List ℚ := s.events.getD key []

/-- The live entry of the heap, by which a bucket is reclaimed. -/
def Live (s : RateLimiter) (key : String) : Prop :=
  ∃ entry ∈ s.expiryHeap, entry.key = key ∧ s.expiryDeadlines.get? key = some entry.deadline

/-- Deadlines come after the windows of the times that they stand for, and every bucket that holds
a time has a live entry. -/
structure Reclaims (window : String → ℚ) (s : RateLimiter) : Prop where
  deadline : ∀ key d, s.expiryDeadlines.get? key = some d → ∀ e ∈ s.queue key, e + window key ≤ d
  live : ∀ key, s.queue key ≠ [] → Live s key
  sorted : s.expiryHeap.Pairwise HeapEntry.le

theorem queue_eq_nil (h : s.events.get? key = none) : s.queue key = [] := by
  rw [RateLimiter.queue, Dict.getD, h, Option.getD_none]

theorem queue_of_get? {queue : List ℚ} (h : s.events.get? key = some queue) : s.queue key = queue :=
  Dict.getD_of_get? h

@[simp] theorem queue_removeBucket (k : String) :
    (s.removeBucket key).queue k = if k = key then [] else s.queue k := Dict.getD_erase

/-- Only buckets whose times are all a window old have been removed. -/
def Expires (window : String → ℚ) (now : ℚ) (s t : RateLimiter) : Prop :=
  ∀ key, t.queue key = s.queue key ∨ t.queue key = [] ∧ ∀ e ∈ s.queue key, e + window key ≤ now

namespace Reclaims

theorem init : Reclaims window {} where
  deadline _ _ h := nomatch h
  live _ h := absurd rfl h
  sorted := .nil

/-- A bucket without times may go, or only its deadline. -/
theorem erase_deadline (H : Reclaims window s) (h : s.queue key = []) {t : RateLimiter}
    (hqueue : ∀ k, t.queue k = s.queue k)
    (hdeadlines : t.expiryDeadlines = s.expiryDeadlines.erase key)
    (hheap : t.expiryHeap = s.expiryHeap) : Reclaims window t where
  deadline k d hd e he := by
    rw [hdeadlines] at hd
    rw [hqueue] at he
    exact H.deadline k d (Dict.get?_of_erase hd).2 e he
  live k hk := by
    rw [hqueue] at hk
    obtain ⟨entry, hentry, hkey, hd⟩ := H.live k hk
    have hne : k ≠ key := by
      rintro rfl
      exact hk h
    exact ⟨entry, hheap ▸ hentry, hkey, by rw [hdeadlines, Dict.get?_erase_of_ne hne, hd]⟩
  sorted := hheap ▸ H.sorted

theorem removeBucket (H : Reclaims window s) (h : s.queue key = []) :
    Reclaims window (s.removeBucket key) := by
  refine H.erase_deadline h (fun k => ?_) rfl rfl
  rw [queue_removeBucket]
  split
  · rename_i hk
    rw [hk, h]
  · rfl

/-- The bucket of an entry that is popped while it is live. -/
theorem pop {entry : HeapEntry} {heap : List HeapEntry}
    (H : Reclaims window { s with expiryHeap := entry :: heap }) :
    Reclaims window { s.removeBucket entry.key with expiryHeap := heap } where
  deadline k d hd e he := by
    obtain ⟨hne, hd⟩ := Dict.get?_of_erase hd
    have he : e ∈ (s.removeBucket entry.key).queue k := he
    rw [queue_removeBucket, if_neg hne] at he
    exact H.deadline k d hd e he
  live k hk := by
    have hne : k ≠ entry.key := by
      rintro rfl
      exact hk ((queue_removeBucket entry.key).trans (if_pos rfl))
    have hk : s.queue k ≠ [] := fun h =>
      hk (((queue_removeBucket k).trans (if_neg hne)).trans h)
    obtain ⟨live, hmem, hkey, hd⟩ := H.live k hk
    refine ⟨live, (List.mem_cons.mp hmem).resolve_left ?_, hkey,
      (Dict.get?_erase_of_ne hne).trans hd⟩
    rintro rfl
    exact hne hkey.symm
  sorted := (List.pairwise_cons.mp H.sorted).2

/-- An entry that is not live is dropped. -/
theorem skip {entry : HeapEntry} {heap : List HeapEntry}
    (H : Reclaims window { s with expiryHeap := entry :: heap })
    (h : s.expiryDeadlines.get? entry.key ≠ some entry.deadline) :
    Reclaims window { s with expiryHeap := heap } where
  deadline := H.deadline
  live k hk := by
    obtain ⟨live, hmem, hkey, hd⟩ := H.live k hk
    refine ⟨live, (List.mem_cons.mp hmem).resolve_left ?_, hkey, hd⟩
    rintro rfl
    exact h (hkey ▸ hd)
  sorted := (List.pairwise_cons.mp H.sorted).2

end Reclaims

theorem purgeFrom_reclaims {now : ℚ} {heap : List HeapEntry}
    (H : Reclaims window { s with expiryHeap := heap }) :
    Reclaims window (RateLimiter.purgeFrom now heap s) ∧
      Expires window now s (RateLimiter.purgeFrom now heap s) := by
  induction heap generalizing s with
  | nil => exact ⟨H, fun _ => .inl rfl⟩
  | cons entry heap ih =>
    rw [RateLimiter.purgeFrom]
    split
    · rename_i hdue
      split
      · rename_i hlive
        obtain ⟨hreclaims, hexpires⟩ := ih H.pop
        refine ⟨hreclaims, fun k => ?_⟩
        have hold := H.deadline entry.key entry.deadline hlive
        rcases eq_or_ne k entry.key with rfl | hne
        · refine .inr ⟨?_, fun e he => (hold e he).trans hdue⟩
          rcases hexpires entry.key with h | h
          · rw [h, queue_removeBucket, if_pos rfl]
          · exact h.1
        · have hexpires := hexpires k
          rw [queue_removeBucket, if_neg hne] at hexpires
          exact hexpires
      · rename_i hstale
        exact ih (H.skip hstale)
    · exact ⟨H, fun _ => .inl rfl⟩

theorem purge_reclaims (H : Reclaims window s) (now : ℚ) :
    Reclaims window (s.purgeExpiredBuckets now) ∧
      Expires window now s (s.purgeExpiredBuckets now) := purgeFrom_reclaims H

theorem purgeFrom_none {now : ℚ} {heap : List HeapEntry} (h : s.events.get? key = none) :
    (RateLimiter.purgeFrom now heap s).events.get? key = none := by
  induction heap generalizing s with
  | nil => exact h
  | cons entry heap ih =>
    rw [RateLimiter.purgeFrom]
    split
    · split
      · refine ih ?_
        rw [RateLimiter.removeBucket, Dict.get?_erase]
        split
        · rfl
        · exact h
      · exact ih h
    · exact h

theorem purgeFrom_live {now : ℚ} {heap : List HeapEntry} {entry : HeapEntry}
    (hsorted : heap.Pairwise HeapEntry.le) (hentry : entry ∈ heap) (hkey : entry.key = key)
    (hlive : s.expiryDeadlines.get? key = some entry.deadline) (hdue : entry.deadline ≤ now) :
    (RateLimiter.purgeFrom now heap s).events.get? key = none := by
  induction heap generalizing s with
  | nil => exact absurd hentry List.not_mem_nil
  | cons first heap ih =>
    obtain ⟨hfirst, hsorted⟩ := List.pairwise_cons.mp hsorted
    have hbefore : first.deadline ≤ entry.deadline := by
      rcases List.mem_cons.mp hentry with rfl | hentry
      · exact le_refl _
      · exact (hfirst entry hentry).elim le_of_lt fun h => h.1.le
    rw [RateLimiter.purgeFrom, if_pos (hbefore.trans hdue)]
    split
    · rcases eq_or_ne first.key key with hk | hne
      · refine purgeFrom_none ?_
        rw [RateLimiter.removeBucket, hk]
        exact Dict.get?_erase_self
      · refine ih hsorted ((List.mem_cons.mp hentry).resolve_left ?_) ?_
        · rintro rfl
          exact hne hkey
        · exact (Dict.get?_erase_of_ne hne.symm).trans hlive
    · rename_i hstale
      refine ih hsorted ((List.mem_cons.mp hentry).resolve_left ?_) hlive
      rintro rfl
      exact hstale (hkey ▸ hlive)

/-- A live entry that is due reclaims its bucket. -/
theorem Live.purge (h : Live s key) (H : Reclaims window s) :
    ∃ deadline, ∀ now, deadline ≤ now → (s.purgeExpiredBuckets now).events.get? key = none :=
  let ⟨entry, hentry, hkey, hlive⟩ := h
  ⟨entry.deadline, fun _ hdue => purgeFrom_live H.sorted hentry hkey hlive hdue⟩

theorem cleanupKey_reclaims (H : Reclaims window s) :
    Reclaims window s.cleanupKey ∧ ∀ key, s.cleanupKey.queue key = s.queue key := by
  unfold RateLimiter.cleanupKey
  split
  · exact ⟨H, fun _ => rfl⟩
  · rename_i key keys hkeys
    have H' : Reclaims window { s with cleanupKeys := keys } := ⟨H.deadline, H.live, H.sorted⟩
    dsimp only
    split
    · rename_i hnone
      exact ⟨H'.erase_deadline (queue_eq_nil hnone) (fun _ => rfl) rfl rfl, fun _ => rfl⟩
    · rename_i hempty
      have hqueue : s.queue key = [] := queue_of_get? hempty
      refine ⟨H'.removeBucket hqueue, fun k => ?_⟩
      rw [queue_removeBucket]
      split
      · rename_i hk
        rw [hk, hqueue]
      · rfl
    · exact ⟨⟨H.deadline, H.live, H.sorted⟩, fun _ => rfl⟩

theorem cleanup_reclaims (H : Reclaims window s) :
    Reclaims window s.cleanupEmptyBuckets ∧
      ∀ key, s.cleanupEmptyBuckets.queue key = s.queue key := by
  unfold RateLimiter.cleanupEmptyBuckets
  generalize min cleanupWorkPerRequest s.cleanupKeys.length = n
  induction n generalizing s with
  | zero => exact ⟨H, fun _ => rfl⟩
  | succ n ih =>
    obtain ⟨H', hqueue⟩ := cleanupKey_reclaims H
    obtain ⟨hreclaims, hsame⟩ := ih H'
    exact ⟨hreclaims, fun key => (hsame key).trans (hqueue key)⟩

theorem queue_trim (key : String) (start : ℚ) (k : String) :
    (s.trim key start).queue k =
      if k = key then (s.queue k).dropWhile (· < start) else s.queue k := by
  unfold RateLimiter.trim
  split
  · rename_i hnone
    split
    · rename_i hk
      rw [hk, queue_eq_nil hnone]
      rfl
    · rfl
  · rename_i queue hqueue
    have hset : (s.events.set key (queue.dropWhile (· < start))).getD k [] =
        if k = key then (s.queue k).dropWhile (· < start) else s.queue k := by
      rw [Dict.getD_set]
      split
      · rename_i hk
        rw [hk, queue_of_get? hqueue]
      · rfl
    dsimp only
    split <;> exact hset

theorem queue_set (queue : List ℚ) (k : String) :
    ({ s with events := s.events.set key queue } : RateLimiter).queue k =
      if k = key then queue else s.queue k := Dict.getD_set

/-- A queue loses times. -/
theorem Reclaims.shrink (H : Reclaims window s) {queue : List ℚ} (h : queue ⊆ s.queue key) :
    Reclaims window { s with events := s.events.set key queue } := by
  have hsubset (k : String) :
      ({ s with events := s.events.set key queue } : RateLimiter).queue k ⊆ s.queue k := by
    rw [queue_set]
    split
    · rename_i hk
      exact hk ▸ h
    · exact List.Subset.refl _
  refine ⟨fun k d hd e he => H.deadline k d hd e (hsubset k he), fun k hk => ?_, H.sorted⟩
  refine H.live k fun hnil => hk (List.eq_nil_iff_forall_not_mem.mpr fun e he => ?_)
  have he := hsubset k he
  rw [hnil] at he
  cases he

theorem trim_reclaims (H : Reclaims window s) (key : String) (start : ℚ) :
    Reclaims window (s.trim key start) := by
  unfold RateLimiter.trim
  split
  · exact H
  · rename_i queue hsome
    have H' : Reclaims window
        { s with events := s.events.set key (queue.dropWhile (· < start)) } :=
      H.shrink (by rw [queue_of_get? hsome]; exact (List.dropWhile_suffix _).subset)
    dsimp only
    split
    · rename_i hnil
      refine H'.erase_deadline (?_ : _ = []) (fun _ => rfl) rfl rfl
      rw [queue_set, if_pos rfl, hnil]
    · exact H'

instance : Std.Total HeapEntry.le where
  total a b := by
    unfold HeapEntry.le
    rcases lt_trichotomy a.deadline b.deadline with h | h | h
    · exact .inl (.inl h)
    · exact (Nat.le_total a.sequence b.sequence).imp (fun hle => .inr ⟨h, hle⟩)
        fun hle => .inr ⟨h.symm, hle⟩
    · exact .inr (.inl h)

instance : IsTrans HeapEntry HeapEntry.le where
  trans a b c hab hbc := by
    rcases hab with hab | ⟨hab, hseq⟩
    · exact .inl (hbc.elim hab.trans fun h => h.1 ▸ hab)
    · exact hbc.imp (fun h => hab ▸ h) fun h => ⟨hab.trans h.1, hseq.trans h.2⟩

/-- The deadline of a key grows, and is pushed. -/
theorem pushExpiry_reclaims (H : Reclaims window s) {t : RateLimiter} {now deadline : ℚ}
    (hqueue : ∀ k, t.queue k = if k = key then s.queue k ++ [now] else s.queue k)
    (hdeadlines : t.expiryDeadlines = s.expiryDeadlines) (hheap : t.expiryHeap = s.expiryHeap)
    (hlater : ∀ d, s.expiryDeadlines.get? key = some d → d ≤ deadline)
    (hnow : now + window key ≤ deadline) : Reclaims window (t.pushExpiry key deadline) where
  deadline k d hd e he := by
    have hset : (t.expiryDeadlines.set key deadline).get? k = some d := hd
    have hmem : e ∈ t.queue k := he
    rw [hdeadlines, Dict.get?_set] at hset
    rw [hqueue] at hmem
    rcases eq_or_ne k key with rfl | hne
    · rw [if_pos rfl] at hset hmem
      cases hset
      rcases List.mem_append.mp hmem with hmem | hmem
      · obtain ⟨entry, -, -, hlive⟩ := H.live k (List.ne_nil_of_mem hmem)
        exact (H.deadline k _ hlive e hmem).trans (hlater _ hlive)
      · cases List.mem_singleton.mp hmem
        exact hnow
    · rw [if_neg hne] at hset hmem
      exact H.deadline k d hset e hmem
  live k hk := by
    rcases eq_or_ne k key with rfl | hne
    · exact ⟨⟨deadline, t.expirySequence + 1, k⟩, (List.mem_orderedInsert _).mpr (.inl rfl), rfl,
        Dict.get?_set_self⟩
    · have hk : t.queue k ≠ [] := hk
      rw [hqueue, if_neg hne] at hk
      obtain ⟨entry, hentry, hkey, hd⟩ := H.live k hk
      refine ⟨entry, (List.mem_orderedInsert _).mpr (.inr (hheap ▸ hentry)), hkey, ?_⟩
      rw [← hdeadlines] at hd
      exact (Dict.get?_set_of_ne hne).trans hd
  sorted := by
    have hsorted := H.sorted
    rw [← hheap] at hsorted
    exact hsorted.orderedInsert _ _

/-- Recording a time pushes an entry for it. -/
theorem record_reclaims (H : Reclaims window s) (key : String) (now : ℚ) :
    Reclaims window (s.record key (window key) now) ∧
      ∀ k, (s.record key (window key) now).queue k =
        if k = key then s.queue k ++ [now] else s.queue k := by
  let deadline :=
    match s.expiryDeadlines.get? key with
    | none => now + max (window key) 0
    | some deadline => max deadline (now + max (window key) 0)
  have hlater (d : ℚ) (hd : s.expiryDeadlines.get? key = some d) : d ≤ deadline := by
    simp only [deadline, hd]
    exact le_max_left _ _
  have hnow : now + window key ≤ deadline := by
    have hmax : now + window key ≤ now + max (window key) 0 := by gcongr; exact le_max_left _ _
    simp only [deadline]
    split
    · exact hmax
    · exact hmax.trans (le_max_right _ _)
  cases hqueue : s.events.get? key with
  | none =>
    let t := { s with events := s.events.set key [now] }.appendCleanupKey key
    have ht (k : String) : t.queue k = if k = key then s.queue k ++ [now] else s.queue k := by
      refine (queue_set [now] k).trans ?_
      split
      · rename_i hk
        rw [hk, queue_eq_nil hqueue, List.nil_append]
      · rfl
    have hrecord : s.record key (window key) now = t.pushExpiry key deadline := by
      simp only [RateLimiter.record, hqueue]
      rfl
    rw [hrecord]
    exact ⟨pushExpiry_reclaims H ht rfl rfl hlater hnow, ht⟩
  | some queue =>
    let t := { s with events := s.events.set key (queue ++ [now]) }
    have ht (k : String) : t.queue k = if k = key then s.queue k ++ [now] else s.queue k := by
      refine (queue_set (queue ++ [now]) k).trans ?_
      split
      · rename_i hk
        rw [hk, queue_of_get? hqueue]
      · rfl
    have hrecord : s.record key (window key) now = t.pushExpiry key deadline := by
      simp only [RateLimiter.record, hqueue]
      rfl
    rw [hrecord]
    exact ⟨pushExpiry_reclaims H ht rfl rfl hlater hnow, ht⟩

/-! ## One call -/

theorem allowed_concat (history : List (Call × Bool)) (c : Call) (b : Bool) :
    allowed key (history ++ [(c, b)]) =
      if b ∧ c.key = key then allowed key history ++ [c.now] else allowed key history := by
  rw [allowed_append]
  unfold allowed
  rw [List.filterMap_cons, List.filterMap_nil]
  dsimp only
  split
  · rename_i hnone
    rw [if_neg, List.append_nil]
    intro h
    rw [if_pos h] at hnone
    cases hnone
  · rename_i e hsome
    obtain ⟨h, heq⟩ := Option.ite_none_right_eq_some.mp hsome
    cases heq
    rw [if_pos h]

theorem exists_of_mem_allowed {history : List (Call × Bool)} {e : ℚ} (h : e ∈ allowed key history) :
    ∃ a ∈ history, a.1.now = e := by
  obtain ⟨a, ha, h⟩ := List.mem_filterMap.mp h
  obtain ⟨-, heq⟩ := Option.ite_none_right_eq_some.mp h
  exact ⟨a, ha, Option.some.inj heq⟩

/-- The times of a history do not decrease. -/
def Ordered (history : List (Call × Bool)) : Prop :=
  history.Pairwise fun a b => a.1.now ≤ b.1.now

theorem Ordered.allowed {history : List (Call × Bool)} (h : Ordered history) (key : String) :
    (allowed key history).Pairwise (· ≤ ·) := by
  refine List.Pairwise.filterMap _ (fun a b hab e he e' he' => ?_) h
  cases (Option.ite_none_right_eq_some.mp he).2
  cases (Option.ite_none_right_eq_some.mp he').2
  exact hab

/-- The queues hold all times that may still count. -/
structure Inv (window : String → ℚ) (history : List (Call × Bool)) (s : RateLimiter) : Prop where
  reclaims : Reclaims window s
  counts : ∀ now, (∀ a ∈ history, a.1.now ≤ now) →
    ∀ key, Window (window key) now (allowed key history) (s.queue key)

theorem Inv.init : Inv window [] {} := ⟨.init, fun _ _ _ => Window.nil⟩

theorem Expires.keeps {now : ℚ} {t : RateLimiter} {history : List ℚ} (h : Expires window now s t)
    (H : Window (window key) now history (s.queue key)) :
    Window (window key) now history (t.queue key) := by
  rcases h key with h | ⟨h, hold⟩
  · rwa [h]
  · rw [h]
    exact H.clear hold

/-- The buckets when the limit is checked. -/
structure Checked (window : String → ℚ) (history : List (Call × Bool)) (c : Call) (s : RateLimiter) :
    Prop where
  reclaims : Reclaims window s
  counts : ∀ key, Window (window key) c.now (allowed key history) (s.queue key)
  trimmed : ∃ queue : List ℚ, queue.Pairwise (· ≤ ·) ∧
    s.queue c.key = queue.dropWhile (· < c.now - window c.key)

theorem Inv.checked {history : List (Call × Bool)} {c : Call} (H : Inv window history s)
    (hordered : Ordered history) (hnow : ∀ a ∈ history, a.1.now ≤ c.now) :
    Checked window history c
      (((s.purgeExpiredBuckets c.now).cleanupEmptyBuckets).trim c.key (c.now - window c.key)) := by
  obtain ⟨hpurge, hexpires⟩ := purge_reclaims H.reclaims c.now
  obtain ⟨hcleanup, hsame⟩ := cleanup_reclaims hpurge
  have hwindow (k : String) : Window (window k) c.now (allowed k history)
      ((s.purgeExpiredBuckets c.now).cleanupEmptyBuckets.queue k) := by
    rw [hsame]
    exact hexpires.keeps (H.counts c.now hnow k)
  have htrim := queue_trim (s := (s.purgeExpiredBuckets c.now).cleanupEmptyBuckets) c.key
    (c.now - window c.key)
  refine ⟨trim_reclaims hcleanup _ _, fun k => ?_, _, (hwindow c.key).pairwise (hordered.allowed _), ?_⟩
  · rw [htrim]
    split
    · rename_i hk
      exact hk ▸ (hwindow k).trim
    · exact hwindow k
  · rw [htrim, if_pos rfl]

/-- A call keeps the invariant. -/
theorem Inv.keep {history : List (Call × Bool)} {c : Call} {b : Bool} {t : RateLimiter}
    (H : Inv window history s) (hordered : Ordered (history ++ [(c, b)]))
    (h : s.allow c.key (limit c.key) (window c.key) c.now = (b, t)) :
    Inv window (history ++ [(c, b)]) t := by
  obtain ⟨hhistory, -, hbefore⟩ := List.pairwise_append.mp hordered
  have hlast {now : ℚ} (h : ∀ a ∈ history ++ [(c, b)], a.1.now ≤ now) : c.now ≤ now :=
    h _ (List.mem_append_right _ (List.mem_singleton_self _))
  have hchecked := H.checked hhistory fun a ha => hbefore a ha _ (List.mem_singleton_self _)
  unfold RateLimiter.allow at h
  generalize ((s.purgeExpiredBuckets c.now).cleanupEmptyBuckets).trim c.key
    (c.now - window c.key) = x at h hchecked
  dsimp only at h
  split at h
  · have hwindow (now : ℚ) (hall : ∀ a ∈ history ++ [(c, b)], a.1.now ≤ now) (k : String) :
        Window (window k) now (allowed k history) (x.queue k) :=
      (hchecked.counts k).mono (hlast hall)
    split at h
    · rename_i hnil
      cases h
      have hqueue : x.queue c.key = [] := queue_of_get? hnil
      refine ⟨hchecked.reclaims.removeBucket hqueue, fun now hall k => ?_⟩
      rw [allowed_concat, if_neg (by simp), queue_removeBucket]
      split
      · rename_i hk
        rw [← hqueue, ← hk]
        exact hwindow now hall k
      · exact hwindow now hall k
    · cases h
      refine ⟨hchecked.reclaims, fun now hall k => ?_⟩
      rw [allowed_concat, if_neg (by simp)]
      exact hwindow now hall k
  · cases h
    have hrecord := record_reclaims hchecked.reclaims c.key c.now
    refine ⟨hrecord.1, fun now hall k => ?_⟩
    rw [allowed_concat, hrecord.2]
    have hwindow := (hchecked.counts k).mono (hlast hall)
    rcases eq_or_ne k c.key with rfl | hne
    · rw [if_pos rfl, if_pos ⟨rfl, rfl⟩]
      exact hwindow.push c.now
    · rw [if_neg hne, if_neg fun h => hne h.2.symm]
      exact hwindow

/-- What a call is told is right at its time. -/
theorem Inv.allow {history : List (Call × Bool)} {c : Call} {b : Bool} {t : RateLimiter}
    (H : Inv window history s) (hlimit : 0 < limit c.key) (hordered : Ordered (history ++ [(c, b)]))
    (h : s.allow c.key (limit c.key) (window c.key) c.now = (b, t)) :
    (b = true → ∀ p : ℚ → Bool, (∀ e, p e = true → c.now < e + window c.key) →
        (allowed c.key history).countP p < limit c.key) ∧
      (b = false → limit c.key ≤
        (allowed c.key history).countP fun e => c.now - window c.key ≤ e ∧ e ≤ c.now) := by
  obtain ⟨hhistory, -, hbefore⟩ := List.pairwise_append.mp hordered
  have hnow (a : Call × Bool) (ha : a ∈ history) : a.1.now ≤ c.now :=
    hbefore a ha _ (List.mem_singleton_self _)
  have hchecked := H.checked hhistory hnow
  unfold RateLimiter.allow at h
  generalize ((s.purgeExpiredBuckets c.now).cleanupEmptyBuckets).trim c.key
    (c.now - window c.key) = x at h hchecked
  dsimp only at h
  split at h
  · rename_i hfull
    obtain ⟨queue, hqueue, hfull⟩ := Option.any_eq_true _ _ |>.mp (hfull.resolve_left (not_le.mpr hlimit))
    have hfull : limit c.key ≤ queue.length := of_decide_eq_true hfull
    obtain ⟨rfl, -⟩ := Prod.mk.inj h
    refine ⟨nofun, fun _ => ?_⟩
    obtain ⟨before, hsorted, htrimmed⟩ := hchecked.trimmed
    rw [queue_of_get? hqueue] at htrimmed
    have hcounts := hchecked.counts c.key
    rw [queue_of_get? hqueue] at hcounts
    have hlength := hcounts.length_le (fun e he => ?_)
      fun e he => Window.mem_of_dropWhile hsorted (htrimmed ▸ he)
    · omega
    · obtain ⟨a, ha, rfl⟩ := exists_of_mem_allowed he
      exact hnow a ha
  · rename_i hfree
    obtain ⟨rfl, -⟩ := Prod.mk.inj h
    refine ⟨fun _ p hp => ?_, nofun⟩
    have hle := (hchecked.counts c.key).countP_le hp
    have hlength : ((x.queue c.key).length : Int) < limit c.key := by
      cases hqueue : x.events.get? c.key with
      | none =>
        rw [queue_eq_nil hqueue]
        exact hlimit
      | some queue =>
        rw [queue_of_get? hqueue]
        rw [hqueue] at hfree
        have hboth : 0 < limit c.key ∧ (queue.length : Int) < limit c.key := by simpa using hfree
        exact hboth.2
    omega

/-! ## All calls -/

/-- What the limiter has told its callers. -/
structure Limited (limit : String → Int) (window : String → ℚ) (history : List (Call × Bool)) :
    Prop where
  /-- Times that are all within less than a window of each other. -/
  atMost : ∀ key (p : ℚ → Bool), (∀ e e', p e = true → p e' = true → e' < e + window key) →
    (allowed key history).countP p ≤ limit key
  denied : ∀ before c after, history = before ++ (c, false) :: after → limit c.key ≤
    (allowed c.key before).countP fun e => c.now - window c.key ≤ e ∧ e ≤ c.now

theorem Limited.concat {history : List (Call × Bool)} {c : Call} {b : Bool}
    (H : Limited limit window history)
    (htrue : b = true → ∀ p : ℚ → Bool, (∀ e, p e = true → c.now < e + window c.key) →
      (allowed c.key history).countP p < limit c.key)
    (hfalse : b = false → limit c.key ≤
      (allowed c.key history).countP fun e => c.now - window c.key ≤ e ∧ e ≤ c.now) :
    Limited limit window (history ++ [(c, b)]) where
  atMost key p hp := by
    rw [allowed_concat]
    split
    · rename_i h
      obtain ⟨hb, rfl⟩ := h
      rw [List.countP_append, List.countP_singleton]
      split
      · rename_i hnow
        have hlt := htrue hb p fun e he => hp e c.now he hnow
        omega
      · exact H.atMost c.key p hp
    · exact H.atMost key p hp
  denied before c' after h := by
    rcases List.eq_nil_or_concat after with rfl | ⟨after', last, rfl⟩
    · obtain ⟨rfl, hlast⟩ := List.append_inj' h rfl
      cases hlast
      exact hfalse rfl
    · rw [List.concat_eq_append, ← List.cons_append, ← List.append_assoc] at h
      exact H.denied before c' after' (List.append_inj' h rfl).1

theorem run_limited {history : List (Call × Bool)} (hlimit : ∀ key, 0 < limit key)
    (h : (limiterSystem limit window).Run {} history s) (hordered : Ordered history) :
    Inv window history s ∧ Limited limit window history := by
  refine h.history (P := fun history s => Ordered history →
    Inv window history s ∧ Limited limit window history) (fun _ => ⟨.init, ?_⟩) ?_ hordered
  · refine ⟨fun key _ _ => (hlimit key).le, fun before c after h => ?_⟩
    cases before with
    | nil => cases h
    | cons => cases h
  · intro history s ⟨c, b⟩ t ih hstep hordered
    obtain ⟨H, hlimited⟩ := ih (List.pairwise_append.mp hordered).1
    obtain ⟨htrue, hfalse⟩ := H.allow (hlimit c.key) hordered (Option.some.inj hstep)
    exact ⟨H.keep hordered (Option.some.inj hstep), hlimited.concat htrue hfalse⟩

/-- The sliding window, and the reclaiming of buckets. -/
theorem allow_slidingWindow {history : List (Call × Bool)} (hlimit : ∀ key, 0 < limit key)
    (h : (limiterSystem limit window).Run {} history s) (hordered : Ordered history) :
    (∀ key start,
      (allowed key history).countP (fun e => start ≤ e ∧ e < start + window key) ≤ limit key ∧
      (allowed key history).countP (fun e => start < e ∧ e ≤ start + window key) ≤ limit key) ∧
    (∀ before c after, history = before ++ (c, false) :: after → limit c.key ≤
      (allowed c.key before).countP fun e => c.now - window c.key ≤ e ∧ e ≤ c.now) ∧
    ∀ key queue, s.events.get? key = some queue → queue ≠ [] →
      Live s key ∧
        ∃ deadline, ∀ now, deadline ≤ now → (s.purgeExpiredBuckets now).events.get? key = none := by
  obtain ⟨H, hlimited⟩ := run_limited hlimit h hordered
  refine ⟨fun key start => ⟨hlimited.atMost key _ fun e e' he he' => ?_,
    hlimited.atMost key _ fun e e' he he' => ?_⟩, hlimited.denied, fun key queue hqueue hne => ?_⟩
  · exact (of_decide_eq_true he').2.trans_le (add_le_add_left (of_decide_eq_true he).1 _)
  · exact (of_decide_eq_true he').2.trans_lt (add_lt_add_left (of_decide_eq_true he).1 _)
  · have hlive := H.reclaims.live key (by rw [queue_of_get? hqueue]; exact hne)
    exact ⟨hlive, hlive.purge H.reclaims⟩

/-- Two calls in ten seconds: the third one is denied, a later one is not. -/
def fourCalls : List Call := [⟨"login", 0⟩, ⟨"login", 1 / 2⟩, ⟨"login", 1⟩, ⟨"login", 21 / 2⟩]

theorem allow_slidingWindow_fourCalls : ∃ history s,
    (limiterSystem (fun _ => 2) fun _ => 10).Run {} history s ∧
    history.map Prod.snd = [true, true, false, true] ∧
    (∀ start, ((allowed "login" history).countP fun e => start ≤ e ∧ e < start + 10) ≤ (2 : Int)) ∧
    Live s "login" := by
  let step (s : RateLimiter) (c : Call) : Option (Bool × RateLimiter) := some (s.allow c.key 2 10 c.now)
  obtain ⟨⟨history, s⟩, hanswer, hchecked⟩ : ∃ r, System.answer step {} fourCalls = some r ∧
      (r.1.map Prod.snd = [true, true, false, true] ∧
        r.1.map (·.1.now) = [0, 1 / 2, 1, 21 / 2] ∧ (r.2.events.get? "login").any (· ≠ [])) := by
    have hrun : (System.answer step {} fourCalls).any (fun r => decide
        (r.1.map Prod.snd = [true, true, false, true] ∧
          r.1.map (·.1.now) = [0, 1 / 2, 1, 21 / 2] ∧ (r.2.events.get? "login").any (· ≠ []))) = true := by
      decide +kernel
    obtain ⟨r, hr, h⟩ := (Option.any_eq_true _ _).mp hrun
    exact ⟨r, hr, of_decide_eq_true h⟩
  obtain ⟨hresults, htimes, hqueue⟩ := hchecked
  have hrun : (limiterSystem (fun _ => 2) fun _ => 10).Run {} history s :=
    System.run_of_answer hanswer
  have hordered : Ordered history := by
    have hpair : (history.map (·.1.now)).Pairwise (· ≤ ·) := by
      rw [htimes]
      decide +kernel
    exact List.pairwise_map.mp hpair
  obtain ⟨hcount, -, hlive⟩ := allow_slidingWindow (fun _ => by decide) hrun hordered
  obtain ⟨queue, hget, hne⟩ := (Option.any_eq_true _ _).mp hqueue
  exact ⟨history, s, hrun, hresults, fun start => (hcount "login" start).1,
    (hlive "login" queue hget (of_decide_eq_true hne)).1⟩

end WebSSH.Limits
