import WebSSH.Flow.Controller
import Mathlib.Algebra.BigOperators.Group.List.Basic
import Mathlib.Algebra.Order.BigOperators.Group.List

/-!
# Accounting of the SSH output flow controller

Each of the four counter tables `Tracks` the live reservations: a counter is the sum of the weights
of its key's reservations, and a key without live reservations has no counter. Granting and
settling one reservation keep this (`Tracks.grant`, `Tracks.settle`); the invariant `Accounted`
of the controller is four of them and the two global sums.
-/

namespace WebSSH.Flow
open Lib

section Tracks

variable {Token κ R : Type} [DecidableEq Token] [DecidableEq κ]
variable {counters : Dict κ Int} {rs : Dict Token R} {key : R → κ} {weight : R → Int}

/-- The sum of the weights of the live reservations of `k`. -/
def weightOf (rs : Dict Token R) (key : R → κ) (weight : R → Int) (k : κ) : Int :=
  rs.total fun _ r => if key r = k then weight r else 0

/-- `counters` is the table of the sums of `weight` over the reservations of each key, and it has
no counter for a key without reservations. -/
structure Tracks (counters : Dict κ Int) (rs : Dict Token R) (key : R → κ) (weight : R → Int) :
    Prop where
  sum : ∀ k, counters.getD k 0 = weightOf rs key weight k
  live : ∀ {k n}, counters.get? k = some n → ∃ token r, rs.get? token = some r ∧ key r = k

theorem weightOf_eq_zero {k : κ} (h : ∀ token r, rs.get? token = some r → key r ≠ k) :
    weightOf rs key weight k = 0 := by
  unfold weightOf Dict.total
  apply List.sum_eq_zero
  intro n hn
  obtain ⟨⟨token, r⟩, hr, rfl⟩ := List.mem_map.mp hn
  exact if_neg (h token r (Dict.mem_entries.mp hr))

theorem weightOf_nonneg {k : κ} (h : ∀ token r, rs.get? token = some r → 0 ≤ weight r) :
    0 ≤ weightOf rs key weight k := by
  unfold weightOf Dict.total
  apply List.sum_nonneg
  intro n hn
  obtain ⟨⟨token, r⟩, hr, rfl⟩ := List.mem_map.mp hn
  have := h token r (Dict.mem_entries.mp hr)
  dsimp only
  split <;> omega

/-- With nonnegative weights, one reservation of the key weighs at most the whole key. -/
theorem weight_le_weightOf (key : R → κ) {token : Token} {r : R} (hr : rs.get? token = some r)
    (h : ∀ token r, rs.get? token = some r → 0 ≤ weight r) :
    weight r ≤ weightOf rs key weight (key r) := by
  have he := Dict.total_erase (f := fun _ x => if key x = key r then weight x else 0) hr
  have hn : 0 ≤ weightOf (rs.erase token) key weight (key r) :=
    weightOf_nonneg fun t x hx => h t x (Dict.get?_of_erase hx).2
  rw [if_pos rfl] at he
  unfold weightOf at hn ⊢
  omega

theorem getD_bump {k j : κ} {n : Int} :
    (bump counters k n).getD j 0 = counters.getD j 0 + if j = k then n else 0 := by
  unfold bump
  rw [Dict.getD_set]
  split
  · subst j; rfl
  · omega

theorem getD_pruneKey {k j : κ} : (pruneKey counters k).getD j 0 = counters.getD j 0 := by
  unfold pruneKey
  split
  · rename_i h
    rw [Dict.getD_erase]
    split
    · subst j; exact h.symm
    · rfl
  · rfl

theorem Tracks.empty : Tracks (∅ : Dict κ Int) (∅ : Dict Token R) key weight :=
  ⟨fun _ => rfl, fun h => by simp at h⟩

theorem Tracks.grant (H : Tracks counters rs key weight) {token : Token} {r : R}
    (hnew : rs.get? token = none) :
    Tracks (bump counters (key r) (weight r)) (rs.set token r) key weight := by
  refine ⟨fun k => ?_, fun {k n} h => ?_⟩
  · unfold weightOf
    rw [getD_bump, Dict.total_set_of_none hnew, H.sum]
    by_cases hk : k = key r
    · rw [if_pos hk, if_pos hk.symm]; rfl
    · rw [if_neg hk, if_neg (Ne.symm hk)]; rfl
  · by_cases hk : k = key r
    · exact ⟨token, r, Dict.get?_set_self, hk.symm⟩
    · rw [bump, Dict.get?_set_of_ne hk] at h
      obtain ⟨t, x, hx, hkey⟩ := H.live h
      have hne : t ≠ token := by rintro rfl; simp [hnew] at hx
      exact ⟨t, x, by rw [Dict.get?_set_of_ne hne]; exact hx, hkey⟩

theorem Tracks.settle (H : Tracks counters rs key weight) {token : Token} {r : R}
    (hr : rs.get? token = some r) :
    Tracks (pruneKey (bump counters (key r) (-weight r)) (key r)) (rs.erase token) key weight := by
  have hsum : ∀ k, (bump counters (key r) (-weight r)).getD k 0 =
      weightOf (rs.erase token) key weight k := by
    intro k
    have he := Dict.total_erase (f := fun _ x => if key x = k then weight x else 0) hr
    rw [getD_bump, H.sum]
    unfold weightOf
    rw [← he]
    by_cases hk : k = key r
    · rw [if_pos hk, if_pos hk.symm]; omega
    · rw [if_neg hk, if_neg (Ne.symm hk)]; omega
  refine ⟨fun k => by rw [getD_pruneKey, hsum], fun {k n} h => ?_⟩
  by_contra hnone
  push Not at hnone
  -- without a live reservation the sum is zero, so the key was pruned or had no counter before
  have hzero : weightOf (rs.erase token) key weight k = 0 := weightOf_eq_zero hnone
  by_cases hk : k = key r
  · subst hk
    rw [pruneKey, if_pos ((hsum _).trans hzero), Dict.get?_erase_self] at h
    cases h
  · have h' : counters.get? k = some n := by
      unfold pruneKey bump at h
      split at h
      · rwa [Dict.get?_erase_of_ne hk, Dict.get?_set_of_ne hk] at h
      · rwa [Dict.get?_set_of_ne hk] at h
    obtain ⟨t, x, hx, hkey⟩ := H.live h'
    have hne : t ≠ token := by
      rintro rfl
      rw [hr] at hx
      cases hx
      exact hk hkey.symm
    exact hnone t x (by rw [Dict.get?_erase_of_ne hne]; exact hx) hkey

/-- Dropping the counter of a key without reservations changes nothing. -/
theorem Tracks.erase (H : Tracks counters rs key weight) {k : κ}
    (h : ∀ token r, rs.get? token = some r → key r ≠ k) :
    Tracks (counters.erase k) rs key weight := by
  refine ⟨fun j => ?_, fun hj => H.live (Dict.get?_of_erase hj).2⟩
  rw [Dict.getD_erase]
  split
  · subst j; exact (weightOf_eq_zero h).symm
  · exact H.sum j

/-- With nonnegative weights a zero counter means that every reservation of its key weighs zero. -/
theorem Tracks.eq_zero (H : Tracks counters rs key weight)
    (h : ∀ token r, rs.get? token = some r → 0 ≤ weight r) {k : κ}
    (hk : counters.getD k 0 = 0) {token : Token} {r : R} (hr : rs.get? token = some r)
    (hkey : key r = k) : weight r = 0 := by
  subst hkey
  have hle := weight_le_weightOf key hr h
  rw [← H.sum, hk] at hle
  exact le_antisymm hle (h token r hr)

theorem Tracks.nonneg (H : Tracks counters rs key weight)
    (h : ∀ token r, rs.get? token = some r → 0 ≤ weight r) (k : κ) : 0 ≤ counters.getD k 0 := by
  rw [H.sum]; exact weightOf_nonneg h

/-- With positive weights every stored counter is positive. -/
theorem Tracks.pos (H : Tracks counters rs key weight)
    (h : ∀ token r, rs.get? token = some r → 0 < weight r) {k : κ} {n : Int}
    (hn : counters.get? k = some n) : 0 < n := by
  obtain ⟨token, r, hr, rfl⟩ := H.live hn
  have hle := weight_le_weightOf key hr fun t x hx => (h t x hx).le
  have hsum := H.sum (key r)
  rw [Dict.getD_of_get? hn] at hsum
  have := h token r hr
  omega

end Tracks

section
variable {Token Sid User Session Callback : Type}
variable [DecidableEq Token] [DecidableEq Sid] [DecidableEq User]
variable {cfg : Config} {c : Controller Token Sid User Session Callback}

namespace Controller

/-- The counters are the sums over the live reservations, and the event counters are within
their limits. -/
structure Counted (cfg : Config) (c : Controller Token Sid User Session Callback) : Prop where
  socketBytes : Tracks c.socketBytes c.reservations (·.socketSid) (·.size)
  socketEvents : Tracks c.socketEvents c.reservations (·.socketSid) (fun _ => 1)
  userBytes : Tracks c.userBytes c.reservations (·.userId) (·.size)
  userEvents : Tracks c.userEvents c.reservations (·.userId) (fun _ => 1)
  globalBytes : c.globalBytes = c.reservations.total fun _ r => r.size
  globalEvents : c.globalEvents = c.reservations.total fun _ _ => 1
  socketEventLimit : ∀ sid, c.socketEvents.getD sid 0 ≤ cfg.socketEventLimit
  userEventLimit : ∀ user, c.userEvents.getD user 0 ≤ cfg.maxUnackedEventsPerUser
  globalEventLimit : c.globalEvents ≤ cfg.maxUnackedEventsGlobal

/-- The counters are right and every live reservation belongs to an active socket. -/
structure Accounted (cfg : Config) (c : Controller Token Sid User Session Callback) : Prop
    extends c.Counted cfg where
  active : ∀ token r, c.reservations.get? token = some r → r.socketSid ∈ c.activeSockets

/-- The byte counters are within their limits. -/
structure WithinBytes (cfg : Config) (c : Controller Token Sid User Session Callback) : Prop where
  socket : ∀ sid, c.socketBytes.getD sid 0 ≤ cfg.maxUnackedBytesPerSocket
  user : ∀ user, c.userBytes.getD user 0 ≤ cfg.maxUnackedBytesPerUser
  global : c.globalBytes ≤ cfg.maxUnackedBytesGlobal

/-- No zero or negative event counter is stored. -/
structure EventsPositive (c : Controller Token Sid User Session Callback) : Prop where
  socket : ∀ {sid n}, c.socketEvents.get? sid = some n → 0 < n
  user : ∀ {user n}, c.userEvents.get? user = some n → 0 < n

/-- No zero or negative byte counter is stored. -/
structure BytesPositive (c : Controller Token Sid User Session Callback) : Prop where
  socket : ∀ {sid n}, c.socketBytes.get? sid = some n → 0 < n
  user : ∀ {user n}, c.userBytes.get? user = some n → 0 < n

/-- No negative byte counter is stored, and a zero one only while all reservations of its socket
or user have size zero. -/
structure BytesNonneg (c : Controller Token Sid User Session Callback) : Prop where
  socket : ∀ {sid n}, c.socketBytes.get? sid = some n → 0 ≤ n ∧
    (n = 0 → ∀ token r, c.reservations.get? token = some r → r.socketSid = sid → r.size = 0)
  user : ∀ {user n}, c.userBytes.get? user = some n → 0 ≤ n ∧
    (n = 0 → ∀ token r, c.reservations.get? token = some r → r.userId = user → r.size = 0)

theorem accounted_init : (init : Controller Token Sid User Session Callback).Accounted cfg where
  socketBytes := .empty
  socketEvents := .empty
  userBytes := .empty
  userEvents := .empty
  globalBytes := rfl
  globalEvents := rfl
  active := fun _ _ h => by cases h
  socketEventLimit := fun _ => Int.natCast_nonneg _
  userEventLimit := fun _ => Int.natCast_nonneg _
  globalEventLimit := Int.natCast_nonneg _

omit [DecidableEq Token] in
/-- What `_fits` has checked when it answers yes. -/
theorem fits_iff {sid : Sid} {user : User} {size : Int} :
    c.fits cfg sid user size = true ↔
      sid ∈ c.activeSockets ∧
      c.socketBytes.getD sid 0 + size ≤ cfg.maxUnackedBytesPerSocket ∧
      c.socketEvents.getD sid 0 + 1 ≤ cfg.socketEventLimit ∧
      c.userBytes.getD user 0 + size ≤ cfg.maxUnackedBytesPerUser ∧
      c.userEvents.getD user 0 + 1 ≤ cfg.maxUnackedEventsPerUser ∧
      c.globalBytes + size ≤ cfg.maxUnackedBytesGlobal ∧
      c.globalEvents + 1 ≤ cfg.maxUnackedEventsGlobal := by
  simp only [fits, Bool.and_eq_true, decide_eq_true_eq, and_assoc]

/-- A pass of `reserve` either grants a size that fits or leaves the state as it was. -/
theorem reserve_cases (cfg : Config) (c : Controller Token Sid User Session Callback)
    (token : Token) (sid : Sid) (user : User) (session : Session) (size : Int)
    (cancelled : Bool) (now deadline timeout : Rat) :
    (c.fits cfg sid user size = true ∧
      (c.reserve cfg token sid user session size cancelled now deadline timeout).1 =
        c.grant token sid user session size now timeout) ∨
    (c.reserve cfg token sid user session size cancelled now deadline timeout).1 = c := by
  by_cases h : c.fits cfg sid user size = true
  · exact .inl ⟨h, by simp [reserve, h]⟩
  · right
    unfold reserve
    rw [if_neg h]
    split
    · rfl
    · split
      · rfl
      · split <;> rfl

theorem Counted.grant (H : c.Counted cfg) {token : Token} {sid : Sid} {user : User}
    {session : Session} {size : Int} {now timeout : Rat}
    (hnew : c.reservations.get? token = none) (hfits : c.fits cfg sid user size = true) :
    (c.grant token sid user session size now timeout).Counted cfg := by
  obtain ⟨-, -, hse, -, hue, -, hge⟩ := fits_iff.mp hfits
  let r : Reservation Sid User Session := ⟨sid, user, session, size, now, now + timeout⟩
  refine ⟨H.socketBytes.grant (r := r) hnew, H.socketEvents.grant (r := r) hnew,
    H.userBytes.grant (r := r) hnew, H.userEvents.grant (r := r) hnew, ?_, ?_,
    fun s => ?_, fun u => ?_, hge⟩
  · simp only [Controller.grant, Dict.total_set_of_none hnew, H.globalBytes]
  · simp only [Controller.grant, Dict.total_set_of_none hnew, H.globalEvents]
  · simp only [Controller.grant, getD_bump]
    have := H.socketEventLimit s
    split
    · subst s; exact hse
    · omega
  · simp only [Controller.grant, getD_bump]
    have := H.userEventLimit u
    split
    · subst u; exact hue
    · omega

theorem Accounted.grant (H : c.Accounted cfg) {token : Token} {sid : Sid} {user : User}
    {session : Session} {size : Int} {now timeout : Rat}
    (hnew : c.reservations.get? token = none) (hfits : c.fits cfg sid user size = true) :
    (c.grant token sid user session size now timeout).Accounted cfg := by
  refine ⟨H.toCounted.grant hnew hfits, fun t r hr => ?_⟩
  simp only [Controller.grant, Dict.get?_set] at hr
  split at hr
  · cases hr; exact (fits_iff.mp hfits).1
  · exact H.active t r hr

theorem WithinBytes.grant (H : c.WithinBytes cfg) {token : Token} {sid : Sid} {user : User}
    {session : Session} {size : Int} {now timeout : Rat}
    (hfits : c.fits cfg sid user size = true) :
    (c.grant token sid user session size now timeout).WithinBytes cfg := by
  obtain ⟨-, hsb, -, hub, -, hgb, -⟩ := fits_iff.mp hfits
  refine ⟨fun s => ?_, fun u => ?_, hgb⟩
  · simp only [Controller.grant, getD_bump]
    have := H.socket s
    split
    · subst s; exact hsb
    · omega
  · simp only [Controller.grant, getD_bump]
    have := H.user u
    split
    · subst u; exact hub
    · omega

theorem Counted.settle (H : c.Counted cfg) {token : Token}
    {r : Reservation Sid User Session} (hr : c.reservations.get? token = some r) :
    (c.settle token r).Counted cfg := by
  refine ⟨H.socketBytes.settle hr, H.socketEvents.settle hr, H.userBytes.settle hr,
    H.userEvents.settle hr, ?_, ?_, fun s => ?_, fun u => ?_, ?_⟩
  · have := Dict.total_erase (f := fun _ x => x.size) hr
    have := H.globalBytes
    simp only [Controller.settle]
    omega
  · have := Dict.total_erase (f := fun _ _ => (1 : Int)) hr
    have := H.globalEvents
    simp only [Controller.settle]
    omega
  · simp only [Controller.settle, getD_pruneKey, getD_bump]
    have := H.socketEventLimit s
    split <;> omega
  · simp only [Controller.settle, getD_pruneKey, getD_bump]
    have := H.userEventLimit u
    split <;> omega
  · have := H.globalEventLimit
    simp only [Controller.settle]
    omega

theorem WithinBytes.settle (H : c.WithinBytes cfg) {token : Token}
    {r : Reservation Sid User Session} (hsize : 0 ≤ r.size) :
    (c.settle token r).WithinBytes cfg := by
  refine ⟨fun s => ?_, fun u => ?_, ?_⟩
  · simp only [Controller.settle, getD_pruneKey, getD_bump]
    have := H.socket s
    split <;> omega
  · simp only [Controller.settle, getD_pruneKey, getD_bump]
    have := H.user u
    split <;> omega
  · have := H.global
    simp only [Controller.settle]
    omega

/-! ## The loop of `release_socket` -/

theorem settleToken_cases (c : Controller Token Sid User Session Callback) (token : Token) :
    (∃ r, c.reservations.get? token = some r ∧ c.settleToken token = c.settle token r) ∨
    (c.reservations.get? token = none ∧ c.settleToken token = c) := by
  unfold settleToken
  cases h : c.reservations.get? token with
  | none => exact .inr ⟨rfl, rfl⟩
  | some r => exact .inl ⟨r, rfl, rfl⟩

theorem settleToken_get? {token t : Token} :
    (c.settleToken token).reservations.get? t =
      if t = token then none else c.reservations.get? t := by
  rcases settleToken_cases c token with ⟨r, _, h⟩ | ⟨hr, h⟩
  · rw [h, settle, Dict.get?_erase]
  · rw [h]
    split
    · subst t; exact hr
    · rfl

theorem settleToken_activeSockets {token : Token} :
    (c.settleToken token).activeSockets = c.activeSockets := by
  rcases settleToken_cases c token with ⟨r, _, h⟩ | ⟨_, h⟩ <;> rw [h]; rfl

/-- The loop takes exactly the collected tokens out. -/
theorem settleTokens_get? {tokens : List Token} {t : Token} :
    (tokens.foldl settleToken c).reservations.get? t =
      if t ∈ tokens then none else c.reservations.get? t := by
  induction tokens generalizing c with
  | nil => simp
  | cons token tokens ih =>
    rw [List.foldl_cons, ih, settleToken_get?]
    by_cases h : t = token <;> simp [h]

theorem settleTokens_activeSockets {tokens : List Token} :
    (tokens.foldl settleToken c).activeSockets = c.activeSockets := by
  induction tokens generalizing c with
  | nil => rfl
  | cons token tokens ih => rw [List.foldl_cons, ih, settleToken_activeSockets]

omit [DecidableEq User] in
theorem mem_tokensOf {sid : Sid} {token : Token} :
    token ∈ c.tokensOf sid ↔ ∃ r, c.reservations.get? token = some r ∧ r.socketSid = sid := by
  simp [tokensOf, Dict.mem_keys, Dict.get?_filter, Option.filter_eq_some_iff]

/-- A property kept by taking one live reservation out is kept by the loop. -/
theorem settleTokens_induction {P : Controller Token Sid User Session Callback → Prop}
    (tokens : List Token) (h : P c)
    (hstep : ∀ c token r, P c → c.reservations.get? token = some r → P (c.settle token r)) :
    P (tokens.foldl settleToken c) := by
  induction tokens generalizing c with
  | nil => exact h
  | cons token tokens ih =>
    apply ih
    rcases settleToken_cases c token with ⟨r, hr, hs⟩ | ⟨_, hs⟩
    · rw [hs]; exact hstep _ _ _ h hr
    · rw [hs]; exact h

/-- After the loop the socket has no reservation, and the others keep theirs. -/
theorem releaseSocket_get? {sid : Sid} {token : Token} {r : Reservation Sid User Session} :
    (c.releaseSocket sid).reservations.get? token = some r ↔
      c.reservations.get? token = some r ∧ r.socketSid ≠ sid := by
  simp only [releaseSocket, settleTokens_get?]
  split
  · rename_i h
    obtain ⟨x, hx, hsid⟩ := mem_tokensOf.mp h
    simp only [reduceCtorEq, false_iff, not_and, not_not]
    intro hr
    obtain rfl := Option.some.inj (hx.symm.trans hr)
    exact hsid
  · rename_i h
    refine ⟨fun hr => ⟨hr, fun hsid => h (mem_tokensOf.mpr ⟨r, hr, hsid⟩)⟩, fun hr => hr.1⟩

theorem releaseSocket_activeSockets {sid : Sid} :
    (c.releaseSocket sid).activeSockets = c.activeSockets.erase sid := by
  simp only [releaseSocket, settleTokens_activeSockets]

theorem Counted.releaseSocket (H : c.Counted cfg) (sid : Sid) :
    (c.releaseSocket sid).Counted cfg := by
  have H₀ : ({ c with activeSockets := c.activeSockets.erase sid } : Controller ..).Counted cfg :=
    { H with }
  have H₁ := settleTokens_induction (c.tokensOf sid) H₀ fun _ _ _ h hr => h.settle hr
  -- no reservation of `sid` is left, so the final pops only drop counters that track nothing
  have hgone : ∀ token r, (c.releaseSocket sid).reservations.get? token = some r →
      r.socketSid ≠ sid := fun _ _ hr => (releaseSocket_get?.mp hr).2
  refine { H₁ with
    socketBytes := H₁.socketBytes.erase fun t r hr => hgone t r hr
    socketEvents := H₁.socketEvents.erase fun t r hr => hgone t r hr
    socketEventLimit := fun s => ?_ }
  simp only [Controller.releaseSocket, Dict.getD_erase]
  split
  · exact Int.natCast_nonneg _
  · exact H₁.socketEventLimit s

theorem Accounted.releaseSocket (H : c.Accounted cfg) (sid : Sid) :
    (c.releaseSocket sid).Accounted cfg := by
  refine ⟨H.toCounted.releaseSocket sid, fun t r hr => ?_⟩
  obtain ⟨hr, hsid⟩ := releaseSocket_get?.mp hr
  rw [releaseSocket_activeSockets]
  exact Finset.mem_erase.mpr ⟨hsid, H.active t r hr⟩

theorem WithinBytes.releaseSocket (H : c.WithinBytes cfg) (sid : Sid)
    (hsize : ∀ token r, c.reservations.get? token = some r → 0 ≤ r.size) :
    (c.releaseSocket sid).WithinBytes cfg := by
  have H₁ := settleTokens_induction (c.tokensOf sid)
    (c := { c with activeSockets := c.activeSockets.erase sid })
    (P := fun c => c.WithinBytes cfg ∧ ∀ token r, c.reservations.get? token = some r → 0 ≤ r.size)
    ⟨{ H with }, hsize⟩ fun _ _ _ h hr =>
      ⟨h.1.settle (h.2 _ _ hr), fun t x hx => h.2 t x (Dict.get?_of_erase hx).2⟩
  refine { H₁.1 with socket := fun s => ?_ }
  simp only [Controller.releaseSocket, Dict.getD_erase]
  split
  · exact Int.natCast_nonneg _
  · exact H₁.1.socket s

/-! ## Every step and every run -/

omit [DecidableEq Sid] [DecidableEq User] in
theorem armDeadline_cases (c : Controller Token Sid User Session Callback) (token : Token)
    (callback : Callback) :
    ∃ deadlines, c.armDeadline token callback = { c with deadlineCallbacks := deadlines } := by
  unfold armDeadline
  split
  · exact ⟨c.deadlineCallbacks, rfl⟩
  · exact ⟨_, rfl⟩

theorem Accounted.step (H : c.Accounted cfg) {op : Op Token Sid User Session Callback}
    (hfresh : op.Fresh c) : (c.step cfg op).Accounted cfg := by
  cases op with
  | registerSocket sid =>
    exact { H with active := fun t r hr => Finset.mem_insert_of_mem (H.active t r hr) }
  | reserve token sid user session size cancelled now deadline timeout =>
    simp only [Controller.step]
    rcases reserve_cases cfg c token sid user session size cancelled now deadline timeout
      with ⟨hfits, h⟩ | h <;> rw [h]
    · exact H.grant hfresh hfits
    · exact H
  | armDeadline token callback =>
    obtain ⟨deadlines, h⟩ := armDeadline_cases c token callback
    simp only [Controller.step, h]
    exact { H with }
  | release token =>
    simp only [Controller.step, release]
    split
    · exact H
    · rename_i r hr
      exact ⟨H.toCounted.settle hr, fun t x hx => H.active t x (Dict.get?_of_erase hx).2⟩
  | releaseSocket sid => exact H.releaseSocket sid

/-- Every live reservation has the size some call of `reserve` gave it. -/
theorem sizes_step {p : Int → Prop} (H : ∀ t r, c.reservations.get? t = some r → p r.size)
    {op : Op Token Sid User Session Callback} (hop : op.SizeSatisfies p) {token : Token}
    {r : Reservation Sid User Session} (hr : (c.step cfg op).reservations.get? token = some r) :
    p r.size := by
  cases op with
  | registerSocket sid => exact H token r hr
  | reserve t sid user session size cancelled now deadline timeout =>
    simp only [Controller.step] at hr
    rcases reserve_cases cfg c t sid user session size cancelled now deadline timeout
      with ⟨_, h⟩ | h <;> rw [h] at hr
    · simp only [grant, Dict.get?_set] at hr
      split at hr
      · cases hr; exact hop
      · exact H token r hr
    · exact H token r hr
  | armDeadline t callback =>
    obtain ⟨deadlines, h⟩ := armDeadline_cases c t callback
    simp only [Controller.step, h] at hr
    exact H token r hr
  | release t =>
    simp only [Controller.step, release] at hr
    split at hr
    · exact H token r hr
    · exact H token r (Dict.get?_of_erase hr).2
  | releaseSocket sid => exact H token r (releaseSocket_get?.mp hr).1

theorem WithinBytes.step (H : c.WithinBytes cfg)
    (hsize : ∀ t r, c.reservations.get? t = some r → 0 ≤ r.size)
    (op : Op Token Sid User Session Callback) : (c.step cfg op).WithinBytes cfg := by
  cases op with
  | registerSocket sid => exact { H with }
  | reserve token sid user session size cancelled now deadline timeout =>
    simp only [Controller.step]
    rcases reserve_cases cfg c token sid user session size cancelled now deadline timeout
      with ⟨hfits, h⟩ | h <;> rw [h]
    · exact H.grant hfits
    · exact H
  | armDeadline token callback =>
    obtain ⟨deadlines, h⟩ := armDeadline_cases c token callback
    simp only [Controller.step, h]
    exact { H with }
  | release token =>
    simp only [Controller.step, release]
    split
    · exact H
    · rename_i r hr
      exact H.settle (hsize token r hr)
  | releaseSocket sid => exact H.releaseSocket sid hsize

end Controller

open Controller

theorem run_accounted {ops : List (Op Token Sid User Session Callback)}
    (h : (system cfg).Run .init ops c) : c.Accounted cfg :=
  h.invariant accounted_init fun _ _ _ H ⟨hfresh, hs⟩ => hs ▸ H.step hfresh

theorem run_sizes {p : Int → Prop} {ops : List (Op Token Sid User Session Callback)}
    (h : (system cfg).Run .init ops c) (hops : ∀ op ∈ ops, op.SizeSatisfies p) :
    ∀ token r, c.reservations.get? token = some r → p r.size :=
  h.invariant_of (P := fun c => ∀ token r, c.reservations.get? token = some r → p r.size) hops
    (fun _ _ h => by cases h) fun _ _ _ hop H ⟨_, hs⟩ token r hr =>
      sizes_step H hop (by rw [hs]; exact hr)

theorem run_withinBytes {ops : List (Op Token Sid User Session Callback)}
    (h : (system cfg).Run .init ops c) (hops : ∀ op ∈ ops, op.SizeSatisfies (0 ≤ ·)) :
    c.WithinBytes cfg := by
  have := h.invariant_of
    (P := fun c => c.WithinBytes cfg ∧ ∀ t r, c.reservations.get? t = some r → 0 ≤ r.size) hops
    ⟨⟨fun _ => Int.natCast_nonneg _, fun _ => Int.natCast_nonneg _, Int.natCast_nonneg _⟩,
      fun _ _ h => by cases h⟩
    fun _ _ _ hop H ⟨_, hs⟩ => by
      subst hs
      exact ⟨H.1.step H.2 _, fun t r hr => sizes_step H.2 hop hr⟩
  exact this.1

theorem Controller.Accounted.eventsPositive (H : c.Accounted cfg) : c.EventsPositive where
  socket := H.socketEvents.pos fun _ _ _ => Int.one_pos
  user := H.userEvents.pos fun _ _ _ => Int.one_pos

theorem Controller.Accounted.bytesNonneg (H : c.Accounted cfg)
    (hsize : ∀ t r, c.reservations.get? t = some r → 0 ≤ r.size) : c.BytesNonneg := by
  refine ⟨fun {sid n} h => ?_, fun {user n} h => ?_⟩
  · have hn := Dict.getD_of_get? (a := 0) h
    refine ⟨hn ▸ H.socketBytes.nonneg hsize sid, fun h0 t r => ?_⟩
    exact H.socketBytes.eq_zero hsize (hn.trans h0)
  · have hn := Dict.getD_of_get? (a := 0) h
    refine ⟨hn ▸ H.userBytes.nonneg hsize user, fun h0 t r => ?_⟩
    exact H.userBytes.eq_zero hsize (hn.trans h0)

/-- **Output flow accounting.** After any sequence of calls the counters are the sums over the
live reservations, inactive sockets hold none, the event counters are positive and within their
limits. Sizes that are never negative keep the byte counters within their limits and nonnegative;
positive sizes, and `event_size` returns no other, leave no zero counter behind. -/
theorem output_flow_accounting {ops : List (Op Token Sid User Session Callback)}
    (h : (system cfg).Run .init ops c) :
    c.Accounted cfg ∧ c.EventsPositive ∧
    ((∀ op ∈ ops, op.SizeSatisfies (0 ≤ ·)) → c.WithinBytes cfg ∧ c.BytesNonneg) ∧
    ((∀ op ∈ ops, op.SizeSatisfies (0 < ·)) → c.BytesPositive) := by
  have H := run_accounted h
  refine ⟨H, H.eventsPositive, fun hops => ?_, fun hops => ?_⟩
  · exact ⟨run_withinBytes h hops, H.bytesNonneg (run_sizes h hops)⟩
  · exact ⟨H.socketBytes.pos (run_sizes h hops), H.userBytes.pos (run_sizes h hops)⟩

end

section Instances

def smallConfig : Config := ⟨10, 2, 10, 4, 10, 4⟩

def ackRun (size : Int) : List (Op String String Nat String Unit) :=
  [.registerSocket "sid", .reserve "t0" "sid" 1 "s" size false 0 5 5, .release "t1"]

theorem ackRun_run (size : Int) : (system smallConfig).Run .init (ackRun size)
    ((ackRun size).foldl (Controller.step smallConfig) .init) :=
  System.run_of_enabled ⟨trivial, rfl, trivial, trivial⟩

/-- A run with a stale acknowledgement, whose only size is positive. -/
theorem output_flow_accounting_ack :
    ((ackRun 7).foldl (Controller.step smallConfig) .init).BytesPositive :=
  (output_flow_accounting (ackRun_run 7)).2.2.2 (by simp [ackRun, Op.SizeSatisfies])

/-- A reservation of size zero stores a zero byte counter. -/
theorem zero_size_stores_zero_counter :
    ¬ ∀ (ops : List (Op String String Nat String Unit)) (c : Controller ..),
      (system smallConfig).Run .init ops c → c.EventsPositive ∧ c.BytesPositive := by
  intro h
  have hzero : (0 : Int) < 0 := (h _ _ (ackRun_run 0)).2.socket
    (show (((ackRun 0).foldl (Controller.step smallConfig) .init).socketBytes.get? "sid") = _
      from rfl)
  exact absurd hzero (by decide)

end Instances

end WebSSH.Flow
