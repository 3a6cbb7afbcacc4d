import Mathlib
import WebSSH.Sockets.Capacity

/-!
# Admission under a reservation's lock

The tables of the registry agree in every state. A thread that has found the lock of a transport
unchanged keeps the reservation until it lets the lock go, so that no other thread ends the
reservation, or makes it terminal, in an `admission_guard`.
-/

namespace WebSSH.SocketCapacity
open Lib Function

variable {Tid User Sid : Type} [DecidableEq Tid] [DecidableEq User] [DecidableEq Sid]

/-! ## The tables -/

namespace Registry

/-- The transports of a user. -/
def sidsForUser (r : Registry User Sid) (user : User) : List Sid := r.byUser.getD user []

/-- The tables describe the same reservations, whose locks have numbers below `n`. -/
structure Consistent (r : Registry User Sid) (n : Nat) : Prop where
  partition : ∀ user sid, sid ∈ r.sidsForUser user ↔ r.owners.get? sid = some user
  nodup : ∀ user, (r.sidsForUser user).Nodup
  live : ∀ sid, r.admissionLocks.get? sid = none ↔ r.owners.get? sid = none
  fresh : ∀ sid lock, r.admissionLocks.get? sid = some lock → lock < n
  inj : ∀ sid sid' lock, r.admissionLocks.get? sid = some lock →
    r.admissionLocks.get? sid' = some lock → sid = sid'
  terminal : ∀ sid ∈ r.terminal, r.owners.get? sid ≠ none

variable {r r' : Registry User Sid} {n lock : Nat} {user : User} {sid : Sid}
  {maxTotal maxPerUser : Int}

theorem Consistent.init (n : Nat) : (init : Registry User Sid).Consistent n where
  partition _ _ := ⟨nofun, nofun⟩
  nodup _ := .nil
  live _ := iff_of_true rfl rfl
  fresh _ _ h := nomatch h
  inj _ _ _ h := nomatch h
  terminal _ h := nomatch h

theorem socketsOf_spec (r : Registry User Sid) (user : User) :
    (r.socketsOf user).1 = r.sidsForUser user ∧
      (∀ u, (r.socketsOf user).2.sidsForUser u = r.sidsForUser u) ∧
      (r.socketsOf user).2.owners = r.owners ∧ (r.socketsOf user).2.terminal = r.terminal ∧
      (r.socketsOf user).2.admissionLocks = r.admissionLocks := by
  unfold socketsOf
  cases h : r.byUser.get? user with
  | some sockets => exact ⟨(Dict.getD_of_get? h).symm, fun _ => rfl, rfl, rfl, rfl⟩
  | none =>
    have hnone : r.sidsForUser user = [] := by simp [sidsForUser, Dict.getD, h]
    refine ⟨hnone.symm, fun u => ?_, rfl, rfl, rfl⟩
    rw [sidsForUser, Dict.getD_set]
    split
    · subst u
      exact hnone.symm
    · rfl

/-- An entry without transports makes no difference. -/
theorem Consistent.congr (H : r.Consistent n) (hsids : ∀ u, r'.sidsForUser u = r.sidsForUser u)
    (howners : r'.owners = r.owners) (hterminal : r'.terminal = r.terminal)
    (hlocks : r'.admissionLocks = r.admissionLocks) : r'.Consistent n where
  partition u sid := by rw [hsids, howners]; exact H.partition u sid
  nodup u := by rw [hsids]; exact H.nodup u
  live sid := by rw [hlocks, howners]; exact H.live sid
  fresh sid lock := by rw [hlocks]; exact H.fresh sid lock
  inj sid sid' lock := by rw [hlocks]; exact H.inj sid sid' lock
  terminal sid := by rw [hterminal, howners]; exact H.terminal sid

/-- A slot is taken. -/
theorem Consistent.add (H : r.Consistent n) (hsid : r.owners.get? sid = none) :
    ({ r with
      owners := r.owners.set sid user
      byUser := r.byUser.set user (r.sidsForUser user ++ [sid])
      admissionLocks := r.admissionLocks.set sid n } : Registry User Sid).Consistent (n + 1) := by
  have hnot : ∀ u, sid ∉ r.sidsForUser u := fun u hmem => by
    rw [H.partition, hsid] at hmem
    cases hmem
  refine ⟨fun u x => ?_, fun u => ?_, fun x => ?_, fun x l => ?_, fun x y l => ?_, fun x hx => ?_⟩
  · have := H.partition u x
    simp only [sidsForUser, Dict.getD_set, Dict.get?_set] at this ⊢
    rcases Decidable.eq_or_ne u user with rfl | hu
    · rcases Decidable.eq_or_ne x sid with rfl | hx
      · simp
      · simpa [hx, sidsForUser] using this
    · rcases Decidable.eq_or_ne x sid with rfl | hx
      · simpa [hu, hu.symm, sidsForUser] using hnot u
      · simpa [hu, hx] using this
  · simp only [sidsForUser, Dict.getD_set]
    split
    · refine List.nodup_append_comm.mp (List.nodup_cons.mpr ⟨hnot user, H.nodup user⟩)
    · exact H.nodup u
  · simp only [Dict.get?_set]
    split
    · exact iff_of_false nofun nofun
    · exact H.live x
  · simp only [Dict.get?_set]
    split
    · rintro ⟨⟩
      exact Nat.lt_succ_self n
    · exact fun h => Nat.lt_succ_of_lt (H.fresh x l h)
  · simp only [Dict.get?_set]
    split
    · rename_i hx
      rintro ⟨⟩
      split
      · exact fun _ => hx.trans (Eq.symm ‹_›)
      · exact fun h => absurd (H.fresh y n h) (Nat.lt_irrefl n)
    · split
      · rintro h ⟨⟩
        exact absurd (H.fresh x n h) (Nat.lt_irrefl n)
      · exact H.inj x y l
  · simp only [Dict.get?_set]
    split
    · exact nofun
    · exact H.terminal x hx

/-- `reserve` takes a slot. -/
structure Takes (r : Registry User Sid) (user : User) (sid : Sid) (maxTotal maxPerUser : Int)
    (n : Nat) (r' : Registry User Sid) : Prop where
  free : r.owners.get? sid = none
  tables : r'.Consistent (n + 1)
  owners : r'.owners = r.owners.set sid user
  locks : r'.admissionLocks = r.admissionLocks.set sid n
  terminal : r'.terminal = r.terminal
  total : (r'.owners.size : Int) ≤ maxTotal
  perUser : ((r'.sidsForUser user).length : Int) ≤ maxPerUser
  sids : ∀ u, u ≠ user → r'.sidsForUser u = r.sidsForUser u

/-- `reserve` takes none; it may answer that the transport has one. -/
structure Keeps (r : Registry User Sid) (user : User) (sid : Sid) (n : Nat) (answer : Bool)
    (r' : Registry User Sid) : Prop where
  answer : answer = true → r.owners.get? sid = some user ∧ sid ∉ r.terminal
  tables : r'.Consistent n
  owners : r'.owners = r.owners
  locks : r'.admissionLocks = r.admissionLocks
  terminal : r'.terminal = r.terminal
  sids : ∀ u, r'.sidsForUser u = r.sidsForUser u

omit [DecidableEq User] in
theorem size_set_of_none {d : Dict Sid User} (h : d.get? sid = none) :
    (d.set sid user).size = d.size + 1 := by
  rw [Dict.size, Dict.set_entries_of_none h, List.length_append]
  rfl

/-- What `reserve` does. -/
theorem Consistent.reserve (H : r.Consistent n) (user : User) (sid : Sid)
    (maxTotal maxPerUser : Int) :
    (r.reserve user sid maxTotal maxPerUser n).1 = true ∧
        r.Takes user sid maxTotal maxPerUser n (r.reserve user sid maxTotal maxPerUser n).2 ∨
      r.Keeps user sid n (r.reserve user sid maxTotal maxPerUser n).1
        (r.reserve user sid maxTotal maxPerUser n).2 := by
  obtain ⟨hsockets, hsame, howners, hterminal, hlocks⟩ := socketsOf_spec r user
  have H' : (r.socketsOf user).2.Consistent n := H.congr hsame howners hterminal hlocks
  unfold Registry.reserve
  split
  · exact .inr ⟨fun h => of_decide_eq_true h, H, rfl, rfl, rfl, fun _ => rfl⟩
  rename_i hcontains
  have hsid : r.owners.get? sid = none := by simpa [Dict.contains] using hcontains
  split
  · exact .inr ⟨nofun, H, rfl, rfl, rfl, fun _ => rfl⟩
  rename_i htotal
  dsimp only
  split
  · exact .inr ⟨nofun, H', howners, hlocks, hterminal, hsame⟩
  rename_i huser
  have hadd := @Consistent.add _ _ _ _ _ n user sid H' (by rw [howners]; exact hsid)
  rw [hsame user, ← hsockets] at hadd
  refine .inl ⟨rfl, hsid, hadd, congrArg (·.set sid user) howners, congrArg (·.set sid n) hlocks,
    hterminal, ?_, ?_, fun u hu => ?_⟩
  · rw [howners, size_set_of_none hsid]
    omega
  · rw [sidsForUser, Dict.getD_set_self, List.length_append, List.length_singleton]
    omega
  · rw [sidsForUser, Dict.getD_set, if_neg hu]
    exact hsame u

/-- What `release` does to a transport that is reserved. -/
theorem Consistent.release (H : r.Consistent n) (huser : r.owners.get? sid = some user) :
    (r.release sid).1 = some user ∧ (r.release sid).2.Consistent n ∧
      (r.release sid).2.admissionLocks = r.admissionLocks.erase sid ∧
      (r.release sid).2.owners = r.owners.erase sid ∧
      (∀ u, (r.release sid).2.sidsForUser u = (r.sidsForUser u).filter (· ≠ sid)) ∧
      ∀ x, x ≠ sid → x ∈ r.terminal → x ∈ (r.release sid).2.terminal := by
  have hmem : sid ∈ r.sidsForUser user := (H.partition user sid).mpr huser
  obtain ⟨sockets, hsockets⟩ : ∃ sockets, r.byUser.get? user = some sockets := by
    cases h : r.byUser.get? user with
    | none => simp [sidsForUser, Dict.getD, h] at hmem
    | some sockets => exact ⟨sockets, rfl⟩
  have hsids : r.sidsForUser user = sockets := Dict.getD_of_get? hsockets
  simp only [Registry.release, huser, hsockets]
  have hother : ∀ u, u ≠ user → sid ∉ r.sidsForUser u := fun u hu hmem => by
    rw [H.partition, huser] at hmem
    exact hu (Option.some_inj.mp hmem).symm
  have hafter : ∀ u, (if sockets.filter (· ≠ sid) = [] then r.byUser.erase user
      else r.byUser.set user (sockets.filter (· ≠ sid))).getD u [] =
        (r.sidsForUser u).filter (· ≠ sid) := by
    intro u
    have hsame : u ≠ user → r.byUser.getD u [] = (r.sidsForUser u).filter (· ≠ sid) := by
      intro hu
      refine (List.filter_eq_self.mpr fun x hx => decide_eq_true ?_).symm
      rintro rfl
      exact hother u hu hx
    split
    · rename_i hnil
      rw [Dict.getD_erase]
      split
      · subst u
        rw [hsids, hnil]
      · exact hsame ‹_›
    · rw [Dict.getD_set]
      split
      · subst u
        rw [hsids]
      · exact hsame ‹_›
  refine ⟨trivial, ⟨fun u x => ?_, fun u => ?_, fun x => ?_, fun x l => ?_, fun x y l => ?_,
    fun x hx => ?_⟩, trivial, trivial, hafter,
    fun x hne hx => List.mem_filter.mpr ⟨hx, decide_eq_true hne⟩⟩
  · rw [sidsForUser, hafter, List.mem_filter, H.partition, Dict.get?_erase]
    rcases Decidable.eq_or_ne x sid with rfl | hx
    · simp
    · simp [hx]
  · rw [sidsForUser, hafter]
    exact (H.nodup u).filter _
  · simp only [Dict.get?_erase]
    split
    · exact iff_of_true rfl rfl
    · exact H.live x
  · simp only [Dict.get?_erase]
    split
    · intro h
      cases h
    · exact H.fresh x l
  · simp only [Dict.get?_erase]
    split
    · intro h
      cases h
    · split
      · intro _ h
        cases h
      · exact H.inj x y l
  · obtain ⟨hx, hne⟩ := List.mem_filter.mp hx
    rw [Dict.get?_erase, if_neg (of_decide_eq_true hne)]
    exact H.terminal x hx

theorem Consistent.markTerminal (H : r.Consistent n) (sid : Sid) :
    (r.markTerminal sid).2.Consistent n ∧
      (r.markTerminal sid).2.admissionLocks = r.admissionLocks ∧
      (r.markTerminal sid).2.owners = r.owners ∧
      (∀ u, (r.markTerminal sid).2.sidsForUser u = r.sidsForUser u) ∧
      (∀ x ∈ r.terminal, x ∈ (r.markTerminal sid).2.terminal) ∧
      ∀ owner, (r.markTerminal sid).1 = some owner →
        r.owners.get? sid = some owner ∧ sid ∉ r.terminal ∧ sid ∈ (r.markTerminal sid).2.terminal := by
  unfold Registry.markTerminal
  split
  · exact ⟨H, rfl, rfl, fun _ => rfl, fun _ h => h, nofun⟩
  rename_i user huser
  split
  · exact ⟨H, rfl, rfl, fun _ => rfl, fun _ h => h, nofun⟩
  rename_i hterminal
  refine ⟨⟨H.partition, H.nodup, H.live, H.fresh, H.inj, fun x hx => ?_⟩, rfl, rfl, fun _ => rfl,
    fun _ => List.mem_cons_of_mem _, fun _ h => ⟨huser.trans h, hterminal, List.mem_cons_self⟩⟩
  rcases List.mem_cons.mp hx with rfl | hx
  · rw [huser]
    exact nofun
  · exact H.terminal x hx

end Registry

/-! ## The locks that the threads hold -/

def Pc.holds (pc : Pc User Sid) (lock : Nat) : Nat :=
  match pc with
  | idle | looking _ | acquiring _ _ => 0
  | checking _ l | retrying _ l | reserved _ l | leaving l => if l = lock then 1 else 0

/-- How often a thread holds a lock. -/
def Thread.holds (th : Thread User Sid) (lock : Nat) : Nat :=
  th.pc.holds lock + th.guards.countP (·.lock = some lock)

/-- The reservation whose owner is returned by `mark_terminal`. -/
def Event.mark : Event User Sid → Option Nat
  | marked _ lock (some _) => some lock
  | _ => none

def marks (h : List (Action Tid User Sid × Event User Sid)) : List Nat := h.filterMap (·.2.mark)

/-- The tables and the locks of a state in which the reservations with the locks `m` have been made
terminal. -/
structure Inv (m : List Nat) (s : State Tid User Sid) : Prop where
  tables : s.registry.Consistent s.nextLock
  held : ∀ t lock, (s.locks lock).count t = (s.threads t).holds lock
  current : ∀ t op lock, (s.threads t).pc = .reserved op lock →
    s.registry.admissionLocks.get? op.sid = some lock
  nodup : m.Nodup
  old : ∀ lock ∈ m, lock < s.nextLock
  terminal : ∀ lock ∈ m, ∀ sid, s.registry.admissionLocks.get? sid = some lock →
    sid ∈ s.registry.terminal

variable {m : List Nat} {s s' : State Tid User Sid} {a : Action Tid User Sid} {e : Event User Sid}
  {t u : Tid} {th : Thread User Sid} {pc : Pc User Sid} {op : Op User Sid} {lock : Nat} {sid : Sid} {user : User}
  {maxTotal maxPerUser : Int}

theorem inv_init : Inv [] (State.init : State Tid User Sid) where
  tables := .init 0
  held _ _ := rfl
  current _ _ _ h := nomatch h
  nodup := .nil
  old _ h := nomatch h
  terminal _ h := nomatch h

namespace Inv

/-- A lock is held by one thread at a time. -/
theorem eq_of_holds (H : Inv m s) (ht : 0 < (s.threads t).holds lock)
    (hu : 0 < (s.threads u).holds lock) : t = u :=
  RLock.eq_of_count_pos ((H.held t lock).symm ▸ ht) ((H.held u lock).symm ▸ hu)

/-- A thread goes on, and takes or lets go locks; the tables stay. -/
theorem move (H : Inv m s) (locks : Nat → RLock Tid)
    (hheld : ∀ u lock, (locks lock).count u =
      if u = t then th.holds lock else (s.threads u).holds lock)
    (hcurrent : ∀ op lock, th.pc = .reserved op lock →
      s.registry.admissionLocks.get? op.sid = some lock) :
    Inv m { s with locks := locks, threads := update s.threads t th } where
  tables := H.tables
  held u lock := by
    simp only [hheld, update_apply]
    split <;> rfl
  current u op lock := by
    simp only [update_apply]
    split
    · exact hcurrent op lock
    · exact H.current u op lock
  nodup := H.nodup
  old := H.old
  terminal := H.terminal

/-- No lock changes hands. -/
theorem stay (H : Inv m s) (hholds : ∀ lock, th.holds lock = (s.threads t).holds lock)
    (hcurrent : ∀ op lock, th.pc = .reserved op lock →
      s.registry.admissionLocks.get? op.sid = some lock) :
    Inv m { s with threads := update s.threads t th } :=
  H.move s.locks (fun u lock => by
    rw [H.held]
    split
    · subst u
      exact (hholds lock).symm
    · rfl) hcurrent

/-- A lock that is held is released once. -/
theorem unlock (H : Inv m s)
    (hholds : ∀ l, (s.threads t).holds l = th.holds l + if lock = l then 1 else 0)
    (hcurrent : ∀ op lock, th.pc = .reserved op lock →
      s.registry.admissionLocks.get? op.sid = some lock) :
    Inv m { s.unlock lock with threads := update s.threads t th } := by
  refine H.move (update s.locks lock (s.locks lock).release) (fun u l => ?_) hcurrent
  have hpos : 0 < (s.locks lock).count t := by
    rw [H.held, hholds, if_pos rfl]
    exact Nat.succ_pos _
  rw [update_apply]
  split
  · subst l
    rw [RLock.count_release hpos, H.held]
    split
    · subst u
      rw [hholds, if_pos rfl, Nat.add_sub_cancel]
    · rfl
  · rename_i hl
    rw [H.held]
    split
    · subst u
      rw [hholds, if_neg (Ne.symm hl), Nat.add_zero]
    · rfl

theorem acquire (H : Inv m s) {l : RLock Tid} (hl : (s.locks lock).acquire t = some l)
    (hholds : ∀ l, th.holds l = (s.threads t).holds l + if lock = l then 1 else 0)
    (hcurrent : ∀ op lock, th.pc = .reserved op lock →
      s.registry.admissionLocks.get? op.sid = some lock) :
    Inv m { s with locks := update s.locks lock l, threads := update s.threads t th } := by
  refine H.move (update s.locks lock l) (fun u k => ?_) hcurrent
  rw [update_apply]
  split
  · subst k
    rw [RLock.count_acquire hl, H.held]
    split
    · subst u
      rw [hholds, if_pos rfl]
    · rfl
  · rename_i hk
    rw [H.held]
    split
    · subst u
      rw [hholds, if_neg (Ne.symm hk), Nat.add_zero]
    · rfl

/-- A call goes on and keeps the locks that it has. -/
theorem goOn (H : Inv m s) (hpc : pc.holds = (s.threads t).pc.holds)
    (hcurrent : ∀ op lock, pc = .reserved op lock →
      s.registry.admissionLocks.get? op.sid = some lock) : Inv m (s.setPc t pc) :=
  H.stay (fun l => by rw [Thread.holds, Thread.holds, hpc]) hcurrent

/-- The registry changes as long as the reservations that threads rely on stay. -/
theorem change (H : Inv m s) {r : Registry User Sid} {n : Nat} (hr : r.Consistent n)
    (hn : s.nextLock ≤ n)
    (hcurrent : ∀ t op lock, (s.threads t).pc = .reserved op lock →
      r.admissionLocks.get? op.sid = some lock)
    (hterminal : ∀ lock ∈ m, ∀ sid, r.admissionLocks.get? sid = some lock → sid ∈ r.terminal) :
    Inv m { s with registry := r, nextLock := n } where
  tables := hr
  held := H.held
  current := hcurrent
  nodup := H.nodup
  old lock hm := Nat.lt_of_lt_of_le (H.old lock hm) hn
  terminal := hterminal

/-- The reservation with the lock is made terminal. -/
theorem mark (H : Inv m s) (hlock : s.registry.admissionLocks.get? sid = some lock)
    (hnot : sid ∉ s.registry.terminal) {r : Registry User Sid} (hr : r.Consistent s.nextLock)
    (hlocks : r.admissionLocks = s.registry.admissionLocks)
    (hterminal : ∀ x ∈ s.registry.terminal, x ∈ r.terminal) (hsid : sid ∈ r.terminal) :
    Inv (m ++ [lock]) { s with registry := r } where
  tables := hr
  held := H.held
  current := by rw [hlocks]; exact H.current
  nodup := List.nodup_append_comm.mp
    (List.nodup_cons.mpr ⟨fun hm => hnot (H.terminal lock hm sid hlock), H.nodup⟩)
  old l hl := by
    rcases List.mem_append.mp hl with hl | hl
    · exact H.old l hl
    · cases List.mem_singleton.mp hl
      exact H.tables.fresh sid lock hlock
  terminal l hl x hx := by
    rw [hlocks] at hx
    rcases List.mem_append.mp hl with hl | hl
    · exact hterminal x (H.terminal l hl x hx)
    · cases List.mem_singleton.mp hl
      cases H.tables.inj x sid lock hx hlock
      exact hsid

/-- One thread at a time has a reservation. -/
theorem eq_of_reserved (H : Inv m s) {op' : Op User Sid} {lock' : Nat}
    (ht : (s.threads t).pc = .reserved op lock) (hu : (s.threads u).pc = .reserved op' lock')
    (hsid : op'.sid = op.sid) : t = u := by
  have hcurrent := H.current u op' lock' hu
  rw [hsid, H.current t op lock ht] at hcurrent
  cases hcurrent
  have hholds : ∀ {v op}, (s.threads v).pc = .reserved op lock → 0 < (s.threads v).holds lock := by
    intro v op hpc
    rw [Thread.holds, hpc, Pc.holds, if_pos rfl]
    omega
  exact H.eq_of_holds (hholds ht) (hholds hu)

/-- The reservation that a thread has ends. -/
theorem release (H : Inv m s) (hpc : (s.threads t).pc = .reserved (.release sid) lock) :
    Inv m ({ s with registry := (s.registry.release sid).2 }.setPc t (.leaving lock)) := by
  have hlock : s.registry.admissionLocks.get? sid = some lock := H.current t _ lock hpc
  have hleave : Inv m (s.setPc t (.leaving lock)) := H.goOn (by rw [hpc]; rfl) nofun
  obtain ⟨user, huser⟩ : ∃ user, s.registry.owners.get? sid = some user := by
    cases h : s.registry.owners.get? sid with
    | none => rw [(H.tables.live sid).mpr h] at hlock; cases hlock
    | some user => exact ⟨user, rfl⟩
  obtain ⟨-, hr, hlocks, -, -, hterminal⟩ := H.tables.release huser
  have hget : ∀ x, (s.registry.release sid).2.admissionLocks.get? x =
      if x = sid then none else s.registry.admissionLocks.get? x := fun x => by
    rw [hlocks, Dict.get?_erase]
  refine hleave.change hr (Nat.le_refl _) (fun u op l hu => ?_) fun l hl x hx => ?_
  · simp only [State.setPc, update_apply] at hu
    split at hu
    · cases hu
    · rename_i hne
      rw [hget, if_neg fun hsid : op.sid = sid => hne (H.eq_of_reserved hpc hu hsid).symm]
      exact H.current u op l hu
  · rw [hget] at hx
    split at hx
    · cases hx
    · exact hterminal x ‹_› (H.terminal l hl x hx)

/-- No reservation is made terminal. -/
theorem of_not_mark (he : e.mark = none) (H : Inv m s) : Inv (m ++ e.mark.toList) s := by
  rwa [he, Option.toList_none, List.append_nil]

/-- A call that has its reservation does what it is for. -/
theorem body (H : Inv m s) (hpc : (s.threads t).pc = .reserved op lock) :
    Inv (m ++ (s.body t lock op).1.mark.toList) (s.body t lock op).2 := by
  have hlock := H.current t op lock hpc
  cases op with
  | release sid => exact .of_not_mark rfl (H.release hpc)
  | markTerminal sid =>
    have hleave : Inv m (s.setPc t (.leaving lock)) := H.goOn (by rw [hpc]; rfl) nofun
    obtain ⟨hr, hlocks, -, -, hterminal, howner⟩ := H.tables.markTerminal sid
    simp only [State.body]
    cases h : (s.registry.markTerminal sid).1 with
    | none =>
      refine .of_not_mark rfl (hleave.change hr (Nat.le_refl _) ?_ ?_)
      · rw [hlocks]
        exact hleave.current
      · rw [hlocks]
        exact fun l hl x hx => hterminal x (H.terminal l hl x hx)
    | some user =>
      obtain ⟨-, hnot, hsid⟩ := howner user h
      exact hleave.mark hlock hnot hr hlocks hterminal hsid
  | admissionGuard sid user =>
    refine .of_not_mark rfl (H.stay (fun l => ?_) nofun)
    simp only [Thread.holds, hpc, Pc.holds, List.countP_cons, decide_eq_true_eq, Option.some.injEq]
    omega

/-- The call that a thread is in takes a step. -/
theorem step (H : Inv m s) (hs : s.step t = some (e, s')) : Inv (m ++ e.mark.toList) s' := by
  unfold State.step at hs
  split at hs
  · cases hs
  · rename_i op hpc
    split at hs
    · cases hs
      exact .of_not_mark rfl (H.goOn (by rw [hpc]; rfl) fun _ _ h => by cases h)
    · split at hs
      · cases hs
        exact .of_not_mark rfl (H.goOn (by rw [hpc]; rfl) fun _ _ h => by cases h)
      · cases hs
        exact .of_not_mark rfl (H.goOn (by rw [hpc]; rfl) fun _ _ h => by cases h)
      · cases hs
        refine .of_not_mark rfl (H.stay (fun l => ?_) fun _ _ h => by cases h)
        simp [Thread.holds, hpc, Pc.holds]
  · rename_i op lock hpc
    split at hs
    · cases hs
    · rename_i l hl
      cases hs
      refine .of_not_mark rfl (H.acquire hl (fun k => ?_) fun _ _ h => by cases h)
      simp only [Thread.holds, hpc, Pc.holds]
      omega
  · rename_i op lock hpc
    split at hs
    · rename_i hlock
      cases hs
      refine .of_not_mark rfl (H.goOn (by rw [hpc]; rfl) fun _ _ h => ?_)
      cases h
      exact hlock
    · cases hs
      exact .of_not_mark rfl (H.goOn (by rw [hpc]; rfl) fun _ _ h => by cases h)
  · rename_i op lock hpc
    cases hs
    refine .of_not_mark rfl (H.unlock (fun k => ?_) fun _ _ h => by cases h)
    simp only [Thread.holds, State.unlock, hpc, Pc.holds]
    omega
  · rename_i op lock hpc
    have hbody := H.body hpc
    rw [Option.some_inj.mp hs] at hbody
    exact hbody
  · rename_i lock hpc
    cases hs
    refine .of_not_mark rfl (H.unlock (fun k => ?_) fun _ _ h => by cases h)
    simp only [Thread.holds, State.unlock, hpc, Pc.holds]
    omega

/-- What `reserve` does to the state. -/
theorem reserve_cases (H : Inv m s)
    (hs : s.act (.reserve t user sid maxTotal maxPerUser) = some (e, s')) :
    e = .reserved sid user maxTotal maxPerUser s.nextLock ∧
        s' = { s with registry := s'.registry, nextLock := s.nextLock + 1 } ∧
        s.registry.Takes user sid maxTotal maxPerUser s.nextLock s'.registry ∨
      ∃ answer, e = .notReserved sid user answer ∧ s' = { s with registry := s'.registry } ∧
        s.registry.Keeps user sid s.nextLock answer s'.registry := by
  simp only [State.act] at hs
  split at hs
  · cases hs
  rcases H.tables.reserve user sid maxTotal maxPerUser with ⟨hanswer, htakes⟩ | hkeeps
  · rw [if_pos ⟨hanswer, by rw [Dict.contains, htakes.free]; rfl⟩] at hs
    cases hs
    exact .inl ⟨rfl, rfl, htakes⟩
  · rw [if_neg] at hs
    · cases hs
      exact .inr ⟨_, rfl, rfl, hkeeps⟩
    · rintro ⟨hanswer, hcontains⟩
      rw [Dict.contains, (hkeeps.answer hanswer).1] at hcontains
      cases hcontains

theorem act (H : Inv m s) (hs : s.act a = some (e, s')) : Inv (m ++ e.mark.toList) s' := by
  cases a with
  | step t => exact H.step hs
  | call t op =>
    simp only [State.act] at hs
    split at hs
    · cases hs
    · rename_i hidle
      cases hs
      exact .of_not_mark rfl (H.goOn (by rw [Decidable.not_not.mp hidle]; rfl) nofun)
  | exit t =>
    simp only [State.act] at hs
    split at hs
    · cases hs
    rename_i hidle
    rw [ne_eq, Decidable.not_not] at hidle
    split at hs
    · cases hs
    rename_i g guards hguards
    cases hs
    obtain ⟨sid, admitted, _ | lock⟩ := g
    · refine .of_not_mark rfl (H.stay (fun k => ?_) nofun)
      simp [Thread.holds, hidle, Pc.holds, hguards]
    · refine .of_not_mark rfl (H.unlock (fun k => ?_) nofun)
      simp only [Thread.holds, hidle, Pc.holds, hguards, List.countP_cons, decide_eq_true_eq,
        Option.some.injEq]
      omega
  | reserve t user sid maxTotal maxPerUser =>
    rcases H.reserve_cases hs with ⟨rfl, hs', htakes⟩ | ⟨answer, rfl, hs', hkeeps⟩
    · rw [hs']
      have hget : ∀ {x l}, s.registry.admissionLocks.get? x = some l →
          s'.registry.admissionLocks.get? x = some l := by
        intro x l hx
        rw [htakes.locks, Dict.get?_set, if_neg]
        · exact hx
        · rintro rfl
          rw [(H.tables.live x).mpr htakes.free] at hx
          cases hx
      refine .of_not_mark rfl (H.change htakes.tables (Nat.le_succ _)
        (fun u op l hu => hget (H.current u op l hu)) fun l hl x hx => ?_)
      rw [htakes.locks, Dict.get?_set] at hx
      rw [htakes.terminal]
      split at hx
      · cases hx
        exact absurd (H.old _ hl) (Nat.lt_irrefl _)
      · exact H.terminal l hl x hx
    · rw [hs']
      refine .of_not_mark rfl (H.change hkeeps.tables (Nat.le_refl _) ?_ ?_)
      · rw [hkeeps.locks]
        exact H.current
      · rw [hkeeps.locks, hkeeps.terminal]
        exact H.terminal

end Inv

/-! ## Runs -/

def Action.thread : Action Tid User Sid → Tid
  | reserve t .. | call t _ | step t | exit t => t

/-- No other thread is in the body of an `admission_guard` for the reservation with the lock. -/
def State.Alone (s : State Tid User Sid) (t : Tid) (lock : Nat) : Prop :=
  ∀ u, u ≠ t → ∀ g ∈ (s.threads u).guards, g.lock ≠ some lock

/-- What a step of `t` that leads from `s` to `s'` may do to the reservations. -/
def Event.Allowed (s : State Tid User Sid) (t : Tid) (s' : State Tid User Sid) :
    Event User Sid → Prop
  | internal => True
  | notFound sid => s.registry.owners.get? sid = none
  | reserved sid user maxTotal maxPerUser _ =>
    s.registry.owners.get? sid = none ∧ s'.registry.owners.get? sid = some user ∧
      (s'.registry.owners.size : Int) ≤ maxTotal ∧
      ((s'.registry.sidsForUser user).length : Int) ≤ maxPerUser
  | notReserved sid user answer =>
    answer = true → s.registry.owners.get? sid = some user ∧ s.registry.isTerminal sid = false
  | marked sid lock owner =>
    s.registry.admissionLocks.get? sid = some lock ∧ s.Alone t lock ∧
      ∀ user, owner = some user → s.registry.owners.get? sid = some user
  | released sid lock owner =>
    s.registry.admissionLocks.get? sid = some lock ∧ s.Alone t lock ∧
      s.registry.owners.get? sid = owner
  | entered sid user lock admitted =>
    s.registry.admissionLocks.get? sid = lock ∧
      (admitted = true → s.registry.owners.get? sid = some user ∧ s.registry.isTerminal sid = false)

/-- The limits that the calls of `reserve` are given. -/
def Within (maxTotal maxPerUser : Nat) (h : List (Action Tid User Sid × Event User Sid)) : Prop :=
  ∀ x ∈ h, ∀ t user sid m n, x.1 = .reserve t user sid m n → m ≤ maxTotal ∧ n ≤ maxPerUser

/-- No more slots are taken than before. -/
structure Registry.Shrinks (r r' : Registry User Sid) : Prop where
  total : r'.owners.size ≤ r.owners.size
  perUser : ∀ u, (r'.sidsForUser u).length ≤ (r.sidsForUser u).length

theorem Registry.Shrinks.rfl {r : Registry User Sid} : r.Shrinks r :=
  ⟨Nat.le_refl _, fun _ => Nat.le_refl _⟩

namespace Inv

/-- The other threads are in no body for the reservation that the thread has. -/
theorem alone (H : Inv m s) (hpc : (s.threads t).pc = .reserved op lock) : s.Alone t lock := by
  intro u hu g hg hlock
  have hpos : 0 < (s.threads u).guards.countP (·.lock = some lock) :=
    List.countP_pos_iff.mpr ⟨g, hg, decide_eq_true hlock⟩
  have hother : 0 < (s.threads u).holds lock := by
    rw [Thread.holds]
    omega
  have hholds : 0 < (s.threads t).holds lock := by
    rw [Thread.holds, hpc, Pc.holds, if_pos rfl]
    omega
  exact hu (H.eq_of_holds hother hholds)

theorem body_allowed (H : Inv m s) (hpc : (s.threads t).pc = .reserved op lock) :
    (s.body t lock op).1.Allowed s t (s.body t lock op).2 ∧
      s.registry.Shrinks (s.body t lock op).2.registry := by
  have hlock := H.current t op lock hpc
  cases op with
  | release sid =>
    obtain ⟨user, huser⟩ : ∃ user, s.registry.owners.get? sid = some user :=
      Option.ne_none_iff_exists'.mp fun h => by
        rw [← H.tables.live] at h
        cases hlock.symm.trans h
    obtain ⟨howner, -, -, howners, hsids, -⟩ := H.tables.release huser
    refine ⟨⟨hlock, H.alone hpc, huser.trans howner.symm⟩, ⟨?_, fun u => ?_⟩⟩
    · exact Nat.le_trans (Nat.le_of_eq (congrArg Dict.size howners)) (List.length_filter_le _ _)
    · exact Nat.le_trans (Nat.le_of_eq (congrArg List.length (hsids u))) (List.length_filter_le _ _)
  | markTerminal sid =>
    obtain ⟨-, -, howners, hsids, -, howner⟩ := H.tables.markTerminal sid
    exact ⟨⟨hlock, H.alone hpc, fun user h => (howner user h).1⟩,
      ⟨Nat.le_of_eq (congrArg Dict.size howners), fun u => Nat.le_of_eq (congrArg _ (hsids u))⟩⟩
  | admissionGuard sid user =>
    exact ⟨⟨hlock, fun h => of_decide_eq_true h⟩, .rfl⟩

theorem step_allowed (H : Inv m s) (hs : s.step t = some (e, s')) :
    e.Allowed s t s' ∧ s.registry.Shrinks s'.registry := by
  unfold State.step at hs
  split at hs
  · cases hs
  · rename_i op hpc
    split at hs
    · cases hs
      exact ⟨trivial, .rfl⟩
    · rename_i hnone
      split at hs
      · cases hs
        exact ⟨(H.tables.live _).mp hnone, .rfl⟩
      · cases hs
        exact ⟨(H.tables.live _).mp hnone, .rfl⟩
      · cases hs
        exact ⟨⟨hnone, nofun⟩, .rfl⟩
  · split at hs
    · cases hs
    · cases hs
      exact ⟨trivial, .rfl⟩
  · split at hs
    · cases hs
      exact ⟨trivial, .rfl⟩
    · cases hs
      exact ⟨trivial, .rfl⟩
  · cases hs
    exact ⟨trivial, .rfl⟩
  · rename_i op lock hpc
    have hbody := H.body_allowed hpc
    rw [Option.some_inj.mp hs] at hbody
    exact hbody
  · cases hs
    exact ⟨trivial, .rfl⟩

theorem act_allowed (H : Inv m s) (hs : s.act a = some (e, s')) : e.Allowed s a.thread s' := by
  cases a with
  | step t => exact (H.step_allowed hs).1
  | call t op =>
    simp only [State.act] at hs
    split at hs
    · cases hs
    · cases hs
      trivial
  | exit t =>
    simp only [State.act] at hs
    split at hs
    · cases hs
    · split at hs
      · cases hs
      · cases hs
        trivial
  | reserve t user sid maxTotal maxPerUser =>
    rcases H.reserve_cases hs with ⟨rfl, -, htakes⟩ | ⟨answer, rfl, -, hkeeps⟩
    · refine ⟨htakes.free, ?_, htakes.total, htakes.perUser⟩
      rw [htakes.owners, Dict.get?_set_self]
    · intro hanswer
      obtain ⟨howner, hterminal⟩ := hkeeps.answer hanswer
      exact ⟨howner, decide_eq_false hterminal⟩

/-- The limits hold after a call of `reserve` that is given them, and after any other step. -/
theorem act_limits (H : Inv m s) (hs : s.act a = some (e, s')) {maxTotal maxPerUser : Nat}
    (hwithin : Within maxTotal maxPerUser [(a, e)])
    (htotal : s.registry.owners.size ≤ maxTotal)
    (huser : ∀ u, (s.registry.sidsForUser u).length ≤ maxPerUser) :
    s'.registry.owners.size ≤ maxTotal ∧
      ∀ u, (s'.registry.sidsForUser u).length ≤ maxPerUser := by
  have hshrinks : s.registry.Shrinks s'.registry → s'.registry.owners.size ≤ maxTotal ∧
      ∀ u, (s'.registry.sidsForUser u).length ≤ maxPerUser := fun h =>
    ⟨Nat.le_trans h.total htotal, fun u => Nat.le_trans (h.perUser u) (huser u)⟩
  cases a with
  | step t => exact hshrinks (H.step_allowed hs).2
  | call t op =>
    simp only [State.act] at hs
    split at hs
    · cases hs
    · cases hs
      exact hshrinks .rfl
  | exit t =>
    simp only [State.act] at hs
    split at hs
    · cases hs
    · split at hs
      · cases hs
      · cases hs
        refine hshrinks ?_
        split <;> exact .rfl
  | reserve t user sid m n =>
    obtain ⟨hm, hn⟩ := hwithin _ (List.mem_singleton_self _) t user sid m n rfl
    rcases H.reserve_cases hs with ⟨rfl, -, htakes⟩ | ⟨answer, rfl, -, hkeeps⟩
    · have := htakes.total
      refine ⟨by omega, fun u => ?_⟩
      rcases Decidable.eq_or_ne u user with rfl | hu
      · have := htakes.perUser
        omega
      · rw [htakes.sids u hu]
        exact huser u
    · rw [hkeeps.owners]
      exact ⟨htotal, fun u => by rw [hkeeps.sids]; exact huser u⟩

end Inv

/-- Whatever the threads do, the users' transports are those that have an owner, a reservation is
made terminal once, and each step is allowed; where the limits are fixed, they hold throughout. -/
theorem socket_capacity {h : List (Action Tid User Sid × Event User Sid)}
    (hrun : system.Run .init h s) :
    (∀ user sid, sid ∈ s.registry.sidsForUser user ↔ s.registry.owners.get? sid = some user) ∧
      (∀ user, (s.registry.sidsForUser user).Nodup) ∧ (marks h).Nodup ∧
      (∀ a e s', s.act a = some (e, s') → e.Allowed s a.thread s') ∧
      ∀ maxTotal maxPerUser : Nat, Within maxTotal maxPerUser h →
        s.registry.owners.size ≤ maxTotal ∧
          ∀ user, (s.registry.sidsForUser user).length ≤ maxPerUser := by
  have H : Inv (marks h) s ∧ ∀ maxTotal maxPerUser : Nat, Within maxTotal maxPerUser h →
      s.registry.owners.size ≤ maxTotal ∧
        ∀ user, (s.registry.sidsForUser user).length ≤ maxPerUser := by
    induction hrun with
    | refl => exact ⟨inv_init, fun _ _ _ => ⟨Nat.zero_le _, fun _ => Nat.zero_le _⟩⟩
    | snoc _ hs ih =>
      obtain ⟨H, hlimits⟩ := ih
      refine ⟨?_, fun maxTotal maxPerUser hwithin => ?_⟩
      · have := H.act hs
        rwa [marks, List.filterMap_append]
      · obtain ⟨htotal, huser⟩ := hlimits maxTotal maxPerUser fun x hx =>
          hwithin x (List.mem_append_left _ hx)
        exact H.act_limits hs (fun x hx => hwithin x (List.mem_append_right _ hx)) htotal huser
  exact ⟨H.1.tables.partition, H.1.tables.nodup, H.1.nodup, fun a e s' hs => H.1.act_allowed hs,
    H.2⟩

/-- A thread finds the lock of a transport that is released and reserved again. -/
def exampleCalls : List (Action Bool Nat String) :=
  [.reserve true 7 "a" 2 1, .reserve true 7 "b" 2 1, .call false (.markTerminal "a"), .step false,
    .call true (.release "a"), .step true, .step true, .step true, .step true, .step true,
    .reserve true 8 "a" 2 1, .step false, .step false, .step false, .step false, .step false,
    .step false, .step false, .step false, .call true (.admissionGuard "a" 8), .step true,
    .step true, .step true, .step true, .exit true]

def exampleEvents : List (Event Nat String) :=
  [.reserved "a" 7 2 1 0, .notReserved "b" 7 false, .internal, .internal, .internal, .internal,
    .internal, .internal, .released "a" 0 (some 7), .internal, .reserved "a" 8 2 1 1, .internal,
    .internal, .internal, .internal, .internal, .internal, .marked "a" 1 (some 8), .internal,
    .internal, .internal, .internal, .internal, .entered "a" 8 (some 1) false, .internal]

theorem socket_capacity_example :
    ∃ (h : List (Action Bool Nat String × Event Nat String)) (s : State Bool Nat String),
      system.Run .init h s ∧ h.map Prod.snd = exampleEvents ∧ (marks h).Nodup := by
  have hexec : (System.answer State.act .init exampleCalls).any (fun (es, _) =>
      es.map Prod.snd = exampleEvents) = true := by decide
  obtain ⟨⟨h, s⟩, hrun, hevents⟩ := (Option.any_eq_true _ _).mp hexec
  have hrun : system.Run .init h s := System.run_of_answer hrun
  exact ⟨h, s, hrun, of_decide_eq_true hevents, (socket_capacity hrun).2.2.1⟩

end WebSSH.SocketCapacity
