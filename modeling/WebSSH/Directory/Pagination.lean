import Mathlib
import WebSSH.Directory.Replies

/-!
# Pagination

What holds in every state that is reached, and what it says of the listings, the cursors and the
pages.
-/

namespace WebSSH.Directory
open Lib Python

variable {α : Type} {R : Runtime} {s s' : State α} {n c : Nat} {pc : Pc α} {reply : Reply α}

/-! ## Looking up and cancelling -/

theorem InvWith.visit (H : InvWith R s fun _ => []) (hlt : n < s.snapshotCount) :
    InvWith R s (single n .visiting) := by
  refine H.step (.refl s) (fun _ ha => .inl ha) (fun m hm => ?_) fun m hm _ => ⟨rfl, ?_⟩
  · rcases Decidable.eq_or_ne m n with rfl | hne
    · rw [single_self]
      exact Local.visit hm
    · rw [single_of_ne hne]
      exact hm
  · exact single_of_ne (Nat.ne_of_gt (Nat.lt_of_lt_of_le hlt hm)) _

theorem good_lookUp {request : Continuation} (H : InvWith R s fun _ => []) :
    Good R s (s.lookUp c request) := by
  rw [State.lookUp.eq_def]
  split
  · exact good_reply H rfl
  · rename_i n hget
    refine good_goto ?_ rfl
    rw [roles_of_role rfl]
    exact H.visit (H.registry _ _ hget).1

theorem roles_waiting (ns : List Nat) :
    (Pc.waiting (n :: ns) reply).roles = fun m => single n .waiting m ++ (Pc.waiting ns reply).roles m := by
  funext m
  simp only [Pc.roles, single, List.count_cons]
  rcases Decidable.eq_or_ne n m with rfl | hne
  · simp [List.replicate_succ]
  · simp [hne]

theorem roles_waiting_nil : (Pc.waiting [] reply).roles = fun _ => [] := rfl

/-- A later cancellation waits, if nobody does yet. -/
theorem good_waitClosed (H : InvWith R s (single n .visiting))
    (hending : (s.snapshots n).status.ending = true) :
    Good R s (if (s.snapshots n).cancelWaiter then s.reply (.cancelled true)
      else (s.update n ({ · with cancelWaiter := true })).goto c (.waiting [n] (.cancelled true))) := by
  split
  · exact good_reply (H.leave (.refl s) (fun _ _ => rfl) rfl fun ρ h => h.leave) rfl
  refine good_goto ?_ rfl
  rw [roles_waiting, roles_waiting_nil]
  have hsame : (s.snapshots n).status.cancel = (s.snapshots n).status := by
    cases hs : (s.snapshots n).status <;> rw [hs] at hending <;> first | rfl | cases hending
  have hne : (s.snapshots n).status ≠ .active := by
    intro hactive
    rw [hactive] at hending
    cases hending
  have H' : InvWith R (s.update n ({ · with cancelWaiter := true })) (single n .waiting) := by
    refine H.step_at (.update n _ (by exact .of_eq fun _ => rfl))
      (fun _ => view_update_of_ne) (fun m hm => single_of_ne hm _)
      (fun _ ha => .inl ha) fun ρ h => ?_
    have hcancel := h.leave.cancel true
    rw [view_snapshot, if_neg hne, hsame] at hcancel
    rw [single_self, view_update_self]
    exact hcancel.wait hending
  simpa using H'

theorem good_cancelSnapshot {request : Cancellation} (H : InvWith R s (single n .visiting)) :
    Good R s (s.cancelSnapshot R c request n) := by
  have hleave : Inv R s := H.leave (.refl s) (fun _ _ => rfl) rfl fun ρ h => h.leave
  simp only [State.cancelSnapshot]
  split
  · exact good_reply hleave rfl
  split
  · rename_i hactive
    split
    · rename_i hwaiter
      have := H.local.waiter (.inr hactive)
      rw [view_snapshot, hwaiter] at this
      cases this
    · refine good_close H (.update n _ (by exact .of_eq fun _ => rfl))
        (fun _ => view_update_of_ne) rfl fun ρ h => ?_
      rw [view_update_self]
      have hcancel := h.leave.cancel true
      rw [view_snapshot, hactive, if_pos rfl] at hcancel
      exact hcancel
  · rename_i hcancelled
    exact good_waitClosed H (by rw [hcancelled]; rfl)
  · rename_i hclosing
    exact good_waitClosed H (by rw [hclosing]; rfl)
  · exact good_reply hleave rfl

theorem good_cancelRequest {requestId owner sourceId clientId : String}
    (H : InvWith R s fun _ => []) :
    Good R s (s.cancelRequest c requestId owner sourceId clientId) := by
  have hcancel := H.cancelAll (s.matching requestId owner sourceId clientId)
    (fun n hn => (List.mem_filter.mp hn).1) (H.nodup_values.filter _)
    ((s.matching requestId owner sourceId clientId).filter fun n =>
      s.status n ≠ .active ∧ ¬ (s.snapshots n).cancelWaiter)
    (fun n hn => (List.mem_filter.mp hn).1) fun _ => true
  exact good_gotoClosing hcancel rfl

theorem good_discard {owner sourceId clientId : Option String} (H : InvWith R s fun _ => []) :
    Good R s (s.discard c owner sourceId clientId) := by
  simp only [State.discard]
  refine good_gotoClosing ?_ rfl
  have hcancel := H.cancelAll (s.registry.values.filter fun n =>
      (∀ owner' ∈ owner, (s.snapshots n).binding.owner = owner') ∧
        (∀ sourceId' ∈ sourceId, (s.snapshots n).binding.sourceId = sourceId') ∧
        ∀ clientId' ∈ clientId, (s.snapshots n).binding.clientId = clientId')
    (fun n hn => (List.mem_filter.mp hn).1) (H.nodup_values.filter _) [] nofun
    fun n => (s.snapshots n).cancelWaiter
  have hpc : (Pc.returning Reply.done : Pc α).roles = fun _ => [] :=
    roles_of_none rfl fun _ _ h => nomatch h
  rw [hpc]
  exact hcancel

/-! ## Every step -/

theorem good_continueCall (H : InvWith R s pc.roles) : Good R s (s.continueCall R c pc) := by
  have hsingle : ∀ {n role}, pc.role = some (n, role) → InvWith R s (single n role) := by
    intro n role hrole
    rwa [roles_of_role hrole] at H
  have hnone : pc.role = none → (∀ ns reply, pc ≠ .waiting ns reply) → InvWith R s fun _ => [] := by
    intro hrole hwaiting
    rwa [roles_of_none hrole hwaiting] at H
  cases pc with
  | reserving request => exact good_reserve (hnone rfl fun _ _ h => by cases h)
  | opening n opening => exact good_openListing (hsingle rfl)
  | opened n listing error => exact good_storeListing (hsingle rfl)
  | checkingOpened n => exact good_checkOpened (hsingle rfl)
  | readingFirst n => exact good_readFirst (hsingle rfl)
  | activating n page now => exact good_activate (hsingle rfl)
  | publishing n page => exact good_reply (hnone rfl fun _ _ h => by cases h) rfl
  | pruning request =>
    have H' := hnone rfl fun _ _ h => by cases h
    exact good_markClosing H' (fun n hn => prune_spec hn) (H'.nodup_values.filter _)
      (roles_of_none rfl fun _ _ h => by cases h)
  | lookingUp request => exact good_lookUp (hnone rfl fun _ _ h => by cases h)
  | locking request n => exact good_lock (hsingle rfl)
  | checking request n => exact good_check (hsingle rfl)
  | reading request n => exact good_read (hsingle rfl)
  | advanced n page => exact good_advance (hsingle rfl)
  | electing n reply => exact good_elect (hsingle rfl)
  | retiring n reply => exact good_retire (hsingle rfl)
  | cancelling request n => exact good_cancelSnapshot (hsingle rfl)
  | waiting ns reply =>
    cases ns with
    | nil => exact good_reply H rfl
    | cons n ns =>
      rw [State.continueCall]
      split
      · rw [roles_waiting] at H
        have H' : InvWith R s fun m => [] ++ (Pc.waiting ns reply).roles m :=
          H.step_with (.refl s) (fun _ _ => rfl) (fun _ _ => rfl) (fun _ ha => .inl ha)
            fun ρ h => h.waited
        exact good_goto (by simpa using H') rfl
      · exact .none
  | expiring n expectedLastUsed => exact good_expire (hsingle rfl)
  | returning reply => exact good_reply (hnone rfl fun _ _ h => by cases h) rfl

theorem good_proceed {call : Call α} (H : InvWith R s call.roles) : Good R s (s.proceed R call) := by
  obtain ⟨number, closing, stage, pc⟩ := call
  cases closing with
  | nil => exact good_continueCall H
  | cons n rest =>
    intro t next ht
    obtain ⟨⟨s', call'⟩, hclose, h⟩ := Option.map_eq_some_iff.mp ht
    cases h
    exact H.close hclose

/-- The call that has taken a step joins the list again, unless it has returned. -/
theorem inv_answer {r : Option (State α × Next α)} {result : Option (Nat × Reply α)}
    (hgood : Good R s r) (h : State.answer c r = some (result, s')) : Inv R s' := by
  obtain ⟨⟨t, next⟩, hr, h⟩ := Option.map_eq_some_iff.mp h
  obtain ⟨hinv, hcalls⟩ := hgood t next hr
  cases next with
  | reply reply =>
    cases h
    exact hinv
  | call call =>
    cases h
    have hperm : ∀ n, (call.roles n ++ t.roles n).Perm
        (State.roles { t with calls := t.calls ++ [call] } n) := by
      intro n
      simp only [State.roles, List.flatMap_append, List.flatMap_cons, List.flatMap_nil,
        List.append_nil]
      exact List.perm_append_comm
    refine ⟨fun n => (hinv.locals n).perm (hperm n), fun n hn => ?_, hinv.registry,
      hinv.registered, hinv.accepted, hinv.size, hinv.owners⟩
    obtain ⟨hview, hroles⟩ := hinv.unused n hn
    exact ⟨hview, (hroles ▸ hperm n).symm.eq_nil⟩

theorem Inv.take (H : Inv R s) {k : Nat} {call : Call α} (hk : s.calls[k]? = some call) :
    InvWith R { s with calls := s.calls.eraseIdx k } call.roles := by
  have hperm : ∀ n, (s.roles n).Perm
      (call.roles n ++ State.roles { s with calls := s.calls.eraseIdx k } n) := by
    intro n
    have := (Pending.perm hk).flatMap_right (fun call => call.roles n)
    rw [List.flatMap_cons] at this
    exact this.symm
  refine ⟨fun n => (H.locals n).perm (hperm n), fun n hn => ?_, H.registry, H.registered,
    H.accepted, H.size, H.owners⟩
  obtain ⟨hview, hroles⟩ := H.unused n hn
  have hroles : s.roles n = [] := hroles
  exact ⟨hview, (hroles ▸ hperm n).symm.eq_nil⟩

theorem InvWith.fire (H : Inv R s) {timer : Timer} (h : timer ∈ s.timers) :
    InvWith R { s with timers := s.timers.erase timer }
      (single timer.snapshot (.expiring timer.expectedLastUsed)) := by
  have hview : ∀ n, n ≠ timer.snapshot →
      State.view { s with timers := s.timers.erase timer } n = s.view n := by
    intro n hne
    simp only [State.view, State.served, ← List.erase_filter]
    rw [List.erase_of_not_mem]
    intro hmem
    exact hne (Eq.symm (by simpa using (List.mem_filter.mp hmem).2))
  have hlt : timer.snapshot < s.snapshotCount := by
    apply Nat.lt_of_not_le
    intro hn
    have harmed : (s.view timer.snapshot).armed = [] := by rw [(H.unused _ hn).1]
    have hmem : timer.expectedLastUsed ∈ (s.view timer.snapshot).armed :=
      List.mem_map_of_mem (List.mem_filter.mpr ⟨h, by simp⟩)
    rw [harmed] at hmem
    cases hmem
  refine H.step (.of_snapshots rfl rfl rfl rfl) (fun _ ha => .inl ha) (fun n hn => ?_) fun n hn _ => ?_
  · rcases Decidable.eq_or_ne n timer.snapshot with rfl | hne
    · rw [single_self]
      refine hn.fire fun lastUsed hlastUsed => ?_
      obtain ⟨timer', htimer', rfl⟩ := List.mem_map.mp hlastUsed
      obtain ⟨hmem, hsnapshot⟩ := List.mem_filter.mp htimer'
      rcases Decidable.eq_or_ne timer' timer with rfl | hne
      · exact .inr rfl
      · refine .inl (List.mem_map_of_mem (List.mem_filter.mpr ⟨?_, hsnapshot⟩))
        exact (List.mem_erase_of_ne hne).mpr hmem
    · rw [single_of_ne hne, hview n hne]
      exact hn
  · have hne : n ≠ timer.snapshot := Nat.ne_of_gt (Nat.lt_of_lt_of_le hlt hn)
    exact ⟨hview n hne, single_of_ne hne _⟩

theorem inv_init : Inv R (.init : State α) where
  locals n := Local.unused
  unused n _ := ⟨rfl, rfl⟩
  registry id n h := by
    rw [show (State.init : State α).registry = ∅ from rfl, Dict.get?_empty] at h
    cases h
  registered n hn := absurd hn (Nat.not_lt_zero n)
  accepted := nofun
  size := Nat.zero_le _
  owners _ := Nat.zero_le _

/-- The first step of a call. -/
theorem good_enter (H : Inv R s) (action : Action α) : Good R s (s.enter c action) := by
  have hreserve : ∀ request : PageZero α, (Pc.reserving request).roles = fun _ => [] :=
    fun _ => roles_of_none rfl fun _ _ => nofun
  have hpruning : ∀ request, (Pc.pruning request : Pc α).roles = fun _ => [] :=
    fun _ => roles_of_none rfl fun _ _ => nofun
  cases action with
  | listDirectoryPage userId source path clientId requestId ids signingKey opening =>
    simp only [State.enter]
    split
    · exact good_goto (by rwa [hreserve]) rfl
    · exact good_reply H rfl
  | continueDirectoryPage userId source path cursor clientId =>
    rw [State.enter.eq_def]
    dsimp only
    split
    · exact good_reply H rfl
    · exact good_goto (by rwa [hpruning]) rfl
  | cancelDirectorySnapshot cursor userId sourceId clientId =>
    rw [State.enter.eq_def]
    dsimp only
    split
    · exact good_reply H rfl
    split
    · exact good_reply H rfl
    · rename_i n hget
      refine good_goto ?_ rfl
      rw [roles_of_role rfl]
      exact H.visit (H.registry _ _ hget).1
  | cancelDirectoryRequest requestId userId sourceId clientId =>
    simp only [State.enter]
    split
    · exact good_cancelRequest H
    · exact good_reply H rfl
  | discardDirectorySnapshots userId sourceId clientId => exact good_discard H
  | fire timer =>
    simp only [State.enter]
    split
    · rename_i htimer
      refine good_goto ?_ rfl
      rw [roles_of_role rfl]
      exact InvWith.fire H htimer.1
    · exact .none
  | proceed k => exact .none
  | tick time => exact .none

/-- What holds along a run. -/
theorem run_recorded {labels : List (Action α × Option (Nat × Reply α))}
    (h : (system R).Run .init labels s) : Inv R s ∧ Recorded R [] labels s := by
  refine h.history (P := fun labels s => Inv R s ∧ Recorded R [] labels s)
    ⟨inv_init, recorded_init⟩ ?_
  rintro labels s ⟨action, result⟩ t ⟨hinv, H⟩ hstep
  have hstep : s.step R action = some (result, t) := hstep
  have hstart : action.starts = true →
      State.answer s.started.length
        ({ s with started := s.started ++ [action] }.enter s.started.length action) =
        some (result, t) → Inv R t ∧ Recorded R [] (labels ++ [(action, result)]) t := by
    intro hstarts hanswer
    obtain ⟨H', hsilent⟩ := H.start hstarts
    have hinv' : Inv R { s with started := s.started ++ [action] } :=
      InvWith.step hinv (.of_snapshots rfl rfl rfl rfl) (fun _ ha => .inl ha) (fun _ hn => hn)
        fun _ _ _ => ⟨rfl, rfl⟩
    have hgood := good_enter (c := s.started.length) hinv' action
    refine ⟨inv_answer hgood hanswer, H'.advance hgood (traces_enter H'.history ?_ hsilent) hanswer⟩
    simp
  cases action with
  | proceed k =>
    obtain ⟨call, hk, hanswer⟩ := Option.bind_eq_some_iff.mp hstep
    obtain ⟨H', hfits⟩ := H.take hk
    have hgood := good_proceed (hinv.take hk)
    exact ⟨inv_answer hgood hanswer,
      H'.advance hgood (traces_proceed H'.history (hinv.take hk) hfits) hanswer⟩
  | tick time =>
    cases hstep
    refine ⟨?_, H.quiet (.of_eq rfl rfl rfl rfl rfl) rfl rfl⟩
    exact InvWith.step hinv (.of_snapshots rfl rfl rfl rfl) (fun _ ha => .inl ha) (fun _ hn => hn)
      fun _ _ _ => ⟨rfl, rfl⟩
  | _ => exact hstart rfl hstep

/-! ## The listings -/

theorem Inv.local (H : Inv R s) (n : Nat) : Local (s.view n) (s.roles n) := H.locals n

/-- A listing is left once at most; when nothing is left to do it is closed. -/
theorem Inv.closed_once (H : Inv R s) {l : Listing α} (hl : s.listings n = some l) :
    l.exits ≤ 1 ∧ s.closeCalls.count n ≤ 1 ∧ (s.calls = [] → s.timers = [] → l.exits = 1) := by
  have hlocal := H.local n
  have hexited : l.exits = if l.closed then 1 else 0 := hlocal.exited l hl
  have hledger := hlocal.ledger
  have hsome : (s.view n).listing.isSome = true := by simp [State.view, hl]
  have hcount : (s.view n).closeCalls = s.closeCalls.count n := rfl
  rw [hsome, if_pos rfl, hcount] at hledger
  refine ⟨?_, by omega, fun hcalls htimers => ?_⟩
  · rw [hexited]
    split <;> omega
  have hroles : s.roles n = [] := by rw [State.roles, hcalls]; rfl
  have harmed : (s.view n).armed = [] := by simp [State.view, htimers]
  rw [hroles] at hlocal hledger
  have hactive : (s.view n).snapshot.status ≠ .active := by
    intro hs
    simpa [harmed] using hlocal.watched hs
  have hlisting := (hlocal.closed_of_quiet hactive fun _ h => absurd h List.not_mem_nil).2
  rw [hlisting, List.countP_nil] at hledger
  have hclosed := hlocal.ends (by rw [hcount]; simp at hledger; omega) rfl l hl
  rw [hexited, hclosed]
  rfl

/-- The call is in a `read_page` of the listing of the snapshot. -/
def Call.Reads (call : Call α) (n : Nat) : Prop :=
  call.pc = .readingFirst n ∨ ∃ request, call.pc = .reading request n

/-- A page is read from a listing that is open and that nobody closes. -/
theorem Inv.reads (H : Inv R s) {call : Call α} (hcall : call ∈ s.calls) (hreads : call.Reads n) :
    n ∉ s.closeCalls ∧ ∃ l, s.listings n = some l ∧ l.closed = false := by
  obtain ⟨role, hrole, huses, hneeds⟩ : ∃ role : Role α, role ∈ s.roles n ∧ role.uses = true ∧
      role.needs = true := by
    rcases hreads with hpc | ⟨request, hpc⟩
    · exact ⟨.readingFirst, mem_roles hcall (by rw [hpc]; rfl), rfl, rfl⟩
    · exact ⟨.reading, mem_roles hcall (by rw [hpc]; rfl), rfl, rfl⟩
  have hlocal := H.local n
  have hlisting := hlocal.uses (List.countP_pos_iff.mpr ⟨role, hrole, huses⟩)
  have hopen := hlocal.needs (List.countP_pos_iff.mpr ⟨role, hrole, hneeds⟩)
  have hledger := hlocal.ledger
  rw [hlisting, if_pos rfl] at hledger
  refine ⟨fun hmem => ?_, hopen⟩
  have hpos : 0 < s.closeCalls.count n := List.count_pos_iff.mpr hmem
  have hcount : (s.view n).closeCalls = s.closeCalls.count n := rfl
  split at hledger <;> omega

/-! ## No call waits for ever -/

/-- What a call that cannot go on is waiting for: a lock, which it does not hold, or the closing of
a snapshot. -/
def Call.Blocked (s : State α) (call : Call α) : Prop :=
  (∃ n, (s.snapshots n).locked = true ∧ (call.closing ≠ [] ∨
    ∀ m role, call.pc.role = some (m, role) → role.holds = false)) ∨
  call.closing = [] ∧ ∃ n ns reply, call.pc = .waiting (n :: ns) reply ∧
    (s.snapshots n).closed = false

theorem blocked {call : Call α} (h : s.proceed R call = none) : call.Blocked s := by
  obtain ⟨number, closing, stage, pc⟩ := call
  cases closing with
  | cons n rest =>
    have hclose : s.close number n rest pc stage = none := Option.map_eq_none_iff.mp h
    rw [State.close.eq_def] at hclose
    split at hclose
    · split at hclose
      · exact .inl ⟨n, ‹_›, .inl (List.cons_ne_nil _ _)⟩
      · split at hclose <;> cases hclose
    all_goals cases hclose
  | nil =>
    have hpc : s.continueCall R number pc = none := h
    cases pc with
    | opened n listing error =>
      simp only [State.continueCall, State.storeListing] at hpc
      split at hpc
      · exact .inl ⟨n, ‹_›, .inr fun m role hrole => by cases hrole; rfl⟩
      · split at hpc <;> cases hpc
    | locking request n =>
      rw [State.continueCall, State.lock] at hpc
      split at hpc
      · exact .inl ⟨n, ‹_›, .inr fun m role hrole => by cases hrole; rfl⟩
      · cases hpc
    | waiting ns reply =>
      cases ns with
      | nil => cases hpc
      | cons n ns =>
        rw [State.continueCall] at hpc
        split at hpc
        · cases hpc
        · rename_i hopen
          exact .inr ⟨rfl, n, ns, reply, rfl, by simpa using hopen⟩
    | reserving request =>
      simp only [State.continueCall, State.reserve] at hpc
      split at hpc
      · cases hpc
      split at hpc
      · cases hpc
      split at hpc <;> cases hpc
    | opening n opening =>
      rw [State.continueCall, State.openListing.eq_def] at hpc
      split at hpc <;> cases hpc
    | checkingOpened n =>
      rw [State.continueCall, State.checkOpened] at hpc
      split at hpc <;> cases hpc
    | readingFirst n =>
      simp only [State.continueCall, State.readFirst] at hpc
      split at hpc
      · cases hpc
      split at hpc
      · cases hpc
      · cases hpc
      split at hpc
      · cases hpc
      split at hpc
      · cases hpc
      split at hpc <;> cases hpc
    | activating n page now =>
      rw [State.continueCall, State.activate] at hpc
      split at hpc <;> cases hpc
    | publishing n page => cases hpc
    | pruning request => cases hpc
    | lookingUp request =>
      rw [State.continueCall, State.lookUp.eq_def] at hpc
      split at hpc <;> cases hpc
    | checking request n =>
      simp only [State.continueCall, State.check] at hpc
      split at hpc <;> cases hpc
    | reading request n =>
      simp only [State.continueCall, State.read] at hpc
      split at hpc
      · split at hpc
        · cases hpc
        · cases hpc
        split at hpc
        · cases hpc
        split at hpc <;> cases hpc
      · cases hpc
    | advanced n page =>
      simp only [State.continueCall, State.advance] at hpc
      split at hpc
      · cases hpc
      split at hpc <;> cases hpc
    | electing n reply =>
      rw [State.continueCall, State.elect] at hpc
      split at hpc <;> cases hpc
    | retiring n reply =>
      rw [State.continueCall, State.retire] at hpc
      split at hpc <;> cases hpc
    | cancelling request n =>
      simp only [State.continueCall, State.cancelSnapshot] at hpc
      split at hpc
      · cases hpc
      split at hpc
      · split at hpc <;> cases hpc
      · split at hpc <;> cases hpc
      · split at hpc <;> cases hpc
      · cases hpc
    | expiring n expectedLastUsed =>
      rw [State.continueCall, State.expire] at hpc
      split at hpc <;> cases hpc
    | returning reply => cases hpc

theorem mem_pcRoles {role : Role α} (h : role ∈ pc.roles n) :
    pc.role = some (n, role) ∨ role = .waiting ∧ ∃ ns reply, pc = .waiting ns reply := by
  cases pc with
  | waiting ns reply => exact .inr ⟨(List.mem_replicate.mp h).2, ns, reply, rfl⟩
  | _ =>
    refine .inl ?_
    simp only [Pc.roles, List.mem_map, List.mem_filter, Option.mem_toList, decide_eq_true_eq] at h
    obtain ⟨⟨m, role'⟩, ⟨hrole, rfl⟩, rfl⟩ := h
    exact hrole

/-- Who holds a lock closes nothing. -/
theorem Call.Fits.of_holds {call : Call α} (hfits : call.Fits R s) {role : Role α}
    (h : role ∈ call.roles n) (hholds : role.holds = true) :
    call.closing = [] ∧ call.pc.role = some (n, role) := by
  have hpc : role ∈ call.pc.roles n → call.pc.role = some (n, role) := by
    intro hmem
    rcases mem_pcRoles hmem with hrole | ⟨rfl, -⟩
    · exact hrole
    · cases hholds
  rw [Call.roles.eq_def] at h
  split at h
  · rename_i hclosing
    exact ⟨hclosing, hpc h⟩
  · rename_i m rest hclosing
    have hnone := hfits.role (by rw [hclosing]; exact List.cons_ne_nil _ _)
    rcases List.mem_append.mp h with h | h
    · rcases List.mem_append.mp h with h | h
      · split at h
        · rw [List.mem_singleton.mp h] at hholds
          cases hs : call.stage <;> rw [hs] at hholds <;> cases hholds
        · cases h
      · rw [(List.mem_replicate.mp h).2] at hholds
        cases hholds
    · have := hpc h
      rw [hnone] at this
      cases this

/-- As long as there are calls, some call can go on. -/
theorem Inv.progress (H : Inv R s) (hfits : ∀ call ∈ s.calls, call.Fits R s)
    (hcalls : s.calls ≠ []) :
    ∃ k r, s.step R (.proceed k) = some r := by
  by_contra hno
  have hblocked : ∀ call ∈ s.calls, call.Blocked s := by
    intro call hcall
    obtain ⟨k, hk⟩ := List.getElem?_of_mem hcall
    have hstep : s.step R (.proceed k) = none := by
      cases hs : s.step R (.proceed k) with
      | none => rfl
      | some r => exact absurd ⟨k, r, hs⟩ hno
    have hproceed : State.proceed R { s with calls := s.calls.eraseIdx k } call = none := by
      simpa [State.step, hk, State.answer] using hstep
    have hcallBlocked : call.Blocked { s with calls := s.calls.eraseIdx k } := blocked hproceed
    exact hcallBlocked
  -- the holder of a lock is not blocked
  have hunlocked : ∀ n, (s.snapshots n).locked = false := by
    intro n
    by_contra hlocked
    have hone := (H.local n).holders
    rw [view_snapshot, if_pos (by simpa using hlocked)] at hone
    obtain ⟨role, hrole, hholds⟩ := List.countP_pos_iff.mp (hone ▸ Nat.one_pos)
    obtain ⟨call, hcall, hmem⟩ := List.mem_flatMap.mp hrole
    obtain ⟨hclosing, hpc⟩ := (hfits call hcall).of_holds hmem hholds
    rcases hblocked call hcall with ⟨_, _, hne | hnot⟩ | ⟨_, _, _, _, hwaiting, _⟩
    · exact hne hclosing
    · rw [hnot n role hpc] at hholds
      cases hholds
    · rw [hwaiting] at hpc
      cases hpc
  have hwaiting : ∀ call ∈ s.calls, call.closing = [] ∧ ∃ n ns reply,
      call.pc = .waiting (n :: ns) reply ∧ (s.snapshots n).closed = false := by
    intro call hcall
    rcases hblocked call hcall with ⟨n, hlocked, -⟩ | hwaiting
    · exact absurd (hlocked.symm.trans (hunlocked n)) nofun
    · exact hwaiting
  -- nobody is left to close the snapshot that is waited for
  obtain ⟨call, rest, hlist⟩ := List.exists_cons_of_ne_nil hcalls
  have hcall : call ∈ s.calls := hlist ▸ List.mem_cons_self
  obtain ⟨hclosing, n, ns, reply, hpc, hopen⟩ := hwaiting call hcall
  have hrole : ∀ role ∈ s.roles n, role = .waiting := by
    intro role hrole
    obtain ⟨call', hcall', hmem⟩ := List.mem_flatMap.mp hrole
    obtain ⟨hclosing', m, ms, reply', hpc', -⟩ := hwaiting call' hcall'
    rw [Call.roles.eq_def, hclosing', hpc'] at hmem
    exact (List.mem_replicate.mp hmem).2
  have hmem : .waiting ∈ s.roles n := by
    refine List.mem_flatMap.mpr ⟨call, hcall, ?_⟩
    rw [Call.roles.eq_def, hclosing, hpc]
    simp [Pc.roles]
  have hending := (H.local n).waits (List.countP_pos_iff.mpr ⟨.waiting, hmem, rfl⟩)
  have hclosed := ((H.local n).closed_of_quiet (fun hs => by rw [hs] at hending; cases hending)
    fun role hr => by rw [hrole role hr]; rfl).1
  exact Bool.false_ne_true (hopen.symm.trans hclosed)

/-- What the pagination does, after a run. -/
structure Paginated (R : Runtime) (labels : List (Action α × Option (Nat × Reply α)))
    (s : State α) : Prop where
  /-- A listing is closed once at most, and once when nothing is left to do. -/
  closed : ∀ n l, s.listings n = some l → l.exits ≤ 1 ∧ s.closeCalls.count n ≤ 1 ∧
    (s.calls = [] → s.timers = [] → l.exits = 1)
  /-- Some call can go on. -/
  progress : s.calls ≠ [] → ∃ k r, s.step R (.proceed k) = some r
  /-- No page is read from a listing that is being closed. -/
  reads : ∀ call ∈ s.calls, ∀ n, call.Reads n → n ∉ s.closeCalls ∧
    ∃ l, s.listings n = some l ∧ l.closed = false
  size : s.registry.size ≤ R.maxStates
  owners : ∀ owner, s.ownerCount owner ≤ R.maxPerUser
  /-- A snapshot is what its opener has asked for. -/
  opened : ∀ n < s.snapshotCount, ∃ action, (starts labels)[(s.snapshots n).opener]? = some action ∧
    action.Lists (s.snapshots n).binding
  /-- A cursor is accepted from a call that names what the snapshot is of, at the offset just after
  the entries returned so far. -/
  accepted : ∀ a ∈ s.accepted, a.snapshot < s.snapshotCount ∧
    ∃ action, (starts labels)[a.call]? = some action ∧
      action.Continues (s.snapshots a.snapshot).binding (s.snapshots a.snapshot).id a.served
        (directorySignature R (s.snapshots a.snapshot).id a.served
          (s.snapshots a.snapshot).signingKey)
  /-- The pages of a snapshot follow each other. -/
  served : ∀ n, s.served n <+: s.listed n
  /-- Each begins where those before it end, and goes to the call that may have it. -/
  placed : ∀ before page after, s.pages = before ++ page :: after → page.Placed s before
  /-- A call has one page at most, and returns once. -/
  once : (s.pages.map (·.call)).Nodup ∧ (returned labels).Nodup
  /-- What a call returns is the page it has, with a cursor of the snapshot the page is of. -/
  replies : ∀ action call entries cursor, (action, some (call, .page entries cursor)) ∈ labels →
    ∃ n < s.snapshotCount, ⟨call, n, entries⟩ ∈ s.pages ∧ ∀ text ∈ cursor, ∃ offset,
      text = directoryCursor R (s.snapshots n).id offset (s.snapshots n).signingKey

/-- The pagination, over all interleavings. -/
theorem directory_pagination {labels : List (Action α × Option (Nat × Reply α))}
    (h : (system R).Run .init labels s) : Paginated R labels s := by
  obtain ⟨H, hrecorded⟩ := run_recorded h
  have hstarted := hrecorded.started
  refine ⟨fun n l hl => H.closed_once hl, H.progress hrecorded.fits, fun call hcall n hreads =>
    H.reads hcall hreads, H.size, H.owners, fun n hn => ?_, fun a ha => ?_, fun n =>
    (H.local n).served, hrecorded.history.pages, ⟨hrecorded.history.once, ?_⟩,
    fun action call entries cursor hmem => hrecorded.answers action call _ hmem entries cursor rfl⟩
  · rw [← hstarted]
    exact hrecorded.history.snapshots n hn
  · obtain ⟨hlt, hid, hbinding, hsignature, hoffset⟩ := H.accepted a ha
    have hcontinued := hrecorded.history.accepted a ha
    rw [State.Continued, hid, hbinding, hsignature, hoffset] at hcontinued
    exact ⟨hlt, hstarted ▸ hcontinued⟩
  · have hnumbers : (returned labels ++ s.calls.map (·.number)).Nodup := hrecorded.numbers
    exact (List.nodup_append.mp hnumbers).1

/-- The configuration, with the digest of the one cursor of the run. -/
def exampleRuntime : Runtime where
  pageSize := 50
  snapshotTtl := 60
  maxPerUser := 4
  maxStates := 8
  hmacSha256 key message :=
    if key = (List.range 32).map Nat.toUInt8 ∧ message = encode "snapshot-aaaaaaaa:50" then
      "6b9c049f623e309019f38c894e80581e8a091d79b7c42c967a80b66c7d5eb5c8"
    else ""

def exampleSource : Source := ⟨"sftp-session:a", "a", 1, true⟩

/-- Two pages of one listing. -/
def exampleCalls : List (Action Nat) :=
  [Action.listDirectoryPage "7" exampleSource "/srv" (some "tab") none ["snapshot-aaaaaaaa"]
    ((List.range 32).map Nat.toUInt8) (.returned (some (List.range 51, .stop)) none)] ++
  List.replicate 7 (Action.proceed 0) ++
  [Action.continueDirectoryPage "7" exampleSource "/srv"
    "v1.snapshot-aaaaaaaa.50.6b9c049f623e309019f38c894e80581e" (some "tab")] ++
  List.replicate 12 (Action.proceed 0)

def isLastPage : Action Nat × Option (Nat × Reply Nat) → Bool
  | (.proceed 0, some (1, .page [50] none)) => true
  | _ => false

theorem directory_pagination_two_pages :
    ∃ (labels : List (Action Nat × Option (Nat × Reply Nat))) (s : State Nat) (l : Listing Nat),
    (system exampleRuntime).Run .init labels s ∧ s.listings 0 = some l ∧ l.exits = 1 ∧
    s.served 0 = List.range 51 ∧ (Action.proceed 0, some (1, .page [50] none)) ∈ labels ∧
    s.pages = [⟨0, 0, List.range 50⟩, ⟨1, 0, [50]⟩] ∧ Paginated exampleRuntime labels s := by
  have hexec : (System.answer (State.step exampleRuntime) .init exampleCalls).any
      (fun (labels, s) => decide <| s.calls.length = 0 ∧ s.timers.length = 0 ∧
        (s.listings 0).isSome = true ∧ s.served 0 = List.range 51 ∧
        s.pages = [⟨0, 0, List.range 50⟩, ⟨1, 0, [50]⟩] ∧
        labels.any isLastPage) = true := by
    decide
  obtain ⟨⟨labels, s⟩, hs, hd⟩ := (Option.any_eq_true _ _).mp hexec
  obtain ⟨hcalls, htimers, hlisting, hserved, hpages, hlabel⟩ := of_decide_eq_true hd
  obtain ⟨l, hl⟩ := Option.isSome_iff_exists.mp hlisting
  have hrun : (system exampleRuntime).Run .init labels s := System.run_of_answer hs
  have hpaginated := directory_pagination hrun
  refine ⟨labels, s, l, hrun, hl, ?_, hserved, ?_, hpages, hpaginated⟩
  · exact (hpaginated.closed 0 l hl).2.2 (List.length_eq_zero_iff.mp hcalls)
      (List.length_eq_zero_iff.mp htimers)
  · obtain ⟨⟨action, answer⟩, hmem, hmatch⟩ := List.any_eq_true.mp hlabel
    unfold isLastPage at hmatch
    split at hmatch
    · rename_i heq
      exact heq ▸ hmem
    · cases hmatch

end WebSSH.Directory
