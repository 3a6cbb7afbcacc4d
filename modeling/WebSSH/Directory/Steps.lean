import WebSSH.Directory.Invariant

/-!
# The steps

Each step of a call keeps what holds of the snapshots: the roles of the call change as `Local`
allows.
-/

namespace WebSSH.Directory
open Lib Python

variable {α : Type} {R : Runtime} {s s' : State α} {n m c : Nat} {pc : Pc α} {reply : Reply α}

/-- A step keeps what holds, and the other calls. -/
def Good (R : Runtime) (s : State α) (r : Option (State α × Next α)) : Prop :=
  ∀ s' next, r = some (s', next) → InvWith R s' next.roles ∧ s'.calls = s.calls

theorem Good.none : Good R s none := by
  intro s' next h
  cases h

theorem good_goto (h : InvWith R s' pc.roles) (hcalls : s'.calls = s.calls) :
    Good R s (s'.goto c pc) := by
  intro t next ht
  cases ht
  exact ⟨h, hcalls⟩

theorem good_reply (h : Inv R s') (hcalls : s'.calls = s.calls) : Good R s (s'.reply reply) := by
  intro t next ht
  cases ht
  exact ⟨h, hcalls⟩

theorem good_gotoClosing {ns : List Nat}
    (h : InvWith R s' fun n => List.replicate (ns.count n) Role.queued ++ pc.roles n)
    (hcalls : s'.calls = s.calls) : Good R s (s'.gotoClosing c ns pc) := by
  intro t next ht
  cases ht
  refine ⟨?_, hcalls⟩
  have hroles : (Next.call ⟨c, ns, .take, pc⟩ : Next α).roles =
      fun n => List.replicate (ns.count n) Role.queued ++ pc.roles n := by
    funext n
    cases ns with
    | nil => rfl
    | cons m rest =>
      simp only [Next.roles, Call.roles, List.count_cons, Stage.role]
      rcases Decidable.eq_or_ne m n with rfl | hne
      · simp [List.replicate_succ]
      · simp [hne]
  exact hroles ▸ h

theorem roles_of_role {role : Role α} (h : pc.role = some (n, role)) : pc.roles = single n role := by
  funext m
  have : pc.roles m = (pc.role.toList.filter (·.1 = m)).map (·.2) := by
    cases pc <;> first | rfl | cases h
  rw [this, h]
  rcases Decidable.eq_or_ne n m with rfl | hne
  · simp
  · simp [single, hne]

theorem mem_roles {call : Call α} (hcall : call ∈ s.calls) {role : Role α}
    (hrole : call.pc.role = some (n, role)) : role ∈ s.roles n := by
  refine List.mem_flatMap.mpr ⟨call, hcall, ?_⟩
  have hpc : role ∈ call.pc.roles n := by
    rw [roles_of_role hrole, single_self]
    exact List.mem_singleton_self _
  rw [Call.roles.eq_def]
  split
  · exact hpc
  · exact List.mem_append_right _ hpc

theorem roles_of_none (h : pc.role = none) (hwaiting : ∀ ns reply, pc ≠ .waiting ns reply) :
    pc.roles = fun _ => [] := by
  funext m
  cases pc <;> first | exact absurd rfl (hwaiting _ _) | rfl | cases h

section
variable {role role' : Role α}

/-- The call goes on with the snapshot in another role. -/
theorem good_move (H : InvWith R s (single n role)) (h : Keeps s s')
    (hview : ∀ m, m ≠ n → s'.view m = s.view m) (haccepted : s'.accepted = s.accepted)
    (hrole : pc.role = some (n, role'))
    (hlocal : ∀ ρ, Local (s.view n) (role :: ρ) → Local (s'.view n) (role' :: ρ)) :
    Good R s (s'.goto c pc) := by
  refine good_goto ?_ h.calls
  rw [roles_of_role hrole]
  refine H.step_at h hview (fun m hm => single_of_ne hm _) (fun _ ha => .inl (haccepted ▸ ha)) ?_
  intro ρ hρ
  rw [single_self]
  exact hlocal ρ hρ

/-- The call is done with the snapshot. -/
theorem InvWith.leave (H : InvWith R s (single n role)) (h : Keeps s s')
    (hview : ∀ m, m ≠ n → s'.view m = s.view m) (haccepted : s'.accepted = s.accepted)
    (hlocal : ∀ ρ, Local (s.view n) (role :: ρ) → Local (s'.view n) ρ) : Inv R s' :=
  H.step_at h hview (fun _ _ => rfl) (fun _ ha => .inl (haccepted ▸ ha)) hlocal

/-- The call closes the snapshot. -/
theorem good_close (H : InvWith R s (single n role)) (h : Keeps s s')
    (hview : ∀ m, m ≠ n → s'.view m = s.view m) (haccepted : s'.accepted = s.accepted)
    (hlocal : ∀ ρ, Local (s.view n) (role :: ρ) → Local (s'.view n) (.queued :: ρ)) :
    Good R s (s'.gotoClosing c [n] (.returning reply)) := by
  refine good_gotoClosing ?_ h.calls
  refine H.step_at h hview (fun m hm => ?_) (fun _ ha => .inl (haccepted ▸ ha)) ?_
  · rw [List.count_singleton, beq_eq_false_iff_ne.mpr hm.symm]
    rfl
  · intro ρ hρ
    rw [List.count_singleton_self]
    exact hlocal ρ hρ

end

/-! ## The first page -/

theorem good_giveUp {role : Role α} (H : InvWith R s (single n role)) (hopens : role.opens = true)
    (hcarries : role.carries = false) (reply : Reply α) : Good R s (s.goto c (.retiring n reply)) :=
  good_move H (.refl s) (fun _ _ => rfl) rfl rfl fun _ h => h.giveUp hopens hcarries

@[simp] theorem view_listings_self (listing : Option (Listing α)) :
    State.view { s with listings := Function.update s.listings n listing } n =
      { s.view n with listing := listing } := by
  simp [State.view, State.served]

theorem view_listings_of_ne (h : m ≠ n) (listing : Option (Listing α)) :
    State.view { s with listings := Function.update s.listings n listing } m = s.view m := by
  simp [State.view, State.served, h]

theorem good_openListing {opening : Opening α} (H : InvWith R s (single n .opening)) :
    Good R s (s.openListing c n opening) := by
  rw [State.openListing.eq_def]
  split
  · exact good_giveUp H rfl rfl _
  · exact good_move H (.refl s) (fun _ _ => rfl) rfl rfl fun _ h => h.notOpened
  · rename_i entries ending error
    refine good_move H (.of_snapshots rfl rfl rfl rfl) (fun m hm => ?_) rfl rfl fun ρ h => ?_
    · simp [State.view, State.served, hm]
    · have hopen := h.open entries ending
      simpa [State.view, State.served] using hopen

theorem good_storeListing {listing : Bool} {error : Option String}
    (H : InvWith R s (single n (.opened listing))) :
    Good R s (s.storeListing c n listing error) := by
  rw [State.storeListing]
  split
  · exact .none
  have hkeeps : Keeps s (s.update n ({ · with listing := listing })) :=
    .update n _ (.of_eq fun _ => rfl)
  have hview : ∀ m, m ≠ n → (s.update n ({ · with listing := listing })).view m = s.view m :=
    fun _ => view_update_of_ne
  dsimp only
  split
  · refine good_move H hkeeps hview rfl rfl fun ρ h => ?_
    rw [view_update_self]
    exact h.store.1
  · refine good_move H hkeeps hview rfl rfl fun ρ h => ?_
    rw [view_update_self]
    exact h.store.1
  · refine good_move H hkeeps hview rfl rfl fun ρ h => ?_
    rw [view_update_self]
    exact h.store.2 rfl

theorem good_checkOpened (H : InvWith R s (single n .checkingOpened)) : Good R s (s.checkOpened c n) := by
  rw [State.checkOpened]
  split
  · exact good_move H (.refl s) (fun _ _ => rfl) rfl rfl fun _ h => h.beginFirst
  · exact good_giveUp H rfl rfl _

theorem good_readFirst (H : InvWith R s (single n .readingFirst)) : Good R s (s.readFirst R c n) := by
  obtain ⟨l, hl, hclosed⟩ := H.local.needs (by simp [Role.needs])
  have hl : s.listings n = some l := hl
  have hreads := Listing.reads_readPage hclosed R.pageSize
  have hexited := (H.local.exited l hl).readPage R.pageSize
  rw [State.readFirst, hl]
  dsimp only
  revert hreads hexited
  cases l.readPage R.pageSize with
  | mk result l' =>
    intro hreads hexited
    have hkeeps : Keeps s { s with listings := Function.update s.listings n (some l') } :=
      .of_snapshots rfl rfl rfl rfl
    have hfail : ∀ reply : Reply α, Good R s
        ({ s with listings := Function.update s.listings n (some l') }.goto c (.retiring n reply)) := by
      intro reply
      refine good_move H hkeeps (fun m hm => view_listings_of_ne hm _) rfl rfl fun ρ h => ?_
      rw [view_listings_self]
      exact h.failFirst hexited
    dsimp only
    split
    · exact hfail _
    · exact hfail _
    · rename_i page hasMore
      split
      · exact hfail _
      split
      · rename_i hlast
        obtain rfl : hasMore = false := by simpa using hlast
        obtain ⟨-, rfl⟩ := hreads
        refine good_move H (hkeeps.trans (.serve c n _)) (fun m hm => ?_) rfl rfl fun ρ h => ?_
        · rw [view_serve_of_ne hm, view_listings_of_ne hm]
        · rw [view_serve_self, view_listings_self]
          exact h.lastFirst hl hclosed hexited
      split
      · exact hfail _
      · rename_i hmore _
        obtain rfl : hasMore = true := by simpa using hmore
        obtain ⟨hopen, hrest⟩ := hreads
        refine good_move H hkeeps (fun m hm => view_listings_of_ne hm _) rfl rfl fun ρ h => ?_
        rw [view_listings_self]
        exact h.pageFirst hl hclosed hexited hopen hrest

theorem good_activate {page : List α} {now : Nat} (H : InvWith R s (single n (.activating page))) :
    Good R s (s.activate R c n page now) := by
  rw [State.activate]
  split
  · rename_i hopening
    have hroles : (Pc.publishing n page).roles = fun _ => [] :=
      roles_of_none rfl fun _ _ h => nomatch h
    refine good_goto ?_ rfl
    rw [hroles]
    refine H.leave (((Keeps.update n _ (by exact .of_eq fun _ => rfl)).trans (.arm n)).trans
      (.serve c n page)) (fun m hm => ?_) rfl
      fun ρ h => ?_
    · rw [view_serve_of_ne hm, view_arm_of_ne hm, view_update_of_ne hm]
    · rw [view_serve_self, view_arm_self, view_update_self]
      rw [served_arm, served_update, snapshots_update_self]
      exact h.activate hopening.2 now
  · exact good_giveUp H rfl rfl _

/-! ## The next pages -/

theorem good_lock {request : Continuation} (H : InvWith R s (single n .visiting)) :
    Good R s (s.lock c request n) := by
  rw [State.lock]
  split
  · exact .none
  · rename_i hlocked
    refine good_move H (.update n _ (by exact .of_eq fun _ => rfl))
      (fun _ => view_update_of_ne) rfl rfl fun ρ h => ?_
    rw [view_update_self]
    exact h.lock (by simpa using hlocked)

theorem good_unlock (H : InvWith R s (single n .checking)) : Good R s ((s.unlock n).reply reply) := by
  refine good_reply (H.leave (.update n _ (by exact .of_eq fun _ => rfl))
    (fun _ => view_update_of_ne) rfl fun ρ h => ?_) rfl
  rw [State.unlock, view_update_self]
  exact h.unlock

theorem good_check {request : Continuation} (H : InvWith R s (single n .checking)) :
    Good R s (s.check R c request n) := by
  rw [State.check]
  dsimp only
  split
  · exact good_unlock H
  rename_i hok
  simp only [not_or, Decidable.not_not] at hok
  obtain ⟨hget, hactive, hsignature, hbinding, hoffset⟩ := hok
  obtain ⟨hlt, hid⟩ := H.registry _ _ hget
  refine good_goto ?_ rfl
  rw [roles_of_role rfl]
  refine H.step_at (.of_snapshots rfl rfl rfl rfl) (fun _ _ => rfl) (fun m hm => single_of_ne hm _)
    (fun a ha => ?_) fun ρ h => ?_
  · rcases List.mem_append.mp ha with ha | ha
    · exact .inl ha
    -- no page of the snapshot is read and not returned: the lock is held, and not by a reader
    · rw [List.mem_singleton.mp ha]
      refine .inr ⟨hlt, hid.symm, hbinding.symm, hid ▸ hsignature, ?_⟩
      have hothers := (H.local.accept hactive).of_passed rfl
      have hpages : ∀ p ∈ (Role.checking :: s.roles n).map Role.page, p = none := by
        simpa [Role.page] using hothers.2.2.page
      have helects : (Role.checking :: s.roles n).countP Role.elects = 0 := by
        simpa [Role.elects] using hothers.2.2.elects
      exact hoffset.trans (H.local.offsetIdle hactive helects hpages)
  · rw [single_self]
    exact h.accept hactive

theorem good_read {request : Continuation} (H : InvWith R s (single n .reading)) :
    Good R s (s.read R c request n) := by
  obtain ⟨l, hl, hclosed⟩ := H.local.needs (by simp [Role.needs])
  have hl : s.listings n = some l := hl
  have hlisting : (s.snapshots n).listing = true := H.local.uses (by simp [Role.uses])
  have hreads := Listing.reads_readPage hclosed R.pageSize
  have hexited := (H.local.exited l hl).readPage R.pageSize
  rw [State.read, hl, hlisting]
  dsimp only
  revert hreads hexited
  cases l.readPage R.pageSize with
  | mk result l' =>
    intro hreads hexited
    have hkeeps : Keeps s { s with listings := Function.update s.listings n (some l') } :=
      .of_snapshots rfl rfl rfl rfl
    have hfail : ∀ reply : Reply α, Good R s
        ({ s with listings := Function.update s.listings n (some l') }.goto c (.electing n reply)) := by
      intro reply
      refine good_move H hkeeps (fun m hm => view_listings_of_ne hm _) rfl rfl fun ρ h => ?_
      rw [view_listings_self]
      exact h.fail hexited
    dsimp only
    split
    · exact hfail _
    · exact hfail _
    · rename_i page hasMore
      split
      · exact hfail _
      split
      · rename_i hlast
        obtain rfl : hasMore = false := by simpa using hlast
        obtain ⟨-, rfl⟩ := hreads
        refine good_move H (hkeeps.trans (.serve c n _)) (fun m hm => ?_) rfl rfl fun ρ h => ?_
        · rw [view_serve_of_ne hm, view_listings_of_ne hm]
        · rw [view_serve_self, view_listings_self]
          exact h.last hl hclosed hexited
      · rename_i hmore
        obtain rfl : hasMore = true := by simpa using hmore
        obtain ⟨hopen, hrest⟩ := hreads
        refine good_move H (hkeeps.trans (.update n _ (by exact .of_eq fun _ => rfl)))
          (fun m hm => ?_) rfl rfl fun ρ h => ?_
        · rw [view_update_of_ne hm, view_listings_of_ne hm]
        · rw [view_update_self, view_listings_self]
          exact h.advance hl hclosed hexited hopen hrest _

theorem good_advance {page : List α} (H : InvWith R s (single n (.advanced page))) :
    Good R s (s.advance R c n page) := by
  obtain ⟨hstatus, hstarted, -⟩ := H.local.of_passed rfl
  have hregistered := H.registered_of_open hstarted
  simp only [State.advance]
  rw [if_neg (by simpa using hregistered)]
  split
  · refine good_reply ?_ rfl
    refine H.leave (((Keeps.arm n).trans (.serve c n page)).trans
      (.update n _ (by exact .of_eq fun _ => rfl))) (fun m hm => ?_) rfl
      fun ρ h => ?_
    · rw [State.unlock, view_update_of_ne hm, view_serve_of_ne hm, view_arm_of_ne hm]
    · rw [State.unlock, view_update_self, view_serve_self, view_arm_self]
      exact h.give fun _ => List.mem_singleton_self _
  · rename_i hclosing
    refine good_reply ?_ rfl
    refine H.leave ((Keeps.serve c n page).trans (.update n _ (by exact .of_eq fun _ => rfl)))
      (fun m hm => ?_) rfl fun ρ h => ?_
    · rw [State.unlock, view_update_of_ne hm, view_serve_of_ne hm]
    · rw [State.unlock, view_update_self, view_serve_self]
      refine h.give fun hactive => ?_
      rw [show s.status n = .active from hactive] at hclosing
      cases hclosing
  all_goals
    rename_i hopening
    rw [view_snapshot, show (s.snapshots n).status = _ from hopening] at hstatus
    cases hstatus

theorem good_elect (H : InvWith R s (single n .electing)) : Good R s (s.elect c n reply) := by
  obtain ⟨hstatus, hstarted, -⟩ := H.local.of_passed rfl
  rw [State.elect]
  split
  · refine good_move H ((Keeps.update n _ (by exact .of_eq fun _ => rfl)).trans
      (.update n _ (by exact .of_eq fun _ => rfl))) (fun m hm => ?_) rfl rfl fun ρ h => ?_
    · rw [State.unlock, view_update_of_ne hm, view_update_of_ne hm]
    · rw [State.unlock, view_update_self, view_update_self]
      simpa [State.update] using h.elect true
  · rename_i hnot
    have hregistered := H.registered_of_open hstarted
    have hclosing : (s.snapshots n).status = .closing := by
      have hne : s.status n ≠ .active := fun h => hnot ⟨hregistered, h⟩
      cases hs : (s.snapshots n).status with
      | closing => rfl
      | active => exact absurd hs hne
      | opening | cancelled =>
        rw [view_snapshot, hs] at hstatus
        cases hstatus
    refine good_move H (.update n _ (by exact .of_eq fun _ => rfl))
      (fun _ => view_update_of_ne) rfl rfl fun ρ h => ?_
    rw [State.unlock, view_update_self]
    have := h.elect (s.snapshots n).cancelWaiter
    rwa [← hclosing] at this

theorem good_retire (H : InvWith R s (single n .retiring)) : Good R s (s.retire c n reply) := by
  rw [State.retire]
  split
  · refine good_close H (.update n _ (by exact .of_eq fun _ => rfl))
      (fun _ => view_update_of_ne) rfl fun ρ h => ?_
    rw [view_update_self]
    exact h.retire
  · rename_i hnot
    have hclosed := H.closed_of_not_registered hnot
    exact good_reply (H.leave (.refl s) (fun _ _ => rfl) rfl fun ρ h => h.retired hclosed) rfl

theorem good_expire {expectedLastUsed : Nat}
    (H : InvWith R s (single n (.expiring expectedLastUsed))) :
    Good R s (s.expire c n expectedLastUsed) := by
  rw [State.expire]
  split
  · rename_i hlate
    refine good_reply (H.leave (.refl s) (fun _ _ => rfl) rfl fun ρ h => h.late ?_) rfl
    rcases hlate with hnot | hrest
    · exact .inl (H.closed_of_not_registered hnot)
    · exact .inr hrest
  · rename_i hactive
    simp only [not_or, Decidable.not_not] at hactive
    refine good_close H (.update n _ (by exact .of_eq fun _ => rfl))
      (fun _ => view_update_of_ne) rfl fun ρ h => ?_
    rw [view_update_self]
    exact h.expire hactive.2.2

/-! ## Closing -/

/-- What a call that closes snapshots is going to do after the first of them. -/
def later (rest : List Nat) (pc : Pc α) (m : Nat) : List (Role α) :=
  List.replicate (rest.count m) Role.queued ++ pc.roles m

theorem roles_closing (rest : List Nat) (stage : Stage) :
    (⟨c, n :: rest, stage, pc⟩ : Call α).roles = fun m => single n stage.role m ++ later rest pc m := by
  funext m
  simp only [Call.roles, List.append_assoc]
  rfl

theorem roles_rest (rest : List Nat) : (⟨c, rest, .take, pc⟩ : Call α).roles = later rest pc := by
  cases rest with
  | nil =>
    funext m
    rfl
  | cons n rest =>
    rw [roles_closing]
    funext m
    simp only [later, single, Stage.role, List.count_cons]
    rcases Decidable.eq_or_ne n m with rfl | hne
    · simp [List.replicate_succ]
    · simp [hne]

section
variable {rest : List Nat} {stage : Stage} {call : Call α}

/-- The call goes on with the closing of the snapshot. -/
theorem close_move {role role' : Stage} (H : InvWith R s fun m => single n role.role m ++ later rest pc m)
    (h : Keeps s s') (hview : ∀ m, m ≠ n → s'.view m = s.view m)
    (haccepted : s'.accepted = s.accepted)
    (hlocal : ∀ ρ, Local (s.view n) (role.role :: ρ) → Local (s'.view n) (role'.role :: ρ)) :
    InvWith R s' (⟨c, n :: rest, role', pc⟩ : Call α).roles := by
  rw [roles_closing]
  refine H.step_with h hview (fun m hm => single_of_ne hm _) (fun _ ha => .inl (haccepted ▸ ha)) ?_
  intro ρ hρ
  rw [single_self]
  exact hlocal ρ hρ

/-- The last step of the closing: the snapshot leaves the registry. -/
theorem InvWith.pop {more : Nat → List (Role α)}
    (H : InvWith R s fun m => single n .pop m ++ more m) :
    InvWith R
      { s.update n ({ · with closed := true }) with
        registry := if s.registered n then s.registry.erase (s.snapshots n).id else s.registry }
      more := by
  have hlocal := H.locals n
  rw [List.append_assoc, single_self] at hlocal
  obtain ⟨-, hopen, -⟩ := hlocal.of_closes rfl
  have hlt : n < s.snapshotCount := H.lt_of_ne (by simp)
  have hregistered := (H.registered n hlt).mpr hopen
  have hget : s.registry.get? (s.snapshots n).id = some n := by
    simpa [State.registered] using hregistered
  have hid : ∀ m, ((s.update n ({ · with closed := true })).snapshots m).id =
      (s.snapshots m).id := by
    apply update_field Snapshot.id
    exact fun _ => rfl
  have hbinding : ∀ m, ((s.update n ({ · with closed := true })).snapshots m).binding =
      (s.snapshots m).binding := by
    apply update_field Snapshot.binding
    exact fun _ => rfl
  have hkey : ∀ m, ((s.update n ({ · with closed := true })).snapshots m).signingKey =
      (s.snapshots m).signingKey := by
    apply update_field Snapshot.signingKey
    exact fun _ => rfl
  rw [if_pos hregistered]
  refine ⟨fun m => ?_, fun m hm => ?_, fun id m hm => ?_, fun m hm => ?_, fun a ha => ?_, ?_,
    fun owner => ?_⟩
  · rcases Decidable.eq_or_ne m n with rfl | hne
    · have hview := view_update_self (s := s) (n := m) (f := fun snapshot =>
        { snapshot with closed := true })
      exact hview ▸ hlocal.pop
    · have hm := H.locals m
      rw [List.append_assoc, single_of_ne hne] at hm
      have hview := view_update_of_ne (s := s) (f := fun snapshot =>
        { snapshot with closed := true }) hne
      exact hview ▸ hm
  · have hne : m ≠ n := fun h => absurd hlt (Nat.not_lt.mpr (h ▸ hm))
    obtain ⟨hview, hroles⟩ := H.unused m hm
    rw [List.append_assoc, single_of_ne hne] at hroles
    have hsame := view_update_of_ne (s := s) (f := fun snapshot =>
      { snapshot with closed := true }) hne
    exact ⟨hsame.trans hview, hroles⟩
  · obtain ⟨hm', hid'⟩ := H.registry id m (Dict.get?_of_erase hm).2
    exact ⟨hm', (hid m).trans hid'⟩
  · simp only [State.registered, decide_eq_true_eq]
    rcases Decidable.eq_or_ne m n with rfl | hne
    · simp [State.update]
    · have hsame : (s.update n ({ · with closed := true })).snapshots m = s.snapshots m :=
        Function.update_of_ne hne ..
      rw [hsame, ← H.registered m hm, State.registered, decide_eq_true_eq]
      rcases Decidable.eq_or_ne (s.snapshots m).id (s.snapshots n).id with heq | hne'
      · rw [heq, hget]
        simp [hne.symm]
      · rw [Dict.get?_erase_of_ne hne']
  · have hok := H.accepted a ha
    simp only [Acceptance.Ok, hid, hbinding, hkey] at hok ⊢
    exact hok
  · exact Nat.le_trans (List.length_filter_le _ _) H.size
  · refine Nat.le_trans ?_ (H.owners owner)
    simp only [State.ownerCount, hbinding]
    exact (List.filter_sublist.map _).countP_le

theorem InvWith.close (H : InvWith R s (⟨c, n :: rest, stage, pc⟩ : Call α).roles)
    (hs : s.close c n rest pc stage = some (s', call)) :
    InvWith R s' call.roles ∧ s'.calls = s.calls := by
  rw [roles_closing] at H
  rw [State.close.eq_def] at hs
  split at hs
  · split at hs
    · cases hs
    rename_i hlocked
    split at hs
    · rename_i hstarted
      cases hs
      refine ⟨?_, rfl⟩
      rw [roles_rest]
      have H' : InvWith R s fun m => [] ++ later rest pc m :=
        H.step_with (.refl s) (fun _ _ => rfl) (fun _ _ => rfl) (fun _ ha => .inl ha)
          fun ρ h => h.taken hstarted
      simpa using H'
    · rename_i hstarted
      cases hs
      refine ⟨close_move H ((Keeps.update n _ (by exact .of_eq fun _ => rfl)).trans (.disarm n))
        (fun m hm => ?_) rfl
        fun ρ h => ?_, rfl⟩
      · rw [view_disarm_of_ne hm, view_update_of_ne hm]
      · rw [view_disarm_self, view_update_self]
        exact h.take (by simpa using hlocked) (by simpa using hstarted)
  · cases hs
    refine ⟨close_move H (.of_snapshots rfl rfl rfl rfl) (fun m hm => ?_) rfl fun ρ h => ?_, rfl⟩
    · simp [State.view, State.served, List.count_append, hm.symm]
    · have hbegin := h.beginClose
      simpa [State.view, State.served, List.count_append, Stage.role] using hbegin
  · cases hs
    exact ⟨close_move H (.refl s) (fun _ _ => rfl) rfl fun ρ h => h.closeNone, rfl⟩
  · cases hs
    refine ⟨close_move H (.of_snapshots rfl rfl rfl rfl) (fun m hm => view_listings_of_ne hm _) rfl
      fun ρ h => ?_, rfl⟩
    rw [view_listings_self]
    exact h.endClose
  · cases hs
    rw [roles_rest]
    exact ⟨H.pop, rfl⟩

end

/-! ## Several snapshots -/

section
variable {own : Nat → List (Role α)}

theorem InvWith.lt_of_mem_values (H : InvWith R s own) (h : n ∈ s.registry.values) :
    n < s.snapshotCount := by
  obtain ⟨id, hget⟩ := Dict.mem_values.mp h
  exact (H.registry id n hget).1

/-- A snapshot is registered once. -/
theorem InvWith.nodup_values (H : InvWith R s own) : s.registry.values.Nodup := by
  have hentries : s.registry.entries.Nodup := List.Nodup.of_map _ s.registry.nodup
  refine hentries.map_on fun e he e' he' heq => ?_
  have hid := (H.registry e.1 e.2 (Dict.mem_entries.mp he)).2
  have hid' := (H.registry e'.1 e'.2 (Dict.mem_entries.mp he')).2
  exact Prod.ext (hid.symm.trans (heq ▸ hid')) heq

/-- A cancellation of the registered snapshots that match; those that are waited for are among
them. -/
theorem InvWith.cancelAll (H : InvWith R s fun _ => []) (matched : List Nat)
    (hmatched : ∀ n ∈ matched, n ∈ s.registry.values) (hnodup : matched.Nodup) (waits : List Nat)
    (hwaits : ∀ n ∈ waits, n ∈ matched) (cancelWaiter : Nat → Bool) :
    InvWith R (s.cancelAll matched cancelWaiter) fun n =>
      List.replicate ((matched.filter fun n => s.status n = .active).count n) Role.queued ++
        List.replicate (waits.count n) Role.waiting := by
  have hnot : ∀ n, n ∉ matched → (matched.filter fun n => s.status n = .active).count n = 0 ∧
      waits.count n = 0 := by
    intro n hn
    exact ⟨List.count_eq_zero.mpr fun h => hn (List.mem_filter.mp h).1,
      List.count_eq_zero.mpr fun h => hn (hwaits n h)⟩
  refine H.step (.cancelAll ..) (fun a ha => .inl ha) (fun n hn => ?_) fun n hn _ => ?_
  · rcases Decidable.em (n ∈ matched) with hm | hm
    · have hending : (s.status n).cancel.ending = true := by
        cases s.status n <;> rfl
      have hwait := (Local.cancel hn (cancelWaiter n)).waits_replicate hending (waits.count n)
      rw [view_cancelAll_of_mem hm]
      refine hwait.perm ?_
      have hcount : (matched.filter fun n => s.status n = .active).count n =
          if s.status n = .active then 1 else 0 := by
        split
        · rename_i hactive
          exact List.count_eq_one_of_mem (hnodup.filter _)
            (List.mem_filter.mpr ⟨hm, by simpa using hactive⟩)
        · rename_i hactive
          exact List.count_eq_zero.mpr fun h => hactive (by simpa using (List.mem_filter.mp h).2)
      rw [hcount]
      split
      · rename_i hactive
        rw [if_pos (show s.status n = .active from hactive)]
        simp [List.perm_middle]
      · rename_i hactive
        rw [if_neg (show ¬ s.status n = .active from hactive)]
        exact List.Perm.refl _
    · obtain ⟨hretired, hwaited⟩ := hnot n hm
      rw [hretired, hwaited, view_cancelAll_of_not_mem hm]
      exact hn
  · have hm : n ∉ matched := fun h =>
      absurd (H.lt_of_mem_values (hmatched n h)) (Nat.not_lt.mpr hn)
    obtain ⟨hretired, hwaited⟩ := hnot n hm
    rw [hretired, hwaited]
    exact ⟨view_cancelAll_of_not_mem hm _, rfl⟩

/-- The registry block that closes active snapshots. -/
theorem InvWith.markClosing (H : InvWith R s fun _ => []) {ns : List Nat}
    (hns : ∀ n ∈ ns, n ∈ s.registry.values ∧ s.status n = .active) (hnodup : ns.Nodup) :
    InvWith R (s.markClosing ns) fun n => List.replicate (ns.count n) Role.queued := by
  have hcancel := H.cancelAll ns (fun n hn => (hns n hn).1) hnodup [] nofun
    fun n => (s.snapshots n).cancelWaiter
  have hfilter : (ns.filter fun n => s.status n = .active) = ns :=
    List.filter_eq_self.mpr fun n hn => by simpa using (hns n hn).2
  have hstate : s.markClosing ns = s.cancelAll ns fun n => (s.snapshots n).cancelWaiter := by
    rw [State.markClosing, State.cancelAll]
    congr 1
    funext n
    split
    · rename_i hn
      rw [(hns n hn).2]
      rfl
    · rfl
  rw [hfilter] at hcancel
  rw [hstate]
  simpa using hcancel

theorem prune_spec {now : Nat} (h : n ∈ s.prune R now) :
    n ∈ s.registry.values ∧ s.status n = .active := by
  obtain ⟨hmem, hp⟩ := List.mem_filter.mp h
  simp only [decide_eq_true_eq] at hp
  exact ⟨hmem, hp.1⟩

theorem oldest_mem {ns : List Nat} (h : s.oldest ns = some n) : n ∈ ns := by
  induction ns with
  | nil => cases h
  | cons m ns ih =>
    rw [State.oldest] at h
    split at h
    · cases h
      exact List.mem_cons_self
    · rename_i k hk
      split at h
      · cases h
        exact List.mem_cons_self
      · cases h
        exact List.mem_cons_of_mem _ (ih hk)

theorem retireForCapacity_spec {owner : String} :
    (∀ n ∈ s.retireForCapacity R owner, n ∈ s.registry.values ∧ s.status n = .active) ∧
      (s.retireForCapacity R owner).Nodup := by
  have hoption : ∀ k : Option Nat, k.toList.Nodup := fun k => by cases k <;> simp
  have hmem : ∀ n, n ∈ (s.oldest (s.registry.values.filter fun n =>
      (s.snapshots n).binding.owner = owner ∧ s.status n = .active)).toList →
      n ∈ s.registry.values ∧ s.status n = .active := by
    intro n hn
    obtain ⟨hvalues, hp⟩ := List.mem_filter.mp (oldest_mem (Option.mem_toList.mp hn))
    simp only [decide_eq_true_eq] at hp
    exact ⟨hvalues, hp.2⟩
  simp only [State.retireForCapacity]
  split
  · exact ⟨hmem, hoption _⟩
  split
  · exact ⟨hmem, hoption _⟩
  · exact ⟨nofun, .nil⟩

theorem good_markClosing {ns : List Nat} (H : InvWith R s fun _ => [])
    (hns : ∀ n ∈ ns, n ∈ s.registry.values ∧ s.status n = .active) (hnodup : ns.Nodup)
    (hpc : pc.roles = fun _ => []) : Good R s ((s.markClosing ns).gotoClosing c ns pc) := by
  refine good_gotoClosing ?_ rfl
  simpa [hpc] using H.markClosing hns hnodup

/-- A new snapshot. -/
theorem InvWith.insert (H : InvWith R s fun _ => []) {fresh : Snapshot}
    (hid : s.registry.contains fresh.id = false) (hclosed : fresh.closed = false)
    (howner : s.ownerCount fresh.binding.owner < R.maxPerUser)
    (hsize : s.registry.size < R.maxStates)
    (hlocal : Local (α := α) ⟨fresh, none, [], [], [], 0⟩ [.opening]) :
    InvWith R
      { s with
        registry := s.registry.set fresh.id s.snapshotCount
        snapshotCount := s.snapshotCount + 1
        snapshots := Function.update s.snapshots s.snapshotCount fresh }
      (single s.snapshotCount .opening) := by
  have hnone : s.registry.get? fresh.id = none := by simpa [Dict.contains] using hid
  have hentries := Dict.set_entries_of_none (v := s.snapshotCount) hnone
  have hold : ∀ m, m < s.snapshotCount → Function.update s.snapshots s.snapshotCount fresh m =
      s.snapshots m := fun m hm => Function.update_of_ne (Nat.ne_of_lt hm) ..
  have hview : ∀ m, m ≠ s.snapshotCount → State.view
      { s with
        registry := s.registry.set fresh.id s.snapshotCount
        snapshotCount := s.snapshotCount + 1
        snapshots := Function.update s.snapshots s.snapshotCount fresh } m = s.view m := by
    intro m hm
    simp [State.view, State.served, hm]
  obtain ⟨hunused, hroles⟩ := H.unused _ (Nat.le_refl _)
  refine ⟨fun m => ?_, fun m hm => ?_, fun id m hm => ?_, fun m hm => ?_, fun a ha => ?_, ?_,
    fun owner => ?_⟩
  · rcases Decidable.eq_or_ne m s.snapshotCount with rfl | hne
    · have hroles : s.roles s.snapshotCount = [] := hroles
      have hfresh : State.view
          { s with
            registry := s.registry.set fresh.id s.snapshotCount
            snapshotCount := s.snapshotCount + 1
            snapshots := Function.update s.snapshots s.snapshotCount fresh } s.snapshotCount =
          { s.view s.snapshotCount with snapshot := fresh } := by
        simp [State.view, State.served]
      rw [hfresh, hunused, single_self]
      exact hroles.symm ▸ hlocal
    · rw [single_of_ne hne, hview m hne]
      exact H.locals m
  · have hm : s.snapshotCount < m := hm
    obtain ⟨hview', hroles'⟩ := H.unused m (Nat.le_of_lt hm)
    rw [hview m (Nat.ne_of_gt hm), single_of_ne (Nat.ne_of_gt hm)]
    exact ⟨hview', hroles'⟩
  · have hm : (s.registry.set fresh.id s.snapshotCount).get? id = some m := hm
    rw [Dict.get?_set] at hm
    split at hm
    · rename_i hid
      cases hm
      exact ⟨Nat.lt_succ_self _, by simp [hid]⟩
    · obtain ⟨hlt, hid⟩ := H.registry id m hm
      exact ⟨Nat.lt_succ_of_lt hlt, (congrArg Snapshot.id (hold m hlt)).trans hid⟩
  · simp only [State.registered, decide_eq_true_eq]
    rcases Decidable.eq_or_ne m s.snapshotCount with rfl | hne
    · simp [hclosed]
    · have hlt : m < s.snapshotCount := Nat.lt_of_le_of_ne (Nat.lt_succ_iff.mp hm) hne
      rw [hold m hlt, ← H.registered m hlt, State.registered, decide_eq_true_eq, Dict.get?_set]
      split
      · rename_i heq
        rw [heq, hnone]
        simp [hne.symm]
      · exact Iff.rfl
  · obtain ⟨hlt, hrest⟩ := H.accepted a ha
    refine ⟨Nat.lt_succ_of_lt hlt, ?_⟩
    dsimp only
    rw [hold a.snapshot hlt]
    exact hrest
  · simp only [Dict.size, hentries, List.length_append, List.length_singleton]
    exact hsize
  · have hcount : s.registry.values.countP (fun n =>
        (Function.update s.snapshots s.snapshotCount fresh n).binding.owner = owner) =
        s.ownerCount owner := by
      apply List.countP_congr
      intro n hn
      rw [hold n (H.lt_of_mem_values hn)]
    simp only [State.ownerCount, Dict.values] at hcount ⊢
    rw [hentries, List.map_append, List.countP_append, hcount, List.map_singleton,
      List.countP_singleton]
    have hle := H.owners owner
    split
    · rename_i heq
      have heq : fresh.binding.owner = owner := by simpa using heq
      have howner : s.ownerCount owner < R.maxPerUser := heq ▸ howner
      simp only [State.ownerCount, Dict.values] at howner
      omega
    · exact hle

theorem InvWith.toRetire (H : InvWith R s own) (owner : String) :
    (∀ n ∈ s.toRetire R owner, n ∈ s.registry.values ∧ s.status n = .active) ∧
      (s.toRetire R owner).Nodup := by
  simp only [State.toRetire]
  split
  · exact retireForCapacity_spec
  · exact ⟨fun n hn => prune_spec hn, H.nodup_values.filter _⟩

theorem good_reserve {request : PageZero α} (H : InvWith R s fun _ => []) :
    Good R s (s.reserve R c request) := by
  have hpc : (Pc.reserving request).roles = fun _ => [] := roles_of_none rfl fun _ _ h => nomatch h
  obtain ⟨hns, hnodup⟩ := H.toRetire request.binding.owner
  simp only [State.reserve]
  split
  · exact good_markClosing H hns hnodup hpc
  split
  · exact good_reply H rfl
  rename_i hroom
  simp only [not_or, Nat.not_le] at hroom
  split
  · refine good_goto ?_ rfl
    rwa [hpc]
  · rename_i id hfind
    have hid : s.registry.contains id = false := by simpa using List.find?_some hfind
    refine good_goto ?_ rfl
    rw [roles_of_role rfl]
    exact H.insert hid rfl hroom.1 hroom.2 (.reserve ..)

end

end WebSSH.Directory
