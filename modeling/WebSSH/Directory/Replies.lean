import WebSSH.Directory.Steps

/-!
# What the calls return

A call returns one page at most, and that page goes to no other call: the first page of a snapshot
to the call that has reserved it, and the later ones each to a call whose cursor was accepted when
just the entries before the page had been returned.
-/

namespace WebSSH.Directory
open Lib

variable {α : Type} {R : Runtime} {s s' : State α} {n c : Nat} {pc : Pc α} {answer : Reply α}

/-! ## The arguments of the calls -/

def Binding.Names (binding : Binding) (userId : String) (source : Source) (path : String)
    (clientId : Option String) : Prop :=
  binding.owner = userId ∧ binding.sourceId = source.sourceId ∧ binding.path = path ∧
    binding.handleId = source.handleId ∧ binding.backendId = source.backendId ∧
    binding.clientId = clientKey clientId

/-- A `list_directory_page` with the cursor 0, for what the binding names. -/
def Action.Lists (action : Action α) (binding : Binding) : Prop :=
  ∃ userId source path clientId requestId ids signingKey opening,
    action = .listDirectoryPage userId source path clientId requestId ids signingKey opening ∧
      binding.Names userId source path clientId

/-- A `list_directory_page` with another cursor, for what the binding names. -/
def Action.Continues (action : Action α) (binding : Binding) (snapshotId : String) (offset : Nat)
    (signature : String) : Prop :=
  ∃ userId source path cursor clientId,
    action = .continueDirectoryPage userId source path cursor clientId ∧
      binding.Names userId source path clientId ∧
      parseDirectoryCursor cursor = some (snapshotId, offset, signature)

/-- Call `c` was started, with such arguments. -/
def State.Started (s : State α) (c : Nat) (p : Action α → Prop) : Prop :=
  ∃ action, s.started[c]? = some action ∧ p action

def State.Continued (s : State α) (c : Nat) (request : Continuation) : Prop :=
  s.Started c (·.Continues request.binding request.snapshotId request.offset request.signature)

/-! ## The calls and the pages -/

/-- The call has returned no page, and none goes to it. -/
def State.Silent (s : State α) (c : Nat) : Prop := ∀ page ∈ s.pages, page.call ≠ c

/-- Call `c` returns a page that goes to it, with a cursor of the snapshot. -/
def Reply.Ok (R : Runtime) (s : State α) (c : Nat) (reply : Reply α) : Prop :=
  ∀ entries cursor, reply = .page entries cursor → ∃ n < s.snapshotCount,
    ⟨c, n, entries⟩ ∈ s.pages ∧ ∀ text ∈ cursor, ∃ offset,
      text = directoryCursor R (s.snapshots n).id offset (s.snapshots n).signingKey

/-- Call `c` has reserved the snapshot. -/
def State.Opens (s : State α) (c n : Nat) : Prop :=
  n < s.snapshotCount ∧ (s.snapshots n).opener = c

/-- How far call `c` is, and for which arguments. -/
def Pc.Fits (R : Runtime) (s : State α) (c : Nat) : Pc α → Prop
  | .reserving request => s.Started c (·.Lists request.binding) ∧ s.Silent c
  | .opening n _ | .opened n _ _ | .checkingOpened n | .readingFirst n | .activating n _ _ =>
    s.Opens c n ∧ s.Silent c
  | .publishing n page => n < s.snapshotCount ∧ ⟨c, n, page⟩ ∈ s.pages
  | .pruning request | .lookingUp request | .locking request _ | .checking request _ =>
    s.Continued c request ∧ s.Silent c
  | .reading _ n | .advanced n _ =>
    (n < s.snapshotCount ∧ ∃ request, ⟨c, n, request, (s.served n).length⟩ ∈ s.accepted) ∧ s.Silent c
  | .electing _ reply | .retiring _ reply | .waiting _ reply | .returning reply => reply.Ok R s c
  | .cancelling .. | .expiring .. => True

/-- A call does nothing else with a snapshot while it closes some, and is as far as it should. -/
structure Call.Fits (R : Runtime) (s : State α) (call : Call α) : Prop where
  role : call.closing ≠ [] → call.pc.role = none
  pc : call.pc.Fits R s call.number

def Next.Fits (R : Runtime) (s : State α) (c : Nat) : Next α → Prop
  | .call later => later.number = c ∧ later.Fits R s
  | .reply answer => answer.Ok R s c

/-- The page begins where the pages before it end, and goes to the call that has reserved the
snapshot or to one whose cursor was accepted there. -/
def Page.Placed (s : State α) (before : List (Page α)) (page : Page α) : Prop :=
  page.snapshot < s.snapshotCount ∧
    (page.call = (s.snapshots page.snapshot).opener ∧
        State.served { s with pages := before } page.snapshot = [] ∨
      ∃ request, ⟨page.call, page.snapshot, request,
        (State.served { s with pages := before } page.snapshot).length⟩ ∈ s.accepted)

/-- What holds of the snapshots, the cursors and the pages so far. -/
structure History (s : State α) : Prop where
  snapshots : ∀ n < s.snapshotCount,
    s.Started (s.snapshots n).opener (·.Lists (s.snapshots n).binding)
  accepted : ∀ a ∈ s.accepted, s.Continued a.call a.request
  pages : ∀ before page after, s.pages = before ++ page :: after → page.Placed s before
  once : (s.pages.map (·.call)).Nodup

/-- What a snapshot is, from its reservation on. -/
def Snapshot.identity (snapshot : Snapshot) : Nat × String × Binding × Python.Bytes :=
  (snapshot.opener, snapshot.id, snapshot.binding, snapshot.signingKey)

/-- What a step of call `c` does to what is known of the calls. -/
structure Later (c : Nat) (s s' : State α) : Prop where
  started : s.started <+: s'.started
  count : s.snapshotCount ≤ s'.snapshotCount
  identity : ∀ n < s.snapshotCount, (s'.snapshots n).identity = (s.snapshots n).identity
  accepted : s.accepted ⊆ s'.accepted
  pages : s'.pages = s.pages ∨ ∃ n entries, s'.pages = s.pages ++ [⟨c, n, entries⟩] ∧
    ∀ call ∈ s.calls, ∀ role, call.pc.role = some (n, role) → role.passed = false

/-- Nothing of it changes. -/
structure Quiet (s s' : State α) : Prop where
  started : s'.started = s.started
  count : s'.snapshotCount = s.snapshotCount
  identity : ∀ n, (s'.snapshots n).identity = (s.snapshots n).identity
  accepted : s'.accepted = s.accepted
  pages : s'.pages = s.pages

theorem Quiet.later (h : Quiet s s') : Later c s s' where
  started := h.started ▸ List.prefix_refl _
  count := Nat.le_of_eq h.count.symm
  identity n _ := h.identity n
  accepted _ ha := h.accepted ▸ ha
  pages := .inl h.pages

theorem Quiet.of_eq (hsnapshots : s'.snapshots = s.snapshots) (hstarted : s'.started = s.started)
    (hcount : s'.snapshotCount = s.snapshotCount) (haccepted : s'.accepted = s.accepted)
    (hpages : s'.pages = s.pages) : Quiet s s' :=
  ⟨hstarted, hcount, fun _ => hsnapshots ▸ rfl, haccepted, hpages⟩

theorem Quiet.refl (s : State α) : Quiet s s := .of_eq rfl rfl rfl rfl rfl

theorem Quiet.trans {s'' : State α} (h : Quiet s s') (h' : Quiet s' s'') : Quiet s s'' where
  started := h'.started.trans h.started
  count := h'.count.trans h.count
  identity n := (h'.identity n).trans (h.identity n)
  accepted := h'.accepted.trans h.accepted
  pages := h'.pages.trans h.pages

theorem Quiet.update (n : Nat) (f : Snapshot → Snapshot)
    (hf : ∀ snapshot, (f snapshot).identity = snapshot.identity) : Quiet s (s.update n f) where
  started := rfl
  count := rfl
  identity m := update_field Snapshot.identity hf n m
  accepted := rfl
  pages := rfl

/-! ### What later steps keep -/

theorem State.Started.later {p : Action α → Prop} {m : Nat} (h : s.Started m p) (hl : Later c s s') :
    s'.Started m p := by
  obtain ⟨action, haction, hp⟩ := h
  obtain ⟨more, hmore⟩ := hl.started
  refine ⟨action, ?_, hp⟩
  rw [← hmore, List.getElem?_append_left (List.getElem?_eq_some_iff.mp haction).1, haction]

theorem Later.subset_pages (hl : Later c s s') : s.pages ⊆ s'.pages := by
  intro page hpage
  rcases hl.pages with h | ⟨n, entries, h, -⟩
  · exact h ▸ hpage
  · exact h ▸ List.mem_append_left _ hpage

theorem Later.opener (hl : Later c s s') (hn : n < s.snapshotCount) :
    (s'.snapshots n).opener = (s.snapshots n).opener := congrArg (·.1) (hl.identity n hn)

theorem Later.id (hl : Later c s s') (hn : n < s.snapshotCount) :
    (s'.snapshots n).id = (s.snapshots n).id := congrArg (·.2.1) (hl.identity n hn)

theorem Later.binding (hl : Later c s s') (hn : n < s.snapshotCount) :
    (s'.snapshots n).binding = (s.snapshots n).binding := congrArg (·.2.2.1) (hl.identity n hn)

theorem Later.signingKey (hl : Later c s s') (hn : n < s.snapshotCount) :
    (s'.snapshots n).signingKey = (s.snapshots n).signingKey :=
  congrArg (·.2.2.2) (hl.identity n hn)

theorem Reply.Ok.later {m : Nat} (h : answer.Ok R s m) (hl : Later c s s') : answer.Ok R s' m := by
  intro entries cursor heq
  obtain ⟨n, hn, hpage, hcursor⟩ := h entries cursor heq
  refine ⟨n, Nat.lt_of_lt_of_le hn hl.count, hl.subset_pages hpage, fun text ht => ?_⟩
  rw [hl.id hn, hl.signingKey hn]
  exact hcursor text ht

theorem State.Opens.later {m : Nat} (h : s.Opens m n) (hl : Later c s s') : s'.Opens m n :=
  ⟨Nat.lt_of_lt_of_le h.1 hl.count, (hl.opener h.1).trans h.2⟩

theorem State.Silent.later {m : Nat} (h : s.Silent m) (hl : Later c s s') (hne : c ≠ m) :
    s'.Silent m := by
  intro page hpage
  rcases hl.pages with heq | ⟨n, entries, heq, -⟩
  · exact h page (heq ▸ hpage)
  · rcases List.mem_append.mp (heq ▸ hpage) with hpage | hpage
    · exact h page hpage
    · rw [List.mem_singleton.mp hpage]
      exact hne

/-- Another call is as far as before, for nobody else returns entries of the snapshot it goes on
with. -/
theorem Call.Fits.later {call : Call α} (h : call.Fits R s) (hl : Later c s s')
    (hcall : call ∈ s.calls) (hne : c ≠ call.number) : call.Fits R s' := by
  refine ⟨h.role, ?_⟩
  have hpc := h.pc
  have hserved : ∀ {n role}, call.pc.role = some (n, role) → role.passed = true →
      s'.served n = s.served n := by
    intro n role hrole hpassed
    rcases hl.pages with heq | ⟨m, entries, heq, hnot⟩
    · rw [State.served, State.served, heq]
    · have hmn : m ≠ n := by
        rintro rfl
        rw [hnot call hcall role hrole] at hpassed
        cases hpassed
      simp [State.served, heq, hmn]
  cases hcase : call.pc with
  | reserving request =>
    rw [hcase] at hpc
    exact ⟨hpc.1.later hl, hpc.2.later hl hne⟩
  | opening | opened | checkingOpened | readingFirst | activating =>
    rw [hcase] at hpc
    exact ⟨hpc.1.later hl, hpc.2.later hl hne⟩
  | publishing n page =>
    rw [hcase] at hpc
    exact ⟨Nat.lt_of_lt_of_le hpc.1 hl.count, hl.subset_pages hpc.2⟩
  | pruning | lookingUp | locking | checking =>
    rw [hcase] at hpc
    exact ⟨hpc.1.later hl, hpc.2.later hl hne⟩
  | reading request n =>
    have hsame := hserved (n := n) (by rw [hcase]; rfl) rfl
    rw [hcase] at hpc
    obtain ⟨⟨hn, a, ha⟩, hsilent⟩ := hpc
    exact ⟨⟨Nat.lt_of_lt_of_le hn hl.count, a, hsame ▸ hl.accepted ha⟩, hsilent.later hl hne⟩
  | advanced n page =>
    have hsame := hserved (n := n) (by rw [hcase]; rfl) rfl
    rw [hcase] at hpc
    obtain ⟨⟨hn, a, ha⟩, hsilent⟩ := hpc
    exact ⟨⟨Nat.lt_of_lt_of_le hn hl.count, a, hsame ▸ hl.accepted ha⟩, hsilent.later hl hne⟩
  | electing | retiring | waiting | returning =>
    rw [hcase] at hpc
    exact Reply.Ok.later hpc hl
  | cancelling | expiring => trivial

theorem Pc.Fits.quiet (h : pc.Fits R s c) (hq : Quiet s s') : pc.Fits R s' c := by
  have hl : Later c s s' := hq.later
  have hserved : ∀ n, s'.served n = s.served n := fun n => by
    rw [State.served, State.served, hq.pages]
  have hsilent : s.Silent c → s'.Silent c := fun h page hpage => h page (hq.pages ▸ hpage)
  cases pc with
  | reserving => exact ⟨h.1.later hl, hsilent h.2⟩
  | opening | opened | checkingOpened | readingFirst | activating =>
    exact ⟨h.1.later hl, hsilent h.2⟩
  | publishing => exact ⟨Nat.lt_of_lt_of_le h.1 hl.count, hl.subset_pages h.2⟩
  | pruning | lookingUp | locking | checking => exact ⟨h.1.later hl, hsilent h.2⟩
  | reading | advanced =>
    obtain ⟨⟨hn, a, ha⟩, hs⟩ := h
    exact ⟨⟨Nat.lt_of_lt_of_le hn hl.count, a, (hserved _).symm ▸ hl.accepted ha⟩, hsilent hs⟩
  | electing | retiring | waiting | returning => exact Reply.Ok.later h hl
  | cancelling | expiring => trivial

theorem Page.Placed.later {before : List (Page α)} {page : Page α} (h : page.Placed s before)
    (hl : Later c s s') : page.Placed s' before := by
  obtain ⟨hn, hcase⟩ := h
  refine ⟨Nat.lt_of_lt_of_le hn hl.count, ?_⟩
  rcases hcase with ⟨hopener, hserved⟩ | ⟨request, ha⟩
  · exact .inl ⟨hopener.trans (hl.opener hn).symm, hserved⟩
  · exact .inr ⟨request, hl.accepted ha⟩

/-- Snapshots are reserved and cursors accepted. -/
theorem History.later (H : History s) (hl : Later c s s') (hpages : s'.pages = s.pages)
    (hsnapshots : ∀ n, s.snapshotCount ≤ n → n < s'.snapshotCount →
      s'.Started (s'.snapshots n).opener (·.Lists (s'.snapshots n).binding))
    (haccepted : ∀ a ∈ s'.accepted, a ∈ s.accepted ∨ s'.Continued a.call a.request) :
    History s' where
  snapshots n hn := by
    rcases Nat.lt_or_ge n s.snapshotCount with hlt | hge
    · rw [hl.opener hlt, hl.binding hlt]
      exact (H.snapshots n hlt).later hl
    · exact hsnapshots n hge hn
  accepted a ha := by
    rcases haccepted a ha with ha | ha
    · exact (H.accepted a ha).later hl
    · exact ha
  pages before page after h := (H.pages before page after (hpages ▸ h)).later hl
  once := hpages ▸ H.once

theorem History.quiet (H : History s) (hq : Quiet s s') : History s' :=
  H.later (c := 0) hq.later hq.pages
    (fun _ hge hlt => absurd hlt (Nat.not_lt.mpr (hq.count ▸ hge)))
    fun _ ha => .inl (hq.accepted ▸ ha)

/-- A page goes to call `c`. -/
theorem History.serve (H : History s) (entries : List α) (hn : n < s.snapshotCount)
    (hsilent : s.Silent c)
    (hplaced : c = (s.snapshots n).opener ∧ s.served n = [] ∨
      ∃ request, ⟨c, n, request, (s.served n).length⟩ ∈ s.accepted) :
    History (s.serve c n entries) where
  snapshots := H.snapshots
  accepted := H.accepted
  pages before page after h := by
    have h : s.pages ++ [⟨c, n, entries⟩] = before ++ page :: after := h
    rcases List.eq_nil_or_concat after with rfl | ⟨after, last, rfl⟩
    · obtain ⟨rfl, hpage⟩ := List.append_inj' h rfl
      obtain rfl := List.singleton_inj.mp hpage
      exact ⟨hn, hplaced⟩
    · rw [List.concat_eq_append, ← List.cons_append, ← List.append_assoc] at h
      exact H.pages before page after (List.append_inj' h rfl).1
  once := by
    have hmap : (s.serve c n entries).pages.map (·.call) = s.pages.map (·.call) ++ [c] := by
      simp [State.serve]
    rw [hmap]
    refine List.nodup_append.mpr ⟨H.once, List.nodup_singleton c, fun m hm k hk => ?_⟩
    obtain ⟨page, hpage, rfl⟩ := List.mem_map.mp hm
    rw [List.mem_singleton.mp hk]
    exact hsilent page hpage

theorem later_serve (c : Nat) (entries : List α)
    (hothers : ∀ call ∈ s.calls, ∀ role, call.pc.role = some (n, role) → role.passed = false) :
    Later c s (s.serve c n entries) :=
  ⟨List.prefix_refl _, Nat.le_refl _, fun _ _ => rfl, fun _ ha => ha, .inr ⟨n, entries, rfl, hothers⟩⟩

theorem Later.quiet {s'' : State α} (hl : Later c s s') (hq : Quiet s' s'') : Later c s s'' where
  started := hq.started ▸ hl.started
  count := hq.count.symm ▸ hl.count
  identity n hn := (hq.identity n).trans (hl.identity n hn)
  accepted _ ha := hq.accepted ▸ hl.accepted ha
  pages := hq.pages ▸ hl.pages

/-! ## The steps -/

/-- What a step of call `c` does, and how far the call is then. -/
structure Goes (R : Runtime) (c : Nat) (s s' : State α) (next : Next α) : Prop where
  later : Later c s s'
  started : s'.started = s.started
  history : History s'
  next : next.Fits R s' c

def Traces (R : Runtime) (c : Nat) (s : State α) (r : Option (State α × Next α)) : Prop :=
  ∀ s' next, r = some (s', next) → Goes R c s s' next

theorem Traces.none : Traces R c s none := by
  intro s' next h
  cases h

theorem traces_goto (hl : Later c s s') (hstarted : s'.started = s.started) (H : History s')
    (h : pc.Fits R s' c) : Traces R c s (s'.goto c pc) := by
  intro t next ht
  cases ht
  exact ⟨hl, hstarted, H, rfl, fun h => absurd rfl h, h⟩

theorem traces_reply (hl : Later c s s') (hstarted : s'.started = s.started) (H : History s')
    (h : answer.Ok R s' c) : Traces R c s (s'.reply answer) := by
  intro t next ht
  cases ht
  exact ⟨hl, hstarted, H, h⟩

section
variable (H : History s) (hq : Quiet s s')
include H hq

theorem quiet_goto (h : pc.Fits R s c) : Traces R c s (s'.goto c pc) :=
  traces_goto hq.later hq.started (H.quiet hq) (h.quiet hq)

theorem quiet_gotoClosing {ns : List Nat} (hrole : pc.role = none) (h : pc.Fits R s c) :
    Traces R c s (s'.gotoClosing c ns pc) := by
  intro t next ht
  cases ht
  exact ⟨hq.later, hq.started, H.quiet hq, rfl, fun _ => hrole, h.quiet hq⟩

theorem quiet_reply (h : answer.Ok R s c) : Traces R c s (s'.reply answer) :=
  traces_reply hq.later hq.started (H.quiet hq) (h.later (hq.later (c := c)))

end

theorem ok_error (message : String) : (Reply.error message : Reply α).Ok R s c := nofun

theorem ok_cancelled (matched : Bool) : (Reply.cancelled matched : Reply α).Ok R s c := nofun

theorem ok_done : (Reply.done : Reply α).Ok R s c := nofun

theorem ok_raised : (Reply.raised : Reply α).Ok R s c := nofun

/-- The page that was just read. -/
theorem ok_serve {entries : List α} (hn : n < s.snapshotCount) :
    (Reply.page entries none).Ok R (s.serve c n entries) c := by
  intro entries' cursor h
  cases h
  exact ⟨n, hn, List.mem_append_right _ (List.mem_singleton_self _), nofun⟩

/-- Nobody else is to return a page of a snapshot that the call opens. -/
theorem InvWith.others_of_opens {role : Role α} (H : InvWith R s (single n role))
    (h : role.opens = true) :
    ∀ call ∈ s.calls, ∀ role, call.pc.role = some (n, role) → role.passed = false := by
  obtain ⟨-, hothers⟩ := H.local.of_opens h
  intro call hcall role hrole
  have hnot := List.countP_eq_zero.mp hothers.passed role (mem_roles hcall hrole)
  simpa using hnot

/-- Nobody else is to return a page of a snapshot that the call goes on with. -/
theorem InvWith.others_of_passed {role : Role α} (H : InvWith R s (single n role))
    (h : role.passed = true) :
    ∀ call ∈ s.calls, ∀ role, call.pc.role = some (n, role) → role.passed = false := by
  obtain ⟨-, -, hothers⟩ := H.local.of_passed h
  intro call hcall role hrole
  have hnot := List.countP_eq_zero.mp hothers.passed role (mem_roles hcall hrole)
  simpa using hnot

theorem Quiet.markClosing (ns : List Nat) : Quiet s (s.markClosing ns) := by
  refine ⟨rfl, rfl, fun n => ?_, rfl, rfl⟩
  simp only [State.markClosing]
  split <;> rfl

theorem Quiet.cancelAll (ns : List Nat) (cancelWaiter : Nat → Bool) :
    Quiet s (s.cancelAll ns cancelWaiter) := by
  refine ⟨rfl, rfl, fun n => ?_, rfl, rfl⟩
  simp only [State.cancelAll]
  split <;> rfl

theorem Quiet.arm (n : Nat) : Quiet s (s.arm R n) := .of_eq rfl rfl rfl rfl rfl

theorem Quiet.unlock (n : Nat) : Quiet s (s.unlock n) := .update n _ (by exact fun _ => rfl)

theorem Quiet.listings (n : Nat) (listing : Option (Listing α)) :
    Quiet s { s with listings := Function.update s.listings n listing } :=
  .of_eq rfl rfl rfl rfl rfl

theorem traces_reserve {request : PageZero α} (H : History s)
    (hpc : (Pc.reserving request).Fits R s c) : Traces R c s (s.reserve R c request) := by
  simp only [State.reserve]
  split
  · exact quiet_gotoClosing H (.markClosing _) rfl hpc
  split
  · exact quiet_reply H (.refl s) (ok_error _)
  split
  · exact quiet_goto H (.refl s) hpc
  rename_i id hid
  -- the new snapshot belongs to this call
  have hold : ∀ n < s.snapshotCount, ∀ fresh : Snapshot,
      Function.update s.snapshots s.snapshotCount fresh n = s.snapshots n :=
    fun n hn fresh => Function.update_of_ne (Nat.ne_of_lt hn) ..
  have hl : Later c s
      { s with
        registry := s.registry.set id s.snapshotCount
        snapshotCount := s.snapshotCount + 1
        snapshots := Function.update s.snapshots s.snapshotCount
          ⟨c, id, request.binding, request.requestId, false, 0, request.signingKey,
            request.lastUsed, .opening, false, false, false, false⟩ } :=
    ⟨List.prefix_refl _, Nat.le_succ _, fun n hn => congrArg Snapshot.identity (hold n hn _),
      fun _ ha => ha, .inl rfl⟩
  refine traces_goto hl rfl (H.later hl rfl (fun n hge hlt => ?_) fun _ ha => .inl ha) ?_
  · obtain rfl : n = s.snapshotCount := Nat.le_antisymm (Nat.lt_succ_iff.mp hlt) hge
    simp only [Function.update_self]
    exact hpc.1.later hl
  · refine ⟨⟨Nat.lt_succ_self _, ?_⟩, hpc.2⟩
    simp only [Function.update_self]

theorem traces_openListing {opening : Opening α} (H : History s)
    (hpc : (Pc.opening n opening).Fits R s c) : Traces R c s (s.openListing c n opening) := by
  rw [State.openListing.eq_def]
  split
  · exact quiet_goto H (.refl s) ok_raised
  · exact quiet_goto H (.refl s) hpc
  · exact quiet_goto H (.of_eq rfl rfl rfl rfl rfl) hpc

theorem traces_storeListing {listing : Bool} {error : Option String} (H : History s)
    (hpc : (Pc.opened n listing error : Pc α).Fits R s c) :
    Traces R c s (s.storeListing c n listing error) := by
  have hq : Quiet s (s.update n ({ · with listing := listing })) := .update n _ (by exact fun _ => rfl)
  simp only [State.storeListing]
  split
  · exact .none
  split
  · exact quiet_goto H hq (ok_error _)
  · exact quiet_goto H hq (ok_error _)
  · exact quiet_goto H hq hpc

theorem traces_checkOpened (H : History s) (hpc : (Pc.checkingOpened n : Pc α).Fits R s c) :
    Traces R c s (s.checkOpened c n) := by
  rw [State.checkOpened]
  split
  · exact quiet_goto H (.refl s) hpc
  · exact quiet_goto H (.refl s) (ok_error _)

theorem traces_readFirst (H : History s) (hinv : InvWith R s (single n .readingFirst))
    (hpc : (Pc.readingFirst n : Pc α).Fits R s c) : Traces R c s (s.readFirst R c n) := by
  obtain ⟨⟨hn, hopener⟩, hsilent⟩ := hpc
  have hserved : s.served n = [] := hinv.local.unserved (by simp [Role.opens])
  simp only [State.readFirst]
  split
  · exact quiet_goto H (.refl s) ok_raised
  have hq := Quiet.listings (s := s) n
  split
  · exact quiet_goto H (hq _) (ok_error _)
  · exact quiet_goto H (hq _) (ok_error _)
  rename_i page hasMore _
  split
  · exact quiet_goto H (hq _) (ok_error _)
  split
  · have hl := later_serve c page (hinv.others_of_opens rfl)
    have hplaced := H.serve page hn hsilent (.inl ⟨hopener.symm, hserved⟩)
    have hq' := Quiet.listings (s := s.serve c n page) n
    exact traces_goto (hl.quiet (hq' _)) rfl (hplaced.quiet (hq' _))
      ((ok_serve hn).later ((hq' _).later (c := c)))
  split
  · exact quiet_goto H (hq _) (ok_error _)
  · exact quiet_goto H (hq _) ⟨⟨hn, hopener⟩, hsilent⟩

theorem traces_activate {page : List α} {now : Nat} (H : History s)
    (hinv : InvWith R s (single n (.activating page)))
    (hpc : (Pc.activating n page now).Fits R s c) : Traces R c s (s.activate R c n page now) := by
  obtain ⟨⟨hn, hopener⟩, hsilent⟩ := hpc
  have hserved : s.served n = [] := hinv.local.unserved (by simp [Role.opens])
  rw [State.activate]
  split
  · have hq : Quiet s ((s.update n
        ({ · with status := .active, nextOffset := page.length, lastUsed := now })).arm R n) :=
      (Quiet.update n _ (by exact fun _ => rfl)).trans (.arm n)
    have hopener' := (hq.later (c := c)).opener hn
    have hplaced := (H.quiet hq).serve (c := c) page (hq.count ▸ hn)
      (fun p hp => hsilent p (hq.pages ▸ hp))
      (.inl ⟨hopener.symm.trans hopener'.symm, hserved⟩)
    have hl := later_serve c page (hinv.others_of_opens rfl)
    refine traces_goto (hl.quiet ?_) rfl hplaced ?_
    · exact ⟨rfl, rfl, fun m => hq.identity m, rfl, rfl⟩
    · exact ⟨hn, List.mem_append_right _ (List.mem_singleton_self _)⟩
  · exact quiet_goto H (.refl s) (ok_error _)

theorem traces_publish {page : List α} (H : History s)
    (hpc : (Pc.publishing n page).Fits R s c) : Traces R c s (s.publish R n page) := by
  refine quiet_reply H (.refl s) fun entries cursor h => ?_
  cases h
  refine ⟨n, hpc.1, hpc.2, fun text ht => ⟨(s.snapshots n).nextOffset, ?_⟩⟩
  exact (Option.some.inj ht).symm

theorem traces_lookUp {request : Continuation} (H : History s)
    (hpc : (Pc.lookingUp request : Pc α).Fits R s c) : Traces R c s (s.lookUp c request) := by
  rw [State.lookUp.eq_def]
  split
  · exact quiet_reply H (.refl s) (ok_error _)
  · exact quiet_goto H (.refl s) hpc

theorem traces_lock {request : Continuation} (H : History s)
    (hpc : (Pc.locking request n : Pc α).Fits R s c) : Traces R c s (s.lock c request n) := by
  rw [State.lock]
  split
  · exact .none
  · exact quiet_goto H (.update n _ (by exact fun _ => rfl)) hpc

theorem traces_check {request : Continuation} (H : History s)
    (hinv : InvWith R s (single n .checking))
    (hpc : (Pc.checking request n : Pc α).Fits R s c) : Traces R c s (s.check R c request n) := by
  simp only [State.check]
  split
  · exact quiet_reply H (.unlock n) (ok_error _)
  · have hl : Later c s
        { s with accepted := s.accepted ++ [⟨c, n, request, (s.served n).length⟩] } :=
      ⟨List.prefix_refl _, Nat.le_refl _, fun _ _ => rfl, fun _ ha => List.mem_append_left _ ha,
        .inl rfl⟩
    refine traces_goto hl rfl (H.later hl rfl (fun _ hge hlt => absurd hlt (Nat.not_lt.mpr hge))
      fun a ha => ?_) ⟨⟨hinv.lt, request, ?_⟩, hpc.2⟩
    · rcases List.mem_append.mp ha with ha | ha
      · exact .inl ha
      · rw [List.mem_singleton.mp ha]
        exact .inr (hpc.1.later hl)
    · exact List.mem_append_right _ (List.mem_singleton_self _)

theorem traces_read {request : Continuation} (H : History s)
    (hinv : InvWith R s (single n .reading))
    (hpc : (Pc.reading request n : Pc α).Fits R s c) : Traces R c s (s.read R c request n) := by
  obtain ⟨⟨hn, hplaced⟩, hsilent⟩ := hpc
  simp only [State.read]
  split
  case h_2 => exact quiet_reply H (.unlock n) ok_raised
  have hq := Quiet.listings (s := s) n
  split
  · exact quiet_goto H (hq _) (ok_error _)
  · exact quiet_goto H (hq _) (ok_error _)
  rename_i page hasMore _
  split
  · exact quiet_goto H (hq _) (ok_error _)
  split
  · have hl := later_serve c page (hinv.others_of_passed rfl)
    have hserve := H.serve page hn hsilent (.inr hplaced)
    have hq' := Quiet.listings (s := s.serve c n page) n
    exact traces_goto (hl.quiet (hq' _)) rfl (hserve.quiet (hq' _))
      ((ok_serve hn).later ((hq' _).later (c := c)))
  · exact quiet_goto H ((hq _).trans (.update n _ (by exact fun _ => rfl))) ⟨⟨hn, hplaced⟩, hsilent⟩

theorem traces_advance {page : List α} (H : History s)
    (hinv : InvWith R s (single n (.advanced page)))
    (hpc : (Pc.advanced n page).Fits R s c) : Traces R c s (s.advance R c n page) := by
  obtain ⟨⟨hn, hplaced⟩, hsilent⟩ := hpc
  have hl := later_serve c page (hinv.others_of_passed rfl)
  have hserve := H.serve page hn hsilent (.inr hplaced)
  have hok : (Reply.page page (some (directoryCursor R (s.snapshots n).id
      (s.snapshots n).nextOffset (s.snapshots n).signingKey))).Ok R (s.serve c n page) c := by
    intro entries cursor h
    cases h
    refine ⟨n, hn, List.mem_append_right _ (List.mem_singleton_self _), fun text ht => ?_⟩
    exact ⟨(s.snapshots n).nextOffset, (Option.some.inj ht).symm⟩
  simp only [State.advance]
  split
  · exact quiet_reply H (.unlock n) (ok_error _)
  split
  · have hq' : Quiet (s.serve c n page) (((s.arm R n).serve c n page).unlock n) := by
      have harm : Quiet (s.serve c n page) ((s.arm R n).serve c n page) :=
        .of_eq rfl rfl rfl rfl rfl
      exact harm.trans (.unlock n)
    exact traces_reply (hl.quiet hq') rfl (hserve.quiet hq')
      (hok.later (hq'.later (c := c)))
  · have hq' : Quiet (s.serve c n page) ((s.serve c n page).unlock n) := .unlock n
    exact traces_reply (hl.quiet hq') rfl (hserve.quiet hq')
      (hok.later (hq'.later (c := c)))
  · exact quiet_reply H (.unlock n) (ok_error _)
  · exact quiet_reply H (.unlock n) (ok_error _)

theorem traces_cancelSnapshot {request : Cancellation} (H : History s) :
    Traces R c s (s.cancelSnapshot R c request n) := by
  simp only [State.cancelSnapshot]
  split
  · exact quiet_reply H (.refl s) (ok_cancelled _)
  have hq : ∀ status, Quiet s (s.update n ({ · with status := status, cancelWaiter := true })) :=
    fun _ => .update n _ (by exact fun _ => rfl)
  split
  · split
    · exact quiet_reply H (hq _) (ok_cancelled _)
    · exact quiet_gotoClosing H (hq _) rfl (ok_cancelled _)
  · split
    · exact quiet_reply H (.refl s) (ok_cancelled _)
    · exact quiet_goto H (.update n _ (by exact fun _ => rfl)) (ok_cancelled _)
  · split
    · exact quiet_reply H (.refl s) (ok_cancelled _)
    · exact quiet_goto H (.update n _ (by exact fun _ => rfl)) (ok_cancelled _)
  · exact quiet_reply H (.refl s) (ok_cancelled _)

theorem traces_continueCall (H : History s) (hinv : InvWith R s pc.roles)
    (hpc : pc.Fits R s c) : Traces R c s (s.continueCall R c pc) := by
  have hsingle : ∀ {n role}, pc.role = some (n, role) → InvWith R s (single n role) := by
    intro n role hrole
    rwa [roles_of_role hrole] at hinv
  cases pc with
  | reserving request => exact traces_reserve H hpc
  | opening n opening => exact traces_openListing H hpc
  | opened n listing error => exact traces_storeListing H hpc
  | checkingOpened n => exact traces_checkOpened H hpc
  | readingFirst n => exact traces_readFirst H (hsingle rfl) hpc
  | activating n page now => exact traces_activate H (hsingle rfl) hpc
  | publishing n page => exact traces_publish H hpc
  | pruning request => exact quiet_gotoClosing H (.markClosing _) rfl hpc
  | lookingUp request => exact traces_lookUp H hpc
  | locking request n => exact traces_lock H hpc
  | checking request n => exact traces_check H (hsingle rfl) hpc
  | reading request n => exact traces_read H (hsingle rfl) hpc
  | advanced n page => exact traces_advance H (hsingle rfl) hpc
  | electing n reply =>
    rw [State.continueCall, State.elect]
    split
    · exact quiet_goto H ((Quiet.update n _ (by exact fun _ => rfl)).trans (.unlock n)) hpc
    · exact quiet_goto H (.unlock n) hpc
  | retiring n reply =>
    rw [State.continueCall, State.retire]
    split
    · exact quiet_gotoClosing H (.update n _ (by exact fun _ => rfl)) rfl hpc
    · exact quiet_reply H (.refl s) hpc
  | cancelling request n => exact traces_cancelSnapshot H
  | waiting ns reply =>
    cases ns with
    | nil => exact quiet_reply H (.refl s) hpc
    | cons n ns =>
      rw [State.continueCall]
      split
      · exact quiet_goto H (.refl s) hpc
      · exact .none
  | expiring n expectedLastUsed =>
    rw [State.continueCall, State.expire]
    split
    · exact quiet_reply H (.refl s) ok_done
    · exact quiet_gotoClosing H (.update n _ (by exact fun _ => rfl)) rfl ok_done
  | returning reply => exact quiet_reply H (.refl s) hpc

theorem traces_cancelRequest (H : History s) (requestId owner sourceId clientId : String) :
    Traces R c s (s.cancelRequest c requestId owner sourceId clientId) :=
  quiet_gotoClosing H (.cancelAll ..) rfl (ok_cancelled _)

theorem traces_discard (H : History s) (owner sourceId clientId : Option String) :
    Traces R c s (s.discard c owner sourceId clientId) :=
  quiet_gotoClosing H (.cancelAll ..) rfl ok_done

theorem traces_proceed {call : Call α} (H : History s) (hinv : InvWith R s call.roles)
    (hcall : call.Fits R s) : Traces R call.number s (s.proceed R call) := by
  obtain ⟨number, closing, stage, pc⟩ := call
  cases closing with
  | nil => exact traces_continueCall H hinv hcall.pc
  | cons n rest =>
    intro t next ht
    obtain ⟨⟨s', call'⟩, hclose, h⟩ := Option.map_eq_some_iff.mp ht
    cases h
    have hrole : pc.role = none := hcall.role (List.cons_ne_nil _ _)
    have hpc : (call'.number = number ∧ call'.pc = pc) ∧ Quiet s t := by
      rw [State.close.eq_def] at hclose
      split at hclose
      · split at hclose
        · cases hclose
        split at hclose <;> cases hclose
        · exact ⟨⟨rfl, rfl⟩, .refl s⟩
        · refine ⟨⟨rfl, rfl⟩, ?_⟩
          exact (Quiet.update n ({ · with
            listing := false, closeStarted := true, cancelWaiter := true }) fun _ => rfl).trans
            (.of_eq rfl rfl rfl rfl rfl)
      · cases hclose
        exact ⟨⟨rfl, rfl⟩, .of_eq rfl rfl rfl rfl rfl⟩
      · cases hclose
        exact ⟨⟨rfl, rfl⟩, .refl s⟩
      · cases hclose
        exact ⟨⟨rfl, rfl⟩, .of_eq rfl rfl rfl rfl rfl⟩
      · cases hclose
        refine ⟨⟨rfl, rfl⟩, ?_⟩
        exact (Quiet.update n ({ · with closed := true }) fun _ => rfl).trans
          (.of_eq rfl rfl rfl rfl rfl)
    obtain ⟨⟨hnumber, hpc⟩, hq⟩ := hpc
    refine ⟨hq.later, hq.started, H.quiet hq, hnumber, fun _ => hpc ▸ hrole, ?_⟩
    rw [hpc, hnumber]
    exact hcall.pc.quiet hq

/-- The first step of call `c`. -/
theorem traces_enter {action : Action α} (H : History s) (hc : s.started[c]? = some action)
    (hsilent : s.Silent c) : Traces R c s (s.enter c action) := by
  cases action with
  | listDirectoryPage userId source path clientId requestId ids signingKey opening =>
    simp only [State.enter]
    split
    · refine quiet_goto H (.refl s) ⟨⟨_, hc, ?_⟩, hsilent⟩
      exact ⟨_, _, _, _, _, _, _, _, rfl, rfl, rfl, rfl, rfl, rfl, rfl⟩
    · exact quiet_reply H (.refl s) (ok_error _)
  | continueDirectoryPage userId source path cursor clientId =>
    rw [State.enter.eq_def]
    dsimp only
    split
    · exact quiet_reply H (.refl s) (ok_error _)
    · rename_i hparse
      refine quiet_goto H (.refl s) ⟨⟨_, hc, ?_⟩, hsilent⟩
      exact ⟨_, _, _, _, _, rfl, ⟨rfl, rfl, rfl, rfl, rfl, rfl⟩, hparse⟩
  | cancelDirectorySnapshot cursor userId sourceId clientId =>
    rw [State.enter.eq_def]
    dsimp only
    split
    · exact quiet_reply H (.refl s) (ok_cancelled _)
    split
    · exact quiet_reply H (.refl s) (ok_cancelled _)
    · exact quiet_goto H (.refl s) trivial
  | cancelDirectoryRequest requestId userId sourceId clientId =>
    simp only [State.enter]
    split
    · exact traces_cancelRequest H _ _ _ _
    · exact quiet_reply H (.refl s) (ok_cancelled _)
  | discardDirectorySnapshots userId sourceId clientId => exact traces_discard H _ _ _
  | fire timer =>
    simp only [State.enter]
    split
    · exact quiet_goto H (.of_eq rfl rfl rfl rfl rfl) trivial
    · exact .none
  | proceed k => exact .none
  | tick time => exact .none

/-! ## The runs -/

/-- The action starts a call. -/
def Action.starts : Action α → Bool
  | .proceed _ | .tick _ => false
  | _ => true

/-- The calls a run has started. -/
def starts (labels : List (Action α × Option (Nat × Reply α))) : List (Action α) :=
  (labels.map (·.1)).filter Action.starts

/-- The calls of a run that have returned. -/
def returned (labels : List (Action α × Option (Nat × Reply α))) : List Nat :=
  labels.filterMap fun label => label.2.map (·.1)

section
variable {labels : List (Action α × Option (Nat × Reply α))} {action : Action α}
  {result : Option (Nat × Reply α)} {own : List Nat}

@[simp]
theorem starts_append : starts (labels ++ [(action, result)]) =
    starts labels ++ if action.starts then [action] else [] := by
  rw [starts, starts, List.map_append, List.filter_append]
  cases h : action.starts <;> simp [h]

@[simp]
theorem returned_append : returned (labels ++ [(action, result)]) =
    returned labels ++ (result.map (·.1)).toList := by
  rw [returned, returned, List.filterMap_append]
  cases result <;> rfl

/-- What holds after a run; the calls `own` are taking a step. -/
structure Recorded (R : Runtime) (own : List Nat)
    (labels : List (Action α × Option (Nat × Reply α))) (s : State α) : Prop where
  started : s.started = starts labels
  history : History s
  fits : ∀ call ∈ s.calls, call.Fits R s
  numbers : (own ++ (returned labels ++ s.calls.map (·.number))).Nodup
  below : ∀ m ∈ own ++ (returned labels ++ s.calls.map (·.number)), m < s.started.length
  answers : ∀ action m answer, (action, some (m, answer)) ∈ labels → answer.Ok R s m

theorem recorded_init : Recorded R [] [] (.init : State α) where
  started := rfl
  history :=
    { snapshots := fun n hn => absurd hn (Nat.not_lt_zero n)
      accepted := fun _ h => absurd h List.not_mem_nil
      pages := fun before page after h => absurd h.symm (by simp [State.init])
      once := List.nodup_nil }
  fits _ h := absurd h List.not_mem_nil
  numbers := List.nodup_nil
  below _ h := absurd h List.not_mem_nil
  answers _ _ _ h := absurd h List.not_mem_nil

/-- Every page goes to a call that was started. -/
theorem History.lt (H : History s) {page : Page α} (hpage : page ∈ s.pages) :
    page.call < s.started.length := by
  obtain ⟨before, after, hsplit⟩ := List.append_of_mem hpage
  obtain ⟨hn, hcase⟩ := H.pages before page after hsplit
  have hlt : ∀ {m p}, s.Started m p → m < s.started.length := fun ⟨_, h, _⟩ =>
    (List.getElem?_eq_some_iff.mp h).1
  rcases hcase with ⟨hopener, -⟩ | ⟨request, ha⟩
  · exact hopener ▸ hlt (H.snapshots _ hn)
  · exact hlt (H.accepted _ ha)

/-- Nothing that is known of the calls changes. -/
theorem Recorded.quiet (H : Recorded R [] labels s) (hq : Quiet s s') (hcalls : s'.calls = s.calls)
    (hstarts : action.starts = false) : Recorded R [] (labels ++ [(action, none)]) s' where
  started := by simp [hq.started, H.started, hstarts]
  history := H.history.quiet hq
  fits call hcall :=
    have hfits := H.fits call (hcalls ▸ hcall)
    ⟨hfits.role, hfits.pc.quiet hq⟩
  numbers := by simpa [hcalls] using H.numbers
  below m hm := by
    rw [hq.started]
    exact H.below m (by simpa [hcalls] using hm)
  answers action' m answer hmem := by
    rcases List.mem_append.mp hmem with hmem | hmem
    · exact (H.answers action' m answer hmem).later (hq.later (c := m))
    · cases List.mem_singleton.mp hmem

theorem Recorded.start (H : Recorded R [] labels s) (hstarts : action.starts = true) :
    Recorded R [s.started.length] (labels ++ [(action, none)])
        { s with started := s.started ++ [action] } ∧
      State.Silent { s with started := s.started ++ [action] } s.started.length := by
  have hl : Later s.started.length s { s with started := s.started ++ [action] } :=
    ⟨List.prefix_append _ _, Nat.le_refl _, fun _ _ => rfl, fun _ ha => ha, .inl rfl⟩
  have hfresh : ∀ m ∈ returned labels ++ s.calls.map (·.number), s.started.length ≠ m :=
    fun m hm => Nat.ne_of_gt (H.below m hm)
  refine ⟨⟨?_, ?_, fun call hcall => ?_, ?_, fun m hm => ?_, fun action' m answer hmem => ?_⟩, ?_⟩
  · simp [H.started, hstarts]
  · exact H.history.later hl rfl (fun _ hge hlt => absurd hlt (Nat.not_lt.mpr hge))
      fun _ ha => .inl ha
  · exact (H.fits call hcall).later hl hcall
      (hfresh _ (List.mem_append_right _ (List.mem_map_of_mem hcall)))
  · have hnumbers : (returned labels ++ s.calls.map (·.number)).Nodup := H.numbers
    simpa using List.nodup_cons.mpr ⟨fun hmem => hfresh _ hmem rfl, hnumbers⟩
  · have hlength : (s.started ++ [action]).length = s.started.length + 1 := by simp
    rcases List.mem_append.mp hm with hm | hm
    · rw [List.mem_singleton.mp hm, hlength]
      exact Nat.lt_succ_self _
    · rw [hlength]
      exact Nat.lt_succ_of_lt (H.below m (by simpa using hm))
  · rcases List.mem_append.mp hmem with hmem | hmem
    · exact (H.answers action' m answer hmem).later hl
    · cases List.mem_singleton.mp hmem
  · exact fun page hpage => Nat.ne_of_lt (H.history.lt hpage)

theorem Recorded.take (H : Recorded R [] labels s) {k : Nat} {call : Call α}
    (hk : s.calls[k]? = some call) :
    Recorded R [call.number] (labels ++ [(.proceed k, none)])
        { s with calls := s.calls.eraseIdx k } ∧
      call.Fits R { s with calls := s.calls.eraseIdx k } := by
  have hq : Quiet s { s with calls := s.calls.eraseIdx k } := .of_eq rfl rfl rfl rfl rfl
  have hperm : (returned labels ++ s.calls.map (·.number)).Perm
      ([call.number] ++ (returned labels ++ (s.calls.eraseIdx k).map (·.number))) := by
    have hmap : (call.number :: (s.calls.eraseIdx k).map (·.number)).Perm
        (s.calls.map (·.number)) := (Pending.perm hk).map Call.number
    exact (hmap.symm.append_left _).trans List.perm_middle
  have hfits : ∀ call ∈ s.calls, call.Fits R { s with calls := s.calls.eraseIdx k } :=
    fun call hcall => ⟨(H.fits call hcall).role, (H.fits call hcall).pc.quiet hq⟩
  refine ⟨⟨?_, H.history.quiet hq, fun call hcall => ?_, ?_, fun m hm => ?_,
    fun action' m answer hmem => ?_⟩, hfits call (List.mem_of_getElem? hk)⟩
  · simp [H.started, Action.starts]
  · exact hfits call (List.mem_of_mem_eraseIdx hcall)
  · have hnumbers : (returned labels ++ s.calls.map (·.number)).Nodup := H.numbers
    simpa using hperm.nodup_iff.mp hnumbers
  · exact H.below m (hperm.mem_iff.mpr (by simpa using hm))
  · rcases List.mem_append.mp hmem with hmem | hmem
    · exact (H.answers action' m answer hmem).later (hq.later (c := m))
    · cases List.mem_singleton.mp hmem

/-- Call `c` takes a step. -/
theorem Recorded.advance (H : Recorded R [c] (labels ++ [(action, none)]) s)
    {r : Option (State α × Next α)} (hgood : Good R s r) (htraces : Traces R c s r)
    (h : State.answer c r = some (result, s')) : Recorded R [] (labels ++ [(action, result)]) s' := by
  obtain ⟨⟨t, next⟩, hr, h⟩ := Option.map_eq_some_iff.mp h
  obtain ⟨-, hcalls⟩ := hgood t next hr
  obtain ⟨hl, hstarted, hhistory, hnext⟩ := htraces t next hr
  obtain ⟨hc, hnumbers⟩ := List.nodup_cons.mp H.numbers
  have hothers : ∀ call ∈ t.calls, call.Fits R t := by
    intro call hcall
    rw [hcalls] at hcall
    refine (H.fits call hcall).later hl hcall fun heq => hc ?_
    have hmem : c ∈ s.calls.map (·.number) := List.mem_map.mpr ⟨call, hcall, heq.symm⟩
    exact List.mem_append_right [] (List.mem_append_right _ hmem)
  have hanswers : ∀ action' m answer, (action', some (m, answer)) ∈ labels →
      answer.Ok R t m := fun action' m answer hmem =>
    (H.answers action' m answer (List.mem_append_left _ hmem)).later hl
  have hbelow : ∀ m ∈ [c] ++ (returned labels ++ t.calls.map (·.number)),
      m < t.started.length := by
    intro m hm
    rw [hstarted]
    exact H.below m (by simpa [hcalls] using hm)
  have hfirst : t.started = starts (labels ++ [(action, none)]) := hstarted.trans H.started
  have hnodup : (c :: (returned labels ++ t.calls.map (·.number))).Nodup := by
    simpa [hcalls] using H.numbers
  cases next with
  | reply answer =>
    cases h
    have hperm : (c :: (returned labels ++ s'.calls.map (·.number))).Perm
        ((returned labels ++ [c]) ++ s'.calls.map (·.number)) := by
      rw [List.append_assoc]
      exact List.perm_middle.symm
    refine ⟨by simpa using hfirst, hhistory, hothers, by simpa using hperm.nodup_iff.mp hnodup,
      fun m hm => hbelow m (hperm.mem_iff.mpr (by simpa using hm)),
      fun action' m answer' hmem => ?_⟩
    rcases List.mem_append.mp hmem with hmem | hmem
    · exact hanswers action' m answer' hmem
    · cases List.mem_singleton.mp hmem
      exact hnext
  | call call =>
    cases h
    obtain ⟨rfl, hfits⟩ := hnext
    have hq : Quiet t { t with calls := t.calls ++ [call] } := .of_eq rfl rfl rfl rfl rfl
    have hperm : (call.number :: (returned labels ++ t.calls.map (·.number))).Perm
        (returned labels ++ (t.calls ++ [call]).map (·.number)) := by
      rw [List.map_append, ← List.append_assoc]
      exact (List.perm_append_singleton call.number _).symm
    refine ⟨by simpa using hfirst, hhistory.quiet hq, fun call' hcall' => ?_,
      by simpa using hperm.nodup_iff.mp hnodup,
      fun m hm => hbelow m (hperm.mem_iff.mpr (by simpa using hm)),
      fun action' m answer' hmem => ?_⟩
    · have hfits' : call'.Fits R t := by
        rcases List.mem_append.mp hcall' with hcall' | hcall'
        · exact hothers call' hcall'
        · exact List.mem_singleton.mp hcall' ▸ hfits
      exact ⟨hfits'.role, hfits'.pc.quiet hq⟩
    · rcases List.mem_append.mp hmem with hmem | hmem
      · exact (hanswers action' m answer' hmem).later (hq.later (c := m))
      · cases List.mem_singleton.mp hmem

end

end WebSSH.Directory
