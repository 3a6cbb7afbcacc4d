import WebSSH.Lib.Pending
import WebSSH.Directory.Local

/-!
# What holds of all snapshots

A call that takes a step is out of the list for the time of the step; what it is doing with the
snapshots is added to what the calls of the list do.
-/

namespace WebSSH.Directory
open Lib Python

variable {α : Type} {R : Runtime} {s s' : State α} {call : Call α} {n m c : Nat}

/-- What a call is doing with a snapshot when it closes nothing. -/
def Pc.role : Pc α → Option (Nat × Role α)
  | opening n _ => some (n, .opening)
  | opened n listing _ => some (n, .opened listing)
  | checkingOpened n => some (n, .checkingOpened)
  | readingFirst n => some (n, .readingFirst)
  | activating n page _ => some (n, .activating page)
  | locking _ n => some (n, .visiting)
  | checking _ n => some (n, .checking)
  | reading _ n => some (n, .reading)
  | advanced n page => some (n, .advanced page)
  | electing n _ => some (n, .electing)
  | retiring n _ => some (n, .retiring)
  | cancelling _ n => some (n, .visiting)
  | expiring n expectedLastUsed => some (n, .expiring expectedLastUsed)
  | reserving _ | publishing .. | pruning _ | lookingUp _ | waiting .. | returning _ => none

def Pc.roles (pc : Pc α) (n : Nat) : List (Role α) :=
  match pc with
  | waiting ns _ => List.replicate (ns.count n) .waiting
  | pc => (pc.role.toList.filter (·.1 = n)).map (·.2)

def Stage.role : Stage → Role α
  | take => .queued
  | close listing => .close listing
  | closing => .closing
  | pop => .pop

/-- What a call is doing with a snapshot. -/
def Call.roles (call : Call α) (n : Nat) : List (Role α) :=
  match call.closing with
  | [] => call.pc.roles n
  | m :: rest =>
    (if m = n then [call.stage.role] else []) ++ List.replicate (rest.count n) Role.queued ++
      call.pc.roles n

def Next.roles : Next α → Nat → List (Role α)
  | .call call, n => call.roles n
  | .reply _, _ => []

namespace State

def roles (s : State α) (n : Nat) : List (Role α) := s.calls.flatMap (·.roles n)

def view (s : State α) (n : Nat) : View α :=
  ⟨s.snapshots n, s.listings n, s.listed n, s.served n,
    (s.timers.filter (·.snapshot = n)).map (·.expectedLastUsed), s.closeCalls.count n⟩

end State

@[simp] theorem view_snapshot : (s.view n).snapshot = s.snapshots n := rfl

/-- What a cursor is accepted for. -/
def Acceptance.Ok (R : Runtime) (s : State α) (a : Acceptance) : Prop :=
  let snapshot := s.snapshots a.snapshot
  a.snapshot < s.snapshotCount ∧ a.request.snapshotId = snapshot.id ∧
    a.request.binding = snapshot.binding ∧
    a.request.signature = directorySignature R snapshot.id a.request.offset snapshot.signingKey ∧
    a.request.offset = a.served

/-- What holds of the snapshots, with a call that is doing `own` with them. -/
structure InvWith (R : Runtime) (s : State α) (own : Nat → List (Role α)) : Prop where
  locals : ∀ n, Local (s.view n) (own n ++ s.roles n)
  unused : ∀ n, s.snapshotCount ≤ n →
    s.view n = ⟨.unused, none, [], [], [], 0⟩ ∧ own n ++ s.roles n = []
  registry : ∀ id n, s.registry.get? id = some n →
    n < s.snapshotCount ∧ (s.snapshots n).id = id
  registered : ∀ n < s.snapshotCount, s.registered n = true ↔ (s.snapshots n).closed = false
  accepted : ∀ a ∈ s.accepted, a.Ok R s
  size : s.registry.size ≤ R.maxStates
  owners : ∀ owner, s.ownerCount owner ≤ R.maxPerUser

/-- What holds between the steps. -/
def Inv (R : Runtime) (s : State α) : Prop := InvWith R s fun _ => []

/-- What a step on snapshots leaves as it is. -/
structure Keeps (s s' : State α) : Prop where
  calls : s'.calls = s.calls
  registry : s'.registry = s.registry
  snapshotCount : s'.snapshotCount = s.snapshotCount
  id : ∀ n, (s'.snapshots n).id = (s.snapshots n).id
  binding : ∀ n, (s'.snapshots n).binding = (s.snapshots n).binding
  signingKey : ∀ n, (s'.snapshots n).signingKey = (s.snapshots n).signingKey
  closed : ∀ n, (s'.snapshots n).closed = (s.snapshots n).closed

variable {own next : Nat → List (Role α)}

theorem Keeps.roles (h : Keeps s s') (n : Nat) : s'.roles n = s.roles n := by
  rw [State.roles, State.roles, h.calls]

theorem Keeps.registered (h : Keeps s s') (n : Nat) : s'.registered n = s.registered n := by
  rw [State.registered, State.registered, h.registry, h.id]

theorem Keeps.ownerCount (h : Keeps s s') (owner : String) :
    s'.ownerCount owner = s.ownerCount owner := by
  rw [State.ownerCount, State.ownerCount, h.registry]
  simp only [h.binding]

theorem Acceptance.Ok.keeps {a : Acceptance} (ha : a.Ok R s) (h : Keeps s s') : a.Ok R s' := by
  simp only [Acceptance.Ok, h.id, h.binding, h.signingKey, h.snapshotCount] at ha ⊢
  exact ha

/-- What an update leaves of a field it does not change. -/
theorem update_field {β : Type} {f : Snapshot → Snapshot} (field : Snapshot → β)
    (h : ∀ snapshot, field (f snapshot) = field snapshot) (n m : Nat) :
    field ((s.update n f).snapshots m) = field (s.snapshots m) := by
  rcases Decidable.eq_or_ne m n with rfl | hne
  · rw [show (s.update m f).snapshots m = f (s.snapshots m) from Function.update_self ..]
    exact h _
  · rw [show (s.update n f).snapshots m = s.snapshots m from Function.update_of_ne hne ..]

/-- A step that touches the fields of snapshots in use only. -/
theorem InvWith.step (H : InvWith R s own) (h : Keeps s s')
    (haccepted : ∀ a ∈ s'.accepted, a ∈ s.accepted ∨ a.Ok R s')
    (hlocals : ∀ n, Local (s.view n) (own n ++ s.roles n) →
      Local (s'.view n) (next n ++ s.roles n))
    (hunused : ∀ n, s.snapshotCount ≤ n → own n = [] → s'.view n = s.view n ∧ next n = []) :
    InvWith R s' next where
  locals n := by
    rw [h.roles]
    exact hlocals n (H.locals n)
  unused n hn := by
    rw [h.snapshotCount] at hn
    obtain ⟨hview, hroles⟩ := H.unused n hn
    obtain ⟨hown, hroles⟩ := List.append_eq_nil_iff.mp hroles
    obtain ⟨hview', hnext⟩ := hunused n hn hown
    rw [hview', hnext, h.roles, hroles]
    exact ⟨hview, rfl⟩
  registry id n hget := by
    rw [h.registry] at hget
    rw [h.snapshotCount, h.id]
    exact H.registry id n hget
  registered n hn := by
    rw [h.snapshotCount] at hn
    rw [h.registered, h.closed]
    exact H.registered n hn
  accepted a ha := by
    rcases haccepted a ha with ha | ha
    · exact (H.accepted a ha).keeps h
    · exact ha
  size := h.registry ▸ H.size
  owners owner := h.ownerCount owner ▸ H.owners owner

/-- The roles of a call that is doing something with one snapshot. -/
def single (n : Nat) (role : Role α) (m : Nat) : List (Role α) := if n = m then [role] else []

@[simp] theorem single_self (n : Nat) (role : Role α) : single n role n = [role] := if_pos rfl

theorem single_of_ne (h : m ≠ n) (role : Role α) : single n role m = [] := if_neg h.symm

/-- A step of a call with one snapshot; it is going to do `more`. -/
theorem InvWith.step_with {role : Role α} {more : Nat → List (Role α)}
    (H : InvWith R s fun m => single n role m ++ more m) (h : Keeps s s')
    (hview : ∀ m, m ≠ n → s'.view m = s.view m) (hnext : ∀ m, m ≠ n → next m = [])
    (haccepted : ∀ a ∈ s'.accepted, a ∈ s.accepted ∨ a.Ok R s')
    (hlocal : ∀ ρ, Local (s.view n) (role :: ρ) → Local (s'.view n) (next n ++ ρ)) :
    InvWith R s' fun m => next m ++ more m := by
  refine H.step h haccepted (fun m hm => ?_) fun m _ hown => ?_
  · rw [List.append_assoc] at hm ⊢
    rcases Decidable.eq_or_ne m n with rfl | hne
    · rw [single_self] at hm
      exact hlocal _ hm
    · rw [single_of_ne hne] at hm
      rw [hview m hne, hnext m hne]
      exact hm
  · rcases Decidable.eq_or_ne m n with rfl | hne
    · rw [single_self] at hown
      cases hown
    · rw [single_of_ne hne] at hown
      rw [hnext m hne]
      exact ⟨hview m hne, hown⟩

theorem InvWith.step_at {role : Role α} (H : InvWith R s (single n role)) (h : Keeps s s')
    (hview : ∀ m, m ≠ n → s'.view m = s.view m) (hnext : ∀ m, m ≠ n → next m = [])
    (haccepted : ∀ a ∈ s'.accepted, a ∈ s.accepted ∨ a.Ok R s')
    (hlocal : ∀ ρ, Local (s.view n) (role :: ρ) → Local (s'.view n) (next n ++ ρ)) :
    InvWith R s' next := by
  have H' : InvWith R s fun m => single n role m ++ [] := by simpa using H
  simpa using H'.step_with h hview hnext haccepted hlocal

/-- The snapshot a call is doing something with is in use. -/
theorem InvWith.lt_of_ne (H : InvWith R s own) (h : own n ≠ []) : n < s.snapshotCount := by
  apply Nat.lt_of_not_le
  intro hn
  exact h (List.append_eq_nil_iff.mp (H.unused n hn).2).1

theorem InvWith.lt {role : Role α} (H : InvWith R s (single n role)) : n < s.snapshotCount :=
  H.lt_of_ne (by rw [single_self]; exact List.cons_ne_nil _ _)

theorem InvWith.local {role : Role α} (H : InvWith R s (single n role)) :
    Local (s.view n) (role :: s.roles n) := by
  have := H.locals n
  rwa [single_self] at this

/-- A snapshot is registered until it is closed. -/
theorem InvWith.registered_of_open {role : Role α} (H : InvWith R s (single n role))
    (h : (s.snapshots n).closeStarted = false) : s.registered n = true := by
  refine (H.registered n H.lt).mpr (Bool.eq_false_iff.mpr fun hclosed => ?_)
  exact Bool.false_ne_true (h.symm.trans (H.local.ended hclosed))

theorem InvWith.closed_of_not_registered {role : Role α} (H : InvWith R s (single n role))
    (h : ¬ s.registered n = true) : (s.snapshots n).closed = true :=
  Bool.not_eq_false _ ▸ fun hclosed => h ((H.registered n H.lt).mpr hclosed)

/-! ## What the operations keep, and what they show of a snapshot -/

theorem Keeps.refl (s : State α) : Keeps s s :=
  ⟨rfl, rfl, rfl, fun _ => rfl, fun _ => rfl, fun _ => rfl, fun _ => rfl⟩

theorem Keeps.trans {s'' : State α} (h : Keeps s s') (h' : Keeps s' s'') : Keeps s s'' where
  calls := h'.calls.trans h.calls
  registry := h'.registry.trans h.registry
  snapshotCount := h'.snapshotCount.trans h.snapshotCount
  id n := (h'.id n).trans (h.id n)
  binding n := (h'.binding n).trans (h.binding n)
  signingKey n := (h'.signingKey n).trans (h.signingKey n)
  closed n := (h'.closed n).trans (h.closed n)

theorem Keeps.of_snapshots (hcalls : s'.calls = s.calls) (hregistry : s'.registry = s.registry)
    (hcount : s'.snapshotCount = s.snapshotCount) (h : s'.snapshots = s.snapshots) : Keeps s s' :=
  ⟨hcalls, hregistry, hcount, fun _ => h ▸ rfl, fun _ => h ▸ rfl, fun _ => h ▸ rfl, fun _ => h ▸ rfl⟩

/-- An update of the fields that change. -/
structure KeepsFields (f : Snapshot → Snapshot) : Prop where
  id : ∀ snapshot, (f snapshot).id = snapshot.id
  binding : ∀ snapshot, (f snapshot).binding = snapshot.binding
  signingKey : ∀ snapshot, (f snapshot).signingKey = snapshot.signingKey
  closed : ∀ snapshot, (f snapshot).closed = snapshot.closed

theorem Keeps.map {f : Nat → Snapshot → Snapshot} (hf : ∀ n, KeepsFields (f n))
    (hcalls : s'.calls = s.calls) (hregistry : s'.registry = s.registry)
    (hcount : s'.snapshotCount = s.snapshotCount)
    (h : ∀ n, s'.snapshots n = f n (s.snapshots n)) : Keeps s s' where
  calls := hcalls
  registry := hregistry
  snapshotCount := hcount
  id n := h n ▸ (hf n).id _
  binding n := h n ▸ (hf n).binding _
  signingKey n := h n ▸ (hf n).signingKey _
  closed n := h n ▸ (hf n).closed _

theorem KeepsFields.of_eq {f : Snapshot → Snapshot}
    (h : ∀ snapshot, ((f snapshot).id, (f snapshot).binding, (f snapshot).signingKey,
      (f snapshot).closed) =
        (snapshot.id, snapshot.binding, snapshot.signingKey, snapshot.closed)) :
    KeepsFields f where
  id snapshot := congrArg Prod.fst (h snapshot)
  binding snapshot := congrArg (fun x => x.2.1) (h snapshot)
  signingKey snapshot := congrArg (fun x => x.2.2.1) (h snapshot)
  closed snapshot := congrArg (fun x => x.2.2.2) (h snapshot)

theorem Keeps.update (n : Nat) (f : Snapshot → Snapshot) (hf : KeepsFields f) :
    Keeps s (s.update n f) where
  calls := rfl
  registry := rfl
  snapshotCount := rfl
  id := update_field _ hf.id n
  binding := update_field _ hf.binding n
  signingKey := update_field _ hf.signingKey n
  closed := update_field _ hf.closed n

theorem Keeps.disarm (n : Nat) : Keeps s (s.disarm n) := .of_snapshots rfl rfl rfl rfl

theorem Keeps.arm (n : Nat) : Keeps s (s.arm R n) := .of_snapshots rfl rfl rfl rfl

theorem Keeps.serve (c n : Nat) (page : List α) : Keeps s (s.serve c n page) :=
  .of_snapshots rfl rfl rfl rfl

section
variable {f : Snapshot → Snapshot}

@[simp] theorem view_update_self : (s.update n f).view n =
    { s.view n with snapshot := f (s.snapshots n) } := by
  simp [State.view, State.update, State.served]

theorem view_update_of_ne (h : m ≠ n) : (s.update n f).view m = s.view m := by
  simp [State.view, State.update, State.served, h]

@[simp] theorem view_disarm_self : (s.disarm n).view n = { s.view n with armed := [] } := by
  simp only [State.view, State.disarm, State.served, List.filter_filter]
  simp

theorem view_disarm_of_ne (h : m ≠ n) : (s.disarm n).view m = s.view m := by
  have hfilter : ∀ timer : Timer, (decide (timer.snapshot = m) && decide (timer.snapshot ≠ n)) =
      decide (timer.snapshot = m) := by
    intro timer
    rcases Decidable.eq_or_ne timer.snapshot m with heq | hne
    · simp [heq, h]
    · simp [hne]
  simp only [State.view, State.disarm, State.served, List.filter_filter, hfilter]

@[simp] theorem served_arm : (s.arm R n).served m = s.served m := rfl

@[simp] theorem served_update : (s.update n f).served m = s.served m := rfl

@[simp] theorem snapshots_update_self : (s.update n f).snapshots n = f (s.snapshots n) :=
  Function.update_self ..

@[simp] theorem view_arm_self : (s.arm R n).view n =
    { s.view n with armed := [(s.snapshots n).lastUsed] } := by
  simp only [State.view, State.arm, State.disarm, State.served, List.filter_append,
    List.filter_filter]
  simp

theorem view_arm_of_ne (h : m ≠ n) : (s.arm R n).view m = s.view m := by
  rw [← view_disarm_of_ne (s := s) h]
  simp [State.view, State.arm, State.disarm, State.served, h.symm]

@[simp] theorem view_serve_self (page : List α) : (s.serve c n page).view n =
    { s.view n with served := s.served n ++ page } := by
  simp [State.view, State.serve, State.served]

theorem view_serve_of_ne (h : m ≠ n) (page : List α) : (s.serve c n page).view m = s.view m := by
  simp [State.view, State.serve, State.served, h.symm]

theorem Keeps.cancelAll (ns : List Nat) (cancelWaiter : Nat → Bool) :
    Keeps s (s.cancelAll ns cancelWaiter) := by
  refine Keeps.map (f := fun n snapshot =>
    if n ∈ ns then
      { snapshot with status := snapshot.status.cancel, cancelWaiter := cancelWaiter n }
    else snapshot) (fun n => ?_) rfl rfl rfl fun _ => rfl
  split <;> constructor <;> intro <;> rfl

theorem view_cancelAll_of_mem {ns : List Nat} (h : n ∈ ns) (cancelWaiter : Nat → Bool) :
    (s.cancelAll ns cancelWaiter).view n = { s.view n with snapshot := { s.snapshots n with
      status := (s.status n).cancel, cancelWaiter := cancelWaiter n } } := by
  simp [State.view, State.served, State.cancelAll, h]

theorem view_cancelAll_of_not_mem {ns : List Nat} (h : n ∉ ns) (cancelWaiter : Nat → Bool) :
    (s.cancelAll ns cancelWaiter).view n = s.view n := by
  simp [State.view, State.served, State.cancelAll, h]

end

end WebSSH.Directory
