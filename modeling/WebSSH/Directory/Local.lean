import WebSSH.Directory.Snapshots

/-!
# One snapshot

What a snapshot, its listing and the roles the calls have for it can be together. Every step
changes the role of one call, and `Local` says what holds of the whole; the lemmas after it go
through the life of a snapshot.
-/

namespace WebSSH.Directory

/-- What a call is doing with a snapshot. -/
inductive Role (α : Type)
  | opening
  | opened (listing : Bool)
  | checkingOpened
  | readingFirst
  | activating (page : List α)
  | checking
  | reading
  | advanced (page : List α)
  | electing
  | retiring
  | queued
  | close (listing : Bool)
  | closing
  | pop
  | expiring (expectedLastUsed : Nat)
  /-- The call has looked it up. -/
  | visiting
  /-- The call waits for its `closed` event. -/
  | waiting

namespace Role

variable {α : Type}

/-- The call has reserved the snapshot and not activated it yet. -/
@[grind =] def opens : Role α → Bool
  | opening | opened _ | checkingOpened | readingFirst | activating _ => true
  | _ => false

@[grind =] def retires : Role α → Bool
  | retiring => true
  | _ => false

@[grind =] def queues : Role α → Bool
  | queued => true
  | _ => false

/-- The call holds the lock of the snapshot. -/
@[grind =] def holds : Role α → Bool
  | checking | reading | advanced _ | electing => true
  | _ => false

/-- The call has passed the checks of a continuation. -/
@[grind =] def passed : Role α → Bool
  | reading | advanced _ | electing => true
  | _ => false

@[grind =] def elects : Role α → Bool
  | electing => true
  | _ => false

/-- The call is the one that closes the listing. -/
@[grind =] def closes : Role α → Bool
  | close _ | closing | pop => true
  | _ => false

/-- The call has the listing. -/
@[grind =] def carries : Role α → Bool
  | opened true | close true => true
  | _ => false

/-- The call goes on with the stored listing. -/
@[grind =] def uses : Role α → Bool
  | checkingOpened | readingFirst | activating _ | reading | advanced _ => true
  | _ => false

/-- The call goes on with an open listing, or is about to. -/
@[grind =] def needs : Role α → Bool
  | opened true | checkingOpened | readingFirst | activating _ | reading | advanced _ => true
  | _ => false

/-- The call is to read a page. -/
@[grind =] def awaits : Role α → Bool
  | opening | opened _ | checkingOpened | readingFirst | reading => true
  | _ => false

/-- The call has not got a listing yet. -/
@[grind =] def lacks : Role α → Bool
  | opening | opened false => true
  | _ => false

/-- The page that was read and not returned. -/
@[grind =] def page : Role α → Option (List α)
  | activating page | advanced page => some page
  | _ => none

@[grind =] def waits : Role α → Bool
  | waiting => true
  | _ => false

@[grind =] def ends : Role α → Bool
  | closing => true
  | _ => false

/-- The snapshot will be closed if nothing else happens to it. -/
@[grind =] def watches (lastUsed : Nat) : Role α → Bool
  | expiring expectedLastUsed => expectedLastUsed = lastUsed
  | advanced _ => true
  | _ => false

end Role

@[grind =] def Status.isOpening : Status → Bool
  | .opening | .cancelled => true
  | .active | .closing => false

@[grind =] def Status.ending : Status → Bool
  | .cancelled | .closing => true
  | .opening | .active => false

/-- What is known of a snapshot. -/
structure View (α : Type) where
  snapshot : Snapshot
  listing : Option (Listing α)
  listed : List α
  served : List α
  /-- The `expected_last_used` of its timers. -/
  armed : List Nat
  /-- How often its `listing.close()` was called. -/
  closeCalls : Nat

variable {α : Type}

/-- What holds of a snapshot and the roles the calls have for it. -/
structure Local (v : View α) (roles : List (Role α)) : Prop where
  holders : roles.countP Role.holds = if v.snapshot.locked then 1 else 0
  closers : roles.countP Role.closes =
    if v.snapshot.closeStarted = true ∧ v.snapshot.closed = false then 1 else 0
  opener : v.snapshot.status.isOpening = true →
    roles.countP Role.opens + roles.countP Role.retires = 1
  opens : v.snapshot.status.isOpening = false → roles.countP Role.opens = 0
  queued : v.snapshot.status ≠ .closing → roles.countP Role.queues = 0
  passed : v.snapshot.status.isOpening = true ∨ v.snapshot.closeStarted = true →
    roles.countP Role.passed = 0
  started : v.snapshot.closeStarted = true →
    v.snapshot.status = .closing ∧ v.snapshot.listing = false
  ended : v.snapshot.closed = true → v.snapshot.closeStarted = true
  owed : v.snapshot.status = .closing → v.snapshot.closeStarted = false →
    0 < roles.countP Role.queues + roles.countP Role.retires + roles.countP Role.elects
  active : v.snapshot.status = .active → v.snapshot.listing = true
  waiter : v.snapshot.status = .opening ∨ v.snapshot.status = .active →
    v.snapshot.cancelWaiter = false
  waits : 0 < roles.countP Role.waits → v.snapshot.status.ending = true
  watched : v.snapshot.status = .active → v.snapshot.lastUsed ∈ v.armed ∨
    0 < roles.countP (Role.watches v.snapshot.lastUsed)
  ledger : (if v.snapshot.listing then 1 else 0) + roles.countP Role.carries + v.closeCalls =
    if v.listing.isSome then 1 else 0
  exited : ∀ l, v.listing = some l → l.Exited
  ends : 0 < v.closeCalls → roles.countP Role.ends = 0 → ∀ l, v.listing = some l → l.closed = true
  lacks : 0 < roles.countP Role.lacks → v.listing = none
  uses : 0 < roles.countP Role.uses → v.snapshot.listing = true
  needs : 0 < roles.countP Role.needs → ∃ l, v.listing = some l ∧ l.closed = false
  opened : v.snapshot.status = .active → roles.countP Role.elects = 0 →
    ∃ l, v.listing = some l ∧ l.closed = false
  pages : ∀ l page, v.listing = some l → some page ∈ roles.map Role.page →
    v.listed = v.served ++ page ++ l.rest
  idle : 0 < roles.countP Role.awaits ∨
      v.snapshot.status = .active ∧ roles.countP Role.elects = 0 →
    ∀ l, v.listing = some l → l.closed = false → (∀ p ∈ roles.map Role.page, p = none) →
    v.listed = v.served ++ l.rest
  served : v.served <+: v.listed
  unserved : 0 < roles.countP Role.opens → v.served = []
  offset : v.snapshot.status = .active → ∀ page, some page ∈ roles.map Role.page →
    v.snapshot.nextOffset = v.served.length + page.length
  offsetIdle : v.snapshot.status = .active → roles.countP Role.elects = 0 → (∀ p ∈ roles.map Role.page, p = none) →
    v.snapshot.nextOffset = v.served.length

variable {v : View α} {role : Role α} {ρ ρ' : List (Role α)} {l l' : Listing α} {page : List α}

theorem Local.perm (H : Local v ρ) (h : ρ.Perm ρ') : Local v ρ' := by
  have hcount : ∀ p : Role α → Bool, ρ'.countP p = ρ.countP p := fun p => (h.countP_eq p).symm
  have hpage : ∀ x, x ∈ ρ'.map Role.page ↔ x ∈ ρ.map Role.page :=
    fun x => (h.map Role.page).mem_iff.symm
  cases H
  constructor <;> (try simp only [hcount, hpage]) <;> assumption

/-! ## How the roles exclude each other -/

theorem passed_le (ρ : List (Role α)) :
    ρ.countP Role.elects ≤ ρ.countP Role.passed ∧ ρ.countP Role.passed ≤ ρ.countP Role.holds := by
  induction ρ with
  | nil => exact ⟨Nat.le_refl 0, Nat.le_refl 0⟩
  | cons r ρ ih => cases r <;> grind

theorem opens_le (ρ : List (Role α)) :
    ρ.countP Role.lacks ≤ ρ.countP Role.opens ∧
      ρ.countP Role.uses ≤ ρ.countP Role.needs ∧
      ρ.countP Role.needs ≤ ρ.countP Role.opens + ρ.countP Role.passed ∧
      ρ.countP Role.awaits ≤ ρ.countP Role.opens + ρ.countP Role.passed := by
  induction ρ with
  | nil => exact ⟨Nat.le_refl 0, Nat.le_refl 0, Nat.le_refl 0, Nat.le_refl 0⟩
  | cons r ρ ih => rcases r with _ | ⟨_ | _⟩ <;> grind

theorem ends_le (ρ : List (Role α)) : ρ.countP Role.ends ≤ ρ.countP Role.closes := by
  induction ρ with
  | nil => exact Nat.le_refl 0
  | cons r ρ ih => cases r <;> grind

theorem page_eq_none (h : ρ.countP Role.opens = 0) (h' : ρ.countP Role.passed = 0) :
    ∀ p ∈ ρ.map Role.page, p = none := by
  intro p hp
  obtain ⟨r, hr, rfl⟩ := List.mem_map.mp hp
  have hopens := List.countP_eq_zero.mp h r hr
  have hpassed := List.countP_eq_zero.mp h' r hr
  cases r <;> grind

/-- What the other roles are beside some role. -/
structure Others (ρ : List (Role α)) : Prop where
  opens : ρ.countP Role.opens = 0
  passed : ρ.countP Role.passed = 0
  elects : ρ.countP Role.elects = 0
  lacks : ρ.countP Role.lacks = 0
  uses : ρ.countP Role.uses = 0
  needs : ρ.countP Role.needs = 0
  awaits : ρ.countP Role.awaits = 0
  page : ∀ p ∈ ρ.map Role.page, p = none

theorem Others.of (hopens : ρ.countP Role.opens = 0) (hpassed : ρ.countP Role.passed = 0) :
    Others ρ := by
  obtain ⟨helects, -⟩ := passed_le ρ
  obtain ⟨hlacks, huses, hneeds, hawaits⟩ := opens_le ρ
  exact ⟨hopens, hpassed, by omega, by omega, by omega, by omega, by omega,
    page_eq_none hopens hpassed⟩

/-- Nobody else opens the snapshot, and no continuation goes on with it. -/
theorem Local.of_opens (H : Local v (role :: ρ)) (h : role.opens = true) :
    v.snapshot.status.isOpening = true ∧ Others ρ := by
  have hstatus : v.snapshot.status.isOpening = true := by
    by_contra hstatus
    have := H.opens (by simpa using hstatus)
    simp [h] at this
  have hone := H.opener hstatus
  have hpassed := H.passed (.inl hstatus)
  simp only [List.countP_cons, h, if_true] at hone hpassed
  exact ⟨hstatus, Others.of (by omega) (by omega)⟩

/-- No other continuation goes on with the snapshot, and nobody opens it. -/
theorem Local.of_passed (H : Local v (role :: ρ)) (h : role.passed = true) :
    v.snapshot.status.isOpening = false ∧ v.snapshot.closeStarted = false ∧ Others ρ := by
  have hnot : ¬ (v.snapshot.status.isOpening = true ∨ v.snapshot.closeStarted = true) := by
    intro hor
    have := H.passed hor
    simp [h] at this
  have hstatus : v.snapshot.status.isOpening = false := by simpa using fun h => hnot (.inl h)
  have hstarted : v.snapshot.closeStarted = false := by simpa using fun h => hnot (.inr h)
  have hholds : role.holds = true := by cases role <;> grind
  have hlocks := H.holders
  have hopens := H.opens hstatus
  have hle := (passed_le ρ).2
  simp only [List.countP_cons, hholds, if_true] at hlocks hopens
  refine ⟨hstatus, hstarted, Others.of (by omega) ?_⟩
  split at hlocks <;> omega

/-- Without the lock, and past the first page, only the watchers are left. -/
theorem Local.of_unlocked (H : Local v ρ) (hlocked : v.snapshot.locked = false)
    (hstatus : v.snapshot.status.isOpening = false) : Others ρ := by
  have hlocks := H.holders
  have hle := (passed_le ρ).2
  simp only [hlocked, Bool.false_eq_true, if_false] at hlocks
  exact Others.of (H.opens hstatus) (by omega)

/-! ## The first page -/

theorem Local.unused : Local (α := α) ⟨.unused, none, [], [], [], 0⟩ [] := by
  constructor <;> grind [Snapshot.unused]

theorem Local.reserve (c : Nat) (id requestId : String) (binding : Binding) (signingKey : Lib.Python.Bytes)
    (lastUsed : Nat) :
    Local (α := α)
      ⟨⟨c, id, binding, requestId, false, 0, signingKey, lastUsed, .opening, false, false, false, false⟩,
        none, [], [], [], 0⟩ [.opening] := by
  constructor <;> grind

theorem Role.of_opens (h : role.opens = true) : role.holds = false ∧ role.closes = false ∧
    role.retires = false ∧ role.queues = false ∧ role.passed = false ∧ role.elects = false ∧
    role.ends = false ∧ role.waits = false ∧ ∀ lastUsed, role.watches lastUsed = false := by
  cases role <;> grind

section
attribute [local simp] Role.opens Role.retires Role.queues Role.holds Role.passed Role.elects
  Role.closes Role.carries Role.uses Role.needs Role.awaits Role.lacks Role.page Role.waits
  Role.ends Role.watches Status.isOpening Status.ending List.countP_cons

/-- A page-zero call that has no page gives the snapshot up. -/
theorem Local.giveUp (H : Local v (role :: ρ)) (hopens : role.opens = true)
    (hcarries : role.carries = false) : Local v (.retiring :: ρ) := by
  obtain ⟨hstatus, hothers⟩ := H.of_opens hopens
  obtain ⟨hholds, hcloses, hretires, hqueues, hpassed, helects, hends, hwaits, hwatches⟩ :=
    Role.of_opens hopens
  have hwatches' : ∀ n, (role :: ρ).countP (Role.watches n) = ρ.countP (Role.watches n) := by
    intro n
    rw [List.countP_cons, hwatches]
    rfl
  cases hothers
  cases H
  simp [-List.countP_eq_zero, -List.countP_pos_iff] at *
  constructor <;> try simp [-List.countP_eq_zero, -List.countP_pos_iff]
  all_goals first | assumption | omega | grind

theorem Local.open (H : Local v (.opening :: ρ)) (entries : List α) (ending : Ending) :
    Local { v with listing := some (Listing.new entries ending), listed := entries }
      (.opened true :: ρ) := by
  obtain ⟨hstatus, hothers⟩ := H.of_opens rfl
  have hnone : v.listing = none := H.lacks (by simp [Role.lacks])
  have hserved : v.served = [] := H.unserved (by simp [Role.opens])
  have hexited := Listing.exited_new entries ending
  have hrest : (Listing.new entries ending).rest = entries := rfl
  have hopen : (Listing.new entries ending).closed = false := rfl
  cases hothers
  cases H
  simp [-List.countP_eq_zero, -List.countP_pos_iff] at *
  constructor <;> try simp [-List.countP_eq_zero, -List.countP_pos_iff]
  all_goals first | assumption | omega | grind

theorem Local.notOpened (H : Local v (.opening :: ρ)) : Local v (.opened false :: ρ) := by
  obtain ⟨hstatus, hothers⟩ := H.of_opens rfl
  cases hothers
  cases H
  simp [-List.countP_eq_zero, -List.countP_pos_iff] at *
  constructor <;> try simp [-List.countP_eq_zero, -List.countP_pos_iff]
  all_goals assumption

theorem Local.storeNone (H : Local v (.opened false :: ρ)) :
    Local { v with snapshot := { v.snapshot with listing := false } } (.retiring :: ρ) := by
  obtain ⟨hstatus, hothers⟩ := H.of_opens rfl
  cases hothers
  cases H
  simp [-List.countP_eq_zero, -List.countP_pos_iff] at *
  constructor <;> try simp [-List.countP_eq_zero, -List.countP_pos_iff]
  all_goals first | assumption | omega | grind

theorem Local.storeSome (H : Local v (.opened true :: ρ)) :
    Local { v with snapshot := { v.snapshot with listing := true } } (.retiring :: ρ) ∧
      Local { v with snapshot := { v.snapshot with listing := true } } (.checkingOpened :: ρ) := by
  obtain ⟨hstatus, hothers⟩ := H.of_opens rfl
  cases hothers
  cases H
  simp [-List.countP_eq_zero, -List.countP_pos_iff] at *
  constructor <;> constructor <;> try simp [-List.countP_eq_zero, -List.countP_pos_iff]
  all_goals first | assumption | omega | grind

/-- The listing is stored, and the call goes on or gives up. -/
theorem Local.store {listing : Bool} (H : Local v (.opened listing :: ρ)) :
    Local { v with snapshot := { v.snapshot with listing := listing } } (.retiring :: ρ) ∧
      (listing = true →
        Local { v with snapshot := { v.snapshot with listing := listing } }
          (.checkingOpened :: ρ)) := by
  cases listing with
  | false => exact ⟨H.storeNone, nofun⟩
  | true => exact ⟨H.storeSome.1, fun _ => H.storeSome.2⟩

theorem Local.beginFirst (H : Local v (.checkingOpened :: ρ)) : Local v (.readingFirst :: ρ) := by
  cases H
  simp [-List.countP_eq_zero, -List.countP_pos_iff] at *
  constructor <;> try simp [-List.countP_eq_zero, -List.countP_pos_iff]
  all_goals assumption

/-- The first page is not returned. -/
theorem Local.failFirst (H : Local v (.readingFirst :: ρ)) (hexited : l'.Exited) :
    Local { v with listing := some l' } (.retiring :: ρ) := by
  obtain ⟨hstatus, hothers⟩ := H.of_opens rfl
  cases hothers
  cases H
  simp [-List.countP_eq_zero, -List.countP_pos_iff] at *
  constructor <;> try simp [-List.countP_eq_zero, -List.countP_pos_iff]
  all_goals first | assumption | omega | grind

/-- The first page is the last one. -/
theorem Local.lastFirst (H : Local v (.readingFirst :: ρ)) (hl : v.listing = some l)
    (hclosed : l.closed = false) (hexited : l'.Exited) :
    Local { v with listing := some l', served := v.served ++ l.rest } (.retiring :: ρ) := by
  obtain ⟨hstatus, hothers⟩ := H.of_opens rfl
  have hpages : ∀ p ∈ (Role.readingFirst :: ρ).map Role.page, p = none := by
    simpa [Role.page] using hothers.page
  have hlisted := H.idle (.inl (by simp [Role.awaits])) l hl hclosed hpages
  cases hothers
  cases H
  simp [-List.countP_eq_zero, -List.countP_pos_iff] at *
  constructor <;> try simp [-List.countP_eq_zero, -List.countP_pos_iff]
  all_goals first | assumption | omega | grind

theorem Local.pageFirst (H : Local v (.readingFirst :: ρ)) (hl : v.listing = some l)
    (hclosed : l.closed = false) (hexited : l'.Exited) (hopen : l'.closed = false)
    (hrest : l.rest = page ++ l'.rest) :
    Local { v with listing := some l' } (.activating page :: ρ) := by
  obtain ⟨hstatus, hothers⟩ := H.of_opens rfl
  have hpages : ∀ p ∈ (Role.readingFirst :: ρ).map Role.page, p = none := by
    simpa [Role.page] using hothers.page
  have hlisted := H.idle (.inl (by simp [Role.awaits])) l hl hclosed hpages
  cases hothers
  cases H
  simp [-List.countP_eq_zero, -List.countP_pos_iff] at *
  constructor <;> try simp [-List.countP_eq_zero, -List.countP_pos_iff]
  all_goals first | assumption | omega | grind

theorem Local.activate (H : Local v (.activating page :: ρ))
    (hopening : v.snapshot.status = .opening) (now : Nat) :
    Local
      { v with
        snapshot := { v.snapshot with status := .active, nextOffset := page.length, lastUsed := now }
        served := v.served ++ page
        armed := [now] } ρ := by
  obtain ⟨hstatus, hothers⟩ := H.of_opens rfl
  obtain ⟨l, hl, hclosed⟩ := H.needs (by simp [Role.needs])
  have hlisting := H.uses (by simp [Role.uses])
  have hlisted := H.pages l page hl (by simp [Role.page])
  have hserved : v.served = [] := H.unserved (by simp [Role.opens])
  cases hothers
  cases H
  simp [-List.countP_eq_zero, -List.countP_pos_iff] at *
  constructor <;> try simp [-List.countP_eq_zero, -List.countP_pos_iff]
  all_goals first | assumption | omega | grind

/-! ## The next pages -/

theorem Local.visit (H : Local v ρ) : Local v (.visiting :: ρ) := by
  cases H
  simp [-List.countP_eq_zero, -List.countP_pos_iff] at *
  constructor <;> try simp [-List.countP_eq_zero, -List.countP_pos_iff]
  all_goals assumption

theorem Local.leave (H : Local v (.visiting :: ρ)) : Local v ρ := by
  cases H
  simp [-List.countP_eq_zero, -List.countP_pos_iff] at *
  constructor <;> try simp [-List.countP_eq_zero, -List.countP_pos_iff]
  all_goals assumption

theorem Local.lock (H : Local v (.visiting :: ρ)) (hlocked : v.snapshot.locked = false) :
    Local { v with snapshot := { v.snapshot with locked := true } } (.checking :: ρ) := by
  cases H
  simp [-List.countP_eq_zero, -List.countP_pos_iff] at *
  constructor <;> try simp [-List.countP_eq_zero, -List.countP_pos_iff]
  all_goals first | assumption | omega | grind

theorem Local.unlock (H : Local v (.checking :: ρ)) :
    Local { v with snapshot := { v.snapshot with locked := false } } ρ := by
  cases H
  simp [-List.countP_eq_zero, -List.countP_pos_iff] at *
  constructor <;> try simp [-List.countP_eq_zero, -List.countP_pos_iff]
  all_goals first | assumption | omega | grind

theorem Local.accept (H : Local v (.checking :: ρ)) (hactive : v.snapshot.status = .active) :
    Local v (.reading :: ρ) := by
  have hlocks := H.holders
  have hle := passed_le ρ
  have hopens := H.opens (by rw [hactive]; rfl)
  have hpassed : ρ.countP Role.passed = 0 := by
    simp only [List.countP_cons, Role.holds, if_true] at hlocks
    split at hlocks <;> omega
  have hothers := Others.of (by simpa [Role.opens] using hopens) hpassed
  cases hothers
  cases H
  simp [-List.countP_eq_zero, -List.countP_pos_iff] at *
  constructor <;> try simp [-List.countP_eq_zero, -List.countP_pos_iff]
  all_goals first | assumption | omega | grind

/-- What was read is not returned. -/
theorem Local.fail (H : Local v (.reading :: ρ)) (hexited : l'.Exited) :
    Local { v with listing := some l' } (.electing :: ρ) := by
  obtain ⟨hstatus, hstarted, hothers⟩ := H.of_passed rfl
  cases hothers
  cases H
  simp [-List.countP_eq_zero, -List.countP_pos_iff] at *
  constructor <;> try simp [-List.countP_eq_zero, -List.countP_pos_iff]
  all_goals first | assumption | omega | grind

theorem Local.last (H : Local v (.reading :: ρ)) (hl : v.listing = some l)
    (hclosed : l.closed = false) (hexited : l'.Exited) :
    Local { v with listing := some l', served := v.served ++ l.rest } (.electing :: ρ) := by
  obtain ⟨hstatus, hstarted, hothers⟩ := H.of_passed rfl
  have hpages : ∀ p ∈ (Role.reading :: ρ).map Role.page, p = none := by
    simpa [Role.page] using hothers.page
  have hlisted := H.idle (.inl (by simp [Role.awaits])) l hl hclosed hpages
  cases hothers
  cases H
  simp [-List.countP_eq_zero, -List.countP_pos_iff] at *
  constructor <;> try simp [-List.countP_eq_zero, -List.countP_pos_iff]
  all_goals first | assumption | omega | grind

theorem Local.advance (H : Local v (.reading :: ρ)) (hl : v.listing = some l)
    (hclosed : l.closed = false) (hexited : l'.Exited) (hopen : l'.closed = false)
    (hrest : l.rest = page ++ l'.rest) (now : Nat) :
    Local
      { v with
        snapshot := { v.snapshot with
          nextOffset := v.snapshot.nextOffset + page.length, lastUsed := now }
        listing := some l' } (.advanced page :: ρ) := by
  obtain ⟨hstatus, hstarted, hothers⟩ := H.of_passed rfl
  have hpages : ∀ p ∈ (Role.reading :: ρ).map Role.page, p = none := by
    simpa [Role.page] using hothers.page
  have hlisted := H.idle (.inl (by simp [Role.awaits])) l hl hclosed hpages
  cases hothers
  cases H
  simp [-List.countP_eq_zero, -List.countP_pos_iff] at *
  constructor <;> try simp [-List.countP_eq_zero, -List.countP_pos_iff]
  all_goals first | assumption | omega | grind

/-- The page is returned; if the snapshot is still active, its timer is armed again. -/
theorem Local.give (H : Local v (.advanced page :: ρ)) {armed : List Nat}
    (harmed : v.snapshot.status = .active → v.snapshot.lastUsed ∈ armed) :
    Local
      { v with
        snapshot := { v.snapshot with locked := false }
        served := v.served ++ page
        armed := armed } ρ := by
  obtain ⟨hstatus, hstarted, hothers⟩ := H.of_passed rfl
  obtain ⟨l, hl, hclosed⟩ := H.needs (by simp [Role.needs])
  have hlisting := H.uses (by simp [Role.uses])
  have hlisted := H.pages l page hl (by simp [Role.page])
  have hoffset := fun hactive => H.offset hactive page (by simp [Role.page])
  cases hothers
  cases H
  simp [-List.countP_eq_zero, -List.countP_pos_iff] at *
  constructor <;> try simp [-List.countP_eq_zero, -List.countP_pos_iff]
  all_goals first | assumption | omega | grind

theorem Local.elect (H : Local v (.electing :: ρ)) (cancelWaiter : Bool) :
    Local
      { v with
        snapshot := { v.snapshot with
          status := .closing, cancelWaiter := cancelWaiter, locked := false } }
      (.retiring :: ρ) := by
  obtain ⟨hstatus, hstarted, hothers⟩ := H.of_passed rfl
  cases hothers
  cases H
  simp [-List.countP_eq_zero, -List.countP_pos_iff] at *
  constructor <;> try simp [-List.countP_eq_zero, -List.countP_pos_iff]
  all_goals first | assumption | omega | grind

/-! ## Closing -/

theorem Local.retire (H : Local v (.retiring :: ρ)) :
    Local { v with snapshot := { v.snapshot with status := .closing } } (.queued :: ρ) := by
  have hopens : ρ.countP Role.opens = 0 := by
    cases hstatus : v.snapshot.status.isOpening with
    | true =>
      have := H.opener hstatus
      simp only [List.countP_cons, Role.retires, if_true] at this
      omega
    | false => simpa [Role.opens] using H.opens hstatus
  cases H
  simp [-List.countP_eq_zero, -List.countP_pos_iff] at *
  constructor <;> try simp [-List.countP_eq_zero, -List.countP_pos_iff]
  all_goals first | assumption | omega | grind

theorem Local.retired (H : Local v (.retiring :: ρ)) (hclosed : v.snapshot.closed = true) :
    Local v ρ := by
  have hstarted := H.ended hclosed
  obtain ⟨hstatus, -⟩ := H.started hstarted
  cases H
  simp [-List.countP_eq_zero, -List.countP_pos_iff] at *
  constructor <;> try simp [-List.countP_eq_zero, -List.countP_pos_iff]
  all_goals first | assumption | omega | grind

/-- A cancellation: whoever finds the snapshot active has to close it. -/
theorem Local.cancel (H : Local v ρ) (cancelWaiter : Bool) :
    Local
      { v with snapshot := { v.snapshot with
          status := v.snapshot.status.cancel, cancelWaiter := cancelWaiter } }
      (if v.snapshot.status = .active then .queued :: ρ else ρ) := by
  cases H
  cases hstatus : v.snapshot.status
  all_goals
    simp [hstatus, Status.cancel, -List.countP_eq_zero, -List.countP_pos_iff] at *
    constructor <;> try simp [-List.countP_eq_zero, -List.countP_pos_iff]
    all_goals first | assumption | omega | grind

/-- The elected closer takes the listing. -/
theorem Local.take (H : Local v (.queued :: ρ)) (hlocked : v.snapshot.locked = false)
    (hstarted : v.snapshot.closeStarted = false) :
    Local
      { v with
        snapshot := { v.snapshot with closeStarted := true, cancelWaiter := true, listing := false }
        armed := [] } (.close v.snapshot.listing :: ρ) := by
  have hclosing : v.snapshot.status = .closing := by
    by_contra hne
    have := H.queued hne
    simp [Role.queues] at this
  have hothers := H.of_unlocked hlocked (by rw [hclosing]; rfl)
  have hothers := Others.of (by simpa [Role.opens] using hothers.opens)
    (by simpa [Role.passed] using hothers.passed)
  have hends := ends_le ρ
  cases hothers
  cases H
  simp [-List.countP_eq_zero, -List.countP_pos_iff] at *
  constructor <;> try simp [-List.countP_eq_zero, -List.countP_pos_iff]
  all_goals first | assumption | omega | grind

theorem Local.taken (H : Local v (.queued :: ρ)) (hstarted : v.snapshot.closeStarted = true) :
    Local v ρ := by
  cases H
  simp [-List.countP_eq_zero, -List.countP_pos_iff] at *
  constructor <;> try simp [-List.countP_eq_zero, -List.countP_pos_iff]
  all_goals first | assumption | omega | grind

theorem Local.closeNone (H : Local v (.close false :: ρ)) : Local v (.pop :: ρ) := by
  cases H
  simp [-List.countP_eq_zero, -List.countP_pos_iff] at *
  constructor <;> try simp [-List.countP_eq_zero, -List.countP_pos_iff]
  all_goals assumption

theorem Local.beginClose (H : Local v (.close true :: ρ)) :
    Local { v with closeCalls := v.closeCalls + 1 } (.closing :: ρ) := by
  cases H
  simp [-List.countP_eq_zero, -List.countP_pos_iff] at *
  constructor <;> try simp [-List.countP_eq_zero, -List.countP_pos_iff]
  all_goals first | assumption | omega

/-- Nobody else is closing the snapshot. -/
theorem Local.of_closes (H : Local v (role :: ρ)) (h : role.closes = true) :
    v.snapshot.closeStarted = true ∧ v.snapshot.closed = false ∧ ρ.countP Role.closes = 0 ∧
      Others ρ := by
  have hone := H.closers
  simp only [List.countP_cons, h, if_true] at hone
  split at hone
  · rename_i hboth
    obtain ⟨hstatus, -⟩ := H.started hboth.1
    have hopens := H.opens (by rw [hstatus]; rfl)
    have hpassed := H.passed (.inr hboth.1)
    simp only [List.countP_cons] at hopens hpassed
    exact ⟨hboth.1, hboth.2, by omega, Others.of (by omega) (by omega)⟩
  · omega

theorem Local.endClose (H : Local v (.closing :: ρ)) :
    Local { v with listing := v.listing.map Listing.close } (.pop :: ρ) := by
  obtain ⟨hstarted, hclosed, hcloses, hothers⟩ := H.of_closes rfl
  obtain ⟨hstatus, hlisting⟩ := H.started hstarted
  have hends := ends_le ρ
  have hexited := fun l hl => (H.exited l hl).close
  have hclosedClose := Listing.closed_close (α := α)
  cases hothers
  cases H
  cases hl : v.listing
  all_goals
    simp [hl, -List.countP_eq_zero, -List.countP_pos_iff] at *
    constructor <;> try simp [-List.countP_eq_zero, -List.countP_pos_iff]
    all_goals first | assumption | omega | grind

theorem Local.pop (H : Local v (.pop :: ρ)) :
    Local { v with snapshot := { v.snapshot with closed := true } } ρ := by
  obtain ⟨hstarted, hclosed, hcloses, hothers⟩ := H.of_closes rfl
  cases H
  simp [-List.countP_eq_zero, -List.countP_pos_iff] at *
  constructor <;> try simp [-List.countP_eq_zero, -List.countP_pos_iff]
  all_goals assumption

/-! ## Waiting -/

theorem Local.wait (H : Local v ρ) (hending : v.snapshot.status.ending = true) :
    Local v (.waiting :: ρ) := by
  cases H
  simp [-List.countP_eq_zero, -List.countP_pos_iff] at *
  constructor <;> try simp [-List.countP_eq_zero, -List.countP_pos_iff]
  all_goals assumption

theorem Local.waits_replicate (H : Local v ρ) (hending : v.snapshot.status.ending = true) (k : Nat) :
    Local v (List.replicate k Role.waiting ++ ρ) := by
  induction k with
  | zero => exact H
  | succ k ih => exact ih.wait hending

theorem Local.waited (H : Local v (.waiting :: ρ)) : Local v ρ := by
  cases H
  simp [-List.countP_eq_zero, -List.countP_pos_iff] at *
  constructor <;> try simp [-List.countP_eq_zero, -List.countP_pos_iff]
  all_goals first | assumption | omega | grind

/-- The call does nothing that ends in the closing of the snapshot. -/
def Role.quiet (role : Role α) : Bool :=
  !role.opens && !role.retires && !role.queues && !role.elects && !role.closes

/-- Somebody is closing the snapshot until it is closed, unless it is active. -/
theorem Local.closed_of_quiet (H : Local v ρ) (hactive : v.snapshot.status ≠ .active)
    (h : ∀ role ∈ ρ, role.quiet = true) :
    v.snapshot.closed = true ∧ v.snapshot.listing = false := by
  have hzero : ∀ p : Role α → Bool, (∀ role : Role α, p role = true → role.quiet = false) →
      ρ.countP p = 0 := by
    intro p hp
    refine List.countP_eq_zero.mpr fun role hrole hrolep => ?_
    have hquiet := h role hrole
    rw [hp role hrolep] at hquiet
    cases hquiet
  have hopens := hzero Role.opens fun role h => by
    simp only [Role.quiet, h, Bool.not_true, Bool.false_and]
  have hretires := hzero Role.retires fun role h => by
    simp only [Role.quiet, h, Bool.not_true, Bool.false_and, Bool.and_false]
  have hqueues := hzero Role.queues fun role h => by
    simp only [Role.quiet, h, Bool.not_true, Bool.false_and, Bool.and_false]
  have helects := hzero Role.elects fun role h => by
    simp only [Role.quiet, h, Bool.not_true, Bool.false_and, Bool.and_false]
  have hcloses := hzero Role.closes fun role h => by
    simp only [Role.quiet, h, Bool.not_true, Bool.and_false]
  have hclosing : v.snapshot.status = .closing := by
    have hopener := H.opener
    cases hs : v.snapshot.status with
    | closing => rfl
    | active => exact absurd hs hactive
    | opening | cancelled =>
      have := hopener (by rw [hs]; rfl)
      omega
  have hstarted : v.snapshot.closeStarted = true := by
    by_contra hnot
    have := H.owed hclosing (by simpa using hnot)
    omega
  refine ⟨?_, (H.started hstarted).2⟩
  by_contra hnot
  have hone := H.closers
  rw [if_pos ⟨hstarted, by simpa using hnot⟩] at hone
  omega

/-! ## Timers -/

theorem Local.fire (H : Local v ρ) {expectedLastUsed : Nat} {armed : List Nat}
    (h : ∀ lastUsed ∈ v.armed, lastUsed ∈ armed ∨ lastUsed = expectedLastUsed) :
    Local { v with armed := armed } (.expiring expectedLastUsed :: ρ) := by
  cases H
  simp [-List.countP_eq_zero, -List.countP_pos_iff] at *
  constructor <;> try simp [-List.countP_eq_zero, -List.countP_pos_iff]
  all_goals first | assumption | omega | grind

/-- A timer that comes too late. -/
theorem Local.late {expectedLastUsed : Nat} (H : Local v (.expiring expectedLastUsed :: ρ))
    (h : v.snapshot.closed = true ∨ v.snapshot.lastUsed ≠ expectedLastUsed ∨
      v.snapshot.status ≠ .active) : Local v ρ := by
  have hclosed := H.ended
  have hstarted := H.started
  cases H
  simp [-List.countP_eq_zero, -List.countP_pos_iff] at *
  constructor <;> try simp [-List.countP_eq_zero, -List.countP_pos_iff]
  all_goals first | assumption | omega | grind

theorem Local.expire {expectedLastUsed : Nat} (H : Local v (.expiring expectedLastUsed :: ρ))
    (hactive : v.snapshot.status = .active) :
    Local { v with snapshot := { v.snapshot with status := .closing } } (.queued :: ρ) := by
  cases H
  simp [-List.countP_eq_zero, -List.countP_pos_iff] at *
  constructor <;> try simp [-List.countP_eq_zero, -List.countP_pos_iff]
  all_goals first | assumption | omega | grind

end
end WebSSH.Directory
