import WebSSH.Connect.Request

/-!
# The life of a connect request

What holds of a request follows where its worker is (`Pc.kind`). The session is held by the
registry or by the one `close_session` that has taken it (`Request.holders`), so that the
reservation is released once; and a cancel and a commit exclude each other through the state of
the attempt.
-/

namespace WebSSH.Connect
open Lib Function

variable {r r' : Request} {s t : State} {i : Nat} {input : Input} {signal : Signal}

namespace Request

/-! ## What a request holds -/

/-- `create_ssh_connection` has neither reserved nor opened anything. -/
def Fresh (r : Request) : Prop :=
  r.session = .absent ∧ r.reserved = false ∧ r.released = 0 ∧ r.opened = [] ∧
    r.reader = .unstarted

/-- It holds a reservation, and there is no session yet. -/
def Held (r : Request) : Prop :=
  r.session = .absent ∧ r.reserved = true ∧ r.released = 0 ∧ r.reader = .unstarted

/-- A session was stored: it holds the reservation until it is closed. -/
def Stored (r : Request) : Prop :=
  r.session ≠ .absent ∧ r.reserved = true ∧
    if r.session = .closed then r.released = 1 ∧ r.opened = [] else r.released = 0

/-- No session was stored, and everything has been given back. -/
def Unstored (r : Request) : Prop :=
  r.session = .absent ∧ r.released = r.reserved.toNat ∧ r.opened = []

/-- `create_ssh_connection` has returned an error. -/
def Failed (r : Request) : Prop := (r.Unstored ∨ r.Stored) ∧ r.session ≠ .live

/-- The worker goes on without a session, with one it has committed to, or with one it has left
behind. -/
def Over (r : Request) : Prop :=
  (r.Unstored ∨ r.Stored) ∧ (r.session = .live → r.committed = true ∨ r.abandoned = true)

/-- A cancel and a commit exclude each other. -/
def Decided (r : Request) : Prop :=
  (r.answered = true → r.cancelEvent = true ∧
    (r.state = .cancelled ∨ r.state = .finished) ∧ r.committed = false) ∧
  (r.committed = true → r.state = .committed ∨ r.state = .finished)

end Request

/-- What the worker is about. -/
inductive Kind
  | fresh
  | held
  /-- It has stored the session, and is going to start its reader. -/
  | storing
  | stored
  /-- It closes the session it has taken. -/
  | closing
  /-- It has passed its commit and announces the session. -/
  | announcing
  | failed
  | settled
  deriving DecidableEq

def Pc.kind : Pc → Kind
  | .submit | .start | .enter | .validate | .reserve => .fresh
  | .creating _ | .cleanup _ => .held
  | .afterStore | .startReader => .storing
  | .recordHandle | .afterReader | .startup | .sendStartup | .close _ | .returned none
  | .checkSocket | .commit => .stored
  | .closing _ => .closing
  | .getSession | .record | .emitConnected => .announcing
  | .returned (some _) => .failed
  | .finish | .unregister | .ended => .settled

def Kind.Holds (r : Request) : Kind → Prop
  | .fresh => r.Fresh
  | .held => r.Held
  | .storing => r.Stored ∧ r.reader = .unstarted
  | .stored => r.Stored
  | .closing => r.Stored ∧ r.session = .taken
  | .announcing => r.Stored ∧ r.committed = true
  | .failed => r.Failed
  | .settled => r.Over

namespace Request

/-- Who has taken the session and not closed it yet. -/
def holders (r : Request) : Nat :=
  (if r.pc.kind = .closing then 1 else 0) + (if r.reader = .closing then 1 else 0) +
    r.closers.countP (·.pc = .closing)

structure Inv (r : Request) : Prop where
  holds : r.pc.kind.Holds r
  holders : r.holders = if r.session = .taken then 1 else 0
  decided : r.Decided

theorem Inv.new (config : Config) : (new config).Inv :=
  ⟨⟨rfl, rfl, rfl, rfl, rfl⟩, rfl, nofun, nofun⟩

theorem Failed.settled (h : r.Failed) : r.Over := ⟨h.1, fun hl => absurd hl h.2⟩

theorem Fresh.failed (h : r.Fresh) : r.Failed :=
  ⟨.inl ⟨h.1, by rw [h.2.2.1, h.2.1]; rfl, h.2.2.2.1⟩, by rw [h.1]; nofun⟩

theorem Stored.take (h : r.Stored) (hlive : r.session = .live) :
    Stored { r with session := .taken } := by
  obtain ⟨-, hreserved, hreleased⟩ := h
  rw [hlive] at hreleased
  exact ⟨nofun, hreserved, hreleased⟩

theorem Stored.closeTaken (h : r.Stored) (htaken : r.session = .taken) : r.closeTaken.Stored := by
  obtain ⟨-, hreserved, hreleased⟩ := h
  rw [htaken] at hreleased
  refine ⟨nofun, hreserved, ?_⟩
  simp only [Request.closeTaken, if_true, and_true]
  rw [if_neg nofun] at hreleased
  rw [hreleased]

theorem take_eq_some {t : Request} (h : r.take = some t) :
    r.session = .live ∧ t = { r with session := .taken } := by
  unfold Request.take at h
  split at h
  · cases h
    exact ⟨‹_›, rfl⟩
  · cases h

theorem take_eq_none (h : r.take = none) : r.session ≠ .live := by
  unfold Request.take at h
  split at h
  · cases h
  · assumption

/-! ## Steps of the worker -/

theorem holders_of_ne (h : r.pc.kind ≠ .closing) :
    r.holders = (if r.reader = .closing then 1 else 0) + r.closers.countP (·.pc = .closing) := by
  simp only [Request.holders, if_neg h, Nat.zero_add]

/-- A step of the worker that leaves the closing of the session to others. -/
theorem Inv.of_work (H : r.Inv) (hold : r.pc.kind ≠ .closing) (hnew : r'.pc.kind ≠ .closing)
    (hreader : r'.reader = .closing ↔ r.reader = .closing) (hclosers : r'.closers = r.closers)
    (hsession : r'.session = .taken ↔ r.session = .taken) (hholds : r'.pc.kind.Holds r')
    (hdecided : r'.Decided) : r'.Inv where
  holds := hholds
  holders := by
    have hholders := H.holders
    rw [holders_of_ne hold] at hholders
    rw [holders_of_ne hnew]
    simp only [hclosers, hreader, hsession]
    exact hholders
  decided := hdecided

/-- The worker goes on, and nothing else changes. -/
theorem Inv.goto (H : r.Inv) {pc : Pc} (hold : r.pc.kind ≠ .closing) (hnew : pc.kind ≠ .closing)
    (hpc : pc.kind.Holds (r.goto pc)) : (r.goto pc).Inv :=
  H.of_work hold hnew .rfl rfl .rfl hpc H.decided

theorem commitIfActive_eq_some {t : Request} (h : r.commitIfActive = some t) :
    r.isSet = false ∧ r.state ≠ .cancelled ∧ r.state ≠ .finished ∧
      t = { r with state := .committed } := by
  unfold Request.commitIfActive at h
  split at h
  · cases h
  · split at h
    · cases h
    · rename_i hset hstate
      cases h
      exact ⟨by simpa using hset, fun h => hstate (.inl h), fun h => hstate (.inr h), rfl⟩

/-- No cancel has been answered when a commit succeeds. -/
theorem Decided.not_answered (h : r.Decided) (hset : r.isSet = false) : r.answered = false := by
  by_contra hanswered
  obtain ⟨hevent, -⟩ := h.1 (by simpa using hanswered)
  simp [Request.isSet, hevent] at hset

theorem Inv.afterClose (H : r.Inv) (hold : r.pc.kind ≠ .closing) (hstored : r.Stored)
    (hlive : r.session ≠ .live) (after : After) : (r.afterClose after).Inv := by
  have hfailed : r.Failed := ⟨.inr hstored, hlive⟩
  cases after with
  | error message => exact H.goto hold nofun hfailed
  | undelivered => exact H.goto hold nofun hfailed
  | finish => exact H.goto hold nofun hfailed.settled

/-- The worker closes the session it has taken. -/
theorem Inv.closeTaken (H : r.Inv) {after : After} (hpc : r.pc = .closing after) :
    (r.closeTaken.afterClose after).Inv := by
  have hholds := H.holds
  rw [hpc] at hholds
  obtain ⟨hstored, htaken⟩ := hholds
  have hclosed := hstored.closeTaken htaken
  have hfailed : r.closeTaken.Failed := ⟨.inr hclosed, nofun⟩
  have hholders := H.holders
  simp only [Request.holders, hpc, Pc.kind, if_true, htaken] at hholders
  have hnone : (if r.reader = .closing then 1 else 0) +
      r.closers.countP (·.pc = .closing) = 0 := by omega
  cases after with
  | error message => exact ⟨hfailed, (holders_of_ne (by nofun)).trans hnone, H.decided⟩
  | undelivered => exact ⟨hfailed, (holders_of_ne (by nofun)).trans hnone, H.decided⟩
  | finish => exact ⟨hfailed.settled, (holders_of_ne (by nofun)).trans hnone, H.decided⟩

/-- The worker takes the session to close it. -/
theorem Inv.take (H : r.Inv) {after : After} (hpc : r.pc = .close after)
    (hlive : r.session = .live) : Inv { r with session := .taken, pc := .closing after } where
  holds := by
    have hholds := H.holds
    rw [hpc] at hholds
    exact ⟨hholds.take hlive, rfl⟩
  holders := by
    have hholders := H.holders
    rw [holders_of_ne (by rw [hpc]; nofun), hlive] at hholders
    simp only [reduceCtorEq, if_false] at hholders
    simp only [Request.holders, Pc.kind, if_true]
    omega
  decided := H.decided

/-- A commit succeeds only if no cancel was answered before. -/
theorem Decided.commit (h : r.Decided) (hset : r.isSet = false) (hstate : r'.state = .committed)
    (hanswered : r'.answered = r.answered) : r'.Decided := by
  refine ⟨fun h' => ?_, fun _ => .inl hstate⟩
  rw [hanswered, h.not_answered hset] at h'
  cases h'

theorem work_inv (H : r.Inv) (h : r.work input = some (signal, r')) : r'.Inv := by
  have hholds := H.holds
  unfold Request.work at h
  by_cases hclosing : r.pc.kind = .closing
  · cases hpc : r.pc with
    | closing after =>
      simp only [hpc] at h
      cases h
      exact H.closeTaken hpc
    | returned error => rw [hpc] at hclosing; cases error <;> cases hclosing
    | _ => rw [hpc] at hclosing; cases hclosing
  cases hpc : r.pc with
  | closing after => rw [hpc] at hclosing; exact absurd rfl hclosing
  | ended => simp only [hpc] at h; cases h
  | submit | start | enter | validate =>
    simp only [hpc] at h hholds
    split at h <;> cases h
    all_goals first
      | exact H.goto hclosing (by nofun) hholds
      | exact H.goto hclosing (by nofun) (Fresh.failed hholds)
      | exact H.goto hclosing (by nofun) (Fresh.failed hholds).settled
  | reserve =>
    simp only [hpc] at h hholds
    split at h <;> cases h
    · exact H.goto hclosing (by nofun) (Fresh.failed hholds)
    · obtain ⟨habsent, -, hreleased, -, hreader⟩ := hholds
      exact H.of_work hclosing (by nofun) .rfl rfl .rfl ⟨habsent, rfl, hreleased, hreader⟩
        H.decided
  | creating todo =>
    rw [hpc] at hholds
    cases todo with
    | nil =>
      simp only [hpc] at h
      cases h
      obtain ⟨habsent, hreserved, hreleased, hreader⟩ := hholds
      refine H.of_work hclosing (by nofun) .rfl rfl ?_ ⟨⟨nofun, hreserved, ?_⟩, hreader⟩ H.decided
      · rw [habsent]; exact ⟨nofun, nofun⟩
      · rw [if_neg nofun]; exact hreleased
    | cons stage todo =>
      simp only [hpc] at h
      cases h
      unfold runStage
      split
      · split <;> exact H.goto hclosing (by nofun) hholds
      · split
        · exact H.goto hclosing (by nofun) hholds
        · exact H.of_work hclosing (by nofun) .rfl rfl .rfl hholds H.decided
  | cleanup error =>
    simp only [hpc] at h hholds
    cases h
    obtain ⟨habsent, hreserved, hreleased, hreader⟩ := hholds
    refine H.of_work hclosing (by nofun) .rfl rfl .rfl ⟨.inl ⟨habsent, ?_, rfl⟩, ?_⟩ H.decided
    · rw [hreleased, hreserved]; rfl
    · change r.session ≠ .live
      rw [habsent]
      nofun
  | afterStore =>
    simp only [hpc] at h hholds
    cases h
    split
    · exact H.goto hclosing (by nofun) hholds.1
    · exact H.goto hclosing (by nofun) hholds
  | startReader =>
    simp only [hpc] at h hholds
    split at h <;> cases h
    · exact H.goto hclosing (by nofun) hholds.1
    · refine H.of_work hclosing (by nofun) ?_ rfl .rfl hholds.1 H.decided
      rw [hholds.2]
      exact ⟨nofun, nofun⟩
  | recordHandle =>
    simp only [hpc] at h hholds
    split at h <;> cases h <;>
      exact H.of_work hclosing (by nofun) .rfl rfl .rfl hholds H.decided
  | afterReader | sendStartup =>
    simp only [hpc] at h hholds
    cases h
    split <;> exact H.goto hclosing (by nofun) hholds
  | checkSocket =>
    simp only [hpc] at h hholds
    split at h <;> cases h
    · exact H.of_work hclosing (by nofun) .rfl rfl .rfl ⟨.inr hholds, fun _ => .inr rfl⟩ H.decided
    · split <;> exact H.goto hclosing (by nofun) hholds
  | startup =>
    simp only [hpc] at h hholds
    split at h
    · split at h <;> cases h
      · exact H.goto hclosing (by nofun) hholds
      · obtain ⟨hset, -, -, rfl⟩ := commitIfActive_eq_some ‹_›
        exact H.of_work hclosing (by nofun) .rfl rfl .rfl hholds (H.decided.commit hset rfl rfl)
    · cases h
      exact H.goto hclosing (by nofun) hholds
  | close after =>
    simp only [hpc] at h hholds
    split at h <;> cases h
    · exact H.afterClose hclosing hholds (take_eq_none ‹_›) after
    · obtain ⟨hlive, rfl⟩ := take_eq_some ‹_›
      exact H.take hpc hlive
  | returned error =>
    cases error with
    | none =>
      simp only [hpc] at h hholds
      split at h <;> cases h <;> exact H.goto hclosing (by nofun) hholds
    | some error =>
      simp only [hpc] at h hholds
      split at h <;> cases h <;> exact H.goto hclosing (by nofun) (Failed.settled hholds)
  | commit =>
    simp only [hpc] at h hholds
    split at h <;> cases h
    · exact H.goto hclosing (by nofun) hholds
    · obtain ⟨hset, -, -, rfl⟩ := commitIfActive_eq_some ‹_›
      exact H.of_work hclosing (by nofun) .rfl rfl .rfl ⟨hholds, rfl⟩
        (H.decided.commit hset rfl rfl)
  | getSession =>
    simp only [hpc] at h hholds
    split at h <;> cases h
    · exact H.goto hclosing (by nofun) hholds
    · exact H.goto hclosing (by nofun) (Failed.settled ⟨.inr hholds.1, ‹_›⟩)
  | record =>
    simp only [hpc] at h hholds
    cases h
    exact H.of_work hclosing (by nofun) .rfl rfl .rfl hholds H.decided
  | emitConnected =>
    simp only [hpc] at h hholds
    have hover : r.Over := ⟨.inr hholds.1, fun _ => .inl hholds.2⟩
    split at h <;> cases h
    · exact H.goto hclosing (by nofun) hover
    · exact H.of_work hclosing (by nofun) .rfl rfl .rfl hover H.decided
  | finish =>
    simp only [hpc] at h hholds
    cases h
    refine H.of_work hclosing (by nofun) .rfl rfl .rfl hholds ⟨fun hanswered => ?_, fun _ => .inr rfl⟩
    obtain ⟨hevent, -, hcommitted⟩ := H.decided.1 hanswered
    exact ⟨hevent, .inr rfl, hcommitted⟩
  | unregister =>
    simp only [hpc] at h hholds
    cases h
    exact H.goto hclosing (by nofun) hholds

/-! ## Steps of the reader and of other closers -/

/-- A call other than the worker takes the session, closes it, or leaves it. -/
structure Others (r r' : Request) : Prop where
  pc : r'.pc = r.pc
  reserved : r'.reserved = r.reserved
  committed : r'.committed = r.committed
  abandoned : r'.abandoned = r.abandoned
  unstarted : r.reader = .unstarted → r'.reader = .unstarted
  decided : r.Decided → r'.Decided
  session : r'.session = r.session ∧ r'.released = r.released ∧ r'.opened = r.opened ∨
    r.session = .live ∧ r'.session = .taken ∧ r'.released = r.released ∨
    r.session = .taken ∧ r'.session = .closed ∧ r'.released = r.released + 1 ∧ r'.opened = []

theorem Others.absent (h : r.Others r') (hr : r.session = .absent) :
    r'.session = .absent ∧ r'.released = r.released ∧ r'.opened = r.opened := by
  rcases h.session with ⟨hs, hrel, ho⟩ | ⟨hl, -⟩ | ⟨ht, -⟩
  · exact ⟨hs.trans hr, hrel, ho⟩
  · rw [hr] at hl; cases hl
  · rw [hr] at ht; cases ht

theorem Others.live (h : r.Others r') (hlive : r'.session = .live) : r.session = .live := by
  rcases h.session with ⟨hs, -⟩ | ⟨-, ht, -⟩ | ⟨-, hc, -⟩
  · rw [← hs]; exact hlive
  · rw [hlive] at ht; cases ht
  · rw [hlive] at hc; cases hc

theorem Others.stored (h : r.Others r') (hr : r.Stored) : r'.Stored := by
  obtain ⟨habsent, hreserved, hreleased⟩ := hr
  rcases h.session with ⟨hs, hrel, ho⟩ | ⟨hl, ht, hrel⟩ | ⟨ht, hc, hrel, ho⟩
  · refine ⟨by rw [hs]; exact habsent, h.reserved.trans hreserved, ?_⟩
    rw [hs, hrel, ho]
    exact hreleased
  · refine ⟨by rw [ht]; nofun, h.reserved.trans hreserved, ?_⟩
    rw [hl, if_neg nofun] at hreleased
    rw [ht, if_neg nofun]
    exact hrel.trans hreleased
  · refine ⟨by rw [hc]; nofun, h.reserved.trans hreserved, ?_⟩
    rw [ht, if_neg nofun] at hreleased
    rw [hc, if_pos rfl, hrel, hreleased]
    exact ⟨rfl, ho⟩

theorem Others.resources (h : r.Others r') (hr : r.Unstored ∨ r.Stored) :
    r'.Unstored ∨ r'.Stored := by
  rcases hr with ⟨habsent, hreleased, hopened⟩ | hstored
  · obtain ⟨hs, hrel, ho⟩ := h.absent habsent
    exact .inl ⟨hs, by rw [hrel, h.reserved]; exact hreleased, ho.trans hopened⟩
  · exact .inr (h.stored hstored)

/-- The worker stays where it is. While it closes the session itself, nobody else does. -/
theorem Others.holds (h : r.Others r') (hr : r.pc.kind.Holds r)
    (hclosing : r.pc.kind = .closing → r'.session = r.session) : r'.pc.kind.Holds r' := by
  rw [h.pc]
  cases hk : r.pc.kind <;> rw [hk] at hr
  case fresh =>
    obtain ⟨habsent, hreserved, hreleased, hopened, hreader⟩ := hr
    obtain ⟨hs, hrel, ho⟩ := h.absent habsent
    exact ⟨hs, h.reserved.trans hreserved, hrel.trans hreleased, ho.trans hopened,
      h.unstarted hreader⟩
  case held =>
    obtain ⟨habsent, hreserved, hreleased, hreader⟩ := hr
    obtain ⟨hs, hrel, -⟩ := h.absent habsent
    exact ⟨hs, h.reserved.trans hreserved, hrel.trans hreleased, h.unstarted hreader⟩
  case storing => exact ⟨h.stored hr.1, h.unstarted hr.2⟩
  case stored => exact h.stored hr
  case closing => exact ⟨h.stored hr.1, (hclosing hk).trans hr.2⟩
  case announcing => exact ⟨h.stored hr.1, h.committed.trans hr.2⟩
  case failed => exact ⟨h.resources hr.1, fun hl => hr.2 (h.live hl)⟩
  case settled =>
    refine ⟨h.resources hr.1, fun hl => ?_⟩
    rw [h.committed, h.abandoned]
    exact hr.2 (h.live hl)

/-- The holders among the reader and the other closers. -/
def otherHolders (r : Request) : Nat :=
  (if r.reader = .closing then 1 else 0) + r.closers.countP (·.pc = .closing)

theorem holders_eq (r : Request) :
    r.holders = (if r.pc.kind = .closing then 1 else 0) + r.otherHolders := by
  unfold Request.holders otherHolders
  omega

theorem Inv.taken (H : r.Inv) (h : 0 < r.otherHolders) :
    r.session = .taken ∧ r.pc.kind ≠ .closing ∧ r.otherHolders = 1 := by
  have hholders := H.holders
  rw [holders_eq] at hholders
  split at hholders <;> split at hholders
  · omega
  · omega
  · exact ⟨‹_›, ‹_›, by omega⟩
  · omega

theorem Inv.not_closing (H : r.Inv) (h : r.session = .live) :
    r.pc.kind ≠ .closing ∧ r.otherHolders = 0 := by
  have hholders := H.holders
  rw [holders_eq, h] at hholders
  simp only [reduceCtorEq, if_false] at hholders
  refine ⟨fun hk => ?_, by omega⟩
  rw [if_pos hk] at hholders
  omega

/-- The session is left as it is. -/
theorem Inv.same (H : r.Inv) (h : r.Others r') (hsession : r'.session = r.session)
    (hholders : r'.otherHolders = r.otherHolders) : r'.Inv where
  holds := h.holds H.holds fun _ => hsession
  holders := by rw [holders_eq, h.pc, hholders, hsession, ← holders_eq]; exact H.holders
  decided := h.decided H.decided

/-- The session is taken by another call. -/
theorem Inv.takenByOther (H : r.Inv) (h : r.Others r') (hlive : r.session = .live)
    (hsession : r'.session = .taken) (hholders : r'.otherHolders = r.otherHolders + 1) :
    r'.Inv := by
  obtain ⟨hclosing, hzero⟩ := H.not_closing hlive
  refine ⟨h.holds H.holds fun hk => absurd hk hclosing, ?_, h.decided H.decided⟩
  rw [holders_eq, h.pc, if_neg hclosing, hsession, if_pos rfl, hholders, hzero]

/-- The call that has taken the session closes it. -/
theorem Inv.closedByOther (H : r.Inv) (h : r.Others r') (hpos : 0 < r.otherHolders)
    (hsession : r'.session = .closed) (hholders : r'.otherHolders + 1 = r.otherHolders) :
    r'.Inv := by
  obtain ⟨-, hclosing, hone⟩ := H.taken hpos
  refine ⟨h.holds H.holds fun hk => absurd hk hclosing, ?_, h.decided H.decided⟩
  rw [holders_eq, h.pc, if_neg hclosing, hsession, if_neg nofun]
  omega

theorem Others.refl_of (hpc : r'.pc = r.pc) (hreserved : r'.reserved = r.reserved)
    (hcommitted : r'.committed = r.committed) (habandoned : r'.abandoned = r.abandoned)
    (hunstarted : r.reader = .unstarted → r'.reader = .unstarted)
    (hdecided : r.Decided → r'.Decided) (hsession : r'.session = r.session)
    (hreleased : r'.released = r.released) (hopened : r'.opened = r.opened) : r.Others r' :=
  ⟨hpc, hreserved, hcommitted, habandoned, hunstarted, hdecided, .inl ⟨hsession, hreleased, hopened⟩⟩

theorem read_inv (H : r.Inv) (h : r.read input = some (signal, r')) : r'.Inv := by
  unfold Request.read at h
  cases hreader : r.reader with
  | unstarted | ended => simp only [hreader] at h; cases h
  | waiting attempts =>
    simp only [hreader] at h
    split at h
    · cases h
      exact H.same (.refl_of rfl rfl rfl rfl (by rw [hreader]; nofun) id rfl rfl rfl) rfl
        (by simp [otherHolders, hreader])
    · split at h
      · cases h
        exact H.same (.refl_of rfl rfl rfl rfl (by rw [hreader]; nofun) id rfl rfl rfl) rfl
          (by simp [otherHolders, hreader])
      · split at h <;> cases h <;>
          exact H.same (.refl_of rfl rfl rfl rfl (by rw [hreader]; nofun) id rfl rfl rfl) rfl
            (by simp [otherHolders, hreader])
  | running =>
    simp only [hreader] at h
    split at h <;> cases h
    · exact H.same (.refl_of rfl rfl rfl rfl (by rw [hreader]; nofun) id rfl rfl rfl) rfl
        (by simp [otherHolders, hreader])
    · exact H
  | lookup | emitting =>
    simp only [hreader] at h
    repeat' split at h
    all_goals
      cases h
      exact H.same (.refl_of rfl rfl rfl rfl (by rw [hreader]; nofun) id rfl rfl rfl) rfl
        (by simp [otherHolders, hreader])
  | close =>
    simp only [hreader] at h
    split at h <;> cases h
    · exact H.same (.refl_of rfl rfl rfl rfl (by rw [hreader]; nofun) id rfl rfl rfl) rfl
        (by simp [otherHolders, hreader])
    · obtain ⟨hlive, rfl⟩ := take_eq_some ‹_›
      refine H.takenByOther ⟨rfl, rfl, rfl, rfl, by rw [hreader]; nofun, id, .inr (.inl ⟨hlive, rfl, rfl⟩)⟩
        hlive rfl ?_
      simp [otherHolders, hreader, Nat.add_comm]
  | closing =>
    simp only [hreader] at h
    cases h
    have hpos : 0 < r.otherHolders := by simp only [otherHolders, hreader, if_true]; omega
    have htaken := (H.taken hpos).1
    refine H.closedByOther ⟨rfl, rfl, rfl, rfl, by rw [hreader]; nofun, id,
      .inr (.inr ⟨htaken, rfl, rfl, rfl⟩)⟩ hpos rfl ?_
    simp [otherHolders, closeTaken, hreader, Nat.add_comm]

theorem otherHolders_advance {k : Nat} {closer : Closer} (hk : r.closers[k]? = some closer)
    (next : List Closer) :
    (r.advance k next).otherHolders + (if closer.pc = .closing then 1 else 0) =
      r.otherHolders + next.countP (·.pc = .closing) := by
  have hcount := Pending.countP_advance next (fun c : Closer => c.pc = .closing) hk
  simp only [decide_eq_true_eq] at hcount
  change (if r.reader = .closing then 1 else 0) +
    (r.closers.eraseIdx k ++ next).countP (·.pc = .closing) + _ =
      (if r.reader = .closing then 1 else 0) + r.closers.countP (·.pc = .closing) + _
  omega

theorem closeStep_inv (H : r.Inv) {k : Nat} (h : r.closeStep k input = some (signal, r')) :
    r'.Inv := by
  obtain ⟨closer, hk, h⟩ := Option.bind_eq_some_iff.mp h
  have hadvance := otherHolders_advance hk
  cases hpc : closer.pc with
  | updateRow =>
    simp only [hpc] at h hadvance
    cases h
    exact H.same (.refl_of rfl rfl rfl rfl id id rfl rfl rfl) rfl (hadvance [{ closer with pc := .close }])
  | close =>
    simp only [hpc] at h hadvance
    split at h <;> cases h
    · exact H.same (.refl_of rfl rfl rfl rfl id id rfl rfl rfl) rfl (hadvance [])
    · obtain ⟨hlive, rfl⟩ := take_eq_some ‹_›
      exact H.takenByOther ⟨rfl, rfl, rfl, rfl, id, id, .inr (.inl ⟨hlive, rfl, rfl⟩)⟩ hlive rfl
        (hadvance [{ closer with pc := .closing }])
  | closing =>
    simp only [hpc] at h hadvance
    cases h
    have hmem : 0 < r.closers.countP (·.pc = .closing) :=
      List.countP_pos_iff.mpr ⟨closer, List.mem_of_getElem? hk, by simp [hpc]⟩
    have hpos : 0 < r.otherHolders := by unfold otherHolders; omega
    have htaken := (H.taken hpos).1
    refine H.closedByOther ⟨rfl, rfl, rfl, rfl, id, id, .inr (.inr ⟨htaken, rfl, rfl, rfl⟩)⟩ hpos rfl ?_
    refine (hadvance _).trans ?_
    cases closer.announces <;> rfl
  | announce =>
    simp only [hpc] at h hadvance
    cases h
    exact H.same (.refl_of rfl rfl rfl rfl id id rfl rfl rfl) rfl (hadvance [])

theorem tryCancel_inv (H : r.Inv) (h : r.tryCancel = some r') : r'.Inv := by
  unfold Request.tryCancel at h
  split at h
  · cases h
  · rename_i hstate
    cases h
    refine H.same (.refl_of rfl rfl rfl rfl id (fun hd => ?_) rfl rfl rfl) rfl rfl
    have hcommitted : r.committed = false := by
      by_contra hc
      exact hstate (hd.2 (by simpa using hc))
    exact ⟨fun _ => ⟨rfl, .inl rfl, hcommitted⟩, fun hc => by rw [hcommitted] at hc; cases hc⟩

theorem forceCancel_inv (H : r.Inv) : r.forceCancel.Inv :=
  H.same (.refl_of rfl rfl rfl rfl id (fun hd => ⟨fun h => ⟨rfl, (hd.1 h).2⟩, hd.2⟩) rfl rfl rfl) rfl rfl

/-! ## What the steps keep -/

/-- What a request has come to stays, and only at the query for its socket a worker leaves its
session behind. -/
structure Later (r r' : Request) : Prop where
  config : r'.config = r.config
  answered : r.answered = true → r'.answered = true
  committed : r.committed = true → r'.committed = true
  abandoned : r'.abandoned = true → r.abandoned = true ∨ r.pc = .checkSocket ∧ r'.pc = .finish

theorem Later.refl (r : Request) : r.Later r := ⟨rfl, id, id, .inl⟩

theorem Later.afterClose (h : r.Later r') (hkept : r'.abandoned = r.abandoned) (after : After) :
    r.Later (r'.afterClose after) := by
  cases after with
  | error message => exact ⟨h.config, h.answered, h.committed, fun ha => .inl (hkept ▸ ha)⟩
  | undelivered => exact ⟨h.config, h.answered, h.committed, fun ha => .inl (hkept ▸ ha)⟩
  | finish => exact ⟨h.config, h.answered, h.committed, fun ha => .inl (hkept ▸ ha)⟩

theorem runStage_later (stage : Stage) (todo : List Stage) :
    r.Later (r.runStage stage todo input) := by
  unfold runStage abort
  split <;> split <;> exact ⟨rfl, id, id, .inl⟩

theorem work_later (h : r.work input = some (signal, r')) : r.Later r' := by
  unfold Request.work at h
  cases hpc : r.pc with
  | creating todo =>
    cases todo with
    | nil => simp only [hpc] at h; cases h; exact ⟨rfl, id, id, .inl⟩
    | cons stage todo => simp only [hpc] at h; cases h; exact runStage_later stage todo
  | startup =>
    simp only [hpc] at h
    split at h
    · split at h <;> cases h
      · exact ⟨rfl, id, id, .inl⟩
      · obtain ⟨-, -, -, rfl⟩ := commitIfActive_eq_some ‹_›
        exact ⟨rfl, id, id, .inl⟩
    · cases h; exact ⟨rfl, id, id, .inl⟩
  | close after =>
    simp only [hpc] at h
    split at h <;> cases h
    · exact (Later.refl r).afterClose rfl after
    · obtain ⟨-, rfl⟩ := take_eq_some ‹_›
      exact ⟨rfl, id, id, .inl⟩
  | closing after =>
    simp only [hpc] at h
    cases h
    have hclosed : r.Later r.closeTaken := ⟨rfl, id, id, .inl⟩
    exact hclosed.afterClose rfl after
  | commit =>
    simp only [hpc] at h
    split at h <;> cases h
    · exact ⟨rfl, id, id, .inl⟩
    · obtain ⟨-, -, -, rfl⟩ := commitIfActive_eq_some ‹_›
      exact ⟨rfl, id, fun _ => rfl, .inl⟩
  | returned error =>
    cases error <;> simp only [hpc] at h <;> split at h <;> cases h <;> exact ⟨rfl, id, id, .inl⟩
  | checkSocket =>
    simp only [hpc] at h
    split at h <;> cases h
    · exact ⟨rfl, id, id, fun _ => .inr ⟨hpc, rfl⟩⟩
    · exact ⟨rfl, id, id, .inl⟩
  | submit | validate | reserve | startReader | recordHandle | getSession | emitConnected =>
    simp only [hpc] at h
    split at h <;> cases h <;> exact ⟨rfl, id, id, .inl⟩
  | ended => simp only [hpc] at h; cases h
  | _ => simp only [hpc] at h; cases h; exact ⟨rfl, id, id, .inl⟩

theorem failure_ne (r : Request) : r.failure ≠ .connected ∧ r.failure ≠ .disconnected := by
  unfold failure
  split <;> exact ⟨nofun, nofun⟩

/-- The worker announces nothing but `ssh_connected`, and that at one place. -/
theorem work_signal (h : r.work input = some (signal, r')) :
    (signal = .connected ↔ r.pc = .emitConnected ∧ input.error = none) ∧ signal ≠ .disconnected := by
  cases hpc : r.pc with
  | emitConnected =>
    simp only [Request.work, hpc] at h
    split at h <;> rename_i herror <;> cases h
    · rw [herror]
      exact ⟨⟨fun h => absurd h r.failure_ne.1, fun h => absurd h.2 nofun⟩, r.failure_ne.2⟩
    · exact ⟨⟨fun _ => ⟨rfl, herror⟩, fun _ => rfl⟩, nofun⟩
  | checkSocket =>
    simp only [Request.work, hpc] at h
    split at h <;> cases h
    · exact ⟨⟨fun h => absurd h r.failure_ne.1, fun h => absurd h.1 nofun⟩, r.failure_ne.2⟩
    · exact ⟨⟨nofun, fun h => absurd h.1 nofun⟩, nofun⟩
  | creating todo =>
    cases todo <;> simp only [Request.work, hpc] at h <;> cases h
    all_goals exact ⟨⟨nofun, fun h => absurd h.1 nofun⟩, nofun⟩
  | returned error =>
    cases error <;> simp only [Request.work, hpc] at h <;> split at h <;> cases h
    all_goals exact ⟨⟨nofun, fun h => absurd h.1 nofun⟩, nofun⟩
  | ended => simp only [Request.work, hpc] at h; cases h
  | startup | close after | commit | submit | validate | reserve | startReader | recordHandle
  | getSession =>
    simp only [Request.work, hpc] at h
    repeat' split at h
    all_goals
      cases h
      exact ⟨⟨nofun, fun h => absurd h.1 nofun⟩, nofun⟩
  | _ =>
    simp only [Request.work, hpc] at h
    cases h
    exact ⟨⟨nofun, fun h => absurd h.1 nofun⟩, nofun⟩

/-- The worker emits `ssh_connected` for a session it has committed to. -/
theorem Inv.work_connected (H : r.Inv) (h : r.work input = some (.connected, r')) :
    r.committed = true := by
  have hholds := H.holds
  rw [((work_signal h).1.mp rfl).1] at hholds
  exact hholds.2

theorem afterClose_ne_ended (after : After) : (r.afterClose after).pc ≠ .ended := by
  cases after <;> nofun

theorem runStage_ne_ended (stage : Stage) (todo : List Stage) :
    (r.runStage stage todo input).pc ≠ .ended := by
  unfold runStage abort
  split <;> split <;> nofun

/-- The worker ends by taking its attempt out of the table. -/
theorem work_ended (h : r.work input = some (signal, r')) (hended : r'.pc = .ended) :
    r.pc = .unregister := by
  unfold Request.work at h
  cases hpc : r.pc with
  | unregister => rfl
  | creating todo =>
    cases todo with
    | nil => simp only [hpc] at h; cases h; cases hended
    | cons stage todo =>
      simp only [hpc] at h; cases h; exact absurd hended (runStage_ne_ended stage todo)
  | startup =>
    simp only [hpc] at h
    repeat' split at h
    all_goals cases h; cases hended
  | close after =>
    simp only [hpc] at h
    split at h <;> cases h
    · exact absurd hended (afterClose_ne_ended after)
    · cases hended
  | closing after =>
    simp only [hpc] at h; cases h; exact absurd hended (afterClose_ne_ended after)
  | start | enter | afterStore | afterReader | sendStartup =>
    simp only [hpc] at h
    cases h
    split at hended <;> cases hended
  | checkSocket =>
    simp only [hpc] at h
    split at h <;> cases h
    · cases hended
    · change (if _ then _ else _ : Pc) = .ended at hended
      split at hended <;> cases hended
  | returned error =>
    cases error with
    | none => simp only [hpc] at h; split at h <;> cases h <;> cases hended
    | some error =>
      simp only [hpc] at h
      split at h <;> cases h <;> cases hended
  | submit | validate | reserve | startReader | recordHandle | getSession | commit
  | emitConnected =>
    simp only [hpc] at h
    split at h <;> cases h <;> cases hended
  | ended => simp only [hpc] at h; cases h
  | _ => simp only [hpc] at h; cases h; cases hended

/-- The worker goes on elsewhere, and `ssh_connected` is not what is emitted. -/
def Aside (r : Request) (signal : Signal) (r' : Request) : Prop :=
  r.Later r' ∧ r'.pc = r.pc ∧ signal ≠ .connected

theorem read_aside (h : r.read input = some (signal, r')) : r.Aside signal r' := by
  unfold Request.read at h
  split at h
  case h_7 =>
    split at h <;> cases h
    · exact ⟨⟨rfl, id, id, .inl⟩, rfl, nofun⟩
    · obtain ⟨-, rfl⟩ := take_eq_some ‹_›
      exact ⟨⟨rfl, id, id, .inl⟩, rfl, nofun⟩
  all_goals
    repeat' split at h
    all_goals cases h
    all_goals exact ⟨⟨rfl, id, id, .inl⟩, rfl, nofun⟩

theorem closeStep_aside {k : Nat} (h : r.closeStep k input = some (signal, r')) :
    r.Aside signal r' := by
  obtain ⟨closer, -, h⟩ := Option.bind_eq_some_iff.mp h
  split at h
  case h_2 =>
    split at h <;> cases h
    · exact ⟨⟨rfl, id, id, .inl⟩, rfl, nofun⟩
    · obtain ⟨-, rfl⟩ := take_eq_some ‹_›
      exact ⟨⟨rfl, id, id, .inl⟩, rfl, nofun⟩
  all_goals
    cases h
    exact ⟨⟨rfl, id, id, .inl⟩, rfl, nofun⟩

theorem tryCancel_later (h : r.tryCancel = some r') :
    r.Later r' ∧ r'.pc = r.pc ∧ r'.answered = true := by
  unfold Request.tryCancel at h
  split at h <;> cases h
  exact ⟨⟨rfl, fun _ => rfl, id, .inl⟩, rfl, rfl⟩

/-! ## When `create_ssh_connection` has ended -/

/-- The worker is past `create_ssh_connection`, or never called it. -/
def Created (r : Request) : Prop :=
  match r.pc with
  | .returned _ | .checkSocket | .commit | .close .finish | .closing .finish | .getSession
  | .record | .emitConnected | .finish | .unregister | .ended => True
  | _ => False

/-- Either the session holds the reservation, or a `close_session` that has taken it does, or all
has been given back, the reservation once. -/
def Balanced (r : Request) : Prop :=
  match r.session with
  | .live => r.reserved = true ∧ r.released = 0
  | .taken => r.reserved = true ∧ r.released = 0 ∧ r.holders = 1
  | .absent | .closed => r.released = r.reserved.toNat ∧ r.opened = []

theorem Inv.resources (H : r.Inv) (h : r.Created) : r.Unstored ∨ r.Stored := by
  have hholds := H.holds
  unfold Created at h
  split at h
  case h_1 _ error hpc =>
    rw [hpc] at hholds
    cases error with
    | none => exact .inr hholds
    | some error => exact hholds.1
  case h_12 => cases h
  all_goals
    rename_i hpc
    rw [hpc] at hholds
    first
      | exact .inr hholds
      | exact .inr hholds.1
      | exact hholds.1

theorem Inv.balanced (H : r.Inv) (h : r.Created) : r.Balanced := by
  have hholders := H.holders
  unfold Balanced
  rcases H.resources h with ⟨hsession, hreleased⟩ | ⟨habsent, hreserved, hreleased⟩
  · rw [hsession]
    exact hreleased
  · cases hsession : r.session with
    | absent => exact absurd hsession habsent
    | live => rw [hsession] at hreleased; exact ⟨hreserved, hreleased⟩
    | taken =>
      rw [hsession] at hreleased hholders
      exact ⟨hreserved, hreleased, hholders⟩
    | closed =>
      rw [hsession, if_pos rfl] at hreleased
      rw [hreserved]
      exact hreleased

end Request

/-! ## All requests -/

variable {replies : List Reply} {reply : Reply}

/-- The answers given until now agree with the requests, and the entries of the table belong to
requests whose worker has not ended. -/
structure State.Inv (s : State) (replies : List Reply) : Prop where
  requests : ∀ (i : Nat) (r : Request), s.requests[i]? = some r → r.Inv
  entries : ∀ key (i : Nat), s.attempts key = some i →
    ∃ r : Request, s.requests[i]? = some r ∧ r.config.key = some key ∧ r.pc ≠ .ended
  answered : ∀ i : Nat, .cancelled i ∈ replies →
    ∃ r : Request, s.requests[i]? = some r ∧ r.answered = true
  connected : ∀ i : Nat, .connected i ∈ replies →
    ∃ r : Request, s.requests[i]? = some r ∧ r.committed = true

namespace State

theorem Inv.init : init.Inv [] :=
  ⟨fun _ _ h => (nomatch h), nofun, fun _ h => absurd h List.not_mem_nil,
    fun _ h => absurd h List.not_mem_nil⟩

/-- Every request goes on. -/
structure Goes (s t : State) : Prop where
  requests : ∀ (i : Nat) (r : Request), s.requests[i]? = some r →
    ∃ r', t.requests[i]? = some r' ∧ r.Later r'
  fresh : ∀ (i : Nat) (r' : Request), t.requests[i]? = some r' → s.requests[i]? = none →
    r'.abandoned = false
  inv : ∀ (i : Nat) (r : Request), t.requests[i]? = some r → r.Inv
  entries : ∀ key (i : Nat), t.attempts key = some i →
    ∃ r : Request, t.requests[i]? = some r ∧ r.config.key = some key ∧ r.pc ≠ .ended

/-- A step answers with a cancel only for a request that has its cancel, and so on. -/
theorem Inv.goes (H : s.Inv replies) (h : s.Goes t)
    (hanswered : ∀ i : Nat, reply = .cancelled i →
      ∃ r : Request, t.requests[i]? = some r ∧ r.answered = true)
    (hconnected : ∀ i : Nat, reply = .connected i →
      ∃ r : Request, t.requests[i]? = some r ∧ r.committed = true) :
    s.Goes t ∧ t.Inv (replies ++ [reply]) := by
  refine ⟨h, h.inv, h.entries, fun i hi => ?_, fun i hi => ?_⟩
  · rcases List.mem_append.mp hi with hi | hi
    · obtain ⟨r, hr, ha⟩ := H.answered i hi
      obtain ⟨r', hr', hlater⟩ := h.requests i r hr
      exact ⟨r', hr', hlater.answered ha⟩
    · exact hanswered i (List.mem_singleton.mp hi).symm
  · rcases List.mem_append.mp hi with hi | hi
    · obtain ⟨r, hr, hc⟩ := H.connected i hi
      obtain ⟨r', hr', hlater⟩ := h.requests i r hr
      exact ⟨r', hr', hlater.committed hc⟩
    · exact hconnected i (List.mem_singleton.mp hi).symm

theorem Inv.goes_refl (H : s.Inv replies) : s.Goes s :=
  ⟨fun _ r hr => ⟨r, hr, .refl r⟩, fun _ _ hr hnone => (nomatch hnone.symm.trans hr), H.requests,
    H.entries⟩

@[simp] theorem setRequest_self (hi : s.requests[i]? = some r) :
    (s.setRequest i r').requests[i]? = some r' := by
  obtain ⟨hlt, -⟩ := List.getElem?_eq_some_iff.mp hi
  exact List.getElem?_set_self hlt

theorem setRequest_of_ne {j : Nat} (h : i ≠ j) :
    (s.setRequest i r').requests[j]? = s.requests[j]? :=
  List.getElem?_set_ne h

@[simp] theorem unregister_requests {key : Option Key} :
    (s.unregister i key).requests = s.requests := by
  unfold State.unregister
  split
  · rfl
  · split <;> rfl

/-- The request `i` goes on, and no entry is added to the table. -/
theorem Inv.set (H : s.Inv replies) (hi : s.requests[i]? = some r) (hinv : r'.Inv)
    (hlater : r.Later r') {attempts : Key → Option Nat}
    (hentries : ∀ key j, attempts key = some j →
      s.attempts key = some j ∧ (j = i → r'.pc ≠ .ended)) :
    s.Goes ⟨s.requests.set i r', attempts⟩ where
  requests j x hx := by
    by_cases hij : i = j
    · subst hij
      cases hi.symm.trans hx
      exact ⟨r', setRequest_self hi, hlater⟩
    · exact ⟨x, (List.getElem?_set_ne hij).trans hx, .refl x⟩
  fresh j x hx hnone := by
    by_cases hij : i = j
    · subst hij
      cases hi.symm.trans hnone
    · cases hnone.symm.trans ((List.getElem?_set_ne hij).symm.trans hx)
  inv j x hx := by
    by_cases hij : i = j
    · subst hij
      cases (setRequest_self hi).symm.trans hx
      exact hinv
    · exact H.requests j x ((List.getElem?_set_ne hij).symm.trans hx)
  entries key j hj := by
    obtain ⟨hj, hended⟩ := hentries key j hj
    obtain ⟨x, hx, hkey, hpc⟩ := H.entries key j hj
    by_cases hij : i = j
    · subst hij
      cases hi.symm.trans hx
      exact ⟨r', setRequest_self hi, hlater.config ▸ hkey, hended rfl⟩
    · exact ⟨x, (List.getElem?_set_ne hij).trans hx, hkey, hpc⟩

/-- The request `i` goes on, and its worker does not end. -/
theorem Inv.setRequest (H : s.Inv replies) (hi : s.requests[i]? = some r) (hinv : r'.Inv)
    (hlater : r.Later r') (hended : r'.pc = .ended → r.pc = .ended) :
    s.Goes (s.setRequest i r') := by
  refine H.set hi hinv hlater fun key j hj => ⟨hj, fun hij h => ?_⟩
  subst hij
  obtain ⟨x, hx, -, hpc⟩ := H.entries key j hj
  cases hi.symm.trans hx
  exact hpc (hended h)

/-- The worker of `i` ends, and no entry of the table is left for it. -/
theorem Inv.unregister (H : s.Inv replies) (hi : s.requests[i]? = some r) (hinv : r'.Inv)
    (hlater : r.Later r') : s.Goes ((s.setRequest i r').unregister i r.config.key) := by
  have hown : ∀ key, s.attempts key = some i → r.config.key = some key := fun key hj => by
    obtain ⟨x, hx, hkey, -⟩ := H.entries key i hj
    cases hi.symm.trans hx
    exact hkey
  unfold State.unregister
  split
  case h_1 hkey =>
    refine H.set hi hinv hlater fun key j hj => ⟨hj, fun hij => ?_⟩
    subst hij
    exact absurd (hkey.symm.trans (hown key hj)) nofun
  case h_2 key hkey =>
    split
    · refine H.set hi hinv hlater fun key' j hj => ?_
      by_cases hk : key' = key
      · subst hk
        rw [update_self] at hj
        cases hj
      · rw [update_of_ne hk] at hj
        refine ⟨hj, fun hij => ?_⟩
        subst hij
        exact absurd (Option.some.inj (hkey.symm.trans (hown key' hj))).symm hk
    · rename_i hne
      refine H.set hi hinv hlater fun key' j hj => ⟨hj, fun hij => ?_⟩
      subst hij
      obtain rfl := Option.some.inj (hkey.symm.trans (hown key' hj))
      exact absurd hj hne

theorem Inv.cancelSocket (H : s.Inv replies) (socketSid : String) :
    s.Goes (s.cancelSocket socketSid) := by
  have hget : ∀ j, (s.cancelSocket socketSid).requests[j]? = s.requests[j]?.map fun r =>
      if s.ofSocket socketSid j r then r.forceCancel else r := fun j => List.getElem?_mapIdx
  refine ⟨fun j x hx => ?_, fun j x hx hnone => ?_, fun j x hx => ?_, fun key j hj => ?_⟩
  · rw [hget, hx]
    refine ⟨_, rfl, ?_⟩
    beta_reduce
    split <;> exact ⟨rfl, id, id, .inl⟩
  · rw [hget, hnone] at hx
    cases hx
  · rw [hget] at hx
    obtain ⟨r, hr, rfl⟩ := Option.map_eq_some_iff.mp hx
    have hinv := H.requests j r hr
    split
    · exact Request.forceCancel_inv hinv
    · exact hinv
  · obtain ⟨x, hx, hkey, hpc⟩ := H.entries key j hj
    rw [hget, hx]
    refine ⟨_, rfl, ?_⟩
    beta_reduce
    split <;> exact ⟨hkey, hpc⟩

/-- The entries of the table, with that of a new request. -/
theorem Inv.connect (H : s.Inv replies) {config : Config} {attempts : Key → Option Nat}
    (hentries : ∀ key j, attempts key = some j →
      s.attempts key = some j ∨ j = s.requests.length ∧ config.key = some key) :
    s.Goes ⟨s.requests ++ [Request.new config], attempts⟩ := by
  have hold : ∀ {j : Nat} {x : Request}, s.requests[j]? = some x →
      (s.requests ++ [Request.new config])[j]? = some x := fun hx =>
    (List.getElem?_append_left (List.getElem?_eq_some_iff.mp hx).1).trans hx
  refine ⟨fun j x hx => ⟨x, hold hx, .refl x⟩, fun j x hx hnone => ?_, fun j x hx => ?_,
    fun key j hj => ?_⟩
  · rw [List.getElem?_append_right (List.getElem?_eq_none_iff.mp hnone)] at hx
    rw [List.mem_singleton.mp (List.mem_of_getElem? hx)]
    rfl
  · rcases List.mem_append.mp (List.mem_of_getElem? hx) with hx | hx
    · obtain ⟨n, hn⟩ := List.mem_iff_getElem?.mp hx
      exact H.requests n x hn
    · rw [List.mem_singleton.mp hx]
      exact .new config
  · rcases hentries key j hj with hj | ⟨rfl, hkey⟩
    · obtain ⟨x, hx, hx'⟩ := H.entries key j hj
      exact ⟨x, hold hx, hx'⟩
    · exact ⟨.new config, List.getElem?_concat_length, hkey, nofun⟩

/-- A step of the request `i` alone. -/
theorem Inv.apply (H : s.Inv replies) {f : Request → Option (Signal × Request)}
    (h : s.apply i f = some (reply, t))
    (hf : ∀ r signal r', r.Inv → f r = some (signal, r') →
      r'.Inv ∧ r.Aside signal r') :
    s.Goes t ∧ t.Inv (replies ++ [reply]) := by
  obtain ⟨r, hi, h⟩ := Option.bind_eq_some_iff.mp h
  obtain ⟨⟨signal, r'⟩, hfr, h⟩ := Option.bind_eq_some_iff.mp h
  cases h
  obtain ⟨hinv, hlater, hpc, hsignal⟩ := hf r signal r' (H.requests i r hi) hfr
  refine H.goes (H.setRequest hi hinv hlater fun h => hpc ▸ h) (fun j hj => ?_) (fun j hj => ?_)
  · cases signal <;> cases hj
  · cases signal with
    | connected => exact absurd rfl hsignal
    | _ => cases hj

theorem Inv.work (H : s.Inv replies) (h : step s (.work i input) = some (reply, t)) :
    s.Goes t ∧ t.Inv (replies ++ [reply]) := by
  simp only [step] at h
  obtain ⟨r, hi, h⟩ := Option.bind_eq_some_iff.mp h
  obtain ⟨⟨signal, r'⟩, hwork, h⟩ := Option.bind_eq_some_iff.mp h
  cases h
  have hr := H.requests i r hi
  have hinv := Request.work_inv hr hwork
  have hlater := Request.work_later hwork
  refine H.goes ?_ (fun j hj => ?_) (fun j hj => ?_)
  · split
    · exact H.unregister hi hinv hlater
    · exact H.setRequest hi hinv hlater fun h => absurd (Request.work_ended hwork h) ‹_›
  · cases signal <;> cases hj
  · cases signal with
    | connected =>
      cases hj
      refine ⟨r', ?_, hlater.committed (hr.work_connected hwork)⟩
      split
      · rw [unregister_requests]
        exact setRequest_self hi
      · exact setRequest_self hi
    | _ => cases hj

end State

theorem step_goes {a : Action} (H : s.Inv replies) (h : step s a = some (reply, t)) :
    s.Goes t ∧ t.Inv (replies ++ [reply]) := by
  cases a with
  | connect config =>
    simp only [step] at h
    split at h <;> cases h
    · exact H.goes H.goes_refl (by nofun) (by nofun)
    · refine H.goes (H.connect fun key j hj => ?_) (by nofun) (by nofun)
      cases hkey : config.key with
      | none => rw [hkey] at hj; exact .inl hj
      | some key' =>
        rw [hkey] at hj
        change update s.attempts key' (some s.requests.length) key = some j at hj
        by_cases hk : key = key'
        · subst hk
          rw [update_self] at hj
          cases hj
          exact .inr ⟨rfl, rfl⟩
        · rw [update_of_ne hk] at hj
          exact .inl hj
  | cancel key =>
    simp only [step] at h
    split at h
    · cases h
      exact H.goes H.goes_refl (by nofun) (by nofun)
    · rename_i i hkey
      obtain ⟨r, hi, h⟩ := Option.bind_eq_some_iff.mp h
      split at h <;> cases h
      · exact H.goes H.goes_refl (by nofun) (by nofun)
      · rename_i r' hcancel
        obtain ⟨hlater, hpc, hanswered⟩ := Request.tryCancel_later hcancel
        refine H.goes (H.setRequest hi (Request.tryCancel_inv (H.requests i r hi) hcancel) hlater
          fun h => hpc ▸ h) (fun j hj => ?_) (by nofun)
        cases hj
        exact ⟨r', State.setRequest_self hi, hanswered⟩
  | disconnect socketSid =>
    cases h
    exact H.goes (H.cancelSocket socketSid) (by nofun) (by nofun)
  | lifecycleCancel i =>
    refine H.apply h fun r signal r' hr hf => ?_
    cases hf
    exact ⟨hr.same (.refl_of rfl rfl rfl rfl id id rfl rfl rfl) rfl rfl, ⟨rfl, id, id, .inl⟩, rfl, nofun⟩
  | work i input => exact H.work h
  | read i input =>
    refine H.apply h fun r signal r' hr hf => ?_
    exact ⟨Request.read_inv hr hf, Request.read_aside hf⟩
  | startClose i announces =>
    refine H.apply h fun r signal r' hr hf => ?_
    cases hf
    refine ⟨hr.same (.refl_of rfl rfl rfl rfl id id rfl rfl rfl) rfl ?_, ⟨rfl, id, id, .inl⟩, rfl, nofun⟩
    unfold Request.otherHolders
    rw [List.countP_append]
    cases announces <;> rfl
  | close i k input =>
    refine H.apply h fun r signal r' hr hf => ?_
    exact ⟨Request.closeStep_inv hr hf, Request.closeStep_aside hf⟩

theorem step_inv {a : Action} (H : s.Inv replies) (h : step s a = some (reply, t)) :
    t.Inv (replies ++ [reply]) :=
  (step_goes H h).2

theorem run_inv {history : List (Action × Reply)} (h : system.Run .init history s) :
    s.Inv (history.map Prod.snd) := by
  refine h.history (P := fun history s => s.Inv (history.map Prod.snd)) .init ?_
  rintro history x ⟨a, reply⟩ y hx hstep
  rw [List.map_append]
  exact step_inv hx hstep

/-! ## The life of a request -/

/-- A request whose cancel was answered is not announced and leaves no session. -/
def Cancelled (s : State) (replies : List Reply) (i : Nat) : Prop :=
  .connected i ∉ replies ∧
    ∀ r : Request, s.requests[i]? = some r → r.pc = .ended → r.session ≠ .live

/-- The query of the worker of `i` for its socket does not raise. -/
def Answers (i : Nat) (s : State) : Action → Prop
  | .work j input => j = i → ∀ r ∈ s.requests[i]?, r.pc = .checkSocket → input.error = none
  | _ => True

/-- The worker of `i` has not left its session behind. -/
def State.Kept (s : State) (i : Nat) : Prop :=
  ∀ r : Request, s.requests[i]? = some r → r.abandoned = false

theorem Request.work_ne_finish (h : r.work input = some (signal, r')) (hpc : r.pc = .checkSocket)
    (herror : input.error = none) : r'.pc ≠ .finish := by
  simp only [Request.work, hpc, herror] at h
  cases h
  change (if _ then _ else _ : Pc) ≠ .finish
  split <;> nofun

/-- A step of another request, or of another call, leaves the worker where it is. -/
theorem State.setRequest_pc {j : Nat} (hj : s.requests[j]? = some r)
    (hpc : i = j → r'.pc = r.pc) {x y : Request} (hx : s.requests[i]? = some x)
    (hy : (s.setRequest j r').requests[i]? = some y) : y.pc = x.pc := by
  by_cases hij : i = j
  · subst hij
    cases hj.symm.trans hx
    cases (setRequest_self hj).symm.trans hy
    exact hpc rfl
  · cases hx.symm.trans ((setRequest_of_ne (Ne.symm hij)).symm.trans hy)
    rfl

theorem State.apply_pc {j : Nat} {f : Request → Option (Signal × Request)}
    (h : s.apply j f = some (reply, t))
    (hf : ∀ r signal r', f r = some (signal, r') → r'.pc = r.pc) {x y : Request}
    (hx : s.requests[i]? = some x) (hy : t.requests[i]? = some y) : y.pc = x.pc := by
  obtain ⟨r, hj, h⟩ := Option.bind_eq_some_iff.mp h
  obtain ⟨⟨signal, r'⟩, hfr, h⟩ := Option.bind_eq_some_iff.mp h
  cases h
  exact setRequest_pc hj (fun _ => hf r signal r' hfr) hx hy

theorem step_pc {a : Action} (h : step s a = some (reply, t)) (ha : ∀ input, a ≠ .work i input)
    {x y : Request} (hx : s.requests[i]? = some x) (hy : t.requests[i]? = some y) :
    y.pc = x.pc := by
  cases a with
  | connect config =>
    simp only [step] at h
    split at h <;> cases h
    · cases hx.symm.trans hy
      rfl
    · cases hx.symm.trans
        ((List.getElem?_append_left (List.getElem?_eq_some_iff.mp hx).1).symm.trans hy)
      rfl
  | cancel key =>
    simp only [step] at h
    split at h
    · cases h
      cases hx.symm.trans hy
      rfl
    · obtain ⟨r, hj, h⟩ := Option.bind_eq_some_iff.mp h
      split at h <;> cases h
      · cases hx.symm.trans hy
        rfl
      · exact State.setRequest_pc hj (fun _ => (Request.tryCancel_later ‹_›).2.1) hx hy
  | disconnect socketSid =>
    cases h
    have hget : (s.cancelSocket socketSid).requests[i]? = s.requests[i]?.map fun r =>
        if s.ofSocket socketSid i r then r.forceCancel else r := List.getElem?_mapIdx
    rw [hget, hx] at hy
    cases hy
    beta_reduce
    split <;> rfl
  | lifecycleCancel j => exact State.apply_pc h (fun r signal r' hf => by cases hf; rfl) hx hy
  | work j input =>
    simp only [step] at h
    obtain ⟨r, hj, h⟩ := Option.bind_eq_some_iff.mp h
    obtain ⟨⟨signal, r'⟩, -, h⟩ := Option.bind_eq_some_iff.mp h
    cases h
    have hset : (s.setRequest j r').requests[i]? = some y := by
      split at hy
      · rwa [State.unregister_requests] at hy
      · exact hy
    exact State.setRequest_pc hj (fun hij => absurd rfl (hij ▸ ha input)) hx hset
  | read j input => exact State.apply_pc h (fun _ _ _ hf => (Request.read_aside hf).2.1) hx hy
  | startClose j announces =>
    exact State.apply_pc h (fun r signal r' hf => by cases hf; rfl) hx hy
  | close j k input =>
    exact State.apply_pc h (fun _ _ _ hf => (Request.closeStep_aside hf).2.1) hx hy

theorem State.Kept.step {a : Action} (hkept : s.Kept i) (H : s.Inv replies)
    (hanswers : Answers i s a) (h : step s a = some (reply, t)) : t.Kept i := by
  intro y hy
  have hgoes := (step_goes H h).1
  cases hx : s.requests[i]? with
  | none => exact hgoes.fresh i y hy hx
  | some x =>
    obtain ⟨z, hz, hlater⟩ := hgoes.requests i x hx
    cases hy.symm.trans hz
    by_contra habandoned
    rw [Bool.not_eq_false] at habandoned
    rcases hlater.abandoned habandoned with hold | ⟨hpc, hfinish⟩
    · exact absurd ((hkept x hx).symm.trans hold) nofun
    · by_cases ha : ∃ input, a = .work i input
      · obtain ⟨input, rfl⟩ := ha
        simp only [Connect.step] at h
        obtain ⟨r, hi, h⟩ := Option.bind_eq_some_iff.mp h
        obtain ⟨⟨signal, r'⟩, hwork, h⟩ := Option.bind_eq_some_iff.mp h
        cases hx.symm.trans hi
        cases h
        rw [if_neg (by rw [hpc]; nofun), setRequest_self hi] at hy
        cases hy
        exact Request.work_ne_finish hwork hpc (hanswers rfl x hx hpc) hfinish
      · have hsame := step_pc h (fun input heq => ha ⟨input, heq⟩) hx hy
        rw [hpc, hfinish] at hsame
        cases hsame

/-- The worker of a request whose cancel was answered does not commit. -/
theorem State.Inv.uncommitted (H : s.Inv replies) (h : .cancelled i ∈ replies)
    (hi : s.requests[i]? = some r) : r.committed = false := by
  obtain ⟨x, hx, hanswered⟩ := H.answered i h
  cases hi.symm.trans hx
  exact ((H.requests i r hi).decided.1 hanswered).2.2

theorem State.Inv.not_connected (H : s.Inv replies) (h : .cancelled i ∈ replies) :
    .connected i ∉ replies := by
  intro hconnected
  obtain ⟨r, hi, hcommitted⟩ := H.connected i hconnected
  rw [H.uncommitted h hi] at hcommitted
  cases hcommitted

theorem State.Inv.cancelled (H : s.Inv replies) (hkept : s.Kept i) (h : .cancelled i ∈ replies) :
    Cancelled s replies i := by
  refine ⟨H.not_connected h, fun r hi hended hlive => ?_⟩
  have hholds := (H.requests i r hi).holds
  rw [hended] at hholds
  rcases hholds.2 hlive with hcommitted | habandoned
  · rw [H.uncommitted h hi] at hcommitted
    cases hcommitted
  · rw [hkept r hi] at habandoned
    cases habandoned

theorem State.Inv.refused (H : s.Inv replies) {key : Key} (hkey : s.attempts key = some i)
    (hi : s.requests[i]? = some r) (h : r.committed = true ∨ r.state = .committed) :
    step s (.cancel key) = some (.refused "already_committed", s) := by
  have hstate : r.state = .committed ∨ r.state = .finished := by
    rcases h with h | h
    · exact (H.requests i r hi).decided.2 h
    · exact .inl h
  simp only [step, hkey, hi, Option.bind_eq_bind, Option.bind_some, Request.tryCancel, if_pos hstate]

theorem State.Kept.init : State.init.Kept i := fun _ h => nomatch h

theorem run_kept {history : List (Action × Reply)}
    (h : (system.restrict fun s e _ => Answers i s e.1).Run .init history s) : s.Kept i := by
  have hboth : s.Inv (history.map Prod.snd) ∧ s.Kept i := by
    refine h.history (P := fun history s => s.Inv (history.map Prod.snd) ∧ s.Kept i)
      ⟨.init, .init⟩ ?_
    rintro history x ⟨a, reply⟩ y ⟨hinv, hkept⟩ ⟨hanswers, hstep⟩
    rw [List.map_append]
    exact ⟨step_inv hinv hstep, hkept.step hinv hanswers hstep⟩
  exact hboth.2

/-- A cancel and a commit exclude each other; `create_ssh_connection` ends with a session that
holds the reservation, or with everything given back; and an ended request has no entry. What was
cancelled leaves no session where the query for its socket does not raise. -/
theorem connect_lifecycle {history : List (Action × Reply)} (h : system.Run .init history s) :
    (∀ i, .cancelled i ∈ history.map Prod.snd → .connected i ∉ history.map Prod.snd) ∧
    (∀ i, (system.restrict fun s e _ => Answers i s e.1).Run .init history s →
      .cancelled i ∈ history.map Prod.snd → Cancelled s (history.map Prod.snd) i) ∧
    (∀ key i r, s.attempts key = some i → s.requests[i]? = some r →
      r.committed = true ∨ r.state = .committed →
        step s (.cancel key) = some (.refused "already_committed", s)) ∧
    (∀ r ∈ s.requests, r.Created → r.Balanced) ∧
    (∀ r ∈ s.requests, ∀ error, r.pc = .returned error →
      if error.isSome then r.session ≠ .live else r.session ≠ .absent) ∧
    ∀ key (i : Nat) r, s.requests[i]? = some r → r.pc = .ended → s.attempts key ≠ some i := by
  have H := run_inv h
  have hmem : ∀ r ∈ s.requests, r.Inv := fun r hr => by
    obtain ⟨i, hi⟩ := List.mem_iff_getElem?.mp hr
    exact H.requests i r hi
  refine ⟨fun i => H.not_connected, fun i hrun => H.cancelled (run_kept hrun),
    fun key i r hkey hi => H.refused hkey hi, fun r hr => (hmem r hr).balanced,
    fun r hr error hpc => ?_, fun key i r hi hpc hkey => ?_⟩
  · have hholds := (hmem r hr).holds
    rw [hpc] at hholds
    cases error with
    | none => exact hholds.1
    | some error => exact hholds.2
  · obtain ⟨x, hx, -, hne⟩ := H.entries key i hkey
    cases hi.symm.trans hx
    exact hne hpc

def key : Key := ⟨"user", "socket", "request"⟩

def plain : Config := ⟨some key, false, false, false⟩

def accept : Input := ⟨none, true⟩

/-- What is called raises. -/
def fail : Input := ⟨some "Socket is closed", false⟩

instance (i : Nat) (s : State) : (a : Action) → Decidable (Answers i s a)
  | .work _ _ => inferInstanceAs (Decidable (_ → ∀ _ ∈ _, _ → _))
  | .connect _ | .cancel _ | .disconnect _ | .lifecycleCancel _ | .read _ _ | .startClose _ _
  | .close _ _ _ => inferInstanceAs (Decidable True)

/-- The worker has its session, and comes to the query for its socket. -/
def toQuery : List Action := Action.connect plain :: List.replicate 24 (Action.work 0 accept)

/-- The cancel comes before the query is answered; the worker closes the session. -/
def cancelled : List Action := toQuery ++ [.cancel key] ++ List.replicate 5 (Action.work 0 accept)

theorem connect_lifecycle_cancelled :
    ∃ history s, (system.restrict fun s e _ => Answers 0 s e.1).Run .init history s ∧
      .cancelled 0 ∈ history.map Prod.snd ∧ (∃ r ∈ s.requests, r.pc = .ended ∧ r.session = .closed) ∧
      Cancelled s (history.map Prod.snd) 0 ∧ ∀ r ∈ s.requests, r.Created → r.Balanced := by
  have hexec : (System.answerIf (Answers 0) step .init cancelled).any (fun (es, s) =>
      Reply.cancelled 0 ∈ es.map Prod.snd ∧
        ∃ r ∈ s.requests, r.pc = .ended ∧ r.session = .closed) = true := by decide
  obtain ⟨⟨history, s⟩, hrun, hcancelled⟩ := (Option.any_eq_true _ _).mp hexec
  have h : (system.restrict fun s e _ => Answers 0 s e.1).Run .init history s :=
    System.run_of_answerIf hrun
  obtain ⟨-, hcancel, -, hbalanced, -⟩ := connect_lifecycle h.of_restrict
  obtain ⟨hmem, hclosed⟩ := of_decide_eq_true hcancelled
  exact ⟨history, s, h, hmem, hclosed, hcancel 0 h hmem, hbalanced⟩

/-! ## A query that raises after a cancel -/

/-- The query raises after the cancel was answered: the worker ends, and nothing closes the
session. -/
def cancelledAtQuery : List Action :=
  toQuery ++ [.cancel key, .work 0 fail, .work 0 accept, .work 0 accept]

theorem live_after_cancel : ¬ ∀ (history : List (Action × Reply)) (s : State),
    system.Run .init history s → ∀ i, .cancelled i ∈ history.map Prod.snd →
      Cancelled s (history.map Prod.snd) i := by
  intro hall
  have hexec : (System.answer step .init cancelledAtQuery).any (fun (es, s) =>
      Reply.cancelled 0 ∈ es.map Prod.snd ∧
        s.requests[0]?.any fun r => r.pc = .ended ∧ r.session = .live) = true := by decide
  obtain ⟨⟨history, s⟩, hrun, hd⟩ := (Option.any_eq_true _ _).mp hexec
  obtain ⟨hmem, hlive⟩ := of_decide_eq_true hd
  obtain ⟨r, hr, hd⟩ := (Option.any_eq_true _ _).mp hlive
  obtain ⟨hended, hlive⟩ := of_decide_eq_true hd
  exact (hall history s (System.run_of_answer hrun) 0 hmem).2 r hr hended hlive

end WebSSH.Connect
