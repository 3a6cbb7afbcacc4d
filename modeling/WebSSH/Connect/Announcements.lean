import Mathlib
import WebSSH.Connect.Lifecycle
import WebSSH.Lib.History

/-!
# The announcements of a session

The worker announces a session with `ssh_connected` after it has recorded the row that the reader
polls for; the reader, or an explicit disconnect, announces its end. The two agree as long as no
end is announced while the worker is on its way to the announcement, and the `finally` of the reader
finds the row of a session that is announced and does not raise (`Clear`).
-/

namespace WebSSH.Connect
open Lib

variable {r r' : Request} {s t : State} {i : Nat} {input : Input} {signal : Signal}
  {reply : Reply} {replies : List Reply}

/-- The reader is past the announcement of its `finally`. -/
def Reader.Past : Reader → Prop
  | .close | .closing | .ended => True
  | _ => False

namespace Request

/-- The worker has found its session and is going to announce it. -/
def Announcing (r : Request) : Prop := r.pc = .record ∨ r.pc = .emitConnected

instance : Decidable r.Announcing := inferInstanceAs (Decidable (_ ∨ _))

/-- A `close_session` has taken the session. -/
def Gone (r : Request) : Prop := r.session = .taken ∨ r.session = .closed

/-- The end is announced only when the worker has announced the session, or never will. -/
structure Told (r : Request) : Prop where
  settled : r.connected = true → r.pc.kind = .settled
  row : r.row = true → r.pc = .emitConnected ∨ r.pc.kind = .settled
  emitting : r.reader = .emitting → r.pc = .emitConnected ∨ r.pc.kind = .settled
  closers : ∀ c ∈ r.closers, c.pc = .announce → r.session = .closed
  disconnected : r.disconnected = true → r.pc.kind = .settled ∨ r.Gone ∧ ¬ r.Announcing
  past : r.reader.Past → r.disconnected = true ∨ r.explicitlyClosed = true ∨
    r.silent = true ∧ r.connected = false ∧ ¬ r.Announcing

theorem Told.new (config : Config) : (new config).Told :=
  ⟨nofun, nofun, nofun, fun _ h => absurd h List.not_mem_nil, nofun, nofun⟩

/-! ## Steps of the worker -/

/-- What the announcements depend on besides the worker and the session. -/
def news (r : Request) : List Closer × Bool × Bool × Bool × Bool × Bool :=
  (r.closers, r.connected, r.disconnected, r.silent, r.row, r.explicitlyClosed)

/-- What a step of the worker can do. -/
structure Works (r : Request) (signal : Signal) (r' : Request) : Prop where
  closers : r'.closers = r.closers
  disconnected : r'.disconnected = r.disconnected
  silent : r'.silent = r.silent
  explicitlyClosed : r'.explicitlyClosed = r.explicitlyClosed
  reader : r'.reader = r.reader ∨ r'.reader = .waiting 0
  gone : r.Gone → r'.Gone
  closed : r.session = .closed → r'.session = .closed
  connected : r'.connected = true ↔ r.connected = true ∨ signal = .connected
  announces : signal = .connected → r.pc = .emitConnected
  row : r'.row = r.row ∨ r'.pc = .emitConnected
  settled : r.pc.kind = .settled ∨ r.pc = .emitConnected → r'.pc.kind = .settled
  record : r'.pc = .record → r.pc = .getSession ∧ r.session = .live
  emit : r'.pc = .emitConnected → r.pc = .record

/-- The news are left as they are. -/
theorem Works.of_news (hnews : r'.news = r.news)
    (hreader : r'.reader = r.reader ∨ r'.reader = .waiting 0)
    (hgone : r.Gone → r'.Gone) (hclosed : r.session = .closed → r'.session = .closed)
    (hsettled : r.pc.kind = .settled ∨ r.pc = .emitConnected → r'.pc.kind = .settled)
    (hrecord : r'.pc ≠ .record) (hemit : r'.pc ≠ .emitConnected) (hsignal : signal ≠ .connected) :
    r.Works signal r' where
  closers := congrArg (fun n => n.1) hnews
  disconnected := congrArg (fun n => n.2.2.1) hnews
  silent := congrArg (fun n => n.2.2.2.1) hnews
  explicitlyClosed := congrArg (fun n => n.2.2.2.2.2) hnews
  reader := hreader
  gone := hgone
  closed := hclosed
  connected := by
    rw [or_iff_left hsignal, show r'.connected = r.connected from congrArg (fun n => n.2.1) hnews]
  announces h := absurd h hsignal
  row := .inl (congrArg (fun n => n.2.2.2.2.1) hnews)
  settled := hsettled
  record h := absurd h hrecord
  emit h := absurd h hemit

/-- The worker goes on, and nothing else changes. -/
theorem Works.goto {pc : Pc}
    (hsettled : r.pc.kind = .settled ∨ r.pc = .emitConnected → pc.kind = .settled)
    (hrecord : pc ≠ .record) (hemit : pc ≠ .emitConnected) (hsignal : signal ≠ .connected) :
    r.Works signal (r.goto pc) :=
  .of_news rfl (.inl rfl) id id hsettled hrecord hemit hsignal

theorem Works.afterClose (hold : ¬ (r.pc.kind = .settled ∨ r.pc = .emitConnected))
    (after : After) : r.Works .none (r.afterClose after) := by
  cases after <;> exact .goto (fun h => absurd h hold) nofun nofun nofun

theorem Inv.absent (H : r.Inv) {todo : List Stage} (hpc : r.pc = .creating todo) :
    r.session = .absent := by
  have hholds := H.holds
  rw [hpc] at hholds
  exact hholds.1

theorem runStage_works {stage : Stage} {todo : List Stage} (hpc : r.pc = .creating (stage :: todo)) :
    r.Works .none (r.runStage stage todo input) := by
  unfold runStage abort
  split <;> split
  all_goals
    exact .of_news rfl (.inl rfl) id id (by rw [hpc]; nofun) nofun nofun nofun

theorem work_works (H : r.Inv) (h : r.work input = some (signal, r')) : r.Works signal r' := by
  unfold Request.work at h
  cases hpc : r.pc with
  | creating todo =>
    cases todo with
    | nil =>
      simp only [hpc] at h
      cases h
      have habsent := H.absent hpc
      refine .of_news rfl (.inl rfl) (fun hg => ?_) (fun hc => ?_) (by rw [hpc]; nofun) nofun nofun nofun
      · unfold Gone at hg
        rw [habsent] at hg
        rcases hg with hg | hg <;> cases hg
      · rw [habsent] at hc
        cases hc
    | cons stage todo =>
      simp only [hpc] at h
      cases h
      exact runStage_works hpc
  | startup =>
    simp only [hpc] at h
    split at h
    · split at h <;> cases h
      · exact .goto (by rw [hpc]; nofun) nofun nofun nofun
      · obtain ⟨-, -, -, rfl⟩ := commitIfActive_eq_some ‹_›
        exact .of_news rfl (.inl rfl) id id (by rw [hpc]; nofun) nofun nofun nofun
    · cases h
      exact .goto (by rw [hpc]; nofun) nofun nofun nofun
  | close after =>
    simp only [hpc] at h
    split at h <;> cases h
    · exact .afterClose (by rw [hpc]; nofun) after
    · obtain ⟨hlive, rfl⟩ := take_eq_some ‹_›
      refine .of_news rfl (.inl rfl) (fun _ => .inl rfl) (fun hc => ?_) (by rw [hpc]; nofun) nofun nofun nofun
      rw [hlive] at hc
      cases hc
  | closing after =>
    simp only [hpc] at h
    cases h
    cases after <;>
      exact .of_news rfl (.inl rfl) (fun _ => .inr rfl) (fun _ => rfl) (by rw [hpc]; nofun) nofun
        nofun nofun
  | commit =>
    simp only [hpc] at h
    split at h <;> cases h
    · exact .goto (by rw [hpc]; nofun) nofun nofun nofun
    · obtain ⟨-, -, -, rfl⟩ := commitIfActive_eq_some ‹_›
      exact .of_news rfl (.inl rfl) id id (by rw [hpc]; nofun) nofun nofun nofun
  | returned error =>
    cases error <;> simp only [hpc] at h <;> split at h <;> cases h
    all_goals exact .goto (by rw [hpc]; nofun) nofun nofun nofun
  | startReader =>
    simp only [hpc] at h
    split at h <;> cases h
    · exact .goto (by rw [hpc]; nofun) nofun nofun nofun
    · exact .of_news rfl (.inr rfl) id id (by rw [hpc]; nofun) nofun nofun nofun
  | getSession =>
    simp only [hpc] at h
    split at h <;> cases h
    · exact {
        closers := rfl
        disconnected := rfl
        silent := rfl
        explicitlyClosed := rfl
        reader := .inl rfl
        gone := id
        closed := id
        connected := (or_iff_left nofun).symm
        announces := nofun
        row := .inl rfl
        settled := by rw [hpc]; nofun
        record := fun _ => ⟨hpc, ‹_›⟩
        emit := nofun }
    · exact .goto (by rw [hpc]; nofun) nofun nofun nofun
  | record =>
    simp only [hpc] at h
    cases h
    exact {
      closers := rfl
      disconnected := rfl
      silent := rfl
      explicitlyClosed := rfl
      reader := .inl rfl
      gone := id
      closed := id
      connected := (or_iff_left nofun).symm
      announces := nofun
      row := .inr rfl
      settled := by rw [hpc]; nofun
      record := nofun
      emit := fun _ => hpc }
  | emitConnected =>
    simp only [hpc] at h
    split at h <;> cases h
    · exact .goto (fun _ => rfl) nofun nofun r.failure_ne.1
    · exact {
        closers := rfl
        disconnected := rfl
        silent := rfl
        explicitlyClosed := rfl
        reader := .inl rfl
        gone := id
        closed := id
        connected := ⟨fun _ => .inr rfl, fun _ => rfl⟩
        announces := fun _ => hpc
        row := .inl rfl
        settled := fun _ => rfl
        record := nofun
        emit := nofun }
  | submit | validate | reserve | recordHandle =>
    simp only [hpc] at h
    split at h <;> cases h
    all_goals
      exact .of_news rfl (.inl rfl) id id (by rw [hpc]; nofun) nofun nofun nofun
  | checkSocket =>
    simp only [hpc] at h
    split at h <;> cases h
    · exact .of_news rfl (.inl rfl) id id (by rw [hpc]; nofun) nofun nofun r.failure_ne.1
    · split <;> exact .goto (by rw [hpc]; nofun) nofun nofun nofun
  | start | enter | afterStore | afterReader | sendStartup =>
    simp only [hpc] at h
    cases h
    split <;> exact .goto (by rw [hpc]; nofun) nofun nofun nofun
  | cleanup error =>
    simp only [hpc] at h
    cases h
    exact .of_news rfl (.inl rfl) id id (by rw [hpc]; nofun) nofun nofun nofun
  | finish | unregister =>
    simp only [hpc] at h
    cases h
    exact .of_news rfl (.inl rfl) id id (fun _ => rfl) nofun nofun nofun
  | ended => simp only [hpc] at h; cases h

/-! ## The condition -/

/-- The worker finds its session, and the reader has not ended its search for the row. -/
def WorkClear (r : Request) : Prop :=
  r.pc = .getSession → r.session = .live → r.silent = false

/-- The `finally` of the reader misses the row, or its query, commit or `emit` raises. -/
def Silenced (r : Request) (input : Input) : Prop :=
  r.reader = .lookup ∧ (r.row = false ∨ input.error.isSome) ∨
    r.reader = .emitting ∧ input.error.isSome

instance : Decidable (r.Silenced input) := inferInstanceAs (Decidable (_ ∨ _))

/-- The `finally` of the reader is silent only about a session that is not announced, or that an
explicit disconnect has taken; and it announces the end at no time between the record and the
announcement. -/
def ReadClear (r : Request) (input : Input) : Prop :=
  (r.Silenced input → ¬ r.Announcing ∧ (r.connected = true → r.explicitlyClosed = true)) ∧
  (r.reader = .emitting → ¬ r.Announcing)

/-- An explicit disconnect announces the end at no time between the worker's look at the registry
and its announcement. -/
def CloseClear (r : Request) (k : Nat) : Prop :=
  ∀ c ∈ r.closers[k]?, c.pc = .announce → ¬ r.Announcing

instance : Decidable r.WorkClear := inferInstanceAs (Decidable (_ → _ → _))

instance : Decidable (r.ReadClear input) := inferInstanceAs (Decidable (_ ∧ _))

instance (k : Nat) : Decidable (r.CloseClear k) := inferInstanceAs (Decidable (∀ _ ∈ _, _))

theorem Told.work (H : r.Told) (hclear : r.WorkClear) (h : r.Works signal r') : r'.Told where
  settled hc := by
    rcases h.connected.mp hc with hc | hsignal
    · exact h.settled (.inl (H.settled hc))
    · exact h.settled (.inr (h.announces hsignal))
  row hrow := by
    rcases h.row with heq | hpc
    · exact .inr (h.settled (H.row (heq ▸ hrow)).symm)
    · exact .inl hpc
  emitting hreader := by
    rcases h.reader with heq | heq
    · exact .inr (h.settled (H.emitting (heq ▸ hreader)).symm)
    · rw [heq] at hreader
      cases hreader
  closers c hc hpc := h.closed (H.closers c (h.closers ▸ hc) hpc)
  disconnected hd := by
    rcases H.disconnected (h.disconnected ▸ hd) with hsettled | ⟨hgone, hnot⟩
    · exact .inl (h.settled (.inl hsettled))
    · refine .inr ⟨h.gone hgone, fun hann => ?_⟩
      rcases hann with hpc | hpc
      · obtain ⟨-, hlive⟩ := h.record hpc
        unfold Gone at hgone
        rw [hlive] at hgone
        rcases hgone with hg | hg <;> cases hg
      · exact hnot (.inl (h.emit hpc))
  past hpast := by
    have hold : r.reader.Past := by
      rcases h.reader with heq | heq
      · exact heq ▸ hpast
      · rw [heq] at hpast
        exact hpast.elim
    rcases H.past hold with hd | he | ⟨hsilent, hconnected, hnot⟩
    · exact .inl (h.disconnected.trans hd)
    · exact .inr (.inl (h.explicitlyClosed.trans he))
    · refine .inr (.inr ⟨h.silent.trans hsilent, ?_, fun hann => ?_⟩)
      · by_contra hc
        rcases h.connected.mp ((Bool.not_eq_false _).mp hc) with hc | hsignal
        · rw [hconnected] at hc
          cases hc
        · exact hnot (.inr (h.announces hsignal))
      · rcases hann with hpc | hpc
        · obtain ⟨hget, hlive⟩ := h.record hpc
          exact absurd ((hclear hget hlive).symm.trans hsilent) nofun
        · exact hnot (.inl (h.emit hpc))

/-- The reader goes on, and has not come to its end. -/
theorem Told.reader (H : r.Told) {reader : Reader} (hemitting : reader ≠ .emitting)
    (hpast : ¬ reader.Past) : Told { r with reader } where
  settled := H.settled
  row := H.row
  emitting h := absurd h hemitting
  closers := H.closers
  disconnected := H.disconnected
  past h := absurd h hpast

/-- A live session is taken; no end of it was announced by an explicit disconnect. -/
theorem Told.take (H : r.Told) (hlive : r.session = .live) :
    Told { r with session := .taken } where
  settled := H.settled
  row := H.row
  emitting := H.emitting
  closers c hc hpc := by
    have hclosed := H.closers c hc hpc
    rw [hlive] at hclosed
    cases hclosed
  disconnected hd := (H.disconnected hd).imp id fun h => ⟨.inl rfl, h.2⟩
  past := H.past

theorem Told.closeTaken (H : r.Told) : r.closeTaken.Told where
  settled := H.settled
  row := H.row
  emitting := H.emitting
  closers _ _ _ := rfl
  disconnected hd := (H.disconnected hd).imp id fun h => ⟨.inr rfl, h.2⟩
  past := H.past

/-- The reader goes on to its end when it was past its announcement. -/
theorem Told.ending (H : r.Told) (hpast : r.reader.Past) {reader : Reader}
    (hemitting : reader ≠ .emitting) : Told { r with reader } where
  settled := H.settled
  row := H.row
  emitting h := absurd h hemitting
  closers := H.closers
  disconnected := H.disconnected
  past _ := H.past hpast

/-- The `finally` of the reader is over without an announcement. -/
theorem Told.silenced (H : r.Told) (hclear : r.ReadClear input) (hsilenced : r.Silenced input)
    {reader : Reader} (hemitting : reader ≠ .emitting) :
    Told { r with silent := true, reader } := by
  obtain ⟨hnot, hexplicit⟩ := hclear.1 hsilenced
  refine ⟨H.settled, H.row, fun h => absurd h hemitting, H.closers, H.disconnected, fun _ => ?_⟩
  cases hconnected : r.connected with
  | true => exact .inr (.inl (hexplicit hconnected))
  | false => exact .inr (.inr ⟨rfl, rfl, hnot⟩)

theorem Told.read (H : r.Told) (hclear : r.ReadClear input)
    (h : r.read input = some (signal, r')) : r'.Told := by
  unfold Request.read at h
  cases hreader : r.reader with
  | unstarted | ended => simp only [hreader] at h; cases h
  | waiting attempts =>
    simp only [hreader] at h
    repeat' split at h
    all_goals
      cases h
      exact H.reader nofun id
  | running =>
    simp only [hreader] at h
    split at h <;> cases h
    · exact H.reader nofun id
    · exact H
  | lookup =>
    simp only [hreader] at h
    split at h <;> rename_i herror
    · cases h
      exact H.silenced hclear (.inl ⟨hreader, .inr (by rw [herror]; rfl)⟩) nofun
    · split at h <;> rename_i hrow <;> cases h
      · exact ⟨H.settled, H.row, fun _ => H.row hrow, H.closers, H.disconnected, fun h => h.elim⟩
      · exact H.silenced hclear (.inl ⟨hreader, .inl ((Bool.not_eq_true _).mp hrow)⟩) nofun
  | emitting =>
    simp only [hreader] at h
    split at h <;> rename_i herror <;> cases h
    · exact H.silenced hclear (.inr ⟨hreader, by rw [herror]; rfl⟩) nofun
    · have hsettled := (H.emitting hreader).resolve_left fun hpc => hclear.2 hreader (.inr hpc)
      exact ⟨H.settled, H.row, nofun, H.closers, fun _ => .inl hsettled, fun _ => .inl rfl⟩
  | close =>
    have hpast : r.reader.Past := by rw [hreader]; trivial
    simp only [hreader] at h
    split at h <;> cases h
    · exact H.ending hpast nofun
    · obtain ⟨hlive, rfl⟩ := take_eq_some ‹_›
      exact (H.take hlive).ending hpast nofun
  | closing =>
    have hpast : r.reader.Past := by rw [hreader]; trivial
    simp only [hreader] at h
    cases h
    exact H.closeTaken.ending hpast nofun

/-- A closer goes on with `next`. -/
theorem Told.advance (H : r.Told) {k : Nat} {next : List Closer}
    (hnext : ∀ c ∈ next, c.pc = .announce → r.session = .closed) : (r.advance k next).Told where
  settled := H.settled
  row := H.row
  emitting := H.emitting
  closers c hc hpc := by
    rcases List.mem_append.mp hc with hc | hc
    · exact H.closers c (List.mem_of_mem_eraseIdx hc) hpc
    · exact hnext c hc hpc
  disconnected := H.disconnected
  past := H.past

theorem Told.close (H : r.Told) {k : Nat} (hclear : r.CloseClear k)
    (h : r.closeStep k input = some (signal, r')) : r'.Told := by
  obtain ⟨closer, hk, h⟩ := Option.bind_eq_some_iff.mp h
  have hnil : ∀ c ∈ ([] : List Closer), c.pc = .announce → r.session = .closed :=
    fun _ h => absurd h List.not_mem_nil
  cases hpc : closer.pc with
  | updateRow =>
    simp only [hpc] at h
    cases h
    have hrow : Told { r with row := r.row && !input.ok } :=
      ⟨H.settled, fun hrow => H.row (Bool.and_eq_true_iff.mp hrow).1, H.emitting, H.closers,
        H.disconnected, H.past⟩
    refine hrow.advance fun c hc hann => ?_
    rw [List.mem_singleton.mp hc] at hann
    cases hann
  | close =>
    simp only [hpc] at h
    split at h <;> cases h
    · exact H.advance hnil
    · obtain ⟨hlive, rfl⟩ := take_eq_some ‹_›
      have htake := H.take hlive
      have hexplicit : Told { r with
          session := .taken, explicitlyClosed := r.explicitlyClosed || closer.announces } :=
        ⟨htake.settled, htake.row, htake.emitting, htake.closers, htake.disconnected,
          fun hpast => (htake.past hpast).imp id (.imp (fun he => by
            change r.explicitlyClosed = true at he
            change (r.explicitlyClosed || closer.announces) = true
            rw [he, Bool.true_or]) id)⟩
      refine hexplicit.advance fun c hc hann => ?_
      rw [List.mem_singleton.mp hc] at hann
      cases hann
  | closing =>
    simp only [hpc] at h
    cases h
    exact H.closeTaken.advance fun _ _ _ => rfl
  | announce =>
    simp only [hpc] at h
    cases h
    have hclosed := H.closers closer (List.mem_of_getElem? hk) hpc
    have hd : Told { r with disconnected := true } :=
      ⟨H.settled, H.row, H.emitting, H.closers, fun _ => .inr ⟨.inr hclosed, hclear closer hk hpc⟩,
        fun _ => .inl rfl⟩
    exact hd.advance hnil

/-! ## What is announced -/

/-- The flags of a request say what it has announced. -/
structure Speaks (r : Request) (signal : Signal) (r' : Request) : Prop where
  connected : r'.connected = true ↔ r.connected = true ∨ signal = .connected
  disconnected : r'.disconnected = true ↔ r.disconnected = true ∨ signal = .disconnected

theorem Speaks.silent (hconnected : r'.connected = r.connected)
    (hdisconnected : r'.disconnected = r.disconnected) : r.Speaks .none r' :=
  ⟨by rw [hconnected]; exact (or_iff_left nofun).symm,
    by rw [hdisconnected]; exact (or_iff_left nofun).symm⟩

theorem Works.speaks (h : r.Works signal r') (hwork : r.work input = some (signal, r')) :
    r.Speaks signal r' where
  connected := h.connected
  disconnected := by
    rw [h.disconnected]
    exact (or_iff_left (work_signal hwork).2).symm

/-- The session is announced when no end of it has been. -/
theorem Told.fresh (H : r.Told) (hpc : r.pc = .emitConnected) : r.disconnected = false := by
  by_contra hd
  rcases H.disconnected (by simpa using hd) with hsettled | ⟨-, hnot⟩
  · rw [hpc] at hsettled
    cases hsettled
  · exact hnot (.inr hpc)

theorem read_speaks (h : r.read input = some (signal, r')) : r.Speaks signal r' := by
  unfold Request.read at h
  split at h
  case h_6 =>
    split at h <;> cases h
    · exact .silent rfl rfl
    · exact ⟨(or_iff_left nofun).symm, ⟨fun _ => .inr rfl, fun _ => rfl⟩⟩
  case h_7 =>
    split at h <;> cases h
    · exact .silent rfl rfl
    · obtain ⟨-, rfl⟩ := take_eq_some ‹_›
      exact .silent rfl rfl
  all_goals
    repeat' split at h
    all_goals cases h <;> exact .silent rfl rfl

theorem closeStep_speaks {k : Nat} (h : r.closeStep k input = some (signal, r')) :
    r.Speaks signal r' := by
  obtain ⟨closer, -, h⟩ := Option.bind_eq_some_iff.mp h
  split at h
  case h_2 =>
    split at h <;> cases h
    · exact .silent rfl rfl
    · obtain ⟨-, rfl⟩ := take_eq_some ‹_›
      exact .silent rfl rfl
  case h_4 =>
    cases h
    exact ⟨(or_iff_left nofun).symm, ⟨fun _ => .inr rfl, fun _ => rfl⟩⟩
  all_goals
    cases h
    exact .silent rfl rfl

/-! ## Other steps -/

theorem Told.tryCancel (H : r.Told) (h : r.tryCancel = some r') :
    r'.Told ∧ r.Speaks .none r' := by
  unfold Request.tryCancel at h
  split at h <;> cases h
  exact ⟨⟨H.settled, H.row, H.emitting, H.closers, H.disconnected, H.past⟩, .silent rfl rfl⟩

theorem Told.startClose (H : r.Told) (announces : Bool) :
    Told { r with
      closers := r.closers ++ [⟨announces, if announces then .updateRow else .close⟩] } where
  settled := H.settled
  row := H.row
  emitting := H.emitting
  closers c hc hpc := by
    rcases List.mem_append.mp hc with hc | hc
    · exact H.closers c hc hpc
    · rw [List.mem_singleton.mp hc] at hpc
      cases announces <;> cases hpc
  disconnected := H.disconnected
  past := H.past

end Request

/-! ## All requests -/

/-- The answers given until now are what the requests have announced, in the right order. -/
structure State.Heard (s : State) (replies : List Reply) : Prop where
  told : ∀ (i : Nat) (r : Request), s.requests[i]? = some r → r.Told
  connected : ∀ i : Nat, .connected i ∈ replies ↔
    ∃ r : Request, s.requests[i]? = some r ∧ r.connected = true
  disconnected : ∀ i : Nat, .disconnected i ∈ replies ↔
    ∃ r : Request, s.requests[i]? = some r ∧ r.disconnected = true
  order : ∀ i : Nat, ¬ Before (.disconnected i) (.connected i) replies

namespace State

theorem Heard.init : init.Heard [] where
  told _ _ h := nomatch h
  connected _ := ⟨fun h => absurd h List.not_mem_nil, fun ⟨_, h, _⟩ => nomatch h⟩
  disconnected _ := ⟨fun h => absurd h List.not_mem_nil, fun ⟨_, h, _⟩ => nomatch h⟩
  order _ := not_before_nil

/-- The request `i` goes on and announces what its flags say. -/
theorem Heard.set (H : s.Heard replies) (hi : s.requests[i]? = some r) (htold : r'.Told)
    (hspeaks : r.Speaks signal r') (hfresh : signal = .connected → r.disconnected = false)
    (ht : t.requests = s.requests.set i r') : t.Heard (replies ++ [signal.reply i]) := by
  have hself : t.requests[i]? = some r' := by
    rw [ht]
    exact setRequest_self hi
  have hne : ∀ {j : Nat}, i ≠ j → t.requests[j]? = s.requests[j]? := fun hij => by
    rw [ht]
    exact List.getElem?_set_ne hij
  have hconnected : ∀ j, .connected j = signal.reply i ↔ i = j ∧ signal = .connected := by
    intro j
    cases signal <;> simp [Signal.reply, eq_comm]
  have hdisconnected : ∀ j, .disconnected j = signal.reply i ↔ i = j ∧ signal = .disconnected := by
    intro j
    cases signal <;> simp [Signal.reply, eq_comm]
  refine ⟨fun j x hx => ?_, fun j => ?_, fun j => ?_, fun j hb => ?_⟩
  · by_cases hij : i = j
    · subst hij
      cases hself.symm.trans hx
      exact htold
    · exact H.told j x (hne hij ▸ hx)
  · rw [List.mem_append, List.mem_singleton, H.connected, hconnected]
    by_cases hij : i = j
    · subst hij
      simp only [hi, hself, Option.some.injEq, exists_eq_left', hspeaks.connected, true_and]
    · rw [hne hij, or_iff_left fun h => hij h.1]
  · rw [List.mem_append, List.mem_singleton, H.disconnected, hdisconnected]
    by_cases hij : i = j
    · subst hij
      simp only [hi, hself, Option.some.injEq, exists_eq_left', hspeaks.disconnected, true_and]
    · rw [hne hij, or_iff_left fun h => hij h.1]
  · rcases before_concat.mp hb with hb | ⟨hd, hc⟩
    · exact H.order j hb
    · obtain ⟨hij, hsignal⟩ := (hconnected j).mp hc
      subst hij
      obtain ⟨x, hx, hdx⟩ := (H.disconnected i).mp hd
      cases hi.symm.trans hx
      rw [hfresh hsignal] at hdx
      cases hdx

/-- Nothing is announced. -/
theorem Heard.quiet (H : s.Heard replies) (hconnected : ∀ i, reply ≠ .connected i)
    (hdisconnected : ∀ i, reply ≠ .disconnected i)
    (htold : ∀ (j : Nat) (x : Request), t.requests[j]? = some x → x.Told)
    (hold : ∀ (j : Nat) (x : Request), s.requests[j]? = some x → ∃ x', t.requests[j]? = some x' ∧
      x.Speaks .none x')
    (hnew : ∀ (j : Nat) (x : Request), t.requests[j]? = some x → s.requests[j]? = none →
      x.connected = false ∧ x.disconnected = false) :
    t.Heard (replies ++ [reply]) := by
  have hsame : ∀ (j : Nat) (flag : Request → Bool),
      (∀ x x', x.Speaks .none x' → (flag x' = true ↔ flag x = true)) →
      (∀ x, t.requests[j]? = some x → s.requests[j]? = none → flag x = false) →
      ((∃ x, s.requests[j]? = some x ∧ flag x = true) ↔
        ∃ x, t.requests[j]? = some x ∧ flag x = true) := by
    intro j flag hspeaks hfresh
    cases hs : s.requests[j]? with
    | none =>
      refine ⟨fun ⟨_, h, _⟩ => (nomatch h), fun ⟨x, hx, hf⟩ => ?_⟩
      rw [hfresh x hx hs] at hf
      cases hf
    | some x =>
      obtain ⟨x', hx', hx⟩ := hold j x hs
      simp only [hx', Option.some.injEq, exists_eq_left', hspeaks x x' hx]
  refine ⟨htold, fun j => ?_, fun j => ?_, fun j hb => ?_⟩
  · rw [List.mem_append, List.mem_singleton, or_iff_left (hconnected j).symm, H.connected]
    exact hsame j _ (fun _ _ hx => hx.connected.trans (or_iff_left nofun))
      fun x hx hn => (hnew j x hx hn).1
  · rw [List.mem_append, List.mem_singleton, or_iff_left (hdisconnected j).symm, H.disconnected]
    exact hsame j _ (fun _ _ hx => hx.disconnected.trans (or_iff_left nofun))
      fun x hx hn => (hnew j x hx hn).2
  · rcases before_concat.mp hb with hb | ⟨-, hc⟩
    · exact H.order j hb
    · exact hconnected j hc.symm

/-- The answer alone is new. -/
theorem Heard.unchanged (H : s.Heard replies) (hconnected : ∀ i, reply ≠ .connected i)
    (hdisconnected : ∀ i, reply ≠ .disconnected i) : s.Heard (replies ++ [reply]) :=
  H.quiet hconnected hdisconnected H.told (fun _ x hx => ⟨x, hx, .silent rfl rfl⟩)
    fun j x hx hn => by rw [hn] at hx; cases hx

theorem Heard.cancelSocket (H : s.Heard replies) (socketSid : String) :
    (s.cancelSocket socketSid).Heard (replies ++ [Reply.none]) := by
  have hget : ∀ j, (s.cancelSocket socketSid).requests[j]? = s.requests[j]?.map fun r =>
      if s.ofSocket socketSid j r then r.forceCancel else r := fun j => List.getElem?_mapIdx
  refine H.quiet nofun nofun (fun j x hx => ?_) (fun j x hx => ?_) fun j x hx hn => ?_
  · rw [hget] at hx
    obtain ⟨r, hr, rfl⟩ := Option.map_eq_some_iff.mp hx
    have htold := H.told j r hr
    split
    · exact ⟨htold.settled, htold.row, htold.emitting, htold.closers, htold.disconnected, htold.past⟩
    · exact htold
  · rw [hget, hx]
    refine ⟨_, rfl, ?_⟩
    beta_reduce
    split <;> exact .silent rfl rfl
  · rw [hget, hn] at hx
    cases hx

theorem Heard.connect (H : s.Heard replies) (config : Config) (attempts : Key → Option Nat) :
    State.Heard ⟨s.requests ++ [Request.new config], attempts⟩ (replies ++ [Reply.none]) := by
  have hmem : ∀ {j : Nat} {x : Request}, (s.requests ++ [Request.new config])[j]? = some x →
      s.requests[j]? = some x ∨ x = .new config := fun {j x} hx => by
    rcases Nat.lt_or_ge j s.requests.length with hlt | hge
    · exact .inl ((List.getElem?_append_left hlt).symm.trans hx)
    · rw [List.getElem?_append_right hge] at hx
      exact .inr (List.mem_singleton.mp (List.mem_of_getElem? hx))
  refine H.quiet nofun nofun (fun j x hx => ?_) (fun j x hx => ⟨x, ?_, .silent rfl rfl⟩)
    fun j x hx hn => ?_
  · rcases hmem hx with hx | rfl
    · exact H.told j x hx
    · exact .new config
  · exact (List.getElem?_append_left (List.getElem?_eq_some_iff.mp hx).1).trans hx
  · rcases hmem hx with hx | rfl
    · rw [hn] at hx
      cases hx
    · exact ⟨rfl, rfl⟩

/-- Another answer that announces nothing. -/
theorem Heard.answer (H : s.Heard (replies ++ [Reply.none])) (hconnected : ∀ i, reply ≠ .connected i)
    (hdisconnected : ∀ i, reply ≠ .disconnected i) : s.Heard (replies ++ [reply]) where
  told := H.told
  connected i := by
    rw [← H.connected, List.mem_append, List.mem_append, List.mem_singleton, List.mem_singleton,
      or_iff_left (hconnected i).symm, or_iff_left nofun]
  disconnected i := by
    rw [← H.disconnected, List.mem_append, List.mem_append, List.mem_singleton, List.mem_singleton,
      or_iff_left (hdisconnected i).symm, or_iff_left nofun]
  order i hb := by
    rcases before_concat.mp hb with hb | ⟨-, hc⟩
    · exact H.order i (hb.append _)
    · exact hconnected i hc.symm

/-- A step of the request `i` alone. -/
theorem Heard.apply (H : s.Heard replies) {f : Request → Option (Signal × Request)}
    (h : s.apply i f = some (reply, t))
    (hf : ∀ r signal r', s.requests[i]? = some r → f r = some (signal, r') →
      r'.Told ∧ r.Speaks signal r' ∧ signal ≠ .connected) :
    t.Heard (replies ++ [reply]) := by
  obtain ⟨r, hi, h⟩ := Option.bind_eq_some_iff.mp h
  obtain ⟨⟨signal, r'⟩, hfr, h⟩ := Option.bind_eq_some_iff.mp h
  cases h
  obtain ⟨htold, hspeaks, hsignal⟩ := hf r signal r' hi hfr
  exact H.set hi htold hspeaks (fun hc => absurd hc hsignal) rfl

end State

/-- Every step finds its request clear. -/
def Clear (s : State) : Action → Prop
  | .work i _ => ∀ r ∈ s.requests[i]?, r.WorkClear
  | .read i input => ∀ r ∈ s.requests[i]?, r.ReadClear input
  | .close i k _ => ∀ r ∈ s.requests[i]?, r.CloseClear k
  | _ => True

instance : ∀ a : Action, Decidable (Clear s a)
  | .work _ _ | .read _ _ | .close _ _ _ => inferInstanceAs (Decidable (∀ _ ∈ _, _))
  | .connect _ | .cancel _ | .disconnect _ | .lifecycleCancel _ | .startClose _ _ =>
    inferInstanceAs (Decidable True)

theorem State.Heard.step {a : Action} (H : s.Heard replies) (hinv : s.Inv replies)
    (hclear : Clear s a) (h : step s a = some (reply, t)) : t.Heard (replies ++ [reply]) := by
  cases a with
  | connect config =>
    simp only [Connect.step] at h
    split at h <;> cases h
    · exact H.unchanged (fun _ h => by cases h) fun _ h => by cases h
    · exact H.connect config _
  | cancel key =>
    simp only [Connect.step] at h
    split at h
    · cases h
      exact H.unchanged (fun _ h => by cases h) fun _ h => by cases h
    · rename_i i hkey
      obtain ⟨r, hi, h⟩ := Option.bind_eq_some_iff.mp h
      split at h <;> cases h
      · exact H.unchanged (fun _ h => by cases h) fun _ h => by cases h
      · rename_i hcancel
        obtain ⟨htold, hspeaks⟩ := (H.told i r hi).tryCancel hcancel
        exact (H.set hi htold hspeaks (fun h => by cases h) rfl).answer (fun _ h => by cases h) fun _ h => by cases h
  | disconnect socketSid =>
    cases h
    exact H.cancelSocket socketSid
  | lifecycleCancel i =>
    refine H.apply h fun r signal r' hi hf => ?_
    cases hf
    have htold := H.told i r hi
    exact ⟨⟨htold.settled, htold.row, htold.emitting, htold.closers, htold.disconnected, htold.past⟩,
      .silent rfl rfl, fun h => by cases h⟩
  | work i input =>
    simp only [Connect.step] at h
    obtain ⟨r, hi, h⟩ := Option.bind_eq_some_iff.mp h
    obtain ⟨⟨signal, r'⟩, hwork, h⟩ := Option.bind_eq_some_iff.mp h
    cases h
    have htold := H.told i r hi
    have hworks := Request.work_works (hinv.requests i r hi) hwork
    refine H.set hi (htold.work (hclear r hi) hworks) (hworks.speaks hwork)
      (fun hc => htold.fresh (hworks.announces hc)) ?_
    split
    · exact unregister_requests
    · rfl
  | read i input =>
    refine H.apply h fun r signal r' hi hf => ?_
    exact ⟨(H.told i r hi).read (hclear r hi) hf, Request.read_speaks hf,
      (Request.read_aside hf).2.2⟩
  | startClose i announces =>
    refine H.apply h fun r signal r' hi hf => ?_
    cases hf
    exact ⟨(H.told i r hi).startClose announces, .silent rfl rfl, fun h => by cases h⟩
  | close i k input =>
    refine H.apply h fun r signal r' hi hf => ?_
    exact ⟨(H.told i r hi).close (hclear r hi) hf, Request.closeStep_speaks hf,
      (Request.closeStep_aside hf).2.2⟩

/-! ## The announcements agree with the session -/

/-- The end of the session `i` is not announced before the session, and it is announced once the
worker and the reader have ended and the session is gone, if no explicit disconnect does so. -/
def Matched (s : State) (replies : List Reply) (i : Nat) : Prop :=
  ¬ Before (.disconnected i) (.connected i) replies ∧
    (.connected i ∈ replies → ∀ r : Request, s.requests[i]? = some r → r.pc = .ended →
      r.reader = .ended → r.session ≠ .live → r.explicitlyClosed = false →
        Before (.connected i) (.disconnected i) replies)

theorem State.Heard.matched (H : s.Heard replies) (i : Nat) : Matched s replies i := by
  refine ⟨H.order i, fun hconnected r hi _ hreader _ hexplicit => ?_⟩
  obtain ⟨x, hx, hc⟩ := (H.connected i).mp hconnected
  cases hi.symm.trans hx
  have hpast : r.reader.Past := by rw [hreader]; trivial
  rcases (H.told i r hi).past hpast with hd | he | ⟨-, hnot, -⟩
  · have hdisconnected := (H.disconnected i).mpr ⟨r, hi, hd⟩
    exact (before_total (by nofun) hconnected hdisconnected).resolve_right (H.order i)
  · rw [hexplicit] at he
    cases he
  · rw [hc] at hnot
    cases hnot

/-- The announcements agree in every run whose steps are clear. -/
theorem announcements_match {history : List (Action × Reply)}
    (h : (system.restrict fun s e _ => Clear s e.1).Run .init history s) (i : Nat) :
    Matched s (history.map Prod.snd) i := by
  suffices h : s.Inv (history.map Prod.snd) ∧ s.Heard (history.map Prod.snd) from h.2.matched i
  refine h.history (P := fun history s => s.Inv (history.map Prod.snd) ∧
    s.Heard (history.map Prod.snd)) ⟨.init, .init⟩ ?_
  rintro history x ⟨a, reply⟩ y ⟨hinv, hheard⟩ ⟨hclear, hstep⟩
  rw [List.map_append]
  exact ⟨step_inv hinv hstep, hheard.step hinv hclear hstep⟩

/-- The worker comes to its announcement. -/
def toAnnouncement : List Action := Action.connect plain :: List.replicate 28 (Action.work 0 accept)

/-- The remote end closes after the session has been announced. -/
def closeAfter : List Action :=
  toAnnouncement ++ List.replicate 3 (Action.work 0 accept) ++
    [Action.read 0 accept, .read 0 fail] ++ List.replicate 4 (Action.read 0 accept)

theorem announcements_match_closed :
    ∃ history s, (system.restrict fun s e _ => Clear s e.1).Run .init history s ∧
      .disconnected 0 ∈ history.map Prod.snd ∧ Matched s (history.map Prod.snd) 0 := by
  have hexec : (System.answerIf Clear step .init closeAfter).any
      (fun (es, _) => Reply.disconnected 0 ∈ es.map Prod.snd) = true := by decide
  obtain ⟨⟨history, s⟩, hrun, hdisconnected⟩ := (Option.any_eq_true _ _).mp hexec
  have h : (system.restrict fun s e _ => Clear s e.1).Run .init history s :=
    System.run_of_answerIf hrun
  exact ⟨history, s, h, of_decide_eq_true hdisconnected, announcements_match h 0⟩

/-- The remote end closes at once: the reader finds the row and announces the end before the
worker announces the session. -/
def closeBefore : List Action :=
  toAnnouncement ++ [Action.read 0 accept, .read 0 fail] ++
    List.replicate 2 (Action.read 0 accept) ++ [Action.work 0 accept]

theorem disconnected_before_connected :
    ∃ history s, system.Run .init history s ∧ ¬ Matched s (history.map Prod.snd) 0 := by
  have hexec : (System.answer step .init closeBefore).any
      (fun (es, _) => [Reply.disconnected 0, .connected 0].isSublist (es.map Prod.snd)) = true := by
    decide
  obtain ⟨⟨history, s⟩, hrun, hbefore⟩ := (Option.any_eq_true _ _).mp hexec
  exact ⟨history, s, System.run_of_answer hrun,
    fun h => h.1 (List.isSublist_iff_sublist.mp hbefore)⟩

end WebSSH.Connect
