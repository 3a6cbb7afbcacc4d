import WebSSH.Notepad.Controller

/-!
# A notepad shown as saved is saved

The stored text is the one of the newest save that has been stored, as long as no save of an earlier
connection overwrites one of a later connection; and the newest save of all is the one whose
acknowledgement has the page show its text as saved.
-/

namespace WebSSH.Notepad
open Lib Function

/-! ## The saves on the server -/

/-- The saves of a connection are applied in order, and the newest one stored is what is stored. -/
structure Ordered (saves : List Save) (connection : Nat) (stored : String) : Prop where
  connections : ∀ (i j : Nat) (a b : Save), i < j → saves[i]? = some a → saves[j]? = some b →
    a.connection ≤ b.connection
  current : ∀ a ∈ saves, a.connection ≤ connection
  order : ∀ (i j : Nat) (a b : Save), i < j → saves[i]? = some a → saves[j]? = some b →
    a.connection = b.connection → b.applied.isSome → a.applied.isSome
  newest : ∀ (i : Nat) (a : Save), saves[i]? = some a → a.applied = some true →
    (∀ (j : Nat) (b : Save), i < j → saves[j]? = some b → b.applied ≠ some true) → stored = a.text

namespace Ordered

variable {saves : List Save} {connection : Nat} {stored : String}

/-- A save is emitted. -/
theorem emit (H : Ordered saves connection stored) (text : String) (revision : Nat) :
    Ordered (saves ++ [⟨text, revision, connection, none⟩]) connection stored := by
  have hget {i : Nat} {a : Save} (h : (saves ++ [⟨text, revision, connection, none⟩])[i]? = some a) :
      saves[i]? = some a ∨ i = saves.length ∧ a = ⟨text, revision, connection, none⟩ := by
    rw [List.getElem?_append] at h
    split at h
    · exact .inl h
    · rename_i hi
      cases hsub : i - saves.length with
      | zero =>
        rw [hsub] at h
        exact .inr ⟨by omega, (Option.some.inj h).symm⟩
      | succ n =>
        rw [hsub] at h
        cases h
  have hlt {i : Nat} {a : Save} (h : saves[i]? = some a) : i < saves.length :=
    (List.getElem?_eq_some_iff.mp h).1
  have hnew {i : Nat} {a : Save} (h : saves[i]? = some a) :
      (saves ++ [⟨text, revision, connection, none⟩])[i]? = some a := by
    rw [List.getElem?_append_left (hlt h), h]
  refine ⟨fun i j a b hij ha hb => ?_, fun a ha => ?_, fun i j a b hij ha hb hc happlied => ?_,
    fun i a ha happlied hlater => ?_⟩
  · rcases hget ha with ha | ⟨hi, rfl⟩
    · rcases hget hb with hb | ⟨_, rfl⟩
      · exact H.connections i j a b hij ha hb
      · exact H.current a (List.mem_of_getElem? ha)
    · rcases hget hb with hb | ⟨hj, _⟩
      · have := hlt hb
        omega
      · omega
  · rcases List.mem_append.mp ha with ha | ha
    · exact H.current a ha
    · cases List.mem_singleton.mp ha
      exact Nat.le_refl _
  · rcases hget hb with hb | ⟨_, rfl⟩
    · rcases hget ha with ha | ⟨hi, rfl⟩
      · exact H.order i j a b hij ha hb hc happlied
      · have := hlt hb
        omega
    · cases happlied
  · rcases hget ha with ha | ⟨_, rfl⟩
    · exact H.newest i a ha happlied fun j b hij hb => hlater j b hij (hnew hb)
    · cases happlied

theorem getElem?_applied {saves : List Save} {i : Nat} {success : Bool} {j : Nat} {b : Save}
    (h : (saves.modify i fun save => { save with applied := some success })[j]? = some b) :
    ∃ a, saves[j]? = some a ∧ b.connection = a.connection ∧ b.text = a.text ∧
      b.revision = a.revision ∧ (j = i → b.applied = some success) ∧ (j ≠ i → b = a) := by
  rw [List.getElem?_modify] at h
  split at h
  · rename_i hij
    obtain ⟨a, ha, rfl⟩ := Option.map_eq_some_iff.mp h
    exact ⟨a, ha, rfl, rfl, rfl, fun _ => rfl, fun hne => absurd hij.symm hne⟩
  · rename_i hij
    obtain ⟨a, ha, rfl⟩ := Option.map_eq_some_iff.mp h
    exact ⟨a, ha, rfl, rfl, rfl, fun hji => absurd hji.symm hij, fun _ => rfl⟩

/-- A save is applied that does not overwrite one of a later connection. -/
theorem apply (H : Ordered saves connection stored) {i : Nat} {attempt : Save}
    (hi : saves[i]? = some attempt) (hopen : attempt.applied = none)
    (horder : inOrder saves i attempt.connection = true) (success : Bool)
    (hstale : success = true → stored ≠ attempt.text → ∀ later ∈ saves,
      attempt.connection < later.connection → later.applied ≠ some true) :
    Ordered (saves.modify i fun save => { save with applied := some success }) connection
      (if success then attempt.text else stored) := by
  have hbefore {k : Nat} {a : Save} (hk : k < i) (ha : saves[k]? = some a)
      (hc : a.connection = attempt.connection) : a.applied.isSome := by
    have hmem : a ∈ saves.take i := by
      refine List.mem_of_getElem? (i := k) ?_
      rw [List.getElem?_take_of_lt hk, ha]
    simpa [hc] using List.all_eq_true.mp horder a hmem
  have hkeep {j : Nat} {a : Save} (hj : j ≠ i) (ha : saves[j]? = some a) :
      (saves.modify i fun save => { save with applied := some success })[j]? = some a := by
    rw [List.getElem?_modify_ne _ _ (Ne.symm hj), ha]
  refine ⟨fun j k a b hjk ha hb => ?_, fun a ha => ?_, fun j k a b hjk ha hb hc happlied => ?_,
    fun j a ha happlied hlater => ?_⟩
  · obtain ⟨a', ha', hac, _⟩ := getElem?_applied ha
    obtain ⟨b', hb', hbc, _⟩ := getElem?_applied hb
    rw [hac, hbc]
    exact H.connections j k a' b' hjk ha' hb'
  · obtain ⟨j, hj⟩ := List.mem_iff_getElem?.mp ha
    obtain ⟨a', ha', hac, _⟩ := getElem?_applied hj
    rw [hac]
    exact H.current a' (List.mem_of_getElem? ha')
  · obtain ⟨a', ha', hac, _, _, hself, hother⟩ := getElem?_applied ha
    by_cases hj : j = i
    · rw [hself hj]
      rfl
    · cases hother hj
      obtain ⟨b', hb', hbc, _, _, _, hbother⟩ := getElem?_applied hb
      by_cases hk : k = i
      · subst hk
        cases hi.symm.trans hb'
        exact hbefore hjk ha' (hc.trans hbc)
      · cases hbother hk
        exact H.order j k a b hjk ha' hb' hc happlied
  · obtain ⟨a', ha', _, htext, _, hself, hother⟩ := getElem?_applied ha
    by_cases hj : j = i
    · subst hj
      cases hi.symm.trans ha'
      have hsuccess : success = true := Option.some.inj ((hself rfl).symm.trans happlied)
      rw [if_pos hsuccess, htext]
    · cases hother hj
      -- The applied save is no newer than this one, which is not of a later connection, or stored.
      cases success with
      | false =>
        refine H.newest j a ha' happlied fun k b hjk hb => ?_
        by_cases hk : k = i
        · subst hk
          cases hi.symm.trans hb
          rw [hopen]
          nofun
        · exact hlater k b hjk (hkeep hk hb)
      | true =>
        have hij : i < j := by
          refine Nat.lt_of_not_le fun hle => ?_
          have hself : (saves.modify i fun save => { save with applied := some true })[i]? =
              some { attempt with applied := some true } := by
            rw [List.getElem?_modify_eq, hi]
            rfl
          exact hlater i _ (Nat.lt_of_le_of_ne hle hj) hself rfl
        have hnewest := H.newest j a ha' happlied fun k b hjk hb => hlater k b hjk
          (hkeep (by omega) hb)
        have hle := H.connections i j attempt a hij hi ha'
        have hne : attempt.connection ≠ a.connection := fun hc => by
          have := H.order i j attempt a hij hi ha' hc (by rw [happlied]; rfl)
          rw [hopen] at this
          cases this
        refine (if_pos rfl).trans (Eq.trans ?_ hnewest)
        refine Decidable.byContradiction fun htext => ?_
        exact hstale rfl (Ne.symm htext) a (List.mem_of_getElem? ha') (by omega) happlied

end Ordered

/-! ## The page -/

/-- The pending attempt is the newest save, and a save of the current revision has its text. -/
structure Core (s : State) : Prop where
  ordered : Ordered s.saves s.connection s.stored
  text : s.edited = true → s.lastEdit = some s.text
  fresh : s.edited = false → s.saves = [] ∧ s.dirty = false
  pending : ∀ i, s.pending = some i → i + 1 = s.saves.length
  revisions : ∀ a ∈ s.saves, a.revision ≤ s.revision ∧ (a.revision = s.revision → a.text = s.text)
  clean : s.edited = true → s.dirty = false → ∃ (i : Nat) (a : Save), s.saves[i]? = some a ∧
    i + 1 = s.saves.length ∧ a.applied = some true ∧ a.text = s.text

namespace Core

variable {s : State}

/-- What is not of the text and its saves. -/
theorem view (H : Core s) (connected timer : Bool) (shown : Shown) (timers acknowledged : Nat → Bool) :
    Core { s with connected, timer, shown, timers, acknowledged } :=
  ⟨H.ordered, H.text, H.fresh, H.pending, H.revisions, H.clean⟩

theorem drop (H : Core s) : Core { s with pending := none } :=
  ⟨H.ordered, H.text, H.fresh, nofun, H.revisions, H.clean⟩

theorem display (H : Core s) (next : Shown) : Core (s.display next) :=
  H.view s.connected s.timer next s.timers s.acknowledged

theorem save (H : Core s) : Core s.save := by
  rw [State.save]
  dsimp only
  split
  · exact H.view s.connected false s.shown s.timers s.acknowledged
  · rename_i hidle
    have hdirty : s.dirty = true := by
      cases h : s.dirty with
      | true => rfl
      | false => exact absurd (.inl (by rw [h]; rfl)) hidle
    have hedited : s.edited = true := by
      cases h : s.edited with
      | true => rfl
      | false => exact absurd ((H.fresh h).2.symm.trans hdirty) Bool.false_ne_true
    split
    · exact H.view s.connected false .offline s.timers s.acknowledged
    · split
      · exact H.view s.connected false .tooLarge s.timers s.acknowledged
      · refine ⟨H.ordered.emit s.text s.revision, H.text, fun h => ?_, fun i h => ?_, fun a ha => ?_,
          fun _ h => ?_⟩
        · exact absurd (h.symm.trans hedited) Bool.false_ne_true
        · cases h
          simp
        · rcases List.mem_append.mp ha with ha | ha
          · exact H.revisions a ha
          · cases List.mem_singleton.mp ha
            exact ⟨Nat.le_refl _, fun _ => rfl⟩
        · exact absurd (h.symm.trans hdirty) Bool.false_ne_true

theorem changed (H : Core s) (text : String) : Core (s.changed text) where
  ordered := H.ordered
  text _ := rfl
  fresh h := absurd (show true = false from h) (by decide)
  pending := H.pending
  revisions a ha :=
    have hle := (H.revisions a ha).1
    ⟨Nat.le_succ_of_le hle, fun h => absurd h (Nat.ne_of_lt (Nat.lt_succ_of_le hle))⟩
  clean _ h := absurd (show true = false from h) (by decide)

theorem receive (H : Core s) (text : String) : Core (s.receive text) := by
  rw [State.receive]
  split
  · exact H
  · rename_i hedited
    have hfresh := H.fresh (Bool.eq_false_iff.mpr hedited)
    refine ⟨H.ordered, fun h => absurd h hedited, H.fresh, H.pending, fun a ha => ?_,
      fun h => absurd h hedited⟩
    rw [hfresh.1] at ha
    exact absurd ha List.not_mem_nil

theorem timeout (H : Core s) (i : Nat) (attempt : Save) : Core (s.timeout i attempt) := by
  have hcancel : Core (s.cancel i) := H.view s.connected s.timer s.shown _ s.acknowledged
  rw [State.timeout]
  dsimp only
  split
  · exact hcancel
  · split
    · exact hcancel.drop.save
    · exact hcancel.drop.display .failed

/-- The page takes its text for saved when the newest save is acknowledged. -/
theorem acknowledge (H : Core s) {i : Nat} {attempt : Save} {success : Bool}
    (hi : s.saves[i]? = some attempt) (happlied : attempt.applied = some success) :
    Core (s.acknowledge i attempt success) := by
  have hcalled : Core { s with acknowledged := update s.acknowledged i true } :=
    H.view s.connected s.timer s.shown s.timers _
  have hcancel : Core ({ s with acknowledged := update s.acknowledged i true }.cancel i) :=
    hcalled.view s.connected s.timer s.shown _ _
  rw [State.acknowledge]
  dsimp only
  split
  · exact hcalled
  · rename_i hpending
    have hlast := H.pending i (not_not.mp hpending)
    split
    · exact hcancel.drop.save
    · rename_i hrevision
      split
      · exact hcancel.drop.display .failed
      · rename_i hsuccess
        have htext := (H.revisions attempt (List.mem_of_getElem? hi)).2 (not_not.mp hrevision).symm
        refine ⟨H.ordered, H.text, fun h => ⟨(H.fresh h).1, rfl⟩, nofun, H.revisions, fun _ _ => ?_⟩
        exact ⟨i, attempt, hi, hlast, by simpa [happlied] using hsuccess, htext⟩

theorem disconnect (H : Core s) : Core s.disconnect := by
  rw [State.disconnect]
  dsimp only
  cases s.pending with
  | none =>
    dsimp only
    split
    · exact (H.view false false s.shown s.timers s.acknowledged).drop.display .offline
    · exact (H.view false false s.shown s.timers s.acknowledged).drop
  | some i =>
    dsimp only
    split
    · exact (H.view false false s.shown _ s.acknowledged).drop.display .offline
    · exact (H.view false false s.shown _ s.acknowledged).drop

theorem connect (H : Core s) : Core { s with connected := true, connection := s.connection + 1 } where
  ordered := { H.ordered with current := fun a ha => Nat.le_succ_of_le (H.ordered.current a ha) }
  text := H.text
  fresh := H.fresh
  pending := H.pending
  revisions := H.revisions
  clean := H.clean

theorem apply (H : Core s) {i : Nat} {attempt : Save} {success : Bool}
    (hi : s.saves[i]? = some attempt) (hopen : attempt.applied = none)
    (horder : inOrder s.saves i attempt.connection = true)
    (hstale : ¬ Stale s (.apply i success)) : Core (s.apply i attempt success) where
  ordered := H.ordered.apply hi hopen horder success fun hsuccess htext later hmem hlt happlied =>
    hstale ⟨i, attempt, by rw [hsuccess], hi, htext, later, hmem, hlt, happlied⟩
  text := H.text
  fresh h := by
    have hfresh := H.fresh h
    rw [hfresh.1] at hi
    cases hi
  pending j h := by
    rw [State.apply, List.length_modify]
    exact H.pending j h
  revisions a ha := by
    obtain ⟨j, hj⟩ := List.mem_iff_getElem?.mp ha
    obtain ⟨a', ha', _, htext, hrevision, _⟩ := Ordered.getElem?_applied hj
    rw [htext, hrevision]
    exact H.revisions a' (List.mem_of_getElem? ha')
  clean hedited hdirty := by
    obtain ⟨j, a, hj, hlast, happlied, htext⟩ := H.clean hedited hdirty
    refine ⟨j, a, ?_, by rw [State.apply, List.length_modify]; exact hlast, happlied, htext⟩
    have hne : i ≠ j := by
      rintro rfl
      cases hi.symm.trans hj
      rw [hopen] at happlied
      cases happlied
    rw [State.apply, List.getElem?_modify_ne _ _ hne, hj]

/-- What is shown as saved is stored. -/
theorem stored (H : Core s) (hedited : s.edited = true) (hdirty : s.dirty = false) :
    some s.stored = s.lastEdit := by
  obtain ⟨i, a, hi, hlast, happlied, htext⟩ := H.clean hedited hdirty
  have hnewest := H.ordered.newest i a hi happlied fun j b hij hb => by
    have := (List.getElem?_eq_some_iff.mp hb).1
    omega
  rw [H.text hedited, hnewest, htext]

end Core

/-! ## Unsaved edits -/

/-- A text that is not saved is going to be, or is shown not to be. -/
def State.Indicates (s : State) : Prop := s.dirty = true → s.Indicated

theorem indicates_save (s : State) : s.save.Indicates := by
  intro hdirty
  rw [State.save] at hdirty ⊢
  dsimp only at hdirty ⊢
  split at hdirty
  · rename_i hidle
    rw [if_pos hidle]
    rcases hidle with h | h
    · rw [hdirty] at h
      cases h
    · exact .inr (.inl h)
  · rename_i hidle
    rw [if_neg hidle]
    split
    · exact .inr (.inr (by simp [State.display]))
    · split
      · exact .inr (.inr (by simp [State.display]))
      · exact .inr (.inl rfl)

theorem indicates_failed (s : State) : (s.display .failed).Indicates :=
  fun _ => .inr (.inr (by simp [State.display]))

theorem State.Indicates.timeout {s : State} (H : s.Indicates) (i : Nat) (attempt : Save) :
    (s.timeout i attempt).Indicates := by
  rw [State.timeout]
  dsimp only
  split
  · exact H
  · split
    · exact indicates_save _
    · exact indicates_failed _

theorem State.Indicates.acknowledge {s : State} (H : s.Indicates) (i : Nat) (attempt : Save)
    (success : Bool) : (s.acknowledge i attempt success).Indicates := by
  rw [State.acknowledge]
  dsimp only
  split
  · exact H
  · split
    · exact indicates_save _
    · split
      · exact indicates_failed _
      · exact fun h => absurd (show false = true from h) (by decide)

theorem indicates_offline (s : State) : (if s.dirty then s.display .offline else s).Indicates := by
  intro hdirty
  split at hdirty
  · rename_i h
    rw [if_pos h]
    exact .inr (.inr (by simp [State.display]))
  · rename_i h
    exact absurd hdirty h

theorem indicates_disconnect (s : State) : s.disconnect.Indicates := by
  rw [State.disconnect]
  exact indicates_offline _

/-! ## Runs -/

structure Inv (s : State) : Prop where
  core : Core s
  indicates : s.Indicates

theorem Inv.honest {s : State} (H : Inv s) : Honest s where
  stored hedited hdirty _ := H.core.stored hedited hdirty
  indicated hedited hunsaved := by
    cases hdirty : s.dirty with
    | true => exact H.indicates hdirty
    | false =>
      rcases hunsaved with h | h
      · exact absurd (hdirty.symm.trans h) Bool.false_ne_true
      · exact absurd (H.core.stored hedited hdirty) h

theorem Inv.init (connected : Bool) (stored : String) : Inv (.init connected stored) where
  core := ⟨⟨nofun, fun _ h => absurd h List.not_mem_nil, nofun, nofun⟩, nofun,
    fun _ => ⟨rfl, rfl⟩, nofun, fun _ h => absurd h List.not_mem_nil, nofun⟩
  indicates := nofun

theorem Inv.step {s t : State} {a : Event} (H : Inv s) (h : step s a = some t)
    (hstale : ¬ Stale s a) : Inv t := by
  cases a with
  | edit text =>
    cases h
    exact ⟨H.core.changed text, fun _ => .inl rfl⟩
  | receive text =>
    cases h
    refine ⟨H.core.receive text, fun hdirty => ?_⟩
    rw [State.receive] at hdirty ⊢
    split
    · rename_i hedited
      rw [if_pos hedited] at hdirty
      exact H.indicates hdirty
    · rename_i hedited
      rw [if_neg hedited] at hdirty
      exact H.indicates hdirty
  | debounce =>
    rw [Notepad.step] at h
    split at h
    · cases h
      exact ⟨H.core.save, indicates_save s⟩
    · cases h
  | timeout i =>
    rw [Notepad.step] at h
    split at h
    · rename_i attempt hi
      split at h
      · cases h
        exact ⟨H.core.timeout i attempt, H.indicates.timeout i attempt⟩
      · cases h
    · cases h
  | apply i success =>
    rw [Notepad.step] at h
    split at h
    · rename_i attempt hi
      split at h
      · rename_i hguard
        cases h
        exact ⟨H.core.apply hi hguard.1 hguard.2 hstale, H.indicates⟩
      · cases h
    · cases h
  | acknowledge i =>
    rw [Notepad.step] at h
    split at h
    · rename_i attempt hi
      split at h
      · rename_i success happlied _
        cases h
        exact ⟨H.core.acknowledge hi happlied, H.indicates.acknowledge i attempt success⟩
      · cases h
    · cases h
  | disconnect =>
    rw [Notepad.step] at h
    split at h
    · cases h
      exact ⟨H.core.disconnect, indicates_disconnect s⟩
    · cases h
  | connect =>
    rw [Notepad.step] at h
    split at h
    · cases h
    · cases h
      exact ⟨H.core.connect, H.indicates⟩
  | reconnect =>
    cases h
    exact ⟨H.core.save, indicates_save s⟩

/-- In every run in which no save of an earlier connection replaces the text that one of a later
connection has stored, the page is honest in every state. -/
theorem saved_means_saved {connected : Bool} {stored : String} {as : List Event} {s : State}
    (h : ((system connected stored).restrict fun s a _ => ¬ Stale s a).Run (.init connected stored)
      as s) : Honest s :=
  (h.invariant (P := Inv) (.init connected stored)
    fun _ _ _ hx hxy => hx.step hxy.2 hxy.1).honest

/-! ## A save that is applied late -/

/-- The edit `a` is saved on one connection and `b` on the next. -/
def editsAcross : List Event :=
  [.edit "a", .debounce, .disconnect, .connect, .edit "b", .debounce]

/-- Both saves are applied as they were emitted. -/
def inTurn : List Event := editsAcross ++ [Event.apply 0 true, .apply 1 true, .acknowledge 1]

/-- The first save is applied after the acknowledgement of the second. -/
def outOfTurn : List Event := editsAcross ++ [Event.apply 1 true, .acknowledge 1, .apply 0 true]

instance (s : State) (a : Event) : Decidable (Stale s a) :=
  match a with
  | .apply i true =>
    match h : s.saves[i]? with
    | some attempt =>
      decidable_of_iff (s.stored ≠ attempt.text ∧ ∃ later ∈ s.saves,
          attempt.connection < later.connection ∧ later.applied = some true)
        ⟨fun hs => ⟨i, attempt, rfl, h, hs⟩, fun ⟨_, _, ha, hi, hs⟩ => by
          cases ha
          cases h.symm.trans hi
          exact hs⟩
    | none => isFalse fun ⟨_, _, ha, hi, _⟩ => by
        cases ha
        cases h.symm.trans hi
  | .apply _ false => isFalse fun ⟨_, _, ha, _⟩ => by cases ha
  | .edit _ | .receive _ | .debounce | .timeout _ | .acknowledge _ | .disconnect | .connect
  | .reconnect => isFalse fun ⟨_, _, ha, _⟩ => by cases ha

/-- Take the steps as long as none is stale. -/
def freshStep (s : State) (a : Event) : Option State := if Stale s a then none else step s a

theorem saved_means_saved_in_turn :
    ∃ s, ((system true "").restrict fun s a _ => ¬ Stale s a).Run (.init true "") inTurn s ∧
      Honest s ∧ s.stored = "b" ∧ s.dirty = false := by
  have h : (inTurn.foldlM freshStep (.init true "")).any (fun s =>
      s.stored = "b" ∧ s.dirty = false) = true := by decide
  obtain ⟨s, hs, hend⟩ := (Option.any_eq_true _ _).mp h
  have hrun : ((system true "").restrict fun s a _ => ¬ Stale s a).Run (.init true "") inTurn s := by
    refine System.run_of_foldlM (fun x a y hxy => ?_) hs
    rw [freshStep] at hxy
    split at hxy
    · cases hxy
    · rename_i hstale
      exact ⟨hstale, hxy⟩
  exact ⟨s, hrun, saved_means_saved hrun, of_decide_eq_true hend⟩

theorem late_save_stored : ¬ ∀ (connected : Bool) (stored : String) (as : List Event) (s : State),
    (system connected stored).Run (.init connected stored) as s → Honest s := by
  intro hall
  have h : (outOfTurn.foldlM step (.init true "")).any (fun s => s.stored = "a" ∧
      s.lastEdit = some "b" ∧ s.edited = true ∧ s.dirty = false ∧
        ∀ save ∈ s.saves, save.applied.isSome) = true := by decide
  obtain ⟨s, hs, hend⟩ := (Option.any_eq_true _ _).mp h
  obtain ⟨hstored, hlast, hedited, hdirty, happlied⟩ := of_decide_eq_true hend
  have hrun : (system true "").Run (.init true "") outOfTurn s :=
    System.run_of_foldlM (fun _ _ _ h => h) hs
  have hhonest := (hall true "" outOfTurn s hrun).stored hedited hdirty happlied
  rw [hstored, hlast] at hhonest
  exact absurd hhonest (by decide)

end WebSSH.Notepad
