import Mathlib
import WebSSH.Lib.LockOrder
import WebSSH.Lib.Pending
import WebSSH.Transfer.SourceLocks

/-!
# Sections over the same sources

A section whose entries are registered keeps them in `_SOURCE_LOCKS` until it is done, so that two
sections over a source lock the same object, which one of them has at a time. The sections take
their locks in the order of the source ids and therefore do not wait for each other in a circle.
-/

namespace WebSSH.SourceLocks
open Lib Function

/-! ## Stages -/

namespace Stage

/-- The entries that a section has registered. -/
def entries : Stage → Entries
  | registering _ | done => []
  | acquiring es _ | checking es _ | body es | releasing es _ => es

/-- The sources of a section, in the order of their locks. -/
def ids : Stage → List String
  | registering ids => ids
  | stage => stage.entries.map Prod.fst

/-- The entries that a section has locked. -/
def held : Stage → Entries
  | registering _ | done => []
  | acquiring es n | checking es n | releasing es n => es.take n
  | body es => es

/-- No more entries are locked than there are. -/
def Bounded : Stage → Prop
  | acquiring es n => n < es.length
  | checking es n | releasing es n => n ≤ es.length
  | _ => True

end Stage

theorem sourceId_eq_some {value : Python.Value} {id : String} (h : sourceId value = some id) :
    value = .str id := by
  unfold sourceId at h
  split at h
  · split at h
    · cases h
    · cases h
      rfl
  · cases h

theorem mem_canonicalIds {sourceIds : List Python.Value} {ids : List String}
    (h : canonicalIds sourceIds = some ids) {id : String} :
    id ∈ ids ↔ .str id ∈ sourceIds := by
  unfold canonicalIds at h
  split at h
  · cases h
  obtain ⟨all, hall, rfl⟩ := Option.map_eq_some_iff.mp h
  rw [(List.perm_insertionSort _ _).mem_iff, List.mem_dedup]
  clear h
  rename_i hne
  clear hne
  induction sourceIds generalizing all with
  | nil =>
    cases hall
    exact ⟨nofun, nofun⟩
  | cons value values ih =>
    rw [List.mapM_cons] at hall
    obtain ⟨first, hfirst, hall⟩ := Option.bind_eq_some_iff.mp hall
    obtain ⟨rest, hrest, hall⟩ := Option.bind_eq_some_iff.mp hall
    cases hall
    rw [sourceId_eq_some hfirst, List.mem_cons, List.mem_cons, ih rest hrest]
    simp

theorem canonicalIds_sorted {sourceIds : List Python.Value} {ids : List String}
    (h : canonicalIds sourceIds = some ids) : ids.Pairwise (· < ·) := by
  unfold canonicalIds at h
  split at h
  · cases h
  obtain ⟨all, -, rfl⟩ := Option.map_eq_some_iff.mp h
  have hsorted : (all.dedup.insertionSort (· ≤ ·)).Pairwise (· ≤ ·) :=
    List.pairwise_insertionSort _ _
  have hnodup : (all.dedup.insertionSort (· ≤ ·)).Nodup :=
    (List.perm_insertionSort _ _).nodup_iff.mpr all.nodup_dedup
  exact (hsorted.and hnodup).imp fun h => lt_of_le_of_ne h.1 h.2

/-! ## The invariant -/

/-- How often a source occurs among the entries of the sections. -/
def uses (sections : List Stage) (id : String) : Nat :=
  (sections.flatMap fun x => x.entries.map Prod.fst).count id

structure Inv (s : State) : Prop where
  counted : s.sourceLocks.Counted (uses s.sections)
  entries : ∀ x ∈ s.sections, ∀ e ∈ x.entries, s.sourceLocks.table.get? e.1 = some e.2
  sorted : ∀ x ∈ s.sections, x.ids.Pairwise (· < ·)
  bounded : ∀ x ∈ s.sections, x.Bounded
  held : ∀ i entry, s.locks entry = some i ↔
    ∃ x, s.sections[i]? = some x ∧ entry ∈ x.held.map Prod.snd

variable {s s' : State} {a : Action} {i j n : Nat} {x y stage : Stage} {es : Entries}
  {sections : List Stage} {ids : List String}

theorem uses_pos {e : String × Nat} (hx : x ∈ sections) (he : e ∈ x.entries) :
    0 < uses sections e.1 :=
  List.count_pos_iff.mpr (List.mem_flatMap.mpr ⟨x, hx, List.mem_map_of_mem he⟩)

theorem uses_set (stage : Stage) (hx : sections[i]? = some x) (id : String) :
    uses (sections.set i stage) id + (x.entries.map Prod.fst).count id =
      uses sections id + (stage.entries.map Prod.fst).count id :=
  Pending.count_set stage (fun x => x.entries.map Prod.fst) id hx

theorem inv_init : Inv .init where
  counted := .init
  entries _ h := nomatch h
  sorted _ h := nomatch h
  bounded _ h := nomatch h
  held i entry := ⟨nofun, by simp [State.init]⟩

namespace Inv

/-- The entries of a section are different objects. -/
theorem nodup (H : Inv s) (hx : x ∈ s.sections) : (x.entries.map Prod.snd).Nodup := by
  have hids : (x.entries.map Prod.fst).Nodup := by
    cases x with
    | registering ids => exact .nil
    | done => exact .nil
    | acquiring es n => exact (H.sorted _ hx).imp ne_of_lt
    | checking es n => exact (H.sorted _ hx).imp ne_of_lt
    | body es => exact (H.sorted _ hx).imp ne_of_lt
    | releasing es n => exact (H.sorted _ hx).imp ne_of_lt
  refine (List.Nodup.of_map _ hids).map_on fun e he e' he' heq => Prod.ext ?_ heq
  have := H.entries x hx e' he'
  rw [← heq] at this
  exact H.counted.inj _ _ _ (H.entries x hx e he) this

/-- A section goes on with the entries that it has, and locks or unlocks some. -/
theorem move (H : Inv s) (stage : Stage) (hx : s.sections[i]? = some x) (hentries : stage.entries = x.entries)
    (hids : stage.ids = x.ids) (hbounded : stage.Bounded) (locks : Nat → Option Nat)
    (hlocks : ∀ k entry, locks entry = some k ↔
      if k = i then entry ∈ stage.held.map Prod.snd else s.locks entry = some k) :
    Inv { s with locks := locks, sections := s.sections.set i stage } where
  counted := by
    have huses : uses (s.sections.set i stage) = uses s.sections := by
      funext id
      have := uses_set stage hx id
      rw [hentries] at this
      omega
    rw [huses]
    exact H.counted
  entries y hy := by
    rcases List.mem_or_eq_of_mem_set hy with hy | rfl
    · exact H.entries y hy
    · rw [hentries]
      exact H.entries x (List.mem_of_getElem? hx)
  sorted y hy := by
    rcases List.mem_or_eq_of_mem_set hy with hy | rfl
    · exact H.sorted y hy
    · rw [hids]
      exact H.sorted x (List.mem_of_getElem? hx)
  bounded y hy := by
    rcases List.mem_or_eq_of_mem_set hy with hy | rfl
    · exact H.bounded y hy
    · exact hbounded
  held k entry := by
    rw [hlocks]
    split
    · subst k
      rw [List.getElem?_set_self (List.getElem?_eq_some_iff.mp hx).1]
      simp
    · rename_i hk
      rw [List.getElem?_set_ne (Ne.symm hk)]
      exact H.held k entry

/-- No lock changes hands. -/
theorem goto (H : Inv s) (stage : Stage) (hx : s.sections[i]? = some x) (hentries : stage.entries = x.entries)
    (hids : stage.ids = x.ids) (hbounded : stage.Bounded) (hheld : stage.held = x.held) :
    Inv (s.goto i stage) :=
  H.move stage hx hentries hids hbounded s.locks fun k entry => by
    split
    · subst k
      rw [hheld, H.held, hx]
      simp
    · rfl

theorem next_entries (es : Entries) (n : Nat) : (Stage.next es n).entries = es := by
  unfold Stage.next
  split <;> rfl

theorem next_ids (es : Entries) (n : Nat) : (Stage.next es n).ids = es.map Prod.fst := by
  unfold Stage.next
  split <;> rfl

theorem next_bounded (es : Entries) (n : Nat) : (Stage.next es n).Bounded := by
  unfold Stage.next
  split
  · exact ‹n < es.length›
  · trivial

theorem next_held (es : Entries) (n : Nat) : (Stage.next es n).held = es.take n := by
  unfold Stage.next
  split
  · rfl
  · exact (List.take_of_length_le (Nat.le_of_not_lt ‹_›)).symm

theorem enter (H : Inv s) (hids : ids.Pairwise (· < ·)) :
    Inv { s with sections := s.sections ++ [.registering ids] } where
  counted := by
    have huses : uses (s.sections ++ [.registering ids]) = uses s.sections := by
      funext id
      simp [uses, Stage.entries]
    rw [huses]
    exact H.counted
  entries y hy := by
    rcases List.mem_append.mp hy with hy | hy
    · exact H.entries y hy
    · cases List.mem_singleton.mp hy
      exact nofun
  sorted y hy := by
    rcases List.mem_append.mp hy with hy | hy
    · exact H.sorted y hy
    · cases List.mem_singleton.mp hy
      exact hids
  bounded y hy := by
    rcases List.mem_append.mp hy with hy | hy
    · exact H.bounded y hy
    · cases List.mem_singleton.mp hy
      trivial
  held k entry := by
    rw [H.held]
    rcases Nat.lt_or_ge k s.sections.length with hk | hk
    · rw [List.getElem?_append_left hk]
    · rw [List.getElem?_append_right hk, List.getElem?_eq_none hk]
      refine iff_of_false nofun ?_
      rintro ⟨y, hy, hmem⟩
      cases List.mem_singleton.mp (List.mem_of_getElem? hy)
      cases hmem

/-- The block in which the entries are made or found. -/
theorem register (H : Inv s) (hx : s.sections[i]? = some (.registering ids)) :
    Inv ({ s with sourceLocks := (s.sourceLocks.retainAll ids).2 }.goto i
      (.next (s.sourceLocks.retainAll ids).1 0)) := by
  obtain ⟨hcounted, hids, hes, hext⟩ := H.counted.retainAll ids
  generalize (s.sourceLocks.retainAll ids).1 = es at hids hes ⊢
  generalize (s.sourceLocks.retainAll ids).2 = sourceLocks at hcounted hes hext ⊢
  refine ⟨?_, fun y hy => ?_, fun y hy => ?_, fun y hy => ?_, fun k entry => ?_⟩
  · have huses : uses (s.sections.set i (.next es 0)) =
        fun id => uses s.sections id + ids.count id := by
      funext id
      have := uses_set (.next es 0) hx id
      rw [next_entries, hids] at this
      exact this
    simp only [State.goto]
    rw [huses]
    exact hcounted
  · rcases List.mem_or_eq_of_mem_set hy with hy | rfl
    · exact fun e he => hext _ _ (H.entries y hy e he)
    · rw [next_entries]
      exact hes
  · rcases List.mem_or_eq_of_mem_set hy with hy | rfl
    · exact H.sorted y hy
    · rw [next_ids, hids]
      exact H.sorted _ (List.mem_of_getElem? hx)
  · rcases List.mem_or_eq_of_mem_set hy with hy | rfl
    · exact H.bounded y hy
    · exact next_bounded es 0
  · refine (H.held k entry).trans ?_
    rcases Decidable.eq_or_ne k i with rfl | hk
    · simp only [State.goto]
      rw [List.getElem?_set_self (List.getElem?_eq_some_iff.mp hx).1, hx]
      simp only [Option.some.injEq, exists_eq_left', next_held]
      rfl
    · simp only [State.goto]
      rw [List.getElem?_set_ne (Ne.symm hk)]

/-- The block in which the entries are given back. -/
theorem unregister (H : Inv s) (hx : s.sections[i]? = some (.releasing es 0)) :
    Inv ({ s with sourceLocks := s.sourceLocks.dropAll es }.goto i .done) := by
  have huses : uses s.sections =
      fun id => uses (s.sections.set i .done) id + (es.map Prod.fst).count id := by
    funext id
    exact (uses_set .done hx id).symm
  have hcounted := H.counted
  rw [huses] at hcounted
  obtain ⟨hcounted, hkept⟩ := hcounted.dropAll (H.entries _ (List.mem_of_getElem? hx))
  refine ⟨hcounted, fun y hy e he => ?_, fun y hy => ?_, fun y hy => ?_, fun k entry => ?_⟩
  · have hpos := uses_pos hy he
    rcases List.mem_or_eq_of_mem_set hy with hy | rfl
    · exact hkept _ _ hpos (H.entries y hy e he)
    · cases he
  · rcases List.mem_or_eq_of_mem_set hy with hy | rfl
    · exact H.sorted y hy
    · exact .nil
  · rcases List.mem_or_eq_of_mem_set hy with hy | rfl
    · exact H.bounded y hy
    · trivial
  · refine (H.held k entry).trans ?_
    rcases Decidable.eq_or_ne k i with rfl | hk
    · simp only [State.goto]
      rw [List.getElem?_set_self (List.getElem?_eq_some_iff.mp hx).1, hx]
      simp [Stage.held]
    · simp only [State.goto]
      rw [List.getElem?_set_ne (Ne.symm hk)]

theorem take_succ {l : Entries} {e : String × Nat} (h : l[n]? = some e) :
    (l.take (n + 1)).map Prod.snd = (l.take n).map Prod.snd ++ [e.2] := by
  rw [List.take_add_one, h]
  simp

theorem acquire (H : Inv s) (hx : s.sections[i]? = some (.acquiring es n)) {id : String}
    {entry : Nat} (he : es[n]? = some (id, entry)) (hfree : s.locks entry = none) :
    Inv ({ s with locks := update s.locks entry (some i) }.goto i (.checking es (n + 1))) := by
  refine H.move (.checking es (n + 1)) hx rfl rfl (List.getElem?_eq_some_iff.mp he).1 _ fun k entry' => ?_
  have hheld : s.locks entry' = some i ↔ entry' ∈ (es.take n).map Prod.snd := by
    rw [H.held, hx]
    simp only [Option.some.injEq, exists_eq_left', Stage.held]
  simp only [Stage.held, take_succ he, List.mem_append, List.mem_singleton, update_apply]
  split
  · subst entry'
    rcases Decidable.eq_or_ne k i with rfl | hk
    · simp
    · simp [hk, hfree, Ne.symm hk]
  · rcases Decidable.eq_or_ne k i with rfl | hk
    · simp [*]
    · simp [hk]

theorem release (H : Inv s) (hx : s.sections[i]? = some (.releasing es (n + 1))) {id : String}
    {entry : Nat} (he : es[n]? = some (id, entry)) :
    Inv ({ s with locks := update s.locks entry none }.goto i (.releasing es n)) := by
  refine H.move (.releasing es n) hx rfl rfl (Nat.le_of_lt (List.getElem?_eq_some_iff.mp he).1) _
    fun k entry' => ?_
  have hheld : ∀ entry', s.locks entry' = some i ↔
      entry' ∈ (es.take n).map Prod.snd ∨ entry' = entry := by
    intro entry'
    rw [H.held, hx]
    simp only [Option.some.injEq, exists_eq_left', Stage.held, take_succ he, List.mem_append,
      List.mem_singleton]
  -- the entry is no other one that the section has locked
  have hnot : entry ∉ (es.take n).map Prod.snd := by
    have hnodup : ((es.take (n + 1)).map Prod.snd).Nodup :=
      (H.nodup (List.mem_of_getElem? hx)).sublist ((List.take_sublist _ _).map _)
    rw [take_succ he] at hnodup
    exact fun hmem => (List.disjoint_of_nodup_append hnodup) hmem (List.mem_singleton_self _)
  simp only [Stage.held, update_apply]
  split
  · subst entry'
    have := (hheld entry).mpr (.inr rfl)
    rcases Decidable.eq_or_ne k i with rfl | hk
    · simpa using hnot
    · simp [hk, this, Ne.symm hk]
  · rcases Decidable.eq_or_ne k i with rfl | hk
    · simp [*]
    · simp [hk]

theorem act (H : Inv s) (hs : s.act a = some s') : Inv s' := by
  cases a with
  | enter sourceIds =>
    simp only [State.act] at hs
    split at hs
    · cases hs
      exact H
    · cases hs
      exact H.enter (canonicalIds_sorted ‹_›)
  | register i =>
    simp only [State.act] at hs
    split at hs
    · cases hs
      exact H.register ‹_›
    · cases hs
  | acquire i =>
    simp only [State.act] at hs
    split at hs
    · split at hs
      · cases hs
      · split at hs
        · cases hs
          exact H.acquire ‹_› ‹_› ‹_›
        · cases hs
    · cases hs
  | timeout i cancelled =>
    simp only [State.act] at hs
    split at hs
    · rename_i es n hx
      cases hs
      split
      · have hbounded : n < es.length := H.bounded _ (List.mem_of_getElem? hx)
        exact H.goto (.releasing es n) hx rfl rfl (Nat.le_of_lt hbounded) rfl
      · exact H
    · cases hs
  | check i cancelled =>
    simp only [State.act] at hs
    split at hs
    · rename_i es n hx
      have hbounded : n ≤ es.length := H.bounded _ (List.mem_of_getElem? hx)
      cases hs
      split
      · exact H.goto (.releasing es n) hx rfl rfl hbounded rfl
      · exact H.goto (.next es n) hx (next_entries es n) (next_ids es n) (next_bounded es n)
          (next_held es n)
    · cases hs
  | leave i =>
    simp only [State.act] at hs
    split at hs
    · rename_i es hx
      cases hs
      exact H.goto (.releasing es es.length) hx rfl rfl (Nat.le_refl _) List.take_length
    · cases hs
  | release i =>
    simp only [State.act] at hs
    split at hs
    · split at hs
      · cases hs
      · cases hs
        exact H.release ‹_› ‹_›
    · cases hs
  | unregister i =>
    simp only [State.act] at hs
    split at hs
    · cases hs
      exact H.unregister ‹_›
    · cases hs

end Inv

/-! ## Progress -/

/-- A step by which a section comes nearer to its end; it is not cancelled by it. -/
def Action.Progress : Action → Prop
  | register _ | acquire _ | check _ false | leave _ | release _ | unregister _ => True
  | enter _ | timeout _ _ | check _ true => False

/-- How many steps a section has before it at most. -/
def Stage.work : Stage → Nat
  | registering ids => 3 * ids.length + 4
  | acquiring es n => 2 * (es.length - n) + es.length + 3
  | checking es n => 2 * (es.length - n) + es.length + 4
  | body es => es.length + 2
  | releasing _ n => n + 1
  | done => 0

def State.work (s : State) : Nat := (s.sections.map Stage.work).sum

theorem next_work (es : Entries) (n : Nat) :
    (Stage.next es n).work < 2 * (es.length - n) + es.length + 4 := by
  unfold Stage.next
  split
  · simp only [Stage.work]
    omega
  · simp only [Stage.work]
    omega

theorem length_retainAll (t : RefTable String) (ids : List String) :
    (t.retainAll ids).1.length = ids.length := by
  induction ids generalizing t with
  | nil => rfl
  | cons id ids ih => exact congrArg (· + 1) (ih _)

/-- The locks of a section are those of smaller ids than the one that it waits for. -/
theorem lt_of_mem_take {e e' : String × Nat} (h : (es.map Prod.fst).Pairwise (· < ·))
    (he : es[n]? = some e) (he' : e' ∈ es.take n) : e'.1 < e.1 := by
  obtain ⟨hn, rfl⟩ := List.getElem?_eq_some_iff.mp he
  rw [← List.take_append_drop n es, List.drop_eq_getElem_cons hn, List.map_append,
    List.map_cons] at h
  exact (List.pairwise_append.mp h).2.2 _ (List.mem_map_of_mem he') _ List.mem_cons_self

/-- A section can go on. -/
def State.Progresses (s : State) : Prop :=
  ∃ a s', a.Progress ∧ s.act a = some s' ∧ s'.work < s.work

theorem progresses_of {i : Nat} (hx : s.sections[i]? = some x) (ha : a.Progress)
    (hs : s.act a = some s') (hsections : s'.sections = s.sections.set i y)
    (hwork : y.work < x.work) : s.Progresses := by
  have := Pending.sum_set y Stage.work hx
  refine ⟨a, s', ha, hs, ?_⟩
  rw [State.work, State.work, hsections]
  omega

/-- Who has the lock of a source. -/
def State.holder (s : State) (id : String) : Option Nat :=
  s.sourceLocks.table.get? id >>= s.locks

/-- A section waits for the lock of an entry. -/
structure Waits (s : State) (i : Nat) (es : Entries) (n : Nat) (id : String) (entry : Nat) :
    Prop where
  stage : s.sections[i]? = some (.acquiring es n)
  next : es[n]? = some (id, entry)

namespace Inv

/-- A section that does not wait goes on. -/
theorem progresses_of_not_acquiring (H : Inv s) (hx : s.sections[i]? = some x)
    (hdone : x ≠ .done) (hnot : ∀ es n, x ≠ .acquiring es n) : s.Progresses := by
  cases x with
  | done => exact absurd rfl hdone
  | acquiring es n => exact absurd rfl (hnot es n)
  | registering ids =>
    refine progresses_of (a := .register i) hx trivial (by rw [State.act, hx]) rfl ?_
    have := next_work (s.sourceLocks.retainAll ids).1 0
    rw [length_retainAll] at this
    refine Nat.lt_of_lt_of_le this ?_
    simp only [Stage.work]
    omega
  | checking es n =>
    exact progresses_of (a := .check i false) hx trivial (by rw [State.act, hx]) rfl
      (next_work es n)
  | body es =>
    exact progresses_of (a := .leave i) hx trivial (by rw [State.act, hx]) rfl (Nat.lt_succ_self _)
  | releasing es n =>
    cases n with
    | zero =>
      exact progresses_of (a := .unregister i) hx trivial (by rw [State.act, hx]; rfl) rfl
        (Nat.lt_succ_self _)
    | succ n =>
      have hn : n < es.length := H.bounded _ (List.mem_of_getElem? hx)
      exact progresses_of (a := .release i) hx trivial
        (by simp only [State.act, hx, List.getElem?_eq_getElem hn]; rfl) rfl (Nat.lt_succ_self _)

/-- A section goes on if the lock that it waits for is free. -/
theorem progresses_of_free (hx : s.sections[i]? = some (.acquiring es n)) {id : String}
    {entry : Nat} (he : es[n]? = some (id, entry)) (hfree : s.locks entry = none) :
    s.Progresses := by
  refine progresses_of (a := .acquire i) hx trivial
    (by simp only [State.act, hx, he, if_pos hfree]; rfl) rfl ?_
  have := (List.getElem?_eq_some_iff.mp he).1
  simp only [Stage.work]
  omega

/-- The sources of the locks of a section come before the one that it waits for. -/
theorem lt_of_holds (H : Inv s) {id : String} {entry : Nat} (h : Waits s j es n id entry)
    {k : String} (hk : s.holder k = some j) : k < id := by
  obtain ⟨obj, hobj, hlock⟩ := Option.bind_eq_some_iff.mp hk
  obtain ⟨y, hy, hmem⟩ := (H.held j obj).mp hlock
  cases Option.some_inj.mp (h.stage.symm.trans hy)
  obtain ⟨e, he, rfl⟩ := List.mem_map.mp hmem
  have hx : Stage.acquiring es n ∈ s.sections := List.mem_of_getElem? h.stage
  cases H.counted.inj _ _ _ (H.entries _ hx e (List.mem_of_mem_take he)) hobj
  exact lt_of_mem_take (H.sorted _ hx) h.next he

theorem holder_eq (H : Inv s) {id : String} {entry : Nat} (h : Waits s i es n id entry) :
    s.holder id = s.locks entry := by
  have := H.entries _ (List.mem_of_getElem? h.stage) _ (List.mem_of_getElem? h.next)
  rw [State.holder, this]
  rfl

/-- As long as a section is not done, one can go on. -/
theorem progresses (H : Inv s) (hx : x ∈ s.sections) (hdone : x ≠ .done) : s.Progresses := by
  rcases Classical.em (∃ y ∈ s.sections, y ≠ .done ∧ ∀ es n, y ≠ .acquiring es n) with
    ⟨y, hy, hdone, hnot⟩ | hall
  · obtain ⟨i, hi⟩ := List.getElem?_of_mem hy
    exact H.progresses_of_not_acquiring hi hdone hnot
  -- otherwise those that are not done wait for their next lock
  have hwaits : ∀ i y, s.sections[i]? = some y → y ≠ .done →
      ∃ es n id entry, Waits s i es n id entry := by
    intro i y hi hdone
    have hy := List.mem_of_getElem? hi
    obtain ⟨es, n, rfl⟩ : ∃ es n, y = .acquiring es n :=
      Classical.byContradiction fun h => hall ⟨y, hy, hdone, fun es n heq => h ⟨es, n, heq⟩⟩
    have hn : n < es.length := H.bounded _ hy
    exact ⟨es, n, es[n].1, es[n].2, hi, List.getElem?_eq_getElem hn⟩
  let waiting := (List.range s.sections.length).filter fun i => s.sections[i]? ≠ some .done
  have hmem : ∀ {i y}, s.sections[i]? = some y → y ≠ .done → i ∈ waiting := by
    intro i y hi hdone
    refine List.mem_filter.mpr ⟨List.mem_range.mpr (List.getElem?_eq_some_iff.mp hi).1, ?_⟩
    simpa [hi] using hdone
  have hof : ∀ i ∈ waiting, ∃ es n id entry, Waits s i es n id entry := by
    intro i hi
    obtain ⟨hi, hdone⟩ := List.mem_filter.mp hi
    have hi := List.getElem?_eq_getElem (List.mem_range.mp hi)
    exact hwaits i _ hi fun h => of_decide_eq_true hdone (hi.trans (congrArg some h))
  choose! es n wants entry hwants using hof
  obtain ⟨i, hi⟩ := List.getElem?_of_mem hx
  obtain ⟨i, hi, hfree⟩ : ∃ i ∈ waiting, s.holder (wants i) = none := by
    refine exists_free_of_ascending (List.ne_nil_of_mem (hmem hi hdone)) wants s.holder
      (fun i hi j hj => ?_) fun k j hj hk => H.lt_of_holds (hwants j hj) hk
    rw [H.holder_eq (hwants i hi), H.held] at hj
    obtain ⟨y, hy, hheld⟩ := hj
    refine hmem hy ?_
    rintro rfl
    cases hheld
  have h := hwants i hi
  exact progresses_of_free h.stage h.next ((H.holder_eq h).symm.trans hfree)

/-- The sections come to their end, if no others are entered and the bodies end. -/
theorem drains (H : Inv s) : ∃ as t, (∀ a ∈ as, a.Progress) ∧ system.Run s as t ∧
    ∀ x ∈ t.sections, x = .done := by
  induction hwork : s.work using Nat.strong_induction_on generalizing s with
  | h w ih =>
    rcases Classical.em (∃ x ∈ s.sections, x ≠ .done) with ⟨x, hx, hdone⟩ | hall
    · obtain ⟨a, s', ha, hs, hlt⟩ := H.progresses hx hdone
      obtain ⟨as, t, has, hrun, ht⟩ := ih s'.work (hwork ▸ hlt) (H.act hs) rfl
      exact ⟨a :: as, t, List.forall_mem_cons.mpr ⟨ha, has⟩, .cons hs hrun, ht⟩
    · exact ⟨[], s, nofun, .refl, fun x hx => Classical.byContradiction fun h => hall ⟨x, hx, h⟩⟩

end Inv

/-! ## Runs -/

/-- The ids with which a section is entered. -/
def Action.entered : Action → Option (List Python.Value)
  | enter sourceIds => if (canonicalIds sourceIds).isSome then some sourceIds else none
  | _ => none

/-- The sections of a run with their ids. -/
def entered (as : List Action) : List (List Python.Value) := as.filterMap Action.entered

/-- The sections are the same, each with the sources that it had, or done. -/
structure SameSources (l l' : List Stage) : Prop where
  length : l'.length = l.length
  ids : ∀ (i : Nat) (y : Stage), l'[i]? = some y → y = .done ∨
    ∃ x, l[i]? = some x ∧ x ≠ .done ∧ y.ids = x.ids

theorem SameSources.refl (sections : List Stage) : SameSources sections sections :=
  ⟨rfl, fun _ y h => (Decidable.em (y = .done)).imp_right fun hdone => ⟨y, h, hdone, rfl⟩⟩

theorem SameSources.set (hx : sections[i]? = some x) (hdone : x ≠ .done)
    (hy : y = .done ∨ y.ids = x.ids) : SameSources sections (sections.set i y) := by
  refine ⟨List.length_set, fun j z hz => ?_⟩
  rcases Decidable.eq_or_ne j i with rfl | hj
  · rw [List.getElem?_set_self (List.getElem?_eq_some_iff.mp hx).1] at hz
    cases hz
    exact hy.imp_right fun hy => ⟨x, hx, hdone, hy⟩
  · rw [List.getElem?_set_ne (Ne.symm hj)] at hz
    exact (SameSources.refl sections).ids j z hz

theorem act_sections (H : Inv s) (hs : s.act a = some s') :
    (∃ sourceIds ids, a = .enter sourceIds ∧ canonicalIds sourceIds = some ids ∧
      s'.sections = s.sections ++ [.registering ids]) ∨
      a.entered = none ∧ SameSources s.sections s'.sections := by
  cases a with
  | enter sourceIds =>
    simp only [State.act] at hs
    split at hs
    · rename_i hnone
      cases hs
      exact .inr ⟨by simp [Action.entered, hnone], .refl _⟩
    · cases hs
      exact .inl ⟨_, _, rfl, ‹_›, rfl⟩
  | register i =>
    simp only [State.act] at hs
    split at hs
    · rename_i ids hx
      cases hs
      refine .inr ⟨rfl, .set hx nofun (.inr ?_)⟩
      rw [Inv.next_ids]
      exact (H.counted.retainAll ids).2.1
    · cases hs
  | acquire i =>
    simp only [State.act] at hs
    split at hs
    · rename_i hx
      split at hs
      · cases hs
      · split at hs
        · cases hs
          exact .inr ⟨rfl, .set hx nofun (.inr rfl)⟩
        · cases hs
    · cases hs
  | timeout i cancelled =>
    simp only [State.act] at hs
    split at hs
    · rename_i hx
      cases hs
      split
      · exact .inr ⟨rfl, .set hx nofun (.inr rfl)⟩
      · exact .inr ⟨rfl, .refl _⟩
    · cases hs
  | check i cancelled =>
    simp only [State.act] at hs
    split at hs
    · rename_i hx
      cases hs
      refine .inr ⟨rfl, .set hx nofun (.inr ?_)⟩
      split
      · rfl
      · exact Inv.next_ids _ _
    · cases hs
  | leave i =>
    simp only [State.act] at hs
    split at hs
    · rename_i hx
      cases hs
      exact .inr ⟨rfl, .set hx nofun (.inr rfl)⟩
    · cases hs
  | release i =>
    simp only [State.act] at hs
    split at hs
    · rename_i hx
      split at hs
      · cases hs
      · cases hs
        exact .inr ⟨rfl, .set hx nofun (.inr rfl)⟩
    · cases hs
  | unregister i =>
    simp only [State.act] at hs
    split at hs
    · rename_i hx
      cases hs
      exact .inr ⟨rfl, .set hx nofun (.inl rfl)⟩
    · cases hs

/-- The sources of each section are those that it was entered with. -/
structure Tracks (as : List Action) (s : State) : Prop where
  inv : Inv s
  length : (entered as).length = s.sections.length
  ids : ∀ (i : Nat) (x : Stage), s.sections[i]? = some x → x = .done ∨
    ∃ sourceIds, (entered as)[i]? = some sourceIds ∧ canonicalIds sourceIds = some x.ids

theorem tracks_of_run {as : List Action} (h : system.Run .init as s) : Tracks as s := by
  refine h.history ⟨inv_init, rfl, nofun⟩ fun bs x a y H hs => ?_
  have hinv := H.inv.act hs
  rcases act_sections H.inv hs with ⟨sourceIds, ids, rfl, hids, hsections⟩ | ⟨hnone, hsame⟩
  · have hentered : entered (bs ++ [.enter sourceIds]) = entered bs ++ [sourceIds] := by
      simp [entered, Action.entered, hids]
    refine ⟨hinv, ?_, fun i z hz => ?_⟩
    · rw [hentered, hsections, List.length_append, List.length_append, H.length]
      rfl
    · rw [hentered]
      rw [hsections] at hz
      rcases Nat.lt_or_ge i x.sections.length with hi | hi
      · rw [List.getElem?_append_left hi] at hz
        rw [List.getElem?_append_left (H.length ▸ hi)]
        exact H.ids i z hz
      · rw [List.getElem?_append_right hi] at hz
        rw [List.getElem?_append_right (H.length ▸ hi), H.length]
        cases h : i - x.sections.length with
        | zero =>
          rw [h] at hz
          cases hz
          exact .inr ⟨sourceIds, rfl, hids⟩
        | succ n =>
          rw [h] at hz
          cases hz
  · have hentered : entered (bs ++ [a]) = entered bs := by
      simp [entered, hnone]
    refine ⟨hinv, ?_, fun i z hz => ?_⟩
    · rw [hentered, hsame.length, H.length]
    · rw [hentered]
      rcases hsame.ids i z hz with hdone | ⟨w, hw, hdone, hids⟩
      · exact .inl hdone
      · rw [hids]
        exact .inr ((H.ids i w hw).resolve_left hdone)

/-- A section that was entered with the source is in its body. -/
def State.Inside (s : State) (as : List Action) (i : Nat) (id : String) : Prop :=
  (∃ es, s.sections[i]? = some (.body es)) ∧
    ∃ sourceIds, (entered as)[i]? = some sourceIds ∧ .str id ∈ sourceIds

theorem Tracks.holder_eq {as : List Action} (H : Tracks as s) {id : String}
    (h : s.Inside as i id) : s.holder id = some i := by
  obtain ⟨⟨es, hi⟩, sourceIds, hsourceIds, hid⟩ := h
  obtain ⟨sourceIds', h', hids⟩ := (H.ids i _ hi).resolve_left nofun
  cases Option.some_inj.mp (hsourceIds.symm.trans h')
  obtain ⟨e, he, rfl⟩ := List.mem_map.mp ((mem_canonicalIds hids).mpr hid)
  rw [State.holder, H.inv.entries _ (List.mem_of_getElem? hi) e he]
  exact (H.inv.held i e.2).mpr ⟨_, hi, List.mem_map_of_mem he⟩

/-- Whatever sections are entered and cancelled, two sections over a source are not in their bodies
together; a section that is not done leaves one that can go on, and all of them come to their end;
the sections over a source have the same object, which is counted as often as there are such
sections; and the table is empty when all are done. -/
theorem source_locks {as : List Action} (h : system.Run .init as s) :
    (∀ i j id, s.Inside as i id → s.Inside as j id → i = j) ∧
      ((∃ x ∈ s.sections, x ≠ .done) → s.Progresses) ∧
      (∃ bs t, (∀ b ∈ bs, b.Progress) ∧ system.Run s bs t ∧ ∀ x ∈ t.sections, x = .done) ∧
      (∀ x ∈ s.sections, ∀ e ∈ x.entries, s.sourceLocks.table.get? e.1 = some e.2) ∧
      (∀ id entry, s.sourceLocks.table.get? id = some entry →
        s.sourceLocks.count entry = uses s.sections id ∧ 0 < uses s.sections id) ∧
      ((∀ x ∈ s.sections, x = .done) → s.sourceLocks.table.entries = []) := by
  have T : Tracks as s := tracks_of_run h
  have H := T.inv
  refine ⟨fun i j id hi hj => ?_, fun ⟨x, hx, hdone⟩ => H.progresses hx hdone, H.drains, H.entries,
    fun id entry hentry => ⟨H.counted.count id entry hentry, ?_⟩, fun hall => ?_⟩
  · exact Option.some_inj.mp ((T.holder_eq hi).symm.trans (T.holder_eq hj))
  · refine Nat.pos_of_ne_zero fun hzero => ?_
    cases ((H.counted.live id).mpr hzero).symm.trans hentry
  · refine H.counted.table_eq_nil fun id => List.count_eq_zero.mpr fun hid => ?_
    obtain ⟨x, hx, hid⟩ := List.mem_flatMap.mp hid
    cases hall x hx
    cases hid

/-- One section waits for another and is cancelled; a third has the source after both. -/
def exampleActions : List Action :=
  [.enter [.str "b", .str "a"], .enter [.str "a"], .register 0, .register 1, .acquire 0,
    .timeout 1 false, .check 0 false, .acquire 0, .check 0 false, .timeout 1 true, .leave 0,
    .release 0, .release 0, .unregister 0, .unregister 1, .enter [.str "a", .str "a"], .register 2,
    .acquire 2, .check 2 false]

theorem source_locks_example :
    ∃ s, system.Run .init exampleActions s ∧ s.Inside exampleActions 2 "a" ∧
      s.sourceLocks.count 2 = uses s.sections "a" := by
  have hexec : (exampleActions.foldlM State.act .init).any (fun s =>
      s.sections[2]? = some (.body [("a", 2)]) ∧
        s.sourceLocks.table.get? "a" = some 2) = true := by decide
  obtain ⟨s, hs, hbody⟩ := (Option.any_eq_true _ _).mp hexec
  obtain ⟨hbody, hentry⟩ := of_decide_eq_true hbody
  have hrun : system.Run .init exampleActions s := System.run_of_foldlM (fun _ _ _ h => h) hs
  exact ⟨s, hrun, ⟨⟨_, hbody⟩, [.str "a", .str "a"], by decide, by decide⟩,
    ((source_locks hrun).2.2.2.2.1 "a" 2 hentry).1⟩

end WebSSH.SourceLocks
