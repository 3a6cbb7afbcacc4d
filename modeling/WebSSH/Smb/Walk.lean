import Mathlib
import WebSSH.Lib.Except
import WebSSH.Smb.Handles

/-!
# The walk of a verified open

The turns of the loop keep what the handles and the identity chain are, and whatever fails leaves
open what the outer handler closes.
-/

namespace WebSSH.Smb.Verified
open Lib Program

/-- The numbers of the handles in `opaque_records`. -/
def Walk.retained (w : Walk) : List Nat := w.opaqueRecords.map Record.handle

/-- Every open handle is one that the outer handler closes. -/
def Covered (s : State) : Prop := ∀ k, s.Pending k → k = s.walk.current ∨ k ∈ s.walk.retained

/-- The open handles are those of the walk. -/
structure Held (s : State) : Prop where
  pending : ∀ k, s.Pending k ↔ k = s.walk.current ∨ k ∈ s.walk.retained
  last : s.walk.opaqueRecords ≠ [] → s.walk.retained.getLast? = some s.walk.current
  nodup : s.walk.retained.Nodup

/-- What has been said about the objects is kept. -/
structure Grows (root : String) (s t : State) : Prop where
  reports : ∀ path fileId, s.Reports path fileId → t.Reports path fileId
  clean : s.Clean root → t.Clean root

section
variable {s t u : State} {h : Handle} {k raw n : Nat} {root path : String} {f : Walk → Walk}

theorem Held.covered (H : Held s) : Covered s := fun k => (H.pending k).mp

theorem pending_add_over (ho : Over h) : (s.add h).Pending k ↔ s.Pending k := by
  rw [State.pending_add]
  refine or_iff_left ?_
  rintro ⟨-, hopening, hclosing⟩
  rw [ho hopening] at hclosing
  cases hclosing

theorem pending_add_open (hopening : h.opening = true) (hclosing : h.closing = false) :
    (s.add h).Pending k ↔ s.Pending k ∨ k = s.handles.length := by
  simp [State.pending_add, hopening, hclosing]

theorem Covered.add_over (H : Covered s) (ho : Over h) : Covered (s.add h) :=
  fun k hk => H k ((pending_add_over ho).mp hk)

theorem Covered.closed (H : Covered s) (raw : Nat) : Covered (s.closed raw) :=
  fun k hk => H k (State.pending_closed.mp hk).1

theorem pending_foldl_closed {raws : List Nat} :
    (raws.foldl State.closed s).Pending k ↔ s.Pending k ∧ k ∉ raws := by
  induction raws generalizing s with
  | nil => simp
  | cons raw raws ih =>
    rw [List.foldl_cons, ih, State.pending_closed, List.mem_cons, not_or, and_assoc]

theorem foldl_closed_walk {raws : List Nat} : (raws.foldl State.closed s).walk = s.walk := by
  induction raws generalizing s with
  | nil => rfl
  | cons raw raws ih => exact ih

theorem Grows.refl : Grows root s s := ⟨fun _ _ h => h, fun h => h⟩

theorem Grows.trans (h₁ : Grows root s t) (h₂ : Grows root t u) : Grows root s u :=
  ⟨fun p i h => h₂.reports p i (h₁.reports p i h), fun h => h₂.clean (h₁.clean h)⟩

theorem Grows.add (hh : h.path ≠ root → h.Plain) : Grows root s (s.add h) :=
  ⟨fun _ _ hr => hr.add h, fun hs => hs.add hh⟩

theorem Grows.closed (raw : Nat) : Grows root s (s.closed raw) :=
  ⟨fun _ _ hr => hr.closed raw, fun hs => hs.closed raw⟩

theorem Grows.setWalk : Grows root s (s.setWalk f) := ⟨fun _ _ h => h, fun h => h⟩

end

/-! ## The prefixes that are retained -/

/-- The prefixes that have been pinned since `s₀`. -/
structure Pinning (root : String) (s₀ s : State) (pinned : List Record) : Prop where
  walk : s.walk = s₀.walk
  pending : ∀ k, s.Pending k ↔ s₀.Pending k ∨ k ∈ pinned.map Record.handle
  nodup : (pinned.map Record.handle).Nodup
  apart : ∀ k ∈ pinned.map Record.handle, ¬ s₀.Pending k
  grows : Grows root s₀ s

section
variable {r : Route} {s₀ s t : State} {pinned : List Record} {R : Error → State → Prop}
  {A : State → Prop}

theorem Pinning.init : Pinning r.root s s [] :=
  ⟨rfl, by simp, .nil, nofun, .refl⟩

/-- An open handle with a report that is no reparse point. -/
theorem Opened.plain_info {path : String} {h : Handle} (hopened : Opened path h) {i : RawInfo}
    (hi : isReparsePoint i.fileAttributes = false) : { h with infos := [i] }.Plain :=
  ⟨hopened.plain.1, by simpa using hi⟩

theorem verifiedDirectoryFlag_plain {info : ObjectInfo} {flag : Bool}
    (h : verifiedDirectoryFlag info = .ok flag) : isReparsePoint info.fileAttributes = false := by
  unfold verifiedDirectoryFlag at h
  split at h
  · cases h
  · exact Bool.not_eq_true _ ▸ ‹¬ isReparsePoint _ = true›

/-- One prefix more is pinned. -/
theorem Pinning.concat (H : Pinning r.root s₀ s pinned) {path : String} {h : Handle}
    (hopened : Opened path h) {i : RawInfo} (hi : isReparsePoint i.fileAttributes = false)
    (info : ObjectInfo) :
    Pinning r.root s₀ (s.add { h with infos := [i] })
      (pinned ++ [⟨path, s.handles.length, info⟩]) := by
  refine ⟨H.walk, fun k => ?_, ?_, fun k hk => ?_, H.grows.trans (.add fun _ => ?_)⟩
  · refine (pending_add_open (h := { h with infos := [i] }) hopened.opening hopened.closing).trans ?_
    rw [H.pending]
    simp only [List.map_append, List.mem_append, List.map_cons, List.map_nil, List.mem_singleton,
      or_assoc]
  · rw [List.map_append]
    refine List.nodup_append.mpr ⟨H.nodup, by simp, ?_⟩
    rintro k hk _ hlast rfl
    cases List.mem_singleton.mp hlast
    exact State.not_pending_length ((H.pending _).mpr (.inr hk))
  · rw [List.map_append] at hk
    rcases List.mem_append.mp hk with hk | hk
    · exact H.apart k hk
    · cases List.mem_singleton.mp hk
      exact fun hp => State.not_pending_length ((H.pending _).mpr (.inl hp))
  · exact hopened.plain_info hi

/-- The prefixes are closed when one fails, so that what was open before is open. -/
theorem Pinning.closeAll (H : Pinning r.root s₀ s pinned) (hwalk : t.walk = s.walk)
    (hpending : ∀ k, t.Pending k → s.Pending k) :
    ((pinned.reverse.map Record.handle).foldl State.closed t).walk = s₀.walk ∧
      ∀ k, ((pinned.reverse.map Record.handle).foldl State.closed t).Pending k → s₀.Pending k := by
  refine ⟨foldl_closed_walk.trans (hwalk.trans H.walk), fun k hk => ?_⟩
  obtain ⟨hk, hnot⟩ := pending_foldl_closed.mp hk
  refine ((H.pending k).mp (hpending k hk)).resolve_right fun hmem => hnot ?_
  rwa [List.map_reverse, List.mem_reverse]

theorem pinPrefixes_does {Q : List Record → State → Prop} {position : Nat} {pinPath : String}
    {components : List String} (H : Pinning r.root s₀ s pinned)
    (hQ : ∀ records t, Pinning r.root s₀ t records →
      records.length = pinned.length + components.length → Q records t)
    (hR : ∀ e t, t.walk = s₀.walk → (∀ k, t.Pending k → s₀.Pending k) → R e t)
    (hA : ∀ t, t.walk = s₀.walk → (∀ k, t.Pending k → s₀.Pending k) → A t) :
    Does (r.pinPrefixes position pinPath pinned components) Q R A s := by
  induction components generalizing position pinPath pinned s with
  | nil => exact .pure (hQ pinned s H rfl)
  | cons component components ih =>
    refine .bind (P := fun record t => Pinning r.root s₀ t (pinned ++ [record])) ?_ ?_
    · -- what fails leaves open what was, and the prefixes, which are closed
      refine .onFailure (E := fun _ t => t.walk = s.walk ∧ ∀ k, t.Pending k → s.Pending k)
        (F := fun t => t.walk = s.walk ∧ ∀ k, t.Pending k → s.Pending k) ?_ ?_ ?_
      · refine .bind (P := fun pin t => ∃ h, pin = s.handles.length ∧ s.add h = t ∧
          Opened (pinPath ++ "\\" ++ component) h) (openRaw_opens s _ _ _
          (fun h hopened => ⟨h, rfl, rfl, hopened⟩) (fun e => ⟨rfl, fun k h => h⟩)
          (fun e h hspoiled => ⟨rfl, fun k => (pending_add_over hspoiled.ended).mp⟩)
          ⟨rfl, fun k h => h⟩ fun h ho => ⟨rfl, fun k => (pending_add_over ho).mp⟩) ?_
        rintro _ _ ⟨h, rfl, rfl, hopened⟩
        refine .bind (P := fun info t => ∃ i, isReparsePoint i.fileAttributes = false ∧
          s.add { h with infos := [i] } = t) (queryChecked_does hopened (P := fun info _ =>
            isReparsePoint info.fileAttributes = false) (fun info => ?_)
            (fun hQ _ => closeQuietly_does hQ) (fun _ i info hi hplain => ⟨i, hi.fileAttributes ▸ hplain, rfl⟩)
            (fun e g ho => ⟨rfl, fun k => (pending_add_over ho).mp⟩)
            fun g ho => ⟨rfl, fun k => (pending_add_over ho).mp⟩) ?_
        · refine reads_bind reads_locals fun w _ => ?_
          split
          · exact reads_raise
          · refine reads_bind reads_ofExcept fun flag hflag => ?_
            split
            · exact reads_pure (verifiedDirectoryFlag_plain hflag)
            · exact reads_raise
        · rintro info _ ⟨i, hi, rfl⟩
          exact .pure (H.concat hopened hi info)
      · rintro e t ⟨hwalk, hpending⟩
        obtain ⟨hwalk, hpending⟩ := H.closeAll hwalk hpending
        exact closeAll_does (hR e _ hwalk hpending)
      · rintro t ⟨hwalk, hpending⟩
        obtain ⟨hwalk, hpending⟩ := H.closeAll hwalk hpending
        exact closeAll_does (hA _ hwalk hpending)
    · intro record t ht
      refine ih ht fun records t hrecords hlength => hQ records t hrecords ?_
      rw [hlength, List.length_append, List.length_cons]
      simp only [List.length_cons, List.length_nil]
      omega

/-- The prefixes become the opaque records, and the last of them the current handle. -/
theorem Pinning.held (H : Pinning r.root s₀ s pinned) (hheld : Held s₀)
    (hempty : s₀.walk.opaqueRecords = []) {last : Record} (hlast : pinned.getLast? = some last) :
    Held ((s.closed s₀.walk.current).setWalk fun w =>
      { w with
        opaqueRecords := w.opaqueRecords ++ pinned
        currentPath := last.path
        current := last.handle
        currentInfo := last.info }) := by
  have hretained : s.walk.opaqueRecords ++ pinned = pinned := by rw [H.walk, hempty]; rfl
  have hmem : last.handle ∈ pinned.map Record.handle :=
    List.mem_map_of_mem (List.mem_of_getLast? hlast)
  have hcurrent : s₀.Pending s₀.walk.current := (hheld.pending _).mpr (.inl rfl)
  refine ⟨fun k => ?_, fun _ => ?_, ?_⟩
  · simp only [State.pending_setWalk, State.setWalk_walk, State.closed_walk, Walk.retained,
      hretained, State.pending_closed, H.pending, hheld.pending, hempty, List.map_nil,
      List.not_mem_nil, or_false]
    refine ⟨fun hk => .inr (hk.1.resolve_left hk.2), fun hk => ?_⟩
    have hk : k ∈ pinned.map Record.handle := hk.elim (fun h => h ▸ hmem) id
    exact ⟨.inr hk, fun h => H.apart k hk (h ▸ hcurrent)⟩
  · simp only [State.setWalk_walk, State.closed_walk, Walk.retained, hretained, List.getLast?_map,
      hlast, Option.map_some]
  · simp only [State.setWalk_walk, State.closed_walk, Walk.retained, hretained]
    exact H.nodup

/-- What a walk goes on with after the prefixes have been retained. -/
structure Retained (root : String) (s t : State) : Prop where
  held : Held t
  records : t.walk.opaqueRecords ≠ []
  identityChain : t.walk.identityChain = s.walk.identityChain
  grows : Grows root s t

theorem retainOpaquePrefix_does {count : Nat} {Q : PUnit → State → Prop} (hheld : Held s)
    (hempty : s.walk.opaqueRecords = []) (hQ : ∀ t, Retained r.root s t → Q ⟨⟩ t)
    (hR : ∀ e t, Covered t → R e t) (hA : ∀ t, Covered t → A t) :
    Does (r.retainOpaquePrefix count) Q R A s := by
  have hcovered : ∀ t, t.walk = s.walk → (∀ k, t.Pending k → s.Pending k) → Covered t := by
    intro t hwalk hpending k hk
    rw [hwalk]
    exact hheld.covered k (hpending k hk)
  refine .bind (locals_does (Q := fun w t => s.walk = w ∧ s = t) ⟨rfl, rfl⟩) ?_
  rintro _ _ ⟨rfl, rfl⟩
  split
  · exact absurd hempty ‹_›
  split
  · -- the share itself
    refine assign_does (hQ _ ⟨⟨fun k => ?_, fun _ => rfl, by simp [Walk.retained]⟩, nofun, rfl,
      .setWalk⟩)
    rw [State.pending_setWalk, hheld.pending, Walk.retained, hempty]
    simp [Walk.retained]
  · refine .bind (P := fun pinned t => Pinning r.root s t pinned ∧
      pinned.length = (r.components.take count).length) (pinPrefixes_does .init
        (fun records t h hlength => ⟨h, by simpa using hlength⟩)
        (fun e t hwalk hpending => hR e t (hcovered t hwalk hpending))
        fun t hwalk hpending => hA t (hcovered t hwalk hpending)) ?_
    rintro pinned t ⟨H, -⟩
    have hclosed : Covered
        ((pinned.reverse.map Record.handle).foldl State.closed (t.closed s.walk.current)) := by
      obtain ⟨hwalk, hpending⟩ := H.closeAll (t := t.closed s.walk.current) rfl
        fun k hk => (State.pending_closed.mp hk).1
      exact hcovered _ hwalk hpending
    refine .bind (P := fun _ u => t.closed s.walk.current = u) ?_ ?_
    · refine .onFailure (E := fun _ u => t.closed s.walk.current = u)
        (F := fun u => t.closed s.walk.current = u) (close_does rfl fun _ => rfl) ?_ ?_
      · rintro e _ rfl
        exact closeAll_does (hR e _ hclosed)
      · rintro _ rfl
        exact closeAll_does (hA _ hclosed)
    · rintro _ _ rfl
      split
      · rename_i hlast
        cases List.getLast?_eq_none_iff.mp hlast
        refine .raise (hR _ _ (hcovered _ H.walk fun k hk => ?_))
        exact ((H.pending k).mp (State.pending_closed.mp hk).1).resolve_right nofun
      · rename_i last hlast
        refine assign_does (hQ _ ⟨H.held hheld hempty hlast, ?_, ?_, ?_⟩)
        · intro hnil
          cases (List.append_eq_nil_iff.mp hnil).2
          cases hlast
        · have hchain : t.walk.identityChain = s.walk.identityChain := congrArg _ H.walk
          exact hchain
        · exact H.grows.trans ((Grows.closed _).trans .setWalk)

end

/-! ## The turns -/

namespace Route

/-- The path of the first components. -/
def pathAt (r : Route) (n : Nat) : String :=
  (r.components.take n).foldl (fun path component => path ++ "\\" ++ component) r.root

theorem pathAt_succ {r : Route} {n : Nat} {component : String}
    (h : r.components[n]? = some component) :
    r.pathAt (n + 1) = r.pathAt n ++ "\\" ++ component := by
  rw [pathAt, pathAt, List.take_add_one, h, List.foldl_append]
  rfl

end Route

/-- The first identities of the chain have been reported for the components, and are expected. -/
structure Walked (r : Route) (n : Nat) (s : State) : Prop where
  reports : ∀ i fileId, i < n → s.walk.identityChain[i]? = some fileId →
    s.Reports (r.pathAt (i + 1)) fileId
  expected : ∀ i fileId, i < n → s.walk.identityChain[i]? = some fileId →
    r.isExpected i fileId = true
  clean : s.Clean r.root

/-- The loop has come to the component `n`. -/
structure Arrived (r : Route) (n : Nat) (s : State) : Prop where
  held : Held s
  isOpaque : s.walk.isOpaque = true ↔ s.walk.opaqueRecords ≠ []
  path : s.walk.currentPath = r.pathAt n
  length : s.walk.identityChain.length = n
  walked : Walked r n s

section
variable {r : Route} {s t : State} {n : Nat} {h : Handle} {i : RawInfo} {info : ObjectInfo}
  {path : String}

theorem Walked.extend {fileId : Nat} (H : Walked r n s) (hlength : s.walk.identityChain.length = n)
    (hgrows : Grows r.root s t) (hchain : t.walk.identityChain = s.walk.identityChain ++ [fileId])
    (hreports : t.Reports (r.pathAt (n + 1)) fileId) (hexpected : r.isExpected n fileId = true) :
    Walked r (n + 1) t := by
  have hcases : ∀ i id, i < n + 1 → t.walk.identityChain[i]? = some id →
      i < n ∧ s.walk.identityChain[i]? = some id ∨ i = n ∧ id = fileId := by
    intro i id hi hget
    rw [hchain] at hget
    rcases Nat.lt_succ_iff_lt_or_eq.mp hi with hi | rfl
    · rw [List.getElem?_append_left (hlength ▸ hi)] at hget
      exact .inl ⟨hi, hget⟩
    · rw [List.getElem?_append_right (Nat.le_of_eq hlength), hlength, Nat.sub_self] at hget
      exact .inr ⟨rfl, (Option.some_inj.mp hget).symm⟩
  refine ⟨fun i id hi hget => ?_, fun i id hi hget => ?_, hgrows.clean H.clean⟩
  · rcases hcases i id hi hget with ⟨hi, hget⟩ | ⟨rfl, rfl⟩
    · exact hgrows.reports _ _ (H.reports i id hi hget)
    · exact hreports
  · rcases hcases i id hi hget with ⟨hi, hget⟩ | ⟨rfl, rfl⟩
    · exact H.expected i id hi hget
    · exact hexpected

theorem Held.add_over (H : Held s) (ho : Over h) : Held (s.add h) :=
  ⟨fun k => (pending_add_over ho).trans (H.pending k), H.last, H.nodup⟩

theorem Opened.reports (hopened : Opened path h) :
    (s.add { h with infos := [i] }).Reports path i.indexNumber :=
  ⟨_, List.mem_append_right _ (List.mem_singleton_self _), hopened.path, i,
    List.mem_singleton_self _, rfl⟩

theorem Opened.pending (hopened : Opened path h) {k : Nat} :
    (s.add { h with infos := [i] }).Pending k ↔ s.Pending k ∨ k = s.handles.length :=
  pending_add_open (h := { h with infos := [i] }) hopened.opening hopened.closing

/-- The child is retained with its parents. -/
theorem Held.retain (H : Held s) (hrecords : s.walk.opaqueRecords ≠ [])
    (hopened : Opened path h) {f : Walk → Walk} {record : Record}
    (hrecord : record.handle = s.handles.length)
    (hf : (f s.walk).opaqueRecords = s.walk.opaqueRecords ++ [record])
    (hcurrent : (f s.walk).current = record.handle) :
    Held ((s.add { h with infos := [i] }).setWalk f) := by
  have hretained : (f s.walk).retained = s.walk.retained ++ [s.handles.length] := by
    rw [Walk.retained, hf, List.map_append, ← hrecord]
    rfl
  have hmem : s.walk.current ∈ s.walk.retained := List.mem_of_getLast? (H.last hrecords)
  refine ⟨fun k => ?_, fun _ => ?_, ?_⟩
  · rw [State.pending_setWalk, hopened.pending, H.pending, State.setWalk_walk, State.add_walk,
      hretained, hcurrent, hrecord, List.mem_append, List.mem_singleton]
    refine ⟨?_, fun hk => hk.elim .inr fun hk => hk.imp_left .inr⟩
    rintro ((rfl | hk) | hk)
    · exact .inr (.inl hmem)
    · exact .inr (.inl hk)
    · exact .inl hk
  · rw [State.setWalk_walk, State.add_walk, hretained, hcurrent, hrecord, List.getLast?_concat]
  · rw [State.setWalk_walk, State.add_walk, hretained]
    refine List.nodup_append.mpr ⟨H.nodup, by simp, ?_⟩
    rintro k hk _ hlast rfl
    cases List.mem_singleton.mp hlast
    exact State.not_pending_length ((H.pending _).mpr (.inr hk))

/-- The parent is closed, and the child is the only handle. -/
theorem Held.replace (H : Held s) (hrecords : s.walk.opaqueRecords = []) (hopened : Opened path h)
    {f : Walk → Walk} (hf : (f s.walk).opaqueRecords = [])
    (hcurrent : (f s.walk).current = s.handles.length) :
    Held (((s.add { h with infos := [i] }).closed s.walk.current).setWalk f) := by
  have hretained : s.walk.retained = [] := by rw [Walk.retained, hrecords]; rfl
  have hretained' : (f s.walk).retained = [] := by rw [Walk.retained, hf]; rfl
  refine ⟨fun k => ?_, fun hne => absurd hf hne, ?_⟩
  · rw [State.pending_setWalk, State.pending_closed, hopened.pending, H.pending, hretained,
      State.setWalk_walk, State.closed_walk, State.add_walk, hretained', hcurrent]
    simp only [List.not_mem_nil, or_false]
    refine ⟨fun ⟨hk, hne⟩ => hk.resolve_left hne, fun hk => ⟨.inr hk, ?_⟩⟩
    rintro rfl
    exact State.not_pending_length (hk ▸ (H.pending _).mpr (.inl rfl))
  · rw [State.setWalk_walk, State.closed_walk, State.add_walk, hretained']
    exact .nil

end

section
variable {r : Route} {s : State} {n : Nat} {component childPath : String} {isLeaf : Bool}
  {Q : PUnit → State → Prop} {R : Error → State → Prop} {A : State → Prop}

theorem opaqueTurn_does (H : Held s) (hrecords : s.walk.opaqueRecords ≠ [])
    (hblind : s.walk.isOpaque = true) (hlength : s.walk.identityChain.length = n)
    (hwalked : Walked r n s) (hpath : childPath = r.pathAt (n + 1))
    (hQ : ∀ t, Arrived r (n + 1) t → Q ⟨⟩ t) (hR : ∀ e t, Covered t → R e t)
    (hA : ∀ t, Covered t → A t) :
    Does (r.opaqueTurn n component childPath isLeaf) Q R A s := by
  have hover : ∀ g, Over g → Covered (s.add g) := fun g ho => H.covered.add_over ho
  refine .bind (P := fun child t => ∃ h, child = s.handles.length ∧ s.add h = t ∧
    Opened childPath h) ?_ ?_
  · have hopens : ∀ x : Session Nat, Opens x childPath → Does x (fun child t => ∃ h,
        child = s.handles.length ∧ s.add h = t ∧ Opened childPath h) R A s := fun x hx =>
      hx s _ _ _ (fun h hopened => ⟨h, rfl, rfl, hopened⟩) (fun e => hR e _ H.covered)
        (fun e g hspoiled => hR e _ (hover g hspoiled.ended)) (hA _ H.covered)
        fun g ho => hA _ (hover g ho)
    refine hopens _ ?_
    unfold Route.openOpaque
    dsimp only
    split
    · exact openRaw_opens
    split
    · exact openRaw_opens
    split
    · exact openRaw_opens
    · exact openUntypedRaw_opens
  rintro _ _ ⟨h, rfl, rfl, hopened⟩
  refine .bind (P := fun info t => ∃ i, InfoOf i info ∧ isReparsePoint i.fileAttributes = false ∧
    r.isExpected n info.fileId = true ∧ s.add { h with infos := [i] } = t)
    (queryChecked_does hopened (P := fun info a => a = info ∧
      isReparsePoint info.fileAttributes = false ∧ r.isExpected n info.fileId = true)
      (fun info => ?_) (fun hQ _ => closeQuietly_does hQ) ?_
      (fun e g ho => hR e _ (hover g ho)) fun g ho => hA _ (hover g ho)) ?_
  · refine reads_bind reads_ofExcept fun flag hflag => ?_
    split
    · exact reads_raise
    split
    · exact reads_raise
    split
    · exact reads_raise
    split
    · exact reads_pure ⟨rfl, verifiedDirectoryFlag_plain hflag, ‹_›⟩
    · exact reads_raise
  · rintro _ i info hi ⟨rfl, hplain, hexpected⟩
    exact ⟨i, hi, hi.fileAttributes ▸ hplain, hexpected, rfl⟩
  rintro info _ ⟨i, hi, hplain, hexpected, rfl⟩
  have hgrows : Grows r.root s (s.add { h with infos := [i] }) :=
    .add fun _ => hopened.plain_info hplain
  refine .bind (assign_does (Q := fun _ t => (s.add { h with infos := [i] }).setWalk
    (fun w => { w with identityChain := w.identityChain ++ [info.fileId] }) = t) rfl) ?_
  rintro _ _ rfl
  refine assign_does (hQ _ ⟨?_, ?_, hpath, ?_, ?_⟩)
  · exact H.retain hrecords hopened (f := fun w => Walk.mk s.handles.length childPath info
      (w.identityChain ++ [info.fileId]) w.isOpaque
      (w.opaqueRecords ++ [⟨childPath, s.handles.length, info⟩])) rfl rfl rfl
  · simp [hblind]
  · simp [hlength]
  · refine hwalked.extend hlength (hgrows.trans (Grows.setWalk.trans .setWalk)) rfl ?_ hexpected
    rw [← hpath, hi.fileId]
    exact hopened.reports

/-- The child has been opened, in a state that only differs from that of the parent by what has been
retained. -/
structure Descends (r : Route) (n : Nat) (s u : State) (childPath : String) (fileId : Nat)
    (h : Handle) : Prop where
  held : Held u
  isOpaque : u.walk.isOpaque = true ↔ u.walk.opaqueRecords ≠ []
  identityChain : u.walk.identityChain = s.walk.identityChain ++ [fileId]
  grows : Grows r.root s u
  opened : Opened childPath h

theorem openListed_does {entry : ObjectInfo} {isDirectory : Bool} {access : Nat} {share : String}
    {s₁ : State} (hs₁ : s₁ = s.setWalk fun w =>
      { w with identityChain := w.identityChain ++ [entry.fileId] })
    (H : Held s) (hrecords : s.walk.opaqueRecords = []) (hblind : s.walk.isOpaque = false)
    (hR : ∀ e t, Covered t → R e t) (hA : ∀ t, Covered t → A t) :
    Does ((openRaw r.server childPath isDirectory access share).handle fun e => do
      if isDirectory ∧ permissionDenied e ∧ (isLeaf = false ∨ r.purpose = .directoryPin) then
        r.retainOpaquePrefix n
        let exclusive : Bool := r.purpose = .directoryPin ∧ isLeaf ∨ isLeaf = false
        let child ← openRaw r.server childPath true readAttributes (Route.shareOf exclusive)
        assign fun w => { w with isOpaque := true }
        return child
      else raise e)
      (fun child t => ∃ u h, child = u.handles.length ∧ u.add h = t ∧
        Descends r n s u childPath entry.fileId h) R A s₁ := by
  have H₁ : Held s₁ := by
    subst hs₁
    exact ⟨H.pending, H.last, H.nodup⟩
  have hgrows₁ : Grows r.root s s₁ := hs₁ ▸ .setWalk
  have hchain₁ : s₁.walk.identityChain = s.walk.identityChain ++ [entry.fileId] := by rw [hs₁]; rfl
  have hrecords₁ : s₁.walk.opaqueRecords = [] := by rw [hs₁]; exact hrecords
  have hblind₁ : s₁.walk.isOpaque = false := by rw [hs₁]; exact hblind
  clear hs₁
  refine .handle (E := fun e t => Held t ∧ t.walk = s₁.walk ∧
    (permissionDenied e = true → Grows r.root s₁ t)) ?_ ?_
  · refine openRaw_opens s₁ _ _ _ (fun h hopened => ⟨s₁, h, rfl, rfl, H₁, ?_, hchain₁, hgrows₁,
      hopened⟩) (fun e => ⟨H₁, rfl, fun _ => .refl⟩)
      (fun e h hspoiled => ⟨H₁.add_over hspoiled.ended, rfl, fun he => .add fun _ =>
        hspoiled.plain he⟩) (hA _ H₁.covered) fun h ho => hA _ (H₁.covered.add_over ho)
    simp [hblind₁, hrecords₁]
  rintro e t ⟨Ht, hwalk, hgrows⟩
  split
  · rename_i hfallback
    have hgrows := hgrows₁.trans (hgrows hfallback.2.1)
    refine .bind (P := fun _ u => Retained r.root t u)
      (retainOpaquePrefix_does Ht (hwalk ▸ hrecords₁) (fun _ h => h) hR hA) ?_
    rintro _ u hretained
    have hover : ∀ g, Over g → Covered (u.add g) := fun g ho => hretained.held.covered.add_over ho
    refine .bind (P := fun child v => ∃ h, child = u.handles.length ∧ u.add h = v ∧
      Opened childPath h) (openRaw_opens u _ _ _ (fun h hopened => ⟨h, rfl, rfl, hopened⟩)
        (fun e => hR e _ hretained.held.covered)
        (fun e g hspoiled => hR e _ (hover g hspoiled.ended)) (hA _ hretained.held.covered)
        fun g ho => hA _ (hover g ho)) ?_
    rintro _ _ ⟨h, rfl, rfl, hopened⟩
    refine .bind (assign_does (Q := fun _ v => (u.add h).setWalk
      (fun w => { w with isOpaque := true }) = v) rfl) ?_
    rintro _ _ rfl
    refine .pure ⟨u.setWalk fun w => { w with isOpaque := true }, h, rfl, rfl,
      ⟨hretained.held.pending, hretained.held.last, hretained.held.nodup⟩, ?_, ?_,
      hgrows.trans (hretained.grows.trans .setWalk), hopened⟩
    · exact iff_of_true rfl hretained.records
    · exact hretained.identityChain.trans ((congrArg Walk.identityChain hwalk).trans hchain₁)
  · exact .raise (hR e t Ht.covered)

theorem listedTurn_does {entry : ObjectInfo} (H : Held s) (hrecords : s.walk.opaqueRecords = [])
    (hblind : s.walk.isOpaque = false) (hlength : s.walk.identityChain.length = n)
    (hwalked : Walked r n s) (hpath : childPath = r.pathAt (n + 1))
    (hQ : ∀ t, Arrived r (n + 1) t → Q ⟨⟩ t) (hR : ∀ e t, Covered t → R e t)
    (hA : ∀ t, Covered t → A t) :
    Does (r.listedTurn n childPath isLeaf entry) Q R A s := by
  refine .bind (assign_does (Q := fun _ t => s.setWalk (fun w =>
    { w with identityChain := w.identityChain ++ [entry.fileId] }) = t) rfl) ?_
  rintro _ s₁ hs₁
  have hcovered : Covered s₁ := hs₁ ▸ H.covered
  dsimp only
  split
  · exact .raise (hR _ _ hcovered)
  split
  · exact .raise (hR _ _ hcovered)
  split
  · exact .raise (hR _ _ hcovered)
  rename_i hexpected
  split
  · exact .raise (hR _ _ hcovered)
  split
  · exact .raise (hR _ _ hcovered)
  refine .bind (openListed_does hs₁.symm H hrecords hblind hR hA) ?_
  rintro _ _ ⟨u, h, rfl, rfl, D⟩
  have hover : ∀ g, Over g → Covered (u.add g) := fun g ho => D.held.covered.add_over ho
  refine .bind (P := fun info t => ∃ i, InfoOf i info ∧ isReparsePoint i.fileAttributes = false ∧
    info.fileId = entry.fileId ∧ u.add { h with infos := [i] } = t)
    (queryChecked_does D.opened (P := fun info a => a = info ∧
      isReparsePoint info.fileAttributes = false ∧ info.fileId = entry.fileId)
      (fun info => ?_) (fun hQ _ => closeQuietly_does hQ) ?_
      (fun e g ho => hR e _ (hover g ho)) fun g ho => hA _ (hover g ho)) ?_
  · split
    · exact reads_raise
    · refine reads_bind reads_ofExcept fun flag hflag => ?_
      split
      · exact reads_raise
      · exact reads_pure ⟨rfl, verifiedDirectoryFlag_plain hflag, Decidable.not_not.mp ‹_›⟩
  · rintro _ i info hi ⟨rfl, hplain, hid⟩
    exact ⟨i, hi, hi.fileAttributes ▸ hplain, hid, rfl⟩
  rintro info _ ⟨i, hi, hplain, hid, rfl⟩
  refine .bind (locals_does (Q := fun w t => u.walk = w ∧ u.add { h with infos := [i] } = t)
    ⟨rfl, rfl⟩) ?_
  rintro _ _ ⟨rfl, rfl⟩
  have hgrows : Grows r.root s (u.add { h with infos := [i] }) :=
    D.grows.trans (.add fun _ => D.opened.plain_info hplain)
  have hreports : (u.add { h with infos := [i] }).Reports (r.pathAt (n + 1)) entry.fileId := by
    rw [← hpath, ← hid, hi.fileId]
    exact D.opened.reports
  have hreplaced : ∀ v, v.walk.identityChain = u.walk.identityChain → Grows r.root s v →
      v.Reports (r.pathAt (n + 1)) entry.fileId → Walked r (n + 1) v :=
    fun v hchain hg hr => hwalked.extend hlength hg (hchain.trans D.identityChain) hr
      (Bool.not_eq_false _ ▸ hexpected)
  have hlength' : u.walk.identityChain.length = n + 1 := by
    rw [D.identityChain, List.length_append, hlength]
    rfl
  cases hu : u.walk.isOpaque with
  | true =>
    have hne := D.isOpaque.mp hu
    refine .bind (P := fun _ t => u.add { h with infos := [i] } = t) (.pure rfl) ?_
    rintro _ _ rfl
    refine assign_does (hQ _ ⟨?_, ?_, hpath, hlength', hreplaced _ rfl (hgrows.trans .setWalk)
      hreports⟩)
    · exact D.held.retain hne D.opened (f := fun w => Walk.mk u.handles.length childPath info
        w.identityChain w.isOpaque (w.opaqueRecords ++ [⟨childPath, u.handles.length, info⟩]))
        rfl rfl rfl
    · simp [hu]
  | false =>
    have hnil : u.walk.opaqueRecords = [] := Classical.byContradiction fun hne => by
      rw [D.isOpaque.mpr hne] at hu
      cases hu
    have hclosed : Covered (((u.add { h with infos := [i] }).closed u.walk.current).closed
        u.handles.length) := by
      intro k hk
      obtain ⟨hk, hne⟩ := State.pending_closed.mp hk
      obtain ⟨hk, -⟩ := State.pending_closed.mp hk
      exact D.held.covered k ((D.opened.pending.mp hk).resolve_right hne)
    refine .bind (P := fun _ t => (u.add { h with infos := [i] }).closed u.walk.current = t) ?_ ?_
    · refine .onFailure (E := fun _ t => (u.add { h with infos := [i] }).closed u.walk.current = t)
        (F := fun t => (u.add { h with infos := [i] }).closed u.walk.current = t)
        (close_does rfl fun _ => rfl) ?_ ?_
      · rintro e _ rfl
        exact closeQuietly_does (hR e _ hclosed)
      · rintro _ rfl
        exact closeQuietly_does (hA _ hclosed)
    rintro _ _ rfl
    refine assign_does (hQ _ ⟨?_, ?_, hpath, hlength', hreplaced _ rfl
      (hgrows.trans ((Grows.closed _).trans .setWalk)) (hreports.closed _)⟩)
    · exact D.held.replace hnil D.opened (f := fun w => Walk.mk u.handles.length childPath info
        w.identityChain w.isOpaque w.opaqueRecords) hnil rfl
    · simp [hu, hnil]

theorem turn_does (H : Arrived r n s) (hcomponent : r.components[n]? = some component)
    (hQ : ∀ t, Arrived r (n + 1) t → Q ⟨⟩ t) (hR : ∀ e t, Covered t → R e t)
    (hA : ∀ t, Covered t → A t) : Does (r.turn n component isLeaf) Q R A s := by
  have hpath : s.walk.currentPath ++ "\\" ++ component = r.pathAt (n + 1) := by
    rw [Route.pathAt_succ hcomponent, H.path]
  refine .bind (locals_does (Q := fun w t => s.walk = w ∧ s = t) ⟨rfl, rfl⟩) ?_
  rintro _ _ ⟨rfl, rfl⟩
  cases hblind : s.walk.isOpaque with
  | true =>
    refine .bind (P := fun entry t => none = entry ∧ s = t) (.pure ⟨rfl, rfl⟩) ?_
    rintro _ _ ⟨rfl, rfl⟩
    exact opaqueTurn_does H.held (H.isOpaque.mp hblind) hblind H.length H.walked hpath hQ hR hA
  | false =>
    have hrecords : s.walk.opaqueRecords = [] := Classical.byContradiction fun hne => by
      rw [H.isOpaque.mpr hne] at hblind
      cases hblind
    refine .bind (P := fun entry t => (∃ info, entry = some info ∧ s = t) ∨
      entry = none ∧ ∃ u, Retained r.root s u ∧ u.setWalk (fun w => { w with isOpaque := true }) = t)
      ?_ ?_
    · refine .handle (E := fun _ t => s = t) ?_ ?_
      · refine .bind (P := fun _ t => s = t)
          ((reads_queryExactChild s).mono (fun _ _ h => h.1) (fun _ _ h => h) fun t h =>
            hA _ (h ▸ H.held.covered)) ?_
        rintro info _ rfl
        exact .pure (.inl ⟨info, rfl, rfl⟩)
      · rintro e _ rfl
        split
        · refine .bind (P := fun _ u => Retained r.root s u)
            (retainOpaquePrefix_does H.held hrecords (fun _ h => h) hR hA) ?_
          rintro _ u hretained
          refine .bind (assign_does (Q := fun _ v =>
            u.setWalk (fun w => { w with isOpaque := true }) = v) rfl) ?_
          rintro _ _ rfl
          exact .pure (.inr ⟨rfl, u, hretained, rfl⟩)
        · exact .raise (hR _ _ H.held.covered)
    rintro _ _ (⟨info, rfl, rfl⟩ | ⟨rfl, u, hretained, rfl⟩)
    · exact listedTurn_does H.held hrecords hblind H.length H.walked hpath hQ hR hA
    · have hlength : u.walk.identityChain.length = n :=
        (congrArg List.length hretained.identityChain).trans H.length
      refine opaqueTurn_does ⟨hretained.held.pending, hretained.held.last, hretained.held.nodup⟩
        hretained.records rfl hlength ⟨fun i id hi hget => ?_, fun i id hi hget => ?_,
          hretained.grows.clean H.walked.clean⟩ hpath hQ hR hA
      · have hget : u.walk.identityChain[i]? = some id := hget
        rw [hretained.identityChain] at hget
        exact hretained.grows.reports _ _ (H.walked.reports i id hi hget)
      · have hget : u.walk.identityChain[i]? = some id := hget
        rw [hretained.identityChain] at hget
        exact H.walked.expected i id hi hget

theorem loop_does {components : List String} (H : Arrived r n s)
    (hcomponents : r.components.drop n = components)
    (hQ : ∀ t, Arrived r r.components.length t → Q ⟨⟩ t) (hR : ∀ e t, Covered t → R e t)
    (hA : ∀ t, Covered t → A t) (hn : n ≤ r.components.length) :
    Does (r.loop n components) Q R A s := by
  induction components generalizing n s with
  | nil =>
    have : n = r.components.length :=
      Nat.le_antisymm hn (List.drop_eq_nil_iff.mp hcomponents)
    exact .pure (hQ s (this ▸ H))
  | cons component components ih =>
    have hget : r.components[n]? = some component := by
      have := congrArg (·[0]?) hcomponents
      simpa using this
    refine .bind (P := fun _ t => Arrived r (n + 1) t)
      (turn_does H hget (fun _ h => h) hR hA) fun _ t ht => ?_
    refine ih ht ?_ (List.getElem?_eq_some_iff.mp hget).1
    rw [← List.drop_drop, hcomponents]
    rfl

end

/-! ## The second look, and the way out -/

section
variable {r : Route} {s t : State} {Q : PUnit → State → Prop} {R : Error → State → Prop}
  {A : State → Prop}

/-- The same handles are open. -/
structure Alike (root : String) (s t : State) : Prop where
  walk : t.walk = s.walk
  pending : ∀ k, t.Pending k ↔ s.Pending k
  grows : Grows root s t

theorem Held.alike (H : Held s) {root : String} (h : Alike root s t) : Held t := by
  obtain ⟨hwalk, hpending, -⟩ := h
  refine ⟨fun k => ?_, ?_, ?_⟩
  · rw [hwalk, hpending]
    exact H.pending k
  · rw [hwalk]
    exact H.last
  · rw [hwalk]
    exact H.nodup

theorem verify_does {record : Record} (H : Held s) (hQ : ∀ t, Alike r.root s t → Q ⟨⟩ t)
    (hR : ∀ e t, Covered t → R e t) (hA : ∀ t, Covered t → A t) :
    Does (r.verify record) Q R A s := by
  have hover : ∀ g, Over g → Covered (s.add g) := fun g ho => H.covered.add_over ho
  refine .bind (P := fun _ t => s = t) (ofExcept_does (fun _ _ => rfl) fun e _ => hR e s H.covered) ?_
  rintro flag _ rfl
  refine .bind (P := fun verifier t => ∃ h, verifier = s.handles.length ∧ s.add h = t ∧
    Opened record.path h) (openRaw_opens s _ _ _ (fun h hopened => ⟨h, rfl, rfl, hopened⟩)
      (fun e => hR e _ H.covered) (fun e g hspoiled => hR e _ (hover g hspoiled.ended))
      (hA _ H.covered) fun g ho => hA _ (hover g ho)) ?_
  rintro _ _ ⟨h, rfl, rfl, hopened⟩
  refine .bind (P := fun _ t => ∃ i, isReparsePoint i.fileAttributes = false ∧
    s.add { h with infos := [i] } = t) (queryChecked_does hopened
      (P := fun info _ => isReparsePoint info.fileAttributes = false) (fun info => ?_)
      (fun hQ hR => close_does hQ hR) (fun _ i info hi hplain => ⟨i, hi.fileAttributes ▸ hplain, rfl⟩)
      (fun e g ho => hR e _ (hover g ho)) fun g ho => hA _ (hover g ho)) ?_
  · split
    · exact reads_raise
    · refine reads_bind reads_ofExcept fun flag hflag => ?_
      split
      · exact reads_raise
      · exact reads_pure (verifiedDirectoryFlag_plain hflag)
  rintro _ _ ⟨i, hplain, rfl⟩
  have halike : Alike r.root s ((s.add { h with infos := [i] }).closed s.handles.length) := by
    refine ⟨rfl, fun k => ?_, (Grows.add fun _ => hopened.plain_info hplain).trans (.closed _)⟩
    rw [State.pending_closed, hopened.pending]
    refine ⟨fun ⟨hk, hne⟩ => hk.resolve_right hne, fun hk => ⟨.inl hk, ?_⟩⟩
    exact Nat.ne_of_lt hk.lt
  exact close_does (hQ _ halike) fun e => hR e _ (H.alike halike).covered

theorem verifyAll_does {records : List Record} (H : Held s)
    (hQ : ∀ t, Alike r.root s t → Q ⟨⟩ t) (hR : ∀ e t, Covered t → R e t)
    (hA : ∀ t, Covered t → A t) : Does (r.verifyAll records) Q R A s := by
  induction records generalizing s with
  | nil => exact .pure (hQ s ⟨rfl, fun _ => Iff.rfl, .refl⟩)
  | cons record records ih =>
    refine .bind (P := fun _ t => Alike r.root s t) (verify_does H (fun _ h => h) hR hA) ?_
    intro _ t ht
    refine ih (H.alike ht) fun u hu => hQ u ⟨hu.walk.trans ht.walk, fun k => ?_,
      ht.grows.trans hu.grows⟩
    exact (hu.pending k).trans (ht.pending k)

theorem closeHeld_does {raws : List Nat} (H : Covered s) (hQ : Q ⟨⟩ (raws.foldl State.closed s))
    (hR : ∀ e t, Covered t → R e t) : Does (r.closeHeld raws) Q R A s := by
  induction raws generalizing s with
  | nil => exact .pure hQ
  | cons raw raws ih =>
    refine .bind (P := fun _ t => s.closed raw = t)
      (close_does rfl fun e => hR e _ (H.closed raw)) ?_
    rintro _ _ rfl
    exact ih (H.closed raw) hQ

theorem closeOnce_does {closed raws : List Nat} (hclosed : ∀ k ∈ closed, ¬ s.Pending k)
    (hQ : ∀ t, (∀ k, t.Pending k → s.Pending k ∧ k ∉ raws) → Q ⟨⟩ t) :
    Does (r.closeOnce closed raws) Q R A s := by
  induction raws generalizing closed s with
  | nil => exact .pure (hQ s fun k hk => ⟨hk, nofun⟩)
  | cons raw raws ih =>
    unfold Route.closeOnce
    split
    · rename_i hraw
      refine ih hclosed fun t ht => hQ t fun k hk => ?_
      obtain ⟨hk, hnot⟩ := ht k hk
      refine ⟨hk, fun hmem => (List.mem_cons.mp hmem).elim ?_ hnot⟩
      rintro rfl
      exact hclosed _ hraw hk
    · refine .bind (P := fun _ t => s.closed raw = t) (closeQuietly_does rfl) ?_
      rintro _ _ rfl
      refine ih (fun k hk hpending => ?_) fun t ht => hQ t fun k hk => ?_
      · obtain ⟨hpending, hne⟩ := State.pending_closed.mp hpending
        rcases List.mem_cons.mp hk with rfl | hk
        · exact hne rfl
        · exact hclosed k hk hpending
      · obtain ⟨hk, hnot⟩ := ht k hk
        obtain ⟨hk, hne⟩ := State.pending_closed.mp hk
        exact ⟨hk, fun hmem => (List.mem_cons.mp hmem).elim hne hnot⟩

/-- The outer handler leaves no handle open. -/
theorem closeRecords_does (H : Covered s) (hQ : ∀ t, (∀ k, ¬ t.Pending k) → Q ⟨⟩ t) :
    Does r.closeRecords Q R A s := by
  refine .bind (locals_does (Q := fun w t => s.walk = w ∧ s = t) ⟨rfl, rfl⟩) ?_
  rintro _ _ ⟨rfl, rfl⟩
  refine closeOnce_does nofun fun t ht => hQ t fun k hk => ?_
  obtain ⟨hk, hnot⟩ := ht k hk
  refine hnot ?_
  rcases H k hk with rfl | hk
  · exact List.mem_append_right _ (List.mem_singleton_self _)
  · rw [List.map_reverse]
    exact List.mem_append_left _ (List.mem_reverse.mpr hk)

end

/-! ## The whole function -/

/-- What is returned: one open handle, and a chain of reported identities. -/
structure Returned (r : Route) (handle : Nat) (info : ObjectInfo) (s : State) : Prop where
  pending : ∀ k, s.Pending k ↔ k = handle
  length : info.identityChain.length = r.components.length
  reports : ∀ i fileId, info.identityChain[i]? = some fileId →
    s.Reports (r.pathAt (i + 1)) fileId
  expected : ∀ i fileId, info.identityChain[i]? = some fileId → r.isExpected i fileId = true
  clean : s.Clean r.root

section
variable {r : Route} {s u : State} {h : Handle} {Q : Nat × ObjectInfo → State → Prop}
  {R : Error → State → Prop} {A : State → Prop}

/-- When the records but the last are closed, the current handle is left. -/
theorem Held.returned (H : Held s) (k : Nat) :
    (((s.walk.opaqueRecords.dropLast).map Record.handle).foldl State.closed s).Pending k ↔
      k = s.walk.current := by
  rw [pending_foldl_closed, H.pending, List.map_dropLast]
  rcases Decidable.eq_or_ne s.walk.opaqueRecords [] with hnil | hne
  · simp [Walk.retained, hnil]
  · have hretained : s.walk.retained = s.walk.retained.dropLast ++ [s.walk.current] :=
      (List.dropLast_append_getLast? _ (H.last hne)).symm
    have hnot : s.walk.current ∉ s.walk.retained.dropLast := fun hmem => by
      have hnodup := H.nodup
      rw [hretained] at hnodup
      exact (List.nodup_append.mp hnodup).2.2 _ hmem _ (List.mem_singleton_self _) rfl
    have hmem : k ∈ s.walk.retained ↔ k ∈ s.walk.retained.dropLast ∨ k = s.walk.current := by
      rw [hretained]
      simp
    refine ⟨fun ⟨hk, hdrop⟩ => ?_, fun hk => ⟨.inl hk, hk ▸ hnot⟩⟩
    rcases hk with hk | hk
    · exact hk
    · exact (hmem.mp hk).resolve_left hdrop

theorem walk_does (hnone : ∀ k, ¬ u.Pending k) (hclean : u.Clean r.root) (hopened : Opened r.root h)
    (hcurrent : u.walk.current = u.handles.length) (hpath : u.walk.currentPath = r.root)
    (hchain : u.walk.identityChain = []) (hrecords : u.walk.opaqueRecords = [])
    (hQ : ∀ handle info t, Returned r handle info t → Q (handle, info) t)
    (hR : ∀ e t, Covered t → R e t) (hA : ∀ t, Covered t → A t) :
    Does r.walk Q R A (u.add h) := by
  have hcovered : ∀ infos, Covered (u.add { h with infos := infos }) := by
    intro infos k hk
    rw [State.pending_add] at hk
    exact .inl ((hk.resolve_left (hnone k)).1.trans hcurrent.symm)
  refine .bind (locals_does (Q := fun w t => u.walk = w ∧ u.add h = t) ⟨rfl, rfl⟩) ?_
  rintro _ _ ⟨rfl, rfl⟩
  rw [hcurrent]
  refine .bind (P := fun info t => ∃ i, InfoOf i info ∧ u.add { h with infos := [i] } = t)
    (queryOpenInfo_does (fun i info hi => ⟨i, hi, by rw [hopened.infos]; rfl⟩)
      (fun e infos => hR e _ (hcovered infos)) (hA _ (hcovered h.infos))) ?_
  rintro info _ ⟨i, hi, rfl⟩
  refine .bind (assign_does (Q := fun _ t => (u.add { h with infos := [i] }).setWalk (fun w =>
    { w with
      currentInfo := info
      opaqueRecords :=
        if w.isOpaque then w.opaqueRecords ++ [⟨r.root, w.current, info⟩] else w.opaqueRecords }) =
      t) rfl) ?_
  rintro _ s hs
  have hpending : ∀ k, s.Pending k ↔ k = u.handles.length := by
    intro k
    rw [← hs, State.pending_setWalk, hopened.pending]
    exact or_iff_right (hnone k)
  have hclean : s.Clean r.root := by
    rw [← hs]
    exact hclean.add fun hne => absurd hopened.path hne
  have hsrecords : s.walk.opaqueRecords =
      if u.walk.isOpaque then [⟨r.root, u.handles.length, info⟩] else [] := by
    rw [← hs]
    simp [hrecords, hcurrent]
  have hscurrent : s.walk.current = u.handles.length := by rw [← hs]; exact hcurrent
  have hsblind : s.walk.isOpaque = u.walk.isOpaque := by rw [← hs]; rfl
  have hschain : s.walk.identityChain = [] := by rw [← hs]; exact hchain
  have hspath : s.walk.currentPath = r.root := by rw [← hs]; exact hpath
  have H : Held s := by
    refine ⟨fun k => ?_, fun hne => ?_, ?_⟩
    · rw [hpending, hscurrent, Walk.retained, hsrecords]
      split
      · simp
      · simp
    · rw [Walk.retained, hscurrent]
      rw [hsrecords] at hne ⊢
      split
      · rfl
      · rename_i hblind
        rw [if_neg hblind] at hne
        exact absurd rfl hne
    · rw [Walk.retained, hsrecords]
      split
      · simp
      · simp
  clear hs
  split
  · rename_i hcomponents
    split
    · exact .raise (hR _ _ H.covered)
    · refine .pure (hQ _ _ _ ⟨hpending, ?_, fun j id hget => ?_, fun j id hget => ?_, hclean⟩)
      · rw [hi.identityChain, hcomponents]
        rfl
      · rw [hi.identityChain] at hget
        cases hget
      · rw [hi.identityChain] at hget
        cases hget
  · have harrived : Arrived r 0 s :=
      ⟨H, by rw [hsblind, hsrecords]; simp, hspath, by rw [hschain]; rfl,
        ⟨fun _ _ hlt => absurd hlt (Nat.not_lt_zero _), fun _ _ hlt => absurd hlt (Nat.not_lt_zero _),
          hclean⟩⟩
    refine .bind (P := fun _ t => Arrived r r.components.length t)
      (loop_does harrived rfl (fun _ h => h) hR hA (Nat.zero_le _)) ?_
    rintro _ t ht
    refine .bind (locals_does (Q := fun w v => t.walk = w ∧ t = v) ⟨rfl, rfl⟩) ?_
    rintro _ _ ⟨rfl, rfl⟩
    refine .bind (P := fun _ v => Alike r.root t v)
      (verifyAll_does ht.held (fun _ h => h) hR hA) ?_
    rintro _ v hv
    have Hv := ht.held.alike hv
    rw [← hv.walk]
    refine .bind (P := fun _ x => ((v.walk.opaqueRecords.dropLast).map Record.handle).foldl
      State.closed v = x) (closeHeld_does Hv.covered rfl hR) ?_
    rintro _ _ rfl
    have hgrows : ∀ (raws : List Nat) (v : State), Grows r.root v (raws.foldl State.closed v) := by
      intro raws
      induction raws with
      | nil => exact fun _ => .refl
      | cons raw raws ih => exact fun v => (Grows.closed raw).trans (ih _)
    refine .pure (hQ _ _ _ ⟨Hv.returned, ?_, fun j id hget => ?_, fun j id hget => ?_, ?_⟩)
    · rw [hv.walk]
      exact ht.length
    · rw [hv.walk] at hget
      have hj : j < r.components.length := ht.length ▸ (List.getElem?_eq_some_iff.mp hget).1
      exact (hv.grows.trans (hgrows _ v)).reports _ _ (ht.walked.reports j id hj hget)
    · rw [hv.walk] at hget
      have hj : j < r.components.length := ht.length ▸ (List.getElem?_eq_some_iff.mp hget).1
      exact ht.walked.expected j id hj hget
    · exact (hv.grows.trans (hgrows _ v)).clean ht.walked.clean

/-- The handle of the share is open, and no other. -/
def RootOpen (r : Route) (current : Nat) (s : State) : Prop :=
  ∃ (u : State) (h : Handle), current = u.handles.length ∧ u.add h = s ∧ Opened r.root h ∧ (∀ k, ¬ u.Pending k) ∧
    u.Clean r.root

theorem openRoot_does {Q : Nat × Bool → State → Prop} (hnone : ∀ k, ¬ s.Pending k)
    (hclean : s.Clean r.root) (hQ : ∀ x t, RootOpen r x.1 t → Q x t)
    (hR : ∀ e t, (∀ k, ¬ t.Pending k) → R e t) (hA : ∀ t, (∀ k, ¬ t.Pending k) → A t) :
    Does r.openRoot Q R A s := by
  have hover : ∀ {t : State} {g : Handle}, Over g → (∀ k, ¬ t.Pending k) → ∀ k, ¬ (t.add g).Pending k :=
    fun ho ht k hk => ht k ((pending_add_over ho).mp hk)
  have hopen : ∀ (t : State) access share (E : Error → State → Prop), (∀ k, ¬ t.Pending k) →
      t.Clean r.root → (∀ e, E e t) → (∀ e g, Spoiled e g → E e (t.add g)) →
      Does (openRaw r.server r.root true access share) (fun child v => RootOpen r child v) E A t :=
    fun t access share E ht hclean hE hEadd => openRaw_opens t _ _ _
      (fun h hopened => ⟨t, h, rfl, rfl, hopened, ht, hclean⟩) hE hEadd (hA t ht)
      fun g ho => hA _ (hover ho ht)
  unfold Route.openRoot
  extract_lets rootAccess shareAccess listed
  clear_value rootAccess shareAccess
  refine .handle (E := fun e t => (∀ k, ¬ t.Pending k) ∧
    (permissionDenied e = true → t.Clean r.root)) ?_ ?_
  · refine .bind (hopen s _ _ _ hnone hclean (fun e => ⟨hnone, fun _ => hclean⟩)
      fun e g hspoiled => ⟨hover hspoiled.ended hnone, fun he => hclean.add fun _ =>
        hspoiled.plain he⟩) ?_
    intro child t ht
    exact .pure (hQ (child, false) t ht)
  · rintro e t ⟨ht, hdenied⟩
    split
    · exact .raise (hR e t ht)
    · rename_i hfallback
      have hclean : t.Clean r.root := by
        refine hdenied ?_
        cases h : permissionDenied e with
        | true => rfl
        | false => exact absurd (.inr (.inr h)) hfallback
      refine .bind (hopen t _ _ R ht hclean (fun e => hR e t ht) fun e g hspoiled =>
        hR e _ (hover hspoiled.ended ht)) ?_
      intro child v hv
      exact .pure (hQ (child, true) v hv)

theorem run_does (hnone : ∀ k, ¬ s.Pending k) (hclean : s.Clean r.root)
    (hQ : ∀ handle info t, Returned r handle info t → Q (handle, info) t)
    (hR : ∀ e t, (∀ k, ¬ t.Pending k) → R e t) (hA : ∀ t, (∀ k, ¬ t.Pending k) → A t) :
    Does r.run Q R A s := by
  refine .bind (P := fun x t => RootOpen r x.1 t)
    (openRoot_does hnone hclean (fun _ _ h => h) hR hA) ?_
  rintro ⟨current, isOpaque⟩ _ ⟨u, h, rfl, rfl, hopened, hu, huclean⟩
  refine .bind (assign_does (Q := fun _ t => (u.setWalk fun w =>
    { w with
      current := u.handles.length
      currentPath := r.root
      identityChain := []
      isOpaque := isOpaque
      opaqueRecords := [] }).add h = t) rfl) ?_
  rintro _ _ rfl
  refine .onFailure (E := fun _ => Covered) (F := Covered) (walk_does hu huclean hopened rfl rfl rfl
    rfl hQ (fun _ _ h => h) fun _ h => h) ?_ ?_
  · exact fun e t ht => closeRecords_does ht (hR e)
  · exact fun t ht => closeRecords_does ht hA

end

/-- Where identities are expected, the chain of a walk consists of them. -/
theorem Returned.chain_eq {r : Route} {handle : Nat} {info : ObjectInfo} {s : State}
    (H : Returned r handle info s) {values : List IdentityArg}
    (h : expectedIdentities r.components (.identities values) = .ok r.expected) :
    values.map IdentityArg.stable = info.identityChain.map .ok := by
  have hlength : values.length = r.components.length := Classical.byContradiction fun hne => by
    rw [expectedIdentities, if_pos hne] at h
    cases h
  rw [expectedIdentities, if_neg (Decidable.not_not.mpr hlength)] at h
  cases hids : values.mapM IdentityArg.stable with
  | error e =>
    rw [hids] at h
    cases h
  | ok ids =>
    rw [hids] at h
    have hexpected : r.expected = some ids := (Except.ok.inj h).symm
    have hmap := map_eq_of_mapM hids
    have hlen : info.identityChain.length = ids.length := by
      have := congrArg List.length hmap
      rw [List.length_map, List.length_map] at this
      rw [H.length, ← this, hlength]
    have hchain : info.identityChain = ids := by
      refine List.ext_getElem hlen fun i hi hi' => ?_
      have := H.expected i _ (List.getElem?_eq_getElem hi)
      simp only [Route.isExpected, hexpected, List.getElem?_eq_getElem hi', decide_eq_true_eq,
        Option.some.injEq] at this
      exact this.symm
    rw [hchain]
    exact hmap

/-- What an open that has ended leaves behind: when it returns, its handle and a chain of identities,
one for each component, that have been reported for it and are the expected ones; no object below
the share was known as a reparse point. -/
def Settled (path : String) (expected : Expected) :
    Result Error (Nat × ObjectInfo) × Trace State → Prop
  | (.ok (handle, info), w) =>
    (∀ k, w.state.Pending k ↔ k = handle) ∧
      ∃ r : Route, splitUnc path = .ok (r.root, r.components) ∧
        info.identityChain.length = r.components.length ∧
        (∀ i fileId, info.identityChain[i]? = some fileId →
          w.state.Reports (r.pathAt (i + 1)) fileId) ∧
        (∀ values, expected = .identities values →
          values.map IdentityArg.stable = info.identityChain.map .ok) ∧
        w.state.Clean r.root
  | (.raised _, w) | (.aborted, w) => ∀ k, ¬ w.state.Pending k

/-- Whatever the server answers, and whichever calls fail. -/
theorem open_verified_path (server : Server) (path : String) (purpose : Purpose)
    (expected : Expected) (script : Script Error) :
    Settled path expected
      (openVerifiedPath server path purpose expected script ⟨.init, [], 0⟩) := by
  have hnone : ∀ k, ¬ State.init.Pending k := fun k ⟨h, hget, _⟩ => nomatch hget
  have hdoes : Does (openVerifiedPath server path purpose expected)
      (fun x t => ∃ (r : Route), splitUnc path = .ok (r.root, r.components) ∧
        expectedIdentities r.components expected = .ok r.expected ∧ Returned r x.1 x.2 t)
      (fun _ t => ∀ k, ¬ t.Pending k) (fun t => ∀ k, ¬ t.Pending k) .init := by
    refine .bind (P := fun x t => State.init = t ∧ splitUnc path = .ok x)
      (ofExcept_does (fun _ h => ⟨rfl, h⟩) fun _ _ => hnone) ?_
    rintro ⟨root, components⟩ _ ⟨rfl, hsplit⟩
    refine .bind (P := fun x t => State.init = t ∧ expectedIdentities components expected = .ok x)
      (ofExcept_does (fun _ h => ⟨rfl, h⟩) fun _ _ => hnone) ?_
    rintro ids _ ⟨rfl, hids⟩
    exact run_does hnone nofun (fun handle info t ht =>
      ⟨⟨server, root, components, purpose, ids⟩, hsplit, hids, ht⟩) (fun _ _ h => h) fun _ h => h
  have hends := hdoes script ⟨.init, [], 0⟩ rfl nofun
  match openVerifiedPath server path purpose expected script ⟨.init, [], 0⟩, hends with
  | (.ok (handle, info), w), ⟨_, r, hsplit, hids, H⟩ =>
    refine ⟨H.pending, r, hsplit, H.length, H.reports, fun values hvalues => ?_, H.clean⟩
    rw [hvalues] at hids
    exact H.chain_eq hids
  | (.raised _, w), hends => exact hends.2
  | (.aborted, w), hends => exact hends.2

end WebSSH.Smb.Verified
