import Mathlib
import WebSSH.Backup.Restore

/-!
# What a failed restore leaves behind

The invariant of `_restore_staged_files` says of each path what its rollback copy is and whether
DATA_DIR still has its old file. A path that the manifest names twice, by two spellings, is copied
twice, and the second copy saves what the first one has just restored.
-/

namespace WebSSH.Backup
open Lib Python Json

set_option autoImplicit false

section
variable {before stage : DataDir} {again : Path → Prop} {s : Progress} {r : Path}

/-! ## The rollback -/

theorem putBack_file? {rollback : Dict Path Bytes} {dataDir : DataDir} {paths : List Path} :
    (paths.foldl (putBack rollback) dataDir).file? r =
      if r ∈ paths then (rollback.get? r).or (dataDir.file? r) else dataDir.file? r := by
  induction paths generalizing dataDir with
  | nil => rfl
  | cons p paths ih =>
    rw [List.foldl_cons, ih]
    have hp : (putBack rollback dataDir p).file? r =
        if r = p then (rollback.get? p).or (dataDir.file? r) else dataDir.file? r := by
      rw [putBack]
      cases rollback.get? p with
      | none => simp
      | some c => simp [FileTree.file?_write]
    rw [hp]
    by_cases h : r = p
    · subst h
      cases rollback.get? r <;> simp
    · simp [h]

theorem unlink_file? {dataDir : DataDir} {paths : List Path} :
    (paths.foldl FileTree.unlink dataDir).file? r =
      if r ∈ paths then none else dataDir.file? r := by
  induction paths generalizing dataDir with
  | nil => rfl
  | cons p paths ih =>
    rw [List.foldl_cons, ih, FileTree.file?_unlink]
    by_cases h : r = p <;> simp [h]

theorem rmdir_file? {dataDir : DataDir} {paths : List Path} :
    (paths.foldl FileTree.rmdir dataDir).file? r = dataDir.file? r := by
  induction paths generalizing dataDir with
  | nil => rfl
  | cons p paths ih => rw [List.foldl_cons, ih, FileTree.file?_rmdir]

theorem rollBack_file? : (rollBack s).file? r =
    if r ∈ s.newPaths then none
    else if r ∈ s.rollbackPaths then (s.rollback.get? r).or (s.dataDir.file? r)
    else s.dataDir.file? r := by
  simp only [rollBack, rmdir_file?, unlink_file?, putBack_file?, List.mem_reverse]

/-- What a state knows of the tree `before` the restore. The rollback copy of a path that was
copied `again` is the staged file. -/
structure Tracked (before stage : DataDir) (again : Path → Prop) (s : Progress) : Prop where
  new : ∀ r ∈ s.newPaths, before.file? r = none
  old : ∀ r ∈ s.rollbackPaths, r ∉ s.newPaths → (before.file? r).isSome
  saved : ∀ r ∈ s.rollbackPaths, r ∉ s.newPaths → ¬ again r →
    s.rollback.get? r = before.file? r
  savedAgain : ∀ r ∈ s.rollbackPaths, r ∉ s.newPaths → again r →
    s.rollback.get? r = stage.file? r ∧ (stage.file? r).isSome
  untouched : ∀ r, r ∉ s.rollbackPaths → r ∉ s.newPaths → s.dataDir.file? r = before.file? r
  recorded : ∀ r, again r → r ∈ s.rollbackPaths ∨ r ∈ s.newPaths

/-- The rollback restores every file, except for those copied again from a different staged file. -/
theorem Tracked.rollBack_iff (H : Tracked before stage again s) :
    (∀ r, (rollBack s).file? r = before.file? r) ↔
      ∀ r, again r → before.file? r ≠ none → before.file? r = stage.file? r := by
  constructor
  · intro h r hagain hold
    have hnew : r ∉ s.newPaths := fun hm => hold (H.new r hm)
    have hsaved := (H.recorded r hagain).resolve_right hnew
    obtain ⟨hget, hstage⟩ := H.savedAgain r hsaved hnew hagain
    have := h r
    rw [rollBack_file?, if_neg hnew, if_pos hsaved, hget, Option.or_of_isSome hstage] at this
    exact this.symm
  · intro h r
    rw [rollBack_file?]
    split
    · exact (H.new r ‹_›).symm
    rename_i hnew
    split
    · rename_i hsaved
      have hold := H.old r hsaved hnew
      by_cases hagain : again r
      · obtain ⟨hget, hstage⟩ := H.savedAgain r hsaved hnew hagain
        rw [hget, Option.or_of_isSome hstage]
        exact (h r hagain (Option.isSome_iff_ne_none.mp hold)).symm
      · rw [H.saved r hsaved hnew hagain, Option.or_of_isSome hold]
    · exact H.untouched r ‹_› hnew

/-! ## The operations -/

/-- `r` is named twice. -/
def Twice (relatives : List Path) (r : Path) : Prop := 2 ≤ relatives.count r

/-- In the loop over the manifest: the targets of the entries `done` have their staged files. -/
structure Restoring (before stage : DataDir) (done : List Path) (again : Path → Prop)
    (s : Progress) : Prop extends Tracked before stage again s where
  copied : ∀ r ∈ done, s.dataDir.file? r = stage.file? r ∧ (stage.file? r).isSome
  kept : ∀ r, r ∉ done → s.dataDir.file? r = before.file? r
  listed : ∀ r ∈ done, r ∈ s.rollbackPaths ∨ r ∈ s.newPaths

theorem Restoring.init : Restoring before stage [] (Twice []) (.init before) where
  new _ h := by cases h
  old _ h := by cases h
  saved _ h := by cases h
  savedAgain _ h := by cases h
  untouched _ _ _ := rfl
  recorded _ h := by cases h
  copied _ h := by cases h
  kept _ _ := rfl
  listed _ h := by cases h

section
variable {done : List Path}

/-- A change that shows no file otherwise. -/
theorem Restoring.congr (H : Restoring before stage done again s) {dataDir : DataDir}
    (h : ∀ r, dataDir.file? r = s.dataDir.file? r) (created : List Path) :
    Restoring before stage done again
      { s with dataDir := dataDir, createdDirectories := created } :=
  { H with
    untouched := fun r h₁ h₂ => (h r).trans (H.untouched r h₁ h₂)
    copied := fun r hr => ⟨(h r).trans (H.copied r hr).1, (H.copied r hr).2⟩
    kept := fun r hr => (h r).trans (H.kept r hr) }

/-- Creating a directory keeps what does not depend on the directories. -/
theorem makeDirectory_outcome {P : Progress → Prop} (hs : P s)
    (hP : ∀ s dataDir created, P s → (∀ r, dataDir.file? r = s.dataDir.file? r) →
      P { s with dataDir := dataDir, createdDirectories := created })
    (faults : Faults Point) (pt : Point) (path : Path) {E : Point → Bool → Progress → Prop}
    (hE : ∀ s', P s' → ∀ b, E pt b s') : Outcome P E (makeDirectory faults pt s path) := by
  have hmkdir : (s.dataDir.get? path).isNone = true → P (s.mkdir path) := fun hnone =>
    hP s _ _ hs fun r => FileTree.file?_mkdir
      (by rw [FileTree.file?, Option.isNone_iff_eq_none.mp hnone])
  refine Outcome.bind (Outcome.perform hmkdir (hE s hs false) fun h => hE _ (hmkdir h) true) ?_
  exact fun s' hs' => Outcome.pure (hP s' _ _ hs' fun _ => rfl)

/-- The rollback copy of a file: the staged file when its entry is not the first. -/
theorem Restoring.save (H : Restoring before stage done (Twice done) s) {c : Bytes}
    (hfile : s.dataDir.file? r = some c) (hne : ∀ q, q ≠ r → (again q ↔ Twice done q))
    (hr : again r ↔ r ∈ done) {paths : List Path} (hpaths : ∀ q ∈ paths, q ∈ s.rollbackPaths ∨ q = r)
    (hmono : ∀ q ∈ s.rollbackPaths, q ∈ paths) :
    Restoring before stage done again
      { s with rollback := s.rollback.set r c, rollbackPaths := paths } := by
  refine { H with
    old := ?_, saved := ?_, savedAgain := ?_, untouched := ?_, recorded := ?_, listed := ?_ }
  · intro q hq hnew
    rcases hpaths q hq with hq | rfl
    · exact H.old q hq hnew
    · by_cases hd : q ∈ done
      · exact H.old q ((H.listed q hd).resolve_right hnew) hnew
      · rw [← H.kept q hd, hfile]; rfl
  · intro q hq hnew hagain
    by_cases h : q = r
    · subst h
      rw [← H.kept q (fun hd => hagain (hr.mpr hd)), hfile]
      exact Dict.get?_set_self
    · have hq := (hpaths q hq).resolve_right h
      exact (Dict.get?_set_of_ne h).trans (H.saved q hq hnew fun ht => hagain ((hne q h).mpr ht))
  · intro q hq hnew hagain
    by_cases h : q = r
    · subst h
      obtain ⟨hstage, hsome⟩ := H.copied q (hr.mp hagain)
      refine ⟨?_, hsome⟩
      rw [← hstage, hfile]
      exact Dict.get?_set_self
    · simp only [Dict.get?_set_of_ne h]
      exact H.savedAgain q ((hpaths q hq).resolve_right h) hnew ((hne q h).mp hagain)
  · intro q hq hnew
    exact H.untouched q (fun hm => hq (hmono q hm)) hnew
  · intro q hagain
    by_cases h : q = r
    · subst h; exact (H.listed q (hr.mp hagain)).imp_left (hmono q)
    · exact (H.recorded q ((hne q h).mp hagain)).imp_left (hmono q)
  · intro q hq
    exact (H.listed q hq).imp_left (hmono q)

theorem Restoring.copyForRollback (H : Restoring before stage done (Twice done) s)
    (faults : Faults Point) (pt : Point) {E : Point → Bool → Progress → Prop}
    (hne : ∀ q, q ≠ r → (again q ↔ Twice done q)) (hr : again r ↔ r ∈ done)
    (hbefore : E pt false s)
    (hafter : ∀ s', Restoring before stage done again s' → E pt true s') :
    Outcome (fun s' => Restoring before stage done again s' ∧ r ∈ s'.rollbackPaths ∧
      ∀ q ∈ s.rollbackPaths, q ∈ s'.rollbackPaths) E (copyForRollback faults pt s r) := by
  have hsave : (s.dataDir.file? r).isSome = true → ∃ c, s.dataDir.file? r = some c ∧
      s.save r = { s with rollback := s.rollback.set r c } := by
    intro hsome
    obtain ⟨c, hc⟩ := Option.isSome_iff_exists.mp hsome
    exact ⟨c, hc, by rw [Progress.save, hc]⟩
  refine Outcome.bind (Q := fun s' => ∃ c, s.dataDir.file? r = some c ∧
    s' = { s with rollback := s.rollback.set r c })
    (Outcome.perform hsave hbefore fun h => ?_) ?_
  · obtain ⟨c, hc, hs⟩ := hsave h
    rw [hs]
    exact hafter _ (H.save hc hne hr (fun q hq => .inl hq) fun _ hq => hq)
  · rintro _ ⟨c, hc, rfl⟩
    have hmem : ∀ {q}, q ∈ s.rollbackPaths.insert r ↔ q = r ∨ q ∈ s.rollbackPaths :=
      List.mem_insert_iff
    exact Outcome.pure ⟨H.save hc hne hr (fun q hq => (hmem.mp hq).symm) fun q hq =>
      hmem.mpr (.inr hq), hmem.mpr (.inl rfl), fun q hq => hmem.mpr (.inr hq)⟩

theorem twice_snoc_of_ne {q : Path} (h : q ≠ r) : Twice (done ++ [r]) q ↔ Twice done q := by
  simp [Twice, List.count_append, h.symm]

theorem twice_snoc_self : Twice (done ++ [r]) r ↔ r ∈ done := by
  simp [Twice, List.count_append, ← List.count_pos_iff]

/-- A target that is not there yet is new. -/
theorem Restoring.addNew (H : Restoring before stage done (Twice done) s)
    (h : s.dataDir.present r = false) :
    Restoring before stage done (Twice (done ++ [r]))
      { s with newPaths := s.newPaths.insert r } := by
  have hnone : s.dataDir.file? r = none := FileTree.file?_of_absent h
  have hdone : r ∉ done := by
    intro hd
    obtain ⟨hstage, hsome⟩ := H.copied r hd
    rw [← hstage, hnone] at hsome
    cases hsome
  have hmem : ∀ {q}, q ∈ s.newPaths.insert r ↔ q = r ∨ q ∈ s.newPaths := List.mem_insert_iff
  have hagain : ∀ q, Twice (done ++ [r]) q ↔ Twice done q := by
    intro q
    by_cases hq : q = r
    · subst hq
      rw [twice_snoc_self]
      exact ⟨fun hd => absurd hd hdone, fun ht => absurd (List.count_pos_iff.mp (by
        unfold Twice at ht; omega)) hdone⟩
    · exact twice_snoc_of_ne hq
  have hold : ∀ {q}, q ∉ s.newPaths.insert r → q ∉ s.newPaths := fun hq hm => hq (hmem.mpr (.inr hm))
  refine { H with
    new := ?_, old := ?_, saved := ?_, savedAgain := ?_, untouched := ?_, recorded := ?_,
    listed := ?_ }
  · intro q hq
    rcases hmem.mp hq with rfl | hq
    · rw [← H.kept q hdone]; exact hnone
    · exact H.new q hq
  · exact fun q hq hnew => H.old q hq (hold hnew)
  · exact fun q hq hnew ha => H.saved q hq (hold hnew) fun ht => ha ((hagain q).mpr ht)
  · exact fun q hq hnew ha => H.savedAgain q hq (hold hnew) ((hagain q).mp ha)
  · exact fun q hq hnew => H.untouched q hq (hold hnew)
  · exact fun q ha => (H.recorded q ((hagain q).mp ha)).imp_right fun hm => hmem.mpr (.inr hm)
  · exact fun q hq => (H.listed q hq).imp_right fun hm => hmem.mpr (.inr hm)

/-- The target gets its staged file. -/
theorem Restoring.copy (H : Restoring before stage done (Twice (done ++ [r])) s) {c : Bytes}
    (hstage : stage.file? r = some c) (hr : r ∈ s.rollbackPaths ∨ r ∈ s.newPaths) :
    Restoring before stage (done ++ [r]) (Twice (done ++ [r])) (s.copy r c) := by
  have hfile : ∀ q, (s.copy r c).dataDir.file? q = if q = r then some c else s.dataDir.file? q :=
    fun q => FileTree.file?_write
  refine { H with untouched := ?_, copied := ?_, kept := ?_, listed := ?_ }
  · intro q h₁ h₂
    have hq : q ≠ r := by
      rintro rfl
      exact hr.elim h₁ h₂
    rw [hfile, if_neg hq]
    exact H.untouched q h₁ h₂
  · intro q hq
    rw [hfile]
    by_cases h : q = r
    · subst h; rw [if_pos rfl, hstage]; exact ⟨rfl, rfl⟩
    · rw [if_neg h]
      exact H.copied q ((List.mem_append.mp hq).resolve_right fun hm =>
        h (List.mem_singleton.mp hm))
  · intro q hq
    have h : q ≠ r := by
      rintro rfl
      exact hq (by simp)
    rw [hfile, if_neg h]
    exact H.kept q fun hd => hq (List.mem_append_left _ hd)
  · intro q hq
    rcases List.mem_append.mp hq with hq | hq
    · exact H.listed q hq
    · rw [List.mem_singleton.mp hq]; exact hr

/-! ## The whole restore -/

/-- How many entries of the manifest have their rollback copy when the operation at `pt` raises. -/
def Point.saves (pt : Point) (tookEffect : Bool) (entries : Nat) : Nat :=
  match pt with
  | .mkdirRoot | .saveExtra _ => 0
  | .mkdirParent i _ => i
  | .save i => if tookEffect then i + 1 else i
  | .copy i => i + 1
  | .unlinkExtra _ => entries

/-- What holds when the operation at `pt` raises. -/
def Interrupted (before stage : DataDir) (relatives : List Path) (pt : Point) (tookEffect : Bool)
    (s : Progress) : Prop :=
  Tracked before stage (Twice (relatives.take (pt.saves tookEffect relatives.length))) s

theorem Restoring.restoreFile {extra : List Path}
    (H : Restoring before stage done (Twice done) s) (hextra : ∀ q ∈ extra, q ∈ s.rollbackPaths)
    (rest : List Path) (faults : Faults Point) (item : BackupFile) (hr : posixParts item.path = r) :
    Outcome (fun s' => Restoring before stage (done ++ [r]) (Twice (done ++ [r])) s' ∧
        ∀ q ∈ extra, q ∈ s'.rollbackPaths)
      (Interrupted before stage (done ++ r :: rest))
      (restoreFile faults stage s (item, done.length)) := by
  subst hr
  generalize hrel : posixParts item.path = r
  have htake : (done ++ r :: rest).take done.length = done := by simp
  have htake' : (done ++ r :: rest).take (done.length + 1) = done ++ [r] := by
    rw [List.take_append]; simp
  let P : Progress → Prop := fun s =>
    Restoring before stage done (Twice done) s ∧ ∀ q ∈ extra, q ∈ s.rollbackPaths
  let P' : Progress → Prop := fun s =>
    (Restoring before stage done (Twice (done ++ [r])) s ∧ ∀ q ∈ extra, q ∈ s.rollbackPaths) ∧
      (r ∈ s.rollbackPaths ∨ r ∈ s.newPaths)
  have hcopy : ∀ s, P' s → Outcome (fun s' =>
      Restoring before stage (done ++ [r]) (Twice (done ++ [r])) s' ∧
        ∀ q ∈ extra, q ∈ s'.rollbackPaths) (Interrupted before stage (done ++ r :: rest))
      (perform faults (.copy done.length) ((stage.file? r).isSome && s.replaceable r)
        (·.copy r ((stage.file? r).getD [])) s) := by
    intro s hs
    have hready : ((stage.file? r).isSome && s.replaceable r) = true →
        Restoring before stage (done ++ [r]) (Twice (done ++ [r]))
          (s.copy r ((stage.file? r).getD [])) := by
      intro h
      obtain ⟨c, hc⟩ := Option.isSome_iff_exists.mp (Bool.and_eq_true_iff.mp h).1
      rw [hc]
      exact hs.1.1.copy hc hs.2
    refine Outcome.perform (fun h => ⟨hready h, hs.1.2⟩) ?_ fun h => ?_
    · rw [Interrupted, Point.saves, htake']
      exact hs.1.1.toTracked
    · rw [Interrupted, Point.saves, htake']
      exact (hready h).toTracked
  simp only [Backup.restoreFile, hrel]
  refine Outcome.bind (Q := P) ?_ fun s₁ h₁ => ?_
  · refine Outcome.foldlM (I := fun _ => P) ⟨H, hextra⟩ fun _ path _ s' _ hs' => ?_
    refine makeDirectory_outcome hs' (fun s dataDir created hs h => ⟨hs.1.congr h _, hs.2⟩) _ _ _ ?_
    intro s'' hs'' b
    rw [Interrupted, Point.saves, htake]
    exact hs''.1.toTracked
  · split
    · refine Outcome.bind (Q := P') (Outcome.mono (h₁.1.copyForRollback faults _
        (fun q hq => twice_snoc_of_ne hq) twice_snoc_self ?_ ?_) ?_) hcopy
      · rw [Interrupted, Point.saves, if_neg (by simp), htake]
        exact h₁.1.toTracked
      · intro s' hs'
        rw [Interrupted, Point.saves, if_pos rfl, htake']
        exact hs'.toTracked
      · intro s' hs'
        exact ⟨⟨hs'.1, fun q hq => hs'.2.2 q (h₁.2 q hq)⟩, .inl hs'.2.1⟩
    · rename_i habsent
      exact hcopy _ ⟨⟨h₁.1.addNew (by simpa using habsent), h₁.2⟩,
        .inr (List.mem_insert_iff.mpr (.inl rfl))⟩

/-- The entry at a position of the manifest. -/
theorem zipIdx_split {l : List BackupFile} {done rest : List (BackupFile × Nat)}
    {entry : BackupFile × Nat} (h : l.zipIdx = done ++ entry :: rest) :
    entry.2 = done.length ∧
      l = done.map Prod.fst ++ entry.1 :: rest.map Prod.fst := by
  constructor
  · have := congrArg (·[done.length]?) h
    simp only [List.getElem?_zipIdx, List.getElem?_append_right (Nat.le_refl _), Nat.sub_self,
      List.getElem?_cons_zero] at this
    obtain ⟨a, -, ha⟩ := Option.map_eq_some_iff.mp this
    rw [← ha]
    simp
  · have := congrArg (List.map Prod.fst) h
    simpa using this

/-- `relatives` are the paths of the manifest. -/
def relatives (manifest : BackupManifest) : List Path :=
  manifest.files.map (posixParts ·.path)

/-- Every extra file is copied for a rollback first. -/
theorem saveExtras_outcome (faults : Faults Point) (extra : List Path)
    {E : Point → Bool → Progress → Prop} (H : Restoring before stage [] (Twice []) s)
    (hE : ∀ {path b s'}, Tracked before stage (Twice []) s' → E (.saveExtra path) b s') :
    Outcome (fun s' => Restoring before stage [] (Twice []) s' ∧ ∀ q ∈ extra, q ∈ s'.rollbackPaths)
      E (extra.foldlM (fun s path => copyForRollback faults (.saveExtra path) s path) s) := by
  refine Outcome.foldlM (I := fun saved s' => Restoring before stage [] (Twice []) s' ∧
    ∀ q ∈ saved, q ∈ s'.rollbackPaths) ⟨H, nofun⟩ ?_
  intro saved path rest s' _ hs'
  have hfirst : Twice [] path ↔ path ∈ ([] : List Path) := by simp [Twice]
  refine Outcome.mono (hs'.1.copyForRollback faults _ (fun _ _ => Iff.rfl) hfirst
    (hE hs'.1.toTracked) fun s'' hs'' => hE hs''.toTracked) ?_
  rintro s'' ⟨hs'', hmem, hmono⟩
  refine ⟨hs'', fun q hq => ?_⟩
  rcases List.mem_append.mp hq with hq | hq
  · exact hmono q (hs'.2 q hq)
  · rw [List.mem_singleton.mp hq]; exact hmem

/-- The loop over the manifest. -/
theorem restoreFiles_outcome (faults : Faults Point) (files : List BackupFile) {extra : List Path}
    (H : Restoring before stage [] (Twice []) s) (hextra : ∀ q ∈ extra, q ∈ s.rollbackPaths) :
    Outcome (fun s' => Restoring before stage (files.map (posixParts ·.path))
        (Twice (files.map (posixParts ·.path))) s' ∧ ∀ q ∈ extra, q ∈ s'.rollbackPaths)
      (Interrupted before stage (files.map (posixParts ·.path)))
      (files.zipIdx.foldlM (Backup.restoreFile faults stage) s) := by
  let I (done : List (BackupFile × Nat)) (s' : Progress) : Prop :=
    Restoring before stage ((done.map Prod.fst).map (posixParts ·.path))
      (Twice ((done.map Prod.fst).map (posixParts ·.path))) s' ∧ ∀ q ∈ extra, q ∈ s'.rollbackPaths
  have hloop := Outcome.foldlM (I := I) (E := Interrupted before stage (files.map (posixParts ·.path)))
    (f := Backup.restoreFile faults stage) (l := files.zipIdx) (s := s) ⟨H, hextra⟩ ?_
  · refine hloop.mono fun s' hs' => ?_
    have hfst : files.zipIdx.map Prod.fst = files := List.zipIdx_map_fst 0 files
    simpa only [I, hfst] using hs'
  · rintro done ⟨item, i⟩ rest s' hsplit ⟨hs', hextra'⟩
    obtain ⟨hi, hfiles⟩ := zipIdx_split hsplit
    have hstep := hs'.restoreFile hextra' ((rest.map Prod.fst).map (posixParts ·.path)) faults item rfl
    simp only [List.length_map] at hstep
    have hi : i = done.length := hi
    rw [hi, hfiles]
    simpa only [I, List.map_append, List.map_cons, List.map_nil] using hstep

/-- Named, so that `Replaced` carries no proof of it. -/
local instance pathLawful : LawfulBEq Path := inferInstance

/-- DATA_DIR has the staged files and no extra file; everything else is as before. -/
def Replaced (before stage : DataDir) (relatives extra : List Path) (s : Progress) : Prop :=
  ∀ r, s.dataDir.file? r =
    if r ∈ relatives then stage.file? r else if r ∈ extra then none else before.file? r

/-- The last loop. -/
theorem unlinkExtras_outcome (faults : Faults Point) {relatives extra : List Path}
    (hdisjoint : ∀ q ∈ extra, q ∉ relatives)
    (H : Restoring before stage relatives (Twice relatives) s)
    (hextra : ∀ q ∈ extra, q ∈ s.rollbackPaths) :
    Outcome (Replaced before stage relatives extra) (Interrupted before stage relatives)
      (extra.foldlM (fun s path => perform faults (.unlinkExtra path)
        (s.dataDir.file? path).isSome (·.unlink path) s) s) := by
  let I (gone : List Path) (s' : Progress) : Prop :=
    Tracked before stage (Twice relatives) s' ∧ (∀ q ∈ extra, q ∈ s'.rollbackPaths) ∧
      ∀ r, s'.dataDir.file? r = if r ∈ gone then none else s.dataDir.file? r
  have hloop : Outcome (I extra) (Interrupted before stage relatives)
      (extra.foldlM (fun s path => perform faults (.unlinkExtra path)
        (s.dataDir.file? path).isSome (·.unlink path) s) s) := by
    refine Outcome.foldlM ⟨H.toTracked, hextra, fun r => by simp⟩ ?_
    rintro gone path rest s' hsplit ⟨hs', hextra', hfile⟩
    have hmem : path ∈ extra := by rw [hsplit]; simp
    have hunlink : I (gone ++ [path]) (s'.unlink path) := by
      refine ⟨{ hs' with untouched := fun r h₁ h₂ => ?_ }, hextra', fun r => ?_⟩
      · have hr : r ≠ path := by
          rintro rfl
          exact h₁ (hextra' r hmem)
        exact FileTree.file?_unlink.trans ((if_neg hr).trans (hs'.untouched r h₁ h₂))
      · refine FileTree.file?_unlink.trans ?_
        rw [hfile]
        by_cases hr : r = path <;> simp [hr]
    refine Outcome.perform (fun _ => hunlink) ?_ fun _ => ?_
    · simpa [Interrupted, Point.saves] using hs'
    · simpa [Interrupted, Point.saves] using hunlink.1
  refine hloop.mono fun s' hs' r => ?_
  rw [hs'.2.2 r]
  by_cases hr : r ∈ relatives
  · rw [if_pos hr, if_neg fun he => hdisjoint r he hr]
    exact (H.copied r hr).1
  · rw [if_neg hr, H.kept r hr]

/-- What the `try` block of `_restore_staged_files` does. -/
theorem replaceFiles_outcome (faults : Faults Point) (stage before : DataDir)
    (manifest : BackupManifest) (extra : List Path) (hextra : ∀ q ∈ extra, q ∉ relatives manifest) :
    Outcome (Replaced before stage (relatives manifest) extra)
      (Interrupted before stage (relatives manifest))
      (replaceFiles faults stage before manifest extra) := by
  have htail : ∀ s, Restoring before stage [] (Twice []) s →
      Outcome (Replaced before stage (relatives manifest) extra)
        (Interrupted before stage (relatives manifest)) (do
        let s ← extra.foldlM (fun s path => copyForRollback faults (.saveExtra path) s path) s
        let s ← manifest.files.zipIdx.foldlM (Backup.restoreFile faults stage) s
        extra.foldlM (fun s path => perform faults (.unlinkExtra path)
          (s.dataDir.file? path).isSome (·.unlink path) s) s) := by
    intro s hs
    refine Outcome.bind (saveExtras_outcome faults extra hs fun hs' => by simpa [Interrupted]) ?_
    intro s₁ h₁
    refine Outcome.bind (restoreFiles_outcome faults manifest.files h₁.1 h₁.2) fun s₂ h₂ => ?_
    exact unlinkExtras_outcome faults hextra h₂.1 h₂.2
  have hinit : Restoring before stage [] (Twice []) (.init before) := .init
  simp only [replaceFiles]
  split
  · exact htail _ hinit
  · refine Outcome.bind (makeDirectory_outcome hinit (fun s _ _ hs h => hs.congr h _) _ _ _ ?_) htail
    intro s hs b
    simpa [Interrupted, Point.saves] using hs.toTracked

end
end

/-! ## Staging -/

theorem makeParent_file? {stage : DataDir} {paths : List Path} {r : Path} :
    (paths.foldl makeParent stage).file? r = stage.file? r := by
  induction paths generalizing stage with
  | nil => rfl
  | cons p paths ih =>
    rw [List.foldl_cons, ih, makeParent]
    split
    · rfl
    · rename_i habsent
      exact FileTree.file?_mkdir (FileTree.file?_of_absent (by simpa using habsent))

theorem readMember_eq_ok {info : ZipInfo} {content : Bytes} :
    readMember info = .ok content ↔ info.content = some content := by
  unfold readMember
  cases info.content <;> simp

theorem getMember_eq_ok {members : Archive} {name : String} {info : ZipInfo} :
    getMember members name = .ok info ↔ member? members name = some info := by
  unfold getMember
  cases member? members name <;> simp

/-- An extracted member has its contents at the path of its entry. -/
theorem extractFile_file? {limits : Limits} {members : Archive} {s s' : DataDir × Nat}
    {item : BackupFile} (h : extractFile limits members s item = .ok s') (r : Path) :
    s'.1.file? r = if posixParts item.path = r then
        (member? members (dataPrefix ++ item.path)).bind (·.content)
      else s.1.file? r := by
  simp only [extractFile] at h
  obtain ⟨_, -, h⟩ := bind_eq_ok.mp h
  obtain ⟨_, -, h⟩ := bind_eq_ok.mp h
  obtain ⟨info, hinfo, h⟩ := bind_eq_ok.mp h
  obtain ⟨_, -, h⟩ := bind_eq_ok.mp h
  obtain ⟨content, hcontent, h⟩ := bind_eq_ok.mp h
  obtain ⟨_, -, h⟩ := bind_eq_ok.mp h
  obtain ⟨_, -, h⟩ := bind_eq_ok.mp h
  cases h
  rw [getMember_eq_ok.mp hinfo, FileTree.file?_write, makeParent_file?]
  by_cases hr : r = posixParts item.path
  · rw [if_pos hr, if_pos hr.symm]
    exact (readMember_eq_ok.mp hcontent).symm
  · rw [if_neg hr, if_neg (Ne.symm hr)]

/-- The bytes that an archive has for a path: those of the last entry that names it. -/
def archived (members : Archive) (files : List BackupFile) (r : Path) : Option Bytes :=
  (files.reverse.find? fun item => posixParts item.path = r).bind fun item =>
    (member? members (dataPrefix ++ item.path)).bind (·.content)

theorem extractFiles_file? {limits : Limits} {members : Archive} {s' : DataDir × Nat}
    {files : List BackupFile} (h : files.foldlM (extractFile limits members) (∅, 0) = .ok s')
    (r : Path) : s'.1.file? r = archived members files r := by
  induction files using List.reverseRecOn generalizing s' with
  | nil => cases h; rfl
  | append_singleton files item ih =>
    obtain ⟨s, hs, h⟩ := foldlM_append_singleton.mp h
    rw [extractFile_file? h, ih hs, archived, archived, List.reverse_append, List.reverse_singleton,
      List.singleton_append, List.find?_cons]
    by_cases hr : posixParts item.path = r <;> simp [hr]

theorem validatedMembers_eq_ok {limits : Limits} {infos members : Archive}
    (h : validatedMembers limits infos = .ok members) :
    members = infos.filter fun info => !info.isDir := by
  simp only [validatedMembers] at h
  obtain ⟨_, -, h⟩ := bind_eq_ok.mp h
  obtain ⟨_, -, h⟩ := bind_eq_ok.mp h
  obtain ⟨_, -, h⟩ := bind_eq_ok.mp h
  obtain ⟨_, -, h⟩ := bind_eq_ok.mp h
  obtain ⟨_, -, h⟩ := bind_eq_ok.mp h
  obtain ⟨_, -, h⟩ := bind_eq_ok.mp h
  obtain ⟨_, -, h⟩ := bind_eq_ok.mp h
  cases h
  rfl

theorem isDir_of_file {dataDir : DataDir} {p : Path} {c : Bytes} (h : dataDir.file? p = some c) :
    dataDir.isDir p = false := by
  rw [FileTree.isDir, FileTree.file?_eq_some.mp h]

theorem restorable_eq_ok {manifest manifest' : BackupManifest}
    (h : restorable manifest = .ok manifest') : manifest' = restored manifest := by
  unfold restorable at h
  split at h
  · cases h
  · cases h; rfl

/-- What a restore that reaches `_restore_staged_files` knows. -/
theorem prepareRestore_eq_ok {codec : Codec} {limits : Limits} {archive : Archive}
    {dataDir stage : DataDir} {manifest restoredManifest : BackupManifest} {extra : List Path}
    (hverify : verifyBackup codec limits (some archive) = .ok manifest)
    (h : prepareRestore codec limits (some archive) dataDir =
      .ok (stage, restoredManifest, extra)) :
    dataDir.file? [] = none ∧ restoredManifest = restored manifest ∧
      (∃ existing, existingPersistentFiles dataDir = .ok existing ∧
        extra = existing.filter (· ∉ relatives (restored manifest))) ∧
      ∀ r, stage.file? r =
        archived (archive.filter fun info => !info.isDir) (restored manifest).files r := by
  simp only [prepareRestore, hverify] at h
  obtain ⟨_, -, h⟩ := bind_eq_ok.mp h
  obtain ⟨manifest', hmanifest, h⟩ := bind_eq_ok.mp h
  cases hmanifest
  obtain ⟨_, -, h⟩ := bind_eq_ok.mp h
  obtain ⟨_, htargets, h⟩ := bind_eq_ok.mp h
  obtain ⟨_, hrestorable, h⟩ := bind_eq_ok.mp h
  cases restorable_eq_ok hrestorable
  obtain ⟨existing, hexisting, h⟩ := bind_eq_ok.mp h
  obtain ⟨members, hmembers, h⟩ := bind_eq_ok.mp h
  cases validatedMembers_eq_ok hmembers
  obtain ⟨_, -, h⟩ := bind_eq_ok.mp h
  obtain ⟨_, -, h⟩ := bind_eq_ok.mp h
  obtain ⟨s, hs, h⟩ := bind_eq_ok.mp h
  obtain ⟨_, -, h⟩ := bind_eq_ok.mp h
  cases h
  refine ⟨?_, rfl, ⟨existing, hexisting, rfl⟩, extractFiles_file? hs⟩
  obtain ⟨_, hroot, -⟩ := bind_eq_ok.mp htargets
  cases hf : dataDir.file? [] with
  | none => rfl
  | some c =>
    have hsafe := raiseIf_eq_ok.mp hroot
    rw [unsafeEntry, FileTree.present_of_file hf, isDir_of_file hf] at hsafe
    simp at hsafe

/-! ## Restores that raise -/

/-- A file of DATA_DIR is named by two entries of the manifest, its bytes are not those of the
archive, and both entries have their rollback copy when the operation at `pt` raises. -/
def LostFile (archive : Archive) (manifest : BackupManifest) (dataDir : DataDir) (pt : Point)
    (tookEffect : Bool) : Prop :=
  let manifest := restored manifest
  ∃ r content, dataDir.file? r = some content ∧
    archived (archive.filter fun info => !info.isDir) manifest.files r ≠ some content ∧
    2 ≤ ((relatives manifest).take (pt.saves tookEffect manifest.files.length)).count r

/-- A restore that raises leaves every file as it was, unless it lost one. -/
theorem restore_rolls_back_iff (codec : Codec) (limits : Limits) (faults : Faults Point)
    {archive : Archive} {dataDir after : DataDir} {manifest : BackupManifest} {pt : Point}
    {tookEffect : Bool} (hverify : verifyBackup codec limits (some archive) = .ok manifest)
    (h : restoreBackup codec limits faults (some archive) dataDir =
      .error (.failed pt tookEffect after)) :
    (∀ r, after.file? r = dataDir.file? r) ↔ ¬ LostFile archive manifest dataDir pt tookEffect := by
  unfold restoreBackup at h
  split at h
  · cases h
  rename_i stage manifest' extra hprepare
  obtain ⟨-, rfl, ⟨existing, -, rfl⟩, hstage⟩ := prepareRestore_eq_ok hverify hprepare
  unfold restoreStagedFiles at h
  split at h
  · cases h
  rename_i r hreplace
  cases h
  have hextra : ∀ q ∈ existing.filter (· ∉ relatives (restored manifest)),
      q ∉ relatives (restored manifest) := fun q hq => of_decide_eq_true (List.mem_filter.mp hq).2
  have htracked := (replaceFiles_outcome faults stage dataDir _ _ hextra).error hreplace
  rw [htracked.rollBack_iff]
  have hlength : (relatives (restored manifest)).length = (restored manifest).files.length :=
    List.length_map _
  constructor
  · rintro hsame ⟨p, content, hold, hnew, htwice⟩
    refine hnew ?_
    rw [← hstage, ← hsame p (by rw [Twice, hlength]; exact htwice) (by rw [hold]; nofun), hold]
  · intro hlost p htwice hold
    obtain ⟨content, hcontent⟩ := Option.ne_none_iff_exists'.mp hold
    by_contra hne
    refine hlost ⟨p, content, hcontent, ?_, ?_⟩
    · rw [← hstage]
      exact fun hs => hne (hcontent.trans hs.symm)
    · rw [Twice, hlength] at htwice
      exact htwice

/-! ## An archive with two spellings of one path -/

/-- An empty WebSSH database of two pages. -/
def databaseFile : Bytes :=
  [83, 81, 76, 105, 116, 101, 32, 102, 111, 114, 109, 97, 116, 32, 51, 0, 2, 0, 1, 1, 0, 64, 32, 32,
    0, 0, 0, 1, 0, 0, 0, 2] ++ List.replicate 11 0 ++ [1, 0, 0, 0, 4] ++ List.replicate 11 0 ++ [1] ++
  List.replicate 35 0 ++ [1, 0, 46, 122, 112, 13, 0, 0, 0, 1, 1, 187, 0, 1, 187] ++
  List.replicate 333 0 ++ [67, 1, 6, 23, 23, 23, 1, 103, 116, 97, 98, 108, 101, 117, 115, 101, 114,
    115, 117, 115, 101, 114, 115, 2, 67, 82, 69, 65, 84, 69, 32, 84, 65, 66, 76, 69, 32, 117, 115,
    101, 114, 115, 40, 105, 100, 44, 117, 115, 101, 114, 110, 97, 109, 101, 44, 112, 97, 115, 115,
    119, 111, 114, 100, 95, 104, 97, 115, 104, 41, 13] ++ List.replicate 4 0 ++ [2] ++
  List.replicate 506 0

def databaseDigest : String := "cdbb21eda74210a22f4747fa5ec9f89ce645ccb543568d114e76d91ad357f748"
def newDigest : String := "11507a0e2f5e69d5dfa40a62a1bd7b6ee57e6bcd85c67c9b8431b36fff21c437"

/-- The libraries on `databaseFile`, on the file `new`, and on a manifest and its text. -/
def sampleCodec (payload : Bytes) (document : Json) : Codec where
  loads text := if text = payload then some document else none
  dumps _ := payload
  sha256 content := if content = encode "new" then newDigest else databaseDigest
  isUtc text := text = "2026-01-01T00:00:00+00:00"
  isWebsshDatabase content := content = databaseFile
  deflatedSize content := if content.length = 3 then 5 else if content.length = 1024 then 126 else 226

def sampleLimits : Limits := ⟨10000, 10485760, 1073741824, 10737418240, 200⟩

/-- The manifest of the files with these paths, digests and sizes. -/
def sampleManifest (files : List BackupFile) : BackupManifest :=
  ⟨2, files, 2, some "2026-01-01T00:00:00Z", some "webssh"⟩

def sampleDocument (files : List BackupFile) : Json :=
  .dict [("created_at", .str "2026-01-01T00:00:00Z"), ("data_schema_version", .int 2),
    ("files", .list (files.map fun item => .dict
      [("path", .str item.path), ("sha256", .str item.sha256), ("size", .int item.size)])),
    ("format_version", .int 2), ("producer", .str "webssh")]

/-- The file `x/y`, spelled in two ways. -/
def aliasFiles : List BackupFile :=
  [⟨"app.db", databaseDigest, 1024⟩, ⟨"x//y", newDigest, 3⟩, ⟨"x/y", newDigest, 3⟩]

def aliasPayload : Bytes := encode <|
  "\x7b\"created_at\":\"2026-01-01T00:00:00Z\",\"data_schema_version\":2,\"files\":[" ++
  "\x7b\"path\":\"app.db\",\"sha256\":\"" ++ databaseDigest ++ "\",\"size\":1024\x7d," ++
  "\x7b\"path\":\"x//y\",\"sha256\":\"" ++ newDigest ++ "\",\"size\":3\x7d," ++
  "\x7b\"path\":\"x/y\",\"sha256\":\"" ++ newDigest ++ "\",\"size\":3\x7d]," ++
  "\"format_version\":2,\"producer\":\"webssh\"\x7d"

def aliasCodec : Codec := sampleCodec aliasPayload (sampleDocument aliasFiles)

def aliasArchive : Archive :=
  [zipInfo aliasCodec manifestName aliasPayload,
    zipInfo aliasCodec "data/app.db" databaseFile,
    zipInfo aliasCodec "data/x//y" (encode "new"),
    zipInfo aliasCodec "data/x/y" (encode "new")]

def aliasDataDir : DataDir where
  entries := [([], .dir true), (["app.db"], .file databaseFile), (["x"], .dir true),
    (["x", "y"], .file (encode "old"))]
  nodup := by decide

/-- The copy to the target of the `i`th entry raises. -/
def copyRaises (i : Nat) : Faults Point := fun pt => if pt = .copy i then some false else none

theorem alias_verified :
    verifyBackup aliasCodec sampleLimits (some aliasArchive) = .ok (sampleManifest aliasFiles) := by
  have h : returns (verifyBackup aliasCodec sampleLimits (some aliasArchive))
      (fun manifest => decide (manifest = sampleManifest aliasFiles)) = true := by
    decide +kernel
  obtain ⟨manifest, hverify, hmanifest⟩ := exists_of_returns h
  rw [hverify, of_decide_eq_true hmanifest]

/-- Where the restore of `aliasArchive` fails when the copy of the `i`th entry raises. -/
theorem alias_fails {i : Nat} {p : DataDir → Bool}
    (h : raises (restoreBackup aliasCodec sampleLimits (copyRaises i) (some aliasArchive)
      aliasDataDir) (fun
        | .failed pt tookEffect after => decide (pt = .copy i ∧ tookEffect = false) && p after
        | .rejected _ => false) = true) :
    ∃ after, restoreBackup aliasCodec sampleLimits (copyRaises i) (some aliasArchive) aliasDataDir =
      .error (.failed (.copy i) false after) ∧ p after = true := by
  obtain ⟨e, he, h⟩ := exists_of_raises h
  cases e with
  | rejected _ => cases h
  | failed pt tookEffect after =>
    obtain ⟨hpt, hp⟩ := Bool.and_eq_true_iff.mp h
    obtain ⟨rfl, rfl⟩ := of_decide_eq_true hpt
    exact ⟨after, he, hp⟩

/-- The last copy raises: the rollback leaves the bytes of the archive at `x/y`. -/
theorem restore_loses_file :
    verifyBackup aliasCodec sampleLimits (some aliasArchive) = .ok (sampleManifest aliasFiles) ∧
    aliasDataDir.file? ["x", "y"] = some (encode "old") ∧
    ∃ after, restoreBackup aliasCodec sampleLimits (copyRaises 2) (some aliasArchive) aliasDataDir =
      .error (.failed (.copy 2) false after) ∧ after.file? ["x", "y"] = some (encode "new") := by
  refine ⟨alias_verified, by decide, ?_⟩
  obtain ⟨after, hfail, hfile⟩ := alias_fails (i := 2)
    (p := fun after => decide (after.file? ["x", "y"] = some (encode "new"))) (by decide +kernel)
  exact ⟨after, hfail, of_decide_eq_true hfile⟩

/-- The copy of the first spelling raises: every file is as before. -/
theorem restore_rolls_back_first_spelling : ∃ after,
    restoreBackup aliasCodec sampleLimits (copyRaises 1) (some aliasArchive) aliasDataDir =
      .error (.failed (.copy 1) false after) ∧ ∀ r, after.file? r = aliasDataDir.file? r := by
  obtain ⟨after, hfail, -⟩ := alias_fails (i := 1) (p := fun _ => true) (by decide +kernel)
  refine ⟨after, hfail, (restore_rolls_back_iff _ _ _ alias_verified hfail).mpr ?_⟩
  rintro ⟨r, content, -, -, htwice⟩
  have hnodup : ((relatives (restored (sampleManifest aliasFiles))).take
      (Point.saves (.copy 1) false 3)).Nodup := by decide
  exact absurd htwice (by
    have := List.nodup_iff_count_le_one.mp hnodup r
    exact Nat.not_le_of_lt (Nat.lt_succ_of_le this))

end WebSSH.Backup
