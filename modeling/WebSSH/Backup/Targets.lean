import WebSSH.Backup.RoundTrip
import WebSSH.Lib.Text

/-!
# Where a backup is restored to

The path of an entry is compared with the others as text, and restored at its parts. Segments that
the text has and the parts do not are what makes the difference.
-/

namespace WebSSH.Backup
open Lib Python Json

set_option autoImplicit false

/-- `data_dir / Path(*PurePosixPath(item.path).parts)` -/
def restoreTarget (dataDir : Path) (item : BackupFile) : Path := dataDir ++ posixParts item.path

/-- One or more names lead from the directory to the target. -/
def ProperDescendant (directory target : Path) : Prop :=
  ∃ below, below ≠ [] ∧ (∀ part ∈ below, FileTree.ValidName part) ∧ target = directory ++ below

/-- Every entry has a target of its own, below the data directory. -/
def Confined (dataDir : Path) (manifest : BackupManifest) : Prop :=
  manifest.files.Pairwise (fun a b => restoreTarget dataDir a ≠ restoreTarget dataDir b) ∧
    ∀ item ∈ manifest.files, ProperDescendant dataDir (restoreTarget dataDir item)

/-- What stands between the slashes of a path, other than nothing and a dot. -/
def significant (path : String) : List (List Char) :=
  (path.toList.splitOn '/').filter fun segment => segment ≠ [] ∧ segment ≠ ['.']

/-- Every path has a segment that counts, and no two have the same ones. -/
def Spelled (manifest : BackupManifest) : Prop :=
  (∀ item ∈ manifest.files, ∃ segment ∈ item.path.toList.splitOn '/', segment ≠ [] ∧ segment ≠ ['.']) ∧
    manifest.files.Pairwise fun a b => significant a.path ≠ significant b.path

variable {codec : Codec} {limits : Limits} {archive : Option Archive} {manifest : BackupManifest}
  {item : BackupFile} {document : Json} {payload : Bytes} {parts : Path} {path : String}

/-! ## Accepted paths -/

theorem eq_of_safeRelativePath (h : safeRelativePath path = .ok parts) :
    parts = posixParts path ∧ ∀ part ∈ parts, part ≠ "" ∧ part ≠ "." ∧ part ≠ ".." := by
  unfold safeRelativePath at h
  split at h
  · nomatch h
  · dsimp only at h
    split at h
    · nomatch h
    · rename_i hsafe
      cases h
      refine ⟨rfl, fun part hpart => ?_⟩
      have hnone := (not_or.mp (not_or.mp hsafe).2).1
      have hpart := fun hbad => hnone (List.any_eq_true.mpr ⟨part, hpart, decide_eq_true hbad⟩)
      simpa using hpart

/-- The path of a parsed entry has been checked. -/
theorem safeRelativePath_of_parseFile (h : parseFile document = .ok item) :
    ∃ parts, safeRelativePath item.path = .ok parts := by
  unfold parseFile at h
  split at h
  · split at h
    · split at h
      · obtain ⟨parts, hparts, h⟩ := bind_eq_ok.mp h
        cases h
        exact ⟨parts, hparts⟩
      · nomatch h
    · nomatch h
  · nomatch h

theorem safeRelativePath_of_parseManifest (h : parseManifest codec payload = .ok manifest) :
    ∀ item ∈ manifest.files, ∃ parts, safeRelativePath item.path = .ok parts := by
  unfold parseManifest at h
  split at h
  · nomatch h
  · obtain ⟨_, -, h⟩ := bind_eq_ok.mp h
    obtain ⟨_, -, h⟩ := bind_eq_ok.mp h
    obtain ⟨items, -, h⟩ := bind_eq_ok.mp h
    obtain ⟨files, hfiles, h⟩ := bind_eq_ok.mp h
    obtain ⟨_, -, h⟩ := bind_eq_ok.mp h
    cases h
    intro item hitem
    obtain ⟨document, -, hparse⟩ := (mem_of_mapM hfiles).mp hitem
    exact safeRelativePath_of_parseFile hparse
  · nomatch h

theorem safeRelativePath_of_verifyBackup (h : verifyBackup codec limits archive = .ok manifest) :
    ∀ item ∈ manifest.files, ∃ parts, safeRelativePath item.path = .ok parts := by
  cases archive with
  | none => nomatch h
  | some infos =>
    obtain ⟨⟨_, _, -, -, hparse⟩, -⟩ := verifyBackup_eq_ok h
    exact safeRelativePath_of_parseManifest hparse

/-! ## Targets -/

theorem posixParts_eq (path : String) : posixParts path = (significant path).map String.ofList := rfl

theorem posixParts_inj {path path' : String} :
    posixParts path = posixParts path' ↔ significant path = significant path' := by
  rw [posixParts_eq, posixParts_eq]
  exact (List.map_injective_iff.mpr fun _ _ h => String.ofList_inj.mp h).eq_iff

/-- The parts of an accepted path are names. -/
theorem validName_of_mem_posixParts (h : safeRelativePath path = .ok parts) :
    ∀ part ∈ posixParts path, FileTree.ValidName part := by
  obtain ⟨rfl, hsafe⟩ := eq_of_safeRelativePath h
  intro part hpart
  obtain ⟨hempty, hdot, hdots⟩ := hsafe part hpart
  refine ⟨hempty, hdot, hdots, fun hslash => ?_⟩
  obtain ⟨segment, hsegment, rfl⟩ := List.mem_map.mp hpart
  rw [String.toList_ofList] at hslash
  have hsplit := (Text.of_mem_splitOnP (List.mem_filter.mp hsegment).1 '/' hslash).1
  exact absurd hsplit (by decide)

theorem properDescendant_iff (dataDir : Path) (h : safeRelativePath item.path = .ok parts) :
    ProperDescendant dataDir (restoreTarget dataDir item) ↔
      ∃ segment ∈ item.path.toList.splitOn '/', segment ≠ [] ∧ segment ≠ ['.'] := by
  have hnonempty : posixParts item.path ≠ [] ↔
      ∃ segment ∈ item.path.toList.splitOn '/', segment ≠ [] ∧ segment ≠ ['.'] := by
    rw [posixParts_eq, ne_eq, List.map_eq_nil_iff, significant, List.filter_eq_nil_iff]
    simp
  rw [← hnonempty]
  constructor
  · rintro ⟨below, hne, -, htarget⟩
    rw [restoreTarget, List.append_cancel_left_eq] at htarget
    rwa [htarget]
  · exact fun hne => ⟨_, hne, validName_of_mem_posixParts h, rfl⟩

/-- The entries of an accepted archive have targets of their own, below the data directory, where
their paths differ in the segments that count. -/
theorem verifyBackup_confined_iff (dataDir : Path)
    (h : verifyBackup codec limits archive = .ok manifest) : Confined dataDir manifest ↔ Spelled manifest := by
  have hsafe := safeRelativePath_of_verifyBackup h
  have htarget (a b : BackupFile) : restoreTarget dataDir a ≠ restoreTarget dataDir b ↔
      significant a.path ≠ significant b.path := by
    rw [restoreTarget, restoreTarget, ne_eq, List.append_cancel_left_eq, posixParts_inj]
  rw [Confined, Spelled, and_comm]
  apply and_congr
  · apply forall_congr'
    intro item
    apply forall_congr'
    intro hitem
    obtain ⟨parts, hparts⟩ := hsafe item hitem
    exact properDescendant_iff dataDir hparts
  · exact List.Pairwise.iff htarget

/-- Two spellings of `x/y` are restored to one file. -/
theorem alias_not_confined :
    verifyBackup aliasCodec sampleLimits (some aliasArchive) = .ok (sampleManifest aliasFiles) ∧
      restoreTarget ["data"] ⟨"x//y", newDigest, 3⟩ = restoreTarget ["data"] ⟨"x/y", newDigest, 3⟩ ∧
      ¬ Confined ["data"] (sampleManifest aliasFiles) := by
  have hsame : restoreTarget ["data"] ⟨"x//y", newDigest, 3⟩ =
      restoreTarget ["data"] ⟨"x/y", newDigest, 3⟩ := by decide
  refine ⟨alias_verified, hsame, fun hconfined => ?_⟩
  have htail := (List.pairwise_cons.mp hconfined.1).2
  exact (List.pairwise_cons.mp htail).1 _ List.mem_cons_self hsame

def visibleArchive : Archive :=
  [zipInfo visibleCodec manifestName (visibleCodec.dumps .null),
    zipInfo visibleCodec "data/app.db" databaseFile,
    zipInfo visibleCodec "data/x/y" (encode "new")]

theorem visible_verified :
    verifyBackup visibleCodec sampleLimits (some visibleArchive) = .ok (sampleManifest visibleFiles) := by
  have h : returns (verifyBackup visibleCodec sampleLimits (some visibleArchive))
      (fun manifest => decide (manifest = sampleManifest visibleFiles)) = true := by
    decide +kernel
  obtain ⟨manifest, hverify, hmanifest⟩ := exists_of_returns h
  rw [hverify, of_decide_eq_true hmanifest]

theorem verifyBackup_confined_visible : Confined ["data"] (sampleManifest visibleFiles) := by
  refine (verifyBackup_confined_iff ["data"] visible_verified).mpr ⟨?_, ?_⟩
  · intro item hitem
    rcases List.mem_cons.mp hitem with rfl | hitem
    · exact ⟨_, List.mem_cons_self, by decide⟩
    · obtain rfl := List.mem_singleton.mp hitem
      exact ⟨_, List.mem_cons_self, by decide⟩
  · unfold significant
    decide

end WebSSH.Backup
