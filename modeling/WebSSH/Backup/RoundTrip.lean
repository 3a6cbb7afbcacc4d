import WebSSH.Backup.Rollback

/-!
# Restoring a backup

A backup holds the files that the walk over its source reaches, a restore removes those that the
walk over its destination reaches. Both walks pass over directories that they cannot list.
-/

namespace WebSSH.Backup
open Lib Python Json

set_option autoImplicit false

/-! ## Paths -/

/-- A path survives being written into the manifest. -/
theorem posixParts_asPosix {p : Path} (h : ∀ name ∈ p, FileTree.ValidName name) :
    posixParts (asPosix p) = p := by
  cases p with
  | nil => rfl
  | cons name rest =>
    have hslash : ∀ l ∈ (name :: rest).map String.toList, ¬ '/' ∈ l := by
      intro l hl
      obtain ⟨n, hn, rfl⟩ := List.mem_map.mp hl
      exact (h n hn).2.2.2
    have hkeep : ∀ l ∈ (name :: rest).map String.toList,
        decide (l ≠ [] ∧ l ≠ ['.']) = true := by
      intro l hl
      obtain ⟨n, hn, rfl⟩ := List.mem_map.mp hl
      refine decide_eq_true ⟨fun he => (h n hn).1 (String.toList_inj.mp he), fun he => ?_⟩
      exact (h n hn).2.1 (String.toList_inj.mp he)
    rw [posixParts, asPosix, String.toList_ofList, List.splitOn_intercalate _ hslash (by simp),
      List.filter_eq_self.mpr hkeep, List.map_map]
    simp [Function.comp_def]

/-- Inside a top level directory that a restore leaves alone. -/
def Preserved (p : Path) : Prop :=
  1 < p.length ∧ ∃ name, p.head? = some name ∧ name ∈ restorePreservedTopLevelDirectories

/-- Below, or equal to, a top level name that a backup leaves out. -/
def Excluded (p : Path) : Prop :=
  ∃ name, p.head? = some name ∧ name ∈ backupExcludedTopLevelDirectories

/-! ## What a backup contains -/

theorem stageFile_eq_ok {codec : Codec} {dataDir : DataDir} {p : Path}
    {staged : BackupFile × Bytes} (h : stageFile codec dataDir p = .ok staged) :
    dataDir.file? p = some staged.2 ∧ staged.1.path = asPosix p := by
  simp only [stageFile] at h
  obtain ⟨_, -, h⟩ := bind_eq_ok.mp h
  split at h
  · cases h; exact ⟨FileTree.file?_eq_some.mpr ‹_›, rfl⟩
  · cases h
  · cases h

/-- The names of one directory that a backup looks at. -/
theorem stageDirectory_eq_ok {codec : Codec} {dataDir : DataDir} {current : Path}
    {files : List (BackupFile × Bytes)} (h : stageDirectory codec dataDir [] current = .ok files) :
    ((dataDir.children current).filter fun path => !dataDir.isDir path &&
      !(current = [] && path.any (· ∈ backupExcludedTopLevelDirectories)) &&
        !(asPosix path ∈ [])).mapM (stageFile codec dataDir) = .ok files := by
  obtain ⟨_, -, h⟩ := bind_eq_ok.mp h
  exact h

/-- A path is left out because of its own name or because of the directory it is in. -/
theorem excluded_iff {p : Path} (hp : p ≠ []) :
    Excluded p ↔ (p.dropLast = [] ∧ p.any (· ∈ backupExcludedTopLevelDirectories) = true) ∨
      ∃ name, p.dropLast.head? = some name ∧ name ∈ backupExcludedTopLevelDirectories := by
  cases p with
  | nil => exact absurd rfl hp
  | cons name rest =>
    cases rest with
    | nil => simp [Excluded]
    | cons name' rest => simp [Excluded]

theorem stageSource_eq_ok {codec : Codec} {now : String} {dataDir : DataDir}
    {manifest : BackupManifest} {staged : List (BackupFile × Bytes)}
    (h : stageSource codec now dataDir [] = .ok (manifest, staged)) :
    ∃ files, (dataDir.visited (· ∉ backupExcludedTopLevelDirectories)).mapM
        (stageDirectory codec dataDir []) = .ok files ∧
      (∀ x, x ∈ staged ↔ x ∈ files.flatten) ∧ manifest.files = staged.map Prod.fst := by
  obtain ⟨files, hfiles, h⟩ := bind_eq_ok.mp h
  cases h
  exact ⟨files, hfiles, fun x => List.mem_insertionSort _, rfl⟩

/-- The staged files are files that the walk reaches. -/
theorem file_of_mem_staged {codec : Codec} {now : String} {dataDir : DataDir}
    {manifest : BackupManifest} {staged : List (BackupFile × Bytes)}
    (h : stageSource codec now dataDir [] = .ok (manifest, staged)) {item : BackupFile}
    {content : Bytes} (hmem : (item, content) ∈ staged) :
    ∃ p, item.path = asPosix p ∧ dataDir.file? p = some content ∧ ¬ dataDir.Hidden p ∧
      ¬ Excluded p := by
  obtain ⟨files, hfiles, hstaged, -⟩ := stageSource_eq_ok h
  obtain ⟨list, hlist, hmem⟩ := List.mem_flatten.mp ((hstaged _).mp hmem)
  obtain ⟨current, hcurrent, hdirectory⟩ := (mem_of_mapM hfiles).mp hlist
  obtain ⟨p, hp, hfile⟩ := (mem_of_mapM (stageDirectory_eq_ok hdirectory)).mp hmem
  obtain ⟨hchild, hname⟩ := List.mem_filter.mp hp
  obtain ⟨-, hne, rfl⟩ := FileTree.mem_children.mp hchild
  obtain ⟨hvisible, hkeep⟩ := (FileTree.dropLast_mem_visited hne).mp hcurrent
  obtain ⟨hcontent, hpath⟩ := stageFile_eq_ok hfile
  refine ⟨p, hpath, hcontent, hvisible, fun hex => ?_⟩
  rcases (excluded_iff hne).mp hex with ⟨htop, hany⟩ | ⟨name, hhead, hname'⟩
  · simp [htop, hany] at hname
  · exact absurd hname' (of_decide_eq_true (hkeep name hhead))

/-- Every file that the walk reaches is staged. -/
theorem mem_staged_of_file {codec : Codec} {now : String} {dataDir : DataDir}
    {manifest : BackupManifest} {staged : List (BackupFile × Bytes)}
    (h : stageSource codec now dataDir [] = .ok (manifest, staged)) {p : Path} {content : Bytes}
    (hne : p ≠ []) (hfile : dataDir.file? p = some content) (hvisible : ¬ dataDir.Hidden p)
    (hex : ¬ Excluded p) : ∃ item, (item, content) ∈ staged ∧ item.path = asPosix p := by
  obtain ⟨files, hfiles, hstaged, -⟩ := stageSource_eq_ok h
  have hex' := (not_congr (excluded_iff hne)).mp hex
  have hcurrent : p.dropLast ∈ dataDir.visited (· ∉ backupExcludedTopLevelDirectories) :=
    (FileTree.dropLast_mem_visited hne).mpr ⟨hvisible, fun name hhead =>
      decide_eq_true fun hname => hex' (.inr ⟨name, hhead, hname⟩)⟩
  obtain ⟨list, hlist, hdirectory⟩ := ok_of_mapM hfiles hcurrent
  have hchild : p ∈ dataDir.children p.dropLast :=
    FileTree.mem_children.mpr ⟨Dict.mem_keys.mpr ⟨_, FileTree.file?_eq_some.mp hfile⟩, hne, rfl⟩
  have hname : p ∈ (dataDir.children p.dropLast).filter fun path => !dataDir.isDir path &&
      !(p.dropLast = [] && path.any (· ∈ backupExcludedTopLevelDirectories)) &&
        !(asPosix path ∈ []) := by
    refine List.mem_filter.mpr ⟨hchild, ?_⟩
    by_cases htop : p.dropLast = []
    · have hany : p.any (· ∈ backupExcludedTopLevelDirectories) = false := by
        cases ha : p.any (· ∈ backupExcludedTopLevelDirectories) with
        | false => rfl
        | true => exact absurd (.inl ⟨htop, ha⟩) hex'
      simp [isDir_of_file hfile, hany]
    · simp [isDir_of_file hfile, htop]
  obtain ⟨⟨item, content'⟩, hitem, hstage⟩ := ok_of_mapM (stageDirectory_eq_ok hdirectory) hname
  obtain ⟨hcontent, hpath⟩ := stageFile_eq_ok hstage
  rw [hfile, Option.some.injEq] at hcontent
  subst hcontent
  exact ⟨item, (hstaged _).mpr (List.mem_flatten.mpr ⟨list, hlist, hitem⟩), hpath⟩

/-! ## What a restore removes -/

theorem preserved_iff {p : Path} (hp : p ≠ []) :
    Preserved p ↔
      ∃ name, p.dropLast.head? = some name ∧ name ∈ restorePreservedTopLevelDirectories := by
  cases p with
  | nil => exact absurd rfl hp
  | cons name rest => cases rest <;> simp [Preserved]

theorem existingFiles_eq_ok {dataDir : DataDir} {current : Path} {files : List Path}
    (h : existingFiles dataDir current = .ok files) :
    files = (dataDir.children current).filter fun path => !dataDir.isDir path &&
      !(1 < path.length && path.head?.any (· ∈ restorePreservedTopLevelDirectories)) := by
  obtain ⟨_, -, h⟩ := bind_eq_ok.mp h
  obtain ⟨_, -, h⟩ := bind_eq_ok.mp h
  cases h
  rfl

theorem hidden_of_absent_root {dataDir : DataDir} {p : Path} (hne : p ≠ [])
    (h : dataDir.present [] = false) : dataDir.Hidden p := by
  refine ⟨[], List.nil_prefix, Ne.symm hne, ?_⟩
  unfold FileTree.present at h
  unfold FileTree.listable
  split at h
  · simp [*]
  · simp [*]
  · cases h

/-- The existing files are those that the walk reaches. -/
theorem mem_existing {dataDir : DataDir} {existing : List Path}
    (h : existingPersistentFiles dataDir = .ok existing) {p : Path} {content : Bytes}
    (hne : p ≠ []) (hfile : dataDir.file? p = some content) :
    p ∈ existing ↔ ¬ dataDir.Hidden p ∧ ¬ Preserved p := by
  have hchild : ∀ current, p ∈ dataDir.children current ↔ p.dropLast = current := fun current => by
    rw [FileTree.mem_children]
    exact ⟨fun h => h.2.2, fun h =>
      ⟨Dict.mem_keys.mpr ⟨_, FileTree.file?_eq_some.mp hfile⟩, hne, h⟩⟩
  have hvisited : p.dropLast ∈ dataDir.visited (· ∉ restorePreservedTopLevelDirectories) ↔
      ¬ dataDir.Hidden p ∧ ¬ Preserved p := by
    rw [FileTree.dropLast_mem_visited hne, preserved_iff hne]
    simp only [decide_eq_true_eq, not_exists, not_and]
  unfold existingPersistentFiles at h
  split at h
  · obtain ⟨files, hfiles, h⟩ := bind_eq_ok.mp h
    cases h
    rw [← hvisited, List.mem_flatten]
    constructor
    · rintro ⟨list, hlist, hmem⟩
      obtain ⟨current, hcurrent, hexisting⟩ := (mem_of_mapM hfiles).mp hlist
      rw [existingFiles_eq_ok hexisting] at hmem
      rw [(hchild current).mp (List.mem_filter.mp hmem).1]
      exact hcurrent
    · intro hcurrent
      obtain ⟨list, hlist, hexisting⟩ := ok_of_mapM hfiles hcurrent
      refine ⟨list, hlist, ?_⟩
      rw [existingFiles_eq_ok hexisting, List.mem_filter]
      refine ⟨(hchild _).mpr rfl, ?_⟩
      have hpreserved := (hvisited.mp hcurrent).2
      rw [isDir_of_file hfile]
      cases hp : p.head? with
      | none => simp
      | some name =>
        by_cases hl : 1 < p.length
        · have hname : name ∉ restorePreservedTopLevelDirectories :=
            fun hm => hpreserved ⟨hl, name, hp, hm⟩
          simp [hname]
        · simp [hl]
  · rename_i habsent
    cases h
    have := hidden_of_absent_root hne (by simpa using habsent)
    simp [this]

/-! ## The round trip -/

/-- What an accepted archive says of itself. -/
theorem verifyBackup_eq_ok {codec : Codec} {limits : Limits} {infos : Archive}
    {manifest : BackupManifest} (h : verifyBackup codec limits (some infos) = .ok manifest) :
    let members := infos.filter fun info => !info.isDir
    (∃ info payload, member? members manifestName = some info ∧ info.content = some payload ∧
      parseManifest codec payload = .ok manifest) ∧
    ∀ item ∈ manifest.files, ∃ info content, member? members (dataPrefix ++ item.path) = some info ∧
      info.content = some content := by
  intro members
  obtain ⟨members', hmembers, h⟩ := bind_eq_ok.mp h
  obtain rfl : members' = members := validatedMembers_eq_ok hmembers
  obtain ⟨manifest', hmanifest, h⟩ := bind_eq_ok.mp h
  obtain ⟨_, -, h⟩ := bind_eq_ok.mp h
  obtain ⟨_, -, h⟩ := bind_eq_ok.mp h
  obtain ⟨total, hfiles, h⟩ := bind_eq_ok.mp h
  obtain ⟨_, -, h⟩ := bind_eq_ok.mp h
  obtain ⟨_, -, h⟩ := bind_eq_ok.mp h
  obtain ⟨_, -, h⟩ := bind_eq_ok.mp h
  cases h
  constructor
  · obtain ⟨info, hinfo, hmanifest⟩ := bind_eq_ok.mp hmanifest
    obtain ⟨payload, hpayload, hmanifest⟩ := bind_eq_ok.mp hmanifest
    obtain ⟨_, -, hmanifest⟩ := bind_eq_ok.mp hmanifest
    exact ⟨info, payload, getMember_eq_ok.mp hinfo, readMember_eq_ok.mp hpayload, hmanifest⟩
  · intro item hitem
    obtain ⟨_, _, hitem⟩ := ok_of_foldlM hfiles hitem
    obtain ⟨info, hinfo, hitem⟩ := bind_eq_ok.mp hitem
    obtain ⟨_, -, hitem⟩ := bind_eq_ok.mp hitem
    obtain ⟨content, hcontent, -⟩ := bind_eq_ok.mp hitem
    exact ⟨info, content, getMember_eq_ok.mp hinfo, readMember_eq_ok.mp hcontent⟩

/-- The archive of a backup, and that it is accepted. -/
theorem createBackup_eq_ok {codec : Codec} {limits : Limits} {now : String} {dataDir : DataDir}
    {manifest : BackupManifest} {archive : Archive}
    (h : createBackup codec limits now dataDir = .ok (manifest, archive)) :
    dataDir.file? [] = none ∧
    (∃ staged, stageSource codec now dataDir [] = .ok (manifest, staged) ∧
      archive = writeArchive codec manifest staged) ∧
    verifyBackup codec limits (some archive) = .ok manifest := by
  obtain ⟨_, hroot, h⟩ := bind_eq_ok.mp h
  obtain ⟨⟨manifest', staged⟩, hstaged, h⟩ := bind_eq_ok.mp h
  obtain ⟨verified, hverified, h⟩ := bind_eq_ok.mp h
  obtain ⟨_, hsame, h⟩ := bind_eq_ok.mp h
  have hsame := not_not.mp (raiseIf_eq_ok.mp hsame)
  cases h
  refine ⟨?_, ⟨staged, hstaged, rfl⟩, hsame ▸ hverified⟩
  cases hf : dataDir.file? [] with
  | none => rfl
  | some c =>
    have hdir := raiseIf_eq_ok.mp hroot
    rw [isDir_of_file hf] at hdir
    simp at hdir

section
variable {codec : Codec} {limits : Limits} {now : String} {src : NamedTree Bytes}
  {manifest : BackupManifest} {archive : Archive}

/-- The walk of a backup reaches a file at this path. -/
def BackedUp (src : DataDir) (p : Path) : Prop :=
  src.file? p ≠ none ∧ ¬ src.Hidden p ∧ ¬ Excluded p

theorem posixParts_of_file {p : Path} {c : Bytes} (h : src.tree.file? p = some c) :
    posixParts (asPosix p) = p :=
  posixParts_asPosix fun name hname =>
    src.named p (Dict.mem_keys.mpr ⟨_, FileTree.file?_eq_some.mp h⟩) name hname

/-- A restore of the archive restores the paths that are backed up. -/
theorem mem_relatives_iff (h : createBackup codec limits now src.tree = .ok (manifest, archive))
    (p : Path) : p ∈ relatives (restored manifest) ↔ BackedUp src.tree p := by
  obtain ⟨hroot, ⟨staged, hstaged, -⟩, -⟩ := createBackup_eq_ok h
  obtain ⟨files, hfiles, hmem, hmanifest⟩ := stageSource_eq_ok hstaged
  constructor
  · intro hp
    obtain ⟨item, hitem, rfl⟩ := List.mem_map.mp hp
    have hlisted := (List.mem_filter.mp hitem).1
    rw [hmanifest] at hlisted
    obtain ⟨⟨item, content⟩, hentry, rfl⟩ := List.mem_map.mp hlisted
    obtain ⟨p, hpath, hfile, hvisible, hex⟩ := file_of_mem_staged hstaged hentry
    have hparts : posixParts item.path = p := hpath ▸ posixParts_of_file hfile
    simp only [hparts]
    exact ⟨by rw [hfile]; nofun, hvisible, hex⟩
  · rintro ⟨hfile, hvisible, hex⟩
    obtain ⟨content, hfile⟩ := Option.ne_none_iff_exists'.mp hfile
    have hne : p ≠ [] := by
      rintro rfl
      rw [hroot] at hfile
      cases hfile
    obtain ⟨item, hitem, hpath⟩ := mem_staged_of_file hstaged hne hfile hvisible hex
    have hparts : posixParts item.path = p := hpath ▸ posixParts_of_file hfile
    refine List.mem_map.mpr ⟨item, List.mem_filter.mpr ⟨?_, ?_⟩, hparts⟩
    · rw [hmanifest]
      exact List.mem_map_of_mem hitem
    · rw [hparts]
      cases hp : p.head? with
      | none => rfl
      | some name =>
        have hname : name ∉ restoreDiscardedTopLevelDirectories := fun hm =>
          hex ⟨name, hp, List.mem_append_right _ hm⟩
        simp [hname]

/-- The archive has the bytes of the source for them. -/
theorem archived_eq (h : createBackup codec limits now src.tree = .ok (manifest, archive))
    {p : Path} (hp : p ∈ relatives (restored manifest)) :
    archived (archive.filter fun info => !info.isDir) (restored manifest).files p =
      src.tree.file? p := by
  obtain ⟨-, ⟨staged, hstaged, rfl⟩, hverify⟩ := createBackup_eq_ok h
  obtain ⟨item, hitem, hpath⟩ := List.mem_map.mp hp
  obtain ⟨found, hfound⟩ : ∃ found, (restored manifest).files.reverse.find?
      (fun item => posixParts item.path = p) = some found := by
    rw [← Option.isSome_iff_exists, List.find?_isSome]
    exact ⟨item, List.mem_reverse.mpr hitem, decide_eq_true hpath⟩
  have hparts : posixParts found.path = p := by simpa using List.find?_some hfound
  have hmem := (List.mem_filter.mp (List.mem_reverse.mp (List.mem_of_find?_eq_some hfound))).1
  obtain ⟨info, content, hinfo, hcontent⟩ := (verifyBackup_eq_ok hverify).2 found hmem
  have hname : info.filename = dataPrefix ++ found.path := by simpa using List.find?_some hinfo
  have hwritten := (List.mem_filter.mp (List.mem_of_find?_eq_some hinfo)).1
  rw [archived, hfound, Option.bind_some, hinfo, Option.bind_some, hcontent]
  rcases List.mem_cons.mp hwritten with rfl | hwritten
  · exact absurd (congrArg String.toList hname) (by simp [zipInfo, manifestName, dataPrefix])
  · obtain ⟨⟨item', content'⟩, hentry, rfl⟩ := List.mem_map.mp hwritten
    obtain ⟨p', hpath', hfile, -, -⟩ := file_of_mem_staged hstaged hentry
    have hsame : item'.path = found.path := by
      have := congrArg String.toList hname
      simp only [zipInfo, String.toList_append, List.append_cancel_left_eq] at this
      exact String.toList_inj.mp this
    have hp' : p' = p := by
      rw [← posixParts_of_file hfile, ← hpath', hsame, hparts]
    rw [← hp', hfile]
    exact hcontent.symm

/-- In the directories that cannot be listed, and apart from the paths that are backed up, the
destination has exactly the files of the source. -/
def SameHiddenFiles (src dst : DataDir) : Prop :=
  ∀ p content, ¬ Preserved p → ¬ BackedUp src p →
    ((dst.file? p = some content ∧ dst.Hidden p) ↔
      (src.file? p = some content ∧ src.Hidden p ∧ ¬ Excluded p))

/-- The restore reads the manifest that the backup has written. -/
theorem verifyBackup_of_prepareRestore {limits' : Limits} {dst : DataDir}
    {prepared : DataDir × BackupManifest × List Path}
    (hverify : verifyBackup codec limits (some archive) = .ok manifest)
    (h : prepareRestore codec limits' (some archive) dst = .ok prepared) :
    verifyBackup codec limits' (some archive) = .ok manifest := by
  obtain ⟨_, -, h⟩ := bind_eq_ok.mp h
  obtain ⟨manifest', hverify', -⟩ := bind_eq_ok.mp h
  obtain ⟨info, payload, hinfo, hpayload, hparse⟩ := (verifyBackup_eq_ok hverify).1
  obtain ⟨info', payload', hinfo', hpayload', hparse'⟩ := (verifyBackup_eq_ok hverify').1
  rw [hinfo, Option.some.injEq] at hinfo'
  rw [← hinfo', hpayload, Option.some.injEq] at hpayload'
  rw [← hpayload', hparse, Except.ok.injEq] at hparse'
  rw [hverify', hparse']

/-- A restored backup has exactly the files of its source, provided that the directories which
cannot be listed agree. -/
theorem backup_round_trip_iff {limits' : Limits} {faults : Faults Point} {dst after : DataDir}
    (hcreate : createBackup codec limits now src.tree = .ok (manifest, archive))
    (hrestore : restoreBackup codec limits' faults (some archive) dst = .ok after) :
    (∀ p content, ¬ Preserved p →
        (after.file? p = some content ↔ src.tree.file? p = some content ∧ ¬ Excluded p)) ↔
      SameHiddenFiles src.tree dst := by
  obtain ⟨hsrcRoot, -, hverify⟩ := createBackup_eq_ok hcreate
  unfold restoreBackup at hrestore
  split at hrestore
  · cases hrestore
  rename_i stage manifest' extra hprepare
  have hverify' := verifyBackup_of_prepareRestore hverify hprepare
  obtain ⟨hdstRoot, rfl, ⟨existing, hexisting, rfl⟩, hstage⟩ := prepareRestore_eq_ok hverify' hprepare
  unfold restoreStagedFiles at hrestore
  split at hrestore
  · rename_i s hreplace
    cases hrestore
    have hextra : ∀ q ∈ existing.filter (· ∉ relatives (restored manifest)),
        q ∉ relatives (restored manifest) := fun q hq => of_decide_eq_true (List.mem_filter.mp hq).2
    have hreplaced := (replaceFiles_outcome faults stage dst _ _ hextra).ok hreplace
    refine forall_congr' fun p => forall_congr' fun content => imp_congr_right fun hpreserved => ?_
    have hfile := hreplaced p
    by_cases hbacked : BackedUp src.tree p
    · have hp := (mem_relatives_iff hcreate p).mpr hbacked
      rw [if_pos hp, hstage, archived_eq hcreate hp] at hfile
      simp [hfile, hbacked, hbacked.2.2]
    · rw [if_neg fun hp => hbacked ((mem_relatives_iff hcreate p).mp hp)] at hfile
      have hdst : s.dataDir.file? p = some content ↔ dst.file? p = some content ∧ dst.Hidden p := by
        rw [hfile]
        constructor
        · intro h
          split at h
          · cases h
          rename_i hkept
          refine ⟨h, by_contra fun hvisible => hkept ?_⟩
          have hne : p ≠ [] := by
            rintro rfl
            rw [hdstRoot] at h
            cases h
          exact List.mem_filter.mpr ⟨(mem_existing hexisting hne h).mpr ⟨hvisible, hpreserved⟩,
            decide_eq_true fun hp => hbacked ((mem_relatives_iff hcreate p).mp hp)⟩
        · rintro ⟨h, hhidden⟩
          have hne : p ≠ [] := by
            rintro rfl
            rw [hdstRoot] at h
            cases h
          rw [if_neg fun hmem => ?_, h]
          exact ((mem_existing hexisting hne h).mp (List.mem_filter.mp hmem).1).1 hhidden
      have hsrc : (src.tree.file? p = some content ∧ ¬ Excluded p) ↔
          (src.tree.file? p = some content ∧ src.tree.Hidden p ∧ ¬ Excluded p) := by
        refine and_congr_right fun h => ⟨fun hex => ⟨by_contra fun hvisible => ?_, hex⟩, And.right⟩
        exact hbacked ⟨by rw [h]; nofun, hvisible, hex⟩
      simp only [hdst, hsrc, hbacked, not_false_eq_true, true_imp_iff]
  · cases hrestore

end

/-- Trees without a hidden entry agree. -/
theorem sameHiddenFiles_of_visible {src dst : DataDir} (hsrc : ∀ p ∈ src.keys, ¬ src.Hidden p)
    (hdst : ∀ p ∈ dst.keys, ¬ dst.Hidden p) : SameHiddenFiles src dst := by
  have hkey : ∀ {t : DataDir} {p content}, t.file? p = some content → p ∈ t.keys :=
    fun h => Dict.mem_keys.mpr ⟨_, FileTree.file?_eq_some.mp h⟩
  intro p content _ _
  exact ⟨fun h => absurd h.2 (hdst p (hkey h.1)), fun h => absurd h.2.1 (hsrc p (hkey h.1))⟩

/-! ## Two sources -/

def samplePayload (files : String) : Bytes := encode <|
  "\x7b\"created_at\":\"2026-01-01T00:00:00Z\",\"data_schema_version\":2,\"files\":[" ++ files ++
  "],\"format_version\":2,\"producer\":\"webssh\"\x7d"

/-- The directory `keys` of this source cannot be listed. -/
def hiddenSource : NamedTree Bytes where
  tree :=
    { entries := [([], .dir true), (["app.db"], .file databaseFile), (["keys"], .dir false),
        (["keys", "id"], .file (encode "new"))]
      nodup := by decide }
  named := by simp [Dict.keys, FileTree.ValidName]

def hiddenFiles : List BackupFile := [⟨"app.db", databaseDigest, 1024⟩]

def hiddenCodec : Codec := sampleCodec
  (samplePayload ("\x7b\"path\":\"app.db\",\"sha256\":\"" ++ databaseDigest ++
    "\",\"size\":1024\x7d")) (sampleDocument hiddenFiles)

def emptyDataDir : DataDir where
  entries := [([], .dir true)]
  nodup := by decide

def noFaults : Faults Point := fun _ => none

/-- The backup is accepted and restored, without the file of the hidden directory. -/
theorem backup_loses_hidden_file : ∃ archive after,
    createBackup hiddenCodec sampleLimits "2026-01-01T00:00:00Z" hiddenSource.tree =
      .ok (sampleManifest hiddenFiles, archive) ∧
    restoreBackup hiddenCodec sampleLimits noFaults (some archive) emptyDataDir = .ok after ∧
    ¬ ∀ p content, ¬ Preserved p →
      (after.file? p = some content ↔
        hiddenSource.tree.file? p = some content ∧ ¬ Excluded p) := by
  have hcreate : returns (createBackup hiddenCodec sampleLimits "2026-01-01T00:00:00Z"
      hiddenSource.tree) (fun x => decide (x.1 = sampleManifest hiddenFiles) &&
        returns (restoreBackup hiddenCodec sampleLimits noFaults (some x.2) emptyDataDir)
          fun after => decide (after.file? ["keys", "id"] = none)) = true := by
    decide +kernel
  obtain ⟨⟨manifest, archive⟩, hcreate, h⟩ := exists_of_returns hcreate
  obtain ⟨hmanifest, hrestore⟩ := Bool.and_eq_true_iff.mp h
  obtain ⟨after, hrestore, hlost⟩ := exists_of_returns hrestore
  obtain rfl : manifest = _ := of_decide_eq_true hmanifest
  refine ⟨archive, after, hcreate, hrestore, fun h => ?_⟩
  have hkeys := (h ["keys", "id"] (encode "new") (by simp [Preserved,
    restorePreservedTopLevelDirectories])).mpr ⟨by decide, by simp [Excluded,
      backupExcludedTopLevelDirectories, restorePreservedTopLevelDirectories,
      restoreDiscardedTopLevelDirectories]⟩
  rw [of_decide_eq_true hlost] at hkeys
  cases hkeys

def visibleSource : NamedTree Bytes where
  tree :=
    { entries := [([], .dir true), (["app.db"], .file databaseFile), (["logs"], .dir true),
        (["logs", "l"], .file (encode "old")), (["x"], .dir true),
        (["x", "y"], .file (encode "new"))]
      nodup := by decide }
  named := by simp [Dict.keys, FileTree.ValidName]

def visibleFiles : List BackupFile := [⟨"app.db", databaseDigest, 1024⟩, ⟨"x/y", newDigest, 3⟩]

def visibleCodec : Codec := sampleCodec
  (samplePayload ("\x7b\"path\":\"app.db\",\"sha256\":\"" ++ databaseDigest ++
    "\",\"size\":1024\x7d,\x7b\"path\":\"x/y\",\"sha256\":\"" ++ newDigest ++ "\",\"size\":3\x7d"))
  (sampleDocument visibleFiles)

/-- A destination with a file to remove and one to keep. -/
def oldDataDir : DataDir where
  entries := [([], .dir true), (["z"], .file (encode "old")), (["tmp"], .dir true),
    (["tmp", "t"], .file (encode "old"))]
  nodup := by decide

theorem backup_round_trip_visible : ∃ manifest archive after,
    createBackup visibleCodec sampleLimits "2026-01-01T00:00:00Z" visibleSource.tree =
      .ok (manifest, archive) ∧
    restoreBackup visibleCodec sampleLimits noFaults (some archive) oldDataDir = .ok after ∧
    ∀ p content, ¬ Preserved p →
      (after.file? p = some content ↔
        visibleSource.tree.file? p = some content ∧ ¬ Excluded p) := by
  have hcreate : returns (createBackup visibleCodec sampleLimits "2026-01-01T00:00:00Z"
      visibleSource.tree) (fun x =>
        returns (restoreBackup visibleCodec sampleLimits noFaults (some x.2) oldDataDir)
          fun _ => true) = true := by
    decide +kernel
  obtain ⟨⟨manifest, archive⟩, hcreate, h⟩ := exists_of_returns hcreate
  obtain ⟨after, hrestore, -⟩ := exists_of_returns h
  exact ⟨manifest, archive, after, hcreate, hrestore,
    (backup_round_trip_iff hcreate hrestore).mpr
      (sameHiddenFiles_of_visible (by decide) (by decide))⟩

end WebSSH.Backup
