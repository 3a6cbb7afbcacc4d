import Mathlib
import WebSSH.Lib.Except
import WebSSH.Rotation.Secrets

/-!
# The three stores of a rotation

What the scan finds, what a written secret reads back as, and what the staged updates make of a table.
-/

namespace WebSSH.Rotation
open Lib Lib.Python

variable {tree : FileTree Bytes} {storage : Storage} {skips : Path → Bool}

/-! ## Lists side by side -/

section
universe u v
variable {α : Type u} {β : Type v} {r : α → β → Prop} {l : List α} {l' : List β}

theorem exists_left_of_mem (h : List.Forall₂ r l l') {b : β} (hb : b ∈ l') : ∃ a ∈ l, r a b := by
  induction h with
  | nil => cases hb
  | cons h _ ih =>
    rcases List.mem_cons.mp hb with rfl | hb
    · exact ⟨_, List.mem_cons_self, h⟩
    · obtain ⟨a, ha, hr⟩ := ih hb
      exact ⟨a, List.mem_cons_of_mem _ ha, hr⟩

theorem exists_right_of_mem (h : List.Forall₂ r l l') {a : α} (ha : a ∈ l) : ∃ b ∈ l', r a b := by
  obtain ⟨b, hb, hr⟩ := exists_left_of_mem (List.Forall₂.flip h) ha
  exact ⟨b, hb, hr⟩

end

/-! ## The secret -/

/-- The secret that the server would use. -/
def persisted? (t : FileTree Bytes) : Option String := (readPersistedSecret t).toOption

theorem persisted?_congr {t t' : FileTree Bytes} (h : t.get? secretPath = t'.get? secretPath) :
    persisted? t = persisted? t' := by
  unfold persisted? readPersistedSecret
  rw [h]

theorem toOption_eq_some {α : Type} {x : Except Error α} {a : α} : x.toOption = some a ↔ x = .ok a := by
  cases x with
  | ok b => exact ⟨fun h => congrArg Except.ok (Option.some.inj h), fun h => congrArg some (Except.ok.inj h)⟩
  | error e => exact iff_of_false (fun h => by cases h) fun h => by cases h

/-- A valid secret that is written is read. -/
theorem persisted?_write {secret label : String} (h : validateSecret secret label = .ok ())
    (t : FileTree Bytes) : persisted? (t.write secretPath (secretFile secret)) = some secret := by
  have hvalid : ¬ (secret = "" ∨ '\n' ∈ secret.toList ∨ '\r' ∈ secret.toList) := by
    intro hbad
    unfold validateSecret at h
    rw [if_pos hbad] at h
    cases h
  rw [not_or, not_or] at hvalid
  obtain ⟨hempty, hlf, hcr⟩ := hvalid
  have hlist : (secret ++ "\n").toList = secret.toList ++ ['\n'] := String.toList_append
  have hread : readText (secretFile secret) = some (secret ++ "\n") := by
    refine readText_encode ?_
    rw [hlist, List.mem_append, List.mem_singleton]
    exact fun hmem => hmem.elim hcr fun heq => by cases heq
  have hchop : chopEnd (secret ++ "\n").toList = secret.toList := by
    unfold chopEnd chopLast
    rw [hlist, List.getLast?_concat, if_pos rfl, List.dropLast_concat, if_neg]
    exact fun hlast => hcr (List.mem_of_getLast? hlast)
  have hne : secret.toList ≠ [] := fun hnil => hempty (String.toList_eq_nil_iff.mp hnil)
  refine toOption_eq_some.mpr ?_
  unfold readPersistedSecret
  rw [FileTree.write, Dict.get?_set_self]
  dsimp only
  rw [hread]
  dsimp only
  rw [hchop, if_neg (fun hbad => hbad.elim hne fun hbad => hbad.elim hlf hcr), String.ofList_toList]

/-! ## The key files -/

/-- A file that the scan finds. -/
def IsKeyFile (storage : Storage) (skips : Path → Bool) (tree : FileTree Bytes) (userId : String)
    (path : Path) : Prop :=
  ∃ files, storedKeyFiles storage skips tree = .ok files ∧ (userId, path) ∈ files

theorem append_removePrefix {text start : String} (h : startsWith text start = true) :
    text = start ++ removePrefix text start := by
  obtain ⟨rest, hrest⟩ := List.isPrefixOf_iff_prefix.mp h
  refine String.toList_inj.mp ?_
  rw [removePrefix, if_pos h, String.toList_append, String.toList_ofList, ← hrest, List.drop_left]

/-- What the scan of one directory has found. -/
structure Scanned (storage : Storage) (tree : FileTree Bytes) (current : Path) (userId : String)
    (files : List (String × Path)) : Prop where
  user : current.dropLast.getLastD "" = "user_" ++ userId
  mem : ∀ file ∈ files, file.1 = userId ∧ ∃ name, file.2 = current ++ [name] ∧
    (tree.file? file.2).isSome
  complete : ∀ name ∈ fileNames tree current, name ≠ "keys.json" →
    storage.isMigrationBackup name = false → (userId, current ++ [name]) ∈ files

theorem keysOfDirectory_scanned {current : Path} {files : List (String × Path)}
    (h : keysOfDirectory storage tree current = .ok files) :
    ∃ userId, Scanned storage tree current userId files := by
  unfold keysOfDirectory at h
  dsimp only at h
  split at h
  · cases h
  split at h
  · cases h
  next huser =>
  split at h
  · cases h
  next referenced hmetadata =>
  split at h
  · cases h
  next hreferenced =>
  split at h
  · cases h
  split at h
  · cases h
  next hregular =>
  cases h
  rw [not_or, Bool.not_eq_false] at huser
  rw [List.any_eq_true] at hreferenced hregular
  refine ⟨_, append_removePrefix huser.1, ?_, ?_⟩
  · intro file hfile
    obtain ⟨name, hname, rfl⟩ := List.mem_map.mp hfile
    refine ⟨rfl, name, rfl, ?_⟩
    have hmem : name ∈ referenced := List.mem_mergeSort.mp (List.mem_filter.mp hname).1
    cases hfile : tree.file? (current ++ [name]) with
    | some content => rfl
    | none =>
      refine (hregular ⟨name, List.mem_append_right _ hmem, ?_⟩).elim
      rw [hfile]
      rfl
  · intro name hname hjson hbackup
    have hnot : name ∉ (fileNames tree current).filter storage.isMigrationBackup := by
      intro hmem
      rw [(List.mem_filter.mp hmem).2] at hbackup
      cases hbackup
    have hmem : name ∈ referenced := by
      refine Decidable.byContradiction fun hmissing => ?_
      refine hreferenced ⟨name, List.mem_filter.mpr ⟨hname, ?_⟩, decide_eq_true hmissing⟩
      exact decide_eq_true ⟨hjson, hnot⟩
    refine List.mem_map.mpr ⟨name, List.mem_filter.mpr ⟨List.mem_mergeSort.mpr hmem, ?_⟩, rfl⟩
    exact decide_eq_true hnot

theorem keysAt_eq {current : Path} {files : List (String × Path)}
    (h : keysAt storage tree current = .ok files) :
    (current.getLast? = some "keys" → keysOfDirectory storage tree current = .ok files) ∧
      (current.getLast? ≠ some "keys" → files = []) := by
  unfold keysAt at h
  split at h
  · cases h
  split at h
  · next hkeys => exact ⟨fun _ => h, fun hne => absurd hkeys hne⟩
  · next hkeys =>
    cases h
    exact ⟨fun heq => absurd heq hkeys, fun _ => rfl⟩

/-- The scan finds files below the listed directories. -/
theorem keysOfDirectories_mem {directories : List Path} {files : List (String × Path)}
    (h : keysOfDirectories storage tree directories = .ok files) :
    ∀ file ∈ files, ∃ current ∈ directories, ∃ name, file.2 = current ++ [name] ∧
      current.dropLast.getLastD "" = "user_" ++ file.1 ∧ (tree.file? file.2).isSome := by
  induction directories generalizing files with
  | nil =>
    cases h
    intro file hfile
    cases hfile
  | cons current rest ih =>
    obtain ⟨first, hfirst, h⟩ := bind_eq_ok.mp h
    obtain ⟨others, hothers, h⟩ := bind_eq_ok.mp h
    cases h
    obtain ⟨hkeys, hnone⟩ := keysAt_eq hfirst
    intro file hfile
    rcases List.mem_append.mp hfile with hfile | hfile
    · by_cases hname : current.getLast? = some "keys"
      · obtain ⟨userId, hscanned⟩ := keysOfDirectory_scanned (hkeys hname)
        obtain ⟨huser, name, hpath, hsome⟩ := hscanned.mem file hfile
        exact ⟨current, List.mem_cons_self, name, hpath, huser ▸ hscanned.user, hsome⟩
      · rw [hnone hname] at hfile
        cases hfile
    · obtain ⟨directory, hdirectory, hfile⟩ := ih hothers file hfile
      exact ⟨directory, List.mem_cons_of_mem _ hdirectory, hfile⟩

/-- The scan leaves no file of a directory `keys` out but the metadata and the migration backups. -/
theorem keysOfDirectories_complete {directories : List Path} {files : List (String × Path)}
    (h : keysOfDirectories storage tree directories = .ok files) {current : Path} {name : String}
    (hcurrent : current ∈ directories) (hkeys : current.getLast? = some "keys")
    (hname : name ∈ fileNames tree current) (hjson : name ≠ "keys.json")
    (hbackup : storage.isMigrationBackup name = false) :
    ∃ userId, current.dropLast.getLastD "" = "user_" ++ userId ∧
      (userId, current ++ [name]) ∈ files := by
  induction directories generalizing files with
  | nil => cases hcurrent
  | cons directory rest ih =>
    obtain ⟨first, hfirst, h⟩ := bind_eq_ok.mp h
    obtain ⟨others, hothers, h⟩ := bind_eq_ok.mp h
    cases h
    have hscan := (keysAt_eq hfirst).1
    rcases List.mem_cons.mp hcurrent with rfl | hcurrent
    · obtain ⟨userId, hscanned⟩ := keysOfDirectory_scanned (hscan hkeys)
      refine ⟨userId, hscanned.user, List.mem_append_left _ ?_⟩
      exact hscanned.complete name hname hjson hbackup
    · obtain ⟨userId, huser, hmem⟩ := ih hothers hcurrent
      exact ⟨userId, huser, List.mem_append_right _ hmem⟩

theorem storedKeyFiles_eq {files : List (String × Path)} (h : storedKeyFiles storage skips tree = .ok files) :
    tree.present usersPath = false ∧ files = [] ∨
      ∃ found, keysOfDirectories storage tree (walked skips tree) = .ok found ∧ ∀ file, file ∈ files ↔ file ∈ found := by
  unfold storedKeyFiles at h
  split at h
  · next habsent =>
    cases h
    exact .inl ⟨habsent, rfl⟩
  split at h
  · cases h
  obtain ⟨found, hfound, h⟩ := bind_eq_ok.mp h
  cases h
  exact .inr ⟨found, hfound, fun file => List.mem_mergeSort⟩

theorem head?_of_mem_walked {current : Path} (h : current ∈ walked skips tree) :
    current.head? = some "users" := by
  have hfilter := (List.mem_filter.mp h).2
  rw [Bool.and_eq_true, decide_eq_true_eq] at hfilter
  exact hfilter.1

theorem IsKeyFile.place {userId : String} {path : Path} (h : IsKeyFile storage skips tree userId path) :
    ∃ current ∈ walked skips tree, ∃ name, path = current ++ [name] ∧
      current.dropLast.getLastD "" = "user_" ++ userId ∧ (tree.file? path).isSome := by
  obtain ⟨files, hfiles, hmem⟩ := h
  rcases storedKeyFiles_eq hfiles with ⟨-, rfl⟩ | ⟨found, hfound, hiff⟩
  · cases hmem
  · exact keysOfDirectories_mem hfound _ ((hiff _).mp hmem)

/-- The place of a key file says whose it is. -/
theorem IsKeyFile.user_unique {userId userId' : String} {path : Path}
    (h : IsKeyFile storage skips tree userId path) (h' : IsKeyFile storage skips tree userId' path) :
    userId = userId' := by
  obtain ⟨current, -, name, rfl, huser, -⟩ := h.place
  obtain ⟨current', -, name', hpath, huser', -⟩ := h'.place
  obtain ⟨rfl, -⟩ := List.append_inj' hpath rfl
  have hlist : ("user_" ++ userId).toList = ("user_" ++ userId').toList :=
    congrArg String.toList (huser.symm.trans huser')
  rw [String.toList_append, String.toList_append] at hlist
  exact String.toList_inj.mp (List.append_cancel_left hlist)

/-- A key file is a file, and not the one of the secret. -/
theorem IsKeyFile.file {userId : String} {path : Path} (h : IsKeyFile storage skips tree userId path) :
    path ≠ secretPath ∧ (tree.file? path).isSome := by
  obtain ⟨current, hcurrent, name, rfl, -, hfile⟩ := h.place
  refine ⟨fun heq => ?_, hfile⟩
  have hhead := head?_of_mem_walked hcurrent
  cases current with
  | nil => cases hhead
  | cons first rest =>
    have hfirst : first = "users" := Option.some.inj hhead
    have hsecret : first = "secret_key" := (List.cons.inj heq).1
    rw [hfirst] at hsecret
    exact absurd hsecret (by decide)

/-- A directory that is walked is below `users`. -/
theorem present_of_mem_walked {current : Path} (h : current ∈ walked skips tree) :
    tree.present usersPath = true := by
  have hhead := head?_of_mem_walked h
  have hfilter := (List.mem_filter.mp h).2
  rw [Bool.and_eq_true, List.all_eq_true] at hfilter
  have hlistable := hfilter.2 [] (List.mem_inits _ _ |>.mpr (List.nil_prefix))
  rw [Bool.and_eq_true] at hlistable
  replace hlistable := hlistable.1
  unfold FileTree.listable at hlistable
  unfold FileTree.present usersPath
  split at hlistable
  · next hget =>
    rw [hget]
  · cases hlistable

/-- Every file of a directory `keys` that is walked is found, but the metadata and the backups. -/
theorem isKeyFile_of_mem {files : List (String × Path)} (h : storedKeyFiles storage skips tree = .ok files)
    {current : Path} {name : String} (hcurrent : current ∈ walked skips tree)
    (hkeys : current.getLast? = some "keys") (hname : name ∈ fileNames tree current)
    (hjson : name ≠ "keys.json") (hbackup : storage.isMigrationBackup name = false) :
    ∃ userId, current.dropLast.getLastD "" = "user_" ++ userId ∧
      IsKeyFile storage skips tree userId (current ++ [name]) := by
  rcases storedKeyFiles_eq h with ⟨habsent, -⟩ | ⟨found, hfound, hiff⟩
  · rw [present_of_mem_walked hcurrent] at habsent
    cases habsent
  · obtain ⟨userId, huser, hmem⟩ :=
      keysOfDirectories_complete hfound hcurrent hkeys hname hjson hbackup
    exact ⟨userId, huser, files, h, (hiff _).mpr hmem⟩

/-! ## The rows -/

def fieldOf (cipher : Cipher) : Table → Field
  | .githubAuthConfiguration => githubField cipher
  | _ => totpField cipher

section
variable (cipher : Cipher) (oldSecret newSecret : String)

/-- The row holds the plaintext it held, under the new secret; a row without a ciphertext stays. -/
def RowRenewed (field : Field) (row row' : Row) : Prop :=
  row.ciphertext = none ∧ row' = row ∨
  row'.id = row.id ∧ row'.userId = row.userId ∧ ∃ old ∈ row.ciphertext, ∃ new ∈ row'.ciphertext,
    ∃ plaintext, field.decrypt row oldSecret old = some plaintext ∧
      field.decrypt row newSecret new = some plaintext

/-- Every row of every table is renewed. -/
def DatabaseRenewed (database database' : Database) : Prop :=
  ∀ table, Option.Rel (List.Forall₂ (RowRenewed oldSecret newSecret (fieldOf cipher table)))
    (database table) (database' table)

/-- The update is a renewal of the row. -/
def StagedFor (field : Field) (table : Table) (row : Row) (staged : Staged) : Prop :=
  staged.table = table ∧ staged.id = row.id ∧ ∃ old ∈ row.ciphertext, ∃ plaintext,
    field.decrypt row oldSecret old = some plaintext ∧
      field.decrypt row newSecret staged.ciphertext = some plaintext

/-- Some rows of the table are renewed, and the updates of the others are still to be made. -/
def TableAt (field : Field) (table : Table) (rows rows' : List Row) (staged : List Staged) : Prop :=
  ∃ done done' todo, rows = done ++ todo ∧ rows' = done' ++ todo ∧
    List.Forall₂ (RowRenewed oldSecret newSecret field) done done' ∧
    List.Forall₂ (StagedFor oldSecret newSecret field table) (todo.filter (·.ciphertext.isSome))
      (staged.filter (·.table = table))

end

variable {cipher : Cipher} {oldSecret newSecret : String} {field : Field} {table : Table}

/-- An update whose `rowcount` is one changes the row it is meant for. -/
theorem updateRows_append {before after : List Row} {row : Row} {ciphertext : Bytes}
    (h : (before ++ row :: after).countP (·.id = row.id) = 1) :
    updateRows row.id ciphertext (before ++ row :: after) =
      before ++ { row with ciphertext := some ciphertext } :: after := by
  have hself : decide (row.id = row.id) = true := decide_eq_true rfl
  rw [List.countP_append, List.countP_cons, if_pos hself] at h
  have hbefore : before.countP (·.id = row.id) = 0 := by omega
  have hafter : after.countP (·.id = row.id) = 0 := by omega
  have hsame (rows : List Row) (hrows : rows.countP (·.id = row.id) = 0) :
      updateRows row.id ciphertext rows = rows := by
    refine (List.map_congr_left fun other hother => if_neg ?_).trans (List.map_id rows)
    exact fun hid => List.countP_eq_zero.mp hrows other hother (decide_eq_true hid)
  have hsplit : updateRows row.id ciphertext (before ++ row :: after) =
      updateRows row.id ciphertext before ++
        { row with ciphertext := some ciphertext } :: updateRows row.id ciphertext after := by
    unfold updateRows
    rw [List.map_append, List.map_cons, if_pos rfl]
  rw [hsplit, hsame before hbefore, hsame after hafter]

/-- Rows without a ciphertext stay, so that they count as renewed. -/
theorem forall₂_renewed_self {rows : List Row} (h : rows.filter (·.ciphertext.isSome) = []) :
    List.Forall₂ (RowRenewed oldSecret newSecret field) rows rows := by
  refine List.forall₂_same.mpr fun row hrow => .inl ⟨?_, rfl⟩
  exact Option.not_isSome_iff_eq_none.mp (List.filter_eq_nil_iff.mp h row hrow)

theorem TableAt.start {rows : List Row} {staged : List Staged}
    (h : List.Forall₂ (StagedFor oldSecret newSecret field table)
      (rows.filter (·.ciphertext.isSome)) (staged.filter (·.table = table))) :
    TableAt oldSecret newSecret field table rows rows staged := ⟨[], [], rows, rfl, rfl, .nil, h⟩

/-- Nothing is left to be done. -/
theorem TableAt.renewed {rows rows' : List Row}
    (h : TableAt oldSecret newSecret field table rows rows' []) :
    List.Forall₂ (RowRenewed oldSecret newSecret field) rows rows' := by
  obtain ⟨done, done', todo, rfl, rfl, hdone, htodo⟩ := h
  exact List.rel_append hdone (forall₂_renewed_self (List.forall₂_nil_right_iff.mp htodo))

/-- An update of another table. -/
theorem TableAt.other {rows rows' : List Row} {staged : Staged} {rest : List Staged}
    (h : TableAt oldSecret newSecret field table rows rows' (staged :: rest))
    (hne : staged.table ≠ table) : TableAt oldSecret newSecret field table rows rows' rest := by
  obtain ⟨done, done', todo, hrows, hrows', hdone, htodo⟩ := h
  rw [List.filter_cons_of_neg (by simpa using hne)] at htodo
  exact ⟨done, done', todo, hrows, hrows', hdone, htodo⟩

/-- The next row with a ciphertext. -/
theorem exists_first {rows : List Row} {row : Row} {others : List Row}
    (h : rows.filter (·.ciphertext.isSome) = row :: others) :
    ∃ without rest, rows = without ++ row :: rest ∧ without.filter (·.ciphertext.isSome) = [] ∧
      rest.filter (·.ciphertext.isSome) = others := by
  obtain ⟨without, rest, hrows, hwithout, -, hrest⟩ := List.filter_eq_cons_iff.mp h
  refine ⟨without, rest, hrows, List.filter_eq_nil_iff.mpr hwithout, hrest⟩

/-- The update of the next row of the table. -/
theorem TableAt.update {rows rows' : List Row} {staged : Staged} {rest : List Staged}
    (h : TableAt oldSecret newSecret field table rows rows' (staged :: rest))
    (htable : staged.table = table) (hcount : rows'.countP (·.id = staged.id) = 1) :
    TableAt oldSecret newSecret field table rows
      (updateRows staged.id staged.ciphertext rows') rest := by
  obtain ⟨done, done', todo, rfl, rfl, hdone, htodo⟩ := h
  rw [List.filter_cons_of_pos (by simpa using htable)] at htodo
  obtain ⟨row, others, hrow, hothers, hfilter⟩ := List.forall₂_cons_right_iff.mp htodo
  obtain ⟨without, todo, rfl, hwithout, rfl⟩ := exists_first hfilter
  obtain ⟨-, hid, old, hold, plaintext, hplaintext, hnew⟩ := hrow
  have hsplit : done' ++ (without ++ row :: todo) = (done' ++ without) ++ row :: todo :=
    (List.append_assoc _ _ _).symm
  rw [hid, hsplit] at hcount ⊢
  rw [updateRows_append hcount]
  refine ⟨done ++ without ++ [row],
    done' ++ without ++ [{ row with ciphertext := some staged.ciphertext }], todo, ?_, ?_, ?_, hothers⟩
  · rw [List.append_assoc, List.append_assoc]
    rfl
  · rw [List.append_assoc _ [_]]
    rfl
  · refine List.rel_append (List.rel_append hdone (forall₂_renewed_self hwithout)) (.cons ?_ .nil)
    exact .inr ⟨rfl, rfl, old, hold, staged.ciphertext, rfl, plaintext, hplaintext, hnew⟩

end WebSSH.Rotation
