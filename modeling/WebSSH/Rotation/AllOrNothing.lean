import Mathlib
import WebSSH.Rotation.Stores

/-!
# A rotation is all or nothing

What is known of the three stores in each phase of a rotation: before anything is changed (`Fresh`,
`Ready`), while the files and the rows are changed (`Halfway`), and at the end (`Settled`). A commit that
raises after it has taken effect is the one case in which the files are put back and the rows are not.
-/

namespace WebSSH.Rotation
open Lib Lib.Python Program

/-- What a rotation finds. -/
structure Setting where
  cipher : Cipher
  storage : Storage
  skips : Path → Bool
  oldSecret : String
  newSecret : String
  tree : FileTree Bytes
  database : Database

namespace Setting

section
variable (e : Setting)

def start : State := .init e.tree e.database

def IsKey (userId : String) (path : Path) : Prop := IsKeyFile e.storage e.skips e.tree userId path

/-- A key under the new secret. -/
def Renewed (userId : String) (original payload : Bytes) : Prop :=
  ∃ plaintext, e.cipher.decryptKey e.oldSecret userId original = some plaintext ∧
    e.cipher.decryptKey e.newSecret userId payload = some plaintext

/-- A content that a key file may get. -/
def RenewedAt (path : Path) (payload : Bytes) : Prop :=
  ∃ userId original, e.IsKey userId path ∧ e.tree.file? path = some original ∧
    e.Renewed userId original payload

/-- The file has got such a content. -/
def Installed (t : FileTree Bytes) (path : Path) : Prop :=
  ∃ payload, t.get? path = some (.file payload) ∧ e.RenewedAt path payload

def RowsRenewed (database : Database) : Prop :=
  DatabaseRenewed e.cipher e.oldSecret e.newSecret e.database database

/-- What holds at every moment. -/
structure Recoverable (s : State) : Prop where
  backup : s.backup = some (e.tree, e.database) ∨ s.tree = e.tree ∧ s.database = e.database
  files : ∀ path ≠ secretPath, s.tree.get? path = e.tree.get? path ∨ e.Installed s.tree path
  secret : persisted? s.tree = persisted? e.tree ∨ persisted? s.tree = some e.newSecret
  rows : s.database = e.database ∨ e.RowsRenewed s.database

/-- The stores are what they were. -/
structure Unchanged (s : State) : Prop where
  files : ∀ path ≠ secretPath, s.tree.get? path = e.tree.get? path
  secret : persisted? s.tree = persisted? e.tree
  rows : s.database = e.database

/-- Every key and every row is under the new secret, and the new secret is in force. -/
structure Rotated (s : State) : Prop where
  keys : ∀ userId path, e.IsKey userId path → ∃ original ∈ e.tree.file? path,
    ∃ payload ∈ s.tree.file? path, e.Renewed userId original payload
  others : ∀ path ≠ secretPath, (∀ userId, ¬ e.IsKey userId path) →
    s.tree.get? path = e.tree.get? path
  secret : persisted? s.tree = some e.newSecret
  rows : e.RowsRenewed s.database
  /-- No file of a directory `keys` that is listed is left out. -/
  complete : ∀ current ∈ walked e.skips e.tree, current.getLast? = some "keys" →
    ∀ name ∈ fileNames e.tree current, name ≠ "keys.json" →
      e.storage.isMigrationBackup name = false →
        ∃ userId, current.dropLast.getLastD "" = "user_" ++ userId ∧ e.IsKey userId (current ++ [name])

/-- How a rotation ends, unless its rollback fails. -/
structure Settled (s : State) : Prop where
  recoverable : e.Recoverable s
  rotated : (s.rollingBack = true → s.rolledBack = true) → s.durable = true → s.committed = true →
    e.Rotated s
  unchanged : (s.rollingBack = true → s.rolledBack = true) → s.durable = false → e.Unchanged s

/-- Nothing is changed yet. -/
structure Fresh (s : State) : Prop where
  tree : s.tree = e.tree
  database : s.database = e.database
  durable : s.durable = false
  committed : s.committed = false
  rolledBack : s.rolledBack = false

/-- The files may be changed in part. -/
structure Halfway (s : State) : Prop where
  recoverable : e.Recoverable s
  backup : s.backup = some (e.tree, e.database)
  rows : s.durable = false → s.database = e.database
  committed : s.committed = false
  rolledBack : s.rolledBack = false

/-- The updates that are still to be made in the transaction. -/
def TransactionAt (database : Database) (staged : List Staged) : Prop :=
  ∀ table, Option.Rel
    (fun rows rows' =>
      TableAt e.oldSecret e.newSecret (fieldOf e.cipher table) table rows rows' staged)
    (e.database table) (database table)

end

variable {e : Setting} {s : State}

theorem Fresh.recoverable (H : e.Fresh s) : e.Recoverable s where
  backup := .inr ⟨H.tree, H.database⟩
  files := fun path _ => .inl (by rw [H.tree])
  secret := .inl (by rw [H.tree])
  rows := .inl H.database

theorem Fresh.settled (H : e.Fresh s) : e.Settled s where
  recoverable := H.recoverable
  rotated := fun _ hdurable => by
    rw [H.durable] at hdurable
    cases hdurable
  unchanged := fun _ _ => ⟨fun path _ => by rw [H.tree], by rw [H.tree], H.database⟩

theorem Fresh.halfway (H : e.Fresh s) (hbackup : s.backup = some (e.tree, e.database)) :
    e.Halfway s := ⟨H.recoverable, hbackup, fun _ => H.database, H.committed, H.rolledBack⟩

/-! ## Staging -/

theorem looks_ofExcept {α : Type} {x : Except Error α} :
    Looks e.Recoverable (fun a => x = .ok a) (ofExcept x) s := by
  cases x with
  | ok a => exact .pure rfl
  | error err => exact .raise

theorem looks_refuseIf {condition : Prop} [Decidable condition] {error : Error} :
    Looks e.Recoverable (fun _ => ¬ condition) (refuseIf condition error) s := by
  unfold refuseIf
  split
  · exact .raise
  · next h => exact .pure h

theorem looks_readTree {α : Type} {f : FileTree Bytes → Except Error α} (H : e.Recoverable s) :
    Looks e.Recoverable (fun a => f s.tree = .ok a) (readTree f) s := by
  refine .call H fun _ a t hop => ?_
  cases hf : f s.tree with
  | ok b =>
    rw [hf] at hop
    cases hop
    exact ⟨rfl, rfl⟩
  | error err =>
    rw [hf] at hop
    cases hop

theorem looks_readOriginals (H : e.Fresh s) (found : List (String × Path)) :
    Looks e.Recoverable (fun files => List.Forall₂ (fun file (original : KeyFile) =>
      original.userId = file.1 ∧ original.path = file.2 ∧
        e.tree.file? file.2 = some original.original) found files) (readOriginals found) s := by
  induction found with
  | nil => exact .pure .nil
  | cons file rest ih =>
    unfold readOriginals readBytes
    refine .bind (looks_readTree H.recoverable) fun original horiginal => ?_
    refine .bind ih fun files hfiles => .pure (.cons ⟨rfl, rfl, ?_⟩ hfiles)
    rw [← H.tree]
    cases hfile : s.tree.file? file.2 with
    | none =>
      rw [hfile] at horiginal
      cases horiginal
    | some content =>
      rw [hfile] at horiginal
      exact congrArg some (Except.ok.inj horiginal)

theorem looks_reencryptKey (H : e.Recoverable s) (userId : String) (original : Bytes) :
    Looks e.Recoverable (e.Renewed userId original)
      (reencryptKey e.cipher e.oldSecret e.newSecret userId original) s := by
  unfold reencryptKey
  refine .bind looks_refuseIf fun _ _ => ?_
  cases hplaintext : e.cipher.decryptKey e.oldSecret userId original with
  | none => exact .raise
  | some plaintext =>
    refine .bind (p := fun _ => True) (.call H fun _ _ _ hop => ?_) fun staged _ => ?_
    · cases hop
      exact ⟨rfl, trivial⟩
    refine .bind looks_refuseIf fun _ hverified => .pure ?_
    exact ⟨plaintext, hplaintext, Decidable.not_not.mp hverified⟩

/-- What is staged for a key file. -/
def StagedKey (e : Setting) (staging : Dict Nat Bytes) (file : KeyFile) (staged : Path × Nat) : Prop :=
  staged.1 = file.path ∧
    ∃ payload, staging.get? staged.2 = some payload ∧ e.Renewed file.userId file.original payload

structure Ready (e : Setting) (s : State) : Prop where
  fresh : e.Fresh s
  backup : s.backup = some (e.tree, e.database)

theorem Ready.staging (H : e.Ready s) (staging : Dict Nat Bytes) : e.Ready { s with staging } :=
  ⟨⟨H.fresh.tree, H.fresh.database, H.fresh.durable, H.fresh.committed, H.fresh.rolledBack⟩, H.backup⟩

/-- The staged files are numbered, so that no file is staged where another one is. -/
theorem stageKeys_wp (files : List KeyFile) (index : Nat) (transaction : Option Database) :
    ∀ s, e.Ready s → s.transaction = transaction →
      (stageKeys e.cipher e.oldSecret e.newSecret index files).Wp e.Recoverable
        (fun staged t => e.Ready t ∧ t.transaction = transaction ∧
          (∀ j < index, t.staging.get? j = s.staging.get? j) ∧
          List.Forall₂ (e.StagedKey t.staging) files staged)
        (fun _ t => e.Ready t) e.Ready s := by
  induction files generalizing index with
  | nil => exact fun s H htransaction => .pure ⟨H, htransaction, fun _ _ => rfl, .nil⟩
  | cons file files ih =>
    intro s H htransaction
    unfold stageKeys
    refine (looks_reencryptKey H.fresh.recoverable file.userId file.original).bind_wp (fun _ => H) H
      fun payload hpayload => ?_
    refine .bind (P := fun _ t => t = { s with staging := s.staging.set index payload }) ?_ ?_
    · refine .call (fun _ => H) H fun _ _ t hop => ?_
      cases hop
      have hready := H.staging (s.staging.set index payload)
      exact ⟨hready.fresh.recoverable, rfl, fun _ => hready, hready⟩
    rintro _ t rfl
    have hready := H.staging (s.staging.set index payload)
    have hself : (s.staging.set index payload).get? index = some payload := Dict.get?_set_self
    have hread : Looks e.Recoverable (fun staged => staged = payload) (readStagedKey index)
        { s with staging := s.staging.set index payload } := by
      refine .call hready.fresh.recoverable fun _ staged t hop => ?_
      dsimp only at hop
      rw [hself] at hop
      cases hop
      exact ⟨rfl, rfl⟩
    refine hread.bind_wp (fun _ => hready) hready ?_
    rintro staged rfl
    refine looks_refuseIf.bind_wp (fun _ => hready) hready fun _ _ => ?_
    refine .bind (ih (index + 1) _ hready htransaction) ?_
    rintro rest t ⟨ht, htransaction', hkept, hrest⟩
    refine .pure ⟨ht, htransaction', fun j hj => ?_, .cons ⟨rfl, staged, ?_, hpayload⟩ hrest⟩
    · rw [hkept j (Nat.lt_succ_of_lt hj)]
      exact Dict.get?_set_of_ne (Nat.ne_of_lt hj)
    · exact (hkept index (Nat.lt_succ_self index)).trans hself

/-! ## Staging the rows -/

theorem looks_stageRow (H : e.Recoverable s) (table : Table) (row : Row) :
    Looks e.Recoverable (StagedFor e.oldSecret e.newSecret (fieldOf e.cipher table) table row)
      (stageRow e.oldSecret e.newSecret (fieldOf e.cipher table) table row) s := by
  unfold stageRow
  split
  · exact .raise
  next plaintext hplaintext =>
  obtain ⟨old, hold, hplaintext⟩ := Option.bind_eq_some_iff.mp hplaintext
  refine .bind (p := fun _ => True) (.call H fun _ _ _ hop => ?_) fun replacement _ => ?_
  · cases hop
    exact ⟨rfl, trivial⟩
  split
  · exact .raise
  next verified hverified =>
  refine .bind looks_ofExcept fun same hsame => ?_
  refine .bind looks_refuseIf fun _ hrefused => .pure ?_
  have heq : plaintext = verified := by
    unfold compareDigest at hsame
    split at hsame
    · cases hsame
      exact of_decide_eq_true (Bool.not_eq_false _ ▸ hrefused)
    · cases hsame
  exact ⟨rfl, rfl, old, hold, plaintext, hplaintext, heq ▸ hverified⟩

theorem looks_stageRows (H : e.Recoverable s) (table : Table) (rows : List Row) :
    Looks e.Recoverable
      (List.Forall₂ (StagedFor e.oldSecret e.newSecret (fieldOf e.cipher table) table) rows)
      (stageRows e.oldSecret e.newSecret (fieldOf e.cipher table) table rows) s := by
  induction rows with
  | nil => exact .pure .nil
  | cons row rows ih =>
    unfold stageRows
    refine .bind (looks_stageRow H table row) fun staged hstaged => ?_
    exact .bind ih fun rest hrest => .pure (.cons hstaged hrest)

theorem looks_selectRows (H : e.Recoverable s) (table : Table) :
    Looks e.Recoverable (fun rows => rows = (s.rows table).getD []) (selectRows table) s := by
  refine .call H fun _ _ _ hop => ?_
  cases hop
  exact ⟨rfl, rfl⟩

theorem Ready.transaction (H : e.Ready s) (transaction : Option Database) :
    e.Ready { s with transaction } :=
  ⟨⟨H.fresh.tree, H.fresh.database, H.fresh.durable, H.fresh.committed, H.fresh.rolledBack⟩, H.backup⟩

/-- The updates that are staged for some rows of a table. -/
abbrev StagedRows (e : Setting) (table : Table) : List Row → List Staged → Prop :=
  List.Forall₂ (StagedFor e.oldSecret e.newSecret (fieldOf e.cipher table) table)

theorem stageTotpRotation_wp (H : e.Ready s) :
    (stageTotpRotation e.cipher e.oldSecret e.newSecret).Wp e.Recoverable
      (fun staged t => (e.Ready t ∧ t.transaction = some e.database) ∧
        ∃ authenticators enrollments, staged = authenticators ++ enrollments ∧
          e.StagedRows .totpAuthenticators ((e.database .totpAuthenticators).getD []) authenticators ∧
          e.StagedRows .totpEnrollments ((e.database .totpEnrollments).getD []) enrollments)
      (fun _ => e.Ready) e.Ready s := by
  unfold stageTotpRotation
  refine .bind (P := fun _ t => e.Ready t ∧ t.transaction = some e.database) ?_ ?_
  · refine .call (fun _ => H) H fun _ _ t hop => ?_
    cases hop
    have hready := H.transaction (some s.database)
    exact ⟨hready.fresh.recoverable, ⟨hready, congrArg some H.fresh.database⟩, fun _ => hready, hready⟩
  rintro _ t ⟨ht, htransaction⟩
  have hrows : t.rows = e.database := by
    rw [State.rows, htransaction]
    rfl
  have hI := ht.fresh.recoverable
  refine (looks_selectRows hI _).bind_wp (fun _ => ht) ht ?_
  rintro _ rfl
  refine (looks_stageRows hI .totpAuthenticators _).bind_wp (fun _ => ht) ht fun first hfirst => ?_
  refine (looks_selectRows hI _).bind_wp (fun _ => ht) ht ?_
  rintro _ rfl
  refine (looks_stageRows hI .totpEnrollments _).bind_wp (fun _ => ht) ht fun second hsecond => ?_
  rw [hrows] at hfirst hsecond
  exact .pure ⟨⟨ht, htransaction⟩, first, second, rfl, hfirst, hsecond⟩

theorem looks_stageGithubRotation (H : e.Ready s) (htransaction : s.transaction = some e.database) :
    Looks e.Recoverable
      (e.StagedRows .githubAuthConfiguration
        (((e.database .githubAuthConfiguration).getD []).filter (·.ciphertext.isSome)))
      (stageGithubRotation e.cipher e.oldSecret e.newSecret) s := by
  have hrows : s.rows = e.database := by
    rw [State.rows, htransaction]
    rfl
  refine .bind (looks_selectRows H.fresh.recoverable _) ?_
  rintro _ rfl
  rw [hrows]
  exact looks_stageRows H.fresh.recoverable .githubAuthConfiguration _

theorem StagedRows.filter_self {table : Table} {rows : List Row} {staged : List Staged}
    (h : e.StagedRows table rows staged) : staged.filter (·.table = table) = staged := by
  induction h with
  | nil => rfl
  | cons h _ ih =>
    refine (List.filter_cons_of_pos ?_).trans (congrArg _ ih)
    exact decide_eq_true h.1

theorem StagedRows.filter_other {table table' : Table} {rows : List Row} {staged : List Staged}
    (h : e.StagedRows table rows staged) (hne : table ≠ table') :
    staged.filter (·.table = table') = [] := by
  induction h with
  | nil => rfl
  | cons h _ ih =>
    refine (List.filter_cons_of_neg fun heq => ?_).trans ih
    exact hne (h.1.symm.trans (of_decide_eq_true heq))

/-- Rows that are staged have a ciphertext. -/
theorem StagedRows.filter_rows {table : Table} {rows : List Row} {staged : List Staged}
    (h : e.StagedRows table rows staged) : rows.filter (·.ciphertext.isSome) = rows := by
  induction h with
  | nil => rfl
  | cons h _ ih =>
    obtain ⟨-, -, old, hold, -⟩ := h
    refine (List.filter_cons_of_pos ?_).trans (congrArg _ ih)
    exact Option.isSome_iff_exists.mpr ⟨old, hold⟩

/-- All the updates are still to be made. -/
theorem transactionAt_start {authenticators enrollments github : List Staged}
    (ha : e.StagedRows .totpAuthenticators ((e.database .totpAuthenticators).getD []) authenticators)
    (hb : e.StagedRows .totpEnrollments ((e.database .totpEnrollments).getD []) enrollments)
    (hg : e.StagedRows .githubAuthConfiguration
      (((e.database .githubAuthConfiguration).getD []).filter (·.ciphertext.isSome)) github) :
    e.TransactionAt e.database (authenticators ++ enrollments ++ github) := by
  intro table
  cases hrows : e.database table with
  | none => exact .none
  | some rows =>
    refine .some (.start ?_)
    rw [List.filter_append, List.filter_append]
    cases table with
    | totpAuthenticators =>
      rw [hrows] at ha
      have hsame : rows.filter (·.ciphertext.isSome) = rows := ha.filter_rows
      rw [ha.filter_self, hb.filter_other (by decide), hg.filter_other (by decide), List.append_nil,
        List.append_nil, hsame]
      exact ha
    | totpEnrollments =>
      rw [hrows] at hb
      have hsame : rows.filter (·.ciphertext.isSome) = rows := hb.filter_rows
      rw [ha.filter_other (by decide), hb.filter_self, hg.filter_other (by decide), List.append_nil,
        List.nil_append, hsame]
      exact hb
    | githubAuthConfiguration =>
      rw [hrows] at hg
      rw [ha.filter_other (by decide), hb.filter_other (by decide), hg.filter_self]
      exact hg

theorem rel_imp {α : Type} {r r' : α → α → Prop} {a b : Option α} (h : Option.Rel r a b)
    (himp : ∀ x y, r x y → r' x y) : Option.Rel r' a b := by
  cases h with
  | none => exact .none
  | some h => exact .some (himp _ _ h)

/-- All the updates are made. -/
theorem TransactionAt.renewed {database : Database} (h : e.TransactionAt database []) :
    e.RowsRenewed database := fun table => rel_imp (h table) fun _ _ htable => htable.renewed

/-- One update. -/
theorem TransactionAt.update {database : Database} {staged : Staged} {rest : List Staged}
    (h : e.TransactionAt database (staged :: rest))
    (hcount : ((database staged.table).getD []).countP (·.id = staged.id) = 1) :
    e.TransactionAt (Function.update database staged.table
      ((database staged.table).map (updateRows staged.id staged.ciphertext))) rest := by
  intro table
  have htable := h table
  by_cases heq : table = staged.table
  · subst heq
    rw [Function.update_self]
    generalize e.database staged.table = before, database staged.table = after at htable hcount
    cases htable with
    | none => cases hcount
    | some htable => exact .some (htable.update rfl hcount)
  · rw [Function.update_of_ne heq]
    exact rel_imp htable fun _ _ hother => hother.other (Ne.symm heq)

/-! ## Changing the stores -/

/-- What the block that changes the stores keeps. -/
structure Applying (e : Setting) (staging : Dict Nat Bytes) (s : State) : Prop where
  halfway : e.Halfway s
  durable : s.durable = false
  staging : s.staging = staging

variable {staging : Dict Nat Bytes}

theorem Applying.transaction (H : e.Applying staging s) (transaction : Option Database) :
    e.Applying staging { s with transaction } where
  halfway := {
    recoverable := ⟨H.halfway.recoverable.backup, H.halfway.recoverable.files,
      H.halfway.recoverable.secret, H.halfway.recoverable.rows⟩
    backup := H.halfway.backup
    rows := H.halfway.rows
    committed := H.halfway.committed
    rolledBack := H.halfway.rolledBack }
  durable := H.durable
  staging := H.staging

/-- Each update changes one row, or the rotation is given up. -/
theorem applyStaged_wp (changed : String) (staged later : List Staged) :
    ∀ s, e.Applying staging s → e.TransactionAt s.rows (staged ++ later) →
      (applyStaged changed staged).Wp e.Recoverable
        (fun _ t => e.Applying staging t ∧ e.TransactionAt t.rows later)
        (fun _ => e.Halfway) e.Halfway s := by
  induction staged with
  | nil => exact fun s H hrows => .pure ⟨H, hrows⟩
  | cons first rest ih =>
    intro s H hrows
    unfold applyStaged
    refine .bind (P := fun rowcount t => e.Applying staging t ∧
      (rowcount = 1 → e.TransactionAt t.rows (rest ++ later))) ?_ ?_
    · refine .call (fun _ => H.halfway) H.halfway fun _ rowcount t hop => ?_
      cases hop
      have hnext := H.transaction (some (Function.update s.rows first.table
        ((s.rows first.table).map (updateRows first.id first.ciphertext))))
      exact ⟨hnext.halfway.recoverable, ⟨hnext, hrows.update⟩, fun _ => hnext.halfway, hnext.halfway⟩
    rintro rowcount t ⟨ht, hnext⟩
    refine looks_refuseIf.bind_wp (fun _ => ht.halfway) ht.halfway fun _ hone => ?_
    exact ih t ht (hnext (Decidable.not_not.mp hone))

theorem get?_write_self (t : FileTree Bytes) (path : Path) (payload : Bytes) :
    (t.write path payload).get? path = some (.file payload) := Dict.get?_set_self

theorem get?_write_of_ne {t : FileTree Bytes} {path other : Path} {payload : Bytes} (h : other ≠ path) :
    (t.write path payload).get? other = t.get? other := Dict.get?_set_of_ne h

/-- A key file is written. -/
theorem Halfway.writeKey (H : e.Halfway s) {path : Path} {payload : Bytes} (hpath : path ≠ secretPath)
    (h : e.tree.get? path = some (.file payload) ∨ e.RenewedAt path payload) :
    e.Halfway { s with tree := s.tree.write path payload } where
  recoverable := {
    backup := .inl H.backup
    files := by
      intro other hother
      by_cases heq : other = path
      · subst heq
        have hself := get?_write_self s.tree other payload
        exact h.imp (fun hold => hself.trans hold.symm) fun hnew => ⟨payload, hself, hnew⟩
      · have hsame : (s.tree.write path payload).get? other = s.tree.get? other :=
          get?_write_of_ne heq
        refine (H.recoverable.files other hother).imp (fun hold => hsame.trans hold) ?_
        exact fun hnew => hnew.imp fun _ hnew => ⟨hsame.trans hnew.1, hnew.2⟩
    secret := by
      have hsame : persisted? (s.tree.write path payload) = persisted? s.tree :=
        persisted?_congr (get?_write_of_ne (Ne.symm hpath))
      rw [hsame]
      exact H.recoverable.secret
    rows := H.recoverable.rows }
  backup := H.backup
  rows := H.rows
  committed := H.committed
  rolledBack := H.rolledBack

/-- The file of the secret is written. -/
theorem Halfway.writeSecret (H : e.Halfway s) {payload : Bytes}
    (h : persisted? (s.tree.write secretPath payload) = persisted? e.tree ∨
      persisted? (s.tree.write secretPath payload) = some e.newSecret) :
    e.Halfway { s with tree := s.tree.write secretPath payload } where
  recoverable := {
    backup := .inl H.backup
    files := by
      intro path hpath
      have hsame : (s.tree.write secretPath payload).get? path = s.tree.get? path :=
        get?_write_of_ne hpath
      refine (H.recoverable.files path hpath).imp (fun hold => hsame.trans hold) ?_
      exact fun hnew => hnew.imp fun _ hnew => ⟨hsame.trans hnew.1, hnew.2⟩
    secret := h
    rows := H.recoverable.rows }
  backup := H.backup
  rows := H.rows
  committed := H.committed
  rolledBack := H.rolledBack

theorem RenewedAt.ne_secretPath {path : Path} {payload : Bytes} (h : e.RenewedAt path payload) :
    path ≠ secretPath := by
  obtain ⟨userId, original, hkey, -⟩ := h
  exact hkey.file.1

/-- A content that can be installed is staged. -/
def Stages (e : Setting) (staging : Dict Nat Bytes) (file : Path × Nat) : Prop :=
  ∃ payload, staging.get? file.2 = some payload ∧ e.RenewedAt file.1 payload

/-- The files that are installed stay installed. -/
theorem installKeys_wp {files : List (Path × Nat)} (hfiles : ∀ file ∈ files, e.Stages staging file)
    (rows : Database) :
    ∀ s, e.Applying staging s → s.rows = rows →
      (installKeys files).Wp e.Recoverable
        (fun _ t => (e.Applying staging t ∧ t.rows = rows) ∧
          (∀ path, e.Installed s.tree path → e.Installed t.tree path) ∧
          ∀ file ∈ files, e.Installed t.tree file.1)
        (fun _ => e.Halfway) e.Halfway s := by
  induction files with
  | nil => exact fun s H hrows => .pure ⟨⟨H, hrows⟩, fun _ h => h, fun file hfile => by cases hfile⟩
  | cons file files ih =>
    intro s H hrows
    obtain ⟨payload, hstaged, hrenewed⟩ := hfiles file List.mem_cons_self
    unfold installKeys
    have hread : Looks e.Recoverable (fun read => read = payload) (readStagedKey file.2) s := by
      refine .call H.halfway.recoverable fun _ read t hop => ?_
      rw [H.staging, hstaged] at hop
      cases hop
      exact ⟨rfl, rfl⟩
    refine hread.bind_wp (fun _ => H.halfway) H.halfway fun read hsame => ?_
    rw [hsame]
    have hnext := H.halfway.writeKey hrenewed.ne_secretPath (.inr hrenewed)
    refine .bind (P := fun _ t => t = { s with tree := s.tree.write file.1 payload }) ?_ ?_
    · refine .call (fun _ => H.halfway) H.halfway fun _ _ t hop => ?_
      cases hop
      exact ⟨hnext.recoverable, rfl, fun _ => hnext, hnext⟩
    rintro _ t rfl
    have hkept (path : Path) (hpath : e.Installed s.tree path) :
        e.Installed (s.tree.write file.1 payload) path := by
      by_cases heq : path = file.1
      · subst heq
        exact ⟨payload, get?_write_self _ _ _, hrenewed⟩
      · exact hpath.imp fun _ h => ⟨(get?_write_of_ne heq).trans h.1, h.2⟩
    refine (ih (fun file hfile => hfiles file (List.mem_cons_of_mem _ hfile)) _
      ⟨hnext, H.durable, H.staging⟩ hrows).mono ?_ (fun _ _ h => h) fun _ h => h
    rintro _ t ⟨ht, hinstalled, hrest⟩
    refine ⟨ht, fun path hpath => hinstalled path (hkept path hpath), fun other hother => ?_⟩
    rcases List.mem_cons.mp hother with rfl | hother
    · exact hinstalled _ ⟨payload, get?_write_self _ _ _, hrenewed⟩
    · exact hrest other hother

/-- The rotation has been committed. -/
structure Done (e : Setting) (s : State) : Prop where
  backup : s.backup = some (e.tree, e.database)
  rotated : e.Rotated s
  recoverable : e.Recoverable s
  durable : s.durable = true
  committed : s.committed = true

/-- All the key files are staged. -/
def StagesAll (e : Setting) (staging : Dict Nat Bytes) (files : List (Path × Nat)) : Prop :=
  (∀ file ∈ files, e.Stages staging file) ∧
    ∀ userId path, e.IsKey userId path → ∃ index, (path, index) ∈ files

theorem Installed.key {t : FileTree Bytes} {userId : String} {path : Path}
    (h : e.Installed t path) (hkey : e.IsKey userId path) :
    ∃ original ∈ e.tree.file? path, ∃ payload ∈ t.file? path, e.Renewed userId original payload := by
  obtain ⟨payload, hget, userId', original, hkey', horiginal, hrenewed⟩ := h
  rw [← hkey.user_unique hkey'] at hrenewed
  exact ⟨original, horiginal, payload, FileTree.file?_eq_some.mpr hget, hrenewed⟩

/-- The block that changes the stores. -/
theorem apply_wp {stagedTotp stagedGithub : List Staged} {files : List (Path × Nat)}
    {found : List (String × Path)} (hfound : storedKeyFiles e.storage e.skips e.tree = .ok found)
    (hnew : validateSecret e.newSecret "new" = .ok ()) (H : e.Applying staging s)
    (hrows : e.TransactionAt s.rows (stagedTotp ++ stagedGithub))
    (hfiles : e.StagesAll staging files) :
    (apply e.newSecret stagedTotp stagedGithub files).Wp e.Recoverable
      (fun _ => e.Done) (fun _ => e.Halfway) e.Halfway s := by
  unfold apply applyStagedTotpRotation applyStagedGithubRotation
  refine .bind (applyStaged_wp _ stagedTotp stagedGithub s H hrows) ?_
  rintro _ s ⟨H, hrows⟩
  rw [← List.append_nil stagedGithub] at hrows
  refine .bind (applyStaged_wp _ stagedGithub [] s H hrows) ?_
  rintro _ s ⟨H, hrows⟩
  refine .bind (installKeys_wp hfiles.1 s.rows s H rfl) ?_
  rintro _ t ⟨⟨H, hsame⟩, -, hinstalled⟩
  have hsecret := persisted?_write hnew t.tree
  have hnext := H.halfway.writeSecret (.inr hsecret)
  refine .bind (P := fun _ u => u = { t with tree := t.tree.write secretPath (secretFile e.newSecret) })
    ?_ ?_
  · refine .call (fun _ => H.halfway) H.halfway fun _ _ u hop => ?_
    cases hop
    exact ⟨hnext.recoverable, rfl, fun _ => hnext, hnext⟩
  rintro _ _ rfl
  refine (looks_readTree hnext.recoverable).bind_wp (fun _ => hnext) hnext fun _ _ => ?_
  refine looks_refuseIf.bind_wp (fun _ => hnext) hnext fun _ _ => ?_
  have hrenewed : e.RowsRenewed t.rows := hsame ▸ hrows.renewed
  -- the commit: from here on the rows are the new ones
  let u : State := { t with
    tree := t.tree.write secretPath (secretFile e.newSecret)
    database := t.rows, transaction := none, durable := true }
  have hrecoverable : e.Recoverable u :=
    ⟨.inl hnext.backup, hnext.recoverable.files, hnext.recoverable.secret, .inr hrenewed⟩
  have hhalfway : e.Halfway u :=
    ⟨hrecoverable, hnext.backup, (fun hdurable => by cases hdurable), hnext.committed, hnext.rolledBack⟩
  refine .bind (P := fun _ v => v = u) ?_ ?_
  · refine .call (fun _ => hnext) hnext fun _ _ v hop => ?_
    cases hop
    exact ⟨hrecoverable, rfl, fun _ => hhalfway, hhalfway⟩
  rintro _ _ rfl
  have hdone : e.Recoverable { u with committed := true } :=
    ⟨hrecoverable.backup, hrecoverable.files, hrecoverable.secret, hrecoverable.rows⟩
  refine .modify hdone ⟨hnext.backup, ?_, hdone, rfl, rfl⟩
  exact {
    keys := by
      intro userId path hkey
      obtain ⟨index, hmem⟩ := hfiles.2 userId path hkey
      have hpath := hkey.file.1
      obtain ⟨payload, hget, hpayload⟩ := hinstalled _ hmem
      exact Installed.key ⟨payload, (get?_write_of_ne hpath).trans hget, hpayload⟩ hkey
    others := by
      intro path hpath hnot
      rcases hnext.recoverable.files path hpath with hsame | ⟨_, _, userId, _, hkey, _⟩
      · exact hsame
      · exact (hnot userId hkey).elim
    secret := hsecret
    rows := hrenewed
    complete := fun current hcurrent hkeys name hname hjson hbackup =>
      isKeyFile_of_mem hfound hcurrent hkeys hname hjson hbackup }

/-! ## Putting the stores back -/

/-- The rollback is on its way: if it stops here, nothing is said about the end. -/
structure Undoing (e : Setting) (s : State) : Prop where
  halfway : e.Halfway s
  rollingBack : s.rollingBack = true

theorem Undoing.settled (H : e.Undoing s) : e.Settled s where
  recoverable := H.halfway.recoverable
  rotated := fun hrolled => by
    have hnot := hrolled H.rollingBack
    rw [H.halfway.rolledBack] at hnot
    cases hnot
  unchanged := fun hrolled => by
    have hnot := hrolled H.rollingBack
    rw [H.halfway.rolledBack] at hnot
    cases hnot

/-- What was read of the key files before anything was changed. -/
structure Originals (e : Setting) (files : List KeyFile) : Prop where
  mem : ∀ file ∈ files, e.IsKey file.userId file.path ∧
    e.tree.file? file.path = some file.original
  complete : ∀ userId path, e.IsKey userId path → ∃ file ∈ files, file.path = path

/-- The key files are put back one by one; those that are back stay so. -/
theorem rollbackKeyFiles_wp {files : List KeyFile}
    (hfiles : ∀ file ∈ files, e.IsKey file.userId file.path ∧
      e.tree.file? file.path = some file.original) :
    ∀ s, e.Undoing s → (rollbackKeyFiles files).Wp e.Recoverable
      (fun written t => e.Undoing t ∧
        (∀ path, s.tree.get? path = e.tree.get? path → t.tree.get? path = e.tree.get? path) ∧
        (written = true → ∀ file ∈ files, t.tree.get? file.path = e.tree.get? file.path))
      (fun _ => e.Undoing) e.Undoing s := by
  induction files with
  | nil => exact fun s H => .pure ⟨H, fun _ h => h, fun _ file hfile => by cases hfile⟩
  | cons file files ih =>
    intro s H
    unfold rollbackKeyFiles
    obtain ⟨hkey, horiginal⟩ := hfiles file List.mem_cons_self
    have hget := FileTree.file?_eq_some.mp horiginal
    have hnext : e.Undoing { s with tree := s.tree.write file.path file.original } :=
      ⟨H.halfway.writeKey hkey.file.1 (.inl hget), H.rollingBack⟩
    have hkept (path : Path) (hpath : s.tree.get? path = e.tree.get? path) :
        (s.tree.write file.path file.original).get? path = e.tree.get? path := by
      by_cases heq : path = file.path
      · rw [heq, get?_write_self, hget]
      · rw [get?_write_of_ne heq, hpath]
    refine .bind (P := fun written t => e.Undoing t ∧
      (∀ path, s.tree.get? path = e.tree.get? path → t.tree.get? path = e.tree.get? path) ∧
      (written.isOk = true → t.tree.get? file.path = e.tree.get? file.path)) ?_ ?_
    · refine .attempt (.call (fun _ => ⟨H, fun _ h => h, fun h => by cases h⟩) H fun _ _ t hop => ?_)
      cases hop
      have hself := (get?_write_self s.tree file.path file.original).trans hget.symm
      exact ⟨hnext.halfway.recoverable, ⟨hnext, hkept, fun _ => hself⟩,
        fun _ => ⟨hnext, hkept, fun _ => hself⟩, hnext⟩
    rintro written t ⟨ht, hback, hwritten⟩
    refine .bind (ih (fun file hfile => hfiles file (List.mem_cons_of_mem _ hfile)) t ht) ?_
    rintro rest u ⟨hu, hback', hrest⟩
    refine .pure ⟨hu, fun path hpath => hback' path (hback path hpath), fun hall => ?_⟩
    rw [Bool.and_eq_true] at hall
    intro other hother
    rcases List.mem_cons.mp hother with rfl | hother
    · exact hback' _ (hwritten hall.1)
    · exact hrest hall.2 other hother

/-- The rollback puts everything back, or something of it fails. -/
theorem undo_wp {files : List KeyFile} (hold : validateSecret e.oldSecret "old" = .ok ())
    (hpersisted : persisted? e.tree = some e.oldSecret) (hfiles : e.Originals files)
    (H : e.Halfway s) :
    (undo e.oldSecret files).Wp e.Recoverable (fun _ => e.Settled) (fun _ => e.Settled) e.Settled s := by
  have hbegun : e.Undoing { s with rollingBack := true } :=
    ⟨⟨⟨H.recoverable.backup, H.recoverable.files, H.recoverable.secret, H.recoverable.rows⟩, H.backup,
      H.rows, H.committed, H.rolledBack⟩, rfl⟩
  unfold undo
  refine .bind (P := fun _ => e.Undoing) (.modify hbegun.halfway.recoverable hbegun) ?_
  rintro _ s H
  refine .bind (P := fun _ => e.Undoing) ?_ ?_
  · refine .attempt (.call (fun _ => H) H.settled fun _ _ t hop => ?_)
    cases hop
    have hnext : e.Undoing { s with transaction := none } :=
      ⟨⟨⟨H.halfway.recoverable.backup, H.halfway.recoverable.files, H.halfway.recoverable.secret,
        H.halfway.recoverable.rows⟩, H.halfway.backup, H.halfway.rows, H.halfway.committed,
        H.halfway.rolledBack⟩, H.rollingBack⟩
    exact ⟨hnext.halfway.recoverable, hnext, fun _ => hnext, hnext.settled⟩
  rintro first s H
  refine .bind ((rollbackKeyFiles_wp hfiles.mem s H).mono (fun _ _ h => h) (fun _ _ h => h.settled)
    fun _ h => h.settled) ?_
  rintro second s ⟨H, -, hback⟩
  refine .bind (P := fun third t => e.Undoing t ∧ t.database = s.database ∧ t.durable = s.durable ∧
    (∀ path ≠ secretPath, t.tree.get? path = s.tree.get? path) ∧
    (third.isOk = true → persisted? t.tree = some e.oldSecret)) ?_ ?_
  · have hsecret := persisted?_write hold s.tree
    have hnext : e.Undoing { s with tree := s.tree.write secretPath (secretFile e.oldSecret) } :=
      ⟨H.halfway.writeSecret (.inl (hsecret.trans hpersisted.symm)), H.rollingBack⟩
    refine .attempt (.call (fun _ => ⟨H, rfl, rfl, fun _ _ => rfl, fun h => by cases h⟩) H.settled
      fun _ _ t hop => ?_)
    cases hop
    have hothers (path : Path) (hpath : path ≠ secretPath) :
        (s.tree.write secretPath (secretFile e.oldSecret)).get? path = s.tree.get? path :=
      get?_write_of_ne hpath
    exact ⟨hnext.halfway.recoverable, ⟨hnext, rfl, rfl, hothers, fun _ => hsecret⟩,
      fun _ => ⟨hnext, rfl, rfl, hothers, fun _ => hsecret⟩, hnext.settled⟩
  rintro third t ⟨ht, hdatabase, hdurable, hothers, hthird⟩
  refine looks_refuseIf.bind_wp (fun _ => ht.settled) ht.settled fun _ hall => ?_
  rw [not_or, not_or, Bool.not_eq_false, Bool.not_eq_false, Bool.not_eq_false] at hall
  have hrecoverable : e.Recoverable { t with rolledBack := true } :=
    ⟨ht.halfway.recoverable.backup, ht.halfway.recoverable.files, ht.halfway.recoverable.secret,
      ht.halfway.recoverable.rows⟩
  refine .modify hrecoverable ⟨hrecoverable, ?_, ?_⟩
  · intro _ _ hcommitted
    rw [ht.halfway.committed] at hcommitted
    cases hcommitted
  · intro _ hnot
    refine ⟨fun path hpath => ?_, (hthird hall.2.2).trans hpersisted.symm, ht.halfway.rows hnot⟩
    have hsame : t.tree.get? path = s.tree.get? path := hothers path hpath
    rcases H.halfway.recoverable.files path hpath with hkept | ⟨_, _, userId, _, hkey, _⟩
    · exact hsame.trans hkept
    · obtain ⟨file, hfile, rfl⟩ := hfiles.complete userId path hkey
      exact hsame.trans (hback hall.2.1 file hfile)

theorem Done.settled (H : e.Done s) : e.Settled s where
  recoverable := H.recoverable
  rotated := fun _ _ _ => H.rotated
  unchanged := fun _ hdurable => by
    rw [H.durable] at hdurable
    cases hdurable

theorem undoUnlessCommitted_wp {files : List KeyFile}
    (hold : validateSecret e.oldSecret "old" = .ok ())
    (hpersisted : persisted? e.tree = some e.oldSecret) (hfiles : e.Originals files)
    (H : e.Halfway s) :
    (undoUnlessCommitted e.oldSecret files).Wp e.Recoverable (fun _ => e.Settled)
      (fun _ => e.Settled) e.Settled s := by
  unfold undoUnlessCommitted
  refine .bind (P := fun u t => u = t ∧ e.Halfway t) (.get ⟨rfl, H⟩) ?_
  rintro _ t ⟨rfl, ht⟩
  rw [ht.committed, if_neg Bool.false_ne_true]
  exact undo_wp hold hpersisted hfiles ht

theorem Done.undoUnlessCommitted_wp {files : List KeyFile} (H : e.Done s) :
    (undoUnlessCommitted e.oldSecret files).Wp e.Recoverable (fun _ => e.Done)
      (fun _ => e.Settled) e.Settled s := by
  unfold undoUnlessCommitted
  refine .bind (P := fun u t => u = t ∧ e.Done t) (.get ⟨rfl, H⟩) ?_
  rintro _ t ⟨rfl, ht⟩
  rw [ht.committed, if_pos rfl]
  exact .pure ht

/-! ## The rotation -/

theorem Settled.aside (H : e.Settled s) (staging : Dict Nat Bytes) (transaction : Option Database) :
    e.Settled { s with staging, transaction } where
  recoverable := ⟨H.recoverable.backup, H.recoverable.files, H.recoverable.secret, H.recoverable.rows⟩
  rotated := fun hrolled hdurable hcommitted =>
    have hrotated := H.rotated hrolled hdurable hcommitted
    ⟨hrotated.keys, hrotated.others, hrotated.secret, hrotated.rows, hrotated.complete⟩
  unchanged := fun hrolled hdurable =>
    have hunchanged := H.unchanged hrolled hdurable
    ⟨hunchanged.files, hunchanged.secret, hunchanged.rows⟩

theorem Done.aside (H : e.Done s) (staging : Dict Nat Bytes) (transaction : Option Database) :
    e.Done { s with staging, transaction } where
  backup := H.backup
  rotated := ⟨H.rotated.keys, H.rotated.others, H.rotated.secret, H.rotated.rows, H.rotated.complete⟩
  recoverable := ⟨H.recoverable.backup, H.recoverable.files, H.recoverable.secret, H.recoverable.rows⟩
  durable := H.durable
  committed := H.committed

/-- A last call that touches neither the files nor the rows. -/
theorem keeps_aside {staging : State → Dict Nat Bytes} {transaction : State → Option Database} :
    Keeps e.Recoverable e.Settled (call fun _ s =>
      .ok (⟨⟩, { s with staging := staging s, transaction := transaction s }) : Rotating PUnit) := by
  refine .call (fun _ H => H.recoverable) fun _ s _ _ H hop => ?_
  cases hop
  exact H.aside _ _

theorem Done.aside_wp (H : e.Done s) {staging : State → Dict Nat Bytes}
    {transaction : State → Option Database} :
    (call fun _ s => .ok (⟨⟩, { s with staging := staging s, transaction := transaction s }) :
      Rotating PUnit).Wp e.Recoverable (fun _ => e.Done) (fun _ => e.Settled) e.Settled s := by
  refine .call (fun _ => H.settled) H.settled fun _ _ _ hop => ?_
  cases hop
  have hdone := H.aside (staging s) (transaction s)
  exact ⟨hdone.recoverable, hdone, fun _ => hdone.settled, hdone.settled⟩

/-- What the checks before the first change have found. -/
structure Checked (e : Setting) (found : List (String × Path)) (files : List KeyFile) : Prop where
  old : validateSecret e.oldSecret "old" = .ok ()
  new : validateSecret e.newSecret "new" = .ok ()
  persisted : persisted? e.tree = some e.oldSecret
  found : storedKeyFiles e.storage e.skips e.tree = .ok found
  originals : e.Originals files

variable {found : List (String × Path)} {files : List KeyFile}

theorem stageAndApply_wp (C : e.Checked found files) {stagedTotp stagedGithub : List Staged}
    (H : e.Ready s) (htransaction : s.transaction = some e.database)
    (hrows : e.TransactionAt e.database (stagedTotp ++ stagedGithub)) :
    (stageAndApply e.cipher e.oldSecret e.newSecret files stagedTotp stagedGithub).Wp e.Recoverable
      (fun _ => e.Done) (fun _ => e.Settled) e.Settled s := by
  unfold stageAndApply
  refine .bind ((stageKeys_wp files 0 _ s H htransaction).mono (fun _ _ h => h)
    (fun _ _ h => h.fresh.settled) fun _ h => h.fresh.settled) ?_
  rintro staged t ⟨ht, htransaction, -, hstaged⟩
  have hall : e.StagesAll t.staging staged := by
    constructor
    · intro file hfile
      obtain ⟨original, hmem, hpath, payload, hget, hrenewed⟩ := exists_left_of_mem hstaged hfile
      obtain ⟨hkey, horiginal⟩ := C.originals.mem original hmem
      exact ⟨payload, hget, original.userId, original.original, hpath ▸ hkey, hpath ▸ horiginal,
        hrenewed⟩
    · intro userId path hkey
      obtain ⟨original, hmem, rfl⟩ := C.originals.complete userId path hkey
      obtain ⟨file, hfile, hpath, -⟩ := exists_right_of_mem hstaged hmem
      exact ⟨file.2, hpath ▸ hfile⟩
  have hrows' : t.rows = e.database := by
    rw [State.rows, htransaction]
    rfl
  refine .finallyDo (apply_wp C.found C.new ⟨ht.fresh.halfway ht.backup, ht.fresh.durable, rfl⟩
    (hrows' ▸ hrows) hall) ?_ ?_ ?_
  · exact fun _ t ht => ht.undoUnlessCommitted_wp
  · exact fun _ t ht => undoUnlessCommitted_wp C.old C.persisted C.originals ht
  · exact fun t ht => undoUnlessCommitted_wp C.old C.persisted C.originals ht

theorem rotateStores_wp (C : e.Checked found files) (H : e.Ready s) :
    (rotateStores e.cipher e.oldSecret e.newSecret files).Wp e.Recoverable
      (fun _ => e.Done) (fun _ => e.Settled) e.Settled s := by
  unfold rotateStores
  refine .bind ((stageTotpRotation_wp H).mono (fun _ _ h => h) (fun _ _ h => h.fresh.settled)
    fun _ h => h.fresh.settled) ?_
  rintro _ t ⟨⟨ht, htransaction⟩, authenticators, enrollments, rfl, ha, hb⟩
  refine (looks_stageGithubRotation ht htransaction).bind_wp (fun _ => ht.fresh.settled)
    ht.fresh.settled fun github hg => ?_
  refine .bind (P := fun _ u => u = { t with staging := ∅ }) ?_ ?_
  · refine .call (fun _ => ht.fresh.settled) ht.fresh.settled fun _ _ u hop => ?_
    cases hop
    have hready := ht.staging ∅
    exact ⟨hready.fresh.recoverable, rfl, fun _ => hready.fresh.settled, hready.fresh.settled⟩
  rintro _ _ rfl
  refine .bind (P := fun _ => e.Done) (.finallyDo (stageAndApply_wp C (ht.staging ∅) htransaction
    (transactionAt_start ha hb hg)) ?_ ?_ ?_) fun _ _ h => .pure h
  · exact fun _ t ht => ht.aside_wp
  · exact fun _ t ht => keeps_aside t ht
  · exact fun t ht => keeps_aside t ht

/-- The whole rotation. -/
theorem rotateSecretLocked_wp :
    (rotateSecretLocked e.cipher e.storage e.skips e.oldSecret e.newSecret).Wp e.Recoverable
      (fun _ => e.Done) (fun _ => e.Settled) e.Settled e.start := by
  have hfresh : e.Fresh e.start := ⟨rfl, rfl, rfl, rfl, rfl⟩
  have hI := hfresh.recoverable
  have hR := hfresh.settled
  unfold rotateSecretLocked
  refine looks_ofExcept.bind_wp (fun _ => hR) hR fun _ hold => ?_
  refine looks_ofExcept.bind_wp (fun _ => hR) hR fun _ hnew => ?_
  refine looks_ofExcept.bind_wp (fun _ => hR) hR fun _ _ => ?_
  refine looks_refuseIf.bind_wp (fun _ => hR) hR fun _ _ => ?_
  refine (looks_readTree hI).bind_wp (fun _ => hR) hR fun persisted hpersisted => ?_
  refine looks_ofExcept.bind_wp (fun _ => hR) hR fun matching hmatching => ?_
  refine looks_refuseIf.bind_wp (fun _ => hR) hR fun _ hmatched => ?_
  refine (looks_readTree hI).bind_wp (fun _ => hR) hR fun found hfound => ?_
  refine (looks_readOriginals hfresh found).bind_wp (fun _ => hR) hR fun files hfiles => ?_
  have hsame : persisted = e.oldSecret := by
    unfold compareDigest at hmatching
    split at hmatching
    · cases hmatching
      exact of_decide_eq_true (Bool.not_eq_false _ ▸ hmatched)
    · cases hmatching
  have hchecked : e.Checked found files := by
    refine ⟨hold, hnew, toOption_eq_some.mpr (hsame ▸ hpersisted), hfound, ?_, ?_⟩
    · intro file hfile
      obtain ⟨place, hplace, huser, hpath, horiginal⟩ := exists_left_of_mem hfiles hfile
      rw [huser, hpath]
      exact ⟨⟨found, hfound, hplace⟩, horiginal⟩
    · intro userId path hkey
      obtain ⟨_, hfound', hplace⟩ := hkey
      obtain rfl : found = _ := Except.ok.inj (hfound.symm.trans hfound')
      obtain ⟨file, hfile, -, hpath, -⟩ := exists_right_of_mem hfiles hplace
      exact ⟨file, hfile, hpath⟩
  refine .bind (P := fun _ => e.Ready) ?_ ?_
  · refine .call (fun _ => hR) hR fun _ _ _ hop => ?_
    cases hop
    have hready : e.Ready { e.start with backup := some (e.tree, e.database) } :=
      ⟨⟨rfl, rfl, rfl, rfl, rfl⟩, rfl⟩
    exact ⟨hready.fresh.recoverable, hready, fun _ => hready.fresh.settled, hready.fresh.settled⟩
  rintro _ s H
  refine .bind (P := fun _ => e.Ready) ?_ ?_
  · refine .call (fun _ => H.fresh.settled) H.fresh.settled fun _ _ _ hop => ?_
    cases hop
    exact ⟨H.fresh.recoverable, H, fun _ => H.fresh.settled, H.fresh.settled⟩
  rintro _ s H
  refine .bind (P := fun _ => e.Done) (.finallyDo (rotateStores_wp hchecked H) ?_ ?_ ?_)
    fun _ _ h => .pure h
  · exact fun _ t ht => ht.aside_wp
  · exact fun _ t ht => keeps_aside t ht
  · exact fun t ht => keeps_aside t ht

/-- What is known of the states a rotation passes through, and of the one in which it ends. -/
theorem rotateSecretLocked_settles (script : Script Error) :
    let run := rotateSecretLocked e.cipher e.storage e.skips e.oldSecret e.newSecret script ⟨e.start, [], 0⟩
    (∀ s ∈ run.2.visited, e.Recoverable s) ∧ (∀ report, run.1 = .ok report → e.Rotated run.2.state) ∧
      e.Settled run.2.state := by
  have hends := rotateSecretLocked_wp (e := e) script ⟨e.start, [], 0⟩ rfl fun s hs => by cases hs
  dsimp only
  generalize rotateSecretLocked e.cipher e.storage e.skips e.oldSecret e.newSecret script ⟨e.start, [], 0⟩ = run
    at hends
  obtain ⟨result, w⟩ := run
  cases result with
  | ok report =>
    obtain ⟨hvisited, hdone⟩ := hends
    exact ⟨hvisited, fun _ _ => hdone.rotated, hdone.settled⟩
  | raised error =>
    obtain ⟨hvisited, hsettled⟩ := hends
    exact ⟨hvisited, (fun _ h => by cases h), hsettled⟩
  | aborted =>
    obtain ⟨hvisited, hsettled⟩ := hends
    exact ⟨hvisited, (fun _ h => by cases h), hsettled⟩

end Setting

/-- However the calls of a rotation turn out: at every moment a backup of the old state exists if
anything has changed, each file other than that of the secret is what it was or a key under the new
secret, and the rows are the old ones or all renewed. A rotation that returns has put every key and every
row under the new secret. One that does not return has done the same if its commit took effect and
returned, and otherwise has left everything as it was, unless its rollback or its commit fails halfway. -/
theorem rotation_all_or_nothing (e : Setting) (script : Script Error) :
    let run := rotateSecretLocked e.cipher e.storage e.skips e.oldSecret e.newSecret script ⟨e.start, [], 0⟩
    (∀ s ∈ run.2.visited, e.Recoverable s) ∧
    (∀ report, run.1 = .ok report → e.Rotated run.2.state) ∧
    ((run.2.state.rollingBack = true → run.2.state.rolledBack = true) →
      (run.2.state.durable = true → run.2.state.committed = true) →
      (run.2.state.durable = true → e.Rotated run.2.state) ∧
        (run.2.state.durable = false → e.Unchanged run.2.state)) := by
  obtain ⟨hvisited, hreturned, hsettled⟩ := Setting.rotateSecretLocked_settles (e := e) script
  refine ⟨hvisited, hreturned, fun hrolled hcommitted => ⟨fun hdurable => ?_, hsettled.unchanged hrolled⟩⟩
  exact hsettled.rotated hrolled hdurable (hcommitted hdurable)

/-- A rotation that fails before its commit has left the three stores as they were, unless its rollback
fails; one that returns, or fails behind its commit, has moved all three. -/
theorem rotation_moves_together (e : Setting) (script : Script Error) :
    let run := rotateSecretLocked e.cipher e.storage e.skips e.oldSecret e.newSecret script ⟨e.start, [], 0⟩
    (∀ report, run.1 = .ok report → e.Rotated run.2.state) ∧
    ((∀ report, run.1 ≠ .ok report) → (run.2.state.rollingBack = true → run.2.state.rolledBack = true) →
      (run.2.state.durable = false → e.Unchanged run.2.state) ∧
        (run.2.state.durable = true → run.2.state.committed = true → e.Rotated run.2.state)) := by
  obtain ⟨-, hreturned, hsettled⟩ := Setting.rotateSecretLocked_settles (e := e) script
  exact ⟨hreturned, fun _ hrolled => ⟨hsettled.unchanged hrolled, hsettled.rotated hrolled⟩⟩

/-- A cipher that puts the secret before the plaintext. -/
def openCipher : Cipher where
  isEncrypted _ := true
  decryptKey secret _ ciphertext :=
    if (encode secret).isPrefixOf ciphertext then some (ciphertext.drop (encode secret).length) else none
  encryptKey secret _ _ plaintext := encode secret ++ plaintext
  decryptTotpSecret _ secret ciphertext := if ciphertext = encode secret then some "totp" else none
  encryptTotpSecret _ secret _ _ := encode secret
  decryptClientSecret _ _ := none
  encryptClientSecret secret _ _ := encode secret

def openTree : FileTree Bytes :=
  ⟨[([], .dir true), (["secret_key"], .file (encode "old\n")), (["users"], .dir true),
    (["users", "user_7"], .dir true), (["users", "user_7", "keys"], .dir true),
    (["users", "user_7", "keys", "keys.json"], .file []),
    (["users", "user_7", "keys", "k"], .file (encode "oldKEY"))], by decide⟩

/-- One key file and one TOTP row. -/
def openSetting : Setting where
  cipher := openCipher
  storage := ⟨(· = "7"), fun _ => false, fun _ => .ok [some "k"]⟩
  skips := fun _ => false
  oldSecret := "old"
  newSecret := "new"
  tree := openTree
  database table := if table = .totpAuthenticators then some [⟨1, 7, some (encode "old")⟩] else none

/-- Closing the connection raises, behind the commit: the rotation raises, and all is moved. -/
theorem rotated_though_raised :
    let run := rotateSecretLocked openSetting.cipher openSetting.storage openSetting.skips "old" "new"
      (fun n => if n = 21 then ⟨.raises false .other, 0⟩ else ⟨.none, 0⟩) ⟨openSetting.start, [], 0⟩
    (run.1 matches .raised .other) ∧ run.2.state.rollingBack = false ∧
      persisted? openTree = some "old" ∧ persisted? run.2.state.tree = some "new" ∧
      openTree.file? ["users", "user_7", "keys", "k"] = some (encode "oldKEY") ∧
      run.2.state.tree.file? ["users", "user_7", "keys", "k"] = some (encode "newKEY") ∧
      run.2.state.database .totpAuthenticators = some [⟨1, 7, some (encode "new")⟩] := by
  decide +kernel

/-- A rotation that nothing goes wrong in returns. -/
example :
    hasReturned (rotateSecretLocked openSetting.cipher openSetting.storage openSetting.skips "old" "new"
      (fun _ => ⟨.none, 0⟩) ⟨openSetting.start, [], 0⟩)
      (fun report s => report = ⟨1, 1, 0⟩ ∧ persisted? s.tree = some "new") = true := by
  decide +kernel

end WebSSH.Rotation
