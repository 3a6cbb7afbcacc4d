import WebSSH.Maintenance.Restore

/-!
# A restore revives no login

While the status file covers a restore, a server that is started repeats the rollback and its
sanitizing or stays in maintenance. A restore on the command line has no status of its own, and the
web restore leaves its status before its emergency rollback in two places.
-/

namespace WebSSH.Maintenance
open Lib Function

/-- The next start of the server does not serve requests before it has rolled back. -/
def StatusFile.Covers : StatusFile → Prop
  | missing => False
  | unreadable => True
  | document d => d.state = .inProgress ∨ d.state = .rollbackFailed

/-- A row of a database that was replaced is in the database. -/
def Revived (s : State) : Prop := ∃ row ∈ s.replaced, row ∈ s.data.rows

/-- The call has its effect. -/
def TakesEffect : Fault Unit → Prop
  | .none => True
  | .raises tookEffect _ => tookEffect = true
  | .aborts tookEffect => tookEffect = true

/-- The calls from `n` to before `m` return. -/
def Return (script : Script Unit) (n m : Nat) : Prop :=
  ∀ i, n ≤ i → i < m → (script i).fault = .none

/-- A restore whose first call is `n` replaces the database, by call `n + 1`, and does not come to the
commit of the sanitizer, call `n + 4`. -/
def StopsBetween (script : Script Unit) (n : Nat) : Prop :=
  Return script n (n + 1) ∧ TakesEffect (script (n + 1)).fault ∧
    ¬(Return script (n + 1) (n + 4) ∧ TakesEffect (script (n + 4)).fault)

/-- The emergency rollback of a web restore begins at call `n`, without `in_progress`. -/
def RollsBackUncovered (script : Script Unit) (n : Nat) : Prop :=
  -- `mark_in_progress` raises before it has replaced the status
  Return script 0 4 ∧ (script 4).fault = .raises false () ∧ n = 5 ∨
  -- `mark_succeeded` raises after it has
  Return script 0 11 ∧ (script 11).fault = .raises true () ∧ n = 12 ∨
  -- the security log raises
  Return script 0 12 ∧ (∃ tookEffect, (script 12).fault = .raises tookEffect ()) ∧ n = 13

/-- A restore stops between the replacement of the database and its sanitizing, and no status says
so. -/
def Uncovered (w : World) : Action → Prop
  | .cliRestore _ script =>
    ¬w.state.file.Covers ∧ Return script 0 1 ∧ StopsBetween script 1
  | .webRestore _ _ script => ∃ n, RollsBackUncovered script n ∧ StopsBetween script n
  | _ => False

/-! ## Calls -/

section
variable {I : State → Prop} {Q : Unit → State → Prop} {R : Unit → State → Prop} {A : State → Prop}
  {s : State}

theorem external_wp (hQ : Q () s) (hR : R () s) (hA : A s) (hI : I s) :
    external.Wp I Q R A s :=
  .call (fun _ => hR) hA fun _ _ _ hop => by
    cases hop
    exact ⟨hI, hQ, fun _ => hR, hA⟩

theorem effect_wp {f : State → State} (hR : R () s) (hA : A s) (hI : I (f s)) (hQ : Q () (f s))
    (hR' : R () (f s)) (hA' : A (f s)) : (effect f).Wp I Q R A s :=
  .call (fun _ => hR) hA fun _ _ _ hop => by
    cases hop
    exact ⟨hI, hQ, fun _ => hR', hA'⟩

end

/-- Nothing has to hold on the way. -/
abbrev Anyway : State → Prop := fun _ => True

theorem keeps_effect {K : State → Prop} {f : State → State} (h : ∀ s, K s → K (f s)) :
    Program.Keeps Anyway K (effect f) := fun s hs =>
  effect_wp hs hs trivial (h s hs) (h s hs) (h s hs)

theorem keeps_external {K : State → Prop} : Program.Keeps Anyway K external := fun _ hs =>
  external_wp hs hs hs trivial

/-! ## The data directory and the status -/

/-- The status is the same. -/
structure SameStatus (s t : State) : Prop where
  file : t.file = s.file
  cached : t.cached = s.cached

/-- The rows are the same. -/
structure SameRows (s t : State) : Prop where
  data : t.data = s.data
  replaced : t.replaced = s.replaced

namespace SameRows

variable {s t u : State}

theorem refl : SameRows s s := ⟨rfl, rfl⟩

theorem trans (h₁ : SameRows s t) (h₂ : SameRows t u) : SameRows s u :=
  ⟨h₂.data.trans h₁.data, h₂.replaced.trans h₁.replaced⟩

theorem revived (H : SameRows s t) : Revived t ↔ Revived s := by
  rw [Revived, Revived, H.data, H.replaced]

end SameRows

theorem restoreBackup_keeps (s : State) (archive : Option Data) :
    Program.Keeps Anyway (SameStatus s) (restoreBackup archive) := by
  refine .bind keeps_external fun _ => ?_
  cases archive with
  | none => exact .raise
  | some archive =>
    intro t ht
    refine .bind (.get (Q := fun before u => before = t ∧ u = t) ⟨rfl, rfl⟩) ?_
    rintro _ _ ⟨rfl, rfl⟩
    refine .bind (P := fun _ => SameStatus s) (.handle (E := fun _ => SameStatus s) ?_ ?_)
      fun _ u hu => keeps_external u hu
    · refine Program.Keeps.bind (keeps_effect fun u hu => ⟨hu.file, hu.cached⟩) (fun _ => ?_) _ ht
      exact keeps_effect fun u hu => ⟨hu.file, hu.cached⟩
    · intro _ u hu
      refine Program.Keeps.bind (.attempt (keeps_effect fun u hu => ⟨hu.file, hu.cached⟩))
        (fun _ => ?_) u hu
      refine .bind (.attempt (keeps_effect fun u hu => ⟨hu.file, hu.cached⟩)) fun _ => ?_
      exact .raise

/-- When all has been done, the rows are gone. -/
theorem restoreAndSanitize_wp (archive : Option Data) (s : State) :
    (restoreAndSanitize archive).Wp Anyway (fun _ t => SameStatus s t ∧ ¬Revived t)
      (fun _ => SameStatus s) (SameStatus s) s := by
  refine .bind (restoreBackup_keeps s archive s ⟨rfl, rfl⟩) fun _ t ht => ?_
  refine .bind (P := fun _ u => SameStatus s u ∧ u.data.rows = []) ?_ fun _ u hu => ?_
  · exact effect_wp ht ht trivial ⟨⟨ht.file, ht.cached⟩, rfl⟩ ⟨ht.file, ht.cached⟩
      ⟨ht.file, ht.cached⟩
  · have hsame : SameStatus s (rotateEpoch u) := ⟨hu.1.file, hu.1.cached⟩
    refine effect_wp hu.1 hu.1 trivial ⟨hsame, ?_⟩ hsame hsame
    rintro ⟨row, -, hrow⟩
    change row ∈ u.data.rows at hrow
    rw [hu.2] at hrow
    cases hrow

/-! ## The status file -/

theorem write_wp (document : Document) (s : State) :
    (write document).Wp Anyway
      (fun _ t => SameRows s t ∧ t.file = .document document ∧ t.cached = some document)
      (fun _ t => SameRows s t ∧ (t.file = s.file ∨ t.file = .document document))
      (fun t => SameRows s t ∧ (t.file = s.file ∨ t.file = .document document)) s := by
  refine .bind (P := fun _ t => SameRows s t ∧ t.file = .document document) ?_ fun _ t ht => ?_
  · exact effect_wp ⟨.refl, .inl rfl⟩ ⟨.refl, .inl rfl⟩ trivial ⟨⟨rfl, rfl⟩, rfl⟩
      ⟨⟨rfl, rfl⟩, .inr rfl⟩ ⟨⟨rfl, rfl⟩, .inr rfl⟩
  · exact .modify trivial ⟨⟨ht.1.data, ht.1.replaced⟩, ht.2, rfl⟩

/-- What `_read` returns in a process that keeps no document. -/
def Reads (s : State) : Option Document → Prop
  | none => s.file = .missing
  | some document => s.file = .document document ∨
    s.file ≠ .missing ∧ document = unreadableStatus

theorem readFile_spec (n : Nat) (s : State) :
    SameRows s (readFile n s).2 ∧ (readFile n s).2.file = s.file ∧
      ((readFile n s).2.cached = s.cached ∨ (readFile n s).2.cached = (readFile n s).1) ∧
      Reads s (readFile n s).1 := by
  unfold readFile
  split
  · rename_i hfile
    exact ⟨.refl, rfl, .inl rfl, hfile⟩
  · rename_i document hfile
    exact ⟨⟨rfl, rfl⟩, rfl, .inr rfl, .inl hfile⟩
  · rename_i hmissing _
    exact ⟨.refl, rfl, .inl rfl, .inr ⟨fun h => hmissing h, rfl⟩⟩

theorem read_wp (s : State) :
    read.Wp Anyway
      (fun r t => SameRows s t ∧ t.file = s.file ∧ (t.cached = s.cached ∨ t.cached = r) ∧
        (r = s.cached ∧ r.isSome ∨ s.cached = none ∧ Reads s r))
      (fun _ t => SameRows s t ∧ t.file = s.file) (fun t => SameRows s t ∧ t.file = s.file) s := by
  refine .bind (.get (Q := fun r t => r = s ∧ t = s) ⟨rfl, rfl⟩) fun r t h => ?_
  rw [h.1, h.2]
  cases hcached : s.cached with
  | some document => exact .pure ⟨.refl, rfl, .inl hcached, .inl ⟨rfl, rfl⟩⟩
  | none =>
    refine .call (fun _ => ⟨.refl, rfl⟩) ⟨.refl, rfl⟩ fun n r t hop => ?_
    have hread : readFile n s = (r, t) := Except.ok.inj hop
    have hspec := readFile_spec n s
    rw [hread, hcached] at hspec
    exact ⟨trivial, ⟨hspec.1, hspec.2.1, hspec.2.2.1, .inr ⟨rfl, hspec.2.2.2⟩⟩,
      fun _ => ⟨hspec.1, hspec.2.1⟩, hspec.1, hspec.2.1⟩

/-- After `mark_failed` with `rollback_failed` the status covers the directory, or is as it was. -/
theorem markRollbackFailed_wp (operationId message : String) (s : State) :
    (markRollbackFailed operationId message).Wp Anyway
      (fun _ t => SameRows s t ∧ t.file.Covers ∧ ∃ d, t.cached = some d ∧ d.state = .rollbackFailed)
      (fun _ t => SameRows s t ∧ (t.file = s.file ∨ t.file.Covers))
      (fun t => SameRows s t ∧ (t.file = s.file ∨ t.file.Covers)) s := by
  refine .bind ((read_wp s).mono (fun _ _ h => h) (fun _ _ h => ⟨h.1, .inl h.2⟩)
    fun _ h => ⟨h.1, .inl h.2⟩) fun r t ht => ?_
  have hout {u : State} {d : Document} (hd : d.state = .rollbackFailed)
      (h : SameRows t u ∧ (u.file = t.file ∨ u.file = .document d)) :
      SameRows s u ∧ (u.file = s.file ∨ u.file.Covers) :=
    ⟨ht.1.trans h.1, h.2.imp (fun h => h.trans ht.2.1) fun h => by rw [h]; exact .inr hd⟩
  refine (write_wp _ t).mono (fun _ u hu => ?_) (fun _ u hu => ?_) fun u hu => ?_
  · exact ⟨ht.1.trans hu.1, by rw [hu.2.1]; exact .inr rfl, _, hu.2.2, rfl⟩
  · exact hout rfl hu
  · exact hout rfl hu

variable (fingerprint : String)

/-! ## The start of the server -/

/-- A revived row is covered by the status file and by what the process keeps of it. -/
structure Guarded (s : State) : Prop where
  file : Revived s → s.file.Covers
  cached : Revived s → ∀ d, s.cached = some d → d.state.isActive = true

theorem Guarded.of_covers {s : State} (hfile : s.file.Covers)
    (hcached : ∀ d, s.cached = some d → d.state.isActive = true) : Guarded s :=
  ⟨fun _ => hfile, fun _ => hcached⟩

theorem Guarded.of_not {s : State} (h : ¬Revived s) : Guarded s := ⟨fun hr => absurd hr h,
  fun hr => absurd hr h⟩

/-- Maintenance is active wherever a row is revived. -/
theorem isActive_wp {s : State} (H : Guarded s) :
    isActive.Wp Anyway (fun active t => SameRows s t ∧ t.file = s.file ∧ (Revived s → active = true))
      (fun _ t => SameRows s t ∧ t.file = s.file) (fun t => SameRows s t ∧ t.file = s.file) s := by
  refine .bind (read_wp s) fun r t ht => ?_
  refine .pure ⟨ht.1, ht.2.1, fun hrevived => ?_⟩
  rcases ht.2.2.2 with ⟨hr, hsome⟩ | ⟨-, hreads⟩
  · obtain ⟨d, rfl⟩ := Option.isSome_iff_exists.mp hsome
    exact H.cached hrevived d hr.symm
  · have hcovers := H.file hrevived
    cases r with
    | none =>
      rw [show s.file = .missing from hreads] at hcovers
      exact hcovers.elim
    | some d =>
      rcases hreads with hreads | ⟨-, rfl⟩
      · rw [hreads] at hcovers
        rw [Option.any_some]
        rcases hcovers with h | h
        · rw [h]
          rfl
        · rw [h]
          rfl
      · rfl

/-- The status file covers the revived rows. -/
def FileGuarded (s : State) : Prop := Revived s → s.file.Covers

theorem FileGuarded.of_same {s t : State} (H : FileGuarded s) (hrows : SameRows s t)
    (hfile : t.file = s.file ∨ t.file.Covers) : FileGuarded t := by
  intro hrevived
  rcases hfile with h | h
  · rw [h]
    exact H (hrows.revived.mp hrevived)
  · exact h

theorem Guarded.fileGuarded {s : State} (H : Guarded s) : FileGuarded s := H.file

/-- `mark_failed` with `rollback_failed` ends in maintenance or raises. -/
theorem markRollbackFailed_guarded (operationId message : String) {s : State} (H : FileGuarded s) :
    (markRollbackFailed operationId message).Wp Anyway (fun _ => Guarded) (fun _ => FileGuarded)
      FileGuarded s := by
  refine (markRollbackFailed_wp operationId message s).mono (fun _ t ht => ?_)
    (fun _ t ht => H.of_same ht.1 ht.2) fun t ht => H.of_same ht.1 ht.2
  obtain ⟨d, hcached, hd⟩ := ht.2.2
  refine .of_covers ht.2.1 fun d' h => ?_
  cases hcached.symm.trans h
  rw [hd]
  rfl

/-- Where no row is revived the status may be anything. -/
theorem write_guarded (document : Document) {s : State} (h : ¬Revived s) :
    (write document).Wp Anyway (fun _ => Guarded) (fun _ => FileGuarded) FileGuarded s := by
  have hnot {t : State} (hrows : SameRows s t) : ¬Revived t := fun hr => h (hrows.revived.mp hr)
  exact (write_wp document s).mono (fun _ _ ht => .of_not (hnot ht.1))
    (fun _ _ ht hr => absurd hr (hnot ht.1)) fun _ ht hr => absurd hr (hnot ht.1)

/-- The automatic recovery, under a status that covers the directory. -/
theorem recover_wp (relative operationId : String) {s : State} (h : s.file.Covers) :
    (Program.handle
      (do
        external
        let s ← Program.get
        restoreAndSanitize (s.rollback relative)
        markFailed operationId "Interrupted restore rolled back automatically")
      (fun _ => markRollbackFailed operationId
        "Interrupted restore rollback failed; use the CLI recovery path")).Wp Anyway
      (fun _ => Guarded) (fun _ => FileGuarded) FileGuarded s := by
  refine .handle (E := fun _ => FileGuarded) ?_ fun _ t ht => markRollbackFailed_guarded _ _ ht
  have hcovered {t : State} (ht : SameStatus s t) : FileGuarded t := fun _ => ht.file ▸ h
  refine .bind (P := fun _ t => t = s) (external_wp rfl (fun _ => h) (fun _ => h) trivial) ?_
  intro _ t ht
  rw [ht]
  refine .bind (.get (Q := fun _ u => u = s) rfl) fun u v hv => ?_
  rw [hv]
  refine .bind ((restoreAndSanitize_wp _ s).mono (fun _ _ h => h) (fun _ _ h => hcovered h)
    fun _ h => hcovered h) fun _ v hv => write_guarded _ hv.2

theorem recoverInterruptedRestore_wp {s : State} (hcached : s.cached = none) (H : FileGuarded s) :
    (recoverInterruptedRestore fingerprint).Wp Anyway (fun _ => Guarded) (fun _ => FileGuarded)
      FileGuarded s := by
  refine .bind ((read_wp s).mono (fun _ _ h => h) (fun _ _ h => H.of_same h.1 (.inl h.2))
    fun _ h => H.of_same h.1 (.inl h.2)) fun r t ht => ?_
  obtain ⟨hrows, hfile, hkeeps, hr⟩ := ht
  have hreads : Reads s r := by
    rcases hr with ⟨hr, hsome⟩ | ⟨-, hreads⟩
    · rw [hr, hcached] at hsome
      cases hsome
    · exact hreads
  have Ht : FileGuarded t := H.of_same hrows (.inl hfile)
  cases r with
  | none =>
    refine .pure (.of_not fun hrevived => ?_)
    have hcovers := Ht hrevived
    rw [hfile, show s.file = .missing from hreads] at hcovers
    exact hcovers
  | some d =>
    dsimp only
    split
    · rename_i hstate
      have hdocument : t.file = .document d := by
        rcases hreads with hreads | ⟨-, rfl⟩
        · exact hfile.trans hreads
        · exact absurd hstate (by decide)
      split
      · exact markRollbackFailed_guarded _ _ Ht
      · split
        · rename_i hpreparing
          -- Nothing has been replaced yet.
          refine write_guarded _ fun hrevived => ?_
          have hcovers := Ht hrevived
          rw [hdocument] at hcovers
          rcases hcovers with h | h
          · exact absurd (hpreparing.symm.trans h) (by decide)
          · exact absurd (hpreparing.symm.trans h) (by decide)
        · rename_i hpreparing
          have hcovers : t.file.Covers := by
            rw [hdocument]
            exact .inl (hstate.resolve_left hpreparing)
          split
          · exact markRollbackFailed_guarded _ _ Ht
          · exact recover_wp _ _ hcovers
    · refine .pure ⟨Ht, fun hrevived d' hd' => ?_⟩
      have hd : d' = d := by
        rcases hkeeps with hkeeps | hkeeps
        · rw [hkeeps, hcached] at hd'
          cases hd'
        · rw [hkeeps] at hd'
          exact (Option.some.inj hd').symm
      subst hd
      rcases hreads with hreads | ⟨-, rfl⟩
      · have hcovers := Ht hrevived
        rw [hfile, hreads] at hcovers
        rcases hcovers with h | h
        · rw [h]
          rfl
        · rw [h]
          rfl
      · rfl

/-! ## Programs that touch no rows -/

/-- No row is revived. -/
def Clean (s : State) : Prop := ¬Revived s

theorem Clean.of_same {s t : State} (H : Clean s) (h : SameRows s t) : Clean t :=
  fun hrevived => H (h.revived.mp hrevived)

theorem Clean.of_rows {s t : State} (H : Clean s) (hreplaced : t.replaced = s.replaced)
    (hrows : t.data.rows = s.data.rows) : Clean t := fun ⟨row, h, hrow⟩ =>
  H ⟨row, hreplaced ▸ h, hrows ▸ hrow⟩

theorem Clean.fileGuarded {s : State} (H : Clean s) : FileGuarded s := fun h => absurd h H

theorem keeps_read : Program.Keeps Anyway Clean read := fun s hs =>
  (read_wp s).mono (fun _ _ h => hs.of_same h.1) (fun _ _ h => hs.of_same h.1)
    fun _ h => hs.of_same h.1

theorem keeps_write (document : Document) : Program.Keeps Anyway Clean (write document) :=
  fun s hs => (write_wp document s).mono (fun _ _ h => hs.of_same h.1) (fun _ _ h => hs.of_same h.1)
    fun _ h => hs.of_same h.1

theorem keeps_isActive : Program.Keeps Anyway Clean isActive := .bind keeps_read fun _ => .pure

theorem keeps_cleanupOrphans : Program.Keeps Anyway Clean cleanupOrphans := by
  refine .bind (.bind keeps_read fun r => ?_) fun _ => .bind keeps_isActive fun _ => ?_
  · cases r with
    | none => exact .pure
    | some _ => exact .pure
  · split
    · exact .pure
    · exact keeps_effect fun _ hs => hs

theorem keeps_remove (operationId : String) : Program.Keeps Anyway Clean (remove operationId) :=
  keeps_effect fun _ hs => hs

theorem keeps_finish {K : State → Prop} {result : Except Unit Unit} {cleanup : Run Unit}
    (h : Program.Keeps Anyway K cleanup) : Program.Keeps Anyway K (finish result cleanup) := by
  refine .bind h fun _ => ?_
  cases result with
  | ok => exact .pure
  | error => exact .raise

/-- The end of a web restore that has not left a revived row. -/
theorem keeps_failed (operationId message : String) :
    Program.Keeps Anyway Clean (do
      let result ← (do
        markFailed operationId message
        external).attempt
      finish result (remove operationId)) :=
  .bind (.attempt (.bind (keeps_write _) fun _ => keeps_external))
    fun _ => keeps_finish (keeps_remove operationId)

/-- The server serves requests only where no row is revived. -/
theorem startServer_wp {s : State} (hcached : s.cached = none) (H : FileGuarded s) :
    (startServer fingerprint).Wp Anyway
      (fun serving t => FileGuarded t ∧ (serving = true → Clean t)) (fun _ => FileGuarded)
      FileGuarded s := by
  refine .bind (recoverInterruptedRestore_wp fingerprint hcached H) fun _ t ht => ?_
  have Ht := ht.fileGuarded
  refine .bind ((isActive_wp ht).mono (fun _ _ h => h) (fun _ _ h => Ht.of_same h.1 (.inl h.2))
    fun _ h => Ht.of_same h.1 (.inl h.2)) fun active u hu => ?_
  have Hu : FileGuarded u := Ht.of_same hu.1 (.inl hu.2.1)
  split
  · exact .pure ⟨Hu, nofun⟩
  · rename_i hactive
    have hclean : Clean u := fun hrevived => hactive (hu.2.2 (hu.1.revived.mp hrevived))
    refine .bind ((keeps_cleanupOrphans u hclean).mono (fun _ _ h => h) (fun _ _ h => h.fileGuarded)
      fun _ h => h.fileGuarded) fun _ v hv => ?_
    exact .pure ⟨hv.fileGuarded, fun _ => hv⟩

/-! ## The restores -/

theorem prepare_keeps (operationId : String) :
    Program.Keeps Anyway Clean (prepare fingerprint operationId) :=
  .bind keeps_external fun _ => .bind (keeps_write _) fun _ => .bind keeps_external fun _ =>
    keeps_effect fun _ hs => hs

theorem proceed_wp (operationId : String) (archive : Data) {s : State} (H : Clean s) :
    (proceed fingerprint operationId archive).Wp Anyway (fun _ => Clean) (fun _ => FileGuarded)
      FileGuarded s := by
  refine .bind ((write_wp _ s).mono (fun _ _ h => h) (fun _ _ h => (H.of_same h.1).fileGuarded)
    fun _ h => (H.of_same h.1).fileGuarded) fun _ t ht => ?_
  have hcovers {u : State} (hu : SameStatus t u) : FileGuarded u := fun _ => by
    rw [hu.file, ht.2.1]
    exact .inl rfl
  refine .bind ((restoreAndSanitize_wp _ t).mono (fun _ _ h => h) (fun _ _ h => hcovers h)
    fun _ h => hcovers h) fun _ u hu => ?_
  refine Program.Wp.mono (Program.Keeps.bind (keeps_write _) (fun _ => keeps_external) u hu.2)
    (fun _ _ h => h) (fun _ _ h => h.fileGuarded) fun _ h => h.fileGuarded

/-- The rest of a web restore whose emergency rollback has failed. -/
theorem rollbackFailed_keeps (operationId message : String) :
    Program.Keeps Anyway FileGuarded (do
      markRollbackFailed operationId message
      external) :=
  .bind (fun _ hs => (markRollbackFailed_guarded operationId message hs).mono
    (fun _ _ h => h.fileGuarded) (fun _ _ h => h) fun _ h => h) fun _ => keeps_external

/-- A program that keeps a property leaves it, however it ends. -/
theorem state_of_keeps {α : Type} {K : State → Prop} {x : Run α} (h : Program.Keeps Anyway K x)
    (script : Script Unit) {w : Trace State} (hw : K w.state) : K (x script w).2.state := by
  have hends := h w.state hw script w rfl fun _ _ => trivial
  match x script w, hends with
  | (.ok _, _), hends => exact hends.2
  | (.raised _, _), hends => exact hends.2
  | (.aborted, _), hends => exact hends.2

theorem state_of_wp {α : Type} {Q : α → State → Prop} {K : State → Prop} {x : Run α} {s : State}
    (h : x.Wp Anyway Q (fun _ => K) K s) (hQ : ∀ a t, Q a t → K t) {script : Script Unit}
    {w : Trace State} (hw : w.state = s) : K (x script w).2.state := by
  have hends := h script w hw fun _ _ => trivial
  match x script w, hends with
  | (.ok _, _), hends => exact hQ _ _ hends.2
  | (.raised _, _), hends => exact hends.2
  | (.aborted, _), hends => exact hends.2

theorem rollBack_wp (operationId : String) (s : State) :
    (rollBack operationId).Wp Anyway (fun _ => Clean) (fun _ => SameStatus s) (SameStatus s) s := by
  refine .bind (.get (Q := fun u v => u = s ∧ v = s) ⟨rfl, rfl⟩) fun u v h => ?_
  rw [h.1, h.2]
  exact (restoreAndSanitize_wp _ s).mono (fun _ _ h => h.2) (fun _ _ h => h) fun _ h => h

theorem cliRestore_wp (archive : Data) (s : State) :
    (cliRestore archive).Wp Anyway (fun _ => Clean) (fun _ => SameStatus s) (SameStatus s) s := by
  refine .bind (P := fun _ t => t = s) (external_wp rfl ⟨rfl, rfl⟩ ⟨rfl, rfl⟩ trivial) fun _ t ht => ?_
  rw [ht]
  exact (restoreAndSanitize_wp _ s).mono (fun _ _ h => h.2) (fun _ _ h => h) fun _ h => h

/-! ## Restores that do not stop in between -/

section
variable {script : Script Unit} {w v : Trace State}

theorem return_single {n : Nat} (h : (script n).fault = .none) : Return script n (n + 1) :=
  fun i hi hlt => by
    rw [show i = n from Nat.le_antisymm (Nat.lt_succ_iff.mp hlt) hi]
    exact h

theorem Return.append {n m k : Nat} (h₁ : Return script n m) (h₂ : Return script m k) :
    Return script n k := fun i hi hlt => by
  rcases Nat.lt_or_ge i m with h | h
  · exact h₁ i hi h
  · exact h₂ i h hlt

/-- How a step has ended. -/
inductive EffectEnds (script : Script Unit) (f : State → State) (w : Trace State) :
    Result Unit Unit × Trace State → Prop
  | ok {v : Trace State} (hfault : (script w.calls).fault = .none) (hcalls : v.calls = w.calls + 1)
    (hstate : v.state = f w.state) : EffectEnds script f w (.ok (), v)
  | raised {v : Trace State} (tookEffect : Bool)
    (hfault : (script w.calls).fault = .raises tookEffect ()) (hcalls : v.calls = w.calls + 1)
    (hstate : v.state = if tookEffect then f w.state else w.state) :
    EffectEnds script f w (.raised (), v)
  | aborted {v : Trace State} (tookEffect : Bool)
    (hfault : (script w.calls).fault = .aborts tookEffect)
    (hstate : v.state = if tookEffect then f w.state else w.state) :
    EffectEnds script f w (.aborted, v)

theorem effect_ends (script : Script Unit) (f : State → State) (w : Trace State) :
    EffectEnds script f w (effect f script w) := by
  unfold effect Program.call
  dsimp only
  match hfault : (script w.calls).fault with
  | .none => exact .ok hfault rfl rfl
  | .raises true () => exact .raised true hfault rfl rfl
  | .raises false () => exact .raised false hfault rfl rfl
  | .aborts true => exact .aborted true hfault rfl
  | .aborts false => exact .aborted false hfault rfl

theorem external_ends (script : Script Unit) (w : Trace State) :
    EffectEnds script id w (external script w) := effect_ends script id w

namespace EffectEnds

variable {f : State → State} {r : Result Unit Unit}

/-- What a step does not change stays as it is. -/
theorem keeps (H : EffectEnds script f w (r, v)) {K : State → Prop} (h : K w.state)
    (hf : K (f w.state)) : K v.state := by
  cases H with
  | ok _ _ hstate => exact hstate ▸ hf
  | raised tookEffect _ _ hstate =>
    rw [hstate]
    split
    · exact hf
    · exact h
  | aborted tookEffect _ hstate =>
    rw [hstate]
    split
    · exact hf
    · exact h

/-- A step that takes effect. -/
theorem state (H : EffectEnds script f w (r, v)) (h : TakesEffect (script w.calls).fault) :
    v.state = f w.state := by
  cases H with
  | ok _ _ hstate => exact hstate
  | raised tookEffect hfault _ hstate =>
    rw [hfault] at h
    exact hstate.trans (if_pos h)
  | aborted tookEffect hfault hstate =>
    rw [hfault] at h
    exact hstate.trans (if_pos h)

/-- A step that takes no effect has not returned. -/
theorem state_of_not (H : EffectEnds script f w (r, v)) (h : ¬TakesEffect (script w.calls).fault) :
    v.state = w.state ∧ r ≠ .ok () := by
  cases H with
  | ok hfault =>
    rw [hfault] at h
    exact absurd trivial h
  | raised tookEffect hfault _ hstate =>
    rw [hfault] at h
    exact ⟨hstate.trans (if_neg h), nofun⟩
  | aborted tookEffect hfault hstate =>
    rw [hfault] at h
    exact ⟨hstate.trans (if_neg h), nofun⟩

end EffectEnds

/-- A restore that does not come to replace the database. -/
theorem restoreBackup_clean {archive : Option Data} (H : Clean w.state)
    (h : ¬(Return script w.calls (w.calls + 1) ∧ TakesEffect (script (w.calls + 1)).fault)) :
    Clean (restoreBackup archive script w).2.state := by
  unfold restoreBackup
  rw [Program.bind_apply]
  have hexternal := external_ends script w
  rcases hrun : external script w with ⟨r, v⟩
  rw [hrun] at hexternal
  have Hv : Clean v.state := hexternal.keeps H H
  cases hexternal with
  | raised => exact Hv
  | aborted => exact Hv
  | ok hfault hcalls _ =>
    cases archive with
    | none => exact Hv
    | some archive =>
      have hnot : ¬TakesEffect (script v.calls).fault := fun htakes =>
        h ⟨return_single hfault, hcalls ▸ htakes⟩
      have hreplace := effect_ends script (replaceDatabase archive) v
      dsimp only
      rw [Program.get_bind, Program.handle_bind, Program.bind_apply]
      rcases hrun : effect (replaceDatabase archive) script v with ⟨r, u⟩
      rw [hrun] at hreplace
      obtain ⟨hstate, hr⟩ := hreplace.state_of_not hnot
      have Hu : Clean u.state := hstate ▸ Hv
      cases r with
      | ok _ => exact absurd rfl hr
      | aborted => exact Hu
      | raised _ =>
        -- What is put back is what is still there.
        let K (t : State) : Prop := t.replaced = v.state.replaced ∧ t.data.rows = v.state.data.rows
        have hkeeps : Program.Keeps Anyway K ((do
            let _ ← (effect (putBackDatabase v.state)).attempt
            let _ ← (effect (putBackFiles v.state)).attempt
            Program.raise () : Run Unit) >>= fun _ => external) :=
          .bind (.bind (.attempt (keeps_effect fun _ ht => ⟨ht.1, rfl⟩)) fun _ =>
            .bind (.attempt (keeps_effect fun _ ht => ht)) fun _ => .raise) fun _ => keeps_external
        have hK := state_of_keeps hkeeps script (w := u) ⟨by rw [hstate], by rw [hstate]⟩
        exact Hv.of_rows hK.1 hK.2

theorem effect_counts {f : State → State} : Program.Counts 1 (effect f) := .call

theorem effect_returns {f : State → State} : Program.Returns 1 (effect f) :=
  .call fun _ _ => ⟨_, _, rfl⟩

theorem restoreBackup_counts (archive : Option Data) : Program.Counts 4 (restoreBackup archive) := by
  refine .bind (k := 1) (l := 3) .call fun _ => ?_
  cases archive with
  | none => exact .raise
  | some archive =>
    refine .bind (k := 0) (l := 3) .get fun before => .bind (k := 2) (l := 1) (.handle ?_ ?_)
      fun _ => .call
    · exact .bind (k := 1) (l := 1) effect_counts fun _ => effect_counts
    · exact fun _ => .bind fun _ => .bind fun _ => .raise

theorem restoreBackup_returns (archive : Data) : Program.Returns 4 (restoreBackup (some archive)) :=
  .bind (k := 1) (l := 3) effect_returns fun _ => .bind (k := 0) (l := 3) .get fun _ =>
    .bind (k := 2) (l := 1) (.handle (.bind (k := 1) (l := 1) effect_returns fun _ => effect_returns))
      fun _ => effect_returns

/-- A restore that does not stop in between and does not return has not replaced the database. -/
theorem restoreBackup_stopped (archive : Option Data) (H : Clean w.state)
    (h : ¬StopsBetween script w.calls)
    (hstopped : ∀ u, restoreBackup archive script w ≠ (.ok (), u)) :
    Clean (restoreBackup archive script w).2.state := by
  by_cases hreplaced : Return script w.calls (w.calls + 1) ∧ TakesEffect (script (w.calls + 1)).fault
  · cases archive with
    | none => exact state_of_keeps (.bind keeps_external fun _ => .raise) script H
    | some archive =>
      refine absurd ⟨hreplaced.1, hreplaced.2, fun hboth => ?_⟩ h
      obtain ⟨_, u, hrun, -⟩ :=
        restoreBackup_returns archive script w (hreplaced.1.append hboth.1)
      exact hstopped u hrun
  · exact restoreBackup_clean H hreplaced

theorem restoreAndSanitize_clean (archive : Option Data) (H : Clean w.state)
    (h : ¬StopsBetween script w.calls) :
    Clean (restoreAndSanitize archive script w).2.state := by
  have hstopped := restoreBackup_stopped archive H h
  unfold restoreAndSanitize
  rw [Program.bind_apply]
  rcases hrun : restoreBackup archive script w with ⟨r, v⟩
  rw [hrun] at hstopped
  cases r with
  | raised _ => exact hstopped fun _ hu => nomatch congrArg Prod.fst hu
  | aborted => exact hstopped fun _ hu => nomatch congrArg Prod.fst hu
  | ok _ =>
    obtain ⟨hcalls, hreturn⟩ := restoreBackup_counts archive _ _ _ _ hrun
    have htakes : TakesEffect (script v.calls).fault := by
      by_contra hno
      rw [hcalls] at hreturn hno
      refine h ⟨fun i hi hlt => hreturn i hi (by omega), ?_, fun hboth => hno hboth.2⟩
      rw [hreturn (w.calls + 1) (by omega) (by omega)]
      trivial
    have hempty {t : State} (ht : t.data.rows = []) : Clean t := fun ⟨row, _, hrow⟩ => by
      rw [ht] at hrow
      cases hrow
    dsimp only
    rw [Program.bind_apply]
    have hends := effect_ends script sanitize v
    rcases hsanitize : effect sanitize script v with ⟨r, u⟩
    rw [hsanitize] at hends
    have hu : u.state.data.rows = [] := by
      rw [hends.state htakes]
      rfl
    cases r with
    | raised _ => exact hempty hu
    | aborted => exact hempty hu
    | ok _ =>
      have hrotate : Program.Keeps Anyway (fun t => t.data.rows = []) (effect rotateEpoch) :=
        keeps_effect fun _ ht => ht
      exact hempty (state_of_keeps hrotate script hu)

theorem rollBack_clean {operationId : String} (H : Clean w.state) (h : ¬StopsBetween script w.calls) :
    Clean (rollBack operationId script w).2.state :=
  restoreAndSanitize_clean _ H h

theorem cliRestore_clean {archive : Data} (H : Clean w.state)
    (h : ¬(Return script w.calls (w.calls + 1) ∧ StopsBetween script (w.calls + 1))) :
    Clean (cliRestore archive script w).2.state := by
  unfold cliRestore
  rw [Program.bind_apply]
  have hexternal := external_ends script w
  rcases hrun : external script w with ⟨r, v⟩
  rw [hrun] at hexternal
  have Hv : Clean v.state := hexternal.keeps H H
  cases hexternal with
  | raised => exact Hv
  | aborted => exact Hv
  | ok hfault hcalls _ =>
    exact restoreAndSanitize_clean _ Hv fun hstops => h ⟨return_single hfault, hcalls ▸ hstops⟩

end

/-! ## The restores -/

theorem FileGuarded.of_sameStatus {s t : State} (h : s.file.Covers) (H : SameStatus s t) :
    FileGuarded t := fun _ => by
  rw [H.file]
  exact h

/-- A restore on the command line. -/
theorem backupRestore_guarded {archive : Data} {script : Script Unit} {s : State} (H : FileGuarded s)
    (h : ¬(¬s.file.Covers ∧ Return script 0 1 ∧ StopsBetween script 1)) :
    FileGuarded (after (backupRestore archive) s script) := by
  have hclear : Program.Keeps Anyway Clean (do
      clearFailedStatusAfterCliRestore
      external) := by
    refine .bind (.bind keeps_read fun r => ?_) fun _ => keeps_external
    split
    · refine .bind (keeps_effect fun _ hs => hs) fun _ => ?_
      exact fun _ hs => .modify trivial hs
    · exact .pure
  have hrestored : FileGuarded (cliRestore archive script ⟨s, [s], 0⟩).2.state := by
    by_cases hcovers : s.file.Covers
    · exact state_of_wp ((cliRestore_wp archive s).mono (fun _ _ h => h)
        (fun _ _ ht => .of_sameStatus hcovers ht) fun _ ht => .of_sameStatus hcovers ht)
        (fun _ _ ht => Clean.fileGuarded ht) rfl
    · refine (cliRestore_clean (fun hrevived => hcovers (H hrevived)) ?_).fileGuarded
      exact fun hstops => h ⟨hcovers, hstops⟩
  have hends := cliRestore_wp archive s script ⟨s, [s], 0⟩ rfl fun _ _ => trivial
  unfold after runOn backupRestore
  rw [Program.bind_apply]
  rcases hrun : cliRestore archive script ⟨s, [s], 0⟩ with ⟨r, t⟩
  rw [hrun] at hrestored hends
  cases r with
  | ok _ => exact (state_of_keeps hclear script hends.2).fileGuarded
  | raised _ => exact hrestored
  | aborted => exact hrestored

/-! ## The web restore -/

theorem prepare_counts (operationId : String) :
    Program.Counts 4 (prepare fingerprint operationId) :=
  .bind (k := 1) (l := 3) .call fun _ => .bind (k := 1) (l := 2)
    (.bind (k := 1) (l := 0) .call fun _ => .modify) fun _ => .bind (k := 1) (l := 1) .call
    fun _ => .call

theorem write_counts (document : Document) : Program.Counts 1 (write document) :=
  .bind (k := 1) (l := 0) .call fun _ => .modify

theorem restoreAndSanitize_counts (archive : Option Data) :
    Program.Counts 6 (restoreAndSanitize archive) :=
  .bind (k := 4) (l := 2) (restoreBackup_counts archive) fun _ => .bind (k := 1) (l := 1) .call
    fun _ => .call

theorem write_raised {document : Document} {script : Script Unit} {w v : Trace State}
    (h : write document script w = (.raised (), v)) :
    ∃ tookEffect, (script w.calls).fault = .raises tookEffect () ∧ v.calls = w.calls + 1 ∧
      v.state = if tookEffect then { w.state with file := .document document } else w.state := by
  unfold write at h
  rw [Program.bind_apply] at h
  have hends := effect_ends script (fun s => { s with file := .document document }) w
  rcases hrun : effect (fun s => { s with file := .document document }) script w with ⟨r, u⟩
  rw [hrun] at h hends
  cases hends with
  | ok => cases h
  | aborted => cases h
  | raised tookEffect hfault hcalls hstate =>
    cases h
    exact ⟨tookEffect, hfault, hcalls, hstate⟩

theorem markInProgress_wp (operationId rollbackRelative : String) (s : State) :
    (markInProgress fingerprint operationId rollbackRelative).Wp Anyway (fun _ t => t.file.Covers)
      (fun _ _ => True) (fun _ => True) s :=
  (write_wp _ s).mono (fun _ t ht => by rw [ht.2.1]; exact .inl rfl) (fun _ _ _ => trivial)
    fun _ _ => trivial

section
variable {operationId : String} {archive : Data} {script : Script Unit} {w u : Trace State}

/-- What the last two steps of a restore leave when they raise. -/
theorem finish_raised (hcalls : w.calls = 11) (hreturn : Return script 0 11) (H : Clean w.state)
    (hcovers : w.state.file.Covers)
    (h : (markSucceeded operationId >>= fun _ => external) script w = (.raised (), u)) :
    u.state.file.Covers ∨ Clean u.state ∧ RollsBackUncovered script u.calls := by
  rw [Program.bind_apply] at h
  rcases hrun : markSucceeded operationId script w with ⟨r, v⟩
  rw [hrun] at h
  cases r with
  | aborted => cases h
  | raised _ =>
    cases h
    obtain ⟨tookEffect, hfault, hv, hstate⟩ := write_raised hrun
    cases tookEffect with
    | false => exact .inl (by rw [hstate]; exact hcovers)
    | true =>
      exact .inr ⟨by rw [hstate]; exact H, .inr (.inl ⟨hreturn, hcalls ▸ hfault, by omega⟩)⟩
  | ok _ =>
    obtain ⟨hv, hreturned⟩ := write_counts _ _ _ _ _ hrun
    have hends := external_ends script v
    rw [show external script v = (.raised (), u) from h] at hends
    have Hv : Clean v.state := by
      have hkeeps : Program.Keeps Anyway Clean (markSucceeded operationId) := keeps_write _
      have hclean := state_of_keeps hkeeps script H
      rw [hrun] at hclean
      exact hclean
    cases hends with
    | raised tookEffect hfault hu hstate =>
      refine .inr ⟨by rw [hstate]; split <;> exact Hv, .inr (.inr ⟨?_, ⟨tookEffect, ?_⟩, by omega⟩)⟩
      · exact hreturn.append fun i hi hlt => hreturned i (by omega) (by omega)
      · rw [← hfault]
        congr 2
        omega

/-- A restore raises while its status is `in_progress`, or without a revived row. -/
theorem proceed_raised (hcalls : w.calls = 4) (hreturn : Return script 0 4) (H : Clean w.state)
    (h : proceed fingerprint operationId archive script w = (.raised (), u)) :
    u.state.file.Covers ∨ Clean u.state ∧ RollsBackUncovered script u.calls := by
  unfold proceed at h
  rw [Program.bind_apply] at h
  rcases hrun : markInProgress fingerprint operationId operationId script w with ⟨r, v⟩
  rw [hrun] at h
  cases r with
  | aborted => cases h
  | raised _ =>
    cases h
    obtain ⟨tookEffect, hfault, hv, hstate⟩ := write_raised hrun
    cases tookEffect with
    | false => exact .inr ⟨by rw [hstate]; exact H, .inl ⟨hreturn, hcalls ▸ hfault, by omega⟩⟩
    | true => exact .inl (by rw [hstate]; exact .inl rfl)
  | ok _ =>
    obtain ⟨hv, hreturned⟩ := write_counts _ _ _ _ _ hrun
    have hwritten := markInProgress_wp fingerprint operationId operationId w.state script w rfl
      fun _ _ => trivial
    rw [hrun] at hwritten
    obtain ⟨-, hcovers⟩ := hwritten
    dsimp only at h
    rw [Program.bind_apply] at h
    rcases hrestore : restoreAndSanitize (some archive) script v with ⟨r, x⟩
    have hends := restoreAndSanitize_wp (some archive) v.state script v rfl fun _ _ => trivial
    rw [hrestore] at h hends
    cases r with
    | aborted => cases h
    | raised _ =>
      cases h
      exact .inl (by rw [hends.2.file]; exact hcovers)
    | ok _ =>
      obtain ⟨hx, hrestored⟩ := restoreAndSanitize_counts _ _ _ _ _ hrestore
      refine finish_raised (by omega) ?_ hends.2.2 (by rw [hends.2.1.file]; exact hcovers) h
      refine hreturn.append (.append (m := 5) (fun i hi hlt => ?_) fun i hi hlt => ?_)
      · exact hreturned i (by omega) (by omega)
      · exact hrestored i (by omega) (by omega)

/-- What a web restore does after it has raised. -/
theorem rollBack_guarded (operationId : String)
    (h : w.state.file.Covers ∨ Clean w.state ∧ ¬StopsBetween script w.calls) :
    FileGuarded (rollBack operationId script w).2.state := by
  rcases h with hcovers | ⟨H, hstops⟩
  · exact state_of_wp ((rollBack_wp operationId w.state).mono (fun _ _ h => h)
      (fun _ _ ht => .of_sameStatus hcovers ht) fun _ ht => .of_sameStatus hcovers ht)
      (fun _ _ ht => Clean.fileGuarded ht) rfl
  · exact (rollBack_clean H hstops).fileGuarded

theorem performRestore_guarded {s : State} (H : Clean s)
    (h : ¬∃ n, RollsBackUncovered script n ∧ StopsBetween script n) :
    FileGuarded (after (performRestore fingerprint operationId archive) s script) := by
  unfold after runOn performRestore
  rw [Program.attempt_bind]
  have hprepared := state_of_keeps (prepare_keeps fingerprint operationId) script
    (w := ⟨s, [s], 0⟩) H
  rcases hprepare : prepare fingerprint operationId script ⟨s, [s], 0⟩ with ⟨r, t⟩
  rw [hprepare] at hprepared
  cases r with
  | aborted => exact hprepared.fileGuarded
  | raised _ => exact (state_of_keeps (keeps_failed operationId _) script hprepared).fileGuarded
  | ok _ =>
    obtain ⟨hcalls, hreturn⟩ := prepare_counts fingerprint operationId _ _ _ _ hprepare
    have hends := proceed_wp fingerprint operationId archive hprepared script t rfl
      fun _ _ => trivial
    dsimp only
    rw [Program.attempt_bind]
    rcases hproceed : proceed fingerprint operationId archive script t with ⟨r, u⟩
    rw [hproceed] at hends
    cases r with
    | ok _ => exact (state_of_keeps (keeps_remove operationId) script hends.2).fileGuarded
    | aborted => exact hends.2
    | raised _ =>
      have hraised := proceed_raised fingerprint (by omega) (fun i hi hlt => hreturn i hi (by omega))
        hprepared hproceed
      have hrolled := rollBack_guarded operationId (w := u)
        (hraised.imp_right fun hu => ⟨hu.1, fun hstops => h ⟨_, hu.2, hstops⟩⟩)
      have hclean := rollBack_wp operationId u.state script u rfl fun _ _ => trivial
      dsimp only
      rw [Program.attempt_bind]
      rcases hback : rollBack operationId script u with ⟨r, v⟩
      rw [hback] at hrolled hclean
      cases r with
      | ok _ => exact (state_of_keeps (keeps_failed operationId _) script hclean.2).fileGuarded
      | aborted => exact hrolled
      | raised _ => exact state_of_keeps (rollbackFailed_keeps operationId _) script hrolled

end

/-! ## All runs -/

/-- The status covers what is revived, and the server serves requests where nothing is. -/
structure Inv (w : World) : Prop where
  guarded : FileGuarded w.state
  clean : w.serving = true → Clean w.state

theorem Inv.of_clean {w : World} (h : Clean w.state) : Inv w := ⟨h.fileGuarded, fun _ => h⟩

theorem FileGuarded.fresh {s : State} (H : FileGuarded s) : FileGuarded s.fresh := H

theorem startServer_inv {s : State} (H : FileGuarded s) (script : Script Unit) :
    Inv ⟨after (startServer fingerprint) s.fresh script,
      returned (startServer fingerprint) s.fresh script true⟩ := by
  have hends := startServer_wp fingerprint (s := s.fresh) rfl H.fresh script ⟨s.fresh, [s.fresh], 0⟩
    rfl fun _ _ => trivial
  unfold after returned runOn
  rcases hrun : startServer fingerprint script ⟨s.fresh, [s.fresh], 0⟩ with ⟨r, t⟩
  rw [hrun] at hends
  cases r with
  | ok serving => exact ⟨hends.2.1, fun h => hends.2.2 (of_decide_eq_true h)⟩
  | raised _ => exact ⟨hends.2, nofun⟩
  | aborted => exact ⟨hends.2, nofun⟩

/-- A step keeps the invariant unless a restore stops where nothing covers it. -/
theorem step_inv {w v : World} {a : Action} (H : Inv w) (h : ¬Uncovered w a)
    (hstep : step fingerprint w a = some v) : Inv v := by
  cases a with
  | webRestore operationId archive script =>
    obtain ⟨hserving, hv⟩ := Option.ite_none_right_eq_some.mp hstep
    cases hv
    exact ⟨performRestore_guarded fingerprint (H.clean hserving) h, nofun⟩
  | cliRestore archive script =>
    obtain ⟨-, hv⟩ := Option.ite_none_left_eq_some.mp hstep
    cases hv
    exact ⟨backupRestore_guarded H.guarded.fresh h, nofun⟩
  | start script =>
    obtain ⟨-, hv⟩ := Option.ite_none_left_eq_some.mp hstep
    cases hv
    exact startServer_inv fingerprint H.guarded script
  | stop =>
    cases hstep
    exact ⟨H.guarded, nofun⟩
  | login row =>
    obtain ⟨⟨hserving, hnew⟩, hv⟩ := Option.ite_none_right_eq_some.mp hstep
    cases hv
    refine .of_clean fun ⟨r, hreplaced, hr⟩ => ?_
    rcases List.mem_cons.mp hr with rfl | hr
    · exact hnew hreplaced
    · exact H.clean hserving ⟨r, hreplaced, hr⟩
  | revoke row =>
    obtain ⟨hserving, hv⟩ := Option.ite_none_right_eq_some.mp hstep
    cases hv
    exact .of_clean fun ⟨r, hreplaced, hr⟩ =>
      H.clean hserving ⟨r, hreplaced, (List.mem_filter.mp hr).1⟩
  | expire =>
    simp only [step] at hstep
    split at hstep
    · rename_i hserving _
      obtain ⟨-, hv⟩ := Option.ite_none_left_eq_some.mp hstep
      cases hv
      exact .of_clean (H.clean hserving)
    · cases hstep

theorem Inv.noneRevived {w : World} (H : Inv w) : NoneRevived w := fun hserving row hreplaced haccepts =>
  H.clean hserving ⟨row, hreplaced, haccepts.1⟩

/-- In every run in which no restore stops where nothing covers it, no login is revived. -/
theorem run_noneRevived {w v : World} {as : List Action} (h : Starts w)
    (hrun : ((system fingerprint).restrict fun w a _ => ¬Uncovered w a).Run w as v) :
    NoneRevived v := by
  have hinit : Inv w := .of_clean fun ⟨row, hreplaced, _⟩ => by
    rw [h.replaced] at hreplaced
    cases hreplaced
  exact (hrun.invariant hinit fun x a y H hs => step_inv fingerprint H hs.1 hs.2).noneRevived

/-! ## Examples -/

/-- A login of user `1`. -/
def session : Row := ⟨.authenticationSession, 7, 1, 0, 0⟩

/-- The archive was made while the login was in use, and the directory has lost it since. -/
def backup : Data := ⟨[session], fun _ => 0, 0, 0, 0⟩

def beforeRestore : World where
  state := ⟨⟨[], fun _ => 0, 1, 0, 1⟩, .missing, none, fun _ => none, 1, []⟩
  serving := true

/-- Nothing happens to the calls but to one. -/
def onlyAt (n : Nat) (fault : Fault Unit) : Script Unit := fun i =>
  ⟨if i = n then fault else .none, 0⟩

/-- The command line crashes as it is to sanitize what it has restored. -/
def crashedRestore : List Action :=
  [.stop, .cliRestore backup (onlyAt 5 (.aborts false)), .start (onlyAt 0 .none)]

theorem starts_beforeRestore : Starts beforeRestore := ⟨rfl, rfl⟩

/-- The server serves requests and accepts a row of the archive. -/
def revives (w : World) : Bool :=
  w.serving && w.state.replaced.any fun row => decide (w.state.data.Accepts row)

theorem not_noneRevived {w : World} (h : revives w = true) : ¬NoneRevived w := by
  intro H
  obtain ⟨hserving, h⟩ := Bool.and_eq_true_iff.mp h
  obtain ⟨row, hreplaced, haccepts⟩ := List.any_eq_true.mp h
  exact H hserving row hreplaced (of_decide_eq_true haccepts)

theorem crash_revives : ∃ v, Starts beforeRestore ∧
    (system "data").Run beforeRestore crashedRestore v ∧ ¬NoneRevived v := by
  have hrun : ((crashedRestore.foldlM (step "data") beforeRestore).any revives) = true := by
    decide
  obtain ⟨v, hv, hrevives⟩ := (Option.any_eq_true _ _).mp hrun
  exact ⟨v, starts_beforeRestore, System.run_of_foldlM (fun _ _ _ h => h) hv,
    not_noneRevived hrevives⟩

/-- The same restore without a crash. -/
def completedRestore : List Action :=
  [.stop, .cliRestore backup (onlyAt 0 .none), .start (onlyAt 0 .none)]

theorem completedRestore_covered : ∀ a ∈ completedRestore, ∀ w, ¬Uncovered w a := by
  have hnone (i : Nat) : (onlyAt 0 .none i).fault = .none := by simp [onlyAt]
  intro a ha w h
  simp only [completedRestore, List.mem_cons, List.not_mem_nil, or_false] at ha
  rcases ha with rfl | rfl | rfl
  · exact h
  · exact h.2.2.2.2 ⟨fun i _ _ => hnone i, by rw [hnone]; trivial⟩
  · exact h

theorem completedRestore_noneRevived : ∃ v,
    (system "data").Run beforeRestore completedRestore v ∧ v.serving = true ∧ NoneRevived v := by
  have hrun : ((completedRestore.foldlM (step "data") beforeRestore).any (·.serving)) = true := by
    decide
  obtain ⟨v, hv, hserving⟩ := (Option.any_eq_true _ _).mp hrun
  have hsteps : (system "data").Run beforeRestore completedRestore v :=
    System.run_of_foldlM (fun _ _ _ h => h) hv
  exact ⟨v, hsteps, hserving, run_noneRevived "data" starts_beforeRestore
    (hsteps.restrict_labels fun a ha w _ => completedRestore_covered a ha w)⟩

end WebSSH.Maintenance
