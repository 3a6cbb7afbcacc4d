import WebSSH.Keys.Changes

/-!
# Deleting a key

A delete moves the file of the key to a staging entry, takes the key off the list, and removes the
entry; where it fails, it moves the file back. Wherever it ends, a key that is still listed has its
file at one of the two names.
-/

namespace WebSSH.Keys
open Lib Program Python

variable {env : Env} {admits : String → String → Prop} {s t : Store}

/-- The file of a key may be at its name or at the staging entry. -/
structure Staging (env : Env) (admits : String → String → Prop) (filename pending : String)
    (s : Store) : Prop where
  inv : Inv env admits s
  alone : Alone s filename filename
  alonePending : Alone s filename pending
  parses : pendingDeleteFilename pending = some filename

namespace Staging

variable {filename pending : String}

theorem stage (H : Staging env admits filename pending s) {entry : Entry}
    (h : s.entries.get? filename = some entry) :
    Staging env admits filename pending (s.move filename pending entry) :=
  ⟨H.inv.move (.inl rfl) (.inr H.parses) H.alone H.alonePending h, H.alone, H.alonePending,
    H.parses⟩

theorem restore (H : Staging env admits filename pending s) {entry : Entry}
    (h : s.entries.get? pending = some entry) :
    Staging env admits filename pending (s.move pending filename entry) :=
  ⟨H.inv.move (.inr H.parses) (.inl rfl) H.alonePending H.alone h, H.alone, H.alonePending,
    H.parses⟩

theorem remove (H : Staging env admits filename pending s)
    (h : ∀ key ∈ s.listed, key.filename ≠ filename) :
    Staging env admits filename pending (s.remove pending) :=
  ⟨H.inv.remove fun key hkey hstands => h key hkey (H.alonePending key hkey hstands), H.alone,
    H.alonePending, H.parses⟩

/-- A key that has both its file and a staging entry is not listed. -/
theorem unlisted (H : Staging env admits filename pending s) (hname : s.Has filename)
    (hpending : s.Has pending) : ∀ key ∈ s.listed, key.filename ≠ filename := by
  rintro key hkey rfl
  obtain ⟨name, -, -, hone⟩ := H.inv.kept key hkey
  have heq := (hone key.filename (.inl rfl) hname).trans (hone pending (.inr H.parses) hpending).symm
  exact H.inv.apart key hkey key hkey (heq.symm ▸ H.parses)

/-- Keys that are all listed are listed. -/
theorem relist (H : Staging env admits filename pending s) {document : Document}
    (hvalid : validKeyDocument document) (h : ∀ key ∈ document.keys, key ∈ s.listed) :
    Staging env admits filename pending (s.list document) :=
  ⟨H.inv.relist hvalid fun key hkey => ⟨key, h key hkey, rfl, rfl⟩,
    fun key hkey => H.alone key (h key hkey), fun key hkey => H.alonePending key (h key hkey),
    H.parses⟩

end Staging

theorem stageKeyDeletion_goes {token : Uuid} {filename : String}
    (H : Staging env admits filename (pendingName token filename) s) :
    Goes (stageKeyDeletion token filename)
      (fun pending t => (∀ name, pending = some name → name = pendingName token filename) ∧
        Staging env admits filename (pendingName token filename) t ∧ t.listed = s.listed)
      (Staging env admits filename (pendingName token filename)) s := by
  refine .bind (P := fun _ t => t = s) (lstat_goes H rfl) ?_
  rintro _ t rfl
  split
  · exact .pure ⟨nofun, H, rfl⟩
  · exact .raise H
  · dsimp only
    refine .handle (E := fun _ => Staging env admits filename (pendingName token filename)) ?_ ?_
    · refine .bind (replaceKeyEntry_goes H fun _ h => H.stage h) ?_
      rintro - u ⟨entry, hentry, rfl⟩
      refine .pure ⟨fun name h => (Option.some.inj h).symm, H.stage hentry, rfl⟩
    · intro e u hu
      refine .bind (P := fun _ v => v = u) ?_ ?_
      · refine .bind (P := fun _ v => v = u) (pathEntryExists_goes hu fun _ _ => rfl) ?_
        rintro found v rfl
        split
        · refine .bind (P := fun _ w => w = v) (pathEntryExists_goes hu fun _ _ => rfl) ?_
          rintro _ w rfl
          exact .pure rfl
        · exact .pure rfl
      rintro moved v rfl
      split
      · refine .bind (P := fun _ => Staging env admits filename (pendingName token filename))
          (.handle (E := fun _ => Staging env admits filename (pendingName token filename)) ?_
            fun _ _ h => .pure h) fun _ _ h => .raise h
        refine .bind (P := fun _ => Staging env admits filename (pendingName token filename))
          (osReplace_goes hu fun entry h => ⟨hu.restore h, hu.restore h⟩) fun _ _ h => ?_
        exact touch_goes h h
      · exact .raise hu

/-- The outcome of staging: the entry the file was moved to, if it was there. -/
def Staged (env : Env) (admits : String → String → Prop) (filename : String)
    (pending : Option String) (s : Store) : Prop :=
  Inv env admits s ∧ ∀ name, pending = some name → Staging env admits filename name s

theorem Staged.relist {pending : Option String} {filename : String}
    (H : Staged env admits filename pending s) {document : Document}
    (hvalid : validKeyDocument document) (h : ∀ key ∈ document.keys, key ∈ s.listed) :
    Staged env admits filename pending (s.list document) :=
  ⟨H.1.relist hvalid fun key hkey => ⟨key, h key hkey, rfl, rfl⟩,
    fun name hname => (H.2 name hname).relist hvalid h⟩

theorem rollbackKeyDeletion_goes {pending : Option String} {filename : String}
    (H : Staged env admits filename pending s) :
    Goes (rollbackKeyDeletion pending filename) (fun _ => Inv env admits) (Inv env admits) s := by
  unfold rollbackKeyDeletion
  split
  · exact .pure H.1
  rename_i pending
  have hstaging := H.2 pending rfl
  refine .bind (P := fun found t => t = s ∧ (found = true → s.Has pending))
    (pathEntryExists_goes H.1 fun _ h => ⟨rfl, h.mp⟩) ?_
  rintro found t ⟨rfl, hpending⟩
  split
  · exact .pure H.1
  rename_i hfound
  have hpending := hpending (by simpa using hfound)
  refine .handle (E := fun _ => Inv env admits) ?_ fun _ _ h => .pure h
  refine .bind (P := fun found u => u = t ∧ (found = true → t.Has filename))
    (pathEntryExists_goes H.1 fun _ h => ⟨rfl, h.mp⟩) ?_
  rintro found u ⟨rfl, hname⟩
  split
  · rename_i htrue
    have hunlisted := hstaging.unlisted (hname htrue) hpending
    exact removePendingKeyEntry_goes H.1 (hstaging.remove hunlisted).inv
  · refine .bind (replaceKeyEntry_goes H.1 fun _ h => (hstaging.restore h).inv) ?_
    rintro - v ⟨entry, hentry, rfl⟩
    exact .pure (hstaging.restore hentry).inv

theorem deleteKey_goes (H : Inv env admits s) {token : Uuid} (hfresh : Fresh s.names token)
    {metadata : Answer Error} {keyId : String} :
    Goes (deleteKey token metadata keyId) (fun _ => Inv env admits) (Inv env admits) s := by
  refine orElse_wp ?_ fun _ _ h => h
  refine .bind ((loadKeysWithLockHeld_goes H).mono (fun _ _ h => h) (fun _ _ h => h.1)
    fun _ h => h.1) fun keys t ht => ?_
  have hfresh := ht.loaded.fresh hfresh
  split
  · exact .pure ht.inv
  rename_i key hfind
  obtain ⟨hkey, hid, -⟩ := ht.find hfind
  refine .bind (P := fun _ u => u = t) (getUserKeysDir_goes ht.inv rfl) ?_
  rintro keysDir u rfl
  refine .bind (P := fun pending v => Staged env admits key.filename pending v ∧
    v.listed = u.listed) ?_ fun pending v hv => ?_
  · unfold stageListedKey
    split
    · refine .bind (P := fun _ v => v = u ∧ isSafeKeyFilename key.filename = true)
        (safeKeyPath_goes ht.inv fun h => ⟨rfl, h⟩) ?_
      rintro - v ⟨rfl, hsafe⟩
      have hbefore : Staging env admits key.filename (pendingName token key.filename) v :=
        ⟨ht.inv, ht.inv.alone hkey, hfresh.alone hsafe, pendingDeleteFilename_pendingName hsafe⟩
      refine (stageKeyDeletion_goes hbefore).mono ?_ (fun _ _ h => h.inv) fun _ h => h.inv
      rintro pending w ⟨hname, hstaging, hlisted⟩
      exact ⟨⟨hstaging.inv, fun name h => hname name h ▸ hstaging⟩, hlisted⟩
    · exact .pure ⟨⟨ht.inv, nofun⟩, rfl⟩
  · obtain ⟨hstaged, hlisted⟩ := hv
    have hrollback := fun w (hw : Staged env admits key.filename pending w) =>
      rollbackKeyDeletion_goes hw
    refine .bind (P := fun r w => Staged env admits key.filename pending w ∧
      (r = .ok true → ∀ other ∈ w.listed, other.filename ≠ key.filename)) (.attempt ?_) ?_
    · refine (saveKeys_goes (P := Staged env admits key.filename pending)
        (Q := fun w => ∀ other ∈ w.listed, other.filename ≠ key.filename) hstaged ?_).mono
        (fun saved w hw => ⟨hw.1, fun h => hw.2 (by cases h; rfl)⟩) (fun _ _ h => ⟨h, nofun⟩)
        fun _ h => h.1
      intro _ hvalid
      have hmem : ∀ other ∈ keys.filter (·.id ≠ keyId), other ∈ u.listed := fun other h =>
        ht.listed other (List.mem_of_mem_filter h)
      refine ⟨hstaged.relist hvalid fun other h => hlisted ▸ hmem other h, ?_⟩
      intro other hother hsame
      have hne : other.id ≠ keyId := by simpa using (List.mem_filter.mp hother).2
      exact hne (ht.inv.key_eq (hmem other hother) hkey hsame ▸ hid)
    · rintro r w ⟨hw, hgone⟩
      split
      · split
        · exact .bind (hrollback w hw) fun _ _ h => .raise h
        · exact .raise hw.1
      · split
        · exact .bind (hrollback w hw) fun _ _ h => .pure h
        · exact .pure hw.1
      · split
        · rename_i name
          have hstaging := hw.2 name rfl
          refine .bind (removePendingKeyEntry_goes hw.1 (hstaging.remove (hgone rfl)).inv) ?_
          exact fun _ _ h => .pure h
        · exact .pure hw.1

end WebSSH.Keys
