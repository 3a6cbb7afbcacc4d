import WebSSH.Keys.Invariant

/-!
# Loading the keys

What the file operations do, whichever way they end, and that a load which returns has brought the
file of every listed key back to its name.
-/

namespace WebSSH.Keys
open Lib Program Python

variable {env : Env} {α : Type} {s t : Store} {R : Store → Prop}

/-- From `s` the program returns into `Q`; it raises, or the process ends, in `R`. -/
abbrev Goes (x : Session α) (Q : α → Store → Prop) (R : Store → Prop) (s : Store) : Prop :=
  x.Wp (fun _ => True) Q (fun _ => R) R s

/-! ## Calls -/

theorem query_goes {f : Store → Except Error α} {Q : α → Store → Prop} (hR : R s)
    (h : ∀ a, f s = .ok a → Q a s) : Goes (query f) Q R s := by
  refine .call (fun _ => hR) hR fun n a t hop => ?_
  have hread : f s = .ok a ∧ t = s := by
    match hf : f s, hop with
    | .ok _, hop => cases hop; exact ⟨rfl, rfl⟩
  obtain ⟨hf, rfl⟩ := hread
  exact ⟨trivial, h a hf, fun _ => hR, hR⟩

theorem touch_goes {Q : PUnit → Store → Prop} (hR : R s) (h : Q ⟨⟩ s) : Goes touch Q R s :=
  query_goes hR fun _ _ => h

theorem lstat_goes {name : String} {Q : Option Entry → Store → Prop} (hR : R s)
    (h : Q (s.entries.get? name) s) : Goes (lstat name) Q R s :=
  query_goes hR fun a ha => by cases ha; exact h

theorem pathEntryExists_goes {name : String} {Q : Bool → Store → Prop} (hR : R s)
    (h : ∀ found : Bool, (found = true ↔ s.Has name) → Q found s) : Goes (pathEntryExists name) Q R s :=
  .bind (P := fun a t => a = s.entries.get? name ∧ t = s) (lstat_goes hR ⟨rfl, rfl⟩)
    fun a t ⟨ha, ht⟩ => by
      subst ha ht
      exact .pure (h _ Iff.rfl)

theorem getUserKeysDir_goes {Q : Bool → Store → Prop} (hR : R s) (h : Q s.user s) :
    Goes getUserKeysDir Q R s :=
  query_goes hR fun a ha => by cases ha; exact h

theorem osReplace_goes {a d : String} {Q : PUnit → Store → Prop} (hR : R s)
    (h : ∀ entry, s.entries.get? a = some entry →
      Q ⟨⟩ (s.move a d entry) ∧ R (s.move a d entry)) : Goes (osReplace a d) Q R s := by
  refine .call (fun _ => hR) hR fun n u t hop => ?_
  have hmoved : ∃ entry, s.entries.get? a = some entry ∧ t = s.move a d entry := by
    split at hop
    · cases hop
    · cases hop
    · cases hop
    · rename_i hentry _ _
      cases hop
      exact ⟨_, hentry, rfl⟩
  obtain ⟨entry, hentry, rfl⟩ := hmoved
  obtain ⟨hq, hr⟩ := h entry hentry
  exact ⟨trivial, hq, fun _ => hr, hr⟩

theorem unlink_goes {name : String} {Q : PUnit → Store → Prop} (hR : R s)
    (h : Q ⟨⟩ (s.remove name) ∧ R (s.remove name)) : Goes (unlink name) Q R s := by
  refine .call (fun _ => hR) hR fun n u t hop => ?_
  have ht : t = s.remove name := by
    split at hop
    · cases hop
    · cases hop
      rfl
  subst ht
  exact ⟨trivial, h.1, fun _ => h.2, h.2⟩

theorem atomicWriteBytes_goes {name : String} {payload : Bytes} {Q : PUnit → Store → Prop}
    (hR : R s) (h : Q ⟨⟩ (s.put name payload) ∧ R (s.put name payload)) :
    Goes (atomicWriteBytes name payload) Q R s := by
  refine .call (fun _ => hR) hR fun n u t hop => ?_
  have ht : t = s.put name payload := by
    split at hop
    · cases hop
    · cases hop
      rfl
  subst ht
  exact ⟨trivial, h.1, fun _ => h.2, h.2⟩

theorem ofExcept_goes {r : Except Error α} {Q : α → Store → Prop} (hR : R s)
    (h : ∀ a, r = .ok a → Q a s) : Goes (ofExcept r) Q R s := by
  cases r with
  | ok a => exact .pure (h a rfl)
  | error e => exact .raise hR

theorem orCorrupt_goes {reason : String} {x : Session α} {Q : α → Store → Prop}
    (h : Goes x Q R s) : Goes (orCorrupt reason x) Q R s := by
  refine .handle h fun e t ht => ?_
  cases e <;> exact .raise ht

theorem orElse_wp {x : Session α} {a : Error → α} {Q : α → Store → Prop} {A : Store → Prop}
    (h : x.Wp (fun _ => True) Q (fun _ => R) A s) (ha : ∀ e t, R t → Q (a e) t) :
    (orElse x a).Wp (fun _ => True) Q (fun _ => R) A s := by
  refine .handle h fun e t ht => ?_
  cases e with
  | storageCorruption reason => exact .raise ht
  | _ => exact .pure (ha _ t ht)

theorem safeKeyPath_goes {filename : String} {Q : PUnit → Store → Prop} (hR : R s)
    (h : isSafeKeyFilename filename = true → Q ⟨⟩ s) : Goes (safeKeyPath filename) Q R s := by
  unfold safeKeyPath
  split
  · rename_i hsafe
    refine .handle (touch_goes hR (h hsafe)) fun e t ht => ?_
    cases e <;> exact .raise ht
  · exact .raise hR

theorem replaceKeyEntry_goes {a b : String} (hR : R s)
    (h : ∀ entry, s.entries.get? a = some entry → R (s.move a b entry)) :
    Goes (replaceKeyEntry a b)
      (fun _ t => ∃ entry, s.entries.get? a = some entry ∧ t = s.move a b entry) R s := by
  refine .bind (P := fun _ t => ∃ entry, s.entries.get? a = some entry ∧ t = s.move a b entry)
    (osReplace_goes hR fun entry hentry => ⟨⟨entry, hentry, rfl⟩, h entry hentry⟩) ?_
  rintro - t ⟨entry, hentry, rfl⟩
  exact touch_goes (h entry hentry) ⟨entry, hentry, rfl⟩

theorem removePendingKeyEntry_goes {name : String} {P : Store → Prop} (hs : P s)
    (h : P (s.remove name)) : Goes (removePendingKeyEntry name) (fun _ => P) P s := by
  refine .handle (E := fun _ => P) ?_ fun _ t ht => .pure ht
  refine .bind (P := fun _ => P) (unlink_goes hs ⟨h, h⟩) fun _ t ht => ?_
  exact .bind (P := fun _ => P) (touch_goes ht ht) fun _ t ht => .pure ht

/-! ## Reconciling -/

/-- What a load may do to the store. -/
structure Loaded (s t : Store) : Prop where
  listed : t.listed = s.listed
  user : t.user = s.user
  names : ∀ name, t.Has name → s.Has name ∨ ∃ key ∈ s.listed, key.filename = name

theorem Loaded.refl : Loaded s s := ⟨rfl, rfl, fun _ h => .inl h⟩

theorem Loaded.remove (H : Loaded s t) {name : String} : Loaded s (t.remove name) where
  listed := H.listed
  user := H.user
  names other h := by
    rw [Store.Has, Store.get?_remove] at h
    split at h
    · cases h
    · exact H.names other h

theorem Loaded.move (H : Loaded s t) {name : String} {key : Key} {entry : Entry}
    (hkey : key ∈ t.listed) : Loaded s (t.move name key.filename entry) where
  listed := H.listed
  user := H.user
  names other h := by
    rw [Store.Has, Store.get?_move] at h
    split at h
    · rename_i hname
      exact .inr ⟨key, H.listed ▸ hkey, hname.symm⟩
    · split at h
      · cases h
      · exact H.names other h

variable {admits : String → String → Prop}

/-- A listed key's file is at its name, or at a staging entry that has not been looked at. -/
structure Reconciling (env : Env) (admits : String → String → Prop) (s : Store)
    (pending : List String) (t : Store) : Prop where
  inv : Inv env admits t
  loaded : Loaded s t
  found : ∀ key ∈ t.listed, t.Has key.filename ∨
    ∃ name ∈ pending, pendingDeleteFilename name = some key.filename ∧ t.Has name

namespace Reconciling

variable {pending : String} {rest : List String}

/-- The staging entry is not that of a listed key. -/
theorem skip (H : Reconciling env admits s (pending :: rest) t)
    (h : ∀ key ∈ t.listed, pendingDeleteFilename pending = some key.filename → t.Has pending →
      t.Has key.filename) : Reconciling env admits s rest t := by
  refine ⟨H.inv, H.loaded, fun key hkey => ?_⟩
  rcases H.found key hkey with hfound | ⟨name, hname, hfile, hhas⟩
  · exact .inl hfound
  · rcases List.mem_cons.mp hname with rfl | hname
    · exact .inl (h key hkey hfile hhas)
    · exact .inr ⟨name, hname, hfile, hhas⟩

/-- A staging entry of no listed key is removed. -/
theorem remove (H : Reconciling env admits s rest t)
    (h : ∀ key ∈ t.listed, ¬ Stands key.filename pending) :
    Reconciling env admits s rest (t.remove pending) := by
  have hhas : ∀ key ∈ t.listed, ∀ name, Stands key.filename name → t.Has name →
      (t.remove pending).Has name := by
    intro key hkey name hstands hname
    rw [Store.Has, Store.get?_remove, if_neg]
    · exact hname
    · rintro rfl
      exact h key hkey hstands
  refine ⟨H.inv.remove h, H.loaded.remove, fun key hkey => ?_⟩
  rcases H.found key hkey with hfound | ⟨name, hname, hfile, hfound⟩
  · exact .inl (hhas key hkey _ (.inl rfl) hfound)
  · exact .inr ⟨name, hname, hfile, hhas key hkey name (.inr hfile) hfound⟩

/-- The staging entry of a listed key is moved back. -/
theorem move (H : Reconciling env admits s (pending :: rest) t) {key : Key} {entry : Entry}
    (hkey : key ∈ t.listed) (hfile : pendingDeleteFilename pending = some key.filename)
    (hpending : ∀ key ∈ t.listed, key.filename ≠ pending)
    (hentry : t.entries.get? pending = some entry) :
    Reconciling env admits s rest (t.move pending key.filename entry) := by
  have halone : Alone t key.filename pending := by
    intro other hother hstands
    rcases hstands with h | h
    · exact absurd h.symm (hpending other hother)
    · exact (Option.some.inj (hfile.symm.trans h)).symm
  refine ⟨H.inv.move (.inr hfile) (.inl rfl) halone (H.inv.alone hkey) hentry,
    H.loaded.move hkey, fun other hother => ?_⟩
  rcases H.found other hother with hfound | ⟨name, hname, hother', hfound⟩
  · refine .inl ?_
    rw [Store.Has, Store.get?_move]
    split
    · rfl
    · rw [if_neg (hpending other hother)]
      exact hfound
  · by_cases heq : other.filename = key.filename
    · exact .inl (by rw [Store.Has, heq, Store.get?_move, if_pos rfl]; rfl)
    · have hne : name ≠ pending := by
        rintro rfl
        exact heq (Option.some.inj (hother'.symm.trans hfile))
      rcases List.mem_cons.mp hname with hname | hname
      · exact absurd hname hne
      · refine .inr ⟨name, hname, hother', ?_⟩
        rw [Store.Has, Store.get?_move]
        split
        · rfl
        · exact hfound

end Reconciling

theorem reconcileEntry_goes {keys : List Key} {pending : String} {rest : List String}
    (H : Reconciling env admits s (pending :: rest) t) (hkeys : keys = t.listed) :
    Goes (reconcileEntry (keys.map Key.filename) pending)
      (fun _ => Reconciling env admits s rest) (fun u => Inv env admits u ∧ Loaded s u) t := by
  subst hkeys
  have hR : Inv env admits t ∧ Loaded s t := ⟨H.inv, H.loaded⟩
  unfold reconcileEntry
  split
  · rename_i hmem
    obtain ⟨other, hother, hname⟩ := List.mem_map.mp hmem
    refine .pure (H.skip fun key hkey hfile => ?_)
    rw [← hname] at hfile
    exact absurd hfile (H.inv.apart other hother key hkey)
  · rename_i hmem
    have hpending : ∀ key ∈ t.listed, key.filename ≠ pending := fun key hkey h =>
      hmem (List.mem_map.mpr ⟨key, hkey, h⟩)
    refine .bind (P := fun a u => a = t.entries.get? pending ∧ u = t)
      (orCorrupt_goes (lstat_goes hR ⟨rfl, rfl⟩)) ?_
    rintro a u ⟨ha, rfl⟩
    split
    · refine .pure (H.skip fun key _ _ hhas => ?_)
      rw [Store.Has, ← ha] at hhas
      cases hhas
    · exact .raise hR
    · split
      · rename_i hnone
        exact .pure (H.skip fun key _ hfile => by rw [hnone] at hfile; cases hfile)
      · rename_i filename hfile
        have hhas : u.Has pending := by
          rw [Store.Has, ← ha]
          rfl
        -- stale: no listed key is named so; otherwise its file is not at its name
        refine .bind (P := fun stale v => v = u ∧
          (stale = true ↔ filename ∉ u.listed.map Key.filename)) ?_ ?_
        · unfold isStale
          split
          · rename_i hlisted
            refine pathEntryExists_goes hR fun b hb => ⟨rfl, ?_⟩
            obtain ⟨key, hkey, rfl⟩ := List.mem_map.mp hlisted
            refine iff_of_false (fun htrue => ?_) (not_not.mpr hlisted)
            obtain ⟨name, -, -, hone⟩ := H.inv.kept key hkey
            have h₁ := hone key.filename (.inl rfl) (hb.mp htrue)
            have h₂ := hone pending (.inr hfile) hhas
            exact hpending key hkey (h₁.trans h₂.symm)
          · rename_i hunlisted
            exact .pure ⟨rfl, iff_of_true rfl hunlisted⟩
        · rintro stale v ⟨rfl, hstale⟩
          split
          · rename_i htrue
            have hno : ∀ key ∈ v.listed, ¬ Stands key.filename pending := by
              rintro key hkey (h | h)
              · exact hpending key hkey h.symm
              · refine hstale.mp htrue (List.mem_map.mpr ⟨key, hkey, ?_⟩)
                exact (Option.some.inj (hfile.symm.trans h)).symm
            have hskip := H.skip fun key hkey h _ => absurd (.inr h) (hno key hkey)
            refine .bind (P := fun _ => Reconciling env admits s rest) ?_ fun _ w hw => .pure hw
            exact (removePendingKeyEntry_goes hskip (hskip.remove hno)).mono (fun _ _ h => h)
              (fun _ w hw => ⟨hw.inv, hw.loaded⟩) fun w hw => ⟨hw.inv, hw.loaded⟩
          · rename_i hfalse
            have hlisted := not_not.mp (mt hstale.mpr hfalse)
            obtain ⟨key, hkey, rfl⟩ := List.mem_map.mp hlisted
            have hmove := fun (entry : Entry) (hentry : v.entries.get? pending = some entry) =>
              H.move hkey hfile hpending hentry
            refine orCorrupt_goes ((replaceKeyEntry_goes hR fun entry hentry => ?_).mono ?_
              (fun _ _ h => h) fun _ h => h)
            · exact ⟨(hmove entry hentry).inv, (hmove entry hentry).loaded⟩
            · rintro - w ⟨entry, hentry, rfl⟩
              exact hmove entry hentry

/-- Every listed key's file is at its name once all staging entries have been looked at. -/
theorem reconcileEntries_goes {keys : List Key} {pending : List String}
    (H : Reconciling env admits s pending t) (hkeys : keys = s.listed) :
    Goes (reconcileEntries (keys.map Key.filename) pending)
      (fun _ => Reconciling env admits s []) (fun u => Inv env admits u ∧ Loaded s u) t := by
  induction pending generalizing t with
  | nil => exact .pure H
  | cons name rest ih =>
    refine .bind (P := fun _ => Reconciling env admits s rest)
      (reconcileEntry_goes H (hkeys.trans H.loaded.listed.symm)) fun _ u hu => ?_
    exact ih hu

theorem mem_pendingEntries {name filename : String} (hfile : pendingDeleteFilename name = some filename)
    (hhas : s.Has name) : name ∈ pendingEntries s := by
  refine (List.perm_insertionSort _ _).mem_iff.mpr (List.mem_filter.mpr ⟨?_, by rw [hfile]; rfl⟩)
  obtain ⟨entry, hentry⟩ := Option.isSome_iff_exists.mp hhas
  exact Dict.mem_keys.mpr ⟨entry, hentry⟩

theorem reconcilePendingKeyDeletions_goes {keys : List Key} (H : Inv env admits t)
    (hloaded : Loaded s t) (hkeys : keys = s.listed) :
    Goes (reconcilePendingKeyDeletions keys) (fun _ => Reconciling env admits s [])
      (fun u => Inv env admits u ∧ Loaded s u) t := by
  refine .bind (P := fun pending u => pending = pendingEntries t ∧ u = t)
    (orCorrupt_goes (query_goes ⟨H, hloaded⟩ fun a ha => ?_)) ?_
  · cases ha
    exact ⟨rfl, rfl⟩
  · rintro pending u ⟨rfl, rfl⟩
    refine reconcileEntries_goes ⟨H, hloaded, fun key hkey => ?_⟩ hkeys
    obtain ⟨name, hstands, hholds, -⟩ := H.kept key hkey
    rcases hstands with rfl | hfile
    · exact .inl hholds.has
    · exact .inr ⟨name, mem_pendingEntries hfile hholds.has, hfile, hholds.has⟩

/-! ## The document -/

theorem loadKeyDocument_goes (H : Inv env admits s) :
    Goes loadKeyDocument
      (fun document t => Inv env admits t ∧ Loaded s t ∧ document.keys = s.listed)
      (fun t => Inv env admits t ∧ Loaded s t) s := by
  have hR : Inv env admits s ∧ Loaded s s := ⟨H, .refl⟩
  refine .bind (P := fun a u => a = s.metadata ∧ u = s)
    (orCorrupt_goes (query_goes hR fun a ha => ?_)) ?_
  · cases ha
    exact ⟨rfl, rfl⟩
  rintro a u ⟨rfl, rfl⟩
  split
  · rename_i hnone
    refine .pure ⟨H, .refl, ?_⟩
    rw [Store.listed, hnone]
    rfl
  · rename_i document hdocument
    have hlisted : u.listed = document.keys := by
      rw [Store.listed, hdocument]
      rfl
    refine .bind (P := fun r v => v = u ∧ r.1.keys = document.keys) (ofExcept_goes hR ?_) ?_
    · intro r hr
      unfold migrateDocument at hr
      split at hr
      · cases hr
      · cases hr
        exact ⟨rfl, rfl⟩
    rintro ⟨migrated, changed⟩ v ⟨rfl, hkeys⟩
    dsimp only at hkeys ⊢
    split
    · exact .raise hR
    · split
      · exact .pure ⟨H, .refl, hkeys.trans hlisted.symm⟩
      · have hput : Inv env admits (v.list migrated) ∧ Loaded v (v.list migrated) := by
          have hsame : (v.list migrated).listed = v.listed := hkeys.trans hlisted.symm
          exact ⟨H.congr hsame (fun _ _ _ _ => rfl) fun _ _ _ h => h,
            ⟨hsame, rfl, fun _ h => .inl h⟩⟩
        refine .bind (P := fun _ u => u = v) (touch_goes hR rfl) ?_
        rintro - u rfl
        refine .bind (P := fun _ t => t = u.list migrated) ?_ ?_
        · refine .call (fun _ => hR) hR fun n a t hop => ?_
          cases hop
          exact ⟨trivial, rfl, fun _ => hput, hput⟩
        · rintro - t rfl
          exact .pure ⟨hput.1, hput.2, hkeys.trans hlisted.symm⟩

/-- What a load that returns `keys` has done. -/
structure Reconciled (env : Env) (admits : String → String → Prop) (s : Store) (keys : List Key)
    (t : Store) : Prop where
  inv : Inv env admits t
  loaded : Loaded s t
  keys_eq : t.user = true → keys = t.listed
  listed : ∀ key ∈ keys, key ∈ t.listed
  found : ∀ key ∈ keys, t.Has key.filename

theorem loadKeysWithLockHeld_goes (H : Inv env admits s) :
    Goes loadKeysWithLockHeld (Reconciled env admits s)
      (fun t => Inv env admits t ∧ Loaded s t) s := by
  have hR : Inv env admits s ∧ Loaded s s := ⟨H, .refl⟩
  refine .bind (P := fun b t => b = s.user ∧ t = s) (getUserKeysDir_goes hR ⟨rfl, rfl⟩) ?_
  rintro b t ⟨rfl, rfl⟩
  split
  · refine .bind (P := fun document u => Inv env admits u ∧ Loaded t u ∧ document.keys = t.listed)
      (loadKeyDocument_goes H) fun document u hu => ?_
    obtain ⟨hinv, hloaded, hkeys⟩ := hu
    refine .bind (P := fun _ => Reconciling env admits t [])
      (reconcilePendingKeyDeletions_goes hinv hloaded hkeys) fun _ v hv => ?_
    have hlisted : document.keys = v.listed := hkeys.trans hv.loaded.listed.symm
    refine .pure ⟨hv.inv, hv.loaded, fun _ => hlisted, fun key hkey => hlisted ▸ hkey, ?_⟩
    intro key hkey
    rcases hv.found key (hlisted ▸ hkey) with h | ⟨_, h, -⟩
    · exact h
    · exact absurd h List.not_mem_nil
  · rename_i huser
    refine .pure ⟨H, .refl, fun h => absurd h huser, ?_, ?_⟩
    · exact fun key h => absurd h List.not_mem_nil
    · exact fun key h => absurd h List.not_mem_nil

end WebSSH.Keys
