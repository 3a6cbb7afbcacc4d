import Mathlib
import WebSSH.Keys.Loading

/-!
# What the operations keep

Saving, renaming, reading, replacing and deleting a key keep the file of every listed key, whichever
way they end; but a save whose document is written although the write is reported as failed.
-/

namespace WebSSH.Keys
open Lib Program Python

variable {env : Env} {admits : String → String → Prop} {s t : Store}

/-! ## Names -/

theorem startsWith_append {a b : String} : startsWith (a ++ b) a = true := by
  rw [startsWith, String.toList_append]
  exact List.isPrefixOf_iff_prefix.mpr ⟨b.toList, rfl⟩

theorem removePrefix_append {a b : String} : removePrefix (a ++ b) a = b := by
  rw [removePrefix, if_pos startsWith_append, String.toList_append, List.drop_left,
    String.ofList_toList]

theorem hex_ne_dash {u : Uuid} {c : Char} (h : c ∈ u.hex.toList) : c ≠ '-' := by
  rintro rfl
  exact absurd (u.digits _ h) (by decide)

theorem pendingDeleteFilename_pendingName {token : Uuid} {filename : String}
    (hsafe : isSafeKeyFilename filename = true) :
    pendingDeleteFilename (pendingName token filename) = some filename := by
  have hname : pendingName token filename =
      deleteStagingPrefix ++ (token.hex ++ ("-" ++ filename)) := by
    simp only [pendingName, String.append_assoc]
  have hlist : (token.hex ++ ("-" ++ filename)).toList =
      token.hex.toList ++ '-' :: filename.toList := by
    simp [String.toList_append]
  have htoken : ∀ c ∈ token.hex.toList, decide (c ≠ '-') = true := fun c hc =>
    decide_eq_true (hex_ne_dash hc)
  have hdigits : (token.hex.toList.any fun c => !("0123456789abcdef".toList.contains c)) = false := by
    refine List.any_eq_false.mpr fun c hc => ?_
    rw [List.contains_iff_mem.mpr (token.digits c hc)]
    decide
  rw [pendingDeleteFilename, hname, if_pos startsWith_append, removePrefix_append, hlist]
  dsimp only
  rw [List.takeWhile_append_of_pos htoken, List.dropWhile_append_of_pos htoken,
    List.takeWhile_cons_of_neg (by decide), List.dropWhile_cons_of_neg (by decide)]
  simp only [List.append_nil, String.ofList_toList]
  rw [hdigits, hsafe, token.length]
  rfl

theorem suffix_of_pending {name filename : String}
    (h : pendingDeleteFilename name = some filename) : filename.toList <:+ name.toList := by
  unfold pendingDeleteFilename at h
  split at h
  · rename_i hstarts
    have hremainder : (removePrefix name deleteStagingPrefix).toList <:+ name.toList := by
      rw [removePrefix, if_pos hstarts, String.toList_ofList]
      exact List.drop_suffix _ _
    dsimp only at h
    split at h
    · cases h
    · rename_i rest hrest
      split at h
      · cases h
      · cases h
        rw [String.toList_ofList]
        have hdrop : rest <:+ (removePrefix name deleteStagingPrefix).toList :=
          (List.suffix_cons _ _).trans (hrest ▸ List.dropWhile_suffix _)
        exact hdrop.trans hremainder
  · cases h

theorem pendingDeleteFilename_pem {u : Uuid} : pendingDeleteFilename (u.str ++ ".pem") = none := by
  have hstart : startsWith (u.str ++ ".pem") deleteStagingPrefix = false := by
    obtain ⟨c, rest, hlist⟩ := List.exists_cons_of_length_pos (l := u.hex.toList)
      (by rw [u.length]; decide)
    have hc : c ≠ '.' := by
      rintro rfl
      exact absurd (u.digits '.' (hlist ▸ List.mem_cons_self)) (by decide)
    rw [startsWith, String.toList_append, Uuid.str, hlist]
    simp [deleteStagingPrefix, List.isPrefixOf, hc.symm]
  rw [pendingDeleteFilename, hstart]
  rfl

/-- Every name the store knows. -/
def Store.names (s : Store) : List String :=
  s.entries.keys ++ s.listed.map Key.filename ++ s.listed.map Key.id

/-- None of the names holds the value drawn: `uuid4` does not return a value twice. -/
def Fresh (names : List String) (u : Uuid) : Prop :=
  ∀ name ∈ names, ¬ u.str.toList <:+: name.toList ∧ ¬ u.hex.toList <:+: name.toList

theorem Store.mem_names_of_has {name : String} (h : s.Has name) : name ∈ s.names := by
  obtain ⟨entry, hentry⟩ := Option.isSome_iff_exists.mp h
  exact List.mem_append_left _ (List.mem_append_left _ (Dict.mem_keys.mpr ⟨entry, hentry⟩))

theorem Store.filename_mem_names {key : Key} (h : key ∈ s.listed) : key.filename ∈ s.names :=
  List.mem_append_left _ (List.mem_append_right _ (List.mem_map_of_mem h))

theorem Loaded.fresh (H : Loaded s t) {u : Uuid} (h : Fresh s.names u) : Fresh t.names u := by
  intro name hname
  rcases List.mem_append.mp hname with hname | hname
  · rcases List.mem_append.mp hname with hname | hname
    · obtain ⟨entry, hentry⟩ := Dict.mem_keys.mp hname
      rcases H.names name (by rw [Store.Has, hentry]; rfl) with hhas | ⟨key, hkey, rfl⟩
      · exact h name (Store.mem_names_of_has hhas)
      · exact h _ (Store.filename_mem_names hkey)
    · rw [H.listed] at hname
      exact h name (List.mem_append_left _ (List.mem_append_right _ hname))
  · rw [H.listed] at hname
    exact h name (List.mem_append_right _ hname)

theorem infix_pem {u : Uuid} : u.str.toList <:+: (u.str ++ ".pem").toList := by
  rw [String.toList_append]
  exact (List.prefix_append _ _).isInfix

theorem infix_pendingName {u : Uuid} {filename : String} :
    u.hex.toList <:+: (pendingName u filename).toList := by
  simp only [pendingName, String.toList_append]
  exact ⟨deleteStagingPrefix.toList, "-".toList ++ filename.toList, by simp⟩

/-- Nothing stands for a key whose file is named by a fresh value. -/
theorem Fresh.not_stands {u : Uuid} (h : Fresh s.names u) {name : String} (hhas : s.Has name) :
    ¬ Stands (u.str ++ ".pem") name := by
  rintro (rfl | hfile)
  · exact (h _ (Store.mem_names_of_has hhas)).1 infix_pem
  · exact (h _ (Store.mem_names_of_has hhas)).1
      (infix_pem.trans (suffix_of_pending hfile).isInfix)

theorem Fresh.not_stands_listed {u : Uuid} (h : Fresh s.names u) :
    ∀ key ∈ s.listed, ¬ Stands key.filename (u.str ++ ".pem") := by
  rintro key hkey (hname | hfile)
  · exact (h _ (Store.filename_mem_names hkey)).1 (hname ▸ infix_pem)
  · rw [pendingDeleteFilename_pem] at hfile
    cases hfile

theorem Fresh.pending_ne {u : Uuid} (h : Fresh s.names u) :
    ∀ key ∈ s.listed, pendingDeleteFilename key.filename ≠ some (u.str ++ ".pem") := by
  intro key hkey hfile
  exact (h _ (Store.filename_mem_names hkey)).1 (infix_pem.trans (suffix_of_pending hfile).isInfix)

/-- A fresh value names a staging entry that stands for no key but that of its file. -/
theorem Fresh.alone {u : Uuid} (h : Fresh s.names u) {filename : String}
    (hsafe : isSafeKeyFilename filename = true) : Alone s filename (pendingName u filename) := by
  rintro key hkey (hname | hfile)
  · exact absurd (hname ▸ infix_pendingName) (h _ (Store.filename_mem_names hkey)).2
  · rw [pendingDeleteFilename_pendingName hsafe] at hfile
    exact (Option.some.inj hfile).symm

/-! ## Writing the document -/

theorem saveKeys_wp {metadata : Answer Error} {keys : List Key} {Q : Bool → Store → Prop}
    {R A : Store → Prop} (hR : R s) (hA : A s) (hfalse : Q false s)
    (h : s.user = true → validKeyDocument ⟨currentStorageVersion, keys⟩ = true →
      (metadata.fault = .none → Q true (s.list ⟨currentStorageVersion, keys⟩)) ∧
      (∀ e, metadata.fault = .raises true e → Q false (s.list ⟨currentStorageVersion, keys⟩) ∧
        R (s.list ⟨currentStorageVersion, keys⟩)) ∧
      (metadata.fault = .aborts true → A (s.list ⟨currentStorageVersion, keys⟩))) :
    (saveKeys metadata keys).Wp (fun _ => True) Q (fun _ => R) A s := by
  refine .handle (E := fun _ t => Q false t ∧ R t) ?_ fun e t ht => ?_
  · have hstays : ∀ t, t = s → Q false t ∧ R t := fun t ht => ht ▸ ⟨hfalse, hR⟩
    have haborts : ∀ t, t = s → A t := fun t ht => ht ▸ hA
    refine .bind (P := fun b t => b = s.user ∧ t = s)
      ((getUserKeysDir_goes (R := (· = s)) rfl ⟨rfl, rfl⟩).mono (fun _ _ h => h)
        (fun _ => hstays) haborts) ?_
    rintro b t ⟨rfl, rfl⟩
    dsimp only
    split
    · exact .pure hfalse
    · rename_i hdone
      simp only [Bool.or_eq_true, Bool.not_eq_true', not_or, Bool.not_eq_false] at hdone
      refine .bind (P := fun _ u => u = t)
        ((touch_goes (R := (· = t)) rfl rfl).mono (fun _ _ h => h) (fun _ => hstays) haborts) ?_
      rintro - u rfl
      obtain ⟨hnone, hraises, haborted⟩ := h hdone.1 hdone.2
      refine .bind (P := fun _ => Q true) (.meet (fun _ => ⟨hfalse, hR⟩) hA ?_) fun _ v hv => .pure hv
      intro n a v hput
      cases hput
      exact ⟨trivial, hnone, hraises, haborted⟩
  · cases e with
    | os text => exact .pure ht.1
    | _ => exact .raise ht.2

/-- The document is written, or is not. -/
theorem saveKeys_goes {metadata : Answer Error} {keys : List Key} {P : Store → Prop}
    {Q : Store → Prop} (hs : P s)
    (h : s.user = true → validKeyDocument ⟨currentStorageVersion, keys⟩ = true →
      P (s.list ⟨currentStorageVersion, keys⟩) ∧ Q (s.list ⟨currentStorageVersion, keys⟩)) :
    Goes (saveKeys metadata keys) (fun saved t => P t ∧ (saved = true → Q t)) P s := by
  refine saveKeys_wp hs hs ⟨hs, nofun⟩ fun huser hvalid => ?_
  obtain ⟨hp, hq⟩ := h huser hvalid
  exact ⟨fun _ => ⟨hp, fun _ => hq⟩, fun _ _ => ⟨⟨hp, nofun⟩, hp⟩, fun _ => hp⟩

/-! ## Saving -/

theorem storedKeyBytes_goes {keys : List Key} {P : Store → Prop} (hs : P s) :
    Goes (storedKeyBytes keys) (fun _ => P) P s := by
  induction keys generalizing s with
  | nil => exact .pure hs
  | cons key rest ih =>
    refine .bind (P := fun _ => P) (safeKeyPath_goes hs fun _ => hs) fun _ t ht => ?_
    refine .bind (P := fun _ => P) (lstat_goes ht ht) fun _ u hu => ?_
    exact .bind (P := fun _ => P) (ih hu) fun _ v hv => .pure hv

theorem writePreparedKeyContent_goes {filename : String} {encrypted : Bytes} {P : Store → Prop}
    (hs : P s) (h : P (s.put filename encrypted)) :
    Goes (writePreparedKeyContent filename encrypted)
      (fun written t => P t ∧ (written = true → t = s.put filename encrypted)) P s := by
  refine .handle (E := fun _ => P) ?_ fun _ t ht => .pure ⟨ht, nofun⟩
  refine .bind (P := fun _ t => t = s) (touch_goes hs rfl) ?_
  rintro - t rfl
  refine .bind (P := fun _ u => u = t.put filename encrypted)
    (atomicWriteBytes_goes hs ⟨rfl, h⟩) ?_
  rintro - u rfl
  exact .pure ⟨h, fun _ => rfl⟩

theorem removeKeyAfterMetadataFailure_goes {filename : String} {P : Store → Prop} (hs : P s)
    (h : P (s.remove filename)) :
    Goes (removeKeyAfterMetadataFailure filename) (fun _ => P) P s :=
  .handle (E := fun _ => P) (unlink_goes hs ⟨h, h⟩) fun _ _ ht => .pure ht

/-- `content` is admitted of the key `id` too. -/
def withContent (admits : String → String → Prop) (id content : String) : String → String → Prop :=
  fun i c => admits i c ∨ i = id ∧ c = content

/-- What is encrypted can be read. -/
structure Env.Lawful (env : Env) : Prop where
  isEncrypted : ∀ nonce plaintext, isEncrypted env (env.encrypt nonce plaintext) = true
  decrypt : ∀ nonce plaintext, env.decrypt (env.encrypt nonce plaintext) = some plaintext

theorem Env.Lawful.contentOf (L : env.Lawful) (nonce : Nat) (content : String) :
    contentOf env (encryptKeyContent env nonce content) = .ok content := by
  rw [Keys.contentOf, encryptKeyContent, if_pos (L.isEncrypted nonce _), decryptKeyContent,
    L.decrypt]
  dsimp only
  rw [decode_encode]

/-- `P` holds where the document has been written, `N` where it has not. -/
def Recorded (P N : Store → Prop) : Except Error Bool → Store → Prop
  | .ok true, w => P w
  | _, w => N w

/-- A save that has failed has listed nothing, unless the write of the document has taken effect. -/
theorem saveKeyWithLockHeld_wp (L : env.Lawful) (H : Inv env admits s) {keyId : Uuid}
    (hfresh : Fresh s.names keyId) {metadata : Answer Error}
    (hfault : ∀ e, metadata.fault ≠ .raises true e) {nonce : Nat} {name keyType content : String} :
    (saveKeyWithLockHeld env metadata ⟨keyId.str, name, keyId.str ++ ".pem", keyType⟩
      (encryptKeyContent env nonce content)).Wp (fun _ => True)
      (fun outcome t => if outcome.2 = none then
        Inv env (withContent admits keyId.str content) t else Inv env admits t)
      (fun _ => Inv env admits)
      (fun t => Inv env admits t ∨
        metadata.fault = .aborts true ∧ Inv env (withContent admits keyId.str content) t) s := by
  have hleave : ∀ t, Inv env admits t → Inv env admits t ∨ metadata.fault = .aborts true ∧
      Inv env (withContent admits keyId.str content) t := fun t h => .inl h
  refine .bind (P := Reconciled env admits s) ((loadKeysWithLockHeld_goes H).mono
    (fun _ _ h => h) (fun _ _ h => h.1) fun t h => .inl h.1) fun keys t ht => ?_
  have hfresh := ht.loaded.fresh hfresh
  have hnot := hfresh.not_stands_listed
  split
  · exact .pure ht.inv
  refine .bind (P := fun _ u => u = t) ((storedKeyBytes_goes (P := (· = t)) rfl).mono
    (fun _ _ h => h) (fun _ u h => h ▸ ht.inv) fun u h => .inl (h ▸ ht.inv)) ?_
  rintro total u rfl
  split
  · exact .pure ht.inv
  refine .bind ((writePreparedKeyContent_goes ht.inv (ht.inv.put hnot)).mono (fun _ _ h => h)
    (fun _ _ h => h) hleave) fun written v hv => ?_
  obtain ⟨hv, hwritten⟩ := hv
  split
  · exact .pure hv
  rename_i htrue
  have hput := hwritten (by simpa using htrue)
  subst hput
  have hremove := fun w (hw : Inv env admits w ∧ w.listed = u.listed) =>
    (removeKeyAfterMetadataFailure_goes hw.1 (hw.1.remove (hw.2 ▸ hnot))).mono
      (fun _ _ h => h) (fun _ _ h => h) hleave
  refine .bind (P := Recorded (fun w => Inv env (withContent admits keyId.str content) w)
    fun w => Inv env admits w ∧ w.listed = u.listed) (.attempt ?_) ?_
  · refine saveKeys_wp (R := fun w => Inv env admits w ∧ w.listed = u.listed) ⟨hv, rfl⟩
      (Or.inl hv) (show _ ∧ _ from ⟨hv, rfl⟩) fun huser hvalid => ?_
    have hadded : Inv env (withContent admits keyId.str content)
        ((u.put (keyId.str ++ ".pem") (encryptKeyContent env nonce content)).list
          ⟨currentStorageVersion, keys ++ [⟨keyId.str, name, keyId.str ++ ".pem", keyType⟩]⟩) := by
      cases ht.keys_eq huser
      refine hv.add hvalid pendingDeleteFilename_pem hfresh.pending_ne ?_ ?_ fun _ _ _ => .inl
      · exact ⟨_, content, Store.get?_put.trans (if_pos rfl), L.contentOf nonce content,
          .inr ⟨rfl, rfl⟩⟩
      · intro other hstands hhas
        rw [Store.Has, Store.get?_put] at hhas
        split at hhas
        · assumption
        · exact absurd hstands (hfresh.not_stands hhas)
    exact ⟨fun _ => hadded, fun e he => absurd he (hfault e), fun h => .inr ⟨h, hadded⟩⟩
  · intro r w hw
    split
    · exact .bind (hremove w hw) fun _ _ h => .raise h
    · exact .bind (hremove w hw) fun _ _ h => .pure h
    · exact .pure hw
    · exact .bind (hremove w hw) fun _ _ h => .pure h

theorem saveKey_wp (L : env.Lawful) (H : Inv env admits s) {keyId : Uuid}
    (hfresh : Fresh s.names keyId) {metadata : Answer Error}
    (hfault : ∀ e, metadata.fault ≠ .raises true e) {nonce : Nat} {name content : String} :
    (saveKey env keyId nonce metadata name content).Wp (fun _ => True)
      (fun outcome t => if outcome.2 = none then
        Inv env (withContent admits keyId.str content) t else Inv env admits t)
      (fun _ => Inv env admits)
      (fun t => Inv env admits t ∨
        metadata.fault = .aborts true ∧ Inv env (withContent admits keyId.str content) t) s := by
  refine orElse_wp ?_ fun e t ht => ht
  split
  · exact .pure H
  split
  · exact .pure H
  split
  · exact .pure H
  split
  · exact .pure H
  refine .bind (P := fun _ t => t = s) ((getUserKeysDir_goes (R := (· = s)) rfl rfl).mono
    (fun _ _ h => h) (fun _ t h => h ▸ H) fun t h => .inl (h ▸ H)) ?_
  rintro user t rfl
  split
  · exact .pure H
  split
  · split
    · exact .pure H
    · exact .raise H
  · exact saveKeyWithLockHeld_wp L H hfresh hfault

/-! ## Renaming -/

theorem Reconciled.find {keys : List Key} (H : Reconciled env admits s keys t) {keyId : String}
    {key : Key} (h : keys.find? (·.id = keyId) = some key) :
    key ∈ t.listed ∧ key.id = keyId ∧ t.Has key.filename :=
  have hkey := List.mem_of_find?_eq_some h
  ⟨H.listed key hkey, by simpa using List.find?_some h, H.found key hkey⟩

theorem renameKey_goes (H : Inv env admits s) {metadata : Answer Error} {keyId newName : String} :
    Goes (renameKey metadata keyId newName) (fun _ => Inv env admits) (Inv env admits) s := by
  unfold renameKey
  dsimp only
  split
  · exact .pure H
  split
  · exact .pure H
  split
  · exact .pure H
  refine .bind ((loadKeysWithLockHeld_goes H).mono (fun _ _ h => h) (fun _ _ h => h.1)
    fun _ h => h.1) fun keys t ht => ?_
  split
  · exact .pure ht.inv
  rename_i key hfind
  obtain ⟨hkey, hid, -⟩ := ht.find hfind
  refine .bind (saveKeys_goes (P := Inv env admits) (Q := fun _ => True) ht.inv
    fun huser hvalid => ⟨?_, trivial⟩) fun saved u hu => ?_
  · refine ht.inv.relist hvalid fun new hnew => ?_
    obtain ⟨old, hold, rfl⟩ := List.mem_map.mp hnew
    split
    · exact ⟨key, hkey, rfl, rfl⟩
    · exact ⟨old, ht.listed old hold, rfl, rfl⟩
  · split
    · exact .pure hu.1
    · exact .pure hu.1

/-! ## Reading and replacing -/

/-- A listed key whose file is at its own name, with content that is admitted. -/
structure AtHand (env : Env) (admits : String → String → Prop) (key : Key) (s : Store) : Prop where
  inv : Inv env admits s
  mem : key ∈ s.listed
  has : s.Has key.filename

theorem AtHand.put (H : AtHand env admits key s) {data : Bytes} {content : String}
    (hcontent : contentOf env data = .ok content) (hadmits : admits key.id content) :
    AtHand env admits key (s.put key.filename data) :=
  ⟨H.inv.putKey H.mem H.has hcontent hadmits fun _ _ _ _ h => h, H.mem, by
    rw [Store.Has, Store.get?_put, if_pos rfl]
    rfl⟩

/-- What is read of the file is content that is admitted. -/
theorem AtHand.holds (H : AtHand env admits key s) {data : Bytes}
    (h : s.entries.get? key.filename = some (.file data)) :
    ∃ content, contentOf env data = .ok content ∧ admits key.id content := by
  obtain ⟨name, -, hholds, hone⟩ := H.inv.kept key H.mem
  obtain ⟨data', content, hget, hcontent, hadmits⟩ := hholds
  rw [← hone key.filename (.inl rfl) H.has, h] at hget
  cases hget
  exact ⟨content, hcontent, hadmits⟩

theorem readBytes_goes {name : String} {Q : Option Bytes → Store → Prop} {R : Store → Prop}
    (hR : R s) (hnone : Q none s)
    (h : ∀ data, s.entries.get? name = some (.file data) → Q (some data) s) :
    Goes (readBytes name) Q R s := by
  refine query_goes hR fun a ha => ?_
  split at ha
  · cases ha
    exact hnone
  · cases ha
    exact h _ ‹_›
  · cases ha

theorem readStored_goes {name : String} {Q : Bytes → Store → Prop} {R : Store → Prop} (hR : R s)
    (h : ∀ data, s.entries.get? name = some (.file data) → Q data s) :
    Goes (readStored name) Q R s := by
  refine .bind (P := fun a t => t = s ∧ ∀ data, a = some data → Q data s)
    (readBytes_goes hR ⟨rfl, nofun⟩ fun data hdata => ⟨rfl, ?_⟩) ?_
  · intro data' h'
    cases h'
    exact h data hdata
  · rintro a t ⟨rfl, ha⟩
    split
    · exact .pure (ha _ rfl)
    · exact .raise hR

theorem writeVerified_goes {key : Key} {encrypted plaintext : Bytes} {reason content : String}
    (H : AtHand env admits key s) (hcontent : contentOf env encrypted = .ok content)
    (hadmits : admits key.id content) :
    Goes (writeVerified env key.filename encrypted plaintext reason)
      (fun _ t => AtHand env admits key t ∧ t.entries.get? key.filename = some (.file encrypted))
      (AtHand env admits key) s := by
  have hput := H.put hcontent hadmits
  refine .bind (P := fun _ t => t = s.put key.filename encrypted)
    (atomicWriteBytes_goes H ⟨rfl, hput⟩) ?_
  rintro - t rfl
  refine .bind (P := fun _ t => t = s.put key.filename encrypted)
    (readStored_goes hput fun _ _ => rfl) ?_
  rintro stored t rfl
  refine .bind (P := fun _ t => t = s.put key.filename encrypted)
    (ofExcept_goes hput fun _ _ => rfl) ?_
  rintro verified t rfl
  split
  · exact .pure ⟨hput, Store.get?_put.trans (if_pos rfl)⟩
  · exact .raise hput

theorem restore_goes {key : Key} {original : Bytes} {reason content : String}
    (H : AtHand env admits key s) (hcontent : contentOf env original = .ok content)
    (hadmits : admits key.id content) :
    Goes ((atomicWriteBytes key.filename original).handle fun _ => raise (.runtime reason))
      (fun _ => AtHand env admits key) (AtHand env admits key) s := by
  have hput := H.put hcontent hadmits
  refine .handle (E := fun _ => AtHand env admits key) (atomicWriteBytes_goes H ⟨hput, hput⟩)
    fun _ _ ht => .raise ht

theorem migrateKeyToEncrypted_goes (L : env.Lawful) {key : Key} {plaintext : Bytes}
    {content : String} {nonce : Nat} (H : AtHand env admits key s)
    (hplain : isEncrypted env plaintext = false)
    (hcontent : contentOf env plaintext = .ok content) (hadmits : admits key.id content) :
    Goes (migrateKeyToEncrypted env nonce key.filename plaintext)
      (fun _ => AtHand env admits key) (AtHand env admits key) s := by
  have hdecoded : decodeValidatedLegacyKey env plaintext = .ok content := by
    rw [contentOf, hplain] at hcontent
    exact hcontent
  rw [migrateKeyToEncrypted, hdecoded]
  refine .bind (P := fun text t => text = content ∧ t = s) (.pure ⟨rfl, rfl⟩) ?_
  rintro text t ⟨rfl, rfl⟩
  refine .handle (E := fun _ => AtHand env admits key)
    ((writeVerified_goes H (L.contentOf nonce _) hadmits).mono (fun _ _ h => h.1) (fun _ _ h => h)
      fun _ h => h) fun e u hu => ?_
  exact .bind (restore_goes hu hcontent hadmits) fun _ _ h => .raise h

theorem readKeyFile_goes (L : env.Lawful) {key : Key} {nonce : Nat} {migrateLegacy : Bool}
    (H : AtHand env admits key s) :
    Goes (readKeyFile env nonce key.filename migrateLegacy)
      (fun _ => AtHand env admits key) (AtHand env admits key) s := by
  refine .bind (P := fun a t => t = s ∧
    ∀ data, a = some data → s.entries.get? key.filename = some (.file data))
    (readBytes_goes H ⟨rfl, nofun⟩ fun data hdata => ⟨rfl, ?_⟩) ?_
  · intro data' h'
    cases h'
    exact hdata
  rintro a t ⟨rfl, ha⟩
  split
  · exact .pure H
  rename_i data
  obtain ⟨content, hcontent, hadmits⟩ := H.holds (ha data rfl)
  split
  · refine .bind (P := fun _ => AtHand env admits key) (ofExcept_goes H fun _ _ => H) ?_
    intro _ u hu
    exact .bind (P := fun _ => AtHand env admits key) (touch_goes hu hu) fun _ _ h => .pure h
  · rename_i hplain
    refine .bind (P := fun _ u => u = t) (ofExcept_goes H fun _ _ => rfl) ?_
    rintro _ u rfl
    split
    · exact .pure H
    · refine .bind (migrateKeyToEncrypted_goes L H (by simpa using hplain) hcontent hadmits) ?_
      exact fun _ _ h => .pure h

theorem readKeyContent_goes (L : env.Lawful) (H : Inv env admits s) {nonce : Nat} {keyId : String} :
    Goes (readKeyContent env nonce keyId) (fun _ => Inv env admits) (Inv env admits) s := by
  refine orElse_wp ?_ fun _ _ h => h
  refine .bind ((loadKeysWithLockHeld_goes H).mono (fun _ _ h => h) (fun _ _ h => h.1)
    fun _ h => h.1) fun keys t ht => ?_
  refine .bind (P := fun _ u => u = t) (getUserKeysDir_goes ht.inv rfl) ?_
  rintro _ u rfl
  split
  · split
    · exact .pure ht.inv
    rename_i key hfind
    obtain ⟨hkey, -, hhas⟩ := ht.find hfind
    refine .bind (P := fun _ v => v = u) (safeKeyPath_goes ht.inv fun _ => rfl) ?_
    rintro _ v rfl
    refine .bind (P := fun _ w => w = v) (getUserKeysDir_goes ht.inv rfl) ?_
    rintro _ w rfl
    split
    · refine .bind ((readKeyFile_goes L ⟨ht.inv, hkey, hhas⟩).mono (fun _ _ h => h.inv)
        (fun _ _ h => h.inv) fun _ h => h.inv) fun content x hx => ?_
      split
      · exact .pure hx
      · exact .pure hx
    · exact .pure ht.inv
  · exact .pure ht.inv

/-- The content of the key `id` is `content`. -/
def onlyContent (admits : String → String → Prop) (id content : String) : String → String → Prop :=
  fun i c => if i = id then c = content else admits i c

/-- The file of the key has been replaced. -/
theorem AtHand.only {key : Key} (H : AtHand env admits key s) {data : Bytes} {content : String}
    (hdata : s.entries.get? key.filename = some (.file data))
    (hcontent : contentOf env data = .ok content) :
    Inv env (onlyContent admits key.id content) s := by
  refine ⟨H.inv.ids, H.inv.filenames, H.inv.apart, fun other hother => ?_⟩
  by_cases hsame : other.id = key.id
  · cases H.inv.key_eq_of_id hother H.mem hsame
    obtain ⟨name, hstands, -, hone⟩ := H.inv.kept key H.mem
    cases hone key.filename (.inl rfl) H.has
    refine ⟨key.filename, hstands, ⟨data, content, hdata, hcontent, ?_⟩, hone⟩
    rw [onlyContent, if_pos rfl]
  · refine (H.inv.kept other hother).mono (fun _ _ => rfl) fun c hc => ?_
    rw [onlyContent, if_neg hsame]
    exact hc

theorem replacePreparedKeyContent_goes {key : Key} {keyContent : String} {encrypted : Bytes}
    (H : AtHand env admits key s) (hcontent : contentOf env encrypted = .ok keyContent)
    (hadmits : admits key.id keyContent) :
    Goes (replacePreparedKeyContent env key.filename keyContent encrypted)
      (fun replaced t => AtHand env admits key t ∧ (replaced = true →
        t.entries.get? key.filename = some (.file encrypted)))
      (AtHand env admits key) s := by
  refine .handle (E := fun _ => AtHand env admits key) ?_ fun e t ht => ?_
  · refine .bind (P := fun original t => t = s ∧
      s.entries.get? key.filename = some (.file original))
      (readStored_goes H fun _ h => ⟨rfl, h⟩) ?_
    rintro original t ⟨rfl, horiginal⟩
    obtain ⟨content, horiginal, hold⟩ := H.holds horiginal
    refine .handle (E := fun _ => AtHand env admits key) ?_ fun _ u hu => ?_
    · refine .bind (writeVerified_goes H hcontent hadmits) fun _ u hu => ?_
      exact .pure ⟨hu.1, fun _ => hu.2⟩
    · refine .bind (restore_goes hu horiginal hold) fun _ v hv => .pure ⟨hv, nofun⟩
  · cases e with
    | runtime text => exact .raise ht
    | _ => exact .pure ⟨ht, nofun⟩

theorem replaceKeyWithLockHeld_goes (L : env.Lawful) {nonce : Nat}
    {keyId keyContent replacementType : String} (H : Inv env admits s) :
    Goes (replaceKeyWithLockHeld env nonce keyId keyContent replacementType)
      (fun outcome => if outcome.2 = none then
        Inv env (onlyContent admits keyId keyContent)
        else Inv env (withContent admits keyId keyContent))
      (Inv env (withContent admits keyId keyContent)) s := by
  have hle : ∀ {t : Store}, Inv env admits t → Inv env (withContent admits keyId keyContent) t :=
    fun h => h.mono fun _ _ _ => .inl
  refine .bind ((loadKeysWithLockHeld_goes H).mono (fun _ _ h => h) (fun _ _ h => hle h.1)
    fun _ h => hle h.1) fun keys t ht => ?_
  have hinv := hle ht.inv
  split
  · exact .pure hinv
  rename_i key hfind
  obtain ⟨hkey, hid, hhas⟩ := ht.find hfind
  have hhand : AtHand env (withContent admits keyId keyContent) key t := ⟨hinv, hkey, hhas⟩
  refine .bind (P := fun _ u => u = t) (getUserKeysDir_goes hinv rfl) ?_
  rintro _ u rfl
  split
  · exact .pure hinv
  refine .bind (P := fun _ v => v = u) (safeKeyPath_goes hinv fun _ => rfl) ?_
  rintro _ v rfl
  refine .bind (P := fun _ w => w = v) (pathEntryExists_goes hinv fun _ _ => rfl) ?_
  rintro _ w rfl
  split
  · exact .pure hinv
  refine .bind ((readKeyFile_goes L hhand).mono (fun _ _ h => h) (fun _ _ h => h.inv)
    fun _ h => h.inv) fun stored x hx => ?_
  split
  · exact .raise hx.inv
  refine .bind (P := fun _ y => y = x) (ofExcept_goes hx.inv fun _ _ => rfl) ?_
  rintro _ y rfl
  split
  · exact .pure hx.inv
  split
  · exact .pure hx.inv
  refine .bind (P := fun _ z => z = y) ((storedKeyBytes_goes (P := (· = y)) rfl).mono
    (fun _ _ h => h) (fun _ _ h => h ▸ hx.inv) fun _ h => h ▸ hx.inv) ?_
  rintro _ z rfl
  refine .bind (P := fun _ w => w = z) (readStored_goes hx.inv fun _ _ => rfl) ?_
  rintro _ w rfl
  dsimp only
  split
  · exact .pure hx.inv
  refine .bind ((replacePreparedKeyContent_goes hx (L.contentOf nonce keyContent)
    (.inr ⟨hid, rfl⟩)).mono (fun _ _ h => h) (fun _ _ h => h.inv) fun _ h => h.inv)
    fun replaced v hv => ?_
  split
  · exact .pure hv.1.inv
  · rename_i htrue
    have honly := hv.1.only (hv.2 (by simpa using htrue)) (L.contentOf nonce keyContent)
    refine .pure (honly.mono fun other _ c hc => ?_)
    rw [← hid]
    unfold onlyContent withContent at hc
    unfold onlyContent
    split at hc
    · rw [if_pos ‹_›]
      exact hc
    · rw [if_neg ‹_›]
      rcases hc with hc | ⟨hsame, -⟩
      · exact hc
      · exact absurd (hsame.trans hid.symm) ‹_›

theorem replaceKey_goes (L : env.Lawful) {nonce : Nat} {keyId keyContent : String}
    (H : Inv env admits s) :
    Goes (replaceKey env nonce keyId keyContent)
      (fun outcome => if outcome.2 = none then
        Inv env (onlyContent admits keyId keyContent)
        else Inv env (withContent admits keyId keyContent))
      (Inv env (withContent admits keyId keyContent)) s := by
  have hinv : Inv env (withContent admits keyId keyContent) s := H.mono fun _ _ _ => .inl
  unfold replaceKey
  split
  · exact .pure hinv
  split
  · exact .pure hinv
  split
  · exact .pure hinv
  refine orElse_wp ?_ fun _ _ h => h
  split
  · split
    · exact .pure hinv
    · exact .raise hinv
  · exact replaceKeyWithLockHeld_goes L H

end WebSSH.Keys
