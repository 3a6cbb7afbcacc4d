import WebSSH.Keys.Deletion
import WebSSH.Lib.System

/-!
# The key store is consistent

The requests of one user come one after another; each may fail at any file operation, or end there
with the process. Of each key it is recorded what the last request that reported success gave it,
and what later requests have tried to give it.
-/

namespace WebSSH.Keys
open Lib Program Python

variable {env : Env}

/-- The contents a key has been given. -/
structure Record where
  /-- By the last save or replace that reported success. -/
  last : Option String
  /-- By later replaces that did not. -/
  later : List String
  /-- By a save that did not, where none has. -/
  attempt : Option String
  deriving DecidableEq

namespace Record

def none : Record := ⟨.none, [], .none⟩
def report (content : String) : Record := ⟨some content, [], .none⟩

/-- `content` was given by the last save or replace that reported success, or by a later replace. -/
def Gave (r : Record) (content : String) : Prop := r.last = some content ∨ content ∈ r.later

/-- What may be read of the key; `whole` leaves out what only a save gave that did not report
success. -/
def Admits (whole : Bool) (r : Record) (content : String) : Prop :=
  r.Gave content ∨ whole = false ∧ r.attempt = some content

end Record

structure State where
  store : Store
  records : Dict String Record

def State.record (s : State) (id : String) : Record := s.records.getD id .none

/-- A request, with the values it draws and what its write of the document meets. -/
inductive Request
  | saveKey (keyId : Uuid) (nonce : Nat) (metadata : Answer Error) (name keyContent : String)
  | replaceKey (nonce : Nat) (keyId keyContent : String)
  | renameKey (metadata : Answer Error) (keyId newName : String)
  | deleteKey (token : Uuid) (metadata : Answer Error) (keyId : String)
  | readKeyContent (nonce : Nat) (keyId : String)
  | loadKeys

/-- The request returns, and whether it reports success. -/
def perform (env : Env) : Request → Session Bool
  | .saveKey keyId nonce metadata name keyContent => do
    let outcome ← saveKey env keyId nonce metadata name keyContent
    return outcome.2 = none
  | .replaceKey nonce keyId keyContent => do
    let outcome ← replaceKey env nonce keyId keyContent
    return outcome.2 = none
  | .renameKey metadata keyId newName => do
    let outcome ← renameKey metadata keyId newName
    return outcome.2 = none
  | .deleteKey token metadata keyId => deleteKey token metadata keyId
  | .readKeyContent nonce keyId => do
    let outcome ← readKeyContent env nonce keyId
    return outcome.2 = none
  | .loadKeys => do
    let _ ← loadKeys
    return true

def succeeded : Result Error Bool → Bool
  | .ok reported => reported
  | _ => false

/-- What is recorded of a request that has ended. -/
def State.note (s : State) (request : Request) (done : Bool) : Dict String Record :=
  match request with
  | .saveKey keyId _ _ _ keyContent =>
    s.records.set keyId.str (if done then .report keyContent
      else { s.record keyId.str with attempt := some keyContent })
  | .replaceKey _ keyId keyContent =>
    s.records.set keyId (if done then .report keyContent
      else { s.record keyId with later := keyContent :: (s.record keyId).later })
  | _ => s.records

/-- `uuid4` has not returned the value the request draws before. -/
def State.Draws (s : State) : Request → Prop
  | .saveKey keyId .. => Fresh (s.store.names ++ s.records.keys) keyId
  | .deleteKey token .. => Fresh s.store.names token
  | _ => True

def execute (env : Env) (s : State) (request : Request) (script : Script Error) : State :=
  let (result, trace) := perform env request script ⟨s.store, [], 0⟩
  ⟨trace.state, s.note request (succeeded result)⟩

/-- Each listed key has its file, which holds what it was given, and nothing is staged. -/
structure Consistent (env : Env) (s : State) : Prop where
  ids : (s.store.listed.map Key.id).Nodup
  filenames : (s.store.listed.map Key.filename).Nodup
  stored : ∀ key ∈ s.store.listed,
    Holds env (fun content => s.record key.id = .report content) s.store key.filename
  unstaged : ∀ key ∈ s.store.listed, ∀ name, s.store.Has name →
    pendingDeleteFilename name ≠ some key.filename

/-- The requests of the user, in order. -/
def keyStore (env : Env) : System State (Request × Script Error) where
  Init := Consistent env
  Step s e t := s.Draws e.1 ∧ execute env s e.1 e.2 = t

/-- A save that gets as far as the write of its document: it reports success when nothing happens
to that write. -/
def Request.WritesKey (env : Env) (s : State) (script : Script Error) : Request → Prop
  | .saveKey keyId nonce _ name keyContent =>
    succeeded (perform env (.saveKey keyId nonce ⟨.none, 0⟩ name keyContent) script
      ⟨s.store, [], 0⟩).1 = true
  | _ => False

/-- What the write of the document meets. -/
def Request.fault : Request → Fault Error
  | .saveKey _ _ metadata .. | .renameKey metadata .. | .deleteKey _ metadata _ => metadata.fault
  | _ => .none

/-- The write of the document of a new key takes effect and is reported as failed. -/
def LosesKey (env : Env) (s : State) (e : Request × Script Error) : Prop :=
  e.1.WritesKey env s e.2 ∧ ∃ error, e.1.fault = .raises true error

/-- The process ends when the document of a new key has been written. -/
def EndsListed (env : Env) (s : State) (e : Request × Script Error) : Prop :=
  e.1.WritesKey env s e.2 ∧ e.1.fault = .aborts true

/-- What may be read of the keys. -/
def State.Admits (s : State) (whole : Bool) (id content : String) : Prop :=
  (s.record id).Admits whole content

theorem Consistent.inv {s : State} (H : Consistent env s) (whole : Bool) :
    Inv env (s.Admits whole) s.store where
  ids := H.ids
  filenames := H.filenames
  apart key hkey other hother := H.unstaged other hother _ (H.stored key hkey).has
  kept key hkey := by
    refine ⟨key.filename, .inl rfl, (H.stored key hkey).mono rfl fun content hcontent => ?_, ?_⟩
    · rw [State.Admits, hcontent]
      exact .inl (.inl rfl)
    · rintro other (h | h) hhas
      · exact h
      · exact absurd h (H.unstaged key hkey other hhas)

/-! ## What is recorded -/

section
variable {s : State} {store : Store} {whole : Bool} {id other content : String}

theorem record_set {r : Record} :
    (⟨store, s.records.set id r⟩ : State).record other = if other = id then r else s.record other :=
  Dict.getD_set

/-- Nothing is recorded of a fresh value. -/
theorem not_admits_of_fresh {keyId : Uuid} (h : Fresh (s.store.names ++ s.records.keys) keyId) :
    ¬ s.Admits whole keyId.str content := by
  have hnone : s.record keyId.str = .none := by
    unfold State.record Dict.getD
    rw [Dict.get?_eq_none.mpr fun hmem => (h _ (List.mem_append_right _ hmem)).1 List.infix_rfl]
    rfl
  rw [State.Admits, hnone]
  rintro ((h | h) | ⟨-, h⟩)
  · cases h
  · exact absurd h List.not_mem_nil
  · cases h

/-- What a key was given stays admitted when a request has failed. -/
theorem admits_note {request : Request} (hdraws : s.Draws request) (h : s.Admits whole id content) :
    (⟨store, s.note request false⟩ : State).Admits whole id content := by
  cases request with
  | saveKey keyId nonce metadata name keyContent =>
    have hother : id ≠ keyId.str := by
      rintro rfl
      exact not_admits_of_fresh hdraws h
    rw [State.Admits, State.note, record_set, if_neg hother]
    exact h
  | replaceKey nonce keyId keyContent =>
    rw [State.Admits, State.note, record_set]
    split
    · rename_i hid
      subst hid
      rcases h with (h | h) | h
      · exact .inl (.inl h)
      · exact .inl (.inr (List.mem_cons_of_mem _ h))
      · exact .inr h
    · exact h
  | _ => exact h

end

/-! ## Every request keeps the keys -/

/-- What a request leaves is what its program ends with. -/
theorem execute_inv {s : State} {request : Request} {whole : Bool} (script : Script Error)
    (h : (perform env request).Wp (fun _ => True)
      (fun reported t => Inv env ((⟨t, s.note request reported⟩ : State).Admits whole) t)
      (fun _ t => Inv env ((⟨t, s.note request false⟩ : State).Admits whole) t)
      (fun t => Inv env ((⟨t, s.note request false⟩ : State).Admits whole) t) s.store) :
    Inv env ((execute env s request script).Admits whole) (execute env s request script).store := by
  have hends := h script ⟨s.store, [], 0⟩ rfl fun _ h => absurd h List.not_mem_nil
  unfold execute
  match perform env request script ⟨s.store, [], 0⟩, hends with
  | (.ok _, _), hends => exact hends.2
  | (.raised _, _), hends => exact hends.2
  | (.aborted, _), hends => exact hends.2

theorem saveKey_inv (L : env.Lawful) {s : State} {whole : Bool} {keyId : Uuid} {nonce : Nat}
    {metadata : Answer Error} {name keyContent : String} (script : Script Error)
    (H : Inv env (s.Admits whole) s.store)
    (hdraws : s.Draws (.saveKey keyId nonce metadata name keyContent))
    (hkeeps : ∀ e, metadata.fault ≠ .raises true e)
    (hends : whole = true → metadata.fault ≠ .aborts true) :
    let t := execute env s (.saveKey keyId nonce metadata name keyContent) script
    Inv env (t.Admits whole) t.store := by
  have hfresh : Fresh s.store.names keyId := fun name hname =>
    hdraws name (List.mem_append_left _ hname)
  have hfail : ∀ t, Inv env (s.Admits whole) t → Inv env ((⟨t, s.note
      (.saveKey keyId nonce metadata name keyContent) false⟩ : State).Admits whole) t :=
    fun t ht => ht.mono fun _ _ _ => admits_note hdraws
  refine execute_inv script (.bind (saveKey_wp L H hfresh hkeeps |>.mono (fun _ _ h => h)
    (fun _ t h => hfail t h) fun t ht => ?_) fun outcome t ht => ?_)
  · rcases ht with ht | ⟨hfault, ht⟩
    · exact hfail t ht
    · have hwhole : whole = false := by
        cases whole
        · rfl
        · exact absurd hfault (hends rfl)
      refine ht.mono fun key _ content hcontent => ?_
      rcases hcontent with hcontent | ⟨hid, rfl⟩
      · exact admits_note hdraws hcontent
      · rw [State.Admits, State.note, record_set, if_pos hid]
        exact .inr ⟨hwhole, rfl⟩
  · by_cases hnone : outcome.2 = none
    · rw [if_pos hnone] at ht
      refine .pure (ht.mono fun key _ content hcontent => ?_)
      rw [State.Admits, State.note, record_set, decide_eq_true hnone]
      rcases hcontent with hcontent | ⟨hid, rfl⟩
      · split
        · rename_i hid
          exact absurd (hid ▸ hcontent) (not_admits_of_fresh hdraws)
        · exact hcontent
      · rw [if_pos hid]
        exact .inl (.inl rfl)
    · rw [if_neg hnone] at ht
      refine .pure ?_
      rw [decide_eq_false hnone]
      exact hfail t ht

theorem replaceKey_inv (L : env.Lawful) {s : State} {whole : Bool} {nonce : Nat}
    {keyId keyContent : String} (script : Script Error) (H : Inv env (s.Admits whole) s.store) :
    let t := execute env s (.replaceKey nonce keyId keyContent) script
    Inv env (t.Admits whole) t.store := by
  have hfail : ∀ t, Inv env (withContent (s.Admits whole) keyId keyContent) t →
      Inv env ((⟨t, s.note (.replaceKey nonce keyId keyContent) false⟩ : State).Admits whole) t := by
    refine fun t ht => ht.mono fun key _ content hcontent => ?_
    rcases hcontent with hcontent | ⟨hid, rfl⟩
    · exact admits_note trivial hcontent
    · rw [State.Admits, State.note, record_set, if_pos hid]
      exact .inl (.inr List.mem_cons_self)
  refine execute_inv script (.bind ((replaceKey_goes L H).mono (fun _ _ h => h)
    (fun _ t h => hfail t h) hfail) fun outcome t ht => ?_)
  by_cases hnone : outcome.2 = none
  · rw [if_pos hnone] at ht
    refine .pure (ht.mono fun key _ content hcontent => ?_)
    rw [State.Admits, State.note, record_set, decide_eq_true hnone]
    unfold onlyContent at hcontent
    split
    · rw [if_pos ‹_›] at hcontent
      subst hcontent
      exact .inl (.inl rfl)
    · rw [if_neg ‹_›] at hcontent
      exact hcontent
  · rw [if_neg hnone] at ht
    refine .pure ?_
    rw [decide_eq_false hnone]
    exact hfail t ht

/-- What the write of the document meets makes no difference to a save that does not get there. -/
theorem saveKey_alike {keyId : Uuid} {nonce : Nat} {metadata : Answer Error}
    {name keyContent : String} :
    AlikeUnless (fun reported => reported = true)
      (perform env (.saveKey keyId nonce metadata name keyContent))
      (perform env (.saveKey keyId nonce ⟨.none, 0⟩ name keyContent)) := by
  have hsave : ∀ keys, AlikeUnless (· = true) (saveKeys metadata keys) (saveKeys ⟨.none, 0⟩ keys) := by
    intro keys
    refine .handle (.bind fun keysFile => ?_)
    dsimp only
    split
    · exact .refl
    · exact .bind fun _ => .bind_of (.meet fun _ => ⟨_, _, rfl⟩) fun _ _ => ⟨true, rfl, rfl⟩
  refine .bind_of (K := fun outcome => outcome.2 = none) (.handle ?_) fun outcome h =>
    ⟨decide (outcome.2 = none), rfl, decide_eq_true h⟩
  iterate 4
    split
    · exact .refl
  refine .bind fun user => ?_
  split
  · exact .refl
  split
  · exact .refl
  refine .bind fun keys => ?_
  split
  · exact .refl
  refine .bind fun currentBytes => ?_
  split
  · exact .refl
  refine .bind fun written => ?_
  split
  · exact .refl
  refine .bind_of (hsave _).attempt ?_
  rintro _ ⟨_, rfl, rfl⟩
  exact ⟨_, rfl, rfl⟩

theorem execute_alike {s : State} {keyId : Uuid} {nonce : Nat} {metadata : Answer Error}
    {name keyContent : String} {script : Script Error}
    (h : ¬ Request.WritesKey env s script (.saveKey keyId nonce metadata name keyContent)) :
    execute env s (.saveKey keyId nonce metadata name keyContent) script =
      execute env s (.saveKey keyId nonce ⟨.none, 0⟩ name keyContent) script := by
  rcases saveKey_alike script ⟨s.store, [], 0⟩ with halike | ⟨reported, v, hreturns, htrue⟩
  · unfold execute
    rw [halike]
    rfl
  · refine absurd ?_ h
    rw [Request.WritesKey, hreturns]
    exact htrue

theorem inv_step (L : env.Lawful) {whole : Bool} {s t : State} {e : Request × Script Error}
    (H : Inv env (s.Admits whole) s.store) (hstep : (keyStore env).Step s e t)
    (hkeeps : ¬ LosesKey env s e) (hends : whole = true → ¬ EndsListed env s e) :
    Inv env (t.Admits whole) t.store := by
  obtain ⟨hdraws, rfl⟩ := hstep
  obtain ⟨request, script⟩ := e
  cases request with
  | saveKey keyId nonce metadata name keyContent =>
    by_cases hwrites :
        Request.WritesKey env s script (.saveKey keyId nonce metadata name keyContent)
    · exact saveKey_inv L script H hdraws (fun e he => hkeeps ⟨hwrites, e, he⟩)
        fun hwhole he => hends hwhole ⟨hwrites, he⟩
    · rw [execute_alike hwrites]
      exact saveKey_inv L script H hdraws (fun _ he => nomatch he) fun _ he => nomatch he
  | replaceKey nonce keyId keyContent => exact replaceKey_inv L script H
  | renameKey metadata keyId newName =>
    exact execute_inv script (.bind (renameKey_goes H) fun _ _ h => .pure h)
  | deleteKey token metadata keyId => exact execute_inv script (deleteKey_goes H hdraws)
  | readKeyContent nonce keyId =>
    exact execute_inv script (.bind (readKeyContent_goes L H) fun _ _ h => .pure h)
  | loadKeys =>
    refine execute_inv script (.bind ((loadKeysWithLockHeld_goes H).mono (fun _ _ h => h.inv)
      (fun _ _ h => h.1) fun _ h => h.1) fun _ _ h => .pure h)

theorem run_inv (L : env.Lawful) {whole : Bool} {s t : State} {es : List (Request × Script Error)}
    (hs : Consistent env s)
    (hrun : ((keyStore env).restrict fun s e _ =>
      ¬ LosesKey env s e ∧ (whole = true → ¬ EndsListed env s e)).Run s es t) :
    Inv env (t.Admits whole) t.store := by
  refine hrun.invariant (P := fun s => Inv env (s.Admits whole) s.store) (hs.inv whole) ?_
  exact fun s e t H hstep => inv_step L H hstep.2 hstep.1.1 hstep.1.2

/-- Each key that a load returns has its file, with content it was given, and none of its staging
entries is left without the file. -/
def Restored (env : Env) (s : State) (whole : Bool) (keys : List Key) (t : Store) : Prop :=
  ∀ key ∈ keys, Holds env (s.Admits whole key.id) t key.filename ∧
    ¬ ∃ name, pendingDeleteFilename name = some key.filename ∧ t.Has name ∧ ¬ t.Has key.filename

theorem loadKeys_restores {s : State} {whole : Bool} (H : Inv env (s.Admits whole) s.store)
    {script : Script Error} {keys : List Key} {trace : Trace Store}
    (hload : loadKeys script ⟨s.store, [], 0⟩ = (.ok keys, trace)) :
    Restored env s whole keys trace.state := by
  have hends := loadKeysWithLockHeld_goes H script ⟨s.store, [], 0⟩ rfl
    fun _ h => absurd h List.not_mem_nil
  rw [loadKeys] at hload
  rw [hload] at hends
  intro key hkey
  have hhas := hends.2.found key hkey
  obtain ⟨name, -, hholds, hone⟩ := hends.2.inv.kept key (hends.2.listed key hkey)
  refine ⟨?_, fun ⟨_, _, _, hnot⟩ => hnot hhas⟩
  rw [hone key.filename (.inl rfl) hhas]
  exact hholds

/-- The steps in which no new key's document is written and reported as failed; with `whole`, in
which the process does not end at that write either. -/
def sound (env : Env) (whole : Bool) : System State (Request × Script Error) :=
  (keyStore env).restrict fun s e _ =>
    ¬ LosesKey env s e ∧ (whole = true → ¬ EndsListed env s e)

/-- Every load that returns finds each listed key's file, with content it was given; the content is
of the last request that reported success, or of a later replace, unless the process ended when a
new key had just been listed. -/
theorem listed_keys_restored (L : env.Lawful) {s t : State} {es : List (Request × Script Error)}
    (whole : Bool) (hs : Consistent env s) (hrun : (sound env whole).Run s es t)
    (script : Script Error) (keys : List Key) (trace : Trace Store)
    (hload : loadKeys script ⟨t.store, [], 0⟩ = (.ok keys, trace)) :
    Restored env t whole keys trace.state :=
  loadKeys_restores (run_inv L hs hrun) hload

/-! ## A key that is lost -/

/-- Keys of any text, encrypted by a marker before them. -/
def marking : Env where
  encrypt _ plaintext := List.replicate 60 103 ++ plaintext
  decrypt encrypted := some (encrypted.drop 60)
  urlsafeB64decode _ := some (0x80 :: List.replicate 72 0)
  fromPrivateKey keyType _ := if keyType = "RSA" then .ok () else .error (.ssh "not a valid key")
  sshKeyMaxRecords := 50
  sshKeyStoreMaxBytes := 4096

def drawn : Uuid := ⟨"0123456789abcdef0123456789abcdef", by decide, by decide⟩

/-- Every call returns. -/
def smooth : Script Error := fun _ => ⟨.none, 0⟩

def fresh : State := ⟨⟨true, none, ∅⟩, ∅⟩

/-- A save of the key `drawn`. -/
def Request.saving (fault : Fault Error) : Request := .saveKey drawn 0 ⟨fault, 0⟩ "laptop" "secret"

theorem marking_lawful : marking.Lawful where
  isEncrypted nonce plaintext := by
    have hstart : (encode "-----BEGIN").isPrefixOf
        ((marking.encrypt nonce plaintext).dropWhile isSpaceByte) = false := by
      change (encode "-----BEGIN").isPrefixOf
        (103 :: (List.replicate 59 103 ++ plaintext)) = false
      rfl
    have hlength : ¬ (marking.encrypt nonce plaintext).length < 50 := by
      change ¬ (List.replicate 60 103 ++ plaintext).length < 50
      rw [List.length_append, List.length_replicate]
      omega
    rw [isEncrypted, hstart, if_neg Bool.false_ne_true, if_neg hlength]
    rfl
  decrypt nonce plaintext := by
    change some ((List.replicate 60 103 ++ plaintext).drop 60) = some plaintext
    rw [List.drop_left' List.length_replicate]

theorem fresh_consistent : Consistent env fresh :=
  ⟨.nil, .nil, fun _ h => absurd h List.not_mem_nil, fun _ h => absurd h List.not_mem_nil⟩

theorem saving_step (fault : Fault Error) (script : Script Error) :
    (keyStore env).Step fresh (.saving fault, script) (execute env fresh (.saving fault) script) :=
  ⟨fun _ h => absurd h List.not_mem_nil, rfl⟩

theorem listed_keys_restored_saved :
    ∃ t keys trace, (sound marking true).Run fresh [(.saving .none, smooth)] t ∧
      loadKeys smooth ⟨t.store, [], 0⟩ = (.ok keys, trace) ∧ keys ≠ [] ∧
      Restored marking t true keys trace.state := by
  have hrun : (sound marking true).Run fresh [(.saving .none, smooth)]
      (execute marking fresh (.saving .none) smooth) := by
    refine .single ⟨⟨?_, fun _ => ?_⟩, saving_step _ _⟩
    · rintro ⟨-, e, he⟩
      cases he
    · rintro ⟨-, he⟩
      cases he
  have hload : hasReturned (loadKeys smooth ⟨(execute marking fresh (.saving .none) smooth).store, [], 0⟩)
      (fun keys _ => decide (keys ≠ [])) = true := by decide
  obtain ⟨keys, trace, hload, hkeys⟩ := exists_of_hasReturned hload
  exact ⟨_, keys, trace, hrun, hload, of_decide_eq_true hkeys,
    listed_keys_restored marking_lawful true fresh_consistent hrun smooth keys trace hload⟩

/-- The write of the document of a new key is reported as failed when its directory cannot be
synchronized, although the document lists the key: the key's file is removed. -/
theorem key_lost :
    ∃ es t keys trace, Consistent marking fresh ∧ (keyStore marking).Run fresh es t ∧
      loadKeys smooth ⟨t.store, [], 0⟩ = (.ok keys, trace) ∧
      ¬ Restored marking t true keys trace.state := by
  have hload : hasReturned (loadKeys smooth
      ⟨(execute marking fresh (.saving (.raises true (.os "Input/output error"))) smooth).store, [],
        0⟩) (fun keys s => keys.any fun key => (s.entries.get? key.filename).isNone) = true := by
    decide
  obtain ⟨keys, trace, hload, hlost⟩ := exists_of_hasReturned hload
  refine ⟨_, _, keys, trace, fresh_consistent, .single (saving_step _ _), hload, fun h => ?_⟩
  obtain ⟨key, hkey, hnone⟩ := List.any_eq_true.mp hlost
  obtain ⟨data, content, hget, -⟩ := (h key hkey).1
  rw [hget] at hnone
  cases hnone

end WebSSH.Keys
