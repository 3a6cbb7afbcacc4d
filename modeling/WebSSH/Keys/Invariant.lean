import WebSSH.Keys.Manager

/-!
# Where the file of a listed key is

Each listed key has one file: at its own name, or at the one staging entry a delete has moved it to.
The calls of the key manager keep this, whichever way they end.
-/

namespace WebSSH.Keys
open Lib Program Python

namespace Store

def listed (s : Store) : List Key := (s.metadata.map Document.keys).getD []

def Has (s : Store) (name : String) : Prop := (s.entries.get? name).isSome

/-- The entry of `source` is moved to `destination`. -/
def move (s : Store) (source destination : String) (entry : Entry) : Store :=
  { s with entries := (s.entries.erase source).set destination entry }

def put (s : Store) (name : String) (data : Bytes) : Store :=
  { s with entries := s.entries.set name (.file data) }

def remove (s : Store) (name : String) : Store := { s with entries := s.entries.erase name }

def list (s : Store) (document : Document) : Store := { s with metadata := some document }

@[simp] theorem listed_move (s : Store) (a b : String) (e : Entry) :
    (s.move a b e).listed = s.listed := rfl

@[simp] theorem listed_put (s : Store) (a : String) (data : Bytes) :
    (s.put a data).listed = s.listed := rfl

@[simp] theorem listed_remove (s : Store) (a : String) : (s.remove a).listed = s.listed := rfl

@[simp] theorem listed_list (s : Store) (document : Document) :
    (s.list document).listed = document.keys := rfl

theorem get?_move {s : Store} {a b n : String} {e : Entry} :
    (s.move a b e).entries.get? n =
      if n = b then some e else if n = a then none else s.entries.get? n := by
  rw [move, Dict.get?_set, Dict.get?_erase]

theorem get?_put {s : Store} {a n : String} {data : Bytes} :
    (s.put a data).entries.get? n = if n = a then some (.file data) else s.entries.get? n :=
  Dict.get?_set

theorem get?_remove {s : Store} {a n : String} :
    (s.remove a).entries.get? n = if n = a then none else s.entries.get? n :=
  Dict.get?_erase

end Store

variable {env : Env}

/-- `name` is that of the file of a key, or of a staging entry for it. -/
def Stands (filename name : String) : Prop :=
  name = filename ∨ pendingDeleteFilename name = some filename

/-- The entry `name` holds content that `admits` accepts. -/
def Holds (env : Env) (admits : String → Prop) (s : Store) (name : String) : Prop :=
  ∃ data content, s.entries.get? name = some (.file data) ∧ contentOf env data = .ok content ∧
    admits content

/-- One entry, and no other, stands for the key; its content is one that `admits` accepts. -/
def Kept (env : Env) (admits : String → Prop) (s : Store) (filename : String) : Prop :=
  ∃ name, Stands filename name ∧ Holds env admits s name ∧
    ∀ other, Stands filename other → s.Has other → other = name

structure Inv (env : Env) (admits : String → String → Prop) (s : Store) : Prop where
  ids : (s.listed.map Key.id).Nodup
  filenames : (s.listed.map Key.filename).Nodup
  /-- No key's file is named as a staging entry for a listed key. -/
  apart : ∀ key ∈ s.listed, ∀ other ∈ s.listed,
    pendingDeleteFilename key.filename ≠ some other.filename
  kept : ∀ key ∈ s.listed, Kept env (admits key.id) s key.filename

/-- No listed key but one of that file name has an entry of that name standing for it. -/
def Alone (s : Store) (filename name : String) : Prop :=
  ∀ key ∈ s.listed, Stands key.filename name → key.filename = filename

theorem Holds.has {admits : String → Prop} {s : Store} {name : String}
    (H : Holds env admits s name) : s.Has name := by
  obtain ⟨data, content, h, -⟩ := H
  rw [Store.Has, h]
  rfl

theorem Holds.mono {admits admits' : String → Prop} {s t : Store} {name : String}
    (H : Holds env admits s name) (h : t.entries.get? name = s.entries.get? name)
    (hle : ∀ content, admits content → admits' content) : Holds env admits' t name := by
  obtain ⟨data, content, hget, hcontent, hadmits⟩ := H
  exact ⟨data, content, h.trans hget, hcontent, hle content hadmits⟩

theorem Kept.mono {admits admits' : String → Prop} {s t : Store} {filename : String}
    (H : Kept env admits s filename)
    (h : ∀ name, Stands filename name → t.entries.get? name = s.entries.get? name)
    (hle : ∀ content, admits content → admits' content) : Kept env admits' t filename := by
  obtain ⟨name, hstands, hholds, hone⟩ := H
  refine ⟨name, hstands, hholds.mono (h name hstands) hle, fun other hother hhas => ?_⟩
  refine hone other hother ?_
  rw [Store.Has, ← h other hother]
  exact hhas

/-- The file has been moved between two names that stand for the key. -/
theorem Kept.move {admits : String → Prop} {s : Store} {filename a b : String} {entry : Entry}
    (H : Kept env admits s filename) (ha : Stands filename a) (hb : Stands filename b)
    (hentry : s.entries.get? a = some entry) : Kept env admits (s.move a b entry) filename := by
  obtain ⟨name, hstands, ⟨data, content, hget, hcontent⟩, hone⟩ := H
  have hname : a = name := hone a ha (by rw [Store.Has, hentry]; rfl)
  subst hname
  refine ⟨b, hb, ⟨data, content, ?_, hcontent⟩, fun other hother hhas => ?_⟩
  · rw [Store.get?_move, if_pos rfl]
    exact hentry.symm.trans hget
  · rw [Store.Has, Store.get?_move] at hhas
    split at hhas
    · assumption
    · split at hhas
      · cases hhas
      · rename_i hne
        exact absurd (hone other hother hhas) hne

/-- The key's file has been written. -/
theorem Kept.put {admits admits' : String → Prop} {s : Store} {filename content : String}
    {data : Bytes} (H : Kept env admits s filename) (hhas : s.Has filename)
    (hcontent : contentOf env data = .ok content) (hadmits : admits' content) :
    Kept env admits' (s.put filename data) filename := by
  obtain ⟨name, -, -, hone⟩ := H
  have hname : filename = name := hone filename (.inl rfl) hhas
  refine ⟨filename, .inl rfl, ⟨data, content, ?_, hcontent, hadmits⟩, fun other hother h => ?_⟩
  · rw [Store.get?_put, if_pos rfl]
  · rw [Store.Has, Store.get?_put] at h
    split at h
    · assumption
    · exact (hone other hother h).trans hname.symm

namespace Inv

variable {admits admits' : String → String → Prop} {s t : Store}

/-- What stands for the listed keys is as it was. -/
theorem congr (H : Inv env admits s) (hlisted : t.listed = s.listed)
    (h : ∀ key ∈ s.listed, ∀ name, Stands key.filename name →
      t.entries.get? name = s.entries.get? name)
    (hle : ∀ key ∈ s.listed, ∀ content, admits key.id content → admits' key.id content) :
    Inv env admits' t where
  ids := hlisted ▸ H.ids
  filenames := hlisted ▸ H.filenames
  apart := hlisted ▸ H.apart
  kept key hkey := by
    rw [hlisted] at hkey
    exact (H.kept key hkey).mono (h key hkey) (hle key hkey)

theorem mono (H : Inv env admits s)
    (hle : ∀ key ∈ s.listed, ∀ content, admits key.id content → admits' key.id content) :
    Inv env admits' s :=
  H.congr rfl (fun _ _ _ _ => rfl) hle

theorem move (H : Inv env admits s) {filename a b : String} {entry : Entry}
    (ha : Stands filename a) (hb : Stands filename b) (haloneA : Alone s filename a)
    (haloneB : Alone s filename b) (hentry : s.entries.get? a = some entry) :
    Inv env admits (s.move a b entry) where
  ids := H.ids
  filenames := H.filenames
  apart := H.apart
  kept key hkey := by
    by_cases hname : key.filename = filename
    · rw [hname]
      exact (hname ▸ H.kept key hkey).move ha hb hentry
    · refine (H.kept key hkey).mono (fun name hstands => ?_) fun _ h => h
      rw [Store.get?_move, if_neg, if_neg]
      · rintro rfl
        exact hname (haloneA key hkey hstands)
      · rintro rfl
        exact hname (haloneB key hkey hstands)

/-- An entry that stands for no listed key is removed. -/
theorem remove (H : Inv env admits s) {name : String}
    (h : ∀ key ∈ s.listed, ¬ Stands key.filename name) : Inv env admits (s.remove name) := by
  refine H.congr rfl (fun key hkey other hother => ?_) fun _ _ _ h => h
  rw [Store.get?_remove, if_neg]
  rintro rfl
  exact h key hkey hother

/-- An entry that stands for no listed key is written. -/
theorem put (H : Inv env admits s) {name : String} {data : Bytes}
    (h : ∀ key ∈ s.listed, ¬ Stands key.filename name) : Inv env admits (s.put name data) := by
  refine H.congr rfl (fun key hkey other hother => ?_) fun _ _ _ h => h
  rw [Store.get?_put, if_neg]
  rintro rfl
  exact h key hkey hother

/-- Two listed keys have one file name only if they are one. -/
theorem key_eq (H : Inv env admits s) {key other : Key} (hkey : key ∈ s.listed)
    (hother : other ∈ s.listed) (h : key.filename = other.filename) : key = other :=
  List.inj_on_of_nodup_map H.filenames hkey hother h

theorem key_eq_of_id (H : Inv env admits s) {key other : Key} (hkey : key ∈ s.listed)
    (hother : other ∈ s.listed) (h : key.id = other.id) : key = other :=
  List.inj_on_of_nodup_map H.ids hkey hother h

/-- Nothing that stands for a listed key stands for another. -/
theorem alone (H : Inv env admits s) {key : Key} (hkey : key ∈ s.listed) :
    Alone s key.filename key.filename := by
  intro other hother hstands
  rcases hstands with h | h
  · exact h.symm
  · exact absurd h (H.apart key hkey other hother)

/-- A listed key's file, at its own name, is written. -/
theorem putKey (H : Inv env admits s) {key : Key} {data : Bytes} {content : String}
    (hkey : key ∈ s.listed) (hhas : s.Has key.filename) (hcontent : contentOf env data = .ok content)
    (hadmits : admits' key.id content)
    (hle : ∀ other ∈ s.listed, other.id ≠ key.id → ∀ content, admits other.id content →
      admits' other.id content) : Inv env admits' (s.put key.filename data) where
  ids := H.ids
  filenames := H.filenames
  apart := H.apart
  kept other hother := by
    by_cases hsame : other.id = key.id
    · cases H.key_eq_of_id hother hkey hsame
      exact (H.kept key hkey).put hhas hcontent hadmits
    · refine (H.kept other hother).mono (fun name hstands => ?_) (hle other hother hsame)
      rw [Store.get?_put, if_neg]
      rintro rfl
      have heq := H.alone hkey other hother hstands
      exact hsame (congrArg Key.id (H.key_eq hother hkey heq))

/-- Keys of which each has the identity and the file of a listed one are listed. -/
theorem relist (H : Inv env admits s) {document : Document} (hvalid : validKeyDocument document)
    (h : ∀ key ∈ document.keys, ∃ old ∈ s.listed, old.id = key.id ∧ old.filename = key.filename) :
    Inv env admits (s.list document) := by
  simp only [validKeyDocument, Bool.and_eq_true, decide_eq_true_eq] at hvalid
  refine ⟨hvalid.1.2, hvalid.2, fun key hkey other hother => ?_, fun key hkey => ?_⟩
  · obtain ⟨old, hold, -, hfile⟩ := h key hkey
    obtain ⟨old', hold', -, hfile'⟩ := h other hother
    rw [← hfile, ← hfile']
    exact H.apart old hold old' hold'
  · obtain ⟨old, hold, hid, hfile⟩ := h key hkey
    rw [← hid, ← hfile]
    exact (H.kept old hold).mono (fun _ _ => rfl) fun _ h => h

/-- A key whose file has been written is listed. -/
theorem add (H : Inv env admits s) {key : Key} {version : Nat}
    (hvalid : validKeyDocument ⟨version, s.listed ++ [key]⟩)
    (hapart : pendingDeleteFilename key.filename = none)
    (hnone : ∀ other ∈ s.listed, pendingDeleteFilename other.filename ≠ some key.filename)
    (hholds : Holds env (admits' key.id) s key.filename)
    (hone : ∀ name, Stands key.filename name → s.Has name → name = key.filename)
    (hle : ∀ other ∈ s.listed, ∀ content, admits other.id content → admits' other.id content) :
    Inv env admits' (s.list ⟨version, s.listed ++ [key]⟩) := by
  simp only [validKeyDocument, Bool.and_eq_true, decide_eq_true_eq] at hvalid
  refine ⟨hvalid.1.2, hvalid.2, fun old hold other hother => ?_, fun old hold => ?_⟩
  · rcases List.mem_append.mp hold with hold | hold
    · rcases List.mem_append.mp hother with hother | hother
      · exact H.apart old hold other hother
      · rw [List.mem_singleton.mp hother]
        exact hnone old hold
    · rw [List.mem_singleton.mp hold, hapart]
      exact nofun
  · rcases List.mem_append.mp hold with hold | hold
    · exact (H.kept old hold).mono (fun _ _ => rfl) (hle old hold)
    · rw [List.mem_singleton.mp hold]
      exact ⟨key.filename, .inl rfl, hholds.mono rfl fun _ h => h, hone⟩

end Inv
end WebSSH.Keys
