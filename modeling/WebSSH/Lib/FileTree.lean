import WebSSH.Lib.Dict
import Mathlib.Data.List.Infix

/-!
# Directory trees

What a process sees below one directory: an entry for each path. Links are not followed, so a link
is an entry that knows only what it leads to. `visited` is the walk that descends into each
directory it can list and skips the others without an error.
-/

namespace Lib

universe u

/-- The names that lead from the root of the tree to an entry. -/
abbrev Path := List String

inductive Entry (β : Type u)
  | file (content : β)
  | dir (listable : Bool)
  /-- A symbolic link: to a directory, to something else, or to nothing. -/
  | link (toDir : Option Bool)
  /-- A device, a socket or a named pipe. -/
  | special
  deriving DecidableEq, Repr

abbrev FileTree (β : Type u) := Dict Path (Entry β)

namespace FileTree

variable {β : Type u} {t : FileTree β} {p q : Path}

/-- The regular file at a path. -/
def file? (t : FileTree β) (p : Path) : Option β :=
  match t.get? p with
  | some (.file content) => some content
  | _ => none

def present (t : FileTree β) (p : Path) : Bool :=
  match t.get? p with
  | none => false
  | some (.link toDir) => toDir.isSome
  | some _ => true

def isLink (t : FileTree β) (p : Path) : Bool :=
  match t.get? p with
  | some (.link _) => true
  | _ => false

/-- A directory, or a link to one. -/
def isDir (t : FileTree β) (p : Path) : Bool :=
  match t.get? p with
  | some (.dir _) | some (.link (some true)) => true
  | _ => false

def listable (t : FileTree β) (p : Path) : Bool :=
  match t.get? p with
  | some (.dir listable) => listable
  | _ => false

/-- What a directory lists. -/
def children (t : FileTree β) (p : Path) : List Path :=
  t.keys.filter fun q => q ≠ [] ∧ q.dropLast = p

/-- The directories a walk lists, when it descends only into the top level names in `keep`. -/
def visited (t : FileTree β) (keep : String → Bool) : List Path :=
  t.keys.filter fun p => p.inits.all t.listable && p.head?.all keep

/-! ## Changes -/

def write (t : FileTree β) (p : Path) (content : β) : FileTree β := t.set p (.file content)

/-- A new directory. -/
def mkdir (t : FileTree β) (p : Path) : FileTree β := t.set p (.dir true)

def unlink (t : FileTree β) (p : Path) : FileTree β := t.erase p

/-- Remove a directory that is empty. -/
def rmdir (t : FileTree β) (p : Path) : FileTree β :=
  match t.get? p with
  | some (.dir _) => if (t.children p).isEmpty then t.erase p else t
  | _ => t

theorem file?_eq_some {c : β} : t.file? p = some c ↔ t.get? p = some (.file c) := by
  unfold file?
  split
  · rename_i h; simp [h]
  · rename_i h
    constructor
    · exact nofun
    · intro hc; exact absurd hc (h c)

theorem file?_congr {t' : FileTree β} (h : t.get? p = t'.get? p) : t.file? p = t'.file? p := by
  rw [file?, file?, h]

theorem present_of_file {c : β} (h : t.file? p = some c) : t.present p = true := by
  rw [present, file?_eq_some.mp h]

theorem file?_write {c : β} : (t.write p c).file? q = if q = p then some c else t.file? q := by
  simp only [file?, write, Dict.get?_set]
  by_cases h : q = p <;> simp [h]

theorem file?_unlink : (t.unlink p).file? q = if q = p then none else t.file? q := by
  simp only [file?, unlink, Dict.get?_erase]
  by_cases h : q = p <;> simp [h]

/-- A directory made where there is no file hides none. -/
theorem file?_mkdir (h : t.file? p = none) : (t.mkdir p).file? q = t.file? q := by
  by_cases hq : q = p
  · subst q; rw [h, file?, mkdir, Dict.get?_set_self]
  · exact file?_congr (Dict.get?_set_of_ne hq)

theorem file?_of_absent (h : t.present p = false) : t.file? p = none := by
  cases hf : t.file? p with
  | none => rfl
  | some c => rw [present_of_file hf] at h; cases h

theorem file?_rmdir : (t.rmdir p).file? q = t.file? q := by
  unfold rmdir
  split
  · rename_i hp
    split
    · simp only [file?, Dict.get?_erase]
      by_cases hq : q = p
      · subst q; simp [hp]
      · simp [hq]
    · rfl
  · rfl

/-! ## Walks -/

theorem mem_visited {keep : String → Bool} :
    p ∈ t.visited keep ↔ (∀ q, q <+: p → t.listable q = true) ∧ ∀ n, p.head? = some n → keep n := by
  have hkey : t.listable p = true → p ∈ t.keys := by
    intro h
    unfold listable at h
    split at h
    · exact Dict.mem_keys.mpr ⟨_, ‹_›⟩
    · cases h
  simp only [visited, List.mem_filter, Bool.and_eq_true, List.all_eq_true, List.mem_inits,
    Option.all_eq_true]
  constructor
  · exact fun h => h.2
  · exact fun h => ⟨hkey (h.1 p List.prefix_rfl), h⟩

/-- A directory on the way to the entry cannot be listed. -/
def Hidden (t : FileTree β) (p : Path) : Prop := ∃ q, q <+: p ∧ q ≠ p ∧ t.listable q = false

instance (t : FileTree β) (p : Path) : Decidable (t.Hidden p) :=
  decidable_of_iff (∃ q ∈ p.inits, q ≠ p ∧ t.listable q = false) (by
    simp only [List.mem_inits, Hidden])

/-- A walk lists the directory of an entry that is not hidden. -/
theorem dropLast_mem_visited {keep : String → Bool} (hp : p ≠ []) :
    p.dropLast ∈ t.visited keep ↔
      ¬ t.Hidden p ∧ ∀ n, p.dropLast.head? = some n → keep n = true := by
  have hprefix : ∀ q, q <+: p.dropLast ↔ q <+: p ∧ q ≠ p := by
    intro q
    conv => rhs; rw [← List.dropLast_append_getLast hp, List.prefix_concat_iff]
    constructor
    · intro h
      refine ⟨.inr h, fun he => ?_⟩
      have := h.length_le
      rw [he, List.length_append, List.length_singleton] at this
      omega
    · rintro ⟨rfl | h, hne⟩
      · exact absurd rfl hne
      · exact h
  rw [mem_visited]
  refine and_congr_left fun _ => ?_
  simp only [Hidden, hprefix, not_exists, not_and, Bool.not_eq_false, and_imp]

theorem mem_children : q ∈ t.children p ↔ q ∈ t.keys ∧ q ≠ [] ∧ q.dropLast = p := by
  simp [children]

/-! ## Names -/

/-- What a directory can list: not empty, no slash, and neither `.` nor `..`. -/
def ValidName (name : String) : Prop :=
  name ≠ "" ∧ name ≠ "." ∧ name ≠ ".." ∧ '/' ∉ name.toList

end FileTree

/-- A tree whose paths are made of names. -/
structure NamedTree (β : Type u) where
  tree : FileTree β
  named : ∀ p ∈ tree.keys, ∀ name ∈ p, FileTree.ValidName name

end Lib
