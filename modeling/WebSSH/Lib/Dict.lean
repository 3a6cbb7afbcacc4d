import Mathlib.Algebra.BigOperators.Group.List.Basic
import Mathlib.Data.List.Nodup

/-!
# Insertion-ordered dictionaries

A finite map that iterates in the order in which its keys were first inserted: setting a present
key keeps its position, a new key goes to the end. The lookup lemmas (`get?_set`, `get?_erase`,
`get?_filter`) and the sums over the entries (`total`) are what the clients of a table need; they
all rest on `exists_split`, the position of a present key.
-/

namespace Lib

universe u v w

/-- Entries in insertion order, at most one for each key. -/
@[ext] structure Dict (κ : Type u) (α : Type v) where
  entries : List (κ × α)
  nodup : (entries.map Prod.fst).Nodup

namespace Dict

variable {κ : Type u} {α : Type v} {M : Type w}

def empty : Dict κ α := ⟨[], .nil⟩

instance : EmptyCollection (Dict κ α) := ⟨empty⟩
instance : Inhabited (Dict κ α) := ⟨empty⟩

def keys (d : Dict κ α) : List κ := d.entries.map Prod.fst
def values (d : Dict κ α) : List α := d.entries.map Prod.snd
def size (d : Dict κ α) : Nat := d.entries.length

/-- Sum of `f` over the entries. -/
def total [AddCommMonoid M] (d : Dict κ α) (f : κ → α → M) : M :=
  (d.entries.map fun e => f e.1 e.2).sum

/-- Keep the entries satisfying `p`, in order. -/
def filter (d : Dict κ α) (p : κ → α → Bool) : Dict κ α where
  entries := d.entries.filter fun e => p e.1 e.2
  nodup := d.nodup.sublist (List.filter_sublist.map _)

/-- Apply `f` to every value in place. -/
def mapValues (d : Dict κ α) (f : κ → α → α) : Dict κ α where
  entries := d.entries.map fun e => (e.1, f e.1 e.2)
  nodup := by simpa [Function.comp_def] using d.nodup

variable [DecidableEq κ]

def get? (d : Dict κ α) (k : κ) : Option α :=
  (d.entries.find? fun e => e.1 = k).map Prod.snd

/-- `d.get(k, a)`. -/
def getD (d : Dict κ α) (k : κ) (a : α) : α := (d.get? k).getD a

def contains (d : Dict κ α) (k : κ) : Bool := (d.get? k).isSome

theorem find?_eq_none {es : List (κ × α)} {k : κ} :
    (es.find? fun e => e.1 = k) = none ↔ k ∉ es.map Prod.fst := by
  simp only [List.find?_eq_none, decide_eq_true_eq, List.mem_map, not_exists, not_and]

/-- A present key splits the entries around its only occurrence. -/
theorem exists_split {d : Dict κ α} {k : κ} {v : α} (h : d.get? k = some v) :
    ∃ l₁ l₂, d.entries = l₁ ++ (k, v) :: l₂ ∧ k ∉ l₁.map Prod.fst ∧ k ∉ l₂.map Prod.fst := by
  obtain ⟨⟨k', v'⟩, hf, rfl⟩ := Option.map_eq_some_iff.mp h
  obtain ⟨hk, l₁, l₂, he, -⟩ := List.find?_eq_some_iff_append.mp hf
  obtain rfl : k' = k := by simpa using hk
  have hn := d.nodup
  rw [he, List.map_append, List.map_cons, List.nodup_append, List.nodup_cons] at hn
  exact ⟨l₁, l₂, he, fun hm => hn.2.2 _ hm _ (by simp) rfl, hn.2.1.1⟩

theorem mem_entries {d : Dict κ α} {k : κ} {v : α} : (k, v) ∈ d.entries ↔ d.get? k = some v := by
  constructor
  · intro h
    obtain ⟨e, he⟩ : ∃ e, (d.entries.find? fun e => e.1 = k) = some e := by
      rw [← Option.isSome_iff_exists, List.find?_isSome]
      exact ⟨_, h, by simp⟩
    have hk : e.1 = k := by simpa using List.find?_some he
    have hm := List.mem_of_find?_eq_some he
    have := List.inj_on_of_nodup_map d.nodup hm h (by simpa using hk)
    simp [get?, he, this]
  · intro h
    obtain ⟨l₁, l₂, he, -⟩ := exists_split h
    simp [he]

theorem get?_eq_none {d : Dict κ α} {k : κ} : d.get? k = none ↔ k ∉ d.keys := by
  simp only [get?, Option.map_eq_none_iff]; exact find?_eq_none

theorem mem_keys {d : Dict κ α} {k : κ} : k ∈ d.keys ↔ ∃ v, d.get? k = some v := by
  rw [← not_iff_not, ← get?_eq_none]
  cases d.get? k <;> simp

theorem mem_values {d : Dict κ α} {v : α} : v ∈ d.values ↔ ∃ k, d.get? k = some v := by
  simp [values, ← mem_entries]

@[simp] theorem get?_empty (k : κ) : (∅ : Dict κ α).get? k = none := rfl

/-- `d[k] = v`. -/
def set (d : Dict κ α) (k : κ) (v : α) : Dict κ α where
  entries :=
    if d.contains k then d.entries.map fun e => if e.1 = k then (k, v) else e
    else d.entries ++ [(k, v)]
  nodup := by
    split
    · have : (Prod.fst ∘ fun e : κ × α => if e.1 = k then (k, v) else e) = Prod.fst := by
        funext e
        by_cases h : e.1 = k <;> simp [h]
      rw [List.map_map, this]
      exact d.nodup
    · next h =>
      have h' : k ∉ d.entries.map Prod.fst := get?_eq_none.mp (by simpa [contains] using h)
      simpa [List.nodup_append, d.nodup] using fun a b hab => fun e => h' (by
        subst e; exact List.mem_map_of_mem hab)

/-- `d.pop(k, None)`. -/
def erase (d : Dict κ α) (k : κ) : Dict κ α := d.filter fun j _ => j ≠ k

theorem set_entries_of_get? {d : Dict κ α} {k : κ} {v w : α} {l₁ l₂ : List (κ × α)}
    (he : d.entries = l₁ ++ (k, w) :: l₂) (h₁ : k ∉ l₁.map Prod.fst) (h₂ : k ∉ l₂.map Prod.fst) :
    (d.set k v).entries = l₁ ++ (k, v) :: l₂ := by
  have hc : d.contains k = true := by
    have : d.get? k = some w := mem_entries.mp (by simp [he])
    simp [contains, this]
  have key : ∀ l : List (κ × α), k ∉ l.map Prod.fst →
      l.map (fun e => if e.1 = k then (k, v) else e) = l := by
    intro l hl
    conv_rhs => rw [← List.map_id l]
    refine List.map_congr_left fun e hm => if_neg fun h => hl ?_
    exact h ▸ List.mem_map_of_mem hm
  simp [set, hc, he, key _ h₁, key _ h₂]

theorem set_entries_of_none {d : Dict κ α} {k : κ} {v : α} (h : d.get? k = none) :
    (d.set k v).entries = d.entries ++ [(k, v)] := by
  simp [set, contains, h]

theorem erase_entries_of_get? {d : Dict κ α} {k : κ} {w : α} {l₁ l₂ : List (κ × α)}
    (he : d.entries = l₁ ++ (k, w) :: l₂) (h₁ : k ∉ l₁.map Prod.fst) (h₂ : k ∉ l₂.map Prod.fst) :
    (d.erase k).entries = l₁ ++ l₂ := by
  have key : ∀ l : List (κ × α), k ∉ l.map Prod.fst →
      l.filter (fun e => !decide (e.1 = k)) = l := by
    intro l hl
    refine List.filter_eq_self.mpr fun e hm => ?_
    have : e.1 ≠ k := fun h => hl (h ▸ List.mem_map_of_mem hm)
    simpa using this
  simp [erase, filter, he, key _ h₁, key _ h₂]

theorem get?_filter {d : Dict κ α} {p : κ → α → Bool} {k : κ} :
    (d.filter p).get? k = (d.get? k).filter (p k) := by
  ext v
  rw [← mem_entries]
  simp [filter, Option.filter_eq_some_iff, mem_entries]

theorem get?_erase {d : Dict κ α} {k j : κ} :
    (d.erase k).get? j = if j = k then none else d.get? j := by
  rw [erase, get?_filter]
  by_cases h : j = k <;> cases d.get? j <;> simp [h]

@[simp] theorem get?_erase_self {d : Dict κ α} {k : κ} : (d.erase k).get? k = none := by
  simp [get?_erase]

theorem get?_erase_of_ne {d : Dict κ α} {k j : κ} (h : j ≠ k) :
    (d.erase k).get? j = d.get? j := by
  simp [get?_erase, h]

theorem get?_set {d : Dict κ α} {k j : κ} {v : α} :
    (d.set k v).get? j = if j = k then some v else d.get? j := by
  cases hk : d.get? k with
  | none =>
    ext w
    rw [← mem_entries, set_entries_of_none hk]
    by_cases h : j = k
    · subst h; simp [mem_entries, hk, eq_comm]
    · simp [mem_entries, h]
  | some u =>
    obtain ⟨l₁, l₂, he, h₁, h₂⟩ := exists_split hk
    ext w
    rw [← mem_entries, set_entries_of_get? he h₁ h₂]
    by_cases h : j = k
    · subst h
      have : ∀ l : List (κ × α), j ∉ l.map Prod.fst → (j, w) ∉ l :=
        fun l hl hm => hl (List.mem_map_of_mem hm)
      simp [this _ h₁, this _ h₂, eq_comm]
    · simp [h, ← mem_entries, he]

@[simp] theorem get?_set_self {d : Dict κ α} {k : κ} {v : α} : (d.set k v).get? k = some v := by
  simp [get?_set]

theorem get?_set_of_ne {d : Dict κ α} {k j : κ} {v : α} (h : j ≠ k) :
    (d.set k v).get? j = d.get? j := by
  simp [get?_set, h]

theorem getD_of_get? {d : Dict κ α} {k : κ} {v a : α} (h : d.get? k = some v) : d.getD k a = v := by
  simp [getD, h]

@[simp] theorem getD_set_self {d : Dict κ α} {k : κ} {v a : α} : (d.set k v).getD k a = v := by
  simp [getD]

theorem getD_set {d : Dict κ α} {k j : κ} {v a : α} :
    (d.set k v).getD j a = if j = k then v else d.getD j a := by
  simp only [getD, get?_set]
  split <;> rfl

theorem getD_erase {d : Dict κ α} {k j : κ} {a : α} :
    (d.erase k).getD j a = if j = k then a else d.getD j a := by
  simp only [getD, get?_erase]
  split <;> rfl

theorem get?_mapValues {d : Dict κ α} {f : κ → α → α} {k : κ} :
    (d.mapValues f).get? k = (d.get? k).map (f k) := by
  ext v
  rw [← mem_entries]
  simp only [mapValues, List.mem_map, Prod.mk.injEq, Prod.exists, Option.map_eq_some_iff]
  constructor
  · rintro ⟨j, w, hm, rfl, rfl⟩; exact ⟨w, mem_entries.mp hm, rfl⟩
  · rintro ⟨w, hw, rfl⟩; exact ⟨k, w, mem_entries.mpr hw, rfl, rfl⟩

theorem get?_of_filter {d : Dict κ α} {p : κ → α → Bool} {k : κ} {v : α}
    (h : (d.filter p).get? k = some v) : d.get? k = some v ∧ p k v = true := by
  rw [get?_filter, Option.filter_eq_some_iff] at h
  exact h

theorem get?_of_erase {d : Dict κ α} {j k : κ} {v : α} (h : (d.erase j).get? k = some v) :
    k ≠ j ∧ d.get? k = some v := by
  rw [get?_erase] at h
  split at h
  · cases h
  · exact ⟨‹_›, h⟩

/-! ## Sums over the entries -/

section Total

variable [AddCommMonoid M] {f : κ → α → M}

omit [DecidableEq κ] in
@[simp] theorem total_empty : (∅ : Dict κ α).total f = 0 := rfl

theorem total_set_of_none {d : Dict κ α} {k : κ} {v : α} (h : d.get? k = none) :
    (d.set k v).total f = d.total f + f k v := by
  simp [total, set_entries_of_none h]

theorem total_erase {d : Dict κ α} {k : κ} {v : α} (h : d.get? k = some v) :
    (d.erase k).total f + f k v = d.total f := by
  obtain ⟨l₁, l₂, he, h₁, h₂⟩ := exists_split h
  simp only [total, erase_entries_of_get? he h₁ h₂, he, List.map_append, List.map_cons,
    List.sum_append, List.sum_cons]
  rw [add_assoc, add_comm _ (f k v)]

end Total

end Dict
end Lib
