import Mathlib.Logic.Function.Basic
import WebSSH.Lib.Dict

/-!
# Objects made on demand and counted

A table finds an object for each key in use. An object is made when its key is first retained, and
leaves the table when it has been dropped as often as it was retained; the next one for the key is
another object. `Counted` says how often each key is retained.
-/

namespace Lib
open Function

universe u

/-- An object is named by a number; those from `next` on have not been made. -/
structure RefTable (κ : Type u) [DecidableEq κ] where
  table : Dict κ Nat
  count : Nat → Nat
  next : Nat

namespace RefTable

variable {κ : Type u} [DecidableEq κ] {t t' : RefTable κ} {k j : κ} {obj : Nat} {c : κ → Nat}
  {ks : List κ} {es : List (κ × Nat)}

def init : RefTable κ := ⟨∅, fun _ => 0, 0⟩

/-- The object of a key, made if there is none. -/
def find (t : RefTable κ) (k : κ) : Nat × RefTable κ :=
  match t.table.get? k with
  | some obj => (obj, t)
  | none => (t.next, ⟨t.table.set k t.next, update t.count t.next 0, t.next + 1⟩)

def retain (t : RefTable κ) (k : κ) : Nat × RefTable κ :=
  let (obj, t) := t.find k
  (obj, { t with count := update t.count obj (t.count obj + 1) })

def retainAll (t : RefTable κ) : List κ → List (κ × Nat) × RefTable κ
  | [] => ([], t)
  | k :: ks =>
    let (obj, t) := t.retain k
    let (es, t) := t.retainAll ks
    ((k, obj) :: es, t)

/-- One use less; whatever is in the table for the key leaves it with the last use of the object. -/
def drop (t : RefTable κ) (k : κ) (obj : Nat) : RefTable κ :=
  let n := t.count obj - 1
  { t with
    count := update t.count obj n
    table := if n = 0 then t.table.erase k else t.table }

def dropAll (t : RefTable κ) : List (κ × Nat) → RefTable κ
  | [] => t
  | (k, obj) :: es => (t.drop k obj).dropAll es

theorem count_cons (k : κ) (ks : List κ) (j : κ) :
    (k :: ks).count j = ks.count j + if j = k then 1 else 0 := by
  rw [List.count_cons]
  simp only [beq_iff_eq]
  rw [if_congr eq_comm rfl rfl]

/-- Each key is retained `c` times. -/
structure Counted (t : RefTable κ) (c : κ → Nat) : Prop where
  count : ∀ k obj, t.table.get? k = some obj → t.count obj = c k
  live : ∀ k, t.table.get? k = none ↔ c k = 0
  fresh : ∀ k obj, t.table.get? k = some obj → obj < t.next
  inj : ∀ k k' obj, t.table.get? k = some obj → t.table.get? k' = some obj → k = k'

/-- The objects of the table stay in it. -/
def Extends (t t' : RefTable κ) : Prop :=
  ∀ k obj, t.table.get? k = some obj → t'.table.get? k = some obj

namespace Counted

theorem init : (init : RefTable κ).Counted fun _ => 0 where
  count _ _ h := nomatch h
  live _ := iff_of_true rfl rfl
  fresh _ _ h := nomatch h
  inj _ _ _ h := nomatch h

theorem retain (H : t.Counted c) (k : κ) :
    (t.retain k).2.Counted (fun j => c j + if j = k then 1 else 0) ∧
      (t.retain k).2.table.get? k = some (t.retain k).1 ∧ t.Extends (t.retain k).2 := by
  unfold RefTable.retain find
  cases h : t.table.get? k with
  | some obj =>
    refine ⟨⟨fun j obj' hj => ?_, fun j => ?_, H.fresh, H.inj⟩, h, fun _ _ h => h⟩
    · simp only [update_apply] at hj ⊢
      split
      · subst obj'
        cases H.inj _ _ _ hj h
        rw [if_pos rfl, H.count _ _ h]
      · rename_i hne
        rw [if_neg, H.count j obj' hj, Nat.add_zero]
        rintro rfl
        exact hne (Option.some_inj.mp (hj.symm.trans h))
    · rcases Decidable.eq_or_ne j k with rfl | hj
      · rw [if_pos rfl]
        exact iff_of_false (by simp [h]) (Nat.succ_ne_zero _)
      · rw [if_neg hj]
        exact H.live j
  | none =>
    have hold : ∀ {j obj}, t.table.get? j = some obj → j ≠ k := by
      rintro j obj hj rfl
      cases h.symm.trans hj
    refine ⟨⟨fun j obj' hj => ?_, fun j => ?_, fun j obj' hj => ?_, fun i j obj' hi hj => ?_⟩, ?_,
      fun j obj hj => ?_⟩
    · simp only [Dict.get?_set] at hj
      split at hj
      · cases hj
        rename_i hj
        subst j
        simp [(H.live k).mp h]
      · rename_i hne
        have := H.fresh j obj' hj
        simp only [update_apply]
        rw [if_neg (by omega), if_neg (by omega), if_neg hne, H.count j obj' hj, Nat.add_zero]
    · simp only [Dict.get?_set]
      split
      · exact iff_of_false nofun (Nat.succ_ne_zero _)
      · exact H.live j
    · simp only [Dict.get?_set] at hj
      split at hj
      · cases hj
        exact Nat.lt_succ_self _
      · exact Nat.lt_succ_of_lt (H.fresh j obj' hj)
    · simp only [Dict.get?_set] at hi hj
      split at hi
      · cases hi
        split at hj
        · exact ‹i = k›.trans (Eq.symm ‹j = k›)
        · exact absurd (H.fresh j _ hj) (Nat.lt_irrefl _)
      · split at hj
        · cases hj
          exact absurd (H.fresh i _ hi) (Nat.lt_irrefl _)
        · exact H.inj i j obj' hi hj
    · exact Dict.get?_set_self
    · exact (Dict.get?_set_of_ne (hold hj)).trans hj

theorem retainAll (H : t.Counted c) (ks : List κ) :
    (t.retainAll ks).2.Counted (fun j => c j + ks.count j) ∧
      (t.retainAll ks).1.map Prod.fst = ks ∧
      (∀ e ∈ (t.retainAll ks).1, (t.retainAll ks).2.table.get? e.1 = some e.2) ∧
      t.Extends (t.retainAll ks).2 := by
  induction ks generalizing t c with
  | nil => exact ⟨H, rfl, nofun, fun _ _ h => h⟩
  | cons k ks ih =>
    obtain ⟨H', hk, hext⟩ := H.retain k
    obtain ⟨H'', hks, hes, hext'⟩ := ih H'
    refine ⟨?_, congrArg (k :: ·) hks, fun e he => ?_, fun j obj hj => hext' j obj (hext j obj hj)⟩
    · have hc : (fun j => c j + (k :: ks).count j) =
          fun j => (c j + if j = k then 1 else 0) + ks.count j := by
        funext j
        rw [count_cons]
        omega
      rw [hc]
      exact H''
    · rcases List.mem_cons.mp he with rfl | he
      · exact hext' _ _ hk
      · exact hes e he

theorem drop (H : t.Counted fun j => c j + if j = k then 1 else 0)
    (hk : t.table.get? k = some obj) :
    (t.drop k obj).Counted c ∧
      ∀ j obj', 0 < c j → t.table.get? j = some obj' → (t.drop k obj).table.get? j = some obj' := by
  have hcount : t.count obj = c k + 1 := by simpa using H.count k obj hk
  have hget : ∀ j, (t.drop k obj).table.get? j =
      if j = k ∧ c k = 0 then none else t.table.get? j := by
    intro j
    simp only [RefTable.drop, hcount, Nat.add_sub_cancel]
    split
    · rename_i hzero
      simp [Dict.get?_erase, hzero]
    · rename_i hpos
      simp [hpos]
  have hsub : ∀ {j obj'}, (t.drop k obj).table.get? j = some obj' →
      t.table.get? j = some obj' := by
    intro j obj' hj
    rw [hget] at hj
    split at hj
    · cases hj
    · exact hj
  refine ⟨⟨fun j obj' hj => ?_, fun j => ?_, fun j obj' hj => H.fresh j obj' (hsub hj),
    fun i j obj' hi hj => H.inj i j obj' (hsub hi) (hsub hj)⟩, fun j obj' hc hj => ?_⟩
  · have hold := hsub hj
    simp only [RefTable.drop, update_apply]
    split
    · subst obj'
      cases H.inj j k obj hold hk
      omega
    · rename_i hne
      rw [H.count j obj' hold, if_neg, Nat.add_zero]
      rintro rfl
      exact hne (Option.some_inj.mp (hold.symm.trans hk))
  · rw [hget]
    split
    · rename_i hj
      exact iff_of_true rfl (hj.1 ▸ hj.2)
    · rename_i hj
      rw [H.live]
      split
      · subst j
        have : c k ≠ 0 := fun h => hj ⟨rfl, h⟩
        omega
      · rfl
  · rw [hget, if_neg]
    · exact hj
    · rintro ⟨rfl, hzero⟩
      omega

theorem dropAll (H : t.Counted fun j => c j + (es.map Prod.fst).count j)
    (hes : ∀ e ∈ es, t.table.get? e.1 = some e.2) :
    (t.dropAll es).Counted c ∧
      ∀ j obj, 0 < c j → t.table.get? j = some obj → (t.dropAll es).table.get? j = some obj := by
  induction es generalizing t with
  | nil => exact ⟨H, fun _ _ _ h => h⟩
  | cons e es ih =>
    obtain ⟨k, obj⟩ := e
    have H' : t.Counted fun j => c j + (es.map Prod.fst).count j + if j = k then 1 else 0 := by
      simpa only [List.map_cons, count_cons, Nat.add_assoc] using H
    obtain ⟨Hk, hkept⟩ := H'.drop (hes _ List.mem_cons_self)
    obtain ⟨H'', hkept'⟩ := ih Hk fun e he => by
      refine hkept _ _ (Nat.add_pos_right _ ?_) (hes e (List.mem_cons_of_mem _ he))
      exact List.count_pos_iff.mpr (List.mem_map_of_mem he)
    exact ⟨H'', fun j obj hc hj => hkept' j obj hc (hkept j obj (Nat.add_pos_left hc _) hj)⟩

/-- Nothing is left of a table none of whose keys is in use. -/
theorem table_eq_nil (H : t.Counted c) (hc : ∀ k, c k = 0) : t.table.entries = [] := by
  refine List.eq_nil_iff_forall_not_mem.mpr fun e he => ?_
  have := (H.live e.1).mpr (hc e.1)
  rw [Dict.mem_entries.mp he] at this
  cases this

end Counted

end RefTable
end Lib
