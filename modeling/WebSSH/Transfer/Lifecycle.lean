import WebSSH.Transfer.Invariant
import Mathlib

/-!
# The life cycle of transfers

Every operation starts with the cleanup of expired records and then marks, terminates or adds
records, so it keeps the invariant and has one of the `Effect`s (`Inv.step`). Over a run the
effects say which tokens were issued and accepted (`History`).
-/

namespace WebSSH.Transfer
open Lib Lib.Python Quota

set_option autoImplicit false
set_option linter.unusedSectionVars false

section
variable {Time : Type} [LinearOrder Time] [Add Time] (cfg : Config Time)
variable {s s' : State Time} {i : Nat} {r r' : TransferRecord Time}

/-! ## Bulk updates -/

theorem Inv.mem_select (H : Inv s) {p : TransferRecord Time → Bool} :
    i ∈ s.select p ↔ ∃ r, Active s i r ∧ p r = true := by
  simp only [State.select, List.mem_filter, Dict.mem_values]
  constructor
  · rintro ⟨⟨id, hid⟩, hp⟩
    obtain ⟨r, hr, -⟩ := (H.records id i).mp hid
    rw [hr.1] at hp
    exact ⟨r, hr, hp⟩
  · rintro ⟨r, hr, hp⟩
    exact ⟨⟨_, (H.records r.transferId i).mpr ⟨r, hr, rfl⟩⟩, by rw [hr.1]; exact hp⟩

theorem Inv.nodup_select (H : Inv s) (p : TransferRecord Time → Bool) : (s.select p).Nodup := by
  refine List.Nodup.filter _ (List.Nodup.map_on ?_ (List.Nodup.of_map _ s.records.nodup))
  rintro ⟨id, i⟩ h ⟨id', i'⟩ h' rfl
  obtain ⟨r, hr, rfl⟩ := (H.records id i).mp (Dict.mem_entries.mp h)
  obtain ⟨r', hr', rfl⟩ := (H.records id' i).mp (Dict.mem_entries.mp h')
  rw [hr.unique hr']

/-- A loop that touches active records one after another, and leaves each one satisfying `P`. -/
theorem Inv.foldlM {β : Type} (state : β → State Time) (f : β → Nat → Option β)
    (P : TransferRecord Time → Prop)
    (hf : ∀ b i r, Inv (state b) → Active (state b) i r → ∃ b', f b i = some b' ∧
      Touched (state b) i (state b') ∧ ∀ r', (state b').heap[i]? = some r' → P r')
    {l : List Nat} (hl : l.Nodup) {b : β} (H : Inv (state b))
    (hact : ∀ i ∈ l, ∃ r, Active (state b) i r) :
    ∃ b', l.foldlM f b = some b' ∧ Inv (state b') ∧ Evolves (state b) (state b') ∧
      (∀ i, i ∉ l → (state b').heap[i]? = (state b).heap[i]?) ∧
      ∀ i ∈ l, ∀ r', (state b').heap[i]? = some r' → P r' := by
  induction l generalizing b with
  | nil => exact ⟨b, rfl, H, .of_heap rfl, fun _ _ => rfl, fun _ h => by cases h⟩
  | cons i l ih =>
    obtain ⟨hi, hl⟩ := List.nodup_cons.mp hl
    obtain ⟨r, hr⟩ := hact i List.mem_cons_self
    obtain ⟨b₁, hb₁, ht, hP⟩ := hf b i r H hr
    have hact₁ : ∀ j ∈ l, ∃ r, Active (state b₁) j r := by
      intro j hj
      obtain ⟨r, hr⟩ := hact j (List.mem_cons_of_mem i hj)
      refine ⟨r, ?_, hr.2⟩
      rw [ht.others j (by rintro rfl; exact hi hj)]
      exact hr.1
    obtain ⟨b', hb', H', he, hsame, hall⟩ := ih hl ht.inv hact₁
    refine ⟨b', ?_, H', ht.evolves.trans he, fun j hj => ?_, fun j hj r' hr' => ?_⟩
    · rw [List.foldlM_cons, hb₁]
      exact hb'
    · rw [hsame j fun h => hj (List.mem_cons_of_mem i h),
        ht.others j fun h => hj (h ▸ List.mem_cons_self)]
    · rcases List.mem_cons.mp hj with rfl | hj
      · exact hP r' (hsame j hi ▸ hr')
      · exact hall j hj r' hr'

/-- What the cleanup at the start of an operation leaves behind. -/
structure Cleaned (s : State Time) (now : Time) (s' : State Time) : Prop where
  inv : Inv s'
  evolves : Evolves s s'
  unexpired : ∀ i r, Active s' i r → r.state = .pending → now < r.expiresAt

theorem Inv.cleanupExpired (H : Inv s) (now : Time) :
    ∃ n s', s.cleanupExpired cfg now = some (n, s') ∧ Cleaned s now s' := by
  let s₀ : State Time := { s with
    terminalStates := s.terminalStates.filter fun _ terminal => decide (now < terminal.2.2) }
  have H₀ : Inv s₀ := by
    refine H.of_eq rfl rfl rfl fun id hid => ?_
    simp [s₀, Dict.get?_filter, hid]
  let p : TransferRecord Time → Bool := fun r =>
    !r.tokenConsumed && r.state = .pending && decide (r.expiresAt ≤ now)
  obtain ⟨s', hs', H', he, hsame, hP⟩ := Inv.foldlM (b := s₀) id
    (fun (s : State Time) i => s.terminate cfg i .failed true true)
    (fun r => r.state.terminal = true)
    (fun b i r hb hr => hb.terminate cfg hr .failed rfl true true)
    (H₀.nodup_select p) H₀ (fun i hi => (H₀.mem_select.mp hi).imp fun r hr => hr.1)
  have he₀ : Evolves s s₀ := .of_heap rfl
  refine ⟨(s₀.select p).length, s', ?_, H', he₀.trans he, fun i r hr hp => ?_⟩
  · simp only [State.cleanupExpired]
    exact Option.map_eq_some_iff.mpr ⟨s', hs', rfl⟩
  · by_contra hle
    by_cases hi : i ∈ s₀.select p
    · have := hP i hi r hr.1
      rw [hr.2] at this
      cases this
    · refine hi (H₀.mem_select.mpr ⟨r, ⟨(hsame i hi).symm.trans hr.1, hr.2⟩, ?_⟩)
      have hc := (H'.ok hr.1).consumed.mpr hp
      simp [p, hc, hp, not_lt.mp hle]

theorem Inv.cleanup (H : Inv s) :
    ∃ n s', s.cleanup cfg = some (n, s') ∧ Cleaned s (cfg.clock s.reads) s' := by
  obtain ⟨n, s', hs', hc⟩ :=
    Inv.cleanupExpired cfg (s := (s.now cfg).2) (H.of_eq rfl rfl rfl fun _ => id)
      (cfg.clock s.reads)
  have he : Evolves s (s.now cfg).2 := .of_heap rfl
  exact ⟨n, s', hs', hc.inv, he.trans hc.evolves, hc.unexpired⟩

/-- Marking a record as being cancelled. -/
theorem Inv.cancelling (H : Inv s) (hi : Active s i r) (hst : r.state = .running) :
    Touched s i { s with heap := s.heap.set i { r with state := .cancelling, cancelEvent := true } } := by
  have hok := H.ok hi.1
  have htoken := hok.token (by rw [hst]; simp)
  have hconsumed : r.tokenConsumed = true := by
    have := hok.consumed
    rw [hst] at this
    simpa using this
  refine ⟨H.mark hi rfl rfl rfl rfl ⟨?_, fun _ => htoken⟩, .set hi.1 ?_ rfl, fun j hj => ?_⟩
  · simp [hconsumed]
  · exact ⟨rfl, rfl, rfl, id, .inl rfl, fun ht => by rw [hi.2] at ht; cases ht⟩
  · rw [get_set hi.1, if_neg hj]

theorem Inv.cancelRecord (H : Inv s) (hi : Active s i r) (n : Nat) :
    ∃ n' s', State.cancelRecord cfg (n, s) i = some (n', s') ∧ Touched s i s' := by
  simp only [State.cancelRecord, hi.1]
  cases hst : r.state with
  | running => exact ⟨_, _, rfl, H.cancelling hi hst⟩
  | pending =>
    obtain ⟨s', hs', ht, -⟩ := H.terminate cfg hi .cancelled rfl true true
    exact ⟨_, s', by rw [hs']; rfl, ht⟩
  | cancelling | cancelled | failed | completed =>
    exact ⟨_, _, rfl, H, .of_heap rfl, fun _ _ => rfl⟩

theorem Inv.cancelRecords (H : Inv s) {l : List Nat} (hl : l.Nodup)
    (hact : ∀ i ∈ l, ∃ r, Active s i r) :
    ∃ n s', s.cancelRecords cfg l = some (n, s') ∧ Inv s' ∧ Evolves s s' := by
  obtain ⟨⟨n, s'⟩, hs', H', he, -⟩ := Inv.foldlM (b := (0, s)) Prod.snd
    (State.cancelRecord cfg) (fun _ => True)
    (fun b i r hb hr =>
      let ⟨n', s', hs', ht⟩ := Inv.cancelRecord cfg hb hr b.1
      ⟨(n', s'), hs', ht, fun _ _ => trivial⟩)
    hl H hact
  exact ⟨n, s', hs', H', he⟩

theorem findToken_some {token : String} (h : s.findToken token = some (i, r)) :
    i ∈ s.records.values ∧ s.heap[i]? = some r ∧ r.token = some token := by
  unfold State.findToken at h
  -- the accumulator of the loop is always a record with this token
  refine List.foldlRecOn (motive := fun found => ∀ x, found = some x → x.1 ∈ s.records.values ∧
    s.heap[x.1]? = some x.2 ∧ x.2.token = some token) _ _ (fun x hx => by cases hx)
    (fun found hf j hj y hy => ?_) (i, r) h
  split at hy
  · split at hy
    · cases hy
      exact ⟨hj, ‹_›, ‹_›⟩
    · exact hf y hy
  · exact hf y hy

/-! ## Effects of the operations -/

/-- The result hands out no record. -/
def Result.plain : Result Time → Bool
  | .created .. | .consumed .. => false
  | _ => true

/-- What a call does to the records, as far as its result tells. -/
inductive Effect (s : State Time) (e : Event Time) (s' : State Time) : Prop
  | quiet : e.result.plain = true → Evolves s s' → Effect s e s'
  | created {s₁ r token} : Evolves s s₁ → e.result = .created s₁.heap.length r →
      s'.heap = s₁.heap ++ [r] → r.token = some token → r.tokenConsumed = false → Effect s e s'
  | consumed {i r₀ r token userId} : e.op = .consumeToken (.str token) userId →
      e.result = .consumed i r → Evolves s s' → s.heap[i]? = some r₀ → r₀.token = some token →
      r₀.tokenConsumed = false → normalizeId userId = some r₀.userId → e.time < r₀.expiresAt →
      s'.heap[i]? = some r → r.tokenConsumed = true → Effect s e s'

/-- A call that keeps the invariant and only lets records advance. -/
structure Quiet (s : State Time) (result : Result Time) (s' : State Time) : Prop where
  inv : Inv s'
  evolves : Evolves s s'
  plain : result.plain = true

variable {result : Result Time}

theorem Quiet.same (H : Inv s) (hp : result.plain = true) : Quiet s result s := ⟨H, .of_heap rfl, hp⟩

/-- Adding the record that `create` builds. -/
theorem Inv.add (H : Inv s) {quota : QuotaManager} {d : Descriptor} {reservation : Nat}
    (hres : s.quota.reserve .transfer d.userId 1 = .ok (reservation, quota))
    (hid : s.records.get? r.transferId = none ∧ s.terminalStates.get? r.transferId = none)
    (huser : r.userId = d.userId) (hr : r.quotaReservation = reservation)
    (hst : r.state = .pending) (hc : r.tokenConsumed = false) :
    Inv { s with
      quota := quota, heap := s.heap ++ [r]
      records := s.records.set r.transferId s.heap.length } := by
  have hq := QuotaManager.reserve_ok hres
  have hnew : r.state.terminal = false := by rw [hst]; rfl
  have hget : ∀ j, (s.heap ++ [r])[j]? = if j = s.heap.length then some r else s.heap[j]? := by
    intro j
    split
    · subst j; simp
    · rcases lt_or_gt_of_ne ‹j ≠ s.heap.length› with h | h
      · rw [List.getElem?_append_left h]
      · rw [List.getElem?_eq_none (by simp; omega), List.getElem?_eq_none h.le]
  have hold : ∀ {j r₁}, Active s j r₁ → j ≠ s.heap.length := by
    rintro j r₁ ⟨hj, -⟩ rfl
    rw [List.getElem?_eq_none (le_refl _)] at hj
    cases hj
  have hactive : ∀ {j r₁}, (s.heap ++ [r])[j]? = some r₁ ∧ r₁.state.terminal = false ↔
      j = s.heap.length ∧ r₁ = r ∨ Active s j r₁ := by
    intro j r₁
    rw [hget]
    split
    · subst j
      constructor
      · rintro ⟨h, -⟩; exact .inl ⟨rfl, (Option.some.inj h).symm⟩
      · rintro (⟨-, rfl⟩ | h)
        · exact ⟨rfl, hnew⟩
        · exact absurd rfl (hold h)
    · rename_i hj
      exact ⟨.inr, fun h => h.elim (fun h => absurd h.1 hj) id⟩
  refine ⟨hq.accounts H.accounts, fun id j => ?_, fun id j hj => ?_, fun {j r₁} hj => ?_,
    fun {j r₁} hj => ?_, fun {j j' r₁ r₂} hj hj' he => ?_, fun u => ?_⟩
  · simp only [Active, hactive]
    rw [Dict.get?_set]
    split
    · subst id
      constructor
      · rintro h
        exact ⟨r, .inl ⟨(Option.some.inj h).symm, rfl⟩, rfl⟩
      · rintro ⟨r₁, ⟨rfl, rfl⟩ | h, hid'⟩
        · rfl
        · have := (H.records _ j).mpr ⟨r₁, h, hid'⟩
          rw [hid.1] at this
          cases this
    · rename_i hne
      rw [H.records id j]
      constructor
      · rintro ⟨r₁, h, rfl⟩; exact ⟨r₁, .inr h, rfl⟩
      · rintro ⟨r₁, ⟨-, rfl⟩ | h, rfl⟩
        · exact absurd rfl hne
        · exact ⟨r₁, h, rfl⟩
  · dsimp only at hj ⊢
    rw [Dict.get?_set] at hj
    split at hj
    · subst id; exact hid.2
    · exact H.disjoint id j hj
  · dsimp only at hj
    rw [hget] at hj
    split at hj
    · obtain rfl := Option.some.inj hj
      exact ⟨⟨fun _ => hst, fun _ => hc⟩, fun h => absurd hst h⟩
    · exact H.ok hj
  · dsimp only
    rw [hq.reservations]
    rcases hactive.mp hj with ⟨-, rfl⟩ | h
    · rw [hr, hq.index, huser]; simp
    · have h₁ := H.reserved h
      rw [List.getElem?_append_left (List.getElem?_eq_some_iff.mp h₁).1]
      exact h₁
  · have hlt : ∀ {j r₁}, Active s j r₁ → r₁.quotaReservation < s.quota.reservations.length :=
      fun h => (List.getElem?_eq_some_iff.mp (H.reserved h)).1
    rcases hactive.mp hj with ⟨rfl, rfl⟩ | h
    · rcases hactive.mp hj' with ⟨rfl, rfl⟩ | h'
      · rfl
      · have := hlt h'
        rw [← he, hr, hq.index] at this
        exact absurd this (lt_irrefl _)
    · rcases hactive.mp hj' with ⟨rfl, rfl⟩ | h'
      · have := hlt h
        rw [he, hr, hq.index] at this
        exact absurd this (lt_irrefl _)
      · exact H.separate h h' he
  · dsimp only
    rw [hq.user, H.held u, List.countP_append, List.countP_singleton]
    simp only [heldBy, hnew, Prod.mk.injEq, true_and, Bool.not_false, Bool.true_and, huser]
    by_cases hu : u = d.userId
    · simp [hu]
    · simp [hu, Ne.symm hu]

theorem Inv.create (H : Inv s) {d : Descriptor} {ids tokens : List String} {op : Op}
    (h : s.create cfg d ids tokens = some (result, s')) :
    Inv s' ∧ Effect s ⟨op, cfg.clock s.reads, result⟩ s' := by
  have he₀ : Evolves s (s.now cfg).2 := .of_heap rfl
  have H₀ : Inv (s.now cfg).2 := H.of_eq rfl rfl rfl fun _ => id
  simp only [State.create] at h
  split at h
  · cases h
    exact ⟨H₀, .quiet rfl he₀⟩
  obtain ⟨⟨n, s₁⟩, hs₁, h⟩ := Option.bind_eq_some_iff.mp h
  obtain ⟨transferId, hid, h⟩ := Option.bind_eq_some_iff.mp h
  obtain ⟨token, htoken, h⟩ := Option.map_eq_some_iff.mp h
  obtain ⟨n', s₁', hs₁', hclean⟩ := H₀.cleanupExpired cfg (cfg.clock s.reads)
  obtain ⟨rfl, rfl⟩ : n' = n ∧ s₁' = s₁ := by
    have := hs₁'.symm.trans hs₁
    simpa using this
  have he := he₀.trans hclean.evolves
  have hfresh := List.find?_some hid
  simp only [Dict.contains, Bool.and_eq_true, Bool.not_eq_true', Option.isSome_eq_false_iff,
    Option.isNone_iff_eq_none] at hfresh
  split at h
  · cases h
    exact ⟨hclean.inv, .quiet rfl he⟩
  · cases h
    exact ⟨hclean.inv.add ‹_› hfresh rfl rfl rfl rfl, .created he rfl rfl rfl rfl⟩

theorem Inv.consumeToken (H : Inv s) {token userId : Value}
    (h : s.consumeToken cfg token userId = some (result, s')) :
    Inv s' ∧ Effect s ⟨.consumeToken token userId, cfg.clock s.reads, result⟩ s' := by
  simp only [State.consumeToken] at h
  split at h
  · cases h
    exact ⟨H, .quiet rfl (.of_heap rfl)⟩
  obtain ⟨⟨n, s₁⟩, hs₁, hres⟩ := Option.map_eq_some_iff.mp h
  clear h
  obtain ⟨n', s₁', hs₁', hclean⟩ := H.cleanup cfg
  obtain ⟨rfl, rfl⟩ : n' = n ∧ s₁' = s₁ := by
    have := hs₁'.symm.trans hs₁
    simpa using this
  split at hres
  · rename_i i r u hfind huser
    split at hres
    · cases hres
      exact ⟨hclean.inv, .quiet rfl hclean.evolves⟩
    · rename_i hok
      simp only [Bool.or_eq_true, Bool.not_eq_true', decide_eq_true_eq, not_or, Bool.not_eq_false,
        Bool.not_eq_true, ne_eq, Decidable.not_not] at hok
      obtain ⟨⟨⟨hvalid, hconsumed⟩, hu⟩, hst⟩ := hok
      -- an accepted token is a string, so it is the candidate that was looked up
      obtain ⟨t, rfl⟩ : ∃ t, token = .str t := by
        cases token with
        | str t => exact ⟨t, rfl⟩
        | none | bool _ | int _ | other _ => cases hvalid
      simp only [candidateToken, hvalid, if_true] at hfind
      cases hres
      obtain ⟨hmem, hheap, htok⟩ := findToken_some hfind
      have hactive : Active s₁' i r := ⟨hheap, by rw [hst]; rfl⟩
      obtain ⟨r₀, h₀, hadv⟩ := hclean.evolves.back hheap
      refine ⟨hclean.inv.mark hactive rfl rfl rfl rfl ⟨by simp, fun _ => rfl⟩,
        .consumed rfl rfl ?_ h₀ ?_ ?_ ?_ ?_ (by rw [get_set hheap, if_pos rfl]) rfl⟩
      · refine hclean.evolves.trans (.set hheap ?_ rfl)
        exact ⟨rfl, rfl, rfl, fun _ => rfl, .inr rfl, fun ht => by rw [hst] at ht; cases ht⟩
      · rcases hadv.token with ht | ht
        · rw [← ht]; exact htok
        · rw [htok] at ht; cases ht
      · by_contra hc
        rw [hadv.consumed (by simpa using hc)] at hconsumed
        cases hconsumed
      · rw [huser, ← hadv.userId, hu]
      · rw [← hadv.expiresAt]
        exact hclean.unexpired i r hactive hst
  · cases hres
    exact ⟨hclean.inv, .quiet rfl hclean.evolves⟩

theorem Inv.cancelSelected (H : Inv s) {p : TransferRecord Time → Bool}
    (h : s.cancelSelected cfg p = some (result, s')) : Quiet s result s' := by
  obtain ⟨n, s₁, hs₁, hclean⟩ := H.cleanup cfg
  obtain ⟨n', s₂, hs₂, H₂, he₂⟩ := hclean.inv.cancelRecords cfg (hclean.inv.nodup_select p)
    fun i hi => (hclean.inv.mem_select.mp hi).imp fun r hr => hr.1
  simp only [State.cancelSelected, hs₁, Option.bind_some, hs₂, Option.map_some] at h
  cases h
  exact ⟨H₂, hclean.evolves.trans he₂, rfl⟩

theorem Inv.closeAndCancel (H : Inv s) {binding : Nat}
    (h : s.closeAndCancel cfg binding = some (result, s')) : Quiet s result s' := by
  simp only [State.closeAndCancel] at h
  split at h
  · cases h; exact .same H rfl
  have H₀ : Inv { s with accepting := false } := H.of_eq rfl rfl rfl fun _ => id
  have he₀ : Evolves s { s with accepting := false } := .of_heap rfl
  obtain ⟨n, s₁, hs₁, hclean⟩ := H₀.cleanup cfg
  rw [hs₁] at h
  obtain ⟨⟨n', s₂⟩, hs₂, h⟩ := Option.map_eq_some_iff.mp h
  cases h
  obtain ⟨n'', s₂', hs₂', H₂, he₂⟩ := hclean.inv.cancelRecords cfg (hclean.inv.nodup_select _)
    fun i hi => (hclean.inv.mem_select.mp hi).imp fun r hr => hr.1
  obtain ⟨rfl, rfl⟩ : n'' = n' ∧ s₂' = s₂ := by
    have := hs₂'.symm.trans hs₂
    simpa using this
  exact ⟨H₂, he₀.trans (hclean.evolves.trans he₂), rfl⟩

/-- The record that `_records` has for an id. -/
theorem Inv.lookup (H : Inv s) {id : String}
    (h : ((s.records.get? id).bind fun i => (s.heap[i]?).map fun r => (i, r)) = some (i, r)) :
    Active s i r := by
  obtain ⟨j, hj, h⟩ := Option.bind_eq_some_iff.mp h
  obtain ⟨r₁, hr₁, h⟩ := Option.map_eq_some_iff.mp h
  obtain ⟨rfl, rfl⟩ : j = i ∧ r₁ = r := by simpa using h
  obtain ⟨r₂, h₂, -⟩ := (H.records id j).mp hj
  obtain rfl := Option.some.inj (hr₁.symm.trans h₂.1)
  exact h₂

theorem Inv.cancelWithResult (H : Inv s) {transferId userId : Value}
    (h : s.cancelWithResult cfg transferId userId = some (result, s')) : Quiet s result s' := by
  simp only [State.cancelWithResult] at h
  split at h
  · obtain ⟨⟨n, s₁⟩, hs₁, h⟩ := Option.bind_eq_some_iff.mp h
    obtain ⟨n', s₁', hs₁', hclean⟩ := H.cleanup cfg
    obtain ⟨rfl, rfl⟩ : n' = n ∧ s₁' = s₁ := by
      have := hs₁'.symm.trans hs₁
      simpa using this
    have hstay : ∀ answer, Quiet s (.cancelResult answer) s₁' :=
      fun _ => ⟨hclean.inv, hclean.evolves, rfl⟩
    split at h
    · have hactive := hclean.inv.lookup ‹_›
      split at h
      · cases h; exact hstay _
      split at h
      · obtain ⟨s₂, hs₂, h⟩ := Option.map_eq_some_iff.mp h
        obtain ⟨s₂', hs₂', ht, -⟩ := hclean.inv.terminate cfg hactive .cancelled rfl true true
        obtain rfl := Option.some.inj (hs₂'.symm.trans hs₂)
        cases h
        exact ⟨ht.inv, hclean.evolves.trans ht.evolves, rfl⟩
      · cases h
        have ht := hclean.inv.cancelling hactive ‹_›
        exact ⟨ht.inv, hclean.evolves.trans ht.evolves, rfl⟩
      · cases h; exact hstay _
      · cases h; exact hstay _
    · cases h; exact hstay _
  · cases h; exact .same H rfl

theorem Inv.transition (H : Inv s) {transferId userId : Value} {allowed : List TransferState}
    {target : TransferState} (ht : target.terminal = true)
    (h : s.transition cfg transferId userId allowed target = some (result, s')) :
    Quiet s result s' := by
  simp only [State.transition] at h
  split at h
  · obtain ⟨⟨n, s₁⟩, hs₁, h⟩ := Option.bind_eq_some_iff.mp h
    obtain ⟨n', s₁', hs₁', hclean⟩ := H.cleanup cfg
    obtain ⟨rfl, rfl⟩ : n' = n ∧ s₁' = s₁ := by
      have := hs₁'.symm.trans hs₁
      simpa using this
    split at h
    · have hactive := hclean.inv.lookup ‹_›
      split at h
      · cases h; exact ⟨hclean.inv, hclean.evolves, rfl⟩
      · obtain ⟨s₂, hs₂, h⟩ := Option.map_eq_some_iff.mp h
        obtain ⟨s₂', hs₂', htouch, -⟩ := hclean.inv.terminate cfg hactive target ht _ _
        obtain rfl := Option.some.inj (hs₂'.symm.trans hs₂)
        cases h
        exact ⟨htouch.inv, hclean.evolves.trans htouch.evolves, rfl⟩
    · cases h; exact ⟨hclean.inv, hclean.evolves, rfl⟩
  · cases h; exact .same H rfl

/-! ## Every step and every run -/

/-- Reservations of the other kinds do not concern the transfers. -/
theorem Inv.setQuota (H : Inv s) {quota : QuotaManager} (ha : quota.Accounts)
    (hr : ∀ (i : Nat) (r : Reservation), s.quota.reservations[i]? = some r → r.kind = .transfer →
      quota.reservations[i]? = some r)
    (hu : ∀ u, quota.userCounts.getD (.transfer, u) 0 = s.quota.userCounts.getD (.transfer, u) 0) :
    Inv { s with quota := quota } where
  accounts := ha
  records := H.records
  disjoint := H.disjoint
  ok := H.ok
  reserved hi := hr _ _ (H.reserved hi) rfl
  separate := H.separate
  held u := (hu u).trans (H.held u)

theorem Inv.reserveOther (H : Inv s) {kind : QuotaKind} {userId : String} {amount : Int} {i : Nat}
    {quota : QuotaManager} (hk : kind ≠ .transfer)
    (h : s.quota.reserve kind userId amount = .ok (i, quota)) :
    Inv { s with quota := quota } := by
  have hq := QuotaManager.reserve_ok h
  refine H.setQuota (hq.accounts H.accounts) (fun j r hj _ => ?_) fun u => ?_
  · rw [hq.reservations, List.getElem?_append_left (List.getElem?_eq_some_iff.mp hj).1]
    exact hj
  · rw [hq.user, if_neg]
    · omega
    · intro he
      exact hk (congrArg Prod.fst he).symm

theorem Inv.releaseOther (H : Inv s) {i : Nat} {r : Reservation} {quota : QuotaManager}
    (hi : s.quota.reservations[i]? = some r) (hk : r.kind ≠ .transfer)
    (h : s.quota.release i = some quota) : Inv { s with quota := quota } := by
  cases hr : r.released with
  | true =>
    obtain rfl := Option.some.inj ((QuotaManager.release_released hi hr).symm.trans h)
    exact H
  | false =>
    obtain ⟨quota', hq', hrel⟩ := QuotaManager.exists_release H.accounts hi hr
    obtain rfl := Option.some.inj (hq'.symm.trans h)
    refine H.setQuota (hrel.accounts H.accounts hi hr) (fun j r' hj hkind => ?_) fun u => ?_
    · rw [hrel.reservations, List.getElem?_set_ne]
      · exact hj
      · rintro rfl
        obtain rfl := Option.some.inj (hi.symm.trans hj)
        exact hk hkind
    · rw [hrel.user, if_neg]
      · omega
      · intro he
        exact hk (congrArg Prod.fst he).symm

theorem Inv.step (H : Inv s) {op : Op} (h : s.step cfg op = some (result, s')) :
    Inv s' ∧ Effect s ⟨op, cfg.clock s.reads, result⟩ s' := by
  have hquiet : Quiet s result s' → Inv s' ∧ Effect s ⟨op, cfg.clock s.reads, result⟩ s' :=
    fun h => ⟨h.inv, .quiet h.plain h.evolves⟩
  cases op with
  | bindRuntime =>
    cases h
    exact hquiet ⟨H.of_eq rfl rfl rfl fun _ => id, .of_heap rfl, rfl⟩
  | create args ids tokens =>
    simp only [State.step] at h
    split at h
    · cases h; exact hquiet (.same H rfl)
    · exact H.create cfg h
  | consumeToken token userId => exact H.consumeToken cfg h
  | cancelWithResult transferId userId => exact hquiet (H.cancelWithResult cfg h)
  | cancelAllForUser userId =>
    simp only [State.step, State.cancelAllForUser] at h
    split at h
    · exact hquiet (H.cancelSelected cfg h)
    · cases h; exact hquiet (.same H rfl)
  | closeAndCancel binding => exact hquiet (H.closeAndCancel cfg h)
  | cancelAllForSocket userId ownerSid =>
    simp only [State.step, State.cancelAllForSocket] at h
    split at h
    · exact hquiet (H.cancelSelected cfg h)
    · cases h; exact hquiet (.same H rfl)
  | complete transferId userId => exact hquiet (H.transition cfg rfl h)
  | fail transferId userId => exact hquiet (H.transition cfg rfl h)
  | finishCancelled transferId userId => exact hquiet (H.transition cfg rfl h)
  | cleanupExpired =>
    obtain ⟨⟨n, s₁⟩, hs₁, h⟩ := Option.map_eq_some_iff.mp h
    obtain ⟨n', s₁', hs₁', hclean⟩ := H.cleanup cfg
    obtain ⟨rfl, rfl⟩ : n' = n ∧ s₁' = s₁ := by
      have := hs₁'.symm.trans hs₁
      simpa using this
    cases h
    exact hquiet ⟨hclean.inv, hclean.evolves, rfl⟩
  | reserveOther kind userId amount =>
    simp only [State.step] at h
    split at h
    · cases h
    split at h
    · cases h; exact hquiet (.same H rfl)
    · cases h
      exact hquiet ⟨H.reserveOther ‹_› ‹_›, .of_heap rfl, rfl⟩
  | releaseOther i =>
    simp only [State.step] at h
    split at h
    · split at h
      · cases h
      · obtain ⟨quota, hq, h⟩ := Option.map_eq_some_iff.mp h
        cases h
        exact hquiet ⟨H.releaseOther ‹_› ‹_› hq, .of_heap rfl, rfl⟩
    · cases h

/-! ## Tokens over a run -/

/-- The records handed out by `create`, as they were then. -/
def created (es : List (Event Time)) : List (Nat × TransferRecord Time) :=
  es.filterMap fun e => match e.result with
    | .created i r => some (i, r)
    | _ => none

/-- The raw tokens accepted by `consume_token`, each with the record it was accepted for. -/
def accepted (es : List (Event Time)) : List (Nat × String) :=
  es.filterMap fun e => match e.op, e.result with
    | .consumeToken (.str token) _, .consumed i _ => some (i, token)
    | _, _ => none

def issuedTokens (es : List (Event Time)) : List String :=
  (created es).filterMap fun c => c.2.token

def acceptedTokens (es : List (Event Time)) : List String := (accepted es).map Prod.snd

/-- The event accepts a token for a record whose creation the run contains. -/
def Justified (es : List (Event Time)) (e : Event Time) : Prop :=
  ∀ i r, e.result = .consumed i r → ∃ token userId r₀, (i, r₀) ∈ created es ∧
    e.op = .consumeToken (.str token) userId ∧ r₀.token = some token ∧
    normalizeId userId = some r₀.userId ∧ e.time < r₀.expiresAt

/-- What a run and the state it ends in say about each other. -/
structure History (es : List (Event Time)) (s : State Time) : Prop where
  inv : Inv s
  bound : ∀ c ∈ created es, c.1 < s.heap.length
  issued : ∀ {i : Nat} {r : TransferRecord Time}, s.heap[i]? = some r →
    ∃ r₀, (i, r₀) ∈ created es ∧ r.userId = r₀.userId ∧ r.expiresAt = r₀.expiresAt ∧
      ∀ token, r.token = some token → r₀.token = some token
  justified : ∀ e ∈ es, Justified es e
  spent : ∀ a ∈ accepted es, (∃ r, s.heap[a.1]? = some r ∧ r.tokenConsumed = true) ∧
    ∃ r₀, (a.1, r₀) ∈ created es ∧ r₀.token = some a.2
  once : ((accepted es).map Prod.fst).Nodup

variable {es : List (Event Time)} {e : Event Time}

theorem created_append : created (es ++ [e]) = created es ++ created [e] := List.filterMap_append
theorem accepted_append : accepted (es ++ [e]) = accepted es ++ accepted [e] :=
  List.filterMap_append

theorem Justified.mono {es es' : List (Event Time)} (h : Justified es e)
    (hsub : ∀ c ∈ created es, c ∈ created es') : Justified es' e := by
  intro i r hr
  obtain ⟨token, userId, r₀, hc, h⟩ := h i r hr
  exact ⟨token, userId, r₀, hsub _ hc, h⟩

theorem accepted_of_plain (h : e.result.plain = true) : accepted [e] = [] := by
  obtain ⟨op, time, result⟩ := e
  cases result with
  | created _ _ | consumed _ _ => cases h
  | cancelResult _ | count _ | bool _ | waiters _ | binding _ | none | raised _ =>
    cases op with
    | consumeToken token _ => cases token <;> rfl
    | _ => rfl

theorem created_of_plain (h : e.result.plain = true) : created [e] = [] := by
  obtain ⟨op, time, result⟩ := e
  cases result with
  | created _ _ | consumed _ _ => cases h
  | cancelResult _ | count _ | bool _ | waiters _ | binding _ | none | raised _ => rfl

theorem History.init (limits : QuotaKind → KindLimits) :
    History [] (.init limits : State Time) where
  inv := .init limits
  bound _ h := by cases h
  issued h := by simp [State.init] at h
  justified _ h := by cases h
  spent _ h := by cases h
  once := .nil

/-- The facts about old events survive when the records evolve and the table may grow. -/
theorem History.carry (H : History es s) {heap' : List (TransferRecord Time)}
    (he : ∀ {i : Nat} {r : TransferRecord Time}, s.heap[i]? = some r →
      ∃ r', heap'[i]? = some r' ∧ Advances r r') :
    ∀ a ∈ accepted es, (∃ r, heap'[a.1]? = some r ∧ r.tokenConsumed = true) ∧
      ∃ r₀, (a.1, r₀) ∈ created (es ++ [e]) ∧ r₀.token = some a.2 := by
  intro a ha
  obtain ⟨⟨r, hr, hc⟩, r₀, hr₀, ht⟩ := H.spent a ha
  obtain ⟨r', hr', hadv⟩ := he hr
  refine ⟨⟨r', hr', hadv.consumed hc⟩, r₀, ?_, ht⟩
  rw [created_append]
  exact List.mem_append_left _ hr₀

theorem History.step (H : History es s) (h : s.step cfg e.op = some (e.result, s'))
    (ht : e.time = cfg.clock s.reads) : History (es ++ [e]) s' := by
  obtain ⟨H', heffect⟩ := H.inv.step cfg h
  rw [← ht] at heffect
  change Effect s e s' at heffect
  have hsub : ∀ c ∈ created es, c ∈ created (es ++ [e]) := by
    intro c hc
    rw [created_append]
    exact List.mem_append_left _ hc
  have hback : ∀ {s₁ : State Time}, Evolves s s₁ → ∀ {i : Nat} {r : TransferRecord Time},
      s₁.heap[i]? = some r → ∃ r₀, (i, r₀) ∈ created (es ++ [e]) ∧ r.userId = r₀.userId ∧
      r.expiresAt = r₀.expiresAt ∧ ∀ token, r.token = some token → r₀.token = some token := by
    intro s₁ he i r hr
    obtain ⟨r₁, hr₁, hadv⟩ := he.back hr
    obtain ⟨r₀, hc, hu, hx, htok⟩ := H.issued hr₁
    refine ⟨r₀, hsub _ hc, hadv.userId.trans hu, hadv.expiresAt.trans hx, fun token hr => ?_⟩
    rcases hadv.token with h | h
    · exact htok token (h.symm.trans hr)
    · rw [h] at hr; cases hr
  have hjust : Justified (es ++ [e]) e → ∀ e' ∈ es ++ [e], Justified (es ++ [e]) e' := by
    intro hnew e' he'
    rcases List.mem_append.mp he' with he' | he'
    · exact (H.justified e' he').mono hsub
    · rw [List.mem_singleton.mp he']; exact hnew
  cases heffect with
  | quiet hplain he =>
    have hacc : accepted (es ++ [e]) = accepted es := by
      rw [accepted_append, accepted_of_plain hplain, List.append_nil]
    refine ⟨H', fun c hc => ?_, hback he, hjust fun i r hr => ?_, ?_, ?_⟩
    · rw [created_append, created_of_plain hplain, List.append_nil] at hc
      rw [he.length]
      exact H.bound c hc
    · rw [hr] at hplain; cases hplain
    · rw [hacc]; exact H.carry he.advances
    · rw [hacc]; exact H.once
  | @created s₁ r token he hres hheap htok hc =>
    have hacc : accepted (es ++ [e]) = accepted es := by
      rw [accepted_append, show accepted [e] = [] by
        obtain ⟨op, time, result⟩ := e
        dsimp only at hres
        subst hres
        cases op with
        | consumeToken token _ => cases token <;> rfl
        | _ => rfl, List.append_nil]
    have hcre : created [e] = [(s₁.heap.length, r)] := by simp [created, hres]
    refine ⟨H', fun c hc => ?_, fun {i r'} hr' => ?_, hjust fun i r hr => ?_, ?_, ?_⟩
    · rw [hheap, List.length_append, he.length]
      rw [created_append, hcre] at hc
      rcases List.mem_append.mp hc with hc | hc
      · exact Nat.lt_succ_of_lt (H.bound c hc)
      · rw [List.mem_singleton.mp hc, he.length]; exact Nat.lt_succ_self _
    · rw [hheap] at hr'
      rcases Nat.lt_or_ge i s₁.heap.length with hlt | hge
      · exact hback he (List.getElem?_append_left hlt ▸ hr')
      · obtain rfl : i = s₁.heap.length := by
          have := (List.getElem?_eq_some_iff.mp hr').1
          rw [List.length_append, List.length_singleton] at this
          omega
        obtain rfl : r = r' := by simpa using hr'
        refine ⟨r, ?_, rfl, rfl, fun _ h => h⟩
        rw [created_append, hcre]
        exact List.mem_append_right _ List.mem_cons_self
    · rw [hres] at hr; cases hr
    · rw [hacc]
      refine H.carry fun {i r₁} hr₁ => ?_
      obtain ⟨r₂, hr₂, hadv⟩ := he.advances hr₁
      refine ⟨r₂, ?_, hadv⟩
      rw [hheap, List.getElem?_append_left (List.getElem?_eq_some_iff.mp hr₂).1]
      exact hr₂
    · rw [hacc]; exact H.once
  | @consumed i r₀ r token userId hop hres he h₀ htok hunc huser htime hnew hcons =>
    have hacc : accepted [e] = [(i, token)] := by simp [accepted, hop, hres]
    have hcre : created [e] = [] := by simp [created, hres]
    obtain ⟨r₁, hr₁, hu, hx, ht₁⟩ := H.issued h₀
    refine ⟨H', fun c hc => ?_, hback he, hjust fun j r' hr' => ?_, fun a ha => ?_, ?_⟩
    · rw [created_append, hcre, List.append_nil] at hc
      rw [he.length]
      exact H.bound c hc
    · obtain ⟨rfl, rfl⟩ : i = j ∧ r = r' := by
        rw [hres] at hr'
        cases hr'
        exact ⟨rfl, rfl⟩
      exact ⟨token, userId, r₁, hsub _ hr₁, hop, ht₁ token htok, by rw [huser, hu], by
        rw [← hx]; exact htime⟩
    · rw [accepted_append, hacc] at ha
      rcases List.mem_append.mp ha with ha | ha
      · exact H.carry he.advances a ha
      · rw [List.mem_singleton.mp ha]
        exact ⟨⟨r, hnew, hcons⟩, r₁, hsub _ hr₁, ht₁ token htok⟩
    · rw [accepted_append, hacc, List.map_append]
      refine List.Nodup.append H.once (List.nodup_singleton _) ?_
      intro j hj hji
      obtain rfl := List.mem_singleton.mp hji
      obtain ⟨a, ha, rfl⟩ := List.mem_map.mp hj
      -- the record's token was still unused before this event
      obtain ⟨⟨r₂, hr₂, hc₂⟩, -⟩ := H.spent a ha
      obtain rfl := Option.some.inj (hr₂.symm.trans h₀)
      rw [hunc] at hc₂
      cases hc₂

theorem run_history {limits : QuotaKind → KindLimits}
    (h : (system cfg limits).Run (.init limits) es s) : History es s :=
  h.history (.init limits) fun _ _ _ _ H hs => H.step cfg hs.1 hs.2

/-- Different records carry different tokens, so a token is accepted for one record only. -/
theorem History.token_once (H : History es s) (hfresh : (issuedTokens es).Nodup) :
    (acceptedTokens es).Nodup := by
  refine List.Nodup.map_on (fun a ha b hb hab => ?_) (List.Nodup.of_map _ H.once)
  obtain ⟨-, r₁, h₁, ht₁⟩ := H.spent a ha
  obtain ⟨-, r₂, h₂, ht₂⟩ := H.spent b hb
  have hpair := List.pairwise_filterMap.mp hfresh
  have : Std.Symm fun x y : Nat × TransferRecord Time =>
      ∀ t, x.2.token = some t → ∀ t', y.2.token = some t' → t ≠ t' :=
    ⟨fun x y h t ht t' ht' he => h t' ht' t ht he.symm⟩
  by_contra hne
  have hne' : (a.1, r₁) ≠ (b.1, r₂) := by
    intro h
    injection h with hfst
    exact hne (Prod.ext hfst hab)
  exact hpair.forall h₁ h₂ hne' a.2 ht₁ b.2 ht₂ hab

/-- A terminal record never changes again. -/
theorem terminal_stays {limits : QuotaKind → KindLimits} (H : Inv s)
    (h : (system cfg limits).Run s es s') (hi : s.heap[i]? = some r)
    (hr : r.state.terminal = true) : s'.heap[i]? = some r := by
  have := h.invariant (P := fun x => Inv x ∧ x.heap[i]? = some r) ⟨H, hi⟩ <| by
    rintro x e y ⟨Hx, hx⟩ ⟨hs, -⟩
    obtain ⟨Hy, heffect⟩ := Hx.step cfg hs
    have hev : ∀ {z : State Time}, Evolves x z → z.heap[i]? = some r := by
      intro z he
      obtain ⟨r', hr', hadv⟩ := he.advances hx
      rw [hadv.terminal hr] at hr'
      exact hr'
    cases heffect with
    | quiet _ he => exact ⟨Hy, hev he⟩
    | consumed _ _ he => exact ⟨Hy, hev he⟩
    | created he _ hheap =>
      refine ⟨Hy, ?_⟩
      have hz := hev he
      rw [hheap, List.getElem?_append_left (List.getElem?_eq_some_iff.mp hz).1]
      exact hz
  exact this.2

/-- The life cycle of transfers: with fresh tokens each raw token is accepted at most once, only
for the user it was issued to and before its expiry; terminal records stay as they are; an id is
never both live and terminal; and each user holds one quota unit per live record. -/
theorem transfer_lifecycle (limits : QuotaKind → KindLimits) (es : List (Event Time))
    (s : State Time) (h : (system cfg limits).Run (.init limits) es s) :
    ((issuedTokens es).Nodup → (acceptedTokens es).Nodup) ∧
    (∀ e ∈ es, Justified es e) ∧
    (∀ es' s', (system cfg limits).Run s es' s' → ∀ (i : Nat) (r : TransferRecord Time),
      s.heap[i]? = some r → r.state.terminal = true → s'.heap[i]? = some r) ∧
    (∀ id, s.records.contains id = true → s.terminalStates.contains id = false) ∧
    ∀ u, s.quota.userCounts.getD (.transfer, u) 0 =
      (s.heap.filter fun r => !r.state.terminal && r.userId = u).length := by
  have H := run_history cfg h
  refine ⟨H.token_once, H.justified, fun es' s' h' i r hi hr => terminal_stays cfg H.inv h' hi hr,
    fun id hid => ?_, fun u => ?_⟩
  · obtain ⟨i, hi⟩ := Option.isSome_iff_exists.mp hid
    rw [Dict.contains, H.inv.disjoint id i hi]
    rfl
  · rw [H.inv.held u, List.countP_eq_length_filter]
    rfl

/-- Executing calls one after another. -/
def State.execute (s : State Time) : List Op → Option (List (Event Time) × State Time)
  | [] => some ([], s)
  | op :: ops =>
    match s.step cfg op with
    | none => none
    | some (result, s') =>
      (s'.execute ops).map fun (es, t) => (⟨op, cfg.clock s.reads, result⟩ :: es, t)

theorem run_of_execute (limits : QuotaKind → KindLimits) {ops : List Op}
    (h : s.execute cfg ops = some (es, s')) : (system cfg limits).Run s es s' := by
  induction ops generalizing s es with
  | nil => cases h; exact .refl
  | cons op ops ih =>
    simp only [State.execute] at h
    split at h
    · cases h
    · obtain ⟨⟨es', t⟩, hx, h⟩ := Option.map_eq_some_iff.mp h
      cases h
      exact .cons ⟨‹_›, rfl⟩ (ih hx)

end

/-! ## One upload -/

def uploadConfig : Config Int := ⟨300, fun n => n⟩

def uploadLimits : QuotaKind → KindLimits := fun _ => ⟨10, 5⟩

def uploadArgs : CreateArgs :=
  { userId := .int 7, sourceId := .str "s", direction := .str "upload", metadata := .mapping
    ownerSid := .none, sourceIds := .none, sourceHolds := .none }

/-- The token of the upload is consumed, presented again, and the upload completes. -/
def uploadCalls : List Op :=
  [.create uploadArgs ["id"] [dummyToken], .consumeToken (.str dummyToken) (.int 7),
    .consumeToken (.str dummyToken) (.int 7), .complete (.str "id") (.int 7)]

theorem transfer_lifecycle_upload : ∃ es s,
    (system uploadConfig uploadLimits).Run (.init uploadLimits) es s ∧
      acceptedTokens es = [dummyToken] ∧ (acceptedTokens es).Nodup ∧
      s.heap.map (·.state) = [.completed] ∧
      s.quota.userCounts.getD (.transfer, "7") 0 = 0 := by
  have hexec : ((State.init uploadLimits).execute uploadConfig uploadCalls).any (fun x =>
      issuedTokens x.1 = [dummyToken] && acceptedTokens x.1 = [dummyToken] &&
        x.2.heap.map (·.state) = [.completed] &&
        (x.2.heap.filter fun r => !r.state.terminal && r.userId = "7").length = 0) = true := by
    decide
  obtain ⟨⟨es, s⟩, hx, hp⟩ := (Option.any_eq_true _ _).mp hexec
  simp only [Bool.and_eq_true, decide_eq_true_eq] at hp
  obtain ⟨⟨⟨hissued, haccepted⟩, hstates⟩, hlive⟩ := hp
  have hrun := run_of_execute uploadConfig uploadLimits hx
  obtain ⟨honce, -, -, -, hheld⟩ := transfer_lifecycle uploadConfig uploadLimits es s hrun
  refine ⟨es, s, hrun, haccepted, honce ?_, hstates, ?_⟩
  · rw [hissued]; exact List.nodup_singleton _
  · rw [hheld "7", hlive]; rfl

end WebSSH.Transfer
