import WebSSH.Lib.Dict

/-!
# Registries of held records

A table of records that their users hold while they work with them. A close of a held record is
deferred to the release of its last hold. An operation hands out the records it takes out of the
table; each record carries a ticket. `Exact` says that tickets go from the table to what is handed
out, `Follows` what an operation may do to a record that stays.
-/

namespace Lib

universe u v w

structure Held (α : Type v) where
  value : α
  holdCount : Nat
  closeRequested : Bool
  ticket : Nat
  deriving DecidableEq

structure HoldRegistry (κ : Type u) (α : Type v) where
  records : Dict κ (Held α)
  /-- How many tickets have been issued. -/
  tickets : Nat

namespace HoldRegistry

set_option linter.unusedSectionVars false

variable {κ : Type u} {α : Type v} {β : Type w}

/-- What an operation answers, the records it has taken out of the table, and the registry then. -/
structure Outcome (κ : Type u) (α : Type v) (β : Type w) where
  answer : β
  gone : List (Held α)
  after : HoldRegistry κ α

def Outcome.map {γ : Type} (f : β → γ) (o : Outcome κ α β) : Outcome κ α γ :=
  ⟨f o.answer, o.gone, o.after⟩

def empty : HoldRegistry κ α := ⟨∅, 0⟩

/-- Nothing happens. -/
def answer (r : HoldRegistry κ α) (b : β) : Outcome κ α β := ⟨b, [], r⟩

variable [DecidableEq κ]

/-- A new record without holds, under a key that may be in use. -/
def insert (r : HoldRegistry κ α) (k : κ) (value : α) : HoldRegistry κ α :=
  { r with records := r.records.set k ⟨value, 0, false, r.tickets⟩, tickets := r.tickets + 1 }

/-- The record under a key is replaced. -/
def replace (r : HoldRegistry κ α) (b : β) (k : κ) (e : Held α) : Outcome κ α β :=
  ⟨b, [], { r with records := r.records.set k e }⟩

/-- The record under a key is taken out of the table. -/
def drop (r : HoldRegistry κ α) (b : β) (k : κ) (e : Held α) : Outcome κ α β :=
  ⟨b, [e], { r with records := r.records.erase k }⟩

/-- One more hold on a record that `ok` accepts and that nobody wants to close. -/
def hold (r : HoldRegistry κ α) (k : κ) (ok : Held α → Bool) : Outcome κ α Bool :=
  match r.records.get? k with
  | none => r.answer false
  | some e =>
    if ok e && !e.closeRequested then r.replace true k { e with holdCount := e.holdCount + 1 }
    else r.answer false

/-- One hold less; the last one takes a record that is to be closed out of the table. -/
def unhold (r : HoldRegistry κ α) (k : κ) (ok : Held α → Bool) : Outcome κ α Bool :=
  match r.records.get? k with
  | none => r.answer false
  | some e =>
    if ok e && 0 < e.holdCount then
      let e' := { e with holdCount := e.holdCount - 1 }
      if e'.holdCount = 0 && e'.closeRequested then r.drop true k e' else r.replace true k e'
    else r.answer false

inductive CloseAnswer
  | unavailable
  | deferred
  | closed
  deriving DecidableEq, Repr

/-- Close a record now, or defer that to the release of its last hold. -/
def requestClose (r : HoldRegistry κ α) (k : κ) (ok : Held α → Bool) : Outcome κ α CloseAnswer :=
  match r.records.get? k with
  | none => r.answer .unavailable
  | some e =>
    if ok e then
      if 0 < e.holdCount then r.replace .deferred k { e with closeRequested := true }
      else r.drop .closed k e
    else r.answer .unavailable

/-- Whether a bulk close takes the record out of the table. -/
def takes (p : κ → Held α → Bool) (deferHeld : Bool) (k : κ) (e : Held α) : Bool :=
  p k e && !(deferHeld && 0 < e.holdCount)

/-- Close the records that satisfy `p`, in order, and answer how many left the table. -/
def detach (r : HoldRegistry κ α) (p : κ → Held α → Bool) (deferHeld : Bool) : Outcome κ α Nat :=
  let gone := r.records.entries.filter fun e => takes p deferHeld e.1 e.2
  ⟨gone.length, gone.map Prod.snd,
    { r with
      records := (r.records.filter fun k e => !takes p deferHeld k e).mapValues fun k e =>
        if p k e then { e with closeRequested := true } else e }⟩

/-- Use a record that `ok` accepts, or drop it if it turns out to be dead. -/
def observe (r : HoldRegistry κ α) (k : κ) (ok : Held α → Bool) (alive : Bool) (touch : α → α) :
    Outcome κ α Bool :=
  match r.records.get? k with
  | none => r.answer false
  | some e =>
    if ok e then
      if alive then r.replace true k { e with value := touch e.value } else r.drop false k e
    else r.answer false

/-! ## Where the tickets are -/

/-- How often the ticket `n` occurs among the records. -/
def carrying (n : Nat) (es : List (Held α)) : Nat := es.countP fun e => e.ticket = n

theorem carrying_append (n : Nat) (es es' : List (Held α)) :
    carrying n (es ++ es') = carrying n es + carrying n es' := List.countP_append

theorem carrying_cons (n : Nat) (e : Held α) (es : List (Held α)) :
    carrying n (e :: es) = carrying n es + if e.ticket = n then 1 else 0 := by
  simp [carrying, List.countP_cons]

theorem carrying_nil (n : Nat) : carrying n ([] : List (Held α)) = 0 := rfl

theorem carrying_filter (n : Nat) (p : κ → Held α → Bool) (es : List (κ × Held α)) :
    carrying n ((es.filter fun e => p e.1 e.2).map Prod.snd) +
      carrying n ((es.filter fun e => !p e.1 e.2).map Prod.snd) =
      carrying n (es.map Prod.snd) := by
  induction es with
  | nil => rfl
  | cons e es ih =>
    cases hp : p e.1 e.2 <;> simp [hp, carrying_cons] at ih ⊢ <;> omega

/-- The tickets of the table are in the table or handed out after the operation. -/
structure Exact (r : HoldRegistry κ α) (o : Outcome κ α β) : Prop where
  carries : ∀ n, carrying n o.after.records.values + carrying n o.gone =
    carrying n r.records.values
  tickets : o.after.tickets = r.tickets

section
variable {r : HoldRegistry κ α} {k : κ} {e e' : Held α}

theorem Exact.map {γ : Type} {o : Outcome κ α β} (h : r.Exact o) (f : β → γ) : r.Exact (o.map f) :=
  ⟨h.carries, h.tickets⟩

theorem exact_answer (b : β) : r.Exact (r.answer b) := ⟨fun _ => rfl, rfl⟩

theorem carrying_insert (hk : r.records.get? k = none) (value : α) (n : Nat) :
    carrying n (r.insert k value).records.values =
      carrying n r.records.values + if r.tickets = n then 1 else 0 := by
  have hv : (r.insert k value).records.values =
      r.records.values ++ [⟨value, 0, false, r.tickets⟩] := by
    simp [HoldRegistry.insert, Dict.values, Dict.set_entries_of_none hk]
  rw [hv, carrying_append, carrying_cons, carrying_nil, Nat.zero_add]

/-- The records around a present key. -/
theorem exists_around (hk : r.records.get? k = some e) : ∃ es es' : List (Held α),
    r.records.values = es ++ e :: es' ∧ (r.records.erase k).values = es ++ es' ∧
      ∀ e', (r.records.set k e').values = es ++ e' :: es' := by
  obtain ⟨l₁, l₂, he, h₁, h₂⟩ := Dict.exists_split hk
  refine ⟨l₁.map Prod.snd, l₂.map Prod.snd, ?_, ?_, fun e' => ?_⟩
  · simp [Dict.values, he]
  · simp [Dict.values, Dict.erase_entries_of_get? he h₁ h₂]
  · simp [Dict.values, Dict.set_entries_of_get? he h₁ h₂]

/-- Replacing a record by one with the same ticket. -/
theorem exact_replace (b : β) (hk : r.records.get? k = some e) (ht : e'.ticket = e.ticket) :
    r.Exact (r.replace b k e') := by
  obtain ⟨es, es', hv, -, hset⟩ := exists_around hk
  refine ⟨fun n => ?_, rfl⟩
  simp only [replace, hv, hset, carrying_append, carrying_cons, carrying_nil, ht, Nat.add_zero]

theorem exact_drop (b : β) (hk : r.records.get? k = some e) (ht : e'.ticket = e.ticket) :
    r.Exact (r.drop b k e') := by
  obtain ⟨es, es', hv, herase, -⟩ := exists_around hk
  refine ⟨fun n => ?_, rfl⟩
  simp only [drop, hv, herase, carrying_append, carrying_cons, carrying_nil, ht]
  omega

theorem exact_hold (k : κ) (ok : Held α → Bool) : r.Exact (r.hold k ok) := by
  unfold HoldRegistry.hold
  split
  · exact exact_answer _
  · rename_i e hk
    split
    · exact exact_replace _ hk rfl
    · exact exact_answer _

theorem exact_unhold (k : κ) (ok : Held α → Bool) : r.Exact (r.unhold k ok) := by
  unfold HoldRegistry.unhold
  split
  · exact exact_answer _
  · rename_i e hk
    split
    · dsimp only
      split
      · exact exact_drop _ hk rfl
      · exact exact_replace _ hk rfl
    · exact exact_answer _

theorem exact_requestClose (k : κ) (ok : Held α → Bool) : r.Exact (r.requestClose k ok) := by
  unfold HoldRegistry.requestClose
  split
  · exact exact_answer _
  · rename_i e hk
    split
    · split
      · exact exact_replace _ hk rfl
      · exact exact_drop _ hk rfl
    · exact exact_answer _

theorem exact_observe (k : κ) (ok : Held α → Bool) (alive : Bool) (touch : α → α) :
    r.Exact (r.observe k ok alive touch) := by
  unfold HoldRegistry.observe
  split
  · exact exact_answer _
  · rename_i e hk
    split
    · split
      · exact exact_replace _ hk rfl
      · exact exact_drop _ hk rfl
    · exact exact_answer _

theorem exact_detach (p : κ → Held α → Bool) (deferHeld : Bool) :
    r.Exact (r.detach p deferHeld) := by
  refine ⟨fun n => ?_, rfl⟩
  have hf := carrying_filter n (takes p deferHeld) r.records.entries
  have hmap : carrying n (((r.records.filter fun k e => !takes p deferHeld k e).mapValues
      fun k e => if p k e then { e with closeRequested := true } else e).values) =
      carrying n ((r.records.entries.filter fun e => !takes p deferHeld e.1 e.2).map Prod.snd) := by
    simp only [carrying, Dict.values, Dict.mapValues, Dict.filter, List.map_map, List.countP_map]
    refine List.countP_congr fun e _ => ?_
    simp only [Function.comp_apply]
    split <;> rfl
  change carrying n (((r.records.filter fun k e => !takes p deferHeld k e).mapValues
      fun k e => if p k e then { e with closeRequested := true } else e).values) +
    carrying n ((r.records.entries.filter fun e => takes p deferHeld e.1 e.2).map Prod.snd) =
    carrying n (r.records.entries.map Prod.snd)
  rw [hmap]
  omega

end

/-! ## What happens to a record -/

/-- `e'` is the record `e` later on: a requested close stays requested and adds no hold. -/
structure Continues (e e' : Held α) : Prop where
  ticket : e'.ticket = e.ticket
  closing : e.closeRequested = true → e'.closeRequested = true ∧ e'.holdCount ≤ e.holdCount

theorem Continues.refl (e : Held α) : Continues e e := ⟨rfl, fun h => ⟨h, Nat.le_refl _⟩⟩

theorem Continues.trans {e₁ e₂ e₃ : Held α} (h : Continues e₁ e₂) (h' : Continues e₂ e₃) :
    Continues e₁ e₃ where
  ticket := h'.ticket.trans h.ticket
  closing hc :=
    have ⟨hc₂, hle₂⟩ := h.closing hc
    have ⟨hc₃, hle₃⟩ := h'.closing hc₂
    ⟨hc₃, Nat.le_trans hle₃ hle₂⟩

/-- Every record of `r'` continues one of `r`. -/
def Follows (r r' : HoldRegistry κ α) : Prop :=
  ∀ k e', r'.records.get? k = some e' → ∃ e, r.records.get? k = some e ∧ Continues e e'

section
variable {r : HoldRegistry κ α} {k j : κ} {e e₁ : Held α}

theorem Follows.refl (r : HoldRegistry κ α) : r.Follows r := fun _ e h => ⟨e, h, .refl e⟩

theorem follows_replace (b : β) (hj : r.records.get? j = some e₁) {e' : Held α}
    (h : Continues e₁ e') : Follows r (r.replace b j e').after := by
  intro k e hk
  dsimp only [replace] at hk
  rw [Dict.get?_set] at hk
  split at hk
  · subst k
    obtain rfl := Option.some.inj hk
    exact ⟨e₁, hj, h⟩
  · exact ⟨e, hk, .refl e⟩

theorem follows_drop (b : β) (j : κ) (e' : Held α) : Follows r (r.drop b j e').after :=
  fun _ e hk => ⟨e, (Dict.get?_of_erase hk).2, .refl e⟩

theorem follows_hold (j : κ) (ok : Held α → Bool) : r.Follows (r.hold j ok).after := by
  unfold HoldRegistry.hold
  split
  · exact .refl r
  · rename_i e₁ hj
    split
    · rename_i hok
      refine follows_replace _ hj ⟨rfl, fun hc => ?_⟩
      rw [hc] at hok
      simp at hok
    · exact .refl r

theorem follows_unhold (j : κ) (ok : Held α → Bool) : r.Follows (r.unhold j ok).after := by
  unfold HoldRegistry.unhold
  split
  · exact .refl r
  · rename_i e₁ hj
    split
    · dsimp only
      split
      · exact follows_drop _ j _
      · exact follows_replace _ hj ⟨rfl, fun hc => ⟨hc, Nat.sub_le _ _⟩⟩
    · exact .refl r

theorem follows_requestClose (j : κ) (ok : Held α → Bool) :
    r.Follows (r.requestClose j ok).after := by
  unfold HoldRegistry.requestClose
  split
  · exact .refl r
  · rename_i e₁ hj
    split
    · split
      · exact follows_replace _ hj ⟨rfl, fun _ => ⟨rfl, Nat.le_refl _⟩⟩
      · exact follows_drop _ j _
    · exact .refl r

theorem follows_observe (j : κ) (ok : Held α → Bool) (alive : Bool) (touch : α → α) :
    r.Follows (r.observe j ok alive touch).after := by
  unfold HoldRegistry.observe
  split
  · exact .refl r
  · rename_i e₁ hj
    split
    · split
      · exact follows_replace _ hj ⟨rfl, fun hc => ⟨hc, Nat.le_refl _⟩⟩
      · exact follows_drop _ j _
    · exact .refl r

theorem get?_detach (p : κ → Held α → Bool) (deferHeld : Bool) :
    (r.detach p deferHeld).after.records.get? k =
      ((r.records.get? k).filter fun e => !takes p deferHeld k e).map fun e =>
        if p k e then { e with closeRequested := true } else e := by
  simp only [HoldRegistry.detach, Dict.get?_mapValues, Dict.get?_filter]

theorem follows_detach (p : κ → Held α → Bool) (deferHeld : Bool) :
    r.Follows (r.detach p deferHeld).after := by
  intro k e' hk
  rw [get?_detach] at hk
  obtain ⟨e, he, rfl⟩ := Option.map_eq_some_iff.mp hk
  refine ⟨e, (Option.filter_eq_some_iff.mp he).1, ?_⟩
  split
  · exact ⟨rfl, fun _ => ⟨rfl, Nat.le_refl _⟩⟩
  · exact .refl e

/-! ## Which records stay -/

theorem mem_replace (b : β) (hk : (r.records.get? k).isSome) (j : κ) (e' : Held α) :
    ((r.replace b j e').after.records.get? k).isSome := by
  rw [replace, Dict.get?_set]
  split
  · rfl
  · exact hk

theorem mem_drop (b : β) (hk : (r.records.get? k).isSome) (hne : k ≠ j) (e' : Held α) :
    ((r.drop b j e').after.records.get? k).isSome := by
  rw [HoldRegistry.drop, Dict.get?_erase_of_ne hne]
  exact hk

theorem mem_hold (hk : (r.records.get? k).isSome) (j : κ) (ok : Held α → Bool) :
    ((r.hold j ok).after.records.get? k).isSome := by
  unfold HoldRegistry.hold
  split
  · exact hk
  · split
    · exact mem_replace _ hk j _
    · exact hk

/-- A release takes a record out of the table only as the last hold of a deferred close. -/
theorem mem_unhold (hk : r.records.get? k = some e) (j : κ) (ok : Held α → Bool) :
    ((r.unhold j ok).after.records.get? k).isSome ∨
      k = j ∧ e.holdCount = 1 ∧ e.closeRequested = true := by
  have hk' := Option.isSome_of_eq_some hk
  unfold HoldRegistry.unhold
  split
  · exact .inl hk'
  · rename_i e₁ hj
    split
    · rename_i hok
      dsimp only
      split
      · rename_i hlast
        by_cases hjk : k = j
        · subst k
          obtain rfl := Option.some.inj (hj.symm.trans hk)
          simp only [Bool.and_eq_true, decide_eq_true_eq] at hok hlast
          exact .inr ⟨rfl, by omega, hlast.2⟩
        · exact .inl (mem_drop _ hk' hjk _)
      · exact .inl (mem_replace _ hk' j _)
    · exact .inl hk'

/-- A request to close a held record does not take it out of the table. -/
theorem mem_requestClose (hk : r.records.get? k = some e) (hpos : 0 < e.holdCount) (j : κ)
    (ok : Held α → Bool) : ((r.requestClose j ok).after.records.get? k).isSome := by
  have hk' := Option.isSome_of_eq_some hk
  unfold HoldRegistry.requestClose
  split
  · exact hk'
  · rename_i e₁ hj
    split
    · split
      · exact mem_replace _ hk' j _
      · refine mem_drop _ hk' ?_ _
        rintro rfl
        obtain rfl := Option.some.inj (hj.symm.trans hk)
        exact absurd hpos ‹_›
    · exact hk'

/-- Only a dead record is dropped. -/
theorem mem_observe (hk : (r.records.get? k).isSome) {alive : Bool} (h : k = j → alive = true)
    (ok : Held α → Bool) (touch : α → α) :
    ((r.observe j ok alive touch).after.records.get? k).isSome := by
  unfold HoldRegistry.observe
  split
  · exact hk
  · split
    · split
      · exact mem_replace _ hk j _
      · exact mem_drop _ hk (fun hkj => absurd (h hkj) ‹_›) _
    · exact hk

theorem mem_detach (hk : r.records.get? k = some e) (p : κ → Held α → Bool) {deferHeld : Bool}
    (h : takes p deferHeld k e = false) :
    ((r.detach p deferHeld).after.records.get? k).isSome := by
  simp [get?_detach, hk, h]

/-- A bulk close that defers leaves the held records. -/
theorem mem_detach_held (hk : r.records.get? k = some e) (hpos : 0 < e.holdCount)
    (p : κ → Held α → Bool) : ((r.detach p true).after.records.get? k).isSome :=
  mem_detach hk p (by simp [takes, hpos])

/-- Two records of the table with one ticket. -/
theorem two_le_carrying {e' : Held α} (hk : r.records.get? k = some e)
    (hj : r.records.get? j = some e') (hne : j ≠ k) (ht : e'.ticket = e.ticket) :
    2 ≤ carrying e.ticket r.records.values := by
  obtain ⟨es, es', hv, herase, -⟩ := exists_around hk
  have hmem : e' ∈ es ++ es' := by
    rw [← herase, Dict.mem_values]
    exact ⟨j, (Dict.get?_erase_of_ne hne).trans hj⟩
  have hpos : 0 < carrying e.ticket (es ++ es') :=
    List.countP_pos_iff.mpr ⟨e', hmem, decide_eq_true ht⟩
  rw [carrying_append] at hpos
  rw [hv, carrying_append, carrying_cons, if_pos rfl]
  omega

/-- A record that leaves the table is handed out. -/
theorem Exact.mem_gone {o : Outcome κ α β} (h : r.Exact o) (hf : r.Follows o.after)
    (honce : ∀ n, carrying n r.records.values ≤ 1) (hk : r.records.get? k = some e)
    (hleft : ∀ e', o.after.records.get? k = some e' → e'.ticket ≠ e.ticket) :
    ∃ e' ∈ o.gone, e'.ticket = e.ticket := by
  have hzero : carrying e.ticket o.after.records.values = 0 := by
    refine List.countP_eq_zero.mpr fun e' he' => ?_
    rw [decide_eq_true_eq]
    intro ht
    obtain ⟨j, hj⟩ := Dict.mem_values.mp he'
    obtain ⟨e₁, he₁, hcont⟩ := hf j e' hj
    have hne : j ≠ k := by
      rintro rfl
      exact hleft e' hj ht
    have htwo := two_le_carrying hk he₁ hne (hcont.ticket.symm.trans ht)
    have hone := honce e.ticket
    omega
  have hpos : 0 < carrying e.ticket r.records.values :=
    List.countP_pos_iff.mpr ⟨e, Dict.mem_values.mpr ⟨k, hk⟩, decide_eq_true rfl⟩
  have hcarry := h.carries e.ticket
  have hgone : 0 < carrying e.ticket o.gone := by omega
  obtain ⟨e', he', ht⟩ := List.countP_pos_iff.mp hgone
  exact ⟨e', he', of_decide_eq_true ht⟩

/-- The release of a hold that `ok` accepts. -/
theorem unhold_held (hk : r.records.get? k = some e) (hpos : 0 < e.holdCount) {ok : Held α → Bool}
    (hok : ok e = true) :
    r.unhold k ok =
      if e.holdCount = 1 ∧ e.closeRequested = true then r.drop true k { e with holdCount := 0 }
      else r.replace true k { e with holdCount := e.holdCount - 1 } := by
  have hone : e.holdCount - 1 = 0 ↔ e.holdCount = 1 := by omega
  simp only [unhold, hk, hok, hpos, decide_true, Bool.and_self, if_true, Bool.and_eq_true,
    decide_eq_true_eq, hone]
  split
  · rename_i hlast
    rw [hlast.1]
  · rfl

/-- No hold is granted on a record that is to be closed. -/
theorem hold_closing (hk : r.records.get? k = some e) (hc : e.closeRequested = true)
    (ok : Held α → Bool) : r.hold k ok = r.answer false := by
  simp [hold, hk, hc]

end
end HoldRegistry
end Lib
