import Mathlib
import WebSSH.Audit.Redaction

/-!
# What an audit line can tell

Two details that agree outside the values of their sensitive keys are redacted to the same value, as
long as every sequence in them is one of the four containers that redaction enters. What comes out is
shallow, small and on one line.
-/

namespace WebSSH.Audit
open Lib

variable (u : Unicode)

/-! ## What is not secret -/

mutual

/-- The value without what its sensitive keys hold, in every mapping and in the sequences that `opens`
lets one look into. -/
def erase (opens : SequenceKind → Bool) : Value → Value
  | .mapping items => .mapping (eraseEntries opens items)
  | .sequence kind items =>
    .sequence kind (if opens kind then eraseItems opens items else items)
  | value => value

def eraseEntries (opens : SequenceKind → Bool) : List (Key × Value) → List (Key × Value)
  | [] => []
  | (key, value) :: rest =>
    (key, if auditDetailKeyIsSensitive u key.text then .none else erase opens value) ::
      eraseEntries opens rest

def eraseItems (opens : SequenceKind → Bool) : List Value → List Value
  | [] => []
  | value :: rest => erase opens value :: eraseItems opens rest

end

variable (opens : SequenceKind → Bool)

/-- An entry without its secret. -/
def eraseEntry (item : Key × Value) : Key × Value :=
  (item.1, if auditDetailKeyIsSensitive u item.1.text then .none else erase u opens item.2)

theorem eraseEntries_eq_map (items : List (Key × Value)) :
    eraseEntries u opens items = items.map (eraseEntry u opens) := by
  induction items with
  | nil => rfl
  | cons item rest ih =>
    rw [List.map_cons, ← ih]
    rfl

theorem eraseItems_eq_map (items : List Value) :
    eraseItems u opens items = items.map (erase u opens) := by
  induction items with
  | nil => rfl
  | cons item rest ih =>
    rw [List.map_cons, ← ih]
    rfl

/-! ## Redaction sees no secret -/

theorem redactAuditDetail_sensitive {key : String} (h : auditDetailKeyIsSensitive u key = true)
    (n : Nat) (value : Value) : redactAuditDetail u n key value = .str "[REDACTED]" := by
  unfold redactAuditDetail
  exact if_pos h

/-- The value of an entry is looked at only if its key is not sensitive. -/
theorem redactAuditDetail_eraseEntry {n : Nat} {item : Key × Value}
    (ih : redactAuditDetail u n item.1.text (erase u opens item.2) =
      redactAuditDetail u n item.1.text item.2) :
    redactAuditDetail u n item.1.text (eraseEntry u opens item).2 =
      redactAuditDetail u n item.1.text item.2 := by
  cases h : auditDetailKeyIsSensitive u item.1.text with
  | true => rw [redactAuditDetail_sensitive u h, redactAuditDetail_sensitive u h]
  | false =>
    have he : (eraseEntry u opens item).2 = erase u opens item.2 := by simp [eraseEntry, h]
    rw [he, ih]

/-- What redaction makes of an entry of a mapping. -/
def redactEntry (n : Nat) (item : Key × Value) : Key × Value :=
  (strKey u (sanitizeLogText item.1.text), redactAuditDetail u n item.1.text item.2)

theorem redactAuditDetail_mapping (n : Nat) (key : String) (items : List (Key × Value)) :
    redactAuditDetail u (n + 1) key (.mapping items) =
      if auditDetailKeyIsSensitive u key then .str "[REDACTED]"
      else .mapping (dictOf ((items.take 64).map (redactEntry u n))) := rfl

theorem redactEntry_take_erase {n : Nat} (items : List (Key × Value))
    (ih : ∀ key value, redactAuditDetail u n key (erase u opens value) =
      redactAuditDetail u n key value) :
    ((eraseEntries u opens items).take 64).map (redactEntry u n) =
      (items.take 64).map (redactEntry u n) := by
  rw [eraseEntries_eq_map, ← List.map_take, List.map_map]
  apply List.map_congr_left
  intro item _
  exact congrArg (Prod.mk (strKey u (sanitizeLogText item.1.text)))
    (redactAuditDetail_eraseEntry u opens (ih item.1.text item.2))

/-- By induction on the levels that are left. -/
theorem redactAuditDetail_erase (n : Nat) (key : String) (value : Value) :
    redactAuditDetail u n key (erase u SequenceKind.isBuiltin value) =
      redactAuditDetail u n key value := by
  induction n generalizing key value with
  | zero =>
    unfold redactAuditDetail
    rfl
  | succ n ih =>
    cases value with
    | mapping items =>
      have h := redactEntry_take_erase u SequenceKind.isBuiltin items ih
      have he : erase u SequenceKind.isBuiltin (.mapping items) =
          .mapping (eraseEntries u SequenceKind.isBuiltin items) := rfl
      rw [he, redactAuditDetail_mapping, redactAuditDetail_mapping, h]
    | sequence kind items =>
      cases hk : kind.isBuiltin with
      | false =>
        have he : erase u SequenceKind.isBuiltin (.sequence kind items) = .sequence kind items := by
          simp [erase, hk]
        rw [he]
      | true =>
        have he : erase u SequenceKind.isBuiltin (.sequence kind items) =
            .sequence kind (items.map (erase u SequenceKind.isBuiltin)) := by
          simp [erase, hk, eraseItems_eq_map]
        rw [he]
        unfold redactAuditDetail
        simp only [hk, if_true, ← List.map_take, List.map_map]
        congr 3
        funext item
        exact ih "" item
    | none => rfl
    | bool b => rfl
    | int n => rfl
    | float text => rfl
    | str s => rfl
    | object text repr => rfl

theorem sanitizeAuditDetails_erase (details : List (Key × Value)) :
    sanitizeAuditDetails u (eraseEntries u SequenceKind.isBuiltin details) =
      sanitizeAuditDetails u details :=
  congrArg dictOf
    (redactEntry_take_erase u SequenceKind.isBuiltin details (redactAuditDetail_erase u 4))

/-! ## What comes out is small -/

def Clean (text : String) : Prop := ∀ c ∈ text.toList, c ≠ '\r' ∧ c ≠ '\n' ∧ c ≠ '\x00'

/-- At most `n` containers inside one another, of at most 64 entries, and every text on one line. -/
def Bounded : Nat → Value → Prop
  | n + 1, .mapping items =>
    items.length ≤ 64 ∧ ∀ item ∈ items, Clean item.1.text ∧ Bounded n item.2
  | n + 1, .sequence _ items => items.length ≤ 64 ∧ ∀ item ∈ items, Bounded n item
  | _, .none => True
  | _, .bool _ => True
  | _, .int _ => True
  | _, .float _ => True
  | _, .str s => Clean s
  | _, _ => False

theorem Bounded.of_str {n : Nat} {s : String} (h : Clean s) : Bounded n (.str s) := by
  cases n with
  | zero => exact h
  | succ n => exact h

theorem mem_replaceChar {c d : Char} {by_ text : List Char} (h : d ∈ replaceChar c by_ text) :
    d ∈ by_ ∨ d ∈ text ∧ d ≠ c := by
  obtain ⟨e, he, hd⟩ := List.mem_flatMap.mp h
  split at hd
  · exact .inl hd
  · next hne =>
    obtain rfl := List.mem_singleton.mp hd
    exact .inr ⟨he, hne⟩

theorem clean_sanitizeLogText (text : String) : Clean (sanitizeLogText text) := by
  intro c hc
  have hc : c ∈ replaceChar '\x00' ['\\', 'x', '0', '0'] (replaceChar '\r' ['\\', 'r']
      (replaceChar '\n' ['\\', 'n'] text.toList)) := by
    rw [sanitizeLogText, String.toList_ofList] at hc
    exact List.mem_of_mem_take hc
  have hnul : ∀ d ∈ ['\\', 'x', '0', '0'], d ≠ '\r' ∧ d ≠ '\n' ∧ d ≠ '\x00' := by decide
  have hcr : ∀ d ∈ ['\\', 'r'], d ≠ '\r' ∧ d ≠ '\n' ∧ d ≠ '\x00' := by decide
  have hlf : ∀ d ∈ ['\\', 'n'], d ≠ '\r' ∧ d ≠ '\n' ∧ d ≠ '\x00' := by decide
  rcases mem_replaceChar hc with hc | ⟨hc, h0⟩
  · exact hnul c hc
  rcases mem_replaceChar hc with hc | ⟨hc, hr⟩
  · exact hcr c hc
  rcases mem_replaceChar hc with hc | ⟨hc, hn⟩
  · exact hlf c hc
  exact ⟨hr, hn, h0⟩

theorem length_setItem_le (key : Key) (value : Value) (d : List (Key × Value)) :
    (setItem key value d).length ≤ d.length + 1 := by
  induction d with
  | nil => exact Nat.le_refl 1
  | cons item rest ih =>
    unfold setItem
    split
    · exact Nat.le_succ _
    · exact Nat.succ_le_succ ih

theorem setItem_all {P : Key → Prop} {Q : Value → Prop} {key : Key} {value : Value}
    {d : List (Key × Value)} (hp : P key) (hq : Q value) (h : ∀ item ∈ d, P item.1 ∧ Q item.2) :
    ∀ item ∈ setItem key value d, P item.1 ∧ Q item.2 := by
  induction d with
  | nil => exact List.forall_mem_singleton.mpr ⟨hp, hq⟩
  | cons item rest ih =>
    have hrest : ∀ item ∈ rest, P item.1 ∧ Q item.2 := fun i hi => h i (List.mem_cons_of_mem _ hi)
    have hitem := h item List.mem_cons_self
    unfold setItem
    split
    · exact List.forall_mem_cons.mpr ⟨⟨hitem.1, hq⟩, hrest⟩
    · exact List.forall_mem_cons.mpr ⟨hitem, ih hrest⟩

theorem dictOf_spec {P : Key → Prop} {Q : Value → Prop} {items : List (Key × Value)}
    (h : ∀ item ∈ items, P item.1 ∧ Q item.2) :
    (dictOf items).length ≤ items.length ∧ ∀ item ∈ dictOf items, P item.1 ∧ Q item.2 := by
  induction items using List.reverseRecOn with
  | nil => exact ⟨Nat.le_refl 0, fun item hi => by cases hi⟩
  | append_singleton items last ih =>
    obtain ⟨hlen, hall⟩ := ih fun item hi => h item (List.mem_append_left _ hi)
    have hlast := h last (List.mem_append_right _ List.mem_cons_self)
    have heq : dictOf (items ++ [last]) = setItem last.1 last.2 (dictOf items) := by
      simp [dictOf]
    rw [heq, List.length_append]
    exact ⟨(length_setItem_le _ _ _).trans (Nat.succ_le_succ hlen),
      setItem_all hlast.1 hlast.2 hall⟩

/-- A redacted mapping, of entries redacted to `n` levels. -/
theorem bounded_redactEntries {n : Nat} (items : List (Key × Value))
    (ih : ∀ key value, Bounded n (redactAuditDetail u n key value)) :
    Bounded (n + 1) (.mapping (dictOf ((items.take 64).map (redactEntry u n)))) := by
  have h : ∀ item ∈ (items.take 64).map (redactEntry u n), Clean item.1.text ∧ Bounded n item.2 := by
    intro item hi
    obtain ⟨source, _, rfl⟩ := List.mem_map.mp hi
    exact ⟨clean_sanitizeLogText _, ih _ _⟩
  obtain ⟨hlen, hall⟩ := dictOf_spec (P := fun key => Clean key.text) (Q := Bounded n) h
  refine ⟨hlen.trans ?_, hall⟩
  rw [List.length_map]
  exact List.length_take_le 64 items

theorem bounded_redactAuditDetail (n : Nat) (key : String) (value : Value) :
    Bounded n (redactAuditDetail u n key value) := by
  have hredacted : Clean "[REDACTED]" := by unfold Clean; decide
  have htruncated : Clean "[TRUNCATED]" := by unfold Clean; decide
  have hstr (n : Nat) (value : Value) : Bounded n (.str (sanitizeLogValue u value)) :=
    .of_str (clean_sanitizeLogText _)
  induction n generalizing key value with
  | zero =>
    unfold redactAuditDetail
    split
    · exact .of_str hredacted
    · exact .of_str htruncated
  | succ n ih =>
    unfold redactAuditDetail
    split
    · exact .of_str hredacted
    cases value with
    | mapping items => exact bounded_redactEntries u items ih
    | sequence kind items =>
      show Bounded (n + 1) (if kind.isBuiltin = true then _ else _)
      split
      · refine ⟨?_, fun item hi => ?_⟩
        · rw [List.length_map]
          exact List.length_take_le 64 items
        · obtain ⟨source, _, rfl⟩ := List.mem_map.mp hi
          exact ih "" source
      · exact hstr _ _
    | none => exact trivial
    | bool b => exact trivial
    | int n => exact trivial
    | float text => exact trivial
    | str s => exact hstr _ (.str s)
    | object text repr => exact hstr _ (.object text repr)

theorem bounded_sanitizeAuditDetails (details : List (Key × Value)) :
    Bounded 5 (.mapping (sanitizeAuditDetails u details)) :=
  bounded_redactEntries u details (bounded_redactAuditDetail u 4)

/-! ## The guarantee -/

/-- Details that agree outside their secrets give one value and one line; what is logged has at most
five containers inside one another, at most 64 entries in each, and no text with a line break or a
NUL. -/
theorem audit_redaction :
    (∀ details details', eraseEntries u SequenceKind.isBuiltin details =
        eraseEntries u SequenceKind.isBuiltin details' →
      sanitizeAuditDetails u details = sanitizeAuditDetails u details' ∧
      ∀ event, logSecurityEvent u event details = logSecurityEvent u event details') ∧
    ∀ details, Bounded 5 (.mapping (sanitizeAuditDetails u details)) := by
  refine ⟨fun details details' h => ?_, bounded_sanitizeAuditDetails u⟩
  have heq : sanitizeAuditDetails u details = sanitizeAuditDetails u details' := by
    rw [← sanitizeAuditDetails_erase u details, h, sanitizeAuditDetails_erase u details']
  refine ⟨heq, fun event => ?_⟩
  unfold logSecurityEvent
  rw [heq]

/-- Characters outside ASCII left as they are. -/
def asciiUnicode : Unicode where
  isalnum := Char.isAlphanum
  lower c := [c.toLower]
  upper text := text.map Char.toUpper
  reprStr s := "'" ++ s ++ "'"

/-- A queue of mappings, each with a password. -/
def queueOf (password : String) : List (Key × Value) :=
  [(⟨"jobs", "'jobs'"⟩, .sequence .deque
    [.mapping [(⟨"password", "'password'"⟩, .str password)]])]

/-- A queue is no built-in container: it is turned into a text, passwords included. -/
theorem queue_not_redacted :
    ¬ ∀ details details', eraseEntries asciiUnicode (fun _ => true) details =
        eraseEntries asciiUnicode (fun _ => true) details' →
      sanitizeAuditDetails asciiUnicode details = sanitizeAuditDetails asciiUnicode details' := by
  intro h
  have heq := h (queueOf "hunter2") (queueOf "sesame") rfl
  have htexts := congrArg (List.map fun item => strValue asciiUnicode item.2) heq
  exact absurd htexts (by decide)

end WebSSH.Audit
