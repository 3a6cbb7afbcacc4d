import Mathlib
import WebSSH.Lib.Words

/-!
# Readers of messages

A reader takes a value off the front of a message or refuses it. `Reads p E` says which bytes it
takes: `p` accepts a message with `a` exactly when the message begins with bytes that `E` relates
to `a`, and it leaves what is behind them. The rules follow the reader: a sequence, a check, a
loop.
-/

namespace Lib.Wire

abbrev Reader (ε α : Type) := StateT (List UInt8) (Except ε) α

variable {ε α β σ ι : Type}

namespace Reader

/-- An unsigned integer of `width` bytes. -/
def word (order : ByteOrder) (width : Nat) (e : ε) : Reader ε Nat := fun data =>
  if data.length < width then .error e else .ok (order.value (data.take width), data.drop width)

/-- The next `n` bytes. -/
def block (n : Nat) (e : ε) : Reader ε (List UInt8) := fun data =>
  if data.length < n then .error e else .ok (data.take n, data.drop n)

/-- `if condition: raise error` -/
def refuseIf (condition : Prop) [Decidable condition] (e : ε) : Reader ε Unit := fun data =>
  if condition then .error e else .ok ((), data)

/-- A value that is not always there. -/
def when (condition : Prop) [Decidable condition] (p : Reader ε α) : Reader ε (Option α) :=
  if condition then some <$> p else pure none

def checked (x : Except ε α) : Reader ε α := fun data =>
  match x with
  | .ok a => .ok (a, data)
  | .error e => .error e

/-- `for _ in range(n): s = step(s)` -/
def loop (step : σ → Reader ε σ) : Nat → σ → Reader ε σ
  | 0, s => pure s
  | n + 1, s => step s >>= loop step n

end Reader

open Reader

/-- The reader takes exactly the bytes that stand for what it returns. -/
def Reads (p : Reader ε α) (E : α → List UInt8 → Prop) : Prop :=
  ∀ data a rest, p data = .ok (a, rest) ↔ ∃ raw, E a raw ∧ data = raw ++ rest

section
variable {E F : α → List UInt8 → Prop} {p : Reader ε α}

theorem Reads.congr (hp : Reads p E) (h : ∀ a raw, E a raw ↔ F a raw) : Reads p F := by
  intro data a rest
  simp only [hp data a rest, h]

theorem Reads.pure (a : α) : Reads (pure a : Reader ε α) fun b raw => b = a ∧ raw = [] := by
  intro data b rest
  constructor
  · intro h
    cases h
    exact ⟨[], ⟨rfl, rfl⟩, rfl⟩
  · rintro ⟨raw, ⟨rfl, rfl⟩, rfl⟩
    rfl

theorem bind_apply_eq_ok {f : α → Reader ε β} {data rest : List UInt8} {b : β} :
    (p >>= f) data = .ok (b, rest) ↔
      ∃ a between, p data = .ok (a, between) ∧ f a between = .ok (b, rest) := by
  change (p data >>= fun result => f result.1 result.2) = _ ↔ _
  cases hp : p data with
  | error e =>
    constructor
    · intro h
      cases h
    · rintro ⟨a, between, h, -⟩
      cases h
  | ok result =>
    constructor
    · intro h
      exact ⟨result.1, result.2, rfl, h⟩
    · rintro ⟨a, between, h, hf⟩
      cases h
      exact hf

/-- One after the other. -/
theorem Reads.bind {f : α → Reader ε β} {G : α → β → List UInt8 → Prop} (hp : Reads p E)
    (hf : ∀ a, Reads (f a) (G a)) :
    Reads (p >>= f) fun b raw => ∃ a front back, E a front ∧ G a b back ∧ raw = front ++ back := by
  intro data b rest
  rw [bind_apply_eq_ok]
  constructor
  · rintro ⟨a, between, h, h'⟩
    obtain ⟨front, hE, rfl⟩ := (hp _ _ _).mp h
    obtain ⟨back, hG, rfl⟩ := (hf a _ _ _).mp h'
    exact ⟨front ++ back, ⟨a, front, back, hE, hG, rfl⟩, (List.append_assoc _ _ _).symm⟩
  · rintro ⟨raw, ⟨a, front, back, hE, hG, rfl⟩, rfl⟩
    exact ⟨a, back ++ rest, (hp _ _ _).mpr ⟨front, hE, List.append_assoc _ _ _⟩,
      (hf a _ _ _).mpr ⟨back, hG, rfl⟩⟩

theorem Reads.map {f : α → β} (hp : Reads p E) :
    Reads (f <$> p) fun b raw => ∃ a, E a raw ∧ b = f a := by
  rw [map_eq_pure_bind]
  refine (hp.bind fun a => .pure (f a)).congr fun b raw => ⟨?_, ?_⟩
  · rintro ⟨a, front, back, hE, ⟨rfl, rfl⟩, rfl⟩
    exact ⟨a, (List.append_nil front).symm ▸ hE, rfl⟩
  · rintro ⟨a, hE, rfl⟩
    exact ⟨a, raw, [], hE, ⟨rfl, rfl⟩, (List.append_nil raw).symm⟩

theorem Reads.word (order : ByteOrder) (width : Nat) (e : ε) :
    Reads (word order width e) fun n raw => n < 256 ^ width ∧ raw = order.bytes width n := by
  intro data n rest
  unfold Reader.word
  constructor
  · intro h
    split at h
    · cases h
    · rename_i hlength
      cases h
      have htake : (data.take width).length = width := by
        rw [List.length_take]
        omega
      have hlt := order.value_lt (data.take width)
      have hbytes := order.bytes_value (data.take width)
      rw [htake] at hlt hbytes
      exact ⟨data.take width, ⟨hlt, hbytes.symm⟩, (List.take_append_drop width data).symm⟩
  · rintro ⟨raw, ⟨hn, rfl⟩, rfl⟩
    have hlength := order.length_bytes width n
    rw [if_neg (by rw [List.length_append, hlength]; omega), List.take_left' hlength,
      List.drop_left' hlength, order.value_bytes hn]

theorem Reads.block (n : Nat) (e : ε) :
    Reads (block n e) fun bytes raw => bytes.length = n ∧ raw = bytes := by
  intro data bytes rest
  unfold Reader.block
  constructor
  · intro h
    split at h
    · cases h
    · rename_i hlength
      cases h
      refine ⟨data.take n, ⟨?_, rfl⟩, (List.take_append_drop n data).symm⟩
      rw [List.length_take]
      omega
  · rintro ⟨raw, ⟨rfl, rfl⟩, rfl⟩
    rw [if_neg (by rw [List.length_append]; omega), List.take_left, List.drop_left]

theorem Reads.refuseIf (condition : Prop) [Decidable condition] (e : ε) :
    Reads (refuseIf condition e) fun _ raw => ¬ condition ∧ raw = [] := by
  intro data a rest
  unfold Reader.refuseIf
  constructor
  · intro h
    split at h
    · cases h
    · rename_i hcondition
      cases h
      exact ⟨[], ⟨hcondition, rfl⟩, rfl⟩
  · rintro ⟨raw, ⟨hcondition, rfl⟩, rfl⟩
    rw [if_neg hcondition]

theorem Reads.checked (x : Except ε α) :
    Reads (checked x) fun a raw => x = .ok a ∧ raw = [] := by
  intro data a rest
  unfold Reader.checked
  cases x with
  | error e =>
    constructor
    · intro h
      cases h
    · rintro ⟨raw, ⟨h, -⟩, -⟩
      cases h
  | ok b =>
    constructor
    · intro h
      cases h
      exact ⟨[], ⟨rfl, rfl⟩, rfl⟩
    · rintro ⟨raw, ⟨h, rfl⟩, rfl⟩
      cases h
      rfl

theorem Reads.when {condition : Prop} [Decidable condition] (hp : condition → Reads p E) :
    Reads (when condition p) fun a raw =>
      (condition ∧ ∃ b, a = some b ∧ E b raw) ∨ (¬ condition ∧ a = none ∧ raw = []) := by
  unfold Reader.when
  split
  · rename_i h
    refine (hp h).map.congr fun a raw => ⟨?_, ?_⟩
    · rintro ⟨b, hE, rfl⟩
      exact .inl ⟨h, b, rfl, hE⟩
    · rintro (⟨-, b, rfl, hE⟩ | ⟨hn, -⟩)
      · exact ⟨b, hE, rfl⟩
      · exact absurd h hn
  · rename_i h
    refine (Reads.pure none).congr fun a raw => ⟨?_, ?_⟩
    · rintro ⟨rfl, rfl⟩
      exact .inr ⟨h, rfl, rfl⟩
    · rintro (⟨hn, -⟩ | ⟨-, rfl, rfl⟩)
      · exact absurd hn h
      · exact ⟨rfl, rfl⟩

end

/-! ## Loops -/

/-- Every item is allowed in the state the ones before it lead to. -/
def Allowed (allowed : σ → ι → Prop) (next : σ → ι → σ) : σ → List ι → Prop
  | _, [] => True
  | s, i :: rest => allowed s i ∧ Allowed allowed next (next s i) rest

/-- A loop reads as many items as it makes rounds, one behind the other. -/
theorem Reads.loop {step : σ → Reader ε σ} {allowed : σ → ι → Prop} {next : σ → ι → σ}
    {encode : ι → List UInt8}
    (h : ∀ s, Reads (step s) fun t raw => ∃ i, allowed s i ∧ t = next s i ∧ raw = encode i)
    (n : Nat) (s : σ) :
    Reads (loop step n s) fun t raw => ∃ items : List ι, items.length = n ∧
      Allowed allowed next s items ∧ t = items.foldl next s ∧ raw = items.flatMap encode := by
  induction n generalizing s with
  | zero =>
    refine (Reads.pure s).congr fun t raw => ⟨?_, ?_⟩
    · rintro ⟨rfl, rfl⟩
      exact ⟨[], rfl, trivial, rfl, rfl⟩
    · rintro ⟨items, hlength, -, rfl, rfl⟩
      rw [List.length_eq_zero_iff.mp hlength]
      exact ⟨rfl, rfl⟩
  | succ n ih =>
    refine ((h s).bind ih).congr fun t raw => ⟨?_, ?_⟩
    · rintro ⟨_, _, _, ⟨i, hi, rfl, rfl⟩, ⟨items, rfl, hitems, rfl, rfl⟩, rfl⟩
      exact ⟨i :: items, rfl, ⟨hi, hitems⟩, rfl, rfl⟩
    · rintro ⟨items, hlength, hitems, rfl, rfl⟩
      cases items with
      | nil => cases hlength
      | cons i items =>
        exact ⟨_, _, _, ⟨i, hitems.1, rfl, rfl⟩,
          ⟨items, Nat.succ.inj hlength, hitems.2, rfl, rfl⟩, rfl⟩

end Lib.Wire
