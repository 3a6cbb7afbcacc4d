import Mathlib
import WebSSH.Sftp.Enumeration

/-!
# What an enumeration costs

The rule for a loop over a remote directory. If the body of the loop makes at most `price` calls for
an entry, apart from those it pays for itself, then the whole loop makes at most `price + 1` calls
for each entry that the budget was charged with, and four more; and it leaves open no directory that
it has opened, whichever way it ends.
-/

namespace WebSSH.Sftp

open Lib Lib.Program Lib.Wire
open Lib.Python (Bytes encode)

/-! ## Open directories -/

/-- The handle that a call has obtained. -/
def Event.handle (config : Config) : Event → Option Bytes
  | ⟨.opendir _, .ok response⟩ =>
    if response.1 = cmdHandle then (readHandle config response.2).toOption else none
  | _ => none

/-- Reads go to the directory that was opened last, and so do closings. -/
def holdStep (config : Config) (stack : List Bytes) (e : Event) : Option (List Bytes) :=
  match e.call with
  | .opendir _ => some ((e.handle config).toList ++ stack)
  | .readdir handle => if stack.head? = some handle then some stack else none
  | .closeHandle handle => if stack.head? = some handle then some stack.tail else none
  | _ => some stack

/-- The handles that are open after the calls of a log, the last one first. -/
def held (config : Config) (log : List Event) : Option (List Bytes) :=
  log.foldlM (holdStep config) []

theorem held_concat {config : Config} {log : List Event} {stack stack' : List Bytes} {e : Event}
    (h : held config log = some stack) (he : holdStep config stack e = some stack') :
    held config (log ++ [e]) = some stack' := by
  rw [held, List.foldlM_append, ← held, h]
  exact (bind_pure (holdStep config stack e)).trans he

/-! ## States within their bounds -/

/-- The bounds of a run: the limits of its budget, what the body of a loop may call for an entry,
the calls before the run less what they were paid with, what calls the values kept of the entries
pay for, what is kept true of those, and the paths that may be asked for. -/
structure Bounds (δ : Type) where
  config : Config
  limit : Nat
  metadataLimit : Nat
  price : Nat
  before : Nat
  size : δ → Nat
  Kept : δ → Prop
  Path : String → Prop

variable {δ β : Type}

namespace Bounds

variable (B : Bounds δ)

/-- With room for `k` more calls, and `stack` open. -/
structure Ok (k : Nat) (stack : List Bytes) (s : Client δ) : Prop where
  running : s.stuck = false
  limit : s.budget.limit = B.limit
  metadataLimit : s.budget.metadataLimit = B.metadataLimit
  used : s.budget.used ≤ B.limit + 1
  metadataUsed : s.budget.metadataUsed ≤ B.metadataLimit
  calls : s.log.length + k ≤ (B.price + 1) * s.budget.used + B.size s.own + B.before
  held : held B.config s.log = some stack
  kept : B.Kept s.own
  paths : ∀ e ∈ s.log, ∀ path, e.call.path? = some path → B.Path path

def Any (s : Client δ) : Prop := ∃ stack, B.Ok 0 stack s

/-- The budget is not spent. -/
def Within (k : Nat) (stack : List Bytes) (s : Client δ) : Prop :=
  B.Ok k stack s ∧ s.budget.used ≤ B.limit

/-- The condition for a run from `s`: what it returns, and what it leaves on every way out. -/
def Run (V : β → Budget → δ → Prop) (x : Prog δ β) (k : Nat) (stack : List Bytes) (s : Client δ) :
    Prop :=
  x.Wp B.Any
    (fun b t => V b t.budget t.own ∧ B.Within k stack t ∧ s.budget.used ≤ t.budget.used)
    (fun _ => B.Ok k stack) (B.Ok k stack) s

/-- What is known of an entry when the body of a loop gets it. -/
structure Charged (V : β → Budget → δ → Prop) (b : β) (entry : Entry) (s : Client δ) : Prop where
  legal : ∃ es, entry.Legal B.config es
  dots : entry.filename ≠ "." ∧ entry.filename ≠ ".."
  charged : ∃ old, V b old s.own ∧ old.consumeEntry B.config entry = (none, s.budget)

/-- A body that makes at most `price` calls for an entry with a name that it may get. -/
def Body (name : String → Prop) (V : β → Budget → δ → Prop) (body : β → Entry → Prog δ β) : Prop :=
  ∀ k stack b entry s, B.Charged V b entry s → name entry.filename →
    B.Within (k + B.price) stack s → B.Run V (body b entry) k stack s

/-- What is known of the value so far does not get lost by a charge. -/
def Lasting (V : β → Budget → δ → Prop) : Prop :=
  ∀ b entry old new own, V b old own → old.consumeEntry B.config entry = (none, new) → V b new own

end Bounds

/-- Neither the budget nor what is kept has changed. -/
structure Same (s t : Client δ) : Prop where
  budget : t.budget = s.budget
  own : t.own = s.own

variable {B : Bounds δ} {k : Nat} {stack : List Bytes} {s : Client δ} {server : Server}

theorem Same.trans {t u : Client δ} (h : Same s t) (h' : Same t u) : Same s u :=
  ⟨h'.budget.trans h.budget, h'.own.trans h.own⟩

theorem Same.value {V : β → Budget → δ → Prop} {b : β} {t : Client δ} (h : Same s t)
    (hb : V b s.budget s.own) : V b t.budget t.own := by
  rw [h.budget, h.own]
  exact hb

theorem Same.used {t : Client δ} (h : Same s t) : t.budget.used = s.budget.used := by
  rw [h.budget]

namespace Bounds

theorem Ok.less {l : Nat} (h : B.Ok l stack s) (hk : k ≤ l) : B.Ok k stack s :=
  { h with calls := by have := h.calls; omega }

theorem Ok.any (h : B.Ok k stack s) : B.Any s := ⟨stack, h.less (Nat.zero_le k)⟩

theorem Within.less {l : Nat} (h : B.Within l stack s) (hk : k ≤ l) : B.Within k stack s :=
  ⟨h.1.less hk, h.2⟩

theorem Run.after {V : β → Budget → δ → Prop} {x : Prog δ β} {t : Client δ} (h : B.Run V x k stack t)
    (hle : s.budget.used ≤ t.budget.used) :
    x.Wp B.Any
      (fun b u => V b u.budget u.own ∧ B.Within k stack u ∧ s.budget.used ≤ u.budget.used)
      (fun _ => B.Ok k stack) (B.Ok k stack) t :=
  h.mono (fun _ _ h => ⟨h.1, h.2.1, hle.trans h.2.2⟩) (fun _ _ h => h) fun _ h => h

/-- A call uses room for one. -/
theorem Ok.logged {stack' : List Bytes} {e : Event} (h : B.Ok (k + 1) stack s)
    (he : holdStep B.config stack e = some stack')
    (hpath : ∀ path, e.call.path? = some path → B.Path path) : B.Ok k stack' (s.logged e) where
  running := h.running
  limit := h.limit
  metadataLimit := h.metadataLimit
  used := h.used
  metadataUsed := h.metadataUsed
  calls := by
    have := h.calls
    rw [s.logged_log, s.logged_budget, s.logged_own, List.length_append, List.length_singleton]
    omega
  held := held_concat h.held he
  kept := h.kept
  paths := by
    rw [s.logged_log, List.forall_mem_append, List.forall_mem_singleton]
    exact ⟨h.paths, hpath⟩

end Bounds

open Bounds

/-- The room is only a bound. -/
theorem less_wp {α : Type} {l : Nat} {x : Prog δ α} {Q : α → Client δ → Prop}
    (h : x.Wp B.Any Q (fun _ => B.Ok l stack) (B.Ok l stack) s) (hk : k ≤ l) :
    x.Wp B.Any Q (fun _ => B.Ok k stack) (B.Ok k stack) s :=
  h.mono (fun _ _ h => h) (fun _ _ h => h.less hk) fun _ h => h.less hk

/-- A call that the table of open directories does not depend on. -/
theorem ask_wp {c : Call} (hc : ∀ o, holdStep B.config stack ⟨c, o⟩ = some stack)
    (hpath : ∀ path, c.path? = some path → B.Path path) (h : B.Ok (k + 1) stack s) :
    (ask server c).Wp B.Any (fun _ t => B.Ok k stack t ∧ Same s t) (fun _ => B.Ok k stack)
      (B.Ok k stack) s := by
  have hok (o : Result Error c.Answer) : B.Ok k stack (s.logged ⟨c, o⟩) :=
    h.logged (hc o) hpath
  exact .react (hok _).any (fun a _ => ⟨hok _, rfl, rfl⟩) (fun e _ => hok _) fun _ => hok _

/-- A call whose exceptions are looked at. -/
theorem ask_attempt_wp {R : Error → Client δ → Prop} {stack' : List Bytes} {c : Call}
    (hc : ∀ o, holdStep B.config stack ⟨c, o⟩ = some stack')
    (hpath : ∀ path, c.path? = some path → B.Path path) (h : B.Ok (k + 1) stack s) :
    (ask server c).attempt.Wp B.Any (fun _ t => B.Ok k stack' t ∧ Same s t) R (B.Ok k stack') s := by
  have hok (o : Result Error c.Answer) : B.Ok k stack' (s.logged ⟨c, o⟩) :=
    h.logged (hc o) hpath
  exact .attempt (.react (hok _).any (fun a _ => ⟨hok _, rfl, rfl⟩) (fun e _ => ⟨hok _, rfl, rfl⟩)
    fun _ => hok _)

theorem isCancelled_wp (h : B.Ok k stack s) :
    (isCancelled server).Wp B.Any (fun _ t => B.Ok k stack t ∧ Same s t) (fun _ => B.Ok k stack)
      (B.Ok k stack) s := by
  have hok : B.Ok k stack { s with checks := s.checks + 1 } :=
    ⟨h.running, h.limit, h.metadataLimit, h.used, h.metadataUsed, h.calls, h.held, h.kept, h.paths⟩
  exact .react hok.any (fun _ _ => ⟨hok, rfl, rfl⟩) (fun _ _ => hok) fun _ => hok

theorem Bounds.Within.charged (h : B.Within k stack s) (entry : Entry) :
    B.Ok (k + B.price + 1) stack
      { s with budget := (s.budget.consumeEntry B.config entry).2 } := by
  have hcharges := s.budget.charges_consume B.config (some entry.filename) entry.extraMetadataBytes
  have hmetadata := Budget.consume_metadata B.config
    (h.1.metadataLimit.symm ▸ h.1.metadataUsed) (some entry.filename) entry.extraMetadataBytes
  have hused := h.2
  have hcalls := h.1.calls
  exact {
    running := h.1.running
    limit := hcharges.limit.trans h.1.limit
    metadataLimit := hcharges.metadataLimit.trans h.1.metadataLimit
    used := by rw [Budget.consumeEntry, hcharges.used]; omega
    metadataUsed := h.1.metadataLimit ▸ hmetadata
    calls := by
      dsimp only
      rw [Budget.consumeEntry, hcharges.used, Nat.mul_succ]
      omega
    held := h.1.held
    kept := h.1.kept
    paths := h.1.paths }

/-- A charge makes room for the calls of an entry. -/
theorem charge_wp {entry : Entry} (h : B.Within k stack s) :
    (charge B.config entry : Prog δ Unit).Wp B.Any
      (fun _ t => B.Within (k + B.price + 1) stack t ∧ t.own = s.own ∧
        t.budget.used = s.budget.used + 1 ∧
        s.budget.consumeEntry B.config entry = (none, t.budget))
      (fun _ => B.Ok k stack) (B.Ok k stack) s := by
  have hcharged := h.charged entry
  have hless := hcharged.less (k := k) (by omega)
  refine .react hless.any (fun _ hok => ?_) (fun _ _ => hless) fun _ => hless
  have hnone : (s.budget.consumeEntry B.config entry).1 = none := by
    revert hok
    dsimp only
    cases (s.budget.consumeEntry B.config entry).1 with
    | none => exact fun _ => rfl
    | some e => exact fun hok => by cases hok
  have hused : (s.budget.consumeEntry B.config entry).2.used = s.budget.used + 1 :=
    (s.budget.charges_consume B.config _ _).used
  have hlimit := (Budget.consumeEntry_none hnone).1
  refine ⟨⟨hcharged, ?_⟩, rfl, hused, Prod.ext hnone rfl⟩
  dsimp only
  rw [hused]
  exact h.1.limit ▸ hlimit

theorem ofExcept_wp {α : Type} {x : Except Error α} (h : B.Ok k stack s) :
    (ofExcept x : Prog δ α).Wp B.Any (fun a t => t = s ∧ x = .ok a) (fun _ => B.Ok k stack)
      (B.Ok k stack) s := by
  cases x with
  | ok a => exact .pure ⟨rfl, rfl⟩
  | error e => exact .raise h

/-- The start of a run. -/
def start (s : Client δ) : Trace (Client δ) := ⟨s, [], 0⟩

/-- A call without a path. -/
theorem pathless {P : String → Prop} {c : Call} (hc : c.path? = none) :
    ∀ path, c.path? = some path → P path := by
  intro path hpath
  rw [hc] at hpath
  cases hpath

/-! ## The loop -/

section
variable {V : β → Budget → δ → Prop} {body : β → Entry → Prog δ β}

theorem validated_body (hbody : B.Body SafeName V body) :
    B.Body (fun _ => True) V (validated body) := by
  intro k stack b entry s hcharged _ hs
  unfold validated
  split
  · rename_i hdots
    exact absurd hdots (not_or.mpr hcharged.dots)
  · split
    · rename_i hsafe
      exact hbody k stack b entry s hcharged hsafe hs
    · exact .raise (hs.1.less (Nat.le_add_right k _))

/-- Every entry leaves room for one more call than it found. -/
theorem readEntries_wp (hV : B.Lasting V) (hbody : B.Body (fun _ => True) V body) (count : Nat)
    {message : Bytes} {b : β} {s : Client δ} (hb : V b s.budget s.own) (h : B.Within k stack s) :
    (readEntries B.config body count message b).Wp B.Any
      (fun r t => V r.1 t.budget t.own ∧ B.Within (k + count) stack t ∧
        s.budget.used + count ≤ t.budget.used)
      (fun _ => B.Ok k stack) (B.Ok k stack) s := by
  induction count generalizing message b s k with
  | zero => exact .pure ⟨hb, h, Nat.le_refl _⟩
  | succ count ih =>
    refine .bind (ofExcept_wp h.1) fun read t ht => ?_
    obtain ⟨rfl, hread⟩ := ht
    obtain ⟨es, hlegal, -⟩ := (readEntry_eq_ok B.config message read.2 read.1).mp hread
    refine .bind (charge_wp h) fun _ u hu => ?_
    obtain ⟨hroom, hown, hused, hcharge⟩ := hu
    refine .bind (P := fun c v => V c v.budget v.own ∧ B.Within (k + 1) stack v ∧
      u.budget.used ≤ v.budget.used) ?_ fun c v hv => ?_
    · unfold yieldEntry
      split
      · exact .pure ⟨hown ▸ hV _ _ _ _ _ hb hcharge, hroom.less (by omega), Nat.le_refl _⟩
      · rename_i hdots
        have hcharged : B.Charged V b read.1 u :=
          ⟨⟨es, hlegal⟩, not_or.mp hdots, t.budget, hown ▸ hb, hcharge⟩
        exact less_wp (hbody (k + 1) stack b read.1 u hcharged trivial (hroom.less (by omega)))
          (Nat.le_succ k)
    · obtain ⟨hc, hwithin, hle⟩ := hv
      refine (ih hc hwithin).mono (fun r w hw => ⟨hw.1, hw.2.1.less (by omega), ?_⟩)
        (fun _ _ h => h.less (Nat.le_succ k)) fun _ h => h.less (Nat.le_succ k)
      have hw := hw.2.2
      omega

theorem readReply_wp (hV : B.Lasting V) (hbody : B.Body (fun _ => True) V body)
    {response : Nat × Bytes} {b : β} (hb : V b s.budget s.own) (h : B.Within k stack s) :
    (readReply B.config body response b).Wp B.Any
      (fun c t => V c t.budget t.own ∧ B.Within (k + 1) stack t ∧
        s.budget.used + 1 ≤ t.budget.used)
      (fun _ => B.Ok k stack) (B.Ok k stack) s := by
  unfold readReply
  split
  · refine .bind (ofExcept_wp h.1) fun read t ht => ?_
    obtain ⟨rfl, -⟩ := ht
    obtain ⟨entryCount, message⟩ := read
    dsimp only
    split
    · exact .raise h.1
    · rename_i hcount
      refine .bind (readEntries_wp hV hbody entryCount hb h) fun r u hu => ?_
      obtain ⟨c, rest⟩ := r
      obtain ⟨hc, hroom, hused⟩ := hu
      have hpos := Nat.pos_of_ne_zero hcount
      dsimp only
      split
      · exact .pure ⟨hc, hroom.less (by omega), by omega⟩
      · exact .raise (hroom.1.less (by omega))
  · exact .raise h.1

/-- Every round charges the budget at least once, so the budget bounds the rounds. -/
theorem readDirectory_wp (hV : B.Lasting V) (hbody : B.Body (fun _ => True) V body)
    {handle : Bytes} (fuel : Nat) {b : β} {s : Client δ} (hb : V b s.budget s.own)
    (h : B.Within (k + 1) (handle :: stack) s) (hfuel : B.limit < fuel + s.budget.used) :
    B.Run V (readDirectory server B.config body handle fuel b) k (handle :: stack) s := by
  induction fuel generalizing b s with
  | zero =>
    have := h.2
    omega
  | succ fuel ih =>
    have hread (o : Result Error (Call.readdir handle).Answer) :
        holdStep B.config (handle :: stack) ⟨.readdir handle, o⟩ = some (handle :: stack) :=
      if_pos rfl
    refine .bind (ask_attempt_wp hread (pathless rfl) h.1) fun answer t ht => ?_
    obtain ⟨hok, hsame⟩ := ht
    have hused := hsame.used
    have hwithin : B.Within k (handle :: stack) t := ⟨hok, hused ▸ h.2⟩
    split
    · exact .pure ⟨hsame.value hb, hwithin, Nat.le_of_eq hused.symm⟩
    · exact .raise hok
    · refine .bind (readReply_wp hV hbody (hsame.value hb) hwithin) fun c u hu => ?_
      obtain ⟨hc, hroom, hmore⟩ := hu
      refine (ih hc hroom (by omega)).mono (fun d v hv => ⟨hv.1, hv.2.1, ?_⟩) (fun _ _ h => h)
        fun _ h => h
      have hv := hv.2.2
      omega

/-- The handle is given back, if need be with the channel. -/
theorem closeDirectory_wp {R : Error → Client δ → Prop} {handle : Bytes}
    (h : B.Ok (k + 2) (handle :: stack) s) :
    (closeDirectory server handle).Wp B.Any (fun _ t => B.Ok k stack t ∧ Same s t) R
      (B.Ok k stack) s := by
  have hclose (o : Result Error (Call.closeHandle handle).Answer) :
      holdStep B.config (handle :: stack) ⟨.closeHandle handle, o⟩ = some stack := if_pos rfl
  have hasked : (ask server (.closeHandle handle)).attempt.Wp B.Any
      (fun _ t => B.Ok (k + 1) stack t ∧ Same s t) R (B.Ok (k + 1) stack) s :=
    ask_attempt_wp hclose (pathless rfl) h
  refine .bind (hasked.mono (fun _ _ h => h) (fun _ _ h => h) fun _ h => h.less (Nat.le_succ k))
    fun answer t ht => ?_
  obtain ⟨hok, hsame⟩ := ht
  cases answer with
  | ok a => exact .pure ⟨hok.less (Nat.le_succ k), hsame⟩
  | error e =>
    refine .bind (ask_attempt_wp (fun o => rfl) (pathless rfl) hok) fun _ u hu => ?_
    exact .pure ⟨hu.1, hsame.trans hu.2⟩

/-- A run by what is known of it, whichever way it ends. -/
theorem Bounds.Run.ends {x : Prog δ β} (h : B.Run V x k stack s) (script : Script Error) :
    (∀ t ∈ (x script (start s)).2.visited, B.Any t) ∧
      B.Ok k stack (x script (start s)).2.state ∧
      ∀ b, (x script (start s)).1 = .ok b →
        V b (x script (start s)).2.state.budget (x script (start s)).2.state.own ∧
          (x script (start s)).2.state.budget.used ≤ B.limit := by
  have hends := h script (start s) rfl fun t ht => absurd ht List.not_mem_nil
  revert hends
  cases x script (start s) with
  | mk result w =>
    intro hends
    cases result with
    | ok b =>
      refine ⟨hends.1, hends.2.2.1.1, fun c hc => ?_⟩
      cases hc
      exact ⟨hends.2.1, hends.2.2.1.2⟩
    | raised e => exact ⟨hends.1, hends.2, fun c hc => by cases hc⟩
    | aborted => exact ⟨hends.1, hends.2, fun c hc => by cases hc⟩

/-- The rule for a loop over a directory. -/
theorem directoryEntries_wp (hV : B.Lasting V) (hbody : B.Body SafeName V body) {fuel : Nat}
    {path : String} {b : β} (hb : V b s.budget s.own) (hpath : B.Path path)
    (h : B.Within (k + 4) stack s) (hfuel : B.limit < fuel + s.budget.used) :
    B.Run V (directoryEntries server B.config fuel path body b) k stack s := by
  have hall := validated_body hbody
  have hopen (o : Result Error (Call.opendir path).Answer) :
      B.Ok (k + 3) ((Event.handle B.config ⟨.opendir path, o⟩).toList ++ stack)
        (s.logged ⟨.opendir path, o⟩) :=
    h.1.logged rfl fun p hp => Option.some.inj hp ▸ hpath
  refine .bind (P := fun response t => t = s.logged ⟨.opendir path, .ok response⟩)
    (.react (hopen _).any (fun response hr => ?_) (fun e hr => ?_) fun hr => ?_) fun response t ht => ?_
  · dsimp only at hr ⊢
    rw [hr]
  · dsimp only at hr ⊢
    rw [hr]
    exact (hopen (.raised e)).less (by omega)
  · dsimp only at hr ⊢
    rw [hr]
    exact (hopen .aborted).less (by omega)
  · subst ht
    have hok := hopen (.ok response)
    dsimp only [Event.handle] at hok
    split
    · rename_i htype
      rw [if_pos htype] at hok
      split
      · rename_i e hhandle
        rw [hhandle] at hok
        have hclosed := hok.less (k := k + 1) (by omega)
        refine .bind (ask_attempt_wp (fun o => rfl) (pathless rfl) hclosed) fun _ u hu => ?_
        exact .raise hu.1
      · rename_i handle hhandle
        rw [hhandle] at hok
        have hdirectory : B.Run V (readDirectory server B.config (validated body) handle fuel b)
            (k + 2) (handle :: stack) (s.logged ⟨.opendir path, .ok response⟩) :=
          readDirectory_wp hV hall fuel hb ⟨hok, h.2⟩ hfuel
        refine hdirectory.finallyDo (fun c t ht => ?_) (fun e t ht => ?_) fun t ht => ?_
        · refine (closeDirectory_wp ht.2.1.1).mono (fun _ u hu => ?_) (fun _ _ h => h) fun _ h => h
          obtain ⟨hok, hsame⟩ := hu
          have hused := hsame.used
          exact ⟨hsame.value ht.1, ⟨hok, hused ▸ ht.2.1.2⟩, hused ▸ ht.2.2⟩
        · exact (closeDirectory_wp ht).mono (fun _ _ h => h.1) (fun _ _ h => h) fun _ h => h
        · exact (closeDirectory_wp ht).mono (fun _ _ h => h.1) (fun _ _ h => h) fun _ h => h
    · rename_i htype
      rw [if_neg htype] at hok
      exact .raise (hok.less (by omega))

end

end WebSSH.Sftp
