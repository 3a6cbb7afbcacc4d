import WebSSH.Barrier.Deadlock
import Mathlib.Tactic.FinCases

/-!
# Reaching the deadlock

Given a `CrossEntry`, three solo runs bring the first thread to its storage lock, the third to its
snapshot and the second inside an outer block before the same storage lock. The snapshot is then
announced and closes the gate, the first thread takes the mutex and sleeps at the gate, and every
other thread runs into one of these obstacles within two steps (`exists_park`).
-/

namespace WebSSH.Barrier
open Lib

set_option linter.unusedSectionVars false

section
variable {Tid Key : Type} [Fintype Tid] [DecidableEq Tid] [DecidableEq Key] [PartialOrder Key]
variable {programs : Tid → List (Instr Key)} {s s' : State Tid Key} {t u : Tid}

/-! ## Solo runs -/

/-- Every thread is between two statements, and only `t` is inside a block. -/
structure Solo (programs : Tid → List (Instr Key)) (s : State Tid Key) (t : Tid) : Prop where
  inv : Inv programs s
  ready : ∀ u, (s.threads u).phase = .ready
  idle : ∀ u, u ≠ t → (s.threads u).held = []

theorem Solo.writer (H : Solo programs s t) : s.writer = false := by
  by_contra hw
  obtain ⟨u, hu⟩ := H.inv.writing (by simpa using hw)
  rw [H.ready u] at hu
  cases hu

theorem Solo.waiting (H : Solo programs s t) : s.waitingWriters = 0 := by
  rw [H.inv.waiting]
  refine Nat.eq_zero_of_not_pos fun h => ?_
  obtain ⟨u, asleep, hu⟩ := count_pos h
  rw [H.ready u] at hu
  cases hu

theorem Solo.depth (H : Solo programs s t) (u : Tid) :
    (s.threads u).writeDepth = (s.threads u).held.length :=
  (H.inv.threads u).depth_eq (by simp [H.ready u])

theorem Solo.readers (H : Solo programs s t) (h : (s.threads t).held = []) : s.readers = 0 := by
  rw [H.inv.readers]
  refine Nat.eq_zero_of_not_pos fun hc => ?_
  obtain ⟨u, hu⟩ := count_pos hc
  have hnil : (s.threads u).held = [] := by
    by_cases hut : u = t
    · rw [hut]; exact h
    · exact H.idle u hut
  rw [H.depth u, hnil] at hu
  exact absurd hu (lt_irrefl _)

/-- Only the storage locks around `t` are taken. -/
theorem Solo.holder (H : Solo programs s t) {key : Key}
    (h : key ∉ (s.threads t).held.filterMap (·.lock)) : s.holder key = none := by
  refine Option.eq_none_iff_forall_ne_some.mpr fun u hu => ?_
  have hk := (H.inv.holder key u).mp hu
  rw [locks_of_ne_entering _ (by simp [H.ready u])] at hk
  by_cases hut : u = t
  · exact h (hut ▸ hk)
  · rw [H.idle u hut] at hk
    cases hk

/-- A disciplined thread does not hold the storage lock it is about to take. -/
theorem Solo.free (H : Solo programs s t) {key : Key} {rest : List (Instr Key)}
    (hpr : (s.threads t).program = .acquire key :: rest) : s.holder key = none := by
  refine H.holder fun hk => ?_
  obtain ⟨f, hf, hfk⟩ := List.mem_filterMap.mp hk
  have hd := (H.inv.threads t).disciplined
  rw [hpr] at hd
  exact absurd (hd.1 key (List.mem_map.mpr ⟨f, hf, hfk⟩)) (lt_irrefl _)

/-- What a solo run leaves alone, and where it brings the record of `t`. -/
theorem Solo.of_update (H : Solo programs s t) (hinv : Inv programs s') (th : Thread Key)
    (hth : ∀ u, s'.threads u = (Function.update s.threads t th u).wake ∨
      s'.threads u = Function.update s.threads t th u)
    (hready : th.phase = .ready) :
    Solo programs s' t ∧ (∀ u, u ≠ t → s'.threads u = s.threads u) ∧ s'.threads t = th := by
  have hwake : ∀ {th' : Thread Key}, th'.phase = .ready → th'.wake = th' := by
    intro th' h
    simp [Thread.wake, h]
  have hne : ∀ u, u ≠ t → s'.threads u = s.threads u := by
    intro u hu
    have := hth u
    rw [Function.update_of_ne hu, hwake (H.ready u)] at this
    exact this.elim id id
  have ht : s'.threads t = th := by
    have := hth t
    rw [Function.update_self, hwake hready] at this
    exact this.elim id id
  refine ⟨⟨hinv, fun u => ?_, fun u hu => by rw [hne u hu]; exact H.idle u hu⟩, hne, ht⟩
  by_cases hu : u = t
  · rw [hu, ht]; exact hready
  · rw [hne u hu]; exact H.ready u

/-- Where a solo run that executes the next statement ends: `n` blocks are around `rest`. -/
structure Executed (programs : Tid → List (Instr Key)) (s : State Tid Key) (t : Tid)
    (rest : List (Instr Key)) (n : Nat) (s' : State Tid Key) : Prop where
  solo : Solo programs s' t
  others : ∀ u, u ≠ t → s'.threads u = s.threads u
  program : (s'.threads t).program = rest
  length : (s'.threads t).held.length = n

/-- From the first step of a `with` statement, whatever it did about the mutex. -/
theorem Solo.open (H : Solo programs s t) {lock : Option Key} {rest : List (Instr Key)}
    (s₁ : State Tid Key) (ho : Opens lock rest (s.threads t).program)
    (hfirst : s.step t = some s₁)
    (hth : s₁.threads =
      Function.update s.threads t { s.threads t with phase := .entering false })
    (hw : s₁.writer = s.writer) (hn : s₁.waitingWriters = s.waitingWriters) :
    ∃ as s', (system programs).Run s as s' ∧
      Executed programs s t rest ((s.threads t).held.length + 1) s' := by
  have ht : s₁.threads t = { s.threads t with phase := .entering false } := by simp [hth]
  have hsecond : s₁.step t = some (s₁.enter t lock rest) := by
    rw [State.step, ht]
    generalize (s.threads t).program = p at ho
    cases ho <;> rfl
  have hinv := (H.inv.step hfirst).step hsecond
  -- the gate is open, so the thread gets in
  have hthread : ∃ context n, (s₁.enter t lock rest).threads = Function.update s₁.threads t
      ⟨rest, .ready, ⟨lock, context⟩ :: (s.threads t).held, n⟩ := by
    rcases enter_cases s₁ t lock rest with ⟨_, he⟩ | ⟨_, hc, _⟩ | ⟨_, _, _, he⟩
    · exact ⟨.nested, _, by rw [he, ht]; rfl⟩
    · rw [hw, hn, H.writer, H.waiting] at hc
      simp at hc
    · exact ⟨.outermost, _, by rw [he, ht]; rfl⟩
  obtain ⟨context, n, he⟩ := hthread
  obtain ⟨hsolo, hothers, hself⟩ := H.of_update hinv _
    (fun u => .inr (by rw [he, hth, Function.update_idem])) rfl
  exact ⟨_, _, (System.Run.single hfirst).snoc hsecond, hsolo, hothers, by rw [hself],
    by rw [hself]; rfl⟩

/-- What leaving a block does to the records. -/
theorem leave_threads (s : State Tid Key) (t : Tid) (context : WriteContext) (th : Thread Key) :
    ∃ n, ∀ u, ((s.leave t context th).threads u =
        (Function.update s.threads t { th with writeDepth := n } u).wake ∨
      (s.leave t context th).threads u =
        Function.update s.threads t { th with writeDepth := n } u) := by
  cases context with
  | nested => exact ⟨th.writeDepth - 1, fun u => .inr rfl⟩
  | outermost =>
    refine ⟨0, fun u => ?_⟩
    simp only [State.leave]
    split
    · exact .inl rfl
    · exact .inr rfl

theorem Solo.exit (H : Solo programs s t) {rest : List (Instr Key)}
    (hpr : (s.threads t).program = .exit :: rest) :
    ∃ as s', (system programs).Run s as s' ∧
      Executed programs s t rest ((s.threads t).held.length - 1) s' := by
  have hph := H.ready t
  have hd := (H.inv.threads t).disciplined
  rw [hpr] at hd
  cases hh : (s.threads t).held with
  | nil => rw [hh] at hd; exact hd.elim
  | cons f held =>
    obtain ⟨lock, context⟩ := f
    cases lock with
    | none =>
      have hstep : s.step t = some (s.leave t context
          { s.threads t with program := rest, held := held }) := by
        simp [State.step, hph, hpr, hh]
      obtain ⟨n, hn⟩ := leave_threads s t context { s.threads t with program := rest, held := held }
      obtain ⟨hsolo, hothers, hself⟩ := H.of_update (H.inv.step hstep) _ hn hph
      exact ⟨_, _, .single hstep, hsolo, hothers, by rw [hself], by rw [hself]; rfl⟩
    | some key =>
      have hstep : s.step t = some (s.leave t context { s.threads t with phase := .unlocking }) := by
        simp [State.step, hph, hpr, hh]
      obtain ⟨n, hn⟩ := leave_threads s t context { s.threads t with phase := .unlocking }
      generalize s.leave t context { s.threads t with phase := .unlocking } = s₁ at hstep hn
      have ht : s₁.threads t =
          { s.threads t with phase := .unlocking, writeDepth := n } := by
        simpa [Thread.wake] using hn t
      have hlast : s₁.step t = some { s₁.setThread t
          { s₁.threads t with program := rest, phase := .ready, held := held } with
          holder := Function.update s₁.holder key none } := by
        simp [State.step, ht, hpr, hh]
      obtain ⟨hsolo, hothers, hself⟩ := H.of_update ((H.inv.step hstep).step hlast)
        { s.threads t with
          program := rest, phase := .ready, held := held, writeDepth := n }
        (fun u => by
          by_cases hu : u = t
          · subst u; right; simp [State.setThread, ht]
          · simpa [State.setThread, hu] using hn u) rfl
      exact ⟨_, _, (System.Run.single hstep).snoc hlast, hsolo, hothers, by rw [hself],
        by rw [hself]; rfl⟩

theorem Solo.snapshot (H : Solo programs s t) {rest : List (Instr Key)}
    (hpr : (s.threads t).program = .snapshot :: rest) :
    ∃ as s', (system programs).Run s as s' ∧
      Executed programs s t rest (s.threads t).held.length s' := by
  have hph := H.ready t
  have hnil := (H.inv.threads t).held_nil hpr
  have hdepth : ¬ 0 < (s.threads t).writeDepth := by rw [H.depth, hnil]; exact lt_irrefl _
  have hfirst : s.step t = some { s.setThread t { s.threads t with phase := .snapshotting } with
      writer := true
      waitingWriters := s.waitingWriters } := by
    simp [State.step, hph, hpr, hdepth, State.tryWrite, H.writer, H.readers hnil, State.setThread]
  generalize hs₁ : ({ s.setThread t { s.threads t with phase := .snapshotting } with
      writer := true
      waitingWriters := s.waitingWriters } : State Tid Key) = s₁ at hfirst
  have ht : s₁.threads t = { s.threads t with phase := .snapshotting } := by
    simp [← hs₁, State.setThread]
  have hlast : s₁.step t = some { s₁.setThread t
      { s₁.threads t with program := rest, phase := .ready } with
      writer := false }.notifyAll := by
    simp [State.step, ht, hpr]
  obtain ⟨hsolo, hothers, hself⟩ := H.of_update ((H.inv.step hfirst).step hlast)
    { s.threads t with program := rest, phase := .ready }
    (fun u => .inl (by
      simp only [State.notifyAll, State.setThread, ht]
      rw [← hs₁]
      simp only [State.setThread, Function.update_idem])) rfl
  exact ⟨_, _, (System.Run.single hfirst).snoc hlast, hsolo, hothers, by rw [hself],
    by rw [hself]⟩

/-- A thread on its own can always execute its next statement. -/
theorem Solo.next (H : Solo programs s t) {i : Instr Key} {rest : List (Instr Key)}
    (hpr : (s.threads t).program = i :: rest) :
    ∃ n as s', (system programs).Run s as s' ∧ Executed programs s t rest n s' ∧
      ∀ key d, (key, d) ∈ acquisitions (s.threads t).held.length (i :: rest) →
        i = .acquire key ∧ (s.threads t).held.length = d ∨ (key, d) ∈ acquisitions n rest := by
  cases i with
  | acquire key =>
    obtain ⟨as, s', hr, he⟩ := H.open { s.setThread t
      { s.threads t with phase := .entering false } with
      holder := Function.update s.holder key (some t) } (.of_acquire hpr)
      (by simp [State.step, H.ready t, hpr, H.free hpr]) rfl rfl rfl
    refine ⟨_, as, s', hr, he, fun k d hm => ?_⟩
    rcases List.mem_cons.mp hm with h | h
    · cases h; exact .inl ⟨rfl, rfl⟩
    · exact .inr h
  | enterWrite =>
    obtain ⟨as, s', hr, he⟩ := H.open
      (s.setThread t { s.threads t with phase := .entering false }) (.of_enterWrite hpr)
      (by simp only [State.step, H.ready t, hpr]) rfl rfl rfl
    exact ⟨_, as, s', hr, he, fun _ _ hm => .inr hm⟩
  | exit =>
    obtain ⟨as, s', hr, he⟩ := H.exit hpr
    exact ⟨_, as, s', hr, he, fun _ _ hm => .inr hm⟩
  | snapshot =>
    obtain ⟨as, s', hr, he⟩ := H.snapshot hpr
    exact ⟨_, as, s', hr, he, fun _ _ hm => .inr hm⟩

/-- A thread on its own reaches each of its acquisitions. -/
theorem Solo.reach_acquire (H : Solo programs s t) {key : Key} {d : Nat}
    (h : (key, d) ∈ acquisitions (s.threads t).held.length (s.threads t).program) :
    ∃ rest as s', (system programs).Run s as s' ∧
      Executed programs s t (.acquire key :: rest) d s' := by
  generalize hpr : (s.threads t).program = p at h
  induction p generalizing s with
  | nil => cases h
  | cons i rest ih =>
    obtain ⟨n, as, s₁, hr₁, he₁, hmem⟩ := H.next hpr
    rcases hmem key d h with ⟨rfl, hd⟩ | h'
    · exact ⟨rest, [], s, .refl, H, fun _ _ => rfl, hpr, hd⟩
    · obtain ⟨rest', bs, s₂, hr₂, he₂⟩ := ih he₁.solo he₁.program (by rw [he₁.length]; exact h')
      exact ⟨rest', _, s₂, hr₁.trans hr₂, he₂.solo,
        fun u hu => (he₂.others u hu).trans (he₁.others u hu), he₂.program, he₂.length⟩

/-- A thread on its own reaches its snapshot. -/
theorem Solo.reach_snapshot (H : Solo programs s t) (h : .snapshot ∈ (s.threads t).program) :
    ∃ rest as s', (system programs).Run s as s' ∧
      Executed programs s t (.snapshot :: rest) 0 s' := by
  generalize hpr : (s.threads t).program = p at h
  induction p generalizing s with
  | nil => cases h
  | cons i rest ih =>
    rcases List.mem_cons.mp h with rfl | h'
    · refine ⟨rest, [], s, .refl, H, fun _ _ => rfl, hpr, ?_⟩
      rw [(H.inv.threads t).held_nil hpr]; rfl
    · obtain ⟨n, as, s₁, hr₁, he₁, -⟩ := H.next hpr
      obtain ⟨rest', bs, s₂, hr₂, he₂⟩ := ih he₁.solo he₁.program h'
      exact ⟨rest', _, s₂, hr₁.trans hr₂, he₂.solo,
        fun u hu => (he₂.others u hu).trans (he₁.others u hu), he₂.program, he₂.length⟩

/-! ## Parking the other threads -/

/-- A snapshot waits for readers, so the gate is closed and stays closed. -/
structure Jammed (s : State Tid Key) : Prop where
  readers : 0 < s.readers
  waiting : 0 < s.waitingWriters

/-- `s'` differs from `s` in the record of `u` and in what it has taken. -/
structure Parked (s : State Tid Key) (u : Tid) (s' : State Tid Key) : Prop where
  jammed : Jammed s'
  others : ∀ v, v ≠ u → s'.threads v = s.threads v
  taken : ∀ key, s.holder key ≠ none → s'.holder key ≠ none
  stuck : s'.step u = none
  wanted : ∀ key rest, (s.threads u).program = .acquire key :: rest → s'.holder key ≠ none

/-- A blocked thread stays blocked while its record stays and no mutex is freed. -/
theorem stuck_of_taken (H : Inv programs s) (hth : s'.threads u = s.threads u)
    (htaken : ∀ key, s.holder key ≠ none → s'.holder key ≠ none) (h : s.step u = none) :
    s'.step u = none := by
  rcases blocked_cases H h with h | ⟨key, hph, ⟨rest, hpr⟩, hk⟩ | h | h
  · rw [← hth] at h
    cases hph : (s'.threads u).phase with
    | ready | unlocking | snapshotting => simp [State.step, hph, h]
    | entering asleep | waiting asleep => cases asleep <;> simp [State.step, hph, h]
  · rw [← hth] at hph hpr
    simp [State.step, hph, hpr, htaken key hk]
  · rw [← hth] at h
    simp [State.step, h]
  · rw [← hth] at h
    simp [State.step, h]

/-- At the closed gate the thread falls asleep. -/
theorem Jammed.enter (H : Jammed s) (lock : Option Key) (rest : List (Instr Key))
    (hdepth : (s.threads u).writeDepth = 0) :
    s.enter u lock rest = s.setThread u { s.threads u with phase := .entering true } := by
  simp [State.enter, hdepth, H.waiting]

/-- A thread in no block runs into the jam. -/
theorem exists_park (H : Inv programs s) (hj : Jammed s) (hph : (s.threads u).phase = .ready)
    (hnil : (s.threads u).held = []) :
    ∃ as s', (system programs).Run s as s' ∧ Parked s u s' := by
  have hok := H.threads u
  have hdepth : (s.threads u).writeDepth = 0 := by
    rw [hok.depth_eq (by simp [hph]), hnil]; rfl
  cases hpr : (s.threads u).program with
  | nil =>
    exact ⟨[], s, .refl, hj, fun _ _ => rfl, fun _ => id, by simp [State.step, hph, hpr],
      fun key rest h => by rw [hpr] at h; cases h⟩
  | cons i rest =>
    cases i with
    | acquire key =>
      have hwant : ∀ {k rest'}, (s.threads u).program = .acquire k :: rest' → k = key := by
        intro k rest' h
        rw [hpr] at h
        cases h; rfl
      by_cases hfree : s.holder key = none
      · let s₁ : State Tid Key := { s.setThread u { s.threads u with phase := .entering false } with
          holder := Function.update s.holder key (some u) }
        have ht : s₁.threads u = { s.threads u with phase := .entering false } := by
          simp [s₁, State.setThread]
        have hfirst : s.step u = some s₁ := by simp [State.step, hph, hpr, hfree, s₁]
        have hj₁ : Jammed s₁ := ⟨hj.readers, hj.waiting⟩
        have hsecond : s₁.step u = some (s₁.setThread u
            { s₁.threads u with phase := .entering true }) := by
          rw [← hj₁.enter (some key) rest (by rw [ht]; exact hdepth)]
          simp [State.step, ht, hpr]
        refine ⟨_, _, (System.Run.single hfirst).snoc hsecond, ⟨hj.readers, hj.waiting⟩,
          fun v hv => ?_, fun k hk => ?_, ?_, fun k rest' h => ?_⟩
        · simp [State.setThread, s₁, hv]
        · by_cases h : k = key
          · simp [State.setThread, s₁, h]
          · simpa [State.setThread, s₁, h] using hk
        · simp [State.step, State.setThread]
        · simp [State.setThread, s₁, hwant h]
      · refine ⟨[], s, .refl, hj, fun _ _ => rfl, fun _ => id, ?_, fun k rest' h => ?_⟩
        · simp [State.step, hph, hpr, hfree]
        · rw [hwant h]; exact hfree
    | enterWrite =>
      let s₁ : State Tid Key := s.setThread u { s.threads u with phase := .entering false }
      have ht : s₁.threads u = { s.threads u with phase := .entering false } := by
        simp [s₁, State.setThread]
      have hfirst : s.step u = some s₁ := by simp only [State.step, hph, hpr, s₁]
      have hj₁ : Jammed s₁ := ⟨hj.readers, hj.waiting⟩
      have hsecond : s₁.step u = some (s₁.setThread u
          { s₁.threads u with phase := .entering true }) := by
        rw [← hj₁.enter none rest (by rw [ht]; exact hdepth)]
        simp [State.step, ht, hpr]
      refine ⟨_, _, (System.Run.single hfirst).snoc hsecond, ⟨hj.readers, hj.waiting⟩,
        fun v hv => ?_, fun k hk => hk, ?_, fun k rest' h => ?_⟩
      · simp [State.setThread, s₁, hv]
      · simp [State.step, State.setThread]
      · rw [hpr] at h; cases h
    | exit =>
      have hd := hok.disciplined
      rw [hpr, hnil] at hd
      exact hd.elim
    | snapshot =>
      have hstep : s.step u = some { s.setThread u { s.threads u with phase := .waiting true } with
          waitingWriters := s.waitingWriters + 1 } := by
        simp [State.step, hph, hpr, hdepth, State.tryWrite, hj.readers, State.setThread]
      refine ⟨_, _, .single hstep, ⟨hj.readers, Nat.succ_pos _⟩, fun v hv => ?_, fun k hk => hk,
        ?_, fun k rest' h => ?_⟩
      · simp [State.setThread, hv]
      · simp [State.step, State.setThread]
      · rw [hpr] at h; cases h

/-- Once the jam is there, parking the remaining threads one by one ends in a deadlock. -/
theorem exists_deadlock_of_jam (hd : ∀ t, Disciplined [] (programs t)) (U : Finset Tid)
    (hr : (system programs).Reachable s) (hj : Jammed s) (hne : (s.threads t).program ≠ [])
    (ht : t ∉ U) (hstuck : ∀ u, u ∉ U → s.step u = none)
    (hU : ∀ u ∈ U, (s.threads u).phase = .ready ∧ (s.threads u).held = []) :
    ∃ s', (system programs).Reachable s' ∧ Deadlock s' := by
  induction U using Finset.induction_on generalizing s with
  | empty => exact ⟨s, hr, ⟨t, hne⟩, fun u => hstuck u (by simp)⟩
  | insert u U hu ih =>
    have H := reachable_inv hd hr
    obtain ⟨hph, hnil⟩ := hU u (Finset.mem_insert_self u U)
    obtain ⟨as, s', hrun, hp⟩ := exists_park H hj hph hnil
    have htu : t ≠ u := by rintro rfl; exact ht (Finset.mem_insert_self t U)
    refine ih (hr.run hrun) hp.jammed (by rw [hp.others t htu]; exact hne)
      (fun h => ht (Finset.mem_insert_of_mem h)) (fun v hv => ?_) (fun v hv => ?_)
    · by_cases hvu : v = u
      · rw [hvu]; exact hp.stuck
      · refine stuck_of_taken H (hp.others v hvu) hp.taken (hstuck v fun h => ?_)
        exact (Finset.mem_insert.mp h).elim hvu hv
    · have hvu : v ≠ u := by rintro rfl; exact hu hv
      rw [hp.others v hvu]
      exact hU v (Finset.mem_insert_of_mem hv)

/-! ## The deadlock -/

/-- Three threads that meet on one storage lock can deadlock. -/
theorem exists_deadlock (hd : ∀ t, Disciplined [] (programs t)) (hc : CrossEntry programs) :
    ∃ s, (system programs).Reachable s ∧ Deadlock s := by
  obtain ⟨t₁, t₂, t₃, key, d, h₁₂, h₁₃, h₂₃, ha₁, ha₂, hs₃⟩ := hc
  -- the solo runs: `t₁` before its storage lock, `t₃` before its snapshot, `t₂` inside a block
  have H₀ : Solo programs (.init programs) t₁ := ⟨Inv.init hd, fun _ => rfl, fun _ _ => rfl⟩
  obtain ⟨rest₁, as₁, s₁, hr₁, he₁⟩ := H₀.reach_acquire ha₁
  have hheld₁ : ∀ u, (s₁.threads u).held = [] := by
    intro u
    by_cases hu : u = t₁
    · rw [hu]; exact List.eq_nil_of_length_eq_zero he₁.length
    · exact he₁.solo.idle u hu
  have H₁ : Solo programs s₁ t₃ := ⟨he₁.solo.inv, he₁.solo.ready, fun u _ => hheld₁ u⟩
  obtain ⟨rest₃, as₃, s₂, hr₂, he₃⟩ := H₁.reach_snapshot
    (by rw [he₁.others t₃ h₁₃.symm]; exact hs₃)
  have hheld₂ : ∀ u, (s₂.threads u).held = [] := by
    intro u
    by_cases hu : u = t₃
    · rw [hu]; exact List.eq_nil_of_length_eq_zero he₃.length
    · rw [he₃.others u hu]; exact hheld₁ u
  have H₂ : Solo programs s₂ t₂ := ⟨he₃.solo.inv, he₃.solo.ready, fun u _ => hheld₂ u⟩
  rw [show programs t₂ = (s₂.threads t₂).program by
    rw [he₃.others t₂ h₂₃, he₁.others t₂ h₁₂.symm]; rfl] at ha₂
  obtain ⟨rest₂, as₂, s₃, hr₃, he₂⟩ := H₂.reach_acquire (by rw [hheld₂ t₂]; exact ha₂)
  have H₃ := he₂.solo
  have hreach : (system programs).Reachable s₃ :=
    (((System.Reachable.init rfl).run hr₁).run hr₂).run hr₃
  have hp₁ : (s₃.threads t₁).program = .acquire key :: rest₁ := by
    rw [he₂.others t₁ h₁₂, he₃.others t₁ h₁₃, he₁.program]
  have hp₃ : (s₃.threads t₃).program = .snapshot :: rest₃ := by
    rw [he₂.others t₃ h₂₃.symm, he₃.program]
  have hheld : ∀ u, u ≠ t₂ → (s₃.threads u).held = [] := H₃.idle
  -- `t₂` is a reader, so the snapshot of `t₃` has to wait
  have hreaders : 0 < s₃.readers := by
    rw [H₃.inv.readers]
    exact count_pos_of (i := t₂) (by rw [H₃.depth, he₂.length]; exact Nat.succ_pos d)
  have hdepth₃ : (s₃.threads t₃).writeDepth = 0 := by rw [H₃.depth, hheld t₃ h₂₃.symm]; rfl
  have hstep : s₃.step t₃ = some { s₃.setThread t₃
      { s₃.threads t₃ with phase := .waiting true } with
      waitingWriters := s₃.waitingWriters + 1 } := by
    simp [State.step, H₃.ready t₃, hp₃, hdepth₃, State.tryWrite, hreaders, State.setThread]
  generalize hs₄ : ({ s₃.setThread t₃ { s₃.threads t₃ with phase := .waiting true } with
      waitingWriters := s₃.waitingWriters + 1 } : State Tid Key) = s₄ at hstep
  have hothers₄ : ∀ u, u ≠ t₃ → s₄.threads u = s₃.threads u := by
    intro u hu; simp [← hs₄, State.setThread, hu]
  have hj : Jammed s₄ := by
    rw [← hs₄]; exact ⟨hreaders, Nat.succ_pos _⟩
  have hstuck₃ : s₄.step t₃ = none := by simp [← hs₄, State.step, State.setThread]
  -- `t₁` takes the mutex that `t₂` is about to wait for, and sleeps at the gate
  have H₄ := H₃.inv.step hstep
  obtain ⟨as₅, s₅, hr₅, hpark⟩ := exists_park (u := t₁) H₄ hj
    (by rw [hothers₄ t₁ h₁₃]; exact H₃.ready t₁) (by rw [hothers₄ t₁ h₁₃]; exact hheld t₁ h₁₂)
  have hkey : s₅.holder key ≠ none :=
    hpark.wanted key rest₁ (by rw [hothers₄ t₁ h₁₃]; exact hp₁)
  have hth₂ : s₅.threads t₂ = s₃.threads t₂ := by
    rw [hpark.others t₂ h₁₂.symm, hothers₄ t₂ h₂₃]
  have hstuck₂ : s₅.step t₂ = none := by
    simp [State.step, hth₂, H₃.ready t₂, he₂.program, hkey]
  refine exists_deadlock_of_jam hd (t := t₂) ((Finset.univ.erase t₁).erase t₂ |>.erase t₃)
    ((hreach.step hstep).run hr₅) hpark.jammed ?_ (by simp) (fun u hu => ?_) (fun u hu => ?_)
  · rw [hth₂, he₂.program]; exact List.cons_ne_nil _ _
  · by_cases hu₁ : u = t₁
    · rw [hu₁]; exact hpark.stuck
    by_cases hu₂ : u = t₂
    · rw [hu₂]; exact hstuck₂
    by_cases hu₃ : u = t₃
    · rw [hu₃]
      exact stuck_of_taken H₄ (hpark.others t₃ h₁₃.symm) hpark.taken hstuck₃
    · simp [hu₁, hu₂, hu₃] at hu
  · simp only [Finset.mem_erase, Finset.mem_univ, and_true] at hu
    obtain ⟨hu₃, hu₂, hu₁⟩ := hu
    rw [hpark.others u hu₁, hothers₄ u hu₃]
    exact ⟨H₃.ready u, hheld u hu₂⟩

/-- For disciplined threads, deadlock freedom is the absence of a cross entry. -/
theorem deadlock_free_iff (programs : Tid → List (Instr Key))
    (hd : ∀ t, Disciplined [] (programs t)) :
    (∀ s, (system programs).Reachable s → ¬ Deadlock s) ↔ ¬ CrossEntry programs := by
  constructor
  · rintro h hc
    obtain ⟨s, hr, hdead⟩ := exists_deadlock hd hc
    exact h s hr hdead
  · exact fun h s hr hdead => h (crossEntry_of_deadlock (reachable_inv hd hr) hdead)

end

/-! ## Command sets

`load_command_sets` takes the lock `command-sets:u` on its own, `upsert_command_set` takes it
inside `command-config:u`, and a backup takes a snapshot.
-/

/-- The locks `command-config:u` (`0`) and `command-sets:u` (`1`). -/
def commandThreads : Fin 3 → List (Instr Nat)
  | 0 => [.acquire 1, .exit]
  | 1 => [.acquire 0, .acquire 1, .exit, .exit]
  | 2 => [.snapshot]

theorem command_threads_deadlock : (∀ t, Disciplined [] (commandThreads t)) ∧
    ∃ s, (system commandThreads).Reachable s ∧ Deadlock s := by
  -- the update enters, the snapshot waits for it, the load takes the inner mutex and sleeps
  let trace : List (Fin 3) := [1, 1, 2, 0, 0]
  have hdead : ((trace.foldlM State.step (.init commandThreads)).map fun s =>
      decide ((∃ t, (s.threads t).program ≠ []) ∧ ∀ t, (s.step t).isNone = true)) = some true := by
    decide
  obtain ⟨s, hs, hd⟩ := Option.map_eq_some_iff.mp hdead
  obtain ⟨hne, hnone⟩ := of_decide_eq_true hd
  refine ⟨fun t => ?_, s, (System.Reachable.init rfl).run (System.run_of_foldlM (fun _ _ _ h => h) hs), hne,
    fun t => Option.isNone_iff_eq_none.mp (hnone t)⟩
  fin_cases t <;> simp [commandThreads, Disciplined]

/-- An update and a backup. -/
def updateThreads : Fin 2 → List (Instr Nat)
  | 0 => [.acquire 0, .acquire 1, .exit, .exit]
  | 1 => [.snapshot]

theorem update_and_snapshot_deadlock_free : (∀ t, Disciplined [] (updateThreads t)) ∧
    ∀ s, (system updateThreads).Reachable s → ¬ Deadlock s := by
  have hd : ∀ t, Disciplined [] (updateThreads t) := by
    intro t
    fin_cases t <;> simp [updateThreads, Disciplined]
  refine ⟨hd, (deadlock_free_iff updateThreads hd).mpr ?_⟩
  rintro ⟨t₁, t₂, t₃, key, d, h₁₂, h₁₃, h₂₃, -⟩
  omega

end WebSSH.Barrier
