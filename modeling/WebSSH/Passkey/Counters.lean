import Mathlib.Data.List.Nodup
import WebSSH.Passkey.Verification

/-!
# Counters and challenges of passkeys

A challenge is in one place at a time: a row, a request that has deleted the row, or accepted. The
counters are kept as long as no commit of the other route comes between a query and its commit, and
only so long: the requests of one route exclude one another, the two routes do not.
-/

namespace WebSSH.Passkey
open Lib Function

variable {requests : Nat → Request} {credentials : Nat → Option Credential}

/-! ## Challenges -/

/-- The challenge that a request has deleted and not yet had accepted. -/
def Phase.challenge? : Phase → Option Nat
  | consumed challenge => some challenge
  | verified challenge _ => some challenge
  | _ => none

/-- Every challenge is in one place. -/
structure Tally (challenges : List Challenge) (issued : Nat) (challengeLock : Option Nat)
    (phase : Nat → Phase) (accepted : List Assertion) : Prop where
  rows : (challenges.map Challenge.challenge).Nodup
  rows_lt : ∀ row ∈ challenges, row.challenge < issued
  selected : ∀ i row, phase i = .selected row → row ∈ challenges ∧ challengeLock = some i
  held : ∀ i c, (phase i).challenge? = some c → c < issued ∧
    (∀ row ∈ challenges, row.challenge ≠ c) ∧ ∀ a ∈ accepted, a.challenge ≠ c
  held_once : ∀ i j c, (phase i).challenge? = some c → (phase j).challenge? = some c → i = j
  accepted_lt : ∀ a ∈ accepted, a.challenge < issued ∧ ∀ row ∈ challenges, row.challenge ≠ a.challenge
  accepted_once : (accepted.map Assertion.challenge).Nodup

variable {challenges : List Challenge} {issued : Nat} {challengeLock : Option Nat}
  {phase : Nat → Phase} {accepted : List Assertion}

namespace Tally

/-- Only the request that holds the lock has selected a row. -/
theorem selected_eq (H : Tally challenges issued challengeLock phase accepted) {i j : Nat}
    {row row' : Challenge} (hi : phase i = .selected row) (hj : phase j = .selected row') : i = j :=
  Option.some.inj ((H.selected i row hi).2.symm.trans (H.selected j row' hj).2)

/-- A request goes to a phase without a challenge. -/
theorem leave (H : Tally challenges issued challengeLock phase accepted) {i : Nat} {p : Phase}
    (hp : p.challenge? = none) (hselected : ∀ row, p ≠ .selected row) :
    Tally challenges issued challengeLock (update phase i p) accepted where
  rows := H.rows
  rows_lt := H.rows_lt
  selected j row h := by
    by_cases hj : j = i
    · subst hj
      rw [update_self] at h
      exact absurd h (hselected row)
    · rw [update_of_ne hj] at h
      exact H.selected j row h
  held j c h := by
    by_cases hj : j = i
    · subst hj
      rw [update_self, hp] at h
      cases h
    · rw [update_of_ne hj] at h
      exact H.held j c h
  held_once j k c hj hk := by
    have hne {l : Nat} (h : (update phase i p l).challenge? = some c) : l ≠ i := by
      rintro rfl
      rw [update_self, hp] at h
      cases h
    rw [update_of_ne (hne hj)] at hj
    rw [update_of_ne (hne hk)] at hk
    exact H.held_once j k c hj hk
  accepted_lt := H.accepted_lt
  accepted_once := H.accepted_once

/-- The lock of the challenges is released by the request that has selected a row. -/
theorem release (H : Tally challenges issued challengeLock phase accepted) {i : Nat} {p : Phase}
    {row : Challenge} (hi : phase i = .selected row) (hp : p.challenge? = none)
    (hselected : ∀ row, p ≠ .selected row) {challenges' : List Challenge}
    (hsub : challenges'.Sublist challenges) :
    Tally challenges' issued none (update phase i p) accepted where
  rows := H.rows.sublist (hsub.map _)
  rows_lt other h := H.rows_lt other (hsub.subset h)
  selected j other h := by
    by_cases hj : j = i
    · subst hj
      rw [update_self] at h
      exact absurd h (hselected other)
    · rw [update_of_ne hj] at h
      exact absurd (H.selected_eq h hi) hj
  held j c h := by
    obtain ⟨hlt, hrows, haccepted⟩ := (H.leave hp hselected).held j c h
    exact ⟨hlt, fun other ho => hrows other (hsub.subset ho), haccepted⟩
  held_once := (H.leave hp hselected).held_once
  accepted_lt a h :=
    ⟨(H.accepted_lt a h).1, fun other ho => (H.accepted_lt a h).2 other (hsub.subset ho)⟩
  accepted_once := H.accepted_once

/-- A request selects a row under the lock. -/
theorem select (H : Tally challenges issued none phase accepted) {i : Nat} {row : Challenge}
    (hrow : row ∈ challenges) :
    Tally challenges issued (some i) (update phase i (.selected row)) accepted where
  rows := H.rows
  rows_lt := H.rows_lt
  selected j other h := by
    by_cases hj : j = i
    · subst hj
      rw [update_self] at h
      cases h
      exact ⟨hrow, rfl⟩
    · rw [update_of_ne hj] at h
      cases (H.selected j other h).2
  held j c h := by
    by_cases hj : j = i
    · subst hj
      rw [update_self] at h
      cases h
    · rw [update_of_ne hj] at h
      exact H.held j c h
  held_once j k c hj hk := by
    have hne {l : Nat} (h : (update phase i (.selected row) l).challenge? = some c) : l ≠ i := by
      rintro rfl
      rw [update_self] at h
      cases h
    rw [update_of_ne (hne hj)] at hj
    rw [update_of_ne (hne hk)] at hk
    exact H.held_once j k c hj hk
  accepted_lt := H.accepted_lt
  accepted_once := H.accepted_once

/-- The selected row is deleted, and its challenge held by the request. -/
theorem consume (H : Tally challenges issued challengeLock phase accepted) {i : Nat}
    {row : Challenge} (hi : phase i = .selected row) :
    Tally (challenges.filter fun other => other.challenge ≠ row.challenge) issued none
      (update phase i (.consumed row.challenge)) accepted := by
  have hrow := (H.selected i row hi).1
  have H' := H.release (p := .rejected) hi rfl nofun
    (List.filter_sublist (p := fun other => other.challenge ≠ row.challenge))
  have hfresh (j : Nat) : (phase j).challenge? ≠ some row.challenge := fun hj =>
    (H.held j _ hj).2.1 row hrow rfl
  have hold {j : Nat} (hj : j ≠ i) : update phase i (.consumed row.challenge) j = phase j :=
    update_of_ne hj _ _
  refine ⟨H'.rows, H'.rows_lt, fun j other h => ?_, fun j c h => ?_, fun j k c hj hk => ?_,
    H'.accepted_lt, H'.accepted_once⟩
  · by_cases hj : j = i
    · subst hj
      rw [update_self] at h
      cases h
    · rw [hold hj] at h
      exact absurd (H.selected_eq h hi) hj
  · by_cases hj : j = i
    · subst hj
      rw [update_self] at h
      cases h
      refine ⟨H.rows_lt row hrow, fun other ho => ?_, fun a ha h => ?_⟩
      · simpa using (List.mem_filter.mp ho).2
      · exact (H.accepted_lt a ha).2 row hrow h.symm
    · refine H'.held j c ?_
      rw [update_of_ne hj]
      rwa [hold hj] at h
  · by_cases hji : j = i
    · subst hji
      rw [update_self] at hj
      cases hj
      by_cases hkj : k = j
      · exact hkj.symm
      · rw [hold hkj] at hk
        exact absurd hk (hfresh k)
    · rw [hold hji] at hj
      by_cases hki : k = i
      · subst hki
        rw [update_self] at hk
        cases hk
        exact absurd hj (hfresh j)
      · rw [hold hki] at hk
        exact H.held_once j k c hj hk

/-- A request goes on with the challenge it holds. -/
theorem keep (H : Tally challenges issued challengeLock phase accepted) {i : Nat} {p : Phase}
    (hp : p.challenge? = (phase i).challenge?) (hselected : ∀ row, p ≠ .selected row) :
    Tally challenges issued challengeLock (update phase i p) accepted := by
  have hsame (j : Nat) : (update phase i p j).challenge? = (phase j).challenge? := by
    by_cases hj : j = i
    · subst hj
      rw [update_self, hp]
    · rw [update_of_ne hj]
  refine ⟨H.rows, H.rows_lt, fun j row h => ?_, fun j c h => H.held j c (hsame j ▸ h),
    fun j k c hj hk => H.held_once j k c (hsame j ▸ hj) (hsame k ▸ hk), H.accepted_lt,
    H.accepted_once⟩
  by_cases hj : j = i
  · subst hj
    rw [update_self] at h
    exact absurd h (hselected row)
  · rw [update_of_ne hj] at h
    exact H.selected j row h

/-- A challenge is issued, while no request is between its query and its commit. -/
theorem create (H : Tally challenges issued none phase accepted) (p : Challenge → Bool)
    (key : Key) (expiresAt : Nat) :
    Tally (challenges.filter p ++ [⟨key, issued, expiresAt⟩]) (issued + 1) none phase accepted := by
  have hrow {row : Challenge} (h : row ∈ challenges.filter p ++ [⟨key, issued, expiresAt⟩]) :
      row ∈ challenges ∨ row.challenge = issued := by
    rcases List.mem_append.mp h with h | h
    · exact .inl (List.mem_filter.mp h).1
    · cases List.mem_singleton.mp h
      exact .inr rfl
  have hne {c : Nat} (hc : c < issued) (hrows : ∀ row ∈ challenges, row.challenge ≠ c) :
      ∀ row ∈ challenges.filter p ++ [⟨key, issued, expiresAt⟩], row.challenge ≠ c := by
    intro row h
    rcases hrow h with h | h
    · exact hrows row h
    · exact fun hrc => absurd (h.symm.trans hrc) (Nat.ne_of_gt hc)
  refine ⟨?_, fun row h => ?_, fun i row h => ?_, fun i c h => ?_, H.held_once, fun a h => ?_,
    H.accepted_once⟩
  · rw [List.map_append, List.nodup_append]
    refine ⟨H.rows.sublist (List.filter_sublist.map _), List.nodup_singleton _, fun c hc d hd => ?_⟩
    obtain ⟨row, hrow, rfl⟩ := List.mem_map.mp hc
    cases List.mem_singleton.mp hd
    exact Nat.ne_of_lt (H.rows_lt row (List.mem_filter.mp hrow).1)
  · rcases hrow h with h | h
    · exact Nat.lt_succ_of_lt (H.rows_lt row h)
    · exact h ▸ Nat.lt_succ_self issued
  · cases (H.selected i row h).2
  · obtain ⟨hlt, hrows, haccepted⟩ := H.held i c h
    exact ⟨Nat.lt_succ_of_lt hlt, hne hlt hrows, haccepted⟩
  · obtain ⟨hlt, hrows⟩ := H.accepted_lt a h
    exact ⟨Nat.lt_succ_of_lt hlt, hne hlt hrows⟩

/-- The challenge of a request is accepted. -/
theorem accept (H : Tally challenges issued challengeLock phase accepted) {i : Nat} {a : Assertion}
    (hi : (phase i).challenge? = some a.challenge) :
    Tally challenges issued challengeLock (update phase i .accepted) (a :: accepted) := by
  have H' := H.leave (i := i) (p := .accepted) rfl nofun
  obtain ⟨hlt, hrows, haccepted⟩ := H.held i _ hi
  refine ⟨H'.rows, H'.rows_lt, H'.selected, fun j c h => ?_, H'.held_once, ?_, ?_⟩
  · obtain ⟨hc, hcrows, hcaccepted⟩ := H'.held j c h
    refine ⟨hc, hcrows, List.forall_mem_cons.mpr ⟨fun heq => ?_, hcaccepted⟩⟩
    have hj : j ≠ i := by
      rintro rfl
      rw [update_self] at h
      cases h
    rw [update_of_ne hj] at h
    exact hj (H.held_once j i c h (heq ▸ hi))
  · exact List.forall_mem_cons.mpr ⟨⟨hlt, hrows⟩, H.accepted_lt⟩
  · rw [List.map_cons, List.nodup_cons]
    refine ⟨fun h => ?_, H.accepted_once⟩
    obtain ⟨a, ha, heq⟩ := List.mem_map.mp h
    exact haccepted a ha heq

end Tally

/-! ## Counters -/

/-- The commit of a request that has read a count less than its counter, where the committed count is
not less by now. -/
def Overtaken (requests : Nat → Request) (s : State) (a : Action) : Prop :=
  ∃ i challenge signCount, a = .commit i ∧ s.phase i = .verified challenge signCount ∧
    signCount < (requests i).assertion.newSignCount ∧
    (requests i).assertion.newSignCount ≤ s.signCount (requests i).assertion.credentialId

/-- What a request that has read a count knows. -/
structure Verified (requests : Nat → Request) (credentials : Nat → Option Credential) (s : State)
    (i challenge signCount : Nat) : Prop where
  signed : (requests i).assertion.challenge = challenge
  advanced : signCount = 0 ∨ signCount < (requests i).assertion.newSignCount
  registered : (s.credentials (requests i).assertion.credentialId).isSome
  started : (State.init credentials).signCount (requests i).assertion.credentialId ≤ signCount

/-- The committed counts bound the accepted ones and come from them. -/
structure Counts (requests : Nat → Request) (credentials : Nat → Option Credential) (s : State) :
    Prop where
  verified : ∀ i c v, s.phase i = .verified c v → Verified requests credentials s i c v
  bounded : ∀ a ∈ s.accepted, a.newSignCount ≤ s.signCount a.credentialId
  started : ∀ k, (State.init credentials).signCount k ≤ s.signCount k
  source : ∀ k, s.signCount k = (State.init credentials).signCount k ∨
    ∃ a ∈ s.accepted, a.credentialId = k ∧ a.newSignCount = s.signCount k

structure Inv (requests : Nat → Request) (credentials : Nat → Option Credential) (s : State) :
    Prop where
  tally : Tally s.challenges s.issued s.challengeLock s.phase s.accepted
  counts : Counts requests credentials s
  safe : Safe s

/-- A step that leaves the credentials and what was accepted, and after which no more has been
read. -/
theorem Inv.frame {s t : State} (H : Inv requests credentials s)
    (htally : Tally t.challenges t.issued t.challengeLock t.phase t.accepted)
    (hcredentials : t.credentials = s.credentials) (hcommits : t.commits = s.commits)
    (haccepted : t.accepted = s.accepted)
    (hphase : ∀ i c v, t.phase i = .verified c v → s.phase i = .verified c v) :
    Inv requests credentials t := by
  have hcount (k : Nat) : t.signCount k = s.signCount k := by rw [State.signCount, hcredentials]; rfl
  refine ⟨htally, ⟨fun i c v h => ?_, fun a ha => ?_, fun k => ?_, fun k => ?_⟩, ?_, ?_,
    htally.accepted_once⟩
  · have hv := H.counts.verified i c v (hphase i c v h)
    exact ⟨hv.signed, hv.advanced, hcredentials ▸ hv.registered, hv.started⟩
  · rw [hcount]
    exact H.counts.bounded a (haccepted ▸ ha)
  · rw [hcount]
    exact H.counts.started k
  · rw [hcount, haccepted]
    exact H.counts.source k
  · rw [hcommits]
    exact H.safe.counts
  · rw [haccepted]
    exact H.safe.counters

theorem signCount_write_self {s : State} {k : Nat} (h : (s.credentials k).isSome) (count : Nat) :
    (s.write k count).signCount k = count := by
  obtain ⟨row, hrow⟩ := Option.isSome_iff_exists.mp h
  simp [State.signCount, State.write, hrow]

theorem signCount_write_of_ne {s : State} {k j : Nat} (h : j ≠ k) (count : Nat) :
    (s.write k count).signCount j = s.signCount j := by
  simp [State.signCount, State.write, h]

theorem isSome_write {s : State} {k j : Nat} (h : (s.credentials j).isSome) (count : Nat) :
    ((s.write k count).credentials j).isSome := by
  by_cases hj : j = k
  · subst hj
    simpa [State.write] using h
  · simpa [State.write, hj] using h

theorem phase_of_update {f : Nat → Phase} {i : Nat} {p : Phase} (hp : ∀ c v, p ≠ .verified c v)
    {j c v : Nat} (h : update f i p j = .verified c v) : f j = .verified c v := by
  by_cases hj : j = i
  · subst hj
    rw [update_self] at h
    exact absurd h (hp c v)
  · rwa [update_of_ne hj] at h

theorem Inv.reject {s : State} (H : Inv requests credentials s) (i : Nat) :
    Inv requests credentials (s.reject requests i) :=
  H.frame (H.tally.leave rfl nofun) rfl rfl rfl
    fun _ _ _ => phase_of_update (p := .rejected) fun _ _ => nofun

/-- The commit of a request that has not been overtaken. -/
theorem Inv.accept {s : State} (H : Inv requests credentials s) {i c v : Nat}
    (hi : s.phase i = .verified c v) (hlate : ¬ Overtaken requests s (.commit i)) :
    Inv requests credentials (s.accept requests i v) := by
  have V := H.counts.verified i c v hi
  have htally := H.tally.accept (i := i) (a := (requests i).assertion)
    (by rw [hi, V.signed]; rfl)
  have hphase {j c v : Nat} (h : update s.phase i .accepted j = .verified c v) :
      s.phase j = .verified c v :=
    phase_of_update (p := .accepted) (fun _ _ => nofun) h
  rw [State.accept]
  split
  · -- Both counts are zero, and nothing is written.
    have hzero : (requests i).assertion.newSignCount = 0 := by
      rcases V.advanced with h | h <;> omega
    refine ⟨htally, ⟨fun j c v h => ?_, ?_, H.counts.started, fun k => ?_⟩, H.safe.counts, ?_,
      htally.accepted_once⟩
    · have hv := H.counts.verified j c v (hphase h)
      exact ⟨hv.signed, hv.advanced, hv.registered, hv.started⟩
    · exact List.forall_mem_cons.mpr ⟨hzero ▸ Nat.zero_le _, H.counts.bounded⟩
    · exact (H.counts.source k).imp_right fun ⟨a, ha, h⟩ => ⟨a, List.mem_cons_of_mem _ ha, h⟩
    · exact List.pairwise_cons.mpr ⟨fun _ _ _ _ => hzero, H.safe.counters⟩
  · have hread : v < (requests i).assertion.newSignCount := by omega
    have hmax : max v (requests i).assertion.newSignCount = (requests i).assertion.newSignCount :=
      Nat.max_eq_right (Nat.le_of_lt hread)
    have hlt : s.signCount (requests i).assertion.credentialId <
        (requests i).assertion.newSignCount :=
      Nat.lt_of_not_le fun h => hlate ⟨i, c, v, rfl, hi, hread, h⟩
    have hself := signCount_write_self V.registered (requests i).assertion.newSignCount
    rw [hmax]
    refine ⟨htally, ⟨fun j c v h => ?_, ?_, fun k => ?_, fun k => ?_⟩, ?_, ?_, htally.accepted_once⟩
    · have hv := H.counts.verified j c v (hphase h)
      exact ⟨hv.signed, hv.advanced, isSome_write hv.registered _, hv.started⟩
    · refine List.forall_mem_cons.mpr ⟨Nat.le_of_eq hself.symm, fun a ha => ?_⟩
      have hbounded := H.counts.bounded a ha
      by_cases hk : a.credentialId = (requests i).assertion.credentialId
      · rw [hk] at hbounded ⊢
        exact Nat.le_trans (Nat.le_of_lt (Nat.lt_of_le_of_lt hbounded hlt)) (Nat.le_of_eq hself.symm)
      · exact Nat.le_trans hbounded (Nat.le_of_eq (signCount_write_of_ne hk _).symm)
    · by_cases hk : k = (requests i).assertion.credentialId
      · subst hk
        exact Nat.le_trans (H.counts.started _)
          (Nat.le_trans (Nat.le_of_lt hlt) (Nat.le_of_eq hself.symm))
      · exact Nat.le_trans (H.counts.started k) (Nat.le_of_eq (signCount_write_of_ne hk _).symm)
    · by_cases hk : k = (requests i).assertion.credentialId
      · subst hk
        exact .inr ⟨_, List.mem_cons_self, rfl, hself.symm⟩
      · have hsame := signCount_write_of_ne (s := s) hk (requests i).assertion.newSignCount
        rcases H.counts.source k with h | ⟨a, ha, hak, h⟩
        · exact .inl (hsame.trans h)
        · exact .inr ⟨a, List.mem_cons_of_mem _ ha, hak, h.trans hsame.symm⟩
    · exact List.forall_mem_cons.mpr ⟨Nat.le_of_lt hlt, H.safe.counts⟩
    · refine List.pairwise_cons.mpr ⟨fun a ha hk hn => ?_, H.safe.counters⟩
      have hbounded := H.counts.bounded a ha
      rw [← hk] at hbounded
      omega

/-- An overtaken commit lets a count decrease or accepts a counter again. -/
theorem Inv.not_safe {s : State} (H : Inv requests credentials s) {i c v : Nat}
    (hi : s.phase i = .verified c v) (hlate : Overtaken requests s (.commit i)) :
    ¬ Safe (s.accept requests i v) := by
  obtain ⟨j, c', v', hcommit, hphase, hread, hcount⟩ := hlate
  cases hcommit
  cases hi.symm.trans hphase
  have hmax : max v (requests i).assertion.newSignCount = (requests i).assertion.newSignCount :=
    Nat.max_eq_right (Nat.le_of_lt hread)
  intro hsafe
  rw [State.accept, hmax, if_neg (Nat.ne_of_gt hread)] at hsafe
  have hbefore : s.signCount (requests i).assertion.credentialId ≤
      (requests i).assertion.newSignCount := hsafe.counts _ List.mem_cons_self
  have heq := Nat.le_antisymm hbefore hcount
  rcases H.counts.source (requests i).assertion.credentialId with h | ⟨a, ha, hk, hn⟩
  · have hstarted := (H.counts.verified i c v hi).started
    omega
  · have hzero := (List.pairwise_cons.mp hsafe.counters).1 a ha hk.symm (by rw [hn, heq])
    omega

/-! ## Runs -/

/-- A request reads the count of its credential. -/
theorem Inv.read {s : State} (H : Inv requests credentials s) {i c : Nat} {row : Credential}
    (hi : s.phase i = .consumed c)
    (hrow : s.credentials (requests i).assertion.credentialId = some row)
    (hsigned : (requests i).assertion.challenge = c)
    (hadvanced : ¬(row.signCount ≠ 0 ∧ (requests i).assertion.newSignCount ≤ row.signCount)) :
    Inv requests credentials (s.setPhase i (.verified c row.signCount)) := by
  have htally := H.tally.keep (i := i) (p := .verified c row.signCount) (by rw [hi]; rfl) nofun
  have hcount : s.signCount (requests i).assertion.credentialId = row.signCount := by
    simp [State.signCount, hrow]
  refine ⟨htally, ⟨fun j c' v h => ?_, H.counts.bounded, H.counts.started, H.counts.source⟩,
    H.safe.counts, H.safe.counters, H.safe.challenges⟩
  change update s.phase i (.verified c row.signCount) j = _ at h
  by_cases hj : j = i
  · subst hj
    rw [update_self] at h
    cases h
    refine ⟨hsigned, by omega, Option.isSome_iff_exists.mpr ⟨row, hrow⟩, ?_⟩
    rw [← hcount]
    exact H.counts.started _
  · rw [update_of_ne hj] at h
    have hv := H.counts.verified j c' v h
    exact ⟨hv.signed, hv.advanced, hv.registered, hv.started⟩

theorem Inv.step {s t : State} {a : Action} (H : Inv requests credentials s)
    (h : step requests s a = some t) (hlate : ¬ Overtaken requests s a) :
    Inv requests credentials t := by
  cases a with
  | create key now =>
    rw [Passkey.step] at h
    split at h
    · rename_i hlock
      cases h
      have hfree : Tally s.challenges s.issued none s.phase s.accepted := hlock ▸ H.tally
      have htally := hfree.create (fun row => ¬(row.expiresAt < now ∨ row.key = key)) key
        (now + challengeTtl)
      rw [← hlock] at htally
      exact H.frame htally rfl rfl rfl fun _ _ _ h => h
    · cases h
  | enter i =>
    rw [Passkey.step] at h
    split at h
    · cases h
      exact H.frame (H.tally.leave rfl nofun) rfl rfl rfl
        fun _ _ _ => phase_of_update (p := .entered) fun _ _ => nofun
    · cases h
  | select i =>
    rw [Passkey.step] at h
    split at h
    · rename_i hguard
      split at h
      · cases h
        exact H.reject i
      · rename_i row hfind
        cases h
        exact H.frame ((hguard.2 ▸ H.tally).select (List.mem_reverse.mp (List.mem_of_find?_eq_some hfind)))
          rfl rfl rfl fun _ _ _ => phase_of_update (p := .selected row) fun _ _ => nofun
    · cases h
  | consume i now =>
    rw [Passkey.step] at h
    split at h
    · rename_i row hi
      dsimp only at h
      split at h
      · cases h
        exact H.frame (H.tally.release (p := .rejected) hi rfl nofun List.filter_sublist) rfl rfl rfl
          fun _ _ _ => phase_of_update (p := .rejected) fun _ _ => nofun
      · cases h
        exact H.frame (H.tally.consume hi) rfl rfl rfl
          fun _ _ _ => phase_of_update (p := .consumed row.challenge) fun _ _ => nofun
    · cases h
  | read i =>
    rw [Passkey.step] at h
    split at h
    · rename_i c hi
      dsimp only at h
      split at h
      · cases h
        exact H.reject i
      · rename_i row hrow
        split at h
        · rename_i hchecks
          cases h
          exact H.read hi hrow hchecks.2.1 hchecks.2.2
        · cases h
          exact H.reject i
    · cases h
  | commit i =>
    rw [Passkey.step] at h
    split at h
    · rename_i c v hi
      cases h
      exact H.accept hi hlate
    · cases h
  | fail i =>
    rw [Passkey.step] at h
    split at h
    · cases h
      exact H.reject i
    · cases h
      exact H.reject i
    · cases h
      exact H.reject i
    · rename_i row hi
      cases h
      exact H.frame (H.tally.release (p := .rejected) hi rfl nofun (List.Sublist.refl _)) rfl rfl rfl
        fun _ _ _ => phase_of_update (p := .rejected) fun _ _ => nofun
    · cases h

theorem Inv.init (credentials : Nat → Option Credential) :
    Inv requests credentials (.init credentials) where
  tally := ⟨.nil, fun _ h => absurd h List.not_mem_nil, nofun, nofun, nofun,
    fun _ h => absurd h List.not_mem_nil, .nil⟩
  counts := ⟨nofun, fun _ h => absurd h List.not_mem_nil, fun _ => Nat.le_refl _, fun _ => .inl rfl⟩
  safe := ⟨fun _ h => absurd h List.not_mem_nil, .nil, .nil⟩

theorem safe_run_iff (as : List Action) (s : State) :
    ((system requests credentials).restrict fun _ _ t => Safe t).Run (.init credentials) as s ↔
      ((system requests credentials).restrict fun s a _ => ¬ Overtaken requests s a).Run
        (.init credentials) as s := by
  constructor
  · intro h
    apply h.restrict_of (P := Inv requests credentials) (.init credentials)
    intro x a y hx hxy
    have hlate : ¬ Overtaken requests x a := by
      intro hover
      have hover' := hover
      obtain ⟨i, c, v, rfl, hi, _, _⟩ := hover
      have hstep : step requests x (.commit i) = some (x.accept requests i v) := by
        rw [step, hi]
      cases hstep.symm.trans hxy.2
      exact hx.not_safe hi hover' hxy.1
    exact ⟨hlate, hxy.2, hx.step hxy.2 hlate⟩
  · intro h
    apply h.restrict_of (P := Inv requests credentials) (.init credentials)
    intro x a y hx hxy
    have hy := hx.step hxy.2 hxy.1
    exact ⟨hy.safe, hxy.2, hy⟩

/-! ## From the query to the commit -/

/-- The request is between the lock of its route and its end. -/
def Phase.Inside : Phase → Prop
  | .waiting | .accepted | .rejected => False
  | .entered | .selected _ | .consumed _ | .verified .. => True

/-- The locks of the routes: who is inside holds the lock. -/
def Locked (requests : Nat → Request) (s : State) : Prop :=
  ∀ i, (s.phase i).Inside → s.lock (requests i).route = some i

theorem Locked.unique {s : State} (H : Locked requests s) {i j : Nat} (hi : (s.phase i).Inside)
    (hj : (s.phase j).Inside) (hroute : (requests j).route = (requests i).route) : j = i :=
  Option.some.inj ((H j hj).symm.trans (hroute ▸ H i hi))

/-- A request that is inside goes on inside. -/
theorem Locked.goOn {s : State} (H : Locked requests s) {i : Nat} (hi : (s.phase i).Inside)
    {t : State} {p : Phase} (hphase : t.phase = update s.phase i p) (hlock : t.lock = s.lock) :
    Locked requests t := by
  intro j hj
  rw [hlock]
  by_cases hji : j = i
  · subst hji
    exact H j hi
  · rw [hphase, update_of_ne hji] at hj
    exact H j hj

/-- A request that is inside leaves. -/
theorem Locked.leave {s : State} (H : Locked requests s) {i : Nat} (hi : (s.phase i).Inside)
    {t : State} {p : Phase} (hphase : t.phase = update s.phase i p) (hp : ¬ p.Inside)
    (hlock : t.lock = update s.lock (requests i).route none) : Locked requests t := by
  intro j hj
  rw [hphase] at hj
  by_cases hji : j = i
  · subst hji
    rw [update_self] at hj
    exact absurd hj hp
  · rw [update_of_ne hji] at hj
    have hne : (requests j).route ≠ (requests i).route := fun hroute => hji (H.unique hi hj hroute)
    rw [hlock, update_of_ne hne]
    exact H j hj

theorem Locked.enter {s : State} (H : Locked requests s) {i : Nat}
    (hfree : s.lock (requests i).route = none) :
    Locked requests ((s.setPhase i .entered).setLock (requests i).route (some i)) := by
  intro j hj
  change update s.lock (requests i).route (some i) (requests j).route = some j
  change (update s.phase i .entered j).Inside at hj
  by_cases hji : j = i
  · subst hji
    exact update_self ..
  · rw [update_of_ne hji] at hj
    have hheld := H j hj
    have hne : (requests j).route ≠ (requests i).route := by
      intro hroute
      rw [hroute, hfree] at hheld
      cases hheld
    rw [update_of_ne hne]
    exact hheld

theorem accept_phase (s : State) (i v : Nat) :
    (s.accept requests i v).phase = update s.phase i .accepted := by
  rw [State.accept]
  split <;> rfl

theorem accept_lock (s : State) (i v : Nat) :
    (s.accept requests i v).lock = update s.lock (requests i).route none := by
  rw [State.accept]
  split <;> rfl

/-- What a step does to the phases, the locks of the routes and the counts. -/
inductive Turn (requests : Nat → Request) (s : State) (a : Action) (t : State) : Prop
  | create (hphase : t.phase = s.phase) (hlock : t.lock = s.lock)
    (hcredentials : t.credentials = s.credentials) (haccepted : t.accepted = s.accepted)
  | enter {i : Nat} (hfree : s.lock (requests i).route = none)
    (ht : t = (s.setPhase i .entered).setLock (requests i).route (some i))
  | goOn {i : Nat} {p : Phase} (hi : (s.phase i).Inside) (hphase : t.phase = update s.phase i p)
    (hlock : t.lock = s.lock) (hcredentials : t.credentials = s.credentials)
    (haccepted : t.accepted = s.accepted)
    (hread : ∀ c v, p = .verified c v →
      a = .read i ∧ v = s.signCount (requests i).assertion.credentialId)
  | leave {i : Nat} {p : Phase} (hi : (s.phase i).Inside) (hphase : t.phase = update s.phase i p)
    (hp : ¬ p.Inside) (hlock : t.lock = update s.lock (requests i).route none)
    (hcredentials : t.credentials = s.credentials) (haccepted : t.accepted = s.accepted)
  | accept {i c v : Nat} (ha : a = .commit i) (hi : s.phase i = .verified c v)
    (ht : t = s.accept requests i v)

theorem inside_of_eq {s : State} {i : Nat} {p : Phase} (h : s.phase i = p) (hp : p.Inside) :
    (s.phase i).Inside := h ▸ hp

theorem commit_eq_some {s t : State} {i : Nat} (h : step requests s (.commit i) = some t) :
    ∃ c v, s.phase i = .verified c v ∧ t = s.accept requests i v := by
  rw [step] at h
  split at h
  · rename_i hphase
    cases h
    exact ⟨_, _, hphase, rfl⟩
  · cases h

theorem step_turn {s t : State} {a : Action} (h : step requests s a = some t) :
    Turn requests s a t := by
  cases a with
  | create key now =>
    rw [step] at h
    split at h
    · cases h
      exact .create rfl rfl rfl rfl
    · cases h
  | enter i =>
    rw [step] at h
    split at h
    · rename_i hguard
      cases h
      exact .enter hguard.2 rfl
    · cases h
  | select i =>
    rw [step] at h
    split at h
    · rename_i hguard
      have hi := inside_of_eq hguard.1 trivial
      split at h
      · cases h
        exact .leave hi rfl id rfl rfl rfl
      · cases h
        exact .goOn hi rfl rfl rfl rfl fun _ _ => nofun
    · cases h
  | consume i now =>
    rw [step] at h
    split at h
    · rename_i hphase
      have hi := inside_of_eq hphase trivial
      dsimp only at h
      split at h
      · cases h
        exact .leave hi rfl id rfl rfl rfl
      · cases h
        exact .goOn hi rfl rfl rfl rfl fun _ _ => nofun
    · cases h
  | read i =>
    rw [step] at h
    split at h
    · rename_i hphase
      have hi := inside_of_eq hphase trivial
      dsimp only at h
      split at h
      · cases h
        exact .leave hi rfl id rfl rfl rfl
      · rename_i row hrow
        split at h
        · cases h
          refine .goOn hi rfl rfl rfl rfl fun c v hv => ⟨rfl, ?_⟩
          cases hv
          rw [State.signCount, hrow]
          rfl
        · cases h
          exact .leave hi rfl id rfl rfl rfl
    · cases h
  | commit i =>
    obtain ⟨c, v, hphase, rfl⟩ := commit_eq_some h
    exact .accept rfl hphase rfl
  | fail i =>
    rw [step] at h
    split at h <;> rename_i hphase
    case h_5 => cases h
    all_goals
      have hi := inside_of_eq hphase trivial
      cases h
      exact .leave hi rfl id rfl rfl rfl

theorem Locked.step {s t : State} {a : Action} (H : Locked requests s)
    (h : step requests s a = some t) : Locked requests t := by
  cases step_turn h with
  | create hphase hlock =>
    intro j hj
    rw [hlock]
    exact H j (hphase ▸ hj)
  | enter hfree ht => exact ht ▸ H.enter hfree
  | goOn hi hphase hlock => exact H.goOn hi hphase hlock
  | leave hi hphase hp hlock => exact H.leave hi hphase hp hlock
  | @accept i c v _ hi ht =>
    subst ht
    exact H.leave (inside_of_eq hi trivial) (accept_phase s i v) id (accept_lock s i v)

theorem signCount_write_le (s : State) (k count : Nat) : (s.write k count).signCount k ≤ count := by
  cases hrow : s.credentials k with
  | none => simp [State.signCount, State.write, hrow]
  | some row => simp [State.signCount, State.write, hrow]

/-- A request comes to have read a count by its query. -/
theorem read_of_verified {s t : State} {a : Action} (h : step requests s a = some t) {i c v : Nat}
    (hi : t.phase i = .verified c v) :
    s.phase i = .verified c v ∨ a = .read i ∧ v = s.signCount (requests i).assertion.credentialId := by
  have hother {j : Nat} {p : Phase} (hphase : t.phase = update s.phase j p)
      (hp : ∀ c v, p ≠ .verified c v) : s.phase i = .verified c v :=
    phase_of_update hp (hphase ▸ hi)
  cases step_turn h with
  | create hphase => exact .inl (hphase ▸ hi)
  | @enter j hfree ht =>
    have hphase : t.phase = update s.phase j .entered := by
      rw [ht]
      rfl
    exact .inl (hother hphase fun _ _ => nofun)
  | @goOn j p _ hphase _ _ _ hread =>
    rw [hphase] at hi
    by_cases hij : i = j
    · subst hij
      rw [update_self] at hi
      exact .inr (hread c v hi)
    · rw [update_of_ne hij] at hi
      exact .inl hi
  | leave _ hphase hp =>
    exact .inl (hother hphase fun c v hv => hp (hv ▸ trivial))
  | @accept j c v _ _ ht =>
    have hphase : t.phase = update s.phase j .accepted := ht ▸ accept_phase s j v
    exact .inl (hother hphase fun _ _ => nofun)

/-- A count changes by a commit, and to no more than the counter of that. -/
theorem signCount_cases {s t : State} {a : Action} (h : step requests s a = some t) (k : Nat) :
    t.signCount k = s.signCount k ∨
      ∃ j c v, a = .commit j ∧ s.phase j = .verified c v ∧
        (requests j).assertion.credentialId = k ∧
        t.signCount k ≤ (requests j).assertion.newSignCount := by
  have hsame (hcredentials : t.credentials = s.credentials) : t.signCount k = s.signCount k := by
    rw [State.signCount, hcredentials]
    rfl
  cases step_turn h with
  | create _ _ hcredentials => exact .inl (hsame hcredentials)
  | enter hfree ht =>
    subst ht
    exact .inl rfl
  | goOn _ _ _ hcredentials => exact .inl (hsame hcredentials)
  | leave _ _ _ _ hcredentials => exact .inl (hsame hcredentials)
  | @accept j c v ha hj ht =>
    subst ht
    rw [State.accept]
    split
    · exact .inl rfl
    · rename_i hchanged
      by_cases hk : k = (requests j).assertion.credentialId
      · subst hk
        refine .inr ⟨j, c, v, ha, hj, rfl, ?_⟩
        have hmax : max v (requests j).assertion.newSignCount = (requests j).assertion.newSignCount :=
          Nat.max_eq_right (by omega)
        rw [hmax]
        exact signCount_write_le s _ _
      · exact .inl (signCount_write_of_ne hk _)

/-- How far the count has come since a request has read it: only the other route has raised it. -/
def ReadIn (requests : Nat → Request) (as : List Action) (s : State) (i v : Nat) : Prop :=
  ∃ before between, as = before ++ .read i :: between ∧
    ∀ n, v < n → n ≤ s.signCount (requests i).assertion.credentialId →
      ∃ j, .commit j ∈ between ∧ (requests j).route ≠ (requests i).route ∧
        (requests j).assertion.credentialId = (requests i).assertion.credentialId ∧
        n ≤ (requests j).assertion.newSignCount

/-- What the history says of the locks and of the counts that have been read. -/
structure Traced (requests : Nat → Request) (as : List Action) (s : State) : Prop where
  locked : Locked requests s
  read : ∀ i c v, s.phase i = .verified c v → ReadIn requests as s i v

theorem ReadIn.step {as : List Action} {s t : State} {a : Action} {i c v : Nat}
    (H : ReadIn requests as s i v) (hlocked : Locked requests s) (hi : s.phase i = .verified c v)
    (hstays : t.phase i = .verified c v) (h : step requests s a = some t) :
    ReadIn requests (as ++ [a]) t i v := by
  obtain ⟨before, between, rfl, hbetween⟩ := H
  refine ⟨before, between ++ [a], List.append_assoc _ _ _, fun n hn hle => ?_⟩
  rcases signCount_cases h (requests i).assertion.credentialId with
    hsame | ⟨j, c', v', rfl, hj, hcredential, hcount⟩
  · obtain ⟨j, hj, hovertakes⟩ := hbetween n hn (hsame ▸ hle)
    exact ⟨j, List.mem_append_left _ hj, hovertakes⟩
  · refine ⟨j, List.mem_append_right _ List.mem_cons_self, fun hroute => ?_, hcredential,
      Nat.le_trans hle hcount⟩
    -- The commit of the same route would be the request's own.
    obtain rfl := hlocked.unique (inside_of_eq hi trivial) (inside_of_eq hj trivial) hroute
    obtain ⟨c, v, -, rfl⟩ := commit_eq_some h
    rw [accept_phase, update_self] at hstays
    cases hstays

theorem Traced.step {as : List Action} {s t : State} {a : Action} (H : Traced requests as s)
    (h : step requests s a = some t) : Traced requests (as ++ [a]) t := by
  refine ⟨H.locked.step h, fun i c v hi => ?_⟩
  rcases read_of_verified h hi with hsi | ⟨rfl, rfl⟩
  · exact (H.read i c v hsi).step H.locked hsi hi h
  · refine ⟨as, [], rfl, fun n hn hle => ?_⟩
    rcases signCount_cases h (requests i).assertion.credentialId with hsame | ⟨j, c, v, ha, -⟩
    · rw [hsame] at hle
      exact absurd hle (Nat.not_le_of_lt hn)
    · cases ha

/-- In a run without crossing no commit is overtaken. -/
theorem Traced.not_overtaken {as : List Action} {s : State} {a : Action} (H : Traced requests as s)
    (hcrossed : ¬ Crossed requests (as ++ [a])) : ¬ Overtaken requests s a := by
  rintro ⟨i, c, v, rfl, hi, hread, hcount⟩
  obtain ⟨before, between, rfl, hbetween⟩ := H.read i c v hi
  obtain ⟨j, hj, hroute, hcredential, hle⟩ := hbetween _ hread hcount
  refine hcrossed ⟨i, j, before, between, [], ?_, hj, hroute, hcredential, ?_, hle⟩
  · rw [List.append_assoc, List.cons_append]
  · exact Nat.lt_of_le_of_lt (Nat.zero_le v) hread

theorem Crossed.append {as : List Action} (h : Crossed requests as) (bs : List Action) :
    Crossed requests (as ++ bs) := by
  obtain ⟨i, j, before, between, after, rfl, hj⟩ := h
  refine ⟨i, j, before, between, after ++ bs, ?_, hj⟩
  simp only [List.append_assoc, List.cons_append]

theorem uncrossed_run {as : List Action} {s : State}
    (h : (system requests credentials).Run (.init credentials) as s)
    (hcrossed : ¬ Crossed requests as) :
    Traced requests as s ∧
      ((system requests credentials).restrict fun s a _ => ¬ Overtaken requests s a).Run
        (.init credentials) as s := by
  induction h with
  | refl => exact ⟨⟨nofun, nofun⟩, .refl⟩
  | @snoc as t a u hrun hstep ih =>
    obtain ⟨htraced, hrest⟩ := ih fun h => hcrossed (h.append [a])
    exact ⟨htraced.step hstep, hrest.snoc ⟨htraced.not_overtaken hcrossed, hstep⟩⟩

theorem accepted_subset {s t : State} {a : Action} (h : step requests s a = some t) :
    s.accepted ⊆ t.accepted := by
  cases step_turn h with
  | accept _ _ ht =>
    subst ht
    rw [State.accept]
    split <;> exact List.subset_cons_self _ _
  | enter _ ht => exact ht ▸ List.Subset.refl _
  | create _ _ _ haccepted => exact haccepted ▸ List.Subset.refl _
  | goOn _ _ _ _ haccepted => exact haccepted ▸ List.Subset.refl _
  | leave _ _ _ _ _ haccepted => exact haccepted ▸ List.Subset.refl _

/-- What has been committed is accepted. -/
theorem accepted_of_mem {as : List Action} {s : State} {j : Nat}
    (h : (system requests credentials).Run (.init credentials) as s) (hj : .commit j ∈ as) :
    (requests j).assertion ∈ s.accepted := by
  induction h with
  | refl => exact absurd hj List.not_mem_nil
  | @snoc as t a u _ hstep ih =>
    rcases List.mem_append.mp hj with hj | hj
    · exact accepted_subset hstep (ih hj)
    · obtain rfl := List.mem_singleton.mp hj
      obtain ⟨c, v, -, rfl⟩ := commit_eq_some hstep
      rw [State.accept]
      split <;> exact List.mem_cons_self

theorem not_crossed {as : List Action} {s : State}
    (h : ((system requests credentials).restrict fun s a _ => ¬ Overtaken requests s a).Run
      (.init credentials) as s) : ¬ Crossed requests as := by
  rintro ⟨i, j, before, between, after, rfl, hj, hovertakes⟩
  rw [← List.cons_append, ← List.append_assoc] at h
  obtain ⟨x, y, hx, ⟨hlate, hcommit⟩, -⟩ := h.split
  have hinv : Inv requests credentials x :=
    hx.invariant (.init credentials) fun _ _ _ hx hxy => hx.step hxy.2 hxy.1
  have haccepted := accepted_of_mem hx.of_restrict
    (List.mem_append_right before (List.mem_cons_of_mem _ hj))
  have hbounded := hinv.counts.bounded _ haccepted
  obtain ⟨c, v, hi, -⟩ := commit_eq_some hcommit
  have hadvanced := (hinv.counts.verified i c v hi).advanced
  have hpositive := hovertakes.counter.1
  have hcount : (requests i).assertion.newSignCount ≤
      x.signCount (requests i).assertion.credentialId :=
    Nat.le_trans hovertakes.counter.2 (hovertakes.credential ▸ hbounded)
  exact hlate ⟨i, c, v, rfl, hi, by omega, hcount⟩

/-- In every run: the counts do not decrease, no counter and no challenge is accepted twice, in any
state, exactly if no commit of the other route with a counter as high comes between the query and the
commit of a request. -/
theorem counters_kept_iff (requests : Nat → Request) (credentials : Nat → Option Credential)
    (as : List Action) (s : State) :
    ((system requests credentials).restrict fun _ _ t => Safe t).Run (.init credentials) as s ↔
      (system requests credentials).Run (.init credentials) as s ∧ ¬ Crossed requests as := by
  rw [safe_run_iff]
  exact ⟨fun h => ⟨h.of_restrict, not_crossed h⟩, fun h => (uncrossed_run h.1 h.2).2⟩

/-! ## A login and a step-up with one credential -/

def loginKey : Key := ⟨none, .login, "a browser session"⟩
def stepUpKey : Key := ⟨some 7, .stepUp, "an intent of user 7"⟩

/-- The assertions carry the counters 7 and 6. -/
def twoRequests : Nat → Request
  | 0 => ⟨.login, loginKey, ⟨1, 0, 7⟩⟩
  | _ => ⟨.stepUp, stepUpKey, ⟨1, 1, 6⟩⟩

def oneCredential : Nat → Option Credential := fun k => if k = 1 then some ⟨7, 5⟩ else none

/-- Both read the count 5; the login commits 7 and then the step-up commits 6. -/
def overlapping : List Action :=
  [.create loginKey 0, .create stepUpKey 0, .enter 0, .select 0, .consume 0 1, .enter 1, .select 1,
    .consume 1 1, .read 0, .read 1, .commit 0, .commit 1]

theorem count_decreases : ¬ ∀ (requests : Nat → Request) (credentials : Nat → Option Credential)
    (as : List Action) (s : State), (system requests credentials).Run (.init credentials) as s →
      Safe s := by
  intro hall
  have h : (overlapping.foldlM (step twoRequests) (.init oneCredential)).any (fun s =>
      s.commits = [⟨1, 7, 6⟩, ⟨1, 5, 7⟩]) = true := by decide
  obtain ⟨s, hs, hcommits⟩ := (Option.any_eq_true _ _).mp h
  have hrun : (system twoRequests oneCredential).Run (.init oneCredential) overlapping s :=
    System.run_of_foldlM (fun _ _ _ h => h) hs
  have hcounts := (hall _ _ _ _ hrun).counts ⟨1, 7, 6⟩
    (by rw [of_decide_eq_true hcommits]; exact List.mem_cons_self)
  exact absurd hcounts (by decide)

end WebSSH.Passkey
