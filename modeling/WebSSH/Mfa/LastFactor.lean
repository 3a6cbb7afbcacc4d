import Mathlib.Data.List.Nodup
import WebSSH.Mfa.Factors

/-!
# MFA is never without a factor

The deletions are serialized by `_factor_mutation_lock`; the other requests do not take it. As long as
no commit crosses a request that has checked a factor or the flag, each request still knows at its
commit what it has checked.
-/

namespace WebSSH.Mfa
open Lib Function

variable {requests : Nat → Request}

/-! ## Factors -/

theorem ne_nil_of_subset {α : Type} {l l' : List α} (h : l ⊆ l') (hl : l ≠ []) : l' ≠ [] :=
  have ⟨_, ha⟩ := List.exists_mem_of_ne_nil l hl
  List.ne_nil_of_mem (h ha)

namespace State

variable {s t : State}

theorem passkeysExcept_none : s.passkeysExcept none = s.passkeys :=
  List.filter_eq_self.mpr fun _ _ => decide_eq_true (by nofun)

theorem passkeysExcept_subset (h : s.passkeys ⊆ t.passkeys) (id : Option Nat) :
    s.passkeysExcept id ⊆ t.passkeysExcept id :=
  fun _ hrow => List.mem_filter.mpr ⟨h (List.mem_filter.mp hrow).1, (List.mem_filter.mp hrow).2⟩

theorem activeExcept_subset (h : s.authenticators ⊆ t.authenticators) (id : Option Nat) :
    s.activeExcept id ⊆ t.activeExcept id :=
  fun _ hrow => List.mem_filter.mpr ⟨h (List.mem_filter.mp hrow).1, (List.mem_filter.mp hrow).2⟩

/-- The active authenticators after the deletion of one. -/
theorem activeExcept_delete (s : State) (id i : Nat) :
    State.activeExcept { s.leave i .done with
      authenticators := s.authenticators.filter fun row => row.id ≠ id } none =
      s.activeExcept (some id) := by
  rw [activeExcept, activeExcept, List.filter_filter]
  refine List.filter_congr fun row _ => ?_
  simp

theorem HasFactor.mono (hs : s.HasFactor) (hpasskeys : s.passkeys ⊆ t.passkeys)
    (hauthenticators : s.authenticators ⊆ t.authenticators) : t.HasFactor :=
  hs.imp (ne_nil_of_subset hpasskeys) (ne_nil_of_subset (activeExcept_subset hauthenticators none))

end State

/-! ## Steps -/

/-- Neither the flag nor a factor has changed. -/
structure Same (s t : State) : Prop where
  mfaEnabled : t.mfaEnabled = s.mfaEnabled
  passkeys : t.passkeys = s.passkeys
  authenticators : t.authenticators = s.authenticators

namespace Same

variable {s t : State}

theorem setPhase (i : Nat) (p : Phase) : Same s (s.setPhase i p) := ⟨rfl, rfl, rfl⟩

theorem leave (i : Nat) (p : Phase) : Same s (s.leave i p) := ⟨rfl, rfl, rfl⟩

theorem acquire {i : Nat} {l : Lock} {p : Phase} (h : s.acquire i l p = some t) : Same s t := by
  rw [State.acquire] at h
  split at h
  · cases h
    exact ⟨rfl, rfl, rfl⟩
  · cases h

theorem usable (H : Same s t) : Usable t ↔ Usable s := by
  rw [Usable, Usable, State.HasFactor, State.HasFactor, State.activeExcept, State.activeExcept,
    H.mfaEnabled, H.passkeys, H.authenticators]

end Same

/-- What a commit does to the account. -/
inductive Commits (requests : Nat → Request) (s : State) (i rowid : Nat) : State → Prop
  | enable {m : Bool} (hi : requests i = .enablePasskeyMfa) (hp : s.phase i = .ready m) :
    Commits requests s i rowid { s.leave i .done with mfaEnabled := true }
  | deleteCredential {id : Nat} {m : Bool} (hi : requests i = .deleteCredential id)
    (hp : s.phase i = .ready m) :
    Commits requests s i rowid { s.leave i .done with passkeys := s.passkeysExcept (some id) }
  | deleteTotp {id : Nat} {m : Bool} (hi : requests i = .deleteTotpAuthenticator id)
    (hp : s.phase i = .ready m) :
    Commits requests s i rowid { s.leave i .done with
      authenticators := s.authenticators.filter fun row => row.id ≠ id }
  | register {m : Bool} (hi : requests i = .verifyRegistration) (hp : s.phase i = .ready m) :
    Commits requests s i rowid { s.leave i .done with passkeys := s.passkeys ++ [rowid] }
  | activate {m : Bool} (hi : requests i = .activateTotpEnrollment) (hp : s.phase i = .ready m)
    (hrow : rowid ∉ s.authenticators.map Authenticator.id) :
    Commits requests s i rowid { s.leave i .done with
      authenticators := s.authenticators ++ [⟨rowid, true⟩]
      mfaEnabled := if m then s.mfaEnabled else true }
  | disable {m : Bool} (hi : requests i = .disableAccountMfa ∨ requests i = .disableMfaAfterRecovery)
    (hp : s.phase i = .loaded m) :
    Commits requests s i rowid { s.leave i .done with
      authenticators := []
      mfaEnabled := if m then false else s.mfaEnabled }

/-- A step that is no commit: the request goes on, and no lock of another request is touched. -/
structure Moves (s : State) (i : Nat) (t : State) : Prop where
  same : Same s t
  phase : ∃ p, t.phase = update s.phase i p
  lock : ∀ j l, j ≠ i → s.lock l = some j → t.lock l = some j

namespace Moves

variable {s t : State} {i : Nat}

theorem setPhase (q : Phase) : Moves s i (s.setPhase i q) :=
  ⟨.setPhase i q, ⟨q, rfl⟩, fun _ _ _ hl => hl⟩

theorem leave (q : Phase) : Moves s i (s.leave i q) := by
  refine ⟨.leave i q, ⟨q, rfl⟩, fun j l hj hl => ?_⟩
  change (if s.lock l = some i then none else s.lock l) = some j
  rw [hl, if_neg fun h => hj (Option.some.inj h)]

theorem acquire {l : Lock} {q : Phase} (ht : s.acquire i l q = some t) : Moves s i t := by
  rw [State.acquire] at ht
  split at ht
  · rename_i hfree
    cases ht
    refine ⟨⟨rfl, rfl, rfl⟩, ⟨q, rfl⟩, fun j l' _ hl => ?_⟩
    have hne : l' ≠ l := by
      rintro rfl
      rw [hfree] at hl
      cases hl
    exact (update_of_ne hne _ _).trans hl
  · cases ht

/-- A check passes or not. -/
theorem check {c : Prop} [Decidable c] {q : Phase}
    (ht : some (if c then s.leave i .refused else s.setPhase i q) = some t) : Moves s i t := by
  cases ht
  split
  · exact .leave _
  · exact .setPhase _

/-- The row of the request is there or not. -/
theorem find {c : Prop} [Decidable c] {q : Phase}
    (ht : some (if c then s.setPhase i q else s.leave i .refused) = some t) : Moves s i t := by
  cases ht
  split
  · exact .setPhase _
  · exact .leave _

end Moves

/-- A step is a commit, or changes neither the flag nor a factor. -/
theorem advance_cases {s t : State} {i rowid : Nat} (h : advance requests s i rowid = some t) :
    Moves s i t ∨ Commits requests s i rowid t := by
  rw [advance] at h
  split at h
  · exact .inl (.acquire h)
  · exact .inl (.acquire h)
  · exact .inl (.check h)
  · exact .inl (.check h)
  · rename_i hi hp
    cases h
    exact .inr (.enable hi hp)
  · exact .inl (.acquire h)
  · exact .inl (.find h)
  · cases h
    exact .inl (.setPhase _)
  · cases h
    exact .inl (.setPhase _)
  · exact .inl (.check h)
  · rename_i hi hp
    cases h
    exact .inr (.deleteCredential hi hp)
  · exact .inl (.acquire h)
  · exact .inl (.find h)
  · cases h
    exact .inl (.setPhase _)
  · cases h
    exact .inl (.setPhase _)
  · exact .inl (.check h)
  · rename_i hi hp
    cases h
    exact .inr (.deleteTotp hi hp)
  · exact .inl (.acquire h)
  · exact .inl (.check h)
  · rename_i hi hp
    split at h
    · cases h
    · cases h
      exact .inr (.register hi hp)
  · cases h
    exact .inl (.setPhase _)
  · exact .inl (.acquire h)
  · exact .inl (.acquire h)
  · exact .inl (.check h)
  · rename_i hi hp
    split at h
    · cases h
    · rename_i hrow
      cases h
      exact .inr (.activate hi hp hrow)
  · exact .inl (.find h)
  · cases h
    exact .inl (.setPhase _)
  · cases h
    exact .inl (.setPhase _)
  · rename_i hi hp
    cases h
    exact .inr (.disable (.inl hi) hp)
  · rename_i hi hp
    cases h
    exact .inr (.disable (.inr hi) hp)
  · cases h

/-! ## Deletions -/

/-- The passkey and the authenticator that a deletion leaves out of its count. -/
def Request.target? : Request → Option (Option Nat × Option Nat)
  | .deleteCredential id => some (some id, none)
  | .deleteTotpAuthenticator id => some (none, some id)
  | _ => none

/-- A factor is left besides the one that is to be deleted. -/
def State.HasOther (s : State) (passkey totp : Option Nat) : Prop :=
  s.passkeysExcept passkey ≠ [] ∨ s.activeExcept totp ≠ []

theorem State.HasOther.mono {s t : State} {passkey totp : Option Nat} (h : s.HasOther passkey totp)
    (hpasskeys : s.passkeys ⊆ t.passkeys) (hauthenticators : s.authenticators ⊆ t.authenticators) :
    t.HasOther passkey totp :=
  h.imp (ne_nil_of_subset (passkeysExcept_subset hpasskeys passkey))
    (ne_nil_of_subset (activeExcept_subset hauthenticators totp))

/-- What a deletion knows, under `_factor_mutation_lock`. -/
def Knows (s : State) (i : Nat) (passkey totp : Option Nat) : Phase → Prop
  | .waiting | .done | .refused => True
  | .locked _ | .found => s.lock .factor = some i
  | .read mfaEnabled => s.lock .factor = some i ∧
    (mfaEnabled = false → s.mfaEnabled = true → s.HasOther passkey totp)
  | .counted mfaEnabled passkeys => s.lock .factor = some i ∧
    (mfaEnabled = false → s.mfaEnabled = true → s.HasOther passkey totp) ∧
    (passkeys ≠ 0 → s.passkeysExcept passkey ≠ [])
  | .ready _ => s.lock .factor = some i ∧ (s.mfaEnabled = true → s.HasOther passkey totp)
  | .loaded _ | .allowed | .entered _ => False

namespace Knows

variable {s t : State} {i : Nat} {passkey totp : Option Nat} {p : Phase}

/-- Without the lock nothing needs to be known. -/
theorem idle (H : Knows s i passkey totp p) (h : s.lock .factor ≠ some i) :
    Knows t i passkey totp p := by
  cases p with
  | waiting => trivial
  | done => trivial
  | refused => trivial
  | locked => exact absurd H h
  | found => exact absurd H h
  | read => exact absurd H.1 h
  | counted => exact absurd H.1 h
  | ready => exact absurd H.1 h
  | loaded => exact H.elim
  | allowed => exact H.elim
  | entered => exact H.elim

/-- What is known stays so while no passkey is removed, and another factor is left where MFA is on. -/
theorem later (H : Knows s i passkey totp p) (hlock : s.lock .factor = some i → t.lock .factor = some i)
    (hpasskeys : s.passkeys ⊆ t.passkeys)
    (hother : p.Reading → t.mfaEnabled = true → (s.mfaEnabled = true → s.HasOther passkey totp) →
      t.HasOther passkey totp) : Knows t i passkey totp p := by
  cases p with
  | waiting => trivial
  | done => trivial
  | refused => trivial
  | locked => exact hlock H
  | found => exact hlock H
  | read => exact ⟨hlock H.1, fun hm ht => hother trivial ht (H.2 hm)⟩
  | counted =>
    obtain ⟨hl, hread, hcount⟩ := H
    exact ⟨hlock hl, fun hm ht => hother trivial ht (hread hm),
      fun hn => ne_nil_of_subset (State.passkeysExcept_subset hpasskeys passkey) (hcount hn)⟩
  | ready => exact ⟨hlock H.1, fun ht => hother trivial ht H.2⟩
  | loaded => exact H.elim
  | allowed => exact H.elim
  | entered => exact H.elim

theorem same (H : Knows s i passkey totp p) (h : Same s t)
    (hlock : s.lock .factor = some i → t.lock .factor = some i) : Knows t i passkey totp p :=
  H.later hlock (h.passkeys ▸ List.Subset.refl _) fun _ hm hs =>
    (hs (h.mfaEnabled ▸ hm)).mono (h.passkeys ▸ List.Subset.refl _)
      (h.authenticators ▸ List.Subset.refl _)

end Knows

namespace Knows

variable {s t : State} {i : Nat} {passkey totp : Option Nat}

theorem acquire {m : Bool} (h : s.acquire i .factor (.locked m) = some t) :
    Knows t i passkey totp (t.phase i) := by
  rw [State.acquire] at h
  split at h
  · cases h
    change Knows _ i passkey totp (update s.phase i (.locked m) i)
    rw [update_self]
    exact update_self Lock.factor (some i) s.lock
  · cases h

theorem leave {p : Phase} (hp : ∀ t, Knows t i passkey totp p) :
    Knows (s.leave i p) i passkey totp ((s.leave i p).phase i) := by
  change Knows _ i passkey totp (update s.phase i p i)
  rw [update_self]
  exact hp _

theorem committed (h : t.phase i = .done) : Knows t i passkey totp (t.phase i) := by
  rw [h]
  trivial

theorem setPhase {p : Phase} (h : Knows s i passkey totp p) :
    Knows (s.setPhase i p) i passkey totp ((s.setPhase i p).phase i) := by
  change Knows _ i passkey totp (update s.phase i p i)
  rw [update_self]
  exact h.same (.setPhase i p) id

/-- The user is read. -/
theorem read (H : Knows s i passkey totp .found) :
    Knows (s.setPhase i (.read s.mfaEnabled)) i passkey totp
      ((s.setPhase i (.read s.mfaEnabled)).phase i) :=
  setPhase ⟨H, fun hoff hon => absurd (hoff.symm.trans hon) Bool.false_ne_true⟩

/-- The other passkeys are counted. -/
theorem count {m : Bool} (H : Knows s i passkey totp (.read m)) :
    Knows (s.setPhase i (.counted m (s.passkeysExcept passkey).length)) i passkey totp
      ((s.setPhase i (.counted m (s.passkeysExcept passkey).length)).phase i) :=
  setPhase ⟨H.1, H.2, fun hn => List.length_pos_iff.mp (Nat.pos_of_ne_zero hn)⟩

/-- The check passes or not. -/
theorem check {m : Bool} {n : Nat} {active : List Authenticator}
    (H : Knows s i passkey totp (.counted m n)) (hactive : active = s.activeExcept totp)
    (h : some (if m ∧ n + active.length = 0 then s.leave i .refused else s.setPhase i (.ready m)) =
      some t) :
    Knows t i passkey totp (t.phase i) := by
  cases h
  split
  · exact leave fun _ => trivial
  · rename_i hcheck
    obtain ⟨hlock, hread, hcount⟩ := H
    refine setPhase ⟨hlock, fun hon => ?_⟩
    cases m with
    | false => exact hread rfl hon
    | true =>
      cases n with
      | succ => exact .inl (hcount (Nat.succ_ne_zero _))
      | zero =>
        refine .inr fun hnone => hcheck ⟨rfl, ?_⟩
        rw [hactive, hnone, List.length_nil]

end Knows

/-- The row that the check leaves out. -/
theorem activeExcept_excluded {s : State} (h : (s.authenticators.map Authenticator.id).Nodup)
    (id : Nat) : s.activeExcept (s.excluded id) = s.activeExcept (some id) := by
  rw [State.excluded]
  split
  · rfl
  · rename_i hinactive
    refine List.filter_congr fun row hrow => ?_
    have hne (hactive : row.active = true) : row.id ≠ id := by
      rintro rfl
      have hsome : (s.authenticators.find? fun other => other.id = row.id).isSome = true :=
        List.find?_isSome.mpr ⟨row, hrow, decide_eq_true rfl⟩
      obtain ⟨other, hfind⟩ := Option.isSome_iff_exists.mp hsome
      have hid := List.find?_some hfind
      have hother : other = row := List.inj_on_of_nodup_map h (List.mem_of_find?_eq_some hfind) hrow
        (of_decide_eq_true hid)
      rw [hfind] at hinactive
      exact hinactive (hother ▸ hactive)
    cases hactive : row.active with
    | false => simp
    | true => simp [hne hactive]

/-- A deletion of a passkey goes on. -/
theorem Knows.deleteCredential {s t : State} {i rowid id : Nat}
    (hi : requests i = .deleteCredential id) (H : Knows s i (some id) none (s.phase i))
    (h : advance requests s i rowid = some t) : Knows t i (some id) none (t.phase i) := by
  rw [advance, hi] at h
  cases hp : s.phase i with
  | waiting =>
    rw [hp] at h
    exact acquire h
  | locked =>
    rw [hp] at h H
    cases h
    split
    · exact setPhase H
    · exact leave fun _ => trivial
  | found =>
    rw [hp] at h H
    cases h
    exact read H
  | read =>
    rw [hp] at h H
    cases h
    exact count H
  | counted =>
    rw [hp] at h H
    exact check H rfl h
  | ready =>
    rw [hp] at h
    cases h
    exact committed (update_self ..)
  | loaded =>
    rw [hp] at H
    exact H.elim
  | allowed =>
    rw [hp] at H
    exact H.elim
  | entered =>
    rw [hp] at H
    exact H.elim
  | done =>
    rw [hp] at h
    cases h
  | refused =>
    rw [hp] at h
    cases h

/-- A deletion of an authenticator goes on. -/
theorem Knows.deleteTotp {s t : State} {i rowid id : Nat}
    (hi : requests i = .deleteTotpAuthenticator id)
    (hids : (s.authenticators.map Authenticator.id).Nodup)
    (H : Knows s i none (some id) (s.phase i)) (h : advance requests s i rowid = some t) :
    Knows t i none (some id) (t.phase i) := by
  rw [advance, hi] at h
  cases hp : s.phase i with
  | waiting =>
    rw [hp] at h
    exact acquire h
  | locked =>
    rw [hp] at h H
    cases h
    split
    · exact setPhase H
    · exact leave fun _ => trivial
  | found =>
    rw [hp] at h H
    cases h
    exact read H
  | read =>
    rw [hp] at h H
    cases h
    exact count H
  | counted =>
    rw [hp] at h H
    exact check H (activeExcept_excluded hids id) h
  | ready =>
    rw [hp] at h
    cases h
    exact committed (update_self ..)
  | loaded =>
    rw [hp] at H
    exact H.elim
  | allowed =>
    rw [hp] at H
    exact H.elim
  | entered =>
    rw [hp] at H
    exact H.elim
  | done =>
    rw [hp] at h
    cases h
  | refused =>
    rw [hp] at h
    cases h

/-! ## The other requests -/

def Request.Disables (r : Request) : Prop := r = .disableAccountMfa ∨ r = .disableMfaAfterRecovery

theorem acquire_phase {s t : State} {i : Nat} {l : Lock} {p : Phase} (h : s.acquire i l p = some t) :
    t.phase i = p := by
  rw [State.acquire] at h
  split at h
  · cases h
    exact update_self ..
  · cases h

/-- `enable_passkey_mfa` is about to commit only after it has found a passkey. -/
theorem enable_ready {s t : State} {i rowid : Nat} {m : Bool} (hi : requests i = .enablePasskeyMfa)
    (h : advance requests s i rowid = some t) (ht : t.phase i = .ready m) : s.passkeys ≠ [] := by
  rw [advance, hi] at h
  cases hp : s.phase i with
  | waiting =>
    rw [hp] at h
    cases (acquire_phase h).symm.trans ht
  | entered =>
    rw [hp] at h
    cases (acquire_phase h).symm.trans ht
  | locked =>
    rw [hp] at h
    cases h
    split at ht
    · cases (update_self i _ s.phase).symm.trans ht
    · cases (update_self i _ s.phase).symm.trans ht
  | read =>
    rw [hp] at h
    cases h
    split at ht
    · cases (update_self i _ s.phase).symm.trans ht
    · assumption
  | ready =>
    rw [hp] at h
    cases h
    cases (update_self i _ s.phase).symm.trans ht
  | _ =>
    rw [hp] at h
    cases h

/-- A disabling request has loaded MFA off only where it was off. -/
theorem disable_loaded {s t : State} {i rowid : Nat} (hi : (requests i).Disables)
    (h : advance requests s i rowid = some t) (ht : t.phase i = .loaded false) :
    s.mfaEnabled = false := by
  have hload (hsome : s.setPhase i (.loaded s.mfaEnabled) = t) : s.mfaEnabled = false := by
    subst hsome
    exact Phase.loaded.inj ((update_self i _ s.phase).symm.trans ht)
  rw [advance] at h
  rcases hi with hi | hi
  · rw [hi] at h
    cases hp : s.phase i with
    | waiting =>
      rw [hp] at h
      cases h
      split at ht
      · cases (update_self i _ s.phase).symm.trans ht
      · cases (update_self i _ s.phase).symm.trans ht
    | allowed =>
      rw [hp] at h
      exact hload (Option.some.inj h)
    | loaded =>
      rw [hp] at h
      cases h
      cases (update_self i _ s.phase).symm.trans ht
    | _ =>
      rw [hp] at h
      cases h
  · rw [hi] at h
    cases hp : s.phase i with
    | waiting =>
      rw [hp] at h
      exact hload (Option.some.inj h)
    | loaded =>
      rw [hp] at h
      cases h
      cases (update_self i _ s.phase).symm.trans ht
    | _ =>
      rw [hp] at h
      cases h

/-- The requests know what they have checked, and MFA has a factor. -/
structure Inv (requests : Nat → Request) (s : State) : Prop where
  usable : Usable s
  ids : (s.authenticators.map Authenticator.id).Nodup
  knows : ∀ i passkey totp, (requests i).target? = some (passkey, totp) →
    Knows s i passkey totp (s.phase i)
  enables : ∀ i m, requests i = .enablePasskeyMfa → s.phase i = .ready m → s.passkeys ≠ []
  disables : ∀ i, (requests i).Disables → s.phase i = .loaded false → s.mfaEnabled = false

variable {s t : State}

/-- The commit of another request, while a deletion knows what it has checked. -/
theorem Inv.others (H : Inv requests s) {i j : Nat} {passkey totp : Option Nat}
    (hj : (requests j).target? = some (passkey, totp)) (hij : j ≠ i)
    (hphase : t.phase = update s.phase i .done)
    (h : Knows s j passkey totp (s.phase j) → Knows t j passkey totp (s.phase j)) :
    Knows t j passkey totp (t.phase j) := by
  rw [hphase, update_of_ne hij]
  exact h (H.knows j passkey totp hj)

/-- A step that is no commit, after which the request still knows what it has checked. -/
theorem Inv.moved (H : Inv requests s) {i : Nat} (hmoves : Moves s i t)
    (hknows : ∀ passkey totp, (requests i).target? = some (passkey, totp) →
      Knows s i passkey totp (s.phase i) → Knows t i passkey totp (t.phase i))
    (henables : ∀ m, requests i = .enablePasskeyMfa → t.phase i = .ready m → s.passkeys ≠ [])
    (hdisables : (requests i).Disables → t.phase i = .loaded false → s.mfaEnabled = false) :
    Inv requests t := by
  obtain ⟨p, hphase⟩ := hmoves.phase
  refine ⟨hmoves.same.usable.mpr H.usable, hmoves.same.authenticators ▸ H.ids,
    fun j passkey totp hj => ?_, fun j m hj hm => ?_, fun j hj hoff => ?_⟩
  · by_cases hij : j = i
    · subst hij
      exact hknows passkey totp hj (H.knows j passkey totp hj)
    · rw [hphase, update_of_ne hij]
      exact (H.knows j passkey totp hj).same hmoves.same (hmoves.lock j .factor hij)
  · rw [hmoves.same.passkeys]
    by_cases hij : j = i
    · subst hij
      exact henables m hj hm
    · rw [hphase, update_of_ne hij] at hm
      exact H.enables j m hj hm
  · rw [hmoves.same.mfaEnabled]
    by_cases hij : j = i
    · subst hij
      exact hdisables hj hoff
    · rw [hphase, update_of_ne hij] at hoff
      exact H.disables j hj hoff

theorem Inv.moves (H : Inv requests s) {i rowid : Nat} (hmoves : Moves s i t)
    (h : advance requests s i rowid = some t) : Inv requests t := by
  refine H.moved hmoves (fun passkey totp hi hknows => ?_) (fun m hi => enable_ready hi h)
    fun hi => disable_loaded hi h
  cases hr : requests i with
  | deleteCredential id =>
    rw [hr] at hi
    cases hi
    exact hknows.deleteCredential hr h
  | deleteTotpAuthenticator id =>
    rw [hr] at hi
    cases hi
    exact hknows.deleteTotp hr H.ids h
  | _ =>
    rw [hr] at hi
    cases hi

/-- A request that fails leaves its locks. -/
theorem Inv.fails (H : Inv requests s) (i : Nat) : Inv requests (s.leave i .refused) := by
  have hphase : (s.leave i .refused).phase i = .refused := update_self ..
  refine H.moved (.leave .refused) (fun _ _ _ _ => .leave fun _ => trivial) (fun m _ hm => ?_)
    fun _ hoff => ?_
  · cases hphase.symm.trans hm
  · cases hphase.symm.trans hoff

/-- While a deletion is about to commit, no other one holds the lock. -/
theorem Inv.idle (H : Inv requests s) {i j : Nat} {passkey totp passkey' totp' : Option Nat} {m : Bool}
    (hi : (requests i).target? = some (passkey, totp)) (hp : s.phase i = .ready m) (hij : j ≠ i)
    (hj : (requests j).target? = some (passkey', totp')) :
    Knows t j passkey' totp' (s.phase j) := by
  refine (H.knows j passkey' totp' hj).idle fun hlock => hij ?_
  have hknows := H.knows i passkey totp hi
  rw [hp] at hknows
  exact Option.some.inj (hlock.symm.trans hknows.1)

/-- What another request has checked, after a commit. -/
theorem Inv.committed (H : Inv requests s) {i : Nat} (hphase : t.phase = update s.phase i .done)
    (husable : Usable t) (hids : (t.authenticators.map Authenticator.id).Nodup)
    (hknows : ∀ j passkey totp, j ≠ i → (requests j).target? = some (passkey, totp) →
      Knows s j passkey totp (s.phase j) → Knows t j passkey totp (s.phase j))
    (henables : ∀ j m, requests j = .enablePasskeyMfa → s.phase j = .ready m → s.passkeys ≠ [] →
      t.passkeys ≠ [])
    (hdisables : ∀ j, (requests j).Disables → s.phase j = .loaded false → s.mfaEnabled = false →
      t.mfaEnabled = false) : Inv requests t := by
  have hother {j : Nat} {p : Phase} (h : t.phase j = p) (hp : p ≠ .done) : s.phase j = p := by
    rw [hphase] at h
    by_cases hij : j = i
    · subst hij
      rw [update_self] at h
      exact absurd h.symm hp
    · rwa [update_of_ne hij] at h
  refine ⟨husable, hids, fun j passkey totp hj => ?_, fun j m hj hm => ?_, fun j hj hoff => ?_⟩
  · by_cases hij : j = i
    · subst hij
      exact .committed (by rw [hphase, update_self])
    · rw [hphase, update_of_ne hij]
      exact hknows j passkey totp hij hj (H.knows j passkey totp hj)
  · have hm := hother hm nofun
    exact henables j m hj hm (H.enables j m hj hm)
  · have hoff := hother hoff nofun
    exact hdisables j hj hoff (H.disables j hj hoff)

/-- A request that is about to commit does not hold the lock of another one. -/
theorem leave_lock {i j : Nat} (hij : j ≠ i) (h : s.lock .factor = some j) :
    (s.leave i .done).lock .factor = some j :=
  (Moves.leave .done).lock j .factor hij h

theorem Inv.commits (H : Inv requests s) {i rowid : Nat} (h : Commits requests s i rowid t)
    (hcrosses : ∀ j, ¬ Crosses requests s i rowid j) : Inv requests t := by
  cases h with
  | @enable m hi hp =>
    have hpasskeys := H.enables i m hi hp
    refine H.committed rfl (fun _ => .inl hpasskeys) H.ids (fun j passkey totp hij hj hknows => ?_)
      (fun j m hj hm h => h) fun j hj hoff _ => ?_
    · refine hknows.later (leave_lock hij) (List.Subset.refl _) fun hreading _ _ => .inl ?_
      -- The passkey that was found is not the one that is about to be deleted.
      cases hr : requests j with
      | deleteCredential id =>
        rw [hr] at hj
        cases hj
        exact fun honly => hcrosses j (.enables hi hp hr hreading honly)
      | deleteTotpAuthenticator id =>
        rw [hr] at hj
        cases hj
        exact fun hnone => hpasskeys (State.passkeysExcept_none (s := s) ▸ hnone)
      | _ =>
        rw [hr] at hj
        cases hj
    · exact absurd (Crosses.disables (.inl hi) hp hj hoff) (hcrosses j)
  | @deleteCredential id m hi hp =>
    have htarget : (requests i).target? = some (some id, none) := hi ▸ rfl
    have hknows := H.knows i _ _ htarget
    rw [hp] at hknows
    refine H.committed rfl (fun hm => hknows.2 hm) H.ids
      (fun j passkey totp hij hj _ => H.idle htarget hp hij hj) (fun j m' hj hm' _ honly => ?_)
      fun j hj hoff h => h
    exact hcrosses j (.deletes hi hp honly hj hm')
  | @deleteTotp id m hi hp =>
    have htarget : (requests i).target? = some (none, some id) := hi ▸ rfl
    have hknows := H.knows i _ _ htarget
    rw [hp] at hknows
    refine H.committed rfl (fun hm => ?_) (H.ids.sublist (List.filter_sublist.map _))
      (fun j passkey totp hij hj _ => H.idle htarget hp hij hj) (fun j m' hj hm' h => h)
      fun j hj hoff h => h
    rw [State.HasFactor, State.activeExcept_delete]
    exact (hknows.2 hm).imp_left fun h => State.passkeysExcept_none (s := s) ▸ h
  | @register m hi hp =>
    refine H.committed rfl
      (fun hm => (H.usable hm).mono (List.subset_append_left _ _) (List.Subset.refl _)) H.ids
      (fun j passkey totp hij hj hknows => ?_)
      (fun j m' hj hm' h => ne_nil_of_subset (List.subset_append_left _ _) h) fun j hj hoff h => h
    exact hknows.later (leave_lock hij) (List.subset_append_left _ _) fun _ hm hs =>
      (hs hm).mono (List.subset_append_left _ _) (List.Subset.refl _)
  | @activate m hi hp hrow =>
    have hnew (totp : Option Nat) (htotp : some rowid ≠ totp) : State.activeExcept
        { s.leave i .done with
          authenticators := s.authenticators ++ [⟨rowid, true⟩]
          mfaEnabled := if m then s.mfaEnabled else true } totp ≠ [] :=
      List.ne_nil_of_mem (a := ⟨rowid, true⟩) (List.mem_filter.mpr
        ⟨List.mem_append_right _ List.mem_cons_self, decide_eq_true ⟨rfl, htotp⟩⟩)
    refine H.committed rfl (fun _ => .inr (hnew none nofun)) ?_
      (fun j passkey totp hij hj hknows => ?_) (fun j m' hj hm' h => h) fun j hj hoff h => ?_
    · rw [List.map_append, List.nodup_append]
      refine ⟨H.ids, List.nodup_singleton _, fun id hid new hnew heq => hrow ?_⟩
      cases List.mem_singleton.mp hnew
      cases heq
      exact hid
    · refine hknows.later (leave_lock hij) (List.Subset.refl _) fun hreading _ _ => .inr (hnew totp ?_)
      rintro rfl
      cases hr : requests j with
      | deleteTotpAuthenticator id =>
        rw [hr] at hj
        cases hj
        exact hcrosses j (.reuses hi hp hr hreading)
      | _ =>
        rw [hr] at hj
        cases hj
    · cases m with
      | true => exact h
      | false => exact absurd (Crosses.disables (.inr ⟨hi, rfl⟩) hp hj hoff) (hcrosses j)
  | @disable m hi hp =>
    have hoff : (if m then false else s.mfaEnabled) = false := by
      cases m with
      | true => rfl
      | false => exact H.disables i hi hp
    refine H.committed rfl (fun hm => ?_) .nil (fun j passkey totp hij hj hknows => ?_)
      (fun j m' hj hm' h => h) fun j hj _ _ => hoff
    · exact absurd (hoff.symm.trans hm) Bool.false_ne_true
    · exact hknows.later (leave_lock hij) (List.Subset.refl _) fun _ hm _ =>
        absurd (hoff.symm.trans hm) Bool.false_ne_true

theorem Inv.step (H : Inv requests s) {a : Action} (h : step requests s a = some t)
    (hcrossing : ¬ Crossing requests s a) : Inv requests t := by
  cases a with
  | advance i rowid =>
    rcases advance_cases h with hmoves | hcommits
    · exact H.moves hmoves h
    · exact H.commits hcommits fun j hj => hcrossing ⟨j, hj⟩
  | fail i =>
    cases h
    exact H.fails i

theorem Inv.starts (H : Starts s) : Inv requests s where
  usable := H.usable
  ids := H.ids
  knows i _ _ _ := by
    rw [H.phase i]
    trivial
  enables i m _ hm := by
    rw [H.phase i] at hm
    cases hm
  disables i _ hoff := by
    rw [H.phase i] at hoff
    cases hoff

/-! ## Runs -/

def enableDeleteActivate : Nat → Request
  | 0 => .enablePasskeyMfa
  | 1 => .deleteCredential 1
  | _ => .activateTotpEnrollment

/-- The steps of runs in which the deletion begins after MFA has been enabled. -/
def inTurn (s : State) : Action → Option State
  | .advance i rowid =>
    if (i = 0 → s.phase 1 = .waiting) ∧ (i ≠ 0 → s.phase 0 = .done) then
      advance enableDeleteActivate s i rowid
    else none
  | .fail _ => none

/-- MFA is enabled with a passkey. An authenticator is activated while the passkey is deleted. -/
def replaced : List Action :=
  [.advance 0 0, .advance 0 0, .advance 0 0, .advance 0 0, .advance 0 0, .advance 1 0, .advance 1 0,
    .advance 2 0, .advance 1 0, .advance 2 0, .advance 1 0, .advance 2 0, .advance 2 0, .advance 2 5,
    .advance 1 0, .advance 1 0]

end WebSSH.Mfa
