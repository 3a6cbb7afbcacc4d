import WebSSH.Ldap.Fence

/-!
# The fence fails closed

While a revocation is due the account is pending, in memory or by its marker (`Inv.due`). A fence
operation other than `discard` keeps that; a `discard` keeps it exactly if no revocation of its
account is due when it runs.
-/

namespace WebSSH.Ldap
open Lib Function

variable {s t : State} {u v : Nat}

/-- While a revocation of an account is due, the fence contains the account. -/
def FailsClosed (s : State) : Prop :=
  ∀ u, s.due u ≠ none → ∀ lstatFails, s.fence.contains u lstatFails = true

def Task.Settled (s : State) : Task → Prop
  | .discard u _ => s.due u = none
  | _ => True

instance (s : State) : (task : Task) → Decidable (task.Settled s)
  | .discard u _ => inferInstanceAs (Decidable (s.due u = none))
  | .visit | .recent .. | .begin .. | .lookup .. | .complete .. | .fail .. | .mark _
  | .invalidate .. => .isTrue trivial

/-- No revocation of the account is due when `discard` runs. -/
def Settled (s : State) (a : Action) : Prop :=
  ∀ k input, a = .next k input → input.raises = none →
    ∀ call ∈ s.calls[k]?, call.task.Settled s

instance (s : State) : (a : Action) → Decidable (Settled s a)
  | .next k input =>
    decidable_of_iff (input.raises = none → ∀ call ∈ s.calls[k]?, call.task.Settled s)
      ⟨fun h _ _ hk => by cases hk; exact h, fun h => h k input rfl⟩
  | .contains .. | .recentValidation .. | .validate .. | .persist _ | .sweep .. | .invalidate _
  | .crash => .isTrue fun _ _ h => nomatch h

/-! ## The invariant -/

/-- The account is pending, whether or not an `lstat` fails. -/
def Fence.Denies (F : Fence) (u : Nat) : Prop :=
  F.pending u = true ∨ F.validating u = none ∧ F.markers u = true

structure Inv (s : State) : Prop where
  due : ∀ u, s.due u ≠ none → s.fence.Denies u
  /-- The marker of a durable revocation is there. -/
  durable : ∀ u, s.due u = some true → s.fence.markers u = true
  /-- So is that of a running validation. -/
  validating : ∀ u token, s.fence.validating u = some token → s.fence.markers u = true

theorem Fence.contains_of_denies {F : Fence} (h : F.Denies u) (lstatFails : Bool) :
    F.contains u lstatFails = true := by
  unfold Fence.contains Fence.markerExists
  rcases h with h | ⟨hv, hm⟩
  · rw [if_pos h]
  · simp [hv, hm]

theorem Fence.denies_of_contains {F : Fence} (h : F.contains u false = true) : F.Denies u := by
  unfold Fence.contains Fence.markerExists at h
  split at h
  · exact .inl ‹_›
  · split at h
    · cases h
    · exact .inr ⟨by simpa using ‹¬ (F.validating u).isSome = true›, by simpa using h⟩

theorem Inv.failsClosed (H : Inv s) : FailsClosed s := fun u hu lstatFails =>
  Fence.contains_of_denies (H.due u hu) lstatFails

theorem Inv.init (markers : Nat → Bool) : Inv (.init markers) where
  due _ h := absurd rfl h
  durable _ h := nomatch h
  validating _ _ h := nomatch h

/-- What the invariant reads of a fence, for one account. -/
structure Fence.SameAt (F G : Fence) (v : Nat) : Prop where
  pending : G.pending v = F.pending v
  validating : G.validating v = F.validating v
  markers : G.markers v = F.markers v

theorem Fence.SameAt.refl (F : Fence) (v : Nat) : F.SameAt F v := ⟨rfl, rfl, rfl⟩

/-- An operation on the account `u` only has to keep the invariant for `u`. -/
theorem Inv.of_account (H : Inv s) (hdue : ∀ v, v ≠ u → t.due v = s.due v)
    (hsame : ∀ v, v ≠ u → s.fence.SameAt t.fence v)
    (hu : (t.due u ≠ none → t.fence.Denies u) ∧ (t.due u = some true → t.fence.markers u = true) ∧
      ∀ token, t.fence.validating u = some token → t.fence.markers u = true) : Inv t where
  due v hv := by
    by_cases h : v = u
    · subst h
      exact hu.1 hv
    · have hs := hsame v h
      unfold Fence.Denies
      rw [hs.pending, hs.validating, hs.markers]
      exact H.due v (hdue v h ▸ hv)
  durable v hv := by
    by_cases h : v = u
    · subst h
      exact hu.2.1 hv
    · rw [(hsame v h).markers]
      exact H.durable v (hdue v h ▸ hv)
  validating v token hv := by
    by_cases h : v = u
    · subst h
      exact hu.2.2 token hv
    · rw [(hsame v h).markers]
      exact H.validating v token ((hsame v h).validating ▸ hv)

/-- A step that changes neither the fence nor what is due. -/
theorem Inv.congr (H : Inv s) (hfence : t.fence = s.fence) (hdue : t.due = s.due) : Inv t where
  due := by rw [hfence, hdue]; exact H.due
  durable := by rw [hfence, hdue]; exact H.durable
  validating := by rw [hfence]; exact H.validating

theorem Inv.advance (H : Inv s) (k : Nat) (next : List Call) : Inv (s.advance k next) :=
  H.congr rfl rfl

/-! ## The operations -/

theorem Inv.recentValidation (H : Inv s) (u : Nat) (key : IdentityKey) (notBefore : Nat)
    (lstatFails : Bool) :
    Inv { s with fence := (s.fence.recentValidation u key notBefore lstatFails).2 } := by
  unfold Fence.recentValidation
  split
  · exact H
  · split
    · exact H
    · split
      · exact H
      · split
        · exact ⟨H.due, H.durable, H.validating⟩
        · split <;> exact H

/-- A receipt is returned only while the account is not pending, for its own identity key and if
the validation was completed after `notBefore`. -/
theorem Fence.recentValidation_some {F : Fence} {key : IdentityKey} {notBefore : Nat}
    {lstatFails : Bool} {receipt : Receipt}
    (h : (F.recentValidation u key notBefore lstatFails).1 = some receipt) :
    F.contains u lstatFails = false ∧ receipt.identityKey = key ∧
      notBefore < receipt.completedMonotonic := by
  unfold Fence.recentValidation at h
  split at h
  · cases h
  · rename_i hpending
    split at h
    · cases h
    · rename_i hmarker
      split at h
      · cases h
      · split at h
        · cases h
        · rename_i hkey
          split at h
          · cases h
          · rename_i hlt
            cases h
            refine ⟨?_, not_not.mp hkey, not_not.mp hlt⟩
            unfold Fence.contains
            cases hv : F.validating u <;> simp_all

theorem Inv.beginValidation (H : Inv s) (u : Nat) (lstatFails writeFails : Bool) :
    Inv { s with fence := (s.fence.beginValidation u lstatFails writeFails).2 } := by
  apply H.of_account (u := u)
  · exact fun _ _ => rfl
  · intro v hv
    unfold Fence.beginValidation
    split
    · exact ⟨update_of_ne hv _ _, rfl, rfl⟩
    · split
      · exact ⟨update_of_ne hv _ _, update_of_ne hv _ _, rfl⟩
      · exact ⟨rfl, update_of_ne hv _ _, update_of_ne hv _ _⟩
  · unfold Fence.beginValidation
    split
    · exact ⟨fun _ => .inl (update_self ..), H.durable u, H.validating u⟩
    · rename_i hclear
      split
      · refine ⟨fun _ => .inl (update_self ..), H.durable u, fun token h => ?_⟩
        simp [Fence.deny, Fence.stopValidating] at h
      · -- nothing is due, since the account was not pending
        have hdue : s.due u = none := by
          by_contra hdue
          rcases H.due u hdue with h | ⟨-, h⟩ <;> simp [Fence.markerExists, h] at hclear
        exact ⟨fun h => absurd hdue h, fun _ => update_self .., fun _ _ => update_self ..⟩

theorem Inv.completeValidation (H : Inv s) (u token : Nat) (key : IdentityKey) (epoch now : Nat)
    (unlinkFails : Bool) :
    Inv { s with fence := (s.fence.completeValidation u token key epoch now unlinkFails).2 } := by
  unfold Fence.completeValidation
  split
  · exact H
  · rename_i hcurrent
    split
    · exact H
    · apply H.of_account (u := u)
      · exact fun _ _ => rfl
      · exact fun v hv => ⟨update_of_ne hv _ _, update_of_ne hv _ _, update_of_ne hv _ _⟩
      · have hdue : s.due u = none := by
          by_contra hdue
          rcases H.due u hdue with h | ⟨h, -⟩ <;> simp [h] at hcurrent
        refine ⟨fun h => absurd hdue h, fun h => ?_, fun token' h => ?_⟩
        · rw [hdue] at h
          cases h
        · simp [Fence.stopValidating] at h

theorem Inv.failValidation (H : Inv s) (u token : Nat) : Inv (s.failValidation u token) := by
  unfold State.failValidation Fence.failValidation
  by_cases h : s.fence.validating u = some token
  · simp only [h, ne_eq, not_true_eq_false, if_false, if_true]
    apply H.of_account (u := u)
    · exact fun v hv => update_of_ne hv _ _
    · exact fun v hv => ⟨update_of_ne hv _ _, update_of_ne hv _ _, rfl⟩
    · have hmarker := H.validating u token h
      exact ⟨fun _ => .inl (update_self ..), fun _ => hmarker, fun _ _ => hmarker⟩
  · simp only [h, ne_eq, not_false_eq_true, if_true, if_false]
    exact H

theorem Inv.mark (H : Inv s) (u : Nat) (writeFails : Bool) : Inv (s.mark u writeFails) := by
  apply H.of_account (u := u)
  · exact fun v hv => update_of_ne hv _ _
  · intro v hv
    unfold State.mark Fence.mark
    cases writeFails
    · exact ⟨update_of_ne hv _ _, update_of_ne hv _ _, update_of_ne hv _ _⟩
    · exact ⟨update_of_ne hv _ _, update_of_ne hv _ _, rfl⟩
  · unfold State.mark Fence.mark
    cases writeFails
    · exact ⟨fun _ => .inl (update_self ..), fun _ => update_self .., fun _ _ => update_self ..⟩
    · refine ⟨fun _ => .inl (update_self ..), fun h => H.durable u ?_, fun token h => ?_⟩
      · simpa [State.setDue] using h
      · simp [State.setDue, Fence.deny, Fence.stopValidating] at h

theorem Inv.setDue_none (H : Inv s) (u : Nat) : Inv (s.setDue u none) := by
  apply H.of_account (u := u)
  · exact fun v hv => update_of_ne hv _ _
  · exact fun v _ => .refl _ v
  · refine ⟨fun h => absurd (update_self ..) h, fun h => ?_, H.validating u⟩
    simp [State.setDue] at h

theorem Inv.discard (H : Inv s) (hdue : s.due u = none) :
    Inv { s with fence := s.fence.discard u } := by
  apply H.of_account (u := u)
  · exact fun _ _ => rfl
  · exact fun v hv => ⟨update_of_ne hv _ _, update_of_ne hv _ _, update_of_ne hv _ _⟩
  · refine ⟨fun h => absurd hdue h, fun h => ?_, fun token h => ?_⟩
    · rw [hdue] at h
      cases h
    · simp [Fence.discard, Fence.stopValidating] at h

/-- After `discard` the account is not pending. -/
theorem Fence.not_denies_discard (F : Fence) (u : Nat) : ¬ (F.discard u).Denies u := by
  simp [Fence.Denies, Fence.discard, Fence.unlinkMarker, Fence.stopValidating]

theorem Inv.crash (H : Inv s) : Inv s.crash where
  due u hu := by
    simp only [State.crash] at hu
    split at hu
    · exact .inr ⟨rfl, H.durable u ‹_›⟩
    · exact absurd rfl hu
  durable u hu := by
    simp only [State.crash] at hu
    split at hu
    · exact H.durable u ‹_›
    · cases hu
  validating _ _ h := nomatch h

/-! ## Steps -/

theorem State.next_inv (H : Inv s) (k : Nat) {call : Call} {input : Input}
    (h : input.raises = none → call.task.Settled s) : Inv (s.next k call input).2 := by
  unfold State.next
  split
  case h_1 => exact H.advance k _
  case h_2 u key _ =>
    exact (H.recentValidation u key ((call.sweep.map Sweep.started).getD 0)
      input.lstatFails).advance k _
  case h_3 u key _ =>
    have hinv := H.beginValidation u input.lstatFails input.raises.isSome
    simp only
    split <;> exact hinv.advance k _
  case h_4 u token key _ => split <;> exact H.advance k _
  case h_5 u token key _ =>
    have hinv := H.completeValidation u token key input.epoch input.now input.raises.isSome
    simp only
    split <;> exact hinv.advance k _
  case h_6 u token error _ => exact (H.failValidation u token).advance k _
  case h_7 u _ => exact (H.mark u _).advance k _
  case h_8 u controlFlow _ =>
    split
    · exact (H.setDue_none u).advance k _
    · exact H.advance k _
    · exact H.advance k _
  case h_9 u controlFlow htask =>
    split
    · rename_i hraises
      have hdue : call.task.Settled s := h hraises
      rw [htask] at hdue
      exact (H.discard hdue).advance k _
    · exact H.advance k _
    · exact H.advance k _

theorem step_inv (H : Inv s) {a : Action} {x : Reply × State} (ha : Settled s a)
    (h : step s a = some x) : Inv x.2 := by
  cases a with
  | contains u lstatFails => cases h; exact H
  | recentValidation u key notBefore lstatFails =>
    cases h
    exact H.recentValidation u key notBefore lstatFails
  | validate u key => cases h; exact H.congr rfl rfl
  | persist u => cases h; exact H.congr rfl rfl
  | sweep linked now => cases h; exact H.congr rfl rfl
  | next k input =>
    obtain ⟨call, hk, rfl⟩ := Option.map_eq_some_iff.mp h
    exact State.next_inv H k fun hraises => ha k input rfl hraises call hk
  | invalidate u => cases h; exact H.setDue_none u
  | crash => cases h; exact H.crash

/-- A step that keeps the fence closed was settled. -/
theorem settled_of_failsClosed {a : Action} {x : Reply × State} (h : step s a = some x)
    (hx : FailsClosed x.2) : Settled s a := by
  intro k input ha hraises call hk
  subst ha
  obtain ⟨call', hk', rfl⟩ := Option.map_eq_some_iff.mp h
  rw [hk] at hk'
  cases hk'
  unfold State.next at hx
  cases htask : call.task with
  | discard u controlFlow =>
    simp only [htask, hraises] at hx
    by_contra hdue
    exact s.fence.not_denies_discard u (Fence.denies_of_contains (hx u hdue false))
  | _ => trivial

/-! ## Validations that were overtaken -/

/-- A mark or a discard of the account, or the end of the process. -/
def Overtakes (u : Nat) (e : Action × Reply) : Prop :=
  e.2 = .marked u ∨ e.2 = .discarded u ∨ e.1 = .crash

/-- The validation of the token was overtaken after it had begun. -/
def Overtaken (u token : Nat) (es : List (Action × Reply)) : Prop :=
  ∃ es₁ a es₂, es = es₁ ++ (a, .began u token) :: es₂ ∧ ∃ e ∈ es₂, Overtakes u e

def Began (u token : Nat) (es : List (Action × Reply)) : Prop := ∃ a, (a, .began u token) ∈ es

theorem Overtaken.began {token : Nat} {es : List (Action × Reply)} (h : Overtaken u token es) :
    Began u token es := by
  obtain ⟨es₁, a, es₂, rfl, -⟩ := h
  exact ⟨a, by simp⟩

theorem overtaken_snoc {token : Nat} {es : List (Action × Reply)} {e : Action × Reply}
    (h : Overtaken u token (es ++ [e])) :
    Overtaken u token es ∨ Began u token es ∧ Overtakes u e := by
  obtain ⟨es₁, a, es₂, heq, e', he', hover⟩ := h
  rcases List.eq_nil_or_concat es₂ with rfl | ⟨es₃, e₃, rfl⟩
  · cases he'
  · rw [List.concat_eq_append, ← List.cons_append, ← List.append_assoc] at heq
    obtain ⟨rfl, he₃⟩ := List.append_inj' heq rfl
    cases he₃
    rcases List.mem_append.mp (List.concat_eq_append ▸ he') with he' | he'
    · exact .inl ⟨es₁, a, es₃, rfl, e', he', hover⟩
    · rw [List.mem_singleton.mp he'] at hover
      exact .inr ⟨⟨a, by simp⟩, hover⟩

/-- What a step does to the running validations. -/
structure Tracks (s : State) (a : Action) (x : Reply × State) : Prop where
  validating : ∀ u token, x.2.fence.validating u = some token →
    x.1 = .began u token ∨ s.fence.validating u = some token ∧ ¬ Overtakes u (a, x.1)
  began : ∀ u token, x.1 = .began u token →
    token = s.fence.tokenCount ∧ token < x.2.fence.tokenCount
  published : ∀ u token receipt, x.1 = .published u token receipt →
    s.fence.validating u = some token
  count : s.fence.tokenCount ≤ x.2.fence.tokenCount

/-- No validation starts. -/
def Fence.Quiet (F G : Fence) : Prop :=
  (∀ u token, G.validating u = some token → F.validating u = some token) ∧
    F.tokenCount ≤ G.tokenCount

theorem Fence.Quiet.refl (F : Fence) : F.Quiet F := ⟨fun _ _ h => h, Nat.le_refl _⟩

theorem validating_of_update {f : Nat → Option Nat} {token : Nat}
    (h : update f u none v = some token) : v ≠ u ∧ f v = some token := by
  by_cases hv : v = u
  · subst hv
    simp at h
  · rw [update_of_ne hv] at h
    exact ⟨hv, h⟩

theorem Fence.Quiet.recentValidation (F : Fence) (u : Nat) (key : IdentityKey) (notBefore : Nat)
    (lstatFails : Bool) : F.Quiet (F.recentValidation u key notBefore lstatFails).2 := by
  unfold Fence.recentValidation
  split
  · exact .refl F
  · split
    · exact .refl F
    · split
      · exact .refl F
      · split
        · exact ⟨fun _ _ h => h, Nat.le_refl _⟩
        · split <;> exact .refl F

/-- A step that answers with neither the start nor the success of a validation, and overtakes
none. -/
theorem Tracks.quiet {a : Action} {reply : Reply} (h : s.fence.Quiet t.fence)
    (hreply : reply = .done ∨ (∃ u b, reply = .contains u b) ∨ (∃ u r, reply = .recent u r) ∨
      ∃ u, reply = .invalidated u) (ha : a ≠ .crash) : Tracks s a (reply, t) := by
  refine ⟨fun u token hv => .inr ⟨h.1 u token hv, ?_⟩, fun u token hr => ?_,
    fun u token r hr => ?_, h.2⟩
  · rintro (hr | hr | hr)
    · obtain rfl | ⟨_, _, rfl⟩ | ⟨_, _, rfl⟩ | ⟨_, rfl⟩ := hreply <;> cases hr
    · obtain rfl | ⟨_, _, rfl⟩ | ⟨_, _, rfl⟩ | ⟨_, rfl⟩ := hreply <;> cases hr
    · exact ha hr
  · obtain rfl | ⟨_, _, rfl⟩ | ⟨_, _, rfl⟩ | ⟨_, rfl⟩ := hreply <;> cases hr
  · obtain rfl | ⟨_, _, rfl⟩ | ⟨_, _, rfl⟩ | ⟨_, rfl⟩ := hreply <;> cases hr

/-- A mark or a discard stops the validation of its account. -/
theorem Tracks.stop {a : Action} {reply : Reply}
    (hv : t.fence.validating = update s.fence.validating u none)
    (hcount : t.fence.tokenCount = s.fence.tokenCount)
    (hreply : reply = .marked u ∨ reply = .discarded u) (ha : a ≠ .crash) :
    Tracks s a (reply, t) := by
  refine ⟨fun v token h => ?_, fun v token hr => ?_, fun v token r hr => ?_, Nat.le_of_eq hcount.symm⟩
  · rw [hv] at h
    obtain ⟨hne, h⟩ := validating_of_update h
    refine .inr ⟨h, ?_⟩
    rintro (hr | hr | hr)
    · obtain rfl | rfl := hreply <;> cases hr
      exact hne rfl
    · obtain rfl | rfl := hreply <;> cases hr
      exact hne rfl
    · exact ha hr
  · obtain rfl | rfl := hreply <;> cases hr
  · obtain rfl | rfl := hreply <;> cases hr

theorem Tracks.beginValidation {a : Action} (u : Nat) (lstatFails writeFails : Bool)
    {token : Nat} (h : (s.fence.beginValidation u lstatFails writeFails).1 = .ok token)
    (ht : t.fence = (s.fence.beginValidation u lstatFails writeFails).2) (ha : a ≠ .crash) :
    Tracks s a (.began u token, t) := by
  unfold Fence.beginValidation at h ht
  split at h
  · cases h
  · split at h
    · cases h
    · rename_i h₁ h₂
      rw [if_neg h₁, if_neg h₂] at ht
      cases h
      refine ⟨fun v token hv => ?_, fun v token hr => ?_, fun v token r hr => (nomatch hr), ?_⟩
      · rw [ht] at hv
        by_cases hvu : v = u
        · subst hvu
          simp only [update_self, Option.some.injEq] at hv
          exact .inl (by rw [hv])
        · simp only [update_of_ne hvu] at hv
          refine .inr ⟨hv, ?_⟩
          rintro (hr | hr | hr)
          · cases hr
          · cases hr
          · exact ha hr
      · cases hr
        rw [ht]
        exact ⟨rfl, Nat.lt_succ_self _⟩
      · rw [ht]
        exact Nat.le_succ _

theorem Fence.Quiet.beginValidation {F : Fence} {lstatFails writeFails : Bool}
    {error : ValidationError} (h : (F.beginValidation u lstatFails writeFails).1 = .error error) :
    F.Quiet (F.beginValidation u lstatFails writeFails).2 := by
  unfold Fence.beginValidation at h ⊢
  split at h
  · rw [if_pos ‹_›]
    exact ⟨fun _ _ h => h, Nat.le_refl _⟩
  · rename_i h₁
    rw [if_neg h₁]
    split at h
    · rw [if_pos ‹_›]
      exact ⟨fun _ _ h => (validating_of_update h).2, Nat.le_succ _⟩
    · cases h

theorem Tracks.completeValidation {a : Action} {u token : Nat} {key : IdentityKey}
    {epoch now : Nat} {unlinkFails : Bool} {receipt : Receipt}
    (h : (s.fence.completeValidation u token key epoch now unlinkFails).1 = .ok receipt)
    (ht : t.fence = (s.fence.completeValidation u token key epoch now unlinkFails).2)
    (ha : a ≠ .crash) : Tracks s a (.published u token receipt, t) := by
  unfold Fence.completeValidation at h ht
  split at h
  · cases h
  · rename_i hcurrent
    split at h
    · cases h
    · rename_i hunlink
      rw [if_neg hcurrent, if_neg hunlink] at ht
      simp only [not_or, not_not] at hcurrent
      refine ⟨fun v token hv => ?_, fun v token hr => (nomatch hr), fun v token r hr => ?_, ?_⟩
      · rw [ht] at hv
        refine .inr ⟨(validating_of_update hv).2, ?_⟩
        rintro (hr | hr | hr)
        · cases hr
        · cases hr
        · exact ha hr
      · cases hr
        exact hcurrent.1
      · rw [ht]
        exact Nat.le_refl _

theorem Fence.Quiet.completeValidation {F : Fence} {token : Nat} {key : IdentityKey}
    {epoch now : Nat} {unlinkFails : Bool} {error : ValidationError}
    (h : (F.completeValidation u token key epoch now unlinkFails).1 = .error error) :
    F.Quiet (F.completeValidation u token key epoch now unlinkFails).2 := by
  unfold Fence.completeValidation at h ⊢
  split at h
  · rw [if_pos ‹_›]
    exact .refl F
  · rename_i hcurrent
    rw [if_neg hcurrent]
    split at h
    · rw [if_pos ‹_›]
      exact .refl F
    · cases h

theorem State.next_tracks (k : Nat) (call : Call) (input : Input) :
    Tracks s (.next k input) (s.next k call input) := by
  unfold State.next
  split
  case h_1 => exact .quiet (.refl _) (.inl rfl) nofun
  case h_2 u key _ =>
    exact .quiet (.recentValidation s.fence u key _ _) (.inr (.inr (.inl ⟨_, _, rfl⟩))) nofun
  case h_3 u key _ =>
    simp only
    split
    · exact .beginValidation u _ _ ‹_› rfl nofun
    · exact .quiet (.beginValidation ‹_›) (.inl rfl) nofun
  case h_4 u token key _ => split <;> exact .quiet (.refl _) (.inl rfl) nofun
  case h_5 u token key _ =>
    simp only
    split
    · exact .completeValidation ‹_› rfl nofun
    · exact .quiet (.completeValidation ‹_›) (.inl rfl) nofun
  case h_6 u token error _ =>
    refine .quiet ?_ (.inl rfl) nofun
    unfold State.failValidation Fence.failValidation
    by_cases h : s.fence.validating u = some token
    · simp only [h, ne_eq, not_true_eq_false, if_false, if_true]
      exact ⟨fun _ _ h => (validating_of_update h).2, Nat.le_refl _⟩
    · simp only [h, ne_eq, not_false_eq_true, if_true, if_false]
      exact .refl _
  case h_7 u _ =>
    refine .stop ?_ ?_ (.inl rfl) nofun
    · cases h : input.raises <;> rfl
    · cases h : input.raises <;> rfl
  case h_8 u controlFlow _ =>
    split
    · exact .quiet (.refl _) (.inr (.inr (.inr ⟨_, rfl⟩))) nofun
    · exact .quiet (.refl _) (.inl rfl) nofun
    · exact .quiet (.refl _) (.inl rfl) nofun
  case h_9 u controlFlow _ =>
    split
    · exact .stop rfl rfl (.inr rfl) nofun
    · exact .quiet (.refl _) (.inl rfl) nofun
    · exact .quiet (.refl _) (.inl rfl) nofun

theorem step_tracks {a : Action} {x : Reply × State} (h : step s a = some x) : Tracks s a x := by
  cases a with
  | contains u lstatFails => cases h; exact .quiet (.refl _) (.inr (.inl ⟨_, _, rfl⟩)) nofun
  | recentValidation u key notBefore lstatFails =>
    cases h
    exact .quiet (.recentValidation s.fence u key _ _) (.inr (.inr (.inl ⟨_, _, rfl⟩))) nofun
  | validate u key => cases h; exact .quiet (.refl _) (.inl rfl) nofun
  | persist u => cases h; exact .quiet (.refl _) (.inl rfl) nofun
  | sweep linked now => cases h; exact .quiet (.refl _) (.inl rfl) nofun
  | next k input =>
    obtain ⟨call, -, rfl⟩ := Option.map_eq_some_iff.mp h
    exact State.next_tracks k call input
  | invalidate u => cases h; exact .quiet (.refl _) (.inr (.inr (.inr ⟨_, rfl⟩))) nofun
  | crash =>
    cases h
    exact ⟨fun _ _ hv => (nomatch hv), fun _ _ hr => (nomatch hr), fun _ _ _ hr => (nomatch hr),
      Nat.le_refl _⟩

/-- No validation has published its result after it was overtaken. -/
def NoneOvertaken (es : List (Action × Reply)) : Prop :=
  ∀ es₁ a u token receipt es₂, es = es₁ ++ (a, Reply.published u token receipt) :: es₂ →
    ¬ Overtaken u token es₁

/-- The tokens that were given out, and the running validations, along a run. -/
structure Tracked (es : List (Action × Reply)) (s : State) : Prop where
  began : ∀ u token, Began u token es → token < s.fence.tokenCount
  validating : ∀ u token, s.fence.validating u = some token → ¬ Overtaken u token es
  published : NoneOvertaken es

theorem Tracked.snoc {es : List (Action × Reply)} {a : Action} {x : Reply × State}
    (H : Tracked es s) (h : Tracks s a x) : Tracked (es ++ [(a, x.1)]) x.2 where
  began u token := by
    rintro ⟨a', ha'⟩
    rcases List.mem_append.mp ha' with ha' | ha'
    · exact Nat.lt_of_lt_of_le (H.began u token ⟨a', ha'⟩) h.count
    · have hx : Reply.began u token = x.1 := congrArg Prod.snd (List.mem_singleton.mp ha')
      exact (h.began u token hx.symm).2
  validating u token hv hover := by
    rcases h.validating u token hv with hnew | ⟨hold, hquiet⟩
    · rcases overtaken_snoc hover with hover | ⟨hbegan, -⟩
      · have := H.began u token hover.began
        have := (h.began u token hnew).1
        omega
      · have := H.began u token hbegan
        have := (h.began u token hnew).1
        omega
    · rcases overtaken_snoc hover with hover | ⟨-, he⟩
      · exact H.validating u token hold hover
      · exact hquiet he
  published es₁ a' u token receipt es₂ heq := by
    rcases List.eq_nil_or_concat es₂ with rfl | ⟨es₃, e₃, rfl⟩
    · obtain ⟨heq', he⟩ := List.append_inj' heq rfl
      rw [← heq']
      have hx : x.1 = .published u token receipt := congrArg Prod.snd (List.singleton_inj.mp he)
      exact H.validating u token (h.published u token receipt hx)
    · rw [List.concat_eq_append, ← List.cons_append, ← List.append_assoc] at heq
      obtain ⟨heq, -⟩ := List.append_inj' heq rfl
      exact H.published es₁ a' u token receipt es₃ heq

theorem run_tracked {markers : Nat → Bool} {es : List (Action × Reply)}
    (h : (system markers).Run (.init markers) es s) : Tracked es s := by
  apply h.history (P := Tracked)
  · refine ⟨fun u token ⟨_, h⟩ => (nomatch h), fun u token h => (nomatch h), ?_⟩
    intro es₁ a u token receipt es₂ heq
    cases es₁ <;> cases heq
  · intro bs x ⟨a, reply⟩ y H hstep
    exact H.snoc (step_tracks hstep)

/-! ## Runs -/

/-- In every run: the fence stays closed in every state exactly if each `discard` runs while no
revocation of its account is due; a receipt is returned only while the account is not pending, for
its own identity key and if it was completed after `notBefore`; and a validation that was overtaken
does not publish its result. -/
theorem fence_fails_closed {markers : Nat → Bool} {es : List (Action × Reply)}
    (h : (system markers).Run (.init markers) es s) :
    (((system markers).restrict fun _ _ t => FailsClosed t).Run (.init markers) es s ↔
      ((system markers).restrict fun s e _ => Settled s e.1).Run (.init markers) es s) ∧
    (∀ u key notBefore lstatFails receipt,
      (s.fence.recentValidation u key notBefore lstatFails).1 = some receipt →
      s.fence.contains u lstatFails = false ∧ receipt.identityKey = key ∧
        notBefore < receipt.completedMonotonic) ∧
    NoneOvertaken es := by
  refine ⟨⟨?_, ?_⟩, fun _ _ _ _ _ => Fence.recentValidation_some, (run_tracked h).published⟩
  · intro h
    apply h.restrict_of (P := Inv) (.init markers)
    intro x a y hx hxy
    have hsettled := settled_of_failsClosed hxy.2 hxy.1
    exact ⟨hsettled, hxy.2, step_inv hx hsettled hxy.2⟩
  · intro h
    apply h.restrict_of (P := Inv) (.init markers)
    intro x a y hx hxy
    have hy := step_inv hx hxy.1 hxy.2
    exact ⟨hy.failsClosed, hxy.2, hy⟩

/-! ## Two invalidations of one account -/

/-- Nothing raises; the account exists and its lookup succeeds. -/
def quietInput : Input := ⟨false, none, true, none, none, 5, 9⟩

/-- Two requests find the account 7 pending. The first commits its invalidation, the second marks
the account, and the first discards the fence. -/
def overlappingPersists : List Action :=
  [.persist 7, .persist 7, .next 0 quietInput, .next 1 quietInput, .next 0 quietInput,
    .next 0 quietInput]

theorem fence_open_after_mark :
    ∃ es s, (system fun _ => false).Run (.init fun _ => false) es s ∧ ¬ FailsClosed s := by
  have hexec : (System.answer step (.init fun _ => false) overlappingPersists).any (fun (_, s) =>
      s.due 7 = some true ∧ s.fence.contains 7 false = false) = true := by decide
  obtain ⟨⟨es, s⟩, hrun, hd⟩ := (Option.any_eq_true _ _).mp hexec
  obtain ⟨hdue, hopen⟩ := of_decide_eq_true hd
  refine ⟨es, s, System.run_of_answer hrun, fun h => ?_⟩
  have := h 7 (by rw [hdue]; nofun) false
  rw [hopen] at this
  cases this

/-- A failed validation, the process ends, and the next process persists the invalidation. -/
def failedValidation : List Action :=
  [.validate 7 ⟨0, 1, "ldap", "subject", "name"⟩, .next 0 quietInput,
    .next 0 { quietInput with lookup := some .rejected }, .next 0 quietInput, .crash,
    .contains 7 false, .persist 7, .next 0 quietInput, .next 0 quietInput, .next 0 quietInput]

theorem fence_fails_closed_failed_validation :
    ∃ es s, ((system fun _ => false).restrict fun _ _ t => FailsClosed t).Run (.init fun _ => false)
      es s ∧ NoneOvertaken es ∧ s.fence.contains 7 false = false := by
  have hexec : (System.answerIf Settled step (.init fun _ => false) failedValidation).any
      (fun (_, s) => s.fence.contains 7 false = false) = true := by decide
  obtain ⟨⟨es, s⟩, hrun, hopen⟩ := (Option.any_eq_true _ _).mp hexec
  have h : ((system fun _ => false).restrict fun s e _ => Settled s e.1).Run _ es s :=
    System.run_of_answerIf hrun
  obtain ⟨hiff, -, hnone⟩ := fence_fails_closed h.of_restrict
  exact ⟨es, s, hiff.mpr h, hnone, of_decide_eq_true hopen⟩

end WebSSH.Ldap
