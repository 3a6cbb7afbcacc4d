import Mathlib.Data.Set.Operations
import Mathlib.Order.Nat
import WebSSH.Lib.Pending
import WebSSH.StepUp.Grants

/-!
# What a step-up grant authorizes

The number of a grant is in one place at most: in a row, with a call that has deleted the row, or
with the consumption that has succeeded. An intent is completed by the step that issues its grant.
-/

namespace WebSSH.StepUp
open Lib Python

variable {R : Runtime} {s s' : State}

/-- The numbers of the grants a call has deleted. -/
def Call.deleted : Call → List Nat
  | .validating row .. => [row.serial]
  | .creatingIntent .. | .creatingGrant .. | .consuming .. => []

/-- The row carries what the grant was issued for. -/
def StepUpGrant.Ok (R : Runtime) (issued : List Issue) (row : StepUpGrant) : Prop :=
  ∃ issue, issued[row.serial]? = some issue ∧
    row.tokenHash = StepUp.tokenHash R issue.token ∧
    row.authenticationSessionId = issue.authenticationSessionId ∧ row.action = issue.action ∧
    row.targetHash = issue.targetHash ∧ row.assurance = issue.assurance ∧
    row.expiresAt = issue.expiresAt

def Call.Ok (R : Runtime) (issued : List Issue) : Call → Prop
  | .validating row token .. => row.Ok R issued ∧ row.tokenHash = tokenHash R token
  | .creatingIntent .. | .creatingGrant .. | .consuming .. => True

/-- The consumption is covered by the grant it has deleted. -/
def Consumption.Ok (R : Runtime) (issued : List Issue) (u : Consumption) : Prop :=
  ∃ issue, issued[u.grant]? = some issue ∧ tokenHash R issue.token = tokenHash R u.token ∧
    issue.authenticationSessionId = u.authenticationSessionId ∧ issue.action = u.action ∧
    issue.targetHash = u.targetHash ∧ u.startedAt < issue.expiresAt ∧
    u.requiredAssurance.rank ≤ issue.assurance.rank

/-- In how many places the number of a grant is. -/
def State.places (s : State) (n : Nat) : Nat :=
  (s.grants.map (·.serial)).count n + (s.calls.flatMap Call.deleted).count n +
    (s.consumed.map (·.grant)).count n

/-- What holds of the grants. -/
structure GrantInv (R : Runtime) (s : State) : Prop where
  places_le : ∀ n, s.places n ≤ 1
  known : ∀ n, s.issued.length ≤ n → s.places n = 0
  rows : ∀ row ∈ s.grants, row.Ok R s.issued
  calls : ∀ call ∈ s.calls, call.Ok R s.issued
  consumed : ∀ u ∈ s.consumed, u.Ok R s.issued

/-- What holds of the intents. -/
structure IntentInv (s : State) : Prop where
  ids : ∀ row ∈ s.intents, ∀ row' ∈ s.intents, row.id = row'.id → row = row'
  serials : ∀ row ∈ s.intents, row.serial < s.intentCount
  unique : ∀ row ∈ s.intents, ∀ row' ∈ s.intents, row.serial = row'.serial → row = row'
  approved : ∀ row ∈ s.intents, ∀ assurance, row.approvedAssurance = some assurance →
    ⟨row.serial, assurance, row.requiredAssurance⟩ ∈ s.approvals
  approvals : ∀ approval ∈ s.approvals,
    approval.requiredAssurance.rank ≤ approval.assurance.rank
  completed : ∀ issue ∈ s.issued, ∀ i, issue.intent = some i →
    i < s.intentCount ∧ ∀ row ∈ s.intents, row.serial = i → row.status = .completed
  once : ∀ i, s.issued.countP (·.intent = some i) ≤ 1
  issued : ∀ issue ∈ s.issued, ∀ i, issue.intent = some i → ∃ approval ∈ s.approvals,
    approval.intent = i ∧ approval.assurance = issue.assurance

/-! ## More grants are issued -/

theorem StepUpGrant.Ok.append {issued : List Issue} {row : StepUpGrant} (h : row.Ok R issued)
    (more : List Issue) : row.Ok R (issued ++ more) := by
  obtain ⟨issue, hissue, hrest⟩ := h
  have hlt := (List.getElem?_eq_some_iff.mp hissue).1
  exact ⟨issue, by rw [List.getElem?_append_left hlt, hissue], hrest⟩

theorem Consumption.Ok.append {issued : List Issue} {u : Consumption} (h : u.Ok R issued)
    (more : List Issue) : u.Ok R (issued ++ more) := by
  obtain ⟨issue, hissue, hrest⟩ := h
  have hlt := (List.getElem?_eq_some_iff.mp hissue).1
  exact ⟨issue, by rw [List.getElem?_append_left hlt, hissue], hrest⟩

theorem Call.Ok.append {issued : List Issue} {call : Call} (h : call.Ok R issued)
    (more : List Issue) : call.Ok R (issued ++ more) := by
  cases call with
  | validating => exact ⟨h.1.append more, h.2⟩
  | creatingIntent | creatingGrant | consuming => trivial

/-! ## Grants -/

theorem GrantInv.init : GrantInv R .init where
  places_le _ := Nat.zero_le _
  known _ _ := rfl
  rows := nofun
  calls := nofun
  consumed := nofun

/-- Rows are deleted, and other tables change. -/
theorem GrantInv.fewer (H : GrantInv R s) (hgrants : s'.grants.Sublist s.grants)
    (hcalls : s'.calls = s.calls) (hissued : s'.issued = s.issued)
    (hconsumed : s'.consumed = s.consumed) : GrantInv R s' := by
  have hplaces : ∀ n, s'.places n ≤ s.places n := by
    intro n
    rw [State.places, State.places, hcalls, hconsumed]
    have := (hgrants.map (·.serial)).count_le n
    omega
  refine ⟨fun n => (hplaces n).trans (H.places_le n), fun n hn => ?_, fun row hrow => ?_, ?_, ?_⟩
  · have := H.known n (hissued ▸ hn)
    have := hplaces n
    omega
  · rw [hissued]
    exact H.rows row (hgrants.subset hrow)
  · rw [hcalls, hissued]
    exact H.calls
  · rw [hconsumed, hissued]
    exact H.consumed

/-- A call that has not deleted a row starts or ends. -/
theorem GrantInv.start (H : GrantInv R s) {call : Call} (hdeleted : call.deleted = [])
    (hok : call.Ok R s.issued) : GrantInv R { s with calls := s.calls ++ [call] } := by
  have hplaces : ∀ n, State.places { s with calls := s.calls ++ [call] } n = s.places n := by
    intro n
    simp [State.places, List.flatMap_append, hdeleted]
  refine ⟨fun n => (hplaces n).trans_le (H.places_le n), fun n hn => (hplaces n).trans (H.known n hn),
    H.rows, fun c hc => ?_, H.consumed⟩
  rcases List.mem_append.mp hc with hc | hc
  · exact H.calls c hc
  · rwa [List.mem_singleton.mp hc]

/-- A call leaves the list; the number of the grant it has deleted is nowhere then. -/
theorem GrantInv.take (H : GrantInv R s) {k : Nat} {call : Call} (hk : s.calls[k]? = some call) :
    GrantInv R { s with calls := s.calls.eraseIdx k } ∧ call.Ok R s.issued ∧
      ∀ n, State.places { s with calls := s.calls.eraseIdx k } n + call.deleted.count n ≤ 1 := by
  have hcount : ∀ n, State.places { s with calls := s.calls.eraseIdx k } n + call.deleted.count n =
      s.places n := by
    intro n
    have := Pending.count_advance [] Call.deleted n hk
    simp only [List.append_nil, List.flatMap_nil, List.count_nil] at this
    simp only [State.places]
    omega
  have hle : ∀ n, State.places { s with calls := s.calls.eraseIdx k } n ≤ s.places n := by
    intro n
    have := hcount n
    omega
  refine ⟨⟨fun n => (hle n).trans (H.places_le n), fun n hn => ?_, H.rows, fun c hc => ?_,
    H.consumed⟩, H.calls call (List.mem_of_getElem? hk), fun n => (hcount n).trans_le (H.places_le n)⟩
  · have := H.known n hn
    have := hle n
    omega
  · exact H.calls c (List.mem_of_mem_eraseIdx hc)

/-- A new grant takes the next number. -/
theorem GrantInv.insertGrant (H : GrantInv R s) {rows : List StepUpGrant} {issue : Issue} {now : Nat}
    (hrows : rows.Sublist s.grants) (h : s.insertGrant R rows issue now = some s') :
    GrantInv R s' := by
  simp only [State.insertGrant] at h
  split at h
  · cases h
  cases h
  have hkept : (State.evictGrants rows issue.authenticationSessionId).Sublist s.grants :=
    List.filter_sublist.trans hrows
  have hzero := H.known s.issued.length (Nat.le_refl _)
  refine ⟨fun n => ?_, fun n hn => ?_, fun row hrow => ?_, fun call hcall => ?_, fun u hu => ?_⟩
  · have hle := (hkept.map (·.serial)).count_le n
    have := H.places_le n
    simp only [State.places] at this hzero
    simp only [State.places, List.map_append, List.count_append, List.map_singleton,
      List.count_singleton]
    split
    · rename_i heq
      have heq : s.issued.length = n := by simpa using heq
      subst n
      omega
    · omega
  · simp only [List.length_append, List.length_singleton] at hn
    have hle := (hkept.map (·.serial)).count_le n
    have := H.known n (by omega)
    have hne : (s.issued.length == n) = false := by simp; omega
    simp only [State.places] at this
    simp only [State.places, List.map_append, List.count_append, List.map_singleton,
      List.count_singleton, hne]
    simp only [Bool.false_eq_true, if_false]
    omega
  · rcases List.mem_append.mp hrow with hrow | hrow
    · exact (H.rows row (hkept.subset hrow)).append _
    · rw [List.mem_singleton.mp hrow]
      exact ⟨issue, by simp, rfl, rfl, rfl, rfl, rfl, rfl⟩
  · exact (H.calls call hcall).append _
  · exact (H.consumed u hu).append _

/-- The row of a token goes over to the call that has deleted it. -/
theorem GrantInv.delete (H : GrantInv R s) {token : String} {row : StepUpGrant}
    (hrow : s.grants.find? (·.tokenHash = tokenHash R token) = some row)
    (authSession : Option AuthSession) (action targetHash : String) (now : Nat) :
    GrantInv R
      { s with
        grants := s.grants.filter (·.tokenHash ≠ tokenHash R token)
        calls := s.calls ++ [.validating row token authSession action targetHash now] } := by
  have hmem := List.mem_of_find?_eq_some hrow
  have hhash : row.tokenHash = tokenHash R token := by
    simpa using List.find?_some hrow
  have hplaces : ∀ n, State.places
      { s with
        grants := s.grants.filter (·.tokenHash ≠ tokenHash R token)
        calls := s.calls ++ [.validating row token authSession action targetHash now] } n ≤
      s.places n := by
    intro n
    -- the deleted row is counted with the call and no longer in the table
    have hperm := (List.filter_append_perm
      (fun row => decide (row.tokenHash ≠ tokenHash R token)) s.grants).map (·.serial)
    have hin : row ∈ s.grants.filter fun row => !decide (row.tokenHash ≠ tokenHash R token) :=
      List.mem_filter.mpr ⟨hmem, by simp [hhash]⟩
    have hone := ((List.singleton_sublist.mpr hin).map (·.serial)).count_le n
    have hcount := hperm.count_eq n
    simp only [List.map_append, List.count_append] at hcount
    simp only [List.map_cons, List.map_nil] at hone
    simp only [State.places, List.flatMap_append, List.flatMap_cons, List.flatMap_nil,
      Call.deleted, List.count_append, List.append_nil]
    omega
  refine ⟨fun n => (hplaces n).trans (H.places_le n), fun n hn => ?_, fun r hr => ?_,
    fun call hcall => ?_, H.consumed⟩
  · have := H.known n hn
    have := hplaces n
    omega
  · exact H.rows r (List.mem_filter.mp hr).1
  · rcases List.mem_append.mp hcall with hcall | hcall
    · exact H.calls call hcall
    · rw [List.mem_singleton.mp hcall]
      exact ⟨H.rows row hmem, hhash⟩

/-- A consumption succeeds with the row its call has deleted. -/
theorem GrantInv.validate (H : GrantInv R s) {row : StepUpGrant} {token : String}
    (hok : row.Ok R s.issued ∧ row.tokenHash = tokenHash R token)
    (hplaces : ∀ n, s.places n + [row.serial].count n ≤ 1) (authSession : Option AuthSession)
    (action targetHash : String) (now : Nat) :
    GrantInv R (s.validate row token authSession action targetHash now).2 := by
  rw [State.validate.eq_def]
  split
  · exact H
  split
  · exact H
  rename_i hbound
  simp only [not_or, Decidable.not_not, Nat.not_le] at hbound
  split
  · exact H
  rename_i user _
  split
  · exact H
  rename_i hassurance
  obtain ⟨⟨issue, hissue, hhash, hsession, haction, htarget, hlevel, hexpires⟩, htoken⟩ := hok
  refine ⟨fun n => ?_, fun n hn => ?_, H.rows, H.calls, fun u hu => ?_⟩
  · have := hplaces n
    simp only [State.places] at this ⊢
    simp only [List.map_append, List.count_append, List.map_singleton]
    omega
  · have hn : s.issued.length ≤ n := hn
    have := H.known n hn
    have hne : row.serial ≠ n := by
      have := (List.getElem?_eq_some_iff.mp hissue).1
      omega
    simp only [State.places] at this ⊢
    simp only [List.map_append, List.count_append, List.map_singleton, List.count_singleton]
    simp only [beq_eq_false_iff_ne.mpr hne, Bool.false_eq_true, if_false]
    omega
  · rcases List.mem_append.mp hu with hu | hu
    · exact H.consumed u hu
    · rw [List.mem_singleton.mp hu]
      refine ⟨issue, hissue, hhash.symm.trans htoken, hsession.symm, haction.symm.trans hbound.2.1,
        htarget.symm.trans hbound.2.2.1, hexpires ▸ hbound.2.2.2, hlevel ▸ Nat.not_lt.mp hassurance⟩

/-! ## Intents -/

theorem IntentInv.init : IntentInv .init where
  ids := nofun
  serials := nofun
  unique := nofun
  approved := nofun
  approvals := nofun
  completed := nofun
  once _ := Nat.zero_le _
  issued := nofun

/-- Intents are deleted, and other tables change. -/
theorem IntentInv.fewer (H : IntentInv s) (hintents : ∀ row ∈ s'.intents, row ∈ s.intents)
    (hcount : s'.intentCount = s.intentCount) (happrovals : s'.approvals = s.approvals)
    (hissued : s'.issued = s.issued) : IntentInv s' where
  ids row hrow row' hrow' := H.ids row (hintents row hrow) row' (hintents row' hrow')
  serials row hrow := hcount ▸ H.serials row (hintents row hrow)
  unique row hrow row' hrow' := H.unique row (hintents row hrow) row' (hintents row' hrow')
  approved row hrow := happrovals ▸ H.approved row (hintents row hrow)
  approvals := happrovals ▸ H.approvals
  completed issue hissue i hi := by
    obtain ⟨hlt, hrows⟩ := H.completed issue (hissued ▸ hissue) i hi
    exact ⟨hcount ▸ hlt, fun row hrow => hrows row (hintents row hrow)⟩
  once := hissued ▸ H.once
  issued := by rw [hissued, happrovals]; exact H.issued

theorem le_foldl_max (ids : List Nat) (n : Nat) :
    n ≤ ids.foldl max n ∧ ∀ id ∈ ids, id ≤ ids.foldl max n := by
  induction ids generalizing n with
  | nil => exact ⟨Nat.le_refl _, nofun⟩
  | cons id ids ih =>
    obtain ⟨hn, hids⟩ := ih (max n id)
    refine ⟨(Nat.le_max_left ..).trans hn, fun id' hid' => ?_⟩
    rcases List.mem_cons.mp hid' with rfl | hid'
    · exact (Nat.le_max_right ..).trans hn
    · exact hids id' hid'

theorem lt_nextId {ids : List Nat} {id : Nat} (h : id ∈ ids) : id < nextId ids :=
  Nat.lt_succ_of_le ((le_foldl_max ids 0).2 id h)

theorem IntentInv.storeIntent (H : IntentInv s) (sessionId userId : Nat)
    (action targetHash : String) (requiredAssurance : AssuranceLevel) (token : String) (now : Nat) :
    IntentInv (s.storeIntent R sessionId userId action targetHash requiredAssurance token now).2 := by
  simp only [State.storeIntent]
  split
  · exact H
  split
  · exact H
  have hold : ∀ row ∈ s.intents.filter (now < ·.expiresAt), row ∈ s.intents :=
    fun row hrow => (List.mem_filter.mp hrow).1
  have hfresh : ∀ row ∈ s.intents.filter (now < ·.expiresAt),
      row.id < nextId ((s.intents.filter (now < ·.expiresAt)).map (·.id)) :=
    fun row hrow => lt_nextId (List.mem_map_of_mem hrow)
  refine ⟨fun row hrow row' hrow' heq => ?_, fun row hrow => ?_, fun row hrow row' hrow' heq => ?_,
    fun row hrow assurance hassurance => ?_, H.approvals, fun issue hissue i hi => ?_, H.once, H.issued⟩
  · rcases List.mem_append.mp hrow with hrow | hrow
    · rcases List.mem_append.mp hrow' with hrow' | hrow'
      · exact H.ids row (hold row hrow) row' (hold row' hrow') heq
      · rw [List.mem_singleton.mp hrow'] at heq
        exact absurd heq (Nat.ne_of_lt (hfresh row hrow))
    · rcases List.mem_append.mp hrow' with hrow' | hrow'
      · rw [List.mem_singleton.mp hrow] at heq
        exact absurd heq.symm (Nat.ne_of_lt (hfresh row' hrow'))
      · rw [List.mem_singleton.mp hrow, List.mem_singleton.mp hrow']
  · rcases List.mem_append.mp hrow with hrow | hrow
    · exact Nat.lt_succ_of_lt (H.serials row (hold row hrow))
    · rw [List.mem_singleton.mp hrow]
      exact Nat.lt_succ_self _
  · rcases List.mem_append.mp hrow with hrow | hrow
    · rcases List.mem_append.mp hrow' with hrow' | hrow'
      · exact H.unique row (hold row hrow) row' (hold row' hrow') heq
      · rw [List.mem_singleton.mp hrow'] at heq
        exact absurd heq (Nat.ne_of_lt (H.serials row (hold row hrow)))
    · rcases List.mem_append.mp hrow' with hrow' | hrow'
      · rw [List.mem_singleton.mp hrow] at heq
        exact absurd heq.symm (Nat.ne_of_lt (H.serials row' (hold row' hrow')))
      · rw [List.mem_singleton.mp hrow, List.mem_singleton.mp hrow']
  · rcases List.mem_append.mp hrow with hrow | hrow
    · exact H.approved row (hold row hrow) assurance hassurance
    · rw [List.mem_singleton.mp hrow] at hassurance
      cases hassurance
  · obtain ⟨hlt, hrows⟩ := H.completed issue hissue i hi
    refine ⟨Nat.lt_succ_of_lt hlt, fun row hrow hserial => ?_⟩
    rcases List.mem_append.mp hrow with hrow | hrow
    · exact hrows row (hold row hrow) hserial
    · rw [List.mem_singleton.mp hrow] at hserial
      exact absurd hserial.symm (Nat.ne_of_lt hlt)

/-- A row after the update of one intent that keeps its numbers. -/
theorem IntentInv.mem_updateIntent (H : IntentInv s) {row r : StepUpIntent}
    (hrow : row ∈ s.intents) {update : StepUpIntent → StepUpIntent}
    (hr : r ∈ (s.updateIntent row.id update).intents) : r = update row ∨ r ∈ s.intents ∧ r ≠ row := by
  obtain ⟨r₀, hr₀, heq⟩ := List.mem_map.mp hr
  split at heq
  · rename_i hid
    exact .inl (by rw [← heq, H.ids r₀ hr₀ row hrow hid])
  · rename_i hid
    refine .inr ⟨heq ▸ hr₀, ?_⟩
    rintro rfl
    exact hid (congrArg StepUpIntent.id heq)

/-- One intent that no grant completes gets another status, with its approval. -/
theorem IntentInv.updateIntent (H : IntentInv s) {row : StepUpIntent} (hrow : row ∈ s.intents)
    (update : StepUpIntent → StepUpIntent) (hid : (update row).id = row.id)
    (hserial : (update row).serial = row.serial) (approvals : List Approval) (issued : List Issue)
    (happroved : ∀ assurance, (update row).approvedAssurance = some assurance →
      ⟨row.serial, assurance, (update row).requiredAssurance⟩ ∈ s.approvals ++ approvals)
    (happrovals : ∀ approval ∈ approvals,
      approval.requiredAssurance.rank ≤ approval.assurance.rank)
    (hcompleted : ∀ issue ∈ s.issued ++ issued, ∀ i, issue.intent = some i →
      i < s.intentCount ∧ (i = row.serial → (update row).status = .completed) ∧
        ∀ r ∈ s.intents, r ≠ row → r.serial = i → r.status = .completed)
    (honce : ∀ i, (s.issued ++ issued).countP (·.intent = some i) ≤ 1)
    (hissued : ∀ issue ∈ issued, ∀ i, issue.intent = some i → ∃ approval ∈ s.approvals,
      approval.intent = i ∧ approval.assurance = issue.assurance) :
    IntentInv { s.updateIntent row.id update with
      approvals := s.approvals ++ approvals, issued := s.issued ++ issued } := by
  have hmem := fun {r : StepUpIntent} (hr : r ∈ (s.updateIntent row.id update).intents) =>
    H.mem_updateIntent hrow hr
  refine ⟨fun r hr r' hr' heq => ?_, fun r hr => ?_, fun r hr r' hr' heq => ?_,
    fun r hr assurance hassurance => ?_, fun approval happroval => ?_, fun issue hissue i hi => ?_,
    honce, fun issue hissue i hi => ?_⟩
  · rcases hmem hr with rfl | ⟨hr, hne⟩
    · rcases hmem hr' with rfl | ⟨hr', hne'⟩
      · rfl
      · exact absurd (H.ids row hrow r' hr' (hid.symm.trans heq)).symm hne'
    · rcases hmem hr' with rfl | ⟨hr', hne'⟩
      · exact absurd (H.ids r hr row hrow (heq.trans hid)) hne
      · exact H.ids r hr r' hr' heq
  · rcases hmem hr with rfl | ⟨hr, -⟩
    · exact hserial ▸ H.serials row hrow
    · exact H.serials r hr
  · rcases hmem hr with rfl | ⟨hr, hne⟩
    · rcases hmem hr' with rfl | ⟨hr', hne'⟩
      · rfl
      · exact absurd (H.unique row hrow r' hr' (hserial.symm.trans heq)).symm hne'
    · rcases hmem hr' with rfl | ⟨hr', hne'⟩
      · exact absurd (H.unique r hr row hrow (heq.trans hserial)) hne
      · exact H.unique r hr r' hr' heq
  · rcases hmem hr with rfl | ⟨hr, -⟩
    · rw [hserial]
      exact happroved assurance hassurance
    · exact List.mem_append_left _ (H.approved r hr assurance hassurance)
  · rcases List.mem_append.mp happroval with happroval | happroval
    · exact H.approvals approval happroval
    · exact happrovals approval happroval
  · obtain ⟨hlt, hself, hothers⟩ := hcompleted issue hissue i hi
    refine ⟨hlt, fun r hr hri => ?_⟩
    rcases hmem hr with rfl | ⟨hr, hne⟩
    · exact hself (hri.symm.trans hserial)
    · exact hothers r hr hne hri
  · rcases List.mem_append.mp hissue with hissue | hissue
    · obtain ⟨approval, happroval, hrest⟩ := H.issued issue hissue i hi
      exact ⟨approval, List.mem_append_left _ happroval, hrest⟩
    · obtain ⟨approval, happroval, hrest⟩ := hissued issue hissue i hi
      exact ⟨approval, List.mem_append_left _ happroval, hrest⟩

theorem usableIntent_eq {row? : Option StepUpIntent} {row : StepUpIntent} {user : User} {now : Nat}
    (h : State.usableIntent row? user now = some row) : row? = some row := by
  obtain ⟨row', hrow', h⟩ := Option.bind_eq_some_iff.mp h
  split at h
  · cases h
  · cases h
    exact hrow'

theorem boundAccountIntent_mem {token : String} {authSession : Option AuthSession}
    {status : IntentStatus} {row : StepUpIntent} {rest : Nat × AuthSession × User}
    (h : s.boundAccountIntent R token authSession status = some (row, rest)) :
    row ∈ s.intents ∧ row.status = status := by
  simp only [State.boundAccountIntent] at h
  split at h
  case isFalse => cases h
  obtain ⟨⟨sessionId, authSession, user⟩, -, h⟩ := Option.bind_eq_some_iff.mp h
  obtain ⟨row', hrow', h⟩ := Option.bind_eq_some_iff.mp h
  cases h
  have hfind := usableIntent_eq hrow'
  have hbound := List.find?_some hfind
  simp only [decide_eq_true_eq] at hbound
  exact ⟨List.mem_of_find?_eq_some hfind, hbound.2.2.2.2⟩

theorem IntentInv.not_issued (H : IntentInv s) {row : StepUpIntent} (hrow : row ∈ s.intents)
    (hstatus : row.status ≠ .completed) : ∀ issue ∈ s.issued, issue.intent ≠ some row.serial :=
  fun issue hissue hi => hstatus ((H.completed issue hissue _ hi).2 row hrow rfl)

/-- The row of an intent is there, and the statuses of the others are not touched. -/
theorem IntentInv.completed_of_ne (H : IntentInv s) {row : StepUpIntent} {issue : Issue}
    (hissue : issue ∈ s.issued) {i : Nat} (hi : issue.intent = some i) :
    ∀ r ∈ s.intents, r ≠ row → r.serial = i → r.status = .completed :=
  fun r hr _ hserial => (H.completed issue hissue i hi).2 r hr hserial

theorem IntentInv.approve (H : IntentInv s) {row : StepUpIntent} (hrow : row ∈ s.intents)
    (hstatus : row.status = .pending) (assurance : AssuranceLevel) :
    IntentInv (s.approveBoundAccountIntent row assurance).2 := by
  rw [State.approveBoundAccountIntent]
  split
  · exact H
  rename_i hrank
  have hnot := H.not_issued hrow (by rw [hstatus]; exact nofun)
  have H' := H.updateIntent hrow
    ({ · with status := .approved, approvedAssurance := some assurance }) rfl rfl
    [⟨row.serial, assurance, row.requiredAssurance⟩] []
    (fun level hlevel => by
      cases hlevel
      exact List.mem_append_right _ (List.mem_singleton_self _))
    (fun approval happroval => by
      rw [List.mem_singleton.mp happroval]
      exact Nat.not_lt.mp hrank)
    (fun issue hissue i hi => by
      rw [List.append_nil] at hissue
      refine ⟨(H.completed issue hissue i hi).1, fun heq => ?_, H.completed_of_ne hissue hi⟩
      exact absurd (heq ▸ hi) (hnot issue hissue))
    (by rw [List.append_nil]; exact H.once) nofun
  rwa [List.append_nil] at H'

theorem IntentInv.claim (H : IntentInv s) {row : StepUpIntent} (hrow : row ∈ s.intents)
    (hstatus : row.status = .approved) {issue : Issue} (hintent : issue.intent = some row.serial)
    (hassurance : row.approvedAssurance = some issue.assurance) {rows : List StepUpGrant} {now : Nat}
    (h : s.insertGrant R rows issue now = some s') :
    IntentInv (s'.updateIntent row.id ({ · with status := .completed })) := by
  simp only [State.insertGrant] at h
  split at h
  · cases h
  cases h
  have hnot := H.not_issued hrow (by rw [hstatus]; exact nofun)
  have happroval := H.approved row hrow _ hassurance
  have H' := H.updateIntent hrow ({ · with status := .completed }) rfl rfl [] [issue]
    (fun level hlevel => List.mem_append_left _ (H.approved row hrow level hlevel)) nofun
    (fun issue' hissue i hi => by
      rcases List.mem_append.mp hissue with hissue | hissue
      · exact ⟨(H.completed issue' hissue i hi).1, fun _ => rfl, H.completed_of_ne hissue hi⟩
      · rw [List.mem_singleton.mp hissue, hintent] at hi
        cases hi
        exact ⟨H.serials row hrow, fun _ => rfl,
          fun r hr hne heq => absurd (H.unique r hr row hrow heq) hne⟩)
    (fun i => by
      rw [List.countP_append, List.countP_singleton]
      have hle := H.once i
      split
      · rename_i heq
        have hi : issue.intent = some i := by simpa using heq
        rw [hintent] at hi
        cases hi
        rw [List.countP_eq_zero.mpr fun issue' hissue => by simpa using hnot issue' hissue]
      · omega)
    (fun issue' hissue i hi => by
      rw [List.mem_singleton.mp hissue] at hi ⊢
      rw [hintent] at hi
      cases hi
      exact ⟨_, happroval, rfl, rfl⟩)
  rw [List.append_nil] at H'
  exact H'.fewer (fun row hrow => hrow) rfl rfl rfl

theorem IntentInv.storeGrant (H : IntentInv s) {issue : Issue} (hintent : issue.intent = none)
    {rows : List StepUpGrant} {now : Nat} (h : s.insertGrant R rows issue now = some s') :
    IntentInv s' := by
  simp only [State.insertGrant] at h
  split at h
  · cases h
  cases h
  have hold : ∀ {issue' i}, issue' ∈ s.issued ++ [issue] → issue'.intent = some i →
      issue' ∈ s.issued := by
    intro issue' i hissue hi
    rcases List.mem_append.mp hissue with hissue | hissue
    · exact hissue
    · rw [List.mem_singleton.mp hissue, hintent] at hi
      cases hi
  refine ⟨H.ids, H.serials, H.unique, H.approved, H.approvals,
    fun issue' hissue i hi => H.completed issue' (hold hissue hi) i hi, fun i => ?_,
    fun issue' hissue i hi => H.issued issue' (hold hissue hi) i hi⟩
  rw [List.countP_append, List.countP_singleton, hintent]
  exact H.once i

/-! ## Every step -/

/-- What holds in every state that is reached. -/
structure Inv (R : Runtime) (s : State) : Prop where
  grant : GrantInv R s
  intent : IntentInv s

theorem Inv.start (H : Inv R s) {call? : Option Call}
    (hcall : ∀ call, call? = some call → call.deleted = [] ∧ call.Ok R s.issued) :
    Inv R (s.start call?).2 := by
  cases call? with
  | none => exact H
  | some call =>
    obtain ⟨hdeleted, hok⟩ := hcall call rfl
    exact ⟨H.grant.start hdeleted hok, H.intent.fewer (fun row hrow => hrow) rfl rfl rfl⟩

theorem Inv.approve (H : Inv R s) {row : StepUpIntent} (hrow : row ∈ s.intents)
    (hstatus : row.status = .pending) (assurance : AssuranceLevel) :
    Inv R (s.approveBoundAccountIntent row assurance).2 := by
  refine ⟨?_, H.intent.approve hrow hstatus assurance⟩
  rw [State.approveBoundAccountIntent]
  split
  · exact H.grant
  · exact H.grant.fewer (List.Sublist.refl _) rfl rfl rfl

theorem Inv.claim (H : Inv R s) (token : String) (authSession : Option AuthSession)
    (grant : String) : Inv R (s.claimAccountStepUpGrant R token authSession grant).2 := by
  rw [State.claimAccountStepUpGrant.eq_def]
  split
  · exact H
  rename_i row sessionId authSession user hbound
  obtain ⟨hrow, hstatus⟩ := boundAccountIntent_mem hbound
  split
  · exact H
  rename_i assurance hassurance
  split
  · exact H
  split
  · exact H
  split
  · exact H
  rename_i s' hs'
  refine ⟨?_, H.intent.claim hrow hstatus rfl hassurance hs'⟩
  exact (H.grant.insertGrant (List.Sublist.refl _) hs').fewer (List.Sublist.refl _) rfl rfl rfl

theorem Inv.storeGrant (H : Inv R s) (session sessionId : Nat) (action targetHash : String)
    (assurance : AssuranceLevel) (token : String) (now : Nat) :
    Inv R (s.storeGrant R session sessionId action targetHash assurance token now).2 := by
  rw [State.storeGrant]
  split
  · exact H
  rename_i s' hs'
  exact ⟨H.grant.insertGrant List.filter_sublist hs', H.intent.storeGrant rfl hs'⟩

theorem Inv.continueCall (H : Inv R s) {call : Call} (hok : call.Ok R s.issued)
    (hplaces : ∀ n, s.places n + call.deleted.count n ≤ 1) :
    Inv R (s.continueCall R call).2 := by
  cases call with
  | creatingIntent sessionId userId action targetHash requiredAssurance token now =>
    refine ⟨?_, H.intent.storeIntent ..⟩
    simp only [State.continueCall, State.storeIntent]
    split
    · exact H.grant
    split
    · exact H.grant
    · exact H.grant.fewer (List.Sublist.refl _) rfl rfl rfl
  | creatingGrant session sessionId action targetHash assurance token now =>
    exact H.storeGrant ..
  | consuming token authSession action targetHash now =>
    rw [State.continueCall]
    split
    · exact H
    rename_i row hrow
    exact ⟨H.grant.delete hrow authSession action targetHash now,
      H.intent.fewer (fun row hrow => hrow) rfl rfl rfl⟩
  | validating row token authSession action targetHash now =>
    refine ⟨H.grant.validate hok hplaces .., ?_⟩
    rw [State.continueCall, State.validate.eq_def]
    split
    · exact H.intent
    split
    · exact H.intent
    split
    · exact H.intent
    split
    · exact H.intent
    · exact H.intent.fewer (fun row hrow => hrow) rfl rfl rfl

theorem startIntent_ok {authSession : Option AuthSession} {action : String} {target : Value}
    {token : String} {issued : List Issue} {call : Call}
    (h : s.startIntent R authSession action target token = some call) :
    call.deleted = [] ∧ call.Ok R issued := by
  simp only [State.startIntent] at h
  obtain ⟨action, -, h⟩ := Option.bind_eq_some_iff.mp h
  split at h
  · cases h
  obtain ⟨targetHash, -, h⟩ := Option.bind_eq_some_iff.mp h
  obtain ⟨⟨sessionId, authSession, user⟩, -, h⟩ := Option.bind_eq_some_iff.mp h
  cases h
  exact ⟨rfl, trivial⟩

theorem startGrant_ok {authSession : Option AuthSession} {action targetHash : String}
    {assurance : Option AssuranceLevel} {token : String} {issued : List Issue} {call : Call}
    (h : s.startGrant authSession action targetHash assurance token = some call) :
    call.deleted = [] ∧ call.Ok R issued := by
  simp only [State.startGrant] at h
  obtain ⟨action, -, h⟩ := Option.bind_eq_some_iff.mp h
  split at h
  case isFalse => cases h
  obtain ⟨assurance, -, h⟩ := Option.bind_eq_some_iff.mp h
  obtain ⟨⟨sessionId, authSession, user⟩, -, h⟩ := Option.bind_eq_some_iff.mp h
  split at h
  · cases h
  · cases h
    exact ⟨rfl, trivial⟩

theorem startConsume_ok {token : String} {authSession : Option AuthSession} {action : String}
    {target : Value} {issued : List Issue} {call : Call}
    (h : s.startConsume R token authSession action target = some call) :
    call.deleted = [] ∧ call.Ok R issued := by
  simp only [State.startConsume] at h
  split at h
  · split at h <;> cases h <;> exact ⟨rfl, trivial⟩
  · cases h

/-- A step is a call for a session that the caller can have loaded. -/
theorem step_eq {action : Action} {r : Result × State} (h : s.step R action = some r) :
    s.loadable action.authSession = true ∧ s.perform R action = some r := by
  rw [State.step] at h
  split at h
  · exact ⟨‹_›, h⟩
  · cases h

theorem Inv.step (H : Inv R s) {action : Action} {r : Result × State}
    (h : s.step R action = some r) : Inv R r.2 := by
  obtain ⟨-, h⟩ := step_eq h
  cases action with
  | createAccountStepUpIntent authSession action target token =>
    cases h
    exact H.start fun call hcall => startIntent_ok hcall
  | approveAccountStepUpIntent token authSession assurance method =>
    cases h
    rw [State.approveAccountStepUpIntent.eq_def]
    split
    · split
      · rename_i row rest hbound
        obtain ⟨hrow, hstatus⟩ := boundAccountIntent_mem hbound
        exact H.approve hrow hstatus _
      · exact H
    · exact H
  | approveAccountStepUpIntentById intentId authSession assurance method =>
    cases h
    rw [State.approveAccountStepUpIntentById.eq_def]
    split
    · split
      · split
        · rename_i row hrow
          have hfind := usableIntent_eq hrow
          have hbound := List.find?_some hfind
          simp only [decide_eq_true_eq] at hbound
          exact H.approve (List.mem_of_find?_eq_some hfind) hbound.2.2.2.2 _
        · exact H
      · exact H
    · exact H
  | claimAccountStepUpGrant token authSession grant =>
    cases h
    exact H.claim token authSession grant
  | createStepUpGrant authSession action target assurance token =>
    cases h
    refine H.start fun call hcall => ?_
    obtain ⟨targetHash, -, hcall⟩ := Option.bind_eq_some_iff.mp hcall
    exact startGrant_ok hcall
  | createStepUpGrantForHash authSession action targetHash assurance token =>
    cases h
    exact H.start fun call hcall => startGrant_ok hcall
  | consumeStepUpGrant token authSession action target =>
    cases h
    exact H.start fun call hcall => startConsume_ok hcall
  | resume k =>
    obtain ⟨call, hk, hcall⟩ := Option.map_eq_some_iff.mp h
    obtain ⟨hgrant, hok, hplaces⟩ := H.grant.take hk
    have H' : Inv R { s with calls := s.calls.eraseIdx k } :=
      ⟨hgrant, H.intent.fewer (fun row hrow => hrow) rfl rfl rfl⟩
    exact hcall ▸ H'.continueCall hok hplaces
  | setUser userId user =>
    cases h
    exact ⟨H.grant.fewer (List.Sublist.refl _) rfl rfl rfl,
      H.intent.fewer (fun row hrow => hrow) rfl rfl rfl⟩
  | createAuthenticationSession userId expiresAt authGeneration =>
    cases h
    exact ⟨H.grant.fewer (List.Sublist.refl _) rfl rfl rfl,
      H.intent.fewer (fun row hrow => hrow) rfl rfl rfl⟩
  | deleteCurrentAuthenticationSession session =>
    cases h
    exact ⟨H.grant.fewer (List.Sublist.refl _) rfl rfl rfl,
      H.intent.fewer (fun row hrow => hrow) rfl rfl rfl⟩
  | deleteRows sessions intents grants =>
    cases h
    exact ⟨H.grant.fewer List.filter_sublist rfl rfl rfl,
      H.intent.fewer (fun row hrow => (List.mem_filter.mp hrow).1) rfl rfl rfl⟩
  | tick microseconds =>
    cases h
    exact ⟨H.grant.fewer (List.Sublist.refl _) rfl rfl rfl,
      H.intent.fewer (fun row hrow => hrow) rfl rfl rfl⟩

theorem reachable_inv (h : (system R).Reachable s) : Inv R s := by
  refine h.invariant (fun s hs => ?_) fun s a t H hstep => H.step hstep
  cases hs
  exact ⟨GrantInv.init, IntentInv.init⟩

/-! ## What the grants and the intents authorize -/

/-- The tokens of the grants and of the consumptions. -/
def State.tokens (s : State) : Set String :=
  {token | token ∈ s.issued.map (·.token) ∨ token ∈ s.consumed.map (·.token)}

/-- The grant a consumption has deleted carries the token it was called with. -/
theorem GrantInv.issue_of_consumed (H : GrantInv R s) (hcollision : Set.InjOn (tokenHash R) s.tokens)
    {u : Consumption} (hu : u ∈ s.consumed) :
    ∃ issue, s.issued[u.grant]? = some issue ∧ issue.token = u.token ∧
      issue.authenticationSessionId = u.authenticationSessionId ∧ issue.action = u.action ∧
      issue.targetHash = u.targetHash ∧ u.startedAt < issue.expiresAt ∧
      u.requiredAssurance.rank ≤ issue.assurance.rank := by
  obtain ⟨issue, hissue, hhash, hrest⟩ := H.consumed u hu
  refine ⟨issue, hissue, ?_, hrest⟩
  apply hcollision _ _ hhash
  · exact .inl (List.mem_map_of_mem (List.mem_of_getElem? hissue))
  · exact .inr (List.mem_map_of_mem hu)

/-- Two consumptions with one token have deleted one grant. -/
theorem GrantInv.grant_eq (H : GrantInv R s) (hfresh : (s.issued.map (·.token)).Nodup)
    (hcollision : Set.InjOn (tokenHash R) s.tokens) {u u' : Consumption} (hu : u ∈ s.consumed)
    (hu' : u' ∈ s.consumed) (htoken : u.token = u'.token) : u.grant = u'.grant := by
  obtain ⟨issue, hissue, hissueToken, -⟩ := H.issue_of_consumed hcollision hu
  obtain ⟨issue', hissue', hissueToken', -⟩ := H.issue_of_consumed hcollision hu'
  have hget : (s.issued.map (·.token))[u.grant]? = some u.token := by
    rw [List.getElem?_map, hissue, Option.map_some, hissueToken]
  have hget' : (s.issued.map (·.token))[u'.grant]? = some u.token := by
    rw [List.getElem?_map, hissue', Option.map_some, hissueToken', htoken]
  have hlt := (List.getElem?_eq_some_iff.mp hget).1
  exact (List.getElem?_inj hlt hfresh).mp (hget.trans hget'.symm)

theorem GrantInv.consumed_once (H : GrantInv R s) (hfresh : (s.issued.map (·.token)).Nodup)
    (hcollision : Set.InjOn (tokenHash R) s.tokens) (token : String) :
    s.consumed.countP (·.token = token) ≤ 1 := by
  rcases Nat.eq_zero_or_pos (s.consumed.countP (·.token = token)) with hzero | hpos
  · exact hzero ▸ Nat.zero_le 1
  obtain ⟨u, hu, htoken⟩ := List.countP_pos_iff.mp hpos
  have htoken : u.token = token := by simpa using htoken
  have hmono : s.consumed.countP (·.token = token) ≤ s.consumed.countP (·.grant == u.grant) := by
    apply List.countP_mono_left
    intro u' hu' htoken'
    have htoken' : u'.token = token := by simpa using htoken'
    rw [beq_iff_eq]
    exact H.grant_eq hfresh hcollision hu' hu (htoken'.trans htoken.symm)
  have hplaces := H.places_le u.grant
  simp only [State.places, List.count, List.countP_map] at hplaces
  have hgrant : s.consumed.countP ((· == u.grant) ∘ (·.grant)) =
      s.consumed.countP (·.grant == u.grant) := rfl
  omega

/-- In every run a grant token authorizes one call, for what it was issued for as the row says it,
and an account intent yields one grant, for an approval of sufficient assurance. -/
theorem authorized_of_reachable (h : (system R).Reachable s)
    (hfresh : (s.issued.map (·.token)).Nodup) (hcollision : Set.InjOn (tokenHash R) s.tokens) :
    (∀ token, s.consumed.countP (·.token = token) ≤ 1) ∧
    (∀ u ∈ s.consumed, ∃ issue, s.issued[u.grant]? = some issue ∧ issue.token = u.token ∧
      issue.authenticationSessionId = u.authenticationSessionId ∧ issue.action = u.action ∧
      issue.targetHash = u.targetHash ∧ u.startedAt < issue.expiresAt ∧
      u.requiredAssurance.rank ≤ issue.assurance.rank) ∧
    (∀ i, s.issued.countP (·.intent = some i) ≤ 1) ∧
    (∀ issue ∈ s.issued, ∀ i, issue.intent = some i → ∃ approval ∈ s.approvals,
      approval.intent = i ∧ approval.assurance = issue.assurance ∧
      approval.requiredAssurance.rank ≤ approval.assurance.rank) := by
  have H := reachable_inv h
  refine ⟨H.grant.consumed_once hfresh hcollision,
    fun u hu => H.grant.issue_of_consumed hcollision hu, H.intent.once, fun issue hissue i hi => ?_⟩
  obtain ⟨approval, happroval, hintent, hassurance⟩ := H.intent.issued issue hissue i hi
  exact ⟨approval, happroval, hintent, hassurance, H.intent.approvals approval happroval⟩

end WebSSH.StepUp
