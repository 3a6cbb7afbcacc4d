import WebSSH.StepUp.Authorization

/-!
# The session that a grant is issued for

A grant names its session by the id of a row, which a later session gets again once the row is
gone. A logout deletes the row of the session and leaves its grants.
-/

namespace WebSSH.StepUp
open Lib Python

variable {R : Runtime} {s s' : State}

/-- Session `n` is the last one that got the id. -/
structure Latest (sessions : List AuthSession) (id n : Nat) : Prop where
  known : ∃ a ∈ sessions, a.id = some id ∧ a.serial = n
  last : ∀ a ∈ sessions, a.id = some id → a.serial ≤ n

theorem Latest.eq {sessions : List AuthSession} {id n m : Nat} (hn : Latest sessions id n)
    (hm : Latest sessions id m) : n = m := by
  obtain ⟨a, ha, haid, rfl⟩ := hn.known
  obtain ⟨b, hb, hbid, rfl⟩ := hm.known
  exact Nat.le_antisymm (hm.last a ha haid) (hn.last b hb hbid)

theorem Latest.append {sessions : List AuthSession} {id n : Nat} (h : Latest sessions id n)
    {a : AuthSession} (ha : a.id ≠ some id) : Latest (sessions ++ [a]) id n where
  known := by
    obtain ⟨b, hb, hrest⟩ := h.known
    exact ⟨b, List.mem_append_left _ hb, hrest⟩
  last b hb hid := by
    rcases List.mem_append.mp hb with hb | hb
    · exact h.last b hb hid
    · exact absurd (List.mem_singleton.mp hb ▸ hid) ha

/-! ## Runs that keep sessions of one id apart -/

/-- A later session has the id. -/
def State.reused (s : State) (a : AuthSession) : Bool :=
  s.sessions.any fun b => b.id = a.id ∧ a.serial < b.serial

/-- A grant is going to be stored or looked up for a session of that id. -/
def Call.binds (id : Nat) : Call → Bool
  | .creatingGrant _ sessionId .. => sessionId = id
  | .consuming _ authSession .. => authSession.any (·.id = some id)
  | .creatingIntent .. | .validating .. => false

/-- Nothing of an earlier session of that id is still good. -/
def State.vacant (s : State) (id : Nat) : Bool :=
  (s.grants.all fun row => row.authenticationSessionId = id → row.expiresAt ≤ s.now) &&
    s.calls.all fun call => !call.binds id

/-- A consumption that has read the clock before the expiry of its grant goes on before it. -/
def State.prompt (R : Runtime) (s : State) : Call → Bool
  | .consuming token _ _ _ now => s.grants.all fun row =>
    row.tokenHash = tokenHash R token → now < row.expiresAt → s.now < row.expiresAt
  | .validating row _ _ _ _ now => now < row.expiresAt → s.now < row.expiresAt
  | .creatingIntent .. | .creatingGrant .. => true

/-- No call is made for a session whose id a later one has, none gets an id while a grant of an
earlier one is good, and no consumption waits beyond the expiry of its grant. -/
def State.apart (R : Runtime) (s : State) (action : Action) : Bool :=
  action.authSession.all (!s.reused ·) &&
    match action with
    | .createAuthenticationSession .. => s.vacant s.nextSessionId
    | .resume k => (s.calls[k]?).all (s.prompt R ·)
    | _ => true

theorem latest_of_not_reused {a : AuthSession} (hload : s.loadable (some a) = true)
    (hreused : s.reused a = false) {id : Nat} (hid : a.id = some id) :
    Latest s.sessions id a.serial := by
  have hmem : a ∈ s.sessions := by
    simpa [State.loadable, hid] using hload
  refine ⟨⟨a, hmem, hid, rfl⟩, fun b hb hbid => ?_⟩
  by_contra hlt
  have hany : s.reused a = true :=
    List.any_eq_true.mpr ⟨b, hb, decide_eq_true ⟨hbid.trans hid.symm, Nat.not_le.mp hlt⟩⟩
  rw [hany] at hreused
  cases hreused

/-! ## The invariant of such runs -/

/-- The row is of the last session with its id. -/
def StepUpGrant.Bound (s : State) (row : StepUpGrant) : Prop :=
  ∃ issue, s.issued[row.serial]? = some issue ∧
    Latest s.sessions row.authenticationSessionId issue.session

def Call.Bound (s : State) : Call → Prop
  | .creatingGrant session sessionId .. => Latest s.sessions sessionId session
  | .consuming _ authSession .. =>
    ∀ a ∈ authSession, ∀ id, a.id = some id → Latest s.sessions id a.serial
  | .validating row _ authSession _ _ now => now < row.expiresAt →
    ∀ a ∈ authSession, a.id = some row.authenticationSessionId →
      ∃ issue, s.issued[row.serial]? = some issue ∧ issue.session = a.serial
  | .creatingIntent .. => True

/-- The session of the call is that of the grant, which has not expired. -/
def Consumption.Bound (issued : List Issue) (u : Consumption) : Prop :=
  ∃ issue, issued[u.grant]? = some issue ∧ issue.session = u.session ∧
    u.returnedAt < issue.expiresAt

structure Bound (s : State) : Prop where
  rows : ∀ row ∈ s.grants, s.now < row.expiresAt → row.Bound s
  calls : ∀ call ∈ s.calls, call.Bound s
  consumed : ∀ u ∈ s.consumed, u.Bound s.issued

theorem Bound.init : Bound .init where
  rows := nofun
  calls := nofun
  consumed := nofun

theorem Call.Bound.of_eq {call : Call} (h : call.Bound s) (hsessions : s'.sessions = s.sessions)
    (hissued : s'.issued = s.issued) : call.Bound s' := by
  cases call with
  | creatingIntent => trivial
  | creatingGrant | consuming | validating =>
    simp only [Call.Bound, hsessions, hissued] at h ⊢
    exact h

/-- Rows are deleted, calls end and the clock advances. -/
theorem Bound.fewer (H : Bound s) (hsessions : s'.sessions = s.sessions) (hnow : s.now ≤ s'.now)
    (hgrants : ∀ row ∈ s'.grants, row ∈ s.grants) (hcalls : ∀ call ∈ s'.calls, call ∈ s.calls)
    (hissued : s'.issued = s.issued) (hconsumed : s'.consumed = s.consumed) : Bound s' where
  rows row hrow hlive := by
    rw [StepUpGrant.Bound, hsessions, hissued]
    exact H.rows row (hgrants row hrow) (hnow.trans_lt hlive)
  calls call hcall := (H.calls call (hcalls call hcall)).of_eq hsessions hissued
  consumed := by
    rw [hconsumed, hissued]
    exact H.consumed

theorem Bound.start (H : Bound s) {call : Call} (hcall : call.Bound s) :
    Bound { s with calls := s.calls ++ [call] } where
  rows := H.rows
  calls c hc := by
    rcases List.mem_append.mp hc with hc | hc
    · exact (H.calls c hc).of_eq rfl rfl
    · exact (List.mem_singleton.mp hc ▸ hcall).of_eq rfl rfl
  consumed := H.consumed

/-- An issued grant keeps its number. -/
theorem getElem?_issued {more : List Issue} {n : Nat} {issue : Issue}
    (h : s.issued[n]? = some issue) : (s.issued ++ more)[n]? = some issue := by
  rw [List.getElem?_append_left (List.getElem?_eq_some_iff.mp h).1, h]

/-- A grant is stored for the last session with its id. -/
theorem Bound.insertGrant (H : Bound s) {rows : List StepUpGrant} {issue : Issue} {now : Nat}
    (hrows : rows.Sublist s.grants)
    (hlatest : Latest s.sessions issue.authenticationSessionId issue.session)
    (h : s.insertGrant R rows issue now = some s') : Bound s' := by
  simp only [State.insertGrant] at h
  split at h
  · cases h
  cases h
  refine ⟨fun row hrow hlive => ?_, fun call hcall => ?_, fun u hu => ?_⟩
  · rcases List.mem_append.mp hrow with hrow | hrow
    · have hmem := hrows.subset (List.mem_filter.mp hrow).1
      obtain ⟨old, hold, hsession⟩ := H.rows row hmem hlive
      exact ⟨old, getElem?_issued hold, hsession⟩
    · rw [List.mem_singleton.mp hrow]
      exact ⟨issue, by simp, hlatest⟩
  · have hbound := H.calls call hcall
    cases call with
    | creatingIntent => trivial
    | creatingGrant | consuming => exact hbound
    | validating row token authSession action targetHash now =>
      intro hlive a ha hid
      obtain ⟨old, hold, hsession⟩ := hbound hlive a ha hid
      exact ⟨old, getElem?_issued hold, hsession⟩
  · obtain ⟨old, hold, hsession⟩ := H.consumed u hu
    exact ⟨old, getElem?_issued hold, hsession⟩

/-- A session gets an id of which nothing is good any more. -/
theorem Bound.create (H : Bound s) (hvacant : s.vacant s.nextSessionId = true)
    (userId expiresAt : Nat) (authGeneration : Int) :
    Bound (s.createAuthenticationSession userId expiresAt authGeneration) := by
  obtain ⟨hgrants, hcalls⟩ := Bool.and_eq_true_iff.mp hvacant
  have hne : ∀ {id : Nat}, s.nextSessionId ≠ id →
      (⟨s.sessions.length, some s.nextSessionId, userId, expiresAt, authGeneration⟩ :
        AuthSession).id ≠ some id :=
    fun h heq => h (Option.some.inj heq)
  refine ⟨fun row hrow hlive => ?_, fun call hcall => ?_, H.consumed⟩
  · obtain ⟨issue, hissue, hlatest⟩ := H.rows row hrow hlive
    refine ⟨issue, hissue, hlatest.append (hne fun heq => ?_)⟩
    have hexpired := of_decide_eq_true (List.all_eq_true.mp hgrants row hrow) heq.symm
    exact absurd hlive (Nat.not_lt.mpr hexpired)
  · have hbound := H.calls call hcall
    have hbinds := List.all_eq_true.mp hcalls call hcall
    cases call with
    | creatingIntent => trivial
    | creatingGrant session sessionId action targetHash assurance token now =>
      exact Latest.append hbound (hne fun heq => by simp [Call.binds, heq] at hbinds)
    | consuming token authSession action targetHash now =>
      intro a ha id hid
      cases ha
      exact (hbound a rfl id hid).append (hne fun heq => by simp [Call.binds, hid, heq] at hbinds)
    | validating => exact hbound

/-- A consumption deletes the row of its token in time. -/
theorem Bound.delete (H : Bound s) {row : StepUpGrant} {token : String}
    {authSession : Option AuthSession} {action targetHash : String} {now : Nat}
    (hrow : s.grants.find? (·.tokenHash = tokenHash R token) = some row)
    (hcall : (Call.consuming token authSession action targetHash now).Bound s)
    (hprompt : s.prompt R (.consuming token authSession action targetHash now) = true) :
    Bound
      { s with
        grants := s.grants.filter (·.tokenHash ≠ tokenHash R token)
        calls := s.calls ++ [.validating row token authSession action targetHash now] } := by
  have hmem := List.mem_of_find?_eq_some hrow
  have hhash : row.tokenHash = tokenHash R token := by
    simpa using List.find?_some hrow
  refine Bound.start (s := { s with grants := s.grants.filter (·.tokenHash ≠ tokenHash R token) })
    (H.fewer rfl (Nat.le_refl _) (fun r hr => (List.mem_filter.mp hr).1) (fun c hc => hc) rfl rfl) ?_
  intro hlive a ha hid
  have hlive := of_decide_eq_true (List.all_eq_true.mp hprompt row hmem) hhash hlive
  obtain ⟨issue, hissue, hlatest⟩ := H.rows row hmem hlive
  exact ⟨issue, hissue, hlatest.eq (hcall a ha _ hid)⟩

/-- A consumption succeeds in time. -/
theorem Bound.validate (H : Bound s) {row : StepUpGrant} {token : String}
    {authSession : Option AuthSession} {action targetHash : String} {now : Nat}
    (hok : row.Ok R s.issued)
    (hcall : (Call.validating row token authSession action targetHash now).Bound s)
    (hprompt : s.prompt R (.validating row token authSession action targetHash now) = true) :
    Bound (s.validate row token authSession action targetHash now).2 := by
  rw [State.validate.eq_def]
  split
  · exact H
  rename_i a
  split
  · exact H
  rename_i hbound
  simp only [not_or, Decidable.not_not, Nat.not_le] at hbound
  split
  · exact H
  split
  · exact H
  refine ⟨H.rows, fun call hcall => (H.calls call hcall).of_eq rfl rfl, fun u hu => ?_⟩
  rcases List.mem_append.mp hu with hu | hu
  · exact H.consumed u hu
  · rw [List.mem_singleton.mp hu]
    obtain ⟨issue, hissue, hsession⟩ := hcall hbound.2.2.2 a rfl hbound.1.symm
    obtain ⟨issue', hissue', -, -, -, -, -, hexpires⟩ := hok
    cases hissue.symm.trans hissue'
    exact ⟨issue, hissue, hsession, hexpires ▸ of_decide_eq_true hprompt hbound.2.2.2⟩

theorem validAuthenticationSession_eq {authSession : Option AuthSession} {now id : Nat}
    {a : AuthSession} {user : User}
    (h : s.validAuthenticationSession authSession now = some (id, a, user)) :
    authSession = some a ∧ a.id = some id := by
  obtain ⟨b, hb, h⟩ := Option.bind_eq_some_iff.mp h
  obtain ⟨user, -, h⟩ := Option.bind_eq_some_iff.mp h
  obtain ⟨sessionId, hid, h⟩ := Option.bind_eq_some_iff.mp h
  split at h
  · cases h
  · cases h
    exact ⟨hb, hid⟩

theorem boundAccountIntent_session {token : String} {authSession : Option AuthSession}
    {status : IntentStatus} {row : StepUpIntent} {id : Nat} {a : AuthSession} {user : User}
    (h : s.boundAccountIntent R token authSession status = some (row, id, a, user)) :
    authSession = some a ∧ a.id = some id := by
  simp only [State.boundAccountIntent] at h
  split at h
  case isFalse => cases h
  obtain ⟨⟨sessionId, b, user⟩, hvalid, h⟩ := Option.bind_eq_some_iff.mp h
  obtain ⟨row', -, h⟩ := Option.bind_eq_some_iff.mp h
  cases h
  exact validAuthenticationSession_eq hvalid

/-- The session of a call is the last one with its id. -/
def Fit (s : State) (authSession : Option AuthSession) : Prop :=
  ∀ a ∈ authSession, ∀ id, a.id = some id → Latest s.sessions id a.serial

theorem Bound.startCall (H : Bound s) {call? : Option Call}
    (hcall : ∀ call, call? = some call → call.Bound s) : Bound (s.start call?).2 := by
  cases call? with
  | none => exact H
  | some call => exact H.start (hcall call rfl)

theorem startGrant_bound {authSession : Option AuthSession} {action targetHash : String}
    {assurance : Option AssuranceLevel} {token : String} {call : Call} (hfit : Fit s authSession)
    (h : s.startGrant authSession action targetHash assurance token = some call) :
    call.Bound s := by
  simp only [State.startGrant] at h
  obtain ⟨action, -, h⟩ := Option.bind_eq_some_iff.mp h
  split at h
  case isFalse => cases h
  obtain ⟨assurance, -, h⟩ := Option.bind_eq_some_iff.mp h
  obtain ⟨⟨sessionId, a, user⟩, hvalid, h⟩ := Option.bind_eq_some_iff.mp h
  split at h
  · cases h
  · cases h
    obtain ⟨rfl, hid⟩ := validAuthenticationSession_eq hvalid
    exact hfit a rfl sessionId hid

theorem Bound.claim (H : Bound s) {token : String} {authSession : Option AuthSession}
    {grant : String} (hfit : Fit s authSession) :
    Bound (s.claimAccountStepUpGrant R token authSession grant).2 := by
  rw [State.claimAccountStepUpGrant.eq_def]
  split
  · exact H
  rename_i row sessionId a user hbound
  obtain ⟨rfl, hid⟩ := boundAccountIntent_session hbound
  split
  · exact H
  split
  · exact H
  split
  · exact H
  split
  · exact H
  rename_i s' hs'
  have H' := H.insertGrant (List.Sublist.refl _) (hfit a rfl sessionId hid) hs'
  exact H'.fewer rfl (Nat.le_refl _) (fun r hr => hr) (fun c hc => hc) rfl rfl

theorem Bound.approve (H : Bound s) (row : StepUpIntent) (assurance : AssuranceLevel) :
    Bound (s.approveBoundAccountIntent row assurance).2 := by
  rw [State.approveBoundAccountIntent]
  split
  · exact H
  · exact H.fewer rfl (Nat.le_refl _) (fun r hr => hr) (fun c hc => hc) rfl rfl

theorem Bound.continueCall (H : Bound s) {call : Call} (hok : call.Ok R s.issued)
    (hcall : call.Bound s) (hprompt : s.prompt R call = true) :
    Bound (s.continueCall R call).2 := by
  cases call with
  | creatingIntent sessionId userId action targetHash requiredAssurance token now =>
    simp only [State.continueCall, State.storeIntent]
    split
    · exact H
    split
    · exact H
    · exact H.fewer rfl (Nat.le_refl _) (fun r hr => hr) (fun c hc => hc) rfl rfl
  | creatingGrant session sessionId action targetHash assurance token now =>
    rw [State.continueCall, State.storeGrant]
    split
    · exact H
    · rename_i s' hs'
      have hlatest : Latest s.sessions sessionId session := hcall
      exact H.insertGrant List.filter_sublist hlatest hs'
  | consuming token authSession action targetHash now =>
    rw [State.continueCall]
    split
    · exact H
    · exact H.delete ‹_› hcall hprompt
  | validating row token authSession action targetHash now => exact H.validate hok.1 hcall hprompt

theorem Bound.step (H : Bound s) (hinv : Inv R s) {action : Action} {r : Result × State}
    (hapart : s.apart R action = true) (h : s.step R action = some r) : Bound r.2 := by
  obtain ⟨hload, h⟩ := step_eq h
  obtain ⟨hreused, hcase⟩ := Bool.and_eq_true_iff.mp hapart
  have hfit : Fit s action.authSession := by
    intro a ha id hid
    rw [Option.mem_def.mp ha] at hload hreused
    exact latest_of_not_reused hload (by simpa using hreused) hid
  cases action with
  | createAccountStepUpIntent authSession action target token =>
    cases h
    refine H.startCall fun call hcall => ?_
    simp only [State.startIntent] at hcall
    obtain ⟨action, -, hcall⟩ := Option.bind_eq_some_iff.mp hcall
    split at hcall
    · cases hcall
    obtain ⟨targetHash, -, hcall⟩ := Option.bind_eq_some_iff.mp hcall
    obtain ⟨⟨sessionId, a, user⟩, -, hcall⟩ := Option.bind_eq_some_iff.mp hcall
    cases hcall
    trivial
  | approveAccountStepUpIntent token authSession assurance method =>
    cases h
    rw [State.approveAccountStepUpIntent.eq_def]
    split
    · split
      · exact H.approve _ _
      · exact H
    · exact H
  | approveAccountStepUpIntentById intentId authSession assurance method =>
    cases h
    rw [State.approveAccountStepUpIntentById.eq_def]
    split
    · split
      · split
        · exact H.approve _ _
        · exact H
      · exact H
    · exact H
  | claimAccountStepUpGrant token authSession grant =>
    cases h
    exact H.claim hfit
  | createStepUpGrant authSession action target assurance token =>
    cases h
    refine H.startCall fun call hcall => ?_
    obtain ⟨targetHash, -, hcall⟩ := Option.bind_eq_some_iff.mp hcall
    exact startGrant_bound hfit hcall
  | createStepUpGrantForHash authSession action targetHash assurance token =>
    cases h
    exact H.startCall fun call hcall => startGrant_bound hfit hcall
  | consumeStepUpGrant token authSession action target =>
    cases h
    refine H.startCall fun call hcall => ?_
    simp only [State.startConsume] at hcall
    split at hcall
    · split at hcall <;> cases hcall <;> exact hfit
    · cases hcall
  | resume k =>
    obtain ⟨call, hk, hcall⟩ := Option.map_eq_some_iff.mp h
    have hmem := List.mem_of_getElem? hk
    have hprompt : s.prompt R call = true := by
      simpa [hk] using hcase
    have H' : Bound { s with calls := s.calls.eraseIdx k } :=
      H.fewer rfl (Nat.le_refl _) (fun r hr => hr) (fun c hc => List.mem_of_mem_eraseIdx hc) rfl rfl
    have hbound : call.Bound { s with calls := s.calls.eraseIdx k } :=
      (H.calls call hmem).of_eq rfl rfl
    have hprompt' : State.prompt R { s with calls := s.calls.eraseIdx k } call = true := by
      cases call <;> exact hprompt
    exact hcall ▸ H'.continueCall (hinv.grant.calls call hmem) hbound hprompt'
  | createAuthenticationSession userId expiresAt authGeneration =>
    cases h
    exact H.create hcase userId expiresAt authGeneration
  | deleteCurrentAuthenticationSession session =>
    cases h
    exact H.fewer rfl (Nat.le_refl _) (fun r hr => hr) (fun c hc => hc) rfl rfl
  | setUser userId user =>
    cases h
    exact H.fewer rfl (Nat.le_refl _) (fun r hr => hr) (fun c hc => hc) rfl rfl
  | deleteRows sessions intents grants =>
    cases h
    exact H.fewer rfl (Nat.le_refl _) (fun r hr => (List.mem_filter.mp hr).1) (fun c hc => hc) rfl rfl
  | tick microseconds =>
    cases h
    exact H.fewer rfl (Nat.le_add_right ..) (fun r hr => hr) (fun c hc => hc) rfl rfl

theorem run_bound {es : List (Action × Result)}
    (h : ((system R).restrict fun s e _ => s.apart R e.1 = true).Run .init es s) :
    Inv R s ∧ Bound s := by
  refine h.invariant (P := fun s => Inv R s ∧ Bound s) ⟨⟨GrantInv.init, IntentInv.init⟩, Bound.init⟩ ?_
  intro x e y ⟨hinv, H⟩ ⟨hapart, hstep⟩
  exact ⟨hinv.step hstep, H.step hinv hapart hstep⟩

/-! ## What the grants and the intents authorize -/

/-- In a run that keeps sessions of one id apart, a grant token authorizes one call, for what it was
issued for and before it expires; and an account intent yields one grant, for an approval of
sufficient assurance. -/
theorem step_up_authorization {es : List (Action × Result)}
    (h : ((system R).restrict fun s e _ => s.apart R e.1 = true).Run .init es s)
    (hfresh : (s.issued.map (·.token)).Nodup) (hcollision : Set.InjOn (tokenHash R) s.tokens) :
    (∀ token, s.consumed.countP (·.token = token) ≤ 1) ∧
    (∀ u ∈ s.consumed, ∃ issue ∈ s.issued, issue.token = u.token ∧ issue.session = u.session ∧
      issue.action = u.action ∧ issue.targetHash = u.targetHash ∧
      u.returnedAt < issue.expiresAt ∧ u.requiredAssurance.rank ≤ issue.assurance.rank) ∧
    (∀ i, s.issued.countP (·.intent = some i) ≤ 1) ∧
    (∀ issue ∈ s.issued, ∀ i, issue.intent = some i → ∃ approval ∈ s.approvals,
      approval.intent = i ∧ approval.assurance = issue.assurance ∧
      approval.requiredAssurance.rank ≤ approval.assurance.rank) := by
  have hreach : (system R).Reachable s := (System.Reachable.init rfl).run h.of_restrict
  obtain ⟨honce, hconsumed, hintents⟩ := authorized_of_reachable hreach hfresh hcollision
  refine ⟨honce, fun u hu => ?_, hintents⟩
  obtain ⟨issue, hissue, htoken, -, haction, htarget, -, hassurance⟩ := hconsumed u hu
  obtain ⟨issue', hissue', hsession, hexpires⟩ := (run_bound h).2.consumed u hu
  cases hissue.symm.trans hissue'
  exact ⟨issue, List.mem_of_getElem? hissue, htoken, hsession, haction, htarget, hexpires, hassurance⟩

/-! ## Two sessions -/

/-- The digests of what the runs hash. -/
def exampleRuntime : Runtime where
  sha256 bytes :=
    if bytes = encode "grant-a" then
      "1362c039c94e673a9abbf8b742aca7c0b7224e81772949ba38991962ecb20e32"
    else if bytes = encode "intent-a" then
      "cf7a31998e07423419c04cb2b3c42cf9c439d283daeac182c1d435ba46eb3487"
    else if bytes = targetDomain ++ encode "7" then
      "5e84d805e2dd4df44523fd47db17073497c71468f12f9a84c9523f5067d5aa1d"
    else ""
  lower := id

def firstSession : AuthSession := ⟨0, some 1, 3, 10 * ttl, 0⟩

/-- It gets the id of the first one. -/
def secondSession : AuthSession := ⟨1, some 1, 4, 10 * ttl, 0⟩

/-- Two users, and a grant that the first one gets for an approved intent. -/
def claimCalls : List Action :=
  [.setUser 3 (some ⟨true, 0⟩), .setUser 4 (some ⟨false, 0⟩),
    .createAuthenticationSession 3 (10 * ttl) 0,
    .createAccountStepUpIntent (some firstSession) "totp.delete" (.int 7) "intent-a",
    .resume 0,
    .approveAccountStepUpIntent "intent-a" (some firstSession) (some .mfa) "totp",
    .claimAccountStepUpGrant "intent-a" (some firstSession) "grant-a"]

/-- The grant is consumed, and once more; then the session ends and the second one begins. -/
def consumeCalls : List Action :=
  claimCalls ++
    [.consumeStepUpGrant "grant-a" (some firstSession) "totp.delete" (.int 7), .resume 0,
      .resume 0,
      .deleteCurrentAuthenticationSession 0,
      .createAuthenticationSession 4 (10 * ttl) 0,
      .consumeStepUpGrant "grant-a" (some secondSession) "totp.delete" (.int 7), .resume 0]

theorem step_up_authorization_claimed : ∃ s : State, (system exampleRuntime).Reachable s ∧
    s.consumed.map (·.token) = ["grant-a"] ∧ s.issued.map (·.intent) = [some 0] ∧
    s.sessions = [firstSession, secondSession] ∧
    (∀ token, s.consumed.countP (·.token = token) ≤ 1) ∧
    (∀ u ∈ s.consumed, ∃ issue ∈ s.issued, issue.token = u.token ∧ issue.session = u.session ∧
      issue.action = u.action ∧ issue.targetHash = u.targetHash ∧
      u.returnedAt < issue.expiresAt ∧ u.requiredAssurance.rank ≤ issue.assurance.rank) ∧
    ∀ issue ∈ s.issued, ∀ i, issue.intent = some i → ∃ approval ∈ s.approvals,
      approval.intent = i ∧ approval.assurance = issue.assurance ∧
      approval.requiredAssurance.rank ≤ approval.assurance.rank := by
  have hexec : (System.answerIf (fun s a => s.apart exampleRuntime a = true)
      (State.step exampleRuntime) .init consumeCalls).any (fun (_, s) =>
      decide <| s.consumed.map (·.token) = ["grant-a"] ∧ s.issued.map (·.token) = ["grant-a"] ∧
      s.issued.map (·.intent) = [some 0] ∧ s.sessions = [firstSession, secondSession]) = true := by
    decide
  obtain ⟨⟨labels, s⟩, hs, hd⟩ := (Option.any_eq_true _ _).mp hexec
  obtain ⟨hconsumed, hissued, hintent, hsessions⟩ := of_decide_eq_true hd
  have hrun : ((system exampleRuntime).restrict fun s e _ => s.apart exampleRuntime e.1 = true).Run
      .init labels s := System.run_of_answerIf hs
  have hcollision : Set.InjOn (tokenHash exampleRuntime) s.tokens := by
    intro token htoken token' htoken' _
    simp only [State.tokens, hconsumed, hissued, List.mem_singleton, or_self,
      Set.mem_ofPred_eq] at htoken htoken'
    rw [htoken, htoken']
  obtain ⟨honce, hbound, -, happroved⟩ := step_up_authorization hrun (by simp [hissued]) hcollision
  exact ⟨s, (System.Reachable.init rfl).run hrun.of_restrict, hconsumed, hintent, hsessions, honce,
    hbound, happroved⟩

/-- The first session logs out, the second one gets its id and consumes the grant. -/
def logoutCalls : List Action :=
  claimCalls ++
    [.deleteCurrentAuthenticationSession 0, .createAuthenticationSession 4 (10 * ttl) 0,
      .consumeStepUpGrant "grant-a" (some secondSession) "totp.delete" (.int 7), .resume 0,
      .resume 0]

theorem consumed_by_another_session : ∃ s : State, (system exampleRuntime).Reachable s ∧
    s.sessions = [firstSession, secondSession] ∧
    ∃ u ∈ s.consumed, u.token = "grant-a" ∧ u.session = secondSession.serial ∧
      ∀ issue ∈ s.issued, issue.token = "grant-a" → issue.session = firstSession.serial := by
  have hexec : (System.answer (State.step exampleRuntime) .init logoutCalls).any (fun (_, s) =>
      decide <| s.sessions = [firstSession, secondSession] ∧
        ∃ u ∈ s.consumed, u.token = "grant-a" ∧ u.session = secondSession.serial ∧
        ∀ issue ∈ s.issued, issue.token = "grant-a" → issue.session = firstSession.serial) =
      true := by
    decide
  obtain ⟨⟨labels, s⟩, hs, hd⟩ := (Option.any_eq_true _ _).mp hexec
  exact ⟨s, (System.Reachable.init rfl).run (System.run_of_answer hs), of_decide_eq_true hd⟩

/-- The consumption waits for its lock until the grant has expired. -/
def lateCalls : List Action :=
  claimCalls ++
    [.consumeStepUpGrant "grant-a" (some firstSession) "totp.delete" (.int 7), .tick (2 * ttl),
      .resume 0, .resume 0]

theorem consumed_after_expiry : ∃ s : State, (system exampleRuntime).Reachable s ∧
    s.issued.map (·.token) = ["grant-a"] ∧
    ∃ u ∈ s.consumed, u.token = "grant-a" ∧
      ∀ issue ∈ s.issued, issue.expiresAt < u.returnedAt := by
  have hexec : (System.answer (State.step exampleRuntime) .init lateCalls).any (fun (_, s) =>
      decide <| s.issued.map (·.token) = ["grant-a"] ∧ ∃ u ∈ s.consumed, u.token = "grant-a" ∧
        ∀ issue ∈ s.issued, issue.expiresAt < u.returnedAt) = true := by
    decide
  obtain ⟨⟨labels, s⟩, hs, hd⟩ := (Option.any_eq_true _ _).mp hexec
  obtain ⟨hissued, hlate⟩ := of_decide_eq_true hd
  exact ⟨s, (System.Reachable.init rfl).run (System.run_of_answer hs), hissued, hlate⟩

end WebSSH.StepUp
