import WebSSH.Lib.System
import WebSSH.Lib.Dict

/-!
# Administrators acting on accounts

`admin_user_action` of `__init__.py` with the decorators in front of it. Every query and every
commit is one step, so that a request may take its steps between those of the others. An object
keeps the attributes its query loaded; a commit writes only the attributes whose value was changed.
A request also records whether another one has overtaken it; no step looks at that.
-/

namespace WebSSH.Admin
open Lib

/-- A row of `users`. -/
structure User where
  isAdmin : Bool
  isLocked : Bool
  authGeneration : Int
  isLdapManaged : Bool
  isGithubManaged : Bool
  deriving DecidableEq

abbrev Users := Dict Nat User

/-- What the path of a request may name. -/
inductive Action
  | lock
  | unlock
  | promote
  | demote
  | delete
  | unknown (path : String)
  deriving DecidableEq

def Action.ofPath (path : String) : Action :=
  if path = "lock" then .lock
  else if path = "unlock" then .unlock
  else if path = "promote" then .promote
  else if path = "demote" then .demote
  else if path = "delete" then .delete
  else .unknown path

structure Response where
  status : Nat
  error : Option String
  deriving DecidableEq

def badRequest (error : String) : Response := ⟨400, some error⟩

/-- What a request does next. A target is carried as it was loaded. -/
inductive Pc
  | stepUp
  | load
  | count (target : User)
  | commit (target : User)
  | deleteAccount
  deriving DecidableEq

structure Request where
  actor : Nat
  targetId : Nat
  action : Action
  pc : Pc
  /-- Since the request was let in, a commit has taken administration away from its actor. -/
  overtaken : Bool
  deriving DecidableEq

structure State where
  users : Users
  requests : List Request

/-- `load_user`, then `admin_required`. -/
def requireAdmin (users : Users) (actor : Nat) (generation : Int) (authSession : Bool) :
    Except Response Unit :=
  match users.get? actor with
  | none => .error ⟨401, none⟩
  | some user =>
    if user.isLocked || (user.isAdmin && (user.isLdapManaged || user.isGithubManaged)) then
      .error ⟨401, none⟩
    else if user.authGeneration ≠ generation then .error ⟨401, none⟩
    else if ¬authSession then .error ⟨401, none⟩
    else if ¬user.isAdmin then .error ⟨403, none⟩
    else .ok ()

/-- `User.query.filter_by(is_admin=True).count()` -/
def adminCount (users : Users) : Nat := (users.filter fun _ user => user.isAdmin).size

/-- From the loaded target to the next query or commit. -/
def onLoaded (isSelf : Bool) (target : User) : Action → Except Response Pc
  | .lock =>
    if isSelf then .error (badRequest "You cannot lock your own account") else .ok (.commit target)
  | .unlock => .ok (.commit target)
  | .promote =>
    if target.isLdapManaged then
      .error (badRequest ("LDAP accounts cannot be administrators; keep a " ++
        "local break-glass administrator"))
    else if target.isGithubManaged then
      .error (badRequest ("GitHub-managed accounts cannot be administrators; " ++
        "keep a local break-glass administrator"))
    else .ok (.commit target)
  | .demote =>
    if isSelf then .error (badRequest "You cannot remove your own admin rights")
    else if target.isAdmin then .ok (.count target)
    else .ok (.commit target)
  | .delete =>
    if isSelf then .error (badRequest "You cannot delete your own account")
    else if target.isAdmin then .ok (.count target)
    else .ok (.commit target)
  | .unknown _ => .error (badRequest "Unknown action")

/-- The answer when `_is_last_admin` holds. -/
def lastAdminError : Action → String
  | .delete => "Cannot delete the last administrator"
  | _ => "Cannot demote the last administrator"

/-- What the flush leaves in a column: an attribute set to the value it was loaded with is not
written. -/
def assign (loaded current value : Bool) : Bool := if loaded = value then current else value

/-- The commit of an action on the row as it is then. -/
def Action.write (target : User) (row : User) : Action → User
  | .lock | .delete =>
    { row with
      isLocked := assign target.isLocked row.isLocked true
      authGeneration := target.authGeneration + 1 }
  | .unlock => { row with isLocked := assign target.isLocked row.isLocked false }
  | .promote => { row with isAdmin := assign target.isAdmin row.isAdmin true }
  | .demote => { row with isAdmin := assign target.isAdmin row.isAdmin false }
  | .unknown _ => row

/-- The account is an unlocked administrator. -/
def User.usable (user : User) : Bool := user.isAdmin && !user.isLocked

/-- The next commit of the request takes administration away from its target: the row is an unlocked
administrator, and it is locked, demoted or deleted. -/
def Request.takes (users : Users) (r : Request) : Bool :=
  match users.get? r.targetId, r.pc with
  | some row, .commit target => row.usable && !(r.action.write target row).usable
  | some row, .deleteAccount => row.usable
  | _, _ => false

inductive Call
  /-- A request reaches `load_user`; `authSession` says whether its session row is found. -/
  | request (actor : Nat) (generation : Int) (authSession : Bool) (targetId : Nat) (path : String)
  /-- The step-up grant of a request is consumed, or refused. -/
  | stepUp (k : Nat) (granted : Bool)
  | next (k : Nat)
  /-- What the request does next raises. -/
  | fail (k : Nat)
  deriving DecidableEq

/-- The answer to an exception. -/
def Pc.failure : Pc → Response
  | .deleteAccount => ⟨500, some "User deletion failed; the account remains locked"⟩
  | _ => ⟨500, none⟩

/-- The request at `k` goes on. -/
def State.go (s : State) (k : Nat) (pc : Pc) : State :=
  { s with requests := s.requests.modify k fun r => { r with pc } }

/-- The request at `k` is answered. -/
def State.answer (s : State) (k : Nat) : State := { s with requests := s.requests.eraseIdx k }

/-- Where the commit takes administration away from its target, it overtakes the requests of the
target. -/
def State.overtake (s : State) (r : Request) : State :=
  if r.takes s.users then
    { s with requests := s.requests.map fun q =>
        if q.actor = r.targetId then { q with overtaken := true } else q }
  else s

def State.settle (s : State) (k : Nat) : Except Response Pc → Option Response × State
  | .error response => (some response, s.answer k)
  | .ok pc => (none, s.go k pc)

/-- The next query or commit of the request at `k`. -/
def State.advance (s : State) (k : Nat) (r : Request) : Option (Option Response × State) :=
  match r.pc with
  | .stepUp => none
  | .load =>
    match s.users.get? r.targetId with
    | none => some (some ⟨404, some "User not found"⟩, s.answer k)
    | some target => some (s.settle k (onLoaded (r.targetId = r.actor) target r.action))
  | .count target =>
    if adminCount s.users ≤ 1 then
      some (some (badRequest (lastAdminError r.action)), s.answer k)
    else some (none, s.go k (.commit target))
  | .commit target =>
    match s.users.get? r.targetId with
    | none => some (some ⟨500, none⟩, s.answer k)
    | some row =>
      let t := { s.overtake r with users := s.users.set r.targetId (r.action.write target row) }
      if r.action = .delete then some (none, t.go k .deleteAccount)
      else some (some ⟨200, none⟩, t.answer k)
  | .deleteAccount =>
    match s.users.get? r.targetId with
    | none => some (some (Pc.failure .deleteAccount), s.answer k)
    | some _ =>
      some (some ⟨200, none⟩, { s.overtake r with users := s.users.erase r.targetId }.answer k)

def step (s : State) : Call → Option (Option Response × State)
  | .request actor generation authSession targetId path =>
    match requireAdmin s.users actor generation authSession with
    | .error response => some (some response, s)
    | .ok () =>
      some (none, { s with
        requests := s.requests ++ [⟨actor, targetId, .ofPath path, .stepUp, false⟩] })
  | .stepUp k granted => do
    let r ← s.requests[k]?
    guard (r.pc = .stepUp)
    if granted then some (none, s.go k .load)
    else some (some ⟨403, some "Additional authentication is required"⟩, s.answer k)
  | .next k => do s.advance k (← s.requests[k]?)
  | .fail k => do
    let r ← s.requests[k]?
    some (some r.pc.failure, s.answer k)

/-- No request is in progress at the start. -/
def system (users : Users) : System State (Call × Option Response) := .calls ⟨users, []⟩ step

/-! ## Usable administrators -/

/-- The account is there, and it is an unlocked administrator. -/
def UsableAt (users : Users) (id : Nat) : Prop := ∃ user, users.get? id = some user ∧ user.usable

def UsableAdmin (users : Users) : Prop := ∃ id, UsableAt users id

/-- A commit that takes administration away from its target is one of a request that has not been
overtaken. -/
def InTime (s : State) : Call → Prop
  | .next k => ∀ r ∈ s.requests[k]?, r.takes s.users → r.overtaken = false
  | _ => True

instance (s : State) : (call : Call) → Decidable (InTime s call)
  | .request .. | .stepUp .. | .fail _ => inferInstanceAs (Decidable True)
  | .next k => inferInstanceAs (Decidable (∀ r ∈ s.requests[k]?, r.takes s.users → r.overtaken = false))

/-- The actions that lock, demote or delete their target. -/
def Action.Removing (action : Action) : Prop :=
  action = .lock ∨ action = .demote ∨ action = .delete

/-- What the checks in front of a request have established. -/
structure Request.Checked (users : Users) (r : Request) : Prop where
  /-- `load_user` and `admin_required` -/
  actor : r.overtaken = false → UsableAt users r.actor
  /-- `is_self` -/
  other : r.pc ≠ .stepUp → r.pc ≠ .load → r.action.Removing → r.actor ≠ r.targetId
  delete : r.pc = .deleteAccount → r.action = .delete

structure Inv (s : State) : Prop where
  admin : UsableAdmin s.users
  requests : ∀ r ∈ s.requests, r.Checked s.users

@[simp] theorem State.go_users (s : State) (k : Nat) (pc : Pc) : (s.go k pc).users = s.users := rfl

@[simp] theorem State.answer_users (s : State) (k : Nat) : (s.answer k).users = s.users := rfl

/-- Only an action that removes administration makes a usable row unusable. -/
theorem Action.removing_of_write {action : Action} {target row : User} (hrow : row.usable)
    (h : (action.write target row).usable = false) : action.Removing := by
  cases action with
  | lock => exact .inl rfl
  | demote => exact .inr (.inl rfl)
  | delete => exact .inr (.inr rfl)
  | unlock =>
    rw [User.usable, Bool.and_eq_true] at hrow
    simp only [Action.write, assign, User.usable] at h
    grind
  | promote =>
    rw [User.usable, Bool.and_eq_true] at hrow
    simp only [Action.write, assign, User.usable] at h
    grind
  | unknown _ => rw [Action.write, hrow] at h; cases h

/-- `requireAdmin` lets in unlocked administrators only. -/
theorem requireAdmin_usable {users : Users} {actor : Nat} {generation : Int} {authSession : Bool}
    (h : requireAdmin users actor generation authSession = .ok ()) : UsableAt users actor := by
  unfold requireAdmin at h
  split at h
  · cases h
  · rename_i user huser
    refine ⟨user, huser, ?_⟩
    split at h <;> rename_i hlocked
    · cases h
    split at h
    · cases h
    split at h
    · cases h
    split at h <;> rename_i hadmin
    · cases h
    · rw [Bool.or_eq_true, not_or, Bool.not_eq_true] at hlocked
      rw [User.usable, hlocked.1, Classical.not_not.mp hadmin]
      rfl

/-- What is loaded is committed only where `is_self` allows it. -/
theorem onLoaded_other {isSelf : Bool} {target : User} {action : Action} {pc : Pc}
    (h : onLoaded isSelf target action = .ok pc) :
    (action.Removing → isSelf = false) ∧ pc ≠ .deleteAccount := by
  unfold onLoaded at h
  split at h <;> (repeat' split at h) <;> cases h <;> simp_all [Action.Removing]

/-- Being overtaken changes nothing else of a request. -/
theorem State.overtake_get? {s : State} {k : Nat} {r q : Request} (hr : s.requests[k]? = some r)
    (hq : (s.overtake r).requests[k]? = some q) : ∃ overtaken, q = { r with overtaken } := by
  unfold State.overtake at hq
  split at hq
  · rw [List.getElem?_map, hr] at hq
    cases hq
    by_cases hactor : r.actor = r.targetId
    · exact ⟨true, if_pos hactor⟩
    · exact ⟨r.overtaken, if_neg hactor⟩
  · cases hr.symm.trans hq
    exact ⟨r.overtaken, rfl⟩

theorem Inv.answer {s : State} (H : Inv s) (k : Nat) : Inv (s.answer k) where
  admin := H.admin
  requests q hq := H.requests q (List.mem_of_mem_eraseIdx hq)

theorem Inv.go {s : State} (H : Inv s) (k : Nat) {pc : Pc}
    (h : ∀ r ∈ s.requests[k]?, ({ r with pc } : Request).Checked s.users) : Inv (s.go k pc) := by
  refine ⟨H.admin, fun q hq => ?_⟩
  obtain ⟨i, hi⟩ := List.getElem?_of_mem hq
  rw [State.go, List.getElem?_modify] at hi
  obtain ⟨r, hr, rfl⟩ := Option.map_eq_some_iff.mp hi
  split
  · subst ‹k = i›
    exact h r hr
  · exact H.requests r (List.mem_of_getElem? hr)

/-- A request that takes administration from its target has an actor that keeps it. -/
theorem Inv.actor_kept {s : State} {r : Request} (H : Inv s) (hr : r ∈ s.requests)
    (htime : r.takes s.users → r.overtaken = false) (htakes : r.takes s.users) :
    UsableAt s.users r.actor ∧ r.actor ≠ r.targetId := by
  have hchecked := H.requests r hr
  refine ⟨hchecked.actor (htime htakes), ?_⟩
  unfold Request.takes at htakes
  split at htakes
  · rename_i row target hrow hpc
    obtain ⟨husable, hwrite⟩ := Bool.and_eq_true_iff.mp htakes
    refine hchecked.other (by rw [hpc]; nofun) (by rw [hpc]; nofun) ?_
    exact Action.removing_of_write husable ((Bool.not_eq_true' _).mp hwrite)
  · rename_i row hrow hpc
    exact hchecked.other (by rw [hpc]; nofun) (by rw [hpc]; nofun) (.inr (.inr (hchecked.delete hpc)))
  · cases htakes

/-- A commit that changes the target's row, and takes administration from it only as `takes` says. -/
theorem Inv.committed {s : State} {r : Request} {users : Users} (H : Inv s) (hr : r ∈ s.requests)
    (htime : r.takes s.users → r.overtaken = false)
    (hothers : ∀ id ≠ r.targetId, users.get? id = s.users.get? id)
    (hkeeps : r.takes s.users = false → UsableAt s.users r.targetId → UsableAt users r.targetId) :
    Inv { s.overtake r with users } := by
  have hother {id : Nat} (hid : id ≠ r.targetId) (h : UsableAt s.users id) : UsableAt users id := by
    rw [UsableAt, hothers id hid]
    exact h
  cases htakes : r.takes s.users with
  | true =>
    obtain ⟨hactor, hne⟩ := H.actor_kept hr htime htakes
    refine ⟨⟨_, hother hne hactor⟩, fun q hq => ?_⟩
    rw [State.overtake, if_pos htakes] at hq
    obtain ⟨q, hmem, rfl⟩ := List.mem_map.mp hq
    have hchecked := H.requests q hmem
    split
    · exact ⟨nofun, hchecked.other, hchecked.delete⟩
    · exact ⟨fun h => hother ‹_› (hchecked.actor h), hchecked.other, hchecked.delete⟩
  | false =>
    have hall {id : Nat} (h : UsableAt s.users id) : UsableAt users id := by
      by_cases hid : id = r.targetId
      · subst hid
        exact hkeeps htakes h
      · exact hother hid h
    obtain ⟨id, h⟩ := H.admin
    refine ⟨⟨id, hall h⟩, fun q hq => ?_⟩
    rw [State.overtake, htakes] at hq
    have hchecked := H.requests q hq
    exact ⟨fun h => hall (hchecked.actor h), hchecked.other, hchecked.delete⟩

theorem Inv.advance {s : State} {k : Nat} {r : Request} {x : Option Response × State} (H : Inv s)
    (hr : s.requests[k]? = some r) (htime : r.takes s.users → r.overtaken = false)
    (h : s.advance k r = some x) : Inv x.2 := by
  have hmem : r ∈ s.requests := List.mem_of_getElem? hr
  have hchecked := H.requests r hmem
  unfold State.advance at h
  split at h
  case h_1 => cases h
  case h_2 hpc =>
    split at h
    · cases h
      exact H.answer k
    · cases h
      rename_i target htarget
      cases hloaded : onLoaded (r.targetId = r.actor) target r.action with
      | error response => exact H.answer k
      | ok pc =>
        obtain ⟨hself, hdelete⟩ := onLoaded_other hloaded
        refine H.go k fun q hq => ?_
        cases hr.symm.trans hq
        refine ⟨hchecked.actor, fun _ _ hremoving heq => ?_, fun hpc => absurd hpc hdelete⟩
        exact absurd (hself hremoving) (by simpa using heq.symm)
  case h_3 target hpc =>
    split at h <;> cases h
    · exact H.answer k
    · refine H.go k fun q hq => ?_
      cases hr.symm.trans hq
      exact ⟨hchecked.actor, fun _ _ => hchecked.other (by rw [hpc]; nofun) (by rw [hpc]; nofun),
        nofun⟩
  case h_4 target hpc =>
    split at h
    · cases h
      exact H.answer k
    · rename_i row hrow
      have hcommitted : Inv { s.overtake r with
          users := s.users.set r.targetId (r.action.write target row) } := by
        refine H.committed hmem htime (fun id hid => ?_) fun htakes ⟨user, huser, husable⟩ => ?_
        · rw [Dict.get?_set, if_neg hid]
        · cases hrow.symm.trans huser
          refine ⟨_, by rw [Dict.get?_set, if_pos rfl], ?_⟩
          rw [Request.takes, hrow, hpc] at htakes
          simpa [husable] using htakes
      dsimp only at h
      split at h <;> cases h
      · refine hcommitted.go k fun q hq => ?_
        have hother := (hcommitted.requests q (List.mem_of_getElem? hq)).other
        have hactor := (hcommitted.requests q (List.mem_of_getElem? hq)).actor
        obtain ⟨overtaken, rfl⟩ := State.overtake_get? hr hq
        exact ⟨hactor, fun _ _ => hother (by rw [hpc]; nofun) (by rw [hpc]; nofun), fun _ => ‹_›⟩
      · exact hcommitted.answer k
  case h_5 hpc =>
    split at h
    · cases h
      exact H.answer k
    · rename_i row hrow
      cases h
      refine Inv.answer (H.committed hmem htime (fun id hid => ?_)
        fun htakes ⟨user, huser, husable⟩ => ?_) k
      · rw [Dict.get?_erase, if_neg hid]
      · cases hrow.symm.trans huser
        rw [Request.takes, hrow, hpc] at htakes
        exact absurd (husable.symm.trans htakes) nofun

theorem Inv.step {s : State} {call : Call} {x : Option Response × State} (H : Inv s)
    (htime : InTime s call) (h : step s call = some x) : Inv x.2 := by
  cases call with
  | request actor generation authSession targetId path =>
    simp only [Admin.step] at h
    split at h
    · cases h
      exact H
    · rename_i hadmin
      cases h
      refine ⟨H.admin, fun r hr => ?_⟩
      rcases List.mem_append.mp hr with hr | hr
      · exact H.requests r hr
      · cases List.mem_singleton.mp hr
        exact ⟨fun _ => requireAdmin_usable hadmin, fun h => absurd rfl h, nofun⟩
  | stepUp k granted =>
    obtain ⟨r, hr, h⟩ := Option.bind_eq_some_iff.mp h
    obtain ⟨-, -, h⟩ := Option.bind_eq_some_iff.mp h
    split at h <;> cases h
    · refine H.go k fun q hq => ?_
      have hchecked := H.requests q (List.mem_of_getElem? hq)
      exact ⟨hchecked.actor, fun _ h => absurd rfl h, nofun⟩
    · exact H.answer k
  | next k =>
    obtain ⟨r, hr, h⟩ := Option.bind_eq_some_iff.mp h
    exact H.advance hr (htime r hr) h
  | fail k =>
    obtain ⟨r, -, h⟩ := Option.bind_eq_some_iff.mp h
    cases h
    exact H.answer k

/-! ## Runs -/

/-- From an unlocked administrator, there is one in every state of a run in which no administrator
acts on others after being locked, demoted or deleted since its own request was let in. -/
theorem usable_administrator_of_inTime {users : Users} {s : State}
    {es : List (Call × Option Response)} (h₀ : UsableAdmin users)
    (h : ((system users).restrict fun s e _ => InTime s e.1).Run ⟨users, []⟩ es s) :
    UsableAdmin s.users := by
  have hinv : Inv s := h.invariant ⟨h₀, nofun⟩ fun _ _ _ H hstep => H.step hstep.1 hstep.2
  exact hinv.admin

def twoAdmins : Users :=
  (Dict.empty.set 1 ⟨true, false, 0, false, false⟩).set 2 ⟨true, false, 0, false, false⟩

theorem twoAdmins_usable : UsableAdmin twoAdmins := ⟨1, ⟨true, false, 0, false, false⟩, by decide⟩

/-- Each of two administrators demotes the other; the second one counts when the first one's commit
is done. -/
def demotedFirst : List Call :=
  [.request 1 0 true 2 "demote", .request 2 0 true 1 "demote", .stepUp 0 true, .stepUp 1 true,
    .next 0, .next 1, .next 0, .next 0, .next 0]

theorem usable_administrator_of_inTime_demotedFirst : ∃ es s,
    ((system twoAdmins).restrict fun s e _ => InTime s e.1).Run ⟨twoAdmins, []⟩ es s ∧
      es.getLast? = some (.next 0, some (badRequest "Cannot demote the last administrator")) ∧
      UsableAdmin s.users := by
  have h : (System.answerIf InTime step ⟨twoAdmins, []⟩ demotedFirst).any (fun (es, _) =>
      es.getLast? = some (.next 0, some (badRequest "Cannot demote the last administrator"))) =
        true := by decide
  obtain ⟨⟨es, s⟩, hanswer, hlast⟩ := (Option.any_eq_true _ _).mp h
  have hrun : ((system twoAdmins).restrict fun s e _ => InTime s e.1).Run ⟨twoAdmins, []⟩ es s :=
    System.run_of_answerIf hanswer
  exact ⟨es, s, hrun, of_decide_eq_true hlast, usable_administrator_of_inTime twoAdmins_usable hrun⟩

/-- Each of two administrators demotes the other, and both count before either commits. -/
def demoteEachOther : List Call :=
  [.request 1 0 true 2 "demote", .request 2 0 true 1 "demote", .stepUp 0 true, .stepUp 1 true,
    .next 0, .next 1, .next 0, .next 1, .next 0, .next 0]

theorem no_administrator_left :
    UsableAdmin twoAdmins ∧
      ∃ es s, (system twoAdmins).Run ⟨twoAdmins, []⟩ es s ∧ ¬ UsableAdmin s.users := by
  refine ⟨twoAdmins_usable, ?_⟩
  have h : (System.answer step ⟨twoAdmins, []⟩ demoteEachOther).any (fun (_, s) =>
      s.users.entries.all fun e => !e.2.usable) = true := by decide
  obtain ⟨⟨es, s⟩, hrun, hall⟩ := (Option.any_eq_true _ _).mp h
  refine ⟨es, s, System.run_of_answer hrun, ?_⟩
  intro ⟨i, user, hi, hu⟩
  have := List.all_eq_true.mp hall _ (Dict.mem_entries.mpr hi)
  simp [hu] at this

end WebSSH.Admin
