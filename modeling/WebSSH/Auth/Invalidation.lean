import WebSSH.Auth.Sessions

/-!
# What an invalidation ends

As long as every call that writes commits while the generation it has loaded is still the stored one,
the stored generation counts the invalidations (`Inv.users`), and so does the generation of every
piece of evidence for those committed before it was begun.
-/

namespace WebSSH.Auth
open Lib StepUp

variable {R : Runtime} {base : Nat → Int} {users : Nat → Option User} {s t : State}

/-! ## Runs -/

/-- The account of what a check accepts, and how many of its invalidations had been committed
before that was begun. -/
def Reply.accepted : Reply → Option (Nat × Nat)
  | .consumed p | .eligible p | .finalized p _ => some (p.userId, p.begun)
  | .loaded _ (some row) => some (row.userId, row.begun)
  | .current row => some (row.userId, row.begun)
  | _ => none

def Reply.invalidates (userId : Nat) : Reply → Bool
  | .invalidated user _ => user = userId
  | _ => false

/-- A session is made of the pending authentication of the token. -/
def Reply.finalizes (token : Nat) : Reply → Bool
  | .finalized p _ => p.token = token
  | _ => false

/-- The committed invalidations of an account. -/
def invalidationsOf (userId : Nat) (es : List (Action × Reply)) : Nat :=
  es.countP (·.2.invalidates userId)

/-- The authentication sessions that a pending token led to. -/
def sessionsOf (token : Nat) (es : List (Action × Reply)) : Nat :=
  es.countP (·.2.finalizes token)

/-- The generation that a call has loaded and is about to commit on. -/
def Call.generation? : Call → Option (Nat × Int)
  | .beginning start => some (start.userId, start.generation)
  | .pending _ (.eligible row) => some (row.userId, row.authGeneration)
  | .invalidating i => some (i.userId, i.generation)
  | _ => none

/-- The action commits what its call has prepared. -/
def Action.commits : Action → Bool
  | .insertPending _ _ fails | .insertSession _ fails | .commitInvalidation _ fails => !fails
  | _ => false

/-- No invalidation of the account comes between the load of a call and its commit: the generation
it has loaded is still stored. -/
def Current (s : State) (a : Action) : Prop :=
  a.commits → ∀ k ∈ a.call?, ∀ call ∈ s.calls[k]?, ∀ g ∈ call.generation?,
    (s.users g.1).map User.authGeneration = some g.2

instance (s : State) (a : Action) : Decidable (Current s a) := by
  unfold Current
  infer_instance

/-! ## The invariant -/

/-- A generation was read after `begun` invalidations. -/
def Dated (base : Nat → Int) (userId : Nat) (generation : Int) (begun : Nat) : Prop :=
  generation = base userId + begun

theorem Dated.eq {userId : Nat} {generation : Int} {m n : Nat}
    (hm : Dated base userId generation m) (hn : Dated base userId generation n) : m = n := by
  unfold Dated at hm hn
  omega

def Call.Dated (base : Nat → Int) (s : State) : Call → Prop
  | .beginning start => Auth.Dated base start.userId start.generation start.begun
  | .pending p phase =>
    Auth.Dated base p.userId p.generation p.begun ∧
      ∀ row, phase = .eligible row → Auth.Dated base row.userId row.authGeneration row.begun ∧
        row.userId = p.userId ∧ row.begun = p.begun
  | .browser b =>
    (∀ token ∈ b.token, token < s.tokenCount) ∧
      ∃ n, Auth.Dated base b.userId b.generation n ∧
        ∀ row ∈ s.sessions, some row.token = b.token → row.userId = b.userId →
          n = s.invalidations b.userId
  | .invalidating invalidation => ∀ row ∈ invalidation.replacement,
      row.userId = invalidation.userId ∧ row.authGeneration = invalidation.generation ∧
        Auth.Dated base row.userId row.authGeneration row.begun

structure Inv (base : Nat → Int) (s : State) : Prop where
  users : ∀ u user, s.users u = some user →
    Dated base u user.authGeneration (s.invalidations u)
  pendings : ∀ p ∈ s.pendings, Dated base p.userId p.generation p.begun ∧
    p.begun = s.invalidations p.userId
  sessions : ∀ row ∈ s.sessions, Dated base row.userId row.authGeneration row.begun ∧
    row.token < s.tokenCount
  calls : ∀ call ∈ s.calls, call.Dated base s

theorem Inv.init (h : ∀ u user, users u = some user → user.authGeneration = base u) :
    Inv base (.init users) where
  users u user hu := by simpa [Dated, State.init] using h u user hu
  pendings _ h := absurd h List.not_mem_nil
  sessions _ h := absurd h List.not_mem_nil
  calls _ h := absurd h List.not_mem_nil

/-- What was loaded with the stored generation was loaded after the last invalidation. -/
theorem Inv.begun_eq (H : Inv base s) {userId begun : Nat} {generation : Int}
    (hdated : Dated base userId generation begun)
    (hcurrent : (s.users userId).map User.authGeneration = some generation) :
    begun = s.invalidations userId := by
  obtain ⟨user, huser, rfl⟩ := Option.map_eq_some_iff.mp hcurrent
  exact hdated.eq (H.users userId user huser)

/-- A call takes a step that changes no table. -/
theorem Inv.advance (H : Inv base s) {k : Nat} {next : List Call}
    (hnext : ∀ call ∈ next, call.Dated base s) : Inv base (s.advance k next) where
  users := H.users
  pendings := H.pendings
  sessions := H.sessions
  calls call hc := by
    rcases Pending.mem_of_advance hc with hc | hc
    · exact H.calls call hc
    · exact hnext call hc

/-- A call ends. -/
theorem Inv.finish (H : Inv base s) (k : Nat) : Inv base (s.advance k []) :=
  H.advance fun _ h => absurd h List.not_mem_nil

theorem Inv.start (H : Inv base s) {call : Call} (hcall : call.Dated base s) :
    Inv base { s with calls := s.calls ++ [call] } where
  users := H.users
  pendings := H.pendings
  sessions := H.sessions
  calls c hc := by
    rcases List.mem_append.mp hc with hc | hc
    · exact H.calls c hc
    · rw [List.mem_singleton.mp hc]; exact hcall

/-- A call stays dated when no session is added and no invalidation committed. -/
theorem Call.Dated.mono {call : Call} (h : call.Dated base s)
    (hsessions : ∀ row ∈ t.sessions, row ∈ s.sessions ∨ s.tokenCount ≤ row.token)
    (hcount : s.tokenCount ≤ t.tokenCount) (hinv : t.invalidations = s.invalidations) :
    call.Dated base t := by
  cases call with
  | browser browser =>
    obtain ⟨htoken, n, hn, hrows⟩ := h
    refine ⟨fun token ht => lt_of_lt_of_le (htoken token ht) hcount, n, hn, ?_⟩
    intro row hrow hb hu
    rw [hinv]
    rcases hsessions row hrow with hrow | hrow
    · exact hrows row hrow hb hu
    · exact absurd (htoken row.token hb.symm) (by omega)
  | _ => exact h

theorem Inv.storePending (H : Inv base s) {start : Begin} {now : Nat}
    (hstart : Auth.Dated base start.userId start.generation start.begun)
    (hcurrent : start.begun = s.invalidations start.userId) :
    Inv base (s.storePending start now) where
  users := H.users
  pendings p hp := by
    rcases List.mem_append.mp hp with hp | hp
    · exact H.pendings p (List.mem_of_mem_filter (List.mem_of_mem_filter hp))
    · rw [List.mem_singleton.mp hp]
      exact ⟨hstart, hcurrent⟩
  sessions row hrow := ⟨(H.sessions row hrow).1, Nat.lt_succ_of_lt (H.sessions row hrow).2⟩
  calls call hc := (H.calls call hc).mono (fun _ h => .inl h) (Nat.le_succ _) rfl

theorem Inv.deletePending (H : Inv base s) (token : Nat) : Inv base (s.deletePending token) where
  users := H.users
  pendings p hp := H.pendings p (List.mem_of_mem_filter hp)
  sessions := H.sessions
  calls := H.calls

theorem Inv.storeSession (H : Inv base s) {data : SessionData}
    (hdata : Auth.Dated base data.userId data.authGeneration data.begun) :
    Inv base (s.storeSession data) where
  users := H.users
  pendings := H.pendings
  sessions row hrow := by
    rcases List.mem_append.mp hrow with hrow | hrow
    · exact ⟨(H.sessions row hrow).1, Nat.lt_succ_of_lt (H.sessions row hrow).2⟩
    · rw [List.mem_singleton.mp hrow]
      exact ⟨hdata, Nat.lt_succ_self _⟩
  calls call hc := by
    refine Call.Dated.mono (t := s.storeSession data) (H.calls call hc) ?_ (Nat.le_succ _) rfl
    intro row hrow
    rcases List.mem_append.mp hrow with hrow | hrow
    · exact .inl hrow
    · rw [List.mem_singleton.mp hrow]
      exact .inr (le_refl _)

theorem Inv.dropExpired (H : Inv base s) (browser : Browser) (now : Nat) (fails : Bool) :
    Inv base (s.dropExpired browser now fails) := by
  unfold State.dropExpired
  split
  · exact H
  · exact
      { users := H.users
        pendings := H.pendings
        sessions := fun row hrow => H.sessions row (List.mem_of_mem_filter hrow)
        calls := fun call hc => (H.calls call hc).mono
          (fun row hrow => .inl (List.mem_of_mem_filter hrow)) (le_refl _) rfl }

theorem Inv.setUser (H : Inv base s) (u : Nat) (user : User) : Inv base (s.setUser u user) where
  users v new hv := by
    by_cases huv : v = u
    · subst huv
      simp only [State.setUser, Function.update_self] at hv
      obtain ⟨old, hold, rfl⟩ := Option.map_eq_some_iff.mp hv
      exact H.users v old hold
    · simp only [State.setUser, Function.update_of_ne huv] at hv
      exact H.users v new hv
  pendings := H.pendings
  sessions := H.sessions
  calls := H.calls

/-! ## The commit of an invalidation -/

section
variable {invalidation : Invalidation}

@[simp] theorem State.invalidate_invalidations (s : State) (invalidation : Invalidation)
    (u : Nat) : (s.invalidate invalidation).invalidations u =
      s.invalidations u + if invalidation.userId = u then 1 else 0 := by
  by_cases h : u = invalidation.userId
  · subst h
    simp [State.invalidate]
  · simp [State.invalidate, Function.update_of_ne h, Ne.symm h]

theorem State.mem_invalidate_sessions {row : AuthenticationSession}
    (h : row ∈ (s.invalidate invalidation).sessions) :
    (row ∈ s.sessions ∧ row.userId ≠ invalidation.userId) ∨
      ∃ data ∈ invalidation.replacement, row = s.newSession
        { data with authGeneration := invalidation.generation + 1, begun := data.begun + 1 } := by
  rcases List.mem_append.mp h with h | h
  · obtain ⟨hrow, hu⟩ := List.mem_filter.mp h
    exact .inl ⟨hrow, by simpa using hu⟩
  · obtain ⟨data, hdata, hrow⟩ := Option.map_eq_some_iff.mp (Option.mem_toList.mp h)
    exact .inr ⟨data, hdata, hrow.symm⟩

/-- The accounts other than that of the invalidation are left as they were. -/
theorem Inv.invalidate (H : Inv base s) (hcall : (Call.invalidating invalidation).Dated base s)
    (hcurrent : (s.users invalidation.userId).map User.authGeneration =
      some invalidation.generation) :
    Inv base (s.invalidate invalidation) where
  users u user hu := by
    rw [State.invalidate_invalidations]
    by_cases h : u = invalidation.userId
    · subst h
      simp only [State.invalidate, Function.update_self] at hu
      obtain ⟨old, hold, rfl⟩ := Option.map_eq_some_iff.mp hu
      have hgen := H.users _ old hold
      rw [hold, Option.map_some, Option.some.injEq] at hcurrent
      unfold Dated at hgen ⊢
      simp only [if_true]
      omega
    · simp only [State.invalidate, Function.update_of_ne h] at hu
      simpa [Ne.symm h] using H.users u user hu
  pendings p hp := by
    obtain ⟨hp, hu⟩ := List.mem_filter.mp hp
    have hne : invalidation.userId ≠ p.userId := fun h => by simp [h] at hu
    rw [State.invalidate_invalidations, if_neg hne]
    exact H.pendings p hp
  sessions row hrow := by
    rcases State.mem_invalidate_sessions hrow with ⟨hrow, -⟩ | ⟨data, hdata, rfl⟩
    · exact ⟨(H.sessions row hrow).1, Nat.lt_succ_of_lt (H.sessions row hrow).2⟩
    · obtain ⟨hu, hgen, hdated⟩ := hcall data hdata
      refine ⟨?_, Nat.lt_succ_self _⟩
      unfold Dated at hdated ⊢
      simp only [State.newSession]
      push_cast
      omega
  calls call hc := by
    cases call with
    | browser browser =>
      obtain ⟨htoken, n, hn, hrows⟩ := H.calls _ hc
      refine ⟨fun token ht => Nat.lt_succ_of_lt (htoken token ht), n, hn, ?_⟩
      intro row hrow hb hu
      rcases State.mem_invalidate_sessions hrow with ⟨hrow, hne⟩ | ⟨data, hdata, rfl⟩
      · rw [State.invalidate_invalidations, if_neg (by rw [← hu]; exact Ne.symm hne)]
        exact hrows row hrow hb hu
      · exact absurd (htoken _ hb.symm) (Nat.lt_irrefl _)
    | _ => exact H.calls _ hc

end

/-! ## The checks -/

theorem State.startBegin_dated (H : Inv base s) {u : Nat} {args : BeginArgs} {start : Begin}
    (h : s.startBegin R u args = some start) :
    (Call.beginning start).Dated base s := by
  obtain ⟨user, hu, h⟩ := Option.bind_eq_some_iff.mp h
  obtain ⟨method, -, h⟩ := Option.bind_eq_some_iff.mp h
  obtain ⟨assurance, -, h⟩ := Option.bind_eq_some_iff.mp h
  split at h
  · cases h
  · cases h
    exact H.users u user hu

/-- `finalize_login` accepts only what was begun after the last invalidation. -/
theorem State.checkAccount_current (H : Inv base s) {p : PendingAuthentication}
    {methods : List String} {strong : Option Nat} {fenced : Bool} {now lifetime : Nat}
    {row : SessionData} (hp : Dated base p.userId p.generation p.begun)
    (h : s.checkAccount R p methods strong fenced now lifetime = some row) :
    p.begun = s.invalidations p.userId ∧ Dated base row.userId row.authGeneration row.begun ∧
      row.userId = p.userId ∧ row.begun = p.begun := by
  obtain ⟨user, hu, h⟩ := Option.bind_eq_some_iff.mp h
  split at h
  · cases h
  · rename_i hok
    obtain ⟨normalized, -, h⟩ := Option.bind_eq_some_iff.mp h
    cases h
    have hgen : user.authGeneration = p.generation := by
      simp only [Bool.or_eq_true, not_or, decide_eq_true_eq] at hok
      exact not_not.mp hok.2
    have huser := H.users _ user hu
    rw [hgen] at huser
    exact ⟨hp.eq huser, hgen ▸ hp, rfl, rfl⟩

/-- `load_user` reads the generation that is stored. -/
theorem State.loadUser_dated (H : Inv base s) {u : Nat} {generation : Int} {user : User}
    (h : s.loadUser u generation = some user) :
    Dated base u generation (s.invalidations u) := by
  unfold State.loadUser at h
  split at h
  · cases h
  · obtain ⟨user, hu, h⟩ := Option.bind_eq_some_iff.mp h
    split at h
    · rename_i hok
      exact hok.2 ▸ H.users u user hu
    · cases h

theorem State.sessionForToken_spec {browser : Browser} {now : Nat} {row : AuthenticationSession}
    (h : s.sessionForToken browser now = some row) :
    row ∈ s.sessions ∧ some row.token = browser.token ∧ row.userId = browser.userId ∧
      row.authGeneration = browser.generation := by
  obtain ⟨token, htoken, h⟩ := Option.bind_eq_some_iff.mp h
  obtain ⟨found, hfound, h⟩ := Option.bind_eq_some_iff.mp h
  have hmem := List.mem_of_find?_eq_some hfound
  have heq := List.find?_some hfound
  split at h
  · cases h
  · rename_i hok
    cases h
    simp only [not_or, not_not] at hok
    exact ⟨hmem, by rw [htoken, of_decide_eq_true heq], hok.2.1, hok.2.2⟩

/-- A session is accepted only if it was begun after the last invalidation. -/
theorem State.sessionForToken_current (H : Inv base s) {browser : Browser} {now : Nat}
    {row : AuthenticationSession} (hb : (Call.browser browser).Dated base s)
    (h : s.sessionForToken browser now = some row) :
    row.begun = s.invalidations row.userId := by
  obtain ⟨hrow, htoken, hu, hgen⟩ := State.sessionForToken_spec h
  obtain ⟨-, n, hn, hrows⟩ := hb
  have hdated := (H.sessions row hrow).1
  rw [hu, hgen] at hdated
  rw [hu, ← hrows row hrow htoken hu]
  exact hdated.eq hn

theorem State.findPending_spec {token now : Nat} {binding : String} {p : PendingAuthentication}
    (h : s.findPending token binding now = some p) : p ∈ s.pendings ∧ p.token = token := by
  refine ⟨List.mem_of_find?_eq_some h, ?_⟩
  have := List.find?_some h
  simp only [decide_eq_true_eq] at this
  exact this.1

/-! ## Steps -/

/-- What a step keeps and what its answer accepts. -/
structure Good (base : Nat → Int) (s : State) (x : Reply × State) : Prop where
  inv : Inv base x.2
  accepted : ∀ u n, x.1.accepted = some (u, n) → n = s.invalidations u
  count : ∀ u, x.2.invalidations u = s.invalidations u + if x.1.invalidates u then 1 else 0

theorem Good.raised (H : Inv base t) (h : t.invalidations = s.invalidations) :
    Good base s (.raised, t) :=
  ⟨H, nofun, fun u => by simp [h, Reply.invalidates]⟩

theorem Good.running (H : Inv base t) (h : t.invalidations = s.invalidations) :
    Good base s (.running, t) :=
  ⟨H, nofun, fun u => by simp [h, Reply.invalidates]⟩

@[simp] theorem State.dropExpired_invalidations (s : State) (b : Browser) (now : Nat)
    (fails : Bool) : (s.dropExpired b now fails).invalidations = s.invalidations := by
  unfold State.dropExpired
  split <;> rfl

theorem resume_good (H : Inv base s) {k : Nat} {call : Call} {a : Action} {x : Reply × State}
    (hk : s.calls[k]? = some call) (ha : a.call? = some k) (hcurrent : Current s a)
    (h : resume R s k call a = some x) : Good base s x := by
  have hcall := H.calls call (List.mem_of_getElem? hk)
  unfold resume at h
  split at h
  case h_1 start _ now fails =>
    cases ha
    split at h <;> cases h
    · exact .raised (H.finish k) rfl
    · rename_i hfails
      have hstored := hcurrent (by simpa [Action.commits] using hfails) k rfl _ hk _ rfl
      exact ⟨(H.storePending hcall (H.begun_eq hcall hstored)).finish k, nofun,
        fun u => by simp [Reply.invalidates]; rfl⟩
  case h_2 p _ =>
    split at h <;> cases h
    · exact .raised H rfl
    · exact .running (H.advance (by simpa using ⟨hcall.1, nofun⟩)) rfl
  case h_3 p _ methods strong fenced now lifetime =>
    split at h <;> cases h
    · exact .raised (H.advance (by simpa using ⟨hcall.1, nofun⟩)) rfl
    · rename_i row hrow
      obtain ⟨hbegun, hdated, hsame⟩ := State.checkAccount_current H hcall.1 hrow
      refine ⟨H.advance ?_, ?_, fun u => by simp [Reply.invalidates]; rfl⟩
      · simpa using ⟨hcall.1, fun row' hr => by cases hr; exact ⟨hdated, hsame⟩⟩
      · intro u n hn
        cases hn
        exact hbegun
  case h_4 p row _ fails =>
    cases ha
    split at h <;> cases h
    · exact .raised (H.advance (by simpa using ⟨hcall.1, nofun⟩)) rfl
    · rename_i hfails
      have hstored := hcurrent (by simpa [Action.commits] using hfails) k rfl _ hk _ rfl
      obtain ⟨hdated, huser, hbegun⟩ := hcall.2 row rfl
      refine ⟨(H.storeSession hdated).finish k, fun u n hn => ?_,
        fun u => by simp [Reply.invalidates]; rfl⟩
      cases hn
      rw [← hbegun, ← huser]
      exact H.begun_eq hdated hstored
  case h_5 b _ now =>
    split at h
    · cases h
    · split at h <;> cases h
      · exact .raised (H.finish k) rfl
      · rename_i row hrow
        refine ⟨H.advance ?_, ?_, fun u => by simp [Reply.invalidates]; rfl⟩
        · intro call hc
          rw [List.mem_singleton.mp hc]
          exact hcall
        · intro u n hn
          cases hn
          exact State.sessionForToken_current H hcall hrow
  case h_6 b _ =>
    split at h
    · split at h <;> cases h
      · exact .raised (H.finish k) rfl
      · rename_i user hu
        refine .running (H.advance ?_) rfl
        simp only [List.mem_singleton, forall_eq]
        exact ⟨hcall.1, _, H.users _ user hu, fun _ _ _ _ => rfl⟩
    · cases h
  case h_7 b _ now fails =>
    split at h
    · split at h <;> cases h
      · exact .raised (H.dropExpired b now fails) (by simp)
      · rename_i row hrow
        refine ⟨H, ?_, fun u => by simp [Reply.invalidates]⟩
        intro u n hn
        cases hn
        exact State.sessionForToken_current H hcall hrow
    · cases h
  case h_8 b _ now fails =>
    split at h
    · split at h <;> cases h
      · exact .raised (H.dropExpired b now fails) (by simp)
      · rename_i row hrow
        refine ⟨H.advance ?_, ?_, fun u => by simp [Reply.invalidates]; rfl⟩
        · obtain ⟨hmem, -, hu, hgen⟩ := State.sessionForToken_spec hrow
          intro call hc
          rcases List.mem_cons.mp hc with rfl | hc
          · exact hcall
          · rw [List.mem_singleton.mp hc]
            intro data hdata
            cases hdata
            exact ⟨hu, hgen, (H.sessions row hmem).1⟩
        · intro u n hn
          cases hn
          exact State.sessionForToken_current H hcall hrow
    · cases h
  case h_9 i k' fails =>
    cases ha
    split at h <;> cases h
    · exact .raised (H.finish k) rfl
    · rename_i hfails
      have hstored := hcurrent (by simpa [Action.commits] using hfails) k rfl _ hk _ rfl
      refine ⟨(H.invalidate hcall hstored).finish k, nofun, fun u => ?_⟩
      simp [State.advance, Reply.invalidates]
  case h_10 => cases h

theorem step_good (H : Inv base s) {a : Action} {x : Reply × State} (hcurrent : Current s a)
    (h : step R s a = some x) : Good base s x := by
  unfold step at h
  split at h
  case h_1 u args =>
    split at h <;> cases h
    · exact .raised H rfl
    · exact .running (H.start (State.startBegin_dated H ‹_›)) rfl
  case h_2 token binding now fails =>
    split at h
    · cases h
      exact .raised H rfl
    · split at h <;> cases h
      · exact .raised H rfl
      · rename_i p hp
        obtain ⟨hmem, -⟩ := State.findPending_spec hp
        refine ⟨(H.deletePending token).start ⟨(H.pendings p hmem).1, nofun⟩, ?_,
          fun u => by simp [Reply.invalidates]; rfl⟩
        intro u n hn
        cases hn
        exact (H.pendings p hmem).2
  case h_3 u generation token =>
    split at h
    · cases h
    · rename_i htoken
      split at h <;> cases h
      · exact .raised H rfl
      · rename_i user hu
        have hdated := State.loadUser_dated H hu
        have hcall : (Call.browser ⟨u, generation, token, token.isNone⟩).Dated base s :=
          ⟨fun n hn => by
            cases hn
            simpa using htoken, _, hdated, fun _ _ _ _ => rfl⟩
        have hstart := H.start hcall
        split
        · exact ⟨hstart, nofun, fun u => by simp [Reply.invalidates]⟩
        · exact .running hstart rfl
  case h_4 u =>
    split at h <;> cases h
    · exact .raised H rfl
    · exact .running (H.start nofun) rfl
  case h_5 u user =>
    cases h
    exact .running (H.setUser u user) rfl
  case h_6 =>
    obtain ⟨k, ha, h⟩ := Option.bind_eq_some_iff.mp h
    obtain ⟨call, hk, h⟩ := Option.bind_eq_some_iff.mp h
    exact resume_good H hk ha hcurrent h

/-! ## One session for a pending token -/

def Call.holds (token : Nat) : Call → Bool
  | .pending p _ => p.token = token
  | _ => false

/-- The places that may still lead to a session of the token. -/
def State.live (s : State) (token : Nat) : Nat :=
  s.pendings.countP (·.token = token) + s.calls.countP (·.holds token)

/-- Beside the new token, a step makes a session only of what was live. -/
structure Uses (token : Nat) (s : State) (x : Reply × State) : Prop where
  live : x.2.live token + (if x.1.finalizes token then 1 else 0) ≤
    s.live token + if s.tokenCount = token ∧ x.2.tokenCount = s.tokenCount + 1 then 1 else 0
  count : s.tokenCount ≤ x.2.tokenCount

theorem State.live_advance (s : State) (token : Nat) {k : Nat} {call : Call} (next : List Call)
    (hk : s.calls[k]? = some call) :
    (s.advance k next).live token + (if call.holds token then 1 else 0) =
      s.live token + next.countP (·.holds token) := by
  have := Pending.countP_advance next (·.holds token) hk
  simp only [State.live, State.advance]
  omega

theorem Uses.advance {token k : Nat} {call : Call} {next : List Call} {reply : Reply}
    (hk : s.calls[k]? = some call)
    (h : next.countP (·.holds token) + (if reply.finalizes token then 1 else 0) ≤
      if call.holds token then 1 else 0) : Uses token s (reply, s.advance k next) where
  live := by
    have := s.live_advance token next hk
    simp only
    omega
  count := le_refl _

theorem Uses.same {token : Nat} {reply : Reply} (hlive : t.live token ≤ s.live token)
    (hcount : t.tokenCount = s.tokenCount) (h : reply.finalizes token = false) :
    Uses token s (reply, t) where
  live := by
    simp only [h, Bool.false_eq_true, if_false]
    omega
  count := hcount.ge

theorem State.countP_livePendings (s : State) (u now token : Nat) :
    (s.livePendings u now).countP (·.token = token) ≤ s.pendings.countP (·.token = token) :=
  (List.filter_sublist.trans List.filter_sublist).countP_le

theorem State.storePending_live (s : State) (token : Nat) (start : Begin) (now : Nat) :
    (s.storePending start now).live token ≤
      s.live token + if s.tokenCount = token then 1 else 0 := by
  have := s.countP_livePendings start.userId now token
  simp only [State.live, State.storePending, List.countP_append, List.countP_singleton,
    decide_eq_true_eq]
  omega

theorem State.invalidate_live (s : State) (token : Nat) (i : Invalidation) :
    (s.invalidate i).live token ≤ s.live token := by
  have : (s.invalidate i).pendings.countP (·.token = token) ≤
      s.pendings.countP (·.token = token) := List.filter_sublist.countP_le
  simp only [State.live]
  exact Nat.add_le_add_right this _

/-- Consuming a token moves it from the table to the call. -/
theorem State.deletePending_live (s : State) (token : Nat) {p : PendingAuthentication}
    (hp : p ∈ s.pendings) :
    (s.deletePending p.token).pendings.countP (·.token = token) +
      (if p.token = token then 1 else 0) ≤ s.pendings.countP (·.token = token) := by
  by_cases h : p.token = token
  · subst h
    have hnone : (s.deletePending p.token).pendings.countP (·.token = p.token) = 0 := by
      rw [List.countP_eq_zero]
      intro q hq
      simpa using (List.mem_filter.mp hq).2
    have hpos : 0 < s.pendings.countP (·.token = p.token) :=
      List.countP_pos_iff.mpr ⟨p, hp, by simp⟩
    rw [hnone, if_pos rfl]
    omega
  · rw [if_neg h]
    exact List.filter_sublist.countP_le

@[simp] theorem State.dropExpired_live (s : State) (b : Browser) (now token : Nat)
    (fails : Bool) : (s.dropExpired b now fails).live token = s.live token := by
  unfold State.dropExpired
  split <;> rfl

@[simp] theorem State.dropExpired_tokenCount (s : State) (b : Browser) (now : Nat)
    (fails : Bool) : (s.dropExpired b now fails).tokenCount = s.tokenCount := by
  unfold State.dropExpired
  split <;> rfl

theorem resume_uses (token : Nat) {k : Nat} {call : Call} {a : Action} {x : Reply × State}
    (hk : s.calls[k]? = some call) (h : resume R s k call a = some x) : Uses token s x := by
  unfold resume at h
  split at h
  case h_1 start _ now fails =>
    split at h <;> cases h
    · exact .advance hk (by simp [Reply.finalizes])
    · have hlive := s.storePending_live token start now
      have hadvance := (s.storePending start now).live_advance token [] hk
      refine ⟨?_, Nat.le_succ _⟩
      simp only [Call.holds, List.countP_nil, Bool.false_eq_true, if_false] at hadvance
      simp only [Reply.finalizes, State.advance, State.storePending, and_true,
        Bool.false_eq_true, if_false] at hadvance hlive ⊢
      omega
  case h_2 p _ =>
    split at h <;> cases h
    · exact .same (le_refl _) rfl rfl
    · exact .advance hk (by simp [Call.holds, Reply.finalizes])
  case h_3 p _ methods strong fenced now lifetime =>
    split at h <;> cases h <;> exact .advance hk (by simp [Call.holds, Reply.finalizes])
  case h_4 p row _ fails =>
    split at h <;> cases h
    · exact .advance hk (by simp [Call.holds, Reply.finalizes])
    · have hadvance := (s.storeSession row).live_advance token [] hk
      have hlive : (s.storeSession row).live token = s.live token := rfl
      refine ⟨?_, Nat.le_succ _⟩
      simp only [Call.holds, List.countP_nil, hlive, decide_eq_true_eq] at hadvance
      simp only [Reply.finalizes, decide_eq_true_eq]
      omega
  case h_5 b _ now =>
    split at h
    · cases h
    · split at h <;> cases h <;> exact .advance hk (by simp [Call.holds, Reply.finalizes])
  case h_6 b _ =>
    split at h
    · split at h <;> cases h <;> exact .advance hk (by simp [Call.holds, Reply.finalizes])
    · cases h
  case h_7 b _ now fails =>
    split at h
    · split at h <;> cases h <;> exact .same (by simp) (by simp) rfl
    · cases h
  case h_8 b _ now fails =>
    split at h
    · split at h <;> cases h
      · exact .same (by simp) (by simp) rfl
      · exact .advance hk (by simp [Call.holds, Reply.finalizes])
    · cases h
  case h_9 i _ fails =>
    split at h <;> cases h
    · exact .advance hk (by simp [Call.holds, Reply.finalizes])
    · have hadvance := (s.invalidate i).live_advance token [] hk
      have hlive := s.invalidate_live token i
      refine ⟨?_, Nat.le_succ _⟩
      simp only [Call.holds, List.countP_nil, Bool.false_eq_true, if_false] at hadvance
      simp only [Reply.finalizes, Bool.false_eq_true, if_false]
      omega
  case h_10 => cases h

theorem State.live_start (s : State) (token : Nat) (call : Call) :
    State.live { s with calls := s.calls ++ [call] } token =
      s.live token + if call.holds token then 1 else 0 := by
  simp only [State.live, List.countP_append, List.countP_singleton]
  omega

theorem step_uses (token : Nat) {a : Action} {x : Reply × State} (h : step R s a = some x) :
    Uses token s x := by
  unfold step at h
  split at h
  case h_1 u args =>
    split at h <;> cases h
    · exact .same (le_refl _) rfl rfl
    · exact .same (by rw [State.live_start]; simp [Call.holds]) rfl rfl
  case h_2 token' binding now fails =>
    split at h
    · cases h
      exact .same (le_refl _) rfl rfl
    · split at h <;> cases h
      · exact .same (le_refl _) rfl rfl
      · rename_i p hp
        obtain ⟨hmem, rfl⟩ := State.findPending_spec hp
        have hlive := s.deletePending_live token hmem
        refine .same ?_ rfl rfl
        simp only [State.live, List.countP_append, List.countP_singleton, Call.holds,
          decide_eq_true_eq]
        omega
  case h_3 u generation token' =>
    split at h
    · cases h
    · split at h <;> cases h
      · exact .same (le_refl _) rfl rfl
      · refine .same (by rw [State.live_start]; simp [Call.holds]) rfl ?_
        split <;> rfl
  case h_4 u =>
    split at h <;> cases h
    · exact .same (le_refl _) rfl rfl
    · exact .same (by rw [State.live_start]; simp [Call.holds]) rfl rfl
  case h_5 u user =>
    cases h
    exact .same (le_refl _) rfl rfl
  case h_6 =>
    obtain ⟨k, -, h⟩ := Option.bind_eq_some_iff.mp h
    obtain ⟨call, hk, h⟩ := Option.bind_eq_some_iff.mp h
    exact resume_uses token hk h

/-- A token that has not been drawn is nowhere, and every token is live or used at most once. -/
theorem sessionsOf_le {es : List (Action × Reply)} (token : Nat)
    (h : (system R users).Run (.init users) es s) :
    s.live token + sessionsOf token es ≤ 1 ∧
      (s.tokenCount ≤ token → s.live token + sessionsOf token es = 0) := by
  apply h.history (P := fun es s => s.live token + sessionsOf token es ≤ 1 ∧
      (s.tokenCount ≤ token → s.live token + sessionsOf token es = 0))
  · simp [State.live, State.init, sessionsOf]
  · intro bs x ⟨a, reply⟩ y ⟨hle, hfresh⟩ hstep
    have H := step_uses token hstep
    have hlive := H.live
    have hcount := H.count
    have hbs : sessionsOf token (bs ++ [(a, reply)]) =
        sessionsOf token bs + if reply.finalizes token then 1 else 0 := by
      simp [sessionsOf, List.countP_append, List.countP_singleton]
    rw [hbs]
    split at hlive <;> split at hlive <;> simp_all <;> omega

/-! ## Runs whose calls commit on the stored generation -/

/-- What has been accepted so far was begun after the last invalidation committed before it. -/
def AcceptedCurrent (es : List (Action × Reply)) : Prop :=
  ∀ es₁ e es₂, es = es₁ ++ e :: es₂ →
    ∀ u n, e.2.accepted = some (u, n) → n = invalidationsOf u es₁

theorem AcceptedCurrent.snoc {es : List (Action × Reply)} {e : Action × Reply}
    (h : AcceptedCurrent es)
    (he : ∀ u n, e.2.accepted = some (u, n) → n = invalidationsOf u es) :
    AcceptedCurrent (es ++ [e]) := by
  intro es₁ e' es₂ heq
  rcases List.eq_nil_or_concat es₂ with rfl | ⟨es₃, e₃, rfl⟩
  · obtain ⟨heq, he'⟩ := List.append_inj' heq rfl
    cases he'
    rw [← List.append_cancel_right heq]
    exact he
  · rw [List.concat_eq_append, ← List.cons_append, ← List.append_assoc] at heq
    obtain ⟨heq, -⟩ := List.append_inj' heq rfl
    exact h es₁ e' es₃ heq

theorem run_current {es : List (Action × Reply)}
    (h : ((system R users).restrict fun s e _ => Current s e.1).Run (.init users) es s) :
    Inv (fun u => ((users u).map User.authGeneration).getD 0) s ∧
      (∀ u, s.invalidations u = invalidationsOf u es) ∧ AcceptedCurrent es := by
  apply h.history (P := fun es s => Inv (fun u => ((users u).map User.authGeneration).getD 0) s ∧
      (∀ u, s.invalidations u = invalidationsOf u es) ∧ AcceptedCurrent es)
  · refine ⟨Inv.init fun u user hu => by rw [hu]; rfl, fun _ => rfl, ?_⟩
    intro es₁ e es₂ heq
    cases es₁ <;> cases heq
  · intro bs x ⟨a, reply⟩ y ⟨H, hcount, haccepted⟩ ⟨hcurrent, hstep⟩
    have hgood := step_good H hcurrent hstep
    refine ⟨hgood.inv, ?_, haccepted.snoc ?_⟩
    · intro u
      rw [hgood.count u, hcount u]
      simp only [invalidationsOf, List.countP_append, List.countP_singleton]
    · intro u n hn
      rw [hgood.accepted u n hn, hcount u]

/-- A pending token leads to one authentication session at most; and in a run whose calls commit while
the generation they have loaded is still stored, what any of the checks accepts was begun after the
last invalidation of its account. -/
theorem invalidation_complete {es : List (Action × Reply)}
    (h : (system R users).Run (.init users) es s) :
    (∀ token, sessionsOf token es ≤ 1) ∧
      (((system R users).restrict fun s e _ => Current s e.1).Run (.init users) es s →
        AcceptedCurrent es) := by
  refine ⟨fun token => ?_, fun h => (run_current h).2.2⟩
  have := (sessionsOf_le token h).1
  omega

/-! ## A login between two invalidations -/

/-- An environment for runs on fixed inputs. -/
def plainRuntime : Runtime := ⟨fun _ => "", id⟩

def oneUser : Nat → Option User :=
  fun u => if u = 7 then some ⟨false, false, false, false, 0⟩ else none

def passwordLogin : BeginArgs := ⟨"password", some .basic, "browser", false, false⟩

/-- An invalidation that ends the login begun before it, and a login after it. -/
def loginAfter : List Action :=
  [.begin 7 passwordLogin, .insertPending 0 100 false, .consumePending 0 "browser" 200 false,
    .invalidate 7, .commitInvalidation 1 false, .finalizeLogin 0,
    .checkAccount 0 ["password"] none false 300 1000, .begin 7 passwordLogin,
    .insertPending 1 400 false, .consumePending 2 "browser" 500 false, .finalizeLogin 1,
    .checkAccount 1 ["password"] none false 600 1000, .insertSession 1 false,
    .loadUser 7 1 (some 3), .loadSession 1 700]

theorem invalidation_complete_one :
    ∃ es s, (system plainRuntime oneUser).Run (.init oneUser) es s ∧
      ((∀ token, sessionsOf token es ≤ 1) ∧ AcceptedCurrent es) ∧ sessionsOf 2 es = 1 := by
  have hexec : (System.answerIf Current (step plainRuntime) (.init oneUser) loginAfter).any
      (fun (es, _) => sessionsOf 2 es = 1) = true := by decide
  obtain ⟨⟨es, s⟩, hrun, hone⟩ := (Option.any_eq_true _ _).mp hexec
  have h : ((system plainRuntime oneUser).restrict fun s e _ => Current s e.1).Run _ es s :=
    System.run_of_answerIf hrun
  obtain ⟨hle, hcurrent⟩ := invalidation_complete h.of_restrict
  exact ⟨es, s, h.of_restrict, ⟨hle, hcurrent h⟩, of_decide_eq_true hone⟩

/-- Two invalidations load the generation 0. The first commits, a login is begun and consumed, and
the second writes the same generation once more. -/
def loginBetween : List Action :=
  [.invalidate 7, .invalidate 7, .commitInvalidation 0 false, .begin 7 passwordLogin,
    .insertPending 1 100 false, .consumePending 1 "browser" 200 false,
    .commitInvalidation 0 false, .finalizeLogin 0,
    .checkAccount 0 ["password"] none false 300 1000, .insertSession 0 false,
    .loadUser 7 1 (some 3), .loadSession 0 400]

/-- The login that was begun before the second invalidation is accepted after it, and so is its
session. -/
theorem accepted_after_invalidation :
    ∃ es s, (system plainRuntime oneUser).Run (.init oneUser) es s ∧ ¬ AcceptedCurrent es := by
  have hexec : (System.answer (step plainRuntime) (.init oneUser) loginBetween).any
      (fun (es, _) => es[11]?.any (fun e => e.2.accepted = some (7, 1)) ∧
        invalidationsOf 7 (es.take 11) = 2) = true := by decide
  obtain ⟨⟨es, s⟩, hrun, hd⟩ := (Option.any_eq_true _ _).mp hexec
  obtain ⟨hlast, hcount⟩ := of_decide_eq_true hd
  obtain ⟨e, he, hacc⟩ := (Option.any_eq_true _ _).mp hlast
  refine ⟨es, s, System.run_of_answer hrun, fun h => ?_⟩
  obtain ⟨hlt, rfl⟩ := List.getElem?_eq_some_iff.mp he
  have hsplit : es = es.take 11 ++ es[11] :: es.drop 12 := by
    rw [List.getElem_cons_drop, List.take_append_drop]
  have := h _ _ _ hsplit 7 1 (of_decide_eq_true hacc)
  omega

end WebSSH.Auth
