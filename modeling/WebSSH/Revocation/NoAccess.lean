import WebSSH.Connect.Lifecycle
import WebSSH.Revocation.Access

/-!
# A revocation leaves no access

When the sockets of the user are gone, the last check of a worker fails: the worker of `connect_ssh`
and that of `smb_quick_connect` look for the row of their socket after they have published, so that
a scan of the revocation or that check closes what they publish. `handle_quick_connect` has no such
check: it must store its connection before the scan (`Clear`).
-/

namespace WebSSH.Connect

variable {r r' : Request} {s t : State} {i : Nat} {input : Input} {signal : Signal}
  {reply : Reply} {replies : List Reply}

namespace Request

/-- The worker is past the query for the row of its socket. -/
def Checked (r : Request) : Prop :=
  match r.pc with
  | .commit | .getSession | .record | .emitConnected | .finish | .unregister | .ended => True
  | _ => False

theorem runStage_unchecked (stage : Stage) (todo : List Stage) :
    ¬ (r.runStage stage todo input).Checked := by
  unfold runStage abort
  split <;> split <;> exact id

theorem afterClose_checked {after : After} (h : (r.afterClose after).Checked)
    (hlive : (r.afterClose after).session = .live) : r.session = .live := by
  cases after <;> exact hlive

/-- A worker with a live session comes past the check only if it has found the row, or if the query
has raised. -/
theorem work_checked (H : r.Inv) (h : r.work input = some (signal, r')) (hchecked : r'.Checked)
    (hlive : r'.session = .live) : r.session = .live ∧
      (r.Checked ∨ r.pc = .checkSocket ∧ (input.error.isSome ∨ input.ok = true)) := by
  have hholds := H.holds
  unfold Request.work at h
  cases hpc : r.pc with
  | submit | validate | reserve =>
    simp only [hpc] at h
    rw [hpc] at hholds
    have habsent : r.session = .absent := hholds.1
    split at h <;> cases h <;> cases habsent.symm.trans hlive
  | start | enter =>
    simp only [hpc] at h
    rw [hpc] at hholds
    have habsent : r.session = .absent := hholds.1
    cases h
    cases habsent.symm.trans hlive
  | creating todo =>
    cases todo with
    | nil => simp only [hpc] at h; cases h; exact hchecked.elim
    | cons stage todo =>
      simp only [hpc] at h
      cases h
      exact (runStage_unchecked stage todo hchecked).elim
  | cleanup error => simp only [hpc] at h; cases h; exact hchecked.elim
  | afterStore | afterReader | sendStartup =>
    simp only [hpc] at h
    cases h
    unfold Checked at hchecked
    split at hchecked <;> rename_i hnew
    all_goals first
      | exact hchecked.elim
      | (simp only [goto] at hnew; split at hnew <;> cases hnew)
  | startReader | recordHandle =>
    simp only [hpc] at h
    split at h <;> cases h <;> exact hchecked.elim
  | startup =>
    simp only [hpc] at h
    repeat' split at h
    all_goals cases h; exact hchecked.elim
  | close after =>
    simp only [hpc] at h
    split at h <;> cases h
    · exact absurd (afterClose_checked hchecked hlive) (take_eq_none ‹_›)
    · exact hchecked.elim
  | closing after =>
    simp only [hpc] at h
    cases h
    cases afterClose_checked hchecked hlive
  | returned error =>
    rw [hpc] at hholds
    cases error with
    | none => simp only [hpc] at h; split at h <;> cases h <;> exact hchecked.elim
    | some error =>
      simp only [hpc] at h
      split at h <;> cases h <;> exact absurd hlive hholds.2
  | checkSocket =>
    simp only [hpc] at h
    split at h <;> rename_i herror <;> cases h
    · exact ⟨hlive, .inr ⟨rfl, .inl (by rw [herror]; rfl)⟩⟩
    · split at hchecked
      · exact hchecked.elim
      · rename_i hok
        simp only [Bool.or_eq_true, not_or, Bool.not_eq_true', Bool.not_eq_false] at hok
        exact ⟨hlive, .inr ⟨rfl, .inr hok.2⟩⟩
  | commit =>
    have hold : r.Checked := by unfold Checked; rw [hpc]; trivial
    simp only [hpc] at h
    split at h <;> cases h
    · exact hchecked.elim
    · obtain ⟨-, -, -, rfl⟩ := commitIfActive_eq_some ‹_›
      exact ⟨hlive, .inl hold⟩
  | getSession | emitConnected =>
    have hold : r.Checked := by unfold Checked; rw [hpc]; trivial
    simp only [hpc] at h
    split at h <;> cases h <;> exact ⟨hlive, .inl hold⟩
  | record | finish | unregister =>
    have hold : r.Checked := by unfold Checked; rw [hpc]; trivial
    simp only [hpc] at h
    cases h
    exact ⟨hlive, .inl hold⟩
  | ended => simp only [hpc] at h; cases h

theorem read_live (h : r.read input = some (signal, r')) (hlive : r'.session = .live) :
    r.session = .live := by
  unfold Request.read at h
  split at h
  case h_7 =>
    split at h <;> cases h
    · exact hlive
    · obtain ⟨-, rfl⟩ := take_eq_some ‹_›
      cases hlive
  case h_8 =>
    cases h
    cases hlive
  all_goals
    repeat' split at h
    all_goals cases h <;> exact hlive

theorem closeStep_live {k : Nat} (h : r.closeStep k input = some (signal, r'))
    (hlive : r'.session = .live) : r.session = .live := by
  obtain ⟨closer, -, h⟩ := Option.bind_eq_some_iff.mp h
  split at h
  case h_2 =>
    split at h <;> cases h
    · exact hlive
    · obtain ⟨-, rfl⟩ := take_eq_some ‹_›
      cases hlive
  all_goals
    cases h
    first
      | exact hlive
      | cases hlive

/-- Other code takes the session. -/
theorem Inv.takenAway (H : r.Inv) (hlive : r.session = .live) :
    Inv { r with session := .taken, closers := r.closers ++ [⟨false, .closing⟩] } := by
  refine H.takenByOther ⟨rfl, rfl, rfl, rfl, id, id, .inr (.inl ⟨hlive, rfl, rfl⟩)⟩ hlive rfl ?_
  unfold otherHolders
  rw [List.countP_append]
  rfl

end Request

/-- The worker of `i` finds the row of its socket, or its query raises. -/
def FindsRow (s : State) (a : Action) (i : Nat) : Prop :=
  ∃ input, a = .work i input ∧ (input.error.isSome ∨ input.ok = true) ∧
    ∃ r, s.requests[i]? = some r ∧ r.pc = .checkSocket

/-- What a request has of a session that its worker has checked, it had before the step, or the
worker has found the row. -/
def Keeps (s : State) (a : Action) (t : State) : Prop :=
  t.requests.length = s.requests.length ∧
    ∀ (i : Nat) (r' : Request), t.requests[i]? = some r' → r'.session = .live → r'.Checked →
      ∃ r, s.requests[i]? = some r ∧ r.session = .live ∧ (r.Checked ∨ FindsRow s a i)

theorem Keeps.refl (s : State) (a : Action) : Keeps s a s :=
  ⟨rfl, fun _ r hr hlive hchecked => ⟨r, hr, hlive, .inl hchecked⟩⟩

theorem Keeps.set {a : Action} (hi : s.requests[i]? = some r)
    (h : r'.session = .live → r'.Checked → r.session = .live ∧ (r.Checked ∨ FindsRow s a i))
    (ht : t.requests = s.requests.set i r') : Keeps s a t := by
  refine ⟨by rw [ht, List.length_set], fun j x hx hlive hchecked => ?_⟩
  rw [ht] at hx
  by_cases hij : i = j
  · subst hij
    cases (State.setRequest_self hi).symm.trans hx
    obtain ⟨hl, hc⟩ := h hlive hchecked
    exact ⟨r, hi, hl, hc⟩
  · exact ⟨x, (List.getElem?_set_ne hij).symm.trans hx, hlive, .inl hchecked⟩

/-- A step of the request `i` alone, with its worker where it is. -/
theorem Keeps.apply {a : Action} {f : Request → Option (Signal × Request)}
    (h : s.apply i f = some (reply, t))
    (hf : ∀ r signal r', f r = some (signal, r') →
      r'.pc = r.pc ∧ (r'.session = .live → r.session = .live)) : Keeps s a t := by
  obtain ⟨r, hi, h⟩ := Option.bind_eq_some_iff.mp h
  obtain ⟨⟨signal, r'⟩, hfr, h⟩ := Option.bind_eq_some_iff.mp h
  cases h
  obtain ⟨hpc, hsession⟩ := hf r signal r' hfr
  refine .set hi (fun hlive hchecked => ⟨hsession hlive, .inl ?_⟩) rfl
  unfold Request.Checked at hchecked ⊢
  rwa [← hpc]

theorem Keeps.cancelSocket (s : State) (a : Action) (socketSid : String) :
    Keeps s a (s.cancelSocket socketSid) := by
  refine ⟨List.length_mapIdx, fun j x hx hlive hchecked => ?_⟩
  have hget : (s.cancelSocket socketSid).requests[j]? = s.requests[j]?.map fun r =>
      if s.ofSocket socketSid j r then r.forceCancel else r := List.getElem?_mapIdx
  rw [hget] at hx
  obtain ⟨r, hr, rfl⟩ := Option.map_eq_some_iff.mp hx
  refine ⟨r, hr, ?_⟩
  split at hlive
  · rw [if_pos ‹_›] at hchecked
    exact ⟨hlive, .inl hchecked⟩
  · rw [if_neg ‹_›] at hchecked
    exact ⟨hlive, .inl hchecked⟩

theorem step_keeps {a : Action} (H : s.Inv replies) (h : step s a = some (reply, t))
    (ha : ∀ config, a ≠ .connect config) : Keeps s a t := by
  cases a with
  | connect config => exact absurd rfl (ha config)
  | cancel key =>
    simp only [step] at h
    split at h
    · cases h
      exact .refl _ _
    · obtain ⟨r, hi, h⟩ := Option.bind_eq_some_iff.mp h
      split at h <;> cases h
      · exact .refl _ _
      · rename_i r' hcancel
        have hsame : r'.pc = r.pc ∧ r'.session = r.session := by
          unfold Request.tryCancel at hcancel
          split at hcancel <;> cases hcancel
          exact ⟨rfl, rfl⟩
        refine .set hi (fun hlive hchecked => ⟨hsame.2 ▸ hlive, .inl ?_⟩) rfl
        unfold Request.Checked at hchecked ⊢
        rwa [← hsame.1]
  | disconnect socketSid =>
    cases h
    exact .cancelSocket s _ socketSid
  | lifecycleCancel i =>
    refine .apply h fun r signal r' hf => ?_
    cases hf
    exact ⟨rfl, id⟩
  | work i input =>
    simp only [step] at h
    obtain ⟨r, hi, h⟩ := Option.bind_eq_some_iff.mp h
    obtain ⟨⟨signal, r'⟩, hwork, h⟩ := Option.bind_eq_some_iff.mp h
    cases h
    refine .set hi (fun (hlive : r'.session = .live) (hchecked : r'.Checked) => ?_) ?_
    · obtain ⟨hl, hc⟩ := Request.work_checked (H.requests i r hi) hwork hchecked hlive
      exact ⟨hl, hc.imp id fun hc => ⟨input, rfl, hc.2, r, hi, hc.1⟩⟩
    · split
      · exact State.unregister_requests
      · rfl
  | read i input =>
    refine .apply h fun r signal r' hf => ?_
    exact ⟨(Request.read_aside hf).2.1, Request.read_live hf⟩
  | startClose i announces =>
    refine .apply h fun r signal r' hf => ?_
    cases hf
    exact ⟨rfl, id⟩
  | close i k input =>
    refine .apply h fun r signal r' hf => ?_
    exact ⟨(Request.closeStep_aside hf).2.1, Request.closeStep_live hf⟩

end WebSSH.Connect

namespace WebSSH.Revocation

variable {userId : String} {s t : State} {owner : Owner}

/-! ## What the revocation has left -/

/-- The row of a socket of the user that is still to be disconnected. -/
def Phase.LeavesRow : Phase → Owner → Prop
  | .idle, _ => True
  | .sockets todo, owner => owner ∈ todo
  | .disconnecting first pc todo, owner =>
    owner ∈ todo ∨ owner = first ∧ (pc = .cancelSsh ∨ pc = .cancelSmb ∨ pc = .deleteRow)
  | _, _ => False

/-- A session that is still to be closed, or found. -/
def Phase.LeavesSession : Phase → Nat → Prop
  | .idle, _ | .sockets _, _ | .disconnecting _ _ _, _ | .scan, _ => True
  | .sessions todo, i => i ∈ todo
  | _, _ => False

/-- The scan of `connections` is still to come. -/
def Phase.BeforeConnections : Phase → Prop
  | .closeSources | .deleteRows | .returned => False
  | _ => True

instance : DecidablePred Phase.BeforeConnections
  | .closeSources | .deleteRows | .returned => inferInstanceAs (Decidable False)
  | .idle | .sockets _ | .disconnecting _ _ _ | .scan | .sessions _ | .closeConnections =>
    inferInstanceAs (Decidable True)

/-- The scan of `_sources` is still to come. -/
def Phase.BeforeSources : Phase → Prop
  | .deleteRows | .returned => False
  | _ => True

/-- The worker has still to look for the row of its socket, or is going to close the source. -/
def Smb.Unchecked (m : Smb) : Prop :=
  m.pc = .query ∨ m.pc = .check false ∨ m.pc = .requestClose

structure Inv (userId : String) (phase : Phase) (s : State) : Prop where
  connect : ∃ replies, s.connect.Inv replies
  owners : s.owners.length = s.connect.requests.length
  rows : ∀ o ∈ s.rows, o.userId = userId → phase.LeavesRow o
  sessions : ∀ (i : Nat) (r : Connect.Request) (o : Owner), s.connect.requests[i]? = some r →
    s.owners[i]? = some o → o.userId = userId → r.session = .live → r.Checked →
      phase.LeavesSession i
  connections : ∀ q ∈ s.quicks, q.owner.userId = userId → q.connection = .stored →
    phase.BeforeConnections
  sources : ∀ m ∈ s.smbs, m.owner.userId = userId → m.source = .stored →
    m.Unchecked ∨ phase.BeforeSources

/-- Nothing is published, no row is added, and no worker goes on. -/
structure Fades (s t : State) : Prop where
  connect : ∃ replies, t.connect.Inv replies
  owners : t.owners = s.owners
  requests : ∃ a, Connect.Keeps s.connect a t.connect ∧ ∀ i, ¬ Connect.FindsRow s.connect a i
  rows : ∀ o ∈ t.rows, o ∈ s.rows
  quicks : ∀ q' ∈ t.quicks, ∃ q ∈ s.quicks, q'.owner = q.owner ∧
    (q'.connection = .stored → q.connection = .stored)
  smbs : ∀ m' ∈ t.smbs, ∃ m ∈ s.smbs, m'.owner = m.owner ∧ m'.pc = m.pc ∧
    (m'.source = .stored → m.source = .stored)

variable {phase : Phase}

theorem Inv.init : Inv userId .idle .init where
  connect := ⟨[], .init⟩
  owners := rfl
  rows _ h := absurd h List.not_mem_nil
  sessions _ _ _ h := nomatch h
  connections _ h := absurd h List.not_mem_nil
  sources _ h := absurd h List.not_mem_nil

theorem Inv.fades (H : Inv userId phase s) (h : Fades s t) : Inv userId phase t := by
  obtain ⟨a, ⟨hlength, hkeeps⟩, hno⟩ := h.requests
  refine ⟨h.connect, ?_, fun o ho => H.rows o (h.rows o ho), ?_, ?_, ?_⟩
  · rw [h.owners, H.owners, hlength]
  · intro i r' o hr' ho hu hlive hchecked
    obtain ⟨r, hr, hl, hc⟩ := hkeeps i r' hr' hlive hchecked
    exact H.sessions i r o hr (h.owners ▸ ho) hu hl (hc.resolve_right (hno i))
  · intro q' hq' hu hstored
    obtain ⟨q, hq, howner, hold⟩ := h.quicks q' hq'
    exact H.connections q hq (howner ▸ hu) (hold hstored)
  · intro m' hm' hu hstored
    obtain ⟨m, hm, howner, hpc, hold⟩ := h.smbs m' hm'
    refine (H.sources m hm (howner ▸ hu) (hold hstored)).imp (fun hun => ?_) id
    unfold Smb.Unchecked at hun ⊢
    rwa [hpc]

theorem Entry.close_ne_stored (e : Entry) : e.close ≠ .stored := by
  cases e <;> nofun

/-- All but one part of the state is left. -/
theorem Fades.refl (H : Inv userId phase s) : Fades s s where
  connect := H.connect
  owners := rfl
  requests := ⟨.disconnect "", .refl _ _, fun _ ⟨_, h, _⟩ => nomatch h⟩
  rows _ h := h
  quicks q hq := ⟨q, hq, rfl, id⟩
  smbs m hm := ⟨m, hm, rfl, rfl, id⟩

theorem Fades.closeConnections (H : Inv userId phase s) (user : String) :
    Fades s (s.closeConnections user) where
  connect := H.connect
  owners := rfl
  requests := (Fades.refl H).requests
  rows _ h := h
  quicks q' hq' := by
    obtain ⟨q, hq, rfl⟩ := List.mem_map.mp hq'
    refine ⟨q, hq, ?_⟩
    split
    · exact ⟨rfl, fun h => absurd h (Entry.close_ne_stored _)⟩
    · exact ⟨rfl, id⟩
  smbs m hm := ⟨m, hm, rfl, rfl, id⟩

theorem Fades.closeSources (H : Inv userId phase s) (user : String) :
    Fades s (s.closeSources user) where
  connect := H.connect
  owners := rfl
  requests := (Fades.refl H).requests
  rows _ h := h
  quicks q hq := ⟨q, hq, rfl, id⟩
  smbs m' hm' := by
    obtain ⟨m, hm, rfl⟩ := List.mem_map.mp hm'
    refine ⟨m, hm, ?_⟩
    split
    · exact ⟨rfl, rfl, fun h => absurd h (Entry.close_ne_stored _)⟩
    · exact ⟨rfl, rfl, id⟩

theorem Fades.cancelSmb (H : Inv userId phase s) (owner : Owner) : Fades s (s.cancelSmb owner) where
  connect := H.connect
  owners := rfl
  requests := (Fades.refl H).requests
  rows _ h := h
  quicks q hq := ⟨q, hq, rfl, id⟩
  smbs m' hm' := by
    obtain ⟨m, hm, rfl⟩ := List.mem_map.mp hm'
    refine ⟨m, hm, ?_⟩
    split <;> exact ⟨rfl, rfl, id⟩

theorem Fades.filterRows (H : Inv userId phase s) (p : Owner → Bool) :
    Fades s { s with rows := s.rows.filter p } where
  connect := H.connect
  owners := rfl
  requests := (Fades.refl H).requests
  rows _ h := List.mem_of_mem_filter h
  quicks q hq := ⟨q, hq, rfl, id⟩
  smbs m hm := ⟨m, hm, rfl, rfl, id⟩

theorem Fades.disconnectStep (H : Inv userId phase s) (owner : Owner) (pc : DisconnectPc) :
    Fades s (s.disconnectStep owner pc).1 := by
  cases pc with
  | cancelSsh =>
    obtain ⟨replies, hconnect⟩ := H.connect
    exact {
      connect := ⟨_, Connect.step_inv (a := .disconnect owner.socketSid) hconnect rfl⟩
      owners := rfl
      requests := ⟨.disconnect "", .cancelSocket _ _ _, fun _ ⟨_, h, _⟩ => nomatch h⟩
      rows := fun _ h => h
      quicks := fun q hq => ⟨q, hq, rfl, id⟩
      smbs := fun m hm => ⟨m, hm, rfl, rfl, id⟩ }
  | cancelSmb => exact .cancelSmb H owner
  | deleteRow => exact .filterRows H _
  | count => exact .refl H
  | closeConnections => exact .closeConnections H _
  | closeSources => exact .closeSources H _

/-! ## Steps of the revocation -/

theorem Inv.setPhase (H : Inv userId phase s) : Inv userId phase { s with phase } :=
  ⟨H.connect, H.owners, H.rows, H.sessions, H.connections, H.sources⟩

/-- The revocation goes on to `phase'`, and leaves to it what it has not done. -/
theorem Inv.to (H : Inv userId phase s) {phase' : Phase}
    (hrows : ∀ o ∈ s.rows, phase.LeavesRow o → phase'.LeavesRow o)
    (hsessions : ∀ (i : Nat) (r : Connect.Request) (o : Owner), s.connect.requests[i]? = some r →
      s.owners[i]? = some o → o.userId = userId → r.session = .live → phase.LeavesSession i →
        phase'.LeavesSession i)
    (hconnections : ∀ q ∈ s.quicks, q.owner.userId = userId → q.connection = .stored →
      phase.BeforeConnections → phase'.BeforeConnections)
    (hsources : ∀ m ∈ s.smbs, m.owner.userId = userId → m.source = .stored →
      phase.BeforeSources → phase'.BeforeSources) : Inv userId phase' s where
  connect := H.connect
  owners := H.owners
  rows o ho hu := hrows o ho (H.rows o ho hu)
  sessions i r o hr ho hu hlive hc :=
    hsessions i r o hr ho hu hlive (H.sessions i r o hr ho hu hlive hc)
  connections q hq hu hs := hconnections q hq hu hs (H.connections q hq hu hs)
  sources m hm hu hs := (H.sources m hm hu hs).imp id (hsources m hm hu hs)

/-- The same, where the sessions and sources are as before. -/
theorem Inv.goto (H : Inv userId phase s) {phase' : Phase}
    (hrows : ∀ o ∈ s.rows, phase.LeavesRow o → phase'.LeavesRow o)
    (hsessions : ∀ i, phase.LeavesSession i → phase'.LeavesSession i)
    (hconnections : phase.BeforeConnections → phase'.BeforeConnections)
    (hsources : phase.BeforeSources → phase'.BeforeSources) : Inv userId phase' s :=
  H.to hrows (fun i _ _ _ _ _ _ => hsessions i) (fun _ _ _ _ => hconnections)
    fun _ _ _ _ => hsources

theorem Fades.closeSession (H : Inv userId phase s) (i : Nat) : Fades s (s.closeSession i) := by
  unfold State.closeSession
  split
  · exact .refl H
  · rename_i r' hsome
    obtain ⟨r, hr, htake⟩ := Option.bind_eq_some_iff.mp hsome
    obtain ⟨hlive, rfl⟩ := Connect.Request.take_eq_some htake
    obtain ⟨replies, hconnect⟩ := H.connect
    have hinv := (hconnect.requests i r hr).takenAway hlive
    have hgoes := hconnect.setRequest hr hinv ⟨rfl, id, id, .inl⟩ id
    exact {
      connect := ⟨_, (hconnect.goes hgoes (by nofun : ∀ i, Connect.Reply.none = _ → _) (by nofun)).2⟩
      owners := rfl
      requests := ⟨.disconnect "", .set hr (by nofun) rfl, fun _ ⟨_, h, _⟩ => nomatch h⟩
      rows := fun _ h => h
      quicks := fun q hq => ⟨q, hq, rfl, id⟩
      smbs := fun m hm => ⟨m, hm, rfl, rfl, id⟩ }

theorem closeSession_not_live {i : Nat} {r : Connect.Request}
    (hr : (s.closeSession i).connect.requests[i]? = some r) : r.session ≠ .live := by
  unfold State.closeSession at hr
  split at hr
  · rename_i hnone
    intro hlive
    rw [hr, Option.bind_some, Connect.Request.take, if_pos hlive] at hnone
    cases hnone
  · rename_i r' hsome
    obtain ⟨r₀, hr₀, htake⟩ := Option.bind_eq_some_iff.mp hsome
    obtain ⟨-, rfl⟩ := Connect.Request.take_eq_some htake
    cases (Connect.State.setRequest_self hr₀).symm.trans hr
    nofun

theorem Inv.closeSession {i : Nat} {todo : List Nat} (H : Inv userId (.sessions (i :: todo)) s) :
    Inv userId (.sessions todo) (s.closeSession i) := by
  refine (H.fades (.closeSession H i)).to (fun _ _ => id) (fun j r o hr _ _ hlive hj => ?_)
    (fun _ _ _ _ => id) fun _ _ _ _ => id
  rcases List.mem_cons.mp hj with rfl | hj
  · exact absurd hlive (closeSession_not_live hr)
  · exact hj

theorem mem_sessionsOf {i : Nat} {r : Connect.Request} {o : Owner}
    (hr : s.connect.requests[i]? = some r) (ho : s.owners[i]? = some o) (hu : o.userId = userId)
    (hlive : r.session = .live) : i ∈ s.sessionsOf userId := by
  refine List.mem_filter.mpr ⟨List.mem_range.mpr (List.getElem?_eq_some_iff.mp ho).1, ?_⟩
  simp [hr, ho, hu, hlive]

theorem closeConnections_not_stored {q : Quick} (hq : q ∈ (s.closeConnections userId).quicks)
    (hu : q.owner.userId = userId) : q.connection ≠ .stored := by
  obtain ⟨q₀, -, rfl⟩ := List.mem_map.mp hq
  split
  · exact Entry.close_ne_stored _
  · rename_i hne
    rw [if_neg hne] at hu
    exact absurd hu hne

theorem closeSources_not_stored {m : Smb} (hm : m ∈ (s.closeSources userId).smbs)
    (hu : m.owner.userId = userId) : m.source ≠ .stored := by
  obtain ⟨m₀, -, rfl⟩ := List.mem_map.mp hm
  split
  · exact Entry.close_ne_stored _
  · rename_i hne
    rw [if_neg hne] at hu
    exact absurd hu hne

/-- The revocation after a step of `handle_disconnect`. -/
def Phase.afterDisconnect (owner : Owner) (todo : List Owner) : Option DisconnectPc → Phase
  | none => .sockets todo
  | some pc => .disconnecting owner pc todo

/-- The next step of `handle_disconnect` for the first of the sockets. -/
theorem Inv.disconnecting {pc : DisconnectPc} {todo : List Owner}
    (H : Inv userId (.disconnecting owner pc todo) s) {next : Option DisconnectPc}
    (h : s.disconnectStep owner pc = (t, next)) :
    Inv userId (.afterDisconnect owner todo next) t := by
  have hfades := H.fades (.disconnectStep H owner pc)
  rw [h] at hfades
  have hpast : ¬ (pc = .cancelSsh ∨ pc = .cancelSmb ∨ pc = .deleteRow) →
      Inv userId (.afterDisconnect owner todo next) t := fun hpc => by
    cases next with
    | none =>
      exact hfades.goto (fun o _ ho => ho.resolve_right fun h => hpc h.2) (fun _ => id) id id
    | some pc' =>
      exact hfades.goto (fun o _ ho => .inl (ho.resolve_right fun h => hpc h.2)) (fun _ => id) id id
  cases pc with
  | cancelSsh =>
    cases h
    exact hfades.goto (fun o _ ho => ho.imp id fun h => ⟨h.1, .inr (.inl rfl)⟩) (fun _ => id) id id
  | cancelSmb =>
    cases h
    exact hfades.goto (fun o _ ho => ho.imp id fun h => ⟨h.1, .inr (.inr rfl)⟩) (fun _ => id) id id
  | deleteRow =>
    cases h
    refine hfades.goto (fun o hrow ho => .inl (ho.resolve_right fun h => ?_)) (fun _ => id) id id
    have hne := (List.mem_filter.mp hrow).2
    rw [h.1] at hne
    exact absurd rfl (of_decide_eq_true hne)
  | count | closeConnections | closeSources => exact hpast (by nofun)

theorem Inv.revoke (H : Inv userId s.phase s) (h : s.revoke userId = some t) :
    Inv userId t.phase t := by
  unfold State.revoke at h
  split at h <;> rename_i hphase <;> rw [hphase] at H
  case h_1 =>
    cases h
    refine Inv.setPhase ⟨H.connect, H.owners, fun o ho hu => ?_, fun _ _ _ _ _ _ _ _ => trivial,
      fun _ _ _ _ => trivial, fun _ _ _ _ => .inr trivial⟩
    exact List.mem_filter.mpr ⟨ho, decide_eq_true hu⟩
  case h_2 =>
    cases h
    refine Inv.setPhase ?_
    exact H.goto (fun o _ ho => absurd ho List.not_mem_nil) (fun _ => id) id id
  case h_3 =>
    cases h
    refine Inv.setPhase (H.goto (fun o _ ho => ?_) (fun _ => id) id id)
    exact (List.mem_cons.mp ho).symm.imp id fun h => ⟨h, .inl rfl⟩
  case h_4 =>
    split at h <;> cases h
    · have hnext := H.disconnecting ‹_›
      exact hnext.setPhase
    · have hnext := H.disconnecting ‹_›
      exact hnext.setPhase
  case h_5 =>
    cases h
    refine Inv.setPhase ?_
    exact H.to (fun _ _ h => h.elim) (fun i r o hr ho hu hlive _ => mem_sessionsOf hr ho hu hlive)
      (fun _ _ _ _ => id) fun _ _ _ _ => id
  case h_6 =>
    cases h
    refine Inv.setPhase ?_
    exact H.goto (fun _ _ => id) (fun _ h => absurd h List.not_mem_nil) id id
  case h_7 =>
    cases h
    exact Inv.setPhase H.closeSession
  case h_8 =>
    cases h
    refine Inv.setPhase ?_
    exact (H.fades (.closeConnections H userId)).to (fun _ _ => id) (fun _ _ _ _ _ _ _ => id)
      (fun q hq hu hs => absurd hs (closeConnections_not_stored hq hu)) fun _ _ _ _ => id
  case h_9 =>
    cases h
    refine Inv.setPhase ?_
    exact (H.fades (.closeSources H userId)).to (fun _ _ => id) (fun _ _ _ _ _ _ _ => id)
      (fun _ _ _ _ => id) fun m hm hu hs => absurd hs (closeSources_not_stored hm hu)
  case h_10 =>
    cases h
    have hrows : Inv userId .returned { s with rows := s.rows.filter (·.userId ≠ userId) } :=
      (H.fades (.filterRows H _)).goto (fun _ _ => id) (fun _ => id) id id
    exact hrows.setPhase
  case h_11 => cases h

/-! ## Steps of the requests -/

/-- While a row of the user is left, every scan is still to come. -/
theorem Phase.LeavesRow.early {o : Owner} (h : phase.LeavesRow o) :
    (∀ i, phase.LeavesSession i) ∧ phase.BeforeConnections ∧ phase.BeforeSources := by
  cases phase <;> first
    | exact ⟨fun _ => trivial, trivial, trivial⟩
    | exact h.elim

theorem Inv.live (H : Inv userId phase s) (hlive : s.socketIsLive owner = true)
    (hu : owner.userId = userId) : phase.LeavesRow owner :=
  H.rows owner (List.contains_iff_mem.mp hlive) hu

theorem Inv.setQuick (H : Inv userId phase s) {i : Nat} {q : Quick}
    (h : q.owner.userId = userId → q.connection = .stored → phase.BeforeConnections) :
    Inv userId phase (s.setQuick i q) where
  connect := H.connect
  owners := H.owners
  rows := H.rows
  sessions := H.sessions
  connections q' hq' := by
    rcases List.mem_or_eq_of_mem_set hq' with hq' | rfl
    · exact H.connections q' hq'
    · exact h
  sources := H.sources

theorem Inv.setSmb (H : Inv userId phase s) {i : Nat} {m : Smb}
    (h : m.owner.userId = userId → m.source = .stored → m.Unchecked ∨ phase.BeforeSources) :
    Inv userId phase (s.setSmb i m) where
  connect := H.connect
  owners := H.owners
  rows := H.rows
  sessions := H.sessions
  connections := H.connections
  sources m' hm' := by
    rcases List.mem_or_eq_of_mem_set hm' with hm' | rfl
    · exact H.sources m' hm'
    · exact h

/-- A connection is stored only by the step of its own. -/
theorem Quick.step_stored {q q' : Quick} {fails : Bool} (h : q.step fails = some q') :
    q'.owner = q.owner ∧ (q'.connection = .stored →
      q.connection = .stored ∨ q.pc = .store ∧ fails = false) := by
  unfold Quick.step at h
  split at h <;> cases h
  · exact ⟨rfl, .inl⟩
  · split <;> rename_i hfails
    · exact ⟨rfl, .inl⟩
    · exact ⟨rfl, fun _ => .inr ⟨‹_›, (Bool.not_eq_true _).mp hfails⟩⟩
  · exact ⟨rfl, .inl⟩

theorem Smb.step_owner {m m' : Smb} {live fails : Bool} (h : m.step live fails = some m') :
    m'.owner = m.owner := by
  unfold Smb.step at h
  split at h <;> cases h <;> first
    | rfl
    | (split <;> rfl)

/-- A worker that does not find the row goes on to close what it has stored. -/
theorem Smb.step_unchecked {m m' : Smb} {fails : Bool} (h : m.step false fails = some m')
    (hold : m.source = .stored → m.Unchecked) (hs : m'.source = .stored) : m'.Unchecked := by
  unfold Smb.step at h
  cases hpc : m.pc with
  | submit =>
    simp only [hpc] at h
    cases h
    have hstored : m.source = .stored := by split at hs <;> exact hs
    rcases hold hstored with h | h | h <;> cases hpc.symm.trans h
  | create | emit | finish =>
    simp only [hpc] at h
    cases h
    rcases hold hs with h | h | h <;> cases hpc.symm.trans h
  | store =>
    simp only [hpc] at h
    cases h
    split at hs
    · rcases hold hs with h | h | h <;> cases hpc.symm.trans h
    · rw [if_neg ‹_›]
      exact .inl rfl
  | query =>
    simp only [hpc] at h
    cases h
    exact .inr (.inl rfl)
  | check live =>
    simp only [hpc] at h
    cases h
    rcases hold hs with h | h | h <;> cases hpc.symm.trans h
    exact .inr (.inr (by simp))
  | requestClose =>
    simp only [hpc] at h
    cases h
    exact absurd hs (Entry.close_ne_stored _)
  | ended => simp only [hpc] at h; cases h

theorem Inv.smb (H : Inv userId phase s) {i : Nat} {m m' : Smb} {fails : Bool}
    (hi : s.smbs[i]? = some m) (h : m.step (s.socketIsLive m.owner) fails = some m') :
    Inv userId phase (s.setSmb i m') := by
  refine H.setSmb fun hu hs => ?_
  rw [Smb.step_owner h] at hu
  cases hlive : s.socketIsLive m.owner with
  | true => exact .inr (H.live hlive hu).early.2.2
  | false =>
    rw [hlive] at h
    by_cases hbefore : phase.BeforeSources
    · exact .inr hbefore
    · refine .inl (Smb.step_unchecked h (fun hstored => ?_) hs)
      exact (H.sources m (List.mem_of_getElem? hi) hu hstored).resolve_right hbefore

theorem Inv.ssh (H : Inv userId phase s) {a : Connect.Action} {reply : Connect.Reply}
    {connect : Connect.State} (hanswered : Answered s a)
    (h : Connect.step s.connect a = some (reply, connect)) :
    Inv userId phase { s with connect } := by
  obtain ⟨replies, hconnect⟩ := H.connect
  have hne : ∀ config, a ≠ .connect config := fun config ha => by
    subst ha
    exact hanswered
  obtain ⟨hlength, hkeeps⟩ := Connect.step_keeps hconnect h hne
  refine ⟨⟨_, Connect.step_inv hconnect h⟩, H.owners.trans hlength.symm, H.rows, ?_,
    H.connections, H.sources⟩
  intro i r' o hr' ho hu hlive hchecked
  obtain ⟨r, hr, hl, hc⟩ := hkeeps i r' hr' hlive hchecked
  rcases hc with hc | ⟨input, rfl, hok, r₁, hr₁, hpc⟩
  · exact H.sessions i r o hr ho hu hl hc
  · obtain ⟨herror, hrow⟩ := hanswered r₁ hr₁ hpc
    rcases hok with hraises | hok
    · rw [herror] at hraises
      cases hraises
    · exact (H.live ((hrow o ho).symm.trans hok) hu).early.1 i

theorem Inv.sshConnect (H : Inv userId phase s) {config : Connect.Config}
    {connect : Connect.State}
    (h : Connect.step s.connect (.connect config) = some (.none, connect)) :
    Inv userId phase { s with connect, owners := s.owners ++ [owner] } := by
  obtain ⟨replies, hconnect⟩ := H.connect
  have hinv := Connect.step_inv hconnect h
  have hrequests : connect.requests = s.connect.requests ++ [Connect.Request.new config] := by
    simp only [Connect.step] at h
    split at h <;> cases h
    rfl
  refine ⟨⟨_, hinv⟩, by simp [hrequests, H.owners], H.rows, ?_, H.connections, H.sources⟩
  intro i r o hr ho hu hlive hchecked
  dsimp only at hr ho
  rw [hrequests] at hr
  rcases Nat.lt_or_ge i s.connect.requests.length with hlt | hge
  · rw [List.getElem?_append_left hlt] at hr
    rw [List.getElem?_append_left (H.owners.symm ▸ hlt)] at ho
    exact H.sessions i r o hr ho hu hlive hchecked
  · rw [List.getElem?_append_right hge] at hr
    rw [List.mem_singleton.mp (List.mem_of_getElem? hr)] at hlive
    cases hlive

/-! ## Every step -/

/-- A quick connect of the user stores its connection before the scan of the revocation. -/
def Clear (userId : String) (s : State) : Action → Prop
  | .quick i fails => ∀ q ∈ s.quicks[i]?, q.owner.userId = userId → q.pc = .store → fails = false →
    s.phase.BeforeConnections
  | _ => True

instance (userId : String) (s : State) : ∀ a, Decidable (Clear userId s a)
  | .quick _ _ => inferInstanceAs (Decidable (∀ _ ∈ _, _ → _ → _ → _))
  | .socketConnect _ | .socketLeave _ | .disconnect _ | .sshConnect _ _ | .ssh _ | .quickConnect _
  | .closeQuick _ | .smbConnect _ | .smb _ _ | .cancelSmb _ | .closeSmb _ | .revoke =>
    inferInstanceAs (Decidable True)

theorem disconnectStep_phase (pc : DisconnectPc) :
    (s.disconnectStep owner pc).1.phase = s.phase := by
  cases pc <;> rfl

theorem step_inv {a : Action} (H : Inv userId s.phase s) (hclear : Clear userId s a)
    (h : step userId s a = some t) : Inv userId t.phase t := by
  cases a with
  | socketConnect owner =>
    simp only [step] at h
    split at h <;> cases h
    rename_i hidle
    refine ⟨H.connect, H.owners, fun o ho hu => ?_, H.sessions, H.connections, H.sources⟩
    rcases List.mem_cons.mp ho with rfl | ho
    · have hphase : s.phase = .idle := by
        by_contra hne
        exact hidle ⟨hu, hne⟩
      change s.phase.LeavesRow _
      rw [hphase]
      trivial
    · exact H.rows o ho hu
  | socketLeave owner =>
    cases h
    exact ⟨H.connect, H.owners, H.rows, H.sessions, H.connections, H.sources⟩
  | disconnect k =>
    obtain ⟨⟨owner, pc⟩, -, h⟩ := Option.bind_eq_some_iff.mp h
    cases h
    have hfades := H.fades (.disconnectStep H owner pc)
    rw [← disconnectStep_phase pc] at hfades
    exact ⟨hfades.connect, hfades.owners, hfades.rows, hfades.sessions, hfades.connections,
      hfades.sources⟩
  | sshConnect owner config =>
    simp only [step] at h
    split at h
    · split at h <;> cases h
      exact H.sshConnect ‹_›
    · cases h
  | ssh a =>
    simp only [step] at h
    split at h
    · obtain ⟨⟨reply, connect⟩, hstep, h⟩ := Option.bind_eq_some_iff.mp h
      cases h
      exact H.ssh ‹_› hstep
    · cases h
  | quickConnect owner =>
    cases h
    refine ⟨H.connect, H.owners, H.rows, H.sessions, fun q hq hu hs => ?_, H.sources⟩
    rcases List.mem_append.mp hq with hq | hq
    · exact H.connections q hq hu hs
    · rw [List.mem_singleton.mp hq] at hs
      cases hs
  | quick i fails =>
    simp only [step] at h
    obtain ⟨q, hi, h⟩ := Option.bind_eq_some_iff.mp h
    obtain ⟨q', hq, h⟩ := Option.bind_eq_some_iff.mp h
    cases h
    obtain ⟨howner, hstored⟩ := Quick.step_stored hq
    refine H.setQuick fun hu hs => ?_
    rw [howner] at hu
    rcases hstored hs with hs | ⟨hpc, hfails⟩
    · exact H.connections q (List.mem_of_getElem? hi) hu hs
    · exact hclear q hi hu hpc hfails
  | closeQuick i =>
    obtain ⟨q, -, h⟩ := Option.bind_eq_some_iff.mp h
    cases h
    exact H.setQuick fun _ hs => absurd hs (Entry.close_ne_stored _)
  | smbConnect owner =>
    cases h
    refine ⟨H.connect, H.owners, H.rows, H.sessions, H.connections, fun m hm hu hs => ?_⟩
    rcases List.mem_append.mp hm with hm | hm
    · exact H.sources m hm hu hs
    · rw [List.mem_singleton.mp hm] at hs
      cases hs
  | smb i fails =>
    simp only [step] at h
    obtain ⟨m, hi, h⟩ := Option.bind_eq_some_iff.mp h
    obtain ⟨m', hm, h⟩ := Option.bind_eq_some_iff.mp h
    cases h
    exact H.smb hi hm
  | cancelSmb i =>
    obtain ⟨m, hi, h⟩ := Option.bind_eq_some_iff.mp h
    cases h
    exact H.setSmb (H.sources m (List.mem_of_getElem? hi))
  | closeSmb i =>
    obtain ⟨m, -, h⟩ := Option.bind_eq_some_iff.mp h
    cases h
    exact H.setSmb fun _ hs => absurd hs (Entry.close_ne_stored _)
  | revoke => exact H.revoke h

/-! ## No access is left -/

/-- The requests and workers of the user have ended. -/
def Ended (userId : String) (s : State) : Prop :=
  (∀ p ∈ s.connect.requests.zip s.owners, p.2.userId = userId → p.1.pc = .ended) ∧
    (∀ q ∈ s.quicks, q.owner.userId = userId → q.pc = .ended) ∧
    ∀ m ∈ s.smbs, m.owner.userId = userId → m.pc = .ended

/-- No connection of the user is left in one of the three registries. -/
def NoAccess (userId : String) (s : State) : Prop :=
  (∀ p ∈ s.connect.requests.zip s.owners, p.2.userId = userId → p.1.session ≠ .live) ∧
    (∀ q ∈ s.quicks, q.owner.userId = userId → q.connection ≠ .stored) ∧
    ∀ m ∈ s.smbs, m.owner.userId = userId → m.source ≠ .stored

instance : Decidable (Ended userId s) := inferInstanceAs (Decidable (_ ∧ _ ∧ _))

instance : Decidable (NoAccess userId s) := inferInstanceAs (Decidable (_ ∧ _ ∧ _))

theorem Inv.noAccess (H : Inv userId .returned s) (hended : Ended userId s) :
    NoAccess userId s := by
  obtain ⟨hssh, -, hsmb⟩ := hended
  refine ⟨fun p hp hu hlive => ?_, fun q hq hu hs => H.connections q hq hu hs,
    fun m hm hu hs => ?_⟩
  · obtain ⟨i, hi⟩ := List.mem_iff_getElem?.mp hp
    obtain ⟨hr, ho⟩ := List.getElem?_zip_eq_some.mp hi
    have hchecked : p.1.Checked := by
      unfold Connect.Request.Checked
      rw [hssh p hp hu]
      trivial
    exact H.sessions i p.1 p.2 hr ho hu hlive hchecked
  · have hpc := hsmb m hm hu
    rcases H.sources m hm hu hs with (h | h | h) | h
    · cases hpc.symm.trans h
    · cases hpc.symm.trans h
    · cases hpc.symm.trans h
    · exact h

/-- Where every quick connect of the user stores its connection before the scan, nothing is left
once the revocation has returned and the requests have ended. -/
theorem revocation_leaves_no_access {as : List Action}
    (h : ((system userId).restrict fun s a _ => Clear userId s a).Run .init as s)
    (hreturned : s.phase = .returned) (hended : Ended userId s) : NoAccess userId s := by
  have H : Inv userId s.phase s :=
    h.invariant (P := fun s => Inv userId s.phase s) .init fun _ _ _ hx hs => step_inv hx hs.1 hs.2
  rw [hreturned] at H
  exact H.noAccess hended

def tab : Owner := ⟨"7", "socket"⟩

/-- A quick connect and an SMB connect that is still to publish its source. -/
def requests : List Action :=
  [.socketConnect tab, .quickConnect tab, .smbConnect tab, .quick 0 false, .smb 0 false,
    .smb 0 false]

def revocation : List Action := List.replicate 14 .revoke

/-- The quick connect is done before the revocation; the SMB worker publishes after it. -/
def inTime : List Action :=
  requests ++ List.replicate 2 (Action.quick 0 false) ++ revocation ++ List.replicate 5 (Action.smb 0 false)

theorem revocation_leaves_no_access_smb :
    ∃ s, ((system "7").restrict fun s a _ => Clear "7" s a).Run .init inTime s ∧
      s.phase = .returned ∧ NoAccess "7" s := by
  have hexec : (inTime.foldlM (fun s a => if Clear "7" s a then step "7" s a else none) .init).any
      (fun s => s.phase = .returned ∧ Ended "7" s) = true := by decide
  obtain ⟨s, hrun, hs⟩ := (Option.any_eq_true _ _).mp hexec
  obtain ⟨hreturned, hended⟩ := of_decide_eq_true hs
  have h : ((system "7").restrict fun s a _ => Clear "7" s a).Run .init inTime s := by
    refine Lib.System.run_of_foldlM (fun x a y hstep => ?_) hrun
    split at hstep
    · exact ⟨‹_›, hstep⟩
    · cases hstep
  exact ⟨s, h, hreturned, revocation_leaves_no_access h hreturned hended⟩

/-- The quick connect stores its connection when the revocation has returned. -/
def late : List Action :=
  requests ++ revocation ++ List.replicate 2 (Action.quick 0 false) ++ List.replicate 5 (Action.smb 0 false)

theorem access_left_after_revocation :
    ∃ s, (system "7").Run .init late s ∧ s.phase = .returned ∧ Ended "7" s ∧
      ¬ NoAccess "7" s := by
  have hexec : (late.foldlM (step "7") .init).any
      (fun s => s.phase = .returned ∧ Ended "7" s ∧ ¬ NoAccess "7" s) = true := by decide
  obtain ⟨s, hrun, hs⟩ := (Option.any_eq_true _ _).mp hexec
  exact ⟨s, Lib.System.run_of_foldlM (fun _ _ _ h => h) hrun, of_decide_eq_true hs⟩

end WebSSH.Revocation
