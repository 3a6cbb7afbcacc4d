import WebSSH.Lib.Pending
import WebSSH.Pool.Connections

/-!
# Held connections survive

Each call of a pool is one operation of the registry (`locked_does`), so the facts about the registry
carry over to both pools: what takes a held record out, that a requested close ends the holds, and
that each reservation is released once, by the call that took its record out.
-/

namespace WebSSH.Pool
open Lib Lib.Python HoldRegistry

set_option autoImplicit false
set_option linter.unusedSectionVars false

/-- Revoking the user `userId` closes the connections of `owner`. -/
def Kind.revokes : Kind → Value → String → Prop
  | .temporary, userId, owner => .str owner = userId
  | .smb, userId, owner => Smb.canonicalUserId userId = some owner

section
variable {Time : Type}

/-- What a call of a pool does to its registry. -/
inductive Does (kind : Kind) (r : Registry Time) : Op Time → Locked Time Result → Prop
  | refuse {op result} : (∀ id userId alive, op = .acquireHold id userId alive →
        result = .bool false) →
      (∀ id userId, op = .releaseHold id userId → kind.key id = none ∨ kind.owner userId = none) →
      Does kind r op (r.answer result)
  | store {id userId now} :
      Does kind r (.store id userId now) ((r.insert id ⟨userId, now⟩).answer .none)
  | observe {id userId alive now key ok} : kind.key id = some key →
      Does kind r (.get id userId alive now)
        ((r.observe key ok (alive key) (touch now)).map .bool)
  | hold {id userId alive key ok} : kind.key id = some key →
      Does kind r (.acquireHold id userId alive) ((r.hold key ok).map .bool)
  | unhold {id userId key owner} : kind.key id = some key → kind.owner userId = some owner →
      Does kind r (.releaseHold id userId)
        ((r.unhold key fun e => e.value.userId = owner).map .bool)
  | requestClose {id userId key ok} : kind.key id = some key →
      Does kind r (.requestClose id userId) ((r.requestClose key ok).map .close)
  | sweep {alive now p} : Does kind r (.cleanupExpired alive now) ((r.detach p true).map .count)
  | revoke {userId p} : (∀ k e, p k e = true → kind.revokes userId e.value.userId) →
      Does kind r (.closeAllUser userId) ((r.detach p false).map .count)
  | shutdown {p} : Does kind r .closeAll ((r.detach p false).map .count)

variable [Sub Time] [LT Time] [DecidableLT Time] {cleanupInterval : Time}
variable {kind : Kind} {r : Registry Time} {op : Op Time} {o : Locked Time Result}

theorem locked_does (kind : Kind) (r : Registry Time) (op : Op Time) :
    Does kind r op (kind.locked cleanupInterval r op) := by
  cases op with
  | store id userId now => cases kind <;> exact .store
  | get id userId alive now =>
    cases kind with
    | temporary => exact .observe rfl
    | smb =>
      rw [Kind.locked, Smb.getSource]
      split
      · exact .observe ‹_›
      · exact .refuse nofun nofun
  | acquireHold id userId alive =>
    cases kind with
    | temporary =>
      rw [Kind.locked, Temporary.acquireHold]
      split
      · exact .refuse (fun _ _ _ _ => rfl) nofun
      · exact .hold rfl
    | smb =>
      rw [Kind.locked, Smb.acquireHold]
      split
      · exact .hold ‹_›
      · exact .refuse (fun _ _ _ _ => rfl) nofun
  | releaseHold id userId =>
    cases kind with
    | temporary =>
      rw [Kind.locked, Temporary.releaseHold]
      split
      · rename_i howner
        refine .refuse nofun fun _ _ hop => .inr ?_
        cases hop
        exact howner
      · exact .unhold rfl ‹_›
    | smb =>
      rw [Kind.locked, Smb.releaseHold]
      split
      · exact .unhold ‹_› ‹_›
      · rename_i hnone
        refine .refuse nofun fun _ _ hop => ?_
        cases hop
        cases hkey : Smb.handleId id with
        | none => exact .inl hkey
        | some key =>
          cases howner : Smb.canonicalUserId userId with
          | none => exact .inr howner
          | some owner => exact absurd howner (hnone key owner hkey)
  | requestClose id userId =>
    cases kind with
    | temporary =>
      rw [Kind.locked, Temporary.requestClose.eq_def]
      split
      · exact .requestClose rfl
      · split
        · exact .refuse nofun nofun
        · exact .requestClose rfl
    | smb =>
      rw [Kind.locked, Smb.requestClose.eq_def]
      split
      · split
        · exact .requestClose ‹_›
        · exact .refuse nofun nofun
      · split
        · exact .requestClose ‹_›
        · exact .refuse nofun nofun
  | cleanupExpired alive now => cases kind <;> exact .sweep
  | closeAllUser userId =>
    cases kind with
    | temporary => exact .revoke fun _ e hp => by simpa [Kind.revokes] using hp
    | smb =>
      rw [Kind.locked, Smb.closeAllUserSources]
      split
      · exact .refuse nofun nofun
      · rename_i owner howner
        refine .revoke fun _ e hp => ?_
        obtain rfl : e.value.userId = owner := by simpa using hp
        exact howner
  | closeAll => cases kind <;> exact .shutdown

/-- The ways in which a call may take a held record out of the registry. -/
def Forces (kind : Kind) (key : String) (e : Held (Connection Time)) : Op Time → Prop
  | .closeAllUser userId => kind.revokes userId e.value.userId
  | .closeAll => True
  | .get id _ alive _ => kind.key id = some key ∧ alive key = false
  | _ => False

/-- The call releases the last hold of a record that is to be closed. -/
def LastRelease (kind : Kind) (key : String) (e : Held (Connection Time)) (op : Op Time) : Prop :=
  (∃ id userId, op = .releaseHold id userId ∧ kind.key id = some key) ∧ e.holdCount = 1 ∧
    e.closeRequested = true

/-- The ids drawn for new connections. -/
def storedIds (es : List (Action Time × Answer)) : List String :=
  es.filterMap fun e => match e.1 with
    | .call (.store id _ _) => some id
    | _ => none

variable {key : String} {e : Held (Connection Time)} {es : List (Action Time × Answer)}

theorem Does.exact (h : Does kind r op o) (hop : ∀ id userId now, op ≠ .store id userId now) :
    r.Exact o := by
  cases h with
  | refuse _ _ => exact exact_answer _
  | store => exact absurd rfl (hop _ _ _)
  | observe _ => exact (exact_observe _ _ _ _).map _
  | hold _ => exact (exact_hold _ _).map _
  | unhold _ _ => exact (exact_unhold _ _).map _
  | requestClose _ => exact (exact_requestClose _ _).map _
  | sweep | revoke _ | shutdown => exact (exact_detach _ _).map _

theorem Does.follows (h : Does kind r op o) (hop : ∀ id userId now, op ≠ .store id userId now) :
    r.Follows o.after := by
  cases h with
  | refuse _ _ => exact .refl r
  | store => exact absurd rfl (hop _ _ _)
  | observe _ => exact follows_observe _ _ _ _
  | hold _ => exact follows_hold _ _
  | unhold _ _ => exact follows_unhold _ _
  | requestClose _ => exact follows_requestClose _ _
  | sweep | revoke _ | shutdown => exact follows_detach _ _

theorem Does.leaves (h : Does kind r op o) (hk : r.records.get? key = some e)
    (hpos : 0 < e.holdCount) : (o.after.records.get? key).isSome ∨ Forces kind key e op ∨
      LastRelease kind key e op := by
  have hk' := Option.isSome_of_eq_some hk
  cases h with
  | refuse _ _ => exact .inl hk'
  | store => exact .inl (mem_replace () hk' _ _)
  | @observe id userId alive now key' ok hid =>
    by_cases hdead : key = key' ∧ alive key' = false
    · obtain ⟨rfl, hdead⟩ := hdead
      exact .inr (.inl ⟨hid, hdead⟩)
    · refine .inl (mem_observe hk' (fun hkey => ?_) _ _)
      by_contra halive
      exact hdead ⟨hkey, by simpa using halive⟩
  | hold _ => exact .inl (mem_hold hk' _ _)
  | @unhold id userId key' owner hid howner =>
    rcases mem_unhold hk key' _ with h | ⟨rfl, h⟩
    · exact .inl h
    · exact .inr (.inr ⟨⟨id, userId, rfl, hid⟩, h⟩)
  | requestClose _ => exact .inl (mem_requestClose hk hpos _ _)
  | sweep => exact .inl (mem_detach_held hk hpos _)
  | @revoke userId p hp =>
    cases hpe : p key e with
    | false => exact .inl (mem_detach hk p (by simp [takes, hpe]))
    | true => exact .inr (.inl (hp key e hpe))
  | shutdown => exact .inr (.inl trivial)

/-- No hold is granted on a record that is to be closed. -/
theorem Does.refuses (h : Does kind r op o) (hk : r.records.get? key = some e)
    (hc : e.closeRequested = true) {id : String} {userId : Value} {alive : String → Bool}
    (hop : op = .acquireHold id userId alive) (hid : kind.key id = some key) :
    o = r.answer (.bool false) := by
  cases h with
  | refuse hanswer _ => rw [hanswer _ _ _ hop]
  | hold hkey =>
    cases hop
    obtain rfl := Option.some.inj (hid.symm.trans hkey)
    rw [hold_closing hk hc]
    rfl
  | store | observe _ | unhold _ _ | requestClose _ | sweep | revoke _ | shutdown => cases hop

/-- The owner releases a hold. -/
theorem Does.releases (h : Does kind r op o) (hk : r.records.get? key = some e)
    (hpos : 0 < e.holdCount) {id : String} {userId : Value} (hop : op = .releaseHold id userId)
    (hid : kind.key id = some key) (howner : kind.owner userId = some e.value.userId) :
    o = if e.holdCount = 1 ∧ e.closeRequested = true then
        r.drop (.bool true) key { e with holdCount := 0 }
      else r.replace (.bool true) key { e with holdCount := e.holdCount - 1 } := by
  cases h with
  | refuse _ hnone =>
    rcases hnone _ _ hop with h | h
    · rw [hid] at h
      cases h
    · rw [howner] at h
      cases h
  | unhold hkey howner' =>
    cases hop
    obtain rfl := Option.some.inj (hid.symm.trans hkey)
    obtain rfl := Option.some.inj (howner.symm.trans howner')
    rw [unhold_held hk hpos (decide_eq_true rfl)]
    split <;> rfl
  | store | observe _ | hold _ | requestClose _ | sweep | revoke _ | shutdown => cases hop

/-! ## Where the reservations are -/

variable {s s' : State Time} {action : Action Time} {answer : Answer}

/-- The records that calls have still to close. -/
def State.detached (s : State Time) : List (Held (Connection Time)) := s.closing.flatMap (·.records)

/-- A reservation is with a record in the registry, with one to be closed, or released. -/
def State.Balanced (s : State Time) : Prop :=
  ∀ n, carrying n s.registry.records.values + carrying n s.detached + s.released.count n =
    if n < s.registry.tickets then 1 else 0

theorem State.detached_leave (s : State Time) (o : Locked Time Result) :
    (s.leave o).2.detached = s.detached ++ o.gone := by
  rw [State.leave]
  split
  · rename_i hgone
    rw [hgone, List.append_nil]
    rfl
  · rename_i e es hgone
    simp [State.detached, hgone]

theorem State.leave_registry (s : State Time) (o : Locked Time Result) :
    (s.leave o).2.registry = o.after ∧ (s.leave o).2.released = s.released := by
  rw [State.leave]
  split <;> exact ⟨rfl, rfl⟩

theorem call_eq (h : step cleanupInterval kind s (.call op) = some (answer, s')) :
    answer = (s.leave (kind.locked cleanupInterval s.registry op)).1 ∧
      s' = (s.leave (kind.locked cleanupInterval s.registry op)).2 := by
  have h : s.leave (kind.locked cleanupInterval s.registry op) = (answer, s') := Option.some.inj h
  rw [h]
  exact ⟨rfl, rfl⟩

theorem State.Balanced.leave (H : s.Balanced) {o : Locked Time Result}
    (h : s.registry.Exact o) : (s.leave o).2.Balanced := by
  intro n
  have hn := H n
  have ho := h.carries n
  rw [State.detached_leave, carrying_append, (s.leave_registry o).1, (s.leave_registry o).2,
    h.tickets]
  omega

theorem State.Balanced.store (H : s.Balanced) {id userId : String} {now : Time}
    (hid : s.registry.records.get? id = none) :
    (s.leave ((store s.registry id userId now).answer .none)).2.Balanced := by
  intro n
  have hn := H n
  have hinsert := carrying_insert hid ⟨userId, now⟩ n
  change carrying n (s.registry.insert id ⟨userId, now⟩).records.values + carrying n s.detached +
    s.released.count n = if n < s.registry.tickets + 1 then 1 else 0
  rw [hinsert]
  split at hn <;> split <;> split <;> omega

/-- A call that closes records has one to close. -/
def State.Busy (s : State Time) : Prop := ∀ c ∈ s.closing, c.records ≠ []

theorem State.Busy.leave (H : s.Busy) (o : Locked Time Result) : (s.leave o).2.Busy := by
  rw [State.leave]
  split
  · exact H
  · intro c hc
    rcases List.mem_append.mp hc with hc | hc
    · exact H c hc
    · rw [List.mem_singleton.mp hc]
      exact List.cons_ne_nil _ _

/-- The next record of a call is closed, and the call returns with the last one. -/
structure Closes (s : State Time) (i : Nat) (answer : Answer) (s' : State Time) : Prop where
  registry : s'.registry = s.registry
  call : ∃ result e es, s.closing[i]? = some ⟨result, e :: es⟩ ∧
    s'.released = s.released ++ [e.ticket] ∧
    if es = [] then answer = .returns result ∧ s'.closing = s.closing.eraseIdx i
    else answer = .closes ∧ s'.closing = s.closing.set i ⟨result, es⟩

theorem closes_of_close {i : Nat} (h : s.close i = some (answer, s')) : Closes s i answer s' := by
  rw [State.close.eq_def] at h
  split at h
  · cases h
  · cases h
  · rename_i result e hi
    cases h
    exact ⟨rfl, result, e, [], hi, rfl, rfl, rfl⟩
  · rename_i result e es hne hi
    cases h
    have hes : es ≠ [] := fun hnil => hne (by rw [hnil])
    exact ⟨rfl, result, e, es, hi, rfl, by rw [if_neg hes]; exact ⟨rfl, rfl⟩⟩

theorem carrying_detached (s : State Time) (n : Nat) : carrying n s.detached =
    (s.closing.flatMap fun c => c.records.map (·.ticket)).count n := by
  rw [State.detached, carrying, ← List.map_flatMap, List.count, List.countP_map]
  exact List.countP_congr fun e _ => by simp

theorem State.Balanced.close (H : s.Balanced) {i : Nat} (h : Closes s i answer s') :
    s'.Balanced := by
  obtain ⟨hregistry, result, e, es, hi, hreleased, hcase⟩ := h
  intro n
  have hn := H n
  rw [hregistry, hreleased, List.count_append, List.count_singleton]
  rw [carrying_detached] at hn ⊢
  split at hcase
  · rename_i hnil
    have hcount := Pending.count_advance [] (fun c : Closing Time => c.records.map (·.ticket)) n hi
    simp only [hcase.2, hnil, List.append_nil, List.flatMap_nil, List.count_nil, List.map_cons,
      List.map_nil, List.count_singleton] at hcount ⊢
    omega
  · have hcount := Pending.count_set ⟨result, es⟩ (fun c : Closing Time => c.records.map (·.ticket))
      n hi
    simp only [hcase.2, List.map_cons, List.count_cons] at hcount ⊢
    omega

theorem State.Busy.close (H : s.Busy) {i : Nat} (h : Closes s i answer s') : s'.Busy := by
  obtain ⟨-, result, e, es, hi, -, hcase⟩ := h
  intro c hc
  split at hcase
  · rw [hcase.2] at hc
    exact H c (List.mem_of_mem_eraseIdx hc)
  · rw [hcase.2] at hc
    rcases List.mem_or_eq_of_mem_set hc with hc | rfl
    · exact H c hc
    · assumption

/-- A ticket that was issued has been returned once, unless its record is in the registry or still
to be closed. -/
theorem State.Balanced.count_released (H : s.Balanced) {n : Nat} (hn : n < s.registry.tickets) :
    s.released.count n =
      if ∃ e ∈ s.registry.records.values ++ s.detached, e.ticket = n then 0 else 1 := by
  have hb := H n
  rw [if_pos hn, ← carrying_append] at hb
  split
  · rename_i hex
    obtain ⟨e, he, het⟩ := hex
    have : 0 < carrying n (s.registry.records.values ++ s.detached) :=
      List.countP_pos_iff.mpr ⟨e, he, decide_eq_true het⟩
    omega
  · rename_i hex
    have : carrying n (s.registry.records.values ++ s.detached) = 0 :=
      List.countP_eq_zero.mpr fun e he => by simpa using fun het => hex ⟨e, he, het⟩
    omega

/-! ## Runs -/

theorem storedIds_append (es' : List (Action Time × Answer)) :
    storedIds (es ++ es') = storedIds es ++ storedIds es' := List.filterMap_append

/-- The reservations are where they belong, and every key in use was drawn. -/
structure Tracked (es : List (Action Time × Answer)) (s : State Time) : Prop where
  balanced : s.Balanced
  busy : s.Busy
  stored : ∀ key e, s.registry.records.get? key = some e → key ∈ storedIds es

theorem Tracked.init : Tracked [] (State.init : State Time) where
  balanced _ := rfl
  busy := nofun
  stored _ _ h := by cases h

/-- A freshly drawn id is not in use. -/
theorem Tracked.fresh (H : Tracked es s) {id userId : String} {now : Time}
    (hfresh : (storedIds (es ++ [(.call (.store id userId now), answer)])).Nodup) :
    s.registry.records.get? id = none := by
  rw [storedIds_append] at hfresh
  refine Option.eq_none_iff_forall_ne_some.mpr fun e he => ?_
  exact (List.nodup_append.mp hfresh).2.2 id (H.stored id e he) id List.mem_cons_self rfl

theorem Tracked.step (H : Tracked es s) (h : step cleanupInterval kind s action = some (answer, s'))
    (hfresh : (storedIds (es ++ [(action, answer)])).Nodup) :
    Tracked (es ++ [(action, answer)]) s' := by
  have hold : ∀ {r : Registry Time}, s.registry.Follows r →
      ∀ key e, r.records.get? key = some e → key ∈ storedIds (es ++ [(action, answer)]) := by
    intro r hf key e' he'
    obtain ⟨e, he, -⟩ := hf key e' he'
    rw [storedIds_append]
    exact List.mem_append_left _ (H.stored key e he)
  cases action with
  | close i =>
    have hcloses := closes_of_close h
    refine ⟨H.balanced.close hcloses, H.busy.close hcloses, fun key e he => ?_⟩
    rw [hcloses.registry] at he
    exact hold (.refl _) key e he
  | call op =>
    obtain ⟨rfl, rfl⟩ := call_eq h
    have hdoes : Does kind s.registry op (kind.locked cleanupInterval s.registry op) :=
      locked_does kind s.registry op
    refine ⟨?_, H.busy.leave _, fun key e he => ?_⟩
    · cases op with
      | store id userId now => cases kind <;> exact H.balanced.store (H.fresh hfresh)
      | _ => exact H.balanced.leave (hdoes.exact nofun)
    · rw [(s.leave_registry _).1] at he
      cases op with
      | store id userId now =>
        rw [storedIds_append]
        have he : (s.registry.insert id ⟨userId, now⟩).records.get? key = some e := by
          cases kind <;> exact he
        rw [HoldRegistry.insert, Dict.get?_set] at he
        split at he
        · subst key
          exact List.mem_append_right _ List.mem_cons_self
        · exact List.mem_append_left _ (H.stored key e he)
      | _ => exact hold (hdoes.follows nofun) key e he

theorem run_tracked (h : (system cleanupInterval kind).Run .init es s)
    (hfresh : (storedIds es).Nodup) : Tracked es s := by
  have hstep := h.history (P := fun es s => (storedIds es).Nodup → Tracked es s)
    (fun _ => .init)
    (fun es s e s' ih hs hfresh => by
      refine (ih ?_).step hs hfresh
      rw [storedIds_append] at hfresh
      exact (List.nodup_append.mp hfresh).1)
  exact hstep hfresh

/-! ## What a step does to a record -/

/-- What a call does right about the record `e` it finds under `key`. -/
structure Respects (kind : Kind) (s : State Time) (op : Op Time) (answer : Answer)
    (s' : State Time) (key : String) (e : Held (Connection Time)) : Prop where
  /-- A held record leaves only by force, or with its last hold. -/
  leaves : 0 < e.holdCount →
    (∀ e', s'.registry.records.get? key = some e' → e'.ticket ≠ e.ticket) →
    Forces kind key e op ∨ LastRelease kind key e op
  /-- A record that leaves is closed by this call. -/
  detaches : (∀ e', s'.registry.records.get? key = some e' → e'.ticket ≠ e.ticket) →
    ∃ c, answer = .closes ∧ s'.closing = s.closing ++ [c] ∧ ∃ e' ∈ c.records, e'.ticket = e.ticket
  /-- No hold is granted on a record that is to be closed. -/
  refuses : e.closeRequested = true → ∀ id userId alive, op = .acquireHold id userId alive →
    kind.key id = some key → answer = .returns (.bool false) ∧ s' = s
  /-- The owner releases a hold, and with the last one the call removes a record that is to be closed
  and returns `True` when it has closed it. -/
  releases : 0 < e.holdCount → ∀ id userId, op = .releaseHold id userId → kind.key id = some key →
    kind.owner userId = some e.value.userId →
    if e.holdCount = 1 ∧ e.closeRequested = true then
      answer = .closes ∧ s'.registry.records.get? key = none ∧
        s'.closing = s.closing ++ [⟨.bool true, [{ e with holdCount := 0 }]⟩]
    else
      answer = .returns (.bool true) ∧
        s'.registry.records.get? key = some { e with holdCount := e.holdCount - 1 }

/-- A call other than `store`, or one that stores under another key, leaves what is still under the
key. -/
theorem Does.get?_ticket (h : Does kind r op o) (hk : r.records.get? key = some e)
    (hfresh : ∀ id userId now, op = .store id userId now → r.records.get? id = none)
    {e' : Held (Connection Time)} (hk' : o.after.records.get? key = some e') :
    e'.ticket = e.ticket := by
  by_cases hop : ∃ id userId now, op = .store id userId now
  · obtain ⟨id, userId, now, rfl⟩ := hop
    have hid := hfresh id userId now rfl
    have hne : key ≠ id := by
      rintro rfl
      rw [hid] at hk
      cases hk
    cases h with
    | refuse _ _ =>
      obtain rfl := Option.some.inj (hk.symm.trans hk')
      rfl
    | store =>
      have hk' : (r.insert id ⟨userId, now⟩).records.get? key = some e' := hk'
      rw [HoldRegistry.insert, Dict.get?_set_of_ne hne] at hk'
      obtain rfl := Option.some.inj (hk.symm.trans hk')
      rfl
  · obtain ⟨e₁, he₁, hcont⟩ :=
      h.follows (fun id userId now hs => hop ⟨id, userId, now, hs⟩) key e' hk'
    obtain rfl := Option.some.inj (hk.symm.trans he₁)
    exact hcont.ticket

theorem leave_gone {o : Locked Time Result} (h : o.gone ≠ []) :
    (s.leave o).1 = .closes ∧ (s.leave o).2.closing = s.closing ++ [⟨o.answer, o.gone⟩] := by
  rw [State.leave]
  split
  · exact absurd ‹_› h
  · rename_i e es hgone
    exact ⟨rfl, by rw [hgone]⟩

theorem Does.respects (H : s.Balanced) (h : Does kind s.registry op o)
    (hk : s.registry.records.get? key = some e)
    (hfresh : ∀ id userId now, op = .store id userId now → s.registry.records.get? id = none) :
    Respects kind s op (s.leave o).1 (s.leave o).2 key e where
  leaves hpos hleft := by
    rw [(s.leave_registry o).1] at hleft
    rcases h.leaves hk hpos with hstay | hforce
    · -- what is still under the key is this record
      obtain ⟨e', he'⟩ := Option.isSome_iff_exists.mp hstay
      exact absurd (h.get?_ticket hk hfresh he') (hleft e' he')
    · exact hforce
  detaches hleft := by
    rw [(s.leave_registry o).1] at hleft
    by_cases hop : ∃ id userId now, op = .store id userId now
    · obtain ⟨id, userId, now, rfl⟩ := hop
      cases h with
      | refuse _ _ => exact absurd rfl (hleft e hk)
      | store =>
        have hne : key ≠ id := by
          rintro rfl
          rw [hfresh key userId now rfl] at hk
          cases hk
        refine absurd rfl (hleft e ?_)
        exact (Dict.get?_set_of_ne hne).trans hk
    · have hop' : ∀ id userId now, op ≠ .store id userId now :=
        fun id userId now hs => hop ⟨id, userId, now, hs⟩
      have honce : ∀ n, carrying n s.registry.records.values ≤ 1 := by
        intro n
        have := H n
        split at this <;> omega
      obtain ⟨e', he', ht⟩ := (h.exact hop').mem_gone (h.follows hop') honce hk hleft
      obtain ⟨hanswer, hclosing⟩ := leave_gone (s := s) (List.ne_nil_of_mem he')
      exact ⟨⟨o.answer, o.gone⟩, hanswer, hclosing, e', he', ht⟩
  refuses hc _ _ _ hop hid := by
    rw [h.refuses hk hc hop hid]
    exact ⟨rfl, rfl⟩
  releases hpos _ _ hop hid howner := by
    rw [h.releases hk hpos hop hid howner]
    split
    · exact ⟨rfl, Dict.get?_erase_self, rfl⟩
    · exact ⟨rfl, Dict.get?_set_self⟩

/-- A record whose close was requested is never reopened and gets no more holds. -/
theorem closing_stays {es' : List (Action Time × Answer)}
    (h : (system cleanupInterval kind).Run .init es s)
    (h' : (system cleanupInterval kind).Run s es' s') (hfresh : (storedIds (es ++ es')).Nodup)
    (hk : s.registry.records.get? key = some e) :
    ∀ e', s'.registry.records.get? key = some e' → Continues e e' := by
  have hgen := h'.history (P := fun es' s' => (storedIds (es ++ es')).Nodup →
      ∀ e', s'.registry.records.get? key = some e' → Continues e e')
    (fun _ e' he' => by
      obtain rfl := Option.some.inj (hk.symm.trans he')
      exact .refl e)
    (fun es' s₁ a s₂ ih hs hfresh e₂ he₂ => by
      obtain ⟨action, answer⟩ := a
      have hfresh₁ : (storedIds (es ++ es')).Nodup := by
        rw [← List.append_assoc, storedIds_append] at hfresh
        exact (List.nodup_append.mp hfresh).1
      have hall := ih hfresh₁
      cases action with
      | close i =>
        rw [(closes_of_close hs).registry] at he₂
        exact hall e₂ he₂
      | call op =>
        obtain ⟨rfl, rfl⟩ := call_eq hs
        rw [(s₁.leave_registry _).1] at he₂
        have hdoes : Does kind s₁.registry op (kind.locked cleanupInterval s₁.registry op) :=
          locked_does kind s₁.registry op
        by_cases hop : ∃ id userId now, op = .store id userId now
        · obtain ⟨id, userId, now, rfl⟩ := hop
          have hkey : key ∈ storedIds es :=
            (run_tracked h (by
              rw [storedIds_append] at hfresh₁
              exact (List.nodup_append.mp hfresh₁).1)).stored key e hk
          have hne : key ≠ id := by
            rintro rfl
            rw [storedIds_append] at hfresh
            refine (List.nodup_append.mp hfresh).2.2 key hkey key ?_ rfl
            rw [storedIds_append]
            exact List.mem_append_right _ List.mem_cons_self
          have he₂ : (s₁.registry.insert id ⟨userId, now⟩).records.get? key = some e₂ := by
            cases kind <;> exact he₂
          rw [HoldRegistry.insert, Dict.get?_set_of_ne hne] at he₂
          exact hall e₂ he₂
        · obtain ⟨e₁, he₁, hcont⟩ :=
            hdoes.follows (fun id userId now hs => hop ⟨id, userId, now, hs⟩) key e₂ he₂
          exact (hall e₁ he₁).trans hcont)
  exact hgen hfresh

/-- For both pools and fresh ids: every call respects the records it finds, and releases the
reservations of those it takes out one after another before it returns; a requested close stays
requested and adds no hold; and a reservation is released exactly once, after its record has left
the registry. -/
theorem held_connections_survive (kind : Kind) (cleanupInterval : Time)
    (es : List (Action Time × Answer)) (s : State Time)
    (h : (system cleanupInterval kind).Run .init es s) (hfresh : (storedIds es).Nodup) :
    (∀ op answer s', step cleanupInterval kind s (.call op) = some (answer, s') →
      (storedIds (es ++ [(.call op, answer)])).Nodup →
      ∀ key e, s.registry.records.get? key = some e → Respects kind s op answer s' key e) ∧
    (∀ i < s.closing.length, ∃ answer s',
      step cleanupInterval kind s (.close i) = some (answer, s') ∧ Closes s i answer s') ∧
    (∀ es' s', (system cleanupInterval kind).Run s es' s' → (storedIds (es ++ es')).Nodup →
      ∀ key e, s.registry.records.get? key = some e →
      ∀ e', s'.registry.records.get? key = some e' → Continues e e') ∧
    ∀ n < s.registry.tickets, s.released.count n =
      if ∃ e ∈ s.registry.records.values ++ s.detached, e.ticket = n then 0 else 1 := by
  have H := run_tracked h hfresh
  refine ⟨fun op answer s' hcall hfresh' key e hk => ?_, fun i hi => ?_,
    fun es' s' h' hfresh' key e hk => closing_stays h h' hfresh' hk,
    fun n hn => H.balanced.count_released hn⟩
  · obtain ⟨rfl, rfl⟩ := call_eq hcall
    refine (locked_does kind s.registry op).respects H.balanced hk fun id userId now hop => ?_
    subst hop
    exact H.fresh hfresh'
  · cases hclose : s.close i with
    | some x => exact ⟨x.1, x.2, hclose, closes_of_close hclose⟩
    | none =>
      rw [State.close.eq_def, List.getElem?_eq_getElem hi] at hclose
      have hne := H.busy _ (List.getElem_mem hi)
      split at hclose <;> simp_all

end

/-! ## A deferred close -/

/-- The connection is held, its tab is closed, the transfer ends, and the connection is closed. -/
def deferredClose (id : String) : List (Action Int) :=
  [.call (.store "c" "7" 0), .call (.acquireHold id (.int 7) fun _ => true),
    .call (.requestClose id (.int 7)), .call (.acquireHold id (.int 7) fun _ => true),
    .call (.releaseHold id (.int 7)), .close 0]

def deferredAnswers : List Answer :=
  [.returns .none, .returns (.bool true), .returns (.close .deferred), .returns (.bool false),
    .closes, .returns (.bool true)]

theorem held_connections_survive_deferredClose :
    (∃ es s, (system (300 : Int) .temporary).Run .init es s ∧ es.map Prod.snd = deferredAnswers ∧
      s.registry.records.size = 0 ∧ s.released.count 0 = 1) ∧
    ∃ es s, (system (300 : Int) .smb).Run .init es s ∧ es.map Prod.snd = deferredAnswers ∧
      s.registry.records.size = 0 ∧ s.released.count 0 = 1 := by
  have hexec : ∀ kind ∈ [Kind.temporary, Kind.smb],
      (System.answer (step (300 : Int) kind) .init
        (deferredClose (if kind = .smb then "smb-quick:c" else "c"))).any (fun x =>
        x.1.map Prod.snd = deferredAnswers && storedIds x.1 = ["c"] &&
        x.2.registry.records.entries = [] && x.2.detached = [] &&
        x.2.registry.tickets = 1) = true := by
    decide
  have hrun : ∀ kind ∈ [Kind.temporary, Kind.smb], ∃ es s,
      (system (300 : Int) kind).Run .init es s ∧ es.map Prod.snd = deferredAnswers ∧
      s.registry.records.size = 0 ∧ s.released.count 0 = 1 := by
    intro kind hkind
    obtain ⟨⟨es, s⟩, hx, hp⟩ := (Option.any_eq_true _ _).mp (hexec kind hkind)
    simp only [Bool.and_eq_true, decide_eq_true_eq] at hp
    obtain ⟨⟨⟨⟨hanswers, hids⟩, hrecords⟩, hdetached⟩, htickets⟩ := hp
    have hrun : (system (300 : Int) kind).Run .init es s := System.run_of_answer hx
    obtain ⟨-, -, -, hreleased⟩ := held_connections_survive kind (300 : Int) es s hrun
      (by rw [hids]; exact List.nodup_singleton _)
    refine ⟨es, s, hrun, hanswers, by rw [Dict.size, hrecords]; rfl, ?_⟩
    rw [hreleased 0 (by omega), if_neg]
    simp [Dict.values, hrecords, hdetached]
  exact ⟨hrun .temporary (by decide), hrun .smb (by decide)⟩

end WebSSH.Pool
