import WebSSH.Input.Transport

/-!
# The order of SSH input

What each phase of a call says of the emissions and the answers so far, and how the calls of one
queue wait for each other. A queue that is not in error is in the map or has nothing left to do, so
that whatever is emitted for its session meanwhile goes through it.
-/

namespace WebSSH.SSHInput
open Lib

variable {s s' : State} {k queue : Nat}

namespace State

/-- The server has accepted the chunk of the call at `index`. -/
def Accepted (s : State) (call index : Nat) : Prop :=
  ∃ id e ack, s.emissions[id]? = some e ∧ e.call = call ∧ e.index = index ∧
    (id, ack) ∈ s.answers ∧ ack.success = true

/-- The server has rejected the emission because of backpressure. -/
def Rejected (s : State) (id : Nat) : Prop :=
  ∃ ack, (id, ack) ∈ s.answers ∧ ack.isBackpressure = true

/-- The chunks before `left` are accepted, and none behind the first of `left` was emitted. -/
def Sending (s : State) (call : Nat) (left : List String) : Prop :=
  left.length ≤ (s.calls call).chunks.length ∧
  left = (s.calls call).chunks.drop ((s.calls call).chunks.length - left.length) ∧
  (∀ j < (s.calls call).chunks.length - left.length, s.Accepted call j) ∧
  ∀ e ∈ s.emissions, e.call = call → e.index ≤ (s.calls call).chunks.length - left.length

/-- All emissions of the first chunk of `left` were rejected, but perhaps for `current`. -/
def Retried (s : State) (call : Nat) (left : List String) (current : Option Nat) : Prop :=
  ∀ id e, s.emissions[id]? = some e → e.call = call →
    e.index = (s.calls call).chunks.length - left.length → some id = current ∨ s.Rejected id

/-- The emission that the call waits for. -/
def Current (s : State) (call : Nat) (left : List String) (id : Nat) : Prop :=
  ∃ e, s.emissions[id]? = some e ∧ e.call = call ∧
    e.index = (s.calls call).chunks.length - left.length

def PhaseOk (s : State) (call : Nat) : Phase → Prop
  | .unqueued => (s.calls call).queue = none
  | .waiting => ∀ e ∈ s.emissions, e.call ≠ call
  | .awaiting left _ id =>
    left ≠ [] ∧ s.Sending call left ∧ s.Retried call left (some id) ∧ s.Current call left id
  | .acknowledged left _ id ack =>
    left ≠ [] ∧ s.Sending call left ∧ s.Retried call left (some id) ∧ s.Current call left id ∧
      (id, ack) ∈ s.answers
  | .delaying left _ | .delayed left _ => left ≠ [] ∧ s.Sending call left ∧ s.Retried call left none
  | .rejected | .finished false => True
  | .finished true => ∀ j < (s.calls call).chunks.length, s.Accepted call j

end State

structure Inv (s : State) : Prop where
  unknown : ∀ k, s.callCount ≤ k → s.calls k = ⟨"", none, [], none, .unqueued⟩
  attached : ∀ k, (s.calls k).queue = none → (s.calls k).phase = .unqueued
  emitted : ∀ e ∈ s.emissions, e.call < s.callCount ∧
    (s.calls e.call).sessionId = e.sessionId ∧ (s.calls e.call).chunks[e.index]? = some e.chunk
  ordered : s.emissions.Pairwise fun e e' => e.sessionId = e'.sessionId →
    e.call < e'.call ∨ e.call = e'.call ∧ e.index ≤ e'.index
  queued : ∀ k < s.callCount, ∀ i, (s.calls k).queue = some i → i < s.queueCount ∧
    (s.queues i).sessionId = (s.calls k).sessionId ∧ k ≤ (s.queues i).tail
  tail : ∀ i < s.queueCount, (s.queues i).tail < s.callCount ∧
    (s.calls (s.queues i).tail).queue = some i
  ok : ∀ k < s.callCount, s.PhaseOk k (s.calls k).phase
  order : ∀ l < s.callCount, ∀ k < l, ∀ i, (s.calls k).queue = some i →
    (s.calls l).queue = some i → (s.queues i).error = false →
    (s.calls l).phase = .waiting ∨ (s.calls k).phase = .finished true
  failed : ∀ k < s.callCount, ∀ i, (s.calls k).queue = some i →
    (s.calls k).phase = .finished false → (s.queues i).error = true
  previous : ∀ k < s.callCount, ∀ p, (s.calls k).previous = some p →
    p < k ∧ (s.calls p).queue = (s.calls k).queue ∧
      ∀ l, p < l → l < k → (s.calls l).queue ≠ (s.calls k).queue
  registered : ∀ x i, s.sessionQueues.get? x = some i → i < s.queueCount ∧
    (s.queues i).sessionId = x ∧ (s.queues i).error = false ∧
    ∀ k < s.callCount, (s.calls k).sessionId = x → (s.calls k).queue = some i ∨
      ∀ l < s.callCount, (s.calls l).queue = some i → k < l
  unregistered : ∀ i < s.queueCount, (s.queues i).error = false →
    s.sessionQueues.get? (s.queues i).sessionId = some i ∨
      ∀ k < s.callCount, (s.calls k).queue = some i → (s.calls k).phase = .finished true

theorem Inv.init : Inv .init where
  unknown _ _ := rfl
  attached _ _ := rfl
  emitted := nofun
  ordered := .nil
  queued := nofun
  tail := nofun
  ok := nofun
  order := nofun
  failed := nofun
  previous := nofun
  registered _ _ h := by cases h
  unregistered := nofun

/-! ## What phases depend on -/

/-- More emissions of other calls and more answers. -/
structure State.Grows (s s' : State) (call : Nat) : Prop where
  chunks : (s'.calls call).chunks = (s.calls call).chunks
  queue : (s'.calls call).queue = (s.calls call).queue
  emissions : ∃ more, s'.emissions = s.emissions ++ more ∧ ∀ e ∈ more, e.call ≠ call
  answers : ∀ a ∈ s.answers, a ∈ s'.answers

namespace State.Grows

theorem getElem? (G : s.Grows s' k) {id : Nat} {e : Emission} (h : s.emissions[id]? = some e) :
    s'.emissions[id]? = some e := by
  obtain ⟨more, hmore, -⟩ := G.emissions
  have hlt := (List.getElem?_eq_some_iff.mp h).1
  rw [hmore, List.getElem?_append_left hlt, h]

/-- The emissions of the call are the old ones. -/
theorem of_getElem? (G : s.Grows s' k) {id : Nat} {e : Emission}
    (h : s'.emissions[id]? = some e) (hcall : e.call = k) : s.emissions[id]? = some e := by
  obtain ⟨more, hmore, hother⟩ := G.emissions
  rw [hmore, List.getElem?_append] at h
  split at h
  · exact h
  · exact absurd hcall (hother e (List.mem_of_getElem? h))

theorem accepted (G : s.Grows s' k) {l j : Nat} (h : s.Accepted l j) : s'.Accepted l j := by
  obtain ⟨id, e, ack, he, hcall, hindex, hack, hsuccess⟩ := h
  exact ⟨id, e, ack, G.getElem? he, hcall, hindex, G.answers _ hack, hsuccess⟩

theorem rejected (G : s.Grows s' k) {id : Nat} (h : s.Rejected id) : s'.Rejected id := by
  obtain ⟨ack, hack, hcode⟩ := h
  exact ⟨ack, G.answers _ hack, hcode⟩

theorem sending (G : s.Grows s' k) {left : List String} (h : s.Sending k left) :
    s'.Sending k left := by
  obtain ⟨hlength, hleft, haccepted, hemitted⟩ := h
  rw [State.Sending, G.chunks]
  refine ⟨hlength, hleft, fun j hj => G.accepted (haccepted j hj), fun e he hcall => ?_⟩
  obtain ⟨id, hid⟩ := List.mem_iff_getElem?.mp he
  exact hemitted e (List.mem_of_getElem? (G.of_getElem? hid hcall)) hcall

theorem retried (G : s.Grows s' k) {left : List String} {current : Option Nat}
    (h : s.Retried k left current) : s'.Retried k left current := by
  intro id e he hcall hindex
  rw [G.chunks] at hindex
  exact (h id e (G.of_getElem? he hcall) hcall hindex).imp_right G.rejected

theorem current (G : s.Grows s' k) {left : List String} {id : Nat} (h : s.Current k left id) :
    s'.Current k left id := by
  obtain ⟨e, he, hcall, hindex⟩ := h
  exact ⟨e, G.getElem? he, hcall, by rw [G.chunks]; exact hindex⟩

theorem phaseOk (G : s.Grows s' k) {phase : Phase} (h : s.PhaseOk k phase) :
    s'.PhaseOk k phase := by
  cases phase with
  | unqueued => exact G.queue.trans h
  | waiting =>
    intro e he hcall
    obtain ⟨id, hid⟩ := List.mem_iff_getElem?.mp he
    exact h e (List.mem_of_getElem? (G.of_getElem? hid hcall)) hcall
  | awaiting left retries id =>
    exact ⟨h.1, G.sending h.2.1, G.retried h.2.2.1, G.current h.2.2.2⟩
  | acknowledged left retries id ack =>
    exact ⟨h.1, G.sending h.2.1, G.retried h.2.2.1, G.current h.2.2.2.1, G.answers _ h.2.2.2.2⟩
  | delaying left retries => exact ⟨h.1, G.sending h.2.1, G.retried h.2.2⟩
  | delayed left retries => exact ⟨h.1, G.sending h.2.1, G.retried h.2.2⟩
  | rejected => trivial
  | finished success =>
    cases success with
    | false => trivial
    | true =>
      intro j hj
      rw [G.chunks] at hj
      exact G.accepted (h j hj)

end State.Grows

/-! ## The phase of one call changes -/

namespace State

variable {phase : Phase} (l : Nat)

theorem setPhase_self : ((s.setPhase k phase).calls k).phase = phase := by simp [setPhase]

theorem setPhase_of_ne {l : Nat} (hne : l ≠ k) : (s.setPhase k phase).calls l = s.calls l :=
  Function.update_of_ne hne ..

@[simp] theorem setPhase_chunks : ((s.setPhase k phase).calls l).chunks = (s.calls l).chunks := by
  simp only [setPhase, Function.update_apply]; split <;> simp_all

@[simp] theorem setPhase_queue : ((s.setPhase k phase).calls l).queue = (s.calls l).queue := by
  simp only [setPhase, Function.update_apply]; split <;> simp_all

@[simp] theorem setPhase_sessionId :
    ((s.setPhase k phase).calls l).sessionId = (s.calls l).sessionId := by
  simp only [setPhase, Function.update_apply]; split <;> simp_all

@[simp] theorem setPhase_previous :
    ((s.setPhase k phase).calls l).previous = (s.calls l).previous := by
  simp only [setPhase, Function.update_apply]; split <;> simp_all

/-- A phase is kept or it is the new one of the call. -/
theorem setPhase_phase (s : State) (k : Nat) (phase : Phase) :
    ((s.setPhase k phase).calls l).phase = (s.calls l).phase ∧ l ≠ k ∨
      l = k ∧ ((s.setPhase k phase).calls l).phase = phase := by
  rcases eq_or_ne l k with rfl | hne
  · exact .inr ⟨rfl, setPhase_self⟩
  · exact .inl ⟨by rw [setPhase_of_ne hne], hne⟩

theorem Grows.setPhase : s.Grows (s.setPhase k phase) l :=
  ⟨setPhase_chunks l, setPhase_queue l, ⟨[], by simp [State.setPhase], nofun⟩, fun _ => id⟩

end State

/-- A call that has not succeeded comes to another phase than waiting. -/
theorem Inv.setPhase (H : Inv s) {phase : Phase} (hk : k < s.callCount)
    (hqueue : (s.calls k).queue = some queue)
    (hold : (s.calls k).phase ≠ .finished true) (hok : s.PhaseOk k phase)
    (hearlier : (s.queues queue).error = false → ∀ l < k, (s.calls l).queue = some queue →
      (s.calls l).phase = .finished true)
    (hfailed : phase = .finished false → (s.queues queue).error = true) :
    Inv (s.setPhase k phase) where
  unknown l hl := by
    rw [State.setPhase_of_ne (Nat.ne_of_gt (Nat.lt_of_lt_of_le hk hl))]
    exact H.unknown l hl
  attached l hl := by
    rw [State.setPhase_queue] at hl
    rcases State.setPhase_phase l s k phase with ⟨heq, -⟩ | ⟨rfl, -⟩
    · rw [heq]; exact H.attached l hl
    · cases hqueue.symm.trans hl
  emitted e he := by
    rw [State.setPhase_sessionId, State.setPhase_chunks]
    exact H.emitted e he
  ordered := H.ordered
  queued l hl i hi := by
    rw [State.setPhase_queue] at hi
    rw [State.setPhase_sessionId]
    exact H.queued l hl i hi
  tail i hi := by
    rw [State.setPhase_queue]
    exact H.tail i hi
  ok l hl := by
    refine (State.Grows.setPhase l).phaseOk ?_
    rcases State.setPhase_phase l s k phase with ⟨heq, -⟩ | ⟨rfl, heq⟩
    · rw [heq]; exact H.ok l hl
    · rw [heq]; exact hok
  order l hl j hj i hqj hql herror := by
    rw [State.setPhase_queue] at hqj hql
    rcases State.setPhase_phase l s k phase with ⟨heql, hnel⟩ | ⟨rfl, heql⟩
    · rcases State.setPhase_phase j s k phase with ⟨heqj, -⟩ | ⟨rfl, -⟩
      · rw [heql, heqj]; exact H.order l hl j hj i hqj hql herror
      · rw [heql]
        exact .inl ((H.order l hl j hj i hqj hql herror).resolve_right hold)
    · cases hqueue.symm.trans hql
      rw [State.setPhase_of_ne (Nat.ne_of_lt hj)]
      exact .inr (hearlier herror j hj hqj)
  failed l hl i hql hphase := by
    rw [State.setPhase_queue] at hql
    rcases State.setPhase_phase l s k phase with ⟨heq, -⟩ | ⟨rfl, heq⟩
    · rw [heq] at hphase; exact H.failed l hl i hql hphase
    · rw [heq] at hphase
      cases hqueue.symm.trans hql
      exact hfailed hphase
  previous l hl p hp := by
    rw [State.setPhase_previous] at hp
    simpa only [State.setPhase_queue] using H.previous l hl p hp
  registered x i hx := by
    simp only [State.setPhase_queue, State.setPhase_sessionId]
    exact H.registered x i hx
  unregistered i hi herror := by
    refine (H.unregistered i hi herror).imp_right fun hdone l hl hql => ?_
    rw [State.setPhase_queue] at hql
    rcases State.setPhase_phase l s k phase with ⟨heq, -⟩ | ⟨rfl, -⟩
    · rw [heq]; exact hdone l hl hql
    · exact absurd (hdone l hl hql) hold

/-- In a queue that is not in error, what is behind a call that waits is not of concern to it. -/
theorem Inv.earlier (H : Inv s) (hk : k < s.callCount) (hqueue : (s.calls k).queue = some queue)
    (hphase : (s.calls k).phase ≠ .waiting) (herror : (s.queues queue).error = false) :
    ∀ l < k, (s.calls l).queue = some queue → (s.calls l).phase = .finished true :=
  fun l hl hql => (H.order k hk l hl queue hql hqueue herror).resolve_left hphase

/-- A call whose turn it is: all the earlier ones of its queue have succeeded. -/
theorem Inv.earlier_of_previous (H : Inv s) (hk : k < s.callCount)
    (hqueue : (s.calls k).queue = some queue) (herror : (s.queues queue).error = false)
    (hprevious : s.previousResult k = some true) :
    ∀ l < k, (s.calls l).queue = some queue → (s.calls l).phase = .finished true := by
  simp only [State.previousResult] at hprevious
  split at hprevious
  · cases hprevious
  rename_i p hp
  split at hprevious
  case h_2 => cases hprevious
  rename_i success hdone
  cases hprevious
  obtain ⟨hpk, hqp, hbetween⟩ := H.previous k hk p hp
  rw [hqueue] at hqp
  intro l hl hql
  rcases Nat.lt_trichotomy l p with hlt | rfl | hgt
  · have hwaiting : (s.calls p).phase ≠ .waiting := by rw [hdone]; exact nofun
    exact H.earlier (Nat.lt_trans hpk hk) hqp hwaiting herror l hlt hql
  · exact hdone
  · exact absurd (hql.trans hqueue.symm) (hbetween l hgt hl)

/-! ## A queue is cancelled -/

theorem State.unregister_get? {x : String} {i : Nat}
    (h : (s.unregister queue).sessionQueues.get? x = some i) :
    s.sessionQueues.get? x = some i ∧ (x = (s.queues queue).sessionId → i ≠ queue) := by
  simp only [State.unregister] at h
  split at h
  · simp only [Dict.get?_erase] at h
    split at h
    · cases h
    · rename_i hne
      exact ⟨h, fun heq => absurd heq (by simpa using hne)⟩
  · rename_i hnot
    refine ⟨h, ?_⟩
    rintro rfl rfl
    exact hnot h

theorem State.unregister_get?_of_ne {x : String} {i : Nat} (hne : i ≠ queue)
    (h : s.sessionQueues.get? x = some i) : (s.unregister queue).sessionQueues.get? x = some i := by
  simp only [State.unregister]
  split
  · rename_i hreg
    have hx : x ≠ (s.queues queue).sessionId := by
      rintro rfl
      exact hne (Option.some.inj (h.symm.trans hreg))
    rw [Dict.get?_erase_of_ne hx]
    exact h
  · exact h

/-- A queue without work leaves the map. -/
theorem Inv.unregister (H : Inv s) (hdone : (s.queues queue).error = false →
      ∀ k < s.callCount, (s.calls k).queue = some queue → (s.calls k).phase = .finished true) :
    Inv (s.unregister queue) := by
  have hsame : (s.unregister queue).calls = s.calls ∧
      (s.unregister queue).queues = s.queues ∧ (s.unregister queue).callCount = s.callCount ∧
      (s.unregister queue).queueCount = s.queueCount ∧
      (s.unregister queue).emissions = s.emissions ∧
      (s.unregister queue).answers = s.answers := by
    rw [State.unregister]
    split <;> exact ⟨rfl, rfl, rfl, rfl, rfl, rfl⟩
  obtain ⟨hcalls, hqueues, hcallCount, hqueueCount, hemissions, hanswers⟩ := hsame
  refine ⟨?_, ?_, ?_, ?_, ?_, ?_, ?_, ?_, ?_, ?_, ?_, ?_⟩
  · rw [hcalls, hcallCount]; exact H.unknown
  · rw [hcalls]; exact H.attached
  · rw [hemissions, hcallCount, hcalls]; exact H.emitted
  · rw [hemissions]; exact H.ordered
  · rw [hcalls, hcallCount, hqueueCount, hqueues]; exact H.queued
  · rw [hcalls, hcallCount, hqueueCount, hqueues]; exact H.tail
  · intro k hk
    rw [hcallCount] at hk
    have G : s.Grows (s.unregister queue) k :=
      ⟨by rw [hcalls], by rw [hcalls], ⟨[], by simp [hemissions], nofun⟩, by simp [hanswers]⟩
    rw [hcalls]
    exact G.phaseOk (H.ok k hk)
  · rw [hcalls, hcallCount, hqueues]; exact H.order
  · rw [hcalls, hcallCount, hqueues]; exact H.failed
  · rw [hcalls, hcallCount]; exact H.previous
  · intro x i hx
    rw [hcalls, hcallCount, hqueueCount, hqueues]
    exact H.registered x i (State.unregister_get? hx).1
  · rw [hcalls, hcallCount, hqueueCount, hqueues]
    intro i hi herror
    rcases eq_or_ne i queue with rfl | hne
    · exact .inr (hdone herror)
    · exact (H.unregistered i hi herror).imp_left (State.unregister_get?_of_ne hne)

namespace State

/-- What cancelling a queue leaves alone. -/
theorem cancelQueue_frame (s : State) (queue : Nat) :
    (s.cancelQueue queue).callCount = s.callCount ∧
    (s.cancelQueue queue).queueCount = s.queueCount ∧
    (s.cancelQueue queue).emissions = s.emissions ∧
    (s.cancelQueue queue).answers = s.answers := by
  rw [cancelQueue]
  split
  · exact ⟨rfl, rfl, rfl, rfl⟩
  · simp only [unregister]
    split <;> exact ⟨rfl, rfl, rfl, rfl⟩

/-- Only phases of calls of the queue change, and only by the cancellation of a wait. -/
theorem cancelQueue_call (s : State) (queue l : Nat) :
    (s.cancelQueue queue).calls l = s.calls l ∨ (s.calls l).queue = some queue ∧
      (s.queues queue).error = false ∧
      (s.cancelQueue queue).calls l = { s.calls l with phase := (s.calls l).phase.cancel } := by
  have hcalls : (s.unregister queue).calls = s.calls := by
    rw [unregister]
    split <;> rfl
  rw [cancelQueue]
  split
  · exact .inl rfl
  · rename_i herror
    simp only [hcalls]
    split
    · exact .inr ⟨‹_›, by simpa using herror, rfl⟩
    · exact .inl rfl

theorem cancelQueue_queue (s : State) (queue i : Nat) :
    ((s.cancelQueue queue).queues i).sessionId = (s.queues i).sessionId ∧
    ((s.cancelQueue queue).queues i).tail = (s.queues i).tail ∧
    (((s.cancelQueue queue).queues i).error = false →
      (s.queues i).error = false ∧ i ≠ queue) ∧
    ((s.queues i).error = true → ((s.cancelQueue queue).queues i).error = true) := by
  have hqueues : (s.unregister queue).queues = s.queues := by
    rw [unregister]
    split <;> rfl
  rw [cancelQueue]
  split
  · rename_i herror
    refine ⟨rfl, rfl, fun h => ⟨h, ?_⟩, id⟩
    rintro rfl
    rw [herror] at h
    cases h
  · simp only [hqueues]
    rcases eq_or_ne i queue with rfl | hne
    · simp
    · rw [Function.update_of_ne hne]
      exact ⟨rfl, rfl, fun h => ⟨h, hne⟩, id⟩

theorem cancelQueue_error (s : State) (queue : Nat) :
    ((s.cancelQueue queue).queues queue).error = true := by
  cases h : ((s.cancelQueue queue).queues queue).error with
  | true => rfl
  | false => exact absurd rfl ((s.cancelQueue_queue queue queue).2.2.1 h).2

theorem cancelQueue_get? {x : String} {i : Nat}
    (h : (s.cancelQueue queue).sessionQueues.get? x = some i) :
    s.sessionQueues.get? x = some i ∧
      (x = (s.queues queue).sessionId → (s.queues queue).error = false → i ≠ queue) := by
  simp only [cancelQueue] at h
  split at h
  · rename_i herror
    exact ⟨h, fun _ h => by rw [herror] at h; cases h⟩
  · obtain ⟨hget, hne⟩ := unregister_get? h
    exact ⟨hget, fun heq _ => hne heq⟩

theorem cancelQueue_get?_of_ne {x : String} {i : Nat} (hne : i ≠ queue)
    (h : s.sessionQueues.get? x = some i) :
    (s.cancelQueue queue).sessionQueues.get? x = some i := by
  simp only [cancelQueue]
  split
  · exact h
  · exact unregister_get?_of_ne hne h

theorem cancelQueue_fields (s : State) (queue l : Nat) :
    ((s.cancelQueue queue).calls l).sessionId = (s.calls l).sessionId ∧
    ((s.cancelQueue queue).calls l).queue = (s.calls l).queue ∧
    ((s.cancelQueue queue).calls l).chunks = (s.calls l).chunks ∧
    ((s.cancelQueue queue).calls l).previous = (s.calls l).previous := by
  rcases s.cancelQueue_call queue l with h | ⟨-, -, h⟩
  · rw [h]; exact ⟨rfl, rfl, rfl, rfl⟩
  · rw [h]; exact ⟨rfl, rfl, rfl, rfl⟩

theorem Grows.cancelQueue (s : State) (queue l : Nat) : s.Grows (s.cancelQueue queue) l := by
  obtain ⟨-, hqueue, hchunks, -⟩ := s.cancelQueue_fields queue l
  obtain ⟨-, -, hemissions, hanswers⟩ := s.cancelQueue_frame queue
  exact ⟨hchunks, hqueue, ⟨[], by simp [hemissions], nofun⟩, by simp [hanswers]⟩

end State

theorem Phase.cancel_eq_finished {phase : Phase} {success : Bool}
    (h : phase.cancel = .finished success) : phase = .finished success := by
  cases phase <;> first | (cases h; rfl) | cases h

theorem State.PhaseOk.cancel {phase : Phase} (h : s.PhaseOk k phase) :
    s.PhaseOk k phase.cancel := by
  cases phase with
  | awaiting | delaying => trivial
  | unqueued | waiting | acknowledged | delayed | rejected | finished => exact h

theorem Inv.cancelQueue (H : Inv s) (queue : Nat) : Inv (s.cancelQueue queue) := by
  obtain ⟨hcallCount, hqueueCount, hemissions, hanswers⟩ := s.cancelQueue_frame queue
  have hid := fun l => (s.cancelQueue_fields queue l).1
  have hq := fun l => (s.cancelQueue_fields queue l).2.1
  have hchunks := fun l => (s.cancelQueue_fields queue l).2.2.1
  have hprevious := fun l => (s.cancelQueue_fields queue l).2.2.2
  have hother : ∀ l i, i ≠ queue → (s.calls l).queue = some i →
      (s.cancelQueue queue).calls l = s.calls l := by
    intro l i hne hl
    rcases s.cancelQueue_call queue l with h | ⟨h, -, -⟩
    · exact h
    · exact absurd (Option.some.inj (hl.symm.trans h)) hne
  refine ⟨?_, ?_, ?_, ?_, ?_, ?_, ?_, ?_, ?_, ?_, ?_, ?_⟩
  · intro l hl
    rw [hcallCount] at hl
    have hcall := H.unknown l hl
    rcases s.cancelQueue_call queue l with h | ⟨h, -, -⟩
    · rw [h, hcall]
    · rw [hcall] at h; cases h
  · intro l hl
    rw [hq] at hl
    rcases s.cancelQueue_call queue l with h | ⟨h, -, -⟩
    · rw [h]; exact H.attached l hl
    · cases hl.symm.trans h
  · simpa only [hemissions, hcallCount, hid, hchunks] using H.emitted
  · simpa only [hemissions] using H.ordered
  · intro l hl i hi
    rw [hcallCount] at hl
    rw [hq] at hi
    rw [hqueueCount, hid, (s.cancelQueue_queue queue i).1, (s.cancelQueue_queue queue i).2.1]
    exact H.queued l hl i hi
  · intro i hi
    rw [hqueueCount] at hi
    rw [hcallCount, hq, (s.cancelQueue_queue queue i).2.1]
    exact H.tail i hi
  · intro l hl
    rw [hcallCount] at hl
    apply (State.Grows.cancelQueue s queue l).phaseOk
    rcases s.cancelQueue_call queue l with h | ⟨-, -, h⟩
    · rw [h]; exact H.ok l hl
    · rw [h]; exact (H.ok l hl).cancel
  · intro l hl j hj i hqj hql herror
    rw [hcallCount] at hl
    rw [hq] at hqj hql
    obtain ⟨herror, hne⟩ := (s.cancelQueue_queue queue i).2.2.1 herror
    rw [hother l i hne hql, hother j i hne hqj]
    exact H.order l hl j hj i hqj hql herror
  · intro l hl i hql hphase
    rw [hcallCount] at hl
    rw [hq] at hql
    refine (s.cancelQueue_queue queue i).2.2.2 (H.failed l hl i hql ?_)
    rcases s.cancelQueue_call queue l with h | ⟨-, -, h⟩
    · rwa [h] at hphase
    · rw [h] at hphase
      exact Phase.cancel_eq_finished hphase
  · intro l hl p hp
    rw [hcallCount] at hl
    rw [hprevious] at hp
    simpa only [hq] using H.previous l hl p hp
  · intro x i hx
    obtain ⟨hget, hne⟩ := State.cancelQueue_get? hx
    obtain ⟨hi, hsession, herror, hcalls⟩ := H.registered x i hget
    have hiq : i ≠ queue := by
      rintro rfl
      exact hne hsession.symm herror rfl
    have herror' : ((s.cancelQueue queue).queues i).error = false := by
      have hqueue : (s.cancelQueue queue).queues i = s.queues i := by
        simp only [State.cancelQueue, State.unregister]
        split
        · rfl
        · split <;> exact Function.update_of_ne hiq ..
      rw [hqueue]
      exact herror
    refine ⟨by rwa [hqueueCount], by rwa [(s.cancelQueue_queue queue i).1], herror', ?_⟩
    simpa only [hcallCount, hid, hq] using hcalls
  · intro i hi herror
    rw [hqueueCount] at hi
    obtain ⟨herror, hne⟩ := (s.cancelQueue_queue queue i).2.2.1 herror
    rw [(s.cancelQueue_queue queue i).1]
    rcases H.unregistered i hi herror with h | h
    · exact .inl (State.cancelQueue_get?_of_ne hne h)
    · right
      intro l hl hql
      rw [hcallCount] at hl
      rw [hq] at hql
      rw [hother l i hne hql]
      exact h l hl hql

theorem Inv.cancelSession (H : Inv s) (sessionId : String) : Inv (s.cancelSession sessionId) := by
  rw [State.cancelSession]
  split
  · exact H.cancelQueue _
  · exact H

theorem Inv.cancelAll (H : Inv s) : Inv s.cancelAll := by
  rw [State.cancelAll]
  generalize s.sessionQueues.values = queues
  induction queues generalizing s with
  | nil => exact H
  | cons queue queues ih => exact ih (H.cancelQueue queue)

theorem Inv.known (H : Inv s) (hphase : (s.calls k).phase ≠ .unqueued) : k < s.callCount := by
  by_contra hge
  rw [H.unknown k (Nat.not_lt.mp hge)] at hphase
  exact hphase rfl

theorem Inv.fail (H : Inv s) (hk : k < s.callCount) (hqueue : (s.calls k).queue = some queue)
    (hold : (s.calls k).phase ≠ .finished true) : Inv (s.fail k queue) := by
  have herror := s.cancelQueue_error queue
  refine (H.cancelQueue queue).setPhase ?_ ?_ ?_ trivial (fun h => ?_) fun _ => herror
  · rw [(s.cancelQueue_frame queue).1]; exact hk
  · rw [(s.cancelQueue_fields queue k).2.1]; exact hqueue
  · rcases s.cancelQueue_call queue k with h | ⟨-, -, h⟩
    · rwa [h]
    · rw [h]
      exact fun hcancel => hold (Phase.cancel_eq_finished hcancel)
  · rw [herror] at h
    cases h

/-! ## A chunk is emitted -/

/-- What has happened before `e` is emitted on the way from `s` to `s'`. -/
structure State.EmissionOk (s s' : State) (e : Emission) : Prop where
  order : ∀ e' ∈ s.emissions, e'.sessionId = e.sessionId →
    e'.call < e.call ∨ e'.call = e.call ∧ e'.index ≤ e.index
  retried : ∀ id e', s.emissions[id]? = some e' → e'.call = e.call → e'.index = e.index →
    s.Rejected id
  accepted : ∀ j < e.index, s.Accepted e.call j
  earlier : ∀ l < e.call, ∀ i, (s'.calls l).queue = some i → (s'.calls e.call).queue = some i →
    ∀ j < (s'.calls l).chunks.length, s.Accepted l j

/-- What is emitted on the way from `s` to `s'` is in order. -/
def State.Emits (s s' : State) : Prop :=
  ∃ new, s'.emissions = s.emissions ++ new ∧ ∀ e ∈ new, s.EmissionOk s' e

theorem State.Emits.of_eq (h : s'.emissions = s.emissions) : s.Emits s' :=
  ⟨[], by rw [h, List.append_nil], nofun⟩

theorem State.Emits.single {e : Emission} (h : s'.emissions = s.emissions ++ [e])
    (hok : s.EmissionOk s' e) : s.Emits s' :=
  ⟨[e], h, fun _ he => List.mem_singleton.mp he ▸ hok⟩

/-- The emissions and the answers are what counts before. -/
theorem State.Emits.congr {t : State} (h : s.Emits s') (hemissions : s.emissions = t.emissions)
    (hanswers : s.answers = t.answers) : t.Emits s' := by
  obtain ⟨new, hnew, hok⟩ := h
  refine ⟨new, hemissions ▸ hnew, fun e he => ⟨?_, ?_, ?_, ?_⟩⟩
  · rw [← hemissions]
    exact (hok e he).order
  · rw [← hemissions]
    intro id e' he' hcall hindex
    rw [State.Rejected, ← hanswers]
    exact (hok e he).retried id e' he' hcall hindex
  · intro j hj
    rw [State.Accepted, ← hemissions, ← hanswers]
    exact (hok e he).accepted j hj
  · intro l hl i hql hqe j hj
    rw [State.Accepted, ← hemissions, ← hanswers]
    exact (hok e he).earlier l hl i hql hqe j hj

/-- It is the turn of the first chunk of `left`. -/
structure State.Ready (s : State) (call queue : Nat) (left : List String) : Prop where
  known : call < s.callCount
  queue_eq : (s.calls call).queue = some queue
  unfinished : (s.calls call).phase ≠ .finished true
  sending : s.Sending call left
  retried : s.Retried call left none
  earlier : (s.queues queue).error = false → ∀ l < call, (s.calls l).queue = some queue →
    (s.calls l).phase = .finished true

/-- A queue that is not in error with a call to do is in the map, and what was emitted for its
session since it is in the map went through it. -/
theorem Inv.emissions_le (H : Inv s) {left : List String} (R : s.Ready k queue left)
    (herror : (s.queues queue).error = false) {e : Emission} (he : e ∈ s.emissions)
    (hsession : e.sessionId = (s.calls k).sessionId) : e.call ≤ k := by
  by_contra hgt
  have hgt := Nat.not_le.mp hgt
  obtain ⟨hknown, hid, -⟩ := H.emitted e he
  obtain ⟨hi, hqueueSession, -⟩ := H.queued k R.known queue R.queue_eq
  have hregistered : s.sessionQueues.get? (s.queues queue).sessionId = some queue :=
    (H.unregistered queue hi herror).resolve_right fun h => R.unfinished (h k R.known R.queue_eq)
  obtain ⟨-, -, -, hcalls⟩ := H.registered _ _ hregistered
  rcases hcalls e.call hknown (by rw [hid, hsession, hqueueSession]) with hq | hbefore
  · have hwaiting := (H.order e.call hknown k hgt queue R.queue_eq hq herror).resolve_right
      R.unfinished
    have hok := H.ok e.call hknown
    rw [hwaiting] at hok
    exact hok e he rfl
  · exact absurd (hbefore k R.known R.queue_eq) (Nat.lt_asymm hgt)

theorem Inv.ready_emission (H : Inv s) {left : List String} (R : s.Ready k queue left)
    (herror : (s.queues queue).error = false) (chunk : String)
    (hcalls : ∀ l, (s'.calls l).queue = (s.calls l).queue ∧
      (s'.calls l).chunks = (s.calls l).chunks) :
    s.EmissionOk s' ⟨(s.calls k).sessionId, k, (s.calls k).chunks.length - left.length, chunk⟩ where
  order e he hsession := by
    rcases Nat.lt_or_eq_of_le (H.emissions_le R herror he hsession) with hlt | heq
    · exact .inl hlt
    · exact .inr ⟨heq, R.sending.2.2.2 e he heq⟩
  retried id e he hcall hindex := (R.retried id e he hcall hindex).resolve_left nofun
  accepted := R.sending.2.2.1
  earlier l hl i hql hqk j hj := by
    rw [(hcalls l).1] at hql
    rw [(hcalls k).1] at hqk
    rw [(hcalls l).2] at hj
    cases R.queue_eq.symm.trans hqk
    have hok := H.ok l (Nat.lt_trans hl R.known)
    rw [R.earlier herror l hl hql] at hok
    exact hok j hj

/-- The emission is recorded while its call is not looked at. -/
theorem Inv.emit (H : Inv s) {left : List String} {chunk : String} (hk : k < s.callCount)
    (hphase : (s.calls k).phase = .rejected ∨ (s.calls k).phase = .unqueued)
    (hchunk : (s.calls k).chunks[(s.calls k).chunks.length - left.length]? = some chunk)
    (horder : ∀ e ∈ s.emissions, e.sessionId = (s.calls k).sessionId →
      e.call < k ∨ e.call = k ∧ e.index ≤ (s.calls k).chunks.length - left.length) :
    Inv (s.emit k left chunk) := by
  refine ⟨H.unknown, H.attached, fun e he => ?_, ?_, H.queued, H.tail, fun l hl => ?_, H.order,
    H.failed, H.previous, H.registered, H.unregistered⟩
  · rcases List.mem_append.mp he with he | he
    · exact H.emitted e he
    · rw [List.mem_singleton.mp he]
      exact ⟨hk, rfl, hchunk⟩
  · refine List.pairwise_append.mpr ⟨H.ordered, List.pairwise_singleton .., ?_⟩
    intro e he e' he' hsession
    rw [List.mem_singleton.mp he'] at hsession ⊢
    exact horder e he hsession
  · rcases eq_or_ne l k with rfl | hne
    · have hok := H.ok l hk
      rcases hphase with hphase | hphase
      · exact (congrArg (State.PhaseOk _ l) hphase).mpr trivial
      · rw [hphase] at hok
        exact (congrArg (State.PhaseOk _ l) hphase).mpr hok
    · have G : s.Grows (s.emit k left chunk) l := by
        refine ⟨rfl, rfl, ⟨_, rfl, fun e he => ?_⟩, fun _ => id⟩
        rw [List.mem_singleton.mp he]
        exact hne.symm
      exact G.phaseOk (H.ok l hl)

theorem State.Sending.getElem? {left : List String} {chunk : String}
    (h : s.Sending k (chunk :: left)) :
    (s.calls k).chunks[(s.calls k).chunks.length - (chunk :: left).length]? = some chunk := by
  obtain ⟨-, hleft, -⟩ := h
  rw [← List.head?_drop, ← hleft]
  rfl

/-- The call waits for the emission it has just made. -/
theorem State.phaseOk_awaiting {left : List String} {chunk : String} (hleft : left ≠ [])
    (hsending : s.Sending k left) (hretried : s.Retried k left none) (retries : Nat) :
    (s.emit k left chunk).PhaseOk k (.awaiting left retries s.emissions.length) := by
  have hnew : ∀ {id : Nat} {e : Emission}, (s.emit k left chunk).emissions[id]? = some e →
      s.emissions[id]? = some e ∨ id = s.emissions.length := by
    intro id e he
    simp only [State.emit, List.getElem?_append] at he
    split at he
    · exact .inl he
    · right
      rcases Nat.eq_zero_or_pos (id - s.emissions.length) with h | h
      · omega
      · rw [List.getElem?_eq_none (by simp only [List.length_singleton]; exact h)] at he
        cases he
  have hold : ∀ {id : Nat} {e : Emission}, s.emissions[id]? = some e →
      (s.emit k left chunk).emissions[id]? = some e := by
    intro id e he
    have hlt := (List.getElem?_eq_some_iff.mp he).1
    simp only [State.emit, List.getElem?_append_left hlt, he]
  refine ⟨hleft, ⟨hsending.1, hsending.2.1, fun j hj => ?_, fun e he hcall => ?_⟩, ?_, ?_⟩
  · obtain ⟨id, e, ack, he, hcall, hindex, hack, hsuccess⟩ := hsending.2.2.1 j hj
    exact ⟨id, e, ack, hold he, hcall, hindex, hack, hsuccess⟩
  · rcases List.mem_append.mp he with he | he
    · exact hsending.2.2.2 e he hcall
    · rw [List.mem_singleton.mp he]
      exact Nat.le_refl _
  · intro id e he hcall hindex
    rcases hnew he with he | rfl
    · exact .inr ((hretried id e he hcall hindex).resolve_left nofun)
    · exact .inl rfl
  · exact ⟨_, by simp only [State.emit, List.getElem?_append_right (Nat.le_refl _), Nat.sub_self];
                 rfl, rfl, rfl⟩

theorem State.Grows.ready (G : s.Grows s' k) {left : List String} (R : s.Ready k queue left)
    (hknown : k < s'.callCount) (hunfinished : (s'.calls k).phase ≠ .finished true)
    (hearlier : (s'.queues queue).error = false → ∀ l < k, (s'.calls l).queue = some queue →
      (s'.calls l).phase = .finished true) : s'.Ready k queue left :=
  ⟨hknown, G.queue.trans R.queue_eq, hunfinished, G.sending R.sending, G.retried R.retried, hearlier⟩

theorem Inv.transmit (H : Inv s) {left : List String} (R : s.Ready k queue left) (retries : Nat)
    (throws : Bool) :
    Inv (s.transmit k queue left retries throws) ∧
      s.Emits (s.transmit k queue left retries throws) := by
  rw [State.transmit.eq_def]
  split
  · refine ⟨H.setPhase R.known R.queue_eq R.unfinished (fun j hj => ?_) R.earlier nofun, .of_eq rfl⟩
    exact R.sending.2.2.1 j (by simpa using hj)
  rename_i chunk rest
  split
  · rename_i hconnected
    have herror : (s.queues queue).error = false := by
      simp only [State.isConnected, Bool.and_eq_true, Bool.not_eq_eq_eq_not, Bool.not_true] at hconnected
      exact hconnected.1.1
    have H₁ : Inv (s.setPhase k .rejected) :=
      H.setPhase R.known R.queue_eq R.unfinished trivial R.earlier nofun
    split
    · exact ⟨H₁, .of_eq rfl⟩
    · have G₁ : s.Grows (s.setPhase k .rejected) k := .setPhase k
      have R₁ : (s.setPhase k .rejected).Ready k queue (chunk :: rest) := by
        refine G₁.ready R R.known (by rw [State.setPhase_self]; exact nofun) fun _ l hl hql => ?_
        rw [State.setPhase_queue] at hql
        rw [State.setPhase_of_ne (Nat.ne_of_lt hl)]
        exact R.earlier herror l hl hql
      have hok : (s.setPhase k .rejected).EmissionOk
          ((s.emit k (chunk :: rest) chunk).setPhase k
            (.awaiting (chunk :: rest) retries s.emissions.length)) _ :=
        H₁.ready_emission R₁ herror chunk fun l => by
          simp only [State.setPhase_queue, State.setPhase_chunks]
          exact ⟨rfl, rfl⟩
      have H₂ := H₁.emit R₁.known (.inl State.setPhase_self)
        R₁.sending.getElem? hok.order
      have heq : (s.emit k (chunk :: rest) chunk).setPhase k
          (.awaiting (chunk :: rest) retries s.emissions.length) =
          ((s.setPhase k .rejected).emit k (chunk :: rest) chunk).setPhase k
            (.awaiting (chunk :: rest) retries s.emissions.length) := by
        simp [State.setPhase, State.emit]
      simp only [State.setPhase_sessionId, State.setPhase_chunks] at hok
      refine ⟨?_, .single rfl ⟨hok.order, hok.retried, hok.accepted, hok.earlier⟩⟩
      · rw [heq]
        refine H₂.setPhase R.known R₁.queue_eq ?_ ?_ R₁.earlier nofun
        · exact (congrArg (· ≠ Phase.finished true) State.setPhase_self).mpr nofun
        · exact State.phaseOk_awaiting (List.cons_ne_nil _ _) R₁.sending R₁.retried retries
  · have hframe := s.cancelQueue_frame queue
    exact ⟨H.fail R.known R.queue_eq R.unfinished, .of_eq hframe.2.2.1⟩

/-! ## Answers, timers and continuations -/

/-- Fields that no invariant looks at, and more answers. -/
theorem Inv.aside (H : Inv s) (hcalls : s'.calls = s.calls) (hcallCount : s'.callCount = s.callCount)
    (hqueues : s'.queues = s.queues) (hqueueCount : s'.queueCount = s.queueCount)
    (hsession : s'.sessionQueues = s.sessionQueues) (hemissions : s'.emissions = s.emissions)
    (hanswers : ∀ a ∈ s.answers, a ∈ s'.answers) : Inv s' where
  unknown := by rw [hcalls, hcallCount]; exact H.unknown
  attached := by rw [hcalls]; exact H.attached
  emitted := by rw [hemissions, hcallCount, hcalls]; exact H.emitted
  ordered := by rw [hemissions]; exact H.ordered
  queued := by rw [hcalls, hcallCount, hqueueCount, hqueues]; exact H.queued
  tail := by rw [hcalls, hcallCount, hqueueCount, hqueues]; exact H.tail
  ok l hl := by
    rw [hcallCount] at hl
    rw [hcalls]
    have G : s.Grows s' l :=
      ⟨by rw [hcalls], by rw [hcalls], ⟨[], by simp [hemissions], nofun⟩, hanswers⟩
    exact G.phaseOk (H.ok l hl)
  order := by rw [hcalls, hcallCount, hqueues]; exact H.order
  failed := by rw [hcalls, hcallCount, hqueues]; exact H.failed
  previous := by rw [hcalls, hcallCount]; exact H.previous
  registered := by rw [hcalls, hcallCount, hqueueCount, hqueues, hsession]; exact H.registered
  unregistered := by rw [hcalls, hcallCount, hqueueCount, hqueues, hsession]; exact H.unregistered

theorem Inv.exists_queue (H : Inv s) (hphase : (s.calls k).phase ≠ .unqueued) :
    ∃ i, (s.calls k).queue = some i := by
  cases hq : (s.calls k).queue with
  | none => exact absurd (H.attached k hq) hphase
  | some i => exact ⟨i, rfl⟩

/-- A call that has started goes to a phase in which it may be. -/
theorem Inv.advance (H : Inv s) {phase : Phase} (hunqueued : (s.calls k).phase ≠ .unqueued)
    (hwaiting : (s.calls k).phase ≠ .waiting) (hold : (s.calls k).phase ≠ .finished true)
    (hok : s.PhaseOk k phase) (hfailed : phase ≠ .finished false) : Inv (s.setPhase k phase) := by
  have hk := H.known hunqueued
  obtain ⟨i, hi⟩ := H.exists_queue hunqueued
  exact H.setPhase hk hi hold hok (H.earlier hk hi hwaiting) fun h => absurd h hfailed

theorem Inv.acknowledge (H : Inv s) {emission : Nat} {ack : Ack}
    (h : s.acknowledge emission ack = some s') : Inv s' := by
  simp only [State.acknowledge] at h
  split at h
  · cases h
  rename_i e he
  have H₁ : Inv { s with answers := s.answers ++ [(emission, ack)] } :=
    H.aside rfl rfl rfl rfl rfl rfl fun _ => List.mem_append_left _
  split at h
  · rename_i left retries awaited hphase
    have hcall := H₁.known (k := e.call) (by rw [hphase]; exact nofun)
    have hok := H₁.ok e.call hcall
    rw [hphase] at hok
    split at h
    · rename_i heq
      subst awaited
      cases h
      refine H₁.advance (by rw [hphase]; exact nofun) (by rw [hphase]; exact nofun)
        (by rw [hphase]; exact nofun) ⟨hok.1, hok.2.1, hok.2.2.1, hok.2.2.2, ?_⟩ nofun
      exact List.mem_append_right _ (List.mem_singleton.mpr rfl)
    · cases h; exact H₁
  · cases h; exact H₁

theorem Inv.timer (H : Inv s) (h : s.timer k = some s') : Inv s' := by
  simp only [State.timer] at h
  split at h
  · rename_i hphase
    cases h
    exact H.advance (by rw [hphase]; exact nofun) (by rw [hphase]; exact nofun)
      (by rw [hphase]; exact nofun) trivial nofun
  · rename_i left retries hphase
    have hok := H.ok k (H.known (by rw [hphase]; exact nofun))
    rw [hphase] at hok
    cases h
    exact H.advance (by rw [hphase]; exact nofun) (by rw [hphase]; exact nofun)
      (by rw [hphase]; exact nofun) hok nofun
  · cases h

/-- The chunk that was waited for is accepted: it is the turn of the next one. -/
theorem State.Sending.tail {left : List String} {id : Nat} {ack : Ack} (h : s.Sending k left)
    (hleft : left ≠ []) (hcurrent : s.Current k left id) (hack : (id, ack) ∈ s.answers)
    (hsuccess : ack.success = true) : s.Sending k left.tail ∧ s.Retried k left.tail none := by
  obtain ⟨hlength, hdrop, haccepted, hemitted⟩ := h
  obtain ⟨e, he, hcall, hindex⟩ := hcurrent
  have hpos := List.length_pos_of_ne_nil hleft
  have htail : left.tail.length = left.length - 1 := List.length_tail
  have hnext : (s.calls k).chunks.length - left.tail.length =
      (s.calls k).chunks.length - left.length + 1 := by omega
  refine ⟨⟨by omega, ?_, fun j hj => ?_, fun e' he' hcall' => ?_⟩, fun id' e' he' hcall' hindex' => ?_⟩
  · rw [hnext, ← List.tail_drop, ← hdrop]
  · rcases Nat.lt_or_eq_of_le (Nat.le_of_lt_succ (hnext ▸ hj)) with hlt | rfl
    · exact haccepted j hlt
    · exact ⟨id, e, ack, he, hcall, hindex, hack, hsuccess⟩
  · have := hemitted e' he' hcall'
    omega
  · have := hemitted e' (List.mem_of_getElem? he') hcall'
    omega

theorem Inv.answered (H : Inv s) {left : List String} {retries id : Nat} {ack : Ack}
    (hqueue : (s.calls k).queue = some queue)
    (hphase : (s.calls k).phase = .acknowledged left retries id ack) (throws : Bool) :
    Inv (s.answered k queue left retries ack throws) ∧
      s.Emits (s.answered k queue left retries ack throws) := by
  have hunqueued : (s.calls k).phase ≠ .unqueued := by rw [hphase]; exact nofun
  have hwaiting : (s.calls k).phase ≠ .waiting := by rw [hphase]; exact nofun
  have hold : (s.calls k).phase ≠ .finished true := by rw [hphase]; exact nofun
  have hk := H.known hunqueued
  have hok := H.ok k hk
  rw [hphase] at hok
  obtain ⟨hleft, hsending, hretried, hcurrent, hack⟩ := hok
  have hfail : Inv (s.fail k queue) ∧ s.Emits (s.fail k queue) :=
    ⟨H.fail hk hqueue hold, .of_eq (s.cancelQueue_frame queue).2.2.1⟩
  rw [State.answered]
  split
  case isFalse => exact hfail
  split
  · rename_i hsuccess
    obtain ⟨hnext, hfresh⟩ := hsending.tail hleft hcurrent hack hsuccess
    exact H.transmit ⟨hk, hqueue, hold, hnext, hfresh, H.earlier hk hqueue hwaiting⟩ 0 throws
  split
  · exact hfail
  · rename_i hsuccess hcode
    refine ⟨H.advance hunqueued hwaiting hold ⟨hleft, hsending, fun id' e he hcall hindex => ?_⟩
      nofun, .of_eq rfl⟩
    rcases hretried id' e he hcall hindex with heq | hrejected
    · cases heq
      refine .inr ⟨ack, hack, ?_⟩
      simp only [not_or, Decidable.not_not] at hcode
      simp [Ack.isBackpressure, hcode.1, by simpa using hsuccess]
    · exact .inr hrejected

theorem Inv.resume (H : Inv s) {throws : Bool} (h : s.resume k throws = some s') :
    Inv s' ∧ s.Emits s' := by
  simp only [State.resume] at h
  split at h
  · cases h
  rename_i queue hqueue
  split at h
  · rename_i hphase
    have hk := H.known (k := k) (by rw [hphase]; exact nofun)
    have hok := H.ok k hk
    rw [hphase] at hok
    have hold : (s.calls k).phase ≠ .finished true := by rw [hphase]; exact nofun
    split at h
    · cases h
    rename_i success hprevious
    split at h
    · rename_i hgo
      rw [hgo.1] at hprevious
      cases h
      refine H.transmit ⟨hk, hqueue, hold, ⟨Nat.le_refl _, ?_, fun j hj => ?_, fun e he hcall => ?_⟩,
        fun id e he hcall _ => ?_, fun herror => H.earlier_of_previous hk hqueue herror hprevious⟩
        0 throws
      · simp
      · simp at hj
      · exact absurd hcall (hok e he)
      · exact absurd hcall (hok e (List.mem_of_getElem? he))
    · rename_i hstop
      cases h
      have herror : (s.queues queue).error = true := by
        rcases hs : success with _ | _
        · subst success
          simp only [State.previousResult] at hprevious
          split at hprevious
          · cases hprevious
          rename_i p hp
          split at hprevious
          case h_2 => cases hprevious
          rename_i success hdone
          cases hprevious
          obtain ⟨hpk, hqp, -⟩ := H.previous k hk p hp
          exact H.failed p (Nat.lt_trans hpk hk) queue (hqp.trans hqueue) hdone
        · simpa [hs] using hstop
      refine ⟨H.setPhase hk hqueue hold trivial (fun h => ?_) fun _ => herror, .of_eq rfl⟩
      rw [herror] at h
      cases h
  · rename_i left retries id ack hphase
    cases h
    exact H.answered hqueue hphase throws
  · rename_i left retries hphase
    have hk := H.known (k := k) (by rw [hphase]; exact nofun)
    have hok := H.ok k hk
    rw [hphase] at hok
    cases h
    exact H.transmit ⟨hk, hqueue, by rw [hphase]; exact nofun, hok.2.1, hok.2.2,
      H.earlier hk hqueue (by rw [hphase]; exact nofun)⟩ retries throws
  · rename_i hphase
    cases h
    exact ⟨H.fail (H.known (by rw [hphase]; exact nofun)) hqueue (by rw [hphase]; exact nofun),
      .of_eq (s.cancelQueue_frame queue).2.2.1⟩
  · cases h

theorem Inv.cleanup (H : Inv s) (h : s.cleanup k = some s') : Inv s' := by
  simp only [State.cleanup] at h
  split at h
  · rename_i queue success hqueue hphase
    cases h
    split
    · rename_i htail
      refine H.unregister fun herror l hl hql => ?_
      have hk := H.known (k := k) (by rw [hphase]; exact nofun)
      have hsuccess : success = true := by
        cases success with
        | true => rfl
        | false =>
          rw [H.failed k hk queue hqueue hphase] at herror
          cases herror
      have hle := (H.queued l hl queue hql).2.2
      rw [htail] at hle
      rcases Nat.lt_or_eq_of_le hle with hlt | rfl
      · exact H.earlier hk hqueue (by rw [hphase]; exact nofun) herror l hlt hql
      · rw [hphase, hsuccess]
    · exact H
  · cases h

/-! ## Calls of send -/

namespace State

theorem newCall_self (s : State) (call : Call) : (s.newCall call).calls s.callCount = call :=
  Function.update_self ..

theorem newCall_of_ne (s : State) (call : Call) {l : Nat} (hne : l ≠ s.callCount) :
    (s.newCall call).calls l = s.calls l :=
  Function.update_of_ne hne ..

theorem Grows.newCall (s : State) (call : Call) {l : Nat} (hl : l < s.callCount) :
    s.Grows (s.newCall call) l := by
  have hcall := s.newCall_of_ne call (Nat.ne_of_lt hl)
  exact ⟨by rw [hcall], by rw [hcall], ⟨[], by simp [State.newCall], nofun⟩, fun _ => id⟩

end State

/-- A call joins a queue that is in the map, or it needs none. -/
theorem Inv.newCall (H : Inv s) (call : Call) {queues : Nat → Queue}
    (hphase : call.queue = none ∧ call.phase = .unqueued ∧ queues = s.queues ∧
        call.previous = none ∧ s.sessionQueues.get? call.sessionId = none ∨
      call.phase = .waiting ∧ ∃ i, call.queue = some i ∧
        s.sessionQueues.get? call.sessionId = some i ∧ call.previous = some (s.queues i).tail ∧
        queues = Function.update s.queues i { s.queues i with tail := s.callCount }) :
    Inv { s.newCall call with queues := queues } := by
  have hself := s.newCall_self call
  have hold : ∀ l < s.callCount, (s.newCall call).calls l = s.calls l :=
    fun l hl => s.newCall_of_ne call (Nat.ne_of_lt hl)
  have hqueues : ∀ i, (queues i).sessionId = (s.queues i).sessionId ∧
      (queues i).error = (s.queues i).error ∧
      ((queues i).tail = (s.queues i).tail ∧ call.queue ≠ some i ∨
        (queues i).tail = s.callCount ∧ call.queue = some i) := by
    intro i
    rcases hphase with ⟨hq, -, rfl, -⟩ | ⟨-, j, hq, -, -, rfl⟩
    · exact ⟨rfl, rfl, .inl ⟨rfl, by rw [hq]; exact nofun⟩⟩
    · rcases eq_or_ne i j with rfl | hne
      · simp [hq]
      · simp [Function.update_of_ne hne, hq, hne.symm]
  have hcallQueue : ∀ i, call.queue = some i → call.phase = .waiting ∧
      s.sessionQueues.get? call.sessionId = some i := by
    intro i hi
    rcases hphase with ⟨hq, -⟩ | ⟨hp, j, hq, hget, -⟩
    · rw [hq] at hi; cases hi
    · cases hq.symm.trans hi
      exact ⟨hp, hget⟩
  have hsplit : ∀ l, l < s.callCount + 1 → l < s.callCount ∨ l = s.callCount :=
    fun l hl => Nat.lt_succ_iff_lt_or_eq.mp hl
  refine ⟨fun l hl => ?_, fun l hl => ?_, fun e he => ?_, H.ordered, fun l hl i hi => ?_,
    fun i hi => ?_, fun l hl => ?_, fun l hl j hj i hqj hql herror => ?_,
    fun l hl i hi hp => ?_, fun l hl p hp => ?_, fun x i hx => ?_, fun i hi herror => ?_⟩
  · exact (s.newCall_of_ne call (Nat.ne_of_gt hl)).trans (H.unknown l (Nat.le_of_succ_le hl))
  · rcases Nat.lt_trichotomy l s.callCount with hlt | rfl | hgt
    · rw [hold l hlt] at hl ⊢
      exact H.attached l hl
    · rw [hself] at hl ⊢
      rcases hphase with ⟨-, hp, -⟩ | ⟨-, i, hq, -⟩
      · exact hp
      · rw [hq] at hl; cases hl
    · have hcall := s.newCall_of_ne call (Nat.ne_of_gt hgt)
      rw [hcall] at hl ⊢
      exact H.attached l hl
  · obtain ⟨hlt, hrest⟩ := H.emitted e he
    refine ⟨Nat.lt_succ_of_lt hlt, ?_⟩
    rw [hold e.call hlt]
    exact hrest
  · rcases hsplit l hl with hlt | rfl
    · rw [hold l hlt] at hi ⊢
      obtain ⟨hlt', hsession, hle⟩ := H.queued l hlt i hi
      refine ⟨hlt', (hqueues i).1.trans hsession, ?_⟩
      rcases (hqueues i).2.2 with ⟨htail, -⟩ | ⟨htail, -⟩
      · exact Nat.le_trans hle (Nat.le_of_eq htail.symm)
      · exact Nat.le_trans (Nat.le_of_lt hlt) (Nat.le_of_eq htail.symm)
    · rw [hself] at hi ⊢
      obtain ⟨-, hget⟩ := hcallQueue i hi
      obtain ⟨hlt', hsession, -⟩ := H.registered _ i hget
      refine ⟨hlt', (hqueues i).1.trans hsession, ?_⟩
      rcases (hqueues i).2.2 with ⟨-, hne⟩ | ⟨htail, -⟩
      · exact absurd hi hne
      · exact Nat.le_of_eq htail.symm
  · obtain ⟨hlt, hq⟩ := H.tail i hi
    rcases (hqueues i).2.2 with ⟨htail, -⟩ | ⟨htail, hq'⟩
    · refine ⟨htail ▸ Nat.lt_succ_of_lt hlt, ?_⟩
      simp only [htail]
      rw [hold _ hlt]
      exact hq
    · refine ⟨htail ▸ Nat.lt_succ_self _, ?_⟩
      simp only [htail]
      rw [hself]
      exact hq'
  · rcases hsplit l hl with hlt | rfl
    · rw [hold l hlt]
      have G : s.Grows { s.newCall call with queues := queues } l :=
        ⟨(State.Grows.newCall s call hlt).chunks, (State.Grows.newCall s call hlt).queue,
          (State.Grows.newCall s call hlt).emissions, fun _ => id⟩
      exact G.phaseOk (H.ok l hlt)
    · rw [hself]
      rcases hphase with ⟨hq, hp, -⟩ | ⟨hp, -⟩
      · rw [hp]
        exact (congrArg Call.queue hself).trans hq
      · rw [hp]
        exact fun e he => Nat.ne_of_lt (H.emitted e he).1
  · rcases hsplit l hl with hlt | rfl
    · rw [hold l hlt] at hql ⊢
      rw [hold j (Nat.lt_trans hj hlt)] at hqj ⊢
      exact H.order l hlt j hj i hqj hql ((hqueues i).2.1 ▸ herror)
    · rw [hself] at hql ⊢
      exact .inl (hcallQueue i hql).1
  · rcases hsplit l hl with hlt | rfl
    · rw [hold l hlt] at hi hp
      exact (hqueues i).2.1.trans (H.failed l hlt i hi hp)
    · rw [hself] at hi hp
      rw [(hcallQueue i hi).1] at hp
      cases hp
  · rcases hsplit l hl with hlt | rfl
    · rw [hold l hlt] at hp ⊢
      obtain ⟨hpl, hq, hbetween⟩ := H.previous l hlt p hp
      refine ⟨hpl, by rw [hold p (Nat.lt_trans hpl hlt)]; exact hq, fun j hpj hjl => ?_⟩
      rw [hold j (Nat.lt_trans hjl hlt)]
      exact hbetween j hpj hjl
    · rw [hself] at hp ⊢
      rcases hphase with ⟨-, -, -, hnone, -⟩ | ⟨-, i, hq, hget, hprevious, -⟩
      · rw [hnone] at hp; cases hp
      · cases hprevious.symm.trans hp
        obtain ⟨hi, -⟩ := H.registered _ i hget
        obtain ⟨hlt, htail⟩ := H.tail i hi
        refine ⟨hlt, by rw [hold _ hlt, hq]; exact htail, fun j hpj hjl hqj => ?_⟩
        rw [hold j hjl, hq] at hqj
        exact absurd (H.queued j hjl i hqj).2.2 (Nat.not_le.mpr hpj)
  · have hx : s.sessionQueues.get? x = some i := hx
    obtain ⟨hi, hsession, herror, hcalls⟩ := H.registered x i hx
    refine ⟨hi, (hqueues i).1.trans hsession, (hqueues i).2.1.trans herror, fun l hl hlx => ?_⟩
    rcases hsplit l hl with hlt | rfl
    · rw [hold l hlt] at hlx ⊢
      refine (hcalls l hlt hlx).imp_right fun hbefore j hj hqj => ?_
      rcases hsplit j hj with hjlt | rfl
      · rw [hold j hjlt] at hqj
        exact hbefore j hjlt hqj
      · exact hlt
    · rw [hself] at hlx ⊢
      rcases hphase with ⟨-, -, -, -, hnone⟩ | ⟨-, j, hq, hget, -⟩
      · rw [hlx, hx] at hnone; cases hnone
      · rw [hlx, hx] at hget
        cases hget
        exact .inl hq
  · rcases H.unregistered i hi ((hqueues i).2.1 ▸ herror) with hreg | hdone
    · exact .inl ((congrArg s.sessionQueues.get? (hqueues i).1).trans hreg)
    · rcases (hqueues i).2.2 with ⟨-, hne⟩ | ⟨-, hq⟩
      · refine .inr fun l hl hql => ?_
        rcases hsplit l hl with hlt | rfl
        · rw [hold l hlt] at hql ⊢
          exact hdone l hlt hql
        · rw [hself] at hql
          exact absurd hql hne
      · obtain ⟨-, hget⟩ := hcallQueue i hq
        have hsession := (H.registered _ i hget).2.1
        exact .inl ((congrArg s.sessionQueues.get? ((hqueues i).1.trans hsession)).trans hget)

/-- A call makes a queue, when there is none for its session in the map. -/
theorem Inv.newQueue (H : Inv s) {sessionId : String} (chunks : List String)
    (hnone : s.sessionQueues.get? sessionId = none) :
    Inv ((s.newQueue sessionId).newCall
      ⟨sessionId, some s.queueCount, chunks, none, .waiting⟩) := by
  let call : Call := ⟨sessionId, some s.queueCount, chunks, none, .waiting⟩
  have hself : ((s.newQueue sessionId).newCall call).calls s.callCount = call :=
    (s.newQueue sessionId).newCall_self call
  have hold : ∀ l, l ≠ s.callCount →
      ((s.newQueue sessionId).newCall call).calls l = s.calls l :=
    fun l hne => (s.newQueue sessionId).newCall_of_ne call hne
  have hnew : ((s.newQueue sessionId).newCall call).queues s.queueCount =
      ⟨sessionId, s.socket, false, s.callCount⟩ := Function.update_self ..
  have hqueues : ∀ i, i ≠ s.queueCount →
      ((s.newQueue sessionId).newCall call).queues i = s.queues i :=
    fun i hne => Function.update_of_ne hne ..
  have hget : ∀ x, ((s.newQueue sessionId).newCall call).sessionQueues.get? x =
      if x = sessionId then some s.queueCount else s.sessionQueues.get? x :=
    fun x => Dict.get?_set
  have hsplit : ∀ l, l < s.callCount + 1 → l < s.callCount ∨ l = s.callCount :=
    fun l hl => Nat.lt_succ_iff_lt_or_eq.mp hl
  -- the old calls are in old queues
  have hnot : ∀ l < s.callCount, (s.calls l).queue ≠ some s.queueCount := fun l hl hq =>
    Nat.lt_irrefl _ (H.queued l hl _ hq).1
  have hne : ∀ {l i}, l < s.callCount → (s.calls l).queue = some i → i ≠ s.queueCount := by
    rintro l i hl hq rfl
    exact hnot l hl hq
  refine ⟨fun l hl => ?_, fun l hl => ?_, fun e he => ?_, H.ordered, fun l hl i hi => ?_,
    fun i hi => ?_, fun l hl => ?_, fun l hl j hj i hqj hql herror => ?_,
    fun l hl i hi hp => ?_, fun l hl p hp => ?_, fun x i hx => ?_, fun i hi herror => ?_⟩
  · exact (hold l (Nat.ne_of_gt hl)).trans (H.unknown l (Nat.le_of_succ_le hl))
  · rcases eq_or_ne l s.callCount with rfl | hne
    · rw [hself] at hl; cases hl
    · rw [hold l hne] at hl ⊢
      exact H.attached l hl
  · obtain ⟨hlt, hrest⟩ := H.emitted e he
    refine ⟨Nat.lt_succ_of_lt hlt, ?_⟩
    rw [hold e.call (Nat.ne_of_lt hlt)]
    exact hrest
  · rcases hsplit l hl with hlt | rfl
    · rw [hold l (Nat.ne_of_lt hlt)] at hi ⊢
      rw [hqueues i (hne hlt hi)]
      obtain ⟨hlt', hrest⟩ := H.queued l hlt i hi
      exact ⟨Nat.lt_succ_of_lt hlt', hrest⟩
    · rw [hself] at hi ⊢
      cases hi
      rw [hnew]
      exact ⟨Nat.lt_succ_self _, rfl, Nat.le_refl _⟩
  · rcases Nat.lt_succ_iff_lt_or_eq.mp hi with hlt | rfl
    · obtain ⟨htail, hq⟩ := H.tail i hlt
      rw [hqueues i (Nat.ne_of_lt hlt), hold _ (Nat.ne_of_lt htail)]
      exact ⟨Nat.lt_succ_of_lt htail, hq⟩
    · rw [hnew, hself]
      exact ⟨Nat.lt_succ_self _, rfl⟩
  · rcases hsplit l hl with hlt | rfl
    · rw [hold l (Nat.ne_of_lt hlt)]
      have G : s.Grows ((s.newQueue sessionId).newCall call) l :=
        ⟨by rw [hold l (Nat.ne_of_lt hlt)], by rw [hold l (Nat.ne_of_lt hlt)],
          ⟨[], by simp [State.newCall, State.newQueue], nofun⟩, fun _ => id⟩
      exact G.phaseOk (H.ok l hlt)
    · rw [hself]
      exact fun e he => Nat.ne_of_lt (H.emitted e he).1
  · have hjlt : j < s.callCount := by
      rcases hsplit l hl with hlt | rfl
      · exact Nat.lt_trans hj hlt
      · exact hj
    rw [hold j (Nat.ne_of_lt hjlt)] at hqj ⊢
    rcases hsplit l hl with hlt | rfl
    · rw [hold l (Nat.ne_of_lt hlt)] at hql ⊢
      rw [hqueues i (hne hlt hql)] at herror
      exact H.order l hlt j hj i hqj hql herror
    · rw [hself] at hql
      cases hql
      exact absurd hqj (hnot j hjlt)
  · rcases hsplit l hl with hlt | rfl
    · rw [hold l (Nat.ne_of_lt hlt)] at hi hp
      rw [hqueues i (hne hlt hi)]
      exact H.failed l hlt i hi hp
    · rw [hself] at hp; cases hp
  · rcases hsplit l hl with hlt | rfl
    · rw [hold l (Nat.ne_of_lt hlt)] at hp ⊢
      obtain ⟨hpl, hq, hbetween⟩ := H.previous l hlt p hp
      rw [hold p (Nat.ne_of_lt (Nat.lt_trans hpl hlt))]
      refine ⟨hpl, hq, fun j hpj hjl => ?_⟩
      rw [hold j (Nat.ne_of_lt (Nat.lt_trans hjl hlt))]
      exact hbetween j hpj hjl
    · rw [hself] at hp; cases hp
  · rw [hget] at hx
    split at hx
    · rename_i heq
      cases hx
      rw [hnew]
      refine ⟨Nat.lt_succ_self _, heq.symm, rfl, fun l hl _ => ?_⟩
      rcases hsplit l hl with hlt | rfl
      · refine .inr fun j hj hqj => ?_
        rcases hsplit j hj with hjlt | rfl
        · rw [hold j (Nat.ne_of_lt hjlt)] at hqj
          exact absurd hqj (hnot j hjlt)
        · exact hlt
      · rw [hself]
        exact .inl rfl
    · rename_i hx'
      obtain ⟨hi, hsession, herror, hcalls⟩ := H.registered x i hx
      rw [hqueues i (Nat.ne_of_lt hi)]
      refine ⟨Nat.lt_succ_of_lt hi, hsession, herror, fun l hl hlx => ?_⟩
      rcases hsplit l hl with hlt | rfl
      · rw [hold l (Nat.ne_of_lt hlt)] at hlx ⊢
        refine (hcalls l hlt hlx).imp_right fun hbefore j hj hqj => ?_
        rcases hsplit j hj with hjlt | rfl
        · rw [hold j (Nat.ne_of_lt hjlt)] at hqj
          exact hbefore j hjlt hqj
        · exact hlt
      · rw [hself] at hlx
        exact absurd hlx.symm hx'
  · rcases Nat.lt_succ_iff_lt_or_eq.mp hi with hlt | rfl
    · rw [hqueues i (Nat.ne_of_lt hlt)] at herror ⊢
      rcases H.unregistered i hlt herror with hreg | hdone
      · left
        rw [hget, if_neg, hreg]
        rintro heq
        rw [heq, hnone] at hreg
        cases hreg
      · refine .inr fun l hl hql => ?_
        rcases hsplit l hl with hlt' | rfl
        · rw [hold l (Nat.ne_of_lt hlt')] at hql ⊢
          exact hdone l hlt' hql
        · rw [hself] at hql
          cases hql
          exact absurd hlt (Nat.lt_irrefl _)
    · left
      rw [hnew, hget, if_pos rfl]

theorem Inv.enqueue (H : Inv s) (sessionId : String) (chunks : List String) (throws : Bool) :
    Inv (s.enqueue sessionId chunks throws) ∧ s.Emits (s.enqueue sessionId chunks throws) := by
  rw [State.enqueue.eq_def]
  split
  · rename_i queue hget
    exact ⟨H.newCall _ (.inr ⟨rfl, queue, rfl, hget, rfl, rfl⟩), .of_eq rfl⟩
  rename_i hnone
  split
  · rename_i chunk
    split
    · exact ⟨H, .of_eq rfl⟩
    · have H₁ : Inv (s.newCall ⟨sessionId, none, [chunk], none, .unqueued⟩) :=
        H.newCall ⟨sessionId, none, [chunk], none, .unqueued⟩
          (.inl ⟨rfl, rfl, rfl, rfl, hnone⟩)
      have hself := s.newCall_self ⟨sessionId, none, [chunk], none, .unqueued⟩
      have hbefore : ∀ e ∈ s.emissions, e.call < s.callCount := fun e he => (H.emitted e he).1
      refine ⟨H₁.emit (Nat.lt_succ_self _) (.inr (by rw [hself])) ?_
        (fun e he _ => .inl (hbefore e he)), .single rfl ?_⟩
      · rw [hself]
        rfl
      · rw [hself]
        refine ⟨fun e he _ => .inl (hbefore e he), fun id e he hcall _ => ?_, nofun,
          fun l hl i _ hqk => ?_⟩
        · exact absurd hcall (Nat.ne_of_lt (hbefore e (List.mem_of_getElem? he)))
        · cases (congrArg Call.queue hself).symm.trans hqk
  · have H₁ := H.newQueue chunks hnone
    have hself : ((s.newQueue sessionId).newCall
        ⟨sessionId, some s.queueCount, chunks, none, .waiting⟩).calls s.callCount = _ :=
      (s.newQueue sessionId).newCall_self _
    have hbefore : ∀ e ∈ s.emissions, e.call ≠ s.callCount := fun e he =>
      Nat.ne_of_lt (H.emitted e he).1
    have R : ((s.newQueue sessionId).newCall
        ⟨sessionId, some s.queueCount, chunks, none, .waiting⟩).Ready s.callCount s.queueCount
          chunks := by
      refine ⟨Nat.lt_succ_self _, by rw [hself], by rw [hself]; exact nofun, ?_,
        fun id e he hcall _ => ?_, fun _ l hl hql => ?_⟩
      · rw [State.Sending, hself]
        refine ⟨Nat.le_refl _, by simp, fun j hj => by simp at hj, fun e he hcall => ?_⟩
        exact absurd hcall (hbefore e he)
      · exact absurd hcall (hbefore e (List.mem_of_getElem? he))
      · have hcall : ((s.newQueue sessionId).newCall
            ⟨sessionId, some s.queueCount, chunks, none, .waiting⟩).calls l = s.calls l :=
          (s.newQueue sessionId).newCall_of_ne _ (Nat.ne_of_lt hl)
        rw [hcall] at hql
        exact absurd (H.queued l hl _ hql).1 (Nat.lt_irrefl _)
    obtain ⟨H₂, hok⟩ := H₁.transmit R 0 throws
    exact ⟨H₂, hok.congr rfl rfl⟩

theorem State.cancelAll_frame (s : State) :
    s.cancelAll.emissions = s.emissions ∧ s.cancelAll.answers = s.answers := by
  rw [cancelAll]
  generalize s.sessionQueues.values = queues
  induction queues generalizing s with
  | nil => exact ⟨rfl, rfl⟩
  | cons queue queues ih =>
    obtain ⟨-, -, hemissions, hanswers⟩ := s.cancelQueue_frame queue
    exact ⟨(ih _).1.trans hemissions, (ih _).2.trans hanswers⟩

theorem Inv.observeSocket (H : Inv s) : Inv s.observeSocket := by
  rw [State.observeSocket]
  split
  · exact H
  · exact H.cancelAll.aside rfl rfl rfl rfl rfl rfl fun _ => id

theorem State.observeSocket_frame (s : State) :
    s.observeSocket.emissions = s.emissions ∧ s.observeSocket.answers = s.answers := by
  rw [observeSocket]
  split
  · exact ⟨rfl, rfl⟩
  · exact s.cancelAll_frame

theorem State.cancelSession_emissions (s : State) (sessionId : String) :
    (s.cancelSession sessionId).emissions = s.emissions := by
  rw [cancelSession]
  split
  · exact (s.cancelQueue_frame _).2.2.1
  · rfl

theorem Inv.send (H : Inv s) (maxBytes : Nat) (sessionId value : String) (throws : Bool) :
    Inv (s.send maxBytes sessionId value throws) ∧
      s.Emits (s.send maxBytes sessionId value throws) := by
  have H₁ := H.observeSocket
  obtain ⟨hemissions, hanswers⟩ := s.observeSocket_frame
  simp only [State.send]
  split
  · exact ⟨H₁, .of_eq hemissions⟩
  split
  · exact ⟨H₁, .of_eq hemissions⟩
  split
  · exact ⟨H₁.cancelSession sessionId,
      .of_eq ((State.cancelSession_emissions _ _).trans hemissions)⟩
  · rename_i chunks _
    obtain ⟨H₂, hok⟩ := H₁.enqueue sessionId chunks throws
    exact ⟨H₂, hok.congr hemissions hanswers⟩

/-! ## Runs -/

theorem Inv.step (H : Inv s) {maxBytes : Nat} {action : Action}
    (h : s.step maxBytes action = some s') :
    Inv s' ∧ s.Emits s' := by
  cases action with
  | send sessionId value throws =>
    have hsend := H.send maxBytes sessionId value throws
    rw [Option.some.inj h] at hsend
    exact hsend
  | acknowledge emission ack =>
    refine ⟨H.acknowledge h, .of_eq ?_⟩
    simp only [State.step, State.acknowledge] at h
    split at h
    · cases h
    split at h
    · split at h <;> (cases h; rfl)
    · cases h; rfl
  | timer call =>
    refine ⟨H.timer h, .of_eq ?_⟩
    simp only [State.step, State.timer] at h
    split at h <;> (cases h; try rfl)
  | resume call throws => exact H.resume h
  | cleanup call =>
    refine ⟨H.cleanup h, .of_eq ?_⟩
    simp only [State.step, State.cleanup] at h
    split at h
    · cases h
      simp only [State.unregister]
      split
      · split <;> rfl
      · rfl
    · cases h
  | cancelSession sessionId =>
    cases h
    exact ⟨H.cancelSession sessionId, .of_eq (State.cancelSession_emissions _ _)⟩
  | connect socket =>
    cases h
    exact ⟨H.aside rfl rfl rfl rfl rfl rfl fun _ => id, .of_eq rfl⟩
  | disconnect socket =>
    cases h
    have H₁ : Inv { s with connected := Function.update s.connected socket false } :=
      H.aside rfl rfl rfl rfl rfl rfl fun _ => id
    refine ⟨?_, .of_eq ?_⟩
    · simp only [State.disconnect]
      split
      · exact H₁.cancelAll
      · exact H₁
    · simp only [State.disconnect]
      split
      · exact (State.cancelAll_frame _).1
      · rfl
  | replaceSocket socket =>
    cases h
    exact ⟨H.aside rfl rfl rfl rfl rfl rfl fun _ => id, .of_eq rfl⟩

theorem reachable_inv {chunkBytes : Nat} (h : (system chunkBytes).Reachable s) : Inv s :=
  h.invariant (fun _ hs => hs ▸ Inv.init) fun _ _ _ H hs => (H.step hs).1

/-- For every interleaving: what is emitted for a session follows the order of the calls and the
chunks and never interleaves two calls; a chunk is emitted again only after the server has rejected
every earlier emission of it because of backpressure; and a chunk is emitted only after the earlier
chunks of its value, and all chunks of the earlier values of its queue, were accepted. -/
theorem input_order {chunkBytes : Nat} (h : (system chunkBytes).Reachable s) :
    (s.emissions.Pairwise fun e e' => e.sessionId = e'.sessionId →
      e.call < e'.call ∨ e.call = e'.call ∧ e.index ≤ e'.index) ∧
    (∀ e ∈ s.emissions, (s.calls e.call).sessionId = e.sessionId ∧
      (s.calls e.call).chunks[e.index]? = some e.chunk) ∧
    ∀ action s', s.step chunkBytes action = some s' →
      ∃ new, s'.emissions = s.emissions ++ new ∧ ∀ e ∈ new,
        (∀ id e', s.emissions[id]? = some e' → e'.call = e.call → e'.index = e.index →
          s.Rejected id) ∧
        (∀ j < e.index, s.Accepted e.call j) ∧
        ∀ l < e.call, ∀ i, (s'.calls l).queue = some i → (s'.calls e.call).queue = some i →
          ∀ j < (s'.calls l).chunks.length, s.Accepted l j := by
  have H := reachable_inv h
  refine ⟨H.ordered, fun e he => (H.emitted e he).2, fun action s' hs => ?_⟩
  obtain ⟨new, hnew, hok⟩ := (H.step hs).2
  exact ⟨new, hnew, fun e he => ⟨(hok e he).retried, (hok e he).accepted, (hok e he).earlier⟩⟩

/-- A paste of two chunks whose second chunk is rejected once, and a key pressed meanwhile. -/
def paste : List Action :=
  [.connect 0, .send "s" "abcd" false, .send "s" "\r" false, .acknowledge 0 ⟨true, ""⟩,
    .resume 0 false, .acknowledge 1 ⟨false, "ssh_input_backpressure"⟩, .resume 0 false, .timer 0,
    .resume 0 false, .acknowledge 2 ⟨true, ""⟩, .resume 0 false]

theorem input_order_paste : ∃ s, (system 2).Reachable s ∧
    s.emissions.map (·.chunk) = ["ab", "cd", "cd"] ∧
    ∃ s', s.step 2 (.resume 1 false) = some s' ∧
      s'.emissions = s.emissions ++ [⟨"s", 1, 0, "\r"⟩] ∧ s.Accepted 0 0 ∧ s.Accepted 0 1 := by
  have hexec : (paste.foldlM (State.step 2) .init).any (fun s => decide <|
      s.emissions.map (·.chunk) = ["ab", "cd", "cd"] ∧ (s.calls 0).chunks = ["ab", "cd"] ∧
      (s.calls 0).queue = some 0 ∧ (s.step 2 (.resume 1 false)).any (fun s' => decide <|
        s'.emissions = s.emissions ++ [⟨"s", 1, 0, "\r"⟩] ∧ (s'.calls 1).queue = some 0 ∧
        (s'.calls 0).queue = some 0 ∧ (s'.calls 0).chunks.length = 2) = true) = true := by
    decide
  obtain ⟨s, hs, hd⟩ := (Option.any_eq_true _ _).mp hexec
  obtain ⟨hchunks, -, -, hd⟩ := of_decide_eq_true hd
  obtain ⟨s', hs', hd⟩ := (Option.any_eq_true _ _).mp hd
  obtain ⟨hemissions, hq, hq', hlength⟩ := of_decide_eq_true hd
  have hreach : (system 2).Reachable s :=
    (System.Reachable.init rfl).run (System.run_of_foldlM (fun _ _ _ => id) hs)
  obtain ⟨-, -, hstep⟩ := input_order hreach
  obtain ⟨new, hnew, hok⟩ := hstep _ _ hs'
  have hmem : (⟨"s", 1, 0, "\r"⟩ : Emission) ∈ new := by
    rw [List.append_cancel_left (hnew.symm.trans hemissions)]
    exact List.mem_singleton.mpr rfl
  obtain ⟨-, -, hearlier⟩ := hok _ hmem
  exact ⟨s, hreach, hchunks, s', hs', hemissions,
    hearlier 0 (by decide) 0 hq' hq 0 (by rw [hlength]; decide),
    hearlier 0 (by decide) 0 hq' hq 1 (by rw [hlength]; decide)⟩

end WebSSH.SSHInput
