import Mathlib
import WebSSH.Attempt.Gateway
import WebSSH.Attempt.Ownership
import WebSSH.Lib.History

/-!
# What the worker and the sockets may rely on

Of a gateway attempt only the exchange matters: who owns it, what is prompted, queued and
unacknowledged, and the log. An action on the attempt is a step of the exchange, and the guarantees
follow from the steps.
-/

namespace WebSSH.SSHAttempt
open Lib Lib.Python

/-! ## The exchange -/

/-- What the sides of a gateway attempt can see of it. -/
structure Exchange where
  userId : String
  sid : String
  cancelled : Bool
  prompt : Option Prompt
  responses : Option (List String)
  /-- The challenges whose calls wait. -/
  waiting : List Nat
  challenges : Nat
  inputs : List Bytes
  inputBytes : Nat
  sequence : Nat
  unacked : List Nat
  log : List GatewayEvent

namespace Exchange

inductive Step (x : Exchange) : Exchange → Prop
  | none : Step x x
  | challenged (id : String) (prompts : Nat) (h : x.cancelled = false) (hprompt : x.prompt = none) :
    Step x { x with
      prompt := some ⟨x.challenges, id, prompts⟩
      responses := none
      waiting := x.waiting ++ [x.challenges]
      challenges := x.challenges + 1
      log := x.log ++ [.challenged x.challenges id prompts] }
  | answered (prompt : Prompt) (answers : List String) (h : x.cancelled = false)
    (hprompt : x.prompt = some prompt) (hresponses : x.responses = none)
    (hlength : answers.length = prompt.prompts) :
    Step x { x with
      responses := some answers
      log := x.log ++ [.answered prompt.call x.userId x.sid prompt.id answers] }
  | returned (call : Nat) (answers : List String) (before after : List Nat)
    (hwaiting : x.waiting = before ++ call :: after) (hresponses : x.responses = some answers) :
    Step x { x with
      prompt := none
      responses := none
      waiting := before ++ after
      log := x.log ++ [.returned call answers] }
  | abandoned (call : Nat) (before after : List Nat) (hwaiting : x.waiting = before ++ call :: after) :
    Step x { x with
      prompt := none
      responses := none
      waiting := before ++ after
      log := x.log ++ [.abandoned call] }
  | accepted (data : Bytes) (h : x.cancelled = false) (hbytes : x.inputBytes + data.length ≤ 8192) :
    Step x { x with
      inputBytes := x.inputBytes + data.length
      inputs := x.inputs ++ [data]
      log := x.log ++ [.accepted data] }
  | taken (data : Bytes) (rest : List Bytes) (h : x.inputs = data :: rest) :
    Step x { x with inputs := rest, log := x.log ++ [.taken data] }
  | frame (data : Bytes) (h : x.unacked.length < 4) :
    Step x { x with
      sequence := x.sequence + 1
      unacked := x.unacked ++ [x.sequence + 1]
      log := x.log ++ [.frame (x.sequence + 1) data] }
  | acked (sequence : Nat) (h : sequence ∈ x.unacked) :
    Step x { x with
      unacked := x.unacked.erase sequence
      log := x.log ++ [.acked sequence] }
  | cancelled :
    Step x { x with
      cancelled := true
      responses := none
      inputs := []
      log := x.log ++ [.cancelled] }

end Exchange

/-! ## Actions are steps of the exchange -/

def Waiting.call? : Waiting → Option Nat
  | .challenge call _ => some call
  | .output .. => none

namespace Gateway
variable {R : Type} [DecidableEq R]

def exchange (g : Gateway R) : Exchange where
  userId := g.attempt.registryKey.userId
  sid := g.attempt.registryKey.sid
  cancelled := g.attempt.cancelEvent
  prompt := g.prompt
  responses := g.responses
  waiting := g.calls.filterMap Waiting.call?
  challenges := g.challenges
  inputs := g.inputs
  inputBytes := g.inputBytes
  sequence := g.sequence
  unacked := g.unacked
  log := g.log

variable {g : Gateway R}

omit [DecidableEq R] in
theorem not_cancelled_of_not_stopped {enabled : Bool} (h : g.stopped enabled = false) :
    g.attempt.cancelEvent = false :=
  (Attempt.cancelEvent_of_not_isSet h).1

omit [DecidableEq R] in
theorem exchange_challenge (enabled : Bool) (token : String) (title instructions : Value)
    (prompts : List (Option String)) :
    g.exchange.Step (g.challenge enabled token title instructions prompts).2.exchange := by
  unfold challenge
  split
  · split
    · exact .none
    split
    · exact .none
    split
    · exact .none
    next hstopped =>
    split
    · exact .none
    next hprompt =>
    have hstep := Exchange.Step.challenged (x := g.exchange) token prompts.length
      (not_cancelled_of_not_stopped (Bool.eq_false_iff.mpr hstopped))
      (Option.not_isSome_iff_eq_none.mp hprompt)
    have hwaiting : (g.calls ++ [Waiting.challenge g.challenges g.challengeDeadline]).filterMap Waiting.call? =
        g.calls.filterMap Waiting.call? ++ [g.challenges] := by
      rw [List.filterMap_append]
      rfl
    show g.exchange.Step { g.exchange with
      prompt := some ⟨g.challenges, token, prompts.length⟩
      responses := none
      waiting := (g.calls ++ [Waiting.challenge g.challenges g.challengeDeadline]).filterMap
        Waiting.call?
      challenges := g.challenges + 1
      log := g.log ++ [.challenged g.challenges token prompts.length] }
    rw [hwaiting]
    exact hstep
  · exact .none

omit [DecidableEq R] in
theorem exchange_sendFrame (data : Bytes) (h : g.unacked.length < 4) :
    g.exchange.Step (g.sendFrame data).exchange := .frame data h

/-- A call is taken off the list. -/
theorem filterMap_eraseIdx {α β : Type} {f : α → Option β} {l : List α} {k : Nat} {a : α}
    (h : l[k]? = some a) :
    ∃ before after, l.filterMap f = before ++ (f a).toList ++ after ∧
      (l.eraseIdx k).filterMap f = before ++ after := by
  obtain ⟨hk, rfl⟩ := List.getElem?_eq_some_iff.mp h
  refine ⟨(l.take k).filterMap f, (l.drop (k + 1)).filterMap f, ?_, ?_⟩
  · have hsplit : l = l.take k ++ l[k] :: l.drop (k + 1) := by
      rw [List.getElem_cons_drop, List.take_append_drop]
    conv_lhs => rw [hsplit]
    rw [List.filterMap_append, List.filterMap_cons, List.append_assoc]
    cases f l[k] with
    | none => rfl
    | some b => rfl
  · rw [List.eraseIdx_eq_take_drop_succ, List.filterMap_append]

omit [DecidableEq R] in
theorem exchange_wake (enabled : Bool) (k : Nat) :
    g.exchange.Step (g.wake enabled k).2.exchange := by
  unfold wake
  split
  · exact .none
  · next call deadline hcall =>
    obtain ⟨before, after, hwaiting, herased⟩ := filterMap_eraseIdx (f := Waiting.call?) hcall
    have hwaiting : g.exchange.waiting = before ++ call :: after := by
      show g.calls.filterMap Waiting.call? = _
      rw [hwaiting, List.append_assoc]
      rfl
    dsimp only
    split
    · next responses hresponses =>
      have hstep := Exchange.Step.returned (x := g.exchange) call responses before after hwaiting
        hresponses
      rw [← herased] at hstep
      exact hstep
    · split
      · have hstep := Exchange.Step.abandoned (x := g.exchange) call before after hwaiting
        rw [← herased] at hstep
        exact hstep
      · exact .none
  · next data deadline hcall =>
    obtain ⟨before, after, hwaiting, herased⟩ := filterMap_eraseIdx (f := Waiting.call?) hcall
    have hsame : (g.calls.eraseIdx k).filterMap Waiting.call? = g.calls.filterMap Waiting.call? := by
      rw [herased, hwaiting]
      exact congrArg (· ++ after) (List.append_nil before).symm
    have hended : ({ g with calls := g.calls.eraseIdx k } : Gateway R).exchange = g.exchange := by
      unfold exchange
      rw [hsame]
    dsimp only
    split
    · split
      · rw [hended]
        exact .none
      · exact .none
    · next hroom =>
      have hstep := exchange_sendFrame (g := { g with calls := g.calls.eraseIdx k }) data
        (Nat.lt_of_not_le hroom)
      rw [hended] at hstep
      exact hstep

theorem length_texts {items : List Value} {answers : List String} (h : texts items = some answers) :
    answers.length = items.length := by
  induction items generalizing answers with
  | nil =>
    cases h
    rfl
  | cons item items ih =>
    unfold texts at h ih
    rw [List.mapM_cons] at h
    obtain ⟨first, -, h⟩ := Option.bind_eq_some_iff.mp h
    obtain ⟨rest, hrest, h⟩ := Option.bind_eq_some_iff.mp h
    cases h
    exact congrArg Nat.succ (ih hrest)

omit [DecidableEq R] in
theorem exchange_answer (userId sid id : String) (answers : Texts) :
    g.exchange.Step (g.answer userId sid id answers).2.exchange := by
  unfold answer
  split
  · exact .none
  next howner =>
  rw [not_or, not_or, not_or, Decidable.not_not, Decidable.not_not] at howner
  obtain ⟨hcancel, -, rfl, rfl⟩ := howner
  split
  · next prompt items hprompt =>
    split
    · exact .none
    next hid =>
    rw [not_or, Decidable.not_not] at hid
    obtain ⟨rfl, hresponses⟩ := hid
    split
    · exact .none
    next hlength =>
    split
    · exact .none
    next answers htexts =>
    split
    · exact .none
    have hlen : answers.length = prompt.prompts := by
      rw [← Decidable.not_not.mp hlength]
      exact length_texts htexts
    exact .answered prompt answers (Bool.eq_false_iff.mpr hcancel) hprompt
      (Option.not_isSome_iff_eq_none.mp hresponses) hlen
  · exact .none

omit [DecidableEq R] in
theorem exchange_input (value : Value) : g.exchange.Step (g.input value).2.exchange := by
  unfold input
  split
  · dsimp only
    split
    · exact .none
    next hopen =>
    split
    · exact .none
    next hfits =>
    rw [not_or, not_or] at hopen hfits
    exact .accepted _ (Bool.eq_false_iff.mpr hopen.2.1) (Nat.le_of_not_lt hfits.2.2)
  · exact .none

omit [DecidableEq R] in
theorem exchange_takeInput : g.exchange.Step g.takeInput.2.exchange := by
  unfold takeInput
  split
  · exact .none
  · next data rest h => exact .taken data rest h

omit [DecidableEq R] in
theorem exchange_output (enabled : Bool) (data : Bytes) :
    g.exchange.Step (g.output enabled data).2.exchange := by
  unfold output
  split
  · exact .none
  dsimp only
  split
  · exact .none
  split
  · have hsame : (g.calls ++ [Waiting.output data (g.now + 5)]).filterMap Waiting.call? =
        g.calls.filterMap Waiting.call? := by
      rw [List.filterMap_append]
      exact List.append_nil _
    unfold exchange
    dsimp only
    rw [hsame]
    exact .none
  · next hroom =>
    exact exchange_sendFrame (g := { g with outputBytes := g.outputBytes + data.length }) data
      (Nat.lt_of_not_le hroom)

omit [DecidableEq R] in
theorem exchange_ack (sequence : Value) : g.exchange.Step (g.ack sequence).2.exchange := by
  unfold ack
  split
  · split
    · next h => exact .acked _ h.2
    · exact .none
  · exact .none

omit [DecidableEq R] in
theorem exchange_cancel (reason : String) (finish : Option Caller) :
    g.exchange.Step (g.cancel reason finish).2.exchange := by
  unfold cancel Attempt.cancel
  split
  · next attempt hresult =>
    split at hresult
    · cases finish with
      | none => cases hresult
      | some caller => cases hresult
    · cases hresult
      exact .cancelled
  · next result attempt hne hresult =>
    split at hresult
    · cases finish with
      | none =>
        cases hresult
        exact .none
      | some caller =>
        cases hresult
        exact .none
    · cases hresult
      exact (hne rfl).elim

/-- The owner and the cancellation of the attempt stay. -/
structure Kept (a a' : Attempt R) : Prop where
  key : a'.registryKey = a.registryKey
  cancelEvent : a'.cancelEvent = a.cancelEvent

omit [DecidableEq R] in
theorem exchange_kept {attempt : Attempt R} (h : Kept g.attempt attempt) :
    g.exchange.Step ({ g with attempt } : Gateway R).exchange := by
  have hsame : ({ g with attempt } : Gateway R).exchange = g.exchange := by
    unfold exchange
    dsimp only
    rw [h.key, h.cancelEvent]
  rw [hsame]
  exact .none

omit [DecidableEq R] in
theorem kept_commitIfActive (a : Attempt R) (now : Nat) (refused : Bool) :
    Kept a (a.commitIfActive now refused).2 := by
  unfold Attempt.commitIfActive
  split
  · exact ⟨rfl, rfl⟩
  · exact ⟨rfl, rfl⟩

theorem kept_own (a : Attempt R) (now : Nat) (refused : Bool) (resource : R) :
    Kept a (a.own now refused resource).2 := by
  unfold Attempt.own
  split
  · exact ⟨rfl, rfl⟩
  · exact ⟨rfl, rfl⟩

theorem kept_handoff (a : Attempt R) (now : Nat) (refused : Bool) (resources : List R) :
    Kept a (a.handoff now refused resources).2 := by
  unfold Attempt.handoff
  split
  · exact ⟨rfl, rfl⟩
  · refine List.foldlRecOn resources Attempt.handoffOne (motive := Kept a) ⟨rfl, rfl⟩ ?_
    intro b hb resource _
    unfold Attempt.handoffOne
    split
    · exact ⟨hb.key, hb.cancelEvent⟩
    · exact hb

omit [DecidableEq R] in
theorem kept_resume (a : Attempt R) (call : Call R) : Kept a (a.resume call).1 := by
  unfold Attempt.resume
  split
  · exact ⟨rfl, rfl⟩
  · exact ⟨rfl, rfl⟩
  · exact ⟨rfl, rfl⟩
  · exact ⟨rfl, rfl⟩
  · split
    · exact ⟨rfl, rfl⟩
    · exact ⟨rfl, rfl⟩
  · exact ⟨rfl, rfl⟩
  · exact ⟨rfl, rfl⟩

omit [DecidableEq R] in
theorem exchange_resume (k : Nat) : g.exchange.Step (g.resume k).2.exchange := by
  unfold resume
  split
  · exact .none
  · next call hcall =>
    have hkept := kept_resume { g.attempt with calls := g.attempt.calls.eraseIdx k } call
    exact exchange_kept ⟨hkept.key, hkept.cancelEvent⟩

/-- Every action is a step of the exchange. -/
theorem exchange_step (action : GatewayAction R) : g.exchange.Step (g.step action).2.exchange := by
  cases action with
  | challenge enabled token title instructions prompts =>
    exact exchange_challenge enabled token title instructions prompts
  | wake enabled k => exact exchange_wake enabled k
  | answer userId sid id answers => exact exchange_answer userId sid id answers
  | startSetup enabled =>
    show g.exchange.Step (g.startSetup enabled).2.exchange
    unfold startSetup
    split
    · exact .none
    · exact .none
  | input value => exact exchange_input value
  | takeInput => exact exchange_takeInput
  | output enabled data => exact exchange_output enabled data
  | ack sequence => exact exchange_ack sequence
  | cancel reason => exact exchange_cancel reason none
  | finish => exact exchange_cancel "finished" (some .direct)
  | resume k => exact exchange_resume k
  | bindRuntime isSet => exact exchange_kept ⟨rfl, rfl⟩
  | runtimeSignal => exact exchange_kept ⟨rfl, rfl⟩
  | commitIfActive enabled => exact exchange_kept (kept_commitIfActive _ _ _)
  | own enabled resource => exact exchange_kept (kept_own _ _ _ _)
  | handoff enabled resources => exact exchange_kept (kept_handoff _ _ _ _)
  | tick => exact .none

end Gateway

/-! ## What every exchange keeps -/

namespace GatewayEvent

/-- The challenge a `True` of `answer` is for. -/
def answeredCall? : GatewayEvent → Option Nat
  | .answered call _ _ _ _ => some call
  | _ => none

/-- The challenge that ends. -/
def endedCall? : GatewayEvent → Option Nat
  | .returned call _ => some call
  | .abandoned call => some call
  | _ => none

def accepted? : GatewayEvent → Option Bytes
  | .accepted data => some data
  | _ => none

def taken? : GatewayEvent → Option Bytes
  | .taken data => some data
  | _ => none

def frame? : GatewayEvent → Option Nat
  | .frame sequence _ => some sequence
  | _ => none

def acked? : GatewayEvent → Option Nat
  | .acked sequence => some sequence
  | _ => none

/-- What may still happen after a cancellation. -/
def Late : GatewayEvent → Prop
  | .abandoned _ => True
  | .frame _ _ => True
  | .acked _ => True
  | .cancelled => True
  | _ => False

end GatewayEvent

open GatewayEvent

namespace Exchange

/-- A challenge waits, for the answers of its owner. -/
structure Waits (x : Exchange) (prompt : Prompt) : Prop where
  waiting : x.waiting = [prompt.call]
  fresh : prompt.call < x.challenges
  challenged : .challenged prompt.call prompt.id prompt.prompts ∈ x.log
  pending : prompt.call ∉ x.log.filterMap endedCall?
  unanswered : x.responses = none → x.cancelled = false →
    prompt.call ∉ x.log.filterMap answeredCall?
  answered : ∀ answers ∈ x.responses, x.cancelled = false ∧ answers.length = prompt.prompts ∧
    Before (.challenged prompt.call prompt.id prompt.prompts)
      (.answered prompt.call x.userId x.sid prompt.id answers) x.log

/-- A challenge that has returned was answered by its owner while it waited. -/
def Answered (x : Exchange) (call : Nat) (answers : List String) : Prop :=
  ∃ id, Before (.challenged call id answers.length) (.answered call x.userId x.sid id answers) x.log ∧
    Before (.answered call x.userId x.sid id answers) (.returned call answers) x.log

structure Prompting (x : Exchange) : Prop where
  idle : x.prompt = none → x.waiting = [] ∧ x.responses = none
  prompt : ∀ prompt ∈ x.prompt, x.Waits prompt
  answeredCalls : ∀ call ∈ x.log.filterMap answeredCall?, call < x.challenges
  endedCalls : ∀ call ∈ x.log.filterMap endedCall?, call < x.challenges
  returned : ∀ call answers, .returned call answers ∈ x.log → x.Answered call answers
  answeredOnce : (x.log.filterMap answeredCall?).Nodup
  endedOnce : (x.log.filterMap endedCall?).Nodup
  stale : ∀ ended event, ended.endedCall? = event.answeredCall? → event.answeredCall?.isSome →
    ¬ Before ended event x.log

structure Cancelling (x : Exchange) : Prop where
  cancelled : .cancelled ∈ x.log ↔ x.cancelled = true
  late : ∀ event, ¬ event.Late → ¬ Before .cancelled event x.log

structure Queue (x : Exchange) : Prop where
  cleared : x.cancelled = true → x.inputs = []
  taken : x.log.filterMap taken? ++ x.inputs <+: x.log.filterMap accepted?
  whole : x.cancelled = false → x.log.filterMap taken? ++ x.inputs = x.log.filterMap accepted?
  bytes : (x.log.filterMap accepted?).flatten.length = x.inputBytes
  limit : x.inputBytes ≤ 8192

structure Windowed (x : Exchange) : Prop where
  window : x.unacked.length ≤ 4
  frames : x.log.filterMap frame? = List.range' 1 x.sequence
  acknowledged : (x.log.filterMap acked? ++ x.unacked).Perm (x.log.filterMap frame?)

variable {x : Exchange}

theorem filterMap_concat_none {β : Type} {f : GatewayEvent → Option β} {event : GatewayEvent}
    (h : f event = none) (log : List GatewayEvent) :
    (log ++ [event]).filterMap f = log.filterMap f := by
  rw [List.filterMap_append, List.filterMap_cons_none h]
  exact List.append_nil _

theorem filterMap_concat_some {β : Type} {f : GatewayEvent → Option β} {event : GatewayEvent} {b : β}
    (h : f event = some b) (log : List GatewayEvent) :
    (log ++ [event]).filterMap f = log.filterMap f ++ [b] := by
  rw [List.filterMap_append, List.filterMap_cons_some h]
  rfl

/-! ### The window -/

theorem Windowed.aside (H : x.Windowed) {event : GatewayEvent} (hf : event.frame? = none)
    (ha : event.acked? = none) (userId sid : String) (cancelled : Bool) (prompt : Option Prompt)
    (responses : Option (List String)) (waiting : List Nat) (challenges : Nat) (inputs : List Bytes)
    (inputBytes : Nat) :
    Windowed ⟨userId, sid, cancelled, prompt, responses, waiting, challenges, inputs, inputBytes,
      x.sequence, x.unacked, x.log ++ [event]⟩ where
  window := H.window
  frames := (filterMap_concat_none hf x.log).trans H.frames
  acknowledged := by
    show ((x.log ++ [event]).filterMap acked? ++ x.unacked).Perm ((x.log ++ [event]).filterMap frame?)
    rw [filterMap_concat_none hf, filterMap_concat_none ha]
    exact H.acknowledged

theorem Windowed.step (H : x.Windowed) {y : Exchange} (h : x.Step y) : y.Windowed := by
  cases h with
  | none => exact H
  | frame data h =>
    have hframes : (x.log ++ [GatewayEvent.frame (x.sequence + 1) data]).filterMap frame? =
        x.log.filterMap frame? ++ [x.sequence + 1] := filterMap_concat_some (by rfl) x.log
    have hacked : (x.log ++ [GatewayEvent.frame (x.sequence + 1) data]).filterMap acked? =
        x.log.filterMap acked? := filterMap_concat_none rfl x.log
    refine ⟨?_, ?_, ?_⟩
    · show (x.unacked ++ [x.sequence + 1]).length ≤ 4
      rw [List.length_append]
      exact h
    · refine hframes.trans ?_
      rw [H.frames, List.range'_1_concat, Nat.add_comm 1]
    · show (_ ++ (x.unacked ++ [x.sequence + 1])).Perm _
      rw [hframes, hacked, ← List.append_assoc]
      exact H.acknowledged.append_right _
  | acked sequence h =>
    have hacked : (x.log ++ [GatewayEvent.acked sequence]).filterMap acked? =
        x.log.filterMap acked? ++ [sequence] := filterMap_concat_some (by rfl) x.log
    have hframes : (x.log ++ [GatewayEvent.acked sequence]).filterMap frame? =
        x.log.filterMap frame? := filterMap_concat_none rfl x.log
    refine ⟨List.erase_sublist.length_le.trans H.window, hframes.trans H.frames, ?_⟩
    show (_ ++ x.unacked.erase sequence).Perm _
    rw [hframes, hacked, List.append_assoc]
    exact ((List.perm_cons_erase h).symm.append_left _).trans H.acknowledged
  | challenged | answered | returned | abandoned | accepted | taken | cancelled =>
    exact H.aside rfl rfl _ _ _ _ _ _ _ _ _

/-! ### Cancellation -/

/-- Whatever is late, or comes before a cancellation. -/
theorem Cancelling.concat (H : x.Cancelling) {event : GatewayEvent}
    (h : event.Late ∨ x.cancelled = false) :
    ∀ other, ¬ other.Late → ¬ Before .cancelled other (x.log ++ [event]) := by
  intro other hother hbefore
  rcases before_concat.mp hbefore with hbefore | ⟨hmem, rfl⟩
  · exact H.late other hother hbefore
  · rcases h with hlate | hnot
    · exact hother hlate
    · rw [H.cancelled.mp hmem] at hnot
      cases hnot

theorem Cancelling.cancelled_concat (H : x.Cancelling) {event : GatewayEvent}
    (h : GatewayEvent.cancelled ≠ event) :
    .cancelled ∈ x.log ++ [event] ↔ x.cancelled = true := by
  rw [List.mem_append, List.mem_singleton, or_iff_left h]
  exact H.cancelled

theorem Cancelling.step (H : x.Cancelling) (hqueue : x.Queue) (hprompt : x.Prompting) {y : Exchange}
    (h : x.Step y) : y.Cancelling := by
  cases h with
  | none => exact H
  | challenged id prompts h hprompt =>
    exact ⟨H.cancelled_concat (by rintro ⟨⟩), H.concat (.inr h)⟩
  | answered prompt answers h hprompt hresponses hlength =>
    exact ⟨H.cancelled_concat (by rintro ⟨⟩), H.concat (.inr h)⟩
  | returned call answers before after hwaiting hresponses =>
    have hnot : x.cancelled = false := by
      cases hp : x.prompt with
      | none =>
        rw [(hprompt.idle hp).2] at hresponses
        cases hresponses
      | some prompt => exact ((hprompt.prompt prompt hp).answered answers hresponses).1
    exact ⟨H.cancelled_concat (by rintro ⟨⟩), H.concat (.inr hnot)⟩
  | abandoned call before after hwaiting =>
    exact ⟨H.cancelled_concat (by rintro ⟨⟩), H.concat (.inl trivial)⟩
  | accepted data h hbytes =>
    exact ⟨H.cancelled_concat (by rintro ⟨⟩), H.concat (.inr h)⟩
  | taken data rest h =>
    have hnot : x.cancelled = false := by
      refine Bool.eq_false_iff.mpr fun hc => ?_
      rw [hqueue.cleared hc] at h
      cases h
    exact ⟨H.cancelled_concat (by rintro ⟨⟩), H.concat (.inr hnot)⟩
  | frame data h => exact ⟨H.cancelled_concat (by rintro ⟨⟩), H.concat (.inl trivial)⟩
  | acked sequence h => exact ⟨H.cancelled_concat (by rintro ⟨⟩), H.concat (.inl trivial)⟩
  | cancelled =>
    refine ⟨iff_of_true (List.mem_append_right _ List.mem_cons_self) rfl, H.concat (.inl trivial)⟩

/-! ### The queue -/

theorem Queue.aside (H : x.Queue) {event : GatewayEvent} (ha : event.accepted? = none)
    (ht : event.taken? = none) (prompt : Option Prompt)
    (responses : Option (List String)) (waiting : List Nat) (challenges : Nat)
    (sequence : Nat) (unacked : List Nat) :
    Queue ⟨x.userId, x.sid, x.cancelled, prompt, responses, waiting, challenges, x.inputs,
      x.inputBytes, sequence, unacked, x.log ++ [event]⟩ where
  cleared := H.cleared
  taken := by
    show (x.log ++ [event]).filterMap taken? ++ x.inputs <+: (x.log ++ [event]).filterMap accepted?
    rw [filterMap_concat_none ha, filterMap_concat_none ht]
    exact H.taken
  whole := by
    show _ → (x.log ++ [event]).filterMap taken? ++ x.inputs = (x.log ++ [event]).filterMap accepted?
    rw [filterMap_concat_none ha, filterMap_concat_none ht]
    exact H.whole
  bytes := by
    show ((x.log ++ [event]).filterMap accepted?).flatten.length = x.inputBytes
    rw [filterMap_concat_none ha]
    exact H.bytes
  limit := H.limit

theorem Queue.step (H : x.Queue) {y : Exchange} (h : x.Step y) : y.Queue := by
  cases h with
  | none => exact H
  | accepted data h hbytes =>
    have haccepted : (x.log ++ [GatewayEvent.accepted data]).filterMap accepted? =
        x.log.filterMap accepted? ++ [data] := filterMap_concat_some (by rfl) x.log
    have hwhole : (x.log ++ [GatewayEvent.accepted data]).filterMap taken? ++ (x.inputs ++ [data]) =
        (x.log ++ [GatewayEvent.accepted data]).filterMap accepted? := by
      rw [filterMap_concat_none rfl, haccepted, ← H.whole h, List.append_assoc]
    refine ⟨fun hc => ?_, ?_, fun _ => hwhole, ?_, hbytes⟩
    · have hc : x.cancelled = true := hc
      rw [h] at hc
      cases hc
    · exact hwhole ▸ List.prefix_refl _
    · show ((x.log ++ [GatewayEvent.accepted data]).filterMap accepted?).flatten.length = _
      rw [haccepted, List.flatten_append, List.length_append, H.bytes, List.flatten_singleton]
  | taken data rest h =>
    have htaken : (x.log ++ [GatewayEvent.taken data]).filterMap taken? ++ rest =
        x.log.filterMap taken? ++ x.inputs := by
      have hone : (x.log ++ [GatewayEvent.taken data]).filterMap taken? =
          x.log.filterMap taken? ++ [data] := filterMap_concat_some (by rfl) x.log
      rw [hone, h, List.append_assoc]
      rfl
    have haccepted : (x.log ++ [GatewayEvent.taken data]).filterMap accepted? =
        x.log.filterMap accepted? :=
      filterMap_concat_none rfl x.log
    refine ⟨fun hc => ?_, ?_, fun hc => ?_, ?_, H.limit⟩
    · rw [H.cleared hc] at h
      cases h
    · show (x.log ++ [GatewayEvent.taken data]).filterMap taken? ++ rest <+: _
      rw [htaken, haccepted]
      exact H.taken
    · show (x.log ++ [GatewayEvent.taken data]).filterMap taken? ++ rest = _
      rw [htaken, haccepted]
      exact H.whole hc
    · show ((x.log ++ [GatewayEvent.taken data]).filterMap accepted?).flatten.length = _
      rw [haccepted]
      exact H.bytes
  | cancelled =>
    refine ⟨fun _ => rfl, ?_, (fun hc => by cases hc), ?_, H.limit⟩
    · show (x.log ++ [GatewayEvent.cancelled]).filterMap taken? ++ [] <+:
        (x.log ++ [GatewayEvent.cancelled]).filterMap accepted?
      rw [filterMap_concat_none rfl, filterMap_concat_none rfl, List.append_nil]
      exact (List.prefix_append _ _).trans H.taken
    · show ((x.log ++ [GatewayEvent.cancelled]).filterMap accepted?).flatten.length = _
      rw [filterMap_concat_none rfl]
      exact H.bytes
  | challenged | answered | returned | abandoned | frame | acked =>
    exact H.aside rfl rfl _ _ _ _ _ _

/-! ### The challenges -/

section Challenges
variable {event : GatewayEvent} {prompt : Option Prompt} {responses : Option (List String)}
  {waiting : List Nat} {cancelled : Bool} {challenges inputBytes sequence : Nat} {inputs : List Bytes}
  {unacked : List Nat}

/-- The exchange after `event`, with the owner it had. -/
private abbrev after (x : Exchange) (event : GatewayEvent) (cancelled : Bool) (prompt : Option Prompt)
    (responses : Option (List String)) (waiting : List Nat) (challenges : Nat) (inputs : List Bytes)
    (inputBytes sequence : Nat) (unacked : List Nat) : Exchange :=
  ⟨x.userId, x.sid, cancelled, prompt, responses, waiting, challenges, inputs, inputBytes, sequence,
    unacked, x.log ++ [event]⟩

theorem Answered.concat {call : Nat} {answers : List String} (h : x.Answered call answers) :
    (x.after event cancelled prompt responses waiting challenges inputs inputBytes sequence
      unacked).Answered call answers := by
  obtain ⟨id, hchallenged, hreturned⟩ := h
  exact ⟨id, hchallenged.append _, hreturned.append _⟩

/-- An event that ends nothing adds no returned challenge. -/
theorem Prompting.returned_concat (H : x.Prompting) (h : event.endedCall? = none) (call : Nat)
    (answers : List String) (hmem : .returned call answers ∈ x.log ++ [event]) :
    (x.after event cancelled prompt responses waiting challenges inputs inputBytes sequence
      unacked).Answered call answers := by
  rcases List.mem_append.mp hmem with hmem | hmem
  · exact (H.returned call answers hmem).concat
  · rw [← List.mem_singleton.mp hmem] at h
    cases h

/-- No answer is added to a challenge that has ended. -/
theorem Prompting.stale_concat (H : x.Prompting)
    (h : ∀ call, event.answeredCall? = some call → call ∉ x.log.filterMap endedCall?)
    (ended other : GatewayEvent) (hsame : ended.endedCall? = other.answeredCall?)
    (hsome : other.answeredCall?.isSome) : ¬ Before ended other (x.log ++ [event]) := by
  intro hbefore
  rcases before_concat.mp hbefore with hbefore | ⟨hmem, rfl⟩
  · exact H.stale ended other hsame hsome hbefore
  · obtain ⟨call, hcall⟩ := Option.isSome_iff_exists.mp hsome
    exact h call hcall (List.mem_filterMap.mpr ⟨ended, hmem, hsame.trans hcall⟩)

/-- Anything else between the sides leaves the challenges alone. -/
theorem Prompting.aside (H : x.Prompting) (ha : event.answeredCall? = none)
    (he : event.endedCall? = none) :
    (x.after event x.cancelled x.prompt x.responses x.waiting x.challenges inputs inputBytes sequence
      unacked).Prompting where
  idle := H.idle
  prompt := by
    intro prompt hprompt
    have hwaits := H.prompt prompt hprompt
    exact {
      waiting := hwaits.waiting
      fresh := hwaits.fresh
      challenged := List.mem_append_left _ hwaits.challenged
      pending := by
        rw [filterMap_concat_none he]
        exact hwaits.pending
      unanswered := by
        rw [filterMap_concat_none ha]
        exact hwaits.unanswered
      answered := by
        intro answers hanswers
        obtain ⟨hnot, hlength, hbefore⟩ := hwaits.answered answers hanswers
        exact ⟨hnot, hlength, hbefore.append _⟩ }
  answeredCalls := by
    rw [filterMap_concat_none ha]
    exact H.answeredCalls
  endedCalls := by
    rw [filterMap_concat_none he]
    exact H.endedCalls
  returned := H.returned_concat he
  answeredOnce := by
    rw [filterMap_concat_none ha]
    exact H.answeredOnce
  endedOnce := by
    rw [filterMap_concat_none he]
    exact H.endedOnce
  stale := by
    refine H.stale_concat fun call hcall => ?_
    rw [ha] at hcall
    cases hcall

end Challenges

theorem Prompting.challenged (H : x.Prompting) (id : String) (prompts : Nat)
    (hprompt : x.prompt = none) :
    Prompting { x with
      prompt := some ⟨x.challenges, id, prompts⟩
      responses := none
      waiting := x.waiting ++ [x.challenges]
      challenges := x.challenges + 1
      log := x.log ++ [.challenged x.challenges id prompts] } where
  idle := fun h => by cases h
  prompt := by
    intro prompt hp
    cases hp
    exact {
      waiting := by
        rw [(H.idle hprompt).1]
        rfl
      fresh := Nat.lt_succ_self _
      challenged := List.mem_append_right _ List.mem_cons_self
      pending := by
        rw [filterMap_concat_none rfl]
        exact fun h => Nat.lt_irrefl _ (H.endedCalls _ h)
      unanswered := by
        rw [filterMap_concat_none rfl]
        exact fun _ _ h => Nat.lt_irrefl _ (H.answeredCalls _ h)
      answered := fun answers h => by cases h }
  answeredCalls := by
    rw [filterMap_concat_none rfl]
    exact fun call h => (H.answeredCalls call h).trans (Nat.lt_succ_self _)
  endedCalls := by
    rw [filterMap_concat_none rfl]
    exact fun call h => (H.endedCalls call h).trans (Nat.lt_succ_self _)
  returned := H.returned_concat rfl
  answeredOnce := by
    rw [filterMap_concat_none rfl]
    exact H.answeredOnce
  endedOnce := by
    rw [filterMap_concat_none rfl]
    exact H.endedOnce
  stale := H.stale_concat fun call h => by cases h

theorem Prompting.answered (H : x.Prompting) (prompt : Prompt) (answers : List String)
    (hnot : x.cancelled = false) (hprompt : x.prompt = some prompt) (hresponses : x.responses = none)
    (hlength : answers.length = prompt.prompts) :
    Prompting { x with
      responses := some answers
      log := x.log ++ [.answered prompt.call x.userId x.sid prompt.id answers] } := by
  have hwaits := H.prompt prompt hprompt
  have hunanswered := hwaits.unanswered hresponses hnot
  have hcalls : (x.log ++ [GatewayEvent.answered prompt.call x.userId x.sid prompt.id answers]).filterMap
      answeredCall? = x.log.filterMap answeredCall? ++ [prompt.call] :=
    filterMap_concat_some (by rfl) x.log
  exact {
    idle := by
      intro h
      rw [hprompt] at h
      cases h
    prompt := by
      intro other hother
      rw [hprompt] at hother
      cases hother
      exact {
        waiting := hwaits.waiting
        fresh := hwaits.fresh
        challenged := List.mem_append_left _ hwaits.challenged
        pending := by
          rw [filterMap_concat_none rfl]
          exact hwaits.pending
        unanswered := fun h => by cases h
        answered := by
          intro given hgiven
          cases hgiven
          exact ⟨hnot, hlength, before_concat.mpr (.inr ⟨hwaits.challenged, rfl⟩)⟩ }
    answeredCalls := by
      intro call hcall
      rw [hcalls] at hcall
      rcases List.mem_append.mp hcall with hcall | hcall
      · exact H.answeredCalls call hcall
      · rw [List.mem_singleton.mp hcall]
        exact hwaits.fresh
    endedCalls := by
      rw [filterMap_concat_none rfl]
      exact H.endedCalls
    returned := H.returned_concat rfl
    answeredOnce := by
      rw [hcalls, ← List.concat_eq_append]
      exact H.answeredOnce.concat hunanswered
    endedOnce := by
      rw [filterMap_concat_none rfl]
      exact H.endedOnce
    stale := by
      refine H.stale_concat fun call hcall => ?_
      cases hcall
      exact hwaits.pending }

/-- The challenge that ends is the pending one. -/
theorem Prompting.pending (H : x.Prompting) {call : Nat} {before after : List Nat}
    (hwaiting : x.waiting = before ++ call :: after) :
    before ++ after = [] ∧ ∃ prompt ∈ x.prompt, prompt.call = call := by
  cases hp : x.prompt with
  | none =>
    rw [(H.idle hp).1] at hwaiting
    cases before with
    | nil => cases hwaiting
    | cons b before => cases hwaiting
  | some prompt =>
    have hwaits := H.prompt prompt hp
    rw [hwaits.waiting] at hwaiting
    cases before with
    | nil =>
      cases hwaiting
      exact ⟨rfl, prompt, rfl, rfl⟩
    | cons b before =>
      have hrest : [] = before ++ call :: after := (List.cons.inj hwaiting).2
      cases before with
      | nil => cases hrest
      | cons c before => cases hrest

/-- The pending challenge ends, with the answers of its owner or without any. -/
theorem Prompting.ended (H : x.Prompting) {event : GatewayEvent} {prompt : Prompt}
    {before after : List Nat} (hprompt : x.prompt = some prompt) (hnone : before ++ after = [])
    (hcall : event.endedCall? = some prompt.call)
    (hanswered : event.answeredCall? = none)
    (hreturned : ∀ call answers, event = .returned call answers → call = prompt.call ∧
      x.responses = some answers) :
    Prompting { x with
      prompt := none
      responses := none
      waiting := before ++ after
      log := x.log ++ [event] } := by
  have hwaits := H.prompt prompt hprompt
  exact {
    idle := fun _ => ⟨hnone, rfl⟩
    prompt := fun other hother => by cases hother
    answeredCalls := by
      rw [filterMap_concat_none hanswered]
      exact H.answeredCalls
    endedCalls := by
      rw [filterMap_concat_some hcall]
      intro call hmem
      rcases List.mem_append.mp hmem with hmem | hmem
      · exact H.endedCalls call hmem
      · rw [List.mem_singleton.mp hmem]
        exact hwaits.fresh
    returned := by
      intro call answers hmem
      rcases List.mem_append.mp hmem with hmem | hmem
      · exact (H.returned call answers hmem).concat
      · have hevent := (List.mem_singleton.mp hmem).symm
        obtain ⟨rfl, hresponses⟩ := hreturned call answers hevent
        obtain ⟨-, hlength, hbefore⟩ := hwaits.answered answers hresponses
        refine ⟨prompt.id, ?_, ?_⟩
        · rw [hlength]
          exact hbefore.append _
        · exact before_concat.mpr (.inr ⟨hbefore.mem_right, hevent.symm⟩)
    answeredOnce := by
      rw [filterMap_concat_none hanswered]
      exact H.answeredOnce
    endedOnce := by
      rw [filterMap_concat_some hcall, ← List.concat_eq_append]
      exact H.endedOnce.concat hwaits.pending
    stale := by
      refine H.stale_concat fun call hsome => ?_
      rw [hanswered] at hsome
      cases hsome }

theorem Prompting.cancel (H : x.Prompting) :
    Prompting { x with
      cancelled := true
      responses := none
      inputs := []
      log := x.log ++ [.cancelled] } where
  idle := fun h => ⟨(H.idle h).1, rfl⟩
  prompt := by
    intro prompt hprompt
    have hwaits := H.prompt prompt hprompt
    exact {
      waiting := hwaits.waiting
      fresh := hwaits.fresh
      challenged := List.mem_append_left _ hwaits.challenged
      pending := by
        rw [filterMap_concat_none rfl]
        exact hwaits.pending
      unanswered := fun _ h => by cases h
      answered := fun answers h => by cases h }
  answeredCalls := by
    rw [filterMap_concat_none rfl]
    exact H.answeredCalls
  endedCalls := by
    rw [filterMap_concat_none rfl]
    exact H.endedCalls
  returned := H.returned_concat rfl
  answeredOnce := by
    rw [filterMap_concat_none rfl]
    exact H.answeredOnce
  endedOnce := by
    rw [filterMap_concat_none rfl]
    exact H.endedOnce
  stale := H.stale_concat fun call h => by cases h

theorem Prompting.step (H : x.Prompting) {y : Exchange} (h : x.Step y) : y.Prompting := by
  cases h with
  | none => exact H
  | challenged id prompts h hprompt => exact H.challenged id prompts hprompt
  | answered prompt answers h hprompt hresponses hlength =>
    exact H.answered prompt answers h hprompt hresponses hlength
  | returned call answers before after hwaiting hresponses =>
    obtain ⟨hnone, prompt, hprompt, rfl⟩ := H.pending hwaiting
    refine H.ended hprompt hnone rfl rfl fun call given hevent => ?_
    cases hevent
    exact ⟨rfl, hresponses⟩
  | abandoned call before after hwaiting =>
    obtain ⟨hnone, prompt, hprompt, rfl⟩ := H.pending hwaiting
    exact H.ended hprompt hnone rfl rfl fun call given hevent => by cases hevent
  | accepted | taken | frame | acked => exact H.aside rfl rfl
  | cancelled => exact H.cancel

/-! ### Runs -/

/-- What every run keeps. -/
structure Sound (x : Exchange) : Prop where
  prompting : x.Prompting
  cancelling : x.Cancelling
  queue : x.Queue
  windowed : x.Windowed

theorem Sound.step (H : x.Sound) {y : Exchange} (h : x.Step y) : y.Sound where
  prompting := H.prompting.step h
  cancelling := H.cancelling.step H.queue H.prompting h
  queue := H.queue.step h
  windowed := H.windowed.step h

/-- The owner never changes. -/
theorem Step.owner {y : Exchange} (h : x.Step y) : y.userId = x.userId ∧ y.sid = x.sid := by
  cases h <;> exact ⟨rfl, rfl⟩

end Exchange

namespace Gateway
variable {R : Type} [DecidableEq R]

omit [DecidableEq R] in
theorem sound_init (key : Key) (reservation : Bool) (now : Nat) :
    (init key reservation now : Gateway R).exchange.Sound where
  prompting := {
    idle := fun _ => ⟨rfl, rfl⟩
    prompt := fun prompt h => by cases h
    answeredCalls := fun call h => by cases h
    endedCalls := fun call h => by cases h
    returned := fun call answers h => by cases h
    answeredOnce := List.nodup_nil
    endedOnce := List.nodup_nil
    stale := fun _ _ _ _ => not_before_nil }
  cancelling := ⟨iff_of_false List.not_mem_nil Bool.false_ne_true, fun _ _ => not_before_nil⟩
  queue := ⟨fun _ => rfl, List.prefix_refl _, fun _ => rfl, rfl, Nat.zero_le _⟩
  windowed := ⟨Nat.zero_le _, rfl, .refl _⟩

/-- Every run keeps the exchange sound, and its owner. -/
theorem run_sound (key : Key) (reservation : Bool) (now : Nat) (actions : List (GatewayAction R)) :
    (run key reservation now actions).exchange.Sound ∧
      (run key reservation now actions).exchange.userId = key.userId ∧
      (run key reservation now actions).exchange.sid = key.sid := by
  refine List.foldlRecOn actions _ (motive := fun g : Gateway R => g.exchange.Sound ∧
    g.exchange.userId = key.userId ∧ g.exchange.sid = key.sid)
    ⟨sound_init key reservation now, rfl, rfl⟩ ?_
  intro g H action _
  obtain ⟨hsound, huser, hsid⟩ := H
  have hstep := exchange_step (g := g) action
  obtain ⟨huser', hsid'⟩ := hstep.owner
  exact ⟨hsound.step hstep, huser'.trans huser, hsid'.trans hsid⟩

/-- A challenge that has returned was answered once, by the socket that owns the attempt, while it was
pending and with as many answers as it prompts for; no answer is taken after its end. Nothing is
answered, returned, accepted or taken after a cancellation. What the worker takes is what was accepted,
in order, of at most 8192 bytes; at most four frames are sent and not acknowledged, and the frames are
numbered from one. -/
theorem gateway_interaction (key : Key) (reservation : Bool) (now : Nat)
    (actions : List (GatewayAction R)) :
    let g := run key reservation now actions
    (∀ call answers, .returned call answers ∈ g.log → ∃ id,
      Before (.challenged call id answers.length)
        (.answered call key.userId key.sid id answers) g.log ∧
      Before (.answered call key.userId key.sid id answers) (.returned call answers) g.log) ∧
    (g.log.filterMap answeredCall?).Nodup ∧ (g.log.filterMap endedCall?).Nodup ∧
    (∀ ended answered, ended.endedCall? = answered.answeredCall? → answered.answeredCall?.isSome →
      ¬ Before ended answered g.log) ∧
    (∀ event, ¬ event.Late → ¬ Before .cancelled event g.log) ∧
    g.log.filterMap taken? ++ g.inputs <+: g.log.filterMap accepted? ∧
    (.cancelled ∉ g.log → g.log.filterMap taken? ++ g.inputs = g.log.filterMap accepted?) ∧
    (g.log.filterMap accepted?).flatten.length ≤ 8192 ∧
    g.unacked.length ≤ 4 ∧
    (g.log.filterMap acked? ++ g.unacked).Perm (g.log.filterMap frame?) ∧
    g.log.filterMap frame? = List.range' 1 g.sequence := by
  obtain ⟨H, huser, hsid⟩ := run_sound key reservation now actions
  refine ⟨?_, H.prompting.answeredOnce, H.prompting.endedOnce, H.prompting.stale, H.cancelling.late,
    H.queue.taken, ?_, ?_, H.windowed.window, H.windowed.acknowledged, H.windowed.frames⟩
  · intro call answers hmem
    obtain ⟨id, hchallenged, hreturned⟩ := H.prompting.returned call answers hmem
    rw [huser, hsid] at hchallenged hreturned
    exact ⟨id, hchallenged, hreturned⟩
  · intro hnot
    exact H.queue.whole (Bool.eq_false_iff.mpr fun hc => hnot (H.cancelling.cancelled.mpr hc))
  · exact H.queue.bytes.trans_le H.queue.limit

/-- A challenge returns the answers that the owner has given to its id, as many as its prompts, after it
began and before it ended; it takes one list of answers. After a cancellation no challenge returns, no
input is accepted and none is left. At most four frames wait for their acknowledgement, and the frames
are sent in the order of their numbers, from one. The inputs that are handed out are the accepted ones
in order, of at most 8192 bytes. -/
theorem gateway_exchange_sound (key : Key) (reservation : Bool) (now : Nat)
    (actions : List (GatewayAction R)) :
    let g := run key reservation now actions
    (∀ call answers, .returned call answers ∈ g.log → ∃ id,
      Before (.challenged call id answers.length)
        (.answered call key.userId key.sid id answers) g.log ∧
      (∀ ended, ended.endedCall? = some call →
        ¬ Before ended (.answered call key.userId key.sid id answers) g.log) ∧
      Before (.answered call key.userId key.sid id answers) (.returned call answers) g.log) ∧
    (∀ call, g.log.countP (·.answeredCall? = some call) ≤ 1) ∧
    (∀ call answers, ¬ Before .cancelled (.returned call answers) g.log) ∧
    (∀ data, ¬ Before .cancelled (.accepted data) g.log) ∧
    (.cancelled ∈ g.log → g.inputs = []) ∧
    g.unacked.length ≤ 4 ∧
    (g.log.filterMap acked? ++ g.unacked).Perm (g.log.filterMap frame?) ∧
    g.log.filterMap frame? = List.range' 1 g.sequence ∧
    g.log.filterMap taken? <+: g.log.filterMap accepted? ∧
    (g.log.filterMap taken?).flatten.length ≤ 8192 := by
  obtain ⟨H, huser, hsid⟩ := run_sound key reservation now actions
  have htaken := (List.prefix_append _ _).trans H.queue.taken
  refine ⟨?_, fun call => ?_, fun call answers => ?_, fun data => ?_, ?_, H.windowed.window,
    H.windowed.acknowledged, H.windowed.frames, htaken, ?_⟩
  · intro call answers hmem
    obtain ⟨id, hchallenged, hreturned⟩ := H.prompting.returned call answers hmem
    rw [huser, hsid] at hchallenged hreturned
    exact ⟨id, hchallenged, fun ended hended => H.prompting.stale ended _ hended rfl, hreturned⟩
  · have honce := List.nodup_iff_count_le_one.mp H.prompting.answeredOnce call
    rw [List.count_filterMap] at honce
    refine (List.countP_mono_left fun event _ h => ?_).trans honce
    exact beq_iff_eq.mpr (of_decide_eq_true h)
  · exact H.cancelling.late _ fun hlate => hlate
  · exact H.cancelling.late _ fun hlate => hlate
  · exact fun hmem => H.queue.cleared (H.cancelling.cancelled.mp hmem)
  · have hlength := htaken.flatten.length_le
    exact hlength.trans (H.queue.bytes.trans_le H.queue.limit)

/-- Only the owner answers, and only once. -/
example :
    (run ⟨"7", "a", "r"⟩ false 0 [
      .challenge true "t" (.str "") (.str "") [some "Password"],
      .answer "7" "b" "t" (some [.str "x"]),
      .answer "7" "a" "t" (some [.str "y"]),
      .answer "7" "a" "t" (some [.str "z"]),
      .wake true 0] : Gateway Unit).log =
    [.challenged 0 "t" 1, .answered 0 "7" "a" "t" ["y"], .returned 0 ["y"]] := by
  rfl

end Gateway
end WebSSH.SSHAttempt
