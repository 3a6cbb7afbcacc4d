import Mathlib
import WebSSH.Terminal.DirectorySync

/-!
# What is typed for a navigation

A probe carries the navigations it may answer. An event does one of three things to them: it creates
none, it is a call of `navigate`, or it is the reply that sends the command of one of them and drops
the rest.
-/

namespace WebSSH.Terminal.DirectorySync
open Lib Lib.Utf16

variable {Id : Type}

/-! ## Navigations and commands -/

/-- A command that was sent: when, for which call, to whom. -/
structure Sent (Id : Type) where
  moment : Nat
  call : Nat
  id : Id
  command : Units

def sentOf (entry : Nat × Effect Id) : Option (Sent Id) :=
  match entry.2 with
  | .sendInput call id command => some ⟨entry.1, call, id, command⟩
  | _ => none

namespace State

variable {s t u : State Id}

def sends (s : State Id) : List (Sent Id) := s.log.filterMap sentOf

/-- The navigations that the probe in flight may answer. -/
def intents (s : State Id) : List Intent :=
  match s.request with
  | none => []
  | some request => request.target.toList ++ request.nextNavigation.toList

/-- No navigation is created and no command sent, and the version of the input does not go back. -/
structure Calm (s t : State Id) : Prop where
  moment : t.moment = s.moment
  sends : t.sends = s.sends
  intents : ∀ intent ∈ t.intents, intent ∈ s.intents ∧ t.sessionId = s.sessionId ∧
    (s.awaitingChange = none → t.awaitingChange = none) ∧
    ∀ id input, s.sessionId = some id → s.inputs id = some input →
      ∃ input', t.inputs id = some input' ∧ input.version ≤ input'.version

theorem Calm.trans (h : Calm s t) (h' : Calm t u) : Calm s u where
  moment := h'.moment.trans h.moment
  sends := h'.sends.trans h.sends
  intents := by
    intro intent hintent
    obtain ⟨hmem', hsession', hawaiting', hinputs'⟩ := h'.intents intent hintent
    obtain ⟨hmem, hsession, hawaiting, hinputs⟩ := h.intents intent hmem'
    refine ⟨hmem, hsession'.trans hsession, fun hnone => hawaiting' (hawaiting hnone), ?_⟩
    intro id input hid hinput
    obtain ⟨input', hinput', hle⟩ := hinputs id input hid hinput
    obtain ⟨input'', hinput'', hle'⟩ := hinputs' id input' (hsession.trans hid) hinput'
    exact ⟨input'', hinput'', hle.trans hle'⟩

/-- Nothing of it changes. -/
theorem Calm.of_eq (hmoment : t.moment = s.moment) (hsends : t.sends = s.sends)
    (hrequest : t.request = s.request) (hsession : t.sessionId = s.sessionId)
    (hawaiting : s.awaitingChange = none → t.awaitingChange = none) (hinputs : t.inputs = s.inputs) :
    Calm s t where
  moment := hmoment
  sends := hsends
  intents := by
    intro intent hintent
    unfold State.intents at hintent ⊢
    rw [hrequest] at hintent
    refine ⟨hintent, hsession, hawaiting, fun id input _ hinput => ?_⟩
    exact ⟨input, by rw [hinputs, hinput], Nat.le_refl _⟩

theorem Calm.refl (s : State Id) : Calm s s := .of_eq rfl rfl rfl rfl id rfl

/-- No navigation is left. -/
theorem Calm.of_idle (hmoment : t.moment = s.moment) (hsends : t.sends = s.sends)
    (h : t.intents = []) : Calm s t where
  moment := hmoment
  sends := hsends
  intents := by
    intro intent hintent
    rw [h] at hintent
    cases hintent

theorem sends_emit (effect : Effect Id) (s : State Id) :
    (s.emit effect).sends = s.sends ++ (sentOf (s.moment, effect)).toList := by
  unfold sends emit
  rw [List.filterMap_append]
  cases h : sentOf (s.moment, effect) with
  | none => simp [h]
  | some sent => simp [h]

/-- Another effect than a command. -/
theorem Calm.emit {effect : Effect Id} (h : sentOf (s.moment, effect) = none) :
    Calm s (s.emit effect) :=
  .of_eq rfl (by rw [sends_emit, h, Option.toList_none, List.append_nil]) rfl rfl id rfl

theorem Calm.block (reason : Reason) (s : State Id) : Calm s (s.block reason) := .emit rfl

theorem intents_of_request_none (h : s.request = none) : s.intents = [] := by
  unfold intents
  rw [h]

variable [DecidableEq Id] (options : Options) (page : Page Id)

theorem Calm.schedule (s : State Id) : Calm s (s.schedule options page) := by
  unfold State.schedule
  dsimp only
  split
  · exact .of_eq rfl rfl rfl rfl id rfl
  · exact .of_eq rfl rfl rfl rfl id rfl

omit [DecidableEq Id] in
theorem Calm.follow (path : Units) (s : State Id) : Calm s (s.follow page path) := by
  unfold State.follow
  split
  · exact .refl s
  · exact .emit rfl

theorem Calm.block_schedule (reason : Reason) (s : State Id) :
    Calm s ((s.block reason).schedule options page) :=
  (Calm.block reason s).trans (.schedule options page _)

theorem Calm.follow_schedule (path : Units) (s : State Id) :
    Calm s ((s.follow page path).schedule options page) :=
  (Calm.follow page path s).trans (.schedule options page _)

theorem inputs_modifyInput (id : Id) (f : Input → Input) (s : State Id) (other : Id) :
    (s.modifyInput id f).inputs other =
      if other = id then (s.inputs id).map f else s.inputs other := by
  cases h : s.inputs id with
  | none =>
    have hsame : s.modifyInput id f = s := by simp only [modifyInput, h]
    rw [hsame]
    split
    · next heq => rw [heq, h, Option.map_none]
    · rfl
  | some input =>
    have hset : s.modifyInput id f = s.setInput id (some (f input)) := by simp only [modifyInput, h]
    rw [hset]
    exact Function.update_apply _ _ _ _

/-- An input changes and its version does not go back. -/
theorem Calm.modifyInput {f : Input → Input} (hf : ∀ input, input.version ≤ (f input).version)
    (id : Id) (s : State Id) : Calm s (s.modifyInput id f) := by
  have hframe : (s.modifyInput id f).moment = s.moment ∧ (s.modifyInput id f).sends = s.sends ∧
      (s.modifyInput id f).intents = s.intents ∧ (s.modifyInput id f).sessionId = s.sessionId ∧
      (s.modifyInput id f).awaitingChange = s.awaitingChange := by
    unfold State.modifyInput
    split
    · exact ⟨rfl, rfl, rfl, rfl, rfl⟩
    · exact ⟨rfl, rfl, rfl, rfl, rfl⟩
  obtain ⟨hmoment, hsends, hintents, hsession, hawaiting⟩ := hframe
  refine ⟨hmoment, hsends, fun intent hintent => ⟨hintents ▸ hintent, hsession, fun h => ?_, ?_⟩⟩
  · rw [hawaiting, h]
  · intro other input _ hinput
    rw [inputs_modifyInput]
    split
    · next heq =>
      rw [← heq, hinput]
      exact ⟨f input, rfl, hf input⟩
    · exact ⟨input, hinput, Nat.le_refl _⟩

theorem Calm.noteInput (id : Id) (data : Units) (s : State Id) : Calm s (s.noteInput id data) := by
  unfold State.noteInput
  split
  · exact .modifyInput (fun _ => Nat.le_succ _) id s
  · exact .refl s

theorem Calm.confirmNavigation (id : Id) (version : Option Nat) (s : State Id) :
    Calm s (s.confirmNavigation id version) := by
  refine .modifyInput (fun input => ?_) id s
  split
  · exact Nat.le_refl _
  · exact Nat.le_refl _

omit [DecidableEq Id] in
theorem Calm.cancel (s : State Id) : Calm s s.cancel := .of_idle rfl rfl rfl

/-- A probe for no navigation. -/
theorem Calm.poll_none (s : State Id) : Calm s (s.poll options page none) := by
  unfold State.poll
  split
  · exact .refl s
  · split
    · exact .refl s
    · exact .of_idle rfl ((sends_emit _ _).trans (List.append_nil _)) rfl

/-- A probe for a navigation carries it and no other. -/
theorem poll_spec (intent : Intent) (h : s.request = none) :
    let t := s.poll options page (some intent)
    t.moment = s.moment ∧ t.sends = s.sends ∧ t.sessionId = s.sessionId ∧ t.inputs = s.inputs ∧
      t.awaitingChange = s.awaitingChange ∧ ∀ i ∈ t.intents, i = intent := by
  have hidle := intents_of_request_none h
  intro t
  have hunchanged : t = s → t.moment = s.moment ∧ t.sends = s.sends ∧ t.sessionId = s.sessionId ∧
      t.inputs = s.inputs ∧ t.awaitingChange = s.awaitingChange ∧ ∀ i ∈ t.intents, i = intent := by
    intro ht
    rw [ht, hidle]
    exact ⟨rfl, rfl, rfl, rfl, rfl, fun i hi => by cases hi⟩
  cases hid : s.sessionId with
  | none => exact hid ▸ hunchanged (by simp only [t, State.poll, hid])
  | some id =>
    cases hbusy : (!s.active options page || s.request.isSome) with
    | true => exact hid ▸ hunchanged (by simp only [t, State.poll, hid, hbusy, if_true])
    | false =>
      have ht : t = { s with
          request := some ⟨s.requests, s.generation, id, some intent, none⟩
          requests := s.requests + 1 : State Id }.emit (.requestDirectory id) := by
        simp only [t, State.poll, hid, hbusy, Bool.false_eq_true, if_false]
      rw [ht]
      refine ⟨rfl, (sends_emit _ _).trans (List.append_nil _), hid, rfl, rfl, fun i hi => ?_⟩
      exact List.mem_singleton.mp hi

omit [DecidableEq Id] in
/-- Without a navigation any change of `awaitingChange` is calm. -/
theorem Calm.await (h : s.intents = []) (awaiting : Option AwaitingChange) :
    Calm s { s with awaitingChange := awaiting } :=
  .of_idle rfl rfl h

omit [DecidableEq Id] in
theorem Calm.request_none (s : State Id) : Calm s { s with request := none } := .of_idle rfl rfl rfl

omit [DecidableEq Id] in
theorem Calm.idle (h : Calm s t) (hs : s.intents = []) : t.intents = [] := by
  refine List.eq_nil_iff_forall_not_mem.mpr fun intent hintent => ?_
  have hmem := (h.intents intent hintent).1
  rw [hs] at hmem
  cases hmem

theorem Calm.unavailable (wanted : Bool) (s : State Id) : Calm s (s.unavailable options page wanted) := by
  have hclear (t : State Id) : Calm t ({ t with awaitingChange := none }.schedule options page) := by
    have hnone : Calm t { t with awaitingChange := none } := .of_eq rfl rfl rfl rfl (fun _ => rfl) rfl
    exact hnone.trans (.schedule options page _)
  unfold State.unavailable
  dsimp only
  split
  · exact (Calm.block .unavailable s).trans (hclear _)
  · exact hclear s

/-- The decision at the end of `acknowledge`. -/
theorem Calm.decide_acknowledge (h : s.intents = []) (ready : Bool) (awaiting : AwaitingChange)
    (path : Units) :
    Calm s (if ready then
        (if 6 ≤ awaiting.polls then { s with awaitingChange := none }.block .prompt else s).schedule
          options page
      else if path = awaiting.previous ∧ awaiting.polls < 3 then s.schedule options page
      else ({ s with awaitingChange := none }.follow page path).schedule options page) := by
  split
  · split
    · exact (Calm.await h none).trans (.block_schedule options page .prompt _)
    · exact .schedule options page s
  · split
    · exact .schedule options page s
    · exact (Calm.await h none).trans (.follow_schedule options page path _)

theorem Calm.acknowledge (h : s.intents = []) (id : Id) (awaiting : AwaitingChange)
    (next : Directory) : Calm s (s.acknowledge options page id awaiting next) := by
  have hpolled := Calm.await h (some { awaiting with polls := awaiting.polls + 1 })
  have hconfirmed := hpolled.trans (.confirmNavigation id awaiting.version _)
  unfold State.acknowledge
  dsimp only
  split
  · exact hconfirmed.trans (.decide_acknowledge options page (hconfirmed.idle h) _
      { awaiting with polls := awaiting.polls + 1 } next.path)
  · exact hpolled.trans (.decide_acknowledge options page (hpolled.idle h) _
      { awaiting with polls := awaiting.polls + 1 } next.path)

/-! ## The reply that sends a command -/

omit [DecidableEq Id] in
theorem of_canSend {id : Id} {input : Option Input} {directory : Directory}
    (h : canSend page id input directory = true) :
    ∃ state, input = some state ∧ state.replayDepth = 0 := by
  cases input with
  | none => cases h
  | some state =>
    refine ⟨state, rfl, ?_⟩
    unfold canSend at h
    dsimp only at h
    split at h
    · cases h
    · next hdepth => exact Decidable.of_not_not hdepth

/-- The command of a navigation is sent to `id`, and no other navigation is left. -/
structure Sends (s t : State Id) (id : Id) (intent : Intent) : Prop where
  input : ∃ input, s.inputs id = some input ∧ input.replayDepth = 0 ∧
    intent.version = some input.version
  sent : ∃ shell command, cdCommand intent.path shell = some command ∧
    t.sends = s.sends ++ [⟨s.moment, intent.call, id, command⟩]
  moment : t.moment = s.moment
  intents : t.intents = []
  awaits : t.awaitingChange.isSome

omit [DecidableEq Id] in
theorem awaitingChange_emit (effect : Effect Id) (s : State Id) :
    (s.emit effect).awaitingChange = s.awaitingChange := rfl

theorem awaitingChange_noteInput (id : Id) (data : Units) (s : State Id) :
    (s.noteInput id data).awaitingChange = s.awaitingChange := by
  unfold State.noteInput
  split
  · unfold State.modifyInput
    split
    · rfl
    · rfl
  · rfl

theorem awaitingChange_schedule (s : State Id) :
    (s.schedule options page).awaitingChange = s.awaitingChange := by
  unfold State.schedule
  dsimp only
  split
  · rfl
  · rfl

theorem arrive_cases (h : s.intents = []) (id : Id) (intent : Intent) (next : Directory) :
    Calm s (s.arrive options page id intent next) ∨
      Sends s (s.arrive options page id intent next) id intent := by
  unfold State.arrive
  split
  · exact .inl (.block_schedule options page .prompt s)
  next hready =>
  split
  · exact .inl (.follow_schedule options page next.path s)
  simp only [Bool.or_eq_true, decide_eq_true_eq, not_or, Bool.not_eq_true', Bool.not_eq_false,
    Decidable.not_not] at hready
  obtain ⟨⟨⟨-, hsend⟩, hversion⟩, -⟩ := hready
  obtain ⟨input, hinput, hreplay⟩ := of_canSend page hsend
  have hawaited : Calm s { s with awaitingChange := some ⟨next.path, next.shellId, 0, none⟩ } :=
    .await h _
  have hnoted := hawaited.trans (.noteInput id intent.path _)
  dsimp only
  split
  · exact .inl (hnoted.trans (.schedule options page _))
  next command hcommand =>
  right
  have hawaits : (State.noteInput id intent.path
      { s with awaitingChange := some ⟨next.path, next.shellId, 0, none⟩ }).awaitingChange.isSome := by
    rw [awaitingChange_noteInput]
    rfl
  generalize State.noteInput id intent.path _ = u at hnoted hawaits ⊢
  have hsent : (u.emit (.sendInput intent.call id command)).intents = [] := hnoted.idle h
  have htail : Calm (u.emit (.sendInput intent.call id command))
      ((u.emit (.sendInput intent.call id command)).noteInput id command) := .noteInput id command _
  generalize hv : (u.emit (.sendInput intent.call id command)) = v at hsent htail ⊢
  have hvsends : v.sends = s.sends ++ [⟨s.moment, intent.call, id, command⟩] := by
    rw [← hv, sends_emit, hnoted.sends, hnoted.moment]
    rfl
  have hvmoment : v.moment = s.moment := by
    rw [← hv]
    exact hnoted.moment
  have hvawaits : v.awaitingChange.isSome := by
    rw [← hv, awaitingChange_emit]
    exact hawaits
  have hend := (htail.trans (.await (htail.idle hsent) ((v.noteInput id command).awaitingChange.map
    (AwaitingChange.sentAt ((v.noteInput id command).inputVersion id))))).trans
      (.schedule options page _)
  refine ⟨⟨input, hinput, hreplay, hversion.trans (by rw [inputVersion, hinput]; rfl)⟩,
    ⟨next.shell, command, hcommand, hend.sends.trans hvsends⟩, hend.moment.trans hvmoment,
    hend.idle hsent, ?_⟩
  rw [awaitingChange_schedule, Option.isSome_map, awaitingChange_noteInput]
  exact hvawaits

/-- The reply is for a navigation of the probe. -/
theorem answer_cases {request : Request Id} (h : s.request = some request) (id : Id)
    (directory : Option Directory) :
    Calm s (s.answer options page id request directory) ∨
      ∃ intent ∈ s.intents, Sends s (s.answer options page id request directory) id intent := by
  have hclear : Calm s { s with request := none } := .request_none s
  have hidle : ({ s with request := none } : State Id).intents = [] := rfl
  have hintents : s.intents = request.target.toList ++ request.nextNavigation.toList := by
    unfold State.intents
    rw [h]
  unfold State.answer
  dsimp only
  split
  · next intent hnext =>
    left
    split
    · exact hclear.trans (.block_schedule options page .prompt _)
    · obtain ⟨hmoment, hsends, hsession, hinputs, hawaiting, hall⟩ :=
        poll_spec options page (s := { s with request := none }) intent rfl
      refine ⟨hmoment, hsends, fun i hi => ⟨?_, hsession, fun hnone => hawaiting.trans hnone, ?_⟩⟩
      · rw [hall i hi, hintents, hnext]
        exact List.mem_append_right _ (List.mem_singleton.mpr rfl)
      · intro other input _ hinput
        rw [hinputs]
        exact ⟨input, hinput, Nat.le_refl _⟩
  split
  · exact .inl (hclear.trans (.unavailable options page _ _))
  next next =>
  split
  · exact .inl (hclear.trans (.unavailable options page _ _))
  split
  · next intent htarget =>
    rcases arrive_cases options page hidle id intent next with hcalm | hsend
    · exact .inl (hclear.trans hcalm)
    · refine .inr ⟨intent, ?_, hsend.input, hsend.sent, hsend.moment, hsend.intents, hsend.awaits⟩
      rw [hintents, htarget]
      exact List.mem_append_left _ (List.mem_singleton.mpr rfl)
  · exact .inl (hclear.trans (.acknowledge options page hidle id _ next))
  · exact .inl (hclear.trans (.follow_schedule options page _ _))

/-- The intent of a call of `navigate`. -/
def intentOf (s : State Id) (id : Id) (path : Units) : Intent := ⟨s.moment, path, s.inputVersion id⟩

/-- `navigate` adds its intent to those of the probe in flight. -/
structure Calls (s t : State Id) (id : Id) (path : Units) : Prop where
  session : s.sessionId = some id
  moment : t.moment = s.moment
  sends : t.sends = s.sends
  sessionId : t.sessionId = s.sessionId
  inputs : t.inputs = s.inputs
  awaitingChange : t.awaitingChange = none
  intents : ∀ intent ∈ t.intents, intent ∈ s.intents ∨ intent = s.intentOf id path

theorem navigate_cases (id : Id) (path : Units) (s : State Id) :
    Calm s (s.navigate options page id path) ∨ Calls s (s.navigate options page id path) id path := by
  unfold State.navigate
  split
  · exact .inl (.refl s)
  next hopen =>
  have hsession : s.sessionId = some id := by
    refine Decidable.of_not_not fun hne => hopen ?_
    rw [decide_eq_true hne]
    rfl
  split
  · exact .inl (.block .pending s)
  next hawaiting =>
  have hnone : s.awaitingChange = none :=
    Option.not_isSome_iff_eq_none.mp hawaiting
  right
  dsimp only
  split
  · next request hrequest =>
    refine ⟨hsession, rfl, rfl, rfl, rfl, hnone, fun intent hintent => ?_⟩
    rcases List.mem_append.mp hintent with hmem | hmem
    · left
      unfold State.intents
      rw [hrequest]
      exact List.mem_append_left _ hmem
    · exact .inr (List.mem_singleton.mp hmem)
  · obtain ⟨hmoment, hsends, hid, hinputs, hwait, hall⟩ :=
      poll_spec options page (s := s.cancel) (s.intentOf id path) rfl
    exact ⟨hsession, hmoment, hsends, hid, hinputs, hwait, fun intent hintent =>
      .inr (hall intent hintent)⟩

/-! ## What an event can do -/

theorem Calm.applyOscLocation (path : Units) (s : State Id) :
    Calm s (s.applyOscLocation options page path) := by
  unfold State.applyOscLocation
  refine Calm.trans (t := { s with
    oscFollowTimer := .unset
    pendingOscLocation := none
    lastOscFollowAt := page.now
    awaitingChange := s.awaitingChange.filter fun awaiting => path = awaiting.previous }) ?_
    (.follow_schedule options page path _)
  refine .of_eq rfl rfl rfl rfl (fun hnone => ?_) rfl
  show s.awaitingChange.filter _ = none
  rw [hnone]
  rfl

theorem Calm.location (id : Id) (path : Units) (s : State Id) :
    Calm s (s.location options page id path) := by
  unfold State.location
  split
  · exact .refl s
  split
  · exact .refl s
  dsimp only
  split
  · refine Calm.trans ?_ (.applyOscLocation options page path _)
    exact .of_idle rfl rfl rfl
  · exact .of_idle rfl rfl rfl

theorem Calm.oscTimer (s : State Id) : Calm s (s.oscTimer options page) := by
  have hfired : Calm s { s with oscFollowTimer := .stale } := .of_eq rfl rfl rfl rfl (fun h => h) rfl
  unfold State.oscTimer
  split
  · exact .refl s
  dsimp only
  split
  · exact hfired
  · split
    · exact hfired.trans (.applyOscLocation options page _ _)
    · exact hfired

theorem Calm.setContext (id : Option Id) (visible : Bool) (s : State Id) :
    Calm s (s.setContext options page id visible) := by
  unfold State.setContext
  split
  · split
    · exact .poll_none options page s
    · exact .refl s
  · refine Calm.trans ?_ (.poll_none options page _)
    exact .of_idle rfl rfl rfl

theorem Calm.setEnabled (value : Bool) (s : State Id) :
    Calm s (s.setEnabled options page value) := by
  unfold State.setEnabled
  split
  · exact .refl s
  dsimp only
  split
  · refine Calm.trans ?_ (.poll_none options page _)
    exact .of_idle rfl rfl rfl
  · exact .of_idle rfl rfl rfl

theorem Calm.pollTimer (s : State Id) : Calm s (s.pollTimer options page) := by
  unfold State.pollTimer
  split
  · have hfired : Calm s { s with timer := .stale } := .of_eq rfl rfl rfl rfl (fun h => h) rfl
    exact hfired.trans (.poll_none options page _)
  · exact .refl s

theorem Calm.timeout (number : Nat) (s : State Id) : Calm s (s.timeout options page number) := by
  unfold State.timeout
  split
  · exact .refl s
  split
  · exact .refl s
  · exact (Calm.request_none s).trans (.unavailable options page _ _)

theorem Calm.removeSession (id : Id) (s : State Id) : Calm s (s.removeSession id) := by
  unfold State.removeSession
  dsimp only
  split
  · exact .of_idle rfl rfl rfl
  next hid =>
  refine ⟨rfl, rfl, fun intent hintent => ⟨hintent, rfl, fun h => h, fun other input hother hinput => ?_⟩⟩
  have hne : other ≠ id := fun heq => hid (heq ▸ hother)
  exact ⟨input, (Function.update_of_ne hne _ _).trans hinput, Nat.le_refl _⟩

theorem Calm.trackTerminal (id : Id) (s : State Id) : Calm s (s.trackTerminal id) := by
  unfold State.trackTerminal
  split
  · exact .refl s
  next hnone =>
  have hnone : s.inputs id = none := Option.not_isSome_iff_eq_none.mp hnone
  refine ⟨rfl, rfl, fun intent hintent => ⟨hintent, rfl, fun h => h, fun other input _ hinput => ?_⟩⟩
  have hne : other ≠ id := fun heq => by rw [heq, hnone] at hinput; cases hinput
  exact ⟨input, (Function.update_of_ne hne _ _).trans hinput, Nat.le_refl _⟩

theorem Calm.reply_cases (number : Nat) (directory : Option Directory) (s : State Id) :
    Calm s (s.reply options page number directory) ∨
      ∃ id, s.sessionId = some id ∧ ∃ intent ∈ s.intents,
        Sends s (s.reply options page number directory) id intent := by
  unfold State.reply
  split
  · next request id hrequest hid =>
    split
    · exact .inl (.refl s)
    · exact (answer_cases options page hrequest id directory).imp_right fun hsend => ⟨id, hid, hsend⟩
  · exact .inl (.refl s)

end State

/-- Something was typed into the session. -/
def Types (id : Id) : Event Id → Prop
  | .noteInput other data => other = id ∧ typed data = true
  | _ => False

/-- What an event does to the navigations. -/
inductive Outcome (event : Event Id) (s t : State Id) : Prop
  | calm (h : s.Calm t) (typing : ∀ id, Types id event → ∀ input, s.inputs id = some input →
      ∃ input', t.inputs id = some input' ∧ input.version < input'.version)
  | called (id : Id) (path : Units) (page : Page Id) (h : event = .navigate id path page)
    (hcalls : s.Calls t id path)
  | sent (id : Id) (intent : Intent) (hid : s.sessionId = some id) (hintent : intent ∈ s.intents)
    (quiet : ∀ id, ¬ Types id event) (hsends : s.Sends t id intent)

/-- An event that types nothing. -/
theorem Outcome.of_calm {event : Event Id} {s t : State Id} (h : s.Calm t)
    (quiet : ∀ id, ¬ Types id event) : Outcome event s t :=
  .calm h fun id hid => absurd hid (quiet id)

variable [DecidableEq Id]

theorem handle_cases (options : Options) (s : State Id) (event : Event Id) :
    Outcome event s (handle options s event) := by
  cases event with
  | trackTerminal id => exact .of_calm (.trackTerminal id s) fun _ h => h
  | noteInput id data =>
    refine .calm (.noteInput id data s) ?_
    rintro other ⟨rfl, htyped⟩ input hinput
    refine ⟨input.note data, ?_, Nat.lt_succ_self _⟩
    show (s.noteInput id data).inputs id = _
    unfold State.noteInput
    rw [if_pos htyped, State.inputs_modifyInput, if_pos rfl, hinput]
    rfl
  | beginReplay id =>
    refine .of_calm (.modifyInput (fun input => ?_) id s) fun _ h => h
    exact Nat.le_succ input.version
  | endReplay id =>
    refine .of_calm (.modifyInput (fun input => ?_) id s) fun _ h => h
    exact Nat.le_refl input.version
  | prompt id =>
    refine .of_calm (.modifyInput (fun input => ?_) id s) fun _ h => h
    split
    · exact Nat.le_refl _
    · exact Nat.le_refl _
  | lineFeed id =>
    refine .of_calm (.modifyInput (fun input => ?_) id s) fun _ h => h
    split
    · exact Nat.le_succ _
    · exact Nat.le_refl _
  | reply number directory page =>
    rcases State.Calm.reply_cases options page number directory s with h | ⟨id, hid, intent, hi, hs⟩
    · exact .of_calm h fun _ h => h
    · exact .sent id intent hid hi (fun _ h => h) hs
  | timeout number page => exact .of_calm (.timeout options page number s) fun _ h => h
  | pollTimer page => exact .of_calm (.pollTimer options page s) fun _ h => h
  | oscTimer page => exact .of_calm (.oscTimer options page s) fun _ h => h
  | location id path page => exact .of_calm (.location options page id path s) fun _ h => h
  | setContext id visible page => exact .of_calm (.setContext options page id visible s) fun _ h => h
  | setEnabled value page => exact .of_calm (.setEnabled options page value s) fun _ h => h
  | navigate id path page =>
    rcases State.navigate_cases options page id path s with h | h
    · exact .of_calm h fun _ h => h
    · exact .called id path page rfl h
  | removeSession id => exact .of_calm (.removeSession id s) fun _ h => h

/-! ## Whole runs -/

variable (options : Options)

/-- A command that was sent is the one its call asked for, into a session into which nothing was typed
since, during no replay, and while no other command waits for its acknowledgement. -/
structure Sound (events : List (Event Id)) (sent : Sent Id) : Prop where
  moment : sent.call < sent.moment ∧ sent.moment < events.length
  command : ∃ path page shell, events[sent.call]? = some (.navigate sent.id path page) ∧
    cdCommand path shell = some sent.command
  untyped : ∀ k event, sent.call < k → k < sent.moment → events[k]? = some event →
    ¬ Types sent.id event
  replay : ∃ input, (run options (events.take sent.moment)).inputs sent.id = some input ∧
    input.replayDepth = 0
  settled : (run options (events.take sent.moment)).awaitingChange = none

variable {options} {events : List (Event Id)} {s t : State Id}

omit [DecidableEq Id] in
theorem getElem?_of_append {event : Event Id} {k : Nat} {e : Event Id} (hk : k < events.length)
    (h : (events ++ [event])[k]? = some e) : events[k]? = some e := by
  rwa [List.getElem?_append_left hk] at h

theorem Sound.append {sent : Sent Id} (H : Sound options events sent) (event : Event Id) :
    Sound options (events ++ [event]) sent := by
  have hlt := H.moment.2
  have htake : (events ++ [event]).take sent.moment = events.take sent.moment :=
    List.take_append_of_le_length (Nat.le_of_lt hlt)
  obtain ⟨path, page, shell, hcall, hcommand⟩ := H.command
  refine ⟨⟨H.moment.1, ?_⟩, ⟨path, page, shell, ?_, hcommand⟩, ?_, htake ▸ H.replay,
    htake ▸ H.settled⟩
  · rw [List.length_append]
    exact Nat.lt_add_right _ hlt
  · rw [List.getElem?_append_left (H.moment.1.trans hlt), hcall]
  · intro k e hcall' hk he
    exact H.untyped k e hcall' hk (getElem?_of_append (hk.trans hlt) he)

/-- A navigation that is pending was called for the session, and nothing was typed while the version of
the input is the one it saw. -/
structure Named (events : List (Event Id)) (s : State Id) (id : Id) (intent : Intent) : Prop where
  called : ∃ page, events[intent.call]? = some (.navigate id intent.path page)
  fresh : ∀ version, intent.version = some version →
    ∃ input, s.inputs id = some input ∧ version ≤ input.version ∧
      (input.version = version → ∀ k event, intent.call < k → events[k]? = some event →
        ¬ Types id event)

omit [DecidableEq Id] in
theorem Named.call_lt {id : Id} {intent : Intent} (H : Named events s id intent) :
    intent.call < events.length := by
  obtain ⟨page, hcall⟩ := H.called
  exact (List.getElem?_eq_some_iff.mp hcall).1

structure Inv (options : Options) (events : List (Event Id)) (s : State Id) : Prop where
  moment : s.moment = events.length
  intents : ∀ intent ∈ s.intents, s.awaitingChange = none ∧
    (∃ id, s.sessionId = some id ∧ Named events s id intent) ∧
    ∀ sent ∈ s.sends, sent.call ≠ intent.call
  sound : ∀ sent ∈ s.sends, Sound options events sent
  once : s.sends.Pairwise fun earlier later => earlier.call ≠ later.call

theorem inv_init : Inv options ([] : List (Event Id)) .init where
  moment := rfl
  intents := by
    intro intent hintent
    cases hintent
  sound := by
    intro sent hsent
    cases hsent
  once := .nil

omit [DecidableEq Id] in
/-- The version has grown with what was typed. -/
theorem Named.calm {id : Id} {intent : Intent} {event : Event Id} (H : Named events s id intent)
    (hid : s.sessionId = some id) (hintent : intent ∈ t.intents) (h : s.Calm t)
    (typing : ∀ id, Types id event → ∀ input, s.inputs id = some input →
      ∃ input', t.inputs id = some input' ∧ input.version < input'.version) :
    Named (events ++ [event]) t id intent := by
  obtain ⟨page, hcall⟩ := H.called
  refine ⟨⟨page, by rw [List.getElem?_append_left H.call_lt, hcall]⟩, fun version hversion => ?_⟩
  obtain ⟨input, hinput, hle, huntyped⟩ := H.fresh version hversion
  obtain ⟨input', hinput', hle'⟩ := (h.intents intent hintent).2.2.2 id input hid hinput
  refine ⟨input', hinput', hle.trans hle', fun heq k e hk he => ?_⟩
  rcases Nat.lt_or_ge k events.length with hlt | hge
  · exact huntyped (by omega) k e hk (getElem?_of_append hlt he)
  · intro htypes
    obtain rfl : e = event := by
      rw [List.getElem?_append_right hge] at he
      exact List.mem_singleton.mp (List.mem_of_getElem? he)
    obtain ⟨input'', hinput'', hlt⟩ := typing id htypes input hinput
    rw [hinput'] at hinput''
    cases hinput''
    omega

theorem Inv.calm {event : Event Id} (H : Inv options events s) (h : s.Calm t)
    (typing : ∀ id, Types id event → ∀ input, s.inputs id = some input →
      ∃ input', t.inputs id = some input' ∧ input.version < input'.version) :
    Inv options (events ++ [event]) { t with moment := t.moment + 1 } where
  moment := by
    rw [List.length_append, ← H.moment, ← h.moment]
    rfl
  intents := by
    intro intent hintent
    obtain ⟨hmem, hsession, hawaiting, -⟩ := h.intents intent hintent
    obtain ⟨hnone, ⟨id, hid, hnamed⟩, hsent⟩ := H.intents intent hmem
    refine ⟨hawaiting hnone, ⟨id, hsession.trans hid, ?_⟩, fun sent hmem => hsent sent (h.sends ▸ hmem)⟩
    have hnamed' := hnamed.calm (t := t) hid hintent h typing
    exact ⟨hnamed'.called, hnamed'.fresh⟩
  sound sent hsent := (H.sound sent (h.sends ▸ hsent)).append event
  once := by
    show t.sends.Pairwise _
    rw [h.sends]
    exact H.once

theorem Inv.called {id : Id} {path : Units} (H : Inv options events s) (h : s.Calls t id path)
    (page : Page Id) :
    Inv options (events ++ [.navigate id path page]) { t with moment := t.moment + 1 } where
  moment := by
    rw [List.length_append, ← H.moment, ← h.moment]
    rfl
  intents := by
    intro intent hintent
    refine ⟨h.awaitingChange, ⟨id, h.sessionId.trans h.session, ?_⟩, ?_⟩
    · rcases h.intents intent hintent with hmem | rfl
      · obtain ⟨-, ⟨id', hid', hnamed⟩, -⟩ := H.intents intent hmem
        obtain rfl : id' = id := Option.some.inj (hid'.symm.trans h.session)
        have hnamed' : Named (events ++ [.navigate id' path page]) s id' intent :=
          hnamed.calm hid' hmem (.refl s) fun _ htypes => htypes.elim
        refine ⟨hnamed'.called, fun version hversion => ?_⟩
        show ∃ input, t.inputs id' = some input ∧ _
        rw [h.inputs]
        exact hnamed'.fresh version hversion
      · refine ⟨⟨page, ?_⟩, fun version hversion => ?_⟩
        · show (events ++ [.navigate id path page])[s.moment]? = _
          rw [H.moment, List.getElem?_concat_length]
          rfl
        · obtain ⟨input, hinput, rfl⟩ := Option.map_eq_some_iff.mp hversion
          refine ⟨input, (congrFun h.inputs id).trans hinput, Nat.le_refl _, fun _ k e hk he => ?_⟩
          have hlt := (List.getElem?_eq_some_iff.mp he).1
          have hk : s.moment < k := hk
          rw [H.moment] at hk
          rw [List.length_append, List.length_singleton] at hlt
          omega
    · intro sent hsent
      have hsent : sent ∈ s.sends := h.sends ▸ hsent
      rcases h.intents intent hintent with hmem | rfl
      · exact (H.intents intent hmem).2.2 sent hsent
      · have hlt := (H.sound sent hsent).moment
        show sent.call ≠ s.moment
        rw [H.moment]
        omega
  sound sent hsent := (H.sound sent (h.sends ▸ hsent)).append _
  once := by
    show t.sends.Pairwise _
    rw [h.sends]
    exact H.once

theorem Inv.sent {event : Event Id} {id : Id} {intent : Intent} (H : Inv options events s)
    (hs : s = run options events) (hid : s.sessionId = some id) (hintent : intent ∈ s.intents)
    (h : s.Sends t id intent) :
    Inv options (events ++ [event]) { t with moment := t.moment + 1 } := by
  obtain ⟨shell, command, hcommand, hsends⟩ := h.sent
  obtain ⟨input, hinput, hreplay, hversion⟩ := h.input
  obtain ⟨hnone, ⟨id', hid', hnamed⟩, hfresh⟩ := H.intents intent hintent
  obtain rfl : id' = id := Option.some.inj (hid'.symm.trans hid)
  obtain ⟨page, hcall⟩ := hnamed.called
  have hlt := hnamed.call_lt
  have htake : (events ++ [event]).take s.moment = events := by
    rw [H.moment, List.take_left]
  have hsound : Sound options (events ++ [event]) ⟨s.moment, intent.call, id', command⟩ := by
    refine ⟨⟨H.moment ▸ hlt, ?_⟩, ⟨intent.path, page, shell, ?_, hcommand⟩, ?_, ⟨input, ?_, hreplay⟩, ?_⟩
    · rw [List.length_append, ← H.moment]
      exact Nat.lt_succ_self _
    · rw [List.getElem?_append_left hlt, hcall]
    · intro k e hcall' hk he
      obtain ⟨input', hinput', -, huntyped⟩ := hnamed.fresh input.version hversion
      rw [hinput] at hinput'
      cases hinput'
      exact huntyped rfl k e hcall' (getElem?_of_append (H.moment ▸ hk) he)
    · rw [htake, ← hs, hinput]
    · rw [htake, ← hs, hnone]
  refine ⟨?_, ?_, ?_, ?_⟩
  · rw [List.length_append, ← H.moment, ← h.moment]
    rfl
  · intro i hi
    have hi : i ∈ t.intents := hi
    rw [h.intents] at hi
    cases hi
  · intro sent hmem
    have hmem : sent ∈ t.sends := hmem
    rw [hsends] at hmem
    rcases List.mem_append.mp hmem with hmem | hmem
    · exact (H.sound sent hmem).append event
    · obtain rfl := List.mem_singleton.mp hmem
      exact hsound
  · show t.sends.Pairwise _
    rw [hsends, List.pairwise_append]
    refine ⟨H.once, List.pairwise_singleton _ _, fun sent hmem last hlast => ?_⟩
    obtain rfl := List.mem_singleton.mp hlast
    exact hfresh sent hmem

theorem run_concat (options : Options) (events : List (Event Id)) (event : Event Id) :
    run options (events ++ [event]) = next options (run options events) event := by
  unfold run
  rw [List.foldl_append]
  rfl

theorem inv_run (options : Options) (events : List (Event Id)) :
    Inv options events (run options events) := by
  induction events using List.reverseRecOn with
  | nil => exact inv_init
  | append_singleton events event ih =>
    rw [run_concat]
    cases handle_cases options (run options events) event with
    | calm h typing => exact ih.calm h typing
    | called id path page hevent h =>
      have hinv := ih.called h page
      rw [← hevent] at hinv
      exact hinv
    | sent id intent hid hintent quiet h => exact ih.sent rfl hid hintent h

/-- Whatever happens, a command is sent only for a call, once for it, to the session the call named and
with nothing typed into it since; never during a replay and never before the command before it is
settled. -/
theorem navigation_never_types_along (options : Options) (events : List (Event Id)) :
    (∀ sent ∈ (run options events).sends, Sound options events sent) ∧
      (run options events).sends.Pairwise fun earlier later => earlier.call ≠ later.call :=
  ⟨(inv_run options events).sound, (inv_run options events).once⟩

/-- A command that is sent waits for its acknowledgement. -/
theorem awaits_of_sent (options : Options) (events : List (Event Id)) :
    ∀ sent ∈ (run options events).sends,
      sent ∈ (run options (events.take (sent.moment + 1))).sends ∧
        (run options (events.take (sent.moment + 1))).awaitingChange.isSome := by
  induction events using List.reverseRecOn with
  | nil =>
    intro sent hsent
    cases hsent
  | append_singleton events event ih =>
    have hinv := inv_run options events
    have hrun := run_concat options events event
    have hearlier : ∀ sent ∈ (run options events).sends,
        sent ∈ (run options ((events ++ [event]).take (sent.moment + 1))).sends ∧
          (run options ((events ++ [event]).take (sent.moment + 1))).awaitingChange.isSome := by
      intro sent hsent
      rw [List.take_append_of_le_length (Nat.succ_le_of_lt (hinv.sound sent hsent).moment.2)]
      exact ih sent hsent
    cases handle_cases options (run options events) event with
    | calm h typing =>
      intro sent hsent
      rw [hrun] at hsent
      exact hearlier sent (h.sends ▸ hsent)
    | called id path page hevent h =>
      intro sent hsent
      rw [hrun] at hsent
      exact hearlier sent (h.sends ▸ hsent)
    | sent id intent hid hintent quiet h =>
      obtain ⟨shell, command, -, hsends⟩ := h.sent
      have hsends' : (run options (events ++ [event])).sends =
          (run options events).sends ++ [⟨(run options events).moment, intent.call, id, command⟩] := by
        rw [hrun]
        exact hsends
      have hawaits : (run options (events ++ [event])).awaitingChange.isSome := by
        rw [hrun]
        exact h.awaits
      intro sent hsent
      rw [hsends'] at hsent
      rcases List.mem_append.mp hsent with hsent | hsent
      · exact hearlier sent hsent
      · obtain rfl := List.mem_singleton.mp hsent
        have htake : (events ++ [event]).take ((run options events).moment + 1) = events ++ [event] := by
          rw [hinv.moment]
          exact List.take_of_length_le (by rw [List.length_append]; exact Nat.le_refl _)
        rw [htake, hsends']
        exact ⟨List.mem_append_right _ (List.mem_singleton_self _), hawaits⟩

omit [DecidableEq Id] in
/-- The events between two of them. -/
theorem exists_split_two {k m : Nat} {called : Event Id} (hcalled : events[k]? = some called)
    (hkm : k < m) (hm : m < events.length) : ∃ before between sending after,
      events = before ++ called :: between ++ sending :: after ∧ before.length = k ∧
      events.take m = before ++ called :: between ∧
      events.take (m + 1) = before ++ called :: between ++ [sending] ∧
      ∀ event ∈ between, ∃ j, k < j ∧ j < m ∧ events[j]? = some event := by
  obtain ⟨hk, rfl⟩ := List.getElem?_eq_some_iff.mp hcalled
  have hlength : k < (events.take m).length := by
    rw [List.length_take]
    exact lt_min hkm hk
  have hfirst : events.take m =
      events.take k ++ events[k] :: (events.take m).drop (k + 1) := by
    have hsplit := List.take_append_drop k (events.take m)
    rw [List.drop_eq_getElem_cons hlength, List.take_take, Nat.min_eq_left (Nat.le_of_lt hkm),
      List.getElem_take] at hsplit
    exact hsplit.symm
  refine ⟨events.take k, (events.take m).drop (k + 1), events[m], events.drop (m + 1), ?_, ?_, hfirst,
    ?_, ?_⟩
  · rw [← hfirst, ← List.drop_eq_getElem_cons hm, List.take_append_drop]
  · exact List.length_take_of_le (Nat.le_of_lt hk)
  · rw [← hfirst]
    exact List.take_succ_eq_append_getElem hm
  · intro event hevent
    obtain ⟨i, hi⟩ := List.mem_iff_getElem?.mp hevent
    rw [List.getElem?_drop] at hi
    have hlt := (List.getElem?_eq_some_iff.mp hi).1
    rw [List.length_take] at hlt
    refine ⟨k + 1 + i, by omega, (lt_min_iff.mp hlt).1, ?_⟩
    rwa [List.getElem?_take_of_lt (lt_min_iff.mp hlt).1] at hi

/-- Every command that is sent is the one a call of `navigate` asks for, and no other command is sent
for the call. Between the call and the event that sends it nothing is typed into the session, which is
the one of the call; when it is sent there is no replay and no other command waits for its
acknowledgement, as this one does from then on. -/
theorem directory_sync_never_types_over (options : Options) (events : List (Event Id)) :
    ((run options events).sends.map Sent.call).Nodup ∧
    ∀ sent ∈ (run options events).sends, ∃ before called between sending after,
      events = before ++ called :: between ++ sending :: after ∧ before.length = sent.call ∧
      (∃ path page shell, called = .navigate sent.id path page ∧
        cdCommand path shell = some sent.command) ∧
      (∀ event ∈ between, ¬ Types sent.id event) ∧
      sent ∉ (run options (before ++ called :: between)).sends ∧
      (∃ input ∈ (run options (before ++ called :: between)).inputs sent.id, input.replayDepth = 0) ∧
      (run options (before ++ called :: between)).awaitingChange = none ∧
      sent ∈ (run options (before ++ called :: between ++ [sending])).sends ∧
      (run options (before ++ called :: between ++ [sending])).awaitingChange.isSome := by
  have hinv := inv_run options events
  refine ⟨List.pairwise_map.mpr hinv.once, fun sent hsent => ?_⟩
  obtain ⟨hmoment, ⟨path, page, shell, hcalled, hcommand⟩, huntyped, hreplay, hsettled⟩ :=
    hinv.sound sent hsent
  obtain ⟨hsends, hawaits⟩ := awaits_of_sent options events sent hsent
  obtain ⟨before, between, sending, after, hevents, hlength, htake, htake', hbetween⟩ :=
    exists_split_two hcalled hmoment.1 hmoment.2
  rw [htake] at hreplay hsettled
  rw [htake'] at hsends hawaits
  refine ⟨before, _, between, sending, after, hevents, hlength, ⟨path, page, shell, rfl, hcommand⟩,
    fun event hevent => ?_, fun hmem => ?_, hreplay, hsettled, hsends, hawaits⟩
  · obtain ⟨j, hcall, hj, hget⟩ := hbetween event hevent
    exact huntyped j event hcall hj hget
  · have hlt := ((inv_run options _).sound sent hmem).moment.2
    rw [← htake, List.length_take] at hlt
    omega

/-- The files panel shows `/`, the session stands at an empty prompt. -/
def rootPage : Page Unit where
  embeddedOpen := true
  leftSource := some ()
  leftPath := encode "/"
  bracketedPasteMode _ := true
  normalBuffer _ := true
  hasPendingInput _ := false
  now := 0

def rootDirectory : Directory where
  path := encode "/"
  shell := .sh
  shellReady := true
  shellId := none
  tmux := false
  bracketedPaste := none

/-- A navigation during the first probe is answered by the second. -/
example : ((run ⟨true, 15000, 300⟩
    [.trackTerminal (), .prompt (), .setContext (some ()) true rootPage,
      .navigate () (encode "/tmp") rootPage, .reply 0 (some rootDirectory) rootPage,
      .reply 1 (some rootDirectory) rootPage]).sends.map fun sent => (sent.call, sent.moment, sent.command)) =
    [(3, 5, encode "cd -- '/tmp'\r")] := by
  decide +kernel

end WebSSH.Terminal.DirectorySync
