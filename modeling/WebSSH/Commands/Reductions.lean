import Mathlib
import WebSSH.Commands.Sets
import WebSSH.Lib.Sublists

/-!
# Making stored commands smaller

`validate_user_command` and `validate_command_set` of `command_storage_policy.py` let a text that is
over its limit pass where the stored text at the same place is no shorter. A step or an operating
system that is deleted moves the later ones to other places.
-/

namespace WebSSH.Commands
open Lib Lib.Python

/-! ## Stored commands -/

/-- A command as `_valid_command` has it. -/
structure UserCommand where
  id : String
  name : String
  command : String
  parameters : Option String
  description : Option String
  category : Option String
  os : Option (List String)

def commandCategoryMaxBytes : Nat := 256
def commandOsValueMaxBytes : Nat := 128

namespace UserCommand

/-- `command.get(field)` of the fields that are texts. -/
def get? (command : UserCommand) : String → Option String
  | "id" => some command.id
  | "name" => some command.name
  | "command" => some command.command
  | "parameters" => command.parameters
  | "description" => command.description
  | "category" => command.category
  | _ => none

/-- The fields of `validate_user_command`, their limits and labels, the id first. -/
def fields : List (String × Nat × String) :=
  [("id", commandIdMaxBytes, "command id"),
    ("name", commandNameMaxBytes, "command name"),
    ("command", commandTextMaxBytes, "command text"),
    ("parameters", commandParametersMaxBytes, "command parameters"),
    ("description", commandDescriptionMaxBytes, "command description"),
    ("category", commandCategoryMaxBytes, "command category")]

def optionJson (field : String) (value : Option Json) : List (String × Json) :=
  (value.map (Prod.mk field)).toList

/-- The command as a dictionary. -/
def json (command : UserCommand) : List (String × Json) :=
  [("id", .str command.id), ("name", .str command.name), ("command", .str command.command)] ++
    optionJson "parameters" (command.parameters.map .str) ++
    optionJson "description" (command.description.map .str) ++
    optionJson "category" (command.category.map .str) ++
    optionJson "os" (command.os.map fun os => .list (os.map .str))

end UserCommand

/-- `validate_user_command`; `maximumOs` is the configured `COMMAND_OS_MAX_ENTRIES`. -/
def validateUserCommand (maximumOs : Nat) (command : List (String × Json))
    (legacy : Option UserCommand) : Except String Unit := do
  UserCommand.fields.forM fun field =>
    boundedText ((Json.get command field.1).getD (.str "")) field.2.1 field.2.2
      (legacy.bind fun legacy => legacy.get? field.1)
  let legacyOs := (legacy.bind UserCommand.os).getD []
  match (Json.get command "os").getD (.list []) with
  | .list osValues =>
    raiseIf (maximumOs < osValues.length ∧ legacyOs.length < osValues.length)
      (quotaError "too many command operating systems")
    (osValues.zipIdx.forM fun value =>
      boundedText value.1 commandOsValueMaxBytes "command operating system" legacyOs[value.2]? :
      Except String Unit)
  | _ => .error (quotaError "command operating systems must be a list")

/-! ## One text -/

/-- `utf8_size` -/
def utf8Size (text : String) : Nat := (encode text).length

/-- The text is within its limit, or no longer than the stored text. -/
def Fits (limit : Nat) (text : String) (legacy : Option String) : Prop :=
  utf8Size text ≤ limit ∨ ∃ stored ∈ legacy, utf8Size text ≤ utf8Size stored

variable {limit maximumSteps maximumOs : Nat} {label text text' : String} {legacy : Option String}

theorem boundedText_str_iff :
    boundedText (.str text) limit label legacy = .ok () ↔ Fits limit text legacy := by
  unfold boundedText Fits utf8Size
  dsimp only
  split
  · next h => exact iff_of_true rfl (.inl h)
  · next h =>
    rw [or_iff_right h]
    cases legacy with
    | none => simp
    | some stored => simp

theorem Fits.shorter (h : utf8Size text' ≤ utf8Size text) (H : Fits limit text legacy) :
    Fits limit text' legacy :=
  H.imp h.trans fun hstored => hstored.imp fun _ hs => ⟨hs.1, h.trans hs.2⟩

/-- A text fits where it was stored. -/
theorem Fits.stored (limit : Nat) (text : String) : Fits limit text (some text) :=
  .inr ⟨text, rfl, Nat.le_refl _⟩

/-- A field that may be missing, shortened. -/
theorem Fits.getD {stored update : Option String}
    (h : utf8Size (update.getD "") ≤ utf8Size (stored.getD "")) :
    Fits limit (update.getD "") stored := by
  cases stored with
  | none => exact .inl (h.trans (Nat.zero_le _))
  | some text => exact (Fits.stored limit text).shorter h

/-! ## User commands -/

/-- Texts shortened and operating systems deleted. -/
structure UserCommand.Reduces (update stored : UserCommand) : Prop where
  texts : ∀ field, utf8Size ((update.get? field).getD "") ≤ utf8Size ((stored.get? field).getD "")
  os : ∃ kept : List String, kept.Sublist (stored.os.getD []) ∧
    List.Forall₂ (fun text stored => utf8Size text ≤ utf8Size stored) (update.os.getD []) kept

theorem UserCommand.get_json (command : UserCommand) {field : String × Nat × String}
    (h : field ∈ UserCommand.fields) :
    (Json.get command.json field.1).getD (.str "") = .str ((command.get? field.1).getD "") := by
  obtain ⟨id, name, text, parameters, description, category, os⟩ := command
  simp only [UserCommand.fields, List.mem_cons, List.not_mem_nil, or_false] at h
  rcases h with rfl | rfl | rfl | rfl | rfl | rfl <;> cases parameters <;> cases description <;>
    cases category <;> cases os <;> rfl

theorem UserCommand.get_json_os (command : UserCommand) :
    (Json.get command.json "os").getD (.list []) = .list ((command.os.getD []).map .str) := by
  obtain ⟨id, name, text, parameters, description, category, os⟩ := command
  cases parameters <;> cases description <;> cases category <;> cases os <;> rfl

/-- The texts of a list, each beside what is stored at its place. -/
theorem forM_boundedText_iff {texts stored : List String} :
    ((texts.map Json.str).zipIdx.forM fun value =>
        boundedText value.1 limit label stored[value.2]? : Except String Unit) = .ok () ↔
      ∀ (i : Nat) (text : String), texts[i]? = some text → Fits limit text stored[i]? := by
  rw [forM_eq_ok]
  constructor
  · intro h i text htext
    refine boundedText_str_iff.mp (h (.str text, i) ?_)
    rw [List.mem_zipIdx_iff_getElem?, List.getElem?_map, htext]
    rfl
  · rintro h ⟨value, i⟩ hvalue
    rw [List.mem_zipIdx_iff_getElem?, List.getElem?_map] at hvalue
    obtain ⟨text, htext, rfl⟩ := Option.map_eq_some_iff.mp hvalue
    exact boundedText_str_iff.mpr (h i text htext)

theorem validateUserCommand_iff {update stored : UserCommand} :
    validateUserCommand maximumOs update.json (some stored) = .ok () ↔
      (∀ field ∈ UserCommand.fields,
        Fits field.2.1 ((update.get? field.1).getD "") (stored.get? field.1)) ∧
      ¬ (maximumOs < (update.os.getD []).length ∧
        (stored.os.getD []).length < (update.os.getD []).length) ∧
      ∀ (i : Nat) (text : String), (update.os.getD [])[i]? = some text →
        Fits commandOsValueMaxBytes text (stored.os.getD [])[i]? := by
  unfold validateUserCommand
  rw [UserCommand.get_json_os]
  constructor
  · intro h
    obtain ⟨_, hfields, h⟩ := bind_eq_ok.mp h
    obtain ⟨_, hcount, hos⟩ := bind_eq_ok.mp h
    refine ⟨fun field hfield => ?_, ?_, forM_boundedText_iff.mp hos⟩
    · have hfield' := forM_eq_ok.mp hfields field hfield
      rw [UserCommand.get_json update hfield] at hfield'
      exact boundedText_str_iff.mp hfield'
    · have hcount := raiseIf_eq_ok.mp hcount
      rwa [List.length_map] at hcount
  · rintro ⟨hfields, hcount, hos⟩
    refine bind_eq_ok.mpr ⟨(), forM_eq_ok.mpr fun field hfield => ?_, ?_⟩
    · rw [UserCommand.get_json update hfield]
      exact boundedText_str_iff.mpr (hfields field hfield)
    · refine bind_eq_ok.mpr ⟨(), raiseIf_eq_ok.mpr ?_, forM_boundedText_iff.mpr hos⟩
      rwa [List.length_map]

/-- A list that lost items has no more than before. -/
theorem length_le_of_reduced {α : Type} {S : α → α → Prop} {new kept l : List α}
    (hnew : List.Forall₂ S new kept) (hkept : kept.Sublist l) : new.length ≤ l.length :=
  hnew.length_eq.trans_le hkept.length_le

/-- What stands at a place of a list that lost items, and what stood there. -/
theorem exists_getElem?_of_reduced {α : Type} {S : α → α → Prop} {new kept l : List α}
    (hnew : List.Forall₂ S new kept) (hkept : kept.Sublist l) {i : Nat} {b : α}
    (hb : new[i]? = some b) : ∃ a, l[i]? = some a := by
  obtain ⟨hi, -⟩ := List.getElem?_eq_some_iff.mp hb
  have hle := length_le_of_reduced hnew hkept
  exact ⟨l[i], List.getElem?_eq_getElem (Nat.lt_of_lt_of_le hi hle)⟩

theorem userCommand_reductions_iff (stored : UserCommand) :
    (∀ update : UserCommand, update.Reduces stored →
        validateUserCommand maximumOs update.json (some stored) = .ok ()) ↔
      (stored.os.getD []).Pairwise fun earlier later =>
        Fits commandOsValueMaxBytes later (some earlier) := by
  have hpositions := Sublists.forall_reduced_iff (l := stored.os.getD [])
    (S := fun text stored => utf8Size text ≤ utf8Size stored)
    (R := fun earlier later => Fits commandOsValueMaxBytes later (some earlier))
    (fun _ => Nat.le_refl _) (fun _ _ _ h hs => h.shorter hs)
  have hself : ∀ text ∈ stored.os.getD [], Fits commandOsValueMaxBytes text (some text) :=
    fun text _ => Fits.stored _ text
  constructor
  · intro h
    refine (hpositions.mp fun kept new hkept hnew i a b ha hb => ?_).1
    have hreduces : ({ stored with os := some new } : UserCommand).Reduces stored :=
      ⟨fun field => by unfold UserCommand.get?; split <;> exact Nat.le_refl _, kept, hkept, hnew⟩
    have hfits := (validateUserCommand_iff.mp (h _ hreduces)).2.2 i b hb
    rwa [ha] at hfits
  · intro h update hreduces
    obtain ⟨kept, hkept, hnew⟩ := hreduces.os
    refine validateUserCommand_iff.mpr ⟨fun field _ => Fits.getD (hreduces.texts field.1), ?_, ?_⟩
    · have hle := length_le_of_reduced hnew hkept
      omega
    · intro i text htext
      obtain ⟨previous, hprevious⟩ := exists_getElem?_of_reduced hnew hkept htext
      rw [hprevious]
      exact hpositions.mpr ⟨h, hself⟩ kept _ hkept hnew i previous text hprevious htext

/-! ## Command sets -/

/-- A step with its texts shortened. -/
inductive Step.Shortens : Step → Step → Prop
  | inline {command stored : String} (h : utf8Size command ≤ utf8Size stored) :
    Shortens (.inline command) (.inline stored)
  | library {commandId stored : String} {parameters storedParameters : Option (Option String)}
    (h : utf8Size commandId ≤ utf8Size stored)
    (hparameters : ∀ text ∈ parameters.join,
      ∃ previous ∈ storedParameters.join, utf8Size text ≤ utf8Size previous) :
    Shortens (.library commandId parameters) (.library stored storedParameters)

theorem Step.Shortens.refl (step : Step) : step.Shortens step := by
  cases step with
  | inline command => exact .inline (Nat.le_refl _)
  | library commandId parameters =>
    exact .library (Nat.le_refl _) fun text htext => ⟨text, htext, Nat.le_refl _⟩

/-- The step fits where `previous` is stored. -/
def Step.FitsAt (step previous : Step) : Prop :=
  match step with
  | .inline command => Fits commandTextMaxBytes command previous.command?
  | .library commandId parameters =>
    Fits commandIdMaxBytes commandId previous.commandId? ∧
      ∀ text ∈ parameters.join, Fits commandParametersMaxBytes text previous.parametersOverride?

theorem Step.fitsAt_self (step : Step) : step.FitsAt step := by
  cases step with
  | inline command => exact Fits.stored _ command
  | library commandId parameters =>
    exact ⟨Fits.stored _ commandId, fun text htext => .inr ⟨text, htext, Nat.le_refl _⟩⟩

theorem Step.FitsAt.shortens {previous step new : Step} (H : step.FitsAt previous)
    (h : new.Shortens step) : new.FitsAt previous := by
  cases h with
  | inline h => exact Fits.shorter h H
  | library h hparameters =>
    refine ⟨Fits.shorter h H.1, fun text htext => ?_⟩
    obtain ⟨stored, hstored, hle⟩ := hparameters text htext
    exact Fits.shorter hle (H.2 stored hstored)

theorem validateStep_iff {step previous : Step} :
    validateStep step.json (some previous) = .ok () ↔ step.FitsAt previous := by
  cases step with
  | inline command => exact boundedText_str_iff
  | library commandId parameters =>
    have hid : boundedText (.str commandId) commandIdMaxBytes "command reference"
        previous.commandId? = .ok () ↔ Fits commandIdMaxBytes commandId previous.commandId? :=
      boundedText_str_iff
    have hnone : (∃ u : Unit, boundedText (.str commandId) commandIdMaxBytes "command reference"
        previous.commandId? = .ok u ∧ (Except.ok () : Except String Unit) = .ok ()) ↔
        Fits commandIdMaxBytes commandId previous.commandId? := by
      rw [← hid]
      exact ⟨fun h => h.elim fun _ hu => hu.1, fun h => ⟨(), h, rfl⟩⟩
    rcases parameters with _ | _ | text
    · refine bind_eq_ok.trans (hnone.trans (and_iff_left fun text htext => ?_).symm)
      cases htext
    · refine bind_eq_ok.trans (hnone.trans (and_iff_left fun text htext => ?_).symm)
      cases htext
    · refine bind_eq_ok.trans ?_
      constructor
      · rintro ⟨_, hid', htext⟩
        refine ⟨hid.mp hid', fun text' htext' => ?_⟩
        cases htext'
        exact boundedText_str_iff.mp htext
      · rintro ⟨hid', htext⟩
        exact ⟨(), hid.mpr hid', boundedText_str_iff.mpr (htext text rfl)⟩

/-- Texts shortened and steps deleted. -/
structure CommandSet.Reduces (update stored : CommandSet) : Prop where
  id : utf8Size update.id ≤ utf8Size stored.id
  name : utf8Size update.name ≤ utf8Size stored.name
  description : utf8Size (update.description.getD "") ≤ utf8Size (stored.description.getD "")
  steps : ∃ kept : List Step, kept.Sublist stored.steps ∧
    List.Forall₂ Step.Shortens update.steps kept

/-- `validate_command_set(update, stored)` -/
def CommandSet.validate (maximumSteps : Nat) (update stored : CommandSet) : Except String Unit :=
  validateCommandSet maximumSteps update.id update.name (update.description.getD "")
    (.list (update.steps.map Step.json)) (some stored)

theorem CommandSet.validate_iff {update stored : CommandSet}
    (hcount : update.steps.length ≤ stored.steps.length) :
    update.validate maximumSteps stored = .ok () ↔
      Fits commandIdMaxBytes update.id (some stored.id) ∧
      Fits commandNameMaxBytes update.name (some stored.name) ∧
      Fits commandDescriptionMaxBytes (update.description.getD "") stored.description ∧
      ∀ (i : Nat) (previous step : Step), stored.steps[i]? = some previous →
        update.steps[i]? = some step → step.FitsAt previous := by
  unfold CommandSet.validate validateCommandSet
  constructor
  · intro h
    obtain ⟨_, hid, h⟩ := bind_eq_ok.mp h
    obtain ⟨_, hname, h⟩ := bind_eq_ok.mp h
    obtain ⟨_, hdescription, h⟩ := bind_eq_ok.mp h
    obtain ⟨_, -, hsteps⟩ := bind_eq_ok.mp h
    refine ⟨boundedText_str_iff.mp hid, boundedText_str_iff.mp hname,
      boundedText_str_iff.mp hdescription, fun i previous step hprevious hstep => ?_⟩
    have hvalid := forM_eq_ok.mp hsteps (step.json, i) <| by
      rw [List.mem_zipIdx_iff_getElem?, List.getElem?_map, hstep]
      rfl
    have hplace : ((some stored).map CommandSet.steps).getD [] = stored.steps := rfl
    rw [hplace, hprevious] at hvalid
    exact validateStep_iff.mp hvalid
  · rintro ⟨hid, hname, hdescription, hsteps⟩
    refine bind_eq_ok.mpr ⟨(), boundedText_str_iff.mpr hid, ?_⟩
    refine bind_eq_ok.mpr ⟨(), boundedText_str_iff.mpr hname, ?_⟩
    refine bind_eq_ok.mpr ⟨(), boundedText_str_iff.mpr hdescription, ?_⟩
    have hlen : (update.steps.map Step.json).length ≤ stored.steps.length :=
      (List.length_map Step.json).trans_le hcount
    refine bind_eq_ok.mpr ⟨(), raiseIf_eq_ok.mpr fun h => Nat.not_lt.mpr hlen h.2, ?_⟩
    refine forM_eq_ok.mpr fun item hitem => ?_
    rw [List.mem_zipIdx_iff_getElem?, List.getElem?_map] at hitem
    obtain ⟨step, hstep, hjson⟩ := Option.map_eq_some_iff.mp hitem
    obtain ⟨hi, -⟩ := List.getElem?_eq_some_iff.mp hstep
    have hprevious := List.getElem?_eq_getElem (Nat.lt_of_lt_of_le hi hcount)
    have hplace : ((some stored).map CommandSet.steps).getD [] = stored.steps := rfl
    rw [hplace, hprevious, ← hjson]
    exact validateStep_iff.mpr (hsteps item.2 _ step hprevious hstep)

theorem commandSet_reductions_iff (stored : CommandSet) :
    (∀ update : CommandSet, update.Reduces stored →
        update.validate maximumSteps stored = .ok ()) ↔
      stored.steps.Pairwise fun earlier later => later.FitsAt earlier := by
  have hpositions := Sublists.forall_reduced_iff (l := stored.steps) (S := Step.Shortens)
    (R := fun earlier later => later.FitsAt earlier) Step.Shortens.refl
    (fun _ _ _ h hs => h.shortens hs)
  have hself : ∀ step ∈ stored.steps, step.FitsAt step := fun step _ => step.fitsAt_self
  constructor
  · intro h
    refine (hpositions.mp fun kept new hkept hnew i a b ha hb => ?_).1
    have hreduces : ({ stored with steps := new } : CommandSet).Reduces stored :=
      ⟨Nat.le_refl _, Nat.le_refl _, Nat.le_refl _, kept, hkept, hnew⟩
    have hvalid := (CommandSet.validate_iff (length_le_of_reduced hnew hkept)).mp (h _ hreduces)
    exact hvalid.2.2.2 i a b ha hb
  · intro h update hreduces
    obtain ⟨kept, hkept, hnew⟩ := hreduces.steps
    refine (CommandSet.validate_iff (length_le_of_reduced hnew hkept)).mpr ⟨?_, ?_, ?_, ?_⟩
    · exact .inr ⟨stored.id, rfl, hreduces.id⟩
    · exact .inr ⟨stored.name, rfl, hreduces.name⟩
    · exact Fits.getD hreduces.description
    · intro i previous step hprevious hstep
      exact hpositions.mpr ⟨h, hself⟩ kept _ hkept hnew i previous step hprevious hstep

/-! ## The guarantee -/

/-- Every reduction of what is stored passes exactly where no later step, or operating system, has a
text over its limit that is longer than what an earlier one has in its place. -/
theorem storage_reductions_iff :
    (∀ stored : CommandSet,
      (∀ update : CommandSet, update.Reduces stored →
        update.validate maximumSteps stored = .ok ()) ↔
      stored.steps.Pairwise fun earlier later => later.FitsAt earlier) ∧
    ∀ stored : UserCommand,
      (∀ update : UserCommand, update.Reduces stored →
        validateUserCommand maximumOs update.json (some stored) = .ok ()) ↔
      (stored.os.getD []).Pairwise fun earlier later =>
        Fits commandOsValueMaxBytes later (some earlier) :=
  ⟨commandSet_reductions_iff, userCommand_reductions_iff⟩

/-- A set with a reference of 129 bytes from the time of other limits. -/
def legacySet : CommandSet where
  id := "1"
  name := "deploy"
  description := none
  useSudo := none
  steps := [.library "a" none, .library (String.ofList (List.replicate 129 'x')) none]
  createdAt := none
  updatedAt := none
  unknown := []

/-- Its first step cannot be deleted. -/
theorem first_step_stays :
    ({ legacySet with steps := legacySet.steps.tail } : CommandSet).Reduces legacySet ∧
      ({ legacySet with steps := legacySet.steps.tail } : CommandSet).validate 64 legacySet =
        .error "Command storage quota exceeded: command reference is too large" := by
  refine ⟨⟨Nat.le_refl _, Nat.le_refl _, Nat.le_refl _, legacySet.steps.tail,
    List.tail_sublist _, List.forall₂_same.mpr fun step _ => Step.Shortens.refl step⟩, ?_⟩
  decide +kernel

end WebSSH.Commands
