import WebSSH.Smb.VerifiedOpen

/-!
# The handles of a verified open

What a walk has opened and not closed is its current handle and those of its opaque records
(`Held`), or no more than these (`Covered`), which the outer handler closes. An object that is opened
keeps what is said about it, so that the identities of the chain have been reported for the paths of
the components, and no report of a reparse point is passed over (`Walked`).
-/

namespace WebSSH.Smb.Verified
open Lib Program

/-! ## States -/

namespace State

/-- The handle is open: `open()` has been called, and `close()` has not. -/
def Pending (s : State) (k : Nat) : Prop :=
  ∃ h, s.handles[k]? = some h ∧ h.opening = true ∧ h.closing = false

/-- The identity has been reported for an object of the path. -/
def Reports (s : State) (path : String) (fileId : Nat) : Prop :=
  ∃ h ∈ s.handles, h.path = path ∧ ∃ info ∈ h.infos, info.indexNumber = fileId

end State

/-- Nothing says that the object is a reparse point. -/
structure Handle.Plain (h : Handle) : Prop where
  attributes : ∀ a ∈ h.attributes, isReparsePoint a = false
  infos : ∀ info ∈ h.infos, isReparsePoint info.fileAttributes = false

/-- The objects other than the share are not known as reparse points. -/
def State.Clean (s : State) (root : String) : Prop :=
  ∀ h ∈ s.handles, h.path ≠ root → h.Plain

namespace State

def add (s : State) (h : Handle) : State := { s with handles := s.handles ++ [h] }

def update (s : State) (raw : Nat) (f : Handle → Handle) : State :=
  { s with handles := s.handles.modify raw f }

def closed (s : State) (raw : Nat) : State := s.update raw fun h => { h with closing := true }

def setWalk (s : State) (f : Walk → Walk) : State := { s with walk := f s.walk }

variable {s t : State} {h : Handle} {k raw fileId : Nat} {path root : String} {f : Walk → Walk}

@[simp] theorem add_walk : (s.add h).walk = s.walk := rfl
@[simp] theorem update_walk {f : Handle → Handle} : (s.update raw f).walk = s.walk := rfl
@[simp] theorem closed_walk : (s.closed raw).walk = s.walk := rfl
@[simp] theorem setWalk_walk : (s.setWalk f).walk = f s.walk := rfl
@[simp] theorem pending_setWalk : (s.setWalk f).Pending k ↔ s.Pending k := Iff.rfl
@[simp] theorem reports_setWalk : (s.setWalk f).Reports path fileId ↔ s.Reports path fileId := Iff.rfl
@[simp] theorem clean_setWalk : (s.setWalk f).Clean root ↔ s.Clean root := Iff.rfl

theorem modify_append {α : Type} (l : List α) (a : α) (f : α → α) :
    (l ++ [a]).modify l.length f = l ++ [f a] := by
  induction l with
  | nil => rfl
  | cons b l ih => exact congrArg (b :: ·) ih

theorem update_add (f : Handle → Handle) : (s.add h).update s.handles.length f = s.add (f h) :=
  congrArg (State.mk · s.walk) (modify_append s.handles h f)

theorem Pending.lt (h : s.Pending k) : k < s.handles.length :=
  (List.getElem?_eq_some_iff.mp h.choose_spec.1).1

theorem not_pending_length : ¬ s.Pending s.handles.length := fun h => Nat.lt_irrefl _ h.lt

theorem pending_add :
    (s.add h).Pending k ↔
      s.Pending k ∨ k = s.handles.length ∧ h.opening = true ∧ h.closing = false := by
  simp only [Pending, add]
  rcases Nat.lt_trichotomy k s.handles.length with hk | rfl | hk
  · rw [List.getElem?_append_left hk]
    simp [Nat.ne_of_lt hk]
  · simp
  · rw [List.getElem?_eq_none (by simp; omega), List.getElem?_eq_none (by omega)]
    simp [Nat.ne_of_gt hk]

theorem pending_closed : (s.closed raw).Pending k ↔ s.Pending k ∧ k ≠ raw := by
  simp only [Pending, closed, update, List.getElem?_modify]
  rcases Decidable.eq_or_ne raw k with rfl | hk
  · cases s.handles[raw]? with
    | none => simp
    | some h => simp
  · simp [hk, hk.symm]

theorem Reports.add (hr : s.Reports path fileId) (h : Handle) : (s.add h).Reports path fileId :=
  let ⟨g, hg, hrest⟩ := hr
  ⟨g, List.mem_append_left _ hg, hrest⟩

theorem Reports.closed (hr : s.Reports path fileId) (raw : Nat) :
    (s.closed raw).Reports path fileId := by
  obtain ⟨g, hg, hpath, hinfo⟩ := hr
  obtain ⟨k, hk⟩ := List.getElem?_of_mem hg
  have hget : (s.closed raw).handles[k]? =
      some (if raw = k then { g with closing := true } else g) := by
    simp only [State.closed, update, List.getElem?_modify, hk]
    split <;> rfl
  refine ⟨_, List.mem_of_getElem? hget, ?_⟩
  split
  · exact ⟨hpath, hinfo⟩
  · exact ⟨hpath, hinfo⟩

theorem Clean.add (hs : s.Clean root) (hh : h.path ≠ root → h.Plain) : (s.add h).Clean root := by
  intro g hg
  rcases List.mem_append.mp hg with hg | hg
  · exact hs g hg
  · rw [List.mem_singleton.mp hg]
    exact hh

theorem Clean.closed (hs : s.Clean root) (raw : Nat) : (s.closed raw).Clean root := by
  intro g hg hne
  obtain ⟨k, hk⟩ := List.getElem?_of_mem hg
  simp only [State.closed, update, List.getElem?_modify] at hk
  cases hold : s.handles[k]? with
  | none => simp [hold] at hk
  | some h =>
    rw [hold] at hk
    simp only [Option.map_eq_map, Option.map_some, Option.some.injEq] at hk
    split at hk
    · subst hk
      exact ⟨(hs h (List.mem_of_getElem? hold) hne).1, (hs h (List.mem_of_getElem? hold) hne).2⟩
    · subst hk
      exact hs h (List.mem_of_getElem? hold) hne

end State

/-! ## Calls -/

/-- A precondition of a session. -/
abbrev Does {α : Type} (x : Session α) (Q : α → State → Prop) (R : Error → State → Prop)
    (A : State → Prop) (s : State) : Prop := x.Wp (fun _ => True) Q R A s

section
variable {server : Server} {s : State} {raw : Nat} {path : String} {α : Type}
  {R : Error → State → Prop} {A : State → Prop}

theorem ask_does {Q : Reply → State → Prop} (hQ : ∀ reply, Q reply s) (hR : ∀ e, R e s) (hA : A s) :
    Does (ask server) Q R A s := by
  refine .call hR hA fun n reply t hop => ?_
  cases hop
  exact ⟨trivial, hQ _, hR, hA⟩

theorem onHandle_does {Q : PUnit → State → Prop} {f : Handle → Handle}
    (hQ : Q ⟨⟩ (s.update raw f)) : Does (onHandle raw f) Q R A s :=
  .modify trivial hQ

theorem onAdded_does {Q : PUnit → State → Prop} {f : Handle → Handle} {h : Handle}
    (hQ : Q ⟨⟩ (s.add (f h))) : Does (onHandle s.handles.length f) Q R A (s.add h) :=
  onHandle_does (by rw [State.update_add]; exact hQ)

theorem assign_does {Q : PUnit → State → Prop} {f : Walk → Walk} (hQ : Q ⟨⟩ (s.setWalk f)) :
    Does (assign f) Q R A s :=
  .modify trivial hQ

theorem locals_does {Q : Walk → State → Prop} (hQ : Q s.walk s) : Does locals Q R A s :=
  .bind (.get (Q := fun w t => w = s ∧ t = s) ⟨rfl, rfl⟩) (by
    rintro _ _ ⟨rfl, rfl⟩
    exact .pure hQ)

theorem ofExcept_does {Q : α → State → Prop} {x : Except Error α} (hQ : ∀ a, x = .ok a → Q a s)
    (hR : ∀ e, x = .error e → R e s) : Does (ofExcept x) Q R A s := by
  cases x with
  | ok a => exact .pure (hQ a rfl)
  | error e => exact .raise (hR e rfl)

/-- A call of `close()` counts, whether it fails or not. -/
theorem close_does {Q : PUnit → State → Prop} (hQ : Q ⟨⟩ (s.closed raw))
    (hR : ∀ e, R e (s.closed raw)) : Does (close server raw) Q R A s := by
  refine .bind (onHandle_does (Q := fun _ t => t = s.closed raw) rfl) ?_
  rintro _ _ rfl
  refine .bind (P := fun _ t => t = s.closed raw) (.raising (ask_does (fun _ => rfl) hR (hR _))) ?_
  rintro _ _ rfl
  exact .pure hQ

theorem closeQuietly_does {Q : PUnit → State → Prop} (hQ : Q ⟨⟩ (s.closed raw)) :
    Does (closeQuietly server raw) Q R A s :=
  .handle (E := fun _ t => t = s.closed raw) (close_does hQ fun _ => rfl) (by
    rintro _ _ rfl
    exact .pure hQ)

theorem closeAll_does {Q : PUnit → State → Prop} {raws : List Nat}
    (hQ : Q ⟨⟩ (raws.foldl State.closed s)) : Does (closeAll server raws) Q R A s := by
  induction raws generalizing s with
  | nil => exact .pure hQ
  | cons raw raws ih =>
    refine .bind (closeQuietly_does (Q := fun _ t => t = s.closed raw) rfl) ?_
    rintro _ _ rfl
    exact ih hQ

/-! ## Opening -/

/-- A handle that has been opened for a path and found to be no reparse point. -/
structure Opened (path : String) (h : Handle) : Prop where
  path : h.path = path
  opening : h.opening = true
  closing : h.closing = false
  plain : h.Plain
  infos : h.infos = []

/-- A handle that has been closed, or never opened. -/
def Over (h : Handle) : Prop := h.opening = true → h.closing = true

/-- What is left of an attempt to open that has failed with `e`. -/
structure Spoiled (e : Error) (h : Handle) : Prop where
  ended : Over h
  plain : permissionDenied e = true → h.Plain

/-- The session opens a handle for a path, or leaves none open. -/
def Opens (x : Session Nat) (path : String) : Prop :=
  ∀ (s : State) (Q : Nat → State → Prop) (R : Error → State → Prop) (A : State → Prop),
    (∀ h, Opened path h → Q s.handles.length (s.add h)) → (∀ e, R e s) →
    (∀ e h, Spoiled e h → R e (s.add h)) → A s → (∀ h, Over h → A (s.add h)) → Does x Q R A s

theorem splitUnc_error {e : Error} (h : splitUnc path = .error e) : permissionDenied e = false := by
  unfold splitUnc at h
  split at h
  · dsimp only at h
    split at h
    · cases h
      decide
    · cases h
  · cases h
    decide

theorem validateShareBinding_does {Q : PUnit → State → Prop} (hQ : Q ⟨⟩ s)
    (hR : ∀ e, permissionDenied e = false → R e s) :
    Does (validateShareBinding server raw path) Q R A s := by
  refine .bind (P := fun _ t => s = t)
    (ofExcept_does (fun _ _ => rfl) fun e h => hR e (splitUnc_error h)) ?_
  rintro ⟨share, _⟩ _ rfl
  refine .bind (.get (Q := fun _ t => s = t) rfl) ?_
  rintro s' _ rfl
  split
  · split
    · exact .pure hQ
    · exact .raise (hR _ (by decide))
  · exact .raise (hR _ (by decide))

theorem validateAttributes_does {Q : Nat → State → Prop} {h : Handle}
    (hQ : ∀ a, h.attributes = some a → isReparsePoint a = false → Q a (s.add h))
    (hR : ∀ e, permissionDenied e = false → R e (s.add h)) :
    Does (validateAttributes s.handles.length) Q R A (s.add h) := by
  have hget : (s.add h).handles[s.handles.length]? = some h := by simp [State.add]
  refine .bind (.get (Q := fun s' t => s' = s.add h ∧ t = s.add h) ⟨rfl, rfl⟩) ?_
  rintro _ _ ⟨rfl, rfl⟩
  rw [hget]
  dsimp only [Option.bind_some]
  split
  · exact .raise (hR _ (by decide))
  · rename_i a ha
    split
    · exact .raise (hR _ (by decide))
    · exact .pure (hQ a ha (Bool.not_eq_true _ ▸ ‹¬ isReparsePoint a = true›))

/-- The check of a handle that has been opened lets no reparse point pass. -/
def Validates (validateType : Nat → Session PUnit) : Prop :=
  ∀ (s : State) (h : Handle) (Q : PUnit → State → Prop) (R : Error → State → Prop)
    (A : State → Prop),
    (∀ a, h.attributes = some a → isReparsePoint a = false → Q ⟨⟩ (s.add h)) →
    (∀ e, permissionDenied e = false → R e (s.add h)) →
    Does (validateType s.handles.length) Q R A (s.add h)

theorem validates_openType (isDirectory : Bool) : Validates (validateOpenType isDirectory) := by
  intro s h Q R A hQ hR
  refine .bind (P := fun a t => t = s.add h ∧ h.attributes = some a ∧ isReparsePoint a = false)
    (validateAttributes_does (fun a ha hplain => ⟨rfl, ha, hplain⟩) hR) ?_
  rintro a _ ⟨rfl, ha, hplain⟩
  split
  · exact .raise (hR _ (by decide))
  · exact .pure (hQ a ha hplain)

theorem validates_attributes :
    Validates (fun raw => do let _ ← validateAttributes raw) := by
  intro s h Q R A hQ hR
  refine .bind (P := fun a t => t = s.add h ∧ h.attributes = some a ∧ isReparsePoint a = false)
    (validateAttributes_does (fun a ha hplain => ⟨rfl, ha, hplain⟩) hR) ?_
  rintro a _ ⟨rfl, ha, hplain⟩
  exact .pure (hQ a ha hplain)

theorem plain_nil {h : Handle} (ha : h.attributes = none) (hi : h.infos = []) : h.Plain :=
  ⟨by simp [ha], by simp [hi]⟩

theorem openWith_opens {validateType : Nat → Session PUnit} (hvalidate : Validates validateType)
    {desiredAccess : Nat} {shareAccess : String} :
    Opens (openWith server validateType path desiredAccess shareAccess) path := by
  intro s Q R A hQ hR hRadd hA hAadd
  refine .bind (P := fun raw t => raw = s.handles.length ∧ ∃ h, t = s.add h ∧ h.path = path ∧
    h.opening = false ∧ h.closing = false ∧ h.attributes = none ∧ h.infos = []) ?_ ?_
  · refine .bind (P := fun _ t => s = t) (ask_does (fun _ => rfl) hR hA) ?_
    rintro reply _ rfl
    refine .bind (.get (Q := fun s' t => s = s' ∧ s = t) ⟨rfl, rfl⟩) ?_
    rintro _ _ ⟨rfl, rfl⟩
    refine .bind (.modify (Q := fun _ t => State.add _ _ = t) trivial rfl) ?_
    rintro _ _ rfl
    exact .pure ⟨rfl, _, rfl, rfl, rfl, rfl, rfl, rfl⟩
  rintro _ _ ⟨rfl, h, rfl, hpath, hopening, hclosing, hattributes, hinfos⟩
  -- whatever fails from here on leaves a handle that the cleanup closes
  refine .onFailure (E := fun e t => ∃ g, s.add g = t ∧ (permissionDenied e = true → g.Plain))
    (F := fun t => ∃ g, s.add g = t) ?_ ?_ ?_
  · refine .bind (P := fun _ t => s.add h = t) (validateShareBinding_does rfl fun e he =>
      ⟨h, rfl, fun hdenied => absurd hdenied (by simp [he])⟩) ?_
    rintro _ _ rfl
    refine .bind (P := fun _ t => ∃ g, s.add g = t ∧ g.path = path ∧ g.opening = true ∧
      g.closing = false ∧ g.infos = []) ?_ ?_
    · refine .bind (onAdded_does (Q := fun _ t => s.add { h with opening := true } = t) rfl) ?_
      rintro _ _ rfl
      refine .bind (P := fun _ t => s.add { h with opening := true } = t)
        (ask_does (fun _ => rfl) (fun e => ⟨_, rfl, fun _ => plain_nil hattributes hinfos⟩)
          ⟨_, rfl⟩) ?_
      rintro reply _ rfl
      exact onAdded_does ⟨_, rfl, hpath, rfl, hclosing, hinfos⟩
    rintro _ _ ⟨g, rfl, hpath, hopening, hclosing, hinfos⟩
    refine .bind (P := fun _ t => s.add g = t) (validateShareBinding_does rfl fun e he =>
      ⟨g, rfl, fun hdenied => absurd hdenied (by simp [he])⟩) ?_
    rintro _ _ rfl
    refine .bind (P := fun _ t => s.add g = t ∧ g.Plain) (hvalidate s g _ _ _ ?_ fun e he =>
      ⟨g, rfl, fun hdenied => absurd hdenied (by simp [he])⟩) ?_
    · intro a ha hplain
      refine ⟨rfl, fun b hb => ?_, by simp [hinfos]⟩
      cases Option.some_inj.mp (ha.symm.trans hb)
      exact hplain
    rintro _ _ ⟨rfl, hplain⟩
    exact .pure (hQ g ⟨hpath, hopening, hclosing, hplain, hinfos⟩)
  · rintro e _ ⟨g, rfl, hplain⟩
    refine closeQuietly_does ?_
    rw [State.closed, State.update_add]
    exact hRadd e _ ⟨fun _ => rfl, fun he => ⟨(hplain he).1, (hplain he).2⟩⟩
  · rintro _ ⟨g, rfl⟩
    refine closeQuietly_does ?_
    rw [State.closed, State.update_add]
    exact hAadd _ fun _ => rfl

theorem openRaw_opens {isDirectory : Bool} {desiredAccess : Nat} {shareAccess : String} :
    Opens (openRaw server path isDirectory desiredAccess shareAccess) path :=
  openWith_opens (validates_openType isDirectory)

theorem openUntypedRaw_opens {desiredAccess : Nat} :
    Opens (openUntypedRaw server path desiredAccess) path :=
  openWith_opens validates_attributes

/-! ## What is asked of an open handle -/

/-- A session that only reads: it ends in the state that it meets. -/
def Reads (x : Session α) (P : α → Prop) : Prop :=
  ∀ s, Does x (fun a t => s = t ∧ P a) (fun _ t => s = t) (fun t => s = t) s

/-- What `_query_open_info` makes of an answer. -/
structure InfoOf (raw : RawInfo) (info : ObjectInfo) : Prop where
  fileId : info.fileId = raw.indexNumber
  fileAttributes : info.fileAttributes = raw.fileAttributes
  identityChain : info.identityChain = []

theorem queryOpenInfo_does {h : Handle} {name : String} {Q : ObjectInfo → State → Prop}
    (hQ : ∀ i info, InfoOf i info → Q info (s.add { h with infos := h.infos ++ [i] }))
    (hR : ∀ e infos, R e (s.add { h with infos := infos })) (hA : A (s.add h)) :
    Does (queryOpenInfo server s.handles.length name) Q R A (s.add h) := by
  refine .bind (P := fun _ t => s.add h = t) (ask_does (fun _ => rfl) (fun e => hR e h.infos) hA) ?_
  rintro reply _ rfl
  refine .bind (onAdded_does
    (Q := fun _ t => s.add { h with infos := h.infos ++ [reply.info] } = t) rfl) ?_
  rintro _ _ rfl
  refine .bind (P := fun fileId t => s.add { h with infos := h.infos ++ [reply.info] } = t ∧
    fileId = reply.info.indexNumber) (ofExcept_does (fun fileId hid => ⟨rfl, ?_⟩) fun e _ => hR e _) ?_
  · unfold stableIdentity at hid
    split at hid
    · cases hid
    · cases hid
      rfl
  rintro _ _ ⟨rfl, rfl⟩
  exact .pure (hQ _ _ ⟨rfl, rfl, rfl⟩)

/-- A handle that has been opened is asked about its object and closed if the answer is refused. -/
theorem queryChecked_does {h : Handle} (hopened : Opened path h) {name : String}
    {check : ObjectInfo → Session α} {P : ObjectInfo → α → Prop} {cleanup : Session PUnit}
    (hcheck : ∀ info, Reads (check info) (P info))
    (hcleanup : ∀ {u : State} {Q : PUnit → State → Prop} {R : Error → State → Prop}
      {A : State → Prop}, Q ⟨⟩ (u.closed s.handles.length) →
      (∀ e, R e (u.closed s.handles.length)) → Does cleanup Q R A u)
    {Q : α → State → Prop}
    (hQ : ∀ a i info, InfoOf i info → P info a → Q a (s.add { h with infos := [i] }))
    (hR : ∀ e g, Over g → R e (s.add g)) (hA : ∀ g, Over g → A (s.add g)) :
    Does ((do
      let info ← queryOpenInfo server s.handles.length name
      check info).onFailure cleanup) Q R A (s.add h) := by
  have hclosed : ∀ g, (s.add g).closed s.handles.length = s.add { g with closing := true } :=
    fun g => State.update_add _
  refine .onFailure (E := fun _ t => ∃ g, s.add g = t) (F := fun t => ∃ g, s.add g = t) ?_ ?_ ?_
  · refine .bind (P := fun info t => ∃ i, InfoOf i info ∧ s.add { h with infos := [i] } = t)
      (queryOpenInfo_does (fun i info hi => ⟨i, hi, by rw [hopened.infos]; rfl⟩)
        (fun _ _ => ⟨_, rfl⟩) ⟨_, rfl⟩) ?_
    rintro info _ ⟨i, hi, rfl⟩
    refine (hcheck info _).mono ?_ (fun _ _ h => ⟨_, h⟩) fun _ h => ⟨_, h⟩
    rintro a _ ⟨rfl, ha⟩
    exact hQ a i info hi ha
  · rintro e _ ⟨g, rfl⟩
    refine hcleanup ?_ fun e => ?_
    · rw [hclosed]
      exact hR e _ fun _ => rfl
    · rw [hclosed]
      exact hR e _ fun _ => rfl
  · rintro _ ⟨g, rfl⟩
    refine hcleanup ?_ fun e => ?_
    · rw [hclosed]
      exact hA _ fun _ => rfl
    · rw [hclosed]
      exact hR e _ fun _ => rfl

theorem reads_pure {a : α} {P : α → Prop} (h : P a) : Reads (pure a) P := fun _ => .pure ⟨rfl, h⟩

theorem reads_raise {e : Error} {P : α → Prop} : Reads (raise e) P := fun _ => .raise rfl

theorem reads_bind {β : Type} {x : Session β} {f : β → Session α} {P : β → Prop} {P' : α → Prop}
    (hx : Reads x P) (hf : ∀ b, P b → Reads (f b) P') : Reads (x >>= f) P' := by
  intro s
  refine .bind (hx s) ?_
  rintro b _ ⟨rfl, hb⟩
  exact hf b hb s

theorem reads_locals : Reads locals fun _ => True := fun _ => locals_does ⟨rfl, trivial⟩

theorem reads_ofExcept {x : Except Error α} : Reads (ofExcept x) fun a => x = .ok a :=
  fun _ => ofExcept_does (fun _ h => ⟨rfl, h⟩) fun _ _ => rfl

theorem reads_ask : Reads (ask server) fun _ => True :=
  fun _ => ask_does (fun _ => ⟨rfl, trivial⟩) (fun _ => rfl) rfl

theorem reads_queryPages {name : String} (scan : Scan) :
    Reads (queryPages server name scan) fun _ => True := by
  induction hroom : scan.room using Nat.strongRecOn generalizing scan with
  | ind n ih =>
    rw [queryPages]
    refine reads_bind reads_ask fun reply _ => ?_
    split
    · exact reads_pure trivial
    · exact reads_raise
    · split
      · exact reads_raise
      · rename_i scan' hpage
        have := Scan.room_page server hpage
        rw [List.length_cons] at this
        exact ih scan'.room (by omega) scan' rfl

theorem reads_queryExactChild {name : String} :
    Reads (queryExactChild server name) fun _ => True := by
  refine reads_bind (reads_queryPages {}) fun scan _ => ?_
  split
  · exact reads_raise
  · exact reads_pure trivial

end

end WebSSH.Smb.Verified
