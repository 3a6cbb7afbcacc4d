import Mathlib.Data.List.Chain
import Mathlib.Data.List.Infix
import WebSSH.Lib.Except
import WebSSH.Lib.Text

/-!
# Paths within an SMB share

The values of `smb_paths.py`. `parse` bounds the text of a path and the number of its components,
`child` only the number: a path that is built component by component may be too long to be parsed.
-/

namespace WebSSH.Smb
open Lib Lib.Python

/-! ## Components -/

/-- `_INVALID_COMPONENT_CHARACTERS` -/
def invalidComponentCharacters : List Char := "<>:\"/\\|?*".toList

/-- The names in `_RESERVED_DEVICE`. -/
def reservedDevices : List String :=
  ["CON", "PRN", "AUX", "NUL"] ++ (List.range 9).map (fun n => "COM" ++ toString (n + 1)) ++
    (List.range 9).map fun n => "LPT" ++ toString (n + 1)

/-- `_RESERVED_DEVICE.fullmatch(value)`: what stands before the first dot, in any case. -/
def isReservedDevice (value : String) : Bool :=
  String.ofList ((value.toList.takeWhile (· ≠ '.')).map Char.toUpper) ∈ reservedDevices

def maxComponents : Nat := 128

/-- `_validate_component` -/
def validateComponent (value : Value) (maximum : Nat) (allowDollar : Bool) :
    Except String String :=
  match value with
  | .str value =>
    if value = "" ∨ maximum < value.length then .error "Invalid SMB path component"
    else if value = "." ∨ value = ".." ∨ value.toList.getLast? = some '.' ∨
        value.toList.getLast? = some ' ' then .error "Invalid SMB path component"
    else if value.toList.any fun c =>
        c.toNat < 32 ∨ c ∈ invalidComponentCharacters ∨ c = '$' ∧ allowDollar = false then
      .error "Invalid SMB path component"
    else if isReservedDevice value then .error "Reserved SMB path component"
    else .ok value
  | _ => .error "Invalid SMB path component"

/-- `SMBShareName.parse` has accepted the name. -/
structure SMBShareName where
  value : String
  valid : validateComponent (.str value) 80 false = .ok value

structure SMBPath where
  segments : List String
  length_le : segments.length ≤ maxComponents
  deriving DecidableEq

namespace SMBPath

/-! ## Paths -/

/-- `SMBPath(segments)`, with `__post_init__`. -/
def new (segments : List String) : Except String SMBPath :=
  if h : segments.length ≤ maxComponents then .ok ⟨segments, h⟩
  else .error "SMB path has too many components"

def root : SMBPath := ⟨[], Nat.zero_le _⟩

/-- `SMBPath.parse` -/
def parse (value : Value) : Except String SMBPath :=
  match value with
  | .str value =>
    let text := value.toList
    if text.head? ≠ some '/' then .error "SMB paths must be share-rooted"
    else if value = "/" then new []
    else if 4096 < text.length ∨ text.getLast? = some '/' ∨ ['/', '/'] <:+: text then
      .error "Invalid SMB path"
    else do
      let segments ← (text.tail.splitOn '/').mapM fun segment =>
        validateComponent (.str (String.ofList segment)) 255 true
      new segments
  | _ => .error "SMB paths must be share-rooted"

/-- `'/' + '/'.join(self.segments)` -/
def str (p : SMBPath) : String :=
  String.ofList ('/' :: ['/'].intercalate (p.segments.map String.toList))

def child (p : SMBPath) (name : Value) : Except String SMBPath := do
  let name ← validateComponent name 255 true
  new (p.segments ++ [name])

def parent (p : SMBPath) : SMBPath :=
  ⟨p.segments.dropLast, by
    have := p.length_le
    rw [List.length_dropLast]
    omega⟩

/-- `to_unc`; `compressed` is `ipaddress.ip_address(target_ip).compressed`, and `none` where it
raises. -/
def toUnc (p : SMBPath) (compressed : String → Option String) (targetIp : String)
    (share : SMBShareName) : Except String String :=
  match compressed targetIp with
  | none => .error "SMB UNC target must be a validated IP"
  | some cleanIp =>
    let components := cleanIp :: share.value :: p.segments
    .ok (String.ofList ('\\' :: '\\' :: ['\\'].intercalate (components.map String.toList)))

/-- The paths that the code can build. -/
inductive Reachable : SMBPath → Prop
  | parse {value p} (h : parse value = .ok p) : Reachable p
  | child {p name q} (hp : Reachable p) (h : p.child name = .ok q) : Reachable q
  | parent {p} (hp : Reachable p) : Reachable p.parent

/-! ## What a component is -/

/-- A component that `_validate_component` accepts in a path. -/
def Component (segment : String) : Prop := validateComponent (.str segment) 255 true = .ok segment

variable {value : Value} {segment name : String} {segments : List String} {maximum : Nat}
  {allowDollar : Bool} {p q : SMBPath}

theorem eq_of_validateComponent (h : validateComponent value maximum allowDollar = .ok name) :
    value = .str name := by
  unfold validateComponent at h
  split at h
  · split at h
    · cases h
    split at h
    · cases h
    split at h
    · cases h
    split at h
    · cases h
    · cases h
      rfl
  · cases h

/-- An accepted component stays within the share: it is not empty, `.` or `..`, and it has none of
the forbidden characters. -/
theorem of_validateComponent
    (h : validateComponent (.str segment) maximum allowDollar = .ok segment) :
    segment ≠ "" ∧ segment ≠ "." ∧ segment ≠ ".." ∧
      ∀ c ∈ segment.toList, c ∉ invalidComponentCharacters := by
  unfold validateComponent at h
  simp only at h
  split at h
  · cases h
  rename_i hempty
  split at h
  · cases h
  rename_i hdots
  split at h
  · cases h
  rename_i hchars
  refine ⟨fun hs => hempty (.inl hs), fun hs => hdots (.inl hs), fun hs => hdots (.inr (.inl hs)),
    fun c hc hin => hchars (List.any_eq_true.mpr ⟨c, hc, decide_eq_true (.inr (.inl hin))⟩)⟩

theorem slash_notMem (h : Component segment) : '/' ∉ segment.toList := fun hc =>
  (of_validateComponent h).2.2.2 _ hc (by decide)

theorem backslash_notMem (h : validateComponent (.str segment) maximum allowDollar = .ok segment) :
    '\\' ∉ segment.toList := fun hc =>
  (of_validateComponent h).2.2.2 _ hc (by decide)

theorem eq_of_new (h : new segments = .ok p) : p.segments = segments := by
  unfold new at h
  split at h
  · cases h
    rfl
  · cases h

theorem new_segments (p : SMBPath) : new p.segments = .ok p := dif_pos p.length_le

/-- Every component of a path that can be built has been accepted. -/
theorem Reachable.component (h : Reachable p) : ∀ segment ∈ p.segments, Component segment := by
  induction h with
  | @parse value p h =>
    cases value with
    | str value =>
      simp only [SMBPath.parse] at h
      split at h
      · cases h
      split at h
      · rw [eq_of_new h]
        exact nofun
      split at h
      · cases h
      obtain ⟨segments, hsegments, hnew⟩ := bind_eq_ok.mp h
      rw [eq_of_new hnew]
      intro segment hsegment
      obtain ⟨piece, -, hpiece⟩ := (mem_of_mapM hsegments).mp hsegment
      rwa [eq_of_validateComponent hpiece] at hpiece
    | _ => cases h
  | @child p name q hp h ih =>
    obtain ⟨accepted, haccepted, hnew⟩ := bind_eq_ok.mp h
    rw [eq_of_new hnew]
    intro segment hsegment
    obtain hsegment | hsegment := List.mem_append.mp hsegment
    · exact ih segment hsegment
    · obtain rfl := List.mem_singleton.mp hsegment
      rwa [eq_of_validateComponent haccepted] at haccepted
  | parent hp ih => exact fun segment hsegment => ih segment (List.mem_of_mem_dropLast hsegment)

/-! ## The text of a path -/

/-- No two slashes stand next to each other. -/
def Single (text : List Char) : Prop := text.IsChain fun a b => ¬ (a = '/' ∧ b = '/')

theorem not_infix_of_single {text : List Char} (h : Single text) : ¬ ['/', '/'] <:+: text := by
  intro hinfix
  have := h.infix hinfix
  rw [List.isChain_pair] at this
  exact this ⟨rfl, rfl⟩

theorem Single.of_notMem {text : List Char} (h : '/' ∉ text) : Single text := by
  refine (List.pairwise_of_forall_mem_list fun a ha b _ hab => ?_).isChain
  exact h (hab.1 ▸ ha)

/-- A piece between slashes. -/
theorem Single.piece {piece text : List Char} (hpiece : '/' ∉ piece) (hne : piece ≠ [])
    (h : Single text) : Single ('/' :: (piece ++ text)) := by
  refine List.isChain_cons.mpr ⟨?_, List.isChain_append.mpr ⟨Single.of_notMem hpiece, h, ?_⟩⟩
  · intro c hc hcc
    rw [List.head?_append_of_ne_nil _ hne] at hc
    exact hpiece (hcc.2 ▸ List.mem_of_head? hc)
  · intro c hc d _ hcd
    exact hpiece (hcd.1 ▸ List.mem_of_getLast? hc)

/-- Pieces between slashes, each behind one. -/
theorem joined_spec : ∀ {pieces : List (List Char)},
    (∀ piece ∈ pieces, piece ≠ [] ∧ '/' ∉ piece) → pieces ≠ [] →
      Single ('/' :: ['/'].intercalate pieces) ∧
      (['/'].intercalate pieces).getLast? ≠ some '/' ∧ ['/'].intercalate pieces ≠ []
  | [], _, hne => absurd rfl hne
  | [piece], h, _ => by
    obtain ⟨hne, hslash⟩ := h piece (List.mem_singleton_self _)
    rw [List.intercalate_singleton]
    refine ⟨?_, fun hlast => hslash (List.mem_of_getLast? hlast), hne⟩
    rw [← List.append_nil piece]
    exact .piece hslash hne .nil
  | piece :: next :: rest, h, _ => by
    obtain ⟨hne, hslash⟩ := h piece List.mem_cons_self
    obtain ⟨hsingle, hlast, hrest⟩ := @joined_spec (next :: rest)
      (fun piece hpiece => h piece (List.mem_cons_of_mem _ hpiece)) (List.cons_ne_nil _ _)
    rw [List.intercalate_cons_cons, List.append_assoc]
    refine ⟨.piece hslash hne hsingle, ?_, fun hnil => hne (List.append_eq_nil_iff.mp hnil).1⟩
    rw [List.getLast?_append_of_ne_nil _ (by simp), List.singleton_append,
      List.getLast?_cons_of_ne_nil hrest]
    exact hlast

/-- Accepted components are accepted again, one after another. -/
theorem mapM_validateComponent (h : ∀ segment ∈ segments, Component segment) :
    ((segments.map String.toList).mapM fun segment =>
      validateComponent (.str (String.ofList segment)) 255 true) = .ok segments := by
  induction segments with
  | nil => rfl
  | cons segment segments ih =>
    have hfirst : validateComponent (.str (String.ofList segment.toList)) 255 true = .ok segment := by
      rw [String.ofList_toList]
      exact h segment List.mem_cons_self
    rw [List.map_cons, List.mapM_cons, hfirst,
      ih fun segment hsegment => h segment (List.mem_cons_of_mem _ hsegment)]
    rfl

theorem length_str : p.str.length = (['/'].intercalate (p.segments.map String.toList)).length + 1 := by
  rw [str, String.length_ofList, List.length_cons]

/-- The text of a path is parsed to the path, as long as it is not too long. -/
theorem parse_str (h : ∀ segment ∈ p.segments, Component segment) :
    parse (.str p.str) = .ok p ↔ p.str.length ≤ 4096 := by
  rw [length_str]
  have htext : p.str.toList = '/' :: ['/'].intercalate (p.segments.map String.toList) := by
    rw [str, String.toList_ofList]
  rcases Decidable.eq_or_ne p.segments [] with hsegments | hne
  · have hroot : p.str = "/" := by
      rw [str, hsegments]
      rfl
    rw [hsegments, hroot, ← new_segments p, hsegments]
    exact iff_of_true rfl (by decide)
  obtain ⟨hsingle, hlast, hnonempty⟩ := @joined_spec (p.segments.map String.toList)
    (by
      intro piece hpiece
      obtain ⟨segment, hsegment, rfl⟩ := List.mem_map.mp hpiece
      have hempty := (of_validateComponent (h segment hsegment)).1
      exact ⟨fun hnil => hempty (String.toList_eq_nil_iff.mp hnil), slash_notMem (h segment hsegment)⟩)
    (fun hnil => hne (List.map_eq_nil_iff.mp hnil))
  have hroot : p.str ≠ "/" := by
    intro hroot
    rw [hroot] at htext
    exact hnonempty (List.cons.inj htext).2.symm
  have hsplit : (['/'].intercalate (p.segments.map String.toList)).splitOn '/' =
      p.segments.map String.toList := by
    refine List.splitOn_intercalate '/' ?_ fun hnil => hne (List.map_eq_nil_iff.mp hnil)
    intro piece hpiece
    obtain ⟨segment, hsegment, rfl⟩ := List.mem_map.mp hpiece
    exact slash_notMem (h segment hsegment)
  simp only [parse, htext, List.head?_cons, ne_eq, not_true_eq_false, if_false, if_neg hroot,
    List.getLast?_cons_of_ne_nil hnonempty, List.length_cons, List.tail_cons]
  split
  · rename_i hlong
    rcases hlong with hlong | hlong | hlong
    · exact iff_of_false nofun (by omega)
    · exact absurd hlong hlast
    · exact absurd hlong (not_infix_of_single hsingle)
  · rename_i hshort
    rw [hsplit, mapM_validateComponent h]
    exact iff_of_true (new_segments p) (by omega)

/-! ## The UNC name -/

/-- The components of the UNC name, which starts with two backslashes. -/
def uncComponents (unc : String) : List String :=
  ((unc.toList.drop 2).splitOn '\\').map String.ofList

theorem uncComponents_eq {cleanIp : String} {share : SMBShareName}
    (h : ∀ segment ∈ p.segments, Component segment) :
    uncComponents (String.ofList ('\\' :: '\\' ::
        ['\\'].intercalate ((cleanIp :: share.value :: p.segments).map String.toList))) =
      cleanIp :: share.value :: p.segments ↔ '\\' ∉ cleanIp.toList := by
  rw [uncComponents, String.toList_ofList]
  simp only [List.drop_succ_cons, List.drop_zero]
  constructor
  · intro heq hmem
    obtain ⟨piece, hpiece, rfl⟩ := List.mem_map.mp (heq ▸ List.mem_cons_self :
      cleanIp ∈ (_ : List (List Char)).map String.ofList)
    rw [String.toList_ofList] at hmem
    have := (Text.of_mem_splitOnP hpiece _ hmem).1
    simp at this
  · intro hip
    rw [List.splitOn_intercalate '\\' ?_ (by simp), List.map_map]
    · exact List.map_id'' (fun _ => String.ofList_toList) _
    · intro piece hpiece
      obtain ⟨component, hcomponent, rfl⟩ := List.mem_map.mp hpiece
      rcases List.mem_cons.mp hcomponent with rfl | hcomponent
      · exact hip
      rcases List.mem_cons.mp hcomponent with rfl | hcomponent
      · exact backslash_notMem share.valid
      · exact backslash_notMem (h component hcomponent)

/-- A path that can be built has components that stay in the share. Its text is parsed to the path,
and its UNC name has these components behind the address and the share, if and only if the text has
at most 4096 characters and the address has no backslash. -/
theorem smb_path_values (h : Reachable p) (compressed : String → Option String)
    (targetIp : String) (share : SMBShareName) :
    (∀ segment ∈ p.segments, segment ≠ "" ∧ segment ≠ "." ∧ segment ≠ ".." ∧
      '/' ∉ segment.toList ∧ '\\' ∉ segment.toList) ∧
    ((parse (.str p.str) = .ok p ∧
        ∀ unc, p.toUnc compressed targetIp share = .ok unc →
          ∃ cleanIp, compressed targetIp = some cleanIp ∧
            uncComponents unc = cleanIp :: share.value :: p.segments) ↔
      p.str.length ≤ 4096 ∧
        ∀ cleanIp, compressed targetIp = some cleanIp → '\\' ∉ cleanIp.toList) := by
  have hcomponent := h.component
  refine ⟨fun segment hsegment => ?_, and_congr (parse_str hcomponent) ?_⟩
  · obtain ⟨hempty, hdot, hdots, -⟩ := of_validateComponent (hcomponent segment hsegment)
    exact ⟨hempty, hdot, hdots, slash_notMem (hcomponent segment hsegment),
      backslash_notMem (hcomponent segment hsegment)⟩
  · unfold toUnc
    cases compressed targetIp with
    | none => exact iff_of_true nofun nofun
    | some cleanIp =>
      simp only [Except.ok.injEq, forall_eq', Option.some_inj, exists_eq_left',
        uncComponents_eq hcomponent]

/-! ## A path that is too long -/

theorem parse_root : parse (.str "/") = .ok root := rfl

/-- Accepted components, at most 128, can be put together one by one. -/
theorem reachable_of_component (h : ∀ segment ∈ segments, Component segment)
    (hlen : segments.length ≤ maxComponents) : Reachable ⟨segments, hlen⟩ := by
  induction segments using List.reverseRecOn with
  | nil => exact .parse parse_root
  | append_singleton segments segment ih =>
    have hinit : segments.length ≤ maxComponents := by
      rw [List.length_append] at hlen
      omega
    refine @Reachable.child _ (.str segment) _ (ih (fun s hs => h s (List.mem_append_left _ hs)) hinit) ?_
    have hsegment := h segment (List.mem_append_right _ (List.mem_singleton_self _))
    unfold child
    rw [show validateComponent (.str segment) 255 true = .ok segment from hsegment]
    exact dif_pos hlen

def longName : String := "abcdefghijklmnopqrstuvwxyz012345"

def longPath : SMBPath := ⟨List.replicate 128 longName, Nat.le_of_eq List.length_replicate⟩

def files : SMBShareName := ⟨"files", by decide⟩

/-- A path with a blank, an apostrophe and a letter that is not ASCII. -/
def reportPath : SMBPath := ⟨["Q1 reports", "O'Neil", "résumé.txt"], by decide⟩

theorem reachable_reportPath : Reachable reportPath :=
  have h₁ : root.child (.str "Q1 reports") = .ok ⟨["Q1 reports"], by decide⟩ := by rfl
  have h₂ : child ⟨["Q1 reports"], by decide⟩ (.str "O'Neil") =
    .ok ⟨["Q1 reports", "O'Neil"], by decide⟩ := by rfl
  have h₃ : child ⟨["Q1 reports", "O'Neil"], by decide⟩ (.str "résumé.txt") = .ok reportPath := by rfl
  ((Reachable.parse parse_root).child h₁).child h₂ |>.child h₃

theorem smb_path_values_report :
    parse (.str reportPath.str) = .ok reportPath ∧
      ∀ unc, reportPath.toUnc some "10.0.0.5" files = .ok unc →
        ∃ cleanIp, some "10.0.0.5" = some cleanIp ∧
          uncComponents unc = [cleanIp, "files", "Q1 reports", "O'Neil", "résumé.txt"] :=
  (smb_path_values reachable_reportPath some "10.0.0.5" files).2.mpr
    ⟨by decide, fun cleanIp h => by cases h; decide⟩

theorem long_path_not_parsed : ∃ p, Reachable p ∧ parse (.str p.str) ≠ .ok p := by
  have hcomponent : ∀ segment ∈ longPath.segments, Component segment := by
    intro segment hsegment
    rw [List.eq_of_mem_replicate hsegment]
    unfold Component
    decide
  refine ⟨longPath, reachable_of_component hcomponent _, fun hparse => ?_⟩
  have hlen := (parse_str hcomponent).mp hparse
  rw [length_str] at hlen
  revert hlen
  decide +kernel

end SMBPath

end WebSSH.Smb
