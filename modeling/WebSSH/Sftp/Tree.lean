import Mathlib
import WebSSH.Sftp.Listing

/-!
# Walking a remote tree

`inspect_remote_tree` of `sftp_handler.py`, which validates a tree before it is put into an archive.
One budget is shared by all its directories, and a path is only ever made of the folder and names
that have been checked.
-/

namespace WebSSH.Sftp

open Lib Lib.Program
open Lib.Python (Bytes encode)

/-! ## Paths and kinds of entries -/

/-- `posixpath.join` -/
def posixJoin (a b : String) : String :=
  if b.startsWith "/" then b else if a = "" ∨ a.endsWith "/" then a ++ b else a ++ "/" ++ b

/-- A name that is not taken into an archive. -/
def UnsafeMember (name : String) : Prop :=
  name ∈ ["", ".", ".."] ∨ '/' ∈ name.toList ∨ '\\' ∈ name.toList ∨ '\x00' ∈ name.toList

instance (name : String) : Decidable (UnsafeMember name) :=
  inferInstanceAs (Decidable (name ∈ ["", ".", ".."] ∨ '/' ∈ name.toList ∨ '\\' ∈ name.toList ∨
    '\x00' ∈ name.toList))

/-- A path below a folder, by at most `depth` names that have been checked. -/
def Below (folder : String) (depth : Nat) (path : String) : Prop :=
  ∃ names : List String, names.length ≤ depth ∧ (∀ name ∈ names, ¬ UnsafeMember name) ∧
    path = names.foldl posixJoin folder

theorem Below.join {folder path name : String} {depth : Nat} (h : Below folder depth path)
    (hname : ¬ UnsafeMember name) : Below folder (depth + 1) (posixJoin path name) := by
  obtain ⟨names, hlength, hnames, rfl⟩ := h
  refine ⟨names ++ [name], ?_, ?_, ?_⟩
  · rw [List.length_append, List.length_singleton]
    omega
  · rw [List.forall_mem_append, List.forall_mem_singleton]
    exact ⟨hnames, hname⟩
  · rw [List.foldl_append, List.foldl_cons, List.foldl_nil]

theorem Below.deeper {folder path : String} {depth depth' : Nat} (h : Below folder depth path)
    (hle : depth ≤ depth') : Below folder depth' path := by
  obtain ⟨names, hlength, hnames, rfl⟩ := h
  exact ⟨names, hlength.trans hle, hnames, rfl⟩

/-- What an entry is by its `st_mode`. -/
inductive Kind
  | link
  | directory
  | other
  deriving DecidableEq, Repr

/-- `stat.S_ISLNK` and `stat.S_ISDIR`, which do not take `None`. -/
def kindOf : Option Nat → Except Error Kind
  | none => .error (.other "TypeError")
  | some mode =>
    .ok (if mode &&& 0o170000 = 0o120000 then .link
      else if mode &&& 0o170000 = 0o040000 then .directory
      else .other)

/-! ## The walk -/

section
variable {δ : Type} (server : Server)

/-- `sftp.lstat(path)`, or else the entry itself. -/
def statEntry (path : String) (entry : Entry) : Prog δ Stat := do
  match ← (ask server (.lstat path)).attempt with
  | .ok entryStat => pure entryStat
  | .error _ => pure ⟨entry.stMode, entry.stSize⟩

def checkTotal (maxBytes total : Nat) (hasSymlink : Bool) : Prog δ (Nat × Bool) :=
  if maxBytes < total then raise .sizeExceeded else pure (total, hasSymlink)

/-- The body of the loop, with the call for a directory in it. -/
def inspectEntry (child : String → Nat → Prog δ (Nat × Bool)) (remoteFolder : String)
    (maxBytes : Nat) (found : Nat × Bool) (entry : Entry) : Prog δ (Nat × Bool) := do
  if UnsafeMember entry.filename then raise (.operation "unsafe archive entry name")
  else
    let entryStat ← statEntry server (posixJoin remoteFolder entry.filename) entry
    match ← ofExcept (kindOf entryStat.stMode) with
    | .link => pure (found.1, true)
    | .directory => do
      let below ← child (posixJoin remoteFolder entry.filename) (maxBytes - found.1)
      checkTotal maxBytes (found.1 + below.1) (found.2 || below.2)
    | .other => checkTotal maxBytes (found.1 + entryStat.stSize.getD 0) found.2

/-- With so many levels left of the 51 that there are. -/
def inspectRemoteTree (config : Config) (fuel : Nat) : Nat → String → Nat → Prog δ (Nat × Bool)
  | 0, _, _ => raise (.operation "maximum directory depth exceeded")
  | levels + 1, remoteFolder, maxBytes => do
    if ← isCancelled server then raise .cancelled
    else
      directoryEntries server config fuel remoteFolder
        (inspectEntry server (inspectRemoteTree config fuel levels) remoteFolder maxBytes) (0, false)

end

section
variable {δ : Type} {B : Bounds δ} {k : Nat} {stack : List Bytes} {s : Client δ} {server : Server}

theorem statEntry_wp {path : String} {entry : Entry} (hpath : B.Path path)
    (h : B.Within (k + 1) stack s) :
    (statEntry server path entry).Wp B.Any (fun _ t => B.Within k stack t ∧ Same s t)
      (fun _ => B.Ok k stack) (B.Ok k stack) s := by
  refine .bind (ask_attempt_wp (fun o => rfl) (fun p hp => Option.some.inj hp ▸ hpath) h.1)
    fun answer t ht => ?_
  obtain ⟨hok, hsame⟩ := ht
  have hwithin : B.Within k stack t := ⟨hok, hsame.used ▸ h.2⟩
  cases answer with
  | ok entryStat => exact .pure ⟨hwithin, hsame⟩
  | error e => exact .pure ⟨hwithin, hsame⟩

/-- The declared sizes stay within the bound. -/
def Total (maxBytes : Nat) (found : Nat × Bool) (_ : Budget) (_ : δ) : Prop := found.1 ≤ maxBytes

theorem checkTotal_run (maxBytes total : Nat) (hasSymlink : Bool) (h : B.Within k stack s) :
    B.Run (Total maxBytes) (checkTotal maxBytes total hasSymlink) k stack s := by
  unfold checkTotal
  split
  · exact .raise h.1
  · rename_i htotal
    exact .pure ⟨Nat.le_of_not_lt htotal, h, Nat.le_refl _⟩

theorem inspectEntry_body {child : String → Nat → Prog δ (Nat × Bool)}
    {folder remoteFolder : String} {depth : Nat} (maxBytes : Nat) (hprice : B.price = 5)
    (hpath : ∀ path, Below folder (depth + 1) path → B.Path path)
    (hfolder : Below folder depth remoteFolder)
    (hchild : ∀ k stack path maxBytes s, Below folder (depth + 1) path → B.Within (k + 4) stack s →
      B.Run (Total maxBytes) (child path maxBytes) k stack s) :
    B.Body SafeName (Total maxBytes) (inspectEntry server child remoteFolder maxBytes) := by
  intro k stack found entry s hcharged _ hs
  obtain ⟨old, hfound, -⟩ := hcharged.charged
  rw [hprice] at hs
  unfold inspectEntry
  split
  · exact .raise (hs.1.less (by omega))
  · rename_i hname
    have hbelow := hfolder.join hname
    refine .bind (less_wp (statEntry_wp (hpath _ hbelow) hs) (by omega)) fun entryStat t ht => ?_
    obtain ⟨hwithin, hsame⟩ := ht
    have hused := hsame.used
    refine .bind (ofExcept_wp (hwithin.1.less (by omega))) fun kind u hu => ?_
    obtain ⟨rfl, -⟩ := hu
    cases kind with
    | link => exact .pure ⟨hfound, hwithin.less (by omega), Nat.le_of_eq hused.symm⟩
    | directory =>
      refine .bind (hchild k stack _ _ u hbelow hwithin) fun below v hv => ?_
      exact (checkTotal_run _ _ _ hv.2.1).after (by omega)
    | other => exact (checkTotal_run _ _ _ (hwithin.less (by omega))).after (Nat.le_of_eq hused.symm)

theorem total_lasting (maxBytes : Nat) : B.Lasting (Total maxBytes) :=
  fun _ _ _ _ _ h _ => h

/-- One level below another, the walk has its calls paid for by the entries it reads. -/
theorem inspectRemoteTree_run {fuel : Nat} {folder : String} (levels : Nat) (hprice : B.price = 5)
    (hpath : ∀ path, Below folder 51 path → B.Path path) (hfuel : B.limit < fuel)
    (hlevels : levels ≤ 51) {remoteFolder : String} (maxBytes : Nat) {s : Client δ}
    (hfolder : Below folder (51 - levels) remoteFolder) (h : B.Within (k + 4) stack s) :
    B.Run (Total maxBytes) (inspectRemoteTree server B.config fuel levels remoteFolder maxBytes)
      k stack s := by
  induction levels generalizing k stack remoteFolder maxBytes s with
  | zero => exact .raise (h.1.less (by omega))
  | succ levels ih =>
    refine .bind (less_wp (isCancelled_wp h.1) (by omega)) fun cancelled t ht => ?_
    obtain ⟨hok, hsame⟩ := ht
    have hused := hsame.used
    split
    · exact .raise (hok.less (by omega))
    · have hdepth : 51 - (levels + 1) + 1 = 51 - levels := by omega
      have hbody : B.Body SafeName (Total maxBytes) (inspectEntry server
          (inspectRemoteTree server B.config fuel levels) remoteFolder maxBytes) :=
        inspectEntry_body maxBytes hprice (fun path h => hpath path (h.deeper (by omega))) hfolder
          fun k stack path maxBytes s hbelow hs => ih (by omega) maxBytes (hdepth ▸ hbelow) hs
      exact (directoryEntries_wp (total_lasting maxBytes) hbody (Nat.zero_le _)
        (hpath _ (hfolder.deeper (by omega))) ⟨hok, hused ▸ h.2⟩ (by omega)).after
        (Nat.le_of_eq hused.symm)

end

/-- `inspect_remote_tree` with a budget of its own. -/
def treeBounds (config : Config) (limit metadataLimit : Nat) (folder : String) : Bounds Unit where
  config := config
  limit := limit
  metadataLimit := metadataLimit
  price := 5
  before := 4
  size _ := 0
  Kept _ := True
  Path := Below folder 51

/-- Whatever a server answers, the walk over a remote tree ends, with at most six calls for each
entry it reads in all the directories together and four more. It holds no more metadata than the
budget allows, it leaves no directory open, and it asks for no path but the folder and those below
it by safe names; a total that it returns is within the bound. -/
theorem inspectRemoteTree_bounded (server : Server) (config : Config)
    (limit metadataLimit fuel maxBytes : Nat) (folder : String) (script : Script Error) :
    let run := inspectRemoteTree server config (limit + 1 + fuel) 51 folder maxBytes script
      (start (.new limit metadataLimit ()))
    (∀ t ∈ run.2.visited, Safe config limit metadataLimit (6 * t.budget.used) t ∧
      ∀ e ∈ t.log, ∀ path, e.call.path? = some path → Below folder 51 path) ∧
      run.2.state.stuck = false ∧ held config run.2.state.log = some [] ∧
      ∀ found, run.1 = .ok found → found.1 ≤ maxBytes := by
  have hrun : (treeBounds config limit metadataLimit folder).Run (Total maxBytes)
      (inspectRemoteTree server config (limit + 1 + fuel) 51 folder maxBytes) 0 []
      (.new limit metadataLimit ()) :=
    inspectRemoteTree_run 51 rfl (fun _ h => h)
      (show limit < limit + 1 + fuel by omega) (Nat.le_refl _) maxBytes
      ⟨[], Nat.zero_le _, List.forall_mem_nil _, rfl⟩ (within_new rfl trivial)
  obtain ⟨hvisited, hend, hok⟩ := hrun.ends script
  refine ⟨fun t ht => ?_, hend.running, hend.held, fun found hfound => (hok found hfound).1⟩
  obtain ⟨stack, h⟩ := hvisited t ht
  have hcalls := h.calls
  simp only [treeBounds, Nat.add_zero] at hcalls
  exact ⟨⟨h.running, h.used, h.metadataUsed, hcalls, stack, h.held⟩, h.paths⟩

end WebSSH.Sftp
