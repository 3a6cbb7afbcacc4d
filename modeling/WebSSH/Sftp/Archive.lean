import Mathlib
import WebSSH.Sftp.Tree

/-!
# Building an archive from a remote tree

`build_fallback_zip_to_disk` of `sftp_handler.py`, with `copy_sftp_stream` and
`_open_bound_reader_from_client`. The operations on the local archive may fail at any time; the
size it has on disk is whatever the compression makes of it.
-/

namespace WebSSH.Sftp

open Lib Lib.Program
open Lib.Python (Bytes encode)

/-! ## The archive -/

structure Archive where
  /-- Names and contents, the newest member first. -/
  members : List (String × Bytes)
  /-- The bytes of the files that were copied. -/
  transferred : Nat
  present : Bool

namespace Archive

def size (a : Archive) : Nat := (a.members.map fun m => m.2.length).sum

def openMember (a : Archive) (name : String) : Archive :=
  { a with members := (name, []) :: a.members }

/-- `zip_entry.write(chunk)` -/
def write (a : Archive) (chunk : Bytes) : Archive :=
  match a.members with
  | [] => a
  | m :: rest => { a with members := (m.1, m.2 ++ chunk) :: rest }

end Archive

/-- An operation on the local archive. -/
def onDisk (f : Archive → Archive) : Prog Archive PUnit :=
  call fun _ s => .ok (⟨⟩, { s with own := f s.own })

/-- `archive_path.stat().st_size` against the bound. -/
def checkArchiveSize (maxBytes : Nat) : Prog Archive PUnit := do
  let size ← call fun n s => .ok (n, s)
  if maxBytes < size then raise .sizeExceeded else pure ⟨⟩

/-- `isinstance(error, SFTPOperationError)` -/
def Error.isOperation : Error → Bool
  | .eof => false
  | .sftp _ => false
  | .other _ => false
  | _ => true

section
variable (server : Server) (config : Config) (fuel maxBytes chunkSize : Nat)

/-- What the `with` statement runs of the generator. A `FileReaderLease` needs a size. -/
def bindReader (body : Nat → Prog Archive Nat) : Prog Archive Nat := do
  match ← (ask server .stat).attempt with
  | .error e =>
    if e.isOperation then raise e else raise (.operation "Remote file metadata unavailable")
  | .ok fileStat =>
    match fileStat.stMode with
    | none => raise (.operation "Remote file is not readable")
    | some mode =>
      if mode &&& 0o170000 = 0o100000 then
        match fileStat.stSize with
        | none => raise (.operation "Remote file metadata unavailable")
        | some size => body size
      else raise (.operation "Remote file is not readable")

/-- `with _open_bound_reader_from_client(sftp, path) as lease: body(lease.size)` -/
def openBoundReader (path : String) (body : Nat → Prog Archive Nat) : Prog Archive Nat := do
  ask server (.file path)
  (bindReader server body).finallyDo (ask server .closeFile)

/-- The `while True` of `copy_sftp_stream`, with its progress callback. -/
def copySftpStream (maxBytes : Nat) : Nat → Nat → Prog Archive Nat
  | 0, _ => runOut
  | fuel + 1, transferred => do
    if ← isCancelled server then raise .cancelled
    else
      let chunk ← ask server (.read chunkSize)
      if chunk = [] then pure transferred
      else if maxBytes < transferred + chunk.length then raise .sizeExceeded
      else
        onDisk (·.write chunk)
        onDisk id
        if ← isCancelled server then raise .cancelled
        else copySftpStream maxBytes fuel (transferred + chunk.length)

/-- The block of the `with` statement of a file. -/
def copyMember (member : String) (leaseSize : Nat) : Prog Archive Nat := do
  let s ← Program.get
  if maxBytes < s.own.transferred + leaseSize then raise .sizeExceeded
  else
    onDisk (·.openMember member)
    (copySftpStream server chunkSize (maxBytes - s.own.transferred) fuel 0).finallyDo (onDisk id)

def addFile (source member : String) : Prog Archive PUnit := do
  let copied ← openBoundReader server source (copyMember server fuel maxBytes chunkSize member)
  modify fun s => { s with own := { s.own with transferred := s.own.transferred + copied } }
  checkArchiveSize maxBytes

/-- The body of the loop; the value says whether there was an entry. -/
def addEntry (child : String → String → Prog Archive PUnit) (remotePath archivePrefix : String)
    (_ : Bool) (entry : Entry) : Prog Archive Bool := do
  if ← isCancelled server then raise .cancelled
  else if UnsafeMember entry.filename then raise (.operation "unsafe archive entry name")
  else
    let entryStat ← statEntry server (posixJoin remotePath entry.filename) entry
    match ← ofExcept (kindOf entryStat.stMode) with
    | .link => pure true
    | .directory => do
      child (posixJoin remotePath entry.filename) (posixJoin archivePrefix entry.filename)
      pure true
    | .other => do
      addFile server fuel maxBytes chunkSize (posixJoin remotePath entry.filename)
        (posixJoin archivePrefix entry.filename)
      pure true

/-- `archive_prefix.rstrip('/') + '/'` -/
def directoryMember (archivePrefix : String) : String :=
  String.ofList (archivePrefix.toList.rdropWhile (· = '/')) ++ "/"

/-- An empty directory, which keeps its name in the archive. -/
def addEmpty (archivePrefix : String) : Prog Archive PUnit := do
  onDisk (·.openMember (directoryMember archivePrefix))
  checkArchiveSize maxBytes

/-- With so many levels left of the 51 that there are. -/
def addDirectory : Nat → String → String → Prog Archive PUnit
  | 0, _, _ => raise (.operation "maximum directory depth exceeded")
  | levels + 1, remotePath, archivePrefix => do
    if ← isCancelled server then raise .cancelled
    else
      let sawEntry ← directoryEntries server config fuel remotePath
        (addEntry server fuel maxBytes chunkSize (addDirectory levels) remotePath archivePrefix) false
      if sawEntry = false ∧ archivePrefix ≠ "" then addEmpty maxBytes archivePrefix else pure ⟨⟩

/-- `archive_path.unlink(missing_ok=True)`, with the way out of it. -/
def unlinkArchive (removal : Result Error PUnit) : Prog Archive PUnit :=
  react fun s =>
    (removal,
      match removal with
      | .ok _ => { s with own := { s.own with present := false } }
      | _ => s)

/-- What `build_fallback_zip_to_disk` does in its `try`, from `zipfile.ZipFile` on. -/
def fillArchive (remoteFolder folderName : String) : Prog Archive PUnit := do
  onDisk id
  (addDirectory server config fuel maxBytes chunkSize 51 remoteFolder folderName).finallyDo (onDisk id)
  checkArchiveSize maxBytes

/-- `build_fallback_zip_to_disk` from the empty archive on. -/
def buildFallbackZipToDisk (removal : Result Error PUnit) (remoteFolder folderName : String) :
    Prog Archive PUnit :=
  (fillArchive server config fuel maxBytes chunkSize remoteFolder folderName).onFailure
    ((unlinkArchive removal).catchAll ⟨⟩)

end

/-! ## What the archive keeps -/

/-- The name of a file below the folder of the archive, or of a directory. -/
def Member (folderName name : String) : Prop :=
  ∃ path, Below folderName 51 path ∧ (name = path ∨ name = directoryMember path)

/-- What is kept true of an archive. -/
structure Archive.Sound (maxBytes : Nat) (folderName : String) (a : Archive) : Prop where
  size : a.size ≤ maxBytes
  names : ∀ m ∈ a.members, Member folderName m.1

/-- An archive that is to be built. -/
structure Job where
  config : Config
  limit : Nat
  metadataLimit : Nat
  maxBytes : Nat
  folder : String
  folderName : String

def Job.bounds (j : Job) : Bounds Archive where
  config := j.config
  limit := j.limit
  metadataLimit := j.metadataLimit
  price := 5
  before := 4
  size := Archive.size
  Kept := Archive.Sound j.maxBytes j.folderName
  Path := Below j.folder 51

/-- Between two files all bytes in the archive are accounted for. -/
structure Filled (a : Archive) : Prop where
  transferred : a.transferred = a.size
  present : a.present = true

def Filling {β : Type} (_ : β) (_ : Budget) (a : Archive) : Prop := Filled a

/-- While a file is copied, of which `n` bytes are in the archive. -/
structure Copying (before n : Nat) (a : Archive) : Prop where
  opened : a.members ≠ []
  transferred : a.transferred = before
  size : a.size = before + n
  present : a.present = true

namespace Archive

theorem size_openMember (a : Archive) (name : String) : (a.openMember name).size = a.size := by
  rw [size, openMember, List.map_cons, List.sum_cons, List.length_nil, Nat.zero_add, size]

theorem size_write {a : Archive} (h : a.members ≠ []) (chunk : Bytes) :
    (a.write chunk).size = a.size + chunk.length := by
  obtain ⟨members, transferred, present⟩ := a
  cases members with
  | nil => exact absurd rfl h
  | cons m rest =>
    simp only [size, write, List.map_cons, List.sum_cons, List.length_append]
    omega

theorem Sound.openMember {maxBytes : Nat} {folderName name : String} {a : Archive}
    (h : a.Sound maxBytes folderName) (hname : Member folderName name) :
    (a.openMember name).Sound maxBytes folderName where
  size := a.size_openMember name ▸ h.size
  names := List.forall_mem_cons.mpr ⟨hname, h.names⟩

theorem Sound.write {maxBytes : Nat} {folderName : String} {a : Archive} {chunk : Bytes}
    (h : a.Sound maxBytes folderName) (hopened : a.members ≠ [])
    (hsize : a.size + chunk.length ≤ maxBytes) : (a.write chunk).Sound maxBytes folderName := by
  refine ⟨size_write hopened chunk ▸ hsize, ?_⟩
  have hnames := h.names
  obtain ⟨members, transferred, present⟩ := a
  cases members with
  | nil => exact absurd rfl hopened
  | cons m rest =>
    rw [List.forall_mem_cons] at hnames
    exact List.forall_mem_cons.mpr hnames

end Archive

theorem Filled.openMember {a : Archive} (h : Filled a) (name : String) :
    Filled (a.openMember name) where
  transferred := h.transferred.trans (a.size_openMember name).symm
  present := h.present

theorem Filled.copying {a : Archive} (h : Filled a) (name : String) :
    Copying a.transferred 0 (a.openMember name) where
  opened := List.cons_ne_nil _ _
  transferred := rfl
  size := (a.size_openMember name).trans h.transferred.symm
  present := h.present

theorem Copying.write {before n : Nat} {a : Archive} (h : Copying before n a) (chunk : Bytes) :
    Copying before (n + chunk.length) (a.write chunk) := by
  have hsize := Archive.size_write h.opened chunk
  rw [h.size, Nat.add_assoc] at hsize
  have htransferred := h.transferred
  have hpresent := h.present
  have hopened := h.opened
  obtain ⟨members, transferred, present⟩ := a
  cases members with
  | nil => exact absurd rfl hopened
  | cons m rest => exact ⟨List.cons_ne_nil _ _, htransferred, hsize, hpresent⟩

theorem Copying.filled {before n : Nat} {a : Archive} (h : Copying before n a) :
    Filled { a with transferred := a.transferred + n } where
  transferred := (congrArg (· + n) h.transferred).trans h.size.symm
  present := h.present

theorem Below.member {folderName path : String} {depth : Nat} (h : Below folderName depth path)
    (hdepth : depth ≤ 51) : Member folderName path :=
  ⟨path, h.deeper hdepth, .inl rfl⟩

section
variable {δ : Type} {B : Bounds δ} {k : Nat} {stack : List Bytes} {s : Client δ}

/-- What is added to the archive pays for calls. -/
theorem Bounds.Ok.keep {l : Nat} {a : δ} (h : B.Ok k stack s) (hkept : B.Kept a)
    (hsize : B.size s.own + l ≤ B.size a) : B.Ok (k + l) stack { s with own := a } where
  running := h.running
  limit := h.limit
  metadataLimit := h.metadataLimit
  used := h.used
  metadataUsed := h.metadataUsed
  calls := by
    have := h.calls
    dsimp only
    omega
  held := h.held
  kept := hkept
  paths := h.paths

end

/-! ## Copying a file -/

section
variable {j : Job} {k : Nat} {stack : List Bytes} {s : Client Archive} {server : Server}

theorem onDisk_wp {f : Archive → Archive} (h : j.bounds.Ok k stack s)
    (hf : j.bounds.Ok k stack { s with own := f s.own }) :
    (onDisk f).Wp j.bounds.Any (fun _ t => t = { s with own := f s.own })
      (fun _ => j.bounds.Ok k stack) (j.bounds.Ok k stack) s := by
  refine .call (fun _ => h) h fun n a t ht => ?_
  cases ht
  exact ⟨hf.any, rfl, fun _ => hf, hf⟩

/-- The local file is closed, and nothing else changes. -/
theorem flush_wp {P : Client Archive → Prop} (h : j.bounds.Ok k stack s) (hP : P s) :
    (onDisk id).Wp j.bounds.Any (fun _ => P) (fun _ => j.bounds.Ok k stack)
      (j.bounds.Ok k stack) s := by
  refine (onDisk_wp h h).mono (fun _ t ht => ?_) (fun _ _ h => h) fun _ h => h
  subst ht
  exact hP

theorem checkArchiveSize_wp (maxBytes : Nat) (h : j.bounds.Ok k stack s) :
    (checkArchiveSize maxBytes).Wp j.bounds.Any (fun _ t => t = s) (fun _ => j.bounds.Ok k stack)
      (j.bounds.Ok k stack) s := by
  refine .bind (P := fun _ t => t = s) (.call (fun _ => h) h fun n a t ht => ?_) fun size t ht => ?_
  · cases ht
    exact ⟨h.any, rfl, fun _ => h, h⟩
  · subst ht
    split
    · exact .raise h
    · exact .pure rfl

/-- The reader is closed on every way out. -/
theorem openBoundReader_wp {path : String} {body : Nat → Prog Archive Nat}
    {P : Nat → Budget → Archive → Prop} (hpath : Below j.folder 51 path)
    (h : j.bounds.Ok (k + 4) stack s)
    (hbody : ∀ size t, j.bounds.Ok (k + 2) stack t → Same s t →
      (body size).Wp j.bounds.Any
        (fun n u => P n u.budget u.own ∧ j.bounds.Ok (k + 1) stack u)
        (fun _ => j.bounds.Ok (k + 1) stack) (j.bounds.Ok (k + 1) stack) t) :
    (openBoundReader server path body).Wp j.bounds.Any
      (fun n u => P n u.budget u.own ∧ j.bounds.Ok k stack u) (fun _ => j.bounds.Ok k stack)
      (j.bounds.Ok k stack) s := by
  refine .bind (less_wp (ask_wp (fun _ => rfl) (fun p hp => Option.some.inj hp ▸ hpath) h)
    (by omega)) fun _ t ht => ?_
  obtain ⟨hok, hsame⟩ := ht
  have hclose (u : Client Archive) (hu : j.bounds.Ok (k + 1) stack u) :
      (ask server .closeFile).Wp j.bounds.Any (fun _ v => j.bounds.Ok k stack v ∧ Same u v)
        (fun _ => j.bounds.Ok k stack) (j.bounds.Ok k stack) u :=
    ask_wp (fun _ => rfl) (pathless rfl) hu
  have hbind : (bindReader server body).Wp j.bounds.Any
      (fun n u => P n u.budget u.own ∧ j.bounds.Ok (k + 1) stack u)
      (fun _ => j.bounds.Ok (k + 1) stack) (j.bounds.Ok (k + 1) stack) t := by
    refine .bind ((ask_attempt_wp (fun _ => rfl) (pathless rfl) hok).mono (fun _ _ h => h)
      (fun _ _ h => h) fun _ h => h.less (Nat.le_succ _)) fun answer u hu => ?_
    obtain ⟨hstat, hsame'⟩ := hu
    have hraise := hstat.less (Nat.le_succ _)
    cases answer with
    | error e =>
      dsimp only
      split
      · exact .raise hraise
      · exact .raise hraise
    | ok fileStat =>
      dsimp only
      split
      · exact .raise hraise
      · split
        · split
          · exact .raise hraise
          · exact hbody _ u hstat (hsame.trans hsame')
        · exact .raise hraise
  refine hbind.finallyDo (fun n u hu => ?_) (fun e u hu => ?_) fun u hu => ?_
  · refine (hclose u hu.2).mono (fun _ v hv => ?_) (fun _ _ h => h) fun _ h => h
    exact ⟨hv.2.value hu.1, hv.1⟩
  · exact (hclose u hu).mono (fun _ _ h => h.1) (fun _ _ h => h) fun _ h => h
  · exact (hclose u hu).mono (fun _ _ h => h.1) (fun _ _ h => h) fun _ h => h

/-- A chunk pays for the call that has read it. -/
theorem Bounds.Ok.write {before n : Nat} {chunk : Bytes} (h : j.bounds.Ok k stack s)
    (hcopying : Copying before n s.own) (hchunk : chunk ≠ [])
    (hbound : before + n + chunk.length ≤ j.maxBytes) :
    j.bounds.Ok (k + 1) stack { s with own := s.own.write chunk } := by
  have hkept : s.own.Sound j.maxBytes j.folderName := h.kept
  have hpos := List.length_pos_iff.mpr hchunk
  have hsize := Archive.size_write hcopying.opened chunk
  have hpaid : s.own.size + 1 ≤ (s.own.write chunk).size := by omega
  exact h.keep (hkept.write hcopying.opened (hcopying.size ▸ hbound)) hpaid

/-- The bytes that are written bound the rounds, and pay for their calls. -/
theorem copySftpStream_wp {chunkSize before : Nat} (fuel n : Nat) {s : Client Archive}
    (hcopying : Copying before n s.own) (h : j.bounds.Ok (k + 1) stack s)
    (hfuel : j.maxBytes < before + n + fuel) :
    (copySftpStream server chunkSize (j.maxBytes - before) fuel n).Wp j.bounds.Any
      (fun m t => (Copying before m t.own ∧ t.budget = s.budget) ∧ j.bounds.Ok k stack t)
      (fun _ => j.bounds.Ok k stack) (j.bounds.Ok k stack) s := by
  have hkept : s.own.Sound j.maxBytes j.folderName := h.kept
  have hsize := hkept.size
  rw [hcopying.size] at hsize
  induction fuel generalizing n s with
  | zero => omega
  | succ fuel ih =>
    refine .bind (less_wp (isCancelled_wp h) (Nat.le_succ k)) fun cancelled t ht => ?_
    obtain ⟨hok, hsame⟩ := ht
    split
    · exact .raise (hok.less (Nat.le_succ k))
    · refine .bind (ask_wp (fun _ => rfl) (pathless rfl) hok) fun chunk u hu => ?_
      obtain ⟨hread, hsame'⟩ := hu
      have hall := hsame.trans hsame'
      have hcopying' : Copying before n u.own := hall.own ▸ hcopying
      split
      · exact .pure ⟨⟨hcopying', hall.budget⟩, hread⟩
      · rename_i hchunk
        split
        · exact .raise hread
        · rename_i hbound
          have hpos := List.length_pos_iff.mpr hchunk
          have hfits : before + n + chunk.length ≤ j.maxBytes := by omega
          have hkeep := hread.write hcopying' hchunk hfits
          refine .bind (onDisk_wp hread (hkeep.less (Nat.le_succ k))) fun _ v hv => ?_
          subst hv
          refine .bind (less_wp (onDisk_wp hkeep hkeep) (Nat.le_succ k)) fun _ v hv => ?_
          subst hv
          refine .bind (less_wp (isCancelled_wp hkeep) (Nat.le_succ k)) fun cancelled v hv => ?_
          obtain ⟨hok', hsame''⟩ := hv
          split
          · exact .raise (hok'.less (Nat.le_succ k))
          · have hcopied : Copying before (n + chunk.length) v.own :=
              hsame''.own ▸ hcopying'.write chunk
            have hsound : v.own.Sound j.maxBytes j.folderName := hok'.kept
            refine (ih (n + chunk.length) hcopied hok' (by omega) hsound
              (hcopied.size ▸ hsound.size)).mono (fun m w hw => ?_) (fun _ _ h => h) fun _ h => h
            exact ⟨⟨hw.1.1, hw.1.2.trans (hsame''.budget.trans hall.budget)⟩, hw.2⟩

theorem copyMember_wp {fuel chunkSize : Nat} {member : String} {leaseSize : Nat}
    (hfilled : Filled s.own) (hmember : Member j.folderName member)
    (h : j.bounds.Ok (k + 1) stack s) (hfuel : j.maxBytes < fuel) :
    (copyMember server fuel j.maxBytes chunkSize member leaseSize).Wp j.bounds.Any
      (fun m t => (Copying s.own.transferred m t.own ∧ t.budget = s.budget) ∧ j.bounds.Ok k stack t)
      (fun _ => j.bounds.Ok k stack) (j.bounds.Ok k stack) s := by
  have hless := h.less (Nat.le_succ k)
  refine .bind (P := fun r t => r = s ∧ t = s) (.get ⟨rfl, rfl⟩) fun r t ht => ?_
  obtain ⟨rfl, rfl⟩ := ht
  split
  · exact .raise hless
  · have hkept : t.own.Sound j.maxBytes j.folderName := h.kept
    have hopen : j.bounds.Ok (k + 1) stack { t with own := t.own.openMember member } :=
      h.keep (l := 0) (hkept.openMember hmember) (Nat.le_of_eq (t.own.size_openMember member).symm)
    refine .bind (less_wp (onDisk_wp h hopen) (Nat.le_succ k)) fun _ u hu => ?_
    subst hu
    exact (copySftpStream_wp fuel 0 (hfilled.copying member) hopen (by omega)).finallyDo
      (fun m u hu => flush_wp hu.2 hu) (fun e u hu => flush_wp hu hu) fun u hu => flush_wp hu hu

theorem addFile_wp {fuel chunkSize : Nat} {source member : String} (hfilled : Filled s.own)
    (hpath : Below j.folder 51 source) (hmember : Member j.folderName member)
    (h : j.bounds.Ok (k + 4) stack s) (hfuel : j.maxBytes < fuel) :
    (addFile server fuel j.maxBytes chunkSize source member).Wp j.bounds.Any
      (fun _ t => Filled t.own ∧ j.bounds.Ok k stack t ∧ t.budget = s.budget)
      (fun _ => j.bounds.Ok k stack) (j.bounds.Ok k stack) s := by
  have hreader : (openBoundReader server source
      (copyMember server fuel j.maxBytes chunkSize member)).Wp j.bounds.Any
      (fun m t => (Copying s.own.transferred m t.own ∧ t.budget = s.budget) ∧ j.bounds.Ok k stack t)
      (fun _ => j.bounds.Ok k stack) (j.bounds.Ok k stack) s := by
    refine openBoundReader_wp
      (P := fun m b a => Copying s.own.transferred m a ∧ b = s.budget) hpath h
      fun size t ht hsame => ?_
    refine (copyMember_wp (hsame.own ▸ hfilled) hmember ht hfuel).mono (fun m u hu => ?_)
      (fun _ _ h => h) fun _ h => h
    exact ⟨⟨hsame.own ▸ hu.1.1, hu.1.2.trans hsame.budget⟩, hu.2⟩
  refine .bind hreader fun copied t ht => ?_
  obtain ⟨⟨hcopying, hbudget⟩, hok⟩ := ht
  have hkept : t.own.Sound j.maxBytes j.folderName := hok.kept
  have hadded : j.bounds.Ok k stack
      { t with own := { t.own with transferred := t.own.transferred + copied } } :=
    hok.keep (l := 0) ⟨hkept.size, hkept.names⟩ (Nat.le_refl _)
  refine .bind (P := fun _ u => u =
      { t with own := { t.own with transferred := t.own.transferred + copied } })
    (.modify hadded.any rfl) fun _ u hu => ?_
  subst hu
  refine (checkArchiveSize_wp j.maxBytes hadded).mono (fun _ v hv => ?_) (fun _ _ h => h)
    fun _ h => h
  subst hv
  exact ⟨hcopying.filled, hadded, hbudget⟩

/-! ## The tree -/

theorem addEntry_body {fuel chunkSize : Nat} {child : String → String → Prog Archive PUnit}
    {depth : Nat} {remotePath archivePrefix : String} (hdepth : depth + 1 ≤ 51)
    (hremote : Below j.folder depth remotePath) (hbelow : Below j.folderName depth archivePrefix)
    (hfuel : j.maxBytes < fuel)
    (hchild : ∀ k stack path member s, Below j.folder (depth + 1) path →
      Below j.folderName (depth + 1) member → Filled s.own → j.bounds.Within (k + 4) stack s →
      j.bounds.Run Filling (child path member) k stack s) :
    j.bounds.Body SafeName Filling
      (addEntry server fuel j.maxBytes chunkSize child remotePath archivePrefix) := by
  intro k stack b entry s hcharged _ hs
  obtain ⟨old, hfilled, -⟩ := hcharged.charged
  have hfive : j.bounds.Within (k + 4 + 1) stack s := hs
  unfold addEntry
  refine .bind (less_wp (isCancelled_wp hfive.1) (by omega)) fun cancelled t ht => ?_
  obtain ⟨hok, hsame⟩ := ht
  have hroom : j.bounds.Within (k + 4 + 1) stack t := ⟨hok, hsame.used ▸ hfive.2⟩
  split
  · exact .raise (hok.less (by omega))
  · split
    · exact .raise (hok.less (by omega))
    · rename_i hname
      have hsource := hremote.join hname
      have hmember := hbelow.join hname
      refine .bind (less_wp (statEntry_wp (hsource.deeper hdepth) hroom) (by omega))
        fun entryStat u hu => ?_
      obtain ⟨hwithin, hsame'⟩ := hu
      have hall := hsame.trans hsame'
      have hused := hall.used
      have hfilled' : Filled u.own := hall.own ▸ hfilled
      refine .bind (ofExcept_wp (hwithin.1.less (by omega))) fun kind v hv => ?_
      obtain ⟨rfl, -⟩ := hv
      cases kind with
      | link => exact .pure ⟨hfilled', hwithin.less (by omega), Nat.le_of_eq hused.symm⟩
      | directory =>
        refine .bind (hchild k stack _ _ v hsource hmember hfilled' hwithin) fun _ w hw => ?_
        exact .pure ⟨hw.1, hw.2.1, hused ▸ hw.2.2⟩
      | other =>
        refine .bind (addFile_wp hfilled' (hsource.deeper hdepth) (hmember.member hdepth) hwithin.1
          hfuel) fun _ w hw => ?_
        obtain ⟨hdone, hkept, hbudget⟩ := hw
        have hspent : w.budget.used = s.budget.used := (congrArg Budget.used hbudget).trans hused
        exact .pure ⟨hdone, ⟨hkept, hspent ▸ hs.2⟩, Nat.le_of_eq hspent.symm⟩

theorem addEmpty_run {archivePrefix : String} (hbelow : Below j.folderName 51 archivePrefix)
    (hfilled : Filled s.own) (h : j.bounds.Within k stack s) :
    j.bounds.Run Filling (addEmpty j.maxBytes archivePrefix) k stack s := by
  have hkept : s.own.Sound j.maxBytes j.folderName := h.1.kept
  have hname : Member j.folderName (directoryMember archivePrefix) := ⟨_, hbelow, .inr rfl⟩
  have hadded : j.bounds.Ok k stack
      { s with own := s.own.openMember (directoryMember archivePrefix) } :=
    h.1.keep (l := 0) (hkept.openMember hname) (Nat.le_of_eq (s.own.size_openMember _).symm)
  refine .bind (onDisk_wp h.1 hadded) fun _ t ht => ?_
  subst ht
  refine (checkArchiveSize_wp j.maxBytes hadded).mono (fun _ u hu => ?_) (fun _ _ h => h)
    fun _ h => h
  subst hu
  exact ⟨hfilled.openMember _, ⟨hadded, h.2⟩, Nat.le_refl _⟩

theorem filling_lasting {β : Type} : j.bounds.Lasting (@Filling β) := fun _ _ _ _ _ h _ => h

theorem addDirectory_run {fuel chunkSize : Nat} (levels : Nat) (hfuel : j.limit + j.maxBytes < fuel)
    (hlevels : levels ≤ 51) {remotePath archivePrefix : String} {s : Client Archive}
    (hremote : Below j.folder (51 - levels) remotePath)
    (hbelow : Below j.folderName (51 - levels) archivePrefix) (hfilled : Filled s.own)
    (h : j.bounds.Within (k + 4) stack s) :
    j.bounds.Run Filling
      (addDirectory server j.config fuel j.maxBytes chunkSize levels remotePath archivePrefix)
      k stack s := by
  induction levels generalizing k stack remotePath archivePrefix s with
  | zero => exact .raise (h.1.less (by omega))
  | succ levels ih =>
    have hremote51 : Below j.folder 51 remotePath := hremote.deeper (by omega)
    have hbelow51 : Below j.folderName 51 archivePrefix := hbelow.deeper (by omega)
    refine .bind (less_wp (isCancelled_wp h.1) (by omega)) fun cancelled t ht => ?_
    obtain ⟨hok, hsame⟩ := ht
    have hused := hsame.used
    split
    · exact .raise (hok.less (by omega))
    · have hdepth : 51 - (levels + 1) + 1 = 51 - levels := by omega
      have hbody : j.bounds.Body SafeName Filling (addEntry server fuel j.maxBytes chunkSize
          (addDirectory server j.config fuel j.maxBytes chunkSize levels) remotePath archivePrefix) :=
        addEntry_body (by omega) hremote hbelow (by omega)
          fun k stack path member s hpath hmember hs hwithin =>
            ih (by omega) (hdepth ▸ hpath) (hdepth ▸ hmember) hs hwithin
      have hloop : j.bounds.Run Filling (directoryEntries server j.config fuel remotePath
          (addEntry server fuel j.maxBytes chunkSize
            (addDirectory server j.config fuel j.maxBytes chunkSize levels) remotePath archivePrefix)
          false) k stack t :=
        directoryEntries_wp filling_lasting hbody (hsame.own ▸ hfilled) hremote51
          ⟨hok, hused ▸ h.2⟩ (show j.limit < fuel + t.budget.used by omega)
      refine .bind hloop fun sawEntry u hu => ?_
      obtain ⟨hdone, hwithin, hmore⟩ := hu
      split
      · exact (addEmpty_run hbelow51 hdone hwithin).after (hused ▸ hmore)
      · exact .pure ⟨hdone, hwithin, hused ▸ hmore⟩

theorem fillArchive_run {fuel chunkSize : Nat} (hfuel : j.limit + j.maxBytes < fuel)
    (hfilled : Filled s.own) (h : j.bounds.Within (k + 4) stack s) :
    (fillArchive server j.config fuel j.maxBytes chunkSize j.folder j.folderName).Wp j.bounds.Any
      (fun _ t => j.bounds.Ok k stack t ∧ t.own.present = true) (fun _ => j.bounds.Ok k stack)
      (j.bounds.Ok k stack) s := by
  have hfolder (folder : String) : Below folder (51 - 51) folder :=
    ⟨[], Nat.zero_le _, List.forall_mem_nil _, rfl⟩
  have hadd : j.bounds.Run Filling
      (addDirectory server j.config fuel j.maxBytes chunkSize 51 j.folder j.folderName) k stack s :=
    addDirectory_run 51 hfuel (Nat.le_refl _) (hfolder j.folder) (hfolder j.folderName) hfilled h
  have hclosed := hadd.finallyDo (Q := fun _ t => Filled t.own ∧ j.bounds.Ok k stack t)
    (fun _ t ht => flush_wp (P := fun t => Filled t.own ∧ j.bounds.Ok k stack t) ht.2.1.1
      ⟨ht.1, ht.2.1.1⟩) (fun e t ht => flush_wp ht ht) fun t ht => flush_wp ht ht
  have hopen : (onDisk id).Wp j.bounds.Any (fun _ t => t = s) (fun _ => j.bounds.Ok k stack)
      (j.bounds.Ok k stack) s := flush_wp (h.1.less (by omega)) rfl
  refine .bind hopen fun _ r hr => ?_
  subst hr
  refine .bind hclosed fun _ t ht => ?_
  refine (checkArchiveSize_wp j.maxBytes ht.2).mono (fun _ u hu => ?_) (fun _ _ h => h) fun _ h => h
  subst hu
  exact ⟨ht.2, ht.1.present⟩

/-- The archive is removed unless its removal fails. -/
theorem unlinkArchive_wp {R : Error → Client Archive → Prop} {A : Client Archive → Prop}
    (removal : Result Error PUnit) (h : j.bounds.Ok k stack s) :
    ((unlinkArchive removal).catchAll ⟨⟩).Wp j.bounds.Any
      (fun _ t => j.bounds.Ok k stack t ∧ (removal = .ok ⟨⟩ → t.own.present = false)) R A s := by
  have hkept : s.own.Sound j.maxBytes j.folderName := h.kept
  have hremoved : j.bounds.Ok k stack { s with own := { s.own with present := false } } :=
    h.keep (l := 0) ⟨hkept.size, hkept.names⟩ (Nat.le_refl _)
  refine .catchAll (.react ?_ (fun a ha => ?_) (fun e he => ?_) fun ha => ?_)
  · cases removal with
    | ok a => exact hremoved.any
    | raised e => exact h.any
    | aborted => exact h.any
  · dsimp only at ha
    rw [ha]
    exact ⟨hremoved, fun _ => rfl⟩
  · dsimp only at he
    rw [he]
    exact ⟨h, fun hok => by cases hok⟩
  · dsimp only at ha
    rw [ha]
    exact ⟨h, fun hok => by cases hok⟩

theorem buildFallbackZipToDisk_wp {fuel chunkSize : Nat} (removal : Result Error PUnit)
    (hfuel : j.limit + j.maxBytes < fuel) (hfilled : Filled s.own)
    (h : j.bounds.Within (k + 4) stack s) :
    (buildFallbackZipToDisk server j.config fuel j.maxBytes chunkSize removal j.folder
      j.folderName).Wp j.bounds.Any
      (fun _ t => j.bounds.Ok k stack t ∧ t.own.present = true)
      (fun _ t => j.bounds.Ok k stack t ∧ (removal = .ok ⟨⟩ → t.own.present = false))
      (fun t => j.bounds.Ok k stack t ∧ (removal = .ok ⟨⟩ → t.own.present = false)) s :=
  (fillArchive_run hfuel hfilled h).onFailure (fun _ _ ht => unlinkArchive_wp removal ht)
    fun _ ht => unlinkArchive_wp removal ht

/-- What is known of a state that the building passes through. -/
theorem Job.passes (h : j.bounds.Any s) :
    Safe j.config j.limit j.metadataLimit (6 * s.budget.used + s.own.size) s ∧
      s.own.Sound j.maxBytes j.folderName ∧
      ∀ e ∈ s.log, ∀ path, e.call.path? = some path → Below j.folder 51 path := by
  obtain ⟨stack, h⟩ := h
  have hcalls := h.calls
  simp only [Job.bounds, Nat.add_zero] at hcalls
  exact ⟨⟨h.running, h.used, h.metadataUsed, hcalls, stack, h.held⟩, h.kept, h.paths⟩

end

/-- Whatever a server answers, and whatever happens to the local file, the archive is built within
its bounds: it never holds more than `maxBytes` bytes of files, and its members are named by the
folder and safe names below it. The calls are paid for by the entries that are read and the bytes
that are copied, no directory is left open, and no path is asked for but the folder and those below
it. The archive is there if it was built, and it is removed if it was not. -/
theorem buildFallbackZipToDisk_bounded (server : Server) (j : Job) (fuel chunkSize : Nat)
    (removal : Result Error PUnit) (script : Script Error) :
    let run := buildFallbackZipToDisk server j.config (j.limit + j.maxBytes + 1 + fuel) j.maxBytes
      chunkSize removal j.folder j.folderName script
      (start (.new j.limit j.metadataLimit ⟨[], 0, true⟩))
    (∀ t ∈ run.2.visited,
      Safe j.config j.limit j.metadataLimit (6 * t.budget.used + t.own.size) t ∧
        t.own.Sound j.maxBytes j.folderName ∧
        ∀ e ∈ t.log, ∀ path, e.call.path? = some path → Below j.folder 51 path) ∧
      run.2.state.stuck = false ∧ held j.config run.2.state.log = some [] ∧
      (run.1 = .ok ⟨⟩ → run.2.state.own.present = true) ∧
      (run.1 ≠ .ok ⟨⟩ → removal = .ok ⟨⟩ → run.2.state.own.present = false) := by
  have hnew : j.bounds.Within 4 [] (Client.new j.limit j.metadataLimit ⟨[], 0, true⟩) :=
    within_new rfl ⟨Nat.zero_le _, List.forall_mem_nil _⟩
  have hwp : (buildFallbackZipToDisk server j.config (j.limit + j.maxBytes + 1 + fuel) j.maxBytes
      chunkSize removal j.folder j.folderName).Wp _ _ _ _ _ :=
    buildFallbackZipToDisk_wp removal (by omega) ⟨rfl, rfl⟩ hnew
  have hends := hwp script (start _) rfl fun t ht => absurd ht List.not_mem_nil
  intro run
  change Ends _ _ _ _ run at hends
  clear_value run
  obtain ⟨result, w⟩ := run
  cases result with
  | ok a =>
    obtain ⟨hall, hok, hpresent⟩ := hends
    exact ⟨fun t ht => Job.passes (hall t ht), hok.running, hok.held, fun _ => hpresent,
      fun h => absurd rfl h⟩
  | raised e =>
    obtain ⟨hall, hok, hremoved⟩ := hends
    exact ⟨fun t ht => Job.passes (hall t ht), hok.running, hok.held, (fun h => by cases h),
      fun _ => hremoved⟩
  | aborted =>
    obtain ⟨hall, hok, hremoved⟩ := hends
    exact ⟨fun t ht => Job.passes (hall t ht), hok.running, hok.held, (fun h => by cases h),
      fun _ => hremoved⟩

/-! ## A file that is longer than its size -/

end WebSSH.Sftp
