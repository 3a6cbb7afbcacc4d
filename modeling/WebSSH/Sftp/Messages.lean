import Mathlib
import WebSSH.Lib.Dict
import WebSSH.Lib.Utf8
import WebSSH.Lib.Wire

/-!
# Directory messages of an SFTP server

The readers of `sftp_handler.py` for what a server sends of a directory: its handle, the number of
entries in a reply, and each entry with its names and its attributes. A server chooses every byte
of them.
-/

namespace WebSSH.Sftp

open Lib Lib.Wire Lib.Wire.Reader
open Lib.Python (Bytes encode decode)

structure Config where
  remoteFilenameMaxBytes : Nat
  remoteListingMaxMetadataBytes : Nat
  sftpMaxHandleBytes : Nat

/-- What the functions of a directory raise. -/
inductive Error
  /-- `EOFError`: the directory has no more entries. -/
  | eof
  /-- `SFTPError` -/
  | sftp (message : String)
  /-- `RemoteMetadataLimitExceeded` -/
  | metadataLimit (message : String)
  /-- `TransferMemberLimitExceeded` -/
  | memberLimit
  /-- `SFTPOperationError` itself -/
  | operation (message : String)
  /-- `TransferCancelled` -/
  | cancelled
  /-- `TransferSizeExceeded` -/
  | sizeExceeded
  /-- Any other exception of the client. -/
  | other (message : String)
  deriving DecidableEq, Repr

/-! ## Attributes -/

def flagSize : UInt32 := 0x00000001
def flagUidgid : UInt32 := 0x00000002
def flagPermissions : UInt32 := 0x00000004
def flagAmtime : UInt32 := 0x00000008
def flagExtended : UInt32 := 0x80000000

def knownFlags : UInt32 := flagSize ||| flagUidgid ||| flagPermissions ||| flagAmtime ||| flagExtended

/-- `SFTPAttributes` with the three attributes that are added to it. -/
structure Entry where
  flags : UInt32
  stSize : Option Nat
  /-- `st_uid` and `st_gid` -/
  stOwner : Option (Nat × Nat)
  stMode : Option Nat
  /-- `st_atime` and `st_mtime` -/
  stTimes : Option (Nat × Nat)
  attr : Dict Bytes Bytes
  filename : String
  longname : String
  /-- `_webssh_extra_metadata_bytes` -/
  extraMetadataBytes : Nat

section
variable (config : Config)

/-- `_remote_metadata_text_size`; a decoded text has no surrogates. -/
def remoteMetadataTextSize (value : String) : Except Error Nat :=
  if config.remoteFilenameMaxBytes < value.length then
    .error (.metadataLimit "Remote filename exceeds configured byte limit")
  else if config.remoteFilenameMaxBytes < (encode value).length then
    .error (.metadataLimit "Remote filename exceeds configured byte limit")
  else .ok (encode value).length

/-- An unsigned integer, most significant byte first. -/
def take (width : Nat) (label : String) : Reader Error Nat :=
  word .big width (.metadataLimit s!"Malformed remote {label}")

def messageUint32 (label : String) : Reader Error Nat := take 4 label

def exceedsLimit (label : String) : Error :=
  .metadataLimit s!"Remote {label} exceeds configured byte limit"

def boundedMessageBinary (label : String) (maximum : Nat) : Reader Error Bytes := do
  let length ← take 4 label
  refuseIf (maximum < length) (exceedsLimit label)
  block length (exceedsLimit label)

def boundedMessageText (label : String) : Reader Error String := do
  let raw ← boundedMessageBinary label config.remoteFilenameMaxBytes
  match decode raw with
  | some value => pure value
  | none => checked (.error (.metadataLimit s!"Remote {label} is not valid UTF-8"))

def extensionLimit : Nat := min config.remoteListingMaxMetadataBytes (64 * 1024)

/-- The inner loop's body: the name or the value of an extension, after `used` bytes of them. -/
def extensionPart (label : String) (used : Nat) : Reader Error Bytes := do
  let part ← boundedMessageBinary label config.remoteFilenameMaxBytes
  refuseIf (extensionLimit config < used + part.length)
    (.metadataLimit "Remote attribute extensions exceed byte limit")
  pure part

/-- One extension; a name that comes again has its last value. -/
def extension (s : Nat × Dict Bytes Bytes) : Reader Error (Nat × Dict Bytes Bytes) := do
  let name ← extensionPart config "extension name" s.1
  let value ← extensionPart config "extension value" (s.1 + name.length)
  pure (s.1 + name.length + value.length, s.2.set name value)

def extensions : Reader Error (Nat × Dict Bytes Bytes) := do
  let extensionCount ← take 4 "attribute extensions"
  refuseIf (16 < extensionCount) (.metadataLimit "Remote attributes contain too many extensions")
  loop (extension config) extensionCount (0, ∅)

/-- Two words. -/
def pair (label label' : String) : Reader Error (Nat × Nat) := do
  let a ← take 4 label
  let b ← take 4 label'
  pure (a, b)

/-- `_bounded_sftp_attributes` -/
def boundedSftpAttributes (filename longname : String) : Reader Error Entry := do
  let flags ← UInt32.ofNat <$> take 4 "attributes"
  refuseIf (flags &&& ~~~knownFlags ≠ 0) (.metadataLimit "Unsupported remote attributes")
  let stSize ← when (flags &&& flagSize ≠ 0) (take 8 "file size")
  let stOwner ← when (flags &&& flagUidgid ≠ 0) (pair "file owner" "file group")
  let stMode ← when (flags &&& flagPermissions ≠ 0) (take 4 "file permissions")
  let stTimes ← when (flags &&& flagAmtime ≠ 0) (pair "access time" "modification time")
  let extended ← when (flags &&& flagExtended ≠ 0) (extensions config)
  let longnameSize ← checked (remoteMetadataTextSize config longname)
  pure {
    flags, stSize, stOwner, stMode, stTimes, filename, longname
    attr := (extended.map Prod.snd).getD ∅
    extraMetadataBytes := longnameSize + (extended.map Prod.fst).getD 0 }

/-- One entry of a reply: the body of the generator's inner loop up to its charge. -/
def readEntry : Reader Error Entry := do
  let filename ← boundedMessageText config "filename"
  let longname ← boundedMessageText config "longname"
  boundedSftpAttributes config filename longname

end

/-! ## What a server may send -/

def sized (content : Bytes) : Bytes := ByteOrder.big.bytes 4 content.length ++ content

def encodeExtension (e : Bytes × Bytes) : Bytes := sized e.1 ++ sized e.2

def encodePair (p : Nat × Nat) : Bytes := ByteOrder.big.bytes 4 p.1 ++ ByteOrder.big.bytes 4 p.2

def encodeExtensions (es : List (Bytes × Bytes)) : Bytes :=
  ByteOrder.big.bytes 4 es.length ++ es.flatMap encodeExtension

/-- An optional field. -/
def encodeOption {α : Type} (enc : α → Bytes) (a : Option α) : Bytes := (a.map enc).getD []

/-- The attributes of an entry with the extensions `es`. -/
def Entry.attributeBytes (e : Entry) (es : Option (List (Bytes × Bytes))) : Bytes :=
  ByteOrder.big.bytes 4 e.flags.toNat ++ (encodeOption (ByteOrder.big.bytes 8) e.stSize ++
    (encodeOption encodePair e.stOwner ++ (encodeOption (ByteOrder.big.bytes 4) e.stMode ++
      (encodeOption encodePair e.stTimes ++ encodeOption encodeExtensions es))))

/-- An entry with the extensions `es`. -/
def Entry.toBytes (e : Entry) (es : Option (List (Bytes × Bytes))) : Bytes :=
  sized (encode e.filename) ++ (sized (encode e.longname) ++ e.attributeBytes es)

/-- The bytes of names and values. -/
def extensionBytes (es : List (Bytes × Bytes)) : Nat := (es.map fun e => e.1.length + e.2.length).sum

/-- A block of bytes whose length fits its own word and the configured bound. -/
def Bounded (maximum : Nat) (content : Bytes) : Prop :=
  content.length < 256 ^ 4 ∧ content.length ≤ maximum

instance (maximum : Nat) (content : Bytes) : Decidable (Bounded maximum content) :=
  inferInstanceAs (Decidable (content.length < 256 ^ 4 ∧ content.length ≤ maximum))

/-- A flag announces a field. -/
def Announced {α : Type} (flags flag : UInt32) (a : Option α) (p : α → Prop) : Prop :=
  (flags &&& flag ≠ 0 ∧ ∃ b, a = some b ∧ p b) ∨ (¬ flags &&& flag ≠ 0 ∧ a = none)

def Words (p : Nat × Nat) : Prop := p.1 < 256 ^ 4 ∧ p.2 < 256 ^ 4

/-- Few extensions, each within the bound of a name, and all of them within their own. -/
structure Extends (config : Config) (es : List (Bytes × Bytes)) : Prop where
  count : es.length ≤ 16
  each : ∀ e ∈ es, Bounded config.remoteFilenameMaxBytes e.1 ∧
    Bounded config.remoteFilenameMaxBytes e.2
  total : extensionBytes es ≤ extensionLimit config

/-- The attributes of an entry as they may be sent. -/
structure Entry.LegalAttributes (config : Config) (e : Entry) (es : Option (List (Bytes × Bytes))) :
    Prop where
  flags : e.flags &&& ~~~knownFlags = 0
  size : Announced e.flags flagSize e.stSize (· < 256 ^ 8)
  owner : Announced e.flags flagUidgid e.stOwner Words
  mode : Announced e.flags flagPermissions e.stMode (· < 256 ^ 4)
  times : Announced e.flags flagAmtime e.stTimes Words
  extended : Announced e.flags flagExtended es (Extends config)
  attr : e.attr = (es.getD []).foldl (fun d x => d.set x.1 x.2) ∅
  extra : e.extraMetadataBytes = (encode e.longname).length + extensionBytes (es.getD [])

/-- An entry as it may be sent. -/
structure Entry.Legal (config : Config) (e : Entry) (es : Option (List (Bytes × Bytes))) :
    Prop extends e.LegalAttributes config es where
  filename : Bounded config.remoteFilenameMaxBytes (encode e.filename)
  longname : Bounded config.remoteFilenameMaxBytes (encode e.longname)

/-! ## What the readers take -/

section
variable {config : Config} {label : String}

theorem reads_take (width : Nat) (label : String) :
    Reads (take width label) fun n raw => n < 256 ^ width ∧ raw = ByteOrder.big.bytes width n :=
  .word .big width _

theorem reads_boundedMessageBinary (label : String) (maximum : Nat) :
    Reads (boundedMessageBinary label maximum) fun content raw =>
      Bounded maximum content ∧ raw = sized content := by
  refine ((reads_take 4 label).bind fun length => (Reads.refuseIf _ _).bind fun _ =>
    .block length _).congr fun content raw => ⟨?_, ?_⟩
  · rintro ⟨n, _, _, ⟨hn, rfl⟩, ⟨_, _, _, ⟨hmax, rfl⟩, ⟨rfl, rfl⟩, rfl⟩, rfl⟩
    exact ⟨⟨hn, Nat.le_of_not_lt hmax⟩, rfl⟩
  · rintro ⟨⟨hn, hmax⟩, rfl⟩
    exact ⟨_, _, _, ⟨hn, rfl⟩, ⟨(), [], _, ⟨Nat.not_lt_of_le hmax, rfl⟩, ⟨rfl, rfl⟩, rfl⟩, rfl⟩

theorem reads_boundedMessageText (label : String) :
    Reads (boundedMessageText config label) fun text raw =>
      Bounded config.remoteFilenameMaxBytes (encode text) ∧ raw = sized (encode text) := by
  have hdecode (content : Bytes) : Reads (match decode content with
      | some value => pure value
      | none => checked (Except.error (Error.metadataLimit s!"Remote {label} is not valid UTF-8")))
      fun text raw => content = encode text ∧ raw = [] := by
    cases h : decode content with
    | none =>
      refine (Reads.checked _).congr fun text raw => ⟨?_, ?_⟩
      · rintro ⟨h, -⟩
        cases h
      · rintro ⟨rfl, -⟩
        rw [Lib.Python.decode_encode] at h
        cases h
    | some value =>
      refine (Reads.pure value).congr fun text raw => ⟨?_, ?_⟩
      · rintro ⟨rfl, rfl⟩
        exact ⟨(Lib.Python.encode_of_decode h).symm, rfl⟩
      · rintro ⟨rfl, rfl⟩
        rw [Lib.Python.decode_encode] at h
        exact ⟨Option.some.inj h, rfl⟩
  refine ((reads_boundedMessageBinary label _).bind hdecode).congr fun text raw => ⟨?_, ?_⟩
  · rintro ⟨_, _, _, ⟨hb, rfl⟩, ⟨rfl, rfl⟩, rfl⟩
    exact ⟨hb, List.append_nil _⟩
  · rintro ⟨hb, rfl⟩
    exact ⟨_, _, [], ⟨hb, rfl⟩, ⟨rfl, rfl⟩, (List.append_nil _).symm⟩

theorem reads_pair (label label' : String) :
    Reads (pair label label') fun p raw => Words p ∧ raw = encodePair p := by
  refine ((reads_take 4 label).bind fun a => (reads_take 4 label').bind fun b =>
    .pure (a, b)).congr fun p raw => ⟨?_, ?_⟩
  · rintro ⟨a, _, _, ⟨ha, rfl⟩, ⟨b, _, _, ⟨hb, rfl⟩, ⟨rfl, rfl⟩, rfl⟩, rfl⟩
    exact ⟨⟨ha, hb⟩, by rw [List.append_nil, encodePair]⟩
  · rintro ⟨⟨ha, hb⟩, rfl⟩
    exact ⟨_, _, _, ⟨ha, rfl⟩, ⟨_, _, [], ⟨hb, rfl⟩, ⟨rfl, rfl⟩, rfl⟩,
      by rw [List.append_nil, encodePair]⟩

theorem reads_extensionPart (label : String) (used : Nat) :
    Reads (extensionPart config label used) fun part raw =>
      (Bounded config.remoteFilenameMaxBytes part ∧ used + part.length ≤ extensionLimit config) ∧
        raw = sized part := by
  refine ((reads_boundedMessageBinary label _).bind fun part => (Reads.refuseIf _ _).bind fun _ =>
    .pure part).congr fun part raw => ⟨?_, ?_⟩
  · rintro ⟨_, _, _, ⟨hb, rfl⟩, ⟨_, _, _, ⟨hlimit, rfl⟩, ⟨rfl, rfl⟩, rfl⟩, rfl⟩
    exact ⟨⟨hb, Nat.le_of_not_lt hlimit⟩, List.append_nil _⟩
  · rintro ⟨⟨hb, hlimit⟩, rfl⟩
    exact ⟨_, _, [], ⟨hb, rfl⟩, ⟨(), [], [], ⟨Nat.not_lt_of_le hlimit, rfl⟩, ⟨rfl, rfl⟩, rfl⟩,
      (List.append_nil _).symm⟩

/-- What one extension adds. -/
def addExtension (s : Nat × Dict Bytes Bytes) (e : Bytes × Bytes) : Nat × Dict Bytes Bytes :=
  (s.1 + e.1.length + e.2.length, s.2.set e.1 e.2)

/-- An extension that may come after `s.1` bytes of others. -/
def Follows (config : Config) (s : Nat × Dict Bytes Bytes) (e : Bytes × Bytes) : Prop :=
  Bounded config.remoteFilenameMaxBytes e.1 ∧ Bounded config.remoteFilenameMaxBytes e.2 ∧
    s.1 + e.1.length + e.2.length ≤ extensionLimit config

theorem reads_extension (s : Nat × Dict Bytes Bytes) :
    Reads (extension config s) fun t raw =>
      ∃ e, Follows config s e ∧ t = addExtension s e ∧ raw = encodeExtension e := by
  refine ((reads_extensionPart _ _).bind fun name => (reads_extensionPart _ _).bind fun value =>
    .pure _).congr fun t raw => ⟨?_, ?_⟩
  · rintro ⟨name, _, _, ⟨⟨hname, _⟩, rfl⟩, ⟨value, _, _, ⟨⟨hvalue, hlimit⟩, rfl⟩, ⟨rfl, rfl⟩, rfl⟩,
      rfl⟩
    exact ⟨(name, value), ⟨hname, hvalue, hlimit⟩, rfl, by rw [List.append_nil, encodeExtension]⟩
  · rintro ⟨e, ⟨hname, hvalue, hlimit⟩, rfl, rfl⟩
    exact ⟨e.1, _, _, ⟨⟨hname, by omega⟩, rfl⟩, ⟨e.2, _, [], ⟨⟨hvalue, hlimit⟩, rfl⟩, ⟨rfl, rfl⟩,
      rfl⟩, by rw [List.append_nil, encodeExtension]⟩

theorem extensionBytes_cons (e : Bytes × Bytes) (es : List (Bytes × Bytes)) :
    extensionBytes (e :: es) = e.1.length + e.2.length + extensionBytes es := by
  rw [extensionBytes, List.map_cons, List.sum_cons, extensionBytes]

theorem foldl_addExtension (es : List (Bytes × Bytes)) (s : Nat × Dict Bytes Bytes) :
    es.foldl addExtension s =
      (s.1 + extensionBytes es, es.foldl (fun d x => d.set x.1 x.2) s.2) := by
  induction es generalizing s with
  | nil => rfl
  | cons e es ih =>
    rw [List.foldl_cons, ih, extensionBytes_cons]
    simp only [addExtension, List.foldl_cons, Nat.add_assoc]

/-- The running sum is checked after each part, which is to check it at the end. -/
theorem allowed_extensions {es : List (Bytes × Bytes)} {s : Nat × Dict Bytes Bytes}
    (hs : s.1 ≤ extensionLimit config) :
    Allowed (Follows config) addExtension s es ↔
      (∀ e ∈ es, Bounded config.remoteFilenameMaxBytes e.1 ∧
        Bounded config.remoteFilenameMaxBytes e.2) ∧
        s.1 + extensionBytes es ≤ extensionLimit config := by
  induction es generalizing s with
  | nil => simp [Allowed, extensionBytes, hs]
  | cons e es ih =>
    rw [Allowed, List.forall_mem_cons, extensionBytes_cons]
    constructor
    · rintro ⟨⟨hname, hvalue, hlimit⟩, hrest⟩
      obtain ⟨heach, htotal⟩ := (ih hlimit).mp hrest
      simp only [addExtension] at htotal
      exact ⟨⟨⟨hname, hvalue⟩, heach⟩, by omega⟩
    · rintro ⟨⟨⟨hname, hvalue⟩, heach⟩, htotal⟩
      have hlimit : s.1 + e.1.length + e.2.length ≤ extensionLimit config := by omega
      refine ⟨⟨hname, hvalue, hlimit⟩, (ih hlimit).mpr ⟨heach, ?_⟩⟩
      simp only [addExtension]
      omega

theorem reads_extensions :
    Reads (extensions config) fun t raw => ∃ es, Extends config es ∧
      t = (extensionBytes es, es.foldl (fun d x => d.set x.1 x.2) ∅) ∧
        raw = encodeExtensions es := by
  refine ((reads_take 4 _).bind fun n => (Reads.refuseIf _ _).bind fun _ =>
    .loop reads_extension n (0, ∅)).congr fun t raw => ⟨?_, ?_⟩
  · rintro ⟨_, _, _, ⟨-, rfl⟩, ⟨_, _, _, ⟨hcount, rfl⟩, ⟨es, rfl, hes, rfl, rfl⟩, rfl⟩, rfl⟩
    obtain ⟨heach, htotal⟩ := (allowed_extensions (Nat.zero_le _)).mp hes
    refine ⟨es, ⟨Nat.le_of_not_lt hcount, heach, by omega⟩, ?_, rfl⟩
    rw [foldl_addExtension, Nat.zero_add]
  · rintro ⟨es, h, rfl, rfl⟩
    have hcount := h.count
    have htotal := h.total
    refine ⟨es.length, _, _, ⟨by omega, rfl⟩, ⟨(), [], _, ⟨by omega, rfl⟩, ⟨es, rfl, ?_, ?_, rfl⟩,
      rfl⟩, rfl⟩
    · exact (allowed_extensions (Nat.zero_le _)).mpr ⟨h.each, by omega⟩
    · rw [foldl_addExtension, Nat.zero_add]

/-- A name that was read is within the bound on names. -/
theorem remoteMetadataTextSize_eq_ok {text : String}
    (h : (encode text).length ≤ config.remoteFilenameMaxBytes) :
    remoteMetadataTextSize config text = .ok (encode text).length := by
  have hlength : text.length ≤ (encode text).length := by
    rw [Utf8.encode_toList, ← String.length_toList]
    exact Utf8.length_le_encodeChars text.toList
  rw [remoteMetadataTextSize, if_neg (by omega), if_neg (by omega)]

theorem remoteMetadataTextSize_ok {text : String} {n : Nat}
    (h : remoteMetadataTextSize config text = .ok n) : n = (encode text).length := by
  unfold remoteMetadataTextSize at h
  split at h
  · cases h
  · split at h
    · cases h
    · exact (Except.ok.inj h).symm

theorem reads_announced {α : Type} {p : Reader Error α} {ok : α → Prop} {enc : α → Bytes}
    (flags flag : UInt32) (hp : Reads p fun a raw => ok a ∧ raw = enc a) :
    Reads (when (flags &&& flag ≠ 0) p) fun a raw =>
      Announced flags flag a ok ∧ raw = encodeOption enc a := by
  refine (Reads.when fun _ => hp).congr fun a raw => ⟨?_, ?_⟩
  · rintro (⟨hflag, b, rfl, hb, rfl⟩ | ⟨hflag, rfl, rfl⟩)
    · exact ⟨.inl ⟨hflag, b, rfl, hb⟩, rfl⟩
    · exact ⟨.inr ⟨hflag, rfl⟩, rfl⟩
  · rintro ⟨⟨hflag, b, rfl, hb⟩ | ⟨hflag, rfl⟩, rfl⟩
    · exact .inl ⟨hflag, b, rfl, hb, rfl⟩
    · exact .inr ⟨hflag, rfl, rfl⟩

/-- What is kept of the extensions `es`. -/
def kept (es : List (Bytes × Bytes)) : Nat × Dict Bytes Bytes :=
  (extensionBytes es, es.foldl (fun d x => d.set x.1 x.2) ∅)

/-- The extensions themselves are not kept, so they are found behind what is. -/
theorem reads_extended (flags : UInt32) :
    Reads (when (flags &&& flagExtended ≠ 0) (extensions config)) fun t raw => ∃ es,
      Announced flags flagExtended es (Extends config) ∧ t = es.map kept ∧
        raw = encodeOption encodeExtensions es := by
  refine (Reads.when fun _ => reads_extensions).congr fun t raw => ⟨?_, ?_⟩
  · rintro (⟨hflag, _, rfl, es, hes, rfl, rfl⟩ | ⟨hflag, rfl, rfl⟩)
    · exact ⟨some es, .inl ⟨hflag, es, rfl, hes⟩, rfl, rfl⟩
    · exact ⟨none, .inr ⟨hflag, rfl⟩, rfl, rfl⟩
  · rintro ⟨_, ⟨hflag, es, rfl, hes⟩ | ⟨hflag, rfl⟩, rfl, rfl⟩
    · exact .inl ⟨hflag, _, rfl, es, hes, rfl, rfl⟩
    · exact .inr ⟨hflag, rfl, rfl⟩

theorem reads_flags :
    Reads (UInt32.ofNat <$> take 4 "attributes") fun flags raw =>
      raw = ByteOrder.big.bytes 4 flags.toNat := by
  refine (reads_take 4 _).map.congr fun flags raw => ⟨?_, ?_⟩
  · rintro ⟨n, ⟨hn, rfl⟩, rfl⟩
    rw [UInt32.toNat_ofNat_of_lt' (by omega)]
  · rintro rfl
    exact ⟨flags.toNat, ⟨flags.toNat_lt, rfl⟩, UInt32.ofNat_toNat.symm⟩

theorem reads_boundedSftpAttributes {longname : String} (filename : String)
    (hlongname : (encode longname).length ≤ config.remoteFilenameMaxBytes) :
    Reads (boundedSftpAttributes config filename longname) fun e raw => ∃ es,
      (e.filename = filename ∧ e.longname = longname) ∧ e.LegalAttributes config es ∧
        raw = e.attributeBytes es := by
  have hsize := remoteMetadataTextSize_eq_ok hlongname
  refine (reads_flags.bind fun flags => (Reads.refuseIf _ _).bind fun _ =>
    (reads_announced flags flagSize (reads_take 8 _)).bind fun stSize =>
    (reads_announced flags flagUidgid (reads_pair _ _)).bind fun stOwner =>
    (reads_announced flags flagPermissions (reads_take 4 _)).bind fun stMode =>
    (reads_announced flags flagAmtime (reads_pair _ _)).bind fun stTimes =>
    (reads_extended flags).bind fun extended => (Reads.checked _).bind fun longnameSize =>
    .pure _).congr fun e raw => ⟨?_, ?_⟩
  · rintro ⟨flags, _, _, rfl, ⟨_, _, _, ⟨hknown, rfl⟩, ⟨stSize, _, _, ⟨hsizes, rfl⟩,
      ⟨stOwner, _, _, ⟨howner, rfl⟩, ⟨stMode, _, _, ⟨hmode, rfl⟩, ⟨stTimes, _, _, ⟨htimes, rfl⟩,
        ⟨extended, _, _, ⟨es, hes, rfl, rfl⟩, ⟨n, _, _, ⟨hn, rfl⟩, ⟨rfl, rfl⟩, rfl⟩, rfl⟩, rfl⟩,
        rfl⟩, rfl⟩, rfl⟩, rfl⟩, rfl⟩
    rw [hsize] at hn
    cases hn
    refine ⟨es, ⟨rfl, rfl⟩, ⟨not_not.mp hknown, hsizes, howner, hmode, htimes, hes, ?_, ?_⟩, ?_⟩
    · cases es with
      | none => rfl
      | some es => rfl
    · cases es with
      | none => rfl
      | some es => rfl
    · rw [Entry.attributeBytes, List.append_nil, List.append_nil, List.nil_append]
  · rintro ⟨es, ⟨rfl, rfl⟩, h, rfl⟩
    refine ⟨e.flags, _, _, rfl, ⟨(), [], _, ⟨not_not.mpr h.flags, rfl⟩,
      ⟨e.stSize, _, _, ⟨h.size, rfl⟩, ⟨e.stOwner, _, _, ⟨h.owner, rfl⟩,
        ⟨e.stMode, _, _, ⟨h.mode, rfl⟩, ⟨e.stTimes, _, _, ⟨h.times, rfl⟩,
          ⟨es.map kept, _, _, ⟨es, h.extended, rfl, rfl⟩,
            ⟨_, [], [], ⟨hsize, rfl⟩, ⟨?_, rfl⟩, rfl⟩, rfl⟩, rfl⟩, rfl⟩, rfl⟩, rfl⟩, rfl⟩, ?_⟩
    · have hattr : ((es.map kept).map Prod.snd).getD ∅ = e.attr := by
        rw [h.attr]
        cases es with
        | none => rfl
        | some es => rfl
      have hextra : (encode e.longname).length + ((es.map kept).map Prod.fst).getD 0 =
          e.extraMetadataBytes := by
        rw [h.extra]
        cases es with
        | none => rfl
        | some es => rfl
      rw [hattr, hextra]
    · rw [Entry.attributeBytes, List.append_nil, List.append_nil, List.nil_append]

theorem reads_readEntry :
    Reads (readEntry config) fun e raw => ∃ es, e.Legal config es ∧ raw = e.toBytes es := by
  intro data e rest
  have hfilename := @reads_boundedMessageText config "filename"
  have hlongname := @reads_boundedMessageText config "longname"
  simp only [readEntry, bind_apply_eq_ok]
  constructor
  · rintro ⟨filename, between, hf, longname, behind, hl, ha⟩
    obtain ⟨_, ⟨hf', rfl⟩, rfl⟩ := (hfilename _ _ _).mp hf
    obtain ⟨_, ⟨hl', rfl⟩, rfl⟩ := (hlongname _ _ _).mp hl
    obtain ⟨_, ⟨es, ⟨rfl, rfl⟩, h, rfl⟩, rfl⟩ := (reads_boundedSftpAttributes _ hl'.2 _ _ _).mp ha
    exact ⟨_, ⟨es, ⟨h, hf', hl'⟩, rfl⟩, by rw [Entry.toBytes, List.append_assoc, List.append_assoc]⟩
  · rintro ⟨_, ⟨es, h, rfl⟩, rfl⟩
    refine ⟨e.filename, _, (hfilename _ _ _).mpr ⟨_, ⟨h.filename, rfl⟩, ?_⟩, e.longname, _,
      (hlongname _ _ _).mpr ⟨_, ⟨h.longname, rfl⟩, rfl⟩,
      (reads_boundedSftpAttributes _ h.longname.2 _ _ _).mpr
        ⟨_, ⟨es, ⟨rfl, rfl⟩, h.toLegalAttributes, rfl⟩, rfl⟩⟩
    rw [Entry.toBytes, List.append_assoc, List.append_assoc]

end

/-- An entry is accepted exactly when the message begins with the bytes of a legal one, which are
taken whole; so nothing that is read of an entry is out of bounds, and no legal entry is refused. -/
theorem readEntry_eq_ok (config : Config) (data rest : Bytes) (e : Entry) :
    readEntry config data = .ok (e, rest) ↔
      ∃ es, e.Legal config es ∧ data = e.toBytes es ++ rest := by
  rw [reads_readEntry data e rest]
  constructor
  · rintro ⟨_, ⟨es, h, rfl⟩, rfl⟩
    exact ⟨es, h, rfl⟩
  · rintro ⟨es, h, rfl⟩
    exact ⟨_, ⟨es, h, rfl⟩, rfl⟩

end WebSSH.Sftp
