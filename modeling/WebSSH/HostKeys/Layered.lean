import WebSSH.HostKeys.Adding

/-!
# Layered trust in host keys

`_LayeredHostKeys` and `HostKeyStore.record` of `host_key_store.py`: the user's file comes before the
global one, a revoked key is passed over in both, and a key that is seen first is appended to the
user's file.
-/

namespace WebSSH.HostKeys
open Lib Python Text

structure TrustLibrary (Key : Type) extends Library Key where
  /-- `key.asbytes()` -/
  asbytes : Key → Bytes
  /-- `key.get_base64()` -/
  base64 : Key → List Char
  /-- Two characters that `re.IGNORECASE` does not tell apart. -/
  sameCharacter : Char → Char → Bool
  /-- `HostKeys.hash_host(hostname, pattern)`, or none where it raises. -/
  hashHost : List Char → List Char → Option (List Char)
  /-- `hostname.lower()` -/
  lower : List Char → List Char

variable {Key : Type} (lib : TrustLibrary Key)

/-! ## Patterns -/

/-- `.*` before an expression. -/
def anyText (matchesRest : List Char → Bool) : List Char → Bool
  | [] => matchesRest []
  | c :: text => matchesRest (c :: text) || (c ≠ '\n' && anyText matchesRest text)

/-- `re.fullmatch` of the pattern, where `*` is `.*`, `?` is `.`, and every other character is
itself. -/
def globMatches : List Char → List Char → Bool
  | [] => (· = [])
  | '*' :: pattern => anyText (globMatches pattern)
  | p :: pattern => fun
    | [] => false
    | c :: text => (if p = '?' then c ≠ '\n' else lib.sameCharacter p c) && globMatches pattern text

/-- `_host_pattern_matches` -/
def hostPatternMatches (hostname pattern : List Char) : Bool :=
  if "|1|".toList.isPrefixOf pattern then
    match lib.hashHost hostname pattern with
    | none => false
    | some hashed => hashed = pattern || lib.hashHost (lib.lower hostname) pattern = some pattern
  else globMatches lib pattern hostname

/-- The loop of `_entry_matches_hostname`. -/
def patternsMatch (hostname : List Char) (matchedPositive : Bool) : List (List Char) → Bool
  | [] => matchedPositive
  | hostPattern :: rest =>
    let negated := hostPattern.head? = some '!'
    let pattern := if negated then hostPattern.tail else hostPattern
    if hostPatternMatches lib hostname pattern = false then patternsMatch hostname matchedPositive rest
    else if negated then false
    else patternsMatch hostname true rest

/-- `_entry_matches_hostname` -/
def entryMatchesHostname (hostname : List Char) (entry : HostKeyEntry Key) : Bool :=
  patternsMatch lib hostname false entry.hostnames

/-! ## Layers -/

/-- `_LayeredHostKeys` -/
structure LayeredHostKeys (Key : Type) where
  globalFile : ParsedHostKeyFile Key
  userFile : ParsedHostKeyFile Key

variable [DecidableEq Key]

def LayeredHostKeys.isRevoked (layered : LayeredHostKeys Key) (hostname : List Char) (key : Key) : Bool :=
  (layered.userFile.revoked ++ layered.globalFile.revoked).any fun entry =>
    entry.key = key && entryMatchesHostname lib hostname entry

/-- The loop of `lookup` over the trusted entries, from the keys found so far. -/
def LayeredHostKeys.effectiveFrom (layered : LayeredHostKeys Key) (hostname : List Char)
    (effective : List (List Char × Key)) : List (HostKeyEntry Key) → List (List Char × Key)
  | [] => effective
  | entry :: rest =>
    let keyType := lib.name entry.key
    if entryMatchesHostname lib hostname entry = false then layered.effectiveFrom hostname effective rest
    else if (effective.lookup keyType).isSome then layered.effectiveFrom hostname effective rest
    else if layered.isRevoked lib hostname entry.key then layered.effectiveFrom hostname effective rest
    else layered.effectiveFrom hostname (effective ++ [(keyType, entry.key)]) rest

/-- `lookup(hostname)`, which is none where no key is found. -/
def LayeredHostKeys.lookup (layered : LayeredHostKeys Key) (hostname : List Char) :
    Option (List (List Char × Key)) :=
  let effective := layered.effectiveFrom lib hostname []
    (layered.userFile.trusted ++ layered.globalFile.trusted)
  if effective = [] then none else some effective

/-- `keys.get(key_type)` of a lookup. -/
def LayeredHostKeys.get (layered : LayeredHostKeys Key) (hostname keyType : List Char) : Option Key :=
  (layered.lookup lib hostname).bind (List.lookup keyType)

def LayeredHostKeys.check (layered : LayeredHostKeys Key) (hostname : List Char) (key : Key) : Bool :=
  match layered.get lib hostname (lib.name key) with
  | none => false
  | some found => lib.asbytes found = lib.asbytes key

/-! ## Recording -/

inductive RecordError (Key : Type)
  /-- A file cannot be loaded. -/
  | load (message : String)
  /-- `RevokedHostKeyError` -/
  | revoked
  /-- `BadHostKeyException` -/
  | badHostKey (existing : Key)
  deriving DecidableEq

/-- The line of a recorded key, without its newline. -/
def recordedLine (hostname : List Char) (key : Key) : List Char :=
  hostname ++ ' ' :: (lib.name key ++ ' ' :: lib.base64 key)

/-- `HostKeyStore.record`; returns the user's file afterwards. -/
def record (globalRaw userRaw : Option Bytes) (hostname : List Char) (key : Key) :
    Except (RecordError Key) (Option Bytes) := do
  let globalFile ← (loadOrEmpty lib.toLibrary globalRaw).mapError .load
  let userFile ← (loadOrEmpty lib.toLibrary userRaw).mapError .load
  raiseIf ((LayeredHostKeys.mk globalFile userFile).isRevoked lib hostname key) .revoked
  match (LayeredHostKeys.mk ⟨[], []⟩ userFile).get lib hostname (lib.name key) with
  | some existing => if existing ≠ key then throw (.badHostKey existing) else return userRaw
  | none => return some (appendLine (userRaw.getD []) (recordedLine lib hostname key))

/-! ## The effective key of a type -/

variable {lib} {layered : LayeredHostKeys Key} {hostname keyType pattern : List Char} {key found : Key}
  {entry : HostKeyEntry Key} {entries : List (HostKeyEntry Key)}

/-- The entry gives the hostname a key of the type. -/
def LayeredHostKeys.gives (lib : TrustLibrary Key) (layered : LayeredHostKeys Key)
    (hostname keyType : List Char) (entry : HostKeyEntry Key) : Bool :=
  entryMatchesHostname lib hostname entry && lib.name entry.key = keyType &&
    !layered.isRevoked lib hostname entry.key

theorem gives_iff : layered.gives lib hostname keyType entry = true ↔
    entryMatchesHostname lib hostname entry = true ∧ lib.name entry.key = keyType ∧
      layered.isRevoked lib hostname entry.key = false := by
  simp [LayeredHostKeys.gives, and_assoc]

theorem lookup_effectiveFrom (effective : List (List Char × Key)) :
    (layered.effectiveFrom lib hostname effective entries).lookup keyType =
      (effective.lookup keyType).or
        ((entries.find? (layered.gives lib hostname keyType)).map HostKeyEntry.key) := by
  induction entries generalizing effective with
  | nil => rw [LayeredHostKeys.effectiveFrom, List.find?_nil, Option.map_none, Option.or_none]
  | cons entry entries ih =>
    -- An entry that gives nothing is passed over on both sides.
    have hskip (h : layered.gives lib hostname keyType entry = false) :
        (entry :: entries).find? (layered.gives lib hostname keyType) =
          entries.find? (layered.gives lib hostname keyType) := List.find?_cons_of_neg (by rw [h]; nofun)
    rw [LayeredHostKeys.effectiveFrom]
    split
    · rename_i hmatch
      rw [ih, hskip (by rw [LayeredHostKeys.gives, hmatch]; rfl)]
    · split
      · rename_i hmatch hfound
        rw [ih]
        by_cases hname : lib.name entry.key = keyType
        · rw [hname] at hfound
          obtain ⟨key, hkey⟩ := Option.isSome_iff_exists.mp hfound
          rw [hkey]
          rfl
        · rw [hskip (by simp [LayeredHostKeys.gives, hname])]
      · split
        · rename_i hrevoked
          rw [ih, hskip (by simp [LayeredHostKeys.gives, hrevoked])]
        · rename_i hmatch hnone hrevoked
          rw [ih, List.lookup_append, Option.or_assoc]
          congr 1
          by_cases hname : lib.name entry.key = keyType
          · have hgives : layered.gives lib hostname keyType entry = true :=
              gives_iff.mpr ⟨by simpa using hmatch, hname, by simpa using hrevoked⟩
            rw [List.find?_cons_of_pos hgives, hname]
            simp [List.lookup]
          · rw [hskip (by simp [LayeredHostKeys.gives, hname])]
            have hother : (keyType == lib.name entry.key) = false := by simpa using Ne.symm hname
            rw [List.lookup_cons, hother]
            rfl

/-- The first entry of the two files that gives a key of the type gives the effective one. -/
theorem get_eq (layered : LayeredHostKeys Key) (hostname keyType : List Char) :
    layered.get lib hostname keyType =
      ((layered.userFile.trusted ++ layered.globalFile.trusted).find?
        (layered.gives lib hostname keyType)).map HostKeyEntry.key := by
  have hlookup : (layered.effectiveFrom lib hostname []
      (layered.userFile.trusted ++ layered.globalFile.trusted)).lookup keyType =
      ((layered.userFile.trusted ++ layered.globalFile.trusted).find?
        (layered.gives lib hostname keyType)).map HostKeyEntry.key := by
    rw [lookup_effectiveFrom, List.lookup_nil, Option.none_or]
  rw [← hlookup, LayeredHostKeys.get, LayeredHostKeys.lookup]
  split
  · rename_i hnil
    rw [hnil]
    rfl
  · rfl

/-- No key is effective that a matching line of either file revokes. -/
theorem not_revoked_of_get (h : layered.get lib hostname keyType = some found) :
    lib.name found = keyType ∧ layered.isRevoked lib hostname found = false := by
  rw [get_eq] at h
  obtain ⟨entry, hentry, rfl⟩ := Option.map_eq_some_iff.mp h
  exact (gives_iff.mp (List.find?_some hentry)).2

/-- An entry of the user's file comes before those of the global one. -/
theorem get_of_user (hentry : entry ∈ layered.userFile.trusted)
    (hgives : layered.gives lib hostname keyType entry = true) :
    ∃ first, layered.userFile.trusted.find? (layered.gives lib hostname keyType) = some first ∧
      layered.get lib hostname keyType = some first.key := by
  obtain ⟨first, hfirst⟩ := Option.isSome_iff_exists.mp
    (List.find?_isSome.mpr ⟨entry, hentry, hgives⟩)
  refine ⟨first, hfirst, ?_⟩
  rw [get_eq, List.find?_append, hfirst]
  rfl

theorem isRevoked_eq_false_iff : layered.isRevoked lib hostname key = false ↔
    ∀ entry ∈ layered.userFile.revoked ++ layered.globalFile.revoked,
      entryMatchesHostname lib hostname entry = true → entry.key ≠ key := by
  rw [LayeredHostKeys.isRevoked, List.any_eq_false]
  apply forall_congr'
  intro entry
  apply forall_congr'
  intro _
  simp only [Bool.and_eq_true, decide_eq_true_eq, not_and]
  exact ⟨fun h hmatch heq => h heq hmatch, fun h heq hmatch => h hmatch heq⟩

/-! ## A recorded key -/

/-- What is relied on: the bytes of a public key tell it from others, its text is read back, neither
its type nor its text has white space, and a character is the same as itself. -/
structure TrustLibrary.Lawful (lib : TrustLibrary Key) : Prop where
  asbytes_injective : ∀ key key', lib.asbytes key = lib.asbytes key' → key = key'
  read_written : ∀ key, lib.fromTypeString (lib.name key) (lib.base64 key) = .ok (some key)
  name_word : ∀ key, lib.name key ≠ [] ∧ ∀ c ∈ lib.name key, isSpace c = false
  base64_word : ∀ key, lib.base64 key ≠ [] ∧ ∀ c ∈ lib.base64 key, isSpace c = false
  sameCharacter_self : ∀ c, lib.sameCharacter c c = true

/-- A hostname that stands for itself in a line. -/
structure Plain (hostname : List Char) : Prop where
  nonempty : hostname ≠ []
  word : ∀ c ∈ hostname, isSpace c = false
  comma : ',' ∉ hostname
  start : ∀ c ∈ hostname.head?, c ≠ '!' ∧ c ≠ '|' ∧ c ≠ '#' ∧ c ≠ '@'

variable {globalRaw userRaw after : Option Bytes} {globalFile userFile : ParsedHostKeyFile Key}

omit [DecidableEq Key] in
theorem globMatches_self (H : ∀ c, lib.sameCharacter c c = true) (h : '\n' ∉ pattern) :
    globMatches lib pattern pattern = true := by
  induction pattern with
  | nil => rfl
  | cons c pattern ih =>
    obtain ⟨hc, hpattern⟩ := not_or.mp fun hmem => h (List.mem_cons.mpr hmem)
    have ih := ih hpattern
    by_cases hstar : c = '*'
    · subst hstar
      have hany : anyText (globMatches lib pattern) pattern = true := by
        cases pattern with
        | nil => exact ih
        | cons d pattern => exact Bool.or_eq_true_iff.mpr (.inl ih)
      exact Bool.or_eq_true_iff.mpr (.inr (Bool.and_eq_true_iff.mpr ⟨rfl, hany⟩))
    · rw [globMatches]
      · dsimp only
        rw [ih, Bool.and_true]
        split
        · exact decide_eq_true (Ne.symm hc)
        · exact H c
      · rintro rfl
        exact hstar rfl

omit [DecidableEq Key] in
/-- The entry of a plain hostname matches it. -/
theorem Plain.matches (P : Plain hostname) (H : lib.Lawful) (key : Key) :
    entryMatchesHostname lib hostname ⟨[hostname], key⟩ = true := by
  obtain ⟨c, text, rfl⟩ := List.exists_cons_of_ne_nil P.nonempty
  obtain ⟨hnegated, hhashed, -⟩ := P.start c rfl
  have hnewline : '\n' ∉ c :: text := fun hc => Bool.false_ne_true ((P.word _ hc).symm.trans rfl)
  have hpattern : hostPatternMatches lib (c :: text) (c :: text) = true := by
    have hbar : "|1|".toList.isPrefixOf (c :: text) = false := by
      have hchars : "|1|".toList = ['|', '1', '|'] := rfl
      rw [hchars]
      exact Bool.and_eq_false_iff.mpr (.inl (beq_eq_false_iff_ne.mpr (Ne.symm hhashed)))
    rw [hostPatternMatches, hbar, if_neg Bool.false_ne_true]
    exact globMatches_self H.sameCharacter_self hnewline
  have hhead : ¬ (c :: text).head? = some '!' := fun h => hnegated (Option.some.inj h)
  simp only [entryMatchesHostname, patternsMatch]
  rw [if_neg hhead, hpattern, if_neg Bool.true_eq_false.mp, if_neg hhead]

omit [DecidableEq Key] in
/-- The recorded line is read as the hostname and the key. -/
theorem Plain.reads_recorded (P : Plain hostname) (H : lib.Lawful) (key : Key) :
    Reads lib.toLibrary (splitlines (recordedLine lib hostname key ++ ['\n']))
      (single none ⟨[hostname], key⟩) := by
  obtain ⟨hname, hnameWord⟩ := H.name_word key
  obtain ⟨hbase64, hbase64Word⟩ := H.base64_word key
  have hword : ∀ c ∈ hostname ++ lib.name key ++ lib.base64 key, isSpace c = false := by
    simp only [List.forall_mem_append]
    exact ⟨⟨P.word, hnameWord⟩, hbase64Word⟩
  have hplain {c : Char} (hc : isSpace c = false) : isSeparator c = false ∧ isBoundary c = false ∧ c ≠ '\r' := by
    refine ⟨Bool.eq_false_iff.mpr fun h => ?_, Bool.eq_false_iff.mpr fun h => ?_, ?_⟩
    · exact Bool.false_ne_true (hc.symm.trans (isSpace_of_isSeparator h))
    · exact Bool.false_ne_true (hc.symm.trans (isSpace_of_isBoundary h))
    · rintro rfl
      nomatch hc
  have A : Accepted none hostname (lib.name key) (lib.base64 key) :=
    { known := .inl rfl
      hosts_nonempty := P.nonempty
      keyType_nonempty := hname
      data_nonempty := hbase64
      separators := fun c hc => (hplain (hword c hc)).1
      returns := fun hc => (hplain (hword _ hc)).2.2 rfl
      start := fun _ c hc => ⟨P.word c (List.mem_of_mem_head? hc), (P.start c hc).2.2.2⟩ }
  have hhosts : hostname.splitOn ',' = [hostname] := List.splitOn_eq_singleton P.comma
  have hvalid : (hostname.splitOn ',').all (hostPatternIsValid lib.toLibrary) = true := by
    obtain ⟨c, text, rfl⟩ := List.exists_cons_of_ne_nil P.nonempty
    obtain ⟨hnegated, hhashed, -⟩ := P.start c rfl
    have hhead : ¬ (c :: text).head? = some '!' := fun h => hnegated (Option.some.inj h)
    rw [hhosts, List.all_cons, List.all_nil, Bool.and_true, hostPatternIsValid]
    rw [if_neg hhead, if_neg (List.cons_ne_nil c text),
      if_pos (show (c :: text).head? ≠ some '|' from fun h => hhashed (Option.some.inj h))]
  have hline : _ ↔ OneLine lib.toLibrary none hostname (lib.name key) (lib.base64 key) key :=
    A.reads_iff hvalid []
  rw [canonicalLine_eq, hhosts] at hline
  have hrecorded : recordedLine lib hostname key =
      opening none hostname (lib.name key) ++ ' ' :: lib.base64 key := by
    rw [recordedLine, opening, Option.elim_none, List.nil_append, List.append_assoc, List.cons_append]
  have hend : trimEnd (lib.base64 key) = lib.base64 key := by
    rcases List.eq_nil_or_concat' (lib.base64 key) with hnil | ⟨before, c, hconcat⟩
    · exact absurd hnil hbase64
    · have hc := hbase64Word c (by
        rw [hconcat]
        exact List.mem_append_right _ List.mem_cons_self)
      rw [hconcat, trimEnd, List.reverse_append, List.reverse_singleton, List.singleton_append,
        List.dropWhile_cons, hc, if_neg Bool.false_ne_true, List.reverse_cons, List.reverse_reverse]
  rw [hrecorded]
  refine hline.mpr ⟨fun _ hsharp => (P.start _ hsharp).2.2.1 rfl, fun c hc => ?_, lib.base64 key, [], ?_, ?_, ?_,
    fun _ h => absurd h List.not_mem_nil⟩
  · exact (hplain (hword c (List.mem_append_left _ hc))).2.1
  · exact List.splitOnP_eq_singleton fun c hc => (hplain (hbase64Word c hc)).2.1
  · rwa [hend]
  · rw [hend]
    exact H.read_written key

/-! ## Recording -/

/-- A record that returns has found the key, or has appended it. -/
theorem record_eq_ok : record lib globalRaw userRaw hostname key = .ok after ↔
    ∃ globalFile userFile, loadOrEmpty lib.toLibrary globalRaw = .ok globalFile ∧
      loadOrEmpty lib.toLibrary userRaw = .ok userFile ∧
      (LayeredHostKeys.mk globalFile userFile).isRevoked lib hostname key = false ∧
      ((LayeredHostKeys.mk ⟨[], []⟩ userFile).get lib hostname (lib.name key) = some key ∧
          after = userRaw ∨
        (LayeredHostKeys.mk ⟨[], []⟩ userFile).get lib hostname (lib.name key) = none ∧
          after = some (appendLine (userRaw.getD []) (recordedLine lib hostname key))) := by
  constructor
  · intro h
    obtain ⟨globalFile, hglobal, h⟩ := bind_eq_ok.mp h
    obtain ⟨userFile, huser, h⟩ := bind_eq_ok.mp h
    obtain ⟨_, hrevoked, h⟩ := bind_eq_ok.mp h
    refine ⟨globalFile, userFile, mapError_eq_ok.mp hglobal, mapError_eq_ok.mp huser,
      Bool.eq_false_iff.mpr (raiseIf_eq_ok.mp hrevoked), ?_⟩
    split at h
    · rename_i existing hexisting
      split at h
      · nomatch h
      · rename_i hsame
        cases h
        exact .inl ⟨not_not.mp hsame ▸ hexisting, rfl⟩
    · rename_i hnone
      cases h
      exact .inr ⟨hnone, rfl⟩
  · rintro ⟨globalFile, userFile, hglobal, huser, hrevoked, h⟩
    refine bind_eq_ok.mpr ⟨globalFile, mapError_eq_ok.mpr hglobal, bind_eq_ok.mpr ⟨userFile,
      mapError_eq_ok.mpr huser, bind_eq_ok.mpr ⟨(), raiseIf_eq_ok.mpr (Bool.eq_false_iff.mp hrevoked), ?_⟩⟩⟩
    rcases h with ⟨hexisting, rfl⟩ | ⟨hnone, rfl⟩
    · rw [hexisting]
      exact if_neg (not_not.mpr rfl)
    · rw [hnone]
      rfl

/-- What the user's file gives under both files it also gives under itself. -/
theorem gives_alone {entry : HostKeyEntry Key}
    (h : (LayeredHostKeys.mk globalFile userFile).gives lib hostname keyType entry = true) :
    (LayeredHostKeys.mk ⟨[], []⟩ userFile).gives lib hostname keyType entry = true := by
  obtain ⟨hmatch, hname, hrevoked⟩ := gives_iff.mp h
  refine gives_iff.mpr ⟨hmatch, hname, isRevoked_eq_false_iff.mpr fun e he => ?_⟩
  exact isRevoked_eq_false_iff.mp hrevoked e (List.mem_append_left _ (by simpa using he))

/-- A key that the user's file gives alone, and that no file revokes, is the effective one. -/
theorem get_of_alone
    (h : (LayeredHostKeys.mk ⟨[], []⟩ userFile).get lib hostname keyType = some key)
    (hrevoked : (LayeredHostKeys.mk globalFile userFile).isRevoked lib hostname key = false) :
    (LayeredHostKeys.mk globalFile userFile).get lib hostname keyType = some key := by
  rw [get_eq, List.append_nil] at h
  obtain ⟨first, hfirst, rfl⟩ := Option.map_eq_some_iff.mp h
  obtain ⟨hgives, before, rest, hsplit, hbefore⟩ := List.find?_eq_some_iff_append.mp hfirst
  obtain ⟨hmatch, hname, -⟩ := gives_iff.mp hgives
  have hlayered : userFile.trusted.find?
      ((LayeredHostKeys.mk globalFile userFile).gives lib hostname keyType) = some first := by
    refine List.find?_eq_some_iff_append.mpr ⟨gives_iff.mpr ⟨hmatch, hname, hrevoked⟩, before, rest, hsplit,
      fun e he => ?_⟩
    have hnone := hbefore e he
    rw [Bool.not_eq_true'] at hnone ⊢
    refine Bool.eq_false_iff.mpr fun hlayered => ?_
    rw [gives_alone hlayered] at hnone
    nomatch hnone
  rw [get_eq, List.find?_append, hlayered]
  rfl

/-- A record that would replace or shadow a key of the user's file raises. -/
theorem record_raises (hglobal : loadOrEmpty lib.toLibrary globalRaw = .ok globalFile)
    (huser : loadOrEmpty lib.toLibrary userRaw = .ok userFile) (hentry : entry ∈ userFile.trusted)
    (hgives : (LayeredHostKeys.mk globalFile userFile).gives lib hostname (lib.name key) entry = true)
    (hfound : (LayeredHostKeys.mk globalFile userFile).get lib hostname (lib.name key) = some found)
    (hne : found ≠ key) : record lib globalRaw userRaw hostname key ≠ .ok after := by
  intro h
  obtain ⟨globalFile', userFile', hglobal', huser', hrevoked, hcases⟩ := record_eq_ok.mp h
  obtain rfl := Except.ok.inj (hglobal.symm.trans hglobal')
  obtain rfl := Except.ok.inj (huser.symm.trans huser')
  rcases hcases with ⟨hexisting, -⟩ | ⟨hnone, -⟩
  · rw [get_of_alone hexisting hrevoked] at hfound
    exact hne (Option.some.inj hfound).symm
  · obtain ⟨first, -, hfirst⟩ := get_of_user hentry (gives_alone hgives)
    rw [hnone] at hfirst
    nomatch hfirst

/-- After a record the key of a plain hostname is trusted. -/
theorem record_check (H : lib.Lawful) (P : Plain hostname)
    (h : record lib globalRaw userRaw hostname key = .ok after) :
    ∃ globalFile userFile, loadOrEmpty lib.toLibrary globalRaw = .ok globalFile ∧
      loadOrEmpty lib.toLibrary after = .ok userFile ∧
      (LayeredHostKeys.mk globalFile userFile).check lib hostname key = true := by
  obtain ⟨globalFile, userFile, hglobal, huser, hrevoked, hcases⟩ := record_eq_ok.mp h
  rcases hcases with ⟨hexisting, rfl⟩ | ⟨hnone, rfl⟩
  · refine ⟨globalFile, userFile, hglobal, huser, ?_⟩
    rw [LayeredHostKeys.check, get_of_alone hexisting hrevoked]
    exact decide_eq_true rfl
  · have hload := (loadStrict_appendLine (loadStrict_getD huser) _).mpr ⟨_, P.reads_recorded H key, rfl⟩
    refine ⟨globalFile, _, hglobal, hload, ?_⟩
    -- The user's file revokes and gives what it did, and gives the new key after that.
    have hsame : userFile.append (single none ⟨[hostname], key⟩) =
        ⟨userFile.trusted ++ [⟨[hostname], key⟩], userFile.revoked⟩ :=
      congrArg (ParsedHostKeyFile.mk _) (List.append_nil _)
    have hnew : (LayeredHostKeys.mk globalFile
        ⟨userFile.trusted ++ [⟨[hostname], key⟩], userFile.revoked⟩).gives lib hostname (lib.name key)
          ⟨[hostname], key⟩ = true := gives_iff.mpr ⟨P.matches H key, rfl, hrevoked⟩
    have hold : userFile.trusted.find? ((LayeredHostKeys.mk globalFile
        ⟨userFile.trusted ++ [⟨[hostname], key⟩], userFile.revoked⟩).gives lib hostname (lib.name key)) =
          none := by
      refine List.find?_eq_none.mpr fun e he hgives => ?_
      have hbefore : (LayeredHostKeys.mk globalFile userFile).gives lib hostname (lib.name key) e = true :=
        hgives
      obtain ⟨first, -, hfirst⟩ := get_of_user he (gives_alone hbefore)
      rw [hnone] at hfirst
      nomatch hfirst
    rw [hsame, LayeredHostKeys.check, get_eq, List.find?_append, List.find?_append, hold,
      List.find?_cons_of_pos hnew]
    exact decide_eq_true rfl

/-! ## The layers together -/

/-- A trusted key is revoked by no matching line. -/
theorem check_not_revoked (H : lib.Lawful) (h : layered.check lib hostname key = true) :
    layered.isRevoked lib hostname key = false := by
  unfold LayeredHostKeys.check at h
  split at h
  · nomatch h
  · rename_i found hfound
    rw [← H.asbytes_injective _ _ (of_decide_eq_true h)]
    exact (not_revoked_of_get hfound).2

/-- No revoked key is trusted, the user's file comes first, and a record keeps its keys and makes the
key of a plain hostname trusted. -/
theorem layered_trust (H : lib.Lawful) :
    (∀ (layered : LayeredHostKeys Key) hostname key, layered.check lib hostname key = true →
      ∀ entry ∈ layered.userFile.revoked ++ layered.globalFile.revoked,
        entryMatchesHostname lib hostname entry = true → entry.key ≠ key) ∧
    (∀ (layered : LayeredHostKeys Key) hostname, ∀ entry ∈ layered.userFile.trusted,
      entryMatchesHostname lib hostname entry = true →
      layered.isRevoked lib hostname entry.key = false →
      ∃ first ∈ layered.userFile.trusted, entryMatchesHostname lib hostname first = true ∧
        lib.name first.key = lib.name entry.key ∧
        layered.isRevoked lib hostname first.key = false ∧
        layered.get lib hostname (lib.name entry.key) = some first.key) ∧
    (∀ globalRaw userRaw globalFile userFile hostname key found after,
      loadOrEmpty lib.toLibrary globalRaw = .ok globalFile →
      loadOrEmpty lib.toLibrary userRaw = .ok userFile →
      (∃ entry ∈ userFile.trusted, (LayeredHostKeys.mk globalFile userFile).gives lib hostname
        (lib.name key) entry = true) →
      (LayeredHostKeys.mk globalFile userFile).get lib hostname (lib.name key) = some found →
      found ≠ key → record lib globalRaw userRaw hostname key ≠ .ok after) ∧
    ∀ globalRaw userRaw hostname key after, Plain hostname →
      record lib globalRaw userRaw hostname key = .ok after →
      ∃ globalFile userFile, loadOrEmpty lib.toLibrary globalRaw = .ok globalFile ∧
        loadOrEmpty lib.toLibrary after = .ok userFile ∧
        (LayeredHostKeys.mk globalFile userFile).check lib hostname key = true := by
  refine ⟨fun layered hostname key h => isRevoked_eq_false_iff.mp (check_not_revoked H h), ?_, ?_, ?_⟩
  · intro layered hostname entry hentry hmatch hrevoked
    obtain ⟨first, hfirst, hget⟩ := get_of_user hentry (gives_iff.mpr ⟨hmatch, rfl, hrevoked⟩)
    obtain ⟨hmatch', hname, hrevoked'⟩ := gives_iff.mp (List.find?_some hfirst)
    exact ⟨first, List.mem_of_find?_eq_some hfirst, hmatch', hname, hrevoked', hget⟩
  · rintro globalRaw userRaw globalFile userFile hostname key found after hglobal huser ⟨entry, hentry, hgives⟩
      hfound hne
    exact record_raises hglobal huser hentry hgives hfound hne
  · exact fun globalRaw userRaw hostname key after P h => record_check H P h

/-! ## Two hostnames -/

def otherData : String := "AAAAC3NzaC1lZDI1NTE5AAAAICAhIiMkJSYnKCkqKywtLi8wMTIzNDU2Nzg5Ojs8PT4/"

/-- The text of one of two keys. -/
def sampleKey (key : Bool) : String := if key then sampleData else otherData

/-- The libraries on two keys. -/
def sampleTrust : TrustLibrary Bool where
  fromTypeString keyType data :=
    if keyType ≠ "ssh-ed25519".toList then .ok none
    else if data = sampleData.toList then .ok (some true)
    else if data = otherData.toList then .ok (some false)
    else .error "invalid key"
  name _ := "ssh-ed25519".toList
  casefold text := text
  decodedLength _ := none
  asbytes key := encode (sampleKey key)
  base64 key := (sampleKey key).toList
  sameCharacter c d := c.toLower = d.toLower
  hashHost _ _ := none
  lower text := text.map Char.toLower

theorem sampleTrust_lawful : sampleTrust.Lawful where
  asbytes_injective := by decide
  read_written := by decide +kernel
  name_word := by decide
  base64_word := by decide
  sameCharacter_self _ := decide_eq_true rfl

/-- A hostname with a comma is recorded as two other ones. -/
theorem recorded_comma_untrusted :
    (LayeredHostKeys.mk ⟨[], []⟩ ⟨[], []⟩).get sampleTrust "a,b".toList "ssh-ed25519".toList = none ∧
      record sampleTrust none none "a,b".toList true =
        .ok (some (encode ("a,b ssh-ed25519 " ++ sampleData ++ "\n"))) ∧
      loadOrEmpty sampleTrust.toLibrary (some (encode ("a,b ssh-ed25519 " ++ sampleData ++ "\n"))) =
        .ok ⟨[⟨["a".toList, "b".toList], true⟩], []⟩ ∧
      (LayeredHostKeys.mk ⟨[], []⟩ ⟨[⟨["a".toList, "b".toList], true⟩], []⟩).check sampleTrust "a,b".toList
        true = false := by
  decide +kernel

/-- A global file with another key of the host, and with the key as a revoked one of another host. -/
def globalText : String :=
  "host ssh-ed25519 " ++ otherData ++ "\n@revoked other ssh-ed25519 " ++ sampleData ++ "\n"

/-- A plain hostname is trusted after its record. -/
theorem recorded_plain_trusted :
    ∃ globalFile userFile,
      loadOrEmpty sampleTrust.toLibrary (some (encode globalText)) = .ok globalFile ∧
      loadOrEmpty sampleTrust.toLibrary (some (encode ("host ssh-ed25519 " ++ sampleData ++ "\n"))) =
        .ok userFile ∧
      (LayeredHostKeys.mk globalFile userFile).check sampleTrust "host".toList true = true := by
  have hhead : "host".toList.head? = some 'h' := by decide
  have hplain : Plain "host".toList := by
    refine ⟨by decide, by decide, by decide, fun c hc => ?_⟩
    obtain rfl := Option.some.inj (hhead.symm.trans hc)
    decide
  have hglobal : loadOrEmpty sampleTrust.toLibrary (some (encode globalText)) =
      .ok ⟨[⟨["host".toList], false⟩], [⟨["other".toList], true⟩]⟩ := by
    rw [loadOrEmpty_encode]
    delta globalText
    simp only [String.toList_append, @toList_of_eq_ofList sampleData _ rfl,
      @toList_of_eq_ofList otherData _ rfl]
    decide +kernel
  have hrecord : record sampleTrust (some (encode globalText)) none "host".toList true =
      .ok (some (encode ("host ssh-ed25519 " ++ sampleData ++ "\n"))) := by
    rw [record, hglobal]
    simp only [Utf8.encode_toList, String.toList_append, @toList_of_eq_ofList sampleData _ rfl]
    decide +kernel
  exact (layered_trust sampleTrust_lawful).2.2.2 _ none _ true _ hplain hrecord

end WebSSH.HostKeys
