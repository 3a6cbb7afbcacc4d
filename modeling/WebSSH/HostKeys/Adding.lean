import WebSSH.HostKeys.KnownHosts

/-!
# Adding a known host

The new line is checked as one line with three fields, and read again after Unicode line boundaries
have cut it.
-/

namespace WebSSH.HostKeys
open Lib Python Text

variable {Key : Type}

/-! ## Reading lines -/

/-- The entries of the first file before those of the second. -/
def ParsedHostKeyFile.append (p p' : ParsedHostKeyFile Key) : ParsedHostKeyFile Key :=
  ⟨p.trusted ++ p'.trusted, p.revoked ++ p'.revoked⟩

theorem ParsedHostKeyFile.append_left_cancel {p q q' : ParsedHostKeyFile Key}
    (h : p.append q = p.append q') : q = q' := by
  cases q
  cases q'
  simpa [append] using h

theorem Line.before_append (line : Line Key) (p p' : ParsedHostKeyFile Key) :
    line.before (p.append p') = (line.before p).append p' := by
  cases line <;> rfl

/-- The lines are read as these entries. -/
inductive Reads (lib : Library Key) : List (List Char) → ParsedHostKeyFile Key → Prop
  | nil : Reads lib [] ⟨[], []⟩
  | cons {l ls line p} : readLine lib l = .ok line → Reads lib ls p →
      Reads lib (l :: ls) (line.before p)

variable {lib : Library Key} {ls ls' : List (List Char)} {l : List Char}
  {p p' p₁ p₂ : ParsedHostKeyFile Key} {line : Line Key} {e entry : HostKeyEntry Key}

theorem mapError_eq_ok {ε ε' α : Type} {x : Except ε α} {f : ε → ε'} {a : α} :
    x.mapError f = .ok a ↔ x = .ok a := by
  cases x with
  | ok b =>
    constructor
    · intro h
      cases h
      rfl
    · intro h
      cases h
      rfl
  | error e => exact iff_of_false (fun h => nomatch h) fun h => nomatch h

/-- The numbers of the lines matter to the errors only. -/
theorem loadLines_eq_ok {n : Nat} : loadLines lib n ls = .ok p ↔ Reads lib ls p := by
  induction ls generalizing n p with
  | nil =>
    constructor
    · intro h
      cases h
      exact .nil
    · intro h
      cases h
      rfl
  | cons l ls ih =>
    constructor
    · intro h
      obtain ⟨line, hline, h⟩ := bind_eq_ok.mp h
      obtain ⟨parsed, hparsed, h⟩ := bind_eq_ok.mp h
      cases h
      exact .cons (mapError_eq_ok.mp hline) (ih.mp hparsed)
    · intro h
      cases h with
      | cons hread h =>
        exact bind_eq_ok.mpr ⟨_, mapError_eq_ok.mpr hread, bind_eq_ok.mpr ⟨_, ih.mpr h, rfl⟩⟩

theorem reads_append : Reads lib (ls ++ ls') p ↔
    ∃ p₁ p₂, Reads lib ls p₁ ∧ Reads lib ls' p₂ ∧ p = p₁.append p₂ := by
  induction ls generalizing p with
  | nil =>
    constructor
    · exact fun h => ⟨_, p, .nil, h, rfl⟩
    · rintro ⟨_, p₂, ⟨⟩, h, rfl⟩
      exact h
  | cons l ls ih =>
    constructor
    · intro h
      cases h with
      | @cons _ _ line q hread h =>
        obtain ⟨p₁, p₂, h₁, h₂, rfl⟩ := ih.mp h
        exact ⟨_, p₂, .cons hread h₁, h₂, line.before_append p₁ p₂⟩
    · rintro ⟨_, p₂, h₁, h₂, rfl⟩
      cases h₁ with
      | @cons _ _ line q hread h₁ =>
        rw [← line.before_append]
        exact .cons hread (ih.mpr ⟨q, p₂, h₁, h₂, rfl⟩)

theorem reads_cons : Reads lib (l :: ls) p ↔
    ∃ line p', readLine lib l = .ok line ∧ Reads lib ls p' ∧ p = line.before p' := by
  constructor
  · rintro ⟨⟩
    exact ⟨_, _, by assumption, by assumption, rfl⟩
  · rintro ⟨line, p', hread, h, rfl⟩
    exact .cons hread h

theorem Reads.exists_line (h : Reads lib ls p) (hl : l ∈ ls) : ∃ line, readLine lib l = .ok line := by
  induction h with
  | nil => nomatch hl
  | cons hread _ ih =>
    rcases List.mem_cons.mp hl with rfl | hl
    · exact ⟨_, hread⟩
    · exact ih hl

theorem Reads.unique (h : Reads lib ls p) (h' : Reads lib ls p') : p = p' := by
  induction h generalizing p' with
  | nil =>
    cases h'
    rfl
  | cons hread _ ih =>
    cases h' with
    | cons hread' h' =>
      obtain rfl := Except.ok.inj (hread.symm.trans hread')
      rw [ih h']

/-- Lines that are passed over hold nothing. -/
theorem reads_skipped (h : ∀ l ∈ ls, isSkipped (trim l) = true) : Reads lib ls ⟨[], []⟩ := by
  induction ls with
  | nil => exact .nil
  | cons l ls ih =>
    have hread : readLine lib l = .ok .skipped := if_pos (h l List.mem_cons_self)
    exact .cons hread (ih fun l hl => h l (List.mem_cons_of_mem _ hl))

/-- A blank line at the end changes nothing. -/
theorem reads_blank : Reads lib (ls ++ [[]]) p ↔ Reads lib ls p := by
  have hblank : Reads lib [[]] ⟨[], []⟩ :=
    reads_skipped fun l hl => (List.mem_singleton.mp hl) ▸ rfl
  have happend (q : ParsedHostKeyFile Key) : q.append ⟨[], []⟩ = q := by
    rw [ParsedHostKeyFile.append, List.append_nil, List.append_nil]
  constructor
  · intro h
    obtain ⟨p₁, p₂, h₁, h₂, rfl⟩ := reads_append.mp h
    rwa [h₂.unique hblank, happend]
  · intro h
    exact reads_append.mpr ⟨p, _, h, hblank, (happend p).symm⟩

theorem Reads.exists_trusted (h : Reads lib ls p) (he : e ∈ p.trusted) :
    ∃ l ∈ ls, readLine lib l = .ok (.trusted e) := by
  induction h with
  | nil => nomatch he
  | @cons l ls line p hread _ ih =>
    have hlater (he : e ∈ p.trusted) : ∃ l' ∈ l :: ls, readLine lib l' = .ok (.trusted e) := by
      obtain ⟨l', hl', hread'⟩ := ih he
      exact ⟨l', List.mem_cons_of_mem _ hl', hread'⟩
    cases line with
    | skipped | certAuthority | revoked => exact hlater he
    | trusted entry =>
      rcases List.mem_cons.mp he with rfl | he
      · exact ⟨l, List.mem_cons_self, hread⟩
      · exact hlater he

/-! ## A line and its fields -/

variable {marker : Option (List Char)} {hosts keyType data first text : List Char}
  {rest more : List (List Char)} {key : Key} {c : Char}

theorem isSpace_of_isSeparator (h : isSeparator c = true) : isSpace c = true := by
  unfold isSeparator at h
  rcases Bool.or_eq_true_iff.mp h with h | h
  · rw [of_decide_eq_true h]
    rfl
  · rw [of_decide_eq_true h]
    rfl

theorem isSpace_of_isBoundary (h : isBoundary c = true) : isSpace c = true := by
  unfold isBoundary at h
  unfold isSpace
  simp only [Bool.or_eq_true, Bool.and_eq_true, decide_eq_true_eq] at h ⊢
  omega

theorem validEntry_eq_ok : validEntry lib (hosts :: keyType :: data :: rest) = .ok e ↔
    ∃ key, lib.fromTypeString keyType data = .ok (some key) ∧
      (hosts.splitOn ',').all (hostPatternIsValid lib) = true ∧ e = ⟨hosts.splitOn ',', key⟩ := by
  have hline : fromLine lib (hosts :: keyType :: data :: rest) =
      (lib.fromTypeString keyType data).map (Option.map (HostKeyEntry.mk (hosts.splitOn ','))) := rfl
  unfold validEntry
  rw [hline]
  cases h : lib.fromTypeString keyType data with
  | error message =>
    refine iff_of_false (fun h => nomatch h) ?_
    rintro ⟨_, h, -⟩
    nomatch h
  | ok found =>
    cases found with
    | none =>
      refine iff_of_false (fun h => nomatch h) ?_
      rintro ⟨_, h, -⟩
      nomatch h
    | some key =>
      dsimp only [Except.map, Option.map]
      constructor
      · intro h
        split at h
        · rename_i hvalid
          exact ⟨key, rfl, hvalid.2, (Except.ok.inj h).symm⟩
        · nomatch h
      · rintro ⟨key', hkey, hvalid, rfl⟩
        cases hkey
        exact if_pos ⟨List.splitOn_ne_nil ',' hosts, hvalid⟩

/-- What a line must have to hold something. -/
theorem readLine_eq_ok (h : isSkipped (trim l) = false) : readLine lib l = .ok line ↔
    ∃ marker hosts keyType data rest entry, takeMarker (fields (trim l)) =
        (marker, hosts :: keyType :: data :: rest) ∧
      (∀ m ∈ marker, m = revokedMarker ∨ m = certAuthorityMarker) ∧
      validEntry lib (hosts :: keyType :: data :: rest) = .ok entry ∧ line = marked marker entry := by
  unfold readLine
  dsimp only
  rw [if_neg (by rw [h]; exact Bool.false_ne_true)]
  cases htake : takeMarker (fields (trim l)) with
  | mk marker remaining =>
    dsimp only
    constructor
    · intro h
      obtain ⟨_, hmarker, h⟩ := bind_eq_ok.mp h
      obtain ⟨_, hlength, h⟩ := bind_eq_ok.mp h
      obtain ⟨entry, hentry, h⟩ := bind_eq_ok.mp h
      cases h
      have hlength := raiseIf_eq_ok.mp hlength
      match remaining, hlength with
      | hosts :: keyType :: data :: rest, _ =>
        refine ⟨marker, hosts, keyType, data, rest, entry, rfl, fun m hm => ?_, hentry, rfl⟩
        by_contra hne
        exact raiseIf_eq_ok.mp hmarker ⟨m, hm, not_or.mp hne⟩
      | [], h => exact absurd (Nat.zero_lt_succ 2) h
      | [_], h => exact absurd (Nat.lt_of_sub_eq_succ rfl) h
      | [_, _], h => exact absurd (Nat.lt_succ_self 2) h
    · rintro ⟨_, hosts, keyType, data, rest, entry, ⟨⟩, hmarker, hentry, rfl⟩
      refine bind_eq_ok.mpr ⟨(), raiseIf_eq_ok.mpr ?_, bind_eq_ok.mpr ⟨(), raiseIf_eq_ok.mpr ?_, ?_⟩⟩
      · rintro ⟨m, hm, hrevoked, hauthority⟩
        exact (hmarker m hm).elim hrevoked hauthority
      · simp
      · exact bind_eq_ok.mpr ⟨entry, hentry, rfl⟩

theorem eq_of_takeMarker {fields remaining : List (List Char)} (h : takeMarker fields = (marker, remaining)) :
    fields = marker.toList ++ remaining ∧ (∀ m ∈ marker, m.head? = some '@') ∧
      (marker = none → ∀ field ∈ remaining.head?, field.head? ≠ some '@') := by
  unfold takeMarker at h
  split at h
  · split at h
    · rename_i hmarked
      cases h
      exact ⟨rfl, fun m hm => Option.some.inj hm ▸ hmarked, fun hnone => nomatch hnone⟩
    · rename_i hplain
      cases h
      exact ⟨rfl, fun _ hm => (nomatch hm), fun _ field hfield => Option.some.inj hfield ▸ hplain⟩
  · cases h
    exact ⟨rfl, fun _ hm => (nomatch hm), fun _ _ hfield => nomatch hfield⟩

/-- The first field begins a stripped line. -/
theorem head_of_fields {remaining : List (List Char)} (h : fields (trim text) = hosts :: remaining) :
    hosts.head? = (trim text).head? := by
  cases htrim : trim text with
  | nil =>
    rw [htrim] at h
    nomatch h
  | cons c more =>
    have hspace := head_trim text c (by rw [htrim]; rfl)
    have hseparator : isSeparator c = false := by
      refine Bool.eq_false_iff.mpr fun hc => ?_
      rw [isSpace_of_isSeparator hc] at hspace
      nomatch hspace
    obtain ⟨more', rest, hfields⟩ := head_fieldsBy hseparator more
    rw [htrim, fields, hfields] at h
    rw [← (List.cons.inj h).1]
    rfl

/-! ## The line that is written -/

/-- A file with this entry alone. -/
def single (marker : Option (List Char)) (entry : HostKeyEntry Key) : ParsedHostKeyFile Key :=
  if marker = none then ⟨[entry], []⟩ else ⟨[], [entry]⟩

theorem single_inj : single marker e = single marker entry ↔ e = entry := by
  unfold single
  split <;> simp

/-- The fields of a value, as they are split and checked. -/
structure Accepted (marker : Option (List Char)) (hosts keyType data : List Char) : Prop where
  known : marker = none ∨ marker = some revokedMarker
  hosts_nonempty : hosts ≠ []
  keyType_nonempty : keyType ≠ []
  data_nonempty : data ≠ []
  separators : ∀ c ∈ hosts ++ keyType ++ data, isSeparator c = false
  returns : '\r' ∉ hosts ++ keyType ++ data
  start : marker = none → ∀ c ∈ hosts.head?, isSpace c = false ∧ c ≠ '@'

/-- The line boundaries of Unicode leave the line whole, or cut only from its last field what is not
needed. -/
structure OneLine (lib : Library Key) (marker : Option (List Char)) (hosts keyType data : List Char)
    (key : Key) : Prop where
  notComment : marker = none → hosts.head? ≠ some '#'
  clean : ∀ c ∈ hosts ++ keyType, isBoundary c = false
  pieces : ∃ first more, data.splitOnP isBoundary = first :: more ∧ trimEnd first ≠ [] ∧
    lib.fromTypeString keyType (trimEnd first) = .ok (some key) ∧
    ∀ piece ∈ more, isSkipped (trim piece) = true

/-- The line up to its last separator. -/
def opening (marker : Option (List Char)) (hosts keyType : List Char) : List Char :=
  marker.elim [] (· ++ [' ']) ++ (hosts ++ ' ' :: keyType)

theorem canonicalLine_eq (marker : Option (List Char)) (hosts keyType data : List Char)
    (rest : List (List Char)) :
    canonicalLine marker (hosts :: keyType :: data :: rest) = opening marker hosts keyType ++ ' ' :: data := by
  cases marker <;> simp [canonicalLine, opening, List.intercalate]

theorem marked_before (h : marker = none ∨ marker = some revokedMarker) (entry : HostKeyEntry Key) :
    (marked marker entry).before ⟨[], []⟩ = single marker entry := by
  rcases h with rfl | rfl <;> rfl

/-- An entry without a marker is not read where its line is a comment. -/
theorem notComment_of_reads (h : Reads lib ls (single none ⟨hosts.splitOn ',', key⟩)) :
    hosts.head? ≠ some '#' := by
  intro hcomment
  obtain ⟨l, -, hread⟩ := h.exists_trusted (e := ⟨hosts.splitOn ',', key⟩) List.mem_cons_self
  cases hskip : isSkipped (trim l) with
  | true =>
    have hskipped : readLine lib l = .ok .skipped := if_pos hskip
    rw [hskipped] at hread
    nomatch hread
  | false =>
    obtain ⟨marker, hosts', keyType, data, rest, entry, htake, hmarker, hentry, hline⟩ :=
      (readLine_eq_ok hskip).mp hread
    obtain rfl : marker = none := by
      cases marker with
      | none => rfl
      | some m =>
        rcases hmarker m rfl with rfl | rfl
        · nomatch hline
        · nomatch hline
    obtain ⟨key', -, -, rfl⟩ := validEntry_eq_ok.mp hentry
    obtain rfl : hosts = hosts' := by
      have hsame := congrArg HostKeyEntry.hostnames (Line.trusted.inj hline)
      have hjoin := congrArg ([','].intercalate) hsame
      rwa [List.intercalate_splitOn, List.intercalate_splitOn] at hjoin
    have hhead := head_of_fields (eq_of_takeMarker htake).1
    rw [hcomment] at hhead
    rw [isSkipped, ← hhead] at hskip
    simp at hskip

theorem Accepted.mem_fields (A : Accepted marker hosts keyType data) :
    (∀ c ∈ hosts, isSeparator c = false) ∧ (∀ c ∈ keyType, isSeparator c = false) ∧
      ∀ c ∈ data, isSeparator c = false :=
  ⟨fun c hc => A.separators c (List.mem_append_left _ (List.mem_append_left _ hc)),
    fun c hc => A.separators c (List.mem_append_left _ (List.mem_append_right _ hc)),
    fun c hc => A.separators c (List.mem_append_right _ hc)⟩

/-- The first character is no white space, and a `@` where there is a marker. -/
theorem Accepted.head_opening (A : Accepted marker hosts keyType data) :
    ∃ c, (opening marker hosts keyType).head? = some c ∧ isSpace c = false ∧
      (marker ≠ none → c = '@') ∧ (marker = none → hosts.head? = some c ∧ c ≠ '@') := by
  rcases A.known with rfl | rfl
  · obtain ⟨c, more, rfl⟩ := List.exists_cons_of_ne_nil A.hosts_nonempty
    obtain ⟨hspace, hat⟩ := A.start rfl c rfl
    exact ⟨c, rfl, hspace, fun h => absurd rfl h, fun _ => ⟨rfl, hat⟩⟩
  · exact ⟨'@', rfl, rfl, fun _ => rfl, fun h => nomatch h⟩

theorem Accepted.countP_opening (A : Accepted marker hosts keyType data) :
    (opening marker hosts keyType).countP isSeparator = 1 + marker.toList.length := by
  obtain ⟨hhosts, hkeyType, -⟩ := A.mem_fields
  have hzero {l : List Char} (h : ∀ c ∈ l, isSeparator c = false) : l.countP isSeparator = 0 :=
    List.countP_eq_zero.mpr fun c hc hsep => Bool.false_ne_true ((h c hc).symm.trans hsep)
  have hblank : isSeparator ' ' = true := rfl
  rw [opening, List.countP_append, List.countP_append, hzero hhosts, List.countP_cons_of_pos hblank,
    hzero hkeyType]
  rcases A.known with rfl | rfl <;> rfl

/-- A line that ends before the last separator has too few fields. -/
theorem Accepted.readLine_short (A : Accepted marker hosts keyType data)
    (hbegins : trim l <+: opening marker hosts keyType) (hskip : isSkipped (trim l) = false) :
    readLine lib l ≠ .ok line := by
  intro hread
  obtain ⟨marker', hosts', keyType', data', rest, entry, htake, -⟩ := (readLine_eq_ok hskip).mp hread
  obtain ⟨hfields, -, hplain⟩ := eq_of_takeMarker htake
  have hcount := hbegins.sublist.countP_le (p := isSeparator)
  have hlength := length_fieldsBy_le isSeparator (trim l)
  rw [A.countP_opening] at hcount
  have hmarked : marker.toList.length ≤ marker'.toList.length := by
    obtain ⟨c, hc, -, hat, -⟩ := A.head_opening
    cases marker' with
    | some m =>
      rcases A.known with rfl | rfl
      · exact Nat.zero_le _
      · exact Nat.le_refl _
    | none =>
      refine Nat.le_of_eq (congrArg (List.length ∘ Option.toList) ?_)
      by_contra hmarker
      have hhead := head_of_fields hfields
      obtain ⟨after, hafter⟩ := hbegins
      cases htrim : trim l with
      | nil =>
        rw [htrim] at hskip
        nomatch hskip
      | cons d more =>
        rw [← hafter, htrim] at hc
        refine hplain rfl hosts' rfl ?_
        rw [hhead, htrim, ← hat hmarker]
        exact hc
  rw [← fields, hfields, List.length_append, List.length_cons, List.length_cons, List.length_cons] at hlength
  omega

theorem Accepted.takeMarker_fields (A : Accepted marker hosts keyType data) (hfirst : first ≠ [])
    (hseparators : ∀ c ∈ first, isSeparator c = false) :
    takeMarker (fields (opening marker hosts keyType ++ ' ' :: first)) =
      (marker, [hosts, keyType, first]) := by
  obtain ⟨hhosts, hkeyType, -⟩ := A.mem_fields
  have hplain : fields (hosts ++ ' ' :: (keyType ++ ' ' :: first)) = [hosts, keyType, first] := by
    rw [fields, fieldsBy_word hhosts A.hosts_nonempty rfl, fieldsBy_word hkeyType A.keyType_nonempty rfl,
      fieldsBy_last hseparators hfirst]
  rcases A.known with rfl | rfl
  · rw [opening, Option.elim_none, List.nil_append, List.append_assoc, List.cons_append, hplain, takeMarker,
      if_neg (show ¬ hosts.head? = some '@' from fun hat => (A.start rfl '@' hat).2 rfl)]
  · have hmarker : ∀ c ∈ revokedMarker, isSeparator c = false := by decide
    have hline : opening (some revokedMarker) hosts keyType ++ ' ' :: first =
        revokedMarker ++ ' ' :: (hosts ++ ' ' :: (keyType ++ ' ' :: first)) := by
      simp [opening]
    rw [hline, fields, fieldsBy_word hmarker (by decide) rfl]
    rw [fields] at hplain
    rw [hplain]
    rfl

/-- A piece of the last field is passed over or has too few fields. -/
theorem readLine_piece (h : ∀ c ∈ l, isSeparator c = false) (hread : readLine lib l = .ok line) :
    isSkipped (trim l) = true := by
  by_contra hskip
  obtain ⟨marker, hosts, keyType, data, rest, entry, htake, -⟩ :=
    (readLine_eq_ok (Bool.not_eq_true _ ▸ hskip)).mp hread
  obtain ⟨hfields, -⟩ := eq_of_takeMarker htake
  have hlength := length_fieldsBy_le isSeparator (trim l)
  have hzero : (trim l).countP isSeparator = 0 :=
    List.countP_eq_zero.mpr fun c hc hsep =>
      Bool.false_ne_true ((h c (trim_subset l hc)).symm.trans hsep)
  rw [← fields, hfields, hzero, List.length_append, List.length_cons, List.length_cons,
    List.length_cons] at hlength
  omega

/-- Lines of single fields are read where they are passed over. -/
theorem reads_pieces (h : ∀ l ∈ ls, ∀ c ∈ l, isSeparator c = false) :
    Reads lib ls p ↔ (∀ l ∈ ls, isSkipped (trim l) = true) ∧ p = ⟨[], []⟩ := by
  constructor
  · intro hreads
    have hskipped (l : List Char) (hl : l ∈ ls) : isSkipped (trim l) = true := by
      obtain ⟨line, hread⟩ := hreads.exists_line hl
      exact readLine_piece (h l hl) hread
    exact ⟨hskipped, hreads.unique (reads_skipped hskipped)⟩
  · rintro ⟨hskipped, rfl⟩
    exact reads_skipped hskipped

theorem Accepted.opening_clean_iff (A : Accepted marker hosts keyType data) :
    (∀ c ∈ opening marker hosts keyType, isBoundary c = false) ↔
      ∀ c ∈ hosts ++ keyType, isBoundary c = false := by
  have hmarker : ∀ c ∈ marker.elim [] (· ++ [' ']), isBoundary c = false := by
    rcases A.known with rfl | rfl
    · exact fun _ hc => absurd hc List.not_mem_nil
    · decide
  have hblank : isBoundary ' ' = false := rfl
  rw [opening]
  simp only [List.forall_mem_append, List.forall_mem_cons, hblank, true_and]
  exact ⟨And.right, fun h => ⟨hmarker, h⟩⟩

/-- The first line is no comment, and is stripped at its end only. -/
theorem Accepted.trim_line (A : Accepted marker hosts keyType data)
    (hcomment : marker = none → hosts.head? ≠ some '#')
    (hl : l.head? = (opening marker hosts keyType).head?) :
    trim l = trimEnd l ∧ isSkipped (trim l) = false := by
  obtain ⟨c, hc, hspace, hat, hplain⟩ := A.head_opening
  rw [hc] at hl
  obtain ⟨text, rfl⟩ := List.head?_eq_some_iff.mp hl
  have htrim : trim (c :: text) = trimEnd (c :: text) := trim_of_head fun d hd => Option.some.inj hd ▸ hspace
  refine ⟨htrim, ?_⟩
  have hsharp : c ≠ '#' := by
    rintro rfl
    by_cases hmarker : marker = none
    · exact hcomment hmarker (hplain hmarker).1
    · exact absurd (hat hmarker) (by decide)
  rw [htrim, trimEnd_cons hspace]
  simpa [isSkipped] using hsharp

theorem head?_append_of_head? {before : List Char} (h : before.head? = some c) (after : List Char) :
    (before ++ after).head? = before.head? := by
  rw [List.head?_append, h]
  rfl

/-- A first line with all three fields. -/
theorem Accepted.readLine_whole (A : Accepted marker hosts keyType data)
    (hcomment : marker = none → hosts.head? ≠ some '#') (hfirst : trimEnd first ≠ [])
    (hseparators : ∀ c ∈ first, isSeparator c = false) :
    readLine lib (opening marker hosts keyType ++ ' ' :: first) = .ok line ↔
      ∃ key, lib.fromTypeString keyType (trimEnd first) = .ok (some key) ∧
        (hosts.splitOn ',').all (hostPatternIsValid lib) = true ∧
        line = marked marker ⟨hosts.splitOn ',', key⟩ := by
  obtain ⟨c, hopening, -⟩ := A.head_opening
  obtain ⟨htrim, hskip⟩ := A.trim_line (l := opening marker hosts keyType ++ ' ' :: first) hcomment
    (head?_append_of_head? hopening _)
  have hend : trim (opening marker hosts keyType ++ ' ' :: first) =
      opening marker hosts keyType ++ ' ' :: trimEnd first := by
    have happend := trimEnd_append hfirst (opening marker hosts keyType ++ [' '])
    rw [List.append_assoc, List.append_assoc] at happend
    rw [htrim]
    exact happend
  have hfields := A.takeMarker_fields hfirst fun c hc => hseparators c ((trimEnd_begins first).subset hc)
  rw [readLine_eq_ok hskip, hend, hfields]
  constructor
  · rintro ⟨_, _, _, _, _, entry, ⟨⟩, -, hentry, rfl⟩
    obtain ⟨key, hkey, hvalid, rfl⟩ := validEntry_eq_ok.mp hentry
    exact ⟨key, hkey, hvalid, rfl⟩
  · rintro ⟨key, hkey, hvalid, rfl⟩
    refine ⟨marker, hosts, keyType, trimEnd first, [], _, rfl, fun m hm => ?_,
      validEntry_eq_ok.mpr ⟨key, hkey, hvalid, rfl⟩, rfl⟩
    rcases A.known with rfl | rfl
    · nomatch hm
    · exact .inl (Option.some.inj hm).symm

/-- The written line is read as its entry alone where the line boundaries leave it. -/
theorem Accepted.reads_iff (A : Accepted marker hosts keyType data)
    (hvalid : (hosts.splitOn ',').all (hostPatternIsValid lib) = true) (rest : List (List Char)) :
    Reads lib (splitlines (canonicalLine marker (hosts :: keyType :: data :: rest) ++ ['\n']))
        (single marker ⟨hosts.splitOn ',', key⟩) ↔ OneLine lib marker hosts keyType data key := by
  have hreturn : '\r' ∉ opening marker hosts keyType ++ ' ' :: data := by
    have hmarker : '\r' ∉ marker.elim [] (· ++ [' ']) := by
      rcases A.known with rfl | rfl
      · exact List.not_mem_nil
      · decide
    have hfields := A.returns
    simp only [opening, List.mem_append, List.mem_cons, not_or] at hfields ⊢
    exact ⟨⟨hmarker, hfields.1.1, by decide, hfields.1.2⟩, by decide, hfields.2⟩
  obtain ⟨c, hopening, hspace, -⟩ := A.head_opening
  rw [canonicalLine_eq, splitlines_newline hreturn]
  have hnotComment (h : Reads lib ((opening marker hosts keyType ++ ' ' :: data).splitOnP isBoundary)
      (single marker ⟨hosts.splitOn ',', key⟩)) (hmarker : marker = none) : hosts.head? ≠ some '#' := by
    subst hmarker
    exact notComment_of_reads h
  by_cases hclean : ∀ c ∈ opening marker hosts keyType, isBoundary c = false
  · obtain ⟨first, more, hdata⟩ := List.exists_cons_of_ne_nil (List.splitOnP_ne_nil isBoundary data)
    have hsplit : (opening marker hosts keyType ++ ' ' :: data).splitOnP isBoundary =
        (opening marker hosts keyType ++ ' ' :: first) :: more := by
      have hhead : ∀ c ∈ opening marker hosts keyType ++ [' '], isBoundary c = false := by
        simp only [List.forall_mem_append, List.forall_mem_singleton]
        exact ⟨hclean, rfl⟩
      have happend := splitOnP_append hhead data
      rwa [List.append_assoc, List.singleton_append, hdata, List.modifyHead_cons, List.append_assoc,
        List.singleton_append] at happend
    have hpieces {piece : List Char} (hpiece : piece ∈ first :: more) : ∀ c ∈ piece, isSeparator c = false :=
      fun c hc => A.mem_fields.2.2 c (of_mem_splitOnP (hdata ▸ hpiece) c hc).2
    have hmore : ∀ l ∈ more, ∀ c ∈ l, isSeparator c = false :=
      fun l hl => hpieces (List.mem_cons_of_mem _ hl)
    constructor
    · intro h
      have hcomment := hnotComment h
      rw [hsplit, reads_cons] at h
      obtain ⟨line, p', hread, hrest, hsingle⟩ := h
      have hfirst : trimEnd first ≠ [] := by
        intro hnil
        obtain ⟨htrim, hskip⟩ := A.trim_line hcomment (l := opening marker hosts keyType ++ ' ' :: first)
          (head?_append_of_head? hopening _)
        refine A.readLine_short ?_ hskip hread
        have happend := trimEnd_append_of_nil hnil (opening marker hosts keyType ++ [' '])
        rw [List.append_assoc, List.singleton_append, trimEnd_space rfl] at happend
        rw [htrim, happend]
        exact trimEnd_begins _
      obtain ⟨key', hkey, -, rfl⟩ := (A.readLine_whole hcomment hfirst (hpieces List.mem_cons_self)).mp hread
      obtain ⟨hskipped, rfl⟩ := (reads_pieces hmore).mp hrest
      rw [marked_before A.known, single_inj] at hsingle
      cases hsingle
      exact ⟨hcomment, A.opening_clean_iff.mp hclean, first, more, hdata, hfirst, hkey, hskipped⟩
    · rintro ⟨hcomment, -, first', more', hdata', hfirst, hkey, hskipped⟩
      rw [hdata] at hdata'
      cases hdata'
      rw [hsplit, reads_cons]
      exact ⟨_, _, (A.readLine_whole hcomment hfirst (hpieces List.mem_cons_self)).mpr ⟨key, hkey, hvalid, rfl⟩,
        (reads_pieces hmore).mpr ⟨hskipped, rfl⟩, (marked_before A.known _).symm⟩
  · refine iff_of_false (fun h => ?_) fun h => hclean (A.opening_clean_iff.mpr h.clean)
    have hcomment := hnotComment h
    have hboundary : ∃ c ∈ opening marker hosts keyType, isBoundary c = true := by
      by_contra hnone
      exact hclean fun c hc => Bool.eq_false_iff.mpr fun hb => hnone ⟨c, hc, hb⟩
    obtain ⟨first, more, hsplit, hbegins, hhead⟩ := splitOnP_append_of_mem hboundary (' ' :: data)
    rw [hsplit, reads_cons] at h
    obtain ⟨line, p', hread, -, -⟩ := h
    have hplain : isBoundary c = false := Bool.eq_false_iff.mpr fun hb => by
      rw [isSpace_of_isBoundary hb] at hspace
      nomatch hspace
    obtain ⟨htrim, hskip⟩ := A.trim_line hcomment ((hhead c hopening hplain).trans hopening.symm)
    refine A.readLine_short ?_ hskip hread
    rw [htrim]
    exact (trimEnd_begins first).trans hbegins

/-! ## The file with a line more -/

variable {raw after : Bytes} {previous : ParsedHostKeyFile Key} {value : String} {file : Option Bytes}
  {candidate : Option (Option (List Char) × HostKeyEntry Key)}

theorem loadStrict_eq_ok {text : String} (h : decode raw = some text) :
    loadStrict lib raw = .ok p ↔ Reads lib (splitlines text.toList) p := by
  unfold loadStrict
  rw [h]
  exact loadLines_eq_ok

/-- A newline at the end of a text does not change what it holds. -/
theorem reads_newline (text : List Char) :
    Reads lib (splitlines (text ++ ['\n'])) p ↔ Reads lib (splitlines text) p := by
  rcases splitlinesFrom_newline [] text with h | h
  · rw [splitlines, h]
    rfl
  · rw [splitlines, h]
    exact reads_blank

/-- Only a newline ends in the byte 10. -/
theorem exists_newline {text : List Char} (h : (Utf8.encodeChars text).getLast? = some 10) :
    ∃ before, text = before ++ ['\n'] := by
  rcases List.eq_nil_or_concat' text with rfl | ⟨before, c, rfl⟩
  · nomatch h
  · refine ⟨before, ?_⟩
    have hc : String.utf8EncodeChar c ≠ [] := List.length_pos_iff.mp (Utf8.length_utf8EncodeChar_pos c)
    rw [Utf8.encodeChars_append, Utf8.encodeChars_cons, Utf8.encodeChars_nil, List.append_nil,
      List.getLast?_append, List.getLast?_eq_some_getLast hc, Option.some_or] at h
    have hmem := List.getLast_mem hc
    rw [Option.some.inj h] at hmem
    rw [Latin1.eq_of_mem_utf8EncodeChar (by decide) hmem]
    rfl

/-- The old lines are read as before, and the new one after them. -/
theorem loadStrict_appendLine (h : loadStrict lib raw = .ok previous) (l : List Char) :
    loadStrict lib (appendLine raw l) = .ok p ↔
      ∃ p₂, Reads lib (splitlines (l ++ ['\n'])) p₂ ∧ p = previous.append p₂ := by
  have hdecode : ∃ text, decode raw = some text := by
    unfold loadStrict at h
    split at h
    · nomatch h
    · exact ⟨_, by assumption⟩
  obtain ⟨text, htext⟩ := hdecode
  have hraw : raw = Utf8.encodeChars text.toList := by rw [← Utf8.encode_toList, encode_of_decode htext]
  have hold := (loadStrict_eq_ok htext).mp h
  have happend (start : List Char) (hstart : Reads lib (splitlines start) previous)
      (hlines : splitlines (start ++ l ++ ['\n']) = splitlines start ++ splitlines (l ++ ['\n'])) :
      loadStrict lib (Utf8.encodeChars start ++ Utf8.encodeChars l ++ [10]) = .ok p ↔
        ∃ p₂, Reads lib (splitlines (l ++ ['\n'])) p₂ ∧ p = previous.append p₂ := by
    have hbytes : Utf8.encodeChars start ++ Utf8.encodeChars l ++ [10] =
        Utf8.encodeChars (start ++ l ++ ['\n']) := by
      rw [Utf8.encodeChars_append, Utf8.encodeChars_append]
      rfl
    rw [hbytes, loadStrict_eq_ok (Utf8.decode_encodeChars _), String.toList_ofList, hlines, reads_append]
    constructor
    · rintro ⟨p₁, p₂, h₁, h₂, rfl⟩
      exact ⟨p₂, h₂, by rw [h₁.unique hstart]⟩
    · rintro ⟨p₂, h₂, rfl⟩
      exact ⟨previous, p₂, hstart, h₂, rfl⟩
  have hnewline (before : List Char) : splitlines (before ++ ['\n'] ++ l ++ ['\n']) =
      splitlines (before ++ ['\n']) ++ splitlines (l ++ ['\n']) := by
    have hsplit := splitlinesFrom_append [] before (l ++ ['\n'])
    rw [List.append_assoc (before ++ ['\n']), List.append_assoc]
    exact hsplit
  unfold appendLine
  dsimp only
  split
  · have hopen := happend (text.toList ++ ['\n']) ((reads_newline _).mpr hold) (hnewline _)
    rw [Utf8.encodeChars_append, ← hraw] at hopen
    exact hopen
  · rename_i hclosed
    rw [hraw] at hclosed ⊢
    by_cases hempty : Utf8.encodeChars text.toList = []
    · have hnil : text.toList = [] := by
        cases htoList : text.toList with
        | nil => rfl
        | cons c more =>
          have hc := Utf8.length_utf8EncodeChar_pos c
          rw [htoList, Utf8.encodeChars_cons, List.append_eq_nil_iff] at hempty
          rw [hempty.1] at hc
          nomatch hc
      rw [hnil] at hold ⊢
      exact happend [] hold rfl
    · have hlast : (Utf8.encodeChars text.toList).getLast? = some 10 := by
        by_contra hlast
        exact hclosed ⟨hempty, hlast⟩
      obtain ⟨before, hbefore⟩ := exists_newline hlast
      rw [hbefore] at hold ⊢
      exact happend _ hold (hnewline before)

/-! ## The new entry -/

/-- The file is loaded, and holds the entries it had and the one of the value, with its marker. -/
def Appends (lib : Library Key) (previous : ParsedHostKeyFile Key) (value : String) (after : Bytes) : Prop :=
  ∃ marker fields entry, parseValue lib value = .ok (marker, fields, entry) ∧
    loadStrict lib after = .ok (previous.append (single marker entry))

/-- The line of the value is one line for the loader too. -/
def ReadBack (lib : Library Key) (value : String) : Prop :=
  ∃ marker hosts keyType data rest entry,
    parseValue lib value = .ok (marker, hosts :: keyType :: data :: rest, entry) ∧
      OneLine lib marker hosts keyType data entry.key

theorem accepted_of_parseValue {fields : List (List Char)}
    (h : parseValue lib value = .ok (marker, fields, entry)) :
    ∃ hosts keyType data rest key, fields = hosts :: keyType :: data :: rest ∧
      Accepted marker hosts keyType data ∧ (hosts.splitOn ',').all (hostPatternIsValid lib) = true ∧
      entry = ⟨hosts.splitOn ',', key⟩ := by
  unfold parseValue at h
  split at h
  · nomatch h
  · rename_i hvalue
    cases htake : takeMarker (HostKeys.fields (trim value.toList)) with
    | mk marker' remaining =>
      rw [htake] at h
      dsimp only at h
      split at h
      · nomatch h
      · rename_i hshape
        obtain ⟨hmarker, hlength⟩ := not_or.mp hshape
        cases hentry : validEntry lib remaining with
        | error message =>
          rw [hentry] at h
          nomatch h
        | ok entry' =>
          rw [hentry] at h
          cases h
          obtain ⟨hfields, -, hplain⟩ := eq_of_takeMarker htake
          match fields, hlength, hentry, hfields, hplain with
          | [], hlength, _, _, _ => exact absurd (Nat.zero_lt_succ 2) hlength
          | [_], hlength, _, _, _ => exact absurd (Nat.lt_of_sub_eq_succ rfl) hlength
          | [_, _], hlength, _, _, _ => exact absurd (Nat.lt_succ_self 2) hlength
          | hosts :: keyType :: data :: rest, _, hentry, hfields, hplain =>
            obtain ⟨key, -, hvalid, rfl⟩ := validEntry_eq_ok.mp hentry
            have hmem {field : List Char} (h : field ∈ hosts :: keyType :: data :: rest) :
                field ≠ [] ∧ ∀ c ∈ field, isSeparator c = false ∧ c ∈ trim value.toList :=
              of_mem_fieldsBy (show field ∈ HostKeys.fields (trim value.toList) by
                rw [hfields]
                exact List.mem_append_right _ h)
            obtain ⟨hhosts, hhostsChars⟩ := hmem List.mem_cons_self
            obtain ⟨hkeyType, hkeyTypeChars⟩ := hmem (List.mem_cons_of_mem _ List.mem_cons_self)
            obtain ⟨hdata, hdataChars⟩ :=
              hmem (List.mem_cons_of_mem _ (List.mem_cons_of_mem _ List.mem_cons_self))
            have hchars : ∀ c ∈ hosts ++ keyType ++ data, isSeparator c = false ∧ c ∈ trim value.toList := by
              simp only [List.forall_mem_append]
              exact ⟨⟨hhostsChars, hkeyTypeChars⟩, hdataChars⟩
            refine ⟨hosts, keyType, data, rest, key, rfl, ?_, hvalid, rfl⟩
            exact
              { known := by
                  by_contra hunknown
                  exact hmarker (not_or.mp hunknown)
                hosts_nonempty := hhosts
                keyType_nonempty := hkeyType
                data_nonempty := hdata
                separators := fun c hc => (hchars c hc).1
                returns := fun hc =>
                  hvalue (.inr (.inr (.inr (trim_subset _ (hchars _ hc).2))))
                start := fun hnone c hc => by
                  subst hnone
                  refine ⟨head_trim value.toList c ?_, fun hat => ?_⟩
                  · rw [← head_of_fields hfields]
                    exact hc
                  · subst hat
                    exact hplain rfl hosts rfl hc }

/-- A missing file is loaded as an empty one. -/
theorem loadStrict_getD (h : loadOrEmpty lib file = .ok previous) :
    loadStrict lib (file.getD []) = .ok previous := by
  cases file with
  | some raw => exact h
  | none =>
    rw [← Except.ok.inj h]
    exact (loadStrict_eq_ok (Utf8.decode_encodeChars [])).mpr .nil

/-- After a success the store is loaded with the new entry where the value is read back. -/
theorem addFileEntry_appends_iff [DecidableEq Key] (hprevious : loadOrEmpty lib file = .ok previous)
    (h : addFileEntry lib file value = .ok (.added candidate after)) :
    Appends lib previous value after ↔ ReadBack lib value := by
  unfold addFileEntry at h
  cases hparse : parseValue lib value with
  | error message =>
    rw [hparse] at h
    nomatch h
  | ok parsed =>
    obtain ⟨marker, fields, entry⟩ := parsed
    obtain ⟨hosts, keyType, data, rest, key, rfl, A, hvalid, rfl⟩ := accepted_of_parseValue hparse
    rw [hparse] at h
    obtain ⟨_, -, h⟩ := bind_eq_ok.mp h
    obtain ⟨_, -, h⟩ := bind_eq_ok.mp h
    obtain ⟨found, -, h⟩ := bind_eq_ok.mp h
    cases found with
    | some message => nomatch h
    | none =>
      cases h
      have hraw := loadStrict_getD hprevious
      constructor
      · rintro ⟨_, _, _, hparse', hload⟩
        rw [hparse] at hparse'
        cases hparse'
        obtain ⟨p₂, hreads, happend⟩ := (loadStrict_appendLine hraw _).mp hload
        rw [← ParsedHostKeyFile.append_left_cancel happend] at hreads
        exact ⟨_, _, _, _, _, _, hparse, (A.reads_iff hvalid rest).mp hreads⟩
      · rintro ⟨_, _, _, _, _, _, hparse', H⟩
        rw [hparse] at hparse'
        cases hparse'
        exact ⟨_, _, _, hparse, (loadStrict_appendLine hraw _).mpr
          ⟨_, (A.reads_iff hvalid rest).mpr H, rfl⟩⟩

/-! ## Two values -/

def sampleData : String := "AAAAC3NzaC1lZDI1NTE5AAAAIAABAgMEBQYHCAkKCwwNDg8QERITFBUWFxgZGhscHR4f"

/-- With `rfl`, the characters of a literal; the kernel is slow to read them from its bytes. -/
theorem toList_of_eq_ofList {text : String} {chars : List Char} (h : text = String.ofList chars) :
    text.toList = chars := by
  rw [h, String.toList_ofList]

/-- The libraries on one key and on its text. -/
def sampleLibrary : Library String where
  fromTypeString keyType data :=
    if keyType = "ssh-ed25519".toList ∧ data = sampleData.toList then .ok (some sampleData) else .ok none
  name _ := "ssh-ed25519".toList
  casefold text := text
  decodedLength _ := none

/-- The line separator of Unicode stands in the host. -/
def cutValue : String := "ho\u2028st ssh-ed25519 " ++ sampleData

/-- The value is accepted, and the store cannot be loaded any more. -/
theorem cutHost_breaks_store :
    loadOrEmpty sampleLibrary none = .ok ⟨[], []⟩ ∧
      addFileEntry sampleLibrary none cutValue =
        .ok (.added (some (none, ⟨["ho\u2028st".toList], sampleData⟩)) (encode (cutValue ++ "\n"))) ∧
      loadStrict sampleLibrary (encode (cutValue ++ "\n")) = .error "Invalid known_hosts entry on line 1" ∧
      ¬ Appends sampleLibrary ⟨[], []⟩ cutValue (encode (cutValue ++ "\n")) := by
  have hload : loadStrict sampleLibrary (encode (cutValue ++ "\n")) =
      .error "Invalid known_hosts entry on line 1" := by decide +kernel
  refine ⟨rfl, by decide +kernel, hload, ?_⟩
  rintro ⟨_, _, _, -, hok⟩
  rw [hload] at hok
  nomatch hok

def plainValue : String := "host ssh-ed25519 " ++ sampleData

/-- A file with one entry, without a line end. -/
def entryFile : Bytes := encode ("old ssh-ed25519 " ++ sampleData)

theorem addFileEntry_appends_plain :
    Appends sampleLibrary ⟨[⟨["old".toList], sampleData⟩], []⟩ plainValue
      (entryFile ++ encode ("\n" ++ plainValue ++ "\n")) := by
  have hprevious : loadOrEmpty sampleLibrary (some entryFile) =
      .ok ⟨[⟨["old".toList], sampleData⟩], []⟩ := by
    rw [entryFile, loadOrEmpty_encode, String.toList_append,
      @toList_of_eq_ofList sampleData _ rfl]
    decide +kernel
  have hparse : parseValue sampleLibrary plainValue =
      .ok (none, ["host".toList, "ssh-ed25519".toList, sampleData.toList],
        ⟨["host".toList], sampleData⟩) := by decide +kernel
  have hadded : addFileEntry sampleLibrary (some entryFile) plainValue =
      .ok (.added (some (none, ⟨["host".toList], sampleData⟩))
        (entryFile ++ encode ("\n" ++ plainValue ++ "\n"))) := by
    simp only [addFileEntry, hparse, hprevious]
    decide +kernel
  refine (addFileEntry_appends_iff hprevious hadded).mpr ⟨_, _, _, _, _, _, hparse, ?_⟩
  exact
    { notComment := fun _ => by decide
      clean := by decide
      pieces := ⟨sampleData.toList, [], by decide, by decide, by decide,
        fun _ h => absurd h List.not_mem_nil⟩ }

end WebSSH.HostKeys
