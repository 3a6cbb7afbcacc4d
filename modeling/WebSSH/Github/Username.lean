import Mathlib
import WebSSH.Lib.Python

/-!
# Names of accounts provisioned by GitHub

`_provision_username` of `github_auth_routes.py` builds a name from the GitHub login and falls back
to names with the numeric id when that is taken; `_auto_provision` then has `validate_new_user` of
`auth.py` accept it.
-/

namespace WebSSH.Github
open Lib.Python

/-- What `str` takes from the Unicode tables. -/
structure Unicode where
  lower : String → String
  casefold : String → String
  /-- `str.isalnum()` of one character outside ASCII. -/
  isAlnum : Char → Bool

variable (u : Unicode)

/-! ## The validator -/

/-- `str.isalnum()` -/
def isAlnum (s : List Char) : Bool :=
  s ≠ [] && s.all fun c => if c.toNat < 128 then c.isAlphanum else u.isAlnum c

def maxPasswordLength : Nat := 72

/-- `password_exceeds_bcrypt_limit` -/
def passwordExceedsBcryptLimit (password : String) : Bool :=
  maxPasswordLength < (encode password).length

/-- `candidate.casefold()` is not among the folded names. -/
def free (existing : List String) (name : String) : Bool :=
  !existing.any fun other => u.casefold other = u.casefold name

/-- `validate_new_user`; `existing` are the names of all accounts. -/
def validateNewUser (existing : List String) (username password : String) : Option String :=
  if username = "" ∨ username.length < 3 ∨ 32 < username.length then
    some "Username must be between 3 and 32 characters"
  else if !isAlnum u (username.toList.filter (· ≠ '_')) then
    some "Username can only contain letters, numbers, and underscores"
  else if !free u existing username then some "Username already exists"
  else if password = "" ∨ password.length < 8 then some "Password must be at least 8 characters"
  else if passwordExceedsBcryptLimit password then
    some "Password must not exceed 72 bytes when encoded as UTF-8"
  else none

/-! ## Provisioning -/

/-- `[a-z0-9_]` -/
def isNameChar (c : Char) : Bool := c.isLower || c.isDigit || c = '_'

/-- `_USERNAME_PATTERN.sub('_', ...)`: each run of other characters becomes one underscore;
`inRun` tells that its underscore has been written. -/
def substitute (inRun : Bool) : List Char → List Char
  | [] => []
  | c :: rest =>
    if isNameChar c then c :: substitute false rest
    else if inRun then substitute true rest
    else '_' :: substitute true rest

/-- `.strip('_')` -/
def stripUnderscores (s : List Char) : List Char :=
  ((s.dropWhile (· = '_')).reverse.dropWhile (· = '_')).reverse

/-- `s[:n]` -/
def slice (s : String) (n : Nat) : String := String.ofList (s.toList.take n)

/-- `s[-n:]` -/
def sliceLast (s : String) (n : Nat) : String := String.ofList (s.toList.drop (s.length - n))

/-- The name made of the login, before anything is added to it. -/
def base (login : String) : String :=
  let name := stripUnderscores (substitute false (u.lower login).toList)
  slice (if name = [] then "github" else String.ofList name) 32

/-- The names that are tried first. -/
def candidates (login githubUserId : String) : List String :=
  [base u login,
    slice (slice (base u login) 20 ++ "_gh" ++ sliceLast githubUserId 8) 32,
    slice ("github_" ++ githubUserId) 32]

/-- What `secrets.token_hex(3)` returns. -/
structure Token where
  text : String
  length : text.length = 6
  digits : ∀ c ∈ text.toList, c ∈ "0123456789abcdef".toList

/-- The name with a token that has been drawn. -/
def drawn (githubUserId : String) (token : Token) : String :=
  slice ("gh_" ++ sliceLast githubUserId 8 ++ "_" ++ token.text) 32

/-- The names `_provision_username` can produce with the tokens it draws. -/
def producible (login githubUserId : String) (draws : Fin 8 → Token) : List String :=
  candidates u login githubUserId ++ (List.ofFn draws).map (drawn githubUserId)

/-- `_provision_username` -/
def provisionUsername (existing : List String) (login githubUserId : String)
    (draws : Fin 8 → Token) : Except String String :=
  match (candidates u login githubUserId).find? (free u existing) with
  | some candidate => .ok candidate
  | none =>
    match ((List.ofFn draws).map (drawn githubUserId)).find? (free u existing) with
    | some candidate => .ok candidate
    | none => .error "GitHub account could not be provisioned"

/-- What `secrets.token_urlsafe(48)` returns: 64 characters of one byte each. -/
structure Secret where
  text : String
  length : text.length = 64
  bytes : (encode text).length = 64

/-- `_auto_provision` up to the creation of the account. -/
def autoProvision (existing : List String) (login githubUserId : String) (draws : Fin 8 → Token)
    (localSecret : Secret) : Except String String := do
  let username ← provisionUsername u existing login githubUserId draws
  match validateNewUser u existing username localSecret.text with
  | some _ => .error "GitHub account could not be provisioned"
  | none => .ok username

/-- What `fetch_profile` accepts. -/
structure Profile where
  userId : Nat
  login : String
  positive : 0 < userId
  nonempty : login ≠ ""
  length : login.length ≤ 128

/-! ## The names are made of lower-case letters, digits and underscores -/

/-- A name of the permitted characters that does not begin with an underscore. -/
structure Named (s : List Char) : Prop where
  chars : ∀ c ∈ s, isNameChar c = true
  head : ∃ c rest, s = c :: rest ∧ c ≠ '_'

theorem isNameChar_ascii {c : Char} (h : isNameChar c = true) (hc : c ≠ '_') :
    c.toNat < 128 ∧ c.isAlphanum = true := by
  simp only [isNameChar, Bool.or_eq_true, decide_eq_true_eq, or_assoc] at h
  rcases h with h | h | h
  · refine ⟨?_, by simp [Char.isAlphanum, Char.isAlpha, h]⟩
    simp only [Char.isLower, Bool.and_eq_true, decide_eq_true_eq, ge_iff_le, UInt32.le_iff_toNat_le] at h
    have hle : c.toNat ≤ 122 := h.2
    omega
  · refine ⟨?_, by simp [Char.isAlphanum, h]⟩
    have hle : c.toNat ≤ 57 := (Char.isDigit_iff_toNat.mp h).2
    omega
  · exact absurd h hc

theorem Named.isAlnum {s : List Char} (H : Named s) :
    isAlnum u (s.filter (· ≠ '_')) = true := by
  obtain ⟨c, rest, hs, hne⟩ := H.head
  have hc : c ∈ s := hs ▸ List.mem_cons_self
  simp only [Github.isAlnum, Bool.and_eq_true, decide_eq_true_eq, List.all_eq_true]
  refine ⟨List.ne_nil_of_mem (List.mem_filter.mpr ⟨hc, by simpa using hne⟩), fun d hd => ?_⟩
  obtain ⟨hd, hne⟩ := List.mem_filter.mp hd
  obtain ⟨hascii, halnum⟩ := isNameChar_ascii (H.chars d hd) (by simpa using hne)
  rw [if_pos hascii]
  exact halnum

/-- A free name of the right length is accepted. -/
theorem validate_of_named {existing : List String} {name : String} (secret : Secret)
    (H : Named name.toList) (hlength : 3 ≤ name.length ∧ name.length ≤ 32)
    (hfree : free u existing name = true) :
    validateNewUser u existing name secret.text = none := by
  have hname : ¬ (name = "" ∨ name.length < 3 ∨ 32 < name.length) := by
    rintro (rfl | h | h)
    · exact absurd hlength.1 (by decide)
    · omega
    · omega
  have hpassword : ¬ (secret.text = "" ∨ secret.text.length < 8) := by
    rintro (h | h)
    · have := secret.length
      rw [h] at this
      exact absurd this (by decide)
    · rw [secret.length] at h
      omega
  have hlimit : passwordExceedsBcryptLimit secret.text = false := by
    rw [passwordExceedsBcryptLimit, secret.bytes]
    rfl
  rw [validateNewUser, if_neg hname, H.isAlnum u, hfree, hlimit, if_neg hpassword]
  rfl

theorem substitute_chars {s : List Char} {inRun : Bool} :
    ∀ c ∈ substitute inRun s, isNameChar c = true := by
  induction s generalizing inRun with
  | nil => exact fun c h => absurd h List.not_mem_nil
  | cons d rest ih =>
    intro c hc
    unfold substitute at hc
    split at hc
    · rcases List.mem_cons.mp hc with rfl | hc
      · assumption
      · exact ih c hc
    · split at hc
      · exact ih c hc
      · rcases List.mem_cons.mp hc with rfl | hc
        · rfl
        · exact ih c hc

theorem mem_of_mem_strip {s : List Char} {c : Char} (h : c ∈ stripUnderscores s) : c ∈ s :=
  List.dropWhile_sublist _ |>.subset
    (List.mem_reverse.mp (List.dropWhile_sublist _ |>.subset (List.mem_reverse.mp h)))

/-- What is left of a name begins with another character. -/
theorem strip_head {s : List Char} {c : Char} {rest : List Char}
    (h : stripUnderscores s = c :: rest) : c ≠ '_' := by
  have hprefix : stripUnderscores s <+: s.dropWhile (· = '_') := by
    rw [stripUnderscores, ← List.reverse_suffix, List.reverse_reverse]
    exact List.dropWhile_suffix _
  obtain ⟨t, ht⟩ := hprefix
  rw [h] at ht
  have hhead := List.head?_dropWhile_not (fun c => decide (c = '_')) s
  rw [← ht] at hhead
  simpa using hhead

theorem Named.append {s t : List Char} (H : Named s) (ht : ∀ c ∈ t, isNameChar c = true) :
    Named (s ++ t) := by
  refine ⟨fun c hc => ?_, ?_⟩
  · rcases List.mem_append.mp hc with hc | hc
    · exact H.chars c hc
    · exact ht c hc
  · obtain ⟨c, rest, rfl, hne⟩ := H.head
    exact ⟨c, rest ++ t, rfl, hne⟩

theorem Named.take {s : List Char} (H : Named s) (n : Nat) : Named (s.take (n + 1)) := by
  refine ⟨fun c hc => H.chars c (List.mem_of_mem_take hc), ?_⟩
  obtain ⟨c, rest, rfl, hne⟩ := H.head
  exact ⟨c, rest.take n, rfl, hne⟩

theorem named_base (login : String) : Named (base u login).toList := by
  rw [base, slice, String.toList_ofList]
  refine Named.take ?_ 31
  split
  · exact ⟨by decide, 'g', _, rfl, by decide⟩
  · rename_i hne
    rw [String.toList_ofList]
    refine ⟨fun c hc => substitute_chars c (mem_of_mem_strip hc), ?_⟩
    obtain ⟨c, rest, hname⟩ := List.exists_cons_of_ne_nil hne
    exact ⟨c, rest, hname, strip_head hname⟩

theorem length_slice {s : String} {n : Nat} : (slice s n).length = min n s.length := by
  rw [slice, String.length_ofList, List.length_take, String.length_toList]

theorem base_length_le (login : String) : (base u login).length ≤ 32 := by
  rw [base, length_slice]
  exact Nat.min_le_left _ _

theorem digits_chars {s : String} (h : ∀ c ∈ s.toList, c.isDigit = true) :
    ∀ c ∈ s.toList, isNameChar c = true := fun c hc => by
  simp [isNameChar, h c hc]

theorem digits_sliceLast {s : String} (h : ∀ c ∈ s.toList, c.isDigit = true) (n : Nat) :
    ∀ c ∈ (sliceLast s n).toList, c.isDigit = true := by
  intro c hc
  rw [sliceLast, String.toList_ofList] at hc
  exact h c (List.mem_of_mem_drop hc)

theorem Token.chars (t : Token) : ∀ c ∈ t.text.toList, isNameChar c = true := by
  have hall : ∀ c ∈ "0123456789abcdef".toList, isNameChar c = true := by decide
  exact fun c hc => hall c (t.digits c hc)

/-- A name that is valid when it is free. -/
structure Proper (name : String) : Prop where
  named : Named name.toList
  length : 3 ≤ name.length ∧ name.length ≤ 32

theorem proper_slice {s : String} (H : Named s.toList) (h : 3 ≤ s.length) : Proper (slice s 32) := by
  refine ⟨?_, ?_⟩
  · rw [slice, String.toList_ofList]
    exact H.take 31
  · rw [length_slice]
    omega

/-- Every name that is tried is valid when it is free, but for a login of one or two characters. -/
theorem proper_of_producible {login githubUserId name : String} {draws : Fin 8 → Token}
    (hid : ∀ c ∈ githubUserId.toList, c.isDigit = true)
    (h : name ∈ producible u login githubUserId draws) : name = base u login ∨ Proper name := by
  have hlast := digits_chars (digits_sliceLast hid 8)
  rcases List.mem_append.mp h with h | h
  · simp only [candidates, List.mem_cons, List.not_mem_nil, or_false] at h
    rcases h with rfl | rfl | rfl
    · exact .inl rfl
    · refine .inr (proper_slice ?_ ?_)
      · rw [String.toList_append, String.toList_append]
        refine Named.append (Named.append ?_ (by decide)) hlast
        rw [slice, String.toList_ofList]
        exact (named_base u login).take 19
      · simp only [String.length_append]
        have : "_gh".length = 3 := rfl
        omega
    · refine .inr (proper_slice ?_ ?_)
      · rw [String.toList_append]
        exact Named.append ⟨by decide, 'g', _, rfl, by decide⟩ (digits_chars hid)
      · simp only [String.length_append]
        have : "github_".length = 7 := rfl
        omega
  · obtain ⟨token, -, rfl⟩ := List.mem_map.mp h
    refine .inr (proper_slice ?_ ?_)
    · simp only [String.toList_append]
      refine Named.append (Named.append (Named.append ?_ hlast) (by decide)) token.chars
      exact ⟨by decide, 'g', _, rfl, by decide⟩
    · simp only [String.length_append]
      have : "gh_".length = 3 := rfl
      omega

/-! ## Which accounts are provisioned -/

variable {u}

/-- The name returned is the first of the producible ones that is free. -/
theorem provisionUsername_eq {existing : List String} {login githubUserId : String}
    {draws : Fin 8 → Token} : provisionUsername u existing login githubUserId draws =
      match (producible u login githubUserId draws).find? (free u existing) with
      | some name => .ok name
      | none => .error "GitHub account could not be provisioned" := by
  unfold provisionUsername producible
  rw [List.find?_append]
  cases (candidates u login githubUserId).find? (free u existing) with
  | some name => rfl
  | none => rfl

theorem userId_digits (profile : Profile) :
    ∀ c ∈ (toString profile.userId).toList, c.isDigit = true := by
  intro c hc
  rw [show toString profile.userId = String.ofList (Nat.toDigits 10 profile.userId) from rfl,
    String.toList_ofList] at hc
  exact Nat.isDigit_of_mem_toDigits (by decide) (by decide) hc

theorem validate_of_short {existing : List String} {name password : String} (h : name.length < 3) :
    validateNewUser u existing name password ≠ none := by
  rw [validateNewUser, if_pos (.inr (.inl h))]
  exact nofun

/-- The login is tried first. -/
theorem provision_of_base_free {existing : List String} {login githubUserId : String}
    {draws : Fin 8 → Token} (h : free u existing (base u login) = true) :
    provisionUsername u existing login githubUserId draws = .ok (base u login) := by
  rw [provisionUsername, candidates, List.find?_cons_of_pos h]

/-- A login that is free but too short is returned, and not accepted. -/
theorem not_valid_of_short {existing : List String} {login githubUserId name password : String}
    {draws : Fin 8 → Token} (hshort : (base u login).length < 3)
    (hfree : free u existing (base u login) = true)
    (h : provisionUsername u existing login githubUserId draws = .ok name) :
    validateNewUser u existing name password ≠ none := by
  rw [provision_of_base_free hfree] at h
  rw [← Except.ok.inj h]
  exact validate_of_short hshort

/-- An account is created with the name that is found, exactly if the validator accepts it. -/
theorem autoProvision_eq_ok {existing : List String} {login githubUserId name : String}
    {draws : Fin 8 → Token} {secret : Secret} :
    autoProvision u existing login githubUserId draws secret = .ok name ↔
      provisionUsername u existing login githubUserId draws = .ok name ∧
        validateNewUser u existing name secret.text = none := by
  unfold autoProvision
  cases hname : provisionUsername u existing login githubUserId draws with
  | error message => exact iff_of_false nofun fun h => nomatch h.1
  | ok found =>
    change (match validateNewUser u existing found secret.text with
      | some _ => Except.error _
      | none => .ok found) = .ok name ↔ _
    cases hvalid : validateNewUser u existing found secret.text with
    | some message =>
      refine iff_of_false nofun fun h => ?_
      cases h.1
      rw [hvalid] at h
      exact nomatch h.2
    | none =>
      refine ⟨fun h => ?_, fun h => h.1⟩
      cases h
      exact ⟨rfl, hvalid⟩

/-- A GitHub account is given a name the validator accepts if and only if one of the names that are
tried is free, unless the first of them is, and has less than three characters. -/
theorem provisioned_iff (existing : List String) (profile : Profile) (draws : Fin 8 → Token)
    (secret : Secret) :
    (∃ name, provisionUsername u existing profile.login (toString profile.userId) draws = .ok name ∧
      validateNewUser u existing name secret.text = none) ↔
      (∃ name ∈ producible u profile.login (toString profile.userId) draws,
        free u existing name = true) ∧
      ¬ ((base u profile.login).length < 3 ∧ free u existing (base u profile.login) = true) := by
  constructor
  · rintro ⟨name, hname, hvalid⟩
    refine ⟨?_, ?_⟩
    · rw [provisionUsername_eq] at hname
      split at hname
      · rename_i found hfind
        exact ⟨found, List.mem_of_find?_eq_some hfind, List.find?_some hfind⟩
      · cases hname
    · rintro ⟨hshort, hfree⟩
      exact not_valid_of_short hshort hfree hname hvalid
  · rintro ⟨⟨name, hmem, hfree⟩, hshort⟩
    rw [provisionUsername_eq]
    obtain ⟨found, hfind⟩ := Option.isSome_iff_exists.mp
      (List.find?_isSome.mpr ⟨name, hmem, hfree⟩)
    have hfree := List.find?_some hfind
    have hproper : Proper found := by
      rcases proper_of_producible u (userId_digits profile) (List.mem_of_find?_eq_some hfind)
        with rfl | hproper
      · refine ⟨named_base u _, ?_, base_length_le u _⟩
        by_contra hlength
        exact hshort ⟨by omega, hfree⟩
      · exact hproper
    rw [hfind]
    exact ⟨found, rfl, validate_of_named u secret hproper.named hproper.length hfree⟩

/-- A Unicode table for ASCII. -/
def ascii : Unicode := ⟨String.toLower, String.toLower, fun _ => false⟩

def abProfile : Profile := ⟨583231, "ab", by decide, by decide, by decide⟩

/-- The login `ab` of the first account: the name is too short. -/
theorem provision_too_short :
    ∃ (existing : List String) (profile : Profile) (draws : Fin 8 → Token),
      (∃ name ∈ producible ascii profile.login (toString profile.userId) draws,
        free ascii existing name = true) ∧
      ∀ name, provisionUsername ascii existing profile.login (toString profile.userId) draws =
        .ok name → ∀ password, validateNewUser ascii existing name password ≠ none := by
  have hshort : (base ascii abProfile.login).length < 3 := by decide +kernel
  have hfree : free ascii [] (base ascii abProfile.login) = true := rfl
  refine ⟨[], abProfile, fun _ => ⟨"0a1b2c", by decide, by decide⟩,
    ⟨base ascii abProfile.login, ?_, hfree⟩, fun name hname _ => not_valid_of_short hshort hfree hname⟩
  exact List.mem_append_left _ List.mem_cons_self

end WebSSH.Github
