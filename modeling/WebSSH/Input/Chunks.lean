import WebSSH.Lib.Utf8

/-!
# Chunks of SSH input

`byteChunks` of `ssh-input.js`. A long value is cut where its UTF-8 encoding allows, and each chunk is
decoded on its own, by a decoder that takes a byte order mark at the start for no character.
-/

namespace WebSSH.SSHInput
open Lib Python

/-- `(byte & 0xc0) === 0x80` -/
def isContinuation (byte : UInt8) : Bool := byte &&& 0xc0 = 0x80

/-- The loop that moves `end` back to the start of a character. -/
def charStart (bytes : Bytes) : Nat → Nat
  | 0 => 0
  | stop + 1 =>
    if (bytes[stop + 1]?).any isContinuation then charStart bytes stop else stop + 1

/-- The characters without a byte order mark at their start. -/
def dropMark : List Char → List Char
  | '\uFEFF' :: rest => rest
  | chars => chars

/-- `decoder.decode`, of a decoder that is fatal and does not ignore the byte order mark. -/
def decoderDecode (bytes : Bytes) : Option String :=
  (decode bytes).map fun text => String.ofList (dropMark text.toList)

/-- The loop of `byteChunks`, with more turns than there are bytes. -/
def byteChunksFrom (bytes : Bytes) (maxBytes : Nat) : Nat → Nat → Option (List String)
  | 0, _ => none
  | turns + 1, offset =>
    if bytes.length ≤ offset then some []
    else
      let stop := charStart bytes (min (offset + maxBytes) bytes.length)
      if stop ≤ offset then none
      else do
        let chunk ← decoderDecode ((bytes.take stop).drop offset)
        let rest ← byteChunksFrom bytes maxBytes turns stop
        some (chunk :: rest)

/-- `none` is an error that is thrown. -/
def byteChunks (value : String) (maxBytes : Nat) : Option (List String) :=
  let bytes := encode value
  if bytes.length ≤ maxBytes then some [value]
  else byteChunksFrom bytes maxBytes (bytes.length + 1) 0

/-! ## Whole characters -/

/-- The characters in pieces of at most `maxBytes` bytes; `piece` is the current one. -/
def packFrom (maxBytes : Nat) (piece : List Char) : List Char → List (List Char)
  | [] => if piece = [] then [] else [piece]
  | c :: rest =>
    if (Utf8.encodeChars (piece ++ [c])).length ≤ maxBytes then packFrom maxBytes (piece ++ [c]) rest
    else piece :: packFrom maxBytes [c] rest

def pack (maxBytes : Nat) (chars : List Char) : List (List Char) := packFrom maxBytes [] chars

variable {maxBytes : Nat} {pre piece rest : List Char} {bytes : Bytes}

theorem length_encodeChars_singleton_le (c : Char) : (Utf8.encodeChars [c]).length ≤ 4 := by
  rw [Utf8.encodeChars_cons, Utf8.encodeChars_nil, List.append_nil]
  exact Utf8.length_utf8EncodeChar_le c

/-- The first piece of what is left. -/
structure FirstPiece (maxBytes : Nat) (chars piece rest : List Char) : Prop where
  split : chars = piece ++ rest
  nonempty : piece ≠ []
  fits : (Utf8.encodeChars piece).length ≤ maxBytes
  full : ∀ c ∈ rest.head?, maxBytes < (Utf8.encodeChars (piece ++ [c])).length

theorem packFrom_eq (h : 4 ≤ maxBytes) (hne : piece ≠ [])
    (hfits : (Utf8.encodeChars piece).length ≤ maxBytes) (chars : List Char) :
    ∃ first rest, packFrom maxBytes piece chars = first :: pack maxBytes rest ∧
      FirstPiece maxBytes (piece ++ chars) first rest := by
  induction chars generalizing piece with
  | nil =>
    refine ⟨piece, [], by simp [packFrom, pack, hne], rfl, hne, hfits, nofun⟩
  | cons c chars ih =>
    rw [packFrom]
    split
    · rename_i hlonger
      obtain ⟨first, rest, hpack, hfirst⟩ := ih (by simp) hlonger
      exact ⟨first, rest, hpack, by rwa [List.append_assoc] at hfirst⟩
    · rename_i hfull
      refine ⟨piece, c :: chars, ?_, rfl, hne, hfits, ?_⟩
      · rw [pack, packFrom, List.nil_append,
          if_pos ((length_encodeChars_singleton_le c).trans h)]
      · rintro _ ⟨⟩
        exact not_le.mp hfull

theorem pack_eq (h : 4 ≤ maxBytes) {chars : List Char} (hne : chars ≠ []) :
    ∃ first rest, pack maxBytes chars = first :: pack maxBytes rest ∧
      FirstPiece maxBytes chars first rest := by
  cases chars with
  | nil => exact absurd rfl hne
  | cons c chars =>
    have hc := (length_encodeChars_singleton_le c).trans h
    obtain ⟨first, rest, hpack, hfirst⟩ := packFrom_eq h (List.cons_ne_nil c []) hc chars
    refine ⟨first, rest, ?_, hfirst⟩
    rw [pack, packFrom, List.nil_append, if_pos hc, hpack]

theorem isContinuation_iff (b : UInt8) : isContinuation b = true ↔ Utf8.Continues b := by
  have hbits : ∀ n < 256, n &&& 0xc0 = 0x80 ↔ 0x80 ≤ n ∧ n < 0xC0 := by
    decide +kernel
  unfold isContinuation Utf8.Continues
  rw [decide_eq_true_iff, ← UInt8.toNat_inj, UInt8.toNat_and]
  exact hbits b.toNat b.toNat_lt

/-- The loop stops at the start of a character when all bytes after it are continuation bytes. -/
theorem charStart_eq {start stop : Nat} (hle : start ≤ stop)
    (hstart : (bytes[start]?).any isContinuation = false)
    (hafter : ∀ k, start < k → k ≤ stop → (bytes[k]?).any isContinuation = true) :
    charStart bytes stop = start := by
  induction stop with
  | zero => exact (Nat.le_zero.mp hle).symm
  | succ stop ih =>
    rw [charStart]
    rcases Nat.lt_or_eq_of_le hle with hlt | rfl
    · rw [if_pos (hafter _ hlt (le_refl _))]
      exact ih (Nat.lt_succ_iff.mp hlt) fun k hk hks => hafter k hk (hks.trans (Nat.le_succ _))
    · rw [if_neg (by rw [hstart]; exact Bool.false_ne_true)]

/-- The next cut is after the first piece of what is left. -/
theorem charStart_encodeChars {chars : List Char} (H : FirstPiece maxBytes chars piece rest) :
    charStart (Utf8.encodeChars (pre ++ chars))
      (min ((Utf8.encodeChars pre).length + maxBytes) (Utf8.encodeChars (pre ++ chars)).length) =
        (Utf8.encodeChars (pre ++ piece)).length := by
  have hfits := H.fits
  rw [H.split, ← List.append_assoc]
  cases rest with
  | nil =>
    rw [List.append_nil]
    refine charStart_eq ?_ ?_ fun k hk hks => ?_
    · rw [Utf8.encodeChars_append, List.length_append]
      omega
    · rw [List.getElem?_eq_none (Nat.le_refl _)]
      rfl
    · rw [Utf8.encodeChars_append, List.length_append] at hk hks
      omega
  | cons c rest =>
    have hfull := H.full c rfl
    have hc := Utf8.length_utf8EncodeChar_pos c
    have hbyte (k : Nat) (hk : k < (String.utf8EncodeChar c).length) :
        ((Utf8.encodeChars (pre ++ piece ++ c :: rest))[(Utf8.encodeChars (pre ++ piece)).length + k]?).any
          isContinuation = true ↔ k ≠ 0 := by
      cases hget : (Utf8.encodeChars (pre ++ piece ++ c :: rest))[
          (Utf8.encodeChars (pre ++ piece)).length + k]? with
      | none =>
        have hlen := List.getElem?_eq_none_iff.mp hget
        rw [Utf8.encodeChars_append (pre ++ piece), Utf8.encodeChars_cons, List.length_append,
          List.length_append] at hlen
        omega
      | some b =>
        rw [Option.any_some, isContinuation_iff]
        exact Utf8.continues_encodeChars hk hget
    have hpiece : (Utf8.encodeChars (piece ++ [c])).length =
        (Utf8.encodeChars piece).length + (String.utf8EncodeChar c).length := by
      rw [Utf8.encodeChars_append, List.length_append, Utf8.encodeChars_cons, Utf8.encodeChars_nil,
        List.append_nil]
    have hlength : (Utf8.encodeChars (pre ++ piece)).length =
        (Utf8.encodeChars pre).length + (Utf8.encodeChars piece).length := by
      rw [Utf8.encodeChars_append, List.length_append]
    have htotal : (Utf8.encodeChars (pre ++ piece ++ c :: rest)).length =
        (Utf8.encodeChars (pre ++ piece)).length + (String.utf8EncodeChar c).length +
          (Utf8.encodeChars rest).length := by
      rw [Utf8.encodeChars_append (pre ++ piece), Utf8.encodeChars_cons, List.length_append,
        List.length_append, Nat.add_assoc]
    refine charStart_eq (by omega) ?_ fun k hk hks => ?_
    · exact Bool.eq_false_iff.mpr fun h => (hbyte 0 hc).mp h rfl
    · obtain ⟨j, rfl⟩ := Nat.exists_eq_add_of_lt hk
      exact (hbyte (j + 1) (by omega)).mpr (Nat.succ_ne_zero j)

/-- The loop cuts the value into the pieces, and decodes each. -/
theorem byteChunksFrom_eq (h : 4 ≤ maxBytes) {turns : Nat}
    (hturns : (Utf8.encodeChars rest).length < turns) :
    byteChunksFrom (Utf8.encodeChars (pre ++ rest)) maxBytes turns (Utf8.encodeChars pre).length =
      some ((pack maxBytes rest).map fun piece => String.ofList (dropMark piece)) := by
  induction turns generalizing pre rest with
  | zero => exact absurd hturns (Nat.not_lt_zero _)
  | succ turns ih =>
    rw [byteChunksFrom]
    by_cases hrest : rest = []
    · subst hrest
      rw [List.append_nil, if_pos (Nat.le_refl _)]
      rfl
    · obtain ⟨piece, rest', hpack, H⟩ := pack_eq h hrest
      have hpos : 0 < (Utf8.encodeChars piece).length := by
        obtain ⟨c, piece', rfl⟩ := List.exists_cons_of_ne_nil H.nonempty
        have hc := Utf8.length_utf8EncodeChar_pos c
        rw [Utf8.encodeChars_cons, List.length_append]
        omega
      have hsplit : Utf8.encodeChars (pre ++ rest) =
          Utf8.encodeChars pre ++ (Utf8.encodeChars piece ++ Utf8.encodeChars rest') := by
        rw [H.split, Utf8.encodeChars_append, Utf8.encodeChars_append]
      have hlength : (Utf8.encodeChars (pre ++ piece)).length =
          (Utf8.encodeChars pre).length + (Utf8.encodeChars piece).length := by
        rw [Utf8.encodeChars_append, List.length_append]
      have hchunk : ((Utf8.encodeChars (pre ++ rest)).take (Utf8.encodeChars (pre ++ piece)).length).drop
          (Utf8.encodeChars pre).length = Utf8.encodeChars piece := by
        rw [hsplit, hlength, List.take_length_add_append, List.drop_left, List.take_left]
      have hrest' : (Utf8.encodeChars rest').length < turns := by
        rw [H.split, Utf8.encodeChars_append, List.length_append] at hturns
        omega
      have hnext := @ih (pre ++ piece) rest' hrest'
      rw [List.append_assoc, ← H.split] at hnext
      rw [if_neg (by rw [hsplit, List.length_append, List.length_append]; omega),
        charStart_encodeChars H]
      dsimp only
      rw [if_neg (by omega), hchunk, decoderDecode, Utf8.decode_encodeChars, hnext, hpack]
      simp

/-! ## The chunks and the value -/

/-- The chunks are within the limit, and together they are the value. -/
def Lossless (value : String) (maxBytes : Nat) (chunks : List String) : Prop :=
  (∀ chunk ∈ chunks, (encode chunk).length ≤ maxBytes) ∧ String.join chunks = value

theorem flatten_pack (h : 4 ≤ maxBytes) (chars : List Char) :
    (pack maxBytes chars).flatten = chars ∧
      ∀ piece ∈ pack maxBytes chars, (Utf8.encodeChars piece).length ≤ maxBytes := by
  induction hn : chars.length using Nat.strong_induction_on generalizing chars with
  | _ n ih =>
    by_cases hne : chars = []
    · subst hne
      exact ⟨rfl, fun _ hp => absurd hp List.not_mem_nil⟩
    · obtain ⟨piece, rest, hpack, H⟩ := pack_eq h hne
      have hpos := List.length_pos_of_ne_nil H.nonempty
      have hlen := congrArg List.length H.split
      rw [List.length_append] at hlen
      obtain ⟨hflatten, hfits⟩ := ih rest.length (by omega) rest rfl
      rw [hpack, List.flatten_cons, hflatten, ← H.split]
      exact ⟨rfl, List.forall_mem_cons.mpr ⟨H.fits, hfits⟩⟩

theorem dropMark_suffix (chars : List Char) : dropMark chars <:+ chars := by
  unfold dropMark
  split
  · exact List.suffix_cons _ _
  · exact List.suffix_refl _

theorem dropMark_eq_self {chars : List Char} : dropMark chars = chars ↔ chars.head? ≠ some '\uFEFF' := by
  unfold dropMark
  split
  · rename_i rest
    refine iff_of_false (fun h => ?_) fun h => h rfl
    have hlen := congrArg List.length h
    simp at hlen
  · rename_i hmark
    refine iff_of_true rfl fun h => ?_
    obtain ⟨rest, rfl⟩ := List.head?_eq_some_iff.mp h
    exact hmark rest rfl

/-- Nothing is left out only where no piece begins with a mark. -/
theorem flatMap_dropMark (pieces : List (List Char)) :
    pieces.flatMap dropMark = pieces.flatten ↔ ∀ piece ∈ pieces, piece.head? ≠ some '\uFEFF' := by
  have hle : ∀ pieces : List (List Char),
      (pieces.flatMap dropMark).length ≤ pieces.flatten.length := by
    intro pieces
    induction pieces with
    | nil => exact Nat.le_refl _
    | cons piece pieces ih =>
      have hpiece := (dropMark_suffix piece).length_le
      rw [List.flatMap_cons, List.flatten_cons, List.length_append, List.length_append]
      omega
  induction pieces with
  | nil => exact iff_of_true rfl fun _ h => absurd h List.not_mem_nil
  | cons piece pieces ih =>
    rw [List.flatMap_cons, List.flatten_cons, List.forall_mem_cons, ← dropMark_eq_self]
    refine Iff.trans ?_ (and_congr_right fun _ => ih)
    constructor
    · intro h
      have hlen := congrArg List.length h
      rw [List.length_append, List.length_append] at hlen
      have hrest := hle pieces
      have hpiece := (dropMark_suffix piece).length_le
      exact List.append_inj h (by omega)
    · rintro ⟨hpiece, hrest⟩
      rw [hpiece, hrest]

theorem join_map_ofList (pieces : List (List Char)) :
    String.join (pieces.map String.ofList) = String.ofList pieces.flatten := by
  induction pieces with
  | nil => rfl
  | cons piece pieces ih => rw [List.map_cons, String.join_cons, ih, List.flatten_cons, String.ofList_append]

/-- The value is cut without an error, and comes back where no piece of it begins with a mark. -/
theorem byteChunks_lossless_iff (value : String) (h : 4 ≤ maxBytes) :
    (∃ chunks, byteChunks value maxBytes = some chunks ∧ Lossless value maxBytes chunks) ↔
      (encode value).length ≤ maxBytes ∨
        ∀ piece ∈ pack maxBytes value.toList, piece.head? ≠ some '\uFEFF' := by
  unfold byteChunks
  dsimp only
  split
  · rename_i hshort
    refine iff_of_true ⟨[value], rfl, fun chunk hchunk => ?_, by simp⟩ (.inl hshort)
    rw [List.mem_singleton.mp hchunk]
    exact hshort
  · rename_i hlong
    have hchunks := @byteChunksFrom_eq maxBytes [] value.toList h _ (Nat.lt_succ_self _)
    rw [List.nil_append, Utf8.encodeChars_nil, List.length_nil, ← Utf8.encode_toList] at hchunks
    obtain ⟨hflatten, hfits⟩ := flatten_pack h value.toList
    have hjoin : String.join ((pack maxBytes value.toList).map fun piece =>
        String.ofList (dropMark piece)) =
          String.ofList ((pack maxBytes value.toList).flatMap dropMark) := by
      have hmap : (pack maxBytes value.toList).map (fun piece => String.ofList (dropMark piece)) =
          ((pack maxBytes value.toList).map dropMark).map String.ofList := by
        rw [List.map_map]
        rfl
      rw [hmap, join_map_ofList]
      rfl
    have hsmall : ∀ chunk ∈ (pack maxBytes value.toList).map fun piece =>
        String.ofList (dropMark piece), (encode chunk).length ≤ maxBytes := by
      intro chunk hchunk
      obtain ⟨piece, hpiece, rfl⟩ := List.mem_map.mp hchunk
      obtain ⟨front, hfront⟩ := dropMark_suffix piece
      have hle := hfits piece hpiece
      rw [← hfront, Utf8.encodeChars_append, List.length_append] at hle
      rw [Utf8.encode_toList, String.toList_ofList]
      omega
    rw [hchunks, or_iff_right hlong, ← flatMap_dropMark, hflatten]
    constructor
    · rintro ⟨_, ⟨⟩, -, hjoined⟩
      rw [hjoin] at hjoined
      have hlist := congrArg String.toList hjoined
      rwa [String.toList_ofList] at hlist
    · intro hjoined
      refine ⟨_, rfl, hsmall, ?_⟩
      rw [hjoin, hjoined, String.ofList_toList]

/-- A paste of eight emoji bytes, and one in which a mark comes to stand first. -/
theorem byteChunks_lossless_emoji : ∃ chunks, byteChunks "a😀é" 4 = some chunks ∧
    Lossless "a😀é" 4 chunks :=
  (byteChunks_lossless_iff "a😀é" (by decide)).mpr (.inr (by decide))

theorem byteChunks_loses_mark :
    byteChunks "abcd\uFEFF" 4 = some ["abcd", ""] ∧
      ¬∃ chunks, byteChunks "abcd\uFEFF" 4 = some chunks ∧ Lossless "abcd\uFEFF" 4 chunks := by
  have hchunks : byteChunks "abcd\uFEFF" 4 = some ["abcd", ""] := by decide
  refine ⟨hchunks, ?_⟩
  rintro ⟨chunks, h, -, hjoined⟩
  rw [hchunks] at h
  cases h
  exact absurd hjoined (by decide)

end WebSSH.SSHInput
