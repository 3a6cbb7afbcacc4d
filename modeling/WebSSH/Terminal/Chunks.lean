import WebSSH.Terminal.Output

/-!
# Output and packet boundaries

Each result of `channel.recv` is decoded and filtered on its own. What the session records depends
on where the stream is cut unless no character takes two bytes and no sequence of device attributes
fits into one result.
-/

namespace WebSSH.Terminal
open Lib Python Utf8

/-- The most that one `channel.recv` returns. -/
def recvSize : Nat := 32768

/-- The results of `channel.recv` that make up a stream. -/
structure Chunks (stream : Bytes) (chunks : List Bytes) : Prop where
  flatten : chunks.flatten = stream
  sizes : ∀ data ∈ chunks, data ≠ [] ∧ data.length ≤ recvSize

/-- The texts that `record_output` is called with, put together. -/
def recorded (s : Session) (chunks : List Bytes) : List Char :=
  (readSshOutput s chunks).1.flatMap (·.data.toList)

/-- The bytes of one sequence of device attributes. -/
def IsDeviceAttributes (bytes : Bytes) : Prop :=
  matchDeviceAttributes (bytes.map byteChar) = some bytes.length

/-- No byte continues the one before it, and no sequence of device attributes fits into one
result. -/
structure Indivisible (stream : Bytes) : Prop where
  apart : stream.IsChain fun x y => ¬ Joins x y
  unfiltered : ∀ bytes, bytes <:+: stream → bytes.length ≤ recvSize → ¬ IsDeviceAttributes bytes

variable {stream : Bytes} {chunks : List Bytes} {s : Session}

def chunkText (data : Bytes) : List Char := subFrom 0 (decodeFrom none data)

theorem recordOutput_connected (hs : s.connected = true) (text : String) :
    ∃ sequence s', recordOutput s text = (some sequence, s') ∧ s'.connected = true := by
  refine ⟨s.outputSequence + 1, (recordOutput s text).2, ?_, ?_⟩ <;> simp [recordOutput, hs]

theorem recorded_eq (hs : s.connected = true) (hchunks : ∀ data ∈ chunks, data ≠ []) :
    recorded s chunks = chunks.flatMap chunkText := by
  induction chunks generalizing s with
  | nil => rfl
  | cons data rest ih =>
    obtain ⟨hdata, hrest⟩ := List.forall_mem_cons.mp hchunks
    rw [List.flatMap_cons]
    have htext : (removeDeviceAttributes (decodeReplace data)).toList = chunkText data := by
      simp [removeDeviceAttributes, decodeReplace, chunkText]
    simp only [recorded, readSshOutput, if_neg hdata]
    split
    · rename_i hempty
      rw [hempty] at htext
      rw [← htext, ← ih hs hrest]
      rfl
    · obtain ⟨sequence, s', hrecord, hs'⟩ :=
        recordOutput_connected hs (removeDeviceAttributes (decodeReplace data))
      rw [hrecord, ← htext, ← ih hs' hrest]
      rfl

/-! ## Streams that can be cut anywhere -/

theorem chunkText_of_indivisible {data : Bytes} (H : Indivisible stream) (hdata : data <:+: stream)
    (hsize : data.length ≤ recvSize) : chunkText data = data.map byteChar := by
  have hdecode : decodeFrom none data = data.map byteChar :=
    decodeFrom_not_joined <| List.IsChain.infix H.apart hdata
  rw [chunkText, hdecode]
  refine subFrom_eq_self ?_
  rintro ⟨rest, n, ⟨pre, hpre⟩, hm⟩
  obtain ⟨before, after, rfl, rfl, rfl⟩ := List.map_eq_append_iff.mp hpre.symm
  have hn := (matchDeviceAttributes_le hm).2
  rw [List.length_map] at hn
  have htake : (after.take n).length = n := by simp [hn]
  have hpart : after.take n <:+: before ++ after :=
    ⟨before, after.drop n, by rw [List.append_assoc, List.take_append_drop]⟩
  refine H.unfiltered _ (hpart.trans hdata) ?_ ?_
  · exact hpart.length_le.trans hsize
  · rw [IsDeviceAttributes, List.map_take, htake]
    exact matchDeviceAttributes_take hm

theorem recorded_of_indivisible (H : Indivisible stream) (hs : s.connected = true)
    (hchunks : Chunks stream chunks) : recorded s chunks = stream.map byteChar := by
  rw [recorded_eq hs fun data hdata => (hchunks.sizes data hdata).1, ← hchunks.flatten,
    List.map_flatten, ← List.flatMap_def]
  refine List.flatMap_congr fun data hdata => ?_
  refine chunkText_of_indivisible H ?_ (hchunks.sizes data hdata).2
  rw [← hchunks.flatten]
  exact List.infix_of_mem_flatten hdata

/-! ## Streams that cannot -/

/-- The stream cut into single bytes, but for one result. -/
def cutAround (before data after : Bytes) : List Bytes :=
  before.map ([·]) ++ data :: after.map ([·])

theorem chunkText_single (b : UInt8) : chunkText [b] = [byteChar b] := by
  have hdecode : decodeFrom none [b] = [b].map byteChar := decodeFrom_not_joined (.singleton b)
  rw [chunkText, hdecode]
  exact subFrom_eq_self (not_hasDeviceAttributes (by simp))

theorem flatMap_single (bytes : Bytes) :
    (bytes.map ([·])).flatMap chunkText = bytes.map byteChar := by
  induction bytes with
  | nil => rfl
  | cons b bytes ih =>
    rw [List.map_cons, List.flatMap_cons, ih, chunkText_single]
    rfl

theorem flatten_single (bytes : Bytes) : (bytes.map ([·])).flatten = bytes := by
  induction bytes with
  | nil => rfl
  | cons b bytes ih => rw [List.map_cons, List.flatten_cons, ih]; rfl

theorem chunks_cutAround {before data after : Bytes} (hne : data ≠ [])
    (hsize : data.length ≤ recvSize) :
    Chunks (before ++ data ++ after) (cutAround before data after) := by
  refine ⟨by simp [cutAround, flatten_single], fun d hd => ?_⟩
  simp only [cutAround, List.mem_append, List.mem_cons, List.mem_map] at hd
  rcases hd with ⟨b, _, rfl⟩ | rfl | ⟨b, _, rfl⟩
  · exact ⟨nofun, by simp [recvSize]⟩
  · exact ⟨hne, hsize⟩
  · exact ⟨nofun, by simp [recvSize]⟩

/-- A result that decodes to fewer characters than bytes makes the cuts differ. -/
theorem recorded_ne (hs : s.connected = true) {before data after : Bytes} (hne : data ≠ [])
    (hshort : (chunkText data).length < data.length) :
    recorded s (cutAround before data after) ≠
      recorded s ((before ++ data ++ after).map ([·])) := by
  intro h
  have hsingle : ∀ (bytes : Bytes), ∀ d ∈ bytes.map ([·]), d ≠ [] := by
    intro bytes d hd
    obtain ⟨b, _, rfl⟩ := List.mem_map.mp hd
    nofun
  have haround : ∀ d ∈ cutAround before data after, d ≠ [] := by
    intro d hd
    rcases List.mem_append.mp hd with hd | hd
    · exact hsingle _ d hd
    · rcases List.mem_cons.mp hd with rfl | hd
      · exact hne
      · exact hsingle _ d hd
  rw [recorded_eq hs haround, recorded_eq hs (hsingle _), flatMap_single] at h
  have hlength := congrArg List.length h
  simp only [cutAround, List.flatMap_append, List.flatMap_cons, flatMap_single, List.length_append,
    List.length_map] at hlength
  omega

theorem exists_joined (h : ¬ stream.IsChain fun x y => ¬ Joins x y) :
    ∃ before x y after, stream = before ++ [x, y] ++ after ∧ Joins x y := by
  induction stream with
  | nil => exact absurd .nil h
  | cons x rest ih =>
    cases rest with
    | nil => exact absurd (.singleton x) h
    | cons y rest =>
      by_cases hxy : Joins x y
      · exact ⟨[], x, y, rest, rfl, hxy⟩
      · obtain ⟨before, x', y', after, heq, hjoins⟩ :=
          ih fun hrest => h (List.isChain_cons_cons.mpr ⟨hxy, hrest⟩)
        exact ⟨x :: before, x', y', after, by rw [heq]; rfl, hjoins⟩

theorem chunks_single (stream : Bytes) : Chunks stream (stream.map ([·])) := by
  refine ⟨flatten_single stream, fun d hd => ?_⟩
  obtain ⟨b, _, rfl⟩ := List.mem_map.mp hd
  exact ⟨nofun, by simp [recvSize]⟩

theorem indivisible_of_recorded (hs : s.connected = true)
    (h : ∀ c₁ c₂, Chunks stream c₁ → Chunks stream c₂ → recorded s c₁ = recorded s c₂) :
    Indivisible stream := by
  have hshort : ∀ before data after, stream = before ++ data ++ after → data ≠ [] →
      data.length ≤ recvSize → ¬ (chunkText data).length < data.length := by
    rintro before data after rfl hne hsize hlt
    exact recorded_ne hs hne hlt (h _ _ (chunks_cutAround hne hsize) (chunks_single _))
  have happart : stream.IsChain fun x y => ¬ Joins x y := by
    by_contra hchain
    obtain ⟨before, x, y, after, heq, hjoins⟩ := exists_joined hchain
    refine hshort before [x, y] after heq nofun (by simp [recvSize]) ?_
    have hone := decodeFrom_joined hjoins
    rw [chunkText, subFrom_eq_self (not_hasDeviceAttributes (by omega)), hone]
    exact Nat.one_lt_two
  refine ⟨happart, fun bytes hpart hsize hattributes => ?_⟩
  obtain ⟨before, after, heq⟩ := hpart
  have hne : bytes ≠ [] := by
    rintro rfl
    cases hattributes
  refine hshort before bytes after heq.symm hne hsize ?_
  have hdecode : decodeFrom none bytes = bytes.map byteChar :=
    decodeFrom_not_joined <| List.IsChain.infix happart ⟨before, after, heq⟩
  rw [chunkText, hdecode, subFrom_of_match (by rw [List.length_map]; exact hattributes)]
  exact List.length_pos_of_ne_nil hne

/-- What a session records is the same for all cuts of a stream, and the stream's text when it has
one, exactly when the stream is indivisible. -/
theorem recorded_independent_iff (stream : Bytes) :
    ((∀ s s' : Session, s.connected = true → s'.connected = true → ∀ c₁ c₂, Chunks stream c₁ →
        Chunks stream c₂ → recorded s c₁ = recorded s' c₂) ∧
      ∀ text, encode text = stream → ¬ HasDeviceAttributes text.toList →
        ∀ s : Session, s.connected = true → ∀ chunks, Chunks stream chunks →
          recorded s chunks = text.toList) ↔
    Indivisible stream := by
  constructor
  · rintro ⟨h, -⟩
    let s : Session := ⟨true, 0, [], 0, 512000⟩
    exact indivisible_of_recorded (s := s) rfl (h s s rfl rfl)
  · intro H
    refine ⟨fun s s' hs hs' c₁ c₂ h₁ h₂ => ?_, fun text htext _ s hs chunks hchunks => ?_⟩
    · rw [recorded_of_indivisible H hs h₁, recorded_of_indivisible H hs' h₂]
    · have hdecode := decodeReplace_encode text
      rw [recorded_of_indivisible H hs hchunks, ← decodeFrom_not_joined H.apart, ← htext]
      rw [decodeReplace] at hdecode
      rw [← String.toList_ofList (l := decodeFrom none (encode text)), hdecode]

/-- The two bytes of `é` in one packet and in two. -/
theorem recorded_depends_on_cut : ∃ s : Session, s.connected = true ∧
    encode "é" = [0xC3, 0xA9] ∧ Chunks [0xC3, 0xA9] [[0xC3, 0xA9]] ∧
    Chunks [0xC3, 0xA9] [[0xC3], [0xA9]] ∧
    recorded s [[0xC3, 0xA9]] = ['é'] ∧ recorded s [[0xC3], [0xA9]] = ['\uFFFD', '\uFFFD'] := by
  refine ⟨⟨true, 0, [], 0, 512000⟩, rfl, by decide, ⟨rfl, ?_⟩, ⟨rfl, ?_⟩, by decide,
    by decide⟩
  · simp [recvSize]
  · simp [recvSize]

end WebSSH.Terminal
