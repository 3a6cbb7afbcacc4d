import WebSSH.Terminal.Restore

/-!
# Every chunk once, over reconnects

As long as no limit evicts and the filter finds nothing, a restored page shows the chunks up to its
`lastOutputSequences`. What is on its way to a connection is a stretch of the numbered chunks; it
overlaps what the page has or gets with the restored session, and leaves no gap behind it.
-/

namespace WebSSH.Terminal
open Lib Utf16 Sequence

/-! ## Output that has no device attributes -/

theorem matchParameters_append {l : List Char} {n : Nat} (h : matchParameters l = some n)
    (more : List Char) : matchParameters (l ++ more) = some n := by
  induction l generalizing n with
  | nil => cases h
  | cons c l ih =>
    simp only [matchParameters] at h
    rw [List.cons_append, matchParameters]
    split at h
    · rwa [if_pos ‹_›]
    rw [if_neg ‹_›]
    split at h
    · obtain ⟨m, hm, rfl⟩ := Option.map_eq_some_iff.mp h
      rw [if_pos ‹_›, ih hm]
      rfl
    · cases h

theorem matchDeviceAttributes_append {l : List Char} {n : Nat}
    (h : matchDeviceAttributes l = some n) (more : List Char) :
    matchDeviceAttributes (l ++ more) = some n := by
  rcases matchDeviceAttributes_cases h with ⟨mark, rest, m, hmark, rfl, hm, rfl⟩ | ⟨rest, m, rfl, hm, rfl⟩
  · have happend := matchParameters_append hm more
    rcases hmark with rfl | rfl <;> simp [matchDeviceAttributes, happend]
  · exact matchDeviceAttributes_of_parameters (matchParameters_append hm more)

/-- More output does not hide a sequence. -/
theorem HasDeviceAttributes.append {text : List Char} (h : HasDeviceAttributes text)
    (more : List Char) : HasDeviceAttributes (text ++ more) := by
  obtain ⟨rest, n, ⟨pre, rfl⟩, hm⟩ := h
  exact ⟨rest ++ more, n, ⟨pre, by simp⟩, matchDeviceAttributes_append hm more⟩

theorem removeDeviceAttributes_eq_self {text : String} (h : ¬ HasDeviceAttributes text.toList) :
    removeDeviceAttributes text = text := by
  rw [removeDeviceAttributes, subFrom_eq_self h]
  simp

/-! ## The page -/

namespace Page

variable {c : Page} {cs : List Units} {data : Units} {n w : Nat}

/-- What a page keeps is at most what was recorded up to its last sequence. -/
structure Ok (cs : List Units) (c : Page) : Prop where
  last_le : c.lastOutputSequences ≤ cs.length
  transcript : c.transcriptSizes ≤ (cs.take c.lastOutputSequences).flatten.length
  sequencedSize : c.sequencedOutputSizes ≤ (cs.take c.lastOutputSequences).flatten.length
  sequenced : ∀ e ∈ c.sequencedOutput, e.1 ≤ c.lastOutputSequences

theorem Ok.init : init.Ok cs where
  last_le := Nat.zero_le _
  transcript := Nat.zero_le _
  sequencedSize := Nat.zero_le _
  sequenced := nofun

theorem Ok.append (K : c.Ok cs) (more : List Units) : c.Ok (cs ++ more) where
  last_le := K.last_le.trans (by simp)
  transcript := by rw [List.take_append_of_le_length K.last_le]; exact K.transcript
  sequencedSize := by rw [List.take_append_of_le_length K.last_le]; exact K.sequencedSize
  sequenced := K.sequenced

theorem length_take_le (cs : List Units) {k l : Nat} (h : k ≤ l) :
    (cs.take k).flatten.length ≤ (cs.take l).flatten.length :=
  (List.take_sublist_take_left h).flatten.length_le

theorem length_take_succ (hn : cs[n]? = some data) :
    (cs.take (n + 1)).flatten.length = (cs.take n).flatten.length + data.length := by
  simp [List.take_add_one, hn]

theorem evictTranscript_eq_self {l : List Units} {size : Nat} (h : size ≤ maxTranscriptSize) :
    evictTranscript l size = (l, size) := by
  cases l with
  | nil => rfl
  | cons removed rest => rw [evictTranscript, if_neg (Nat.not_lt.mpr h)]

theorem evictSequenced_eq_self {l : List (Nat × Units)} {size : Nat}
    (h : size ≤ maxTranscriptSize) : evictSequenced l size = (l, size) := by
  match l with
  | [] => rfl
  | [_] => rfl
  | removed :: next :: rest => rw [evictSequenced, if_neg (Nat.not_lt.mpr h)]

theorem writeOutput_seen (hseen : n ≤ c.lastOutputSequences) (hpos : 0 < n)
    (hsafe : n ≤ maxSafeInteger) : c.writeOutput data n = c := by
  rw [writeOutput, if_pos ⟨hsafe, hpos⟩, if_pos hseen]

/-- The page with one more event. -/
def push (c : Page) (data : Units) (sequence : Nat) : Page :=
  ⟨c.transcripts ++ [data], c.transcriptSizes + data.length, c.sequencedOutput ++ [(sequence, data)],
    c.sequencedOutputSizes + data.length, sequence⟩

theorem Ok.writeOutput (K : c.Ok cs) (hn : cs[n]? = some data) (hnew : c.lastOutputSequences ≤ n)
    (htotal : cs.flatten.length ≤ maxTranscriptSize) (hsafe : n + 1 ≤ maxSafeInteger) :
    c.writeOutput data (n + 1) = c.push data (n + 1) ∧ (c.push data (n + 1)).Ok cs := by
  have hlt : n < cs.length := (List.getElem?_eq_some_iff.mp hn).1
  have hle := length_take_le cs hnew
  have hsucc := length_take_succ hn
  have hall : (cs.take (n + 1)).flatten.length ≤ cs.flatten.length :=
    (List.take_sublist _ _).flatten.length_le
  have htranscript := K.transcript
  have hsequenced := K.sequencedSize
  have hpush : (c.push data (n + 1)).Ok cs := by
    refine ⟨hlt, ?_, ?_, fun e he => ?_⟩
    · simp only [push]; omega
    · simp only [push]; omega
    · rcases List.mem_append.mp he with he | he
      · exact (K.sequenced e he).trans (hnew.trans (Nat.le_succ n))
      · rw [List.mem_singleton.mp he]
        exact Nat.le_refl _
  refine ⟨?_, hpush⟩
  rw [Page.writeOutput, if_pos ⟨hsafe, Nat.succ_pos n⟩, if_neg (by omega), appendTranscript,
    keepSequenced, evictSequenced_eq_self (by omega), evictTranscript_eq_self (by simp only; omega)]
  rfl

/-- The page after a restore that leaves no gap between the snapshot and the live events. -/
theorem Ok.restoreSession (K : c.Ok cs) (known : Bool) {bufferedOutput : Units}
    (hbuffered : bufferedOutput = (cs.take w).flatten) (hw : w ≤ cs.length)
    (hlive : c.sequencedOutput.filter (w < ·.1) = between cs w c.lastOutputSequences)
    (htotal : cs.flatten.length ≤ maxTranscriptSize) (hsafe : w ≤ maxSafeInteger) :
    (c.restoreSession known bufferedOutput w).Ok cs ∧
    (c.restoreSession known bufferedOutput w).lastOutputSequences = max c.lastOutputSequences w ∧
    (c.restoreSession known bufferedOutput w).getTranscript =
      (cs.take (max c.lastOutputSequences w)).flatten := by
  have hseed : c.restoreSession known bufferedOutput w = c.seedRestoredOutput bufferedOutput w := by
    rw [Page.restoreSession]
    split <;> rfl
  have hmax : max c.lastOutputSequences w ≤ cs.length := max_le K.last_le hw
  have hmerged : bufferedOutput ++ ((c.sequencedOutput.filter (w < ·.1)).map Prod.snd).flatten =
      (cs.take (max c.lastOutputSequences w)).flatten := by
    rw [hbuffered, hlive, ← List.flatten_append]
    rcases Nat.le_total w c.lastOutputSequences with hle | hle
    · rw [take_append_between hle, max_eq_left hle]
    · rw [between_of_le hle, max_eq_right hle]
      simp
  have hall : (cs.take (max c.lastOutputSequences w)).flatten.length ≤ cs.flatten.length :=
    (List.take_sublist _ _).flatten.length_le
  have hslice := sliceLast_eq_self (hall.trans htotal)
  have hlength := congrArg List.length hmerged
  rw [List.length_append] at hlength
  rw [hseed, seedRestoredOutput]
  simp only [hsafe, decide_true, if_true, applyWatermark, hmerged, hslice]
  refine ⟨⟨hmax, le_refl _, by simp only; omega, fun e he => ?_⟩, trivial, ?_⟩
  · exact (K.sequenced e (List.mem_filter.mp he).1).trans (Nat.le_max_left ..)
  · rw [getTranscript]
    split
    · rename_i hempty
      rw [hempty]
      rfl
    · simp

end Page

/-! ## The connections -/

section
variable {s s' : State} {outputBufferMax : Nat}

/-- The output is below all limits and the filter finds nothing in it. -/
structure State.Bounded (s : State) : Prop where
  buffer : (String.join s.chunks).toList.length ≤ s.session.outputBufferMax
  transcript : (encode (String.join s.chunks)).length ≤ maxTranscriptSize
  unfiltered : ¬ HasDeviceAttributes (String.join s.chunks).toList

/-- The chunks in code units. -/
def State.units (s : State) : List Units := s.chunks.map encode

/-- How many chunks the reader has dealt with, as far as the connection is concerned. -/
def Reader.frontier (recorded : Nat) (sid : Nat) : Reader → Nat
  | .recorded _ => recorded - 1
  | .emitting _ left => if sid ∈ left then recorded - 1 else recorded
  | .idle | .stopped => recorded

/-- The chunk the reader is busy with. -/
def Reader.payload : Reader → Option Payload
  | .recorded payload | .emitting payload _ => some payload
  | .idle | .stopped => none

/-- What the page has, by how far its restore is, when the events after the first `a` are still to
be processed. -/
def Restore.Continues (chunks : List String) (c : Page) (a : Nat) : Restore → Prop
  | .joined => True
  | .sent bufferedOutput w =>
    w ≤ chunks.length ∧ bufferedOutput = String.join (chunks.take w) ∧
      a ≤ max c.lastOutputSequences w ∧
      c.sequencedOutput.filter (w < ·.1) = between (chunks.map encode) w c.lastOutputSequences
  | .restored =>
    a ≤ c.lastOutputSequences ∧
      c.getTranscript = ((chunks.map encode).take c.lastOutputSequences).flatten

/-- What is on its way to a connection is a stretch of the chunks that ends where the reader is. -/
def Connection.Ok (s : State) (sid : Nat) (connection : Connection) : Prop :=
  ∃ a m, a ≤ m ∧ m ≤ s.chunks.length ∧
    connection.live.map (fun payload => (payload.sequence, payload.data)) =
      between s.chunks a m ∧
    (connection.disconnected = false → m = s.reader.frontier s.chunks.length sid) ∧
    connection.restore.Continues s.chunks (s.pages connection.page) a

structure Inv (s : State) : Prop where
  connected : s.session.connected = true
  outputSequence : s.session.outputSequence = s.chunks.length
  outputBuffer : s.session.outputBuffer = s.chunks
  outputBufferSize : s.session.outputBufferSize = (String.join s.chunks).toList.length
  nonempty : ∀ chunk ∈ s.chunks, chunk ≠ ""
  payload : ∀ payload, s.reader.payload = some payload → ∃ n, s.chunks.length = n + 1 ∧
    payload.sequence = n + 1 ∧ s.chunks[n]? = some payload.data
  room : ∀ sid < s.nextSid, (s.connections sid).disconnected = false → sid ∈ s.room
  current : ∀ page sid, s.current page = some sid →
    sid < s.nextSid ∧ (s.connections sid).page = page
  pages : ∀ page, (s.pages page).Ok s.units
  ok : ∀ page sid, s.current page = some sid → (s.connections sid).Ok s sid

theorem Inv.init : Inv (.init outputBufferMax) where
  connected := rfl
  outputSequence := rfl
  outputBuffer := rfl
  outputBufferSize := rfl
  nonempty := nofun
  payload := nofun
  room := nofun
  current := nofun
  pages _ := .init
  ok := nofun

theorem length_units : s.units.length = s.chunks.length := List.length_map ..

theorem Inv.frontier_le (sid : Nat) : s.reader.frontier s.chunks.length sid ≤ s.chunks.length := by
  cases s.reader with
  | idle | stopped => exact Nat.le_refl _
  | recorded => exact Nat.sub_le ..
  | emitting _ left =>
    rw [Reader.frontier]
    split
    · exact Nat.sub_le ..
    · exact Nat.le_refl _

/-! ## Limits -/

theorem State.Bounded.units (B : s.Bounded) : s.units.flatten.length ≤ maxTranscriptSize := by
  rw [State.units, ← encode_join]
  exact B.transcript

/-- A state that has recorded less. -/
theorem State.Bounded.earlier (B : s'.Bounded) {more : List String}
    (hchunks : s'.chunks = s.chunks ++ more)
    (hmax : s'.session.outputBufferMax = s.session.outputBufferMax) : s.Bounded := by
  have hjoin : String.join s'.chunks = String.join s.chunks ++ String.join more := by
    rw [hchunks]
    exact String.join_append ..
  refine ⟨?_, ?_, fun hfiltered => B.unfiltered ?_⟩
  · have := B.buffer
    rw [hjoin, String.toList_append, List.length_append, hmax] at this
    omega
  · have := B.transcript
    rw [hjoin, encode_append, List.length_append] at this
    omega
  · rw [hjoin, String.toList_append]
    exact hfiltered.append _

/-- There are not more chunks than code units. -/
theorem Inv.safe (H : Inv s) (B : s.Bounded) : s.chunks.length ≤ maxSafeInteger := by
  have hle : ∀ l : List String, (∀ chunk ∈ l, chunk ≠ "") →
      l.length ≤ (l.map encode).flatten.length := by
    intro l hl
    induction l with
    | nil => exact Nat.zero_le _
    | cons chunk l ih =>
      obtain ⟨hchunk, hl⟩ := List.forall_mem_cons.mp hl
      have := ih hl
      have := length_encode_pos hchunk
      simp only [List.map_cons, List.flatten_cons, List.length_append, List.length_cons]
      omega
  calc s.chunks.length ≤ s.units.flatten.length := hle _ H.nonempty
    _ ≤ maxTranscriptSize := B.units
    _ ≤ maxSafeInteger := by decide

/-! ## The steps of the server -/

theorem evict_eq_self {limit size : Nat} {buf : List String} (h : size ≤ limit) :
    evict limit buf size = (buf, size) := by
  match buf with
  | [] => rfl
  | [_] => rfl
  | removed :: next :: rest => rw [evict, if_neg (Nat.not_lt.mpr h)]

theorem recordOutput_some {session : Session} (hconnected : session.connected = true)
    (data : String) : ∃ session', recordOutput session data =
      (some (session.outputSequence + 1), session') ∧
      session'.outputBufferMax = session.outputBufferMax := by
  refine ⟨(recordOutput session data).2, ?_, ?_⟩ <;> simp [recordOutput, hconnected]

theorem recordOutput_fits {session : Session} (hconnected : session.connected = true)
    {data : String}
    (hfits : session.outputBufferSize + data.toList.length ≤ session.outputBufferMax) :
    recordOutput session data = (some (session.outputSequence + 1),
      { session with
        outputSequence := session.outputSequence + 1
        outputBuffer := session.outputBuffer ++ [data]
        outputBufferSize := session.outputBufferSize + data.toList.length }) := by
  rw [recordOutput, if_neg (by simp [hconnected]), evict_eq_self hfits]

/-- A connection and its page, when the reader has moved on. -/
theorem Connection.Ok.congr {connection : Connection} {sid : Nat} (K : connection.Ok s sid)
    (hchunks : s'.chunks = s.chunks) (hpage : s'.pages connection.page = s.pages connection.page)
    (hfrontier : connection.disconnected = false →
      s'.reader.frontier s.chunks.length sid = s.reader.frontier s.chunks.length sid) :
    connection.Ok s' sid := by
  obtain ⟨a, m, ham, hm, hlive, hreader, hcontinues⟩ := K
  rw [Connection.Ok, hchunks, hpage]
  exact ⟨a, m, ham, hm, hlive, fun hd => (hreader hd).trans (hfrontier hd).symm, hcontinues⟩

theorem Restore.Continues.append {restore : Restore} {c : Page} {a : Nat} {chunks : List String}
    (h : restore.Continues chunks c a) (hlast : c.lastOutputSequences ≤ chunks.length)
    (more : List String) : restore.Continues (chunks ++ more) c a := by
  have hunits : c.lastOutputSequences ≤ (chunks.map encode).length := by simpa using hlast
  cases restore with
  | joined => trivial
  | sent bufferedOutput w =>
    obtain ⟨hw, hbuffered, ha, hevents⟩ := h
    refine ⟨hw.trans (by simp), ?_, ha, ?_⟩
    · rwa [List.take_append_of_le_length hw]
    · rwa [List.map_append, between_append hunits]
  | restored =>
    refine ⟨h.1, ?_⟩
    rw [List.map_append, List.take_append_of_le_length hunits]
    exact h.2

/-- The reader records a chunk. -/
theorem Inv.record (H : Inv s) (B : s'.Bounded) {data : String} (h : s.record data = some s') :
    Inv s' := by
  simp only [State.record] at h
  split at h
  case h_2 => cases h
  rename_i hidle
  split at h
  · cases h
  rename_i hdata
  obtain ⟨session', hsome, hmax⟩ := recordOutput_some H.connected data
  have hs' := h
  rw [hsome] at hs'
  have hchunks : s'.chunks = s.chunks ++ [data] := by cases hs'; rfl
  have hjoin : String.join s'.chunks = String.join s.chunks ++ data := by
    rw [hchunks, String.join_append]
    simp
  have hfits : s.session.outputBufferSize + data.toList.length ≤ s.session.outputBufferMax := by
    have := B.buffer
    rw [hjoin, String.toList_append, List.length_append] at this
    rw [H.outputBufferSize, ← hmax]
    cases hs'
    exact this
  rw [recordOutput_fits H.connected hfits] at h
  cases h
  refine ⟨H.connected, ?_, ?_, ?_, ?_, ?_, H.room, H.current, fun page => ?_,
    fun page sid hcurrent => ?_⟩
  · simp [H.outputSequence]
  · simp [H.outputBuffer]
  · simp only [hjoin, String.toList_append, List.length_append, H.outputBufferSize]
  · intro chunk hmem
    rcases List.mem_append.mp hmem with hmem | hmem
    · exact H.nonempty chunk hmem
    · exact List.mem_singleton.mp hmem ▸ hdata
  · intro payload hpayload
    cases hpayload
    exact ⟨s.chunks.length, by simp, by rw [H.outputSequence], by simp⟩
  · have := (H.pages page).append [encode data]
    rwa [State.units, ← List.map_singleton, ← List.map_append] at this
  · obtain ⟨a, m, ham, hm, hlive, hreader, hcontinues⟩ := H.ok page sid hcurrent
    have hlast := (H.pages (s.connections sid).page).last_le
    rw [length_units] at hlast
    refine ⟨a, m, ham, hm.trans (by simp), ?_, fun hd => ?_, hcontinues.append hlast [data]⟩
    · rw [hlive, between_append hm]
    · rw [hreader hd, hidle]
      simp [Reader.frontier]

theorem Inv.participants (H : Inv s) {payload : Payload} (hr : s.reader = .recorded payload) :
    Inv { s with reader := .emitting payload s.room } := by
  refine ⟨H.connected, H.outputSequence, H.outputBuffer, H.outputBufferSize, H.nonempty,
    fun p hp => H.payload p (by rw [hr]; exact hp), H.room, H.current, H.pages,
    fun page sid hcurrent => (H.ok page sid hcurrent).congr rfl rfl fun hd => ?_⟩
  have hroom := H.room sid (H.current page sid hcurrent).1 hd
  rw [hr]
  exact if_pos hroom

theorem Inv.emitted (H : Inv s) {payload : Payload} (hr : s.reader = .emitting payload []) :
    Inv { s with reader := .idle } := by
  refine ⟨H.connected, H.outputSequence, H.outputBuffer, H.outputBufferSize, H.nonempty, nofun,
    H.room, H.current, H.pages, fun page sid hcurrent =>
      (H.ok page sid hcurrent).congr rfl rfl fun _ => ?_⟩
  rw [hr, Reader.frontier, Reader.frontier, if_neg List.not_mem_nil]

/-- A step that changes one connection, and of the reader only what it owes that connection. -/
theorem Inv.setConnection (H : Inv s) {sid : Nat} {connection : Connection} {reader : Reader}
    (hpayload : ∀ payload, reader.payload = some payload → s.reader.payload = some payload)
    (hreader : ∀ other, other ≠ sid →
      reader.frontier s.chunks.length other = s.reader.frontier s.chunks.length other)
    (hpage : connection.page = (s.connections sid).page)
    (hroom : connection.disconnected = false → (s.connections sid).disconnected = false)
    (hok : ∀ page, s.current page = some sid → connection.Ok { s with reader := reader } sid) :
    Inv { s.setConnection sid connection with reader := reader } := by
  have hother : ∀ other, other ≠ sid →
      (s.setConnection sid connection).connections other = s.connections other :=
    fun other hne => Function.update_of_ne hne ..
  have hself : (s.setConnection sid connection).connections sid = connection :=
    Function.update_self ..
  refine ⟨H.connected, H.outputSequence, H.outputBuffer, H.outputBufferSize, H.nonempty,
    fun payload hp => H.payload payload (hpayload payload hp), fun other hlt hd => ?_,
    fun page other hcurrent => ?_, H.pages, fun page other hcurrent => ?_⟩
  · by_cases heq : other = sid
    · subst other
      exact H.room sid hlt (hroom (hself ▸ hd))
    · exact H.room other hlt (hother other heq ▸ hd)
  · refine ⟨(H.current page other hcurrent).1, ?_⟩
    by_cases heq : other = sid
    · subst other
      exact (congrArg Connection.page hself).trans (hpage.trans (H.current page sid hcurrent).2)
    · exact (congrArg Connection.page (hother other heq)).trans (H.current page other hcurrent).2
  · by_cases heq : other = sid
    · subst other
      refine Eq.mpr (congrArg (Connection.Ok _ sid) hself) ?_
      exact (hok page hcurrent).congr rfl rfl fun _ => rfl
    · refine Eq.mpr (congrArg (Connection.Ok _ other) (hother other heq)) ?_
      exact (H.ok page other hcurrent).congr rfl rfl fun _ => hreader other heq

/-- The reader sends its chunk to one of the participants that are left. -/
theorem Inv.emit (H : Inv s) {sid : Nat} (h : s.emit sid = some s') : Inv s' := by
  simp only [State.emit] at h
  split at h
  case h_2 => cases h
  rename_i payload left hr
  split at h
  case isFalse => cases h
  rename_i hleft
  cases h
  obtain ⟨n, hlength, hsequence, hdata⟩ := H.payload payload (by rw [hr]; rfl)
  have hpayload : ∀ p, (Reader.emitting payload (left.filter (· ≠ sid))).payload = some p →
      s.reader.payload = some p := by
    intro p hp
    rw [hr]
    exact hp
  have hreader : ∀ other, other ≠ sid →
      (Reader.emitting payload (left.filter (· ≠ sid))).frontier s.chunks.length other =
        s.reader.frontier s.chunks.length other := by
    intro other hne
    rw [hr]
    simp [Reader.frontier, hne]
  simp only [State.send]
  split
  · rename_i hd
    have heq : s.setConnection sid (s.connections sid) = s := by
      rw [State.setConnection, Function.update_eq_self]
    have H' := H.setConnection hpayload hreader rfl id fun page hcurrent =>
      (H.ok page sid hcurrent).congr rfl rfl fun hf => by rw [hd] at hf; cases hf
    rwa [heq] at H'
  · rename_i hd
    refine H.setConnection hpayload hreader rfl id fun page hcurrent => ?_
    obtain ⟨a, m, ham, hm, hlive, hfrontier, hcontinues⟩ := H.ok page sid hcurrent
    have hmn : m = n := by
      rw [hfrontier (by simpa using hd), hr]
      simp [Reader.frontier, hleft, hlength]
    subst m
    refine ⟨a, n + 1, by omega, hlength.ge, ?_, fun _ => ?_, hcontinues⟩
    · rw [List.map_append, hlive, between_succ ham hdata, List.map_singleton, hsequence]
    · simp [Reader.frontier, hlength]

theorem Inv.connect (H : Inv s) (page : Nat) : Inv (s.connect page) := by
  have hold : ∀ sid, sid < s.nextSid →
      (s.connect page).connections sid = s.connections sid :=
    fun sid hlt => Function.update_of_ne (Nat.ne_of_lt hlt) ..
  have hnew : (s.connect page).connections s.nextSid = ⟨page, false, [], .joined⟩ :=
    Function.update_self ..
  have hcurrent : ∀ other sid, (s.connect page).current other = some sid →
      other = page ∧ sid = s.nextSid ∨ s.current other = some sid := by
    intro other sid h
    simp only [State.connect] at h
    by_cases heq : other = page
    · subst other
      rw [Function.update_self] at h
      cases h
      exact .inl ⟨rfl, rfl⟩
    · rw [Function.update_of_ne heq] at h
      exact .inr h
  refine ⟨H.connected, H.outputSequence, H.outputBuffer, H.outputBufferSize, H.nonempty, H.payload,
    fun sid hlt hd => ?_, fun other sid h => ?_, H.pages, fun other sid h => ?_⟩
  · rcases Nat.lt_succ_iff_lt_or_eq.mp hlt with hlt | rfl
    · exact List.mem_append_left _ (H.room sid hlt (hold sid hlt ▸ hd))
    · exact List.mem_append_right _ (List.mem_singleton.mpr rfl)
  · rcases hcurrent other sid h with ⟨rfl, rfl⟩ | h
    · exact ⟨Nat.lt_succ_self _, by rw [hnew]⟩
    · have hlt := (H.current other sid h).1
      exact ⟨Nat.lt_succ_of_lt hlt, by rw [hold sid hlt]; exact (H.current other sid h).2⟩
  · rcases hcurrent other sid h with ⟨rfl, rfl⟩ | h
    · rw [hnew]
      refine ⟨s.reader.frontier s.chunks.length s.nextSid, _, Nat.le_refl _, Inv.frontier_le _, ?_,
        fun _ => rfl, trivial⟩
      rw [between_of_le (Nat.le_refl _)]
      rfl
    · rw [hold sid (H.current other sid h).1]
      exact (H.ok other sid h).congr rfl rfl fun _ => rfl

/-- The snapshot holds everything that was recorded. -/
theorem Inv.restore (H : Inv s) (B : s.Bounded) {sid : Nat} (h : s.restore sid = some s') :
    Inv s' := by
  simp only [State.restore] at h
  split at h
  case isFalse => cases h
  rename_i hjoined
  cases h
  refine H.setConnection (fun _ => id) (fun _ _ => rfl) rfl id fun page hcurrent => ?_
  obtain ⟨a, m, ham, hm, hlive, hfrontier, -⟩ := H.ok page sid hcurrent
  have K := H.pages (s.connections sid).page
  have hlast := K.last_le
  rw [length_units] at hlast
  refine ⟨a, m, ham, hm, hlive, hfrontier, ?_⟩
  simp only [getOutputSnapshot, H.outputBuffer, H.outputSequence]
  refine ⟨Nat.le_refl _, ?_, (ham.trans hm).trans (Nat.le_max_right ..), ?_⟩
  · rw [List.take_length, removeDeviceAttributes_eq_self B.unfiltered]
  · rw [between_of_le hlast]
    refine List.filter_eq_nil_iff.mpr fun e he => ?_
    have := K.sequenced e he
    simp only [decide_eq_true_eq]
    omega

theorem Inv.disconnect (H : Inv s) (sid : Nat) : Inv (s.disconnect sid) := by
  have H' : Inv (s.setConnection sid { s.connections sid with disconnected := true }) := by
    refine H.setConnection (fun _ => id) (fun _ _ => rfl) rfl nofun fun page hcurrent => ?_
    obtain ⟨a, m, ham, hm, hlive, -, hcontinues⟩ := H.ok page sid hcurrent
    exact ⟨a, m, ham, hm, hlive, nofun, hcontinues⟩
  refine ⟨H'.connected, H'.outputSequence, H'.outputBuffer, H'.outputBufferSize, H'.nonempty,
    H'.payload, fun other hlt hd => ?_, H'.current, H'.pages, fun page other hcurrent =>
      (H'.ok page other hcurrent).congr rfl rfl fun _ => rfl⟩
  refine List.mem_filter.mpr ⟨H'.room other hlt hd, ?_⟩
  simp only [ne_eq, decide_not, Bool.not_eq_eq_eq_not, Bool.not_true, decide_eq_false_iff_not]
  rintro rfl
  simp [State.disconnect, State.setConnection] at hd

/-! ## The steps of a page -/

/-- A step of a page on its connection. -/
theorem Inv.setPage (H : Inv s) {page sid : Nat} {connection : Connection} {c : Page}
    (hcurrent : s.current page = some sid) (hpage : connection.page = page)
    (hdisconnected : connection.disconnected = (s.connections sid).disconnected)
    (K : c.Ok s.units) (hok : connection.Ok (s.setPage page c) sid) :
    Inv ((s.setConnection sid connection).setPage page c) := by
  have hothers : ∀ other sid', s.current other = some sid' → other ≠ page → sid' ≠ sid := by
    rintro other sid' h hne rfl
    exact hne ((H.current other sid' h).2.symm.trans (H.current page sid' hcurrent).2)
  have hself : ((s.setConnection sid connection).setPage page c).connections sid = connection :=
    Function.update_self ..
  have hother : ∀ sid', sid' ≠ sid →
      ((s.setConnection sid connection).setPage page c).connections sid' = s.connections sid' :=
    fun sid' hne => Function.update_of_ne hne ..
  refine ⟨H.connected, H.outputSequence, H.outputBuffer, H.outputBufferSize, H.nonempty, H.payload,
    fun sid' hlt hd => ?_, fun other sid' h => ?_, fun other => ?_, fun other sid' h => ?_⟩
  · by_cases heq : sid' = sid
    · subst sid'
      rw [hself, hdisconnected] at hd
      exact H.room sid hlt hd
    · exact H.room sid' hlt (hother sid' heq ▸ hd)
  · refine ⟨(H.current other sid' h).1, ?_⟩
    by_cases heq : other = page
    · subst other
      cases hcurrent.symm.trans h
      rw [hself, hpage]
    · rw [hother sid' (hothers other sid' h heq)]
      exact (H.current other sid' h).2
  · simp only [State.setPage]
    by_cases heq : other = page
    · subst other
      rw [Function.update_self]
      exact K
    · rw [Function.update_of_ne heq]
      exact H.pages other
  · by_cases heq : other = page
    · subst other
      cases hcurrent.symm.trans h
      rw [hself]
      exact hok.congr rfl rfl fun _ => rfl
    · rw [hother sid' (hothers other sid' h heq)]
      refine (H.ok other sid' h).congr rfl ?_ fun _ => rfl
      rw [(H.current other sid' h).2]
      exact Function.update_of_ne heq ..

/-- The event after the first `a` is processed: the page has it, or takes it now. -/
theorem Restore.Continues.writeOutput {restore : Restore} {c : Page} {chunks : List String} {a : Nat}
    {data : String} (h : restore.Continues chunks c a) (K : c.Ok (chunks.map encode))
    (hdata : chunks[a]? = some data)
    (htotal : (chunks.map encode).flatten.length ≤ maxTranscriptSize)
    (hsafe : chunks.length ≤ maxSafeInteger) :
    (c.writeOutput (encode data) (a + 1)).Ok (chunks.map encode) ∧
      restore.Continues chunks (c.writeOutput (encode data) (a + 1)) (a + 1) := by
  have hlt : a < chunks.length := (List.getElem?_eq_some_iff.mp hdata).1
  have hunit : (chunks.map encode)[a]? = some (encode data) := by simp [hdata]
  rcases Nat.lt_or_ge a c.lastOutputSequences with hseen | hnew
  · rw [Page.writeOutput_seen hseen (Nat.succ_pos a) (hlt.trans_le hsafe)]
    refine ⟨K, ?_⟩
    cases restore with
    | joined => trivial
    | sent bufferedOutput w =>
      obtain ⟨hw, hbuffered, -, hevents⟩ := h
      exact ⟨hw, hbuffered, Nat.le_trans hseen (Nat.le_max_left ..), hevents⟩
    | restored => exact ⟨hseen, h.2⟩
  · obtain ⟨heq, hok⟩ := K.writeOutput hunit hnew htotal (hlt.trans_le hsafe)
    rw [heq]
    refine ⟨hok, ?_⟩
    cases restore with
    | joined => trivial
    | sent bufferedOutput w =>
      obtain ⟨hw, hbuffered, ha, hevents⟩ := h
      refine ⟨hw, hbuffered, Nat.le_max_left .., ?_⟩
      simp only [Page.push, List.filter_append, hevents]
      rcases Nat.lt_or_ge a w with haw | hwa
      · -- the event is in the snapshot as well
        rw [between_of_le (by omega), between_of_le (by omega)]
        simp only [List.nil_append, List.filter_eq_nil_iff, List.mem_singleton,
          decide_eq_true_eq]
        rintro e rfl
        exact Nat.not_lt.mpr haw
      · have hsame : between (chunks.map encode) w c.lastOutputSequences =
            between (chunks.map encode) w a := by
          rcases (by omega : a ≤ c.lastOutputSequences ∨ a ≤ w) with ha | ha
          · rw [Nat.le_antisymm hnew ha]
          · rw [between_of_le (hnew.trans ha), between_of_le ha]
        rw [hsame, between_succ hwa hunit]
        simp [Nat.lt_succ_of_le hwa]
    | restored =>
      have hlast : c.lastOutputSequences = a := Nat.le_antisymm hnew h.1
      refine ⟨Nat.le_refl _, ?_⟩
      have htranscript := h.2
      rw [hlast, Page.getTranscript] at htranscript
      simp only [Page.push, Page.getTranscript, List.flatten_append, htranscript]
      rw [List.take_add_one, hunit, List.flatten_append]
      rfl

theorem Inv.deliverOutput (H : Inv s) (B : s.Bounded) {page : Nat}
    (h : s.deliverOutput page = some s') : Inv s' := by
  obtain ⟨sid, hcurrent, h⟩ := Option.bind_eq_some_iff.mp h
  split at h
  · cases h
  rename_i payload live hlive
  cases h
  obtain ⟨a, m, ham, hm, hbetween, hfrontier, hcontinues⟩ := H.ok page sid hcurrent
  have hpage := (H.current page sid hcurrent).2
  rw [hlive, List.map_cons] at hbetween
  obtain ⟨halt, hsequence, hdata, hrest⟩ := between_cons hbetween.symm
  rw [hpage] at hcontinues
  obtain ⟨K, hnext⟩ := hcontinues.writeOutput (H.pages page) hdata B.units (H.safe B)
  simp only at hsequence
  rw [hsequence]
  refine H.setPage hcurrent hpage rfl K ⟨a + 1, m, halt, hm, hrest, hfrontier, ?_⟩
  simp only [State.setPage, hpage, Function.update_self]
  exact hnext

theorem Inv.deliverRestored (H : Inv s) (B : s.Bounded) {page : Nat} {known : Bool}
    (h : s.deliverRestored page known = some s') : Inv s' := by
  obtain ⟨sid, hcurrent, h⟩ := Option.bind_eq_some_iff.mp h
  split at h
  case h_2 => cases h
  rename_i bufferedOutput w hsent
  cases h
  obtain ⟨a, m, ham, hm, hlive, hfrontier, hcontinues⟩ := H.ok page sid hcurrent
  have hpage := (H.current page sid hcurrent).2
  rw [hsent, hpage] at hcontinues
  obtain ⟨hw, hbuffered, ha, hevents⟩ := hcontinues
  have hbuffered' : encode bufferedOutput = (s.units.take w).flatten := by
    rw [hbuffered, encode_join, List.map_take, State.units]
  obtain ⟨K, hlast, htranscript⟩ := (H.pages page).restoreSession known hbuffered'
    (hw.trans length_units.ge) hevents B.units (hw.trans (H.safe B))
  refine H.setPage hcurrent hpage rfl K ⟨a, m, ham, hm, hlive, hfrontier, ?_⟩
  simp only [State.setPage, hpage, Function.update_self]
  exact ⟨by rw [hlast]; exact ha, by rw [hlast]; exact htranscript⟩

/-! ## Runs -/

/-- A step records at most one more chunk and leaves the size of the buffer. -/
theorem State.step_chunks {action : Action} (h : s.step action = some s') :
    (∃ more, s'.chunks = s.chunks ++ more) ∧
      s'.session.outputBufferMax = s.session.outputBufferMax := by
  have hsame : s'.chunks = s.chunks → s'.session = s.session →
      (∃ more, s'.chunks = s.chunks ++ more) ∧
        s'.session.outputBufferMax = s.session.outputBufferMax :=
    fun hchunks hsession => ⟨⟨[], by simp [hchunks]⟩, by rw [hsession]⟩
  cases action with
  | record data =>
    simp only [State.step, State.record] at h
    split at h
    case h_2 => cases h
    split at h
    · cases h
    rcases hc : s.session.connected with _ | _
    · simp only [recordOutput, hc, if_true] at h
      cases h
      exact hsame rfl rfl
    · obtain ⟨session', hsome, hmax⟩ := recordOutput_some hc data
      rw [hsome] at h
      cases h
      exact ⟨⟨[data], rfl⟩, hmax⟩
  | participants | emitted =>
    simp only [State.step] at h
    split at h
    · cases h; exact hsame rfl rfl
    · cases h
  | emit sid =>
    simp only [State.step, State.emit] at h
    split at h
    case h_2 => cases h
    split at h
    · cases h
      have hsend : ∀ payload, (s.send sid payload).chunks = s.chunks ∧
          (s.send sid payload).session = s.session := by
        intro payload
        simp only [State.send]
        split <;> exact ⟨rfl, rfl⟩
      exact hsame (hsend _).1 (hsend _).2
    · cases h
  | connect => cases h; exact hsame rfl rfl
  | restore =>
    simp only [State.step, State.restore] at h
    split at h
    · cases h; exact hsame rfl rfl
    · cases h
  | disconnect =>
    simp only [State.step] at h
    split at h
    · cases h; exact hsame rfl rfl
    · cases h
  | deliverOutput | deliverRestored =>
    obtain ⟨sid, -, h⟩ := Option.bind_eq_some_iff.mp h
    split at h <;> (cases h; try exact hsame rfl rfl)

theorem Inv.step (H : Inv s) (B : s'.Bounded) {action : Action} (h : s.step action = some s') :
    Inv s' := by
  obtain ⟨⟨more, hchunks⟩, hmax⟩ := State.step_chunks h
  have B' := B.earlier hchunks hmax
  cases action with
  | record data => exact H.record B h
  | participants =>
    simp only [State.step] at h
    split at h
    · cases h; exact H.participants ‹_›
    · cases h
  | emit sid => exact H.emit h
  | emitted =>
    simp only [State.step] at h
    split at h
    · cases h; exact H.emitted ‹_›
    · cases h
  | connect page => cases h; exact H.connect page
  | restore sid => exact H.restore B' h
  | disconnect sid =>
    simp only [State.step] at h
    split at h
    · cases h; exact H.disconnect sid
    · cases h
  | deliverOutput page => exact H.deliverOutput B' h
  | deliverRestored page known => exact H.deliverRestored B' h

theorem reachable_inv (h : (restoreSystem outputBufferMax).Reachable s) (B : s.Bounded) : Inv s := by
  revert B
  refine h.invariant (P := fun s => s.Bounded → Inv s) (fun _ hs _ => hs ▸ Inv.init) ?_
  intro x action y H hs B
  obtain ⟨⟨more, hchunks⟩, hmax⟩ := State.step_chunks hs
  exact (H (B.earlier hchunks hmax)).step B hs

/-- For every interleaving below the limits: once a page has processed the restored session of its
connection, its transcript is the chunks `1..lastOutputSequences`, each once and in order; and
these are all the chunks when nothing is on its way. -/
theorem output_exactly_once (h : (restoreSystem outputBufferMax).Reachable s)
    (hbuffer : (String.join s.chunks).toList.length ≤ s.session.outputBufferMax)
    (hlimit : (encode (String.join s.chunks)).length ≤ maxTranscriptSize)
    (hunfiltered : ¬ HasDeviceAttributes (String.join s.chunks).toList) (page sid : Nat)
    (hcurrent : s.current page = some sid) (hrestored : (s.connections sid).restore = .restored) :
    (s.pages page).getTranscript =
      encode (String.join (s.chunks.take (s.pages page).lastOutputSequences)) ∧
    (s.reader.payload = none → (s.connections sid).disconnected = false →
      (s.connections sid).live = [] →
      (s.pages page).lastOutputSequences = s.session.outputSequence ∧
        (s.pages page).getTranscript = encode (String.join s.chunks)) := by
  have H := reachable_inv h ⟨hbuffer, hlimit, hunfiltered⟩
  obtain ⟨a, m, ham, hm, hlive, hfrontier, hcontinues⟩ := H.ok page sid hcurrent
  rw [hrestored, (H.current page sid hcurrent).2] at hcontinues
  obtain ⟨ha, htranscript⟩ := hcontinues
  have hshown : (s.pages page).getTranscript =
      encode (String.join (s.chunks.take (s.pages page).lastOutputSequences)) := by
    rw [htranscript, encode_join, List.map_take]
  refine ⟨hshown, fun hidle hd hempty => ?_⟩
  have hmlen : m = s.chunks.length := by
    rw [hfrontier hd]
    cases hr : s.reader with
    | idle | stopped => rfl
    | recorded | emitting => rw [hr] at hidle; cases hidle
  have ham' : a = m := by
    have hnil := congrArg (List.map Prod.snd) hlive
    rw [hempty, map_snd_between] at hnil
    have := congrArg List.length hnil
    simp only [List.map_nil, List.length_nil, List.length_drop, List.length_take] at this
    omega
  have hlast := (H.pages page).last_le
  rw [length_units] at hlast
  have hall : (s.pages page).lastOutputSequences = s.chunks.length := by omega
  refine ⟨hall.trans H.outputSequence.symm, ?_⟩
  rw [hshown, hall, List.take_length]

end

/-- A chunk arrives before the restore that holds it, the next one after it; the page then loses its
connection, misses a chunk and connects anew. -/
def reconnected : List Action :=
  [.connect 0, .record "a", .participants, .emit 0, .emitted, .restore 0, .record "b",
    .deliverOutput 0, .participants, .deliverRestored 0 false, .emit 0, .emitted, .deliverOutput 0,
    .disconnect 0, .record "c", .participants, .emitted, .connect 0, .record "d", .participants,
    .restore 1, .emit 1, .emitted, .deliverOutput 0, .deliverRestored 0 true]

theorem output_exactly_once_reconnected : ∃ s, (restoreSystem 512000).Reachable s ∧
    (s.pages 0).lastOutputSequences = 4 ∧ (s.pages 0).getTranscript = encode "abcd" := by
  have hexec : (reconnected.foldlM State.step (.init 512000)).any (fun s => decide <|
      s.chunks = ["a", "b", "c", "d"] ∧ s.session.outputBufferMax = 512000 ∧
      s.current 0 = some 1 ∧ (s.connections 1).restore = .restored ∧
      (s.pages 0).lastOutputSequences = 4) = true := by
    decide
  obtain ⟨s, hs, hd⟩ := (Option.any_eq_true _ _).mp hexec
  obtain ⟨hchunks, hmax, hcurrent, hrestored, hlast⟩ := of_decide_eq_true hd
  have hreach : (restoreSystem 512000).Reachable s :=
    (System.Reachable.init rfl).run (System.run_of_foldlM (fun _ _ _ => id) hs)
  have hjoin : String.join s.chunks = "abcd" := by rw [hchunks]; decide
  have hfilter : ¬ HasDeviceAttributes (String.join s.chunks).toList := by
    rw [hjoin]
    rintro ⟨rest, n, ⟨pre, hpre⟩, hm⟩
    have hesc : '\x1b' ∈ pre ++ rest := by
      refine List.mem_append_right _ ?_
      rcases matchDeviceAttributes_cases hm with ⟨_, _, _, _, rfl, -, -⟩ | ⟨_, _, rfl, -, -⟩ <;> simp
    rw [hpre] at hesc
    exact absurd hesc (by decide)
  refine ⟨s, hreach, hlast, ?_⟩
  rw [(output_exactly_once hreach (by rw [hjoin, hmax]; decide) (by rw [hjoin]; decide) hfilter 0 1
    hcurrent hrestored).1, hlast, hchunks]
  decide

end WebSSH.Terminal
