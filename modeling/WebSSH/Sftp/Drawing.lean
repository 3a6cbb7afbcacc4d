import Mathlib
import WebSSH.Sftp.Listing

/-!
# Drawing from the generator

`_iter_paramiko_directory_entries` alone, with whoever draws from it: after each entry that it is handed
the consumer may go on, raise or stop. Of the requests only the READDIRs are counted. And what the loop
over a reply parses.
-/

namespace WebSSH.Sftp

open Lib Lib.Program Lib.Wire
open Lib.Python (Bytes encode)

/-- What the consumer does once it has been handed these entries. -/
abbrev Consumer := List Entry → Result Error Unit

/-- An entry is handed to the consumer, who keeps it. -/
def draw (consumer : Consumer) (_ : Unit) (entry : Entry) : Prog (List Entry) Unit :=
  react fun s => (consumer (s.own ++ [entry]), { s with own := s.own ++ [entry] })

/-- `for entry in _iter_paramiko_directory_entries(sftp, path)`, to its end or to that of the consumer. -/
def drawEntries (server : Server) (config : Config) (fuel : Nat) (path : String) (consumer : Consumer) :
    Prog (List Entry) Unit :=
  iterParamikoDirectoryEntries server config fuel path (draw consumer) ()

def Event.isReaddir (e : Event) : Bool :=
  match e.call with
  | .readdir _ => true
  | _ => false

/-- How many READDIR requests have been made. -/
def Client.readdirs {δ : Type} (s : Client δ) : Nat := s.log.countP Event.isReaddir

/-! ## Whatever the server answers -/

/-- What holds at every moment. -/
structure Drawn (maximum : Nat) (s : Client (List Entry)) : Prop where
  running : s.stuck = false
  readdirs : s.readdirs ≤ maximum + 1
  yielded : s.own.length ≤ maximum

/-- After `n` READDIR requests the budget is not spent, and no more entries have been handed out than
were charged. -/
structure Drawing (maximum n : Nat) (s : Client (List Entry)) : Prop where
  running : s.stuck = false
  readdirs : s.readdirs = n
  limit : s.budget.limit = maximum
  used : s.budget.used ≤ maximum
  yielded : s.own.length ≤ s.budget.used

section
variable {server : Server} {config : Config} {limit n : Nat} {s : Client (List Entry)}
  {consumer : Consumer}

theorem Drawing.drawn (H : Drawing limit n s) (hn : n ≤ limit + 1) : Drawn limit s :=
  ⟨H.running, H.readdirs.trans_le hn, H.yielded.trans H.used⟩

theorem readdirs_logged {δ : Type} (s : Client δ) (e : Event) :
    (s.logged e).readdirs = s.readdirs + if e.isReaddir then 1 else 0 := by
  rw [Client.readdirs, s.logged_log, List.countP_append, List.countP_singleton]
  rfl

/-- Another request than READDIR. -/
theorem Drawn.logged (H : Drawn limit s) {e : Event} (he : e.isReaddir = false) :
    Drawn limit (s.logged e) := by
  refine ⟨H.running, ?_, H.yielded⟩
  rw [readdirs_logged, he]
  exact H.readdirs

theorem draw_charge_wp (H : Drawing limit n s) (hn : n ≤ limit + 1) (entry : Entry) :
    (charge config entry : Prog (List Entry) Unit).Wp (Drawn limit)
      (fun _ t => Drawing limit n t ∧ t.own.length < t.budget.used ∧
        t.budget.used = s.budget.used + 1)
      (fun _ => Drawn limit) (Drawn limit) s := by
  have hdrawn : Drawn limit { s with budget := (s.budget.consumeEntry config entry).2 } :=
    ⟨H.running, H.readdirs.trans_le hn, H.yielded.trans H.used⟩
  refine .react hdrawn (fun _ hok => ?_) (fun _ _ => hdrawn) fun _ => hdrawn
  have hnone : (s.budget.consumeEntry config entry).1 = none := by
    revert hok
    dsimp only
    cases (s.budget.consumeEntry config entry).1 with
    | none => exact fun _ => rfl
    | some e => exact fun hok => by cases hok
  have hcharges := s.budget.charges_consume config (some entry.filename) entry.extraMetadataBytes
  have hused : (s.budget.consumeEntry config entry).2.used = s.budget.used + 1 := hcharges.used
  have hlimit := (Budget.consumeEntry_none hnone).1
  have hyielded : s.own.length < (s.budget.consumeEntry config entry).2.used := by
    rw [hused]
    exact Nat.lt_succ_of_le H.yielded
  refine ⟨⟨H.running, H.readdirs, hcharges.limit.trans H.limit, ?_, Nat.le_of_lt hyielded⟩, hyielded,
    hused⟩
  dsimp only
  rw [hused]
  exact H.limit ▸ hlimit

theorem draw_wp (H : Drawing limit n s) (hn : n ≤ limit + 1) (hroom : s.own.length < s.budget.used)
    (entry : Entry) :
    (draw consumer () entry).Wp (Drawn limit)
      (fun _ t => Drawing limit n t ∧ t.budget = s.budget) (fun _ => Drawn limit) (Drawn limit) s := by
  have hyielded : (s.own ++ [entry]).length ≤ s.budget.used := by
    rw [List.length_append]
    exact hroom
  have hdrawing : Drawing limit n { s with own := s.own ++ [entry] } :=
    ⟨H.running, H.readdirs, H.limit, H.used, hyielded⟩
  have hdrawn := hdrawing.drawn hn
  exact .react hdrawn (fun _ _ => ⟨hdrawing, rfl⟩) (fun _ _ => hdrawn) fun _ => hdrawn

theorem draw_ofExcept_wp {α : Type} {x : Except Error α} (h : Drawn limit s) :
    (ofExcept x : Prog (List Entry) α).Wp (Drawn limit) (fun _ t => t = s) (fun _ => Drawn limit)
      (Drawn limit) s := by
  cases x with
  | ok a => exact .pure rfl
  | error e => exact .raise h

/-- Every entry of a reply is charged. -/
theorem draw_readEntries_wp (count : Nat) {message : Bytes} {s : Client (List Entry)}
    (H : Drawing limit n s) (hn : n ≤ limit + 1) :
    (readEntries config (draw consumer) count message ()).Wp (Drawn limit)
      (fun _ t => Drawing limit n t ∧ s.budget.used + count ≤ t.budget.used)
      (fun _ => Drawn limit) (Drawn limit) s := by
  induction count generalizing message s with
  | zero => exact .pure ⟨H, Nat.le_refl _⟩
  | succ count ih =>
    refine .bind (draw_ofExcept_wp (H.drawn hn)) fun read t ht => ?_
    subst ht
    refine .bind (draw_charge_wp H hn read.1) fun _ u hu => ?_
    obtain ⟨hdrawing, hroom, hused⟩ := hu
    have hyield : (yieldEntry (draw consumer) () read.1).Wp (Drawn limit)
        (fun _ v => Drawing limit n v ∧ v.budget = u.budget) (fun _ => Drawn limit) (Drawn limit) u := by
      unfold yieldEntry
      split
      · exact .pure ⟨hdrawing, rfl⟩
      · exact draw_wp hdrawing hn hroom read.1
    refine .bind hyield fun _ v hv => ?_
    refine (ih hv.1).mono (fun _ w hw => ⟨hw.1, ?_⟩) (fun _ _ h => h) fun _ h => h
    have hmore := hw.2
    rw [hv.2, hused] at hmore
    omega

theorem draw_readReply_wp {response : Nat × Bytes} (H : Drawing limit n s) (hn : n ≤ limit + 1) :
    (readReply config (draw consumer) response ()).Wp (Drawn limit)
      (fun _ t => Drawing limit n t ∧ s.budget.used < t.budget.used)
      (fun _ => Drawn limit) (Drawn limit) s := by
  have hdrawn := H.drawn hn
  unfold readReply
  split
  · refine .bind (draw_ofExcept_wp hdrawn) fun read t ht => ?_
    subst ht
    obtain ⟨entryCount, message⟩ := read
    dsimp only
    split
    · exact .raise hdrawn
    · rename_i hcount
      refine .bind (draw_readEntries_wp entryCount H hn) fun r u hu => ?_
      have hpos := Nat.pos_of_ne_zero hcount
      have hmore := hu.2
      split
      · exact .pure ⟨hu.1, by omega⟩
      · exact .raise (hu.1.drawn hn)
  · exact .raise hdrawn

/-- Every reply but the last is paid for by an entry, so there is at most one request more. -/
theorem draw_readDirectory_wp {handle : Bytes} (fuel : Nat) {n : Nat} {s : Client (List Entry)}
    (H : Drawing limit n s) (hn : n ≤ s.budget.used) (hfuel : limit < fuel + s.budget.used) :
    (readDirectory server config (draw consumer) handle fuel ()).Wp (Drawn limit)
      (fun _ => Drawn limit) (fun _ => Drawn limit) (Drawn limit) s := by
  induction fuel generalizing n s with
  | zero =>
    have hused := H.used
    omega
  | succ fuel ih =>
    have hn' : n + 1 ≤ limit + 1 := Nat.succ_le_succ (hn.trans H.used)
    have hlogged (o : Result Error (Call.readdir handle).Answer) :
        Drawing limit (n + 1) (s.logged ⟨.readdir handle, o⟩) :=
      ⟨H.running, (readdirs_logged s _).trans (congrArg (· + 1) H.readdirs), H.limit, H.used, H.yielded⟩
    have hask : (ask server (.readdir handle)).attempt.Wp (Drawn limit)
        (fun _ t => Drawing limit (n + 1) t ∧ t.budget = s.budget) (fun _ => Drawn limit)
        (Drawn limit) s :=
      .attempt (.react ((hlogged _).drawn hn') (fun _ _ => ⟨hlogged _, rfl⟩) (fun _ _ => ⟨hlogged _, rfl⟩)
        fun _ => (hlogged _).drawn hn')
    refine .bind hask fun answer t ht => ?_
    obtain ⟨hdrawing, hbudget⟩ := ht
    split
    · exact .pure (hdrawing.drawn hn')
    · exact .raise (hdrawing.drawn hn')
    · refine .bind (draw_readReply_wp hdrawing hn') fun _ u hu => ?_
      have hmore := hu.2
      rw [hbudget] at hmore
      exact ih hu.1 (by omega) (by omega)

theorem draw_ask_wp {c : Call} (hc : ∀ o, Event.isReaddir ⟨c, o⟩ = false) (H : Drawn limit s) :
    (ask server c).Wp (Drawn limit) (fun _ => Drawn limit) (fun _ => Drawn limit) (Drawn limit) s :=
  .react (H.logged (hc _)) (fun _ _ => H.logged (hc _)) (fun _ _ => H.logged (hc _))
    fun _ => H.logged (hc _)

theorem draw_closeDirectory_wp {handle : Bytes} (H : Drawn limit s) :
    (closeDirectory server handle).Wp (Drawn limit) (fun _ => Drawn limit) (fun _ => Drawn limit)
      (Drawn limit) s := by
  have hclose : (ask server (.closeHandle handle)).attempt.Wp (Drawn limit) (fun _ => Drawn limit)
      (fun _ => Drawn limit) (Drawn limit) s := .attempt (draw_ask_wp (fun _ => rfl) H)
  refine .bind hclose fun answer t ht => ?_
  cases answer with
  | ok a => exact .pure ht
  | error e =>
    have hchannel : (ask server .closeChannel).attempt.Wp (Drawn limit) (fun _ => Drawn limit)
        (fun _ => Drawn limit) (Drawn limit) t := .attempt (draw_ask_wp (fun _ => rfl) ht)
    exact .bind hchannel fun _ _ hu => .pure hu

theorem drawEntries_wp (config : Config) (consumer : Consumer) {fuel metadataLimit : Nat} {path : String}
    (hfuel : limit < fuel) :
    (drawEntries server config fuel path consumer).Wp (Drawn limit) (fun _ => Drawn limit)
      (fun _ => Drawn limit) (Drawn limit) (.new limit metadataLimit []) := by
  have hlogged (o : Result Error (Call.opendir path).Answer) :
      Drawing limit 0 ((Client.new limit metadataLimit []).logged ⟨.opendir path, o⟩) :=
    ⟨rfl, rfl, rfl, Nat.zero_le _, Nat.zero_le _⟩
  have hdrawn (o : Result Error (Call.opendir path).Answer) :
      Drawn limit ((Client.new limit metadataLimit []).logged ⟨.opendir path, o⟩) :=
    (hlogged o).drawn (Nat.zero_le _)
  unfold drawEntries iterParamikoDirectoryEntries
  refine .bind (P := fun _ t => Drawing limit 0 t ∧ t.budget.used = 0) ?_ fun response t ht => ?_
  · exact .react (hdrawn _) (fun _ _ => ⟨hlogged _, rfl⟩) (fun _ _ => hdrawn _) fun _ => hdrawn _
  obtain ⟨hdrawing, hused⟩ := ht
  have hstart : Drawn limit t := hdrawing.drawn (Nat.zero_le _)
  split
  · split
    · have hchannel : (ask server .closeChannel).attempt.Wp (Drawn limit) (fun _ => Drawn limit)
          (fun _ => Drawn limit) (Drawn limit) t := .attempt (draw_ask_wp (fun _ => rfl) hstart)
      exact .bind hchannel fun _ _ hu => .raise hu
    · exact (draw_readDirectory_wp fuel hdrawing (Nat.zero_le _) (by omega)).finallyDo
        (fun _ _ h => draw_closeDirectory_wp h) (fun _ _ h => draw_closeDirectory_wp h)
        fun _ h => draw_closeDirectory_wp h
  · exact .raise hstart

end

/-! ## What a reply says -/

/-- The entries of a reply as they are parsed, before any of them is charged. -/
def parseReply (config : Config) : Reader Error (List Entry) := do
  let entryCount ← messageUint32 "directory entry count"
  Reader.loop (fun entries => (entries ++ [·]) <$> readEntry config) entryCount []

theorem foldl_snoc (entries : List Entry) (reply : List Sent) :
    reply.foldl (fun entries x => entries ++ [x.1]) entries = entries ++ reply.map Prod.fst := by
  induction reply generalizing entries with
  | nil => exact (List.append_nil entries).symm
  | cons x reply ih =>
    rw [List.foldl_cons, ih, List.append_assoc, List.map_cons]
    rfl

theorem allowed_iff {config : Config} (entries : List Entry) (reply : List Sent) :
    Allowed (fun _ x => x.1.Legal config x.2) (fun (entries : List Entry) (x : Sent) => entries ++ [x.1])
      entries reply ↔ ∀ x ∈ reply, x.1.Legal config x.2 := by
  induction reply generalizing entries with
  | nil => exact iff_of_true trivial (List.forall_mem_nil _)
  | cons x reply ih => rw [Allowed, ih, List.forall_mem_cons]

/-- A reply is parsed exactly if it is the encoding of legal entries. -/
theorem reads_parseReply (config : Config) :
    Reads (parseReply config) fun entries raw => ∃ reply : List Sent, reply.length < 256 ^ 4 ∧
      (∀ x ∈ reply, x.1.Legal config x.2) ∧ entries = reply.map Prod.fst ∧ raw = encodeReply reply := by
  have hstep (entries : List Entry) : Reads ((entries ++ [·]) <$> readEntry config) fun t raw =>
      ∃ x : Sent, x.1.Legal config x.2 ∧ t = entries ++ [x.1] ∧ raw = x.1.toBytes x.2 := by
    refine (reads_readEntry.map).congr fun t raw => ⟨?_, ?_⟩
    · rintro ⟨e, ⟨es, hlegal, rfl⟩, rfl⟩
      exact ⟨(e, es), hlegal, rfl, rfl⟩
    · rintro ⟨x, hlegal, rfl, rfl⟩
      exact ⟨x.1, ⟨x.2, hlegal, rfl⟩, rfl⟩
  refine ((reads_take 4 "directory entry count").bind fun n => Reads.loop hstep n []).congr
    fun entries raw => ⟨?_, ?_⟩
  · rintro ⟨n, front, back, ⟨hn, rfl⟩, ⟨reply, rfl, hallowed, rfl, rfl⟩, rfl⟩
    exact ⟨reply, hn, (allowed_iff _ _).mp hallowed, foldl_snoc [] reply, rfl⟩
  · rintro ⟨reply, hlength, hlegal, rfl, rfl⟩
    exact ⟨_, _, _, ⟨hlength, rfl⟩, ⟨reply, rfl, (allowed_iff _ _).mpr hlegal, (foldl_snoc [] reply).symm,
      rfl⟩, rfl⟩

/-- A consumer that goes on. -/
def patient : Consumer := fun _ => .ok ()

theorem draw_yieldEntry_gives {s : Client (List Entry)} (x : Sent) :
    Gives (yieldEntry (draw patient) () x.1) s () { s with own := s.own ++ shown [x] } := by
  unfold yieldEntry
  split
  · rename_i hdot
    have hshown : shown [x] = [] := List.filter_cons_of_neg (by simp [isDot, hdot])
    rw [hshown, List.append_nil]
    exact .pure
  · rename_i hdot
    have hisDot : isDot x.1 = false := decide_eq_false hdot
    have hshown : shown [x] = [x.1] := List.filter_cons_of_pos (by simp [hisDot])
    rw [hshown]
    exact .react rfl

theorem draw_readEntries_gives {config : Config} {reply : List Sent} {s : Client (List Entry)}
    (hlegal : ∀ x ∈ reply, x.1.Legal config x.2) (h : s.budget.Covers (reply.map Prod.fst)) :
    Gives (readEntries config (draw patient) reply.length (reply.flatMap fun x => x.1.toBytes x.2) ())
      s ((), [])
      { s with own := s.own ++ shown reply, budget := s.budget.after (reply.map Prod.fst) } := by
  induction reply generalizing s with
  | nil =>
    have hs : { s with own := s.own ++ shown [], budget := s.budget.after [] } = s := by
      rw [shown, List.map_nil, List.filter_nil, List.append_nil]
      rfl
    rw [List.map_nil, hs]
    exact .pure
  | cons x rest ih =>
    obtain ⟨hx, hrest⟩ := List.forall_mem_cons.mp hlegal
    have hread : readEntry config (x.1.toBytes x.2 ++ rest.flatMap fun x => x.1.toBytes x.2) =
        .ok (x.1, rest.flatMap fun x => x.1.toBytes x.2) :=
      (reads_readEntry _ _ _).mpr ⟨_, ⟨x.2, hx, rfl⟩, rfl⟩
    have hafter : s.budget.after ((x :: rest).map Prod.fst) =
        (s.budget.after [x.1]).after (rest.map Prod.fst) :=
      (s.budget.after_append [x.1] (rest.map Prod.fst)).symm
    have hcovers : s.budget.Covers ([x.1] ++ rest.map Prod.fst) := h
    rw [List.length_cons, List.flatMap_cons, readEntries, hread, hafter, shown_cons,
      ← List.append_assoc]
    exact .bind .pure (.bind (charge_gives hx hcovers.left) (.bind (draw_yieldEntry_gives x)
      (ih hrest hcovers.right)))

/-- Of the entries of a reply all but the dot names are handed out. -/
theorem draw_readReply_gives {config : Config} {reply : List Sent} {s : Client (List Entry)}
    (hreply : reply ≠ [] ∧ reply.length < 256 ^ 4) (hlegal : ∀ x ∈ reply, x.1.Legal config x.2)
    (h : s.budget.Covers (reply.map Prod.fst)) :
    Gives (readReply config (draw patient) (cmdName, encodeReply reply) ()) s ()
      { s with own := s.own ++ shown reply, budget := s.budget.after (reply.map Prod.fst) } := by
  have hcount : messageUint32 "directory entry count" (encodeReply reply) =
      .ok (reply.length, reply.flatMap fun x => x.1.toBytes x.2) :=
    (reads_take 4 _ _ _ _).mpr ⟨_, ⟨hreply.2, rfl⟩, rfl⟩
  have hpos : reply.length ≠ 0 := fun hzero => hreply.1 (List.length_eq_zero_iff.mp hzero)
  unfold readReply
  rw [if_pos rfl, hcount]
  refine .bind .pure ?_
  dsimp only
  rw [if_neg hpos]
  refine .bind (draw_readEntries_gives hlegal h) ?_
  dsimp only
  rw [if_pos rfl]
  exact .pure

/-- Whatever the server answers and the consumer does, an enumeration ends, with at most one READDIR
more than `limit` and at most `limit` entries handed out at every moment. The encoding of legal entries
is parsed to them and to its end, and of those of a reply that the budget has room for all but the dot
names are handed out. -/
theorem directory_enumeration_bounded (server : Server) (config : Config)
    (limit metadataLimit fuel : Nat) (path : String) (consumer : Consumer) (script : Script Error) :
    let run := drawEntries server config (limit + 1 + fuel) path consumer script
      (start (.new limit metadataLimit []))
    (run.2.state.stuck = false ∧
      run.2.state.readdirs ≤ limit + 1 ∧ run.2.state.own.length ≤ limit ∧
      ∀ t ∈ run.2.visited, t.readdirs ≤ limit + 1 ∧ t.own.length ≤ limit) ∧
    ∀ reply : List Sent, reply.length < 256 ^ 4 → (∀ x ∈ reply, x.1.Legal config x.2) →
      parseReply config (encodeReply reply) = .ok (reply.map Prod.fst, []) ∧
      (reply ≠ [] → ∀ s : Client (List Entry), s.budget.Covers (reply.map Prod.fst) →
        Gives (readReply config (draw patient) (cmdName, encodeReply reply) ()) s ()
          { s with own := s.own ++ shown reply, budget := s.budget.after (reply.map Prod.fst) }) := by
  have hwp : (drawEntries server config (limit + 1 + fuel) path consumer).Wp _ _ _ _
      (.new limit metadataLimit []) := drawEntries_wp config consumer (by omega)
  have hends := hwp script (start _) rfl fun t ht => absurd ht List.not_mem_nil
  obtain ⟨hlast, hall⟩ := hends.always
  refine ⟨⟨hlast.running, hlast.readdirs, hlast.yielded, fun t ht =>
    ⟨(hall t ht).readdirs, (hall t ht).yielded⟩⟩, fun reply hlength hlegal => ⟨?_, fun hne s h => ?_⟩⟩
  · exact (reads_parseReply config _ _ _).mpr
      ⟨_, ⟨reply, hlength, hlegal, rfl, rfl⟩, (List.append_nil _).symm⟩
  · exact draw_readReply_gives ⟨hne, hlength⟩ hlegal h

end WebSSH.Sftp
