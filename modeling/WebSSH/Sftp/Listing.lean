import Mathlib
import WebSSH.Sftp.Bounded

/-!
# Listing a directory of a hostile server, and of a correct one

What the enumeration of one directory costs and returns whatever the server answers, and that a
server which answers as the protocol has it gets all its entries listed.
-/

namespace WebSSH.Sftp

open Lib Lib.Program Lib.Wire
open Lib.Python (Bytes encode)

def Client.new {δ : Type} (limit metadataLimit : Nat) (own : δ) : Client δ where
  log := []
  checks := 0
  budget := .new limit metadataLimit
  stuck := false
  own := own

def collect (entries : List Entry) (entry : Entry) : Prog Unit (List Entry) :=
  pure (entries ++ [entry])

/-- `list(entries)` of the entries of a directory. -/
def listDirectory (server : Server) (config : Config) (fuel : Nat) (path : String) :
    Prog Unit (List Entry) :=
  directoryEntries server config fuel path collect []

/-- What an entry is charged with, besides its place. -/
def Entry.cost (e : Entry) : Nat := (encode e.filename).length + e.extraMetadataBytes + 128

/-! ## Whatever the server answers -/

/-- What a listing returns. -/
structure Listed (config : Config) (limit metadataLimit : Nat) (entries : List Entry) : Prop where
  count : entries.length ≤ limit
  metadata : (entries.map Entry.cost).sum ≤ metadataLimit
  legal : ∀ e ∈ entries, ∃ es, e.Legal config es
  name : ∀ e ∈ entries, e.filename ≠ "." ∧ e.filename ≠ ".." ∧ SafeName e.filename

/-- The state of a run in which `paid` calls have been paid for. -/
structure Safe (config : Config) (limit metadataLimit paid : Nat) {δ : Type} (s : Client δ) :
    Prop where
  running : s.stuck = false
  used : s.budget.used ≤ limit + 1
  metadataUsed : s.budget.metadataUsed ≤ metadataLimit
  calls : s.log.length ≤ paid + 4
  /-- No directory is read that is not the one opened last. -/
  held : ∃ stack, held config s.log = some stack

def listBounds (config : Config) (limit metadataLimit : Nat) : Bounds Unit where
  config := config
  limit := limit
  metadataLimit := metadataLimit
  price := 0
  before := 4
  size _ := 0
  Kept _ := True
  Path _ := True

theorem within_new {δ : Type} {B : Bounds δ} {own : δ} (hbefore : B.before = 4)
    (hkept : B.Kept own) : B.Within 4 [] (Client.new B.limit B.metadataLimit own) where
  left := {
    running := rfl
    limit := rfl
    metadataLimit := rfl
    used := Nat.zero_le _
    metadataUsed := Nat.zero_le _
    calls := by
      rw [hbefore]
      exact Nat.le_add_left _ _
    held := rfl
    kept := hkept
    paths := List.forall_mem_nil _ }
  right := Nat.zero_le _

/-- What is known of the entries listed so far. -/
def Listing (config : Config) (entries : List Entry) (budget : Budget) (_ : Unit) : Prop :=
  Listed config budget.used budget.metadataUsed entries

theorem listing_lasting (config : Config) (limit metadataLimit : Nat) :
    (listBounds config limit metadataLimit).Lasting (Listing config) := by
  intro entries entry old new own h hcharge
  have hcharges := old.charges_consume config (some entry.filename) entry.extraMetadataBytes
  have hnew : (old.consumeEntry config entry).2 = new := congrArg Prod.snd hcharge
  rw [Budget.consumeEntry] at hnew
  rw [hnew] at hcharges
  have hused := hcharges.used
  have hcount := h.count
  exact ⟨by omega, h.metadata.trans hcharges.metadataUsed, h.legal, h.name⟩

theorem collect_body (config : Config) (limit metadataLimit : Nat) :
    (listBounds config limit metadataLimit).Body SafeName (Listing config) collect := by
  intro k stack entries entry s hcharged hname hs
  obtain ⟨old, hold, hcharge⟩ := hcharged.charged
  have hnew : (old.consumeEntry config entry).2 = s.budget := congrArg Prod.snd hcharge
  have hcharges := old.charges_consume config (some entry.filename) entry.extraMetadataBytes
  have hcost := (Budget.consumeEntry_none (congrArg Prod.fst hcharge)).2
  have hcount := hold.count
  have hmetadata := hold.metadata
  have hused := hcharges.used
  rw [← Budget.consumeEntry] at hused
  change (old.consumeEntry config entry).2.metadataUsed = _ at hcost
  rw [hnew] at hused hcost
  refine .pure ⟨⟨?_, ?_, ?_, ?_⟩, hs, Nat.le_refl _⟩
  · rw [List.length_append, List.length_singleton]
    omega
  · rw [List.map_append, List.sum_append, List.map_singleton, List.sum_singleton, Entry.cost]
    omega
  · rw [List.forall_mem_append, List.forall_mem_singleton]
    exact ⟨hold.legal, hcharged.legal⟩
  · rw [List.forall_mem_append, List.forall_mem_singleton]
    exact ⟨hold.name, hcharged.dots.1, hcharged.dots.2, hname⟩

/-- A listing ends, with at most one call for each entry that it reads and four more, whatever the
server answers; it never holds more than the limits allow, it leaves no directory open, and what it
returns has legal names. -/
theorem listDirectory_bounded (server : Server) (config : Config) (limit metadataLimit fuel : Nat)
    (path : String) (script : Script Error) :
    let run := listDirectory server config (limit + 1 + fuel) path script
      (start (.new limit metadataLimit ()))
    (∀ t ∈ run.2.visited, Safe config limit metadataLimit t.budget.used t) ∧
      run.2.state.stuck = false ∧ held config run.2.state.log = some [] ∧
      ∀ entries, run.1 = .ok entries → Listed config limit metadataLimit entries := by
  have hstart : (listBounds config limit metadataLimit).Within 4 []
      (.new limit metadataLimit ()) := within_new rfl trivial
  have hfuel : limit < limit + 1 + fuel + 0 := by omega
  have hrun : (listBounds config limit metadataLimit).Run (Listing config)
      (listDirectory server config (limit + 1 + fuel) path) 0 []
      (.new limit metadataLimit ()) :=
    directoryEntries_wp (listing_lasting config limit metadataLimit)
      (collect_body config limit metadataLimit)
      ⟨Nat.zero_le _, Nat.zero_le _, List.forall_mem_nil _, List.forall_mem_nil _⟩ trivial hstart
      hfuel
  obtain ⟨hvisited, hend, hok⟩ := hrun.ends script
  refine ⟨fun t ht => ?_, hend.running, hend.held, fun entries hentries => ?_⟩
  · obtain ⟨stack, h⟩ := hvisited t ht
    have hcalls := h.calls
    simp only [listBounds, Nat.zero_add, Nat.one_mul, Nat.add_zero] at hcalls
    exact ⟨h.running, h.used, h.metadataUsed, hcalls, stack, h.held⟩
  · obtain ⟨hlisted, hused⟩ := hok entries hentries
    exact ⟨hlisted.count.trans hused, hlisted.metadata.trans hend.metadataUsed, hlisted.legal,
      hlisted.name⟩

/-! ## A correct server -/

/-- An entry as it is sent, with its extensions. -/
abbrev Sent := Entry × Option (List (Bytes × Bytes))

def encodeReply (reply : List Sent) : Bytes :=
  ByteOrder.big.bytes 4 reply.length ++ reply.flatMap fun x => x.1.toBytes x.2

def isDot (e : Entry) : Bool := e.filename = "." ∨ e.filename = ".."

def readEvent (handle : Bytes) (reply : List Sent) : Event :=
  ⟨.readdir handle, .ok (cmdName, encodeReply reply)⟩

/-- The server has a directory whose entries it sends in the given replies. -/
structure Serves (server : Server) (config : Config) (path : String) (handle : Bytes)
    (closed : Nat × Bytes) (replies : List (List Sent)) : Prop where
  bounded : Bounded config.sftpMaxHandleBytes handle
  opens : ∀ log, server.answer log (.opendir path) = .ok (cmdHandle, sized handle)
  /-- As many replies as were asked for before are not sent again. -/
  reads : ∀ log sent rest, replies = sent ++ rest →
    (log.filter fun e => e.call = .readdir handle).length = sent.length →
      server.answer log (.readdir handle) =
        (rest.head?.map fun reply => Result.ok (cmdName, encodeReply reply)).getD (.raised .eof)
  closes : ∀ log, server.answer log (.closeHandle handle) = .ok closed
  reply : ∀ reply ∈ replies, reply ≠ [] ∧ reply.length < 256 ^ 4
  legal : ∀ reply ∈ replies, ∀ x ∈ reply, x.1.Legal config x.2
  name : ∀ reply ∈ replies, ∀ x ∈ reply, isDot x.1 = false → SafeName x.1.filename

/-- The budget after entries that it was charged with. -/
def Budget.after (b : Budget) (entries : List Entry) : Budget :=
  { b with
    used := b.used + entries.length
    metadataUsed := b.metadataUsed + (entries.map Entry.cost).sum }

/-- Whether a budget is enough for entries. -/
def Budget.Covers (b : Budget) (entries : List Entry) : Prop :=
  b.used + entries.length ≤ b.limit ∧
    b.metadataUsed + (entries.map Entry.cost).sum ≤ b.metadataLimit

theorem Budget.after_append (b : Budget) (entries more : List Entry) :
    (b.after entries).after more = b.after (entries ++ more) := by
  simp only [Budget.after, List.length_append, List.map_append, List.sum_append, Nat.add_assoc]

theorem Budget.Covers.left {b : Budget} {entries more : List Entry}
    (h : b.Covers (entries ++ more)) : b.Covers entries := by
  have hcount := h.1
  have hcost := h.2
  rw [List.length_append] at hcount
  rw [List.map_append, List.sum_append] at hcost
  exact ⟨by omega, by omega⟩

theorem Budget.Covers.right {b : Budget} {entries more : List Entry}
    (h : b.Covers (entries ++ more)) : (b.after entries).Covers more := by
  have hcount := h.1
  have hcost := h.2
  rw [List.length_append] at hcount
  rw [List.map_append, List.sum_append] at hcost
  exact ⟨by dsimp only [Budget.after]; omega, by dsimp only [Budget.after]; omega⟩

/-- A legal entry that the budget has room for is not refused. -/
theorem consumeEntry_covered {config : Config} {b : Budget} {x : Sent} (hx : x.1.Legal config x.2)
    (h : b.Covers [x.1]) : b.consumeEntry config x.1 = (none, b.after [x.1]) := by
  have hcount := h.1
  have hcost := h.2
  simp only [List.length_singleton, List.map_singleton, List.sum_singleton, Entry.cost] at hcount hcost
  unfold Budget.consumeEntry Budget.consume
  dsimp only
  rw [if_neg (by omega), remoteMetadataTextSize_eq_ok hx.filename.2]
  dsimp only
  rw [if_neg (by omega)]
  simp only [Budget.after, List.length_singleton, List.map_singleton, List.sum_singleton,
    Entry.cost, Nat.add_assoc]

theorem charge_gives {δ : Type} {config : Config} {s : Client δ} {x : Sent} (hx : x.1.Legal config x.2)
    (h : s.budget.Covers [x.1]) :
    Gives (charge config x.1) s () { s with budget := s.budget.after [x.1] } := by
  refine .react ?_
  rw [consumeEntry_covered hx h]

/-- The entries that are not left out. -/
def shown (reply : List Sent) : List Entry := (reply.map Prod.fst).filter fun e => !isDot e

theorem shown_cons (x : Sent) (reply : List Sent) : shown (x :: reply) = shown [x] ++ shown reply := by
  rw [shown, List.map_cons, ← List.singleton_append, List.filter_append]
  rfl

theorem yieldEntry_gives {s : Client Unit} {x : Sent} {entries : List Entry}
    (hname : isDot x.1 = false → SafeName x.1.filename) :
    Gives (yieldEntry (validated collect) entries x.1) s (entries ++ shown [x]) s := by
  unfold yieldEntry
  split
  · rename_i hdot
    have hshown : shown [x] = [] := List.filter_cons_of_neg (by simp [isDot, hdot])
    rw [hshown, List.append_nil]
    exact .pure
  · rename_i hdot
    have hisDot : isDot x.1 = false := decide_eq_false hdot
    have hshown : shown [x] = [x.1] := List.filter_cons_of_pos (by simp [hisDot])
    unfold validated
    rw [if_neg hdot, if_pos (hname hisDot), hshown]
    exact .pure

theorem readEntries_gives {config : Config} {reply : List Sent} {s : Client Unit}
    {entries : List Entry} (hlegal : ∀ x ∈ reply, x.1.Legal config x.2)
    (hname : ∀ x ∈ reply, isDot x.1 = false → SafeName x.1.filename)
    (h : s.budget.Covers (reply.map Prod.fst)) :
    Gives (readEntries config (validated collect) reply.length
      (reply.flatMap fun x => x.1.toBytes x.2) entries) s (entries ++ shown reply, [])
      { s with budget := s.budget.after (reply.map Prod.fst) } := by
  induction reply generalizing s entries with
  | nil =>
    have hs : { s with budget := s.budget.after [] } = s := rfl
    rw [shown, List.map_nil, List.filter_nil, List.append_nil, hs]
    exact .pure
  | cons x rest ih =>
    obtain ⟨hx, hrest⟩ := List.forall_mem_cons.mp hlegal
    obtain ⟨hxname, hrestname⟩ := List.forall_mem_cons.mp hname
    have hread := (readEntry_eq_ok config (x.1.toBytes x.2 ++ rest.flatMap fun x => x.1.toBytes x.2)
      (rest.flatMap fun x => x.1.toBytes x.2) x.1).mpr ⟨x.2, hx, rfl⟩
    have hafter : s.budget.after ((x :: rest).map Prod.fst) =
        (s.budget.after [x.1]).after (rest.map Prod.fst) :=
      (s.budget.after_append [x.1] (rest.map Prod.fst)).symm
    have hcovers : s.budget.Covers ([x.1] ++ rest.map Prod.fst) := h
    rw [List.length_cons, List.flatMap_cons, readEntries, hread, hafter, shown_cons,
      ← List.append_assoc]
    exact .bind .pure (.bind (charge_gives hx hcovers.left) (.bind (yieldEntry_gives hxname)
      (ih hrest hrestname hcovers.right)))

/-- What a correct server sends is read to its end, and the directory is closed. -/
theorem readReply_gives {config : Config} {reply : List Sent} {s : Client Unit}
    (entries : List Entry) (hreply : reply ≠ [] ∧ reply.length < 256 ^ 4)
    (hlegal : ∀ x ∈ reply, x.1.Legal config x.2)
    (hname : ∀ x ∈ reply, isDot x.1 = false → SafeName x.1.filename)
    (h : s.budget.Covers (reply.map Prod.fst)) :
    Gives (readReply config (validated collect) (cmdName, encodeReply reply) entries) s
      (entries ++ shown reply) { s with budget := s.budget.after (reply.map Prod.fst) } := by
  have hcount : messageUint32 "directory entry count" (encodeReply reply) =
      .ok (reply.length, reply.flatMap fun x => x.1.toBytes x.2) :=
    (reads_take 4 _ _ _ _).mpr ⟨_, ⟨hreply.2, rfl⟩, rfl⟩
  have hpos : reply.length ≠ 0 := fun hzero => hreply.1 (List.length_eq_zero_iff.mp hzero)
  unfold readReply
  rw [if_pos rfl, hcount]
  refine .bind .pure ?_
  dsimp only
  rw [if_neg hpos]
  refine .bind (readEntries_gives hlegal hname h) ?_
  dsimp only
  rw [if_pos rfl]
  exact .pure

/-- The calls of an enumeration. -/
def readings (handle : Bytes) (replies : List (List Sent)) : List Event :=
  replies.map (readEvent handle) ++ [⟨.readdir handle, .raised .eof⟩]

section
variable {server : Server} {config : Config} {path : String} {handle : Bytes} {closed : Nat × Bytes}
  {replies : List (List Sent)}

theorem readDirectory_gives (hserver : Serves server config path handle closed replies)
    (rest : List (List Sent)) (sent : List (List Sent)) {fuel : Nat} {s : Client Unit}
    (entries : List Entry) (hreplies : replies = sent ++ rest)
    (hlog : (s.log.filter fun e => e.call = .readdir handle).length = sent.length)
    (h : s.budget.Covers (rest.flatten.map Prod.fst)) (hfuel : rest.length < fuel) :
    Gives (readDirectory server config (validated collect) handle fuel entries) s
      (entries ++ shown rest.flatten)
      { s with
        log := s.log ++ readings handle rest
        budget := s.budget.after (rest.flatten.map Prod.fst) } := by
  induction rest generalizing sent fuel s entries with
  | nil =>
    obtain ⟨fuel, rfl⟩ := Nat.exists_eq_add_of_lt hfuel
    have hanswer : server.answer s.log (.readdir handle) = .raised .eof :=
      hserver.reads s.log sent [] hreplies hlog
    have hasked : Gives (ask server (.readdir handle)).attempt s (.error .eof)
        (s.logged ⟨.readdir handle, .raised .eof⟩) := .attempt_react (by rw [hanswer])
    rw [List.flatten_nil, shown, List.map_nil, List.filter_nil, List.append_nil]
    exact .bind hasked .pure
  | cons reply rest ih =>
    obtain ⟨fuel, rfl⟩ := Nat.exists_eq_add_of_lt hfuel
    have hanswer : server.answer s.log (.readdir handle) = .ok (cmdName, encodeReply reply) :=
      hserver.reads s.log sent (reply :: rest) hreplies hlog
    have hasked : Gives (ask server (.readdir handle)).attempt s
        (.ok (cmdName, encodeReply reply)) (s.logged (readEvent handle reply)) :=
      .attempt (.react (by rw [hanswer]; rfl))
    have hmem : reply ∈ replies := hreplies ▸ List.mem_append_right sent List.mem_cons_self
    rw [List.flatten_cons, List.map_append] at h ⊢
    have hread := readReply_gives entries (hserver.reply reply hmem)
      (hserver.legal reply hmem) (hserver.name reply hmem)
      (s := s.logged (readEvent handle reply)) h.left
    have hshown : shown (reply ++ rest.flatten) = shown reply ++ shown rest.flatten := by
      rw [shown, List.map_append, List.filter_append, shown, shown]
    have hreadings : readings handle (reply :: rest) =
        readEvent handle reply :: readings handle rest := rfl
    rw [hshown, ← List.append_assoc, hreadings, List.append_cons, ← s.budget.after_append]
    have hrest : replies = (sent ++ [reply]) ++ rest := hreplies.trans (List.append_cons _ _ _)
    refine .bind hasked (.bind hread (ih (sent ++ [reply]) _ hrest ?_ h.right ?_))
    · have hfilter : [readEvent handle reply].filter (fun e => e.call = .readdir handle) =
          [readEvent handle reply] := List.filter_cons_of_pos (decide_eq_true rfl)
      rw [s.logged_log, List.filter_append, List.length_append, List.length_append, hlog, hfilter]
      rfl
    · rw [List.length_cons]
      omega

theorem closeDirectory_gives (hserver : Serves server config path handle closed replies)
    (s : Client Unit) :
    Gives (closeDirectory server handle) s ⟨⟩ (s.logged ⟨.closeHandle handle, .ok closed⟩) := by
  have hasked : Gives (ask server (.closeHandle handle)).attempt s (.ok closed)
      (s.logged ⟨.closeHandle handle, .ok closed⟩) :=
    .attempt (.react (by rw [hserver.closes]))
  exact .bind hasked .pure

theorem listDirectory_gives (hserver : Serves server config path handle closed replies)
    (fuel : Nat) {s : Client Unit} (hlog : s.log = [])
    (h : s.budget.Covers (replies.flatten.map Prod.fst)) (hfuel : replies.length < fuel) :
    Gives (listDirectory server config fuel path) s (shown replies.flatten)
      { s with
        log := ⟨.opendir path, .ok (cmdHandle, sized handle)⟩ :: readings handle replies ++
          [⟨.closeHandle handle, .ok closed⟩]
        budget := s.budget.after (replies.flatten.map Prod.fst) } := by
  obtain ⟨log, checks, budget, stuck, own⟩ := s
  obtain rfl : log = [] := hlog
  have hhandle : readHandle config (sized handle) = .ok handle := by
    have hread := (reads_boundedMessageBinary "directory handle" config.sftpMaxHandleBytes
      (sized handle) handle []).mpr ⟨_, ⟨hserver.bounded, rfl⟩, (List.append_nil _).symm⟩
    unfold readHandle
    rw [hread]
  have hopened : Gives (ask server (.opendir path)) (⟨[], checks, budget, stuck, own⟩ : Client Unit)
      (cmdHandle, sized handle)
      ⟨[⟨.opendir path, .ok (cmdHandle, sized handle)⟩], checks, budget, stuck, own⟩ :=
    .react (by rw [hserver.opens]; rfl)
  have hread := readDirectory_gives hserver replies [] [] rfl
    (s := ⟨[⟨.opendir path, .ok (cmdHandle, sized handle)⟩], checks, budget, stuck, own⟩) rfl h hfuel
  unfold listDirectory directoryEntries iterParamikoDirectoryEntries
  refine .bind hopened ?_
  rw [if_pos rfl, hhandle]
  exact .finallyDo hread (closeDirectory_gives hserver _)

/-- A correct server gets its directory listed as far as the limits go: every entry but the dot
names, in the order in which they were sent, with one request for each reply and three more. -/
theorem listDirectory_complete (hserver : Serves server config path handle closed replies)
    (limit metadataLimit fuel : Nat) (script : Script Error)
    (hcount : replies.flatten.length ≤ limit)
    (hmetadata : (replies.flatten.map fun x => x.1.cost).sum ≤ metadataLimit) :
    let run := listDirectory server config (limit + 1 + fuel) path script
      (start (.new limit metadataLimit ()))
    run.1 = .ok (shown replies.flatten) ∧ run.2.state.log =
      ⟨.opendir path, .ok (cmdHandle, sized handle)⟩ :: readings handle replies ++
        [⟨.closeHandle handle, .ok closed⟩] := by
  have hreplies : replies.length ≤ replies.flatten.length := by
    rw [List.length_flatten, ← List.length_map List.length]
    refine List.length_le_sum_of_one_le _ fun n hn => ?_
    obtain ⟨reply, hreply, rfl⟩ := List.mem_map.mp hn
    exact List.length_pos_iff.mpr (hserver.reply reply hreply).1
  have hcovers : (Budget.new limit metadataLimit).Covers (replies.flatten.map Prod.fst) := by
    rw [Budget.Covers, List.length_map, List.map_map]
    simpa only [Budget.new, Nat.zero_add] using ⟨hcount, hmetadata⟩
  have hgives := listDirectory_gives hserver (limit + 1 + fuel)
    (s := .new limit metadataLimit ()) rfl hcovers (by omega) script
    (start (.new limit metadataLimit ())) rfl
  exact ⟨hgives.1, congrArg Client.log hgives.2⟩

end

/-- A server that sends the given replies. -/
def replyServer (handle : Bytes) (closed : Nat × Bytes) (replies : List (List Sent)) : Server where
  answer log c :=
    match c with
    | .opendir _ => .ok (cmdHandle, sized handle)
    | .readdir _ =>
      ((replies.drop (log.filter fun e => e.call = .readdir handle).length).head?.map fun reply =>
        Result.ok (cmdName, encodeReply reply)).getD (.raised .eof)
    | .closeHandle _ => .ok closed
    | _ => .aborted
  cancelled _ := false

theorem replyServer_serves {config : Config} {path : String} {handle : Bytes} {closed : Nat × Bytes}
    {replies : List (List Sent)} (hbounded : Bounded config.sftpMaxHandleBytes handle)
    (hreply : ∀ reply ∈ replies, reply ≠ [] ∧ reply.length < 256 ^ 4)
    (hlegal : ∀ reply ∈ replies, ∀ x ∈ reply, x.1.Legal config x.2)
    (hname : ∀ reply ∈ replies, ∀ x ∈ reply, isDot x.1 = false → SafeName x.1.filename) :
    Serves (replyServer handle closed replies) config path handle closed replies where
  bounded := hbounded
  opens _ := rfl
  reads log sent rest hreplies hlog := by
    change (((replies.drop _).head?.map _).getD _) = _
    rw [hlog, hreplies, List.drop_left]
  closes _ := rfl
  reply := hreply
  legal := hlegal
  name := hname

/-- An entry of the given size. -/
def sizedEntry (filename : String) (size : Nat) : Entry where
  flags := flagSize
  stSize := some size
  stOwner := none
  stMode := none
  stTimes := none
  attr := ∅
  filename := filename
  longname := filename
  extraMetadataBytes := (encode filename).length

theorem sizedEntry_legal {config : Config} {filename : String} {size : Nat}
    (hname : Bounded config.remoteFilenameMaxBytes (encode filename)) (hsize : size < 256 ^ 8) :
    (sizedEntry filename size).Legal config none where
  filename := hname
  longname := hname
  flags := show flagSize &&& ~~~knownFlags = 0 by decide
  size := .inl ⟨show flagSize &&& flagSize ≠ 0 by decide, size, rfl, hsize⟩
  owner := .inr ⟨show ¬ flagSize &&& flagUidgid ≠ 0 by decide, rfl⟩
  mode := .inr ⟨show ¬ flagSize &&& flagPermissions ≠ 0 by decide, rfl⟩
  times := .inr ⟨show ¬ flagSize &&& flagAmtime ≠ 0 by decide, rfl⟩
  extended := .inr ⟨show ¬ flagSize &&& flagExtended ≠ 0 by decide, rfl⟩
  attr := rfl
  extra := rfl

/-- A directory that is sent in two replies, with the dot names among its entries. -/
def twoReplies : List (List Sent) :=
  [[(sizedEntry "." 0, none), (sizedEntry "b" 5, none)],
    [(sizedEntry ".." 0, none), (sizedEntry "a" 7, none), (sizedEntry "c" 1, none)]]

/-- The entries come in the order in which they were sent, without the dot names. -/
theorem listDirectory_complete_twoReplies :
    let run := listDirectory (replyServer [104] (101, []) twoReplies) ⟨4096, 4194304, 16384⟩ 6 "/"
      (fun _ => ⟨.none, 0⟩) (start (.new 5 1000 ()))
    run.1 = .ok [sizedEntry "b" 5, sizedEntry "a" 7, sizedEntry "c" 1] ∧
      run.2.state.log = ⟨.opendir "/", .ok (cmdHandle, sized [104])⟩ ::
        readings [104] twoReplies ++ [⟨.closeHandle [104], .ok (101, [])⟩] := by
  have hserver : Serves (replyServer [104] (101, []) twoReplies) ⟨4096, 4194304, 16384⟩ "/" [104]
      (101, []) twoReplies := by
    refine replyServer_serves (by decide) ?_ ?_ ?_
    · rw [twoReplies, List.forall_mem_cons, List.forall_mem_singleton]
      exact ⟨⟨List.cons_ne_nil _ _, by decide⟩, List.cons_ne_nil _ _, by decide⟩
    · simp only [twoReplies, List.forall_mem_cons, List.not_mem_nil, false_imp_iff, implies_true,
        and_true]
      exact ⟨⟨sizedEntry_legal (by decide +kernel) (by decide),
        sizedEntry_legal (by decide +kernel) (by decide)⟩,
        sizedEntry_legal (by decide +kernel) (by decide),
        sizedEntry_legal (by decide +kernel) (by decide),
        sizedEntry_legal (by decide +kernel) (by decide)⟩
    · decide +kernel
  exact listDirectory_complete hserver 5 1000 0 (fun _ => ⟨.none, 0⟩) (by decide)
    (by decide +kernel)

end WebSSH.Sftp
