import Mathlib
import WebSSH.Lib.Words

/-!
# The interface of a route

`_route_interface_for_ip` of `tailscale_ssh.py` asks the kernel which interface an address is
reached by, and reads the answer from the netlink messages that come back: messages, and in a route
message attributes, each with its length before it and padded to four bytes.
-/

namespace WebSSH.Tailscale
open Lib

abbrev Bytes := List UInt8

/-! ## Reading a datagram -/

def headerSize : Nat := 16
def routeSize : Nat := 12
def attributeHeaderSize : Nat := 4
def rtmNewroute : Nat := 24
def nlmsgError : Nat := 2
def nlmsgDone : Nat := 3
def rtaOif : Nat := 4

/-- The sequence number of the request. -/
def ownSequence : Nat := 1

/-- `_align_netlink`: `(length + 3) & ~3` -/
def alignNetlink (length : Nat) : Nat := (length + 3) / 4 * 4

theorem le_alignNetlink (length : Nat) : length ≤ alignNetlink length := by
  unfold alignNetlink
  omega

/-- What is returned: `None`, or the name of an interface. -/
inductive Verdict
  | failed
  | interface (index : Nat)
  deriving DecidableEq

variable (order : ByteOrder)

/-- The inner loop of `_route_interface_for_ip`, from an offset; `none` is that it runs to the end. -/
def scanAttributes (attributes : Bytes) (offset : Nat) : Option Verdict :=
  if _hmore : offset + attributeHeaderSize ≤ attributes.length then
    let length := order.field attributes offset 2
    let kind := order.field attributes (offset + 2) 2
    if _hlength : length < attributeHeaderSize ∨ attributes.length < offset + length then some .failed
    else
      let payload := (attributes.take (offset + length)).drop (offset + attributeHeaderSize)
      if kind = rtaOif ∧ 4 ≤ payload.length then some (.interface (order.field payload 0 4))
      else scanAttributes attributes (offset + alignNetlink length)
  else none
termination_by attributes.length - offset
decreasing_by
  have hle := le_alignNetlink length
  simp only [attributeHeaderSize, not_or, Nat.not_lt] at _hmore _hlength
  change attributes.length - (offset + alignNetlink length) < attributes.length - offset
  have _hpos : 4 ≤ length := _hlength.1
  omega

/-- What the outer loop does with one message. -/
def readMessage (kind replySequence : Nat) (payload : Bytes) : Option Verdict :=
  if replySequence = ownSequence then
    if kind = nlmsgError then some .failed
    else if kind = nlmsgDone then some .failed
    else if kind = rtmNewroute ∧ routeSize ≤ payload.length then
      scanAttributes order (payload.drop routeSize) 0
    else none
  else none

/-- The loop over the messages of a datagram, from an offset. -/
def scanMessages (response : Bytes) (offset : Nat) : Option Verdict :=
  if _hmore : offset + headerSize ≤ response.length then
    let length := order.field response offset 4
    let kind := order.field response (offset + 4) 2
    let replySequence := order.field response (offset + 8) 4
    if _hlength : length < headerSize ∨ response.length < offset + length then some .failed
    else
      let payload := (response.take (offset + length)).drop (offset + headerSize)
      match readMessage order kind replySequence payload with
      | some verdict => some verdict
      | none => scanMessages response (offset + alignNetlink length)
  else none
termination_by response.length - offset
decreasing_by
  have hle := le_alignNetlink length
  simp only [headerSize, not_or, Nat.not_lt] at _hmore _hlength
  change response.length - (offset + alignNetlink length) < response.length - offset
  have _hpos : 16 ≤ length := _hlength.1
  omega

/-- The outermost loop, over what `recv` returns; after that it raises. -/
def receive : List Bytes → Verdict
  | [] => .failed
  | response :: rest => (scanMessages order response 0).getD (receive rest)

/-- `_route_interface_for_ip`. The datagrams are `none` if the address is invalid or the request
cannot be sent; `ifIndextoname` is `none` where it raises an `OSError`. -/
def routeInterfaceForIp (ifIndextoname : Nat → Option String) (datagrams : Option (List Bytes)) :
    Option String :=
  match datagrams.map (receive order) with
  | some (.interface index) => ifIndextoname index
  | _ => none

/-! ## Messages -/

structure Attribute where
  kind : Nat
  payload : Bytes

namespace Attribute

def size (a : Attribute) : Nat := attributeHeaderSize + a.payload.length

def WellFormed (a : Attribute) : Prop := a.size < 2 ^ 16 ∧ a.kind < 2 ^ 16

def bytes (a : Attribute) : Bytes := order.bytes 2 a.size ++ (order.bytes 2 a.kind ++ a.payload)

def isOif (a : Attribute) : Bool := a.kind = rtaOif && decide (4 ≤ a.payload.length)

def index (a : Attribute) : Nat := order.field a.payload 0 4

end Attribute

/-- What padding follows `size` bytes: to the next multiple of four, or less after the last ones. -/
def Padding (size : Nat) (last : Prop) (pad : Bytes) : Prop :=
  size + pad.length = alignNetlink size ∨ last ∧ size + pad.length ≤ alignNetlink size

/-- Attributes one after another, each padded; the padding of the last may be missing. -/
inductive AttributeBytes : List Attribute → Bytes → Prop
  | nil : AttributeBytes [] []
  | cons {a rest pad tail} : a.WellFormed → Padding a.size (rest = []) pad →
      AttributeBytes rest tail → AttributeBytes (a :: rest) (a.bytes order ++ (pad ++ tail))

/-- What a message holds: a route, or anything else. -/
inductive Body
  | route (header : Bytes) (attributes : List Attribute)
  | other (kind : Nat) (payload : Bytes)

structure Message where
  body : Body
  flags : Nat
  sequence : Nat
  pid : Nat

namespace Body

def kind : Body → Nat
  | .route .. => rtmNewroute
  | .other kind _ => kind

/-- The body is well formed, and `payload` is its encoding. -/
def Encoded : Body → Bytes → Prop
  | .route header attributes, payload =>
    header.length = routeSize ∧
      ∃ encoded, AttributeBytes order attributes encoded ∧ payload = header ++ encoded
  | .other kind payload, payload' => kind ≠ rtmNewroute ∧ kind < 2 ^ 16 ∧ payload' = payload

end Body

namespace Message

/-- The header of a message of `size` bytes, and its payload. -/
def bytes (m : Message) (payload : Bytes) : Bytes :=
  order.bytes 4 (headerSize + payload.length) ++ (order.bytes 2 m.body.kind ++
    (order.bytes 2 m.flags ++ (order.bytes 4 m.sequence ++ (order.bytes 4 m.pid ++ payload))))

def WellFormed (m : Message) (payload : Bytes) : Prop :=
  headerSize + payload.length < 2 ^ 32 ∧ m.flags < 2 ^ 16 ∧ m.sequence < 2 ^ 32 ∧ m.pid < 2 ^ 32

/-- What a message of the request's sequence number says: a route with an interface, or that there
is none. -/
def verdict (m : Message) : Option Verdict :=
  if m.sequence = ownSequence then
    match m.body with
    | .route _ attributes => (attributes.find? Attribute.isOif).map fun a => .interface (a.index order)
    | .other kind _ => if kind = nlmsgError ∨ kind = nlmsgDone then some .failed else none
  else none

end Message

/-- Messages one after another, each padded to four bytes; the padding of the last may be missing. -/
inductive MessageBytes : List Message → Bytes → Prop
  | nil : MessageBytes [] []
  | cons {m rest payload pad tail} : m.body.Encoded order payload → m.WellFormed payload →
      Padding (headerSize + payload.length) (rest = []) pad → MessageBytes rest tail →
      MessageBytes (m :: rest) (m.bytes order payload ++ (pad ++ tail))

/-! ## What is read of messages -/

section
variable {order}

/-- The bytes between two offsets. -/
theorem slice_append (before header payload after : Bytes) :
    ((before ++ (header ++ (payload ++ after))).take
      (before.length + (header.length + payload.length))).drop (before.length + header.length) =
      payload := by
  have hsplit : before ++ (header ++ (payload ++ after)) =
      (before ++ header) ++ (payload ++ after) := (List.append_assoc ..).symm
  have hlength : before.length + (header.length + payload.length) =
      ((before ++ header) ++ payload).length := by
    simp only [List.length_append, Nat.add_assoc]
  rw [hsplit, ← List.append_assoc (before ++ header), hlength, List.take_left,
    ← List.length_append, List.drop_left]

theorem length_attribute (a : Attribute) : (a.bytes order).length = a.size := by
  simp only [Attribute.bytes, List.length_append, ByteOrder.length_bytes, Attribute.size,
    attributeHeaderSize]
  omega

/-- Attributes are read one after another, up to the first interface. -/
theorem scanAttributes_eq {attributes : List Attribute} {encoded : Bytes}
    (h : AttributeBytes order attributes encoded) (before : Bytes) :
    scanAttributes order (before ++ encoded) before.length =
      (attributes.find? Attribute.isOif).map fun a => .interface (a.index order) := by
  induction h generalizing before with
  | nil =>
    rw [scanAttributes, dif_neg]
    · rfl
    · simp [attributeHeaderSize]
  | @cons a rest pad tail hwell hpad htail ih =>
    have hlength : order.field (before ++ (a.bytes order ++ (pad ++ tail))) before.length 2 =
        a.size := by
      rw [Attribute.bytes, List.append_assoc]
      exact order.field_append before _ hwell.1
    have hkind : order.field (before ++ (a.bytes order ++ (pad ++ tail))) (before.length + 2) 2 =
        a.kind := by
      have hsplit : before ++ (a.bytes order ++ (pad ++ tail)) = (before ++ order.bytes 2 a.size) ++
          (order.bytes 2 a.kind ++ (a.payload ++ (pad ++ tail))) := by
        simp only [Attribute.bytes, List.append_assoc]
      have hoffset : before.length + 2 = (before ++ order.bytes 2 a.size).length := by
        rw [List.length_append, ByteOrder.length_bytes]
      rw [hsplit, hoffset]
      exact order.field_append _ _ hwell.2
    have hpayload : ((before ++ (a.bytes order ++ (pad ++ tail))).take
        (before.length + a.size)).drop (before.length + attributeHeaderSize) = a.payload := by
      have := slice_append before (order.bytes 2 a.size ++ order.bytes 2 a.kind) a.payload (pad ++ tail)
      simp only [List.length_append, ByteOrder.length_bytes, List.append_assoc] at this
      simp only [Attribute.bytes, List.append_assoc]
      exact this
    have htotal : (before ++ (a.bytes order ++ (pad ++ tail))).length =
        before.length + a.size + pad.length + tail.length := by
      simp only [List.length_append, length_attribute]
      omega
    have hsize : attributeHeaderSize ≤ a.size := Nat.le_add_right _ _
    rw [scanAttributes, dif_pos (by omega)]
    simp only [hlength, hkind, hpayload]
    rw [dif_neg (by omega)]
    by_cases hoif : a.kind = rtaOif ∧ 4 ≤ a.payload.length
    · have hfound : a.isOif = true := by simp [Attribute.isOif, hoif.1, hoif.2]
      rw [if_pos hoif, List.find?_cons_of_pos hfound]
      rfl
    · have hfound : ¬ a.isOif = true := by simpa [Attribute.isOif] using hoif
      rw [if_neg hoif, List.find?_cons_of_neg hfound]
      rcases hpad with hpad | ⟨hlast, hpad⟩
      · have hsplit : before ++ (a.bytes order ++ (pad ++ tail)) =
            (before ++ (a.bytes order ++ pad)) ++ tail := by simp only [List.append_assoc]
        have hoffset : before.length + alignNetlink a.size =
            (before ++ (a.bytes order ++ pad)).length := by
          simp only [List.length_append, length_attribute]
          omega
        rw [hsplit, hoffset]
        exact ih _
      · subst hlast
        cases htail
        rw [scanAttributes, dif_neg]
        · rfl
        · rw [htotal, attributeHeaderSize, List.length_nil]
          omega

theorem length_message (m : Message) (payload : Bytes) :
    (m.bytes order payload).length = headerSize + payload.length := by
  simp only [Message.bytes, List.length_append, ByteOrder.length_bytes, headerSize]
  omega

theorem Body.Encoded.kind_lt {body : Body} {payload : Bytes} (h : body.Encoded order payload) :
    body.kind < 256 ^ 2 := by
  cases body with
  | route header attributes => exact show rtmNewroute < 256 ^ 2 by decide
  | other kind payload' => exact h.2.1

/-- What the code does with a message is what the message says. -/
theorem readMessage_eq {m : Message} {payload : Bytes} (h : m.body.Encoded order payload) :
    readMessage order m.body.kind m.sequence payload = m.verdict order := by
  rw [readMessage, Message.verdict]
  split
  · generalize m.body = body at h
    cases body with
    | route header attributes =>
      obtain ⟨hheader, encoded, hencoded, rfl⟩ := h
      have hlong : routeSize ≤ (header ++ encoded).length := by
        rw [List.length_append, hheader]
        exact Nat.le_add_right _ _
      have herror : ¬ Body.kind (.route header attributes) = nlmsgError :=
        show ¬ rtmNewroute = nlmsgError by decide
      have hdone : ¬ Body.kind (.route header attributes) = nlmsgDone :=
        show ¬ rtmNewroute = nlmsgDone by decide
      rw [if_neg herror, if_neg hdone, if_pos ⟨rfl, hlong⟩, ← hheader, List.drop_left]
      exact scanAttributes_eq hencoded []
    | other kind payload' =>
      obtain ⟨hkind, -, rfl⟩ := h
      by_cases herror : Body.kind (.other kind payload) = nlmsgError
      · exact (if_pos herror).trans (if_pos (.inl herror)).symm
      · by_cases hdone : Body.kind (.other kind payload) = nlmsgDone
        · exact (if_neg herror).trans ((if_pos hdone).trans (if_pos (.inr hdone)).symm)
        · refine (if_neg herror).trans ((if_neg hdone).trans ?_)
          refine (if_neg fun h => hkind h.1).trans (if_neg ?_).symm
          exact fun h => h.elim herror hdone
  · rfl

/-- Messages are read one after another, up to the first that says anything. -/
theorem scanMessages_eq {messages : List Message} {encoded : Bytes}
    (h : MessageBytes order messages encoded) (before : Bytes) :
    scanMessages order (before ++ encoded) before.length =
      messages.findSome? (Message.verdict order) := by
  induction h generalizing before with
  | nil =>
    rw [scanMessages, dif_neg]
    · rfl
    · simp [headerSize]
  | @cons m rest payload pad tail hbody hwell hpad htail ih =>
    have hsize : headerSize ≤ headerSize + payload.length := Nat.le_add_right _ _
    have hlength : order.field (before ++ (m.bytes order payload ++ (pad ++ tail))) before.length 4 =
        headerSize + payload.length := by
      rw [Message.bytes, List.append_assoc]
      exact order.field_append before _ hwell.1
    have hkind : order.field (before ++ (m.bytes order payload ++ (pad ++ tail)))
        (before.length + 4) 2 = m.body.kind := by
      have hsplit : before ++ (m.bytes order payload ++ (pad ++ tail)) =
          (before ++ order.bytes 4 (headerSize + payload.length)) ++
            (order.bytes 2 m.body.kind ++ (order.bytes 2 m.flags ++ (order.bytes 4 m.sequence ++
              (order.bytes 4 m.pid ++ (payload ++ (pad ++ tail)))))) := by
        simp only [Message.bytes, List.append_assoc]
      have hoffset : before.length + 4 =
          (before ++ order.bytes 4 (headerSize + payload.length)).length := by
        rw [List.length_append, ByteOrder.length_bytes]
      rw [hsplit, hoffset]
      exact order.field_append _ _ hbody.kind_lt
    have hsequence : order.field (before ++ (m.bytes order payload ++ (pad ++ tail)))
        (before.length + 8) 4 = m.sequence := by
      have hsplit : before ++ (m.bytes order payload ++ (pad ++ tail)) =
          (before ++ (order.bytes 4 (headerSize + payload.length) ++ (order.bytes 2 m.body.kind ++
            order.bytes 2 m.flags))) ++ (order.bytes 4 m.sequence ++
              (order.bytes 4 m.pid ++ (payload ++ (pad ++ tail)))) := by
        simp only [Message.bytes, List.append_assoc]
      have hoffset : before.length + 8 = (before ++ (order.bytes 4 (headerSize + payload.length) ++
          (order.bytes 2 m.body.kind ++ order.bytes 2 m.flags))).length := by
        simp only [List.length_append, ByteOrder.length_bytes]
      rw [hsplit, hoffset]
      exact order.field_append _ _ hwell.2.2.1
    have hpayload : ((before ++ (m.bytes order payload ++ (pad ++ tail))).take
        (before.length + (headerSize + payload.length))).drop (before.length + headerSize) =
        payload := by
      have := slice_append before (order.bytes 4 (headerSize + payload.length) ++
        (order.bytes 2 m.body.kind ++ (order.bytes 2 m.flags ++ (order.bytes 4 m.sequence ++
          order.bytes 4 m.pid)))) payload (pad ++ tail)
      simp only [List.length_append, ByteOrder.length_bytes, List.append_assoc] at this
      simp only [Message.bytes, List.append_assoc]
      exact this
    have htotal : (before ++ (m.bytes order payload ++ (pad ++ tail))).length =
        before.length + (headerSize + payload.length) + pad.length + tail.length := by
      simp only [List.length_append, length_message]
      omega
    rw [scanMessages, dif_pos (by omega)]
    simp only [hlength, hkind, hsequence, hpayload]
    rw [dif_neg (by omega), readMessage_eq hbody, List.findSome?_cons]
    cases m.verdict order with
    | some verdict => rfl
    | none =>
      rcases hpad with hpad | ⟨hlast, hpad⟩
      · have hsplit : before ++ (m.bytes order payload ++ (pad ++ tail)) =
            (before ++ (m.bytes order payload ++ pad)) ++ tail := by simp only [List.append_assoc]
        have hoffset : before.length + alignNetlink (headerSize + payload.length) =
            (before ++ (m.bytes order payload ++ pad)).length := by
          simp only [List.length_append, length_message]
          omega
        rw [hsplit, hoffset]
        exact ih _
      · subst hlast
        cases htail
        rw [scanMessages, dif_neg]
        · rfl
        · rw [htotal, List.length_nil]
          have : headerSize = 16 := rfl
          omega

theorem receive_eq {datagrams : List Bytes} {messages : List (List Message)}
    (h : List.Forall₂ (MessageBytes order) messages datagrams) :
    receive order datagrams =
      (messages.flatten.findSome? (Message.verdict order)).getD .failed := by
  induction h with
  | nil => rfl
  | cons hdatagram _ ih =>
    have hscan := scanMessages_eq hdatagram []
    rw [List.nil_append, List.length_nil] at hscan
    rw [receive, hscan, ih, List.flatten_cons, List.findSome?_append]
    cases List.findSome? (Message.verdict order) _ with
    | none => rfl
    | some verdict => rfl

/-- The first message of the request that says anything decides. -/
theorem routeInterfaceForIp_eq (ifIndextoname : Nat → Option String) {datagrams : List Bytes}
    {messages : List (List Message)} (h : List.Forall₂ (MessageBytes order) messages datagrams) :
    routeInterfaceForIp order ifIndextoname (some datagrams) =
      match messages.flatten.findSome? (Message.verdict order) with
      | some (.interface index) => ifIndextoname index
      | _ => none := by
  rw [routeInterfaceForIp, Option.map_some, receive_eq h]
  cases List.findSome? (Message.verdict order) messages.flatten with
  | none => rfl
  | some verdict => cases verdict <;> rfl

end

/-- A destination and an interface. -/
def sampleAttributes : List Attribute := [⟨1, [100, 64, 0]⟩, ⟨rtaOif, [7, 0, 0, 0]⟩]

def sampleEncoding : Bytes :=
  Attribute.bytes .little ⟨1, [100, 64, 0]⟩ ++ ([0] ++
    (Attribute.bytes .little ⟨rtaOif, [7, 0, 0, 0]⟩ ++ ([] ++ [])))

def sampleMessages : List Message :=
  [⟨.other nlmsgDone [0, 0], 0, 9, 0⟩, ⟨.route (List.replicate 12 0) sampleAttributes, 0, ownSequence, 0⟩]

/-- The end of another request's answer, and a route by interface 7. -/
def sampleDatagram : Bytes :=
  Message.bytes .little ⟨.other nlmsgDone [0, 0], 0, 9, 0⟩ [0, 0] ++ ([0, 0] ++
    (Message.bytes .little ⟨.route (List.replicate 12 0) sampleAttributes, 0, ownSequence, 0⟩
      (List.replicate 12 0 ++ sampleEncoding) ++ ([] ++ [])))

theorem sampleDatagram_bytes : MessageBytes .little sampleMessages sampleDatagram := by
  have hattributes : AttributeBytes .little sampleAttributes sampleEncoding :=
    .cons ⟨by decide, by decide⟩ (.inl rfl) (.cons ⟨by decide, by decide⟩ (.inl rfl) .nil)
  have hother : Body.Encoded .little (.other nlmsgDone [0, 0]) [0, 0] := ⟨by decide, by decide, rfl⟩
  have hroute : Body.Encoded .little (.route (List.replicate 12 0) sampleAttributes)
      (List.replicate 12 0 ++ sampleEncoding) := ⟨rfl, _, hattributes, rfl⟩
  exact .cons hother ⟨by decide, by decide, by decide, by decide⟩ (.inl rfl)
    (.cons hroute ⟨by decide, by decide, by decide, by decide⟩ (.inl rfl) .nil)

theorem routeInterfaceForIp_eq_tailscale0 :
    routeInterfaceForIp .little (fun index => if index = 7 then some "tailscale0" else none)
      (some [sampleDatagram]) = some "tailscale0" :=
  (routeInterfaceForIp_eq _ (.cons sampleDatagram_bytes .nil)).trans rfl

end WebSSH.Tailscale
