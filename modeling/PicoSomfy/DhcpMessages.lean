import PicoSomfy.DhcpServer

/-!
# Messages of the address server

On the wire a message is a fixed header and a list of options. `serve` is the server on
messages; it looks at the hardware address and at the first message type and the first
requested address among the options. On the bytes of a message the server of the source
does the same, whatever the stack holds and whatever follows the closing code, and it
broadcasts the bytes of the answer.
-/
namespace PicoSomfy

open NorFlash ByteMemory OptionLists Dhcp

/-- A message. The parts of the header that nobody looks at are kept as rows of bytes:
`htype` to `ciaddr`, `siaddr` and `giaddr`, the end of `chaddr` to the magic cookie. -/
structure DhcpMessage where
  op : UInt8
  head : Vector UInt8 15
  yiaddr : Ip4
  relay : Vector UInt8 8
  mac : Mac
  names : Vector UInt8 206
  options : List (Field optEnd)

namespace DhcpMessage

def header (m : DhcpMessage) : List UInt8 :=
  m.op :: m.head.toList ++ m.yiaddr.bytes ++ m.relay.toList ++ m.mac.toList ++ m.names.toList

def encode (m : DhcpMessage) : List UInt8 := m.header ++ OptionLists.encode m.options

def option (m : DhcpMessage) (tag : UInt8) : Option (List UInt8) :=
  (lookup m.options tag).map Field.data

def type (m : DhcpMessage) : Option UInt8 := (m.option optMsgType).map fun data => data.getD 0 0

/-- The message fits the buffer of the server, the message type has a byte and the
requested address has four. -/
structure WellFormed (m : DhcpMessage) : Prop where
  fits : m.encode.length ≤ sizeofMsg
  typed : ∀ data ∈ m.option optMsgType, data ≠ []
  addressed : ∀ data ∈ m.option optRequestedIp, 4 ≤ data.length

def leaseTime : List UInt8 := [0, 1, 0x51, 0x80]

/-- The answer to a message. -/
def answer (m : DhcpMessage) (d : DhcpServer) (type : UInt8) (yi : Fin maxIp) : DhcpMessage :=
  { m with
    op := dhcpOffer
    yiaddr := d.address yi
    options :=
      [⟨optMsgType, [type], by decide, by simp⟩,
        ⟨optServerId, d.ip.bytes, by decide, by simp [Ip4.bytes]⟩,
        ⟨optSubnetMask, d.nm.bytes, by decide, by simp [Ip4.bytes]⟩,
        ⟨optRouter, d.ip.bytes, by decide, by simp [Ip4.bytes]⟩,
        ⟨optDns, d.ip.bytes, by decide, by simp [Ip4.bytes]⟩,
        ⟨optIpLeaseTime, leaseTime, by decide, by simp [leaseTime]⟩] }

theorem length_header (m : DhcpMessage) : m.header.length = optAt := by
  simp [header, Ip4.bytes, optAt]

theorem length_answer_le (m : DhcpMessage) (d : DhcpServer) (type : UInt8) (yi : Fin maxIp) :
    (m.answer d type yi).encode.length ≤ sizeofMsg := by
  rw [encode, List.length_append, length_header]
  simp [answer, OptionLists.encode, Field.encode, Ip4.bytes, leaseTime, optAt, sizeofMsg]

end DhcpMessage

namespace DhcpServer

/-- The server on messages. -/
def serve (d : DhcpServer) (m : DhcpMessage) (ticks : Fin maxIp → UInt32) :
    Option DhcpMessage × DhcpServer :=
  match m.type with
  | none => (none, d)
  | some type =>
      let (answer, d') := d.respond type m.mac ((m.option optRequestedIp).bind d.slotOf) ticks
      (answer.map fun a => m.answer d a.1 a.2, d')

end DhcpServer

theorem macAt_of_holds {m : Image} {a : ℕ} {mac : Mac} (h : HoldsAt m a mac.toList) :
    macAt m a = mac := by
  apply Vector.ext
  intro i hi
  have hread := h.getD (i := i) (by simpa using hi)
  rw [macAt, vectorAt, Vector.getElem_ofFn, hread, List.getD_eq_getElem _ _ (by simpa using hi),
    Vector.getElem_toList]

namespace DhcpMessage

variable {m : DhcpMessage} {msg : Image}

/-- The message buffer holds the message, with its first two fields overwritten. -/
theorem WellFormed.received (hm : m.WellFormed) (d : DhcpServer) (g : Datagram)
    {padding : List UInt8} (hg : g.bytes = m.encode ++ padding) :
    HoldsAt (d.received g) 0 { m with op := dhcpOffer, yiaddr := d.ip }.encode := by
  have hcopied : HoldsAt (poke g.stack 0 (g.bytes.take sizeofMsg)) 0 m.encode := by
    have hall := holds_poke g.stack 0 (g.bytes.take sizeofMsg)
    rw [hg, List.take_append, List.take_of_length_le hm.fits, holds_append] at hall
    rw [hg, List.take_append, List.take_of_length_le hm.fits]
    exact hall.1
  have hop : HoldsAt (poke (poke g.stack 0 (g.bytes.take sizeofMsg)) opAt [dhcpOffer]) 0
      { m with op := dhcpOffer }.encode :=
    (show HoldsAt _ 0 ([] ++ [m.op] ++ _) from hcopied).replace rfl [dhcpOffer] rfl
  have hyiaddr : { m with op := dhcpOffer }.encode = dhcpOffer :: m.head.toList ++ m.yiaddr.bytes ++
      (m.relay.toList ++ m.mac.toList ++ m.names.toList ++ OptionLists.encode m.options) := by
    simp only [encode, header, List.append_assoc, List.cons_append]
  rw [hyiaddr] at hop
  have hplace : yiaddrAt = 0 + (dhcpOffer :: m.head.toList).length := by simp [yiaddrAt]
  have hnew := hop.replace hplace d.ip.bytes rfl
  simpa only [DhcpServer.received, encode, header, List.append_assoc, List.cons_append] using hnew

theorem mac_of_holds (h : HoldsAt msg 0 m.encode) : macAt msg chaddrAt = m.mac := by
  have hsplit : m.encode = (m.op :: m.head.toList ++ m.yiaddr.bytes ++ m.relay.toList) ++
      (m.mac.toList ++ (m.names.toList ++ OptionLists.encode m.options)) := by
    simp only [encode, header, List.append_assoc, List.cons_append]
  rw [hsplit, holds_append] at h
  have hplace : chaddrAt =
      0 + (m.op :: m.head.toList ++ m.yiaddr.bytes ++ m.relay.toList).length := by
    simp [chaddrAt, Ip4.bytes]
  rw [← hplace] at h
  exact macAt_of_holds (holds_append.mp h.2).1

/-- The options stand behind the header. -/
theorem options_of_holds (h : HoldsAt msg 0 m.encode) :
    HoldsAt msg optAt (OptionLists.encode m.options) := by
  rw [encode, holds_append, length_header, Nat.zero_add] at h
  exact h.2

theorem facing (h : HoldsAt msg 0 m.encode) (hm : m.encode.length ≤ sizeofMsg) :
    Facing 308 (fun i => msg (optAt + i)) m.options 308 0 := by
  have hturns := two_mul_length_lt m.options
  rw [encode, List.length_append, length_header] at hm
  simp only [sizeofMsg, optAt] at hm
  exact ⟨(options_of_holds h).shift, by omega, by omega⟩

theorem optFind_none (h : HoldsAt msg 0 m.encode) (hm : m.encode.length ≤ sizeofMsg) {tag : UInt8}
    (ho : m.option tag = none) : optFind msg tag = none :=
  scan_none (facing h hm) (Option.map_eq_none_iff.mp ho)

/-- The data of an option stand two bytes behind the place that is found. -/
theorem optFind_some (h : HoldsAt msg 0 m.encode) (hm : m.encode.length ≤ sizeofMsg) {tag : UInt8}
    {data : List UInt8} (ho : m.option tag = some data) :
    ∃ k, optFind msg tag = some k ∧ HoldsAt msg (optAt + k + 2) data := by
  obtain ⟨f, hf, rfl⟩ := Option.map_eq_some_iff.mp ho
  obtain ⟨k, hk, -, -, hholds⟩ := scan_some (facing h hm) hf
  refine ⟨k, hk, ⟨fun {i} hi => ?_⟩⟩
  have hread := hholds.tail.tail.getD hi
  rw [← hread]
  congr 1
  omega

theorem bytesAt_put (msg : Image) (bs : List UInt8) :
    bytesAt (OptWriter.put (msg, optAt) bs).1 0 (OptWriter.put (msg, optAt) bs).2 =
      bytesAt msg 0 optAt ++ bs := by
  have hfront : bytesAt (poke msg optAt bs) 0 optAt = bytesAt msg 0 optAt :=
    bytesAt_poke_of_le (by rw [Nat.zero_add])
  change bytesAt (poke msg optAt bs) 0 (optAt + bs.length) = _
  rw [bytesAt_add, hfront, Nat.zero_add, (holds_poke msg optAt bs).bytesAt]

theorem put_put (w : OptWriter) (bs cs : List UInt8) : (w.put bs).put cs = w.put (bs ++ cs) := by
  simp only [OptWriter.put, poke_poke, List.length_append, Nat.add_assoc]

/-- The broadcast bytes are those of the answer. -/
theorem reply_eq (hheader : HoldsAt msg 0 m.header) {d : DhcpServer} (hop : m.op = dhcpOffer)
    (hip : m.yiaddr = d.ip) (type : UInt8) (yi : Fin maxIp) :
    d.reply msg type yi = (m.answer d type yi).encode := by
  have hsplit : m.header = (m.op :: m.head.toList ++ [m.yiaddr.a, m.yiaddr.b, m.yiaddr.c]) ++
      [m.yiaddr.d] ++ (m.relay.toList ++ m.mac.toList ++ m.names.toList) := by
    simp only [header, Ip4.bytes, List.append_assoc, List.cons_append, List.nil_append]
  rw [hsplit] at hheader
  have hnew := hheader.replace (b := yiaddrAt + 3) (by simp [yiaddrAt])
    [baseIp + UInt8.ofNat yi] rfl
  have hanswer : (m.op :: m.head.toList ++ [m.yiaddr.a, m.yiaddr.b, m.yiaddr.c]) ++
      [baseIp + UInt8.ofNat yi] ++ (m.relay.toList ++ m.mac.toList ++ m.names.toList) =
        (m.answer d type yi).header := by
    simp only [header, answer, hop, hip, DhcpServer.address, Ip4.bytes, List.append_assoc,
      List.cons_append, List.nil_append]
  rw [hanswer] at hnew
  have hread := hnew.bytesAt
  rw [length_header] at hread
  unfold DhcpServer.reply
  simp only [optWriteU8, optWriteN, optWriteU32, put_put]
  rw [bytesAt_put, hread, encode]
  rfl

theorem slotOf_take (d : DhcpServer) (data : List UInt8) :
    d.slotOf (data.take 4) = d.slotOf data := by
  have hfront : (data.take 4).take 3 = data.take 3 := List.take_take
  have hlast : (data.take 4).getD 3 0 = data.getD 3 0 := by
    simp only [List.getD_eq_getElem?_getD, List.getElem?_take, if_pos (show 3 < 4 by decide)]
  simp only [DhcpServer.slotOf, hfront, hlast]

/-- The slot that is read from the message buffer is the one of the option. -/
theorem requested_eq (h : HoldsAt msg 0 m.encode) (hm : m.WellFormed) (d : DhcpServer) :
    d.requested msg = (m.option optRequestedIp).bind d.slotOf := by
  unfold DhcpServer.requested
  cases ho : m.option optRequestedIp with
  | none => rw [optFind_none h hm.fits ho, Option.bind_none, Option.bind_none]
  | some data =>
      obtain ⟨k, hk, hdata⟩ := optFind_some h hm.fits ho
      rw [hk, Option.bind_some, Option.bind_some, hdata.bytesAt_take (hm.addressed data ho),
        slotOf_take]

/-- A message with a type is long enough. -/
theorem minSize_le {data : List UInt8} (ho : m.option optMsgType = some data) (hdata : data ≠ []) :
    minSize ≤ m.encode.length := by
  obtain ⟨f, hf, rfl⟩ := Option.map_eq_some_iff.mp ho
  have hpos := List.length_pos_of_ne_nil hdata
  have hlong : ∀ fs : List (Field optEnd), f ∈ fs →
      f.encode.length < (OptionLists.encode fs).length := by
    intro fs hmem
    induction fs with
    | nil => cases hmem
    | cons g fs ih =>
        rw [encode_cons, List.length_append]
        have hrest := two_mul_length_lt fs
        rcases List.mem_cons.mp hmem with rfl | hmem
        · omega
        · exact (ih hmem).trans_le (Nat.le_add_left _ _)
  have hfield := hlong m.options (List.mem_of_find?_eq_some hf)
  rw [f.length_encode] at hfield
  rw [encode, List.length_append, length_header, minSize, optAt]
  omega

/-- On the bytes of a message the server does what it does on the message, whatever
stands behind it in the datagram and in the memory. -/
theorem process_encode (hm : m.WellFormed) (d : DhcpServer) (g : Datagram) {padding : List UInt8}
    (hg : g.bytes = m.encode ++ padding) :
    d.process g = ((d.serve m g.ticks).1.map encode, (d.serve m g.ticks).2) := by
  have hmsg := hm.received d g hg
  have hoverwritten : { m with op := dhcpOffer, yiaddr := d.ip }.WellFormed := by
    refine ⟨?_, hm.typed, hm.addressed⟩
    rw [encode, List.length_append, length_header]
    have hfits := hm.fits
    rwa [encode, List.length_append, length_header] at hfits
  have hreply : ∀ a : UInt8 × Fin maxIp,
      d.reply (d.received g) a.1 a.2 = (m.answer d a.1 a.2).encode :=
    fun a => reply_eq (holds_append.mp hmsg).1 rfl rfl a.1 a.2
  unfold DhcpServer.process DhcpServer.serve
  rw [type]
  cases ho : m.option optMsgType with
  | none =>
      simp only [optFind_none hmsg hoverwritten.fits ho, Option.map_none]
      split_ifs <;> rfl
  | some data =>
      have hdata := hm.typed data ho
      obtain ⟨k, hk, hholds⟩ := optFind_some hmsg hoverwritten.fits ho
      have htype : d.received g (optAt + k + 2) = data.getD 0 0 :=
        hholds.getD (List.length_pos_of_ne_nil hdata)
      have hlong : ¬g.bytes.length < minSize := by
        rw [hg, List.length_append]
        have hle := minSize_le ho hdata
        omega
      simp only [if_neg hlong, hk, htype, Option.map_some, mac_of_holds hmsg,
        requested_eq hmsg hoverwritten d, hreply, Option.map_map]
      rfl

/-- An exchange on the wire is an exchange of messages: on the bytes of a message the
server does what `serve` does and broadcasts the bytes of its answer, in which every
option is found again. -/
theorem exchange_on_wire (hm : m.WellFormed) (d : DhcpServer) (g : Datagram)
    {padding : List UInt8} (hg : g.bytes = m.encode ++ padding) :
    d.process g = ((d.serve m g.ticks).1.map encode, (d.serve m g.ticks).2) ∧
      ∀ a ∈ (d.serve m g.ticks).1, ∀ (buffer : Image) (tag : UInt8) (data : List UInt8),
        a.option tag = some data → ∃ k, optFind (poke buffer 0 a.encode) tag = some k ∧
          bytesAt (poke buffer 0 a.encode) (optAt + k + 2) data.length = data := by
  refine ⟨process_encode hm d g hg, fun a ha buffer tag data htag => ?_⟩
  have hanswer : ∃ type yi, a = m.answer d type yi := by
    unfold DhcpServer.serve at ha
    cases htype : m.type with
    | none => simp [htype] at ha
    | some type =>
        rw [htype] at ha
        obtain ⟨answer, -, rfl⟩ := Option.map_eq_some_iff.mp ha
        exact ⟨_, _, rfl⟩
  obtain ⟨type, yi, rfl⟩ := hanswer
  obtain ⟨k, hk, hdata⟩ := optFind_some (holds_poke buffer 0 _) (length_answer_le ..) htag
  exact ⟨k, hk, hdata.bytesAt⟩

def phone : Mac := #v[2, 0, 0, 0, 0, 1]

/-- A message of the client with some options. -/
def ofPhone (options : List (Field optEnd)) : DhcpMessage where
  op := 1
  head := Vector.replicate 15 0
  yiaddr := ⟨0, 0, 0, 0⟩
  relay := Vector.replicate 8 0
  mac := phone
  names := Vector.replicate 206 0
  options := options

def phoneDiscovers : DhcpMessage := ofPhone [⟨optMsgType, [dhcpDiscover], by decide, by decide⟩]

def phoneRequests : DhcpMessage := ofPhone
  [⟨optMsgType, [dhcpRequest], by decide, by decide⟩,
    ⟨optRequestedIp, [192, 168, 4, 16], by decide, by decide⟩]

theorem phoneDiscovers_wellFormed : phoneDiscovers.WellFormed := by
  constructor
  · rw [encode, List.length_append, length_header]
    decide
  · intro data hdata
    obtain rfl : data = [dhcpDiscover] := (Option.some.inj hdata).symm
    exact List.cons_ne_nil _ _
  · intro data hdata
    cases hdata

def accessPoint : DhcpServer := .init ⟨192, 168, 4, 1⟩ ⟨255, 255, 255, 0⟩

theorem exchange_on_wire_phone :
    accessPoint.process ⟨phoneDiscovers.encode ++ [0], fun _ => 0, fun _ => 0⟩ =
      ((accessPoint.serve phoneDiscovers fun _ => 0).1.map encode,
        (accessPoint.serve phoneDiscovers fun _ => 0).2) :=
  (exchange_on_wire phoneDiscovers_wellFormed accessPoint
    ⟨phoneDiscovers.encode ++ [0], fun _ => 0, fun _ => 0⟩ rfl).1

end DhcpMessage

end PicoSomfy
