import PicoSomfy.OptionLists
import PicoSomfy.LeaseTable

/-!
# The address server of the access point

While it is set up, the device is an access point and hands out eight addresses. The
server reads a datagram into a message buffer on its stack, looks for the message type
and answers a discovery with an offer and a request with an acknowledgement. It never
refuses: what it does not grant it ignores. An offer reserves nothing.

The buffer is 548 bytes. A shorter datagram leaves old bytes of the stack behind it, and
a look at an option may read behind the buffer; the memory has a byte everywhere. Times
are milliseconds since the start, of which the server sees the lower 32 bits. A lease
remembers the upper half of the tick count at which it ends. The clock is read for one
slot at a time.
-/
namespace PicoSomfy

open NorFlash ByteMemory OptionLists

structure Ip4 where
  a : UInt8
  b : UInt8
  c : UInt8
  d : UInt8
  deriving DecidableEq, Repr

/-- An address in network order. -/
def Ip4.bytes (ip : Ip4) : List UInt8 := [ip.a, ip.b, ip.c, ip.d]

abbrev Mac := Vector UInt8 6

def noMac : Mac := Vector.replicate 6 0

def macAt (m : Image) (a : ℕ) : Mac := vectorAt m a 6

namespace Dhcp

def dhcpDiscover : UInt8 := 1
def dhcpOffer : UInt8 := 2
def dhcpRequest : UInt8 := 3
def dhcpAck : UInt8 := 5

def optSubnetMask : UInt8 := 1
def optRouter : UInt8 := 3
def optDns : UInt8 := 6
def optRequestedIp : UInt8 := 50
def optIpLeaseTime : UInt8 := 51
def optMsgType : UInt8 := 53
def optServerId : UInt8 := 54
def optEnd : UInt8 := 255

def minSize : ℕ := 243
def sizeofMsg : ℕ := 548
def defaultLeaseTimeS : UInt32 := 86400
def baseIp : UInt8 := 16
def maxIp : ℕ := 8

def opAt : ℕ := 0
def yiaddrAt : ℕ := 16
def chaddrAt : ℕ := 28
def optAt : ℕ := 240

end Dhcp

open Dhcp

structure Lease where
  mac : Mac
  expiry : UInt16
  deriving DecidableEq, Repr

structure DhcpServer where
  ip : Ip4
  nm : Ip4
  lease : Fin maxIp → Lease

/-- A datagram, what stood in the memory before it was copied there, and the time at
which the lease of a slot is looked at. -/
structure Datagram where
  bytes : List UInt8
  stack : Image
  clock : Fin maxIp → ℕ

def Datagram.ticks (g : Datagram) (i : Fin maxIp) : UInt32 := UInt32.ofNat (g.clock i)

/-- The place of an option, counted from the first one. -/
def optFind (msg : Image) (cmd : UInt8) : Option ℕ :=
  scan optEnd 308 (fun i => msg (optAt + i)) cmd 308 0

/-- A message that is being written, and the place of the next option. -/
abbrev OptWriter := Image × ℕ

def OptWriter.put (w : OptWriter) (bs : List UInt8) : OptWriter :=
  (poke w.1 w.2 bs, w.2 + bs.length)

def optWriteN (cmd : UInt8) (data : List UInt8) (w : OptWriter) : OptWriter :=
  w.put (cmd :: UInt8.ofNat data.length :: data)

def optWriteU8 (cmd val : UInt8) (w : OptWriter) : OptWriter := w.put [cmd, 1, val]

def optWriteU32 (cmd : UInt8) (val : UInt32) (w : OptWriter) : OptWriter :=
  w.put [cmd, 4, (val >>> (24 : UInt32)).toUInt8, (val >>> (16 : UInt32)).toUInt8,
    (val >>> (8 : UInt32)).toUInt8, val.toUInt8]

namespace DhcpServer

def init (ip nm : Ip4) : DhcpServer := ⟨ip, nm, fun _ => ⟨noMac, 0⟩⟩

/-- The address of a slot. -/
def address (d : DhcpServer) (slot : Fin maxIp) : Ip4 :=
  { d.ip with d := baseIp + UInt8.ofNat slot }

/-- The end of a lease is behind, seen on a tick count that wraps around. -/
def expired (l : Lease) (ticks : UInt32) : Bool :=
  decide ((((l.expiry.toUInt32 <<< (16 : UInt32)) ||| 0xffff) - ticks).toInt32 < 0)

/-- The loop over the slots of a discovery. A slot of the client ends it; until a slot
was chosen, a free one or one whose time is over is. -/
def search (mac : Mac) (ticks : Fin maxIp → UInt32) :
    List (Fin maxIp) → (Fin maxIp → Lease) → Option (Fin maxIp) →
      (Fin maxIp → Lease) × Option (Fin maxIp)
  | [], lease, yi => (lease, yi)
  | i :: rest, lease, yi =>
      if (lease i).mac = mac then (lease, some i)
      else if yi ≠ none then search mac ticks rest lease yi
      else if expired (lease i) (ticks i) then
        search mac ticks rest (Function.update lease i { lease i with mac := noMac }) (some i)
      else search mac ticks rest lease (if (lease i).mac = noMac then some i else none)

/-- A lease that starts now. -/
def renewed (mac : Mac) (ticks : UInt32) : Lease :=
  ⟨mac, ((ticks + defaultLeaseTimeS * 1000) >>> (16 : UInt32)).toUInt16⟩

/-- The slot of a requested address. -/
def slotOf (d : DhcpServer) (address : List UInt8) : Option (Fin maxIp) :=
  if address.take 3 ≠ d.ip.bytes.take 3 then none
  else
    let yi := address.getD 3 0 - baseIp
    if h : yi.toNat < maxIp then some ⟨yi.toNat, h⟩ else none

/-- The slot a request asks for. -/
def requested (d : DhcpServer) (msg : Image) : Option (Fin maxIp) :=
  (optFind msg optRequestedIp).bind fun o => d.slotOf (bytesAt msg (optAt + o + 2) 4)

/-- The switch over the message type: the type of the answer and its slot. -/
def respond (d : DhcpServer) (type : UInt8) (mac : Mac) (slot : Option (Fin maxIp))
    (ticks : Fin maxIp → UInt32) : Option (UInt8 × Fin maxIp) × DhcpServer :=
  if type = dhcpDiscover then
    let (lease, yi) := search mac ticks (List.finRange maxIp) d.lease none
    (yi.map fun yi => (dhcpOffer, yi), { d with lease := lease })
  else if type = dhcpRequest then
    match slot with
    | none => (none, d)
    | some yi =>
        if (d.lease yi).mac = mac ∨ (d.lease yi).mac = noMac then
          (some (dhcpAck, yi),
            { d with lease := Function.update d.lease yi (renewed mac (ticks yi)) })
        else (none, d)
  else (none, d)

/-- The rest of the message buffer is sent back as it was received. -/
def reply (d : DhcpServer) (msg : Image) (type : UInt8) (yi : Fin maxIp) : List UInt8 :=
  let msg := poke msg (yiaddrAt + 3) [baseIp + UInt8.ofNat yi]
  let w := optWriteU8 optMsgType type (msg, optAt)
  let w := optWriteN optServerId d.ip.bytes w
  let w := optWriteN optSubnetMask d.nm.bytes w
  let w := optWriteN optRouter d.ip.bytes w
  let w := optWriteN optDns d.ip.bytes w
  let w := optWriteU32 optIpLeaseTime defaultLeaseTimeS w
  let w := w.put [optEnd]
  bytesAt w.1 0 w.2

/-- The message buffer when the options are looked at. -/
def received (d : DhcpServer) (g : Datagram) : Image :=
  poke (poke (poke g.stack 0 (g.bytes.take sizeofMsg)) opAt [dhcpOffer]) yiaddrAt d.ip.bytes

/-- What is broadcast for a datagram, and the leases after it. -/
def process (d : DhcpServer) (g : Datagram) : Option (List UInt8) × DhcpServer :=
  if g.bytes.length < minSize then (none, d)
  else
    let msg := d.received g
    let mac := macAt msg chaddrAt
    match optFind msg optMsgType with
    | none => (none, d)
    | some msgtype =>
        let (answer, d') := d.respond (msg (optAt + msgtype + 2)) mac (d.requested msg) g.ticks
        (answer.map fun a => d.reply msg a.1 a.2, d')

end DhcpServer

end PicoSomfy
