import PicoSomfy.DhcpServer

/-!
# The name server of the access point

The access point answers every question for an address with its own one, so that the
web interface opens whatever name a browser asks for. The server copies a datagram into
a message of 300 bytes on its stack, steps over the labels of the first question, and
writes its answer behind it, into the same message.

Only the labels in front of the end of the datagram are looked at. A name that runs over
the end is answered nevertheless, and then the reply shows what stood on the stack. The
datagrams whose reply is always the same are the well-formed queries; they get the
answer a resolver expects.
-/
namespace PicoSomfy

open NorFlash ByteMemory

namespace Dns

def maxMsgSize : ℕ := 300

/-- The size of `dns_header_t`, where the question starts. -/
def questionStart : ℕ := 12

/-- A word in network order. -/
def ntohs (m : Image) (a : ℕ) : UInt16 := ((m a).toUInt16 <<< (8 : UInt16)) ||| (m (a + 1)).toUInt16

/-- The loop over the labels. -/
def skipName (m : Image) (stop : ℕ) : ℕ → ℕ → Option ℕ
  | 0, p => some p
  | turns + 1, p =>
      if p < stop then
        if m p = 0 then some (p + 1)
        else if 63 < m p then none
        else skipName m stop turns (p + 1 + (m p).toNat)
      else some p

/-- The message after the datagram was copied. -/
def received (bytes : List UInt8) (stack : Image) : Image := poke stack 0 (bytes.take maxMsgSize)

/-- The place behind the name of the question, if the datagram is answered. -/
def question (bytes : List UInt8) (stack : Image) : Option ℕ :=
  let m := received bytes stack
  let msgLen := min bytes.length maxMsgSize
  if msgLen < questionStart then none
  else
    let flags := ntohs m 2
    let questionCount := ntohs m 4
    if (flags >>> (15 : UInt16)) &&& 0x1 ≠ 0 then none
    else if (flags >>> (11 : UInt16)) &&& 0xf ≠ 0 then none
    else if questionCount < 1 then none
    else (skipName m msgLen maxMsgSize questionStart).filter fun p => p - questionStart ≤ 255

/-- A pointer to the question, an address of the internet class that lives a minute. -/
def answer (ip : Ip4) : List UInt8 :=
  [0xc0, UInt8.ofNat questionStart, 0, 1, 0, 1, 0, 0, 0, 60, 0, 4] ++ ip.bytes

/-- A response, authoritative, recursion available; one question and one answer. -/
def responseHeader : List UInt8 := [0x84, 0x80, 0, 1, 0, 1, 0, 0, 0, 0]

/-- The message that is sent for a question whose name ends at `p`. -/
def reply (ip : Ip4) (m : Image) (p : ℕ) : List UInt8 :=
  let m := poke m (p + 4) (answer ip)
  let m := poke m 2 responseHeader
  bytesAt m 0 (p + 4 + (answer ip).length)

def process (ip : Ip4) (bytes : List UInt8) (stack : Image) : Option (List UInt8) :=
  (question bytes stack).map (reply ip (received bytes stack))

end Dns

open Dns

/-- A part of a name, 1 to 63 bytes. -/
structure Label where
  bytes : List UInt8
  pos : 0 < bytes.length
  le : bytes.length ≤ 63

def Label.encode (l : Label) : List UInt8 := UInt8.ofNat l.bytes.length :: l.bytes

def encodeName (ls : List Label) : List UInt8 := ls.flatMap Label.encode ++ [0]

/-- A standard query and what stands behind its first question. -/
structure DnsQuery where
  id : Vector UInt8 2
  flags : Vector UInt8 2
  questionCount : Vector UInt8 2
  otherCounts : Vector UInt8 6
  name : List Label
  typeClass : Vector UInt8 4
  rest : List UInt8

namespace DnsQuery

/-- The bytes in front of the name. -/
def header (q : DnsQuery) : List UInt8 :=
  q.id.toList ++ q.flags.toList ++ q.questionCount.toList ++ q.otherCounts.toList

def encode (q : DnsQuery) : List UInt8 :=
  q.header ++ encodeName q.name ++ q.typeClass.toList ++ q.rest

/-- No response, a standard query, at least one question, a name of at most 255 bytes. -/
structure WellFormed (q : DnsQuery) : Prop where
  standard : q.flags[0] &&& 0xF8 = 0
  asks : q.questionCount[0] ≠ 0 ∨ q.questionCount[1] ≠ 0
  short : (encodeName q.name).length ≤ 255

/-- What a resolver expects: its id, its question, and the address. -/
def response (q : DnsQuery) (ip : Ip4) : List UInt8 :=
  q.id.toList ++ responseHeader ++ encodeName q.name ++ q.typeClass.toList ++ answer ip

end DnsQuery

theorem Label.length_encode (l : Label) : l.encode.length = l.bytes.length + 1 := rfl

theorem encodeName_cons (l : Label) (ls : List Label) :
    encodeName (l :: ls) = l.encode ++ encodeName ls := by
  rw [encodeName, List.flatMap_cons, List.append_assoc, encodeName]

theorem encodeName_pos (ls : List Label) : 0 < (encodeName ls).length := by
  rw [encodeName, List.length_append]
  exact Nat.lt_add_of_pos_left Nat.one_pos |>.trans_le (by simp)

theorem Label.length_byte (l : Label) :
    UInt8.ofNat l.bytes.length ≠ 0 ∧ ¬63 < UInt8.ofNat l.bytes.length ∧
      (UInt8.ofNat l.bytes.length).toNat = l.bytes.length := by
  have hpos := l.pos
  have hle := l.le
  have hvalue : (UInt8.ofNat l.bytes.length).toNat = l.bytes.length :=
    UInt8.toNat_ofNat_of_lt' (by simp only [UInt8.size]; omega)
  refine ⟨fun hzero => ?_, ?_, hvalue⟩
  · rw [hzero] at hvalue
    exact hpos.ne hvalue
  · rw [UInt8.lt_iff_toNat_lt, hvalue]
    exact not_lt.mpr hle

variable {m : Image} {stop turns p : ℕ}

/-- The loop steps over a name that stands in front of the end. -/
theorem skipName_encode {ls : List Label} (h : HoldsAt m p (encodeName ls))
    (hstop : p + (encodeName ls).length ≤ stop) (hturns : stop < p + turns) :
    skipName m stop turns p = some (p + (encodeName ls).length) := by
  induction ls generalizing p turns with
  | nil =>
      cases turns with
      | zero => omega
      | succ turns =>
          have hp : p < stop := Nat.lt_of_succ_le hstop
          rw [skipName, if_pos hp, if_pos h.head]
          rfl
  | cons l ls ih =>
      cases turns with
      | zero =>
          have hpos := encodeName_pos (l :: ls)
          omega
      | succ turns =>
          obtain ⟨hne, hsmall, hvalue⟩ := l.length_byte
          rw [encodeName_cons, List.length_append, l.length_encode] at hstop ⊢
          rw [encodeName_cons, holds_append, l.length_encode] at h
          have hlen : m p = UInt8.ofNat l.bytes.length := h.1.head
          have hpos := encodeName_pos ls
          rw [skipName, if_pos (by omega), hlen, if_neg hne, if_neg hsmall, hvalue,
            show p + 1 + l.bytes.length = p + (l.bytes.length + 1) by omega,
            ih h.2 (by omega) (by omega)]
          congr 1
          omega

/-- Where the loop stops in front of the end, it stepped over a name. -/
theorem exists_name {p' : ℕ} (h : skipName m stop turns p = some p') (hp' : p' < stop)
    (hturns : stop < p + turns) :
    ∃ ls, HoldsAt m p (encodeName ls) ∧ p' = p + (encodeName ls).length := by
  induction turns generalizing p with
  | zero =>
      obtain rfl := Option.some.inj h
      omega
  | succ turns ih =>
      rw [skipName] at h
      split_ifs at h with hp hzero hlarge
      · obtain rfl := Option.some.inj h
        exact ⟨[], holds_cons.mpr ⟨hzero, holds_nil _ _⟩, rfl⟩
      · have hpos : 0 < (m p).toNat := Nat.pos_of_ne_zero fun hn => hzero (UInt8.toNat_inj.mp hn)
        have hle : (m p).toNat ≤ 63 := by
          rw [UInt8.lt_iff_toNat_lt] at hlarge
          exact not_lt.mp hlarge
        obtain ⟨ls, hholds, hend⟩ := ih h (by omega)
        have hlen : (bytesAt m (p + 1) (m p).toNat).length = (m p).toNat := length_bytesAt ..
        obtain ⟨l, hl⟩ : ∃ l : Label, l.bytes = bytesAt m (p + 1) (m p).toNat :=
          ⟨⟨bytesAt m (p + 1) (m p).toNat, hpos.trans_eq hlen.symm, hlen.trans_le hle⟩, rfl⟩
        rw [← hl] at hlen
        have hbyte : HoldsAt m p l.encode := by
          rw [Label.encode, hlen, hl, UInt8.ofNat_toNat]
          exact holds_cons.mpr ⟨rfl, holds_bytesAt ..⟩
        refine ⟨l :: ls, ?_, ?_⟩
        · rw [encodeName_cons]
          exact hbyte.append hholds (by rw [l.length_encode]; omega)
        · rw [encodeName_cons, List.length_append, l.length_encode]
          omega
      · obtain rfl := Option.some.inj h
        omega

namespace Dns

variable {bytes : List UInt8} {s s' : Image} {ip : Ip4}

/-- In front of the end of the datagram the stack is not seen. -/
theorem received_eq (s s' : Image) {i : ℕ} (hi : i < min bytes.length maxMsgSize) :
    received bytes s i = received bytes s' i := by
  have hlen : i < (bytes.take maxMsgSize).length := by rwa [List.length_take, min_comm]
  have hread : ∀ t, received bytes t (0 + i) = (bytes.take maxMsgSize).getD i 0 :=
    fun t => poke_inside hlen
  rw [← Nat.zero_add i, hread s, hread s']

theorem skipName_congr {m m' : Image} (h : ∀ i < stop, m i = m' i) :
    skipName m stop turns p = skipName m' stop turns p := by
  induction turns generalizing p with
  | zero => rfl
  | succ turns ih =>
      rw [skipName, skipName]
      by_cases hp : p < stop
      · rw [if_pos hp, if_pos hp, h p hp, ih]
      · rw [if_neg hp, if_neg hp]

/-- Whether the datagram is answered does not depend on the stack. -/
theorem question_eq (bytes : List UInt8) (s s' : Image) : question bytes s = question bytes s' := by
  unfold question
  dsimp only
  by_cases hlen : min bytes.length maxMsgSize < questionStart
  · rw [if_pos hlen, if_pos hlen]
  · have hflags : ntohs (received bytes s) 2 = ntohs (received bytes s') 2 := by
      unfold ntohs
      unfold questionStart at hlen
      rw [received_eq s s' (by omega), received_eq s s' (show 2 + 1 < _ by omega)]
    have hcount : ntohs (received bytes s) 4 = ntohs (received bytes s') 4 := by
      unfold ntohs
      unfold questionStart at hlen
      rw [received_eq s s' (by omega), received_eq s s' (show 4 + 1 < _ by omega)]
    rw [if_neg hlen, if_neg hlen, hflags, hcount, skipName_congr fun i hi => received_eq s s' hi]

end Dns

end PicoSomfy
