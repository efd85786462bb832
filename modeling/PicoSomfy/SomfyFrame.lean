import PicoSomfy.ReceiveRing

/-!
# The frame of a press

`ExecuteCommand` packs a press into seven bytes: a key, the button above a checksum
of four bits, the rolling code and the id, each byte chained to the one before by an
exclusive or. `ReceiveCommand` undoes the chain and tests the checksum. The two are
inverse to each other on the presses that can be sent and the packets that are
accepted; the key byte is arbitrary and is not looked at.
-/
namespace PicoSomfy

/-- The id has 24 bits and the button is one of the three. -/
structure PressKey.Sendable (k : PressKey) : Prop where
  remoteId : k.remoteId.toNat < 2 ^ 24
  button : k.button = .my ∨ k.button = .up ∨ k.button = .down

instance (k : PressKey) : Decidable k.Sendable :=
  decidable_of_iff (k.remoteId.toNat < 2 ^ 24 ∧ (k.button = .my ∨ k.button = .up ∨ k.button = .down))
    ⟨fun h => ⟨h.1, h.2⟩, fun h => ⟨h.1, h.2⟩⟩

namespace Packet

/-- The bytes of a press before the checksum. -/
def raw (key : UInt8) (k : PressKey) : Packet where
  b0 := key
  b1 := (k.button.toUInt32 <<< (4 : UInt32)).toUInt8
  b2 := (k.rollingCode >>> (8 : UInt16)).toUInt8
  b3 := (k.rollingCode &&& 0xFF).toUInt8
  b4 := ((k.remoteId >>> (16 : UInt32)) &&& 0xFF).toUInt8
  b5 := ((k.remoteId >>> (8 : UInt32)) &&& 0xFF).toUInt8
  b6 := (k.remoteId &&& 0xFF).toUInt8

def addChecksum (p : Packet) : Packet := { p with b1 := p.b1 ||| (p.checksum &&& 0x0F) }

/-- The chain of exclusive-ors, from the second byte up. -/
def encrypt (p : Packet) : Packet :=
  let b1 := p.b1 ^^^ p.b0
  let b2 := p.b2 ^^^ b1
  let b3 := p.b3 ^^^ b2
  let b4 := p.b4 ^^^ b3
  let b5 := p.b5 ^^^ b4
  let b6 := p.b6 ^^^ b5
  ⟨p.b0, b1, b2, b3, b4, b5, b6⟩

def frame (key : UInt8) (k : PressKey) : Packet := (raw key k).addChecksum.encrypt

/-- The first seven bytes of the payload in `ExecuteCommand`. -/
def payload (remoteId : UInt32) (rollingCode : UInt16) (button : SomfyButton) : Packet :=
  frame 0x50 ⟨remoteId, rollingCode, button⟩

theorem xor_cancel (a b : UInt8) : a ^^^ b ^^^ b = a := by
  rw [UInt8.xor_assoc, UInt8.xor_self, UInt8.xor_zero]

theorem decrypt_encrypt (p : Packet) : p.encrypt.decrypt = p := by
  simp only [encrypt, decrypt, xor_cancel]

theorem encrypt_decrypt (p : Packet) : p.decrypt.encrypt = p := by
  simp only [encrypt, decrypt, xor_cancel]

theorem low_or_high (b : UInt8) : (b &&& 0xF0) ||| (b &&& 0xF) = b := by
  obtain ⟨b⟩ := b
  exact congrArg UInt8.ofBitVec ((by decide : ∀ b : BitVec 8, b &&& 0xF0 ||| b &&& 0xF = b) b)

/-- A checksum stays out of the upper half of the byte. -/
theorem or_and_high (b c : UInt8) : (b ||| (c &&& 0xF)) &&& 0xF0 = b &&& 0xF0 := by
  rw [← UInt8.toBitVec_inj]
  ext i hi
  simp only [UInt8.toBitVec_and, UInt8.toBitVec_or, BitVec.getElem_and, BitVec.getElem_or]
  interval_cases i <;> simp

theorem or_and_low (b c : UInt8) (h : b &&& 0xF = 0) : (b ||| (c &&& 0xF)) &&& 0xF = c &&& 0xF := by
  have hbits : (b &&& 0xF) ||| (c &&& 0xF) = (b ||| (c &&& 0xF)) &&& 0xF := by
    rw [← UInt8.toBitVec_inj]
    ext i hi
    simp only [UInt8.toBitVec_and, UInt8.toBitVec_or, BitVec.getElem_and, BitVec.getElem_or]
    interval_cases i <;> simp
  rw [← hbits, h, UInt8.zero_or]

/-- The id in the last three bytes of a decrypted packet. -/
def remoteId (p : Packet) : UInt32 :=
  (p.b4.toUInt32 <<< (16 : UInt32)) ||| (p.b5.toUInt32 <<< (8 : UInt32)) ||| p.b6.toUInt32

def rollingCode (p : Packet) : UInt16 :=
  (p.b2.toUInt16 <<< (8 : UInt16)) ||| p.b3.toUInt16

def button (p : Packet) : SomfyButton := Int32.ofNat (p.b1 >>> (4 : UInt8)).toNat

theorem toNat_remoteId (p : Packet) :
    p.remoteId.toNat = p.b4.toNat * 65536 + p.b5.toNat * 256 + p.b6.toNat := by
  have h₄ := p.b4.toNat_lt
  have h₅ := p.b5.toNat_lt
  have h₆ := p.b6.toNat_lt
  have hlow : p.b5.toNat <<< 8 ||| p.b6.toNat = p.b5.toNat * 256 + p.b6.toNat := by
    rw [← Nat.shiftLeft_add_eq_or_of_lt h₆, Nat.shiftLeft_eq]
  have hhigh : p.b4.toNat <<< 16 ||| (p.b5.toNat * 256 + p.b6.toNat) =
      p.b4.toNat * 65536 + (p.b5.toNat * 256 + p.b6.toNat) := by
    rw [← Nat.shiftLeft_add_eq_or_of_lt (by omega), Nat.shiftLeft_eq]
  have hfit₄ : p.b4.toNat <<< 16 % 2 ^ 32 = p.b4.toNat <<< 16 := by
    rw [Nat.shiftLeft_eq]
    omega
  have hfit₅ : p.b5.toNat <<< 8 % 2 ^ 32 = p.b5.toNat <<< 8 := by
    rw [Nat.shiftLeft_eq]
    omega
  simp only [remoteId, UInt32.toNat_or, UInt32.toNat_shiftLeft, UInt8.toNat_toUInt32, Nat.or_assoc]
  change p.b4.toNat <<< 16 % 2 ^ 32 ||| (p.b5.toNat <<< 8 % 2 ^ 32 ||| p.b6.toNat) = _
  rw [hfit₄, hfit₅, hlow, hhigh, Nat.add_assoc]

theorem toNat_rollingCode (p : Packet) :
    p.rollingCode.toNat = p.b2.toNat * 256 + p.b3.toNat := by
  have h₂ := p.b2.toNat_lt
  have h₃ := p.b3.toNat_lt
  have hfit : p.b2.toNat <<< 8 % 2 ^ 16 = p.b2.toNat <<< 8 := by
    rw [Nat.shiftLeft_eq]
    omega
  simp only [rollingCode, UInt16.toNat_or, UInt16.toNat_shiftLeft, UInt8.toNat_toUInt16]
  change p.b2.toNat <<< 8 % 2 ^ 16 ||| p.b3.toNat = _
  rw [hfit, ← Nat.shiftLeft_add_eq_or_of_lt h₃, Nat.shiftLeft_eq]

theorem toNat_low_byte (x : UInt32) : (x &&& 0xFF).toUInt8.toNat = x.toNat % 256 := by
  rw [UInt32.toNat_toUInt8, UInt32.toNat_and]
  change (x.toNat &&& 2 ^ 8 - 1) % 256 = _
  rw [Nat.and_two_pow_sub_one_eq_mod, Nat.mod_mod]

/-- The four bytes of the code and the id, as numbers. -/
theorem toNat_raw (key : UInt8) (k : PressKey) :
    (raw key k).b2.toNat = k.rollingCode.toNat / 256 ∧
      (raw key k).b3.toNat = k.rollingCode.toNat % 256 ∧
      (raw key k).b4.toNat = k.remoteId.toNat / 65536 % 256 ∧
      (raw key k).b5.toNat = k.remoteId.toNat / 256 % 256 ∧
      (raw key k).b6.toNat = k.remoteId.toNat % 256 := by
  have hcode := k.rollingCode.toNat_lt
  refine ⟨?_, ?_, ?_, ?_, ?_⟩
  · simp only [raw, UInt16.toNat_toUInt8, UInt16.toNat_shiftRight]
    change k.rollingCode.toNat >>> 8 % 256 = _
    rw [Nat.shiftRight_eq_div_pow]
    omega
  · simp only [raw, UInt16.toNat_toUInt8, UInt16.toNat_and]
    change (k.rollingCode.toNat &&& 2 ^ 8 - 1) % 256 = _
    rw [Nat.and_two_pow_sub_one_eq_mod, Nat.mod_mod]
  · simp only [raw, toNat_low_byte, UInt32.toNat_shiftRight]
    change k.remoteId.toNat >>> 16 % 256 = _
    rw [Nat.shiftRight_eq_div_pow]
  · simp only [raw, toNat_low_byte, UInt32.toNat_shiftRight]
    change k.remoteId.toNat >>> 8 % 256 = _
    rw [Nat.shiftRight_eq_div_pow]
  · simp only [raw, toNat_low_byte]

/-- The upper half of a byte is the button shifted into it. -/
theorem shifted_button (b : UInt8) :
    ((Int32.ofNat (b >>> (4 : UInt8)).toNat).toUInt32 <<< (4 : UInt32)).toUInt8 = b &&& 0xF0 := by
  obtain ⟨b⟩ := b
  exact (by decide +kernel : ∀ b : BitVec 8,
    ((Int32.ofNat (UInt8.ofBitVec b >>> (4 : UInt8)).toNat).toUInt32 <<< (4 : UInt32)).toUInt8 =
      UInt8.ofBitVec b &&& 0xF0) b

/-- A button of a press fills the upper half of its byte, and can be read there. -/
theorem PressKey.Sendable.shifted {k : PressKey} (h : k.Sendable) (key : UInt8) :
    (raw key k).b1 &&& 0xF0 = (raw key k).b1 ∧ (raw key k).b1 &&& 0xF = 0 ∧
      (raw key k).button = k.button := by
  have hall : ∀ b : SomfyButton, b = .my ∨ b = .up ∨ b = .down →
      (b.toUInt32 <<< (4 : UInt32)).toUInt8 &&& 0xF0 = (b.toUInt32 <<< (4 : UInt32)).toUInt8 ∧
        (b.toUInt32 <<< (4 : UInt32)).toUInt8 &&& 0xF = 0 ∧
        Int32.ofNat ((b.toUInt32 <<< (4 : UInt32)).toUInt8 >>> (4 : UInt8)).toNat = b := by
    intro b hb
    rcases hb with rfl | rfl | rfl <;> decide
  exact hall k.button h.button

/-- The decrypted packet without its checksum. -/
def zeroed (p : Packet) : Packet := { p.decrypt with b1 := p.decrypt.b1 &&& 0xF0 }

/-- When a packet is accepted, and as what. -/
theorem press_eq_some {p : Packet} {k : PressKey} :
    p.press = some k ↔ p.zeroed.checksum &&& 0xF = p.decrypt.b1 &&& 0xF ∧
      (p.zeroed.button = .my ∨ p.zeroed.button = .up ∨ p.zeroed.button = .down) ∧
      k = ⟨p.zeroed.remoteId, p.zeroed.rollingCode, p.zeroed.button⟩ := by
  have hdef : p.press =
      if p.zeroed.checksum &&& 0xF ≠ p.decrypt.b1 &&& 0xF ∨ (p.zeroed.button ≠ .up ∧
          p.zeroed.button ≠ .down ∧ p.zeroed.button ≠ .my) then none
      else some ⟨p.zeroed.remoteId, p.zeroed.rollingCode, p.zeroed.button⟩ := rfl
  rw [hdef]
  split_ifs with h
  · constructor
    · exact nofun
    · intro ⟨hsum, hbutton, _⟩
      rcases h with h | ⟨hup, hdown, hmy⟩
      · exact absurd hsum h
      · rcases hbutton with hb | hb | hb
        · exact absurd hb hmy
        · exact absurd hb hup
        · exact absurd hb hdown
  · push Not at h
    rw [Option.some.injEq, eq_comm]
    constructor
    · intro heq
      refine ⟨h.1, ?_, heq⟩
      by_contra hno
      push Not at hno
      exact hno.1 (h.2 hno.2.1 hno.2.2)
    · exact fun heq => heq.2.2

/-- Decoding a frame finds the bytes it was built from. -/
theorem zeroed_frame (key : UInt8) {k : PressKey} (h : k.Sendable) :
    (frame key k).zeroed = raw key k ∧
      (frame key k).decrypt.b1 &&& 0xF = (raw key k).checksum &&& 0xF := by
  obtain ⟨hhigh, hlow, -⟩ := PressKey.Sendable.shifted h key
  have hdec : (frame key k).decrypt = (raw key k).addChecksum := decrypt_encrypt _
  constructor
  · rw [zeroed, hdec, addChecksum]
    simp only [or_and_high, hhigh]
  · rw [hdec, addChecksum]
    exact or_and_low _ _ hlow

/-- A sendable press is accepted and decoded, whatever the key byte. -/
theorem press_frame (key : UInt8) {k : PressKey} (h : k.Sendable) :
    (frame key k).press = some k := by
  obtain ⟨hzero, hsum⟩ := zeroed_frame key h
  obtain ⟨h₂, h₃, h₄, h₅, h₆⟩ := toNat_raw key k
  have hid := h.remoteId
  have hcode := k.rollingCode.toNat_lt
  have hbutton := (PressKey.Sendable.shifted h key).2.2
  rw [press_eq_some, hzero, hsum, hbutton]
  refine ⟨rfl, h.button, ?_⟩
  have hremote : (raw key k).remoteId = k.remoteId := by
    rw [← UInt32.toNat_inj, toNat_remoteId, h₄, h₅, h₆]
    omega
  have hroll : (raw key k).rollingCode = k.rollingCode := by
    rw [← UInt16.toNat_inj, toNat_rollingCode, h₂, h₃]
    omega
  rw [hremote, hroll]

/-- An accepted packet is the frame of the press it is decoded to. -/
theorem frame_press {p : Packet} {k : PressKey} (h : p.press = some k) :
    k.Sendable ∧ frame p.b0 k = p := by
  obtain ⟨hsum, hbutton, rfl⟩ := press_eq_some.mp h
  have h₄ := p.zeroed.b4.toNat_lt
  have h₅ := p.zeroed.b5.toNat_lt
  have h₆ := p.zeroed.b6.toNat_lt
  have hid := toNat_remoteId p.zeroed
  have hcode := toNat_rollingCode p.zeroed
  refine ⟨⟨by rw [hid]; omega, hbutton⟩, ?_⟩
  obtain ⟨r₂, r₃, r₄, r₅, r₆⟩ :=
    toNat_raw p.b0 ⟨p.zeroed.remoteId, p.zeroed.rollingCode, p.zeroed.button⟩
  have h₃ := p.zeroed.b3.toNat_lt
  have hraw : raw p.b0 ⟨p.zeroed.remoteId, p.zeroed.rollingCode, p.zeroed.button⟩ = p.zeroed := by
    have hb₁ : p.zeroed.b1 &&& 0xF0 = p.zeroed.b1 := by
      change p.decrypt.b1 &&& 0xF0 &&& 0xF0 = p.decrypt.b1 &&& 0xF0
      rw [UInt8.and_assoc]
      rfl
    have e₁ := (shifted_button p.zeroed.b1).trans hb₁
    have e₂ := UInt8.toNat_inj.mp (r₂.trans (by rw [hcode]; omega) : _ = p.zeroed.b2.toNat)
    have e₃ := UInt8.toNat_inj.mp (r₃.trans (by rw [hcode]; omega) : _ = p.zeroed.b3.toNat)
    have e₄ := UInt8.toNat_inj.mp (r₄.trans (by rw [hid]; omega) : _ = p.zeroed.b4.toNat)
    have e₅ := UInt8.toNat_inj.mp (r₅.trans (by rw [hid]; omega) : _ = p.zeroed.b5.toNat)
    have e₆ := UInt8.toNat_inj.mp (r₆.trans (by rw [hid]; omega) : _ = p.zeroed.b6.toNat)
    calc raw p.b0 ⟨p.zeroed.remoteId, p.zeroed.rollingCode, p.zeroed.button⟩
        = ⟨p.b0, p.zeroed.b1, p.zeroed.b2, p.zeroed.b3, p.zeroed.b4, p.zeroed.b5,
            p.zeroed.b6⟩ := by rw [← e₁, ← e₂, ← e₃, ← e₄, ← e₅, ← e₆]; rfl
      _ = p.zeroed := rfl
  have hadd : p.zeroed.addChecksum = p.decrypt := by
    rw [addChecksum, hsum]
    change { p.decrypt with b1 := (p.decrypt.b1 &&& 0xF0) ||| (p.decrypt.b1 &&& 0xF) } = _
    rw [low_or_high]
  rw [frame, hraw, hadd, encrypt_decrypt]

/-- The payload of a press is accepted as this press, and a packet is accepted exactly
when it is the frame of a press under some key byte: then the press it is decoded to and
its first byte are the only ones, and packing them again gives the packet. -/
theorem codec_exact :
    (∀ k : PressKey, k.Sendable → (payload k.remoteId k.rollingCode k.button).press = some k) ∧
      (∀ p : Packet, p.press.isSome ↔ ∃ key k, k.Sendable ∧ frame key k = p) ∧
      ∀ (p : Packet) (k : PressKey), p.press = some k → k.Sendable ∧ frame p.b0 k = p ∧
        ∀ key' k', k'.Sendable → frame key' k' = p → key' = p.b0 ∧ k' = k := by
  refine ⟨fun k hk => press_frame 0x50 hk, fun p => ⟨fun hp => ?_, ?_⟩, fun p k hp => ?_⟩
  · obtain ⟨k, hk⟩ := Option.isSome_iff_exists.mp hp
    exact ⟨p.b0, k, frame_press hk⟩
  · intro ⟨key, k, hk, hframe⟩
    rw [← hframe, press_frame key hk]
    rfl
  · obtain ⟨hk, hframe⟩ := frame_press hp
    refine ⟨hk, hframe, fun key' k' hk' hframe' => ?_⟩
    rw [← hframe', press_frame key' hk'] at hp
    exact ⟨by rw [← hframe']; rfl, Option.some.inj hp⟩

end Packet

end PicoSomfy
