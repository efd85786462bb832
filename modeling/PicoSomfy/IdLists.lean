import PicoSomfy.ConfigRecords

/-!
# Stored lists of ids

A list of ids is stored as its length and its elements. As long as the whole list
fits into one block, what is read back is what was saved; a list that was never
saved reads as empty. The two widths of ids differ in their size and their bytes
only.
-/
namespace PicoSomfy

open NorFlash CStrings BlockStorage

namespace DeviceConfig

variable {dc : DeviceConfig}

/-- The block of a record holds these bytes, or no block and no bytes do. -/
def Holds (dc : DeviceConfig) (r : Record) (count : ℕ) (bytes : List UInt8) : Prop :=
  4 + bytes.length ≤ 252 ∧
    (dc.read r.key = some (padded (encode32 (UInt32.ofNat count) ++ bytes)) ∨
      count = 0 ∧ dc.read r.key = none)

/-- The stored list of blinds or of created remotes. -/
def StoresIds (dc : DeviceConfig) (r : Record) (ids : List UInt16) : Prop :=
  dc.Holds r ids.length (encode16s ids)

/-- The stored list of imported remotes. -/
def StoresIds32 (dc : DeviceConfig) (r : Record) (ids : List UInt32) : Prop :=
  dc.Holds r ids.length (encode32s ids)

/-- The part of a block that a list takes. -/
theorem take_block {m : Image} {block n : ℕ} {bytes : List UInt8}
    (h : bytesAt m block 252 = padded (encode32 (UInt32.ofNat n) ++ bytes)) (hn : n < 2 ^ 32)
    (hb : 4 + bytes.length ≤ 252) :
    (word32 m block).toNat = n ∧ bytesAt m (block + 4) bytes.length = bytes := by
  have hpad : padded (encode32 (UInt32.ofNat n) ++ bytes) = encode32 (UInt32.ofNat n) ++
      (bytes ++ List.replicate (248 - bytes.length) 0) := by
    have hlen : flashPageSize - 4 - (encode32 (UInt32.ofNat n) ++ bytes).length =
        248 - bytes.length := by
      simp only [List.length_append, length_encode32, flashPageSize]
      omega
    rw [padded, hlen, List.append_assoc]
  have hsplit : bytesAt m block 4 ++ bytesAt m (block + 4) 248 = encode32 (UInt32.ofNat n) ++
      (bytes ++ List.replicate (248 - bytes.length) 0) := by
    rw [← bytesAt_add, h, hpad]
  obtain ⟨hcount, hrest⟩ := List.append_inj hsplit (by simp)
  constructor
  · have hword : word32 m block = UInt32.ofNat n := by
      have hdec := decode32_encode32 (UInt32.ofNat n) []
      rwa [List.append_nil, ← hcount] at hdec
    rw [hword, UInt32.toNat_ofNat_of_lt' hn]
  · have hlong : 248 = bytes.length + (248 - bytes.length) := by omega
    rw [hlong, bytesAt_add] at hrest
    exact (List.append_inj hrest (by simp)).1

/-- What a reader of the list finds: its block, or no block and an empty list. -/
theorem Holds.block {r : Record} {n : ℕ} {bytes : List UInt8} (hn : n < 2 ^ 32)
    (hs : dc.Holds r n bytes) :
    (∃ block, dc.storage.getBlock dc.chip.image r.key = some block ∧
      (word32 dc.chip.image block).toNat = n ∧
      bytesAt dc.chip.image (block + 4) bytes.length = bytes) ∨
    (n = 0 ∧ dc.storage.getBlock dc.chip.image r.key = none) := by
  obtain ⟨hlen, hread | ⟨hzero, hread⟩⟩ := hs
  · obtain ⟨block, hblock, hdata⟩ := Option.map_eq_some_iff.mp hread
    exact .inl ⟨block, hblock, take_block hdata hn hlen⟩
  · exact .inr ⟨hzero, Option.map_eq_none_iff.mp hread⟩

theorem StoresIds.length_le {r : Record} {ids : List UInt16} (h : dc.StoresIds r ids) :
    ids.length ≤ 124 := by
  have hlen := h.1
  rw [length_encode16s] at hlen
  omega

theorem StoresIds32.length_le {r : Record} {ids : List UInt32} (h : dc.StoresIds32 r ids) :
    ids.length ≤ 62 := by
  have hlen := h.1
  rw [length_encode32s] at hlen
  omega

theorem getIdList_of_stored {r : Record} {ids : List UInt16} (h : dc.StoresIds r ids) :
    dc.getIdList r.key = ids := by
  have hlen := h.length_le
  unfold getIdList
  rcases Holds.block (by omega) h with ⟨block, hblock, hcount, hbytes⟩ | ⟨hzero, hblock⟩
  · rw [length_encode16s] at hbytes
    simp only [hblock, hcount, hbytes]
    simpa only [List.append_nil] using decode16s_encode16s ids []
  · rw [hblock, List.length_eq_zero_iff.mp hzero]

theorem getIdList32_of_stored {r : Record} {ids : List UInt32} (h : dc.StoresIds32 r ids) :
    dc.getIdList32 r.key = ids := by
  have hlen := h.length_le
  unfold getIdList32
  rcases Holds.block (by omega) h with ⟨block, hblock, hcount, hbytes⟩ | ⟨hzero, hblock⟩
  · rw [length_encode32s] at hbytes
    simp only [hblock, hcount, hbytes]
    simpa only [List.append_nil] using decode32s_encode32s ids []
  · rw [hblock, List.length_eq_zero_iff.mp hzero]

theorem getRemoteIds_of_stored {ids : List UInt16} (h : dc.StoresIds .remoteIds ids) :
    dc.getRemoteIds = ids :=
  getIdList_of_stored (r := .remoteIds) h

theorem getBlindIds_of_stored {ids : List UInt16} (h : dc.StoresIds .blindIds ids) :
    dc.getBlindIds = ids :=
  getIdList_of_stored (r := .blindIds) h

theorem getExternalRemoteIds_of_stored {ids : List UInt32}
    (h : dc.StoresIds32 .externalRemoteIds ids) : dc.getExternalRemoteIds = ids :=
  getIdList32_of_stored (r := .externalRemoteIds) h

theorem Holds.congr {dc' : DeviceConfig} {r : Record} {n : ℕ} {bytes : List UInt8}
    (h : dc.Holds r n bytes) (hread : dc'.read r.key = dc.read r.key) : dc'.Holds r n bytes :=
  ⟨h.1, by rw [hread]; exact h.2⟩

theorem length_list (n : ℕ) (bytes : List UInt8) :
    (encode32 (UInt32.ofNat n) ++ bytes).length = 4 + bytes.length := by simp

theorem Healthy.onlyAt_list (h : dc.Healthy) (r : Record) {n : ℕ} {bytes : List UInt8}
    (hlen : 4 + bytes.length ≤ 252) :
    OnlyAt r dc (dc.write r.key (encode32 (UInt32.ofNat n) ++ bytes)) :=
  h.onlyAt_write r (by rw [length_list]; omega) (by rw [length_list]; exact hlen)

/-- A list that fits is stored, unless the storage is full. -/
theorem Healthy.holds_write (h : dc.Healthy) (r : Record) {n : ℕ} {bytes : List UInt8}
    (hlen : 4 + bytes.length ≤ 252)
    (hlost : (dc.write r.key (encode32 (UInt32.ofNat n) ++ bytes)).lost = false) :
    (dc.write r.key (encode32 (UInt32.ofNat n) ++ bytes)).Holds r n bytes := by
  have hroom := ((h.lost_write _ _).mp hlost).2
  refine ⟨hlen, .inl ?_⟩
  rw [h.read_write r r (by rw [length_list]; omega) (by rw [length_list]; exact hlen) hroom,
    if_pos rfl]

end DeviceConfig

end PicoSomfy
