import PicoSomfy.NorFlash

/-!
# Block storage in flash

The storage area is a row of blocks, each of a whole number of pages. The first
word of a block is its id; `0xFFFFFFFF` marks a block that is erased and `0` one
that was deleted. A block is never rewritten in place: saving programs a free
block and deleting clears the first page of the old one. Only a sector without
any live block is erased again.

Every change of flash goes through `flash_safe_execute`, which may refuse to run
its callback. `Chip.verdict` says which calls it runs. The source only logs the
refusals, so `saveBlock` returns that result as a Boolean nobody reads back.

Offsets are natural numbers. The storage area starts above its own block size,
so the 32-bit subtraction in the loop bound of `findBlock` does not wrap.
-/
namespace PicoSomfy

open NorFlash

def flashPageSize : ℕ := 256
def flashSectorSize : ℕ := 4096

/-- `BLOCK_FREE` -/
def blockFree : UInt32 := 0xFFFFFFFF

/-- `BLOCK_EMPTY` -/
def blockEmpty : UInt32 := 0

/-- `sizeof(d)`, the size of the four words of `PgmData`. -/
def sizeofPgmData : ℕ := 16

/-- The flash array and the outcomes of the calls of `flash_safe_execute`. -/
structure Chip where
  image : Image
  verdict : ℕ → Bool
  calls : ℕ

/-- Runs the flash commands of one callback, or none of them. -/
def Chip.flashSafeExecute (c : Chip) (callback : List Command) : Bool × Chip :=
  if c.verdict c.calls then
    (true, { c with image := applyAll callback c.image, calls := c.calls + 1 })
  else (false, { c with calls := c.calls + 1 })

structure BlockStorage where
  base : ℕ
  sectors : ℕ
  blockPages : ℕ
  deriving DecidableEq, Repr

/-- The offsets of `while(offset < stop) { ...; offset += step; }`. -/
def strides (start stop step : ℕ) : List ℕ :=
  (List.range ((stop - start + step - 1) / step)).map fun i => start + i * step

/-- `memcpy` to an offset of a buffer. -/
def writeAt (buf : List UInt8) (off : ℕ) (bytes : List UInt8) : List UInt8 :=
  buf.take off ++ bytes ++ buf.drop (off + bytes.length)

theorem writeAt_middle (a b c bytes : List UInt8) (h : bytes.length = b.length) :
    writeAt (a ++ b ++ c) a.length bytes = a ++ bytes ++ c := by
  rw [writeAt, h, ← List.length_append, List.drop_left, List.append_assoc a b c, List.take_left]

namespace BlockStorage

/-- The constructor, which rounds to whole sectors and pages. -/
def create (base size blockSize : ℕ) : BlockStorage where
  base := base / flashSectorSize * flashSectorSize
  sectors := (size + flashSectorSize - 1) / flashSectorSize
  blockPages := (blockSize + 4 + flashPageSize - 1) / flashPageSize

def blockSize (bs : BlockStorage) : ℕ := bs.blockPages * 256 - 4

def blockOffsets (bs : BlockStorage) : List ℕ :=
  strides bs.base
    (bs.base + bs.sectors * flashSectorSize + 1 - bs.blockPages * flashPageSize)
    (bs.blockPages * flashPageSize)

/-- The lowest block with this header word; `none` is the source's `-1`. -/
def findBlock (bs : BlockStorage) (m : Image) (blockId : UInt32) : Option ℕ :=
  bs.blockOffsets.find? fun offset => word32 m offset == blockId

/-- The address of the data of a block, after its header. -/
def getBlock (bs : BlockStorage) (m : Image) (blockId : UInt32) : Option ℕ :=
  (bs.findBlock m blockId).map (· + 4)

def deletePage (_ : BlockStorage) (c : Chip) (pageOffset : ℕ) : Chip :=
  (c.flashSafeExecute [.program pageOffset (List.replicate flashPageSize 0)]).2

def formatSectors (bs : BlockStorage) (c : Chip) (sector count : ℕ) : Chip :=
  (c.flashSafeExecute
    [.erase (bs.base + sector * flashSectorSize) (count * flashSectorSize)]).2

/-- One block of the scan in `FormatEmptySectors`, with its running
`emptySectorStart`. -/
def formatStep (bs : BlockStorage) (st : Chip × ℕ) (offset : ℕ) : Chip × ℕ :=
  if word32 st.1.image (bs.base + offset) ≠ blockEmpty then
    let emptySectorEnd := offset / flashSectorSize
    (if st.2 < emptySectorEnd then bs.formatSectors st.1 st.2 (emptySectorEnd - st.2) else st.1,
      emptySectorEnd + 1)
  else st

def formatEmptySectors (bs : BlockStorage) (c : Chip) : Chip :=
  let r := (strides 0 (bs.sectors * flashSectorSize) (bs.blockPages * flashPageSize)).foldl
    bs.formatStep (c, 0)
  if r.2 < bs.sectors then bs.formatSectors r.1 r.2 (bs.sectors - r.2) else r.1

/-- The loop of the programming callback. Each turn takes at least one byte of
the data, so the length of the data bounds the turns. From the second page on
the source steps by `sizeof(d)`, not by a page. -/
def pgmLoop : ℕ → ℕ → List UInt8 → List UInt8 → ℕ → ℕ → List Command
  | 0, _, _, _, _, _ => []
  | fuel + 1, offset, data, tmpPage, off, space =>
      if data = [] then [] else
        let bytes := if data.length > space then space else data.length
        let copied := writeAt tmpPage off (data.take bytes)
        let page := if space - bytes > 0
          then writeAt copied ((off + bytes) % 256) (List.replicate (space - bytes) 0) else copied
        .program offset page ::
          pgmLoop fuel (offset + sizeofPgmData) (data.drop bytes) page 0 sizeofPgmData

/-- The callback of `SaveBlock`. The page buffer is uninitialised in the source;
the first turn overwrites all of it. -/
def pgmCallback (blockId : UInt32) (offset : ℕ) (data : List UInt8) : List Command :=
  pgmLoop data.length offset data
    (writeAt (List.replicate flashPageSize 0) 0 (encode32 blockId)) 4 (flashPageSize - 4)

/-- The first half of `SaveBlock`: a free block, after reclaiming sectors when
there is none. -/
def findFree (bs : BlockStorage) (c : Chip) : Option ℕ × Chip :=
  match bs.findBlock c.image blockFree with
  | some freeBlock => (some freeBlock, c)
  | none =>
      let c := bs.formatEmptySectors c
      (bs.findBlock c.image blockFree, c)

/-- Clears the block with this id, if there is one. -/
def clearBlock (bs : BlockStorage) (c : Chip) (blockId : UInt32) : Chip :=
  match bs.findBlock c.image blockId with
  | some existing => bs.deletePage c existing
  | none => c

/-- The result says whether the data was programmed. -/
def saveBlock (bs : BlockStorage) (c : Chip) (blockId : UInt32) (data : List UInt8) :
    Bool × Chip :=
  match bs.findFree c with
  | (none, c) => (false, c)
  | (some freeBlock, c) =>
      (bs.clearBlock c blockId).flashSafeExecute (pgmCallback blockId freeBlock data)

def format (bs : BlockStorage) (c : Chip) : Chip :=
  (c.flashSafeExecute [.erase bs.base (bs.sectors * flashSectorSize)]).2

end BlockStorage

@[simp] theorem flashSafeExecute_verdict (c : Chip) (cb : List Command) :
    (c.flashSafeExecute cb).2.verdict = c.verdict := by
  unfold Chip.flashSafeExecute
  split_ifs <;> rfl

@[simp] theorem flashSafeExecute_calls (c : Chip) (cb : List Command) :
    (c.flashSafeExecute cb).2.calls = c.calls + 1 := by
  unfold Chip.flashSafeExecute
  split_ifs <;> rfl

@[simp] theorem flashSafeExecute_result (c : Chip) (cb : List Command) :
    (c.flashSafeExecute cb).1 = c.verdict c.calls := by
  unfold Chip.flashSafeExecute
  split_ifs with h <;> simp [h]

theorem flashSafeExecute_image (c : Chip) (cb : List Command) :
    (c.flashSafeExecute cb).2.image =
      if c.verdict c.calls then applyAll cb c.image else c.image := by
  unfold Chip.flashSafeExecute
  split_ifs <;> rfl

end PicoSomfy
