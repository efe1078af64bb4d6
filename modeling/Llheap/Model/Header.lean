import Llheap.Model.State

/-!
# Block headers

A block starts with two words. While it is allocated the first one is its home bucket's address or, for a mapped block, the mapped length; while it is free the first one is the link to the next free block. The low three bits of the first word are tags. An aligned address inside a block has a fake header in front of it that holds the alignment, tagged, and the distance back to the real header.
-/

namespace Llheap

/-! ### Sticky bits -/

def stickyBits (word : ℕ) : ℕ := word &&& 7
def clearStickyBits (word : ℕ) : ℕ := word &&& (2 ^ 64 - 8)
def markAlignmentBit (alignment : ℕ) : ℕ := alignment ||| 1
def alignmentBit (word : ℕ) : ℕ := word &&& 1
def clearAlignmentBit (word : ℕ) : ℕ := word &&& (2 ^ 64 - 2)
def zeroFillBit (word : ℕ) : ℕ := word &&& 2
def clearZeroFillBit (word : ℕ) : ℕ := word &&& (2 ^ 64 - 3)
def markZeroFilledBit (word : ℕ) : ℕ := word ||| 2
def mmappedBit (word : ℕ) : ℕ := word &&& 4
def markMmappedBit (size : ℕ) : ℕ := size ||| 4

/-! ### Decoding -/

def headerAddr (addr : ℕ) : ℕ := addr - sizeofStorage

/-- `header->kind.real.size`, or the offset of a fake header -/
def sizeField (header : ℕ) : ℕ := header + 8

def realHeader (m : Memory) (header : ℕ) : ℕ := header - m.word (sizeField header)

/-- `DataSize` -/
def dataSize (bsize : ℕ) (addr header : ℕ) : ℕ := sub64 bsize (addr - header)

/-- The real header and the alignment behind a possibly fake header. -/
def fakeHeader (m : Memory) (header : ℕ) : ℕ × ℕ :=
  if alignmentBit (m.word header) ≠ 0 then
    (realHeader m header, clearAlignmentBit (m.word header))
  else (header, libAlign)

/-- What `headers` stores through its reference parameters, and its result. -/
structure Headers where
  mapped : Bool
  header : ℕ
  freeHead : ℕ
  size : ℕ
  alignment : ℕ
deriving DecidableEq

def headers (s : State) (addr : ℕ) : Headers :=
  let header := headerAddr addr
  if stickyBits (s.mem.word header) = 0 then
    let freeHead := s.mem.word header
    ⟨false, header, freeHead, (s.freeHeader freeHead).blockSize, libAlign⟩
  else
    let (header, alignment) := fakeHeader s.mem header
    if mmappedBit (s.mem.word header) ≠ 0 then
      ⟨true, header, 0, clearStickyBits (s.mem.word header), alignment⟩
    else
      let freeHead := clearStickyBits (s.mem.word header)
      ⟨false, header, freeHead, (s.freeHeader freeHead).blockSize, alignment⟩

/-! ### Queries -/

/-- The header that `malloc_request_size`, `malloc_zero_fill` and `malloc_remote` read. -/
def queryHeader (m : Memory) (addr : ℕ) : ℕ :=
  if alignmentBit (m.word (headerAddr addr)) ≠ 0 then realHeader m (headerAddr addr)
  else headerAddr addr

def mallocRequestSize (s : State) : Option ℕ → ℕ
  | none => 0
  | some addr => s.mem.word (sizeField (queryHeader s.mem addr))

def mallocAlignment (s : State) : Option ℕ → ℕ
  | none => libAlign
  | some addr =>
    if alignmentBit (s.mem.word (headerAddr addr)) ≠ 0 then
      clearAlignmentBit (s.mem.word (headerAddr addr))
    else libAlign

def mallocZeroFill (s : State) : Option ℕ → Bool
  | none => false
  | some addr => zeroFillBit (s.mem.word (queryHeader s.mem addr)) ≠ 0

/-- The pointer to a bucket that `malloc_remote` dereferences. -/
def remoteHome (s : State) (addr : Option ℕ) : Option ℕ :=
  addr.map fun addr => clearStickyBits (s.mem.word (queryHeader s.mem addr))

def mallocRemote (t : Tid) (s : State) (addr : Option ℕ) : Bool :=
  match remoteHome s addr with
  | none => false
  | some home => s.heapManager t = (s.freeHeader home).homeManager

end Llheap
