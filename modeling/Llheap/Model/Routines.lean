import Llheap.Model.Malloc

/-!
# Public routines

The allocation routines a program calls, in the order of the source. A routine that returns a pointer returns an `Option`, and so does one that takes an old allocation which may be null.
-/

namespace Llheap

variable {cfg : Config}

def malloc [Os] (k : Kernel cfg) (t : Tid) (size : ℕ) (s : State) : Result (Option ℕ × State) :=
  doMalloc k t size s

def aalloc [Os] (k : Kernel cfg) (t : Tid) (dimension elemSize : ℕ) (s : State) :
    Result (Option ℕ × State) :=
  doMalloc k t (dimension * elemSize % 2 ^ 64) s

/-- Zero a fresh allocation and mark it. Mapped storage is already zero. -/
def zeroFill (addr header size : ℕ) (s : State) : State :=
  let m := if mmappedBit (s.mem.word header) = 0 then s.mem.fill addr size 0 else s.mem
  { s with mem := m.setWord header (markZeroFilledBit (m.word header)) }

def calloc [Os] (k : Kernel cfg) (t : Tid) (dimension elemSize : ℕ) (s : State) :
    Result (Option ℕ × State) := do
  let size := dimension * elemSize % 2 ^ 64
  match ← doMalloc k t size s with
  | (none, s) => .ok (none, s)
  | (some addr, s) => .ok (some addr, zeroFill addr (headerAddr addr) size s)

/-- A block is reused for a request that fits and wastes at most half of its data space. -/
def reusable (size odsize : ℕ) : Prop := size ≤ odsize ∧ odsize ≤ size * 2 % 2 ^ 64

instance (size odsize : ℕ) : Decidable (reusable size odsize) := inferInstanceAs (Decidable (_ ∧ _))

/-- Reuse without keeping contents or properties: turn off zero fill and set the size. -/
def resizeInPlace (header size : ℕ) (s : State) : State :=
  let m := s.mem.setWord header (clearZeroFillBit (s.mem.word header))
  { s with mem := m.setWord (sizeField header) size }

def resize [Os] (k : Kernel cfg) (t : Tid) (oaddr : Option ℕ) (size : ℕ) (s : State) :
    Result (Option ℕ × State) := do
  match oaddr with
  | none => doMalloc k t size s
  | some oaddr =>
    if size = 0 then
      let s ← doFree t oaddr s
      .ok (none, s)
    else
      let hd := headers s oaddr
      let odsize := dataSize hd.size oaddr hd.header
      if hd.alignment = libAlign ∧ reusable size odsize then
        .ok (some oaddr, resizeInPlace hd.header size s)
      else
        let s ← doFree t oaddr s
        doMalloc k t size s

def resizearray [Os] (k : Kernel cfg) (t : Tid) (oaddr : Option ℕ) (dimension elemSize : ℕ) (s : State) :
    Result (Option ℕ × State) :=
  resize k t oaddr (dimension * elemSize % 2 ^ 64) s

/-- Reuse keeping contents and properties: set the size and clear what a zero-filled block gains. -/
def reallocInPlace (oaddr header nsize : ℕ) (s : State) : State :=
  let osize := s.mem.word (sizeField header)
  let ozfill := zeroFillBit (s.mem.word header) ≠ 0
  let m := s.mem.setWord (sizeField header) nsize
  if ozfill ∧ osize < nsize then { s with mem := m.fill (oaddr + osize) (nsize - osize) 0 }
  else { s with mem := m }

/-- Copy the old contents to the new block, free the old one, and carry the zero fill over. -/
def moveContents [Os] (t : Tid) (oaddr naddr osize nsize : ℕ) (ozfill : Bool) (s : State) :
    Result State := do
  let header := (fakeHeader s.mem (headerAddr naddr)).1
  let s := { s with mem := s.mem.copy naddr oaddr (min osize nsize) }
  let s ← doFree t oaddr s
  if ozfill then
    let m := s.mem.setWord header (markZeroFilledBit (s.mem.word header))
    let m := if osize < nsize then m.fill (naddr + osize) (nsize - osize) 0 else m
    .ok { s with mem := m }
  else .ok s

def realloc [Os] (k : Kernel cfg) (t : Tid) (oaddr : Option ℕ) (nsize : ℕ) (s : State) :
    Result (Option ℕ × State) := do
  match oaddr with
  | none => doMalloc k t nsize s
  | some oaddr =>
    if nsize = 0 then
      let s ← doFree t oaddr s
      .ok (none, s)
    else
      let hd := headers s oaddr
      let odsize := dataSize hd.size oaddr hd.header
      let osize := s.mem.word (sizeField hd.header)
      let ozfill : Bool := zeroFillBit (s.mem.word hd.header) ≠ 0
      if reusable nsize odsize then .ok (some oaddr, reallocInPlace oaddr hd.header nsize s)
      else
        let r ← if hd.alignment ≤ libAlign then doMalloc k t nsize s
          else memalignNoStats k t hd.alignment nsize s
        match r with
        | (none, s) => .ok (none, s)
        | (some naddr, s) =>
          let s ← moveContents t oaddr naddr osize nsize ozfill s
          .ok (some naddr, s)

def reallocarray [Os] (k : Kernel cfg) (t : Tid) (oaddr : Option ℕ) (dimension elemSize : ℕ) (s : State) :
    Result (Option ℕ × State) :=
  realloc k t oaddr (dimension * elemSize % 2 ^ 64) s

/-- The return code, and `*oaddrp` after the call. -/
def posixRealloc [Os] (k : Kernel cfg) (t : Tid) (oaddrp : Option ℕ) (size : ℕ) (s : State) :
    Result (ℕ × Option ℕ × State) := do
  let (ret, s) ← realloc k t oaddrp size s
  if ret = none ∧ s.errno t = ENOMEM then .ok (ENOMEM, oaddrp, s)
  else .ok (0, ret, s)

def posixReallocarray [Os] (k : Kernel cfg) (t : Tid) (oaddrp : Option ℕ) (dimension elemSize : ℕ)
    (s : State) : Result (ℕ × Option ℕ × State) :=
  posixRealloc k t oaddrp (dimension * elemSize % 2 ^ 64) s

/-- The old address serves the new alignment: it happens to be a multiple, and little is wasted. -/
def luckyMatch (oaddr oalignment nalignment : ℕ) : Prop :=
  oaddr % nalignment = 0 ∧
    (oalignment ≤ nalignment ∨ (nalignment ≤ oalignment ∧ oalignment ≤ 256))

instance (a o n : ℕ) : Decidable (luckyMatch a o n) := inferInstanceAs (Decidable (_ ∧ _))

/-- Record a new alignment in the fake header of an aligned address. -/
def updateAlignment (oaddr nalignment : ℕ) (s : State) : State :=
  { s with mem := s.mem.setWord (headerAddr oaddr) (markAlignmentBit nalignment) }

/-- The end of `aligned_resize`: the old storage is freed even if no new storage is found. -/
def alignedResizeMove [Os] (k : Kernel cfg) (t : Tid) (oaddr nalignment size : ℕ) (s : State) :
    Result (Option ℕ × State) := do
  let s ← doFree t oaddr s
  memalignNoStats k t nalignment size s

def alignedResize [Os] (k : Kernel cfg) (t : Tid) (oaddr : Option ℕ) (nalignment size : ℕ)
    (s : State) : Result (Option ℕ × State) := do
  match oaddr with
  | none => memalignNoStats k t nalignment size s
  | some oaddr =>
    if size = 0 then
      let s ← doFree t oaddr s
      .ok (none, s)
    else
      let nalignment := max nalignment libAlign
      let word := s.mem.word (headerAddr oaddr)
      if alignmentBit word ≠ 0 then
        if luckyMatch oaddr (clearAlignmentBit word) nalignment then
          let s := updateAlignment oaddr nalignment s
          let hd := headers s oaddr
          let odsize := dataSize hd.size oaddr hd.header
          if reusable size odsize then
            .ok (some oaddr, resizeInPlace hd.header size (updateAlignment oaddr nalignment s))
          else alignedResizeMove k t oaddr nalignment size s
        else alignedResizeMove k t oaddr nalignment size s
      else if nalignment = libAlign then resize k t (some oaddr) size s
      else alignedResizeMove k t oaddr nalignment size s

def alignedResizearray [Os] (k : Kernel cfg) (t : Tid) (oaddr : Option ℕ)
    (nalignment dimension elemSize : ℕ) (s : State) : Result (Option ℕ × State) :=
  alignedResize k t oaddr nalignment (dimension * elemSize % 2 ^ 64) s

/-- The end of `aligned_realloc`: the old storage is kept if no new storage is found. -/
def alignedReallocMove [Os] (k : Kernel cfg) (t : Tid) (oaddr nalignment size : ℕ) (s : State) :
    Result (Option ℕ × State) := do
  let hd := headers s oaddr
  let osize := s.mem.word (sizeField hd.header)
  let ozfill : Bool := zeroFillBit (s.mem.word hd.header) ≠ 0
  match ← memalignNoStats k t nalignment size s with
  | (none, s) => .ok (none, s)
  | (some naddr, s) =>
    let s ← moveContents t oaddr naddr osize size ozfill s
    .ok (some naddr, s)

def alignedRealloc [Os] (k : Kernel cfg) (t : Tid) (oaddr : Option ℕ) (nalignment size : ℕ)
    (s : State) : Result (Option ℕ × State) := do
  match oaddr with
  | none => memalignNoStats k t nalignment size s
  | some oaddr =>
    if size = 0 then
      let s ← doFree t oaddr s
      .ok (none, s)
    else
      let word := s.mem.word (headerAddr oaddr)
      if alignmentBit word ≠ 0 then
        let nalignment := max nalignment libAlign
        if luckyMatch oaddr (clearAlignmentBit word) nalignment then
          realloc k t (some oaddr) size (updateAlignment oaddr nalignment s)
        else alignedReallocMove k t oaddr nalignment size s
      else if nalignment = libAlign then realloc k t (some oaddr) size s
      else alignedReallocMove k t oaddr nalignment size s

def alignedReallocarray [Os] (k : Kernel cfg) (t : Tid) (oaddr : Option ℕ)
    (nalignment dimension elemSize : ℕ) (s : State) : Result (Option ℕ × State) :=
  alignedRealloc k t oaddr nalignment (dimension * elemSize % 2 ^ 64) s

def posixAlignedRealloc [Os] (k : Kernel cfg) (t : Tid) (oaddrp : Option ℕ) (nalignment size : ℕ)
    (s : State) : Result (ℕ × Option ℕ × State) := do
  let (ret, s) ← alignedRealloc k t oaddrp nalignment size s
  if ret = none ∧ s.errno t = ENOMEM then .ok (ENOMEM, oaddrp, s)
  else .ok (0, ret, s)

def posixAlignedReallocarray [Os] (k : Kernel cfg) (t : Tid) (oaddrp : Option ℕ)
    (nalignment dimension elemSize : ℕ) (s : State) : Result (ℕ × Option ℕ × State) :=
  posixAlignedRealloc k t oaddrp nalignment (dimension * elemSize % 2 ^ 64) s

def memalign [Os] (k : Kernel cfg) (t : Tid) (alignment size : ℕ) (s : State) :
    Result (Option ℕ × State) :=
  memalignNoStats k t alignment size s

def amemalign [Os] (k : Kernel cfg) (t : Tid) (alignment dimension elemSize : ℕ) (s : State) :
    Result (Option ℕ × State) :=
  memalignNoStats k t alignment (dimension * elemSize % 2 ^ 64) s

def cmemalign [Os] (k : Kernel cfg) (t : Tid) (alignment dimension elemSize : ℕ) (s : State) :
    Result (Option ℕ × State) := do
  let size := dimension * elemSize % 2 ^ 64
  match ← memalignNoStats k t alignment size s with
  | (none, s) => .ok (none, s)
  | (some addr, s) => .ok (some addr, zeroFill addr (fakeHeader s.mem (headerAddr addr)).1 size s)

def alignedAlloc [Os] (k : Kernel cfg) (t : Tid) (alignment size : ℕ) (s : State) : Result (Option ℕ × State) :=
  memalignNoStats k t alignment size s

/-- The return code, and `*memptr` after the call. -/
def posixMemalign [Os] (k : Kernel cfg) (t : Tid) (memptr : Option ℕ) (alignment size : ℕ) (s : State) :
    Result (ℕ × Option ℕ × State) := do
  let (ret, s) ← memalignNoStats k t alignment size s
  if ret = none then .ok (ENOMEM, memptr, s)
  else .ok (0, ret, s)

/-- Before boot the page size that is read here is still zero. -/
def valloc [Os] (k : Kernel cfg) (t : Tid) (size : ℕ) (s : State) : Result (Option ℕ × State) :=
  memalignNoStats k t s.heapMaster.pageSize size s

def pvalloc [Os] (k : Kernel cfg) (t : Tid) (size : ℕ) (s : State) : Result (Option ℕ × State) :=
  valloc k t (ceiling size s.heapMaster.pageSize) s

def free [Os] (t : Tid) (addr : Option ℕ) (s : State) : Result State :=
  match addr with
  | none => .ok s
  | some addr => doFree t addr s

/-- It also raises the recorded request size to the usable size. -/
def mallocUsableSize (addr : Option ℕ) (s : State) : ℕ × State :=
  match addr with
  | none => (0, s)
  | some addr =>
    let hd := headers s addr
    let dsize := dataSize hd.size addr hd.header
    (dsize, { s with mem := s.mem.setWord (sizeField hd.header) dsize })

/-- `M_TOP_PAD` and `M_MMAP_THRESHOLD` of `malloc.h` -/
@[simp] def mTopPad : ℤ := -2
@[simp] def mMmapThreshold : ℤ := -3

def mallopt (option value : ℤ) (s : State) : Result (ℕ × State) :=
  if value < 0 then .ok (0, s)
  else if option = mTopPad then
    let m := { s.heapMaster with sbrkExtend := ceiling value.toNat s.heapMaster.pageSize }
    if 256 * 1024 ≤ m.sbrkExtend then .ok (1, { s with heapMaster := m })
    else .error .alwaysAssert
  else if option = mMmapThreshold then
    match setMmapStart value.toNat s.heapMaster with
    | (true, m) => .ok (1, { s with heapMaster := m })
    | (false, _) => .ok (0, s)
  else .ok (0, s)

end Llheap
