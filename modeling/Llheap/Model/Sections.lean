import Llheap.Model.Routines

/-!
# The sections of a call that moves an allocation

`realloc` and `aligned_realloc` hold no lock while an allocation moves: they obtain storage, copy to it, free the old block and carry the zero fill over, and other threads run in between. Here both are cut at these places, with the local variables that they carry across.
-/

namespace Llheap

variable {cfg : Config}

/-- The local variables of a call that has obtained storage. -/
structure Move where
  oaddr : ℕ
  /-- the alignment of the old address when the program gave it to the call -/
  oalignment : ℕ
  osize : ℕ
  ozfill : Bool
  nsize : ℕ
  naddr : ℕ
  /-- that of the new block -/
  header : ℕ
deriving DecidableEq

namespace Move

/-- `memcpy` of the old contents. -/
def copy (m : Move) (s : State) : State :=
  { s with mem := s.mem.copy m.naddr m.oaddr (min m.osize m.nsize) }

/-- What is done to the new block after the old one has been freed. -/
def carryZeroFill (m : Move) (s : State) : State :=
  if m.ozfill then
    let mem := s.mem.setWord m.header (markZeroFilledBit (s.mem.word m.header))
    { s with mem := if m.osize < m.nsize then mem.fill (m.naddr + m.osize) (m.nsize - m.osize) 0 else mem }
  else s

end Move

/-- How far a call has come when it has asked for storage: it has returned, or is about to copy. -/
inductive Progress
  | returned (r : Option ℕ)
  | moving (m : Move)
deriving DecidableEq

/-- The old header was read in the state `old`, before storage was asked for. -/
def Progress.ofRequest (oaddr oalignment header nsize : ℕ) (old : State) :
    Option ℕ × State → Progress × State
  | (none, s) => (.returned none, s)
  | (some naddr, s) => (.moving {
      oaddr, oalignment, nsize, naddr
      osize := old.mem.word (sizeField header)
      ozfill := zeroFillBit (old.mem.word header) ≠ 0
      header := (fakeHeader s.mem (headerAddr naddr)).1 }, s)

/-- `realloc` of an address up to the copy. -/
def reallocStart [Os] (k : Kernel cfg) (t : Tid) (oaddr oalignment nsize : ℕ) (s : State) :
    Result (Progress × State) := do
  if nsize = 0 then
    let s ← doFree t oaddr s
    .ok (.returned none, s)
  else
    let hd := headers s oaddr
    if reusable nsize (dataSize hd.size oaddr hd.header) then
      .ok (.returned (some oaddr), reallocInPlace oaddr hd.header nsize s)
    else
      let r ← if hd.alignment ≤ libAlign then doMalloc k t nsize s
        else memalignNoStats k t hd.alignment nsize s
      .ok (Progress.ofRequest oaddr oalignment hd.header nsize s r)

def alignedReallocMoveStart [Os] (k : Kernel cfg) (t : Tid) (oaddr nalignment size : ℕ) (s : State) :
    Result (Progress × State) := do
  let hd := headers s oaddr
  let r ← memalignNoStats k t nalignment size s
  .ok (Progress.ofRequest oaddr hd.alignment hd.header size s r)

/-- `aligned_realloc` of an address up to the copy. -/
def alignedReallocStart [Os] (k : Kernel cfg) (t : Tid) (oaddr nalignment size : ℕ) (s : State) :
    Result (Progress × State) := do
  if size = 0 then
    let s ← doFree t oaddr s
    .ok (.returned none, s)
  else
    let word := s.mem.word (headerAddr oaddr)
    if alignmentBit word ≠ 0 then
      let nalignment := max nalignment libAlign
      let oalignment := clearAlignmentBit word
      if luckyMatch oaddr oalignment nalignment then
        reallocStart k t oaddr oalignment size (updateAlignment oaddr nalignment s)
      else alignedReallocMoveStart k t oaddr nalignment size s
    else if nalignment = libAlign then reallocStart k t oaddr (headers s oaddr).alignment size s
    else alignedReallocMoveStart k t oaddr nalignment size s

/-- The rest of a call that nothing comes between. -/
def Progress.complete [Os] (t : Tid) : Progress × State → Result (Option ℕ × State)
  | (.returned r, s) => .ok (r, s)
  | (.moving m, s) => do
    let s ← doFree t m.oaddr (m.copy s)
    .ok (some m.naddr, m.carryZeroFill s)

end Llheap
