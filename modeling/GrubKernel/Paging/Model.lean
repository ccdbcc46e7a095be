import GrubKernel.Bitmap.Model

/-!
# Paging

The page directory and the page tables are pages of 1024 words in physical memory.  This file
translates the code that fills them at boot (`paging_setup`) and that adds a page on a fault
(`setup_page`), together with the part of the processor that the code relies on: the two-level walk
from a virtual to a physical address.

* `Paging` — physical memory by aligned words, the directory register, the frame bitmap.
* `translate` — the walk.  An entry needs its present bit only: the kernel runs in supervisor mode
  without write protection.
* `fillTables`, `pagingSetup` — the boot code, which runs before paging is on.
* `setupPage` — the fault path, which reads and writes the tables through the recursive window.  An
  access without a translation is a fault inside the fault handler; then there is no result.
-/

namespace GrubKernel

open Loop

/-- The state of the paging code. -/
structure Paging where
  mem : UInt32 → UInt32
  cr3 : UInt32
  bitmap : ℕ → UInt32

/-! ## The processor -/

/-- The address of a word of a page. -/
def wordAddr (frame index : ℕ) : UInt32 := UInt32.ofNat (4096 * frame + 4 * index)

/-- The frame that an entry points to: bits 31 to 12. -/
def frameOf (entry : UInt32) : ℕ := entry.toNat / 4096

/-- The present bit of an entry. -/
def present (entry : UInt32) : Bool := entry.toNat % 2 = 1

namespace Paging

/-- The directory entry that manages a virtual address. -/
def directoryEntry (s : Paging) (v : UInt32) : UInt32 :=
  s.mem (wordAddr (frameOf s.cr3) (v.toNat / 2 ^ 22))

/-- The table entry that manages a virtual address, in the table of its directory entry. -/
def tableEntry (s : Paging) (v : UInt32) : UInt32 :=
  s.mem (wordAddr (frameOf (s.directoryEntry v)) (v.toNat / 4096 % 1024))

/-- The physical address behind a virtual one. -/
def translate (s : Paging) (v : UInt32) : Option UInt32 :=
  if ¬ present (s.directoryEntry v) then none
  else if ¬ present (s.tableEntry v) then none
  else some (UInt32.ofNat (4096 * frameOf (s.tableEntry v) + v.toNat % 4096))

/-- A load through the walk. -/
def load (s : Paging) (v : UInt32) : Option UInt32 := (s.translate v).map s.mem

/-- A store through the walk. -/
def store (s : Paging) (v w : UInt32) : Option Paging :=
  (s.translate v).map fun a => { s with mem := Function.update s.mem a w }

end Paging

/-! ## `paging_setup` -/

/-- `allocate_frame_aligned`: the address handed out, and the placement address behind it. -/
def allocateFrameAligned (placementMemory : UInt64) (sizeInByte : UInt32) : UInt32 × UInt64 :=
  let placementMemory :=
    if placementMemory &&& 0xFFFFF000 ≠ 0 then (placementMemory &&& 0xFFFFF000) + 0x1000
    else placementMemory
  (placementMemory.toUInt32, placementMemory + sizeInByte.toUInt64)

/-- The body of `paging_setup`, with the page directory at `pageDirectory`: the directory entries are
cleared, the last one is set to the directory itself; all table entries are filled; the last entry of
each table is set to the table itself; the tables are entered into the directory. -/
def fillTables (pageTableCount : ℕ) (pageDirectory : UInt32) (mem : UInt32 → UInt32) :
    UInt32 → UInt32 :=
  let mem := forLoop 1024
    (fun i m => Function.update m (pageDirectory + 4 * UInt32.ofNat i) 2) mem
  let last := pageDirectory + 4 * 1023
  let mem := Function.update mem last pageDirectory
  let mem := Function.update mem last (mem last ||| 1)
  let pageTables := pageDirectory + 4 * 1024
  let mem := forLoop (1024 * pageTableCount)
    (fun i m => Function.update m (pageTables + 4 * UInt32.ofNat i)
      (UInt32.ofNat i * 0x1000 ||| 3)) mem
  let self := forLoop pageTableCount
    (fun i (r : UInt32 × (UInt32 → UInt32)) =>
      let a := pageTables + 4 * (UInt32.ofNat i * 1024 + 1023)
      let m := Function.update r.2 a r.1
      (r.1 + 4 * 1024, Function.update m a (m a ||| 1))) (pageTables, mem)
  let directory := forLoop pageTableCount
    (fun i (r : UInt32 × (UInt32 → UInt32)) =>
      let a := pageDirectory + 4 * UInt32.ofNat i
      let m := Function.update r.2 a r.1
      (r.1 + 4 * 1024, Function.update m a (m a ||| 3))) (pageTables, self.2)
  directory.2

/-- `paging_setup`. -/
def pagingSetup (placementMemory : UInt64) (pageTableCount : ℕ) (s : Paging) : UInt64 × Paging :=
  let r := allocateFrameAligned placementMemory (UInt32.ofNat ((1 + pageTableCount) * 1024 * 4))
  (r.2, { s with mem := fillTables pageTableCount r.1 s.mem, cr3 := r.1 })

/-! ## `setup_page` -/

/-- What a call of `setup_page` leaves: the state, the frame it installed as a page table, and the
frame it put behind the page. -/
structure Outcome where
  state : Paging
  table : Option ℕ
  data : Option ℕ

namespace Paging

/-- `set` on the bitmap of frames. -/
def useFrame (s : Paging) (frame : ℕ) : Paging :=
  { s with bitmap := (Bitmap.set s.bitmap bitmapElementCount frame 1).2 }

/-- `initialize_page_table`. -/
def initializePageTable (s : Paging) (pageTable frameAddress : UInt32) : Option Paging :=
  (forLoopM 1024 (fun i s => s.store (pageTable + 4 * UInt32.ofNat i) 2) s).bind fun s =>
    s.store (pageTable + 4 * 1023) frameAddress

/-- The part of `setup_page` that makes sure that there is a page table.  It returns whether the frame
was installed. -/
def ensureTable (s : Paging) (pageDirectory pageTable frameAddress : UInt32) :
    Option (Bool × Paging) :=
  (s.load pageDirectory).bind fun entry =>
    if entry &&& 1 = 0 then
      (s.store pageDirectory 0).bind fun s =>
        (s.store pageDirectory frameAddress).bind fun s =>
          (s.load pageDirectory).bind fun entry =>
            (s.store pageDirectory (entry ||| 3)).bind fun s =>
              (s.initializePageTable pageTable frameAddress).map fun s => (true, s)
    else some (false, s)

/-- The part of `setup_page` that puts a data frame behind the table entry. -/
def connectData (s : Paging) (pageTableEntry frameAddress : UInt32) : Option Paging :=
  (s.store pageTableEntry frameAddress).bind fun s =>
    (s.load pageTableEntry).bind fun entry => s.store pageTableEntry (entry ||| 1)

/-- `setup_page`. -/
def setupPage (s : Paging) (virtualAddress : UInt32) : Option Outcome :=
  let tableFrame := Bitmap.nextFreeFrameIndex s.bitmap bitmapElementCount
  if tableFrame < 0 then some ⟨s, none, none⟩
  else
    let s := s.useFrame tableFrame.toNat
    let tableAddress := UInt32.ofNat tableFrame.toNat * 0x1000
    let directoryIndex := virtualAddress / (4 * 1024 * 1024)
    let tableIndex := virtualAddress % (4 * 1024 * 1024) / (4 * 1024)
    let pageTable := 0xFFC00000 + directoryIndex * 0x1000
    let pageDirectory := 0xFFFFF000 + directoryIndex * 4
    (s.ensureTable pageDirectory pageTable tableAddress).bind fun r =>
      let table := if r.1 then some tableFrame.toNat else none
      let dataFrame := Bitmap.nextFreeFrameIndex r.2.bitmap bitmapElementCount
      if dataFrame < 0 then some ⟨r.2, table, none⟩
      else
        let dataAddress := UInt32.ofNat dataFrame.toNat * 0x1000
        ((r.2.useFrame dataFrame.toNat).connectData (pageTable + 4 * tableIndex) dataAddress).map
          fun s => ⟨s, table, some dataFrame.toNat⟩

end Paging
end GrubKernel
