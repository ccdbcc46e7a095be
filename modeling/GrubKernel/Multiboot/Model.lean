import GrubKernel.Lib.ByteMemory
import GrubKernel.PlacementMemory.Model

/-!
# The multiboot information

The boot loader leaves a record, `multiboot_info_t`, and behind it the memory map and the records of
the loaded modules, in physical memory.  This file translates the functions of `memory_map.c` and
`multiboot.c` that walk over them and pass what they find to the placement memory.

* `MultibootInfo`, `MemoryMap`, `Module` — the records, with the fields that are read.
* `processMultibootMemoryMap` — the walk over the memory map.  It also returns the calls of
  `insert_area` that it made, in order.
* `processMods`, `processELF` — the walk over the modules, and the kernel's own image.  They call
  `allocate_area` without its declaration, so they also take what lies on the stack behind the arguments.

`unsigned long` has 32 bits.  The walk over the memory map follows sizes found in memory and need not
end, so it takes a bound on the number of rounds and has no result when that is used up.
-/

namespace GrubKernel

open ByteMemory

/-! ## Records in memory -/

/-- `sizeof(long)`. -/
def sizeofLong : UInt32 := 4

/-- `elf_section_header_table_t`. -/
structure ElfSectionHeaderTable where
  num : UInt32
  size : UInt32
  addr : UInt32
  shndx : UInt32
deriving DecidableEq, Repr

/-- `multiboot_info_t`, without the fields that no function here reads. -/
structure MultibootInfo where
  flags : UInt32
  modsCount : UInt32
  modsAddr : UInt32
  elfSec : ElfSectionHeaderTable
  mmapLength : UInt32
  mmapAddr : UInt32
deriving DecidableEq, Repr

/-- `CHECK_FLAG`. -/
def checkFlag (flags bit : UInt32) : Bool := flags &&& (1 <<< bit) ≠ 0

/-- `memory_map_t`. -/
structure MemoryMap where
  size : UInt32
  baseAddrLow : UInt32
  baseAddrHigh : UInt32
  lengthLow : UInt32
  lengthHigh : UInt32
  type : UInt32
deriving DecidableEq, Repr

/-- The memory map record at an address. -/
def memoryMapAt (mem : UInt32 → UInt8) (a : UInt32) : MemoryMap where
  size := load32 mem a
  baseAddrLow := load32 mem (a + 4)
  baseAddrHigh := load32 mem (a + 8)
  lengthLow := load32 mem (a + 12)
  lengthHigh := load32 mem (a + 16)
  type := load32 mem (a + 20)

/-- `module_t`. -/
structure Module where
  modStart : UInt32
  modEnd : UInt32
  string : UInt32
  reserved : UInt32
deriving DecidableEq, Repr

/-- `sizeof(module_t)`. -/
def sizeofModule : UInt32 := 16

/-- The module record at an address. -/
def moduleAt (mem : UInt32 → UInt8) (a : UInt32) : Module where
  modStart := load32 mem a
  modEnd := load32 mem (a + 4)
  string := load32 mem (a + 8)
  reserved := load32 mem (a + 12)

/-! ## The memory map -/

/-- The outcome of the walk: the return value, the calls of `insert_area` in order, the table. -/
structure MapResult where
  code : ℤ
  calls : List MemoryArea
  table : PlacementMemory

/-- The outcome with one call made before it. -/
def MapResult.after (r : MapResult) (a : MemoryArea) : MapResult := { r with calls := a :: r.calls }

/-- The range that is passed to `insert_area` for an entry.  The sums are taken in 32 bits. -/
def MemoryMap.area (e : MemoryMap) : MemoryArea where
  start := (e.baseAddrHigh * sizeofLong + e.baseAddrLow).toUInt64
  size := (e.lengthHigh * sizeofLong + e.lengthLow).toUInt64

/-- The loop of `process_multiboot_memory_map`: the entry at `mmap`, up to the address `stop`. -/
def processEntries (mem : UInt32 → UInt8) (stop : UInt32) :
    ℕ → UInt32 → PlacementMemory → Option MapResult
  | 0, _, _ => none
  | fuel + 1, mmap, s =>
      if mmap < stop then
        let e := memoryMapAt mem mmap
        let next := mmap + e.size + 4
        if e.type = 1 then
          let r := s.insertArea e.area.start e.area.size
          if r.1 ≠ 0 then some ⟨-2, [e.area], r.2⟩
          else (processEntries mem stop fuel next r.2).map (·.after e.area)
        else processEntries mem stop fuel next s
      else some ⟨0, [], s⟩

/-- `process_multiboot_memory_map`. -/
def processMultibootMemoryMap (fuel : ℕ) (mem : UInt32 → UInt8) (mbi : MultibootInfo)
    (s : PlacementMemory) : Option MapResult :=
  if ¬ checkFlag mbi.flags 6 then some ⟨-1, [], s⟩
  else processEntries mem (mbi.mmapAddr + mbi.mmapLength) fuel mbi.mmapAddr s

/-! ## Modules and the kernel image -/

/-- Two words that follow each other, read as one number of 64 bits. -/
def packed (low high : UInt32) : UInt64 := UInt64.ofNat (low.toNat + 2 ^ 32 * high.toNat)

/-- The call `allocate_area(start, size)` of `multiboot.c`, which does not declare it.  The 32-bit code
pushes two words, and `allocate_area` takes them for its first parameter, which has 64 bits.  Its second
parameter is what lies behind them on the stack. -/
def PlacementMemory.allocateAreaUndeclared (s : PlacementMemory) (start size : UInt32)
    (behind : UInt64) : ℤ × PlacementMemory :=
  s.allocateArea (packed start size) behind

/-- The loop of `processMods`, `n` rounds from round `i` and the record at `mod` on.  `behind` is what
lies on the stack in each round.  `mod += sizeof(module_t)` is pointer arithmetic: it moves on by
sixteen records. -/
def processModsFrom (mem : UInt32 → UInt8) (behind : ℕ → UInt64) :
    ℕ → ℕ → UInt32 → PlacementMemory → PlacementMemory
  | 0, _, _, s => s
  | n + 1, i, mod, s =>
      let m := moduleAt mem mod
      processModsFrom mem behind n (i + 1) (mod + sizeofModule * sizeofModule)
        (s.allocateAreaUndeclared m.modStart (m.modEnd - m.modStart) (behind i)).2

/-- `processMods`. -/
def processMods (mem : UInt32 → UInt8) (behind : ℕ → UInt64) (mbi : MultibootInfo)
    (s : PlacementMemory) : PlacementMemory :=
  if ¬ checkFlag mbi.flags 3 then s
  else processModsFrom mem behind mbi.modsCount.toNat 0 mbi.modsAddr s

/-- `processELF`. -/
def processELF (behind : UInt64) (mbi : MultibootInfo) (s : PlacementMemory) : PlacementMemory :=
  if ¬ checkFlag mbi.flags 5 then s
  else (s.allocateAreaUndeclared mbi.elfSec.addr mbi.elfSec.size behind).2

end GrubKernel
