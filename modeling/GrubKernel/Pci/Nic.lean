import GrubKernel.Lib.Loop
import Mathlib.Data.UInt

/-!
# The driver of the network card

When the scan has found the RTL8139, `init_pcilist` reads its MAC address, resets it and sends one packet.
This file translates these parts over an arbitrary card: what an access to a port does is the card's own
business.

* `Nic` — a card; `Event`, `Machine` — what the driver does, and the card after it.
* `readEeprom`, `macSection` — the serial EEPROM and the MAC address.
* `resetChip`, `configure`, `transmit`, `resetAndSend` — the rest.

The two loops that poll a register take fuel, since nothing bounds them.  The loops that only pass the
time are left out.
-/

namespace GrubKernel

open Loop

/-- A network card: what the instructions that access its ports do. -/
structure Nic (σ : Type*) where
  outb : σ → UInt8 → UInt16 → σ
  outw : σ → UInt16 → UInt16 → σ
  outl : σ → UInt32 → UInt16 → σ
  inb : σ → UInt16 → UInt8 × σ
  inl : σ → UInt16 → UInt32 × σ

namespace Nic

/-- What the driver does: accesses to ports, and lines on the screen. -/
inductive Event
  | outb (value : UInt8) (port : UInt16)
  | outw (value : UInt16) (port : UInt16)
  | outl (value : UInt32) (port : UInt16)
  | inb (port : UInt16) (value : UInt8)
  | inl (port : UInt16) (value : UInt32)
  | kPrintf (format : String) (args : List UInt32)

/-- The card, and what has been done so far. -/
structure Machine (σ : Type*) where
  card : σ
  trace : List Event

variable {σ : Type*}

namespace Machine

def outb (nic : Nic σ) (m : Machine σ) (value : UInt8) (port : UInt16) : Machine σ :=
  ⟨nic.outb m.card value port, m.trace ++ [.outb value port]⟩

def outw (nic : Nic σ) (m : Machine σ) (value : UInt16) (port : UInt16) : Machine σ :=
  ⟨nic.outw m.card value port, m.trace ++ [.outw value port]⟩

def outl (nic : Nic σ) (m : Machine σ) (value : UInt32) (port : UInt16) : Machine σ :=
  ⟨nic.outl m.card value port, m.trace ++ [.outl value port]⟩

def inb (nic : Nic σ) (m : Machine σ) (port : UInt16) : UInt8 × Machine σ :=
  let (value, card) := nic.inb m.card port
  (value, ⟨card, m.trace ++ [.inb port value]⟩)

def inl (nic : Nic σ) (m : Machine σ) (port : UInt16) : UInt32 × Machine σ :=
  let (value, card) := nic.inl m.card port
  (value, ⟨card, m.trace ++ [.inl port value]⟩)

def kPrintf (m : Machine σ) (format : String) (args : List UInt32) : Machine σ :=
  { m with trace := m.trace ++ [.kPrintf format args] }

end Machine

/-! ## Registers -/

/-- `RTL8129_registers`, as far as the driver uses them. -/
def rxBuf : UInt32 := 0x30

def chipCmd : UInt32 := 0x37

def intrMask : UInt32 := 0x3C

def txConfig : UInt32 := 0x40

def rxConfig : UInt32 := 0x44

def cfg9346 : UInt32 := 0x50

/-- The port of a register: `ioaddr + register`, as the `u16int` that the instructions take. -/
def portOf (ioaddr register : UInt32) : UInt16 := (ioaddr + register).toUInt16

/-- `EE_SHIFT_CLK`, `EE_CS`, `EE_DATA_WRITE`, `EE_DATA_READ`, `EE_ENB`. -/
def eeShiftClk : UInt8 := 0x04

def eeCs : UInt8 := 0x08

def eeDataWrite : UInt8 := 0x02

def eeDataRead : UInt8 := 0x01

def eeEnb : UInt8 := 0x80 ||| eeCs

/-- `EE_READ_CMD`. -/
def eeReadCmd : UInt32 := (6 : UInt32) <<< 6

/-! ## The MAC address -/

/-- `eeprom_delay`. -/
def eepromDelay (nic : Nic σ) (eeAddr : UInt16) (m : Machine σ) : Machine σ := (m.inl nic eeAddr).2

/-- The first loop of `read_eeprom`, from `i - 1` down to `0`. -/
def shiftOut (nic : Nic σ) (eeAddr : UInt16) (readCmd : UInt32) : ℕ → Machine σ → Machine σ
  | 0, m => m
  | i + 1, m =>
    let dataval := if readCmd &&& ((1 : UInt32) <<< UInt32.ofNat i) ≠ 0 then eeDataWrite else 0
    let m := eepromDelay nic eeAddr (m.outb nic (eeEnb ||| dataval) eeAddr)
    let m := eepromDelay nic eeAddr (m.outb nic (eeEnb ||| dataval ||| eeShiftClk) eeAddr)
    shiftOut nic eeAddr readCmd i m

/-- The second loop of `read_eeprom`, with `i` rounds to go. -/
def shiftBack (nic : Nic σ) (eeAddr : UInt16) : ℕ → UInt32 → Machine σ → UInt32 × Machine σ
  | 0, retval, m => (retval, m)
  | i + 1, retval, m =>
    let m := eepromDelay nic eeAddr (m.outb nic (eeEnb ||| eeShiftClk) eeAddr)
    let (data, m) := m.inb nic eeAddr
    let retval := (retval <<< 1) ||| (if data &&& eeDataRead ≠ 0 then 1 else 0)
    let m := eepromDelay nic eeAddr (m.outb nic eeEnb eeAddr)
    shiftBack nic eeAddr i retval m

/-- `read_eeprom`. -/
def readEeprom (nic : Nic σ) (ioaddr location : UInt32) (m : Machine σ) : UInt32 × Machine σ :=
  let eeAddr := portOf ioaddr cfg9346
  let readCmd := location ||| eeReadCmd
  let m := m.outb nic (eeEnb &&& ~~~eeCs) eeAddr
  let m := m.outb nic eeEnb eeAddr
  let m := shiftOut nic eeAddr readCmd 11 m
  let m := eepromDelay nic eeAddr (m.outb nic eeEnb eeAddr)
  let (retval, m) := shiftBack nic eeAddr 16 0 m
  (retval, m.outb nic (~~~eeCs) eeAddr)

/-- The variables of the MAC section. -/
structure MacState (σ : Type*) where
  macAddress : List UInt32
  macAddressIndex : ℕ
  machine : Machine σ

/-- A round of the loop that reads the EEPROM. -/
def macFromEeprom (nic : Nic σ) (ioaddr : UInt32) (i : ℕ) (s : MacState σ) : MacState σ :=
  let (word, m) := readEeprom nic ioaddr (UInt32.ofNat i + 7) s.machine
  let data := word.toUInt16
  let macAddress := s.macAddress.set s.macAddressIndex (data &&& 0xFF).toUInt32
  let macAddress := macAddress.set (s.macAddressIndex + 1) (data >>> 8).toUInt32
  ⟨macAddress, s.macAddressIndex + 2, m⟩

/-- A round of the loop that reads the registers.  What it reads goes to a local variable, and from there
nowhere. -/
def macFromRegisters (nic : Nic σ) (ioaddr : UInt32) (i : ℕ) (s : MacState σ) : MacState σ :=
  let (_data, m) := s.machine.inb nic (portOf ioaddr (UInt32.ofNat i))
  { s with macAddressIndex := s.macAddressIndex + 1, machine := m }

/-- The lines of the screen that show the address. -/
def printMac (macAddress : List UInt32) (m : Machine σ) : Machine σ :=
  let m := m.kPrintf "MAC: " []
  let m := forLoop 6 (fun i m => m.kPrintf "%x:" [macAddress.getD i 0]) m
  m.kPrintf "\n" []

/-- The part of `init_pcilist` that fills `mac_address`. -/
def macSection (nic : Nic σ) (ioaddr : UInt32) (m : Machine σ) : List UInt32 × Machine σ :=
  let macAddress := List.replicate 6 0
  let (word, m) := readEeprom nic ioaddr 0 m
  let s :=
    if word ≠ 0xffff then forLoop 3 (macFromEeprom nic ioaddr) ⟨macAddress, 0, m⟩
    else forLoop 6 (macFromRegisters nic ioaddr) ⟨macAddress, 0, m⟩
  (s.macAddress, printMac s.macAddress s.machine)

/-! ## Reset and transmission -/

/-- The loop that waits for the end of the reset.  `.error` is a run that is still in the loop. -/
def waitReset (nic : Nic σ) (ioaddr : UInt32) : ℕ → Machine σ → Except (Machine σ) (Machine σ)
  | 0, m => .error m
  | fuel + 1, m =>
    let (command, m) := m.inb nic (portOf ioaddr chipCmd)
    if command &&& 0x10 ≠ 0 then waitReset nic ioaddr fuel (m.kPrintf "waiting for reset!\n" [])
    else .ok m

/-- The software reset, after which the receiver and the transmitter are enabled. -/
def resetChip (nic : Nic σ) (ioaddr : UInt32) (fuel : ℕ) (m : Machine σ) :
    Except (Machine σ) (Machine σ) := do
  let m ← waitReset nic ioaddr fuel (m.outb nic 0x10 (portOf ioaddr chipCmd))
  let m := m.kPrintf "Reset done.\n" []
  let m := m.outb nic 0x0C (portOf ioaddr chipCmd)
  return m.kPrintf "Enable receiver and transmitter done.\n" []

/-- The configuration of the two directions, the buffer of the receiver at the address `rxBuffer`. -/
def configure (nic : Nic σ) (ioaddr rxBuffer : UInt32) (m : Machine σ) : Machine σ :=
  let m := m.outl nic 0x03000700 (portOf ioaddr txConfig)
  let m := m.outl nic 0x0000070a (portOf ioaddr rxConfig)
  let m := m.outl nic rxBuffer (portOf ioaddr rxBuf)
  let m := m.outw nic 0x0005 (portOf ioaddr intrMask)
  m.outl nic ((0xf : UInt32) ||| ((1 : UInt32) <<< 7)) (portOf ioaddr 0x44)

/-- `TSAD_array`, `TSD_array`. -/
def tsadArray : List UInt8 := [0x20, 0x24, 0x28, 0x2C]

def tsdArray : List UInt8 := [0x10, 0x14, 0x18, 0x1C]

/-- The port of an entry of one of the arrays. -/
def entryPort (ioaddr : UInt32) (array : List UInt8) (txCur : ℕ) : UInt16 :=
  portOf ioaddr (array.getD txCur 0).toUInt32

/-- The loop that is to wait for the transmission.  In the source's condition `transmit_ok & (1 << 15) == 0`
the comparison binds stronger. -/
def waitTransmit (nic : Nic σ) (tsd : UInt16) : ℕ → UInt32 → Machine σ →
    Except (Machine σ) (UInt32 × Machine σ)
  | 0, _, m => .error m
  | fuel + 1, transmitOk, m =>
    if transmitOk &&& (if (1 : UInt32) <<< 15 = 0 then 1 else 0) ≠ 0 then
      let m := m.kPrintf "Waiting for transmit_ok ...\n" []
      let (transmitOk, m) := m.inl nic tsd
      waitTransmit nic tsd fuel transmitOk m
    else .ok (transmitOk, m)

/-- The transmission of one packet of 256 bytes at the address `txBuffer`. -/
def transmit (nic : Nic σ) (ioaddr txBuffer : UInt32) (fuel : ℕ) (m : Machine σ) :
    Except (Machine σ) (Machine σ) := do
  let len : UInt32 := 256
  let m := m.kPrintf "Sending...\n" []
  let txCur := 0
  let m := m.outl nic txBuffer (entryPort ioaddr tsadArray txCur)
  let status := 0 ||| (len &&& 0x1FFF)
  let tsd := entryPort ioaddr tsdArray txCur
  let m := m.outl nic status tsd
  let (transmitOk, m) := m.inl nic tsd
  let (transmitOk, m) ← waitTransmit nic tsd fuel transmitOk m
  let m := m.kPrintf "Waiting for transmit_ok done. transmit_ok = %d\n" [transmitOk]
  return m.kPrintf "Sending done.\n" []

/-- The part of `init_pcilist` from the reset to the end. -/
def resetAndSend (nic : Nic σ) (ioaddr rxBuffer txBuffer : UInt32) (fuel : ℕ) (m : Machine σ) :
    Except (Machine σ) (Machine σ) := do
  let m ← resetChip nic ioaddr fuel m
  transmit nic ioaddr txBuffer fuel (configure nic ioaddr rxBuffer m)

/-- What has been done, whether the run has come to its end or not. -/
def eventsOf : Except (Machine σ) (Machine σ) → List Event
  | .error m => m.trace
  | .ok m => m.trace

end Nic

end GrubKernel
