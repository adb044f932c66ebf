import Lpc1788Libraries.Support.ShiftChain

namespace Lpc1788Libraries.Max7219

open Lpc1788Libraries.Support

/-- A command that a device of the chain executes. -/
structure Command where
  device : ℕ
  address : ℕ
  data : UInt8
  deriving DecidableEq

/-- What one chip-select frame did: how many bits it carried and what was not a no-op. -/
structure Frame where
  clocks : ℕ
  executed : List Command

/-- The devices behind one shift register. `clocks` counts the clock edges, `frameClocks` those
since the last selection, and `frames` has the newest frame first. -/
structure Chain where
  length : ℕ
  selected : Bool
  bits : ℕ → Bool
  clocks : ℕ
  frameClocks : ℕ
  frames : List Frame
  reg : ℕ → ℕ → UInt8

namespace Chain

variable (c : Chain)

def word (device : ℕ) : ℕ := ShiftChain.field c.bits (16 * device) 16

def command (device : ℕ) : Command := ⟨device, c.word device / 256 % 16, UInt8.ofNat (c.word device)⟩

def clockBit (b : Bool) : Chain :=
  { c with
    bits := ShiftChain.clock c.bits b
    clocks := c.clocks + 1
    frameClocks := if c.selected then c.frameClocks + 1 else c.frameClocks }

def select : Chain := { c with selected := true, frameClocks := 0 }

/-- The rising edge of chip select, at which every device takes its word. -/
def deselect : Chain :=
  if c.selected then
    { c with
      selected := false
      frames := ⟨c.frameClocks, ((List.range c.length).map c.command).filter fun a => a.address ≠ 0⟩ :: c.frames
      reg := fun device address =>
        if device < c.length ∧ address ≠ 0 ∧ (c.command device).address = address then (c.command device).data
        else c.reg device address }
  else c

end Chain

/-- `max`, as far as it is read, the shadow `matrix` with the memory behind it, and the chain. -/
structure State where
  maxDevNumber : UInt8
  matrix : ℕ → UInt8
  chain : Chain

/-- The loop of `max7219_serial3wire_write_short`. -/
def writeShortRounds : ℕ → ℕ → Chain → Chain
  | 0, _, c => c
  | count + 1, temp, c => writeShortRounds count (temp <<< 1 % 0x10000) (c.clockBit (decide (temp &&& 0x8000 ≠ 0)))

def writeShort (data : ℕ) (c : Chain) : Chain := writeShortRounds 16 data c

/-- The macro `MAX7219`. -/
def max7219 (reg data : ℕ) (c : Chain) : Chain := writeShort (((reg <<< 8) &&& 0x0f00) ||| (data &&& 0x00ff)) c

def nops : ℕ → Chain → Chain
  | 0, c => c
  | n + 1, c => nops n (max7219 0 0 c)

def precedNop (maxDevNumber device : UInt8) : ℤ := maxDevNumber.toNat - (device.toNat + 1)

def followNop (maxDevNumber device : UInt8) : ℤ := maxDevNumber.toNat - (precedNop maxDevNumber device + 1)

def sendData (reg data device : UInt8) (s : State) : State :=
  if s.maxDevNumber < device then s
  else
    { s with chain := (nops (followNop s.maxDevNumber device).toNat
        (max7219 reg.toNat data.toNat (nops (precedNop s.maxDevNumber device).toNat s.chain.select))).deselect }

/-- What the functions that read no state do, one after the other. -/
inductive Act
  | send (reg data device : UInt8)
  | writeShort (data : ℕ)
  deriving DecidableEq

def Act.perform (s : State) : Act → State
  | send reg data device => sendData reg data device s
  | writeShort data => { s with chain := Max7219.writeShort data s.chain }

def perform (acts : List Act) (s : State) : State := acts.foldl Act.perform s

end Lpc1788Libraries.Max7219
