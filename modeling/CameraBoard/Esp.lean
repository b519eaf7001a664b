import Mathlib.Tactic.Common

/-! Bytes, return codes and register reads shared by the components of the
board. -/
namespace CameraBoard

abbrev Byte := BitVec 8

/-- The bytes of a C string before its terminator. -/
abbrev CStr := List Byte

def ascii (s : String) : CStr := s.toList.map fun c => BitVec.ofNat 8 c.toNat

/-- `esp_err_t` is a C `int` whose zero means success. -/
abbrev EspErr := Int

def espOk : EspErr := 0
def espFail : EspErr := -1
def espErrNoMem : EspErr := 0x101
def espErrInvalidArg : EspErr := 0x102
def espErrInvalidState : EspErr := 0x103
def espErrNotFound : EspErr := 0x105
def espErrTimeout : EspErr := 0x107

theorem espFail_ne_espOk : espFail ≠ espOk := by decide

theorem espErrInvalidState_ne_espOk : espErrInvalidState ≠ espOk := by decide

/-- How a read of consecutive registers ends. One that fails leaves anything in
the caller's buffer. -/
structure I2cRead where
  err : EspErr
  stray : Nat → Byte

def I2cRead.data (t : I2cRead) (regs : Nat → Byte) (reg i : Nat) : Byte :=
  if t.err = espOk then regs (reg + i) else t.stray i

end CameraBoard
