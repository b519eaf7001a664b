import CameraBoard.Esp
import CameraBoard.General.Bytes
import CameraBoard.General.Memory

/-! The drawing functions: where each gets its buffer, what it puts there, what
it asks the panel driver to draw from it and when it gives the buffer back. -/
namespace CameraBoard.Lcd
open Bytes Memory

/-- A C `int`. -/
abbrev CInt := BitVec 32

def bspLcdHRes : Nat := 320
def bspLcdVRes : Nat := 240

def lcdCmdCaset : Byte := 0x2a
def lcdCmdRaset : Byte := 0x2b
def lcdCmdRamwr : Byte := 0x2c

/-- The four coordinates of a draw, the end ones exclusive. -/
structure Area where
  xStart : CInt
  yStart : CInt
  xEnd : CInt
  yEnd : CInt
  deriving DecidableEq, Repr

/-- The assertion of the panel driver. -/
def Area.Proper (a : Area) : Prop := a.xStart.slt a.xEnd = true ∧ a.yStart.slt a.yEnd = true

instance (a : Area) : Decidable a.Proper := inferInstanceAs (Decidable (_ ∧ _))

/-- What the panel driver asks of the panel IO. -/
inductive PanelOp where
  | txParam (lcdCmd : Byte) (param : List Byte)
  | txColor (lcdCmd : Byte) (color colorSize : Nat)
  deriving DecidableEq, Repr

/-- The byte of `(x >> shift) & 0xFF`. -/
def byteAt (x : CInt) (shift : Nat) : Byte := (x.sshiftRight shift).setWidth 8

def addressParam (start stop : CInt) : List Byte :=
  [byteAt start 8, byteAt start 0, byteAt (stop - 1) 8, byteAt (stop - 1) 0]

/-- The length of the color data at 16 bits a pixel, in `int` arithmetic. -/
def drawLength (a : Area) : Nat :=
  (((a.xEnd - a.xStart) * (a.yEnd - a.yStart) * 16).sdiv 8).toNat

/-- `none` when the assertion fails. -/
def panelSt7789DrawBitmap (a : Area) (colorData : Nat) : Option (List PanelOp) :=
  if a.Proper then
    some
      [ .txParam lcdCmdCaset (addressParam a.xStart a.xEnd),
        .txParam lcdCmdRaset (addressParam a.yStart a.yEnd),
        .txColor lcdCmdRamwr colorData (drawLength a) ]
  else none

/-- What a drawing function does in turn: take a buffer and fill it, draw from
an address, give the buffer back. -/
inductive Instr where
  | own (p : Nat) (bytes : List Byte)
  | draw (a : Area) (p : Nat)
  | release (p size : Nat)
  deriving DecidableEq, Repr

/-- External RAM, where the heap calls of the drawing functions allocate. -/
def spiramLow : Nat := 0x3c000000
def spiramHigh : Nat := 0x3e000000

/-- Where one call finds memory: the heap's answer to a request for external
RAM, and the address of its argument in the stack frame. -/
structure Placement where
  heap : BitVec 32 → Option Nat
  frame : Nat
  spiram : ∀ size p, heap size = some p → spiramLow ≤ p ∧ p + size.toNat ≤ spiramHigh

/-- A call that needs nothing from the heap. -/
def Placement.onStack (frame : Nat) : Placement := ⟨fun _ => none, frame, fun _ _ h => nomatch h⟩

def pixelsByteSize (a : Area) : BitVec 32 := (a.xEnd - a.xStart) * (a.yEnd - a.yStart) * 2

def lcdDrawPictrue (m : Placement) (a : Area) (gImage : Nat → Byte) : List Instr :=
  match m.heap (pixelsByteSize a) with
  | none => []
  | some pixels =>
    [ .own pixels (load gImage 0 (pixelsByteSize a).toNat),
      .draw a pixels,
      .release pixels (pixelsByteSize a).toNat ]

def rowByteSize : BitVec 32 := BitVec.ofNat 32 (bspLcdHRes * 2)

def rowBytes (color : BitVec 16) : List Byte :=
  (List.replicate bspLcdHRes color).flatMap (littleEndian 2)

def rowArea (y : Nat) : Area := ⟨0, BitVec.ofNat 32 y, 320, BitVec.ofNat 32 y + 1⟩

def lcdSetColor (m : Placement) (color : BitVec 16) : List Instr :=
  match m.heap rowByteSize with
  | none => []
  | some buffer =>
    .own buffer (rowBytes color) :: (List.range bspLcdVRes).map (fun y => .draw (rowArea y) buffer) ++
      [.release buffer rowByteSize.toNat]

def lcdDrawPoint (m : Placement) (x y : CInt) (color : BitVec 16) : List Instr :=
  [ .own m.frame (littleEndian 2 color),
    .draw ⟨x, y, x + 1, y + 1⟩ m.frame,
    .release m.frame 2 ]

inductive Call where
  | setColor (color : BitVec 16)
  | drawPoint (x y : CInt) (color : BitVec 16)
  | drawPictrue (a : Area) (gImage : Nat → Byte)

def Call.program (m : Placement) : Call → List Instr
  | .setColor color => lcdSetColor m color
  | .drawPoint x y color => lcdDrawPoint m x y color
  | .drawPictrue a gImage => lcdDrawPictrue m a gImage

/-- The picture buffer has exactly the size that the driver will read, as long
as it is small enough to exist. -/
theorem drawLength_eq {a : Area} (small : (pixelsByteSize a).toNat < 0x10000000) :
    drawLength a = (pixelsByteSize a).toNat := by
  rw [drawLength, pixelsByteSize] at *
  generalize (a.xEnd - a.xStart) * (a.yEnd - a.yStart) = m at *
  have size : (m * 2).toNat = m.toNat * 2 % 0x100000000 := BitVec.toNat_mul m 2
  have bits : (m * 16).toNat = m.toNat * 16 % 0x100000000 := BitVec.toNat_mul m 16
  have eight : (8 : BitVec 32).toNat = 8 := rfl
  have positive : (m * 16).msb = false := by
    rw [BitVec.msb_eq_false_iff_two_mul_lt, bits]
    omega
  have noSign : (8 : BitVec 32).msb = false := by decide
  rw [BitVec.sdiv_eq, positive, noSign]
  simp only [BitVec.udiv_eq, BitVec.toNat_udiv, eight]
  omega

theorem add_one_sub (x : CInt) : x + 1 - x = 1 := by
  rw [BitVec.add_comm, BitVec.add_sub_cancel]

theorem drawLength_point (x y : CInt) : drawLength ⟨x, y, x + 1, y + 1⟩ = 2 := by
  have size : pixelsByteSize ⟨x, y, x + 1, y + 1⟩ = 2 := by
    rw [pixelsByteSize, add_one_sub, add_one_sub]
    rfl
  rw [drawLength_eq (by rw [size]; decide), size]
  rfl

theorem drawLength_rowArea (y : Nat) : drawLength (rowArea y) = rowByteSize.toNat := by
  have size : pixelsByteSize (rowArea y) = rowByteSize := by
    rw [pixelsByteSize, rowArea, add_one_sub]
    change ((320 : CInt) - 0) * 1 * 2 = rowByteSize
    decide
  rw [drawLength_eq (by rw [size]; decide), size]

@[simp] theorem length_rowBytes (color : BitVec 16) : (rowBytes color).length = rowByteSize.toNat := by
  rw [rowBytes, List.length_flatMap, List.map_replicate, List.sum_replicate_nat,
    length_littleEndian]
  rfl

end CameraBoard.Lcd
