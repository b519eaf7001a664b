import CameraBoard.LcdDraw
import CameraBoard.General.Raster

/-! The panel at the other end of the bus: two bytes a pixel, the most
significant first, filling the addressed window row by row. -/
namespace CameraBoard.Lcd
open Bytes Memory Raster

abbrev Frame := Picture (BitVec 16)

/-- The addressed columns and rows, the number of pixels since the last memory
write command, and the memory. -/
structure Panel where
  cols : BitVec 16 × BitVec 16
  rows : BitVec 16 × BitVec 16
  written : Nat
  mem : Frame

def address : List Byte → Option (BitVec 16 × BitVec 16)
  | [startHigh, startLow, stopHigh, stopLow] => some (startHigh ++ startLow, stopHigh ++ stopLow)
  | _ => none

def Panel.window (panel : Panel) : Window where
  x0 := panel.cols.1.toNat
  y0 := panel.rows.1.toNat
  w := panel.cols.2.toNat + 1 - panel.cols.1.toNat
  h := panel.rows.2.toNat + 1 - panel.rows.1.toNat

def Panel.command (panel : Panel) (cmd : Byte) (param : List Byte) : Panel :=
  if cmd = lcdCmdCaset then { panel with cols := (address param).getD panel.cols }
  else if cmd = lcdCmdRaset then { panel with rows := (address param).getD panel.rows }
  else if cmd = lcdCmdRamwr then { panel with written := 0 }
  else panel

/-- Pairs of bytes as pixels. -/
def pixels : List Byte → List (BitVec 16)
  | [] => []
  | [_] => []
  | high :: low :: bytes => (high ++ low) :: pixels bytes

def Panel.data (panel : Panel) (bytes : List Byte) : Panel :=
  { panel with
    written := panel.written + (pixels bytes).length
    mem := fill panel.window panel.written (pixels bytes) panel.mem }

/-- The longest transfer of the bus: `SPI_LL_DMA_MAX_BIT_LEN` in bytes. -/
def spiTransMaxBytes : Nat := 32768

/-- One operation of the panel IO, the color data sent from memory in spans. -/
def Panel.exec (mem : Nat → Byte) (panel : Panel) : PanelOp → Panel
  | .txParam cmd param => panel.command cmd param
  | .txColor cmd color size =>
    (spans spiTransMaxBytes 0 size).foldl (fun panel s => panel.data (load mem (color + s.1) s.2))
      (panel.command cmd [])

theorem pixels_append {bytes : List Byte} (even : 2 ∣ bytes.length) (more : List Byte) :
    pixels (bytes ++ more) = pixels bytes ++ pixels more := by
  fun_induction pixels bytes with
  | case1 => rfl
  | case2 b => exact absurd (Nat.dvd_one.1 even) (by decide)
  | case3 high low bytes ih =>
    have even : 2 ∣ bytes.length := by
      simp only [List.length_cons] at even
      omega
    rw [List.cons_append, List.cons_append, pixels, ih even, List.cons_append]

theorem length_pixels (bytes : List Byte) : (pixels bytes).length = bytes.length / 2 := by
  fun_induction pixels bytes with
  | case1 => rfl
  | case2 b => simp
  | case3 high low bytes ih =>
    simp only [List.length_cons, ih]
    omega

theorem data_append (panel : Panel) {bytes : List Byte} (even : 2 ∣ bytes.length)
    (more : List Byte) : (panel.data bytes).data more = panel.data (bytes ++ more) := by
  simp only [Panel.data, pixels_append even, List.length_append, fill_append, Panel.window,
    Nat.add_assoc]

theorem data_spans {cap : Nat} (even : 2 ∣ cap) (mem : Nat → Byte) (p start n : Nat)
    (panel : Panel) :
    (spans cap start n).foldl (fun panel s => panel.data (load mem (p + s.1) s.2)) panel =
      panel.data (load mem (p + start) n) := by
  fun_induction spans cap start n generalizing panel with
  | case1 start n more ih =>
    obtain ⟨-, long⟩ := more
    rw [List.foldl_cons, ih, data_append _ (by rwa [length_load]), ← Nat.add_assoc, ← load_add,
      Nat.add_sub_cancel' (Nat.le_of_lt long)]
  | case2 start n last => rfl

theorem byteAt_append (x : CInt) : byteAt x 8 ++ byteAt x 0 = x.setWidth 16 := by
  refine BitVec.eq_of_getLsbD_eq fun i hi => (BitVec.getLsbD_append).trans ?_
  by_cases low : i < 8
  · simp [byteAt, low, hi]
  · have high : i - 8 < 8 := by omega
    have inside : ¬32 ≤ i - 8 := by omega
    have back : 8 + (i - 8) = i := by omega
    have sign : i < 32 := by omega
    simp [byteAt, low, hi, high, inside, back, sign, BitVec.getLsbD_sshiftRight]

theorem address_addressParam (start stop : CInt) :
    address (addressParam start stop) = some (start.setWidth 16, (stop - 1).setWidth 16) := by
  rw [← byteAt_append, ← byteAt_append]
  rfl

/-- The window that the parameters of a draw address. -/
def Area.window (a : Area) : Window where
  x0 := (a.xStart.setWidth 16).toNat
  y0 := (a.yStart.setWidth 16).toNat
  w := ((a.xEnd - 1).setWidth 16).toNat + 1 - (a.xStart.setWidth 16).toNat
  h := ((a.yEnd - 1).setWidth 16).toNat + 1 - (a.yStart.setWidth 16).toNat

theorem command_caset (panel : Panel) (start stop : CInt) :
    panel.command lcdCmdCaset (addressParam start stop) =
      { panel with cols := (start.setWidth 16, (stop - 1).setWidth 16) } := by
  rw [Panel.command, if_pos rfl, address_addressParam]
  rfl

theorem command_raset (panel : Panel) (start stop : CInt) :
    panel.command lcdCmdRaset (addressParam start stop) =
      { panel with rows := (start.setWidth 16, (stop - 1).setWidth 16) } := by
  rw [Panel.command, if_neg (by decide), if_pos rfl, address_addressParam]
  rfl

theorem command_ramwr (panel : Panel) (param : List Byte) :
    panel.command lcdCmdRamwr param = { panel with written := 0 } := by
  rw [Panel.command, if_neg (by decide), if_neg (by decide), if_pos rfl]

theorem exec_drawBitmap {a : Area} {p : Nat} {ops : List PanelOp}
    (proper : panelSt7789DrawBitmap a p = some ops) (mem : Nat → Byte) (panel : Panel) :
    (ops.foldl (Panel.exec mem) panel).mem =
      fill a.window 0 (pixels (load mem p (drawLength a))) panel.mem := by
  rw [panelSt7789DrawBitmap] at proper
  split_ifs at proper
  rw [← Option.some.inj proper]
  simp only [List.foldl_cons, List.foldl_nil, Panel.exec, command_caset, command_raset,
    command_ramwr]
  rw [data_spans (by decide)]
  rfl

structure Area.InRange (a : Area) : Prop where
  cols : a.xStart.toNat < a.xEnd.toNat ∧ a.xEnd.toNat ≤ bspLcdHRes
  rows : a.yStart.toNat < a.yEnd.toNat ∧ a.yEnd.toNat ≤ bspLcdVRes

theorem slt_of_toNat {start stop : CInt} (h : start.toNat < stop.toNat) (small : stop.toNat ≤ 320) :
    start.slt stop = true := by
  have one : start.msb = false := by
    rw [BitVec.msb_eq_false_iff_two_mul_lt]
    omega
  have two : stop.msb = false := by
    rw [BitVec.msb_eq_false_iff_two_mul_lt]
    omega
  rw [BitVec.slt_eq_ult_of_msb_eq (one.trans two.symm)]
  simpa [BitVec.ult] using h

theorem toNat_last {start stop : CInt} (h : start.toNat < stop.toNat) (small : stop.toNat ≤ 320) :
    ((stop - 1).setWidth 16).toNat = stop.toNat - 1 := by
  have one : (1 : CInt).toNat = 1 := rfl
  rw [BitVec.toNat_setWidth, BitVec.toNat_sub, one]
  omega

theorem toNat_extent {start stop : CInt} (h : start.toNat < stop.toNat) :
    (stop - start).toNat = stop.toNat - start.toNat := by
  rw [BitVec.toNat_sub]
  omega

/-- Inside the memory of the panel whichever way around it is addressed. -/
structure Area.Fits (a : Area) : Prop where
  cols : a.xStart.toNat < a.xEnd.toNat ∧ a.xEnd.toNat ≤ 320
  rows : a.yStart.toNat < a.yEnd.toNat ∧ a.yEnd.toNat ≤ 320

namespace Area.Fits

variable {a : Area} (h : a.Fits)
include h

theorem proper : a.Proper :=
  ⟨slt_of_toNat h.cols.1 h.cols.2, slt_of_toNat h.rows.1 h.rows.2⟩

theorem window_eq : a.window = ⟨a.xStart.toNat, a.yStart.toNat, a.xEnd.toNat - a.xStart.toNat,
    a.yEnd.toNat - a.yStart.toNat⟩ := by
  obtain ⟨wide, right⟩ := h.cols
  obtain ⟨high, bottom⟩ := h.rows
  rw [Area.window, toNat_last wide right, toNat_last high bottom, BitVec.toNat_setWidth,
    BitVec.toNat_setWidth, Nat.mod_eq_of_lt (by omega), Nat.mod_eq_of_lt (by omega)]
  congr 1 <;> omega

theorem toNat_pixelsByteSize : (pixelsByteSize a).toNat = a.window.w * a.window.h * 2 := by
  obtain ⟨wide, right⟩ := h.cols
  obtain ⟨high, bottom⟩ := h.rows
  have area : (a.xEnd.toNat - a.xStart.toNat) * (a.yEnd.toNat - a.yStart.toNat) ≤ 320 * 320 :=
    Nat.mul_le_mul (by omega) (by omega)
  have two : (2 : CInt).toNat = 2 := rfl
  rw [h.window_eq, pixelsByteSize, BitVec.toNat_mul, BitVec.toNat_mul, toNat_extent wide,
    toNat_extent high, two]
  simp only
  omega

theorem drawLength_eq : drawLength a = a.window.w * a.window.h * 2 := by
  obtain ⟨-, right⟩ := h.cols
  obtain ⟨-, bottom⟩ := h.rows
  have area : a.window.w * a.window.h ≤ 320 * 320 := by
    rw [h.window_eq]
    exact Nat.mul_le_mul (by simp only; omega) (by simp only; omega)
  rw [Lcd.drawLength_eq (by rw [h.toNat_pixelsByteSize]; omega), h.toNat_pixelsByteSize]

theorem has_window (x y : Nat) : a.window.Has x y ↔
    a.xStart.toNat ≤ x ∧ x < a.xEnd.toNat ∧ a.yStart.toNat ≤ y ∧ y < a.yEnd.toNat := by
  have wide := h.cols.1
  have high := h.rows.1
  rw [h.window_eq, Window.Has]
  simp only
  omega

end Area.Fits

namespace Area.InRange

variable {a : Area} (h : a.InRange)
include h

theorem fits : a.Fits := by
  obtain ⟨high, bottom⟩ := h.rows
  exact ⟨h.cols, high, Nat.le_trans bottom (by decide)⟩

theorem proper : a.Proper := h.fits.proper

theorem window_eq : a.window = ⟨a.xStart.toNat, a.yStart.toNat, a.xEnd.toNat - a.xStart.toNat,
    a.yEnd.toNat - a.yStart.toNat⟩ := h.fits.window_eq

theorem toNat_pixelsByteSize : (pixelsByteSize a).toNat = a.window.w * a.window.h * 2 :=
  h.fits.toNat_pixelsByteSize

theorem drawLength_eq : drawLength a = a.window.w * a.window.h * 2 := h.fits.drawLength_eq

theorem has_window (x y : Nat) : a.window.Has x y ↔
    a.xStart.toNat ≤ x ∧ x < a.xEnd.toNat ∧ a.yStart.toNat ≤ y ∧ y < a.yEnd.toNat :=
  h.fits.has_window x y

end Area.InRange

theorem toNat_rowArea {y : Nat} (hy : y < bspLcdVRes) :
    (rowArea y).yStart.toNat = y ∧ (rowArea y).yEnd.toNat = y + 1 := by
  have low : y < 240 := hy
  have one : (1 : CInt).toNat = 1 := rfl
  simp only [rowArea, BitVec.toNat_add, BitVec.toNat_ofNat, one]
  omega

theorem inRange_rowArea {y : Nat} (hy : y < bspLcdVRes) : (rowArea y).InRange := by
  obtain ⟨start, stop⟩ := toNat_rowArea hy
  refine ⟨⟨Nat.zero_lt_of_lt (show 0 < 320 by decide), Nat.le_refl 320⟩, ?_, ?_⟩
  · rw [start, stop]
    exact Nat.lt_succ_self y
  · rw [stop]
    exact hy

section PictureBuffer

/-- `lcd_draw_pictrue` on any heap. -/
def drawPictrueOn (heap : BitVec 32 → Option Nat) (a : Area) (gImage : Nat → Byte) : List Instr :=
  match heap (pixelsByteSize a) with
  | none => []
  | some pixels =>
    [ .own pixels (load gImage 0 (pixelsByteSize a).toNat),
      .draw a pixels,
      .release pixels (pixelsByteSize a).toNat ]

theorem lcdDrawPictrue_eq (m : Placement) (a : Area) (gImage : Nat → Byte) :
    lcdDrawPictrue m a gImage = drawPictrueOn m.heap a gImage := rfl

/-- What is allocated and filled is what the panel driver asks to be sent from
there: one transfer of just these bytes, whose spans make them up in order. -/
theorem drawPictrueOn_sent (heap : BitVec 32 → Option Nat)
    (small : ∀ size p, heap size = some p → size.toNat < 0x10000000) {a : Area}
    (proper : a.Proper) (gImage : Nat → Byte) {p : Nat}
    (served : heap (pixelsByteSize a) = some p) :
    ∃ bytes, drawPictrueOn heap a gImage =
        [.own p bytes, .draw a p, .release p (pixelsByteSize a).toNat] ∧
      bytes = load gImage 0 (pixelsByteSize a).toNat ∧
      bytes.length = (pixelsByteSize a).toNat ∧
      panelSt7789DrawBitmap a p = some
        [ .txParam lcdCmdCaset (addressParam a.xStart a.xEnd),
          .txParam lcdCmdRaset (addressParam a.yStart a.yEnd),
          .txColor lcdCmdRamwr p bytes.length ] ∧
      (spans spiTransMaxBytes 0 bytes.length).flatMap (fun s => List.range' s.1 s.2) =
        List.range bytes.length ∧
      ∀ s ∈ spans spiTransMaxBytes 0 bytes.length, s.1 + s.2 ≤ bytes.length := by
  have same : drawLength a = (pixelsByteSize a).toNat := drawLength_eq (small _ _ served)
  refine ⟨_, by rw [drawPictrueOn, served], rfl, length_load _ _ _, ?_, ?_, ?_⟩
  · rw [panelSt7789DrawBitmap, if_pos proper, length_load, same]
  · rw [flatMap_spans, List.range_eq_range']
  · intro s inside
    simpa using (mem_spans _ _ _ inside).2

/-- A full screen on a heap that serves whatever is small enough. -/
theorem drawPictrueOn_sent_screen : ∃ bytes : List Byte, bytes.length = 153600 ∧
    panelSt7789DrawBitmap ⟨0, 0, 320, 240⟩ spiramLow = some
      [ .txParam lcdCmdCaset [0, 0, 1, 0x3f], .txParam lcdCmdRaset [0, 0, 0, 0xef],
        .txColor lcdCmdRamwr spiramLow bytes.length ] ∧
    (spans spiTransMaxBytes 0 bytes.length).flatMap (fun s => List.range' s.1 s.2) =
      List.range bytes.length := by
  let heap (size : BitVec 32) : Option Nat :=
    if size.toNat < 0x10000000 then some spiramLow else none
  have small (size : BitVec 32) (p : Nat) (served : heap size = some p) :
      size.toNat < 0x10000000 := by
    by_contra big
    simp [heap, big] at served
  have size : (pixelsByteSize ⟨0, 0, 320, 240⟩).toNat = 153600 := by decide
  obtain ⟨bytes, -, -, length, drawn, covered, -⟩ :=
    drawPictrueOn_sent heap small (a := ⟨0, 0, 320, 240⟩) (by decide) (fun _ => 0) rfl
  exact ⟨bytes, length.trans size, drawn, covered⟩

end PictureBuffer

end CameraBoard.Lcd
