import CameraBoard.LcdTasks

/-! The two readers of the touch controller: the one that draws a cross where
the panel is touched, and the driver that LVGL asks. -/
namespace CameraBoard.Lcd
open Tasks

def lcdWidth : Nat := 320
def lcdHeight : Nat := 240

def ft6336RegStatus : Nat := 0x02
def ft6336RegXh : Nat := 0x03

structure Point where
  x : BitVec 16
  y : BitVec 16
  deriving DecidableEq, Repr

/-- The outcomes of the two transactions of `LCD_Touch`. -/
structure TouchBus where
  status : I2cRead
  coords : I2cRead

def raw (high low : Byte) : BitVec 16 := (high &&& 0x0f).setWidth 16 <<< 8 ||| low.setWidth 16

/-- The two coordinates are handed out exchanged. -/
def ft6336ReadTouch (data : Nat → Byte) : Point :=
  let rawX := raw (data 0) (data 1)
  let rawY := raw (data 2) (data 3)
  ⟨rawY, rawX⟩

/-- A coordinate times a factor `num / den`; both factors are one, so that the
product is exact in floating point. -/
def scaled (v : BitVec 16) (num den : Nat) : BitVec 16 := BitVec.ofNat 16 (v.toNat * num / den)

def convertCoordinates (p : Point) : Point :=
  ⟨scaled p.x lcdWidth 320, BitVec.ofNat 16 lcdHeight - scaled p.y lcdHeight 240⟩

def touchNum (regs : Nat → Byte) (bus : TouchBus) : Byte :=
  bus.status.data regs ft6336RegStatus 0 &&& 0x0f

/-- Where a cross is marked. The return codes of both transactions are dropped. -/
def lcdTouchPoint (regs : Nat → Byte) (bus : TouchBus) : Option Point :=
  if touchNum regs bus > 0 then
    some (convertCoordinates (ft6336ReadTouch (bus.coords.data regs ft6336RegXh)))
  else none

def lcdTouchCalls (regs : Nat → Byte) (bus : TouchBus) : List Call :=
  match lcdTouchPoint regs bus with
  | none => []
  | some p => lcdTouch p.x p.y

/-- The rectangles handed to the panel driver. -/
def rectangles (m : Placement) (calls : List Call) : List Area :=
  calls.flatMap fun c => ((c.program m).filterMap bitmap).map Bitmap.area

def pixel (x y : CInt) : Area := ⟨x, y, x + 1, y + 1⟩

/-- The first pixel of the rectangle is one of the panel. -/
structure Area.OnPanel (a : Area) : Prop where
  left : 0 ≤ a.xStart.toInt
  right : a.xStart.toInt < lcdWidth
  top : 0 ≤ a.yStart.toInt
  bottom : a.yStart.toInt < lcdHeight

section Cross

variable (m : Placement) (p : Point)

theorem toInt_arm (v : BitVec 16) {i : Nat} (small : i < 11) :
    (v.setWidth 32 + (BitVec.ofNat 32 i - 5)).toInt = v.toNat + i - 5 := by
  have inside := v.isLt
  have five : (5 : BitVec 32).toNat = 5 := rfl
  rw [BitVec.toInt_eq_toNat_cond]
  simp only [BitVec.toNat_add, BitVec.toNat_sub, BitVec.toNat_setWidth, BitVec.toNat_ofNat, five]
  split <;> omega

theorem toInt_centre (v : BitVec 16) : (v.setWidth 32 : CInt).toInt = v.toNat := by
  have inside := v.isLt
  rw [BitVec.toInt_eq_toNat_cond, BitVec.toNat_setWidth]
  split <;> omega

@[simp] theorem rectangle_drawPoint (x y : CInt) (color : BitVec 16) :
    (((Call.drawPoint x y color).program m).filterMap bitmap).map Bitmap.area = [pixel x y] := rfl

theorem mem_rectangles (a : Area) : a ∈ rectangles m (lcdTouch p.x p.y) ↔
    a = pixel (p.x.setWidth 32) (p.y.setWidth 32) ∨ ∃ i < 11,
      a = pixel (p.x.setWidth 32 + (BitVec.ofNat 32 i - 5)) (p.y.setWidth 32) ∨
      a = pixel (p.x.setWidth 32) (p.y.setWidth 32 + (BitVec.ofNat 32 i - 5)) := by
  simp only [rectangles, lcdTouch, List.flatMap_cons, List.flatMap_assoc, rectangle_drawPoint,
    List.flatMap_nil, List.mem_append, List.mem_flatMap, List.mem_range, List.mem_singleton,
    List.not_mem_nil, or_false]

/-- The arms reach five pixels from the centre in all four directions. -/
theorem rectangles_onPanel : (∀ a ∈ rectangles m (lcdTouch p.x p.y), a.OnPanel) ↔
    (5 ≤ p.x.toNat ∧ p.x.toNat ≤ 314) ∧ 5 ≤ p.y.toNat ∧ p.y.toNat ≤ 234 := by
  constructor
  · intro inside
    have at_arm (i : Nat) (small : i < 11) :=
      inside _ ((mem_rectangles m p _).2 (.inr ⟨i, small, .inl rfl⟩))
    have at_stem (i : Nat) (small : i < 11) :=
      inside _ ((mem_rectangles m p _).2 (.inr ⟨i, small, .inr rfl⟩))
    have left := (at_arm 0 (by decide)).left
    have right := (at_arm 10 (by decide)).right
    have top := (at_stem 0 (by decide)).top
    have bottom := (at_stem 10 (by decide)).bottom
    simp only [pixel, lcdWidth, lcdHeight] at left right top bottom
    rw [toInt_arm _ (by decide)] at left right top bottom
    omega
  · rintro ⟨⟨left, right⟩, top, bottom⟩ a drawn
    obtain rfl | ⟨i, small, rfl | rfl⟩ := (mem_rectangles m p a).1 drawn
    · constructor <;> simp only [pixel, lcdWidth, lcdHeight, toInt_centre] <;> omega
    · constructor <;> simp only [pixel, lcdWidth, lcdHeight, toInt_centre, toInt_arm _ small] <;>
        omega
    · constructor <;> simp only [pixel, lcdWidth, lcdHeight, toInt_centre, toInt_arm _ small] <;>
        omega

theorem rectangles_ne_nil : rectangles m (lcdTouch p.x p.y) ≠ [] :=
  List.ne_nil_of_mem ((mem_rectangles m p _).2 (.inl rfl))

end Cross

section Coordinates

theorem and_nibble (n : Nat) : n &&& 15 = n % 16 := Nat.and_two_pow_sub_one_eq_mod n 4

theorem raw_toNat (high low : Byte) :
    (raw high low).toNat = 256 * (high.toNat % 16) + low.toNat := by
  have bound := low.isLt
  have mask : (0x0f : Byte).toNat = 15 := rfl
  have joined := Nat.two_pow_add_eq_or_of_lt bound (high.toNat % 16)
  have narrow : high.toNat % 16 % 2 ^ 16 = high.toNat % 16 := by omega
  have shifted : 2 ^ 8 * (high.toNat % 16) % 2 ^ 16 = 2 ^ 8 * (high.toNat % 16) := by omega
  have wide : low.toNat % 2 ^ 16 = low.toNat := by omega
  rw [raw, BitVec.toNat_or, BitVec.toNat_shiftLeft, BitVec.toNat_setWidth, BitVec.toNat_setWidth,
    BitVec.toNat_and, mask, and_nibble, Nat.shiftLeft_eq, Nat.mul_comm, narrow, shifted, wide, ← joined]

theorem scaled_one (v : BitVec 16) {den : Nat} (pos : 0 < den) : scaled v den den = v := by
  rw [scaled, Nat.mul_div_cancel _ pos, BitVec.ofNat_toNat, BitVec.setWidth_eq]

theorem convertCoordinates_eq (p : Point) :
    convertCoordinates p = ⟨p.x, BitVec.ofNat 16 lcdHeight - p.y⟩ := by
  simp only [convertCoordinates]
  rw [lcdWidth, lcdHeight, scaled_one p.x (by decide), scaled_one p.y (by decide)]

/-- The row is mirrored in sixteen bits: rows 0 to 5 land below the last row or
too close to it, and large ones wrap. -/
theorem mirrored_toNat {v : BitVec 16} (small : v.toNat < 4096) :
    5 ≤ (BitVec.ofNat 16 lcdHeight - v).toNat ∧ (BitVec.ofNat 16 lcdHeight - v).toNat ≤ 234 ↔
      6 ≤ v.toNat ∧ v.toNat ≤ 235 := by
  rw [BitVec.toNat_sub, BitVec.toNat_ofNat, lcdHeight]
  omega

end Coordinates

section LcdTouch

variable (m : Placement) (regs : Nat → Byte) (bus : TouchBus)

/-- The first touch point as the registers have it. -/
def rawX : Nat := (raw (regs 3) (regs 4)).toNat
def rawY : Nat := (raw (regs 5) (regs 6)).toNat

theorem touchNum_toNat :
    (touchNum regs bus).toNat = (bus.status.data regs ft6336RegStatus 0).toNat % 16 := by
  rw [touchNum, BitVec.toNat_and]
  exact and_nibble _

theorem lcdTouchCalls_idle (idle : touchNum regs bus = 0) : lcdTouchCalls regs bus = [] := by
  simp [lcdTouchCalls, lcdTouchPoint, idle]

theorem lcdTouchPoint_touched (touched : touchNum regs bus ≠ 0) :
    lcdTouchPoint regs bus =
      some (convertCoordinates (ft6336ReadTouch (bus.coords.data regs ft6336RegXh))) := by
  have more : touchNum regs bus > 0 := by bv_omega
  rw [lcdTouchPoint, if_pos more]

theorem lcdTouchPoint_read (touched : touchNum regs bus ≠ 0) (ok : bus.coords.err = espOk) :
    lcdTouchPoint regs bus =
      some ⟨raw (regs 5) (regs 6), BitVec.ofNat 16 lcdHeight - raw (regs 3) (regs 4)⟩ := by
  rw [lcdTouchPoint_touched regs bus touched, convertCoordinates_eq]
  simp [ft6336ReadTouch, I2cRead.data, ok, ft6336RegXh]

/-- All that is drawn lies on the panel, and nothing is drawn after a failed
transaction, exactly when no touch is counted or both transactions succeed and
the point is at least five pixels inside the border. -/
theorem lcdTouch_onPanel_iff :
    ((∀ a ∈ rectangles m (lcdTouchCalls regs bus), a.OnPanel) ∧
      (¬(bus.status.err = espOk ∧ bus.coords.err = espOk) →
        rectangles m (lcdTouchCalls regs bus) = [])) ↔
      touchNum regs bus = 0 ∨
        (bus.status.err = espOk ∧ bus.coords.err = espOk) ∧
          (5 ≤ rawY regs ∧ rawY regs ≤ 314) ∧ 6 ≤ rawX regs ∧ rawX regs ≤ 235 := by
  by_cases idle : touchNum regs bus = 0
  · simp [idle, lcdTouchCalls_idle regs bus idle, rectangles]
  · obtain ⟨p, marked⟩ : ∃ p, lcdTouchPoint regs bus = some p :=
      ⟨_, lcdTouchPoint_touched regs bus idle⟩
    have drawn : lcdTouchCalls regs bus = lcdTouch p.x p.y := by rw [lcdTouchCalls, marked]
    rw [drawn, rectangles_onPanel, or_iff_right idle]
    by_cases both : bus.status.err = espOk ∧ bus.coords.err = espOk
    · rw [lcdTouchPoint_read regs bus idle both.2, Option.some.injEq] at marked
      have column : (raw (regs 3) (regs 4)).toNat < 4096 := by
        rw [raw_toNat]
        omega
      rw [← marked, mirrored_toNat column]
      simp [both, rawX, rawY]
    · simp [both, rectangles_ne_nil]

end LcdTouch

def succeeds : I2cRead := ⟨espOk, fun _ => 0⟩

/-- A finger at the first column and row of the controller. Its row is mirrored
to 240, one below the last row of the panel. -/
theorem lcdTouch_border : ¬ ∀ (m : Placement) (regs : Nat → Byte) (bus : TouchBus),
    (∀ a ∈ rectangles m (lcdTouchCalls regs bus), a.OnPanel) ∧
      (¬(bus.status.err = espOk ∧ bus.coords.err = espOk) →
        rectangles m (lcdTouchCalls regs bus) = []) := by
  intro claim
  let regs (r : Nat) : Byte := if r = ft6336RegStatus then 1 else 0
  have kept := (lcdTouch_onPanel_iff (.onStack 0) regs ⟨succeeds, succeeds⟩).1 (claim _ _ _)
  exact absurd kept (by decide)

end CameraBoard.Lcd
