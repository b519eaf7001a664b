import CameraBoard.LcdTouch

/-! The touch driver that LVGL asks, and how far it agrees with the cross drawn
by `LCD_Touch`. -/
namespace CameraBoard.Lcd

structure TouchConfig where
  xMax : BitVec 16
  yMax : BitVec 16
  swapXy : Bool
  mirrorX : Bool
  mirrorY : Bool

/-- The configuration of `bsp_touch_new`. -/
def bspTouchConfig : TouchConfig where
  xMax := BitVec.ofNat 16 bspLcdVRes
  yMax := BitVec.ofNat 16 bspLcdHRes
  swapXy := true
  mirrorX := true
  mirrorY := false

/-- What the driver has read; no points are left once they were fetched. -/
structure TouchData where
  points : Byte
  coords : Nat → Point

def ft5x06TouchPoints : Nat := 0x02
def ft5x06Touch1Xh : Nat := 0x03
def espLcdTouchMaxPoints : Byte := 5

/-- `(((uint16_t)high & 0x0f) << 8) + low`. -/
def ft5x06Coord (high low : Byte) : BitVec 16 :=
  (high.setWidth 16 &&& 0x0f) <<< 8 + low.setWidth 16

def espLcdTouchFt5x06ReadData (regs : Nat → Byte) (bus : TouchBus) (tp : TouchData) :
    EspErr × TouchData :=
  if bus.status.err ≠ espOk then (bus.status.err, tp)
  else
    let points := bus.status.data regs ft5x06TouchPoints 0
    if points > 5 ∨ points = 0 then (espOk, tp)
    else
      let points := if points > espLcdTouchMaxPoints then espLcdTouchMaxPoints else points
      if bus.coords.err ≠ espOk then (bus.coords.err, tp)
      else
        let data := bus.coords.data regs ft5x06Touch1Xh
        (espOk,
          { points := points
            coords := fun i =>
              if i < points.toNat then
                ⟨ft5x06Coord (data (i * 6)) (data (i * 6 + 1)),
                  ft5x06Coord (data (i * 6 + 2)) (data (i * 6 + 3))⟩
              else tp.coords i })

def espLcdTouchFt5x06GetXy (tp : TouchData) (maxPointNum : Byte) : List Point × TouchData :=
  let pointNum := if tp.points > maxPointNum then maxPointNum else tp.points
  ((List.range pointNum.toNat).map tp.coords, { tp with points := 0 })

/-- The driver sets none of the functions that would let the controller mirror
or exchange the coordinates itself. -/
def TouchConfig.adjust (cfg : TouchConfig) (p : Point) : Point :=
  let p := if cfg.mirrorX then ⟨cfg.xMax - p.x, p.y⟩ else p
  let p := if cfg.mirrorY then ⟨p.x, cfg.yMax - p.y⟩ else p
  if cfg.swapXy then ⟨p.y, p.x⟩ else p

/-- The points fetched; none of them means that the panel is not touched. -/
def espLcdTouchGetCoordinates (cfg : TouchConfig) (tp : TouchData) (maxPointNum : Byte) :
    List Point × TouchData :=
  let (fetched, tp) := espLcdTouchFt5x06GetXy tp maxPointNum
  (fetched.map cfg.adjust, tp)

/-- The return code of the read is dropped. -/
def lvglPortTouchpadRead (cfg : TouchConfig) (regs : Nat → Byte) (bus : TouchBus)
    (tp : TouchData) : Option Point × TouchData :=
  let (fetched, tp) :=
    espLcdTouchGetCoordinates cfg (espLcdTouchFt5x06ReadData regs bus tp).2 1
  (fetched.head?, tp)

theorem ft5x06Coord_eq (high low : Byte) : ft5x06Coord high low = raw high low := by
  apply BitVec.eq_of_toNat_eq
  have bound := low.isLt
  have mask : (0x0f : BitVec 16).toNat = 15 := rfl
  rw [raw_toNat, ft5x06Coord, BitVec.toNat_add, BitVec.toNat_shiftLeft, BitVec.toNat_and, mask,
    BitVec.toNat_setWidth, BitVec.toNat_setWidth, and_nibble, Nat.shiftLeft_eq]
  omega

section Agreement

variable {regs : Nat → Byte} {bus : TouchBus} {tp : TouchData}

theorem lvglPortTouchpadRead_ignored (ok : bus.status.err = espOk) (unread : tp.points = 0)
    (filtered : regs 2 > 5 ∨ regs 2 = 0) :
    (lvglPortTouchpadRead bspTouchConfig regs bus tp).1 = none := by
  have kept : (espLcdTouchFt5x06ReadData regs bus tp).2 = tp := by
    have shown : bus.status.data regs ft5x06TouchPoints 0 = regs 2 := if_pos ok
    simp only [espLcdTouchFt5x06ReadData, ok, shown, if_pos filtered]
    rfl
  simp only [lvglPortTouchpadRead, kept, espLcdTouchGetCoordinates, espLcdTouchFt5x06GetXy, unread]
  rfl

theorem readData_touched (ok : bus.status.err = espOk ∧ bus.coords.err = espOk)
    (counted : regs 2 ≤ 5 ∧ regs 2 ≠ 0) :
    (espLcdTouchFt5x06ReadData regs bus tp).2.points = regs 2 ∧
      (espLcdTouchFt5x06ReadData regs bus tp).2.coords 0 =
        ⟨raw (regs 3) (regs 4), raw (regs 5) (regs 6)⟩ := by
  have shown : bus.status.data regs ft5x06TouchPoints 0 = regs 2 := if_pos ok.1
  have data (i : Nat) : bus.coords.data regs ft5x06Touch1Xh i = regs (3 + i) := if_pos ok.2
  have passed : ¬(regs 2 > 5 ∨ regs 2 = 0) := by bv_omega
  have capped : ¬regs 2 > espLcdTouchMaxPoints := fun more => passed (.inl more)
  have first : 0 < (regs 2).toNat := by bv_omega
  simp only [espLcdTouchFt5x06ReadData, ok, shown, if_neg passed, if_neg capped, ne_eq,
    not_true_eq_false, if_false, data, ft5x06Coord_eq]
  exact ⟨trivial, if_pos first⟩

theorem getXy_one (some_point : tp.points ≠ 0) :
    (espLcdTouchFt5x06GetXy tp 1).1 = [tp.coords 0] := by
  have one : (if tp.points > 1 then 1 else tp.points).toNat = 1 := by
    split <;> bv_omega
  simp only [espLcdTouchFt5x06GetXy, one]
  rfl

theorem lvglPortTouchpadRead_touched (ok : bus.status.err = espOk ∧ bus.coords.err = espOk)
    (counted : regs 2 ≤ 5 ∧ regs 2 ≠ 0) :
    (lvglPortTouchpadRead bspTouchConfig regs bus tp).1 =
      some ⟨raw (regs 5) (regs 6), BitVec.ofNat 16 lcdHeight - raw (regs 3) (regs 4)⟩ := by
  have ⟨points, first⟩ := @readData_touched regs bus tp ok counted
  have fetched := getXy_one (points ▸ counted.2)
  simp only [lvglPortTouchpadRead, espLcdTouchGetCoordinates, fetched, first]
  rfl

/-- Whenever LVGL is told of a touch, a cross is marked at the same point. The
other way round this holds exactly for the status bytes that both filters treat
alike: up to five touches, or none in the low four bits. -/
theorem touchPaths_agree (ok : bus.status.err = espOk ∧ bus.coords.err = espOk)
    (unread : tp.points = 0) :
    (∀ p, (lvglPortTouchpadRead bspTouchConfig regs bus tp).1 = some p →
      lcdTouchPoint regs bus = some p) ∧
    ((lvglPortTouchpadRead bspTouchConfig regs bus tp).1 = lcdTouchPoint regs bus ↔
      regs 2 ≤ 5 ∨ regs 2 &&& 0x0f = 0) := by
  have shown : touchNum regs bus = regs 2 &&& 0x0f := congrArg (· &&& 0x0f) (if_pos ok.1)
  have low : (touchNum regs bus).toNat = (regs 2).toNat % 16 := by
    rw [touchNum_toNat, I2cRead.data, if_pos ok.1]
    rfl
  rw [← shown]
  by_cases filtered : regs 2 > 5 ∨ regs 2 = 0
  · rw [lvglPortTouchpadRead_ignored ok.1 unread filtered]
    refine ⟨by simp, ?_⟩
    by_cases idle : touchNum regs bus = 0
    · simp [lcdTouchPoint, idle]
    · rw [lcdTouchPoint_read regs bus idle ok.2]
      have many : ¬regs 2 ≤ 5 := by bv_omega
      exact iff_of_false (by simp) fun h => h.elim many idle
  · have counted : regs 2 ≤ 5 ∧ regs 2 ≠ 0 := by bv_omega
    have touched : touchNum regs bus ≠ 0 := by bv_omega
    rw [lvglPortTouchpadRead_touched ok counted, lcdTouchPoint_read regs bus touched ok.2]
    exact ⟨fun p marked => marked, iff_of_true rfl (.inl counted.1)⟩

end Agreement

/-- One touch in the middle of the panel, seen by both. -/
theorem touchPaths_agree_middle :
    (lvglPortTouchpadRead bspTouchConfig (fun r => if r = 2 then 1 else 0x40) ⟨succeeds, succeeds⟩
      ⟨0, fun _ => ⟨0, 0⟩⟩).1 =
    lcdTouchPoint (fun r => if r = 2 then 1 else 0x40) ⟨succeeds, succeeds⟩ :=
  (touchPaths_agree ⟨rfl, rfl⟩ rfl).2.2 (.inl (by decide))

/-- Six touches are too many for LVGL and enough for a cross. -/
theorem touchPaths_differ : ¬ ∀ (regs : Nat → Byte) (bus : TouchBus) (tp : TouchData),
    bus.status.err = espOk ∧ bus.coords.err = espOk → tp.points = 0 →
      (lvglPortTouchpadRead bspTouchConfig regs bus tp).1 = lcdTouchPoint regs bus := by
  intro claim
  have same := claim (fun _ => 6) ⟨succeeds, succeeds⟩ ⟨0, fun _ => ⟨0, 0⟩⟩ ⟨rfl, rfl⟩ rfl
  rw [lvglPortTouchpadRead_ignored rfl rfl (.inl (by decide)),
    lcdTouchPoint_read _ _ (by decide) rfl] at same
  cases same

end CameraBoard.Lcd
