import CameraBoard.LvglInvalidAreas

/-! How the panel is turned. The driver keeps a copy of the MADCTL register,
and LVGL turns the picture by setting its bits; points of the touch panel are
turned the other way. The panel has no reset line and no gap. -/
namespace CameraBoard.Lcd

def lcdCmdSwreset : Byte := 0x01
def lcdCmdSlpout : Byte := 0x11
def lcdCmdInvoff : Byte := 0x20
def lcdCmdInvon : Byte := 0x21
def lcdCmdDispoff : Byte := 0x28
def lcdCmdDispon : Byte := 0x29
def lcdCmdMadctl : Byte := 0x36
def lcdCmdColmod : Byte := 0x3a
def st7789CmdRamctrl : Byte := 0xb0

def lcdCmdMvBit : Byte := 1 <<< 5
def lcdCmdMxBit : Byte := 1 <<< 6
def lcdCmdMyBit : Byte := 1 <<< 7

/-- An `st7789_panel_t`. -/
structure St7789 where
  madctlVal : Byte
  colmodCal : Byte
  ramctlVal1 : Byte
  ramctlVal2 : Byte
  deriving DecidableEq, Repr

/-- RGB order, 16 bits a pixel, the most significant byte first. -/
def espLcdNewPanelSt7789 : St7789 := ⟨0, 0x55, 0x00, 0xf0⟩

/-- The functions of the panel driver but for drawing. -/
inductive PanelCall where
  | reset
  | init
  | invertColor (invertColorData : Bool)
  | mirror (mirrorX mirrorY : Bool)
  | swapXy (swapAxes : Bool)
  | dispOnOff (onOff : Bool)
  deriving DecidableEq, Repr

def setMadctl (val mask : Byte) (on : Bool) : Byte := if on then val ||| mask else val &&& ~~~mask

def St7789.call (st7789 : St7789) : PanelCall → St7789 × List PanelOp
  | .reset => (st7789, [.txParam lcdCmdSwreset []])
  | .init =>
    (st7789,
      [ .txParam lcdCmdSlpout [],
        .txParam lcdCmdMadctl [st7789.madctlVal],
        .txParam lcdCmdColmod [st7789.colmodCal],
        .txParam st7789CmdRamctrl [st7789.ramctlVal1, st7789.ramctlVal2] ])
  | .invertColor invertColorData =>
    (st7789, [.txParam (if invertColorData then lcdCmdInvon else lcdCmdInvoff) []])
  | .mirror mirrorX mirrorY =>
    let madctlVal :=
      setMadctl (setMadctl st7789.madctlVal lcdCmdMxBit mirrorX) lcdCmdMyBit mirrorY
    ({ st7789 with madctlVal }, [.txParam lcdCmdMadctl [madctlVal]])
  | .swapXy swapAxes =>
    let madctlVal := setMadctl st7789.madctlVal lcdCmdMvBit swapAxes
    ({ st7789 with madctlVal }, [.txParam lcdCmdMadctl [madctlVal]])
  | .dispOnOff onOff => (st7789, [.txParam (if onOff then lcdCmdDispon else lcdCmdDispoff) []])

/-- The registers of the panel that these commands set. -/
structure PanelRegs where
  madctl : Byte
  colmod : Byte
  ramctrl : List Byte
  asleep : Bool
  inverted : Bool
  on : Bool

/-- After a reset the panel sleeps and shows nothing. -/
def PanelRegs.default : PanelRegs := ⟨0, 0x66, [0x00, 0xf0], true, false, false⟩

def PanelRegs.exec (regs : PanelRegs) : PanelOp → PanelRegs
  | .txParam cmd param =>
    if cmd = lcdCmdSwreset then .default
    else if cmd = lcdCmdSlpout then { regs with asleep := false }
    else if cmd = lcdCmdInvoff then { regs with inverted := false }
    else if cmd = lcdCmdInvon then { regs with inverted := true }
    else if cmd = lcdCmdDispoff then { regs with on := false }
    else if cmd = lcdCmdDispon then { regs with on := true }
    else if cmd = lcdCmdMadctl then { regs with madctl := param.headD regs.madctl }
    else if cmd = lcdCmdColmod then { regs with colmod := param.headD regs.colmod }
    else if cmd = st7789CmdRamctrl then { regs with ramctrl := param }
    else regs
  | .txColor _ _ _ => regs

/-- The driver and the panel it drives. -/
structure PanelPair where
  driver : St7789
  regs : PanelRegs

def PanelPair.step (p : PanelPair) (c : PanelCall) : PanelPair where
  driver := (p.driver.call c).1
  regs := (p.driver.call c).2.foldl PanelRegs.exec p.regs

abbrev PanelPair.run (p : PanelPair) (calls : List PanelCall) : PanelPair :=
  StepRun.run PanelPair.step p calls

/-- The calls of `bsp_display_new`. -/
def bspDisplayNew : List PanelCall :=
  [.reset, .init, .invertColor true, .swapXy true, .mirror true false]

/-- The way the panel is turned: the bits of a display configuration. -/
structure Rotation where
  swapXy : Bool
  mirrorX : Bool
  mirrorY : Bool
  deriving DecidableEq, Repr

def bspRotation : Rotation := ⟨true, true, false⟩

def madctlRotation (madctl : Byte) : Rotation := ⟨madctl.getLsbD 5, madctl.getLsbD 6, madctl.getLsbD 7⟩

/-- Where an address falls in the 240 columns and 320 rows of the panel: the two
are exchanged first, then each is counted from its other end. -/
def Rotation.cell (r : Rotation) (p : Int × Int) : Int × Int :=
  let q := if r.swapXy then p.swap else p
  (if r.mirrorX then 239 - q.1 else q.1, if r.mirrorY then 319 - q.2 else q.2)

end CameraBoard.Lcd

namespace CameraBoard.Lvgl
open Lcd

/-- The calls of `lvgl_port_update_callback`. -/
def lvglPortUpdateCallback (rotation : Rotation) (rotated : DispRot) : List PanelCall :=
  match rotated with
  | .none => [.swapXy rotation.swapXy, .mirror rotation.mirrorX rotation.mirrorY]
  | .rot90 =>
    [ .swapXy !rotation.swapXy,
      if rotation.swapXy then .mirror (!rotation.mirrorX) rotation.mirrorY
      else .mirror rotation.mirrorX (!rotation.mirrorY) ]
  | .rot180 => [.swapXy rotation.swapXy, .mirror (!rotation.mirrorX) (!rotation.mirrorY)]
  | .rot270 =>
    [ .swapXy !rotation.swapXy,
      if rotation.swapXy then .mirror rotation.mirrorX (!rotation.mirrorY)
      else .mirror (!rotation.mirrorX) rotation.mirrorY ]

/-- The head of `indev_pointer_proc`. -/
def indevPointerProc (drv : DispDrv) (point : Int × Int) : Int × Int :=
  let p :=
    if drv.rotated = .rot180 ∨ drv.rotated = .rot270 then
      (drv.horRes - point.1 - 1, drv.verRes - point.2 - 1)
    else point
  if drv.rotated = .rot90 ∨ drv.rotated = .rot270 then (drv.verRes - p.2 - 1, p.1) else p

/-- The point of the display as it is without rotation that a point of the
rotated display lies on. -/
def unrotate (drv : DispDrv) (p : Int × Int) : Int × Int :=
  match drv.rotated with
  | .none => p
  | .rot90 => (p.2, drv.verRes - 1 - p.1)
  | .rot180 => (drv.horRes - 1 - p.1, drv.verRes - 1 - p.2)
  | .rot270 => (drv.horRes - 1 - p.2, p.1)

/-- The resolution of the driver is that of the panel turned this way. -/
def Matches (rotation : Rotation) (drv : DispDrv) : Prop :=
  if rotation.swapXy then drv.horRes = 320 ∧ drv.verRes = 240
  else drv.horRes = 240 ∧ drv.verRes = 320

end CameraBoard.Lvgl

namespace CameraBoard.Lcd
open Lvgl

section Bits

theorem getLsbD_setMadctl (val : Byte) (on : Bool) {k : Nat} (hk : k < 8) (i : Nat) :
    (setMadctl val (BitVec.twoPow 8 k) on).getLsbD i = if i = k then on else val.getLsbD i := by
  unfold setMadctl
  obtain rfl | hi := eq_or_ne i k
  · cases on <;> simp [hk]
  · have past : ¬ i < 8 → val.getLsbD i = false := fun h => val.getLsbD_of_ge i (by omega)
    by_cases hb : i < 8 <;> cases on <;> simp [hi, hi.symm, hb, past]

theorem madctl_bits : lcdCmdMvBit = BitVec.twoPow 8 5 ∧ lcdCmdMxBit = BitVec.twoPow 8 6 ∧
    lcdCmdMyBit = BitVec.twoPow 8 7 := by decide

/-- Only the top three bits are ever set. -/
theorem low_call (st7789 : St7789) (c : PanelCall) {i : Nat} (low : i < 5) :
    (st7789.call c).1.madctlVal.getLsbD i = st7789.madctlVal.getLsbD i := by
  have bits := madctl_bits
  cases c with
  | mirror x y =>
    simp only [St7789.call, bits, getLsbD_setMadctl _ _ (show 6 < 8 by decide),
      getLsbD_setMadctl _ _ (show 7 < 8 by decide)]
    rw [if_neg (by omega), if_neg (by omega)]
  | swapXy on =>
    simp only [St7789.call, bits, getLsbD_setMadctl _ _ (show 5 < 8 by decide)]
    rw [if_neg (by omega)]
  | _ => rfl

theorem madctlRotation_swapXy (val : Byte) (on : Bool) :
    madctlRotation (setMadctl val lcdCmdMvBit on) = { madctlRotation val with swapXy := on } := by
  simp only [madctlRotation, madctl_bits.1, getLsbD_setMadctl _ _ (show 5 < 8 by decide)]
  rfl

theorem madctlRotation_mirror (val : Byte) (x y : Bool) :
    madctlRotation (setMadctl (setMadctl val lcdCmdMxBit x) lcdCmdMyBit y) =
      ⟨(madctlRotation val).swapXy, x, y⟩ := by
  simp only [madctlRotation, madctl_bits.2, getLsbD_setMadctl _ _ (show 6 < 8 by decide),
    getLsbD_setMadctl _ _ (show 7 < 8 by decide)]
  rfl

end Bits

section Calls

variable {p : PanelPair}

/-- The register holds what the driver has kept of it. -/
def PanelPair.Synced (p : PanelPair) : Prop := p.regs.madctl = p.driver.madctlVal

theorem step_mirror (p : PanelPair) (x y : Bool) :
    (p.step (.mirror x y)).Synced ∧
      madctlRotation (p.step (.mirror x y)).regs.madctl = ⟨(madctlRotation p.driver.madctlVal).swapXy, x, y⟩ :=
  ⟨rfl, madctlRotation_mirror _ x y⟩

theorem step_swapXy (p : PanelPair) (on : Bool) :
    (p.step (.swapXy on)).Synced ∧
      madctlRotation (p.step (.swapXy on)).driver.madctlVal =
        { madctlRotation p.driver.madctlVal with swapXy := on } :=
  ⟨rfl, madctlRotation_swapXy _ on⟩

/-- What leaves the panel turned as it is. -/
def PanelCall.Keeps : PanelCall → Prop
  | .init | .invertColor _ | .dispOnOff _ => True
  | _ => False

theorem Synced.step (h : p.Synced) {c : PanelCall} (keeps : c.Keeps) :
    (p.step c).Synced ∧ (p.step c).regs.madctl = p.regs.madctl := by
  unfold PanelPair.Synced at *
  cases c with
  | init => exact ⟨rfl, h.symm⟩
  | invertColor on => cases on <;> exact ⟨h, rfl⟩
  | dispOnOff on => cases on <;> exact ⟨h, rfl⟩
  | reset | mirror | swapXy => exact keeps.elim

theorem Synced.run (h : p.Synced) {calls : List PanelCall} (keeps : ∀ c ∈ calls, c.Keeps) :
    (p.run calls).Synced ∧ (p.run calls).regs.madctl = p.regs.madctl := by
  have all : StepRun.Along PanelPair.step (fun _ c => c.Keeps) p calls :=
    (StepRun.along_const _ _ _ _).2 keeps
  have keep : ∀ (q : PanelPair) (c : PanelCall), q.Synced ∧ q.regs.madctl = p.regs.madctl →
      c.Keeps → (q.step c).Synced ∧ (q.step c).regs.madctl = p.regs.madctl := by
    rintro q c ⟨synced, same⟩ keeps
    obtain ⟨synced, kept⟩ := Synced.step synced keeps
    exact ⟨synced, kept.trans same⟩
  exact all.invariant keep ⟨h, rfl⟩

end Calls

end CameraBoard.Lcd

namespace CameraBoard.Lvgl
open Lcd

/-- The bits that `lvgl_port_update_callback` sets. -/
def Rotation.turned (r : Rotation) : DispRot → Rotation
  | .none => r
  | .rot90 => ⟨!r.swapXy, r.mirrorX ^^ r.swapXy, r.mirrorY ^^ !r.swapXy⟩
  | .rot180 => ⟨r.swapXy, !r.mirrorX, !r.mirrorY⟩
  | .rot270 => ⟨!r.swapXy, r.mirrorX ^^ !r.swapXy, r.mirrorY ^^ r.swapXy⟩

theorem run_turn (p : PanelPair) (swapAxes mirrorX mirrorY : Bool) :
    (p.run [.swapXy swapAxes, .mirror mirrorX mirrorY]).Synced ∧
      madctlRotation (p.run [.swapXy swapAxes, .mirror mirrorX mirrorY]).regs.madctl =
        ⟨swapAxes, mirrorX, mirrorY⟩ := by
  obtain ⟨synced, bits⟩ := step_mirror (p.step (.swapXy swapAxes)) mirrorX mirrorY
  rw [(step_swapXy p swapAxes).2] at bits
  exact ⟨synced, bits⟩

/-- Whatever was done to the panel before. -/
theorem run_lvglPortUpdateCallback (rotation : Rotation) (rotated : DispRot) (p : PanelPair) :
    (p.run (lvglPortUpdateCallback rotation rotated)).Synced ∧
      madctlRotation (p.run (lvglPortUpdateCallback rotation rotated)).regs.madctl =
        Rotation.turned rotation rotated := by
  obtain ⟨swapXy, mirrorX, mirrorY⟩ := rotation
  cases rotated <;> cases swapXy <;>
    simpa [lvglPortUpdateCallback, Rotation.turned] using run_turn p _ _ _

/-- The rotated display shows each point where the unrotated one shows the
point it lies on. -/
theorem cell_turned {rotation : Rotation} {drv : DispDrv} (fits : Matches rotation drv)
    (p : Int × Int) :
    (Rotation.turned rotation drv.rotated).cell p = rotation.cell (unrotate drv p) := by
  obtain ⟨swapXy, mirrorX, mirrorY⟩ := rotation
  unfold Matches at fits
  unfold unrotate
  cases rotated : drv.rotated <;> cases swapXy <;> cases mirrorX <;> cases mirrorY <;>
    simp_all [Rotation.turned, Rotation.cell]

theorem unrotate_indevPointerProc (drv : DispDrv) (point : Int × Int) :
    unrotate drv (indevPointerProc drv point) = point := by
  unfold unrotate indevPointerProc
  ext <;> cases drv.rotated <;> simp only [reduceCtorEq, or_false, or_true, if_true, if_false] <;>
    omega

theorem indevPointerProc_unrotate (drv : DispDrv) (p : Int × Int) :
    indevPointerProc drv (unrotate drv p) = p := by
  unfold unrotate indevPointerProc
  cases drv.rotated <;> ext <;> simp <;> omega

/-- The points of the rotated display. -/
def DispDrv.screen (drv : DispDrv) : Rect :=
  match drv.rotated with
  | .rot90 | .rot270 => ⟨0, 0, drv.verRes - 1, drv.horRes - 1⟩
  | _ => ⟨0, 0, drv.horRes - 1, drv.verRes - 1⟩

/-- The points without rotation. -/
def DispDrv.plain (drv : DispDrv) : Rect := ⟨0, 0, drv.horRes - 1, drv.verRes - 1⟩

theorem scrArea_eq (disp : Disp) : disp.scrArea = disp.driver.screen := by
  unfold Disp.scrArea lvDispGetHorRes lvDispGetVerRes DispDrv.screen
  cases disp.driver.rotated <;> rfl

def panelCells : Rect := ⟨0, 0, 239, 319⟩

/-- Undoes `Rotation.cell`. -/
def Rotation.uncell (r : Rotation) (c : Int × Int) : Int × Int :=
  let q := (if r.mirrorX then 239 - c.1 else c.1, if r.mirrorY then 319 - c.2 else c.2)
  if r.swapXy then q.swap else q

theorem cell_uncell (r : Rotation) (c : Int × Int) : r.cell (Rotation.uncell r c) = c := by
  obtain ⟨swapXy, mirrorX, mirrorY⟩ := r
  cases swapXy <;> cases mirrorX <;> cases mirrorY <;>
    simp [Rotation.cell, Rotation.uncell]

theorem uncell_cell (r : Rotation) (p : Int × Int) : Rotation.uncell r (r.cell p) = p := by
  obtain ⟨swapXy, mirrorX, mirrorY⟩ := r
  cases swapXy <;> cases mirrorX <;> cases mirrorY <;>
    simp [Rotation.cell, Rotation.uncell]

section Places

variable {rotation : Rotation} {drv : DispDrv}

theorem has_unrotate (drv : DispDrv) (p : Int × Int) :
    drv.plain.Has (unrotate drv p).1 (unrotate drv p).2 ↔ drv.screen.Has p.1 p.2 := by
  unfold DispDrv.plain DispDrv.screen unrotate Rect.Has
  cases drv.rotated <;> simp only <;> omega

theorem has_cell (fits : Matches rotation drv) (p : Int × Int) :
    panelCells.Has (rotation.cell p).1 (rotation.cell p).2 ↔ drv.plain.Has p.1 p.2 := by
  obtain ⟨swapXy, mirrorX, mirrorY⟩ := rotation
  unfold Matches at fits
  cases swapXy <;> cases mirrorX <;> cases mirrorY <;>
    simp_all [Rotation.cell, panelCells, DispDrv.plain, Rect.Has] <;> omega

/-- A cell of the panel shows one point of the rotated display. -/
theorem existsUnique_point (fits : Matches rotation drv) {c : Int × Int}
    (inside : panelCells.Has c.1 c.2) :
    ∃! p : Int × Int, drv.screen.Has p.1 p.2 ∧ rotation.cell (unrotate drv p) = c := by
  have back : rotation.cell (unrotate drv (indevPointerProc drv (Rotation.uncell rotation c))) = c := by
    rw [unrotate_indevPointerProc, cell_uncell]
  refine ⟨indevPointerProc drv (Rotation.uncell rotation c), ⟨?_, back⟩, ?_⟩
  · rw [← has_unrotate, ← has_cell fits, back]
    exact inside
  · rintro q ⟨-, here⟩
    rw [← here, uncell_cell, indevPointerProc_unrotate]

end Places

theorem low_run (p : PanelPair) (calls : List PanelCall) {i : Nat} (low : i < 5) :
    (p.run calls).driver.madctlVal.getLsbD i = p.driver.madctlVal.getLsbD i := by
  have keep : ∀ (q : PanelPair) (c : PanelCall),
      q.driver.madctlVal.getLsbD i = p.driver.madctlVal.getLsbD i →
        (q.step c).driver.madctlVal.getLsbD i = p.driver.madctlVal.getLsbD i :=
    fun q c before => (low_call q.driver c low).trans before
  exact StepRun.run_of_step keep rfl calls

theorem run_bspDisplayNew (p : PanelPair) : (p.run bspDisplayNew).Synced ∧
    madctlRotation (p.run bspDisplayNew).regs.madctl = bspRotation :=
  run_turn (p.run [.reset, .init, .invertColor true]) true true false

/-- The configuration given to LVGL is the way `bsp_display_new` has turned the
panel: any rotations and back again restore the very register. -/
theorem madctl_rotated_back (p : PanelPair) (rotations : List DispRot) :
    (((p.run bspDisplayNew).run (rotations.flatMap (lvglPortUpdateCallback bspRotation))).run
      (lvglPortUpdateCallback bspRotation .none)).regs.madctl = (p.run bspDisplayNew).regs.madctl := by
  obtain ⟨synced, bits⟩ := run_lvglPortUpdateCallback bspRotation .none
    ((p.run bspDisplayNew).run (rotations.flatMap (lvglPortUpdateCallback bspRotation)))
  have boot := run_bspDisplayNew p
  refine BitVec.eq_of_getLsbD_eq fun i hi => ?_
  by_cases low : i < 5
  · rw [synced, boot.1, low_run _ _ low, low_run _ _ low]
  · have same := bits.trans boot.2.symm
    simp only [madctlRotation, Rotation.mk.injEq] at same
    obtain rfl | rfl | rfl : i = 5 ∨ i = 6 ∨ i = 7 := by omega
    · exact same.1
    · exact same.2.1
    · exact same.2.2

/-- After anything that was done to the panel, the last rotation alone decides
what it shows where, until the panel is reset or turned again: the picture as it
is without rotation, turned. Every cell shows one point of the display. -/
theorem rotation_run {rotation : Rotation} {drv : DispDrv} (fits : Matches rotation drv)
    (p : PanelPair) (history : List PanelCall) {later : List PanelCall}
    (keeps : ∀ c ∈ later, c.Keeps) :
    let q := ((p.run history).run (lvglPortUpdateCallback rotation drv.rotated)).run later
    q.regs.madctl = q.driver.madctlVal ∧
    (∀ point, (madctlRotation q.regs.madctl).cell point = rotation.cell (unrotate drv point)) ∧
    (∀ point : Int × Int, drv.screen.Has point.1 point.2 →
      panelCells.Has ((madctlRotation q.regs.madctl).cell point).1
        ((madctlRotation q.regs.madctl).cell point).2) ∧
    ∀ c : Int × Int, panelCells.Has c.1 c.2 → ∃! point : Int × Int,
      drv.screen.Has point.1 point.2 ∧ (madctlRotation q.regs.madctl).cell point = c := by
  obtain ⟨synced, bits⟩ := run_lvglPortUpdateCallback rotation drv.rotated (p.run history)
  obtain ⟨still, kept⟩ := Synced.run synced keeps
  have turned : ∀ point, (madctlRotation (((p.run history).run
      (lvglPortUpdateCallback rotation drv.rotated)).run later).regs.madctl).cell point =
      rotation.cell (unrotate drv point) := by
    intro point
    rw [kept, bits, cell_turned fits]
  refine ⟨still, turned, fun point inside => ?_, fun c inside => ?_⟩
  · rw [turned, has_cell fits, has_unrotate]
    exact inside
  · simp only [turned]
    exact existsUnique_point fits inside

/-- The display of the board turned upright. -/
def uprightDrv : DispDrv := { bspDisplayDrv with rotated := .rot90 }

/-- The panel at power-up. -/
def newPanel : PanelPair := ⟨espLcdNewPanelSt7789, .default⟩

theorem rotation_run_upright :
    let q := ((newPanel.run bspDisplayNew).run (lvglPortUpdateCallback bspRotation .rot90)).run
      [.dispOnOff true]
    q.regs.madctl = q.driver.madctlVal ∧
    (∀ point, (madctlRotation q.regs.madctl).cell point =
      bspRotation.cell (unrotate uprightDrv point)) ∧
    (∀ point : Int × Int, uprightDrv.screen.Has point.1 point.2 →
      panelCells.Has ((madctlRotation q.regs.madctl).cell point).1
        ((madctlRotation q.regs.madctl).cell point).2) ∧
    ∀ c : Int × Int, panelCells.Has c.1 c.2 → ∃! point : Int × Int,
      uprightDrv.screen.Has point.1 point.2 ∧ (madctlRotation q.regs.madctl).cell point = c :=
  rotation_run (show Matches bspRotation uprightDrv from ⟨rfl, rfl⟩) newPanel bspDisplayNew
    (by simp [PanelCall.Keeps])

/-- LVGL turns a touched point so that it is the point shown where the panel
was touched. -/
theorem touch_run {rotation : Rotation} {drv : DispDrv} (fits : Matches rotation drv)
    (p : PanelPair) (history : List PanelCall) {later : List PanelCall}
    (keeps : ∀ c ∈ later, c.Keeps) (touched : Int × Int) :
    let q := ((p.run history).run (lvglPortUpdateCallback rotation drv.rotated)).run later
    (madctlRotation q.regs.madctl).cell (indevPointerProc drv touched) = rotation.cell touched ∧
    (drv.plain.Has touched.1 touched.2 →
      drv.screen.Has (indevPointerProc drv touched).1 (indevPointerProc drv touched).2) := by
  obtain ⟨synced, bits⟩ := run_lvglPortUpdateCallback rotation drv.rotated (p.run history)
  obtain ⟨-, kept⟩ := Synced.run synced keeps
  refine ⟨?_, fun inside => ?_⟩
  · rw [kept, bits, cell_turned fits, unrotate_indevPointerProc]
  · rw [← has_unrotate, unrotate_indevPointerProc]
    exact inside

theorem touch_run_upright :
    let q := ((newPanel.run bspDisplayNew).run (lvglPortUpdateCallback bspRotation .rot90)).run
      [.dispOnOff true]
    (madctlRotation q.regs.madctl).cell (indevPointerProc uprightDrv (10, 20)) =
      bspRotation.cell (10, 20) ∧
    (uprightDrv.plain.Has 10 20 →
      uprightDrv.screen.Has (indevPointerProc uprightDrv (10, 20)).1
        (indevPointerProc uprightDrv (10, 20)).2) :=
  touch_run (show Matches bspRotation uprightDrv from ⟨rfl, rfl⟩) newPanel bspDisplayNew
    (by simp [PanelCall.Keeps]) (10, 20)

end CameraBoard.Lvgl
