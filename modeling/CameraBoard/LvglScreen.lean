import CameraBoard.LvglPanel
import CameraBoard.PanelOrientation

/-! The display of the board over whole runs. Objects change the scene and
invalidate what they change, the display is rotated, the panel is switched, and
the refresh timer brings the scene to the glass. -/
namespace CameraBoard.Lvgl
open Lcd Raster

/-- The display and its draw buffer, the scene that the objects make, the panel
driver with the registers of the panel, memory and address window, and what the
cells of the panel show. -/
structure Gui where
  disp : Disp
  drawBuf : DrawBuf
  scene : Frame
  panel : PanelPair
  screen : Screen
  glass : Int × Int → BitVec 16

def Gui.rotation (g : Gui) : Rotation := madctlRotation g.panel.regs.madctl

/-- The cells as they are addressed. -/
def addressed (r : Rotation) (glass : Int × Int → BitVec 16) : Frame := fun x y => glass (r.cell (x, y))

/-- The cells after writes to the addresses. -/
def unaddressed (r : Rotation) (frame : Frame) (glass : Int × Int → BitVec 16) :
    Int × Int → BitVec 16 := fun c =>
  if panelCells.Has c.1 c.2 then frame (Rotation.uncell r c).1.toNat (Rotation.uncell r c).2.toNat
  else glass c

/-- More passes than the loop over the rows of this panel can make. -/
def refrPasses : Nat := 321

def Gui.refresh (g : Gui) (layout : List Rect) (served : Nat → Bool) : Option Gui := do
  let (disp, r) ← lvDispRefrTimer refrPasses served true layout g.disp g.drawBuf
  let frame := addressed g.rotation g.glass
  let screen ← Screen.run { g.screen with panel := { g.screen.panel with mem := frame } }
    (r.flushes.flatMap (Flush.instrs g.scene))
  return { g with
    disp
    drawBuf := r.drawBuf
    screen
    glass := unaddressed g.rotation screen.panel.mem g.glass }

inductive GuiEvent where
  | change (scene : Frame) (areas : List Rect)
  | enableInvalidation (en : Bool)
  | setRotation (rotated : DispRot) (scene : Frame)
  | panelCall (c : PanelCall)
  | refresh (scene : Frame) (layout : List Rect) (served : Nat → Bool)

/-- A rotation changes the size of the screens, so the scene is a new one. A
refresh first updates the layout of the objects, and `served` says which of its
flushes the panel IO can queue. -/
def Gui.step (g : Gui) : GuiEvent → Gui
  | .change scene areas => { g with scene, disp := lvInvAreas g.disp areas }
  | .enableInvalidation en => { g with disp := lvDispEnableInvalidation g.disp en }
  | .setRotation rotated scene =>
    { g with
      scene
      disp := lvDispSetRotation g.disp rotated
      panel := g.panel.run (lvglPortUpdateCallback bspRotation rotated) }
  | .panelCall c => { g with panel := g.panel.step c }
  | .refresh scene layout served => (Gui.refresh { g with scene } layout served).getD g

/-- What the application and the objects are trusted with: invalidations are
enabled when the scene changes and when the display is rotated, what changes is
invalidated, every flush is queued, and the panel is not turned behind the back
of LVGL. A rotation while invalidation is disabled would forget all damage. -/
def Gui.Fair (g : Gui) : GuiEvent → Prop
  | .change scene areas =>
    0 < g.disp.invEnCnt ∧ ∀ x y : Nat, scene x y ≠ g.scene x y → Rect.Covers areas x y
  | .refresh scene areas served =>
    (0 < g.disp.invEnCnt ∧ ∀ x y : Nat, scene x y ≠ g.scene x y → Rect.Covers areas x y) ∧
      ∀ n, served n = true
  | .setRotation _ _ => 0 < g.disp.invEnCnt
  | .panelCall c => c.Keeps
  | .enableInvalidation _ => True

/-- The point is shown: the cell it falls on, the display turned as it is, has
its color. -/
def Gui.Shows (g : Gui) (x y : Nat) : Prop :=
  g.glass (bspRotation.cell (unrotate g.disp.driver (x, y))) = g.scene x y

/-- The invariant: what is not damaged is shown. -/
structure Gui.Good (g : Gui) : Prop where
  sound : g.disp.Sound
  idle : g.disp.renderingInProgress = false
  fits : Matches bspRotation g.disp.driver
  wide : 320 ≤ g.drawBuf.size
  free : g.drawBuf.flushing = false
  synced : g.panel.Synced
  turned : g.rotation = Rotation.turned bspRotation g.disp.driver.rotated
  shown : ∀ x y : Nat, g.disp.scrArea.Has x y → ¬ g.disp.Damaged x y → g.Shows x y

theorem width_scrArea (disp : Disp) : disp.scrArea.width ≤ 320 := by
  obtain ⟨right, bottom⟩ := disp.driver.small
  unfold bspLcdHRes at right bottom
  unfold Disp.scrArea lvDispGetHorRes Rect.width
  split <;> simp only <;> omega

/-- Invalidating what changes keeps the rest as it is shown. -/
theorem shown_lvInvAreas {disp : Disp} (tidy : disp.Tidy) (enabled : 0 < disp.invEnCnt)
    (idle : disp.renderingInProgress = false) {pic scene scene' : Frame} {areas : List Rect}
    (shown : ∀ x y : Nat, disp.scrArea.Has x y → ¬ disp.Damaged x y → pic x y = scene x y)
    (noted : ∀ x y : Nat, scene' x y ≠ scene x y → Rect.Covers areas x y) {x y : Nat}
    (inside : disp.scrArea.Has x y) (clean : ¬ (lvInvAreas disp areas).Damaged x y) :
    pic x y = scene' x y := by
  obtain exact | ⟨-, all⟩ := damaged_lvInvAreas tidy enabled idle areas
  · rw [exact] at clean
    rw [shown x y inside fun damaged => clean (.inl damaged)]
    by_contra changed
    exact clean (.inr ⟨inside, noted x y (Ne.symm changed)⟩)
  · exact absurd ((all x y).2 inside) clean

/-- Each point of the screen has its own cell, so writes to the addresses reach
it. -/
theorem unaddressed_cell {disp : Disp} (fits : Matches bspRotation disp.driver) (frame : Frame)
    (glass : Int × Int → BitVec 16) {x y : Nat} (inside : disp.scrArea.Has x y) :
    unaddressed (Rotation.turned bspRotation disp.driver.rotated) frame glass
        (bspRotation.cell (unrotate disp.driver (x, y))) = frame x y := by
  rw [scrArea_eq] at inside
  have cell : panelCells.Has (bspRotation.cell (unrotate disp.driver (x, y))).1
      (bspRotation.cell (unrotate disp.driver (x, y))).2 :=
    (has_cell fits _).2 ((has_unrotate disp.driver (x, y)).2 inside)
  rw [unaddressed, if_pos cell, ← cell_turned fits, uncell_cell]
  rfl

theorem lvDispRefrTimer_run {disp : Disp} (tidy : disp.Tidy) (layout : List Rect)
    {drawBuf : DrawBuf} (wide : 320 ≤ drawBuf.size) (free : drawBuf.flushing = false)
    {served : Nat → Bool} (all : ∀ n, served n = true) (scene : Frame) (s : Screen) :
    ∃ disp' r s', lvDispRefrTimer refrPasses served true layout disp drawBuf = some (disp', r) ∧
      s.run (r.flushes.flatMap (Flush.instrs scene)) = some s' ∧
      disp'.SameScreen disp ∧ disp'.invP = 0 ∧ (∀ i, disp'.invAreaJoined i = false) ∧
      r.drawBuf.size = drawBuf.size ∧ r.drawBuf.flushing = false ∧ ∀ x y : Nat,
        s'.panel.mem x y = scene x y ∨
          ¬ (lvInvAreas { disp with refrTimerPaused := true } layout).Damaged x y ∧
            s'.panel.mem x y = s.panel.mem x y := by
  have narrow := width_scrArea disp
  obtain ⟨disp', r, drawn, same, empty, unjoined, size, covers, pieces, -⟩ :=
    refrJoinedAreas_flushes tidy layout (show disp.scrArea.width ≤ drawBuf.size by omega)
      (show 320 < refrPasses by decide)
  obtain ⟨s', run, mem⟩ := @run_flushes r.flushes
    (fun f hf => onPanel_of_inside (pieces f hf).1 (pieces f hf).2.1) scene s
  refine ⟨disp', r.leave false, s', lvDispRefrTimer_served drawn free fun n _ => all n, run, same,
    empty, unjoined, size, rfl, fun x y => ?_⟩
  rw [mem]
  split_ifs with covered
  · exact .inl rfl
  · exact .inr ⟨fun damaged => covered (covers x y damaged), rfl⟩

section Steps

variable {g : Gui} (h : g.Good)
include h

theorem Good.change {scene : Frame} {areas : List Rect} (fair : g.Fair (.change scene areas)) :
    (g.step (.change scene areas)).Good := by
  obtain ⟨enabled, noted⟩ := fair
  have same := sameScreen_lvInvAreas g.disp areas
  refine ⟨sound_lvInvAreas h.sound areas, same.rendering.trans h.idle, same.driver ▸ h.fits, h.wide,
    h.free, h.synced, same.driver ▸ h.turned, fun x y inside clean => ?_⟩
  unfold Gui.step Gui.Shows at *
  simp only [same.scrArea, same.driver] at *
  exact shown_lvInvAreas h.sound.toTidy enabled h.idle h.shown noted inside clean

theorem Good.setRotation {rotated : DispRot} {scene : Frame}
    (enabled : g.Fair (.setRotation rotated scene)) : (g.step (.setRotation rotated scene)).Good := by
  obtain ⟨synced, turned⟩ := run_lvglPortUpdateCallback bspRotation rotated g.panel
  have same : (lvDispSetRotation g.disp rotated).driver = { g.disp.driver with rotated } :=
    driver_lvDispDrvUpdate _ _
  refine ⟨sound_lvDispDrvUpdate _ _, (rendering_lvDispDrvUpdate _ _).trans h.idle, ?_, h.wide,
    h.free, synced, ?_, fun x y inside clean => ?_⟩
  · exact (show (g.step (.setRotation rotated scene)).disp.driver = _ from same) ▸ h.fits
  · exact turned.trans (congrArg (fun d => Rotation.turned bspRotation d.rotated) same).symm
  · exact absurd ((damaged_lvDispDrvUpdate enabled h.idle _ _ _).2 inside) clean

theorem Good.panelCall {c : PanelCall} (keeps : g.Fair (.panelCall c)) :
    (g.step (.panelCall c)).Good := by
  obtain ⟨synced, same⟩ := Synced.step h.synced keeps
  exact ⟨h.sound, h.idle, h.fits, h.wide, h.free, synced, (congrArg madctlRotation same).trans h.turned, h.shown⟩

theorem Good.refresh {scene : Frame} {layout : List Rect} {served : Nat → Bool}
    (fair : g.Fair (.refresh scene layout served)) :
    (g.step (.refresh scene layout served)).Good ∧
      (g.step (.refresh scene layout served)).disp.invP = 0 := by
  obtain ⟨⟨enabled, noted⟩, all⟩ := fair
  have paused : Disp.Tidy { g.disp with refrTimerPaused := true } :=
    ⟨h.sound.few, h.sound.onScreen, h.sound.unjoined⟩
  obtain ⟨disp', r, s', timer, run, same, empty, unjoined, size, free, mem⟩ :=
    lvDispRefrTimer_run h.sound.toTidy layout h.wide h.free all scene
      { g.screen with panel := { g.screen.panel with mem := addressed g.rotation g.glass } }
  have step : g.step (.refresh scene layout served) =
      { g with
        scene, disp := disp', drawBuf := r.drawBuf, screen := s'
        glass := unaddressed g.rotation s'.panel.mem g.glass } := by
    have done : Gui.refresh { g with scene } layout served = some
        { g with
          scene, disp := disp', drawBuf := r.drawBuf, screen := s'
          glass := unaddressed g.rotation s'.panel.mem g.glass } := by
      simp only [Gui.refresh, timer, Option.bind_eq_bind, Option.bind_some]
      exact congrArg (Option.bind · _) run
    rw [Gui.step, done, Option.getD_some]
  rw [step]
  refine ⟨⟨Disp.sound_of_empty empty unjoined, same.rendering.trans h.idle, same.driver ▸ h.fits,
    size.symm ▸ h.wide, free, h.synced, same.driver ▸ h.turned, fun x y inside _ => ?_⟩, empty⟩
  rw [same.scrArea] at inside
  unfold Gui.Shows
  simp only [same.driver]
  rw [h.turned, unaddressed_cell h.fits _ _ inside]
  obtain drawn | ⟨clean, kept⟩ := mem x y
  · exact drawn
  · rw [kept]
    refine @shown_lvInvAreas _ paused enabled h.idle
      (addressed g.rotation g.glass) g.scene scene layout (fun x y inside clean => ?_) noted x y
      inside clean
    rw [← h.shown x y inside clean, addressed, h.turned, cell_turned h.fits]

end Steps

/-- The display as `bsp_display_lcd_init` leaves it, whatever the panel was
before and whatever it shows. -/
def Gui.start (panel : PanelPair) (screen : Screen) (glass : Int × Int → BitVec 16) (scene : Frame) :
    Gui where
  disp := lvDispDrvRegister bspDisplayDrv
  drawBuf := bspDrawBuf
  scene := scene
  panel := panel.run bspDisplayNew
  screen := screen
  glass := glass

theorem Good.start (panel : PanelPair) (screen : Screen) (glass : Int × Int → BitVec 16)
    (scene : Frame) : (Gui.start panel screen glass scene).Good := by
  obtain ⟨synced, turned⟩ := run_bspDisplayNew panel
  have idle : (lvDispDrvRegister bspDisplayDrv).renderingInProgress = false := by decide
  have wide : 320 ≤ bspDrawBuf.size := by decide
  refine ⟨sound_lvDispDrvRegister bspDisplayDrv, idle, ⟨rfl, rfl⟩, wide, rfl, synced, turned, ?_⟩
  intro x y inside clean
  exact absurd ((damaged_lvDispDrvRegister bspDisplayDrv x y).2 inside) clean

theorem Good.step {g : Gui} (h : g.Good) {e : GuiEvent} (fair : g.Fair e) : (g.step e).Good := by
  cases e with
  | change scene areas => exact Good.change h fair
  | enableInvalidation en =>
    exact ⟨⟨⟨h.sound.few, h.sound.onScreen, h.sound.unjoined⟩, h.sound.timer⟩, h.idle, h.fits,
      h.wide, h.free, h.synced, h.turned, h.shown⟩
  | setRotation rotated scene => exact Good.setRotation h fair
  | panelCall c => exact Good.panelCall h fair
  | refresh scene layout served => exact (Good.refresh h fair).1

/-- Over any fair run, a point that is not shown as it should be is damaged and
the refresh timer is running, and the next refresh shows all of the screen. -/
theorem shown_run (panel : PanelPair) (screen : Screen) (glass : Int × Int → BitVec 16)
    (scene : Frame) (events : List GuiEvent)
    (fair : StepRun.Along Gui.step Gui.Fair (Gui.start panel screen glass scene) events) :
    let g := StepRun.run Gui.step (Gui.start panel screen glass scene) events
    (∀ x y : Nat, g.disp.scrArea.Has x y → ¬ g.Shows x y →
      g.disp.Damaged x y ∧ g.disp.refrTimerPaused = false) ∧
    ∀ scene' layout served, g.Fair (.refresh scene' layout served) →
      ∀ x y : Nat, (g.step (.refresh scene' layout served)).disp.scrArea.Has x y →
        (g.step (.refresh scene' layout served)).Shows x y := by
  have keep : ∀ (g : Gui) (e : GuiEvent), g.Good → g.Fair e → (g.step e).Good :=
    fun _ _ good fair => Good.step good fair
  have good := StepRun.Along.invariant keep (Good.start panel screen glass scene) fair
  refine ⟨fun x y inside stale => ?_, fun scene' layout served fair x y inside => ?_⟩
  · have damaged : (StepRun.run Gui.step (Gui.start panel screen glass scene) events).disp.Damaged x y := by
      by_contra clean
      exact stale (good.shown x y inside clean)
    obtain ⟨i, used, -⟩ := id damaged
    exact ⟨damaged, good.sound.timer (by omega)⟩
  · obtain ⟨good, empty⟩ := Good.refresh good fair
    refine good.shown x y inside ?_
    rintro ⟨i, used, -⟩
    omega

theorem shown_run_upright :
    let start := Gui.start newPanel black (fun _ => 0) (fun _ _ => 0)
    let events := [.setRotation .rot90 fun _ _ => 0xffff, .refresh (fun _ _ => 0xffff) [] fun _ => true]
    let g := StepRun.run Gui.step start events
    (∀ x y : Nat, g.disp.scrArea.Has x y → ¬ g.Shows x y →
      g.disp.Damaged x y ∧ g.disp.refrTimerPaused = false) ∧
    ∀ scene' layout served, g.Fair (.refresh scene' layout served) →
      ∀ x y : Nat, (g.step (.refresh scene' layout served)).disp.scrArea.Has x y →
        (g.step (.refresh scene' layout served)).Shows x y :=
  shown_run newPanel black (fun _ => 0) (fun _ _ => 0)
    [.setRotation .rot90 fun _ _ => 0xffff, .refresh (fun _ _ => 0xffff) [] fun _ => true]
    ⟨show (0 : Int) < (lvDispDrvRegister bspDisplayDrv).invEnCnt by decide,
      ⟨⟨show (0 : Int) < (lvDispSetRotation (lvDispDrvRegister bspDisplayDrv) .rot90).invEnCnt by decide,
        fun _ _ changed => absurd rfl changed⟩, fun _ => rfl⟩, trivial⟩

end CameraBoard.Lvgl
