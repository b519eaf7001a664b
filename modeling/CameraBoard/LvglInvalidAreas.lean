import CameraBoard.LcdDraw
import CameraBoard.General.Rect
import CameraBoard.General.StepRun

/-! The dirty areas of an LVGL display: at most 32 are saved until the next
refresh, clipped to the screen, and joined before they are drawn. The board's
driver has no rounder and refreshes in parts. -/
namespace CameraBoard.Lvgl
open Lcd

inductive DispRot where
  | none
  | rot90
  | rot180
  | rot270
  deriving DecidableEq, Repr

/-- What the display functions read of an `lv_disp_drv_t`. A resolution is
positive and at most the longer side of the panel. -/
structure DispDrv where
  horRes : Int
  verRes : Int
  rotated : DispRot
  proper : 0 < horRes ∧ 0 < verRes
  small : horRes ≤ bspLcdHRes ∧ verRes ≤ bspLcdHRes

def lvInvBufSize : Nat := 32

/-- An `lv_disp_t`. The first `invP` entries of the arrays are in use. -/
structure Disp where
  driver : DispDrv
  invEnCnt : Int
  renderingInProgress : Bool
  invAreas : Nat → Rect
  invAreaJoined : Nat → Bool
  invP : Nat
  refrTimerPaused : Bool

def lvDispGetHorRes (disp : Disp) : Int :=
  match disp.driver.rotated with
  | .rot90 | .rot270 => disp.driver.verRes
  | _ => disp.driver.horRes

def lvDispGetVerRes (disp : Disp) : Int :=
  match disp.driver.rotated with
  | .rot90 | .rot270 => disp.driver.horRes
  | _ => disp.driver.verRes

def Disp.scrArea (disp : Disp) : Rect := ⟨0, 0, lvDispGetHorRes disp - 1, lvDispGetVerRes disp - 1⟩

def lvAreaIntersect (a1 a2 : Rect) : Option Rect :=
  if (a1.inter a2).x1 > (a1.inter a2).x2 ∨ (a1.inter a2).y1 > (a1.inter a2).y2 then none
  else some (a1.inter a2)

def lvAreaIsIn (ain aholder : Rect) : Bool :=
  ain.x1 ≥ aholder.x1 && ain.y1 ≥ aholder.y1 && ain.x2 ≤ aholder.x2 && ain.y2 ≤ aholder.y2

def lvAreaIsOn (a1 a2 : Rect) : Bool :=
  a1.x1 ≤ a2.x2 && a1.x2 ≥ a2.x1 && a1.y1 ≤ a2.y2 && a1.y2 ≥ a2.y1

/-- Saves an area in the buffer, or the screen where there is no place left. -/
def Disp.save (disp : Disp) (area : Rect) : Disp :=
  if disp.invP < lvInvBufSize then
    { disp with
      invAreas := Function.update disp.invAreas disp.invP area
      invP := disp.invP + 1
      refrTimerPaused := false }
  else
    { disp with
      invAreas := Function.update disp.invAreas 0 disp.scrArea
      invP := 1
      refrTimerPaused := false }

/-- `_lv_inv_area`, without an area for a `NULL` pointer. -/
def lvInvArea (disp : Disp) (area : Option Rect) : Disp :=
  if disp.invEnCnt ≤ 0 then disp
  else if disp.renderingInProgress then disp
  else
    match area with
    | none => { disp with invP := 0 }
    | some area =>
      match lvAreaIntersect area disp.scrArea with
      | none => disp
      | some com =>
        if (List.range disp.invP).any fun i => lvAreaIsIn com (disp.invAreas i) then disp
        else disp.save com

/-- A new display, its timer running, on which the active screen has invalidated
its area. -/
def lvDispDrvRegister (driver : DispDrv) : Disp :=
  let disp : Disp := ⟨driver, 1, false, fun _ => ⟨0, 0, 0, 0⟩, fun _ => false, 0, false⟩
  lvInvArea disp (some disp.scrArea)

def lvDispEnableInvalidation (disp : Disp) (en : Bool) : Disp :=
  { disp with invEnCnt := disp.invEnCnt + if en then 1 else -1 }

/-- `invalidate_layout_cb` for the objects of a display, of which its screens
are always there: each marks its layout as dirty and resumes the timer. -/
def invalidateLayout (disp : Disp) : Disp := { disp with refrTimerPaused := false }

/-- Every saved area is forgotten, then the active screen invalidates its own,
which is all of the display. -/
def lvDispDrvUpdate (disp : Disp) (driver : DispDrv) : Disp :=
  let disp := { disp with
    driver
    invAreas := fun _ => ⟨0, 0, 0, 0⟩
    invAreaJoined := fun _ => false
    invP := 0 }
  invalidateLayout (lvInvArea disp (some disp.scrArea))

/-- The end of a refresh: nothing is saved any more. -/
def Disp.cleanUp (disp : Disp) : Disp :=
  if disp.invP = 0 then disp
  else
    { disp with
      invAreas := fun _ => ⟨0, 0, 0, 0⟩
      invAreaJoined := fun _ => false
      invP := 0 }

def lvDispSetRotation (disp : Disp) (rotation : DispRot) : Disp :=
  lvDispDrvUpdate disp { disp.driver with rotated := rotation }

/-- The cell is in a saved area that is not joined into another. -/
def Disp.Damaged (disp : Disp) (x y : Int) : Prop :=
  ∃ i < disp.invP, disp.invAreaJoined i = false ∧ (disp.invAreas i).Has x y

instance (disp : Disp) (x y : Int) : Decidable (disp.Damaged x y) :=
  inferInstanceAs (Decidable (∃ i < disp.invP, _ ∧ _))

/-- The areas in use are pieces of the screen. -/
def Disp.OnScreen (disp : Disp) : Prop :=
  ∀ i < disp.invP, (disp.invAreas i).Proper ∧ (disp.invAreas i).Inside disp.scrArea

/-- Before areas are joined. -/
structure Disp.Tidy (disp : Disp) : Prop where
  few : disp.invP ≤ lvInvBufSize
  onScreen : disp.OnScreen
  unjoined : ∀ i, disp.invAreaJoined i = false

/-- Between two refreshes: where there is damage the refresh timer runs. -/
structure Disp.Sound (disp : Disp) : Prop extends disp.Tidy where
  timer : disp.invP ≠ 0 → disp.refrTimerPaused = false

theorem proper_scrArea (disp : Disp) : disp.scrArea.Proper := by
  obtain ⟨hor, ver⟩ := disp.driver.proper
  unfold Disp.scrArea lvDispGetHorRes lvDispGetVerRes Rect.Proper
  split <;> simp only <;> omega

theorem Disp.Damaged.scrArea {disp : Disp} (onScreen : disp.OnScreen) {x y : Int}
    (h : disp.Damaged x y) : disp.scrArea.Has x y := by
  obtain ⟨i, used, -, cell⟩ := h
  exact (onScreen i used).2.has cell

theorem lvAreaIntersect_eq_some {a1 a2 com : Rect} (h : lvAreaIntersect a1 a2 = some com) :
    com = a1.inter a2 ∧ com.Proper := by
  unfold lvAreaIntersect at h
  split_ifs at h with empty
  obtain rfl := Option.some.inj h
  refine ⟨rfl, ?_⟩
  unfold Rect.Proper
  omega

theorem lvAreaIntersect_eq_none {a1 a2 : Rect} (h : lvAreaIntersect a1 a2 = none) (x y : Int) :
    ¬ (a1.Has x y ∧ a2.Has x y) := by
  intro both
  have proper := (Rect.has_inter.2 both).proper
  rw [lvAreaIntersect, if_neg (by unfold Rect.Proper at proper; omega)] at h
  exact absurd h (by simp)

theorem lvAreaIsIn_iff (ain aholder : Rect) : lvAreaIsIn ain aholder = true ↔ ain.Inside aholder := by
  simp [lvAreaIsIn, Rect.Inside, and_assoc]

section Save

variable {disp : Disp}

theorem damaged_iff_of_unjoined (unjoined : ∀ i, disp.invAreaJoined i = false) (x y : Int) :
    disp.Damaged x y ↔ ∃ i < disp.invP, (disp.invAreas i).Has x y := by
  simp [Disp.Damaged, unjoined]

/-- Saving adds the area to the damage, or makes all of the screen damage. -/
theorem damaged_save (h : disp.Tidy) (area : Rect) (x y : Int) :
    (disp.save area).Damaged x y ↔
      if disp.invP < lvInvBufSize then disp.Damaged x y ∨ area.Has x y else disp.scrArea.Has x y := by
  rw [damaged_iff_of_unjoined h.unjoined]
  unfold Disp.save
  split_ifs
  · simp only [Disp.Damaged, h.unjoined, true_and]
    constructor
    · rintro ⟨i, used, cell⟩
      obtain before | rfl := Nat.lt_succ_iff_lt_or_eq.1 used
      · rw [Function.update_of_ne (Nat.ne_of_lt before)] at cell
        exact .inl ⟨i, before, cell⟩
      · rw [Function.update_self] at cell
        exact .inr cell
    · rintro (⟨i, before, cell⟩ | cell)
      · refine ⟨i, Nat.lt_succ_of_lt before, ?_⟩
        rwa [Function.update_of_ne (Nat.ne_of_lt before)]
      · refine ⟨disp.invP, Nat.lt_succ_self _, ?_⟩
        rwa [Function.update_self]
  · simp [Disp.Damaged, h.unjoined]

theorem refrTimerPaused_save (area : Rect) : (disp.save area).refrTimerPaused = false := by
  unfold Disp.save
  split_ifs <;> rfl

theorem Disp.Tidy.save (h : disp.Tidy) {area : Rect} (proper : area.Proper)
    (inside : area.Inside disp.scrArea) : (disp.save area).Tidy := by
  unfold Disp.save
  split_ifs with place
  · refine ⟨place, fun i used => ?_, h.unjoined⟩
    obtain before | rfl := Nat.lt_succ_iff_lt_or_eq.1 used
    · simp only [Function.update_of_ne (Nat.ne_of_lt before)]
      exact h.onScreen i before
    · simp only [Function.update_self]
      exact ⟨proper, inside⟩
  · refine ⟨Nat.le_of_ble_eq_true rfl, fun i used => ?_, h.unjoined⟩
    obtain rfl := Nat.lt_one_iff.1 used
    simp only [Function.update_self]
    exact ⟨proper_scrArea disp, Rect.Inside.refl _⟩

end Save

/-- What an invalidation can do while it is enabled and nothing is drawn. -/
theorem lvInvArea_cases {disp : Disp} (enabled : 0 < disp.invEnCnt)
    (idle : disp.renderingInProgress = false) (area : Rect) :
    (lvInvArea disp (some area) = disp ∧ ∀ x y, ¬ (area.Has x y ∧ disp.scrArea.Has x y)) ∨
    (lvInvArea disp (some area) = disp ∧
      ∃ i < disp.invP, (area.inter disp.scrArea).Inside (disp.invAreas i)) ∨
    (lvInvArea disp (some area) = disp.save (area.inter disp.scrArea) ∧
      (area.inter disp.scrArea).Proper) := by
  unfold lvInvArea
  rw [if_neg (by omega), if_neg (by simp [idle])]
  simp only
  cases clip : lvAreaIntersect area disp.scrArea with
  | none => exact .inl ⟨rfl, lvAreaIntersect_eq_none clip⟩
  | some com =>
    obtain ⟨rfl, proper⟩ := lvAreaIntersect_eq_some clip
    refine .inr ?_
    simp only
    split_ifs with saved
    · obtain ⟨i, used, inside⟩ := List.any_eq_true.1 saved
      exact .inl ⟨rfl, i, List.mem_range.1 used, (lvAreaIsIn_iff _ _).1 inside⟩
    · exact .inr ⟨rfl, proper⟩

/-- What every invalidation leaves as it is. -/
structure Disp.SameScreen (d disp : Disp) : Prop where
  driver : d.driver = disp.driver
  invEnCnt : d.invEnCnt = disp.invEnCnt
  rendering : d.renderingInProgress = disp.renderingInProgress

theorem Disp.SameScreen.scrArea {d disp : Disp} (h : d.SameScreen disp) :
    d.scrArea = disp.scrArea := by
  simp only [Disp.scrArea, lvDispGetHorRes, lvDispGetVerRes, h.driver]

theorem sameScreen_lvInvArea (disp : Disp) (area : Option Rect) :
    (lvInvArea disp area).SameScreen disp := by
  fun_cases lvInvArea disp area <;> try exact ⟨rfl, rfl, rfl⟩
  unfold Disp.save
  split_ifs <;> exact ⟨rfl, rfl, rfl⟩

theorem Disp.tidy_of_empty {disp : Disp} (empty : disp.invP = 0)
    (unjoined : ∀ i, disp.invAreaJoined i = false) : disp.Tidy where
  few := by omega
  onScreen i used := by omega
  unjoined := unjoined

theorem tidy_lvInvArea {disp : Disp} (h : disp.Tidy) (area : Option Rect) :
    (lvInvArea disp area).Tidy := by
  fun_cases lvInvArea disp area with
  | case3 => exact Disp.tidy_of_empty rfl h.unjoined
  | case6 stopped idle area com clip fresh =>
    obtain ⟨rfl, proper⟩ := lvAreaIntersect_eq_some clip
    exact h.save proper Rect.inter_inside_right
  | _ => exact h

theorem timer_lvInvArea {disp : Disp} (h : disp.invP ≠ 0 → disp.refrTimerPaused = false)
    (area : Option Rect) (some : (lvInvArea disp area).invP ≠ 0) :
    (lvInvArea disp area).refrTimerPaused = false := by
  fun_cases lvInvArea disp area with
  | case3 stopped idle => exact absurd (by rw [lvInvArea.eq_def, if_neg stopped, if_neg idle]) some
  | case6 => exact refrTimerPaused_save _
  | _ => exact h (by simp_all [lvInvArea.eq_def])

theorem sound_lvInvArea {disp : Disp} (h : disp.Sound) (area : Option Rect) :
    (lvInvArea disp area).Sound :=
  ⟨tidy_lvInvArea h.toTidy area, timer_lvInvArea h.timer area⟩

theorem Disp.sound_of_empty {disp : Disp} (empty : disp.invP = 0)
    (unjoined : ∀ i, disp.invAreaJoined i = false) : disp.Sound :=
  ⟨Disp.tidy_of_empty empty unjoined, fun some => absurd empty some⟩

theorem sound_lvDispDrvRegister (driver : DispDrv) : (lvDispDrvRegister driver).Sound := by
  unfold lvDispDrvRegister
  exact sound_lvInvArea (Disp.sound_of_empty rfl fun _ => rfl) _

theorem Disp.Sound.invalidateLayout {disp : Disp} (h : disp.Sound) :
    (invalidateLayout disp).Sound :=
  ⟨⟨h.few, h.onScreen, h.unjoined⟩, fun _ => rfl⟩

theorem sound_lvDispDrvUpdate (disp : Disp) (driver : DispDrv) :
    (lvDispDrvUpdate disp driver).Sound := by
  unfold lvDispDrvUpdate
  exact (sound_lvInvArea (Disp.sound_of_empty rfl fun _ => rfl) _).invalidateLayout

theorem driver_lvDispDrvUpdate (disp : Disp) (driver : DispDrv) :
    (lvDispDrvUpdate disp driver).driver = driver :=
  (sameScreen_lvInvArea _ _).driver

theorem rendering_lvDispDrvUpdate (disp : Disp) (driver : DispDrv) :
    (lvDispDrvUpdate disp driver).renderingInProgress = disp.renderingInProgress :=
  (sameScreen_lvInvArea _ _).rendering

/-- One more area is added to the damage as far as it is on the screen. When
the buffer was full the damage may become the screen. -/
theorem damaged_lvInvArea_iff {disp : Disp} (h : disp.Tidy) (enabled : 0 < disp.invEnCnt)
    (idle : disp.renderingInProgress = false) (area : Rect) :
    (lvInvArea disp (some area)).invP ≤ disp.invP + 1 ∧
    ((∀ x y, (lvInvArea disp (some area)).Damaged x y ↔
        disp.Damaged x y ∨ disp.scrArea.Has x y ∧ area.Has x y) ∨
      (disp.invP = lvInvBufSize ∧
        ∀ x y, (lvInvArea disp (some area)).Damaged x y ↔ disp.scrArea.Has x y)) := by
  obtain ⟨eq, away⟩ | ⟨eq, i, used, inside⟩ | ⟨eq, -⟩ := lvInvArea_cases enabled idle area
  · refine ⟨by rw [eq]; omega, .inl fun x y => ?_⟩
    rw [eq, or_iff_left fun both => away x y both.symm]
  · refine ⟨by rw [eq]; omega, .inl fun x y => ?_⟩
    rw [eq, or_iff_left_of_imp]
    intro both
    exact ⟨i, used, h.unjoined i, inside.has (Rect.has_inter.2 both.symm)⟩
  · rw [eq]
    by_cases place : disp.invP < lvInvBufSize
    · refine ⟨by simp [Disp.save, place], .inl fun x y => ?_⟩
      rw [damaged_save h, if_pos place, Rect.has_inter, @and_comm (area.Has x y)]
    · have few := h.few
      refine ⟨by simp [Disp.save, place], .inr ⟨by omega, fun x y => ?_⟩⟩
      rw [damaged_save h, if_neg place]

/-- Invalidating one area after another. -/
def lvInvAreas (disp : Disp) (areas : List Rect) : Disp :=
  StepRun.run (fun d area => lvInvArea d (some area)) disp areas

theorem lvInvAreas_cons (disp : Disp) (area : Rect) (areas : List Rect) :
    lvInvAreas disp (area :: areas) = lvInvAreas (lvInvArea disp (some area)) areas := rfl

theorem sameScreen_lvInvAreas (disp : Disp) (areas : List Rect) :
    (lvInvAreas disp areas).SameScreen disp := by
  induction areas generalizing disp with
  | nil => exact ⟨rfl, rfl, rfl⟩
  | cons area areas ih =>
    have one := sameScreen_lvInvArea disp (some area)
    have rest := ih (lvInvArea disp (some area))
    exact ⟨rest.driver.trans one.driver, rest.invEnCnt.trans one.invEnCnt,
      rest.rendering.trans one.rendering⟩

theorem tidy_lvInvAreas {disp : Disp} (h : disp.Tidy) (areas : List Rect) :
    (lvInvAreas disp areas).Tidy := by
  have keep : ∀ (d : Disp) (area : Rect), d.Tidy → (lvInvArea d (some area)).Tidy :=
    fun _ area tidy => tidy_lvInvArea tidy (some area)
  exact StepRun.run_of_step keep h areas

theorem sound_lvInvAreas {disp : Disp} (h : disp.Sound) (areas : List Rect) :
    (lvInvAreas disp areas).Sound := by
  have keep : ∀ (d : Disp) (area : Rect), d.Sound → (lvInvArea d (some area)).Sound :=
    fun _ area sound => sound_lvInvArea sound (some area)
  exact StepRun.run_of_step keep h areas

theorem damaged_lvInvAreas {disp : Disp} (h : disp.Tidy) (enabled : 0 < disp.invEnCnt)
    (idle : disp.renderingInProgress = false) (areas : List Rect) :
    (∀ x y, (lvInvAreas disp areas).Damaged x y ↔
      disp.Damaged x y ∨ disp.scrArea.Has x y ∧ Rect.Covers areas x y) ∨
    (lvInvBufSize < disp.invP + areas.length ∧
      ∀ x y, (lvInvAreas disp areas).Damaged x y ↔ disp.scrArea.Has x y) := by
  induction areas generalizing disp with
  | nil => exact .inl fun x y => by simp [lvInvAreas, StepRun.run, Rect.not_covers_nil]
  | cons area areas ih =>
    have same := sameScreen_lvInvArea disp (some area)
    have rest := ih (tidy_lvInvArea h (some area)) (same.invEnCnt ▸ enabled) (same.rendering ▸ idle)
    obtain ⟨more, step⟩ := damaged_lvInvArea_iff h enabled idle area
    rw [same.scrArea] at rest
    rw [lvInvAreas_cons, List.length_cons]
    obtain exact | ⟨past, all⟩ := rest
    · obtain one | ⟨full, screen⟩ := step
      · refine .inl fun x y => ?_
        rw [exact, one, Rect.covers_cons, or_assoc, and_or_left]
      · refine .inr ⟨by omega, fun x y => ?_⟩
        rw [exact, screen, or_iff_left_of_imp And.left]
    · exact .inr ⟨by omega, all⟩

/-- After any number of invalidations the damage is exactly what was
invalidated on the screen, or all of the screen when there were more pieces
than can be saved. -/
theorem damaged_run {disp : Disp} (h : disp.Sound) (enabled : 0 < disp.invEnCnt)
    (idle : disp.renderingInProgress = false) (areas : List Rect) :
    (lvInvAreas disp areas).Sound ∧
    ((∀ x y, (lvInvAreas disp areas).Damaged x y ↔
        disp.Damaged x y ∨ disp.scrArea.Has x y ∧ Rect.Covers areas x y) ∨
      (lvInvBufSize < disp.invP + areas.length ∧
        ∀ x y, (lvInvAreas disp areas).Damaged x y ↔ disp.scrArea.Has x y)) :=
  ⟨sound_lvInvAreas h areas, damaged_lvInvAreas h.toTidy enabled idle areas⟩

/-- An empty display that invalidates its own area is damaged all over. -/
theorem damaged_screen {disp : Disp} (enabled : 0 < disp.invEnCnt)
    (idle : disp.renderingInProgress = false) (empty : disp.invP = 0)
    (unjoined : ∀ i, disp.invAreaJoined i = false) (x y : Int) :
    (lvInvArea disp (some disp.scrArea)).Damaged x y ↔ disp.scrArea.Has x y := by
  obtain ⟨-, exact | ⟨-, screen⟩⟩ :=
    damaged_lvInvArea_iff (Disp.tidy_of_empty empty unjoined) enabled idle disp.scrArea
  · rw [exact]
    simp [Disp.Damaged, empty]
  · exact screen x y

theorem damaged_lvDispDrvRegister (driver : DispDrv) (x y : Int) :
    (lvDispDrvRegister driver).Damaged x y ↔ (lvDispDrvRegister driver).scrArea.Has x y := by
  unfold lvDispDrvRegister
  rw [(sameScreen_lvInvArea _ _).scrArea]
  exact damaged_screen (show (0 : Int) < 1 by decide) rfl rfl (fun _ => rfl) x y

theorem damaged_lvDispDrvUpdate {disp : Disp} (enabled : 0 < disp.invEnCnt)
    (idle : disp.renderingInProgress = false) (driver : DispDrv) (x y : Int) :
    (lvDispDrvUpdate disp driver).Damaged x y ↔ (lvDispDrvUpdate disp driver).scrArea.Has x y := by
  let cleared : Disp := { disp with
    driver, invAreas := fun _ => ⟨0, 0, 0, 0⟩, invAreaJoined := fun _ => false, invP := 0 }
  have same : (lvDispDrvUpdate disp driver).scrArea = cleared.scrArea :=
    (sameScreen_lvInvArea cleared _).scrArea
  rw [same]
  exact @damaged_screen cleared enabled idle rfl (fun _ => rfl) x y

/-- While invalidation is disabled, a driver update forgets all damage and
records none. -/
theorem damaged_lvDispDrvUpdate_disabled {disp : Disp} (disabled : disp.invEnCnt ≤ 0)
    (driver : DispDrv) (x y : Int) : ¬ (lvDispDrvUpdate disp driver).Damaged x y := by
  rintro ⟨i, used, -⟩
  have none : (lvDispDrvUpdate disp driver).invP = 0 := by
    simp only [lvDispDrvUpdate, lvInvArea, if_pos disabled, invalidateLayout]
  omega

/-- The display of the board. -/
def bspDisplayDrv : DispDrv := ⟨320, 240, .none, by decide, by decide⟩

/-- That display after its first refresh. -/
def refreshedDisp : Disp :=
  Disp.cleanUp { lvDispDrvRegister bspDisplayDrv with refrTimerPaused := true }

theorem sound_refreshedDisp : refreshedDisp.Sound :=
  Disp.sound_of_empty (by decide) fun _ => rfl

/-- Three areas, one of them off the screen; the others are clipped and saved. -/
def pressed : List Rect := [⟨-5, 30, 80, 60⟩, ⟨330, 0, 400, 10⟩, ⟨300, 230, 400, 260⟩]

theorem damaged_run_pressed :
    ((lvInvAreas refreshedDisp pressed).Sound ∧
      ((∀ x y, (lvInvAreas refreshedDisp pressed).Damaged x y ↔
          refreshedDisp.Damaged x y ∨ refreshedDisp.scrArea.Has x y ∧ Rect.Covers pressed x y) ∨
        (lvInvBufSize < refreshedDisp.invP + pressed.length ∧
          ∀ x y, (lvInvAreas refreshedDisp pressed).Damaged x y ↔ refreshedDisp.scrArea.Has x y))) ∧
    refreshedDisp.invP = 0 ∧ (lvInvAreas refreshedDisp pressed).invP = 2 ∧
    (lvInvAreas refreshedDisp pressed).invAreas 0 = ⟨0, 30, 80, 60⟩ ∧
    (lvInvAreas refreshedDisp pressed).invAreas 1 = ⟨300, 230, 319, 239⟩ :=
  ⟨damaged_run sound_refreshedDisp (by decide) (by decide) pressed,
    by decide, by decide, by decide, by decide⟩

end CameraBoard.Lvgl
