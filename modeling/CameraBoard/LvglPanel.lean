import CameraBoard.Framebuffer
import CameraBoard.LcdTasks
import CameraBoard.LvglRefresh

/-! What a refresh puts on the panel. The objects make a scene of RGB565 colors.
A part of it is rendered into the draw buffer and sent from there by the flush
callback, each part before the buffer is used again. -/
namespace CameraBoard.Lvgl
open Lcd Lcd.Tasks Bytes Memory Raster

/-- The bytes of an `lv_color_t` with `LV_COLOR_16_SWAP`. -/
def lvColorBytes (color : BitVec 16) : List Byte := [color.extractLsb' 8 8, color.extractLsb' 0 8]

def partWindow (area : Rect) : Window where
  x0 := area.x1.toNat
  y0 := area.y1.toNat
  w := area.width.toNat
  h := area.height.toNat

/-- What the draw buffer holds when a part is rendered. -/
def renderPart (scene : Frame) (area : Rect) : List Byte :=
  (scan (partWindow area) scene).flatMap lvColorBytes

def lvArea (area : Rect) : LvArea where
  x1 := BitVec.ofInt 16 area.x1
  y1 := BitVec.ofInt 16 area.y1
  x2 := BitVec.ofInt 16 area.x2
  y2 := BitVec.ofInt 16 area.y2

/-- Rendering a part, then the flush callback. -/
def Flush.instrs (scene : Frame) (f : Flush) : List Instr :=
  let b := lvglPortFlushCallback (lvArea f.area) f.buf
  [.own f.buf (renderPart scene f.area), .draw b.area b.colorData]

theorem pixels_lvColorBytes (colors : List (BitVec 16)) :
    pixels (colors.flatMap lvColorBytes) = colors := by
  induction colors with
  | nil => rfl
  | cons color colors ih =>
    have whole : color.extractLsb' 8 8 ++ color.extractLsb' 0 8 = color :=
      @BitVec.extractLsb'_append_extractLsb' 8 8 color
    rw [List.flatMap_cons, lvColorBytes, List.cons_append, List.cons_append, List.nil_append,
      pixels, ih, whole]

theorem length_renderPart (scene : Frame) (area : Rect) :
    (renderPart scene area).length = (partWindow area).w * (partWindow area).h * 2 := by
  have each : ∀ colors : List (BitVec 16), (colors.flatMap lvColorBytes).length = colors.length * 2 := by
    intro colors
    induction colors with
    | nil => rfl
    | cons color colors ih =>
      rw [List.flatMap_cons, List.length_append, ih, List.length_cons, lvColorBytes]
      simp only [List.length_cons, List.length_nil]
      omega
  rw [renderPart, each, length_scan]

theorem toNat_coordinate {v : Int} (low : 0 ≤ v) (high : v < 320) :
    ((BitVec.ofInt 16 v).signExtend 32).toNat = v.toNat ∧
      ((BitVec.ofInt 16 v).signExtend 32 + 1).toNat = v.toNat + 1 := by
  have small : (BitVec.ofInt 16 v).toNat = v.toNat := by
    rw [BitVec.toNat_ofInt]
    omega
  have positive : (BitVec.ofInt 16 v).msb = false := by
    rw [BitVec.msb_eq_false_iff_two_mul_lt, small]
    omega
  have one : (1 : CInt).toNat = 1 := rfl
  rw [BitVec.signExtend_eq_setWidth_of_msb_false positive, BitVec.toNat_add, BitVec.toNat_setWidth,
    small, one]
  omega

/-- A piece of the panel, whichever way around it is addressed. -/
structure OnPanel (area : Rect) : Prop where
  cols : 0 ≤ area.x1 ∧ area.x1 ≤ area.x2 ∧ area.x2 < 320
  rows : 0 ≤ area.y1 ∧ area.y1 ≤ area.y2 ∧ area.y2 < 320

theorem onPanel_of_inside {disp : Disp} {area : Rect} (proper : area.Proper)
    (inside : area.Inside disp.scrArea) : OnPanel area := by
  obtain ⟨hor, ver⟩ := disp.driver.small
  unfold bspLcdHRes at hor ver
  unfold Rect.Proper at proper
  unfold Rect.Inside Disp.scrArea lvDispGetHorRes lvDispGetVerRes at inside
  constructor <;> revert inside <;> split <;> simp only <;> omega

theorem has_partWindow {area : Rect} (h : OnPanel area) (x y : Nat) :
    (partWindow area).Has x y ↔ area.Has x y := by
  obtain ⟨left, -, right⟩ := h.cols
  obtain ⟨top, -, bottom⟩ := h.rows
  unfold partWindow Window.Has Rect.Has Rect.width Rect.height
  simp only
  omega

theorem size_partWindow {area : Rect} (h : OnPanel area) :
    ((partWindow area).w * (partWindow area).h : Nat) = area.size := by
  obtain ⟨-, cols, -⟩ := h.cols
  obtain ⟨-, rows, -⟩ := h.rows
  have wide : (area.width.toNat : Int) = area.width := Int.toNat_of_nonneg (by unfold Rect.width; omega)
  have high : (area.height.toNat : Int) = area.height :=
    Int.toNat_of_nonneg (by unfold Rect.height; omega)
  rw [partWindow, Rect.size, Int.natCast_mul, wide, high]

section Callback

variable {area : Rect} (h : OnPanel area) (buf : Nat)
include h

theorem fits_flush : (lvglPortFlushCallback (lvArea area) buf).area.Fits := by
  obtain ⟨left, cols, right⟩ := h.cols
  obtain ⟨top, rows, bottom⟩ := h.rows
  have x1 := toNat_coordinate left (by omega)
  have x2 := toNat_coordinate (show 0 ≤ area.x2 by omega) right
  have y1 := toNat_coordinate top (by omega)
  have y2 := toNat_coordinate (show 0 ≤ area.y2 by omega) bottom
  constructor <;> simp only [lvglPortFlushCallback, lvArea, x1, x2, y1, y2] <;> omega

theorem window_flush : (lvglPortFlushCallback (lvArea area) buf).area.window = partWindow area := by
  obtain ⟨left, cols, right⟩ := h.cols
  obtain ⟨top, rows, bottom⟩ := h.rows
  have x1 := toNat_coordinate left (by omega)
  have x2 := toNat_coordinate (show 0 ≤ area.x2 by omega) right
  have y1 := toNat_coordinate top (by omega)
  have y2 := toNat_coordinate (show 0 ≤ area.y2 by omega) bottom
  rw [(fits_flush h buf).window_eq]
  simp only [lvglPortFlushCallback, lvArea, x1, x2, y1, y2, partWindow, Rect.width, Rect.height]
  congr 1 <;> omega

end Callback

/-- A flush copies the scene to its area of the panel and nothing else. -/
theorem run_flush {f : Flush} (h : OnPanel f.area) (scene : Frame) (s : Screen) :
    ∃ s', s.run (f.instrs scene) = some s' ∧ ∀ x y, s'.panel.mem x y =
      if f.area.Has x y then scene x y else s.panel.mem x y := by
  obtain ⟨panel, drawn, mem⟩ := exec_draw (fits_flush h f.buf)
    { s with mem := store s.mem f.buf (renderPart scene f.area) } f.buf
  refine ⟨⟨store s.mem f.buf (renderPart scene f.area), panel⟩, ?_, fun x y => ?_⟩
  · rw [Flush.instrs, Screen.run, Screen.exec, Option.bind_some, Screen.run]
    exact congrArg (Option.bind · _) drawn
  · rw [window_flush h, ← length_renderPart scene, load_store, renderPart,
      pixels_lvColorBytes] at mem
    rw [mem, fill_scan]
    exact if_congr (has_partWindow h x y) rfl rfl

theorem run_flushes {flushes : List Flush} (h : ∀ f ∈ flushes, OnPanel f.area) (scene : Frame)
    (s : Screen) :
    ∃ s', s.run (flushes.flatMap (Flush.instrs scene)) = some s' ∧ ∀ x y : Nat,
      s'.panel.mem x y =
        if Rect.Covers (flushes.map Flush.area) x y then scene x y else s.panel.mem x y := by
  induction flushes generalizing s with
  | nil => exact ⟨s, rfl, fun x y => (if_neg Rect.not_covers_nil).symm⟩
  | cons f flushes ih =>
    obtain ⟨one, rest⟩ := List.forall_mem_cons.1 h
    obtain ⟨s', first, mem⟩ := run_flush one scene s
    obtain ⟨s'', next, mem'⟩ := ih rest s'
    refine ⟨s'', ?_, fun x y => ?_⟩
    · rw [List.flatMap_cons, run_append, first, Option.bind_some, next]
    · rw [mem', mem]
      by_cases later : Rect.Covers (flushes.map Flush.area) x y
      · rw [if_pos later, List.map_cons, if_pos (Rect.covers_cons.2 (.inr later))]
      · rw [if_neg later]
        refine if_congr ?_ rfl rfl
        rw [List.map_cons, Rect.covers_cons, or_iff_left later]

def refrJoinedAreas (fuel : Nat) (disp : Disp) (drawBuf : DrawBuf) : Option (Disp × Refresh) :=
  (refrInvalidAreas fuel disp drawBuf).map fun r => (disp.cleanUp, r)

/-- `flushing` after `n` flushes. Each waits for the one before, ahead of the
drawing or, with two small buffers, of the flush: `while(draw_buf->flushing)`.
A flush calls back when all of its color data was queued, which `served` says;
one that was not is waited for without end. -/
def waitFlushing (served : Nat → Bool) (flushing : Bool) : Nat → Option Bool
  | 0 => some flushing
  | n + 1 => (waitFlushing served flushing n).bind fun flushing =>
    if flushing then none else some (!served n)

def Refresh.leave (r : Refresh) (flushing : Bool) : Refresh :=
  { r with drawBuf := { r.drawBuf with flushing } }

/-- The refresh timer, with or without an active screen and with the areas that
the objects invalidate when their layout is updated. -/
def lvDispRefrTimer (fuel : Nat) (served : Nat → Bool) (actScr : Bool) (layout : List Rect)
    (disp : Disp) (drawBuf : DrawBuf) : Option (Disp × Refresh) :=
  let disp := lvInvAreas { disp with refrTimerPaused := true } layout
  if actScr = false then some ({ disp with invP := 0 }, ⟨drawBuf, []⟩)
  else
    (refrJoinedAreas fuel (lvRefrJoinArea disp) drawBuf).bind fun (disp, r) =>
      (waitFlushing served drawBuf.flushing r.flushes.length).map fun flushing =>
        (disp, r.leave flushing)

section Waits

variable {served : Nat → Bool} {flushing : Bool} {n : Nat}

theorem waitFlushing_served (all : ∀ i < n, served i = true) :
    waitFlushing served false n = some false := by
  induction n with
  | zero => rfl
  | succ n ih =>
    rw [waitFlushing, ih fun i hi => all i (Nat.lt_succ_of_lt hi), Option.bind_some,
      all n (Nat.lt_succ_self n)]
    rfl

theorem waitFlushing_succ {left : Bool} (ends : waitFlushing served flushing (n + 1) = some left) :
    left = !served n := by
  obtain ⟨before, -, step⟩ := Option.bind_eq_some_iff.1 ends
  split_ifs at step
  exact (Option.some.inj step).symm

/-- The waits end unless a flush is left from an earlier pass, or one that is
not the last could not be queued. -/
theorem waitFlushing_eq_none_iff : waitFlushing served flushing n = none ↔
    (flushing = true ∧ n ≠ 0) ∨ ∃ i, i + 1 < n ∧ served i = false := by
  induction n with
  | zero => simp [waitFlushing]
  | succ n ih =>
    cases before : waitFlushing served flushing n with
    | none =>
      rw [waitFlushing, before, Option.bind_none, eq_self, true_iff]
      obtain ⟨set, some⟩ | ⟨i, earlier, stuck⟩ := ih.1 before
      · exact .inl ⟨set, Nat.succ_ne_zero n⟩
      · exact .inr ⟨i, Nat.lt_succ_of_lt earlier, stuck⟩
    | some left =>
      have none : ¬ ((flushing = true ∧ n ≠ 0) ∨ ∃ i, i + 1 < n ∧ served i = false) := by
        rw [← ih, before]
        exact Option.some_ne_none _
      rw [waitFlushing, before, Option.bind_some]
      cases n with
      | zero =>
        obtain rfl := Option.some.inj before
        simp
      | succ n =>
        obtain rfl := waitFlushing_succ before
        have clear : flushing = false := by simpa using not_or.1 none |>.1
        have earlier : ∀ i, i + 1 < n + 1 → served i ≠ false :=
          fun i hi stuck => none (.inr ⟨i, hi, stuck⟩)
        cases last : served n with
        | true =>
          simp only [Bool.not_true, Bool.false_eq_true, if_false, reduceCtorEq, false_iff, clear,
            false_and, false_or]
          rintro ⟨i, hi, stuck⟩
          obtain before | rfl := Nat.lt_succ_iff_lt_or_eq.1 (Nat.lt_of_succ_lt_succ hi)
          · exact earlier i (Nat.succ_lt_succ before) stuck
          · exact absurd (last.symm.trans stuck) (by decide)
        | false =>
          rw [Bool.not_false, if_pos rfl, eq_self, true_iff]
          exact .inr ⟨n, Nat.lt_succ_self _, last⟩

end Waits

section Timer

variable {disp : Disp}

theorem lvRefrJoinArea_of_empty (empty : disp.invP = 0) : lvRefrJoinArea disp = disp := by
  rw [lvRefrJoinArea, empty]
  rfl

/-- What a refresh draws. -/
theorem refrJoinedAreas_flushes (tidy : disp.Tidy) (layout : List Rect) {drawBuf : DrawBuf}
    (wide : disp.scrArea.width ≤ drawBuf.size) {fuel : Nat} (enough : 320 < fuel) :
    ∃ disp' r, refrJoinedAreas fuel
        (lvRefrJoinArea (lvInvAreas { disp with refrTimerPaused := true } layout)) drawBuf =
          some (disp', r) ∧
      disp'.SameScreen disp ∧ disp'.invP = 0 ∧ (∀ i, disp'.invAreaJoined i = false) ∧
      r.drawBuf.size = drawBuf.size ∧
      (∀ x y, (lvInvAreas { disp with refrTimerPaused := true } layout).Damaged x y →
        Rect.Covers (r.flushes.map Flush.area) x y) ∧
      (∀ f ∈ r.flushes, f.area.Proper ∧ f.area.Inside disp.scrArea ∧ f.area.size ≤ drawBuf.size) ∧
      (r.flushes = [] ∨ ∃ init final, r.flushes = init ++ [final] ∧ final.flushingLast = true ∧
        ∀ f ∈ init, f.flushingLast = false) := by
  have paused : Disp.Tidy { disp with refrTimerPaused := true } := ⟨tidy.few, tidy.onScreen, tidy.unjoined⟩
  have before := tidy_lvInvAreas paused layout
  have same := sameScreen_lvInvAreas { disp with refrTimerPaused := true } layout
  simp only [refrJoinedAreas]
  generalize lvInvAreas { disp with refrTimerPaused := true } layout = d at *
  have driver : d.scrArea = disp.scrArea := same.scrArea
  by_cases empty : d.invP = 0
  · rw [lvRefrJoinArea_of_empty empty, refrInvalidAreas.eq_def, if_pos empty, Option.map_some,
      Disp.cleanUp, if_pos empty]
    refine ⟨d, ⟨drawBuf, []⟩, rfl, ⟨same.driver, same.invEnCnt, same.rendering⟩, empty,
      before.unjoined, rfl, ?_, List.forall_mem_nil _, .inl rfl⟩
    rintro x y ⟨i, used, -⟩
    omega
  · obtain ⟨joins, undone⟩ := lvRefrJoinArea_spec before empty
    have screen := joins.same.scrArea.trans driver
    rw [← joins.invP] at undone
    obtain ⟨r, eq, drawn⟩ := refrInvalidAreas_spec joins.onScreen undone drawBuf
      (screen.symm ▸ wide) enough
    rw [eq, Option.map_some, Disp.cleanUp, if_neg (joins.invP ▸ empty)]
    refine ⟨_, r, rfl, ⟨joins.same.driver.trans same.driver, joins.same.invEnCnt.trans same.invEnCnt,
      joins.same.rendering.trans same.rendering⟩, rfl, fun _ => rfl, drawn.size,
      fun x y damaged => ?_, ?_, ?_⟩
    · obtain ⟨i, used, single, cell⟩ := joins.covers x y damaged
      exact (drawn.covers x y).2 ⟨i, used, single, cell⟩
    · intro f hf
      obtain ⟨proper, inside, small⟩ := drawn.fits f hf
      exact ⟨proper, screen ▸ inside, small⟩
    · obtain ⟨i, used, single⟩ := undone
      exact .inr (drawn.late (lastUnjoined_spec used single).2.1)

theorem lvDispRefrTimer_eq {layout : List Rect} {drawBuf : DrawBuf} {fuel : Nat} {disp' : Disp}
    {r : Refresh} (drawn : refrJoinedAreas fuel
      (lvRefrJoinArea (lvInvAreas { disp with refrTimerPaused := true } layout)) drawBuf =
        some (disp', r)) (served : Nat → Bool) :
    lvDispRefrTimer fuel served true layout disp drawBuf =
      (waitFlushing served drawBuf.flushing r.flushes.length).map fun flushing =>
        (disp', r.leave flushing) := by
  simp only [lvDispRefrTimer, drawn, Option.bind_some]
  exact if_neg (by decide)

theorem lvDispRefrTimer_served {layout : List Rect} {drawBuf : DrawBuf} {fuel : Nat} {disp' : Disp}
    {r : Refresh} (drawn : refrJoinedAreas fuel
      (lvRefrJoinArea (lvInvAreas { disp with refrTimerPaused := true } layout)) drawBuf =
        some (disp', r)) (free : drawBuf.flushing = false) {served : Nat → Bool}
    (all : ∀ n < r.flushes.length, served n = true) :
    lvDispRefrTimer fuel served true layout disp drawBuf = some (disp', r.leave false) := by
  rw [lvDispRefrTimer_eq drawn, free, waitFlushing_served all, Option.map_some]

end Timer

end CameraBoard.Lvgl
