import CameraBoard.St7789Panel
import CameraBoard.General.StepRun

/-! The drawing interface as a picture of 320 by 240 pixels. Every draw is
complete before the next call, so a program runs straight through the memory
and the panel. -/
namespace CameraBoard.Lcd
open Bytes Memory Raster

/-- What the calls mean on the abstract picture. The image holds its pixels row
by row, the most significant byte first. -/
def Call.apply (f : Frame) : Call → Frame
  | .setColor color => fun x y => if x < bspLcdHRes ∧ y < bspLcdVRes then color else f x y
  | .drawPoint px py color => fun x y => if px.toNat = x ∧ py.toNat = y then color else f x y
  | .drawPictrue a gImage => fun x y =>
    if a.xStart.toNat ≤ x ∧ x < a.xEnd.toNat ∧ a.yStart.toNat ≤ y ∧ y < a.yEnd.toNat then
      let k := (y - a.yStart.toNat) * (a.xEnd.toNat - a.xStart.toNat) + (x - a.xStart.toNat)
      gImage (2 * k) ++ gImage (2 * k + 1)
    else f x y

structure Screen where
  mem : Nat → Byte
  panel : Panel

def Screen.exec (s : Screen) : Instr → Option Screen
  | .own p bytes => some { s with mem := store s.mem p bytes }
  | .draw a p =>
    (panelSt7789DrawBitmap a p).map fun ops =>
      { s with panel := ops.foldl (Panel.exec s.mem) s.panel }
  | .release _ _ => some s

/-- `none` when an assertion has stopped the program. -/
def Screen.run (s : Screen) : List Instr → Option Screen
  | [] => some s
  | i :: program => (s.exec i).bind fun s => s.run program

theorem run_append (s : Screen) (is js : List Instr) :
    s.run (is ++ js) = (s.run is).bind fun s => s.run js := by
  induction is generalizing s with
  | nil => rfl
  | cons i is ih =>
    rw [List.cons_append, Screen.run, Screen.run, Option.bind_assoc]
    exact Option.bind_congr fun s _ => ih s

theorem exec_draw {a : Area} (h : a.Fits) (s : Screen) (p : Nat) :
    ∃ panel, s.exec (.draw a p) = some { s with panel } ∧
      panel.mem = fill a.window 0
        (pixels (load s.mem p (a.window.w * a.window.h * 2))) s.panel.mem := by
  have ops : panelSt7789DrawBitmap a p = some _ := if_pos h.proper
  refine ⟨_, by rw [Screen.exec, ops, Option.map_some], ?_⟩
  rw [exec_drawBitmap ops, h.drawLength_eq]

def swapBytes (c : BitVec 16) : BitVec 16 := c.extractLsb' 0 8 ++ c.extractLsb' 8 8

theorem pixels_littleEndian (c : BitVec 16) : pixels (littleEndian 2 c) = [swapBytes c] := rfl

theorem pixels_rowBytes (c : BitVec 16) (n : Nat) :
    pixels ((List.replicate n c).flatMap (littleEndian 2)) = List.replicate n (swapBytes c) := by
  induction n with
  | zero => rfl
  | succ n ih =>
    rw [List.replicate_succ, List.flatMap_cons, pixels_append (by simp), ih, pixels_littleEndian]
    rfl

theorem getD_pixels_load (mem : Nat → Byte) (p n k : Nat) (hk : k < n) (c : BitVec 16) :
    (pixels (load mem p (2 * n))).getD k c = mem (p + 2 * k) ++ mem (p + (2 * k + 1)) := by
  induction n with
  | zero => omega
  | succ n ih =>
    have last : load mem (p + 2 * n) 2 = [mem (p + 2 * n), mem (p + (2 * n + 1))] := rfl
    have len : (pixels (load mem p (2 * n))).length = n := by simp [length_pixels]
    have even : 2 ∣ (load mem p (2 * n)).length := by
      rw [length_load]
      exact Nat.dvd_mul_right 2 n
    rw [Nat.mul_succ, load_add, pixels_append even, last]
    obtain before | rfl := Nat.lt_succ_iff_lt_or_eq.1 hk
    · rw [List.getD_append _ _ _ _ (by omega), ih before]
    · rw [List.getD_append_right _ _ _ _ (by omega), len, Nat.sub_self]
      rfl

/-- The calls that `Call.apply` speaks of: points and areas of the screen. -/
def Call.InRange : Call → Prop
  | .setColor _ => True
  | .drawPoint x y _ => x.toNat < bspLcdHRes ∧ y.toNat < bspLcdVRes
  | .drawPictrue a _ => a.InRange

def Call.Granted (m : Placement) : Call → Prop
  | .setColor _ => m.heap rowByteSize ≠ none
  | .drawPoint _ _ _ => True
  | .drawPictrue a _ => m.heap (pixelsByteSize a) ≠ none

def Call.swapped : Call → Call
  | .setColor color => .setColor (swapBytes color)
  | .drawPoint x y color => .drawPoint x y (swapBytes color)
  | .drawPictrue a gImage => .drawPictrue a gImage

theorem window_rowArea {y : Nat} (hy : y < bspLcdVRes) : (rowArea y).window = ⟨0, y, 320, 1⟩ := by
  obtain ⟨start, stop⟩ := toNat_rowArea hy
  rw [(inRange_rowArea hy).window_eq, start, stop, Nat.add_sub_cancel_left]
  rfl

theorem toNat_point {x y : CInt} (h : x.toNat < bspLcdHRes ∧ y.toNat < bspLcdVRes) :
    (x + 1).toNat = x.toNat + 1 ∧ (y + 1).toNat = y.toNat + 1 := by
  have hx : x.toNat < 320 := h.1
  have hy : y.toNat < 240 := h.2
  have one : (1 : CInt).toNat = 1 := rfl
  rw [BitVec.toNat_add, BitVec.toNat_add, one]
  omega

theorem inRange_point {x y : CInt} (h : x.toNat < bspLcdHRes ∧ y.toNat < bspLcdVRes) :
    Area.InRange ⟨x, y, x + 1, y + 1⟩ := by
  obtain ⟨right, bottom⟩ := toNat_point h
  refine ⟨?_, ?_⟩ <;> simp only [right, bottom]
  · exact ⟨Nat.lt_succ_self _, h.1⟩
  · exact ⟨Nat.lt_succ_self _, h.2⟩

theorem run_rows {s : Screen} {p : Nat} {color : BitVec 16}
    (row : load s.mem p rowByteSize.toNat = rowBytes color) {n : Nat} (hn : n ≤ bspLcdVRes) :
    ∃ panel, s.run ((List.range n).map fun y => .draw (rowArea y) p) = some { s with panel } ∧
      panel.mem = fun x y => if x < bspLcdHRes ∧ y < n then swapBytes color else s.panel.mem x y := by
  induction n with
  | zero => exact ⟨s.panel, rfl, by simp⟩
  | succ n ih =>
    obtain ⟨panel, before, mem⟩ := ih (Nat.le_of_succ_le hn)
    have window := window_rowArea (Nat.lt_of_succ_le hn)
    obtain ⟨panel', next, mem'⟩ :=
      exec_draw (inRange_rowArea (Nat.lt_of_succ_le hn)).fits { s with panel } p
    refine ⟨panel', ?_, ?_⟩
    · rw [List.range_succ, List.map_append, run_append, before, Option.bind_some]
      simp [Screen.run, next]
    · have bytes : pixels (load s.mem p (320 * 1 * 2)) = List.replicate 320 (swapBytes color) := by
        have all : load s.mem p (320 * 1 * 2) = rowBytes color := row
        rw [all]
        exact pixels_rowBytes color 320
      rw [mem', window, bytes]
      funext x y
      rw [@fill_replicate _ ⟨0, n, 320, 1⟩ 320 rfl, mem]
      have rows : x < bspLcdHRes ∧ y < n + 1 ↔
          Window.Has ⟨0, n, 320, 1⟩ x y ∨ x < bspLcdHRes ∧ y < n := by
        simp only [Window.Has, bspLcdHRes]
        omega
      by_cases inside : Window.Has ⟨0, n, 320, 1⟩ x y
      · rw [if_pos inside, if_pos (rows.2 (.inl inside))]
      · rw [if_neg inside]
        exact if_congr (by rw [rows, or_iff_right inside]) rfl rfl

theorem run_one {a : Area} (h : a.Fits) (s : Screen) (p : Nat) {bytes : List Byte}
    (len : bytes.length = a.window.w * a.window.h * 2) (size : Nat) :
    ∃ s', s.run [.own p bytes, .draw a p, .release p size] = some s' ∧
      s'.panel.mem = fill a.window 0 (pixels bytes) s.panel.mem := by
  obtain ⟨panel, drawn, mem⟩ := exec_draw h { s with mem := store s.mem p bytes } p
  refine ⟨⟨store s.mem p bytes, panel⟩, ?_, ?_⟩
  · rw [Screen.run, Screen.exec, Option.bind_some, Screen.run, drawn]
    rfl
  · rw [mem, ← len, load_store]

theorem run_point {x y : CInt} (inRange : x.toNat < bspLcdHRes ∧ y.toNat < bspLcdVRes)
    (m : Placement) (color : BitVec 16) (s : Screen) :
    ∃ s', s.run (lcdDrawPoint m x y color) = some s' ∧
      s'.panel.mem = (Call.drawPoint x y (swapBytes color)).apply s.panel.mem := by
  obtain ⟨right, bottom⟩ := toNat_point inRange
  have window : Area.window ⟨x, y, x + 1, y + 1⟩ = ⟨x.toNat, y.toNat, 1, 1⟩ := by
    rw [(inRange_point inRange).window_eq, right, bottom, Nat.add_sub_cancel_left,
      Nat.add_sub_cancel_left]
  obtain ⟨s', run, mem⟩ := @run_one _ (inRange_point inRange).fits s m.frame (littleEndian 2 color)
    (by rw [window]; rfl) 2
  refine ⟨s', run, ?_⟩
  rw [mem, window, pixels_littleEndian]
  funext x' y'
  refine (@fill_replicate _ ⟨x.toNat, y.toNat, 1, 1⟩ 1 rfl (swapBytes color) _ x' y').trans
    (if_congr ?_ rfl rfl)
  simp only [Window.Has]
  omega

theorem run_pictrue {a : Area} (inRange : a.InRange) {m : Placement}
    (granted : m.heap (pixelsByteSize a) ≠ none) (gImage : Nat → Byte) (s : Screen) :
    ∃ s', s.run (lcdDrawPictrue m a gImage) = some s' ∧
      s'.panel.mem = (Call.drawPictrue a gImage).apply s.panel.mem := by
  obtain ⟨buffer, heap⟩ := Option.ne_none_iff_exists'.1 granted
  have size := inRange.toNat_pixelsByteSize
  obtain ⟨s', run, mem⟩ := @run_one _ inRange.fits s buffer
    (load gImage 0 (pixelsByteSize a).toNat) (by rw [length_load, size]) (pixelsByteSize a).toNat
  refine ⟨s', by rw [lcdDrawPictrue, heap, run], ?_⟩
  have len : (pixels (load gImage 0 (pixelsByteSize a).toNat)).length =
      a.window.w * a.window.h := by
    rw [length_pixels, length_load, size, Nat.mul_div_cancel _ Nat.two_pos]
  rw [mem]
  funext x y
  rw [fill_eq _ _ (Nat.le_of_eq len)]
  refine ite_congr (propext (inRange.has_window x y)) (fun inside => ?_) fun _ => rfl
  have before := a.window.index_lt ((inRange.has_window x y).2 inside)
  rw [size, Nat.mul_comm _ 2, getD_pixels_load _ _ _ _ before, Nat.zero_add, Nat.zero_add]
  rw [Window.index, inRange.window_eq]

/-- What each call really does to the picture: colors arrive with their bytes
exchanged, images as they are. -/
theorem run_program {c : Call} {m : Placement} (inRange : c.InRange) (granted : c.Granted m)
    (s : Screen) :
    ∃ s', s.run (c.program m) = some s' ∧ s'.panel.mem = c.swapped.apply s.panel.mem := by
  cases c with
  | setColor color =>
    obtain ⟨buffer, heap⟩ := Option.ne_none_iff_exists'.1 granted
    have row : load (store s.mem buffer (rowBytes color)) buffer rowByteSize.toNat =
        rowBytes color := by
      rw [← length_rowBytes color, load_store]
    obtain ⟨panel, drawn, mem⟩ :=
      @run_rows { s with mem := store s.mem buffer (rowBytes color) } _ _ row _ (Nat.le_refl _)
    refine ⟨⟨store s.mem buffer (rowBytes color), panel⟩, ?_, mem⟩
    simp only [Call.program, lcdSetColor, heap, List.cons_append, Screen.run, Screen.exec,
      Option.bind_some, run_append, drawn]
  | drawPoint x y color => exact run_point inRange m color s
  | drawPictrue a gImage => exact run_pictrue inRange granted gImage s

/-- Both bytes of each color are the same. Images are free. -/
def Call.SameBytes : Call → Prop
  | .setColor color => color.extractLsb' 8 8 = color.extractLsb' 0 8
  | .drawPoint _ _ color => color.extractLsb' 8 8 = color.extractLsb' 0 8
  | .drawPictrue _ _ => True

theorem swapBytes_eq_iff (c : BitVec 16) :
    swapBytes c = c ↔ c.extractLsb' 8 8 = c.extractLsb' 0 8 := by
  have whole : c.extractLsb' 8 8 ++ c.extractLsb' 0 8 = c := @BitVec.extractLsb'_append_extractLsb' 8 8 c
  constructor
  · intro h
    have high := congrArg (BitVec.extractLsb' 8 8) h
    rw [swapBytes] at high
    exact (BitVec.extractLsb'_append_eq_left.symm.trans high).symm
  · intro h
    rw [swapBytes, h]
    rwa [h] at whole

theorem apply_swapped_iff {c : Call} (inRange : c.InRange) (f : Frame) :
    c.swapped.apply f = c.apply f ↔ c.SameBytes := by
  cases c with
  | setColor color =>
    rw [Call.SameBytes, ← swapBytes_eq_iff]
    refine ⟨fun same => ?_, fun same => by rw [Call.swapped, same]⟩
    simpa [Call.apply, Call.swapped, bspLcdHRes, bspLcdVRes] using congrFun (congrFun same 0) 0
  | drawPoint x y color =>
    rw [Call.SameBytes, ← swapBytes_eq_iff]
    refine ⟨fun same => ?_, fun same => by rw [Call.swapped, same]⟩
    simpa [Call.apply, Call.swapped] using congrFun (congrFun same x.toNat) y.toNat
  | drawPictrue a gImage => exact ⟨fun _ => trivial, fun _ => rfl⟩

structure Request where
  call : Call
  place : Placement
  inRange : call.InRange
  granted : call.Granted place

def Request.step (s : Option Screen × Frame) (r : Request) : Option Screen × Frame :=
  (s.1.bind fun screen => screen.run (r.call.program r.place), r.call.apply s.2)

def Agrees (s : Option Screen × Frame) : Prop := s.1.map (fun screen => screen.panel.mem) = some s.2

theorem agrees_step_iff {s : Option Screen × Frame} (agrees : Agrees s) (r : Request) :
    Agrees (r.step s) ↔ r.call.SameBytes := by
  obtain ⟨_ | screen, f⟩ := s
  · exact absurd agrees (by simp [Agrees])
  · obtain rfl : screen.panel.mem = f := by simpa [Agrees] using agrees
    obtain ⟨screen', run, mem⟩ := run_program r.inRange r.granted screen
    rw [← apply_swapped_iff r.inRange screen.panel.mem, ← mem]
    simp [Agrees, Request.step, run]

/-- The panel shows the abstract picture after every call exactly when every
color given to the interface has two equal bytes. -/
theorem agrees_iff (screen : Screen) (requests : List Request) :
    StepRun.Always Request.step Agrees (some screen, screen.panel.mem) requests ↔
      ∀ r ∈ requests, r.call.SameBytes := by
  have same : ∀ s r, Agrees s → (Agrees (Request.step s r) ↔ r.call.SameBytes) :=
    fun _ r agrees => agrees_step_iff agrees r
  have start : Agrees (some screen, screen.panel.mem) := rfl
  rw [StepRun.always_iff_along_of_step same start, StepRun.along_const]

def black : Screen := ⟨fun _ => 0, ⟨(0, 0), (0, 0), 0, fun _ _ => 0⟩⟩

def redPoint : Request :=
  ⟨.drawPoint 0 0 0xf800, .onStack 0, ⟨by decide, by decide⟩, trivial⟩

/-- A red point on a black screen comes out blue. -/
theorem agrees_swapped : ¬ ∀ (screen : Screen) (requests : List Request),
    StepRun.Always Request.step Agrees (some screen, screen.panel.mem) requests := by
  intro claim
  have start : Agrees (some black, black.panel.mem) := rfl
  have same : (0xf800 : BitVec 16).extractLsb' 8 8 = (0xf800 : BitVec 16).extractLsb' 0 8 :=
    (agrees_step_iff start redPoint).1 (claim black [redPoint]).2
  exact absurd same (by decide)

end CameraBoard.Lcd
