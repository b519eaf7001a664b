import CameraBoard.LvglJoinAreas

/-! Refreshing the dirty areas part by part: a part is as many rows of an area
as the draw buffer holds, rendered into the active buffer and given to the
flush callback. What the objects on the screen draw is left open. -/
namespace CameraBoard.Lvgl
open Lcd

/-- An `lv_disp_draw_buf_t`, its buffers by their addresses and its size in
pixels. `flushing` is set where a flush will not call back. -/
structure DrawBuf where
  buf1 : Nat
  buf2 : Option Nat
  bufAct : Nat
  size : Nat
  flushing : Bool
  lastArea : Bool
  lastPart : Bool

/-- A call of the flush callback. -/
structure Flush where
  area : Rect
  buf : Nat
  flushingLast : Bool

/-- The draw buffer while a refresh goes on, and the flushes so far. -/
structure Refresh where
  drawBuf : DrawBuf
  flushes : List Flush

/-- With two buffers the next part is rendered into the other one. -/
def DrawBuf.swap (drawBuf : DrawBuf) : DrawBuf :=
  match drawBuf.buf2 with
  | none => drawBuf
  | some buf2 =>
    { drawBuf with bufAct := if drawBuf.bufAct = drawBuf.buf1 then buf2 else drawBuf.buf1 }

/-- The waits for `flushing` are counted over the whole pass of the timer. -/
def drawBufFlush (s : Refresh) (area : Rect) : Refresh where
  drawBuf := s.drawBuf.swap
  flushes := s.flushes ++ [⟨area, s.drawBuf.bufAct, s.drawBuf.lastArea && s.drawBuf.lastPart⟩]

def getMaxRow (drawBuf : DrawBuf) (areaW areaH : Int) : Int :=
  min ((drawBuf.size : Int) / areaW) areaH

/-- A part of the area, its last row given, is the last part when it ends at
row `y2`. -/
def refrPart (y2 : Int) (s : Refresh) (subArea : Rect) : Refresh :=
  let lastPart := s.drawBuf.lastPart || y2 == subArea.y2
  drawBufFlush { s with drawBuf := { s.drawBuf with lastPart } } subArea

/-- The loop over the rows. Without rows in the buffer it never ends, so its
passes are counted. -/
def refrRows (area : Rect) (y2 maxRow : Int) :
    Nat → Refresh → Int → Int → Option (Refresh × Int × Int)
  | 0, _, _, _ => none
  | fuel + 1, s, row, rowLast =>
    if row + maxRow - 1 ≤ y2 then
      let subArea : Rect := ⟨area.x1, row, area.x2, min (row + maxRow - 1) y2⟩
      refrRows area y2 maxRow fuel (refrPart y2 s subArea) (row + maxRow) subArea.y2
    else some (s, row, rowLast)

def refrArea (fuel : Nat) (disp : Disp) (s : Refresh) (area : Rect) : Option Refresh :=
  let y2 := if area.y2 ≥ lvDispGetVerRes disp then lvDispGetVerRes disp - 1 else area.y2
  let maxRow := getMaxRow s.drawBuf area.width area.height
  (refrRows area y2 maxRow fuel s area.y1 0).map fun r =>
    if y2 ≠ r.2.2 then refrPart y2 r.1 ⟨area.x1, r.2.1, area.x2, y2⟩ else r.1

/-- The last area that will be drawn, searched from index `i - 1` down. -/
def lastUnjoined (joined : Nat → Bool) : Nat → Nat
  | 0 => 0
  | i + 1 => if joined i = false then i else lastUnjoined joined i

def Refresh.startArea (s : Refresh) (lastArea : Bool) : Refresh :=
  { s with drawBuf := { s.drawBuf with lastArea, lastPart := false } }

@[simp] theorem flushes_startArea (s : Refresh) (lastArea : Bool) :
    (s.startArea lastArea).flushes = s.flushes := rfl

def refrInvalidArea (fuel : Nat) (disp : Disp) (s : Refresh) (i : Nat) : Option Refresh :=
  if disp.invAreaJoined i then some s
  else
    let lastArea := s.drawBuf.lastArea || i == lastUnjoined disp.invAreaJoined disp.invP
    refrArea fuel disp (s.startArea lastArea) (disp.invAreas i)

/-- Invalidations while the areas are drawn are refused, so the display is the
same afterwards. -/
def refrInvalidAreas (fuel : Nat) (disp : Disp) (drawBuf : DrawBuf) : Option Refresh :=
  if disp.invP = 0 then some ⟨drawBuf, []⟩
  else
    (List.range disp.invP).foldlM (refrInvalidArea fuel disp)
      ⟨{ drawBuf with lastArea := false, lastPart := false }, []⟩

section Parts

variable {drawBuf : DrawBuf} {areaW areaH : Int}

theorem getMaxRow_pos (wide : 0 < areaW) (high : 0 < areaH) :
    0 < getMaxRow drawBuf areaW areaH ↔ areaW ≤ drawBuf.size := by
  have row := Int.le_ediv_iff_mul_le (a := 1) (b := drawBuf.size) wide
  unfold getMaxRow
  omega

theorem getMaxRow_le (wide : 0 < areaW) :
    getMaxRow drawBuf areaW areaH ≤ areaH ∧ areaW * getMaxRow drawBuf areaW areaH ≤ drawBuf.size := by
  have all : areaW * ((drawBuf.size : Int) / areaW) ≤ drawBuf.size :=
    Int.mul_ediv_self_le (Int.ne_of_gt wide)
  have less : areaW * getMaxRow drawBuf areaW areaH ≤ areaW * ((drawBuf.size : Int) / areaW) :=
    Int.mul_le_mul_of_nonneg_left (min_le_left _ _) (Int.le_of_lt wide)
  exact ⟨min_le_right _ _, Int.le_trans less all⟩

/-- The whole parts that the loop makes from `row` on. -/
theorem refrRows_spec (area : Rect) {y2 maxRow : Int} (pos : 0 < maxRow) {fuel : Nat} (s : Refresh)
    (row rowLast : Int) (inside : row ≤ y2 + 1) (enough : y2 + 1 - row < fuel) :
    ∃ parts row', Rect.Stack area.x1 area.x2 row (row' - 1) parts ∧
      (∀ p ∈ parts, p.height ≤ maxRow) ∧ row' ≤ y2 + 1 ∧ y2 < row' + maxRow - 1 ∧
      refrRows area y2 maxRow fuel s row rowLast =
        some (parts.foldl (refrPart y2) s, row', if parts = [] then rowLast else row' - 1) := by
  induction fuel generalizing s row rowLast with
  | zero => omega
  | succ fuel ih =>
    unfold refrRows
    split_ifs with more
    · rw [Int.min_eq_left more]
      obtain ⟨parts, row', stack, fits, bottom, past, eq⟩ :=
        ih (refrPart y2 s ⟨area.x1, row, area.x2, row + maxRow - 1⟩) (row + maxRow)
          (row + maxRow - 1) (by omega) (by omega)
      refine ⟨⟨area.x1, row, area.x2, row + maxRow - 1⟩ :: parts, row', ?_, ?_, bottom, past, ?_⟩
      · refine ⟨⟨rfl, rfl, rfl, by simp only; omega⟩, ?_⟩
        simpa using stack
      · exact List.forall_mem_cons.2 ⟨by simp only [Rect.height]; omega, fits⟩
      · rw [eq, List.foldl_cons, if_neg (List.cons_ne_nil _ _)]
        split_ifs with last
        · subst last
          unfold Rect.Stack at stack
          simp
          omega
        · rfl
    · exact ⟨[], row, by simp [Rect.Stack], List.forall_mem_nil _, inside, by omega, rfl⟩

theorem refrRows_stuck (area : Rect) {y2 row : Int} (inside : row ≤ y2 + 1) (fuel : Nat)
    (s : Refresh) (rowLast : Int) : refrRows area y2 0 fuel s row rowLast = none := by
  induction fuel generalizing s rowLast with
  | zero => rfl
  | succ fuel ih =>
    rw [refrRows, if_pos (by omega), Int.add_zero]
    exact ih _ _

end Parts

section Area

variable {disp : Disp} {area : Rect}

/-- The rows of the area that are on the screen are all of them. -/
theorem lastRow_eq (inside : area.Inside disp.scrArea) :
    (if area.y2 ≥ lvDispGetVerRes disp then lvDispGetVerRes disp - 1 else area.y2) = area.y2 := by
  have bottom : area.y2 ≤ lvDispGetVerRes disp - 1 := inside.2.2.2
  rw [if_neg (by omega)]

theorem refrArea_spec (proper : area.Proper) (inside : area.Inside disp.scrArea) (s : Refresh)
    (wide : area.width ≤ s.drawBuf.size) {fuel : Nat} (enough : area.height < fuel) :
    ∃ parts, Rect.Stack area.x1 area.x2 area.y1 area.y2 parts ∧
      (∀ p ∈ parts, p.size ≤ s.drawBuf.size) ∧
      refrArea fuel disp s area = some (parts.foldl (refrPart area.y2) s) := by
  obtain ⟨cols, rows⟩ := proper
  have high : 0 < area.height := by unfold Rect.height; omega
  have across : 0 < area.width := by unfold Rect.width; omega
  have pos := (getMaxRow_pos across high).2 wide
  obtain ⟨less, fit⟩ := @getMaxRow_le s.drawBuf _ area.height across
  simp only [refrArea, lastRow_eq inside]
  generalize getMaxRow s.drawBuf area.width area.height = maxRow at *
  obtain ⟨parts, row', stack, fits, bottom, past, eq⟩ :=
    refrRows_spec area pos s area.y1 0 (show area.y1 ≤ area.y2 + 1 by omega)
      (show area.y2 + 1 - area.y1 < fuel by unfold Rect.height at enough; omega)
  have some : parts ≠ [] := by
    rintro rfl
    unfold Rect.Stack at stack
    unfold Rect.height at less
    omega
  have small : ∀ p : Rect, p.x1 = area.x1 → p.x2 = area.x2 → p.height ≤ maxRow →
      p.size ≤ s.drawBuf.size := by
    intro p left right low
    have same : p.width = area.width := by rw [Rect.width, left, right, Rect.width]
    rw [Rect.size, same]
    exact Int.le_trans (Int.mul_le_mul_of_nonneg_left low (Int.le_of_lt across)) fit
  have band : ∀ p ∈ parts, p.size ≤ s.drawBuf.size := fun p hp =>
    small p (stack.mem hp).1 (stack.mem hp).2.1 (fits p hp)
  rw [eq, if_neg some, Option.map_some]
  by_cases whole : area.y2 = row' - 1
  · rw [if_neg (not_not.2 whole)]
    exact ⟨parts, whole ▸ stack, band, rfl⟩
  · rw [if_pos whole]
    refine ⟨parts ++ [⟨area.x1, row', area.x2, area.y2⟩], stack.append ?_, ?_, ?_⟩
    · rw [Int.sub_add_cancel]
      exact Rect.Stack.single (by omega)
    · intro p hp
      obtain hp | hp := List.mem_append.1 hp
      · exact band p hp
      · obtain rfl := List.mem_singleton.1 hp
        exact small _ rfl rfl (by simp only [Rect.height]; omega)
    · rw [List.foldl_append]
      rfl

theorem refrArea_stuck (proper : area.Proper) (inside : area.Inside disp.scrArea) (s : Refresh)
    (narrow : s.drawBuf.size < area.width) (fuel : Nat) : refrArea fuel disp s area = none := by
  obtain ⟨cols, rows⟩ := proper
  have noRow : getMaxRow s.drawBuf area.width area.height = 0 := by
    have none := Int.ediv_eq_zero_of_lt (Int.natCast_nonneg s.drawBuf.size) narrow
    rw [getMaxRow, none, Int.min_eq_left]
    unfold Rect.height
    omega
  rw [refrArea, lastRow_eq inside, noRow, refrRows_stuck area (by omega)]
  rfl

end Area

section Flushes

variable {x1 x2 top y2 : Int} {parts : List Rect}

/-- The parts of an area are flushed in their order, and only the last one can
be the last of the refresh. -/
theorem foldl_refrPart (stack : Rect.Stack x1 x2 top y2 parts) (some : top ≤ y2) (s : Refresh)
    (fresh : s.drawBuf.lastPart = false) :
    ∃ init final, (parts.foldl (refrPart y2) s).flushes = s.flushes ++ (init ++ [final]) ∧
      (init ++ [final]).map Flush.area = parts ∧ (∀ f ∈ init, f.flushingLast = false) ∧
      final.flushingLast = s.drawBuf.lastArea ∧
      (parts.foldl (refrPart y2) s).drawBuf.size = s.drawBuf.size ∧
      (parts.foldl (refrPart y2) s).drawBuf.lastArea = s.drawBuf.lastArea := by
  induction parts generalizing top s with
  | nil =>
    unfold Rect.Stack at stack
    omega
  | cons p parts ih =>
    obtain ⟨⟨-, -, -, high⟩, below⟩ := stack
    have kept : (refrPart y2 s p).drawBuf.size = s.drawBuf.size ∧
        (refrPart y2 s p).drawBuf.lastArea = s.drawBuf.lastArea := by
      simp only [refrPart, drawBufFlush, DrawBuf.swap]
      split <;> exact ⟨rfl, rfl⟩
    have lastPart : (refrPart y2 s p).drawBuf.lastPart = (y2 == p.y2) := by
      simp only [refrPart, drawBufFlush, DrawBuf.swap, fresh]
      split <;> rfl
    cases parts with
    | nil =>
      have here : y2 = p.y2 := by
        unfold Rect.Stack at below
        omega
      refine ⟨[], ⟨p, s.drawBuf.bufAct, s.drawBuf.lastArea⟩, ?_, rfl, by simp, rfl, kept⟩
      simp [refrPart, drawBufFlush, here]
    | cons q parts =>
      have more := below.2.top_le
      have next : q.y1 = p.y2 + 1 ∧ p.y2 + 1 ≤ q.y2 := ⟨below.1.2.2.1, below.1.2.2.2⟩
      have before : (y2 == p.y2) = false := by
        rw [beq_eq_false_iff_ne]
        omega
      obtain ⟨init, final, flushes, areas, early, late, size, area⟩ :=
        ih below (by omega) (refrPart y2 s p) (lastPart.trans before)
      refine ⟨⟨p, s.drawBuf.bufAct, false⟩ :: init, final, ?_, by simp [← areas], ?_,
        late.trans kept.2, size.trans kept.1, area.trans kept.2⟩
      · rw [List.foldl_cons, flushes]
        simp [refrPart, drawBufFlush, before, fresh]
      · exact List.forall_mem_cons.2 ⟨rfl, early⟩

end Flushes

/-- An area is refreshed exactly when the draw buffer holds one row of it. The
parts are then disjoint, make up the area and fit in the buffer, and only the
last of them can be marked as the last of the refresh. -/
theorem refrArea_tiles {disp : Disp} {area : Rect} (proper : area.Proper)
    (inside : area.Inside disp.scrArea) (s : Refresh) (fresh : s.drawBuf.lastPart = false) :
    (s.drawBuf.size < area.width → ∀ fuel, refrArea fuel disp s area = none) ∧
    (area.width ≤ s.drawBuf.size → ∀ fuel : Nat, area.height < fuel →
      ∃ s' init final, refrArea fuel disp s area = some s' ∧
        s'.flushes = s.flushes ++ (init ++ [final]) ∧
        (∀ x y, Rect.Covers ((init ++ [final]).map Flush.area) x y ↔ area.Has x y) ∧
        (((init ++ [final]).map Flush.area).Pairwise fun p q => ∀ x y, p.Has x y → ¬ q.Has x y) ∧
        (∀ p ∈ (init ++ [final]).map Flush.area, 0 < p.size ∧ p.size ≤ s.drawBuf.size) ∧
        (∀ f ∈ init, f.flushingLast = false) ∧ final.flushingLast = s.drawBuf.lastArea) := by
  refine ⟨fun narrow fuel => refrArea_stuck proper inside s narrow fuel, fun wide fuel enough => ?_⟩
  obtain ⟨parts, stack, small, eq⟩ := refrArea_spec proper inside s wide enough
  obtain ⟨init, final, flushes, areas, early, late, -⟩ := foldl_refrPart stack proper.2 s fresh
  refine ⟨_, init, final, eq, flushes, ?_⟩
  rw [areas]
  refine ⟨fun x y => stack.covers_iff, stack.pairwise, fun p hp => ⟨?_, small p hp⟩, early, late⟩
  obtain ⟨left, right, -, high, -⟩ := stack.mem hp
  exact Rect.Proper.size_pos ⟨by rw [left, right]; exact proper.1, high⟩

def bspDrawBuf : DrawBuf := ⟨0x3c000000, none, 0x3c000000, 320 * 20, false, false, false⟩

theorem refrArea_tiles_screen :
    (bspDrawBuf.size < Rect.width ⟨0, 0, 319, 239⟩ → ∀ fuel,
      refrArea fuel (lvDispDrvRegister bspDisplayDrv) ⟨bspDrawBuf, []⟩ ⟨0, 0, 319, 239⟩ = none) ∧
    (Rect.width ⟨0, 0, 319, 239⟩ ≤ bspDrawBuf.size →
      ∀ fuel : Nat, Rect.height ⟨0, 0, 319, 239⟩ < fuel →
      ∃ s' init final, refrArea fuel (lvDispDrvRegister bspDisplayDrv) ⟨bspDrawBuf, []⟩
          ⟨0, 0, 319, 239⟩ = some s' ∧
        s'.flushes = [] ++ (init ++ [final]) ∧
        (∀ x y, Rect.Covers ((init ++ [final]).map Flush.area) x y ↔
          Rect.Has ⟨0, 0, 319, 239⟩ x y) ∧
        (((init ++ [final]).map Flush.area).Pairwise fun p q => ∀ x y, p.Has x y → ¬ q.Has x y) ∧
        (∀ p ∈ (init ++ [final]).map Flush.area, 0 < p.size ∧ p.size ≤ bspDrawBuf.size) ∧
        (∀ f ∈ init, f.flushingLast = false) ∧ final.flushingLast = bspDrawBuf.lastArea) :=
  refrArea_tiles (by decide) (by decide) ⟨bspDrawBuf, []⟩ rfl

section Areas

theorem lastUnjoined_spec {joined : Nat → Bool} {n i : Nat} (hi : i < n)
    (unjoined : joined i = false) :
    i ≤ lastUnjoined joined n ∧ lastUnjoined joined n < n ∧ joined (lastUnjoined joined n) = false := by
  induction n with
  | zero => omega
  | succ n ih =>
    rw [lastUnjoined]
    split_ifs with here
    · exact ⟨Nat.le_of_lt_succ hi, Nat.lt_succ_self n, here⟩
    · have other : i ≠ n := by
        rintro rfl
        exact here unjoined
      obtain ⟨below, inside, found⟩ := ih (by omega)
      exact ⟨below, Nat.lt_succ_of_lt inside, found⟩

/-- The areas below index `n` are drawn. -/
structure Drawn (disp : Disp) (cap n : Nat) (s : Refresh) : Prop where
  size : s.drawBuf.size = cap
  covers : ∀ x y, Rect.Covers (s.flushes.map Flush.area) x y ↔
    ∃ i < n, disp.invAreaJoined i = false ∧ (disp.invAreas i).Has x y
  fits : ∀ f ∈ s.flushes, f.area.Proper ∧ f.area.Inside disp.scrArea ∧ f.area.size ≤ cap
  early : n ≤ lastUnjoined disp.invAreaJoined disp.invP →
    s.drawBuf.lastArea = false ∧ ∀ f ∈ s.flushes, f.flushingLast = false
  late : lastUnjoined disp.invAreaJoined disp.invP < n →
    ∃ init final, s.flushes = init ++ [final] ∧ final.flushingLast = true ∧
      ∀ f ∈ init, f.flushingLast = false

variable {disp : Disp} {cap n fuel : Nat} {s : Refresh}

theorem height_scrArea (disp : Disp) : disp.scrArea.height ≤ 320 := by
  obtain ⟨right, bottom⟩ := disp.driver.small
  unfold bspLcdHRes at right bottom
  unfold Disp.scrArea lvDispGetVerRes Rect.height
  split <;> simp only <;> omega

theorem drawn_joined (h : Drawn disp cap n s) (joined : disp.invAreaJoined n = true)
    (undone : ∃ i < disp.invP, disp.invAreaJoined i = false) : Drawn disp cap (n + 1) s := by
  obtain ⟨i, used, unjoined⟩ := undone
  obtain ⟨-, -, found⟩ := lastUnjoined_spec used unjoined
  have other : lastUnjoined disp.invAreaJoined disp.invP ≠ n := by
    intro here
    rw [here, joined] at found
    exact absurd found (by decide)
  refine ⟨h.size, fun x y => ?_, h.fits, fun last => h.early (by omega),
    fun past => h.late (by omega)⟩
  rw [h.covers, Nat.exists_lt_succ_right, or_iff_left]
  rintro ⟨unjoined, -⟩
  exact absurd (joined.symm.trans unjoined) (by decide)

theorem drawn_unjoined (h : Drawn disp cap n s) (onScreen : disp.OnScreen) (used : n < disp.invP)
    (unjoined : disp.invAreaJoined n = false) (wide : disp.scrArea.width ≤ cap)
    (enough : 320 < fuel) :
    ∃ s', refrInvalidArea fuel disp s n = some s' ∧ Drawn disp cap (n + 1) s' := by
  obtain ⟨proper, inside⟩ := onScreen n used
  obtain ⟨here, -, -⟩ := lastUnjoined_spec used unjoined
  have narrow : (disp.invAreas n).width ≤ cap := by
    have : (disp.invAreas n).width ≤ disp.scrArea.width := by
      unfold Rect.Inside at inside
      unfold Rect.width
      omega
    omega
  have low : (disp.invAreas n).height < fuel := by
    have screen := height_scrArea disp
    have : (disp.invAreas n).height ≤ disp.scrArea.height := by
      unfold Rect.Inside at inside
      unfold Rect.height
      omega
    omega
  have notYet : s.drawBuf.lastArea = false := (h.early here).1
  have lastArea : (s.drawBuf.lastArea || n == lastUnjoined disp.invAreaJoined disp.invP) =
      (n == lastUnjoined disp.invAreaJoined disp.invP) := by
    rw [notYet, Bool.false_or]
  rw [refrInvalidArea, unjoined, if_neg (by decide)]
  simp only [lastArea]
  obtain ⟨parts, stack, small, eq⟩ := refrArea_spec proper inside
    (s.startArea (n == lastUnjoined disp.invAreaJoined disp.invP)) (h.size.symm ▸ narrow) low
  obtain ⟨init, final, flushes, areas, early, late, size, area⟩ :=
    foldl_refrPart stack proper.2 (s.startArea _) rfl
  rw [flushes_startArea] at flushes
  refine ⟨_, eq, size.trans h.size, fun x y => ?_, fun f hf => ?_, fun before => ?_, fun past => ?_⟩
  · rw [flushes, List.map_append, Rect.covers_append, areas, h.covers, stack.covers_iff,
      Nat.exists_lt_succ_right, and_iff_right unjoined]
  · rw [flushes] at hf
    obtain hf | hf := List.mem_append.1 hf
    · exact h.fits f hf
    · have mem : f.area ∈ parts := areas ▸ List.mem_map_of_mem hf
      obtain ⟨left, right, top, high, bottom⟩ := stack.mem mem
      unfold Rect.Proper at proper
      unfold Rect.Inside at inside
      exact ⟨⟨by omega, high⟩, ⟨by omega, by omega, by omega, by omega⟩, h.size ▸ small _ mem⟩
  · have other : (n == lastUnjoined disp.invAreaJoined disp.invP) = false := by
      rw [beq_eq_false_iff_ne]
      omega
    refine ⟨area.trans other, fun f hf => ?_⟩
    rw [flushes] at hf
    obtain hf | hf := List.mem_append.1 hf
    · exact (h.early here).2 f hf
    · obtain hf | hf := List.mem_append.1 hf
      · exact early f hf
      · obtain rfl := List.mem_singleton.1 hf
        exact late.trans other
  · have same : (n == lastUnjoined disp.invAreaJoined disp.invP) = true := by
      rw [beq_iff_eq]
      omega
    refine ⟨s.flushes ++ init, final, ?_, late.trans same, fun f hf => ?_⟩
    · rw [flushes, List.append_assoc]
    · obtain hf | hf := List.mem_append.1 hf
      · exact (h.early here).2 f hf
      · exact early f hf

theorem Drawn.step (h : Drawn disp cap n s) (onScreen : disp.OnScreen) (used : n < disp.invP)
    (undone : ∃ i < disp.invP, disp.invAreaJoined i = false) (wide : disp.scrArea.width ≤ cap)
    (enough : 320 < fuel) :
    ∃ s', refrInvalidArea fuel disp s n = some s' ∧ Drawn disp cap (n + 1) s' := by
  cases joined : disp.invAreaJoined n with
  | true => exact ⟨s, if_pos joined, drawn_joined h joined undone⟩
  | false => exact drawn_unjoined h onScreen used joined wide enough

theorem refrInvalidAreas_spec (onScreen : disp.OnScreen)
    (undone : ∃ i < disp.invP, disp.invAreaJoined i = false) (drawBuf : DrawBuf)
    (wide : disp.scrArea.width ≤ drawBuf.size) (enough : 320 < fuel) :
    ∃ s, refrInvalidAreas fuel disp drawBuf = some s ∧ Drawn disp drawBuf.size disp.invP s := by
  have all : ∀ n ≤ disp.invP, ∃ s, (List.range n).foldlM (refrInvalidArea fuel disp)
      ⟨{ drawBuf with lastArea := false, lastPart := false }, []⟩ = some s ∧
      Drawn disp drawBuf.size n s := by
    intro n hn
    induction n with
    | zero =>
      refine ⟨_, rfl, rfl, fun x y => ?_, List.forall_mem_nil _, fun _ => ⟨rfl, List.forall_mem_nil _⟩,
        fun past => absurd past (Nat.not_lt_zero _)⟩
      simp [Rect.not_covers_nil]
    | succ n ih =>
      obtain ⟨s, before, drawn⟩ := ih (Nat.le_of_succ_le hn)
      obtain ⟨s', next, drawn⟩ := drawn.step onScreen hn undone wide enough
      refine ⟨s', ?_, drawn⟩
      rw [List.range_succ, List.foldlM_append, before]
      simpa using next
  have used : disp.invP ≠ 0 := by
    obtain ⟨i, used, -⟩ := undone
    omega
  rw [refrInvalidAreas, if_neg used]
  exact all _ (Nat.le_refl _)

end Areas

end CameraBoard.Lvgl
