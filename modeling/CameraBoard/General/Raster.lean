import Mathlib.Data.List.GetD
import Mathlib.Data.List.Induction
import Mathlib.Tactic.Common

/-! Filling a rectangular window of a picture in row-major order, over an
arbitrary type of pixels. -/
namespace Raster

/-- A window by its first column and row, its width and its height. -/
structure Window where
  x0 : Nat
  y0 : Nat
  w : Nat
  h : Nat
  deriving DecidableEq, Repr

abbrev Picture (P : Type*) := Nat → Nat → P

def Window.Has (win : Window) (x y : Nat) : Prop :=
  win.x0 ≤ x ∧ x < win.x0 + win.w ∧ win.y0 ≤ y ∧ y < win.y0 + win.h

instance (win : Window) (x y : Nat) : Decidable (win.Has x y) := inferInstanceAs (Decidable (_ ∧ _))

def Window.index (win : Window) (x y : Nat) : Nat := (y - win.y0) * win.w + (x - win.x0)

/-- The cell that position `k` falls on, starting again behind the last. -/
def Window.cell (win : Window) (k : Nat) : Nat × Nat :=
  (win.x0 + k % win.w, win.y0 + k / win.w % win.h)

theorem Window.has_cell (win : Window) (wide : 0 < win.w) (high : 0 < win.h) (k : Nat) :
    win.Has (win.cell k).1 (win.cell k).2 := by
  have := Nat.mod_lt k wide
  have := Nat.mod_lt (k / win.w) high
  simp only [Has, cell]
  omega

theorem Window.cell_eq_iff (win : Window) {k : Nat} (hk : k < win.w * win.h) (x y : Nat) :
    win.cell k = (x, y) ↔ win.Has x y ∧ k = win.index x y := by
  have wide : 0 < win.w := Nat.pos_of_mul_pos_right (Nat.zero_lt_of_lt hk)
  have row : k / win.w < win.h := Nat.div_lt_of_lt_mul hk
  have split := Nat.div_add_mod k win.w
  have col := Nat.mod_lt k wide
  simp only [cell, Nat.mod_eq_of_lt row, Prod.mk.injEq, Has, index]
  constructor
  · rintro ⟨rfl, rfl⟩
    have := Nat.zero_le (k / win.w)
    refine ⟨by omega, ?_⟩
    rw [Nat.add_sub_cancel_left, Nat.add_sub_cancel_left, Nat.mul_comm]
    exact split.symm
  · rintro ⟨⟨left, right, top, bottom⟩, rfl⟩
    have inside : x - win.x0 < win.w := by omega
    rw [Nat.mul_add_mod_of_lt inside, Nat.mul_comm, Nat.mul_add_div wide,
      Nat.div_eq_of_lt inside]
    omega

theorem Window.index_lt (win : Window) {x y : Nat} (h : win.Has x y) :
    win.index x y < win.w * win.h := by
  obtain ⟨left, right, top, bottom⟩ := h
  have rows : (y - win.y0 + 1) * win.w ≤ win.h * win.w :=
    Nat.mul_le_mul_right _ (by omega)
  rw [Nat.add_mul, Nat.one_mul, Nat.mul_comm win.h] at rows
  rw [index]
  omega

variable {P : Type*}

def plot (pic : Picture P) (c : Nat × Nat) (p : P) : Picture P :=
  fun x y => if c = (x, y) then p else pic x y

/-- Writes the pixels to the cells from position `pos` on. -/
def fill (win : Window) (pos : Nat) : List P → Picture P → Picture P
  | [], pic => pic
  | p :: px, pic => fill win (pos + 1) px (plot pic (win.cell pos) p)

theorem fill_append (win : Window) (pos : Nat) (px qx : List P) (pic : Picture P) :
    fill win pos (px ++ qx) pic = fill win (pos + px.length) qx (fill win pos px pic) := by
  induction px generalizing pos pic with
  | nil => rfl
  | cons p px ih =>
    rw [List.cons_append, fill, ih, fill, List.length_cons]
    congr 1
    omega

/-- As many pixels as the window has at most: each cell that is reached gets
its own, everything else stays. -/
theorem fill_eq (win : Window) (px : List P) (fits : px.length ≤ win.w * win.h)
    (pic : Picture P) (x y : Nat) :
    fill win 0 px pic x y =
      if win.Has x y then px.getD (win.index x y) (pic x y) else pic x y := by
  induction px using List.reverseRecOn with
  | nil => simp [fill]
  | append_singleton px p ih =>
    rw [List.length_append, List.length_singleton] at fits
    have last : px.length < win.w * win.h := by omega
    rw [fill_append, fill, fill, Nat.zero_add, plot, ih (by omega)]
    simp only [win.cell_eq_iff last]
    by_cases inside : win.Has x y
    · simp only [inside, true_and, if_true]
      by_cases here : px.length = win.index x y
      · rw [if_pos here, ← here]
        simp
      · rw [if_neg here]
        by_cases before : win.index x y < px.length
        · rw [List.getD_append _ _ _ _ before]
        · rw [List.getD_eq_default _ _ (by omega), List.getD_eq_default _ _ (by simp; omega)]
    · simp [inside]

/-- The pixels of a picture in a window, row by row. -/
def scan (win : Window) (pic : Picture P) : List P :=
  (List.range (win.w * win.h)).map fun k => pic (win.cell k).1 (win.cell k).2

@[simp] theorem length_scan (win : Window) (pic : Picture P) :
    (scan win pic).length = win.w * win.h := by
  simp [scan]

/-- What is scanned from one picture and filled into another is copied. -/
theorem fill_scan (win : Window) (src pic : Picture P) (x y : Nat) :
    fill win 0 (scan win src) pic x y = if win.Has x y then src x y else pic x y := by
  rw [fill_eq win _ (Nat.le_of_eq (length_scan win src))]
  refine ite_congr rfl (fun inside => ?_) fun _ => rfl
  have before := win.index_lt inside
  have here : win.cell (win.index x y) = (x, y) := (win.cell_eq_iff before x y).2 ⟨inside, rfl⟩
  have inList : win.index x y < (scan win src).length := (length_scan win src).symm ▸ before
  rw [List.getD_eq_getElem _ _ inList]
  simp [scan, here]

theorem fill_replicate (win : Window) {n : Nat} (all : n = win.w * win.h) (p : P)
    (pic : Picture P) (x y : Nat) :
    fill win 0 (List.replicate n p) pic x y = if win.Has x y then p else pic x y := by
  rw [fill_eq win _ (by rw [List.length_replicate]; exact Nat.le_of_eq all)]
  refine ite_congr rfl (fun inside => ?_) fun _ => rfl
  exact List.getD_replicate _ (all ▸ win.index_lt inside)

end Raster
