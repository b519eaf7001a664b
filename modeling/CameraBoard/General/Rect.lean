import Mathlib.Data.Int.Order.Lemmas
import Mathlib.Tactic.Common
import Mathlib.Tactic.Ring

/-! Rectangles of cells, both corners included: intersection and hull, what a
list of them covers, and stacks of bands that cut a rectangle from top to
bottom. -/

structure Rect where
  x1 : Int
  y1 : Int
  x2 : Int
  y2 : Int
  deriving DecidableEq, Repr

namespace Rect

def Has (r : Rect) (x y : Int) : Prop := r.x1 ≤ x ∧ x ≤ r.x2 ∧ r.y1 ≤ y ∧ y ≤ r.y2

instance (r : Rect) (x y : Int) : Decidable (r.Has x y) := inferInstanceAs (Decidable (_ ∧ _))

/-- There is a cell in it. -/
def Proper (r : Rect) : Prop := r.x1 ≤ r.x2 ∧ r.y1 ≤ r.y2

instance (r : Rect) : Decidable r.Proper := inferInstanceAs (Decidable (_ ∧ _))

def Inside (r s : Rect) : Prop := s.x1 ≤ r.x1 ∧ s.y1 ≤ r.y1 ∧ r.x2 ≤ s.x2 ∧ r.y2 ≤ s.y2

instance (r s : Rect) : Decidable (r.Inside s) := inferInstanceAs (Decidable (_ ∧ _))

def inter (r s : Rect) : Rect := ⟨max r.x1 s.x1, max r.y1 s.y1, min r.x2 s.x2, min r.y2 s.y2⟩

/-- The smallest rectangle around both. -/
def hull (r s : Rect) : Rect := ⟨min r.x1 s.x1, min r.y1 s.y1, max r.x2 s.x2, max r.y2 s.y2⟩

def width (r : Rect) : Int := r.x2 - r.x1 + 1

def height (r : Rect) : Int := r.y2 - r.y1 + 1

def size (r : Rect) : Int := r.width * r.height

variable {r s t : Rect} {x y : Int}

theorem Has.proper (h : r.Has x y) : r.Proper := by
  obtain ⟨left, right, top, bottom⟩ := h
  exact ⟨by omega, by omega⟩

theorem Inside.refl (r : Rect) : r.Inside r :=
  ⟨Int.le_refl _, Int.le_refl _, Int.le_refl _, Int.le_refl _⟩

theorem Inside.has (h : r.Inside s) (cell : r.Has x y) : s.Has x y := by
  unfold Inside at h
  unfold Has at *
  omega

theorem has_inter : (r.inter s).Has x y ↔ r.Has x y ∧ s.Has x y := by
  simp only [Has, inter]
  omega

theorem inter_inside_right : (r.inter s).Inside s := by
  simp only [Inside, inter]
  omega

theorem Has.hull_left (h : r.Has x y) : (r.hull s).Has x y := by
  simp only [Has, hull] at *
  omega

theorem Has.hull_right (h : s.Has x y) : (r.hull s).Has x y := by
  simp only [Has, hull] at *
  omega

theorem Proper.hull (h : r.Proper) : (r.hull s).Proper := by
  simp only [Proper, Rect.hull] at *
  omega

theorem Inside.hull (left : r.Inside t) (right : s.Inside t) : (r.hull s).Inside t := by
  simp only [Inside, Rect.hull] at *
  omega

theorem Proper.size_pos (h : r.Proper) : 0 < r.size := by
  obtain ⟨cols, rows⟩ := h
  exact Int.mul_pos (by unfold width; omega) (by unfold height; omega)

section Cover

variable {rs : List Rect}

/-- Some rectangle of the list has the cell. -/
def Covers (rs : List Rect) (x y : Int) : Prop := ∃ r ∈ rs, r.Has x y

instance (rs : List Rect) (x y : Int) : Decidable (Covers rs x y) :=
  inferInstanceAs (Decidable (∃ r ∈ rs, r.Has x y))

theorem not_covers_nil : ¬ Covers [] x y := by simp [Covers]

theorem covers_cons : Covers (r :: rs) x y ↔ r.Has x y ∨ Covers rs x y := by
  simp [Covers]

theorem covers_append (rs ss : List Rect) :
    Covers (rs ++ ss) x y ↔ Covers rs x y ∨ Covers ss x y := by
  simp [Covers, or_and_right, exists_or]

end Cover

section Stack

/-- Bands over the same columns, each one right below the one before, from row
`top` to row `bottom`. -/
def Stack (x1 x2 : Int) : Int → Int → List Rect → Prop
  | top, bottom, [] => top = bottom + 1
  | top, bottom, r :: rs =>
    (r.x1 = x1 ∧ r.x2 = x2 ∧ r.y1 = top ∧ top ≤ r.y2) ∧ Stack x1 x2 (r.y2 + 1) bottom rs

variable {x1 x2 top middle bottom : Int} {rs ss : List Rect}

theorem Stack.top_le (h : Stack x1 x2 top bottom rs) : top ≤ bottom + 1 := by
  induction rs generalizing top with
  | nil => exact Int.le_of_eq h
  | cons r rs ih =>
    obtain ⟨⟨-, -, -, high⟩, below⟩ := h
    have := ih below
    omega

theorem Stack.append (above : Stack x1 x2 top middle rs)
    (below : Stack x1 x2 (middle + 1) bottom ss) : Stack x1 x2 top bottom (rs ++ ss) := by
  induction rs generalizing top with
  | nil =>
    unfold Stack at above
    exact above ▸ below
  | cons r rs ih => exact ⟨above.1, ih above.2⟩

theorem Stack.single (h : top ≤ bottom) : Stack x1 x2 top bottom [⟨x1, top, x2, bottom⟩] :=
  ⟨⟨rfl, rfl, rfl, h⟩, rfl⟩

theorem Stack.covers_iff (h : Stack x1 x2 top bottom rs) :
    Covers rs x y ↔ Rect.Has ⟨x1, top, x2, bottom⟩ x y := by
  induction rs generalizing top with
  | nil =>
    unfold Stack at h
    simp only [not_covers_nil, Has, false_iff]
    omega
  | cons r rs ih =>
    obtain ⟨⟨rfl, rfl, rfl, high⟩, below⟩ := h
    have := below.top_le
    rw [covers_cons, ih below]
    unfold Has
    simp only
    omega

theorem Stack.mem (h : Stack x1 x2 top bottom rs) (hr : r ∈ rs) :
    r.x1 = x1 ∧ r.x2 = x2 ∧ top ≤ r.y1 ∧ r.y1 ≤ r.y2 ∧ r.y2 ≤ bottom := by
  induction rs generalizing top with
  | nil => exact absurd hr List.not_mem_nil
  | cons q rs ih =>
    obtain ⟨⟨left, right, first, high⟩, below⟩ := h
    have deep := below.top_le
    obtain rfl | hr := List.mem_cons.1 hr
    · exact ⟨left, right, Int.le_of_eq first.symm, by omega, by omega⟩
    · obtain ⟨left, right, under, proper, inside⟩ := ih below hr
      exact ⟨left, right, by omega, proper, inside⟩

/-- No cell is in two bands. -/
theorem Stack.pairwise (h : Stack x1 x2 top bottom rs) :
    rs.Pairwise fun r s => ∀ x y, r.Has x y → ¬ s.Has x y := by
  induction rs generalizing top with
  | nil => exact List.Pairwise.nil
  | cons r rs ih =>
    refine List.pairwise_cons.2 ⟨fun s hs x y here there => ?_, ih h.2⟩
    obtain ⟨-, -, under, -⟩ := h.2.mem hs
    unfold Has at here there
    omega

end Stack

end Rect
