import CameraBoard.LvglInvalidAreas

/-! Joining the saved areas before a refresh. Areas that have a common part are
replaced by the rectangle around them where that makes fewer pixels to draw. -/
namespace CameraBoard.Lvgl

def lvAreaJoin (a1 a2 : Rect) : Rect := a1.hull a2

def lvAreaGetSize (area : Rect) : Int := area.size

/-- One pass of the inner loop of `lv_refr_join_area`. -/
def joinAreas (joinIn : Nat) (disp : Disp) (joinFrom : Nat) : Disp :=
  if disp.invAreaJoined joinFrom ∨ joinIn = joinFrom then disp
  else if lvAreaIsOn (disp.invAreas joinIn) (disp.invAreas joinFrom) = false then disp
  else
    let joinedArea := lvAreaJoin (disp.invAreas joinIn) (disp.invAreas joinFrom)
    if lvAreaGetSize joinedArea <
        lvAreaGetSize (disp.invAreas joinIn) + lvAreaGetSize (disp.invAreas joinFrom) then
      { disp with
        invAreas := Function.update disp.invAreas joinIn joinedArea
        invAreaJoined := Function.update disp.invAreaJoined joinFrom true }
    else disp

/-- One pass of the outer loop. -/
def joinAllIn (disp : Disp) (joinIn : Nat) : Disp :=
  if disp.invAreaJoined joinIn then disp
  else StepRun.run (joinAreas joinIn) disp (List.range disp.invP)

def lvRefrJoinArea (disp : Disp) : Disp := StepRun.run joinAllIn disp (List.range disp.invP)

/-- The pixels of the first `n` areas that are not joined into another. -/
def pixelsOf (areas : Nat → Rect) (joined : Nat → Bool) : Nat → Int
  | 0 => 0
  | n + 1 => pixelsOf areas joined n + if joined n then 0 else lvAreaGetSize (areas n)

/-- What the next refresh draws, `px_num` at its end. -/
def Disp.pxNum (disp : Disp) : Int := pixelsOf disp.invAreas disp.invAreaJoined disp.invP

/-- What joining makes of a display: all of its damage is kept, with no more
pixels to draw. -/
structure Disp.JoinedTo (disp d : Disp) : Prop where
  same : d.SameScreen disp
  invP : d.invP = disp.invP
  onScreen : d.OnScreen
  covers : ∀ x y, disp.Damaged x y → d.Damaged x y
  pixels : d.pxNum ≤ disp.pxNum
  timer : d.refrTimerPaused = disp.refrTimerPaused

theorem Disp.JoinedTo.refl {disp : Disp} (h : disp.OnScreen) : disp.JoinedTo disp :=
  ⟨⟨rfl, rfl, rfl⟩, rfl, h, fun _ _ => id, Int.le_refl _, rfl⟩

theorem Disp.JoinedTo.trans {disp d e : Disp} (one : disp.JoinedTo d) (two : d.JoinedTo e) :
    disp.JoinedTo e where
  same := ⟨two.same.driver.trans one.same.driver, two.same.invEnCnt.trans one.same.invEnCnt,
    two.same.rendering.trans one.same.rendering⟩
  invP := two.invP.trans one.invP
  onScreen := two.onScreen
  covers x y h := two.covers x y (one.covers x y h)
  pixels := two.pixels.trans one.pixels
  timer := two.timer.trans one.timer

section Pixels

variable {areas : Nat → Rect} {joined : Nat → Bool} {i n : Nat}

theorem pixelsOf_congr {areas' : Nat → Rect} {joined' : Nat → Bool}
    (same : ∀ j < n, areas j = areas' j ∧ joined j = joined' j) :
    pixelsOf areas joined n = pixelsOf areas' joined' n := by
  induction n with
  | zero => rfl
  | succ n ih =>
    obtain ⟨area, flag⟩ := same n (Nat.lt_succ_self n)
    rw [pixelsOf, pixelsOf, area, flag, ih fun j hj => same j (Nat.lt_succ_of_lt hj)]

theorem pixelsOf_update_area (hi : i < n) (unjoined : joined i = false) (area : Rect) :
    pixelsOf (Function.update areas i area) joined n =
      pixelsOf areas joined n - lvAreaGetSize (areas i) + lvAreaGetSize area := by
  induction n with
  | zero => omega
  | succ n ih =>
    obtain before | rfl := Nat.lt_succ_iff_lt_or_eq.1 hi
    · rw [pixelsOf, pixelsOf, ih before, Function.update_of_ne (Nat.ne_of_gt before)]
      omega
    · have rest : pixelsOf (Function.update areas i area) joined i = pixelsOf areas joined i :=
        pixelsOf_congr fun j hj => ⟨Function.update_of_ne (Nat.ne_of_lt hj) _ _, rfl⟩
      rw [pixelsOf, pixelsOf, rest, unjoined, Function.update_self]
      simp

theorem pixelsOf_update_joined (hi : i < n) (unjoined : joined i = false) :
    pixelsOf areas (Function.update joined i true) n =
      pixelsOf areas joined n - lvAreaGetSize (areas i) := by
  induction n with
  | zero => omega
  | succ n ih =>
    obtain before | rfl := Nat.lt_succ_iff_lt_or_eq.1 hi
    · rw [pixelsOf, pixelsOf, ih before, Function.update_of_ne (Nat.ne_of_gt before)]
      omega
    · have rest : pixelsOf areas (Function.update joined i true) i = pixelsOf areas joined i :=
        pixelsOf_congr fun j hj => ⟨rfl, Function.update_of_ne (Nat.ne_of_lt hj) _ _⟩
      rw [pixelsOf, pixelsOf, rest, unjoined, Function.update_self]
      simp

end Pixels

/-- The area that others are joined in stays in use itself. -/
theorem joinAreas_spec {disp : Disp} (h : disp.OnScreen) {joinIn joinFrom : Nat}
    (unjoined : disp.invAreaJoined joinIn = false) (inUse : joinIn < disp.invP)
    (fromUse : joinFrom < disp.invP) :
    disp.JoinedTo (joinAreas joinIn disp joinFrom) ∧
      (joinAreas joinIn disp joinFrom).invAreaJoined joinIn = false := by
  fun_cases joinAreas joinIn disp joinFrom with
  | case3 other on joinedArea smaller =>
    obtain ⟨source, differ⟩ := not_or.1 other
    have source : disp.invAreaJoined joinFrom = false := by simpa using source
    refine ⟨⟨⟨rfl, rfl, rfl⟩, rfl, fun i used => ?_, fun x y => ?_, ?_, rfl⟩, ?_⟩
    · by_cases here : i = joinIn
      · subst here
        simp only [Function.update_self]
        exact ⟨(h i inUse).1.hull, (h i inUse).2.hull (h joinFrom fromUse).2⟩
      · simp only [Function.update_of_ne here]
        exact h i used
    · rintro ⟨i, used, single, cell⟩
      by_cases here : i = joinIn ∨ i = joinFrom
      · refine ⟨joinIn, inUse, (Function.update_of_ne differ _ _).trans unjoined, ?_⟩
        simp only [Function.update_self]
        obtain rfl | rfl := here
        · exact cell.hull_left
        · exact cell.hull_right
      · obtain ⟨notIn, notFrom⟩ := not_or.1 here
        refine ⟨i, used, (Function.update_of_ne notFrom _ _).trans single, ?_⟩
        simpa only [Function.update_of_ne notIn] using cell
    · have still : Function.update disp.invAreas joinIn joinedArea joinFrom =
          disp.invAreas joinFrom := Function.update_of_ne (Ne.symm differ) _ _
      simp only [Disp.pxNum, pixelsOf_update_joined fromUse source,
        pixelsOf_update_area inUse unjoined, still]
      omega
    · exact (Function.update_of_ne differ _ _).trans unjoined
  | _ => exact ⟨Disp.JoinedTo.refl h, unjoined⟩

theorem joinAllIn_spec {disp : Disp} (h : disp.OnScreen) {joinIn : Nat}
    (inUse : joinIn < disp.invP) (some : ∃ i < disp.invP, disp.invAreaJoined i = false) :
    disp.JoinedTo (joinAllIn disp joinIn) ∧
      ∃ i < disp.invP, (joinAllIn disp joinIn).invAreaJoined i = false := by
  unfold joinAllIn
  split_ifs with joined
  · exact ⟨Disp.JoinedTo.refl h, some⟩
  · have unjoined : disp.invAreaJoined joinIn = false := by simpa using joined
    have all : StepRun.Along (joinAreas joinIn) (fun _ i => i < disp.invP) disp
        (List.range disp.invP) :=
      (StepRun.along_const _ _ _ _).2 fun i hi => List.mem_range.1 hi
    have keep : ∀ d i, disp.JoinedTo d ∧ d.invAreaJoined joinIn = false → i < disp.invP →
        disp.JoinedTo (joinAreas joinIn d i) ∧ (joinAreas joinIn d i).invAreaJoined joinIn = false := by
      rintro d i ⟨before, single⟩ used
      obtain ⟨step, single⟩ := joinAreas_spec before.onScreen single (before.invP ▸ inUse)
        (before.invP ▸ used)
      exact ⟨before.trans step, single⟩
    obtain ⟨joins, single⟩ := all.invariant keep ⟨Disp.JoinedTo.refl h, unjoined⟩
    exact ⟨joins, joinIn, inUse, single⟩

theorem lvRefrJoinArea_spec {disp : Disp} (h : disp.Tidy) (some : disp.invP ≠ 0) :
    disp.JoinedTo (lvRefrJoinArea disp) ∧
      ∃ i < disp.invP, (lvRefrJoinArea disp).invAreaJoined i = false := by
  have all : StepRun.Along joinAllIn (fun _ i => i < disp.invP) disp (List.range disp.invP) :=
    (StepRun.along_const _ _ _ _).2 fun i hi => List.mem_range.1 hi
  have keep : ∀ d i, (disp.JoinedTo d ∧ ∃ i < disp.invP, d.invAreaJoined i = false) →
      i < disp.invP →
      disp.JoinedTo (joinAllIn d i) ∧ ∃ j < disp.invP, (joinAllIn d i).invAreaJoined j = false := by
    rintro d i ⟨before, some⟩ used
    rw [← before.invP] at some used
    obtain ⟨step, some⟩ := joinAllIn_spec before.onScreen used some
    exact ⟨before.trans step, before.invP ▸ some⟩
  exact all.invariant keep
    ⟨Disp.JoinedTo.refl h.onScreen, 0, Nat.pos_of_ne_zero some, h.unjoined 0⟩

/-- Joining loses no damage, invents none outside of the screen, never makes
more pixels to draw and leaves something to draw. -/
theorem lvRefrJoinArea_damage {disp : Disp} (h : disp.Sound) (some : disp.invP ≠ 0) :
    (∀ x y, disp.Damaged x y → (lvRefrJoinArea disp).Damaged x y) ∧
    (∀ x y, (lvRefrJoinArea disp).Damaged x y → disp.scrArea.Has x y) ∧
    (lvRefrJoinArea disp).pxNum ≤ disp.pxNum ∧
    ∃ i < (lvRefrJoinArea disp).invP, (lvRefrJoinArea disp).invAreaJoined i = false := by
  obtain ⟨joins, i, used, single⟩ := lvRefrJoinArea_spec h.toTidy some
  refine ⟨joins.covers, fun x y damaged => ?_, joins.pixels, i, joins.invP ▸ used, single⟩
  rw [← joins.same.scrArea]
  exact damaged.scrArea joins.onScreen

/-- Two areas that overlap, a third that touches both and a fourth apart. -/
def overlapping : Disp :=
  lvInvAreas refreshedDisp [⟨0, 0, 99, 99⟩, ⟨10, 0, 119, 99⟩, ⟨90, 0, 129, 99⟩, ⟨200, 200, 209, 209⟩]

theorem lvRefrJoinArea_damage_overlapping :
    ((∀ x y, overlapping.Damaged x y → (lvRefrJoinArea overlapping).Damaged x y) ∧
      (∀ x y, (lvRefrJoinArea overlapping).Damaged x y → overlapping.scrArea.Has x y) ∧
      (lvRefrJoinArea overlapping).pxNum ≤ overlapping.pxNum ∧
      ∃ i < (lvRefrJoinArea overlapping).invP, (lvRefrJoinArea overlapping).invAreaJoined i = false) ∧
    overlapping.invP = 4 ∧ overlapping.pxNum = 25100 ∧ (lvRefrJoinArea overlapping).pxNum = 13100 ∧
    (lvRefrJoinArea overlapping).invAreas 0 = ⟨0, 0, 129, 99⟩ ∧
    (lvRefrJoinArea overlapping).invAreaJoined 1 = true ∧
    (lvRefrJoinArea overlapping).invAreaJoined 2 = true :=
  ⟨lvRefrJoinArea_damage (sound_lvInvAreas sound_refreshedDisp _) (by decide),
    by decide, by decide, by decide, by decide, by decide, by decide⟩

end CameraBoard.Lvgl
