import Mathlib.Data.List.GetD
import Mathlib.Tactic.Common

/-! A flat memory of cells and the sequences of cells it holds. Sequences that
are too long for one transfer are cut into spans of bounded length. -/
namespace Memory

variable {β : Type*}

/-- The `n` cells from `p` on. -/
def load (mem : Nat → β) (p n : Nat) : List β := (List.range n).map fun i => mem (p + i)

def store (mem : Nat → β) (p : Nat) (cells : List β) : Nat → β :=
  fun a => if p ≤ a then cells.getD (a - p) (mem a) else mem a

@[simp] theorem length_load (mem : Nat → β) (p n : Nat) : (load mem p n).length = n := by
  simp [load]

theorem load_add (mem : Nat → β) (p m n : Nat) :
    load mem p (m + n) = load mem p m ++ load mem (p + m) n := by
  simp [load, List.range_add, Function.comp_def, Nat.add_assoc]

theorem load_congr {mem mem' : Nat → β} {p n : Nat}
    (same : ∀ a, p ≤ a → a < p + n → mem a = mem' a) : load mem p n = load mem' p n := by
  refine List.map_congr_left fun i hi => same _ (Nat.le_add_right p i) ?_
  have := List.mem_range.1 hi
  omega

theorem store_inside (mem : Nat → β) (p : Nat) (cells : List β) (i : Nat) (hi : i < cells.length) :
    store mem p cells (p + i) = cells[i] := by
  simp [store, hi]

theorem store_outside (mem : Nat → β) (p : Nat) (cells : List β) (a : Nat)
    (away : a < p ∨ p + cells.length ≤ a) : store mem p cells a = mem a := by
  obtain before | behind := away
  · rw [store, if_neg (by omega)]
  · rw [store, if_pos (by omega), List.getD_eq_default _ _ (by omega)]

theorem load_store (mem : Nat → β) (p : Nat) (cells : List β) :
    load (store mem p cells) p cells.length = cells := by
  refine List.ext_getElem (by simp) fun i hi _ => ?_
  simp only [length_load] at hi
  simp [load, store_inside mem p cells i hi]

/-- Offsets and lengths of the spans that a transfer of `n` cells is cut into.
There is always at least one, and all but the last have the full length. -/
def spans (cap : Nat) (start n : Nat) : List (Nat × Nat) :=
  if _more : 0 < cap ∧ cap < n then (start, cap) :: spans cap (start + cap) (n - cap)
  else [(start, n)]
termination_by n
decreasing_by omega

section Spans

variable (cap start n : Nat)

theorem spans_of_le (short : n ≤ cap) : spans cap start n = [(start, n)] := by
  rw [spans, dif_neg (by omega)]

theorem mem_spans {s : Nat × Nat} (hs : s ∈ spans cap start n) :
    start ≤ s.1 ∧ s.1 + s.2 ≤ start + n := by
  fun_induction spans cap start n with
  | case1 start n more ih =>
    obtain rfl | hs := List.mem_cons.1 hs
    · exact ⟨Nat.le_refl _, by simp only; omega⟩
    · have := ih hs
      omega
  | case2 start n last =>
    obtain rfl := List.mem_singleton.1 hs
    exact ⟨Nat.le_refl _, Nat.le_refl _⟩

/-- The spans follow one another without a gap from the first cell to the last. -/
theorem flatMap_spans :
    (spans cap start n).flatMap (fun s => List.range' s.1 s.2) = List.range' start n := by
  fun_induction spans cap start n with
  | case1 start n more ih =>
    rw [List.flatMap_cons, ih, List.range'_append_1, Nat.add_sub_cancel' (Nat.le_of_lt more.2)]
  | case2 start n last => rw [List.flatMap_singleton]

/-- More than a full span is left at the start of every span but the last. -/
theorem spans_eq_concat (pos : 0 < cap) : ∃ init final, spans cap start n = init ++ [final] ∧
    (∀ s ∈ init, cap < start + n - s.1) ∧ start + n - final.1 ≤ cap := by
  fun_induction spans cap start n with
  | case1 start n more ih =>
    obtain ⟨init, final, eq, before, last⟩ := ih
    have whole : start + cap + (n - cap) = start + n := by omega
    rw [whole] at before last
    refine ⟨(start, cap) :: init, final, by rw [eq, List.cons_append], ?_, last⟩
    exact List.forall_mem_cons.2 ⟨by simp only; omega, before⟩
  | case2 start n last =>
    have short : start + n - start ≤ cap := by omega
    exact ⟨[], (start, n), rfl, List.forall_mem_nil _, short⟩

end Spans

end Memory
