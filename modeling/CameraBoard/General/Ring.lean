import Mathlib.Data.Nat.Basic
import Mathlib.Logic.Function.Basic
import Mathlib.Tactic.Common

/-! A stream stored in a ring of `n` buffers of `b` cells each, over and over.
A cell keeps its position of the stream until the stream has gone round. -/
namespace Ring

variable {β : Type*}

/-- The buffer and the cell in it that hold position `t` of the stream. -/
def place (n b t : Nat) : Nat × Nat := (t / b % n, t % b)

/-- Positions `lo` to `hi` of the stream are in the ring. -/
def Holds (n b : Nat) (ring : Nat × Nat → β) (stream : Nat → β) (lo hi : Nat) : Prop :=
  ∀ t, lo ≤ t → t < hi → ring (place n b t) = stream t

section Place

variable {n b : Nat}

theorem place_ne {s t : Nat} (before : s < t) (near : t < s + n * b) : place n b s ≠ place n b t := by
  intro same
  obtain ⟨buffer, cell⟩ := Prod.mk.inj same
  have whole := Nat.div_add_mod t b
  have part := Nat.div_add_mod s b
  have pos : 0 < n * b := by omega
  have round : s / b + n ≤ t / b := by
    have less : s / b < t / b := by
      by_contra le
      have := Nat.mul_le_mul_left b (Nat.not_lt.1 le)
      omega
    have gap : (t / b - s / b) % n = 0 := Nat.sub_mod_eq_zero_of_mod_eq buffer.symm
    have dvd := Nat.le_of_dvd (by omega) (Nat.dvd_of_mod_eq_zero gap)
    omega
  have far := Nat.mul_le_mul_left b round
  rw [Nat.mul_add, Nat.mul_comm b n] at far
  omega

theorem Holds.mono {ring : Nat × Nat → β} {stream : Nat → β} {lo lo' hi : Nat}
    (h : Holds n b ring stream lo hi) (later : lo ≤ lo') : Holds n b ring stream lo' hi :=
  fun t low high => h t (Nat.le_trans later low) high

/-- The next position is stored while the oldest that is still wanted is less
than a round behind. -/
theorem Holds.put {ring : Nat × Nat → β} {stream : Nat → β} {lo t : Nat}
    (h : Holds n b ring stream lo t) (room : t < lo + n * b) :
    Holds n b (Function.update ring (place n b t) (stream t)) stream lo (t + 1) := by
  intro s low high
  obtain before | rfl := Nat.lt_succ_iff_lt_or_eq.1 high
  · rw [Function.update_of_ne (place_ne before (by omega)), h s low before]
  · exact Function.update_self _ _ _

end Place

end Ring
