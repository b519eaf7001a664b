import Mathlib.Data.List.Basic
import Mathlib.Data.List.Infix
import Mathlib.Data.List.Nodup
import Mathlib.Logic.Function.Basic
import Mathlib.Tactic.Common

/-! Parties that share one resource and use it in turns. Every party works
through a program of its own; the trace has the entries of all of them in the
order in which they came. -/
namespace Interleaving

variable {ι ε : Type*} [DecidableEq ι] {owner : ε → ι} {program pending : ι → List ε}
  {trace : List ε}

/-- Every party has its part of the trace behind it and the rest of its program
before it. -/
def Splits (owner : ε → ι) (program : ι → List ε) (trace : List ε) (pending : ι → List ε) : Prop :=
  ∀ i, trace.filter (fun e => owner e = i) ++ pending i = program i

theorem splits_start (owner : ε → ι) (program : ι → List ε) : Splits owner program [] program :=
  fun _ => rfl

namespace Splits

variable (h : Splits owner program trace pending)
include h

theorem mem_of_pending {i : ι} {e : ε} (he : e ∈ pending i) : e ∈ program i := by
  rw [← h i]
  exact List.mem_append_right _ he

theorem mem_of_trace {e : ε} (he : e ∈ trace) : e ∈ program (owner e) := by
  rw [← h (owner e)]
  exact List.mem_append_left _ (List.mem_filter.2 ⟨he, by simp⟩)

theorem advance {i : ι} {e : ε} {rest : List ε} (head : pending i = e :: rest)
    (own : owner e = i) : Splits owner program (trace ++ [e]) (Function.update pending i rest) := by
  intro j
  by_cases same : j = i
  · subst same
    simp [← h j, head, own]
  · have other : i ≠ j := Ne.symm same
    simp [← h j, Function.update_of_ne same, own, other]

theorem nodup (once : ∀ i, (program i).Nodup) : trace.Nodup := by
  classical
  rw [List.nodup_iff_count_le_one]
  intro e
  have part : trace.filter (fun e' => owner e' = owner e) <+: program (owner e) := ⟨_, h (owner e)⟩
  have bound := List.nodup_iff_count_le_one.1 ((once (owner e)).sublist part.sublist) e
  rwa [List.count_filter (by simp)] at bound

end Splits

/-- In a list without repetitions, what stands right before an entry somewhere
stands right before it. -/
theorem stands_right_before {l a b : List ε} {k : ε} (once : (a ++ k :: b).Nodup)
    (inside : l ++ [k] <:+: a ++ k :: b) : l <:+ a := by
  obtain ⟨x, y, eq⟩ := inside
  have split : (x ++ l) ++ k :: y = a ++ k :: b := by simpa using eq
  rw [← split] at once
  have left : k ∉ x ++ l := fun hk => List.disjoint_of_nodup_append once hk List.mem_cons_self
  have right : k ∉ y := (List.nodup_cons.1 once.of_append_right).1
  exact ⟨x, ((List.append_cons_inj_of_notMem left right).1 split).1⟩

end Interleaving
