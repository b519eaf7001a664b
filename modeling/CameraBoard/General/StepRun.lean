import Mathlib.Data.List.Basic
import Mathlib.Data.List.Infix
import Mathlib.Tactic.Common

/-! Runs of a deterministic step function over a finite list of inputs.
`Along` says that every step of a run satisfies a predicate on the state
before the step and the input of the step; `Always` says that every state the
run reaches satisfies a predicate. The rules below turn a fact about one step
into the same fact about whole runs. -/
namespace StepRun

variable {σ α : Type*}

def run (step : σ → α → σ) (s : σ) (as : List α) : σ := as.foldl step s

theorem run_cons (step : σ → α → σ) (s : σ) (a : α) (as : List α) :
    run step s (a :: as) = run step (step s a) as := rfl

theorem run_append (step : σ → α → σ) (s : σ) (as bs : List α) :
    run step s (as ++ bs) = run step (run step s as) bs := List.foldl_append

theorem run_snoc (step : σ → α → σ) (s : σ) (as : List α) (a : α) :
    run step s (as ++ [a]) = step (run step s as) a := by
  rw [run_append]
  rfl

/-- Every step of the run from `s` satisfies `P`. -/
def Along (step : σ → α → σ) (P : σ → α → Prop) : σ → List α → Prop
  | _, [] => True
  | s, a :: as => P s a ∧ Along step P (step s a) as

/-- Every state of the run from `s`, the first one included, satisfies `G`. -/
def Always (step : σ → α → σ) (G : σ → Prop) : σ → List α → Prop
  | s, [] => G s
  | s, a :: as => G s ∧ Always step G (step s a) as

instance Along.instDecidable (step : σ → α → σ) (P : σ → α → Prop)
    [∀ s a, Decidable (P s a)] : ∀ s as, Decidable (Along step P s as)
  | _, [] => .isTrue trivial
  | s, a :: as =>
    have := Along.instDecidable step P (step s a) as
    inferInstanceAs (Decidable (P s a ∧ Along step P (step s a) as))

instance Always.instDecidable (step : σ → α → σ) (G : σ → Prop)
    [∀ s, Decidable (G s)] : ∀ s as, Decidable (Always step G s as)
  | s, [] => inferInstanceAs (Decidable (G s))
  | s, a :: as =>
    have := Always.instDecidable step G (step s a) as
    inferInstanceAs (Decidable (G s ∧ Always step G (step s a) as))

theorem Always.last {step : σ → α → σ} {G : σ → Prop} {s : σ} {as : List α}
    (h : Always step G s as) : G (run step s as) := by
  induction as generalizing s with
  | nil => exact h
  | cons a as ih => exact ih h.2

theorem Always.imp {step : σ → α → σ} {G H : σ → Prop} (weaken : ∀ s, G s → H s) {s : σ}
    {as : List α} (h : Always step G s as) : Always step H s as := by
  induction as generalizing s with
  | nil => exact weaken s h
  | cons a as ih => exact ⟨weaken s h.1, ih h.2⟩

theorem always_iff_along (step : σ → α → σ) (G : σ → Prop) (s : σ) (as : List α) :
    Always step G s as ↔ G s ∧ Along step (fun s a => G (step s a)) s as := by
  induction as generalizing s with
  | nil => simp [Always, Along]
  | cons a as ih => simp only [Always, Along, ih]

theorem along_const (step : σ → α → σ) (Q : α → Prop) (s : σ) (as : List α) :
    Along step (fun _ a => Q a) s as ↔ ∀ a ∈ as, Q a := by
  induction as generalizing s with
  | nil => simp [Along]
  | cons a as ih => simp [Along, ih]

theorem along_append (step : σ → α → σ) (P : σ → α → Prop) (s : σ) (as bs : List α) :
    Along step P s (as ++ bs) ↔ Along step P s as ∧ Along step P (run step s as) bs := by
  induction as generalizing s with
  | nil => exact (and_iff_right trivial).symm
  | cons a as ih => simp only [List.cons_append, Along, run_cons, ih, and_assoc]

theorem along_of_forall {step : σ → α → σ} {P : σ → α → Prop} {as : List α}
    (all : ∀ s, ∀ a ∈ as, P s a) (s : σ) : Along step P s as := by
  induction as generalizing s with
  | nil => trivial
  | cons a as ih =>
    exact ⟨all s a List.mem_cons_self, ih (fun s b hb => all s b (List.mem_cons_of_mem a hb)) _⟩

section Map

variable {β : Type*} {f : α → β} {step : σ → β → σ}

/-- A step on translated inputs runs as the step itself on the translation. -/
theorem run_map (s : σ) (as : List α) :
    run (fun s a => step s (f a)) s as = run step s (as.map f) := List.foldl_map.symm

theorem along_map {P : σ → β → Prop} (s : σ) (as : List α) :
    Along (fun s a => step s (f a)) (fun s a => P s (f a)) s as ↔ Along step P s (as.map f) := by
  induction as generalizing s with
  | nil => rfl
  | cons a as ih => exact and_congr_right fun _ => ih (step s (f a))

end Map

section Invariant

variable {step : σ → α → σ} {P Q : σ → α → Prop} {I : σ → Prop}

/-- An invariant kept by every step that satisfies `P` holds at the end of
every run whose steps all satisfy `P`. -/
theorem Along.invariant (keep : ∀ s a, I s → P s a → I (step s a)) {s : σ} {as : List α}
    (start : I s) (h : Along step P s as) : I (run step s as) := by
  induction as generalizing s with
  | nil => exact start
  | cons a as ih => exact ih (keep s a start h.1) h.2

theorem always_of_step (keep : ∀ s a, I s → I (step s a)) {s : σ} (start : I s)
    (as : List α) : Always step I s as := by
  induction as generalizing s with
  | nil => exact start
  | cons a as ih => exact ⟨start, ih (keep s a start)⟩

theorem run_of_step (keep : ∀ s a, I s → I (step s a)) {s : σ} (start : I s)
    (as : List α) : I (run step s as) :=
  (always_of_step keep start as).last

theorem Along.mono (weaken : ∀ s a, I s → P s a → Q s a)
    (keep : ∀ s a, I s → P s a → I (step s a)) {s : σ} {as : List α}
    (start : I s) (h : Along step P s as) : Along step Q s as := by
  induction as generalizing s with
  | nil => trivial
  | cons a as ih => exact ⟨weaken s a start h.1, ih (keep s a start h.1) h.2⟩

/-- Two step predicates that agree under an invariant agree along runs. -/
theorem along_congr (keep : ∀ s a, I s → P s a → I (step s a))
    (same : ∀ s a, I s → (P s a ↔ Q s a)) {s : σ} (start : I s) (as : List α) :
    Along step P s as ↔ Along step Q s as := by
  constructor
  · exact Along.mono (fun s a hI hP => (same s a hI).1 hP) keep start
  · exact Along.mono (fun s a hI hQ => (same s a hI).2 hQ)
      (fun s a hI hQ => keep s a hI ((same s a hI).2 hQ)) start

/-- When the invariant is what the run is asked to keep, keeping it everywhere
is the same as meeting the step condition everywhere. -/
theorem always_iff_along_of_step (same : ∀ s a, I s → (I (step s a) ↔ Q s a)) {s : σ}
    (start : I s) (as : List α) : Always step I s as ↔ Along step Q s as := by
  rw [always_iff_along, and_iff_right start]
  exact @along_congr σ α step (fun s a => I (step s a)) Q I (fun _ _ _ h => h) same s start as

end Invariant

end StepRun
