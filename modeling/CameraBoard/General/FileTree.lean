import CameraBoard.General.StepRun
import Mathlib.Logic.Function.Basic

/-! A tree of directories and files over any type of components and contents.
A path is the list of its components and the empty path is the root. -/
namespace FileTree
open StepRun

variable {κ β : Type*}

inductive Node (β : Type*) where
  | directory
  | file (content : β)
  deriving DecidableEq, Repr

/-- Whatever exists stands in a directory. -/
structure Tree (κ β : Type*) where
  node : List κ → Option (Node β)
  root : node [] = some .directory
  parent : ∀ p c, node (p ++ [c]) ≠ none → node p = some .directory

instance : ∀ n : Option (Node β), Decidable (n = some .directory)
  | some .directory => .isTrue rfl
  | some (.file _) => .isFalse nofun
  | none => .isFalse nofun

instance : ∀ n : Option (Node β), Decidable (n = none)
  | some _ => .isFalse nofun
  | none => .isTrue rfl

/-- A file may be written here: the directory around it is there and it is not
a directory itself. -/
structure Tree.Free (t : Tree κ β) (p : List κ) : Prop where
  around : t.node p.dropLast = some .directory
  noDirectory : t.node p ≠ some .directory

instance (t : Tree κ β) (p : List κ) : Decidable (t.Free p) :=
  decidable_of_iff (t.node p.dropLast = some .directory ∧ t.node p ≠ some .directory)
    ⟨fun h => ⟨h.1, h.2⟩, fun h => ⟨h.1, h.2⟩⟩

/-- Everything above an existing path is a directory. -/
theorem Tree.above (t : Tree κ β) {p q : List κ} (below : p <+: q) (strict : p ≠ q)
    (there : t.node q ≠ none) : t.node p = some .directory := by
  induction q using List.reverseRecOn with
  | nil => exact absurd (List.prefix_nil.1 below) strict
  | append_singleton q c ih =>
    have outer : t.node q = some .directory := t.parent q c there
    obtain rfl | inner := List.prefix_concat_iff.1 below
    · exact absurd rfl strict
    · by_cases same : p = q
      · rw [same, outer]
      · exact ih inner same (by simp [outer])

theorem Tree.there_above (t : Tree κ β) {p q : List κ} (below : p <+: q)
    (there : t.node q ≠ none) : t.node p ≠ none := by
  by_cases same : p = q
  · rwa [same]
  · simp [t.above below same there]

theorem Tree.directory (t : Tree κ β) {p : List κ} (there : t.node p ≠ none)
    (noFile : ∀ content, t.node p ≠ some (.file content)) : t.node p = some .directory := by
  cases stands : t.node p with
  | none => exact absurd stands there
  | some n =>
    cases n with
    | directory => rfl
    | file content => exact absurd stands (noFile content)

/-- Where a file is, one may be written. -/
theorem Tree.free_of_file {t : Tree κ β} {p : List κ} {content : β}
    (there : t.node p = some (.file content)) : t.Free p := by
  have inside : p ≠ [] := by
    rintro rfl
    rw [t.root] at there
    cases there
  have shorter : p.dropLast ≠ p := by
    intro same
    have length := congrArg List.length same
    have positive := List.length_pos_iff.2 inside
    rw [List.length_dropLast] at length
    omega
  exact ⟨t.above p.dropLast_prefix shorter (by simp [there]), by simp [there]⟩

/-- Only the root. -/
def Tree.bare : Tree κ β where
  node
    | [] => some .directory
    | _ :: _ => none
  root := rfl
  parent p c there := by cases p <;> exact absurd rfl there

/-- One file and the directories above it. -/
def Tree.single [DecidableEq κ] (p : List κ) (inside : p ≠ []) (content : β) : Tree κ β where
  node q := if q = p then some (.file content) else if q <+: p then some .directory else none
  root := by simp [inside.symm]
  parent q c there := by
    have below : q ++ [c] <+: p := by
      by_contra outside
      have other : q ++ [c] ≠ p := fun same => outside (same ▸ List.prefix_rfl)
      simp [other, outside] at there
    have other : q ≠ p := by
      rintro rfl
      have length := below.length_le
      rw [List.length_append, List.length_singleton] at length
      omega
    rw [if_neg other, if_pos ((List.prefix_append q [c]).trans below)]

section Update

variable [DecidableEq κ]

def Tree.put (t : Tree κ β) (p : List κ) (n : Node β) (free : t.Free p) : Tree κ β where
  node := Function.update t.node p (some n)
  root := by
    have inside : [] ≠ p := fun h => free.noDirectory (h ▸ t.root)
    rw [Function.update_of_ne inside, t.root]
  parent q c there := by
    have old : t.node q = some .directory := by
      by_cases same : q ++ [c] = p
      · simpa [← same] using free.around
      · rw [Function.update_of_ne same] at there
        exact t.parent q c there
    have other : q ≠ p := fun h => free.noDirectory (h ▸ old)
    rw [Function.update_of_ne other, old]

/-- Makes a directory where nothing stands yet, and does nothing elsewhere. -/
def Tree.mkdir (t : Tree κ β) (p : List κ) : Tree κ β :=
  if h : t.node p = none ∧ t.node p.dropLast = some .directory then
    t.put p .directory ⟨h.2, by simp [h.1]⟩
  else t

/-- Makes or replaces a file where one may be written. -/
def Tree.store (t : Tree κ β) (p : List κ) (content : β) : Tree κ β :=
  if h : t.Free p then t.put p (.file content) h else t

theorem Tree.mkdir_node (t : Tree κ β) (p q : List κ) :
    (t.mkdir p).node q =
      if q = p ∧ t.node p = none ∧ t.node p.dropLast = some .directory then some .directory
      else t.node q := by
  by_cases h : t.node p = none ∧ t.node p.dropLast = some .directory
  · simp only [Tree.mkdir, h, and_self, dite_true, and_true]
    exact Function.update_apply t.node p (some .directory) q
  · simp [Tree.mkdir, h]

theorem Tree.mkdir_exists {t : Tree κ β} {p : List κ} (there : t.node p ≠ none) :
    t.mkdir p = t := by
  simp [Tree.mkdir, there]

theorem Tree.mkdir_kept {t : Tree κ β} {p q : List κ} {n : Node β} (there : t.node q = some n) :
    (t.mkdir p).node q = some n := by
  rw [Tree.mkdir_node, if_neg, there]
  rintro ⟨rfl, missing, -⟩
  rw [there] at missing
  cases missing

theorem Tree.mkdir_made {t : Tree κ β} {p : List κ} {c : κ}
    (outer : t.node p = some .directory) : (t.mkdir (p ++ [c])).node (p ++ [c]) ≠ none := by
  rw [Tree.mkdir_node]
  split
  · exact nofun
  · rename_i blocked
    simpa [outer] using blocked

theorem Tree.store_node {t : Tree κ β} {p : List κ} (free : t.Free p) (content : β)
    (q : List κ) :
    (t.store p content).node q = if q = p then some (.file content) else t.node q := by
  simp only [Tree.store, free, dite_true]
  exact Function.update_apply t.node p (some (.file content)) q

theorem Tree.store_same {t : Tree κ β} {p : List κ} (free : t.Free p) (content : β) :
    (t.store p content).node p = some (.file content) := by
  rw [Tree.store_node free, if_pos rfl]

end Update

/-- No directory on the way to the goal is blocked by a file. -/
def Clear (t : Tree κ β) (goal : List κ) : Prop :=
  ∀ q, q <+: goal → q ≠ goal → ∀ content, t.node q ≠ some (.file content)

theorem Clear.directory {t : Tree κ β} {goal : List κ} (clear : Clear t goal) {q : List κ} (below : q <+: goal)
    (strict : q ≠ goal) (there : t.node q ≠ none) : t.node q = some .directory :=
  t.directory there (clear q below strict)

theorem Clear.mkdir [DecidableEq κ] {t : Tree κ β} {goal : List κ} (clear : Clear t goal)
    (p : List κ) : Clear (t.mkdir p) goal := by
  intro q below strict content
  rw [Tree.mkdir_node]
  split
  · exact nofun
  · exact clear q below strict content

/-- Each path is the one before it or one component longer, up to the goal. -/
inductive Climb : List κ → List (List κ) → List κ → Prop
  | done (p : List κ) : Climb p [] p
  | stay {p : List κ} {calls : List (List κ)} {goal : List κ} :
      Climb p calls goal → Climb p (p :: calls) goal
  | up {p : List κ} {c : κ} {calls : List (List κ)} {goal : List κ} :
      Climb (p ++ [c]) calls goal → Climb p ((p ++ [c]) :: calls) goal

namespace Climb

variable {p goal : List κ} {calls : List (List κ)}

theorem toward (h : Climb p calls goal) : p <+: goal := by
  induction h with
  | done p => exact List.prefix_rfl
  | stay _ ih => exact ih
  | @up p c _ _ _ ih => exact (List.prefix_append p [c]).trans ih

theorem strictly {c : κ} (h : Climb (p ++ [c]) calls goal) : p ≠ goal := by
  intro same
  have long := h.toward.length_le
  rw [same, List.length_append] at long
  exact Nat.not_succ_le_self _ long

variable [DecidableEq κ]

/-- Making the directories of a climb one after the other adds the missing
ones up to the goal and nothing else. -/
theorem node_run {t : Tree κ β} (h : Climb p calls goal) (clear : Clear t goal)
    (start : t.node p ≠ none) (q : List κ) :
    (run Tree.mkdir t calls).node q =
      if q <+: goal ∧ t.node q = none then some .directory else t.node q := by
  induction h generalizing t with
  | done p =>
    have none_missing : ¬(q <+: p ∧ t.node q = none) :=
      fun missing => t.there_above missing.1 start missing.2
    rw [if_neg none_missing]
    rfl
  | stay h ih => rw [run_cons, Tree.mkdir_exists start, ih clear start]
  | @up p c calls goal h ih =>
    have outer : t.node p = some .directory :=
      clear.directory ((List.prefix_append p [c]).trans h.toward) h.strictly start
    rw [run_cons, ih (clear.mkdir _) (Tree.mkdir_made outer), Tree.mkdir_node, List.dropLast_concat]
    by_cases here : q = p ++ [c]
    · subst here
      by_cases missing : t.node (p ++ [c]) = none <;> simp [missing, outer, h.toward]
    · simp [here]

/-- Each directory is made inside one that exists by then. -/
theorem parents_first {t : Tree κ β} (h : Climb p calls goal) (clear : Clear t goal)
    (start : t.node p ≠ none) :
    Along Tree.mkdir (fun t q => t.node q.dropLast = some .directory) t calls := by
  induction h generalizing t with
  | done p => trivial
  | @stay p calls goal h ih =>
    refine ⟨?_, by simpa [Tree.mkdir_exists start] using ih clear start⟩
    obtain rfl | ⟨q, c, rfl⟩ := p.eq_nil_or_concat
    · exact t.root
    · rw [List.concat_eq_append, List.dropLast_concat]
      exact t.parent q c (by simpa using start)
  | @up p c calls goal h ih =>
    have outer : t.node p = some .directory :=
      clear.directory ((List.prefix_append p [c]).trans h.toward) h.strictly start
    exact ⟨by simpa using outer, ih (clear.mkdir _) (Tree.mkdir_made outer)⟩

end Climb

end FileTree
