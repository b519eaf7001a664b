import CameraBoard.General.FileTree

/-! Textual paths: components between separators, the empty ones ignored, and
the prefixes of a text that end before a separator. -/
namespace Paths
open FileTree

variable {α κ : Type*} [DecidableEq α] {sep : α}

def components (sep : α) (text : List α) : List (List α) := (text.splitOn sep).filter (· ≠ [])

theorem components_split (a b : List α) :
    components sep (a ++ sep :: b) = components sep a ++ components sep b := by
  rw [components, List.splitOn_append_cons_self, List.filter_append]
  rfl

theorem components_nil : components sep [] = [] := by
  simp [components]

theorem components_single {w : List α} (free : sep ∉ w) :
    components sep w = if w = [] then [] else [w] := by
  by_cases empty : w = [] <;> simp [components, List.splitOn_eq_singleton free, empty]

@[simp] theorem components_trailing (a : List α) :
    components sep (a ++ [sep]) = components sep a := by
  rw [components_split, components_nil, List.append_nil]

/-- The components hold every character but the separators. -/
theorem flatten_components (text : List α) :
    (components sep text).flatten = text.filter (· ≠ sep) := by
  have pieces (text : List α) : (text.splitOn sep).flatten = text.filter (· ≠ sep) := by
    induction text with
    | nil => simp
    | cons c text ih =>
      obtain ⟨piece, more, split⟩ := List.exists_cons_of_ne_nil (List.splitOn_ne_nil sep text)
      rw [split] at ih
      by_cases same : c = sep <;> simp_all [List.splitOn_cons_eq_if_modifyHead]
  rw [← pieces, components, List.flatten_filter_ne_nil]

/-- Only separators can follow a text without changing its components. -/
theorem components_append_iff (a b : List α) :
    components sep (a ++ b) = components sep a ↔ ∀ c ∈ b, c = sep := by
  constructor
  · intro same c inside
    have letters := congrArg List.flatten same
    rw [flatten_components, flatten_components, List.filter_append,
      List.append_right_eq_self] at letters
    simpa using List.filter_eq_nil_iff.1 letters c inside
  · intro separators
    induction b using List.reverseRecOn with
    | nil => rw [List.append_nil]
    | append_singleton b c ih =>
      obtain rfl : c = sep := separators c (by simp)
      rw [← List.append_assoc, components_trailing]
      exact ih fun d inside => separators d (by simp [inside])

/-- The prefixes of `seen ++ rest` that end before a separator in `rest`. -/
def cuts (sep : α) : List α → List α → List (List α)
  | _, [] => []
  | seen, c :: rest =>
    if c = sep then seen :: cuts sep (seen ++ [c]) rest else cuts sep (seen ++ [c]) rest

/-- The cuts by position. -/
theorem cuts_eq_filter (seen rest : List α) :
    ((List.range' seen.length rest.length).filter
        fun i => (seen ++ rest)[i]? = some sep).map (seen ++ rest).take = cuts sep seen rest := by
  induction rest generalizing seen with
  | nil => rfl
  | cons c rest ih =>
    have later := ih (seen ++ [c])
    simp only [List.append_assoc, List.singleton_append, List.length_append,
      List.length_singleton] at later
    by_cases same : c = sep
    · subst same
      simp [List.range'_succ, cuts, ← later]
    · simp [List.range'_succ, cuts, same, ← later]

/-- What the components of a text stand for in a tree. -/
def resolve (key : List α → κ) (sep : α) (text : List α) : List κ := (components sep text).map key

@[simp] theorem resolve_trailing (key : List α → κ) (a : List α) :
    resolve key sep (a ++ [sep]) = resolve key sep a := by
  rw [resolve, components_trailing, resolve]

theorem resolve_take_iff {key : List α → κ} (apart : Function.Injective key) (text : List α)
    (n : Nat) :
    resolve key sep (text.take n) = resolve key sep text ↔ ∀ c ∈ text.drop n, c = sep := by
  rw [← components_append_iff (text.take n), List.take_append_drop, resolve, resolve,
    List.map_inj_right apart, eq_comm]

theorem resolve_ne_nil (key : List α → κ) {text : List α} {c : α} (inside : c ∈ text)
    (letter : c ≠ sep) : resolve key sep text ≠ [] := by
  intro empty
  have letters := @flatten_components _ _ sep text
  rw [List.map_eq_nil_iff.1 empty] at letters
  simpa [letter] using List.filter_eq_nil_iff.1 letters.symm c inside

theorem resolve_word (key : List α → κ) (a : List α) {w : List α} (free : sep ∉ w) :
    resolve key sep (a ++ sep :: w) =
      resolve key sep a ++ if w = [] then [] else [key w] := by
  rw [resolve, components_split, components_single free, List.map_append, resolve]
  split <;> rfl

/-- Resolved one after the other, the cuts of a text and the text itself go up
one component at a time. -/
theorem climb_cuts (key : List α → κ) (rest a : List α) {w : List α} (free : sep ∉ w) :
    Climb (resolve key sep a)
      ((cuts sep (a ++ sep :: w) rest ++ [a ++ sep :: w ++ rest]).map (resolve key sep))
      (resolve key sep (a ++ sep :: w ++ rest)) := by
  induction rest generalizing a w with
  | nil =>
    simp only [cuts, List.nil_append, List.append_nil, List.map_singleton, resolve_word key a free]
    split
    · simpa using Climb.stay (Climb.done (resolve key sep a))
    · exact Climb.up (Climb.done _)
  | cons c rest ih =>
    by_cases same : c = sep
    · subst same
      have later := @ih (a ++ c :: w) [] List.not_mem_nil
      have joined : a ++ c :: w ++ c :: rest = a ++ c :: w ++ [c] ++ rest := by simp
      simp only [cuts, if_true, List.cons_append, List.map_cons, joined]
      obtain rfl | word := eq_or_ne w []
      · rw [resolve_trailing] at later ⊢
        exact Climb.stay later
      · rw [resolve_word key a free, if_neg word] at later ⊢
        exact Climb.up later
    · have longer : sep ∉ w ++ [c] := by simpa [free] using Ne.symm same
      simpa [cuts, same] using ih a longer

end Paths
