import Mathlib.Data.List.Basic
import Mathlib.Data.List.Count
import Mathlib.Tactic.Common

/-! Reading a text in pieces of bounded length that end after a newline, over
any type of characters. -/
namespace Lines

variable {α : Type*} [DecidableEq α] (nl : α)

/-- At most `cap` characters, up to and including the first newline, and the rest. -/
def readLine : Nat → List α → List α × List α
  | 0, rest => ([], rest)
  | _ + 1, [] => ([], [])
  | cap + 1, c :: rest =>
    if c = nl then ([c], rest)
    else (c :: (readLine cap rest).1, (readLine cap rest).2)

/-- A piece without its newline. -/
def body (piece : List α) : List α := piece.takeWhile (· ≠ nl)

def join (lines : List (List α)) : List α := lines.flatMap (· ++ [nl])

variable {nl}

omit [DecidableEq α] in
theorem join_cons (line : List α) (lines : List (List α)) :
    join nl (line :: lines) = line ++ nl :: join nl lines := by
  simp [join]

theorem readLine_append (cap : Nat) (text : List α) :
    (readLine nl cap text).1 ++ (readLine nl cap text).2 = text := by
  fun_induction readLine nl cap text <;> simp_all

theorem not_mem_readLine {c : α} (cap : Nat) {text : List α} (free : c ∉ text) :
    c ∉ (readLine nl cap text).1 ∧ c ∉ (readLine nl cap text).2 := by
  rw [← @readLine_append _ _ nl cap text] at free
  exact not_or.1 (List.mem_append.not.1 free)

theorem length_readLine (cap : Nat) (text : List α) : (readLine nl cap text).1.length ≤ cap := by
  fun_induction readLine nl cap text <;> simp_all

theorem readLine_ne_nil (cap : Nat) {text : List α} (some : text ≠ []) :
    (readLine nl (cap + 1) text).1 ≠ [] := by
  cases text with
  | nil => exact absurd rfl some
  | cons c rest =>
    rw [readLine]
    split <;> exact List.cons_ne_nil _ _

theorem readLine_shorter (cap : Nat) {text : List α} (some : text ≠ []) :
    (readLine nl (cap + 1) text).2.length < text.length := by
  have whole := congrArg List.length (@readLine_append _ _ nl (cap + 1) text)
  have taken := List.length_pos_iff.2 (@readLine_ne_nil _ _ nl cap text some)
  rw [List.length_append] at whole
  omega

/-- A newline ends a piece or is not in it. -/
theorem readLine_shape (cap : Nat) (text : List α) :
    nl ∉ (readLine nl cap text).1 ∨ ∃ line, nl ∉ line ∧ (readLine nl cap text).1 = line ++ [nl] := by
  fun_induction readLine nl cap text with
  | case1 rest => exact .inl List.not_mem_nil
  | case2 cap => exact .inl List.not_mem_nil
  | case3 cap rest => exact .inr ⟨[], List.not_mem_nil, rfl⟩
  | case4 cap c rest other ih =>
    obtain free | ⟨line, free, eq⟩ := ih
    · exact .inl (by simp [free, Ne.symm other])
    · exact .inr ⟨c :: line, by simp [free, Ne.symm other], by simp [eq]⟩

theorem readLine_line {line : List α} (free : nl ∉ line) {cap : Nat} (fits : line.length ≤ cap)
    (rest : List α) : readLine nl (cap + 1) (line ++ nl :: rest) = (line ++ [nl], rest) := by
  induction line generalizing cap with
  | nil => simp [readLine]
  | cons c line ih =>
    obtain ⟨other, free⟩ := not_or.1 (List.mem_cons.not.1 free)
    cases cap with
    | zero => simp at fits
    | succ cap =>
      have later := ih free (Nat.le_of_succ_le_succ fits)
      rw [List.cons_append, readLine, if_neg (Ne.symm other), later]
      rfl

/-- All pieces of a text, each of at most `cap + 1` characters. -/
def readLines (nl : α) (cap : Nat) (text : List α) : List (List α) :=
  if _some : text = [] then []
  else (readLine nl (cap + 1) text).1 :: readLines nl cap (readLine nl (cap + 1) text).2
termination_by text.length
decreasing_by exact readLine_shorter cap _some

theorem flatten_readLines (cap : Nat) (text : List α) : (readLines nl cap text).flatten = text := by
  fun_induction readLines nl cap text with
  | case1 => rfl
  | case2 text some ih => rw [List.flatten_cons, ih, readLine_append]

theorem readLines_join {lines : List (List α)} {cap : Nat}
    (fit : ∀ line ∈ lines, nl ∉ line ∧ line.length ≤ cap) :
    readLines nl cap (join nl lines) = lines.map (· ++ [nl]) := by
  induction lines with
  | nil =>
    rw [join, List.flatMap_nil, readLines]
    rfl
  | cons line lines ih =>
    obtain ⟨⟨free, short⟩, fit⟩ := List.forall_mem_cons.1 fit
    rw [join_cons, readLines, dif_neg (by simp), readLine_line free short, ih fit, List.map_cons]

theorem mem_readLines {cap : Nat} {text piece : List α} (inside : piece ∈ readLines nl cap text) :
    piece.length ≤ cap + 1 ∧ (nl ∉ piece ∨ ∃ line, nl ∉ line ∧ piece = line ++ [nl]) := by
  fun_induction readLines nl cap text with
  | case1 => exact absurd inside List.not_mem_nil
  | case2 text some ih =>
    obtain rfl | later := List.mem_cons.1 inside
    · exact ⟨length_readLine _ _, readLine_shape _ _⟩
    · exact ih later

theorem body_append {line : List α} (free : nl ∉ line) (rest : List α) :
    body nl (line ++ rest) = line ++ body nl rest := by
  apply List.takeWhile_append_of_pos
  simpa using List.forall_mem_ne'.2 free

theorem body_free {line : List α} (free : nl ∉ line) : body nl line = line := by
  simpa [body] using body_append free []

theorem body_line {line : List α} (free : nl ∉ line) : body nl (line ++ [nl]) = line := by
  simpa [body] using body_append free [nl]

theorem filter_free {line : List α} (free : nl ∉ line) : line.filter (· ≠ nl) = line := by
  rw [List.filter_eq_self]
  simpa using List.forall_mem_ne'.2 free

/-- The bodies hold every character but the newlines. -/
theorem flatten_bodies (cap : Nat) (text : List α) :
    ((readLines nl cap text).map (body nl)).flatten = text.filter (· ≠ nl) := by
  have piece (piece : List α) (inside : piece ∈ readLines nl cap text) :
      body nl piece = piece.filter (· ≠ nl) := by
    obtain free | ⟨line, free, rfl⟩ := (mem_readLines inside).2
    · rw [body_free free, filter_free free]
    · rw [body_line free, List.filter_append, filter_free free]
      simp
  rw [List.map_congr_left piece, ← List.filter_flatten, flatten_readLines]

theorem count_readLines (cap : Nat) (text : List α) :
    text.count nl = (readLines nl cap text).countP (nl ∈ ·) := by
  fun_induction readLines nl cap text with
  | case1 => rfl
  | case2 text some ih =>
    have parts := congrArg (List.count nl) (@readLine_append _ _ nl (cap + 1) text)
    have first : (readLine nl (cap + 1) text).1.count nl =
        if nl ∈ (readLine nl (cap + 1) text).1 then 1 else 0 := by
      obtain free | ⟨line, free, eq⟩ := readLine_shape (cap + 1) text
      · rw [if_neg free, List.count_eq_zero_of_not_mem free]
      · rw [eq, List.count_append, List.count_eq_zero_of_not_mem free]
        simp
    rw [← parts, List.count_append, first, ih, List.countP_cons, Nat.add_comm]
    simp

theorem count_join {lines : List (List α)} (free : ∀ line ∈ lines, nl ∉ line) :
    (join nl lines).count nl = lines.length := by
  induction lines with
  | nil => rfl
  | cons line lines ih =>
    obtain ⟨first, free⟩ := List.forall_mem_cons.1 free
    rw [join_cons, List.count_append, List.count_eq_zero_of_not_mem first, List.count_cons_self, ih free]
    simp

/-- Reading line by line gives the lines back exactly when each fits with its
newline. -/
theorem bodies_join_iff {lines : List (List α)} (free : ∀ line ∈ lines, nl ∉ line) (cap : Nat) :
    (readLines nl cap (join nl lines)).map (body nl) = lines ↔
      ∀ line ∈ lines, line.length ≤ cap := by
  constructor
  · intro same line inside
    have newlines := count_join free
    have pieces : (readLines nl cap (join nl lines)).length = lines.length := by
      rw [← congrArg List.length same, List.length_map]
    rw [count_readLines cap, ← pieces, List.countP_eq_length] at newlines
    rw [← same] at inside
    obtain ⟨piece, read, rfl⟩ := List.mem_map.1 inside
    obtain ⟨short, whole⟩ := mem_readLines read
    have ended : nl ∈ piece := by simpa using newlines piece read
    obtain ⟨line, free, rfl⟩ := whole.resolve_left (not_not_intro ended)
    rw [body_line free]
    simpa using short
  · intro short
    rw [readLines_join fun line inside => ⟨free line inside, short line inside⟩, List.map_map]
    conv_rhs => rw [← List.map_id lines]
    exact List.map_congr_left fun line inside => body_line (free line inside)

end Lines
