import CameraBoard.General.Paths
import CameraBoard.SdWriteData

/-! The recursive creation of a directory on its 256-byte buffer, with every
access checked, and what its `mkdir` calls do to a tree of files. -/
namespace CameraBoard.Sd
open FileTree Paths StepRun

def nul : Byte := 0x00

/-- A write to a buffer, `none` outside of it. -/
def poke (tmp : List Byte) (i : Nat) (b : Byte) : Option (List Byte) :=
  if i < tmp.length then some (tmp.set i b) else none

/-- The string a buffer starts with, `none` when no terminator ends it. -/
def cString (tmp : List Byte) : Option CStr :=
  if nul ∈ tmp then some (tmp.takeWhile (· ≠ nul)) else none

/-- A buffer after `snprintf`; what it does not write keeps its old bytes. -/
def printed (tmp : List Byte) (text : CStr) : List Byte :=
  let out := snprintf tmp.length text
  out ++ nul :: tmp.drop (out.length + 1)

/-- The loop over the characters from `p` on: the paths passed to `mkdir` and
the buffer left. `none` is an access outside the buffer or a loop that runs on. -/
def cutLoop : Nat → List Byte → Nat → Option (List CStr × List Byte)
  | 0, _, _ => none
  | fuel + 1, tmp, p => do
    let c ← tmp[p]?
    if c = nul then return ([], tmp)
    else if c = slash then
      let cut ← poke tmp p nul
      let made ← cString cut
      let (calls, tmp) ← cutLoop fuel (← poke cut p slash) (p + 1)
      return (made :: calls, tmp)
    else cutLoop fuel tmp (p + 1)

/-- The paths passed to `mkdir`, its results being dropped. The index of the
last character is a `size_t`, which wraps on the empty string. -/
def createDirectoryTmp (stale : Fin 256 → Byte) (dir : CStr) : Option (List CStr) := do
  let tmp := printed (List.ofFn stale) dir
  let len := BitVec.ofNat 32 (← cString tmp).length
  let last := (len - 1).toNat
  let tmp ← if (← tmp[last]?) = slash then poke tmp last nul else some tmp
  let (calls, tmp) ← cutLoop 256 tmp 1
  return calls ++ [← cString tmp]

section Buffer

variable {text tail : List Byte}

theorem cString_text (free : nul ∉ text) : cString (text ++ nul :: tail) = some text := by
  have ends : (text ++ nul :: tail).takeWhile (· ≠ nul) = text := by
    rw [List.takeWhile_append_of_pos (by grind)]
    simp
  rw [cString, if_pos (by simp), ends]

theorem poke_at (b c : Byte) : poke (text ++ c :: tail) text.length b =
    some (text ++ b :: tail) := by
  simp [poke]

theorem cutLoop_text {seen rest : List Byte} {fuel : Nat} (free : nul ∉ seen ++ rest)
    (enough : rest.length < fuel) :
    cutLoop fuel (seen ++ rest ++ nul :: tail) seen.length =
      some (cuts slash seen rest, seen ++ rest ++ nul :: tail) := by
  induction rest generalizing seen fuel with
  | nil =>
    cases fuel with
    | zero => cases enough
    | succ fuel => simp [cutLoop, cuts]
  | cons c rest ih =>
    cases fuel with
    | zero => cases enough
    | succ fuel =>
      have later := @ih (seen ++ [c]) fuel (by simpa using free) (Nat.lt_of_succ_lt_succ enough)
      have shown : (seen ++ c :: rest ++ nul :: tail)[seen.length]? = some c := by simp
      have text : c ≠ nul := fun h => free (by simp [h])
      have front : nul ∉ seen := fun h => free (by simp [h])
      simp only [List.length_append, List.length_singleton, List.append_assoc, List.cons_append,
        List.nil_append] at later shown ⊢
      by_cases same : c = slash
      · subst same
        simp [cutLoop, cuts, text, poke_at, cString_text front, later]
      · simp [cutLoop, cuts, text, same, later]

end Buffer

/-- The directory text without the one trailing slash that is removed. -/
def stripped (dir : CStr) : CStr :=
  if (snprintf 256 dir).getLast? = some slash then (snprintf 256 dir).dropLast
  else snprintf 256 dir

theorem createDirectoryRecursive_eq (dir : CStr) :
    createDirectoryRecursive dir =
      cuts slash ((stripped dir).take 1) ((stripped dir).drop 1) ++ [stripped dir] := by
  have unfolded : createDirectoryRecursive dir =
      ((List.range (stripped dir).length).filter fun i =>
        1 ≤ i ∧ (stripped dir)[i]? = some slash).map (stripped dir).take ++ [stripped dir] := rfl
  rw [unfolded]
  cases stripped dir with
  | nil => rfl
  | cons c rest =>
    have positions := @cuts_eq_filter _ _ slash [c] rest
    have later : (List.range' 1 rest.length).filter (fun i =>
          1 ≤ i ∧ (c :: rest)[i]? = some slash) =
        (List.range' 1 rest.length).filter fun i => (c :: rest)[i]? = some slash := by
      apply List.filter_congr
      intro i inside
      simp [(List.mem_range'_1.1 inside).1]
    rw [List.length_cons, List.range_eq_range', List.range'_succ, List.filter_cons_of_neg (by simp),
      later]
    exact congrArg (· ++ [c :: rest]) positions

theorem stripped_front (dir : CStr) : stripped dir <+: dir := by
  rw [stripped]
  split
  · exact (List.dropLast_prefix _).trans (List.take_prefix _ _)
  · exact List.take_prefix _ _

theorem cutLoop_start {text tail : List Byte} (free : nul ∉ text) (short : text.length < 256)
    (ends : text = [] → tail.head? = some nul) :
    cutLoop 256 (text ++ nul :: tail) 1 =
      some (cuts slash (text.take 1) (text.drop 1), text ++ nul :: tail) := by
  cases text with
  | nil =>
    obtain ⟨tail, rfl⟩ : ∃ rest, tail = nul :: rest := List.head?_eq_some_iff.1 (ends rfl)
    rfl
  | cons c rest => exact @cutLoop_text _ [c] rest 256 free (Nat.lt_of_succ_lt short)

/-- Every access of the buffer is inside it, the loop ends, and the calls are
those of the model on strings. -/
theorem createDirectoryTmp_eq (stale : Fin 256 → Byte) {dir : CStr} (some_char : dir ≠ [])
    (free : nul ∉ dir) : createDirectoryTmp stale dir = some (createDirectoryRecursive dir) := by
  obtain ⟨front, c, out⟩ : ∃ front c, snprintf 256 dir = front ++ [c] := by
    have kept : snprintf 256 dir ≠ [] := by simpa [snprintf] using some_char
    exact ⟨_, _, (List.dropLast_concat_getLast kept).symm⟩
  have clean : nul ∉ front ++ [c] := out ▸ fun h => free (List.mem_of_mem_take h)
  have short : (front ++ [c]).length < 256 := by
    rw [← out, snprintf, List.length_take]
    omega
  obtain ⟨tail, text⟩ : ∃ tail, printed (List.ofFn stale) dir = front ++ [c] ++ nul :: tail :=
    ⟨_, by rw [printed, List.length_ofFn, out]⟩
  have last : (BitVec.ofNat 32 (front ++ [c]).length - 1).toNat = front.length := by
    simp only [List.length_append, List.length_singleton] at short ⊢
    bv_omega
  rw [createDirectoryRecursive_eq, stripped, out, List.getLast?_concat, List.dropLast_concat]
  have front_free : nul ∉ front := fun h => clean (List.mem_append_left _ h)
  have front_short : front.length < 256 := by
    rw [List.length_append] at short
    exact Nat.lt_of_add_right_lt short
  have shown : (front ++ [c] ++ nul :: tail)[front.length]? = some c := by simp
  by_cases same : c = slash
  · subst same
    have run := @cutLoop_start front (nul :: tail) front_free front_short fun _ => rfl
    have cut : poke (front ++ [slash] ++ nul :: tail) front.length nul =
        some (front ++ nul :: nul :: tail) := by
      simpa using @poke_at front (nul :: tail) nul slash
    simp only [createDirectoryTmp, text, cString_text clean, last, shown, cut, run,
      cString_text front_free, Option.bind_eq_bind, Option.bind_some, if_true]
    rfl
  · have run := @cutLoop_start (front ++ [c]) tail clean short fun empty => by simp at empty
    simp only [createDirectoryTmp, text, cString_text clean, last, shown, same, run,
      Option.bind_eq_bind, Option.bind_some, Option.some.injEq, if_false]
    rfl

section Tree

variable {κ β : Type*} [DecidableEq κ] (key : CStr → κ)

/-- Makes the entry that a path names, if the directory around it is there. -/
def mkdir (t : Tree κ β) (path : CStr) : Tree κ β := t.mkdir (resolve key slash path)

omit [DecidableEq κ] in
theorem resolve_stripped {dir : CStr} (fits : dir.length ≤ 255) :
    resolve key slash (stripped dir) = resolve key slash dir := by
  have whole : snprintf 256 dir = dir := List.take_of_length_le fits
  rw [stripped, whole]
  split
  · rename_i ends
    obtain ⟨front, rfl⟩ := List.getLast?_eq_some_iff.1 ends
    rw [List.dropLast_concat, resolve_trailing]
  · rfl

omit [DecidableEq κ] in
/-- The calls go up from the root to the directory, one component at a time. -/
theorem createDirectoryRecursive_climb {dir : CStr} (fits : dir.length ≤ 255)
    (absolute : dir.head? = some slash) :
    Climb [] ((createDirectoryRecursive dir).map (resolve key slash)) (resolve key slash dir) := by
  rw [createDirectoryRecursive_eq, ← resolve_stripped key fits]
  cases text : stripped dir with
  | nil => exact Climb.stay (Climb.done [])
  | cons c rest =>
    obtain ⟨more, rfl⟩ : c :: rest <+: dir := text ▸ stripped_front dir
    obtain rfl : c = slash := by simpa using absolute
    exact climb_cuts key rest [] List.not_mem_nil

section Made

variable {dir : CStr} (fits : dir.length ≤ 255) (absolute : dir.head? = some slash) {t : Tree κ β}
  (clear : Clear t (resolve key slash dir))

include fits absolute clear

theorem createDirectoryRecursive_node (q : List κ) :
    (run (mkdir key) t (createDirectoryRecursive dir)).node q =
      if q <+: resolve key slash dir ∧ t.node q = none then some .directory else t.node q := by
  have climb := createDirectoryRecursive_climb key fits absolute
  rw [← climb.node_run clear (by simp [t.root]), ← run_map]
  rfl

theorem createDirectoryRecursive_made {q : List κ} (below : q <+: resolve key slash dir)
    (noFile : ∀ content, t.node q ≠ some (.file content)) :
    (run (mkdir key) t (createDirectoryRecursive dir)).node q = some .directory := by
  rw [createDirectoryRecursive_node key fits absolute clear]
  by_cases missing : t.node q = none
  · rw [if_pos ⟨below, missing⟩]
  · rw [if_neg fun h => missing h.2, t.directory missing noFile]

theorem createDirectoryRecursive_kept {q : List κ} {n : Node β} (there : t.node q = some n) :
    (run (mkdir key) t (createDirectoryRecursive dir)).node q = some n := by
  rw [createDirectoryRecursive_node key fits absolute clear, if_neg (by simp [there]), there]

theorem createDirectoryRecursive_new {q : List κ} (missing : t.node q = none)
    (now : (run (mkdir key) t (createDirectoryRecursive dir)).node q ≠ none) :
    q <+: resolve key slash dir ∧
      (run (mkdir key) t (createDirectoryRecursive dir)).node q = some .directory := by
  rw [createDirectoryRecursive_node key fits absolute clear] at now ⊢
  by_cases below : q <+: resolve key slash dir
  · exact ⟨below, if_pos ⟨below, missing⟩⟩
  · rw [if_neg fun h => below h.1] at now
    exact absurd missing now

end Made

/-- Missing directories on the way to the named one are made, parents first,
and nothing else changes. A file that stands at the name itself stays. -/
theorem createDirectoryTmp_makes (stale : Fin 256 → Byte) {dir : CStr} (fits : dir.length ≤ 255)
    (absolute : dir.head? = some slash) (free : nul ∉ dir) (t : Tree κ β)
    (clear : Clear t (resolve key slash dir)) :
    ∃ calls, createDirectoryTmp stale dir = some calls ∧
      Along (mkdir key) (fun t path => t.node (resolve key slash path).dropLast = some .directory)
        t calls ∧
      (∀ q, q <+: resolve key slash dir → q ≠ resolve key slash dir →
        (run (mkdir key) t calls).node q = some .directory) ∧
      ((∀ content, t.node (resolve key slash dir) ≠ some (.file content)) →
        (run (mkdir key) t calls).node (resolve key slash dir) = some .directory) ∧
      (∀ q, t.node q = none → (run (mkdir key) t calls).node q ≠ none →
        q <+: resolve key slash dir ∧ (run (mkdir key) t calls).node q = some .directory) ∧
      ∀ q n, t.node q = some n → (run (mkdir key) t calls).node q = some n := by
  have some_char : dir ≠ [] := by
    rintro rfl
    cases absolute
  have climb := createDirectoryRecursive_climb key fits absolute
  refine ⟨_, createDirectoryTmp_eq stale some_char free, ?_, ?_, ?_, ?_, ?_⟩
  · exact (@along_map _ _ _ (resolve key slash) Tree.mkdir _ t _).2
      (climb.parents_first clear (by simp [t.root]))
  · exact fun q below strict =>
      createDirectoryRecursive_made key fits absolute clear below (clear q below strict)
  · exact createDirectoryRecursive_made key fits absolute clear List.prefix_rfl
  · exact fun q => createDirectoryRecursive_new key fits absolute clear
  · exact fun q n => createDirectoryRecursive_kept key fits absolute clear

end Tree

theorem createDirectoryTmp_makes_log :
    ∃ calls, createDirectoryTmp (fun _ => 0) (ascii "/sdcard//log/") = some calls ∧
      (run (mkdir id) (Tree.bare : Tree CStr Unit) calls).node [ascii "sdcard", ascii "log"] =
        some .directory := by
  have named : resolve id slash (ascii "/sdcard//log/") = [ascii "sdcard", ascii "log"] := by decide
  have clear : Clear (Tree.bare : Tree CStr Unit) [ascii "sdcard", ascii "log"] := by
    rintro (_ | ⟨c, q⟩) - - content <;> exact nofun
  obtain ⟨calls, ends, -, -, last, -⟩ :=
    createDirectoryTmp_makes id (fun _ => 0) (by decide) rfl (by decide) Tree.bare (named ▸ clear)
  rw [named] at last
  exact ⟨calls, ends, last nofun⟩

/-- A file that stands at the name itself is left, its `mkdir` failing unseen. -/
theorem createDirectoryTmp_blocked : ¬ ∀ (stale : Fin 256 → Byte) (dir : CStr),
    dir.length ≤ 255 → dir.head? = some slash → nul ∉ dir →
      ∀ t : Tree CStr Unit, Clear t (resolve id slash dir) →
        ∃ calls, createDirectoryTmp stale dir = some calls ∧
          (run (mkdir id) t calls).node (resolve id slash dir) = some .directory := by
  intro claim
  have clear : Clear ((Tree.bare : Tree CStr Unit).store [ascii "a"] ())
      (resolve id slash (ascii "/a")) := by
    have named : resolve id slash (ascii "/a") = [ascii "a"] := by decide
    rw [named]
    intro q below strict content
    obtain rfl | ⟨q, rfl, rest⟩ := List.prefix_cons_iff.1 below
    · exact nofun
    · rw [List.prefix_nil.1 rest] at strict
      exact absurd rfl strict
  obtain ⟨calls, ends, made⟩ := claim (fun _ => 0) (ascii "/a") (by decide) rfl (by decide) _ clear
  rw [createDirectoryTmp_eq _ (by decide) (by decide), Option.some.injEq] at ends
  subst ends
  exact absurd made (by decide)

end CameraBoard.Sd
