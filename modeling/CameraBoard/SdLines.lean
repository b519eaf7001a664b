import CameraBoard.CreateDirectory
import CameraBoard.General.Lines

/-! Files of lines: the writer hands each line to `fprintf` as a format, the
readers take lines through a buffer of 128 bytes. -/
namespace CameraBoard.Sd
open Lines StepRun

def exampleMaxCharSize : Nat := 128

def newline : Byte := 0x0a
def percent : Byte := 0x25

/-- What `fprintf` puts out for a format without arguments. Any conversion but
`%%` asks for one that is not there; from then on the output is anything. -/
def fprintf (undefined : CStr → List Byte) : CStr → List Byte
  | [] => []
  | [c] => if c = percent then undefined [c] else [c]
  | c :: d :: rest =>
    if c ≠ percent then c :: fprintf undefined (d :: rest)
    else if d = percent then percent :: fprintf undefined rest
    else undefined (c :: d :: rest)

structure WriteCall where
  fopen : Bool
  data : CStr
  undefined : CStr → List Byte

/-- The file after the call, `none` while it is absent. Opening creates it. -/
def sExampleWriteFile (file : Option (List Byte)) (call : WriteCall) : Option (List Byte) :=
  if call.fopen then some (file.getD [] ++ fprintf call.undefined call.data) else file

/-- A line into the buffer, and the rest of the file; `none` at its end. -/
def fgets (line file : List Byte) : Option (List Byte × List Byte) :=
  if file = [] then none
  else
    let (got, rest) := readLine newline (exampleMaxCharSize - 1) file
    some (got ++ nul :: line.drop (got.length + 1), rest)

/-- The first place of a character before the terminator. -/
def strchr (line : List Byte) (c : Byte) : Option Nat :=
  match cString line with
  | none => none
  | some text => text.findIdx? (· = c)

def stripNewline (line : List Byte) : List Byte :=
  match strchr line newline with
  | none => line
  | some pos => line.set pos nul

/-- The text that is logged, `none` when it runs out of the buffer. The result
of `fgets` is dropped, so an empty file leaves the buffer as it was. -/
def sExampleReadFile (stale : Fin exampleMaxCharSize → Byte) :
    Option (List Byte) → Except EspErr (Option CStr)
  | none => .error espFail
  | some file =>
    let line := List.ofFn stale
    let line := match fgets line file with
      | none => line
      | some (line, _) => line
    .ok (cString (stripNewline line))

theorem fgets_shorter {line file line' rest : List Byte}
    (got : fgets line file = some (line', rest)) : rest.length < file.length := by
  rw [fgets] at got
  split at got
  · cases got
  · rename_i some
    cases got
    exact readLine_shorter 126 some

/-- The lines that are logged, one for each pass of the loop. -/
def readLoop (line file : List Byte) : List (Option CStr) :=
  match _got : fgets line file with
  | none => []
  | some (line, rest) => cString (stripNewline line) :: readLoop (stripNewline line) rest
termination_by file.length
decreasing_by exact fgets_shorter _got

def sExampleReadFileAllLines (stale : Fin exampleMaxCharSize → Byte) :
    Option (List Byte) → Except EspErr (List (Option CStr))
  | none => .error espFail
  | some file => .ok (readLoop (List.ofFn stale) file)

/-- Each line and a newline appended to an absent file, whatever a bad format
puts out, and read back over whatever the buffers held. -/
def RoundTrips (lines : List CStr) : Prop :=
  ∀ calls : List WriteCall, (∀ call ∈ calls, call.fopen) →
    calls.map WriteCall.data = lines.map (· ++ [newline]) →
    ∀ stale stale' : Fin exampleMaxCharSize → Byte,
      let file := (run sExampleWriteFile none calls).getD []
      sExampleReadFileAllLines stale (some file) = .ok (lines.map some) ∧
        sExampleReadFile stale' (some file) = .ok (some (lines.head?.getD []))

section Format

variable {undefined : CStr → List Byte}

theorem fprintf_plain {fmt : CStr} (plain : percent ∉ fmt) : fprintf undefined fmt = fmt := by
  fun_induction fprintf undefined fmt <;> simp_all

/-- Two of these characters are needed to put out one. -/
theorem count_fprintf (fmt : CStr) :
    2 * (fprintf (fun _ => []) fmt).count percent ≤ fmt.count percent := by
  fun_induction fprintf (fun _ => []) fmt with
  | case1 => exact Nat.le_refl 0
  | case2 => exact Nat.zero_le _
  | case3 c other => simp [other]
  | case4 c d rest other ih => simpa [List.count_cons_of_ne other] using ih
  | case5 c rest first ih =>
    rw [not_not.1 first, List.count_cons_self, List.count_cons_self, List.count_cons_self]
    omega
  | case6 c d rest first second => exact Nat.zero_le _

theorem fprintf_sublist (fmt : CStr) : (fprintf (fun _ => []) fmt).Sublist fmt := by
  fun_induction fprintf (fun _ => []) fmt with
  | case1 => exact .slnil
  | case2 => exact List.nil_sublist _
  | case3 c other => exact List.Sublist.refl _
  | case4 c d rest other ih => exact ih.cons_cons c
  | case5 c rest first ih => exact (ih.cons_cons percent).cons c
  | case6 c d rest first second => exact List.nil_sublist _

end Format

section Read

theorem findIdx_none {line : List Byte} (plain : newline ∉ line) :
    line.findIdx? (· = newline) = none := by
  rw [List.findIdx?_eq_none_iff]
  simpa using List.forall_mem_ne'.2 plain

theorem cString_strip {got tail : List Byte} (free : nul ∉ got)
    (shape : newline ∉ got ∨ ∃ line, newline ∉ line ∧ got = line ++ [newline]) :
    cString (stripNewline (got ++ nul :: tail)) = some (body newline got) := by
  have text : cString (got ++ nul :: tail) = some got := cString_text free
  obtain plain | ⟨line, plain, rfl⟩ := shape
  · have none : strchr (got ++ nul :: tail) newline = none := by
      rw [strchr, text]
      exact findIdx_none plain
    rw [stripNewline, none, text, body_free plain]
  · have found : strchr (line ++ [newline] ++ nul :: tail) newline = some line.length := by
      simp only [strchr, text]
      rw [List.findIdx?_append, findIdx_none plain]
      simp
    have cut : (line ++ [newline] ++ nul :: tail).set line.length nul =
        line ++ nul :: nul :: tail := by simp
    rw [stripNewline, found, body_line plain]
    simp only [cut]
    exact cString_text fun inside => free (List.mem_append_left _ inside)

theorem fgets_some (line : List Byte) {file : List Byte} (some_char : file ≠ []) :
    fgets line file = some ((readLine newline 127 file).1 ++
      nul :: line.drop ((readLine newline 127 file).1.length + 1), (readLine newline 127 file).2) :=
  if_neg some_char

theorem readLoop_got {line file line' rest : List Byte}
    (got : fgets line file = some (line', rest)) :
    readLoop line file =
      cString (stripNewline line') :: readLoop (stripNewline line') rest := by
  rw [readLoop]
  split <;> simp_all

theorem readLoop_end (line : List Byte) : readLoop line [] = [] := by
  rw [readLoop]
  rfl

theorem readLoop_eq (line : List Byte) {file : List Byte} (free : nul ∉ file) :
    readLoop line file = (readLines newline 126 file).map fun got => some (body newline got) := by
  fun_induction readLines newline 126 file generalizing line with
  | case1 => exact readLoop_end line
  | case2 file some_char ih =>
    obtain ⟨front, later⟩ := @not_mem_readLine _ _ newline _ 127 _ free
    rw [readLoop_got (fgets_some line some_char), cString_strip front (readLine_shape 127 file),
      ih _ later, List.map_cons]

theorem sExampleReadFile_eq (stale : Fin exampleMaxCharSize → Byte) {file : List Byte}
    (free : nul ∉ file) (some_char : file ≠ []) :
    sExampleReadFile stale (some file) =
      .ok ((readLines newline 126 file).map (body newline)).head? := by
  have front := (@not_mem_readLine _ _ newline _ 127 _ free).1
  rw [readLines, dif_neg some_char, List.map_cons, List.head?_cons,
    ← cString_strip front (readLine_shape 127 file), sExampleReadFile, fgets_some _ some_char]

theorem cString_none {line : List Byte} (free : nul ∉ line) : cString line = none := if_neg free

theorem sExampleReadFile_empty {stale : Fin exampleMaxCharSize → Byte} (free : ∀ i, stale i ≠ nul) :
    sExampleReadFile stale (some []) = .ok none := by
  have full : nul ∉ List.ofFn stale := by
    rw [List.mem_ofFn]
    rintro ⟨i, ends⟩
    exact free i ends
  have unfound : strchr (List.ofFn stale) newline = none := by
    rw [strchr, cString_none full]
  have kept : stripNewline (List.ofFn stale) = List.ofFn stale := by rw [stripNewline, unfound]
  simp only [sExampleReadFile, fgets, if_true, kept, cString_none full]

end Read

section RoundTrip

variable {lines : List CStr}

theorem written_eq {calls : List WriteCall} (file : Option (List Byte))
    (opens : ∀ call ∈ calls, call.fopen) :
    (run sExampleWriteFile file calls).getD [] =
      file.getD [] ++ calls.flatMap fun call => fprintf call.undefined call.data := by
  induction calls generalizing file with
  | nil => simp [run]
  | cons call calls ih =>
    obtain ⟨first, opens⟩ := List.forall_mem_cons.1 opens
    rw [run_cons, sExampleWriteFile, if_pos first, ih _ opens, List.flatMap_cons,
      ← List.append_assoc]
    rfl

theorem plain_line {line : CStr} (plain : percent ∉ line) : percent ∉ line ++ [newline] := by
  simpa [show percent ≠ newline by decide] using plain

theorem written_plain {calls : List WriteCall} (opens : ∀ call ∈ calls, call.fopen)
    (data : calls.map WriteCall.data = lines.map (· ++ [newline]))
    (plain : ∀ line ∈ lines, percent ∉ line) :
    (run sExampleWriteFile none calls).getD [] = join newline lines := by
  have echo (call : WriteCall) (inside : call ∈ calls) :
      fprintf call.undefined call.data = call.data := by
    obtain ⟨line, line_in, eq⟩ := List.mem_map.1 (data ▸ List.mem_map_of_mem inside)
    rw [← eq]
    exact fprintf_plain (plain_line (plain line line_in))
  rw [written_eq none opens, List.flatMap_def, List.map_congr_left echo, data, join,
    List.flatMap_def]
  rfl

theorem free_join {lines : List CStr} (free : ∀ line ∈ lines, nul ∉ line) :
    nul ∉ join newline lines := by
  intro inside
  obtain ⟨line, line_in, inside⟩ := List.mem_flatMap.1 inside
  obtain inside | ends := List.mem_append.1 inside
  · exact free line line_in inside
  · exact absurd (List.mem_singleton.1 ends) (by decide)

/-- What the calls put out when a bad format ends its line. -/
def shortest (lines : List CStr) : List Byte :=
  lines.flatMap fun line => fprintf (fun _ => []) (line ++ [newline])

theorem shortest_sublist (lines : List CStr) : (shortest lines).Sublist (join newline lines) := by
  induction lines with
  | nil => exact .slnil
  | cons line lines ih => exact (fprintf_sublist _).append ih

theorem count_shortest (lines : List CStr) :
    2 * (shortest lines).count percent ≤ lines.flatten.count percent := by
  induction lines with
  | nil => exact Nat.le_refl 0
  | cons line lines ih =>
    have first := count_fprintf (line ++ [newline])
    rw [List.count_append, List.count_singleton, if_neg (by decide)] at first
    rw [shortest, List.flatMap_cons, List.count_append, List.flatten_cons, List.count_append]
    rw [shortest] at ih
    omega

/-- Reading back gives as many of these characters as were put out, and the
format needs twice as many. -/
theorem plain_of_bodies
    (same : (readLines newline 126 (shortest lines)).map (body newline) = lines) :
    ∀ line ∈ lines, percent ∉ line := by
  have kept : lines.flatten.count percent = (shortest lines).count percent := by
    rw [← same, flatten_bodies, same, List.count_filter (by decide)]
  have twice := count_shortest lines
  have none : lines.flatten.count percent = 0 := by omega
  intro line line_in inside
  exact List.count_eq_zero.1 none (List.mem_flatten.2 ⟨line, line_in, inside⟩)

theorem shortest_plain (plain : ∀ line ∈ lines, percent ∉ line) :
    shortest lines = join newline lines := by
  rw [shortest, join, List.flatMap_def, List.flatMap_def]
  exact congrArg List.flatten
    (List.map_congr_left fun line line_in => fprintf_plain (plain_line (plain line line_in)))

theorem RoundTrips.read (round : RoundTrips lines) (stale : Fin exampleMaxCharSize → Byte) :
    sExampleReadFileAllLines stale (some (shortest lines)) = .ok (lines.map some) ∧
      sExampleReadFile stale (some (shortest lines)) = .ok (some (lines.head?.getD [])) := by
  have opens : ∀ call ∈ lines.map fun line => WriteCall.mk true (line ++ [newline]) fun _ => [],
      call.fopen := by simp
  have file := written_eq none opens
  rw [List.flatMap_map] at file
  have read := round _ opens (by simp) stale stale
  rwa [file] at read

/-- Nothing is read from an empty file, so no terminator ends the buffer. -/
theorem RoundTrips.ne_nil (round : RoundTrips lines) : lines ≠ [] := by
  rintro rfl
  have first := (round.read fun _ => percent).2
  rw [show shortest [] = [] from rfl, sExampleReadFile_empty (by decide)] at first
  cases first

theorem RoundTrips.bodies (round : RoundTrips lines) (free : nul ∉ join newline lines) :
    (readLines newline 126 (shortest lines)).map (body newline) = lines := by
  have kept : nul ∉ shortest lines := fun inside => free ((shortest_sublist lines).subset inside)
  have all := (round.read fun _ => nul).1
  rw [sExampleReadFileAllLines, readLoop_eq _ kept] at all
  apply List.map_injective_iff.2 fun _ _ => Option.some.inj
  rw [List.map_map]
  exact Except.ok.inj all

theorem roundTrips_of_bodies (some_line : lines ≠ []) (free : nul ∉ join newline lines)
    (plain : ∀ line ∈ lines, percent ∉ line)
    (same : (readLines newline 126 (join newline lines)).map (body newline) = lines) :
    RoundTrips lines := by
  intro calls opens data stale stale'
  obtain ⟨first, rest, rfl⟩ := List.exists_cons_of_ne_nil some_line
  have some_char : join newline (first :: rest) ≠ [] := by simp [join]
  simp only [written_plain opens data plain]
  constructor
  · rw [sExampleReadFileAllLines, readLoop_eq _ free, ← Function.comp_def, ← List.map_map, same]
  · rw [sExampleReadFile_eq _ free some_char, same]
    rfl

/-- Lines come back exactly when there is one, none holds a `%` and each fits
into the buffer with its newline and terminator. -/
theorem roundTrips_iff (text : ∀ line ∈ lines, nul ∉ line ∧ newline ∉ line) :
    RoundTrips lines ↔ lines ≠ [] ∧ ∀ line ∈ lines, percent ∉ line ∧ line.length ≤ 126 := by
  have free := free_join fun line line_in => (text line line_in).1
  have whole := bodies_join_iff (fun line line_in => (text line line_in).2) 126
  constructor
  · intro round
    have same := round.bodies free
    have plain := plain_of_bodies same
    rw [shortest_plain plain] at same
    exact ⟨round.ne_nil, fun line line_in => ⟨plain line line_in, whole.1 same line line_in⟩⟩
  · rintro ⟨some_line, fits⟩
    exact roundTrips_of_bodies some_line free (fun line line_in => (fits line line_in).1)
      (whole.2 fun line line_in => (fits line line_in).2)

theorem roundTrips_iff_pair : RoundTrips [ascii "temperature", []] :=
  (roundTrips_iff (by decide)).2 (by decide)

/-- A line of two `%` comes back as one. -/
theorem roundTrips_percent : ¬ ∀ lines : List CStr,
    (∀ line ∈ lines, nul ∉ line ∧ newline ∉ line) → RoundTrips lines := by
  intro claim
  have round := claim [[percent, percent]] (by decide)
  have read := (round.read fun _ => nul).1
  rw [show shortest [[percent, percent]] = join newline [[percent]] by decide,
    sExampleReadFileAllLines, readLoop_eq _ (by decide), readLines_join (by decide)] at read
  revert read
  decide

end RoundTrip

end CameraBoard.Sd
