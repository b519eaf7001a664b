import CameraBoard.CreateDirectory

/-! The file a write ends up in, when the card takes every legal name and every
byte. The name is put together in a buffer of 256 bytes, so one that is longer
loses its end without notice. -/
namespace CameraBoard.Sd
open BufferedStream FileTree Paths StepRun

/-- The names a file system takes and what their components stand for. -/
structure Naming (κ : Type*) where
  legal : CStr → Bool
  key : CStr → κ

abbrev Card (κ : Type*) := Tree κ (List Byte)

structure Request where
  path : CStr
  filename : CStr
  data : Nat → Byte
  length : Nat

/-- The name that was asked for. -/
def Request.name (r : Request) : CStr := mountPoint ++ r.path ++ [slash] ++ r.filename

def Request.contents (r : Request) : List Byte := bytes r.data r.length

def Request.carrying (r : Request) (data : Nat → Byte) (length : Nat) : Request :=
  { r with data, length }

theorem fullPath_eq (r : Request) : fullPath r.path r.filename = r.name.take 255 := rfl

theorem sdWriteData_done {env : WriteEnv} {path filename : CStr} {data : Nat → Byte}
    {length : Nat} (file : env.fopen (fullPath path filename) = true) (full : env.push.IsFull)
    (closed : env.close.IsFull) :
    ∃ stream, sdWriteData env path filename data length =
        ⟨espOk, createDirectoryRecursive (dirPath path), some stream⟩ ∧
      stream.delivered = bytes data length := by
  have status := (@sdWriteData_ret env path filename data length file).2 (.inr full)
  rw [sdWriteData_opened file] at status ⊢
  refine ⟨_, congrArg (WriteResult.mk · _ _) status, ?_⟩
  rw [close_delivered (.inr closed), write_full (.inr full)]
  rfl

variable {κ : Type*} (names : Naming κ)

def Naming.entry (text : CStr) : List κ := resolve names.key slash text

theorem entry_ne_nil (r : Request) : names.entry (r.name.take 255) ≠ [] := by
  have letter : (0x73 : Byte) ∈ mountPoint.take 255 := by decide
  have kept : (0x73 : Byte) ∈ r.name.take 255 := by
    rw [Request.name, List.append_assoc, List.append_assoc, List.take_append]
    exact List.mem_append_left _ letter
  exact resolve_ne_nil names.key kept (by decide)

variable [DecidableEq κ]

def Naming.mkdir (t : Card κ) (path : CStr) : Card κ :=
  if names.legal path then Sd.mkdir names.key t path else t

/-- The directories of a write are made, whatever becomes of the file. -/
def directories (t : Card κ) (r : Request) : Card κ :=
  run names.mkdir t (createDirectoryRecursive (dirPath r.path))

def Naming.fopen (t : Card κ) (path : CStr) : Bool :=
  names.legal path && decide (t.Free (names.entry path))

/-- One call on the card. The open empties or creates the file, so at the close
it holds what went through the stream. -/
def sdWrite (push close : Push) (t : Card κ) (r : Request) : EspErr × Card κ :=
  let made := directories names t r
  let result := sdWriteData ⟨names.fopen made, push, close⟩ r.path r.filename r.data r.length
  match result.file with
  | none => (result.ret, made)
  | some stream => (result.ret, made.store (names.entry (fullPath r.path r.filename)) stream.delivered)

section Call

variable {names} {push close : Push} {t : Card κ} {r : Request}

theorem directories_kept {p : List κ} {n : Node (List Byte)} (there : t.node p = some n) :
    (directories names t r).node p = some n := by
  unfold directories
  refine run_of_step (I := fun t : Card κ => t.node p = some n) ?_ there _
  intro t path there
  rw [Naming.mkdir]
  split
  · exact Tree.mkdir_kept there
  · exact there

theorem sdWrite_failed
    (shut : names.fopen (directories names t r) (fullPath r.path r.filename) = false) :
    sdWrite names push close t r = (espFail, directories names t r) := by
  rw [sdWrite, sdWriteData_failed shut]

theorem sdWrite_opened (full : push.IsFull) (closed : close.IsFull)
    (file : names.fopen (directories names t r) (fullPath r.path r.filename) = true) :
    sdWrite names push close t r = (espOk,
      (directories names t r).store (names.entry (fullPath r.path r.filename)) r.contents) := by
  obtain ⟨stream, done, delivered⟩ :=
    @sdWriteData_done ⟨names.fopen (directories names t r), push, close⟩ _ _ r.data r.length
      file full closed
  simp only [sdWrite, done, delivered, Request.contents]

end Call

/-- The named file holds the data and every other file is as before. -/
structure Writes (t t' : Card κ) (r : Request) : Prop where
  content : t'.node (names.entry r.name) = some (.file r.contents)
  others : ∀ p old, p ≠ names.entry r.name → t.node p = some (.file old) →
    t'.node p = some (.file old)

/-- What is left of the name stands for the same entry, or is refused. -/
def Request.Whole (r : Request) : Prop :=
  names.legal (r.name.take 255) → names.entry (r.name.take 255) = names.entry r.name

omit [DecidableEq κ] in
theorem Request.whole_of_length {r : Request} (short : r.name.length ≤ 255) : r.Whole names :=
  fun _ => by rw [List.take_of_length_le short]

omit [DecidableEq κ] in
/-- Where no two spellings of a component are one, only slashes may be lost. -/
theorem Request.whole_iff (apart : Function.Injective names.key) (r : Request) :
    r.Whole names ↔ (names.legal (r.name.take 255) → ∀ c ∈ r.name.drop 255, c = slash) :=
  forall_congr' fun _ => resolve_take_iff apart r.name 255

section Names

variable {names} {push close : Push}

theorem sdWrite_legal {r : Request} {t : Card κ}
    (ok : (sdWrite names push close t r).1 = espOk) : names.legal (r.name.take 255) = true := by
  cases file : names.fopen (directories names t r) (fullPath r.path r.filename) with
  | false =>
    rw [sdWrite_failed file] at ok
    exact absurd ok espFail_ne_espOk
  | true => exact (Bool.and_eq_true_iff.1 file).1

/-- When the cut name stands for the same entry, or is refused, success means
that the file was written. -/
theorem sdWrite_writes (full : push.IsFull) (closed : close.IsFull) {r : Request}
    (whole : r.Whole names) {t : Card κ}
    (ok : (sdWrite names push close t r).1 = espOk) :
    Writes names t (sdWrite names push close t r).2 r := by
  cases file : names.fopen (directories names t r) (fullPath r.path r.filename) with
  | false =>
    rw [sdWrite_failed file] at ok
    exact absurd ok espFail_ne_espOk
  | true =>
    have ⟨legal, free⟩ := Bool.and_eq_true_iff.1 file
    have node (p : List κ) := Tree.store_node (of_decide_eq_true free) r.contents p
    rw [fullPath_eq, whole legal] at node
    rw [sdWrite_opened full closed file, fullPath_eq, whole legal]
    refine ⟨by rw [node, if_pos rfl], fun p old other there => ?_⟩
    rw [node, if_neg other, directories_kept there]

theorem sdWrite_over (full : push.IsFull) (closed : close.IsFull) {r : Request}
    (legal : names.legal (r.name.take 255)) {t : Card κ} {old : List Byte}
    (there : t.node (names.entry (r.name.take 255)) = some (.file old)) :
    (sdWrite names push close t r).1 = espOk ∧
      (sdWrite names push close t r).2.node (names.entry (r.name.take 255)) =
        some (.file r.contents) := by
  have free : (directories names t r).Free (names.entry (r.name.take 255)) :=
    Tree.free_of_file (directories_kept there)
  have file : names.fopen (directories names t r) (fullPath r.path r.filename) = true :=
    Bool.and_eq_true_iff.2 ⟨legal, decide_eq_true free⟩
  rw [sdWrite_opened full closed file, fullPath_eq]
  exact ⟨rfl, Tree.store_same free _⟩

/-- A card on which the cut name is a file already, with other bytes in it. -/
theorem writes_only_if (full : push.IsFull) (closed : close.IsFull) {r : Request}
    (claim : ∀ t : Card κ, (sdWrite names push close t r).1 = espOk →
      Writes names t (sdWrite names push close t r).2 r) : r.Whole names := by
  intro legal
  by_contra other
  obtain ⟨t, old⟩ : ∃ t : Card κ,
      t.node (names.entry (r.name.take 255)) = some (.file (0 :: r.contents)) :=
    ⟨Tree.single _ (entry_ne_nil names r) (0 :: r.contents), if_pos rfl⟩
  have ⟨ok, written⟩ := sdWrite_over full closed legal old
  have kept := (claim t ok).others _ _ other old
  rw [written] at kept
  simp at kept

end Names

/-- Two calls that report success leave both files with their own data,
whatever the data are. -/
def KeepBoth (r r' : Request) : Prop :=
  ∀ push close : Push, push.IsFull → close.IsFull → ∀ (t : Card κ) data length data' length',
    let first := sdWrite names push close t (r.carrying data length)
    let second := sdWrite names push close first.2 (r'.carrying data' length')
    first.1 = espOk → second.1 = espOk →
      second.2.node (names.entry r.name) = some (.file (bytes data length)) ∧
      second.2.node (names.entry r'.name) = some (.file (bytes data' length'))

/-- The names stand for different entries, or one of the calls is refused. -/
def Request.Apart (r r' : Request) : Prop :=
  names.legal (r.name.take 255) → names.legal (r'.name.take 255) →
    names.entry r.name ≠ names.entry r'.name

section Pairs

variable {names} {r r' : Request}

theorem keepBoth_of_apart (whole : r.Whole names) (whole' : r'.Whole names)
    (apart : r.Apart names r') : KeepBoth names r r' := by
  intro push close full closed t data length data' length' first second ok ok'
  have wrote := sdWrite_writes full closed (r := r.carrying data length) whole ok
  have wrote' := sdWrite_writes full closed (r := r'.carrying data' length') whole' ok'
  have other := apart (sdWrite_legal (r := r.carrying data length) ok)
    (sdWrite_legal (r := r'.carrying data' length') ok')
  exact ⟨wrote'.others _ _ other wrote.content, wrote'.content⟩

/-- On one entry the second call replaces what the first has written. -/
theorem apart_of_keepBoth (whole : r.Whole names) (whole' : r'.Whole names)
    (keep : KeepBoth names r r') : r.Apart names r' := by
  intro legal legal' same
  have cut : names.entry (r'.name.take 255) = names.entry (r.name.take 255) := by
    rw [whole legal, whole' legal', same]
  obtain ⟨t, old⟩ : ∃ t : Card κ, t.node (names.entry (r.name.take 255)) = some (.file []) :=
    ⟨Tree.single _ (entry_ne_nil names r) [], if_pos rfl⟩
  have taken : (Push.full 0).IsFull := trivial
  have ⟨ok, written⟩ := sdWrite_over taken taken
    (r := r.carrying (fun _ => 0) 1) legal old
  have ⟨ok', _⟩ := sdWrite_over taken taken
    (r := r'.carrying (fun _ => 0) 0) legal' (cut ▸ written)
  have ⟨mine, yours⟩ := keep _ _ taken taken t _ _ _ _ ok ok'
  rw [same, yours] at mine
  cases mine

end Pairs

/-- Two hundred and fifty-five letters, of which eight are lost. -/
def longRequest : Request := ⟨[], List.replicate 255 0x61, fun _ => 0x41, 1⟩

end CameraBoard.Sd
