import CameraBoard.RecordWav

/-! Writing a file to the card in one call, and what the two functions that
write files promise by returning success. -/
namespace CameraBoard.Sd
open BufferedStream RecordWav

def mountPoint : CStr := ascii "/sdcard"

def slash : Byte := 0x2f

/-- What `snprintf` leaves in a buffer of `size` bytes. -/
def snprintf (size : Nat) (text : CStr) : CStr := text.take (size - 1)

/-- The paths passed to `mkdir`, in order: every prefix that ends before a
slash, then the whole directory without its trailing slash. -/
def createDirectoryRecursive (dir : CStr) : List CStr :=
  let tmp := snprintf 256 dir
  let tmp := if tmp.getLast? = some slash then tmp.dropLast else tmp
  let cuts := (List.range tmp.length).filter fun i => 1 ≤ i ∧ tmp[i]? = some slash
  cuts.map tmp.take ++ [tmp]

def fullPath (path filename : CStr) : CStr :=
  snprintf 256 (mountPoint ++ path ++ [slash] ++ filename)

def dirPath (path : CStr) : CStr := snprintf 256 (mountPoint ++ path)

structure WriteEnv where
  fopen : CStr → Bool
  push : Push
  close : Push

structure WriteResult where
  ret : EspErr
  mkdirs : List CStr
  file : Option (Stream Byte)

def bytes (data : Nat → Byte) (length : Nat) : List Byte := (List.range length).map data

/-- The result of the close is dropped. -/
def sdWriteData (env : WriteEnv) (path filename : CStr) (data : Nat → Byte) (length : Nat) :
    WriteResult :=
  let mkdirs := createDirectoryRecursive (dirPath path)
  if env.fopen (fullPath path filename) = false then ⟨espFail, mkdirs, none⟩
  else
    let (bytesWritten, stream) := opened.write (bytes data length) length env.push
    let stream := (stream.close env.close).2
    if bytesWritten ≠ length then ⟨espFail, mkdirs, some stream⟩
    else ⟨espOk, mkdirs, some stream⟩

/-- Success means that everything handed to the stream is in the file, any push
that failed or was short shows in the status, and an opened stream is closed
once and not used again. -/
structure Reliable (ret : EspErr) (file : Option (Stream Byte)) : Prop where
  delivered : ∀ s ∈ file, ret = espOk → s.delivered = s.passed
  reported : ∀ s ∈ file, ¬s.AllOk → ret ≠ espOk
  wellUsed : ∀ s ∈ file, s.WellUsed

/-- For a stream that is closed at the end, only a failure that the status
hides can break the promise. -/
theorem reliable_close_iff {ret : EspErr} {s : Stream Byte} {close : Push} (isOpen : s.Open) :
    Reliable ret (some (s.close close).2) ↔ (ret = espOk → (s.close close).2.AllOk) := by
  constructor
  · intro h ok
    by_contra failed
    exact h.reported _ rfl failed ok
  · intro h
    refine ⟨?_, ?_, ?_⟩ <;> rintro _ ⟨⟩
    · exact fun ok => isOpen.delivered (h ok)
    · exact fun failed ok => failed (h ok)
    · exact isOpen.wellUsed

theorem reliable_none (ret : EspErr) : Reliable ret none :=
  ⟨by simp, by simp, by simp⟩

section SdWriteData

variable {env : WriteEnv} {path filename : CStr} {data : Nat → Byte} {length : Nat}

theorem sdWriteData_opened (file : env.fopen (fullPath path filename) = true) :
    sdWriteData env path filename data length =
      { ret := if (opened.write (bytes data length) length env.push).1 = length then espOk
          else espFail
        mkdirs := createDirectoryRecursive (dirPath path)
        file := some ((opened.write (bytes data length) length env.push).2.close env.close).2 } := by
  by_cases all : (opened.write (bytes data length) length env.push).1 = length <;>
    simp [sdWriteData, file, all]

theorem sdWriteData_failed (file : env.fopen (fullPath path filename) = false) :
    sdWriteData env path filename data length =
      ⟨espFail, createDirectoryRecursive (dirPath path), none⟩ := by
  simp [sdWriteData, file]

theorem sdWriteData_passed : ∀ s ∈ (sdWriteData env path filename data length).file,
    s.passed = bytes data length := by
  intro s hs
  cases file : env.fopen (fullPath path filename) with
  | false => simp [sdWriteData_failed file] at hs
  | true =>
    rw [sdWriteData_opened file, Option.mem_some_iff] at hs
    rw [← hs, close_passed, write_passed]
    rfl

theorem sdWriteData_ret (file : env.fopen (fullPath path filename) = true) :
    (sdWriteData env path filename data length).ret = espOk ↔ length = 0 ∨ env.push.IsFull := by
  rw [sdWriteData_opened file, ite_eq_left_iff]
  obtain rfl | pos := Nat.eq_zero_or_pos length
  · simp [bytes, Stream.write]
  · rw [write_returned (by simpa [bytes] using pos.ne') pos]
    simp [espFail_ne_espOk, pos.ne']

theorem sdWriteData_reliable :
    Reliable (sdWriteData env path filename data length).ret
        (sdWriteData env path filename data length).file ↔
      (env.fopen (fullPath path filename) = true → length ≠ 0 → env.push.IsFull →
        env.push = .full 0 ∨ env.close.IsFull) := by
  cases file : env.fopen (fullPath path filename) with
  | false => simp [sdWriteData_failed file, reliable_none]
  | true =>
    have status := @sdWriteData_ret _ _ _ data length file
    rw [sdWriteData_opened file] at status ⊢
    rw [reliable_close_iff open_opened.write, status, close_allOk, write_allOk]
    obtain rfl | pos := Nat.eq_zero_or_pos length
    · simp [bytes, Stream.write, opened, Stream.AllOk, Op.ok]
    · have some : bytes data length ≠ [] := by simpa [bytes] using pos.ne'
      simp only [pos.ne', some, false_or, allOk_opened, true_and, ne_eq, not_false_eq_true,
        forall_const]
      exact forall_congr' fun full => by rw [write_waiting some full, and_iff_right full]

end SdWriteData

theorem recordWav_reliable (env : RecordEnv) :
    Reliable (recordWav env).1 ((recordWav env).2.map Recording.stream) ↔
      ∀ n, Completes env n → env.push n = .full 0 ∨ env.close.IsFull := by
  obtain ⟨r, reached, done, eq⟩ | ⟨never, bad, closed⟩ := recordWav_spec env
  · have now : Reliable (recordWav env).1 ((recordWav env).2.map Recording.stream) ↔
        env.push r.reads = .full 0 ∨ env.close.IsFull := by
      rw [eq, Option.map_some, reliable_close_iff reached.isOpen, close_allOk, ← reached.drained]
      simp [reached.allOk]
    rw [now]
    exact ⟨fun h n hn => hn.unique done ▸ h, fun h => h _ done⟩
  · refine ⟨fun _ n done => absurd done (never n), fun _ => ?_⟩
    cases result : (recordWav env).2 with
    | none => exact reliable_none _
    | some r =>
      obtain ⟨s, isOpen, eq⟩ := closed r result
      rw [Option.map_some, eq, reliable_close_iff isOpen]
      exact fun ok => absurd ok bad

/-- Both functions drop the result of the close, so each keeps its promise
exactly when the close cannot matter: it has nothing left to push, or it pushes
everything. -/
theorem reliable_iff (record : RecordEnv) (env : WriteEnv) (path filename : CStr)
    (data : Nat → Byte) (length : Nat) :
    (Reliable (recordWav record).1 ((recordWav record).2.map Recording.stream) ↔
      ∀ n, Completes record n → record.push n = .full 0 ∨ record.close.IsFull) ∧
    (Reliable (sdWriteData env path filename data length).ret
        (sdWriteData env path filename data length).file ↔
      (env.fopen (fullPath path filename) = true → length ≠ 0 → env.push.IsFull →
        env.push = .full 0 ∨ env.close.IsFull)) :=
  ⟨recordWav_reliable record, sdWriteData_reliable⟩

/-- A short text stays in the stream buffer and the card is full when the close
pushes it: nothing is written and the function reports success. -/
theorem reliable_lost : ¬ ∀ (env : WriteEnv) (path filename : CStr) (data : Nat → Byte)
    (length : Nat), Reliable (sdWriteData env path filename data length).ret
      (sdWriteData env path filename data length).file := by
  intro claim
  have kept := claim ⟨fun _ => true, .full 5, .short 0 0⟩ (ascii "/log") (ascii "a.txt")
    (fun _ => 0x41) 5
  exact absurd (kept.delivered _ rfl rfl) (by decide)

end CameraBoard.Sd
