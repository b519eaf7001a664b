import CameraBoard.WavHeader
import CameraBoard.General.BufferedStream

/-! The recording loop: a header computed from the intended length, then whole
blocks read from the microphone channel until a running total has passed that
length. What the channel delivers and what the pushes of the file stream do are
inputs of the model. -/
namespace CameraBoard.RecordWav
open BufferedStream

def i2sChanNum : Nat := 2
def i2sSampleRate : Nat := 48000
def i2sSampleBits : Nat := 32
def exampleRecordTimeSec : Nat := 10
def exampleRecordPath : CStr := ascii "/sdcard/xzhi.WAV"

/-- `sizeof(i2s_readraw_buff)`. -/
def rawBuffSize : Nat := 8192

def byteRate : Nat := i2sSampleRate * i2sChanNum * i2sSampleBits / 8
def wavSize : Nat := byteRate * exampleRecordTimeSec

def wavHeader : WavHeader :=
  .pcmDefault (BitVec.ofNat 32 wavSize) i2sSampleBits i2sSampleRate i2sChanNum

theorem wavHeader_wellFormed : wavHeader.WellFormed :=
  ⟨rfl, rfl, rfl, rfl, by decide, by decide, by decide⟩

theorem wavHeader_promises : wavHeader.dataChunk.subchunkSize.toNat = wavSize := by decide

theorem wavHeader_sizes : wavHeader.descriptorChunk.chunkSize.toNat + 8 =
    WavHeader.size + wavHeader.dataChunk.subchunkSize.toNat := by decide

/-- One call of `i2s_channel_read`: the status and the bytes it stored. -/
structure ReadResult where
  err : EspErr
  block : List Byte
  bound : block.length ≤ rawBuffSize

structure RecordEnv where
  handle : Bool
  fopen : CStr → Bool
  enable : EspErr
  read : Nat → ReadResult
  push : Nat → Push
  close : Push
  rawBuff : List Byte

/-- The locals of the recording with the static buffer and the stream. -/
structure Recording where
  wavWritten : Nat
  rawBuff : List Byte
  reads : Nat
  stream : Stream Byte

/-- Stores the next block at the head of the buffer. -/
def i2sChannelRead (env : RecordEnv) (r : Recording) : EspErr × Nat × Recording :=
  let got := env.read r.reads
  (got.err, got.block.length,
    { r with
      rawBuff := got.block ++ r.rawBuff.drop got.block.length
      reads := r.reads + 1 })

def recordStep (env : RecordEnv) (r : Recording) : Except (EspErr × Recording) Recording :=
  let (err, bytesRead, r) := i2sChannelRead env r
  if err ≠ espOk then .error (err, r)
  else
    let (items, stream) := r.stream.write (r.rawBuff.take bytesRead) 1 (env.push r.reads)
    if items = 0 then .error (espFail, { r with stream })
    else .ok { r with stream, wavWritten := (r.wavWritten + bytesRead) % UInt32.size }

def ReadResult.Usable (got : ReadResult) : Prop := got.err = espOk ∧ got.block ≠ []

instance (got : ReadResult) : Decidable got.Usable := inferInstanceAs (Decidable (_ ∧ _))

def advance (env : RecordEnv) (r : Recording) : Recording where
  wavWritten := (r.wavWritten + (env.read r.reads).block.length) % UInt32.size
  rawBuff := (env.read r.reads).block ++ r.rawBuff.drop (env.read r.reads).block.length
  reads := r.reads + 1
  stream := (r.stream.write (env.read r.reads).block 1 (env.push (r.reads + 1))).2

theorem recordStep_ok {env : RecordEnv} {r : Recording} (usable : (env.read r.reads).Usable)
    (full : (env.push (r.reads + 1)).IsFull) : recordStep env r = .ok (advance env r) := by
  simp [recordStep, i2sChannelRead, advance, write_one_returned, usable.1, usable.2, full]

theorem recordStep_error {env : RecordEnv} {r : Recording}
    (stuck : ¬((env.read r.reads).Usable ∧ (env.push (r.reads + 1)).IsFull)) :
    ∃ ret r', recordStep env r = .error (ret, r') ∧ ret ≠ espOk ∧
      (r.stream.Open → r'.stream.Open) ∧ r'.wavWritten = r.wavWritten ∧
      r'.reads = r.reads + 1 ∧ r'.stream.accepted = r.stream.accepted := by
  by_cases ok : (env.read r.reads).err = espOk
  · have short : ¬((env.read r.reads).block ≠ [] ∧ (env.push (r.reads + 1)).IsFull) :=
      fun h => stuck ⟨⟨ok, h.1⟩, h.2⟩
    refine ⟨espFail, { advance env r with wavWritten := r.wavWritten }, ?_,
      espFail_ne_espOk, Stream.Open.write, rfl, rfl, ?_⟩
    · simp [recordStep, i2sChannelRead, advance, write_one_returned, ok, short]
    · simp [advance, write_one_accepted, write_one_returned, short]
  · refine ⟨(env.read r.reads).err, (i2sChannelRead env r).2.2, ?_, ok, id, rfl, rfl, rfl⟩
    simp [recordStep, i2sChannelRead, ok]

theorem recordStep_progress {env : RecordEnv} {r r' : Recording} (more : r.wavWritten < wavSize)
    (h : recordStep env r = .ok r') : wavSize - r'.wavWritten < wavSize - r.wavWritten := by
  by_cases go : (env.read r.reads).Usable ∧ (env.push (r.reads + 1)).IsFull
  · rw [recordStep_ok go.1 go.2, Except.ok.injEq] at h
    have some := List.length_pos_iff.2 go.1.2
    have bound := (env.read r.reads).bound
    have far : wavSize + rawBuffSize < UInt32.size := by decide
    have sum : r'.wavWritten = r.wavWritten + (env.read r.reads).block.length := by
      rw [← h]
      exact Nat.mod_eq_of_lt (by omega)
    omega
  · obtain ⟨ret, r'', eq, -⟩ := recordStep_error go
    rw [eq] at h
    exact absurd h (by simp)

/-- The loop. A pass that goes on has written something, so the total grows. -/
def recordLoop (env : RecordEnv) (r : Recording) : EspErr × Recording :=
  if _more : r.wavWritten < wavSize then
    match _next : recordStep env r with
    | .error stop => stop
    | .ok r' => recordLoop env r'
  else (espOk, r)
termination_by wavSize - r.wavWritten
decreasing_by exact recordStep_progress _more _next

def recordBody (env : RecordEnv) : EspErr × Recording :=
  let (items, stream) := opened.write wavHeader.toBytes 1 (env.push 0)
  let start : Recording := ⟨0, env.rawBuff, 0, stream⟩
  if items = 0 then (espFail, start)
  else if env.enable ≠ espOk then (env.enable, start)
  else recordLoop env start

/-- Returns the status and, when the file was opened, the recording with its
stream closed. The results of the disabling and of the close are dropped. -/
def recordWav (env : RecordEnv) : EspErr × Option Recording :=
  if env.handle = false then (espFail, none)
  else if env.fopen exampleRecordPath = false then (espFail, none)
  else
    let (ret, r) := recordBody env
    (ret, some { r with stream := (r.stream.close env.close).2 })

def blocks (env : RecordEnv) (n : Nat) : List Byte :=
  (List.range n).flatMap fun i => (env.read i).block

theorem blocks_succ (env : RecordEnv) (n : Nat) :
    blocks env (n + 1) = blocks env n ++ (env.read n).block := by
  simp [blocks, List.range_succ]

theorem length_blocks_mono (env : RecordEnv) {n m : Nat} (h : n ≤ m) :
    (blocks env n).length ≤ (blocks env m).length := by
  induction m, h using Nat.le_induction with
  | base => rfl
  | succ m _ ih =>
    rw [blocks_succ, List.length_append]
    omega

/-- The first `n` passes go on: every read so far was usable, every write
complete, and before each of them there was still something to record. -/
structure Passes (env : RecordEnv) (n : Nat) : Prop where
  opened : env.handle = true ∧ env.fopen exampleRecordPath = true ∧ env.enable = espOk
  full : ∀ i ≤ n, (env.push i).IsFull
  usable : ∀ i < n, (env.read i).Usable
  more : ∀ i < n, (blocks env i).length < wavSize

/-- After exactly `n` blocks the loop has what it wants. -/
def Completes (env : RecordEnv) (n : Nat) : Prop :=
  Passes env n ∧ wavSize ≤ (blocks env n).length

theorem Completes.unique {env : RecordEnv} {n m : Nat} (hn : Completes env n)
    (hm : Completes env m) : n = m := by
  obtain h | h | h := Nat.lt_trichotomy n m
  · exact absurd hn.2 (Nat.not_le.2 (hm.1.more n h))
  · exact h
  · exact absurd hm.2 (Nat.not_le.2 (hn.1.more m h))

/-- The recording after the header and `r.reads` blocks, all of them written. -/
structure Reached (env : RecordEnv) (r : Recording) : Prop where
  passes : Passes env r.reads
  counted : r.wavWritten = (blocks env r.reads).length
  isOpen : r.stream.Open
  allOk : r.stream.AllOk
  passed : r.stream.passed = wavHeader.toBytes ++ blocks env r.reads
  drained : r.stream.waiting = [] ↔ env.push r.reads = .full 0

theorem Reached.advance {env : RecordEnv} {r : Recording} (h : Reached env r)
    (more : r.wavWritten < wavSize) (usable : (env.read r.reads).Usable)
    (full : (env.push (r.reads + 1)).IsFull) : Reached env (advance env r) := by
  have bound := (env.read r.reads).bound
  have far : wavSize + rawBuffSize < UInt32.size := by decide
  refine ⟨⟨h.passes.opened, fun i hi => ?_, fun i hi => ?_, fun i hi => ?_⟩, ?_,
    h.isOpen.write, write_allOk.2 ⟨h.allOk, .inr full⟩, ?_, write_waiting usable.2 full⟩
  · obtain hi | rfl := Nat.le_succ_iff.1 hi
    · exact h.passes.full i hi
    · exact full
  · obtain hi | rfl := Nat.lt_succ_iff_lt_or_eq.1 hi
    · exact h.passes.usable i hi
    · exact usable
  · obtain hi | rfl := Nat.lt_succ_iff_lt_or_eq.1 hi
    · exact h.passes.more i hi
    · rw [← h.counted]
      exact more
  · change (r.wavWritten + _) % UInt32.size = (blocks env (r.reads + 1)).length
    rw [blocks_succ, List.length_append, ← h.counted]
    exact Nat.mod_eq_of_lt (by omega)
  · change (r.stream.write _ _ _).2.passed = wavHeader.toBytes ++ blocks env (r.reads + 1)
    rw [write_passed, h.passed, blocks_succ, List.append_assoc]

/-- The loop either has all it wants or stops with an error, and then no number
of blocks would have completed the recording. -/
theorem recordLoop_spec (env : RecordEnv) (r : Recording) (h : Reached env r) :
    ((recordLoop env r).1 = espOk ∧ Reached env (recordLoop env r).2 ∧
      Completes env (recordLoop env r).2.reads) ∨
    ((recordLoop env r).1 ≠ espOk ∧ (recordLoop env r).2.stream.Open ∧
      ∀ n, ¬Completes env n) := by
  fun_induction recordLoop env r with
  | case1 r more stop eq =>
    by_cases go : (env.read r.reads).Usable ∧ (env.push (r.reads + 1)).IsFull
    · rw [recordStep_ok go.1 go.2] at eq
      exact absurd eq (by simp)
    · obtain ⟨ret, r', eq', bad, isOpen, -⟩ := recordStep_error go
      rw [eq', Except.error.injEq] at eq
      subst eq
      refine .inr ⟨bad, isOpen h.isOpen, fun n done => ?_⟩
      obtain past | far := Nat.lt_or_ge r.reads n
      · exact go ⟨done.1.usable _ past, done.1.full _ past⟩
      · have := length_blocks_mono env far
        have := h.counted
        have := done.2
        omega
  | case2 r more r' eq ih =>
    by_cases go : (env.read r.reads).Usable ∧ (env.push (r.reads + 1)).IsFull
    · rw [recordStep_ok go.1 go.2, Except.ok.injEq] at eq
      subst eq
      exact ih (h.advance more go.1 go.2)
    · obtain ⟨ret, r'', eq', -⟩ := recordStep_error go
      rw [eq'] at eq
      exact absurd eq (by simp)
  | case3 r done =>
    refine .inl ⟨rfl, h, h.passes, ?_⟩
    rw [← h.counted]
    exact Nat.not_lt.1 done

theorem wavHeader_toBytes_ne_nil : wavHeader.toBytes ≠ [] :=
  List.ne_nil_of_length_pos (by rw [WavHeader.length_toBytes]; decide)

theorem reached_start {env : RecordEnv}
    (opens : env.handle = true ∧ env.fopen exampleRecordPath = true ∧ env.enable = espOk)
    (full : (env.push 0).IsFull) :
    Reached env ⟨0, env.rawBuff, 0, (opened.write wavHeader.toBytes 1 (env.push 0)).2⟩ where
  passes := ⟨opens, fun i hi => by rwa [Nat.le_zero.1 hi], by simp, by simp⟩
  counted := rfl
  isOpen := open_opened.write
  allOk := write_allOk.2 ⟨allOk_opened, .inr full⟩
  passed := write_passed
  drained := write_waiting wavHeader_toBytes_ne_nil full

theorem recordBody_spec {env : RecordEnv}
    (opens : env.handle = true ∧ env.fopen exampleRecordPath = true) :
    ((recordBody env).1 = espOk ∧ Reached env (recordBody env).2 ∧
      Completes env (recordBody env).2.reads) ∨
    ((recordBody env).1 ≠ espOk ∧ (recordBody env).2.stream.Open ∧ ∀ n, ¬Completes env n) := by
  by_cases full : (env.push 0).IsFull
  · by_cases enable : env.enable = espOk
    · have loop := recordLoop_spec env _ (reached_start ⟨opens.1, opens.2, enable⟩ full)
      simpa [recordBody, write_one_returned, wavHeader_toBytes_ne_nil, full, enable] using loop
    · refine .inr ⟨?_, ?_, fun n done => enable done.1.opened.2.2⟩ <;>
        simp [recordBody, write_one_returned, wavHeader_toBytes_ne_nil, full, enable,
          open_opened.write]
  · refine .inr ⟨?_, ?_, fun n done => full (done.1.full 0 (Nat.zero_le n))⟩ <;>
      simp [recordBody, write_one_returned, full, open_opened.write, espFail_ne_espOk]

/-- Success is the case where some number of blocks completes the recording. On
every other path a stream that was opened is closed as well. -/
theorem recordWav_spec (env : RecordEnv) :
    (∃ r, Reached env r ∧ Completes env r.reads ∧
      recordWav env = (espOk, some { r with stream := (r.stream.close env.close).2 })) ∨
    ((∀ n, ¬Completes env n) ∧ (recordWav env).1 ≠ espOk ∧
      ∀ r ∈ (recordWav env).2, ∃ s : Stream Byte, s.Open ∧ r.stream = (s.close env.close).2) := by
  by_cases opens : env.handle = true ∧ env.fopen exampleRecordPath = true
  · have eq : recordWav env = ((recordBody env).1, some { (recordBody env).2 with
        stream := ((recordBody env).2.stream.close env.close).2 }) := by
      simp [recordWav, opens]
    obtain ⟨ok, reached, done⟩ | ⟨bad, isOpen, never⟩ := recordBody_spec opens
    · exact .inl ⟨(recordBody env).2, reached, done, by rw [eq, ok]⟩
    · refine .inr ⟨never, by rwa [eq], fun r hr => ?_⟩
      rw [eq, Option.mem_some_iff] at hr
      exact ⟨_, isOpen, hr ▸ rfl⟩
  · have eq : recordWav env = (espFail, none) := by
      by_cases handle : env.handle = true <;> simp_all [recordWav]
    refine .inr ⟨fun n done => opens ⟨done.1.opened.1, done.1.opened.2.1⟩, ?_, ?_⟩
    · rw [eq]
      exact espFail_ne_espOk
    · simp [eq]

theorem Completes.recordWav {env : RecordEnv} {n : Nat} (done : Completes env n) :
    ∃ r, recordWav env = (espOk, some r) ∧ r.reads = n := by
  obtain ⟨r, -, done', eq⟩ | ⟨never, -⟩ := recordWav_spec env
  · exact ⟨_, eq, done'.unique done⟩
  · exact absurd done (never n)

/-- A recording that reports success leaves a WAV file of the blocks it read. -/
def LeavesWav (env : RecordEnv) : Prop :=
  ∀ r, recordWav env = (espOk, some r) →
    WavHeader.IsWav r.stream.delivered (blocks env r.reads)

theorem Reached.delivered {env : RecordEnv} {r : Recording} (h : Reached env r)
    (closes : env.close.IsFull) :
    (r.stream.close env.close).2.delivered = wavHeader.toBytes ++ blocks env r.reads := by
  rw [h.isOpen.delivered (close_allOk.2 ⟨h.allOk, .inr closes⟩), close_passed, h.passed]

/-- The header was written from the intended length, so a recording completed
by `n` blocks is right exactly when these add up to that length. -/
theorem Completes.leavesWav {env : RecordEnv} {n : Nat} (done : Completes env n)
    (closes : env.close.IsFull) : LeavesWav env ↔ (blocks env n).length = wavSize := by
  obtain ⟨r, reached, done', eq⟩ | ⟨never, -⟩ := recordWav_spec env
  · rw [LeavesWav, eq]
    simp only [Prod.mk.injEq, true_and, Option.some.injEq, forall_eq']
    rw [reached.delivered closes, WavHeader.isWav_iff wavHeader_wellFormed wavHeader_sizes,
      wavHeader_promises, done.unique done', eq_comm]
  · exact absurd done (never n)

/-- When the file opens and the pushes go through, the file is right exactly
when the blocks that end the recording are as long as the header promised. -/
theorem leavesWav_iff (env : RecordEnv) (closes : env.close.IsFull) :
    LeavesWav env ↔ ∀ n, Completes env n → (blocks env n).length = wavSize := by
  obtain ⟨r, -, done, -⟩ | ⟨never, bad, -⟩ := recordWav_spec env
  · rw [done.leavesWav closes]
    exact ⟨fun h n hn => hn.unique done ▸ h, fun h => h _ done⟩
  · refine ⟨fun _ n done => absurd done (never n), fun _ r eq => ?_⟩
    exact absurd (congrArg Prod.fst eq) bad

def steady (n : Nat) (bound : n ≤ rawBuffSize) : RecordEnv where
  handle := true
  fopen _ := true
  enable := espOk
  read _ := ⟨espOk, List.replicate n 0, by simpa using bound⟩
  push _ := .full 0
  close := .full 0
  rawBuff := List.replicate rawBuffSize 0

theorem steady_length_blocks (n : Nat) (bound : n ≤ rawBuffSize) (m : Nat) :
    (blocks (steady n bound) m).length = m * n := by
  induction m with
  | zero => simp [blocks]
  | succ m ih =>
    rw [blocks_succ, List.length_append, ih, Nat.succ_mul]
    simp [steady]

theorem steady_completes (n : Nat) (bound : n ≤ rawBuffSize) (m : Nat) :
    Completes (steady n bound) m ↔ (∀ i < m, i * n < wavSize) ∧ wavSize ≤ m * n := by
  constructor
  · rintro ⟨passes, enough⟩
    rw [steady_length_blocks] at enough
    exact ⟨fun i hi => by simpa [steady_length_blocks] using passes.more i hi, enough⟩
  · rintro ⟨more, enough⟩
    refine ⟨⟨⟨rfl, rfl, rfl⟩, fun _ _ => trivial, fun i hi => ⟨rfl, ?_⟩, fun i hi => ?_⟩, ?_⟩
    · have some : n ≠ 0 := by
        have pos : 0 < wavSize := by decide
        rintro rfl
        omega
      simpa [steady] using some
    · rw [steady_length_blocks]
      exact more i hi
    · rw [steady_length_blocks]
      exact enough

/-- Blocks of 7680 bytes divide the promised length. -/
theorem leavesWav_steady : LeavesWav (steady 7680 (by decide)) := by
  refine (leavesWav_iff (steady 7680 (by decide)) trivial).2 fun n done => ?_
  obtain ⟨more, enough⟩ := (steady_completes _ _ n).1 done
  have size : wavSize = 500 * 7680 := by decide
  rw [steady_length_blocks, size]
  have upper : n ≤ 500 := Nat.not_lt.1 fun h => by
    have := more 500 h
    omega
  omega

/-- The driver fills the whole buffer on every read: 469 blocks of 8192 bytes
follow a header that promises 3840000. -/
theorem leavesWav_overshoots : ¬ ∀ env : RecordEnv, env.close.IsFull → LeavesWav env := by
  intro claim
  have size : wavSize = 3840000 := by decide
  have done : Completes (steady 8192 (by decide)) 469 :=
    (steady_completes _ _ 469).2 ⟨fun i hi => by omega, by omega⟩
  have right := (done.leavesWav trivial).1 (claim _ trivial)
  rw [steady_length_blocks] at right
  omega

end CameraBoard.RecordWav
