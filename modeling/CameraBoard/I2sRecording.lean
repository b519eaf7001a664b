import CameraBoard.I2sReceive
import CameraBoard.RecordWav

/-! The recording from an I2S channel. A reader that takes each buffer as DMA
fills it gets block after block, so a recording can be served to its end. -/
namespace CameraBoard.I2s
open Ring StepRun RecordWav BufferedStream

section Fetch

variable {cfg : DmaConfig} {c : I2sChan} {m : Nat}

/-- The channel runs and all of the first `m` buffers has been read. -/
structure Caught (cfg : DmaConfig) (m : Nat) (c : I2sChan) : Prop where
  running : c.state = .running
  free : c.switching = .free
  queue : c.msgQueue = []
  received : c.received = m * cfg.bufSize
  fetched : c.fetched = m * cfg.bufSize
  used : c.rwPos = cfg.bufSize ∨ c.currPtr = none

theorem dmaStore_fill {k : Nat} (received : c.received = m * cfg.bufSize + k)
    (inside : k < cfg.bufSize) (queue : c.msgQueue = []) :
    dmaStore cfg c = { c.stored cfg with
      msgQueue := if k + 1 = cfg.bufSize then [m % cfg.descNum] else [] } := by
  have buffer : c.received / cfg.bufSize = m := by
    rw [received, Nat.mul_comm, Nat.mul_add_div cfg.pos, Nat.div_eq_of_lt inside, Nat.add_zero]
  have spot : (c.received + 1) % cfg.bufSize = (k + 1) % cfg.bufSize := by
    rw [received, Nat.add_assoc, Nat.mul_add_mod_self_right]
  rw [dmaStore, spot, buffer]
  by_cases last : k + 1 = cfg.bufSize
  · rw [if_pos (by rw [last, Nat.mod_self]), if_pos last]
    simp [i2sDmaRxCallback, I2sChan.stored, queue]
  · have more : k + 1 < cfg.bufSize := by omega
    rw [if_neg (by rw [Nat.mod_eq_of_lt more]; omega), if_neg last, ← queue]
    rfl

/-- DMA fills a buffer, and no more than that is in the ring. -/
theorem run_dma (h : Caught cfg m c) {k : Nat} (inside : k ≤ cfg.bufSize) :
    (∃ bufs, run (I2sChan.next cfg) c (List.replicate k .dma) =
      { c with
        bufs
        received := m * cfg.bufSize + k
        msgQueue := if k = cfg.bufSize then [m % cfg.descNum] else [] }) ∧
    Along (I2sChan.next cfg) (I2sChan.InTime cfg) c (List.replicate k .dma) := by
  induction k with
  | zero =>
    refine ⟨⟨c.bufs, ?_⟩, trivial⟩
    rw [if_neg (Nat.ne_of_lt cfg.pos), ← h.queue, Nat.add_zero, ← h.received]
    rfl
  | succ k ih =>
    obtain ⟨⟨bufs, eq⟩, along⟩ := ih (Nat.le_of_succ_le inside)
    rw [if_neg (Nat.ne_of_lt inside)] at eq
    rw [List.replicate_succ', run_snoc, along_append, eq]
    refine ⟨⟨Function.update bufs (place cfg.descNum cfg.bufSize (m * cfg.bufSize + k))
      (c.input (m * cfg.bufSize + k)), ?_⟩, along, .inr ?_, trivial⟩
    · rw [I2sChan.next, if_pos (.inl h.running), dmaStore_fill rfl inside rfl]
      rfl
    · have round := Nat.mul_le_mul_right cfg.bufSize cfg.two
      have place := h.fetched
      simp only [I2sChan.fetched, I2sChan.delivered] at place ⊢
      omega

/-- Copying stores as many bytes as it has to. -/
theorem run_copy {k size : Nat} (copies : c.reading = .copy k size) :
    ∃ bytes : List Byte, bytes.length = k ∧
      run (I2sChan.next cfg) c (List.replicate k .step) =
        { c with reading := .copy 0 size, dest := c.dest ++ bytes, rwPos := c.rwPos + k } := by
  induction k generalizing c with
  | zero =>
    refine ⟨[], rfl, ?_⟩
    rw [List.append_nil, ← copies]
    rfl
  | succ k ih =>
    have step : c.next cfg .step =
        { c with
          reading := .copy k size
          dest := c.dest ++ [c.bufs (c.currPtr.getD 0, c.rwPos)]
          rwPos := c.rwPos + 1 } := by
      rw [I2sChan.next, readStep, copies]
    obtain ⟨bytes, length, eq⟩ := @ih (c.next cfg .step) (by rw [step])
    rw [step] at eq
    refine ⟨c.bufs (c.currPtr.getD 0, c.rwPos) :: bytes, congrArg (· + 1) length, ?_⟩
    rw [List.replicate_succ, run_cons, step, eq]
    simp only [List.append_assoc, List.singleton_append, Nat.add_assoc, Nat.add_comm 1 k]

/-- DMA fills a buffer that a read waits for, and the read copies all of it. -/
def fetchBuffer (cfg : DmaConfig) : List I2sEvent :=
  List.replicate cfg.bufSize .dma ++ (.step :: List.replicate cfg.bufSize .step ++ [.step, .step])

theorem chunk_buffer (cfg : DmaConfig) (size : Nat) :
    Reading.chunk cfg 0 (cfg.bufSize + size) = .copy cfg.bufSize size := by
  have short : ¬ cfg.bufSize > cfg.bufSize + size := by omega
  simp only [Reading.chunk, Nat.sub_zero, if_neg short, Nat.add_sub_cancel_left]

/-- The read takes the buffer that DMA has filled and copies it. -/
theorem run_takeBuffer (h : Caught cfg m c) {size : Nat}
    (waits : c.reading = .wait (cfg.bufSize + size)) :
    ∃ (bytes : List Byte) (bufs : Nat × Nat → Byte), bytes.length = cfg.bufSize ∧
      run (I2sChan.next cfg) c
          (List.replicate cfg.bufSize .dma ++ .step :: List.replicate cfg.bufSize .step) =
        { c with
          bufs
          received := (m + 1) * cfg.bufSize
          currPtr := some (m % cfg.descNum)
          rwPos := cfg.bufSize
          msgQueue := []
          reading := .copy 0 size
          dest := c.dest ++ bytes } := by
  obtain ⟨⟨bufs, filled⟩, -⟩ := run_dma h (Nat.le_refl cfg.bufSize)
  rw [if_pos rfl] at filled
  let taken : I2sChan := { c with
    bufs, received := m * cfg.bufSize + cfg.bufSize, currPtr := some (m % cfg.descNum), rwPos := 0
    msgQueue := [], reading := .copy cfg.bufSize size }
  have take : (run (I2sChan.next cfg) c (List.replicate cfg.bufSize .dma)).next cfg .step = taken := by
    rw [filled, I2sChan.next, readStep]
    simp only [waits, chunk_buffer, taken]
  obtain ⟨bytes, length, copied⟩ := @run_copy cfg taken cfg.bufSize size rfl
  refine ⟨bytes, bufs, length, ?_⟩
  rw [run_append, run_cons, take, copied, Nat.succ_mul]
  simp only [taken, Nat.zero_add]

theorem fetchBuffer_inTime (h : Caught cfg m c) :
    Along (I2sChan.next cfg) (I2sChan.InTime cfg) c (fetchBuffer cfg) := by
  rw [fetchBuffer, along_append]
  refine ⟨(run_dma h (Nat.le_refl cfg.bufSize)).2, along_of_forall (fun s e he => ?_) _⟩
  cases e with
  | dma => simp at he
  | _ => trivial

/-- After the buffer the read goes on, or returns what it has stored. -/
theorem run_fetchBuffer (h : Caught cfg m c) {size : Nat}
    (waits : c.reading = .wait (cfg.bufSize + size)) :
    ∃ (bytes : List Byte) (c' : I2sChan), bytes.length = cfg.bufSize ∧
      run (I2sChan.next cfg) c (fetchBuffer cfg) = c' ∧ Caught cfg (m + 1) c' ∧
      (if size = 0 then
        c'.reading = .idle ∧ c'.dest = [] ∧ c'.returned = c.returned ++ [(espOk, c.dest ++ bytes)]
      else c'.reading = .wait size ∧ c'.dest = c.dest ++ bytes ∧ c'.returned = c.returned) := by
  obtain ⟨bytes, bufs, length, taken⟩ := run_takeBuffer h waits
  have cut : fetchBuffer cfg =
      (List.replicate cfg.bufSize .dma ++ .step :: List.replicate cfg.bufSize .step) ++
        [.step, .step] := by
    rw [fetchBuffer, List.append_assoc]
  have place := h.fetched
  unfold I2sChan.fetched I2sChan.delivered at place
  rw [List.length_append] at place
  rw [cut, run_append, taken]
  by_cases last : size = 0
  · refine ⟨bytes, _, length, rfl, ?_, ?_⟩
    · simp only [run, List.foldl_cons, List.foldl_nil, I2sChan.next, readStep, I2sChan.ret, last,
        true_or, if_true]
      refine ⟨h.running, h.free, rfl, rfl, ?_, .inl rfl⟩
      simp only [I2sChan.fetched, I2sChan.delivered, List.flatMap_append, List.flatMap_singleton,
        List.length_append, List.length_nil, length, Nat.succ_mul]
      omega
    · simp [run, I2sChan.next, readStep, I2sChan.ret, last]
  · refine ⟨bytes, _, length, rfl, ?_, ?_⟩
    · simp only [run, List.foldl_cons, List.foldl_nil, I2sChan.next, readStep, last, h.running,
        ne_eq, not_true_eq_false, or_self, if_false, true_or, if_true]
      refine ⟨rfl, h.free, rfl, rfl, ?_, .inl rfl⟩
      simp only [I2sChan.fetched, I2sChan.delivered, List.length_append, length, Nat.succ_mul]
      omega
    · simp [run, I2sChan.next, readStep, h.running, last]

theorem run_fetchBuffers (h : Caught cfg m c) {n : Nat}
    (waits : c.reading = .wait ((n + 1) * cfg.bufSize)) :
    ∃ (bytes : List Byte) (c' : I2sChan), bytes.length = (n + 1) * cfg.bufSize ∧
      run (I2sChan.next cfg) c (List.replicate (n + 1) (fetchBuffer cfg)).flatten = c' ∧
      Caught cfg (m + (n + 1)) c' ∧ c'.reading = .idle ∧ c'.dest = [] ∧
      c'.returned = c.returned ++ [(espOk, c.dest ++ bytes)] ∧
      Along (I2sChan.next cfg) (I2sChan.InTime cfg) c
        (List.replicate (n + 1) (fetchBuffer cfg)).flatten := by
  induction n generalizing m c with
  | zero =>
    rw [Nat.zero_add, Nat.one_mul] at waits
    have last : c.reading = .wait (cfg.bufSize + 0) := waits
    obtain ⟨bytes, c', length, eq, caught, rest⟩ := run_fetchBuffer h last
    obtain ⟨idle, empty, returned⟩ := (if_pos rfl).mp rest
    refine ⟨bytes, c', by omega, by simpa using eq, caught, idle, empty, returned, ?_⟩
    simpa using fetchBuffer_inTime h
  | succ n ih =>
    have more : (n + 1) * cfg.bufSize ≠ 0 := Nat.mul_ne_zero (Nat.succ_ne_zero n) (Nat.ne_of_gt cfg.pos)
    rw [Nat.succ_mul, Nat.add_comm] at waits
    obtain ⟨bytes, c', length, eq, caught, rest⟩ := run_fetchBuffer h waits
    rw [if_neg more] at rest
    obtain ⟨still, dest, returned⟩ := rest
    obtain ⟨bytes', c'', length', eq', caught', idle, empty, returned', along'⟩ := ih caught still
    refine ⟨bytes ++ bytes', c'', ?_, ?_, ?_, idle, empty, ?_, ?_⟩
    · rw [List.length_append, length, length', Nat.succ_mul (n + 1), Nat.add_comm]
    · rw [List.replicate_succ, List.flatten_cons, run_append, eq, eq']
    · rwa [Nat.add_assoc, Nat.add_comm 1] at caught'
    · rw [returned', returned, dest, List.append_assoc]
    · rw [List.replicate_succ, List.flatten_cons, along_append, eq]
      exact ⟨fetchBuffer_inTime h, along'⟩

/-- A read of so many whole buffers. -/
def readBuffers (cfg : DmaConfig) (n : Nat) : List I2sEvent :=
  .read (n * cfg.bufSize) :: .step :: (List.replicate n (fetchBuffer cfg)).flatten

theorem run_readBuffers (h : Caught cfg m c) (idle : c.reading = .idle) (empty : c.dest = []) (n : Nat) :
    ∃ (bytes : List Byte) (c' : I2sChan), bytes.length = (n + 1) * cfg.bufSize ∧
      run (I2sChan.next cfg) c (readBuffers cfg (n + 1)) = c' ∧
      Caught cfg (m + (n + 1)) c' ∧ c'.reading = .idle ∧ c'.dest = [] ∧
      c'.returned = c.returned ++ [(espOk, bytes)] ∧
      Along (I2sChan.next cfg) (I2sChan.InTime cfg) c (readBuffers cfg (n + 1)) := by
  have more : (n + 1) * cfg.bufSize ≠ 0 := Nat.mul_ne_zero (Nat.succ_ne_zero n) (Nat.ne_of_gt cfg.pos)
  have waiting : run (I2sChan.next cfg) c [.read ((n + 1) * cfg.bufSize), .step] =
      { c with reading := .wait ((n + 1) * cfg.bufSize) } := by
    have used := h.used
    simp [run, I2sChan.next, I2sChan.Readable, readStep, h.running, h.free, idle, more, used]
  have caught : Caught cfg m { c with reading := .wait ((n + 1) * cfg.bufSize) } :=
    ⟨h.running, h.free, h.queue, h.received, h.fetched, h.used⟩
  have cut : readBuffers cfg (n + 1) = [.read ((n + 1) * cfg.bufSize), .step] ++
      (List.replicate (n + 1) (fetchBuffer cfg)).flatten := rfl
  obtain ⟨bytes, c', length, eq, caught, idle, nothing, returned, along⟩ := run_fetchBuffers caught rfl
  refine ⟨bytes, c', length, ?_, caught, idle, nothing, ?_, ?_⟩
  · rw [cut, run_append, waiting, eq]
  · simpa [empty] using returned
  · rw [cut, along_append, waiting]
    exact ⟨⟨trivial, trivial, trivial⟩, along⟩

/-- Read after read comes back full. -/
theorem run_reads (h : Caught cfg m c) (idle : c.reading = .idle) (empty : c.dest = []) (k n : Nat) :
    ∃ (stored : List (List Byte)) (c' : I2sChan), stored.length = n ∧
      (∀ bytes ∈ stored, bytes.length = (k + 1) * cfg.bufSize) ∧
      run (I2sChan.next cfg) c (List.replicate n (readBuffers cfg (k + 1))).flatten = c' ∧
      c'.returned = c.returned ++ stored.map (Prod.mk espOk) ∧
      Along (I2sChan.next cfg) (I2sChan.InTime cfg) c
        (List.replicate n (readBuffers cfg (k + 1))).flatten := by
  induction n generalizing m c with
  | zero =>
    refine ⟨[], c, rfl, List.forall_mem_nil _, rfl, ?_, trivial⟩
    rw [List.map_nil, List.append_nil]
  | succ n ih =>
    obtain ⟨bytes, c', length, eq, caught, idle', empty', returned, along⟩ :=
      run_readBuffers h idle empty k
    obtain ⟨stored, c'', count, lengths, eq', returned', along'⟩ := ih caught idle' empty'
    refine ⟨bytes :: stored, c'', congrArg (· + 1) count, List.forall_mem_cons.2 ⟨length, lengths⟩,
      ?_, ?_, ?_⟩
    · rw [List.replicate_succ, List.flatten_cons, run_append, eq, eq']
    · rw [returned', returned, List.append_assoc, List.map_cons]
      rfl
    · rw [List.replicate_succ, List.flatten_cons, along_append, eq]
      exact ⟨along, along'⟩

end Fetch

/-- A channel that is enabled and then read `n` times, `k` buffers a time, as DMA
fills it. -/
def readThrough (cfg : DmaConfig) (input : Nat → Byte) (k n : Nat) : List I2sEvent :=
  [.enable input, .enabling, .enabling] ++ (List.replicate n (readBuffers cfg k)).flatten

theorem caught_enabled (cfg : DmaConfig) (bufs : Nat × Nat → Byte) (input : Nat → Byte) :
    Caught cfg 0 (run (I2sChan.next cfg) (i2sNewChannel bufs) [.enable input, .enabling, .enabling]) := by
  refine ⟨rfl, rfl, rfl, (Nat.zero_mul _).symm, ?_, .inr rfl⟩
  change 0 / cfg.bufSize * cfg.bufSize + 0 = 0 * cfg.bufSize
  simp

theorem channel_readThrough (cfg : DmaConfig) (bufs : Nat × Nat → Byte) (input : Nat → Byte)
    (k n : Nat) :
    (∃ stored : List (List Byte), stored.length = n ∧
      (∀ bytes ∈ stored, bytes.length = (k + 1) * cfg.bufSize) ∧
      (channel cfg bufs (readThrough cfg input (k + 1) n)).returned = stored.map (Prod.mk espOk)) ∧
    ReadInTime cfg bufs (readThrough cfg input (k + 1) n) ∧
    EnabledPromptly cfg bufs (readThrough cfg input (k + 1) n) := by
  obtain ⟨stored, c', count, lengths, eq, returned, along⟩ :=
    run_reads (caught_enabled cfg bufs input) rfl rfl k n
  refine ⟨⟨stored, count, lengths, ?_⟩, ?_, ?_⟩
  · rw [channel, readThrough, run_append, eq, returned]
    rfl
  · rw [ReadInTime, readThrough, along_append]
    exact ⟨⟨trivial, trivial, trivial, trivial⟩, along⟩
  · rw [EnabledPromptly, readThrough, along_append]
    refine ⟨⟨trivial, nofun, fun _ => cfg.pos, trivial⟩, along_of_forall (fun s e he => ?_) _⟩
    cases e with
    | enabling => simp [readBuffers, fetchBuffer] at he
    | _ => trivial

/-- The reads of a recording that went well are those of the channel. -/
def Serves (c : I2sChan) (env : RecordEnv) : Prop :=
  ∀ i, (env.read i).err = espOk → c.returned[i]? = some (espOk, (env.read i).block)

theorem blocks_eq_take {c : I2sChan} {env : RecordEnv} {n : Nat}
    (reads : ∀ i < n, c.returned[i]? = some (espOk, (env.read i).block)) :
    blocks env n = (c.returned.take n).flatMap Prod.snd := by
  induction n with
  | zero => rfl
  | succ n ih =>
    rw [blocks_succ, ih fun i hi => reads i (Nat.lt_succ_of_lt hi), List.take_add_one,
      reads n (Nat.lt_succ_self n), List.flatMap_append]
    simp

theorem blocks_eq_streamed {c : I2sChan} {env : RecordEnv} {n : Nat}
    (stream : c.delivered = streamed c.input c.skipped c.delivered.length)
    (reads : ∀ i < n, c.returned[i]? = some (espOk, (env.read i).block)) :
    blocks env n = streamed c.input c.skipped (blocks env n).length := by
  have whole : blocks env n ++ ((c.returned.drop n).flatMap Prod.snd ++ c.dest) = c.delivered := by
    rw [blocks_eq_take reads, ← List.append_assoc, ← List.flatMap_append, List.take_append_drop]
    rfl
  have short : (blocks env n).length ≤ c.delivered.length := by
    rw [← whole, List.length_append]
    exact Nat.le_add_right _ _
  rw [← take_streamed c.input c.skipped short, ← stream, ← whole, List.take_left]

/-- A recording that gets what the reads of the channel have returned. -/
def servedBy (c : I2sChan) : RecordEnv where
  handle := true
  fopen _ := true
  enable := espOk
  read i :=
    match c.returned[i]? with
    | some (err, block) =>
      if bound : block.length ≤ rawBuffSize then ⟨err, block, bound⟩
      else ⟨espErrTimeout, [], Nat.zero_le _⟩
    | none => ⟨espErrTimeout, [], Nat.zero_le _⟩
  push _ := .full 0
  close := .full 0
  rawBuff := List.replicate rawBuffSize 0

section Served

variable {c : I2sChan}

theorem read_servedBy {i : Nat} {block : List Byte} (got : c.returned[i]? = some (espOk, block))
    (bound : block.length ≤ rawBuffSize) : (servedBy c).read i = ⟨espOk, block, bound⟩ := by
  simp only [servedBy, got, dif_pos bound]

theorem serves_servedBy (c : I2sChan) : Serves c (servedBy c) := by
  intro i ok
  simp only [servedBy] at ok ⊢
  cases got : c.returned[i]? with
  | none =>
    rw [got] at ok
    exact absurd ok (by decide)
  | some entry =>
    obtain ⟨err, block⟩ := entry
    simp only [got] at ok ⊢
    split_ifs at ok ⊢ with bound
    · exact congrArg (fun err => some (err, block)) ok
    · exact absurd ok (by decide)

variable (full : ∀ i < 469, ∃ block,
  c.returned[i]? = some (espOk, block) ∧ block.length = rawBuffSize)
include full

theorem read_full {i : Nat} (hi : i < 469) : ((servedBy c).read i).err = espOk ∧
    ((servedBy c).read i).block.length = rawBuffSize := by
  obtain ⟨block, got, length⟩ := full i hi
  rw [read_servedBy got (Nat.le_of_eq length)]
  exact ⟨rfl, length⟩

theorem length_blocks_full {n : Nat} (hn : n ≤ 469) :
    (blocks (servedBy c) n).length = n * rawBuffSize := by
  induction n with
  | zero => exact (Nat.zero_mul _).symm
  | succ n ih =>
    rw [blocks_succ, List.length_append, ih (Nat.le_of_succ_le hn), (read_full full hn).2,
      Nat.succ_mul]

/-- So many full blocks are what a recording wants. -/
theorem completes_full : Completes (servedBy c) 469 := by
  obtain ⟨total, raw⟩ : wavSize = 3840000 ∧ rawBuffSize = 8192 := by decide
  refine ⟨⟨⟨rfl, rfl, rfl⟩, fun _ _ => trivial, fun i hi => ?_, fun i hi => ?_⟩, ?_⟩
  · obtain ⟨ok, length⟩ := read_full full hi
    exact ⟨ok, List.ne_nil_of_length_pos (by omega)⟩
  · rw [length_blocks_full full (Nat.le_of_lt hi), raw]
    omega
  · rw [length_blocks_full full (Nat.le_refl 469), raw]
    omega

end Served

/-- The six buffers of the default configuration, of 2048 bytes: four of them make
a block of the recording. -/
def sixBuffers : DmaConfig := ⟨6, 2048, Nat.le_add_left 2 4, Nat.succ_pos 2047⟩

end CameraBoard.I2s
