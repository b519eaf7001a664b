import CameraBoard.Esp
import CameraBoard.General.Ring
import CameraBoard.General.StepRun
import Mathlib.Data.List.Range

/-! The I2S channel that the recording reads. DMA stores the stream of the
microphone in a ring of buffers and its callback queues each one that is full;
a read takes them from the queue, and another task may enable and disable the
channel. The copying of a read is cut into bytes and the enabling into its steps,
so that everything else comes between any two of them. DMA runs before the queue
is reset, and what is full by then is lost. -/
namespace CameraBoard.I2s
open Ring StepRun

/-- The ring of a channel: `dma_desc_num` buffers of `buf_size` bytes. -/
structure DmaConfig where
  descNum : Nat
  bufSize : Nat
  two : 2 ≤ descNum
  pos : 0 < bufSize

inductive I2sState where
  | ready
  | running
deriving DecidableEq

/-- Who has the mutex of the channel: nobody, `i2s_channel_enable` when it has
started DMA and when it has set the state too, `i2s_channel_disable` while it
waits for a read to end. -/
inductive Switching where
  | free
  | started
  | marked
  | disabling
deriving DecidableEq

/-- Where `i2s_channel_read` is: nobody calls it, at the head of its loop with
`size` bytes to read, waiting for the queue, or with `canRead` bytes to copy
before `size` are left. -/
inductive Reading where
  | idle
  | head (size : Nat)
  | wait (size : Nat)
  | copy (canRead size : Nat)
deriving DecidableEq

/-- The handle of a receive channel, with the stream since DMA was started, how
much of that DMA has stored, how much was in full buffers when the queue was
reset, and the reads that have returned. The buffers have the numbers of their
descriptors. -/
structure I2sChan where
  state : I2sState
  switching : Switching
  bufs : Nat × Nat → Byte
  input : Nat → Byte
  received : Nat
  skipped : Nat
  msgQueue : List Nat
  currPtr : Option Nat
  rwPos : Nat
  reading : Reading
  dest : List Byte
  returned : List (EspErr × List Byte)

/-- A channel that was created and given its mode. -/
def i2sNewChannel (bufs : Nat × Nat → Byte) : I2sChan where
  state := .ready
  switching := .free
  bufs
  input _ := 0
  received := 0
  skipped := 0
  msgQueue := []
  currPtr := none
  rwPos := 0
  reading := .idle
  dest := []
  returned := []

/-- DMA runs. -/
def I2sChan.On (c : I2sChan) : Prop := c.state = .running ∨ c.switching ≠ .free

instance (c : I2sChan) : Decidable c.On := inferInstanceAs (Decidable (_ ∨ _))

/-- The binary semaphore is given at the end of the enabling and is kept by the
disabling. -/
def I2sChan.Readable (c : I2sChan) : Prop :=
  (c.state = .running ∧ c.switching = .free) ∨ c.switching = .disabling

instance (c : I2sChan) : Decidable c.Readable := inferInstanceAs (Decidable (_ ∨ _))

/-- The start of `i2s_channel_enable`, to where DMA runs. -/
def i2sChannelEnable (input : Nat → Byte) (c : I2sChan) : I2sChan :=
  if c.state = .ready ∧ c.switching = .free then
    { c with switching := .started, input, received := 0, skipped := 0, returned := [] }
  else c

/-- The next step of `i2s_channel_enable`: the state, then the reset of the queue
and the semaphores. -/
def i2sChannelEnabling (cfg : DmaConfig) (c : I2sChan) : I2sChan :=
  match c.switching with
  | .started => { c with state := .running, switching := .marked }
  | .marked =>
    { c with
      msgQueue := []
      skipped := c.received / cfg.bufSize * cfg.bufSize
      switching := .free }
  | _ => c

def i2sChannelDisable (c : I2sChan) : I2sChan :=
  if c.state = .running ∧ c.switching = .free then
    { c with state := .ready, switching := .disabling }
  else c

/-- The rest of `i2s_channel_disable`, once no read has the semaphore. -/
def i2sChannelDisabled (c : I2sChan) : I2sChan :=
  if c.switching = .disabling ∧ c.reading = .idle then
    { c with switching := .free, currPtr := none, rwPos := 0 }
  else c

/-- A full queue loses its oldest buffer. -/
def i2sDmaRxCallback (cfg : DmaConfig) (finishDesc : Nat) (c : I2sChan) : I2sChan :=
  let msgQueue := if c.msgQueue.length = cfg.descNum - 1 then c.msgQueue.tail else c.msgQueue
  { c with msgQueue := msgQueue ++ [finishDesc] }

def I2sChan.stored (cfg : DmaConfig) (c : I2sChan) : I2sChan :=
  { c with
    bufs := Function.update c.bufs (place cfg.descNum cfg.bufSize c.received) (c.input c.received)
    received := c.received + 1 }

/-- One more byte of the stream. The last one of a buffer calls the callback. -/
def dmaStore (cfg : DmaConfig) (c : I2sChan) : I2sChan :=
  if (c.received + 1) % cfg.bufSize = 0 then
    i2sDmaRxCallback cfg (c.received / cfg.bufSize % cfg.descNum) (c.stored cfg)
  else c.stored cfg

def I2sChan.ret (c : I2sChan) (err : EspErr) : I2sChan :=
  { c with reading := .idle, dest := [], returned := c.returned ++ [(err, c.dest)] }

/-- The `memcpy` of one pass: to the end of the buffer, or of what was asked. -/
def Reading.chunk (cfg : DmaConfig) (rwPos size : Nat) : Reading :=
  let bytesCanRead := if cfg.bufSize - rwPos > size then size else cfg.bufSize - rwPos
  .copy bytesCanRead (size - bytesCanRead)

def readStep (cfg : DmaConfig) (c : I2sChan) : I2sChan :=
  match c.reading with
  | .idle => c
  | .head size =>
    if size = 0 ∨ c.state ≠ .running then c.ret espOk
    else if c.rwPos = cfg.bufSize ∨ c.currPtr = none then { c with reading := .wait size }
    else { c with reading := .chunk cfg c.rwPos size }
  | .wait size =>
    match c.msgQueue with
    | [] => c
    | buf :: msgQueue =>
      { c with currPtr := some buf, rwPos := 0, msgQueue, reading := .chunk cfg 0 size }
  | .copy 0 size => { c with reading := .head size }
  | .copy (canRead + 1) size =>
    { c with
      reading := .copy canRead size
      dest := c.dest ++ [c.bufs (c.currPtr.getD 0, c.rwPos)]
      rwPos := c.rwPos + 1 }

/-- Waiting for a buffer has taken too long. -/
def readTimeout (c : I2sChan) : I2sChan :=
  match c.reading, c.msgQueue with
  | .wait _, [] => c.ret espErrTimeout
  | _, _ => c

inductive I2sEvent where
  | enable (input : Nat → Byte)
  | enabling
  | disable
  | disabled
  | dma
  | read (size : Nat)
  | step
  | timeout

def I2sChan.next (cfg : DmaConfig) (c : I2sChan) : I2sEvent → I2sChan
  | .enable input => i2sChannelEnable input c
  | .enabling => i2sChannelEnabling cfg c
  | .disable => i2sChannelDisable c
  | .disabled => i2sChannelDisabled c
  | .dma => if c.On then dmaStore cfg c else c
  | .read size => if c.Readable ∧ c.reading = .idle then { c with reading := .head size } else c
  | .step => readStep cfg c
  | .timeout => readTimeout c

/-- Everything that reads have stored since the channel was enabled. -/
def I2sChan.delivered (c : I2sChan) : List Byte := c.returned.flatMap Prod.snd ++ c.dest

/-- The place in the stream that a read goes on from. -/
def I2sChan.fetched (c : I2sChan) : Nat := c.skipped + c.delivered.length

def I2sChan.Enabling (c : I2sChan) : Prop := c.switching = .started ∨ c.switching = .marked

instance (c : I2sChan) : Decidable c.Enabling := inferInstanceAs (Decidable (_ ∨ _))

/-- What DMA has stored and no read has fetched is less than the ring. Before
the queue is reset there is nothing to fetch. -/
def I2sChan.InTime (cfg : DmaConfig) (c : I2sChan) : I2sEvent → Prop
  | .dma => c.Enabling ∨ c.received + 1 < c.fetched + cfg.descNum * cfg.bufSize
  | _ => True

/-- No buffer is full when the queue is reset. -/
def I2sChan.Prompt (cfg : DmaConfig) (c : I2sChan) : I2sEvent → Prop
  | .enabling => c.switching = .marked → c.received < cfg.bufSize
  | _ => True

/-- `n` bytes of the stream from place `start` on. -/
def streamed (input : Nat → Byte) (start n : Nat) : List Byte := (List.range' start n).map input

theorem streamed_succ (input : Nat → Byte) (start n : Nat) :
    streamed input start (n + 1) = streamed input start n ++ [input (start + n)] := by
  unfold streamed
  rw [List.range'_1_concat, List.map_append]
  rfl

theorem eq_streamed_of_nil {bytes : List Byte} (nothing : bytes = []) (input : Nat → Byte)
    (start : Nat) : bytes = streamed input start bytes.length := by
  rw [nothing]
  rfl

theorem take_streamed (input : Nat → Byte) (start : Nat) {n m : Nat} (h : n ≤ m) :
    (streamed input start m).take n = streamed input start n := by
  unfold streamed
  rw [← List.map_take, List.take_range'_of_length_ge h]

/-- The places of the buffers `p` to `f`, the ring gone round. -/
def places (n p f : Nat) : List Nat := (List.range' p (f - p)).map (· % n)

section Places

variable {n p f : Nat}

theorem length_places (n p f : Nat) : (places n p f).length = f - p := by
  unfold places
  rw [List.length_map, List.length_range']

theorem places_succ (n : Nat) (h : p ≤ f) : places n p (f + 1) = places n p f ++ [f % n] := by
  have more : f + 1 - p = f - p + 1 := by omega
  have last : p + (f - p) = f := by omega
  unfold places
  rw [more, List.range'_1_concat, List.map_append, last]
  rfl

theorem places_cons {buf : Nat} {rest : List Nat} (h : places n p f = buf :: rest) :
    p < f ∧ buf = p % n ∧ rest = places n (p + 1) f := by
  unfold places at h ⊢
  cases left : f - p with
  | zero =>
    rw [left] at h
    exact absurd h (by simp)
  | succ k =>
    have next : f - (p + 1) = k := by omega
    rw [left, List.range'_succ, List.map_cons] at h
    obtain ⟨head, tail⟩ := List.cons.inj h
    rw [next]
    exact ⟨by omega, head.symm, tail.symm⟩

end Places

/-- A read waits only without a buffer and copies only inside one. -/
def Reading.Fits (cfg : DmaConfig) (currPtr : Option Nat) (rwPos : Nat) : Reading → Prop
  | .wait _ => rwPos = cfg.bufSize ∨ currPtr = none
  | .copy canRead _ => currPtr ≠ none ∧ rwPos + canRead ≤ cfg.bufSize
  | _ => True

/-- After `p` buffers were lost or taken: the queue holds those filled since, the
one at hand is read up to `rwPos`, what was read is the stream, and what of it
was not yet read is in the ring. -/
structure Inv (cfg : DmaConfig) (p : Nat) (c : I2sChan) : Prop where
  taken : p ≤ c.received / cfg.bufSize
  queue : c.msgQueue = places cfg.descNum p (c.received / cfg.bufSize)
  hand : (c.currPtr = none ∧ c.fetched = p * cfg.bufSize) ∨
    ∃ q, p = q + 1 ∧ c.currPtr = some (q % cfg.descNum) ∧ c.rwPos ≤ cfg.bufSize ∧
      c.fetched = q * cfg.bufSize + c.rwPos
  stream : c.delivered = streamed c.input c.skipped c.delivered.length
  holds : Holds cfg.descNum cfg.bufSize c.bufs c.input c.fetched c.received
  fits : c.reading.Fits cfg c.currPtr c.rwPos
  empty : c.reading = .idle → c.dest = []

/-- A channel that is not enabled. -/
structure Off (c : I2sChan) : Prop where
  ready : c.state = .ready
  free : c.switching = .free
  idle : c.reading = .idle
  noBuffer : c.currPtr = none
  empty : c.dest = []
  stream : c.delivered = streamed c.input c.skipped c.delivered.length

/-- A channel whose queue is still to be reset: the buffer that DMA fills is the
only one that matters. -/
structure Starting (cfg : DmaConfig) (c : I2sChan) : Prop where
  enabling : c.Enabling
  marked : c.switching = .marked → c.state = .running
  idle : c.reading = .idle
  noBuffer : c.currPtr = none
  nothing : c.delivered = []
  holds : Holds cfg.descNum cfg.bufSize c.bufs c.input
    (c.received / cfg.bufSize * cfg.bufSize) c.received

section Steps

variable {cfg : DmaConfig} {p : Nat} {c : I2sChan}

theorem Inv.behind (h : Inv cfg p c) : c.fetched ≤ p * cfg.bufSize := by
  obtain ⟨-, nothing⟩ | ⟨q, rfl, -, bound, read⟩ := h.hand
  · exact Nat.le_of_eq nothing
  · rw [read, Nat.add_mul, Nat.one_mul]
    omega

/-- While reads are in time the queue has a place for every full buffer. -/
theorem Inv.room (h : Inv cfg p c)
    (inTime : c.received + 1 < c.fetched + cfg.descNum * cfg.bufSize)
    (filled : (c.received + 1) % cfg.bufSize = 0) : c.msgQueue.length ≠ cfg.descNum - 1 := by
  intro full
  rw [h.queue, length_places] at full
  have two := cfg.two
  have whole := Nat.div_mul_cancel (Nat.dvd_of_mod_eq_zero filled)
  have next := @Nat.succ_div c.received cfg.bufSize
  rw [if_pos (Nat.dvd_of_mod_eq_zero filled)] at next
  have gone : (c.received + 1) / cfg.bufSize = p + cfg.descNum := by
    have taken := h.taken
    omega
  rw [gone, Nat.add_mul] at whole
  have behind := h.behind
  omega

theorem Inv.dmaStore (h : Inv cfg p c)
    (inTime : c.received + 1 < c.fetched + cfg.descNum * cfg.bufSize) :
    Inv cfg p (dmaStore cfg c) := by
  have stored := h.holds.put (Nat.lt_of_succ_lt inTime)
  have next := @Nat.succ_div c.received cfg.bufSize
  unfold I2s.dmaStore
  split_ifs with filled
  · rw [if_pos (Nat.dvd_of_mod_eq_zero filled)] at next
    have kept : ¬ (c.stored cfg).msgQueue.length = cfg.descNum - 1 := h.room inTime filled
    unfold i2sDmaRxCallback
    rw [if_neg kept]
    refine ⟨?_, ?_, h.hand, h.stream, stored, h.fits, h.empty⟩
    · exact Nat.le_trans h.taken (Nat.div_le_div_right (Nat.le_succ _))
    · simp only [I2sChan.stored, next, places_succ _ h.taken, h.queue]
  · have same : (c.received + 1) / cfg.bufSize = c.received / cfg.bufSize := by
      rw [next, if_neg fun dvd => filled (Nat.mod_eq_zero_of_dvd dvd), Nat.add_zero]
    refine ⟨?_, ?_, h.hand, h.stream, stored, h.fits, h.empty⟩
    · exact Nat.le_trans h.taken (Nat.div_le_div_right (Nat.le_succ _))
    · exact h.queue.trans (by simp only [I2sChan.stored, same])

/-- The buffer that DMA fills is in the ring, however long the queue is not
reset. -/
theorem Starting.dmaStore (h : Starting cfg c) : Starting cfg (dmaStore cfg c) := by
  have started := Nat.div_mul_le_self c.received cfg.bufSize
  have buffer := Nat.lt_div_mul_add (a := c.received) cfg.pos
  have round := Nat.mul_le_mul_right cfg.bufSize cfg.two
  have stored := @Holds.put _ cfg.descNum cfg.bufSize _ _ _ _ h.holds (by omega)
  have later : c.received / cfg.bufSize * cfg.bufSize ≤
      (c.received + 1) / cfg.bufSize * cfg.bufSize :=
    Nat.mul_le_mul_right _ (Nat.div_le_div_right (Nat.le_succ _))
  unfold I2s.dmaStore i2sDmaRxCallback
  split_ifs <;> exact ⟨h.enabling, h.marked, h.idle, h.noBuffer, h.nothing, stored.mono later⟩

theorem delivered_ret (c : I2sChan) (err : EspErr) : (c.ret err).delivered = c.delivered := by
  simp [I2sChan.delivered, I2sChan.ret]

theorem Inv.ret (h : Inv cfg p c) (err : EspErr) : Inv cfg p (c.ret err) := by
  have same := delivered_ret c err
  have place : (c.ret err).fetched = c.fetched := congrArg (c.skipped + ·.length) same
  refine ⟨h.taken, h.queue, ?_, ?_, ?_, trivial, fun _ => rfl⟩
  · rw [place]
    exact h.hand
  · rw [same]
    exact h.stream
  · rw [place]
    exact h.holds

theorem Inv.reading (h : Inv cfg p c) (reading : Reading) (busy : reading ≠ .idle)
    (fits : reading.Fits cfg c.currPtr c.rwPos) : Inv cfg p { c with reading } :=
  ⟨h.taken, h.queue, h.hand, h.stream, h.holds, fits, fun idle => absurd idle busy⟩

theorem fits_chunk {currPtr : Option Nat} {rwPos : Nat} (size : Nat) (buffer : currPtr ≠ none)
    (inside : rwPos ≤ cfg.bufSize) : (Reading.chunk cfg rwPos size).Fits cfg currPtr rwPos := by
  refine ⟨buffer, ?_⟩
  split_ifs <;> omega

/-- Taking a buffer: all of the one before has been read. -/
theorem Inv.take (h : Inv cfg p c) {size : Nat} (waits : c.reading = .wait size) {buf : Nat}
    {rest : List Nat} (queue : c.msgQueue = buf :: rest) :
    Inv cfg (p + 1)
      { c with currPtr := some buf, rwPos := 0, msgQueue := rest, reading := .chunk cfg 0 size } := by
  obtain ⟨more, rfl, rfl⟩ := places_cons (h.queue.symm.trans queue)
  have fits := h.fits
  rw [waits] at fits
  refine ⟨more, rfl, .inr ⟨p, rfl, rfl, Nat.zero_le _, ?_⟩, h.stream, h.holds,
    fits_chunk size (Option.some_ne_none _) (Nat.zero_le _), fun idle => absurd idle (by nofun)⟩
  obtain ⟨-, nothing⟩ | ⟨q, rfl, here, -, read⟩ := h.hand
  · exact nothing
  · obtain used | absent := fits
    · exact read.trans (by rw [used, Nat.add_mul, Nat.one_mul, Nat.add_zero])
    · exact absurd (here.symm.trans absent) (Option.some_ne_none _)

/-- Copying a byte: it is the next of the stream and still in the ring. -/
theorem Inv.copy (h : Inv cfg p c) {canRead size : Nat}
    (copies : c.reading = .copy (canRead + 1) size) :
    Inv cfg p
      { c with
        reading := .copy canRead size
        dest := c.dest ++ [c.bufs (c.currPtr.getD 0, c.rwPos)]
        rwPos := c.rwPos + 1 } := by
  have fits := h.fits
  rw [copies] at fits
  obtain ⟨buffer, room⟩ := fits
  obtain ⟨absent, -⟩ | ⟨q, rfl, here, -, read⟩ := h.hand
  · exact absurd absent buffer
  have inside : c.rwPos < cfg.bufSize := by omega
  have fits : c.rwPos + 1 + canRead ≤ cfg.bufSize := by omega
  have spot : place cfg.descNum cfg.bufSize c.fetched = (q % cfg.descNum, c.rwPos) := by
    rw [read, place, Nat.mul_comm, Nat.mul_add_div cfg.pos, Nat.div_eq_of_lt inside, Nat.add_zero,
      Nat.mul_add_mod, Nat.mod_eq_of_lt inside]
  have stored : c.fetched < c.received := by
    have whole := Nat.mul_le_mul_right cfg.bufSize h.taken
    have below := Nat.div_mul_le_self c.received cfg.bufSize
    rw [Nat.add_mul, Nat.one_mul] at whole
    omega
  have byte : c.bufs (c.currPtr.getD 0, c.rwPos) = c.input c.fetched := by
    rw [here, Option.getD_some, ← spot]
    exact h.holds _ (Nat.le_refl _) stored
  have grown : I2sChan.delivered
      { c with
        reading := .copy canRead size
        dest := c.dest ++ [c.bufs (c.currPtr.getD 0, c.rwPos)]
        rwPos := c.rwPos + 1 } = c.delivered ++ [c.input c.fetched] := by
    simp only [I2sChan.delivered, byte, ← List.append_assoc]
  have place : I2sChan.fetched
      { c with
        reading := .copy canRead size
        dest := c.dest ++ [c.bufs (c.currPtr.getD 0, c.rwPos)]
        rwPos := c.rwPos + 1 } = c.fetched + 1 := by
    rw [I2sChan.fetched, grown, List.length_append, List.length_singleton, ← Nat.add_assoc]
    rfl
  refine ⟨h.taken, h.queue, .inr ⟨q, rfl, here, inside, ?_⟩, ?_, ?_, ⟨buffer, fits⟩,
    fun idle => absurd idle (by nofun)⟩
  · rw [place, read]
    rfl
  · rw [grown, List.length_append, List.length_singleton, streamed_succ, ← h.stream]
    rfl
  · rw [place]
    exact h.holds.mono (Nat.le_succ _)

theorem Inv.readStep (h : Inv cfg p c) : ∃ p', Inv cfg p' (readStep cfg c) := by
  unfold I2s.readStep
  cases at_ : c.reading with
  | idle => exact ⟨p, h⟩
  | head size =>
    simp only
    split_ifs with stop needs
    · exact ⟨p, h.ret espOk⟩
    · exact ⟨p, h.reading _ (by nofun) needs⟩
    · have ⟨left, buffer⟩ := not_or.1 needs
      obtain ⟨absent, -⟩ | ⟨-, -, -, bound, -⟩ := h.hand
      · exact absurd absent buffer
      · exact ⟨p, h.reading _ (by nofun) (fits_chunk size buffer bound)⟩
  | wait size =>
    cases queue : c.msgQueue with
    | nil => exact ⟨p, h⟩
    | cons buf rest => exact ⟨p + 1, h.take at_ queue⟩
  | copy canRead size =>
    cases canRead with
    | zero => exact ⟨p, h.reading _ (by nofun) trivial⟩
    | succ canRead => exact ⟨p, h.copy at_⟩

theorem Inv.readTimeout (h : Inv cfg p c) : Inv cfg p (readTimeout c) := by
  unfold I2s.readTimeout
  split
  · exact h.ret espErrTimeout
  · exact h

/-- Nothing that was read before the enabling is left in the way. -/
theorem Off.enable (h : Off c) (cfg : DmaConfig) (input : Nat → Byte) :
    Starting cfg
      { c with switching := .started, input, received := 0, skipped := 0, returned := [] } where
  enabling := .inl rfl
  marked := nofun
  idle := h.idle
  noBuffer := h.noBuffer
  nothing := by simp [I2sChan.delivered, h.empty]
  holds t _ high := absurd high (Nat.not_lt_zero t)

/-- The buffers that are full when the queue is reset are lost. -/
theorem Starting.reset (h : Starting cfg c) :
    Inv cfg (c.received / cfg.bufSize)
      { c with
        msgQueue := []
        skipped := c.received / cfg.bufSize * cfg.bufSize
        switching := .free } := by
  have place : I2sChan.fetched
      { c with
        msgQueue := []
        skipped := c.received / cfg.bufSize * cfg.bufSize
        switching := .free } = c.received / cfg.bufSize * cfg.bufSize :=
    congrArg (c.received / cfg.bufSize * cfg.bufSize + ·.length) h.nothing
  refine ⟨Nat.le_refl _, ?_, .inl ⟨h.noBuffer, place⟩, ?_, ?_, ?_, fun _ => ?_⟩
  · simp [places]
  · exact eq_streamed_of_nil h.nothing _ _
  · rw [place]
    exact h.holds
  · simp only [h.idle]
    trivial
  · exact (List.append_eq_nil_iff.1 h.nothing).2

theorem Off.not_on (h : Off c) : ¬ c.On := by
  unfold I2sChan.On
  rw [h.ready, h.free]
  decide

theorem Off.not_readable (h : Off c) : ¬ c.Readable := by
  unfold I2sChan.Readable
  rw [h.ready, h.free]
  decide

theorem Starting.not_readable (h : Starting cfg c) : ¬ c.Readable := by
  unfold I2sChan.Readable
  obtain started | marked := h.enabling
  · simp [started]
  · simp [marked]

theorem Inv.off (h : Inv cfg p c) (ready : c.state = .ready) (idle : c.reading = .idle) :
    Off { c with switching := .free, currPtr := none, rwPos := 0 } :=
  ⟨ready, rfl, idle, rfl, h.empty idle, h.stream⟩

/-- The channel is off or about to be enabled, or its ring is in order while it
is enabled and while it is being disabled. -/
inductive Sound (cfg : DmaConfig) (c : I2sChan) : Prop where
  | off (h : Off c)
  | starting (h : Starting cfg c)
  | running (state : c.state = .running) (free : c.switching = .free) (p : Nat) (inv : Inv cfg p c)
  | disabling (state : c.state = .ready) (waits : c.switching = .disabling) (p : Nat)
      (inv : Inv cfg p c)

theorem sound_new (cfg : DmaConfig) (bufs : Nat × Nat → Byte) : Sound cfg (i2sNewChannel bufs) :=
  .off ⟨rfl, rfl, rfl, rfl, rfl, rfl⟩

theorem Starting.not_free (h : Starting cfg c) : c.switching ≠ .free := by
  obtain started | marked := h.enabling
  · rw [started]
    decide
  · rw [marked]
    decide

theorem Sound.enable (h : Sound cfg c) (input : Nat → Byte) :
    Sound cfg (i2sChannelEnable input c) := by
  unfold i2sChannelEnable
  split_ifs with free
  · cases h with
    | off h => exact .starting (h.enable cfg input)
    | starting h => exact absurd free.2 h.not_free
    | running state => exact absurd (state.symm.trans free.1) (by nofun)
    | disabling _ waits => exact absurd (waits.symm.trans free.2) (by nofun)
  · exact h

theorem Sound.enabling (h : Sound cfg c) : Sound cfg (i2sChannelEnabling cfg c) := by
  cases h with
  | off h =>
    rw [i2sChannelEnabling, h.free]
    exact .off h
  | starting h =>
    obtain started | marked := h.enabling
    · rw [i2sChannelEnabling, started]
      exact .starting ⟨.inr rfl, fun _ => rfl, h.idle, h.noBuffer, h.nothing, h.holds⟩
    · rw [i2sChannelEnabling, marked]
      exact .running (h.marked marked) rfl _ h.reset
  | running state free p inv =>
    rw [i2sChannelEnabling, free]
    exact .running state free p inv
  | disabling state waits p inv =>
    rw [i2sChannelEnabling, waits]
    exact .disabling state waits p inv

theorem Sound.disable (h : Sound cfg c) : Sound cfg (i2sChannelDisable c) := by
  unfold i2sChannelDisable
  split_ifs with runs
  · cases h with
    | off h => exact absurd (runs.1.symm.trans h.ready) (by nofun)
    | starting h => exact absurd runs.2 h.not_free
    | running _ _ p inv =>
      exact .disabling rfl rfl p
        ⟨inv.taken, inv.queue, inv.hand, inv.stream, inv.holds, inv.fits, inv.empty⟩
    | disabling state => exact absurd (runs.1.symm.trans state) (by nofun)
  · exact h

theorem Sound.disabled (h : Sound cfg c) : Sound cfg (i2sChannelDisabled c) := by
  unfold i2sChannelDisabled
  split_ifs with last
  · cases h with
    | off h => exact absurd (last.1.symm.trans h.free) (by nofun)
    | starting h =>
      obtain started | marked := h.enabling
      · exact absurd (last.1.symm.trans started) (by nofun)
      · exact absurd (last.1.symm.trans marked) (by nofun)
    | running _ free => exact absurd (last.1.symm.trans free) (by nofun)
    | disabling state _ _ inv => exact .off (inv.off state last.2)
  · exact h

/-- DMA and reads do not enable or disable a channel. -/
theorem Sound.work (h : Sound cfg c) {c' : I2sChan} (state : c'.state = c.state)
    (switching : c'.switching = c.switching) (off : Off c → Off c')
    (starting : Starting cfg c → Starting cfg c') (inv : ∀ p, Inv cfg p c → ∃ p', Inv cfg p' c') :
    Sound cfg c' := by
  cases h with
  | off h => exact .off (off h)
  | starting h => exact .starting (starting h)
  | running runs free p h =>
    obtain ⟨p', h'⟩ := inv p h
    exact .running (state.trans runs) (switching.trans free) p' h'
  | disabling ready waits p h =>
    obtain ⟨p', h'⟩ := inv p h
    exact .disabling (state.trans ready) (switching.trans waits) p' h'

theorem Sound.dma (h : Sound cfg c) (on : c.On) (inTime : c.InTime cfg .dma) :
    Sound cfg (I2s.dmaStore cfg c) := by
  have same : (I2s.dmaStore cfg c).state = c.state ∧
      (I2s.dmaStore cfg c).switching = c.switching := by
    unfold I2s.dmaStore
    split_ifs <;> exact ⟨rfl, rfl⟩
  cases h with
  | off h => exact absurd on h.not_on
  | starting h => exact .starting h.dmaStore
  | running state free p inv =>
    have behind := inTime.resolve_left (by simp [I2sChan.Enabling, free])
    exact .running (same.1.trans state) (same.2.trans free) p (inv.dmaStore behind)
  | disabling state waits p inv =>
    have behind := inTime.resolve_left (by simp [I2sChan.Enabling, waits])
    exact .disabling (same.1.trans state) (same.2.trans waits) p (inv.dmaStore behind)

theorem Sound.step (h : Sound cfg c) : Sound cfg (I2s.readStep cfg c) := by
  have still : c.reading = .idle → I2s.readStep cfg c = c := fun idle => by
    rw [I2s.readStep, idle]
  refine h.work ?_ ?_ (fun off => (still off.idle).symm ▸ off)
    (fun start => (still start.idle).symm ▸ start) (fun p inv => inv.readStep)
  · fun_cases I2s.readStep cfg c <;> rfl
  · fun_cases I2s.readStep cfg c <;> rfl

theorem Sound.timeout (h : Sound cfg c) : Sound cfg (I2s.readTimeout c) := by
  have still : c.reading = .idle → I2s.readTimeout c = c := fun idle => by
    rw [I2s.readTimeout, idle]
  refine h.work ?_ ?_ (fun off => (still off.idle).symm ▸ off)
    (fun start => (still start.idle).symm ▸ start) (fun p inv => ⟨p, inv.readTimeout⟩)
  · fun_cases I2s.readTimeout c <;> rfl
  · fun_cases I2s.readTimeout c <;> rfl

theorem Sound.next (h : Sound cfg c) {e : I2sEvent} (inTime : c.InTime cfg e) :
    Sound cfg (c.next cfg e) := by
  cases e with
  | enable input => exact h.enable input
  | enabling => exact h.enabling
  | disable => exact h.disable
  | disabled => exact h.disabled
  | dma =>
    by_cases on : c.On
    · rw [I2sChan.next, if_pos on]
      exact h.dma on inTime
    · rw [I2sChan.next, if_neg on]
      exact h
  | read size =>
    by_cases start : c.Readable ∧ c.reading = .idle
    · rw [I2sChan.next, if_pos start]
      exact h.work rfl rfl (fun off => absurd start.1 off.not_readable)
        (fun starting => absurd start.1 starting.not_readable)
        (fun p inv => ⟨p, inv.reading _ (by nofun) trivial⟩)
    · rw [I2sChan.next, if_neg start]
      exact h
  | step => exact h.step
  | timeout => exact h.timeout

theorem Sound.stream (h : Sound cfg c) :
    c.delivered = streamed c.input c.skipped c.delivered.length := by
  cases h with
  | off h => exact h.stream
  | starting h => exact eq_streamed_of_nil h.nothing _ _
  | running _ _ _ inv => exact inv.stream
  | disabling _ _ _ inv => exact inv.stream

theorem skipped_next (none : c.skipped = 0) {e : I2sEvent} (prompt : c.Prompt cfg e) :
    (c.next cfg e).skipped = 0 := by
  cases e with
  | enable input =>
    simp only [I2sChan.next, i2sChannelEnable]
    split_ifs
    · rfl
    · exact none
  | enabling =>
    simp only [I2sChan.next, i2sChannelEnabling]
    cases switching : c.switching with
    | marked => simp [Nat.div_eq_of_lt (prompt switching)]
    | _ => exact none
  | disable =>
    simp only [I2sChan.next, i2sChannelDisable]
    split_ifs <;> exact none
  | disabled =>
    simp only [I2sChan.next, i2sChannelDisabled]
    split_ifs <;> exact none
  | dma =>
    simp only [I2sChan.next, dmaStore, i2sDmaRxCallback]
    split_ifs <;> exact none
  | read size =>
    simp only [I2sChan.next]
    split_ifs <;> exact none
  | step => exact (by fun_cases readStep cfg c <;> rfl : (readStep cfg c).skipped = c.skipped).trans none
  | timeout => exact (by fun_cases readTimeout c <;> rfl : (readTimeout c).skipped = c.skipped).trans none

end Steps

section Runs

variable (cfg : DmaConfig) (bufs : Nat × Nat → Byte) (events : List I2sEvent)

/-- The channel after any of DMA, of reads, and of enabling and disabling. -/
def channel : I2sChan := run (I2sChan.next cfg) (i2sNewChannel bufs) events

/-- DMA never gets a whole ring ahead of the reads. -/
def ReadInTime : Prop := Along (I2sChan.next cfg) (I2sChan.InTime cfg) (i2sNewChannel bufs) events

/-- Every reset of the queue comes before the first buffer is full. -/
def EnabledPromptly : Prop :=
  Along (I2sChan.next cfg) (I2sChan.Prompt cfg) (i2sNewChannel bufs) events

variable {cfg bufs events}

theorem sound_channel (inTime : ReadInTime cfg bufs events) :
    Sound cfg (channel cfg bufs events) := by
  have keep : ∀ c e, Sound cfg c → c.InTime cfg e → Sound cfg (c.next cfg e) :=
    fun _ _ h => h.next
  exact Along.invariant keep (sound_new cfg bufs) inTime

theorem skipped_channel (prompt : EnabledPromptly cfg bufs events) :
    (channel cfg bufs events).skipped = 0 :=
  Along.invariant (I := fun c => c.skipped = 0) (fun _ _ none prompt => skipped_next none prompt)
    rfl prompt

end Runs

instance (cfg : DmaConfig) (c : I2sChan) : ∀ e, Decidable (c.InTime cfg e)
  | .dma => inferInstanceAs (Decidable (_ ∨ _))
  | .enable _ | .enabling | .disable | .disabled | .read _ | .step | .timeout => isTrue trivial

def smallRing : DmaConfig := ⟨2, 1, Nat.le_refl 2, Nat.one_pos⟩

/-- The queue keeps a buffer of the first enabling, and DMA fills one more before
the queue is reset. Neither is read. -/
def enabledTwice : List I2sEvent :=
  [.enable fun _ => 7, .enabling, .enabling, .dma, .disable, .disabled,
    .enable fun t => BitVec.ofNat 8 t, .enabling, .dma, .enabling, .dma,
    .read 1, .step, .step, .step, .step, .step]

end CameraBoard.I2s
