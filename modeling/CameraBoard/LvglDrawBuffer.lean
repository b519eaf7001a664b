import CameraBoard.LvglRefresh
import CameraBoard.LcdTransfers
import CameraBoard.General.StepRun

/-! The draw buffers while parts are rendered and sent at the same time. The
panel IO queues what it is given and DMA sends it later, from the buffer itself
where it can reach it; the renderer waits for `flushing` to be cleared before it
draws, or with two small buffers before it flushes. Rendering is any sequence of
writes to the active buffer, and transfers complete between any two steps. A
transfer that cannot be queued ends the flush without a callback. -/
namespace CameraBoard.Lvgl
open Lcd Memory StepRun

/-- The buffers of an `lv_disp_draw_buf_t`, their size and that of the screen in
pixels. -/
structure DrawBufs where
  buf1 : Nat
  buf2 : Option Nat
  size : Nat
  resolution : Nat
  apart : ∀ p ∈ buf2, Apart buf1 (2 * size) (p, 2 * size)

/-- One buffer, or two that hold the whole screen, are waited for before drawing. -/
def DrawBufs.WaitsToDraw (bufs : DrawBufs) : Prop :=
  bufs.buf2 = none ∨ bufs.size = bufs.resolution

instance (bufs : DrawBufs) : Decidable bufs.WaitsToDraw := inferInstanceAs (Decidable (_ ∨ _))

def DrawBufs.other (bufs : DrawBufs) (bufAct : Nat) : Nat :=
  match bufs.buf2 with
  | none => bufAct
  | some buf2 => if bufAct = bufs.buf1 then buf2 else bufs.buf1

/-- A command with its parameters, the command ahead of color data, a chunk of
color data. -/
inductive TxOp where
  | param
  | command
  | queue (p len : Nat) (enTransDoneCb : Bool)

/-- Two commands with parameters, a command, and the color data in chunks, of
which only the last calls back. -/
def flushOps (p n : Nat) : List TxOp :=
  .param :: .param :: .command :: (spans spiTransMaxBytes 0 n).map fun s =>
    .queue (p + s.1) s.2 (decide (n - s.1 ≤ spiTransMaxBytes))

/-- A queued chunk, with the driver's copy where DMA cannot reach the buffer. -/
structure Chunk where
  p : Nat
  len : Nat
  copy : Option (List Byte)
  enTransDoneCb : Bool

def Chunk.bytes (mem : Nat → Byte) (c : Chunk) : List Byte := c.copy.getD (load mem c.p c.len)

/-- How far the renderer is with a part of `len` bytes. -/
inductive PartPhase where
  | idle
  | start (len : Nat)
  | render (len : Nat)
  | finish (len : Nat)
  | flush (ops : List TxOp)

/-- Memory and the draw buffer's fields, the chunks in flight and what was sent,
what the parts held when their rendering had ended, and whether color data could
not be queued. -/
structure Flow where
  mem : Nat → Byte
  bufAct : Nat
  flushing : Bool
  phase : PartPhase
  inflight : List Chunk
  sent : List Byte
  rendered : List Byte
  failed : Bool

/-- `lv_disp_draw_buf_init`. -/
def Flow.init (bufs : DrawBufs) (mem : Nat → Byte) : Flow :=
  ⟨mem, bufs.buf1, false, .idle, [], [], [], false⟩

/-- `panel_io_spi_tx_color` returns its error, which nobody looks at. -/
def Flow.abandon (s : Flow) : Flow := { s with phase := .flush [], failed := true }

/-- One call of the panel IO, or a pass of its loop over the chunks, which may
fail (a copy may not be allocated). The result of `tx_param` is dropped. -/
def Flow.perform (s : Flow) (ok : Bool) : TxOp → List TxOp → Flow
  | .param, ops => if s.inflight = [] ∨ ok = false then { s with phase := .flush ops } else s
  | .command, ops =>
    if ok = false then s.abandon
    else if s.inflight = [] then { s with phase := .flush ops }
    else s
  | .queue p len enTransDoneCb, ops =>
    if ok = false then s.abandon
    else if s.inflight.length < transQueueDepth then
      let copy := if espPtrDmaCapable p then none else some (load s.mem p len)
      { s with
        inflight := s.inflight ++ [⟨p, len, copy, enTransDoneCb⟩]
        phase := .flush ops }
    else s

/-- `refr_area_part` up to the drawing and behind it, with `draw_buf_flush`. -/
def Flow.go (bufs : DrawBufs) (s : Flow) (ok : Bool) : Flow :=
  match s.phase with
  | .idle => s
  | .start len =>
    if bufs.WaitsToDraw ∧ s.flushing = true then s else { s with phase := .render len }
  | .render len => { s with phase := .finish len, rendered := s.rendered ++ load s.mem s.bufAct len }
  | .finish len =>
    if ¬ bufs.WaitsToDraw ∧ s.flushing = true then s
    else { s with flushing := true, phase := .flush (flushOps s.bufAct len) }
  | .flush (op :: ops) => s.perform ok op ops
  | .flush [] => { s with bufAct := bufs.other s.bufAct, phase := .idle }

def Flow.draw (bufs : DrawBufs) (s : Flow) (p : Nat) (bytes : List Byte) : Flow :=
  match s.phase with
  | .render _ =>
    if s.bufAct ≤ p ∧ p + bytes.length ≤ s.bufAct + 2 * bufs.size then
      { s with mem := store s.mem p bytes }
    else s
  | _ => s

/-- The oldest chunk has been sent. The last one of a flush clears `flushing`. -/
def Flow.transDone (s : Flow) : Flow :=
  match s.inflight with
  | [] => s
  | c :: rest =>
    { s with
      inflight := rest
      sent := s.sent ++ c.bytes s.mem
      flushing := s.flushing && !c.enTransDoneCb }

inductive FlowEvent where
  | part (len : Nat)
  | go (ok : Bool)
  | draw (p : Nat) (bytes : List Byte)
  | transDone

def Flow.next (bufs : DrawBufs) (s : Flow) : FlowEvent → Flow
  | .part len =>
    match s.phase with
    | .idle => if len ≤ 2 * bufs.size then { s with phase := .start len } else s
    | _ => s
  | .go ok => s.go bufs ok
  | .draw p bytes => s.draw bufs p bytes
  | .transDone => s.transDone

def TxOp.bytes (mem : Nat → Byte) : TxOp → List Byte
  | .param | .command => []
  | .queue p len _ => load mem p len

def TxOp.flags : TxOp → List Bool
  | .param | .command => []
  | .queue _ _ enTransDoneCb => [enTransDoneCb]

/-- What was rendered and is not yet queued. -/
def Flow.held (s : Flow) : List Byte :=
  match s.phase with
  | .finish len => load s.mem s.bufAct len
  | .flush ops => ops.flatMap (TxOp.bytes s.mem)
  | _ => []

/-- The callback flags of the chunks in flight and of those to come. -/
def Flow.flags (s : Flow) : List Bool :=
  s.inflight.map Chunk.enTransDoneCb ++
    match s.phase with
    | .flush ops => ops.flatMap TxOp.flags
    | _ => []

/-- A flush that has not called back yet, and whose last chunk will. -/
def OneLast (flags : List Bool) : Prop := ∃ k, flags = List.replicate k false ++ [true]

/-- The last call of what is left of a flush queues a chunk. -/
def Ends (ops : List TxOp) : Prop :=
  ops = [] ∨ ∃ init p len flag, ops = init ++ [.queue p len flag]

/-- The places of a chunk are in the buffer at `p`, or in no part of it. -/
def Within (bufs : DrawBufs) (p q len : Nat) : Prop := p ≤ q ∧ q + len ≤ p + 2 * bufs.size

/-- Where the chunks in flight may be, by what the renderer does. -/
def Flow.Placed (bufs : DrawBufs) (s : Flow) : Prop :=
  match s.phase with
  | .idle => bufs.WaitsToDraw ∨ ∀ c ∈ s.inflight, Apart c.p c.len (s.bufAct, 2 * bufs.size)
  | .start len => len ≤ 2 * bufs.size ∧
    (bufs.WaitsToDraw ∨ ∀ c ∈ s.inflight, Apart c.p c.len (s.bufAct, 2 * bufs.size))
  | .render len | .finish len => len ≤ 2 * bufs.size ∧
    (bufs.WaitsToDraw → s.flushing = false) ∧
    ∀ c ∈ s.inflight, Apart c.p c.len (s.bufAct, 2 * bufs.size)
  | .flush ops => (∀ c ∈ s.inflight, Within bufs s.bufAct c.p c.len) ∧
    ∀ p len flag, .queue p len flag ∈ ops → Within bufs s.bufAct p len

/-- Color data was lost: `flushing` stays set, nothing will clear it and nothing
is queued any more. -/
structure Flow.Stalled (s : Flow) : Prop where
  flushing : s.flushing = true
  silent : ∀ flag ∈ s.flags, flag = false
  nothing : ∀ op ops, s.phase ≠ .flush (op :: ops)

/-- Sent, in flight and, unless color data was lost, held back, in this order, is
all that was rendered. -/
structure Flow.Inv (bufs : DrawBufs) (s : Flow) : Prop where
  bytes : ∃ left, s.sent ++ s.inflight.flatMap (Chunk.bytes s.mem) ++ left = s.rendered ∧
    (s.failed = false → left = s.held)
  active : s.bufAct = bufs.buf1 ∨ some s.bufAct = bufs.buf2
  flags : s.failed = false →
    s.flushing = true ∧ OneLast s.flags ∨ s.flushing = false ∧ s.flags = []
  stalled : s.failed = true → s.Stalled
  ends : ∀ ops, s.phase = .flush ops → Ends ops
  placed : s.Placed bufs

theorem load_spans (mem : Nat → Byte) (p cap start n : Nat) :
    (spans cap start n).flatMap (fun s => load mem (p + s.1) s.2) = load mem (p + start) n := by
  fun_induction spans cap start n with
  | case1 start n more ih =>
    have whole : cap + (n - cap) = n := by omega
    rw [List.flatMap_cons, ih, ← Nat.add_assoc, ← load_add, whole]
  | case2 start n last => exact List.append_nil _

section Ops

variable (p n : Nat)

theorem bytes_flushOps (mem : Nat → Byte) :
    (flushOps p n).flatMap (TxOp.bytes mem) = load mem p n := by
  unfold flushOps
  simp only [List.flatMap_cons, TxOp.bytes, List.nil_append, List.flatMap_map]
  exact load_spans mem p spiTransMaxBytes 0 n

theorem flags_flushOps : OneLast ((flushOps p n).flatMap TxOp.flags) := by
  obtain ⟨init, final, eq, before, last⟩ := spans_eq_concat spiTransMaxBytes 0 n (by decide)
  unfold flushOps OneLast
  have more : (init.map fun s => decide (n - s.1 ≤ spiTransMaxBytes)) =
      List.replicate init.length false := by
    refine List.eq_replicate_iff.2 ⟨List.length_map _, fun flag mem => ?_⟩
    obtain ⟨s, hs, rfl⟩ := List.mem_map.1 mem
    have long := before s hs
    exact decide_eq_false (by omega)
  have all : decide (n - final.1 ≤ spiTransMaxBytes) = true := decide_eq_true (by omega)
  refine ⟨init.length, ?_⟩
  simp only [List.flatMap_cons, TxOp.flags, List.nil_append, List.flatMap_map, eq]
  rw [← more, ← all, List.flatMap_append, List.map_eq_flatMap]
  rfl

theorem within_flushOps (bufs : DrawBufs) (fits : n ≤ 2 * bufs.size) {q len : Nat} {flag : Bool}
    (h : .queue q len flag ∈ flushOps p n) : Within bufs p q len := by
  unfold flushOps at h
  simp only [List.mem_cons, reduceCtorEq, false_or, List.mem_map] at h
  obtain ⟨s, mem, eq⟩ := h
  cases eq
  have inside := mem_spans _ _ _ mem
  exact ⟨Nat.le_add_right _ _, by omega⟩

end Ops

theorem ends_flushOps (p n : Nat) : Ends (flushOps p n) := by
  obtain ⟨init, final, eq, -, -⟩ := spans_eq_concat spiTransMaxBytes 0 n (by decide)
  let chunk (s : Nat × Nat) : TxOp := .queue (p + s.1) s.2 (decide (n - s.1 ≤ spiTransMaxBytes))
  refine .inr ⟨.param :: .param :: .command :: init.map chunk, p + final.1, final.2,
    decide (n - final.1 ≤ spiTransMaxBytes), ?_⟩
  rw [flushOps, eq, List.map_append]
  rfl

theorem Ends.tail {op : TxOp} {ops : List TxOp} (h : Ends (op :: ops)) : Ends ops := by
  obtain none | ⟨init, p, len, flag, eq⟩ := h
  · exact absurd none (List.cons_ne_nil _ _)
  · cases init with
    | nil => exact .inl (List.cons.inj eq).2
    | cons first init => exact .inr ⟨init, p, len, flag, (List.cons.inj eq).2⟩

theorem Ends.flags {op : TxOp} {ops : List TxOp} (h : Ends (op :: ops)) :
    (op :: ops).flatMap TxOp.flags ≠ [] := by
  obtain none | ⟨init, p, len, flag, eq⟩ := h
  · exact absurd none (List.cons_ne_nil _ _)
  · rw [eq, List.flatMap_append]
    exact List.append_ne_nil_of_right_ne_nil _ (List.cons_ne_nil _ _)

section Steps

variable {bufs : DrawBufs} {s : Flow}

theorem oneLast_ne_nil {flags : List Bool} (h : OneLast flags) : flags ≠ [] := by
  obtain ⟨k, rfl⟩ := h
  exact List.append_ne_nil_of_right_ne_nil _ (List.cons_ne_nil _ _)

/-- The flag of the first chunk, and of those behind it. -/
theorem oneLast_cons {flag : Bool} {flags : List Bool} (h : OneLast (flag :: flags)) :
    flag = true ∧ flags = [] ∨ flag = false ∧ OneLast flags := by
  obtain ⟨k, eq⟩ := h
  cases k with
  | zero =>
    cases eq
    exact .inl ⟨rfl, rfl⟩
  | succ k =>
    rw [List.replicate_succ, List.cons_append] at eq
    cases eq
    exact .inr ⟨rfl, k, rfl⟩

/-- Without its end a flush does not call back. -/
theorem oneLast_append {before after : List Bool} (h : OneLast (before ++ after))
    (more : after ≠ []) {flag : Bool} (mem : flag ∈ before) : flag = false := by
  obtain ⟨k, eq⟩ := h
  have front := congrArg List.dropLast eq
  rw [List.dropLast_append_of_ne_nil more, List.dropLast_concat] at front
  exact List.eq_of_mem_replicate (front ▸ List.mem_append_left _ mem)

theorem Flow.Inv.working (h : s.Inv bufs) {op : TxOp} {ops : List TxOp}
    (phase : s.phase = .flush (op :: ops)) : s.failed = false :=
  Bool.eq_false_iff.2 fun failed => (h.stalled failed).nothing op ops phase

theorem Flow.Inv.quiet (h : s.Inv bufs) (clear : s.flushing = false) :
    s.failed = false ∧ s.inflight = [] := by
  have fine : s.failed = false :=
    Bool.eq_false_iff.2 fun failed => absurd (clear.symm.trans (h.stalled failed).flushing) (by nofun)
  refine ⟨fine, ?_⟩
  obtain ⟨set, -⟩ | ⟨-, none⟩ := h.flags fine
  · exact absurd (clear.symm.trans set) (by nofun)
  · exact List.map_eq_nil_iff.1 (List.append_eq_nil_iff.1 none).1

/-- The renderer cannot clear what nothing else clears. -/
theorem Flow.Stalled.moved {t : Flow} (h : s.Stalled) (set : t.flushing = s.flushing)
    (flags : t.flags = s.flags) (nothing : ∀ op ops, t.phase ≠ .flush (op :: ops)) : t.Stalled :=
  ⟨set.trans h.flushing, flags ▸ h.silent, nothing⟩

theorem inv_init (bufs : DrawBufs) (mem : Nat → Byte) : (Flow.init bufs mem).Inv bufs where
  bytes := ⟨[], rfl, fun _ => rfl⟩
  active := .inl rfl
  flags _ := .inr ⟨rfl, rfl⟩
  stalled failed := absurd failed (by nofun)
  ends _ phase := absurd phase (by nofun)
  placed := .inr (List.forall_mem_nil _)

theorem Flow.Inv.part (h : s.Inv bufs) (len : Nat) : (s.next bufs (.part len)).Inv bufs := by
  obtain ⟨mem, bufAct, flushing, phase, inflight, sent, rendered, failed⟩ := s
  cases phase with
  | idle =>
    simp only [Flow.next]
    split_ifs with fits
    · exact ⟨h.bytes, h.active, h.flags,
        fun failed => (h.stalled failed).moved rfl rfl (by nofun),
        by nofun, fits, h.placed⟩
    · exact h
  | _ => exact h

theorem Flow.Inv.draw (h : s.Inv bufs) (p : Nat) (bytes : List Byte) :
    (s.draw bufs p bytes).Inv bufs := by
  obtain ⟨mem, bufAct, flushing, phase, inflight, sent, rendered, failed⟩ := s
  cases phase with
  | render len =>
    simp only [Flow.draw]
    split_ifs with inside
    · refine ⟨?_, h.active, h.flags,
        fun failed => (h.stalled failed).moved rfl rfl (by nofun),
        by nofun, h.placed⟩
      have same : ∀ c ∈ inflight, c.bytes (store mem p bytes) = c.bytes mem := by
        intro c hc
        have apart : c.p + c.len ≤ bufAct ∨ bufAct + 2 * bufs.size ≤ c.p := h.placed.2.2 c hc
        unfold Chunk.bytes
        rw [load_congr fun a low high => store_outside mem p bytes a (by omega)]
      have sent' : inflight.flatMap (Chunk.bytes (store mem p bytes)) =
          inflight.flatMap (Chunk.bytes mem) := List.flatMap_congr same
      have before := h.bytes
      simp only [Flow.held] at before ⊢
      rw [sent']
      exact before
    · exact h
  | _ => exact h

theorem Flow.Inv.transDone (h : s.Inv bufs) : s.transDone.Inv bufs := by
  obtain ⟨mem, bufAct, flushing, phase, inflight, sent, rendered, failed⟩ := s
  cases inflight with
  | nil => exact h
  | cons c rest =>
    have fewer : ∀ {P : Chunk → Prop}, (∀ c' ∈ c :: rest, P c') → ∀ c' ∈ rest, P c' :=
      fun all c' mem => all c' (List.mem_cons_of_mem _ mem)
    refine ⟨?_, h.active, fun fine => ?_, fun failed => ?_, h.ends, ?_⟩
    · obtain ⟨left, before, held⟩ := h.bytes
      rw [List.flatMap_cons, ← List.append_assoc] at before
      exact ⟨left, before, held⟩
    · obtain ⟨set, last⟩ | ⟨-, none⟩ := h.flags fine
      · obtain ⟨flag, nil⟩ | ⟨flag, more⟩ := oneLast_cons last
        · exact .inr ⟨by simp [Flow.transDone, flag], nil⟩
        · refine .inl ⟨?_, more⟩
          simp only [Flow.transDone, flag]
          exact (Bool.and_true _).trans set
      · exact absurd none (by nofun)
    · have stalled := h.stalled failed
      have flag : c.enTransDoneCb = false := stalled.silent _ List.mem_cons_self
      refine ⟨?_, fun flag mem => stalled.silent flag (List.mem_cons_of_mem _ mem), stalled.nothing⟩
      simp only [Flow.transDone, flag]
      exact (Bool.and_true _).trans stalled.flushing
    · cases phase with
      | idle => exact h.placed.imp_right fewer
      | start len => exact ⟨h.placed.1, h.placed.2.imp_right fewer⟩
      | render len =>
        refine ⟨h.placed.1, fun waits => ?_, fewer h.placed.2.2⟩
        exact absurd (h.quiet (h.placed.2.1 waits)).2 (List.cons_ne_nil _ _)
      | finish len =>
        refine ⟨h.placed.1, fun waits => ?_, fewer h.placed.2.2⟩
        exact absurd (h.quiet (h.placed.2.1 waits)).2 (List.cons_ne_nil _ _)
      | flush ops => exact ⟨fewer h.placed.1, h.placed.2⟩

/-- A chunk is queued with what its part of the buffer holds. -/
theorem Flow.Inv.queue {p len : Nat} {flag : Bool} {ops : List TxOp} (h : s.Inv bufs)
    (phase : s.phase = .flush (.queue p len flag :: ops)) {copy : Option (List Byte)}
    (copied : copy.getD (load s.mem p len) = load s.mem p len) :
    Flow.Inv bufs
      { s with inflight := s.inflight ++ [⟨p, len, copy, flag⟩], phase := .flush ops } := by
  have fine := h.working phase
  obtain ⟨mem, bufAct, flushing, _, inflight, sent, rendered, failed⟩ := s
  cases phase
  have flags : ∀ more : List Bool,
      (inflight ++ [(⟨p, len, copy, flag⟩ : Chunk)]).map Chunk.enTransDoneCb ++ more =
        inflight.map Chunk.enTransDoneCb ++ ([flag] ++ more) := by
    intro more
    rw [List.map_append, List.append_assoc]
    rfl
  refine ⟨?_, h.active, fun fine => ?_, fun failed => absurd (failed.symm.trans fine) (by nofun), ?_,
    ?_, fun q len' flag' mem => h.placed.2 q len' flag' (List.mem_cons_of_mem _ mem)⟩
  · obtain ⟨left, before, held⟩ := h.bytes
    refine ⟨_, ?_, fun _ => rfl⟩
    rw [held fine] at before
    simp only [Flow.held, List.flatMap_cons, TxOp.bytes] at before ⊢
    rw [List.flatMap_append, List.flatMap_singleton]
    simp only [Chunk.bytes, copied]
    rw [← before]
    simp only [List.append_assoc]
  · have before := h.flags fine
    simp only [Flow.flags, List.flatMap_cons, TxOp.flags] at before ⊢
    rw [flags]
    exact before
  · rintro _ ⟨⟩
    exact (h.ends _ rfl).tail
  · intro c hc
    obtain hc | hc := List.mem_append.1 hc
    · exact h.placed.1 c hc
    · rw [List.mem_singleton.1 hc]
      exact h.placed.2 p len flag List.mem_cons_self

/-- What is left of the flush is lost, and with it the callback. -/
theorem Flow.Inv.abandon {op : TxOp} {ops : List TxOp} (h : s.Inv bufs)
    (phase : s.phase = .flush (op :: ops)) : s.abandon.Inv bufs := by
  have fine := h.working phase
  obtain ⟨mem, bufAct, flushing, _, inflight, sent, rendered, failed⟩ := s
  cases phase
  have more := (h.ends _ rfl).flags
  refine ⟨?_, h.active, fun fine => absurd fine (by nofun), fun _ => ?_, ?_, h.placed.1, by nofun⟩
  · obtain ⟨left, before, -⟩ := h.bytes
    exact ⟨left, before, fun fine => absurd fine (by nofun)⟩
  · obtain ⟨set, last⟩ | ⟨-, none⟩ := h.flags fine
    · refine ⟨set, fun flag mem => oneLast_append last more ?_, by nofun⟩
      simpa [Flow.flags, Flow.abandon] using mem
    · exact absurd (List.append_eq_nil_iff.1 none).2 more
  · rintro _ ⟨⟩
    exact .inl rfl

/-- A call that neither queues nor loses anything. -/
theorem Flow.Inv.proceed {op : TxOp} {ops : List TxOp} (h : s.Inv bufs)
    (phase : s.phase = .flush (op :: ops)) (bytes : op.bytes s.mem = []) (flags : op.flags = []) :
    Flow.Inv bufs { s with phase := .flush ops } := by
  have fine := h.working phase
  obtain ⟨mem, bufAct, flushing, _, inflight, sent, rendered, failed⟩ := s
  cases phase
  refine ⟨?_, h.active, fun fine => ?_, fun failed => absurd (failed.symm.trans fine) (by nofun), ?_,
    h.placed.1, fun p len flag mem => h.placed.2 p len flag (List.mem_cons_of_mem _ mem)⟩
  · obtain ⟨left, before, held⟩ := h.bytes
    refine ⟨left, before, fun fine => (held fine).trans ?_⟩
    exact (List.flatMap_cons).trans (congrArg (· ++ _) bytes)
  · have before := h.flags fine
    simp only [Flow.flags, List.flatMap_cons, flags, List.nil_append] at before ⊢
    exact before
  · rintro _ ⟨⟩
    exact (h.ends _ rfl).tail

theorem Flow.Inv.perform {op : TxOp} {ops : List TxOp} (h : s.Inv bufs)
    (phase : s.phase = .flush (op :: ops)) (ok : Bool) : (s.perform ok op ops).Inv bufs := by
  cases op with
  | param =>
    simp only [Flow.perform]
    split_ifs
    · exact h.proceed phase rfl rfl
    · exact h
  | command =>
    simp only [Flow.perform]
    split_ifs
    · exact h.abandon phase
    · exact h.proceed phase rfl rfl
    · exact h
  | queue p len flag =>
    simp only [Flow.perform]
    split_ifs
    · exact h.abandon phase
    · exact h.queue phase rfl
    · exact h.queue phase rfl
    · exact h

theorem Flow.Inv.startDraw {len : Nat} (h : s.Inv bufs) (phase : s.phase = .start len)
    (free : ¬ (bufs.WaitsToDraw ∧ s.flushing = true)) :
    Flow.Inv bufs { s with phase := .render len } := by
  obtain ⟨mem, bufAct, flushing, _, inflight, sent, rendered, failed⟩ := s
  cases phase
  have clear : bufs.WaitsToDraw → flushing = false :=
    fun waits => Bool.eq_false_iff.2 fun set => free ⟨waits, set⟩
  refine ⟨h.bytes, h.active, h.flags,
    fun failed => (h.stalled failed).moved rfl rfl (by nofun), by nofun,
    h.placed.1, clear, fun c hc => ?_⟩
  obtain waits | apart := h.placed.2
  · rw [show inflight = [] from (h.quiet (clear waits)).2] at hc
    exact absurd hc List.not_mem_nil
  · exact apart c hc

theorem Flow.Inv.endDraw {len : Nat} (h : s.Inv bufs) (phase : s.phase = .render len) :
    Flow.Inv bufs
      { s with phase := .finish len, rendered := s.rendered ++ load s.mem s.bufAct len } := by
  obtain ⟨mem, bufAct, flushing, _, inflight, sent, rendered, failed⟩ := s
  cases phase
  refine ⟨?_, h.active, h.flags,
    fun failed => (h.stalled failed).moved rfl rfl (by nofun), by nofun,
    h.placed⟩
  obtain ⟨left, before, held⟩ := h.bytes
  refine ⟨left ++ load mem bufAct len, ?_, fun fine => ?_⟩
  · rw [← List.append_assoc]
    exact congrArg (· ++ load mem bufAct len) before
  · rw [held fine]
    rfl

theorem Flow.Inv.startFlush {len : Nat} (h : s.Inv bufs) (phase : s.phase = .finish len)
    (free : ¬ (¬ bufs.WaitsToDraw ∧ s.flushing = true)) :
    Flow.Inv bufs { s with flushing := true, phase := .flush (flushOps s.bufAct len) } := by
  obtain ⟨mem, bufAct, flushing, _, inflight, sent, rendered, failed⟩ := s
  cases phase
  have clear : flushing = false := by
    by_cases waits : bufs.WaitsToDraw
    · exact h.placed.2.1 waits
    · exact Bool.eq_false_iff.2 fun set => free ⟨waits, set⟩
  obtain ⟨fine, drained⟩ : failed = false ∧ inflight = [] := h.quiet clear
  subst drained
  refine ⟨?_, h.active, fun _ => .inl ⟨rfl, flags_flushOps bufAct len⟩,
    fun failed => absurd (failed.symm.trans fine) (by nofun), ?_, List.forall_mem_nil _,
    fun p len' flag mem => within_flushOps bufAct len bufs h.placed.1 mem⟩
  · obtain ⟨left, before, held⟩ := h.bytes
    refine ⟨left, before, fun _ => (held fine).trans ?_⟩
    exact (bytes_flushOps bufAct len mem).symm
  · rintro _ ⟨⟩
    exact ends_flushOps bufAct len

/-- The buffer that was flushed is now the other one. -/
theorem Flow.Inv.swap (h : s.Inv bufs) (phase : s.phase = .flush []) :
    Flow.Inv bufs { s with bufAct := bufs.other s.bufAct, phase := .idle } := by
  obtain ⟨mem, bufAct, flushing, _, inflight, sent, rendered, failed⟩ := s
  cases phase
  have active : bufAct = bufs.buf1 ∨ some bufAct = bufs.buf2 := h.active
  have placed : ∀ c ∈ inflight, Within bufs bufAct c.p c.len := h.placed.1
  have stalled : failed = true →
      Flow.Stalled ⟨mem, bufs.other bufAct, flushing, .idle, inflight, sent, rendered, failed⟩ :=
    fun failed => (h.stalled failed).moved rfl rfl (by nofun)
  unfold DrawBufs.other at stalled ⊢
  cases two : bufs.buf2 with
  | none => exact ⟨h.bytes, h.active, h.flags, by simpa only [two] using stalled, by nofun, .inl (.inl two)⟩
  | some buf2 =>
    have apart := bufs.apart buf2 two
    rw [two] at active
    simp only [two] at stalled
    refine ⟨h.bytes, ?_, h.flags, stalled, by nofun, .inr fun c hc => ?_⟩
    · simp only [two]
      split_ifs
      · exact .inr rfl
      · exact .inl rfl
    · have within := placed c hc
      unfold Apart at apart ⊢
      unfold Within at within
      simp only [Option.some.injEq] at active
      simp only
      split_ifs <;> omega

theorem Flow.Inv.go (h : s.Inv bufs) (ok : Bool) : (s.go bufs ok).Inv bufs := by
  unfold Flow.go
  cases phase : s.phase with
  | idle => exact h
  | start len =>
    simp only
    split_ifs with waits
    · exact h
    · exact h.startDraw phase waits
  | render len => exact h.endDraw phase
  | finish len =>
    simp only
    split_ifs with waits
    · exact h
    · exact h.startFlush phase waits
  | flush ops =>
    cases ops with
    | nil => exact h.swap phase
    | cons op ops => exact h.perform phase ok

theorem Flow.Inv.next (h : s.Inv bufs) (e : FlowEvent) : (s.next bufs e).Inv bufs := by
  cases e with
  | part len => exact h.part len
  | go ok => exact h.go ok
  | draw p bytes => exact h.draw p bytes
  | transDone => exact h.transDone

theorem Flow.Inv.onItsWay (h : s.Inv bufs) (fine : s.failed = false) (set : s.flushing = true)
    (flags : s.flags = s.inflight.map Chunk.enTransDoneCb) : s.inflight ≠ [] := by
  intro drained
  obtain ⟨-, last⟩ | ⟨clear, -⟩ := h.flags fine
  · rw [flags, drained] at last
    exact oneLast_ne_nil last rfl
  · exact absurd (clear.symm.trans set) (by nofun)

/-- Unless color data was lost, the renderer waits only for something that is on
its way. -/
theorem Flow.Inv.blocked (h : s.Inv bufs) (fine : s.failed = false) {ok : Bool}
    (stuck : (s.go bufs ok).phase = s.phase) : s.phase = .idle ∨ s.inflight ≠ [] := by
  unfold Flow.go at stuck
  cases phase : s.phase with
  | idle => exact .inl rfl
  | start len =>
    rw [phase] at stuck
    simp only at stuck
    split_ifs at stuck with waits
    refine .inr (h.onItsWay fine waits.2 ?_)
    unfold Flow.flags
    rw [phase, List.append_nil]
  | render len =>
    rw [phase] at stuck
    exact absurd stuck (by nofun)
  | finish len =>
    rw [phase] at stuck
    simp only at stuck
    split_ifs at stuck with waits
    refine .inr (h.onItsWay fine waits.2 ?_)
    unfold Flow.flags
    rw [phase, List.append_nil]
  | flush ops =>
    rw [phase] at stuck
    cases ops with
    | nil => exact absurd stuck (by nofun)
    | cons op ops =>
      refine .inr fun drained => ?_
      cases op <;> cases ok <;>
        simp [Flow.perform, Flow.abandon, drained, transQueueDepth] at stuck

/-- What holds while parts are rendered and sent: transfers read and have read
what the parts held when they were rendered, in order and without a gap; no
transfer reads the buffer that is drawn to; and the renderer never waits for
something that will not come, unless color data was lost, after which `flushing`
stays set and no flush begins. -/
structure Flow.Safe (bufs : DrawBufs) (s : Flow) : Prop where
  order : ∃ left, s.sent ++ s.inflight.flatMap (Chunk.bytes s.mem) ++ left = s.rendered
  all : s.failed = false → s.phase = .idle → s.inflight = [] → s.sent = s.rendered
  apart : ∀ len, s.phase = .render len →
    ∀ c ∈ s.inflight, Apart c.p c.len (s.bufAct, 2 * bufs.size)
  progress : s.failed = false → ∀ ok, (s.go bufs ok).phase = s.phase →
    s.phase = .idle ∨ s.inflight ≠ []
  stalled : s.failed = true → s.flushing = true ∧ ∀ op ops, s.phase ≠ .flush (op :: ops)

theorem Flow.Inv.safe (h : s.Inv bufs) : s.Safe bufs where
  order := by
    obtain ⟨left, bytes, -⟩ := h.bytes
    exact ⟨left, bytes⟩
  all fine phase drained := by
    obtain ⟨left, bytes, held⟩ := h.bytes
    rw [held fine] at bytes
    unfold Flow.held at bytes
    rw [phase, drained] at bytes
    simpa using bytes
  apart len phase := by
    have placed := h.placed
    unfold Flow.Placed at placed
    rw [phase] at placed
    exact placed.2.2
  progress fine _ := h.blocked fine
  stalled failed := ⟨(h.stalled failed).flushing, (h.stalled failed).nothing⟩

/-- Once color data was lost nothing is queued any more. -/
theorem Flow.Inv.lost (h : s.Inv bufs) (failed : s.failed = true) (e : FlowEvent) :
    (s.next bufs e).failed = true ∧ (s.next bufs e).inflight <:+ s.inflight := by
  cases e with
  | part len =>
    simp only [Flow.next]
    split
    · split_ifs <;> exact ⟨failed, List.suffix_rfl⟩
    · exact ⟨failed, List.suffix_rfl⟩
  | go ok =>
    simp only [Flow.next, Flow.go]
    cases phase : s.phase with
    | start len | finish len =>
      simp only
      split_ifs <;> exact ⟨failed, List.suffix_rfl⟩
    | flush ops =>
      cases ops with
      | nil => exact ⟨failed, List.suffix_rfl⟩
      | cons op ops => exact absurd phase ((h.stalled failed).nothing op ops)
    | _ => exact ⟨failed, List.suffix_rfl⟩
  | draw p bytes =>
    simp only [Flow.next, Flow.draw]
    split
    · split_ifs <;> exact ⟨failed, List.suffix_rfl⟩
    · exact ⟨failed, List.suffix_rfl⟩
  | transDone =>
    obtain ⟨mem, bufAct, flushing, phase, inflight, sent, rendered, lost⟩ := s
    cases inflight with
    | nil => exact ⟨failed, List.suffix_rfl⟩
    | cons c rest => exact ⟨failed, List.suffix_cons c rest⟩

theorem Flow.Inv.run_lost (h : s.Inv bufs) (failed : s.failed = true) (events : List FlowEvent) :
    (run (Flow.next bufs) s events).inflight <:+ s.inflight := by
  induction events generalizing s with
  | nil => exact List.suffix_rfl
  | cons e events ih =>
    obtain ⟨still, fewer⟩ := h.lost failed e
    exact (ih (h.next e) still).trans fewer

end Steps

/-- With one buffer, with two that hold the screen and with two that do not:
however the renderer's steps and writes, the transfers of the panel IO and their
callbacks come between each other and whatever fails, every state is safe, and
once color data was lost nothing is queued any more. -/
theorem flow_run (bufs : DrawBufs) (mem : Nat → Byte) (events : List FlowEvent) :
    Always (Flow.next bufs) (Flow.Safe bufs) (Flow.init bufs mem) events ∧
    ((run (Flow.next bufs) (Flow.init bufs mem) events).failed = true → ∀ more,
      (run (Flow.next bufs) (Flow.init bufs mem) (events ++ more)).inflight <:+
        (run (Flow.next bufs) (Flow.init bufs mem) events).inflight) := by
  have keep : ∀ s e, Flow.Inv bufs s → Flow.Inv bufs (s.next bufs e) := fun _ e h => h.next e
  refine ⟨(always_of_step keep (inv_init bufs mem) events).imp fun _ h => h.safe,
    fun failed more => ?_⟩
  rw [StepRun.run_append]
  exact (run_of_step keep (inv_init bufs mem) events).run_lost failed more

end CameraBoard.Lvgl
