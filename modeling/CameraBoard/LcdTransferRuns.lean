import CameraBoard.LcdTransfers
import CameraBoard.General.StepRun

/-! Every order of calls, completions and reuse of memory: what is in flight is
either copied or lies in a buffer that its function still owns. -/
namespace CameraBoard.Lcd
open Bytes Memory

/-- A function has taken its buffer and not given it back. -/
structure Driver.Holds (d : Driver) (p size : Nat) (stage : Stage) : Prop where
  owned : d.owned = [(p, size)]
  left : Tail p size stage d.pending
  same : stage ≠ .filled → ∀ a, p ≤ a → a < p + size → d.callMem a = d.mem a
  mine : stage = .drained → espPtrDmaCapable p = true → ∀ t ∈ d.inflight, t.copy = none

/-- No function is at work, or one has yet to take its buffer. -/
structure Driver.Rests (d : Driver) : Prop where
  owned : d.owned = []
  left : Starts d.pending

/-- The transfer has its own copy, or refers to owned memory that still holds
what it held at the draw call. -/
def Driver.Safe (d : Driver) (t : Transaction) : Prop :=
  t.copy = some t.held ∨
    t.copy = none ∧ load d.mem t.p t.len = t.held ∧
      ∃ r ∈ d.owned, r.1 ≤ t.p ∧ t.p + t.len ≤ r.1 + r.2 ∧ espPtrDmaCapable r.1 = true

structure Driver.Inv (d : Driver) : Prop where
  sent : ∀ s ∈ d.sent, s.2 = s.1
  safe : ∀ t ∈ d.inflight, d.Safe t
  place : d.Rests ∨ ∃ p size stage, d.Holds p size stage

theorem Driver.Inv.intact {d : Driver} (inv : d.Inv) : d.Intact := by
  refine ⟨inv.sent, fun t ht inPlace => ?_⟩
  obtain copied | ⟨-, -, r, hr, low, high, -⟩ := inv.safe t ht
  · rw [inPlace] at copied
    exact absurd copied (by simp)
  · exact ⟨r, hr, low, high⟩

theorem inv_start (mem : Nat → Byte) : (Driver.start mem).Inv :=
  ⟨by simp [Driver.start], by simp [Driver.start], .inl ⟨rfl, .inl rfl⟩⟩

theorem Driver.Safe.bytes {d : Driver} {t : Transaction} (safe : d.Safe t) :
    t.bytes d.mem = t.held := by
  obtain copied | ⟨inPlace, same, -⟩ := safe
  · rw [Transaction.bytes, copied, Option.getD_some]
  · rw [Transaction.bytes, inPlace, Option.getD_none, same]

theorem Driver.Safe.congr {d : Driver} {t : Transaction} (safe : d.Safe t) {mem : Nat → Byte}
    (same : ∀ r ∈ d.owned, ∀ a, r.1 ≤ a → a < r.1 + r.2 → mem a = d.mem a) :
    Driver.Safe { d with mem } t := by
  obtain copied | ⟨inPlace, held, r, hr, low, high, dma⟩ := safe
  · exact .inl copied
  · refine .inr ⟨inPlace, ?_, r, hr, low, high, dma⟩
    rw [← held]
    exact load_congr fun a ha ha' => same r hr a (by omega) (by omega)

section Step

variable {d : Driver}

theorem next_step {op : Micro} {rest : List Micro} {d' : Driver} (left : d.pending = op :: rest)
    (done : d.perform op = some d') : d.next .step = { d' with pending := rest } := by
  simp only [Driver.next, left, done]

theorem next_blocked {op : Micro} {rest : List Micro} (left : d.pending = op :: rest)
    (wait : d.perform op = none) : d.next .step = d := by
  simp only [Driver.next, left, wait]

theorem Driver.Inv.copied (inv : d.Inv) (owned : d.owned = []) :
    ∀ t ∈ d.inflight, t.copy = some t.held := by
  intro t ht
  obtain copied | ⟨-, -, r, hr, -⟩ := inv.safe t ht
  · exact copied
  · rw [owned] at hr
    exact absurd hr List.not_mem_nil

theorem Driver.Inv.call (inv : d.Inv) (c : Call) (m : Placement) : (d.next (.call c m)).Inv := by
  cases left : d.pending with
  | cons op rest => simpa only [Driver.next, left] using inv
  | nil =>
    simp only [Driver.next, left]
    obtain rests | ⟨p, size, stage, holds⟩ := inv.place
    · exact ⟨inv.sent, inv.safe, .inl ⟨rests.owned, starts_program c m⟩⟩
    · have stuck := holds.left
      rw [left] at stuck
      exact nomatch stuck

theorem Driver.Inv.complete (inv : d.Inv) : (d.next .complete).Inv := by
  cases queued : d.inflight with
  | nil => simpa only [Driver.next, queued] using inv
  | cons t rest =>
    simp only [Driver.next, queued]
    have safe := inv.safe
    rw [queued] at safe
    obtain ⟨first, others⟩ := List.forall_mem_cons.1 safe
    refine ⟨fun s hs => ?_, others, ?_⟩
    · obtain hs | hs := List.mem_append.1 hs
      · exact inv.sent s hs
      · rw [List.mem_singleton.1 hs]
        exact first.bytes
    · obtain rests | ⟨p, size, stage, holds⟩ := inv.place
      · exact .inl ⟨rests.owned, rests.left⟩
      · refine .inr ⟨p, size, stage, holds.owned, holds.left, holds.same, fun drained dma t' ht' => ?_⟩
        exact holds.mine drained dma t' (queued ▸ List.mem_cons_of_mem t ht')

theorem Driver.Inv.reuse (inv : d.Inv) (p : Nat) (bytes : List Byte) :
    (d.next (.reuse p bytes)).Inv := by
  by_cases apart : ∀ r ∈ d.owned, Apart p bytes.length r
  · rw [Driver.next, if_pos apart]
    have same : ∀ r ∈ d.owned, ∀ a, r.1 ≤ a → a < r.1 + r.2 → store d.mem p bytes a = d.mem a := by
      intro r hr a low high
      have := apart r hr
      exact store_outside _ _ _ _ (by unfold Apart at this; omega)
    refine ⟨inv.sent, fun t ht => (inv.safe t ht).congr same, ?_⟩
    obtain rests | ⟨q, size, stage, holds⟩ := inv.place
    · exact .inl ⟨rests.owned, rests.left⟩
    · refine .inr ⟨q, size, stage, holds.owned, holds.left, fun called a low high => ?_, holds.mine⟩
      have mine : (q, size) ∈ d.owned := by simp [holds.owned]
      exact (holds.same called a low high).trans (same _ mine a low high).symm
  · rwa [Driver.next, if_neg apart]

theorem Driver.Inv.own (inv : d.Inv) (owned : d.owned = []) {p : Nat} {bytes : List Byte}
    {ops : List Micro} (left : d.pending = .own p bytes :: ops)
    (tail : Tail p bytes.length .filled ops) : (d.next .step).Inv := by
  rw [next_step left rfl]
  refine ⟨inv.sent, fun t ht => .inl (inv.copied owned t ht),
    .inr ⟨p, bytes.length, .filled, by rw [owned], tail, ?_, ?_⟩⟩
  · exact fun called => absurd rfl called
  · exact fun drained => Stage.noConfusion drained

theorem Driver.Inv.release (inv : d.Inv) {p size : Nat} {rest : List Micro}
    (owned : d.owned = [(p, size)]) (left : d.pending = .release p size :: rest)
    (starts : Starts rest) (late : espPtrDmaCapable p = true → d.inflight = []) :
    (d.next .step).Inv := by
  rw [next_step left rfl]
  have free : d.owned.erase (p, size) = [] := by rw [owned, List.erase_cons_head]
  refine ⟨inv.sent, fun t ht => ?_, .inl ⟨free, starts⟩⟩
  obtain copied | ⟨-, -, r, hr, -, -, dma⟩ := inv.safe t ht
  · exact .inl copied
  · rw [owned, List.mem_singleton] at hr
    rw [hr] at dma
    rw [late dma] at ht
    exact absurd ht List.not_mem_nil

theorem Driver.Inv.queue (inv : d.Inv) {p size q len : Nat} {ops : List Micro}
    (holds : d.Holds p size .drained) (left : d.pending = .queue q len :: ops) (low : p ≤ q)
    (high : q + len ≤ p + size) (dma : espPtrDmaCapable q = espPtrDmaCapable p)
    (tail : Tail p size .drained ops) : (d.next .step).Inv := by
  by_cases room : d.inflight.length < transQueueDepth
  · rw [next_step left (if_pos room)]
    have held : load d.callMem q len = load d.mem q len :=
      load_congr fun a ha ha' => holds.same Stage.noConfusion a (by omega) (by omega)
    refine ⟨inv.sent, fun t ht => ?_, .inr ⟨p, size, .drained, holds.owned, tail, holds.same, ?_⟩⟩
    · obtain ht | ht := List.mem_append.1 ht
      · exact inv.safe t ht
      · rw [List.mem_singleton.1 ht]
        cases reach : espPtrDmaCapable q with
        | false => exact .inl (by simp [held])
        | true =>
          refine .inr ⟨by simp, held.symm, (p, size), by simp [holds.owned], low, high, ?_⟩
          rw [← dma, reach]
    · intro drained reach t ht
      obtain ht | ht := List.mem_append.1 ht
      · exact holds.mine drained reach t ht
      · rw [List.mem_singleton.1 ht, dma, reach]
        rfl
  · rwa [next_blocked left (if_neg room)]

theorem Driver.Inv.step (inv : d.Inv) (late : d.ReturnsLate .step) : (d.next .step).Inv := by
  obtain ⟨owned, left | ⟨p, bytes, ops, left, tail⟩⟩ | ⟨p, size, stage, holds⟩ := inv.place
  · simpa only [Driver.next, left] using inv
  · exact inv.own owned left tail
  · have tail := holds.left
    generalize left : d.pending = ops at tail
    cases tail with
    | release => exact inv.release holds.owned left (.inl rfl) (late p size [] left)
    | enter stage tail =>
      rw [next_step left rfl]
      refine ⟨inv.sent, inv.safe, .inr ⟨p, size, .called, holds.owned, tail, ?_, ?_⟩⟩
      · exact fun _ _ _ _ => rfl
      · exact fun drained => Stage.noConfusion drained
    | await called tail =>
      by_cases idle : d.inflight = []
      · rw [next_step left (if_pos idle)]
        refine ⟨inv.sent, inv.safe, .inr ⟨p, size, .drained, holds.owned, tail, ?_, ?_⟩⟩
        · exact fun _ => holds.same called
        · exact fun _ _ t ht => absurd (idle ▸ ht) List.not_mem_nil
      · rwa [next_blocked left (if_neg idle)]
    | queue low high dma tail => exact inv.queue holds left low high dma tail
    | abort => rwa [next_blocked left rfl]

theorem Driver.Inv.next (inv : d.Inv) (e : Event) (late : d.ReturnsLate e) : (d.next e).Inv := by
  cases e with
  | call c m => exact inv.call c m
  | step => exact inv.step late
  | complete => exact inv.complete
  | reuse p bytes => exact inv.reuse p bytes

end Step

/-- A release that comes too early leaves a transfer that refers to what has
been given back. -/
theorem Driver.Inv.returnsLate {d : Driver} (inv : d.Inv) {e : Event}
    (intact : (d.next e).Intact) : d.ReturnsLate e := by
  cases e with
  | step =>
    intro p size rest left dma
    obtain ⟨-, starts⟩ | ⟨q, n, stage, holds⟩ := inv.place
    · rw [left] at starts
      obtain none | ⟨_, _, _, first, -⟩ := starts
      · exact absurd none (List.cons_ne_nil _ _)
      · exact Micro.noConfusion (List.cons.inj first).1
    · have tail := holds.left
      rw [left] at tail
      cases tail with
      | release =>
        rw [next_step left rfl] at intact
        refine List.eq_nil_iff_forall_not_mem.2 fun t ht => ?_
        obtain ⟨r, hr, -⟩ := intact.inflight t ht (holds.mine rfl dma t ht)
        have free : d.owned.erase (p, size) = [] := by rw [holds.owned, List.erase_cons_head]
        exact absurd (free ▸ hr) List.not_mem_nil
  | call c m => trivial
  | complete => trivial
  | reuse p bytes => trivial

/-- Along a run of calls, completions and reuse of free memory every transfer
sends what its buffer held at the draw call, and refers to owned memory while
it is in flight, exactly when every buffer that DMA can reach is given back
after its transfer. Only the stack frame of `lcd_draw_point` can be one. -/
theorem intact_iff (mem : Nat → Byte) (events : List Event) :
    StepRun.Always Driver.next Driver.Intact (.start mem) events ↔
      StepRun.Along Driver.next Driver.ReturnsLate (.start mem) events := by
  rw [StepRun.always_iff_along, and_iff_right (inv_start mem).intact]
  refine (StepRun.along_congr (I := Driver.Inv) ?_ ?_ (inv_start mem) events).symm
  · exact fun d e inv late => inv.next e late
  · exact fun d e inv => ⟨fun late => (inv.next e late).intact, inv.returnsLate⟩

theorem micro_drawPoint (m : Placement) {x y : CInt} (proper : Area.Proper ⟨x, y, x + 1, y + 1⟩)
    (color : BitVec 16) :
    (Call.program m (.drawPoint x y color)).flatMap Instr.micro =
      [ .own m.frame (littleEndian 2 color), .enter, .await, .await, .await, .queue m.frame 2,
        .release m.frame 2 ] := by
  have cut : spans spiTransMaxBytes 0 2 = [(0, 2)] := spans_of_le _ _ _ (by decide)
  rw [Call.program, lcdDrawPoint, List.flatMap_cons, List.flatMap_cons, micro_draw proper,
    drawLength_point, cut]
  rfl

/-- A point is drawn by a task with its stack in internal RAM. The frame is
overwritten before the transfer is made: two other bytes are sent. -/
theorem intact_overwritten : ¬ ∀ (mem : Nat → Byte) (events : List Event),
    StepRun.Always Driver.next Driver.Intact (.start mem) events := by
  intro claim
  have run := (claim (fun _ => 0) [.call (.drawPoint 0 0 0xf800) (.onStack 0x3fc90000),
    .step, .step, .step, .step, .step, .step, .step, .reuse 0x3fc90000 [0xaa, 0xaa], .complete]).2
  simp only [Driver.next, Driver.start] at run
  rw [micro_drawPoint _ (by decide)] at run
  simp only [Placement.onStack] at run
  exact absurd (run.last.sent ([0x00, 0xf8], [0xaa, 0xaa]) (List.mem_singleton.2 rfl)) (by decide)

end CameraBoard.Lcd
