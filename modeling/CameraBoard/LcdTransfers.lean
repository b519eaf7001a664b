import CameraBoard.St7789Panel

/-! When the bytes of a draw are really read. The panel driver only queues the
color data. A buffer that DMA can reach is read in place when its transfer is
made, any other is copied when it is queued. A run interleaves the drawing
functions with the completions of transfers and with the reuse of memory that
the functions do not own. -/
namespace CameraBoard.Lcd
open Bytes Memory

def socDmaLow : Nat := 0x3fc88000
def socDmaHigh : Nat := 0x3fd00000

def espPtrDmaCapable (p : Nat) : Bool := socDmaLow ≤ p && p < socDmaHigh

/-- `trans_queue_depth` of the panel IO. -/
def transQueueDepth : Nat := 10

/-- A queued transfer: where its bytes are, the driver's copy of them if it made
one, and what the buffer held when the draw call was made. -/
structure Transaction where
  p : Nat
  len : Nat
  copy : Option (List Byte)
  held : List Byte

/-- The steps of the drawing functions that others can come between. -/
inductive Micro where
  | own (p : Nat) (bytes : List Byte)
  | enter
  | await
  | queue (p len : Nat)
  | release (p size : Nat)
  | abort

/-- A command is sent only when every queued transfer has finished. -/
def PanelOp.micro : PanelOp → List Micro
  | .txParam _ _ => [.await]
  | .txColor _ color size =>
    .await :: (spans spiTransMaxBytes 0 size).map fun s => .queue (color + s.1) s.2

def Instr.micro : Instr → List Micro
  | .own p bytes => [.own p bytes]
  | .draw a p =>
    match panelSt7789DrawBitmap a p with
    | some ops => .enter :: ops.flatMap PanelOp.micro
    | none => [.abort]
  | .release p size => [.release p size]

/-- Memory with the regions that a drawing function owns, the memory as it was
at the last draw call, the transfers queued and made, the latter as what the
buffer held and what was sent, and the steps of the current call still to do. -/
structure Driver where
  mem : Nat → Byte
  owned : List (Nat × Nat)
  callMem : Nat → Byte
  inflight : List Transaction
  sent : List (List Byte × List Byte)
  pending : List Micro

def Driver.start (mem : Nat → Byte) : Driver := ⟨mem, [], mem, [], [], []⟩

/-- `none` while the step has to wait. -/
def Driver.perform (d : Driver) : Micro → Option Driver
  | .own p bytes =>
    some { d with mem := store d.mem p bytes, owned := (p, bytes.length) :: d.owned }
  | .enter => some { d with callMem := d.mem }
  | .await => if d.inflight = [] then some d else none
  | .queue p len =>
    if d.inflight.length < transQueueDepth then
      let copy := if espPtrDmaCapable p then none else some (load d.mem p len)
      some { d with inflight := d.inflight ++ [⟨p, len, copy, load d.callMem p len⟩] }
    else none
  | .release p size => some { d with owned := d.owned.erase (p, size) }
  | .abort => none

def Transaction.bytes (t : Transaction) (mem : Nat → Byte) : List Byte :=
  t.copy.getD (load mem t.p t.len)

inductive Event where
  | call (c : Call) (m : Placement)
  | step
  | complete
  | reuse (p : Nat) (bytes : List Byte)

def Apart (p n : Nat) (r : Nat × Nat) : Prop := p + n ≤ r.1 ∨ r.1 + r.2 ≤ p

instance (p n : Nat) (r : Nat × Nat) : Decidable (Apart p n r) := inferInstanceAs (Decidable (_ ∨ _))

/-- One event. The task calls a function when the last one has returned, or
goes on with the current one; the oldest transfer completes; someone else
writes to memory that no drawing function owns. -/
def Driver.next (d : Driver) : Event → Driver
  | .call c m =>
    match d.pending with
    | [] => { d with pending := (c.program m).flatMap Instr.micro }
    | _ => d
  | .step =>
    match d.pending with
    | [] => d
    | op :: rest =>
      match d.perform op with
      | some d' => { d' with pending := rest }
      | none => d
  | .complete =>
    match d.inflight with
    | [] => d
    | t :: rest => { d with inflight := rest, sent := d.sent ++ [(t.held, t.bytes d.mem)] }
  | .reuse p bytes =>
    if ∀ r ∈ d.owned, Apart p bytes.length r then { d with mem := store d.mem p bytes } else d

/-- Every transfer made has sent what its buffer held at the draw call, and the
transfers to come that refer in place refer to memory that is still owned. -/
structure Driver.Intact (d : Driver) : Prop where
  sent : ∀ s ∈ d.sent, s.2 = s.1
  inflight : ∀ t ∈ d.inflight, t.copy = none → ∃ r ∈ d.owned, r.1 ≤ t.p ∧ t.p + t.len ≤ r.1 + r.2

/-- A buffer that DMA can reach is given back only after all transfers. -/
def Driver.ReturnsLate (d : Driver) : Event → Prop
  | .step => ∀ p size rest, d.pending = .release p size :: rest → espPtrDmaCapable p = true →
      d.inflight = []
  | _ => True

/-- How far the function that owns a buffer has come with it. -/
inductive Stage where
  | filled
  | called
  | drained

/-- The steps left to a function that owns the `size` cells from `p` on. -/
inductive Tail (p size : Nat) : Stage → List Micro → Prop
  | release : Tail p size .drained [.release p size]
  | enter (stage : Stage) {ops : List Micro} : Tail p size .called ops →
      Tail p size stage (.enter :: ops)
  | await {stage : Stage} {ops : List Micro} : stage ≠ .filled → Tail p size .drained ops →
      Tail p size stage (.await :: ops)
  | queue {q len : Nat} {ops : List Micro} : p ≤ q → q + len ≤ p + size →
      espPtrDmaCapable q = espPtrDmaCapable p → Tail p size .drained ops →
      Tail p size .drained (.queue q len :: ops)
  | abort (stage : Stage) (ops : List Micro) : Tail p size stage (.abort :: ops)

/-- No steps, or the steps of a function that takes a buffer, draws only from it
and gives it back last. -/
def Starts (program : List Micro) : Prop :=
  program = [] ∨ ∃ p bytes ops, program = .own p bytes :: ops ∧ Tail p bytes.length .filled ops

section Programs

variable {p size : Nat}

theorem tail_queues (cuts : List (Nat × Nat))
    (inside : ∀ s ∈ cuts, p + s.1 + s.2 ≤ p + size ∧ espPtrDmaCapable (p + s.1) = espPtrDmaCapable p)
    {ops : List Micro} (rest : Tail p size .drained ops) :
    Tail p size .drained (cuts.map (fun s => .queue (p + s.1) s.2) ++ ops) := by
  induction cuts with
  | nil => exact rest
  | cons s cuts ih =>
    obtain ⟨⟨fits, dma⟩, inside⟩ := List.forall_mem_cons.1 inside
    exact .queue (Nat.le_add_right p s.1) fits dma (ih inside)

theorem micro_draw {a : Area} (proper : a.Proper) :
    Instr.micro (.draw a p) = .enter :: .await :: .await :: .await ::
      (spans spiTransMaxBytes 0 (drawLength a)).map fun s => .queue (p + s.1) s.2 := by
  simp [Instr.micro, panelSt7789DrawBitmap, proper, PanelOp.micro]

/-- A draw that reads no further than the buffer, all of it on one side of the
border of what DMA can reach. -/
theorem tail_draw {a : Area} (fits : drawLength a ≤ size)
    (uniform : ∀ s ∈ spans spiTransMaxBytes 0 (drawLength a),
      espPtrDmaCapable (p + s.1) = espPtrDmaCapable p)
    (stage : Stage) {ops : List Micro} (rest : Tail p size .drained ops) :
    Tail p size stage (Instr.micro (.draw a p) ++ ops) := by
  have queues := @tail_queues p size (spans spiTransMaxBytes 0 (drawLength a)) (fun s hs =>
    ⟨by have := mem_spans _ _ _ hs; omega, uniform s hs⟩) ops rest
  by_cases proper : a.Proper
  · have called : Stage.called ≠ .filled := Stage.noConfusion
    have drained : Stage.drained ≠ .filled := Stage.noConfusion
    rw [micro_draw proper]
    exact .enter stage (.await called (.await drained (.await drained queues)))
  · have eq : Instr.micro (.draw a p) ++ ops = .abort :: ops := by
      simp [Instr.micro, panelSt7789DrawBitmap, proper]
    rw [eq]
    exact .abort stage ops

/-- No part of a block of external RAM can be reached by DMA. -/
theorem uniform_spiram (block : spiramLow ≤ p ∧ p + size ≤ spiramHigh) {n : Nat} (fits : n ≤ size) :
    ∀ s ∈ spans spiTransMaxBytes 0 n, espPtrDmaCapable (p + s.1) = espPtrDmaCapable p := by
  intro s hs
  have inside := mem_spans _ _ _ hs
  have gap : spiramHigh < socDmaLow := by decide
  have below : ∀ q, q < socDmaLow → espPtrDmaCapable q = false := by
    intro q hq
    simp [espPtrDmaCapable, Nat.not_le.2 hq]
  rw [below p (by omega), below (p + s.1) (by omega)]

theorem tail_rows (block : spiramLow ≤ p ∧ p + rowByteSize.toNat ≤ spiramHigh) (ys : List Nat) :
    Tail p rowByteSize.toNat .drained
      ((ys.map fun y => Instr.draw (rowArea y) p).flatMap Instr.micro ++
        [.release p rowByteSize.toNat]) := by
  induction ys with
  | nil => exact .release
  | cons y ys ih =>
    have len := drawLength_rowArea y
    rw [List.map_cons, List.flatMap_cons, List.append_assoc]
    exact tail_draw (Nat.le_of_eq len) (uniform_spiram block (Nat.le_of_eq len)) _ ih

end Programs

theorem starts_setColor (m : Placement) (color : BitVec 16) :
    Starts ((lcdSetColor m color).flatMap Instr.micro) := by
  cases heap : m.heap rowByteSize with
  | none => exact .inl (by simp [lcdSetColor, heap])
  | some buffer =>
    have block := m.spiram _ _ heap
    have len := drawLength_rowArea 0
    have rows : List.range bspLcdVRes = 0 :: (List.range 239).map Nat.succ :=
      List.range_succ_eq_map
    have others := tail_rows block ((List.range 239).map Nat.succ)
    have all := tail_draw (Nat.le_of_eq len) (uniform_spiram block (Nat.le_of_eq len)) .filled others
    refine .inr ⟨buffer, rowBytes color, _, ?_, by rw [length_rowBytes]; exact all⟩
    rw [lcdSetColor, heap, rows]
    simp only [List.map_cons, List.cons_append, List.flatMap_cons, List.flatMap_append,
      List.flatMap_nil, List.append_nil, Instr.micro, List.nil_append]

theorem starts_drawPoint (m : Placement) (x y : CInt) (color : BitVec 16) :
    Starts ((lcdDrawPoint m x y color).flatMap Instr.micro) := by
  have len := drawLength_point x y
  have uniform : ∀ s ∈ spans spiTransMaxBytes 0 (drawLength ⟨x, y, x + 1, y + 1⟩),
      espPtrDmaCapable (m.frame + s.1) = espPtrDmaCapable m.frame := by
    intro s hs
    rw [len, spans_of_le _ _ _ (by decide), List.mem_singleton] at hs
    rw [hs, Nat.add_zero]
  exact .inr ⟨m.frame, littleEndian 2 color, _, rfl, tail_draw (Nat.le_of_eq len) uniform .filled .release⟩

theorem starts_drawPictrue (m : Placement) (a : Area) (gImage : Nat → Byte) :
    Starts ((lcdDrawPictrue m a gImage).flatMap Instr.micro) := by
  cases heap : m.heap (pixelsByteSize a) with
  | none => exact .inl (by simp [lcdDrawPictrue, heap])
  | some pixels =>
    have block := m.spiram _ _ heap
    have small : (pixelsByteSize a).toNat < 0x10000000 := by
      have room : spiramHigh < spiramLow + 0x10000000 := by decide
      omega
    have len := drawLength_eq small
    have all := tail_draw (Nat.le_of_eq len) (uniform_spiram block (Nat.le_of_eq len)) .filled (.release)
    refine .inr ⟨pixels, load gImage 0 (pixelsByteSize a).toNat, _, ?_,
      by rw [length_load]; exact all⟩
    rw [lcdDrawPictrue, heap]
    rfl

theorem starts_program (c : Call) (m : Placement) :
    Starts ((c.program m).flatMap Instr.micro) := by
  cases c with
  | setColor color => exact starts_setColor m color
  | drawPoint x y color => exact starts_drawPoint m x y color
  | drawPictrue a gImage => exact starts_drawPictrue m a gImage

end CameraBoard.Lcd
