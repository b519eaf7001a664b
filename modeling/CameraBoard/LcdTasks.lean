import CameraBoard.St7789Panel
import CameraBoard.General.Interleaving
import CameraBoard.General.StepRun

/-! Two tasks draw on one panel: LVGL through the flush callback of its port,
the application through the drawing functions. An operation of the panel IO
holds the bus, a draw of three operations does not. The completion callback
belongs to the panel IO. Buffers keep what they hold. -/
namespace CameraBoard.Lcd.Tasks
open Bytes Memory Raster Interleaving

inductive Task where
  | lvgl
  | app
  deriving DecidableEq, Repr

/-- An `lv_area_t`, the end coordinates inclusive. -/
structure LvArea where
  x1 : BitVec 16
  y1 : BitVec 16
  x2 : BitVec 16
  y2 : BitVec 16

structure Bitmap where
  area : Area
  colorData : Nat
  deriving DecidableEq, Repr

def lvglPortFlushCallback (area : LvArea) (colorMap : Nat) : Bitmap where
  area := ⟨area.x1.signExtend 32, area.y1.signExtend 32, area.x2.signExtend 32 + 1,
    area.y2.signExtend 32 + 1⟩
  colorData := colorMap

def lcdTouch (touchX touchY : BitVec 16) : List Call :=
  let x := touchX.setWidth 32
  let y := touchY.setWidth 32
  .drawPoint x y 0xf800 :: (List.range 11).flatMap fun i =>
    [ .drawPoint (x + (BitVec.ofNat 32 i - 5)) y 0xf800,
      .drawPoint x (y + (BitVec.ofNat 32 i - 5)) 0xf800 ]

/-- A call by the application task. The coordinates of a touch are those after
the conversion. -/
inductive AppCall where
  | draw (c : Call)
  | touch (touchX touchY : BitVec 16)

def AppCall.calls : AppCall → List Call
  | .draw c => [c]
  | .touch touchX touchY => lcdTouch touchX touchY

def bitmap : Instr → Option Bitmap
  | .draw a p => some ⟨a, p⟩
  | _ => none

def AppCall.bitmaps (m : Placement) (c : AppCall) : List Bitmap :=
  (c.calls.flatMap (Call.program m)).filterMap bitmap

/-- One draw, told apart from all others by its task and its place there. -/
structure Ticket where
  task : Task
  index : Nat
  bitmap : Bitmap
  deriving DecidableEq, Repr

abbrev Entry := Ticket × PanelOp

def Ticket.entries (d : Ticket) : List Entry :=
  ((panelSt7789DrawBitmap d.bitmap.area d.bitmap.colorData).getD []).map (Prod.mk d)

/-- The operations of one task. An assertion that fails stops everything, so
none come after it. -/
def program (task : Task) (index : Nat) : List Bitmap → List Entry
  | [] => []
  | b :: bs =>
    if b.area.Proper then Ticket.entries ⟨task, index, b⟩ ++ program task (index + 1) bs else []

def programs (flushes : List (LvArea × Nat)) (calls : List (AppCall × Placement)) :
    Task → List Entry
  | .lvgl => program .lvgl 0 (flushes.map fun f => lvglPortFlushCallback f.1 f.2)
  | .app => program .app 0 (calls.flatMap fun c => c.1.bitmaps c.2)

structure Transaction where
  ticket : Ticket
  bytes : List Byte
  enTransDoneCb : Bool
  deriving DecidableEq

/-- The callback is enabled for the last transaction only. -/
def transactions (mem : Nat → Byte) (d : Ticket) (color size : Nat) : List Transaction :=
  (spans spiTransMaxBytes 0 size).map fun s =>
    ⟨d, load mem (color + s.1) s.2, size - s.1 ≤ spiTransMaxBytes⟩

/-- A pixel that was sent, the draw that supplied it and where it landed. -/
structure Landing where
  ticket : Ticket
  value : BitVec 16
  cell : Nat × Nat

def landings (panel : Panel) (t : Transaction) : List Landing :=
  (pixels t.bytes).zipIdx.map fun p => ⟨t.ticket, p.1, panel.window.cell (panel.written + p.2)⟩

/-- The memory, the panel, the operations that each task has still to do and
those already done, the transactions queued and completed, the pixels that
have landed, and the draws for which the completion callback was called, which
is LVGL's flush-ready. -/
structure Bus where
  mem : Nat → Byte
  panel : Panel
  pending : Task → List Entry
  trace : List Entry
  inflight : List Transaction
  sent : List Transaction
  landed : List Landing
  ready : List Ticket

def Bus.start (mem : Nat → Byte) (panel : Panel) (pending : Task → List Entry) : Bus :=
  ⟨mem, panel, pending, [], [], [], [], []⟩

def Bus.perform (s : Bus) (d : Ticket) : PanelOp → Bus
  | .txParam cmd param => { s with panel := s.panel.command cmd param }
  | .txColor cmd color size =>
    -- a full queue is refilled while the bus is still held: nothing comes between
    { s with panel := s.panel.command cmd [], inflight := transactions s.mem d color size }

inductive Event where
  | turn (t : Task)
  | complete

/-- A task gets the bus for one operation, which waits until every queued
transaction has finished; or the oldest transaction completes. -/
def Bus.next (s : Bus) : Event → Bus
  | .turn t =>
    match s.pending t, s.inflight with
    | (d, op) :: rest, [] =>
      { s.perform d op with
        pending := Function.update s.pending t rest
        trace := s.trace ++ [(d, op)] }
    | _, _ => s
  | .complete =>
    match s.inflight with
    | [] => s
    | t :: rest =>
      { s with
        panel := s.panel.data t.bytes
        inflight := rest
        sent := s.sent ++ [t]
        landed := s.landed ++ landings s.panel t
        ready := if t.enTransDoneCb then s.ready ++ [t.ticket] else s.ready }

def Landing.Inside (p : Landing) : Prop :=
  p.ticket.bitmap.area.window.Has p.cell.1 p.cell.2

instance (p : Landing) : Decidable p.Inside := inferInstanceAs (Decidable (Window.Has _ _ _))

def Ticket.sends (mem : Nat → Byte) (d : Ticket) : List Transaction :=
  transactions mem d d.bitmap.colorData (drawLength d.bitmap.area)

/-- Every transaction of the draw has completed. -/
def Bus.Finished (s : Bus) (d : Ticket) : Prop :=
  s.sent.filter (fun t => t.ticket = d) = d.sends s.mem

/-- The commands of a draw of this area have the ends of its columns and of its
rows in order. -/
def Addressable (a : Area) : Prop := 0 < a.window.w ∧ 0 < a.window.h

section Addressable

theorem addressable_of_inRange {a : Area} (h : a.InRange) : Addressable a := by
  have wide := h.cols.1
  have high := h.rows.1
  rw [Addressable, h.window_eq]
  simp only
  omega

theorem addressable_point (x y : CInt) : Addressable ⟨x, y, x + 1, y + 1⟩ := by
  rw [Addressable, Area.window, BitVec.add_sub_cancel, BitVec.add_sub_cancel]
  simp only
  omega

theorem addressable_flush {area : LvArea} (cols : area.x1.toNat ≤ area.x2.toNat)
    (rows : area.y1.toNat ≤ area.y2.toNat) (colorMap : Nat) :
    Addressable (lvglPortFlushCallback area colorMap).area := by
  have same : ∀ x : BitVec 16, (x.signExtend 32).setWidth 16 = x := by
    intro x
    ext i hi
    have inside : i < 32 := by omega
    rw [BitVec.getElem_setWidth, BitVec.getLsbD_signExtend, if_pos hi]
    simp [inside, hi]
  rw [lvglPortFlushCallback, Addressable, Area.window, BitVec.add_sub_cancel,
    BitVec.add_sub_cancel, same, same, same, same]
  simp only
  omega

theorem addressable_call {c : Call} (pictrue : ∀ a gImage, c = .drawPictrue a gImage → a.InRange)
    {m : Placement} {a : Area} {p : Nat} (drawn : .draw a p ∈ c.program m) : Addressable a := by
  cases c with
  | setColor color =>
    rw [Call.program, lcdSetColor] at drawn
    cases heap : m.heap rowByteSize with
    | none => simp [heap] at drawn
    | some buffer =>
      simp only [heap, List.cons_append, List.mem_cons, List.mem_append, List.mem_map,
        reduceCtorEq, List.not_mem_nil, or_false, false_or, List.mem_range] at drawn
      obtain ⟨y, hy, eq⟩ := drawn
      rw [← (Instr.draw.inj eq).1]
      exact addressable_of_inRange (inRange_rowArea hy)
  | drawPoint x y color =>
    simp only [Call.program, lcdDrawPoint, List.mem_cons, reduceCtorEq, List.not_mem_nil, or_false,
      false_or] at drawn
    rw [(Instr.draw.inj drawn).1]
    exact addressable_point x y
  | drawPictrue a' gImage =>
    rw [Call.program, lcdDrawPictrue] at drawn
    cases heap : m.heap (pixelsByteSize a') with
    | none => simp [heap] at drawn
    | some pixels =>
      simp only [heap, List.mem_cons, reduceCtorEq, List.not_mem_nil, or_false, false_or] at drawn
      rw [(Instr.draw.inj drawn).1]
      exact addressable_of_inRange (pictrue a' gImage rfl)

/-- Every call that keeps its pictures on the screen. A touch draws points only. -/
theorem addressable_appCall {c : AppCall}
    (pictrue : ∀ a gImage, c = .draw (.drawPictrue a gImage) → a.InRange) (m : Placement) :
    ∀ b ∈ c.bitmaps m, Addressable b.area := by
  intro b hb
  obtain ⟨i, hi, eq⟩ := List.mem_filterMap.1 hb
  obtain ⟨call, hcall, hi⟩ := List.mem_flatMap.1 hi
  cases i with
  | own p bytes => exact absurd eq nofun
  | release p size => exact absurd eq nofun
  | draw a p =>
    rw [← Option.some.inj eq]
    refine addressable_call (fun a' gImage same => ?_) hi
    cases c with
    | draw c => exact pictrue a' gImage (congrArg _ ((List.mem_singleton.1 hcall).symm.trans same))
    | touch touchX touchY =>
      rw [same] at hcall
      simp [AppCall.calls, lcdTouch] at hcall

end Addressable

namespace Ticket

variable (d : Ticket)

def caset : Entry := (d, .txParam lcdCmdCaset (addressParam d.bitmap.area.xStart d.bitmap.area.xEnd))
def raset : Entry := (d, .txParam lcdCmdRaset (addressParam d.bitmap.area.yStart d.bitmap.area.yEnd))
def ramwr : Entry := (d, .txColor lcdCmdRamwr d.bitmap.colorData (drawLength d.bitmap.area))

theorem entries_of_proper (proper : d.bitmap.area.Proper) :
    d.entries = [d.caset, d.raset] ++ [d.ramwr] := by
  rw [entries, panelSt7789DrawBitmap, if_pos proper]
  rfl

theorem op_of_mem_entries (proper : d.bitmap.area.Proper) {op : PanelOp}
    (h : (d, op) ∈ d.entries) : (∃ cmd param, op = .txParam cmd param) ∨ op = d.ramwr.2 := by
  rw [entries_of_proper d proper] at h
  simp only [List.cons_append, List.nil_append, List.mem_cons, List.not_mem_nil, or_false] at h
  obtain eq | eq | eq := h
  · exact .inl ⟨_, _, congrArg Prod.snd eq⟩
  · exact .inl ⟨_, _, congrArg Prod.snd eq⟩
  · exact .inr (congrArg Prod.snd eq)

theorem ramwr_inj {d d' : Ticket} (h : d.ramwr = d'.ramwr) : d = d' := congrArg Prod.fst h

end Ticket

/-- Pixels of a draw without an operation of another draw between its own are in
its rectangle. The callback was called once for every draw that has finished
and for no other, and a draw has finished when it has nothing left in flight. -/
structure Bus.Sound (s : Bus) : Prop where
  landed : ∀ p ∈ s.landed, Addressable p.ticket.bitmap.area →
    p.ticket.entries <:+: s.trace → p.Inside
  once : s.ready.Nodup
  ready : ∀ d, d ∈ s.ready ↔ s.Finished d
  delivered : ∀ d, d.ramwr ∈ s.trace → d ∈ s.ready ∨ ∃ t ∈ s.inflight, t.ticket = d

section Programs

variable {task : Task} {index : Nat} {bs : List Bitmap}

theorem mem_program {e : Entry} (he : e ∈ program task index bs) :
    e.1.task = task ∧ index ≤ e.1.index ∧ e.1.bitmap.area.Proper ∧ e ∈ e.1.entries := by
  induction bs generalizing index with
  | nil => exact absurd he List.not_mem_nil
  | cons b bs ih =>
    rw [program] at he
    split_ifs at he with proper
    · obtain he | he := List.mem_append.1 he
      · have own : e.1 = ⟨task, index, b⟩ := by
          obtain ⟨op, -, rfl⟩ := List.mem_map.1 he
          rfl
        rw [own]
        exact ⟨rfl, Nat.le_refl _, proper, he⟩
      · obtain ⟨own, later, proper, he⟩ := ih he
        exact ⟨own, Nat.le_of_succ_le later, proper, he⟩
    · exact absurd he List.not_mem_nil

theorem nodup_program : (program task index bs).Nodup := by
  induction bs generalizing index with
  | nil => exact List.nodup_nil
  | cons b bs ih =>
    rw [program]
    split_ifs with proper
    · refine List.Nodup.append ?_ ih fun e he he' => ?_
      · rw [Ticket.entries_of_proper ⟨task, index, b⟩ proper]
        simp [Ticket.caset, Ticket.raset, Ticket.ramwr, lcdCmdCaset, lcdCmdRaset]
      · obtain ⟨op, -, rfl⟩ := List.mem_map.1 he
        exact absurd (mem_program he').2.1 (Nat.not_succ_le_self index)
    · exact List.nodup_nil

structure Plan (plan : Task → List Entry) : Prop where
  own : ∀ t, ∀ e ∈ plan t, e.1.task = t ∧ e.1.bitmap.area.Proper ∧ e ∈ e.1.entries
  once : ∀ t, (plan t).Nodup

theorem plan_programs (flushes : List (LvArea × Nat)) (calls : List (AppCall × Placement)) :
    Plan (programs flushes calls) := by
  refine ⟨fun t e he => ?_, fun t => ?_⟩
  · cases t with
    | lvgl =>
      obtain ⟨own, -, entry⟩ := mem_program he
      exact ⟨own, entry⟩
    | app =>
      obtain ⟨own, -, entry⟩ := mem_program he
      exact ⟨own, entry⟩
  · cases t with
    | lvgl => exact nodup_program
    | app => exact nodup_program

end Programs

end CameraBoard.Lcd.Tasks
