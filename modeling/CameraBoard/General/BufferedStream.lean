import Mathlib.Data.List.Basic
import Mathlib.Data.List.Infix
import Mathlib.Tactic.Common

/-! A buffered output stream over an arbitrary type of items. A write may leave
any tail of what it was given in the buffer, a later write or the close pushes
the buffer on, and each push may stop short, which the call making it reports.
The outcome of every push is an input of the model. -/
namespace BufferedStream

variable {β : Type*}

/-- The outcome of the pushing that one call does. `full kept` takes all the
items and leaves the last `kept` of the buffer behind, `short sent accepted`
pushes only `sent` items and takes only `accepted` of those it was given. -/
inductive Push where
  | full (kept : Nat)
  | short (sent accepted : Nat)
  deriving DecidableEq, Repr

def Push.IsFull : Push → Prop
  | .full _ => True
  | .short _ _ => False

instance : ∀ p : Push, Decidable p.IsFull
  | .full _ => .isTrue trivial
  | .short _ _ => .isFalse not_false

/-- Uses of a stream, with whether every push the call made went through. -/
inductive Op (β : Type*) where
  | opened
  | wrote (items : List β) (ok : Bool)
  | closed (ok : Bool)
  deriving Repr

def Op.ok : Op β → Bool
  | .opened => true
  | .wrote _ ok => ok
  | .closed ok => ok

def Op.items : Op β → List β
  | .wrote items _ => items
  | _ => []

def Op.IsWrite : Op β → Prop
  | .wrote _ _ => True
  | _ => False

structure Stream (β : Type*) where
  delivered : List β
  waiting : List β
  ops : List (Op β)
  deriving Repr

def opened : Stream β := ⟨[], [], [.opened]⟩

/-- Writes `items` as `nmemb` elements of equal size and returns the number of
elements taken. An empty write makes no push and returns zero. -/
def Stream.write (s : Stream β) (items : List β) (nmemb : Nat) (push : Push) : Nat × Stream β :=
  if items = [] then (0, { s with ops := s.ops ++ [.wrote [] true] })
  else
    match push with
    | .full kept =>
      let held := s.waiting ++ items
      let cut := held.length - kept
      (nmemb, ⟨s.delivered ++ held.take cut, held.drop cut, s.ops ++ [.wrote items true]⟩)
    | .short sent accepted =>
      let taken := min accepted (items.length - 1)
      let held := s.waiting ++ items.take taken
      (taken * nmemb / items.length,
        ⟨s.delivered ++ held.take sent, held.drop sent, s.ops ++ [.wrote items false]⟩)

/-- A stream with nothing waiting has nothing left to push. -/
def Stream.close (s : Stream β) (push : Push) : Bool × Stream β :=
  if s.waiting = [] then (true, { s with ops := s.ops ++ [.closed true] })
  else
    match push with
    | .full _ => (true, ⟨s.delivered ++ s.waiting, [], s.ops ++ [.closed true]⟩)
    | .short sent _ =>
      let cut := min sent (s.waiting.length - 1)
      (false, ⟨s.delivered ++ s.waiting.take cut, [], s.ops ++ [.closed false]⟩)

def Stream.passed (s : Stream β) : List β := s.ops.flatMap Op.items

/-- The number of items in writes that went through whole. -/
def Stream.accepted (s : Stream β) : Nat :=
  (s.ops.flatMap fun op => if op.ok then op.items else []).length

def Stream.AllOk (s : Stream β) : Prop := ∀ op ∈ s.ops, op.ok = true

/-- Opened first, closed once and last, written in between. -/
def Stream.WellUsed (s : Stream β) : Prop :=
  ∃ writes ok, s.ops = .opened :: writes ++ [.closed ok] ∧ ∀ op ∈ writes, op.IsWrite

structure Stream.Open (s : Stream β) : Prop where
  shape : ∃ writes, s.ops = .opened :: writes ∧ ∀ op ∈ writes, op.IsWrite
  fed : s.AllOk → s.passed = s.delivered ++ s.waiting

theorem open_opened : (opened : Stream β).Open :=
  ⟨⟨[], rfl, by simp⟩, fun _ => rfl⟩

@[simp] theorem allOk_opened : (opened : Stream β).AllOk := by
  simp [Stream.AllOk, opened, Op.ok]

section Write

variable {s : Stream β} {items : List β} {nmemb : Nat} {push : Push}

theorem write_ops : (s.write items nmemb push).2.ops =
    s.ops ++ [.wrote items (items = [] ∨ push.IsFull)] := by
  by_cases h : items = []
  · simp [Stream.write, h]
  · cases push <;> simp [Stream.write, h, Push.IsFull]

theorem write_passed : (s.write items nmemb push).2.passed = s.passed ++ items := by
  simp [Stream.passed, write_ops, Op.items]

theorem write_allOk :
    (s.write items nmemb push).2.AllOk ↔ s.AllOk ∧ (items = [] ∨ push.IsFull) := by
  simp [Stream.AllOk, write_ops, Op.ok, or_imp, forall_and]

theorem write_returned (some : items ≠ []) (pos : 0 < nmemb) :
    (s.write items nmemb push).1 = nmemb ↔ push.IsFull := by
  cases push with
  | full kept => simp [Stream.write, some, Push.IsFull]
  | short sent accepted =>
    have len : 0 < items.length := List.length_pos_iff.2 some
    have part : min accepted (items.length - 1) * nmemb / items.length < nmemb := by
      rw [Nat.div_lt_iff_lt_mul len, Nat.mul_comm nmemb]
      exact Nat.mul_lt_mul_of_pos_right (by omega) pos
    simp [Stream.write, some, Push.IsFull, part.ne]

theorem write_one_returned :
    (s.write items 1 push).1 = if items ≠ [] ∧ push.IsFull then 1 else 0 := by
  by_cases h : items = []
  · simp [Stream.write, h]
  · cases push with
    | full kept => simp [Stream.write, h, Push.IsFull]
    | short sent accepted =>
      have len : 0 < items.length := List.length_pos_iff.2 h
      have part : min accepted (items.length - 1) / items.length = 0 :=
        Nat.div_eq_of_lt (by omega)
      simp [Stream.write, h, Push.IsFull, part]

/-- A write of one element counts as accepted what it returns, in items. -/
theorem write_one_accepted : (s.write items 1 push).2.accepted =
    s.accepted + (s.write items 1 push).1 * items.length := by
  rw [write_one_returned, Stream.accepted, write_ops]
  by_cases h : items = []
  · simp [Stream.accepted, h, Op.ok, Op.items]
  · by_cases full : push.IsFull <;> simp [Stream.accepted, h, full, Op.ok, Op.items]

theorem write_full (full : items = [] ∨ push.IsFull) :
    (s.write items nmemb push).2.delivered ++ (s.write items nmemb push).2.waiting =
      s.delivered ++ s.waiting ++ items := by
  by_cases h : items = []
  · simp [Stream.write, h]
  · cases push with
    | full kept => simp [Stream.write, h]
    | short => exact (full.resolve_left h).elim

theorem write_waiting (some : items ≠ []) (full : push.IsFull) :
    (s.write items nmemb push).2.waiting = [] ↔ push = .full 0 := by
  have len : 0 < items.length := List.length_pos_iff.2 some
  cases push with
  | full kept =>
    simp only [Stream.write, some, if_false, List.drop_eq_nil_iff, List.length_append,
      Push.full.injEq]
    omega
  | short => exact full.elim

theorem Stream.Open.write (h : s.Open) : (s.write items nmemb push).2.Open := by
  obtain ⟨writes, eq, all⟩ := h.shape
  refine ⟨⟨writes ++ [.wrote items (items = [] ∨ push.IsFull)], ?_, ?_⟩, ?_⟩
  · rw [write_ops, eq, List.cons_append]
  · simpa [or_imp, forall_and, Op.IsWrite] using all
  · intro ok
    obtain ⟨before, full⟩ := write_allOk.1 ok
    rw [write_passed, write_full full, h.fed before]

end Write

section Close

variable {s : Stream β} {push : Push}

theorem close_returned : (s.close push).1 = true ↔ s.waiting = [] ∨ push.IsFull := by
  by_cases h : s.waiting = []
  · simp [Stream.close, h]
  · cases push <;> simp [Stream.close, h, Push.IsFull]

theorem close_ops : (s.close push).2.ops = s.ops ++ [.closed (s.close push).1] := by
  by_cases h : s.waiting = []
  · simp [Stream.close, h]
  · cases push <;> simp [Stream.close, h]

theorem close_passed : (s.close push).2.passed = s.passed := by
  simp [Stream.passed, close_ops, Op.items]

theorem close_allOk : (s.close push).2.AllOk ↔ s.AllOk ∧ (s.waiting = [] ∨ push.IsFull) := by
  rw [← close_returned]
  simp [Stream.AllOk, close_ops, Op.ok, or_imp, forall_and]

theorem close_delivered (full : s.waiting = [] ∨ push.IsFull) :
    (s.close push).2.delivered = s.delivered ++ s.waiting := by
  by_cases h : s.waiting = []
  · simp [Stream.close, h]
  · cases push with
    | full kept => simp [Stream.close, h]
    | short => exact (full.resolve_left h).elim

theorem Stream.Open.wellUsed (h : s.Open) : (s.close push).2.WellUsed := by
  obtain ⟨writes, eq, all⟩ := h.shape
  exact ⟨writes, (s.close push).1, by rw [close_ops, eq], all⟩

/-- When no push failed, the sink has all that was handed over. -/
theorem Stream.Open.delivered (h : s.Open) (ok : (s.close push).2.AllOk) :
    (s.close push).2.delivered = (s.close push).2.passed := by
  obtain ⟨before, full⟩ := close_allOk.1 ok
  rw [close_delivered full, close_passed, h.fed before]

end Close

end BufferedStream
