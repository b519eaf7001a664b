import Mathlib.Data.List.Basic
import Mathlib.Logic.Function.Basic
import Mathlib.Tactic.Common

/-! What the master of a serial bus does, one operation at a time. The bus and
the devices on it are any machine that answers each operation. A list of
operations ends with the first that goes wrong. -/
namespace SerialBus

variable {σ β : Type*}

inductive Op (β : Type*) where
  | start
  | write (byte : β) (ackEn : Bool)
  | read (ackVal : Bool)
  | stop

/-- An answer has an acknowledgement and a byte; an operation takes what it is
about. The clock may also be held for too long, and another master may win. -/
inductive Reply (β : Type*) where
  | answer (ack : Bool) (byte : β)
  | timeout
  | arbitrationLost

inductive Fault where
  | nack
  | timeout
  | arbitrationLost
deriving DecidableEq

abbrev Bus (σ β : Type*) := σ → Op β → σ × Reply β

/-- Only a write that asks for it fails without an acknowledgement. -/
def Op.fault : Op β → Reply β → Option Fault
  | _, .timeout => some .timeout
  | _, .arbitrationLost => some .arbitrationLost
  | .write _ true, .answer false _ => some .nack
  | _, .answer _ _ => none

def Op.bytes : Op β → Reply β → List β
  | .read _, .answer _ byte => [byte]
  | _, _ => []

/-- The bus after a list of operations, the bytes that were read, and what went
wrong. -/
structure Outcome (σ β : Type*) where
  state : σ
  read : List β
  fault : Option Fault

def exec (bus : Bus σ β) (s : σ) : List (Op β) → Outcome σ β
  | [] => ⟨s, [], none⟩
  | op :: ops =>
    let (s', reply) := bus s op
    match op.fault reply with
    | some fault => ⟨s', [], some fault⟩
    | none =>
      let rest := exec bus s' ops
      ⟨rest.state, op.bytes reply ++ rest.read, rest.fault⟩

section Exec

variable {bus : Bus σ β} {s : σ}

theorem exec_cons_fault {op : Op β} {fault : Fault} (ops : List (Op β))
    (h : op.fault (bus s op).2 = some fault) :
    exec bus s (op :: ops) = ⟨(bus s op).1, [], some fault⟩ := by
  simp only [exec, h]

theorem exec_cons_none {op : Op β} (ops : List (Op β)) (h : op.fault (bus s op).2 = none) :
    exec bus s (op :: ops) =
      ⟨(exec bus (bus s op).1 ops).state,
        op.bytes (bus s op).2 ++ (exec bus (bus s op).1 ops).read,
        (exec bus (bus s op).1 ops).fault⟩ := by
  simp only [exec, h]

/-- The second half of a list is not reached when the first goes wrong. -/
theorem exec_append_fault {a : List (Op β)} (b : List (Op β))
    (h : (exec bus s a).fault ≠ none) : exec bus s (a ++ b) = exec bus s a := by
  induction a generalizing s with
  | nil => exact absurd rfl h
  | cons op a ih =>
    rw [List.cons_append]
    cases failed : op.fault (bus s op).2 with
    | some fault => rw [exec_cons_fault _ failed, exec_cons_fault _ failed]
    | none =>
      rw [exec_cons_none _ failed] at h ⊢
      rw [exec_cons_none _ failed, ih h]

theorem exec_append_none {a : List (Op β)} (b : List (Op β)) (h : (exec bus s a).fault = none) :
    exec bus s (a ++ b) =
      ⟨(exec bus (exec bus s a).state b).state,
        (exec bus s a).read ++ (exec bus (exec bus s a).state b).read,
        (exec bus (exec bus s a).state b).fault⟩ := by
  induction a generalizing s with
  | nil => rfl
  | cons op a ih =>
    rw [List.cons_append]
    cases failed : op.fault (bus s op).2 with
    | some fault =>
      rw [exec_cons_fault _ failed] at h
      exact absurd h (Option.some_ne_none _)
    | none =>
      rw [exec_cons_none _ failed] at h
      rw [exec_cons_none _ failed, exec_cons_none _ failed, ih h, List.append_assoc]

/-- What every operation keeps is kept, also where one of them goes wrong. -/
theorem exec_invariant {I : σ → Prop} {ops : List (Op β)}
    (keep : ∀ s, ∀ op ∈ ops, I s → I (bus s op).1) (start : I s) : I (exec bus s ops).state := by
  induction ops generalizing s with
  | nil => exact start
  | cons op ops ih =>
    have next := keep s op List.mem_cons_self start
    cases failed : op.fault (bus s op).2 with
    | some fault =>
      rw [exec_cons_fault ops failed]
      exact next
    | none =>
      rw [exec_cons_none ops failed]
      exact ih (fun s op mem => keep s op (List.mem_cons_of_mem _ mem)) next

def Op.isRead : Op β → Bool
  | .read _ => true
  | _ => false

theorem length_bytes {op : Op β} {reply : Reply β} (h : op.fault reply = none) :
    (op.bytes reply).length = if op.isRead then 1 else 0 := by
  cases op <;> cases reply <;> first | rfl | exact absurd h (by nofun)

/-- Every read that went through has given a byte. -/
theorem length_read {ops : List (Op β)} (h : (exec bus s ops).fault = none) :
    (exec bus s ops).read.length = ops.countP Op.isRead := by
  induction ops generalizing s with
  | nil => rfl
  | cons op ops ih =>
    cases failed : op.fault (bus s op).2 with
    | some fault =>
      rw [exec_cons_fault _ failed] at h
      exact absurd h (Option.some_ne_none _)
    | none =>
      rw [exec_cons_none _ failed] at h
      rw [exec_cons_none _ failed, List.length_append, ih h, length_bytes failed,
        List.countP_cons, Nat.add_comm]

theorem read_eq_nil {ops : List (Op β)} (h : (exec bus s ops).fault = none)
    (writes : ∀ op ∈ ops, op.isRead = false) : (exec bus s ops).read = [] := by
  have count := length_read h
  rw [List.countP_eq_zero.2 fun op mem => by simp [writes op mem]] at count
  exact List.eq_nil_of_length_eq_zero count

theorem state_exec_one (bus : Bus σ β) (s : σ) (op : Op β) :
    (exec bus s [op]).state = (bus s op).1 := by
  cases failed : op.fault (bus s op).2 with
  | some fault => rw [exec_cons_fault _ failed]
  | none =>
    rw [exec_cons_none _ failed]
    rfl

end Exec

section Disturbed

variable [Inhabited β]

/-- How a fault shows in the answer to an operation. -/
def Op.failure : Op β → Fault → Option (Reply β)
  | _, .timeout => some .timeout
  | _, .arbitrationLost => some .arbitrationLost
  | .write _ true, .nack => some (.answer false default)
  | _, .nack => none

/-- What goes wrong at an operation, and whether the devices have acted on it
before. -/
structure Trouble where
  fault : Fault
  acted : Bool

def Trouble.shows (op : Op β) (t : Trouble) : Option (Bool × Reply β) :=
  (op.failure t.fault).map (Prod.mk t.acted)

/-- A bus on which something may go wrong at any operation: the devices take no
notice of it, or they act and their answer is lost. -/
def disturbed (bus : Bus σ β) (trouble : Nat → Option Trouble) : Bus (σ × Nat) β := fun s op =>
  match (trouble s.2).bind (Trouble.shows op) with
  | some (acted, reply) => ((if acted then (bus s.1 op).1 else s.1, s.2 + 1), reply)
  | none => (((bus s.1 op).1, s.2 + 1), (bus s.1 op).2)

theorem fault_of_failure {op : Op β} {fault : Fault} {reply : Reply β}
    (h : op.failure fault = some reply) : op.fault reply = some fault := by
  unfold Op.failure at h
  split at h
  · cases h
    cases op <;> rfl
  · cases h
    cases op <;> rfl
  · cases h
    rfl
  · cases h

variable {bus : Bus σ β} {trouble : Nat → Option Trouble}

theorem disturbed_some {s : σ × Nat} {op : Op β} {acted : Bool} {reply : Reply β}
    (h : (trouble s.2).bind (Trouble.shows op) = some (acted, reply)) :
    disturbed bus trouble s op = ((if acted then (bus s.1 op).1 else s.1, s.2 + 1), reply) ∧
      op.fault reply ≠ none := by
  obtain ⟨t, -, shows⟩ := Option.bind_eq_some_iff.1 h
  obtain ⟨_, failure, eq⟩ := Option.map_eq_some_iff.1 shows
  cases eq
  refine ⟨?_, ?_⟩
  · unfold disturbed
    rw [h]
  · rw [fault_of_failure failure]
    exact Option.some_ne_none _

theorem disturbed_none {s : σ × Nat} {op : Op β}
    (h : (trouble s.2).bind (Trouble.shows op) = none) :
    disturbed bus trouble s op = (((bus s.1 op).1, s.2 + 1), (bus s.1 op).2) := by
  unfold disturbed
  rw [h]

/-- Up to the trouble the devices see the operations. -/
theorem exec_disturbed (s : σ × Nat) (ops : List (Op β)) :
    ∃ j, (exec (disturbed bus trouble) s ops).state.1 = (exec bus s.1 (ops.take j)).state := by
  induction ops generalizing s with
  | nil => exact ⟨0, rfl⟩
  | cons op ops ih =>
    cases quiet : (trouble s.2).bind (Trouble.shows op) with
    | some shown =>
      obtain ⟨acted, reply⟩ := shown
      obtain ⟨answer, fails⟩ := @disturbed_some σ β _ bus trouble s op acted reply quiet
      obtain ⟨fault, failed⟩ := Option.ne_none_iff_exists'.1 fails
      rw [exec_cons_fault ops (by rw [answer]; exact failed), answer]
      cases acted with
      | false => exact ⟨0, rfl⟩
      | true => exact ⟨1, (state_exec_one bus s.1 op).symm⟩
    | none =>
      have answer := @disturbed_none σ β _ bus trouble s op quiet
      cases failed : op.fault (bus s.1 op).2 with
      | some fault =>
        rw [exec_cons_fault ops (by rw [answer]; exact failed), answer]
        refine ⟨1, ?_⟩
        rw [List.take_succ_cons, exec_cons_fault _ failed]
      | none =>
        obtain ⟨j, eq⟩ := ih ((bus s.1 op).1, s.2 + 1)
        rw [exec_cons_none ops (by rw [answer]; exact failed), answer]
        refine ⟨j + 1, ?_⟩
        rw [List.take_succ_cons, exec_cons_none _ failed]
        exact eq

/-- Where nothing has failed there was no trouble. -/
theorem exec_disturbed_none {s : σ × Nat} {ops : List (Op β)}
    (h : (exec (disturbed bus trouble) s ops).fault = none) :
    (exec (disturbed bus trouble) s ops).state.1 = (exec bus s.1 ops).state ∧
      (exec (disturbed bus trouble) s ops).read = (exec bus s.1 ops).read := by
  induction ops generalizing s with
  | nil => exact ⟨rfl, rfl⟩
  | cons op ops ih =>
    cases quiet : (trouble s.2).bind (Trouble.shows op) with
    | some shown =>
      obtain ⟨answer, fails⟩ := @disturbed_some σ β _ bus trouble s op shown.1 shown.2 quiet
      obtain ⟨fault, failed⟩ := Option.ne_none_iff_exists'.1 fails
      rw [exec_cons_fault ops (by rw [answer]; exact failed)] at h
      exact absurd h (Option.some_ne_none _)
    | none =>
      have answer := @disturbed_none σ β _ bus trouble s op quiet
      cases failed : op.fault (bus s.1 op).2 with
      | some fault =>
        rw [exec_cons_fault ops (by rw [answer]; exact failed)] at h
        exact absurd h (Option.some_ne_none _)
      | none =>
        rw [exec_cons_none ops (by rw [answer]; exact failed), answer] at h ⊢
        obtain ⟨state, read⟩ := ih h
        rw [exec_cons_none _ failed]
        exact ⟨state, by rw [read]⟩

theorem exec_disturbed_calm (calm : ∀ n, trouble n = none) (s : σ × Nat) (ops : List (Op β)) :
    (exec (disturbed bus trouble) s ops).fault = (exec bus s.1 ops).fault := by
  induction ops generalizing s with
  | nil => rfl
  | cons op ops ih =>
    have quiet : (trouble s.2).bind (Trouble.shows op) = none := by
      rw [calm]
      rfl
    have answer := @disturbed_none σ β _ bus trouble s op quiet
    cases failed : op.fault (bus s.1 op).2 with
    | some fault =>
      rw [exec_cons_fault ops (by rw [answer]; exact failed), exec_cons_fault ops failed]
    | none =>
      rw [exec_cons_none ops (by rw [answer]; exact failed), exec_cons_none ops failed, answer]
      exact ih ((bus s.1 op).1, s.2 + 1)

end Disturbed

/-- Bytes at the places they belong to, one after the other. -/
def stored {ι : Type*} [DecidableEq ι] (mem : ι → β) (places : List ι) (bytes : List β) : ι → β :=
  (places.zip bytes).foldl (fun mem cell => Function.update mem cell.1 cell.2) mem

section Stored

variable {ι : Type*} [DecidableEq ι] {mem : ι → β} {places : List ι} {bytes : List β}

theorem stored_append (places' : List ι) (bytes' : List β) (h : places.length = bytes.length) :
    stored mem (places ++ places') (bytes ++ bytes') =
      stored (stored mem places bytes) places' bytes' := by
  unfold stored
  rw [List.zip_append h, List.foldl_append]

theorem stored_of_notMem {i : ι} (h : i ∉ places) : stored mem places bytes i = mem i := by
  induction places generalizing mem bytes with
  | nil => rfl
  | cons place places ih =>
    cases bytes with
    | nil => rfl
    | cons byte bytes =>
      have other := List.ne_of_not_mem_cons h
      have later : stored (Function.update mem place byte) places bytes i = _ :=
        ih (List.not_mem_of_not_mem_cons h)
      exact later.trans (Function.update_of_ne other _ _)

theorem stored_range' (mem : Nat → β) (start : Nat) (bytes : List β) (i : Nat) :
    stored mem (List.range' start bytes.length) bytes (start + i) =
      bytes.getD i (mem (start + i)) := by
  induction bytes generalizing mem start i with
  | nil => rfl
  | cons byte bytes ih =>
    rw [List.length_cons, List.range'_succ]
    have later : stored mem (start :: List.range' (start + 1) bytes.length) (byte :: bytes) =
        stored (Function.update mem start byte) (List.range' (start + 1) bytes.length) bytes := rfl
    rw [later]
    cases i with
    | zero =>
      have before : start ∉ List.range' (start + 1) bytes.length := by
        intro mem
        have := List.mem_range'_1.1 mem
        omega
      change stored (Function.update mem start byte) _ bytes start = byte
      rw [stored_of_notMem before, Function.update_self]
    | succ i =>
      have shift : start + (i + 1) = start + 1 + i := by omega
      rw [shift, ih, List.getD_cons_succ, Function.update_of_ne (by omega)]

end Stored

end SerialBus
