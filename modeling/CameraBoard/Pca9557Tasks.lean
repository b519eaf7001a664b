import CameraBoard.General.Linearization
import CameraBoard.Pca9557
import Mathlib.Logic.Function.Basic

/-! Tasks that call the expander's setters concurrently. The I2C driver's command
mutex makes each bus transaction atomic, but nothing is held between the read
and the write of one setter, so a schedule may interleave the transactions of
any number of tasks. Every transaction succeeds here. -/
namespace CameraBoard.Pca9557.Tasks

open Linearization

structure Setting where
  pin : Pin
  level : Byte
  deriving DecidableEq

/-- Where a task stands in its current call; `data` is the local variable that
the read transaction fills. -/
inductive Phase where
  | idle
  | entered
  | holding (data : Byte)
  | written
  deriving DecidableEq

/-- A call is named by its task and its position in the task's program. -/
structure System (ι : Type*) where
  regs : Regs
  phase : ι → Phase
  next : ι → Nat
  history : List (Event (ι × Nat))

variable {ι : Type*} (calls : ι → List Setting)

def start (regs : Regs) : System ι := ⟨regs, fun _ => .idle, fun _ => 0, []⟩

/-- The calls of one task in the history: those before its position, and the
current one as far as its phase says. -/
structure At (s : System ι) (i : ι) : Prop where
  bound : s.next i ≤ (calls i).length
  within : s.phase i ≠ .idle → s.next i < (calls i).length
  invoked : ∀ k, .invoke (i, k) ∈ s.history ↔ k < s.next i ∨ k = s.next i ∧ s.phase i ≠ .idle
  committed : ∀ k, .commit (i, k) ∈ s.history ↔
    k < s.next i ∨ k = s.next i ∧ s.phase i = .written

/-- How the history, the phases and the program positions fit together. -/
structure Inv (s : System ι) : Prop where
  legal : Legal s.history
  task : ∀ i, At calls s i
  ordered : ∀ i k l, k < l → (i, l) ∈ commits s.history →
    Precedes (commits s.history) (i, k) (i, l)

theorem inv_start (regs : Regs) : Inv calls (start regs) where
  legal := .nil
  task _ := ⟨Nat.zero_le _, fun h => absurd rfl h, by simp [start], by simp [start]⟩
  ordered _ _ _ _ h := by simp [start] at h

def effect (out : Byte) (o : ι × Nat) : Byte :=
  match (calls o.1)[o.2]? with
  | some c => setBits out c.pin.gpio c.level
  | none => out

/-- The task to move is not about to write, or the register still holds on every
other pin what the task has read. -/
def current (s : System ι) (i : ι) : Bool :=
  match (calls i)[s.next i]?, s.phase i with
  | some c, .holding data =>
    decide (data &&& ~~~c.pin.gpio = s.regs outputPort &&& ~~~c.pin.gpio)
  | _, _ => true

theorem setBits_congr (m n level : Byte) (pin : Pin)
    (same : m &&& ~~~pin.gpio = n &&& ~~~pin.gpio) :
    setBits m pin.gpio level = setBits n pin.gpio level := by
  have bits : ∀ i, i ≠ pin.index → m.getLsbD i = n.getLsbD i := by
    intro i hi
    have low := congrArg (BitVec.getLsbD · i) (show setBits m pin.gpio 0 = setBits n pin.gpio 0 from same)
    simpa only [setBits_bit, if_neg hi] using low
  refine BitVec.eq_of_getLsbD_eq fun i _ => ?_
  rw [setBits_bit, setBits_bit]
  split_ifs with hi
  · rfl
  · exact bits i hi

/-- The register holds the effects of the committed calls in commit order. -/
def Replayed (regs : Regs) (s : System ι) : Prop :=
  s.regs outputPort = (commits s.history).foldl (effect calls) (regs outputPort)

def Sets (pin : Pin) (o : ι × Nat) : Prop :=
  ∃ c, (calls o.1)[o.2]? = some c ∧ c.pin = pin

theorem effect_bit_of_not_sets (pin : Pin) (out : Byte) (o : ι × Nat) (h : ¬ Sets calls pin o) :
    (effect calls out o).getLsbD pin.index = out.getLsbD pin.index := by
  unfold effect
  split
  · next c hc =>
    have other : pin.index ≠ c.pin.index := fun eq => h ⟨c, hc, (Pin.index_injective eq).symm⟩
    rw [setBits_bit, if_neg other]
  · rfl

theorem foldl_effect_untouched (pin : Pin) (order : List (ι × Nat)) (out : Byte)
    (h : ∀ o ∈ order, ¬ Sets calls pin o) :
    (order.foldl (effect calls) out).getLsbD pin.index = out.getLsbD pin.index := by
  induction order generalizing out with
  | nil => rfl
  | cons o order ih =>
    rw [List.foldl_cons, ih _ fun x hx => h x (List.mem_cons_of_mem _ hx)]
    exact effect_bit_of_not_sets calls pin out o (h o List.mem_cons_self)

section Step

variable [DecidableEq ι]

/-- The scheduled task enters its next call, or makes the read or the write
transaction of its current call, or returns from it. -/
def step (s : System ι) (i : ι) : System ι :=
  match (calls i)[s.next i]? with
  | none => s
  | some c =>
    match s.phase i with
    | .idle =>
      { s with
        phase := Function.update s.phase i .entered
        history := s.history ++ [.invoke (i, s.next i)] }
    | .entered =>
      { s with
        phase := Function.update s.phase i
          (.holding (pca9557RegisterRead s.regs outputPort espOk 0).2) }
    | .holding data =>
      { s with
        regs := (pca9557RegisterWriteByte s.regs outputPort
          (setBits data c.pin.gpio c.level) espOk).2
        phase := Function.update s.phase i .written
        history := s.history ++ [.commit (i, s.next i)] }
    | .written =>
      { s with
        phase := Function.update s.phase i .idle
        next := Function.update s.next i (s.next i + 1)
        history := s.history ++ [.ret (i, s.next i)] }

/-- The two transactions with nothing between them are the setter itself. -/
theorem transactions_eq (regs : Regs) (c : Setting) (stray : Byte) :
    pca9557RegisterWriteByte regs outputPort
        (setBits (pca9557RegisterRead regs outputPort espOk stray).2 c.pin.gpio c.level) espOk =
      pca9557SetOutputState regs c.pin.gpio c.level ⟨espOk, stray, espOk⟩ := rfl

theorem step_cases (s : System ι) (i : ι) :
    step calls s i = s ∨ ∃ c, (calls i)[s.next i]? = some c ∧
      (s.phase i = .idle ∧ step calls s i =
          { s with
            phase := Function.update s.phase i .entered
            history := s.history ++ [.invoke (i, s.next i)] } ∨
        s.phase i = .entered ∧ step calls s i =
          { s with phase := Function.update s.phase i (.holding (s.regs outputPort)) } ∨
        (∃ data, s.phase i = .holding data ∧ step calls s i =
          { s with
            regs := fun r => if r = outputPort then setBits data c.pin.gpio c.level else s.regs r
            phase := Function.update s.phase i .written
            history := s.history ++ [.commit (i, s.next i)] }) ∨
        s.phase i = .written ∧ step calls s i =
          { s with
            phase := Function.update s.phase i .idle
            next := Function.update s.next i (s.next i + 1)
            history := s.history ++ [.ret (i, s.next i)] }) := by
  cases hc : (calls i)[s.next i]? with
  | none => exact .inl (by simp only [step, hc])
  | some c =>
    refine .inr ⟨c, rfl, ?_⟩
    cases hp : s.phase i with
    | idle => exact .inl ⟨rfl, by simp only [step, hc, hp]⟩
    | entered => exact .inr (.inl ⟨rfl, by simp only [step, hc, hp]; rfl⟩)
    | holding data => exact .inr (.inr (.inl ⟨data, rfl, by simp only [step, hc, hp]; rfl⟩))
    | written => exact .inr (.inr (.inr ⟨rfl, by simp only [step, hc, hp]⟩))

theorem Inv.move {s s' : System ι} {i : ι} (inv : Inv calls s) (legal : Legal s'.history)
    (own : At calls s' i)
    (still : ∀ j, j ≠ i → s'.phase j = s.phase j ∧ s'.next j = s.next j ∧
      ∀ k, (.invoke (j, k) ∈ s'.history ↔ .invoke (j, k) ∈ s.history) ∧
        (.commit (j, k) ∈ s'.history ↔ .commit (j, k) ∈ s.history))
    (ordered : ∀ i k l, k < l → (i, l) ∈ commits s'.history →
      Precedes (commits s'.history) (i, k) (i, l)) : Inv calls s' where
  legal := legal
  task j := by
    by_cases hj : j = i
    · exact hj ▸ own
    · obtain ⟨phase, next, events⟩ := still j hj
      have before := inv.task j
      refine ⟨?_, ?_, fun k => ?_, fun k => ?_⟩
      · rw [next]
        exact before.bound
      · rw [next, phase]
        exact before.within
      · rw [(events k).1, next, phase]
        exact before.invoked k
      · rw [(events k).2, next, phase]
        exact before.committed k
  ordered := ordered

theorem inv_enter (s : System ι) (i : ι) (inv : Inv calls s)
    (inside : s.next i < (calls i).length) (hp : s.phase i = .idle) :
    Inv calls { s with
      phase := Function.update s.phase i .entered
      history := s.history ++ [.invoke (i, s.next i)] } := by
  have before := inv.task i
  refine inv.move calls (i := i) ?_ ⟨before.bound, fun _ => inside, fun k => ?_, fun k => ?_⟩
    (fun j hj => by simp [hj]) ?_
  · exact .invoke inv.legal (by simp [before.invoked, hp])
  · simp [before.invoked, hp]
  · simp [before.committed, hp]
  · simpa only [commits_invoke] using inv.ordered

theorem inv_read (s : System ι) (i : ι) (inv : Inv calls s)
    (inside : s.next i < (calls i).length) (hp : s.phase i = .entered) (data : Byte) :
    Inv calls { s with phase := Function.update s.phase i (.holding data) } := by
  have before := inv.task i
  refine inv.move calls (i := i) inv.legal ⟨before.bound, fun _ => inside, fun k => ?_, fun k => ?_⟩
    (fun j hj => by simp [hj]) inv.ordered
  · simp [before.invoked, hp]
  · simp [before.committed, hp]

theorem inv_write (s : System ι) (i : ι) (inv : Inv calls s)
    (inside : s.next i < (calls i).length) (data : Byte) (hp : s.phase i = .holding data)
    (regs : Regs) :
    Inv calls { s with
      regs := regs
      phase := Function.update s.phase i .written
      history := s.history ++ [.commit (i, s.next i)] } := by
  have before := inv.task i
  refine inv.move calls (i := i) ?_ ⟨before.bound, fun _ => inside, fun k => ?_, fun k => ?_⟩
    (fun j hj => by simp [hj]) fun j k l hkl h => ?_
  · exact .commit inv.legal (by simp [before.invoked, hp]) (by simp [before.committed, hp])
  · simp [before.invoked, hp]
  · simp [before.committed, hp]
  · rw [commits_commit] at h ⊢
    rw [precedes_snoc]
    obtain h | h := List.mem_append.1 h
    · exact .inl (inv.ordered j k l hkl h)
    · obtain ⟨rfl, rfl⟩ := Prod.mk.inj (List.mem_singleton.1 h)
      exact .inr ⟨rfl, mem_commits.2 ((before.committed k).2 (.inl hkl))⟩

theorem inv_return (s : System ι) (i : ι) (inv : Inv calls s)
    (inside : s.next i < (calls i).length) (hp : s.phase i = .written) :
    Inv calls { s with
      phase := Function.update s.phase i .idle
      next := Function.update s.next i (s.next i + 1)
      history := s.history ++ [.ret (i, s.next i)] } := by
  have before := inv.task i
  have past : ∀ k, k < s.next i + 1 ↔ k < s.next i ∨ k = s.next i := fun k => by omega
  refine inv.move calls (i := i) ?_ ⟨?_, fun h => ?_, fun k => ?_, fun k => ?_⟩
    (fun j hj => by simp [hj]) ?_
  · exact .ret inv.legal (by simp [before.committed, hp])
  · simpa only [Function.update_self] using Nat.succ_le_of_lt inside
  · exact absurd (Function.update_self i _ s.phase) h
  · simp only [Function.update_self, past]
    simp [before.invoked, hp]
  · simp only [Function.update_self, past]
    simp [before.committed, hp]
  · simpa only [commits_ret] using inv.ordered

theorem inv_step (s : System ι) (i : ι) (inv : Inv calls s) : Inv calls (step calls s i) := by
  rcases step_cases calls s i with eq | ⟨c, hc, cases⟩
  · exact eq.symm ▸ inv
  have inside : s.next i < (calls i).length := (List.getElem?_eq_some_iff.1 hc).1
  rcases cases with ⟨hp, eq⟩ | ⟨hp, eq⟩ | ⟨data, hp, eq⟩ | ⟨hp, eq⟩ <;> rw [eq]
  · exact inv_enter calls s i inv inside hp
  · exact inv_read calls s i inv inside hp _
  · exact inv_write calls s i inv inside data hp _
  · exact inv_return calls s i inv inside hp

theorem replayed_step (regs : Regs) (s : System ι) (i : ι) (replayed : Replayed calls regs s)
    (fresh : current calls s i = true) : Replayed calls regs (step calls s i) := by
  unfold Replayed at replayed ⊢
  rcases step_cases calls s i with eq | ⟨c, hc, ⟨-, eq⟩ | ⟨-, eq⟩ | ⟨data, hp, eq⟩ | ⟨-, eq⟩⟩ <;>
    rw [eq]
  · exact replayed
  · simpa using replayed
  · exact replayed
  · have same : data &&& ~~~c.pin.gpio = s.regs outputPort &&& ~~~c.pin.gpio := by
      simpa [current, hc, hp] using fresh
    simp only [commits_commit, List.foldl_append, List.foldl_cons, List.foldl_nil, ← replayed,
      effect, hc, if_true]
    exact setBits_congr data _ c.level c.pin same
  · simpa using replayed

end Step

/-- A sequential order of all calls that explains the register `s` ends with. -/
structure Explains (regs : Regs) (s : System ι) (order : List (ι × Nat)) : Prop where
  linearizes : Linearizes s.history order
  complete : ∀ i k, (i, k) ∈ order ↔ k < (calls i).length
  program : ∀ i k l, k < l → (i, l) ∈ order → Precedes order (i, k) (i, l)
  untouched : ∀ pin, (∀ o ∈ order, ¬ Sets calls pin o) →
    (s.regs outputPort).getLsbD pin.index = (regs outputPort).getLsbD pin.index
  lastWins : ∀ pin, (∃ o ∈ order, Sets calls pin o) → ∃ o ∈ order, ∃ c,
    (calls o.1)[o.2]? = some c ∧ c.pin = pin ∧
    (∀ x ∈ order, Sets calls pin x → x ≠ o → Precedes order x o) ∧
    (s.regs outputPort).getLsbD pin.index = high c.level

theorem explains_commits (regs : Regs) (s : System ι) (inv : Inv calls s)
    (replayed : Replayed calls regs s) (returned : ∀ i, s.next i = (calls i).length) :
    Explains calls regs s (commits s.history) where
  linearizes := inv.legal.linearizes
  complete i k := by
    rw [mem_commits, (inv.task i).committed, returned]
    refine or_iff_left fun ⟨_, hp⟩ => ?_
    have inside := (inv.task i).within (by simp [hp])
    exact absurd (returned i) inside.ne
  program := inv.ordered
  untouched pin none := by
    rw [replayed]
    exact foldl_effect_untouched calls pin _ _ none
  lastWins pin some := by
    classical
    obtain ⟨front, o, back, split, ⟨c, hc, hpin⟩, rest⟩ :=
      exists_last (Sets calls pin) (commits s.history) some
    refine ⟨o, by simp [split], c, hc, hpin, fun x hx hset hne => ?_, ?_⟩
    · rw [split] at hx ⊢
      have inFront : x ∈ front := by
        rcases List.mem_append.1 hx with hx | hx
        · exact hx
        · exact absurd hset (rest x ((List.mem_cons.1 hx).resolve_left hne))
      exact (List.singleton_sublist.2 inFront).append
        (List.singleton_sublist.2 List.mem_cons_self)
    · rw [replayed, split, List.foldl_append, List.foldl_cons,
        foldl_effect_untouched calls pin back _ rest]
      simp only [effect, hc, setBits_bit, hpin, if_true]

/-- When one task alone drives a pin, the pin has the level of that task's last
call on it. -/
theorem Explains.single_driver {calls : ι → List Setting} {regs : Regs} {s : System ι}
    {order : List (ι × Nat)} (h : Explains calls regs s order) (pin : Pin) (i : ι)
    (driver : ∀ o ∈ order, Sets calls pin o → o.1 = i) (k : Nat) (c : Setting)
    (hc : (calls i)[k]? = some c) (hpin : c.pin = pin)
    (last : ∀ l, k < l → ¬ Sets calls pin (i, l)) :
    (s.regs outputPort).getLsbD pin.index = high c.level := by
  have mem : (i, k) ∈ order := (h.complete i k).2 (List.getElem?_eq_some_iff.1 hc).1
  obtain ⟨⟨j, l⟩, ho, d, hd, hdpin, after, value⟩ := h.lastWins pin ⟨(i, k), mem, c, hc, hpin⟩
  obtain rfl : j = i := driver (j, l) ho ⟨d, hd, hdpin⟩
  have notLater : ¬ k < l := fun hkl => last l hkl ⟨d, hd, hdpin⟩
  have notEarlier : ¬ l < k := by
    intro hlk
    have first := h.program j l k hlk mem
    have second := after (j, k) mem ⟨c, hc, hpin⟩ (by simp [hlk.ne'])
    exact first.asymm h.linearizes.once second
  obtain rfl : k = l := by omega
  rw [value, Option.some.inj (hc.symm.trans hd)]

section Runs

variable [DecidableEq ι] (regs : Regs)

def settled (schedule : List ι) : System ι := StepRun.run (step calls) (start regs) schedule

/-- If no task ever writes back a byte whose other pins have changed since it was
read, then once all calls have returned some real-time and program order of
them explains every pin. -/
theorem exists_explains (schedule : List ι)
    (fresh : StepRun.Along (step calls) (fun s i => current calls s i = true) (start regs) schedule)
    (returned : ∀ i, (settled calls regs schedule).next i = (calls i).length) :
    ∃ order, Explains calls regs (settled calls regs schedule) order ∧
      ∀ pin i, (∀ o ∈ order, Sets calls pin o → o.1 = i) →
        ∀ k c, (calls i)[k]? = some c → c.pin = pin → (∀ l, k < l → ¬ Sets calls pin (i, l)) →
          ((settled calls regs schedule).regs outputPort).getLsbD pin.index = high c.level := by
  have inv : Inv calls (settled calls regs schedule) :=
    StepRun.run_of_step (inv_step calls) (inv_start calls regs) schedule
  have replayed : Replayed calls regs (settled calls regs schedule) :=
    fresh.invariant (fun s i => replayed_step calls regs s i) rfl
  have explains := explains_commits calls regs _ inv replayed returned
  exact ⟨_, explains, fun pin i driver k c => explains.single_driver pin i driver k c⟩

end Runs

def sharedPin : Bool → List Setting
  | false => [⟨.lcdCs, 0⟩, ⟨.paEn, 1⟩]
  | true => [⟨.lcdCs, 1⟩]

/-- Both tasks have read before either writes, and the second call of one task
is made while the other has not returned. -/
def overlapping : List Bool :=
  [false, true, false, true, false, true, false, false, false, false, true, false]

theorem exists_explains_overlapping :
    (∀ i, (settled sharedPin (pca9557Init (fun _ => 0) espOk espOk) (overlapping.take 4)).phase i =
      .holding 5) ∧
    ∃ order, Explains sharedPin (pca9557Init (fun _ => 0) espOk espOk)
      (settled sharedPin (pca9557Init (fun _ => 0) espOk espOk) overlapping) order :=
  ⟨by decide, (exists_explains sharedPin (pca9557Init (fun _ => 0) espOk espOk) overlapping
    (by decide) (by decide)).imp fun _ h => h.1⟩

def twoTasks : Bool → List Setting
  | false => [⟨.lcdCs, 0⟩]
  | true => [⟨.paEn, 1⟩]

/-- Both tasks read before either writes: the second write puts the chip select
back to the level the first had just removed. -/
theorem not_exists_explains : ¬ ∀ (calls : Bool → List Setting) (regs : Regs) (schedule : List Bool),
    (∀ i, (settled calls regs schedule).next i = (calls i).length) →
      ∃ order, Explains calls regs (settled calls regs schedule) order := by
  intro claim
  obtain ⟨order, h⟩ := claim twoTasks (pca9557Init (fun _ => 0) espOk espOk)
    [false, false, true, true, false, true, false, true] (by decide)
  have low := h.single_driver .lcdCs false (fun o _ ⟨c, hc, hpin⟩ => ?_) 0 ⟨.lcdCs, 0⟩ rfl rfl
    (fun l hl ⟨c, hc, _⟩ => ?_)
  · exact absurd low (by decide)
  · obtain ⟨task, k⟩ := o
    cases task with
    | false => rfl
    | true =>
      have mem : c ∈ twoTasks true := List.mem_of_getElem? hc
      rw [List.mem_singleton.1 mem] at hpin
      exact absurd hpin (by decide)
  · have inside : l < 1 := (List.getElem?_eq_some_iff.1 hc).1
    omega

end CameraBoard.Pca9557.Tasks
