import CameraBoard.LcdTasks

/-! Every interleaving of the two tasks: what the panel has heard decides where
pixels land, and what is queued decides whose completion is called. -/
namespace CameraBoard.Lcd.Tasks
open Bytes Memory Raster Interleaving

/-- The commands of the trace alone, without the colors. -/
def replay (panel : Panel) (trace : List Entry) : Panel :=
  trace.foldl (fun panel e =>
    match e.2 with
    | .txParam cmd param => panel.command cmd param
    | .txColor cmd _ _ => panel.command cmd []) panel

theorem replay_param (panel : Panel) (trace : List Entry) (d : Ticket) (cmd : Byte)
    (param : List Byte) :
    replay panel (trace ++ [(d, .txParam cmd param)]) = (replay panel trace).command cmd param := by
  rw [replay, List.foldl_append]
  rfl

theorem replay_ramwr (panel : Panel) (trace : List Entry) (d : Ticket) :
    replay panel (trace ++ [d.ramwr]) = (replay panel trace).command lcdCmdRamwr [] := by
  rw [replay, List.foldl_append]
  rfl

structure SameWindow (panel panel' : Panel) : Prop where
  cols : panel.cols = panel'.cols
  rows : panel.rows = panel'.rows

theorem SameWindow.command {panel panel' : Panel} (h : SameWindow panel panel') (cmd : Byte)
    (param : List Byte) : SameWindow (panel.command cmd param) (panel'.command cmd param) := by
  unfold Panel.command
  split_ifs
  · exact ⟨by rw [h.cols], h.rows⟩
  · exact ⟨h.cols, by rw [h.rows]⟩
  · exact ⟨h.cols, h.rows⟩
  · exact h

theorem SameWindow.window {panel panel' : Panel} (h : SameWindow panel panel') :
    panel.window = panel'.window := by
  rw [Panel.window, Panel.window, h.cols, h.rows]

/-- Behind the operations of one draw without another between them the window is
that of the draw. -/
theorem window_replay (panel : Panel) {trace : List Entry} {d : Ticket}
    (before : [d.caset, d.raset] <:+ trace) :
    (replay panel (trace ++ [d.ramwr])).window = d.bitmap.area.window := by
  obtain ⟨rest, rfl⟩ := before
  have two : rest ++ [d.caset, d.raset] = rest ++ [d.caset] ++ [d.raset] := by simp
  rw [replay_ramwr, two, Ticket.raset, replay_param, Ticket.caset, replay_param, command_caset,
    command_raset, command_ramwr]
  rfl

theorem ticket_of_mem_transactions {mem : Nat → Byte} {d : Ticket} {color size : Nat}
    {t : Transaction} (ht : t ∈ transactions mem d color size) : t.ticket = d := by
  obtain ⟨s, -, rfl⟩ := List.mem_map.1 ht
  rfl

theorem filter_sends (mem : Nat → Byte) (d d' : Ticket) :
    (d.sends mem).filter (fun t => t.ticket = d') = if d.ramwr = d'.ramwr then d.sends mem else [] := by
  split_ifs with same
  · refine List.filter_eq_self.2 fun t ht => decide_eq_true ?_
    rw [ticket_of_mem_transactions ht, Ticket.ramwr_inj same]
  · refine List.filter_eq_nil_iff.2 fun t ht mine => same ?_
    rw [← of_decide_eq_true mine, ticket_of_mem_transactions ht]

/-- The callback is enabled for the last transaction of a draw and for no other. -/
theorem sends_eq_concat (mem : Nat → Byte) (d : Ticket) : ∃ init final,
    d.sends mem = init ++ [final] ∧ (∀ t ∈ init, t.enTransDoneCb = false) ∧
      final.enTransDoneCb = true := by
  obtain ⟨cuts, cut, eq, before, last⟩ :=
    spans_eq_concat spiTransMaxBytes 0 (drawLength d.bitmap.area) (by decide)
  rw [Nat.zero_add] at before last
  refine ⟨cuts.map _, _, by rw [Ticket.sends, transactions, eq, List.map_append]; rfl, ?_, ?_⟩
  · intro t ht
    obtain ⟨s, hs, rfl⟩ := List.mem_map.1 ht
    exact decide_eq_false (Nat.not_le.2 (before s hs))
  · exact decide_eq_true last

/-- What the bus relies on in every state: the tasks follow their programs, the
panel has heard the trace, what is in flight belongs to the last operation, and
every color operation has its transactions completed or in flight. -/
structure Bus.Inv (panel : Panel) (plan : Task → List Entry) (s : Bus) : Prop where
  split : Splits (fun e => e.1.task) plan s.trace s.pending
  heard : SameWindow s.panel (replay panel s.trace)
  flight : ∀ t ∈ s.inflight, [t.ticket.ramwr] <:+ s.trace
  landed : ∀ p ∈ s.landed, ∃ before after, s.trace = before ++ p.ticket.ramwr :: after ∧
    (Addressable p.ticket.bitmap.area → [p.ticket.caset, p.ticket.raset] <:+ before → p.Inside)
  books : ∀ d, s.sent.filter (fun t => t.ticket = d) ++ s.inflight.filter (fun t => t.ticket = d) =
    if d.ramwr ∈ s.trace then d.sends s.mem else []
  ready : s.ready = (s.sent.filter fun t => t.enTransDoneCb).map fun t => t.ticket

section Step

variable {panel : Panel} {plan : Task → List Entry} {s : Bus}

theorem inv_start (mem : Nat → Byte) : (Bus.start mem panel plan).Inv panel plan where
  split := splits_start _ plan
  heard := ⟨rfl, rfl⟩
  flight := List.forall_mem_nil _
  landed := List.forall_mem_nil _
  books _ := (if_neg List.not_mem_nil).symm
  ready := rfl

theorem next_turn (s : Bus) (t : Task) : s.next (.turn t) = s ∨
    ∃ d op rest, s.pending t = (d, op) :: rest ∧ s.inflight = [] ∧
      s.next (.turn t) =
        { s.perform d op with
          pending := Function.update s.pending t rest
          trace := s.trace ++ [(d, op)] } := by
  cases left : s.pending t with
  | nil => exact .inl (by simp only [Bus.next, left])
  | cons e rest =>
    cases queued : s.inflight with
    | nil => exact .inr ⟨e.1, e.2, rest, rfl, rfl, by simp only [Bus.next, left, queued]⟩
    | cons t' more => exact .inl (by simp only [Bus.next, left, queued])

theorem Bus.Inv.landed_snoc (inv : s.Inv panel plan) (e : Entry) : ∀ p ∈ s.landed,
    ∃ before after, s.trace ++ [e] = before ++ p.ticket.ramwr :: after ∧
      (Addressable p.ticket.bitmap.area → [p.ticket.caset, p.ticket.raset] <:+ before →
        p.Inside) := by
  intro p hp
  obtain ⟨before, after, eq, inside⟩ := inv.landed p hp
  exact ⟨before, after ++ [e], by rw [eq, List.append_assoc, List.cons_append], inside⟩

theorem Bus.Inv.param (inv : s.Inv panel plan) (plans : Plan plan) {t : Task} {d : Ticket}
    {cmd : Byte} {param : List Byte} {rest : List Entry}
    (left : s.pending t = (d, .txParam cmd param) :: rest) (idle : s.inflight = []) :
    Bus.Inv panel plan
      { s.perform d (.txParam cmd param) with
        pending := Function.update s.pending t rest
        trace := s.trace ++ [(d, .txParam cmd param)] } where
  split := by
    have mine := inv.split.mem_of_pending (left ▸ List.mem_cons_self)
    exact inv.split.advance left (plans.own t _ mine).1
  heard := by
    rw [replay_param]
    exact inv.heard.command cmd param
  flight := by
    intro t ht
    rw [Bus.perform, idle] at ht
    exact absurd ht List.not_mem_nil
  landed := inv.landed_snoc _
  books := by
    intro d'
    have other : d'.ramwr ≠ (d, .txParam cmd param) := by simp [Ticket.ramwr]
    simpa [Bus.perform, other] using inv.books d'
  ready := inv.ready

theorem Bus.Inv.color (inv : s.Inv panel plan) (plans : Plan plan) {t : Task} {d : Ticket}
    {rest : List Entry} (left : s.pending t = d.ramwr :: rest) (idle : s.inflight = []) :
    Bus.Inv panel plan
      { s.perform d d.ramwr.2 with
        pending := Function.update s.pending t rest
        trace := s.trace ++ [d.ramwr] } := by
  have mine := inv.split.mem_of_pending (left ▸ List.mem_cons_self)
  have split := inv.split.advance left (plans.own t _ mine).1
  refine ⟨split, ?_, ?_, inv.landed_snoc _, ?_, inv.ready⟩
  · rw [replay_ramwr]
    exact inv.heard.command lcdCmdRamwr []
  · intro t ht
    rw [ticket_of_mem_transactions ht]
    exact List.suffix_append _ _
  · intro d'
    have books := inv.books d'
    rw [idle, List.filter_nil, List.append_nil] at books
    change s.sent.filter _ ++ (d.sends s.mem).filter _ =
      if _ ∈ s.trace ++ [d.ramwr] then d'.sends s.mem else []
    rw [filter_sends, books]
    by_cases same : d.ramwr = d'.ramwr
    · -- programs have no repetitions, so nothing was sent for this draw before
      have new : d.ramwr ∉ s.trace := fun old =>
        List.disjoint_of_nodup_append (split.nodup plans.once) old List.mem_cons_self
      rw [← Ticket.ramwr_inj same]
      simp [new]
    · simp [same, Ne.symm same]

theorem Bus.Inv.turn (inv : s.Inv panel plan) (plans : Plan plan) (t : Task) :
    (s.next (.turn t)).Inv panel plan := by
  obtain same | ⟨d, op, rest, left, idle, step⟩ := next_turn s t
  · rwa [same]
  · have mine := inv.split.mem_of_pending (left ▸ List.mem_cons_self)
    obtain ⟨-, proper, entry⟩ := plans.own t _ mine
    rw [step]
    obtain ⟨cmd, param, rfl⟩ | rfl := d.op_of_mem_entries proper entry
    · exact inv.param plans left idle
    · exact inv.color plans left idle

theorem Bus.Inv.complete (inv : s.Inv panel plan) : (s.next .complete).Inv panel plan := by
  cases queued : s.inflight with
  | nil => simpa only [Bus.next, queued] using inv
  | cons t rest =>
    simp only [Bus.next, queued]
    obtain ⟨first, others⟩ := List.forall_mem_cons.1 (queued ▸ inv.flight)
    refine ⟨inv.split, ⟨inv.heard.cols, inv.heard.rows⟩, others, ?_, ?_, ?_⟩
    · intro p hp
      obtain hp | hp := List.mem_append.1 hp
      · exact inv.landed p hp
      · obtain ⟨q, -, rfl⟩ := List.mem_map.1 hp
        obtain ⟨before, trace⟩ := first
        refine ⟨before, [], trace.symm, fun addressable alone => ?_⟩
        -- nothing could be performed since the color operation: the window is still its own
        have window : s.panel.window = t.ticket.bitmap.area.window := by
          rw [inv.heard.window, ← trace, window_replay panel alone]
        simp only [Landing.Inside, window]
        exact Window.has_cell _ addressable.1 addressable.2 _
    · intro d
      rw [← inv.books d, queued, List.filter_append, List.append_assoc, ← List.filter_append,
        List.singleton_append]
    · rw [inv.ready]
      cases flag : t.enTransDoneCb with
      | true => simp [flag]
      | false => simp [flag]

theorem Bus.Inv.next (inv : s.Inv panel plan) (plans : Plan plan) (e : Event) :
    (s.next e).Inv panel plan := by
  cases e with
  | turn t => exact inv.turn plans t
  | complete => exact inv.complete

end Step

/-- In two parts of a list that is marked at its end only, the first has the
mark when the second is empty. -/
theorem filter_of_append_eq {α : Type*} {p : α → Bool} {u v init : List α} {final : α}
    (eq : u ++ v = init ++ [final]) (before : ∀ a ∈ init, p a = false) (last : p final = true) :
    v = [] ∧ u.filter p = [final] ∨ v ≠ [] ∧ u.filter p = [] := by
  have unmarked : init.filter p = [] := List.filter_eq_nil_iff.2 fun a ha => by simp [before a ha]
  cases v using List.reverseRecOn with
  | nil =>
    rw [List.append_nil] at eq
    exact .inl ⟨rfl, by simp [eq, unmarked, last]⟩
  | append_singleton v x =>
    rw [← List.append_assoc] at eq
    have same := (List.append_inj' eq rfl).1
    rw [← same, List.filter_append] at unmarked
    exact .inr ⟨by simp, (List.append_eq_nil_iff.1 unmarked).1⟩

section Sound

variable {panel : Panel} {plan : Task → List Entry} {s : Bus} (inv : s.Inv panel plan)
include inv

theorem Bus.Inv.count_ready (d : Ticket) : s.ready.count d =
    ((s.sent.filter fun t => t.ticket = d).filter fun t => t.enTransDoneCb).length := by
  rw [inv.ready, List.count, List.countP_map, List.countP_eq_length_filter, List.filter_filter,
    List.filter_filter]
  congr 2
  funext t
  simp [Bool.and_comm, beq_eq_decide]

/-- A draw has finished and has called the callback once, or it has done neither
and, when its colors were sent, has something in flight. -/
theorem Bus.Inv.finished_or (d : Ticket) : s.Finished d ∧ s.ready.count d = 1 ∨
    ¬s.Finished d ∧ s.ready.count d = 0 ∧
      (d.ramwr ∈ s.trace → ∃ t ∈ s.inflight, t.ticket = d) := by
  rw [inv.count_ready d]
  obtain ⟨init, final, all, before, last⟩ := sends_eq_concat s.mem d
  have books := inv.books d
  by_cases sent : d.ramwr ∈ s.trace
  · rw [if_pos sent] at books
    obtain ⟨done, one⟩ | ⟨more, none⟩ := filter_of_append_eq (books.trans all) before last
    · rw [done, List.append_nil] at books
      exact .inl ⟨books, congrArg List.length one⟩
    · refine .inr ⟨fun finished => ?_, congrArg List.length none, fun _ => ?_⟩
      · rw [Bus.Finished] at finished
        rw [finished] at books
        exact more (List.append_right_eq_self.1 books)
      · obtain ⟨t, ht⟩ := List.exists_mem_of_ne_nil _ more
        obtain ⟨queued, mine⟩ := List.mem_filter.1 ht
        exact ⟨t, queued, of_decide_eq_true mine⟩
  · rw [if_neg sent] at books
    have none := (List.append_eq_nil_iff.1 books).1
    refine .inr ⟨fun finished => ?_, by simp [none], fun h => absurd h sent⟩
    rw [Bus.Finished, none, all] at finished
    simp at finished

theorem Bus.Inv.sound (plans : Plan plan) : s.Sound where
  landed p hp addressable alone := by
    obtain ⟨before, after, trace, inside⟩ := inv.landed p hp
    have sent : p.ticket.ramwr ∈ s.trace := by simp [trace]
    have proper : p.ticket.bitmap.area.Proper := (plans.own _ _ (inv.split.mem_of_trace sent)).2.1
    rw [Ticket.entries_of_proper _ proper, trace] at alone
    exact inside addressable (stands_right_before (trace ▸ inv.split.nodup plans.once) alone)
  once := by
    rw [List.nodup_iff_count_le_one]
    intro d
    obtain ⟨-, one⟩ | ⟨-, none, -⟩ := inv.finished_or d
    · exact one.le
    · exact none.le.trans (Nat.zero_le 1)
  ready d := by
    rw [← List.count_pos_iff]
    obtain ⟨finished, one⟩ | ⟨unfinished, none, -⟩ := inv.finished_or d
    · exact iff_of_true (one ▸ Nat.one_pos) finished
    · exact iff_of_false (none ▸ Nat.lt_irrefl 0) unfinished
  delivered d sent := by
    rw [← List.count_pos_iff]
    obtain ⟨-, one⟩ | ⟨-, -, flight⟩ := inv.finished_or d
    · exact .inl (one ▸ Nat.one_pos)
    · exact .inr (flight sent)

end Sound

/-- In every interleaving of flushes, calls of the application and completions:
pixels of a draw without an operation of another draw between its own land in
its rectangle, and LVGL's flush-ready is called once for every draw of either
task, when its last transaction has completed. -/
theorem always_sound (mem : Nat → Byte) (panel : Panel) (flushes : List (LvArea × Nat))
    (calls : List (AppCall × Placement)) (schedule : List Event) :
    StepRun.Always Bus.next Bus.Sound (.start mem panel (programs flushes calls)) schedule := by
  have plans := plan_programs flushes calls
  have inv : StepRun.Always Bus.next (Bus.Inv panel (programs flushes calls))
      (.start mem panel (programs flushes calls)) schedule :=
    StepRun.always_of_step (fun s e inv => inv.next plans e) (inv_start mem) schedule
  exact inv.imp fun s inv => inv.sound plans

/-- The callback was called once for every flush that has finished and for
nothing else. -/
def Bus.CallsForFlushes (s : Bus) : Prop :=
  s.ready.Nodup ∧ ∀ d, d ∈ s.ready ↔ d.task = .lvgl ∧ s.Finished d

theorem transactions_point (mem : Nat → Byte) (d : Ticket) (color : Nat) (x y : CInt) :
    transactions mem d color (drawLength ⟨x, y, x + 1, y + 1⟩) = [⟨d, load mem color 2, true⟩] := by
  rw [drawLength_point, transactions, spans_of_le _ _ _ (by decide)]
  rfl

theorem next_complete {s : Bus} {t : Transaction} {rest : List Transaction}
    (queued : s.inflight = t :: rest) : s.next .complete =
      { s with
        panel := s.panel.data t.bytes
        inflight := rest
        sent := s.sent ++ [t]
        landed := s.landed ++ landings s.panel t
        ready := if t.enTransDoneCb then s.ready ++ [t.ticket] else s.ready } := by
  simp only [Bus.next, queued]

/-- Before a flush of the cell (10, 10) and a point at (20, 20). -/
def clash : Bus := .start (fun _ => 0) ⟨(0, 0), (0, 0), 0, fun _ _ => 0⟩
  (programs [(⟨10, 10, 10, 10⟩, 0)]
    [(.draw (.drawPoint 20 20 0xf800), .onStack 0x3fc90000)])

/-- The application sets its columns behind LVGL: the color of the flush lands
at (20, 10). -/
theorem clash_landed : ¬ ∀ p ∈ ((StepRun.run Bus.next clash
    [.turn .lvgl, .turn .app, .turn .lvgl, .turn .lvgl]).next .complete).landed, p.Inside := by
  intro inside
  have queued : (StepRun.run Bus.next clash
      [.turn .lvgl, .turn .app, .turn .lvgl, .turn .lvgl]).inflight = [⟨_, _, true⟩] :=
    transactions_point _ _ 0 10 10
  rw [next_complete queued] at inside
  exact absurd (inside ⟨_, 0, (20, 10)⟩ (List.mem_singleton.2 rfl)) (by decide)

/-- The application draws while the flush is under way: flush-ready is called for
its point. -/
theorem clash_ready : ¬ ((StepRun.run Bus.next clash
    [.turn .lvgl, .turn .app, .turn .app, .turn .app]).next .complete).CallsForFlushes := by
  intro calls
  have queued : (StepRun.run Bus.next clash
      [.turn .lvgl, .turn .app, .turn .app, .turn .app]).inflight = [⟨_, _, true⟩] :=
    transactions_point _ _ 0x3fc90000 20 20
  rw [next_complete queued] at calls
  exact absurd ((calls.2 _).1 (List.mem_singleton.2 rfl)).1 (by decide)

/-- Neither the pixels nor the callback keep to their draws in every
interleaving. -/
theorem draws_torn :
    (¬ ∀ mem panel flushes calls schedule, StepRun.Always Bus.next
      (fun s => ∀ p ∈ s.landed, p.Inside) (.start mem panel (programs flushes calls)) schedule) ∧
    ¬ ∀ mem panel flushes calls schedule, StepRun.Always Bus.next Bus.CallsForFlushes
      (.start mem panel (programs flushes calls)) schedule := by
  refine ⟨fun claim => ?_, fun claim => ?_⟩
  · have all : StepRun.Always Bus.next (fun s => ∀ p ∈ s.landed, p.Inside) clash
        ([.turn .lvgl, .turn .app, .turn .lvgl, .turn .lvgl] ++ [.complete]) := claim _ _ _ _ _
    have last := all.last
    rw [StepRun.run_snoc] at last
    exact clash_landed last
  · have all : StepRun.Always Bus.next Bus.CallsForFlushes clash
        ([.turn .lvgl, .turn .app, .turn .app, .turn .app] ++ [.complete]) := claim _ _ _ _ _
    have last := all.last
    rw [StepRun.run_snoc] at last
    exact clash_ready last

end CameraBoard.Lcd.Tasks
