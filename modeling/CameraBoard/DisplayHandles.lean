import CameraBoard.Esp
import CameraBoard.General.StepRun
import Mathlib.Data.List.Nodup

/-! Creating the display: an SPI bus, a panel IO on it and the panel on that.
The two handles are globals that outlive the call, and the shared cleanup goes
by them. Whether each constructor succeeds is an input of the model. -/
namespace CameraBoard.Display

abbrev ObjectId := Nat

structure Handles where
  bus : Bool
  fresh : ObjectId
  live : List ObjectId
  deleted : List ObjectId
  ioHandle : Option ObjectId
  panelHandle : Option ObjectId
  deriving DecidableEq, Repr

def Handles.reset : Handles := ⟨false, 0, [], [], none, none⟩

/-- The statuses of the three constructors when nothing else makes them fail. -/
structure Outcome where
  bus : EspErr
  io : EspErr
  panel : EspErr

def spiBusInitialize (h : Handles) (outcome : EspErr) : EspErr × Handles :=
  if h.bus then (espErrInvalidState, h)
  else if outcome ≠ espOk then (outcome, h)
  else (espOk, { h with bus := true })

def espLcdNewPanelIoSpi (h : Handles) (outcome : EspErr) : EspErr × Handles :=
  if outcome ≠ espOk then (outcome, h)
  else
    (espOk,
      { h with fresh := h.fresh + 1, live := h.fresh :: h.live, ioHandle := some h.fresh })

def espLcdNewPanelSt7789 (h : Handles) (io : Option ObjectId) (outcome : EspErr) :
    EspErr × Handles :=
  if io = none then (espErrInvalidArg, h)
  else if outcome ≠ espOk then (outcome, h)
  else
    (espOk,
      { h with fresh := h.fresh + 1, live := h.fresh :: h.live, panelHandle := some h.fresh })

def delete (h : Handles) (id : ObjectId) : Handles :=
  { h with live := h.live.erase id, deleted := id :: h.deleted }

def spiBusFree (h : Handles) : Handles := { h with bus := false }

/-- The code at the label `err`. -/
def cleanup (h : Handles) : Handles :=
  let h := match h.panelHandle with
    | some panel => delete h panel
    | none => h
  let h := match h.ioHandle with
    | some io => delete h io
    | none => h
  spiBusFree h

def bspDisplayNew (h : Handles) (o : Outcome) : EspErr × Handles :=
  let (ret, h) := spiBusInitialize h o.bus
  if ret ≠ espOk then (ret, h)
  else
    let (ret, h) := espLcdNewPanelIoSpi h o.io
    if ret ≠ espOk then (ret, cleanup h)
    else
      let (ret, h) := espLcdNewPanelSt7789 h h.ioHandle o.panel
      if ret ≠ espOk then (ret, cleanup h) else (espOk, h)

/-- Drawing and the backlight do not touch the handles. -/
def bspLcdInit (h : Handles) (o : Outcome) : Handles := (bspDisplayNew h o).2

/-- `lvgl_port_add_disp` asserts that both handles are set. -/
def bspDisplayLcdInit (h : Handles) (o : Outcome) : Option Handles :=
  let h := (bspDisplayNew h o).2
  if h.ioHandle ≠ none ∧ h.panelHandle ≠ none then some h else none

inductive Via where
  | direct
  | bspLcdInit
  | bspLvglStart
  deriving DecidableEq, Repr

structure Call where
  via : Via
  outcome : Outcome

def Call.exec (h : Handles) (c : Call) : Option Handles :=
  match c.via with
  | .direct => some (bspDisplayNew h c.outcome).2
  | .bspLcdInit => some (CameraBoard.Display.bspLcdInit h c.outcome)
  | .bspLvglStart => bspDisplayLcdInit h c.outcome

/-- Nothing runs after a failed assertion. -/
def Call.step (s : Option Handles) (c : Call) : Option Handles := s.bind (Call.exec · c)

structure Sound (before : Handles) (o : Outcome) : Prop where
  io : ∀ id ∈ (bspDisplayNew before o).2.ioHandle,
    id ∈ (bspDisplayNew before o).2.live ∧ id ∉ (bspDisplayNew before o).2.deleted
  panel : ∀ id ∈ (bspDisplayNew before o).2.panelHandle,
    id ∈ (bspDisplayNew before o).2.live ∧ id ∉ (bspDisplayNew before o).2.deleted
  once : (bspDisplayNew before o).2.deleted.Nodup
  released : (bspDisplayNew before o).1 ≠ espOk →
    (bspDisplayNew before o).2.bus = before.bus ∧ (bspDisplayNew before o).2.live = before.live

/-- The bus and the panel IO come up and the panel does not. -/
def LosesPanel (before : Handles) (o : Outcome) : Prop :=
  before.bus = false ∧ o.bus = espOk ∧ o.io = espOk ∧ o.panel ≠ espOk

/-- While no panel has been lost, nothing has been deleted, and the handles are
set exactly when the bus is up. -/
inductive Inv : Handles → Prop
  | down (fresh : ObjectId) (live : List ObjectId) : Inv ⟨false, fresh, live, [], none, none⟩
  | up (fresh : ObjectId) (live : List ObjectId) (io panel : ObjectId) (hio : io ∈ live)
      (hpanel : panel ∈ live) : Inv ⟨true, fresh, live, [], some io, some panel⟩

theorem bspDisplayNew_cases {h : Handles} (inv : Inv h) (o : Outcome) :
    LosesPanel h o ∨
    ((bspDisplayNew h o).1 ≠ espOk ∧ (bspDisplayNew h o).2 = h) ∨
    ((bspDisplayNew h o).1 = espOk ∧ h.bus = false ∧ (bspDisplayNew h o).2 =
      ⟨true, h.fresh + 2, (h.fresh + 1) :: h.fresh :: h.live, [], some h.fresh,
        some (h.fresh + 1)⟩) := by
  cases inv with
  | down fresh live =>
    by_cases bus : o.bus = espOk
    · by_cases io : o.io = espOk
      · by_cases panel : o.panel = espOk
        · refine .inr (.inr ?_)
          simp [bspDisplayNew, spiBusInitialize, espLcdNewPanelIoSpi, espLcdNewPanelSt7789, bus, io,
            panel]
        · exact .inl ⟨rfl, bus, io, panel⟩
      · refine .inr (.inl ?_)
        simp [bspDisplayNew, spiBusInitialize, espLcdNewPanelIoSpi, cleanup, spiBusFree, bus, io]
    · refine .inr (.inl ?_)
      simp [bspDisplayNew, spiBusInitialize, bus]
  | up fresh live io panel hio hpanel =>
    refine .inr (.inl ?_)
    simp [bspDisplayNew, spiBusInitialize, espErrInvalidState_ne_espOk]

theorem LosesPanel.not_sound {h : Handles} {o : Outcome} (lost : LosesPanel h o) :
    ¬Sound h o := by
  obtain ⟨down, bus, io, panel⟩ := lost
  intro sound
  have stale : h.fresh ∈ (bspDisplayNew h o).2.ioHandle ∧
      h.fresh ∈ (bspDisplayNew h o).2.deleted := by
    cases set : h.panelHandle <;>
      simp [bspDisplayNew, spiBusInitialize, espLcdNewPanelIoSpi, espLcdNewPanelSt7789, cleanup,
        delete, spiBusFree, down, bus, io, panel, set]
  exact (sound.io _ stale.1).2 stale.2

theorem Inv.bspDisplayNew {h : Handles} (inv : Inv h) {o : Outcome} (kept : ¬LosesPanel h o) :
    Inv (bspDisplayNew h o).2 := by
  obtain lost | ⟨-, eq⟩ | ⟨-, -, eq⟩ := bspDisplayNew_cases inv o
  · exact absurd lost kept
  · rwa [eq]
  · rw [eq]
    exact .up _ _ _ _ (by simp) (by simp)

theorem Inv.ioHandle_live {h : Handles} (inv : Inv h) :
    ∀ id ∈ h.ioHandle, id ∈ h.live ∧ id ∉ h.deleted := by
  cases inv with
  | down => simp
  | up fresh live io panel hio hpanel => simpa using hio

theorem Inv.panelHandle_live {h : Handles} (inv : Inv h) :
    ∀ id ∈ h.panelHandle, id ∈ h.live ∧ id ∉ h.deleted := by
  cases inv with
  | down => simp
  | up fresh live io panel hio hpanel => simpa using hpanel

theorem Inv.deleted_nil {h : Handles} (inv : Inv h) : h.deleted = [] := by
  cases inv <;> rfl

theorem Inv.sound {h : Handles} (inv : Inv h) {o : Outcome} (kept : ¬LosesPanel h o) :
    Sound h o := by
  have after := inv.bspDisplayNew kept
  refine ⟨after.ioHandle_live, after.panelHandle_live, ?_, fun bad => ?_⟩
  · rw [after.deleted_nil]
    exact List.nodup_nil
  · obtain lost | ⟨-, eq⟩ | ⟨ok, -⟩ := bspDisplayNew_cases inv o
    · exact absurd lost kept
    · rw [eq]
      exact ⟨rfl, rfl⟩
    · exact absurd ok bad

theorem Inv.exec {h h' : Handles} (inv : Inv h) {c : Call} (kept : ¬LosesPanel h c.outcome)
    (returns : c.exec h = some h') : Inv h' := by
  have after := inv.bspDisplayNew kept
  obtain ⟨via, outcome⟩ := c
  cases via with
  | direct => exact Option.some.inj returns ▸ after
  | bspLcdInit => exact Option.some.inj returns ▸ after
  | bspLvglStart =>
    change bspDisplayLcdInit h outcome = some h' at returns
    rw [bspDisplayLcdInit] at returns
    split_ifs at returns
    exact Option.some.inj returns ▸ after

/-- In a run from reset the handles stay usable, nothing is deleted twice and a
failing call gives back what it took, exactly when in no call the panel fails
after the bus and the panel IO have come up. -/
theorem handles_sound_iff (calls : List Call) :
    StepRun.Along Call.step (fun s c => ∀ h ∈ s, Sound h c.outcome) (some .reset) calls ↔
      StepRun.Along Call.step (fun s c => ∀ h ∈ s, ¬LosesPanel h c.outcome) (some .reset) calls := by
  refine (StepRun.along_congr (I := fun s : Option Handles => ∀ h ∈ s, Inv h) ?_ ?_ ?_ calls).symm
  · intro s c inv kept h' returns
    obtain ⟨h, hs, returns⟩ := Option.bind_eq_some_iff.1 returns
    exact (inv h hs).exec (kept h hs) returns
  · intro s c inv
    exact ⟨fun kept h hs => (inv h hs).sound (kept h hs),
      fun sound h hs lost => lost.not_sound (sound h hs)⟩
  · rintro _ ⟨⟩
    exact .down 0 []

/-- The panel fails in the first call: the handle of the deleted panel IO is
left behind. -/
theorem handles_dangle : ¬ ∀ calls : List Call,
    StepRun.Along Call.step (fun s c => ∀ h ∈ s, Sound h c.outcome) (some .reset) calls := by
  intro claim
  have sound := (claim [⟨.direct, espOk, espOk, espErrNoMem⟩]).1 _ rfl
  exact absurd (sound.io 0 rfl).1 (by decide)

end CameraBoard.Display
