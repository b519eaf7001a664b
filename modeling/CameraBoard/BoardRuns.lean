import CameraBoard.Board

/-! Runs of entry points from reset. The first part is about the order in which
the components are brought up, the second about who owns the mounted card. -/
namespace CameraBoard
open RecordWav

/-- The entry points that bring up a component, the recorder with the outcome
of its mount attempt and of everything it records. -/
inductive Entry where
  | bspI2cInit
  | qmi8658Init
  | recordAudio (mount : EspErr) (env : RecordEnv)

def Entry.exec (b : Board) : Entry → Option Board
  | .bspI2cInit => some (CameraBoard.bspI2cInit b).2
  | .qmi8658Init => some (CameraBoard.qmi8658Init b)
  | .recordAudio mount env => CameraBoard.recordAudio b mount env

def Entry.conf : Entry → I2cConfig
  | .bspI2cInit => bspI2cConf
  | .qmi8658Init => qmi8658Conf
  | .recordAudio _ _ => es7210Conf

def Entry.IsRecordAudio : Entry → Prop
  | .recordAudio _ _ => True
  | _ => False

/-- Nothing runs after an abort. -/
def Entry.step (s : Option Board) (e : Entry) : Option Board := s.bind (Entry.exec · e)

def bringUp (calls : List Entry) : Option Board := StepRun.run Entry.step (some .reset) calls

/-- At every point of the run nothing has aborted, and the components brought
up so far can exchange messages. -/
def BroughtUp (calls : List Entry) : Prop :=
  ∀ done, done <+: calls → ∃ b, bringUp done = some b ∧ ∀ e ∈ done, b.port.Serves e.conf

/-- A master driver on the pins that all components use. -/
structure I2cPort.Ready (port : I2cPort) : Prop where
  driver : port.driver = some .master
  config : ∃ set, port.config = some set ∧ set.mode = .master ∧ set.sdaIoNum = 1 ∧
    set.sclIoNum = 2

theorem I2cPort.Ready.serves {port : I2cPort} (h : port.Ready) (e : Entry) :
    port.Serves e.conf := by
  cases e <;> exact ⟨h.driver, h.config⟩

theorem Entry.exec_reset (e : Entry) : ∃ b, e.exec .reset = some b ∧ b.port.Ready := by
  cases e with
  | bspI2cInit => exact ⟨_, rfl, rfl, bspI2cConf, rfl, by decide⟩
  | qmi8658Init => exact ⟨_, rfl, rfl, qmi8658Conf, rfl, by decide⟩
  | recordAudio mount env =>
    have eq := recordAudio_eq .reset mount env
    rw [if_pos (by decide)] at eq
    exact ⟨_, eq, rfl, es7210Conf, rfl, by decide⟩

theorem Entry.exec_ready {e : Entry} {b : Board} (ready : b.port.Ready)
    (quiet : ¬e.IsRecordAudio) : ∃ b', e.exec b = some b' ∧ b'.port.Ready := by
  cases e with
  | bspI2cInit =>
    refine ⟨_, rfl, ?_, bspI2cConf, ?_, by decide⟩ <;>
      simp [CameraBoard.bspI2cInit, i2cParamConfig, i2cDriverInstall, ready.driver]
  | qmi8658Init =>
    refine ⟨_, rfl, ?_, qmi8658Conf, ?_, by decide⟩ <;>
      simp [CameraBoard.qmi8658Init, i2cMasterInit, i2cParamConfig, i2cDriverInstall, ready.driver]
  | recordAudio mount env => exact absurd trivial quiet

theorem Entry.exec_abort {e : Entry} {b : Board} (ready : b.port.Ready)
    (record : e.IsRecordAudio) : e.exec b = none := by
  cases e with
  | bspI2cInit => exact record.elim
  | qmi8658Init => exact record.elim
  | recordAudio mount env =>
    change CameraBoard.recordAudio b mount env = none
    rw [recordAudio_eq, if_neg]
    simp [ready.driver]

theorem bringUp_snoc (calls : List Entry) (e : Entry) :
    bringUp (calls ++ [e]) = (bringUp calls).bind fun b => e.exec b :=
  StepRun.run_snoc _ _ _ _

theorem bringUp_ready {first : Entry} {rest : List Entry} (quiet : ∀ e ∈ rest, ¬e.IsRecordAudio) :
    ∃ b, bringUp (first :: rest) = some b ∧ b.port.Ready := by
  induction rest using List.reverseRecOn with
  | nil => exact first.exec_reset
  | append_singleton rest e ih =>
    obtain ⟨b, eq, ready⟩ := ih fun e he => quiet e (List.mem_append_left _ he)
    obtain ⟨b', eq', ready'⟩ := Entry.exec_ready ready (quiet e (by simp))
    refine ⟨b', ?_, ready'⟩
    rw [← List.cons_append, bringUp_snoc, eq, Option.bind_some, eq']

theorem bringUp_abort {first e : Entry} {rest : List Entry}
    (quiet : ∀ e ∈ rest, ¬e.IsRecordAudio) (record : e.IsRecordAudio) :
    bringUp (first :: rest ++ [e]) = none := by
  obtain ⟨b, eq, ready⟩ := @bringUp_ready first rest quiet
  rw [bringUp_snoc, eq, Option.bind_some, Entry.exec_abort ready record]

theorem BroughtUp.quiet {first : Entry} {rest : List Entry} (h : BroughtUp (first :: rest)) :
    ∀ e ∈ rest, ¬e.IsRecordAudio := by
  induction rest using List.reverseRecOn with
  | nil => simp
  | append_singleton rest last ih =>
    have before : ∀ e ∈ rest, ¬e.IsRecordAudio :=
      ih fun done front => h done (front.trans (List.prefix_append (first :: rest) [last]))
    intro e he record
    obtain he | rfl : e ∈ rest ∨ e = last := by simpa using he
    · exact before e he record
    · obtain ⟨b, eq, -⟩ := h _ List.prefix_rfl
      rw [← List.cons_append, bringUp_abort before record] at eq
      exact absurd eq (by simp)

/-- The components come up in any order and any number of times as long as the
recorder is called first or not at all. -/
theorem broughtUp_iff (calls : List Entry) :
    BroughtUp calls ↔ ∀ e ∈ calls.tail, ¬e.IsRecordAudio := by
  constructor
  · intro h
    cases calls with
    | nil => simp
    | cons first rest => exact h.quiet
  · intro quiet done front
    cases done with
    | nil => exact ⟨.reset, rfl, by simp⟩
    | cons first rest =>
      obtain ⟨after, rfl⟩ := front
      obtain ⟨b, eq, ready⟩ := @bringUp_ready first rest fun e he =>
        quiet e (List.mem_append_left after he)
      exact ⟨b, eq, fun e _ => ready.serves e⟩

/-- `main` installs the port with `bsp_i2c_init`, so any recording after it
aborts in `es7210_codec_init`. -/
theorem broughtUp_aborts : ¬ ∀ calls : List Entry, BroughtUp calls := by
  intro claim
  obtain ⟨b, eq, -⟩ := claim [.bspI2cInit, .recordAudio espOk (steady 7680 (by decide))] _
    List.prefix_rfl
  have abort := @bringUp_abort .bspI2cInit
    (.recordAudio espOk (steady 7680 (by decide))) [] (by simp) trivial
  exact absurd (abort.symm.trans eq) (by simp)

inductive BoardCall where
  | entry (e : Entry)
  | sdInit (mount : EspErr)
  | sdUnmount
  | sdWriteData (env : Sd.WriteEnv) (path filename : CStr) (data : Nat → Byte) (length : Nat)

/-- Writing a file leaves the peripherals as they are. -/
def BoardCall.exec (b : Board) : BoardCall → Option Board
  | .entry e => e.exec b
  | .sdInit mount => some { b with sd := Sd.sdInit b.sd mount }
  | .sdUnmount => some { b with sd := Sd.sdUnmount b.sd }
  | .sdWriteData _ _ _ _ _ => some b

def BoardCall.step (s : Option Board) (c : BoardCall) : Option Board := s.bind (BoardCall.exec · c)

def boardRun (b : Board) (calls : List BoardCall) : Option Board :=
  StepRun.run BoardCall.step (some b) calls

def BoardCall.sdAfter (s : Sd.SdState) : BoardCall → Sd.SdState
  | .entry (.recordAudio mount _) => Sd.sdUnmount (Sd.sdInit s mount)
  | .sdInit mount => Sd.sdInit s mount
  | .sdUnmount => Sd.sdUnmount s
  | _ => s

def BoardCall.Releases : BoardCall → Prop
  | .entry e => e.IsRecordAudio
  | .sdUnmount => True
  | _ => False

theorem BoardCall.exec_sd {b b' : Board} {c : BoardCall} (returns : c.exec b = some b') :
    b'.sd = c.sdAfter b.sd := by
  cases c with
  | entry e =>
    cases e with
    | bspI2cInit => exact Option.some.inj returns ▸ rfl
    | qmi8658Init => exact Option.some.inj returns ▸ rfl
    | recordAudio mount env =>
      change recordAudio b mount env = some b' at returns
      rw [recordAudio_eq] at returns
      split_ifs at returns
      exact Option.some.inj returns ▸ rfl
  | sdInit mount => exact Option.some.inj returns ▸ rfl
  | sdUnmount => exact Option.some.inj returns ▸ rfl
  | sdWriteData env path filename data length => exact Option.some.inj returns ▸ rfl

theorem BoardCall.sdAfter_inv {s : Sd.SdState} (h : Sd.Inv s) (c : BoardCall) :
    Sd.Inv (c.sdAfter s) := by
  cases c with
  | entry e =>
    cases e with
    | bspI2cInit => exact h
    | qmi8658Init => exact h
    | recordAudio mount env => exact (h.sdInit mount).sdUnmount.1
  | sdInit mount => exact h.sdInit mount
  | sdUnmount => exact h.sdUnmount.1
  | sdWriteData env path filename data length => exact h

theorem BoardCall.sdAfter_released {s : Sd.SdState} (h : Sd.Inv s) {c : BoardCall}
    (releases : c.Releases) : (c.sdAfter s).volume = none := by
  cases c with
  | entry e =>
    cases e with
    | bspI2cInit => exact releases.elim
    | qmi8658Init => exact releases.elim
    | recordAudio mount env => exact (h.sdInit mount).sdUnmount.2
  | sdInit mount => exact releases.elim
  | sdUnmount => exact h.sdUnmount.2
  | sdWriteData env path filename data length => exact releases.elim

theorem BoardCall.sdAfter_kept {s : Sd.SdState} (h : Sd.Inv s) {c : BoardCall}
    (keeps : ¬c.Releases) {card : Sd.CardId} (mounted : s.volume = some card) :
    (c.sdAfter s).volume = some card := by
  cases c with
  | entry e =>
    cases e with
    | bspI2cInit => exact mounted
    | qmi8658Init => exact mounted
    | recordAudio mount env => exact absurd trivial keeps
  | sdInit mount =>
    change (Sd.sdInit s mount).volume = some card
    rwa [Sd.sdInit_mounted h mounted]
  | sdUnmount => exact absurd trivial keeps
  | sdWriteData env path filename data length => exact mounted

section Card

def Unless (P : Sd.SdState → Prop) (s : Option Board) : Prop := ∀ b ∈ s, P b.sd

theorem BoardCall.unless_step {P Q : Sd.SdState → Prop} {c : BoardCall}
    (keep : ∀ s, P s → Q (c.sdAfter s)) (s : Option Board) (h : Unless P s) :
    Unless Q (c.step s) := by
  intro b' hb'
  obtain ⟨b, hb, returns⟩ := Option.bind_eq_some_iff.1 hb'
  rw [BoardCall.exec_sd returns]
  exact keep b.sd (h b hb)

/-- A volume that an `SD_Init` of the application has mounted, or has found
mounted, is still mounted after any calls that do not release the card. -/
def StaysMounted (releases : BoardCall → Prop) (b : Board) : Prop :=
  ∀ (before : List BoardCall) (mount : EspErr) (middle : List BoardCall) (card : Sd.CardId)
    (b₀ b₁ : Board), boardRun b before = some b₀ →
    (Sd.sdInit b₀.sd mount).volume = some card → (∀ c ∈ middle, ¬releases c) →
    boardRun b (before ++ .sdInit mount :: middle) = some b₁ → b₁.sd.volume = some card

variable (port : I2cPort) (rx : Nat) (recorded : List EspErr)

theorem inv_boardRun (calls : List BoardCall) :
    StepRun.Always BoardCall.step (Unless Sd.Inv)
      (some ⟨port, rx, .reset, recorded⟩) calls := by
  refine StepRun.always_of_step (fun s c => ?_) ?_ calls
  · exact BoardCall.unless_step (fun s h => c.sdAfter_inv h) s
  · rintro _ ⟨⟩
    exact Sd.inv_reset

theorem staysMounted : StaysMounted BoardCall.Releases ⟨port, rx, .reset, recorded⟩ := by
  intro before mount middle card b₀ b₁ reached mounted keeps returns
  have inv : Sd.Inv b₀.sd := (inv_boardRun port rx recorded before).last b₀ reached
  rw [boardRun] at reached
  rw [boardRun, StepRun.run_append, reached] at returns
  have kept := @StepRun.Along.invariant _ _ BoardCall.step (fun _ c => ¬c.Releases)
    (Unless fun s => Sd.Inv s ∧ s.volume = some card)
    (fun s c h keep => BoardCall.unless_step
      (fun s h => ⟨c.sdAfter_inv h.1, c.sdAfter_kept h.1 keep h.2⟩) s h)
    (some { b₀ with sd := Sd.sdInit b₀.sd mount }) middle
    (by rintro _ ⟨⟩; exact ⟨inv.sdInit mount, mounted⟩)
    ((StepRun.along_const _ _ _ _).2 keeps)
  exact (kept b₁ returns).2

/-- The card pointer and the mounts agree after every call of every run, a
volume mounted by the application stays until its next unmount or the next
recording, and a recording that returns has unmounted the card. -/
theorem mounts_owned (calls : List BoardCall) :
    StepRun.Always BoardCall.step (Unless Sd.Owned) (some ⟨port, rx, .reset, recorded⟩) calls ∧
    StaysMounted BoardCall.Releases ⟨port, rx, .reset, recorded⟩ ∧
    ∀ (c : BoardCall) (b : Board), c.Releases →
      boardRun ⟨port, rx, .reset, recorded⟩ (calls ++ [c]) = some b → b.sd.volume = none := by
  have inv := inv_boardRun port rx recorded calls
  refine ⟨inv.imp fun s h b hb => (h b hb).toOwned, staysMounted port rx recorded, ?_⟩
  intro c b releases returns
  rw [boardRun, StepRun.run_snoc] at returns
  exact @BoardCall.unless_step Sd.Inv (fun s => s.volume = none) c
    (fun s h => BoardCall.sdAfter_released h releases) _ inv.last b returns

/-- The recorder unmounts a card that the application had mounted. -/
theorem mounts_taken : ¬ ∀ (port : I2cPort) (rx : Nat) (recorded : List EspErr),
    StaysMounted (fun c => c = .sdUnmount) ⟨port, rx, .reset, recorded⟩ := by
  intro claim
  have record := recordAudio_eq { Board.reset with sd := Sd.sdInit .reset espOk } espOk
    (steady 7680 (by decide))
  rw [if_pos (by decide)] at record
  have kept := claim ⟨none, none⟩ 0 [] [] espOk
    [.entry (.recordAudio espOk (steady 7680 (by decide)))] 0 .reset _ rfl rfl (by simp) record
  exact absurd kept (by decide)

end Card

end CameraBoard
