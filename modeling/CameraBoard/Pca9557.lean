import CameraBoard.Esp
import CameraBoard.General.StepRun
import Mathlib.Tactic.IntervalCases

/-! The PCA9557 expander that drives the LCD chip select, the amplifier enable
and the camera power-down pin. Each setter is a read of the output register
followed by a write of the whole register, two bus transactions whose outcomes
are inputs of the model. -/
namespace CameraBoard.Pca9557

/-- The register file, from register addresses to contents. -/
abbrev Regs := Byte → Byte

def outputPort : Byte := 0x01
def configurationPort : Byte := 0x03

/-- A failed read leaves the caller's byte as the driver found or left it. -/
def pca9557RegisterRead (regs : Regs) (regAddr : Byte) (err : EspErr) (stray : Byte) : EspErr × Byte :=
  (err, if err = espOk then regs regAddr else stray)

def pca9557RegisterWriteByte (regs : Regs) (regAddr data : Byte) (err : EspErr) : EspErr × Regs :=
  (err, if err = espOk then fun r => if r = regAddr then data else regs r else regs)

/-- The return codes of both writes are discarded. -/
def pca9557Init (regs : Regs) (first second : EspErr) : Regs :=
  let regs := (pca9557RegisterWriteByte regs outputPort 0x05 first).2
  (pca9557RegisterWriteByte regs configurationPort 0xf8 second).2

def setBits (m s v : Byte) : Byte := if v ≠ 0 then m ||| s else m &&& ~~~s

/-- What the bus does in the two transactions of one setter. -/
structure Bus where
  read : EspErr
  stray : Byte
  write : EspErr

def pca9557SetOutputState (regs : Regs) (gpioBit level : Byte) (bus : Bus) : EspErr × Regs :=
  let data := (pca9557RegisterRead regs outputPort bus.read bus.stray).2
  pca9557RegisterWriteByte regs outputPort (setBits data gpioBit level) bus.write

def lcdCsGpio : Byte := 1 <<< 0
def paEnGpio : Byte := 1 <<< 1
def dvpPwdnGpio : Byte := 1 <<< 2

def lcdCs (regs : Regs) (level : Byte) (bus : Bus) : Regs :=
  (pca9557SetOutputState regs lcdCsGpio level bus).2

def paEn (regs : Regs) (level : Byte) (bus : Bus) : Regs :=
  (pca9557SetOutputState regs paEnGpio level bus).2

def dvpPwdn (regs : Regs) (level : Byte) (bus : Bus) : Regs :=
  (pca9557SetOutputState regs dvpPwdnGpio level bus).2

inductive Pin where
  | lcdCs
  | paEn
  | dvpPwdn
  deriving DecidableEq, Repr

def Pin.index : Pin → Nat
  | .lcdCs => 0
  | .paEn => 1
  | .dvpPwdn => 2

def Pin.gpio : Pin → Byte
  | .lcdCs => lcdCsGpio
  | .paEn => paEnGpio
  | .dvpPwdn => dvpPwdnGpio

theorem Pin.gpio_eq (pin : Pin) : pin.gpio = BitVec.twoPow 8 pin.index := by
  cases pin <;> rfl

theorem Pin.index_lt (pin : Pin) : pin.index < 3 := by
  cases pin <;> decide

theorem Pin.index_injective {p q : Pin} (h : p.index = q.index) : p = q := by
  cases p <;> cases q <;> first | rfl | exact absurd h (by decide)

def high (level : Byte) : Bool := decide (level ≠ 0)

/-- `SET_BITS` on one pin writes that pin and copies the others. -/
theorem setBits_bit (m level : Byte) (pin : Pin) (i : Nat) :
    (setBits m pin.gpio level).getLsbD i =
      if i = pin.index then high level else m.getLsbD i := by
  have hp : pin.index < 8 := pin.index_lt.trans (by decide)
  have past : ¬ i < 8 → m.getLsbD i = false := fun h => m.getLsbD_of_ge i (by omega)
  rw [pin.gpio_eq]
  by_cases hl : level = 0#8 <;> by_cases hi : pin.index = i
  · simp [setBits, high, hl, hi]
  · by_cases hb : i < 8 <;> simp [setBits, hl, hi, Ne.symm hi, hb, past]
  · simp [setBits, high, hl, ← hi, hp]
  · simp [setBits, hl, hi, Ne.symm hi]

structure Call where
  pin : Pin
  level : Byte
  bus : Bus

def Call.exec (regs : Regs) (c : Call) : Regs :=
  match c.pin with
  | .lcdCs => lcdCs regs c.level c.bus
  | .paEn => paEn regs c.level c.bus
  | .dvpPwdn => dvpPwdn regs c.level c.bus

theorem Call.exec_eq (regs : Regs) (c : Call) :
    c.exec regs = (pca9557SetOutputState regs c.pin.gpio c.level c.bus).2 := by
  obtain ⟨pin, level, bus⟩ := c
  cases pin <;> rfl

def Call.returned (regs : Regs) (c : Call) : EspErr :=
  (pca9557SetOutputState regs c.pin.gpio c.level c.bus).1

/-- The output bits past the three driven pins are all low. -/
def UpperLow (regs : Regs) : Prop := ∀ i, 3 ≤ i → (regs outputPort).getLsbD i = false

/-- What one call may do to the output register and may report. -/
structure Call.Sound (regs : Regs) (c : Call) : Prop where
  others : ∀ i, i ≠ c.pin.index →
    (c.exec regs outputPort).getLsbD i = (regs outputPort).getLsbD i
  named : (c.exec regs outputPort).getLsbD c.pin.index = (regs outputPort).getLsbD c.pin.index ∨
    (c.exec regs outputPort).getLsbD c.pin.index = high c.level
  upper : UpperLow (c.exec regs)
  reported : c.returned regs = espOk →
    (c.exec regs outputPort).getLsbD c.pin.index = high c.level

/-- The read delivers the register, or the write fails too, or the stray byte
agrees with the register on every pin but the one being set. -/
def Call.Undisturbed (regs : Regs) (c : Call) : Prop :=
  c.bus.read = espOk ∨ c.bus.write ≠ espOk ∨
    ∀ i < 8, i ≠ c.pin.index → c.bus.stray.getLsbD i = (regs outputPort).getLsbD i

instance (regs : Regs) (c : Call) : Decidable (c.Undisturbed regs) :=
  inferInstanceAs (Decidable (_ ∨ _ ∨ _))

theorem Call.exec_of_failed (regs : Regs) (c : Call) (h : c.bus.write ≠ espOk) :
    c.exec regs = regs := by
  rw [exec_eq]
  simp [pca9557SetOutputState, pca9557RegisterWriteByte, h]

theorem Call.exec_bit (regs : Regs) (c : Call) (h : c.bus.write = espOk) (i : Nat) :
    (c.exec regs outputPort).getLsbD i =
      if i = c.pin.index then high c.level
      else if c.bus.read = espOk then (regs outputPort).getLsbD i else c.bus.stray.getLsbD i := by
  rw [exec_eq]
  simp only [pca9557SetOutputState, pca9557RegisterWriteByte, pca9557RegisterRead, h, if_true,
    setBits_bit]
  split_ifs <;> rfl

theorem Call.undisturbed_of_sound (regs : Regs) (c : Call) (h : c.Sound regs) :
    c.Undisturbed regs := by
  by_cases hr : c.bus.read = espOk
  · exact .inl hr
  by_cases hw : c.bus.write = espOk
  · refine .inr (.inr fun i _ hi => ?_)
    have same := h.others i hi
    rwa [c.exec_bit regs hw, if_neg hi, if_neg hr] at same
  · exact .inr (.inl hw)

theorem Call.sound_of_undisturbed (regs : Regs) (c : Call) (low : UpperLow regs)
    (h : c.Undisturbed regs) : c.Sound regs := by
  by_cases hw : c.bus.write = espOk
  · have others : ∀ i, i ≠ c.pin.index →
        (c.exec regs outputPort).getLsbD i = (regs outputPort).getLsbD i := by
      intro i hi
      rw [c.exec_bit regs hw, if_neg hi]
      split_ifs with hr
      · rfl
      · by_cases hb : i < 8
        · exact ((h.resolve_left hr).resolve_left (not_not.2 hw)) i hb hi
        · rw [BitVec.getLsbD_of_ge _ _ (by omega), BitVec.getLsbD_of_ge _ _ (by omega)]
    have named : (c.exec regs outputPort).getLsbD c.pin.index = high c.level := by
      rw [c.exec_bit regs hw, if_pos rfl]
    refine ⟨others, .inr named, fun i hi => ?_, fun _ => named⟩
    have past : i ≠ c.pin.index := by
      have := c.pin.index_lt
      omega
    rw [others i past, low i hi]
  · have still := c.exec_of_failed regs hw
    exact ⟨fun i _ => by rw [still], .inl (by rw [still]), by rw [still]; exact low,
      fun ok => absurd ok hw⟩

theorem upperLow_init (regs : Regs) : UpperLow (pca9557Init regs espOk espOk) := by
  intro i hi
  change (0x05 : Byte).getLsbD i = false
  by_cases hb : i < 8
  · interval_cases i <;> rfl
  · exact BitVec.getLsbD_of_ge _ _ (by omega)

/-- After a successful initialisation, every call of a run leaves the other
pins and the upper bits alone exactly when every call of it is undisturbed. -/
theorem calls_sound_iff (regs : Regs) (calls : List Call) :
    StepRun.Along Call.exec Call.Sound (pca9557Init regs espOk espOk) calls ↔
      StepRun.Along Call.exec Call.Undisturbed (pca9557Init regs espOk espOk) calls :=
  StepRun.along_congr (fun _ _ _ sound => sound.upper)
    (fun regs c low => ⟨c.undisturbed_of_sound regs, c.sound_of_undisturbed regs low⟩)
    (upperLow_init regs) calls

/-- The read of `lcd_cs(0)` fails, its destination byte happens to hold 0xff
and the write goes through: the amplifier is switched on by a chip select. -/
theorem calls_disturbed : ¬ ∀ (regs : Regs) (calls : List Call),
    StepRun.Along Call.exec Call.Sound (pca9557Init regs espOk espOk) calls := by
  intro claim
  have sound := (claim (fun _ => 0) [⟨.lcdCs, 0, ⟨espFail, 0xff, espOk⟩⟩]).1
  exact absurd (sound.others 1 (by decide)) (by decide)

end CameraBoard.Pca9557
