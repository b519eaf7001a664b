import CameraBoard.Esp
import CameraBoard.General.StepRun
import Mathlib.Data.Rat.Defs
import Mathlib.Tactic.FieldSimp
import Mathlib.Tactic.Ring

/-! The readers of the motion sensor. They drop the result of every register
read, so a field may take what a failed read left in the buffer, and the angles
are computed from whatever accelerations are in the record. The floating point
arithmetic of the angles is a parameter; that of the temperature is exact. -/
namespace CameraBoard.Qmi8658
open StepRun

def qmi8658Status0 : Nat := 46
def qmi8658TempL : Nat := 51
def qmi8658AxL : Nat := 53

/-- One register read: the registers at that moment and how it ends. -/
structure Access where
  regs : Nat → Byte
  read : I2cRead

def Access.Ok (a : Access) : Prop := a.read.err = espOk

instance (a : Access) : Decidable a.Ok := inferInstanceAs (Decidable (_ = _))

/-- What is in the buffer afterwards. -/
def qmi8658RegisterRead (a : Access) (regAddr i : Nat) : Byte := a.read.data a.regs regAddr i

theorem qmi8658RegisterRead_ok {a : Access} (ok : a.Ok) (regAddr i : Nat) :
    qmi8658RegisterRead a regAddr i = a.regs (regAddr + i) := if_pos ok

/-- The fields of `t_sQMI8658`, floats of type `φ`. -/
structure Sensor (φ : Type*) where
  accX : BitVec 16
  accY : BitVec 16
  accZ : BitVec 16
  gryX : BitVec 16
  gryY : BitVec 16
  gryZ : BitVec 16
  angleX : φ
  angleY : φ
  angleZ : φ
  temperature : φ

/-- The float of a rational number that has one, and the three angles of an
acceleration. -/
structure Floats (φ : Type*) where
  float : ℚ → φ
  angleX : BitVec 16 → BitVec 16 → BitVec 16 → φ
  angleY : BitVec 16 → BitVec 16 → BitVec 16 → φ
  angleZ : BitVec 16 → BitVec 16 → BitVec 16 → φ

/-- A little-endian word of a buffer. -/
def word (data : Nat → Byte) (i : Nat) : BitVec 16 := data (2 * i + 1) ++ data (2 * i)

variable {φ : Type*} (f : Floats φ)

def qmi8658ReadAccGry (p : Sensor φ) (status burst : Access) : Sensor φ :=
  if qmi8658RegisterRead status qmi8658Status0 0 &&& 0x03 ≠ 0 then
    let buf := word (qmi8658RegisterRead burst qmi8658AxL)
    { p with
      accX := buf 0
      accY := buf 1
      accZ := buf 2
      gryX := buf 3
      gryY := buf 4
      gryZ := buf 5 }
  else p

def qmi8658ReadTemperature (p : Sensor φ) (temp : Access) : Sensor φ :=
  let tempData := qmi8658RegisterRead temp qmi8658TempL
  { p with temperature := f.float ((tempData 1).toInt + (tempData 0).toNat / 256) }

def qmi8658FetchAngleFromAcc (p : Sensor φ) (status burst : Access) : Sensor φ :=
  let p := qmi8658ReadAccGry p status burst
  { p with
    angleX := f.angleX p.accX p.accY p.accZ
    angleY := f.angleY p.accX p.accY p.accZ
    angleZ := f.angleZ p.accX p.accY p.accZ }

inductive Call where
  | readAccGry (status burst : Access)
  | readTemperature (temp : Access)
  | fetchAngleFromAcc (status burst : Access)

def Call.exec (p : Sensor φ) : Call → Sensor φ
  | .readAccGry status burst => qmi8658ReadAccGry p status burst
  | .readTemperature temp => qmi8658ReadTemperature f p temp
  | .fetchAngleFromAcc status burst => qmi8658FetchAngleFromAcc f p status burst

def Sensor.motion (p : Sensor φ) : List (BitVec 16) :=
  [p.accX, p.accY, p.accZ, p.gryX, p.gryY, p.gryZ]

def Sensor.angles (p : Sensor φ) : List φ := [p.angleX, p.angleY, p.angleZ]

/-- The angles of the accelerations that the six values begin with. -/
def Floats.angles : List (BitVec 16) → List φ
  | x :: y :: z :: _ => [f.angleX x y z, f.angleY x y z, f.angleZ x y z]
  | _ => []

/-- The twelve bytes of a buffer as the six values. -/
def motionOf (data : Nat → Byte) : List (BitVec 16) := (List.range 6).map (word data)

/-- The signed word of a buffer in units of 1/256. -/
def degrees (data : Nat → Byte) : ℚ := (word data 0).toInt / 256

/-- The two reads of a call that may replace the motion, one that may replace
the temperature. -/
def Call.motionReads : Call → Option (Access × Access)
  | .readAccGry status burst => some (status, burst)
  | .readTemperature _ => none
  | .fetchAngleFromAcc status burst => some (status, burst)

def Call.temperatureRead : Call → Option Access
  | .readTemperature temp => some temp
  | _ => none

/-- The six values are those of one burst that succeeded, after a status read
that succeeded and found data ready. -/
def Call.Measures (c : Call) (motion : List (BitVec 16)) : Prop :=
  ∃ status burst, c.motionReads = some (status, burst) ∧ status.Ok ∧
    status.regs qmi8658Status0 &&& 0x03 ≠ 0 ∧ burst.Ok ∧
    motion = motionOf fun i => burst.regs (qmi8658AxL + i)

def Call.Measured (c : Call) : Prop := ∃ motion, c.Measures motion

/-- The signed word of a temperature read that succeeded, divided by 256. -/
def Call.Gauges (c : Call) (temperature : φ) : Prop :=
  ∃ temp, c.temperatureRead = some temp ∧ temp.Ok ∧
    temperature = f.float (degrees fun i => temp.regs (qmi8658TempL + i))

/-- The record and the calls that were made on it, the last one first. -/
structure Watched (φ : Type*) where
  past : List Call
  p : Sensor φ

def watch (s : Watched φ) (c : Call) : Watched φ := ⟨c :: s.past, c.exec f s.p⟩

/-- One call leaves the fields alone or gives them values that were read: the
motion and the temperature by itself, the angles as those of a motion that is
in the record because this call or an earlier one has measured it. -/
structure Sound (s : Watched φ) (c : Call) : Prop where
  motion : (c.exec f s.p).motion = s.p.motion ∨ c.Measures (c.exec f s.p).motion
  temperature : (c.exec f s.p).temperature = s.p.temperature ∨
    c.Gauges f (c.exec f s.p).temperature
  angles : (c.exec f s.p).angles = s.p.angles ∨
    (∃ d ∈ c :: s.past, d.Measures (c.exec f s.p).motion) ∧
      (c.exec f s.p).angles = f.angles (c.exec f s.p).motion

/-- Data is not ready as far as the call can see, or both reads succeed, or the
bytes left over are the values that are there anyway. -/
def Quiet (p : Sensor φ) (status burst : Access) : Prop :=
  qmi8658RegisterRead status qmi8658Status0 0 &&& 0x03 = 0 ∨ (status.Ok ∧ burst.Ok) ∨
    motionOf (qmi8658RegisterRead burst qmi8658AxL) = p.motion

/-- For the angles this call or an earlier one has measured, or they are those
of the accelerations that are there; a read of the temperature succeeds or
leaves what is there. -/
def Call.Harmless (s : Watched φ) : Call → Prop
  | .readAccGry status burst => Quiet s.p status burst
  | .fetchAngleFromAcc status burst =>
    Quiet s.p status burst ∧
      ((∃ d ∈ .fetchAngleFromAcc status burst :: s.past, d.Measured) ∨
        f.angles s.p.motion = s.p.angles)
  | .readTemperature temp =>
    temp.Ok ∨ f.float (degrees (qmi8658RegisterRead temp qmi8658TempL)) = s.p.temperature

theorem degrees_eq (data : Nat → Byte) :
    degrees data = (data 1).toInt + (data 0).toNat / 256 := by
  have low := (data 0).isLt
  have high := (data 1).isLt
  have joined : (word data 0).toNat = (data 1).toNat * 256 + (data 0).toNat := by
    rw [word, BitVec.toNat_append, ← Nat.shiftLeft_add_eq_or_of_lt low, Nat.shiftLeft_eq]
  have signed : (word data 0).toInt = (data 1).toInt * 256 + (data 0).toNat := by
    rw [BitVec.toInt_eq_toNat_cond, BitVec.toInt_eq_toNat_cond, joined]
    split <;> split <;> omega
  rw [degrees, signed]
  push_cast
  field_simp

section Step

variable {f} {p : Sensor φ} {s : Watched φ} {c : Call} {status burst temp : Access}

theorem readAccGry_motion : (qmi8658ReadAccGry p status burst).motion =
    if qmi8658RegisterRead status qmi8658Status0 0 &&& 0x03 = 0 then p.motion
    else motionOf (qmi8658RegisterRead burst qmi8658AxL) := by
  rw [qmi8658ReadAccGry]
  split <;> simp_all [Sensor.motion]
  rfl

theorem readAccGry_temperature :
    (qmi8658ReadAccGry p status burst).temperature = p.temperature := by
  rw [qmi8658ReadAccGry]
  split <;> rfl

theorem readAccGry_angles : (qmi8658ReadAccGry p status burst).angles = p.angles := by
  rw [qmi8658ReadAccGry]
  split <;> rfl

theorem readTemperature_eq : (qmi8658ReadTemperature f p temp).temperature =
    f.float (degrees (qmi8658RegisterRead temp qmi8658TempL)) := by
  rw [degrees_eq]
  rfl

theorem exec_motion (reads : c.motionReads = some (status, burst)) :
    (c.exec f p).motion = (qmi8658ReadAccGry p status burst).motion := by
  cases c <;> cases reads <;> rfl

theorem motion_iff_quiet (reads : c.motionReads = some (status, burst)) :
    ((c.exec f p).motion = p.motion ∨ c.Measures (c.exec f p).motion) ↔
      Quiet p status burst := by
  rw [exec_motion reads, readAccGry_motion, Quiet]
  by_cases ready : qmi8658RegisterRead status qmi8658Status0 0 &&& 0x03 = 0
  · simp only [ready, if_true, true_or]
  · rw [if_neg ready, or_iff_right ready, or_comm]
    apply or_congr_left'
    intro other
    constructor
    · rintro ⟨_, _, reads', ok, -, ok', -⟩
      rw [reads] at reads'
      cases reads'
      exact ⟨ok, ok'⟩
    · rintro ⟨ok, ok'⟩
      refine ⟨status, burst, reads, ok, ?_, ok', ?_⟩
      · rwa [qmi8658RegisterRead_ok ok] at ready
      · exact congrArg motionOf (funext fun i => qmi8658RegisterRead_ok ok' _ i)

theorem measures_of_measured (measured : c.Measured) : c.Measures (c.exec f p).motion := by
  obtain ⟨_, status, burst, reads, ok, ready, ok', rfl⟩ := measured
  refine ⟨status, burst, reads, ok, ready, ok', ?_⟩
  rw [exec_motion reads, readAccGry_motion, qmi8658RegisterRead_ok ok, Nat.add_zero, if_neg ready]
  exact congrArg motionOf (funext fun i => qmi8658RegisterRead_ok ok' _ i)

/-- Once a call has measured, the motion in the record is a measured one. -/
def Watched.Known (s : Watched φ) : Prop :=
  (∃ d ∈ s.past, d.Measured) → ∃ d ∈ s.past, d.Measures s.p.motion

theorem Watched.Known.watch (known : s.Known)
    (motion : (c.exec f s.p).motion = s.p.motion ∨ c.Measures (c.exec f s.p).motion) :
    (watch f s c).Known := by
  rintro ⟨d, inside, measured⟩
  obtain rfl | earlier := List.mem_cons.1 inside
  · exact ⟨d, inside, measures_of_measured measured⟩
  · obtain kept | measures := motion
    · obtain ⟨e, before, measures⟩ := known ⟨d, earlier, measured⟩
      exact ⟨e, List.mem_cons_of_mem c before, kept ▸ measures⟩
    · exact ⟨c, List.mem_cons_self, measures⟩

theorem fetch_angles : (qmi8658FetchAngleFromAcc f p status burst).angles =
    f.angles (qmi8658FetchAngleFromAcc f p status burst).motion := rfl

/-- The angles are always computed anew, so it matters what is in the record. -/
theorem angles_iff (known : s.Known) (quiet : Quiet s.p status burst) :
    let c := Call.fetchAngleFromAcc status burst
    ((c.exec f s.p).angles = s.p.angles ∨
      (∃ d ∈ c :: s.past, d.Measures (c.exec f s.p).motion) ∧
        (c.exec f s.p).angles = f.angles (c.exec f s.p).motion) ↔
      (∃ d ∈ c :: s.past, d.Measured) ∨ f.angles s.p.motion = s.p.angles := by
  intro c
  have computed : (c.exec f s.p).angles = f.angles (c.exec f s.p).motion := fetch_angles
  have motion := (motion_iff_quiet (f := f) (c := c) rfl).2 quiet
  rw [and_iff_left computed]
  constructor
  · rintro (same | ⟨d, inside, measures⟩)
    · obtain kept | measures := motion
      · exact .inr (by rw [← kept, ← computed, same])
      · exact .inl ⟨c, List.mem_cons_self, _, measures⟩
    · exact .inl ⟨d, inside, _, measures⟩
  · rintro (measured | same)
    · exact .inr (known.watch motion measured)
    · obtain kept | measures := motion
      · exact .inl (by rw [computed, kept, same])
      · exact .inr ⟨c, List.mem_cons_self, measures⟩

theorem sound_iff (known : s.Known) (c : Call) : Sound f s c ↔ c.Harmless f s := by
  cases c with
  | readAccGry status burst =>
    have quiet := motion_iff_quiet (f := f) (p := s.p) (c := .readAccGry status burst) rfl
    exact ⟨fun sound => quiet.1 sound.motion,
      fun harmless => ⟨quiet.2 harmless, .inl readAccGry_temperature, .inl readAccGry_angles⟩⟩
  | fetchAngleFromAcc status burst =>
    have quiet := motion_iff_quiet (f := f) (p := s.p) (c := .fetchAngleFromAcc status burst) rfl
    constructor
    · intro sound
      have still := quiet.1 sound.motion
      exact ⟨still, (angles_iff known still).1 sound.angles⟩
    · rintro ⟨still, measured⟩
      exact ⟨quiet.2 still, .inl readAccGry_temperature, (angles_iff known still).2 measured⟩
  | readTemperature temp =>
    have same : Sound f s (.readTemperature temp) ↔
        (qmi8658ReadTemperature f s.p temp).temperature = s.p.temperature ∨
          (Call.readTemperature temp).Gauges f (qmi8658ReadTemperature f s.p temp).temperature :=
      ⟨Sound.temperature, fun h => ⟨.inl rfl, h, .inl rfl⟩⟩
    rw [same, readTemperature_eq, or_comm]
    apply or_congr_left
    constructor
    · rintro ⟨_, ⟨⟩, ok, -⟩
      exact ok
    · intro ok
      have taken := funext fun i => qmi8658RegisterRead_ok ok qmi8658TempL i
      exact ⟨temp, rfl, ok, congrArg (fun data => f.float (degrees data)) taken⟩

end Step

/-- Motion and temperature are what they were at the start or what a call has
read; the angles are what they were or those of a motion that a call has read. -/
structure Sourced (start : Sensor φ) (calls : List Call) (p : Sensor φ) : Prop where
  motion : p.motion = start.motion ∨ ∃ c ∈ calls, c.Measures p.motion
  temperature : p.temperature = start.temperature ∨ ∃ c ∈ calls, c.Gauges f p.temperature
  angles : p.angles = start.angles ∨
    ∃ c ∈ calls, ∃ motion, c.Measures motion ∧ p.angles = f.angles motion

theorem Sourced.watch {start : Sensor φ} {s : Watched φ} {c : Call}
    (sourced : Sourced f start s.past s.p) (sound : Sound f s c) :
    Sourced f start (watch f s c).past (watch f s c).p := by
  constructor
  · obtain same | measures := sound.motion
    · rw [Qmi8658.watch, same]
      exact sourced.motion.imp_right fun ⟨d, inside, h⟩ => ⟨d, List.mem_cons_of_mem c inside, h⟩
    · exact .inr ⟨c, List.mem_cons_self, measures⟩
  · obtain same | gauges := sound.temperature
    · rw [Qmi8658.watch, same]
      exact sourced.temperature.imp_right
        fun ⟨d, inside, h⟩ => ⟨d, List.mem_cons_of_mem c inside, h⟩
    · exact .inr ⟨c, List.mem_cons_self, gauges⟩
  · obtain same | ⟨⟨d, inside, measures⟩, computed⟩ := sound.angles
    · rw [Qmi8658.watch, same]
      exact sourced.angles.imp_right fun ⟨d, inside, h⟩ => ⟨d, List.mem_cons_of_mem c inside, h⟩
    · exact .inr ⟨d, inside, _, measures, computed⟩

theorem run_watch (past : List Call) (p : Sensor φ) (calls : List Call) :
    run (watch f) ⟨past, p⟩ calls = ⟨calls.reverse ++ past, run (Call.exec f) p calls⟩ := by
  induction calls generalizing past p with
  | nil => rfl
  | cons c calls ih =>
    rw [run_cons, watch, ih, List.reverse_cons, List.append_assoc]
    rfl

theorem run_sourced {p : Sensor φ} {calls : List Call}
    (sound : Along (watch f) (Sound f) ⟨[], p⟩ calls) :
    Sourced f p calls (run (Call.exec f) p calls) := by
  have start : Sourced f p [] p := ⟨.inl rfl, .inl rfl, .inl rfl⟩
  have sourced := Along.invariant (I := fun s => Sourced f p s.past s.p)
    (fun _ _ known sound => known.watch f sound) start sound
  simp only [run_watch, List.append_nil] at sourced
  exact ⟨by simpa using sourced.motion, by simpa using sourced.temperature,
    by simpa using sourced.angles⟩

/-- Over any sequence of calls, each leaves the fields alone or gives them
values that were read exactly when each is harmless, and then no value in the
record comes from anywhere else. -/
theorem readings_sound_iff (p : Sensor φ) (calls : List Call) :
    (Along (watch f) (Sound f) ⟨[], p⟩ calls ↔
      Along (watch f) (fun s c => c.Harmless f s) ⟨[], p⟩ calls) ∧
    (Along (watch f) (fun s c => c.Harmless f s) ⟨[], p⟩ calls →
      Sourced f p calls (run (Call.exec f) p calls)) := by
  have same : Along (watch f) (Sound f) ⟨[], p⟩ calls ↔
      Along (watch f) (fun s c => c.Harmless f s) ⟨[], p⟩ calls :=
    along_congr (I := Watched.Known) (fun _ _ known sound => known.watch sound.motion)
      (fun _ c known => sound_iff known c) (fun ⟨_, inside, _⟩ => nomatch inside) calls
  exact ⟨same, fun harmless => run_sourced f (same.2 harmless)⟩

/-- A burst that fails after data was found ready: what the buffer held is
taken for a measurement. -/
theorem readings_stray : ¬ ∀ (f : Floats ℚ) (p : Sensor ℚ) (calls : List Call),
    Along (watch f) (Sound f) ⟨[], p⟩ calls := by
  intro claim
  have sound := claim ⟨id, fun _ _ _ => 0, fun _ _ _ => 0, fun _ _ _ => 0⟩
    ⟨0, 0, 0, 0, 0, 0, 0, 0, 0, 0⟩
    [.readAccGry ⟨fun _ => 1, espOk, fun _ => 0⟩ ⟨fun _ => 0, espFail, fun _ => 0xff⟩]
  have quiet : Quiet _ _ _ := (sound_iff (fun ⟨_, inside, _⟩ => nomatch inside) _).1 sound.1
  obtain idle | ⟨-, ok⟩ | same := quiet
  · exact absurd idle (by decide)
  · exact absurd ok (by decide)
  · exact absurd same (by decide)

end CameraBoard.Qmi8658
