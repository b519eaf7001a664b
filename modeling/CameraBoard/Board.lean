import CameraBoard.General.StepRun
import CameraBoard.SdCard
import CameraBoard.SdWriteData

/-! The peripherals the components share: I2C port 0, the receive channels of
the I2S controllers and the SD card, with the public entry points that bring
them up. An entry point that reaches `abort` has no board after it. -/
namespace CameraBoard
open RecordWav

inductive I2cMode where
  | slave
  | master
  deriving DecidableEq, Repr

structure I2cConfig where
  mode : I2cMode
  sdaIoNum : Nat
  sclIoNum : Nat
  clkSpeed : Nat
  deriving DecidableEq, Repr

/-- The parameters of the port and, once installed, the mode of its driver. -/
structure I2cPort where
  config : Option I2cConfig
  driver : Option I2cMode
  deriving DecidableEq, Repr

def i2cParamConfig (port : I2cPort) (conf : I2cConfig) : EspErr × I2cPort :=
  (espOk, { port with config := some conf })

def i2cDriverInstall (port : I2cPort) (mode : I2cMode) : EspErr × I2cPort :=
  match port.driver with
  | none => (espOk, { port with driver := some mode })
  | some _ => (espFail, port)

structure Board where
  port : I2cPort
  i2sRx : Nat
  sd : Sd.SdState
  recorded : List EspErr
  deriving DecidableEq, Repr

def Board.reset : Board := ⟨⟨none, none⟩, 0, .reset, []⟩

def socI2sNum : Nat := 2

/-- `i2s_new_channel` with `I2S_NUM_AUTO` and only a receive handle. -/
def i2sNewChannel (b : Board) : EspErr × Board :=
  if b.i2sRx < socI2sNum then (espOk, { b with i2sRx := b.i2sRx + 1 }) else (espErrNotFound, b)

def espErrorCheck (err : EspErr) : Option Unit := if err = espOk then some () else none

def bspI2cConf : I2cConfig := ⟨.master, 1, 2, 100000⟩
def qmi8658Conf : I2cConfig := ⟨.master, 1, 2, 400000⟩
def es7210Conf : I2cConfig := ⟨.master, 1, 2, 100000⟩

def I2cPort.Serves (port : I2cPort) (conf : I2cConfig) : Prop :=
  port.driver = some conf.mode ∧
    ∃ set, port.config = some set ∧ set.mode = conf.mode ∧ set.sdaIoNum = conf.sdaIoNum ∧
      set.sclIoNum = conf.sclIoNum

/-- Messages go through when the hardware does and a master driver is there. -/
def i2cMasterCmdBegin (port : I2cPort) : EspErr :=
  if port.driver = some .master then espOk else espErrInvalidState

def bspI2cInit (b : Board) : EspErr × Board :=
  let port := (i2cParamConfig b.port bspI2cConf).2
  let (err, port) := i2cDriverInstall port bspI2cConf.mode
  (err, { b with port })

def i2cMasterInit (b : Board) : EspErr × Board :=
  let port := (i2cParamConfig b.port qmi8658Conf).2
  let (err, port) := i2cDriverInstall port qmi8658Conf.mode
  (err, { b with port })

/-- The status of the installation and of every register access is dropped. -/
def qmi8658Init (b : Board) : Board := (i2cMasterInit b).2

/-- The handle is not null when the call returns. -/
def es7210I2sInit (b : Board) : Option (Bool × Board) := do
  let (err, b) := i2sNewChannel b
  espErrorCheck err
  return (true, b)

def es7210CodecInit (b : Board) : Option Board := do
  let (err, port) := i2cParamConfig b.port es7210Conf
  espErrorCheck err
  let (err, port) := i2cDriverInstall port es7210Conf.mode
  espErrorCheck err
  espErrorCheck (i2cMasterCmdBegin port)
  return { b with port }

def recordAudio (b : Board) (mount : EspErr) (env : RecordEnv) : Option Board := do
  let (handle, b) ← es7210I2sInit b
  let b ← es7210CodecInit b
  let sd := Sd.sdInit b.sd mount
  let (err, _) := recordWav { env with handle }
  return { b with sd := Sd.sdUnmount sd, recorded := b.recorded ++ [err] }

/-- The recorder returns exactly when the port had no driver and a receive
channel was free, and leaves the card unmounted. -/
theorem recordAudio_eq (b : Board) (mount : EspErr) (env : RecordEnv) :
    recordAudio b mount env =
      if b.i2sRx < socI2sNum ∧ b.port.driver = none then
        some
          { port := ⟨some es7210Conf, some .master⟩
            i2sRx := b.i2sRx + 1
            sd := Sd.sdUnmount (Sd.sdInit b.sd mount)
            recorded := b.recorded ++ [(recordWav { env with handle := true }).1] }
      else none := by
  obtain ⟨⟨config, driver⟩, rx, sd, recorded⟩ := b
  by_cases free : rx < socI2sNum
  · cases driver with
    | none =>
      simp [recordAudio, es7210I2sInit, i2sNewChannel, free, espErrorCheck, es7210CodecInit,
        i2cParamConfig, i2cDriverInstall, i2cMasterCmdBegin, es7210Conf]
    | some mode =>
      simp [recordAudio, es7210I2sInit, i2sNewChannel, free, espErrorCheck, es7210CodecInit,
        i2cParamConfig, i2cDriverInstall, espFail_ne_espOk]
  · simp [recordAudio, es7210I2sInit, i2sNewChannel, free, espErrorCheck, espErrNotFound, espOk]

end CameraBoard
