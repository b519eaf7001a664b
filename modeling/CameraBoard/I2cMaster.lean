import CameraBoard.I2cLink
import CameraBoard.General.SerialBus
import Mathlib.Logic.Function.Iterate

/-! The master's side of the I2C driver. A command link is executed in pieces of
at most one FIFO: the driver fills the command registers, starts the hardware,
and goes on from its interrupt. The hardware runs the registers from the first
one to an end or a stop, and halts where the bus fails. -/
namespace CameraBoard.I2c
open SerialBus

def socI2cFifoLen : Nat := 32
def socI2cCmdRegNum : Nat := 8

inductive I2cOpCode where
  | restart
  | write
  | read
  | stop
  | end
deriving DecidableEq

/-- An `i2c_ll_hw_cmd_t`. -/
structure I2cLlHwCmd where
  opCode : I2cOpCode
  byteNum : Nat
  ackEn : Bool
  ackVal : Bool

inductive I2cStatus where
  | read
  | write
  | idle
  | ackError
  | done
  | timeout
deriving DecidableEq

inductive I2cIntrEvent where
  | nack
  | tout
  | arbitLost
  | endDet
  | transDone

/-- The driver's object for a port with the registers and the FIFOs of the
hardware, the bus, the buffer that is read into and the interrupt that is
pending. `cmdEvtDone` is set while the queue of events has the last one. -/
structure I2cObj (σ : Type*) where
  cmdIdx : Nat
  status : I2cStatus
  rxCnt : Nat
  head : List I2cCmdLink
  cmdEvtDone : Bool
  comd : Nat → I2cLlHwCmd
  txFifo : List Byte
  rxFifo : List Byte
  bus : σ
  mem : Nat → Byte
  event : Option I2cIntrEvent

def I2cLlHwCmd.ops (txFifo : List Byte) (cmd : I2cLlHwCmd) : List (Op Byte) :=
  match cmd.opCode with
  | .restart => [.start]
  | .write => (txFifo.take cmd.byteNum).map (.write · cmd.ackEn)
  | .read => List.replicate cmd.byteNum (.read cmd.ackVal)
  | .stop => [.stop]
  | .end => []

def faultEvent : Fault → I2cIntrEvent
  | .nack => .nack
  | .timeout => .tout
  | .arbitrationLost => .arbitLost

section Hardware

variable {σ : Type*}

/-- The FIFOs behind a command of the hardware. -/
def I2cObj.after (o : I2cObj σ) (cmd : I2cLlHwCmd) (out : Outcome σ Byte) : I2cObj σ :=
  { o with
    bus := out.state
    rxFifo := o.rxFifo ++ out.read
    txFifo := if cmd.opCode = .write then o.txFifo.drop cmd.byteNum else o.txFifo }

variable (bus : Bus σ Byte)

/-- Runs the command registers that are left. -/
def hwExec (o : I2cObj σ) : List I2cLlHwCmd → I2cObj σ
  | [] => o
  | cmd :: cmds =>
    if cmd.opCode = .end then { o with event := some .endDet }
    else
      let out := exec bus o.bus (cmd.ops o.txFifo)
      match out.fault with
      | some fault => { o.after cmd out with event := some (faultEvent fault) }
      | none =>
        if cmd.opCode = .stop then { o.after cmd out with event := some .transDone }
        else hwExec (o.after cmd out) cmds

def i2cLlTransStart (o : I2cObj σ) : I2cObj σ :=
  hwExec bus o ((List.range socI2cCmdRegNum).map o.comd)

end Hardware

section Driver

variable {σ : Type*}

def I2cCmd.totalBytes : I2cCmd → Nat
  | .write data _ => data.length
  | .read _ totalBytes _ => totalBytes
  | _ => 0

/-- The next command has not been used. -/
def resetUsed : List I2cCmdLink → List I2cCmdLink
  | [] => []
  | link :: links => { link with bytesUsed := 0 } :: links

/-- What was read goes to the buffer of the command that read it. -/
def takeRx (o : I2cObj σ) : I2cObj σ :=
  match o.head with
  | ⟨.read data totalBytes ackVal, bytesUsed⟩ :: rest =>
    let o := { o with
      mem := stored o.mem (List.range' (data + bytesUsed) o.rxCnt) (o.rxFifo.take o.rxCnt)
      rxFifo := o.rxFifo.drop o.rxCnt }
    let bytesUsed := bytesUsed + o.rxCnt
    if bytesUsed ≠ totalBytes then
      { o with head := ⟨.read data totalBytes ackVal, bytesUsed⟩ :: rest, cmdIdx := 0 }
    else { o with head := resetUsed rest }
  | _ => o

def I2cObj.setCmd (o : I2cObj σ) (idx : Nat) (cmd : I2cLlHwCmd) : I2cObj σ :=
  { o with comd := Function.update o.comd idx cmd }

def I2cObj.plainCmd (o : I2cObj σ) (cmd : I2cLlHwCmd) : I2cObj σ :=
  { o.setCmd o.cmdIdx cmd with cmdIdx := o.cmdIdx + 1 }

def hwEndCmd : I2cLlHwCmd := ⟨.end, 0, false, false⟩

/-- The loop over the command registers, with the links that are left as the
argument. It ends behind a command with data. -/
def fillRegs (o : I2cObj σ) : List I2cCmdLink → I2cObj σ
  | [] => { o with head := [] }
  | link :: rest =>
    match link.cmd with
    | .write data ackEn =>
      let isSingleByte := data.length = 1
      let fifoFill :=
        if isSingleByte then 1 else min (data.length - link.bytesUsed) socI2cFifoLen
      let writePr := if isSingleByte then data else data.drop link.bytesUsed
      let bytesUsed := if isSingleByte then link.bytesUsed else link.bytesUsed + fifoFill
      let o := (o.setCmd o.cmdIdx ⟨.write, fifoFill, ackEn, false⟩).setCmd (o.cmdIdx + 1) hwEndCmd
      { o with
        txFifo := o.txFifo ++ writePr.take fifoFill
        cmdIdx := 0
        head :=
          if isSingleByte ∨ data.length = bytesUsed then resetUsed rest
          else { link with bytesUsed } :: rest
        status := .write }
    | .read _ totalBytes ackVal =>
      let fifoFill := min (totalBytes - link.bytesUsed) socI2cFifoLen
      let o := (o.setCmd o.cmdIdx ⟨.read, fifoFill, false, ackVal⟩).setCmd (o.cmdIdx + 1) hwEndCmd
      { o with rxCnt := fifoFill, head := link :: rest, status := .read }
    | .start =>
      let o := o.plainCmd ⟨.restart, 0, false, false⟩
      if rest = [] ∨ o.cmdIdx ≥ socI2cCmdRegNum - 1 then { o with cmdIdx := 0, head := rest }
      else fillRegs o rest
    | .stop =>
      let o := o.plainCmd ⟨.stop, 0, false, false⟩
      if rest = [] ∨ o.cmdIdx ≥ socI2cCmdRegNum - 1 then { o with cmdIdx := 0, head := rest }
      else fillRegs o rest

variable (bus : Bus σ Byte)

/-- The second part of `i2c_master_cmd_begin_static`. -/
def launch (o : I2cObj σ) : I2cObj σ :=
  match o.head with
  | [] => { o with cmdEvtDone := true, status := .idle }
  | head => i2cLlTransStart bus (fillRegs o head)

def i2cMasterCmdBeginStatic (o : I2cObj σ) : I2cObj σ :=
  if o.head ≠ [] ∧ o.status = .read then launch bus (takeRx o)
  else if o.status = .ackError ∨ o.status = .timeout then { o with cmdEvtDone := true }
  else if o.status = .done then o
  else launch bus o

/-- Interrupts are looked at while a command with data is under way. -/
def i2cIsrHandlerDefault (o : I2cObj σ) : I2cObj σ :=
  match o.event with
  | none => o
  | some event =>
    let o := { o with event := none }
    if o.status ≠ .write ∧ o.status ≠ .read then o
    else match event with
      | .nack => i2cMasterCmdBeginStatic bus { o with status := .ackError }
      | .tout => i2cMasterCmdBeginStatic bus { o with status := .timeout }
      | .arbitLost => i2cMasterCmdBeginStatic bus { o with status := .timeout }
      | .endDet => i2cMasterCmdBeginStatic bus o
      | .transDone =>
        if o.status ≠ .ackError ∧ o.status ≠ .idle then i2cMasterCmdBeginStatic bus o else o

def begun (links : List I2cCmdLink) (o : I2cObj σ) : I2cObj σ :=
  { o with
    head := resetUsed links
    status := .idle
    cmdIdx := 0
    rxCnt := 0
    cmdEvtDone := false
    txFifo := []
    rxFifo := []
    event := none }

/-- What the waiting task makes of the object. -/
def eventErr (o : I2cObj σ) : EspErr :=
  if o.cmdEvtDone then
    if o.status = .timeout then espErrTimeout
    else if o.status = .ackError then espFail
    else espOk
  else espErrTimeout

/-- `interrupts` is how many of them are served before the time is over. -/
def i2cMasterCmdBegin (interrupts : Nat) (links : List I2cCmdLink) (o : I2cObj σ) :
    EspErr × I2cObj σ :=
  let o := (i2cIsrHandlerDefault bus)^[interrupts] (i2cMasterCmdBeginStatic bus (begun links o))
  (eventErr o, { o with status := .done })

end Driver

/-- What a command does on the bus. -/
def I2cCmd.ops : I2cCmd → List (Op Byte)
  | .start => [.start]
  | .stop => [.stop]
  | .write data ackEn => data.map (.write · ackEn)
  | .read _ totalBytes ackVal => List.replicate totalBytes (.read ackVal)

/-- Where the bytes that a command reads belong. -/
def I2cCmd.places : I2cCmd → List Nat
  | .read data totalBytes _ => List.range' data totalBytes
  | _ => []

/-- After a start comes one byte, and a stop is the last. -/
inductive WellFormed : List I2cCmd → Prop where
  | nil : WellFormed []
  | stop : WellFormed [.stop]
  | write {data : List Byte} {cmds : List I2cCmd} (some : data ≠ []) (ackEn : Bool)
      (rest : WellFormed cmds) : WellFormed (.write data ackEn :: cmds)
  | read {totalBytes : Nat} {cmds : List I2cCmd} (data : Nat) (some : 0 < totalBytes)
      (ackVal : Bool) (rest : WellFormed cmds) : WellFormed (.read data totalBytes ackVal :: cmds)
  | segment {cmds : List I2cCmd} (byte : Byte) (ackEn : Bool) (rest : WellFormed cmds) :
      WellFormed (.start :: .write [byte] ackEn :: cmds)

/-- How much of its data a command has used, which a single byte does not count. -/
def I2cCmdLink.used (link : I2cCmdLink) : Nat :=
  match link.cmd with
  | .write data _ => if data.length = 1 then 0 else link.bytesUsed
  | .read _ _ _ => link.bytesUsed
  | _ => 0

/-- What a link that is under way, and then those behind it, do on the bus. -/
def opsLeft : List I2cCmdLink → List (Op Byte)
  | [] => []
  | link :: rest => link.cmd.ops.drop link.used ++ rest.flatMap fun link => link.cmd.ops

def placesLeft : List I2cCmdLink → List Nat
  | [] => []
  | link :: rest => link.cmd.places.drop link.used ++ rest.flatMap fun link => link.cmd.places

theorem opsLeft_resetUsed (links : List I2cCmdLink) :
    opsLeft (resetUsed links) = links.flatMap fun link => link.cmd.ops := by
  cases links with
  | nil => rfl
  | cons link rest =>
    have fresh : I2cCmdLink.used { link with bytesUsed := 0 } = 0 := by
      unfold I2cCmdLink.used
      split <;> simp
    simp only [resetUsed, opsLeft, fresh, List.drop_zero, List.flatMap_cons]

theorem placesLeft_resetUsed (links : List I2cCmdLink) :
    placesLeft (resetUsed links) = links.flatMap fun link => link.cmd.places := by
  cases links with
  | nil => rfl
  | cons link rest =>
    have fresh : I2cCmdLink.used { link with bytesUsed := 0 } = 0 := by
      unfold I2cCmdLink.used
      split <;> simp
    simp only [resetUsed, placesLeft, fresh, List.drop_zero, List.flatMap_cons]

section Launch

variable {σ : Type*} {bus : Bus σ Byte} {o : I2cObj σ}

/-- The driver is about to launch the first of `links`. -/
structure Ready (o : I2cObj σ) (links : List I2cCmdLink) : Prop where
  head : o.head = links
  wellFormed : WellFormed (links.map I2cCmdLink.cmd)
  more : ∀ link ∈ links.head?, link.cmd.totalBytes ≠ 0 → link.used < link.cmd.totalBytes
  awake : (o.status = .write ∨ o.status = .read) ∨ ∀ link ∈ links.head?, link.cmd ≠ .stop
  index : o.cmdIdx = 0
  tx : o.txFifo = []
  rx : o.rxFifo = []

/-- Unless the bus has failed, the bytes of a read are still to be taken. -/
def settle (o : I2cObj σ) : I2cObj σ :=
  if o.head ≠ [] ∧ o.status = .read then takeRx o else o

/-- `ops` were on the bus, and `rest` comes behind them. -/
structure Launched (bus : Bus σ Byte) (o o' : I2cObj σ) (ops : List (Op Byte)) (places : List Nat)
    (rest : List I2cCmdLink) : Prop where
  state : o'.bus = (exec bus o.bus ops).state
  awake : o'.status = .write ∨ o'.status = .read
  waits : o'.cmdEvtDone = o.cmdEvtDone
  failed : ∀ fault, (exec bus o.bus ops).fault = some fault → o'.event = some (faultEvent fault)
  went : (exec bus o.bus ops).fault = none →
    (o'.event = some .endDet ∨ o'.event = some .transDone) ∧ Ready (settle o') rest ∧
      (settle o').mem = stored o.mem places (exec bus o.bus ops).read

section Registers

variable {cmd : I2cLlHwCmd} {cmds : List I2cLlHwCmd}

theorem hwExec_end (cmds : List I2cLlHwCmd) :
    hwExec bus o (hwEndCmd :: cmds) = { o with event := some .endDet } := rfl

theorem hwExec_fault (runs : cmd.opCode ≠ .end) {fault : Fault}
    (h : (exec bus o.bus (cmd.ops o.txFifo)).fault = some fault) :
    hwExec bus o (cmd :: cmds) =
      { o.after cmd (exec bus o.bus (cmd.ops o.txFifo)) with
        event := some (faultEvent fault) } := by
  simp only [hwExec, if_neg runs, h]

theorem hwExec_none (runs : cmd.opCode ≠ .end) (more : cmd.opCode ≠ .stop)
    (h : (exec bus o.bus (cmd.ops o.txFifo)).fault = none) :
    hwExec bus o (cmd :: cmds) =
      hwExec bus (o.after cmd (exec bus o.bus (cmd.ops o.txFifo))) cmds := by
  simp only [hwExec, if_neg runs, if_neg more, h]

theorem hwExec_stop (last : cmd.opCode = .stop)
    (h : (exec bus o.bus (cmd.ops o.txFifo)).fault = none) :
    hwExec bus o (cmd :: cmds) =
      { o.after cmd (exec bus o.bus (cmd.ops o.txFifo)) with event := some .transDone } := by
  have runs : cmd.opCode ≠ .end := by
    rw [last]
    nofun
  simp only [hwExec, if_neg runs, if_pos last, h]

end Registers

/-- The first registers, the ones behind them being older. -/
theorem registers_one (comd : Nat → I2cLlHwCmd) (a : I2cLlHwCmd) :
    ∃ cmds, (List.range socI2cCmdRegNum).map (Function.update comd 0 a) = a :: cmds :=
  ⟨_, rfl⟩

theorem registers_two (comd : Nat → I2cLlHwCmd) (a b : I2cLlHwCmd) :
    ∃ cmds, (List.range socI2cCmdRegNum).map
      (Function.update (Function.update comd 0 a) 1 b) = a :: b :: cmds :=
  ⟨_, rfl⟩

theorem registers_three (comd : Nat → I2cLlHwCmd) (a b c : I2cLlHwCmd) :
    ∃ cmds, (List.range socI2cCmdRegNum).map
      (Function.update (Function.update (Function.update comd 0 a) 1 b) 2 c) = a :: b :: c :: cmds :=
  ⟨_, rfl⟩

theorem ready_nil (awake : o.status = .write ∨ o.status = .read) (head : o.head = [])
    (index : o.cmdIdx = 0) (tx : o.txFifo = []) (rx : o.rxFifo = []) : Ready o [] :=
  ⟨head, .nil, by nofun, .inl awake, index, tx, rx⟩

theorem launch_cons {link : I2cCmdLink} {rest : List I2cCmdLink} (h : o.head = link :: rest) :
    launch bus o = i2cLlTransStart bus (fillRegs o (link :: rest)) := by
  unfold launch
  rw [h]

theorem settle_nil (h : o.head = []) : settle o = o := by
  unfold settle
  rw [if_neg fun some => some.1 h]

section Chunks

variable {o' : I2cObj σ} {ops : List (Op Byte)} {places : List Nat} {rest : List I2cCmdLink}

theorem launched_fault {fault : Fault} (out : (exec bus o.bus ops).fault = some fault)
    (state : o'.bus = (exec bus o.bus ops).state) (awake : o'.status = .write ∨ o'.status = .read)
    (waits : o'.cmdEvtDone = o.cmdEvtDone) (event : o'.event = some (faultEvent fault)) :
    Launched bus o o' ops places rest where
  state := state
  awake := awake
  waits := waits
  failed _ out' := by
    cases out.symm.trans out'
    exact event
  went out' := absurd (out.symm.trans out') (Option.some_ne_none _)

theorem launched_none (out : (exec bus o.bus ops).fault = none)
    (state : o'.bus = (exec bus o.bus ops).state) (awake : o'.status = .write ∨ o'.status = .read)
    (waits : o'.cmdEvtDone = o.cmdEvtDone)
    (event : o'.event = some .endDet ∨ o'.event = some .transDone)
    (ready : Ready (settle o') rest)
    (mem : (settle o').mem = stored o.mem places (exec bus o.bus ops).read) :
    Launched bus o o' ops places rest where
  state := state
  awake := awake
  waits := waits
  failed _ out' := absurd (out'.symm.trans out) (Option.some_ne_none _)
  went _ := ⟨event, ready, mem⟩

end Chunks

theorem launch_stop {bytesUsed : Nat} (h : Ready o [⟨.stop, bytesUsed⟩]) :
    Launched bus o (launch bus o) [.stop] [] [] := by
  have awake : o.status = .write ∨ o.status = .read :=
    h.awake.resolve_right fun never => never _ rfl rfl
  have fill : fillRegs o [⟨.stop, bytesUsed⟩] =
      { o.setCmd 0 ⟨.stop, 0, false, false⟩ with cmdIdx := 0, head := [] } := by
    simp [fillRegs, I2cObj.plainCmd, h.index]
  obtain ⟨cmds, registers⟩ := registers_one o.comd ⟨.stop, 0, false, false⟩
  rw [launch_cons h.head, fill]
  unfold i2cLlTransStart I2cObj.setCmd
  simp only [registers]
  cases out : (exec bus o.bus [.stop]).fault with
  | some fault =>
    rw [hwExec_fault (by nofun) out]
    exact launched_fault out rfl awake rfl rfl
  | none =>
    have nothing := read_eq_nil out (by simp [Op.isRead])
    rw [hwExec_stop rfl out]
    refine launched_none out rfl awake rfl (.inr rfl) ?_ ?_
    · rw [settle_nil rfl]
      refine ready_nil awake rfl rfl h.tx ?_
      change o.rxFifo ++ (exec bus o.bus [.stop]).read = []
      rw [h.rx, nothing]
      rfl
    · rw [settle_nil rfl, nothing]
      rfl

/-- The links behind a command that has used `used` of its data. -/
def restAfter (cmd : I2cCmd) (used : Nat) (rest : List I2cCmdLink) : List I2cCmdLink :=
  if cmd.totalBytes = used then resetUsed rest else ⟨cmd, used⟩ :: rest

theorem used_le (cmd : I2cCmd) (bytesUsed : Nat) : I2cCmdLink.used ⟨cmd, bytesUsed⟩ ≤ bytesUsed := by
  unfold I2cCmdLink.used
  split
  · split_ifs
    · exact Nat.zero_le _
    · exact Nat.le_refl _
  · exact Nat.le_refl _
  · exact Nat.zero_le _

theorem map_resetUsed (links : List I2cCmdLink) :
    (resetUsed links).map I2cCmdLink.cmd = links.map I2cCmdLink.cmd := by
  cases links <;> rfl

section Rest

variable {cmd : I2cCmd} {rest : List I2cCmdLink} {used : Nat}

theorem ready_resetUsed (wellFormed : WellFormed (rest.map I2cCmdLink.cmd))
    (awake : o.status = .write ∨ o.status = .read) (head : o.head = resetUsed rest)
    (index : o.cmdIdx = 0) (tx : o.txFifo = []) (rx : o.rxFifo = []) :
    Ready o (resetUsed rest) where
  head := head
  wellFormed := by rwa [map_resetUsed]
  more link mem some := by
    cases rest with
    | nil => exact absurd mem (by nofun)
    | cons first rest =>
      cases mem
      exact Nat.lt_of_le_of_lt (used_le _ _) (Nat.pos_of_ne_zero some)
  awake := .inl awake
  index := index
  tx := tx
  rx := rx

theorem ready_restAfter (wellFormed : WellFormed (cmd :: rest.map I2cCmdLink.cmd))
    (after : WellFormed (rest.map I2cCmdLink.cmd)) (inside : used ≤ cmd.totalBytes)
    (awake : o.status = .write ∨ o.status = .read) (head : o.head = restAfter cmd used rest)
    (index : o.cmdIdx = 0) (tx : o.txFifo = []) (rx : o.rxFifo = []) :
    Ready o (restAfter cmd used rest) := by
  unfold restAfter at head ⊢
  split_ifs at head ⊢ with all
  · exact ready_resetUsed after awake head index tx rx
  · refine ⟨head, wellFormed, fun link mem _ => ?_, .inl awake, index, tx, rx⟩
    cases mem
    exact Nat.lt_of_le_of_lt (used_le _ _) (Nat.lt_of_le_of_ne inside (Ne.symm all))

end Rest

theorem fill_write {data : List Byte} {ackEn : Bool} {bytesUsed : Nat} {rest : List I2cCmdLink}
    {used n : Nat} (eq : I2cCmdLink.used ⟨.write data ackEn, bytesUsed⟩ = used)
    (size : n = min (data.length - used) socI2cFifoLen) :
    fillRegs o (⟨.write data ackEn, bytesUsed⟩ :: rest) =
      { (o.setCmd o.cmdIdx ⟨.write, n, ackEn, false⟩).setCmd (o.cmdIdx + 1) hwEndCmd with
        txFifo := o.txFifo ++ (data.drop used).take n
        cmdIdx := 0
        head := restAfter (.write data ackEn) (used + n) rest
        status := .write } := by
  subst eq size
  by_cases single : data.length = 1
  · simp [fillRegs, restAfter, I2cCmd.totalBytes, I2cCmdLink.used, single, socI2cFifoLen,
      I2cObj.setCmd]
  · simp [fillRegs, restAfter, I2cCmd.totalBytes, I2cCmdLink.used, single, I2cObj.setCmd]

theorem launch_write {data : List Byte} {ackEn : Bool} {bytesUsed : Nat} {rest : List I2cCmdLink}
    (h : Ready o (⟨.write data ackEn, bytesUsed⟩ :: rest))
    (after : WellFormed (rest.map I2cCmdLink.cmd)) {used n : Nat}
    (eq : I2cCmdLink.used ⟨.write data ackEn, bytesUsed⟩ = used)
    (size : n = min (data.length - used) socI2cFifoLen) (inside : used ≤ data.length) :
    Launched bus o (launch bus o) (((I2cCmd.write data ackEn).ops.drop used).take n)
      (((I2cCmd.write data ackEn).places.drop used).take n)
      (restAfter (.write data ackEn) (used + n) rest) := by
  obtain ⟨cmds, registers⟩ := registers_two o.comd ⟨.write, n, ackEn, false⟩ hwEndCmd
  rw [launch_cons h.head, fill_write eq size]
  unfold i2cLlTransStart I2cObj.setCmd
  simp only [h.index, h.tx, Nat.zero_add, List.nil_append, registers]
  have ops : I2cLlHwCmd.ops ((data.drop used).take n) ⟨.write, n, ackEn, false⟩ =
      ((I2cCmd.write data ackEn).ops.drop used).take n := by
    simp only [I2cLlHwCmd.ops, I2cCmd.ops, List.take_take, Nat.min_self, List.map_drop,
      List.map_take]
  rw [← ops]
  cases out : (exec bus o.bus (I2cLlHwCmd.ops ((data.drop used).take n)
      ⟨.write, n, ackEn, false⟩)).fault with
  | some fault =>
    rw [hwExec_fault (by nofun) out]
    exact launched_fault out rfl (.inl rfl) rfl rfl
  | none =>
    have nothing := read_eq_nil out fun op mem => by
      obtain ⟨byte, -, rfl⟩ := List.mem_map.1 mem
      rfl
    rw [hwExec_none (by nofun) (by nofun) out, hwExec_end]
    refine launched_none out rfl (.inl rfl) rfl (.inl rfl) ?_ ?_
    · unfold settle
      rw [if_neg fun reads => absurd reads.2 (by nofun)]
      refine ready_restAfter h.wellFormed after ?_ (.inl rfl) rfl rfl ?_ ?_
      · simp only [I2cCmd.totalBytes, size]
        omega
      · simp [I2cObj.after]
      · simp [I2cObj.after, h.rx, nothing]
    · unfold settle stored
      rw [if_neg fun reads => absurd reads.2 (by nofun), nothing, List.zip_nil_right]
      rfl

/-- All that was read belongs to the command at the head. -/
theorem takeRx_eq {data totalBytes : Nat} {ackVal : Bool} {bytesUsed : Nat}
    {rest : List I2cCmdLink} (head : o.head = ⟨.read data totalBytes ackVal, bytesUsed⟩ :: rest)
    (index : o.cmdIdx = 0) (all : o.rxFifo.length = o.rxCnt) :
    takeRx o = { o with
      mem := stored o.mem (List.range' (data + bytesUsed) o.rxCnt) o.rxFifo
      rxFifo := []
      head := restAfter (.read data totalBytes ackVal) (bytesUsed + o.rxCnt) rest } := by
  unfold takeRx restAfter I2cCmd.totalBytes
  rw [head]
  simp only [List.take_of_length_le (Nat.le_of_eq all), List.drop_eq_nil_of_le (Nat.le_of_eq all)]
  split_ifs with more last last
  · exact absurd last.symm more
  · simp only [index]
  · rfl
  · exact absurd (not_not.1 more).symm last

theorem settle_read {data totalBytes : Nat} {ackVal : Bool} {bytesUsed : Nat}
    {rest : List I2cCmdLink} (head : o.head = ⟨.read data totalBytes ackVal, bytesUsed⟩ :: rest)
    (reads : o.status = .read) (index : o.cmdIdx = 0) (all : o.rxFifo.length = o.rxCnt) :
    settle o = { o with
      mem := stored o.mem (List.range' (data + bytesUsed) o.rxCnt) o.rxFifo
      rxFifo := []
      head := restAfter (.read data totalBytes ackVal) (bytesUsed + o.rxCnt) rest } := by
  have some : o.head ≠ [] := by
    rw [head]
    exact List.cons_ne_nil _ _
  unfold settle
  rw [if_pos ⟨some, reads⟩, takeRx_eq head index all]

section Read

variable {data totalBytes : Nat} {ackVal : Bool} {bytesUsed n : Nat} {rest : List I2cCmdLink}

theorem launched_read {o' : I2cObj σ}
    (wellFormed : WellFormed (.read data totalBytes ackVal :: rest.map I2cCmdLink.cmd))
    (after : WellFormed (rest.map I2cCmdLink.cmd)) (inside : bytesUsed + n ≤ totalBytes)
    (out : (exec bus o.bus (List.replicate n (.read ackVal))).fault = none)
    (state : o'.bus = (exec bus o.bus (List.replicate n (.read ackVal))).state)
    (reads : o'.status = .read) (waits : o'.cmdEvtDone = o.cmdEvtDone)
    (event : o'.event = some .endDet)
    (head : o'.head = ⟨.read data totalBytes ackVal, bytesUsed⟩ :: rest) (index : o'.cmdIdx = 0)
    (tx : o'.txFifo = []) (rx : o'.rxFifo = (exec bus o.bus (List.replicate n (.read ackVal))).read)
    (cnt : o'.rxCnt = n) (mem : o'.mem = o.mem) :
    Launched bus o o' (List.replicate n (.read ackVal)) (List.range' (data + bytesUsed) n)
      (restAfter (.read data totalBytes ackVal) (bytesUsed + n) rest) := by
  have count := length_read out
  rw [List.countP_replicate, if_pos (show (Op.read ackVal : Op Byte).isRead = true from rfl),
    ← rx] at count
  have settled := settle_read head reads index (count.trans cnt.symm)
  rw [cnt, rx, mem] at settled
  refine launched_none out state (.inr reads) waits (.inl event) ?_ ?_
  · rw [settled]
    exact ready_restAfter wellFormed after inside (.inr reads) rfl index tx rfl
  · rw [settled]

theorem launch_read (h : Ready o (⟨.read data totalBytes ackVal, bytesUsed⟩ :: rest))
    (after : WellFormed (rest.map I2cCmdLink.cmd))
    (size : n = min (totalBytes - bytesUsed) socI2cFifoLen) (inside : bytesUsed ≤ totalBytes) :
    Launched bus o (launch bus o) (((I2cCmd.read data totalBytes ackVal).ops.drop bytesUsed).take n)
      (((I2cCmd.read data totalBytes ackVal).places.drop bytesUsed).take n)
      (restAfter (.read data totalBytes ackVal) (bytesUsed + n) rest) := by
  have fill : fillRegs o (⟨.read data totalBytes ackVal, bytesUsed⟩ :: rest) =
      { (o.setCmd 0 ⟨.read, n, false, ackVal⟩).setCmd 1 hwEndCmd with
        rxCnt := n
        head := ⟨.read data totalBytes ackVal, bytesUsed⟩ :: rest
        status := .read } := by
    simp [fillRegs, h.index, size, I2cObj.setCmd]
  obtain ⟨cmds, registers⟩ := registers_two o.comd ⟨.read, n, false, ackVal⟩ hwEndCmd
  rw [launch_cons h.head, fill]
  unfold i2cLlTransStart I2cObj.setCmd
  simp only [registers]
  have less : n ≤ totalBytes - bytesUsed := by
    rw [size]
    exact Nat.min_le_left _ _
  have ops : ((I2cCmd.read data totalBytes ackVal).ops.drop bytesUsed).take n =
      List.replicate n (.read ackVal) := by
    simp only [I2cCmd.ops, List.drop_replicate, List.take_replicate, Nat.min_eq_left less]
  have places : ((I2cCmd.read data totalBytes ackVal).places.drop bytesUsed).take n =
      List.range' (data + bytesUsed) n := by
    simp only [I2cCmd.places, List.drop_range', Nat.mul_one, List.take_range'_of_length_ge less]
  rw [ops, places]
  cases out : (exec bus o.bus (List.replicate n (.read ackVal))).fault with
  | some fault =>
    rw [hwExec_fault (by nofun) out]
    exact launched_fault out rfl (.inr rfl) rfl rfl
  | none =>
    rw [hwExec_none (by nofun) (by nofun) out, hwExec_end]
    refine launched_read h.wellFormed after (by omega) out rfl rfl rfl rfl rfl h.index h.tx ?_ rfl rfl
    change o.rxFifo ++ _ = _
    rw [h.rx]
    rfl

end Read

/-- A start and the byte behind it share the registers. -/
theorem launch_segment {byte : Byte} {ackEn : Bool} {used used' : Nat} {rest : List I2cCmdLink}
    (h : Ready o (⟨.start, used⟩ :: ⟨.write [byte] ackEn, used'⟩ :: rest))
    (after : WellFormed (rest.map I2cCmdLink.cmd)) :
    Launched bus o (launch bus o) [.start, .write byte ackEn] [] (resetUsed rest) := by
  have fill : fillRegs o (⟨.start, used⟩ :: ⟨.write [byte] ackEn, used'⟩ :: rest) =
      { ((o.setCmd 0 ⟨.restart, 0, false, false⟩).setCmd 1 ⟨.write, 1, ackEn, false⟩).setCmd 2
          hwEndCmd with
        txFifo := [byte]
        cmdIdx := 0
        head := resetUsed rest
        status := .write } := by
    simp [fillRegs, I2cObj.plainCmd, h.index, h.tx, I2cObj.setCmd, socI2cCmdRegNum]
  obtain ⟨cmds, registers⟩ := registers_three o.comd ⟨.restart, 0, false, false⟩
    ⟨.write, 1, ackEn, false⟩ hwEndCmd
  rw [launch_cons h.head, fill]
  unfold i2cLlTransStart I2cObj.setCmd
  simp only [registers]
  have split : [.start, .write byte ackEn] = [.start] ++ [Op.write byte ackEn] := rfl
  cases start : (exec bus o.bus [.start]).fault with
  | some fault =>
    have all := exec_append_fault [.write byte ackEn] (by rw [start]; nofun)
    rw [hwExec_fault (by nofun) start]
    exact launched_fault (by rw [split, all, start]) (by rw [split, all]; rfl) (.inl rfl) rfl rfl
  | none =>
    have all := exec_append_none [.write byte ackEn] start
    rw [hwExec_none (by nofun) (by nofun) start]
    cases out : (exec bus (exec bus o.bus [.start]).state [.write byte ackEn]).fault with
    | some fault =>
      rw [hwExec_fault (by nofun) out]
      exact launched_fault (by rw [split, all, out]) (by rw [split, all]; rfl) (.inl rfl) rfl rfl
    | none =>
      rw [hwExec_none (by nofun) (by nofun) out, hwExec_end]
      have went : (exec bus o.bus [.start, .write byte ackEn]).fault = none := by
        rw [split, all, out]
      have nothing := read_eq_nil went (by simp [Op.isRead])
      have first := read_eq_nil start (by simp [Op.isRead])
      have second := read_eq_nil out (by simp [Op.isRead])
      refine launched_none went (by rw [split, all]; rfl) (.inl rfl) rfl (.inl rfl) ?_ ?_
      · unfold settle
        rw [if_neg fun reads => absurd reads.2 (by nofun)]
        refine ready_resetUsed after (.inl rfl) rfl rfl rfl ?_
        change (o.rxFifo ++ (exec bus o.bus [.start]).read) ++
          (exec bus (exec bus o.bus [.start]).state [.write byte ackEn]).read = []
        rw [h.rx, first, second]
        rfl
      · unfold settle
        rw [if_neg fun reads => absurd reads.2 (by nofun), nothing]
        rfl

section Pieces

variable {cmd : I2cCmd} {rest : List I2cCmdLink} {used : Nat}

theorem used_eq (some : 0 < used) (less : used < cmd.totalBytes) :
    I2cCmdLink.used ⟨cmd, used⟩ = used := by
  cases cmd with
  | write data ackEn =>
    have many : ¬ data.length = 1 := by
      have inside : used < data.length := less
      omega
    exact if_neg many
  | read data totalBytes ackVal => rfl
  | start => exact absurd less (Nat.not_lt_zero _)
  | stop => exact absurd less (Nat.not_lt_zero _)

theorem length_ops (h : 0 < cmd.totalBytes) : cmd.ops.length = cmd.totalBytes := by
  cases cmd with
  | write data ackEn => exact List.length_map _
  | read data totalBytes ackVal => exact List.length_replicate
  | start => exact absurd h (Nat.lt_irrefl 0)
  | stop => exact absurd h (Nat.lt_irrefl 0)

theorem length_places_le (cmd : I2cCmd) : cmd.places.length ≤ cmd.totalBytes := by
  cases cmd with
  | read data totalBytes ackVal => exact Nat.le_of_eq List.length_range'
  | _ => exact Nat.zero_le _

theorem opsLeft_restAfter (rest : List I2cCmdLink) (some : 0 < used)
    (inside : used ≤ cmd.totalBytes) :
    opsLeft (restAfter cmd used rest) =
      cmd.ops.drop used ++ rest.flatMap fun link => link.cmd.ops := by
  unfold restAfter
  split_ifs with all
  · have short : cmd.ops.length ≤ used := Nat.le_of_eq ((length_ops (by omega)).trans all)
    rw [opsLeft_resetUsed, List.drop_eq_nil_of_le short]
    rfl
  · rw [opsLeft, used_eq some (Nat.lt_of_le_of_ne inside (Ne.symm all))]

theorem placesLeft_restAfter (rest : List I2cCmdLink) (some : 0 < used)
    (inside : used ≤ cmd.totalBytes) :
    placesLeft (restAfter cmd used rest) =
      cmd.places.drop used ++ rest.flatMap fun link => link.cmd.places := by
  unfold restAfter
  split_ifs with all
  · have short : cmd.places.length ≤ used := Nat.le_trans (length_places_le cmd) (Nat.le_of_eq all)
    rw [placesLeft_resetUsed, List.drop_eq_nil_of_le short]
    rfl
  · rw [placesLeft, used_eq some (Nat.lt_of_le_of_ne inside (Ne.symm all))]

end Pieces

theorem piece_fits {total used : Nat} (less : used < total) :
    0 < min (total - used) socI2cFifoLen ∧ used + min (total - used) socI2cFifoLen ≤ total := by
  have fifo : socI2cFifoLen = 32 := rfl
  omega

section Split

variable {cmd : I2cCmd} {rest : List I2cCmdLink} {used n : Nat}

theorem opsLeft_split (rest : List I2cCmdLink) (some : 0 < n)
    (inside : used + n ≤ cmd.totalBytes) :
    cmd.ops.drop used ++ rest.flatMap (fun link => link.cmd.ops) =
      (cmd.ops.drop used).take n ++ opsLeft (restAfter cmd (used + n) rest) := by
  rw [opsLeft_restAfter rest (by omega) inside, ← List.append_assoc, ← List.drop_drop,
    List.take_append_drop]

theorem placesLeft_split (rest : List I2cCmdLink) (some : 0 < n)
    (inside : used + n ≤ cmd.totalBytes) :
    cmd.places.drop used ++ rest.flatMap (fun link => link.cmd.places) =
      (cmd.places.drop used).take n ++ placesLeft (restAfter cmd (used + n) rest) := by
  rw [placesLeft_restAfter rest (by omega) inside, ← List.append_assoc, ← List.drop_drop,
    List.take_append_drop]

theorem piece_ne_nil (some : 0 < n) (inside : used + n ≤ cmd.totalBytes) :
    (cmd.ops.drop used).take n ≠ [] := by
  apply List.ne_nil_of_length_pos
  rw [List.length_take, List.length_drop, length_ops (by omega)]
  omega

end Split

/-- A launch is a piece of what is left, and not an empty one. -/
theorem Ready.launch {links : List I2cCmdLink} (h : Ready o links) (more : links ≠ []) :
    ∃ ops places rest, ops ≠ [] ∧ places.length = ops.countP Op.isRead ∧
      opsLeft links = ops ++ opsLeft rest ∧ placesLeft links = places ++ placesLeft rest ∧
      Launched bus o (launch bus o) ops places rest := by
  obtain _ | ⟨⟨cmd, bytesUsed⟩, rest⟩ := links
  · exact absurd rfl more
  have wellFormed := h.wellFormed
  rw [List.map_cons] at wellFormed
  cases cmd with
  | stop =>
    obtain _ | ⟨next, rest⟩ := rest
    · exact ⟨[.stop], [], [], List.cons_ne_nil _ _, rfl, rfl, rfl, launch_stop h⟩
    · exact absurd wellFormed (by nofun)
  | start =>
    obtain _ | ⟨⟨next, bytesUsed'⟩, rest⟩ := rest
    · exact absurd wellFormed (by nofun)
    rw [List.map_cons] at wellFormed
    cases next with
    | write data ackEn =>
      cases wellFormed with
      | segment byte _ after =>
        refine ⟨_, _, _, List.cons_ne_nil _ _, rfl, ?_, ?_, launch_segment h after⟩
        · rw [opsLeft_resetUsed]
          rfl
        · rw [placesLeft_resetUsed]
          rfl
    | _ => exact absurd wellFormed (by nofun)
  | write data ackEn =>
    cases wellFormed with
    | write some _ after =>
      have pos := List.length_pos_iff.2 some
      have less : I2cCmdLink.used ⟨.write data ackEn, bytesUsed⟩ < data.length :=
        h.more _ rfl (Nat.ne_of_gt pos)
      obtain ⟨count, inside⟩ := piece_fits less
      refine ⟨_, _, _, piece_ne_nil count inside, ?_, opsLeft_split rest count inside,
        placesLeft_split rest count inside, launch_write h after rfl rfl (Nat.le_of_lt less)⟩
      rw [List.countP_eq_zero.2]
      · simp [I2cCmd.places]
      · intro op mem
        obtain ⟨byte, -, rfl⟩ := List.mem_map.1 (List.mem_of_mem_drop (List.mem_of_mem_take mem))
        exact Bool.false_ne_true
  | read data totalBytes ackVal =>
    cases wellFormed with
    | read _ some _ after =>
      have less : bytesUsed < totalBytes := h.more _ rfl (Nat.ne_of_gt some)
      obtain ⟨count, inside⟩ := piece_fits less
      refine ⟨_, _, _, piece_ne_nil count inside, ?_, opsLeft_split rest count inside,
        placesLeft_split rest count inside, launch_read h after rfl (Nat.le_of_lt less)⟩
      simp only [I2cCmd.places, I2cCmd.ops, List.length_take, List.length_drop, List.length_range',
        List.drop_replicate, List.take_replicate, List.countP_replicate, Op.isRead, if_true]

def faultStatus : Option Fault → I2cStatus
  | none => .idle
  | some .nack => .ackError
  | some _ => .timeout

theorem takeRx_event (o : I2cObj σ) (event : Option I2cIntrEvent) :
    takeRx { o with event } = { takeRx o with event } := by
  obtain ⟨_, _, _, head, _, _, _, _, _, _, _⟩ := o
  obtain _ | ⟨⟨cmd, bytesUsed⟩, rest⟩ := head
  · rfl
  cases cmd with
  | read data totalBytes ackVal =>
    simp only [takeRx]
    split_ifs <;> rfl
  | _ => rfl

theorem settle_event (o : I2cObj σ) (event : Option I2cIntrEvent) :
    settle { o with event } = { settle o with event } := by
  unfold settle
  split_ifs
  · exact takeRx_event o event
  · rfl

theorem settle_same (o : I2cObj σ) :
    (settle o).bus = o.bus ∧ (settle o).cmdEvtDone = o.cmdEvtDone := by
  unfold settle
  split_ifs
  · fun_cases takeRx o <;> exact ⟨rfl, rfl⟩
  · exact ⟨rfl, rfl⟩

/-- An interrupt of the end of a piece goes on with the next. -/
theorem isr_none {event : I2cIntrEvent} (pending : o.event = some event)
    (ended : event = .endDet ∨ event = .transDone) (awake : o.status = .write ∨ o.status = .read) :
    i2cIsrHandlerDefault bus o = launch bus { settle o with event := none } := by
  have static : i2cMasterCmdBeginStatic bus { o with event := none } =
      launch bus { settle o with event := none } := by
    rw [← settle_event]
    unfold i2cMasterCmdBeginStatic settle
    split_ifs with reads stuck finished
    · rfl
    · obtain write | read := awake
      · exact absurd stuck (by simp [write])
      · exact absurd stuck (by simp [read])
    · obtain write | read := awake
      · exact absurd (write.symm.trans finished) (by nofun)
      · exact absurd (read.symm.trans finished) (by nofun)
    · rfl
  unfold i2cIsrHandlerDefault
  rw [pending]
  obtain under | under := awake <;> obtain rfl | rfl := ended <;> simpa [under] using static

theorem isr_fault {fault : Fault} (pending : o.event = some (faultEvent fault))
    (awake : o.status = .write ∨ o.status = .read) :
    i2cIsrHandlerDefault bus o =
      { o with event := none, status := faultStatus (some fault), cmdEvtDone := true } := by
  unfold i2cIsrHandlerDefault i2cMasterCmdBeginStatic
  rw [pending]
  obtain under | under := awake <;> cases fault <;> simp [faultEvent, faultStatus, under]

theorem isr_quiet (h : o.event = none) (n : Nat) : (i2cIsrHandlerDefault bus)^[n] o = o := by
  have fixed : i2cIsrHandlerDefault bus o = o := by
    unfold i2cIsrHandlerDefault
    rw [h]
  exact Function.iterate_fixed fixed n

/-- The transfer is over, with all of it on the bus up to a fault. -/
structure Finished (bus : Bus σ Byte) (o o' : I2cObj σ) (ops : List (Op Byte))
    (places : List Nat) : Prop where
  done : o'.cmdEvtDone = true
  state : o'.bus = (exec bus o.bus ops).state
  status : o'.status = faultStatus (exec bus o.bus ops).fault
  mem : (exec bus o.bus ops).fault = none →
    o'.mem = stored o.mem places (exec bus o.bus ops).read

/-- The interrupts have not been enough. -/
structure Unfinished (bus : Bus σ Byte) (o o' : I2cObj σ) (ops : List (Op Byte)) (n : Nat) :
    Prop where
  waits : o'.cmdEvtDone = false
  few : n < ops.length
  state : ∃ k, o'.bus = (exec bus o.bus (ops.take k)).state

theorem serve_nil (n : Nat) (h : Ready o []) (quiet : o.event = none) :
    Finished bus o ((i2cIsrHandlerDefault bus)^[n] (launch bus o)) [] [] := by
  have last : launch bus o = { o with cmdEvtDone := true, status := .idle } := by
    unfold launch
    rw [h.head]
  rw [last, isr_quiet (by exact quiet)]
  exact ⟨rfl, rfl, rfl, fun _ => rfl⟩

theorem serve_fault (n : Nat) {ops ops' : List (Op Byte)} {places places' : List Nat}
    {rest : List I2cCmdLink} {o' : I2cObj σ} (h : Launched bus o o' ops places rest)
    {fault : Fault} (out : (exec bus o.bus ops).fault = some fault) :
    Finished bus o ((i2cIsrHandlerDefault bus)^[n + 1] o') (ops ++ ops') places' := by
  have all := exec_append_fault ops' (by rw [out]; exact Option.some_ne_none _)
  rw [Function.iterate_succ_apply, isr_fault (h.failed fault out) h.awake, isr_quiet rfl]
  refine ⟨rfl, ?_, ?_, fun went => ?_⟩
  · rw [all]
    exact h.state
  · rw [all, out]
  · rw [all, out] at went
    exact absurd went (Option.some_ne_none _)

section Behind

variable {ops ops' : List (Op Byte)} {places places' : List Nat} {o₁ o' : I2cObj σ}

theorem Finished.behind (h : Finished bus o₁ o' ops' places')
    (out : (exec bus o.bus ops).fault = none) (count : places.length = ops.countP Op.isRead)
    (state : o₁.bus = (exec bus o.bus ops).state)
    (mem : o₁.mem = stored o.mem places (exec bus o.bus ops).read) :
    Finished bus o o' (ops ++ ops') (places ++ places') := by
  have all := exec_append_none ops' out
  obtain ⟨done, state', status', mem'⟩ := h
  rw [state] at state' status' mem'
  refine ⟨done, ?_, ?_, fun went => ?_⟩
  · rw [all]
    exact state'
  · rw [all]
    exact status'
  · rw [all] at went ⊢
    rw [stored_append _ _ (count.trans (length_read out).symm), ← mem]
    exact mem' went

theorem Unfinished.behind {n : Nat} (h : Unfinished bus o₁ o' ops' n)
    (out : (exec bus o.bus ops).fault = none) (pos : 0 < ops.length)
    (state : o₁.bus = (exec bus o.bus ops).state) :
    Unfinished bus o o' (ops ++ ops') (n + 1) := by
  obtain ⟨waits, few, k, state'⟩ := h
  refine ⟨waits, ?_, ops.length + k, ?_⟩
  · rw [List.length_append]
    omega
  · rw [List.take_length_add_append, exec_append_none _ out, ← state]
    exact state'

end Behind

/-- From one launch to the end, piece by piece. -/
theorem serve (n : Nat) {links : List I2cCmdLink} (h : Ready o links)
    (waits : o.cmdEvtDone = false) (quiet : o.event = none) :
    Finished bus o ((i2cIsrHandlerDefault bus)^[n] (launch bus o)) (opsLeft links)
      (placesLeft links) ∨
    Unfinished bus o ((i2cIsrHandlerDefault bus)^[n] (launch bus o)) (opsLeft links) n := by
  induction n generalizing o links with
  | zero =>
    by_cases last : links = []
    · subst last
      exact .inl (serve_nil 0 h quiet)
    · obtain ⟨ops, places, rest, some, -, left, -, launched⟩ := @Ready.launch σ bus o links h last
      have pos := List.length_pos_iff.2 some
      refine .inr ⟨launched.waits.trans waits, ?_, ops.length, ?_⟩
      · rw [left, List.length_append]
        omega
      · rw [left, List.take_left]
        exact launched.state
  | succ n ih =>
    by_cases last : links = []
    · subst last
      exact .inl (serve_nil (n + 1) h quiet)
    · obtain ⟨ops, places, rest, some, count, left, belong, launched⟩ := @Ready.launch σ bus o links h last
      rw [left, belong]
      cases out : (exec bus o.bus ops).fault with
      | some fault => exact .inl (serve_fault n launched out)
      | none =>
        obtain ⟨ended, ready, mem⟩ := launched.went out
        have ⟨sameBus, sameDone⟩ := settle_same (launch bus o)
        have goesOn : i2cIsrHandlerDefault bus (launch bus o) =
            launch bus { settle (launch bus o) with event := none } := by
          obtain pending | pending := ended
          · exact isr_none pending (.inl rfl) launched.awake
          · exact isr_none pending (.inr rfl) launched.awake
        rw [Function.iterate_succ_apply, goesOn]
        have later := @ih { settle (launch bus o) with event := none } rest
          ⟨ready.head, ready.wellFormed, ready.more, ready.awake, ready.index, ready.tx, ready.rx⟩
          (sameDone.trans (launched.waits.trans waits)) rfl
        obtain finished | unfinished := later
        · exact .inl (finished.behind out count (sameBus.trans launched.state) mem)
        · exact .inr (unfinished.behind out (List.length_pos_iff.2 some)
            (sameBus.trans launched.state))

end Launch

section Transfer

variable {σ : Type*} (bus : Bus σ Byte)

/-- What `i2c_master_cmd_begin` returns for what has gone wrong. -/
def faultErr : Option Fault → EspErr
  | none => espOk
  | some .nack => espFail
  | some _ => espErrTimeout

def linkOps (links : List I2cCmdLink) : List (Op Byte) := links.flatMap fun link => link.cmd.ops

def linkPlaces (links : List I2cCmdLink) : List Nat := links.flatMap fun link => link.cmd.places

/-- A link that is not empty and begins with more than a stop. -/
structure Transaction (links : List I2cCmdLink) : Prop where
  some : links ≠ []
  wellFormed : WellFormed (links.map I2cCmdLink.cmd)
  begins : ∀ link ∈ links.head?, link.cmd ≠ .stop

variable {bus}

theorem Finished.eventErr {o o' : I2cObj σ} {ops : List (Op Byte)} {places : List Nat}
    (h : Finished bus o o' ops places) : eventErr o' = faultErr (exec bus o.bus ops).fault := by
  unfold I2c.eventErr
  rw [if_pos h.done, h.status]
  cases (exec bus o.bus ops).fault with
  | none => rfl
  | some fault => cases fault <;> rfl

theorem faultErr_eq_espOk {fault : Option Fault} (h : faultErr fault = espOk) : fault = none := by
  cases fault with
  | none => rfl
  | some fault => cases fault <;> exact absurd h (by decide)

theorem ready_begun {links : List I2cCmdLink} (h : Transaction links) (o : I2cObj σ) :
    Ready (begun links o) (resetUsed links) where
  head := rfl
  wellFormed := by
    rw [map_resetUsed]
    exact h.wellFormed
  more link mem some := by
    cases links with
    | nil => exact absurd mem (by nofun)
    | cons first rest =>
      cases mem
      exact Nat.lt_of_le_of_lt (used_le _ _) (Nat.pos_of_ne_zero some)
  awake := .inr fun link mem => by
    cases links with
    | nil => exact absurd mem (by nofun)
    | cons first rest =>
      cases mem
      exact h.begins first rfl
  index := rfl
  tx := rfl
  rx := rfl

theorem static_begun (links : List I2cCmdLink) (o : I2cObj σ) :
    i2cMasterCmdBeginStatic bus (begun links o) = launch bus (begun links o) := by
  unfold i2cMasterCmdBeginStatic
  rw [if_neg fun reads => absurd reads.2 (by nofun), if_neg (by nofun), if_neg (by nofun)]

section Results

variable {links : List I2cCmdLink} (h : Transaction links) (interrupts : Nat) (o : I2cObj σ)
include h

theorem serve_begun :
    let o' := (i2cIsrHandlerDefault bus)^[interrupts] (i2cMasterCmdBeginStatic bus (begun links o))
    Finished bus (begun links o) o' (linkOps links) (linkPlaces links) ∨
      Unfinished bus (begun links o) o' (linkOps links) interrupts := by
  have served := @serve σ bus _ interrupts _ (ready_begun h o) rfl rfl
  rwa [← static_begun, opsLeft_resetUsed, placesLeft_resetUsed] at served

/-- The bus has seen some first operations of the link and no others. -/
theorem cmdBegin_bus : ∃ k, (i2cMasterCmdBegin bus interrupts links o).2.bus =
    (exec bus o.bus ((linkOps links).take k)).state := by
  obtain finished | unfinished := serve_begun h interrupts o
  · refine ⟨(linkOps links).length, ?_⟩
    rw [List.take_length]
    exact finished.state
  · exact unfinished.state

theorem cmdBegin_ok (ok : (i2cMasterCmdBegin bus interrupts links o).1 = espOk) :
    (exec bus o.bus (linkOps links)).fault = none ∧
      (i2cMasterCmdBegin bus interrupts links o).2.bus = (exec bus o.bus (linkOps links)).state ∧
      (i2cMasterCmdBegin bus interrupts links o).2.mem =
        stored o.mem (linkPlaces links) (exec bus o.bus (linkOps links)).read := by
  obtain finished | unfinished := serve_begun h interrupts o
  · have went := faultErr_eq_espOk (finished.eventErr.symm.trans ok)
    exact ⟨went, finished.state, finished.mem went⟩
  · have late : eventErr _ = espErrTimeout := if_neg (by rw [unfinished.waits]; nofun)
    exact absurd (late.symm.trans ok) (by decide)

theorem cmdBegin_inTime (enough : (linkOps links).length ≤ interrupts) :
    (i2cMasterCmdBegin bus interrupts links o).1 =
        faultErr (exec bus o.bus (linkOps links)).fault ∧
      (i2cMasterCmdBegin bus interrupts links o).2.bus =
        (exec bus o.bus (linkOps links)).state := by
  obtain finished | unfinished := serve_begun h interrupts o
  · exact ⟨finished.eventErr, finished.state⟩
  · exact absurd unfinished.few (Nat.not_lt.2 enough)

end Results

/-- What becomes of a link on a bus. -/
structure Carried (bus : Bus σ Byte) (interrupts : Nat) (links : List I2cCmdLink) (o : I2cObj σ) :
    Prop where
  upTo : ∃ k, (i2cMasterCmdBegin bus interrupts links o).2.bus =
    (exec bus o.bus ((linkOps links).take k)).state
  ok : (i2cMasterCmdBegin bus interrupts links o).1 = espOk →
    (exec bus o.bus (linkOps links)).fault = none ∧
    (i2cMasterCmdBegin bus interrupts links o).2.bus = (exec bus o.bus (linkOps links)).state ∧
    (i2cMasterCmdBegin bus interrupts links o).2.mem =
      stored o.mem (linkPlaces links) (exec bus o.bus (linkOps links)).read
  inTime : (linkOps links).length ≤ interrupts →
    (i2cMasterCmdBegin bus interrupts links o).1 =
      faultErr (exec bus o.bus (linkOps links)).fault ∧
    (i2cMasterCmdBegin bus interrupts links o).2.bus = (exec bus o.bus (linkOps links)).state

/-- However a link is cut into pieces, whatever the devices answer and wherever
the bus fails: the commands are on the bus as they stand in the link, up to the
fault or to the end of the time, and with time enough to the fault alone. -/
theorem i2cMasterCmdBegin_carries (bus : Bus σ Byte) (interrupts : Nat) {links : List I2cCmdLink}
    (h : Transaction links) (o : I2cObj σ) : Carried bus interrupts links o :=
  ⟨cmdBegin_bus h interrupts o, cmdBegin_ok h interrupts o, cmdBegin_inTime h interrupts o⟩

/-- A port that is installed, with a bus on which everything is answered. -/
def port {σ : Type*} (bus : σ) : I2cObj σ where
  cmdIdx := 0
  status := .done
  rxCnt := 0
  head := []
  cmdEvtDone := false
  comd _ := hwEndCmd
  txFifo := []
  rxFifo := []
  bus
  mem _ := 0
  event := none

/-- Forty bytes do not fit into the FIFO, and the links were used before. -/
def longRead : List I2cCmdLink :=
  [⟨.start, 0⟩, ⟨.write [0x71] true, 0⟩, ⟨.read 0 39 false, 39⟩, ⟨.read 39 1 true, 1⟩, ⟨.stop, 0⟩]

theorem transaction_longRead : Transaction longRead :=
  ⟨List.cons_ne_nil _ _, .segment _ _ (.read _ (by decide) _ (.read _ (by decide) _ .stop)), fun _ mem => by
    cases mem
    nofun⟩

def counting : Bus Nat Byte := fun n _ => (n + 1, .answer true (BitVec.ofNat 8 n))

theorem i2cMasterCmdBegin_carries_longRead :
    Carried counting 5 longRead (port 0) ∧
      (i2cMasterCmdBegin counting 5 longRead (port 0)).1 = espOk :=
  ⟨i2cMasterCmdBegin_carries counting 5 transaction_longRead (port 0), by decide⟩

end Transfer

end CameraBoard.I2c
