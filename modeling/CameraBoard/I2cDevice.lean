import CameraBoard.I2cMaster
import CameraBoard.LcdTouch

/-! Devices with registers on the I2C bus, as the touch controller, the expander
and the motion sensor are: the first byte written names a register, and every
further byte, written or read, goes on to the next. Anything may go wrong on the
bus at any operation. -/
namespace CameraBoard.I2c
open SerialBus

inductive Phase where
  | idle
  | address
  | pointer
  | data
  | reading
  | deaf

structure RegDevice where
  regs : Nat → Byte
  pointer : Nat
  phase : Phase

/-- A byte that nobody drives reads as ones. -/
def regBus (deviceAddress : Byte) : Bus RegDevice Byte := fun d op =>
  match op, d.phase with
  | .start, _ => ({ d with phase := .address }, .answer true 0xff)
  | .stop, _ => ({ d with phase := .idle }, .answer true 0xff)
  | .write byte _, .address =>
    if byte = addressWrite deviceAddress then ({ d with phase := .pointer }, .answer true 0xff)
    else if byte = addressRead deviceAddress then ({ d with phase := .reading }, .answer true 0xff)
    else ({ d with phase := .deaf }, .answer false 0xff)
  | .write byte _, .pointer =>
    ({ d with pointer := byte.toNat, phase := .data }, .answer true 0xff)
  | .write byte _, .data =>
    ({ d with regs := Function.update d.regs d.pointer byte, pointer := d.pointer + 1 },
      .answer true 0xff)
  | .write _ _, _ => (d, .answer false 0xff)
  | .read _, .reading => ({ d with pointer := d.pointer + 1 }, .answer true (d.regs d.pointer))
  | .read _, _ => (d, .answer true 0xff)

section Transfers

variable {σ : Type*} (bus : Bus σ Byte) (interrupts : Nat) (deviceAddress : Byte)

/-- Nothing where the assertion on the handle fails. -/
def i2cMasterWriteToDevice (writeBuffer : List Byte) (o : I2cObj σ) : Option (EspErr × I2cObj σ) :=
  (i2cCmdLinkCreateStatic i2cTransBufMinimumSize).map fun handle =>
    let (err, handle) := writeToDeviceLinks deviceAddress writeBuffer handle
    if err ≠ espOk then (err, o) else i2cMasterCmdBegin bus interrupts handle.links o

def i2cMasterWriteReadDevice (writeBuffer : List Byte) (readSize : Nat) (o : I2cObj σ) :
    Option (EspErr × I2cObj σ) :=
  (i2cCmdLinkCreateStatic i2cTransBufMinimumSize).map fun handle =>
    let (err, handle) := writeReadDeviceLinks deviceAddress writeBuffer readSize handle
    if err ≠ espOk then (err, o) else i2cMasterCmdBegin bus interrupts handle.links o

end Transfers

/-- The commands of a transfer, none of them used. -/
def fresh (cmds : List I2cCmd) : List I2cCmdLink := cmds.map fun cmd => ⟨cmd, 0⟩

def writeCmds (deviceAddress : Byte) (writeBuffer : List Byte) : List I2cCmd :=
  [.start, .write [addressWrite deviceAddress] true, .write writeBuffer true, .stop]

def writeReadCmds (deviceAddress : Byte) (writeBuffer : List Byte) (readSize : Nat) :
    List I2cCmd :=
  [.start, .write [addressWrite deviceAddress] true, .write writeBuffer true, .start,
    .write [addressRead deviceAddress] true] ++ lastNack 0 readSize ++ [.stop]

section Cmds

variable {writeBuffer : List Byte} {readSize : Nat}

theorem map_fresh (cmds : List I2cCmd) : (fresh cmds).map I2cCmdLink.cmd = cmds := by
  unfold fresh
  rw [List.map_map]
  exact List.map_id cmds

theorem linkOps_fresh (cmds : List I2cCmd) : linkOps (fresh cmds) = cmds.flatMap I2cCmd.ops := by
  unfold linkOps fresh
  rw [List.flatMap_map]

theorem linkPlaces_fresh (cmds : List I2cCmd) :
    linkPlaces (fresh cmds) = cmds.flatMap I2cCmd.places := by
  unfold linkPlaces fresh
  rw [List.flatMap_map]

theorem wellFormed_lastNack {cmds : List I2cCmd} (data : Nat) (reads : readSize ≠ 0)
    (rest : WellFormed cmds) : WellFormed (lastNack data readSize ++ cmds) := by
  unfold lastNack
  split_ifs with one
  · exact .read data Nat.one_pos true rest
  · exact .read data (by omega) false (.read _ Nat.one_pos true rest)

theorem transaction_writeCmds (deviceAddress : Byte) (sends : writeBuffer ≠ []) :
    Transaction (fresh (writeCmds deviceAddress writeBuffer)) where
  some := List.cons_ne_nil _ _
  wellFormed := by
    rw [map_fresh]
    exact .segment _ _ (.write sends _ .stop)
  begins link mem := by
    cases mem
    nofun

theorem transaction_writeReadCmds (deviceAddress : Byte) (sends : writeBuffer ≠ [])
    (reads : readSize ≠ 0) : Transaction (fresh (writeReadCmds deviceAddress writeBuffer readSize)) where
  some := List.cons_ne_nil _ _
  wellFormed := by
    rw [map_fresh]
    exact .segment _ _ (.write sends _ (.segment _ _ (wellFormed_lastNack 0 reads .stop)))
  begins link mem := by
    cases mem
    nofun

/-- All reads but the last are acknowledged. -/
def readOps (readSize : Nat) : List (Op Byte) :=
  List.replicate (readSize - 1) (.read false) ++ [.read true]

theorem ops_lastNack (data readSize : Nat) :
    (lastNack data readSize).flatMap I2cCmd.ops = readOps readSize := by
  unfold lastNack readOps
  split_ifs with one
  · rw [one]
    rfl
  · rfl

theorem places_lastNack (data : Nat) (reads : readSize ≠ 0) :
    (lastNack data readSize).flatMap I2cCmd.places = List.range' data readSize := by
  unfold lastNack
  split_ifs with one
  · rw [one]
    rfl
  · have last : data + readSize - 1 = data + (readSize - 1) := by omega
    have whole : readSize - 1 + 1 = readSize := by omega
    have joined := @List.range'_append_1 data (readSize - 1) 1
    rw [whole] at joined
    simp only [List.flatMap_cons, List.flatMap_nil, I2cCmd.places, List.append_nil, last, joined]

/-- The descriptor that is put in the buffer of a transfer has eight links. -/
def transDesc : I2cCmdDesc := ⟨[], some (cmdLinkSize * 8)⟩

theorem create_transDesc : i2cCmdLinkCreateStatic i2cTransBufMinimumSize = some transDesc := rfl

theorem room_transDesc {n : Nat} (h : n ≤ 8) : transDesc.Room n := by
  intro size mem
  cases mem
  exact Nat.mul_le_mul_left _ h

theorem links_transDesc (cmds : List I2cCmd) : (transDesc.pushes cmds).links = fresh cmds := by
  rw [links_pushes]
  rfl

section Sent

variable {σ : Type*} (bus : Bus σ Byte) (interrupts : Nat) (deviceAddress : Byte)
  (writeBuffer : List Byte)

theorem writeToDevice_eq (o : I2cObj σ) :
    i2cMasterWriteToDevice bus interrupts deviceAddress writeBuffer o =
      some (i2cMasterCmdBegin bus interrupts (fresh (writeCmds deviceAddress writeBuffer)) o) := by
  unfold i2cMasterWriteToDevice
  rw [create_transDesc, Option.map_some,
    writeToDeviceLinks_eq deviceAddress writeBuffer (room_transDesc (by omega))]
  simp only [links_transDesc]
  rfl

/-- Eight links are all that a transfer takes. -/
theorem writeReadDevice_eq (reads : readSize ≠ 0) (o : I2cObj σ) :
    i2cMasterWriteReadDevice bus interrupts deviceAddress writeBuffer readSize o =
      some (i2cMasterCmdBegin bus interrupts
        (fresh (writeReadCmds deviceAddress writeBuffer readSize)) o) := by
  unfold i2cMasterWriteReadDevice
  rw [create_transDesc, Option.map_some,
    writeReadDeviceLinks_eq deviceAddress writeBuffer reads (room_transDesc (Nat.le_refl 8))]
  simp only [links_transDesc]
  rfl

end Sent

end Cmds

section Registers

variable {deviceAddress : Byte} {d : RegDevice}

theorem addressRead_ne (deviceAddress : Byte) :
    addressRead deviceAddress ≠ addressWrite deviceAddress := by
  intro same
  have bit := congrArg (·.getLsbD 0) same
  simp [addressRead, addressWrite] at bit

theorem regBus_read (d : RegDevice) (ackVal : Bool) :
    (regBus deviceAddress d (.read ackVal)).1.regs = d.regs := by
  obtain ⟨regs, pointer, phase⟩ := d
  cases phase <;> rfl

theorem exec_reads {ops : List (Op Byte)} (reading : d.phase = .reading)
    (reads : ∀ op ∈ ops, op.isRead = true) :
    exec (regBus deviceAddress) d ops =
      ⟨{ d with pointer := d.pointer + ops.length },
        (List.range' d.pointer ops.length).map d.regs, none⟩ := by
  induction ops generalizing d with
  | nil => rfl
  | cons op ops ih =>
    cases op with
    | read ackVal =>
      have step : regBus deviceAddress d (.read ackVal) =
          ({ d with pointer := d.pointer + 1 }, .answer true (d.regs d.pointer)) := by
        unfold regBus
        rw [reading]
      rw [exec_cons_none ops (by rw [step]; rfl), step,
        ih (by exact reading) fun op mem => reads op (List.mem_cons_of_mem _ mem)]
      simp only [List.length_cons, List.range'_succ, List.map_cons, Op.bytes, List.singleton_append,
        Nat.add_assoc, Nat.add_comm 1]
    | _ => exact absurd (reads _ List.mem_cons_self) (by nofun)

/-- Up to the address that asks for the contents of `reg`. -/
def selectOps (deviceAddress reg : Byte) : List (Op Byte) :=
  [.start, .write (addressWrite deviceAddress) true, .write reg true, .start,
    .write (addressRead deviceAddress) true]

theorem ops_writeReadCmds (deviceAddress reg : Byte) (readSize : Nat) :
    (writeReadCmds deviceAddress [reg] readSize).flatMap I2cCmd.ops =
      selectOps deviceAddress reg ++ (readOps readSize ++ [Op.stop]) := by
  unfold writeReadCmds
  rw [List.flatMap_append, List.flatMap_append, ops_lastNack, List.append_assoc]
  rfl

theorem places_writeReadCmds (deviceAddress reg : Byte) {readSize : Nat} (reads : readSize ≠ 0) :
    (writeReadCmds deviceAddress [reg] readSize).flatMap I2cCmd.places =
      List.range' 0 readSize := by
  unfold writeReadCmds
  rw [List.flatMap_append, List.flatMap_append, places_lastNack 0 reads]
  exact List.append_nil _

theorem exec_selectOps (reg : Byte) : exec (regBus deviceAddress) d (selectOps deviceAddress reg) =
    ⟨{ d with pointer := reg.toNat, phase := .reading }, [], none⟩ := by
  simp [selectOps, exec, regBus, Op.fault, Op.bytes, addressRead_ne]

theorem regs_selectOps (reg : Byte) (j : Nat) :
    (exec (regBus deviceAddress) d ((selectOps deviceAddress reg).take j)).state.regs = d.regs := by
  obtain _ | _ | _ | _ | _ | j := j <;>
    simp [selectOps, exec, regBus, Op.fault, Op.bytes, addressRead_ne]

theorem length_readOps {readSize : Nat} (reads : readSize ≠ 0) :
    (readOps readSize).length = readSize := by
  unfold readOps
  rw [List.length_append, List.length_replicate, List.length_singleton]
  omega

theorem isRead_readOps {readSize : Nat} {op : Op Byte} (h : op ∈ readOps readSize) :
    op.isRead = true := by
  obtain mem | mem := List.mem_append.1 h
  · rw [List.eq_of_mem_replicate mem]
    rfl
  · rw [List.mem_singleton.1 mem]
    rfl

/-- The registers from `reg` on, one byte each. -/
theorem exec_writeReadOps (reg : Byte) {readSize : Nat} (reads : readSize ≠ 0) :
    exec (regBus deviceAddress) d (selectOps deviceAddress reg ++ (readOps readSize ++ [Op.stop])) =
      ⟨{ d with pointer := reg.toNat + readSize, phase := .idle },
        (List.range' reg.toNat readSize).map d.regs, none⟩ := by
  have select := @exec_selectOps deviceAddress d reg
  have read := @exec_reads deviceAddress { d with pointer := reg.toNat, phase := .reading }
    (readOps readSize) rfl fun op mem => isRead_readOps mem
  rw [length_readOps reads] at read
  rw [exec_append_none _ (by rw [select]), select, exec_append_none _ (by rw [read]), read]
  simp [exec, regBus, Op.fault, Op.bytes]

/-- No part of a read changes a register. -/
theorem regs_writeReadOps (reg : Byte) (readSize j : Nat) :
    (exec (regBus deviceAddress) d ((selectOps deviceAddress reg ++
      (readOps readSize ++ [Op.stop])).take j)).state.regs = d.regs := by
  have first := @regs_selectOps deviceAddress d reg j
  rw [List.take_append]
  by_cases failed : (exec (regBus deviceAddress) d
      ((selectOps deviceAddress reg).take j)).fault = none
  · rw [exec_append_none _ failed]
    refine @exec_invariant _ _ _ _ (fun d' : RegDevice => d'.regs = d.regs) _ ?_ first
    intro d' op mem same
    obtain reads | stops := List.mem_append.1 (List.mem_of_mem_take mem)
    · cases op with
      | read ackVal => exact (regBus_read d' ackVal).trans same
      | _ => exact absurd (isRead_readOps reads) (by nofun)
    · rw [List.mem_singleton.1 stops]
      exact same
  · rw [exec_append_fault _ failed]
    exact first

def storeOps (deviceAddress reg data : Byte) : List (Op Byte) :=
  [.start, .write (addressWrite deviceAddress) true, .write reg true, .write data true, .stop]

theorem ops_writeCmds (deviceAddress reg data : Byte) :
    (writeCmds deviceAddress [reg, data]).flatMap I2cCmd.ops = storeOps deviceAddress reg data :=
  rfl

theorem exec_storeOps (reg data : Byte) :
    exec (regBus deviceAddress) d (storeOps deviceAddress reg data) =
      ⟨⟨Function.update d.regs reg.toNat data, reg.toNat + 1, .idle⟩, [], none⟩ := by
  simp [storeOps, exec, regBus, Op.fault, Op.bytes]

theorem regs_storeOps (reg data : Byte) (j : Nat) :
    (exec (regBus deviceAddress) d ((storeOps deviceAddress reg data).take j)).state.regs = d.regs ∨
    (exec (regBus deviceAddress) d ((storeOps deviceAddress reg data).take j)).state.regs =
      Function.update d.regs reg.toNat data := by
  obtain _ | _ | _ | _ | _ | j := j <;>
    simp [storeOps, exec, regBus, Op.fault, Op.bytes]

end Registers

section Disturbed

variable {trouble : Nat → Option Trouble} {deviceAddress reg : Byte} {readSize : Nat}

/-- The commands of a read of registers, whatever goes wrong on the bus and
whenever the time is over. -/
structure ReadsRegs (trouble : Nat → Option Trouble) (interrupts reg readSize : Nat)
    (o : I2cObj (RegDevice × Nat)) (result : EspErr × I2cObj (RegDevice × Nat)) : Prop where
  regs : result.2.bus.1.regs = o.bus.1.regs
  read : ∃ t : I2cRead, t.err = result.1 ∧
    ∀ i < readSize, result.2.mem i = t.data o.bus.1.regs reg i
  calm : (∀ n, trouble n = none) → readSize + 6 ≤ interrupts → result.1 = espOk

theorem readsRegs (trouble : Nat → Option Trouble) (interrupts : Nat) (deviceAddress reg : Byte)
    (reads : readSize ≠ 0) (o : I2cObj (RegDevice × Nat)) :
    ReadsRegs trouble interrupts reg.toNat readSize o
      (i2cMasterCmdBegin (disturbed (regBus deviceAddress) trouble) interrupts
        (fresh (writeReadCmds deviceAddress [reg] readSize)) o) := by
  have transaction := transaction_writeReadCmds deviceAddress (List.cons_ne_nil reg []) reads
  have ops : linkOps (fresh (writeReadCmds deviceAddress [reg] readSize)) = _ :=
    (linkOps_fresh _).trans (ops_writeReadCmds deviceAddress reg readSize)
  have places : linkPlaces (fresh (writeReadCmds deviceAddress [reg] readSize)) = _ :=
    (linkPlaces_fresh _).trans (places_writeReadCmds deviceAddress reg reads)
  have calmly := @exec_writeReadOps deviceAddress o.bus.1 reg readSize reads
  have upTo := @cmdBegin_bus _ (disturbed (regBus deviceAddress) trouble) _ transaction interrupts o
  have ok := @cmdBegin_ok _ (disturbed (regBus deviceAddress) trouble) _ transaction interrupts o
  have inTime := @cmdBegin_inTime _ (disturbed (regBus deviceAddress) trouble) _ transaction
    interrupts o
  obtain ⟨ret, o', ran⟩ : ∃ ret o', i2cMasterCmdBegin (disturbed (regBus deviceAddress) trouble)
    interrupts (fresh (writeReadCmds deviceAddress [reg] readSize)) o = (ret, o') := ⟨_, _, rfl⟩
  rw [ran, ops] at upTo ok inTime
  rw [places] at ok
  rw [ran]
  refine ⟨?_, ⟨⟨ret, o'.mem⟩, rfl, fun i less => ?_⟩, fun calm enough => ?_⟩
  · obtain ⟨k, state⟩ := upTo
    obtain ⟨j, same⟩ := @exec_disturbed _ _ _ (regBus deviceAddress) trouble o.bus
      ((selectOps deviceAddress reg ++ (readOps readSize ++ [Op.stop])).take k)
    rw [state, same, List.take_take]
    exact regs_writeReadOps reg readSize _
  · unfold I2cRead.data
    split_ifs with went
    · obtain ⟨none, -, mem⟩ := ok went
      have read := (exec_disturbed_none none).2
      rw [calmly] at read
      have filled := stored_range' o.mem 0 ((List.range' reg.toNat readSize).map o.bus.1.regs) i
      rw [List.length_map, List.length_range', Nat.zero_add] at filled
      rw [mem, read, filled]
      simp [List.getD, less]
    · rfl
  · have none := @exec_disturbed_calm _ _ _ (regBus deviceAddress) trouble calm o.bus
      (selectOps deviceAddress reg ++ (readOps readSize ++ [Op.stop]))
    have length : (selectOps deviceAddress reg ++ (readOps readSize ++ [Op.stop])).length =
        readSize + 6 := by
      rw [List.length_append, List.length_append, length_readOps reads, List.length_singleton]
      exact Nat.add_comm 5 (readSize + 1)
    have ret := (inTime (length ▸ enough)).1
    rw [none, calmly] at ret
    exact ret

/-- A read of registers through the driver sends all of its commands, changes no
register, and what it leaves in the buffer are the registers or, where it reports
an error, anything. On a bus without trouble and with time enough it reports none. -/
theorem i2cMasterWriteReadDevice_reads (trouble : Nat → Option Trouble) (interrupts : Nat)
    (deviceAddress reg : Byte) (reads : readSize ≠ 0) (o : I2cObj (RegDevice × Nat)) :
    ∃ result, i2cMasterWriteReadDevice (disturbed (regBus deviceAddress) trouble) interrupts
        deviceAddress [reg] readSize o = some result ∧
      result = i2cMasterCmdBegin (disturbed (regBus deviceAddress) trouble) interrupts
        (fresh (writeReadCmds deviceAddress [reg] readSize)) o ∧
      ReadsRegs trouble interrupts reg.toNat readSize o result :=
  ⟨_, writeReadDevice_eq _ _ _ _ reads o, rfl,
    readsRegs trouble interrupts deviceAddress reg reads o⟩

theorem i2cMasterWriteReadDevice_reads_touch :
    ∃ result, i2cMasterWriteReadDevice (disturbed (regBus ft6336I2cAddr) fun _ => none) 10
        ft6336I2cAddr [ft6336RegXh] 4 (port (⟨fun r => BitVec.ofNat 8 r, 0, .idle⟩, 0)) =
          some result ∧
      result = i2cMasterCmdBegin (disturbed (regBus ft6336I2cAddr) fun _ => none) 10
        (fresh (writeReadCmds ft6336I2cAddr [ft6336RegXh] 4))
        (port (⟨fun r => BitVec.ofNat 8 r, 0, .idle⟩, 0)) ∧
      ReadsRegs (fun _ => none) 10 ft6336RegXh.toNat 4
        (port (⟨fun r => BitVec.ofNat 8 r, 0, .idle⟩, 0)) result :=
  i2cMasterWriteReadDevice_reads (fun _ => none) 10 ft6336I2cAddr ft6336RegXh (by decide) _

/-- A touch reading through the driver is one that the readers of the touch
controller are modelled with. -/
theorem ft6336ReadTouch_driver (trouble : Nat → Option Trouble) (interrupts : Nat)
    (o : I2cObj (RegDevice × Nat)) :
    ∃ t : I2cRead, Lcd.ft6336ReadTouch (i2cMasterCmdBegin
        (disturbed (regBus ft6336I2cAddr) trouble) interrupts
        (ft6336Links i2cCmdLinkCreate).links o).2.mem =
      Lcd.ft6336ReadTouch (t.data o.bus.1.regs Lcd.ft6336RegXh) := by
  obtain ⟨t, -, data⟩ :=
    (readsRegs trouble interrupts ft6336I2cAddr ft6336RegXh (Nat.succ_ne_zero 3) o).read
  refine ⟨t, ?_⟩
  unfold Lcd.ft6336ReadTouch
  have four : ∀ i < 4, (i2cMasterCmdBegin (disturbed (regBus ft6336I2cAddr) trouble) interrupts
      (ft6336Links i2cCmdLinkCreate).links o).2.mem i =
        t.data o.bus.1.regs Lcd.ft6336RegXh i := data
  rw [four 0 (by decide), four 1 (by decide), four 2 (by decide), four 3 (by decide)]

/-- A write of a register takes place or does not, and it has where the driver
reports no error. On a bus without trouble and with time enough it does. -/
theorem i2cMasterWriteToDevice_writes (trouble : Nat → Option Trouble) (interrupts : Nat)
    (deviceAddress reg data : Byte) (o : I2cObj (RegDevice × Nat)) :
    ∃ ret o', i2cMasterWriteToDevice (disturbed (regBus deviceAddress) trouble) interrupts
        deviceAddress [reg, data] o = some (ret, o') ∧
      (o'.bus.1.regs = o.bus.1.regs ∨
        o'.bus.1.regs = Function.update o.bus.1.regs reg.toNat data) ∧
      (ret = espOk → o'.bus.1.regs = Function.update o.bus.1.regs reg.toNat data) ∧
      ((∀ n, trouble n = none) → 5 ≤ interrupts → ret = espOk) := by
  have transaction := transaction_writeCmds deviceAddress (List.cons_ne_nil reg [data])
  have ops : linkOps (fresh (writeCmds deviceAddress [reg, data])) = _ :=
    (linkOps_fresh _).trans (ops_writeCmds deviceAddress reg data)
  have calmly := @exec_storeOps deviceAddress o.bus.1 reg data
  have upTo := @cmdBegin_bus _ (disturbed (regBus deviceAddress) trouble) _ transaction interrupts o
  have ok := @cmdBegin_ok _ (disturbed (regBus deviceAddress) trouble) _ transaction interrupts o
  have inTime := @cmdBegin_inTime _ (disturbed (regBus deviceAddress) trouble) _ transaction
    interrupts o
  obtain ⟨ret, o', ran⟩ : ∃ ret o', i2cMasterCmdBegin (disturbed (regBus deviceAddress) trouble)
    interrupts (fresh (writeCmds deviceAddress [reg, data])) o = (ret, o') := ⟨_, _, rfl⟩
  rw [ran, ops] at upTo ok inTime
  refine ⟨ret, o', ?_, ?_, fun went => ?_, fun calm enough => ?_⟩
  · rw [writeToDevice_eq, ran]
  · obtain ⟨k, state⟩ := upTo
    obtain ⟨j, same⟩ := @exec_disturbed _ _ _ (regBus deviceAddress) trouble o.bus
      ((storeOps deviceAddress reg data).take k)
    rw [state, same, List.take_take]
    exact regs_storeOps reg data _
  · obtain ⟨none, state, -⟩ := ok went
    rw [state, (exec_disturbed_none none).1, calmly]
  · have none := @exec_disturbed_calm _ _ _ (regBus deviceAddress) trouble calm o.bus
      (storeOps deviceAddress reg data)
    have ret := (inTime enough).1
    rw [none, calmly] at ret
    exact ret

end Disturbed

end CameraBoard.I2c
