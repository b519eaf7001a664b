import CameraBoard.Esp

/-! The command links of the I2C driver, and the links that its functions for
whole transfers build in a buffer on their stack. A command that stores what is
read names the place in the caller's buffer. -/
namespace CameraBoard.I2c

inductive I2cCmd where
  | start
  | stop
  | write (data : List Byte) (ackEn : Bool)
  | read (data totalBytes : Nat) (ackVal : Bool)

structure I2cCmdLink where
  cmd : I2cCmd
  bytesUsed : Nat

/-- The size of an `i2c_cmd_link_t`, and of an `i2c_cmd_desc_t`. -/
def cmdLinkSize : Nat := 20
def cmdDescSize : Nat := 20

def i2cTransBufMinimumSize : Nat := cmdDescSize + cmdLinkSize * 8

/-- The links from `head` to `cur`. A descriptor in a buffer of the caller has a
`free_size`; for any other the links come from the heap. -/
structure I2cCmdDesc where
  links : List I2cCmdLink
  freeSize : Option Nat

def i2cCmdLinkCreate : I2cCmdDesc := ⟨[], none⟩

def i2cCmdLinkCreateStatic (size : Nat) : Option I2cCmdDesc :=
  if size ≤ cmdDescSize then none else some ⟨[], some (size - cmdDescSize)⟩

def i2cCmdAllocate (d : I2cCmdDesc) : EspErr × I2cCmdDesc :=
  match d.freeSize with
  | none => (espOk, d)
  | some freeSize =>
    if freeSize < cmdLinkSize then (espErrNoMem, d)
    else (espOk, { d with freeSize := some (freeSize - cmdLinkSize) })

def i2cCmdLinkAppend (cmd : I2cCmd) (d : I2cCmdDesc) : EspErr × I2cCmdDesc :=
  let (err, d) := i2cCmdAllocate d
  if err ≠ espOk then (err, d) else (err, { d with links := d.links ++ [⟨cmd, 0⟩] })

def i2cMasterStart (d : I2cCmdDesc) : EspErr × I2cCmdDesc := i2cCmdLinkAppend .start d

def i2cMasterStop (d : I2cCmdDesc) : EspErr × I2cCmdDesc := i2cCmdLinkAppend .stop d

def i2cMasterWriteByte (data : Byte) (ackEn : Bool) (d : I2cCmdDesc) : EspErr × I2cCmdDesc :=
  i2cCmdLinkAppend (.write [data] ackEn) d

def i2cMasterWrite (data : List Byte) (ackEn : Bool) (d : I2cCmdDesc) : EspErr × I2cCmdDesc :=
  match data with
  | [byte] => i2cMasterWriteByte byte ackEn d
  | data => i2cCmdLinkAppend (.write data ackEn) d

inductive I2cAckType where
  | masterAck
  | masterNack
  | masterLastNack

/-- `ack & 0x1`. -/
def I2cAckType.bit : I2cAckType → Bool
  | .masterNack => true
  | _ => false

def i2cMasterReadStatic (data dataLen : Nat) (ack : I2cAckType) (d : I2cCmdDesc) :
    EspErr × I2cCmdDesc :=
  i2cCmdLinkAppend (.read data dataLen ack.bit) d

def i2cMasterReadByte (data : Nat) (ack : I2cAckType) (d : I2cCmdDesc) : EspErr × I2cCmdDesc :=
  let ackVal := match ack with
    | .masterLastNack => I2cAckType.masterNack.bit
    | ack => ack.bit
  i2cCmdLinkAppend (.read data 1 ackVal) d

/-- Only the last byte is not acknowledged, so that it takes a command of its own. -/
def i2cMasterRead (data dataLen : Nat) (ack : I2cAckType) (d : I2cCmdDesc) :
    EspErr × I2cCmdDesc :=
  if dataLen = 0 then (espErrInvalidArg, d)
  else match ack with
    | .masterLastNack =>
      if dataLen = 1 then i2cMasterReadByte data .masterNack d
      else
        let (ret, d) := i2cMasterReadStatic data (dataLen - 1) .masterAck d
        if ret = espOk then i2cMasterReadByte (data + dataLen - 1) .masterNack d else (ret, d)
    | ack => i2cMasterReadStatic data dataLen ack d

/-- `goto end` on an error. -/
def orEnd (r : EspErr × I2cCmdDesc) (next : I2cCmdDesc → EspErr × I2cCmdDesc) :
    EspErr × I2cCmdDesc :=
  if r.1 ≠ espOk then r else next r.2

/-- `device_address << 1 | I2C_MASTER_WRITE`, and with `I2C_MASTER_READ`. -/
def addressWrite (deviceAddress : Byte) : Byte := deviceAddress <<< 1

def addressRead (deviceAddress : Byte) : Byte := deviceAddress <<< 1 ||| 1

/-- The links of `i2c_master_write_to_device`. What the stop returns is dropped. -/
def writeToDeviceLinks (deviceAddress : Byte) (writeBuffer : List Byte) (d : I2cCmdDesc) :
    EspErr × I2cCmdDesc :=
  orEnd (i2cMasterStart d) fun d =>
  orEnd (i2cMasterWriteByte (addressWrite deviceAddress) true d) fun d =>
  orEnd (i2cMasterWrite writeBuffer true d) fun d =>
  (espOk, (i2cMasterStop d).2)

def writeReadDeviceLinks (deviceAddress : Byte) (writeBuffer : List Byte) (readSize : Nat)
    (d : I2cCmdDesc) : EspErr × I2cCmdDesc :=
  orEnd (i2cMasterStart d) fun d =>
  orEnd (i2cMasterWriteByte (addressWrite deviceAddress) true d) fun d =>
  orEnd (i2cMasterWrite writeBuffer true d) fun d =>
  orEnd (i2cMasterStart d) fun d =>
  orEnd (i2cMasterWriteByte (addressRead deviceAddress) true d) fun d =>
  orEnd (i2cMasterRead 0 readSize .masterLastNack d) fun d =>
  (espOk, (i2cMasterStop d).2)

def ft6336I2cAddr : Byte := 0x38
def ft6336RegXh : Byte := 0x03

/-- The links of `ft6336_read_touch`, which looks at no result. -/
def ft6336Links (d : I2cCmdDesc) : I2cCmdDesc :=
  let d := (i2cMasterStart d).2
  let d := (i2cMasterWriteByte (addressWrite ft6336I2cAddr) true d).2
  let d := (i2cMasterWriteByte ft6336RegXh true d).2
  let d := (i2cMasterStart d).2
  let d := (i2cMasterWriteByte (addressRead ft6336I2cAddr) true d).2
  let d := (i2cMasterRead 0 4 .masterLastNack d).2
  (i2cMasterStop d).2

/-- There is space for `n` more links. -/
def I2cCmdDesc.Room (d : I2cCmdDesc) (n : Nat) : Prop := ∀ size ∈ d.freeSize, cmdLinkSize * n ≤ size

def I2cCmdDesc.push (d : I2cCmdDesc) (cmd : I2cCmd) : I2cCmdDesc :=
  ⟨d.links ++ [⟨cmd, 0⟩], d.freeSize.map (· - cmdLinkSize)⟩

section Append

variable {d : I2cCmdDesc} {n : Nat}

theorem room_push (cmd : I2cCmd) (h : d.Room (n + 1)) : (d.push cmd).Room n := by
  unfold I2cCmdDesc.Room I2cCmdDesc.push
  intro size mem
  obtain ⟨size', mem', rfl⟩ := Option.map_eq_some_iff.1 mem
  have large := h size' mem'
  rw [Nat.mul_succ] at large
  omega

theorem append_eq (cmd : I2cCmd) (h : d.Room (n + 1)) :
    i2cCmdLinkAppend cmd d = (espOk, d.push cmd) := by
  obtain ⟨links, freeSize⟩ := d
  unfold i2cCmdLinkAppend i2cCmdAllocate I2cCmdDesc.push
  cases freeSize with
  | none => simp
  | some size =>
    have large := h size rfl
    rw [Nat.mul_succ] at large
    have enough : ¬ size < cmdLinkSize := by omega
    simp [enough]

theorem write_eq (data : List Byte) (ackEn : Bool) (h : d.Room (n + 1)) :
    i2cMasterWrite data ackEn d = (espOk, d.push (.write data ackEn)) := by
  unfold i2cMasterWrite i2cMasterWriteByte
  split
  · exact append_eq _ h
  · exact append_eq _ h

theorem orEnd_ok (d : I2cCmdDesc) (next : I2cCmdDesc → EspErr × I2cCmdDesc) :
    orEnd (espOk, d) next = next d := by
  unfold orEnd
  rw [if_neg (not_not_intro rfl)]

/-- The commands that read `dataLen` bytes and acknowledge all but the last. -/
def lastNack (data dataLen : Nat) : List I2cCmd :=
  if dataLen = 1 then [.read data 1 true]
  else [.read data (dataLen - 1) false, .read (data + dataLen - 1) 1 true]

def I2cCmdDesc.pushes (d : I2cCmdDesc) (cmds : List I2cCmd) : I2cCmdDesc :=
  cmds.foldl I2cCmdDesc.push d

theorem room_pushes (cmds : List I2cCmd) (h : d.Room (n + cmds.length)) :
    (d.pushes cmds).Room n := by
  induction cmds generalizing d with
  | nil => exact h
  | cons cmd cmds ih => exact ih (room_push cmd h)

theorem links_pushes (d : I2cCmdDesc) (cmds : List I2cCmd) :
    (d.pushes cmds).links = d.links ++ cmds.map fun cmd => ⟨cmd, 0⟩ := by
  induction cmds generalizing d with
  | nil => simp [I2cCmdDesc.pushes]
  | cons cmd cmds ih =>
    unfold I2cCmdDesc.pushes at ih ⊢
    rw [List.foldl_cons, ih]
    simp [I2cCmdDesc.push]

theorem room_mono {m : Nat} (less : m ≤ n) (h : d.Room n) : d.Room m :=
  fun size mem => Nat.le_trans (Nat.mul_le_mul_left _ less) (h size mem)

theorem read_eq {data dataLen : Nat} (some : dataLen ≠ 0) (h : d.Room (n + 2)) :
    i2cMasterRead data dataLen .masterLastNack d = (espOk, d.pushes (lastNack data dataLen)) := by
  have one : d.Room (0 + 1) := room_mono (by omega) h
  unfold i2cMasterRead lastNack i2cMasterReadByte i2cMasterReadStatic
  rw [if_neg some]
  split_ifs with last
  · exact append_eq _ one
  · rw [append_eq _ h]
    exact append_eq _ (room_push _ h)

end Append

section Whole

variable {d : I2cCmdDesc} {readSize : Nat}

theorem length_lastNack_le (data dataLen : Nat) : (lastNack data dataLen).length ≤ 2 := by
  unfold lastNack
  split_ifs
  · exact Nat.le_succ 1
  · exact Nat.le_refl 2

theorem writeToDeviceLinks_eq (deviceAddress : Byte) (writeBuffer : List Byte) (h : d.Room 4) :
    writeToDeviceLinks deviceAddress writeBuffer d =
      (espOk, d.pushes [.start, .write [addressWrite deviceAddress] true,
        .write writeBuffer true, .stop]) := by
  have h3 := room_push .start h
  have h2 := room_push (.write [addressWrite deviceAddress] true) h3
  have h1 := room_push (.write writeBuffer true) h2
  unfold writeToDeviceLinks i2cMasterStart i2cMasterStop i2cMasterWriteByte
  rw [append_eq _ h, orEnd_ok, append_eq _ h3, orEnd_ok, write_eq _ _ h2, orEnd_ok, append_eq _ h1]
  rfl

theorem writeReadDeviceLinks_eq (deviceAddress : Byte) (writeBuffer : List Byte)
    (some : readSize ≠ 0) (h : d.Room 8) :
    writeReadDeviceLinks deviceAddress writeBuffer readSize d =
      (espOk, d.pushes ([.start, .write [addressWrite deviceAddress] true, .write writeBuffer true,
        .start, .write [addressRead deviceAddress] true] ++ lastNack 0 readSize ++ [.stop])) := by
  have h7 := room_push .start h
  have h6 := room_push (.write [addressWrite deviceAddress] true) h7
  have h5 := room_push (.write writeBuffer true) h6
  have h4 := room_push .start h5
  have h3 := room_push (.write [addressRead deviceAddress] true) h4
  have h1 := room_pushes (lastNack 0 readSize)
    (room_mono (Nat.add_le_add_left (length_lastNack_le 0 readSize) 1) h3)
  unfold writeReadDeviceLinks i2cMasterStart i2cMasterStop i2cMasterWriteByte
  rw [append_eq _ h, orEnd_ok, append_eq _ h7, orEnd_ok, write_eq _ _ h6, orEnd_ok,
    append_eq _ h5, orEnd_ok, append_eq _ h4, orEnd_ok, read_eq some h3, orEnd_ok, append_eq _ h1]
  simp only [I2cCmdDesc.pushes, List.foldl_append, List.foldl_cons, List.foldl_nil]

/-- The touch reading, whose links come from the heap, is a transfer to the
controller at its address. -/
theorem ft6336Links_eq :
    ft6336Links i2cCmdLinkCreate =
      (writeReadDeviceLinks ft6336I2cAddr [ft6336RegXh] 4 i2cCmdLinkCreate).2 := rfl

end Whole

end CameraBoard.I2c
