import Spimulator.Library.ByteStore
import Spimulator.Exception

/-! memory.c: the segments, their expansion, and the accessors with their handling of the
infrequent and erroneous cases. -/
namespace Spimulator
open ByteStore Frame

/-! Widths of data accesses. -/

inductive Width
  | byte | half | word
  deriving DecidableEq, Repr

namespace Width

def bytes : Width → ℕ
  | byte => 1
  | half => 2
  | word => 4

def mask : Width → Word
  | byte => 0
  | half => 1
  | word => 3

/-- The element of a segment at a byte offset: the segment indexed at its own width. -/
def fetch (w : Width) (seg : Store) (off : ℕ) : Word :=
  (readLE w.bytes seg (w.bytes * (off / w.bytes))).signExtend 32

def store (w : Width) (seg : Store) (off : ℕ) (value : Word) : Store :=
  writeLE w.bytes seg (w.bytes * (off / w.bytes)) (value.setWidth _)

end Width

/-! Expansion of segments. -/

def roundUp (v : ℤ) : ℤ := (v+3) / 4 * 4

/-- An int of the host; sums that the code does not check wrap around. -/
def hostInt (v : ℤ) : ℤ := (BitVec.ofInt 32 v).toInt

lemma hostInt_of_lt {v : ℤ} (h : -2^31 ≤ v) (h' : v < 2^31) : hostInt v = v :=
  BitVec.toInt_ofInt_eq_self (by decide) h h'

lemma hostInt_add_hostInt (v w : ℤ) : hostInt (v + hostInt w) = hostInt (v + w) := by
  unfold hostInt
  rw [BitVec.ofInt_add, BitVec.ofInt_toInt, ← BitVec.ofInt_add]

/-- make_memory. The instruction records of the old text are freed. -/
def makeMemory (textSize dataSize : ℕ) (dataLimit : ℤ) (stackSize : ℕ) (stackLimit : ℤ)
    (kTextSize kDataSize : ℕ) (m : Machine) : Machine :=
  let dataSize := if dataSize ≤ 65536 then 65536 else dataSize
  { m with
    textSeg := fun _ => none
    textTop := textBot + BitVec.ofNat 32 textSize
    dataSeg := fun _ => 0
    dataTop := dataBot + BitVec.ofInt 32 (roundUp dataSize)
    dataSizeLimit := dataLimit
    stackSeg := fun _ => 0
    stackBot := stackTop - BitVec.ofInt 32 (roundUp stackSize)
    stackSizeLimit := stackLimit
    kTextSeg := fun _ => none
    kTextTop := kTextBot + BitVec.ofNat 32 kTextSize
    kDataSeg := fun _ => 0
    kDataTop := kDataBot + BitVec.ofInt 32 (roundUp kDataSize) }

/-- A negative size is that of a block which no host has; that is fatal. -/
def expandData (addlBytes : ℤ) : Exec Unit := do
  let m ← get
  let delta := hostInt (roundUp addlBytes)
  let oldSize := (m.dataTop - dataBot).toInt
  let newSize := hostInt (oldSize + delta)
  if addlBytes < 0 ∨ newSize > m.dataSizeLimit then throw (.expandData addlBytes newSize)
  else if newSize < 0 then throw .reallocFailed
  else modify fun m =>
    { m with
      dataTop := m.dataTop + BitVec.ofInt 32 delta
      dataSeg := fun i => if oldSize ≤ i ∧ i < newSize then 0 else m.dataSeg i }

/-- Copying the words of the stack into a larger block, and lowering its bottom. -/
def Machine.moveStack (m : Machine) (words shift lowered : ℕ) : Machine :=
  { m with
    stackSeg := copyWords m.stackSeg shift words (fun _ => 0)
    stackBot := m.stackBot - BitVec.ofNat 32 lowered }

def expandStack (addlBytes : ℤ) : Exec Unit := do
  let m ← get
  let delta := hostInt (roundUp addlBytes)
  let oldSize := (stackTop - m.stackBot).toNat
  let newSize := hostInt (oldSize + max delta oldSize)
  if addlBytes < 0 ∨ newSize > m.stackSizeLimit then throw (.expandStack addlBytes newSize)
  else if newSize < 0 then throw .mallocFailed
  else
    set (m.moveStack (oldSize/4) (newSize.toNat/4 - oldSize/4) (newSize.toNat - oldSize))

/-! Memory-mapped IO. -/

def recvCtrlAddr : Word := 0xffff0000
def recvBufferAddr : Word := 0xffff0004
def transCtrlAddr : Word := 0xffff0008
def transBufferAddr : Word := 0xffff000c
def readyBit : Word := 1
def intEnableBit : Word := 2
def recvIntLevel : ℕ := 3
def transIntLevel : ℕ := 2

def readMemoryMappedIO (addr : Word) : Exec Word := do
  let m ← get
  if addr = transCtrlAddr then pure m.transControl
  else if addr = transBufferAddr then pure (m.transBuffer &&& 0xff)
  else if addr = recvCtrlAddr then pure m.recvControl
  else if addr = recvBufferAddr then
    modify fun m =>
      { m with recvControl := m.recvControl &&& ~~~readyBit, recvBufferFullTimer := 0 : Machine
      }.clearInterrupt recvIntLevel
    pure (m.recvBuffer &&& 0xff)
  else throw (.unusedIORead addr)

def writeMemoryMappedIO (addr value : Word) : Exec Unit := do
  let m ← get
  if addr = transCtrlAddr then
    if value &&& intEnableBit ≠ 0 then
      let m := { m with transControl := m.transControl ||| intEnableBit }
      set (if m.transControl &&& readyBit ≠ 0 then m.raiseInterrupt transIntLevel else m)
    else
      set ({ m with transControl := m.transControl &&& ~~~intEnableBit
        }.clearInterrupt transIntLevel)
  else if addr = transBufferAddr then
    if m.transControl &&& readyBit ≠ 0 then
      set ({ m with
        transBuffer := value &&& 0xff
        transControl := m.transControl &&& ~~~readyBit
        transBufferFullTimer := transLatency
        transmitted := value.setWidth 8 :: m.transmitted }.clearInterrupt transIntLevel)
    else pure ()
  else if addr = recvCtrlAddr then
    if value &&& intEnableBit ≠ 0 then
      let m := { m with recvControl := m.recvControl ||| intEnableBit }
      set (if m.recvControl &&& readyBit ≠ 0 then m.raiseInterrupt recvIntLevel else m)
    else
      set ({ m with recvControl := m.recvControl &&& ~~~intEnableBit
        }.clearInterrupt recvIntLevel)
  else if addr = recvBufferAddr then pure ()
  else throw (.unusedIOWrite addr)

/-- A character read from the console. At the end of its input the buffer is left as it was. -/
def getConsoleChar (host : Host) : Exec Byte := do
  let m ← get
  let c := m.consoleIn.headD (host.staleChar m.hostCalls)
  set { m with consoleIn := m.consoleIn.tail, hostCalls := m.hostCalls + 1 }
  if c = 3 then throw .interrupted else pure c

/-- Reading a new character into the receiver's buffer. -/
def receiveChar (host : Host) : Exec Unit := do
  let c ← getConsoleChar host
  modify fun m =>
    let m := { m with
      recvBuffer := c.signExtend 32
      recvControl := m.recvControl ||| readyBit
      recvBufferFullTimer := recvInterval }
    if m.recvControl &&& intEnableBit ≠ 0 then m.raiseInterrupt recvIntLevel else m

/-- The end of the transmitter's latency. -/
def Machine.transmitDone (m : Machine) : Machine :=
  if 0 < m.transBufferFullTimer then
    { m with transBufferFullTimer := m.transBufferFullTimer - 1 }
  else if m.transControl &&& readyBit = 0 then
    let m := { m with transControl := m.transControl ||| readyBit }
    if m.transControl &&& intEnableBit ≠ 0 then m.raiseInterrupt transIntLevel else m
  else m

/-- The polling of the devices every IO_INTERVAL steps. -/
def checkMemoryMappedIO (host : Host) : Exec Unit := do
  let m ← get
  if 0 < m.recvBufferFullTimer then
    set { m with recvBufferFullTimer := m.recvBufferFullTimer - 1 }
  else onlyIf (host.inputAvailable m.hostCalls) (receiveChar host)
  modify Machine.transmitDone

/-! Instructions in memory. -/

namespace Machine

def textIndex (addr : Word) : ℕ := (addr - textBot).toNat / 4
def kTextIndex (addr : Word) : ℕ := (addr - kTextBot).toNat / 4

def inText (m : Machine) (addr : Word) : Prop := textBot ≤ addr ∧ addr < m.textTop
def inKText (m : Machine) (addr : Word) : Prop := kTextBot ≤ addr ∧ addr < m.kTextTop
def inData (m : Machine) (addr : Word) : Prop := dataBot ≤ addr ∧ addr < m.dataTop
def inStack (m : Machine) (addr : Word) : Prop := m.stackBot ≤ addr ∧ addr < stackTop
def inKData (m : Machine) (addr : Word) : Prop := kDataBot ≤ addr ∧ addr < m.kDataTop

instance (m : Machine) (addr : Word) : Decidable (m.inText addr) :=
  inferInstanceAs (Decidable (_ ∧ _))
instance (m : Machine) (addr : Word) : Decidable (m.inKText addr) :=
  inferInstanceAs (Decidable (_ ∧ _))
instance (m : Machine) (addr : Word) : Decidable (m.inData addr) :=
  inferInstanceAs (Decidable (_ ∧ _))
instance (m : Machine) (addr : Word) : Decidable (m.inStack addr) :=
  inferInstanceAs (Decidable (_ ∧ _))
instance (m : Machine) (addr : Word) : Decidable (m.inKData addr) :=
  inferInstanceAs (Decidable (_ ∧ _))

/-- Below the stack by less than 16 MB and above the data segment. -/
def belowStack (m : Machine) (addr : Word) : Prop :=
  m.dataTop < addr ∧ addr < m.stackBot ∧ m.stackBot - 0x1000000 < addr

instance (m : Machine) (addr : Word) : Decidable (m.belowStack addr) :=
  inferInstanceAs (Decidable (_ ∧ _ ∧ _))

def setText (m : Machine) (i : ℕ) (r : Option InstRef) : Machine :=
  { m with textSeg := Function.update m.textSeg i r }
def setKText (m : Machine) (i : ℕ) (r : Option InstRef) : Machine :=
  { m with kTextSeg := Function.update m.kTextSeg i r }

def storeData (m : Machine) (w : Width) (addr value : Word) : Machine :=
  { m with dataSeg := w.store m.dataSeg (addr - dataBot).toNat value }
def storeStack (m : Machine) (w : Width) (addr value : Word) : Machine :=
  { m with stackSeg := w.store m.stackSeg (addr - m.stackBot).toNat value }
def storeKData (m : Machine) (w : Width) (addr value : Word) : Machine :=
  { m with kDataSeg := w.store m.kDataSeg (addr - kDataBot).toNat value }

/-- A new instruction record. -/
def allocInst (m : Machine) (i : Inst) : InstRef × Machine :=
  (m.nextInst, { m with insts := Function.update m.insts m.nextInst i, nextInst := m.nextInst + 1 })

end Machine

/-- bad_text_read also hands out a fresh invalid instruction. -/
def badTextRead (tbl : AOpcodeTbl) (addr : Word) : Exec (Option InstRef) := do
  modify fun m => m.raiseAddr .ibe addr
  let m ← get
  let (r, m) := m.allocInst (instDecode tbl 0)
  set m
  pure (some r)

def memReadInst (tbl : AOpcodeTbl) (addr : Word) : Exec (Option InstRef) := do
  let m ← get
  if m.inText addr ∧ addr &&& 3 = 0 then pure (m.textSeg (Machine.textIndex addr))
  else if m.inKText addr ∧ addr &&& 3 = 0 then pure (m.kTextSeg (Machine.kTextIndex addr))
  else badTextRead tbl addr

/-! Data in memory. -/

/-- The encoding of the instruction that a byte or half of text belongs to. -/
def textEncoding (addr : Word) : Exec Word := do
  let m ← get
  match m.textSeg (Machine.textIndex addr) with
  | none => throw .nullInstruction
  | some r => pure (m.insts r).encoding

def badMemRead (addr : Word) (w : Width) : Exec Word := do
  let m ← get
  if addr &&& w.mask ≠ 0 then
    modify fun m => m.raiseAddr .adEL addr
    pure 0
  else if m.inText addr then
    match w with
    | .byte =>
      let tmp ← textEncoding addr
      pure (0xff &&& (tmp >>> (8 * (addr &&& 3).toNat)))
    | .half =>
      let tmp ← textEncoding addr
      pure (0xffff &&& (tmp >>> (8 * (addr &&& 2).toNat)))
    | .word =>
      match m.textSeg (Machine.textIndex addr) with
      | none => pure 0
      | some r => pure (m.insts r).encoding
  else if m.belowStack addr then
    expandStack (m.stackBot - addr + 4).toInt
    pure 0
  else if mmIOBot ≤ addr ∧ addr ≤ mmIOTop then readMemoryMappedIO addr
  else
    modify fun m => m.raiseAddr .dbe addr
    pure 0

def memRead (w : Width) (addr : Word) : Exec Word := do
  let m ← get
  if m.inData addr ∧ addr &&& w.mask = 0 then pure (w.fetch m.dataSeg (addr - dataBot).toNat)
  else if m.inStack addr ∧ addr &&& w.mask = 0 then
    pure (w.fetch m.stackSeg (addr - m.stackBot).toNat)
  else if m.inKData addr ∧ addr &&& w.mask = 0 then
    pure (w.fetch m.kDataSeg (addr - kDataBot).toNat)
  else badMemRead addr w

def memReadByte (addr : Word) : Exec Word := memRead .byte addr
def memReadHalf (addr : Word) : Exec Word := memRead .half addr
def memReadWord (addr : Word) : Exec Word := memRead .word addr

/-- The new encoding of an instruction when part of it is overwritten. -/
def patchEncoding (w : Width) (addr old value : Word) : Word :=
  match w with
  | .byte =>
    let sh := 8 * (addr &&& 3).toNat
    (old &&& ~~~(0xff#32 <<< sh)) ||| ((value &&& 0xff) <<< sh)
  | .half =>
    let sh := 8 * (addr &&& 2).toNat
    (old &&& ~~~(0xffff#32 <<< sh)) ||| ((value &&& 0xffff) <<< sh)
  | .word => value

def badMemWrite (tbl : AOpcodeTbl) (addr value : Word) (w : Width) : Exec Unit := do
  let m ← get
  if addr &&& w.mask ≠ 0 then modify fun m => m.raiseAddr .adES addr
  else if m.inText addr then
    let tmp :=
      match m.textSeg (Machine.textIndex addr) with
      | none => if w = .word then value else 0
      | some r => patchEncoding w addr (m.insts r).encoding value
    let (r, m) := m.allocInst (instDecode tbl tmp)
    set (m.setText (Machine.textIndex addr) (some r))
  else if m.belowStack addr then
    expandStack (m.stackBot - addr + 4).toInt
    let m ← get
    if m.stackBot ≤ addr then
      set (m.storeStack w addr value)
    else modify fun m => m.raiseAddr .dbe addr
  else if mmIOBot ≤ addr ∧ addr ≤ mmIOTop then writeMemoryMappedIO addr value
  else modify fun m => m.raiseAddr .dbe addr

def memWrite (tbl : AOpcodeTbl) (w : Width) (addr value : Word) : Exec Unit := do
  let m ← get
  if m.inData addr ∧ addr &&& w.mask = 0 then
    set (m.storeData w addr value)
  else if m.inStack addr ∧ addr &&& w.mask = 0 then
    set (m.storeStack w addr value)
  else if m.inKData addr ∧ addr &&& w.mask = 0 then
    set (m.storeKData w addr value)
  else badMemWrite tbl addr value w

def memWriteByte (tbl : AOpcodeTbl) (addr value : Word) : Exec Unit := memWrite tbl .byte addr value
def memWriteHalf (tbl : AOpcodeTbl) (addr value : Word) : Exec Unit := memWrite tbl .half addr value
def memWriteWord (tbl : AOpcodeTbl) (addr value : Word) : Exec Unit := memWrite tbl .word addr value

/-- bad_text_write stores the encoding as data. -/
def badTextWrite (tbl : AOpcodeTbl) (addr : Word) (instruction : Option InstRef) : Exec Unit := do
  modify fun m => m.raiseAddr .ibe addr
  let m ← get
  match instruction with
  | none => throw .nullInstruction
  | some r => memWriteWord tbl addr (m.insts r).encoding

def memWriteInst (tbl : AOpcodeTbl) (addr : Word) (instruction : Option InstRef) :
    Exec Unit := do
  let m ← get
  if m.inText addr ∧ addr &&& 3 = 0 then set (m.setText (Machine.textIndex addr) instruction)
  else if m.inKText addr ∧ addr &&& 3 = 0 then
    set (m.setKText (Machine.kTextIndex addr) instruction)
  else badTextWrite tbl addr instruction

end Spimulator
