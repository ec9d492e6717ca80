import Spimulator.Memory

/-! Breakpoints of instruction.c and spim-utils.c, and the effects of printing instructions. -/
namespace Spimulator

def instIsBreakpoint (tbl : AOpcodeTbl) (addr : Word) : Exec Bool := do
  let r ← memReadInst tbl addr
  pure (r = some breakInst)

/-- The old instruction, unless the breakpoint cannot be set. -/
def setBreakpoint (tbl : AOpcodeTbl) (addr : Word) : Exec (Option InstRef) := do
  modify fun m => { m with exceptionOccurred := false }
  let old ← memReadInst tbl addr
  if old = some breakInst then pure none
  else
    memWriteInst tbl addr (some breakInst)
    let m ← get
    pure (if m.exceptionOccurred then none else old)

def addBreakpoint (tbl : AOpcodeTbl) (addr : Word) : Exec Unit := do
  let old ← setBreakpoint tbl addr
  match old with
  | none => pure ()
  | some r => modify fun m => { m with bkpts := (addr, r) :: m.bkpts }

/-- Writing back the instructions of some records, in the order of the list. -/
def restoreInsts (tbl : AOpcodeTbl) (addr : Word) : List (Word × InstRef) → Exec Unit
  | [] => pure ()
  | b :: bs => do
    memWriteInst tbl addr (some b.2)
    restoreInsts tbl addr bs

def deleteBreakpoint (tbl : AOpcodeTbl) (addr : Word) : Exec Unit := do
  let m ← get
  restoreInsts tbl addr (m.bkpts.filter (fun b => b.1 = addr))
  modify fun m => { m with bkpts := m.bkpts.filter (fun b => b.1 ≠ addr) }

/-! Printing instructions. The text itself is not part of the state. -/

/-- format_an_inst takes a breakpoint out while it prints the instruction under it, and calls
itself again; each call removes a record, so that without one the calls never end. -/
def formatAnInst (tbl : AOpcodeTbl) (addr : Word) : ℕ → Exec Unit
  | 0 => throw .hostStack
  | n+1 => do
    if addr = 0 then pure ()
    else
      let b ← instIsBreakpoint tbl addr
      if b then
        deleteBreakpoint tbl addr
        let _ ← memReadInst tbl addr
        formatAnInst tbl addr n
        addBreakpoint tbl addr
      else pure ()

def formatInst (tbl : AOpcodeTbl) (addr : Word) : Exec Unit := do
  let m ← get
  formatAnInst tbl addr (m.bkpts.length + 2)

/-- inst_to_string clears the exception flag before it fetches the instruction. -/
def instToString (tbl : AOpcodeTbl) (addr : Word) : Exec Unit := do
  modify fun m => { m with exceptionOccurred := false }
  let _ ← memReadInst tbl addr
  let m ← get
  if m.exceptionOccurred then pure () else formatInst tbl addr

def printInst (tbl : AOpcodeTbl) (addr : Word) : Exec Unit := instToString tbl addr

/-- The instructions at `n` successive addresses. -/
def formatInsts (tbl : AOpcodeTbl) : ℕ → Word → Exec Unit
  | 0, _ => pure ()
  | n+1, addr => do
    let r ← memReadInst tbl addr
    match r with
    | none => pure ()
    | some _ => formatInst tbl addr
    formatInsts tbl n (addr + 4)

/-- The listing of the user text segment. -/
def printTextListing (tbl : AOpcodeTbl) : Exec Unit := do
  let m ← get
  formatInsts tbl ((m.textTop.toNat - textBot.toNat + 3) / 4) textBot

end Spimulator
