import Spimulator.SymbolTable

/-! scanner.c: tokens, and the buffer of tokens that the parser has looked ahead to. -/
namespace Spimulator
open Frame

/-- check_keyword: pseudo-ops may be switched off. -/
def checkKeyword (env : AsmEnv) : Keyword → Bool
  | .pseudo _ => ¬ env.bareMachine ∧ env.acceptPseudoInsts
  | _ => true

namespace Asm

/-- A name that is no keyword and no register: a defined constant stands for its value. -/
def scanName (s : Asm) (name : String) : Token :=
  match s.labelIsDefined name with
  | some l => if (s.label l).constFlag then .int (s.label l).addr else .id name
  | none => .id name

def scanIdentifier (env : AsmEnv) (s : Asm) (forceId : Bool) (name : String)
    (keyword : Option Keyword) : Token :=
  match keyword with
  | some k => if forceId = false ∧ checkKeyword env k then .keyword k else s.scanName name
  | none => s.scanName name

def scanLexeme (env : AsmEnv) (s : Asm) : Lexeme → Token
  | .int v => .int v
  | .fp v => .fp v
  | .ident name keyword => s.scanIdentifier env s.forceIdNext name keyword
  | .reg n => .reg n
  | .fpReg n => .fpReg n
  | .dollar name => s.scanName name
  | .question => .id "?"
  | .str bytes => .str bytes
  | .punct c => .punct c
  | .nl => .nl

/-- scan_one_token, into the buffer. The flag counts for one token. -/
def scanOneToken (env : AsmEnv) (s : Asm) : Asm :=
  match s.input with
  | [] => { s with tokBuf := s.tokBuf ++ [.eof], forceIdNext := false }
  | x :: rest =>
    { s with
      input := rest
      tokBuf := s.tokBuf ++ [s.scanLexeme env x]
      forceIdNext := false }

def ensureFilled (env : AsmEnv) : ℕ → Asm → Asm
  | 0, s => s
  | n+1, s =>
    let s := s.ensureFilled env n
    if s.tokBuf.length ≤ n then s.scanOneToken env else s

/-- What is left of the input bounds the loops of the parser. -/
def tokensLeft (s : Asm) : ℕ := (s.tokBuf.filter (· ≠ .eof)).length + s.input.length

/-- scanner_init -/
def scannerInit (input : List Lexeme) (s : Asm) : Asm :=
  { s with input := input, tokBuf := [], forceIdNext := false }

end Asm

def scannerForceIdentifier : Assemble Unit := modify fun s => { s with forceIdNext := true }

section

variable (env : AsmEnv)

def scannerPeek : Assemble Token := do
  modify (Asm.ensureFilled env 1)
  let s ← get
  pure (s.tokBuf.headD .eof)

def scannerPeek2 : Assemble Token := do
  modify (Asm.ensureFilled env 2)
  let s ← get
  pure (s.tokBuf.getD 1 .eof)

def scannerAdvance : Assemble Token := do
  let t ← scannerPeek env
  modify fun s => { s with tokBuf := s.tokBuf.tail }
  pure t

/-- The token is consumed if it is of the kind that `f` looks for. -/
def takeToken {α : Type} (f : Token → Option α) : Assemble (Option α) := do
  let t ← scannerPeek env
  match f t with
  | some a => do
    let _ ← scannerAdvance env
    pure (some a)
  | none => pure none

def takePunct (c : Char) : Assemble Bool := do
  let t ← scannerPeek env
  if t = .punct c then
    let _ ← scannerAdvance env
    pure true
  else pure false

end

namespace Token

def asInt : Token → Option Word
  | .int v => some v
  | _ => none

def asFp : Token → Option (BitVec 64)
  | .fp v => some v
  | _ => none

def asId : Token → Option String
  | .id name => some name
  | _ => none

def asReg : Token → Option Word
  | .reg n => some n
  | _ => none

def asFpReg : Token → Option Word
  | .fpReg n => some n
  | _ => none

def asStr : Token → Option (List Byte)
  | .str bytes => some bytes
  | _ => none

/-- The end of a line or of the file. -/
def ends : Token → Bool
  | .nl | .eof => true
  | _ => false

end Token
end Spimulator
