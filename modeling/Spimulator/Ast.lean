import Spimulator.Machine

/-! What the scanner hands to the parser and the tree that the parser builds: the lexemes of a
source file, the tokens of tokens.h, and the nodes of ast.h. -/
namespace Spimulator

/-! Tokens. -/

/-- The directives of opcodes.h; those that the parser reports as not supported are one. -/
inductive Directive
  | data | kData | text | kText | globl | word | half | byte | ascii | asciiz | float | double
  | space | align | comm | extern_ | err
  -- the rest of the line is swallowed
  | metadata
  | unsupported
  deriving DecidableEq, Repr

inductive PseudoOp
  | abs | b | bal | beqz | bge | bgeu | bgt | bgtu | ble | bleu | blt | bltu | bnez | ld_ | ls_
  | la | ld | li | liD | liS | mfc1D | move | mtc1D | mulo | mulou | neg | negu | nop | not | rem
  | remu | rol | ror | sd_ | ss_ | sd | seq | sge | sgeu | sgt | sgtu | sle | sleu | sne | ulh
  | ulhu | ulw | ush | usw
  deriving DecidableEq, Repr

inductive Keyword
  | op (op : Opcode)
  | pseudo (p : PseudoOp)
  | dir (d : Directive)
  deriving DecidableEq, Repr

/-- A lexeme of the source. An identifier comes with the keyword it spells, if any, and `$name`
that is no register with its name. A line ends at a newline, a semicolon or a bad character. -/
inductive Lexeme
  | int (v : Word)
  | fp (v : BitVec 64)
  | ident (name : String) (keyword : Option Keyword)
  | reg (n : Word)
  | fpReg (n : Word)
  | dollar (name : String)
  | question
  | str (bytes : List Byte)
  | punct (c : Char)
  | nl
  deriving DecidableEq, Repr

inductive Token
  | int (v : Word)
  | fp (v : BitVec 64)
  | id (name : String)
  | reg (n : Word)
  | fpReg (n : Word)
  | str (bytes : List Byte)
  | punct (c : Char)
  | keyword (k : Keyword)
  | nl
  | eof
  deriving DecidableEq, Repr

/-! Nodes. -/

/-- The instruction nodes; their fields are C ints. -/
inductive InstNode
  | r (op : Opcode) (rd rs rt : Word)
  | rShift (op : Opcode) (rd rt shamt : Word)
  | i (op : Opcode) (rt rs : Word) (imm : ImmExpr)
  | j (op : Opcode) (target : ImmExpr)
  | fpR (op : Opcode) (fd fs ft : Word)
  | fpCompare (op : Opcode) (fs ft cc : Word)
  deriving DecidableEq, Repr

inductive DataIntKind
  | byte | half | word
  deriving DecidableEq, Repr

inductive DataFpKind
  | float | double
  deriving DecidableEq, Repr

inductive DirSegKind
  | text | data | kText | kData
  deriving DecidableEq, Repr

/-- The children of a file's root. A pseudo-op holds the instructions it expanded to. -/
inductive AstNode
  | inst (i : InstNode)
  | pseudo (children : List InstNode)
  | dataInt (kind : DataIntKind) (exprs : List ImmExpr)
  | dataFp (kind : DataFpKind) (values : List (BitVec 64))
  | dataString (bytes : List Byte) (nullTerminate : Bool)
  | dirSeg (kind : DirSegKind) (startAddr : Option Word)
  | dirAlign (n : Word)
  | dirSpace (size : Word)
  | dirGlobl (name : String)
  | dirExtern (name : String) (size : Word)
  | dirComm (name : String) (size : Word)
  | labelNormal (name : String)
  | labelConst (name : String) (value : Word)
  deriving DecidableEq, Repr

namespace AstNode

/-- The names that a node defines when it is emitted. -/
def defines : AstNode → List String
  | dirExtern name _ | dirComm name _ | labelNormal name | labelConst name _ => [name]
  | _ => []

/-- The names that a node declares global. -/
def globals : AstNode → List String
  | dirGlobl name | dirExtern name _ => [name]
  | _ => []

/-- emit_ast keeps the labels of the current line pending after these nodes. -/
def keepsLabels : AstNode → Bool
  | labelNormal _ | labelConst _ _ | dirGlobl _ => true
  | _ => false

end AstNode

/-- A node in a tree, with its allocation number. -/
abbrev NodeRef := ℕ

end Spimulator
