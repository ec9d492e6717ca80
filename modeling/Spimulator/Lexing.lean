import Spimulator.Ast
import Spimulator.Syscall

/-! scanner.c below its tokens: the line buffer and the lexemes that are read from it. -/
namespace Spimulator

/-! Characters. -/

def ch (c : Char) : Byte := BitVec.ofNat 8 c.toNat

def isAlpha (c : Byte) : Bool := (ch 'A' ≤ c && c ≤ ch 'Z') || (ch 'a' ≤ c && c ≤ ch 'z')
def isAlnum (c : Byte) : Bool := isDigit c || isAlpha c
def isXDigit (c : Byte) : Bool :=
  isDigit c || (ch 'A' ≤ c && c ≤ ch 'F') || (ch 'a' ≤ c && c ≤ ch 'f')
def isOctal (c : Byte) : Bool := ch '0' ≤ c && c ≤ ch '7'

/-- The value of a decimal or hexadecimal digit. -/
def digitValue (c : Byte) : ℕ :=
  if c ≤ ch '9' then c.toNat - 0x30
  else if c ≤ ch 'F' then c.toNat - 0x41 + 10
  else c.toNat - 0x61 + 10

/-- What strlen and strdup see of characters in memory. -/
def cString (l : List Byte) : List Byte := l.takeWhile (· ≠ 0)

def nameOf (l : List Byte) : String := String.ofList (l.map fun c => Char.ofNat c.toNat)

/-- What the scanner looks up or has computed: the keywords of opcodes.h, and atof. -/
structure Lexicon where
  keyword : String → Option Keyword := fun _ => none
  atof : List Byte → BitVec 64 := fun _ => 0

/-- The messages of the scanner. -/
inductive ScanError
  | badHexInChar | badEscapeInChar (c : Byte)
  | badOctalInString | badHexInString
  | unknownCharacter (c : Byte)
  deriving DecidableEq, Repr

/-- A lexeme, the messages about it, and what is left of the line. -/
structure Scanned where
  lexeme : Lexeme
  errors : List ScanError := []
  rest : List Byte
  deriving DecidableEq, Repr

/-! Numbers. -/

/-- The optional exponent of a floating-point literal. -/
def exponentLength : List Byte → ℕ
  | [] => 0
  | e :: l =>
    if e = ch 'e' ∨ e = ch 'E' then
      match l with
      | s :: l' =>
        if s = ch '+' ∨ s = ch '-' then 2 + (l'.takeWhile isDigit).length
        else 1 + (l.takeWhile isDigit).length
      | [] => 1
    else 0

/-- scan_fp_check: the length of the floating-point literal at the front, 0 for none. -/
def scanFpCheck (l : List Byte) : ℕ :=
  let whole := l.takeWhile isDigit
  match l.dropWhile isDigit with
  | [] => 0
  | sep :: l' =>
    let fraction := l'.takeWhile isDigit
    if whole ≠ [] ∧ sep ∈ [ch '.', ch ',', ch '\''] ∧ fraction ≠ [] then
      whole.length + 1 + fraction.length + exponentLength (l'.dropWhile isDigit)
    else 0

/-- The first separator becomes a point. -/
def normalizeSeparator : List Byte → List Byte
  | [] => []
  | c :: l => if c = ch ',' ∨ c = ch '\'' then ch '.' :: l else c :: normalizeSeparator l

/-- Multiplication by 1 or by -1. -/
def withSign (negative : Bool) (v : BitVec 64) : BitVec 64 :=
  if negative then v ^^^ BitVec.twoPow 64 63 else v

/-- scan_fp, with its buffer of 64 characters -/
def scanFp (env : Lexicon) (negative : Bool) (n : ℕ) (l : List Byte) : Scanned where
  lexeme := .fp (withSign negative (env.atof (normalizeSeparator ((l.take n).take 63))))
  rest := l.drop n

def hexValue (l : List Byte) : Word :=
  l.foldl (fun v c => v <<< 4 ||| BitVec.ofNat 32 (digitValue c)) 0

def decimalValue (l : List Byte) : Word :=
  l.foldl (fun v c => v * 10 + BitVec.ofNat 32 (digitValue c)) 0

def scanInt (negative : Bool) (l : List Byte) : Scanned :=
  let sign (v : Word) := if negative then -v else v
  match l with
  | z :: x :: l' =>
    if z = ch '0' ∧ (x = ch 'x' ∨ x = ch 'X') then
      { lexeme := .int (sign (hexValue (l'.takeWhile isXDigit))), rest := l'.dropWhile isXDigit }
    else { lexeme := .int (sign (decimalValue (l.takeWhile isDigit))), rest := l.dropWhile isDigit }
  | _ => { lexeme := .int (sign (decimalValue (l.takeWhile isDigit))), rest := l.dropWhile isDigit }

/-- A number with its sign taken away. -/
def scanNumber (env : Lexicon) (negative : Bool) (l : List Byte) : Scanned :=
  let n := scanFpCheck l
  if 0 < n then scanFp env negative n l else scanInt negative l

/-! Characters and strings. -/

def hexDigits (hi lo : Byte) : ℕ :=
  (if isXDigit hi then digitValue hi * 16 else 0) + if isXDigit lo then digitValue lo else 0

/-- scan_escape_char at the character after the backslash, with the memory that follows. -/
def scanEscapeChar (p : List Byte) : Word × ℕ × List ScanError :=
  let first := p.headD 0
  if first = ch 'a' then (7, 1, [])
  else if first = ch 'b' then (8, 1, [])
  else if first = ch 'f' then (12, 1, [])
  else if first = ch 'n' then (10, 1, [])
  else if first = ch 'r' then (13, 1, [])
  else if first = ch 't' then (9, 1, [])
  else if first = ch '\\' ∨ first = ch '"' ∨ first = ch '\'' then (first.setWidth 32, 1, [])
  else if first = ch 'X' ∨ first = ch 'x' then
    let hi := p.getD 1 0
    let lo := p.getD 2 0
    (BitVec.ofNat 32 (hexDigits hi lo), 3,
      (if isXDigit hi then [] else [.badHexInChar]) ++ if isXDigit lo then [] else [.badHexInChar])
  else (0, 1, [.badEscapeInChar first])

/-- A closing quote is skipped if there is one. -/
def skipQuote (quote : Byte) : List Byte → List Byte
  | [] => []
  | c :: l => if c = quote then l else c :: l

/-- scan_char after the opening quote. An escape at the end of the buffer is read from what is in
memory there. -/
def scanChar (memory : List Byte) (l : List Byte) : Scanned :=
  match l with
  | [] => { lexeme := .int 0, rest := [] }
  | c :: l =>
    if c = ch '\\' then
      let v := scanEscapeChar (l ++ memory)
      { lexeme := .int v.1, errors := v.2.2, rest := skipQuote (ch '\'') (l.drop v.2.1) }
    else { lexeme := .int (c.setWidth 32), rest := skipQuote (ch '\'') l }

/-- A decoded byte, with the messages about it, before the others. -/
def decoded (b : Byte) (errors : List ScanError) (rest : List Byte × List ScanError) :
    List Byte × List ScanError := (b :: rest.1, errors ++ rest.2)

/-- The byte of an octal escape. -/
def octalByte (n c₂ c₃ : Byte) : Byte :=
  BitVec.ofNat 8 ((n.toNat - 0x30) * 64 + (if isOctal c₂ then (c₂.toNat - 0x30) * 8 else 0) +
    if isOctal c₃ then c₃.toNat - 0x30 else 0)

/-- An escape of a string, after its backslash: its byte, the messages about it and the number of
its characters. None is a backslash that stands for itself. -/
def stringEscape : List Byte → Option (Byte × List ScanError × ℕ)
  | [] => none
  | n :: s =>
    if n = ch 'n' then some (10, [], 1)
    else if n = ch 't' then some (9, [], 1)
    else if n = ch '"' then some (n, [], 1)
    else if ch '0' ≤ n ∧ n ≤ ch '3' then
      match s with
      | c₂ :: c₃ :: _ => some (octalByte n c₂ c₃,
          (if isOctal c₂ then [] else [.badOctalInString]) ++
            if isOctal c₃ then [] else [.badOctalInString], 3)
      | _ => none
    else if n = ch 'X' then
      match s with
      | c₂ :: c₃ :: _ => some (BitVec.ofNat 8 (hexDigits c₂ c₃),
          (if isXDigit c₂ then [] else [.badHexInString]) ++
            if isXDigit c₃ then [] else [.badHexInString], 3)
      | _ => none
    else none

/-- The loop of decode_string, after some characters that an escape has used. -/
def decodeAfter : ℕ → List Byte → List Byte × List ScanError
  | _, [] => ([], [])
  | k+1, _ :: s => decodeAfter k s
  | 0, c :: s =>
    if c ≠ ch '\\' then decoded c [] (decodeAfter 0 s)
    else
      match stringEscape s with
      | some (b, errors, k) => decoded b errors (decodeAfter k s)
      | none => decoded c [] (decodeAfter 0 s)

def decodeString (s : List Byte) : List Byte × List ScanError := decodeAfter 0 s

/-- The characters up to the closing quote, and what follows them. -/
def stringEnd : List Byte → List Byte × List Byte
  | [] => ([], [])
  | c :: l =>
    if c = ch '"' then ([], c :: l)
    else if c = ch '\\' then
      match l with
      | [] => ([c], [])
      | d :: l' => (c :: d :: (stringEnd l').1, (stringEnd l').2)
    else (c :: (stringEnd l).1, (stringEnd l).2)

/-- scan_string after the opening quote -/
def scanString (l : List Byte) : Scanned :=
  let s := stringEnd l
  let d := decodeString s.1
  { lexeme := .str (cString d.1), errors := d.2, rest := skipQuote (ch '"') s.2 }

/-! Names. -/

def isIdChar (c : Byte) : Bool := c = ch '_' ∨ c = ch '.' ∨ isAlnum c
def isRegChar (c : Byte) : Bool := c = ch '$' ∨ isIdChar c

/-- scan_identifier, with its buffer of 256 characters -/
def scanIdentifierText (env : Lexicon) (l : List Byte) : Scanned :=
  let id := nameOf ((l.takeWhile isIdChar).take 255)
  { lexeme := .ident id (env.keyword id), rest := l.dropWhile isIdChar }

def registerTbl : List (String × Word) :=
  [("a0", 4), ("a1", 5), ("a2", 6), ("a3", 7), ("at", 1), ("fp", 30), ("gp", 28), ("k0", 26),
    ("k1", 27), ("kt0", 26), ("kt1", 27), ("ra", 31), ("s0", 16), ("s1", 17), ("s2", 18),
    ("s3", 19), ("s4", 20), ("s5", 21), ("s6", 22), ("s7", 23), ("s8", 30), ("sp", 29), ("t0", 8),
    ("t1", 9), ("t2", 10), ("t3", 11), ("t4", 12), ("t5", 13), ("t6", 14), ("t7", 15), ("t8", 24),
    ("t9", 25), ("v0", 2), ("v1", 3), ("zero", 0)]

/-- atoi, which does not exceed the largest long -/
def atoi (l : List Byte) : Word :=
  BitVec.ofNat 32 (min ((l.takeWhile isDigit).foldl (fun v c => v * 10 + digitValue c) 0) (2^63 - 1))

/-- register_name_to_number, -1 for a name of no register -/
def registerNameToNumber (l : List Byte) : Word :=
  let c₁ := l.headD 0
  let c₂ := l.getD 1 0
  if isDigit c₁ ∧ (c₂ = 0 ∨ isDigit c₂ ∧ l.getD 2 0 = 0) then atoi l
  else if c₁ = ch 'f' ∧ isDigit c₂ then atoi l.tail
  else (registerTbl.lookup (nameOf l)).getD (-1)

/-- scan_register after the dollar, with its buffer of 64 characters -/
def scanRegister (l : List Byte) : Scanned :=
  let reg := (l.takeWhile isRegChar).take 63
  let n := registerNameToNumber reg
  let lexeme : Lexeme :=
    if n ≠ -1 ∧ reg.headD 0 = ch 'f' ∧ reg.getD 1 0 ≠ ch 'p' then .fpReg n
    else if 0 ≤ n.toInt ∧ n.toInt < 32 then .reg n
    else .dollar (nameOf reg)
  { lexeme := lexeme, rest := l.dropWhile isRegChar }

/-! Tokens. -/

def punctuation : List Char := ['*', '/', ':', '(', ')', '+', '-', '>', '=']

/-- scan_one_token where it has a character. -/
def scanToken (env : Lexicon) (memory : List Byte) (c : Byte) (l : List Byte) : Scanned :=
  if c = ch '\n' ∨ c = ch ';' then { lexeme := .nl, rest := l }
  else if c = ch '-' ∧ isDigit (l.headD 0) then scanNumber env true l
  else if isDigit c then scanNumber env false (c :: l)
  else if c = ch '_' ∨ c = ch '.' ∨ isAlpha c then scanIdentifierText env (c :: l)
  else if c = ch '$' then scanRegister l
  else if c = ch '"' then scanString l
  else if c = ch '\'' then scanChar memory l
  else if c = ch '?' then { lexeme := .question, rest := l }
  else
    match punctuation.find? fun p => c = ch p with
    | some p => { lexeme := .punct p, rest := l }
    | none => { lexeme := .nl, errors := [.unknownCharacter c], rest := l }

/-- White space, commas and a comment. -/
def skipBlanks : List Byte → List Byte
  | [] => []
  | c :: l =>
    if c = ch ' ' ∨ c = ch '\t' ∨ c = ch '\r' ∨ c = ch ',' then skipBlanks l
    else if c = ch '#' then (c :: l).dropWhile (· ≠ ch '\n')
    else c :: l

/-! The line buffer. -/

/-- fgets: at most `n` characters, up to a newline, and what follows them. -/
def fgets : ℕ → List Byte → List Byte × List Byte
  | 0, l => ([], l)
  | _+1, [] => ([], [])
  | n+1, c :: l => if c = ch '\n' then ([c], l) else (c :: (fgets n l).1, (fgets n l).2)

/-- LINE_BUF_MAX -/
def lineBufMax : ℕ := 4096

/-- The input: the rest of the file, and in the line buffer what is left of its line. -/
structure CharScanner where
  file : List Byte
  lineBuf : ℕ → Byte := fun _ => 0
  lineLen : ℕ := 0
  -- from line_pos to line_len
  line : List Byte := []
  atEof : Bool := false
  lineNo : ℕ := 1

namespace CharScanner

def fillLineBuf (max : ℕ) (s : CharScanner) : CharScanner :=
  if s.atEof then s
  else if s.file = [] then { s with atEof := true, lineLen := 0, line := [] }
  else
    let chunk := (fgets (max - 1) s.file).1
    { s with
      file := (fgets (max - 1) s.file).2
      lineBuf := fun i => if i < chunk.length then chunk.getD i 0
        else if i = chunk.length then 0 else s.lineBuf i
      lineLen := (cString chunk).length
      line := cString chunk }

/-- The loop of scan_one_token over blanks. No line is left at the end of the file. -/
def findChar (max : ℕ) : ℕ → CharScanner → CharScanner
  | 0, s => s
  | n+1, s =>
    let s := { s with line := skipBlanks s.line }
    if s.line ≠ [] ∨ s.atEof then s
    else
      let s := s.fillLineBuf max
      if s.atEof then s else s.findChar max n

/-- What scan_escape_char may read of the memory after the line. -/
def beyond (s : CharScanner) : List Byte := [0, s.lineBuf (s.lineLen + 1)]

/-- The next token, none at the end of the file. -/
def scanOneToken (env : Lexicon) (max : ℕ) (s : CharScanner) : Option Scanned × CharScanner :=
  let s := s.findChar max (s.file.length + 1)
  match s.line with
  | [] => (none, s)
  | c :: l =>
    let x := scanToken env s.beyond c l
    (some x, { s with
      line := x.rest, lineNo := if c = ch '\n' then s.lineNo + 1 else s.lineNo })

/-- The lexemes, each with the line number after it. -/
def lexemes (env : Lexicon) (max : ℕ) : ℕ → CharScanner → List (Lexeme × ℕ)
  | 0, _ => []
  | n+1, s =>
    match s.scanOneToken env max with
    | (none, _) => []
    | (some x, s') => (x.lexeme, s'.lineNo) :: lexemes env max n s'

end CharScanner
end Spimulator
