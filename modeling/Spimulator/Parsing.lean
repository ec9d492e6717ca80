import Spimulator.NodeEmission
import Spimulator.ParseProperty

/-! What parsing may change: the scanner and the tree, the entries of new names, and what the
helpers shared with the emission change. -/
namespace Spimulator
open Frame

/-- The relation allows what parsing does besides scanning: changes of the parser's own variables,
a new node, a new name, the use of a symbol that is defined, messages, the alignment of a data
directive, and the clearing of the labels of the line. -/
structure TreeRel (R : Rel Asm) : Prop where
  unresolved : ∀ (s : Asm) o, R.rel s { s with exprUnresolvedLabel := o }
  pseudo : ∀ (s : Asm) p, R.rel s { s with currentPseudo := p }
  append : ∀ (s : Asm) n, n.isSeg = false → R.rel s (s.appendNode n)
  seg : ∀ (s : Asm) kind a, R.rel s (s.parseDirSeg kind a)
  noAlign : ∀ s : Asm, R.rel s { s with autoAlign := false }
  nullTerm : ∀ (s : Asm) b, R.rel s { s with nullTerm := b }
  newLine : ∀ s : Asm, R.rel s { s with parseErrorOccurred := false }
  newLabel : ∀ (s : Asm) name, s.labelIsDefined name = none → R.rel s (s.newLabel name)
  use : ∀ (s : Asm) l, (s.label l).isDefined = true →
    R.rel s (s.log (.used l (s.label l).addr))
  report : ∀ (s : Asm) r, r.isNote = true → R.rel s (s.log (.report r))
  parseError : ∀ (s : Asm) msg,
    R.rel s (Asm.log { s with
      parseErrorOccurred := true
      parseErrorsSeen := s.parseErrorsSeen + 1 } (.report (.parse msg)))
  aligned : ∀ (s : Asm) k, 0 < k → k < 4 → R.rel s (s.parseAligned k)
  clear : ∀ env, Keeps R (clearLabels env)

/-- The relation allows all changes of the scanner too. -/
structure ParseRel (R : Rel Asm) : Prop extends TreeRel R where
  scan : ∀ (s : Asm) i b f, R.rel s { s with input := i, tokBuf := b, forceIdNext := f }

/-- The relation allows a new name, the symbol that an expression leaves open, and a parse error. -/
structure NameRel (R : Rel Asm) : Prop where
  unresolved : ∀ (s : Asm) o, R.rel s { s with exprUnresolvedLabel := o }
  newLabel : ∀ (s : Asm) name, s.labelIsDefined name = none → R.rel s (s.newLabel name)
  parseError : ∀ (s : Asm) msg,
    R.rel s (Asm.log { s with
      parseErrorOccurred := true
      parseErrorsSeen := s.parseErrorsSeen + 1 } (.report (.parse msg)))

/-- The relation allows what reading an operand does after its request for an identifier: also a
token scanned, and one used up. -/
structure ReadRel (env : AsmEnv) (R : Rel Asm) : Prop extends NameRel R where
  scanOne : ∀ s : Asm, R.rel s (s.scanOneToken env)
  drop : ∀ s : Asm, R.rel s { s with tokBuf := s.tokBuf.tail }

/-- The relation allows what parsing an expression does: the steps of the scanner (a token scanned,
one used up, an identifier asked for), the symbol that the expression leaves open, a new name, and
a parse error. -/
structure ExprRel (R : Rel Asm) : Prop where
  scanOne : ∀ env (s : Asm), R.rel s (s.scanOneToken env)
  drop : ∀ s : Asm, R.rel s { s with tokBuf := s.tokBuf.tail }
  force : ∀ s : Asm, R.rel s { s with forceIdNext := true }
  unresolved : ∀ (s : Asm) o, R.rel s { s with exprUnresolvedLabel := o }
  newLabel : ∀ (s : Asm) name, s.labelIsDefined name = none → R.rel s (s.newLabel name)
  parseError : ∀ (s : Asm) msg,
    R.rel s (Asm.log { s with
      parseErrorOccurred := true
      parseErrorsSeen := s.parseErrorsSeen + 1 } (.report (.parse msg)))

/-- The relation allows what parsing does, where of the scanner's changes only its steps are
known. -/
structure TokenRel (R : Rel Asm) : Prop extends TreeRel R, ExprRel R

lemma ParseRel.toTokenRel {R : Rel Asm} (hR : ParseRel R) : TokenRel R :=
  { hR.toTreeRel with
    scanOne := by
      intro env s
      unfold Asm.scanOneToken
      split
      · exact hR.scan s _ _ _
      · exact hR.scan s _ _ _
    drop := fun s => hR.scan s _ _ _
    force := fun s => hR.scan s _ _ true }

namespace NameRel

variable {R : Rel Asm} (hR : NameRel R)

include hR

lemma parseErrorAt (msg : String) : Keeps R (parseErrorAt msg) :=
  fun s => hR.parseError s msg

lemma lookupLabel (name : String) : Keeps R (lookupLabel name) := by
  refine Keeps.get_bind fun s => ?_
  cases h : s.labelIsDefined name with
  | some l => exact KeepsFrom.pure _
  | none => exact KeepsFrom.bind (KeepsFrom.set (hR.newLabel s name h)) fun _ _ _ => KeepsFrom.pure _

lemma makeImmExpr (offs : Word) (sym : Option String) (pc : Bool) :
    Keeps R (makeImmExpr offs sym pc) := by
  cases sym with
  | none => exact Keeps.pure _
  | some name => exact Keeps.bind (hR.lookupLabel name) fun _ => Keeps.pure _

lemma symbolFactor (name : String) : Keeps R (symbolFactor name) := by
  refine Keeps.bind (hR.lookupLabel name) fun l => Keeps.get_bind fun s => ?_
  refine KeepsFrom.ite (fun _ => ?_) fun _ => KeepsFrom.pure _
  exact KeepsFrom.bind (KeepsFrom.set (hR.unresolved s _)) fun _ _ _ => KeepsFrom.pure _

end NameRel

namespace ReadRel

variable {env : AsmEnv} {R : Rel Asm} (hR : ReadRel env R)

include hR

lemma ensureFilled (n : ℕ) (s : Asm) : R.rel s (s.ensureFilled env n) := by
  induction n with
  | zero => exact R.refl s
  | succ n ih =>
    refine R.trans ih ?_
    change R.rel _ (if (s.ensureFilled env n).tokBuf.length ≤ n then _ else _)
    split
    · exact hR.scanOne _
    · exact R.refl _

lemma scannerPeek : Keeps R (scannerPeek env) := by
  refine Keeps.bind (Keeps.modify fun s => hR.ensureFilled 1 s) fun _ => ?_
  exact Keeps.get_bind fun s => KeepsFrom.pure _

lemma scannerPeek2 : Keeps R (scannerPeek2 env) := by
  refine Keeps.bind (Keeps.modify fun s => hR.ensureFilled 2 s) fun _ => ?_
  exact Keeps.get_bind fun s => KeepsFrom.pure _

lemma scannerAdvance : Keeps R (scannerAdvance env) := by
  refine Keeps.bind hR.scannerPeek fun t => ?_
  exact Keeps.bind (Keeps.modify hR.drop) fun _ => Keeps.pure _

lemma takeToken {α : Type} (f : Token → Option α) :
    Keeps R (takeToken env f) := by
  refine Keeps.bind hR.scannerPeek fun t => ?_
  cases f t with
  | none => exact Keeps.pure _
  | some a => exact Keeps.bind hR.scannerAdvance fun _ => Keeps.pure _

lemma takePunct (c : Char) : Keeps R (takePunct env c) := by
  refine Keeps.bind hR.scannerPeek fun t => Keeps.ite (fun _ => ?_) fun _ => Keeps.pure _
  exact Keeps.bind hR.scannerAdvance fun _ => Keeps.pure _

lemma expect (c : Char) (what : String) : Keeps R (expect env c what) :=
  Keeps.bind (hR.takePunct c) fun _ => Keeps.onlyIf (hR.parseErrorAt what)

lemma parseFactor {expr : Assemble Word} (h : Keeps R expr) : Keeps R (parseFactor env expr) := by
  refine Keeps.bind (hR.takeToken _) fun o => ?_
  cases o with
  | some v => exact Keeps.pure _
  | none =>
    refine Keeps.bind (hR.takePunct _) fun b => Keeps.ite (fun _ => ?_) fun _ => ?_
    · exact Keeps.bind h fun _ => Keeps.bind (hR.expect _ _) fun _ => Keeps.pure _
    · refine Keeps.bind (hR.takeToken _) fun o => ?_
      cases o with
      | some name => exact hR.symbolFactor name
      | none => exact Keeps.bind (hR.parseErrorAt _) fun _ => Keeps.pure _

omit hR in
lemma divide (v r : Word) : Keeps R (divide v r) :=
  Keeps.ite (fun _ => Keeps.pure _) fun _ =>
    Keeps.ite (fun _ => Keeps.throw _) fun _ => Keeps.pure _

lemma termStep {factor : Assemble Word} (h : Keeps R factor) (v : Word) :
    Keeps R (termStep env factor v) := by
  refine Keeps.bind (hR.takePunct _) fun b => Keeps.ite (fun _ => ?_) fun _ => ?_
  · exact Keeps.bind h fun _ => Keeps.pure _
  refine Keeps.bind (hR.takePunct _) fun b => Keeps.ite (fun _ => ?_) fun _ => Keeps.pure _
  exact Keeps.bind h fun _ => Keeps.bind (divide _ _) fun _ => Keeps.pure _

lemma parseTerm (n : ℕ) {factor : Assemble Word} (h : Keeps R factor) :
    Keeps R (parseTerm env n factor) :=
  Keeps.bind h fun v => Keeps.repeatStep (hR.termStep h) n v

lemma exprStep {term : Assemble Word} (h : Keeps R term) (v : Word) :
    Keeps R (exprStep env term v) := by
  refine Keeps.bind (hR.takePunct _) fun b => Keeps.ite (fun _ => ?_) fun _ => ?_
  · exact Keeps.bind h fun _ => Keeps.pure _
  refine Keeps.bind (hR.takePunct _) fun b => Keeps.ite (fun _ => ?_) fun _ => Keeps.pure _
  exact Keeps.bind h fun _ => Keeps.pure _

lemma parseExpr (n : ℕ) : Keeps R (parseExpr env n) := by
  induction n with
  | zero => exact Keeps.throw _
  | succ n ih =>
    have hterm := hR.parseTerm (n + 1) (hR.parseFactor ih)
    exact Keeps.bind hterm fun v => Keeps.repeatStep (hR.exprStep hterm) (n + 1) v

/-- A relation that allows the reading of operands is kept by it. -/
theorem toOperandProperty : OperandProperty env (fun x => Keeps R x) where
  ret := Keeps.pure
  seq := Keeps.bind
  read := Keeps.get
  peek := hR.scannerPeek
  peek2 := hR.scannerPeek2
  advance := hR.scannerAdvance
  take f := hR.takeToken f
  punct := hR.takePunct
  error := hR.parseErrorAt
  lookup := hR.lookupLabel
  immExpr := hR.makeImmExpr

end ReadRel

namespace ExprRel

variable {R : Rel Asm} (hR : ExprRel R)

include hR

lemma names : NameRel R := { hR with }

lemma reading (env : AsmEnv) : ReadRel env R := { hR with scanOne := hR.scanOne env }

/-! Tokens. -/

lemma ensureFilled (env : AsmEnv) (n : ℕ) (s : Asm) : R.rel s (s.ensureFilled env n) :=
  (hR.reading env).ensureFilled n s

lemma scannerPeek (env : AsmEnv) : Keeps R (scannerPeek env) := (hR.reading env).scannerPeek

lemma scannerPeek2 (env : AsmEnv) : Keeps R (scannerPeek2 env) := (hR.reading env).scannerPeek2

lemma scannerAdvance (env : AsmEnv) : Keeps R (scannerAdvance env) :=
  (hR.reading env).scannerAdvance

lemma scannerForceIdentifier : Keeps R scannerForceIdentifier :=
  Keeps.modify hR.force

lemma takeToken {α : Type} (env : AsmEnv) (f : Token → Option α) :
    Keeps R (takeToken env f) := (hR.reading env).takeToken f

lemma takePunct (env : AsmEnv) (c : Char) : Keeps R (takePunct env c) :=
  (hR.reading env).takePunct c

lemma parseErrorAt (msg : String) : Keeps R (parseErrorAt msg) := hR.names.parseErrorAt msg

lemma syncToNl (env : AsmEnv) : Keeps R (syncToNl env) := by
  refine Keeps.get_bind fun s => Keeps.repeatStep (fun _ => ?_) _ _ s
  refine Keeps.bind (hR.scannerPeek env) fun t => Keeps.ite (fun _ => Keeps.pure _) fun _ => ?_
  exact Keeps.bind (hR.scannerAdvance env) fun _ => Keeps.pure _

/-! Expressions. -/

lemma lookupLabel (name : String) : Keeps R (lookupLabel name) := hR.names.lookupLabel name

lemma makeImmExpr (offs : Word) (sym : Option String) (pc : Bool) :
    Keeps R (makeImmExpr offs sym pc) := hR.names.makeImmExpr offs sym pc

section

variable (env : AsmEnv)

lemma parseFactor {expr : Assemble Word} (h : Keeps R expr) : Keeps R (parseFactor env expr) :=
  (hR.reading env).parseFactor h

lemma parseTerm (n : ℕ) {factor : Assemble Word} (h : Keeps R factor) :
    Keeps R (parseTerm env n factor) := (hR.reading env).parseTerm n h

lemma parseExpr (n : ℕ) : Keeps R (parseExpr env n) := (hR.reading env).parseExpr n

lemma parseExpression : Keeps R (parseExpression env) := by
  refine Keeps.bind hR.scannerForceIdentifier fun _ => ?_
  refine Keeps.bind (Keeps.modify fun s => hR.unresolved s none) fun _ => ?_
  exact Keeps.get_bind fun s => hR.parseExpr env _ s

omit env in
lemma dataIntPush (v : Word) : Keeps R (dataIntPush v) := by
  refine Keeps.get_bind fun s => Keeps.bind (hR.makeImmExpr _ _ _) (fun e => ?_) s
  exact Keeps.bind (Keeps.modify fun s => hR.unresolved s none) fun _ => Keeps.pure _

lemma listStep {α : Type} {item : Assemble α} (h : Keeps R item) (xs : List α) :
    Keeps R (listStep env item xs) :=
  Keeps.bind h fun _ => Keeps.bind (hR.scannerPeek env) fun _ => Keeps.pure _

lemma fpListStep (xs : Option (List (BitVec 64))) : Keeps R (fpListStep env xs) := by
  refine Keeps.bind (hR.takeToken env _) fun o => ?_
  cases o with
  | none => exact Keeps.bind (hR.parseErrorAt _) fun _ => Keeps.pure _
  | some v => exact Keeps.bind (hR.scannerPeek env) fun _ => Keeps.pure _

end

end ExprRel

namespace TokenRel

variable {R : Rel Asm} (hR : TokenRel R)

include hR

/-! Nodes and messages. -/

lemma appendNode {n : AstNode} (h : n.isSeg = false) : Keeps R (appendNode n) :=
  Keeps.modify fun s => hR.append s n h

lemma appendInst (i : InstNode) : Keeps R (appendInst i) := by
  refine Keeps.modify fun s => ?_
  unfold Asm.appendInst
  split
  · exact hR.pseudo s _
  · exact hR.append s _ rfl

lemma reportMessage {r : Report} (h : r.isNote = true) : Keeps R (Spimulator.report r) :=
  Keeps.modify fun s => hR.report s r h

lemma evalImmExpr (e : ImmExpr) : Keeps R (evalImmExpr e) := by
  refine Keeps.bind ?_ fun _ => Keeps.pure _
  unfold symbolValue
  cases e.symbol with
  | none => exact Keeps.pure _
  | some l =>
    refine Keeps.get_bind fun s => KeepsFrom.ite (fun h => ?_) fun _ => ?_
    · exact KeepsFrom.bind (hR.use s l h) fun _ _ _ => KeepsFrom.pure _
    · exact Keeps.bind (hR.reportMessage rfl) (fun _ => Keeps.pure _) s

section

variable (env : AsmEnv)

lemma parseExprList (kind : DataIntKind) : Keeps R (parseExprList env kind) := by
  refine Keeps.get_bind fun s => ?_
  refine Keeps.bind (Keeps.repeatStep (fun es => ?_) _ _) (fun es => hR.appendNode rfl) s
  exact hR.listStep env (Keeps.bind (hR.parseExpression env) fun v => hR.dataIntPush v) es

lemma parseFpExprList (kind : DataFpKind) : Keeps R (parseFpExprList env kind) := by
  refine Keeps.get_bind fun s => ?_
  refine Keeps.bind (Keeps.repeatStep (hR.fpListStep env) _ _) (fun o => ?_) s
  cases o with
  | some vs => exact hR.appendNode rfl
  | none => exact Keeps.pure _

lemma parseDirString (nul : Bool) : Keeps R (parseDirString env nul) := by
  refine Keeps.bind (Keeps.modify fun s => hR.nullTerm s nul) fun _ => Keeps.get_bind fun s => ?_
  refine Keeps.repeatStep (fun _ => ?_) _ _ s
  refine Keeps.bind (hR.takeToken env _) fun o => ?_
  cases o with
  | none => exact Keeps.bind (hR.parseErrorAt _) fun _ => Keeps.pure _
  | some bytes =>
    refine Keeps.get_bind fun s => ?_
    refine Keeps.bind (Keeps.ite (fun _ => hR.parseErrorAt _) fun _ => ?_) (fun _ => ?_) s
    · exact hR.appendNode rfl
    · exact Keeps.bind (hR.scannerPeek env) fun _ => Keeps.pure _

end

/-- A relation that allows the pieces of the parser is kept by the parser. -/
theorem toProperty : ParseProperty (fun x => Keeps R x) where
  ret := Keeps.pure
  seq := Keeps.bind
  read := Keeps.get
  noImmediateOp := Keeps.throw _
  peek := hR.scannerPeek
  peek2 := hR.scannerPeek2
  advance := hR.scannerAdvance
  force := hR.scannerForceIdentifier
  take env _ f := hR.takeToken env f
  punct := hR.takePunct
  inst := hR.appendInst
  node := hR.appendNode
  seg kind a := Keeps.modify fun s => hR.seg s kind a
  pseudo p := Keeps.modify fun s => hR.pseudo s (p s)
  noAlign := Keeps.modify hR.noAlign
  newLine := Keeps.modify hR.newLine
  error := hR.parseErrorAt
  message := hR.reportMessage
  lookup := hR.lookupLabel
  immExpr := hR.makeImmExpr
  eval := hR.evalImmExpr
  aligned h₀ h₁ := Keeps.modify fun s => hR.aligned s _ h₀ h₁
  clear := hR.clear
  sync := hR.syncToNl
  expression := hR.parseExpression
  exprList := hR.parseExprList
  fpExprList := hR.parseFpExprList
  string := hR.parseDirString

/-- The parse of a whole file. -/
theorem parseTree (env : AsmEnv) : Keeps R (parseTree env) := by
  refine Keeps.get_bind fun s => ?_
  refine Keeps.bind (Keeps.repeatStep (fun _ => hR.toProperty.lineStep env) _ _) (fun _ => ?_) s
  exact hR.clear env.toEnv

end TokenRel

/-- The parse of a whole file. -/
theorem ParseRel.parseTree {R : Rel Asm} (hR : ParseRel R) (env : AsmEnv) :
    Keeps R (parseTree env) := hR.toTokenRel.parseTree env

end Spimulator
