import Spimulator.PseudoArith

/-! The operations of two registers with a constant in the place of the second: every constant is
lowered to code that computes with it, with $at where it does not fit the field. -/
namespace Spimulator
open Frame CodeBlock

/-! Operations. -/

/-- An operation with a form for an immediate. -/
inductive ImmOp
  | add | addu | and | or | xor
  | slt (o : Order)
  deriving DecidableEq, Repr

namespace ImmOp

def opcode : ImmOp → Opcode
  | add => .add
  | addu => .addu
  | and => .and
  | or => .or
  | xor => .xor
  | slt o => o.opcode

def immOpcode : ImmOp → Opcode
  | add => .addi
  | addu => .addiu
  | and => .andi
  | or => .ori
  | xor => .xori
  | slt o => o.immOpcode

/-- What the operation gives; an addition that is checked may give nothing. -/
def result : ImmOp → Word → Word → Option Word
  | add, a, b => if a.saddOverflow b then none else some (a + b)
  | addu, a, b => some (a + b)
  | and, a, b => some (a &&& b)
  | or, a, b => some (a ||| b)
  | xor, a, b => some (a ^^^ b)
  | slt o, a, b => some (if o.lt a b then 1 else 0)

/-- Its immediate is sign-extended. -/
def signed : ImmOp → Bool
  | add | addu | slt _ => true
  | and | or | xor => false

lemma signExtends (f : ImmOp) : signExtendsImm f.immOpcode = f.signed := by
  cases f with
  | slt o => cases o <;> rfl
  | _ => rfl

lemma toImm (f : ImmOp) : opToImmOp f.opcode = some f.immOpcode := by
  cases f with
  | slt o => cases o <;> rfl
  | _ => rfl

lemma ofImm (f : ImmOp) : immOpToOp f.immOpcode = some f.opcode := by
  cases f with
  | slt o => cases o <;> rfl
  | _ => rfl

lemma notBranch (f : ImmOp) : f.immOpcode.isBranch = false := by
  cases f with
  | slt o => cases o <;> rfl
  | _ => rfl

lemma computation (f : ImmOp) :
    (¬ f.immOpcode.isJump ∧ ¬ f.immOpcode.isLoadStore ∧ ¬ f.immOpcode.isBranch : Bool) = true := by
  cases f with
  | slt o => cases o <;> rfl
  | _ => rfl

/-- Where a constant may be loaded straight into the destination, the operation passes it on. -/
lemma result_zero {f : ImmOp} (h : f.immOpcode = .ori ∨ f.immOpcode = .addi ∨ f.immOpcode = .addiu ∨
    f.immOpcode = .lui) (v : Word) : f.result 0 v = some v := by
  cases f with
  | slt o => cases o <;> simp [immOpcode, Order.immOpcode] at h
  | add =>
    have hover : (0#32).saddOverflow v = false := by
      have hlt := BitVec.toInt_lt (x := v)
      have hle := BitVec.le_toInt (x := v)
      simp only [BitVec.saddOverflow, BitVec.toInt_zero, Int.zero_add, Bool.or_eq_false_iff,
        decide_eq_false_iff_not]
      omega
    change (if (0#32).saddOverflow v then none else some (0#32 + v)) = _
    rw [hover, BitVec.zero_add]
    rfl
  | addu => simp [result]
  | or => simp [result]
  | and => simp [immOpcode] at h
  | xor => simp [immOpcode] at h

end ImmOp

/-! Instructions. -/

/-- A register is set and the run goes on, or the addition overflows. -/
def Machine.gives (m : Machine) (rd : RegNo) : Option Word → Machine
  | some v => (m.setGpr rd v).goto (m.pc + 4)
  | none => m.faulted .ov

section

variable {env : Env} {m : Machine} (f : ImmOp) (rd rs rt : Byte)

theorem InstRuns.operation (hm : m.Ready) : InstRuns env (makeRTypeInst f.opcode rd rs rt) m
    (m.gives rd (f.result (m.gpr rs) (m.gpr rt))) := by
  cases f with
  | add =>
    have hdispatch : dispatch env (makeRTypeInst .add rd rs rt) m =
        if (m.gpr rs).saddOverflow (m.gpr rt) then .raise .ov
        else m.setRd (makeRTypeInst .add rd rs rt) (m.gpr rs + m.gpr rt) := rfl
    rw [ImmOp.result]
    by_cases h : (m.gpr rs).saddOverflow (m.gpr rt) = true
    · rw [if_pos h] at hdispatch ⊢
      exact .raise hm hdispatch
    · rw [if_neg h] at hdispatch ⊢
      exact .setRd hm hdispatch
  | addu => exact .setRd hm rfl
  | and => exact .setRd hm rfl
  | or => exact .setRd hm rfl
  | xor => exact .setRd hm rfl
  | slt o => exact slt_runs rd rs rt o hm

/-- What the immediate field of an instruction stands for. -/
def ImmOp.extend (v : Half) : Word := if f.signed then v.signExtend 32 else v.setWidth 32

theorem InstRuns.immediate (v : Half) (hm : m.Ready) :
    InstRuns env (makeITypeInst f.immOpcode rt rs v) m
      (m.gives rt (f.result (m.gpr rs) (f.extend v))) := by
  cases f with
  | add =>
    have hdispatch : dispatch env (makeITypeInst .addi rt rs v) m =
        if (m.gpr rs).saddOverflow (makeITypeInst .addi rt rs v).simm then .raise .ov
        else m.setRt (makeITypeInst .addi rt rs v) (m.gpr rs + (makeITypeInst .addi rt rs v).simm) := rfl
    rw [simm_make] at hdispatch
    rw [ImmOp.result]
    change InstRuns env _ m (m.gives rt (if (m.gpr rs).saddOverflow (v.signExtend 32) then none
      else some (m.gpr rs + v.signExtend 32)))
    by_cases h : (m.gpr rs).saddOverflow (v.signExtend 32) = true
    · rw [if_pos h] at hdispatch ⊢
      exact .raise hm hdispatch
    · rw [if_neg h] at hdispatch ⊢
      exact .setRt hm hdispatch
  | addu =>
    change InstRuns env _ m ((m.setGpr rt (m.gpr rs + v.signExtend 32)).goto (m.pc + 4))
    rw [← simm_make rs rt v .addiu]
    exact .setRt hm rfl
  | and =>
    change InstRuns env _ m ((m.setGpr rt (m.gpr rs &&& v.setWidth 32)).goto (m.pc + 4))
    rw [← uimm_make rs rt v .andi]
    exact .setRt hm rfl
  | or => exact ori_runs rs rt v hm
  | xor =>
    change InstRuns env _ m ((m.setGpr rt (m.gpr rs ^^^ v.setWidth 32)).goto (m.pc + 4))
    rw [← uimm_make rs rt v .xori]
    exact .setRt hm rfl
  | slt o => exact slti_runs rs rt v o hm

/-- A constant that fits the field is what the field stands for. -/
lemma ImmOp.extend_small {v : Word} (h : immTooLarge f.immOpcode (constImmExpr v) v = false) :
    f.extend (v.setWidth 16) = v := by
  cases hs : f.signed with
  | true =>
    rw [extend, if_pos hs]
    exact signExtend_small (f.signExtends.trans hs) h
  | false =>
    have hload : f.immOpcode.isLoadStore = false := by
      cases f with
      | slt o => cases o <;> rfl
      | _ => rfl
    have hhigh : v &&& 0xffff0000 = 0 := by
      simpa [immTooLarge, f.signExtends, hs, hload] using h
    have hv := halves v
    rw [hhigh, zero_or_word] at hv
    rw [extend, if_neg (by simp [hs]), low_half, hv]

end

/-! Code. -/

/-- A register is set to what an operation gives, and the run goes on after the code; or the
operation overflows. $at may change. -/
inductive Yields (rd : RegNo) (after : Word) (m : Machine) : Option Word → Machine → Prop
  | value (a v : Word) : Yields rd after m (some v) (((m.setGpr 1 a).setGpr rd v).goto after)
  | overflow (a p : Word) : Yields rd after m none (((m.setGpr 1 a).goto p).faulted .ov)

/-- The operation as the last instruction of the code, with $at changed before. -/
lemma yields_gives (rd : RegNo) {after p : Word} (m : Machine) (a : Word) (r : Option Word)
    (h : p + 4 = after) : Yields rd after m r (((m.setGpr 1 a).goto p).gives rd r) := by
  subst h
  cases r with
  | none => exact .overflow a p
  | some v => exact .value a v

section

variable {env : Env} {m : Machine} (f : ImmOp) (rt rs v : Word)

/-- Every constant is lowered to code that computes with it. -/
theorem constCode_yields (hm : m.Ready) (hrs : rs.setWidth 8 ≠ (1 : Byte)) :
    ∃ m', Yields (rt.setWidth 8) (slot 4 m.pc (constCode f.immOpcode rt rs v).length) m
        (f.result (m.gpr (rs.setWidth 8)) v) m' ∧
      CodeRuns env m.pc (constCode f.immOpcode rt rs v) m m' := by
  unfold constCode
  split
  · split
    · rename_i hdirect
      obtain ⟨hop, rfl⟩ := hdirect
      obtain ⟨a, h⟩ : ∃ a, CodeRuns env m.pc (produceCode rt v) m _ := produceCode_runs rt v hm
      have hzero : m.gpr ((0 : Word).setWidth 8) = 0 := hm.zero
      rw [hzero, f.result_zero hop]
      exact ⟨_, .value a v, h⟩
    · obtain ⟨a, hload⟩ : ∃ a, CodeRuns env m.pc (produceCode 1 v) m _ := produceCode_runs 1 v hm
      rw [register_at, Machine.setGpr_setGpr] at hload
      have hat := (hm.setGpr (show (1 : Byte) ≠ 0 by decide) v).goto
        (slot 4 m.pc (produceCode 1 v).length)
      have hop : InstRuns env _ _ _ := .operation f (rt.setWidth 8) (rs.setWidth 8) 1 hat
      rw [Machine.toRegs_goto, Machine.gpr_setGpr_self, m.gpr_setGpr_of_ne hrs] at hop
      rw [f.ofImm]
      refine ⟨_, yields_gives _ m v _ ?_, hload.append rfl (.last hop)⟩
      rw [List.length_append, ← slot_add]
      rfl
  · rename_i hsmall
    have hop : InstRuns env _ m _ := .immediate f (rs.setWidth 8) (rt.setWidth 8) (v.setWidth 16) hm
    rw [f.extend_small (by simpa using hsmall)] at hop
    rw [constField, if_neg (by simp [f.notBranch])]
    have hyields := yields_gives (rt.setWidth 8) (p := m.pc) m (m.gpr 1)
      (f.result (m.gpr (rs.setWidth 8)) v) rfl
    rw [m.setGpr_gpr, m.goto_pc] at hyields
    exact ⟨_, hyields, .last hop⟩

end

/-! Statements. -/

/-- A statement that computes with a constant. The register of the first operand may be left out
where it is the destination. -/
inductive ImmLine
  | operation (f : ImmOp) (rd : Fin 32) (rs : Option (Fin 32)) (v : Word)
  | sub (checked : Bool) (rd : Fin 32) (rs : Option (Fin 32)) (v : Word)
  | li (rd : Fin 32) (v : Word)
  deriving DecidableEq, Repr

namespace ImmLine

def subOp (checked : Bool) : Opcode := if checked then .sub else .subu

def operands (rd : Fin 32) (rs : Option (Fin 32)) (v : Word) : List Token :=
  .reg (regWord rd) :: (rs.map fun r => Token.reg (regWord r)).toList ++ [.int v]

def tokens : ImmLine → List Token
  | operation f rd rs v => .keyword (.op f.opcode) :: operands rd rs v
  | sub checked rd rs v => .keyword (.op (subOp checked)) :: operands rd rs v
  | li rd v => .keyword (.pseudo .li) :: operands rd none v

def destination : ImmLine → Fin 32
  | operation _ rd _ _ | sub _ rd _ _ | li rd _ => rd

/-- The register of the first operand. -/
def source : ImmLine → Fin 32
  | operation _ rd rs _ | sub _ rd rs _ => rs.getD rd
  | li _ _ => 0

/-- What the statement is to give. -/
def result (line : ImmLine) (a : Word) : Option Word :=
  match line with
  | operation f _ _ v => f.result a v
  | sub checked _ _ v => if checked ∧ a.ssubOverflow v then none else some (a - v)
  | li _ v => some v

/-- An operand other than $at, and no checked subtraction of the constant that has no negative. -/
def operandsFree (line : ImmLine) : Prop :=
  line.source ≠ 1 ∧ ∀ rd rs v, line = sub true rd rs v → v ≠ 0x80000000

def effect (line : ImmLine) (_ after : Word) (m m' : Machine) : Prop :=
  Yields (regNo line.destination) after m (line.result (m.gpr (regNo line.source))) m'

/-- The statement, up to its end, is parsed into instructions that do what it is to do. -/
def Correct (env : AsmEnv) (line : ImmLine) : Prop :=
  ∀ t : Token, t.ends → Parses (parseAsmCode env) (line.tokens ++ [t]) fun ns =>
    Implements env.toEnv ns line.effect

/-- The operation that the statement is parsed into, and its constant. -/
def lowered : ImmLine → ImmOp × Word
  | operation f _ _ v => (f, v)
  | sub checked _ _ v => (if checked then .add else .addu, -v)
  | li _ v => (.or, v)

def nodes (line : ImmLine) : List InstNode :=
  [.i line.lowered.1.immOpcode (regWord line.destination) (regWord line.source)
    (constImmExpr line.lowered.2)]

end ImmLine

/-! Parsing. -/

section

variable {env : AsmEnv} {t : Token}

lemma parseOp_operation (f : ImmOp) : parseOp env f.opcode = (do
    let rd ← parseRegister env
    parseRegImmForms env f.opcode rd fun rs => do
      let imm ← parseImm32 env
      emitI f.immOpcode rd rs imm) := by
  cases f with
  | slt o => cases o <;> rfl
  | _ => rfl

lemma parseOp_sub (checked : Bool) : parseOp env (ImmLine.subOp checked) = (do
    let rd ← parseRegister env
    parseRegImmForms env (ImmLine.subOp checked) rd
      (parseSubImm env (ImmLine.subOp checked) rd)) := by
  cases checked <;> rfl

/-- The forms with a constant for the last operand. -/
lemma reads_immForms {op : Opcode} {immForm : Word → Word → Assemble Unit} {rd : Fin 32}
    {rs : Option (Fin 32)} {v : Word} {n : InstNode}
    (h : Reads (immForm (regWord rd) (regWord (rs.getD rd))) [.int v, t] (Gives () [n] [t])) :
    Reads (do
      let r ← parseRegister env
      parseRegImmForms env op r (immForm r)) (ImmLine.operands rd rs v ++ [t])
      fun _ ns _ => ns = [n] := by
  refine (Reads.register _).then_ ?_
  cases rs with
  | none =>
    refine (Reads.leave (f := Token.asReg) rfl).then_ (h.mono ?_)
    rintro _ _ _ ⟨-, rfl, -⟩
    rfl
  | some rs =>
    refine (Reads.take (f := Token.asReg) rfl).then_
      ((Reads.leave (f := Token.asReg) rfl).then_ (h.mono ?_))
    rintro _ _ _ ⟨-, rfl, -⟩
    rfl

lemma reads_imm {f : Word → ImmExpr → Assemble Unit} (rs v : Word) {n : InstNode} (ht : t.ends)
    (h : f rs (constImmExpr v) = appendInst n) : Reads (do
      let imm ← parseImm32 env
      f rs imm) [.int v, t] (Gives () [n] [t]) := by
  refine (Reads.imm32 v (Token.ends_plus ht) (Token.ends_asInt ht)).then_ ?_
  rw [h]
  exact Reads.append n

lemma reads_subImm (checked : Bool) (rd rs v : Word) (ht : t.ends) :
    Reads (parseSubImm env (ImmLine.subOp checked) rd rs) [.int v, t]
      (Gives () [.i (if checked then ImmOp.add else .addu).immOpcode rd rs (constImmExpr (-v))] [t]) := by
  refine (Reads.imm32 v (Token.ends_plus ht) (Token.ends_asInt ht)).then_
    ((Reads.evalConst v _).then_ ((Reads.pure (constImmExpr (-v))).then_ ?_))
  cases checked with
  | true => exact Reads.append _
  | false => exact Reads.append _

lemma ImmLine.parses (line : ImmLine) (ht : t.ends) :
    Parses (parseAsmCode env) (line.tokens ++ [t]) fun ns => ns = line.nodes := by
  cases line with
  | operation f rd rs v =>
    refine .ofOp (.of_reads ?_)
    rw [parseOp_operation]
    exact reads_immForms (reads_imm (f := emitI f.immOpcode (regWord rd)) _ v ht rfl)
  | sub checked rd rs v =>
    refine .ofOp (.of_reads ?_)
    rw [parseOp_sub]
    exact reads_immForms (reads_subImm checked _ _ v ht)
  | li rd v =>
    refine .ofPseudo ((Reads.register _).then_ ?_)
    refine (Reads.imm32 v (Token.ends_plus ht) (Token.ends_asInt ht)).then_ ((Reads.append _).mono ?_)
    rintro _ _ _ ⟨-, rfl, -⟩
    rfl

end

/-! Correctness. -/

namespace ImmLine

lemma nodes_fixed (line : ImmLine) : ∀ n ∈ line.nodes, n.fixed := by
  intro n hn
  rw [List.mem_singleton.mp hn]
  exact ⟨plain_const _ _ _ line.lowered.1.computation, by
    simp [InstNode.isLabelBranch, line.lowered.1.notBranch]⟩

/-- Where the constant has a negative, adding it is subtracting the constant. -/
lemma saddOverflow_neg {a v : Word} (hv : v ≠ 0x80000000) : a.saddOverflow (-v) = a.ssubOverflow v := by
  rw [BitVec.saddOverflow, BitVec.ssubOverflow, BitVec.toInt_neg_of_ne_intMin hv, ← sub_eq_add_neg]

/-- What the statement is lowered to gives what the statement is to give. -/
lemma lowered_result {line : ImmLine} (hfree : line.operandsFree) {a : Word}
    (ha : line.source = 0 → a = 0) : line.lowered.1.result a line.lowered.2 = line.result a := by
  cases line with
  | operation f rd rs v => rfl
  | sub checked rd rs v =>
    cases checked with
    | true =>
      have hv := hfree.2 rd rs v rfl
      change (if a.saddOverflow (-v) then none else some (a + -v)) = _
      rw [saddOverflow_neg hv, ← BitVec.sub_eq_add_neg]
      simp [result]
    | false =>
      change some (a + -v) = _
      rw [← BitVec.sub_eq_add_neg]
      simp [result]
  | li rd v =>
    rw [ha rfl]
    change some (0 ||| v) = some v
    rw [zero_or_word]

lemma implements {env : Env} (hb : env.delayedBranches = false) (hbare : env.bareMachine = false)
    {line : ImmLine} (hfree : line.operandsFree) : Implements env line.nodes line.effect := by
  refine .mk_of_plain hb hbare (fun n hn => (line.nodes_fixed n hn).1) fun target m hm => ?_
  have hsource := setWidth_regWord line.source
  obtain ⟨m', hyields, hrun⟩ : ∃ m', _ ∧ CodeRuns env m.pc _ m m' := constCode_yields line.lowered.1
    (regWord line.destination) (regWord line.source) line.lowered.2 hm
    (hsource.trans_ne (regNo_ne_at hfree.1))
  have ha : line.source = 0 → m.gpr (regNo line.source) = 0 := by
    rintro h
    rw [h]
    exact hm.zero
  rw [hsource, setWidth_regWord, lowered_result hfree ha] at hyields
  exact ⟨m', hyields, .leave fun _ _ => hrun⟩

end ImmLine

/-- Operations with a constant are right, whatever the constant. -/
theorem immediates_correct {env : AsmEnv} (hb : env.delayedBranches = false)
    (hbare : env.bareMachine = true → env.delayedBranches = true) {line : ImmLine}
    (hfree : line.operandsFree) : line.Correct env := by
  intro t ht
  refine (line.parses ht).mono ?_
  rintro _ rfl
  exact line.implements hb (env.not_bare hb hbare) hfree

/-- sub $8, $9, 0x12345678 -/
theorem immediates_sub : (ImmLine.sub true 8 (some 9) 0x12345678).Correct .quiet := by
  refine immediates_correct rfl (by decide) ⟨by decide, ?_⟩
  rintro _ _ _ ⟨⟩
  decide

end Spimulator
