import Spimulator.Expansion

/-! Division: its instructions and the operations that are expanded to them. -/
namespace Spimulator
open Frame CodeBlock

namespace Order

/-- The number that a word stands for. -/
def value : Order → Word → ℤ
  | signed, a => a.toInt
  | unsigned, a => a.toNat

/-- The quotient, rounded toward zero. -/
def quotient (o : Order) (a b : Word) : Word := BitVec.ofInt 32 ((o.value a).tdiv (o.value b))

/-- The remainder, with the sign of the dividend. -/
def remainder (o : Order) (a b : Word) : Word := BitVec.ofInt 32 ((o.value a).tmod (o.value b))

/-- The quotient is no word. -/
def overflows (o : Order) (a b : Word) : Prop := o = signed ∧ a = 0x80000000 ∧ b = 0xffffffff

def divOpcode : Order → Opcode
  | signed => .div
  | unsigned => .divu

end Order

namespace Machine

def withHiLo (m : Machine) (hi lo : Word) : Machine := m.setRegs { m.toRegs with hi := hi, lo := lo }

/-- A general register other than $0 is set. -/
def write (m : Machine) (r : Fin 32) (v : Word) : Machine :=
  if r = 0 then m else m.setGpr (regNo r) v

/-- HI and LO after a division. -/
def divided (m : Machine) (o : Order) (a b : Word) : Machine :=
  if divUndefined a b then m else m.withHiLo (o.remainder a b) (o.quotient a b)

lemma Ready.divided {m : Machine} (hm : m.Ready) (o : Order) (a b : Word) :
    (m.divided o a b).Ready := by
  unfold Machine.divided
  split
  · exact hm
  · exact ⟨hm.zero, hm.noException⟩

@[simp] lemma write_goto (m : Machine) (r : Fin 32) (v a : Word) :
    (m.goto a).write r v = (m.write r v).goto a := by
  unfold write
  split <;> rfl

@[simp] lemma divided_goto (m : Machine) (o : Order) (a b p : Word) :
    (m.goto p).divided o a b = (m.divided o a b).goto p := by
  unfold Machine.divided
  split <;> rfl

end Machine

/-! Words. -/

lemma signed_quotient (a b : Word) : Order.signed.quotient a b = a.sdiv b := by
  apply BitVec.eq_of_toInt_eq
  rw [Order.quotient, BitVec.toInt_ofInt, BitVec.toInt_sdiv]
  rfl

lemma signed_remainder (a b : Word) : Order.signed.remainder a b = a.srem b := by
  rw [Order.remainder]
  change BitVec.ofInt 32 (a.toInt.tmod b.toInt) = _
  rw [← BitVec.toInt_srem, BitVec.ofInt_toInt]

lemma unsigned_quotient (a b : Word) : Order.unsigned.quotient a b = a / b := by
  rw [Order.quotient]
  change BitVec.ofInt 32 ((a.toNat / b.toNat : ℕ) : ℤ) = _
  rw [← BitVec.toNat_udiv, BitVec.ofInt_natCast, BitVec.ofNat_toNat, BitVec.setWidth_eq]

lemma unsigned_remainder (a b : Word) : Order.unsigned.remainder a b = a % b := by
  rw [Order.remainder]
  change BitVec.ofInt 32 ((a.toNat % b.toNat : ℕ) : ℤ) = _
  rw [← BitVec.toNat_umod, BitVec.ofInt_natCast, BitVec.ofNat_toNat, BitVec.setWidth_eq]

/-! Instructions. -/

section

variable {env : Env} {target : Word} {m : Machine} (rd rs rt : Word) (hm : m.Ready)

include hm

lemma div_runs (o : Order) : NodeRuns env target (.r o.divOpcode rd rs rt) m
    ((m.divided o (m.gpr (rs.setWidth 8)) (m.gpr (rt.setWidth 8))).goto (m.pc + 4)) := by
  have hdispatch : dispatch env
      (makeRTypeInst o.divOpcode (rd.setWidth 8) (rs.setWidth 8) (rt.setWidth 8)) m =
      if divUndefined (m.gpr (rs.setWidth 8)) (m.gpr (rt.setWidth 8)) then m.nothing
      else m.setHiLo (o.remainder (m.gpr (rs.setWidth 8)) (m.gpr (rt.setWidth 8)),
        o.quotient (m.gpr (rs.setWidth 8)) (m.gpr (rt.setWidth 8))) := by
    cases o
    · rw [signed_remainder, signed_quotient]
      rfl
    · rw [unsigned_remainder, unsigned_quotient]
      rfl
  refine .inst (fun _ => rfl) ?_
  unfold Machine.divided
  split
  · rename_i hundef
    rw [if_pos hundef] at hdispatch
    exact .regs hm hdispatch
  · rename_i hdef
    rw [if_neg hdef] at hdispatch
    exact .regs hm hdispatch

/-- mflo and mfhi -/
lemma moveFrom_runs (quotient : Bool) :
    NodeRuns env target (.r (if quotient then .mflo else .mfhi) rd 0 0) m
      ((m.setGpr (rd.setWidth 8) (if quotient then m.lo else m.hi)).goto (m.pc + 4)) := by
  cases quotient with
  | true => exact .inst (fun _ => rfl) (.setRd hm rfl)
  | false => exact .inst (fun _ => rfl) (.setRd hm rfl)

end

/-! The expansion. -/

/-- The trap on a divisor of 0. -/
def trapNodes (rt : Word) : List InstNode :=
  [.i .bne 0 rt (branchOffset 3), .rShift .sll 0 0 0, .r .brk 0 0 0]

/-- What div_inst expands to. -/
def divNodes (o : Order) (quotient : Bool) (rd rs rt : Word) (constDivisor : Bool) :
    List InstNode :=
  (if rd ≠ 0 ∧ constDivisor = false then trapNodes rt else []) ++ ([.r o.divOpcode 0 rs rt] ++
    if rd ≠ 0 then [.r (if quotient then .mflo else .mfhi) rd 0 0] else [])

lemma divInst_appends (o : Order) (quotient : Bool) (rd rs rt : Word) (constDivisor : Bool) :
    Appends (divInst o.divOpcode (if quotient then .mflo else .mfhi) rd rs rt constDivisor)
      (divNodes o quotient rd rs rt constDivisor) := by
  have htrap : Appends (do
      emitI .bne 0 rt (branchOffset 3)
      nopInst
      trapInst) (trapNodes rt) := .seq (.inst _) (.seq (.inst _) (.inst _))
  exact .seq (.onlyIf htrap) (.seq (.inst _) (.onlyIf (.inst _)))

lemma regWord_ne_zero {r : Fin 32} : regWord r ≠ 0 ↔ r ≠ 0 := by
  revert r
  decide

/-- The state after a division and the copy of its result. -/
def Machine.dividedInto (m : Machine) (o : Order) (quotient : Bool) (rd : Fin 32) (a b : Word) :
    Machine :=
  (m.divided o a b).write rd (if quotient then (m.divided o a b).lo else (m.divided o a b).hi)

@[simp] lemma Machine.dividedInto_goto (m : Machine) (o : Order) (quotient : Bool) (rd : Fin 32)
    (a b p : Word) : (m.goto p).dividedInto o quotient rd a b =
      (m.dividedInto o quotient rd a b).goto p := by
  simp only [dividedInto, divided_goto, write_goto, toRegs_goto]

section

variable {env : Env} {target : Word} {m : Machine} (hm : m.Ready) (o : Order) (quotient : Bool)
  (rd : Fin 32) (rs rt : Word)

include hm

lemma divideAndMove_run :
    NodesRun env target ([.r o.divOpcode 0 rs rt] ++
        if regWord rd ≠ 0 then [.r (if quotient then .mflo else .mfhi) (regWord rd) 0 0] else []) m
      ((m.dividedInto o quotient rd (m.gpr (rs.setWidth 8)) (m.gpr (rt.setWidth 8))).goto
        (slot 4 m.pc (sizeAll ([.r o.divOpcode 0 rs rt] ++
          if regWord rd ≠ 0 then [.r (if quotient then .mflo else .mfhi) (regWord rd) 0 0]
          else [])))) := by
  have hdiv : NodeRuns env target _ m _ := div_runs 0 rs rt hm o
  have hready := (hm.divided o (m.gpr (rs.setWidth 8)) (m.gpr (rt.setWidth 8))).goto (m.pc + 4)
  by_cases hrd : rd = 0
  · have hzero : ¬ regWord rd ≠ 0 := fun h => regWord_ne_zero.mp h hrd
    rw [if_neg hzero, Machine.dividedInto, Machine.write, if_pos hrd]
    exact .leave hdiv
  · have hmove : NodeRuns env target _ _ _ := moveFrom_runs (regWord rd) hready quotient
    rw [setWidth_regWord, Machine.toRegs_goto, Machine.setGpr_goto, Machine.goto_goto,
      Machine.pc_goto] at hmove
    have hend : slot 4 m.pc 2 = m.pc + 4 + 4 := slot_succ m.pc 1
    rw [if_pos (regWord_ne_zero.mpr hrd), Machine.dividedInto, Machine.write, if_neg hrd]
    change NodesRun env target _ m ((Machine.setGpr _ _ _).goto (slot 4 m.pc 2))
    rw [hend]
    exact .next hdiv rfl (.leave hmove)

variable (hb : env.delayedBranches = false)

include hb

/-- The expansion divides, unless it traps. -/
lemma divNodes_run {constDivisor : Bool}
    (hpass : rd ≠ 0 → constDivisor = false → m.gpr (rt.setWidth 8) ≠ 0) :
    NodesRun env target (divNodes o quotient (regWord rd) rs rt constDivisor) m
      ((m.dividedInto o quotient rd (m.gpr (rs.setWidth 8)) (m.gpr (rt.setWidth 8))).goto
        (slot 4 m.pc (sizeAll (divNodes o quotient (regWord rd) rs rt constDivisor)))) := by
  unfold divNodes
  split
  · rename_i htrap
    have htest : NodeRuns env target (.i .bne 0 rt (branchOffset 3)) m _ := .bneSkip rt 0 hm hb
    have hne : m.gpr (rt.setWidth 8) ≠ m.gpr ((0 : Word).setWidth 8) := by
      change _ ≠ m.gpr 0
      rw [hm.zero]
      exact hpass (regWord_ne_zero.mp htrap.1) htrap.2
    have hskip := NodesRun.pass rfl hne htest
    have hrun : NodesRun env target _ _ _ :=
      divideAndMove_run (hm.goto (slot 4 m.pc 3)) o quotient rd rs rt
    rw [Machine.toRegs_goto, Machine.dividedInto_goto, Machine.goto_goto, Machine.pc_goto,
      slot_add] at hrun
    rw [sizeAll_append]
    exact hskip.append rfl hrun
  · exact divideAndMove_run hm o quotient rd rs rt

/-- A divisor of 0 in a register. -/
lemma divNodes_trap (hrd : rd ≠ 0) (hzero : m.gpr (rt.setWidth 8) = 0) :
    NodesRun env target (divNodes o quotient (regWord rd) rs rt false) m
      ((m.goto (slot 4 m.pc 2)).faulted .bp) := by
  have htest : NodeRuns env target (.i .bne 0 rt (branchOffset 3)) m _ := .bneSkip rt 0 hm hb
  have heq : ¬ m.gpr (rt.setWidth 8) ≠ m.gpr ((0 : Word).setWidth 8) := by
    change ¬ _ ≠ m.gpr 0
    rw [hm.zero]
    exact not_not.mpr hzero
  unfold divNodes
  rw [if_pos ⟨regWord_ne_zero.mpr hrd, rfl⟩]
  exact .stop (.trap hm rfl heq htest)

end

/-! Statements. -/

/-- The operations with three operands. -/
inductive Division
  | div | divu | rem | remu
  deriving DecidableEq, Repr

namespace Division

def keyword : Division → Keyword
  | div => .op .div
  | divu => .op .divu
  | rem => .pseudo .rem
  | remu => .pseudo .remu

def order : Division → Order
  | div | rem => .signed
  | divu | remu => .unsigned

def isQuotient : Division → Bool
  | div | divu => true
  | rem | remu => false

def result (d : Division) (a b : Word) : Word :=
  if d.isQuotient then d.order.quotient a b else d.order.remainder a b

end Division

/-- A statement that divides. -/
inductive DivideLine
  | two (o : Order) (rs rt : Fin 32)
  | three (d : Division) (rd rs : Fin 32) (src : Source)
  deriving DecidableEq, Repr

namespace DivideLine

def tokens : DivideLine → List Token
  | two o rs rt => [.keyword (.op o.divOpcode), .reg (regWord rs), .reg (regWord rt)]
  | three d rd rs src => [.keyword d.keyword, .reg (regWord rd), .reg (regWord rs), src.token]

/-- With three operands none is $at, and a constant divisor is not 0. -/
def operandsFree : DivideLine → Prop
  | two _ _ _ => True
  | three _ rd rs src => rd ≠ 1 ∧ rs ≠ 1 ∧ src ≠ .reg 1 ∧ src ≠ .imm 0

def order : DivideLine → Order
  | two o _ _ => o
  | three d _ _ _ => d.order

def dividend (g : RegNo → Word) : DivideLine → Word
  | two _ rs _ | three _ _ rs _ => g (regNo rs)

def divisor (g : RegNo → Word) : DivideLine → Word
  | two _ _ rt => g (regNo rt)
  | three _ _ _ src => src.valueIn g

/-- A divisor in a register is 0, and the result has a destination. -/
def traps (g : RegNo → Word) : DivideLine → Prop
  | two _ _ _ => False
  | three _ rd _ src => rd ≠ 0 ∧ (∃ r, src = .reg r) ∧ src.valueIn g = 0

/-- What a division is to leave when the general registers hold `g`. -/
def effect (g : RegNo → Word) (line : DivideLine) (after : Word) (m m' : Machine) : Prop :=
  let a := line.dividend g
  let b := line.divisor g
  match line with
  | two o _ _ => b ≠ 0 → ¬ o.overflows a b →
      m' = (m.withHiLo (o.remainder a b) (o.quotient a b)).goto after
  | three d rd _ _ =>
      (line.traps g → ∃ p, m' = (m.goto p).faulted .bp) ∧
      (¬ line.traps g → ∃ at' hi lo v, m' = (((m.setGpr 1 at').withHiLo hi lo).write rd v).goto after ∧
        (b ≠ 0 → ¬ d.order.overflows a b → v = d.result a b))

/-- The statement, up to its end, is parsed into instructions that divide as they are to, whatever
else the registers `g` are joined by. -/
def Correct (env : AsmEnv) (line : DivideLine) (g : RegNo → Word) : Prop :=
  ∀ t : Token, t.ends → Parses (parseAsmCode env) (line.tokens ++ [t]) fun ns =>
    Implements env.toEnv ns fun _ after m m' => m.gpr = g → line.effect g after m m'

/-- The result goes somewhere. -/
def hasDest : DivideLine → Prop
  | two _ _ _ => True
  | three _ rd _ _ => rd ≠ 0

/-- An unsigned division, with a destination, of the operands whose signed quotient is no word. -/
def unsignedLimit (g : RegNo → Word) (line : DivideLine) : Prop :=
  line.order = .unsigned ∧ line.dividend g = 0x80000000 ∧ line.divisor g = 0xffffffff ∧ line.hasDest

/-- What the statement is parsed into. -/
def nodes : DivideLine → List InstNode
  | two o rs rt => [.r o.divOpcode 0 (regWord rs) (regWord rt)]
  | three d rd rs src => src.load ++
      divNodes d.order d.isQuotient (regWord rd) (regWord rs) src.place (src.isConst)

end DivideLine

section

variable {env : AsmEnv}

lemma reads_parseDivisor (o : Order) (quotient : Bool) (rd rs : Word) {src : Source}
    (hsrc : src ≠ .imm 0) {t : Token} (ht : t.ends) :
    Reads (parseDivisor env o.divOpcode (if quotient then .mflo else .mfhi) rd rs) [src.token, t]
      fun _ ns _ => ns = src.load ++ divNodes o quotient rd rs src.place src.isConst := by
  cases src with
  | reg r =>
    refine (Reads.take (f := Token.asReg) rfl).then_ ((divInst_appends _ _ _ _ _ _ _).mono ?_)
    rintro _ _ _ ⟨rfl, rfl, rfl⟩
    rfl
  | imm v =>
    have hv : v ≠ 0 := fun h => hsrc (by rw [h])
    refine (Reads.leave (f := Token.asReg) rfl).then_
      ((Reads.imm32 v (Token.ends_plus ht) (Token.ends_asInt ht)).then_ ?_)
    rw [if_neg (Source.isZeroImm_const.not.mpr hv)]
    refine (Reads.emit (divInst_appends _ _ _ _ _ _ _)).mono ?_
    rintro _ _ _ ⟨rfl, rfl, rfl⟩
    rw [Source.load, Source.place, if_neg hv, if_neg hv]
    rfl

lemma reads_parseRem (o : Order) (rd rs : Word) {src : Source} (hsrc : src ≠ .imm 0) {t : Token}
    (ht : t.ends) : Reads (parseRem env o.divOpcode) [.reg rd, .reg rs, src.token, t]
      fun _ ns _ => ns = src.load ++ divNodes o false rd rs src.place src.isConst :=
  (Reads.register rd).then_ ((Reads.register rs).then_ (reads_parseDivisor o false rd rs hsrc ht))

lemma Source.ends_token (src : Source) : src.token.ends = false := by
  cases src <;> rfl

/-- parse_asm_code of div and divu -/
lemma reads_parseRsRt (o : Order) (r₁ r₂ : Word) {ts : List Token} {t : Token}
    {Q : List InstNode → Prop}
    (hthree : t.ends = false → Reads (parseDivisor env o.divOpcode .mflo r₁ r₂) (t :: ts)
      fun _ ns _ => Q ns) (htwo : t.ends = true → Q [.r o.divOpcode 0 r₁ r₂]) :
    Reads (parseRsRt env o.divOpcode) (.reg r₁ :: .reg r₂ :: t :: ts) fun _ ns _ => Q ns := by
  refine (Reads.register r₁).then_ (Reads.peek.then_ ?_)
  rw [if_neg (by simp [Token.asReg])]
  refine (Reads.register r₂).then_ (Reads.peek.then_ ?_)
  have hdiv : o.divOpcode = .div ∨ o.divOpcode = .divu := by cases o <;> simp [Order.divOpcode]
  by_cases ht : t.ends = false
  · rw [if_pos ⟨hdiv, ht⟩]
    exact hthree ht
  · rw [if_neg (fun h => ht h.2)]
    refine (Reads.append _).mono ?_
    rintro _ _ _ ⟨rfl, rfl, rfl⟩
    exact htwo (by simpa using ht)

namespace DivideLine

lemma parses {line : DivideLine} (hfree : line.operandsFree) {t : Token} (ht : t.ends) :
    Parses (parseAsmCode env) (line.tokens ++ [t]) fun ns => ns = line.nodes := by
  have hop (o : Order) (x : Assemble Unit) (hx : x = parseRsRt env o.divOpcode) :
      parseOp env o.divOpcode = x := by
    cases o <;> exact hx.symm
  cases line with
  | two o rs rt =>
    refine .ofOp ?_
    rw [hop o _ rfl]
    refine .of_reads (reads_parseRsRt o _ _ (fun h => ?_) fun _ => rfl)
    rw [h] at ht
    cases ht
  | three d rd rs src =>
    obtain ⟨-, -, -, hsrc⟩ := hfree
    have hdivide (o : Order) : Parses (parseAsmCode env)
        [.keyword (.op o.divOpcode), .reg (regWord rd), .reg (regWord rs), src.token, t]
        fun ns => ns = src.load ++ divNodes o true (regWord rd) (regWord rs) src.place src.isConst := by
      refine .ofOp ?_
      rw [hop o _ rfl]
      refine .of_reads (reads_parseRsRt o _ _ (fun _ => reads_parseDivisor o true _ _ hsrc ht) ?_)
      rw [src.ends_token]
      intro h
      cases h
    cases d with
    | div => exact hdivide .signed
    | divu => exact hdivide .unsigned
    | rem => exact .ofPseudo (reads_parseRem .signed _ _ hsrc ht)
    | remu => exact .ofPseudo (reads_parseRem .unsigned _ _ hsrc ht)

end DivideLine
end

/-! Correctness. -/

lemma Machine.divided_eq (m : Machine) (o : Order) (a b : Word) :
    m.divided o a b = m.withHiLo (m.divided o a b).hi (m.divided o a b).lo := by
  unfold divided
  split <;> rfl

lemma divided_of_defined (m : Machine) {o : Order} {a b : Word} (h : ¬ divUndefined a b) :
    m.divided o a b = m.withHiLo (o.remainder a b) (o.quotient a b) := by
  rw [Machine.divided, if_neg h]

namespace DivideLine

section

variable {env : Env} {target : Word} {m : Machine} (hm : m.Ready)
  (hb : env.delayedBranches = false)

include hm

lemma two_run (o : Order) (rs rt : Fin 32) : NodesRun env target (two o rs rt).nodes m
    ((m.divided o (m.gpr (regNo rs)) (m.gpr (regNo rt))).goto
      (slot 4 m.pc (sizeAll (two o rs rt).nodes))) := by
  have h : NodeRuns env target _ m _ := div_runs 0 (regWord rs) (regWord rt) hm o
  rw [setWidth_regWord, setWidth_regWord] at h
  exact .leave h

include hb

/-- Three operands, without a trap. -/
lemma three_run {d : Division} {rd rs : Fin 32} {src : Source} (hrs : rs ≠ 1) (hsrc : src ≠ .reg 1)
    (hpass : ¬ (three d rd rs src).traps m.gpr) :
    ∃ a, NodesRun env target (three d rd rs src).nodes m
      (((m.setGpr 1 a).dividedInto d.order d.isQuotient rd (m.gpr (regNo rs))
        (src.valueIn m.gpr)).goto (slot 4 m.pc (sizeAll (three d rd rs src).nodes))) := by
  obtain ⟨a, hvalue, hload⟩ : ∃ a, _ ∧ NodesRun env target _ m _ := src.load_runs hm hsrc
  have hready := (hm.setGpr (show (1 : Byte) ≠ 0 by decide) a).goto (slot 4 m.pc (sizeAll src.load))
  have hnonzero : rd ≠ 0 → src.isConst = false →
      (m.setGpr 1 a).gpr (src.place.setWidth 8) ≠ 0 := by
    intro hrd hconst hzero
    rw [hvalue] at hzero
    cases src with
    | reg r => exact hpass ⟨hrd, ⟨r, rfl⟩, hzero⟩
    | imm v => cases hconst
  have hdiv : NodesRun env target _ _ _ :=
    divNodes_run hready d.order d.isQuotient rd (regWord rs) src.place hb hnonzero
  rw [setWidth_regWord, Machine.toRegs_goto, hvalue, Machine.gpr_setGpr_of_ne _ (regNo_ne_at hrs),
    Machine.dividedInto_goto, Machine.goto_goto, Machine.pc_goto, slot_add, ← sizeAll_append] at hdiv
  exact ⟨a, hload.append rfl hdiv⟩

end

lemma nodes_fixed (line : DivideLine) : ∀ n ∈ line.nodes, n.fixed := by
  cases line with
  | two o rs rt => simp [nodes]
  | three d rd rs src =>
    have hdiv : ∀ n ∈ divNodes d.order d.isQuotient (regWord rd) (regWord rs) src.place src.isConst,
        n.fixed := by
      unfold divNodes trapNodes
      split <;> split <;> simp
    intro n hn
    rcases List.mem_append.mp hn with hn | hn
    · exact src.load_fixed n hn
    · exact hdiv n hn

lemma nodes_length (line : DivideLine) : line.nodes.length ≤ 6 := by
  cases line with
  | two o rs rt => simp [nodes]
  | three d rd rs src =>
    have hload : src.load.length ≤ 1 := by
      cases src with
      | reg r => simp [Source.load]
      | imm v =>
        rw [Source.load]
        split <;> simp
    have hdiv : (divNodes d.order d.isQuotient (regWord rd) (regWord rs) src.place
        src.isConst).length ≤ 5 := by
      unfold divNodes trapNodes
      split <;> split <;> simp
    rw [nodes, List.length_append]
    omega

/-- With other operands the division is as it is to be. -/
lemma implements {env : Env} (hb : env.delayedBranches = false) (hbare : env.bareMachine = false)
    {line : DivideLine} (hfree : line.operandsFree) {g : RegNo → Word}
    (hlimit : ¬ line.unsignedLimit g) :
    Implements env line.nodes fun _ after m m' => m.gpr = g → line.effect g after m m' := by
  have hdef (hdest : line.hasDest) (hzero : line.divisor g ≠ 0)
      (hover : ¬ line.order.overflows (line.dividend g) (line.divisor g)) :
      ¬ divUndefined (line.dividend g) (line.divisor g) := by
    rintro (h | ⟨ha, hb⟩)
    · exact hzero h
    · cases ho : line.order with
      | signed => exact hover ⟨ho, ha, hb⟩
      | unsigned => exact hlimit ⟨ho, ha, hb, hdest⟩
  refine .mk_of_plain hb hbare (fun n hn => (line.nodes_fixed n hn).1) fun target m hm => ?_
  cases line with
  | two o rs rt =>
    refine ⟨_, ?_, two_run hm o rs rt⟩
    rintro rfl hzero hover
    have hdivided := divided_of_defined (o := o) m (hdef trivial hzero hover)
    rw [← hdivided]
    rfl
  | three d rd rs src =>
    obtain ⟨hat, hrs, hsrc, -⟩ := hfree
    by_cases htraps : (three d rd rs src).traps m.gpr
    · obtain ⟨hrd, ⟨r, rfl⟩, hzero⟩ := htraps
      have hrun : NodesRun env target _ m _ :=
        divNodes_trap hm d.order d.isQuotient rd (regWord rs) (regWord r) hb hrd
          (by rw [setWidth_regWord]; exact hzero)
      refine ⟨_, ?_, hrun⟩
      rintro rfl
      exact ⟨fun _ => ⟨_, rfl⟩, fun h => absurd ⟨hrd, ⟨r, rfl⟩, hzero⟩ h⟩
    · obtain ⟨a, hrun⟩ : ∃ a, NodesRun env target _ m _ := three_run hm hb hrs hsrc htraps
      refine ⟨_, ?_, hrun⟩
      rintro rfl
      refine ⟨fun h => absurd h htraps, fun _ => ?_⟩
      let M := (m.setGpr 1 a).divided d.order (m.gpr (regNo rs)) (src.valueIn m.gpr)
      have hM : M = (m.setGpr 1 a).withHiLo M.hi M.lo := Machine.divided_eq _ _ _ _
      by_cases hrd : rd = 0
      · refine ⟨a, M.hi, M.lo, _, ?_, fun _ _ => rfl⟩
        rw [← hM, Machine.write, if_pos hrd, Machine.dividedInto, Machine.write, if_pos hrd]
      · refine ⟨a, M.hi, M.lo, if d.isQuotient then M.lo else M.hi, ?_, fun hzero hover => ?_⟩
        · rw [← hM]
          rfl
        · have hdivided : M = _ := divided_of_defined _ (hdef hrd hzero hover)
          rw [hdivided]
          rfl

/-- With these operands HI and LO keep what they hold. -/
lemma not_implements {env : Env} (hb : env.delayedBranches = false) {line : DivideLine}
    (hfree : line.operandsFree) {g : RegNo → Word} (hg : g 0 = 0) (hlimit : line.unsignedLimit g) :
    ¬ Implements env line.nodes fun _ after m m' => m.gpr = g → line.effect g after m m' := by
  intro himpl
  obtain ⟨ho, ha, hdivisor, hdest⟩ := hlimit
  let m : Machine := { gpr := g, hi := 0, lo := 1 }
  have hm : m.Ready := ⟨hg, rfl⟩
  have hkeep (m : Machine) : m.divided line.order (line.dividend g) (line.divisor g) = m :=
    if_pos (Or.inr ⟨ha, hdivisor⟩)
  have hzero : line.divisor g ≠ 0 := by
    rw [hdivisor]
    decide
  have hover (o : Order) (h : o = .unsigned) : ¬ o.overflows (line.dividend g) (line.divisor g) := by
    rintro ⟨hs, -⟩
    rw [h] at hs
    cases hs
  obtain ⟨code, hcode⟩ := exists_placed (fun n hn => (line.nodes_fixed n hn).2) 0 m.pc
  have hshort : 4*code.length < 2^32 := by
    have hsize := sizeAll_le line.nodes
    have hlen : line.nodes.length ≤ 6 := line.nodes_length
    rw [hcode.length]
    omega
  obtain ⟨m', heffect, hrun⟩ := himpl.runs 0 m code hm hcode
  have hresult := heffect rfl
  cases line with
  | two o rs rt =>
    have hreal : CodeRuns env m.pc code m (m.goto (slot 4 m.pc code.length)) := by
      have h : NodesRun env 0 _ m _ := two_run hm o rs rt
      have hk : m.divided o (m.gpr (regNo rs)) (m.gpr (regNo rt)) = m := hkeep m
      rw [hk, ← hcode.length] at h
      exact h code hcode
    rw [hresult hzero (hover o ho)] at hrun
    have hsame := CodeRuns.end_unique hrun hreal (CodeRuns.end_ne hshort) (CodeRuns.end_ne hshort)
      hshort
    have hlo : Order.quotient o (dividend g (two o rs rt)) (divisor g (two o rs rt)) = 1 :=
      congrArg (fun m => m.lo) hsame
    rw [ha, hdivisor, show o = .unsigned from ho] at hlo
    exact absurd hlo (by decide)
  | three d rd rs src =>
    obtain ⟨-, hrs, hsrc, -⟩ := hfree
    have hpass : ¬ (three d rd rs src).traps g := fun h => hzero h.2.2
    obtain ⟨a, hreal⟩ : ∃ a, CodeRuns env m.pc code m
        (((m.setGpr 1 a).write rd (if d.isQuotient then 1 else 0)).goto
          (slot 4 m.pc code.length)) := by
      obtain ⟨a, h⟩ : ∃ a, NodesRun env 0 _ m _ := three_run hm hb hrs hsrc hpass
      have hk : (m.setGpr 1 a).divided d.order (m.gpr (regNo rs)) (src.valueIn m.gpr) = m.setGpr 1 a :=
        hkeep _
      rw [Machine.dividedInto, hk, ← hcode.length] at h
      exact ⟨a, h code hcode⟩
    obtain ⟨at', hi, lo, v, rfl, hv⟩ := hresult.2 hpass
    have hsame := CodeRuns.end_unique hrun hreal (CodeRuns.end_ne hshort) (CodeRuns.end_ne hshort)
      hshort
    have hvalue : v = if d.isQuotient then 1 else 0 := by
      have h := congrArg (fun m => m.gpr (regNo rd)) hsame
      simp only [Machine.toRegs_goto, Machine.write, if_neg (show rd ≠ 0 from hdest),
        Machine.gpr_setGpr_self] at h
      exact h
    rw [hv hzero (hover _ ho), Division.result, show d.order = .unsigned from ho, ha, hdivisor] at hvalue
    cases hq : d.isQuotient with
    | true =>
      rw [hq] at hvalue
      exact absurd hvalue (by decide)
    | false =>
      rw [hq] at hvalue
      exact absurd hvalue (by decide)

end DivideLine

end Spimulator
