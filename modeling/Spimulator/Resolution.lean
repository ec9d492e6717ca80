import Spimulator.Jumps

/-! What resolving does to an instruction: the field is filled in from the address of the symbol, and
no other instruction changes but a lui that makes up for a sign. -/
namespace Spimulator
open Frame

/-! The field that a symbol fills. -/

/-- What resolving puts in the field of an instruction for a symbol at `v`. -/
def linkField (delayed : Bool) (op : Opcode) (e : ImmExpr) (v : Word) : Word :=
  if op.isBranch then
    let val := ((signEx (e.part (e.offset + v))).sshiftRight 2) &&& 0xffff
    if delayed then val - 1 else val
  else if op.isJump then (e.part (e.offset + v) &&& 0x0fffffff) >>> 2
  else e.part (e.offset + v)

/-- The instruction at `pc` is linked to a symbol at `v`. -/
structure Inst.Linked (i : Inst) (delayed : Bool) (pc v : Word) (op : Opcode) (e : ImmExpr) :
    Prop where
  opcode : i.opcode = some op
  expr : i.expr = some e
  relative : e.pcRelative = true → e.offset = 0 - pc
  target : op.isJump = true → i.target = linkField delayed op e v
  imm : op.isJump = false → i.imm = (linkField delayed op e v).setWidth 16

def Inst.LinkedTo (i : Inst) (delayed : Bool) (pc v : Word) : Prop :=
  ∃ op e, i.Linked delayed pc v op e

/-! Where a linked instruction leads. -/

/-- A distance in words, cut to the field and shifted back. -/
lemma word_shift {x : Word} (h : x &&& 3 = 0) :
    (((x.sshiftRight 2 &&& 0xffff).setWidth 16 : Half) <<< 2) = x.setWidth 16 := by
  have hlow {k : ℕ} (hk : k < 2) : x.getLsbD k = false := by
    have hbit := congrArg (fun y : Word => y.getLsbD k) h
    have hcases : k = 0 ∨ k = 1 := by omega
    rcases hcases with rfl | rfl <;> simpa using hbit
  have hmask : ∀ k : Fin 16, (0xffff : Word).getLsbD k = true := by decide
  apply BitVec.eq_of_getLsbD_eq
  intro k hk
  by_cases hk₂ : k < 2
  · simp [hk₂, hlow hk₂]
  · have hm : BitVec.getLsbD (0xffff : Word) (k - 2) = true := hmask ⟨k - 2, by omega⟩
    have hadd : 2 + (k - 2) = k := by omega
    simp only [BitVec.getLsbD_shiftLeft, BitVec.getLsbD_setWidth, BitVec.getLsbD_and,
      BitVec.getLsbD_sshiftRight, hm, hadd]
    have h16 : k - 2 < 16 := by omega
    have h32 : ¬ 32 ≤ k - 2 := by omega
    have hword : k < 32 := by omega
    simp [hk, hk₂, h16, h32, hword]

/-- Where the instruction leads when it is executed with delayed branches off: a jump to the word of
its operand if that is in its region, a branch to the label if the field can hold the distance. -/
structure Inst.Leads (i : Inst) (pc v : Word) : Prop where
  jump : ∀ {env op e}, env.delayedBranches = false → i.opcode = some op → i.expr = some e →
    op.isJump = true → regionOf (e.part (e.offset + v)) = regionOf pc →
      Lands env op i pc (e.part (e.offset + v) &&& ~~~3#32)
  branch : ∀ {op e}, i.opcode = some op → i.expr = some e → op.isBranch = true →
    e.pcRelative = true → e.bits = 0 → (v - pc) &&& 3 = 0 → signEx (v - pc) = v - pc →
      pc + i.branchOffset = v

theorem Inst.LinkedTo.leads {i : Inst} {pc v : Word} (h : i.LinkedTo false pc v) : i.Leads pc v := by
  obtain ⟨op, e, h⟩ := h
  have hkind : op.isBranch = true → op.isJump = false := by
    cases op <;> first | rfl | decide
  constructor
  · intro env op' e' hb hop he hjump hregion
    cases h.opcode.symm.trans hop
    cases h.expr.symm.trans he
    have hbranch : op.isBranch = false := by
      rw [Bool.eq_false_iff]
      intro hbr
      cases hjump.symm.trans (hkind hbr)
    have ht : i.target = jumpField (e.part (e.offset + v)) := by
      rw [h.target hjump, linkField, if_neg (by simp [hbranch]), if_pos hjump]
      rfl
    have hland : Lands env op i pc (regionOf pc ||| i.target <<< 2) := lands_of_target hb hjump hop
    rwa [ht, region_jumpField hregion] at hland
  · intro op' e' hop he hbranch hrel hbits hword hfit
    cases h.opcode.symm.trans hop
    cases h.expr.symm.trans he
    have hx : e.part (e.offset + v) = v - pc := by
      rw [h.relative hrel, ImmExpr.part, if_neg (by simp [hbits]), if_neg (by simp [hbits])]
      simp [BitVec.sub_eq_add_neg, BitVec.add_comm]
    have hfield : i.imm = ((v - pc).sshiftRight 2 &&& 0xffff).setWidth 16 := by
      rw [h.imm (hkind hbranch), linkField, if_pos hbranch, hx, hfit]
      rfl
    have hoff : i.branchOffset = v - pc := by
      rw [Inst.branchOffset, Inst.ioffset, hfield, word_shift hword]
      exact hfit
    rw [hoff, BitVec.add_comm, BitVec.sub_add_cancel]

/-! What is logged in between. -/

/-- What goes with the loss of a use or of an address: a use whose label is not defined, and a second
definition of a label. -/
def AsmEvent.isLoss : AsmEvent → Bool
  | .report (.resolvingUndefined _) | .report (.duplicateLabel _) => true
  | _ => false

/-- The events were added to, and this is one that was added. -/
def Asm.Since (s t : Asm) (e : AsmEvent) : Prop := ∃ new, t.events = new ++ s.events ∧ e ∈ new

/-- A use or an address was lost. -/
def Asm.Loses (s t : Asm) : Prop := ∃ e : AsmEvent, e.isLoss = true ∧ s.Since t e

section

variable {s t u : Asm} {e : AsmEvent} {new : List AsmEvent}

lemma Asm.Since.later (h : s.Since t e) (he : u.events = new ++ t.events) : s.Since u e := by
  obtain ⟨old, ht, hmem⟩ := h
  exact ⟨new ++ old, by rw [he, ht, List.append_assoc], List.mem_append_right _ hmem⟩

lemma Asm.Since.earlier (h : t.Since u e) (he : t.events = new ++ s.events) : s.Since u e := by
  obtain ⟨last, hu, hmem⟩ := h
  exact ⟨last ++ new, by rw [hu, he, List.append_assoc], List.mem_append_left _ hmem⟩

/-- What was added in two steps was added in one of them. -/
lemma Asm.Since.split (h : s.Since u e) {old : List AsmEvent} (hs : t.events = old ++ s.events)
    (ht : u.events = new ++ t.events) : s.Since t e ∨ e ∈ new := by
  obtain ⟨all, hu, hmem⟩ := h
  have hall : all = new ++ old := by
    rw [ht, hs, ← List.append_assoc] at hu
    exact (List.append_cancel_right hu).symm
  rcases List.mem_append.mp (hall ▸ hmem) with hn | ho
  · exact Or.inr hn
  · exact Or.inl ⟨old, hs, ho⟩

lemma Asm.Loses.later (h : s.Loses t) (he : u.events = new ++ t.events) :
    s.Loses u := by
  obtain ⟨r, hr, h⟩ := h
  exact ⟨r, hr, h.later he⟩

lemma Asm.Loses.earlier (h : t.Loses u) (he : t.events = new ++ s.events) :
    s.Loses u := by
  obtain ⟨r, hr, h⟩ := h
  exact ⟨r, hr, h.earlier he⟩

end

/-! Steps that leave labels and linked instructions alone. -/

/-- An instruction keeps its opcode and symbol; unless it is a lui or free to change, it stays. -/
structure Inst.Stays (free : Prop) (i j : Inst) : Prop where
  opcode : j.opcode = i.opcode
  symbol : j.symbol = i.symbol
  same : j = i ∨ i.opcode = some .lui ∨ free

lemma Inst.Stays.refl (free : Prop) (i : Inst) : i.Stays free i := ⟨rfl, rfl, Or.inl rfl⟩

lemma Inst.Stays.trans {free : Prop} {i j k : Inst} (h : i.Stays free j) (h' : j.Stays free k) :
    i.Stays free k where
  opcode := h'.opcode.trans h.opcode
  symbol := h'.symbol.trans h.symbol
  same := by
    rcases h'.same with rfl | hl | hf
    · exact h.same
    · exact Or.inr (Or.inl (h.opcode ▸ hl))
    · exact Or.inr (Or.inr hf)

/-- Labels stay, instructions outside `Q` that are no lui stay, and only those in `S` are stored in
text. -/
structure Steady (Q S : Set InstRef) (s t : Asm) : Prop where
  label : t.label = s.label
  lines : t.thisLineLabels = s.thisLineLabels
  nextLabel : t.nextLabel = s.nextLabel
  nextInst : s.machine.nextInst ≤ t.machine.nextInst
  insts : ∀ r < s.machine.nextInst, (s.machine.insts r).Stays (r ∈ Q) (t.machine.insts r)
  events : ∃ new, t.events = new ++ s.events ∧ ∀ a r, .instStored a r ∈ new → r ∈ S

namespace Steady

variable {Q S : Set InstRef} {s t u : Asm}

theorem refl (Q S : Set InstRef) (s : Asm) : Steady Q S s s :=
  ⟨rfl, rfl, rfl, Nat.le_refl _, fun _ _ => .refl _ _, [], rfl, by simp⟩

theorem trans (h : Steady Q S s t) (h' : Steady Q S t u) : Steady Q S s u where
  label := h'.label.trans h.label
  lines := h'.lines.trans h.lines
  nextLabel := h'.nextLabel.trans h.nextLabel
  nextInst := Nat.le_trans h.nextInst h'.nextInst
  insts r hr := (h.insts r hr).trans (h'.insts r (Nat.lt_of_lt_of_le hr h.nextInst))
  events := by
    obtain ⟨new, hnew, hno⟩ := h.events
    obtain ⟨new', hnew', hno'⟩ := h'.events
    refine ⟨new' ++ new, by rw [hnew', hnew, List.append_assoc], fun a r hr => ?_⟩
    rcases List.mem_append.mp hr with hr | hr
    · exact hno' a r hr
    · exact hno a r hr

theorem mono {Q' S' : Set InstRef} (h : Steady Q S s t) (hQ : Q ⊆ Q') (hS : S ⊆ S') :
    Steady Q' S' s t :=
  { h with
    insts := fun r hr => by
      obtain ⟨hop, hsym, hsame⟩ := h.insts r hr
      exact ⟨hop, hsym, hsame.imp_right (Or.imp_right fun hq => hQ hq)⟩
    events := by
      obtain ⟨new, hnew, hno⟩ := h.events
      exact ⟨new, hnew, fun a r hr => hS (hno a r hr)⟩ }

/-- A step that leaves the labels, the records there were and the log alone. -/
theorem still (hl : t.label = s.label) (hp : t.thisLineLabels = s.thisLineLabels)
    (hn : t.nextLabel = s.nextLabel) (hi : s.machine.nextInst ≤ t.machine.nextInst)
    (hinsts : ∀ r < s.machine.nextInst, t.machine.insts r = s.machine.insts r)
    (he : t.events = s.events) : Steady Q S s t where
  label := hl
  lines := hp
  nextLabel := hn
  nextInst := hi
  insts r hr := by
    rw [hinsts r hr]
    exact .refl _ _
  events := ⟨[], he, by simp⟩

theorem log (s : Asm) {e : AsmEvent} (h : ∀ a r, e ≠ .instStored a r) : Steady Q S s (s.log e) :=
  ⟨rfl, rfl, rfl, Nat.le_refl _, fun _ _ => .refl _ _, [e], rfl,
    fun a r hr => absurd (List.mem_singleton.mp hr).symm (h a r)⟩

theorem setInst (s : Asm) {r : InstRef} {i : Inst}
    (h : (s.machine.insts r).Stays (r ∈ Q) i) : Steady Q S s (s.setInst r i) where
  label := rfl
  lines := rfl
  nextLabel := rfl
  nextInst := Nat.le_refl _
  insts q hq := by
    change Inst.Stays _ _ (Function.update s.machine.insts r i q)
    by_cases hr : q = r
    · subst hr
      rw [Function.update_self]
      exact h
    · rw [Function.update_of_ne hr]
      exact .refl _ _
  events := ⟨[], rfl, by simp⟩

theorem machine (s : Asm) {m : Machine} (h : s.machine.Records m) : Steady Q S s (s.setMachine m) :=
  still h.labels rfl rfl h.nextInst (fun r hr => h.insts r hr) rfl

theorem dataPc (s : Asm) (v : Word) : Steady Q S s (s.setDataPc v) := by
  unfold Asm.setDataPc
  split <;> exact still rfl rfl rfl (Nat.le_refl _) (fun _ _ => rfl) rfl

theorem textPc (s : Asm) (v : Word) : Steady Q S s (s.setTextPc v) := by
  unfold Asm.setTextPc
  split <;> exact still rfl rfl rfl (Nat.le_refl _) (fun _ _ => rfl) rfl

end Steady

def steady (Q S : Set InstRef) : Rel Asm where
  rel := Steady Q S
  refl := Steady.refl Q S
  trans := Steady.trans

lemma fieldRel_steady (Q S : Set InstRef) : FieldRel (steady Q S) where
  machine s _ h := Steady.machine s h
  lui s _ _ h hi := Steady.setInst s ⟨hi.opcode, hi.symbol, Or.inr (Or.inl h)⟩
  report s _ _ := Steady.log s (by simp)
  use s _ _ := Steady.log s (by simp)

lemma plainRel_steady (Q S : Set InstRef) : PlainRel (steady Q S) where
  machine s _ h := Steady.machine s h
  dataPc := Steady.dataPc
  stored s _ _ := Steady.log s (by simp)
  fired s _ _ := Steady.log s (by simp)

/-! Resolving. -/

/-- The label is defined, and the instruction at `a` linked to it. -/
def Asm.Reached (s : Asm) (delayed : Bool) (a : Word) (r : InstRef) (l : LabelRef) : Prop :=
  (s.label l).addr ≠ 0 ∧ (s.machine.insts r).LinkedTo delayed a (s.label l).addr

section

variable {env : Env} {op : Opcode} {e : ImmExpr} {l k : LabelRef} {r : InstRef} {s t : Asm}
  {pc : Word}

lemma keeps_printTooLarge (env : Env) (Q : Set InstRef) (pc : Word) (c : Prop) [Decidable c] :
    Keeps (steady Q ∅) (onlyIf c (do
      report .immediateTooLarge
      onMachine (printInst env.tbl pc))) := by
  refine Keeps.onlyIf (Keeps.bind ((fieldRel_steady Q ∅).reportMessage rfl) fun _ => ?_)
  exact (fieldRel_steady Q ∅).onMachine (printRel_keepsRecords.instToString _ _)

lemma keeps_resolveInst (env : Env) (r : InstRef) (op : Opcode) (e : ImmExpr) (pc : Word) :
    Keeps (steady {r} ∅) (resolveInst env r op e pc) := by
  have hF := fieldRel_steady {r} ∅
  refine Keeps.bind (hF.fieldValue env op e pc) fun w => ?_
  refine Keeps.bind (keeps_printTooLarge env _ pc _) fun _ => ?_
  refine Keeps.modify fun s => Steady.setInst s ?_
  split
  · exact ⟨rfl, rfl, Or.inr (Or.inr rfl)⟩
  · exact ⟨rfl, rfl, Or.inr (Or.inr rfl)⟩

lemma keeps_resolveALabelSub (env : Env) (k : LabelRef) (r : InstRef) (pc : Word) :
    Keeps (steady {r} ∅) (resolveALabelSub env k (some r) pc) := by
  have hF := fieldRel_steady {r} ∅
  refine Keeps.get_bind fun s => ?_
  dsimp only
  split
  · rename_i op e _ he
    refine KeepsFrom.bind (KeepsFrom.set (Steady.setInst s ⟨rfl, ?_, Or.inr (Or.inr rfl)⟩)) ?_
    · by_cases hp : e.pcRelative = true
      · simp [Inst.symbol, he, hp]
      · simp [Inst.symbol, he, hp]
    · intro _ t _
      exact KeepsFrom.ite (fun _ => keeps_resolveInst _ _ _ _ _ t) fun _ => hF.reportMessage rfl t
  · exact KeepsFrom.throw _

/-- The word of a datum. -/
lemma keeps_resolveDatum (env : Env) (Q : Set InstRef) (k : LabelRef) (pc : Word) :
    Keeps (steady Q ∅) (resolveALabelSub env k none pc) := by
  refine Keeps.get_bind fun s => KeepsFrom.bind (KeepsFrom.ite (fun h => ?_) fun _ => ?_)
    fun _ t _ => (plainRel_steady Q ∅).memWrite _ _ _ _ t
  · exact KeepsFrom.modify ((fieldRel_steady Q ∅).use s k h)
  · exact KeepsFrom.pure _

/-- The value for the field of an instruction whose symbol is defined. -/
lemma fieldValue_link {w : Word × Word} (he : e.symbol = some l)
    (hdef : (s.label l).isDefined = true) (h : (fieldValue env op e pc).run s = .ok w t) :
    w.1 = linkField env.delayedBranches op e (s.label l).addr := by
  have hvalue : (evalImmExpr e).run s = .ok (e.part (e.offset + (s.label l).addr))
      (s.log (.used l (s.label l).addr)) := by
    rw [evalImmExpr, run_bind_of_ok (symbolValue_run he hdef)]
    rfl
  rw [fieldValue, run_bind_of_ok hvalue] at h
  unfold linkField
  by_cases hb : op.isBranch = true
  · rw [if_pos hb] at h ⊢
    cases h
    rfl
  · rw [if_neg hb] at h ⊢
    by_cases hj : op.isJump = true
    · rw [if_pos hj] at h ⊢
      obtain ⟨_, _, -, h⟩ := ok_of_bind h
      cases h
      rfl
    · rw [if_neg hj] at h ⊢
      by_cases hls : op.isLoadStore = true
      · rw [if_pos hls] at h
        obtain ⟨_, _, -, h⟩ := ok_of_bind h
        cases h
        rfl
      · rw [if_neg hls] at h
        cases h
        rfl

/-- An instruction whose symbol is defined is linked when it is resolved. -/
lemma resolveInst_linked (he : e.symbol = some l) (hpc : e.pcRelative = true → e.offset = 0 - pc)
    (hop : (s.machine.insts r).opcode = some op) (hx : (s.machine.insts r).expr = some e)
    (hne : op ≠ .lui) (hr : r < s.machine.nextInst) (hdef : (s.label l).isDefined = true)
    (h : (resolveInst env r op e pc).run s = .ok () t) :
    (t.machine.insts r).Linked env.delayedBranches pc (s.label l).addr op e := by
  have hF := fieldRel_steady ∅ ∅
  obtain ⟨w, s₁, h₁, h⟩ := ok_of_bind h
  obtain ⟨_, s₂, h₂, h⟩ := ok_of_bind h
  cases h
  have hw := fieldValue_link he hdef h₁
  have hs₁ : Steady ∅ ∅ s s₁ := (hF.fieldValue env op e pc).ok h₁
  have hs : Steady ∅ ∅ s s₂ := hs₁.trans ((keeps_printTooLarge env ∅ pc _).ok h₂)
  have hsame : s₂.machine.insts r = s.machine.insts r := by
    rcases (hs.insts r hr).same with h | h | h
    · exact h
    · cases hop.symm.trans h
      exact absurd rfl hne
    · cases h
  simp only [insts_setInst, hsame, hw]
  cases hj : op.isJump with
  | true =>
    refine ⟨hop, hx, hpc, fun _ => ?_, fun h => by simp [hj] at h⟩
    exact Inst.target_setTarget (s.machine.insts r) _
  | false =>
    refine ⟨hop, hx, hpc, fun h => by simp [hj] at h, fun _ => ?_⟩
    exact Inst.imm_setImm (s.machine.insts r) _

lemma resolveALabelSub_undefined (hop : (s.machine.insts r).opcode = some op)
    (hx : (s.machine.insts r).expr = some e) (hdef : s.symbolDefined (e.relocated pc) = false) :
    (resolveALabelSub env k (some r) pc).run s = .ok () (Asm.log
      (s.setInst r { s.machine.insts r with expr := some (e.relocated pc) })
      (.report (.resolvingUndefined
        ((e.relocated pc).symbol.elim "" fun l => (s.label l).name)))) := by
  rw [resolveALabelSub, EStateM.run_bind, EStateM.run_get]
  dsimp only
  split
  next op' e' ho' he' =>
    cases hop.symm.trans ho'
    cases hx.symm.trans he'
    change (if s.symbolDefined (e.relocated pc) then _ else _ : Assemble Unit).run
        (s.setInst r { s.machine.insts r with expr := some (e.relocated pc) }) = _
    rw [if_neg (by simp [hdef])]
    rfl
  next h => exact absurd hx (h op e hop)

/-- Resolving an instruction links it, or says that its symbol is not defined. -/
lemma resolveALabelSub_linked (hop : (s.machine.insts r).opcode = some op) (hne : op ≠ .lui)
    (hsym : (s.machine.insts r).symbol = some l) (hr : r < s.machine.nextInst)
    (h : (resolveALabelSub env k (some r) pc).run s = .ok () t) :
    t.Reached env.delayedBranches pc r l ∨ s.Loses t := by
  have hlabel : t.label = s.label := Steady.label ((keeps_resolveALabelSub env k r pc).ok h)
  obtain ⟨e, hx, he⟩ := Option.bind_eq_some_iff.mp hsym
  have hrel : (e.relocated pc).symbol = some l := by
    unfold ImmExpr.relocated
    split <;> exact he
  by_cases hdef : (s.label l).isDefined = true
  · left
    have hsd : s.symbolDefined (e.relocated pc) = true := by
      simp only [Asm.symbolDefined, hrel, hdef]
    rw [resolveALabelSub_defined hop hx hsd] at h
    rw [Asm.Reached, hlabel]
    refine ⟨by simpa [Label.isDefined] using hdef, op, e.relocated pc, ?_⟩
    refine resolveInst_linked (s := s.setInst r _) hrel (fun hp => ?_) ?_ ?_ hne hr hdef h
    · unfold ImmExpr.relocated at hp ⊢
      by_cases hrl : e.pcRelative = true
      · rw [if_pos hrl]
      · rw [if_neg hrl] at hp
        exact absurd hp hrl
    · rw [insts_setInst]
      exact hop
    · rw [insts_setInst]
  · right
    have hsd : s.symbolDefined (e.relocated pc) = false := by
      simpa only [Asm.symbolDefined, hrel, Bool.not_eq_true] using hdef
    rw [resolveALabelSub_undefined hop hx hsd, hrel] at h
    cases h
    exact ⟨_, rfl, [_], rfl, List.mem_singleton_self _⟩

lemma Steady.reached {Q S : Set InstRef} {d : Bool} (h : Steady Q S s t) (hr : r < s.machine.nextInst)
    (hne : (s.machine.insts r).opcode ≠ some .lui) (hq : r ∉ Q) (hs : s.Reached d pc r l) :
    t.Reached d pc r l := by
  have hsame : t.machine.insts r = s.machine.insts r := by
    rcases (h.insts r hr).same with h | h | h
    · exact h
    · exact absurd h hne
    · exact absurd h hq
  rwa [Asm.Reached, hsame, h.label]

/-! Storing. -/

lemma keeps_incrementTextPc_steady (Q S : Set InstRef) (delta : Word) :
    Keeps (steady Q S) (incrementTextPc delta) := keeps_incrementTextPc Steady.textPc delta

lemma keeps_storeInText (env : Env) (r : InstRef) :
    Keeps (steady {r} {r}) (storeInText env r) := by
  have hF := fieldRel_steady {r} {r}
  refine Keeps.get_bind fun s => ?_
  refine Keeps.bind (hF.onMachine (Keeps.modify fun m => printRel_keepsRecords.flag m)) (fun _ => ?_) s
  refine Keeps.bind (hF.onMachine (printRel_keepsRecords.memWriteInst _ _ _)) fun _ => ?_
  refine Keeps.get_bind fun s => ?_
  refine Keeps.bind (Keeps.ite (fun _ => ?_) fun _ => ?_) (fun _ => Keeps.modify fun t => ?_) s
  · exact Keeps.modify fun t => Steady.log t (by simp)
  · refine Keeps.bind (Keeps.modify fun t => ⟨rfl, rfl, rfl, Nat.le_refl _, fun _ _ => .refl _ _,
      [_], rfl, fun a q hq => ?_⟩) fun _ => keeps_incrementTextPc_steady _ _ _
    cases List.mem_singleton.mp hq
    exact Set.mem_singleton r
  · refine Steady.trans ?_ (Steady.log (t.setEncoding r) (by simp))
    unfold Asm.setEncoding
    dsimp only
    split
    · exact Steady.setInst t ⟨rfl, rfl, Or.inr (Or.inr rfl)⟩
    · exact Steady.refl _ _ t

lemma keeps_storeInstruction (env : Env) (r : InstRef) :
    Keeps (steady {r} {r}) (storeInstruction env r) := by
  have hP := plainRel_steady {r} {r}
  refine Keeps.get_bind fun s => KeepsFrom.ite (fun _ => ?_) fun _ => ?_
  · exact hP.placing _ (hP.storeWord _ _ _) s
  · exact KeepsFrom.ite (fun _ => keeps_storeInText env r s) fun _ => KeepsFrom.pure _

/-! Uses. -/

lemma keeps_writeUse (env : Env) (Q : Set InstRef) (s : Asm) (r : InstRef) (a : Word) :
    KeepsFrom (steady Q ∅) (onlyIf (dataBot ≤ a ∧ a < s.machine.stackBot)
      (onMachine (memWriteWord env.tbl a (instEncode (s.machine.insts r))))) s :=
  Keeps.onlyIf ((plainRel_steady Q ∅).memWrite _ _ _ _) s

lemma keeps_resolveUses (env : Env) (k : LabelRef) {Q : Set InstRef} {us : List LabelUse}
    (hQ : ∀ u ∈ us, ∀ r, u.instruction = some r → r ∈ Q) :
    Keeps (steady Q ∅) (resolveUses env k us) := by
  induction us with
  | nil => exact Keeps.pure _
  | cons u us ih =>
    have ih := ih fun v hv => hQ v (List.mem_cons_of_mem _ hv)
    have hu := hQ u List.mem_cons_self
    cases hi : u.instruction with
    | none =>
      simp only [resolveUses, hi]
      exact Keeps.bind (keeps_resolveDatum env Q k _) fun _ => Keeps.get_bind fun s => ih s
    | some r =>
      simp only [resolveUses, hi]
      have hsub : Keeps (steady Q ∅) (resolveALabelSub env k (some r) u.addr) :=
        Keeps.mono (fun s t (h : Steady {r} ∅ s t) => h.mono (Set.singleton_subset_iff.mpr (hu r hi))
          fun _ => id)
          (keeps_resolveALabelSub env k r u.addr) id
      refine Keeps.bind hsub fun _ => Keeps.get_bind fun s => ?_
      exact KeepsFrom.bind (keeps_writeUse env Q s r u.addr) fun _ t _ => ih t

/-- When the uses of a label are resolved, an instruction among them is linked, or the loss of its
use is reported; one that is linked already stays linked. -/
lemma resolveUses_linked {us : List LabelUse} {a : Word}
    (hop : (s.machine.insts r).opcode = some op) (hne : op ≠ .lui)
    (hsym : (s.machine.insts r).symbol = some l) (hr : r < s.machine.nextInst)
    (ha : ∀ u ∈ us, u.instruction = some r → u.addr = a)
    (hs : (∃ u ∈ us, u.instruction = some r) ∨ s.Reached env.delayedBranches a r l)
    (h : (resolveUses env k us).run s = .ok () t) :
    t.Reached env.delayedBranches a r l ∨ s.Loses t := by
  induction us generalizing s with
  | nil =>
    cases h
    rcases hs with ⟨u, hu, -⟩ | hs
    · cases hu
    · exact Or.inl hs
  | cons u us ih =>
    -- the rest of the list, from a state that the head leaves
    have hrest {Q : Set InstRef} {w : Asm} (hw : Steady Q ∅ s w)
        (hsw : (∃ v ∈ us, v.instruction = some r) ∨ w.Reached env.delayedBranches a r l ∨
          s.Loses w) (h : (resolveUses env k us).run w = .ok () t) :
        t.Reached env.delayedBranches a r l ∨ s.Loses t := by
      have hk : Steady Set.univ ∅ w t := (keeps_resolveUses env k fun _ _ _ _ => trivial).ok h
      obtain ⟨new, hnew, -⟩ := hw.events
      obtain ⟨new', hnew', -⟩ := hk.events
      have hstays := hw.insts r hr
      have ih := ih (hstays.opcode.trans hop) (hstays.symbol.trans hsym)
        (Nat.lt_of_lt_of_le hr hw.nextInst) (fun v hv => ha v (List.mem_cons_of_mem _ hv))
      rcases hsw with hv | hv | hc
      · exact (ih (Or.inl hv) h).imp_right fun hc => hc.earlier hnew
      · exact (ih (Or.inr hv) h).imp_right fun hc => hc.earlier hnew
      · exact Or.inr (hc.later hnew')
    cases hi : u.instruction with
    | none =>
      simp only [resolveUses, hi] at h
      obtain ⟨_, s₁, h₁, h⟩ := ok_of_bind h
      have hs₁ : Steady ∅ ∅ s s₁ := (keeps_resolveDatum env ∅ k _).ok h₁
      refine hrest hs₁ ?_ h
      rcases hs with ⟨v, hv, hvr⟩ | hs
      · rcases List.mem_cons.mp hv with rfl | hv
        · cases hi.symm.trans hvr
        · exact Or.inl ⟨v, hv, hvr⟩
      · exact Or.inr (Or.inl (hs₁.reached hr (by simp [hop, hne]) (Set.notMem_empty r) hs))
    | some q =>
      simp only [resolveUses, hi] at h
      obtain ⟨_, s₁, h₁, h⟩ := ok_of_bind h
      obtain ⟨_, _, ⟨⟩, h⟩ := ok_of_bind h
      obtain ⟨_, s₂, h₂, h⟩ := ok_of_bind h
      have hs₁ : Steady {q} ∅ s s₁ := (keeps_resolveALabelSub env k q u.addr).ok h₁
      have hs₂ : Steady ∅ ∅ s₁ s₂ := by
        have hk := keeps_writeUse env ∅ s₁ q u.addr
        rw [KeepsFrom, h₂] at hk
        exact hk
      have hstays := hs₁.insts r hr
      have hkeep (h : s₁.Reached env.delayedBranches a r l) :
          s₂.Reached env.delayedBranches a r l :=
        hs₂.reached (Nat.lt_of_lt_of_le hr hs₁.nextInst) (by simp [hstays.opcode, hop, hne])
          (Set.notMem_empty r) h
      obtain ⟨new₂, hnew₂, -⟩ := hs₂.events
      refine hrest (hs₁.trans (hs₂.mono (Set.empty_subset _) fun _ => id)) ?_ h
      by_cases hq : q = r
      · subst hq
        rw [ha u List.mem_cons_self hi] at h₁
        rcases resolveALabelSub_linked hop hne hsym hr h₁ with h | h
        · exact Or.inr (Or.inl (hkeep h))
        · exact Or.inr (Or.inr (h.later hnew₂))
      · rcases hs with ⟨v, hv, hvr⟩ | hs
        · rcases List.mem_cons.mp hv with rfl | hv
          · cases hi.symm.trans hvr
            exact absurd rfl hq
          · exact Or.inl ⟨v, hv, hvr⟩
        · refine Or.inr (Or.inl (hkeep (hs₁.reached hr (by simp [hop, hne]) ?_ hs)))
          exact fun hmem => hq (Set.mem_singleton_iff.mp hmem).symm

end

end Spimulator
