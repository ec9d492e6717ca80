import Spimulator.DataMemory
import Spimulator.ParseEffect

/-! Where a file starts. The statements before its first segment directive are emitted with the
flags that parsing the whole file has left, and with the in_kernel flag of instruction.c that the
file before has left. -/
namespace Spimulator
open Frame

/-- The addresses of words in a row. -/
def wordsFrom (pc : Word) : ℕ → List Word
  | 0 => []
  | n+1 => pc :: wordsFrom (pc + 4) n

lemma ofNat_four_mul_succ (n : ℕ) : BitVec.ofNat 32 (4*(n+1)) = 4#32 + BitVec.ofNat 32 (4*n) := by
  apply BitVec.eq_of_toNat_eq
  simp only [BitVec.toNat_ofNat, BitVec.toNat_add]
  omega

lemma wordsFrom_add (pc : Word) (m n : ℕ) :
    wordsFrom pc (m + n) = wordsFrom pc m ++ wordsFrom (pc + BitVec.ofNat 32 (4*m)) n := by
  induction m generalizing pc with
  | zero => simp [wordsFrom]
  | succ m ih =>
    rw [Nat.succ_add, wordsFrom, ih, wordsFrom, ofNat_four_mul_succ, ← BitVec.add_assoc]
    rfl

namespace Asm

/-- The addresses at which instructions were stored in text, newest first. -/
def instStores (s : Asm) : List Word :=
  s.events.filterMap fun
    | .instStored a _ => some a
    | _ => none

/-- The addresses at which an instruction could not be stored, newest first. -/
def refusals (s : Asm) : List Word :=
  s.events.filterMap fun
    | .report (.invalidInstAddress a) => some a
    | _ => none

end Asm

/-- Instructions go to user text, and the location counter is a word of its segment, which ends
below the end of the address space. -/
structure UserText (s : Asm) : Prop where
  dataDir : s.dataDir = false
  textDir : s.textDir = true
  user : s.textInKernel = false
  inside : s.machine.inText s.nextTextPc
  aligned : s.nextTextPc &&& 3 = 0
  room : s.machine.textTop ≤ 0xfffffffc

/-- So many instructions were stored from the location counter on, and nothing else in text. -/
structure TextFill (s t : Asm) (n : ℕ) : Prop where
  user : UserText t
  textTop : t.machine.textTop = s.machine.textTop
  counter : t.nextTextPc = s.nextTextPc + BitVec.ofNat 32 (4*n)
  stores : t.instStores = (wordsFrom s.nextTextPc n).reverse ++ s.instStores
  refusals : t.refusals = s.refusals
  inside : ∀ a ∈ wordsFrom s.nextTextPc n, s.machine.inText a ∧ a &&& 3 = 0

lemma inText_congr {m m' : Machine} (h : m'.textTop = m.textTop) (a : Word) :
    m'.inText a ↔ m.inText a := by
  unfold Machine.inText
  rw [h]

namespace TextFill

lemma of_same {s t : Asm} (hs : UserText s) (hd : t.dataDir = s.dataDir)
    (ht : t.textDir = s.textDir) (hk : t.textInKernel = s.textInKernel)
    (hp : t.nextTextPc = s.nextTextPc) (hm : t.machine.textTop = s.machine.textTop)
    (he : t.instStores = s.instStores) (hr : t.refusals = s.refusals) : TextFill s t 0 where
  user :=
    { dataDir := hd.trans hs.dataDir
      textDir := ht.trans hs.textDir
      user := hk.trans hs.user
      inside := by
        rw [hp]
        exact (inText_congr hm _).mpr hs.inside
      aligned := by
        rw [hp]
        exact hs.aligned
      room := by
        rw [hm]
        exact hs.room }
  textTop := hm
  counter := by
    rw [hp]
    simp
  stores := he
  refusals := hr
  inside := by simp [wordsFrom]

lemma trans {s t u : Asm} {m n : ℕ} (h : TextFill s t m) (h' : TextFill t u n) :
    TextFill s u (m + n) where
  user := h'.user
  textTop := h'.textTop.trans h.textTop
  counter := by
    rw [h'.counter, h.counter, BitVec.add_assoc, Nat.mul_add, BitVec.ofNat_add]
  stores := by
    rw [h'.stores, h.stores, h.counter, wordsFrom_add, List.reverse_append, List.append_assoc]
  refusals := h'.refusals.trans h.refusals
  inside := by
    intro a ha
    rw [wordsFrom_add, ← h.counter] at ha
    rcases List.mem_append.mp ha with ha | ha
    · exact h.inside a ha
    · have hin := h'.inside a ha
      exact ⟨(inText_congr h.textTop a).mp hin.1, hin.2⟩

end TextFill

/-- Runs that return leave user text filled by the instructions they store. -/
def userFill : Rel Asm where
  rel s t := UserText s → ∃ n, TextFill s t n
  refl _ hs := ⟨0, .of_same hs rfl rfl rfl rfl rfl rfl rfl⟩
  trans h h' hs := by
    obtain ⟨m, hm⟩ := h hs
    obtain ⟨n, hn⟩ := h' hm.user
    exact ⟨m + n, hm.trans hn⟩
  upTo _ _ := True
  upTo_refl _ := trivial

/-! Storing an instruction. -/

lemma incrementTextPc_run {s t : Asm} {delta : Word}
    (h : (incrementTextPc delta).run s = .ok () t) (hs : s.textInKernel = false) :
    t = { s with nextTextPc := s.nextTextPc + delta } ∧ t.nextTextPc < t.machine.textTop := by
  obtain ⟨_, s₁, h₁, h⟩ := ok_of_bind h
  have hpc : s₁ = { s with nextTextPc := s.nextTextPc + delta } := by
    cases h₁
    simp [Asm.setTextPc, Asm.currentTextPc, hs]
  subst hpc
  change (if s.textInKernel then _ else onlyIf (s.machine.textTop ≤ s.nextTextPc + delta)
    (throw .expandText) : Assemble Unit).run _ = _ at h
  rw [if_neg (by simp [hs])] at h
  by_cases htop : s.machine.textTop ≤ s.nextTextPc + delta
  · rw [onlyIf_pos htop] at h
    cases h
  · rw [onlyIf_neg htop] at h
    cases h
    exact ⟨rfl, by simpa using htop⟩

/-- The word after a word of the segment, if it is below the bound. -/
lemma inText_add_four {m : Machine} {pc : Word} (hpc : m.inText pc) (ha : pc &&& 3 = 0)
    (hroom : m.textTop ≤ 0xfffffffc) (htop : pc + 4 < m.textTop) :
    m.inText (pc + 4) ∧ (pc + 4) &&& 3 = 0 := by
  have hbot : textBot ≤ pc := hpc.1
  have hlt : pc < m.textTop := hpc.2
  simp only [BitVec.le_def, BitVec.lt_def] at hbot hlt hroom
  have hle : textBot ≤ pc + 4 := by
    rw [BitVec.le_def]
    bv_omega
  refine ⟨⟨hle, htop⟩, ?_⟩
  have hmod : pc.toNat % 4 = 0 := (Width.and_mask_eq_zero .word pc).mp ha
  refine (Width.and_mask_eq_zero .word (pc + 4)).mpr ?_
  change (pc + 4).toNat % 4 = 0
  rw [BitVec.toNat_add]
  change (pc.toNat + 4) % 2^32 % 4 = 0
  omega

lemma memWriteInst_text (tbl : AOpcodeTbl) {m : Machine} {addr : Word} (h : m.inText addr)
    (ha : addr &&& 3 = 0) (i : Option InstRef) :
    (memWriteInst tbl addr i).run m = .ok () (m.setText (Machine.textIndex addr) i) := by
  change (if m.inText addr ∧ addr &&& 3 = 0 then
    (set (m.setText (Machine.textIndex addr) i) : Exec Unit) else _).run m = _
  rw [if_pos ⟨h, ha⟩]
  rfl

/-- store_instruction at a word of user text, when incrementing the counter succeeds. -/
lemma storeInText_run {env : Env} {r : InstRef} {s t : Asm} (hs : UserText s)
    (h : (storeInText env r).run s = .ok () t) :
    s.nextTextPc + 4 < s.machine.textTop ∧
      t = (Asm.setEncoding { s.setMachine (({ s.machine with exceptionOccurred := false }).setText
          (Machine.textIndex s.nextTextPc) (some r)) with
        events := .instStored s.nextTextPc r :: s.events
        nextTextPc := s.nextTextPc + 4 } r).fireTextInst s.nextTextPc r := by
  have hpc : s.currentTextPc = s.nextTextPc := by simp [Asm.currentTextPc, hs.user]
  obtain ⟨_, _, h₀, h⟩ := ok_of_bind h
  cases h₀
  dsimp only at h
  rw [hpc] at h
  obtain ⟨_, s₁, h₁, h⟩ := ok_of_bind h
  have hm₁ : s₁.machine.textTop = s.machine.textTop := by
    cases h₁
    rfl
  have hs₁ : s₁ = s.setMachine s₁.machine := by
    cases h₁
    rfl
  have hex : s₁.machine.exceptionOccurred = false := by
    cases h₁
    rfl
  obtain ⟨_, s₂, h₂, h⟩ := ok_of_bind h
  rw [onMachine_run (memWriteInst_text env.tbl ((inText_congr hm₁ _).mpr hs.inside) hs.aligned _)]
    at h₂
  cases h₂
  obtain ⟨_, _, h₂, h⟩ := ok_of_bind h
  cases h₂
  obtain ⟨_, s₃, h₃, h⟩ := ok_of_bind h
  have hex₂ : (s₁.setMachine (s₁.machine.setText (Machine.textIndex s.nextTextPc) (some r))).machine.exceptionOccurred
      = false := hex
  rw [if_neg (by simp [hex₂])] at h₃
  obtain ⟨_, s₄, h₄, h₃⟩ := ok_of_bind h₃
  cases h₄
  have huser : s₁.textInKernel = false := by
    cases h₁
    exact hs.user
  obtain ⟨hs₃, htop⟩ := incrementTextPc_run h₃ huser
  cases h
  subst hs₃
  refine ⟨?_, ?_⟩
  · cases h₁
    exact htop
  · cases h₁
    rfl

lemma setEncoding_eq (s : Asm) (r : InstRef) : s.setEncoding r = s ∨
    s.setEncoding r =
      s.setInst r { s.machine.insts r with encoding := instEncode (s.machine.insts r) } := by
  unfold Asm.setEncoding
  dsimp only
  split
  · exact Or.inr rfl
  · exact Or.inl rfl

lemma storeInText_fill {env : Env} {r : InstRef} {s t : Asm} (hs : UserText s)
    (h : (storeInText env r).run s = .ok () t) : TextFill s t 1 := by
  obtain ⟨htop, ht⟩ := storeInText_run hs h
  generalize hm' : Machine.setText { s.machine with exceptionOccurred := false } _ _ = m at ht
  have hm : m.textTop = s.machine.textTop := by
    rw [← hm']
    rfl
  obtain ⟨hin, ha⟩ := inText_add_four hs.inside hs.aligned hs.room htop
  have hstored : TextFill s { s.setMachine m with
      events := .instStored s.nextTextPc r :: s.events
      nextTextPc := s.nextTextPc + 4 } 1 :=
    { user :=
        { dataDir := hs.dataDir
          textDir := hs.textDir
          user := hs.user
          inside := (inText_congr hm _).mpr hin
          aligned := ha
          room := hm ▸ hs.room }
      textTop := hm
      counter := rfl
      stores := rfl
      refusals := rfl
      inside := by
        intro a ha
        rw [List.mem_singleton.mp ha]
        exact ⟨hs.inside, hs.aligned⟩ }
  rw [ht]
  refine TextFill.trans (m := 1) (n := 0) hstored ?_
  rcases setEncoding_eq { s.setMachine m with
      events := .instStored s.nextTextPc r :: s.events
      nextTextPc := s.nextTextPc + 4 } r with he | he
  · rw [he]
    exact .of_same hstored.user rfl rfl rfl rfl rfl rfl rfl
  · rw [he]
    exact .of_same hstored.user rfl rfl rfl rfl rfl rfl rfl

/-- Under a text directive, in user text, store_instruction stores at the location counter. -/
lemma storeInstruction_fill {env : Env} {r : InstRef} {s t : Asm} (hs : UserText s)
    (h : (storeInstruction env r).run s = .ok () t) : TextFill s t 1 := by
  change (if s.dataDir then _ else if s.textDir then storeInText env r else _ :
    Assemble Unit).run s = _ at h
  rw [if_neg (by simp [hs.dataDir]), if_pos hs.textDir] at h
  exact storeInText_fill hs h

/-! Instructions. -/

/-- Runs that return have stored an instruction. -/
def Emits (x : Assemble Unit) : Prop :=
  ∀ s t, UserText s → x.run s = .ok () t → ∃ n, 0 < n ∧ TextFill s t n

namespace Emits

lemma keeps {x : Assemble Unit} (h : Emits x) : Keeps userFill x := by
  intro s
  rw [KeepsFrom]
  cases hr : x.run s with
  | ok a t =>
    intro hs
    obtain ⟨n, -, hn⟩ := h s t hs hr
    exact ⟨n, hn⟩
  | error e t => exact ⟨s, userFill.refl s, trivial⟩

lemma bind {α : Type} {x : Assemble α} {f : α → Assemble Unit} (hx : Keeps userFill x)
    (hf : ∀ a, Emits (f a)) : Emits (x >>= f) := by
  intro s u hs h
  obtain ⟨a, t, ht, hu⟩ := ok_of_bind h
  obtain ⟨m, hm⟩ := hx.ok ht hs
  obtain ⟨n, hn, hfill⟩ := hf a t u hm.user hu
  exact ⟨m + n, by omega, hm.trans hfill⟩

lemma bind_left {x : Assemble Unit} {f : Unit → Assemble Unit} (hx : Emits x)
    (hf : ∀ a, Keeps userFill (f a)) : Emits (x >>= f) := by
  intro s u hs h
  obtain ⟨a, t, ht, hu⟩ := ok_of_bind h
  obtain ⟨m, hm, hfill⟩ := hx s t hs ht
  obtain ⟨n, hn⟩ := (hf a).ok hu hfill.user
  exact ⟨m + n, by omega, hfill.trans hn⟩

lemma ite {c : Prop} [Decidable c] {x y : Assemble Unit} (hx : Emits x) (hy : Emits y) :
    Emits (if c then x else y) := by
  split
  · exact hx
  · exact hy

lemma throw (e : AsmHalt) : Emits (MonadExcept.throw e) := by
  intro s t _ h
  cases h

lemma get_bind {f : Asm → Assemble Unit} (hf : ∀ s, Emits (f s)) : Emits (get >>= f) :=
  bind Keeps.get hf

lemma store (env : Env) (r : InstRef) : Emits (storeInstruction env r) :=
  fun _ _ hs h => ⟨1, by omega, storeInstruction_fill hs h⟩

end Emits

lemma userFill_of_same {s t : Asm} (hd : t.dataDir = s.dataDir)
    (ht : t.textDir = s.textDir) (hk : t.textInKernel = s.textInKernel)
    (hp : t.nextTextPc = s.nextTextPc) (hm : t.machine.textTop = s.machine.textTop)
    (he : t.instStores = s.instStores) (hr : t.refusals = s.refusals) : userFill.rel s t :=
  fun hs => ⟨0, .of_same hs hd ht hk hp hm he hr⟩

theorem resolveRel_userFill : ResolveRel userFill where
  machine s m h := userFill_of_same rfl rfl rfl rfl h.textTop rfl rfl
  setInst _ _ _ _ := userFill_of_same rfl rfl rfl rfl rfl rfl rfl
  report s r h := by
    refine userFill_of_same rfl rfl rfl rfl rfl rfl ?_
    cases r <;> first | rfl | cases h
  use _ _ _ := userFill_of_same rfl rfl rfl rfl rfl rfl rfl

theorem instRel_userFill (env : Env) : InstRel env userFill :=
  { resolveRel_userFill with
    addUse := fun _ _ _ _ _ => userFill_of_same rfl rfl rfl rfl rfl rfl rfl
    store := fun r => (Emits.store env r).keeps }

namespace Emits

variable {env : Env}

lemma storeNew (i : Inst) : Emits (storeNew env i) :=
  bind ((instRel_userFill env).newInst i) fun r => store env r

lemma recordInstUsesSymbol_keeps (r : InstRef) (l : LabelRef) :
    Keeps userFill (recordInstUsesSymbol r l) := by
  have huse (u : LabelUse) : Keeps userFill (addUse l u) :=
    Keeps.modify fun _ => userFill_of_same rfl rfl rfl rfl rfl rfl rfl
  refine Keeps.get_bind fun s => Keeps.ite (fun _ => ?_) (fun _ => huse _) s
  exact Keeps.bind (resolveRel_userFill.copyInst r) fun _ => huse _

lemma storeExprInst (r : InstRef) (e : ImmExpr) : Emits (storeExprInst env r e) := by
  have hresolve (l : Option LabelRef) := (instRel_userFill env).resolveALabel env l r
  refine get_bind fun s => ?_
  cases e.symbol with
  | none => exact bind (hresolve none) fun _ => store env r
  | some l =>
    refine ite ?_ ?_
    · exact bind (hresolve (some l)) fun _ => store env r
    · exact bind (recordInstUsesSymbol_keeps r l) fun _ => store env r

lemma jTypeInst (op : Opcode) (target : ImmExpr) : Emits (jTypeInst env op target) :=
  bind ((instRel_userFill env).newInst _) fun r => storeExprInst r _

section

variable {emitI : Opcode → Word → Word → ImmExpr → Assemble Unit}
  (hI : ∀ op rt rs e, Emits (emitI op rt rs e))

include hI

lemma produceImmediate (e : ImmExpr) (rt : Word) (v : Option Word) :
    Emits (produceImmediate emitI e rt v) := by
  refine ite (hI _ _ _ _) (ite (hI _ _ _ _) ?_)
  exact bind (hI _ _ _ _).keeps fun _ => hI _ _ _ _

lemma iTypeInstFullWord (op : Opcode) (rt rs : Word) (e : ImmExpr) (v : Option Word) :
    Emits (iTypeInstFullWord env emitI op rt rs e v) := by
  have hadd : Keeps userFill (onlyIf (rs ≠ 0) (rTypeInst env .addu 1 1 rs)) :=
    Keeps.onlyIf (storeNew _).keeps
  refine get_bind fun s => ite ?_ (ite (hI _ _ _ _) ?_)
  · split
    · exact hI _ _ _ _
    · refine ite ?_ (hI _ _ _ _)
      exact bind (hI _ _ _ _).keeps fun _ => bind hadd fun _ => hI _ _ _ _
    · exact bind (hI _ _ _ _).keeps fun _ => bind hadd fun _ => hI _ _ _ _
  · split
    · exact hI _ _ _ _
    · refine ite (produceImmediate hI _ _ _) ?_
      refine bind (produceImmediate hI _ _ _).keeps fun _ => ?_
      cases immOpToOp op with
      | none => exact throw _
      | some op' => exact storeNew _

end

lemma iTypeInst (n : ℕ) (op : Opcode) (rt rs : Word) (e : ImmExpr) :
    Emits (iTypeInst env n op rt rs e) := by
  induction n generalizing op rt rs e with
  | zero => exact throw _
  | succ n ih =>
    refine bind ((instRel_userFill env).newInst _) fun r => get_bind fun s => ite ?_ ?_
    · refine bind ((instRel_userFill env).evalImmExpr e) fun v => ite ?_ (storeExprInst r e)
      exact iTypeInstFullWord ih _ _ _ _ _
    · exact ite (storeExprInst r e) (iTypeInstFullWord ih _ _ _ _ _)

theorem emitInst (i : InstNode) : Emits (emitInst env i) := by
  cases i with
  | r | rShift | fpR | fpCompare => exact storeNew _
  | i op rt rs imm => exact iTypeInst _ _ _ _ _
  | j op target => exact jTypeInst _ _

end Emits

/-! Other statements leave user text as it is. -/

theorem symbolRel_userFill (D G : Set String) : SymbolRel D G userFill where
  toResolveRel := resolveRel_userFill
  labelDef _ _ _ _ := userFill_of_same rfl rfl rfl rfl rfl rfl rfl
  newLabel _ _ _ := userFill_of_same rfl rfl rfl rfl rfl rfl rfl
  clearUses _ _ := userFill_of_same rfl rfl rfl rfl rfl rfl rfl
  define _ _ _ _ _ := userFill_of_same rfl rfl rfl rfl rfl rfl rfl
  linkLocal _ _ _ _ := userFill_of_same rfl rfl rfl rfl rfl rfl rfl
  declareGlobal _ _ _ := userFill_of_same rfl rfl rfl rfl rfl rfl rfl
  constant _ _ _ := userFill_of_same rfl rfl rfl rfl rfl rfl rfl
  pend _ _ _ := userFill_of_same rfl rfl rfl rfl rfl rfl rfl
  unpend _ _ _ _ _ := userFill_of_same rfl rfl rfl rfl rfl rfl rfl
  parseError s r h := by
    refine userFill_of_same rfl rfl rfl rfl rfl rfl ?_
    cases r <;> first | rfl | cases h

theorem dataRel_userFill : DataRel userFill :=
  { resolveRel_userFill with
    stored := fun _ _ _ => userFill_of_same rfl rfl rfl rfl rfl rfl rfl
    fired := fun _ _ _ => userFill_of_same rfl rfl rfl rfl rfl rfl rfl
    dataPc := fun s v => by
      unfold Asm.setDataPc
      split
      · exact userFill_of_same rfl rfl rfl rfl rfl rfl rfl
      · exact userFill_of_same rfl rfl rfl rfl rfl rfl rfl }

lemma userFill_move (s : Asm) (a : Word) : userFill.rel s (s.fixCurrentLabelAddress a) :=
  userFill_of_same rfl rfl rfl rfl rfl rfl rfl

lemma userFill_alignData (s : Asm) (v : Word) : userFill.rel s (s.alignData v) :=
  rel_alignData userFill_move (fun _ => userFill_of_same rfl rfl rfl rfl rfl rfl rfl)
    dataRel_userFill.dataPc s v

theorem nodeRel_userFill (env : Env) : NodeRel env Set.univ Set.univ userFill :=
  { (symbolRel_userFill _ _).toRecordRel with
    addUse := fun _ _ _ _ _ => userFill_of_same rfl rfl rfl rfl rfl rfl rfl
    dataInt := dataRel_userFill.storeDataInt env.tbl
    dataFp := dataRel_userFill.storeDataFp env
    dataString := fun _ _ => dataRel_userFill.placing _ (dataRel_userFill.storeString _ _ _ _)
    space := dataRel_userFill.incrementDataPc
    directive := rel_alignDirective userFill_move userFill_alignData
    common := fun s => userFill_alignData s 2 }

/-- No instruction is stored in text. -/
def sameStores : Rel Asm := Rel.same Asm.instStores

theorem symbolRel_sameStores (D G : Set String) : SymbolRel D G sameStores where
  labelDef _ _ _ _ := rfl
  machine _ _ _ := rfl
  setInst _ _ _ _ := rfl
  report _ _ _ := rfl
  use _ _ _ := rfl
  newLabel _ _ _ := rfl
  clearUses _ _ := rfl
  define _ _ _ _ _ := rfl
  linkLocal _ _ _ _ := rfl
  declareGlobal _ _ _ := rfl
  constant _ _ _ := rfl
  pend _ _ _ := rfl
  unpend _ _ _ _ _ := rfl
  parseError _ _ _ := rfl

lemma sameStores_dataPc (s : Asm) (v : Word) : sameStores.rel s (s.setDataPc v) := by
  unfold Asm.setDataPc
  split <;> rfl

theorem dataRel_sameStores : DataRel sameStores :=
  { (symbolRel_sameStores ∅ ∅).toResolveRel with
    stored := fun _ _ _ => rfl
    fired := fun _ _ _ => rfl
    dataPc := sameStores_dataPc }

lemma sameStores_alignData (s : Asm) (v : Word) : sameStores.rel s (s.alignData v) :=
  rel_alignData (fun _ _ => rfl) (fun _ => rfl) sameStores_dataPc s v

theorem nodeRel_sameStores (env : Env) : NodeRel env Set.univ Set.univ sameStores :=
  { (symbolRel_sameStores _ _).toRecordRel with
    addUse := fun _ _ _ _ _ => rfl
    dataInt := dataRel_sameStores.storeDataInt env.tbl
    dataFp := dataRel_sameStores.storeDataFp env
    dataString := fun _ _ => dataRel_sameStores.placing _ (dataRel_sameStores.storeString _ _ _ _)
    space := dataRel_sameStores.incrementDataPc
    directive := rel_alignDirective (fun _ _ => rfl) sameStores_alignData
    common := fun s => sameStores_alignData s 2 }

lemma wordsFrom_length (pc : Word) (n : ℕ) : (wordsFrom pc n).length = n := by
  induction n generalizing pc with
  | zero => rfl
  | succ n ih => rw [wordsFrom, List.length_cons, ih]

lemma TextFill.eq_zero {s t : Asm} {n : ℕ} (h : TextFill s t n)
    (hs : t.instStores = s.instStores) : n = 0 := by
  have hlen := congrArg List.length (hs.symm.trans h.stores)
  rw [List.length_append, List.length_reverse, wordsFrom_length] at hlen
  omega

/-! The statements before the first segment directive. -/

/-- The addresses that a statement fills from the location counter on, and the counter after it. -/
inductive Places : AstNode → Word → List Word → Word → Prop
  | align {k pc : Word} (h : k ≠ 0) : Places (.dirAlign k) pc [] (alignUp k pc)
  | code {n : AstNode} {pc : Word} {k : ℕ} (h : n.isCode = true) (hk : 0 < k) :
      Places n pc (wordsFrom pc k) (pc + BitVec.ofNat 32 (4*k))
  | other {n : AstNode} {pc : Word} (h : n.isCode = false) (hk : ∀ k, n = .dirAlign k → k = 0) :
      Places n pc [] pc

/-- Statement follows statement. -/
inductive TextLayout : Word → List AstNode → List Word → Word → Prop
  | nil (pc : Word) : TextLayout pc [] [] pc
  | cons {n : AstNode} {ns : List AstNode} {as bs : List Word} {pc pc' pc'' : Word}
      (h : Places n pc as pc') (h' : TextLayout pc' ns bs pc'') :
      TextLayout pc (n :: ns) (as ++ bs) pc''

/-- The statements fill user text from the location counter on. -/
structure FillsUserText (ns : List AstNode) (as : List Word) (s t : Asm) : Prop where
  user : UserText t
  textTop : t.machine.textTop = s.machine.textTop
  layout : TextLayout s.nextTextPc ns as t.nextTextPc
  stores : t.instStores = as.reverse ++ s.instStores
  refusals : t.refusals = s.refusals
  inside : ∀ a ∈ as, s.machine.inText a ∧ a &&& 3 = 0

lemma userText_log {s : Asm} (hs : UserText s) (n : NodeRef) :
    TextFill s (s.log (.emitted n)) 0 := .of_same hs rfl rfl rfl rfl rfl rfl rfl

lemma clearLabels_fill (env : Env) (n : AstNode) {s t : Asm} (hs : UserText s)
    (h : (onlyIf (n.keepsLabels = false) (clearLabels env)).run s = .ok () t) :
    TextFill s t 0 := by
  obtain ⟨m, hm⟩ := (Keeps.onlyIf ((symbolRel_userFill ∅ ∅).toRecordRel.clearLabels env)).ok h hs
  have hstores := (Keeps.onlyIf ((symbolRel_sameStores ∅ ∅).toRecordRel.clearLabels env)).ok h
  rwa [hm.eq_zero hstores] at hm

lemma emitDirAlign_text {s : Asm} (hs : s.textDir = true) {k : Word} (hk : k ≠ 0) :
    emitDirAlign k s = Asm.fixCurrentLabelAddress (s.setTextPc (alignUp k s.currentTextPc))
      (s.setTextPc (alignUp k s.currentTextPc)).currentTextPc := by
  unfold emitDirAlign
  rw [if_neg hk]
  dsimp only
  rw [if_pos hs, Asm.alignText, if_neg hk]

lemma alignUp_aligned {pc : Word} (h : pc &&& 3 = 0) (k : Word) : alignUp k pc &&& 3 = 0 := by
  have hlt : k.toNat % 32 < 32 := Nat.mod_lt _ (by omega)
  have hmod : pc.toNat % 4 = 0 := (Width.and_mask_eq_zero .word pc).mp h
  have hdvd : 2^2 ∣ pc.toNat := Nat.dvd_of_mod_eq_zero hmod
  refine (Width.and_mask_eq_zero .word (alignUp k pc)).mpr ?_
  exact Nat.mod_eq_zero_of_dvd (Alignment.pow_dvd_roundUp_of_dvd hlt hdvd)

lemma emitDirAlign_zero (s : Asm) :
    userFill.rel s (emitDirAlign 0 s) ∧ sameStores.rel s (emitDirAlign 0 s) := by
  unfold emitDirAlign Asm.alignText Asm.alignData
  simp only [if_true]
  split
  · exact ⟨userFill_of_same rfl rfl rfl rfl rfl rfl rfl, rfl⟩
  · exact ⟨userFill_of_same rfl rfl rfl rfl rfl rfl rfl, rfl⟩

lemma code_emits {env : Env} {n : AstNode} (h : n.isCode = true) : Emits (emitOne env n) := by
  cases n with
  | inst i => exact Emits.emitInst i
  | pseudo cs =>
    cases cs with
    | nil => cases h
    | cons c cs =>
      have hI := instRel_userFill env
      refine Emits.bind_left (Emits.emitInst c) fun _ => ?_
      refine Keeps.bind ((symbolRel_userFill ∅ ∅).toRecordRel.clearLabels env) fun _ => ?_
      exact (nodeRel_userFill env).emitChildren hI cs
  | dataInt | dataFp | dataString | dirSeg | dirAlign | dirSpace | dirGlobl | dirExtern | dirComm
  | labelNormal | labelConst => cases h

/-- A statement other than a segment directive or a proper alignment. -/
lemma emitOne_fills {env : Env} {n : AstNode} {s t : Asm} (hs : UserText s)
    (hseg : n.isSeg = false) (halign : ∀ k, n = .dirAlign k → k = 0)
    (h : (emitOne env n).run s = .ok () t) :
    ∃ k, TextFill s t k ∧ (n.isCode = true → 0 < k) ∧ (n.isCode = false → k = 0) := by
  have hnoseg : ∀ kind a, n ≠ .dirSeg kind a := by
    rintro kind a rfl
    cases hseg
  cases hc : n.isCode with
  | true =>
    obtain ⟨k, hk, hfill⟩ := code_emits hc s t hs h
    exact ⟨k, hfill, fun _ => hk, fun hc => Bool.noConfusion hc⟩
  | false =>
    have hcode : n.isCode ≠ true := by simp [hc]
    obtain ⟨k, hk⟩ := ((nodeRel_userFill env).emitOne n (fun _ _ => trivial) (fun _ _ => trivial)
      (fun hn => absurd hn hcode) (fun kind a hn => absurd hn (hnoseg kind a))
      fun v hn u => by rw [halign v hn]; exact (emitDirAlign_zero u).1).ok h hs
    have hstores := ((nodeRel_sameStores env).emitOne n (fun _ _ => trivial) (fun _ _ => trivial)
      (fun hn => absurd hn hcode) (fun kind a hn => absurd hn (hnoseg kind a))
      fun v hn u => by rw [halign v hn]; exact (emitDirAlign_zero u).2).ok h
    exact ⟨k, hk, fun hc => Bool.noConfusion hc, fun _ => hk.eq_zero hstores⟩

lemma TextLayout.one {n : AstNode} {pc pc' : Word} {as : List Word} (h : Places n pc as pc') :
    TextLayout pc [n] as pc' := by
  have hlayout := TextLayout.cons h (.nil pc')
  rwa [List.append_nil] at hlayout

lemma FillsUserText.of_fill {n : AstNode} {s t : Asm} {k : ℕ} (h : TextFill s t k)
    (hp : Places n s.nextTextPc (wordsFrom s.nextTextPc k) t.nextTextPc) :
    FillsUserText [n] (wordsFrom s.nextTextPc k) s t where
  user := h.user
  textTop := h.textTop
  layout := .one hp
  stores := h.stores
  refusals := h.refusals
  inside := h.inside

/-- An alignment that stays inside the segment. -/
lemma emitDirAlign_fills {s : Asm} (hs : UserText s) {k : Word} (hk : k ≠ 0)
    (hin : s.machine.inText (alignUp k s.nextTextPc)) :
    FillsUserText [.dirAlign k] [] s (emitDirAlign k s) := by
  have hpc : s.setTextPc (alignUp k s.currentTextPc) =
      { s with nextTextPc := alignUp k s.nextTextPc } := by
    simp [Asm.setTextPc, Asm.currentTextPc, hs.user]
  rw [emitDirAlign_text hs.textDir hk, hpc]
  exact
    { user :=
        { dataDir := hs.dataDir
          textDir := hs.textDir
          user := hs.user
          inside := hin
          aligned := alignUp_aligned hs.aligned k
          room := hs.room }
      textTop := rfl
      layout := .one (.align hk)
      stores := rfl
      refusals := rfl
      inside := by simp }

lemma TextLayout.append {ns ms : List AstNode} {as bs : List Word} {pc pc' pc'' : Word}
    (h : TextLayout pc ns as pc') (h' : TextLayout pc' ms bs pc'') :
    TextLayout pc (ns ++ ms) (as ++ bs) pc'' := by
  induction h with
  | nil pc => exact h'
  | cons hp _ ih =>
    rw [List.append_assoc]
    exact .cons hp (ih h')

lemma FillsUserText.nil {s t : Asm} (h : TextFill s t 0) : FillsUserText [] [] s t where
  user := h.user
  textTop := h.textTop
  layout := by
    rw [h.counter]
    simpa using TextLayout.nil s.nextTextPc
  stores := h.stores
  refusals := h.refusals
  inside := by simp

lemma FillsUserText.trans {ns ms : List AstNode} {as bs : List Word} {s t u : Asm}
    (h : FillsUserText ns as s t) (h' : FillsUserText ms bs t u) :
    FillsUserText (ns ++ ms) (as ++ bs) s u where
  user := h'.user
  textTop := h'.textTop.trans h.textTop
  layout := h.layout.append h'.layout
  stores := by rw [h'.stores, h.stores, List.reverse_append, List.append_assoc]
  refusals := h'.refusals.trans h.refusals
  inside := by
    intro a ha
    rcases List.mem_append.mp ha with ha | ha
    · exact h.inside a ha
    · have hin := h'.inside a ha
      exact ⟨(inText_congr h.textTop a).mp hin.1, hin.2⟩

/-- One statement. -/
lemma emitNode_fills {env : Env} {n : NodeRef × AstNode} {s t : Asm} (hs : UserText s)
    (hseg : n.2.isSeg = false)
    (halign : ∀ k, n.2 = .dirAlign k → k ≠ 0 → s.machine.inText (alignUp k s.nextTextPc))
    (h : (emitNode env n).run s = .ok () t) : ∃ as, FillsUserText [n.2] as s t := by
  obtain ⟨_, s₁, h₁, h⟩ := ok_of_bind h
  obtain ⟨_, s₂, h₂, h⟩ := ok_of_bind h
  have hlog : TextFill s s₁ 0 := by
    cases h₁
    exact userText_log hs n.1
  have hone : ∃ as, FillsUserText [n.2] as s₁ s₂ := by
    by_cases hk : ∃ k, n.2 = .dirAlign k ∧ k ≠ 0
    · obtain ⟨k, hn, hk⟩ := hk
      have hin := halign k hn hk
      cases h₁
      rw [hn] at h₂ ⊢
      cases h₂
      exact ⟨[], emitDirAlign_fills hlog.user hk hin⟩
    · have hzero : ∀ k, n.2 = .dirAlign k → k = 0 := by
        intro k hn
        by_contra hne
        exact hk ⟨k, hn, hne⟩
      obtain ⟨k, hfill, hpos, hnone⟩ := emitOne_fills hlog.user hseg hzero h₂
      refine ⟨_, .of_fill hfill ?_⟩
      rw [hfill.counter]
      cases hc : n.2.isCode with
      | true => exact .code hc (hpos hc)
      | false =>
        rw [hnone hc]
        simpa [wordsFrom] using Places.other hc hzero
  obtain ⟨as, hone⟩ := hone
  have hclear := FillsUserText.nil (clearLabels_fill env n.2 hone.user h)
  have hall := ((FillsUserText.nil hlog).trans hone).trans hclear
  rw [List.append_nil] at hall
  exact ⟨_, hall⟩

/-- The statements before a segment directive, when none of their alignments leaves the segment. -/
theorem emitNodes_fills {env : Env} {lead : List (NodeRef × AstNode)} {s t : Asm}
    (hs : UserText s) (hseg : ∀ n ∈ lead, n.2.isSeg = false)
    (halign : ∀ before n after, lead = before ++ n :: after → ∀ k, n.2 = .dirAlign k → k ≠ 0 →
      ∀ u, (emitNodes env before).run s = .ok () u → u.machine.inText (alignUp k u.nextTextPc))
    (h : (emitNodes env lead).run s = .ok () t) :
    ∃ as, FillsUserText (lead.map Prod.snd) as s t := by
  induction lead generalizing s with
  | nil =>
    cases h
    exact ⟨[], .nil (.of_same hs rfl rfl rfl rfl rfl rfl rfl)⟩
  | cons n lead ih =>
    rw [emitNodes_cons] at h
    obtain ⟨_, u, hu, h⟩ := ok_of_bind h
    obtain ⟨as, hn⟩ := emitNode_fills hs (hseg n List.mem_cons_self)
      (fun k hk hne => halign [] n lead rfl k hk hne s rfl) hu
    have hrest : ∀ before m after, lead = before ++ m :: after → ∀ k, m.2 = .dirAlign k → k ≠ 0 →
        ∀ v, (emitNodes env before).run u = .ok () v → v.machine.inText (alignUp k v.nextTextPc) := by
      intro before m after he k hk hne v hv
      refine halign (n :: before) m after (by rw [he]; rfl) k hk hne v ?_
      rw [emitNodes_cons, EStateM.run_bind, hu]
      exact hv
    obtain ⟨bs, hlead⟩ := ih hn.user (fun m hm => hseg m (List.mem_cons_of_mem _ hm)) hrest h
    exact ⟨as ++ bs, hn.trans hlead⟩

end Spimulator
