import Spimulator.TokensAhead

/-! The request of an operand for an identifier. -/
namespace Spimulator
open Frame

/-! Operands. -/

/-- parse_address after its leading integers -/
def addressPlus (env : AsmEnv) (imm : Word) : Option String → Assemble (ImmExpr × Word)
  | some sym => do
    let _ ← scannerAdvance env
    scannerForceIdentifier
    let _ ← scannerAdvance env
    makeAddrExpr imm (some sym) 0
  | none => do
    let reg ← parseBase env
    makeAddrExpr imm none reg

lemma parseIntAddress_eq (env : AsmEnv) : parseIntAddress env = (do
    let imm ← parseAbsAddr env
    let t ← scannerPeek env
    if t = .punct '+' then
      let t₂ ← scannerPeek2 env
      addressPlus env imm t₂.asId
    else addressPlus env imm none) := rfl

/-- parse_address after its request for an identifier -/
def addressRest (env : AsmEnv) : Assemble (ImmExpr × Word) := do
  if ← takePunct env '(' then
    let reg ← parseRegister env
    expect env ')' "Expected ')' after register"
    makeAddrExpr 0 none reg
  else
    let t ← scannerPeek env
    match t.asInt with
    | some _ => parseIntAddress env
    | none =>
      match ← takeToken env Token.asId with
      | some sym =>
        let off ← parseSymbolOffset env
        let reg ← parseBase env
        makeAddrExpr off (some sym) reg
      | none =>
        parseErrorAt "Expected address"
        makeAddrExpr 0 none 0

/-- The operands that ask for an identifier. -/
inductive ForcingOperand
  | expression | imm32 | address

namespace ForcingOperand

def parse (env : AsmEnv) : ForcingOperand → Assemble Unit
  | expression => do
    let _ ← parseExpression env
    pure ()
  | imm32 => do
    let _ ← parseImm32 env
    pure ()
  | address => do
    let _ ← parseAddress env
    pure ()

/-- Whether the operand goes on with the second token after the first, where the first is read. -/
def goesOn : ForcingOperand → Token → Token → Bool
  | expression, .punct c, _ => c ∈ ['(', '*', '/', '+', '-']
  | imm32, .punct '(', .int _ | imm32, .int _, .int _ | address, .int _, .int _ => true
  | _, _, _ => false

lemma goesOn_expression (c : Char) (f : Token) :
    expression.goesOn (.punct c) f = decide (c ∈ ['(', '*', '/', '+', '-']) := rfl

lemma goesOn_imm32 {c : Char} (hc : c ≠ '(') (f : Token) : imm32.goesOn (.punct c) f = false := by
  simp [goesOn, hc]

deriving instance DecidableEq, Repr for ForcingOperand

/-- After the request. -/
def rest (env : AsmEnv) : ForcingOperand → Assemble Unit
  | expression => do
    modify fun s => { s with exprUnresolvedLabel := none }
    let s ← get
    let _ ← parseExpr env (s.tokensLeft + 1)
    pure ()
  | imm32 => do
    let _ ← imm32Rest env
    pure ()
  | address => do
    let _ ← addressRest env
    pure ()

lemma parse_run (env : AsmEnv) (op : ForcingOperand) (s : Asm) :
    (op.parse env).run s = (op.rest env).run s.requested := by
  cases op <;> rfl

end ForcingOperand

/-! What an operand uses up. -/

section

variable {env : AsmEnv} {t : Token} {ts : List Token} (ht : t.asInt.isSome ∨ t.asId.isSome)

include ht

lemma uses_term {n : ℕ} {expr : Assemble Word} (h : Keeps (consumes env) expr) :
    Uses env (parseTerm env n (parseFactor env expr)) (t :: ts) ts := by
  have hR := readRel_consumes env
  refine Uses.after (.of_leaves ((Leaves.factor ht expr).mono ?_)) fun v =>
    Keeps.repeatStep (hR.termStep (hR.parseFactor h)) n v
  rintro _ _ rfl
  exact List.suffix_rfl

lemma uses_expr (n : ℕ) : Uses env (parseExpr env n) (t :: ts) ts := by
  have hR := readRel_consumes env
  cases n with
  | zero =>
    intro s a u hs hrun
    cases hrun
  | succ n =>
    exact (uses_term ht (hR.parseExpr n)).after fun v =>
      Keeps.repeatStep (hR.exprStep (hR.parseTerm _ (hR.parseFactor (hR.parseExpr n)))) _ v

lemma uses_paren (n : ℕ) :
    Uses env (parseFactor env (parseExpr env n)) (.punct '(' :: t :: ts) ts := by
  have hR := readRel_consumes env
  refine .then_ (.skip (f := Token.asInt) rfl) (.then_ .punct ?_)
  rw [if_pos rfl]
  exact (uses_expr ht n).after fun _ => Keeps.bind (hR.expect _ _) fun _ => Keeps.pure _

lemma uses_product (n : ℕ) {c : Char} (hc : c ∈ ['*', '/']) (v : Word) :
    Uses env (termStep env (parseFactor env (parseExpr env n)) v) (.punct c :: t :: ts) ts := by
  have hfactor : Uses env (parseFactor env (parseExpr env n)) (t :: ts) ts := by
    refine .of_leaves ((Leaves.factor ht _).mono ?_)
    rintro _ _ rfl
    exact List.suffix_rfl
  simp only [List.mem_cons, List.not_mem_nil, or_false] at hc
  rcases hc with rfl | rfl
  · refine .then_ .punct ?_
    rw [if_pos rfl]
    exact hfactor.after fun _ => Keeps.pure _
  · refine .then_ (.noPunct (by simp)) ?_
    rw [if_neg Bool.false_ne_true]
    refine .then_ .punct ?_
    rw [if_pos rfl]
    exact hfactor.after fun _ => Keeps.bind (ReadRel.divide _ _) fun _ => Keeps.pure _

lemma uses_sum (n m : ℕ) {c : Char} (hc : c ∈ ['+', '-']) (v : Word) :
    Uses env (exprStep env (parseTerm env m (parseFactor env (parseExpr env n))) v)
      (.punct c :: t :: ts) ts := by
  have hterm : Uses env (parseTerm env m (parseFactor env (parseExpr env n))) (t :: ts) ts :=
    uses_term ht ((readRel_consumes env).parseExpr n)
  simp only [List.mem_cons, List.not_mem_nil, or_false] at hc
  rcases hc with rfl | rfl
  · refine .then_ .punct ?_
    rw [if_pos rfl]
    exact hterm.after fun _ => Keeps.pure _
  · refine .then_ (.noPunct (by simp)) ?_
    rw [if_neg Bool.false_ne_true]
    refine .then_ .punct ?_
    rw [if_pos rfl]
    exact hterm.after fun _ => Keeps.pure _

/-- An expression that begins with an operator or a parenthesis goes on. -/
lemma uses_operator {c : Char} (hc : c ∈ ['(', '*', '/', '+', '-']) (n : ℕ) :
    Uses env (parseExpr env n) (.punct c :: t :: ts) ts := by
  have hR := readRel_consumes env
  cases n with
  | zero =>
    intro s a u hs hrun
    cases hrun
  | succ n =>
    have hfactor := hR.parseFactor (hR.parseExpr n)
    have hterm := hR.parseTerm (n + 1) hfactor
    have hmissing (h : c ≠ '(') : Leaves env (parseFactor env (parseExpr env n))
        (.punct c :: t :: ts) fun _ ts' => ts' = .punct c :: t :: ts :=
      .factorMissing _ rfl rfl fun he => h (Token.punct.inj he)
    have hne (d : Char) (h : c ≠ d) : (Token.punct c :: t :: ts).headD .eof ≠ .punct d :=
      fun he => h (Token.punct.inj he)
    simp only [List.mem_cons, List.not_mem_nil, or_false] at hc
    by_cases hparen : c = '('
    · rw [hparen]
      exact ((uses_paren ht n).after fun v => Keeps.repeatStep (hR.termStep hfactor) _ v).after
        fun v => Keeps.repeatStep (hR.exprStep hterm) _ v
    by_cases hproduct : c ∈ ['*', '/']
    · have hloop : Uses env (parseTerm env (n + 1) (parseFactor env (parseExpr env n)))
          (.punct c :: t :: ts) ts :=
        .first (hmissing hparen) fun v =>
          (uses_product ht n hproduct v).loop (hR.termStep hfactor)
      exact hloop.after fun v => Keeps.repeatStep (hR.exprStep hterm) _ v
    · simp only [List.mem_cons, List.not_mem_nil, or_false, not_or] at hproduct
      have hsum : c ∈ ['+', '-'] := by simpa [hparen, hproduct.1, hproduct.2] using hc
      have hend : Leaves env (parseTerm env (n + 1) (parseFactor env (parseExpr env n)))
          (.punct c :: t :: ts) fun _ ts' => ts' = .punct c :: t :: ts := by
        refine (hmissing hparen).bind ?_
        rintro v _ rfl
        exact .once (.termStepEnd _ v (hne _ hproduct.1) (hne _ hproduct.2))
      exact .first hend fun v => (uses_sum ht n _ hsum v).loop (hR.exprStep hterm)

end

section

variable {env : AsmEnv} {ts : List Token}

lemma uses_absAddr (v : Word) : Uses env (parseAbsAddr env) (.int v :: ts) (afterInt ts) := by
  refine .of_leaves ((Leaves.absAddr v).mono ?_)
  rintro _ _ rfl
  exact List.suffix_rfl

lemma uses_imm32_int (v : Word) : Uses env (imm32Rest env) (.int v :: ts) (afterInt ts) := by
  have hR := readRel_consumes env
  refine .then_ (.skip (f := Token.asId) rfl) (.then_ (.noPunct (by simp)) ?_)
  rw [if_neg Bool.false_ne_true]
  exact (uses_absAddr v).after fun _ => hR.makeImmExpr _ _ _

lemma uses_imm32_name (name : String) : Uses env (imm32Rest env) (.id name :: ts) ts :=
  .then_ (.take (f := Token.asId) (a := name) rfl)
    (.of_keeps ((readRel_consumes env).toOperandProperty.imm32Named name) List.suffix_rfl)

lemma uses_imm32_shift (v : Word) :
    Uses env (imm32Rest env) (.punct '(' :: .int v :: ts) (afterInt ts) := by
  have hR := (readRel_consumes env).toOperandProperty
  refine .then_ (.skip (f := Token.asId) rfl) (.then_ .punct ?_)
  rw [if_pos rfl]
  refine (uses_absAddr v).after fun w => ?_
  refine hR.seq (hR.expect _ _) fun _ => hR.seq (hR.expect _ _) fun _ => ?_
  refine hR.seq (hR.expect _ _) fun _ => hR.seq (hR.take _) fun o => ?_
  cases o with
  | none => exact hR.seq (hR.error _) fun _ => hR.immExpr _ _ _
  | some sh => exact hR.immExpr _ _ _

lemma uses_address_name (name : String) : Uses env (addressRest env) (.id name :: ts) ts := by
  have hR := (readRel_consumes env).toOperandProperty
  refine .then_ (.noPunct (by simp)) ?_
  rw [if_neg Bool.false_ne_true]
  refine .then_ .peek (.then_ (.take (f := Token.asId) (a := name) rfl) (.of_keeps ?_ List.suffix_rfl))
  refine hR.seq hR.parseSymbolOffset fun _ => ?_
  exact hR.seq hR.parseBase fun _ => hR.makeAddrExpr _ _ _

lemma keeps_addressPlus (env : AsmEnv) (imm : Word) : Keeps (consumes env) (addressPlus env imm none) :=
  have hR := (readRel_consumes env).toOperandProperty
  hR.seq hR.parseBase fun _ => hR.makeAddrExpr _ _ _

/-- An address of integers and no name. -/
lemma uses_intAddress (v : Word) (h : ∀ name ts', afterInt ts ≠ .punct '+' :: .id name :: ts') :
    Uses env (parseIntAddress env) (.int v :: ts) (afterInt ts) := by
  have hR := readRel_consumes env
  rw [parseIntAddress_eq]
  refine .first (.absAddr v) fun imm => ?_
  intro s r t hs hrun
  have hpeek : (scannerPeek env).run s = .ok ((afterInt ts).headD .eof) (s.ensureFilled env 1) := by
    rw [← hs.next]
    rfl
  rw [run_bind_of_ok hpeek] at hrun
  obtain ⟨hf, hb⟩ := hs.filled
  by_cases hplus : (afterInt ts).headD .eof = .punct '+'
  · obtain ⟨ts', hts⟩ : ∃ ts', afterInt ts = .punct '+' :: ts' := by
      cases hts : afterInt ts with
      | nil =>
        rw [hts] at hplus
        cases hplus
      | cons t ts' =>
        rw [hts] at hplus
        exact ⟨ts', congrArg₂ _ hplus rfl⟩
    have hnone : (ts'.headD .eof).asId = none := by
      rcases ts' with - | ⟨t, ts'⟩
      · rfl
      · cases t with
        | id name => exact absurd hts (h name ts')
        | _ => rfl
    rw [hts] at hf
    rw [hplus] at hb
    rw [if_pos hplus, run_bind_of_ok (peek2_run hf hb), hnone] at hrun
    obtain ⟨hs₂, -, hsuffix⟩ := hR.scanOne _ hf.allotted
    obtain ⟨ht, -, hsuffix'⟩ := (keeps_addressPlus env imm).ok hrun hs₂
    rw [hf.ahead, ← hts] at hsuffix
    exact ⟨ht, hsuffix'.trans hsuffix⟩
  · rw [if_neg hplus] at hrun
    obtain ⟨ht, -, hsuffix⟩ := (keeps_addressPlus env imm).ok hrun hf.allotted
    rw [hf.ahead] at hsuffix
    exact ⟨ht, hsuffix⟩

/-- The tokens of lexemes when one more request is made. -/
def Asm.reread (env : AsmEnv) (s : Asm) : List Lexeme → List Token
  | [] => []
  | y :: ys => s.scanAs env true y :: ys.map (s.scanAs env false)

lemma Asm.reread_of_plain {env : AsmEnv} {s : Asm} {input : List Lexeme}
    (h : ∀ y ∈ input.head?, (s.scanAs env false y).isKeyword = false) :
    s.reread env input = input.map (s.scanAs env false) := by
  cases input with
  | nil => rfl
  | cons y ys =>
    rw [Asm.reread, Asm.scanAs_eq_of_not_keyword (h y rfl), List.map_cons]

/-- The second request of an address comes when the name is scanned already. -/
lemma intAddress_named {s : Asm} {v : Word} (hs : Sees env (.int v :: ts) s) {name : String}
    {ts' : List Token} (h : afterInt ts = .punct '+' :: .id name :: ts') :
    ∃ r t input, (parseIntAddress env).run s = .ok r t ∧ input <:+ s.input ∧
      ts' = input.map (s.scanAs env false) ∧ t.upcoming env = s.reread env input := by
  have hR := readRel_consumes env
  obtain ⟨imm, u, _, hrun, hu, rfl⟩ := Leaves.absAddr v s hs
  obtain ⟨-, hname, -⟩ := (hR.toOperandProperty.parseAbsAddr).ok hrun hs.allotted
  rw [h] at hu
  obtain ⟨hf, hb⟩ := hu.filled
  rw [List.headD_cons] at hb
  have hpeek : (scannerPeek env).run u = .ok (.punct '+') (u.ensureFilled env 1) := by
    rw [show Token.punct '+' = u.nextToken env from hu.next.symm]
    rfl
  have hread : (u.ensureFilled env 1).unread env = .id name :: ts' := by
    have hup := hf.ahead
    rw [Asm.upcoming, hb] at hup
    exact (List.cons.inj hup).2
  obtain ⟨x, xs, hinput⟩ : ∃ x xs, (u.ensureFilled env 1).input = x :: xs := by
    rw [Asm.unread] at hread
    cases hi : (u.ensureFilled env 1).input with
    | nil =>
      rw [hi] at hread
      cases hread
    | cons x xs => exact ⟨x, xs, rfl⟩
  rw [Asm.unread, hinput] at hread
  obtain ⟨hx, hxs⟩ := List.cons.inj hread
  have hsecond : (u.ensureFilled env 1).scanLexeme env x = .id name := hx
  have hscan : (u.ensureFilled env 1).scanOneToken env = { u.ensureFilled env 1 with
      input := xs, tokBuf := [.punct '+', .id name], forceIdNext := false } := by
    simp only [Asm.scanOneToken, hinput, hb, hsecond, List.cons_append, List.nil_append]
  have hnames : (u.ensureFilled env 1).scanName = s.scanName :=
    (hR.ensureFilled 1 u hu.allotted).2.1.trans hname
  have hsees : Sees env (s.reread env xs)
      ({ u.ensureFilled env 1 with input := xs, tokBuf := [], forceIdNext := true } : Asm) := by
    refine ⟨?_, Nat.zero_le _, by simp, hf.allotted⟩
    rw [Asm.upcoming, Asm.unread]
    cases xs with
    | nil => rfl
    | cons y ys =>
      change (u.ensureFilled env 1).scanAs env true y :: ys.map ((u.ensureFilled env 1).scanAs env false) = _
      rw [Asm.scanAs_congr hnames]
      rfl
  obtain ⟨r, t, _, hend, ht, rfl⟩ := Leaves.addrExpr imm (some name) 0 _ hsees
  have hshort : xs <:+ s.input := by
    have hu : u.input <:+ s.input :=
      ((readRel_shortens env).toOperandProperty.parseAbsAddr).ok hrun
    have hfill : (u.ensureFilled env 1).input <:+ u.input :=
      (readRel_shortens env).ensureFilled 1 u
    rw [hinput] at hfill
    exact ((List.suffix_cons x xs).trans hfill).trans hu
  refine ⟨r, t, xs, ?_, hshort, ?_, ht.ahead⟩
  · rw [parseIntAddress_eq, run_bind_of_ok hrun, run_bind_of_ok hpeek, if_pos rfl,
      run_bind_of_ok (peek2_run hf hb), hscan]
    exact hend
  · rw [← hxs, Asm.scanAs_congr hnames]

end

/-- The lexemes `xs`, at most one, have been looked at, without a request. -/
structure LookedAt (env : AsmEnv) (xs : List Lexeme) (s : Asm) : Prop where
  buffer : s.tokBuf.filter (· ≠ .eof) = xs.map (s.scanAs env false)
  one : s.tokBuf.length ≤ 1
  atEnd : .eof ∈ s.tokBuf → s.input = []
  allotted : s.Allotted

/-- The request is granted to the identifier that begins the operand, and to nothing that is left
after it. -/
structure ForcesOwn (env : AsmEnv) (xs : List Lexeme) (s : Asm) (op : ForcingOperand) : Prop where
  taken : ∀ name k rest, xs ++ s.input = .ident name (some k) :: rest →
    s.requested.nextToken env = s.scanName name
  others : ∀ t, (op.parse env).run s = .ok () t →
    ∃ rest, rest <:+ xs ++ s.input ∧ t.upcoming env = rest.map (s.scanAs env false)

/-- The token before which the name in an address that begins with integers is read. -/
def afterNamed : List Token → Option Token
  | .int _ :: ts =>
    match afterInt ts with
    | .punct '+' :: .id _ :: ts => ts.head?
    | _ => none
  | _ => none

/-- Nothing was looked at before the operand, or neither that nor what is next is spelled like a
keyword, or what is next belongs to the operand; and no keyword follows the name of an address that
begins with integers. -/
def ForcingOperand.spared (env : AsmEnv) (xs : List Lexeme) (s : Asm) (op : ForcingOperand) : Prop :=
  (∀ x ∈ xs, (s.scanAs env false x).isKeyword = false ∧ ∀ y ∈ s.input.head?,
    (s.scanAs env false y).isKeyword = true →
      op.goesOn (s.scanAs env false x) (s.scanAs env true y) = true) ∧
  (op = .address → ∀ t ∈ afterNamed (s.requested.upcoming env), t.isKeyword = false)

namespace LookedAt

variable {env : AsmEnv} {xs : List Lexeme} {s : Asm} (h : LookedAt env xs s)

include h

lemma length_le : xs.length ≤ 1 := by
  have hb := congrArg List.length h.buffer
  rw [List.length_map] at hb
  rw [← hb]
  exact (List.length_filter_le _ _).trans h.one

/-- The tokens to come when an identifier is asked for. -/
lemma sees : Sees env (xs.map (s.scanAs env false) ++ s.reread env s.input) s.requested := by
  refine ⟨?_, h.one, h.atEnd, h.allotted⟩
  rw [Asm.upcoming]
  change s.tokBuf.filter (· ≠ .eof) ++ _ = _
  rw [h.buffer, Asm.unread]
  change _ ++ (match s.input with
    | [] => []
    | y :: ys => s.scanAs env true y :: ys.map (s.scanAs env false)) = _
  cases s.input <;> rfl

/-- Tokens that come after the first two are read without a request. -/
lemma plain_of_suffix {pre ts : List Token} (hpre : 2 ≤ pre.length)
    (hts : pre ++ ts <:+ xs.map (s.scanAs env false) ++ s.reread env s.input) :
    ts <:+ (xs ++ s.input).map (s.scanAs env false) := by
  obtain ⟨before, hts⟩ := hts
  have hlen := h.length_le
  have hdrop : ts = (xs.map (s.scanAs env false) ++ s.reread env s.input).drop
      (before ++ pre).length := by
    rw [← hts, ← List.append_assoc, List.drop_left]
  have hplain : (xs.map (s.scanAs env false) ++ s.reread env s.input).drop 2 =
      ((xs ++ s.input).map (s.scanAs env false)).drop 2 := by
    match xs with
    | [] =>
      rcases s.input with - | ⟨y, ys⟩
      · rfl
      · rfl
    | [x] =>
      rcases s.input with - | ⟨y, ys⟩
      · rfl
      · rfl
    | _ :: _ :: _ => simp at hlen
  rw [List.length_append] at hdrop
  obtain ⟨n, hn⟩ : ∃ n, before.length + pre.length = 2 + n := ⟨before.length + pre.length - 2, by omega⟩
  rw [hdrop, hn, ← List.drop_drop, hplain, List.drop_drop]
  exact List.drop_suffix _ _

end LookedAt

/-- An address whose name follows integers. -/
def Named (ts ts' : List Token) : Prop :=
  ∃ v ts₁ name, ts = .int v :: ts₁ ∧ afterInt ts₁ = .punct '+' :: .id name :: ts'

lemma Named.afterNamed {ts ts' : List Token} (h : Named ts ts') : afterNamed ts = ts'.head? := by
  obtain ⟨v, ts₁, name, rfl, h⟩ := h
  simp [Spimulator.afterNamed, h]

lemma named_of_afterNamed {ts : List Token} {t : Token} (h : afterNamed ts = some t) :
    ∃ ts', Named ts ts' ∧ ts'.head? = some t := by
  unfold afterNamed at h
  split at h
  · split at h
    · rename_i v ts₁ _ name ts' heq
      exact ⟨ts', ⟨v, ts₁, name, rfl, heq⟩, h⟩
    · cases h
  · cases h

lemma cons_of_headD {ts : List Token} {t : Token} (h : ts.headD .eof = t) (ht : t ≠ .eof) :
    ∃ ts', ts = t :: ts' := by
  cases ts with
  | nil => exact absurd h.symm ht
  | cons u ts' => exact ⟨ts', congrArg (· :: ts') h⟩

/-- parse_address after a parenthesis -/
lemma keeps_registerAddress (env : AsmEnv) : Keeps (consumes env) (do
    let reg ← parseRegister env
    expect env ')' "Expected ')' after register"
    makeAddrExpr 0 none reg : Assemble (ImmExpr × Word)) := by
  have hR := (readRel_consumes env).toOperandProperty
  refine hR.seq hR.parseRegister fun _ => ?_
  exact hR.seq (hR.expect _ _) fun _ => hR.makeAddrExpr _ _ _

/-- What is left after an operand that makes no second request. -/
lemma uses_rest {env : AsmEnv} {op : ForcingOperand} {ts : List Token}
    (h : op = .address → ∀ ts', ¬ Named ts ts') : Uses env (op.rest env) ts ts := by
  have hR := readRel_consumes env
  have hop := hR.toOperandProperty
  cases op with
  | expression =>
    refine .of_keeps (Keeps.bind (Keeps.modify fun s hs => ⟨hs, rfl, List.suffix_rfl⟩) fun _ => ?_)
      List.suffix_rfl
    exact Keeps.get.bind fun s => (hR.parseExpr _).bind fun _ => Keeps.pure _
  | imm32 => exact .of_keeps (hop.imm32Rest.bind fun _ => Keeps.pure _) List.suffix_rfl
  | address =>
    refine Uses.after ?_ fun _ => Keeps.pure _
    by_cases hparen : ts.headD .eof = .punct '('
    · obtain ⟨ts', rfl⟩ := cons_of_headD hparen (by simp)
      refine .then_ .punct ?_
      rw [if_pos rfl]
      exact .of_keeps (keeps_registerAddress env) (List.suffix_cons _ _)
    · refine .then_ (.noPunct hparen) ?_
      rw [if_neg Bool.false_ne_true]
      refine .then_ .peek ?_
      cases hint : (ts.headD .eof).asInt with
      | some v =>
        obtain ⟨ts', rfl⟩ := cons_of_headD (Token.eq_of_asInt hint) (by simp)
        refine (uses_intAddress v fun name ts₂ hts => h rfl ts₂ ⟨v, ts', name, rfl, hts⟩).mono ?_
        exact (afterInt_suffix ts').trans (List.suffix_cons _ _)
      | none =>
        refine .of_keeps (hop.seq (hop.take _) fun o => ?_) List.suffix_rfl
        cases o with
        | none => exact hop.seq (hop.error _) fun _ => hop.makeAddrExpr _ _ _
        | some sym =>
          refine hop.seq hop.parseSymbolOffset fun _ => ?_
          exact hop.seq hop.parseBase fun _ => hop.makeAddrExpr _ _ _

lemma uses_addressInt {env : AsmEnv} {v : Word} {ts : List Token}
    (h : ∀ ts', ¬ Named (.int v :: ts) ts') :
    Uses env (addressRest env) (.int v :: ts) (afterInt ts) := by
  refine .then_ (.noPunct (by simp)) ?_
  rw [if_neg Bool.false_ne_true]
  exact .then_ .peek (uses_intAddress v fun name ts' hts => h ts' ⟨v, ts, name, rfl, hts⟩)

/-- The first token, where it is an integer or a name, belongs to the operand. -/
lemma uses_head {env : AsmEnv} {op : ForcingOperand} {t : Token} {ts : List Token}
    (ht : t.asInt.isSome ∨ t.asId.isSome) (h : op = .address → ∀ ts', ¬ Named (t :: ts) ts') :
    Uses env (op.rest env) (t :: ts) ts := by
  cases op with
  | expression =>
    refine .first (x := modifyThe Asm fun s => { s with exprUnresolvedLabel := none })
      (.modify fun s hs => ⟨hs.ahead, hs.one, hs.atEnd, hs.allotted⟩) fun _ => ?_
    exact .get_bind fun s => (uses_expr ht _).after fun _ => Keeps.pure _
  | imm32 =>
    refine Uses.after ?_ fun _ => Keeps.pure _
    cases t with
    | int v => exact (uses_imm32_int v).mono (afterInt_suffix ts)
    | id name => exact uses_imm32_name name
    | _ => simp [Token.asInt, Token.asId] at ht
  | address =>
    refine Uses.after ?_ fun _ => Keeps.pure _
    cases t with
    | int v => exact (uses_addressInt (h rfl)).mono (afterInt_suffix ts)
    | id name => exact uses_address_name name
    | _ => simp [Token.asInt, Token.asId] at ht

/-- So does the second, where the operand goes on with it. -/
lemma uses_second {env : AsmEnv} {op : ForcingOperand} {t f : Token} {ts : List Token}
    (hf : f.asInt.isSome ∨ f.asId.isSome) (hgo : op.goesOn t f = true)
    (h : op = .address → ∀ ts', ¬ Named (t :: f :: ts) ts') :
    Uses env (op.rest env) (t :: f :: ts) ts := by
  cases op with
  | expression =>
    cases t with
    | punct c =>
      refine .first (x := modifyThe Asm fun s => { s with exprUnresolvedLabel := none })
        (.modify fun s hs => ⟨hs.ahead, hs.one, hs.atEnd, hs.allotted⟩) fun _ => ?_
      refine .get_bind fun s => (uses_operator hf ?_ _).after fun _ => Keeps.pure _
      simpa [ForcingOperand.goesOn_expression] using hgo
    | _ => cases hgo
  | imm32 =>
    refine Uses.after ?_ fun _ => Keeps.pure _
    cases t with
    | int v =>
      cases f with
      | int w => exact uses_imm32_int v
      | _ => cases hgo
    | punct c =>
      by_cases hc : c = '('
      · cases f with
        | int w =>
          rw [hc]
          exact (uses_imm32_shift w).mono (afterInt_suffix ts)
        | _ =>
          rw [hc] at hgo
          cases hgo
      · simp [ForcingOperand.goesOn_imm32 hc] at hgo
    | _ => cases hgo
  | address =>
    refine Uses.after ?_ fun _ => Keeps.pure _
    cases t with
    | int v =>
      cases f with
      | int w => exact uses_addressInt (h rfl)
      | _ => cases hgo
    | _ => cases hgo

/-- An address that begins with an integer. -/
lemma addressRest_run_int {env : AsmEnv} {s : Asm} {v : Word} {ts : List Token}
    (hs : Sees env (.int v :: ts) s) :
    (addressRest env).run s = (parseIntAddress env).run (s.ensureFilled env 1) := by
  have hpunct : (takePunct env '(').run s = .ok false (s.ensureFilled env 1) := by
    rw [takePunct_run, hs.next, if_neg (by simp)]
  have hpeek : (scannerPeek env).run (s.ensureFilled env 1) =
      .ok (.int v) (s.ensureFilled env 1) := by
    rw [peek_run, hs.filled.1.next, ensureFilled_ensureFilled, List.headD_cons]
  rw [addressRest, run_bind_of_ok hpunct, if_neg Bool.false_ne_true, run_bind_of_ok hpeek]
  rfl

/-! Operands that end before what was asked for. -/

section

variable {env : AsmEnv} {t f : Token} {ts : List Token} (hf : f.asInt.isSome ∨ f.asId.isSome)

/-- An operand that does not go on is over before the second token, or before the first. -/
def Stops (env : AsmEnv) (op : ForcingOperand) (t f : Token) (ts : List Token) : Prop :=
  Leaves env (op.rest env) (t :: f :: ts) fun _ ts' => ts' = f :: ts ∨ ts' = t :: f :: ts

include hf

lemma ne_punct (c : Char) : (f :: ts).headD .eof ≠ .punct c := by
  rw [List.headD_cons]
  rintro rfl
  simp [Token.asInt, Token.asId] at hf

lemma stops_expression (h : ForcingOperand.expression.goesOn t f = false) :
    Stops env .expression t f ts := by
  refine Leaves.seq (x := modifyThe Asm fun s => { s with exprUnresolvedLabel := none })
    (.modify fun s hs => ⟨hs.ahead, hs.one, hs.atEnd, hs.allotted⟩) fun _ => ?_
  refine Leaves.get_bind fun s => ?_
  have hread (ht : t.asInt.isSome ∨ t.asId.isSome) :
      Leaves env (parseExpr env (s.tokensLeft + 1)) (t :: f :: ts) fun _ ts' => ts' = f :: ts :=
    .exprEnd (fun c _ => ne_punct hf c) fun expr => .factor ht expr
  have hmissing (hint : t.asInt = none) (hid : t.asId = none)
      (hop : ∀ c ∈ ['(', '*', '/', '+', '-'], (t :: f :: ts).headD .eof ≠ .punct c) :
      Leaves env (parseExpr env (s.tokensLeft + 1)) (t :: f :: ts)
        fun _ ts' => ts' = t :: f :: ts :=
    .exprEnd (fun c hc => hop c (List.mem_cons_of_mem _ hc)) fun expr =>
      .factorMissing expr hint hid (hop _ (List.mem_cons_self ..))
  cases t with
  | int v => exact (hread (Or.inl rfl)).seq fun _ => .pure (Or.inl rfl)
  | id name => exact (hread (Or.inr rfl)).seq fun _ => .pure (Or.inl rfl)
  | punct c =>
    have hc : c ∉ ['(', '*', '/', '+', '-'] := by
      simpa [ForcingOperand.goesOn_expression] using h
    refine (hmissing rfl rfl fun d hd he => ?_).seq fun _ => .pure (Or.inr rfl)
    rw [Token.punct.inj he] at hc
    exact hc hd
  | _ => exact (hmissing rfl rfl (by simp)).seq fun _ => .pure (Or.inr rfl)

lemma stops_imm32 (h : ForcingOperand.imm32.goesOn t f = false) : Stops env .imm32 t f ts := by
  have hmissing (hint : ((t :: f :: ts).headD .eof).asInt = none)
      (hid : ((t :: f :: ts).headD .eof).asId = none) (hp : (t :: f :: ts).headD .eof ≠ .punct '(') :
      Leaves env (imm32Rest env) (t :: f :: ts) fun _ ts' => ts' = t :: f :: ts := by
    refine (Leaves.skip (f := Token.asId) hid).then_ ((Leaves.noPunct hp).then_ ?_)
    rw [if_neg Bool.false_ne_true]
    exact (Leaves.absAddrMissing hint).seq fun _ => .immExpr _ _ _
  cases t with
  | int v =>
    have hafter : afterInt (f :: ts) = f :: ts := by
      cases f with
      | int w => cases h
      | id name => rfl
      | _ => simp [Token.asInt, Token.asId] at hf
    refine .discard (f :: ts) ?_ (Or.inl rfl)
    refine (Leaves.skip (f := Token.asId) rfl).then_ ((Leaves.noPunct (by simp)).then_ ?_)
    rw [if_neg Bool.false_ne_true]
    refine (Leaves.absAddr v).seq fun w => ?_
    rw [hafter]
    exact .immExpr _ _ _
  | id name =>
    refine .discard (f :: ts) ?_ (Or.inl rfl)
    refine (Leaves.take (f := Token.asId) (a := name) rfl).then_ ?_
    refine (Leaves.noPunct (ne_punct hf _)).then_ ?_
    rw [if_neg Bool.false_ne_true]
    refine (Leaves.noPunct (ne_punct hf _)).then_ ?_
    rw [if_neg Bool.false_ne_true]
    exact .immExpr _ _ _
  | punct c =>
    by_cases hc : c = '('
    · have hint : ((f :: ts).headD .eof).asInt = none := by
        cases f with
        | int w =>
          rw [hc] at h
          cases h
        | _ => rfl
      rw [hc]
      refine .discard (f :: ts) ?_ (Or.inl rfl)
      refine (Leaves.skip (f := Token.asId) rfl).then_ (Leaves.punct.then_ ?_)
      rw [if_pos rfl]
      refine (Leaves.absAddrMissing hint).seq fun _ => ?_
      refine (Leaves.expect (ne_punct hf _)).seq fun _ => ?_
      refine (Leaves.expect (ne_punct hf _)).seq fun _ => ?_
      refine (Leaves.expect (ne_punct hf _)).seq fun _ => ?_
      refine (Leaves.skip (f := Token.asInt) hint).then_ ?_
      exact (Leaves.error _).seq fun _ => .immExpr _ _ _
    · exact (hmissing rfl rfl fun he => hc (Token.punct.inj he)).seq fun _ => .pure (Or.inr rfl)
  | _ => exact (hmissing rfl rfl (by simp)).seq fun _ => .pure (Or.inr rfl)

lemma stops_address (h : ForcingOperand.address.goesOn t f = false) :
    Stops env .address t f ts := by
  have hbase : Leaves env (parseBase env) (f :: ts) fun _ ts' => ts' = f :: ts := by
    refine (Leaves.noPunct (ne_punct hf _)).then_ ?_
    rw [if_neg Bool.false_ne_true]
    exact .pure rfl
  have hmissing (hint : ((t :: f :: ts).headD .eof).asInt = none)
      (hid : ((t :: f :: ts).headD .eof).asId = none) (hp : (t :: f :: ts).headD .eof ≠ .punct '(') :
      Leaves env (addressRest env) (t :: f :: ts) fun _ ts' => ts' = t :: f :: ts := by
    refine (Leaves.noPunct hp).then_ ?_
    rw [if_neg Bool.false_ne_true]
    refine Leaves.peek.then_ ?_
    rw [hint]
    refine (Leaves.skip (f := Token.asId) hid).then_ ?_
    exact (Leaves.error _).seq fun _ => .addrExpr _ _ _
  cases t with
  | int v =>
    have hafter : afterInt (f :: ts) = f :: ts := by
      cases f with
      | int w => cases h
      | id name => rfl
      | _ => simp [Token.asInt, Token.asId] at hf
    refine .discard (f :: ts) ?_ (Or.inl rfl)
    refine (Leaves.noPunct (by simp)).then_ ?_
    rw [if_neg Bool.false_ne_true]
    refine Leaves.peek.then_ ?_
    change Leaves env (parseIntAddress env) _ _
    rw [parseIntAddress_eq]
    refine (Leaves.absAddr v).seq fun imm => ?_
    rw [hafter]
    refine Leaves.peek.then_ ?_
    rw [if_neg (ne_punct hf _)]
    exact hbase.seq fun _ => .addrExpr _ _ _
  | id name =>
    refine .discard (f :: ts) ?_ (Or.inl rfl)
    refine (Leaves.noPunct (by simp)).then_ ?_
    rw [if_neg Bool.false_ne_true]
    refine Leaves.peek.then_ ((Leaves.take (f := Token.asId) (a := name) rfl).then_ ?_)
    have hoffset : Leaves env (parseSymbolOffset env) (f :: ts) fun _ ts' => ts' = f :: ts := by
      refine (Leaves.noPunct (ne_punct hf _)).then_ ?_
      rw [if_neg Bool.false_ne_true]
      refine (Leaves.noPunct (ne_punct hf _)).then_ ?_
      rw [if_neg Bool.false_ne_true]
      exact .pure rfl
    exact hoffset.seq fun _ => hbase.seq fun _ => .addrExpr _ _ _
  | punct c =>
    by_cases hc : c = '('
    · have hreg : ((f :: ts).headD .eof).asReg = none := by
        cases f with
        | int w => rfl
        | id name => rfl
        | _ => simp [Token.asInt, Token.asId] at hf
      rw [hc]
      refine .discard (f :: ts) ?_ (Or.inl rfl)
      have hnone : Leaves env (parseRegister env) (f :: ts) fun _ ts' => ts' = f :: ts :=
        (Leaves.skip (f := Token.asReg) hreg).then_ ((Leaves.error _).seq fun _ => .pure rfl)
      refine Leaves.punct.then_ ?_
      rw [if_pos rfl]
      exact hnone.seq fun _ => (Leaves.expect (ne_punct hf _)).seq fun _ => .addrExpr _ _ _
    · exact (hmissing rfl rfl fun he => hc (Token.punct.inj he)).seq fun _ => .pure (Or.inr rfl)
  | _ => exact (hmissing rfl rfl (by simp)).seq fun _ => .pure (Or.inr rfl)

lemma stops (op : ForcingOperand) (h : op.goesOn t f = false) : Stops env op t f ts := by
  cases op with
  | expression => exact stops_expression hf h
  | imm32 => exact stops_imm32 hf h
  | address => exact stops_address hf h

end

/-! The request and the operand. -/

lemma suffix_unique {α : Type} {l₁ l₂ l : List α} (h₁ : l₁ <:+ l) (h₂ : l₂ <:+ l)
    (h : l₁.length = l₂.length) : l₁ = l₂ :=
  (List.suffix_of_suffix_length_le h₁ h₂ h.le).eq_of_length h

/-- The first of the tokens that are left, where they are read without a request. -/
lemma eq_scanAs {env : AsmEnv} {s : Asm} {t : Token} {ts : List Token} {y : Lexeme}
    {ys rest l : List Lexeme} (hrest : rest <:+ l) (hys : y :: ys <:+ l)
    (he : t :: ts = rest.map (s.scanAs env false)) (hlen : ts.length = ys.length) :
    t = s.scanAs env false y := by
  have hlength := congrArg List.length he
  rw [List.length_map, List.length_cons, hlen] at hlength
  rw [suffix_unique hrest hys hlength.symm] at he
  exact (List.cons.inj he).1

section

variable {env : AsmEnv} {xs : List Lexeme} {s : Asm} (h : LookedAt env xs s)

include h

/-- What is left of an address whose name follows integers is read with a request. -/
lemma named_left {ts : List Token}
    (hn : Named (xs.map (s.scanAs env false) ++ s.reread env s.input) ts) :
    ∃ t rest, (ForcingOperand.address.parse env).run s = .ok () t ∧ rest <:+ xs ++ s.input ∧
      ts = rest.map (s.scanAs env false) ∧ t.upcoming env = s.reread env rest := by
  obtain ⟨v, ts₁, name, hts, hafter⟩ := hn
  have hs := h.sees
  rw [hts] at hs
  obtain ⟨r, t, input, hrun, hshort, hinput, hup⟩ := intAddress_named hs.filled.1 hafter
  have hnames : (s.requested.ensureFilled env 1).scanName = s.scanName :=
    ((readRel_consumes env).ensureFilled 1 s.requested h.allotted).2.1
  rw [Asm.scanAs_congr hnames] at hinput
  have hreread : (s.requested.ensureFilled env 1).reread env input = s.reread env input := by
    unfold Asm.reread
    rw [Asm.scanAs_congr hnames]
  have hfill : (s.requested.ensureFilled env 1).input <:+ s.input :=
    (readRel_shortens env).ensureFilled 1 s.requested
  refine ⟨t, input, ?_, (hshort.trans hfill).trans (List.suffix_append xs s.input), hinput,
    hup.trans hreread⟩
  rw [ForcingOperand.parse_run]
  change (do
    let _ ← addressRest env
    pure () : Assemble Unit).run s.requested = _
  rw [run_bind_of_ok ((addressRest_run_int hs).trans hrun)]
  rfl

/-- Tokens that are all read without a request are left so. -/
lemma others_of_uses {op : ForcingOperand} (ts : List Token)
    (hu : Uses env (op.rest env) (xs.map (s.scanAs env false) ++ s.reread env s.input) ts)
    (hts : ts <:+ (xs ++ s.input).map (s.scanAs env false)) {t : Asm}
    (hrun : (op.parse env).run s = .ok () t) :
    ∃ rest, rest <:+ xs ++ s.input ∧ t.upcoming env = rest.map (s.scanAs env false) := by
  rw [ForcingOperand.parse_run] at hrun
  exact suffix_map ((hu _ _ _ h.sees hrun).2.trans hts)

lemma taken_of_spared {op : ForcingOperand} (hs : op.spared env xs s) {name : String} {k : Keyword}
    {rest : List Lexeme} (hx : xs ++ s.input = .ident name (some k) :: rest) :
    s.requested.nextToken env = s.scanName name := by
  rw [h.sees.next]
  cases xs with
  | nil =>
    have hinput : s.input = .ident name (some k) :: rest := hx
    rw [hinput]
    rfl
  | cons x xs =>
    obtain ⟨rfl, -⟩ := List.cons.inj hx
    have hplain := (hs.1 _ (List.mem_cons_self ..)).1
    change s.scanAs env false (.ident name (some k)) = _
    rw [Asm.scanAs_keyword] at hplain ⊢
    by_cases hk : false = false ∧ checkKeyword env k = true
    · rw [if_pos hk] at hplain
      cases hplain
    · rw [if_neg hk]

lemma others_of_spared {op : ForcingOperand} (hs : op.spared env xs s) {t : Asm}
    (hrun : (op.parse env).run s = .ok () t) :
    ∃ rest, rest <:+ xs ++ s.input ∧ t.upcoming env = rest.map (s.scanAs env false) := by
  by_cases hn : op = .address ∧ ∃ ts, Named (xs.map (s.scanAs env false) ++ s.reread env s.input) ts
  · obtain ⟨rfl, ts, hn⟩ := hn
    obtain ⟨t', rest, hrun', hrest, rfl, hup⟩ := named_left h hn
    rw [hrun] at hrun'
    cases hrun'
    refine ⟨rest, hrest, hup.trans (Asm.reread_of_plain fun y hy => hs.2 rfl _ ?_)⟩
    rw [h.sees.ahead, hn.afterNamed, List.head?_map, Option.mem_def, Option.mem_def.mp hy]
    rfl
  have hnot : op = .address →
      ∀ ts, ¬ Named (xs.map (s.scanAs env false) ++ s.reread env s.input) ts :=
    fun hop ts hts => hn ⟨hop, ts, hts⟩
  by_cases hy : ∀ y ∈ s.input.head?, (s.scanAs env false y).isKeyword = false
  · refine others_of_uses h _ (uses_rest hnot) (suffix_of_eq ?_) hrun
    rw [Asm.reread_of_plain hy, List.map_append]
  · -- a keyword is next, and the request turns it into a name
    push Not at hy
    obtain ⟨y, hy, hkey⟩ := hy
    obtain ⟨ys, hinput⟩ : ∃ ys, s.input = y :: ys := List.head?_eq_some_iff.mp hy
    have hkey' : (s.scanAs env false y).isKeyword = true := by simpa using hkey
    obtain ⟨name, k, rfl, -⟩ := Asm.keyword_of_scanAs hkey'
    have hname := s.asInt_or_asId_scanName name
    rw [hinput] at hnot
    have hlen := h.length_le
    match xs with
    | [] =>
      refine others_of_uses h (ys.map (s.scanAs env false)) ?_ ?_ hrun
      · rw [hinput]
        exact uses_head hname hnot
      · rw [hinput]
        exact List.suffix_cons _ _
    | [x] =>
      have hgo := (hs.1 x (List.mem_cons_self ..)).2 _ hy hkey'
      refine others_of_uses h (ys.map (s.scanAs env false)) ?_ ?_ hrun
      · rw [hinput]
        exact uses_second hname hgo hnot
      · rw [hinput]
        exact (List.suffix_cons _ _).trans (List.suffix_cons _ _)
    | _ :: _ :: _ => simp at hlen

/-- The token that was looked at is no keyword. -/
lemma looked_of_forces {op : ForcingOperand} (hf : ForcesOwn env xs s op) {x : Lexeme} (hx : x ∈ xs) :
    (s.scanAs env false x).isKeyword = false := by
  by_contra hkey
  obtain ⟨name, k, rfl, hk⟩ := Asm.keyword_of_scanAs (Bool.eq_true_of_not_eq_false hkey)
  obtain ⟨xs', rfl⟩ : ∃ xs', xs = .ident name (some k) :: xs' := by
    have hlen := h.length_le
    match xs with
    | [x] => exact ⟨[], congrArg (· :: []) (List.mem_singleton.mp hx).symm⟩
    | _ :: _ :: _ => simp at hlen
  have htaken := hf.taken name k _ rfl
  rw [h.sees.next] at htaken
  refine hkey ?_
  rw [show s.scanAs env false (.ident name (some k)) = s.scanName name from htaken]
  exact s.isKeyword_scanName name

/-- A keyword after it is read by the operand. -/
lemma goesOn_of_forces {op : ForcingOperand} (hf : ForcesOwn env xs s op) {x y : Lexeme}
    (hx : x ∈ xs) (hy : y ∈ s.input.head?) (hkey : (s.scanAs env false y).isKeyword = true) :
    op.goesOn (s.scanAs env false x) (s.scanAs env true y) = true := by
  by_contra hgo
  obtain rfl : xs = [x] := by
    have hlen := h.length_le
    match xs with
    | [x] => exact congrArg (· :: []) (List.mem_singleton.mp hx).symm
    | _ :: _ :: _ => simp at hlen
  obtain ⟨ys, hinput⟩ : ∃ ys, s.input = y :: ys := List.head?_eq_some_iff.mp hy
  obtain ⟨name, k, rfl, -⟩ := Asm.keyword_of_scanAs hkey
  have hs := h.sees
  rw [hinput] at hs
  obtain ⟨_, t, ts', hrun, ht, hts'⟩ :=
    stops (s.asInt_or_asId_scanName name) op (Bool.eq_false_of_not_eq_true hgo) _ hs
  rw [← ForcingOperand.parse_run] at hrun
  obtain ⟨rest, hrest, hup⟩ := hf.others t hrun
  have hforced : s.scanName name ≠ s.scanAs env false (.ident name (some k)) := by
    intro he
    rw [← he, s.isKeyword_scanName] at hkey
    cases hkey
  have hys : (.ident name (some k)) :: ys <:+ [x] ++ s.input := by
    rw [hinput]
    exact List.suffix_append _ _
  rcases hts' with rfl | rfl
  · exact hforced (eq_scanAs hrest hys (ht.ahead.symm.trans hup) (by simp))
  · have hxys : x :: (.ident name (some k)) :: ys <:+ [x] ++ s.input := by
      rw [hinput]
      exact List.suffix_rfl
    have hsame := suffix_unique hrest hxys (by
      have hlen := congrArg List.length (ht.ahead.symm.trans hup)
      simpa using hlen.symm)
    rw [ht.ahead, hsame] at hup
    exact hforced (List.cons.inj (List.cons.inj hup).2).1

/-- The second request of an address reaches no keyword. -/
lemma afterNamed_of_forces (hf : ForcesOwn env xs s .address) {t : Token}
    (ht : t ∈ afterNamed (s.requested.upcoming env)) : t.isKeyword = false := by
  rw [h.sees.ahead] at ht
  obtain ⟨ts, hn, hhead⟩ := named_of_afterNamed ht
  obtain ⟨u, rest, hrun, hrest, rfl, hup⟩ := named_left h hn
  obtain ⟨rest', hrest', hup'⟩ := hf.others u hrun
  cases rest with
  | nil => cases hhead
  | cons y ys =>
    have hsame : s.scanAs env true y = s.scanAs env false y :=
      eq_scanAs hrest' hrest (hup.symm.trans hup') (by simp)
    rw [← Option.some.inj hhead, ← hsame]
    exact s.isKeyword_forced y

end

end Spimulator
