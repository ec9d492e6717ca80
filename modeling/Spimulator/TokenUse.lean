import Spimulator.Parsing

/-! The tokens that the iterations of the parser's loops use up. A list of expressions can stay at
a token for ever. -/
namespace Spimulator
open Frame

/-! The next token. -/

namespace Asm

/-- The token that the scanner gives next. -/
def nextToken (env : AsmEnv) (s : Asm) : Token := (s.ensureFilled env 1).tokBuf.headD .eof

/-- The token that an expression begins with, where names stand for symbols unless they are
scanned already. -/
def exprToken (env : AsmEnv) (s : Asm) : Token := { s with forceIdNext := true }.nextToken env

lemma scanLexeme_ne_eof (env : AsmEnv) (s : Asm) (x : Lexeme) : s.scanLexeme env x ≠ .eof := by
  have hname (name : String) : s.scanName name ≠ .eof := by
    unfold scanName
    split
    · split
      · exact Token.noConfusion
      · exact Token.noConfusion
    · exact Token.noConfusion
  cases x with
  | ident name keyword =>
    simp only [scanLexeme, scanIdentifier]
    split
    · split
      · exact Token.noConfusion
      · exact hname name
    · exact hname name
  | dollar name => exact hname name
  | _ => exact Token.noConfusion

lemma tokensLeft_scanOneToken (env : AsmEnv) (s : Asm) :
    (s.scanOneToken env).tokensLeft = s.tokensLeft := by
  unfold scanOneToken
  split
  · simp [tokensLeft, *]
  · simp only [tokensLeft, List.filter_append, List.length_append, List.length_cons, *]
    simp [scanLexeme_ne_eof]
    omega

lemma tokensLeft_ensureFilled (env : AsmEnv) (n : ℕ) (s : Asm) :
    (s.ensureFilled env n).tokensLeft = s.tokensLeft := by
  induction n with
  | zero => rfl
  | succ n ih =>
    change (if (s.ensureFilled env n).tokBuf.length ≤ n then _ else _ : Asm).tokensLeft = _
    split
    · rw [tokensLeft_scanOneToken, ih]
    · exact ih

lemma ensureFilled_one (env : AsmEnv) (s : Asm) :
    s.ensureFilled env 1 = if s.tokBuf = [] then s.scanOneToken env else s := by
  change (if s.tokBuf.length ≤ 0 then _ else _) = _
  simp only [Nat.le_zero, List.length_eq_zero_iff]
  rfl

lemma ensureFilled_one_of_ne {env : AsmEnv} {s : Asm} (h : s.tokBuf ≠ []) :
    s.ensureFilled env 1 = s := by
  rw [ensureFilled_one, if_neg h]

/-- Once a token is looked at it is in the buffer. -/
lemma tokBuf_ensureFilled_one (env : AsmEnv) (s : Asm) :
    ∃ rest, (s.ensureFilled env 1).tokBuf = s.nextToken env :: rest := by
  have hne : (s.ensureFilled env 1).tokBuf ≠ [] := by
    rw [ensureFilled_one]
    split
    · unfold scanOneToken
      split <;> simp
    · assumption
  unfold nextToken
  cases h : (s.ensureFilled env 1).tokBuf with
  | nil => exact absurd h hne
  | cons t rest => exact ⟨rest, rfl⟩

lemma nextToken_of_tokBuf {env : AsmEnv} {s : Asm} {t : Token} {rest : List Token}
    (h : s.tokBuf = t :: rest) : s.nextToken env = t := by
  rw [nextToken, ensureFilled_one_of_ne (by simp [h]), h]
  rfl

@[simp] lemma nextToken_ensureFilled (env : AsmEnv) (s : Asm) :
    (s.ensureFilled env 1).nextToken env = s.nextToken env := by
  obtain ⟨rest, h⟩ := s.tokBuf_ensureFilled_one env
  exact nextToken_of_tokBuf h

end Asm

/-! Tokens used up. -/

/-- No tokens come back. -/
def tokensFall : Rel Asm where
  rel s t := t.tokensLeft ≤ s.tokensLeft
  refl _ := Nat.le_refl _
  trans h h' := Nat.le_trans h' h

lemma tokensLeft_tail {s : Asm} {t : Token} {rest : List Token} (h : s.tokBuf = t :: rest)
    (ht : t ≠ .eof) : ({ s with tokBuf := s.tokBuf.tail } : Asm).tokensLeft < s.tokensLeft := by
  simp only [Asm.tokensLeft, h, List.tail_cons]
  rw [List.filter_cons_of_pos (by simpa using ht)]
  simp

lemma symbolRel_tokensFall : SymbolRel Set.univ Set.univ tokensFall where
  labelDef _ _ _ _ := Nat.le_refl _
  machine _ _ _ := Nat.le_refl _
  setInst _ _ _ _ := Nat.le_refl _
  report _ _ _ := Nat.le_refl _
  use _ _ _ := Nat.le_refl _
  newLabel _ _ _ := Nat.le_refl _
  clearUses _ _ := Nat.le_refl _
  define _ _ _ _ _ := Nat.le_refl _
  linkLocal _ _ _ _ := Nat.le_refl _
  declareGlobal _ _ _ := Nat.le_refl _
  constant _ _ _ := Nat.le_refl _
  pend _ _ _ := Nat.le_refl _
  unpend _ _ _ _ _ := Nat.le_refl _
  parseError _ _ _ := Nat.le_refl _

lemma tokensFall_parseAligned (s : Asm) (k : ℕ) : tokensFall.rel s (s.parseAligned k) := by
  have hmove (s : Asm) (a : Word) : tokensFall.rel s (s.fixCurrentLabelAddress a) := Nat.le_refl _
  have hpc (s : Asm) (v : Word) : tokensFall.rel s (s.setDataPc v) := by
    unfold Asm.setDataPc
    split <;> exact Nat.le_refl _
  have halign := rel_alignDirective hmove (rel_alignData hmove (fun _ => Nat.le_refl _) hpc)
  refine tokensFall.trans ?_ (halign _ _)
  split
  · exact Nat.le_refl _
  · exact Nat.le_refl _

theorem tokenRel_tokensFall : TokenRel tokensFall where
  unresolved _ _ := Nat.le_refl _
  pseudo _ _ := Nat.le_refl _
  append _ _ _ := Nat.le_refl _
  seg _ kind _ := by cases kind <;> exact Nat.le_refl _
  noAlign _ := Nat.le_refl _
  nullTerm _ _ := Nat.le_refl _
  newLine _ := Nat.le_refl _
  newLabel _ _ _ := Nat.le_refl _
  use _ _ _ := Nat.le_refl _
  report _ _ _ := Nat.le_refl _
  parseError _ _ := Nat.le_refl _
  aligned s k _ _ := tokensFall_parseAligned s k
  clear env := symbolRel_tokensFall.toRecordRel.clearLabels env
  scanOne env s := Nat.le_of_eq (s.tokensLeft_scanOneToken env)
  drop s := by
    cases h : s.tokBuf with
    | nil => exact Nat.le_of_eq (by simp [Asm.tokensLeft, h])
    | cons t rest =>
      simp only [tokensFall, Asm.tokensLeft, h, List.tail_cons]
      exact Nat.add_le_add_right (List.Sublist.length_le ((List.sublist_cons_self t rest).filter _)) _
  force _ := Nat.le_refl _

/-! Looking at a token, and using it up. -/

def Asm.advanced (env : AsmEnv) (s : Asm) : Asm :=
  { s.ensureFilled env 1 with tokBuf := (s.ensureFilled env 1).tokBuf.tail }

lemma tokensLeft_advanced {env : AsmEnv} {s : Asm} (h : s.nextToken env ≠ .eof) :
    (s.advanced env).tokensLeft < s.tokensLeft := by
  obtain ⟨rest, hb⟩ := s.tokBuf_ensureFilled_one env
  have hlt := tokensLeft_tail hb h
  rw [s.tokensLeft_ensureFilled env 1] at hlt
  exact hlt

lemma scannerAdvance_run (env : AsmEnv) (s : Asm) :
    (scannerAdvance env).run s = .ok (s.nextToken env) (s.advanced env) := rfl

lemma advanced_ensureFilled (env : AsmEnv) (s : Asm) :
    (s.ensureFilled env 1).advanced env = s.advanced env := by
  obtain ⟨rest, h⟩ := s.tokBuf_ensureFilled_one env
  rw [Asm.advanced, Asm.ensureFilled_one_of_ne (by simp [h])]
  rfl

lemma takeToken_run {α : Type} (env : AsmEnv) (f : Token → Option α) (s : Asm) :
    (takeToken env f).run s = match f (s.nextToken env) with
      | some a => .ok (some a) (s.advanced env)
      | none => .ok none (s.ensureFilled env 1) := by
  change (match f (s.nextToken env) with
    | some a => do
      let _ ← scannerAdvance env
      pure (some a)
    | none => (pure none : Assemble (Option α))).run (s.ensureFilled env 1) = _
  cases f (s.nextToken env) with
  | none => rfl
  | some a =>
    change EStateM.Result.ok (some a) ((s.ensureFilled env 1).advanced env) = _
    rw [advanced_ensureFilled]

lemma takeToken_run_some {α : Type} {env : AsmEnv} {f : Token → Option α} {s : Asm} {a : α}
    (h : f (s.nextToken env) = some a) :
    (takeToken env f).run s = .ok (some a) (s.advanced env) := by
  rw [takeToken_run, h]

lemma takeToken_run_none {α : Type} {env : AsmEnv} {f : Token → Option α} {s : Asm}
    (h : f (s.nextToken env) = none) :
    (takeToken env f).run s = .ok none (s.ensureFilled env 1) := by
  rw [takeToken_run, h]

lemma takePunct_run (env : AsmEnv) (c : Char) (s : Asm) :
    (takePunct env c).run s =
      if s.nextToken env = .punct c then .ok true (s.advanced env)
      else .ok false (s.ensureFilled env 1) := by
  change (if s.nextToken env = .punct c then (do
      let _ ← scannerAdvance env
      pure true : Assemble Bool) else pure false).run (s.ensureFilled env 1) = _
  split
  · change EStateM.Result.ok true ((s.ensureFilled env 1).advanced env) = _
    rw [advanced_ensureFilled]
  · rfl

/-- A token that is taken is used up. -/
lemma takeToken_falls {α : Type} {env : AsmEnv} {f : Token → Option α} {s t : Asm} {a : α}
    (hf : f .eof = none) (h : (takeToken env f).run s = .ok (some a) t) :
    t.tokensLeft < s.tokensLeft := by
  rw [takeToken_run] at h
  cases hn : f (s.nextToken env) with
  | none =>
    rw [hn] at h
    cases h
  | some b =>
    rw [hn] at h
    cases h
    refine tokensLeft_advanced fun he => ?_
    rw [he, hf] at hn
    cases hn

lemma takePunct_falls {env : AsmEnv} {c : Char} {s t : Asm}
    (h : (takePunct env c).run s = .ok true t) : t.tokensLeft < s.tokensLeft := by
  rw [takePunct_run] at h
  split at h
  · rename_i hn
    cases h
    exact tokensLeft_advanced (by simp [hn])
  · cases h

section

variable {env : AsmEnv} {s : Asm} {t : Token} {rest : List Token}

lemma scannerPeek_of_tokBuf (hb : s.tokBuf = t :: rest) : (scannerPeek env).run s = .ok t s := by
  change EStateM.Result.ok (s.nextToken env) (s.ensureFilled env 1) = _
  rw [Asm.nextToken_of_tokBuf hb, Asm.ensureFilled_one_of_ne (by simp [hb])]

/-- A token in the buffer that is not taken stays there, and nothing else changes. -/
lemma takeToken_none {α : Type} {f : Token → Option α} (hb : s.tokBuf = t :: rest)
    (h : f t = none) : (takeToken env f).run s = .ok none s := by
  rw [takeToken_run, Asm.nextToken_of_tokBuf hb, h, Asm.ensureFilled_one_of_ne (by simp [hb])]

lemma takePunct_false {c : Char} (hb : s.tokBuf = t :: rest) (h : t ≠ .punct c) :
    (takePunct env c).run s = .ok false s := by
  rw [takePunct_run, Asm.nextToken_of_tokBuf hb, if_neg h, Asm.ensureFilled_one_of_ne (by simp [hb])]

lemma takePunct_true {c : Char} (hb : s.tokBuf = .punct c :: rest) :
    (takePunct env c).run s = .ok true (s.advanced env) := by
  rw [takePunct_run, Asm.nextToken_of_tokBuf hb, if_pos rfl]

end

/-! Expressions. -/

namespace Token

/-- The tokens that parse_expression gets past: those that begin a factor, and the operators, whose
left operand is reported as missing. -/
def startsExpr : Token → Bool
  | .int _ | .id _ => true
  | .punct c => c ∈ ['(', '*', '/', '+', '-']
  | _ => false

/-- The tokens that parse_expression leaves where they are, within a line. -/
def stuck (t : Token) : Bool := ¬ t.startsExpr ∧ ¬ t.ends

end Token

/-- The message about a missing factor. -/
def Asm.missed (s : Asm) : Asm :=
  Asm.log { s with
    parseErrorOccurred := true
    parseErrorsSeen := s.parseErrorsSeen + 1 } (.report (.parse "Expected expression"))

section

variable {env : AsmEnv} {s : Asm} {t : Token} {rest : List Token} (hb : s.tokBuf = t :: rest)

include hb

lemma parseFactor_missed (expr : Assemble Word) (hint : t.asInt = none) (hid : t.asId = none)
    (hp : t ≠ .punct '(') : (parseFactor env expr).run s = .ok 0 s.missed := by
  rw [parseFactor, run_bind_of_ok (takeToken_none hb hint)]
  dsimp only
  rw [run_bind_of_ok (takePunct_false hb hp), if_neg (by decide),
    run_bind_of_ok (takeToken_none hb hid)]
  rfl

lemma termStep_ends (factor : Assemble Word) (v : Word) (hm : t ≠ .punct '*')
    (hd : t ≠ .punct '/') : (termStep env factor v).run s = .ok (v, false) s := by
  rw [termStep, run_bind_of_ok (takePunct_false hb hm), if_neg (by decide),
    run_bind_of_ok (takePunct_false hb hd), if_neg (by decide)]
  rfl

lemma exprStep_ends (term : Assemble Word) (v : Word) (hp : t ≠ .punct '+')
    (hm : t ≠ .punct '-') : (exprStep env term v).run s = .ok (v, false) s := by
  rw [exprStep, run_bind_of_ok (takePunct_false hb hp), if_neg (by decide),
    run_bind_of_ok (takePunct_false hb hm), if_neg (by decide)]
  rfl

lemma parseTerm_missed (n : ℕ) (expr : Assemble Word) (hint : t.asInt = none)
    (hid : t.asId = none) (hp : t ≠ .punct '(') (hm : t ≠ .punct '*') (hd : t ≠ .punct '/') :
    (parseTerm env (n + 1) (parseFactor env expr)).run s = .ok 0 s.missed := by
  rw [parseTerm, run_bind_of_ok (parseFactor_missed hb expr hint hid hp)]
  have hb' : s.missed.tokBuf = t :: rest := hb
  exact repeatStep_last n (termStep_ends hb' _ 0 hm hd)

lemma parseExpr_missed (n : ℕ) (h : t.startsExpr = false) :
    (parseExpr env (n + 1)).run s = .ok 0 s.missed := by
  have hint : t.asInt = none := by cases t <;> first | rfl | cases h
  have hid : t.asId = none := by cases t <;> first | rfl | cases h
  have hp (c : Char) (hc : c ∈ ['(', '*', '/', '+', '-']) : t ≠ .punct c := by
    rintro rfl
    simp only [Token.startsExpr, hc, decide_true] at h
    cases h
  have hterm : (parseTerm env (n + 1) (parseFactor env (parseExpr env n))).run s =
      .ok 0 s.missed :=
    parseTerm_missed hb n _ hint hid (hp _ (by decide)) (hp _ (by decide)) (hp _ (by decide))
  rw [parseExpr]
  refine (run_bind_of_ok hterm).trans ?_
  have hb' : s.missed.tokBuf = t :: rest := hb
  exact repeatStep_last n (exprStep_ends hb' _ 0 (hp _ (by decide)) (hp _ (by decide)))

end

lemma ensureFilled_ensureFilled (env : AsmEnv) (s : Asm) :
    (s.ensureFilled env 1).ensureFilled env 1 = s.ensureFilled env 1 := by
  obtain ⟨rest, h⟩ := s.tokBuf_ensureFilled_one env
  exact Asm.ensureFilled_one_of_ne (by simp [h])

/-- What begins by looking for a token may as well begin with the token in the buffer. -/
lemma takeToken_bind_filled {α β : Type} (env : AsmEnv) (f : Token → Option α)
    (g : Option α → Assemble β) (s : Asm) :
    (takeToken env f >>= g).run s = (takeToken env f >>= g).run (s.ensureFilled env 1) := by
  have h : (takeToken env f).run s = (takeToken env f).run (s.ensureFilled env 1) := by
    rw [takeToken_run, takeToken_run, Asm.nextToken_ensureFilled, advanced_ensureFilled,
      ensureFilled_ensureFilled]
  rw [EStateM.run_bind, h, ← EStateM.run_bind]

lemma parseExpr_filled (env : AsmEnv) (n : ℕ) (s : Asm) :
    (parseExpr env (n + 1)).run s = (parseExpr env (n + 1)).run (s.ensureFilled env 1) := by
  simp only [parseExpr, parseTerm, parseFactor, bind_assoc]
  exact takeToken_bind_filled env _ _ s

/-- The state from which an expression is parsed. -/
def Asm.exprStart (s : Asm) : Asm := { s with forceIdNext := true, exprUnresolvedLabel := none }

lemma parseExpression_run (env : AsmEnv) (s : Asm) :
    (parseExpression env).run s = (parseExpr env (s.tokensLeft + 1)).run s.exprStart := rfl

lemma nextToken_exprStart (env : AsmEnv) (s : Asm) :
    s.exprStart.nextToken env = s.exprToken env := by
  unfold Asm.exprToken Asm.nextToken
  rw [Asm.ensureFilled_one, Asm.ensureFilled_one]
  change (if s.tokBuf = [] then _ else _ : Asm).tokBuf.headD .eof =
    (if s.tokBuf = [] then _ else _ : Asm).tokBuf.headD .eof
  split
  · have hin : s.exprStart.input = s.input := rfl
    simp only [Asm.scanOneToken, hin]
    cases s.input <;> rfl
  · rfl

/-- An expression that is missing leaves the token where it is. -/
lemma parseExpression_missed {env : AsmEnv} {s : Asm}
    (h : (s.exprToken env).startsExpr = false) :
    ∃ u rest, (parseExpression env).run s = .ok 0 u ∧ u.tokBuf = s.exprToken env :: rest ∧
      u.tokensLeft = s.tokensLeft ∧ u.exprUnresolvedLabel = none := by
  obtain ⟨rest, hb⟩ := s.exprStart.tokBuf_ensureFilled_one env
  rw [nextToken_exprStart] at hb
  have hnone : (s.exprStart.ensureFilled env 1).exprUnresolvedLabel = none := by
    rw [Asm.ensureFilled_one]
    split
    · unfold Asm.scanOneToken
      split <;> rfl
    · rfl
  refine ⟨(s.exprStart.ensureFilled env 1).missed, rest, ?_, hb, ?_, hnone⟩
  · rw [parseExpression_run, parseExpr_filled]
    exact parseExpr_missed hb _ h
  · exact s.exprStart.tokensLeft_ensureFilled env 1

/-- Every run of `x` from `s` that returns has used up a token. -/
def FallsFrom {α : Type} (x : Assemble α) (s : Asm) : Prop :=
  ∀ a t, x.run s = .ok a t → t.tokensLeft < s.tokensLeft

namespace FallsFrom

variable {α β : Type} {x : Assemble α} {f : α → Assemble β} {s : Asm}

lemma first (hx : FallsFrom x s) (hf : ∀ a, Keeps tokensFall (f a)) : FallsFrom (x >>= f) s := by
  intro b u h
  obtain ⟨a, t, ht, hu⟩ := ok_of_bind h
  exact Nat.lt_of_le_of_lt ((hf a).ok hu) (hx a t ht)

lemma second {a : α} {t : Asm} (hx : x.run s = .ok a t) (ht : t.tokensLeft = s.tokensLeft)
    (hf : FallsFrom (f a) t) : FallsFrom (x >>= f) s := by
  intro b u h
  rw [run_bind_of_ok hx] at h
  rw [← ht]
  exact hf b u h

lemma used {a : α} {t : Asm} (hx : x.run s = .ok a t) (ht : t.tokensLeft < s.tokensLeft)
    (hf : Keeps tokensFall (f a)) : FallsFrom (x >>= f) s := by
  intro b u h
  rw [run_bind_of_ok hx] at h
  exact Nat.lt_of_le_of_lt (hf.ok h) ht

lemma repeatStep {e : AsmHalt} {step : α → Assemble (α × Bool)} {a : α}
    (hs : FallsFrom (step a) s) (hk : ∀ a, Keeps tokensFall (step a)) (n : ℕ) :
    FallsFrom (repeatStep e step (n + 1) a) s :=
  first hs fun b => Keeps.ite (fun _ => Keeps.repeatStep hk n b.1) fun _ => Keeps.pure b.1

end FallsFrom

section

variable {env : AsmEnv} {s : Asm} {t : Token} {rest : List Token} (hb : s.tokBuf = t :: rest)

include hb

lemma advanced_falls (ht : t ≠ .eof) : (s.advanced env).tokensLeft < s.tokensLeft := by
  refine tokensLeft_advanced ?_
  rw [Asm.nextToken_of_tokBuf hb]
  exact ht

lemma takeToken_some {α : Type} {f : Token → Option α} {a : α} (hf : f t = some a) :
    (takeToken env f).run s = .ok (some a) (s.advanced env) :=
  takeToken_run_some ((congrArg f (Asm.nextToken_of_tokBuf hb)).trans hf)

lemma parseFactor_fallsFrom {expr : Assemble Word} (he : Keeps tokensFall expr)
    (h : t.asInt ≠ none ∨ t.asId ≠ none ∨ t = .punct '(') :
    FallsFrom (parseFactor env expr) s := by
  have hk := tokenRel_tokensFall
  have hlt : (s.advanced env).tokensLeft < s.tokensLeft := by
    refine advanced_falls hb ?_
    rintro rfl
    simp [Token.asInt, Token.asId] at h
  rw [parseFactor]
  cases hint : t.asInt with
  | some v => exact .used (takeToken_some hb hint) hlt (Keeps.pure v)
  | none =>
    refine .second (takeToken_none hb hint) rfl ?_
    dsimp only
    by_cases hp : t = .punct '('
    · subst hp
      refine .used (takePunct_true hb) hlt ?_
      rw [if_pos rfl]
      exact Keeps.bind he fun _ => Keeps.bind ((hk.reading env).expect _ _) fun _ => Keeps.pure _
    · refine .second (takePunct_false hb hp) rfl ?_
      rw [if_neg (by decide)]
      obtain ⟨name, hname⟩ : ∃ name, t.asId = some name :=
        Option.ne_none_iff_exists'.mp ((h.resolve_left (· hint)).resolve_right hp)
      exact .used (takeToken_some hb hname) hlt (hk.names.symbolFactor name)

lemma termStep_fallsFrom {factor : Assemble Word} (hf : Keeps tokensFall factor) (v : Word)
    (h : t = .punct '*' ∨ t = .punct '/') : FallsFrom (termStep env factor v) s := by
  have hlt : (s.advanced env).tokensLeft < s.tokensLeft := by
    refine advanced_falls hb ?_
    rcases h with rfl | rfl <;> exact Token.noConfusion
  rw [termStep]
  rcases h with rfl | rfl
  · refine .used (takePunct_true hb) hlt ?_
    exact Keeps.bind hf fun _ => Keeps.pure _
  · refine .second (takePunct_false hb (by decide)) rfl (.used (takePunct_true hb) hlt ?_)
    exact Keeps.bind hf fun _ => Keeps.bind (ReadRel.divide _ _) fun _ => Keeps.pure _

lemma exprStep_fallsFrom {term : Assemble Word} (hf : Keeps tokensFall term) (v : Word)
    (h : t = .punct '+' ∨ t = .punct '-') : FallsFrom (exprStep env term v) s := by
  have hlt : (s.advanced env).tokensLeft < s.tokensLeft := by
    refine advanced_falls hb ?_
    rcases h with rfl | rfl <;> exact Token.noConfusion
  rw [exprStep]
  rcases h with rfl | rfl
  · refine .used (takePunct_true hb) hlt ?_
    exact Keeps.bind hf fun _ => Keeps.pure _
  · refine .second (takePunct_false hb (by decide)) rfl (.used (takePunct_true hb) hlt ?_)
    exact Keeps.bind hf fun _ => Keeps.pure _

end

/-- An expression that starts at the next token uses up a token. -/
lemma parseExpr_fallsFrom {env : AsmEnv} {s : Asm} (n : ℕ)
    (h : (s.nextToken env).startsExpr = true) : FallsFrom (parseExpr env (n + 1)) s := by
  have hk := tokenRel_tokensFall
  have hfactor := hk.parseFactor env (hk.parseExpr env n)
  have hterm := hk.parseTerm env (n + 1) hfactor
  obtain ⟨rest, hb⟩ := s.tokBuf_ensureFilled_one env
  suffices hs : FallsFrom (parseExpr env (n + 1)) (s.ensureFilled env 1) by
    intro a u hu
    rw [parseExpr_filled] at hu
    rw [← s.tokensLeft_ensureFilled env 1]
    exact hs a u hu
  generalize s.ensureFilled env 1 = s' at hb
  generalize s.nextToken env = t at h hb
  have hmissed : s'.missed.tokBuf = t :: rest := hb
  by_cases hf : t.asInt ≠ none ∨ t.asId ≠ none ∨ t = .punct '('
  · rw [parseExpr]
    refine .first ?_ fun v => Keeps.repeatStep ((hk.reading env).exprStep hterm) (n + 1) v
    exact (parseFactor_fallsFrom hb (hk.parseExpr env n) hf).first fun v =>
      Keeps.repeatStep ((hk.reading env).termStep hfactor) (n + 1) v
  rw [not_or, not_or, not_not, not_not] at hf
  obtain ⟨hint, hid, hp⟩ := hf
  by_cases hm : t = .punct '*' ∨ t = .punct '/'
  · rw [parseExpr]
    refine .first ?_ fun v => Keeps.repeatStep ((hk.reading env).exprStep hterm) (n + 1) v
    refine .second (parseFactor_missed hb _ hint hid hp) rfl ?_
    exact .repeatStep (termStep_fallsFrom hmissed hfactor _ hm) ((hk.reading env).termStep hfactor) n
  rw [not_or] at hm
  have ha : t = .punct '+' ∨ t = .punct '-' := by
    cases t with
    | punct c =>
      simp only [Token.punct.injEq] at hp hm ⊢
      simpa [Token.startsExpr, hp, hm] using h
    | int v => cases hint
    | id name => cases hid
    | _ => cases h
  rw [parseExpr]
  refine .second (parseTerm_missed hb n _ hint hid hp hm.1 hm.2) rfl ?_
  exact .repeatStep (exprStep_fallsFrom hmissed hterm _ ha) ((hk.reading env).exprStep hterm) n

/-! Iterations of an expression list. -/

/-- An iteration of parse_expr_list. -/
def exprListStep (env : AsmEnv) : List ImmExpr → Assemble (List ImmExpr × Bool) :=
  listStep env (do
    let v ← parseExpression env
    dataIntPush v)

/-- A token is next at which an expression list stays. -/
def Asm.stuck (s : Asm) : Prop := ∃ t rest, s.tokBuf = t :: rest ∧ t.stuck = true

lemma exprListStep_missed {env : AsmEnv} {s : Asm} (es : List ImmExpr)
    (h : (s.exprToken env).startsExpr = false) :
    ∃ u rest es', (exprListStep env es).run s = .ok (es', ¬ (s.exprToken env).ends) u ∧
      u.tokBuf = s.exprToken env :: rest ∧ u.tokensLeft = s.tokensLeft := by
  obtain ⟨u, rest, hrun, hb, hleft, hnone⟩ := parseExpression_missed h
  have hpush : (dataIntPush 0).run u = .ok (constImmExpr 0) { u with exprUnresolvedLabel := none } := by
    change (do
      let e ← makeImmExpr 0 (u.exprUnresolvedLabel.map fun l => (u.label l).name) false
      modify fun s => { s with exprUnresolvedLabel := none }
      pure e : Assemble ImmExpr).run u = _
    rw [hnone]
    rfl
  refine ⟨{ u with exprUnresolvedLabel := none }, rest, es ++ [constImmExpr 0], ?_, hb, hleft⟩
  rw [exprListStep, listStep, run_bind_of_ok ((run_bind_of_ok hrun).trans hpush)]
  have hpeek : (scannerPeek env).run { u with exprUnresolvedLabel := none } =
      .ok (s.exprToken env) { u with exprUnresolvedLabel := none } := scannerPeek_of_tokBuf hb
  rw [run_bind_of_ok hpeek]
  rfl

lemma exprListStep_falls {env : AsmEnv} {s : Asm} (es : List ImmExpr)
    (h : (s.exprToken env).startsExpr = true) : FallsFrom (exprListStep env es) s := by
  have hk := tokenRel_tokensFall
  have hexpr : FallsFrom (parseExpression env) s := by
    intro v t ht
    rw [parseExpression_run] at ht
    rw [← nextToken_exprStart] at h
    exact parseExpr_fallsFrom _ h v t ht
  refine .first (hexpr.first fun v => hk.dataIntPush v) fun e => ?_
  exact Keeps.bind (hk.scannerPeek env) fun _ => Keeps.pure _

/-- An iteration of an expression list uses up a token or is the last, unless it is stuck. -/
theorem exprListStep_progress {env : AsmEnv} {s t : Asm} {es es' : List ImmExpr} {more : Bool}
    (h : (exprListStep env es).run s = .ok (es', more) t) :
    (more = false ∨ t.tokensLeft < s.tokensLeft) ↔ (s.exprToken env).stuck = false := by
  cases hs : (s.exprToken env).startsExpr with
  | true => simp [Token.stuck, hs, exprListStep_falls es hs _ _ h]
  | false =>
    obtain ⟨u, rest, es'', hrun, -, hleft⟩ := exprListStep_missed es hs
    rw [hrun] at h
    cases h
    simp [Token.stuck, hs, hleft]

/-- A list that is stuck stays so. -/
lemma exprListStep_stuck {env : AsmEnv} {s : Asm} (es : List ImmExpr)
    (h : (s.exprToken env).stuck = true) :
    ∃ u es', (exprListStep env es).run s = .ok (es', true) u ∧ u.stuck ∧
      u.exprToken env = s.exprToken env := by
  simp only [Token.stuck, decide_eq_true_eq, Bool.not_eq_true] at h
  obtain ⟨u, rest, es', hrun, hb, -⟩ := exprListStep_missed es h.1
  refine ⟨u, es', ?_, ⟨_, rest, hb, by simp [Token.stuck, h]⟩, ?_⟩
  · rw [hrun]
    simp [h.2]
  · exact Asm.nextToken_of_tokBuf hb

/-- A stuck list does not end, however often it is gone around. -/
theorem exprList_endless {env : AsmEnv} {s : Asm} (es : List ImmExpr)
    (h : (s.exprToken env).stuck = true) (n : ℕ) :
    ∃ t, (repeatStep .endless (exprListStep env) n es).run s = .error .endless t := by
  induction n generalizing s es with
  | zero => exact ⟨s, rfl⟩
  | succ n ih =>
    obtain ⟨u, es', hrun, -, htok⟩ := exprListStep_stuck es h
    obtain ⟨t, ht⟩ := ih (s := u) es' (htok ▸ h)
    refine ⟨t, ?_⟩
    rw [repeatStep, run_bind_of_ok hrun]
    exact ht

/-! Iterations of the other loops. -/

/-- Every iteration uses up a token or is the last. -/
def Progress {α : Type} (step : α → Assemble (α × Bool)) : Prop :=
  ∀ a s b more t, (step a).run s = .ok (b, more) t → more = false ∨ t.tokensLeft < s.tokensLeft

/-- An iteration of sync_to_nl. -/
def syncStep (env : AsmEnv) : Unit → Assemble (Unit × Bool) := fun _ => do
  let t ← scannerPeek env
  if t.ends then pure ((), false)
  else
    let _ ← scannerAdvance env
    pure ((), true)

section

variable (env : AsmEnv)

lemma syncToNl_eq : syncToNl env = (do
    let s ← get
    repeatStep .endless (syncStep env) (s.tokensLeft + 1) ()) := rfl

theorem syncStep_progress : Progress (syncStep env) := by
  rintro ⟨⟩ s b more t h
  obtain ⟨tok, u, hu, h⟩ := ok_of_bind h
  split at h
  · cases h
    exact Or.inl rfl
  · rename_i hends
    right
    cases hu
    cases h
    change ((s.ensureFilled env 1).advanced env).tokensLeft < _
    rw [advanced_ensureFilled]
    refine tokensLeft_advanced fun he => hends ?_
    change (s.nextToken env).ends = true
    rw [he]
    rfl

theorem fpListStep_progress : Progress (fpListStep env) := by
  have hk := tokenRel_tokensFall
  intro xs s b more t h
  obtain ⟨o, u, hu, h⟩ := ok_of_bind h
  cases o with
  | none =>
    left
    obtain ⟨_, _, -, h⟩ := ok_of_bind h
    cases h
    rfl
  | some v =>
    right
    have hrest : Keeps tokensFall (do
        let t ← scannerPeek env
        pure (xs.map (· ++ [v]), ¬ t.ends) : Assemble (Option (List (BitVec 64)) × Bool)) :=
      Keeps.bind (hk.scannerPeek env) fun _ => Keeps.pure _
    exact Nat.lt_of_le_of_lt (hrest.ok h) (takeToken_falls rfl hu)

theorem stringListStep_progress : Progress fun _ : Unit => stringListStep env := by
  have hk := tokenRel_tokensFall
  rintro ⟨⟩ s b more t h
  obtain ⟨o, u, hu, h⟩ := ok_of_bind h
  cases o with
  | none =>
    left
    obtain ⟨_, _, -, h⟩ := ok_of_bind h
    cases h
    rfl
  | some bytes =>
    right
    have hnode (s : Asm) : Keeps tokensFall (if s.textDir then
        parseErrorAt "Can't put data in text segment"
        else appendNode (.dataString bytes s.nullTerm) : Assemble Unit) :=
      Keeps.ite (fun _ => hk.parseErrorAt _) fun _ => hk.appendNode rfl
    obtain ⟨s', _, ⟨⟩, h⟩ := ok_of_bind h
    obtain ⟨_, v, hv, h⟩ := ok_of_bind h
    obtain ⟨_, w, hw, h⟩ := ok_of_bind h
    cases h
    have hpeek := (hk.scannerPeek env).ok hw
    have happend := (hnode u).ok hv
    exact Nat.lt_of_le_of_lt (Nat.le_trans hpeek happend) (takeToken_falls rfl hu)

variable {env}

theorem termStep_progress {factor : Assemble Word} (hf : Keeps tokensFall factor) :
    Progress (termStep env factor) := by
  intro v s b more t h
  obtain ⟨m, u, hu, h⟩ := ok_of_bind h
  split at h
  · rename_i hm
    subst hm
    obtain ⟨r, w, hw, ⟨⟩⟩ := ok_of_bind h
    exact Or.inr (Nat.lt_of_le_of_lt (hf.ok hw) (takePunct_falls hu))
  obtain ⟨d, w, hw, h⟩ := ok_of_bind h
  split at h
  · rename_i hd
    subst hd
    have hrest : Keeps tokensFall (do
        let r ← factor
        let q ← divide v r
        pure (q, true) : Assemble (Word × Bool)) :=
      Keeps.bind hf fun _ => Keeps.bind (ReadRel.divide _ _) fun _ => Keeps.pure _
    have hu' := (tokenRel_tokensFall.takePunct env _).ok hu
    exact Or.inr (Nat.lt_of_lt_of_le (Nat.lt_of_le_of_lt (hrest.ok h) (takePunct_falls hw)) hu')
  · cases h
    exact Or.inl rfl

theorem exprStep_progress {term : Assemble Word} (hf : Keeps tokensFall term) :
    Progress (exprStep env term) := by
  intro v s b more t h
  obtain ⟨p, u, hu, h⟩ := ok_of_bind h
  split at h
  · rename_i hp
    subst hp
    obtain ⟨r, w, hw, ⟨⟩⟩ := ok_of_bind h
    exact Or.inr (Nat.lt_of_le_of_lt (hf.ok hw) (takePunct_falls hu))
  obtain ⟨m, w, hw, h⟩ := ok_of_bind h
  split at h
  · rename_i hm
    subst hm
    obtain ⟨r, x, hx, ⟨⟩⟩ := ok_of_bind h
    have hu' := (tokenRel_tokensFall.takePunct env _).ok hu
    exact Or.inr (Nat.lt_of_lt_of_le (Nat.lt_of_le_of_lt (hf.ok hx) (takePunct_falls hw)) hu')
  · cases h
    exact Or.inl rfl

end

/-! Lines. -/

section

variable {env : AsmEnv} {s : Asm} {t : Token} {rest : List Token} (hb : s.tokBuf = t :: rest)
  (ht : t ≠ .eof)

include hb ht

lemma unlessEnded_fallsFrom {f : Token → Assemble Unit} (hf : t ≠ .nl → FallsFrom (f t) s) :
    FallsFrom (unlessEnded env f) s := by
  refine .second (scannerPeek_of_tokBuf hb) rfl ?_
  split
  · exact .used (scannerAdvance_run env s) (advanced_falls hb ht) (Keeps.pure _)
  · exact absurd rfl ht
  · rename_i hnl _
    exact hf hnl

lemma parseAsmCode_fallsFrom : FallsFrom (parseAsmCode env) s := by
  have hk := tokenRel_tokensFall.toProperty
  refine .used (scannerAdvance_run env s) (advanced_falls hb ht) ?_
  split
  · exact hk.parseOp env _
  · exact hk.parsePseudo env _
  · exact hk.parseUnsupported env _

lemma parseStatement_fallsFrom : FallsFrom (parseStatement env t) s := by
  unfold parseStatement
  split
  · refine .used (scannerAdvance_run env s) (advanced_falls hb ht) ?_
    exact tokenRel_tokensFall.toProperty.parseDirective env _
  · exact parseAsmCode_fallsFrom hb ht

/-- A label is used up; where there is none the token stays. -/
lemma parseOptLabel_run {u : Asm} (h : (parseOptLabel env).run s = .ok () u) :
    u.tokensLeft < s.tokensLeft ∨
      (∃ rest, u.tokBuf = t :: rest) ∧ u.tokensLeft = s.tokensLeft := by
  have hk := tokenRel_tokensFall.toProperty
  rw [parseOptLabel, run_bind_of_ok (scannerPeek_of_tokBuf hb)] at h
  cases hid : t.asId with
  | none =>
    rw [hid] at h
    cases h
    exact Or.inr ⟨⟨rest, hb⟩, rfl⟩
  | some sym =>
    rw [hid] at h
    obtain ⟨sep, w, hw, h⟩ := ok_of_bind h
    have hw : w = s.ensureFilled env 2 := by
      cases hw
      rfl
    obtain ⟨rest', hb'⟩ : ∃ rest', w.tokBuf = t :: rest' := by
      rw [hw]
      change ∃ rest', (if (s.ensureFilled env 1).tokBuf.length ≤ 1 then _ else _ : Asm).tokBuf = _
      rw [Asm.ensureFilled_one_of_ne (by simp [hb])]
      split
      · unfold Asm.scanOneToken
        split
        · exact ⟨rest ++ [.eof], by simp [hb]⟩
        · exact ⟨_, by simp only [hb, List.cons_append]; rfl⟩
      · exact ⟨rest, hb⟩
    have hleft : w.tokensLeft = s.tokensLeft := by
      rw [hw, Asm.tokensLeft_ensureFilled]
    by_cases hc : sep = .punct ':' ∨ sep = .punct '='
    · left
      rw [← hleft]
      rw [onlyIf_pos hc] at h
      refine FallsFrom.used (scannerAdvance_run env w) (advanced_falls hb' ht) ?_ _ _ h
      refine Keeps.bind (hk.advance env) fun _ => Keeps.ite (fun _ => hk.node rfl) fun _ => ?_
      exact Keeps.bind (hk.expression env) fun _ => hk.node rfl
    · rw [onlyIf_neg hc] at h
      cases h
      exact Or.inr ⟨⟨rest', hb'⟩, hleft⟩

lemma parseLine_fallsFrom : FallsFrom (parseLine env) s := by
  have hk := tokenRel_tokensFall.toProperty
  refine unlessEnded_fallsFrom hb ht fun _ => ?_
  intro _ v h
  obtain ⟨_, u, hu, h⟩ := ok_of_bind h
  rcases parseOptLabel_run hb ht hu with hlt | ⟨⟨rest', hb'⟩, hleft⟩
  · refine Nat.lt_of_le_of_lt (Keeps.ok (hk.unlessEnded env fun t => ?_) h) hlt
    refine Keeps.bind (hk.parseStatement env t) fun _ => ?_
    exact Keeps.bind (hk.clear env.toEnv) fun _ => hk.endLine env
  · rw [← hleft]
    refine unlessEnded_fallsFrom hb' ht (fun _ => ?_) _ _ h
    refine (parseStatement_fallsFrom hb' ht).first fun _ => ?_
    exact Keeps.bind (hk.clear env.toEnv) fun _ => hk.endLine env

end

theorem lineStep_progress (env : AsmEnv) : Progress fun _ : Unit => lineStep env := by
  rintro ⟨⟩ s b more t h
  obtain ⟨tok, u, hu, h⟩ := ok_of_bind h
  obtain ⟨rest, hb⟩ := s.tokBuf_ensureFilled_one env
  cases hu
  split at h
  · cases h
    exact Or.inl rfl
  · rename_i heof
    obtain ⟨_, _, ⟨⟩, h⟩ := ok_of_bind h
    obtain ⟨_, w, hw, h⟩ := ok_of_bind h
    cases h
    right
    have hlt := parseLine_fallsFrom (s := { s.ensureFilled env 1 with parseErrorOccurred := false })
      hb heof _ _ hw
    exact Nat.lt_of_lt_of_eq hlt (s.tokensLeft_ensureFilled env 1)

end Spimulator
