import Spimulator.EmitProperty
import Spimulator.Load
import Spimulator.TokenUse

/-! The parse of a file ends, unless a list of expressions stays at a token. -/
namespace Spimulator
open Frame Failure

/-! How a parse that does not end fails. -/

/-- The bound of a loop is used up only at a stuck list. -/
def EndlessAtStuck (e : AsmHalt) (s : Asm) : Prop := e = .endless → s.stuck

lemma failsOnly_throw {α : Type} {e : AsmHalt} (h : e ≠ .endless) :
    FailsOnly EndlessAtStuck (throw e : Assemble α) :=
  FailsOnly.throw fun _ he => absurd he h

lemma failsOnly_onMachine {α : Type} (x : Exec α) : FailsOnly EndlessAtStuck (onMachine x) := by
  intro s e t h he
  subst he
  obtain ⟨k, hk⟩ := error_of_onMachine h
  cases hk

/-! Emission. -/

lemma failsOnly_storeInText (env : Env) (r : InstRef) :
    FailsOnly EndlessAtStuck (storeInText env r) := by
  refine FailsOnly.get_bind fun s => FailsOnly.bind (failsOnly_onMachine _) fun _ => ?_
  refine FailsOnly.bind (failsOnly_onMachine _) fun _ => FailsOnly.get_bind fun s => ?_
  refine FailsOnly.bind (FailsOnly.ite (FailsOnly.modify _) ?_) fun _ => FailsOnly.modify _
  refine FailsOnly.bind (FailsOnly.modify _) fun _ => ?_
  refine FailsOnly.bind (FailsOnly.modify _) fun _ => FailsOnly.get_bind fun s => ?_
  refine FailsOnly.ite (FailsOnly.onlyIf ?_) (FailsOnly.onlyIf ?_)
  · exact failsOnly_throw AsmHalt.noConfusion
  · exact failsOnly_throw AsmHalt.noConfusion

theorem emitProperty_failsOnly : EmitProperty fun x => FailsOnly EndlessAtStuck x where
  elementary h s e t ht he := absurd he (h.fails s e t ht).1
  seq := FailsOnly.bind
  store := failsOnly_storeInText

lemma failsOnly_clearLabels (env : Env) : FailsOnly EndlessAtStuck (clearLabels env) :=
  emitProperty_failsOnly.clearLabels env

lemma failsOnly_lookupLabel (name : String) : FailsOnly EndlessAtStuck (lookupLabel name) :=
  emitProperty_failsOnly.lookupLabel name

lemma failsOnly_emitAst (env : Env) (ns : List (NodeRef × AstNode)) :
    FailsOnly EndlessAtStuck (emitAst env ns) := by
  refine FailsOnly.bind ?_ fun _ => failsOnly_clearLabels env
  induction ns with
  | nil => exact FailsOnly.pure _
  | cons n ns ih =>
    refine FailsOnly.bind (FailsOnly.modify _) fun _ => ?_
    refine FailsOnly.bind (emitProperty_failsOnly.emitOne env n.2 fun _ _ _ => FailsOnly.modify _)
      fun _ => ?_
    exact FailsOnly.bind (FailsOnly.onlyIf (failsOnly_clearLabels env)) fun _ => ih

/-! The parser. -/

lemma failsOnly_parseErrorAt (msg : String) : FailsOnly EndlessAtStuck (parseErrorAt msg) :=
  FailsOnly.bind (FailsOnly.modify _) fun _ => FailsOnly.modify _

lemma failsOnly_makeImmExpr (offs : Word) (sym : Option String) (pc : Bool) :
    FailsOnly EndlessAtStuck (makeImmExpr offs sym pc) := by
  cases sym with
  | none => exact FailsOnly.pure _
  | some name => exact FailsOnly.bind (failsOnly_lookupLabel name) fun _ => FailsOnly.pure _

/-- A loop with the bound that its progress asks for. -/
lemma failsFrom_loop {α : Type} {step : α → Assemble (α × Bool)}
    (hs : ∀ a, FailsOnly EndlessAtStuck (step a)) (hp : Progress step) (a : α) (s : Asm) :
    FailsFrom EndlessAtStuck (repeatStep .endless step (s.tokensLeft + 1) a) s := by
  refine FailsFrom.repeatStep (K := fun n s => s.tokensLeft < n) ?_ ?_ ?_ _ a s (Nat.lt_succ_self _)
  · exact fun s h => absurd h (Nat.not_lt_zero _)
  · exact fun n a s _ => hs a s
  · intro n a s b t hn ht
    rcases hp a s b true t ht with h | h
    · cases h
    · exact Nat.lt_of_lt_of_le h (Nat.le_of_lt_succ hn)

section

variable (env : AsmEnv)

lemma failsOnly_scannerPeek : FailsOnly EndlessAtStuck (scannerPeek env) :=
  FailsOnly.bind (FailsOnly.modify _) fun _ => FailsOnly.get_bind fun _ => FailsOnly.pure _

lemma failsOnly_scannerAdvance : FailsOnly EndlessAtStuck (scannerAdvance env) :=
  FailsOnly.bind (failsOnly_scannerPeek env) fun _ =>
    FailsOnly.bind (FailsOnly.modify _) fun _ => FailsOnly.pure _

lemma failsOnly_takeToken {α : Type} (f : Token → Option α) :
    FailsOnly EndlessAtStuck (takeToken env f) := by
  refine FailsOnly.bind (failsOnly_scannerPeek env) fun t => ?_
  cases f t with
  | none => exact FailsOnly.pure _
  | some a => exact FailsOnly.bind (failsOnly_scannerAdvance env) fun _ => FailsOnly.pure _

lemma failsOnly_takePunct (c : Char) : FailsOnly EndlessAtStuck (takePunct env c) := by
  refine FailsOnly.bind (failsOnly_scannerPeek env) fun t => FailsOnly.ite ?_ (FailsOnly.pure _)
  exact FailsOnly.bind (failsOnly_scannerAdvance env) fun _ => FailsOnly.pure _

lemma failsOnly_syncToNl : FailsOnly EndlessAtStuck (syncToNl env) := by
  intro s
  refine failsFrom_loop (fun _ => ?_) (syncStep_progress env) () s
  refine FailsOnly.bind (failsOnly_scannerPeek env) fun t => FailsOnly.ite (FailsOnly.pure _) ?_
  exact FailsOnly.bind (failsOnly_scannerAdvance env) fun _ => FailsOnly.pure _

variable {env}

lemma failsFrom_parseFactor {n : ℕ} {expr : Assemble Word} {s : Asm}
    (he : ∀ t : Asm, t.tokensLeft < n → FailsFrom EndlessAtStuck expr t) (hs : s.tokensLeft ≤ n) :
    FailsFrom EndlessAtStuck (parseFactor env expr) s := by
  refine FailsFrom.bind (failsOnly_takeToken env _ s) fun o t ht => ?_
  have hst := (tokenRel_tokensFall.takeToken env _).ok ht
  cases o with
  | some v => exact FailsOnly.pure v t
  | none =>
    refine FailsFrom.bind (failsOnly_takePunct env _ t) fun b u hu => ?_
    cases b with
    | true =>
      have hlt := takePunct_falls hu
      refine FailsFrom.bind (he u ?_) fun v w _ => ?_
      · exact Nat.lt_of_lt_of_le hlt (Nat.le_trans hst hs)
      · refine FailsOnly.bind ?_ (fun _ => FailsOnly.pure _) w
        exact FailsOnly.bind (failsOnly_takePunct env _) fun _ =>
          FailsOnly.onlyIf (failsOnly_parseErrorAt _)
    | false =>
      refine FailsOnly.bind (failsOnly_takeToken env _) (fun o => ?_) u
      cases o with
      | none => exact FailsOnly.bind (failsOnly_parseErrorAt _) fun _ => FailsOnly.pure _
      | some name =>
        refine FailsOnly.bind (failsOnly_lookupLabel name) fun l => FailsOnly.get_bind fun s => ?_
        refine FailsOnly.ite ?_ (FailsOnly.pure _)
        exact FailsOnly.bind (FailsOnly.set _) fun _ => FailsOnly.pure _

/-- The loop of a term or an expression, whose operands do not end only with the bound `n`. -/
lemma failsFrom_operands {n : ℕ} {step : Word → Assemble (Word × Bool)} (hp : Progress step)
    (hs : ∀ v (t : Asm), t.tokensLeft ≤ n → FailsFrom EndlessAtStuck (step v) t) (v : Word) {s : Asm}
    (h : s.tokensLeft ≤ n) : FailsFrom EndlessAtStuck (repeatStep .endless step (n + 1) v) s := by
  refine FailsFrom.repeatStep (K := fun m s => s.tokensLeft < m ∧ s.tokensLeft ≤ n) ?_ ?_ ?_ _ v s
    ⟨Nat.lt_succ_of_le h, h⟩
  · exact fun s h => absurd h.1 (Nat.not_lt_zero _)
  · exact fun m v s h => hs v s h.2
  · intro m a s b t hm ht
    rcases hp a s b true t ht with h | h
    · cases h
    · exact ⟨Nat.lt_of_lt_of_le h (Nat.le_of_lt_succ hm.1), Nat.le_trans (Nat.le_of_lt h) hm.2⟩

lemma failsFrom_parseTerm {n : ℕ} {factor : Assemble Word} {s : Asm}
    (hk : Keeps tokensFall factor)
    (hf : ∀ t : Asm, t.tokensLeft ≤ n → FailsFrom EndlessAtStuck factor t)
    (hs : s.tokensLeft ≤ n) : FailsFrom EndlessAtStuck (parseTerm env (n + 1) factor) s := by
  refine FailsFrom.bind (hf s hs) fun v t ht => ?_
  refine failsFrom_operands (termStep_progress hk) (fun v t ht => ?_) v (Nat.le_trans (hk.ok ht) hs)
  refine FailsFrom.bind (failsOnly_takePunct env _ t) fun b u hu => ?_
  have hle := Nat.le_trans ((tokenRel_tokensFall.takePunct env _).ok hu) ht
  cases b with
  | true => exact FailsFrom.bind (hf u hle) fun r w _ => FailsOnly.pure _ w
  | false =>
    refine FailsFrom.bind (failsOnly_takePunct env _ u) fun b w hw => ?_
    have hle := Nat.le_trans ((tokenRel_tokensFall.takePunct env _).ok hw) hle
    cases b with
    | true =>
      refine FailsFrom.bind (hf w hle) fun r x _ => FailsOnly.bind ?_ (fun _ => FailsOnly.pure _) x
      refine FailsOnly.ite (FailsOnly.pure _) (FailsOnly.ite ?_ (FailsOnly.pure _))
      exact failsOnly_throw AsmHalt.noConfusion
    | false => exact FailsOnly.pure _ w

lemma failsFrom_parseExpr {n : ℕ} {s : Asm} (hs : s.tokensLeft < n) :
    FailsFrom EndlessAtStuck (parseExpr env n) s := by
  induction n generalizing s with
  | zero => exact absurd hs (Nat.not_lt_zero _)
  | succ n ih =>
    have hkf := tokenRel_tokensFall.parseFactor env (tokenRel_tokensFall.parseExpr env n)
    have hkt := tokenRel_tokensFall.parseTerm env (n + 1) hkf
    have hterm (t : Asm) (ht : t.tokensLeft ≤ n) :
        FailsFrom EndlessAtStuck (parseTerm env (n + 1) (parseFactor env (parseExpr env n))) t :=
      failsFrom_parseTerm hkf (fun u hu => failsFrom_parseFactor (fun w hw => ih hw) hu) ht
    have hs := Nat.le_of_lt_succ hs
    refine FailsFrom.bind (hterm s hs) fun v t ht => ?_
    refine failsFrom_operands (exprStep_progress hkt) (fun v t ht => ?_) v
      (Nat.le_trans (hkt.ok ht) hs)
    refine FailsFrom.bind (failsOnly_takePunct env _ t) fun b u hu => ?_
    have hle := Nat.le_trans ((tokenRel_tokensFall.takePunct env _).ok hu) ht
    cases b with
    | true => exact FailsFrom.bind (hterm u hle) fun r w _ => FailsOnly.pure _ w
    | false =>
      refine FailsFrom.bind (failsOnly_takePunct env _ u) fun b w hw => ?_
      have hle := Nat.le_trans ((tokenRel_tokensFall.takePunct env _).ok hw) hle
      cases b with
      | true => exact FailsFrom.bind (hterm w hle) fun r x _ => FailsOnly.pure _ x
      | false => exact FailsOnly.pure _ w

lemma failsOnly_parseExpression : FailsOnly EndlessAtStuck (parseExpression env) :=
  fun s => failsFrom_parseExpr (s := s.exprStart) (Nat.lt_succ_self _)

end

section

variable (env : AsmEnv)

lemma failsOnly_exprListStep (es : List ImmExpr) :
    FailsOnly EndlessAtStuck (exprListStep env es) := by
  refine FailsOnly.bind (FailsOnly.bind failsOnly_parseExpression fun v => ?_) fun e => ?_
  · refine FailsOnly.get_bind fun s => FailsOnly.bind (failsOnly_makeImmExpr _ _ _) fun e => ?_
    exact FailsOnly.bind (FailsOnly.modify _) fun _ => FailsOnly.pure _
  · exact FailsOnly.bind (failsOnly_scannerPeek env) fun _ => FailsOnly.pure _

/-- The bound of an expression list is used up only where the list is stuck. -/
lemma failsOnly_parseExprList (kind : DataIntKind) :
    FailsOnly EndlessAtStuck (parseExprList env kind) := by
  intro s
  refine FailsFrom.get_bind (FailsFrom.bind ?_ fun _ t _ => FailsOnly.modify _ t)
  refine FailsFrom.repeatStep (K := fun n s => s.stuck ∨ s.tokensLeft < n)
    ?_ ?_ ?_ _ [] s (Or.inr (Nat.lt_succ_self _))
  · exact fun s h _ => h.resolve_right (Nat.not_lt_zero _)
  · exact fun n es s _ => failsOnly_exprListStep env es s
  · intro n es s es' t h ht
    cases hs : (s.exprToken env).stuck with
    | true =>
      obtain ⟨u, es'', hrun, hu, -⟩ := exprListStep_stuck es hs
      cases hrun.symm.trans ht
      exact Or.inl hu
    | false =>
      right
      have hlt := ((exprListStep_progress ht).mpr hs).resolve_left (by decide)
      rcases h with ⟨tok, rest, hb, htok⟩ | h
      · have hex : s.exprToken env = tok := Asm.nextToken_of_tokBuf hb
        rw [hex, htok] at hs
        cases hs
      · exact Nat.lt_of_lt_of_le hlt (Nat.le_of_lt_succ h)

lemma failsOnly_parseFpExprList (kind : DataFpKind) :
    FailsOnly EndlessAtStuck (parseFpExprList env kind) := by
  intro s
  refine FailsFrom.get_bind (FailsFrom.bind ?_ fun o t _ => ?_)
  · refine failsFrom_loop (fun xs => ?_) (fpListStep_progress env) _ s
    refine FailsOnly.bind (failsOnly_takeToken env _) fun o => ?_
    cases o with
    | none => exact FailsOnly.bind (failsOnly_parseErrorAt _) fun _ => FailsOnly.pure _
    | some v => exact FailsOnly.bind (failsOnly_scannerPeek env) fun _ => FailsOnly.pure _
  · cases o with
    | some vs => exact FailsOnly.modify _ t
    | none => exact FailsOnly.pure _ t

lemma failsOnly_parseDirString (nul : Bool) :
    FailsOnly EndlessAtStuck (parseDirString env nul) := by
  refine FailsOnly.bind (FailsOnly.modify _) fun _ s => ?_
  refine failsFrom_loop (fun _ => ?_) (stringListStep_progress env) () s
  refine FailsOnly.bind (failsOnly_takeToken env _) fun o => ?_
  cases o with
  | none => exact FailsOnly.bind (failsOnly_parseErrorAt _) fun _ => FailsOnly.pure _
  | some bytes =>
    refine FailsOnly.get_bind fun s => FailsOnly.bind ?_ fun _ => ?_
    · exact FailsOnly.ite (failsOnly_parseErrorAt _) (FailsOnly.modify _)
    · exact FailsOnly.bind (failsOnly_scannerPeek env) fun _ => FailsOnly.pure _

end

theorem parseProperty_failsOnly : ParseProperty fun x => FailsOnly EndlessAtStuck x where
  ret := FailsOnly.pure
  seq := FailsOnly.bind
  read := fun s e t h => by cases h
  noImmediateOp := failsOnly_throw AsmHalt.noConfusion
  peek := failsOnly_scannerPeek
  peek2 _ := FailsOnly.bind (FailsOnly.modify _) fun _ => FailsOnly.get_bind fun _ => FailsOnly.pure _
  advance := failsOnly_scannerAdvance
  force := FailsOnly.modify _
  take env _ f := failsOnly_takeToken env f
  punct := failsOnly_takePunct
  inst _ := FailsOnly.modify _
  node _ := FailsOnly.modify _
  seg _ _ := FailsOnly.modify _
  pseudo _ := FailsOnly.modify _
  noAlign := FailsOnly.modify _
  newLine := FailsOnly.modify _
  error := failsOnly_parseErrorAt
  message _ := FailsOnly.modify _
  lookup := failsOnly_lookupLabel
  immExpr := failsOnly_makeImmExpr
  eval := emitProperty_failsOnly.evalImmExpr
  aligned _ _ := FailsOnly.modify _
  clear := failsOnly_clearLabels
  sync := failsOnly_syncToNl
  expression _ := failsOnly_parseExpression
  exprList := failsOnly_parseExprList
  fpExprList := failsOnly_parseFpExprList
  string := failsOnly_parseDirString

theorem failsOnly_parseFile (env : AsmEnv) : FailsOnly EndlessAtStuck (parseFile env) := by
  refine FailsOnly.bind (fun s => ?_) fun _ => FailsOnly.get_bind fun s => ?_
  · refine FailsFrom.get_bind (FailsFrom.bind ?_ fun _ t _ => failsOnly_clearLabels env.toEnv t)
    exact failsFrom_loop (fun _ => parseProperty_failsOnly.lineStep env) (lineStep_progress env) () s
  · cases s.currentFile with
    | none => exact FailsOnly.pure _
    | some nodes => exact FailsOnly.onlyIf (failsOnly_emitAst env.toEnv nodes)

/-- The loops of the parser. An iteration of an expression list uses up a token or is the last just
when the token that it begins at is not stuck, and the iterations of the other loops always do. A
file whose parse does not end is at such a list, which goes on whatever its bound. -/
theorem parse_loops (env : AsmEnv) :
    (∀ es s es' more t, (exprListStep env es).run s = .ok (es', more) t →
      ((more = false ∨ t.tokensLeft < s.tokensLeft) ↔ (s.exprToken env).stuck = false)) ∧
    (Progress (fpListStep env) ∧ Progress (fun _ : Unit => stringListStep env) ∧
      (∀ n, Progress (termStep env (parseFactor env (parseExpr env n)))) ∧
      (∀ n, Progress (exprStep env (parseTerm env (n + 1) (parseFactor env (parseExpr env n))))) ∧
      Progress (syncStep env) ∧ Progress (fun _ : Unit => lineStep env)) ∧
    ∀ s t, (parseFile env).run s = .error .endless t →
      (t.exprToken env).stuck = true ∧
      ∀ n es, ∃ u, (repeatStep .endless (exprListStep env) n es).run t = .error .endless u := by
  have hfactor (n : ℕ) := tokenRel_tokensFall.parseFactor env (tokenRel_tokensFall.parseExpr env n)
  refine ⟨fun es s es' more t h => exprListStep_progress h, ?_, ?_⟩
  · refine ⟨fpListStep_progress env, stringListStep_progress env, ?_, ?_, syncStep_progress env,
      lineStep_progress env⟩
    · exact fun n => termStep_progress (hfactor n)
    · exact fun n => exprStep_progress (tokenRel_tokensFall.parseTerm env (n + 1) (hfactor n))
  · intro s t h
    obtain ⟨tok, rest, hb, htok⟩ := failsOnly_parseFile env s _ t h rfl
    have hstuck : (t.exprToken env).stuck = true := by
      have hex : t.exprToken env = tok := Asm.nextToken_of_tokBuf hb
      rw [hex, htok]
    exact ⟨hstuck, fun n es => exprList_endless es hstuck n⟩

/-- The line `.word 1 "a"`. -/
def wordThenString : List Lexeme :=
  [.ident ".word" (some (.dir .word)), .int 1, .str [97], .nl]

lemma wordThenString_endless :
    ∃ t, (parseFile { Env.quiet with }).run (parserInit wordThenString {}) = .error .endless t := by
  have h : failsWith (· matches .endless)
      ((parseFile { Env.quiet with }).run (parserInit wordThenString {})) = true := by
    decide +kernel
  obtain ⟨e, t, hrun, he⟩ := error_of_failsWith h
  cases e with
  | endless => exact ⟨t, hrun⟩
  | _ => cases he

theorem parse_loops_wordThenString :
    ∃ t : Asm, (t.exprToken { Env.quiet with }).stuck = true := by
  obtain ⟨t, ht⟩ := wordThenString_endless
  exact ⟨t, ((parse_loops { Env.quiet with }).2.2 _ t ht).1⟩

/-- A string in a list of words is never got past. -/
theorem word_list_endless :
    ∃ t, (parseFile { Env.quiet with }).run (parserInit wordThenString {}) = .error .endless t ∧
      ∀ n es, ∃ u, (repeatStep .endless (exprListStep { Env.quiet with }) n es).run t =
        .error .endless u := by
  obtain ⟨t, ht⟩ := wordThenString_endless
  obtain ⟨tok, rest, hb, htok⟩ := failsOnly_parseFile _ _ _ t ht rfl
  have hex : t.exprToken { Env.quiet with } = tok := Asm.nextToken_of_tokBuf hb
  exact ⟨t, ht, fun n es => exprList_endless es (by rw [hex, htok]) n⟩

end Spimulator
