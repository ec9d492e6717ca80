import Spimulator.TokenUse

/-! What parsing the operands of an instruction returns and which instructions it appends to the
tree, from the tokens that are next. -/
namespace Spimulator
open Frame

/-! The tokens ahead. -/

namespace Asm

/-- The token of a lexeme that is no keyword, whatever the parser asks of the scanner. -/
def plainToken (s : Asm) : Lexeme → Option Token
  | .int v => some (.int v)
  | .fp v => some (.fp v)
  | .ident name none => some (s.scanName name)
  | .ident _ (some _) => none
  | .reg n => some (.reg n)
  | .fpReg n => some (.fpReg n)
  | .dollar name => some (s.scanName name)
  | .question => some (.id "?")
  | .str bytes => some (.str bytes)
  | .punct c => some (.punct c)
  | .nl => some .nl

/-- The tokens of the input, up to the first keyword. -/
def plainTokens (s : Asm) : List Lexeme → List Token
  | [] => [.eof]
  | x :: xs => (s.plainToken x).elim [] fun t => t :: s.plainTokens xs

/-- These tokens are next: those in the buffer and then those of the input. -/
def Ahead (s : Asm) (ts : List Token) : Prop := ts <+: s.tokBuf ++ s.plainTokens s.input

/-- The same state with another scanner. -/
def onScanner (s : Asm) (sc : Scanner) : Asm := { s with toScanner := sc }

lemma plainTokens_congr {s t : Asm} (h : s.scanName = t.scanName) :
    s.plainTokens = t.plainTokens := by
  funext xs
  induction xs with
  | nil => rfl
  | cons x xs ih =>
    have hx : s.plainToken x = t.plainToken x := by
      cases x with
      | ident name keyword => cases keyword <;> simp only [plainToken, h]
      | _ => simp only [plainToken, h]
    rw [plainTokens, plainTokens, hx, ih]

lemma scanLexeme_of_plain (env : AsmEnv) {s : Asm} {x : Lexeme} {t : Token}
    (h : s.plainToken x = some t) : s.scanLexeme env x = t := by
  cases x with
  | ident name keyword =>
    cases keyword with
    | none => exact Option.some.inj h
    | some k => cases h
  | _ => exact Option.some.inj h

variable {env : AsmEnv} {s : Asm} {t : Token} {ts : List Token}

lemma ensureFilled_eq (env : AsmEnv) (s : Asm) :
    s.ensureFilled env 1 = s.onScanner (s.ensureFilled env 1).toScanner := by
  rw [ensureFilled_one]
  split
  · unfold scanOneToken
    split <;> rfl
  · rfl

lemma advanced_eq (env : AsmEnv) (s : Asm) :
    s.advanced env = s.onScanner (s.advanced env).toScanner := by
  rw [advanced, ensureFilled_eq]
  rfl

/-- What is ahead depends on the scanner and the names only. -/
lemma Ahead.congr {u : Asm} (h : s.Ahead ts) (hb : u.tokBuf = s.tokBuf) (hi : u.input = s.input)
    (hn : u.scanName = s.scanName) : u.Ahead ts := by
  rw [Ahead, plainTokens_congr hn, hb, hi]
  exact h

/-- Looking at the next token. -/
lemma Ahead.peek (env : AsmEnv) (h : s.Ahead (t :: ts)) :
    s.nextToken env = t ∧ (s.ensureFilled env 1).Ahead (t :: ts) := by
  cases hb : s.tokBuf with
  | cons t' rest =>
    have hfilled : s.ensureFilled env 1 = s := ensureFilled_one_of_ne (by simp [hb])
    rw [hfilled]
    refine ⟨?_, h⟩
    rw [Ahead, hb, List.cons_append, List.cons_prefix_cons] at h
    rw [nextToken_of_tokBuf hb, h.1]
  | nil =>
    have hfilled : s.ensureFilled env 1 = s.scanOneToken env := by rw [ensureFilled_one, if_pos hb]
    rw [Ahead, hb, List.nil_append] at h
    rw [nextToken, hfilled]
    cases hi : s.input with
    | nil =>
      rw [hi, plainTokens, List.cons_prefix_cons] at h
      obtain ⟨rfl, hts⟩ := h
      have hscan : s.scanOneToken env = { s with tokBuf := [.eof], forceIdNext := false } := by
        simp only [scanOneToken, hi, hb, List.nil_append]
      rw [hscan]
      refine ⟨rfl, ?_⟩
      rw [List.prefix_nil.mp hts]
      exact ⟨_, rfl⟩
    | cons x xs =>
      rw [hi, plainTokens] at h
      cases hx : s.plainToken x with
      | none =>
        rw [hx] at h
        exact absurd h (by simp)
      | some t' =>
        rw [hx, Option.elim_some, List.cons_prefix_cons] at h
        obtain ⟨rfl, hts⟩ := h
        have hscan : s.scanOneToken env =
            { s with input := xs, tokBuf := [t], forceIdNext := false } := by
          simp only [scanOneToken, hi, hb, List.nil_append, scanLexeme_of_plain env hx]
        rw [hscan]
        refine ⟨rfl, ?_⟩
        rw [Ahead, List.singleton_append, List.cons_prefix_cons]
        refine ⟨rfl, ?_⟩
        rw [plainTokens_congr (s := { s with input := xs, tokBuf := [t], forceIdNext := false })
          (t := s) rfl]
        exact hts

/-- Taking the next token. -/
lemma Ahead.advance (h : s.Ahead (t :: ts)) : (s.advanced env).Ahead ts := by
  obtain ⟨hnext, hahead⟩ := h.peek env
  obtain ⟨rest, hb⟩ := s.tokBuf_ensureFilled_one env
  rw [hnext] at hb
  rw [Ahead, hb, List.cons_append, List.cons_prefix_cons] at hahead
  have hsame : (s.advanced env).plainTokens = (s.ensureFilled env 1).plainTokens :=
    plainTokens_congr rfl
  rw [Ahead, hsame]
  change ts <+: (s.ensureFilled env 1).tokBuf.tail ++ (s.ensureFilled env 1).plainTokens _
  rw [hb]
  exact hahead.2

/-- What the tree is made of, and the pseudo-op that is being expanded. -/
def SameTree (s t : Asm) : Prop :=
  t.currentFile = s.currentFile ∧ t.nextNode = s.nextNode ∧ t.currentPseudo = s.currentPseudo

def appendInsts (s : Asm) (ns : List InstNode) : Asm := ns.foldl appendInst s

lemma appendInsts_append (s : Asm) (ns ns' : List InstNode) :
    s.appendInsts (ns ++ ns') = (s.appendInsts ns).appendInsts ns' := List.foldl_append ..

lemma SameTree.appendInst {s t : Asm} (h : SameTree s t) (n : InstNode) :
    SameTree (s.appendInst n) (t.appendInst n) := by
  obtain ⟨hf, hn, hp⟩ := h
  unfold Asm.appendInst SameTree
  rw [hp]
  cases s.currentPseudo with
  | some is => exact ⟨hf, hn, rfl⟩
  | none => exact ⟨by simp only [appendNode, hf, hn], by simp only [appendNode, hn], hp⟩

lemma SameTree.appendInsts {s t : Asm} (h : SameTree s t) (ns : List InstNode) :
    SameTree (s.appendInsts ns) (t.appendInsts ns) := by
  induction ns generalizing s t with
  | nil => exact h
  | cons n ns ih => exact ih (h.appendInst n)

lemma SameTree.trans {s t u : Asm} (h : SameTree s t) (h' : SameTree t u) : SameTree s u :=
  ⟨h'.1.trans h.1, h'.2.1.trans h.2.1, h'.2.2.trans h.2.2⟩

lemma Ahead.appendInst {s : Asm} {ts : List Token} (h : s.Ahead ts) (n : InstNode) :
    (s.appendInst n).Ahead ts := by
  unfold Asm.appendInst
  cases s.currentPseudo with
  | some is => exact h.congr rfl rfl rfl
  | none => exact h.congr rfl rfl rfl

end Asm

/-! Reading. -/

/-- From every state with these tokens ahead the parser returns a value, appends instructions to
the tree and leaves tokens ahead, as `Q` has it. -/
def Reads {α : Type} (x : Assemble α) (ts : List Token)
    (Q : α → List InstNode → List Token → Prop) : Prop :=
  ∀ s : Asm, s.Ahead ts → ∃ a t ns ts', x.run s = .ok a t ∧ t.Ahead ts' ∧
    (s.appendInsts ns).SameTree t ∧ Q a ns ts'

/-- The value is `a`, these nodes are appended, and the tokens `ts` are left. -/
def Gives {α : Type} (a : α) (ns : List InstNode) (ts : List Token) :
    α → List InstNode → List Token → Prop :=
  fun a' ns' ts' => a' = a ∧ ns' = ns ∧ ts' = ts

namespace Reads

variable {α β : Type} {env : AsmEnv} {ts rest : List Token} {t : Token}

theorem pure (a : α) : Reads (Pure.pure a) ts (Gives a [] ts) :=
  fun s h => ⟨a, s, [], ts, rfl, h, ⟨rfl, rfl, rfl⟩, rfl, rfl, rfl⟩

theorem bind {x : Assemble α} {f : α → Assemble β} {Q : α → List InstNode → List Token → Prop}
    {R : β → List InstNode → List Token → Prop} (hx : Reads x ts Q)
    (hf : ∀ a ns ts', Q a ns ts' → Reads (f a) ts' fun b ns' ts'' => R b (ns ++ ns') ts'') :
    Reads (x >>= f) ts R := by
  intro s h
  obtain ⟨a, t, ns, ts', hrun, hahead, htree, hq⟩ := hx s h
  obtain ⟨b, u, ns', ts'', hrun', hahead', htree', hr⟩ := hf a ns ts' hq t hahead
  refine ⟨b, u, ns ++ ns', ts'', (run_bind_of_ok hrun).trans hrun', hahead', ?_, hr⟩
  rw [Asm.appendInsts_append]
  exact (htree.appendInsts ns').trans htree'

/-- What is read first is known. -/
theorem then_ {x : Assemble α} {f : α → Assemble β} {a : α} {ns : List InstNode}
    {R : β → List InstNode → List Token → Prop} (hx : Reads x ts (Gives a ns rest))
    (hf : Reads (f a) rest fun b ns' ts'' => R b (ns ++ ns') ts'') : Reads (x >>= f) ts R := by
  refine hx.bind ?_
  rintro _ _ _ ⟨rfl, rfl, rfl⟩
  exact hf

theorem mono {x : Assemble α} {Q R : α → List InstNode → List Token → Prop} (hx : Reads x ts Q)
    (h : ∀ a ns ts', Q a ns ts' → R a ns ts') : Reads x ts R := by
  intro s hs
  obtain ⟨a, t, ns, ts', hrun, hahead, htree, hq⟩ := hx s hs
  exact ⟨a, t, ns, ts', hrun, hahead, htree, h a ns ts' hq⟩

/-- An instruction is appended. -/
theorem append (n : InstNode) : Reads (appendInst n) ts (Gives () [n] ts) :=
  fun s h => ⟨(), s.appendInst n, [n], ts, rfl, h.appendInst n, ⟨rfl, rfl, rfl⟩, rfl, rfl, rfl⟩

/-- An instruction is appended first. -/
theorem emit {f : Unit → Assemble β} {b : β} {n : InstNode} {ns : List InstNode}
    (hf : Reads (f ()) ts (Gives b ns rest)) :
    Reads (Spimulator.appendInst n >>= f) ts (Gives b (n :: ns) rest) := by
  refine (append n).then_ (hf.mono ?_)
  rintro _ _ _ ⟨rfl, rfl, rfl⟩
  exact ⟨rfl, rfl, rfl⟩

theorem force : Reads scannerForceIdentifier ts (Gives () [] ts) := by
  intro s h
  exact ⟨(), { s with forceIdNext := true }, [], ts, rfl, h.congr rfl rfl rfl, ⟨rfl, rfl, rfl⟩, rfl,
    rfl, rfl⟩

theorem take {f : Token → Option α} {a : α} (h : f t = some a) :
    Reads (takeToken env f) (t :: rest) (Gives (some a) [] rest) := by
  intro s hs
  have hnext := (hs.peek env).1
  refine ⟨some a, s.advanced env, [], rest, takeToken_run_some (by rw [hnext, h]), hs.advance, ?_,
    rfl, rfl, rfl⟩
  rw [Asm.advanced_eq]
  exact ⟨rfl, rfl, rfl⟩

theorem leave {f : Token → Option α} (h : f t = none) :
    Reads (takeToken env f) (t :: rest) (Gives none [] (t :: rest)) := by
  intro s hs
  obtain ⟨hnext, hahead⟩ := hs.peek env
  refine ⟨none, s.ensureFilled env 1, [], t :: rest, takeToken_run_none (by rw [hnext, h]), hahead,
    ?_, rfl, rfl, rfl⟩
  rw [Asm.ensureFilled_eq]
  exact ⟨rfl, rfl, rfl⟩

theorem peek : Reads (scannerPeek env) (t :: rest) (Gives t [] (t :: rest)) := by
  intro s hs
  obtain ⟨hnext, hahead⟩ := hs.peek env
  refine ⟨s.nextToken env, s.ensureFilled env 1, [], t :: rest, rfl, hahead, ?_, hnext, rfl, rfl⟩
  rw [Asm.ensureFilled_eq]
  exact ⟨rfl, rfl, rfl⟩

theorem leavePunct {c : Char} (h : t ≠ .punct c) :
    Reads (takePunct env c) (t :: rest) (Gives false [] (t :: rest)) := by
  refine peek.then_ ?_
  simp only [h, if_false]
  exact pure false

/-! Operands. -/

theorem register (n : Word) : Reads (parseRegister env) (.reg n :: rest) (Gives n [] rest) :=
  (take (f := Token.asReg) rfl).then_ (pure n)

/-- An integer ends before a token that is neither a sign nor an integer. -/
theorem absAddr (v : Word) (hplus : t ≠ .punct '+') (hint : t.asInt = none) :
    Reads (parseAbsAddr env) (.int v :: t :: rest) (Gives v [] (t :: rest)) := by
  refine (take (f := Token.asInt) rfl).then_ ((leavePunct hplus).then_ ?_)
  rw [if_neg Bool.false_ne_true]
  exact (leave hint).then_ (pure v)

theorem imm32 (v : Word) (hplus : t ≠ .punct '+') (hint : t.asInt = none) :
    Reads (parseImm32 env) (.int v :: t :: rest) (Gives (constImmExpr v) [] (t :: rest)) := by
  refine force.then_ ((leave (f := Token.asId) rfl).then_ ((leavePunct (by simp)).then_ ?_))
  rw [if_neg Bool.false_ne_true]
  exact (absAddr v hplus hint).then_ (pure _)

/-- A label is looked up, and is new if it is not known; nothing is asked of what is ahead. -/
theorem label (name : String) : Reads (parseLabel env) (.id name :: rest)
    fun e ns _ => (e.symbol.isSome ∧ e.pcRelative ∧ e.bits = 0) ∧ ns = [] := by
  refine (take (f := Token.asId) rfl).then_ fun s hs => ?_
  have hlookup : ∃ l t, (lookupLabel name).run s = .ok l t ∧ s.SameTree t := by
    cases hl : s.labelIsDefined name with
    | some l => exact ⟨l, s, lookupLabel_found hl, rfl, rfl, rfl⟩
    | none => exact ⟨s.nextLabel, s.newLabel name, lookupLabel_new hl, rfl, rfl, rfl⟩
  obtain ⟨l, t, hrun, htree⟩ := hlookup
  refine ⟨{ offset := 0 - s.currentTextPc, symbol := some l, bits := 0, pcRelative := true }, t, [],
    [], ?_, List.nil_prefix, htree, ⟨rfl, rfl, rfl⟩, rfl⟩
  change (do
    let l ← lookupLabel name
    Pure.pure { offset := 0 - s.currentTextPc, symbol := some l, bits := 0, pcRelative := true } :
    Assemble ImmExpr).run s = _
  rw [run_bind_of_ok hrun]
  rfl

end Reads

/-- The computation appends these nodes and reads nothing. -/
def Appends (x : Assemble Unit) (ns : List InstNode) : Prop :=
  ∀ ts, Reads x ts (Gives () ns ts)

namespace Appends

theorem inst (n : InstNode) : Appends (appendInst n) [n] := fun _ => .append n

theorem nil : Appends (pure ()) [] := fun _ => .pure ()

theorem seq {x : Assemble Unit} {f : Unit → Assemble Unit} {ns ns' : List InstNode}
    (hx : Appends x ns) (hf : Appends (f ()) ns') : Appends (x >>= f) (ns ++ ns') := by
  refine fun ts => (hx ts).then_ ((hf ts).mono ?_)
  rintro _ _ _ ⟨rfl, rfl, rfl⟩
  exact ⟨rfl, rfl, rfl⟩

theorem onlyIf {c : Prop} [Decidable c] {x : Assemble Unit} {ns : List InstNode}
    (hx : Appends x ns) : Appends (onlyIf c x) (if c then ns else []) := by
  by_cases h : c
  · rw [onlyIf_pos h, if_pos h]
    exact hx
  · rw [onlyIf_neg h, if_neg h]
    exact nil

theorem ite {c : Prop} [Decidable c] {x y : Assemble Unit} {ns ns' : List InstNode}
    (hx : Appends x ns) (hy : Appends y ns') :
    Appends (if c then x else y) (if c then ns else ns') := by
  by_cases h : c
  · rw [if_pos h, if_pos h]
    exact hx
  · rw [if_neg h, if_neg h]
    exact hy

/-- What is appended after reading. -/
theorem after {x : Assemble Unit} {ns ns' : List InstNode} {ts : List Token} (hx : Appends x ns') :
    Reads x ts fun _ ns'' ts' => Gives () (ns ++ ns') ts () (ns ++ ns'') ts' := by
  refine (hx ts).mono ?_
  rintro _ _ _ ⟨rfl, rfl, rfl⟩
  exact ⟨rfl, rfl, rfl⟩

end Appends
end Spimulator
