import Mathlib.Data.List.Find
import Spimulator.Symbols
import Spimulator.TokenUse

/-! The tokens that the parser is still to see, and computations that take some of them. A request
for an identifier counts for the next token that is scanned. -/
namespace Spimulator
open Frame

/-! The tokens to come. -/

def Token.isKeyword : Token → Bool
  | .keyword _ => true
  | _ => false

lemma Token.eq_of_asInt {t : Token} {v : Word} (h : t.asInt = some v) : t = .int v := by
  cases t with
  | int w => exact congrArg Token.int (Option.some.inj h)
  | _ => cases h

namespace Asm

/-- A lexeme as a token, with a request for an identifier or without. -/
def scanAs (env : AsmEnv) (s : Asm) (forced : Bool) (x : Lexeme) : Token :=
  { s with forceIdNext := forced }.scanLexeme env x

/-- The tokens of the input. A request counts for the first. -/
def unread (env : AsmEnv) (s : Asm) : List Token :=
  match s.input with
  | [] => []
  | x :: xs => s.scanAs env s.forceIdNext x :: xs.map (s.scanAs env false)

/-- The tokens that the parser is still to see. -/
def upcoming (env : AsmEnv) (s : Asm) : List Token := s.tokBuf.filter (· ≠ .eof) ++ s.unread env

/-- scanner_force_identifier -/
def requested (s : Asm) : Asm := { s with forceIdNext := true }

/-- The entries of the symbol table have been allotted. -/
def Allotted (s : Asm) : Prop := ∀ l ∈ s.table, l < s.nextLabel

variable {env : AsmEnv} {s t : Asm}

@[simp] lemma scanAs_name (forced : Bool) (name : String) :
    s.scanAs env forced (.ident name none) = s.scanName name := rfl

@[simp] lemma scanAs_dollar (forced : Bool) (name : String) :
    s.scanAs env forced (.dollar name) = s.scanName name := rfl

lemma scanAs_keyword (forced : Bool) (name : String) (k : Keyword) :
    s.scanAs env forced (.ident name (some k)) =
      if forced = false ∧ checkKeyword env k then .keyword k else s.scanName name := rfl

lemma scanAs_congr (h : t.scanName = s.scanName) : t.scanAs env = s.scanAs env := by
  funext forced x
  cases x with
  | ident name keyword =>
    cases keyword with
    | none => rw [scanAs_name, scanAs_name, h]
    | some k => rw [scanAs_keyword, scanAs_keyword, h]
  | dollar name => rw [scanAs_dollar, scanAs_dollar, h]
  | _ => rfl

lemma scanAs_ne_eof (s : Asm) (forced : Bool) (x : Lexeme) : s.scanAs env forced x ≠ .eof :=
  scanLexeme_ne_eof env _ x

lemma isKeyword_scanName (s : Asm) (name : String) : (s.scanName name).isKeyword = false := by
  unfold scanName
  split
  · split <;> rfl
  · rfl

lemma isKeyword_forced (s : Asm) (x : Lexeme) : (s.scanAs env true x).isKeyword = false := by
  cases x with
  | ident name keyword =>
    cases keyword with
    | none => exact s.isKeyword_scanName name
    | some k => exact s.isKeyword_scanName name
  | dollar name => exact s.isKeyword_scanName name
  | _ => rfl

/-- A request matters for a keyword only. -/
lemma scanAs_eq_of_not_keyword {x : Lexeme} (h : (s.scanAs env false x).isKeyword = false)
    (forced : Bool) : s.scanAs env forced x = s.scanAs env false x := by
  cases x with
  | ident name keyword =>
    cases keyword with
    | none => rfl
    | some k =>
      rw [scanAs_keyword] at h ⊢
      rw [scanAs_keyword]
      by_cases hk : checkKeyword env k = true
      · rw [if_pos ⟨rfl, hk⟩] at h
        cases h
      · rw [if_neg (fun h => hk h.2), if_neg (fun h => hk h.2)]
  | _ => rfl

/-- A keyword is read from the name that spells it. -/
lemma keyword_of_scanAs {x : Lexeme} (h : (s.scanAs env false x).isKeyword = true) :
    ∃ name k, x = .ident name (some k) ∧ checkKeyword env k = true := by
  cases x with
  | ident name keyword =>
    cases keyword with
    | none =>
      rw [scanAs_name, isKeyword_scanName] at h
      cases h
    | some k =>
      refine ⟨name, k, rfl, ?_⟩
      by_contra hk
      rw [scanAs_keyword, if_neg (fun h => hk h.2), isKeyword_scanName] at h
      cases h
  | dollar name =>
    rw [scanAs_dollar, isKeyword_scanName] at h
    cases h
  | _ => cases h

lemma asInt_or_asId_scanName (s : Asm) (name : String) :
    (s.scanName name).asInt.isSome ∨ (s.scanName name).asId.isSome := by
  unfold scanName
  split
  · split
    · exact Or.inl rfl
    · exact Or.inr rfl
  · exact Or.inr rfl

lemma upcoming_congr (hb : t.tokBuf = s.tokBuf) (hi : t.input = s.input)
    (hf : t.forceIdNext = s.forceIdNext) (hn : t.scanName = s.scanName) :
    t.upcoming env = s.upcoming env := by
  rw [upcoming, upcoming, unread, unread, hb, hi, hf, scanAs_congr hn]

/-- Scanning a token takes it from those to come. -/
lemma upcoming_scanOneToken (env : AsmEnv) (s : Asm) :
    (s.scanOneToken env).upcoming env = s.upcoming env := by
  unfold scanOneToken
  cases hi : s.input with
  | nil => simp [upcoming, unread, hi]
  | cons x xs =>
    have hne : s.scanLexeme env x ≠ .eof := scanLexeme_ne_eof env s x
    have hread : ({ s with
        input := xs
        tokBuf := s.tokBuf ++ [s.scanLexeme env x]
        forceIdNext := false } : Asm).unread env = xs.map (s.scanAs env false) := by
      cases xs <;> rfl
    rw [upcoming, hread, upcoming, unread, hi]
    simp only [List.filter_append, List.append_assoc]
    rw [List.filter_cons_of_pos (by simpa using hne)]
    rfl

lemma upcoming_ensureFilled (env : AsmEnv) (n : ℕ) (s : Asm) :
    (s.ensureFilled env n).upcoming env = s.upcoming env := by
  induction n with
  | zero => rfl
  | succ n ih =>
    change (if (s.ensureFilled env n).tokBuf.length ≤ n then _ else _ : Asm).upcoming env = _
    split
    · rw [upcoming_scanOneToken, ih]
    · exact ih

lemma upcoming_drop (env : AsmEnv) (s : Asm) :
    ({ s with tokBuf := s.tokBuf.tail } : Asm).upcoming env <:+ s.upcoming env := by
  have hread : ({ s with tokBuf := s.tokBuf.tail } : Asm).unread env = s.unread env := rfl
  rw [upcoming, hread, upcoming]
  cases s.tokBuf with
  | nil => exact List.suffix_rfl
  | cons t ts =>
    rw [List.tail_cons, List.filter_cons]
    split
    · exact List.suffix_cons _ _
    · exact List.suffix_rfl

/-- A new name is no keyword and no constant. -/
lemma scanName_newLabel (hs : s.Allotted) {name : String} (h : s.labelIsDefined name = none) :
    (s.newLabel name).scanName = s.scanName := by
  have hlabel (l : LabelRef) (hl : l ∈ s.table) : (s.newLabel name).label l = s.label l := by
    rw [label_newLabel, if_neg (Nat.ne_of_lt (hs l hl))]
  have hfind (n : String) : s.table.find? (fun l => ((s.newLabel name).label l).name = n) =
      s.labelIsDefined n := by
    exact List.find?_congr fun l hl => by rw [hlabel l hl]
  funext n
  have hnew : (s.newLabel name).labelIsDefined n =
      if name = n then some s.nextLabel else s.labelIsDefined n := by
    change List.find? _ (s.nextLabel :: s.table) = _
    rw [List.find?_cons, hfind, label_newLabel, if_pos rfl]
    by_cases hn : name = n <;> simp [hn]
  unfold scanName
  rw [hnew]
  by_cases hn : name = n
  · rw [if_pos hn, ← hn, h]
    simp [label_newLabel]
  · rw [if_neg hn]
    cases hl : s.labelIsDefined n with
    | none => rfl
    | some l => simp only [hlabel l (mem_table_of_labelIsDefined hl)]

end Asm

/-- What ends a mapped list is a mapped end. -/
lemma suffix_map {α β : Type} {f : α → β} {l : List α} {l' : List β} (h : l' <:+ l.map f) :
    ∃ rest, rest <:+ l ∧ l' = rest.map f := by
  obtain ⟨before, h⟩ := h
  obtain ⟨l₁, l₂, rfl, -, rfl⟩ := List.map_eq_append_iff.mp h.symm
  exact ⟨l₂, List.suffix_append l₁ l₂, rfl⟩

lemma suffix_of_eq {α : Type} {l l' : List α} (h : l' = l) : l' <:+ l := h ▸ List.suffix_rfl

/-- The tokens to come are a part of those that were, and are read as they were. -/
def consumes (env : AsmEnv) : Rel Asm where
  rel s t := s.Allotted → t.Allotted ∧ t.scanName = s.scanName ∧ t.upcoming env <:+ s.upcoming env
  refl s hs := ⟨hs, rfl, List.suffix_rfl⟩
  trans h h' hs := by
    obtain ⟨ht, hname, hup⟩ := h hs
    obtain ⟨hu, hname', hup'⟩ := h' ht
    exact ⟨hu, hname'.trans hname, hup'.trans hup⟩

lemma readRel_consumes (env : AsmEnv) : ReadRel env (consumes env) where
  unresolved s o hs := ⟨hs, rfl, List.suffix_rfl⟩
  newLabel s name h hs := by
    refine ⟨fun l hl => ?_, Asm.scanName_newLabel hs h, ?_⟩
    · rcases List.mem_cons.mp hl with rfl | hl
      · exact Nat.lt_succ_self _
      · exact Nat.lt_succ_of_lt (hs l hl)
    · exact suffix_of_eq (Asm.upcoming_congr rfl rfl rfl (Asm.scanName_newLabel hs h))
  parseError s msg hs := ⟨hs, rfl, List.suffix_rfl⟩
  scanOne s hs := by
    refine ⟨?_, ?_, suffix_of_eq (s.upcoming_scanOneToken env)⟩
    · unfold Asm.scanOneToken
      split <;> exact hs
    · unfold Asm.scanOneToken
      split <;> rfl
  drop s hs := ⟨hs, rfl, s.upcoming_drop env⟩

/-- The input is used up from its beginning. -/
def shortens : Rel Asm where
  rel s t := t.input <:+ s.input
  refl _ := List.suffix_rfl
  trans h h' := h'.trans h

lemma readRel_shortens (env : AsmEnv) : ReadRel env shortens where
  unresolved _ _ := List.suffix_rfl
  newLabel _ _ _ := List.suffix_rfl
  parseError _ _ := List.suffix_rfl
  scanOne s := by
    change (s.scanOneToken env).input <:+ s.input
    unfold Asm.scanOneToken
    split
    · exact List.suffix_rfl
    · next x xs hi =>
      rw [hi]
      exact List.suffix_cons x xs
  drop _ := List.suffix_rfl

/-! Reading tokens. -/

/-- These tokens are to come, and at most one has been looked at. -/
structure Sees (env : AsmEnv) (ts : List Token) (s : Asm) : Prop where
  ahead : s.upcoming env = ts
  one : s.tokBuf.length ≤ 1
  atEnd : .eof ∈ s.tokBuf → s.input = []
  allotted : s.Allotted

namespace Sees

variable {env : AsmEnv} {s : Asm} {t : Token} {ts : List Token}

/-- The token in the buffer. -/
lemma buffer (h : Sees env ts s) : s.tokBuf = [] ∨ ∃ t, s.tokBuf = [t] := by
  have hone := h.one
  match hb : s.tokBuf with
  | [] => exact Or.inl rfl
  | [t] => exact Or.inr ⟨t, rfl⟩
  | _ :: _ :: _ =>
    rw [hb] at hone
    simp at hone

lemma of_buffer {t : Token} (hs : s.Allotted) (hb : s.tokBuf = [t])
    (hend : t = .eof → s.input = []) (ha : s.upcoming env = ts) :
    Sees env ts s ∧ s.tokBuf = [ts.headD .eof] := by
  refine ⟨⟨ha, by rw [hb]; rfl, fun he => ?_, hs⟩, ?_⟩
  · rw [hb, List.mem_singleton] at he
    exact hend he.symm
  · rw [hb, ← ha, Asm.upcoming, hb]
    by_cases ht : t = .eof
    · rw [Asm.unread, hend ht, ht]
      rfl
    · rw [List.filter_cons_of_pos (by simpa using ht)]
      rfl

/-- The buffer after a look at the next token. -/
lemma filled (h : Sees env ts s) :
    Sees env ts (s.ensureFilled env 1) ∧ (s.ensureFilled env 1).tokBuf = [ts.headD .eof] := by
  have hup := (s.upcoming_ensureFilled env 1).trans h.ahead
  rcases h.buffer with hb | ⟨t, hb⟩
  · rw [Asm.ensureFilled_one, if_pos hb] at hup ⊢
    have hs : (s.scanOneToken env).Allotted := by
      unfold Asm.scanOneToken
      split <;> exact h.allotted
    cases hi : s.input with
    | nil =>
      have hscan : s.scanOneToken env = { s with tokBuf := [.eof], forceIdNext := false } := by
        simp only [Asm.scanOneToken, hi, hb, List.nil_append]
      exact of_buffer hs (by rw [hscan]) (fun _ => by rw [hscan]; exact hi) hup
    | cons x xs =>
      have hscan : s.scanOneToken env =
          { s with input := xs, tokBuf := [s.scanLexeme env x], forceIdNext := false } := by
        simp only [Asm.scanOneToken, hi, hb, List.nil_append]
      exact of_buffer hs (by rw [hscan]) (fun he => absurd he (Asm.scanLexeme_ne_eof env s x)) hup
  · rw [Asm.ensureFilled_one_of_ne (by simp [hb])] at hup ⊢
    exact of_buffer h.allotted hb (fun he => h.atEnd (by rw [hb, he]; exact List.mem_singleton.mpr rfl))
      hup

lemma next (h : Sees env ts s) : s.nextToken env = ts.headD .eof := by
  rw [Asm.nextToken, h.filled.2]
  rfl

lemma advanced (h : Sees env (t :: ts) s) : Sees env ts (s.advanced env) := by
  obtain ⟨hf, hb⟩ := h.filled
  rw [List.headD_cons] at hb
  have hnil : (s.advanced env).tokBuf = [] := by
    rw [Asm.advanced, hb]
    rfl
  have hread : (s.advanced env).unread env = (s.ensureFilled env 1).unread env := rfl
  have ht : t ≠ .eof := by
    intro ht
    have hup := hf.ahead
    rw [Asm.upcoming, hb, Asm.unread, hf.atEnd (by rw [hb, ht]; exact List.mem_singleton.mpr rfl),
      ht] at hup
    cases hup
  have hup := hf.ahead
  rw [Asm.upcoming, hb, List.filter_cons_of_pos (by simpa using ht)] at hup
  refine ⟨?_, by simp [hnil], by simp [hnil], hf.allotted⟩
  rw [Asm.upcoming, hnil, hread]
  exact (List.cons.inj hup).2

end Sees

lemma peek_run (env : AsmEnv) (s : Asm) :
    (scannerPeek env).run s = .ok (s.nextToken env) (s.ensureFilled env 1) := rfl

/-- The second token, where the first is in the buffer. -/
lemma peek2_run {env : AsmEnv} {ts : List Token} {s : Asm} {c : Char} (hs : Sees env (.punct c :: ts) s) (hb : s.tokBuf = [.punct c]) :
    (scannerPeek2 env).run s = .ok (ts.headD .eof) (s.scanOneToken env) := by
  have hfill : s.ensureFilled env 2 = s.scanOneToken env := by
    change (if (s.ensureFilled env 1).tokBuf.length ≤ 1 then _ else _) = _
    rw [Asm.ensureFilled_one_of_ne (by simp [hb]), hb]
    rfl
  have hread : s.unread env = ts := by
    have h := hs.ahead
    rw [Asm.upcoming, hb] at h
    exact (List.cons.inj h).2
  have hsecond : (s.scanOneToken env).tokBuf.getD 1 .eof = ts.headD .eof := by
    rw [← hread]
    unfold Asm.unread
    cases hi : s.input with
    | nil =>
      have hscan : s.scanOneToken env = { s with tokBuf := [.punct c, .eof], forceIdNext := false } := by
        simp only [Asm.scanOneToken, hi, hb, List.cons_append, List.nil_append]
      rw [hscan]
      rfl
    | cons x xs =>
      have hscan : s.scanOneToken env = { s with
          input := xs, tokBuf := [.punct c, s.scanLexeme env x], forceIdNext := false } := by
        simp only [Asm.scanOneToken, hi, hb, List.cons_append, List.nil_append]
      rw [hscan]
      rfl
  change EStateM.Result.ok ((s.ensureFilled env 2).tokBuf.getD 1 .eof) (s.ensureFilled env 2) = _
  rw [hfill, hsecond]

/-- What follows an integer and belongs to it, left out. -/
def afterInt : List Token → List Token
  | .punct '+' :: .int _ :: ts | .punct '+' :: ts | .int _ :: ts => ts
  | ts => ts

lemma afterInt_suffix (ts : List Token) : afterInt ts <:+ ts := by
  unfold afterInt
  split
  · exact (List.suffix_cons _ _).trans (List.suffix_cons _ _)
  · exact List.suffix_cons _ _
  · exact List.suffix_cons _ _
  · exact List.suffix_rfl

/-- The computation succeeds where these tokens are to come, and others are to come after it. -/
def Leaves {α : Type} (env : AsmEnv) (x : Assemble α) (ts : List Token) (Q : α → List Token → Prop) :
    Prop :=
  ∀ s, Sees env ts s → ∃ a t ts', x.run s = .ok a t ∧ Sees env ts' t ∧ Q a ts'

namespace Leaves

variable {α β : Type} {env : AsmEnv} {x : Assemble α} {f : α → Assemble β} {ts ts' : List Token}

theorem pure {Q : α → List Token → Prop} {a : α} (h : Q a ts) : Leaves env (Pure.pure a) ts Q :=
  fun s hs => ⟨a, s, ts, rfl, hs, h⟩

theorem bind {Q : α → List Token → Prop} {R : β → List Token → Prop} (hx : Leaves env x ts Q)
    (hf : ∀ a ts', Q a ts' → Leaves env (f a) ts' R) : Leaves env (x >>= f) ts R := by
  intro s hs
  obtain ⟨a, t, ts', hrun, ht, hq⟩ := hx s hs
  obtain ⟨b, u, ts'', hrun', hu, hr⟩ := hf a ts' hq t ht
  exact ⟨b, u, ts'', (run_bind_of_ok hrun).trans hrun', hu, hr⟩

/-- What is read first takes known tokens. -/
theorem seq {R : β → List Token → Prop} (hx : Leaves env x ts fun _ ts'' => ts'' = ts')
    (hf : ∀ a, Leaves env (f a) ts' R) : Leaves env (x >>= f) ts R := by
  refine hx.bind ?_
  rintro a _ rfl
  exact hf a

/-- What is read does not matter. -/
theorem discard {Q : List Token → Prop} (ts' : List Token)
    (hx : Leaves env x ts fun _ ts'' => ts'' = ts') (hq : Q ts') :
    Leaves env (do let _ ← x; Pure.pure () : Assemble Unit) ts fun _ ts'' => Q ts'' :=
  hx.seq fun _ => pure hq

/-- What is read first is known. -/
theorem then_ {a : α} {R : β → List Token → Prop}
    (hx : Leaves env x ts fun a' ts'' => a' = a ∧ ts'' = ts')
    (hf : Leaves env (f a) ts' R) : Leaves env (x >>= f) ts R := by
  refine hx.bind ?_
  rintro _ _ ⟨rfl, rfl⟩
  exact hf

theorem take {t : Token} {f : Token → Option α} {a : α} (h : f t = some a) :
    Leaves env (takeToken env f) (t :: ts) fun o ts' => o = some a ∧ ts' = ts := by
  intro s hs
  refine ⟨some a, s.advanced env, ts, takeToken_run_some ?_, hs.advanced, rfl, rfl⟩
  rw [hs.next, List.headD_cons, h]

theorem skip {f : Token → Option α} (h : f (ts.headD .eof) = none) :
    Leaves env (takeToken env f) ts fun o ts' => o = none ∧ ts' = ts := by
  intro s hs
  refine ⟨none, s.ensureFilled env 1, ts, takeToken_run_none ?_, hs.filled.1, rfl, rfl⟩
  rw [hs.next, h]

theorem punct {c : Char} :
    Leaves env (takePunct env c) (.punct c :: ts) fun b ts' => b = true ∧ ts' = ts := by
  intro s hs
  refine ⟨true, s.advanced env, ts, ?_, hs.advanced, rfl, rfl⟩
  rw [takePunct_run, hs.next, List.headD_cons, if_pos rfl]

theorem noPunct {c : Char} (h : ts.headD .eof ≠ .punct c) :
    Leaves env (takePunct env c) ts fun b ts' => b = false ∧ ts' = ts := by
  intro s hs
  refine ⟨false, s.ensureFilled env 1, ts, ?_, hs.filled.1, rfl, rfl⟩
  rw [takePunct_run, hs.next, if_neg h]

theorem peek : Leaves env (scannerPeek env) ts fun t ts' => t = ts.headD .eof ∧ ts' = ts :=
  fun s hs => ⟨s.nextToken env, s.ensureFilled env 1, ts, rfl, hs.filled.1, hs.next, rfl⟩

theorem error (msg : String) :
    Leaves env (parseErrorAt msg) ts fun _ ts' => ts' = ts :=
  fun _ hs => ⟨(), _, ts, rfl, ⟨hs.ahead, hs.one, hs.atEnd, hs.allotted⟩, rfl⟩

theorem errorIf {c : Prop} [Decidable c] (msg : String) :
    Leaves env (onlyIf c (parseErrorAt msg)) ts fun _ ts' => ts' = ts := by
  by_cases h : c
  · rw [onlyIf_pos h]
    exact error msg
  · rw [onlyIf_neg h]
    exact pure rfl

theorem lookup (name : String) :
    Leaves env (lookupLabel name) ts fun _ ts' => ts' = ts := by
  intro s hs
  cases hl : s.labelIsDefined name with
  | some l => exact ⟨l, s, ts, lookupLabel_found hl, hs, rfl⟩
  | none =>
    obtain ⟨hnew, -, -⟩ := (readRel_consumes env).newLabel s name hl hs.allotted
    refine ⟨s.nextLabel, s.newLabel name, ts, lookupLabel_new hl, ⟨?_, hs.one, hs.atEnd, hnew⟩,
      rfl⟩
    rw [← hs.ahead]
    exact Asm.upcoming_congr rfl rfl rfl (Asm.scanName_newLabel hs.allotted hl)

theorem immExpr (offs : Word) (sym : Option String) (pc : Bool) :
    Leaves env (makeImmExpr offs sym pc) ts fun _ ts' => ts' = ts := by
  cases sym with
  | none => exact pure rfl
  | some name => exact (lookup name).bind fun _ _ h => pure h

theorem addrExpr (offs : Word) (sym : Option String) (regNo : Word) :
    Leaves env (makeAddrExpr offs sym regNo) ts fun _ ts' => ts' = ts := by
  have hplain (sym : Option String) : Leaves env (do
      let e ← makeImmExpr offs sym false
      Pure.pure (e, regNo &&& 0xff) : Assemble (ImmExpr × Word)) ts fun _ ts' => ts' = ts :=
    (immExpr offs sym false).bind fun _ _ h => pure h
  cases sym with
  | none => exact hplain none
  | some name =>
    change Leaves env (if regNo = 0 then _ else _) ts _
    split
    · refine (lookup name).bind ?_
      rintro l _ rfl s hs
      change ∃ a t ts', (if (s.label l).gpFlag then _ else _ : Assemble (ImmExpr × Word)).run s =
        .ok a t ∧ _
      split
      · exact (immExpr _ none false).bind (fun _ _ h => pure h) s hs
      · exact hplain _ s hs
    · exact hplain _

theorem mono {Q R : α → List Token → Prop} (h : Leaves env x ts Q) (hqr : ∀ a ts', Q a ts' → R a ts') :
    Leaves env x ts R := by
  intro s hs
  obtain ⟨a, t, ts', hrun, ht, hq⟩ := h s hs
  exact ⟨a, t, ts', hrun, ht, hqr a ts' hq⟩

/-- The first token is not taken, and an error is noted. -/
theorem expect {c : Char} {what : String} (h : ts.headD .eof ≠ .punct c) :
    Leaves env (expect env c what) ts fun _ ts' => ts' = ts :=
  (noPunct h).then_ (errorIf what)

/-- A second integer. -/
theorem absAddrInt (v w : Word) :
    Leaves env (absAddrRest env v) (.int w :: ts) fun _ ts' => ts' = ts := by
  refine (noPunct (by simp)).then_ ?_
  rw [if_neg Bool.false_ne_true]
  refine (take (f := Token.asInt) (a := w) rfl).then_ ?_
  exact (errorIf _).bind fun _ _ h => pure h

theorem absAddrEnd (v : Word) (hplus : ts.headD .eof ≠ .punct '+')
    (hint : (ts.headD .eof).asInt = none) :
    Leaves env (absAddrRest env v) ts fun _ ts' => ts' = ts := by
  refine (noPunct hplus).then_ ?_
  rw [if_neg Bool.false_ne_true]
  exact (skip hint).then_ (pure rfl)

theorem absAddrPlus (v : Word) :
    Leaves env (absAddrRest env v) (.punct '+' :: ts)
      fun _ ts' => ts' = afterInt (.punct '+' :: ts) := by
  refine punct.then_ ?_
  rw [if_pos rfl]
  cases ts with
  | nil =>
    refine (skip (f := Token.asInt) rfl).then_ ?_
    exact (error _).bind fun _ _ h => pure h
  | cons t ts =>
    cases t with
    | int w => exact (take (f := Token.asInt) (a := w) rfl).then_ (pure rfl)
    | _ =>
      refine (skip (f := Token.asInt) rfl).then_ ?_
      exact (error _).bind fun _ _ h => pure h

/-- An integer and what belongs to it -/
theorem absAddr (v : Word) :
    Leaves env (parseAbsAddr env) (.int v :: ts) fun _ ts' => ts' = afterInt ts := by
  have hrest : Leaves env (absAddrRest env v) ts fun _ ts' => ts' = afterInt ts := by
    cases ts with
    | nil => exact absAddrEnd v (by simp) rfl
    | cons t ts =>
      cases t with
      | int w => exact absAddrInt v w
      | punct c =>
        by_cases hc : c = '+'
        · rw [hc]
          exact absAddrPlus v
        · have hne : Token.punct c ≠ .punct '+' := fun h => hc (Token.punct.inj h)
          have hafter : afterInt (.punct c :: ts) = .punct c :: ts := by
            unfold afterInt
            split <;> simp_all
          rw [hafter]
          exact absAddrEnd v hne rfl
      | _ => exact absAddrEnd v (by simp) rfl
  exact (take (f := Token.asInt) (a := v) rfl).then_ hrest

/-- No integer where one is expected. -/
theorem absAddrMissing (h : (ts.headD .eof).asInt = none) :
    Leaves env (parseAbsAddr env) ts fun _ ts' => ts' = ts :=
  (skip h).then_ ((error _).bind fun _ _ h => pure h)

theorem modify {f : Asm → Asm} (h : ∀ s, Sees env ts s → Sees env ts (f s)) :
    Leaves env (modifyThe Asm f) ts fun _ ts' => ts' = ts :=
  fun s hs => ⟨(), f s, ts, rfl, h s hs, rfl⟩

theorem get_bind {f : Asm → Assemble α} {Q : α → List Token → Prop} (h : ∀ s, Leaves env (f s) ts Q) :
    Leaves env (get >>= f) ts Q := fun s hs => h s s hs

/-- A loop whose first step asks for no more. -/
theorem once {step : α → Assemble (α × Bool)} {e : AsmHalt} {n : ℕ} {a b : α}
    (h : Leaves env (step a) ts fun r ts' => r = (b, false) ∧ ts' = ts) :
    Leaves env (repeatStep e step (n + 1) a) ts fun _ ts' => ts' = ts :=
  h.then_ (pure rfl)

theorem symbolFactor (name : String) :
    Leaves env (symbolFactor name) ts fun _ ts' => ts' = ts := by
  refine (lookup name).bind ?_
  rintro l _ rfl s hs
  change ∃ a t ts', (if (s.label l).addr = 0 then do
      set { s with exprUnresolvedLabel := s.exprUnresolvedLabel.or (some l) }
      Pure.pure 0
    else Pure.pure (s.label l).addr : Assemble Word).run s = .ok a t ∧ _
  split
  · exact ⟨0, _, _, rfl, ⟨hs.ahead, hs.one, hs.atEnd, hs.allotted⟩, rfl⟩
  · exact ⟨_, s, _, rfl, hs, rfl⟩

/-- A factor that is an integer or a name. -/
theorem factor {t : Token} (h : t.asInt.isSome ∨ t.asId.isSome) (expr : Assemble Word) :
    Leaves env (parseFactor env expr) (t :: ts) fun _ ts' => ts' = ts := by
  cases t with
  | int v => exact (take (f := Token.asInt) (a := v) rfl).then_ (pure rfl)
  | id name =>
    refine (skip (f := Token.asInt) rfl).then_ ((noPunct (by simp)).then_ ?_)
    rw [if_neg Bool.false_ne_true]
    exact (take (f := Token.asId) (a := name) rfl).then_ (symbolFactor name)
  | _ => simp [Token.asInt, Token.asId] at h

theorem factorMissing (expr : Assemble Word) (hint : (ts.headD .eof).asInt = none)
    (hid : (ts.headD .eof).asId = none) (hp : ts.headD .eof ≠ .punct '(') :
    Leaves env (parseFactor env expr) ts fun _ ts' => ts' = ts := by
  refine (skip hint).then_ ((noPunct hp).then_ ?_)
  rw [if_neg Bool.false_ne_true]
  exact (skip hid).then_ ((error _).bind fun _ _ h => pure h)

theorem termStepEnd (factor : Assemble Word) (v : Word) (hm : ts.headD .eof ≠ .punct '*')
    (hd : ts.headD .eof ≠ .punct '/') :
    Leaves env (termStep env factor v) ts fun r ts' => r = (v, false) ∧ ts' = ts := by
  refine (noPunct hm).then_ ?_
  rw [if_neg Bool.false_ne_true]
  refine (noPunct hd).then_ ?_
  rw [if_neg Bool.false_ne_true]
  exact pure ⟨rfl, rfl⟩

theorem exprStepEnd (term : Assemble Word) (v : Word) (hp : ts.headD .eof ≠ .punct '+')
    (hm : ts.headD .eof ≠ .punct '-') :
    Leaves env (exprStep env term v) ts fun r ts' => r = (v, false) ∧ ts' = ts := by
  refine (noPunct hp).then_ ?_
  rw [if_neg Bool.false_ne_true]
  refine (noPunct hm).then_ ?_
  rw [if_neg Bool.false_ne_true]
  exact pure ⟨rfl, rfl⟩

/-- An expression that ends with its first factor. -/
theorem exprEnd {n : ℕ} {ts' : List Token} (hop : ∀ c ∈ ['*', '/', '+', '-'], ts'.headD .eof ≠ .punct c)
    (hfactor : ∀ expr, Leaves env (parseFactor env expr) ts fun _ ts'' => ts'' = ts') :
    Leaves env (parseExpr env (n + 1)) ts fun _ ts'' => ts'' = ts' := by
  have hterm : Leaves env (parseTerm env (n + 1) (parseFactor env (parseExpr env n))) ts
      fun _ ts'' => ts'' = ts' := by
    refine (hfactor _).bind ?_
    rintro v _ rfl
    exact once (termStepEnd _ v (hop _ (by decide)) (hop _ (by decide)))
  refine hterm.bind ?_
  rintro v _ rfl
  exact once (exprStepEnd _ v (hop _ (by decide)) (hop _ (by decide)))

end Leaves

/-- The tokens that are left after the computation are among these. -/
def Uses {α : Type} (env : AsmEnv) (x : Assemble α) (ts rest : List Token) : Prop :=
  ∀ s a t, Sees env ts s → x.run s = .ok a t → t.Allotted ∧ t.upcoming env <:+ rest

namespace Uses

variable {α β : Type} {env : AsmEnv} {x : Assemble α} {f : α → Assemble β}
  {ts ts' rest : List Token}

theorem of_leaves (h : Leaves env x ts fun _ ts' => ts' <:+ rest) : Uses env x ts rest := by
  intro s a t hs hrun
  obtain ⟨a', t', ts', hrun', ht, hsuffix⟩ := h s hs
  rw [hrun] at hrun'
  cases hrun'
  rw [ht.ahead]
  exact ⟨ht.allotted, hsuffix⟩

theorem of_keeps (h : Keeps (consumes env) x) (hrest : ts <:+ rest) : Uses env x ts rest := by
  intro s a t hs hrun
  obtain ⟨ht, -, hsuffix⟩ := h.ok hrun hs.allotted
  rw [hs.ahead] at hsuffix
  exact ⟨ht, hsuffix.trans hrest⟩

theorem mono {rest' : List Token} (h : Uses env x ts rest) (hrest : rest <:+ rest') :
    Uses env x ts rest' := fun s a t hs hrun =>
  ⟨(h s a t hs hrun).1, (h s a t hs hrun).2.trans hrest⟩

theorem before {Q : α → Prop} (hx : Leaves env x ts fun a ts'' => Q a ∧ ts'' = ts')
    (hf : ∀ a, Q a → Uses env (f a) ts' rest) : Uses env (x >>= f) ts rest := by
  intro s b u hs hrun
  obtain ⟨a, t, _, hrun', ht, hq, rfl⟩ := hx s hs
  rw [run_bind_of_ok hrun'] at hrun
  exact hf a hq t b u ht hrun

theorem after (hx : Uses env x ts rest) (hf : ∀ a, Keeps (consumes env) (f a)) :
    Uses env (x >>= f) ts rest := by
  intro s b u hs hrun
  obtain ⟨a, t, hrun', hrun⟩ := ok_of_bind hrun
  obtain ⟨ht, hsuffix⟩ := hx s a t hs hrun'
  obtain ⟨hu, -, hsuffix'⟩ := (hf a).ok hrun ht
  exact ⟨hu, hsuffix'.trans hsuffix⟩

theorem get_bind {f : Asm → Assemble α} (h : ∀ s, Uses env (f s) ts rest) :
    Uses env (get >>= f) ts rest := fun s => h s s

/-- The first step of a loop. -/
theorem loop {step : α → Assemble (α × Bool)} {e : AsmHalt} {n : ℕ} {a : α}
    (h : Uses env (step a) ts rest) (hstep : ∀ a, Keeps (consumes env) (step a)) :
    Uses env (repeatStep e step (n + 1) a) ts rest :=
  h.after fun b => Keeps.ite (fun _ => Keeps.repeatStep hstep n b.1) fun _ => Keeps.pure _

/-- What is read first leaves the tokens as they are, or takes known ones. -/
theorem first {x : Assemble α} (hx : Leaves env x ts fun _ ts'' => ts'' = ts')
    (hf : ∀ a, Uses env (f a) ts' rest) : Uses env (x >>= f) ts rest :=
  before (hx.mono fun _ _ h => ⟨trivial, h⟩) fun a (_ : True) => hf a

/-- What is read first is known. -/
theorem then_ {a : α} (hx : Leaves env x ts fun a' ts'' => a' = a ∧ ts'' = ts')
    (hf : Uses env (f a) ts' rest) : Uses env (x >>= f) ts rest := by
  refine before hx ?_
  rintro _ rfl
  exact hf

end Uses

end Spimulator
