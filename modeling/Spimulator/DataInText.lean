import Spimulator.TokenUse

/-! Data directives on a line of a text section: what their parse adds to the tree, and when the
emission of that leaves the data segments alone. -/
namespace Spimulator
open Frame

/-! The data segments. -/

/-- The data that have been placed at the data location counter, newest first. -/
def Asm.placed (s : Asm) : List (Word × List Byte) :=
  s.events.filterMap fun
    | .stored addr bytes => some (addr, bytes)
    | _ => none

/-- No datum is placed, and the data location counters stay where they are. -/
structure LeavesData (s t : Asm) : Prop where
  placed : t.placed = s.placed
  user : t.nextDataPc = s.nextDataPc
  kernel : t.nextKDataPc = s.nextKDataPc

/-- The directives that put data in memory or reserve it. -/
def Directive.placesData : Directive → Bool
  | .byte | .half | .word | .float | .double | .space | .ascii | .asciiz | .comm | .extern_ => true
  | _ => false

/-! What the parse of a line leaves alone. -/

/-- All that the operands of a directive leave alone while they are parsed; errors only add up. -/
structure Quiet (s t : Asm) : Prop where
  file : t.currentFile = s.currentFile
  nextNode : t.nextNode = s.nextNode
  textDir : t.textDir = s.textDir
  dataDir : t.dataDir = s.dataDir
  location : t.toLocation = s.toLocation
  machine : { t.machine with labels := s.machine.labels } = s.machine
  placed : t.placed = s.placed
  errors : s.parseErrorsSeen ≤ t.parseErrorsSeen

namespace Quiet

variable {s t u : Asm}

lemma refl (s : Asm) : Quiet s s := ⟨rfl, rfl, rfl, rfl, rfl, rfl, rfl, Nat.le_refl _⟩

lemma trans (h : Quiet s t) (h' : Quiet t u) : Quiet s u where
  file := h'.file.trans h.file
  nextNode := h'.nextNode.trans h.nextNode
  textDir := h'.textDir.trans h.textDir
  dataDir := h'.dataDir.trans h.dataDir
  location := h'.location.trans h.location
  machine := by
    have hm := congrArg (fun m : Machine => { m with labels := s.machine.labels }) h'.machine
    exact hm.trans h.machine
  placed := h'.placed.trans h.placed
  errors := Nat.le_trans h.errors h'.errors

lemma leavesData (h : Quiet s t) : LeavesData s t :=
  ⟨h.placed, congrArg Location.nextDataPc h.location, congrArg Location.nextKDataPc h.location⟩

/-- A node is added after the operands are parsed. -/
lemma append (h : Quiet s t) (n : AstNode) : Quiet (s.appendNode n) (t.appendNode n) where
  file := by simp only [Asm.appendNode, h.file, h.nextNode]
  nextNode := by simp only [Asm.appendNode, h.nextNode]
  textDir := h.textDir
  dataDir := h.dataDir
  location := h.location
  machine := h.machine
  placed := h.placed
  errors := h.errors

end Quiet

def quiet : Rel Asm where
  rel := Quiet
  refl := Quiet.refl
  trans := Quiet.trans

lemma exprRel_quiet : ExprRel quiet where
  scanOne env s := by
    unfold Asm.scanOneToken
    split
    · exact ⟨rfl, rfl, rfl, rfl, rfl, rfl, rfl, Nat.le_refl _⟩
    · exact ⟨rfl, rfl, rfl, rfl, rfl, rfl, rfl, Nat.le_refl _⟩
  drop _ := ⟨rfl, rfl, rfl, rfl, rfl, rfl, rfl, Nat.le_refl _⟩
  force _ := ⟨rfl, rfl, rfl, rfl, rfl, rfl, rfl, Nat.le_refl _⟩
  unresolved _ _ := ⟨rfl, rfl, rfl, rfl, rfl, rfl, rfl, Nat.le_refl _⟩
  newLabel _ _ _ := ⟨rfl, rfl, rfl, rfl, rfl, rfl, rfl, Nat.le_refl _⟩
  parseError _ _ := ⟨rfl, rfl, rfl, rfl, rfl, rfl, rfl, Nat.le_succ _⟩

/-- A line that adds nothing to the tree, with a message. -/
structure Refused (s t : Asm) : Prop where
  quiet : Quiet s t
  error : s.parseErrorsSeen < t.parseErrorsSeen

lemma Quiet.refused {s t u : Asm} {msg : String} {a : Unit} (h : Quiet s t)
    (hr : (parseErrorAt msg).run t = .ok a u) : Refused s u := by
  cases hr
  exact ⟨h.trans (exprRel_quiet.parseError t msg), Nat.lt_succ_of_le h.errors⟩

lemma Refused.after {s t u : Asm} (h : Refused s t) (h' : Quiet t u) : Refused s u :=
  ⟨h.quiet.trans h', Nat.lt_of_lt_of_le h.error h'.errors⟩

/-! Lists of floating-point literals. -/

/-- Is the token a literal (true), the end of the line (false), or something else. -/
def Token.fpKind : Token → Option Bool
  | .fp _ => some true
  | .nl | .eof => some false
  | _ => none

def Lexeme.fpKind : Lexeme → Option Bool
  | .fp _ => some true
  | .nl => some false
  | _ => none

/-- What is left of the input. -/
def Asm.fpKinds (s : Asm) : List (Option Bool) :=
  s.tokBuf.map Token.fpKind ++ s.input.map Lexeme.fpKind

lemma Token.fpKind_eq_true (t : Token) : t.fpKind = some true ↔ t.asFp ≠ none := by
  cases t with
  | fp v => exact iff_of_true rfl (Option.some_ne_none v)
  | _ => exact iff_of_false (fun h => by cases h) fun h => h rfl

/-- The line ends here; so does the file at its end. -/
def endsHere (ks : List (Option Bool)) : Bool := ks.headD (some false) = some false

/-- One literal or more, up to the end of the line. -/
def allFp : List (Option Bool) → Bool
  | [] => false
  | k :: ks => k = some true ∧ (endsHere ks ∨ allFp ks)

lemma scanLexeme_fpKind (env : AsmEnv) (s : Asm) (x : Lexeme) :
    (s.scanLexeme env x).fpKind = x.fpKind := by
  have hname (name : String) : (s.scanName name).fpKind = none := by
    unfold Asm.scanName
    split
    · split <;> rfl
    · rfl
  cases x with
  | ident name keyword =>
    simp only [Asm.scanLexeme, Asm.scanIdentifier]
    split
    · split
      · rfl
      · exact hname name
    · exact hname name
  | dollar name => exact hname name
  | _ => rfl

/-! An end of the file that is scanned early makes no difference. -/

lemma endsHere_append_end (ks : List (Option Bool)) : endsHere (ks ++ [some false]) = endsHere ks := by
  cases ks with
  | nil => rfl
  | cons k ks => rfl

lemma allFp_append_end (ks : List (Option Bool)) : allFp (ks ++ [some false]) = allFp ks := by
  induction ks with
  | nil => rfl
  | cons k ks ih => simp only [List.cons_append, allFp, endsHere_append_end, ih]

/-- What is left of the input, but for the end of the file, does not change as tokens are scanned. -/
lemma fpKinds_ensureFilled {α : Type} {f : List (Option Bool) → α}
    (hf : ∀ ks, f (ks ++ [some false]) = f ks) (env : AsmEnv) (n : ℕ) (s : Asm) :
    f (s.ensureFilled env n).fpKinds = f s.fpKinds := by
  induction n with
  | zero => rfl
  | succ n ih =>
    rw [← ih]
    change f (if (s.ensureFilled env n).tokBuf.length ≤ n then _ else _ : Asm).fpKinds = _
    split
    · unfold Asm.scanOneToken
      split
      · rename_i hi
        simp only [Asm.fpKinds, hi, List.map_append, List.map_nil, List.append_nil]
        exact hf _
      · rename_i x rest hi
        simp [Asm.fpKinds, hi, scanLexeme_fpKind]
    · rfl

lemma fpKinds_advanced (env : AsmEnv) (s : Asm) :
    (s.ensureFilled env 1).fpKinds = (s.nextToken env).fpKind :: (s.advanced env).fpKinds := by
  obtain ⟨rest, hb⟩ := s.tokBuf_ensureFilled_one env
  simp [Asm.fpKinds, Asm.advanced, hb]

lemma endsHere_fpKinds (env : AsmEnv) (s : Asm) : endsHere s.fpKinds = (s.nextToken env).ends := by
  rw [← fpKinds_ensureFilled endsHere_append_end env 1, fpKinds_advanced]
  cases s.nextToken env <;> rfl

lemma allFp_fpKinds (env : AsmEnv) (s : Asm) :
    allFp s.fpKinds = decide ((s.nextToken env).fpKind = some true ∧
      (((s.advanced env).nextToken env).ends ∨ allFp (s.advanced env).fpKinds)) := by
  rw [← fpKinds_ensureFilled allFp_append_end env 1, fpKinds_advanced]
  simp only [allFp, endsHere_fpKinds env]

lemma fpListStep_run (env : AsmEnv) (xs : Option (List (BitVec 64))) (s : Asm) :
    ((s.nextToken env).fpKind ≠ some true ∧
      ∃ t, (fpListStep env xs).run s = .ok (none, false) t ∧ Refused s t) ∨
    ((s.nextToken env).fpKind = some true ∧ ∃ v t,
      (fpListStep env xs).run s = .ok (xs.map (· ++ [v]), ¬ ((s.advanced env).nextToken env).ends) t ∧
      Quiet s t ∧ allFp t.fpKinds = allFp (s.advanced env).fpKinds) := by
  cases hf : (s.nextToken env).asFp with
  | none =>
    left
    have htake : (takeToken env Token.asFp).run s = .ok none (s.ensureFilled env 1) := by
      rw [takeToken_run, hf]
    refine ⟨?_, _, run_bind_of_ok htake, ?_⟩
    · rw [ne_eq, Token.fpKind_eq_true, hf, not_not]
    · exact Quiet.refused (exprRel_quiet.ensureFilled env 1 s) rfl
  | some v =>
    right
    have htake : (takeToken env Token.asFp).run s = .ok (some v) (s.advanced env) := by
      rw [takeToken_run, hf]
    refine ⟨?_, v, (s.advanced env).ensureFilled env 1, run_bind_of_ok htake, ?_, ?_⟩
    · rw [Token.fpKind_eq_true, hf]
      exact Option.some_ne_none v
    · refine Quiet.trans ((exprRel_quiet.takeToken env _).ok htake) ?_
      exact exprRel_quiet.ensureFilled env 1 _
    · exact fpKinds_ensureFilled allFp_append_end env 1 _

/-- A list of literals is read as a whole, or given up with a message. -/
lemma fpList_run {env : AsmEnv} (n : ℕ) (xs : Option (List (BitVec 64))) (s : Asm)
    {o : Option (List (BitVec 64))} {t : Asm}
    (h : (repeatStep .endless (fpListStep env) n xs).run s = .ok o t) :
    (allFp s.fpKinds = true ∧ Quiet s t ∧ ∃ vs, vs ≠ [] ∧ o = xs.map (· ++ vs)) ∨
    (allFp s.fpKinds = false ∧ Refused s t ∧ o = none) := by
  induction n generalizing xs s with
  | zero => cases h
  | succ n ih =>
    obtain ⟨⟨ys, more⟩, u, hu, h⟩ := ok_of_bind h
    rcases fpListStep_run env xs s with ⟨hk, w, hw, href⟩ | ⟨hk, v, w, hw, hq, hall⟩
    · cases hu.symm.trans hw
      cases h
      exact Or.inr ⟨by rw [allFp_fpKinds env]; simp [hk], href, rfl⟩
    · cases hu.symm.trans hw
      cases hends : ((s.advanced env).nextToken env).ends with
      | true =>
        simp only [hends, not_true, decide_false] at h
        cases h
        exact Or.inl ⟨by rw [allFp_fpKinds env]; simp [hk, hends], hq, [v], List.cons_ne_nil _ _, rfl⟩
      | false =>
        simp only [hends, Bool.false_eq_true, not_false_iff, decide_true] at h
        have hs : allFp s.fpKinds = allFp u.fpKinds := by
          rw [hall, allFp_fpKinds env s]
          simp [hk, hends]
        rw [hs]
        rcases ih _ _ h with ⟨ha, hq', vs, -, rfl⟩ | ⟨ha, href, rfl⟩
        · refine Or.inl ⟨ha, hq.trans hq', v :: vs, List.cons_ne_nil _ _, ?_⟩
          cases xs with
          | none => rfl
          | some xs => simp
        · exact Or.inr ⟨ha, ⟨hq.trans href.quiet, Nat.lt_of_le_of_lt hq.errors href.error⟩, rfl⟩

/-! Strings. -/

lemma stringList_run {env : AsmEnv} (n : ℕ) {s t : Asm} (hs : s.textDir = true)
    (h : (repeatStep .endless (fun _ => stringListStep env) n ()).run s = .ok () t) :
    Refused s t := by
  induction n generalizing s with
  | zero => cases h
  | succ n ih =>
    have hstep {b : Unit} {more : Bool} {u : Asm}
        (hu : (stringListStep env).run s = .ok (b, more) u) : Refused s u := by
      obtain ⟨o, v, hv, hu⟩ := ok_of_bind hu
      have hq : Quiet s v := (exprRel_quiet.takeToken env _).ok hv
      cases o with
      | none =>
        obtain ⟨_, w, hw, ⟨⟩⟩ := ok_of_bind hu
        exact hq.refused hw
      | some bytes =>
        obtain ⟨_, _, ⟨⟩, hu⟩ := ok_of_bind hu
        obtain ⟨_, w, hw, hu⟩ := ok_of_bind hu
        obtain ⟨_, x, hx, ⟨⟩⟩ := ok_of_bind hu
        rw [if_pos (hq.textDir.trans hs)] at hw
        exact (hq.refused hw).after ((exprRel_quiet.scannerPeek env).ok hx)
    obtain ⟨⟨⟨⟩, more⟩, u, hu, h⟩ := ok_of_bind h
    have hr := hstep hu
    cases more with
    | false =>
      cases h
      exact hr
    | true => exact hr.after (ih (hr.quiet.textDir.trans hs) h).quiet

/-! What a line adds to the tree. -/

/-- The tree with the node that a line adds, if it adds one. -/
def Asm.adds (s : Asm) (n : Option AstNode) : Asm := n.elim s s.appendNode

/-- The operands of a directive are not what it asks for, or it refuses to put data in text: nothing
is added to the tree. -/
def Directive.refuses (env : AsmEnv) (s : Asm) : Directive → Bool
  | .space | .ascii | .asciiz => true
  | .float | .double => ¬ allFp s.fpKinds
  | .comm | .extern_ => (s.exprToken env).asId = none
  | _ => false

lemma parseDirString_refused {env : AsmEnv} (nul : Bool) {s t : Asm} (hs : s.textDir = true)
    (h : (parseDirString env nul).run s = .ok () t) : Refused s t := by
  obtain ⟨_, u, hu, h⟩ := ok_of_bind h
  obtain ⟨_, _, ⟨⟩, h⟩ := ok_of_bind h
  have hq : Quiet s u := by
    cases hu
    exact ⟨rfl, rfl, rfl, rfl, rfl, rfl, rfl, Nat.le_refl _⟩
  have hr := stringList_run _ (hq.textDir.trans hs) h
  exact ⟨hq.trans hr.quiet, Nat.lt_of_le_of_lt hq.errors hr.error⟩

/-- A line of a text section gives a node, or is refused with a message. -/
def LineGives (refused : Bool) (P : AstNode → Prop) (s t : Asm) (n : Option AstNode) : Prop :=
  Quiet (s.adds n) t ∧
    ((refused = true ∧ n = none ∧ s.parseErrorsSeen < t.parseErrorsSeen) ∨
      (refused = false ∧ ∃ m, n = some m ∧ P m))

section

variable {env : AsmEnv} {s t : Asm}

lemma Refused.gives {P : AstNode → Prop} {refused : Bool} (h : Refused s t) (hr : refused = true) :
    LineGives refused P s t none := ⟨h.quiet, Or.inl ⟨hr, rfl, h.error⟩⟩

lemma Quiet.gives {P : AstNode → Prop} {refused : Bool} {n : AstNode} (h : Quiet s t)
    (hr : refused = false) (hn : P n) : LineGives refused P s (t.appendNode n) (some n) :=
  ⟨h.append n, Or.inr ⟨hr, n, rfl, hn⟩⟩

/-- Outside a data section a data directive does not align. -/
lemma parseAligned_text (hs : s.dataDir = false) (k : ℕ) : s.parseAligned k = s := by
  simp [Asm.parseAligned, Asm.alignDirective, Asm.alignLabelsTo, hs]

lemma exprList_run (n : ℕ) (xs : List ImmExpr) {s t : Asm} {es : List ImmExpr}
    (h : (repeatStep .endless (exprListStep env) n xs).run s = .ok es t) : Quiet s t ∧ es ≠ [] := by
  have hstep (xs : List ImmExpr) : Keeps quiet (exprListStep env xs) :=
    exprRel_quiet.listStep env
      (Keeps.bind (exprRel_quiet.parseExpression env) fun v => exprRel_quiet.dataIntPush v) xs
  refine ⟨(Keeps.repeatStep hstep n xs).ok h, ?_⟩
  induction n generalizing xs s with
  | zero => cases h
  | succ n ih =>
    obtain ⟨⟨ys, more⟩, u, hu, h⟩ := ok_of_bind h
    have hys : ys ≠ [] := by
      obtain ⟨x, v, -, hu⟩ := ok_of_bind hu
      obtain ⟨tok, w, -, ⟨⟩⟩ := ok_of_bind hu
      exact List.append_ne_nil_of_right_ne_nil _ (List.cons_ne_nil _ _)
    cases more with
    | true => exact ih ys h
    | false =>
      cases h
      exact hys

lemma parseDirDataInt_gives (kind : DataIntKind) (hs : s.dataDir = false)
    (h : (parseDirDataInt env kind).run s = .ok () t) :
    ∃ n, LineGives false (fun m => ∃ es, es ≠ [] ∧ m = .dataInt kind es) s t n := by
  have hal (c : Prop) [Decidable c] (k : ℕ) : (onlyIf c (parseAligned k)).run s = .ok () s := by
    by_cases hc : c
    · rw [onlyIf_pos hc]
      change EStateM.Result.ok () (s.parseAligned k) = _
      rw [parseAligned_text hs]
    · rw [onlyIf_neg hc]
      rfl
  rw [parseDirDataInt, run_bind_of_ok (hal _ 1), run_bind_of_ok (hal _ 2)] at h
  obtain ⟨_, _, ⟨⟩, h⟩ := ok_of_bind h
  obtain ⟨es, u, hu, ⟨⟩⟩ := ok_of_bind h
  obtain ⟨hq, hne⟩ := exprList_run _ _ hu
  exact ⟨_, hq.gives rfl ⟨es, hne, rfl⟩⟩

lemma parseDirDataFp_gives (kind : DataFpKind) (hs : s.dataDir = false)
    (h : (parseDirDataFp env kind).run s = .ok () t) :
    ∃ n, LineGives (¬ allFp s.fpKinds) (fun m => ∃ vs, vs ≠ [] ∧ m = .dataFp kind vs) s t n := by
  have hal : (parseAligned (if kind = .float then 2 else 3)).run s = .ok () s := by
    change EStateM.Result.ok () (s.parseAligned _) = _
    rw [parseAligned_text hs]
  rw [parseDirDataFp, run_bind_of_ok hal] at h
  obtain ⟨_, _, ⟨⟩, h⟩ := ok_of_bind h
  obtain ⟨o, u, hu, h⟩ := ok_of_bind h
  rcases fpList_run _ _ _ hu with ⟨ha, hq, vs, hne, rfl⟩ | ⟨ha, href, rfl⟩
  · cases h
    exact ⟨_, hq.gives (by simp [ha]) ⟨vs, hne, rfl⟩⟩
  · cases h
    exact ⟨none, href.gives (by simp [ha])⟩

lemma parseDirNamedSize_gives (node : String → Word → AstNode)
    (h : (parseDirNamedSize env node).run s = .ok () t) :
    ∃ n, LineGives ((s.exprToken env).asId = none) (fun m => ∃ name size, m = node name size)
      s t n := by
  obtain ⟨_, _, ⟨⟩, h⟩ := ok_of_bind h
  obtain ⟨o, u, hu, h⟩ := ok_of_bind h
  have hq : Quiet s u := (exprRel_quiet.force s).trans ((exprRel_quiet.takeToken env _).ok hu)
  cases hid : (s.exprToken env).asId with
  | none =>
    cases hu.symm.trans (takeToken_run_none hid)
    exact ⟨none, (hq.refused h).gives (by simp)⟩
  | some name =>
    cases hu.symm.trans (takeToken_run_some hid)
    obtain ⟨size, v, hv, ⟨⟩⟩ := ok_of_bind h
    exact ⟨_, (hq.trans ((exprRel_quiet.parseExpression env).ok hv)).gives (by simp) ⟨name, size, rfl⟩⟩

end

/-! The emission of what a line adds. -/

/-- The nodes of data directives that neither place a datum nor move the location counter: an
.extern of size 0, and a .comm whose alignment and size come to nothing. -/
def AstNode.takesNoData (u : Asm) : AstNode → Prop
  | .dirExtern _ size => size = 0
  | .dirComm _ size => alignUp 2 u.currentDataPc + size = u.currentDataPc
  | _ => False

/-- Data that are placed stay noted. -/
def placedGrows : Rel Asm where
  rel s t := s.placed.length ≤ t.placed.length
  refl _ := Nat.le_refl _
  trans h h' := Nat.le_trans h h'

theorem storeRel_placedGrows : StoreRel placedGrows where
  machine _ _ _ := Nat.le_refl _
  setInst _ _ _ _ := Nat.le_refl _
  log s e _ := by
    cases e with
    | stored a bs => exact Nat.le_succ _
    | _ => exact Nat.le_refl _
  use _ _ _ := Nat.le_refl _
  addUse _ _ _ _ _ := Nat.le_refl _
  dataPc s v := by
    unfold Asm.setDataPc
    split <;> exact Nat.le_refl _
  textPc s v := by
    unfold Asm.setTextPc
    split <;> exact Nat.le_refl _

/-- Every run of `x` that returns has placed a datum. -/
def PlacesDatum (x : Assemble Unit) : Prop :=
  ∀ s t, x.run s = .ok () t → s.placed.length < t.placed.length

namespace PlacesDatum

lemma placing (bytes : List Byte) {store : Assemble Unit} (h : Keeps placedGrows store) :
    PlacesDatum (Data.placing bytes store) := by
  intro s t ht
  obtain ⟨_, _, ⟨⟩, ht⟩ := ok_of_bind ht
  obtain ⟨_, _, ⟨⟩, ht⟩ := ok_of_bind ht
  exact h.ok ht

/-- A datum placed for each member of a list, if there is one. -/
lemma list {α : Type} {x : α → Assemble Unit} {xs : List α → Assemble Unit}
    (hx : ∀ a, PlacesDatum (x a)) (hnil : xs [] = pure ())
    (hcons : ∀ a as, xs (a :: as) = x a >>= fun _ => xs as) {as : List α} (h : as ≠ []) :
    PlacesDatum (xs as) := by
  have hall (as : List α) (s t : Asm) (ht : (xs as).run s = .ok () t) :
      s.placed.length + as.length ≤ t.placed.length := by
    induction as generalizing s with
    | nil =>
      rw [hnil] at ht
      cases ht
      exact Nat.le_refl _
    | cons a as ih =>
      rw [hcons] at ht
      obtain ⟨⟨⟩, u, hu, ht⟩ := ok_of_bind ht
      have h₁ := hx a s u hu
      have h₂ := ih u ht
      simp only [List.length_cons]
      omega
  intro s t ht
  have hlen := List.length_pos_iff.mpr h
  have hle := hall as s t ht
  omega

lemma last {α : Type} {x : Assemble α} {f : α → Assemble Unit} (hx : Keeps placedGrows x)
    (hf : ∀ a, PlacesDatum (f a)) : PlacesDatum (x >>= f) := by
  intro s u h
  obtain ⟨a, t, ht, hu⟩ := ok_of_bind h
  exact Nat.lt_of_le_of_lt (hx.ok ht) (hf a t u hu)

lemma ne {x : Assemble Unit} (hx : PlacesDatum x) {s t : Asm} (h : x.run s = .ok () t) :
    ¬ LeavesData s t :=
  fun hl => Nat.ne_of_lt (hx s t h) (congrArg List.length hl.placed.symm)

end PlacesDatum

lemma storeDataInt_places (tbl : AOpcodeTbl) (kind : DataIntKind) (v : Word) :
    PlacesDatum (storeDataInt tbl kind v) := by
  have hd := storeRel_placedGrows.toDataRel
  apply PlacesDatum.placing
  cases kind with
  | byte => exact hd.storeByte tbl _ v
  | half => exact hd.storeHalf tbl _ v
  | word => exact hd.storeWord tbl _ v

lemma emitDataExpr_places (tbl : AOpcodeTbl) (kind : DataIntKind) (e : ImmExpr) :
    PlacesDatum (emitDataExpr tbl kind e) := by
  have hvalue : PlacesDatum (do
      let v ← evalImmExpr e
      storeDataInt tbl kind v) :=
    .last (storeRel_placedGrows.toDataRel.evalImmExpr e) fun v => storeDataInt_places tbl kind v
  refine .last Keeps.get fun s => ?_
  cases e.symbol with
  | none => exact hvalue
  | some l =>
    dsimp only
    split
    · exact hvalue
    · exact .last (Keeps.modify fun _ => Nat.le_refl _) fun _ => storeDataInt_places tbl kind _

lemma emitDataIntNode_places (tbl : AOpcodeTbl) (kind : DataIntKind) {es : List ImmExpr}
    (h : es ≠ []) : PlacesDatum (emitDataIntNode tbl kind es) :=
  .list (emitDataExpr_places tbl kind) rfl (fun _ _ => rfl) h

lemma emitDataFpNode_places (env : Env) (kind : DataFpKind) {vs : List (BitVec 64)}
    (h : vs ≠ []) : PlacesDatum (emitDataFpNode env kind vs) := by
  have hd := storeRel_placedGrows.toDataRel
  refine .list (fun v => ?_) rfl (fun _ _ => rfl) h
  cases kind with
  | float => exact .placing _ (hd.storeFloat _ _ _)
  | double => exact .placing _ (hd.storeDouble _ _ _)

/-! Reserved space. -/

/-- The data location counters, and what has been placed. -/
def dataPlace : Rel Asm := Rel.same fun s => (s.toLocation, s.placed)

lemma symbolRel_dataPlace : SymbolRel Set.univ Set.univ dataPlace where
  labelDef _ _ _ _ := rfl
  machine _ _ _ := rfl
  setInst _ _ _ _ := rfl
  report _ _ _ := rfl
  use _ _ _ := rfl
  newLabel _ _ _ := rfl
  clearUses _ _ := rfl
  define _ _ _ _ _ := rfl
  linkLocal _ _ _ _ := rfl
  declareGlobal _ _ _ := rfl
  constant _ _ _ := rfl
  pend _ _ _ := rfl
  unpend _ _ _ _ _ := rfl
  parseError s r hr := by
    cases r <;> rfl

/-- The location with the data location counter in use at an address. -/
def Location.atData (l : Location) (a : Word) : Location :=
  if l.dataInKernel then { l with nextKDataPc := a } else { l with nextDataPc := a }

def Location.dataPc (l : Location) : Word :=
  if l.dataInKernel then l.nextKDataPc else l.nextDataPc

lemma dataPlace_iff {s t : Asm} :
    dataPlace.rel s t ↔ t.toLocation = s.toLocation ∧ t.placed = s.placed :=
  Prod.ext_iff

lemma toLocation_setDataPc (s : Asm) (a : Word) :
    (s.setDataPc a).toLocation = s.toLocation.atData a := by
  unfold Asm.setDataPc Location.atData
  split <;> rfl

lemma placed_setDataPc (s : Asm) (a : Word) : (s.setDataPc a).placed = s.placed := by
  unfold Asm.setDataPc
  split <;> rfl

/-- Only the data location counter moves, by `size` from an address. -/
def Reserves (a size : Word) (s t : Asm) : Prop :=
  t.toLocation = s.toLocation.atData (a + size) ∧ t.placed = s.placed

lemma atData_atData (l : Location) (a b : Word) : (l.atData a).atData b = l.atData b := by
  unfold Location.atData
  split <;> simp_all

lemma leavesData_iff {a size : Word} {s t : Asm} (h : Reserves a size s t) :
    LeavesData s t ↔ a + size = s.currentDataPc := by
  obtain ⟨hloc, hp⟩ := h
  have hu : t.nextDataPc = (s.toLocation.atData (a + size)).nextDataPc :=
    congrArg Location.nextDataPc hloc
  have hk : t.nextKDataPc = (s.toLocation.atData (a + size)).nextKDataPc :=
    congrArg Location.nextKDataPc hloc
  unfold Location.atData at hu hk
  unfold Asm.currentDataPc
  cases hd : s.dataInKernel with
  | true =>
    simp only [hd, if_true] at hu hk ⊢
    exact ⟨fun hl => hk.symm.trans hl.kernel, fun ha => ⟨hp, hu, hk.trans ha⟩⟩
  | false =>
    simp only [hd, Bool.false_eq_true, if_false] at hu hk ⊢
    exact ⟨fun hl => hu.symm.trans hl.user, fun ha => ⟨hp, hu.trans ha, hk⟩⟩

lemma incrementDataPc_run {delta : Word} {s t : Asm}
    (h : (incrementDataPc delta).run s = .ok () t) : Reserves s.currentDataPc delta s t := by
  obtain ⟨_, u, hu, h⟩ := ok_of_bind h
  have hexpand : Keeps dataPlace (do
      let s ← get
      if s.dataInKernel then
        onlyIf (s.machine.kDataTop ≤ s.nextKDataPc)
          (expandKData (expansion s.nextKDataPc s.machine.kDataTop))
      else
        onlyIf (s.machine.dataTop ≤ s.nextDataPc)
          (onMachine (expandData (expansion s.nextDataPc s.machine.dataTop))) : Assemble Unit) := by
    refine Keeps.get_bind fun s => KeepsFrom.ite (fun _ => Keeps.onlyIf ?_ s) fun _ => ?_
    · refine Keeps.get_bind fun s => KeepsFrom.ite (fun _ => KeepsFrom.throw _) fun _ => ?_
      exact KeepsFrom.ite (fun _ => KeepsFrom.throw _) fun _ => KeepsFrom.set rfl
    · exact Keeps.onlyIf (symbolRel_dataPlace.toResolveRel.onMachine
        (printRel_keepsRecords.toServiceRel.expandData _)) s
  obtain ⟨hloc, hp⟩ := dataPlace_iff.mp (hexpand.ok h)
  cases hu
  exact ⟨hloc.trans (toLocation_setDataPc _ _), hp.trans (placed_setDataPc _ _)⟩

lemma Reserves.of_place {size : Word} {s t u : Asm} (h : Reserves t.currentDataPc size t u)
    (hst : dataPlace.rel s t) : Reserves s.currentDataPc size s u := by
  obtain ⟨hloc, hp⟩ := dataPlace_iff.mp hst
  obtain ⟨hloc', hp'⟩ := h
  have hpc : t.currentDataPc = s.currentDataPc := congrArg Location.dataPc hloc
  rw [hloc, hpc] at hloc'
  exact ⟨hloc', hp'.trans hp⟩

lemma emitReserve_run {env : Env} {name : String} {size : Word} {s t : Asm}
    (h : (emitReserve env name size).run s = .ok () t) : Reserves s.currentDataPc size s t := by
  obtain ⟨l, u, hu, h⟩ := ok_of_bind h
  obtain ⟨_, _, ⟨⟩, h⟩ := ok_of_bind h
  obtain ⟨_, v, hv, h⟩ := ok_of_bind h
  have hrecord : Keeps dataPlace (do
      let _ ← recordLabel env name u.currentDataPc true
      pure () : Assemble Unit) :=
    Keeps.bind (symbolRel_dataPlace.recordLabel env trivial _ _) fun _ => Keeps.pure ()
  have hsv : dataPlace.rel s v :=
    dataPlace.trans ((symbolRel_dataPlace.lookupLabel name).ok hu) ((Keeps.onlyIf hrecord).ok hv)
  exact (incrementDataPc_run h).of_place hsv

lemma currentDataPc_setDataPc (s : Asm) (a : Word) : (s.setDataPc a).currentDataPc = a := by
  unfold Asm.setDataPc Asm.currentDataPc
  split <;> simp_all

lemma Reserves.of_aligned {size : Word} {t : Asm} (u : Asm)
    (h : Reserves (u.alignData 2).currentDataPc size (u.alignData 2) t) :
    Reserves (alignUp 2 u.currentDataPc) size u t := by
  have hpc : (u.alignData 2).currentDataPc = alignUp 2 u.currentDataPc :=
    currentDataPc_setDataPc u _
  have hloc : (u.alignData 2).toLocation = u.toLocation.atData (alignUp 2 u.currentDataPc) :=
    toLocation_setDataPc u _
  obtain ⟨hloc', hp⟩ := h
  rw [hpc, hloc, atData_atData] at hloc'
  exact ⟨hloc', hp.trans (placed_setDataPc u _)⟩

lemma placedGrows_alignDirective (s : Asm) (k : Word) : placedGrows.rel s (s.alignDirective k) := by
  have hmove (s : Asm) (a : Word) : placedGrows.rel s (s.fixCurrentLabelAddress a) := Nat.le_refl _
  exact rel_alignDirective hmove
    (rel_alignData hmove (fun _ => Nat.le_refl _) storeRel_placedGrows.dataPc) s k

/-- The nodes of the data directives that are not refused in text as such. -/
def AstNode.isData (n : AstNode) : Prop :=
  (∃ kind es, es ≠ [] ∧ n = .dataInt kind es) ∨ (∃ kind vs, vs ≠ [] ∧ n = .dataFp kind vs) ∨
    (∃ name size, n = .dirComm name size) ∨ ∃ name size, n = .dirExtern name size

/-- The emission of a data directive's node leaves the data segments alone just when it takes no
data. -/
theorem emitOne_leavesData {env : Env} {n : AstNode} {u v : Asm} (hn : n.isData)
    (h : (emitOne env n).run u = .ok () v) : LeavesData u v ↔ n.takesNoData u := by
  have halign (k : Word) : Keeps placedGrows (modify fun s => s.alignDirective k : Assemble Unit) :=
    Keeps.modify fun s => placedGrows_alignDirective s k
  rcases hn with ⟨kind, es, hne, rfl⟩ | ⟨kind, vs, hne, rfl⟩ | ⟨name, size, rfl⟩ | ⟨name, size, rfl⟩
  · have hp : PlacesDatum (emitOne env (.dataInt kind es)) :=
      .last (Keeps.onlyIf (halign 1)) fun _ => .last (Keeps.onlyIf (halign 2)) fun _ =>
        emitDataIntNode_places env.tbl kind hne
    exact iff_of_false (hp.ne h) id
  · have hp : PlacesDatum (emitOne env (.dataFp kind vs)) :=
      .last (halign _) fun _ => emitDataFpNode_places env kind hne
    exact iff_of_false (hp.ne h) id
  · obtain ⟨_, _, ⟨⟩, h⟩ := ok_of_bind h
    exact leavesData_iff ((emitReserve_run h).of_aligned u)
  · obtain ⟨l, w, hw, h⟩ := ok_of_bind h
    have hw : dataPlace.rel u w :=
      (symbolRel_dataPlace.toRecordRel.makeLabelGlobal trivial).ok hw
    rw [leavesData_iff ((emitReserve_run h).of_place hw)]
    simp [AstNode.takesNoData]

/-! Lines. -/

lemma LineGives.mono {refused : Bool} {P Q : AstNode → Prop} {s t : Asm} {n : Option AstNode}
    (h : LineGives refused P s t n) (hPQ : ∀ m, P m → Q m) : LineGives refused Q s t n := by
  obtain ⟨hq, h | ⟨hr, m, hm, hP⟩⟩ := h
  · exact ⟨hq, Or.inl h⟩
  · exact ⟨hq, Or.inr ⟨hr, m, hm, hPQ m hP⟩⟩

theorem parseDirective_gives {env : AsmEnv} {d : Directive} (hd : d.placesData = true) {s t : Asm}
    (ht : s.textDir = true) (hs : s.dataDir = false) (h : (parseDirective env d).run s = .ok () t) :
    ∃ n, LineGives (d.refuses env s) AstNode.isData s t n := by
  cases d with
  | byte | half | word =>
    obtain ⟨n, hn⟩ := parseDirDataInt_gives _ hs h
    exact ⟨n, hn.mono fun m ⟨es, hne, hm⟩ => Or.inl ⟨_, es, hne, hm⟩⟩
  | float | double =>
    obtain ⟨n, hn⟩ := parseDirDataFp_gives _ hs h
    exact ⟨n, hn.mono fun m ⟨vs, hne, hm⟩ => Or.inr (Or.inl ⟨_, vs, hne, hm⟩)⟩
  | comm =>
    obtain ⟨n, hn⟩ := parseDirNamedSize_gives _ h
    exact ⟨n, hn.mono fun m hm => Or.inr (Or.inr (Or.inl hm))⟩
  | extern_ =>
    obtain ⟨n, hn⟩ := parseDirNamedSize_gives _ h
    exact ⟨n, hn.mono fun m hm => Or.inr (Or.inr (Or.inr hm))⟩
  | space =>
    obtain ⟨v, u, hu, h⟩ := ok_of_bind h
    obtain ⟨_, _, ⟨⟩, h⟩ := ok_of_bind h
    have hq : Quiet s u := (exprRel_quiet.parseExpression env).ok hu
    rw [if_pos (hq.textDir.trans ht)] at h
    exact ⟨none, (hq.refused h).gives rfl⟩
  | ascii | asciiz =>
    exact ⟨none, (parseDirString_refused _ ht h).gives rfl⟩
  | _ => cases hd

/-- A data directive on a line of a text section. It is refused with a message, or it adds a node.
Its parse and the emission of its node leave the data segments alone just when it is refused or
takes no data. -/
theorem data_directive_in_text (env : AsmEnv) (d : Directive) (hd : d.placesData = true)
    (s t : Asm) (ht : s.textDir = true) (hs : s.dataDir = false)
    (h : (parseDirective env d).run s = .ok () t) :
    ∃ n : Option AstNode, Quiet (s.adds n) t ∧
      (d.refuses env s = true → n = none ∧ s.parseErrorsSeen < t.parseErrorsSeen) ∧
      ∀ u v, (n.elim (pure ()) (emitOne env.toEnv)).run u = .ok () v →
        (LeavesData s t ∧ LeavesData u v ↔
          d.refuses env s = true ∨ ∃ m, n = some m ∧ m.takesNoData u) := by
  obtain ⟨n, hq, hn⟩ := parseDirective_gives hd ht hs h
  have hst : LeavesData s t := by
    have hl := hq.leavesData
    cases n with
    | none => exact hl
    | some m => exact ⟨hl.placed, hl.user, hl.kernel⟩
  refine ⟨n, hq, ?_, ?_⟩
  · intro hr
    rcases hn with ⟨-, hn, herr⟩ | ⟨hr', -⟩
    · exact ⟨hn, herr⟩
    · rw [hr'] at hr
      cases hr
  · intro u v hv
    rcases hn with ⟨hr, rfl, -⟩ | ⟨hr, m, rfl, hm⟩
    · cases hv
      exact iff_of_true ⟨hst, rfl, rfl, rfl⟩ (Or.inl hr)
    · have hl := emitOne_leavesData hm hv
      simp [hr, hst, hl]

/-- The operand of the line `.space 8`. -/
def spaceLine : Asm := { input := [.int 8, .nl] }

theorem data_directive_in_text_space :
    ∃ t n, (parseDirective { Env.quiet with } .space).run spaceLine = .ok () t ∧
      Quiet (spaceLine.adds n) t := by
  have h : returnsTo (parseDirective { Env.quiet with } .space) spaceLine (fun _ => true) = true := by
    decide
  obtain ⟨t, ht, -⟩ := of_returnsTo h
  obtain ⟨n, hq, -⟩ := data_directive_in_text { Env.quiet with } .space rfl spaceLine t rfl rfl ht
  exact ⟨t, n, ht, hq⟩

/-- A word under .text is accepted and goes to the data segment. -/
theorem word_in_text_stores :
    ∃ t, (parseFile { Env.quiet with }).run
        (parserInit [.ident ".word" (some (.dir .word)), .int 5, .nl] (.fresh { Env.quiet with })) =
          .ok () t ∧
      t.textDir = true ∧ t.parseErrorsSeen = 0 ∧ t.nextDataPc = dataBot + 0x10004 ∧
      t.placed = [(dataBot + 0x10000, [5, 0, 0, 0])] := by
  have h : returnsTo (parseFile { Env.quiet with })
      (parserInit [.ident ".word" (some (.dir .word)), .int 5, .nl] (.fresh { Env.quiet with }))
      (fun t => t.textDir = true ∧ t.parseErrorsSeen = 0 ∧ t.nextDataPc = dataBot + 0x10004 ∧
        t.placed = [(dataBot + 0x10000, [5, 0, 0, 0])]) = true := by
    decide +kernel
  obtain ⟨t, ht, hp⟩ := of_returnsTo h
  exact ⟨t, ht, of_decide_eq_true hp⟩

end Spimulator
