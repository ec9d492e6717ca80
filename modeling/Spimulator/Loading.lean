import Spimulator.Library.CommandRun
import Spimulator.Load
import Spimulator.Parsing

/-! What the end of a file may change, and the labels of the line between the calls of a
session. -/
namespace Spimulator
open Frame

/-- The relation allows what happens at the end of a file: entries with the names of local labels
leave the table, with messages, and the flags of data.c are reset. -/
structure EndRel (R : Rel Asm) : Prop where
  erase : ∀ (s : Asm) k l, k ∈ s.localLabels → s.labelIsDefined (s.label k).name = some l →
    R.rel s { s with table := s.table.erase l }
  report : ∀ (s : Asm) r, r.isNote = true → R.rel s (s.log (.report r))
  flush : ∀ s : Asm, R.rel s { s with localLabels := [] }
  reset : ∀ s : Asm, R.rel s s.endOfAssemblyFile

/-- A local label takes the entry with its name out of the table. -/
lemma flushLabel_run {b : Bool} {k : LabelRef} {s t : Asm}
    (h : (flushLabel b k).run s = .ok () t) : t.localLabels = s.localLabels ∧ t.label = s.label ∧
      t.table = (s.labelIsDefined (s.label k).name).elim s.table s.table.erase := by
  obtain ⟨_, _, h₀, h⟩ := ok_of_bind h
  cases h₀
  cases hl : s.labelIsDefined (s.label k).name with
  | none =>
    rw [hl] at h
    cases h
    exact ⟨rfl, rfl, rfl⟩
  | some l =>
    rw [hl] at h
    obtain ⟨_, s₁, h₁, h⟩ := ok_of_bind h
    cases h₁
    by_cases hw : b = true ∧ (s.label l).addr = 0 ∧ (s.label l).constFlag = false
    · rw [onlyIf_pos hw] at h
      cases h
      exact ⟨rfl, rfl, rfl⟩
    · rw [onlyIf_neg hw] at h
      cases h
      exact ⟨rfl, rfl, rfl⟩

namespace EndRel

variable {R : Rel Asm} (hR : EndRel R)

include hR

lemma flushLabel (b : Bool) {k : LabelRef} {s : Asm} (hk : k ∈ s.localLabels) :
    KeepsFrom R (flushLabel b k) s := by
  refine KeepsFrom.get_bind ?_
  cases hl : s.labelIsDefined (s.label k).name with
  | none => exact KeepsFrom.pure _
  | some entry =>
    refine KeepsFrom.bind (KeepsFrom.set (hR.erase s k entry hk hl)) fun _ t _ => ?_
    exact Keeps.onlyIf (Keeps.modify fun u => hR.report u _ rfl) t

lemma flushLabels (b : Bool) (ls : List LabelRef) (s : Asm) (hls : ∀ l ∈ ls, l ∈ s.localLabels) :
    KeepsFrom R (flushLabels b ls) s := by
  induction ls generalizing s with
  | nil => exact KeepsFrom.pure _
  | cons l ls ih =>
    refine KeepsFrom.bind (hR.flushLabel b (hls l List.mem_cons_self)) fun _ t ht => ?_
    refine ih t fun k hk => ?_
    rw [(flushLabel_run ht).1]
    exact hls k (List.mem_cons_of_mem _ hk)

lemma flushLocalLabels (b : Bool) : Keeps R (flushLocalLabels b) := by
  refine Keeps.get_bind fun s => KeepsFrom.ite (fun _ => ?_) fun _ => KeepsFrom.throw _
  refine KeepsFrom.bind (hR.flushLabels b _ s fun _ => id) fun _ t _ => ?_
  exact KeepsFrom.modify (hR.flush t)

theorem endFile : Keeps R endFile :=
  Keeps.get_bind fun s => KeepsFrom.bind (hR.flushLocalLabels _ s)
    fun _ t _ => KeepsFrom.modify (hR.reset t)

end EndRel

/-! Between the calls of a session no label is pending. -/

lemma clearLabelList_pending {env : Env} : ∀ (ls : List LabelRef) {s t : Asm},
    s.thisLineLabels = ls → (clearLabelList env ls).run s = .ok () t → t.thisLineLabels = [] := by
  intro ls
  induction ls with
  | nil =>
    rintro s t hs ⟨⟩
    exact hs
  | cons l ls ih =>
    intro s t hs h
    obtain ⟨_, s₁, h₁, h⟩ := ok_of_bind h
    obtain ⟨_, s₂, ⟨⟩, h⟩ := ok_of_bind h
    exact ih rfl h

lemma clearLabels_pending {env : Env} {s t : Asm} (h : (clearLabels env).run s = .ok () t) :
    t.thisLineLabels = [] :=
  clearLabelList_pending _ rfl h

/-- parse_file returns when the tree is built, or emitted. -/
lemma parseFile_run {env : AsmEnv} {s u : Asm} (h : (parseFile env).run s = .ok () u) :
    ∃ t, (parseTree env).run s = .ok () t ∧
      ((env.printAstOnly = true ∨ t.currentFile = none) ∧ u = t ∨
        ∃ nodes, env.printAstOnly = false ∧ t.currentFile = some nodes ∧
          (emitAst env.toEnv nodes).run t = .ok () u) := by
  obtain ⟨_, t, ht, h⟩ := ok_of_bind h
  refine ⟨t, ht, ?_⟩
  obtain ⟨_, _, ⟨⟩, h⟩ := ok_of_bind h
  cases hf : t.currentFile with
  | none =>
    rw [hf] at h
    cases h
    exact Or.inl ⟨Or.inr rfl, rfl⟩
  | some nodes =>
    rw [hf] at h
    change (onlyIf (env.printAstOnly = false) (emitAst env.toEnv nodes)).run t = .ok () u at h
    by_cases he : env.printAstOnly = false
    · rw [onlyIf_pos he] at h
      exact Or.inr ⟨nodes, he, rfl, h⟩
    · rw [onlyIf_neg he] at h
      cases h
      exact Or.inl ⟨Or.inl (by simpa using he), rfl⟩

/-- When the tree is only printed, parse_file does nothing but parse. -/
lemma parseFile_printed {env : AsmEnv} (he : env.printAstOnly = true) (s : Asm) :
    (parseFile env).run s = (parseTree env).run s := by
  have hne : ¬ env.printAstOnly = false := by simp [he]
  rw [parseFile, EStateM.run_bind]
  cases (parseTree env).run s with
  | error e t => rfl
  | ok a t =>
    dsimp only
    rw [EStateM.run_bind, EStateM.run_get]
    dsimp only
    cases t.currentFile with
    | none => rfl
    | some nodes =>
      dsimp only
      rw [onlyIf_neg hne]
      rfl

lemma parseTree_pending {env : AsmEnv} {s t : Asm} (h : (parseTree env).run s = .ok () t) :
    t.thisLineLabels = [] := by
  obtain ⟨_, _, ⟨⟩, h⟩ := ok_of_bind h
  obtain ⟨_, _, _, h⟩ := ok_of_bind h
  exact clearLabels_pending h

lemma emitAst_pending {env : Env} {nodes : List (NodeRef × AstNode)} {s t : Asm}
    (h : (emitAst env nodes).run s = .ok () t) : t.thisLineLabels = [] := by
  obtain ⟨_, _, _, h⟩ := ok_of_bind h
  exact clearLabels_pending h

lemma parseFile_pending {env : AsmEnv} {s u : Asm} (h : (parseFile env).run s = .ok () u) :
    u.thisLineLabels = [] := by
  obtain ⟨t, ht, ⟨-, rfl⟩ | ⟨nodes, -, -, h⟩⟩ := parseFile_run h
  · exact parseTree_pending ht
  · exact emitAst_pending h

theorem endRel_thisLineLabels : EndRel (Rel.same (fun s : Asm => s.thisLineLabels)) where
  erase _ _ _ _ _ := rfl
  report _ _ _ := rfl
  flush _ := rfl
  reset _ := rfl

/-- A session in which no label is pending at first. -/
theorem session_pending {calls : List SessionCall} {s t : Asm} (hs : s.thisLineLabels = [])
    (h : CommandRun SessionCall.run (fun _ _ => True) s calls t) : t.thisLineLabels = [] := by
  refine h.invariant (P := fun s => s.thisLineLabels = []) ?_ hs
  intro s c t hs _ h
  cases c with
  | parserInit input =>
    cases h
    exact hs
  | parseFile env => exact parseFile_pending h
  | source input =>
    cases h
    exact hs
  | endFile => exact (endRel_thisLineLabels.endFile.ok h).trans hs

/-! Files. -/

lemma loadSource_run {env : AsmEnv} {input : List Lexeme} {s u : Asm}
    (h : (loadSource env input).run s = .ok () u) :
    ∃ t, (parseFile env).run (parserInit input s) = .ok () t ∧ endFile.run t = .ok () u := by
  obtain ⟨_, s₁, ⟨⟩, h⟩ := ok_of_bind h
  obtain ⟨_, t, ht, h⟩ := ok_of_bind h
  exact ⟨t, ht, h⟩

/-- The rest of a file after it is parsed. -/
lemma loadSource_parsed {env : AsmEnv} {input : List Lexeme} {s u : Asm}
    (h : (loadSource env input).run s = .ok () u) :
    ∃ p t, (parseTree env).run (parserInit input s) = .ok () p ∧
      ((env.printAstOnly = true ∨ p.currentFile = none) ∧ t = p ∨
        ∃ ns, env.printAstOnly = false ∧ p.currentFile = some ns ∧
          (emitAst env.toEnv ns).run p = .ok () t) ∧ endFile.run t = .ok () u := by
  obtain ⟨t, ht, hu⟩ := loadSource_run h
  obtain ⟨p, hp, ht⟩ := parseFile_run ht
  exact ⟨p, t, hp, ht, hu⟩

end Spimulator
