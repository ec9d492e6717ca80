import Mathlib.Logic.Relation
import Spimulator.LabelChains
import Spimulator.Observer

/-! The list of labels that the assembler's model keeps stands for the hash table of symbol-table.c:
loading files keeps the two in step. -/
namespace Spimulator
open Frame LinkedChain

/-- The bytes of a name. -/
def nameBytes (name : String) : CName := name.toByteArray.data.toList.map UInt8.toBitVec

lemma nameBytes_inj {a b : String} : nameBytes a = nameBytes b ↔ a = b := by
  refine ⟨fun h => ?_, congrArg nameBytes⟩
  have hlist := List.map_injective_iff.mpr (fun _ _ => UInt8.eq_of_toBitVec_eq) h
  exact String.toByteArray_inj.mp (ByteArray.ext (Array.toList_inj.mp hlist))

/-- The labels of the table in a slot, newest first. -/
def Asm.chain (s : Asm) (i : Slot) : List LabelRef :=
  s.table.filter fun l => slotOf (nameBytes (s.label l).name) = i

lemma Asm.mem_chain {s : Asm} {i : Slot} {l : LabelRef} :
    l ∈ s.chain i ↔ l ∈ s.table ∧ slotOf (nameBytes (s.label l).name) = i := by
  simp [Asm.chain]

/-- The links lead through the labels, unless one of them is listed twice: then they do not end. -/
def Listed (next : LabelRef → Option LabelRef) (head : Option LabelRef) (ls : List LabelRef) :
    Prop :=
  if ls.Nodup then Links next head ls else ∀ as, ¬ Links next head as

namespace Listed

variable {next : LabelRef → Option LabelRef} {head : Option LabelRef} {ls : List LabelRef}

lemma links (h : Listed next head ls) (hls : ls.Nodup) : Links next head ls := by
  rwa [Listed, if_pos hls] at h

lemma nodup_of_links {as : List LabelRef} (h : Listed next head ls) (has : Links next head as) :
    ls.Nodup := by
  by_contra hls
  rw [Listed, if_neg hls] at h
  exact h as has

lemma push (h : Listed next head ls) (l : LabelRef) :
    Listed (Function.update next l head) (some l) (l :: ls) := by
  rw [Listed]
  split_ifs with hnd
  · obtain ⟨hl, hls⟩ := List.nodup_cons.mp hnd
    exact (h.links hls).push hl
  · intro as has
    by_cases hls : ls.Nodup
    · have hl : l ∈ ls := by
        by_contra hl
        exact hnd (List.nodup_cons.mpr ⟨hl, hls⟩)
      exact (h.links hls).push_mem hl as has
    · have hnodup := has.nodup
      cases as with
      | nil => simp at has
      | cons a as =>
        obtain ⟨ha, has⟩ := has
        cases ha
        rw [Function.update_self] at has
        refine hls (h.nodup_of_links (has.congr fun b hb => ?_))
        exact (Function.update_of_ne (ne_of_mem_of_not_mem hb (List.nodup_cons.mp hnodup).1) ..).symm

end Listed

/-- The records and the links of symbol-table.c hold the labels of the table and the local ones. -/
structure Simulates (t : Symbols) (s : Asm) : Prop where
  unused : t.unused = s.nextLabel
  name : ∀ l ∈ s.table, t.name l = nameBytes (s.label l).name
  addr : ∀ l ∈ s.table, t.addr l = (s.label l).addr
  globalFlag : ∀ l ∈ s.table, t.globalFlag l = (s.label l).globalFlag
  gpFlag : ∀ l ∈ s.table, t.gpFlag l = false
  links : ∀ i, Links t.next (t.labelHashTable i) (s.chain i)
  locals : Listed t.nextLocal t.localLabels s.localLabels
  inTable : ∀ l ∈ s.localLabels, l ∈ s.table

namespace Symbols

/-- A step of loading: a call, or fix_current_label_address for the labels of a line. -/
inductive Step (t : Symbols) : Symbols → Prop
  | call {c : SymbolCall} {l : Option LabelRef} {t' : Symbols} (h : t.Returns c l t') : Step t t'
  | move (ls : List LabelRef) (a : Word) :
    Step t { t with addr := fun l => if l ∈ ls then a else t.addr l }

/-- The steps lead from one table to another. -/
abbrev Follows : Symbols → Symbols → Prop := Relation.ReflTransGen Step

end Symbols

namespace Simulates

variable {t : Symbols} {s u : Asm} {l : LabelRef} {name : String}

/-! Lookup. -/

lemma chains (h : Simulates t s) (hs : s.WellFormed) : t.Chains s.chain where
  links := h.links
  names i l hl l' hl' hname := by
    obtain ⟨hl, -⟩ := Asm.mem_chain.mp hl
    obtain ⟨hl', -⟩ := Asm.mem_chain.mp hl'
    rw [h.name l hl, h.name l' hl', nameBytes_inj] at hname
    exact hs.unique l hl l' hl' hname
  slots i l hl := by
    obtain ⟨hl, hi⟩ := Asm.mem_chain.mp hl
    rw [h.name l hl, hi]
  used i l hl := by
    rw [h.unused]
    exact hs.old l (Asm.mem_chain.mp hl).1
  direct i l hl := h.gpFlag l (Asm.mem_chain.mp hl).1

lemma mem_slot (h : Simulates t s) (hl : l ∈ s.table) : l ∈ s.chain (slotOf (t.name l)) := by
  rw [h.name l hl]
  exact Asm.mem_chain.mpr ⟨hl, rfl⟩

/-- The search along the chain of the name's slot finds the entry. -/
lemma lookup_found (h : Simulates t s) (hs : s.WellFormed) (hl : s.labelIsDefined name = some l) :
    t.lookupLabel t.unused (nameBytes name) = some (l, t) := by
  obtain ⟨hmem, rfl⟩ := hs.labelIsDefined_eq_some.mp hl
  rw [← h.name l hmem]
  exact (h.chains hs).lookupLabel_of_mem (h.mem_slot hmem) (Nat.le_refl _)

lemma new_name (h : Simulates t s) (hn : s.labelIsDefined name = none) (i : Slot) :
    ∀ l ∈ s.chain i, t.name l ≠ nameBytes name := by
  intro l hl
  obtain ⟨hl, -⟩ := Asm.mem_chain.mp hl
  rw [h.name l hl, ne_eq, nameBytes_inj]
  exact Asm.labelIsDefined_eq_none.mp hn l hl

lemma lookup_new (h : Simulates t s) (hs : s.WellFormed) (hn : s.labelIsDefined name = none) :
    t.lookupLabel t.unused (nameBytes name) = some (t.unused, t.newEntry (nameBytes name)) :=
  (h.chains hs).lookupLabel_of_new (h.new_name hn _) (Nat.le_refl _)

/-! Changes of labels. -/

/-- Labels change, and the list of local labels, but not the table. -/
lemma relabel {t' : Symbols} (h : Simulates t s) (htable : u.table = s.table)
    (hnext : u.nextLabel = s.nextLabel) (hname : ∀ l, (u.label l).name = (s.label l).name)
    (hunused : t'.unused = t.unused) (hname' : t'.name = t.name) (hgp : t'.gpFlag = t.gpFlag)
    (hlinks : t'.next = t.next) (hheads : t'.labelHashTable = t.labelHashTable)
    (haddr : ∀ l ∈ s.table, t'.addr l = (u.label l).addr)
    (hglobal : ∀ l ∈ s.table, t'.globalFlag l = (u.label l).globalFlag)
    (hlocals : Listed t'.nextLocal t'.localLabels u.localLabels)
    (hin : ∀ l ∈ u.localLabels, l ∈ s.table) : Simulates t' u where
  unused := hunused.trans (h.unused.trans hnext.symm)
  name l hl := by
    rw [hname', hname]
    exact h.name l (htable ▸ hl)
  addr l hl := haddr l (htable ▸ hl)
  globalFlag l hl := hglobal l (htable ▸ hl)
  gpFlag l hl := by
    rw [hgp]
    exact h.gpFlag l (htable ▸ hl)
  links i := by
    have hchain : u.chain i = s.chain i := by
      simp only [Asm.chain, htable, hname]
    rw [hlinks, hheads, hchain]
    exact h.links i
  locals := hlocals
  inTable l hl := htable ▸ hin l hl

lemma same (h : Simulates t s) (hs : u.symbols = s.symbols) : Simulates t u := by
  obtain ⟨htable, hl, -, -⟩ := symbols_eq_iff.mp hs
  refine h.relabel (by rw [htable]) (by rw [htable]) (fun l => by rw [hl]) rfl rfl rfl rfl rfl ?_ ?_
    ?_ ?_
  · rw [hl]
    exact h.addr
  · rw [hl]
    exact h.globalFlag
  · rw [htable]
    exact h.locals
  · rw [htable]
    exact h.inTable

lemma setLabel {x : Label} (h : Simulates t s) (hn : x.name = (s.label l).name)
    (ha : x.addr = (s.label l).addr) (hg : x.globalFlag = (s.label l).globalFlag) :
    Simulates t (s.setLabel l x) := by
  refine h.relabel rfl rfl (congrFun (sameNames_setLabel s l x hn)) rfl rfl rfl rfl rfl
    (fun k hk => ?_) (fun k hk => ?_) h.locals h.inTable
  · rw [label_setLabel]
    by_cases hkl : k = l
    · rw [hkl, Function.update_self, ha, ← hkl]
      exact h.addr k hk
    · rw [Function.update_of_ne hkl]
      exact h.addr k hk
  · rw [label_setLabel]
    by_cases hkl : k = l
    · rw [hkl, Function.update_self, hg, ← hkl]
      exact h.globalFlag k hk
    · rw [Function.update_of_ne hkl]
      exact h.globalFlag k hk

lemma declareGlobal (h : Simulates t s) (l : LabelRef) :
    Simulates { t with globalFlag := Function.update t.globalFlag l true }
      (s.setLabel l { s.label l with globalFlag := true }) := by
  refine h.relabel rfl rfl (congrFun (sameNames_setLabel s l _ rfl)) rfl rfl rfl rfl rfl
    (fun k hk => ?_) (fun k hk => ?_) h.locals h.inTable
  · rw [label_setLabel]
    by_cases hkl : k = l
    · subst hkl
      rw [Function.update_self]
      exact h.addr k hk
    · rw [Function.update_of_ne hkl]
      exact h.addr k hk
  · rw [label_setLabel]
    by_cases hkl : k = l
    · subst hkl
      simp only [Function.update_self]
    · simp only [Function.update_of_ne hkl]
      exact h.globalFlag k hk

lemma move (h : Simulates t s) (a : Word) :
    Simulates { t with addr := fun l => if l ∈ s.thisLineLabels then a else t.addr l }
      (s.fixCurrentLabelAddress a) := by
  refine h.relabel rfl rfl (fun l => ?_) rfl rfl rfl rfl rfl (fun l hl => ?_) (fun l hl => ?_)
    h.locals h.inTable
  · rw [Asm.label_fixCurrentLabelAddress]
    split <;> rfl
  · rw [Asm.label_fixCurrentLabelAddress]
    by_cases hp : l ∈ s.thisLineLabels
    · simp only [if_pos hp]
    · simp only [if_neg hp]
      exact h.addr l hl
  · rw [Asm.label_fixCurrentLabelAddress]
    split
    · exact h.globalFlag l hl
    · exact h.globalFlag l hl

/-- A label is allocated in front of its chain. -/
lemma newLabel (h : Simulates t s) (hs : s.WellFormed) (hn : s.labelIsDefined name = none) :
    Simulates (t.newEntry (nameBytes name)) (s.newLabel name) := by
  have hshape : ({ t with localLabels := none } : Symbols).Shape s.chain [] := by
    refine ⟨?_, rfl, by simp⟩
    obtain ⟨hlinks, hnames, hslots, hused, hdirect⟩ := h.chains hs
    exact ⟨hlinks, hnames, hslots, hused, hdirect⟩
  have hnew := (hshape.newEntry (h.new_name hn (slotOf (nameBytes name)))).links
  have hold {l : LabelRef} (hl : l ∈ s.table) : l ≠ s.nextLabel := Nat.ne_of_lt (hs.old l hl)
  have hlabel {l : LabelRef} (hl : l ∈ s.table) : (s.newLabel name).label l = s.label l := by
    rw [Asm.label_newLabel, if_neg (hold hl)]
  have hself : (s.newLabel name).label s.nextLabel = { name := name } := by
    rw [Asm.label_newLabel, if_pos rfl]
  have hchain (i : Slot) :
      (s.newLabel name).chain i = t.withEntry s.chain (nameBytes name) i := by
    have hrest : s.table.filter
        (fun l => slotOf (nameBytes ((s.newLabel name).label l).name) = i) = s.chain i :=
      List.filter_congr fun l hl => by rw [hlabel hl]
    change (s.nextLabel :: s.table).filter _ = _
    rw [List.filter_cons, hself, hrest, Symbols.withEntry, h.unused]
    by_cases hi : i = slotOf (nameBytes name)
    · subst hi
      simp
    · simp [hi, Ne.symm hi]
  refine ⟨congrArg (· + 1) h.unused, ?_, ?_, ?_, ?_, fun i => ?_, h.locals, fun l hl =>
    List.mem_cons_of_mem _ (h.inTable l hl)⟩
  · intro l hl
    rcases List.mem_cons.mp hl with rfl | hl
    · rw [hself, ← h.unused]
      exact Function.update_self ..
    · rw [hlabel hl, ← h.name l hl]
      exact Function.update_of_ne (h.unused ▸ hold hl) ..
  · intro l hl
    rcases List.mem_cons.mp hl with rfl | hl
    · rw [hself, ← h.unused]
      exact Function.update_self ..
    · rw [hlabel hl, ← h.addr l hl]
      exact Function.update_of_ne (h.unused ▸ hold hl) ..
  · intro l hl
    rcases List.mem_cons.mp hl with rfl | hl
    · rw [hself, ← h.unused]
      exact Function.update_self ..
    · rw [hlabel hl, ← h.globalFlag l hl]
      exact Function.update_of_ne (h.unused ▸ hold hl) ..
  · intro l hl
    rcases List.mem_cons.mp hl with rfl | hl
    · rw [← h.unused]
      exact Function.update_self ..
    · rw [← h.gpFlag l hl]
      exact Function.update_of_ne (h.unused ▸ hold hl) ..
  · rw [hchain]
    exact hnew i

/-! Definitions. -/

/-- The first definition gives the label its address, and puts it on the list if it is local. -/
lemma recorded {a : Word} {resolve : Bool} (h : Simulates t s) (hl : l ∈ s.table)
    (hr : Recorded s u l a resolve) : Simulates (t.recordEntry l a) u := by
  have hundefined : t.addr l = 0 := (h.addr l hl).trans hr.undefined
  have hlabel (k : LabelRef) : (u.label k).name = (s.label k).name ∧
      (u.label k).globalFlag = (s.label k).globalFlag := by
    rw [hr.label]
    by_cases hk : k = l
    · rw [hk, Function.update_self]
      exact ⟨rfl, rfl⟩
    · rw [Function.update_of_ne hk]
      exact ⟨rfl, rfl⟩
  have haddr : ∀ k ∈ s.table, Function.update t.addr l a k = (u.label k).addr := by
    intro k hk
    rw [hr.label]
    by_cases hkl : k = l
    · rw [hkl, Function.update_self, Function.update_self]
    · rw [Function.update_of_ne hkl, Function.update_of_ne hkl]
      exact h.addr k hk
  have hglobal : ∀ k ∈ s.table, t.globalFlag k = (u.label k).globalFlag := fun k hk =>
    (h.globalFlag k hk).trans (hlabel k).2.symm
  rw [Symbols.recordEntry, if_neg (by simp [h.gpFlag l hl]), if_neg (by simpa using hundefined),
    Symbols.linkLocal]
  cases hg : (s.label l).globalFlag with
  | true =>
    have hlocals : u.localLabels = s.localLabels := by rw [hr.localLabels, if_pos hg]
    rw [if_pos ((h.globalFlag l hl).trans hg)]
    refine h.relabel hr.table hr.nextLabel (fun k => (hlabel k).1) rfl rfl rfl rfl rfl haddr hglobal
      ?_ ?_
    · rw [hlocals]
      exact h.locals
    · rw [hlocals]
      exact h.inTable
  | false =>
    have hlocals : u.localLabels = l :: s.localLabels := by rw [hr.localLabels, if_neg (by simp [hg])]
    rw [if_neg (by simp [h.globalFlag l hl, hg])]
    refine h.relabel hr.table hr.nextLabel (fun k => (hlabel k).1) rfl rfl rfl rfl rfl haddr hglobal
      ?_ ?_
    · rw [hlocals]
      exact h.locals.push l
    · rw [hlocals]
      exact List.forall_mem_cons.mpr ⟨hl, h.inTable⟩

/-- A second definition only says so. -/
lemma second (h : Simulates t s) (hl : l ∈ s.table) (hr : SecondDefinition s u l name) (a : Word) :
    Simulates (t.recordEntry l a) u := by
  have hdefined : t.addr l ≠ 0 := by
    rw [h.addr l hl]
    exact hr.defined
  rw [Symbols.recordEntry, if_neg (by simp [h.gpFlag l hl]), if_pos hdefined]
  refine h.relabel (by rw [hr.table]) (by rw [hr.table]) (fun k => by rw [hr.label]) rfl rfl rfl rfl
    rfl ?_ ?_ ?_ ?_
  · rw [hr.label]
    exact h.addr
  · rw [hr.label]
    exact h.globalFlag
  · rw [hr.table]
    exact h.locals
  · rw [hr.table]
    exact h.inTable

end Simulates

/-! The end of a file. -/

/-- Labels only leave the table, and the others stay in their order. -/
def shrinks : Rel Asm where
  rel s t := List.Sublist t.table s.table ∧ t.nextLabel = s.nextLabel
  refl s := ⟨List.Sublist.refl s.table, rfl⟩
  trans h h' := ⟨h'.1.trans h.1, h'.2.trans h.2⟩

theorem endRel_shrinks : EndRel shrinks where
  erase _ _ _ _ _ := ⟨List.erase_sublist, rfl⟩
  report s _ _ := shrinks.refl s
  flush s := shrinks.refl s
  reset s := shrinks.refl s

lemma filter_of_sublist {as bs : List LabelRef} {p : LabelRef → Bool} (h : List.Sublist as bs)
    (hbs : bs.Nodup) (hmem : ∀ l ∈ bs, l ∈ as ↔ p l = true) : as = bs.filter p := by
  induction h with
  | slnil => rfl
  | cons b h ih =>
    obtain ⟨hb, hbs⟩ := List.nodup_cons.mp hbs
    rw [List.forall_mem_cons] at hmem
    have hp : p b ≠ true := fun hp => hb (h.subset (hmem.1.mpr hp))
    rw [List.filter_cons_of_neg hp]
    exact ih hbs hmem.2
  | cons_cons b h ih =>
    obtain ⟨hb, hbs⟩ := List.nodup_cons.mp hbs
    rw [List.forall_mem_cons] at hmem
    have hp : p b = true := hmem.1.mp List.mem_cons_self
    rw [List.filter_cons_of_pos hp]
    refine congrArg _ (ih hbs fun l hl => ?_)
    rw [← hmem.2 l hl, List.mem_cons, or_iff_right]
    rintro rfl
    exact hb hl

namespace Simulates

variable {t : Symbols} {s u : Asm}

/-- The loop along next_local takes the local labels out of their chains. -/
lemma flush_returns (h : Simulates t s) (hs : s.WellFormed) (hls : s.localLabels.Nodup) (w : Bool) :
    ∃ t', t.Returns (.flushLocalLabels w) none t' ∧
      Symbols.Chains t' (Symbols.without s.chain s.localLabels) ∧ Symbols.SameRecords t t' ∧
        t'.localLabels = none := by
  have hlinks := h.locals.links hls
  have hlength : s.localLabels.length ≤ t.unused := by
    refine Symbols.length_le_of_lt hls fun l hl => ?_
    rw [h.unused]
    exact hs.old l (h.inTable l hl)
  obtain ⟨t', ht', hc, hr⟩ := (h.chains hs).flushFrom hlinks
    (fun l hl => h.mem_slot (h.inTable l hl)) hlength (Nat.le_refl t.unused) w
  refine ⟨{ t' with localLabels := none }, ⟨t.unused, ?_⟩, ?_, ?_, rfl⟩
  · simp [Symbols.call, Symbols.flushLocalLabels, ht']
  · exact ⟨hc.links, hc.names, hc.slots, hc.used, hc.direct⟩
  · exact ⟨hr.name, hr.addr, hr.globalFlag, hr.gpFlag, hr.nextLocal, hr.unused⟩

/-- What is left in the table is what is left in the chains. -/
lemma flushed {t' : Symbols} (h : Simulates t s) (hs : s.WellFormed)
    (hf : Flushed s.localLabels s u) (hshrinks : shrinks.rel s u) (hlocals : u.localLabels = [])
    (hc : Symbols.Chains t' (Symbols.without s.chain s.localLabels))
    (hr : Symbols.SameRecords t t') (hnone : t'.localLabels = none) : Simulates t' u := by
  have hmem : ∀ l ∈ s.table, l ∈ u.table ↔ decide (l ∉ s.localLabels) = true := by
    intro l hl
    rw [decide_eq_true_iff, hf.mem, and_iff_right hl]
    refine ⟨fun hall hmem => hall l hmem rfl, fun hnot k hk hkl => hnot ?_⟩
    rwa [← hs.unique k (h.inTable k hk) l hl hkl]
  have htable := filter_of_sublist hshrinks.1 hs.nodup hmem
  have hsub {l : LabelRef} (hl : l ∈ u.table) : l ∈ s.table := hshrinks.1.subset hl
  refine ⟨?_, ?_, ?_, ?_, ?_, fun i => ?_, ?_, ?_⟩
  · rw [hr.unused, h.unused, hshrinks.2]
  · intro l hl
    rw [hr.name, hf.label]
    exact h.name l (hsub hl)
  · intro l hl
    rw [hr.addr, hf.label]
    exact h.addr l (hsub hl)
  · intro l hl
    rw [hr.globalFlag, hf.label]
    exact h.globalFlag l (hsub hl)
  · intro l hl
    rw [hr.gpFlag]
    exact h.gpFlag l (hsub hl)
  · have hchain : u.chain i = Symbols.without s.chain s.localLabels i := by
      rw [Asm.chain, htable, hf.label, Symbols.without, Asm.chain, List.filter_filter,
        List.filter_filter]
      exact List.filter_congr fun l _ => Bool.and_comm _ _
    rw [hchain]
    exact hc.links i
  · rw [hlocals, hnone]
    exact rfl
  · simp [hlocals]

end Simulates

/-! Loading. -/

/-- A table that steps from `t₀` lead to holds the labels. -/
structure InStep (t₀ : Symbols) (s : Asm) : Prop where
  wellFormed : s.WellFormed
  table : ∃ t, t₀.Follows t ∧ Simulates t s

/-- What the operations of the model do in a state, symbol-table.c does with its table. -/
structure Commutes (t : Symbols) (s : Asm) : Prop where
  lookup : ∀ name l u, (lookupLabel name).run s = .ok l u →
    ∃ t', t.Returns (.lookupLabel (nameBytes name)) (some l) t' ∧ Simulates t' u
  record : ∀ env name a resolve l u, (recordLabel env name a resolve).run s = .ok l u →
    ∃ t', t.Returns (.recordLabel (nameBytes name) a) (some l) t' ∧ Simulates t' u
  makeGlobal : ∀ name l u, (makeLabelGlobal name).run s = .ok l u →
    ∃ t', t.Returns (.makeLabelGlobal (nameBytes name)) (some l) t' ∧ Simulates t' u
  flush : ∀ u, endFile.run s = .ok () u → ∀ w,
    ∃ t', t.Returns (.flushLocalLabels w) none t' ∧ Simulates t' u
  endless : ∀ w r t', t.Returns (.flushLocalLabels w) r t' → s.localLabels.Nodup

lemma endFile_nodup {s u : Asm} (h : endFile.run s = .ok () u) : s.localLabels.Nodup := by
  by_contra hls
  obtain ⟨_, _, ⟨⟩, h⟩ := ok_of_bind h
  obtain ⟨_, s₁, h₁, h⟩ := ok_of_bind h
  obtain ⟨_, _, ⟨⟩, h₁⟩ := ok_of_bind h₁
  rw [if_neg hls] at h₁
  cases h₁

namespace Simulates

variable {t : Symbols} {s u : Asm} {l : LabelRef} {name : String}

lemma lookup (h : Simulates t s) (hs : s.WellFormed) (hu : (lookupLabel name).run s = .ok l u) :
    ∃ t', t.lookupLabel t.unused (nameBytes name) = some (l, t') ∧ Simulates t' u := by
  rcases lookupLabel_run hu with ⟨hl, rfl⟩ | ⟨hn, rfl, rfl⟩
  · exact ⟨t, h.lookup_found hs hl, h⟩
  · refine ⟨t.newEntry (nameBytes name), ?_, h.newLabel hs hn⟩
    rw [← h.unused]
    exact h.lookup_new hs hn

/-- The label is in the table after its name is looked up. -/
lemma looked (hs : s.WellFormed) (hu : (lookupLabel name).run s = .ok l u) :
    u.WellFormed ∧ l ∈ u.table ∧ (u.label l).name = name :=
  symbolsKeep_wellFormed.lookupLabel hs hu

theorem commutes (h : Simulates t s) (hs : s.WellFormed) : Commutes t s where
  lookup name l u hu := by
    obtain ⟨t', ht', hsim⟩ := h.lookup hs hu
    exact ⟨t', (Symbols.Returns.of_lookup ht').1, hsim⟩
  record env name a resolve l u hu := by
    obtain ⟨k, v, hv, hu⟩ := ok_of_bind hu
    obtain ⟨_, u', hu', hu⟩ := ok_of_bind hu
    cases hu
    obtain ⟨t', ht', hsim⟩ := h.lookup hs hv
    obtain ⟨hw, hl, rfl⟩ := looked hs hv
    refine ⟨t'.recordEntry l a, (Symbols.Returns.of_lookup ht').2.1 a, ?_⟩
    rcases recordEntry_run (hw.noGp l) hu' with hr | hr
    · exact hsim.recorded hl hr
    · exact hsim.second hl hr a
  makeGlobal name l u hu := by
    obtain ⟨k, v, hv, hu⟩ := ok_of_bind hu
    cases hu
    obtain ⟨t', ht', hsim⟩ := h.lookup hs hv
    exact ⟨_, (Symbols.Returns.of_lookup ht').2.2, hsim.declareGlobal l⟩
  flush u hu w := by
    obtain ⟨hf, hlocals⟩ := endFile_flushed hs hu
    obtain ⟨t', ht', hc, hr, hnone⟩ := h.flush_returns hs (endFile_nodup hu) w
    exact ⟨t', ht', h.flushed hs hf (endRel_shrinks.endFile.ok hu) hlocals hc hr hnone⟩
  endless w r t' ht' := by
    obtain ⟨as, has⟩ := ht'.flush_ends
    exact h.locals.nodup_of_links has

end Simulates

namespace InStep

variable {t₀ : Symbols} {s u : Asm}

/-- One more step of the table. -/
lemma after {t t' : Symbols} (ht : t₀.Follows t) (hstep : t.Step t') (hw : u.WellFormed)
    (h : Simulates t' u) : InStep t₀ u := ⟨hw, t', ht.tail hstep, h⟩

end InStep

theorem symbolsKeep_inStep (t₀ : Symbols) : SymbolsKeep Set.univ Set.univ (InStep t₀) where
  wellFormed s h := h.wellFormed
  same s u hu h := by
    obtain ⟨hw, t, ht, hsim⟩ := h
    exact ⟨symbolsKeep_wellFormed.same s u hu hw, t, ht, hsim.same hu⟩
  relabel s l x hn ha hg hgp h := by
    obtain ⟨hw, t, ht, hsim⟩ := h
    exact ⟨symbolsKeep_wellFormed.relabel s l x hn ha hg hgp hw, t, ht, hsim.setLabel hn ha hg⟩
  newLabel s name hn h := by
    obtain ⟨hw, t, ht, hsim⟩ := h
    have hcall := (Symbols.Returns.of_lookup (hsim.lookup_new hw hn)).1
    exact .after ht (.call hcall) (hw.newLabel hn) (hsim.newLabel hw hn)
  declareGlobal s l hG h := by
    obtain ⟨hw, t, ht, hsim⟩ := h
    have hw' := symbolsKeep_wellFormed.declareGlobal s l hG hw
    by_cases hl : l ∈ s.table
    · have hcall := (Symbols.Returns.of_lookup
        ((hsim.chains hw).lookupLabel_of_mem (hsim.mem_slot hl) (Nat.le_refl _))).2.2
      exact .after ht (.call hcall) hw' (hsim.declareGlobal l)
    · -- a label that has left the table is no longer there to be declared
      refine ⟨hw', t, ht, hsim.relabel rfl rfl (congrFun (sameNames_setLabel s l _ rfl)) rfl rfl
        rfl rfl rfl (fun k hk => ?_) (fun k hk => ?_) hsim.locals hsim.inTable⟩
      · rw [label_setLabel, Function.update_of_ne (ne_of_mem_of_not_mem hk hl)]
        exact hsim.addr k hk
      · rw [label_setLabel, Function.update_of_ne (ne_of_mem_of_not_mem hk hl)]
        exact hsim.globalFlag k hk
  unpend s l ls hls h := by
    obtain ⟨hw, t, ht, hsim⟩ := h
    exact ⟨symbolsKeep_wellFormed.unpend s l ls hls hw, t, ht,
      hsim.relabel rfl rfl (fun _ => rfl) rfl rfl rfl rfl rfl hsim.addr hsim.globalFlag
        hsim.locals hsim.inTable⟩
  move s a h := by
    obtain ⟨hw, t, ht, hsim⟩ := h
    exact .after ht (.move s.thisLineLabels a) (symbolsKeep_wellFormed.move s a hw) (hsim.move a)
  record s u l a resolve hl hD hr h := by
    obtain ⟨hw, t, ht, hsim⟩ := h
    have hcall := (Symbols.Returns.of_lookup
      ((hsim.chains hw).lookupLabel_of_mem (hsim.mem_slot hl) (Nat.le_refl _))).2.1 a
    exact .after ht (.call hcall) (symbolsKeep_wellFormed.record s u l a resolve hl hD hr hw)
      (hsim.recorded hl hr)
  second s u l hl hD hr h := by
    obtain ⟨hw, t, ht, hsim⟩ := h
    have hcall := (Symbols.Returns.of_lookup
      ((hsim.chains hw).lookupLabel_of_mem (hsim.mem_slot hl) (Nat.le_refl _))).2.1 0
    exact .after ht (.call hcall) (symbolsKeep_wellFormed.second s u l hl hD hr hw)
      (hsim.second hl hr 0)
  pend s l hl hD hk h := by
    obtain ⟨hw, t, ht, hsim⟩ := h
    exact ⟨symbolsKeep_wellFormed.pend s l hl hD hk hw, t, ht,
      hsim.relabel rfl rfl (fun _ => rfl) rfl rfl rfl rfl rfl hsim.addr hsim.globalFlag
        hsim.locals hsim.inTable⟩

/-- A call of a session, or the declaration of `main` after the exception handler. -/
inductive TableStep
  | session (c : SessionCall)
  | declareMain (env : AsmEnv)

def TableStep.run : TableStep → Assemble Unit
  | .session c => c.run
  | .declareMain env => loadHandler.declareMain env

namespace InStep

variable {t₀ : Symbols} {s u : Asm}

lemma endFile (h : InStep t₀ s) (hu : endFile.run s = .ok () u) : InStep t₀ u := by
  obtain ⟨hw, t, ht, hsim⟩ := h
  obtain ⟨t', ht', hsim'⟩ := (hsim.commutes hw).flush u hu true
  exact .after ht (.call ht') (endFile_flushed hw hu).1.wellFormed hsim'

lemma parseFile {env : AsmEnv} (h : InStep t₀ s) (hu : (parseFile env).run s = .ok () u) :
    InStep t₀ u := by
  have hR := (symbolsKeep_inStep t₀).toSymbolsRel
  obtain ⟨p, hp, ⟨-, rfl⟩ | ⟨ns, -, -, hu⟩⟩ := parseFile_run hu
  · exact (hR.toParseRel.parseTree env).ok hp h
  · exact (hR.emitAst env.toEnv ns (fun _ _ _ _ => trivial) fun _ _ _ _ => trivial).ok hu
      ((hR.toParseRel.parseTree env).ok hp h)

lemma declareMain {env : AsmEnv} (h : InStep t₀ s)
    (hu : (loadHandler.declareMain env).run s = .ok () u) : InStep t₀ u := by
  have hR := (symbolsKeep_inStep t₀).toSymbolsRel.toRecordRel
  rcases declareMain_run hu with rfl | ⟨l, k, v, hv, hk⟩
  · exact h
  · exact (hR.record env.toEnv "main" 0 false trivial).ok hk ((hR.makeLabelGlobal trivial).ok hv h)

theorem step {i : TableStep} (h : InStep t₀ s) (hu : i.run.run s = .ok () u) : InStep t₀ u := by
  cases i with
  | declareMain env => exact h.declareMain hu
  | session c =>
    cases c with
    | parserInit input =>
      cases hu
      exact (symbolsKeep_inStep t₀).same s _ rfl h
    | parseFile env => exact h.parseFile hu
    | source input =>
      cases hu
      exact (symbolsKeep_inStep t₀).same s _ rfl h
    | endFile => exact h.endFile hu

/-- A new process: the records are allocated from 0 on. -/
lemma fresh (env : AsmEnv) (h₀ : t₀.unused = 0) : InStep t₀.initializeSymbolTable (.fresh env) := by
  refine ⟨fresh_wellFormed env, _, .refl, Simulates.same (s := {}) ?_ (fresh_symbols env)⟩
  refine ⟨h₀, ?_, ?_, ?_, ?_, fun i => rfl, ?_, ?_⟩
  · simp
  · simp
  · simp
  · simp
  · exact rfl
  · simp

end InStep

/-- Whatever the memory held at first: in every state of a session there is a hash table, with its
chains and its list of local labels, that calls of symbol-table.c and moves of labels lead to, that
holds the model's labels, and in which every operation does what the model's does. -/
theorem symbol_table_refines {env : AsmEnv} {t₀ : Symbols} (h₀ : t₀.unused = 0)
    {is : List TableStep} {s : Asm}
    (h : CommandRun TableStep.run (fun _ _ => True) (.fresh env) is s) :
    ∃ t, t₀.initializeSymbolTable.Follows t ∧ Simulates t s ∧ Commutes t s := by
  obtain ⟨hw, t, ht, hsim⟩ := h.invariant (fun _ _ _ hs _ hr => hs.step hr) (InStep.fresh env h₀)
  exact ⟨t, ht, hsim, hsim.commutes hw⟩

/-- A file with a local label, another one that is still open, and `main`. -/
theorem symbol_table_refines_session : ∃ t s : _,
    CommandRun TableStep.run (fun _ _ => True) (.fresh { Env.quiet with })
      [.session (.parserInit definesN), .session (.parseFile { Env.quiet with }),
        .session .endFile, .declareMain { Env.quiet with },
        .session (.parserInit definesN), .session (.parseFile { Env.quiet with })] s ∧
      s.localLabels.length = 1 ∧ s.table.length = 2 ∧
        Symbols.empty.initializeSymbolTable.Follows t ∧ Simulates t s ∧ Commutes t s := by
  have h : ((CommandRun.eval TableStep.run (fun _ _ => True)
      [.session (.parserInit definesN), .session (.parseFile { Env.quiet with }),
        .session .endFile, .declareMain { Env.quiet with },
        .session (.parserInit definesN), .session (.parseFile { Env.quiet with })]
      (.fresh { Env.quiet with })).any fun s =>
        decide (s.localLabels.length = 1 ∧ s.table.length = 2)) = true := by decide +kernel
  obtain ⟨s, hs, h⟩ := CommandRun.exists_of_eval h
  obtain ⟨hlocals, htable⟩ := of_decide_eq_true h
  obtain ⟨t, ht, hsim, hcomm⟩ := symbol_table_refines (show Symbols.empty.unused = 0 from rfl) hs
  exact ⟨t, s, hs, hlocals, htable, ht, hsim, hcomm⟩

end Spimulator
