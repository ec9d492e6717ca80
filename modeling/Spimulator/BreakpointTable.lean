import Spimulator.Library.PatchTable
import Spimulator.Breakpoint
import Spimulator.Run
import Mathlib.Logic.Relation

/-! Runs of calls of add_breakpoint and delete_breakpoint. -/
namespace Spimulator
open Frame PatchTable Relation

/-! The instructions of text. -/

namespace Machine

/-- An aligned address of user or kernel text. -/
def InstWord (m : Machine) (addr : Word) : Prop :=
  (m.inText addr ∨ m.inKText addr) ∧ addr &&& 3 = 0

/-- What an address of text holds. -/
def instAt (m : Machine) (addr : Word) : Option InstRef :=
  if m.inText addr ∧ addr &&& 3 = 0 then m.textSeg (textIndex addr)
  else if m.inKText addr ∧ addr &&& 3 = 0 then m.kTextSeg (kTextIndex addr)
  else none

def setInst (m : Machine) (addr : Word) (r : Option InstRef) : Machine :=
  if m.inText addr ∧ addr &&& 3 = 0 then m.setText (textIndex addr) r
  else m.setKText (kTextIndex addr) r

/-- Text holds no break instruction and the table has no entry. -/
def NoBreakpoints (m : Machine) : Prop :=
  m.bkpts = [] ∧ ∀ addr, m.instAt addr ≠ some breakInst

variable {m : Machine} {a b : Word}

lemma InstWord.of_instAt (h : m.instAt a ≠ none) : m.InstWord a := by
  unfold instAt at h
  split at h
  · rename_i ht
    exact ⟨.inl ht.1, ht.2⟩
  · split at h
    · rename_i hk
      exact ⟨.inr hk.1, hk.2⟩
    · exact absurd rfl h

/-- Aligned addresses from the bottom of a segment on have different indices. -/
lemma index_inj {bot : Word} (hbot : bot.toNat % 4 = 0) (ha : bot ≤ a) (hb : bot ≤ b)
    (ha4 : a &&& 3 = 0) (hb4 : b &&& 3 = 0)
    (h : (a - bot).toNat / 4 = (b - bot).toNat / 4) : a = b := by
  have hmod (c : Word) (hc : c &&& 3 = 0) : c.toNat % 4 = 0 := by
    have hnat : (c &&& 3).toNat = 0 := by rw [hc]; rfl
    rw [BitVec.toNat_and] at hnat
    change c.toNat &&& (2^2-1) = 0 at hnat
    rwa [Nat.and_two_pow_sub_one_eq_mod] at hnat
  have hda := BitVec.toNat_sub_of_le ha
  have hdb := BitVec.toNat_sub_of_le hb
  rw [BitVec.le_def] at ha hb
  have h4a := hmod a ha4
  have h4b := hmod b hb4
  apply BitVec.eq_of_toNat_eq
  omega

theorem instAt_setInst (hw : m.InstWord a) (r : Option InstRef) :
    (m.setInst a r).instAt = Function.update m.instAt a r := by
  funext b
  have htext : m.inText a ∧ a &&& 3 = 0 → m.inText b ∧ b &&& 3 = 0 → b ≠ a →
      textIndex b ≠ textIndex a :=
    fun ha hb hne hi => hne (index_inj rfl hb.1.1 ha.1.1 hb.2 ha.2 hi)
  have hktext : m.inKText a ∧ a &&& 3 = 0 → m.inKText b ∧ b &&& 3 = 0 → b ≠ a →
      kTextIndex b ≠ kTextIndex a :=
    fun ha hb hne hi => hne (index_inj rfl hb.1.1 ha.1.1 hb.2 ha.2 hi)
  by_cases ha : m.inText a ∧ a &&& 3 = 0
  · rw [setInst, if_pos ha]
    by_cases hb : m.inText b ∧ b &&& 3 = 0
    · have hset : (m.setText (textIndex a) r).instAt b =
          Function.update m.textSeg (textIndex a) r (textIndex b) := if_pos hb
      have hold : m.instAt b = m.textSeg (textIndex b) := if_pos hb
      rw [hset]
      by_cases hba : b = a
      · rw [hba, Function.update_self, Function.update_self]
      · rw [Function.update_of_ne (htext ha hb hba), Function.update_of_ne hba, hold]
    · have hba : b ≠ a := fun e => hb (e ▸ ha)
      rw [Function.update_of_ne hba]
      exact (if_neg hb).trans (if_neg hb).symm
  · have hk : m.inKText a ∧ a &&& 3 = 0 :=
      ⟨hw.1.resolve_left fun h => ha ⟨h, hw.2⟩, hw.2⟩
    rw [setInst, if_neg ha]
    by_cases hb : m.inText b ∧ b &&& 3 = 0
    · have hba : b ≠ a := fun e => ha (e ▸ hb)
      rw [Function.update_of_ne hba]
      exact (if_pos hb).trans (if_pos hb).symm
    · by_cases hkb : m.inKText b ∧ b &&& 3 = 0
      · have hset : (m.setKText (kTextIndex a) r).instAt b =
            Function.update m.kTextSeg (kTextIndex a) r (kTextIndex b) :=
          (if_neg hb).trans (if_pos hkb)
        have hold : m.instAt b = m.kTextSeg (kTextIndex b) := (if_neg hb).trans (if_pos hkb)
        rw [hset]
        by_cases hba : b = a
        · rw [hba, Function.update_self, Function.update_self]
        · rw [Function.update_of_ne (hktext hk hkb hba), Function.update_of_ne hba, hold]
      · have hba : b ≠ a := fun e => hkb (e ▸ hk)
        rw [Function.update_of_ne hba]
        exact ((if_neg hb).trans (if_neg hkb)).trans ((if_neg hb).trans (if_neg hkb)).symm

/-- Writing an instruction changes the two text segments only. -/
lemma setInst_eq (m : Machine) (a : Word) (r : Option InstRef) :
    ∃ t k, m.setInst a r = { m with textSeg := t, kTextSeg := k } := by
  unfold setInst
  split
  · exact ⟨_, _, rfl⟩
  · exact ⟨_, _, rfl⟩

lemma bkpts_setInst (m : Machine) (a : Word) (r : Option InstRef) :
    (m.setInst a r).bkpts = m.bkpts := by
  obtain ⟨t, k, h⟩ := m.setInst_eq a r
  rw [h]

lemma exceptionOccurred_setInst (m : Machine) (a : Word) (r : Option InstRef) :
    (m.setInst a r).exceptionOccurred = m.exceptionOccurred := by
  obtain ⟨t, k, h⟩ := m.setInst_eq a r
  rw [h]

lemma InstWord.setInst (hw : m.InstWord b) (a : Word) (r : Option InstRef) :
    (m.setInst a r).InstWord b := by
  obtain ⟨t, k, h⟩ := m.setInst_eq a r
  rw [h]
  exact hw

/-- The text of a machine as cells, of which the break instruction marks some. -/
def patched (m : Machine) : Patched Word (Option InstRef) :=
  ⟨m.instAt, m.bkpts.map fun b => (b.1, some b.2)⟩

lemma mem_patched (m : Machine) (a : Word) :
    (∃ v, (a, v) ∈ m.patched.table) ↔ ∃ r, (a, r) ∈ m.bkpts := by
  simp only [patched, List.mem_map, Prod.mk.injEq, Prod.exists]
  constructor
  · rintro ⟨v, b, r, h, rfl, rfl⟩
    exact ⟨r, h⟩
  · rintro ⟨r, h⟩
    exact ⟨some r, a, r, h, rfl, rfl⟩

end Machine

/-! The accessors at a word of text. -/

section

variable (tbl : AOpcodeTbl) {m : Machine} {addr : Word}

lemma memReadInst_instWord (hw : m.InstWord addr) :
    (memReadInst tbl addr).run m = .ok (m.instAt addr) m := by
  change (if m.inText addr ∧ addr &&& 3 = 0 then
      Pure.pure (m.textSeg (Machine.textIndex addr))
    else if m.inKText addr ∧ addr &&& 3 = 0 then
      Pure.pure (m.kTextSeg (Machine.kTextIndex addr))
    else badTextRead tbl addr : Exec (Option InstRef)).run m = _
  unfold Machine.instAt
  by_cases ht : m.inText addr ∧ addr &&& 3 = 0
  · rw [if_pos ht, if_pos ht]
    rfl
  · have hk : m.inKText addr ∧ addr &&& 3 = 0 :=
      ⟨hw.1.resolve_left fun h => ht ⟨h, hw.2⟩, hw.2⟩
    rw [if_neg ht, if_neg ht, if_pos hk, if_pos hk]
    rfl

lemma memWriteInst_instWord (hw : m.InstWord addr) (r : Option InstRef) :
    (memWriteInst tbl addr r).run m = .ok () (m.setInst addr r) := by
  change (if m.inText addr ∧ addr &&& 3 = 0 then set (m.setText (Machine.textIndex addr) r)
    else if m.inKText addr ∧ addr &&& 3 = 0 then set (m.setKText (Machine.kTextIndex addr) r)
    else badTextWrite tbl addr r : Exec Unit).run m = _
  unfold Machine.setInst
  by_cases ht : m.inText addr ∧ addr &&& 3 = 0
  · rw [if_pos ht, if_pos ht]
    rfl
  · have hk : m.inKText addr ∧ addr &&& 3 = 0 :=
      ⟨hw.1.resolve_left fun h => ht ⟨h, hw.2⟩, hw.2⟩
    rw [if_neg ht, if_neg ht, if_pos hk]
    rfl

/-- Writing back records of one address. -/
lemma restoreInsts_instWord (hw : m.InstWord addr) (bs : List (Word × InstRef))
    (hbs : ∀ b ∈ bs, b.1 = addr) :
    ∃ t k, (restoreInsts tbl addr bs).run m = .ok () { m with textSeg := t, kTextSeg := k } ∧
      ({ m with textSeg := t, kTextSeg := k } : Machine).instAt =
        writeBack m.instAt (bs.map fun b => (b.1, some b.2)) := by
  induction bs generalizing m with
  | nil => exact ⟨m.textSeg, m.kTextSeg, rfl, rfl⟩
  | cons b bs ih =>
    rw [List.forall_mem_cons] at hbs
    obtain ⟨t₁, k₁, h₁⟩ := m.setInst_eq addr (some b.2)
    obtain ⟨t, k, hrun, hinst⟩ := ih (hw.setInst addr (some b.2)) hbs.2
    rw [Machine.instAt_setInst hw] at hinst
    rw [h₁] at hinst hrun
    refine ⟨t, k, ?_, ?_⟩
    · rw [restoreInsts, run_bind_of_ok (memWriteInst_instWord tbl hw (some b.2)), h₁]
      exact hrun
    · rw [List.map_cons, writeBack, hbs.1]
      exact hinst

/-! The two functions at a word of text. -/

/-- A breakpoint that is already set. -/
lemma setBreakpoint_again (hw : m.InstWord addr) (h : m.instAt addr = some breakInst) :
    (setBreakpoint tbl addr).run m = .ok none { m with exceptionOccurred := false } := by
  have hread : (memReadInst tbl addr).run { m with exceptionOccurred := false } =
      .ok (some breakInst) { m with exceptionOccurred := false } := by
    rw [memReadInst_instWord tbl (m := { m with exceptionOccurred := false }) hw, ← h]
    rfl
  change (do
    let old ← memReadInst tbl addr
    if old = some breakInst then Pure.pure none
    else
      memWriteInst tbl addr (some breakInst)
      let m ← get
      Pure.pure (if m.exceptionOccurred then none else old) :
    Exec (Option InstRef)).run { m with exceptionOccurred := false } = _
  rw [run_bind_of_ok hread]
  rfl

lemma setBreakpoint_new (hw : m.InstWord addr) (h : m.instAt addr ≠ some breakInst) :
    (setBreakpoint tbl addr).run m = .ok (m.instAt addr)
      ({ m with exceptionOccurred := false }.setInst addr (some breakInst)) := by
  have hread : (memReadInst tbl addr).run { m with exceptionOccurred := false } =
      .ok (m.instAt addr) { m with exceptionOccurred := false } :=
    memReadInst_instWord tbl (m := { m with exceptionOccurred := false }) hw
  have hwrite : (memWriteInst tbl addr (some breakInst)).run { m with exceptionOccurred := false } =
      .ok () ({ m with exceptionOccurred := false }.setInst addr (some breakInst)) :=
    memWriteInst_instWord tbl (m := { m with exceptionOccurred := false }) hw _
  change (do
    let old ← memReadInst tbl addr
    if old = some breakInst then Pure.pure none
    else
      memWriteInst tbl addr (some breakInst)
      let m ← get
      Pure.pure (if m.exceptionOccurred then none else old) :
    Exec (Option InstRef)).run { m with exceptionOccurred := false } = _
  rw [run_bind_of_ok hread, if_neg h, run_bind_of_ok hwrite]
  change EStateM.Result.ok (if ({ m with exceptionOccurred := false }.setInst addr
    (some breakInst)).exceptionOccurred then none else m.instAt addr) _ = _
  rw [Machine.exceptionOccurred_setInst]
  rfl

/-- A breakpoint at an instruction patches its word. -/
lemma addBreakpoint_new (h : m.instAt addr ≠ some breakInst) (hne : m.instAt addr ≠ none) :
    ∃ m', (addBreakpoint tbl addr).run m = .ok () m' ∧
      m'.patched = m.patched.patch (some breakInst) addr := by
  have hw := Machine.InstWord.of_instAt hne
  obtain ⟨r, hr⟩ := Option.ne_none_iff_exists'.mp hne
  have hset := setBreakpoint_new tbl hw h
  have hinst := Machine.instAt_setInst (m := { m with exceptionOccurred := false }) hw
    (some breakInst)
  obtain ⟨t, k, hm'⟩ := Machine.setInst_eq { m with exceptionOccurred := false } addr
    (some breakInst)
  rw [hr, hm'] at hset
  rw [hm'] at hinst
  refine ⟨_, run_bind_of_ok hset, ?_⟩
  have htable : (m.patched.patch (some breakInst) addr).table =
      ((addr, r) :: m.bkpts).map fun b => (b.1, some b.2) := by
    rw [Patched.patch, List.map_cons, ← hr]
    rfl
  exact congrArg₂ Patched.mk hinst htable.symm

lemma addBreakpoint_again (hw : m.InstWord addr) (h : m.instAt addr = some breakInst) :
    (addBreakpoint tbl addr).run m = .ok () { m with exceptionOccurred := false } :=
  run_bind_of_ok (setBreakpoint_again tbl hw h)

lemma filter_patched (p : Word → Prop) [DecidablePred p] (bs : List (Word × InstRef)) :
    (bs.map fun b => (b.1, some b.2)).filter (fun b => p b.1) =
      (bs.filter fun b => p b.1).map fun b => (b.1, some b.2) := by
  rw [List.filter_map]
  rfl

/-- Without a record nothing is deleted. -/
lemma deleteBreakpoint_absent (h : ∀ b ∈ m.bkpts, b.1 ≠ addr) :
    (deleteBreakpoint tbl addr).run m = .ok () m := by
  have hno : m.bkpts.filter (fun b => b.1 = addr) = [] := by
    simpa [List.filter_eq_nil_iff] using h
  have hall : m.bkpts.filter (fun b => b.1 ≠ addr) = m.bkpts := by
    simpa [List.filter_eq_self] using h
  change (do
    restoreInsts tbl addr (m.bkpts.filter fun b => b.1 = addr)
    modify fun m => { m with bkpts := m.bkpts.filter fun b => b.1 ≠ addr } : Exec Unit).run m = _
  rw [hno]
  change EStateM.Result.ok () { m with bkpts := m.bkpts.filter fun b => b.1 ≠ addr } = _
  rw [hall]

/-- Deleting a breakpoint restores its word. -/
lemma deleteBreakpoint_instWord (hw : m.InstWord addr) :
    ∃ m', (deleteBreakpoint tbl addr).run m = .ok () m' ∧ m'.patched = m.patched.restore addr := by
  obtain ⟨t, k, hrun, hinst⟩ := restoreInsts_instWord tbl hw
    (m.bkpts.filter fun b => b.1 = addr) (by simp)
  refine ⟨_, run_bind_of_ok hrun, ?_⟩
  rw [← filter_patched (fun a => a = addr)] at hinst
  exact congrArg₂ Patched.mk hinst (filter_patched (fun a => a ≠ addr) m.bkpts).symm

end

/-! Runs. -/

inductive BreakpointCall
  | add (addr : Word)
  | delete (addr : Word)

namespace BreakpointCall

def exec (tbl : AOpcodeTbl) : BreakpointCall → Exec Unit
  | add addr => addBreakpoint tbl addr
  | delete addr => deleteBreakpoint tbl addr

/-- The call reports an error: set_breakpoint has no old instruction to return, or there is no
breakpoint to delete. -/
def Reports (tbl : AOpcodeTbl) (m : Machine) : BreakpointCall → Prop
  | add addr => ∃ m', (setBreakpoint tbl addr).run m = .ok none m'
  | delete addr => ∀ b ∈ m.bkpts, b.1 ≠ addr

/-- A breakpoint is added at an instruction. -/
def AtInstruction (m : Machine) : BreakpointCall → Prop
  | add addr => m.instAt addr ≠ none
  | delete _ => True

/-- A call that satisfies a condition. -/
def Step (tbl : AOpcodeTbl) (P : Machine → BreakpointCall → Prop) (m m' : Machine) : Prop :=
  ∃ c : BreakpointCall, P m c ∧ (c.exec tbl).run m = .ok () m'

/-- Deleting gives back what was there before the calls, and a call that reports an error leaves
everything but the exception flag as it is. -/
def Kept (tbl : AOpcodeTbl) (m₀ m : Machine) (c : BreakpointCall) : Prop :=
  ∃ m', (c.exec tbl).run m = .ok () m' ∧
    (∀ addr, c = delete addr → m'.instAt addr = m₀.instAt addr) ∧
    (c.Reports tbl m → ∃ e, m' = { m with exceptionOccurred := e })

end BreakpointCall

/-- In every run of calls that satisfy a condition, the table is that of the break instructions in
text, and the next call keeps what it has to. -/
def BreakpointsFaithful (tbl : AOpcodeTbl) (P : Machine → BreakpointCall → Prop) : Prop :=
  ∀ m₀ m : Machine, m₀.NoBreakpoints → ReflTransGen (BreakpointCall.Step tbl P) m₀ m →
    (∀ addr, m.instAt addr = some breakInst ↔ ∃ r, (addr, r) ∈ m.bkpts) ∧
    ∀ c, P m c → BreakpointCall.Kept tbl m₀ m c

section

variable (tbl : AOpcodeTbl) {m₀ m m' : Machine}

/-- The invariant of a run from `m₀`. -/
abbrev Machine.BreakpointsOk (m₀ m : Machine) : Prop :=
  m.patched.Ok (some breakInst) m₀.instAt

lemma Machine.NoBreakpoints.ok (h : m₀.NoBreakpoints) : m₀.BreakpointsOk m₀ := by
  unfold BreakpointsOk patched
  rw [h.1]
  exact .start h.2

/-- A record is of a word of text. -/
lemma Machine.BreakpointsOk.instWord (h : m₀.BreakpointsOk m) {b : Word × InstRef}
    (hb : b ∈ m.bkpts) : m.InstWord b.1 := by
  have hmark : m.instAt b.1 = some breakInst :=
    (h.entries (b.1, some b.2) (List.mem_map_of_mem hb)).2
  exact .of_instAt (by simp [hmark])

/-- What a call does in a faithful state. -/
lemma BreakpointCall.kept (h : m₀.BreakpointsOk m) (c : BreakpointCall) (hc : c.AtInstruction m) :
    ∃ m', (c.exec tbl).run m = .ok () m' ∧ m₀.BreakpointsOk m' ∧
      (∀ addr, c = delete addr → m'.instAt addr = m₀.instAt addr) ∧
      (c.Reports tbl m → ∃ e, m' = { m with exceptionOccurred := e }) := by
  cases c with
  | add addr =>
    have hw := Machine.InstWord.of_instAt hc
    by_cases hset : m.instAt addr = some breakInst
    · exact ⟨_, addBreakpoint_again tbl hw hset, h, by simp, fun _ => ⟨_, rfl⟩⟩
    · obtain ⟨m', hrun, hm'⟩ := addBreakpoint_new tbl hset hc
      refine ⟨m', hrun, ?_, by simp, ?_⟩
      · rw [Machine.BreakpointsOk, hm']
        exact h.patch hset
      · rintro ⟨t, ht⟩
        rw [setBreakpoint_new tbl hw hset] at ht
        exact absurd (EStateM.Result.ok.inj ht).1 hc
  | delete addr =>
    by_cases habs : ∀ b ∈ m.bkpts, b.1 ≠ addr
    · refine ⟨m, deleteBreakpoint_absent tbl habs, h, ?_, fun _ => ⟨_, rfl⟩⟩
      rintro _ ⟨rfl⟩
      refine h.others addr fun b hb => ?_
      obtain ⟨b', hb', rfl⟩ := List.mem_map.mp hb
      exact habs b' hb'
    · simp only [not_forall, not_not] at habs
      obtain ⟨b, hb, rfl⟩ := habs
      obtain ⟨m', hrun, hm'⟩ := deleteBreakpoint_instWord tbl (h.instWord hb)
      refine ⟨m', hrun, ?_, ?_, fun hr => absurd rfl (hr b hb)⟩
      · rw [Machine.BreakpointsOk, hm']
        exact h.restore b.1
      · rintro _ ⟨rfl⟩
        change m'.patched.cells b.1 = _
        rw [hm']
        exact h.restored b.1

lemma BreakpointCall.run_ok (h : m₀.BreakpointsOk m₀)
    (hrun : ReflTransGen (Step tbl fun m c => c.AtInstruction m) m₀ m) : m₀.BreakpointsOk m := by
  induction hrun with
  | refl => exact h
  | tail _ hs ih =>
    obtain ⟨c, hc, hx⟩ := hs
    obtain ⟨m', hx', hm', _⟩ := c.kept tbl ih hc
    rw [hx] at hx'
    cases hx'
    exact hm'

end

theorem breakpoints_faithful_at_instructions (tbl : AOpcodeTbl) :
    BreakpointsFaithful tbl fun m c => c.AtInstruction m := by
  intro m₀ m h₀ hrun
  have hok := BreakpointCall.run_ok tbl h₀.ok hrun
  constructor
  · intro addr
    rw [← m.mem_patched addr]
    exact hok.marked_iff addr
  · intro c hc
    obtain ⟨m', hx, _, hdel, hrep⟩ := c.kept tbl hok hc
    exact ⟨m', hx, hdel, hrep⟩

/-! Calls away from instructions. -/

/-- A word of text without an instruction. -/
def Machine.emptyText : Machine := { Machine.ofText [] with textTop := 0x400004 }

/-- A word of data. -/
def Machine.wordOfData : Machine :=
  { Machine.ofText [] with
    dataTop := 0x10000004
    dataSeg := fun _ => 1 }

lemma BreakpointsFaithful.mono {tbl : AOpcodeTbl} {P Q : Machine → BreakpointCall → Prop}
    (hPQ : ∀ m c, P m c → Q m c) (h : BreakpointsFaithful tbl Q) : BreakpointsFaithful tbl P := by
  intro m₀ m h₀ hrun
  have hrunQ : ReflTransGen (BreakpointCall.Step tbl Q) m₀ m :=
    hrun.lift id fun _ _ hs => hs.imp fun c hc => ⟨hPQ _ c hc.1, hc.2⟩
  exact (h m₀ m h₀ hrunQ).imp_right fun hk c hc => hk c (hPQ m c hc)

/-- An empty word of text gets the break instruction and no entry, and a word of data is overwritten
with the encoding field of the break instruction, which is 0. -/
theorem breakpoints_not_faithful :
    ¬ BreakpointsFaithful .first (fun _ _ => True) ∧
    ¬ BreakpointsFaithful .first (fun m c => ∀ a, c = .add a → m.InstWord a) ∧
    ¬ BreakpointsFaithful .first (fun m c => ∀ a, c = .add a → m.inData a) := by
  have hnone (m : Machine) (ht : m.textSeg = fun _ => none) (hk : m.kTextSeg = fun _ => none)
      (hb : m.bkpts = []) : m.NoBreakpoints := by
    refine ⟨hb, fun a => ?_⟩
    unfold Machine.instAt
    rw [ht, hk]
    split <;> simp
  have htext : ¬ BreakpointsFaithful .first (fun m c => ∀ a, c = .add a → m.InstWord a) := by
    intro h
    have hcall : ∀ a, BreakpointCall.add 0x400000 = .add a → Machine.emptyText.InstWord a := by
      rintro a ⟨rfl⟩
      exact ⟨.inl ⟨by decide, by decide⟩, by decide⟩
    have hstep : BreakpointCall.Step .first (fun m c => ∀ a, c = .add a → m.InstWord a)
        Machine.emptyText _ := ⟨.add 0x400000, hcall, rfl⟩
    have hentry := ((h Machine.emptyText _ (hnone _ rfl rfl rfl) (.single hstep)).1 0x400000).mp rfl
    obtain ⟨r, hr⟩ := hentry
    exact absurd hr List.not_mem_nil
  have hdata : ¬ BreakpointsFaithful .first (fun m c => ∀ a, c = .add a → m.inData a) := by
    intro h
    have hcall : ∀ a, BreakpointCall.add 0x10000000 = .add a → Machine.wordOfData.inData a := by
      rintro a ⟨rfl⟩
      exact ⟨by decide, by decide⟩
    obtain ⟨m', hrun, -, hkept⟩ :=
      (h Machine.wordOfData _ (hnone _ rfl rfl rfl) .refl).2 (.add 0x10000000) hcall
    obtain ⟨e, he⟩ := hkept ⟨_, rfl⟩
    have hseg : (final ((BreakpointCall.exec .first (.add 0x10000000)).run
        Machine.wordOfData)).dataSeg 0 = Machine.wordOfData.dataSeg 0 := by
      rw [hrun, he]
      rfl
    exact absurd hseg (by decide)
  exact ⟨fun h => htext (h.mono fun _ _ _ => trivial), htext, hdata⟩

end Spimulator
