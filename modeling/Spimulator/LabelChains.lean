import Spimulator.Instruction
import Spimulator.Library.LinkedChain
import Mathlib.Data.List.Perm.Subperm

/-! symbol-table.c with its pointers: the label records, the chains of the hash table through `next`
and the list of local labels through `next_local`. -/
namespace Spimulator
open LinkedChain

/-- The bytes of a C string. -/
abbrev CName := List Byte

def hashBits : ℕ := 30
def labelHashTableSize : ℕ := 8191

abbrev Slot := Fin labelHashTableSize

/-- What the operations print. -/
inductive SymbolMessage where
  | secondTime (name : CName)
  | localUndefined (name : CName)
  deriving DecidableEq

/-- The label records by field, and the static variables of symbol-table.c. -/
structure Symbols where
  name : LabelRef → CName
  addr : LabelRef → Word
  globalFlag : LabelRef → Bool
  gpFlag : LabelRef → Bool
  constFlag : LabelRef → Bool
  next : LabelRef → Option LabelRef
  nextLocal : LabelRef → Option LabelRef
  unused : LabelRef
  labelHashTable : Slot → Option LabelRef
  localLabels : Option LabelRef
  messages : List SymbolMessage

/-- The hash code of a name; a char is signed. -/
def hashCode (name : CName) : Word :=
  name.foldl (fun hi c => hi * 613 + c.signExtend 32) (BitVec.ofNat 32 name.length)

/-- The slot that get_hash finds for a name. -/
def slotOf (name : CName) : Slot :=
  ⟨(hashCode name &&& ((1 <<< hashBits) - 1)).toNat % labelHashTableSize,
    Nat.mod_lt _ (by decide)⟩

namespace Symbols


def initializeSymbolTable (t : Symbols) : Symbols :=
  { t with labelHashTable := fun _ => none, localLabels := none }

/-- The entry that get_hash finds for a name; `none` while the search goes on. -/
def getHash (n : ℕ) (t : Symbols) (name : CName) : Option (Option LabelRef) :=
  find (fun l => t.name l = name) t.next n (t.labelHashTable (slotOf name))

/-- A new record at the head of its chain. Its next_local is whatever the memory held. -/
def newEntry (t : Symbols) (name : CName) : Symbols :=
  { t with
    name := Function.update t.name t.unused name
    addr := Function.update t.addr t.unused 0
    globalFlag := Function.update t.globalFlag t.unused false
    gpFlag := Function.update t.gpFlag t.unused false
    constFlag := Function.update t.constFlag t.unused false
    next := Function.update t.next t.unused (t.labelHashTable (slotOf name))
    labelHashTable := Function.update t.labelHashTable (slotOf name) (some t.unused)
    unused := t.unused + 1 }

def lookupLabel (n : ℕ) (t : Symbols) (name : CName) : Option (LabelRef × Symbols) := do
  match ← t.getHash n name with
  | some l => some (l, t)
  | none => some (t.unused, t.newEntry name)

def say (t : Symbols) (m : SymbolMessage) : Symbols := { t with messages := m :: t.messages }

/-- The label becomes the first of the local labels. -/
def linkLocal (t : Symbols) (l : LabelRef) : Symbols :=
  if t.globalFlag l then t
  else { t with nextLocal := Function.update t.nextLocal l t.localLabels, localLabels := some l }

/-- record_label for the entry of the name. Resolving the label's uses is in SymbolTable.lean: it
changes none of these fields. -/
def recordEntry (t : Symbols) (l : LabelRef) (address : Word) : Symbols :=
  if t.gpFlag l then t.linkLocal l
  else if t.addr l ≠ 0 then t.say (.secondTime (t.name l))
  else { t with addr := Function.update t.addr l address }.linkLocal l

def recordLabel (n : ℕ) (t : Symbols) (name : CName) (address : Word) :
    Option (LabelRef × Symbols) := do
  let (l, t) ← t.lookupLabel n name
  some (l, t.recordEntry l address)

def makeLabelGlobal (n : ℕ) (t : Symbols) (name : CName) : Option (LabelRef × Symbols) := do
  let (l, t) ← t.lookupLabel n name
  some (l, { t with globalFlag := Function.update t.globalFlag l true })

def relinked (t : Symbols) (slot : Slot) (head : Option LabelRef)
    (next : LabelRef → Option LabelRef) : Symbols :=
  { t with labelHashTable := Function.update t.labelHashTable slot head, next := next }

/-- The warning of flush_local_labels for an entry that it takes out. -/
def warnUndefined (t : Symbols) (issueUndefWarnings : Bool) : Option LabelRef → Symbols
  | none => t
  | some entry =>
    if issueUndefWarnings ∧ t.addr entry = 0 ∧ ¬ t.constFlag entry then
      t.say (.localUndefined (t.name entry))
    else t

/-- The body of flush_local_labels for one label. -/
def flushLabel (n : ℕ) (issueUndefWarnings : Bool) (t : Symbols) (l : LabelRef) :
    Option Symbols := do
  let slot := slotOf (t.name l)
  let entry ← t.getHash n (t.name l)
  let (head, next) ← unlink (t.labelHashTable slot) t.next entry n none (t.labelHashTable slot)
  some ((t.relinked slot head next).warnUndefined issueUndefWarnings entry)

/-- The loop of flush_local_labels: `k` bounds the labels visited. -/
def flushFrom (n : ℕ) (issueUndefWarnings : Bool) : ℕ → Symbols → Option LabelRef → Option Symbols
  | _, t, none => some t
  | 0, _, some _ => none
  | k + 1, t, some l => do
    let t ← t.flushLabel n issueUndefWarnings l
    flushFrom n issueUndefWarnings k t (t.nextLocal l)

def flushLocalLabels (n : ℕ) (t : Symbols) (issueUndefWarnings : Bool) : Option Symbols := do
  let t ← flushFrom n issueUndefWarnings n t t.localLabels
  some { t with localLabels := none }

end Symbols

/-! Calls. -/

inductive SymbolCall where
  | lookupLabel (name : CName)
  | recordLabel (name : CName) (address : Word)
  | makeLabelGlobal (name : CName)
  | flushLocalLabels (issueUndefWarnings : Bool)

namespace Symbols

/-- A call whose loops visit at most `n` nodes each, with the label that it returns. -/
def call (n : ℕ) (t : Symbols) : SymbolCall → Option (Option LabelRef × Symbols)
  | .lookupLabel name => (t.lookupLabel n name).map (Prod.map some id)
  | .recordLabel name address => (t.recordLabel n name address).map (Prod.map some id)
  | .makeLabelGlobal name => (t.makeLabelGlobal n name).map (Prod.map some id)
  | .flushLocalLabels warn => (t.flushLocalLabels n warn).map (Prod.mk none)

/-- A sequence of calls. -/
def calls (n : ℕ) : Symbols → List SymbolCall → Option Symbols
  | t, [] => some t
  | t, c :: cs => do
    let (_, t) ← t.call n c
    calls n t cs

/-- The call ends, with this label and this table. -/
def Returns (t : Symbols) (c : SymbolCall) (l : Option LabelRef) (t' : Symbols) : Prop :=
  ∃ n, t.call n c = some (l, t')

/-- The calls end, with this table. -/
def Runs (t : Symbols) (cs : List SymbolCall) (t' : Symbols) : Prop := ∃ n, t.calls n cs = some t'

/-! A larger bound changes nothing. -/

section

variable {n m : ℕ} {t t' u u' : Symbols} {l l' : Option LabelRef} {c : SymbolCall}
  {cs ds : List SymbolCall}

lemma lookupLabel_mono {name : CName} {r : LabelRef × Symbols} (hnm : n ≤ m)
    (h : t.lookupLabel n name = some r) : t.lookupLabel m name = some r := by
  rw [lookupLabel, Option.bind_eq_bind, Option.bind_eq_some_iff] at h ⊢
  obtain ⟨e, he, h⟩ := h
  exact ⟨e, find_mono he hnm, h⟩

lemma flushLabel_mono {w : Bool} {l : LabelRef} (hnm : n ≤ m)
    (h : t.flushLabel n w l = some t') : t.flushLabel m w l = some t' := by
  simp only [flushLabel, Option.bind_eq_bind, Option.bind_eq_some_iff] at h ⊢
  obtain ⟨e, he, ⟨head, next⟩, hu, h⟩ := h
  exact ⟨e, find_mono he hnm, _, unlink_mono hu hnm, h⟩

lemma flushFrom_mono {w : Bool} {k k' : ℕ} (hnm : n ≤ m) (hk : k ≤ k')
    (h : flushFrom n w k t l = some t') : flushFrom m w k' t l = some t' := by
  induction k generalizing t l k' with
  | zero =>
    cases l with
    | none => cases k' <;> exact h
    | some l => simp [flushFrom] at h
  | succ k ih =>
    obtain ⟨k', rfl⟩ : ∃ j, k' = j + 1 := ⟨k' - 1, by omega⟩
    cases l with
    | none => exact h
    | some l =>
      simp only [flushFrom, Option.bind_eq_bind, Option.bind_eq_some_iff] at h ⊢
      obtain ⟨u, hu, h⟩ := h
      exact ⟨u, flushLabel_mono hnm hu, ih (by omega) h⟩

lemma call_mono {r : Option LabelRef × Symbols} (hnm : n ≤ m) (h : t.call n c = some r) :
    t.call m c = some r := by
  cases c with
  | lookupLabel name =>
    simp only [call, Option.map_eq_some_iff] at h ⊢
    obtain ⟨a, ha, h⟩ := h
    exact ⟨a, lookupLabel_mono hnm ha, h⟩
  | recordLabel name address =>
    simp only [call, recordLabel, Option.map_eq_some_iff, Option.bind_eq_bind,
      Option.bind_eq_some_iff] at h ⊢
    obtain ⟨a, ⟨b, hb, ha⟩, h⟩ := h
    exact ⟨a, ⟨b, lookupLabel_mono hnm hb, ha⟩, h⟩
  | makeLabelGlobal name =>
    simp only [call, makeLabelGlobal, Option.map_eq_some_iff, Option.bind_eq_bind,
      Option.bind_eq_some_iff] at h ⊢
    obtain ⟨a, ⟨b, hb, ha⟩, h⟩ := h
    exact ⟨a, ⟨b, lookupLabel_mono hnm hb, ha⟩, h⟩
  | flushLocalLabels w =>
    simp only [call, flushLocalLabels, Option.map_eq_some_iff, Option.bind_eq_bind,
      Option.bind_eq_some_iff] at h ⊢
    obtain ⟨a, ⟨b, hb, ha⟩, h⟩ := h
    exact ⟨a, ⟨b, flushFrom_mono hnm hnm hb, ha⟩, h⟩

lemma calls_mono (hnm : n ≤ m) (h : t.calls n cs = some t') : t.calls m cs = some t' := by
  induction cs generalizing t with
  | nil => exact h
  | cons c cs ih =>
    simp only [calls, Option.bind_eq_bind, Option.bind_eq_some_iff] at h ⊢
    obtain ⟨r, hr, h⟩ := h
    exact ⟨r, call_mono hnm hr, ih h⟩

theorem Returns.unique (h : t.Returns c l u) (h' : t.Returns c l' u') : l = l' ∧ u = u' := by
  obtain ⟨n, hn⟩ := h
  obtain ⟨m, hm⟩ := h'
  have heq := (call_mono (Nat.le_max_left n m) hn).symm.trans (call_mono (Nat.le_max_right n m) hm)
  simpa using heq

theorem Runs.unique (h : t.Runs cs u) (h' : t.Runs cs u') : u = u' := by
  obtain ⟨n, hn⟩ := h
  obtain ⟨m, hm⟩ := h'
  have heq :=
    (calls_mono (Nat.le_max_left n m) hn).symm.trans (calls_mono (Nat.le_max_right n m) hm)
  simpa using heq

theorem Runs.nil (t : Symbols) : t.Runs [] t := ⟨0, rfl⟩

theorem Runs.cons (h : t.Returns c l u) (h' : u.Runs cs t') : t.Runs (c :: cs) t' := by
  obtain ⟨n, hn⟩ := h
  obtain ⟨m, hm⟩ := h'
  refine ⟨max n m, ?_⟩
  simp only [calls, Option.bind_eq_bind, Option.bind_eq_some_iff]
  exact ⟨_, call_mono (Nat.le_max_left n m) hn, calls_mono (Nat.le_max_right n m) hm⟩

theorem Runs.snoc (h : t.Runs cs u) (h' : u.Returns c l t') : t.Runs (cs ++ [c]) t' := by
  obtain ⟨n, hn⟩ := h
  induction cs generalizing t with
  | nil =>
    cases hn
    exact Runs.cons h' (Runs.nil _)
  | cons d ds ih =>
    simp only [calls, Option.bind_eq_bind, Option.bind_eq_some_iff] at hn
    obtain ⟨r, hr, hn⟩ := hn
    exact Runs.cons ⟨n, hr⟩ (ih hn)

end

/-! The lists that the links make up. -/

/-- The chains of the hash table: every entry is in the slot of its name, with a name of its own. -/
structure Chains (t : Symbols) (chain : Slot → List LabelRef) : Prop where
  links : ∀ i, Links t.next (t.labelHashTable i) (chain i)
  names : ∀ i, ∀ l ∈ chain i, ∀ l' ∈ chain i, t.name l = t.name l' → l = l'
  slots : ∀ i, ∀ l ∈ chain i, slotOf (t.name l) = i
  used : ∀ i, ∀ l ∈ chain i, l < t.unused
  direct : ∀ i, ∀ l ∈ chain i, t.gpFlag l = false

/-- The local labels are entries of the table. -/
structure Shape (t : Symbols) (chain : Slot → List LabelRef) (locals : List LabelRef) : Prop
    extends Chains t chain where
  listed : Links t.nextLocal t.localLabels locals
  inTable : ∀ l ∈ locals, l ∈ chain (slotOf (t.name l))

/-- Only the chains and the messages differ. -/
structure SameRecords (t t' : Symbols) : Prop where
  name : t'.name = t.name
  addr : t'.addr = t.addr
  globalFlag : t'.globalFlag = t.globalFlag
  gpFlag : t'.gpFlag = t.gpFlag
  nextLocal : t'.nextLocal = t.nextLocal
  unused : t'.unused = t.unused

theorem SameRecords.trans {t t' t'' : Symbols} (h : SameRecords t t') (h' : SameRecords t' t'') :
    SameRecords t t'' :=
  ⟨h'.name.trans h.name, h'.addr.trans h.addr, h'.globalFlag.trans h.globalFlag,
    h'.gpFlag.trans h.gpFlag, h'.nextLocal.trans h.nextLocal, h'.unused.trans h.unused⟩

section

variable {n : ℕ} {t t' : Symbols} {chain : Slot → List LabelRef} {locals : List LabelRef}
  {l : LabelRef} {name : CName}

lemma length_le_of_lt {as : List ℕ} {m : ℕ} (hnd : as.Nodup) (h : ∀ a ∈ as, a < m) :
    as.length ≤ m := by
  have hsub : as ⊆ List.range m := fun a ha => List.mem_range.mpr (h a ha)
  simpa using (hnd.subperm hsub).length_le

theorem Chains.length_le (h : Chains t chain) (i : Slot) : (chain i).length ≤ t.unused :=
  length_le_of_lt (h.links i).nodup (h.used i)

theorem Shape.length_le (h : Shape t chain locals) : locals.length ≤ t.unused :=
  length_le_of_lt h.listed.nodup fun l hl => h.used _ l (h.inTable l hl)

theorem Chains.getHash_of_mem (h : Chains t chain) (hl : l ∈ chain (slotOf (t.name l)))
    (hn : t.unused ≤ n) : t.getHash n (t.name l) = some (some l) := by
  rw [getHash, (h.links _).find_eq (Nat.le_trans (h.length_le _) hn), Option.some_inj,
    List.find?_eq_some_iff_append]
  obtain ⟨as, bs, heq⟩ := List.append_of_mem hl
  refine ⟨by simp, as, bs, heq, fun a ha => ?_⟩
  have hal : a ≠ l := by
    rintro rfl
    have hnd := (h.links (slotOf (t.name a))).nodup
    rw [heq] at hnd
    exact (List.nodup_append.mp hnd).2.2 a ha a (by simp) rfl
  have hne : t.name a ≠ t.name l := fun hname =>
    hal (h.names _ a (by simp [heq, ha]) l hl hname)
  simp [hne]

theorem Chains.getHash_of_new (h : Chains t chain)
    (hnew : ∀ l ∈ chain (slotOf name), t.name l ≠ name) (hn : t.unused ≤ n) :
    t.getHash n name = some none := by
  rw [getHash, (h.links _).find_eq (Nat.le_trans (h.length_le _) hn), Option.some_inj,
    List.find?_eq_none]
  intro l hl
  simpa using hnew l hl

theorem Chains.lookupLabel_of_mem (h : Chains t chain) (hl : l ∈ chain (slotOf (t.name l)))
    (hn : t.unused ≤ n) : t.lookupLabel n (t.name l) = some (l, t) := by
  simp [lookupLabel, h.getHash_of_mem hl hn]

theorem Chains.lookupLabel_of_new (h : Chains t chain)
    (hnew : ∀ l ∈ chain (slotOf name), t.name l ≠ name) (hn : t.unused ≤ n) :
    t.lookupLabel n name = some (t.unused, t.newEntry name) := by
  simp [lookupLabel, h.getHash_of_new hnew hn]

/-- The chains with a new entry. -/
def withEntry (t : Symbols) (chain : Slot → List LabelRef) (name : CName) :
    Slot → List LabelRef :=
  Function.update chain (slotOf name) (t.unused :: chain (slotOf name))

lemma mem_withEntry {i : Slot} :
    l ∈ t.withEntry chain name i ↔ l ∈ chain i ∨ (l = t.unused ∧ i = slotOf name) := by
  rw [withEntry]
  by_cases hi : i = slotOf name
  · subst hi
    simp [or_comm]
  · simp [hi]

lemma newEntry_name (hl : l < t.unused) : (t.newEntry name).name l = t.name l :=
  Function.update_of_ne (Nat.ne_of_lt hl) ..

lemma newEntry_name_unused : (t.newEntry name).name t.unused = name := Function.update_self ..

theorem Shape.newEntry (h : Shape t chain locals)
    (hnew : ∀ l ∈ chain (slotOf name), t.name l ≠ name) :
    Shape (t.newEntry name) (t.withEntry chain name) locals where
  links i := by
    have hne : ∀ j, ∀ a ∈ chain j, a ≠ t.unused := fun j a ha => Nat.ne_of_lt (h.used j a ha)
    by_cases hi : i = slotOf name
    · subst hi
      simp only [Symbols.newEntry, withEntry, Function.update_self]
      exact (h.links _).push fun hmem => hne _ _ hmem rfl
    · simp only [Symbols.newEntry, withEntry, Function.update_of_ne hi]
      exact (h.links i).congr fun a ha => Function.update_of_ne (hne i a ha) ..
  names i a ha b hb hab := by
    rcases mem_withEntry.mp ha with ha | ⟨rfl, rfl⟩ <;> rcases mem_withEntry.mp hb with hb | ⟨rfl, hi⟩
    · rw [newEntry_name (h.used i a ha), newEntry_name (h.used i b hb)] at hab
      exact h.names i a ha b hb hab
    · subst hi
      rw [newEntry_name (h.used _ a ha), newEntry_name_unused] at hab
      exact absurd hab (hnew a ha)
    · rw [newEntry_name (h.used _ b hb), newEntry_name_unused] at hab
      exact absurd hab.symm (hnew b hb)
    · rfl
  slots i a ha := by
    rcases mem_withEntry.mp ha with ha | ⟨rfl, rfl⟩
    · rw [newEntry_name (h.used i a ha)]
      exact h.slots i a ha
    · rw [newEntry_name_unused]
  used i a ha := by
    rcases mem_withEntry.mp ha with ha | ⟨rfl, rfl⟩
    · exact Nat.lt_succ_of_lt (h.used i a ha)
    · exact Nat.lt_succ_self _
  direct i a ha := by
    rcases mem_withEntry.mp ha with ha | ⟨rfl, rfl⟩
    · exact (Function.update_of_ne (Nat.ne_of_lt (h.used i a ha)) ..).trans (h.direct i a ha)
    · exact Function.update_self ..
  listed := h.listed
  inTable a ha := by
    have hmem := h.inTable a ha
    rw [newEntry_name (h.used _ a hmem)]
    exact mem_withEntry.mpr (.inl hmem)

/-- The table only depends on the chains' names and links. -/
theorem Shape.same (h : Shape t chain locals) (t' : Symbols) (hname : t'.name = t.name)
    (hgp : t'.gpFlag = t.gpFlag) (hnext : t'.next = t.next) (hunused : t'.unused = t.unused)
    (htable : t'.labelHashTable = t.labelHashTable) {locals' : List LabelRef}
    (hlisted : Links t'.nextLocal t'.localLabels locals')
    (hin : ∀ l ∈ locals', l ∈ chain (slotOf (t.name l))) : Shape t' chain locals' where
  links i := by
    rw [hnext, htable]
    exact h.links i
  names i := by
    rw [hname]
    exact h.names i
  slots i := by
    rw [hname]
    exact h.slots i
  used i := by
    rw [hunused]
    exact h.used i
  direct i := by
    rw [hgp]
    exact h.direct i
  listed := hlisted
  inTable := by
    rw [hname]
    exact hin

/-- The label is recorded a second time, at address 0 before, while it is a local label. -/
def Repeats (t : Symbols) (locals : List LabelRef) (l : LabelRef) : Prop :=
  t.addr l = 0 ∧ t.globalFlag l = false ∧ l ∈ locals

theorem Shape.recordEntry (h : Shape t chain locals) (hl : l ∈ chain (slotOf (t.name l)))
    (hno : ¬ t.Repeats locals l) (address : Word) :
    ∃ locals', Shape (t.recordEntry l address) chain locals' := by
  rw [Symbols.recordEntry, if_neg (by rw [h.direct _ l hl]; decide)]
  by_cases haddr : t.addr l = 0
  · rw [if_neg (by simpa using haddr), linkLocal]
    by_cases hg : t.globalFlag l = true
    · rw [if_pos hg]
      exact ⟨locals, h.same { t with addr := Function.update t.addr l address }
        rfl rfl rfl rfl rfl h.listed h.inTable⟩
    · have hmem : l ∉ locals := fun hmem => hno ⟨haddr, by simpa using hg, hmem⟩
      rw [if_neg hg]
      exact ⟨l :: locals, h.same
        { t with
          addr := Function.update t.addr l address
          nextLocal := Function.update t.nextLocal l t.localLabels
          localLabels := some l }
        rfl rfl rfl rfl rfl (h.listed.push hmem) (List.forall_mem_cons.mpr ⟨hl, h.inTable⟩)⟩
  · rw [if_pos haddr]
    exact ⟨locals, h.same (t.say (.secondTime (t.name l))) rfl rfl rfl rfl rfl h.listed h.inTable⟩

/-- The second time makes the list of local labels endless. -/
theorem Shape.recordEntry_repeats (h : Shape t chain locals) (hl : l ∈ chain (slotOf (t.name l)))
    (hrep : t.Repeats locals l) (address : Word) (as : List LabelRef) :
    ¬ Links (t.recordEntry l address).nextLocal (t.recordEntry l address).localLabels as := by
  rw [Symbols.recordEntry, if_neg (by rw [h.direct _ l hl]; decide),
    if_neg (by simpa using hrep.1), linkLocal, if_neg (by simpa using hrep.2.1)]
  exact h.listed.push_mem hrep.2.2 as

theorem Shape.makeGlobal (h : Shape t chain locals) (l : LabelRef) :
    Shape { t with globalFlag := Function.update t.globalFlag l true } chain locals :=
  h.same { t with globalFlag := Function.update t.globalFlag l true } rfl rfl rfl rfl rfl h.listed
    h.inTable

end

/-! Flushing. -/

section

variable {n : ℕ} {t t' : Symbols} {chain : Slot → List LabelRef} {locals : List LabelRef}
  {l : LabelRef} {w : Bool}

lemma warnUndefined_eq (t : Symbols) (w : Bool) (e : Option LabelRef) :
    ∃ ms, t.warnUndefined w e = { t with messages := ms } := by
  cases e with
  | none => exact ⟨t.messages, rfl⟩
  | some e =>
    rw [warnUndefined]
    split_ifs
    · exact ⟨_, rfl⟩
    · exact ⟨t.messages, rfl⟩

/-- The chains without the labels of a list. -/
def without (chain : Slot → List LabelRef) (ls : List LabelRef) : Slot → List LabelRef :=
  fun i => (chain i).filter (· ∉ ls)

lemma mem_without {ls : List LabelRef} {i : Slot} :
    l ∈ without chain ls i ↔ l ∈ chain i ∧ l ∉ ls := by
  simp [without]

theorem Chains.flushLabel (h : Chains t chain) (hl : l ∈ chain (slotOf (t.name l)))
    (hn : t.unused ≤ n) (w : Bool) :
    ∃ t', t.flushLabel n w l = some t' ∧ Chains t' (without chain [l]) ∧ SameRecords t t' := by
  obtain ⟨head, next, hu, hlinks, hother⟩ :=
    (h.links _).unlink_mem hl (Nat.le_trans (h.length_le _) hn)
  obtain ⟨ms, hms⟩ := warnUndefined_eq (t.relinked (slotOf (t.name l)) head next) w (some l)
  have hwithout (i : Slot) : ∀ a ∈ without chain [l] i, a ∈ chain i :=
    fun a ha => (mem_without.mp ha).1
  refine ⟨(t.relinked (slotOf (t.name l)) head next).warnUndefined w (some l), ?_, ?_, ?_⟩
  · simp [Symbols.flushLabel, h.getHash_of_mem hl hn, hu]
  · rw [hms]
    refine ⟨fun i => ?_, fun i a ha b hb => h.names i a (hwithout i a ha) b (hwithout i b hb),
      fun i a ha => h.slots i a (hwithout i a ha), fun i a ha => h.used i a (hwithout i a ha),
      fun i a ha => h.direct i a (hwithout i a ha)⟩
    by_cases hi : i = slotOf (t.name l)
    · subst hi
      have heq : without chain [l] (slotOf (t.name l)) = (chain (slotOf (t.name l))).erase l := by
        rw [(h.links _).nodup.erase_eq_filter, without]
        congr 1
        funext a
        by_cases ha : a = l <;> simp [ha]
      rw [heq]
      simpa [relinked] using hlinks
    · have hli : ∀ a ∈ chain i, a ≠ l := by
        rintro a ha rfl
        exact hi (h.slots i a ha).symm
      have heq : without chain [l] i = chain i :=
        List.filter_eq_self.mpr fun a ha => by simpa using hli a ha
      rw [heq]
      simp only [relinked, Function.update_of_ne hi]
      refine (h.links i).congr fun a ha => hother a fun hmem => ?_
      exact hi ((h.slots i a ha).symm.trans (h.slots _ a hmem))
  · rw [hms]
    exact ⟨rfl, rfl, rfl, rfl, rfl, rfl⟩

lemma without_cons (ls : List LabelRef) :
    without (without chain [l]) ls = without chain (l :: ls) := by
  funext i
  simp only [without, List.filter_filter, List.mem_cons, List.not_mem_nil, or_false, not_or]
  congr 1
  funext a
  simp [Bool.and_comm]

/-- The loop takes out the labels of the list, and ends. -/
theorem Chains.flushFrom {ls : List LabelRef} {k : ℕ} {e : Option LabelRef} (h : Chains t chain)
    (hls : Links t.nextLocal e ls) (hin : ∀ l ∈ ls, l ∈ chain (slotOf (t.name l)))
    (hk : ls.length ≤ k) (hn : t.unused ≤ n) (w : Bool) :
    ∃ t', Symbols.flushFrom n w k t e = some t' ∧ Chains t' (without chain ls) ∧
      SameRecords t t' := by
  induction ls generalizing t chain e k with
  | nil =>
    rw [links_nil.mp hls]
    refine ⟨t, by cases k <;> rfl, ?_, ⟨rfl, rfl, rfl, rfl, rfl, rfl⟩⟩
    have heq : without chain [] = chain := by
      funext i
      simp [without]
    rwa [heq]
  | cons l ls ih =>
    have hnd := List.nodup_cons.mp hls.nodup
    obtain ⟨rfl, hls⟩ := hls
    obtain ⟨k, rfl⟩ : ∃ m, k = m + 1 := ⟨k - 1, by simp only [List.length_cons] at hk; omega⟩
    rw [List.forall_mem_cons] at hin
    obtain ⟨u, hu, hc, hsame⟩ := h.flushLabel hin.1 hn w
    have hls' : Links u.nextLocal (u.nextLocal l) ls := by
      rw [hsame.nextLocal]
      exact hls
    have hin' : ∀ a ∈ ls, a ∈ without chain [l] (slotOf (u.name a)) := by
      intro a ha
      rw [hsame.name, mem_without, List.mem_singleton]
      refine ⟨hin.2 a ha, ?_⟩
      rintro rfl
      exact hnd.1 ha
    have hn' : u.unused ≤ n := by
      rw [hsame.unused]
      exact hn
    obtain ⟨t', ht', hc', hsame'⟩ := ih hc hls' hin' (by simpa using hk) hn'
    rw [without_cons] at hc'
    refine ⟨t', ?_, hc', hsame.trans hsame'⟩
    simp only [Symbols.flushFrom, hu, Option.bind_eq_bind, Option.bind_some]
    exact ht'

/-- flush_local_labels ends, and takes out the local labels. -/
theorem Shape.flush (h : Shape t chain locals) (w : Bool) :
    ∃ t', t.Returns (.flushLocalLabels w) none t' ∧ Shape t' (without chain locals) [] ∧
      t'.name = t.name := by
  obtain ⟨u, hu, hc, hsame⟩ :=
    h.toChains.flushFrom h.listed h.inTable h.length_le (Nat.le_refl t.unused) w
  refine ⟨{ u with localLabels := none }, ⟨t.unused, ?_⟩, ⟨?_, rfl, by simp⟩, hsame.name⟩
  · simp [call, flushLocalLabels, hu]
  · exact ⟨hc.links, hc.names, hc.slots, hc.used, hc.direct⟩

end

/-! Runs. -/

/-- The node is on the chain of a slot. -/
def InSlot (t : Symbols) (i : Slot) (l : LabelRef) : Prop :=
  ∃ as, Links t.next (t.labelHashTable i) as ∧ l ∈ as

def InTable (t : Symbols) (l : LabelRef) : Prop := ∃ i, t.InSlot i l

/-- The node is on the list of local labels. -/
def IsLocal (t : Symbols) (l : LabelRef) : Prop :=
  ∃ as, Links t.nextLocal t.localLabels as ∧ l ∈ as

/-- The two kinds of lists end; a name has one node, in the slot of its hash code; a local label is
in the table, and on the list once. -/
structure Represented (t : Symbols) : Prop where
  ends : ∀ i, ∃ as, Links t.next (t.labelHashTable i) as
  slot : ∀ i l, t.InSlot i l → i = slotOf (t.name l)
  unique : ∀ l l', t.InTable l → t.InTable l' → t.name l = t.name l' → l = l'
  locals : ∃ as, Links t.nextLocal t.localLabels as ∧ as.Nodup ∧ ∀ l ∈ as, t.InTable l

/-- What the calls do in a state: all of them end; the node of a name that is in the table is the
one returned; a flush takes out the local labels and no others, the other calls none. -/
structure Serves (t : Symbols) : Prop where
  returns : ∀ c, ∃ l t', t.Returns c l t'
  found : ∀ l, t.InTable l → t.Returns (.lookupLabel (t.name l)) (some l) t
  looked : ∀ name l t', t.Returns (.lookupLabel name) (some l) t' → t'.InTable l ∧ t'.name l = name
  flush : ∀ w l t', t.Returns (.flushLocalLabels w) l t' →
    t'.localLabels = none ∧ ∀ a, t'.InTable a ↔ t.InTable a ∧ ¬ t.IsLocal a
  keeps : ∀ c l t', t.Returns c l t' → (∀ w, c ≠ .flushLocalLabels w) →
    ∀ a, t.InTable a → t'.InTable a
  names : ∀ c l t', t.Returns c l t' → ∀ a, t.InTable a → t'.name a = t.name a

/-- The call does not record, for a second time, a local label that has the address 0. -/
def Once (t : Symbols) (c : SymbolCall) : Prop :=
  ∀ l address, c = .recordLabel (t.name l) address → t.InTable l →
    ¬ (t.addr l = 0 ∧ t.globalFlag l = false ∧ t.IsLocal l)

section

variable {t t' t'' : Symbols} {chain : Slot → List LabelRef} {locals : List LabelRef}
  {l : LabelRef} {name : CName}

theorem Chains.inSlot_iff (h : Chains t chain) {i : Slot} : t.InSlot i l ↔ l ∈ chain i := by
  constructor
  · rintro ⟨as, has, hl⟩
    rwa [(h.links i).unique has]
  · exact fun hl => ⟨chain i, h.links i, hl⟩

theorem Chains.inTable_iff (h : Chains t chain) :
    t.InTable l ↔ l ∈ chain (slotOf (t.name l)) := by
  constructor
  · rintro ⟨i, hi⟩
    have hl := h.inSlot_iff.mp hi
    rwa [h.slots i l hl]
  · exact fun hl => ⟨_, h.inSlot_iff.mpr hl⟩

theorem Shape.isLocal_iff (h : Shape t chain locals) : t.IsLocal l ↔ l ∈ locals := by
  constructor
  · rintro ⟨as, has, hl⟩
    rwa [h.listed.unique has]
  · exact fun hl => ⟨locals, h.listed, hl⟩

theorem Shape.represented (h : Shape t chain locals) : t.Represented where
  ends i := ⟨chain i, h.links i⟩
  slot i l hl := (h.slots i l (h.inSlot_iff.mp hl)).symm
  unique l l' hl hl' hname := by
    rw [h.inTable_iff] at hl hl'
    rw [hname] at hl
    exact h.names _ l hl l' hl' hname
  locals := ⟨locals, h.listed, h.listed.nodup, fun l hl => h.inTable_iff.mpr (h.inTable l hl)⟩

theorem Shape.start (t : Symbols) : Shape t.initializeSymbolTable (fun _ => []) [] where
  links _ := rfl
  names := by simp
  slots := by simp
  used := by simp
  direct := by simp
  listed := rfl
  inTable := by simp

/-- What lookup_label returns: the entry of the name, or a new one. -/
theorem Shape.lookup (h : Shape t chain locals) (name : CName) :
    ∃ l u chain', t.lookupLabel t.unused name = some (l, u) ∧ Shape u chain' locals ∧
      l ∈ chain' (slotOf name) ∧ u.name l = name ∧ (u = t ∧ chain' = chain ∨
        l ∉ locals ∧ (∀ i a, a ∈ chain i → a ∈ chain' i ∧ u.name a = t.name a)) := by
  by_cases hex : ∃ l ∈ chain (slotOf name), t.name l = name
  · obtain ⟨l, hl, rfl⟩ := hex
    exact ⟨l, t, chain, h.lookupLabel_of_mem hl (Nat.le_refl _), h, hl, rfl, .inl ⟨rfl, rfl⟩⟩
  · have hnew : ∀ l ∈ chain (slotOf name), t.name l ≠ name := fun l hl hname => hex ⟨l, hl, hname⟩
    refine ⟨t.unused, t.newEntry name, t.withEntry chain name,
      h.lookupLabel_of_new hnew (Nat.le_refl _), h.newEntry hnew,
      mem_withEntry.mpr (.inr ⟨rfl, rfl⟩), newEntry_name_unused, .inr ⟨fun hmem => ?_, ?_⟩⟩
    · exact Nat.lt_irrefl _ (h.used _ _ (h.inTable _ hmem))
    · exact fun i a ha => ⟨mem_withEntry.mpr (.inl ha), newEntry_name (h.used i a ha)⟩

lemma linkLocal_same (t : Symbols) (l : LabelRef) :
    (t.linkLocal l).next = t.next ∧ (t.linkLocal l).labelHashTable = t.labelHashTable ∧
      (t.linkLocal l).name = t.name := by
  rw [linkLocal]
  split_ifs <;> exact ⟨rfl, rfl, rfl⟩

lemma recordEntry_same (t : Symbols) (l : LabelRef) (address : Word) :
    (t.recordEntry l address).next = t.next ∧
      (t.recordEntry l address).labelHashTable = t.labelHashTable ∧
      (t.recordEntry l address).name = t.name := by
  rw [recordEntry]
  split_ifs
  · exact linkLocal_same t l
  · exact ⟨rfl, rfl, rfl⟩
  · exact linkLocal_same _ l

lemma inTable_congr (hnext : t'.next = t.next) (htable : t'.labelHashTable = t.labelHashTable) :
    t'.InTable l ↔ t.InTable l := by
  simp only [InTable, InSlot, hnext, htable]

theorem Returns.of_lookup {u : Symbols} (h : t.lookupLabel t.unused name = some (l, u)) :
    t.Returns (.lookupLabel name) (some l) u ∧
      (∀ address, t.Returns (.recordLabel name address) (some l) (u.recordEntry l address)) ∧
      t.Returns (.makeLabelGlobal name) (some l)
        { u with globalFlag := Function.update u.globalFlag l true } :=
  ⟨⟨t.unused, by simp [call, h]⟩, fun _ => ⟨t.unused, by simp [call, recordLabel, h]⟩,
    ⟨t.unused, by simp [call, makeLabelGlobal, h]⟩⟩

theorem Shape.returns (h : Shape t chain locals) (c : SymbolCall) : ∃ l t', t.Returns c l t' := by
  cases c with
  | lookupLabel name =>
    obtain ⟨l, u, _, hu, -⟩ := h.lookup name
    exact ⟨_, _, (Returns.of_lookup hu).1⟩
  | recordLabel name address =>
    obtain ⟨l, u, _, hu, -⟩ := h.lookup name
    exact ⟨_, _, (Returns.of_lookup hu).2.1 address⟩
  | makeLabelGlobal name =>
    obtain ⟨l, u, _, hu, -⟩ := h.lookup name
    exact ⟨_, _, (Returns.of_lookup hu).2.2⟩
  | flushLocalLabels w =>
    obtain ⟨u, hu, -⟩ := h.flush w
    exact ⟨_, _, hu⟩

/-- A call keeps the lists, unless it records a local label again. -/
theorem Shape.step (h : Shape t chain locals) {c : SymbolCall} (hc : t.Once c)
    {r : Option LabelRef} (hr : t.Returns c r t') :
    ∃ chain' locals', Shape t' chain' locals' := by
  cases c with
  | lookupLabel name =>
    obtain ⟨l, u, chain', hu, hs, -⟩ := h.lookup name
    obtain ⟨-, rfl⟩ := hr.unique (Returns.of_lookup hu).1
    exact ⟨_, _, hs⟩
  | recordLabel name address =>
    obtain ⟨l, u, chain', hu, hs, hl, rfl, hcase⟩ := h.lookup name
    obtain ⟨-, rfl⟩ := hr.unique ((Returns.of_lookup hu).2.1 address)
    have hno : ¬ u.Repeats locals l := by
      rintro ⟨haddr, hg, hmem⟩
      rcases hcase with ⟨rfl, rfl⟩ | ⟨hnew, -⟩
      · exact hc l address rfl (h.inTable_iff.mpr hl) ⟨haddr, hg, h.isLocal_iff.mpr hmem⟩
      · exact hnew hmem
    obtain ⟨locals', hs'⟩ := hs.recordEntry hl hno address
    exact ⟨_, _, hs'⟩
  | makeLabelGlobal name =>
    obtain ⟨l, u, chain', hu, hs, -⟩ := h.lookup name
    obtain ⟨-, rfl⟩ := hr.unique (Returns.of_lookup hu).2.2
    exact ⟨_, _, hs.makeGlobal l⟩
  | flushLocalLabels w =>
    obtain ⟨u, hu, hs, -⟩ := h.flush w
    obtain ⟨-, rfl⟩ := hr.unique hu
    exact ⟨_, _, hs⟩

/-- Recording a local label again leaves a list that does not end. -/
theorem Shape.step_again (h : Shape t chain locals) {c : SymbolCall} (hc : ¬ t.Once c)
    {r : Option LabelRef} (hr : t.Returns c r t') : ¬ t'.Represented := by
  simp only [Once, not_forall, not_not] at hc
  obtain ⟨l, address, rfl, hin, haddr, hg, hlocal⟩ := hc
  have hl := h.inTable_iff.mp hin
  have hlook := h.lookupLabel_of_mem hl (Nat.le_refl t.unused)
  obtain ⟨-, rfl⟩ := hr.unique ((Returns.of_lookup hlook).2.1 address)
  rintro ⟨-, -, -, as, has, -⟩
  exact h.recordEntry_repeats hl ⟨haddr, hg, h.isLocal_iff.mp hlocal⟩ address as has

theorem Shape.lookup_keeps (h : Shape t chain locals) {u : Symbols} {r : LabelRef}
    (hu : t.lookupLabel t.unused name = some (r, u)) (hl : t.InTable l) :
    u.InTable l ∧ u.name l = t.name l := by
  obtain ⟨r', u', chain', hu', hs, -, -, hcase⟩ := h.lookup name
  obtain ⟨-, rfl⟩ : r = r' ∧ u = u' := by simpa using hu.symm.trans hu'
  rcases hcase with ⟨rfl, -⟩ | ⟨-, hkeep⟩
  · exact ⟨hl, rfl⟩
  · obtain ⟨hmem, hname⟩ := hkeep _ l (h.inTable_iff.mp hl)
    refine ⟨hs.inTable_iff.mpr ?_, hname⟩
    rwa [hname]

theorem Shape.serves (h : Shape t chain locals) : t.Serves where
  returns := h.returns
  found l hl := by
    have hlook := h.lookupLabel_of_mem (h.inTable_iff.mp hl) (Nat.le_refl t.unused)
    exact (Returns.of_lookup hlook).1
  looked name l t' hr := by
    obtain ⟨r, u, chain', hu, hs, hl, hname, -⟩ := h.lookup name
    obtain ⟨hrl, rfl⟩ := hr.unique (Returns.of_lookup hu).1
    cases hrl
    subst hname
    exact ⟨hs.inTable_iff.mpr hl, rfl⟩
  flush w l t' hr := by
    obtain ⟨u, hu, hs, hname⟩ := h.flush w
    obtain ⟨-, rfl⟩ := hr.unique hu
    refine ⟨hs.listed, fun a => ?_⟩
    rw [hs.inTable_iff, h.inTable_iff, h.isLocal_iff, hname, mem_without]
  keeps c l t' hr hc a ha := by
    cases c with
    | lookupLabel name =>
      obtain ⟨r, u, _, hu, -⟩ := h.lookup name
      obtain ⟨-, rfl⟩ := hr.unique (Returns.of_lookup hu).1
      exact (h.lookup_keeps hu ha).1
    | recordLabel name address =>
      obtain ⟨r, u, _, hu, -⟩ := h.lookup name
      obtain ⟨-, rfl⟩ := hr.unique ((Returns.of_lookup hu).2.1 address)
      obtain ⟨hnext, htable, -⟩ := recordEntry_same u r address
      exact (inTable_congr hnext htable).mpr (h.lookup_keeps hu ha).1
    | makeLabelGlobal name =>
      obtain ⟨r, u, _, hu, -⟩ := h.lookup name
      obtain ⟨-, rfl⟩ := hr.unique (Returns.of_lookup hu).2.2
      exact (h.lookup_keeps hu ha).1
    | flushLocalLabels w => exact absurd rfl (hc w)
  names c l t' hr a ha := by
    cases c with
    | lookupLabel name =>
      obtain ⟨r, u, _, hu, -⟩ := h.lookup name
      obtain ⟨-, rfl⟩ := hr.unique (Returns.of_lookup hu).1
      exact (h.lookup_keeps hu ha).2
    | recordLabel name address =>
      obtain ⟨r, u, _, hu, -⟩ := h.lookup name
      obtain ⟨-, rfl⟩ := hr.unique ((Returns.of_lookup hu).2.1 address)
      rw [(recordEntry_same u r address).2.2]
      exact (h.lookup_keeps hu ha).2
    | makeLabelGlobal name =>
      obtain ⟨r, u, _, hu, -⟩ := h.lookup name
      obtain ⟨-, rfl⟩ := hr.unique (Returns.of_lookup hu).2.2
      exact (h.lookup_keeps hu ha).2
    | flushLocalLabels w =>
      obtain ⟨u, hu, -, hname⟩ := h.flush w
      obtain ⟨-, rfl⟩ := hr.unique hu
      rw [hname]

/-- Every call of the sequence is made in a state in which it does not record a local label of
address 0 for a second time. -/
def OnceEach (t : Symbols) : List SymbolCall → Prop
  | [] => True
  | c :: cs => t.Once c ∧ ∀ l t', t.Returns c l t' → t'.OnceEach cs

/-- Every state that the calls reach is well represented and serves the next call; in particular
every call ends. -/
def SoundEach (t : Symbols) : List SymbolCall → Prop
  | [] => t.Represented ∧ t.Serves
  | c :: cs => (t.Represented ∧ t.Serves) ∧ ∃ l t', t.Returns c l t' ∧ t'.SoundEach cs

lemma SoundEach.represented {cs : List SymbolCall} (h : t.SoundEach cs) : t.Represented := by
  cases cs with
  | nil => exact h.1
  | cons c cs => exact h.1.1

theorem Shape.soundEach_iff (h : Shape t chain locals) (cs : List SymbolCall) :
    t.SoundEach cs ↔ t.OnceEach cs := by
  induction cs generalizing t chain locals with
  | nil => exact ⟨fun _ => trivial, fun _ => ⟨h.represented, h.serves⟩⟩
  | cons c cs ih =>
    constructor
    · rintro ⟨-, l, u, hu, hsound⟩
      have hc : t.Once c := by
        by_contra hc
        exact h.step_again hc hu hsound.represented
      refine ⟨hc, fun r t' hr => ?_⟩
      obtain ⟨-, rfl⟩ := hr.unique hu
      obtain ⟨chain', locals', hs⟩ := h.step hc hr
      exact (ih hs).mp hsound
    · rintro ⟨hc, honce⟩
      obtain ⟨l, u, hu⟩ := h.returns c
      obtain ⟨chain', locals', hs⟩ := h.step hc hu
      exact ⟨⟨h.represented, h.serves⟩, l, u, hu, (ih hs).mpr (honce l u hu)⟩

lemma flushFrom_ends {n k : ℕ} {w : Bool} {e : Option LabelRef}
    (h : flushFrom n w k t e = some t') : ∃ as, Links t.nextLocal e as := by
  induction k generalizing t e with
  | zero =>
    cases e with
    | none => exact ⟨[], rfl⟩
    | some l => simp [flushFrom] at h
  | succ k ih =>
    cases e with
    | none => exact ⟨[], rfl⟩
    | some l =>
      simp only [flushFrom, Option.bind_eq_bind, Option.bind_eq_some_iff] at h
      obtain ⟨u, hu, h⟩ := h
      simp only [flushLabel, Option.bind_eq_bind, Option.bind_eq_some_iff, Option.some_inj] at hu
      obtain ⟨entry, -, ⟨head, next⟩, -, rfl⟩ := hu
      obtain ⟨ms, hms⟩ := warnUndefined_eq (t.relinked (slotOf (t.name l)) head next) w entry
      rw [hms] at h
      obtain ⟨as, has⟩ := ih h
      exact ⟨l :: as, rfl, has⟩

/-- A flush ends only where the list of local labels does. -/
theorem Returns.flush_ends {w : Bool} {r : Option LabelRef}
    (h : t.Returns (.flushLocalLabels w) r t') : ∃ as, Links t.nextLocal t.localLabels as := by
  obtain ⟨n, hn⟩ := h
  simp only [call, flushLocalLabels, Option.map_eq_some_iff, Option.bind_eq_bind,
    Option.bind_eq_some_iff] at hn
  obtain ⟨_, ⟨u, hu, -⟩, -⟩ := hn
  exact flushFrom_ends hu

end

/-- The table is well represented along a sequence of calls, and every call of it ends and does
what it should, exactly when no call records a local label of address 0 for a second time. -/
theorem calls_sound_iff (t : Symbols) (cs : List SymbolCall) :
    t.initializeSymbolTable.SoundEach cs ↔ t.initializeSymbolTable.OnceEach cs :=
  (Shape.start t).soundEach_iff cs

/-- Memory that holds nothing. -/
def empty : Symbols where
  name _ := []
  addr _ := 0
  globalFlag _ := false
  gpFlag _ := false
  constFlag _ := false
  next _ := none
  nextLocal _ := none
  unused := 0
  labelHashTable _ := none
  localLabels := none
  messages := []

/-- `a` is recorded twice at address 0: the first label of the list links to itself, and the flush
at the end of the file does not end. -/
theorem recorded_at_zero_twice :
    ∃ t, empty.initializeSymbolTable.Runs [.recordLabel [97] 0, .recordLabel [97] 0] t ∧
      ¬ t.Represented ∧ ∀ w r t', ¬ t.Returns (.flushLocalLabels w) r t' := by
  have hself : ∃ t, empty.initializeSymbolTable.Runs
      [.recordLabel [97] 0, .recordLabel [97] 0] t ∧
      t.localLabels = some 0 ∧ t.nextLocal 0 = some 0 := ⟨_, ⟨1, rfl⟩, by decide, by decide⟩
  obtain ⟨t, ht, hhead, hnext⟩ := hself
  have hendless (as : List LabelRef) : ¬ Links t.nextLocal t.localLabels as := by
    intro has
    rw [hhead] at has
    cases as with
    | nil => simp at has
    | cons a as =>
      obtain ⟨ha, has'⟩ := has
      cases ha
      rw [hnext] at has'
      have hlen := congrArg List.length
        (has'.unique (show Links t.nextLocal (some 0) (0 :: as) from ⟨rfl, by rwa [hnext]⟩))
      simp at hlen
  refine ⟨t, ht, fun h => ?_, fun w r t' h => ?_⟩
  · obtain ⟨as, has, -⟩ := h.locals
    exact hendless as has
  · obtain ⟨as, has⟩ := h.flush_ends
    exact hendless as has

end Symbols
end Spimulator
