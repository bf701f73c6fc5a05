import Gart.Lib.Outcome
import Gart.Store.VertexTable

/-!
# The vertex table in the default build

The default build compiles the assertions out: nothing looks whether the two parts of the table meet. The four
operations are written here as that build runs them, with the slots that they write.
-/

namespace Gart.Store
open Gart.Outcome Gart.Fragment

/-- A vertex table with the slots that have been written, the oldest first. -/
structure TableLog where
  vtable : VTable
  written : List Nat

/-- `n - 1` for an unsigned `n` of 64 bits -/
def pred64 (n : Nat) : Nat := if n = 0 then 2 ^ 64 - 1 else n - 1

inductive TableCall
  | addInner (lid : Nat)
  | deleteInner (offset : Nat)
  | addOuter (lid : Nat)
  | deleteOuter (lid : Nat)

/-- The loop of `delete_outer`, with the `i` that comes next counted from 1. Its `i` is unsigned: when the outer part
goes down to slot 0 and does not have the vertex, `i` wraps around and the loop reads behind the array. -/
def VTable.searchOuter (t : VTable) (lid : Nat) : Nat → Except StoreFault (Option Nat)
  | 0 => .error .outOfBounds
  | i + 1 =>
    if i < t.minOuterLocation then .ok none
    else if t.table i < vertexDeleteFlag ∧ t.table i = lid then .ok (some i)
    else t.searchOuter lid i

namespace TableLog

def create (blank : Nat → Nat) (size : Nat) : TableLog := { vtable := VTable.create blank size, written := [] }

def write (l : TableLog) (slot value : Nat) : Except StoreFault TableLog :=
  if slot < l.vtable.size then
    .ok { vtable := { l.vtable with table := Function.update l.vtable.table slot value }
          written := l.written ++ [slot] }
  else .error .outOfBounds

def addInner (l : TableLog) (lid : Nat) : Except StoreFault TableLog := do
  let l ← l.write l.vtable.maxInnerLocation lid
  .ok { l with
    vtable := { l.vtable with
      maxInnerLocation := l.vtable.maxInnerLocation + 1
      maxInner := l.vtable.maxInner + 1 } }

def deleteInner (l : TableLog) (parser : IdParser) (offset : Nat) : Except StoreFault TableLog :=
  match l.vtable.findInner parser offset with
  | none => .ok l
  | some i => do
    let l ← l.write l.vtable.maxInnerLocation (i ||| vertexDeleteFlag)
    .ok { l with vtable := { l.vtable with maxInnerLocation := l.vtable.maxInnerLocation + 1 } }

/-- `add_outer`; a full table is only logged. -/
def addOuter (l : TableLog) (lid : Nat) : Except StoreFault TableLog := do
  let l ← l.write (pred64 l.vtable.minOuterLocation) lid
  .ok { l with
    vtable := { l.vtable with
      minOuter := pred64 l.vtable.minOuter
      minOuterLocation := pred64 l.vtable.minOuterLocation } }

def deleteOuter (l : TableLog) (lid : Nat) : Except StoreFault TableLog := do
  let found ← l.vtable.searchOuter lid l.vtable.size
  match found with
  | none => .ok l
  | some i => do
    let l ← l.write (pred64 l.vtable.minOuterLocation) (i ||| vertexDeleteFlag)
    .ok { l with vtable := { l.vtable with minOuterLocation := pred64 l.vtable.minOuterLocation } }

def call (parser : IdParser) (l : TableLog) : TableCall → Except StoreFault TableLog
  | .addInner lid => l.addInner lid
  | .deleteInner offset => l.deleteInner parser offset
  | .addOuter lid => l.addOuter lid
  | .deleteOuter lid => l.deleteOuter lid

def run (parser : IdParser) (l : TableLog) (calls : List TableCall) : Except StoreFault TableLog :=
  calls.foldlM (call parser) l

def Apart (l : TableLog) : Prop :=
  l.vtable.maxInnerLocation ≤ l.vtable.minOuterLocation ∧ l.vtable.minOuterLocation ≤ l.vtable.size

/-- The second log comes from the first by one write to a slot that had not been written. -/
def WritesFresh (l l' : TableLog) : Prop :=
  ∃ slot value, slot ∉ l.written ∧ slot < l.vtable.size ∧ l'.written = l.written ++ [slot] ∧
    l'.vtable.table = Function.update l.vtable.table slot value

/-- Every call of the run returns, writes one fresh slot or changes nothing, and keeps the parts apart. -/
def CollisionFree (parser : IdParser) (l : TableLog) (calls : List TableCall) : Prop :=
  ∀ before call after, calls = before ++ call :: after →
    ∃ l₁ l₂, l.run parser before = .ok l₁ ∧ l₁.call parser call = .ok l₂ ∧ (l₂ = l₁ ∨ WritesFresh l₁ l₂) ∧ Apart l₂

end TableLog

/-! ### When there is room -/

namespace VTable

def HasInner (t : VTable) (parser : IdParser) (offset : Nat) : Prop :=
  ∃ i < t.maxInnerLocation, t.table i < vertexDeleteFlag ∧ parser.getOffset (t.table i) = offset

def HasOuter (t : VTable) (lid : Nat) : Prop :=
  ∃ i < t.size, t.minOuterLocation ≤ i ∧ t.table i < vertexDeleteFlag ∧ t.table i = lid

/-- A call that writes needs a free slot between the parts, a search that finds nothing one below the outer part. -/
def Fits (t : VTable) (parser : IdParser) : TableCall → Prop
  | .addInner _ => t.maxInnerLocation < t.minOuterLocation
  | .deleteInner offset => t.HasInner parser offset → t.maxInnerLocation < t.minOuterLocation
  | .addOuter _ => t.maxInnerLocation < t.minOuterLocation
  | .deleteOuter lid =>
    (t.HasOuter lid → t.maxInnerLocation < t.minOuterLocation) ∧ (¬ t.HasOuter lid → 0 < t.minOuterLocation)

end VTable

def TableLog.AllFit (parser : IdParser) (l : TableLog) (calls : List TableCall) : Prop :=
  ∀ before call after, calls = before ++ call :: after →
    ∀ l₁, l.run parser before = .ok l₁ → l₁.vtable.Fits parser call

/-! ### The searches -/

section search
variable {t : VTable} {parser : IdParser} {offset lid n : Nat}

theorem findInner_eq_none : t.findInner parser offset = none ↔ ¬ t.HasInner parser offset := by
  unfold VTable.findInner VTable.HasInner
  rw [List.find?_eq_none]
  constructor
  · rintro h ⟨i, hi, hfound⟩
    exact h i (List.mem_range.mpr hi) (decide_eq_true hfound)
  · intro h i hi hfound
    exact h ⟨i, List.mem_range.mp hi, of_decide_eq_true hfound⟩

theorem searchOuter_spec :
    (∃ i < n, t.minOuterLocation ≤ i ∧ t.table i < vertexDeleteFlag ∧ t.table i = lid ∧
      t.searchOuter lid n = .ok (some i)) ∨
    ((¬ ∃ i < n, t.minOuterLocation ≤ i ∧ t.table i < vertexDeleteFlag ∧ t.table i = lid) ∧
      t.searchOuter lid n = if 0 < t.minOuterLocation ∧ 0 < n then .ok none else .error .outOfBounds) := by
  induction n with
  | zero =>
    rw [if_neg (fun h => Nat.lt_irrefl 0 h.2)]
    exact Or.inr ⟨fun ⟨i, hi, _⟩ => absurd hi (Nat.not_lt_zero i), rfl⟩
  | succ i ih =>
    unfold VTable.searchOuter
    by_cases hend : i < t.minOuterLocation
    · rw [if_pos hend, if_pos ⟨by omega, Nat.succ_pos i⟩]
      exact Or.inr ⟨fun ⟨j, hj, hle, _⟩ => by omega, rfl⟩
    · rw [if_neg hend]
      by_cases hfound : t.table i < vertexDeleteFlag ∧ t.table i = lid
      · rw [if_pos hfound]
        exact Or.inl ⟨i, Nat.lt_succ_self i, Nat.le_of_not_lt hend, hfound.1, hfound.2, rfl⟩
      · rw [if_neg hfound]
        rcases ih with ⟨j, hj, hle, hflag, hlid, hrun⟩ | ⟨hnone, hrun⟩
        · exact Or.inl ⟨j, Nat.lt_succ_of_lt hj, hle, hflag, hlid, hrun⟩
        · refine Or.inr ⟨?_, ?_⟩
          · rintro ⟨j, hj, hle, hfoundj⟩
            rcases Nat.lt_succ_iff_lt_or_eq.mp hj with hj | rfl
            · exact hnone ⟨j, hj, hle, hfoundj⟩
            · exact hfound hfoundj
          · rw [hrun]
            by_cases hpos : 0 < t.minOuterLocation
            · rw [if_pos ⟨hpos, by omega⟩, if_pos ⟨hpos, Nat.succ_pos i⟩]
            · rw [if_neg (fun h => hpos h.1), if_neg (fun h => hpos h.1)]

end search

/-! ### The steps -/

namespace TableLog

structure Inv (l : TableLog) : Prop where
  apart : l.Apart
  size_lt : l.vtable.size < 2 ^ 64
  written : ∀ slot ∈ l.written,
    slot < l.vtable.maxInnerLocation ∨ l.vtable.minOuterLocation ≤ slot ∧ slot < l.vtable.size

def growInner (l : TableLog) (value maxInner : Nat) : TableLog :=
  { vtable := { l.vtable with
      table := Function.update l.vtable.table l.vtable.maxInnerLocation value
      maxInnerLocation := l.vtable.maxInnerLocation + 1
      maxInner := maxInner }
    written := l.written ++ [l.vtable.maxInnerLocation] }

def growOuter (l : TableLog) (value minOuter : Nat) : TableLog :=
  { vtable := { l.vtable with
      table := Function.update l.vtable.table (pred64 l.vtable.minOuterLocation) value
      minOuterLocation := pred64 l.vtable.minOuterLocation
      minOuter := minOuter }
    written := l.written ++ [pred64 l.vtable.minOuterLocation] }

end TableLog

open TableLog

section steps
variable {parser : IdParser} {l l₁ l₂ : TableLog} {c : TableCall} {calls : List TableCall}
variable {lid offset slot value m size : Nat}

theorem pred64_of_pos (h : 0 < slot) : pred64 slot = slot - 1 := if_neg (Nat.ne_of_gt h)

theorem pos_of_pred64_lt (h : pred64 slot < size) (hsize : size < 2 ^ 64) : 0 < slot := by
  refine Nat.pos_of_ne_zero fun hzero => ?_
  unfold pred64 at h
  rw [if_pos hzero] at h
  omega

theorem addInner_eq :
    l.addInner lid = if l.vtable.maxInnerLocation < l.vtable.size then .ok (l.growInner lid (l.vtable.maxInner + 1))
      else .error .outOfBounds := by
  unfold TableLog.addInner TableLog.write
  split
  · rfl
  · rfl

theorem addOuter_eq :
    l.addOuter lid = if pred64 l.vtable.minOuterLocation < l.vtable.size then
        .ok (l.growOuter lid (pred64 l.vtable.minOuter)) else .error .outOfBounds := by
  unfold TableLog.addOuter TableLog.write
  split
  · rfl
  · rfl

theorem deleteInner_eq {i : Nat} (hfound : l.vtable.findInner parser offset = some i) :
    l.deleteInner parser offset = if l.vtable.maxInnerLocation < l.vtable.size then
        .ok (l.growInner (i ||| vertexDeleteFlag) l.vtable.maxInner) else .error .outOfBounds := by
  unfold TableLog.deleteInner TableLog.write
  rw [hfound]
  dsimp only
  split
  · rfl
  · rfl

theorem deleteOuter_eq {i : Nat} (hfound : l.vtable.searchOuter lid l.vtable.size = .ok (some i)) :
    l.deleteOuter lid = if pred64 l.vtable.minOuterLocation < l.vtable.size then
        .ok (l.growOuter (i ||| vertexDeleteFlag) l.vtable.minOuter) else .error .outOfBounds := by
  unfold TableLog.deleteOuter TableLog.write
  rw [hfound]
  show (if pred64 l.vtable.minOuterLocation < l.vtable.size then _ else _ : Except StoreFault TableLog) >>= _ = _
  split
  · rfl
  · rfl

theorem TableLog.Inv.growInner (h : l.Inv) (hroom : l.vtable.maxInnerLocation < l.vtable.minOuterLocation) :
    WritesFresh l (l.growInner value m) ∧ (l.growInner value m).Inv := by
  have hsize : l.vtable.maxInnerLocation < l.vtable.size := Nat.lt_of_lt_of_le hroom h.apart.2
  refine ⟨⟨l.vtable.maxInnerLocation, value, fun hmem => ?_, hsize, rfl, rfl⟩, ⟨hroom, h.apart.2⟩, h.size_lt, ?_⟩
  · have hold := h.written _ hmem
    omega
  · intro slot hslot
    show slot < l.vtable.maxInnerLocation + 1 ∨ l.vtable.minOuterLocation ≤ slot ∧ slot < l.vtable.size
    rcases List.mem_append.mp hslot with hslot | hslot
    · have hold := h.written slot hslot
      omega
    · rw [List.mem_singleton.mp hslot]
      exact Or.inl (Nat.lt_succ_self _)

theorem TableLog.Inv.growOuter (h : l.Inv) (hroom : l.vtable.maxInnerLocation < l.vtable.minOuterLocation) :
    WritesFresh l (l.growOuter value m) ∧ (l.growOuter value m).Inv := by
  have hpred : pred64 l.vtable.minOuterLocation = l.vtable.minOuterLocation - 1 := pred64_of_pos (by omega)
  have hle := h.apart.2
  refine ⟨⟨pred64 l.vtable.minOuterLocation, value, fun hmem => ?_, by omega, rfl, rfl⟩, ⟨?_, ?_⟩, h.size_lt, ?_⟩
  · have hold := h.written _ hmem
    omega
  · show l.vtable.maxInnerLocation ≤ pred64 l.vtable.minOuterLocation
    omega
  · show pred64 l.vtable.minOuterLocation ≤ l.vtable.size
    omega
  · intro slot hslot
    show slot < l.vtable.maxInnerLocation ∨ pred64 l.vtable.minOuterLocation ≤ slot ∧ slot < l.vtable.size
    rcases List.mem_append.mp hslot with hslot | hslot
    · have hold := h.written slot hslot
      omega
    · rw [List.mem_singleton.mp hslot]
      omega

theorem searchOuter_of_has (h : l.vtable.HasOuter lid) :
    ∃ i, l.vtable.searchOuter lid l.vtable.size = .ok (some i) := by
  rcases @searchOuter_spec l.vtable lid l.vtable.size with ⟨i, _, _, _, _, hrun⟩ | ⟨hnone, _⟩
  · exact ⟨i, hrun⟩
  · exact absurd h hnone

theorem searchOuter_of_not_has (h : ¬ l.vtable.HasOuter lid) :
    l.vtable.searchOuter lid l.vtable.size =
      if 0 < l.vtable.minOuterLocation ∧ 0 < l.vtable.size then .ok none else .error .outOfBounds := by
  rcases @searchOuter_spec l.vtable lid l.vtable.size with ⟨i, hi, hle, hflag, hlid, _⟩ | ⟨_, hrun⟩
  · exact absurd ⟨i, hi, hle, hflag, hlid⟩ h
  · exact hrun

theorem TableLog.Inv.call (h : l.Inv) (hfits : l.vtable.Fits parser c) :
    ∃ l₂, l.call parser c = .ok l₂ ∧ (l₂ = l ∨ WritesFresh l l₂) ∧ l₂.Inv := by
  have hle := h.apart.2
  have hinner : l.vtable.maxInnerLocation < l.vtable.minOuterLocation → l.vtable.maxInnerLocation < l.vtable.size :=
    fun hroom => Nat.lt_of_lt_of_le hroom hle
  have houter : l.vtable.maxInnerLocation < l.vtable.minOuterLocation →
      pred64 l.vtable.minOuterLocation < l.vtable.size := by
    intro hroom
    rw [pred64_of_pos (by omega)]
    omega
  cases c with
  | addInner lid =>
    obtain ⟨hfresh, hinv⟩ := @TableLog.Inv.growInner l lid (l.vtable.maxInner + 1) h hfits
    exact ⟨_, addInner_eq.trans (if_pos (hinner hfits)), Or.inr hfresh, hinv⟩
  | addOuter lid =>
    obtain ⟨hfresh, hinv⟩ := @TableLog.Inv.growOuter l lid (pred64 l.vtable.minOuter) h hfits
    exact ⟨_, addOuter_eq.trans (if_pos (houter hfits)), Or.inr hfresh, hinv⟩
  | deleteInner offset =>
    cases hfound : l.vtable.findInner parser offset with
    | none =>
      refine ⟨l, ?_, Or.inl rfl, h⟩
      show l.deleteInner parser offset = .ok l
      unfold TableLog.deleteInner
      rw [hfound]
    | some i =>
      have hhas : l.vtable.HasInner parser offset := by
        by_contra hnot
        rw [findInner_eq_none.mpr hnot] at hfound
        cases hfound
      have hroom := hfits hhas
      obtain ⟨hfresh, hinv⟩ := @TableLog.Inv.growInner l (i ||| vertexDeleteFlag) l.vtable.maxInner h hroom
      exact ⟨_, (deleteInner_eq hfound).trans (if_pos (hinner hroom)), Or.inr hfresh, hinv⟩
  | deleteOuter lid =>
    by_cases hhas : l.vtable.HasOuter lid
    · have hroom := hfits.1 hhas
      obtain ⟨i, hfound⟩ := searchOuter_of_has hhas
      obtain ⟨hfresh, hinv⟩ := @TableLog.Inv.growOuter l (i ||| vertexDeleteFlag) l.vtable.minOuter h hroom
      exact ⟨_, (deleteOuter_eq hfound).trans (if_pos (houter hroom)), Or.inr hfresh, hinv⟩
    · have hpos := hfits.2 hhas
      refine ⟨l, ?_, Or.inl rfl, h⟩
      show l.deleteOuter lid = .ok l
      unfold TableLog.deleteOuter
      rw [searchOuter_of_not_has hhas, if_pos ⟨hpos, by omega⟩]
      rfl

theorem fits_of_call (hsize : l.vtable.size < 2 ^ 64) (hcall : l.call parser c = .ok l₂) (h : l₂.Apart) :
    l.vtable.Fits parser c := by
  have hinner : ∀ value m, (if l.vtable.maxInnerLocation < l.vtable.size then .ok (l.growInner value m)
      else .error .outOfBounds) = (.ok l₂ : Except StoreFault TableLog) →
      l.vtable.maxInnerLocation < l.vtable.minOuterLocation := by
    intro value m hrun
    split at hrun
    · cases hrun
      exact h.1
    · cases hrun
  have houter : ∀ value m, (if pred64 l.vtable.minOuterLocation < l.vtable.size then .ok (l.growOuter value m)
      else .error .outOfBounds) = (.ok l₂ : Except StoreFault TableLog) →
      l.vtable.maxInnerLocation < l.vtable.minOuterLocation := by
    intro value m hrun
    by_cases hlt : pred64 l.vtable.minOuterLocation < l.vtable.size
    · rw [if_pos hlt] at hrun
      cases hrun
      have hpos := pos_of_pred64_lt hlt hsize
      have hle : l.vtable.maxInnerLocation ≤ pred64 l.vtable.minOuterLocation := h.1
      rw [pred64_of_pos hpos] at hle
      omega
    · rw [if_neg hlt] at hrun
      cases hrun
  cases c with
  | addInner lid => exact hinner _ _ (addInner_eq.symm.trans hcall)
  | addOuter lid => exact houter _ _ (addOuter_eq.symm.trans hcall)
  | deleteInner offset =>
    intro hhas
    cases hfound : l.vtable.findInner parser offset with
    | none => exact absurd hhas (findInner_eq_none.mp hfound)
    | some i => exact hinner _ _ ((deleteInner_eq hfound).symm.trans hcall)
  | deleteOuter lid =>
    constructor
    · intro hhas
      obtain ⟨i, hfound⟩ := searchOuter_of_has hhas
      exact houter _ _ ((deleteOuter_eq hfound).symm.trans hcall)
    · intro hhas
      change l.deleteOuter lid = .ok l₂ at hcall
      unfold TableLog.deleteOuter at hcall
      rw [searchOuter_of_not_has hhas] at hcall
      by_cases hpos : 0 < l.vtable.minOuterLocation
      · exact hpos
      · rw [if_neg (fun hand => hpos hand.1)] at hcall
        cases hcall

/-! ### The table with assertions

Where the assertions hold, the operations are those of `VTable`. -/

theorem addInner_vtable (h : l.Apart) (hroom : l.vtable.maxInnerLocation ≠ l.vtable.minOuterLocation) :
    (l.addInner lid).map vtable = l.vtable.addInner lid := by
  have hlt := h.1
  have hle := h.2
  unfold VTable.addInner
  rw [addInner_eq, if_pos (by omega), if_neg hroom]
  rfl

theorem addOuter_vtable (h : l.Apart) (hroom : l.vtable.maxInnerLocation ≠ l.vtable.minOuterLocation)
    (houter : l.vtable.minOuterLocation ≤ l.vtable.minOuter) :
    (l.addOuter lid).map vtable = l.vtable.addOuter lid := by
  have hlt := h.1
  have hle := h.2
  have hlocation : pred64 l.vtable.minOuterLocation = l.vtable.minOuterLocation - 1 := pred64_of_pos (by omega)
  have hbound : pred64 l.vtable.minOuter = l.vtable.minOuter - 1 := pred64_of_pos (by omega)
  unfold VTable.addOuter
  rw [addOuter_eq, hlocation, if_pos (by omega), if_neg hroom, hbound]
  unfold TableLog.growOuter
  rw [hlocation]
  rfl

theorem deleteInner_vtable (hroom : l.vtable.maxInnerLocation < l.vtable.size) :
    (l.deleteInner parser offset).map vtable = .ok (l.vtable.deleteInner parser offset) := by
  unfold VTable.deleteInner
  cases hfound : l.vtable.findInner parser offset with
  | none =>
    unfold TableLog.deleteInner
    rw [hfound]
    rfl
  | some i =>
    rw [deleteInner_eq hfound, if_pos hroom]
    rfl

theorem searchOuter_eq_find {t : VTable} {n : Nat} (hpos : 0 < t.minOuterLocation) (hn : 0 < n) :
    t.searchOuter lid n = .ok (((List.range (n - t.minOuterLocation)).map fun k => n - 1 - k).find? fun i =>
      t.table i < vertexDeleteFlag ∧ t.table i = lid) := by
  induction n with
  | zero => exact absurd hn (Nat.lt_irrefl 0)
  | succ i ih =>
    unfold VTable.searchOuter
    by_cases hend : i < t.minOuterLocation
    · rw [if_pos hend, Nat.sub_eq_zero_of_le hend]
      rfl
    · have hsucc : i + 1 - t.minOuterLocation = i - t.minOuterLocation + 1 := by omega
      have hshift : (fun k => i + 1 - 1 - k) ∘ Nat.succ = fun k => i - 1 - k := by
        funext k
        show i + 1 - 1 - (k + 1) = i - 1 - k
        omega
      have hhead : i + 1 - 1 - 0 = i := by omega
      rw [if_neg hend, hsucc, List.range_succ_eq_map, List.map_cons, List.map_map, hshift, hhead, List.find?_cons]
      by_cases hfound : t.table i < vertexDeleteFlag ∧ t.table i = lid
      · rw [if_pos hfound, decide_eq_true hfound]
      · rw [if_neg hfound, decide_eq_false hfound]
        exact ih (by omega)

theorem deleteOuter_vtable (h : l.Apart) (hroom : l.vtable.maxInnerLocation < l.vtable.minOuterLocation) :
    (l.deleteOuter lid).map vtable = .ok (l.vtable.deleteOuter lid) := by
  have hle := h.2
  have hpred : pred64 l.vtable.minOuterLocation = l.vtable.minOuterLocation - 1 := pred64_of_pos (by omega)
  have hsearch : l.vtable.searchOuter lid l.vtable.size = .ok (l.vtable.findOuter lid) :=
    searchOuter_eq_find (by omega) (by omega)
  unfold VTable.deleteOuter
  cases hfound : l.vtable.findOuter lid with
  | none =>
    unfold TableLog.deleteOuter
    rw [hsearch, hfound]
    rfl
  | some i =>
    rw [deleteOuter_eq (hsearch.trans (congrArg _ hfound)), if_pos (by omega)]
    unfold TableLog.growOuter
    rw [hpred]
    rfl

/-! ### The runs -/

theorem allFit_cons : l.AllFit parser (c :: calls) ↔
    l.vtable.Fits parser c ∧ ∀ l₁, l.call parser c = .ok l₁ → l₁.AllFit parser calls := by
  constructor
  · intro h
    refine ⟨h [] c calls rfl l rfl, ?_⟩
    intro l₁ hcall before call after hsplit l₂ hrun
    refine h (c :: before) call after (congrArg (c :: ·) hsplit) l₂ ?_
    unfold TableLog.run
    rw [List.foldlM_cons, hcall]
    exact hrun
  · rintro ⟨hfits, hrest⟩ before call after hsplit l₂ hrun
    cases before with
    | nil =>
      cases hsplit
      cases hrun
      exact hfits
    | cons c' before =>
      cases hsplit
      unfold TableLog.run at hrun
      rw [List.foldlM_cons] at hrun
      obtain ⟨l₁, hcall, hrun⟩ := bind_eq_ok hrun
      exact hrest l₁ hcall before call after rfl l₂ hrun

theorem collisionFree_cons : l.CollisionFree parser (c :: calls) ↔
    ∃ l₁, l.call parser c = .ok l₁ ∧ (l₁ = l ∨ WritesFresh l l₁) ∧ l₁.Apart ∧ l₁.CollisionFree parser calls := by
  constructor
  · intro h
    obtain ⟨l', l₁, hstart, hcall, hwrite, hapart⟩ := h [] c calls rfl
    cases hstart
    refine ⟨l₁, hcall, hwrite, hapart, ?_⟩
    intro before call after hsplit
    obtain ⟨l₂, l₃, hrun, hrest⟩ := h (c :: before) call after (congrArg (c :: ·) hsplit)
    unfold TableLog.run at hrun
    rw [List.foldlM_cons, hcall] at hrun
    exact ⟨l₂, l₃, hrun, hrest⟩
  · rintro ⟨l₁, hcall, hwrite, hapart, hrest⟩ before call after hsplit
    cases before with
    | nil =>
      cases hsplit
      exact ⟨l, l₁, rfl, hcall, hwrite, hapart⟩
    | cons c' before =>
      cases hsplit
      obtain ⟨l₂, l₃, hrun, hlast⟩ := hrest before call after rfl
      refine ⟨l₂, l₃, ?_, hlast⟩
      unfold TableLog.run
      rw [List.foldlM_cons, hcall]
      exact hrun

theorem TableLog.Inv.free_iff_fit (h : l.Inv) : l.CollisionFree parser calls ↔ l.AllFit parser calls := by
  induction calls generalizing l with
  | nil =>
    have hnone : ∀ (before after : List TableCall) (call : TableCall), [] ≠ before ++ call :: after :=
      fun before after call heq => by cases before <;> cases heq
    exact ⟨fun _ before call after hsplit => absurd hsplit (hnone before after call),
      fun _ before call after hsplit => absurd hsplit (hnone before after call)⟩
  | cons c calls ih =>
    rw [collisionFree_cons, allFit_cons]
    constructor
    · rintro ⟨l₁, hcall, _, hapart, hrest⟩
      have hfits := fits_of_call h.size_lt hcall hapart
      refine ⟨hfits, fun l₂ hcall' => ?_⟩
      obtain ⟨l₃, hok, _, hinv⟩ := h.call hfits
      have h₁ : l₁ = l₃ := Except.ok.inj (hcall.symm.trans hok)
      have h₂ : l₂ = l₃ := Except.ok.inj (hcall'.symm.trans hok)
      rw [h₁] at hrest
      rw [h₂]
      exact (ih hinv).mp hrest
    · rintro ⟨hfits, hrest⟩
      obtain ⟨l₁, hcall, hwrite, hinv⟩ := h.call hfits
      exact ⟨l₁, hcall, hwrite, hinv.apart, (ih hinv).mpr (hrest l₁ hcall)⟩

end steps

/-- The log of a label is free of collisions if and only if every call finds the room that it needs: a free slot when it
writes one, and a slot below the outer part when it looks for an outer vertex that is not there. -/
theorem collisionFree_iff (parser : IdParser) (blank : Nat → Nat) (size : Nat) (calls : List TableCall)
    (hsize : size < 2 ^ 64) :
    (TableLog.create blank size).CollisionFree parser calls ↔ (TableLog.create blank size).AllFit parser calls := by
  refine TableLog.Inv.free_iff_fit ⟨⟨Nat.zero_le _, Nat.le_refl _⟩, hsize, ?_⟩
  intro slot hslot
  cases hslot

theorem collisionFree_iff_two :
    (TableLog.create (fun _ => 0) 2).CollisionFree (IdParser.init 1) [.addInner 0, .deleteInner 0] := by
  refine (collisionFree_iff (IdParser.init 1) (fun _ => 0) 2 _ (by decide)).mpr (allFit_cons.mpr ⟨Nat.succ_pos 1, ?_⟩)
  intro l₁ hcall
  cases hcall
  refine allFit_cons.mpr ⟨fun _ => by decide, ?_⟩
  intro l₂ _ before call after hsplit
  cases before <;> cases hsplit

/-- In a table with two slots the deletion of the inner vertex overwrites the outer vertex. -/
theorem collisionFree_overwrite :
    ¬ (TableLog.create (fun _ => 0) 2).CollisionFree (IdParser.init 1) [.addInner 0, .addOuter 2, .deleteInner 0] := by
  intro h
  obtain ⟨l₁, l₂, hrun, hcall, _, hapart⟩ := h [.addInner 0, .addOuter 2] (.deleteInner 0) [] rfl
  cases hrun
  cases hcall
  exact absurd hapart.1 (by decide)

end Gart.Store
