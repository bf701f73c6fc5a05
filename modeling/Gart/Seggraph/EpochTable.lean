import Gart.Seggraph.Merge

/-!
# Epoch tables

The epoch table of an adjacency list cuts the list into epochs. `visibleCount`
is what a reader makes of a table, and `EpochOk` says that it gives the number
of entries up to the epoch that is read.
-/

namespace Gart.Seggraph
open Gart.ByteMemory Gart.Outcome

/-- An entry of an adjacency list with the epoch it was written at. -/
structure LogEntry where
  epoch : Nat
  edge : Edge
  deriving DecidableEq, Repr

def upToEpoch (e : Nat) (log : List LogEntry) : List LogEntry :=
  log.filter fun entry => entry.epoch ≤ e

theorem upToEpoch_append (e : Nat) (log : List LogEntry) (entry : LogEntry) :
    upToEpoch e (log ++ [entry]) =
      upToEpoch e log ++ if entry.epoch ≤ e then [entry] else [] := by
  simp only [upToEpoch, List.filter_append, List.filter_cons, List.filter_nil, decide_eq_true_eq]

/-- Entries a reader sees: `total` at the newest epoch, else up to the offset of
the next newer epoch. -/
def visibleCount (e : Nat) : Nat → List EpochEntry → Nat
  | _, [] => 0
  | total, entry :: older => if entry.epoch ≤ e then total else visibleCount e entry.offset older

/-- The table describes the epochs of a list of entries. -/
structure EpochOk (block : EpochBlock) (log : List LogEntry) : Prop where
  count : ∀ e, visibleCount e log.length block.entries = (upToEpoch e log).length
  latest : ∃ offset older, block.entries = ⟨block.latestEpoch, offset⟩ :: older
  offsets : ∀ entry ∈ block.entries.dropLast, 0 < entry.offset
  size : epochHeaderSize + block.entries.length * epochEntrySize ≤ 2 ^ block.order
  bounded : ∀ entry ∈ log, entry.epoch ≤ block.latestEpoch
  attained : ∃ entry ∈ log, entry.epoch = block.latestEpoch

theorem upToEpoch_of_bounded {e : Nat} {log : List LogEntry} (h : ∀ entry ∈ log, entry.epoch ≤ e) :
    upToEpoch e log = log := by
  unfold upToEpoch
  apply List.filter_eq_self.mpr
  intro entry hentry
  exact decide_eq_true (h entry hentry)

theorem EpochBlock.append_latestEpoch (block : EpochBlock) (entry : EpochEntry) :
    (block.append entry).latestEpoch = block.latestEpoch := by
  unfold EpochBlock.append
  split <;> rfl

theorem upToEpoch_eq_take {e : Nat} {log : List LogEntry}
    (h : log.Pairwise fun a b => a.epoch ≤ b.epoch) :
    upToEpoch e log = log.take (upToEpoch e log).length := by
  induction log with
  | nil => rfl
  | cons entry rest ih =>
    obtain ⟨hfirst, hrest⟩ := List.pairwise_cons.mp h
    by_cases he : entry.epoch ≤ e
    · have hcons : upToEpoch e (entry :: rest) = entry :: upToEpoch e rest :=
        List.filter_cons_of_pos (decide_eq_true he)
      rw [hcons, List.length_cons, List.take_succ_cons, ← ih hrest]
    · have hnil : upToEpoch e (entry :: rest) = [] := by
        apply List.filter_eq_nil_iff.mpr
        intro x hx
        have hle : entry.epoch ≤ x.epoch := by
          rcases List.mem_cons.mp hx with rfl | hx
          · exact Nat.le_refl _
          · exact hfirst x hx
        simp only [decide_eq_true_eq]
        omega
      rw [hnil]
      rfl

/-! ### The table after one more entry -/

theorem epochOk_first (epoch order : Nat) (edge : Edge)
    (hsize : epochHeaderSize + epochEntrySize ≤ 2 ^ order) :
    EpochOk ((EpochBlock.fill order epoch).append { epoch := epoch, offset := 0 })
      [{ epoch := epoch, edge := edge }] := by
  have hspace : (EpochBlock.fill order epoch).hasSpace = true := by
    rw [EpochBlock.hasSpace_iff]
    simpa [EpochBlock.fill] using hsize
  rw [EpochBlock.append, if_pos hspace]
  refine ⟨?_, ⟨0, [], rfl⟩, ?_, ?_, ?_, ⟨_, List.mem_singleton.mpr rfl, rfl⟩⟩
  · intro e
    simp only [visibleCount, EpochBlock.fill, List.length_singleton, upToEpoch, List.filter_cons,
      List.filter_nil, decide_eq_true_eq]
    split <;> rfl
  · intro entry hentry
    simp [EpochBlock.fill] at hentry
  · simp only [EpochBlock.fill, List.length_singleton]
    omega
  · intro entry hentry
    rw [List.mem_singleton] at hentry
    subst hentry
    exact Nat.le_refl _

theorem EpochOk.same_epoch {block : EpochBlock} {log : List LogEntry} (h : EpochOk block log)
    (edge : Edge) : EpochOk block (log ++ [{ epoch := block.latestEpoch, edge := edge }]) := by
  obtain ⟨offset, older, hentries⟩ := h.latest
  refine ⟨?_, h.latest, h.offsets, h.size, ?_,
    ⟨{ epoch := block.latestEpoch, edge := edge }, by simp, rfl⟩⟩
  · intro e
    have hcount := h.count e
    rw [upToEpoch_append, List.length_append]
    rw [hentries] at hcount ⊢
    simp only [visibleCount] at hcount ⊢
    by_cases he : block.latestEpoch ≤ e
    · simp only [if_pos he] at hcount ⊢
      simp only [List.length_append, List.length_singleton]
      omega
    · simp only [if_neg he] at hcount ⊢
      simpa using hcount
  · intro entry hentry
    rcases List.mem_append.mp hentry with hentry | hentry
    · exact h.bounded entry hentry
    · rw [List.mem_singleton] at hentry
      subst hentry
      exact Nat.le_refl _

theorem EpochOk.later_epoch {block : EpochBlock} {log : List LogEntry} (h : EpochOk block log)
    (hlog : log ≠ []) {epoch : Nat} (hlater : block.latestEpoch < epoch)
    (hspace : block.hasSpace = true) (edge : Edge) :
    EpochOk ({ block with latestEpoch := epoch }.append { epoch := epoch, offset := log.length })
      (log ++ [{ epoch := epoch, edge := edge }]) := by
  have hspace' : ({ block with latestEpoch := epoch } : EpochBlock).hasSpace = true := hspace
  rw [EpochBlock.append, if_pos hspace']
  obtain ⟨offset, older, hentries⟩ := h.latest
  refine ⟨?_, ⟨log.length, block.entries, rfl⟩, ?_, ?_, ?_,
    ⟨{ epoch := epoch, edge := edge }, by simp, rfl⟩⟩
  · intro e
    have hcount := h.count e
    rw [upToEpoch_append, List.length_append]
    simp only [visibleCount]
    by_cases he : epoch ≤ e
    · have hall : upToEpoch e log = log := by
        apply upToEpoch_of_bounded
        intro entry hentry
        have hb := h.bounded entry hentry
        omega
      simp only [if_pos he, hall, List.length_append, List.length_singleton]
    · simp only [if_neg he]
      simpa using hcount
  · intro entry hentry
    have hne : block.entries ≠ [] := by
      rw [hentries]
      simp
    simp only at hentry
    rw [List.dropLast_cons_of_ne_nil hne] at hentry
    rcases List.mem_cons.mp hentry with rfl | hentry
    · exact List.length_pos_of_ne_nil hlog
    · exact h.offsets entry hentry
  · rw [List.length_cons]
    exact EpochBlock.hasSpace_iff.mp hspace
  · intro entry hentry
    rcases List.mem_append.mp hentry with hentry | hentry
    · have hb := h.bounded entry hentry
      simp only
      omega
    · rw [List.mem_singleton] at hentry
      subst hentry
      exact Nat.le_refl _

/-! ### A larger table -/

theorem foldl_append_entries {order latestEpoch : Nat} {entries acc : List EpochEntry}
    (hsize : epochHeaderSize + (acc.length + entries.length) * epochEntrySize ≤ 2 ^ order) :
    entries.foldl EpochBlock.append
        { order := order, entries := acc, latestEpoch := latestEpoch } =
      { order := order, entries := entries.reverse ++ acc, latestEpoch := latestEpoch } := by
  induction entries generalizing acc with
  | nil => rfl
  | cons entry rest ih =>
    simp only [List.length_cons, epochHeaderSize, epochEntrySize] at hsize
    have hspace : ({ order := order, entries := acc, latestEpoch := latestEpoch } :
        EpochBlock).hasSpace = true := by
      rw [EpochBlock.hasSpace_iff]
      simp only [epochHeaderSize, epochEntrySize]
      omega
    rw [List.foldl_cons, EpochBlock.append, if_pos hspace, ih]
    · simp
    · simp only [List.length_cons, epochHeaderSize, epochEntrySize]
      omega

def grownTable (block : EpochBlock) : EpochBlock := { block with order := block.order + 1 }

theorem grownTable_eq {block : EpochBlock}
    (hsize : epochHeaderSize + block.entries.length * epochEntrySize ≤ 2 ^ block.order) :
    block.entries.reverse.foldl EpochBlock.append
        (EpochBlock.fill (block.order + 1) block.latestEpoch) = grownTable block := by
  have hpow : 2 ^ (block.order + 1) = 2 * 2 ^ block.order := by rw [Nat.pow_succ, Nat.mul_comm]
  rw [EpochBlock.fill, foldl_append_entries]
  · simp [grownTable]
  · simp only [List.length_nil, List.length_reverse, Nat.zero_add]
    omega

theorem grownTable_hasSpace {block : EpochBlock}
    (hsize : epochHeaderSize + block.entries.length * epochEntrySize ≤ 2 ^ block.order) :
    (grownTable block).hasSpace = true := by
  have hpow : 2 ^ (block.order + 1) = 2 * 2 ^ block.order := by rw [Nat.pow_succ, Nat.mul_comm]
  simp only [epochHeaderSize, epochEntrySize] at hsize
  rw [EpochBlock.hasSpace_iff]
  simp only [grownTable, epochHeaderSize, epochEntrySize]
  omega

theorem EpochOk.grown {block : EpochBlock} {log : List LogEntry} (h : EpochOk block log) :
    EpochOk (grownTable block) log where
  count := h.count
  latest := h.latest
  offsets := h.offsets
  size := by
    have hpow : 2 ^ (block.order + 1) = 2 * 2 ^ block.order := by rw [Nat.pow_succ, Nat.mul_comm]
    have hsize := h.size
    simp only [grownTable]
    omega
  bounded := h.bounded
  attained := h.attained

end Gart.Seggraph
