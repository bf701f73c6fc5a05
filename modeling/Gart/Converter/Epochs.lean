import Gart.Converter.Stream

/-!
# Epochs of the unified log

When the epoch of `process_binlog_step_2` moves, and what this means for the
messages: whether their epochs can decrease, and whether the messages of one
transaction have one epoch.
-/

namespace Gart.Converter
open Gart.Outcome Gart.Decimal

/-! ### When the epoch moves -/

def Step2.nextCount (st : Step2) : Nat := (st.logCount + 1) % 2 ^ 64

def NewEpochDue (cfg : Config) (st : Step2) (now : Int) : Prop :=
  if cfg.flags.useLogsPerEpoch then
    toUInt64 cfg.flags.logsPerEpoch ≤ toUInt64 (st.nextCount - st.lastLogCount)
  else cfg.flags.interval ≤ now - st.start

instance (cfg : Config) (st : Step2) (now : Int) : Decidable (NewEpochDue cfg st now) :=
  inferInstanceAs (Decidable (if cfg.flags.useLogsPerEpoch = true then
    toUInt64 cfg.flags.logsPerEpoch ≤ toUInt64 (st.nextCount - st.lastLogCount)
  else cfg.flags.interval ≤ now - st.start))

def SetsByCount (cfg : Config) (st : Step2) (txId : Int) : Prop :=
  cfg.flags.useLogsPerEpoch = true ∧
    (cfg.parser.build = .debezium → st.advancing cfg.flags = true ∧ txId = -1)

instance (cfg : Config) (st : Step2) (txId : Int) : Decidable (SetsByCount cfg st txId) :=
  inferInstanceAs (Decidable (_ ∧ (_ → _)))

def Increments (cfg : Config) (st : Step2) (txId now : Int) : Prop :=
  ¬SetsByCount cfg st txId ∧ NewEpochDue cfg st now ∧
    (cfg.parser.build = .debezium →
      st.advancing cfg.flags = true ∧ (txId ≠ -1 → txId ≠ st.lastTxId))

instance (cfg : Config) (st : Step2) (txId now : Int) : Decidable (Increments cfg st txId now) :=
  inferInstanceAs (Decidable (_ ∧ _ ∧ (_ → _)))

/-- The epoch after `moveEpoch`. -/
def movedEpoch (cfg : Config) (st : Step2) (txId now : Int) : Int :=
  if SetsByCount cfg st txId then
    wrap 32 (st.nextCount / toUInt64 cfg.flags.logsPerEpoch : Nat)
  else if Increments cfg st txId now then wrap 32 (st.epoch + 1)
  else st.epoch

section moved
variable {cfg : Config} {st st' : Step2} {txId now : Int}

theorem epochByCount_epoch (h : SameEpoch st.counted st')
    (hfault : (epochByCount cfg.flags st').fault = none) :
    (epochByCount cfg.flags st').epoch =
      wrap 32 (st.nextCount / toUInt64 cfg.flags.logsPerEpoch : Nat) := by
  have hcount : st'.logCount = st.nextCount := h.logCount
  unfold epochByCount at hfault ⊢
  dsimp only at hfault ⊢
  split at hfault
  · cases hfault
  · rename_i hn
    rw [if_neg hn, hcount]

theorem epochByTime_epoch (hmode : cfg.flags.useLogsPerEpoch = false)
    (hepoch : st'.epoch = st.epoch) (hstart : st'.start = st.start) :
    (epochByTime cfg.flags now st').epoch =
      if NewEpochDue cfg st now then wrap 32 (st.epoch + 1) else st.epoch := by
  have hdue : NewEpochDue cfg st now ↔ cfg.flags.interval ≤ now - st'.start := by
    unfold NewEpochDue
    rw [hmode, hstart]
    simp only [Bool.false_eq_true, if_false]
  unfold epochByTime
  simp only [hdue]
  split
  · rw [hepoch]
  · exact hepoch

theorem epochByLogs_epoch (hmode : cfg.flags.useLogsPerEpoch = true)
    (hepoch : st'.epoch = st.epoch) (hcount : st'.logCount = st.nextCount)
    (hlast : st'.lastLogCount = st.lastLogCount) :
    (epochByLogs cfg.flags st').epoch =
      if NewEpochDue cfg st now then wrap 32 (st.epoch + 1) else st.epoch := by
  have hdue : NewEpochDue cfg st now ↔
      toUInt64 cfg.flags.logsPerEpoch ≤ toUInt64 (st'.logCount - st'.lastLogCount) := by
    unfold NewEpochDue
    rw [hmode, hcount, hlast]
    simp only [if_true]
  unfold epochByLogs
  simp only [hdue]
  split
  · rw [hepoch]
  · exact hepoch

theorem movedEpoch_of_sets (h : SetsByCount cfg st txId) :
    movedEpoch cfg st txId now =
      wrap 32 (st.nextCount / toUInt64 cfg.flags.logsPerEpoch : Nat) := by
  unfold movedEpoch
  rw [if_pos h]

theorem movedEpoch_of_due (hsets : ¬SetsByCount cfg st txId)
    (hmay : cfg.parser.build = .debezium →
      st.advancing cfg.flags = true ∧ (txId ≠ -1 → txId ≠ st.lastTxId)) :
    movedEpoch cfg st txId now =
      if NewEpochDue cfg st now then wrap 32 (st.epoch + 1) else st.epoch := by
  unfold movedEpoch
  rw [if_neg hsets]
  by_cases hdue : NewEpochDue cfg st now
  · rw [if_pos ⟨hsets, hdue, hmay⟩, if_pos hdue]
  · rw [if_neg fun h => hdue h.2.1, if_neg hdue]

theorem movedEpoch_of_not (hsets : ¬SetsByCount cfg st txId)
    (hnot : ¬Increments cfg st txId now) : movedEpoch cfg st txId now = st.epoch := by
  unfold movedEpoch
  rw [if_neg hsets, if_neg hnot]

theorem moveEpoch_epoch (h : SameEpoch st.counted st')
    (hfault : (moveEpoch cfg txId now st').fault = none) :
    (moveEpoch cfg txId now st').epoch = movedEpoch cfg st txId now := by
  have hadvancing : st'.advancing cfg.flags = st.advancing cfg.flags := by
    unfold Step2.advancing
    rw [h.bulkLoadFinished]
    rfl
  have hlast : st'.lastTxId = st.lastTxId := h.lastTxId
  have hepoch : st'.epoch = st.epoch := h.epoch
  have hstart : st'.start = st.start := h.start
  have hbuild : cfg.parser.build = .maxwell ∨ cfg.parser.build = .debezium := by
    cases cfg.parser.build <;> simp
  unfold moveEpoch at hfault ⊢
  rcases hbuild with hbuild | hbuild
  · simp only [hbuild] at hfault ⊢
    cases hmode : cfg.flags.useLogsPerEpoch with
    | true =>
      simp only [hmode, if_true] at hfault ⊢
      rw [epochByCount_epoch h hfault, movedEpoch_of_sets ⟨hmode, by simp [hbuild]⟩]
    | false =>
      have hsets : ¬SetsByCount cfg st txId := fun hs => by simp [hs.1] at hmode
      rw [movedEpoch_of_due hsets (by simp [hbuild])]
      simpa using epochByTime_epoch hmode hepoch hstart
  · simp only [hbuild, hadvancing, hlast] at hfault ⊢
    cases hadv : st.advancing cfg.flags with
    | false =>
      have hsets : ¬SetsByCount cfg st txId := fun hs => by simpa [hadv] using (hs.2 hbuild).1
      rw [movedEpoch_of_not hsets fun hi => by simpa [hadv] using (hi.2.2 hbuild).1]
      simpa using hepoch
    | true =>
      simp only [hadv, if_true] at hfault ⊢
      by_cases htx : txId = -1
      · simp only [if_pos htx] at hfault ⊢
        cases hmode : cfg.flags.useLogsPerEpoch with
        | true =>
          simp only [hmode, if_true] at hfault ⊢
          rw [epochByCount_epoch h hfault, movedEpoch_of_sets ⟨hmode, fun _ => ⟨hadv, htx⟩⟩]
        | false =>
          have hsets : ¬SetsByCount cfg st txId := fun hs => by simp [hs.1] at hmode
          rw [movedEpoch_of_due hsets fun _ => ⟨hadv, fun hne => absurd htx hne⟩]
          simpa using epochByTime_epoch hmode hepoch hstart
      · have hsets : ¬SetsByCount cfg st txId := fun hs => htx (hs.2 hbuild).2
        simp only [if_neg htx] at hfault ⊢
        by_cases hsame : txId = st.lastTxId
        · rw [movedEpoch_of_not hsets fun hi => (hi.2.2 hbuild).2 htx hsame,
            if_neg (not_not.mpr hsame)]
          exact hepoch
        · rw [movedEpoch_of_due hsets fun _ => ⟨hadv, fun _ => hsame⟩, if_pos hsame]
          cases hmode : cfg.flags.useLogsPerEpoch with
          | true =>
            exact @epochByLogs_epoch cfg st { st' with lastTxId := txId } now hmode hepoch
              h.logCount h.lastLogCount
          | false =>
            exact @epochByTime_epoch cfg st { st' with lastTxId := txId } now hmode hepoch hstart

theorem step_epoch {event : Event} {es : List LogEntry} {e : LogEntry} (hfault : st.fault = none)
    (hes : Yields cfg event es e) (hok : (step cfg st event).fault = none) :
    (step cfg st event).epoch =
      if e.lastSnapshot then 1 else movedEpoch cfg st e.txId event.2.now := by
  rw [step_of_yields hfault hes] at hok ⊢
  have hsame := @takeEntries_sameEpoch cfg st.counted es
  generalize takeEntries cfg st.counted es = st1 at hok hsame ⊢
  unfold finishEvent at hok ⊢
  split at hok
  · rename_i hsome
    simp [hok] at hsome
  · rename_i hnone
    rw [if_neg hnone]
    dsimp only at hok ⊢
    split at hok
    · rename_i hsome
      simp [hok] at hsome
    · rename_i hmoved
      rw [if_neg hmoved]
      have hmovedNone : (moveEpoch cfg e.txId event.2.now st1).fault = none := by
        simpa using hmoved
      cases hlast : e.lastSnapshot with
      | true => rfl
      | false => exact moveEpoch_epoch hsame hmovedNone

end moved

/-! ### Epochs along a run -/

section run
variable {cfg : Config} {start : Int}

theorem yields_unique {event : Event} {es es' : List LogEntry} {e e' : LogEntry} (h : Yields cfg event es e)
    (h' : Yields cfg event es' e') : es' = es ∧ e' = e := by
  have heq := h'.1.symm.trans h.1
  cases heq
  have hlast := h'.2.symm.trans h.2
  cases hlast
  exact ⟨rfl, rfl⟩

theorem inRange32_wrap (n : Int) : InRange 32 (wrap 32 n) := by
  have hle : -2 ^ 31 ≤ Int.bmod n (2 ^ 32) := Int.le_bmod (by decide)
  have hlt : Int.bmod n (2 ^ 32) < 2 ^ 31 := Int.bmod_lt (by decide)
  exact ⟨hle, hlt⟩

theorem wrap_of_inRange {n : Int} (h : InRange 32 n) : wrap 32 n = n := by
  apply Int.bmod_eq_of_le
  · exact h.1
  · exact h.2

theorem movedEpoch_inRange {st : Step2} {txId now : Int} (h : InRange 32 st.epoch) :
    InRange 32 (movedEpoch cfg st txId now) := by
  unfold movedEpoch
  split
  · exact inRange32_wrap _
  · split
    · exact inRange32_wrap _
    · exact h

/-- The epoch does not fall at the event: it is at most 1 when the bulk load ends, at most the
quotient that it is set to, and not the largest `int` when it is incremented. -/
def KeepsEpoch (cfg : Config) (st : Step2) (event : Event) : Prop :=
  ∀ es e, Yields cfg event es e →
    if e.lastSnapshot = true then st.epoch ≤ 1
    else
      (SetsByCount cfg st e.txId →
        st.epoch ≤ wrap 32 (st.nextCount / toUInt64 cfg.flags.logsPerEpoch : Nat)) ∧
      (Increments cfg st e.txId event.2.now → st.epoch < 2 ^ 31 - 1)

theorem movedEpoch_ge {st : Step2} {txId now : Int} (hrange : InRange 32 st.epoch)
    (hsets : SetsByCount cfg st txId →
      st.epoch ≤ wrap 32 (st.nextCount / toUInt64 cfg.flags.logsPerEpoch : Nat))
    (hincr : Increments cfg st txId now → st.epoch < 2 ^ 31 - 1) :
    st.epoch ≤ movedEpoch cfg st txId now := by
  unfold movedEpoch
  split
  · rename_i h
    exact hsets h
  · split
    · rename_i h
      have hlow : -2 ^ 31 ≤ st.epoch := hrange.1
      have hhigh := hincr h
      have hnext : InRange 32 (st.epoch + 1) := by
        constructor
        · show -2 ^ 31 ≤ st.epoch + 1
          omega
        · show st.epoch + 1 < 2 ^ 31
          omega
      rw [wrap_of_inRange hnext]
      omega
    · exact Int.le_refl _

/-- The epochs of the messages, in the order in which they are written. -/
def epochsOf (st : Step2) : List Int := st.emitted.map fun m => m.entry.epoch

structure Ordered (st : Step2) : Prop where
  sorted : (epochsOf st).Pairwise (· ≤ ·)
  bound : ∀ m ∈ st.emitted, m.entry.epoch ≤ st.epoch
  inRange : InRange 32 st.epoch

theorem step_ordered {st : Step2} {event : Event} (h : Ordered st)
    (hkeeps : KeepsEpoch cfg st event) :
    (epochsOf (step cfg st event)).Pairwise (· ≤ ·) ∧
      ((step cfg st event).fault = none → Ordered (step cfg st event)) := by
  obtain ⟨new, ends, hemitted, hnew, hends⟩ := step_emits cfg st event
  have hnewEpoch : ∀ m ∈ new, m.entry.epoch = st.epoch := by
    intro m hm
    obtain ⟨es, e, -, hfrom⟩ := hnew (List.ne_nil_of_mem hm)
    obtain ⟨e', -, hem⟩ := hfrom m hm
    exact hem.2
  have hendsEpoch : ∀ m ∈ ends, m.entry.epoch = 1 ∧ st.epoch ≤ 1 := by
    intro m hm
    rcases hends with hnil | ⟨⟨es, e, hes, hlast⟩, offset, hone⟩
    · rw [hnil] at hm
      cases hm
    · have hkeep := hkeeps es e hes
      rw [if_pos hlast] at hkeep
      rw [hone, List.mem_singleton] at hm
      subst hm
      exact ⟨rfl, hkeep⟩
  have hsorted : (epochsOf (step cfg st event)).Pairwise (· ≤ ·) := by
    unfold epochsOf
    rw [hemitted, List.pairwise_map, List.pairwise_append, List.pairwise_append]
    refine ⟨⟨List.pairwise_map.mp h.sorted, ?_, ?_⟩, ?_, ?_⟩
    · apply List.pairwise_of_forall_mem_list
      intro a ha b hb
      exact Int.le_of_eq ((hnewEpoch a ha).trans (hnewEpoch b hb).symm)
    · intro a ha b hb
      rw [hnewEpoch b hb]
      exact h.bound a ha
    · apply List.pairwise_of_forall_mem_list
      intro a ha b hb
      exact Int.le_of_eq ((hendsEpoch a ha).1.trans (hendsEpoch b hb).1.symm)
    · intro a ha b hb
      obtain ⟨hone, hle⟩ := hendsEpoch b hb
      rw [hone]
      rcases List.mem_append.mp ha with hin | hin
      · exact Int.le_trans (h.bound a hin) hle
      · rw [hnewEpoch a hin]
        exact hle
  refine ⟨hsorted, fun hok => ?_⟩
  by_cases hfault : st.fault = none
  · rcases @step_cases cfg st event hfault with ⟨f, hstep⟩ | ⟨-, hstep⟩ | ⟨es, e, hes, -⟩
    · rw [hstep] at hok
      cases hok
    · rw [hstep]
      exact h
    · have hepoch := step_epoch hfault hes hok
      have hkeep := hkeeps es e hes
      -- the epoch after the event bounds the one before it, and 1 at the end of the bulk load
      have hge : st.epoch ≤ (step cfg st event).epoch := by
        rw [hepoch]
        cases hlast : e.lastSnapshot with
        | true => simpa [hlast] using hkeep
        | false =>
          simp only [hlast, Bool.false_eq_true, if_false] at hkeep ⊢
          exact movedEpoch_ge h.inRange hkeep.1 hkeep.2
      refine ⟨hsorted, ?_, ?_⟩
      · intro m hm
        rw [hemitted] at hm
        rcases List.mem_append.mp hm with hin | hin
        · rcases List.mem_append.mp hin with hin | hin
          · exact Int.le_trans (h.bound m hin) hge
          · rw [hnewEpoch m hin]
            exact hge
        · rcases hends with hnil | ⟨⟨es', e', hes', hlast⟩, -⟩
          · rw [hnil] at hin
            cases hin
          · have hsame' : e' = e := (yields_unique hes hes').2
            rw [hsame'] at hlast
            rw [hepoch, if_pos hlast]
            exact Int.le_of_eq (hendsEpoch m hin).1
      · rw [hepoch]
        split
        · decide
        · exact movedEpoch_inRange h.inRange
  · rw [step_of_fault hfault] at hok
    exact absurd hok hfault

/-- The epochs of the messages never decrease in a run in which every event keeps the epoch. -/
theorem epochs_sorted {events : List Event}
    (hkeeps : ∀ before event after, events = before ++ event :: after →
      KeepsEpoch cfg (run cfg start before) event) :
    (epochsOf (run cfg start events)).Pairwise (· ≤ ·) := by
  have hinv : (epochsOf (run cfg start events)).Pairwise (· ≤ ·) ∧
      ((run cfg start events).fault = none → Ordered (run cfg start events)) := by
    apply @run_invariant cfg start events fun _ st =>
      (epochsOf st).Pairwise (· ≤ ·) ∧ (st.fault = none → Ordered st)
    · exact ⟨.nil, fun _ => ⟨.nil, fun m hm => (List.not_mem_nil hm).elim,
        (by decide : InRange 32 0)⟩⟩
    · intro before event after hsplit hbefore
      rw [run_append]
      by_cases hfault : (run cfg start before).fault = none
      · exact step_ordered (hbefore.2 hfault) (hkeeps before event after hsplit)
      · rw [step_of_fault hfault]
        exact hbefore
  exact hinv.1

theorem keepsEpoch_iff {st : Step2} {event : Event} : KeepsEpoch cfg st event ↔
    ∀ es, processBinlogStep1 cfg.parser event.1 = .ok es → ∀ e ∈ es.getLast?,
      if e.lastSnapshot = true then st.epoch ≤ 1
      else
        (SetsByCount cfg st e.txId →
          st.epoch ≤ wrap 32 (st.nextCount / toUInt64 cfg.flags.logsPerEpoch : Nat)) ∧
        (Increments cfg st e.txId event.2.now → st.epoch < 2 ^ 31 - 1) :=
  ⟨fun h es hes e he => h es e ⟨hes, he⟩, fun h es e hes => h es hes.1 e hes.2⟩

instance (cfg : Config) (st : Step2) (event : Event) : Decidable (KeepsEpoch cfg st event) :=
  decidable_of_iff _ keepsEpoch_iff.symm

/-- The last row of a snapshot and three transactions after it, with a new epoch for each. -/
def threeEpochs : List Event := atOnce
  [rowChange "person" "r" "last" (some 5) (personRow 1),
   rowChange "person" "c" "false" (some 7) (personRow 2),
   rowChange "person" "u" "false" (some 8) (personRow 2),
   rowChange "person" "c" "false" (some 9) (personRow 3)]

theorem epochs_sorted_threeEpochs :
    epochsOf (run (personConfig { logsPerEpoch := 1 }) 0 threeEpochs) = [0, 1, 1, 2, 3] ∧
      (epochsOf (run (personConfig { logsPerEpoch := 1 }) 0 threeEpochs)).Pairwise (· ≤ ·) := by
  refine ⟨by decide +kernel, epochs_sorted ?_⟩
  exact forall_split_of_get (P := fun before event => KeepsEpoch (personConfig { logsPerEpoch := 1 })
    (run (personConfig { logsPerEpoch := 1 }) 0 before) event) (by decide +kernel)

/-- A source without transaction ids: the epoch is 1 after the snapshot and 0 after the next event. -/
def withoutGtid : List Event := atOnce
  [rowChange "person" "r" "last" none (personRow 1),
   rowChange "person" "c" "false" none (personRow 2),
   rowChange "person" "c" "false" none (personRow 3)]

theorem epochs_decrease :
    epochsOf (run (personConfig {}) 0 withoutGtid) = [0, 1, 1, 0] ∧
      ¬(epochsOf (run (personConfig {}) 0 withoutGtid)).Pairwise (· ≤ ·) := by
  decide +kernel

end run

/-! ### Transactions -/

def txOf (cfg : Config) (event : Event) : Option Int :=
  match processBinlogStep1 cfg.parser event.1 with
  | .ok es => es.getLast?.map LogEntry.txId
  | .error _ => none

/-- The transactions of the events that yield entries, in the order of the events. -/
def txsOf (cfg : Config) (events : List Event) : List Int := events.filterMap (txOf cfg)

def Consecutive (xs : List Int) : Prop :=
  ∀ before t between after, xs = before ++ t :: (between ++ t :: after) → ∀ u ∈ between, u = t

/-- The message is one of an event, not the mark of the end of the bulk load. -/
def Message.ofEvent (m : Message) : Prop := m.entry.opType ≠ .bulkloadEnd

instance (m : Message) : Decidable m.ofEvent := inferInstanceAs (Decidable (_ ≠ _))

def Atomic (messages : List Message) : Prop :=
  ∀ m ∈ messages, ∀ m' ∈ messages, m.ofEvent → m'.ofEvent → m.entry.txId = m'.entry.txId →
    m.entry.epoch = m'.entry.epoch

/-- The epoch after the event differs from the epoch of its messages: a new epoch begins, or the
bulk load ends at another epoch than 1. -/
def MovesEpoch (cfg : Config) (st : Step2) (event : Event) (e : LogEntry) : Prop :=
  if e.lastSnapshot = true then st.epoch ≠ 1 else Increments cfg st e.txId event.2.now

/-- No event that writes messages moves the epoch while its transaction goes on. -/
def MovesBetween (cfg : Config) (start : Int) (events : List Event) : Prop :=
  ∀ before event between later after es e,
    events = before ++ event :: (between ++ later :: after) → Yields cfg event es e →
    txOf cfg later = some e.txId →
    cfg.lastProcessedOffset < (run cfg start before).processedCount + es.length →
    ¬MovesEpoch cfg (run cfg start before) event e

section tx
variable {cfg : Config} {start : Int} {st : Step2} {event : Event} {es : List LogEntry}
  {e : LogEntry}

theorem txOf_of_yields (h : Yields cfg event es e) : txOf cfg event = some e.txId := by
  unfold txOf
  rw [h.1]
  simp only [h.2]
  rfl

theorem yields_uniform (h : Yields cfg event es e) :
    ∀ e' ∈ es, e'.txId = e.txId ∧ e'.snapshot = e.snapshot ∧ e'.opType ≠ .bulkloadEnd := by
  have hmem := List.mem_of_getLast? h.2
  obtain ⟨log, hd, hline, hheader⟩ := step1_header h.1 (List.ne_nil_of_mem hmem)
  have hes := h.1
  rw [hline] at hes
  have hfilled := step1_filled hheader hes
  obtain ⟨slot, -, hf, -⟩ := hfilled e hmem
  intro e' he'
  obtain ⟨slot', hslot', hf', -⟩ := hfilled e' he'
  refine ⟨hf'.txId.trans hf.txId.symm, hf'.snapshot.trans hf.snapshot.symm, ?_⟩
  rw [hf'.op]
  exact (slots_op hheader hslot').1

/-- The messages an event writes for its entries, by what is left of it after the offset. -/
theorem step_new (h : Paced cfg st) (hfault : st.fault = none) (hes : Yields cfg event es e) :
    ∃ new ends, (step cfg st event).emitted = st.emitted ++ new ++ ends ∧
      (∀ m ∈ new, m.ofEvent ∧ m.entry.txId = e.txId ∧ m.entry.epoch = st.epoch) ∧
      (∀ m ∈ ends, ¬m.ofEvent) ∧
      (st.processedCount + es.length ≤ cfg.lastProcessedOffset → new = []) ∧
      ((step cfg st event).fault = none →
        cfg.lastProcessedOffset < st.processedCount + es.length → new ≠ []) := by
  have hcounted : Paced cfg st.counted := ⟨h.mode, h.length_le, h.length_eq⟩
  have htaken := @step_taken cfg st event h es e hes hfault
  obtain ⟨hp, -, hle, -⟩ := @takeEntries_paced cfg st.counted es hcounted
  obtain ⟨new, hnew, hfrom⟩ := @takeEntries_emits cfg st.counted es
  have hemitted : (takeEntries cfg st.counted es).emitted = st.emitted ++ new := hnew
  have hlength : (takeEntries cfg st.counted es).emitted.length = st.emitted.length + new.length := by
    rw [hemitted, List.length_append]
  have hold := h.length_eq hfault
  have hpos : 0 < es.length := List.length_pos_of_mem (List.mem_of_getLast? hes.2)
  have hends : ∃ ends, (step cfg st event).emitted = st.emitted ++ new ++ ends ∧
      ∀ m ∈ ends, ¬m.ofEvent := by
    rw [step_of_yields hfault hes]
    rcases @finishEvent_emits cfg (takeEntries cfg st.counted es) e event.2 with
      hsame | ⟨-, offset, hend⟩
    · exact ⟨[], by rw [hsame, hemitted, List.append_nil], fun m hm => (List.not_mem_nil hm).elim⟩
    · refine ⟨_, by rw [hend, hemitted], ?_⟩
      intro m hm
      rw [List.mem_singleton.mp hm]
      exact fun hof => hof rfl
  obtain ⟨ends, happ, hmark⟩ := hends
  refine ⟨new, ends, happ, ?_, hmark, ?_, ?_⟩
  · intro m hm
    obtain ⟨e', he', hcontent, hepoch⟩ := hfrom m hm
    obtain ⟨htx, -, hop⟩ := yields_uniform hes e' he'
    refine ⟨?_, hcontent.txId.trans htx, hepoch⟩
    unfold Message.ofEvent
    rw [hcontent.opType]
    exact hop
  · intro hbefore
    have hlen := hp.length_le
    have hle' : (takeEntries cfg st.counted es).processedCount ≤ st.processedCount + es.length := hle
    apply List.eq_nil_of_length_eq_zero
    omega
  · intro hok hafter hnil
    obtain ⟨hnone, hcount, -⟩ := htaken hok
    have hlen := hp.length_eq hnone
    rw [hnil, List.length_nil] at hlength
    omega

theorem step_epoch_iff (hbuild : cfg.parser.build = .debezium) (htx : e.txId ≠ -1)
    (hfault : st.fault = none) (hes : Yields cfg event es e)
    (hok : (step cfg st event).fault = none) :
    (step cfg st event).epoch = st.epoch ↔ ¬MovesEpoch cfg st event e := by
  have hepoch := step_epoch hfault hes hok
  have hsets : ¬SetsByCount cfg st e.txId := fun hs => htx (hs.2 hbuild).2
  rw [hepoch]
  unfold MovesEpoch
  cases hlast : e.lastSnapshot with
  | true =>
    simp only [if_true, not_not]
    exact eq_comm
  | false =>
    simp only [Bool.false_eq_true, if_false]
    by_cases hincr : Increments cfg st e.txId event.2.now
    · have hmoved : movedEpoch cfg st e.txId event.2.now = wrap 32 (st.epoch + 1) := by
        unfold movedEpoch
        rw [if_neg hsets, if_pos hincr]
      have hne : wrap 32 (st.epoch + 1) ≠ st.epoch := by
        intro heq
        have hdvd : ((2 ^ 32 : Nat) : Int) ∣ st.epoch + 1 - wrap 32 (st.epoch + 1) :=
          Int.dvd_self_sub_bmod
        rw [heq] at hdvd
        omega
      simp [hmoved, hincr, hne]
    · simp [movedEpoch_of_not hsets hincr, hincr]

end tx

/-! ### Transactions along a run -/

section atomic
variable {cfg : Config} {start : Int} {events : List Event}

theorem txsOf_between (hconsecutive : Consecutive (txsOf cfg events)) {before between after : List Event}
    {first middle last : Event} {t u : Int} (hfirst : first ∈ before)
    (hsplit : events = before ++ middle :: (between ++ last :: after))
    (htx : txOf cfg first = some t) (htx' : txOf cfg last = some t)
    (hmiddle : txOf cfg middle = some u) : u = t := by
  obtain ⟨head, tail, rfl⟩ := List.append_of_mem hfirst
  apply hconsecutive (txsOf cfg head) t (txsOf cfg tail ++ u :: txsOf cfg between) (txsOf cfg after)
  · rw [hsplit]
    simp [txsOf, List.filterMap_append, htx, htx', hmiddle]
  · exact List.mem_append_right _ List.mem_cons_self

/-- What holds before an event about the messages written so far. -/
structure TxInv (cfg : Config) (events past : List Event) (st : Step2) : Prop where
  atomic : Atomic st.emitted
  known : ∀ m ∈ st.emitted, m.ofEvent → ∃ event ∈ past, txOf cfg event = some m.entry.txId
  current : st.fault = none → ∀ rest, events = past ++ rest → ∀ m ∈ st.emitted, m.ofEvent →
    (∃ later ∈ rest, txOf cfg later = some m.entry.txId) → m.entry.epoch = st.epoch

theorem step_txInv (hbuild : cfg.parser.build = .debezium)
    (htx : ∀ t ∈ txsOf cfg events, t ≠ -1) (hconsecutive : Consecutive (txsOf cfg events))
    (hmoves : MovesBetween cfg start events) {before after : List Event} {event : Event}
    (hsplit : events = before ++ event :: after)
    (h : TxInv cfg events before (run cfg start before)) :
    TxInv cfg events (before ++ [event]) (run cfg start (before ++ [event])) := by
  have hpaced := run_paced cfg start before
  rw [run_append]
  have hmoves' := fun between later rest es e hrest => hmoves before event between later rest es e hrest
  generalize run cfg start before = st at h hpaced hmoves'
  have hmono : ∀ m : Message, (∃ ev ∈ before, txOf cfg ev = some m.entry.txId) →
      ∃ ev ∈ before ++ [event], txOf cfg ev = some m.entry.txId :=
    fun m ⟨ev, hev, heq⟩ => ⟨ev, List.mem_append_left _ hev, heq⟩
  by_cases hfault : st.fault = none
  · rcases @step_cases cfg st event hfault with ⟨f, hstep⟩ | ⟨-, hstep⟩ | ⟨es, e, hes, -⟩
    · rw [hstep]
      exact ⟨h.atomic, fun m hm hof => hmono m (h.known m hm hof), fun hnone => by cases hnone⟩
    · rw [hstep]
      refine ⟨h.atomic, fun m hm hof => hmono m (h.known m hm hof), ?_⟩
      rintro hnone rest hrest m hm hof ⟨later, hlater, heq⟩
      apply h.current hnone (event :: rest) (by simpa using hrest) m hm hof
      exact ⟨later, List.mem_cons_of_mem _ hlater, heq⟩
    · obtain ⟨new, ends, hemitted, hnew, hends, hnone, -⟩ := step_new hpaced hfault hes
      have htxEvent := txOf_of_yields hes
      have htxNe : e.txId ≠ -1 := by
        apply htx
        rw [hsplit]
        simp [txsOf, List.filterMap_append, htxEvent]
      -- a message of this transaction carries the epoch before the event
      have hcurrent : ∀ m ∈ st.emitted ++ new, m.ofEvent → m.entry.txId = e.txId →
          m.entry.epoch = st.epoch := by
        intro m hm hof heq
        rcases List.mem_append.mp hm with hold | hin
        · exact h.current hfault (event :: after) hsplit m hold hof
            ⟨event, List.mem_cons_self, by rw [heq, htxEvent]⟩
        · exact (hnew m hin).2.2
      have hofEvent : ∀ m ∈ (step cfg st event).emitted, m.ofEvent → m ∈ st.emitted ++ new := by
        intro m hm hof
        rw [hemitted] at hm
        rcases List.mem_append.mp hm with hin | hin
        · exact hin
        · exact absurd hof (hends m hin)
      refine ⟨?_, ?_, ?_⟩
      · intro m hm m' hm' hof hof' heq
        rcases List.mem_append.mp (hofEvent m hm hof) with hin | hin
        · rcases List.mem_append.mp (hofEvent m' hm' hof') with hin' | hin'
          · exact h.atomic m hin m' hin' hof hof' heq
          · rw [(hnew m' hin').2.2]
            exact hcurrent m (List.mem_append_left _ hin) hof (heq.trans (hnew m' hin').2.1)
        · rw [(hnew m hin).2.2]
          exact (hcurrent m' (hofEvent m' hm' hof') hof' (heq ▸ (hnew m hin).2.1)).symm
      · intro m hm hof
        rcases List.mem_append.mp (hofEvent m hm hof) with hin | hin
        · exact hmono m (h.known m hin hof)
        · exact ⟨event, by simp, by rw [(hnew m hin).2.1, htxEvent]⟩
      · rintro hok rest hrest m hm hof ⟨later, hlater, heq⟩
        have hafter : rest = after := by
          rw [hsplit, List.append_assoc] at hrest
          exact (List.cons.inj (List.append_cancel_left hrest)).2.symm
        subst hafter
        obtain ⟨between, last, hbetween⟩ := List.append_of_mem hlater
        rw [hbetween] at hsplit
        -- the transaction of the message is that of the event, which comes between
        have hsame : m.entry.txId = e.txId := by
          rcases List.mem_append.mp (hofEvent m hm hof) with hin | hin
          · obtain ⟨first, hfirst, hknown⟩ := h.known m hin hof
            exact (txsOf_between hconsecutive hfirst hsplit hknown heq htxEvent).symm
          · exact (hnew m hin).2.1
        have hwrites : cfg.lastProcessedOffset < st.processedCount + es.length := by
          rcases List.mem_append.mp (hofEvent m hm hof) with hin | hin
          · have hlen := hpaced.length_le
            have hpos := List.length_pos_of_mem hin
            omega
          · by_contra hle
            have hnil := hnone (by omega)
            rw [hnil] at hin
            cases hin
        have hnot := hmoves' between later last es e hsplit hes (by rw [heq, hsame]) hwrites
        rw [(step_epoch_iff hbuild htxNe hfault hes hok).mpr hnot]
        exact hcurrent m (hofEvent m hm hof) hof hsame
  · rw [step_of_fault hfault]
    exact ⟨h.atomic, fun m hm hof => hmono m (h.known m hm hof), fun hnone => absurd hnone hfault⟩

theorem atomic_of_movesBetween (hbuild : cfg.parser.build = .debezium)
    (htx : ∀ t ∈ txsOf cfg events, t ≠ -1) (hconsecutive : Consecutive (txsOf cfg events))
    (hmoves : MovesBetween cfg start events) : Atomic (run cfg start events).emitted := by
  have hinv : TxInv cfg events events (run cfg start events) := by
    apply @run_invariant cfg start events fun past st => TxInv cfg events past st
    · exact ⟨fun m hm => (List.not_mem_nil hm).elim, fun m hm => (List.not_mem_nil hm).elim,
        fun _ rest _ m hm => (List.not_mem_nil hm).elim⟩
    · intro before event after hsplit h
      exact step_txInv hbuild htx hconsecutive hmoves hsplit h
  exact hinv.atomic

theorem exists_first_yielding {l : List Event} {later : Event} {t : Int} (hlater : later ∈ l)
    (ht : txOf cfg later = some t) : ∃ skipped event rest u, l = skipped ++ event :: rest ∧
      (∀ x ∈ skipped, txOf cfg x = none) ∧ txOf cfg event = some u ∧ later ∈ event :: rest := by
  induction l with
  | nil => cases hlater
  | cons head tail ih =>
    cases hhead : txOf cfg head with
    | some u => exact ⟨[], head, tail, u, rfl, fun x hx => (List.not_mem_nil hx).elim, hhead, hlater⟩
    | none =>
      rcases List.mem_cons.mp hlater with rfl | htail
      · rw [hhead] at ht
        cases ht
      · obtain ⟨skipped, event, rest, u, rfl, hnone, hevent, hin⟩ := ih htail
        refine ⟨head :: skipped, event, rest, u, rfl, ?_, hevent, hin⟩
        intro x hx
        rcases List.mem_cons.mp hx with rfl | hx
        · exact hhead
        · exact hnone x hx

theorem foldl_skipped {skipped : List Event} (hnone : ∀ x ∈ skipped, txOf cfg x = none) :
    ∀ st : Step2, (skipped.foldl (step cfg) st).fault = none →
      skipped.foldl (step cfg) st = st := by
  induction skipped with
  | nil => exact fun st _ => rfl
  | cons head tail ih =>
    intro st hok
    have hrest := ih (fun x hx => hnone x (List.mem_cons_of_mem _ hx)) (step cfg st head) hok
    have hstepOk : (step cfg st head).fault = none := (foldl_step tail _).2 hok
    have hfault : st.fault = none := (foldl_step (head :: tail) st).2 hok
    show tail.foldl (step cfg) (step cfg st head) = st
    rw [hrest]
    rcases @step_cases cfg st head hfault with ⟨f, hstep⟩ | ⟨-, hstep⟩ | ⟨es, e, hes, -⟩
    · rw [hstep] at hstepOk
      cases hstepOk
    · exact hstep
    · have hhead := hnone head List.mem_cons_self
      rw [txOf_of_yields hes] at hhead
      cases hhead

theorem yields_of_txOf {event : Event} {t : Int} (h : txOf cfg event = some t) :
    ∃ es e, Yields cfg event es e ∧ e.txId = t := by
  unfold txOf at h
  cases hes : processBinlogStep1 cfg.parser event.1 with
  | error f =>
    rw [hes] at h
    cases h
  | ok es =>
    rw [hes] at h
    obtain ⟨e, he, heq⟩ := Option.map_eq_some_iff.mp h
    exact ⟨es, e, ⟨hes, he⟩, heq⟩

theorem movesBetween_of_atomic (hbuild : cfg.parser.build = .debezium)
    (htx : ∀ t ∈ txsOf cfg events, t ≠ -1) (hconsecutive : Consecutive (txsOf cfg events))
    (hok : (run cfg start events).fault = none)
    (hatomic : Atomic (run cfg start events).emitted) : MovesBetween cfg start events := by
  intro before event between later after es e hsplit hes hlater hwrites
  have hpaced := run_paced cfg start before
  have hlaterMem : later ∈ between ++ later :: after := by simp
  obtain ⟨skipped, next, rest, u, hrest, hskipped, hnext, hin⟩ :=
    exists_first_yielding hlaterMem hlater
  have hsplit' : events = (before ++ event :: skipped) ++ next :: rest := by
    rw [hsplit, hrest]
    simp
  have htxEvent := txOf_of_yields hes
  have hu : u = e.txId := by
    rcases List.mem_cons.mp hin with rfl | htail
    · rw [hlater] at hnext
      exact (Option.some.inj hnext).symm
    · obtain ⟨head, tail, rfl⟩ := List.append_of_mem htail
      exact txsOf_between hconsecutive (by simp) hsplit' htxEvent hlater hnext
  -- the run up to the event, through it, and to the next one
  have hrun : run cfg start events = (next :: rest).foldl (step cfg)
      (skipped.foldl (step cfg) (step cfg (run cfg start before) event)) := by
    rw [hsplit', run_append_list, run_append_list]
    rfl
  rw [hrun] at hok hatomic
  generalize run cfg start before = st at hpaced hwrites hok hatomic ⊢
  have hokSkipped := (foldl_step (next :: rest) _).2 hok
  have hsame := foldl_skipped hskipped _ hokSkipped
  rw [hsame] at hok hatomic hokSkipped
  have hfault : st.fault = none := (foldl_step [event] st).2 hokSkipped
  have hokNext : (step cfg (step cfg st event) next).fault = none := (foldl_step rest _).2 hok
  obtain ⟨es', e', hes', he'⟩ := yields_of_txOf hnext
  obtain ⟨new, ends, hemitted, hnew, -, -, hne⟩ := step_new hpaced hfault hes
  obtain ⟨new', ends', hemitted', hnew', -, -, hne'⟩ :=
    step_new (@step_paced cfg st event hpaced).1 hokSkipped hes'
  have hcount := (@step_taken cfg st event hpaced es e hes hfault hokSkipped).2.2
  obtain ⟨m, hm⟩ := List.exists_mem_of_ne_nil _ (hne hokSkipped hwrites)
  obtain ⟨m', hm'⟩ := List.exists_mem_of_ne_nil _ (hne' hokNext (by omega))
  obtain ⟨⟨more, hmore⟩, -⟩ := @foldl_step cfg rest (step cfg (step cfg st event) next)
  have hmem : m ∈ ((next :: rest).foldl (step cfg) (step cfg st event)).emitted := by
    show m ∈ (rest.foldl (step cfg) (step cfg (step cfg st event) next)).emitted
    rw [hmore, hemitted', hemitted]
    simp [hm]
  have hmem' : m' ∈ ((next :: rest).foldl (step cfg) (step cfg st event)).emitted := by
    show m' ∈ (rest.foldl (step cfg) (step cfg (step cfg st event) next)).emitted
    rw [hmore, hemitted']
    simp [hm']
  obtain ⟨hof, htxm, hepoch⟩ := hnew m hm
  obtain ⟨hof', htxm', hepoch'⟩ := hnew' m' hm'
  have heq := hatomic m hmem m' hmem' hof hof' (by rw [htxm, htxm', he', hu])
  have htxNe : e.txId ≠ -1 := by
    apply htx
    rw [hsplit]
    simp [txsOf, List.filterMap_append, htxEvent]
  apply (step_epoch_iff hbuild htxNe hfault hes hokSkipped).mp
  rw [← hepoch', ← heq, hepoch]

/-- The messages of a transaction have one epoch exactly when no event that writes messages moves
the epoch while its transaction goes on; of a run that an exception ends, the condition is enough. -/
theorem transaction_epochs (hbuild : cfg.parser.build = .debezium)
    (htx : ∀ t ∈ txsOf cfg events, t ≠ -1) (hconsecutive : Consecutive (txsOf cfg events)) :
    (MovesBetween cfg start events → Atomic (run cfg start events).emitted) ∧
      ((run cfg start events).fault = none →
        (Atomic (run cfg start events).emitted ↔ MovesBetween cfg start events)) :=
  ⟨atomic_of_movesBetween hbuild htx hconsecutive, fun hok =>
    ⟨movesBetween_of_atomic hbuild htx hconsecutive hok,
      atomic_of_movesBetween hbuild htx hconsecutive⟩⟩

end atomic

def twoRows : List Event := atOnce
  [rowChange "person" "c" "false" (some 7) (personRow 1),
   rowChange "person" "c" "false" (some 7) (personRow 2)]

theorem twoRows_txs (flags : Flags) : txsOf (personConfig flags) twoRows = [7, 7] := rfl

theorem twoRows_consecutive (flags : Flags) :
    Consecutive (txsOf (personConfig flags) twoRows) := by
  rw [twoRows_txs]
  intro before t between after heq u hu
  have hall : ∀ x ∈ before ++ t :: (between ++ t :: after), x = 7 := by
    rw [← heq]
    simp
  have ht := hall t (by simp)
  have hu' := hall u (by simp [hu])
  rw [ht, hu']

theorem transaction_epochs_twoRows :
    (MovesBetween (personConfig {}) 0 twoRows → Atomic (run (personConfig {}) 0 twoRows).emitted) ∧
      ((run (personConfig {}) 0 twoRows).fault = none →
        (Atomic (run (personConfig {}) 0 twoRows).emitted ↔
          MovesBetween (personConfig {}) 0 twoRows)) :=
  transaction_epochs rfl (by rw [twoRows_txs]; decide) (twoRows_consecutive _)

/-- With a new epoch after each event, the rows of a transaction get the epochs 0 and 1. -/
theorem transaction_split :
    (personConfig { logsPerEpoch := 1 }).parser.build = .debezium ∧
      (∀ t ∈ txsOf (personConfig { logsPerEpoch := 1 }) twoRows, t ≠ -1) ∧
      Consecutive (txsOf (personConfig { logsPerEpoch := 1 }) twoRows) ∧
      epochsOf (run (personConfig { logsPerEpoch := 1 }) 0 twoRows) = [0, 1] ∧
      ¬Atomic (run (personConfig { logsPerEpoch := 1 }) 0 twoRows).emitted := by
  refine ⟨rfl, by rw [twoRows_txs]; decide, twoRows_consecutive _, by decide +kernel, ?_⟩
  intro hatomic
  have hsplit : ∃ m ∈ (run (personConfig { logsPerEpoch := 1 }) 0 twoRows).emitted,
      ∃ m' ∈ (run (personConfig { logsPerEpoch := 1 }) 0 twoRows).emitted,
        m.ofEvent ∧ m'.ofEvent ∧ m.entry.txId = m'.entry.txId ∧
          m.entry.epoch ≠ m'.entry.epoch := by
    decide +kernel
  obtain ⟨m, hm, m', hm', hof, hof', htx, hne⟩ := hsplit
  exact hne (hatomic m hm m' hm' hof hof' htx)

end Gart.Converter
