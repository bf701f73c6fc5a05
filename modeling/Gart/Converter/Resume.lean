import Gart.Converter.Stream

/-!
# A converter that starts again

A restarted converter reads the source from the beginning, with other readings of
its clock, and does not write before its resume offset. Counting epochs by logs,
or with the same clock, it goes through the same states as a converter that
starts from an empty log, whose messages it writes from the resume offset on.
-/

namespace Gart.Converter
open Gart.Outcome Gart.Decimal

def Config.fresh (cfg : Config) : Config := { cfg with lastProcessedOffset := 0 }

def ClockAgrees (cfg : Config) (c c' : Clock) : Prop := cfg.flags.useLogsPerEpoch = true ∨ c = c'

def SameSource (cfg : Config) (events events' : List Event) : Prop :=
  List.Forall₂ (fun a b => a.1 = b.1 ∧ ClockAgrees cfg a.2 b.2) events events'

/-- `st` is the state of the resumed converter where the fresh one is in `st0`. -/
structure Resumed (cfg : Config) (st0 st : Step2) : Prop where
  epoch : st.epoch = st0.epoch
  logCount : st.logCount = st0.logCount
  lastTxId : st.lastTxId = st0.lastTxId
  lastLogCount : st.lastLogCount = st0.lastLogCount
  processedCount : st.processedCount = st0.processedCount
  bulkLoadFinished : st.bulkLoadFinished = st0.bulkLoadFinished
  ids : st.ids = st0.ids
  fault : st.fault = st0.fault
  start : cfg.flags.useLogsPerEpoch = true ∨ st.start = st0.start
  emitted : st.emitted = st0.emitted.drop cfg.lastProcessedOffset
  paced : Paced cfg st
  pacedFresh : Paced cfg.fresh st0

section
variable {cfg : Config} {st0 st : Step2} {e : LogEntry} {es : List LogEntry}

theorem drop_append_one {α : Type} (xs : List α) (x : α) (n : Nat) :
    (xs ++ [x]).drop n = if xs.length < n then xs.drop n else xs.drop n ++ [x] := by
  split
  · rename_i h
    have hlength : (xs ++ [x]).length ≤ n := by
      rw [List.length_append, List.length_singleton]
      omega
    rw [List.drop_eq_nil_of_le hlength, List.drop_eq_nil_of_le (by omega)]
  · rename_i h
    rw [List.drop_append_of_le_length (by omega)]

/-- One more message, written by the fresh converter and, past the offset, by the resumed one. -/
theorem resumed_emit (h : Resumed cfg st0 st) (hfault : st0.fault = none) (m : Message) :
    (if st.silent cfg then st.emitted else st.emitted ++ [m]) =
      (if st0.silent cfg.fresh then st0.emitted else st0.emitted ++ [m]).drop
        cfg.lastProcessedOffset := by
  have hlength := h.pacedFresh.length_eq hfault
  have hzero : st0.emitted.length = st0.processedCount := hlength
  have hsilent : st0.silent cfg.fresh = false := by
    rw [silent_eq h.pacedFresh]
    exact decide_eq_false (Nat.not_lt_zero _)
  rw [hsilent, silent_eq h.paced, h.processedCount, h.emitted]
  simp only [Bool.false_eq_true, if_false, decide_eq_true_eq]
  rw [drop_append_one, hzero]

theorem takeEntry_resumed (h : Resumed cfg st0 st) :
    Resumed cfg (takeEntry cfg.fresh st0 e) (takeEntry cfg st e) := by
  have hpaced := (@takeEntry_paced cfg st e h.paced).1
  have hpaced0 := (@takeEntry_paced cfg.fresh st0 e h.pacedFresh).1
  by_cases hfault : st0.fault = none
  · have hemit := resumed_emit h hfault
    have hsome : ¬st0.fault.isSome = true := by simp [hfault]
    have hsome' : ¬st.fault.isSome = true := by simp [h.fault, hfault]
    unfold takeEntry at hpaced hpaced0 ⊢
    rw [if_neg hsome'] at hpaced ⊢
    rw [if_neg hsome] at hpaced0 ⊢
    dsimp only at hpaced hpaced0 ⊢
    rw [h.ids, h.epoch] at hpaced ⊢
    have hparser : cfg.fresh.parser = cfg.parser := rfl
    rw [hparser] at hpaced0 ⊢
    cases hagain : parseAgain cfg.parser st0.ids e st0.epoch with
    | error f =>
      rw [hagain] at hpaced hpaced0
      exact ⟨rfl, h.logCount, h.lastTxId, h.lastLogCount, congrArg (· + 1) h.processedCount,
        h.bulkLoadFinished, rfl, rfl, h.start, h.emitted, hpaced, hpaced0⟩
    | ok r =>
      rw [hagain] at hpaced hpaced0
      refine ⟨rfl, h.logCount, h.lastTxId, h.lastLogCount, congrArg (· + 1) h.processedCount,
        h.bulkLoadFinished, rfl, h.fault, h.start, ?_, hpaced, hpaced0⟩
      rw [h.processedCount]
      exact hemit ⟨r.2, st0.processedCount + 1⟩
  · have hsame : takeEntry cfg.fresh st0 e = st0 := by
      unfold takeEntry
      rw [if_pos (Option.isSome_iff_ne_none.mpr hfault)]
    have hsame' : takeEntry cfg st e = st := by
      unfold takeEntry
      rw [if_pos (Option.isSome_iff_ne_none.mpr (h.fault ▸ hfault))]
    rw [hsame, hsame']
    exact h

theorem takeEntries_resumed (h : Resumed cfg st0 st) :
    Resumed cfg (takeEntries cfg.fresh st0 es) (takeEntries cfg st es) := by
  induction es generalizing st0 st with
  | nil => exact h
  | cons e rest ih => exact ih (takeEntry_resumed h)

end

/-! ### Moving the epoch in both -/

/-- The members that decide about the epoch agree; the clock only where it is read. -/
structure EpochAgrees (f : Flags) (st0 st : Step2) : Prop where
  epoch : st.epoch = st0.epoch
  logCount : st.logCount = st0.logCount
  lastTxId : st.lastTxId = st0.lastTxId
  lastLogCount : st.lastLogCount = st0.lastLogCount
  fault : st.fault = st0.fault
  start : f.useLogsPerEpoch = true ∨ st.start = st0.start

section epoch
variable {cfg : Config} {f : Flags} {st0 st : Step2} {txId now now' : Int}

theorem epochByCount_agrees (h : EpochAgrees f st0 st) :
    EpochAgrees f (epochByCount f st0) (epochByCount f st) := by
  unfold epochByCount
  dsimp only
  split
  · exact ⟨h.epoch, h.logCount, h.lastTxId, h.lastLogCount, rfl, h.start⟩
  · exact ⟨by rw [h.logCount], h.logCount, h.lastTxId, h.lastLogCount, h.fault, h.start⟩

theorem epochByTime_agrees (h : EpochAgrees f st0 st) (hmode : f.useLogsPerEpoch = false)
    (hnow : now' = now) : EpochAgrees f (epochByTime f now st0) (epochByTime f now' st) := by
  have hstart : st.start = st0.start := by
    rcases h.start with hs | hs
    · rw [hmode] at hs
      cases hs
    · exact hs
  unfold epochByTime
  rw [hnow, hstart]
  split
  · exact ⟨by rw [h.epoch], h.logCount, h.lastTxId, h.lastLogCount, h.fault, .inr rfl⟩
  · exact h

theorem epochByLogs_agrees (h : EpochAgrees f st0 st) :
    EpochAgrees f (epochByLogs f st0) (epochByLogs f st) := by
  unfold epochByLogs
  rw [h.logCount, h.lastLogCount]
  split
  · exact ⟨by rw [h.epoch], rfl, h.lastTxId, rfl, h.fault, h.start⟩
  · exact h

theorem moveEpoch_agrees (h : EpochAgrees cfg.flags st0 st)
    (hbulk : st.bulkLoadFinished = st0.bulkLoadFinished)
    (hnow : cfg.flags.useLogsPerEpoch = true ∨ now' = now) :
    EpochAgrees cfg.flags (moveEpoch cfg.fresh txId now st0) (moveEpoch cfg txId now' st) := by
  have hadvancing : st.advancing cfg.flags = st0.advancing cfg.flags := by
    unfold Step2.advancing
    rw [hbulk]
  have htime : cfg.flags.useLogsPerEpoch = false → now' = now := by
    intro hmode
    rcases hnow with hlogs | heq
    · rw [hmode] at hlogs
      cases hlogs
    · exact heq
  -- the two ways in which an epoch may begin after a count or a time
  have hcountOrTime : EpochAgrees cfg.flags
      (if cfg.flags.useLogsPerEpoch then epochByCount cfg.flags st0
        else epochByTime cfg.flags now st0)
      (if cfg.flags.useLogsPerEpoch then epochByCount cfg.flags st
        else epochByTime cfg.flags now' st) := by
    cases hmode : cfg.flags.useLogsPerEpoch with
    | true => simpa using epochByCount_agrees h
    | false => simpa using epochByTime_agrees h hmode (htime hmode)
  have hset : EpochAgrees cfg.flags { st0 with lastTxId := txId } { st with lastTxId := txId } :=
    ⟨h.epoch, h.logCount, rfl, h.lastLogCount, h.fault, h.start⟩
  have hlogsOrTime : EpochAgrees cfg.flags
      (if cfg.flags.useLogsPerEpoch then epochByLogs cfg.flags { st0 with lastTxId := txId }
        else epochByTime cfg.flags now { st0 with lastTxId := txId })
      (if cfg.flags.useLogsPerEpoch then epochByLogs cfg.flags { st with lastTxId := txId }
        else epochByTime cfg.flags now' { st with lastTxId := txId }) := by
    cases hmode : cfg.flags.useLogsPerEpoch with
    | true => simpa using epochByLogs_agrees hset
    | false => simpa using epochByTime_agrees hset hmode (htime hmode)
  have hparser : cfg.fresh.parser = cfg.parser := rfl
  have hflags : cfg.fresh.flags = cfg.flags := rfl
  unfold moveEpoch
  rw [hparser, hflags, hadvancing, h.lastTxId]
  split
  · exact hcountOrTime
  · split
    · split
      · exact hcountOrTime
      · split
        · exact hlogsOrTime
        · exact h
    · exact h

end epoch

/-! ### The whole run in both -/

section runs
variable {cfg : Config} {st0 st : Step2} {e : LogEntry} {event event' : Event}

theorem moveEpoch_resumed {txId now now' : Int} (h : Resumed cfg st0 st)
    (hnow : cfg.flags.useLogsPerEpoch = true ∨ now' = now) :
    Resumed cfg (moveEpoch cfg.fresh txId now st0) (moveEpoch cfg txId now' st) := by
  have hagrees := @moveEpoch_agrees cfg st0 st txId now now'
    ⟨h.epoch, h.logCount, h.lastTxId, h.lastLogCount, h.fault, h.start⟩ h.bulkLoadFinished hnow
  have hsame := @moveEpoch_sameOutput cfg st txId now'
  have hsame0 := @moveEpoch_sameOutput cfg.fresh st0 txId now
  exact ⟨hagrees.epoch, hagrees.logCount, hagrees.lastTxId, hagrees.lastLogCount,
    by rw [hsame.processedCount, hsame0.processedCount, h.processedCount],
    by rw [hsame.bulkLoadFinished, hsame0.bulkLoadFinished, h.bulkLoadFinished],
    by rw [hsame.ids, hsame0.ids, h.ids], hagrees.fault, hagrees.start,
    by rw [hsame.emitted, hsame0.emitted, h.emitted],
    moveEpoch_paced h.paced, moveEpoch_paced h.pacedFresh⟩

theorem endBulkLoad_resumed {txId later later' : Int} (h : Resumed cfg st0 st)
    (hfault : st0.fault = none) (hlater : cfg.flags.useLogsPerEpoch = true ∨ later' = later) :
    Resumed cfg (endBulkLoad cfg.fresh txId later st0) (endBulkLoad cfg txId later' st) := by
  have hlast : (endBulkLoad cfg txId later' st).lastLogCount =
      (endBulkLoad cfg.fresh txId later st0).lastLogCount := by
    unfold endBulkLoad
    simp only [h.logCount]
  refine ⟨rfl, h.logCount, rfl, hlast, congrArg (· + 1) h.processedCount, rfl, h.ids, h.fault,
    hlater, ?_, endBulkLoad_paced h.paced (h.fault.trans hfault),
    endBulkLoad_paced h.pacedFresh hfault⟩
  have hemit := resumed_emit h hfault ⟨LogEntry.bulkLoadEnd, st0.processedCount + 1⟩
  show (if st.silent cfg then st.emitted
    else st.emitted ++ [⟨LogEntry.bulkLoadEnd, st.processedCount + 1⟩]) = _
  rw [h.processedCount]
  exact hemit

theorem finishEvent_resumed {clock clock' : Clock} (h : Resumed cfg st0 st)
    (hclock : ClockAgrees cfg clock clock') :
    Resumed cfg (finishEvent cfg.fresh clock e st0) (finishEvent cfg clock' e st) := by
  have hnow : cfg.flags.useLogsPerEpoch = true ∨ clock'.now = clock.now :=
    hclock.imp id fun heq => by rw [heq]
  have hlater : cfg.flags.useLogsPerEpoch = true ∨ clock'.later = clock.later :=
    hclock.imp id fun heq => by rw [heq]
  have hmoved := @moveEpoch_resumed cfg st0 st e.txId clock.now clock'.now h hnow
  unfold finishEvent
  rw [h.fault]
  split
  · exact h
  · dsimp only
    rw [hmoved.fault]
    split
    · exact hmoved
    · split
      · rename_i hnone _
        exact endBulkLoad_resumed hmoved (by simpa using hnone) hlater
      · exact hmoved

theorem step_resumed (h : Resumed cfg st0 st) (hline : event.1 = event'.1)
    (hclock : ClockAgrees cfg event.2 event'.2) :
    Resumed cfg (step cfg.fresh st0 event) (step cfg st event') := by
  have hcount : st.counted.logCount = st0.counted.logCount := by
    unfold Step2.counted
    rw [h.logCount]
  have hcounted : Resumed cfg st0.counted st.counted :=
    ⟨h.epoch, hcount, h.lastTxId, h.lastLogCount,
      h.processedCount, h.bulkLoadFinished, h.ids, h.fault, h.start, h.emitted,
      ⟨h.paced.mode, h.paced.length_le, h.paced.length_eq⟩,
      ⟨h.pacedFresh.mode, h.pacedFresh.length_le, h.pacedFresh.length_eq⟩⟩
  have hparser : cfg.fresh.parser = cfg.parser := rfl
  unfold step
  rw [h.fault, ← hline, hparser]
  split
  · exact h
  · split
    · exact ⟨h.epoch, h.logCount, h.lastTxId, h.lastLogCount, h.processedCount,
        h.bulkLoadFinished, h.ids, rfl, h.start, h.emitted,
        ⟨h.paced.mode, h.paced.length_le, fun hnone => by cases hnone⟩,
        ⟨h.pacedFresh.mode, h.pacedFresh.length_le, fun hnone => by cases hnone⟩⟩
    · unfold consume
      split
      · exact h
      · exact finishEvent_resumed (takeEntries_resumed hcounted) hclock

theorem run_resumed {start start' : Int} {events events' : List Event}
    (hsource : SameSource cfg events events')
    (hstart : cfg.flags.useLogsPerEpoch = true ∨ start' = start) :
    Resumed cfg (run cfg.fresh start events) (run cfg start' events') := by
  have h0 : Resumed cfg { start := start } { start := start' } :=
    ⟨rfl, rfl, rfl, rfl, rfl, rfl, rfl, rfl, hstart, List.drop_nil.symm,
      run_paced cfg start' [], run_paced cfg.fresh start []⟩
  have hall : ∀ st0 st, Resumed cfg st0 st →
      Resumed cfg (events.foldl (step cfg.fresh) st0) (events'.foldl (step cfg) st) := by
    induction hsource with
    | nil => exact fun st0 st h => h
    | cons hhead _ ih => exact fun st0 st h => ih _ _ (step_resumed h hhead.1 hhead.2)
  exact hall _ _ h0

theorem resumed_emitted (cfg : Config) (start : Int) (events : List Event) :
    (run cfg start events).emitted =
      (run cfg.fresh start events).emitted.drop cfg.lastProcessedOffset := by
  have hsame : SameSource cfg events events := by
    induction events with
    | nil => exact .nil
    | cons event rest ih => exact .cons ⟨rfl, .inr rfl⟩ ih
  exact (run_resumed hsame (.inr rfl)).emitted

end runs

end Gart.Converter
