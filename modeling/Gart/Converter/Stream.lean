import Gart.Converter.Resolve

/-!
# The second step of the converter

`process_binlog_step_2` takes the entries of one event after the other, in the
order of the source, resolves and emits them, and moves the epoch between events.
A converter that starts again reads the source from the beginning and is silent
until it has passed the offset of the last message it had written.
-/

namespace Gart.Converter
open Gart.Outcome Gart.Decimal

structure Flags where
  useLogsPerEpoch : Bool := true
  logsPerEpoch : Int := 10000
  /-- `seconds_per_epoch` as a span of the steady clock -/
  interval : Int := 60
  enableBulkLoad : Bool := false

structure Config where
  parser : ParserConfig
  flags : Flags
  lastProcessedOffset : Nat

/-- A line of the unified log: an entry and the offset it is written with. -/
structure Message where
  entry : LogEntry
  offset : Nat
  deriving DecidableEq

/-- The steady clock when an event is handled, and after the end of the bulk load. -/
structure Clock where
  now : Int
  later : Int

/-- The variables of `process_binlog_step_2` and the maps of the parser (`binlog_convert.cc:144-277`); an exception
ends the process. -/
structure Step2 where
  epoch : Int := 0
  logCount : Nat := 0
  lastTxId : Int := -1
  lastLogCount : Int := 0
  processedCount : Nat := 0
  start : Int := 0
  bulkLoadFinished : Bool := false
  catchUpMode : Bool := true
  ids : IdMaps := {}
  emitted : List Message := []
  fault : Option Fault := none

/-- Conversion to `uint64_t`. -/
def toUInt64 (n : Int) : Nat := (n % 2 ^ 64).toNat

/-! ### Moving the epoch -/

def epochByCount (f : Flags) (st : Step2) : Step2 :=
  let n := toUInt64 f.logsPerEpoch
  if n = 0 then { st with fault := some .divisionByZero }
  else { st with epoch := wrap 32 (st.logCount / n : Nat) }

def epochByTime (f : Flags) (now : Int) (st : Step2) : Step2 :=
  if f.interval ≤ now - st.start then { st with start := now, epoch := wrap 32 (st.epoch + 1) }
  else st

def epochByLogs (f : Flags) (st : Step2) : Step2 :=
  if toUInt64 f.logsPerEpoch ≤ toUInt64 (st.logCount - st.lastLogCount) then
    { st with lastLogCount := wrap 32 st.logCount, epoch := wrap 32 (st.epoch + 1) }
  else st

def Step2.advancing (f : Flags) (st : Step2) : Bool := !f.enableBulkLoad || st.bulkLoadFinished

def moveEpoch (cfg : Config) (txId now : Int) (st : Step2) : Step2 :=
  match cfg.parser.build with
  | .maxwell =>
    if cfg.flags.useLogsPerEpoch then epochByCount cfg.flags st else epochByTime cfg.flags now st
  | .debezium =>
    if st.advancing cfg.flags then
      if txId = -1 then
        if cfg.flags.useLogsPerEpoch then epochByCount cfg.flags st
        else epochByTime cfg.flags now st
      else if txId ≠ st.lastTxId then
        if cfg.flags.useLogsPerEpoch then epochByLogs cfg.flags { st with lastTxId := txId }
        else epochByTime cfg.flags now { st with lastTxId := txId }
      else st
    else st

/-! ### Handling an event -/

def Step2.silent (cfg : Config) (st : Step2) : Bool :=
  st.catchUpMode && st.processedCount < cfg.lastProcessedOffset

/-- One entry of an event; the mark of an incomplete entry is not looked at. -/
def takeEntry (cfg : Config) (st : Step2) (entry : LogEntry) : Step2 :=
  if st.fault.isSome then st else
  let silent := st.silent cfg
  let st := { st with catchUpMode := silent, processedCount := st.processedCount + 1 }
  match parseAgain cfg.parser st.ids entry st.epoch with
  | .error f => { st with fault := some f }
  | .ok (ids, out) =>
    { st with
      ids := ids
      emitted := if silent then st.emitted else st.emitted ++ [⟨out, st.processedCount⟩] }

def endBulkLoad (cfg : Config) (txId later : Int) (st : Step2) : Step2 :=
  let silent := st.silent cfg
  let st := { st with
    bulkLoadFinished := true, lastTxId := txId, lastLogCount := wrap 32 st.logCount, epoch := 1
    catchUpMode := silent, processedCount := st.processedCount + 1 }
  { st with
    emitted :=
      if silent then st.emitted else st.emitted ++ [⟨LogEntry.bulkLoadEnd, st.processedCount⟩]
    start := later }

/-- What follows the entries of an event, of which `entry` is the last. -/
def finishEvent (cfg : Config) (clock : Clock) (entry : LogEntry) (st : Step2) : Step2 :=
  if st.fault.isSome then st else
  let st := moveEpoch cfg entry.txId clock.now st
  if st.fault.isSome then st else
  if entry.lastSnapshot then endBulkLoad cfg entry.txId clock.later st else st

def takeEntries (cfg : Config) (st : Step2) (entries : List LogEntry) : Step2 :=
  entries.foldl (takeEntry cfg) st

/-- The entries of one event (`binlog_convert.cc:144-277`); without entries its count is 0. -/
def consume (cfg : Config) (clock : Clock) (entries : List LogEntry) (st : Step2) : Step2 :=
  match entries.getLast? with
  | none => st
  | some entry =>
    finishEvent cfg clock entry
      (takeEntries cfg { st with logCount := (st.logCount + 1) % 2 ^ 64 } entries)

/-- A message of the source and the clock when the second step comes to it. -/
abbrev Event := Line × Clock

/-- One message of the source through both steps. -/
def step (cfg : Config) (st : Step2) (event : Event) : Step2 :=
  if st.fault.isSome then st else
  match processBinlogStep1 cfg.parser event.1 with
  | .error f => { st with fault := some f }
  | .ok entries => consume cfg event.2 entries st

def run (cfg : Config) (start : Int) (events : List Event) : Step2 :=
  events.foldl (step cfg) { start := start }

/-! ### What the parts of a step change -/

section parts
variable {cfg : Config} {st : Step2} {e : LogEntry} {es : List LogEntry} {clock : Clock}

/-- The entries of an event leave the epoch and all that moves it as they are. -/
structure SameEpoch (st st' : Step2) : Prop where
  epoch : st'.epoch = st.epoch
  logCount : st'.logCount = st.logCount
  lastTxId : st'.lastTxId = st.lastTxId
  lastLogCount : st'.lastLogCount = st.lastLogCount
  start : st'.start = st.start
  bulkLoadFinished : st'.bulkLoadFinished = st.bulkLoadFinished

theorem SameEpoch.rfl : SameEpoch st st :=
  ⟨Eq.refl _, Eq.refl _, Eq.refl _, Eq.refl _, Eq.refl _, Eq.refl _⟩

theorem SameEpoch.trans {s t u : Step2} (h : SameEpoch s t) (h' : SameEpoch t u) : SameEpoch s u :=
  ⟨h'.epoch.trans h.epoch, h'.logCount.trans h.logCount, h'.lastTxId.trans h.lastTxId,
    h'.lastLogCount.trans h.lastLogCount, h'.start.trans h.start,
    h'.bulkLoadFinished.trans h.bulkLoadFinished⟩

/-- `m` is the message of an entry that is emitted at the epoch. -/
def EmittedFor (epoch : Int) (e : LogEntry) (m : Message) : Prop :=
  SameContent e m.entry ∧ m.entry.epoch = epoch

def Emits (st st' : Step2) (es : List LogEntry) : Prop :=
  ∃ new, st'.emitted = st.emitted ++ new ∧ ∀ m ∈ new, ∃ e ∈ es, EmittedFor st.epoch e m

theorem takeEntry_sameEpoch : SameEpoch st (takeEntry cfg st e) := by
  unfold takeEntry
  split
  · exact .rfl
  · dsimp only
    split
    · exact ⟨rfl, rfl, rfl, rfl, rfl, rfl⟩
    · exact ⟨rfl, rfl, rfl, rfl, rfl, rfl⟩

theorem takeEntry_emits : Emits st (takeEntry cfg st e) [e] := by
  have hnone : Emits st st [e] := ⟨[], by simp, by simp⟩
  unfold takeEntry
  split
  · exact hnone
  · dsimp only
    split
    · exact hnone
    · rename_i ids out hagain
      cases st.silent cfg with
      | true => exact hnone
      | false =>
        have hcontent := (resolve_spec.of_ok hagain).content
        refine ⟨[⟨out, st.processedCount + 1⟩], rfl, ?_⟩
        simp only [List.mem_singleton]
        rintro m rfl
        refine ⟨e, rfl, ?_, hcontent.2⟩
        obtain ⟨h1, h2, h3, h4, h5, h6, h7, h8, h9, h10, h11, h12⟩ := hcontent.1
        exact ⟨h1, h2, h3, h4, h5, h6, h7, h8, h9, h10, h11, h12⟩

theorem takeEntries_sameEpoch : SameEpoch st (takeEntries cfg st es) := by
  induction es generalizing st with
  | nil => exact .rfl
  | cons e rest ih => exact takeEntry_sameEpoch.trans ih

theorem takeEntries_emits : Emits st (takeEntries cfg st es) es := by
  induction es generalizing st with
  | nil => exact ⟨[], by simp [takeEntries], by simp⟩
  | cons e rest ih =>
    obtain ⟨new, hnew, hfrom⟩ := @takeEntry_emits cfg st e
    obtain ⟨more, hmore, hfrom'⟩ := @ih (takeEntry cfg st e)
    refine ⟨new ++ more, ?_, ?_⟩
    · show (takeEntries cfg (takeEntry cfg st e) rest).emitted = _
      rw [hmore, hnew, List.append_assoc]
    · intro m hm
      rcases List.mem_append.mp hm with hin | hin
      · obtain ⟨e', he', hem⟩ := hfrom m hin
        rw [List.mem_singleton] at he'
        exact ⟨e', he' ▸ List.mem_cons_self, hem⟩
      · obtain ⟨e', he', hem⟩ := hfrom' m hin
        rw [takeEntry_sameEpoch.epoch] at hem
        exact ⟨e', List.mem_cons_of_mem _ he', hem⟩

structure SameOutput (st st' : Step2) : Prop where
  processedCount : st'.processedCount = st.processedCount
  bulkLoadFinished : st'.bulkLoadFinished = st.bulkLoadFinished
  catchUpMode : st'.catchUpMode = st.catchUpMode
  ids : st'.ids = st.ids
  emitted : st'.emitted = st.emitted
  logCount : st'.logCount = st.logCount

theorem epochByCount_sameOutput {f : Flags} : SameOutput st (epochByCount f st) := by
  unfold epochByCount
  dsimp only
  split <;> exact ⟨rfl, rfl, rfl, rfl, rfl, rfl⟩

theorem epochByTime_sameOutput {f : Flags} {now : Int} : SameOutput st (epochByTime f now st) := by
  unfold epochByTime
  split <;> exact ⟨rfl, rfl, rfl, rfl, rfl, rfl⟩

theorem epochByLogs_sameOutput {f : Flags} : SameOutput st (epochByLogs f st) := by
  unfold epochByLogs
  split <;> exact ⟨rfl, rfl, rfl, rfl, rfl, rfl⟩

theorem moveEpoch_sameOutput {txId now : Int} : SameOutput st (moveEpoch cfg txId now st) := by
  unfold moveEpoch
  split
  · split
    · exact epochByCount_sameOutput
    · exact epochByTime_sameOutput
  · split
    · split
      · split
        · exact epochByCount_sameOutput
        · exact epochByTime_sameOutput
      · split
        · split
          · exact ⟨epochByLogs_sameOutput.processedCount, epochByLogs_sameOutput.bulkLoadFinished,
              epochByLogs_sameOutput.catchUpMode, epochByLogs_sameOutput.ids,
              epochByLogs_sameOutput.emitted, epochByLogs_sameOutput.logCount⟩
          · exact ⟨epochByTime_sameOutput.processedCount, epochByTime_sameOutput.bulkLoadFinished,
              epochByTime_sameOutput.catchUpMode, epochByTime_sameOutput.ids,
              epochByTime_sameOutput.emitted, epochByTime_sameOutput.logCount⟩
        · exact ⟨rfl, rfl, rfl, rfl, rfl, rfl⟩
    · exact ⟨rfl, rfl, rfl, rfl, rfl, rfl⟩

theorem moveEpoch_not_advancing {txId now : Int} (hbuild : cfg.parser.build = .debezium)
    (h : st.advancing cfg.flags = false) : moveEpoch cfg txId now st = st := by
  unfold moveEpoch
  rw [hbuild]
  simp only [h, Bool.false_eq_true, if_false]

theorem finishEvent_emits : (finishEvent cfg clock e st).emitted = st.emitted ∨
    e.lastSnapshot = true ∧ ∃ offset, (finishEvent cfg clock e st).emitted =
      st.emitted ++ [⟨LogEntry.bulkLoadEnd, offset⟩] := by
  have hmove := (@moveEpoch_sameOutput cfg st e.txId clock.now).emitted
  unfold finishEvent
  split
  · exact .inl rfl
  · dsimp only
    split
    · exact .inl hmove
    · split
      · rename_i hlast
        unfold endBulkLoad
        dsimp only
        split
        · exact .inl hmove
        · exact .inr ⟨hlast, _, by rw [hmove]⟩
      · exact .inl hmove

end parts

def Step2.counted (st : Step2) : Step2 := { st with logCount := (st.logCount + 1) % 2 ^ 64 }

/-! ### Counting the messages -/

/-- The messages written are those from the resume offset on. -/
structure Paced (cfg : Config) (st : Step2) : Prop where
  mode : st.catchUpMode = false → cfg.lastProcessedOffset ≤ st.processedCount
  length_le : st.emitted.length ≤ st.processedCount - cfg.lastProcessedOffset
  length_eq : st.fault = none →
    st.emitted.length = st.processedCount - cfg.lastProcessedOffset

section paced
variable {cfg : Config} {st : Step2} {e : LogEntry} {es : List LogEntry} {clock : Clock}

theorem silent_eq (h : Paced cfg st) :
    st.silent cfg = decide (st.processedCount < cfg.lastProcessedOffset) := by
  unfold Step2.silent
  cases hmode : st.catchUpMode with
  | true => rfl
  | false =>
    have hle := h.mode hmode
    simp [Nat.not_lt.mpr hle]

theorem takeEntry_paced (h : Paced cfg st) : Paced cfg (takeEntry cfg st e) ∧
    st.processedCount ≤ (takeEntry cfg st e).processedCount ∧
    (takeEntry cfg st e).processedCount ≤ st.processedCount + 1 ∧
    ((takeEntry cfg st e).fault = none →
      st.fault = none ∧ (takeEntry cfg st e).processedCount = st.processedCount + 1) := by
  unfold takeEntry
  split
  · rename_i hsome
    refine ⟨h, Nat.le_refl _, Nat.le_succ _, fun hnone => ?_⟩
    simp [hnone] at hsome
  · rename_i hnone
    have hfault : st.fault = none := by simpa using hnone
    have hlength := h.length_eq hfault
    have hmode : st.silent cfg = false → cfg.lastProcessedOffset ≤ st.processedCount + 1 := by
      rw [silent_eq h]
      simp only [decide_eq_false_iff_not]
      omega
    dsimp only
    split
    · refine ⟨⟨hmode, ?_, fun hnone => by cases hnone⟩, Nat.le_succ _, Nat.le_refl _,
        fun hnone => by cases hnone⟩
      show st.emitted.length ≤ st.processedCount + 1 - cfg.lastProcessedOffset
      omega
    · refine ⟨⟨hmode, ?_, fun _ => ?_⟩, Nat.le_succ _, Nat.le_refl _, fun _ => ⟨hfault, rfl⟩⟩
      all_goals
        simp only [silent_eq h]
        by_cases hlt : st.processedCount < cfg.lastProcessedOffset
        · simp only [hlt, decide_true, if_true]
          omega
        · simp only [hlt, decide_false, Bool.false_eq_true, if_false, List.length_append,
            List.length_singleton]
          omega

theorem takeEntries_paced (h : Paced cfg st) : Paced cfg (takeEntries cfg st es) ∧
    st.processedCount ≤ (takeEntries cfg st es).processedCount ∧
    (takeEntries cfg st es).processedCount ≤ st.processedCount + es.length ∧
    ((takeEntries cfg st es).fault = none →
      st.fault = none ∧ (takeEntries cfg st es).processedCount = st.processedCount + es.length) := by
  induction es generalizing st with
  | nil => exact ⟨h, Nat.le_refl _, Nat.le_refl _, fun hnone => ⟨hnone, rfl⟩⟩
  | cons e rest ih =>
    obtain ⟨hp, hge, hle, hok⟩ := @takeEntry_paced cfg st e h
    obtain ⟨hp', hge', hle', hok'⟩ := ih hp
    refine ⟨hp', Nat.le_trans hge hge', ?_, fun hnone => ?_⟩
    · show (takeEntries cfg (takeEntry cfg st e) rest).processedCount ≤ _
      rw [List.length_cons]
      omega
    · obtain ⟨hfault, heq⟩ := hok' hnone
      obtain ⟨hfault', heq'⟩ := hok hfault
      refine ⟨hfault', ?_⟩
      show (takeEntries cfg (takeEntry cfg st e) rest).processedCount = _
      rw [List.length_cons]
      omega

theorem moveEpoch_fault {txId now : Int} (h : (moveEpoch cfg txId now st).fault = none) :
    st.fault = none := by
  unfold moveEpoch epochByCount epochByTime epochByLogs at h
  dsimp only at h
  split at h <;> (repeat' split at h) <;> first | exact h | cases h

theorem moveEpoch_paced {txId now : Int} (h : Paced cfg st) :
    Paced cfg (moveEpoch cfg txId now st) := by
  have hsame := @moveEpoch_sameOutput cfg st txId now
  refine ⟨?_, ?_, fun hnone => ?_⟩
  · rw [hsame.catchUpMode, hsame.processedCount]
    exact h.mode
  · rw [hsame.emitted, hsame.processedCount]
    exact h.length_le
  · rw [hsame.emitted, hsame.processedCount]
    exact h.length_eq (moveEpoch_fault hnone)

theorem endBulkLoad_paced {txId later : Int} (h : Paced cfg st) (hfault : st.fault = none) :
    Paced cfg (endBulkLoad cfg txId later st) := by
  have hlength := h.length_eq hfault
  have hemitted : (endBulkLoad cfg txId later st).emitted.length =
      st.processedCount + 1 - cfg.lastProcessedOffset := by
    show (if st.silent cfg then st.emitted
      else st.emitted ++ [⟨LogEntry.bulkLoadEnd, st.processedCount + 1⟩]).length = _
    rw [silent_eq h]
    by_cases hlt : st.processedCount < cfg.lastProcessedOffset
    · simp only [hlt, decide_true, if_true]
      omega
    · simp only [hlt, decide_false, Bool.false_eq_true, if_false, List.length_append,
        List.length_singleton]
      omega
  refine ⟨?_, Nat.le_of_eq hemitted, fun _ => hemitted⟩
  show st.silent cfg = false → cfg.lastProcessedOffset ≤ st.processedCount + 1
  rw [silent_eq h]
  simp only [decide_eq_false_iff_not]
  omega

theorem finishEvent_paced (h : Paced cfg st) : Paced cfg (finishEvent cfg clock e st) ∧
    st.processedCount ≤ (finishEvent cfg clock e st).processedCount ∧
    ((finishEvent cfg clock e st).fault = none → st.fault = none) := by
  have hsame := @moveEpoch_sameOutput cfg st e.txId clock.now
  have hmoved : Paced cfg (moveEpoch cfg e.txId clock.now st) := moveEpoch_paced h
  unfold finishEvent
  split
  · exact ⟨h, Nat.le_refl _, id⟩
  · dsimp only
    split
    · exact ⟨hmoved, by rw [hsame.processedCount], moveEpoch_fault⟩
    · split
      · rename_i hnone _
        have hfault : (moveEpoch cfg e.txId clock.now st).fault = none := by simpa using hnone
        refine ⟨endBulkLoad_paced hmoved hfault, ?_, moveEpoch_fault⟩
        show st.processedCount ≤ (moveEpoch cfg e.txId clock.now st).processedCount + 1
        rw [hsame.processedCount]
        omega
      · exact ⟨hmoved, by rw [hsame.processedCount], moveEpoch_fault⟩

end paced

/-! ### One step -/

section step
variable {cfg : Config} {st : Step2} {event : Event}

/-- The entries of the event are `es`, of which `e` is the last. -/
def Yields (cfg : Config) (event : Event) (es : List LogEntry) (e : LogEntry) : Prop :=
  processBinlogStep1 cfg.parser event.1 = .ok es ∧ es.getLast? = some e

theorem step_of_fault (h : st.fault ≠ none) : step cfg st event = st := by
  unfold step
  rw [if_pos (Option.isSome_iff_ne_none.mpr h)]

theorem step_of_yields (h : st.fault = none) {es : List LogEntry} {e : LogEntry}
    (hes : Yields cfg event es e) :
    step cfg st event = finishEvent cfg event.2 e (takeEntries cfg st.counted es) := by
  unfold step
  rw [if_neg (by simp [h]), hes.1]
  unfold consume
  simp only [hes.2]
  rfl

/-- A step fails before the second step, changes nothing, or handles the entries of its event. -/
theorem step_cases (h : st.fault = none) :
    (∃ f, step cfg st event = { st with fault := some f }) ∨
    (processBinlogStep1 cfg.parser event.1 = .ok [] ∧ step cfg st event = st) ∨
    ∃ es e, Yields cfg event es e ∧
      step cfg st event = finishEvent cfg event.2 e (takeEntries cfg st.counted es) := by
  cases hes : processBinlogStep1 cfg.parser event.1 with
  | error f =>
    left
    refine ⟨f, ?_⟩
    unfold step
    rw [if_neg (by simp [h]), hes]
  | ok es =>
    right
    cases hlast : es.getLast? with
    | none =>
      left
      have hnil : es = [] := List.getLast?_eq_none_iff.mp hlast
      subst hnil
      refine ⟨rfl, ?_⟩
      unfold step
      rw [if_neg (by simp [h]), hes]
      rfl
    | some e => exact .inr ⟨es, e, ⟨hes, hlast⟩, step_of_yields h ⟨hes, hlast⟩⟩

/-- The messages of a step: those of the event's entries at the epoch before it, then the end
of the bulk load if the event is the last of the snapshot. -/
theorem step_emits (cfg : Config) (st : Step2) (event : Event) : ∃ new ends,
    (step cfg st event).emitted = st.emitted ++ new ++ ends ∧
    (new ≠ [] → ∃ es e, Yields cfg event es e ∧
      ∀ m ∈ new, ∃ e' ∈ es, EmittedFor st.epoch e' m) ∧
    (ends = [] ∨ (∃ es e, Yields cfg event es e ∧ e.lastSnapshot = true) ∧
      ∃ offset, ends = [⟨LogEntry.bulkLoadEnd, offset⟩]) := by
  by_cases hfault : st.fault = none
  · rcases @step_cases cfg st event hfault with ⟨f, hstep⟩ | ⟨-, hstep⟩ | ⟨es, e, hes, hstep⟩
    · exact ⟨[], [], by simp [hstep], by simp, .inl rfl⟩
    · exact ⟨[], [], by simp [hstep], by simp, .inl rfl⟩
    · obtain ⟨new, hnew, hfrom⟩ := @takeEntries_emits cfg st.counted es
      have hemitted : (takeEntries cfg st.counted es).emitted = st.emitted ++ new := hnew
      rw [hstep]
      rcases @finishEvent_emits cfg (takeEntries cfg st.counted es) e event.2 with
        hsame | ⟨hlast, offset, hend⟩
      · exact ⟨new, [], by rw [hsame, hemitted, List.append_nil], fun _ => ⟨es, e, hes, hfrom⟩,
          .inl rfl⟩
      · exact ⟨new, _, by rw [hend, hemitted], fun _ => ⟨es, e, hes, hfrom⟩,
          .inr ⟨⟨es, e, hes, hlast⟩, offset, rfl⟩⟩
  · exact ⟨[], [], by simp [step_of_fault hfault], by simp, .inl rfl⟩

theorem step_paced (h : Paced cfg st) : Paced cfg (step cfg st event) ∧
    st.processedCount ≤ (step cfg st event).processedCount := by
  by_cases hfault : st.fault = none
  · rcases @step_cases cfg st event hfault with ⟨f, hstep⟩ | ⟨-, hstep⟩ | ⟨es, e, -, hstep⟩
    · rw [hstep]
      exact ⟨⟨h.mode, h.length_le, fun hnone => by cases hnone⟩, Nat.le_refl _⟩
    · rw [hstep]
      exact ⟨h, Nat.le_refl _⟩
    · rw [hstep]
      have hcounted : Paced cfg st.counted := ⟨h.mode, h.length_le, h.length_eq⟩
      obtain ⟨hp, hge, -, -⟩ := @takeEntries_paced cfg st.counted es hcounted
      obtain ⟨hp', hge', -⟩ := @finishEvent_paced cfg _ e event.2 hp
      exact ⟨hp', Nat.le_trans hge hge'⟩
  · rw [step_of_fault hfault]
    exact ⟨h, Nat.le_refl _⟩

theorem step_taken (h : Paced cfg st) {es : List LogEntry} {e : LogEntry}
    (hes : Yields cfg event es e) (hfault : st.fault = none) (hok : (step cfg st event).fault = none) :
    (takeEntries cfg st.counted es).fault = none ∧
      (takeEntries cfg st.counted es).processedCount = st.processedCount + es.length ∧
      st.processedCount + es.length ≤ (step cfg st event).processedCount := by
  have hcounted : Paced cfg st.counted := ⟨h.mode, h.length_le, h.length_eq⟩
  obtain ⟨hp, -, -, htaken⟩ := @takeEntries_paced cfg st.counted es hcounted
  rw [step_of_yields hfault hes] at hok ⊢
  obtain ⟨-, hge, hnone⟩ := @finishEvent_paced cfg _ e event.2 hp
  obtain ⟨-, heq⟩ := htaken (hnone hok)
  have heq' : (takeEntries cfg st.counted es).processedCount = st.processedCount + es.length := heq
  exact ⟨hnone hok, heq', by omega⟩

theorem run_append (start : Int) (events : List Event) :
    run cfg start (events ++ [event]) = step cfg (run cfg start events) event := by
  simp [run, List.foldl_append]

theorem run_append_list (start : Int) (events more : List Event) :
    run cfg start (events ++ more) = more.foldl (step cfg) (run cfg start events) := by
  simp [run, List.foldl_append]

theorem run_invariant {start : Int} {events : List Event} {I : List Event → Step2 → Prop}
    (h0 : I [] { start := start })
    (hstep : ∀ before event after, events = before ++ event :: after →
      I before (run cfg start before) → I (before ++ [event]) (run cfg start (before ++ [event]))) :
    I events (run cfg start events) := by
  have hprefixes : ∀ n, n ≤ events.length →
      I (events.take n) (run cfg start (events.take n)) := by
    intro n
    induction n with
    | zero => exact fun _ => h0
    | succ n ih =>
      intro hn
      have hsplit : events = events.take n ++ events[n] :: events.drop (n + 1) := by
        rw [← List.drop_eq_getElem_cons, List.take_append_drop]
      rw [List.take_succ_eq_append_getElem (by omega)]
      exact hstep _ _ _ hsplit (ih (by omega))
  have hall := hprefixes events.length (Nat.le_refl _)
  rwa [List.take_length] at hall

theorem run_paced (cfg : Config) (start : Int) (events : List Event) :
    Paced cfg (run cfg start events) := by
  apply @run_invariant cfg start events fun _ st => Paced cfg st
  · exact ⟨fun h => Bool.noConfusion h, Nat.zero_le _, fun _ => (Nat.zero_sub _).symm⟩
  · intro before event after _ h
    rw [run_append]
    exact (step_paced h).1

/-- What a longer run has written begins with what the shorter one had written; a fault stays. -/
theorem foldl_step (events : List Event) : ∀ st : Step2,
    (∃ new, (events.foldl (step cfg) st).emitted = st.emitted ++ new) ∧
      ((events.foldl (step cfg) st).fault = none → st.fault = none) := by
  induction events with
  | nil => exact fun st => ⟨⟨[], by simp⟩, id⟩
  | cons event rest ih =>
    intro st
    obtain ⟨⟨new, hnew⟩, hfault⟩ := ih (step cfg st event)
    obtain ⟨mine, ends, hmine, -, -⟩ := step_emits cfg st event
    refine ⟨⟨mine ++ ends ++ new, ?_⟩, fun hnone => ?_⟩
    · show (rest.foldl (step cfg) (step cfg st event)).emitted = _
      rw [hnew, hmine]
      simp
    · have hstep := hfault hnone
      by_cases hst : st.fault = none
      · exact hst
      · rw [step_of_fault hst] at hstep
        exact hstep

end step

/-! ### A small source -/

def personMapping : RgMapping :=
  { vertexTypes := [⟨"person", "person", "id", []⟩]
    edgeTypes := [⟨"knows", "knows", "person", "person", "src", "dst", []⟩]
    known := by simp }

/-- A Debezium event; a MySQL source without GTIDs gives no transaction. -/
def rowChange (table op snapshot : String) (txId : Option Int) (row : List (String × Json)) : Line :=
  let tx := match txId with
    | some n => [("txId", Json.integer n)]
    | none => []
  .text (some (.object [("before", .null), ("after", .object row), ("op", .string op),
    ("source", .object ([("table", .string table), ("snapshot", .string snapshot)] ++ tx))]))

def personRow (id : Int) : List (String × Json) := [("id", .integer id)]

def personConfig (flags : Flags) : Config :=
  { parser := { build := .debezium, mapping := personMapping, subgraphNum := 1 }
    flags := flags
    lastProcessedOffset := 0 }

def atOnce (lines : List Line) : List Event := lines.map fun line => (line, ⟨0, 0⟩)

end Gart.Converter
