import Gart.Converter.References
import Gart.Converter.UnifiedLog

/-!
# Stopping and starting again

The unified log is all that a stopped converter leaves. A converter that starts
again takes the offset of its last line and reads the source from the beginning.
Counting epochs by logs, it goes on with the same messages; but a gid that no one
has set is written as what the memory of the entry happened to hold, and that
differs from run to run.
-/

namespace Gart.Converter
open Gart.Outcome Gart.Decimal

/-! ### Timeouts of the source -/

def isText : Line → Bool
  | .noMessage => false
  | .text _ => true

/-- The messages of the source, without the timeouts between them. -/
def consumed (events : List Event) : List Line := (events.map Prod.fst).filter isText

section timeouts
variable {cfg : Config} {st : Step2} {event : Event} {events events' : List Event} {start : Int}

theorem step_timeout (h : isText event.1 = false) : step cfg st event = st := by
  obtain ⟨line, clock⟩ := event
  cases line with
  | text log => cases h
  | noMessage =>
    unfold step
    split
    · rfl
    · rfl

theorem run_filter : run cfg start events =
    run cfg start (events.filter fun event => isText event.1) := by
  unfold run
  generalize ({ start := start } : Step2) = st
  induction events generalizing st with
  | nil => rfl
  | cons event rest ih =>
    cases hline : isText event.1 with
    | true =>
      rw [List.filter_cons_of_pos (by simp [hline])]
      exact ih (step cfg st event)
    | false =>
      rw [List.filter_cons_of_neg (by simp [hline]), List.foldl_cons, step_timeout hline]
      exact ih st

theorem consumed_eq : consumed events =
    (events.filter fun event => isText event.1).map Prod.fst := by
  unfold consumed
  rw [List.filter_map]
  rfl

theorem sameSource_of_map (hmode : cfg.flags.useLogsPerEpoch = true) :
    ∀ {events events' : List Event}, events.map Prod.fst = events'.map Prod.fst →
      SameSource cfg events events'
  | [], [], _ => .nil
  | [], _ :: _, h => by cases h
  | _ :: _, [], h => by cases h
  | _ :: _, _ :: _, h =>
    .cons ⟨(List.cons.inj h).1, .inl hmode⟩ (sameSource_of_map hmode (List.cons.inj h).2)

theorem emitted_prefix (st : Step2) : st.emitted <+: (events.foldl (step cfg) st).emitted := by
  induction events generalizing st with
  | nil => exact List.prefix_rfl
  | cons event rest ih =>
    obtain ⟨new, ends, hnew, -⟩ := step_emits cfg st event
    have hstep : st.emitted <+: (step cfg st event).emitted := by
      rw [hnew, List.append_assoc]
      exact List.prefix_append _ _
    exact hstep.trans (ih (step cfg st event))

theorem emitted_of_consumed (hmode : cfg.flags.useLogsPerEpoch = true) {start' : Int}
    (h : consumed events = consumed events') :
    (run cfg start' events').emitted =
      (run cfg.fresh start events).emitted.drop cfg.lastProcessedOffset := by
  rw [consumed_eq, consumed_eq] at h
  rw [@run_filter cfg, @run_filter cfg.fresh]
  exact (run_resumed (sameSource_of_map hmode h) (.inl hmode)).emitted

theorem emitted_of_initial (hmode : cfg.flags.useLogsPerEpoch = true) {start' : Int}
    (h : consumed events <+: consumed events') :
    (run cfg start events).emitted <+:
      (run cfg.fresh start' events').emitted.drop cfg.lastProcessedOffset := by
  have hfirst : ∃ before after, (events'.filter fun event => isText event.1) = before ++ after ∧
      before.map Prod.fst = (events.filter fun event => isText event.1).map Prod.fst := by
    obtain ⟨later, hlater⟩ := h
    rw [consumed_eq, consumed_eq] at hlater
    obtain ⟨before, after, hsplit, hbefore, -⟩ := List.map_eq_append_iff.mp hlater.symm
    exact ⟨before, after, hsplit, hbefore⟩
  obtain ⟨before, after, hsplit, hbefore⟩ := hfirst
  have hsame : (run cfg start events).emitted = (run cfg start' before).emitted := by
    have hsource := @sameSource_of_map cfg hmode _ _ hbefore
    have hself := @sameSource_of_map cfg hmode before before rfl
    have hthere := (@run_resumed cfg 0 start _ _ hsource (.inl hmode)).emitted
    have hhere := (@run_resumed cfg 0 start' _ _ hself (.inl hmode)).emitted
    rw [@run_filter cfg events start, hthere, hhere]
  have hwhole : (run cfg start' events').emitted =
      (run cfg.fresh start' events').emitted.drop cfg.lastProcessedOffset :=
    emitted_of_consumed hmode rfl
  rw [← hwhole, hsame, @run_filter cfg events' start', hsplit, run_append_list]
  exact emitted_prefix _

end timeouts

/-! ### Offsets of a fresh run -/

def Numbered (st : Step2) : Prop :=
  st.emitted.map (fun m : Message => m.offset) = List.range' 1 st.emitted.length

section numbered
variable {cfg : Config} {st : Step2} {e : LogEntry} {es : List LogEntry}

theorem Numbered.push (h : Numbered st) (hpaced : Paced cfg st) (hzero : cfg.lastProcessedOffset = 0)
    (hfault : st.fault = none) (out : LogEntry) {st' : Step2}
    (hnew : st'.emitted = st.emitted ++ [⟨out, st.processedCount + 1⟩]) : Numbered st' := by
  have hlength := hpaced.length_eq hfault
  rw [hzero, Nat.sub_zero] at hlength
  unfold Numbered at h ⊢
  rw [hnew, List.map_append, h, List.length_append, List.length_singleton, List.range'_concat,
    hlength]
  simp [Nat.add_comm]

theorem takeEntry_numbered (h : Numbered st) (hpaced : Paced cfg st)
    (hzero : cfg.lastProcessedOffset = 0) : Numbered (takeEntry cfg st e) := by
  have hsilent : st.silent cfg = false := by
    rw [silent_eq hpaced, hzero]
    exact decide_eq_false (Nat.not_lt_zero _)
  unfold takeEntry
  split
  · exact h
  · rename_i hnone
    rw [hsilent]
    dsimp only
    split
    · exact h
    · exact h.push hpaced hzero (by simpa using hnone) _ rfl

theorem takeEntries_numbered (h : Numbered st) (hpaced : Paced cfg st)
    (hzero : cfg.lastProcessedOffset = 0) : Numbered (takeEntries cfg st es) := by
  induction es generalizing st with
  | nil => exact h
  | cons e rest ih =>
    exact ih (takeEntry_numbered h hpaced hzero) (takeEntry_paced hpaced).1

theorem endBulkLoad_numbered {txId later : Int} (h : Numbered st) (hpaced : Paced cfg st)
    (hzero : cfg.lastProcessedOffset = 0) (hfault : st.fault = none) :
    Numbered (endBulkLoad cfg txId later st) := by
  have hsilent : st.silent cfg = false := by
    rw [silent_eq hpaced, hzero]
    exact decide_eq_false (Nat.not_lt_zero _)
  apply h.push hpaced hzero hfault LogEntry.bulkLoadEnd
  unfold endBulkLoad
  rw [hsilent]
  rfl

theorem finishEvent_numbered {clock : Clock} (h : Numbered st) (hpaced : Paced cfg st)
    (hzero : cfg.lastProcessedOffset = 0) : Numbered (finishEvent cfg clock e st) := by
  have hmoved : Numbered (moveEpoch cfg e.txId clock.now st) := by
    unfold Numbered
    rw [moveEpoch_sameOutput.emitted]
    exact h
  unfold finishEvent
  split
  · exact h
  · dsimp only
    split
    · exact hmoved
    · rename_i hnone
      split
      · exact endBulkLoad_numbered hmoved (moveEpoch_paced hpaced) hzero (by simpa using hnone)
      · exact hmoved

theorem run_numbered (hzero : cfg.lastProcessedOffset = 0) (start : Int) (events : List Event) :
    Numbered (run cfg start events) := by
  apply run_invariant (I := fun _ st => Numbered st)
  · rfl
  · intro before event after _ h
    have hpaced := run_paced cfg start before
    rw [run_append]
    generalize run cfg start before = st at h hpaced ⊢
    by_cases hfault : st.fault = none
    · rcases @step_cases cfg st event hfault with ⟨f, hstep⟩ | ⟨-, hstep⟩ | ⟨es, e, -, hstep⟩
      · rw [hstep]
        exact h
      · rw [hstep]
        exact h
      · have hcounted : Paced cfg st.counted := ⟨hpaced.mode, hpaced.length_le, hpaced.length_eq⟩
        rw [hstep]
        exact finishEvent_numbered (takeEntries_numbered h hcounted hzero)
          (takeEntries_paced hcounted).1 hzero
    · rw [step_of_fault hfault]
      exact h

end numbered

/-! ### Gids that are not set -/

section unset
variable {e : LogEntry} {offset : Int}

theorem toText_of_hasGids (h : e.HasGids) (unset unset' : Int) :
    e.toText unset offset = e.toText unset' offset := by
  have hids : e.bodyTexts unset = e.bodyTexts unset' := by
    unfold LogEntry.bodyTexts LogEntry.idTexts
    rcases h with hop | hgids
    · rw [if_pos hop, if_pos hop]
    · cases hentity : e.entityType with
      | vertex =>
        rw [hentity] at hgids
        obtain ⟨gid, hgid⟩ := Option.ne_none_iff_exists'.mp hgids
        rw [hgid]
        rfl
      | edge =>
        rw [hentity] at hgids
        obtain ⟨src, hsrc⟩ := Option.ne_none_iff_exists'.mp hgids.1
        obtain ⟨dst, hdst⟩ := Option.ne_none_iff_exists'.mp hgids.2
        rw [hsrc, hdst]
        rfl
  rw [toText_eq, toText_eq, hids]

theorem hasGids_of_toText (h : e.toText 0 offset = e.toText 1 offset) : e.HasGids := by
  have hfields := congrArg (fun text : String => text.toList.splitOn '|') h
  simp only [splitOn_toText, List.cons.injEq, true_and] at hfields
  have hbody := List.append_cancel_right hfields
  have hzero : (toString (0 : Int)).toList ≠ (toString (1 : Int)).toList := by decide
  unfold LogEntry.HasGids
  by_cases hop : e.opType = .bulkloadEnd
  · exact .inl hop
  · right
    unfold LogEntry.bodyTexts LogEntry.idTexts at hbody
    rw [if_neg hop, if_neg hop] at hbody
    cases hentity : e.entityType with
    | vertex =>
      simp only [hentity, List.cons_append, List.flatMap_cons, splitOn_nat, List.cons.injEq] at hbody
      intro hnone
      rw [hnone] at hbody
      exact hzero hbody.1
    | edge =>
      simp only [hentity, List.cons_append, List.flatMap_cons, splitOn_nat, splitOn_int,
        List.nil_append, List.cons.injEq, true_and] at hbody
      obtain ⟨hsrc, hdst, -⟩ := hbody
      constructor
      · intro hnone
        rw [hnone] at hsrc
        exact hzero hsrc
      · intro hnone
        rw [hnone] at hdst
        exact hzero hdst

end unset

/-! ### Restarting -/

def Message.line (unset : Int) (m : Message) : String := m.entry.toText unset m.offset

/-- What the entry of each message holds, by offset, in the members that nothing has been written
to; each run of a converter has its own. -/
abbrev EntryMemory := Nat → Int

def linesOf (memory : EntryMemory) (messages : List Message) : List String :=
  messages.map fun m => m.line (memory m.offset)

/-- `last_processed_offset` (`binlog_convert.cc:327-369`): 0 for an empty log, else the number at the end of its last
line. -/
def resumeOffset (log : List String) : Except Fault Int :=
  match log.getLast? with
  | none => .ok 0
  | some line => stoll (lastField line)

/-- What `main` does before it reads the source (`binlog_convert.cc:327-369`). -/
def restart (cfg : Config) (log : List String) : Except Fault Config := do
  return { cfg with lastProcessedOffset := (← resumeOffset log).toNat }

/-- The logs that converters leave which have read from the source, each after the stop of the one
before it; what they have read of the source and written of their messages is any first part. -/
inductive Written (cfg : Config) (source : List Line) : List Message → List String → Prop
  | first {start : Int} {events : List Event} {new : List Message} (memory : EntryMemory) :
      consumed events <+: source → new <+: (run cfg.fresh start events).emitted →
      Written cfg source new (linesOf memory new)
  | again {log : List Message} {lines : List String} {resumed : Config} {start : Int}
      {events : List Event} {new : List Message} (memory : EntryMemory) :
      Written cfg source log lines → restart cfg lines = .ok resumed →
      consumed events <+: source → new <+: (run resumed start events).emitted →
      Written cfg source (log ++ new) (lines ++ linesOf memory new)

def LinesFor (log : List Message) (lines : List String) : Prop :=
  List.Forall₂ (fun m line => ∃ unset, line = Message.line unset m) log lines

/-- However often the converter was stopped before, after some message, what is in the log and what
the restarted converter writes are the lines of an uninterrupted run. -/
def Continues (cfg : Config) (source : List Line) : Prop :=
  ∀ log lines, Written cfg source log lines → log ≠ [] → log.length < 2 ^ 63 →
    ∀ (start start' : Int) (events again : List Event) (memory memory' : EntryMemory),
      consumed events = source → consumed again = source →
        ∃ resumed, restart cfg lines = .ok resumed ∧
          lines ++ linesOf memory' (run resumed start' again).emitted =
            linesOf memory (run cfg.fresh start events).emitted

section restarts
variable {cfg : Config} {source : List Line} {start start' : Int} {log : List Message}
  {lines : List String} {events again : List Event}

theorem linesFor_linesOf (memory : EntryMemory) (log : List Message) : LinesFor log (linesOf memory log) := by
  unfold LinesFor linesOf
  rw [List.forall₂_map_right_iff]
  exact List.forall₂_same.mpr fun m _ => ⟨memory m.offset, rfl⟩

theorem linesFor_written (h : Written cfg source log lines) : LinesFor log lines := by
  induction h with
  | first memory => exact linesFor_linesOf memory _
  | again memory _ _ _ _ ih => exact List.rel_append ih (linesFor_linesOf memory _)

theorem linesFor_last (h : LinesFor log lines) : (log = [] ∧ lines = []) ∨
    ∃ m unset, log.getLast? = some m ∧ lines.getLast? = some (Message.line unset m) := by
  induction h with
  | nil => exact .inl ⟨rfl, rfl⟩
  | @cons m line log lines hline _ ih =>
    right
    rcases ih with ⟨rfl, rfl⟩ | ⟨last, unset, hlast, hlastLine⟩
    · obtain ⟨unset, rfl⟩ := hline
      exact ⟨m, unset, rfl, rfl⟩
    · exact ⟨last, unset, by simp [List.getLast?_cons, hlast],
        by simp [List.getLast?_cons, hlastLine]⟩

theorem linesFor_unique (h : LinesFor log lines) (hgids : ∀ m ∈ log, m.entry.HasGids)
    (memory : EntryMemory) : lines = linesOf memory log := by
  induction h with
  | nil => rfl
  | @cons m line log lines hline _ ih =>
    obtain ⟨unset, rfl⟩ := hline
    have hrest := ih fun m' hm' => hgids m' (List.mem_cons_of_mem _ hm')
    rw [hrest]
    unfold Message.line
    rw [toText_of_hasGids (hgids m List.mem_cons_self) unset (memory m.offset)]
    rfl

theorem restart_eq (hlog : log <+: (run cfg.fresh start events).emitted)
    (hlines : LinesFor log lines) (hfits : log.length < 2 ^ 63) :
    restart cfg lines = .ok { cfg with lastProcessedOffset := log.length } := by
  have hnumbered : log.map (fun m : Message => m.offset) = List.range' 1 log.length := by
    have hall := @run_numbered cfg.fresh rfl start events
    obtain ⟨later, hlater⟩ := hlog
    unfold Numbered at hall
    rw [← hlater, List.map_append, List.length_append, List.range'_append_1.symm] at hall
    exact (List.append_inj hall (by simp)).1
  unfold restart resumeOffset
  rcases linesFor_last hlines with ⟨rfl, rfl⟩ | ⟨m, unset, hlast, hlastLine⟩
  · rfl
  · have hoffset : m.offset = log.length := by
      have hget := congrArg List.getLast? hnumbered
      rw [List.getLast?_map, hlast, List.getLast?_range'] at hget
      have hne : log.length ≠ 0 := by
        intro hzero
        rw [List.length_eq_zero_iff.mp hzero] at hlast
        cases hlast
      rw [if_neg hne] at hget
      have heq := Option.some.inj hget
      dsimp only at heq
      omega
    have hrange : InRange 64 (log.length : Int) := by
      unfold InRange
      omega
    have hread : stoll (lastField (m.line unset)) = .ok (log.length : Int) := by
      unfold Message.line
      rw [lastField_toText, hoffset]
      exact stoll_toString hrange
    rw [hlastLine]
    simp only [hread, bind, Except.bind]
    rfl

theorem written_initial (hmode : cfg.flags.useLogsPerEpoch = true)
    (hevents : consumed events = source) (hlog : Written cfg source log lines)
    (hfits : log.length < 2 ^ 63) : log <+: (run cfg.fresh start events).emitted := by
  induction hlog with
  | @first start' part new _ hread hnew =>
    have hless : consumed part <+: consumed events := by rw [hevents]; exact hread
    have hpart := @emitted_of_initial cfg.fresh part events start' hmode start hless
    exact hnew.trans hpart
  | @again log lines resumed start' part new _ hold hrestart hread hnew ih =>
    rw [List.length_append] at hfits
    have hprefix := ih (by omega)
    have heq := @restart_eq cfg start log lines events hprefix (linesFor_written hold) (by omega)
    rw [hrestart] at heq
    cases heq
    have hless : consumed part <+: consumed events := by rw [hevents]; exact hread
    have hpart := @emitted_of_initial { cfg with lastProcessedOffset := log.length } part events start'
      hmode start hless
    have hdrop : new <+: (run cfg.fresh start events).emitted.drop log.length := hnew.trans hpart
    obtain ⟨later, hlater⟩ := hprefix
    rw [← hlater] at hdrop ⊢
    rw [List.drop_left] at hdrop
    exact List.prefix_append_right_inj log |>.mpr hdrop

/-- The messages in the log and those of the restarted converter are the messages of an
uninterrupted one, whatever their entries hold. -/
theorem restart_messages (hmode : cfg.flags.useLogsPerEpoch = true)
    (hlog : Written cfg source log lines) (hfits : log.length < 2 ^ 63)
    (hagain : consumed again = source) (hevents : consumed events = source) :
    ∃ resumed, restart cfg lines = .ok resumed ∧
      log ++ (run resumed start' again).emitted = (run cfg.fresh start events).emitted := by
  have hprefix := @written_initial cfg source start log lines events hmode hevents hlog hfits
  refine ⟨_, restart_eq hprefix (linesFor_written hlog) hfits, ?_⟩
  have hrest := @emitted_of_consumed { cfg with lastProcessedOffset := log.length } events again start
    hmode start' (hevents.trans hagain.symm)
  rw [hrest]
  obtain ⟨later, hlater⟩ := hprefix
  have hsame : (run (Config.fresh { cfg with lastProcessedOffset := log.length }) start events).emitted
      = log ++ later := hlater.symm
  rw [hsame, ← hlater]
  show log ++ (log ++ later).drop log.length = _
  rw [List.drop_left]

theorem linesOf_append (memory : EntryMemory) (log more : List Message) :
    linesOf memory (log ++ more) = linesOf memory log ++ linesOf memory more := List.map_append

theorem continues_of_hasGids (hmode : cfg.flags.useLogsPerEpoch = true)
    (hgids : ∀ (start : Int) (events : List Event), consumed events = source →
      ∀ m ∈ (run cfg.fresh start events).emitted, m.entry.HasGids) : Continues cfg source := by
  intro log lines hlog _ hfits start start' events again memory memory' hevents hagain
  obtain ⟨resumed, hrestart, hsame⟩ :=
    @restart_messages cfg source start start' log lines events again hmode hlog hfits hagain hevents
  refine ⟨resumed, hrestart, ?_⟩
  have hall := hgids start events hevents
  rw [← hsame] at hall ⊢
  have hlines := linesFor_unique (linesFor_written hlog)
    (fun m hm => hall m (List.mem_append_left _ hm)) memory
  have hmore := linesFor_unique (linesFor_linesOf memory' (run resumed start' again).emitted)
    (fun m hm => hall m (List.mem_append_right _ hm)) memory
  rw [hlines, hmore, linesOf_append]

theorem hasGids_of_continues (hcontinues : Continues cfg (consumed events)) {m : Message}
    (hm : m ∈ (run cfg.fresh start events).emitted) : m.entry.HasGids := by
  cases hemitted : (run cfg.fresh start events).emitted with
  | nil =>
    rw [hemitted] at hm
    cases hm
  | cons first later =>
    have hwritten : Written cfg (consumed events) [first] (linesOf (fun _ => 0) [first]) :=
      .first (fun _ => 0) List.prefix_rfl (by rw [hemitted]; exact ⟨later, rfl⟩)
    have hboth := fun memory => hcontinues _ _ hwritten (by simp) (by simp) start start events events
      memory (fun _ => 0) rfl rfl
    obtain ⟨resumed, hrestart, hzero⟩ := hboth fun _ => 0
    obtain ⟨resumed', hrestart', hone⟩ := hboth fun _ => 1
    rw [hrestart] at hrestart'
    cases hrestart'
    have hsame : linesOf (fun _ => 0) (run cfg.fresh start events).emitted =
        linesOf (fun _ => 1) (run cfg.fresh start events).emitted := hzero.symm.trans hone
    exact hasGids_of_toText (List.map_inj_left.mp hsame m hm)

theorem entriesOf_eq : entriesOf cfg events = (consumed events).flatMap fun line =>
    match processBinlogStep1 cfg.parser line with
    | .ok es => es
    | .error _ => [] := by
  induction events with
  | nil => rfl
  | cons event rest ih =>
    obtain ⟨line, clock⟩ := event
    unfold entriesOf consumed at ih ⊢
    rw [List.flatMap_cons, ih]
    cases line with
    | noMessage => rfl
    | text log => rfl

/-- A restarted converter continues every log exactly when each edge, and each update or deletion of
a vertex, names vertices that are inserted before; of a run that an exception ends, the condition is
enough. -/
theorem restart_equivalent (hmode : cfg.flags.useLogsPerEpoch = true) (start : Int)
    (events : List Event) :
    (Resolvable (entriesOf cfg events) → Continues cfg (consumed events)) ∧
      ((run cfg.fresh start events).fault = none →
        (Continues cfg (consumed events) ↔ Resolvable (entriesOf cfg events))) := by
  have henough : Resolvable (entriesOf cfg events) → Continues cfg (consumed events) := by
    intro hres
    apply continues_of_hasGids hmode
    intro start' again hagain
    rw [messages_hasGids]
    apply (messages_referential cfg start' again).1
    rw [entriesOf_eq, hagain, ← entriesOf_eq]
    exact hres
  refine ⟨henough, fun hok => ⟨fun hcontinues => ?_, henough⟩⟩
  rw [← (messages_referential cfg start events).2.1 hok, ← messages_hasGids]
  exact fun m hm => hasGids_of_continues hcontinues hm

end restarts

/-- The end of the snapshot, and an insertion and an update after it. -/
def endOfSnapshot : List Line :=
  [rowChange "person" "r" "last" none (personRow 1),
    rowChange "person" "c" "false" (some 7) (personRow 2),
    rowChange "person" "u" "false" (some 8) (personRow 1)]

theorem restart_equivalent_endOfSnapshot :
    Continues (personConfig {}) (consumed (atOnce endOfSnapshot)) := by
  apply (restart_equivalent rfl 0 _).1
  exact @forall_split_of_get _ (fun earlier e => ∀ key ∈ e.references, InsertedIn earlier key)
    (entriesOf (personConfig {}) (atOnce endOfSnapshot)) (by decide +kernel)

/-- A person, and the update of another one that was never inserted. -/
def neverInserted : List Line :=
  [rowChange "person" "c" "false" (some 7) (personRow 1),
    rowChange "person" "u" "false" (some 8) (personRow 2)]

/-- Without any edge, the line of the update has the gid that the memory holds. -/
theorem restart_differs :
    (∀ e ∈ entriesOf (personConfig {}) (atOnce neverInserted), e.entityType = .vertex) ∧
      (run (personConfig {}).fresh 0 (atOnce neverInserted)).emitted.map (Message.line 0) =
        ["add_vertex|0|0|1|1", "update_vertex|0|0|2|2"] ∧
      (run (personConfig {}).fresh 0 (atOnce neverInserted)).emitted.map (Message.line 5) =
        ["add_vertex|0|0|1|1", "update_vertex|0|5|2|2"] ∧
      ¬Continues (personConfig {}) (consumed (atOnce neverInserted)) := by
  refine ⟨by decide +kernel, by decide +kernel, by decide +kernel, fun hcontinues => ?_⟩
  have hupdate : ∃ m ∈ (run (personConfig {}).fresh 0 (atOnce neverInserted)).emitted,
      m.entry.opType ≠ .bulkloadEnd ∧ m.entry.entityType = .vertex ∧ m.entry.vertexGid = none := by
    decide +kernel
  obtain ⟨m, hm, hop, hentity, hnone⟩ := hupdate
  rcases hasGids_of_continues hcontinues hm with hend | hgids
  · exact hop hend
  · rw [hentity] at hgids
    exact hgids hnone

end Gart.Converter
