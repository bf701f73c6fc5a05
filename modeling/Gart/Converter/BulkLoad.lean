import Gart.Converter.Epochs
import Gart.Converter.Resume

/-!
# The end of the bulk load

The last snapshot event carries a mark, and the second step writes `bulkload_end`
after an event whose last entry carries it. The mark is lost when the event hands
over no entry.
-/

namespace Gart.Converter
open Gart.Outcome

def snapshotText (log : Json) : Except Fault String := do
  let source ← log.index "source"
  (← source.index "snapshot").getString

/-- The message is a row marked as the last one of the snapshot. -/
def markedLast : Line → Bool
  | .text (some log) =>
    match snapshotText log with
    | .ok text => text = "last"
    | .error _ => false
  | _ => false

/-- The event's table is mapped, and a label of it is a vertex label or an edge label whose two
foreign keys are in the row. -/
def carriesEntry (cfg : ParserConfig) : Line → Bool
  | .text (some log) =>
    match header cfg log with
    | .ok (some h) => (slots cfg h).any (filledBy cfg log)
    | _ => false
  | _ => false

section marks
variable {cfg : Config} {event : Event} {es : List LogEntry} {e : LogEntry}

theorem header_snapshot {cfg : ParserConfig} {log : Json} {h : Header}
    (hbuild : cfg.build = .debezium) (hheader : header cfg log = .ok (some h)) :
    ∃ text, snapshotText log = .ok text ∧ h.snapshot = snapshotOf text := by
  have hspec : Ensures (header cfg log) (fun r => ∀ h, r = some h →
      ∃ text, snapshotText log = .ok text ∧ h.snapshot = snapshotOf text) Stops := by
    have hself : ∀ {α : Type} (x : Except Fault α), Ensures x (fun a => x = .ok a) Stops := by
      intro α x
      cases x with
      | error f => trivial
      | ok a => rfl
    unfold header
    refine Ensures.bind (hself _) fun table _ => ?_
    dsimp only
    split
    · intro h heq
      cases heq
    · simp only [hbuild]
      refine Ensures.bind (hself _) fun op _ => Ensures.bind (hself _) fun type _ => ?_
      refine Ensures.bind (hself _) fun source hsource => ?_
      refine Ensures.bind (hself _) fun txId _ => ?_
      refine Ensures.bind (hself _) fun field hfield => ?_
      refine Ensures.bind (hself _) fun text htext => ?_
      have hsnapshot : snapshotText log = .ok text := by
        unfold snapshotText
        simp only [hsource, hfield, htext, bind, Except.bind]
      split
      · trivial
      · split
        · trivial
        · intro h heq
          cases heq
          exact ⟨text, hsnapshot, rfl⟩
  exact hspec.of_ok hheader h rfl

theorem snapshotOf_last (text : String) : snapshotOf text = .last ↔ text = "last" := by
  unfold snapshotOf
  constructor
  · intro h
    split at h
    · assumption
    · split at h
      · cases h
      · split at h <;> cases h
  · intro h
    rw [if_pos h]

theorem lastSnapshot_iff (hbuild : cfg.parser.build = .debezium) (hes : Yields cfg event es e) :
    e.lastSnapshot = markedLast event.1 := by
  have hmem := List.mem_of_getLast? hes.2
  obtain ⟨log, h, hline, hheader⟩ := step1_header hes.1 (List.ne_nil_of_mem hmem)
  have hes1 := hes.1
  rw [hline] at hes1
  obtain ⟨slot, -, hfilled, -⟩ := step1_filled hheader hes1 e hmem
  obtain ⟨text, htext, hsnapshot⟩ := header_snapshot hbuild hheader
  rw [hline]
  unfold LogEntry.lastSnapshot markedLast
  simp only [htext, hfilled.snapshot, hsnapshot]
  exact decide_eq_decide.mpr (snapshotOf_last text)

/-- An event yields entries exactly when it carries one, unless an exception ends the process. -/
theorem carriesEntry_iff (hes : processBinlogStep1 cfg.parser event.1 = .ok es) :
    es ≠ [] ↔ carriesEntry cfg.parser event.1 = true := by
  unfold carriesEntry
  constructor
  · intro hne
    obtain ⟨log, h, hline, hheader⟩ := step1_header hes hne
    rw [hline] at hes ⊢
    simp only [hheader]
    exact (step1_ne_nil_iff hheader hes).mp hne
  · intro hcarries
    split at hcarries
    · rename_i log hline
      rw [hline] at hes
      split at hcarries
      · rename_i h hheader
        exact (step1_ne_nil_iff hheader hes).mpr hcarries
      · cases hcarries
    · cases hcarries

end marks

/-! ### Events without the mark -/

section unmarked
variable {cfg : Config} {st : Step2} {event : Event}

/-- What an event without the mark does: it writes only messages of its own, does not end the
bulk load, and does not move the epoch during it. -/
structure Unmarked (cfg : Config) (st st' : Step2) : Prop where
  emitted : ∃ new, st'.emitted = st.emitted ++ new ∧ ∀ m ∈ new, m.ofEvent
  bulkLoadFinished : st'.bulkLoadFinished = st.bulkLoadFinished
  epoch : st.advancing cfg.flags = false → st'.epoch = st.epoch

theorem step_unmarked (hbuild : cfg.parser.build = .debezium) (hmark : markedLast event.1 = false) :
    Unmarked cfg st (step cfg st event) := by
  by_cases hfault : st.fault = none
  · rcases @step_cases cfg st event hfault with ⟨f, hstep⟩ | ⟨-, hstep⟩ | ⟨es, e, hes, hstep⟩
    · rw [hstep]
      exact ⟨⟨[], by simp, fun m hm => (List.not_mem_nil hm).elim⟩, rfl, fun _ => rfl⟩
    · rw [hstep]
      exact ⟨⟨[], by simp, fun m hm => (List.not_mem_nil hm).elim⟩, rfl, fun _ => rfl⟩
    · have hlast : e.lastSnapshot = false := by rw [lastSnapshot_iff hbuild hes, hmark]
      have hsame := @takeEntries_sameEpoch cfg st.counted es
      obtain ⟨new, hnew, hfrom⟩ := @takeEntries_emits cfg st.counted es
      have hmove := @moveEpoch_sameOutput cfg (takeEntries cfg st.counted es) e.txId event.2.now
      have hfinish : finishEvent cfg event.2 e (takeEntries cfg st.counted es) =
            takeEntries cfg st.counted es ∨
          finishEvent cfg event.2 e (takeEntries cfg st.counted es) =
            moveEpoch cfg e.txId event.2.now (takeEntries cfg st.counted es) := by
        unfold finishEvent
        split
        · exact .inl rfl
        · right
          dsimp only
          split
          · rfl
          · simp [hlast]
      rw [hstep]
      refine ⟨⟨new, ?_, ?_⟩, ?_, fun hadv => ?_⟩
      · rcases hfinish with heq | heq
        · rw [heq, hnew]
          rfl
        · rw [heq, hmove.emitted, hnew]
          rfl
      · intro m hm
        obtain ⟨e', he', hcontent, -⟩ := hfrom m hm
        unfold Message.ofEvent
        rw [hcontent.opType]
        exact (yields_uniform hes e' he').2.2
      · rcases hfinish with heq | heq
        · rw [heq]
          exact hsame.bulkLoadFinished
        · rw [heq, hmove.bulkLoadFinished]
          exact hsame.bulkLoadFinished
      · have hadv' : (takeEntries cfg st.counted es).advancing cfg.flags = false := by
          unfold Step2.advancing at hadv ⊢
          rw [hsame.bulkLoadFinished]
          exact hadv
        rcases hfinish with heq | heq
        · rw [heq]
          exact hsame.epoch
        · rw [heq, moveEpoch_not_advancing hbuild hadv']
          exact hsame.epoch
  · rw [step_of_fault hfault]
    exact ⟨⟨[], by simp, fun m hm => (List.not_mem_nil hm).elim⟩, rfl, fun _ => rfl⟩

theorem foldl_unmarked (hbuild : cfg.parser.build = .debezium) {events : List Event}
    (hmark : ∀ event ∈ events, markedLast event.1 = false) :
    ∀ st : Step2, Unmarked cfg st (events.foldl (step cfg) st) := by
  induction events with
  | nil => exact fun st => ⟨⟨[], by simp, fun m hm => (List.not_mem_nil hm).elim⟩, rfl, fun _ => rfl⟩
  | cons event rest ih =>
    intro st
    have hfirst := @step_unmarked cfg st event hbuild (hmark event List.mem_cons_self)
    have hrest := ih (fun x hx => hmark x (List.mem_cons_of_mem _ hx)) (step cfg st event)
    obtain ⟨new, hnew, hof⟩ := hfirst.emitted
    obtain ⟨more, hmore, hof'⟩ := hrest.emitted
    refine ⟨⟨new ++ more, ?_, ?_⟩, hrest.bulkLoadFinished.trans hfirst.bulkLoadFinished, ?_⟩
    · show (rest.foldl (step cfg) (step cfg st event)).emitted = _
      rw [hmore, hnew, List.append_assoc]
    · intro m hm
      rcases List.mem_append.mp hm with hin | hin
      · exact hof m hin
      · exact hof' m hin
    · intro hadv
      have hadv' : (step cfg st event).advancing cfg.flags = false := by
        unfold Step2.advancing at hadv ⊢
        rw [hfirst.bulkLoadFinished]
        exact hadv
      exact (hrest.epoch hadv').trans (hfirst.epoch hadv)

end unmarked

/-! ### The whole source -/

/-- Exactly one `bulkload_end`, after the messages of the snapshot and before those of the row
changes; with bulk load enabled the epoch is 0 and does not move up to it, and may move from 1 on
after it. -/
structure BulkLoadEnds (cfg : Config) (start : Int) (snapshot : List Event) (last : Event)
    (changes : List Event) : Prop where
  once : ∃ data offset later,
    (run cfg start (snapshot ++ [last])).emitted = data ++ [⟨LogEntry.bulkLoadEnd, offset⟩] ∧
    (run cfg start (snapshot ++ last :: changes)).emitted =
      data ++ ⟨LogEntry.bulkLoadEnd, offset⟩ :: later ∧
    (∀ m ∈ data, m.ofEvent) ∧ ∀ m ∈ later, m.ofEvent
  standsStill : cfg.flags.enableBulkLoad = true → ∀ before after, snapshot = before ++ after →
    (run cfg start before).advancing cfg.flags = false ∧ (run cfg start before).epoch = 0
  advances : cfg.flags.enableBulkLoad = true →
    (run cfg start (snapshot ++ [last])).epoch = 1 ∧
    ∀ before after, changes = before ++ after →
      (run cfg start (snapshot ++ last :: before)).advancing cfg.flags = true

section source
variable {cfg : Config} {start : Int} {snapshot changes : List Event} {last : Event}

theorem step_last {st : Step2} (hbuild : cfg.parser.build = .debezium)
    (hzero : cfg.lastProcessedOffset = 0) (hpaced : Paced cfg st) (hfault : st.fault = none)
    (hmark : markedLast last.1 = true) (hcarries : carriesEntry cfg.parser last.1 = true)
    (hok : (step cfg st last).fault = none) :
    (∃ data offset, (step cfg st last).emitted =
        st.emitted ++ data ++ [⟨LogEntry.bulkLoadEnd, offset⟩] ∧ ∀ m ∈ data, m.ofEvent) ∧
      (step cfg st last).epoch = 1 ∧ (step cfg st last).bulkLoadFinished = true := by
  have hyields : ∃ es e, Yields cfg last es e := by
    rcases @step_cases cfg st last hfault with ⟨f, hstep⟩ | ⟨hes, -⟩ | ⟨es, e, hes, -⟩
    · rw [hstep] at hok
      cases hok
    · exact absurd rfl ((carriesEntry_iff hes).mpr hcarries)
    · exact ⟨es, e, hes⟩
  obtain ⟨es, e, hes⟩ := hyields
  have hlast : e.lastSnapshot = true := by rw [lastSnapshot_iff hbuild hes, hmark]
  have hepoch := step_epoch hfault hes hok
  rw [if_pos hlast] at hepoch
  obtain ⟨new, hnew, hfrom⟩ := @takeEntries_emits cfg st.counted es
  have hcounted : Paced cfg st.counted := ⟨hpaced.mode, hpaced.length_le, hpaced.length_eq⟩
  have hpacedTaken := (@takeEntries_paced cfg st.counted es hcounted).1
  rw [step_of_yields hfault hes] at hok hepoch ⊢
  have hfinish : ∃ s, Paced cfg s ∧ s.emitted = st.emitted ++ new ∧
      finishEvent cfg last.2 e (takeEntries cfg st.counted es) =
        endBulkLoad cfg e.txId last.2.later s := by
    refine ⟨moveEpoch cfg e.txId last.2.now (takeEntries cfg st.counted es),
      moveEpoch_paced hpacedTaken, ?_, ?_⟩
    · rw [moveEpoch_sameOutput.emitted, hnew]
      rfl
    · unfold finishEvent at hok ⊢
      split at hok
      · rename_i hsome
        simp [hok] at hsome
      · rename_i hnone
        rw [if_neg hnone]
        dsimp only at hok ⊢
        split at hok
        · rename_i hsome
          simp [hok] at hsome
        · rename_i hmoved
          rw [if_neg hmoved, if_pos hlast]
  obtain ⟨s, hs, hemitted, heq⟩ := hfinish
  have hsilent : s.silent cfg = false := by
    rw [silent_eq hs, hzero]
    exact decide_eq_false (Nat.not_lt_zero _)
  rw [heq] at hepoch ⊢
  refine ⟨⟨new, s.processedCount + 1, ?_, ?_⟩, hepoch, rfl⟩
  · unfold endBulkLoad
    dsimp only
    rw [hsilent, hemitted]
    rfl
  · intro m hm
    obtain ⟨e', he', hcontent, -⟩ := hfrom m hm
    unfold Message.ofEvent
    rw [hcontent.opType]
    exact (yields_uniform hes e' he').2.2

theorem bulkLoadEnds_of_carries (hbuild : cfg.parser.build = .debezium)
    (hzero : cfg.lastProcessedOffset = 0)
    (hsnapshot : ∀ event ∈ snapshot, markedLast event.1 = false)
    (hlast : markedLast last.1 = true) (hchanges : ∀ event ∈ changes, markedLast event.1 = false)
    (hok : (run cfg start (snapshot ++ [last])).fault = none)
    (hcarries : carriesEntry cfg.parser last.1 = true) :
    BulkLoadEnds cfg start snapshot last changes := by
  have hpaced := run_paced cfg start snapshot
  have hbefore := foldl_unmarked hbuild hsnapshot { start := start }
  have hfault : (run cfg start snapshot).fault = none := by
    have h := hok
    rw [run_append_list] at h
    exact (foldl_step [last] _).2 h
  have hstepOk : (step cfg (run cfg start snapshot) last).fault = none := by
    rw [← run_append]
    exact hok
  obtain ⟨⟨data, offset, hdata, hof⟩, hepoch, hfinished⟩ :=
    step_last hbuild hzero hpaced hfault hlast hcarries hstepOk
  have hsplit : ∀ more : List Event, run cfg start (snapshot ++ last :: more) =
      more.foldl (step cfg) (step cfg (run cfg start snapshot) last) := by
    intro more
    rw [run_append_list]
    rfl
  refine ⟨?_, ?_, ?_⟩
  · obtain ⟨first, hfirst, hofFirst⟩ := hbefore.emitted
    have hfirst' : (run cfg start snapshot).emitted = first := hfirst
    obtain ⟨later, hlater, hofLater⟩ :=
      (foldl_unmarked hbuild hchanges (step cfg (run cfg start snapshot) last)).emitted
    refine ⟨first ++ data, offset, later, ?_, ?_, ?_, hofLater⟩
    · rw [run_append, hdata, hfirst']
    · rw [hsplit, hlater, hdata, hfirst']
      simp
    · intro m hm
      rcases List.mem_append.mp hm with hin | hin
      · exact hofFirst m hin
      · exact hof m hin
  · intro henabled before after hbeforeSplit
    have hmarks : ∀ event ∈ before, markedLast event.1 = false := fun event hevent =>
      hsnapshot event (by rw [hbeforeSplit]; exact List.mem_append_left _ hevent)
    have hunmarked := foldl_unmarked hbuild hmarks { start := start }
    have hadv0 : Step2.advancing cfg.flags { start := start } = false := by
      simp [Step2.advancing, henabled]
    refine ⟨?_, hunmarked.epoch hadv0⟩
    have hfin : (run cfg start before).bulkLoadFinished = false := hunmarked.bulkLoadFinished
    simp [Step2.advancing, henabled, hfin]
  · intro henabled
    refine ⟨?_, ?_⟩
    · rw [run_append]
      exact hepoch
    · intro before after hchangesSplit
      have hmarks : ∀ event ∈ before, markedLast event.1 = false := fun event hevent =>
        hchanges event (by rw [hchangesSplit]; exact List.mem_append_left _ hevent)
      have hunmarked :=
        foldl_unmarked hbuild hmarks (step cfg (run cfg start snapshot) last)
      rw [hsplit]
      simp [Step2.advancing, hunmarked.bulkLoadFinished, hfinished]

theorem carries_of_bulkLoadEnds (hbuild : cfg.parser.build = .debezium)
    (hsnapshot : ∀ event ∈ snapshot, markedLast event.1 = false)
    (hok : (run cfg start (snapshot ++ [last])).fault = none)
    (h : BulkLoadEnds cfg start snapshot last changes) : carriesEntry cfg.parser last.1 = true := by
  by_contra hnot
  obtain ⟨data, offset, later, hdata, -, -, -⟩ := h.once
  obtain ⟨first, hfirst, hof⟩ := (foldl_unmarked hbuild hsnapshot { start := start }).emitted
  have hfirst' : (run cfg start snapshot).emitted = first := hfirst
  have hfault : (run cfg start snapshot).fault = none := by
    have h := hok
    rw [run_append_list] at h
    exact (foldl_step [last] _).2 h
  have hsame : step cfg (run cfg start snapshot) last = run cfg start snapshot := by
    rw [run_append] at hok
    rcases @step_cases cfg _ last hfault with ⟨f, hstep⟩ | ⟨-, hstep⟩ | ⟨es, e, hes, -⟩
    · rw [hstep] at hok
      cases hok
    · exact hstep
    · exact absurd ((carriesEntry_iff hes.1).mp
        (List.ne_nil_of_mem (List.mem_of_getLast? hes.2))) hnot
  rw [run_append, hsame, hfirst'] at hdata
  exact hof ⟨LogEntry.bulkLoadEnd, offset⟩ (by simp [hdata]) rfl

/-- The bulk load ends as it should exactly when the last snapshot event carries an entry, unless
an exception ends the process before; a resumed run writes the messages beyond its offset. -/
theorem bulkLoad_ends_iff (hbuild : cfg.parser.build = .debezium)
    (hsnapshot : ∀ event ∈ snapshot, markedLast event.1 = false)
    (hlast : markedLast last.1 = true) (hchanges : ∀ event ∈ changes, markedLast event.1 = false)
    (hok : (run cfg.fresh start (snapshot ++ [last])).fault = none) :
    (BulkLoadEnds cfg.fresh start snapshot last changes ↔ carriesEntry cfg.parser last.1 = true) ∧
      (run cfg start (snapshot ++ last :: changes)).emitted =
        (run cfg.fresh start (snapshot ++ last :: changes)).emitted.drop cfg.lastProcessedOffset :=
  ⟨⟨@carries_of_bulkLoadEnds cfg.fresh _ _ _ _ hbuild hsnapshot hok,
    @bulkLoadEnds_of_carries cfg.fresh _ _ _ _ hbuild rfl hsnapshot hlast hchanges hok⟩,
    resumed_emitted cfg start _⟩

end source

/-- A row of the initial snapshot; MySQL gives no GTID for it. -/
def snapshotRow (table mark : String) (id : Int) : Line := rowChange table "r" mark none (personRow id)

/-- The mark is on a row of a mapped table. -/
theorem bulkLoad_ends_person :
    (BulkLoadEnds (personConfig {}).fresh 0 (atOnce [snapshotRow "person" "true" 1])
        (snapshotRow "person" "last" 2, ⟨0, 0⟩)
        (atOnce [rowChange "person" "c" "false" (some 7) (personRow 3)]) ↔
      carriesEntry (personConfig {}).parser (snapshotRow "person" "last" 2) = true) ∧
    (run (personConfig {}) 0 (atOnce [snapshotRow "person" "true" 1] ++
        (snapshotRow "person" "last" 2, ⟨0, 0⟩) ::
          atOnce [rowChange "person" "c" "false" (some 7) (personRow 3)])).emitted =
      (run (personConfig {}).fresh 0 (atOnce [snapshotRow "person" "true" 1] ++
        (snapshotRow "person" "last" 2, ⟨0, 0⟩) ::
          atOnce [rowChange "person" "c" "false" (some 7) (personRow 3)])).emitted.drop 0 :=
  bulkLoad_ends_iff rfl (by decide +kernel) (by decide +kernel) (by decide +kernel)
    (by decide +kernel)

/-- The mark is on a row of a table that is not mapped, and the bulk load does not end. -/
theorem bulkLoad_endless :
    markedLast (snapshotRow "account" "last" 2) = true ∧
    (run (personConfig {}) 0 (atOnce [snapshotRow "person" "true" 1, snapshotRow "account" "last" 2,
      rowChange "person" "c" "false" (some 7) (personRow 3)])).fault = none ∧
    ¬BulkLoadEnds (personConfig {}) 0 (atOnce [snapshotRow "person" "true" 1])
      (snapshotRow "account" "last" 2, ⟨0, 0⟩)
      (atOnce [rowChange "person" "c" "false" (some 7) (personRow 3)]) := by
  refine ⟨by decide +kernel, by decide +kernel, fun h => ?_⟩
  obtain ⟨data, offset, later, hdata, -⟩ := h.once
  have hnone : ∀ m ∈ (run (personConfig {}) 0 (atOnce [snapshotRow "person" "true" 1] ++
      [(snapshotRow "account" "last" 2, ⟨0, 0⟩)])).emitted, m.ofEvent := by
    decide +kernel
  rw [hdata] at hnone
  exact hnone ⟨LogEntry.bulkLoadEnd, offset⟩ (by simp) rfl

end Gart.Converter
