import Mathlib.Data.List.Induction
import Gart.Converter.Restart
import Gart.Lib.RoundRobin

/-!
# The threads of the converter

The main thread deals the messages of the source out to the first-step threads in
turn, each with queues of its own; a first-step thread hands over the entries of a
message and then their count; the second-step thread takes the counts in the same
turn. A thread waits at a full queue, so entries whose count has not been handed
over can fill theirs for good. The first-step threads share `unused_tables_`, which
they search and change without a lock.
-/

namespace Gart.Converter
open Gart.Outcome Gart.RoundRobin

inductive Stage
  | idle
  | line (line : Line)
  /-- in `unused_tables_.find` (`parser.cc:272`) -/
  | finding (table : String)
  | missing (table : String)
  /-- in `unused_tables_.insert` (`parser.cc:274`) -/
  | inserting (table : String)
  /-- at the head of the loop over `more_entires` -/
  | entry (log : Json) (out : LogEntry) (unifiedLogCount : Nat)
  | count (unifiedLogCount : Nat)

namespace Stage

def inSet : Stage → Bool
  | .finding _ => true
  | .inserting _ => true
  | _ => false

def inserts : Stage → Bool
  | .inserting _ => true
  | _ => false

/-- Both are in the set, and one of them changes it: undefined for a `std::set`. -/
def races (a b : Stage) : Bool := a.inSet && b.inSet && (a.inserts || b.inserts)

end Stage

/-- `try_enqueue` takes one more element; a queue of `USE_TBB` has no capacity. -/
def HasRoom {α : Type} (capacity : Option Nat) (queue : List α) : Prop :=
  ∀ n ∈ capacity, queue.length < n

instance {α : Type} (capacity : Option Nat) (queue : List α) : Decidable (HasRoom capacity queue) :=
  inferInstanceAs (Decidable (∀ n ∈ capacity, queue.length < n))

structure Worker where
  binlog : List Line := []
  stage : Stage := .idle
  unified : List LogEntry := []
  counts : List Nat := []

/-- `process_binlog_step_1` (`binlog_convert.cc:71-142`) up to its next access to a queue or to
`unused_tables_`, whose tables are `unused`. -/
def Worker.advance (cfg : ParserConfig) (capacity : Option Nat) (unused : List String)
    (w : Worker) : Except Fault (Worker × List String) :=
  match w.stage with
  | .idle =>
    match w.binlog with
    | [] => .ok (w, unused)
    | line :: rest => .ok ({ w with binlog := rest, stage := .line line }, unused)
  | .line .noMessage => .ok ({ w with stage := .count 0 }, unused)
  | .line (.text none) => .error .parseJsonError
  | .line (.text (some log)) => do
    let out ← parse cfg {} log
    if out.valid then return ({ w with stage := .entry log out 0 }, unused)
    else return ({ w with stage := .finding (← tableName cfg.build log) }, unused)
  | .finding table =>
    .ok ({ w with stage := if table ∈ unused then .count 0 else .missing table }, unused)
  | .missing table => .ok ({ w with stage := .inserting table }, unused)
  | .inserting table => .ok ({ w with stage := .count 0 }, table :: unused)
  | .entry log out n =>
    if out.pushed ≠ [] ∧ ¬HasRoom capacity w.unified then
      .ok (w, unused)
    else if out.moreEntires then do
      let next ← parse cfg out log
      return ({ w with
        unified := w.unified ++ out.pushed, stage := .entry log next (n + out.pushed.length) }, unused)
    else
      .ok ({ w with
        unified := w.unified ++ out.pushed, stage := .count (n + out.pushed.length) }, unused)
  | .count n =>
    if HasRoom capacity w.counts then
      .ok ({ w with counts := w.counts ++ [n], stage := .idle }, unused)
    else
      .ok (w, unused)

inductive Reader
  | waiting
  /-- entries of an event to take, and the one taken last -/
  | taking (left : Nat) (last : Option LogEntry)

/-- All threads; `dealt` is what the main thread has dealt out so far, and `held` what it has in its
hands. -/
structure Pipeline where
  dealt : List Line := []
  held : Option Line := none
  mainIdx : Nat := 0
  workers : Nat → Worker := fun _ => {}
  unusedTables : List String := []
  raced : Bool := false
  reader : Reader := .waiting
  readerIdx : Nat := 0
  store : Step2
  fault : Option Fault := none

inductive Action
  | consume (line : Line)
  | dispatch
  | work (idx : Nat)
  | read (clock : Clock)

namespace Pipeline

def input (s : Pipeline) : List Line := s.dealt ++ s.held.toList

def setWorker (s : Pipeline) (idx : Nat) (w : Worker) : Pipeline :=
  { s with workers := fun i => if i = idx then w else s.workers i }

/-- The main thread takes the next line, a message or a timeout. -/
def consume (line : Line) (s : Pipeline) : Pipeline :=
  match s.held with
  | none => { s with held := some line }
  | some _ => s

/-- The main thread gives its line to the thread whose turn it is (`binlog_convert.cc:384-408`). -/
def dispatch (numThreads : Nat) (capacity : Option Nat) (s : Pipeline) : Pipeline :=
  match s.held with
  | none => s
  | some line =>
    let w := s.workers s.mainIdx
    if HasRoom capacity w.binlog then
      { s.setWorker s.mainIdx { w with binlog := w.binlog ++ [line] } with
        dealt := s.dealt ++ [line], held := none, mainIdx := (s.mainIdx + 1) % numThreads }
    else s

def work (cfg : ParserConfig) (numThreads : Nat) (capacity : Option Nat) (idx : Nat)
    (s : Pipeline) : Pipeline :=
  match (s.workers idx).advance cfg capacity s.unusedTables with
  | .ok (w, unused) =>
    { s.setWorker idx w with
      unusedTables := unused
      raced := (List.range numThreads).any fun j => j ≠ idx && w.stage.races (s.workers j).stage }
  | .error f => { s with fault := some f }

/-- `process_binlog_step_2` (`binlog_convert.cc:144-277`) up to its next access to a queue. -/
def read (cfg : Config) (numThreads : Nat) (clock : Clock) (s : Pipeline) : Pipeline :=
  let w := s.workers s.readerIdx
  match s.reader with
  | .waiting =>
    match w.counts with
    | [] => s
    | 0 :: counts =>
      { s.setWorker s.readerIdx { w with counts := counts } with
        readerIdx := (s.readerIdx + 1) % numThreads }
    | (count + 1) :: counts =>
      { s.setWorker s.readerIdx { w with counts := counts } with
        store := s.store.counted, reader := .taking (count + 1) none }
  | .taking (left + 1) _ =>
    match w.unified with
    | [] => s
    | entry :: rest =>
      { s.setWorker s.readerIdx { w with unified := rest } with
        store := takeEntry cfg s.store entry, reader := .taking left (some entry) }
  | .taking 0 (some entry) =>
    { s with
      store := finishEvent cfg clock entry s.store, reader := .waiting
      readerIdx := (s.readerIdx + 1) % numThreads }
  | .taking 0 none => s

/-- One step of some thread (`binlog_convert.cc:372-408`); an exception in any thread ends the process, and nothing
is said after a race. -/
def step (cfg : Config) (numThreads : Nat) (capacity : Option Nat) (s : Pipeline) (a : Action) :
    Pipeline :=
  if s.raced || s.fault.isSome || s.store.fault.isSome then s else
  match a with
  | .consume line => s.consume line
  | .dispatch => s.dispatch numThreads capacity
  | .work idx => if idx < numThreads then s.work cfg.parser numThreads capacity idx else s
  | .read clock => s.read cfg numThreads clock

def run (cfg : Config) (numThreads : Nat) (capacity : Option Nat) (start : Int)
    (actions : List Action) : Pipeline :=
  actions.foldl (step cfg numThreads capacity) { store := { start := start } }

end Pipeline

/-! ### What is in a thread -/

def unmapped (cfg : ParserConfig) (log : Json) : Bool :=
  match header cfg log with
  | .ok none => true
  | _ => false

/-- A first-step thread works on the lines of `current` and has handed over `part` of their
entries. -/
inductive Working (cfg : ParserConfig) : Stage → List Line → List LogEntry → Prop
  | idle : Working cfg .idle [] []
  | line {line : Line} : Working cfg (.line line) [line] []
  | finding {log : Json} {table : String} : unmapped cfg log = true →
      Working cfg (.finding table) [.text (some log)] []
  | missing {log : Json} {table : String} : unmapped cfg log = true →
      Working cfg (.missing table) [.text (some log)] []
  | inserting {log : Json} {table : String} : unmapped cfg log = true →
      Working cfg (.inserting table) [.text (some log)] []
  | entry {log : Json} {out : LogEntry} {h : Header} {part : List LogEntry} {n count : Nat} :
      header cfg log = .ok (some h) → Ready cfg h out → (slotsLeft cfg h out).length ≤ n →
      processBinlogStep1 cfg (.text (some log)) =
        (do let rest ← expand cfg log n out; return part ++ rest) →
      part.length = count → Working cfg (.entry log out count) [.text (some log)] part
  | count {line : Line} {es : List LogEntry} {count : Nat} : processBinlogStep1 cfg line = .ok es →
      es.length = count → Working cfg (.count count) [line] es

/-- The thread has the given lines in its queues and its hands, after `left` entries of an event
that the second step is taking. -/
def Holds (cfg : ParserConfig) (w : Worker) (lines : List Line) (left : List LogEntry) : Prop :=
  ∃ (parsed : List (Line × List LogEntry)) (current : List Line) (part : List LogEntry),
    lines = parsed.map Prod.fst ++ (current ++ w.binlog) ∧
    w.counts = parsed.map (fun p => p.2.length) ∧
    w.unified = left ++ (parsed.flatMap Prod.snd ++ part) ∧
    (∀ p ∈ parsed, processBinlogStep1 cfg p.1 = .ok p.2) ∧ Working cfg w.stage current part

section worker
variable {cfg : ParserConfig} {w : Worker} {lines : List Line} {left : List LogEntry}

theorem header_of_unmapped {log : Json} (h : unmapped cfg log = true) :
    header cfg log = .ok none := by
  unfold unmapped at h
  split at h
  · assumption
  · cases h

theorem working_parsed {log : Json} {out : LogEntry} (hout : parse cfg {} log = .ok out) :
    (out.valid = true → Working cfg (.entry log out 0) [.text (some log)] []) ∧
      (out.valid = false → unmapped cfg log = true) := by
  have hstep : processBinlogStep1 cfg (.text (some log)) =
      if out.valid then expand cfg log (rounds cfg) out else .ok [] := by
    unfold processBinlogStep1
    dsimp only
    rw [hout]
    rfl
  cases hheader : header cfg log with
  | error f =>
    unfold parse at hout
    rw [hheader] at hout
    cases hout
  | ok r =>
    cases r with
    | none =>
      have hunmapped : unmapped cfg log = true := by
        unfold unmapped
        rw [hheader]
      refine ⟨fun hvalid => ?_, fun _ => hunmapped⟩
      unfold parse at hout
      rw [hheader] at hout
      cases hout
      cases hvalid
    | some h =>
      have hready : Ready cfg h {} :=
        ⟨List.length_pos_iff.mpr (header_labels hheader).1.1, fun hup => by cases hup⟩
      obtain ⟨slot, hpending, -, hvalid, hready'⟩ := (parse_spec hheader hready).of_ok hout
      refine ⟨fun _ => ?_, fun hinvalid => by rw [hvalid] at hinvalid; cases hinvalid⟩
      rw [hvalid, if_pos rfl] at hstep
      have hslots : slots cfg h = slot :: slotsLeft cfg h out := by
        rw [← hpending, pending_eq rfl]
        rfl
      have hlength := length_slots_le hheader
      rw [hslots, List.length_cons] at hlength
      have hexpand : processBinlogStep1 cfg (.text (some log)) =
          (do let rest ← expand cfg log (rounds cfg) out; return [] ++ rest) := by
        rw [hstep]
        cases expand cfg log (rounds cfg) out <;> rfl
      exact .entry hheader hready' (by omega) hexpand rfl

theorem working_entry {log : Json} {out : LogEntry} {n : Nat} {current : List Line}
    {part : List LogEntry} (h : Working cfg (.entry log out n) current part) :
    (out.moreEntires = true → ∀ next, parse cfg out log = .ok next →
      Working cfg (.entry log next (n + out.pushed.length)) current (part ++ out.pushed)) ∧
    (out.moreEntires = false →
      Working cfg (.count (n + out.pushed.length)) current (part ++ out.pushed)) := by
  cases h with
  | @entry _ _ h part rounds _ hheader hready hlength hstep hcount =>
    have hpushed : (part ++ out.pushed).length = n + out.pushed.length := by
      rw [List.length_append, hcount]
    constructor
    · intro hmore next hnext
      obtain ⟨slot, hpending, -, -, hready'⟩ := (parse_spec hheader hready).of_ok hnext
      have hleft : slotsLeft cfg h out = slot :: slotsLeft cfg h next := by
        rw [← hpending, slotsLeft, if_pos hmore]
      rw [hleft, List.length_cons] at hlength
      cases rounds with
      | zero => omega
      | succ rounds =>
        have hexpand : processBinlogStep1 cfg (.text (some log)) =
            (do let rest ← expand cfg log rounds next; return (part ++ out.pushed) ++ rest) := by
          rw [hstep]
          simp only [expand, hmore, if_true, hnext, bind, Except.bind]
          cases expand cfg log rounds next with
          | error f => rfl
          | ok rest => simp [pure, Except.pure]
        exact .entry hheader hready' (by omega) hexpand hpushed
    · intro hmore
      have hdone : processBinlogStep1 cfg (.text (some log)) = .ok (part ++ out.pushed) := by
        rw [hstep]
        cases rounds with
        | zero => rfl
        | succ rounds =>
          simp only [expand, hmore, Bool.false_eq_true, if_false, bind, Except.bind]
          rfl
      exact .count hdone hpushed

theorem advance_holds {capacity : Option Nat} {unused : List String} (h : Holds cfg w lines left) :
    Ensures (w.advance cfg capacity unused) (fun r => Holds cfg r.1 lines left) Stops := by
  have hsame := h
  obtain ⟨parsed, current, part, hlines, hcounts, hunified, hparsed, hworking⟩ := h
  obtain ⟨binlog, stage, unified, counts⟩ := w
  unfold Worker.advance
  dsimp only at hlines hcounts hunified hworking ⊢
  cases stage with
  | idle =>
    cases binlog with
    | nil => exact hsame
    | cons line rest =>
      cases hworking
      exact ⟨parsed, [line], [], hlines, hcounts, hunified, hparsed, .line⟩
  | line line =>
    cases hworking
    cases line with
    | noMessage => exact ⟨parsed, [.noMessage], [], hlines, hcounts, hunified, hparsed, .count rfl rfl⟩
    | text log =>
      cases log with
      | none => trivial
      | some log =>
        dsimp only
        cases hout : parse cfg {} log with
        | error f => trivial
        | ok out =>
          obtain ⟨hentry, hnone⟩ := working_parsed hout
          dsimp only [bind, Except.bind]
          cases hvalid : out.valid with
          | true =>
            exact ⟨parsed, _, [], hlines, hcounts, hunified, hparsed, hentry hvalid⟩
          | false =>
            cases tableName cfg.build log with
            | error f => trivial
            | ok table =>
              exact ⟨parsed, _, [], hlines, hcounts, hunified, hparsed, .finding (hnone hvalid)⟩
  | finding table =>
    cases hworking with
    | finding hunmapped =>
      dsimp only
      split
      · exact ⟨parsed, _, [], hlines, hcounts, hunified, hparsed,
            .count (step1_unused (header_of_unmapped hunmapped)) rfl⟩
      · exact ⟨parsed, _, [], hlines, hcounts, hunified, hparsed, .missing hunmapped⟩
  | missing table =>
    cases hworking with
    | missing hunmapped =>
      exact ⟨parsed, _, [], hlines, hcounts, hunified, hparsed, .inserting hunmapped⟩
  | inserting table =>
    cases hworking with
    | inserting hunmapped =>
      exact ⟨parsed, _, [], hlines, hcounts, hunified, hparsed,
          .count (step1_unused (header_of_unmapped hunmapped)) rfl⟩
  | entry log out n =>
    obtain ⟨hmoreEntry, hlast⟩ := working_entry hworking
    have hpush : unified ++ out.pushed = left ++ (parsed.flatMap Prod.snd ++ (part ++ out.pushed)) := by
      rw [hunified]
      simp
    dsimp only
    split
    · exact hsame
    · split
      · rename_i hmore
        cases hnext : parse cfg out log with
        | error f => trivial
        | ok next =>
          exact ⟨parsed, current, _, hlines, hcounts, hpush, hparsed, hmoreEntry hmore next hnext⟩
      · rename_i hmore
        exact ⟨parsed, current, _, hlines, hcounts, hpush, hparsed, hlast (by simpa using hmore)⟩
  | count n =>
    dsimp only
    split
    · cases hworking with
      | @count line _ _ hes hlength =>
        refine ⟨parsed ++ [(line, part)], [], [], ?_, ?_, ?_, ?_, .idle⟩
        · simpa using hlines
        · simp [hcounts, hlength]
        · simpa using hunified
        · intro p hp
          rcases List.mem_append.mp hp with hin | hin
          · exact hparsed p hin
          · rw [List.mem_singleton.mp hin]
            exact hes
    · exact hsame

theorem holds_dispatch (h : Holds cfg w lines left) (line : Line) :
    Holds cfg { w with binlog := w.binlog ++ [line] } (lines ++ [line]) left := by
  obtain ⟨parsed, current, part, hlines, hrest⟩ := h
  exact ⟨parsed, current, part, by simp [hlines], hrest⟩

/-- The first count in the queue is that of the thread's first line, whose entries come first. -/
theorem holds_count (h : Holds cfg w lines []) {count : Nat} {counts : List Nat}
    (hcounts : w.counts = count :: counts) :
    ∃ line rest es, lines = line :: rest ∧ processBinlogStep1 cfg line = .ok es ∧
      es.length = count ∧ Holds cfg { w with counts := counts } rest es := by
  obtain ⟨parsed, current, part, hlines, hcount, hunified, hparsed, hworking⟩ := h
  cases parsed with
  | nil =>
    rw [hcount] at hcounts
    cases hcounts
  | cons p parsed =>
    rw [hcount] at hcounts
    obtain ⟨hfirst, hrest⟩ := List.cons.inj hcounts
    refine ⟨p.1, _, p.2, hlines, hparsed p List.mem_cons_self, hfirst, ?_⟩
    refine ⟨parsed, current, part, rfl, hrest.symm, ?_, fun q hq => ?_, hworking⟩
    · rw [hunified]
      simp
    · exact hparsed q (List.mem_cons_of_mem _ hq)

theorem holds_take {entry : LogEntry} (h : Holds cfg w lines (entry :: left)) :
    ∃ rest, w.unified = entry :: rest ∧ Holds cfg { w with unified := rest } lines left := by
  obtain ⟨parsed, current, part, hlines, hcounts, hunified, hparsed, hworking⟩ := h
  exact ⟨_, hunified, parsed, current, part, hlines, hcounts, rfl, hparsed, hworking⟩

theorem expand_pushed {log : Json} {fuel : Nat} {out : LogEntry} {es : List LogEntry}
    (h : expand cfg log fuel out = .ok es) : ∃ rest, es = out.pushed ++ rest := by
  cases fuel with
  | zero =>
    cases h
    exact ⟨[], (List.append_nil _).symm⟩
  | succ fuel =>
    unfold expand at h
    split at h
    · obtain ⟨next, -, h⟩ := bind_eq_ok h
      obtain ⟨rest, -, h⟩ := bind_eq_ok h
      cases h
      exact ⟨rest, rfl⟩
    · cases h
      exact ⟨[], (List.append_nil _).symm⟩

/-- What a thread has handed over of a line, and what it has in its hands, are entries of the line
unless an exception is to come. -/
theorem working_pushed {log : Json} {out : LogEntry} {n : Nat} {current : List Line}
    {part : List LogEntry} (h : Working cfg (.entry log out n) current part) :
    ∃ line, current = [line] ∧ ((∃ f, processBinlogStep1 cfg line = .error f) ∨
      ∃ rest, processBinlogStep1 cfg line = .ok (part ++ (out.pushed ++ rest))) := by
  cases h with
  | @entry _ _ h part rounds _ hheader hready hlength hstep hcount =>
    refine ⟨_, rfl, ?_⟩
    rw [hstep]
    cases hexpand : expand cfg log rounds out with
    | error f => exact .inl ⟨f, rfl⟩
    | ok es =>
      obtain ⟨rest, rfl⟩ := expand_pushed hexpand
      exact .inr ⟨rest, rfl⟩

def FitsQueue (cfg : ParserConfig) (capacity : Option Nat) (line : Line) : Prop :=
  ∀ es, processBinlogStep1 cfg line = .ok es → ∀ n ∈ capacity, es.length ≤ n

instance (cfg : ParserConfig) (capacity : Option Nat) (line : Line) :
    Decidable (FitsQueue cfg capacity line) :=
  inferInstanceAs (Decidable (∀ es, processBinlogStep1 cfg line = .ok es → ∀ n ∈ capacity, es.length ≤ n))

/-- The thread finds the queue empty that it takes from, or the one full that it gives to. -/
def Worker.waits (capacity : Option Nat) (w : Worker) : Bool :=
  match w.stage with
  | .idle => w.binlog.isEmpty
  | .entry _ out _ => !out.pushed.isEmpty && !decide (HasRoom capacity w.unified)
  | .count _ => !decide (HasRoom capacity w.counts)
  | _ => false

/-- A thread that waits with no counts in its queue has no lines, or cannot parse the first. -/
theorem holds_waits {capacity : Option Nat} (h : Holds cfg w lines []) (hwaits : w.waits capacity = true)
    (hcounts : w.counts = []) (hroom : HasRoom capacity ([] : List Nat))
    (hfits : ∀ line ∈ lines, FitsQueue cfg capacity line) :
    (lines = [] ∧ w.binlog = []) ∨
      ∃ line rest f, lines = line :: rest ∧ processBinlogStep1 cfg line = .error f := by
  obtain ⟨parsed, current, part, hlines, hcount, hunified, -, hworking⟩ := h
  have hparsed : parsed = [] := List.map_eq_nil_iff.mp (hcount.symm.trans hcounts)
  subst hparsed
  obtain ⟨binlog, stage, unified, counts⟩ := w
  unfold Worker.waits at hwaits
  dsimp only at hlines hunified hworking hwaits hcounts ⊢
  cases stage with
  | idle =>
    cases hworking
    have hnil : binlog = [] := List.isEmpty_iff.mp hwaits
    exact .inl ⟨hlines.trans hnil, hnil⟩
  | entry log out n =>
    obtain ⟨line, rfl, ⟨f, hf⟩ | ⟨rest, hes⟩⟩ := working_pushed hworking
    · exact .inr ⟨line, binlog, f, hlines, hf⟩
    · -- the queue holds entries of this line only, which are too few to fill it
      exfalso
      simp only [Bool.and_eq_true, Bool.not_eq_true', decide_eq_false_iff_not] at hwaits
      obtain ⟨hpushed, hfull⟩ := hwaits
      apply hfull
      intro n hn
      have hle := hfits line (by rw [hlines]; simp) _ hes n hn
      have hpos : 0 < out.pushed.length := by
        rw [List.length_pos_iff]
        intro hnil
        rw [hnil] at hpushed
        cases hpushed
      have hpart : unified = part := hunified
      rw [hpart]
      simp only [List.length_append] at hle
      omega
  | count n =>
    rw [hcounts] at hwaits
    simp only [Bool.not_eq_true', decide_eq_false_iff_not] at hwaits
    exact absurd hroom hwaits
  | line line => cases hwaits
  | finding table => cases hwaits
  | missing table => cases hwaits
  | inserting table => cases hwaits

end worker

/-! ### All threads -/

/-- The second step has handled the events of `done`, and has still to take the entries of `left`
from the event of `current`. -/
inductive Reading (cfg : Config) (start : Int) :
    Reader → Step2 → List Event → List Line → List LogEntry → Prop
  | waiting {done : List Event} : Reading cfg start .waiting (run cfg start done) done [] []
  | taking {done : List Event} {line : Line} {taken left : List LogEntry} :
      processBinlogStep1 cfg.parser line = .ok (taken ++ left) → taken ++ left ≠ [] →
      Reading cfg start (.taking left.length taken.getLast?)
        (takeEntries cfg (run cfg start done).counted taken) done [line] left

/-- The lines dealt out are those handled, the one in the hands of the second step, and those that
the threads have, each thread its share of them. -/
structure PipelineInv (cfg : Config) (numThreads : Nat) (start : Int) (s : Pipeline)
    (done : List Event) (current rest : List Line) (left : List LogEntry) : Prop where
  reading : Reading cfg start s.reader s.store done current left
  dealt : s.dealt = done.map Prod.fst ++ (current ++ rest)
  readerIdx : s.readerIdx = done.length % numThreads
  mainIdx : s.mainIdx = s.dealt.length % numThreads
  workers : ∀ i, i < numThreads → Holds cfg.parser (s.workers i)
    (share numThreads i (done.length + current.length) rest) (if i = s.readerIdx then left else [])

section threads
variable {cfg : Config} {numThreads : Nat} {capacity : Option Nat} {start : Int} {s : Pipeline}
  {done : List Event} {current rest : List Line} {left : List LogEntry}

theorem inv_consume (h : PipelineInv cfg numThreads start s done current rest left) (line : Line) :
    PipelineInv cfg numThreads start (s.consume line) done current rest left := by
  unfold Pipeline.consume
  split
  · exact ⟨h.reading, h.dealt, h.readerIdx, h.mainIdx, h.workers⟩
  · exact h

theorem inv_dispatch (h : PipelineInv cfg numThreads start s done current rest left) :
    ∃ more, PipelineInv cfg numThreads start (s.dispatch numThreads capacity) done current more
      left := by
  have hlength : s.dealt.length = done.length + current.length + rest.length := by
    rw [h.dealt]
    simp
    omega
  unfold Pipeline.dispatch
  split
  · exact ⟨_, h⟩
  · rename_i line _
    dsimp only
    split
    · refine ⟨rest ++ [line], h.reading, ?_, h.readerIdx, ?_, ?_⟩
      · show s.dealt ++ [line] = _
        rw [h.dealt]
        simp
      · show (s.mainIdx + 1) % numThreads = (s.dealt ++ [line]).length % numThreads
        rw [h.mainIdx, Nat.mod_add_mod, List.length_append, List.length_singleton]
      · intro i hi
        have hold := h.workers i hi
        rw [share_append, ← hlength]
        show Holds cfg.parser (if i = s.mainIdx then _ else s.workers i) _ _
        by_cases hturn : i = s.mainIdx
        · have hmod : s.dealt.length % numThreads = i := by rw [hturn, h.mainIdx]
          rw [if_pos hturn, share_cons_self hmod, ← hturn]
          exact holds_dispatch hold line
        · have hmod : s.dealt.length % numThreads ≠ i := fun heq => hturn (by rw [h.mainIdx, heq])
          rw [if_neg hturn, share_cons_of_ne hmod, share_nil, List.append_nil]
          exact hold
    · exact ⟨_, h⟩

theorem inv_work (h : PipelineInv cfg numThreads start s done current rest left) {idx : Nat}
    (hidx : idx < numThreads) :
    PipelineInv cfg numThreads start (s.work cfg.parser numThreads capacity idx) done current rest
      left := by
  have hstep := @advance_holds cfg.parser _ _ _ capacity s.unusedTables (h.workers idx hidx)
  unfold Pipeline.work
  cases hadvance : (s.workers idx).advance cfg.parser capacity s.unusedTables with
  | error f => exact ⟨h.reading, h.dealt, h.readerIdx, h.mainIdx, h.workers⟩
  | ok r =>
    refine ⟨h.reading, h.dealt, h.readerIdx, h.mainIdx, fun i hi => ?_⟩
    show Holds cfg.parser (if i = idx then r.1 else s.workers i) _ _
    by_cases hsame : i = idx
    · rw [if_pos hsame, hsame]
      exact hstep.of_ok hadvance
    · rw [if_neg hsame]
      exact h.workers i hi

/-- The lines left when the second step has taken a count from the queue whose turn it is. -/
theorem inv_count (hn : 0 < numThreads)
    (h : PipelineInv cfg numThreads start s done [] rest []) {count : Nat} {counts : List Nat}
    (hcounts : (s.workers s.readerIdx).counts = count :: counts) :
    ∃ line more es, rest = line :: more ∧ processBinlogStep1 cfg.parser line = .ok es ∧
      es.length = count ∧ ∀ i, i < numThreads →
        Holds cfg.parser (if i = s.readerIdx then { s.workers s.readerIdx with counts := counts }
          else s.workers i) (share numThreads i (done.length + 1) more)
          (if i = s.readerIdx then es else []) := by
  have hturn : s.readerIdx < numThreads := by
    rw [h.readerIdx]
    exact Nat.mod_lt _ hn
  have hhold := h.workers s.readerIdx hturn
  rw [if_pos rfl, List.length_nil, Nat.add_zero] at hhold
  obtain ⟨line, lines, es, hlines, hes, hlength, hkept⟩ := holds_count hhold hcounts
  cases rest with
  | nil => cases hlines
  | cons x more =>
    rw [h.readerIdx, share_turn] at hlines
    obtain ⟨rfl, rfl⟩ := List.cons.inj hlines
    refine ⟨x, more, es, rfl, hes, hlength, fun i hi => ?_⟩
    by_cases hsame : i = s.readerIdx
    · rw [if_pos hsame, if_pos hsame, hsame]
      rw [← h.readerIdx] at hkept
      exact hkept
    · have hne : done.length % numThreads ≠ i := fun heq => hsame (by rw [h.readerIdx, heq])
      have hother := h.workers i hi
      rw [if_neg hsame, List.length_nil, Nat.add_zero, share_cons_of_ne hne] at hother
      rw [if_neg hsame, if_neg hsame]
      exact hother

theorem run_of_empty {line : Line} (hes : processBinlogStep1 cfg.parser line = .ok [])
    (clock : Clock) : run cfg start (done ++ [(line, clock)]) = run cfg start done := by
  rw [run_append]
  unfold step
  split
  · rfl
  · rw [hes]
    rfl

theorem run_of_taken {line : Line} {taken : List LogEntry} {entry : LogEntry}
    (hes : processBinlogStep1 cfg.parser line = .ok taken) (hlast : taken.getLast? = some entry)
    (hok : (takeEntries cfg (run cfg start done).counted taken).fault = none) (clock : Clock) :
    run cfg start (done ++ [(line, clock)]) =
      finishEvent cfg clock entry (takeEntries cfg (run cfg start done).counted taken) := by
  have hpaced := run_paced cfg start done
  have hcounted : Paced cfg (run cfg start done).counted :=
    ⟨hpaced.mode, hpaced.length_le, hpaced.length_eq⟩
  have hfault : (run cfg start done).fault = none :=
    ((@takeEntries_paced cfg _ taken hcounted).2.2.2 hok).1
  rw [run_append]
  exact step_of_yields hfault ⟨hes, hlast⟩

theorem next_turn (n : Nat) : (n % numThreads + 1) % numThreads = (n + 1) % numThreads :=
  Nat.mod_add_mod n numThreads 1

/-- The second step waits for the count of an event, which is over at once when it is 0. -/
theorem inv_readCount (hn : 0 < numThreads) (clock : Clock)
    (h : PipelineInv cfg numThreads start s done [] rest []) (hreader : s.reader = .waiting)
    (hstore : s.store = run cfg start done) :
    ∃ done current rest left,
      PipelineInv cfg numThreads start (s.read cfg numThreads clock) done current rest left := by
  unfold Pipeline.read
  dsimp only
  rw [hreader]
  dsimp only
  cases hcounts : (s.workers s.readerIdx).counts with
  | nil => exact ⟨_, _, _, _, h⟩
  | cons count counts =>
    obtain ⟨line, more, es, hrest, hes, hlength, hkept⟩ := inv_count hn h hcounts
    have hdealt := h.dealt
    rw [hrest] at hdealt
    cases count with
    | zero =>
      have hnil : es = [] := List.length_eq_zero_iff.mp hlength
      rw [hnil] at hes hkept
      refine ⟨done ++ [(line, clock)], [], more, [], ?_, ?_, ?_, h.mainIdx, fun i hi => ?_⟩
      · show Reading cfg start s.reader s.store _ _ _
        rw [hstore, hreader, ← @run_of_empty cfg start done line hes clock]
        exact .waiting
      · show s.dealt = _
        rw [hdealt]
        simp
      · show (s.readerIdx + 1) % numThreads = _
        rw [h.readerIdx, next_turn]
        simp
      · have hhold := hkept i hi
        rw [ite_self] at hhold ⊢
        show Holds cfg.parser (if i = s.readerIdx then _ else s.workers i) _ _
        simpa using hhold
    | succ count =>
      refine ⟨done, [line], more, es, ?_, ?_, h.readerIdx, h.mainIdx, hkept⟩
      · have hne : es ≠ [] := by
          intro hnil
          rw [hnil] at hlength
          cases hlength
        have htaking := @Reading.taking cfg start done line [] es hes hne
        rw [hlength] at htaking
        show Reading cfg start _ s.store.counted _ _ _
        rw [hstore]
        exact htaking
      · show s.dealt = _
        rw [hdealt]
        rfl

/-- The second step takes an entry of an event, or has taken all of them. -/
theorem inv_readEntry {line : Line} {taken : List LogEntry} (hn : 0 < numThreads) (clock : Clock)
    (h : PipelineInv cfg numThreads start s done [line] rest left)
    (hreader : s.reader = .taking left.length taken.getLast?)
    (hstore : s.store = takeEntries cfg (run cfg start done).counted taken)
    (hok : s.store.fault = none) (hes : processBinlogStep1 cfg.parser line = .ok (taken ++ left))
    (hne : taken ++ left ≠ []) :
    ∃ done current rest left,
      PipelineInv cfg numThreads start (s.read cfg numThreads clock) done current rest left := by
  have hturn : s.readerIdx < numThreads := by
    rw [h.readerIdx]
    exact Nat.mod_lt _ hn
  unfold Pipeline.read
  dsimp only
  rw [hreader]
  cases left with
  | nil =>
    rw [List.append_nil] at hes hne
    cases hlast : taken.getLast? with
    | none => exact absurd (List.getLast?_eq_none_iff.mp hlast) hne
    | some entry =>
      refine ⟨done ++ [(line, clock)], [], rest, [], ?_, ?_, ?_, h.mainIdx, fun i hi => ?_⟩
      · show Reading cfg start .waiting (finishEvent cfg clock entry s.store) _ _ _
        rw [hstore] at hok
        rw [hstore, ← run_of_taken hes hlast hok clock]
        exact .waiting
      · show s.dealt = _
        rw [h.dealt]
        simp
      · show (s.readerIdx + 1) % numThreads = _
        rw [h.readerIdx, next_turn]
        simp
      · have hhold := h.workers i hi
        rw [ite_self] at hhold ⊢
        simpa using hhold
  | cons entry left =>
    have hhold := h.workers s.readerIdx hturn
    rw [if_pos rfl] at hhold
    obtain ⟨more, hunified, hkept⟩ := holds_take hhold
    dsimp only [List.length_cons]
    rw [hunified]
    refine ⟨done, [line], rest, left, ?_, h.dealt, h.readerIdx, h.mainIdx, fun i hi => ?_⟩
    · have hes' : processBinlogStep1 cfg.parser line = .ok ((taken ++ [entry]) ++ left) := by
        rw [hes]
        simp
      have htaking := @Reading.taking cfg start done line (taken ++ [entry]) left hes' (by simp)
      rw [List.getLast?_concat] at htaking
      unfold takeEntries at htaking
      rw [List.foldl_append] at htaking
      show Reading cfg start _ (takeEntry cfg s.store entry) _ _ _
      rw [hstore]
      exact htaking
    · show Holds cfg.parser (if i = s.readerIdx then _ else s.workers i) _
        (if i = s.readerIdx then left else [])
      by_cases hsame : i = s.readerIdx
      · rw [if_pos hsame, if_pos hsame, hsame]
        exact hkept
      · have hother := h.workers i hi
        rw [if_neg hsame] at hother
        rw [if_neg hsame, if_neg hsame]
        exact hother

theorem inv_read (hn : 0 < numThreads) (hok : s.store.fault = none) (clock : Clock)
    (h : PipelineInv cfg numThreads start s done current rest left) :
    ∃ done current rest left,
      PipelineInv cfg numThreads start (s.read cfg numThreads clock) done current rest left := by
  have hreading := h.reading
  generalize hstore : s.store = store at hreading
  generalize hreader : s.reader = reader at hreading
  cases hreading with
  | waiting => exact inv_readCount hn clock h hreader hstore
  | taking hes hne => exact inv_readEntry hn clock h hreader hstore hok hes hne

theorem inv_step (hn : 0 < numThreads) (a : Action)
    (h : ∃ done current rest left, PipelineInv cfg numThreads start s done current rest left) :
    ∃ done current rest left,
      PipelineInv cfg numThreads start (s.step cfg numThreads capacity a) done current rest left := by
  have hsame := h
  obtain ⟨done, current, rest, left, h⟩ := h
  unfold Pipeline.step
  split
  · exact hsame
  · rename_i hrunning
    cases a with
    | consume line => exact ⟨_, _, _, _, inv_consume h line⟩
    | dispatch =>
      obtain ⟨more, hmore⟩ := inv_dispatch h
      exact ⟨_, _, _, _, hmore⟩
    | work idx =>
      dsimp only
      split
      · rename_i hidx
        exact ⟨_, _, _, _, inv_work h hidx⟩
      · exact hsame
    | read clock =>
      have hok : s.store.fault = none := by
        simp only [Bool.or_eq_true, not_or] at hrunning
        simpa using hrunning.2
      exact inv_read hn hok clock h

theorem inv_run (hn : 0 < numThreads) (actions : List Action) :
    ∃ done current rest left, PipelineInv cfg numThreads start
      (Pipeline.run cfg numThreads capacity start actions) done current rest left := by
  have h0 : ∃ done current rest left,
      PipelineInv cfg numThreads start { store := { start := start } } done current rest left := by
    refine ⟨[], [], [], [], @Reading.waiting cfg start [], rfl, (Nat.zero_mod _).symm,
      (Nat.zero_mod _).symm, ?_⟩
    intro i _
    refine ⟨[], [], [], rfl, rfl, ?_, fun p hp => ?_, .idle⟩
    · rw [ite_self]
      rfl
    · cases hp
  unfold Pipeline.run
  generalize ({ store := { start := start } } : Pipeline) = s at h0 ⊢
  induction actions generalizing s with
  | nil => exact h0
  | cons a rest ih => exact ih _ (inv_step hn a h0)

end threads

/-! ### The order of the messages -/

def Reader.waits (w : Worker) : Reader → Bool
  | .waiting => w.counts.isEmpty
  | .taking left _ => left ≠ 0 && w.unified.isEmpty

/-- No thread can go on; the main thread may wait for the source. -/
def Pipeline.Waits (numThreads : Nat) (capacity : Option Nat) (s : Pipeline) : Prop :=
  (∀ line ∈ s.held, ¬HasRoom capacity (s.workers s.mainIdx).binlog) ∧
    (∀ i, i < numThreads → (s.workers i).waits capacity = true) ∧
      s.reader.waits (s.workers s.readerIdx) = true

instance (numThreads : Nat) (capacity : Option Nat) (s : Pipeline) :
    Decidable (s.Waits numThreads capacity) :=
  inferInstanceAs (Decidable ((∀ line ∈ s.held, ¬HasRoom capacity (s.workers s.mainIdx).binlog) ∧
    (∀ i, i < numThreads → (s.workers i).waits capacity = true) ∧
      s.reader.waits (s.workers s.readerIdx) = true))

section order
variable {cfg : Config} {numThreads : Nat} {capacity : Option Nat} {start start' : Int}
  {s : Pipeline} {done : List Event} {current rest : List Line} {left : List LogEntry}
  {events : List Event}

theorem emitted_of_error {line : Line} {f : Fault} (h : processBinlogStep1 cfg.parser line = .error f)
    (clock : Clock) (more : List Event) :
    (run cfg start (done ++ (line, clock) :: more)).emitted = (run cfg start done).emitted := by
  have hfault : (step cfg (run cfg start done) (line, clock)).fault ≠ none ∧
      (step cfg (run cfg start done) (line, clock)).emitted = (run cfg start done).emitted := by
    unfold step
    split
    · rename_i hsome
      exact ⟨Option.isSome_iff_ne_none.mp hsome, rfl⟩
    · rw [h]
      exact ⟨by simp, rfl⟩
  have hstay : ∀ (l : List Event) (st : Step2), st.fault ≠ none → l.foldl (step cfg) st = st := by
    intro l
    induction l with
    | nil => exact fun st _ => rfl
    | cons event rest ih =>
      intro st hst
      rw [List.foldl_cons, step_of_fault hst]
      exact ih st hst
  rw [run_append_list, List.foldl_cons, hstay more _ hfault.1]
  exact hfault.2

theorem handled_of_waits (hn : 0 < numThreads) (hroom : ∀ n ∈ capacity, 0 < n)
    (hfits : ∀ line ∈ s.input, FitsQueue cfg.parser capacity line)
    (h : PipelineInv cfg numThreads start s done current rest left)
    (hwaits : s.Waits numThreads capacity) :
    ∃ events, events.map Prod.fst = s.input ∧ s.store.emitted = (run cfg start events).emitted := by
  have hturn : s.readerIdx < numThreads := by
    rw [h.readerIdx]
    exact Nat.mod_lt _ hn
  have hqueue := hwaits.2.2
  have hreading := h.reading
  have hhold := h.workers s.readerIdx hturn
  have hdealt := h.dealt
  rw [if_pos rfl] at hhold
  generalize hstore : s.store = store at hreading ⊢
  generalize s.reader = reader at hreading hqueue
  cases hreading with
  | waiting =>
    rw [List.length_nil, Nat.add_zero] at hhold
    have hsub : ∀ line ∈ share numThreads s.readerIdx done.length rest, line ∈ s.input := by
      intro line hline
      unfold Pipeline.input
      rw [hdealt]
      simp [mem_of_mem_share hline]
    have hcounts : (s.workers s.readerIdx).counts = [] := List.isEmpty_iff.mp hqueue
    rcases holds_waits hhold (hwaits.2.1 s.readerIdx hturn) hcounts hroom
      (fun line hline => hfits line (hsub line hline)) with ⟨hnil, hbinlog⟩ | ⟨line, later, f, hlines, hf⟩
    · cases rest with
      | nil =>
        -- it is the turn of this thread, whose queue has room for what is held
        have hheld : s.held = none := by
          have hmain : s.mainIdx = s.readerIdx := by
            rw [h.mainIdx, h.readerIdx, hdealt]
            simp
          cases hline : s.held with
          | none => rfl
          | some line =>
            have hfull := hwaits.1 line hline
            rw [hmain, hbinlog] at hfull
            exact absurd hroom hfull
        refine ⟨done, ?_, rfl⟩
        unfold Pipeline.input
        rw [hheld, hdealt]
        simp
      | cons line more =>
        rw [h.readerIdx, share_turn] at hnil
        cases hnil
    · cases rest with
      | nil => cases hlines
      | cons x more =>
        rw [h.readerIdx, share_turn] at hlines
        obtain ⟨rfl, -⟩ := List.cons.inj hlines
        refine ⟨done ++ (x, ⟨0, 0⟩) :: (more ++ s.held.toList).map fun line => (line, ⟨0, 0⟩), ?_,
          (emitted_of_error hf _ _).symm⟩
        unfold Pipeline.input
        rw [hdealt]
        simp [Function.comp_def]
  | taking hes hne =>
    cases left with
    | nil => cases hqueue
    | cons entry left =>
      obtain ⟨more, hunified, -⟩ := holds_take hhold
      have hnil : (s.workers s.readerIdx).unified = [] := List.isEmpty_iff.mp (by
        unfold Reader.waits at hqueue
        simpa using hqueue)
      rw [hnil] at hunified
      cases hunified

/-- The messages written while an event is being handled are a part of those written after it. -/
theorem taken_initial {line : Line} {taken left : List LogEntry}
    (hes : processBinlogStep1 cfg.parser line = .ok (taken ++ left)) (hne : taken ++ left ≠ [])
    (clock : Clock) :
    (takeEntries cfg (run cfg start done).counted taken).emitted <+:
      (run cfg start (done ++ [(line, clock)])).emitted := by
  obtain ⟨entry, hlast⟩ := Option.isSome_iff_exists.mp (List.getLast?_isSome.mpr hne)
  have hsplit : takeEntries cfg (run cfg start done).counted (taken ++ left) =
      takeEntries cfg (takeEntries cfg (run cfg start done).counted taken) left := by
    unfold takeEntries
    rw [List.foldl_append]
  cases hfault : (run cfg start done).fault with
  | none =>
    rw [run_append, step_of_yields hfault ⟨hes, hlast⟩, hsplit]
    obtain ⟨new, hnew, -⟩ :=
      @takeEntries_emits cfg (takeEntries cfg (run cfg start done).counted taken) left
    rcases @finishEvent_emits cfg (takeEntries cfg (takeEntries cfg (run cfg start done).counted taken)
      left) entry clock with hsame | ⟨-, offset, hend⟩
    · rw [hsame, hnew]
      exact List.prefix_append _ _
    · rw [hend, hnew, List.append_assoc]
      exact List.prefix_append _ _
  | some f =>
    have hstop : ∀ es : List LogEntry, takeEntries cfg (run cfg start done).counted es =
        (run cfg start done).counted := by
      intro es
      induction es with
      | nil => rfl
      | cons e more ih =>
        have hfirst : takeEntry cfg (run cfg start done).counted e = (run cfg start done).counted := by
          have hsome : (run cfg start done).counted.fault.isSome = true := by
            show (run cfg start done).fault.isSome = true
            rw [hfault]
            rfl
          unfold takeEntry
          rw [if_pos hsome]
        show takeEntries cfg (takeEntry cfg _ e) more = _
        rw [hfirst]
        exact ih
    rw [hstop, run_append, step_of_fault (by rw [hfault]; simp)]
    exact List.prefix_rfl

/-! ### The set of unused tables -/

/-- A thread that is about to search `unused_tables_` finds no other one in `insert`, and a thread
that is about to insert finds none in the set. -/
def entersAlone (cfg : ParserConfig) (numThreads : Nat) (s : Pipeline) : Action → Bool
  | .work idx =>
    (List.range numThreads).all fun j => j = idx ||
      match (s.workers idx).stage with
      | .line (.text (some log)) => !unmapped cfg log || !(s.workers j).stage.inserts
      | .missing _ => !(s.workers j).stage.inSet
      | _ => true
  | _ => true

theorem advance_enters {w : Worker} {unused : List String} {r : Worker × List String}
    (h : w.advance cfg.parser capacity unused = .ok r) (hset : r.1.stage.inSet = true) :
    (∃ table, w.stage = .missing table) ∨ r.1.stage.inserts = false ∧
      ∃ log, w.stage = .line (.text (some log)) ∧ unmapped cfg.parser log = true := by
  obtain ⟨binlog, stage, unified, counts⟩ := w
  unfold Worker.advance at h
  dsimp only at h ⊢
  cases stage with
  | idle => cases binlog <;> cases h <;> cases hset
  | line line =>
    cases line with
    | noMessage =>
      cases h
      cases hset
    | text log =>
      cases log with
      | none => cases h
      | some log =>
        obtain ⟨out, hout, h⟩ := bind_eq_ok h
        split at h
        · cases h
          cases hset
        · rename_i hvalid
          obtain ⟨table, -, h⟩ := bind_eq_ok h
          cases h
          exact .inr ⟨rfl, log, rfl, (working_parsed hout).2 (by simpa using hvalid)⟩
  | finding table =>
    cases h
    dsimp only at hset
    split at hset <;> cases hset
  | missing table => exact .inl ⟨table, rfl⟩
  | inserting table =>
    cases h
    cases hset
  | entry log out n =>
    dsimp only at h
    split at h
    · cases h
      cases hset
    · split at h
      · obtain ⟨next, -, h⟩ := bind_eq_ok h
        cases h
        cases hset
      · cases h
        cases hset
  | count n =>
    dsimp only at h
    split at h <;> cases h <;> cases hset

theorem work_raced {idx : Nat} (h : s.raced = false)
    (halone : entersAlone cfg.parser numThreads s (.work idx) = true) :
    (s.work cfg.parser numThreads capacity idx).raced = false := by
  unfold Pipeline.work
  cases hadvance : (s.workers idx).advance cfg.parser capacity s.unusedTables with
  | error f => exact h
  | ok r =>
    dsimp only
    rw [List.any_eq_false]
    intro j hj
    have hother := List.all_eq_true.mp halone j hj
    by_cases hsame : j = idx
    · simp [hsame]
    · cases hset : r.1.stage.inSet with
      | false => simp [Stage.races, hset]
      | true =>
        rcases advance_enters hadvance hset with ⟨table, hstage⟩ | ⟨hsearch, log, hstage, hunmapped⟩
        · have hout : (s.workers j).stage.inSet = false := by simpa [hsame, hstage] using hother
          simp [Stage.races, hout]
        · have hout : (s.workers j).stage.inserts = false := by
            simpa [hsame, hstage, hunmapped] using hother
          simp [Stage.races, hsearch, hout]

theorem step_raced {a : Action} (h : s.raced = false)
    (halone : entersAlone cfg.parser numThreads s a = true) :
    (s.step cfg numThreads capacity a).raced = false := by
  unfold Pipeline.step
  split
  · exact h
  · cases a with
    | consume line =>
      dsimp only
      unfold Pipeline.consume
      split <;> exact h
    | dispatch =>
      dsimp only
      unfold Pipeline.dispatch
      split
      · exact h
      · dsimp only
        split <;> exact h
    | work idx =>
      dsimp only
      split
      · exact work_raced h halone
      · exact h
    | read clock =>
      dsimp only
      unfold Pipeline.read
      dsimp only
      split
      · split <;> exact h
      · split <;> exact h
      · exact h
      · exact h

theorem run_raced {actions : List Action} (halone : ∀ before a after, actions = before ++ a :: after →
      entersAlone cfg.parser numThreads (Pipeline.run cfg numThreads capacity start before) a = true) :
    (Pipeline.run cfg numThreads capacity start actions).raced = false := by
  induction actions using List.reverseRecOn with
  | nil => rfl
  | append_singleton before a ih =>
    have hbefore := ih fun first x last hsplit => halone first x (last ++ [a]) (by simp [hsplit])
    have hstep := @step_raced cfg numThreads capacity _ a hbefore (halone before a [] rfl)
    unfold Pipeline.run at hstep ⊢
    rw [List.foldl_append]
    exact hstep

theorem entersAlone_of_mapped (hn : 0 < numThreads) {actions : List Action}
    (hmapped : ∀ log, Line.text (some log) ∈
      (Pipeline.run cfg numThreads capacity start actions).dealt → unmapped cfg.parser log = false)
    (a : Action) :
    entersAlone cfg.parser numThreads (Pipeline.run cfg numThreads capacity start actions) a = true := by
  obtain ⟨done, current, rest, left, h⟩ := @inv_run cfg numThreads capacity start hn actions
  generalize Pipeline.run cfg numThreads capacity start actions = s at h hmapped ⊢
  have hout : ∀ j, j < numThreads → (s.workers j).stage.inSet = false := by
    intro j hj
    obtain ⟨parsed, lines, part, hlines, -, -, -, hworking⟩ := h.workers j hj
    have hdealt : ∀ line ∈ lines, line ∈ s.dealt := by
      intro line hline
      have hshare : line ∈ share numThreads j (done.length + current.length) rest := by
        rw [hlines]
        simp [hline]
      rw [h.dealt]
      simp [mem_of_mem_share hshare]
    cases hstage : (s.workers j).stage with
    | finding table =>
      rw [hstage] at hworking
      cases hworking with
      | @finding log _ hunmapped =>
        rw [hmapped log (hdealt _ (by simp))] at hunmapped
        cases hunmapped
    | inserting table =>
      rw [hstage] at hworking
      cases hworking with
      | @inserting log _ hunmapped =>
        rw [hmapped log (hdealt _ (by simp))] at hunmapped
        cases hunmapped
    | idle => rfl
    | line line => rfl
    | missing table => rfl
    | entry log out n => rfl
    | count n => rfl
  cases a with
  | work idx =>
    unfold entersAlone
    rw [List.all_eq_true]
    intro j hj
    have hnot := hout j (List.mem_range.mp hj)
    have hinserts : (s.workers j).stage.inserts = false := by
      cases hstage : (s.workers j).stage <;> simp [hstage, Stage.inSet, Stage.inserts] at hnot ⊢
    simp only [hnot, hinserts, Bool.not_false, Bool.or_true]
    split <;> simp
  | consume line => rfl
  | dispatch => rfl
  | read clock => rfl

end order

def edgeUpdate : Line :=
  .text (some (.object [
    ("before", .object [("src", .integer 1), ("dst", .integer 1)]),
    ("after", .object [("src", .integer 1), ("dst", .integer 2)]), ("op", .string "u"),
    ("source", .object [("table", .string "knows"), ("snapshot", .string "false"),
      ("txId", .integer 9)])]))

/-- A person, a row of a table that is not mapped, a timeout and an update of an edge. -/
def fourLines : List Line :=
  [rowChange "person" "c" "false" (some 7) (personRow 1),
    rowChange "orders" "c" "false" (some 8) (personRow 1), .noMessage, edgeUpdate]

/-- The four lines for two threads of which the second is faster, and the second step after them. -/
def secondFirst : List Action :=
  fourLines.flatMap (fun line => [.consume line, .dispatch]) ++
    (List.replicate 11 (.work 1) ++ List.replicate 7 (.work 0)) ++
      List.replicate 9 (.read ⟨0, 0⟩)

example : (Pipeline.run (personConfig {}) 2 (some 2) 0 secondFirst).Waits 2 (some 2) ∧
    (Pipeline.run (personConfig {}) 2 (some 2) 0 secondFirst).store.emitted.length = 3 := by
  decide +kernel

/-- One thread with queues for one element, and an update of an edge. -/
def updateOnly : List Action :=
  [.consume edgeUpdate, .dispatch] ++ List.replicate 4 (.work 0)

def ordersTwice : List Action :=
  List.flatten (List.replicate 2
    [.consume (rowChange "orders" "c" "false" (some 8) (personRow 1)), .dispatch]) ++
      (List.replicate 4 (.work 0) ++ List.replicate 2 (.work 1))

end Gart.Converter
