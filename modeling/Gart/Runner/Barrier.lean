import Mathlib.Data.List.Perm.Basic
import Gart.Lib.Steps
import Gart.Store.Record

/-!
# The worker threads of the runner

The main thread queues the messages and waits, before an epoch ends and before a
deletion or an update, until it has found the queue empty and then the flag of
every worker down. A worker raises its flag only after it has taken a message.
-/

namespace Gart.Runner
open Gart.Steps
open Gart.Converter (toUInt64)

/-- A message: its text up to the first delimiter, its epoch, and the fields after it. -/
structure Log where
  op : String
  curEpoch : Int
  cmd : List String
  deriving DecidableEq

/-- Where a worker is in `process_log_thread`. -/
inductive ThreadAt
  | tryPop
  /-- `try_pop` has failed, the flag is read next -/
  | failed
  | lower
  /-- `try_pop` has returned a message, the flag is read next -/
  | popped (log : Log)
  | raise (log : Log)
  | process (log : Log)
  deriving DecidableEq

/-- A worker and its entry of `is_working_`. -/
structure Thread where
  pc : ThreadAt := .tryPop
  isWorking : Bool := true
  deriving DecidableEq

/-- What the main thread does after it has waited. -/
inductive Purpose
  | endEpoch
  /-- the first insertion after a record that is applied alone -/
  | parallel
  | alone
  deriving DecidableEq

/-- Where the main thread is in `apply_log_to_store_`. -/
inductive MainAt
  | idle
  | dispatch (log : Log)
  /-- `while (!logs_.empty())` -/
  | queue (purpose : Purpose) (log : Log)
  /-- reads `is_working_[idx]` next -/
  | flag (purpose : Purpose) (log : Log) (idx : Nat)
  | passed (purpose : Purpose) (log : Log)
  deriving DecidableEq

/-- The threads; `enqueued` and `processed` record the messages pushed and handled so far. -/
structure State where
  input : List Log
  logs : List Log := []
  threads : List Thread
  main : MainAt := .idle
  parallelState : Bool := true
  latestEpoch : Nat := 0
  published : List Nat := []
  enqueued : List Log := []
  processed : List Log := []
  deriving DecidableEq

inductive Actor
  | main
  | worker (idx : Nat)
  deriving DecidableEq

def State.init (numThreads : Nat) (input : List Log) : State :=
  { input := input, threads := List.replicate numThreads {} }

def State.push (s : State) (log : Log) : State :=
  { s with logs := s.logs ++ [log], enqueued := s.enqueued ++ [log], main := .idle }

/-- The part of `apply_log_to_store_` after the check of the epoch. -/
def State.dispatch (s : State) (log : Log) : State :=
  if log.op = "add_vertex" ∨ log.op = "add_edge" then
    if s.parallelState then s.push log else { s with main := .queue .parallel log }
  else if log.op = "delete_vertex" ∨ log.op = "delete_edge" ∨ log.op = "update_vertex" then
    { s with parallelState := false, main := .queue .alone log }
  else
    -- the end of the bulk load, and what is not supported
    { s with main := .idle }

/-- `apply_log_to_store_` up to its next access to a shared variable (`bench_runner.cc:566-743`) -/
def State.stepMain (s : State) : State :=
  match s.main with
  | .idle =>
    match s.input with
    | [] => s
    | log :: rest =>
      { s with
        input := rest
        main := if s.latestEpoch < toUInt64 log.curEpoch then .queue .endEpoch log else .dispatch log }
  | .dispatch log => s.dispatch log
  | .queue purpose log => if s.logs = [] then { s with main := .flag purpose log 0 } else s
  | .flag purpose log idx =>
    match s.threads[idx]? with
    | some t => if t.isWorking then s else { s with main := .flag purpose log (idx + 1) }
    | none => { s with main := .passed purpose log }
  | .passed .endEpoch log =>
    { s with
      published := s.published ++ [s.latestEpoch], latestEpoch := toUInt64 log.curEpoch
      main := .dispatch log }
  | .passed .parallel log => { s.push log with parallelState := true }
  | .passed .alone log => s.push log

def State.setThread (s : State) (idx : Nat) (t : Thread) : State :=
  { s with threads := s.threads.set idx t }

/-- `process_log_thread` up to its next access to a shared variable (`bench_runner.cc:521-563`) -/
def State.stepThread (s : State) (idx : Nat) (t : Thread) : State :=
  match t.pc with
  | .tryPop =>
    match s.logs with
    | [] => s.setThread idx { t with pc := .failed }
    | log :: rest => { s.setThread idx { t with pc := .popped log } with logs := rest }
  | .failed => s.setThread idx { t with pc := if t.isWorking then .lower else .tryPop }
  | .lower => s.setThread idx { pc := .tryPop, isWorking := false }
  | .popped log => s.setThread idx { t with pc := if t.isWorking then .process log else .raise log }
  | .raise log => s.setThread idx { pc := .process log, isWorking := true }
  | .process log =>
    { s.setThread idx { t with pc := .tryPop } with processed := s.processed ++ [log] }

def State.step (s : State) (a : Actor) : State :=
  match a with
  | .main => s.stepMain
  | .worker idx =>
    match s.threads[idx]? with
    | some t => s.stepThread idx t
    | none => s

def run (numThreads : Nat) (input : List Log) (schedule : List Actor) : State :=
  schedule.foldl State.step (.init numThreads input)

/-! ### No message is lost -/

def ThreadAt.held : ThreadAt → List Log
  | .popped log | .raise log | .process log => [log]
  | .tryPop | .failed | .lower => []

def Raised (t : Thread) : Prop :=
  match t.pc with
  | .process _ => t.isWorking = true
  | _ => True

def State.inHand (s : State) : List Log := s.threads.flatMap fun t => t.pc.held

/-- Every message pushed is handled, in the hands of a worker or in the queue. -/
def Conserved (s : State) : Prop :=
  ∀ log, s.enqueued.count log = s.processed.count log + s.inHand.count log + s.logs.count log

section conserved
variable {s : State} {idx : Nat} {t : Thread}

theorem inHand_setThread (h : s.threads[idx]? = some t) (t' : Thread) (log : Log) :
    (s.setThread idx t').inHand.count log + t.pc.held.count log =
      s.inHand.count log + t'.pc.held.count log := by
  obtain ⟨hidx, hget⟩ := List.getElem?_eq_some_iff.mp h
  have hsplit : s.threads = s.threads.take idx ++ t :: s.threads.drop (idx + 1) := by
    rw [← hget, List.getElem_cons_drop, List.take_append_drop]
  have hset : s.threads.set idx t' = s.threads.take idx ++ t' :: s.threads.drop (idx + 1) :=
    List.set_eq_take_append_cons_drop.trans (if_pos hidx)
  unfold State.inHand
  show ((s.threads.set idx t').flatMap _).count log + _ = _
  rw [hset]
  conv_rhs => rw [hsplit]
  simp only [List.flatMap_append, List.flatMap_cons, List.count_append]
  omega

theorem conserved_push (h : Conserved s) (log : Log) : Conserved (s.push log) := by
  intro x
  have hx := h x
  show (s.enqueued ++ [log]).count x = s.processed.count x + s.inHand.count x + (s.logs ++ [log]).count x
  rw [List.count_append, List.count_append, hx]
  omega

theorem conserved_stepMain (h : Conserved s) : Conserved s.stepMain := by
  unfold State.stepMain
  split
  · split <;> exact h
  · unfold State.dispatch
    split
    · split
      · exact conserved_push h _
      · exact h
    · split <;> exact h
  · split <;> exact h
  · split
    · split <;> exact h
    · exact h
  · exact h
  · exact conserved_push h _
  · exact conserved_push h _

theorem stepThread_cases (s : State) (idx : Nat) (t : Thread) :
    (∃ t' : Thread, s.stepThread idx t = s.setThread idx t' ∧ Raised t' ∧ t'.pc.held = t.pc.held) ∨
    (∃ (t' : Thread) (log : Log) (rest : List Log), s.logs = log :: rest ∧
      s.stepThread idx t = { s.setThread idx t' with logs := rest } ∧ Raised t' ∧
      t.pc.held = [] ∧ t'.pc.held = [log]) ∨
    (∃ (t' : Thread) (log : Log),
      s.stepThread idx t = { s.setThread idx t' with processed := s.processed ++ [log] } ∧ Raised t' ∧
      t.pc.held = [log] ∧ t'.pc.held = []) := by
  unfold State.stepThread
  cases hpc : t.pc with
  | tryPop =>
    cases hlogs : s.logs with
    | nil => exact .inl ⟨_, rfl, trivial, rfl⟩
    | cons log rest => exact .inr (.inl ⟨_, log, rest, rfl, rfl, trivial, rfl, rfl⟩)
  | failed => cases hworking : t.isWorking <;> exact .inl ⟨_, rfl, trivial, rfl⟩
  | lower => exact .inl ⟨_, rfl, trivial, rfl⟩
  | popped log =>
    cases hworking : t.isWorking with
    | false => exact .inl ⟨_, rfl, trivial, rfl⟩
    | true => exact .inl ⟨_, rfl, rfl, rfl⟩
  | raise log => exact .inl ⟨_, rfl, rfl, rfl⟩
  | process log => exact .inr (.inr ⟨_, log, rfl, trivial, rfl, rfl⟩)

theorem conserved_stepThread (h : Conserved s) (ht : s.threads[idx]? = some t) :
    Conserved (s.stepThread idx t) := by
  intro x
  have hx := h x
  rcases stepThread_cases s idx t with ⟨t', hstep, -, hheld⟩ |
    ⟨t', log, rest, hlogs, hstep, -, hheld, hheld'⟩ | ⟨t', log, hstep, -, hheld, hheld'⟩
  · have hset := inHand_setThread ht t' x
    rw [hheld] at hset
    rw [hstep]
    show s.enqueued.count x = s.processed.count x + _ + s.logs.count x
    omega
  · have hset := inHand_setThread ht t' x
    rw [hheld, hheld', List.count_nil] at hset
    rw [hlogs, ← List.singleton_append, List.count_append] at hx
    rw [hstep]
    show s.enqueued.count x = s.processed.count x + (s.setThread idx t').inHand.count x + rest.count x
    omega
  · have hset := inHand_setThread ht t' x
    rw [hheld, hheld', List.count_nil] at hset
    rw [hstep]
    show s.enqueued.count x =
      (s.processed ++ [log]).count x + (s.setThread idx t').inHand.count x + s.logs.count x
    rw [List.count_append]
    omega

theorem conserved_step (h : Conserved s) (a : Actor) : Conserved (s.step a) := by
  unfold State.step
  split
  · exact conserved_stepMain h
  · split
    · rename_i ht
      exact conserved_stepThread h ht
    · exact h

end conserved

/-! ### What the main thread has seen when it has waited -/

/-- The worker has taken a message and has not raised its flag for it. -/
def Thread.unraised (t : Thread) : Bool :=
  match t.pc with
  | .popped _ | .raise _ => !t.isWorking
  | _ => false

/-- The flag that the main thread reads next is one that its worker has yet to raise. -/
def State.readsUnraised (s : State) : Bool :=
  match s.main with
  | .flag _ _ idx => s.threads[idx]?.any Thread.unraised
  | _ => false

def Shown (s : State) (a : Actor) : Prop := a = .main → s.readsUnraised = false

instance (s : State) (a : Actor) : Decidable (Shown s a) :=
  inferInstanceAs (Decidable (a = .main → s.readsUnraised = false))

/-- The workers whose flags the main thread has read while it waits have no message. -/
def Waited (s : State) : Prop :=
  match s.main with
  | .flag _ _ idx => s.logs = [] ∧ ∀ j t, j < idx → s.threads[j]? = some t → t.pc.held = []
  | .passed _ _ => s.logs = [] ∧ ∀ t ∈ s.threads, t.pc.held = []
  | _ => True

structure BarrierInv (s : State) : Prop where
  conserved : Conserved s
  raised : ∀ t ∈ s.threads, Raised t
  waited : Waited s

section waited
variable {s : State} {idx : Nat} {t : Thread}

theorem held_nil (hraised : Raised t) (hshown : t.unraised = false) (hdown : t.isWorking = false) :
    t.pc.held = [] := by
  unfold Raised at hraised
  unfold Thread.unraised at hshown
  cases hpc : t.pc <;> simp_all [ThreadAt.held]

theorem raised_stepThread (h : ∀ t ∈ s.threads, Raised t) :
    ∀ t' ∈ (s.stepThread idx t).threads, Raised t' := by
  have hset : ∀ t', Raised t' → ∀ u ∈ s.threads.set idx t', Raised u := by
    intro t' ht' u hu
    rcases List.mem_or_eq_of_mem_set hu with hu | hu
    · exact h u hu
    · rw [hu]
      exact ht'
  rcases stepThread_cases s idx t with ⟨t', hstep, ht', -⟩ | ⟨t', log, rest, -, hstep, ht', -⟩ |
    ⟨t', log, hstep, ht', -⟩ <;> rw [hstep] <;> exact hset t' ht'

theorem stepThread_held (hlogs : s.logs = []) (ht : s.threads[idx]? = some t) {j : Nat} {u : Thread}
    (hu : (s.stepThread idx t).threads[j]? = some u) :
    ∃ u', s.threads[j]? = some u' ∧ (u'.pc.held = [] → u.pc.held = []) := by
  have hset : ∀ t' : Thread, (t.pc.held = [] → t'.pc.held = []) → (s.threads.set idx t')[j]? = some u →
      ∃ u', s.threads[j]? = some u' ∧ (u'.pc.held = [] → u.pc.held = []) := by
    intro t' hkeep hu
    rw [List.getElem?_set] at hu
    split at hu
    · rename_i hj
      split at hu
      · cases hu
        exact ⟨t, hj ▸ ht, hkeep⟩
      · cases hu
    · exact ⟨u, hu, id⟩
  rcases stepThread_cases s idx t with ⟨t', hstep, -, hheld⟩ | ⟨t', log, rest, hcons, -⟩ |
    ⟨t', log, hstep, -, hheld, hheld'⟩
  · rw [hstep] at hu
    exact hset t' (fun h => hheld.trans h) hu
  · rw [hlogs] at hcons
    cases hcons
  · rw [hstep] at hu
    exact hset t' (fun _ => hheld') hu

theorem stepThread_main (s : State) (idx : Nat) (t : Thread) : (s.stepThread idx t).main = s.main := by
  rcases stepThread_cases s idx t with ⟨t', hstep, -⟩ | ⟨t', log, rest, -, hstep, -⟩ |
    ⟨t', log, hstep, -⟩ <;> rw [hstep] <;> rfl

theorem stepThread_logs (hlogs : s.logs = []) : (s.stepThread idx t).logs = [] := by
  rcases stepThread_cases s idx t with ⟨t', hstep, -⟩ | ⟨t', log, rest, hcons, -⟩ | ⟨t', log, hstep, -⟩
  · rw [hstep]
    exact hlogs
  · rw [hlogs] at hcons
    cases hcons
  · rw [hstep]
    exact hlogs

theorem waited_stepThread (h : Waited s) (ht : s.threads[idx]? = some t) :
    Waited (s.stepThread idx t) := by
  unfold Waited at h ⊢
  rw [stepThread_main]
  cases hmain : s.main with
  | flag purpose log i =>
    rw [hmain] at h
    refine ⟨stepThread_logs h.1, fun j u hj hu => ?_⟩
    obtain ⟨u', hu', hkeep⟩ := stepThread_held h.1 ht hu
    exact hkeep (h.2 j u' hj hu')
  | passed purpose log =>
    rw [hmain] at h
    refine ⟨stepThread_logs h.1, fun u hu => ?_⟩
    obtain ⟨j, hj⟩ := List.mem_iff_getElem?.mp hu
    obtain ⟨u', hu', hkeep⟩ := stepThread_held h.1 ht hj
    exact hkeep (h.2 u' (List.mem_of_getElem? hu'))
  | idle => trivial
  | dispatch => trivial
  | queue => trivial

theorem waited_stepMain (h : BarrierInv s) (hshown : Shown s .main) : Waited s.stepMain := by
  unfold State.stepMain
  cases hmain : s.main with
  | idle =>
    dsimp only
    split
    · exact h.waited
    · unfold Waited
      dsimp only
      split <;> rename_i heq <;> split at heq <;> trivial
  | dispatch log =>
    dsimp only
    unfold State.dispatch State.push
    split
    · split <;> trivial
    · split <;> trivial
  | queue purpose log =>
    dsimp only
    split
    · rename_i hlogs
      exact ⟨hlogs, fun j _ hj => absurd hj (Nat.not_lt_zero j)⟩
    · exact h.waited
  | flag purpose log idx =>
    have hwaited := h.waited
    unfold Waited at hwaited
    rw [hmain] at hwaited
    dsimp only at hwaited ⊢
    cases hthread : s.threads[idx]? with
    | none =>
      refine ⟨hwaited.1, fun u hu => ?_⟩
      have hmem : u ∈ s.threads := hu
      obtain ⟨j, hj⟩ := List.mem_iff_getElem?.mp hmem
      have hlt : j < idx := by
        have := (List.getElem?_eq_some_iff.mp hj).1
        have := List.getElem?_eq_none_iff.mp hthread
        omega
      exact hwaited.2 j u hlt hj
    | some t =>
      dsimp only
      split
      · exact h.waited
      · rename_i hdown
        refine ⟨hwaited.1, fun j u hj hu => ?_⟩
        rcases Nat.lt_succ_iff_lt_or_eq.mp hj with hlt | rfl
        · exact hwaited.2 j u hlt hu
        · rw [hthread] at hu
          cases hu
          have hseen : t.unraised = false := by
            have hnext := hshown rfl
            unfold State.readsUnraised at hnext
            rw [hmain] at hnext
            dsimp only at hnext
            rw [hthread] at hnext
            exact hnext
          exact held_nil (h.raised t (List.mem_of_getElem? hthread)) hseen (by simpa using hdown)
  | passed purpose log =>
    cases purpose <;> trivial

theorem raised_stepMain (h : ∀ t ∈ s.threads, Raised t) : ∀ t ∈ s.stepMain.threads, Raised t := by
  have hthreads : s.stepMain.threads = s.threads := by
    unfold State.stepMain State.dispatch State.push
    repeat' split
    all_goals rfl
  rw [hthreads]
  exact h

theorem inv_step (h : BarrierInv s) (a : Actor) (hshown : Shown s a) : BarrierInv (s.step a) := by
  refine ⟨conserved_step h.conserved a, ?_, ?_⟩
  · cases a with
    | main => exact raised_stepMain h.raised
    | worker idx =>
      show ∀ t ∈ (match s.threads[idx]? with | some t => s.stepThread idx t | none => s).threads, Raised t
      split
      · exact raised_stepThread h.raised
      · exact h.raised
  · cases a with
    | main => exact waited_stepMain h hshown
    | worker idx =>
      show Waited (match s.threads[idx]? with | some t => s.stepThread idx t | none => s)
      split
      · rename_i ht
        exact waited_stepThread h.waited ht
      · exact h.waited

theorem inv_init (numThreads : Nat) (input : List Log) : BarrierInv (.init numThreads input) := by
  refine ⟨fun x => ?_, fun t ht => ?_, trivial⟩
  · have hnil : (State.init numThreads input).inHand = [] := by
      unfold State.inHand State.init
      simp [List.flatMap_replicate, ThreadAt.held]
    rw [hnil]
    rfl
  · rw [(List.mem_replicate.mp ht).2]
    trivial

/-- In every run in which the main thread never reads the flag of a worker that has yet to raise
it, all messages pushed have been handled whenever the main thread has waited. -/
theorem waited_processed {numThreads : Nat} {input : List Log} {schedule : List Actor}
    (hshown : Allowed State.step Shown (.init numThreads input) schedule) {purpose : Purpose} {log : Log}
    (hmain : (run numThreads input schedule).main = .passed purpose log) :
    (run numThreads input schedule).enqueued.Perm (run numThreads input schedule).processed := by
  have h : BarrierInv (run numThreads input schedule) :=
    inv_of_allowed BarrierInv (fun _ a hinv => inv_step hinv a) (inv_init numThreads input) hshown
  generalize run numThreads input schedule = s at h hmain
  have hwaited := h.waited
  unfold Waited at hwaited
  rw [hmain] at hwaited
  have hhand : s.inHand = [] := List.flatMap_eq_nil_iff.mpr hwaited.2
  rw [List.perm_iff_count]
  intro x
  have hx := h.conserved x
  rw [hhand, hwaited.1] at hx
  simpa using hx

end waited

def addThenDelete : List Log := [⟨"add_vertex", 0, ["7", "a"]⟩, ⟨"delete_vertex", 0, ["7"]⟩]

/-- The one worker has found the queue empty before the vertex is queued; the main thread waits
after the worker has handled the vertex. -/
def inTurn : List Actor :=
  [.worker 0, .worker 0, .worker 0, .main, .main, .worker 0, .worker 0, .worker 0, .worker 0,
    .worker 0, .worker 0, .worker 0, .main, .main, .main, .main, .main]

/-- The same, but the main thread waits between the worker's taking the vertex and its raising the
flag. -/
def inBetween : List Actor :=
  [.worker 0, .worker 0, .worker 0, .main, .main, .worker 0, .main, .main, .main, .main, .main]

theorem waited_processed_inTurn :
    (run 1 addThenDelete inTurn).enqueued.Perm (run 1 addThenDelete inTurn).processed :=
  waited_processed (by decide +kernel)
    (show _ = MainAt.passed .alone ⟨"delete_vertex", 0, ["7"]⟩ by decide +kernel)

example : (run 1 addThenDelete inBetween).main = .passed .alone ⟨"delete_vertex", 0, ["7"]⟩ ∧
    (run 1 addThenDelete inBetween).processed = [] := by
  decide +kernel

theorem passed_unprocessed : ¬ ∀ (numThreads : Nat) (input : List Log) (schedule : List Actor)
    (purpose : Purpose) (log : Log), (run numThreads input schedule).main = .passed purpose log →
      (run numThreads input schedule).enqueued.Perm (run numThreads input schedule).processed := by
  intro h
  have hperm := h 1 addThenDelete inBetween .alone ⟨"delete_vertex", 0, ["7"]⟩ (by decide +kernel)
  have hlength := hperm.length_eq
  revert hlength
  decide +kernel

end Gart.Runner
