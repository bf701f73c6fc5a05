import Gart.Lib.Steps
import Gart.Lib.Threads

/-!
# The futex of a vertex (futex.hpp)

`num_using` counts the threads that hold the lock or wait for it, so that `unlock` can leave out the call that wakes
a waiter. A step is one access to a shared word, or what the kernel does to a thread that sleeps.
-/

namespace Gart.Seggraph
open Gart.Steps Gart.Threads

/-- What `FUTEX_WAIT` returns: 0, `EAGAIN`, `ETIMEDOUT` or `EINTR`. -/
inductive WaitRet
  | woken
  | again
  | timedOut
  | interrupted
  deriving DecidableEq

/-- Where a thread is in `lock`, in `try_lock_for` (`timed`) or in `unlock`. -/
inductive FutexAt
  | outside
  | add (timed : Bool)
  | swap (timed : Bool)
  | wait (timed : Bool)
  | asleep (timed : Bool)
  /-- the wait has returned -/
  | sub (timed : Bool) (ret : WaitRet)
  | holding
  | unlock
  | subUnlock
  | wake
  deriving DecidableEq

/-- The two words, and the threads (`futex.hpp:26-86`). -/
structure FutexState where
  futexp : Nat := 0
  numUsing : Int := 0
  threads : List FutexAt
  deriving DecidableEq

/-- Who goes on, and how: a thread calls a function, makes its next access, wakes a thread of the kernel's choice, or
its wait ends without that. -/
inductive FutexAction
  | call (i : Nat) (timed : Bool)
  | release (i : Nat)
  | access (i : Nat)
  | wake (i target : Nat)
  | waitEnds (i : Nat) (ret : WaitRet)
  deriving DecidableEq

def FutexAt.sleeps : FutexAt → Bool
  | .asleep _ => true
  | _ => false

namespace FutexState

def init (numThreads : Nat) : FutexState := { threads := List.replicate numThreads .outside }

def goTo (s : FutexState) (i : Nat) (pc : FutexAt) : FutexState := { s with threads := s.threads.set i pc }

/-- The next access of a thread (`futex.hpp:28-69`). -/
def access (s : FutexState) (i : Nat) : FutexAt → FutexState
  | .add timed => { s.goTo i (.swap timed) with numUsing := s.numUsing + 1 }
  | .swap timed => if s.futexp = 0 then { s.goTo i .holding with futexp := 1 } else s.goTo i (.wait timed)
  | .wait timed => if s.futexp = 1 then s.goTo i (.asleep timed) else s.goTo i (.sub timed .again)
  | .sub timed ret =>
    match ret with
    | .woken | .again => { s.goTo i (.add timed) with numUsing := s.numUsing - 1 }
    -- `try_lock_for` returns false, or the call throws
    | .timedOut | .interrupted => { s.goTo i .outside with numUsing := s.numUsing - 1 }
  | .unlock => if s.futexp = 1 then { s.goTo i .subUnlock with futexp := 0 } else s.goTo i .outside
  | .subUnlock =>
    if s.numUsing - 1 = 0 then { s.goTo i .outside with numUsing := s.numUsing - 1 }
    else { s.goTo i .wake with numUsing := s.numUsing - 1 }
  | .outside | .asleep _ | .holding | .wake => s

/-- `FUTEX_WAKE` of one thread: of those that sleep, if there are any. -/
def wake (s : FutexState) (i target : Nat) : FutexState :=
  match s.threads[target]? with
  | some (.asleep timed) => (s.goTo i .outside).goTo target (.sub timed .woken)
  | _ => if s.threads.any FutexAt.sleeps then s else s.goTo i .outside

def step (s : FutexState) : FutexAction → FutexState
  | .call i timed => if s.threads[i]? = some .outside then s.goTo i (.add timed) else s
  | .release i => if s.threads[i]? = some .holding then s.goTo i .unlock else s
  | .access i =>
    match s.threads[i]? with
    | some pc => s.access i pc
    | none => s
  | .wake i target => if s.threads[i]? = some .wake then s.wake i target else s
  | .waitEnds i ret =>
    match s.threads[i]? with
    -- a wait is woken also when nobody has called `unlock`
    | some (.asleep timed) => if ret = .again ∨ ret = .timedOut ∧ ¬ timed then s else s.goTo i (.sub timed ret)
    | _ => s

def run (s : FutexState) (schedule : List FutexAction) : FutexState := schedule.foldl step s

end FutexState

/-! ### The threads of each kind -/

def FutexAt.owns : FutexAt → Bool
  | .holding | .unlock => true
  | _ => false

/-- The thread is counted in `num_using`. -/
def FutexAt.uses : FutexAt → Bool
  | .swap _ | .wait _ | .asleep _ | .sub _ _ | .holding | .unlock | .subUnlock => true
  | .outside | .add _ | .wake => false

/-- The thread is going to try the word, or to call the kernel for one that sleeps. -/
def FutexAt.drives : FutexAt → Bool
  | .add _ | .swap _ | .wait _ | .sub _ .woken | .sub _ .again | .subUnlock | .wake => true
  | _ => false

structure FutexInv (s : FutexState) : Prop where
  word : s.futexp ≤ 1
  owners : s.threads.countP FutexAt.owns = s.futexp
  users : s.numUsing = s.threads.countP FutexAt.uses
  awake : 0 < s.threads.countP FutexAt.sleeps →
    0 < s.threads.countP FutexAt.owns ∨ 0 < s.threads.countP FutexAt.drives

section inv
variable {s : FutexState} {i target : Nat} {pc : FutexAt}

/-- The numbers of threads of all kinds after one of them has gone to another place. -/
structure Moved (s : FutexState) (i : Nat) (pc pc' : FutexAt) : Prop where
  owns : (s.goTo i pc').threads.countP FutexAt.owns + pc.owns.toNat = s.threads.countP FutexAt.owns + pc'.owns.toNat
  uses : (s.goTo i pc').threads.countP FutexAt.uses + pc.uses.toNat = s.threads.countP FutexAt.uses + pc'.uses.toNat
  sleeps : (s.goTo i pc').threads.countP FutexAt.sleeps + pc.sleeps.toNat =
    s.threads.countP FutexAt.sleeps + pc'.sleeps.toNat
  drives : (s.goTo i pc').threads.countP FutexAt.drives + pc.drives.toNat =
    s.threads.countP FutexAt.drives + pc'.drives.toNat

theorem moved (h : s.threads[i]? = some pc) (pc' : FutexAt) : Moved s i pc pc' :=
  ⟨countP_move h pc', countP_move h pc', countP_move h pc', countP_move h pc'⟩

theorem futexInv_init (numThreads : Nat) : FutexInv (.init numThreads) := by
  have hnone : ∀ p : FutexAt → Bool, p .outside = false → (List.replicate numThreads FutexAt.outside).countP p = 0 := by
    intro p hp
    rw [List.countP_replicate, if_neg (by rw [hp]; decide)]
  refine ⟨Nat.zero_le _, hnone _ rfl, ?_, fun hsleeps => ?_⟩
  · show (0 : Int) = _
    rw [show (FutexState.init numThreads).threads = List.replicate numThreads .outside from rfl, hnone _ rfl]
    rfl
  · rw [show (FutexState.init numThreads).threads = List.replicate numThreads .outside from rfl, hnone _ rfl] at hsleeps
    cases hsleeps

theorem counted (h : s.threads[i]? = some pc) : pc.owns.toNat ≤ s.threads.countP FutexAt.owns ∧
    pc.uses.toNat ≤ s.threads.countP FutexAt.uses ∧ pc.sleeps.toNat ≤ s.threads.countP FutexAt.sleeps ∧
    pc.drives.toNat ≤ s.threads.countP FutexAt.drives := by
  have hle : ∀ p : FutexAt → Bool, (p pc).toNat ≤ s.threads.countP p := by
    intro p
    cases hp : p pc with
    | false => exact Nat.zero_le _
    | true => exact countP_pos h hp
  exact ⟨hle _, hle _, hle _, hle _⟩

theorem sleeps_le_uses (threads : List FutexAt) : threads.countP FutexAt.sleeps ≤ threads.countP FutexAt.uses :=
  List.countP_mono_left fun pc _ hsleeps => by
    cases pc <;> first | rfl | cases hsleeps

/-- A thread goes to another place. Whoever sleeps then is owed a call of the kernel: by the owner of the lock, by the
thread itself, or by one that was on its way before. -/
theorem FutexInv.move (h : FutexInv s) (hpc : s.threads[i]? = some pc) {pc' : FutexAt} {futexp : Nat} {numUsing : Int}
    (hword : futexp ≤ 1) (hown : futexp + pc.owns.toNat = s.futexp + pc'.owns.toNat)
    (huse : numUsing + (pc.uses.toNat : Int) = s.numUsing + (pc'.uses.toNat : Int))
    (howed : futexp = 1 ∨ pc'.drives = true ∨ (pc.drives = false ∧ pc.owns = false ∧ pc'.sleeps = false) ∨
        numUsing = 0) :
    FutexInv { futexp := futexp, numUsing := numUsing, threads := s.threads.set i pc' } := by
  obtain ⟨-, howners, husers, hawake⟩ := h
  obtain ⟨hown', huse', hsleep', hdrive'⟩ := moved hpc pc'
  have hle := sleeps_le_uses (s.threads.set i pc')
  unfold FutexState.goTo at hown' huse' hsleep' hdrive'
  dsimp only at hown' huse' hsleep' hdrive'
  refine ⟨hword, ?_, ?_, fun hsleeps => ?_⟩
  · dsimp only
    omega
  · dsimp only
    omega
  · dsimp only at hsleeps ⊢
    rcases howed with hset | hdrives | ⟨hpcDrives, hpcOwns, hpcSleeps⟩ | hnobody
    · omega
    · rw [hdrives] at hdrive'
      have := (counted hpc).2.2.2
      right
      simp only [Bool.toNat_true] at hdrive'
      omega
    · rw [hpcDrives] at hdrive'
      rw [hpcOwns] at hown'
      rw [hpcSleeps] at hsleep'
      simp only [Bool.toNat_false] at hdrive' hown' hsleep'
      omega
    · omega

theorem futexInv_access (h : FutexInv s) (hpc : s.threads[i]? = some pc) : FutexInv (s.access i pc) := by
  have hword := h.word
  cases pc with
  | outside => exact h
  | asleep timed => exact h
  | holding => exact h
  | wake => exact h
  | add timed => exact h.move hpc hword rfl (by simp [FutexAt.uses]) (.inr (.inl rfl))
  | swap timed =>
    show FutexInv (if s.futexp = 0 then _ else _)
    split
    · rename_i h0
      exact h.move hpc (Nat.le_refl _) (by rw [h0]; rfl) rfl (.inl rfl)
    · exact h.move hpc hword rfl rfl (.inr (.inl rfl))
  | wait timed =>
    show FutexInv (if s.futexp = 1 then _ else _)
    split
    · rename_i h1
      exact h.move hpc hword rfl rfl (.inl h1)
    · exact h.move hpc hword rfl rfl (.inr (.inl rfl))
  | sub timed ret =>
    cases ret with
    | woken => exact h.move hpc hword rfl (by simp [FutexAt.uses]) (.inr (.inl rfl))
    | again => exact h.move hpc hword rfl (by simp [FutexAt.uses]) (.inr (.inl rfl))
    | timedOut => exact h.move hpc hword rfl (by simp [FutexAt.uses]) (.inr (.inr (.inl ⟨rfl, rfl, rfl⟩)))
    | interrupted => exact h.move hpc hword rfl (by simp [FutexAt.uses]) (.inr (.inr (.inl ⟨rfl, rfl, rfl⟩)))
  | unlock =>
    have howner : s.futexp = 1 := by
      have hcounted := (counted hpc).1
      rw [h.owners] at hcounted
      exact Nat.le_antisymm hword hcounted
    show FutexInv (if s.futexp = 1 then _ else _)
    rw [if_pos howner]
    exact h.move hpc (Nat.zero_le _) (by rw [howner]; rfl) rfl (.inr (.inl rfl))
  | subUnlock =>
    show FutexInv (if s.numUsing - 1 = 0 then _ else _)
    split
    · rename_i hnobody
      exact h.move hpc hword rfl (by simp [FutexAt.uses]) (.inr (.inr (.inr hnobody)))
    · exact h.move hpc hword rfl (by simp [FutexAt.uses]) (.inr (.inl rfl))

theorem futexInv_wake (h : FutexInv s) (hpc : s.threads[i]? = some .wake) : FutexInv (s.wake i target) := by
  unfold FutexState.wake
  split
  · rename_i timed htarget
    have hne : i ≠ target := fun heq => by
      rw [← heq, hpc] at htarget
      cases htarget
    -- the thread that is woken is on its way before the one that wakes it has left
    have hfirst : FutexInv (s.goTo target (.sub timed .woken)) := h.move htarget h.word rfl rfl (.inr (.inl rfl))
    have hpc' : (s.goTo target (.sub timed .woken)).threads[i]? = some .wake :=
      (getElem?_set_other (Ne.symm hne)).trans hpc
    have hboth : FutexInv ((s.goTo target (.sub timed .woken)).goTo i .outside) := by
      refine ⟨h.word, ?_, ?_, fun _ => .inr ?_⟩
      · have hmoved := (moved hpc' .outside).owns
        have howners := hfirst.owners
        exact hmoved.trans howners
      · have hmoved := (moved hpc' .outside).uses
        have husers := hfirst.users
        exact husers.trans (congrArg Nat.cast hmoved.symm)
      · refine @countP_pos _ _ _ target (.sub timed .woken) ?_ rfl
        exact (getElem?_set_other hne).trans (getElem?_set_at htarget _)
    have hcomm : (s.goTo i .outside).goTo target (.sub timed .woken) =
        (s.goTo target (.sub timed .woken)).goTo i .outside := by
      unfold FutexState.goTo
      exact congrArg _ (List.set_comm _ _ hne)
    rw [hcomm]
    exact hboth
  · split
    · exact h
    · rename_i hnone
      have hsleeps : s.threads.countP FutexAt.sleeps = 0 := by
        refine Nat.eq_zero_of_not_pos fun hpos => ?_
        obtain ⟨j, pc, hj, hp⟩ := exists_of_countP_pos hpos
        exact hnone (List.any_eq_true.mpr ⟨pc, List.mem_of_getElem? hj, hp⟩)
      obtain ⟨hown', huse', hsleep', hdrive'⟩ := moved hpc .outside
      refine ⟨h.word, hown'.trans h.owners, ?_, fun hpos => ?_⟩
      · rw [show (s.goTo i .outside).numUsing = s.numUsing from rfl, h.users]
        exact congrArg Nat.cast huse'.symm
      · rw [show (FutexAt.wake.sleeps).toNat = 0 from rfl, show (FutexAt.outside.sleeps).toNat = 0 from rfl] at hsleep'
        omega

theorem futexInv_step (s : FutexState) (a : FutexAction) (h : FutexInv s) : FutexInv (s.step a) := by
  cases a with
  | call i timed =>
    show FutexInv (if _ then _ else _)
    split
    · rename_i hpc
      exact h.move hpc h.word rfl rfl (.inr (.inl rfl))
    · exact h
  | release i =>
    show FutexInv (if _ then _ else _)
    split
    · rename_i hpc
      have hcounted := (counted hpc).1
      rw [h.owners] at hcounted
      exact h.move hpc h.word rfl rfl (.inl (Nat.le_antisymm h.word hcounted))
    · exact h
  | access i =>
    show FutexInv (match s.threads[i]? with | some pc => s.access i pc | none => s)
    split
    · rename_i hpc
      exact futexInv_access h hpc
    · exact h
  | wake i target =>
    show FutexInv (if _ then _ else _)
    split
    · rename_i hpc
      exact futexInv_wake h hpc
    · exact h
  | waitEnds i ret =>
    unfold FutexState.step
    dsimp only
    split
    · rename_i timed hpc
      split
      · exact h
      · refine h.move hpc h.word rfl rfl ?_
        cases ret with
        | woken => exact .inr (.inl rfl)
        | again => exact .inr (.inl rfl)
        | timedOut => exact .inr (.inr (.inl ⟨rfl, rfl, rfl⟩))
        | interrupted => exact .inr (.inr (.inl ⟨rfl, rfl, rfl⟩))
    · exact h

theorem futexInv_run (numThreads : Nat) (schedule : List FutexAction) :
    FutexInv ((FutexState.init numThreads).run schedule) :=
  inv_of_step FutexInv futexInv_step (futexInv_init numThreads) schedule

end inv

/-- At most one thread owns the lock, `num_using` is exact, and whoever sleeps is owed a call of the kernel. -/
structure FutexSafe (s : FutexState) : Prop where
  exclusive : ∀ (i j : Nat) (pc pc' : FutexAt), s.threads[i]? = some pc → s.threads[j]? = some pc' →
    pc.owns → pc'.owns → i = j
  counted : s.numUsing = (s.threads.countP FutexAt.uses : Int)
  awake : ∀ (i : Nat) (timed : Bool), s.threads[i]? = some (.asleep timed) →
    ∃ (j : Nat) (pc : FutexAt), s.threads[j]? = some pc ∧ (pc.owns ∨ pc.drives)

/-- Whatever the schedule, the lock is safe and no thread that sleeps is forgotten. -/
theorem futex_safe (numThreads : Nat) (schedule : List FutexAction) :
    FutexSafe ((FutexState.init numThreads).run schedule) := by
  have h := futexInv_run numThreads schedule
  refine ⟨fun i j pc pc' hi hj howns howns' => ?_, h.users, fun i timed hi => ?_⟩
  · exact eq_of_countP_le_one (h.owners ▸ h.word) hi hj howns howns'
  · rcases h.awake (countP_pos hi rfl) with howns | hdrives
    · obtain ⟨j, pc, hj, hpc⟩ := exists_of_countP_pos howns
      exact ⟨j, pc, hj, .inl hpc⟩
    · obtain ⟨j, pc, hj, hpc⟩ := exists_of_countP_pos hdrives
      exact ⟨j, pc, hj, .inr hpc⟩

/-! ### A thread that sleeps can still get the lock -/

/-- A step of threads that are in the lock's functions or hold the lock; no wait ends by itself. -/
def FutexAction.inside : FutexAction → Bool
  | .release _ | .access _ | .wake _ _ => true
  | .call _ _ | .waitEnds _ _ => false

/-- Steps of the threads that are there bring a thread to the lock. -/
def GetsLock (s : FutexState) (i : Nat) : Prop :=
  ∃ schedule : List FutexAction, (∀ a ∈ schedule, a.inside = true) ∧ (s.run schedule).threads[i]? = some .holding

structure Beside (s : FutexState) (i : Nat) (timed : Bool) (j : Nat) (pc : FutexAt) (futexp : Nat) : Prop where
  inv : FutexInv s
  asleep : s.threads[i]? = some (.asleep timed)
  other : s.threads[j]? = some pc
  word : s.futexp = futexp

section reaches
variable {s s' : FutexState} {a : FutexAction} {i j futexp : Nat} {timed timed' : Bool} {pc pc' : FutexAt}

theorem GetsLock.step (ha : a.inside = true) (h : GetsLock (s.step a) i) : GetsLock s i := by
  obtain ⟨schedule, hinside, hholds⟩ := h
  refine ⟨a :: schedule, fun b hb => ?_, hholds⟩
  rcases List.mem_cons.mp hb with rfl | hb
  · exact ha
  · exact hinside b hb

theorem Beside.ne (h : Beside s i timed j pc futexp) (hpc : pc.sleeps = false) : j ≠ i := by
  intro heq
  have hother := h.other
  rw [heq, h.asleep] at hother
  rw [← Option.some.inj hother] at hpc
  cases hpc

theorem Beside.next (h : Beside s i timed j pc futexp) (hpc : pc.sleeps = false) (a : FutexAction) {numUsing : Int}
    {word futexp' : Nat} (hstep : s.step a = { futexp := word, numUsing := numUsing, threads := s.threads.set j pc' })
    (hword : word = futexp') : Beside (s.step a) i timed j pc' futexp' := by
  refine ⟨futexInv_step s a h.inv, ?_, ?_, ?_⟩
  · rw [hstep]
    exact (getElem?_set_other (h.ne hpc)).trans h.asleep
  · rw [hstep]
    exact getElem?_set_at h.other _
  · rw [hstep]
    exact hword

theorem Beside.access (h : Beside s i timed j pc futexp) : s.step (.access j) = s.access j pc := by
  show (match s.threads[j]? with | some pc => s.access j pc | none => s) = _
  rw [h.other]

theorem Beside.woken (h : Beside s i timed j .wake 0) : GetsLock s i := by
  have hwake : s.step (.wake j i) = (s.goTo j .outside).goTo i (.sub timed .woken) := by
    show (if s.threads[j]? = some .wake then s.wake j i else s) = _
    rw [if_pos h.other]
    unfold FutexState.wake
    rw [h.asleep]
  refine GetsLock.step (a := .wake j i) rfl ?_
  rw [hwake]
  have hset : ∀ (t : FutexState) (pc pc' : FutexAt), t.threads[i]? = some pc → (t.goTo i pc').threads[i]? = some pc' :=
    fun t pc pc' ht => getElem?_set_at ht pc'
  have h0 := hset (s.goTo j .outside) (.asleep timed) (.sub timed .woken)
    ((getElem?_set_other (h.ne rfl)).trans h.asleep)
  have hword : ((s.goTo j .outside).goTo i (.sub timed .woken)).futexp = 0 := h.word
  revert h0 hword
  generalize (s.goTo j .outside).goTo i (.sub timed .woken) = t
  intro h0 hword
  have hsub : t.step (.access i) = { t.goTo i (.add timed) with numUsing := t.numUsing - 1 } := by
    show (match t.threads[i]? with | some pc => t.access i pc | none => t) = _
    rw [h0]
    rfl
  have h1 : (t.step (.access i)).threads[i]? = some (.add timed) := by
    rw [hsub]
    exact hset t _ _ h0
  have hadd : (t.step (.access i)).step (.access i) =
      { (t.step (.access i)).goTo i (.swap timed) with numUsing := (t.step (.access i)).numUsing + 1 } := by
    show (match (t.step (.access i)).threads[i]? with | some pc => _ | none => _) = _
    rw [h1]
    rfl
  have h2 : ((t.step (.access i)).step (.access i)).threads[i]? = some (.swap timed) := by
    rw [hadd]
    exact hset _ _ _ h1
  have hswap : ((t.step (.access i)).step (.access i)).step (.access i) =
      { ((t.step (.access i)).step (.access i)).goTo i .holding with futexp := 1 } := by
    show (match ((t.step (.access i)).step (.access i)).threads[i]? with | some pc => _ | none => _) = _
    rw [h2]
    refine if_pos ?_
    rw [hadd, hsub]
    exact hword
  refine ⟨[.access i, .access i, .access i], by simp [FutexAction.inside], ?_⟩
  show (((t.step (.access i)).step (.access i)).step (.access i)).threads[i]? = some .holding
  rw [hswap]
  exact hset _ _ _ h2

theorem Beside.subUnlock (h : Beside s i timed j .subUnlock 0) : GetsLock s i := by
  have hcount : ¬ s.numUsing - 1 = 0 := by
    intro hnobody
    have hmoved := (moved h.other .wake).uses
    have husers := h.inv.users
    have hsleeper := (@counted (s.goTo j .wake) i (.asleep timed) ((getElem?_set_other (h.ne rfl)).trans h.asleep)).2.1
    rw [show (FutexAt.asleep timed).uses.toNat = 1 from rfl] at hsleeper
    rw [show FutexAt.subUnlock.uses.toNat = 1 from rfl, show FutexAt.wake.uses.toNat = 0 from rfl] at hmoved
    omega
  have hnext := h.next rfl (.access j) (h.access.trans (if_neg hcount)) h.word
  exact GetsLock.step rfl hnext.woken

theorem Beside.unlock (h : Beside s i timed j .unlock 1) : GetsLock s i := by
  have hnext := h.next rfl (.access j) (h.access.trans (if_pos h.word)) rfl
  exact GetsLock.step rfl hnext.subUnlock

theorem Beside.holding (h : Beside s i timed j .holding 1) : GetsLock s i := by
  have hnext : Beside (s.step (.release j)) i timed j .unlock 1 := h.next rfl (.release j) (if_pos h.other) h.word
  exact GetsLock.step rfl hnext.unlock

theorem Beside.swap (h : Beside s i timed j (.swap timed') 0) : GetsLock s i := by
  have hnext := h.next rfl (.access j) (h.access.trans (if_pos h.word)) rfl
  exact GetsLock.step rfl hnext.holding

theorem Beside.add (h : Beside s i timed j (.add timed') 0) : GetsLock s i := by
  have hnext := h.next rfl (.access j) h.access h.word
  exact GetsLock.step rfl hnext.swap

theorem Beside.sub {ret : WaitRet} (h : Beside s i timed j (.sub timed' ret) 0) (hret : ret = .woken ∨ ret = .again) :
    GetsLock s i := by
  have hstep : s.access j (.sub timed' ret) = { s.goTo j (.add timed') with numUsing := s.numUsing - 1 } := by
    rcases hret with rfl | rfl <;> rfl
  have hnext := h.next rfl (.access j) (h.access.trans hstep) h.word
  exact GetsLock.step rfl hnext.add

theorem Beside.wait (h : Beside s i timed j (.wait timed') 0) : GetsLock s i := by
  have hfree : ¬ s.futexp = 1 := by
    rw [h.word]
    decide
  have hnext := h.next rfl (.access j) (h.access.trans (if_neg hfree)) h.word
  exact GetsLock.step rfl (hnext.sub (.inr rfl))

theorem Beside.owner (h : Beside s i timed j pc 1) (howns : pc.owns = true) : GetsLock s i := by
  cases pc with
  | holding => exact h.holding
  | unlock => exact h.unlock
  | _ => cases howns

theorem Beside.driver (h : Beside s i timed j pc 0) (hdrives : pc.drives = true) : GetsLock s i := by
  cases pc with
  | add timed' => exact h.add
  | swap timed' => exact h.swap
  | wait timed' => exact h.wait
  | sub timed' ret =>
    cases ret with
    | woken => exact h.sub (.inl rfl)
    | again => exact h.sub (.inr rfl)
    | _ => cases hdrives
  | subUnlock => exact h.subUnlock
  | wake => exact h.woken
  | _ => cases hdrives

end reaches

/-- A thread that sleeps gets the lock without a new call, a timeout or an interruption, whatever has happened
before. -/
theorem asleep_getsLock (numThreads : Nat) (schedule : List FutexAction) (i : Nat) (timed : Bool)
    (h : ((FutexState.init numThreads).run schedule).threads[i]? = some (.asleep timed)) :
    GetsLock ((FutexState.init numThreads).run schedule) i := by
  have hinv := futexInv_run numThreads schedule
  revert h hinv
  generalize (FutexState.init numThreads).run schedule = s
  intro h hinv
  by_cases howned : 0 < s.threads.countP FutexAt.owns
  · obtain ⟨j, pc, hj, howns⟩ := exists_of_countP_pos howned
    rw [hinv.owners] at howned
    exact Beside.owner ⟨hinv, h, hj, Nat.le_antisymm hinv.word howned⟩ howns
  · obtain ⟨j, pc, hj, hdrives⟩ := exists_of_countP_pos ((hinv.awake (countP_pos h rfl)).resolve_left howned)
    rw [hinv.owners] at howned
    exact Beside.driver ⟨hinv, h, hj, Nat.eq_zero_of_not_pos howned⟩ hdrives

def secondAsleep : List FutexAction :=
  [.call 0 false, .access 0, .access 0, .call 1 true, .access 1, .access 1, .access 1]

theorem asleep_getsLock_second : GetsLock ((FutexState.init 2).run secondAsleep) 1 :=
  asleep_getsLock 2 secondAsleep 1 true rfl

end Gart.Seggraph
