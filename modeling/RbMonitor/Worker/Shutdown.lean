import RbMonitor.Worker.Order

/-!
This module contains the end of the process: after the signal the main loop and the workers end, in
a bounded number of steps and with nothing in use.
-/

namespace RbMonitor

/-- The steps of the main loop and of the workers. -/
def Action.ofThreads : Action → Bool
  | .signal | .zkPopData _ _ | .zkMove | .zkAdd => false
  | _ => true

namespace Process

/-- The most steps that the main loop takes after the signal. -/
def mainRank : MainState → Nat
  | .holding _ => 2
  | .atSensor _ => 1
  | .leaving => 0

/-- The most steps that a worker takes after the signal. -/
def workerRank : WorkerState → Nat
  | .processing _ => 4
  | .putting _ => 3
  | .idle => 2
  | .popped _ => 1
  | .ended => 0

def rank (s : Process) : Nat :=
  mainRank s.main + (s.workers.map workerRank).sum

/-- The main loop was left and every worker has ended. -/
def Joinable (s : Process) : Prop :=
  s.main = .leaving ∧ ∀ worker ∈ s.workers, worker = .ended

theorem sum_map_set {α : Type} (f : α → Nat) {l : List α} {i : Nat} {b : α} (h : l[i]? = some b)
    (a : α)
    : ((l.set i a).map f).sum + f b = (l.map f).sum + f a := by
  induction l generalizing i with
  | nil => cases h
  | cons c l ih =>
    cases i with
    | zero =>
      simp only [List.getElem?_cons_zero, Option.some.injEq] at h
      subst h
      simp only [List.set_cons_zero, List.map_cons, List.sum_cons]
      omega
    | succ i =>
      have := ih h
      simp only [List.set_cons_succ, List.map_cons, List.sum_cons]
      omega

theorem workerRank_le (worker : WorkerState) : workerRank worker ≤ 4 := by
  cases worker <;> simp [workerRank]

theorem rank_le (s : Process) : rank s ≤ 4 * s.workers.length + 2 := by
  have hworkers : (s.workers.map workerRank).sum ≤ s.workers.length * 4 := by
    rw [← List.length_map workerRank]
    apply List.sum_le_card_nsmul
    simp [workerRank_le]
  have hmain : mainRank s.main ≤ 2 := by
    cases s.main <;> simp [mainRank]
  unfold rank
  omega

section

variable {parse : CStr → Option Json} {sensors threads : Nat} {s s' : Process} {a : Action}
  {as bs : List Action}

theorem length_workers_step (hstep : Taken parse sensors s a s')
    : s'.workers.length = s.workers.length := by
  cases hstep with
  | _ => simp [setWorker, queueSensor, rbSensorGet, rbSensorPut, rbZkPopDataCb]

structure Ending (s : Process) : Prop where
  run : s.run = false
  fault : s.fault = false

theorem ending_step (h : Ending s) (hstep : Taken parse sensors s a s')
    : Ending s' ∧ a.ofThreads.toNat + rank s' ≤ rank s := by
  have hset {w : Nat} {old : WorkerState} (hw : s.workers[w]? = some old) (new : WorkerState) :=
    sum_map_set workerRank hw new
  cases hstep with
  | signal => exact ⟨⟨rfl, h.fault⟩, by simp [Action.ofThreads, rank]⟩
  | mainGet hmain hrun hi => simp [h.run] at hrun
  | mainQueue hmain =>
    exact ⟨⟨h.run, h.fault⟩, by simp [Action.ofThreads, rank, queueSensor, hmain, mainRank]; omega⟩
  | mainLeave hmain hrun =>
    exact ⟨⟨h.run, h.fault⟩, by simp [Action.ofThreads, rank, hmain, mainRank]⟩
  | zkPopData rc value =>
    exact ⟨⟨h.run, h.fault⟩, by simp [Action.ofThreads, rank, rbZkPopDataCb]⟩
  | zkMove hcalls hlaux => exact ⟨⟨h.run, h.fault⟩, by simp [Action.ofThreads, rank]⟩
  | zkAddError hlaux hparse => exact ⟨⟨h.run, h.fault⟩, by simp [Action.ofThreads, rank]⟩
  | zkAdd hlaux hparse =>
    exact ⟨⟨h.run, h.fault⟩, by simp [Action.ofThreads, rank, queueSensor]⟩
  | @pop w elm queue hw hqueue =>
    have hpop := hset hw (.popped elm)
    refine ⟨⟨h.run, h.fault⟩, ?_⟩
    simp [Action.ofThreads, rank, setWorker, workerRank] at hpop ⊢
    omega
  | skip hw hrun hlocked => simp [h.run] at hrun
  | lock hw hrun hlocked => simp [h.run] at hrun
  | fault hw hrun => simp [h.run] at hrun
  | @unlock w id hw =>
    have hunlock := hset hw (.putting id)
    refine ⟨⟨h.run, h.fault⟩, ?_⟩
    simp [Action.ofThreads, rank, setWorker, workerRank] at hunlock ⊢
    omega
  | put hw =>
    have hput := hset hw .idle
    refine ⟨⟨h.run, h.fault⟩, ?_⟩
    simp [Action.ofThreads, rank, setWorker, rbSensorPut, workerRank] at hput ⊢
    omega
  | dropSensor hw hrun =>
    have hdrop := hset hw .ended
    refine ⟨⟨h.run, h.fault⟩, ?_⟩
    simp [Action.ofThreads, rank, setWorker, workerRank] at hdrop ⊢
    omega
  | dropJson hw hrun =>
    have hdrop := hset hw .ended
    refine ⟨⟨h.run, h.fault⟩, ?_⟩
    simp [Action.ofThreads, rank, setWorker, workerRank] at hdrop ⊢
    omega
  | leave hw hrun =>
    have hleave := hset hw .ended
    refine ⟨⟨h.run, h.fault⟩, ?_⟩
    simp [Action.ofThreads, rank, setWorker, workerRank] at hleave ⊢
    omega

theorem ending_of_run (hrun : (processMachine parse sensors threads).run as = some s)
    (hsignal : s.run = false)
    : Ending s := by
  have halways : (processMachine parse sensors threads).Always
      (fun s => s.run = false → s.fault = false) (start threads) as := by
    apply Machine.always_of_inv
    . intro s a s' _ hstep hsignal
      have hfault := fault_of_step hstep
      cases taken_of_step hstep with
      | fault hw hrun => exact absurd hsignal (by simp [hrun])
      | _ => exact hfault
    . exact fun _ => rfl
  exact ⟨hsignal, halways.last hrun hsignal⟩

theorem Ending.progress (h : Ending s)
    : Joinable s ∨ ∃ a, a.ofThreads = true
        ∧ ((processMachine parse sensors threads).step s a).isSome := by
  cases hmain : s.main with
  | atSensor i => exact .inr ⟨.mainLeave, rfl, by simp [processMachine, h.run, h.fault, hmain]⟩
  | holding i => exact .inr ⟨.mainQueue, rfl, by simp [processMachine, h.fault, hmain]⟩
  | leaving =>
    by_cases hended : ∀ worker ∈ s.workers, worker = .ended
    . exact .inl ⟨hmain, hended⟩
    . simp only [not_forall] at hended
      rcases hended with ⟨worker, hmem, hne⟩
      rcases List.mem_iff_getElem?.mp hmem with ⟨w, hw⟩
      right
      cases worker with
      | idle => exact ⟨.leave w, rfl, by simp [processMachine, h.run, h.fault, hw]⟩
      | popped elm => exact ⟨.drop w, rfl, by simp [processMachine, h.run, h.fault, hw]⟩
      | processing id => exact ⟨.unlock w, rfl, by simp [processMachine, h.fault, hw]⟩
      | putting id => exact ⟨.put w, rfl, by simp [processMachine, h.fault, hw]⟩
      | ended => exact absurd rfl hne

theorem Joinable.released (h : Joinable s) (hlock : LockHeld s) (hguarded : Guarded s) (id : Nat)
    : s.locked id = false ∧ s.freed id = false
        ∧ s.refcnt id = 1 + s.queue.countP (·.isSensor id) + s.dropped.count id := by
  rcases h with ⟨hmain, hended⟩
  have hnone (p : WorkerState → Bool) (hp : p .ended = false) : s.workers.countP p = 0 := by
    apply List.countP_eq_zero.mpr
    intro worker hmem
    rw [hended worker hmem, hp]
    exact Bool.false_ne_true
  refine ⟨?_, hguarded.alive id, ?_⟩
  . have hid := hlock id
    rw [hnone _ rfl] at hid
    simpa using hid.symm
  . rw [hguarded.counted id, references, hnone _ rfl, hmain]
    simp
    omega

theorem reached (hrun : (processMachine parse sensors threads).run as = some s)
    : Guarded s ∧ LockHeld s ∧ s.workers.length = threads := by
  have hreached : (processMachine parse sensors threads).Always
      (fun s => Guarded s ∧ LockHeld s ∧ s.workers.length = threads) (start threads) as := by
    apply Machine.always_of_inv
    . intro s a s' h hstep
      rcases h with ⟨hguarded, hlock, hlen⟩
      have htaken := taken_of_step hstep
      exact ⟨guarded_step hguarded hstep, lockHeld_step hlock htaken,
        (length_workers_step htaken).trans hlen⟩
    . exact ⟨guarded_start threads, lockHeld_start threads, List.length_replicate⟩
  exact hreached.last hrun

/-- The signal comes while the sensor is processed by one worker and queued once more. -/
def signalRun : List Action :=
  [.mainGet, .mainQueue, .pop 0, .trylock 0, .mainGet, .mainQueue, .signal]

end

end Process

end RbMonitor
