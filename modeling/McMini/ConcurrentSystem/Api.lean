/-
# The scheduler's calls

A scheduler drives `concurrent_system.c` through a handful of calls: it
registers threads, stores each thread's next transition in the slot
`csystem_get_transition_slot_for_tid` hands out, runs a thread, updates the
backtrack sets and resets the system between traces. `apiRun` executes a list
of such calls from a state, so a state reached from `csystem_init` is one that
`apiRun` returns.

Two readings of that interface are made here. `csystem_get_first_enabled_transition`
scans every slot of `t_next` up to `MAX_TOTAL_THREADS_PER_SCHEDULE`, where
`csystem_copy_enabled_transitions` scans the registered ones, and
`csystem_reset` leaves the old slots in place. And the pushes of the state
stack write their slot before their bound check, which admits the slot one past
the end.
-/

import McMini.ConcurrentSystem.Backtrack

namespace McMini.ConcurrentSystem

/-- One call of the scheduler on the concurrent system. -/
inductive ApiCall
  | registerThread
  | setNextTransition (tid : Tid) (t : Transition)
  | run (tid : Tid)
  | dynamicallyUpdateBacktrackSets
  | reset

section Api

variable (A : TransitionAlgebra) (L : Limits)

/-- The effect of one call. -/
def apiStep (s : CSystem) : ApiCall → Except Fault CSystem
  | .registerThread => Prod.fst <$> csystemRegisterThread L s
  | .setNextTransition tid t => pure (s.setNextTransition tid t)
  | .run tid => csystemRun L s tid
  | .dynamicallyUpdateBacktrackSets => csystemDynamicallyUpdateBacktrackSets A L s
  | .reset => csystemReset L s

/-- The calls in order; the first fault ends the run. -/
def apiRun (s : CSystem) (calls : List ApiCall) : Except Fault CSystem :=
  calls.foldlM (apiStep A L) s

end Api

section FirstEnabled

variable {A : TransitionAlgebra} {L : Limits}

/-- The two scans agree when no slot from `tid_next` up to
`MAX_TOTAL_THREADS_PER_SCHEDULE` holds an enabled transition: the slot
`csystem_get_first_enabled_transition` returns holds the first transition
`csystem_copy_enabled_transitions` copies, and both find nothing together. -/
theorem csystemGetFirstEnabledTransition_eq_head {s : CSystem}
    (hcount : s.tidNext ≤ L.maxTotalThreadsPerSchedule)
    (habove : ∀ tid, s.tidNext ≤ tid → tid < L.maxTotalThreadsPerSchedule →
      A.transitionEnabled s (s.tNext tid) = false) :
    (csystemGetFirstEnabledTransition A L s).map s.tNext =
      (csystemCopyEnabledTransitions A s).head? := by
  have hsplit : L.maxTotalThreadsPerSchedule =
      s.tidNext + (L.maxTotalThreadsPerSchedule - s.tidNext) := by omega
  have hnone : ((List.range (L.maxTotalThreadsPerSchedule - s.tidNext)).map
      (s.tidNext + ·)).find? (fun i => A.transitionEnabled s (s.tNext i)) = none := by
    simp only [List.find?_eq_none, List.mem_map, List.mem_range]
    rintro _ ⟨k, hk, rfl⟩
    simp [habove _ (Nat.le_add_right _ k) (by omega)]
  rw [csystemGetFirstEnabledTransition, csystemCopyEnabledTransitions, List.filter_head?,
    List.find?_map, hsplit, List.range_add, List.find?_append, hnone, Option.or_none]
  rfl

/-- Two thread slots, one thread registered: slot `1`, above `tid_next`, still
holds the lock of an unmapped mutex that the record started with, which is not
enabled, and the scans agree on thread `0`. -/
theorem csystemGetFirstEnabledTransition_eq_head_blockedAbove :
    let L : Limits := ⟨2, 1, 4⟩
    let blocked : Transition := ⟨0, .mutex ⟨.lock, ⟨3, .unknown⟩⟩⟩
    let start : Transition := ⟨0, .threadLifecycle ⟨.start, 0⟩⟩
    ∃ s, (csystemInit L (.staticStorage blocked) >>= fun s₀ =>
        apiRun SpecAlgebra.algebra L s₀ [.registerThread, .setNextTransition 0 start]) = .ok s ∧
      s.tidNext ≤ L.maxTotalThreadsPerSchedule ∧
      (∀ tid, s.tidNext ≤ tid → tid < L.maxTotalThreadsPerSchedule →
        SpecAlgebra.algebra.transitionEnabled s (s.tNext tid) = false) ∧
      (csystemGetFirstEnabledTransition SpecAlgebra.algebra L s).map s.tNext =
        (csystemCopyEnabledTransitions SpecAlgebra.algebra s).head? := by
  intro L blocked start
  refine ⟨_, rfl, ?hcount, ?habove, csystemGetFirstEnabledTransition_eq_head ?hcount ?habove⟩
  · exact Nat.le_succ 1
  · intro tid hlo hhi
    obtain rfl : tid = 1 := Nat.le_antisymm (Nat.le_of_lt_succ hhi) hlo
    rfl

/-- Thread `0` is registered and its slot set to a start, then the system is
reset: no thread is registered and `csystem_copy_enabled_transitions` copies
nothing, but `csystem_get_first_enabled_transition` returns the slot of thread
`0`, left over from before the reset. -/
theorem csystemGetFirstEnabledTransition_reads_stale_slot :
    let L : Limits := ⟨2, 1, 4⟩
    let blocked : Transition := ⟨0, .mutex ⟨.lock, ⟨3, .unknown⟩⟩⟩
    let start : Transition := ⟨0, .threadLifecycle ⟨.start, 0⟩⟩
    ∃ s, (csystemInit L (.staticStorage blocked) >>= fun s₀ =>
        apiRun SpecAlgebra.algebra L s₀ [.registerThread, .setNextTransition 0 start, .reset]) =
        .ok s ∧
      s.tidNext = 0 ∧ csystemCopyEnabledTransitions SpecAlgebra.algebra s = [] ∧
      csystemGetFirstEnabledTransition SpecAlgebra.algebra L s = some 0 ∧ s.tNext 0 = start :=
  ⟨_, rfl, rfl, rfl, rfl, rfl⟩

end FirstEnabled

section Overflow

variable {A : TransitionAlgebra} {L : Limits}

theorem csystemVirtuallyApplyTransition_threadLifecycle {m : MutexStore} {t : Transition}
    {op : ThreadOperation} (hop : t.operation = .threadLifecycle op) :
    csystemVirtuallyApplyTransition L m t = .ok m := by
  rw [csystemVirtuallyApplyTransition, hop]
  rfl

/-- The transition push of `csystem_run` for a thread whose next transition is a
thread-lifecycle operation: it succeeds below the last slot and changes neither
the state stack nor the next table. -/
theorem csystemGrowTransitionStack_threadLifecycle {s : CSystem} {tid : Tid} {op : ThreadOperation}
    (hop : (s.tNext tid).operation = .threadLifecycle op) (h0 : 0 ≤ s.tStackTop + 1)
    (hmax : s.tStackTop + 1 < L.maxVisibleOperationDepth) :
    csystemGrowTransitionStack L s tid =
      .ok { s with tStackTop := s.tStackTop + 1,
                   tStack := Function.update s.tStack (s.tStackTop + 1).toNat (s.tNext tid) } :=
  (csystemGrowTransitionStackRestore_eq_ok L).mpr
    ⟨⟨h0, hmax⟩, s.mutexes, csystemVirtuallyApplyTransition_threadLifecycle hop, rfl⟩

theorem csystemGrowStateStack_of_lt {s : CSystem} (h0 : 0 ≤ s.sStackTop + 1)
    (hmax : s.sStackTop + 1 < L.maxVisibleOperationDepth) :
    csystemGrowStateStack L s =
      .ok { s with sStackTop := s.sStackTop + 1,
                   sStack := Function.update s.sStack (s.sStackTop + 1).toNat .empty } :=
  (csystemGrowStateStack_eq_ok L).mpr ⟨⟨h0, hmax⟩, rfl⟩

/-- The state push into the last slot writes one past the end of `s_stack`. -/
theorem csystemGrowStateStack_of_last {s : CSystem}
    (hlast : s.sStackTop + 1 = L.maxVisibleOperationDepth) :
    csystemGrowStateStack L s = .error (.outOfBounds .sStack L.maxVisibleOperationDepth) := by
  rw [csystemGrowStateStack, storeSlot, if_neg (by omega), hlast]
  rfl

/-- `n` runs of a thread whose next transition is a thread-lifecycle operation,
from a state whose state stack is one item taller than its transition stack and
`n` items below the end of its array: the last run writes
`s_stack[MAX_VISIBLE_OPERATION_DEPTH]`. -/
theorem apiRun_run_overflows (tid : Tid) (op : ThreadOperation) (n : Nat) :
    ∀ s : CSystem, (s.tNext tid).operation = .threadLifecycle op →
      s.tStackTop + 1 = s.sStackTop → 0 ≤ s.sStackTop → s.sStackTop < L.maxVisibleOperationDepth →
      s.sStackTop + n = L.maxVisibleOperationDepth →
      apiRun A L s (List.replicate n (.run tid)) =
        .error (.outOfBounds .sStack L.maxVisibleOperationDepth) := by
  induction n with
  | zero =>
      intro s _ _ _ hlt hlast
      omega
  | succ n ih =>
      intro s hop htop h0 hlt hlast
      rw [apiRun, List.replicate_succ, List.foldlM_cons, apiStep, csystemRun,
        csystemGrowTransitionStack_threadLifecycle (L := L) hop (by omega) (by omega), except_ok_bind]
      by_cases hend : s.sStackTop + 1 = L.maxVisibleOperationDepth
      · rw [csystemGrowStateStack_of_last]
        · rfl
        · exact hend
      · rw [csystemGrowStateStack_of_lt, except_ok_bind]
        · exact ih _ hop (by simp only; omega) (by simp only; omega) (by simp only; omega)
            (by simp only; omega)
        · simp only; omega
        · simp only; omega

/-- From any `csystem_init`, register thread `0`, give it a thread-lifecycle
transition, and run it `MAX_VISIBLE_OPERATION_DEPTH` times: the last run's
state push writes `s_stack[MAX_VISIBLE_OPERATION_DEPTH]`, past the end of the
array, with no assertion failing first. -/
theorem csystemRun_writes_past_state_stack (hthreads : 0 < L.maxTotalThreadsPerSchedule)
    (hdepth : 0 < L.maxVisibleOperationDepth) (m : CSystem) (op : ThreadOperation) :
    (csystemInit L m >>= fun s₀ => apiRun A L s₀ (.registerThread ::
        .setNextTransition 0 ⟨0, .threadLifecycle op⟩ ::
        List.replicate L.maxVisibleOperationDepth (.run 0))) =
      .error (.outOfBounds .sStack L.maxVisibleOperationDepth) := by
  rw [csystemInit, csystemGrowStateStack_of_lt (by simp) (by simpa using hdepth), except_ok_bind]
  have hslot : (0 : Int) ≤ (0 : Nat) ∧ ((0 : Nat) : Int) < L.maxTotalThreadsPerSchedule := by
    simpa using hthreads
  simp only [apiRun, List.foldlM_cons, apiStep, csystemRegisterThread, storeSlot, if_pos hslot,
    except_ok_bind, map_pure, pure_bind]
  exact apiRun_run_overflows 0 op _ _ (by simp [CSystem.setNextTransition]) rfl
    (by simp [CSystem.setNextTransition]) (by simpa [CSystem.setNextTransition] using hdepth)
    (by simp [CSystem.setNextTransition])

/-- A depth of two: the second run writes `s_stack[2]`. -/
theorem csystemRun_writes_past_state_stack_depthTwo :
    let L : Limits := ⟨1, 1, 2⟩
    let start : ThreadOperation := ⟨.start, 0⟩
    0 < L.maxTotalThreadsPerSchedule ∧ 0 < L.maxVisibleOperationDepth ∧
      (csystemInit L (.staticStorage ⟨0, .threadLifecycle start⟩) >>= fun s₀ =>
        apiRun SpecAlgebra.algebra L s₀ (.registerThread ::
          .setNextTransition 0 ⟨0, .threadLifecycle start⟩ ::
          List.replicate L.maxVisibleOperationDepth (.run 0))) =
        .error (.outOfBounds .sStack L.maxVisibleOperationDepth) :=
  ⟨by decide, by decide, csystemRun_writes_past_state_stack (by decide) (by decide) _ _⟩

end Overflow

end McMini.ConcurrentSystem
