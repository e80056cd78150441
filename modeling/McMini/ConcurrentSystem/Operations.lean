/-
# Operations of the concurrent system

The functions of `concurrent_system.c` that grow and shrink the two stacks,
apply a transition to the shadow mutexes and revert it, register threads, and
read the next-transition table. Each is written in the order the C body runs,
including where it writes before it checks. The predicates the C file calls but
does not define (`transition_enabled`, `transitions_coenabled`,
`transitions_dependent`) form the parameter `TransitionAlgebra`; every result
of the project holds for each choice of them.

Beside each function stands its spec lemma: the exact condition under which it
returns normally and the state it then returns. Later modules use those and
never unfold the functions.
-/

import McMini.ConcurrentSystem.Basic

namespace McMini.ConcurrentSystem

/-- The transition predicates `concurrent_system.c` calls but does not define.
`transition_enabled` receives only a transition and reads the global system,
so here it also receives the system record. -/
structure TransitionAlgebra where
  transitionEnabled : CSystem → Transition → Bool
  transitionsCoenabled : Transition → Transition → Bool
  transitionsDependent : Transition → Transition → Bool

namespace MutexStore

/-- `shadow->state = state` on the shadow the map gives for `a`, as the lock and
unlock cases of `csystem_virtually_apply_mutex_operation` do. -/
def setShadowState (m : MutexStore) (a : Addr) (state : MutexState) :
    Except Fault MutexStore := do
  let slot ← m.getShadow a
  pure { m with locks := Function.update m.locks slot { m.locks slot with state } }

theorem setShadowState_eq_ok {m m' : MutexStore} {a : Addr} {state : MutexState} :
    m.setShadowState a state = .ok m' ↔ ∃ slot, m.mutexMap a = some slot ∧
      m' = { m with locks := Function.update m.locks slot { m.locks slot with state } } := by
  simp only [setShadowState, except_bind_eq_ok, except_pure_eq_ok, getShadow_eq_ok]
  exact exists_congr fun _ => and_congr_right fun _ => eq_comm

end MutexStore

section Mutexes

variable (L : Limits)

/-- `csystem_virtually_apply_mutex_operation`. An init takes the next slot of
`locks`, copies the operation's mutex into it and maps the system mutex to it. -/
def csystemVirtuallyApplyMutexOperation (m : MutexStore) (mutop : MutexOperation) :
    Except Fault MutexStore :=
  match mutop.type with
  | .init => do
      let slot := m.mutNext + 1
      let locks ← storeSlot .locks L.maxMutexObjectCount m.locks slot mutop.mutex
      pure ⟨slot, Function.update m.mutexMap mutop.mutex.mutex (some slot.toNat), locks⟩
  | .lock => m.setShadowState mutop.mutex.mutex .locked
  | .unlock => m.setShadowState mutop.mutex.mutex .unlocked

/-- `csystem_virtually_apply_transition`; the thread-lifecycle case,
`csystem_virtually_apply_thread_operation`, has an empty body. -/
def csystemVirtuallyApplyTransition (m : MutexStore) (t : Transition) :
    Except Fault MutexStore :=
  match t.operation with
  | .mutex op => csystemVirtuallyApplyMutexOperation L m op
  | .threadLifecycle _ => pure m

/-- `csystem_virtually_revert_mutex_operation`. An init is undone only when the
recorded shadow was `MUTEX_UNKNOWN`: the entry is removed and the slot handed
back. Any other operation restores the shadow from the recorded copy. -/
def csystemVirtuallyRevertMutexOperation (m : MutexStore) (mutop : MutexOperation) :
    Except Fault MutexStore :=
  match mutop.type with
  | .init =>
      if mutop.mutex.state = .unknown then
        pure { m with mutexMap := Function.update m.mutexMap mutop.mutex.mutex none,
                      mutNext := m.mutNext - 1 }
      else pure m
  | _ => do
      let slot ← m.getShadow mutop.mutex.mutex
      pure { m with locks := Function.update m.locks slot mutop.mutex }

end Mutexes

/-- The shadow-mutex half of `csystem_virtually_revert_transition`: its switch on
the operation type. `csystem_virtually_revert_thread_operation` has an empty
body. -/
def csystemVirtuallyRevertOperation (m : MutexStore) (t : Transition) : Except Fault MutexStore :=
  match t.operation with
  | .mutex op => csystemVirtuallyRevertMutexOperation m op
  | .threadLifecycle _ => pure m

/-- `csystem_virtually_revert_transition`: the reverted transition becomes its
thread's next transition again, then its effect on the mutexes is undone. -/
def csystemVirtuallyRevertTransition (s : CSystem) (t : Transition) : Except Fault CSystem := do
  let s := { s with tNext := Function.update s.tNext t.thread t }
  let mutexes ← csystemVirtuallyRevertOperation s.mutexes t
  pure { s with mutexes }

section Stacks

variable (L : Limits)

/-- `csystem_grow_state_stack`: the new item is written before the bound is
checked, and the check admits a top equal to `MAX_VISIBLE_OPERATION_DEPTH`. -/
def csystemGrowStateStack (s : CSystem) : Except Fault CSystem := do
  let top := s.sStackTop + 1
  let sStack ← storeSlot .sStack L.maxVisibleOperationDepth s.sStack top .empty
  mcAssert (top ≤ L.maxVisibleOperationDepth)
  pure { s with sStackTop := top, sStack }

/-- `csystem_shrink_state_stack`, returning the slot of the popped item. -/
def csystemShrinkStateStack (s : CSystem) : Except Fault (CSystem × Nat) := do
  mcAssert (0 ≤ s.sStackTop)
  pure ({ s with sStackTop := s.sStackTop - 1 }, s.sStackTop.toNat)

/-- `csystem_grow_transition_stack_restore`: push `t`, applying it to the
shadow mutexes first. The bound check admits a top equal to
`MAX_VISIBLE_OPERATION_DEPTH`. -/
def csystemGrowTransitionStackRestore (s : CSystem) (t : Transition) : Except Fault CSystem := do
  let top := s.tStackTop + 1
  mcAssert (top ≤ L.maxVisibleOperationDepth)
  let mutexes ← csystemVirtuallyApplyTransition L s.mutexes t
  let tStack ← storeSlot .tStack L.maxVisibleOperationDepth s.tStack top t
  pure { s with tStackTop := top, mutexes, tStack }

/-- `csystem_grow_transition_stack`: the same push, of the thread's slot in
`t_next`. -/
def csystemGrowTransitionStack (s : CSystem) (thread : Tid) : Except Fault CSystem :=
  csystemGrowTransitionStackRestore L s (s.tNext thread)

/-- `csystem_shrink_transition_stack`: pop the top transition and revert it. The
transition stays in its slot; the C function returns a pointer to it. -/
def csystemShrinkTransitionStack (s : CSystem) : Except Fault (CSystem × Transition) := do
  mcAssert (0 ≤ s.tStackTop)
  let tTop := s.tStack s.tStackTop.toNat
  let s ← csystemVirtuallyRevertTransition { s with tStackTop := s.tStackTop - 1 } tTop
  pure (s, tTop)

/-- `csystem_state_stack_top`, returning the slot of the top item. -/
def csystemStateStackTop (s : CSystem) : Except Fault Nat := do
  mcAssert (0 ≤ s.sStackTop ∧ s.sStackTop < L.maxVisibleOperationDepth)
  pure s.sStackTop.toNat

/-- `csystem_transition_stack_get_element`. -/
def csystemTransitionStackGetElement (s : CSystem) (i : Int) : Except Fault Transition := do
  mcAssert (0 ≤ i ∧ i < L.maxVisibleOperationDepth)
  pure (s.tStack i.toNat)

/-- `csystem_transition_stack_is_empty`. -/
def csystemTransitionStackIsEmpty (s : CSystem) : Bool :=
  decide (s.tStackTop < 0)

/-- `csystem_transition_stack_top`: `NULL` on an empty stack, else the element
at `t_stack_top`, through the bound check of
`csystem_transition_stack_get_element`. -/
def csystemTransitionStackTop (s : CSystem) : Except Fault (Option Transition) :=
  if csystemTransitionStackIsEmpty s then pure none
  else some <$> csystemTransitionStackGetElement L s s.tStackTop

/-- `csystem_run`: push the thread's next transition, then a new state. -/
def csystemRun (s : CSystem) (thread : Tid) : Except Fault CSystem := do
  let s ← csystemGrowTransitionStack L s thread
  csystemGrowStateStack L s

theorem csystemGrowStateStack_eq_ok {s s' : CSystem} :
    csystemGrowStateStack L s = .ok s' ↔
      (0 ≤ s.sStackTop + 1 ∧ s.sStackTop + 1 < L.maxVisibleOperationDepth) ∧
      s' = { s with sStackTop := s.sStackTop + 1,
                    sStack := Function.update s.sStack (s.sStackTop + 1).toNat .empty } := by
  simp only [csystemGrowStateStack, except_bind_eq_ok, storeSlot_eq_ok, mcAssert_eq_ok,
    except_pure_eq_ok]
  constructor
  · rintro ⟨_, ⟨hbound, rfl⟩, _, -, rfl⟩
    exact ⟨hbound, rfl⟩
  · rintro ⟨hbound, rfl⟩
    exact ⟨_, ⟨hbound, rfl⟩, (), by omega, rfl⟩

theorem csystemGrowTransitionStackRestore_eq_ok {s s' : CSystem} {t : Transition} :
    csystemGrowTransitionStackRestore L s t = .ok s' ↔
      (0 ≤ s.tStackTop + 1 ∧ s.tStackTop + 1 < L.maxVisibleOperationDepth) ∧
      ∃ mutexes, csystemVirtuallyApplyTransition L s.mutexes t = .ok mutexes ∧
        s' = { s with tStackTop := s.tStackTop + 1, mutexes,
                      tStack := Function.update s.tStack (s.tStackTop + 1).toNat t } := by
  simp only [csystemGrowTransitionStackRestore, except_bind_eq_ok, storeSlot_eq_ok,
    mcAssert_eq_ok, except_pure_eq_ok]
  constructor
  · rintro ⟨_, -, mutexes, happly, _, ⟨hbound, rfl⟩, rfl⟩
    exact ⟨hbound, mutexes, happly, rfl⟩
  · rintro ⟨hbound, mutexes, happly, rfl⟩
    exact ⟨(), by omega, mutexes, happly, _, ⟨hbound, rfl⟩, rfl⟩

theorem csystemShrinkTransitionStack_eq_ok {s s' : CSystem} {t : Transition} :
    csystemShrinkTransitionStack s = .ok (s', t) ↔
      0 ≤ s.tStackTop ∧ t = s.tStack s.tStackTop.toNat ∧
      ∃ mutexes, csystemVirtuallyRevertOperation s.mutexes t = .ok mutexes ∧
        s' = { s with tStackTop := s.tStackTop - 1, mutexes,
                      tNext := Function.update s.tNext t.thread t } := by
  simp only [csystemShrinkTransitionStack, csystemVirtuallyRevertTransition, except_bind_eq_ok,
    mcAssert_eq_ok, except_pure_eq_ok, Prod.mk.injEq]
  constructor
  · rintro ⟨_, htop, _, ⟨mutexes, hrevert, rfl⟩, rfl, rfl⟩
    exact ⟨htop, rfl, mutexes, hrevert, rfl⟩
  · rintro ⟨htop, rfl, mutexes, hrevert, rfl⟩
    exact ⟨(), htop, _, ⟨mutexes, hrevert, rfl⟩, rfl, rfl⟩

end Stacks

section Threads

variable (L : Limits)

/-- `csystem_init`. The previous contents of the arrays, and the backtracking
flag, stay as they were; the first state is then pushed. -/
def csystemInit (s : CSystem) : Except Fault CSystem :=
  csystemGrowStateStack L
    { s with tidNext := 0, tStackTop := -1, sStackTop := -1,
             mutexes := { s.mutexes with mutNext := -1, mutexMap := fun _ => none } }

/-- `csystem_reset`: the two hash tables are destroyed and `csystem_init` makes
new ones. -/
def csystemReset (s : CSystem) : Except Fault CSystem :=
  csystemInit L s

/-- `csystem_register_thread`: the next thread slot, written without a bound
check. -/
def csystemRegisterThread (s : CSystem) : Except Fault (CSystem × Tid) := do
  let self := s.tidNext
  let threads ← storeSlot .threads L.maxTotalThreadsPerSchedule s.threads self ⟨self, true⟩
  pure ({ s with tidNext := self + 1, threads }, self)

theorem csystemRegisterThread_eq_ok {s s' : CSystem} {tid : Tid} :
    csystemRegisterThread L s = .ok (s', tid) ↔
      s.tidNext < L.maxTotalThreadsPerSchedule ∧ tid = s.tidNext ∧
        s' = { s with tidNext := s.tidNext + 1,
                      threads := Function.update s.threads s.tidNext ⟨s.tidNext, true⟩ } := by
  simp only [csystemRegisterThread, except_bind_eq_ok, storeSlot_eq_ok, except_pure_eq_ok,
    Prod.mk.injEq, Int.toNat_ofNat]
  constructor
  · rintro ⟨_, ⟨⟨-, hlt⟩, rfl⟩, rfl, rfl⟩
    exact ⟨by exact_mod_cast hlt, rfl, rfl⟩
  · rintro ⟨hlt, rfl, rfl⟩
    exact ⟨_, ⟨⟨by omega, by exact_mod_cast hlt⟩, rfl⟩, rfl, rfl⟩

/-- `csystem_register_main_thread`. `TID_MAIN_THREAD` is defined outside the
sources, so it is a parameter. -/
def csystemRegisterMainThread (tidMainThread : Tid) (s : CSystem) : Except Fault (CSystem × Tid) := do
  let (s, main) ← csystemRegisterThread L s
  mcAssert (main = tidMainThread)
  pure (s, tidMainThread)

/-- `csystem_get_thread_with_tid`. Model tids are naturals, so its
`TID_INVALID` branch cannot be taken. -/
def csystemGetThreadWithTid (s : CSystem) (tid : Tid) : Thread :=
  s.threads tid

/-- What a caller outside the sources does with the slot
`csystem_get_transition_slot_for_tid` returns: store the thread's next
transition. -/
def CSystem.setNextTransition (s : CSystem) (tid : Tid) (t : Transition) : CSystem :=
  { s with tNext := Function.update s.tNext tid t }

end Threads

section NextTable

variable (A : TransitionAlgebra) (L : Limits)

/-- `csystem_copy_enabled_transitions`: the enabled next transitions of the
registered threads, in tid order. -/
def csystemCopyEnabledTransitions (s : CSystem) : List Transition :=
  ((List.range s.tidNext).map s.tNext).filter (A.transitionEnabled s)

/-- `csystem_copy_per_thread_transitions`: the next transitions of the
registered threads. -/
def csystemCopyPerThreadTransitions (s : CSystem) : List Transition :=
  (List.range s.tidNext).map s.tNext

/-- `__csystem_replace_per_thread_transitions_for_backtracking`: write back the
first `tid_next` entries of a saved copy. -/
def csystemReplacePerThreadTransitionsForBacktracking (s : CSystem) (saved : List Transition) :
    CSystem :=
  { s with tNext := fun tid => if tid < s.tidNext then saved.getD tid (s.tNext tid) else s.tNext tid }

/-- `csystem_get_first_enabled_transition`: the first enabled slot of `t_next`,
scanning all `MAX_TOTAL_THREADS_PER_SCHEDULE` of them. -/
def csystemGetFirstEnabledTransition (s : CSystem) : Option Tid :=
  (List.range L.maxTotalThreadsPerSchedule).find? fun i => A.transitionEnabled s (s.tNext i)

end NextTable

end McMini.ConcurrentSystem
