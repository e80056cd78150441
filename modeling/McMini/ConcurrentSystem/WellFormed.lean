/-
# The concurrent system stays well formed

Whatever a scheduler calls, and in whatever order, every state it reaches from
`csystem_init` without a fault is well formed: each registered thread is alive
and carries its own tid, every live shadow lies inside `locks`, both stack tops
lie within their arrays, the state stack is never empty and has at most one
more state than there are transitions, and every item on it has an empty done
set and a duplicate-free backtrack set.

No call marks a thread dead, and nothing inserts into a done set, so the DPOR
test against the done set of the design never excludes a thread. The state
stack can fall behind the transition stack: an update whose scan stops early
pushes one transition more than it popped (`BacktrackStop`).

The invariant needs nothing of the calls, unlike the transition-stack invariant
of `Reachable`, and nothing of the predicates of `TransitionAlgebra`.
-/

import Mathlib.Data.List.Nodup
import McMini.ConcurrentSystem.Api
import McMini.ConcurrentSystem.BacktrackStop

namespace McMini.ConcurrentSystem

namespace MutexStore

/-- Every shadow the map hands out is a slot of `locks`, so the writes through
it stay within the array. -/
def InBounds (L : Limits) (m : MutexStore) : Prop :=
  ∀ a slot, m.mutexMap a = some slot → slot < L.maxMutexObjectCount

variable {L : Limits} {m m' : MutexStore} {t : Transition}

theorem InBounds.setShadowState {a : Addr} {state : MutexState} (hm : m.InBounds L)
    (h : m.setShadowState a state = .ok m') : m'.InBounds L := by
  obtain ⟨-, -, rfl⟩ := setShadowState_eq_ok.mp h
  exact hm

theorem InBounds.apply (hm : m.InBounds L) (h : csystemVirtuallyApplyTransition L m t = .ok m') :
    m'.InBounds L := by
  unfold csystemVirtuallyApplyTransition csystemVirtuallyApplyMutexOperation at h
  split at h
  · split at h
    · obtain ⟨locks, hstore, h⟩ := except_bind_eq_ok.mp h
      obtain ⟨⟨h0, hlt⟩, -⟩ := storeSlot_eq_ok.mp hstore
      cases except_pure_eq_ok.mp h
      intro a slot hslot
      simp only [Function.update_apply] at hslot
      split at hslot
      · cases hslot
        omega
      · exact hm a slot hslot
    · exact hm.setShadowState h
    · exact hm.setShadowState h
  · cases h
    exact hm

theorem InBounds.revert (hm : m.InBounds L) (h : csystemVirtuallyRevertOperation m t = .ok m') :
    m'.InBounds L := by
  unfold csystemVirtuallyRevertOperation csystemVirtuallyRevertMutexOperation at h
  split at h
  · split at h
    · split at h
      · cases h
        intro a slot hslot
        simp only [Function.update_apply] at hslot
        split at hslot
        · cases hslot
        · exact hm a slot hslot
      · cases h
        exact hm
    all_goals
      simp only [except_bind_eq_ok, except_pure_eq_ok] at h
      obtain ⟨slot, -, rfl⟩ := h
      exact hm
  · cases h
    exact hm

end MutexStore

namespace StateStackItem

/-- An item as the code leaves it: nothing inserts into the done set, and the
backtrack set is a hash set. -/
def WellFormed (item : StateStackItem) : Prop :=
  item.doneSet = [] ∧ item.backtrackSet.Nodup

theorem wellFormed_empty : StateStackItem.empty.WellFormed := ⟨rfl, List.nodup_nil⟩

theorem WellFormed.addBacktrack {item : StateStackItem} (h : item.WellFormed) (tids : List Tid) :
    (item.addBacktrack tids).WellFormed := by
  induction tids generalizing item with
  | nil => exact h
  | cons t ts ih =>
      exact ih (show StateStackItem.WellFormed ⟨item.backtrackSet.insert t, item.doneSet⟩ from
        ⟨h.1, h.2.insert⟩)

end StateStackItem

/-- What every state reached from `csystem_init` satisfies, whatever the calls. -/
structure WellFormed (L : Limits) (s : CSystem) : Prop where
  /-- Thread slots are handed out within the thread array. -/
  tidNext_le : s.tidNext ≤ L.maxTotalThreadsPerSchedule
  /-- Each registered thread is alive and carries its own tid. -/
  registered : ∀ tid < s.tidNext, csystemGetThreadWithTid s tid = ⟨tid, true⟩
  /-- Every live shadow lies inside `locks`. -/
  mutexes_inBounds : s.mutexes.InBounds L
  /-- The state stack is never empty. -/
  sStackTop_nonneg : 0 ≤ s.sStackTop
  sStackTop_lt : s.sStackTop < L.maxVisibleOperationDepth
  tStackTop_lt : s.tStackTop < L.maxVisibleOperationDepth
  /-- At most one more state than transitions. -/
  sStackTop_le : s.sStackTop ≤ s.tStackTop + 1
  /-- Every item on the state stack is as the code leaves it. -/
  items : ∀ j : Nat, (j : Int) ≤ s.sStackTop → (s.sStack j).WellFormed

namespace WellFormed

variable {A : TransitionAlgebra} {L : Limits} {s s' : CSystem}

theorem tStackTop_ge (h : WellFormed L s) : -1 ≤ s.tStackTop := by
  have := h.sStackTop_nonneg
  have := h.sStackTop_le
  omega

/-- Adding threads to the backtrack set of the top item keeps every item well
formed. -/
theorem items_addBacktrack (h : WellFormed L s) (tids : List Tid) :
    ∀ j : Nat, (j : Int) ≤ s.sStackTop →
      (Function.update s.sStack s.sStackTop.toNat
        ((s.sStack s.sStackTop.toNat).addBacktrack tids) j).WellFormed := by
  intro j hj
  rw [Function.update_apply]
  split
  · subst j
    exact (h.items _ (by omega)).addBacktrack tids
  · exact h.items j hj

theorem of_csystemInit {m : CSystem} (h : csystemInit L m = .ok s) : WellFormed L s := by
  obtain ⟨⟨-, hmax⟩, rfl⟩ := (csystemGrowStateStack_eq_ok L).mp h
  refine ⟨Nat.zero_le _, fun _ h => absurd h (Nat.not_lt_zero _), (fun _ _ h => nomatch h),
    by simp, by simpa using hmax, by dsimp only; omega, by simp, fun j hj => ?_⟩
  obtain rfl : j = 0 := by dsimp only at hj; omega
  simpa using StateStackItem.wellFormed_empty

theorem of_registerThread (h : WellFormed L s) {tid : Tid} (hreg : csystemRegisterThread L s = .ok (s', tid)) :
    WellFormed L s' := by
  obtain ⟨hlt, -, rfl⟩ := (csystemRegisterThread_eq_ok L).mp hreg
  refine { h with tidNext_le := hlt, registered := fun u hu => ?_ }
  simp only [csystemGetThreadWithTid, Function.update_apply]
  split
  · subst u
    rfl
  · exact h.registered u (by dsimp only at hu; omega)

theorem of_run (h : WellFormed L s) {tid : Tid} (hrun : csystemRun L s tid = .ok s') :
    WellFormed L s' := by
  obtain ⟨s₁, hgrow, hstate⟩ := except_bind_eq_ok.mp hrun
  obtain ⟨⟨-, htop⟩, mutexes, happly, rfl⟩ := (csystemGrowTransitionStackRestore_eq_ok L).mp hgrow
  obtain ⟨⟨-, hstop⟩, rfl⟩ := (csystemGrowStateStack_eq_ok L).mp hstate
  have hle := h.sStackTop_le
  have hnonneg := h.sStackTop_nonneg
  refine ⟨h.tidNext_le, h.registered, h.mutexes_inBounds.apply happly, by dsimp only; omega, hstop,
    htop, by dsimp only; omega, fun j hj => ?_⟩
  simp only [Function.update_apply]
  split
  · exact StateStackItem.wellFormed_empty
  · exact h.items j (by dsimp only at hj; omega)

theorem of_dynamicallyUpdateBacktrackSets (h : WellFormed L s)
    (hupdate : csystemDynamicallyUpdateBacktrackSets A L s = .ok s') : WellFormed L s' := by
  obtain ⟨-, hmax, k, mutexes, tNext, tids, hin, -, hk, ⟨-, rfl⟩ | ⟨-, rfl⟩⟩ :=
    csystemDynamicallyUpdateBacktrackSets_eq_ok (MutexStore.InBounds L) MutexStore.InBounds.revert
      MutexStore.InBounds.apply h.mutexes_inBounds hupdate
  · exact { h with mutexes_inBounds := hin, items := h.items_addBacktrack tids }
  · have hle := h.sStackTop_le
    exact { h with mutexes_inBounds := hin, tStackTop_lt := hmax, sStackTop_le := by dsimp only; omega,
                   items := h.items_addBacktrack tids }

/-- The step lemma: every call that returns keeps the system well formed. -/
theorem of_apiStep (h : WellFormed L s) {c : ApiCall} (hstep : apiStep A L s c = .ok s') :
    WellFormed L s' := by
  cases c with
  | registerThread =>
      obtain ⟨⟨s₁, tid⟩, hreg, rfl⟩ := except_map_eq_ok.mp hstep
      exact h.of_registerThread hreg
  | setNextTransition tid t =>
      cases hstep
      exact ⟨h.1, h.2, h.3, h.4, h.5, h.6, h.7, h.8⟩
  | run tid => exact h.of_run hstep
  | dynamicallyUpdateBacktrackSets => exact h.of_dynamicallyUpdateBacktrackSets hstep
  | reset => exact .of_csystemInit hstep

/-- The run lemma. -/
theorem of_apiRun (calls : List ApiCall) :
    ∀ {s s' : CSystem}, WellFormed L s → apiRun A L s calls = .ok s' → WellFormed L s' := by
  induction calls with
  | nil =>
      intro s s' h hrun
      cases hrun
      exact h
  | cons c cs ih =>
      intro s s' h hrun
      obtain ⟨s₁, hstep, hrest⟩ := except_bind_eq_ok.mp hrun
      exact ih (h.of_apiStep hstep) hrest

/-- `csystem_state_stack_top` returns the top item without failing its assertion. -/
theorem csystemStateStackTop_eq (h : WellFormed L s) :
    csystemStateStackTop L s = .ok s.sStackTop.toNat := by
  simp [csystemStateStackTop, mcAssert, h.sStackTop_nonneg, h.sStackTop_lt]

/-- `csystem_transition_stack_top` returns `NULL` or the top transition without
failing the assertion of `csystem_transition_stack_get_element`. -/
theorem csystemTransitionStackTop_eq (h : WellFormed L s) :
    csystemTransitionStackTop L s =
      .ok (if s.tStackTop < 0 then none else some (s.tStack s.tStackTop.toNat)) := by
  by_cases hneg : s.tStackTop < 0
  · simp [csystemTransitionStackTop, csystemTransitionStackIsEmpty, hneg]
  · simp [csystemTransitionStackTop, csystemTransitionStackIsEmpty, csystemTransitionStackGetElement,
      mcAssert, hneg, h.tStackTop_lt, show 0 ≤ s.tStackTop by omega]

end WellFormed

/-- From any `csystem_init`, every state that any sequence of calls reaches
without a fault is well formed, and there `csystem_state_stack_top` and
`csystem_transition_stack_top` return without failing an assertion. -/
theorem wellFormed_of_apiRun {A : TransitionAlgebra} {L : Limits} {m s₀ s : CSystem}
    (calls : List ApiCall) (hinit : csystemInit L m = .ok s₀) (hrun : apiRun A L s₀ calls = .ok s) :
    WellFormed L s ∧ csystemStateStackTop L s = .ok s.sStackTop.toNat ∧
      csystemTransitionStackTop L s =
        .ok (if s.tStackTop < 0 then none else some (s.tStack s.tStackTop.toNat)) := by
  have h := WellFormed.of_apiRun calls (.of_csystemInit hinit) hrun
  exact ⟨h, h.csystemStateStackTop_eq, h.csystemTransitionStackTop_eq⟩

/-- Two runs of thread `0`, an init and a lock of one mutex, then a backtrack
update whose scan stops with the init on the stack: the state reached has as
many states as transitions, and is well formed. -/
theorem wellFormed_of_apiRun_initLockUpdate :
    let L : Limits := ⟨1, 4, 4⟩
    let init : Transition := ⟨0, .mutex ⟨.init, ⟨5, .unknown⟩⟩⟩
    let lock : Transition := ⟨0, .mutex ⟨.lock, ⟨5, .unknown⟩⟩⟩
    let relock : Transition := ⟨0, .mutex ⟨.lock, ⟨5, .locked⟩⟩⟩
    let calls : List ApiCall := [.registerThread, .setNextTransition 0 init, .run 0,
      .setNextTransition 0 lock, .run 0, .setNextTransition 0 relock, .dynamicallyUpdateBacktrackSets]
    ∃ s₀ s, csystemInit L (.staticStorage init) = .ok s₀ ∧
      apiRun SpecAlgebra.algebra L s₀ calls = .ok s ∧ s.sStackTop = s.tStackTop ∧
      (WellFormed L s ∧ csystemStateStackTop L s = .ok s.sStackTop.toNat ∧
        csystemTransitionStackTop L s =
          .ok (if s.tStackTop < 0 then none else some (s.tStack s.tStackTop.toNat))) := by
  intro L init lock relock calls
  exact ⟨_, _, rfl, rfl, rfl,
    wellFormed_of_apiRun (A := SpecAlgebra.algebra) (m := .staticStorage init) calls rfl rfl⟩

end McMini.ConcurrentSystem
