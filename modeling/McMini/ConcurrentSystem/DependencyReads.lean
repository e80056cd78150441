/-
# What the update reads of the dependency relation

In the loop over `i` of `csystem_dynamically_update_backtrack_sets`, `S_i` is
popped before the loop over `tid` runs, so `t_stack_top` is `i - 1` there.
`happens_before_thread(ref, i, tid)` scans the positions `i … t_stack_top`, and
`csystem_p_q_could_race(ref, i, q, p)` the positions `i + 1 … t_stack_top`:
both ranges are empty. The update therefore reads `transitions_dependent` and
`transitions_co_enabled` only between a popped `S_i` and a transition pending
at the top, and never between two transitions of the stack.

This module proves it as an independence result: two algebras with the same
enabledness that agree wherever a transition meets a pending one give the same
update, from every state. It is stated as the code computes it, not as DPOR
intends it.
-/

import McMini.ConcurrentSystem.BacktrackStop

namespace McMini.ConcurrentSystem

/-- `A` and `B` relate every transition to `u` alike. -/
def TransitionAlgebra.AgreeOn (A B : TransitionAlgebra) (u : Transition) : Prop :=
  ∀ t, A.transitionsCoenabled t u = B.transitionsCoenabled t u ∧
    A.transitionsDependent t u = B.transitionsDependent t u

/-- A pair the lookup finds is in the list. -/
theorem mem_of_lookup_eq_some {l : PendingMap} {tid : Tid} {t : Transition}
    (h : l.lookup tid = some t) : (tid, t) ∈ l := by
  induction l with
  | nil => cases h
  | cons q l ih =>
      rw [List.lookup_cons] at h
      split at h
      · cases h
        rename_i heq
        rw [show tid = q.1 from beq_iff_eq.mp heq]
        exact List.mem_cons_self _ _
      · exact List.mem_cons_of_mem _ (ih h)

/-- Whatever the loop body returns keeps only pairs it was given. -/
theorem updateBacktrackSetForThread_pending {A : TransitionAlgebra} {i : Nat} {Si : Transition}
    {sTopI : Nat} {st st' : CSystem × PendingMap} {tid : Tid}
    (h : updateBacktrackSetForThread A i Si sTopI st tid = .ok st') : ∀ q ∈ st'.2, q ∈ st.2 := by
  unfold updateBacktrackSetForThread at h
  split at h
  · cases h
    exact fun _ => id
  · split at h
    · simp only [except_bind_eq_ok, except_pure_eq_ok] at h
      obtain ⟨-, -, rfl⟩ := h
      exact fun _ hq => (List.mem_filter.mp hq).1
    · cases h
      exact fun _ => id

theorem foldlM_updateBacktrackSetForThread_pending {A : TransitionAlgebra} {i : Nat}
    {Si : Transition} {sTopI : Nat} (tids : List Tid) :
    ∀ {st st' : CSystem × PendingMap},
      tids.foldlM (updateBacktrackSetForThread A i Si sTopI) st = .ok st' → ∀ q ∈ st'.2, q ∈ st.2 := by
  induction tids with
  | nil =>
      intro st st' h
      cases h
      exact fun _ => id
  | cons tid tids ih =>
      intro st st' h
      obtain ⟨st₁, hstep, hrest⟩ := except_bind_eq_ok.mp h
      exact fun q hq => updateBacktrackSetForThread_pending hstep q (ih hrest q hq)

/-- Binding the same computation to two continuations that agree on its results. -/
theorem except_bind_congr {ε α β : Type} {x : Except ε α} {f g : α → Except ε β}
    (h : ∀ a, x = .ok a → f a = g a) : x >>= f = x >>= g := by
  cases x with
  | error => rfl
  | ok a => exact h a rfl

section Congr

variable {A B : TransitionAlgebra} {L : Limits}
  (henabled : A.transitionEnabled = B.transitionEnabled)

/-- On a stack whose top is not above `i`, no `S_j` with `j > i` is left to race. -/
theorem csystemPQCouldRace_of_top_le {x : CSystem} {i : Nat} (htop : x.tStackTop ≤ i) (q p : Tid) :
    csystemPQCouldRace A x i q p = csystemPQCouldRace B x i q p := by
  simp only [csystemPQCouldRace, show (x.tStackTop + 1).toNat - (i + 1) = 0 by omega,
    List.range'_zero, List.any_nil]

theorem findThreadInE_of_top_le {x : CSystem} {i : Nat} (htop : x.tStackTop ≤ i) (p : Tid) :
    ∀ qs, findThreadInE A x i p qs = findThreadInE B x i p qs
  | [] => rfl
  | qt :: qs => by
      simp only [findThreadInE, csystemPQCouldRace_of_top_le (B := B) htop,
        findThreadInE_of_top_le htop p qs]

include henabled

theorem csystemCopyEnabledTransitions_congr (x : CSystem) :
    csystemCopyEnabledTransitions A x = csystemCopyEnabledTransitions B x := by
  simp only [csystemCopyEnabledTransitions, henabled]

theorem enabledTransitionMap_congr (x : CSystem) (n : Nat) :
    enabledTransitionMap A x n = enabledTransitionMap B x n := by
  simp only [enabledTransitionMap, henabled]

/-- The loop body after the pop: its happens-before test finds an empty range,
so it reads the algebras only on the pending transition of `tid`. -/
theorem updateBacktrackSetForThread_congr {i : Nat} {Si : Transition} {sTopI : Nat}
    {st : CSystem × PendingMap} (tid : Tid) (htop : st.1.tStackTop < i)
    (hpend : ∀ q ∈ st.2, A.AgreeOn B q.2) :
    updateBacktrackSetForThread A i Si sTopI st tid =
      updateBacktrackSetForThread B i Si sTopI st tid := by
  unfold updateBacktrackSetForThread
  split
  · rfl
  · rename_i next hnext
    obtain ⟨hco, hdep⟩ := hpend _ (mem_of_lookup_eq_some hnext) Si
    simp only [hco, hdep, happensBeforeThread_of_top_lt (A := A) tid htop,
      happensBeforeThread_of_top_lt (A := B) tid htop, csystemCopyEnabledTransitions_congr henabled,
      findThreadInE_of_top_le (A := A) (B := B) (x := st.1) (i := i) (by omega)]

theorem foldlM_updateBacktrackSetForThread_congr {i : Nat} {Si : Transition} {sTopI : Nat}
    (tids : List Tid) :
    ∀ {st : CSystem × PendingMap}, st.1.tStackTop < i → (∀ q ∈ st.2, A.AgreeOn B q.2) →
      tids.foldlM (updateBacktrackSetForThread A i Si sTopI) st =
        tids.foldlM (updateBacktrackSetForThread B i Si sTopI) st := by
  induction tids with
  | nil => exact fun _ _ => rfl
  | cons tid tids ih =>
      intro st htop hpend
      simp only [List.foldlM_cons]
      rw [updateBacktrackSetForThread_congr henabled tid htop hpend]
      refine except_bind_congr fun st' hstep => ih ?_ ?_
      · obtain ⟨_, hst'⟩ := updateBacktrackSetForThread_eq_ok hstep
        rw [hst']
        exact htop
      · exact fun q hq => hpend q (updateBacktrackSetForThread_pending hstep q hq)

/-- The scan with `m` iterations left, from a stack whose top is below `m`: each
pop leaves the top below the position the loop body then tests. -/
theorem scanTransitionStack_congr (threadCount m : Nat) :
    ∀ {x : CSystem} {pending : PendingMap}, x.tStackTop < m → (∀ q ∈ pending, A.AgreeOn B q.2) →
      scanTransitionStack A L threadCount m x pending =
        scanTransitionStack B L threadCount m x pending := by
  induction m with
  | zero => exact fun _ _ => rfl
  | succ i ih =>
      intro x pending htop hpend
      simp only [scanTransitionStack]
      refine except_bind_congr fun ⟨x₁, t⟩ hpop => except_bind_congr fun _ _ => ?_
      obtain ⟨-, -, mutexes, -, rfl⟩ := csystemShrinkTransitionStack_eq_ok.mp hpop
      split
      · rfl
      · rw [foldlM_updateBacktrackSetForThread_congr henabled _ (by dsimp only; omega) hpend]
        refine except_bind_congr fun st hfold => ih ?_ ?_
        · obtain ⟨_, hst⟩ := foldlM_updateBacktrackSetForThread_eq_ok _ hfold
          rw [hst]
          dsimp only
          omega
        · exact fun q hq => hpend q (foldlM_updateBacktrackSetForThread_pending _ hfold q hq)

end Congr

/-- `csystem_dynamically_update_backtrack_sets` reads the dependency and
co-enabledness predicates only between a popped transition and a transition
pending at the top: two algebras with the same enabledness that agree there
give the same update, from every state, however they relate the transitions of
the stack among themselves. `happens_before`, `happens_before_thread` and
`csystem_p_q_could_race`, which compare transitions of the stack, never change
its result. -/
theorem csystemDynamicallyUpdateBacktrackSets_ignores_stack_dependencies
    {A B : TransitionAlgebra} {L : Limits} {s : CSystem}
    (henabled : A.transitionEnabled = B.transitionEnabled)
    (hpending : ∀ tid < s.tidNext, A.AgreeOn B (s.tNext tid)) :
    csystemDynamicallyUpdateBacktrackSets A L s = csystemDynamicallyUpdateBacktrackSets B L s := by
  simp only [csystemDynamicallyUpdateBacktrackSets]
  refine except_bind_congr fun sb hstart => ?_
  simp only [csystemStartBacktrack, except_bind_eq_ok, mcAssert_eq_ok, except_pure_eq_ok] at hstart
  obtain ⟨-, -, rfl⟩ := hstart
  rw [enabledTransitionMap_congr henabled, scanTransitionStack_congr henabled _ _ (by dsimp only; omega)]
  simp only [enabledTransitionMap, List.mem_map, List.mem_filter, List.mem_range]
  rintro _ ⟨tid, ⟨htid, -⟩, rfl⟩
  exact hpending tid htid

/-- Init and lock of one mutex by thread `0`, whose next transition locks it
again, under the design's algebra and under one that makes every pair not
ending in that relock independent. The two relate `S_0` to thread `0`
differently, and give the same update. -/
theorem csystemDynamicallyUpdateBacktrackSets_ignores_stack_dependencies_initLock :
    let L : Limits := ⟨1, 4, 4⟩
    let init : Transition := ⟨0, .mutex ⟨.init, ⟨5, .unknown⟩⟩⟩
    let lock : Transition := ⟨0, .mutex ⟨.lock, ⟨5, .unknown⟩⟩⟩
    let relock : Transition := ⟨0, .mutex ⟨.lock, ⟨5, .locked⟩⟩⟩
    let B : TransitionAlgebra := { SpecAlgebra.algebra with
      transitionsDependent := fun t u => u == relock && SpecAlgebra.algebra.transitionsDependent t u }
    ∃ s₀ s₁, csystemInit L (.staticStorage init) = .ok s₀ ∧ RecordedRun L s₀ [init, lock] s₁ ∧
      let s : CSystem := { s₁ with tidNext := 1, tNext := fun _ => relock }
      happensBeforeThread SpecAlgebra.algebra s 0 0 = true ∧ happensBeforeThread B s 0 0 = false ∧
      csystemDynamicallyUpdateBacktrackSets SpecAlgebra.algebra L s =
        csystemDynamicallyUpdateBacktrackSets B L s := by
  intro L init lock relock B
  obtain ⟨s₀, hinit, hrun⟩ :=
    RecordedRun.of_init_recordedRunEnd L (.staticStorage init) [init, lock] rfl
  refine ⟨s₀, _, hinit, hrun, rfl, rfl,
    csystemDynamicallyUpdateBacktrackSets_ignores_stack_dependencies rfl fun _ _ t => ⟨rfl, ?_⟩⟩
  simp [B]

end McMini.ConcurrentSystem
