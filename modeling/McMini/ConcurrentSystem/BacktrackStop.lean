/-
# Where the backward scan stops

`csystem_dynamically_update_backtrack_sets` pops the transition stack until
every thread enabled at the top has been handled, and `csystem_end_backtrack`
then pushes back from `cur_top` up to `detached_t_top`. When the scan popped
every transition, `cur_top` is `0` and each push writes a slot with what it
already holds. When the scan stopped with `S_0 … S_k` still on the stack,
`cur_top` is `k`: the first push reads slot `k` and writes it into slot
`k + 1`, the next reads that copy, and so on. The transition stack ends one
entry higher than it began, with `S_k` in every slot above `k`, while the state
stack keeps its height.

This module proves it of every run of the update that returns, from any state:
the shape of the scan's result, of each branch of the pushes, and of the whole
update, with what the update leaves alone.
-/

import McMini.ConcurrentSystem.BacktrackTarget

namespace McMini.ConcurrentSystem

namespace StateStackItem

@[simp] theorem addBacktrack_nil (item : StateStackItem) : item.addBacktrack [] = item := rfl

theorem addBacktrack_append (item : StateStackItem) (a b : List Tid) :
    (item.addBacktrack a).addBacktrack b = item.addBacktrack (a ++ b) := by
  simp [addBacktrack, List.foldl_append]

end StateStackItem

/-- Two rounds of insertions into item `k` are one round. -/
theorem update_addBacktrack_twice (g : Nat → StateStackItem) (k : Nat) (a b : List Tid) :
    Function.update (Function.update g k ((g k).addBacktrack a)) k
        ((Function.update g k ((g k).addBacktrack a) k).addBacktrack b) =
      Function.update g k ((g k).addBacktrack (a ++ b)) := by
  simp [StateStackItem.addBacktrack_append]

section Scan

variable {A : TransitionAlgebra} {L : Limits}

/-- One pass of the loop body adds threads to item `sTopI` and changes nothing
else. -/
theorem updateBacktrackSetForThread_eq_ok {i : Nat} {Si : Transition} {sTopI : Nat}
    {st st' : CSystem × PendingMap} {tid : Tid}
    (h : updateBacktrackSetForThread A i Si sTopI st tid = .ok st') :
    ∃ tids, st'.1 = { st.1 with
      sStack := Function.update st.1.sStack sTopI ((st.1.sStack sTopI).addBacktrack tids) } := by
  unfold updateBacktrackSetForThread at h
  split at h
  · cases h
    exact ⟨[], by rw [StateStackItem.addBacktrack_nil, Function.update_eq_self]⟩
  · split at h
    · simp only [except_bind_eq_ok, except_pure_eq_ok] at h
      obtain ⟨-, -, rfl⟩ := h
      exact ⟨_, rfl⟩
    · cases h
      exact ⟨[], by rw [StateStackItem.addBacktrack_nil, Function.update_eq_self]⟩

theorem foldlM_updateBacktrackSetForThread_eq_ok {i : Nat} {Si : Transition} {sTopI : Nat}
    (tids : List Tid) : ∀ {st st' : CSystem × PendingMap},
      tids.foldlM (updateBacktrackSetForThread A i Si sTopI) st = .ok st' →
      ∃ added, st'.1 = { st.1 with
        sStack := Function.update st.1.sStack sTopI ((st.1.sStack sTopI).addBacktrack added) } := by
  induction tids with
  | nil =>
      intro st st' h
      cases h
      exact ⟨[], by rw [StateStackItem.addBacktrack_nil, Function.update_eq_self]⟩
  | cons tid tids ih =>
      intro st st' h
      obtain ⟨st₁, hstep, hrest⟩ := except_bind_eq_ok.mp h
      obtain ⟨a, h₁⟩ := updateBacktrackSetForThread_eq_ok hstep
      obtain ⟨b, h₂⟩ := ih hrest
      refine ⟨a ++ b, ?_⟩
      rw [h₂, h₁]
      simp only [update_addBacktrack_twice]

/-- The backward scan with `m` iterations left, from any state. It adds threads
to the item at the state-stack top, reverts what it pops, and changes nothing
else. With no iteration it returns its state; otherwise it ends strictly lower
than it began, and not below empty, since each pop checks the stack is not
empty first. `P` is any property of the store that a revert keeps. -/
theorem scanTransitionStack_eq_ok (P : MutexStore → Prop)
    (hrevert : ∀ {m m' : MutexStore} {t : Transition}, P m →
      csystemVirtuallyRevertOperation m t = .ok m' → P m')
    (threadCount m : Nat) :
    ∀ {x x' : CSystem} {pending : PendingMap}, P x.mutexes →
      scanTransitionStack A L threadCount m x pending = .ok x' →
      ∃ top mutexes tNext tids, P mutexes ∧
        x' = { x with tStackTop := top, mutexes, tNext,
                      sStack := Function.update x.sStack x.sStackTop.toNat
                        ((x.sStack x.sStackTop.toNat).addBacktrack tids) } ∧
        (m = 0 ∧ top = x.tStackTop ∨ 0 < m ∧ -1 ≤ top ∧ top < x.tStackTop) := by
  induction m with
  | zero =>
      intro x x' pending hP h
      cases h
      exact ⟨x.tStackTop, x.mutexes, x.tNext, [], hP,
        by rw [StateStackItem.addBacktrack_nil, Function.update_eq_self], .inl ⟨rfl, rfl⟩⟩
  | succ m ih =>
      intro x x' pending hP h
      obtain ⟨⟨x₁, t⟩, hpop, h⟩ := except_bind_eq_ok.mp h
      obtain ⟨htop, rfl, mutexes, hrev, rfl⟩ := csystemShrinkTransitionStack_eq_ok.mp hpop
      obtain ⟨sTopI, hslot, h⟩ := except_bind_eq_ok.mp h
      simp only [csystemStateStackTop, except_bind_eq_ok, mcAssert_eq_ok, except_pure_eq_ok] at hslot
      obtain ⟨-, -, rfl⟩ := hslot
      split at h
      · cases h
        exact ⟨x.tStackTop - 1, mutexes, _, [], hrevert hP hrev,
          by rw [StateStackItem.addBacktrack_nil, Function.update_eq_self],
          .inr ⟨by omega, by omega, by omega⟩⟩
      · obtain ⟨st, hfold, hrest⟩ := except_bind_eq_ok.mp h
        obtain ⟨a, hst⟩ := foldlM_updateBacktrackSetForThread_eq_ok _ hfold
        rw [hst] at hrest
        obtain ⟨top, mutexes', tNext, b, hP', rfl, htop'⟩ := ih (hrevert hP hrev) hrest
        refine ⟨top, mutexes', tNext, a ++ b, hP', ?_, .inr ⟨by omega, ?_⟩⟩
        · simp only [update_addBacktrack_twice]
        · rcases htop' with ⟨-, h'⟩ | ⟨-, hge, h'⟩ <;> dsimp only at h' <;> omega

end Scan

section Pushes

variable {L : Limits}

/-- The transition stack with slots `k + 1 … k + n` overwritten by slot `k`. -/
def fillAbove (stack : Nat → Transition) (k n : Nat) : Nat → Transition :=
  fun j => if k < j ∧ j ≤ k + n then stack k else stack j

@[simp] theorem fillAbove_zero (stack : Nat → Transition) (k : Nat) : fillAbove stack k 0 = stack :=
  funext fun _ => if_neg (by omega)

/-- Copying slot `k` one up, then filling `n` slots above the copy, fills `n + 1`
slots above `k`. -/
theorem fillAbove_update (stack : Nat → Transition) (k n : Nat) :
    fillAbove (Function.update stack (k + 1) (stack k)) (k + 1) n = fillAbove stack k (n + 1) := by
  funext j
  simp only [fillAbove, Function.update_apply]
  split_ifs <;> first | rfl | omega

/-- Any property of the store that an apply keeps holds after the pushes. -/
theorem restoreDetachedTransitions_mutexes (P : MutexStore → Prop)
    (happly : ∀ {m m' : MutexStore} {t : Transition}, P m →
      csystemVirtuallyApplyTransition L m t = .ok m' → P m') (n : Nat) :
    ∀ {i : Int} {x y : CSystem}, P x.mutexes → restoreDetachedTransitions L n i x = .ok y →
      P y.mutexes := by
  induction n with
  | zero =>
      intro i x y hP h
      cases h
      exact hP
  | succ n ih =>
      intro i x y hP h
      obtain ⟨x₁, hgrow, hrest⟩ := except_bind_eq_ok.mp h
      obtain ⟨-, mutexes, happ, rfl⟩ := (csystemGrowTransitionStackRestore_eq_ok L).mp hgrow
      exact ih (happly hP happ) hrest

/-- The pushes starting just above the top: each reads the slot it is about to
write, so the stack grows by `n` and keeps its contents. The last push lies
within the array. -/
theorem restoreDetachedTransitions_above (n : Nat) :
    ∀ {x y : CSystem}, restoreDetachedTransitions L n (x.tStackTop + 1) x = .ok y →
      ∃ mutexes, y = { x with tStackTop := x.tStackTop + n, mutexes } ∧
        (0 < n → x.tStackTop + n < L.maxVisibleOperationDepth) := by
  induction n with
  | zero =>
      intro x y h
      cases h
      exact ⟨x.mutexes, by simp, by omega⟩
  | succ n ih =>
      intro x y h
      obtain ⟨x₁, hgrow, hrest⟩ := except_bind_eq_ok.mp h
      obtain ⟨⟨-, hlt⟩, mutexes, -, rfl⟩ := (csystemGrowTransitionStackRestore_eq_ok L).mp hgrow
      rw [Function.update_eq_self] at hrest
      obtain ⟨mutexes', rfl, hmax⟩ := ih (x := { x with tStackTop := x.tStackTop + 1, mutexes }) hrest
      refine ⟨mutexes', ?_, fun _ => ?_⟩
      · congr 1
        dsimp only
        omega
      · rcases Nat.eq_zero_or_pos n with rfl | hn
        · simpa using hlt
        · have := hmax hn
          dsimp only at this
          omega

/-- The pushes starting at the top itself: the first reads slot `k` and writes
it above, and each later push reads the copy the previous one wrote. -/
theorem restoreDetachedTransitions_at_top (n : Nat) :
    ∀ {x y : CSystem}, 0 ≤ x.tStackTop → restoreDetachedTransitions L n x.tStackTop x = .ok y →
      ∃ mutexes, y = { x with tStackTop := x.tStackTop + n, mutexes,
                              tStack := fillAbove x.tStack x.tStackTop.toNat n } ∧
        (0 < n → x.tStackTop + n < L.maxVisibleOperationDepth) := by
  induction n with
  | zero =>
      intro x y _ h
      cases h
      exact ⟨x.mutexes, by simp, by omega⟩
  | succ n ih =>
      intro x y h0 h
      obtain ⟨x₁, hgrow, hrest⟩ := except_bind_eq_ok.mp h
      obtain ⟨⟨-, hlt⟩, mutexes, -, rfl⟩ := (csystemGrowTransitionStackRestore_eq_ok L).mp hgrow
      obtain ⟨mutexes', rfl, hmax⟩ := ih
        (x := { x with tStackTop := x.tStackTop + 1, mutexes,
                       tStack := Function.update x.tStack (x.tStackTop + 1).toNat (x.tStack x.tStackTop.toNat) })
        (by dsimp only; omega) hrest
      have hk : (x.tStackTop + 1).toNat = x.tStackTop.toNat + 1 := by omega
      refine ⟨mutexes', ?_, fun _ => ?_⟩
      · dsimp only
        rw [hk, fillAbove_update]
        congr 1
        omega
      · rcases Nat.eq_zero_or_pos n with rfl | hn
        · simpa using hlt
        · have := hmax hn
          dsimp only at this
          omega

end Pushes

section Update

variable {A : TransitionAlgebra} {L : Limits} (P : MutexStore → Prop)
  (hrevert : ∀ {m m' : MutexStore} {t : Transition}, P m →
    csystemVirtuallyRevertOperation m t = .ok m' → P m')
  (happly : ∀ {m m' : MutexStore} {t : Transition}, P m →
    csystemVirtuallyApplyTransition L m t = .ok m' → P m')

include happly in
/-- `csystem_end_backtrack`: its assertion holds, and when the stack it finds is
not below empty, the pushes either write every slot from `0` with what it holds
(the scan emptied the stack) or copy `S_k` into every slot above `k` (the scan
stopped at `k`), ending one higher than `detached_t_top`. -/
theorem csystemEndBacktrack_eq_ok {x x' : CSystem} (hP : P x.mutexes)
    (h : csystemEndBacktrack L x = .ok x') :
    x.tStackTop < x.detachedTTop ∧ (-1 ≤ x.tStackTop → ∃ mutexes, P mutexes ∧
      x'.tStackTop < L.maxVisibleOperationDepth ∧
      (x.tStackTop = -1 ∧
        x' = { x with tStackTop := x.detachedTTop, mutexes, isBacktracking := false,
                      detachedTTop := -1 } ∨
       0 ≤ x.tStackTop ∧
        x' = { x with tStackTop := x.detachedTTop + 1, mutexes,
                      tStack := fillAbove x.tStack x.tStackTop.toNat
                        (x.detachedTTop + 1 - x.tStackTop).toNat,
                      isBacktracking := false, detachedTTop := -1 })) := by
  simp only [csystemEndBacktrack, except_bind_eq_ok, mcAssert_eq_ok, except_pure_eq_ok] at h
  obtain ⟨-, -, -, hlt, y, hrestore, rfl⟩ := h
  refine ⟨hlt, fun hge => ?_⟩
  have hPy := restoreDetachedTransitions_mutexes P happly _ (x := { x with isBacktracking := false })
    hP hrestore
  by_cases hneg : x.tStackTop < 0
  · have htop : x.tStackTop = -1 := by omega
    simp only [hneg, if_true] at hrestore
    obtain ⟨mutexes, rfl, hmax⟩ := restoreDetachedTransitions_above (x.detachedTTop + 1).toNat
      (x := { x with isBacktracking := false }) (y := y) (by simpa [htop] using hrestore)
    have hmax := hmax (by omega)
    dsimp only at hmax ⊢
    refine ⟨mutexes, hPy, by omega, .inl ⟨htop, ?_⟩⟩
    congr 1
    omega
  · simp only [hneg, if_false] at hrestore
    obtain ⟨mutexes, rfl, hmax⟩ := restoreDetachedTransitions_at_top _
      (x := { x with isBacktracking := false }) (by dsimp only; omega) hrestore
    have hmax := hmax (by omega)
    dsimp only at hmax ⊢
    refine ⟨mutexes, hPy, by omega, .inr ⟨by omega, ?_⟩⟩
    congr 1
    omega

include hrevert happly in
/-- Every run of `csystem_dynamically_update_backtrack_sets` that returns, from
any state. The system was not backtracking, and the scan stopped at a top `k`
with `-1 ≤ k < t_stack_top`. The update adds threads to the backtrack set of
the state-stack top and leaves the threads and the state-stack height alone. If
the scan emptied the stack, the transition stack is as before; otherwise it is
one higher, with `S_k` in every slot above `k`. The last push lies within the
array. -/
theorem csystemDynamicallyUpdateBacktrackSets_eq_ok {s s' : CSystem} (hP : P s.mutexes)
    (h : csystemDynamicallyUpdateBacktrackSets A L s = .ok s') :
    s.isBacktracking = false ∧ s'.tStackTop < L.maxVisibleOperationDepth ∧
    ∃ (k : Int) (mutexes : MutexStore) (tNext : Nat → Transition) (tids : List Tid),
      P mutexes ∧ -1 ≤ k ∧ k < s.tStackTop ∧
      (k = -1 ∧
        s' = { s with mutexes, tNext,
                      sStack := Function.update s.sStack s.sStackTop.toNat
                        ((s.sStack s.sStackTop.toNat).addBacktrack tids),
                      detachedTTop := -1 } ∨
       0 ≤ k ∧
        s' = { s with tStackTop := s.tStackTop + 1,
                      tStack := fillAbove s.tStack k.toNat (s.tStackTop + 1 - k).toNat, mutexes, tNext,
                      sStack := Function.update s.sStack s.sStackTop.toNat
                        ((s.sStack s.sStackTop.toNat).addBacktrack tids),
                      detachedTTop := -1 }) := by
  obtain ⟨sb, hstart, h⟩ := except_bind_eq_ok.mp h
  simp only [csystemStartBacktrack, except_bind_eq_ok, mcAssert_eq_ok, except_pure_eq_ok] at hstart
  obtain ⟨-, hback, rfl⟩ := hstart
  obtain ⟨x, hscan, h⟩ := except_bind_eq_ok.mp h
  obtain ⟨x', hend, h⟩ := except_bind_eq_ok.mp h
  have hs' := except_pure_eq_ok.mp h
  obtain ⟨k, mutexes, tNext, tids, hPx, rfl, hk⟩ :=
    scanTransitionStack_eq_ok P hrevert _ _ (x := { s with isBacktracking := true, detachedTTop := s.tStackTop })
      hP hscan
  obtain ⟨hlt, hend⟩ := csystemEndBacktrack_eq_ok P happly hPx hend
  dsimp only at hlt hk
  have hk' : -1 ≤ k := by rcases hk with ⟨-, rfl⟩ | ⟨-, h₁, -⟩ <;> omega
  obtain ⟨mutexes', hP', hmax, hcase⟩ := hend hk'
  refine ⟨hback, hs' ▸ hmax, k, mutexes', s'.tNext, tids, hP', hk', hlt, ?_⟩
  subst hs'
  cases s
  cases hback
  rcases hcase with ⟨hk₁, rfl⟩ | ⟨hk₀, rfl⟩
  · exact .inl ⟨hk₁, rfl⟩
  · exact .inr ⟨hk₀, rfl⟩

end Update

end McMini.ConcurrentSystem
