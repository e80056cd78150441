/-
# The backtrack update at the end of a trace

At the end of a trace no thread is enabled, so the enabled-transition map of
`csystem_dynamically_update_backtrack_sets` starts empty and the backward scan
stops right after popping the last transition `S_{n-1}`. `csystem_end_backtrack`
then finds `S_0 … S_{n-2}` on the stack and pushes `S_{n-2}` twice: the last
transition executed is gone from the stack, its slot and the one above hold
`S_{n-2}`, and the transition stack is as high as the state stack.

This module proves that the update does return there, from every state of the
transition-stack invariant with at least two transitions, unless `S_{n-2}` is a
mutex init, whose second application takes another shadow slot.
-/

import McMini.ConcurrentSystem.BacktrackStop
import McMini.ConcurrentSystem.Reachable

namespace McMini.ConcurrentSystem

open MutexStore

variable {A : TransitionAlgebra} {L : Limits}

/-- An operation other than a mutex init keeps the map of the store it applies
to, and applies to every store with that map. -/
theorem csystemVirtuallyApplyTransition_of_mutexMap {m m' n : MutexStore} {t : Transition}
    (hinit : ∀ mu, t.operation ≠ .mutex ⟨.init, mu⟩)
    (h : csystemVirtuallyApplyTransition L m t = .ok m') (hmap : n.mutexMap = m.mutexMap) :
    m'.mutexMap = m.mutexMap ∧
      ∃ n', csystemVirtuallyApplyTransition L n t = .ok n' ∧ n'.mutexMap = n.mutexMap := by
  unfold csystemVirtuallyApplyTransition at h ⊢
  rcases t with ⟨_, ⟨⟨_ | _ | _, mu⟩⟩ | _⟩
  case init => exact absurd rfl (hinit mu)
  case lock | unlock =>
    obtain ⟨slot, hslot, rfl⟩ := setShadowState_eq_ok.mp h
    exact ⟨rfl, _, setShadowState_eq_ok.mpr ⟨slot, hmap ▸ hslot, rfl⟩, rfl⟩
  case threadLifecycle =>
    cases h
    exact ⟨rfl, n, rfl, rfl⟩

/-- The pushes of `csystem_end_backtrack` from the top itself return, when the
transition at the top is no init and applied once to a store with the map they
find, and the stack has room for them. -/
theorem restoreDetachedTransitions_at_top_ok {t : Transition} {m m' : MutexStore}
    (hinit : ∀ mu, t.operation ≠ .mutex ⟨.init, mu⟩)
    (happly : csystemVirtuallyApplyTransition L m t = .ok m') (n : Nat) :
    ∀ {x : CSystem}, 0 ≤ x.tStackTop → x.tStack x.tStackTop.toNat = t →
      x.mutexes.mutexMap = m.mutexMap → x.tStackTop + n < L.maxVisibleOperationDepth →
      ∃ y, restoreDetachedTransitions L n x.tStackTop x = .ok y := by
  induction n with
  | zero => exact fun _ _ _ _ => ⟨_, rfl⟩
  | succ n ih =>
      intro x h0 htop hmap hroom
      obtain ⟨-, mutexes, happly', hmap'⟩ := csystemVirtuallyApplyTransition_of_mutexMap hinit happly hmap
      have hgrow := (csystemGrowTransitionStackRestore_eq_ok L).mpr
        ⟨⟨by omega, by omega⟩, mutexes, htop ▸ happly', rfl⟩
      rw [htop] at hgrow
      obtain ⟨y, hy⟩ := ih (x := { x with tStackTop := x.tStackTop + 1, mutexes,
                                          tStack := Function.update x.tStack (x.tStackTop + 1).toNat t })
        (by dsimp only; omega) (Function.update_same _ _ _) (hmap'.trans hmap) (by dsimp only; omega)
      refine ⟨y, ?_⟩
      rw [restoreDetachedTransitions, htop, hgrow, except_ok_bind]
      exact hy

/-- `csystem_end_backtrack` one transition below `detached_t_top`: it pushes
`S_k` twice, the second time reading the slot the first push wrote. -/
theorem csystemEndBacktrack_pushes_twice {x : CSystem} {k : Nat} {m m' : MutexStore}
    (hinit : ∀ mu, (x.tStack k).operation ≠ .mutex ⟨.init, mu⟩)
    (happly : csystemVirtuallyApplyTransition L m (x.tStack k) = .ok m')
    (hback : x.isBacktracking = true) (htop : x.tStackTop = k) (hdet : x.detachedTTop = k + 1)
    (hmap : x.mutexes.mutexMap = m.mutexMap) (hroom : (k : Int) + 2 < L.maxVisibleOperationDepth) :
    ∃ mutexes, csystemEndBacktrack L x = .ok
      { x with tStackTop := x.detachedTTop + 1, mutexes, tStack := fillAbove x.tStack k 2,
               isBacktracking := false, detachedTTop := -1 } := by
  obtain ⟨y, hy⟩ := restoreDetachedTransitions_at_top_ok hinit happly 2
    (x := { x with isBacktracking := false }) (by dsimp only; omega)
    (by dsimp only; rw [htop, Int.toNat_ofNat]) hmap (by dsimp only; omega)
  have hend : csystemEndBacktrack L x = .ok { y with detachedTTop := -1 } := by
    simp only [csystemEndBacktrack, except_bind_eq_ok, mcAssert_eq_ok, except_pure_eq_ok]
    refine ⟨(), hback, (), by omega, y, ?_, rfl⟩
    rw [if_neg (show ¬ x.tStackTop < 0 by omega),
      show (x.detachedTTop + 1 - x.tStackTop).toNat = 2 by omega]
    exact hy
  obtain ⟨-, hshape⟩ := csystemEndBacktrack_eq_ok (fun _ => True) (fun _ _ => trivial) trivial hend
  obtain ⟨mutexes, -, -, ⟨hneg, -⟩ | ⟨-, hy'⟩⟩ := hshape (by omega)
  · omega
  refine ⟨mutexes, hend.trans (congrArg _ (hy'.trans ?_))⟩
  rw [htop, hdet, Int.toNat_ofNat, show ((k : Int) + 1 + 1 - k).toNat = 2 by omega]

/-- From every state of the transition-stack invariant that is not backtracking,
holds `k + 2` transitions, enables no registered thread, and whose transition
`S_k` is no mutex init, `csystem_dynamically_update_backtrack_sets` returns.
The transition stack then holds `S_0 … S_k, S_k, S_k`: one entry more than
before, without the last transition executed. The state stack is as high as
before, so the invariant no longer holds. -/
theorem csystemDynamicallyUpdateBacktrackSets_at_trace_end {s : CSystem} {k : Nat}
    (hstacks : StacksOfRecordedRun L s) (hback : s.isBacktracking = false)
    (htop : s.tStackTop = k + 1)
    (hnone : ∀ tid < s.tidNext, A.transitionEnabled
      { s with isBacktracking := true, detachedTTop := s.tStackTop } (s.tNext tid) = false)
    (hinit : ∀ mu, (s.tStack k).operation ≠ .mutex ⟨.init, mu⟩) :
    ∃ s', csystemDynamicallyUpdateBacktrackSets A L s = .ok s' ∧
      s'.sStackTop = s.sStackTop ∧ s'.tStackTop = s.tStackTop + 1 ∧
      (∀ j ≤ k, s'.tStack j = s.tStack j) ∧ s'.tStack (k + 1) = s.tStack k ∧
      s'.tStack (k + 2) = s.tStack k ∧ ¬ StacksOfRecordedRun L s' := by
  -- the recorded run behind the stacks, split before its last two transitions
  obtain ⟨m, s₀, s₁, hinit₀, hrun, hlive, hs, hsmax⟩ := hstacks.recorded
  obtain ⟨-, -, -, hslots₀⟩ := csystemInit_spec hinit₀
  have hsplit : (List.range' 0 (s.tStackTop + 1).toNat).map s.tStack =
      (List.range' 0 k).map s.tStack ++ [s.tStack k, s.tStack (k + 1)] := by
    rw [show (s.tStackTop + 1).toNat = k + 1 + 1 by omega, List.range'_1_concat, List.range'_1_concat]
    simp
  rw [hsplit] at hrun
  obtain ⟨sₐ, hpre, hlast⟩ := hrun.split
  cases hlast with
  | cons _ hrunₖ hrest =>
  cases hrest with
  | cons hrec₁ hrun₁ hnil =>
  cases hnil
  obtain ⟨-, happlyₖ, -, -⟩ := runTransition_eq_ok hrunₖ
  obtain ⟨-, happly₁, -, -⟩ := runTransition_eq_ok hrun₁
  obtain ⟨m'', hrev, hlive''⟩ :=
    revert_apply (slotsBelowNext_apply (hpre.slotsBelowNext hslots₀) happlyₖ) hrec₁ happly₁
  obtain ⟨m₁, hrev₁, hlive₁⟩ := hlive.symm.revert hrev
  have hmap₁ : m₁.mutexMap = sₐ.mutexes.mutexMap :=
    (hlive₁.symm.trans hlive'').mutexMap_eq.trans
      (csystemVirtuallyApplyTransition_of_mutexMap hinit happlyₖ rfl).1
  -- the update: the start, one pop, an empty map, then two pushes of `S_k`
  let sb : CSystem := { s with isBacktracking := true, detachedTTop := s.tStackTop }
  have hstart : csystemStartBacktrack s = .ok sb := by simp [csystemStartBacktrack, hback, sb]
  have hpending : enabledTransitionMap A sb s.tidNext = [] := by
    simp only [enabledTransitionMap, List.map_eq_nil_iff, List.filter_eq_nil_iff, List.mem_range]
    intro tid htid
    simp [sb, hnone tid htid]
  let x₁ : CSystem := { sb with tStackTop := sb.tStackTop - 1, mutexes := m₁,
                                tNext := Function.update sb.tNext (s.tStack (k + 1)).thread (s.tStack (k + 1)) }
  have hpop : csystemShrinkTransitionStack sb = .ok (x₁, s.tStack (k + 1)) := by
    have hidx : sb.tStackTop.toNat = k + 1 := by simp only [sb]; omega
    exact csystemShrinkTransitionStack_eq_ok.mpr ⟨by simp only [sb]; omega, by rw [hidx], m₁, hrev₁, rfl⟩
  have hslot : csystemStateStackTop L x₁ = .ok s.sStackTop.toNat := by
    simp [csystemStateStackTop, mcAssert, x₁, sb, hsmax, show 0 ≤ s.sStackTop by omega]
  have hscan : scanTransitionStack A L s.tidNext (k + 1 + 1) sb [] = .ok x₁ := by
    simp [scanTransitionStack, hpop, hslot]
  obtain ⟨mutexes, hend⟩ := csystemEndBacktrack_pushes_twice (x := x₁) hinit happlyₖ rfl
    (by simp only [x₁, sb]; omega) (by simp only [x₁, sb]; omega) hmap₁ (by omega)
  have hupd : csystemDynamicallyUpdateBacktrackSets A L s = .ok
      (csystemReplacePerThreadTransitionsForBacktracking
        { x₁ with tStackTop := x₁.detachedTTop + 1, mutexes, tStack := fillAbove x₁.tStack k 2,
                  isBacktracking := false, detachedTTop := -1 }
        (csystemCopyPerThreadTransitions sb)) := by
    have hh : (sb.tStackTop + 1).toNat = k + 1 + 1 := by simp only [sb]; omega
    simp only [csystemDynamicallyUpdateBacktrackSets, hstart, except_ok_bind, hh]
    rw [hpending, hscan, except_ok_bind, hend]
    rfl
  refine ⟨_, hupd, rfl, rfl, fun j hj => if_neg (by omega), if_pos (by omega), if_pos (by omega),
    fun h' => ?_⟩
  obtain ⟨-, -, -, -, -, -, hs', -⟩ := h'.recorded
  dsimp only [csystemReplacePerThreadTransitionsForBacktracking, x₁, sb] at hs'
  omega

/-- Thread `0` creates thread `1`, which starts, and both then lock a mutex
never initialised: no thread is enabled. The update writes the create over the
start and into the slot above it. -/
theorem csystemDynamicallyUpdateBacktrackSets_at_trace_end_createStart :
    let L : Limits := ⟨2, 4, 4⟩
    let create : Transition := ⟨0, .threadLifecycle ⟨.create, 1⟩⟩
    let start : Transition := ⟨1, .threadLifecycle ⟨.start, 1⟩⟩
    let lock : Transition := ⟨0, .mutex ⟨.lock, ⟨9, .unknown⟩⟩⟩
    ∃ s₀ s₁, csystemInit L (.staticStorage create) = .ok s₀ ∧
      RecordedRun L s₀ [create, start] s₁ ∧
      let s : CSystem := { s₁ with tidNext := 2, tNext := fun tid => { lock with thread := tid } }
      StacksOfRecordedRun L s ∧ s.isBacktracking = false ∧ s.tStackTop = 1 ∧
        (∀ tid < s.tidNext, SpecAlgebra.algebra.transitionEnabled
          { s with isBacktracking := true, detachedTTop := s.tStackTop } (s.tNext tid) = false) ∧
        (∀ mu, (s.tStack 0).operation ≠ .mutex ⟨.init, mu⟩) ∧
        ∃ s', csystemDynamicallyUpdateBacktrackSets SpecAlgebra.algebra L s = .ok s' ∧
          s'.sStackTop = s.sStackTop ∧ s'.tStackTop = s.tStackTop + 1 ∧
          (∀ j ≤ 0, s'.tStack j = s.tStack j) ∧ s'.tStack 1 = s.tStack 0 ∧
          s'.tStack 2 = s.tStack 0 ∧ ¬ StacksOfRecordedRun L s' := by
  intro L create start lock
  obtain ⟨s₀, hinit, hrun⟩ :=
    RecordedRun.of_init_recordedRunEnd L (.staticStorage create) [create, start] rfl
  refine ⟨s₀, _, hinit, hrun, ?_⟩
  intro s
  have hstacks : StacksOfRecordedRun L s :=
    ⟨.staticStorage create, s₀, [create, start], _, hinit, hrun, ⟨rfl, rfl, .refl _⟩, rfl⟩
  have hcreate : ∀ mu, (s.tStack 0).operation ≠ .mutex ⟨.init, mu⟩ :=
    fun _ h => VisibleOperation.noConfusion h
  exact ⟨hstacks, rfl, rfl, fun _ _ => rfl, hcreate,
    csystemDynamicallyUpdateBacktrackSets_at_trace_end (A := SpecAlgebra.algebra) (k := 0)
      hstacks rfl rfl (fun _ _ => rfl) hcreate⟩

end McMini.ConcurrentSystem
