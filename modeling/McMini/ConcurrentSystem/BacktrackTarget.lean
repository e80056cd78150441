/-
# Where the backtrack-set update writes

Every insertion of `csystem_dynamically_update_backtrack_sets` goes into the
backtrack set of the item `csystem_state_stack_top` returns, and the scan pops
transitions but never state-stack items, so that item is the top one
throughout. This module proves it of every run of the update that returns,
from any state: the state-stack height is unchanged, every other item is
unchanged, and the top item keeps its done set while its backtrack set only
gains threads.
-/

import McMini.ConcurrentSystem.BacktrackFrame

namespace McMini.ConcurrentSystem

/-- On its state stack, `s'` differs from `s` at most by threads added to the
backtrack set of item `k`. -/
structure AddsBacktrackAt (k : Nat) (s s' : CSystem) : Prop where
  sStackTop_eq : s'.sStackTop = s.sStackTop
  grows : BacktrackGrows s.sStack s'.sStack
  others_eq : ∀ j, j ≠ k → s'.sStack j = s.sStack j

namespace AddsBacktrackAt

variable {k : Nat} {s s' s'' : CSystem}

theorem of_eq (htop : s'.sStackTop = s.sStackTop) (hstack : s'.sStack = s.sStack) :
    AddsBacktrackAt k s s' :=
  ⟨htop, hstack ▸ .refl _, fun _ _ => hstack ▸ rfl⟩

theorem refl (s : CSystem) : AddsBacktrackAt k s s := of_eq rfl rfl

theorem trans (h : AddsBacktrackAt k s s') (h' : AddsBacktrackAt k s' s'') :
    AddsBacktrackAt k s s'' :=
  ⟨h'.1.trans h.1, h.2.trans h'.2, fun j hj => (h'.3 j hj).trans (h.3 j hj)⟩

/-- The one write of the update. -/
theorem addBacktrack (s : CSystem) (k : Nat) (tids : List Tid) :
    AddsBacktrackAt k s { s with sStack := Function.update s.sStack k ((s.sStack k).addBacktrack tids) } :=
  ⟨rfl, .addBacktrack _ _ _, fun _ hj => Function.update_noteq hj _ _⟩

end AddsBacktrackAt

variable {A : TransitionAlgebra} {L : Limits}

theorem AddsBacktrackAt.of_shrink {k : Nat} {x x' : CSystem} {t : Transition}
    (h : csystemShrinkTransitionStack x = .ok (x', t)) : AddsBacktrackAt k x x' := by
  obtain ⟨-, -, mutexes, -, rfl⟩ := csystemShrinkTransitionStack_eq_ok.mp h
  exact .of_eq rfl rfl

theorem AddsBacktrackAt.of_restore {k : Nat} (n : Nat) :
    ∀ {i : Int} {x x' : CSystem}, restoreDetachedTransitions L n i x = .ok x' →
      AddsBacktrackAt k x x' := by
  induction n with
  | zero =>
      intro i x x' h
      cases h
      exact .refl _
  | succ n ih =>
      intro i x x' h
      obtain ⟨x₁, hgrow, hrest⟩ := except_bind_eq_ok.mp h
      obtain ⟨-, mutexes, -, rfl⟩ := (csystemGrowTransitionStackRestore_eq_ok L).mp hgrow
      refine AddsBacktrackAt.trans ?_ (ih hrest)
      exact .of_eq rfl rfl

theorem AddsBacktrackAt.of_csystemEndBacktrack {k : Nat} {x x' : CSystem}
    (h : csystemEndBacktrack L x = .ok x') : AddsBacktrackAt k x x' := by
  simp only [csystemEndBacktrack, except_bind_eq_ok, mcAssert_eq_ok, except_pure_eq_ok] at h
  obtain ⟨-, -, -, -, x₁, hrestore, rfl⟩ := h
  refine AddsBacktrackAt.trans ?_ ((AddsBacktrackAt.of_restore _ hrestore).trans ?_) <;>
    exact .of_eq rfl rfl

/-- One pass of the loop body writes only the slot `sTopI` it was given. -/
theorem AddsBacktrackAt.of_updateBacktrackSetForThread {i : Nat} {Si : Transition} {sTopI : Nat}
    {st st' : CSystem × PendingMap} {tid : Tid}
    (h : updateBacktrackSetForThread A i Si sTopI st tid = .ok st') :
    AddsBacktrackAt sTopI st.1 st'.1 := by
  unfold updateBacktrackSetForThread at h
  split at h
  · cases h
    exact .refl _
  · split at h
    · simp only [except_bind_eq_ok, except_pure_eq_ok] at h
      obtain ⟨-, -, rfl⟩ := h
      exact .addBacktrack _ _ _
    · cases h
      exact .refl _

theorem AddsBacktrackAt.of_foldlM {i : Nat} {Si : Transition} {sTopI : Nat} (tids : List Tid) :
    ∀ {st st' : CSystem × PendingMap},
      tids.foldlM (updateBacktrackSetForThread A i Si sTopI) st = .ok st' →
      AddsBacktrackAt sTopI st.1 st'.1 := by
  induction tids with
  | nil =>
      intro st st' h
      cases h
      exact .refl _
  | cons tid tids ih =>
      intro st st' h
      obtain ⟨st₁, hstep, hrest⟩ := except_bind_eq_ok.mp h
      exact (of_updateBacktrackSetForThread hstep).trans (ih hrest)

/-- The scan writes only the item at the state-stack top, which it never moves. -/
theorem AddsBacktrackAt.of_scanTransitionStack (threadCount : Nat) (m : Nat) :
    ∀ {x x' : CSystem} {pending : PendingMap},
      scanTransitionStack A L threadCount m x pending = .ok x' →
      AddsBacktrackAt x.sStackTop.toNat x x' := by
  induction m with
  | zero =>
      intro x x' pending h
      cases h
      exact .refl _
  | succ m ih =>
      intro x x' pending h
      obtain ⟨⟨x₁, t⟩, hpop, h⟩ := except_bind_eq_ok.mp h
      have hpop' : AddsBacktrackAt x.sStackTop.toNat x x₁ := .of_shrink hpop
      obtain ⟨sTopI, hslot, h⟩ := except_bind_eq_ok.mp h
      have hsTopI : sTopI = x.sStackTop.toNat := by
        simp only [csystemStateStackTop, except_bind_eq_ok, mcAssert_eq_ok, except_pure_eq_ok] at hslot
        obtain ⟨-, -, hslot⟩ := hslot
        rw [← hslot, hpop'.sStackTop_eq]
      subst hsTopI
      split at h
      · cases h
        exact hpop'
      · obtain ⟨st, hfold, hrest⟩ := except_bind_eq_ok.mp h
        have hfold' := AddsBacktrackAt.of_foldlM _ hfold
        have hrest' := ih hrest
        rw [hfold'.sStackTop_eq, hpop'.sStackTop_eq] at hrest'
        exact hpop'.trans (hfold'.trans hrest')

/-- From any state, a run of `csystem_dynamically_update_backtrack_sets` that
returns leaves the state stack as high as it was and every item but the top one
unchanged; the top item keeps its done set and its backtrack set only gains
threads. No backtrack set below the top ever receives a thread. -/
theorem csystemDynamicallyUpdateBacktrackSets_adds_at_top {s s' : CSystem}
    (h : csystemDynamicallyUpdateBacktrackSets A L s = .ok s') :
    AddsBacktrackAt s.sStackTop.toNat s s' := by
  obtain ⟨sb, hstart, h⟩ := except_bind_eq_ok.mp h
  simp only [csystemStartBacktrack, except_bind_eq_ok, mcAssert_eq_ok, except_pure_eq_ok] at hstart
  obtain ⟨-, -, rfl⟩ := hstart
  obtain ⟨x, hscan, h⟩ := except_bind_eq_ok.mp h
  obtain ⟨x', hend, h⟩ := except_bind_eq_ok.mp h
  cases except_pure_eq_ok.mp h
  refine AddsBacktrackAt.trans ?_ ((AddsBacktrackAt.of_scanTransitionStack _ _ hscan).trans
    ((AddsBacktrackAt.of_csystemEndBacktrack hend).trans ?_)) <;> exact .of_eq rfl rfl

/-- The create-and-join state of the misplaced insertion: the update returns,
and only the top item changes. -/
theorem csystemDynamicallyUpdateBacktrackSets_adds_at_top_createJoin :
    let L : Limits := ⟨2, 1, 4⟩
    let create : Transition := ⟨0, .threadLifecycle ⟨.create, 1⟩⟩
    let join : Transition := ⟨0, .threadLifecycle ⟨.join, 1⟩⟩
    let start : Transition := ⟨1, .threadLifecycle ⟨.start, 1⟩⟩
    ∃ s s', (do
        let s ← csystemInit L (.staticStorage create)
        let s ← Prod.fst <$> csystemRegisterThread L s
        let s ← Prod.fst <$> csystemRegisterThread L s
        let s ← csystemRun L (s.setNextTransition 0 create) 0
        pure ((s.setNextTransition 0 join).setNextTransition 1 start)) = .ok s ∧
      csystemDynamicallyUpdateBacktrackSets SpecAlgebra.algebra L s = .ok s' ∧
      AddsBacktrackAt s.sStackTop.toNat s s' := by
  intro L create join start
  exact ⟨_, _, rfl, rfl,
    csystemDynamicallyUpdateBacktrackSets_adds_at_top (A := SpecAlgebra.algebra) (L := L) rfl⟩

end McMini.ConcurrentSystem
