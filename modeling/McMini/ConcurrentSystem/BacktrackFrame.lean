/-
# What the backtrack-set update leaves unchanged

`csystem_dynamically_update_backtrack_sets` pops transitions to reach earlier
states and pushes them back at the end. On a system whose stacks a recorded run
from `csystem_init` built, this module proves that the round trip gives back
the transition stack, the live mutex store and the next transitions, and that
the update only adds threads to backtrack sets, provided the backward scan pops
every transition. The scan stops above index `0` once every thread enabled at
the top has been handled, and `csystem_end_backtrack` then restarts its pushes
at the transition still on the stack.

The scan's test `happens_before_thread(ref, i, tid)` runs after `S_i` has been
popped, when the live stack ends below `i`, so it never holds: a thread leaves
the pending map at position `i` exactly when its transition is co-enabled and
dependent with `S_i`.
-/

import McMini.ConcurrentSystem.Backtrack
import McMini.ConcurrentSystem.Revert

namespace McMini.ConcurrentSystem

open MutexStore

/-- The state stack after an update: every backtrack set holds at least what it
held, and every done set is unchanged. -/
def BacktrackGrows (g g' : Nat → StateStackItem) : Prop :=
  ∀ k, (g' k).doneSet = (g k).doneSet ∧ ∀ q ∈ (g k).backtrackSet, q ∈ (g' k).backtrackSet

namespace BacktrackGrows

theorem refl (g : Nat → StateStackItem) : BacktrackGrows g g := fun _ => ⟨rfl, fun _ => id⟩

theorem trans {g g' g'' : Nat → StateStackItem} (h : BacktrackGrows g g')
    (h' : BacktrackGrows g' g'') : BacktrackGrows g g'' :=
  fun k => ⟨(h' k).1.trans (h k).1, fun q hq => (h' k).2 q ((h k).2 q hq)⟩

/-- The one write of the update: `hash_set_insert` into one backtrack set. -/
theorem addBacktrack (g : Nat → StateStackItem) (slot : Nat) (tids : List Tid) :
    BacktrackGrows g (Function.update g slot ((g slot).addBacktrack tids)) := by
  intro k
  by_cases hk : k = slot
  · subst hk
    exact ⟨by simp, fun q hq => by simp [hq]⟩
  · rw [Function.update_noteq hk]
    exact refl g k

end BacktrackGrows

theorem lookup_filter_ne {l : PendingMap} {tid u : Tid} (hu : u ≠ tid) :
    (l.filter (·.1 != tid)).lookup u = l.lookup u := by
  induction l with
  | nil => rfl
  | cons e l ih =>
      obtain ⟨k, b⟩ := e
      by_cases hk : k = tid
      · subst hk
        simp [List.filter_cons, List.lookup_cons, beq_false_of_ne hu, ih]
      · simp [List.filter_cons, hk, List.lookup_cons, ih]

theorem lookup_map_graph {f : Tid → Transition} {tid : Tid} {l : List Tid} (h : tid ∈ l) :
    (l.map fun t => (t, f t)).lookup tid = some (f tid) := by
  induction l with
  | nil => cases h
  | cons a l ih =>
      by_cases ha : tid = a
      · subst ha
        simp
      · simp [List.lookup_cons, beq_false_of_ne ha, ih ((List.mem_cons.mp h).resolve_left ha)]

/-- Step 2 maps each enabled thread among the first `threadCount` to its next
transition. -/
theorem lookup_enabledTransitionMap {A : TransitionAlgebra} {s : CSystem} {threadCount tid : Nat}
    (htid : tid < threadCount) (henabled : A.transitionEnabled s (s.tNext tid) = true) :
    (enabledTransitionMap A s threadCount).lookup tid = some (s.tNext tid) :=
  lookup_map_graph (List.mem_filter.mpr ⟨List.mem_range.mpr htid, henabled⟩)

section Pops

variable {L : Limits}

/-- `shrinkTransitionStackTimes` pops last; the scan pops first. -/
theorem shrinkTransitionStackTimes_succ_first (m : Nat) (x : CSystem) :
    shrinkTransitionStackTimes (m + 1) x =
      csystemShrinkTransitionStack x >>= fun popped => shrinkTransitionStackTimes m popped.1 := by
  induction m generalizing x with
  | zero => rfl
  | succ m ih =>
      show (shrinkTransitionStackTimes (m + 1) x >>= fun s =>
        csystemShrinkTransitionStack s >>= fun popped => pure popped.1) = _
      rw [ih, bind_assoc]
      rfl

/-- A pop does not read the state stack. -/
theorem csystemShrinkTransitionStack_sStack {x x' : CSystem} {t : Transition}
    (g : Nat → StateStackItem) (h : csystemShrinkTransitionStack x = .ok (x', t)) :
    csystemShrinkTransitionStack { x with sStack := g } = .ok ({ x' with sStack := g }, t) := by
  obtain ⟨htop, rfl, mutexes, hrevert, rfl⟩ := csystemShrinkTransitionStack_eq_ok.mp h
  exact csystemShrinkTransitionStack_eq_ok.mpr ⟨htop, rfl, mutexes, hrevert, rfl⟩

theorem shrinkTransitionStackTimes_sStack (g : Nat → StateStackItem) (m : Nat) :
    ∀ {x z : CSystem}, shrinkTransitionStackTimes m x = .ok z →
      shrinkTransitionStackTimes m { x with sStack := g } = .ok { z with sStack := g } := by
  induction m with
  | zero =>
      intro x z h
      cases h
      rfl
  | succ m ih =>
      intro x z h
      rw [shrinkTransitionStackTimes_succ_first] at h ⊢
      obtain ⟨⟨x₁, t⟩, hpop, hrest⟩ := except_bind_eq_ok.mp h
      rw [csystemShrinkTransitionStack_sStack g hpop, except_ok_bind]
      exact ih hrest

/-- Two systems agree on everything popping and pushing transitions reads: the
height and contents of the transition stack, and the live mutex store. -/
structure StackAgree (x y : CSystem) : Prop where
  tStackTop_eq : x.tStackTop = y.tStackTop
  tStack_eq : x.tStack = y.tStack
  liveEq : LiveEq x.mutexes y.mutexes

/-- Popping two agreeing systems pops the same transition and keeps them
agreeing; the pop writes only the height, the store and the next table. -/
theorem StackAgree.shrink {x y y' : CSystem} {t : Transition} (h : StackAgree x y)
    (hy : csystemShrinkTransitionStack y = .ok (y', t)) :
    ∃ mutexes,
      csystemShrinkTransitionStack x =
          .ok ({ x with tStackTop := x.tStackTop - 1, mutexes,
                        tNext := Function.update x.tNext t.thread t }, t) ∧
        StackAgree { x with tStackTop := x.tStackTop - 1, mutexes,
                            tNext := Function.update x.tNext t.thread t } y' := by
  obtain ⟨htop, rfl, m, hrevert, rfl⟩ := csystemShrinkTransitionStack_eq_ok.mp hy
  obtain ⟨n, hrevert', hlive⟩ := h.liveEq.symm.revert hrevert
  refine ⟨n, csystemShrinkTransitionStack_eq_ok.mpr ⟨h.1 ▸ htop, by rw [h.1, h.2], n, hrevert', rfl⟩,
    ⟨by simp only [h.1], h.2, hlive.symm⟩⟩

theorem StackAgree.shrinkTimes {y : CSystem} {x : CSystem} (h : StackAgree x y) (m : Nat) :
    ∀ {y' : CSystem}, shrinkTransitionStackTimes m y = .ok y' →
      ∃ top mutexes tNext, shrinkTransitionStackTimes m x = .ok { x with tStackTop := top, mutexes, tNext } ∧
        StackAgree { x with tStackTop := top, mutexes, tNext } y' := by
  induction m with
  | zero =>
      intro y' hy
      cases hy
      exact ⟨x.tStackTop, x.mutexes, x.tNext, rfl, h⟩
  | succ m ih =>
      intro y' hy
      obtain ⟨y₁, hy₁, hrest⟩ := except_bind_eq_ok.mp hy
      obtain ⟨⟨y₂, t⟩, hpop, hy'⟩ := except_bind_eq_ok.mp hrest
      obtain rfl := except_pure_eq_ok.mp hy'
      obtain ⟨top, mutexes, tNext, hx₁, hagree⟩ := ih hy₁
      obtain ⟨mutexes', hpop', hagree'⟩ := hagree.shrink hpop
      exact ⟨_, _, _, by rw [shrinkTransitionStackTimes, hx₁, except_ok_bind, hpop']; rfl, hagree'⟩

end Pops

section Scan

variable {A : TransitionAlgebra} {L : Limits}

/-- While backtracking the search for a thread in `E` cannot fail. -/
theorem findThreadInE_ok {s : CSystem} (hback : s.isBacktracking = true) (i : Nat) (p : Tid)
    (ts : List Transition) : ∃ found, findThreadInE A s i p ts = .ok found := by
  induction ts with
  | nil => exact ⟨none, rfl⟩
  | cons qt rest ih =>
      obtain ⟨found, hfound⟩ := ih
      have hrace : ∃ b, csystemPQCouldRace A s i qt.thread p = .ok b := by
        simp only [csystemPQCouldRace, except_bind_eq_ok, mcAssert_eq_ok, except_pure_eq_ok]
        exact ⟨_, (), hback, rfl⟩
      obtain ⟨b, hb⟩ := hrace
      by_cases hq : qt.thread = p
      · exact ⟨some qt.thread, by simp [findThreadInE, hq]⟩
      · cases b
        · exact ⟨found, by simp [findThreadInE, hq, hb, hfound]⟩
        · exact ⟨some qt.thread, by simp [findThreadInE, hq, hb]⟩

/-- One pass of the loop body over `tid` at position `i`, on a system popped
below `i`: only the backtrack set of slot `sTopI` can grow, and a pending
thread whose transition is not co-enabled and dependent with `S_i` stays
pending. -/
theorem updateBacktrackSetForThread_spec {s : CSystem} {i : Nat} (Si : Transition) (sTopI : Nat)
    (hback : s.isBacktracking = true) (htop : s.tStackTop < i) (pending : PendingMap) (tid : Tid) :
    ∃ g pending', updateBacktrackSetForThread A i Si sTopI (s, pending) tid =
        .ok ({ s with sStack := g }, pending') ∧ BacktrackGrows s.sStack g ∧
      ∀ u next, pending.lookup u = some next →
        ¬ (A.transitionsCoenabled Si next = true ∧ A.transitionsDependent Si next = true) →
        pending'.lookup u = some next := by
  have hhb := happensBeforeThread_of_top_lt (A := A) tid htop
  unfold updateBacktrackSetForThread
  cases hlookup : pending.lookup tid with
  | none => exact ⟨s.sStack, pending, rfl, .refl _, fun _ _ h _ => h⟩
  | some next =>
      dsimp only
      by_cases hcond : A.transitionsCoenabled Si next = true ∧ A.transitionsDependent Si next = true
      · obtain ⟨found, hfound⟩ := findThreadInE_ok (A := A) hback i next.thread
          (csystemCopyEnabledTransitions A s)
        have hc : (A.transitionsCoenabled Si next && A.transitionsDependent Si next &&
            !happensBeforeThread A s i tid) = true := by simp [hcond, hhb]
        have hkeep : ∀ u next', pending.lookup u = some next' →
            ¬ (A.transitionsCoenabled Si next' = true ∧ A.transitionsDependent Si next' = true) →
            (pending.filter (·.1 != tid)).lookup u = some next' := by
          intro u next' hu hnot
          have hne : u ≠ tid := by
            rintro rfl
            rw [hlookup, Option.some.injEq] at hu
            exact hnot (hu ▸ hcond)
          rwa [lookup_filter_ne hne]
        exact ⟨_, _, by rw [if_pos hc, hfound]; rfl, .addBacktrack _ _ _, hkeep⟩
      · have hfalse : (A.transitionsCoenabled Si next && A.transitionsDependent Si next &&
            !happensBeforeThread A s i tid) = false := by
          simpa [hhb] using hcond
        exact ⟨s.sStack, pending, by simp [hfalse], .refl _, fun _ _ h _ => h⟩

/-- The loop over every `tid` at position `i`. -/
theorem foldlM_updateBacktrackSetForThread (i : Nat) (Si : Transition) (sTopI : Nat)
    (tids : List Tid) : ∀ (s : CSystem) (pending : PendingMap), s.isBacktracking = true →
      s.tStackTop < i →
      ∃ g pending', tids.foldlM (updateBacktrackSetForThread A i Si sTopI) (s, pending) =
          .ok ({ s with sStack := g }, pending') ∧ BacktrackGrows s.sStack g ∧
        ∀ u next, pending.lookup u = some next →
          ¬ (A.transitionsCoenabled Si next = true ∧ A.transitionsDependent Si next = true) →
          pending'.lookup u = some next := by
  induction tids with
  | nil => exact fun s pending _ _ => ⟨s.sStack, pending, rfl, .refl _, fun _ _ h _ => h⟩
  | cons tid tids ih =>
      intro s pending hback htop
      obtain ⟨g, pending₁, hstep, hgrow, hkeep⟩ :=
        updateBacktrackSetForThread_spec (A := A) Si sTopI hback htop pending tid
      obtain ⟨g', pending₂, hrest, hgrow', hkeep'⟩ := ih { s with sStack := g } pending₁ hback htop
      refine ⟨g', pending₂, ?_, hgrow.trans hgrow', fun u next hu hnot => hkeep' u next (hkeep u next hu hnot) hnot⟩
      simp only [List.foldlM_cons, hstep, except_ok_bind]
      exact hrest

/-- The backward scan with `m` iterations left, the next popping `S_{m-1}`.
When `m ≤ 1`, or a pending thread stays pending down to index `1` because its
transition is neither co-enabled and dependent with any of `S_2 … S_{m-1}`, no
iteration breaks above index `0`: the scan pops all `m` transitions, and the
only other change is that backtrack sets grow. -/
theorem scanTransitionStack_pops_all (threadCount : Nat) (m : Nat) :
    ∀ (x z : CSystem) (pending : PendingMap), x.isBacktracking = true →
      x.tStackTop + 1 = m → 0 ≤ x.sStackTop → x.sStackTop < L.maxVisibleOperationDepth →
      shrinkTransitionStackTimes m x = .ok z →
      (m ≤ 1 ∨ ∃ tid next, pending.lookup tid = some next ∧ ∀ j : Nat, 2 ≤ j → j < m →
        ¬ (A.transitionsCoenabled (x.tStack j) next = true ∧
          A.transitionsDependent (x.tStack j) next = true)) →
      ∃ g, scanTransitionStack A L threadCount m x pending = .ok { z with sStack := g } ∧
        BacktrackGrows x.sStack g := by
  induction m with
  | zero =>
      intro x z pending _ _ _ _ hz _
      cases hz
      exact ⟨x.sStack, rfl, .refl _⟩
  | succ m ih =>
      intro x z pending hback htop hs₀ hs₁ hz hbottom
      rw [shrinkTransitionStackTimes_succ_first] at hz
      obtain ⟨⟨x₁, t⟩, hpop, hz⟩ := except_bind_eq_ok.mp hz
      obtain ⟨-, rfl, mutexes, -, hx₁⟩ := csystemShrinkTransitionStack_eq_ok.mp hpop
      have hm : x.tStackTop.toNat = m := by omega
      have hslot : csystemStateStackTop L x₁ = .ok x.sStackTop.toNat := by
        simp [csystemStateStackTop, hx₁, hs₀, hs₁]
      obtain ⟨g₁, pending₁, hfold, hgrow₁, hkeep⟩ :=
        foldlM_updateBacktrackSetForThread (A := A) m (x.tStack m) x.sStackTop.toNat
          (List.range threadCount) x₁ pending (by rw [hx₁]; exact hback) (by rw [hx₁]; simp only; omega)
      rw [hx₁] at hgrow₁
      cases hempty : pending.isEmpty
      · have hbottom' : m ≤ 1 ∨ ∃ tid next, pending₁.lookup tid = some next ∧
            ∀ j : Nat, 2 ≤ j → j < m → ¬ (A.transitionsCoenabled (x.tStack j) next = true ∧
              A.transitionsDependent (x.tStack j) next = true) := by
          rcases hbottom with h1 | ⟨tid, next, hl, hj⟩
          · omega
          · by_cases hm1 : m ≤ 1
            · exact .inl hm1
            · exact .inr ⟨tid, next, hkeep tid next hl (hj m (by omega) (by omega)),
                fun j h2 hj' => hj j h2 (by omega)⟩
        obtain ⟨g, hscan, hgrow⟩ := ih { x₁ with sStack := g₁ } { z with sStack := g₁ } pending₁
          (by rw [hx₁]; exact hback) (by rw [hx₁]; simp only; omega) (by rw [hx₁]; exact hs₀)
          (by rw [hx₁]; exact hs₁) (shrinkTransitionStackTimes_sStack g₁ m hz) (hx₁ ▸ hbottom')
        refine ⟨g, ?_, hgrow₁.trans hgrow⟩
        simp [scanTransitionStack, hpop, hslot, hempty, hm, hfold, hscan]
      · have hm0 : m = 0 := by
          rcases hbottom with h1 | ⟨tid, next, hl, -⟩
          · omega
          · cases pending with
            | nil => simp at hl
            | cons => simp at hempty
        subst hm0
        cases hz
        refine ⟨x.sStack, ?_, .refl _⟩
        simp only [scanTransitionStack, hpop, hslot, hempty, except_ok_bind, if_true]
        rw [hx₁]
        rfl

end Scan

section Replay

variable {L : Limits}

/-- What `csystem_init` leaves: empty stacks under one fresh state, and no mutex. -/
theorem csystemInit_spec {m s₀ : CSystem} (h : csystemInit L m = .ok s₀) :
    s₀.tStackTop = -1 ∧ s₀.sStackTop = 0 ∧ s₀.sStackTop < L.maxVisibleOperationDepth ∧
      s₀.mutexes.SlotsBelowNext := by
  obtain ⟨⟨-, hmax⟩, rfl⟩ := (csystemGrowStateStack_eq_ok L).mp h
  exact ⟨rfl, by simp, by simpa using hmax, fun _ _ hslot => nomatch hslot⟩

theorem runTransition_sStackTop {s s' : CSystem} {t : Transition}
    (h : runTransition L s t = .ok s') :
    s'.sStackTop = s.sStackTop + 1 ∧ s'.sStackTop < L.maxVisibleOperationDepth := by
  obtain ⟨s₁, hgrow, hstate⟩ := except_bind_eq_ok.mp h
  obtain ⟨-, mutexes, -, rfl⟩ := (csystemGrowTransitionStackRestore_eq_ok L).mp hgrow
  obtain ⟨⟨-, hmax⟩, rfl⟩ := (csystemGrowStateStack_eq_ok L).mp hstate
  exact ⟨rfl, hmax⟩

namespace RecordedRun

variable {s s' : CSystem} {ts : List Transition}

/-- A run pushes one state per transition, each within the array. -/
theorem sStackTop_eq (h : RecordedRun L s ts s') (hs : s.sStackTop < L.maxVisibleOperationDepth) :
    s'.sStackTop = s.sStackTop + ts.length ∧ s'.sStackTop < L.maxVisibleOperationDepth := by
  induction h with
  | nil => exact ⟨by simp, hs⟩
  | cons _ hrun _ ih =>
      obtain ⟨hnext, hmax⟩ := runTransition_sStackTop hrun
      obtain ⟨htop, hmax'⟩ := ih hmax
      exact ⟨by rw [htop, hnext, List.length_cons]; omega, hmax'⟩

/-- The slots a run pushed hold its transitions, in order. -/
theorem map_tStack (h : RecordedRun L s ts s') (hs : 0 ≤ s.tStackTop + 1) :
    (List.range' (s.tStackTop + 1).toNat ts.length).map s'.tStack = ts := by
  induction h with
  | nil => rfl
  | @cons s s₁ s₂ t ts _ hrun hrest ih =>
      obtain ⟨-, -, htop, hstack⟩ := runTransition_eq_ok hrun
      have hnext : (s₁.tStackTop + 1).toNat = (s.tStackTop + 1).toNat + 1 := by omega
      rw [List.length_cons, List.range'_succ, List.map_cons, ← hnext, ih (by omega),
        hrest.tStack_below _ (by omega), hstack, ← htop, Function.update_same]

end RecordedRun

/-- Pushes write only the height, the store and the transition stack. -/
theorem restoreTransitions_frame (ts : List Transition) :
    ∀ {x x' : CSystem}, restoreTransitions L x ts = .ok x' →
      ∃ top mutexes tStack, x' = { x with tStackTop := top, mutexes, tStack } := by
  induction ts with
  | nil =>
      intro x x' h
      cases h
      exact ⟨x.tStackTop, x.mutexes, x.tStack, rfl⟩
  | cons t ts ih =>
      intro x x' h
      obtain ⟨x₁, hgrow, hrest⟩ := except_bind_eq_ok.mp h
      obtain ⟨-, mutexes₁, -, rfl⟩ := (csystemGrowTransitionStackRestore_eq_ok L).mp hgrow
      obtain ⟨top, mutexes, tStack, rfl⟩ := ih hrest
      exact ⟨top, mutexes, tStack, rfl⟩

/-- The pushes of `csystem_end_backtrack` starting just above the top: each
reads the slot it is about to write, so they push back what those slots hold. -/
theorem restoreDetachedTransitions_eq (n : Nat) :
    ∀ (i : Int) (x : CSystem), x.tStackTop + 1 = i → 0 ≤ i →
      restoreDetachedTransitions L n i x =
        restoreTransitions L x ((List.range' i.toNat n).map x.tStack) := by
  induction n with
  | zero => intros; rfl
  | succ n ih =>
      intro i x hi h0
      cases hgrow : csystemGrowTransitionStackRestore L x (x.tStack i.toNat) with
      | error e =>
          simp only [restoreDetachedTransitions, restoreTransitions, List.range'_succ, List.map_cons,
            List.foldlM_cons, hgrow]
          rfl
      | ok x₁ =>
          have hx₁ := hgrow
          obtain ⟨-, mutexes, -, rfl⟩ := (csystemGrowTransitionStackRestore_eq_ok L).mp hx₁
          have hnext : (i + 1).toNat = i.toNat + 1 := by omega
          rw [hi, Function.update_eq_self] at hgrow
          simp only [restoreDetachedTransitions, restoreTransitions, List.range'_succ, List.map_cons,
            List.foldlM_cons, hgrow, except_ok_bind]
          rw [ih (i + 1) _ (by simp only [hi]) (by omega), hnext]
          rfl

/-- `csystem_end_backtrack` once every transition has been popped: it pushes
back the slots `0 … detached_t_top`. -/
theorem csystemEndBacktrack_of_popped {x : CSystem} (hback : x.isBacktracking = true)
    (htop : x.tStackTop = -1) (hdest : 0 ≤ x.detachedTTop) :
    csystemEndBacktrack L x =
      restoreTransitions L { x with isBacktracking := false }
          ((List.range' 0 (x.detachedTTop + 1).toNat).map x.tStack) >>=
        fun s => pure { s with detachedTTop := -1 } := by
  have hlt : (-1 : Int) < x.detachedTTop := by omega
  have hrestore := restoreDetachedTransitions_eq (L := L) (x.detachedTTop + 1 - 0).toNat 0
    { x with isBacktracking := false } (by simp [htop]) (Int.le_refl 0)
  simp only [csystemEndBacktrack, mcAssert, hback, htop, hlt, if_true, Int.reduceLT, Int.sub_zero,
    Int.toNat_zero] at hrestore ⊢
  rw [hrestore]
  rfl

end Replay

/-- With an empty transition stack nothing is popped, and `csystem_end_backtrack`
finds `t_stack_top = detached_t_top`, which its assertion forbids. -/
theorem csystemDynamicallyUpdateBacktrackSets_of_empty {A : TransitionAlgebra} {L : Limits}
    {s : CSystem} (hback : s.isBacktracking = false) (htop : s.tStackTop = -1) :
    csystemDynamicallyUpdateBacktrackSets A L s = .error .assertionFailure := by
  simp [csystemDynamicallyUpdateBacktrackSets, csystemStartBacktrack, csystemEndBacktrack,
    scanTransitionStack, mcAssert, hback, htop]
  rfl

/-- The transition-stack invariant of the design: the height and contents of the
transition stack and the live mutex store are those a run of recorded
transitions from `csystem_init` reaches, and the state stack is as high as that
run left it. The next table, the threads and the state-stack items are free. -/
def StacksOfRecordedRun (L : Limits) (s : CSystem) : Prop :=
  ∃ m s₀ ts s₁, csystemInit L m = .ok s₀ ∧ RecordedRun L s₀ ts s₁ ∧ StackAgree s s₁ ∧
    s.sStackTop = s₁.sStackTop

/-- The backward scan on `s` pops every transition: the stack holds at most one,
or some thread enabled at the top has a next transition that is co-enabled and
dependent with none of `S_2 … S_{n-1}`, so that it is still pending when the
scan reaches index `1`. Enabledness is read where the code reads it, after
`csystem_start_backtrack`. -/
def ScanReachesBottom (A : TransitionAlgebra) (s : CSystem) : Prop :=
  s.tStackTop ≤ 0 ∨ ∃ tid < s.tidNext,
    A.transitionEnabled { s with isBacktracking := true, detachedTTop := s.tStackTop }
        (s.tNext tid) = true ∧
      ∀ j : Nat, 2 ≤ j → (j : Int) ≤ s.tStackTop →
        ¬ (A.transitionsCoenabled (s.tStack j) (s.tNext tid) = true ∧
          A.transitionsDependent (s.tStack j) (s.tNext tid) = true)

/-- The frame when the backward scan pops every transition: the round trip of
the update gives back the transition stack, the live store, the next
transitions and the state-stack height, and backtrack sets only grow. -/
theorem csystemDynamicallyUpdateBacktrackSets_frame_of_bottom {A : TransitionAlgebra} {L : Limits}
    {s : CSystem} (hstacks : StacksOfRecordedRun L s) (hback : s.isBacktracking = false)
    (hn : 0 ≤ s.tStackTop) (hbottom : ScanReachesBottom A s) :
    ∃ s', csystemDynamicallyUpdateBacktrackSets A L s = .ok s' ∧
      s'.tStackTop = s.tStackTop ∧ s'.tStack = s.tStack ∧
      (∀ tid < s.tidNext, s'.tNext tid = s.tNext tid) ∧ LiveEq s'.mutexes s.mutexes ∧
      s'.sStackTop = s.sStackTop ∧ s'.isBacktracking = false ∧ s'.tidNext = s.tidNext ∧
      s'.threads = s.threads ∧ BacktrackGrows s.sStack s'.sStack := by
  obtain ⟨m, s₀, ts, s₁, hinit, hrun, hagree, hsTop⟩ := hstacks
  obtain ⟨hinitTop, hinitS, hinitMax, hempty⟩ := csystemInit_spec hinit
  have hlen : s.tStackTop + 1 = ts.length := by rw [hagree.1, hrun.tStackTop_eq, hinitTop]; omega
  obtain ⟨hsLen, hsMax⟩ := hrun.sStackTop_eq hinitMax
  -- `csystem_start_backtrack`, then every transition popped
  let sb : CSystem := { s with isBacktracking := true, detachedTTop := s.tStackTop }
  have hstart : csystemStartBacktrack s = .ok sb := by simp [csystemStartBacktrack, hback, sb]
  obtain ⟨y, hy, hyTop, hyLive, hyStack⟩ := hrun.shrink hempty
  obtain ⟨top, mutexes, tNext, hz, hzy⟩ := (⟨hagree.1, hagree.2, hagree.3⟩ : StackAgree sb s₁).shrinkTimes _ hy
  -- the scan
  have hbottom' : ts.length ≤ 1 ∨ ∃ tid next,
      (enabledTransitionMap A sb sb.tidNext).lookup tid = some next ∧
      ∀ j : Nat, 2 ≤ j → j < ts.length → ¬ (A.transitionsCoenabled (sb.tStack j) next = true ∧
        A.transitionsDependent (sb.tStack j) next = true) := by
    rcases hbottom with hsmall | ⟨tid, htid, henabled, hj⟩
    · omega
    · exact .inr ⟨tid, _, lookup_enabledTransitionMap htid henabled,
        fun j h2 hjl => hj j h2 (by omega)⟩
  obtain ⟨g, hscan, hgrow⟩ := scanTransitionStack_pops_all (A := A) (L := L) sb.tidNext ts.length
    sb _ _ rfl (by simp only [sb]; omega) (by simp only [sb]; omega) (by simp only [sb]; omega)
    hz hbottom'
  -- `csystem_end_backtrack` pushes the run back
  let w : CSystem := { sb with tStackTop := top, mutexes, tNext, sStack := g, isBacktracking := false }
  have hwTop : top = -1 := by rw [← hinitTop, ← hyTop, ← hzy.1]
  obtain ⟨x, hres, hxTop, hxLive, hxStack⟩ :=
    hrun.restore w (hzy.3.trans hyLive) (by simp only [w, hwTop, hinitTop]) hagree.2
  obtain ⟨top', mutexes', tStack', hx⟩ := restoreTransitions_frame ts hres
  have hend : csystemEndBacktrack L { sb with tStackTop := top, mutexes, tNext, sStack := g } =
      .ok { x with detachedTTop := -1 } := by
    rw [csystemEndBacktrack_of_popped rfl hwTop (by simp only [sb]; omega)]
    have hts : (List.range' 0 (s.tStackTop + 1).toNat).map s.tStack = ts := by
      simpa [hinitTop, hagree.2, hlen] using hrun.map_tStack (by omega)
    simp only [sb, hts]
    rw [hres]
    rfl
  refine ⟨csystemReplacePerThreadTransitionsForBacktracking { x with detachedTTop := -1 }
    (csystemCopyPerThreadTransitions sb), ?_, ?_, ?_, fun tid htid => ?_, ?_, ?_, ?_, ?_, ?_, ?_⟩
  · have hheight : (s.tStackTop + 1).toNat = ts.length := by omega
    have hscan' : scanTransitionStack A L s.tidNext ts.length sb
        (enabledTransitionMap A sb s.tidNext) = .ok { sb with tStackTop := top, mutexes, tNext,
                                                              sStack := g } := hscan
    simp only [csystemDynamicallyUpdateBacktrackSets, hstart, except_ok_bind]
    rw [hheight, hscan', except_ok_bind, hend]
    rfl
  · exact hxTop.trans hagree.1.symm
  · exact hxStack.trans hagree.2.symm
  · simp [csystemReplacePerThreadTransitionsForBacktracking, csystemCopyPerThreadTransitions, hx, w,
      sb, htid]
  · exact hxLive.trans hagree.3.symm
  all_goals rw [hx]
  exacts [rfl, rfl, rfl, rfl, hgrow]

/-- The frame of `csystem_dynamically_update_backtrack_sets` on a system not in
backtrack mode whose stacks a recorded run from `csystem_init` built. With an
empty transition stack the update fails its assertion. Otherwise, when the
backward scan pops every transition, the update returns with the height and
contents of the transition stack, the next transitions of the registered
threads, the live mutex store, the state-stack height, the threads and the
thread count as before, the backtracking flag clear, and every done set as
before; backtrack sets only gain threads. -/
theorem csystemDynamicallyUpdateBacktrackSets_frame {A : TransitionAlgebra} {L : Limits}
    {s : CSystem} (hstacks : StacksOfRecordedRun L s) (hback : s.isBacktracking = false) :
    (s.tStackTop = -1 → csystemDynamicallyUpdateBacktrackSets A L s = .error .assertionFailure) ∧
    (0 ≤ s.tStackTop → ScanReachesBottom A s →
      ∃ s', csystemDynamicallyUpdateBacktrackSets A L s = .ok s' ∧
        s'.tStackTop = s.tStackTop ∧ s'.tStack = s.tStack ∧
        (∀ tid < s.tidNext, s'.tNext tid = s.tNext tid) ∧ LiveEq s'.mutexes s.mutexes ∧
        s'.sStackTop = s.sStackTop ∧ s'.isBacktracking = false ∧ s'.tidNext = s.tidNext ∧
        s'.threads = s.threads ∧ BacktrackGrows s.sStack s'.sStack) :=
  ⟨csystemDynamicallyUpdateBacktrackSets_of_empty hback, fun hn hbottom =>
    csystemDynamicallyUpdateBacktrackSets_frame_of_bottom hstacks hback hn hbottom⟩

/-- Init and lock of one mutex by thread `0`, whose next transition, an unlock,
is enabled: the scan pops both transitions and the update restores them. -/
theorem csystemDynamicallyUpdateBacktrackSets_frame_initLock :
    let L : Limits := ⟨1, 4, 4⟩
    let init : Transition := ⟨0, .mutex ⟨.init, ⟨5, .unknown⟩⟩⟩
    let lock : Transition := ⟨0, .mutex ⟨.lock, ⟨5, .unknown⟩⟩⟩
    let unlock : Transition := ⟨0, .mutex ⟨.unlock, ⟨5, .locked⟩⟩⟩
    ∃ s₀ s₁, csystemInit L (.staticStorage init) = .ok s₀ ∧ RecordedRun L s₀ [init, lock] s₁ ∧
      let s : CSystem := { s₁ with tidNext := 1, tNext := fun _ => unlock }
      StacksOfRecordedRun L s ∧ s.isBacktracking = false ∧ 0 ≤ s.tStackTop ∧
        ScanReachesBottom SpecAlgebra.algebra s ∧
        ∃ s', csystemDynamicallyUpdateBacktrackSets SpecAlgebra.algebra L s = .ok s' ∧
          s'.tStackTop = s.tStackTop ∧ s'.tStack = s.tStack ∧
          (∀ tid < s.tidNext, s'.tNext tid = s.tNext tid) ∧ LiveEq s'.mutexes s.mutexes ∧
          s'.sStackTop = s.sStackTop ∧ s'.isBacktracking = false ∧ s'.tidNext = s.tidNext ∧
          s'.threads = s.threads ∧ BacktrackGrows s.sStack s'.sStack := by
  intro L init lock unlock
  obtain ⟨s₀, hinit, hrun⟩ :=
    RecordedRun.of_init_recordedRunEnd L (.staticStorage init) [init, lock] rfl
  refine ⟨s₀, _, hinit, hrun, ?_⟩
  intro s
  have hstacks : StacksOfRecordedRun L s :=
    ⟨.staticStorage init, s₀, [init, lock], _, hinit, hrun, ⟨rfl, rfl, .refl _⟩, rfl⟩
  have htop : s.tStackTop = 1 := rfl
  have hbottom : ScanReachesBottom SpecAlgebra.algebra s :=
    .inr ⟨0, by decide, rfl, fun j h2 hj => absurd hj (by omega)⟩
  exact ⟨hstacks, rfl, by omega, hbottom,
    (csystemDynamicallyUpdateBacktrackSets_frame hstacks rfl).2 (by omega) hbottom⟩

end McMini.ConcurrentSystem
