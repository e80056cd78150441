/-
# Backtrack-set update

`csystem_dynamically_update_backtrack_sets`, the DPOR step run after each
transition. It saves the next-transition table, records which threads are
enabled now, then pops the transition stack one transition at a time. At each
position `i` it looks for threads whose next transition is co-enabled and
dependent with `S_i` and does not happen after it, and inserts into a backtrack
set either that thread or, failing it, every thread enabled before `S_i`.
Finally `csystem_end_backtrack` pushes the popped transitions back and the
saved table is written back.

The model follows the C body step by step. Three of its readings matter for
what it computes: the backtrack set written is the one of
`csystem_state_stack_top`, which the scan never moves; `happens_before_thread`
and `csystem_p_q_could_race` are called after the pop, when the live stack
ends below `i`; and `csystem_end_backtrack` restarts its pushes at the current
top, not above it.
-/

import McMini.ConcurrentSystem.HappensBefore

namespace McMini.ConcurrentSystem

/-- `s_top_enabled_transition_map`: the enabled threads of the current state
with their next transitions, in tid order. -/
abbrev PendingMap := List (Tid × Transition)

section Backtrack

variable (A : TransitionAlgebra) (L : Limits)

/-- `csystem_start_backtrack`. -/
def csystemStartBacktrack (s : CSystem) : Except Fault CSystem := do
  mcAssert (s.isBacktracking = false)
  pure { s with isBacktracking := true, detachedTTop := s.tStackTop }

/-- The loop of `csystem_end_backtrack`: `n` pushes of `t_stack[i]`, `i` counting
up from `cur_top`. Each push reads its slot after the previous one wrote. -/
def restoreDetachedTransitions : Nat → Int → CSystem → Except Fault CSystem
  | 0, _, s => pure s
  | n + 1, i, s => do
      let s ← csystemGrowTransitionStackRestore L s (s.tStack i.toNat)
      restoreDetachedTransitions n (i + 1) s

/-- `csystem_end_backtrack`: leave backtracking and push back the transitions
popped since `csystem_start_backtrack`, from `cur_top` to `detached_t_top`. -/
def csystemEndBacktrack (s : CSystem) : Except Fault CSystem := do
  mcAssert (s.isBacktracking = true)
  let s := { s with isBacktracking := false }
  mcAssert (s.tStackTop < s.detachedTTop)
  let curTop : Int := if s.tStackTop < 0 then 0 else s.tStackTop
  let destTop := s.detachedTTop
  let s ← restoreDetachedTransitions L (destTop + 1 - curTop).toNat curTop s
  pure { s with detachedTTop := -1 }

/-- `csystem_p_q_could_race`: some `S_j` with `i < j ≤ t_stack_top` is executed
by `p` and happens before `p`. The argument `q` is not read. -/
def csystemPQCouldRace (s : CSystem) (i : Nat) (_q p : Tid) : Except Fault Bool := do
  mcAssert (s.isBacktracking = true)
  pure ((List.range' (i + 1) ((s.tStackTop + 1).toNat - (i + 1))).any fun j =>
    (s.tStack j).thread == p && happensBeforeThread A s j p)

/-- Step 2: the enabled threads among the first `threadCount`, with their
transitions. -/
def enabledTransitionMap (s : CSystem) (threadCount : Nat) : PendingMap :=
  ((List.range threadCount).filter fun tid => A.transitionEnabled s (s.tNext tid)).map
    fun tid => (tid, s.tNext tid)

/-- The first loop over the transitions enabled at `s_i`: the first thread in
`E`, that is equal to `p` or that could race with it. -/
def findThreadInE (s : CSystem) (i : Nat) (p : Tid) : List Transition → Except Fault (Option Tid)
  | [] => pure none
  | qt :: rest => do
      let inE ← if qt.thread = p then pure true else csystemPQCouldRace A s i qt.thread p
      if inE then pure (some qt.thread) else findThreadInE s i p rest

/-- The body of the loop over `tid` at position `i`, with `S_i` popped and
`sTopI` the slot `csystem_state_stack_top` returned. -/
def updateBacktrackSetForThread (i : Nat) (Si : Transition) (sTopI : Nat)
    (st : CSystem × PendingMap) (tid : Tid) : Except Fault (CSystem × PendingMap) :=
  match st.2.lookup tid with
  | none => pure st
  | some next =>
      if A.transitionsCoenabled Si next && A.transitionsDependent Si next &&
          !happensBeforeThread A st.1 i tid then do
        let s := st.1
        let enabledAtSi := csystemCopyEnabledTransitions A s
        let found ← findThreadInE A s i next.thread enabledAtSi
        let added := match found with
          | some q => [q]
          | none => enabledAtSi.map (·.thread)
        pure ({ s with sStack := Function.update s.sStack sTopI ((s.sStack sTopI).addBacktrack added) },
          st.2.filter (·.1 != tid))
      else pure st

/-- The loop `for (int i = t_stack_height - 1; i >= 0; i--)`: `i + 1` iterations
remain, the next one at position `i`. It stops early once every enabled thread
has been handled. -/
def scanTransitionStack (threadCount : Nat) : Nat → CSystem → PendingMap → Except Fault CSystem
  | 0, s, _ => pure s
  | i + 1, s, pending => do
      let popped ← csystemShrinkTransitionStack s
      let sTopI ← csystemStateStackTop L popped.1
      if pending.isEmpty then pure popped.1
      else do
        let st ← (List.range threadCount).foldlM
          (updateBacktrackSetForThread A i popped.2 sTopI) (popped.1, pending)
        scanTransitionStack threadCount i st.1 st.2

/-- `csystem_dynamically_update_backtrack_sets`. -/
def csystemDynamicallyUpdateBacktrackSets (s : CSystem) : Except Fault CSystem := do
  let s ← csystemStartBacktrack s
  let threadCount := s.tidNext
  let tStackHeight := s.tStackTop + 1
  let transitionsAtSTop := csystemCopyPerThreadTransitions s
  let pending := enabledTransitionMap A s threadCount
  let s ← scanTransitionStack A L threadCount tStackHeight.toNat s pending
  let s ← csystemEndBacktrack L s
  pure (csystemReplacePerThreadTransitionsForBacktracking s transitionsAtSTop)

end Backtrack

/-- Thread `0` has created thread `1`, which is about to start, while thread `0`
waits to join it. The start is co-enabled and dependent with the create, no
chain leads from the create to thread `1`, and thread `1` is enabled before the
create: DPOR must put thread `1` into the backtrack set of the first state. The
code puts it into the backtrack set of the second, the top one, and leaves the
first empty. -/
theorem csystemDynamicallyUpdateBacktrackSets_inserts_at_top :
    let L : Limits := ⟨2, 1, 4⟩
    let create : Transition := ⟨0, .threadLifecycle ⟨.create, 1⟩⟩
    let join : Transition := ⟨0, .threadLifecycle ⟨.join, 1⟩⟩
    let start : Transition := ⟨1, .threadLifecycle ⟨.start, 1⟩⟩
    ∃ s s', (do
        let s ← csystemInit L (.staticStorage create)
        let s ← Prod.fst <$> csystemRegisterThread L s
        let s ← Prod.fst <$> csystemRegisterThread L s
        let s ← csystemRun L (s.setNextTransition 0 create) 0
        pure ((s.setNextTransition 0 join).setNextTransition 1 start)) = .ok s ∧
      csystemDynamicallyUpdateBacktrackSets SpecAlgebra.algebra L s = .ok s' ∧
      s.tStackTop = 0 ∧ s.tStack 0 = create ∧ s.tNext 1 = start ∧
      SpecAlgebra.algebra.transitionEnabled s start = true ∧
      SpecAlgebra.algebra.transitionsCoenabled create start = true ∧
      SpecAlgebra.algebra.transitionsDependent create start = true ∧
      ¬ HappensBeforeChain SpecAlgebra.algebra s 0 1 ∧
      (s'.sStack 0).backtrackSet = [] ∧ (s'.sStack 1).backtrackSet = [1] := by
  intro L create join start
  refine ⟨_, _, rfl, rfl, rfl, rfl, rfl, rfl, rfl, rfl, ?_, rfl, rfl⟩
  rw [happensBeforeChain_iff_of_top_le (by decide)]
  decide

/-- Two faults of the frame. With transitions `init`, `lock` of thread `0` on the
stack and its next lock disabled, the scan stops after popping the lock; the
pushes then restart at the init still on the stack, so the stack grows to three
entries, `init` replaces the lock, and the mutex is initialised twice more. With
an empty stack, `csystem_end_backtrack` fails its assertion. -/
theorem csystemDynamicallyUpdateBacktrackSets_breaks_frame :
    let L : Limits := ⟨1, 4, 4⟩
    let init : Transition := ⟨0, .mutex ⟨.init, ⟨5, .unknown⟩⟩⟩
    let lock : Transition := ⟨0, .mutex ⟨.lock, ⟨5, .unknown⟩⟩⟩
    let relock : Transition := ⟨0, .mutex ⟨.lock, ⟨5, .locked⟩⟩⟩
    (∃ s s', (do
        let s ← csystemInit L (.staticStorage init)
        let s ← Prod.fst <$> csystemRegisterThread L s
        let s ← csystemRun L (s.setNextTransition 0 init) 0
        let s ← csystemRun L (s.setNextTransition 0 lock) 0
        pure (s.setNextTransition 0 relock)) = .ok s ∧
      csystemDynamicallyUpdateBacktrackSets SpecAlgebra.algebra L s = .ok s' ∧
      s.tStackTop = 1 ∧ s'.tStackTop = 2 ∧ s.tStack 1 = lock ∧ s'.tStack 1 = init ∧
      s.mutexes.mutNext = 0 ∧ s'.mutexes.mutNext = 2) ∧
    (csystemInit L (.staticStorage init) >>=
      csystemDynamicallyUpdateBacktrackSets SpecAlgebra.algebra L) = .error .assertionFailure := by
  intro L init lock relock
  exact ⟨⟨_, _, rfl, rfl, rfl, rfl, rfl, rfl, rfl, rfl⟩, rfl⟩

end McMini.ConcurrentSystem
