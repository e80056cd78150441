/-
# The states a scheduler reaches

A scheduler drives the concurrent system from `csystem_init` through the calls
of `apiStep`. This module proves that the transition-stack invariant of the
design holds along every such run: the transition stack and the live mutex
store are those of a run of recorded transitions from `csystem_init`, and the
state stack is as high as that run left it. It holds when each run executes a
next transition that carries the shadow it finds, and each backtrack update's
scan pops every transition; an update whose scan stops early breaks it.

So the frame of the backtrack update applies to every state reached this way.
-/

import McMini.ConcurrentSystem.Api
import McMini.ConcurrentSystem.BacktrackFrame

namespace McMini.ConcurrentSystem

open MutexStore

/-- A transition records the same thing in two agreeing stores. -/
theorem Recorded.of_liveEq {m n : MutexStore} {t : Transition} (h : LiveEq m n)
    (hrec : Recorded m t) : Recorded n t := by
  unfold Recorded at hrec ⊢
  rwa [← h.mutexMap_eq, ← h.shadowOf_eq]

theorem StackAgree.refl (s : CSystem) : StackAgree s s := ⟨rfl, rfl, .refl _⟩

theorem StackAgree.trans {x y z : CSystem} (h : StackAgree x y) (h' : StackAgree y z) :
    StackAgree x z :=
  ⟨h.1.trans h'.1, h.2.trans h'.2, h.3.trans h'.3⟩

section Runs

variable {L : Limits}

/-- A recorded run extends by one recorded step at its end. -/
theorem RecordedRun.snoc {s s₁ s₂ : CSystem} {ts : List Transition} {t : Transition}
    (h : RecordedRun L s ts s₁) (hrec : Recorded s₁.mutexes t) (hrun : runTransition L s₁ t = .ok s₂) :
    RecordedRun L s (ts ++ [t]) s₂ := by
  induction h with
  | nil => exact .cons hrec hrun (.nil _)
  | cons hrec' hrun' _ ih => exact .cons hrec' hrun' (ih hrec hrun)

/-- `csystem_run` on two agreeing systems whose running threads have the same
next transition: both succeed, and they agree again. -/
theorem StackAgree.runAgree {x y x' : CSystem} {tid tid' : Tid} (h : StackAgree x y)
    (hs : x.sStackTop = y.sStackTop) (hnext : y.tNext tid' = x.tNext tid)
    (hrun : csystemRun L x tid = .ok x') :
    ∃ y', csystemRun L y tid' = .ok y' ∧ StackAgree x' y' ∧ x'.sStackTop = y'.sStackTop := by
  obtain ⟨xa, hgrow, hstate⟩ := except_bind_eq_ok.mp hrun
  obtain ⟨hbound, ma, happly, rfl⟩ := (csystemGrowTransitionStackRestore_eq_ok L).mp hgrow
  obtain ⟨hsbound, rfl⟩ := (csystemGrowStateStack_eq_ok L).mp hstate
  obtain ⟨n, happly', hlive⟩ := h.liveEq.apply happly
  have hgrow' : csystemGrowTransitionStack L y tid' =
      .ok { y with tStackTop := y.tStackTop + 1, mutexes := n,
                   tStack := Function.update y.tStack (y.tStackTop + 1).toNat (x.tNext tid) } := by
    rw [csystemGrowTransitionStack, hnext]
    exact (csystemGrowTransitionStackRestore_eq_ok L).mpr ⟨h.1 ▸ hbound, n, happly', rfl⟩
  refine ⟨{ y with tStackTop := y.tStackTop + 1, mutexes := n,
                   tStack := Function.update y.tStack (y.tStackTop + 1).toNat (x.tNext tid),
                   sStackTop := y.sStackTop + 1,
                   sStack := Function.update y.sStack (y.sStackTop + 1).toNat .empty },
    ?_, ⟨by simp only [h.1], by simp only [h.1, h.2], hlive⟩, by simp only [hs]⟩
  rw [csystemRun, hgrow', except_ok_bind]
  exact (csystemGrowStateStack_eq_ok L).mpr ⟨hs ▸ hsbound, rfl⟩

end Runs

section Invariant

variable {A : TransitionAlgebra} {L : Limits}

theorem StacksOfRecordedRun.of_init {m s : CSystem} (h : csystemInit L m = .ok s) :
    StacksOfRecordedRun L s :=
  ⟨m, s, [], s, h, .nil _, .refl _, rfl⟩

theorem StacksOfRecordedRun.of_agree {s s' : CSystem} (h : StacksOfRecordedRun L s)
    (hagree : StackAgree s' s) (hs : s'.sStackTop = s.sStackTop) : StacksOfRecordedRun L s' := by
  obtain ⟨m, s₀, ts, s₁, hinit, hrun, hagree₁, hs₁⟩ := h
  exact ⟨m, s₀, ts, s₁, hinit, hrun, hagree.trans hagree₁, hs.trans hs₁⟩

theorem StacksOfRecordedRun.tStackTop_ge {s : CSystem} (h : StacksOfRecordedRun L s) :
    -1 ≤ s.tStackTop := by
  obtain ⟨m, s₀, ts, s₁, hinit, hrun, hagree, -⟩ := h
  rw [hagree.1, hrun.tStackTop_eq, (csystemInit_spec hinit).1]
  omega

/-- What a call must satisfy to keep the invariant: a run executes a next
transition that carries the shadow it finds, and an update's scan pops every
transition. -/
def ApiCall.KeepsStacks (A : TransitionAlgebra) (s : CSystem) : ApiCall → Prop
  | .run tid => Recorded s.mutexes (s.tNext tid)
  | .dynamicallyUpdateBacktrackSets => ScanReachesBottom A s
  | _ => True

/-- The step lemma: every call that returns and keeps the stacks preserves the
invariant. -/
theorem StacksOfRecordedRun.of_apiStep {s s' : CSystem} {c : ApiCall} (h : StacksOfRecordedRun L s)
    (hkeep : c.KeepsStacks A s) (hstep : apiStep A L s c = .ok s') : StacksOfRecordedRun L s' := by
  cases c with
  | registerThread =>
      obtain ⟨⟨s₁, tid⟩, hreg, rfl⟩ := except_map_eq_ok.mp hstep
      simp only [csystemRegisterThread, except_bind_eq_ok, except_pure_eq_ok] at hreg
      obtain ⟨threads, -, hs₁⟩ := hreg
      cases hs₁
      exact h.of_agree ⟨rfl, rfl, .refl _⟩ rfl
  | setNextTransition tid t =>
      cases hstep
      exact h.of_agree ⟨rfl, rfl, .refl _⟩ rfl
  | run tid =>
      obtain ⟨m, s₀, ts, s₁, hinit, hrun, hagree, hs⟩ := h
      have hagree' : StackAgree s (s₁.setNextTransition (s.tNext tid).thread (s.tNext tid)) :=
        ⟨hagree.1, hagree.2, hagree.3⟩
      obtain ⟨s₂, hrun₂, hagree₂, hs₂⟩ := hagree'.runAgree hs (Function.update_same _ _ _) hstep
      exact ⟨m, s₀, ts ++ [s.tNext tid], s₂, hinit,
        hrun.snoc (Recorded.of_liveEq hagree.liveEq hkeep) hrun₂, hagree₂, hs₂⟩
  | dynamicallyUpdateBacktrackSets =>
      have hback : s.isBacktracking = false := by
        obtain ⟨sb, hstart, -⟩ := except_bind_eq_ok.mp hstep
        simp only [csystemStartBacktrack, except_bind_eq_ok, mcAssert_eq_ok] at hstart
        obtain ⟨-, hback, -⟩ := hstart
        exact hback
      have hn : 0 ≤ s.tStackTop := by
        by_cases htop : s.tStackTop = -1
        · rw [apiStep, csystemDynamicallyUpdateBacktrackSets_of_empty hback htop] at hstep
          cases hstep
        · have := h.tStackTop_ge
          omega
      obtain ⟨s'', hupdate, htop, hstack, -, hlive, hs, -⟩ :=
        csystemDynamicallyUpdateBacktrackSets_frame_of_bottom h hback hn hkeep
      rw [apiStep, hupdate] at hstep
      cases hstep
      exact h.of_agree ⟨htop, hstack, hlive⟩ hs
  | reset => exact .of_init hstep

/-- The states a scheduler reaches from `csystem_init` by calls that keep the
stacks. -/
inductive Reachable (A : TransitionAlgebra) (L : Limits) : CSystem → Prop
  | init {m s : CSystem} : csystemInit L m = .ok s → Reachable A L s
  | step {s s' : CSystem} {c : ApiCall} :
      Reachable A L s → c.KeepsStacks A s → apiStep A L s c = .ok s' → Reachable A L s'

/-- The run lemma: the invariant holds at `csystem_init` and every call keeps
it. -/
theorem Reachable.stacksOfRecordedRun {s : CSystem} (h : Reachable A L s) :
    StacksOfRecordedRun L s := by
  induction h with
  | init hinit => exact .of_init hinit
  | step _ hkeep hstep ih => exact ih.of_apiStep hkeep hstep

/-- Every state a scheduler reaches from `csystem_init` by calls that keep the
stacks has the stacks of a recorded run from `csystem_init`. -/
theorem stacksOfRecordedRun_of_reachable {s : CSystem} (h : Reachable A L s) :
    StacksOfRecordedRun L s :=
  h.stacksOfRecordedRun

/-- Thread `0` registered, given a start and run once. -/
theorem stacksOfRecordedRun_of_reachable_startRun :
    let L : Limits := ⟨1, 1, 2⟩
    let start : Transition := ⟨0, .threadLifecycle ⟨.start, 0⟩⟩
    ∃ s, (csystemInit L (.staticStorage start) >>= fun s₀ =>
        apiRun SpecAlgebra.algebra L s₀ [.registerThread, .setNextTransition 0 start, .run 0]) =
        .ok s ∧
      Reachable SpecAlgebra.algebra L s ∧ StacksOfRecordedRun L s := by
  intro L start
  have hreach : Reachable SpecAlgebra.algebra L _ :=
    .step (c := .run 0)
      (.step (c := .setNextTransition 0 start)
        (.step (c := .registerThread) (.init (m := .staticStorage start) rfl) trivial rfl) trivial rfl)
      trivial rfl
  exact ⟨_, rfl, hreach, stacksOfRecordedRun_of_reachable hreach⟩

end Invariant

section History

variable {A : TransitionAlgebra} {L : Limits}

/-- Two runs of the same transitions from agreeing stores end in agreeing
stores: the live store is a function of what was executed. -/
theorem RecordedRun.liveEq {s s' s₁ s₁' : CSystem} {ts : List Transition}
    (h : RecordedRun L s ts s₁) (h' : RecordedRun L s' ts s₁') (hlive : LiveEq s.mutexes s'.mutexes) :
    LiveEq s₁.mutexes s₁'.mutexes := by
  induction h generalizing s' s₁' with
  | nil =>
      cases h'
      exact hlive
  | cons _ hrun _ ih =>
      cases h' with
      | cons _ hrun' hrest' =>
          obtain ⟨n, happly, hlive'⟩ := hlive.apply (runTransition_eq_ok hrun).2.1
          cases (runTransition_eq_ok hrun').2.1.symm.trans happly
          exact ih hrest' hlive'

/-- Every `csystem_init` leaves the same live store: no mutex mapped. -/
theorem csystemInit_liveEq {m m' s s' : CSystem} (h : csystemInit L m = .ok s)
    (h' : csystemInit L m' = .ok s') : LiveEq s.mutexes s'.mutexes := by
  obtain ⟨-, rfl⟩ := (csystemGrowStateStack_eq_ok L).mp h
  obtain ⟨-, rfl⟩ := (csystemGrowStateStack_eq_ok L).mp h'
  exact ⟨rfl, rfl, rfl⟩

/-- The recorded run behind the invariant is the transition stack itself, read
from the bottom, and the state stack holds one more state than it has
transitions, within its array. -/
theorem StacksOfRecordedRun.recorded {s : CSystem} (h : StacksOfRecordedRun L s) :
    ∃ m s₀ s₁, csystemInit L m = .ok s₀ ∧
      RecordedRun L s₀ ((List.range' 0 (s.tStackTop + 1).toNat).map s.tStack) s₁ ∧
      LiveEq s.mutexes s₁.mutexes ∧ s.sStackTop = s.tStackTop + 1 ∧
      s.sStackTop < L.maxVisibleOperationDepth := by
  obtain ⟨m, s₀, ts, s₁, hinit, hrun, hagree, hs⟩ := h
  obtain ⟨hinitTop, hinitS, hinitMax, -⟩ := csystemInit_spec hinit
  have hlen : s.tStackTop + 1 = ts.length := by rw [hagree.1, hrun.tStackTop_eq, hinitTop]; omega
  have hts : (List.range' 0 (s.tStackTop + 1).toNat).map s.tStack = ts := by
    simpa [hinitTop, hagree.2, hlen] using hrun.map_tStack (by omega)
  obtain ⟨hsLen, hsMax⟩ := hrun.sStackTop_eq hinitMax
  refine ⟨m, s₀, s₁, hinit, hts ▸ hrun, hagree.3, ?_, hs ▸ hsMax⟩
  rw [hs, hsLen, hinitS, hlen]
  omega

/-- Any two states a scheduler reaches from `csystem_init` by calls that keep
the stacks, with the same transitions on their transition stacks, have the same
live shadow mutexes and state stacks of the same height: popping back and
replaying restores the shadow state exactly, whatever was explored between. -/
theorem liveEq_of_reachable {s s' : CSystem} (h : Reachable A L s) (h' : Reachable A L s')
    (htop : s.tStackTop = s'.tStackTop)
    (hstack : ∀ j : Nat, (j : Int) ≤ s.tStackTop → s.tStack j = s'.tStack j) :
    LiveEq s.mutexes s'.mutexes ∧ s.sStackTop = s'.sStackTop := by
  obtain ⟨m, s₀, s₁, hinit, hrun, hlive, hs, -⟩ := h.stacksOfRecordedRun.recorded
  obtain ⟨m', s₀', s₁', hinit', hrun', hlive', hs', -⟩ := h'.stacksOfRecordedRun.recorded
  have hts : (List.range' 0 (s.tStackTop + 1).toNat).map s.tStack =
      (List.range' 0 (s'.tStackTop + 1).toNat).map s'.tStack := by
    rw [← htop]
    exact List.map_congr_left fun j hj => hstack j (by simp at hj; omega)
  rw [hts] at hrun
  exact ⟨hlive.trans ((hrun.liveEq hrun' (csystemInit_liveEq hinit hinit')).trans hlive'.symm),
    by rw [hs, hs', htop]⟩

/-- Two histories of mutex `5`: its init run by thread `0`; and the same
followed by a lock run by thread `0`, a reset, and the init replayed. The slot
above the top still holds the lock explored in between, yet the live stores
agree. -/
theorem liveEq_of_reachable_resetReplay :
    let L : Limits := ⟨1, 2, 4⟩
    ∃ s s', Reachable SpecAlgebra.algebra L s ∧ Reachable SpecAlgebra.algebra L s' ∧
      s.tStack 1 ≠ s'.tStack 1 ∧
      s.tStackTop = s'.tStackTop ∧ (∀ j : Nat, (j : Int) ≤ s.tStackTop → s.tStack j = s'.tStack j) ∧
      LiveEq s.mutexes s'.mutexes ∧ s.sStackTop = s'.sStackTop := by
  intro L
  let initM : Transition := ⟨0, .mutex ⟨.init, ⟨5, .unknown⟩⟩⟩
  let lockM : Transition := ⟨0, .mutex ⟨.lock, ⟨5, .unknown⟩⟩⟩
  have hs : Reachable SpecAlgebra.algebra L _ :=
    .step (c := .run 0) (.step (c := .setNextTransition 0 initM)
      (.step (c := .registerThread) (.init (m := .staticStorage initM) rfl) trivial rfl) trivial rfl)
      (by unfold ApiCall.KeepsStacks; decide) rfl
  have hlocked : Reachable SpecAlgebra.algebra L _ :=
    .step (c := .run 0) (.step (c := .setNextTransition 0 lockM) hs trivial rfl)
      (by unfold ApiCall.KeepsStacks; decide) rfl
  have hs' : Reachable SpecAlgebra.algebra L _ :=
    .step (c := .run 0) (.step (c := .setNextTransition 0 initM)
      (.step (c := .registerThread) (.step (c := .reset) hlocked trivial rfl) trivial rfl) trivial rfl)
      (by unfold ApiCall.KeepsStacks; decide) rfl
  -- the stacks agree below the top as a bounded quantifier, which `decide` evaluates
  have hbelow : ∀ (top : Int) (P : Nat → Prop), (∀ j < (top + 1).toNat, P j) →
      ∀ j : Nat, (j : Int) ≤ top → P j :=
    fun _ _ h j hj => h j (by omega)
  refine ⟨_, _, hs, hs', by decide, ?htop, ?hstack, liveEq_of_reachable hs hs' ?htop ?hstack⟩
  · decide
  · exact hbelow _ _ (by decide)

end History

end McMini.ConcurrentSystem
