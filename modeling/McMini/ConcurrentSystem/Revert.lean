/-
# Reverting and replaying transitions

Backtracking pops transitions with `csystem_shrink_transition_stack`, which
undoes each one on the shadow mutexes, and pushes them back with
`csystem_grow_transition_stack_restore`. No snapshot of the store is kept: a
mutex transition carries the shadow it found, and the init of a mutex without a
shadow records `MUTEX_UNKNOWN`, which tells the revert code to hand the slot
back. This module proves that this record is enough. Along any run of such
transitions from `csystem_init`, popping back to any depth gives the height and
mutex store of the shorter run, and pushing the popped transitions back gives
the original transition stack and store.

Stores are compared with `MutexStore.LiveEq`: a revert leaves the contents of a
slot it frees behind, which a fresh run never wrote.
-/

import McMini.ConcurrentSystem.Operations

namespace McMini.ConcurrentSystem

namespace MutexStore

/-- Every mapped slot lies at or below `mut_next`, so the slot the next init
takes is not live. -/
def SlotsBelowNext (m : MutexStore) : Prop :=
  ∀ a slot, m.mutexMap a = some slot → (slot : Int) ≤ m.mutNext

/-- Agreement on the mapped slots is all `LiveEq` asks beyond `mut_next` and the map. -/
theorem LiveEq.of_locks {m n : MutexStore} (hnext : m.mutNext = n.mutNext)
    (hmap : m.mutexMap = n.mutexMap)
    (hlocks : ∀ a slot, m.mutexMap a = some slot → m.locks slot = n.locks slot) : LiveEq m n := by
  refine ⟨hnext, hmap, funext fun a => ?_⟩
  cases hslot : m.mutexMap a with
  | none => simp [shadowOf, hslot, ← hmap]
  | some slot => simp [shadowOf, hslot, ← hmap, hlocks a slot hslot]

theorem LiveEq.slotsBelowNext {m n : MutexStore} (h : LiveEq m n) (hm : m.SlotsBelowNext) :
    n.SlotsBelowNext := by
  intro a slot hslot
  rw [← h.mutNext_eq]
  exact hm a slot (by rwa [h.mutexMap_eq])

/-- Writing one value into one slot of two agreeing stores, while the new map
only adds entries to that slot, keeps them agreeing. -/
theorem LiveEq.update {m n : MutexStore} (h : LiveEq m n) {map' : Addr → Option Nat} {j : Nat}
    (hmap : ∀ a slot, map' a = some slot → slot = j ∨ m.mutexMap a = some slot)
    (next : Int) (v : Mutex) :
    LiveEq ⟨next, map', Function.update m.locks j v⟩ ⟨next, map', Function.update n.locks j v⟩ :=
  .of_locks rfl rfl fun a slot hslot => by
    rcases hmap a slot hslot with rfl | hold
    · simp
    · by_cases hj : slot = j
      · subst hj
        simp
      · simp [Function.update_noteq hj, h.locks_eq hold]

theorem eq_some_of_update_none {f : Addr → Option Nat} {a b : Addr} {slot : Nat}
    (h : Function.update f a none b = some slot) : f b = some slot := by
  by_cases hb : b = a
  · subst hb
    simp at h
  · rwa [Function.update_noteq hb] at h

/-- A map with fewer entries over the same slots keeps two stores agreeing. -/
theorem LiveEq.restrict {m n : MutexStore} (h : LiveEq m n) {map' : Addr → Option Nat}
    (hmap : ∀ a slot, map' a = some slot → m.mutexMap a = some slot) (next : Int) :
    LiveEq ⟨next, map', m.locks⟩ ⟨next, map', n.locks⟩ :=
  .of_locks rfl rfl fun a slot hslot => h.locks_eq (hmap a slot hslot)

end MutexStore

open MutexStore

/-- `t` carries the shadow state it found in `m`: an init finds no shadow and
records `MUTEX_UNKNOWN`, a lock or unlock records the live shadow of its
mutex. Thread-lifecycle transitions record nothing. -/
def Recorded (m : MutexStore) (t : Transition) : Prop :=
  match t.operation with
  | .mutex op =>
      match op.type with
      | .init => m.mutexMap op.mutex.mutex = none ∧ op.mutex.state = .unknown
      | _ => m.shadowOf op.mutex.mutex = some op.mutex
  | .threadLifecycle _ => True

instance (m : MutexStore) (t : Transition) : Decidable (Recorded m t) :=
  match t with
  | ⟨_, .mutex ⟨.init, mu⟩⟩ =>
      inferInstanceAs (Decidable (m.mutexMap mu.mutex = none ∧ mu.state = .unknown))
  | ⟨_, .mutex ⟨.lock, mu⟩⟩ => inferInstanceAs (Decidable (m.shadowOf mu.mutex = some mu))
  | ⟨_, .mutex ⟨.unlock, mu⟩⟩ => inferInstanceAs (Decidable (m.shadowOf mu.mutex = some mu))
  | ⟨_, .threadLifecycle _⟩ => inferInstanceAs (Decidable True)

section Store

variable {L : Limits}

theorem applyInit_eq_ok {m m' : MutexStore} {mu : Mutex} :
    csystemVirtuallyApplyMutexOperation L m ⟨.init, mu⟩ = .ok m' ↔
      (0 ≤ m.mutNext + 1 ∧ m.mutNext + 1 < L.maxMutexObjectCount) ∧
      m' = ⟨m.mutNext + 1, Function.update m.mutexMap mu.mutex (some (m.mutNext + 1).toNat),
        Function.update m.locks (m.mutNext + 1).toNat mu⟩ := by
  simp only [csystemVirtuallyApplyMutexOperation, except_bind_eq_ok, storeSlot_eq_ok,
    except_pure_eq_ok]
  constructor
  · rintro ⟨_, ⟨hbound, rfl⟩, rfl⟩
    exact ⟨hbound, rfl⟩
  · rintro ⟨hbound, rfl⟩
    exact ⟨_, ⟨hbound, rfl⟩, rfl⟩

/-- Applying a transition keeps every mapped slot at or below `mut_next`. -/
theorem slotsBelowNext_apply {m m' : MutexStore} {t : Transition} (hm : m.SlotsBelowNext)
    (h : csystemVirtuallyApplyTransition L m t = .ok m') : m'.SlotsBelowNext := by
  unfold csystemVirtuallyApplyTransition at h
  rcases t with ⟨_, ⟨⟨_ | _ | _, mu⟩⟩ | _⟩
  case init =>
    obtain ⟨hbound, rfl⟩ := applyInit_eq_ok.mp h
    intro a slot hslot
    dsimp only at hslot ⊢
    by_cases ha : a = mu.mutex
    · subst ha
      simp only [Function.update_same, Option.some.injEq] at hslot
      omega
    · rw [Function.update_noteq ha] at hslot
      have := hm a slot hslot
      omega
  case lock | unlock =>
    obtain ⟨_, -, rfl⟩ := MutexStore.setShadowState_eq_ok.mp h
    exact hm
  case threadLifecycle =>
    cases h
    exact hm

/-- Applying one transition to two agreeing stores succeeds for both or fails
for both, and the results agree again. -/
theorem MutexStore.LiveEq.apply {m n m' : MutexStore} {t : Transition} (hlive : LiveEq m n)
    (h : csystemVirtuallyApplyTransition L m t = .ok m') :
    ∃ n', csystemVirtuallyApplyTransition L n t = .ok n' ∧ LiveEq m' n' := by
  unfold csystemVirtuallyApplyTransition at h ⊢
  rcases t with ⟨_, ⟨⟨_ | _ | _, mu⟩⟩ | _⟩
  case init =>
    obtain ⟨hbound, rfl⟩ := applyInit_eq_ok.mp h
    rw [hlive.mutNext_eq] at hbound ⊢
    refine ⟨_, applyInit_eq_ok.mpr ⟨hbound, rfl⟩, ?_⟩
    rw [← hlive.mutexMap_eq]
    refine hlive.update (fun a slot hslot => ?_) _ mu
    by_cases ha : a = mu.mutex
    · subst ha
      simp_all [hlive.mutNext_eq]
    · exact .inr (by rwa [Function.update_noteq ha] at hslot)
  case lock | unlock =>
    obtain ⟨slot, hslot, rfl⟩ := MutexStore.setShadowState_eq_ok.mp h
    refine ⟨_, MutexStore.setShadowState_eq_ok.mpr ⟨slot, hlive.mutexMap_eq ▸ hslot, rfl⟩, ?_⟩
    rw [← hlive.locks_eq hslot, ← hlive.mutexMap_eq, ← hlive.mutNext_eq]
    exact hlive.update (fun _ _ h => .inr h) _ _
  case threadLifecycle =>
    cases h
    exact ⟨n, rfl, hlive⟩

theorem revertShadow_eq_ok {m m' : MutexStore} {type : MutexOperationType} {mu : Mutex}
    (htype : type ≠ .init) :
    csystemVirtuallyRevertMutexOperation m ⟨type, mu⟩ = .ok m' ↔
      ∃ slot, m.mutexMap mu.mutex = some slot ∧
        m' = { m with locks := Function.update m.locks slot mu } := by
  cases type
  case init => exact absurd rfl htype
  all_goals
    simp only [csystemVirtuallyRevertMutexOperation, except_bind_eq_ok, except_pure_eq_ok,
      getShadow_eq_ok]
    exact exists_congr fun _ => and_congr_right fun _ => eq_comm

/-- Reverting one transition in two agreeing stores succeeds for both or fails
for both, and the results agree again. -/
theorem MutexStore.LiveEq.revert {m n m' : MutexStore} {t : Transition} (hlive : LiveEq m n)
    (h : csystemVirtuallyRevertOperation m t = .ok m') :
    ∃ n', csystemVirtuallyRevertOperation n t = .ok n' ∧ LiveEq m' n' := by
  unfold csystemVirtuallyRevertOperation at h ⊢
  rcases t with ⟨_, ⟨⟨type, mu⟩⟩ | _⟩
  · by_cases htype : type = .init
    · subst htype
      simp only [csystemVirtuallyRevertMutexOperation] at h ⊢
      by_cases hunknown : mu.state = .unknown
      · rw [if_pos hunknown] at h ⊢
        cases h
        refine ⟨_, rfl, ?_⟩
        rw [hlive.mutNext_eq, hlive.mutexMap_eq]
        exact (LiveEq.restrict hlive.symm (fun _ _ => eq_some_of_update_none) _).symm
      · rw [if_neg hunknown] at h ⊢
        cases h
        exact ⟨n, rfl, hlive⟩
    · obtain ⟨slot, hslot, rfl⟩ := (revertShadow_eq_ok htype).mp h
      refine ⟨_, (revertShadow_eq_ok htype).mpr ⟨slot, hlive.mutexMap_eq ▸ hslot, rfl⟩, ?_⟩
      rw [← hlive.mutexMap_eq, ← hlive.mutNext_eq]
      exact hlive.update (fun _ _ h => .inr h) _ _
  · cases h
    exact ⟨n, rfl, hlive⟩

/-- Reverting a recorded transition right after applying it gives back a store
that agrees with the one it was applied to. -/
theorem revert_apply {m m' : MutexStore} {t : Transition} (hm : m.SlotsBelowNext)
    (hrec : Recorded m t) (h : csystemVirtuallyApplyTransition L m t = .ok m') :
    ∃ m'', csystemVirtuallyRevertOperation m' t = .ok m'' ∧ LiveEq m'' m := by
  unfold csystemVirtuallyApplyTransition at h
  unfold csystemVirtuallyRevertOperation
  rcases t with ⟨_, ⟨⟨_ | _ | _, mu⟩⟩ | _⟩
  case init =>
    obtain ⟨hnone, hunknown⟩ := hrec
    dsimp only at hnone hunknown
    obtain ⟨hbound, rfl⟩ := applyInit_eq_ok.mp h
    simp only [csystemVirtuallyRevertMutexOperation, Function.update_idem]
    rw [if_pos hunknown]
    refine ⟨_, rfl, .of_locks (by simp) ?_ fun a slot hslot => ?_⟩
    · exact Function.update_eq_self_iff.mpr hnone.symm
    · have := hm a slot (eq_some_of_update_none hslot)
      exact Function.update_noteq (by omega) _ _
  case lock | unlock =>
    obtain ⟨slot, hslot, rfl⟩ := MutexStore.setShadowState_eq_ok.mp h
    have hmu : m.locks slot = mu := by simpa [Recorded, shadowOf, hslot] using hrec
    refine ⟨m, (revertShadow_eq_ok (by decide)).mpr ⟨slot, hslot, ?_⟩, .refl m⟩
    simp [Function.update_idem, ← hmu]
  case threadLifecycle =>
    cases h
    exact ⟨m, rfl, .refl m⟩

end Store


section Runs

variable (L : Limits)

/-- One step of an execution as the scheduler drives it: `t` is stored as its
thread's next transition and `csystem_run` executes that thread. -/
def runTransition (s : CSystem) (t : Transition) : Except Fault CSystem :=
  csystemRun L (s.setNextTransition t.thread t) t.thread

/-- The execution of `ts` in order. -/
def runTransitions (s : CSystem) (ts : List Transition) : Except Fault CSystem :=
  ts.foldlM (runTransition L) s

/-- `n` calls of `csystem_shrink_transition_stack`. -/
def shrinkTransitionStackTimes : Nat → CSystem → Except Fault CSystem
  | 0, s => pure s
  | n + 1, s => do
      let s ← shrinkTransitionStackTimes n s
      let popped ← csystemShrinkTransitionStack s
      pure popped.1

/-- `csystem_grow_transition_stack_restore` of each transition of `ts` in order. -/
def restoreTransitions (s : CSystem) (ts : List Transition) : Except Fault CSystem :=
  ts.foldlM (csystemGrowTransitionStackRestore L) s

/-- `s'` is reached from `s` by executing `ts`, each transition carrying the
shadow state it found. -/
inductive RecordedRun : CSystem → List Transition → CSystem → Prop
  | nil (s : CSystem) : RecordedRun s [] s
  | cons {s s₁ s₂ : CSystem} {t : Transition} {ts : List Transition} :
      Recorded s.mutexes t → runTransition L s t = .ok s₁ → RecordedRun s₁ ts s₂ →
      RecordedRun s (t :: ts) s₂

variable {L}

/-- One step pushes `t` above the old top and applies it to the mutexes. -/
theorem runTransition_eq_ok {s s' : CSystem} {t : Transition} (h : runTransition L s t = .ok s') :
    (0 ≤ s.tStackTop + 1 ∧ s.tStackTop + 1 < L.maxVisibleOperationDepth) ∧
      csystemVirtuallyApplyTransition L s.mutexes t = .ok s'.mutexes ∧
      s'.tStackTop = s.tStackTop + 1 ∧
      s'.tStack = Function.update s.tStack (s.tStackTop + 1).toNat t := by
  obtain ⟨s₁, hgrow, hstate⟩ := except_bind_eq_ok.mp h
  simp only [csystemGrowTransitionStack, CSystem.setNextTransition, Function.update_same] at hgrow
  obtain ⟨hbound, mutexes, happly, rfl⟩ := (csystemGrowTransitionStackRestore_eq_ok L).mp hgrow
  obtain ⟨-, rfl⟩ := (csystemGrowStateStack_eq_ok L).mp hstate
  exact ⟨hbound, happly, rfl, rfl⟩

variable (L) in
/-- Execute `ts` from `s`, checking before each step that the transition is
recorded: the end of the run, when every step passes. -/
def recordedRunEnd (s : CSystem) : List Transition → Option CSystem
  | [] => some s
  | t :: ts =>
      if Recorded s.mutexes t then
        match runTransition L s t with
        | .ok s₁ => recordedRunEnd s₁ ts
        | .error _ => none
      else none

namespace RecordedRun

variable {s s' : CSystem} {ts : List Transition}

theorem of_recordedRunEnd (h : recordedRunEnd L s ts = some s') : RecordedRun L s ts s' := by
  induction ts generalizing s with
  | nil =>
      cases h
      exact .nil _
  | cons t ts ih =>
      unfold recordedRunEnd at h
      split at h
      · split at h
        · exact .cons ‹_› ‹_› (ih h)
        · cases h
      · cases h

/-- A run from `csystem_init` checked by `recordedRunEnd`. -/
theorem of_init_recordedRunEnd (L : Limits) (m : CSystem) (ts : List Transition) {s : CSystem}
    (h : (csystemInit L m).toOption.bind (recordedRunEnd L · ts) = some s) :
    ∃ s₀, csystemInit L m = .ok s₀ ∧ RecordedRun L s₀ ts s := by
  cases hinit : csystemInit L m with
  | error => simp [hinit, Except.toOption] at h
  | ok s₀ =>
      rw [hinit] at h
      exact ⟨s₀, rfl, of_recordedRunEnd h⟩

theorem tStackTop_eq (h : RecordedRun L s ts s') : s'.tStackTop = s.tStackTop + ts.length := by
  induction h with
  | nil => simp
  | cons _ hrun _ ih =>
      rw [ih, (runTransition_eq_ok hrun).2.2.1, List.length_cons]
      omega

/-- A run writes the transition stack only above the top it started from. -/
theorem tStack_below (h : RecordedRun L s ts s') (k : Nat) (hk : (k : Int) ≤ s.tStackTop) :
    s'.tStack k = s.tStack k := by
  induction h with
  | nil => rfl
  | cons _ hrun _ ih =>
      obtain ⟨hbound, -, htop, hstack⟩ := runTransition_eq_ok hrun
      rw [ih (by omega), hstack, Function.update_noteq (by omega)]

theorem slotsBelowNext (h : RecordedRun L s ts s') (hm : s.mutexes.SlotsBelowNext) :
    s'.mutexes.SlotsBelowNext := by
  induction h with
  | nil => exact hm
  | cons _ hrun _ ih => exact ih (slotsBelowNext_apply hm (runTransition_eq_ok hrun).2.1)

theorem runTransitions_eq (h : RecordedRun L s ts s') : runTransitions L s ts = .ok s' := by
  induction h with
  | nil => rfl
  | cons _ hrun _ ih => simpa [runTransitions, hrun] using ih

theorem split {xs ys : List Transition} (h : RecordedRun L s (xs ++ ys) s') :
    ∃ s₁, RecordedRun L s xs s₁ ∧ RecordedRun L s₁ ys s' := by
  induction xs generalizing s with
  | nil => exact ⟨s, .nil s, h⟩
  | cons t xs ih =>
      cases h with
      | cons hrec hrun hrest =>
          obtain ⟨s₁, hxs, hys⟩ := ih hrest
          exact ⟨s₁, .cons hrec hrun hxs, hys⟩

/-- Popping every transition of a recorded run gives back the height and, up
to dead slots, the mutex store it started from. -/
theorem shrink (h : RecordedRun L s ts s') (hm : s.mutexes.SlotsBelowNext) :
    ∃ s'', shrinkTransitionStackTimes ts.length s' = .ok s'' ∧ s''.tStackTop = s.tStackTop ∧
      MutexStore.LiveEq s''.mutexes s.mutexes ∧ s''.tStack = s'.tStack := by
  induction h with
  | nil s => exact ⟨s, rfl, rfl, .refl _, rfl⟩
  | @cons s s₁ s₂ t ts hrec hrun hrest ih =>
      obtain ⟨hbound, happly, htop, hstack⟩ := runTransition_eq_ok hrun
      obtain ⟨s'', hshrink, htop'', hlive'', hstack''⟩ := ih (slotsBelowNext_apply hm happly)
      have hpopped : s''.tStack s''.tStackTop.toNat = t := by
        rw [hstack'', htop'', hrest.tStack_below s₁.tStackTop.toNat (by omega), htop, hstack,
          Function.update_same]
      obtain ⟨m, hrevert, hlive⟩ := revert_apply hm hrec happly
      obtain ⟨n, hrevert', hlive'⟩ := hlive''.symm.revert hrevert
      refine ⟨{ s'' with tStackTop := s''.tStackTop - 1, mutexes := n,
                         tNext := Function.update s''.tNext t.thread t },
        ?_, ?_, hlive'.symm.trans hlive, hstack''⟩
      · rw [List.length_cons, shrinkTransitionStackTimes, hshrink, except_ok_bind,
          csystemShrinkTransitionStack_eq_ok.mpr ⟨by omega, hpopped.symm, n, hpopped ▸ hrevert', rfl⟩]
        rfl
      · simp only
        omega

/-- Pushing the transitions of a recorded run back onto a stack that agrees with
its start, and whose slots still hold them, ends where the run ended. -/
theorem restore (h : RecordedRun L s ts s') (s₀ : CSystem)
    (hlive : MutexStore.LiveEq s₀.mutexes s.mutexes) (htop : s₀.tStackTop = s.tStackTop)
    (hstack : s₀.tStack = s'.tStack) :
    ∃ s'', restoreTransitions L s₀ ts = .ok s'' ∧ s''.tStackTop = s'.tStackTop ∧
      MutexStore.LiveEq s''.mutexes s'.mutexes ∧ s''.tStack = s'.tStack := by
  induction h generalizing s₀ with
  | nil s => exact ⟨s₀, rfl, htop, hlive, hstack⟩
  | @cons s s₁ s₂ t ts hrec hrun hrest ih =>
      obtain ⟨hbound, happly, htop₁, hstack₁⟩ := runTransition_eq_ok hrun
      obtain ⟨n, happly', hlive'⟩ := hlive.symm.apply happly
      have hslot : s₂.tStack (s.tStackTop + 1).toNat = t := by
        rw [← htop₁, hrest.tStack_below s₁.tStackTop.toNat (by omega), htop₁, hstack₁,
          Function.update_same]
      have hgrow : csystemGrowTransitionStackRestore L s₀ t =
          .ok { s₀ with tStackTop := s₁.tStackTop, mutexes := n, tStack := s₂.tStack } := by
        refine (csystemGrowTransitionStackRestore_eq_ok L).mpr ⟨by omega, n, happly', ?_⟩
        rw [hstack, htop, htop₁, ← hslot, Function.update_eq_self]
      obtain ⟨s'', hrestore, hrest'⟩ :=
        ih { s₀ with tStackTop := s₁.tStackTop, mutexes := n, tStack := s₂.tStack } hlive'.symm rfl rfl
      exact ⟨s'', by simpa [restoreTransitions, hgrow] using hrestore, hrest'⟩

end RecordedRun

end Runs

/-- Backtracking along a recorded run from `csystem_init`: popping the run back to
any depth `k` gives the transition-stack height and the mutex store of the first
`k` transitions run alone, and pushing the popped transitions back in order
restores the transition stack and the mutex store of the whole run. -/
theorem recordedRun_shrink_restore {L : Limits} {m s₀ s : CSystem} {ts : List Transition}
    (hinit : csystemInit L m = .ok s₀) (hrun : RecordedRun L s₀ ts s) (k : Nat) :
    ∃ s', shrinkTransitionStackTimes (ts.length - k) s = .ok s' ∧
      (∃ sk, runTransitions L s₀ (ts.take k) = .ok sk ∧ s'.tStackTop = sk.tStackTop ∧
        MutexStore.LiveEq s'.mutexes sk.mutexes) ∧
      ∃ s'', restoreTransitions L s' (ts.drop k) = .ok s'' ∧ s''.tStackTop = s.tStackTop ∧
        s''.tStack = s.tStack ∧ MutexStore.LiveEq s''.mutexes s.mutexes := by
  have hempty : s₀.mutexes.SlotsBelowNext := by
    obtain ⟨-, rfl⟩ := (csystemGrowStateStack_eq_ok L).mp hinit
    intro _ _ hslot
    cases hslot
  rw [← List.take_append_drop k ts] at hrun
  obtain ⟨sk, hfirst, hrest⟩ := hrun.split
  obtain ⟨s', hshrink, htop, hlive, hstack⟩ := hrest.shrink (hfirst.slotsBelowNext hempty)
  obtain ⟨s'', hrestore, hrestored⟩ := hrest.restore s' hlive htop hstack
  rw [List.length_drop] at hshrink
  exact ⟨s', hshrink, ⟨sk, hfirst.runTransitions_eq, htop, hlive⟩, s'', hrestore,
    hrestored.1, hrestored.2.2, hrestored.2.1⟩

/-- Init, lock and unlock of one mutex, popped back to depth one and replayed. -/
theorem recordedRun_shrink_restore_initLockUnlock :
    let L : Limits := ⟨1, 2, 4⟩
    let init : Transition := ⟨0, .mutex ⟨.init, ⟨7, .unknown⟩⟩⟩
    let lock : Transition := ⟨0, .mutex ⟨.lock, ⟨7, .unknown⟩⟩⟩
    let unlock : Transition := ⟨0, .mutex ⟨.unlock, ⟨7, .locked⟩⟩⟩
    ∃ s₀ s, csystemInit L (.staticStorage init) = .ok s₀ ∧
      RecordedRun L s₀ [init, lock, unlock] s ∧
      ∃ s', shrinkTransitionStackTimes 2 s = .ok s' ∧
        (∃ sk, runTransitions L s₀ [init] = .ok sk ∧ s'.tStackTop = sk.tStackTop ∧
          MutexStore.LiveEq s'.mutexes sk.mutexes) ∧
        ∃ s'', restoreTransitions L s' [lock, unlock] = .ok s'' ∧ s''.tStackTop = s.tStackTop ∧
          s''.tStack = s.tStack ∧ MutexStore.LiveEq s''.mutexes s.mutexes := by
  intro L init lock unlock
  obtain ⟨s₀, hinit, hrun⟩ :=
    RecordedRun.of_init_recordedRunEnd L (.staticStorage init) [init, lock, unlock] rfl
  exact ⟨s₀, _, hinit, hrun, recordedRun_shrink_restore hinit hrun 1⟩

end McMini.ConcurrentSystem
