/-
# Private shadow slots

`csystem_virtually_apply_mutex_operation` gives the mutex of an init the slot
`++mut_next` and records it in `mutex_map`; a lock or an unlock writes the state
of the slot the map names. Nothing in the code checks that two mutexes never
share a slot. It holds because every shadow records the mutex it belongs to,
which an init writes and a lock or an unlock keeps; because no slot in the map
is above `mut_next`, so the slot an init takes is free; and because the revert
of an init gives its slot back with `mut_next--` only in the order the inits
were made.

This module proves that the slots of every state the scheduler reaches are
private, and that a run of one mutex's transition therefore leaves the shadow of
every other mutex as it was.
-/

import McMini.ConcurrentSystem.Reachable

namespace McMini.ConcurrentSystem

open MutexStore

variable {A : TransitionAlgebra} {L : Limits}

namespace MutexStore

/-- Every live shadow records the mutex that maps to it, so no two mutexes
share a slot, and no slot is above `mut_next`. -/
structure SlotsPrivate (m : MutexStore) : Prop where
  owner : ∀ a slot, m.mutexMap a = some slot → (m.locks slot).mutex = a
  slotsBelowNext : m.SlotsBelowNext

theorem SlotsPrivate.injective {m : MutexStore} (h : m.SlotsPrivate) {a b : Addr} {slot : Nat}
    (ha : m.mutexMap a = some slot) (hb : m.mutexMap b = some slot) : a = b :=
  (h.owner a slot ha).symm.trans (h.owner b slot hb)

theorem SlotsPrivate.of_liveEq {m n : MutexStore} (h : m.SlotsPrivate) (hlive : LiveEq m n) :
    n.SlotsPrivate := by
  refine ⟨fun a slot ha => ?_, hlive.slotsBelowNext h.slotsBelowNext⟩
  have ha' : m.mutexMap a = some slot := hlive.mutexMap_eq ▸ ha
  have hshadow := congrFun hlive.shadowOf_eq a
  simp only [shadowOf, ha, ha', Option.map_some', Option.some.injEq] at hshadow
  rw [← hshadow]
  exact h.owner a slot ha'

/-- The slot of an init is above every mapped one. -/
theorem SlotsPrivate.init_fresh {m : MutexStore} (h : m.SlotsPrivate) (h0 : 0 ≤ m.mutNext + 1)
    (a : Addr) : m.mutexMap a ≠ some (m.mutNext + 1).toNat := fun ha => by
  have := h.slotsBelowNext a _ ha
  omega

/-- Every operation keeps the slots private: an init writes a free slot, and a
lock or an unlock keeps the mutex recorded in the slot it writes. -/
theorem SlotsPrivate.apply {m m' : MutexStore} {t : Transition} (h : m.SlotsPrivate)
    (happly : csystemVirtuallyApplyTransition L m t = .ok m') : m'.SlotsPrivate := by
  refine ⟨?_, slotsBelowNext_apply h.slotsBelowNext happly⟩
  unfold csystemVirtuallyApplyTransition at happly
  rcases t with ⟨_, ⟨⟨_ | _ | _, mu⟩⟩ | _⟩
  case init =>
    obtain ⟨⟨h0, -⟩, rfl⟩ := applyInit_eq_ok.mp happly
    intro a slot ha
    dsimp only at ha ⊢
    by_cases ha' : a = mu.mutex
    · rw [ha', Function.update_same, Option.some.injEq] at ha
      rw [← ha, Function.update_same, ha']
    · rw [Function.update_noteq ha'] at ha
      have hne : slot ≠ (m.mutNext + 1).toNat := fun e => h.init_fresh h0 a (e ▸ ha)
      rw [Function.update_noteq hne, h.owner a slot ha]
  case lock | unlock =>
    obtain ⟨written, -, rfl⟩ := setShadowState_eq_ok.mp happly
    intro a slot ha
    dsimp only at ha ⊢
    by_cases e : slot = written
    · rw [e, Function.update_same, ← e, h.owner a slot ha]
    · rw [Function.update_noteq e, h.owner a slot ha]
  case threadLifecycle =>
    cases happly
    exact h.owner

/-- With private slots, an operation on mutex `a` writes a slot no other mutex
maps to: the shadow of every other mutex stays as it was. -/
theorem SlotsPrivate.shadowOf_apply {m m' : MutexStore} {t : Transition} (h : m.SlotsPrivate)
    (happly : csystemVirtuallyApplyTransition L m t = .ok m') {b : Addr}
    (hb : ∀ op, t.operation = .mutex op → op.mutex.mutex ≠ b) : m'.shadowOf b = m.shadowOf b := by
  unfold csystemVirtuallyApplyTransition at happly
  rcases t with ⟨_, ⟨⟨_ | _ | _, mu⟩⟩ | _⟩
  case init =>
    obtain ⟨⟨h0, -⟩, rfl⟩ := applyInit_eq_ok.mp happly
    have hne : b ≠ mu.mutex := (hb _ rfl).symm
    cases hslot : m.mutexMap b with
    | none => simp [shadowOf, Function.update_noteq hne, hslot]
    | some slot =>
        have hfresh : slot ≠ (m.mutNext + 1).toNat := fun he => h.init_fresh h0 b (he ▸ hslot)
        simp [shadowOf, Function.update_noteq hne, hslot, Function.update_noteq hfresh]
  case lock | unlock =>
    obtain ⟨slot, ha, rfl⟩ := setShadowState_eq_ok.mp happly
    cases hslot : m.mutexMap b with
    | none => simp [shadowOf, hslot]
    | some slot' =>
        have hne : slot' ≠ slot := fun he => hb _ rfl (h.injective ha (he ▸ hslot))
        simp [shadowOf, hslot, Function.update_noteq hne]
  case threadLifecycle =>
    cases happly
    rfl

end MutexStore

theorem csystemRun_mutexes {s s' : CSystem} {tid : Tid} (h : csystemRun L s tid = .ok s') :
    csystemVirtuallyApplyTransition L s.mutexes (s.tNext tid) = .ok s'.mutexes := by
  obtain ⟨s₁, hgrow, hstate⟩ := except_bind_eq_ok.mp h
  obtain ⟨-, mutexes, happly, rfl⟩ := (csystemGrowTransitionStackRestore_eq_ok L).mp hgrow
  obtain ⟨-, rfl⟩ := (csystemGrowStateStack_eq_ok L).mp hstate
  exact happly

/-- The run lemma: a recorded run keeps the slots private. -/
theorem RecordedRun.slotsPrivate {s s' : CSystem} {ts : List Transition}
    (hrun : RecordedRun L s ts s') (h : s.mutexes.SlotsPrivate) : s'.mutexes.SlotsPrivate := by
  induction hrun with
  | nil => exact h
  | cons _ hstep _ ih => exact ih (h.apply (runTransition_eq_ok hstep).2.1)

/-- The stacks of a recorded run from `csystem_init` come with private slots:
the store agrees with the end of that run, which starts from an empty map. -/
theorem StacksOfRecordedRun.slotsPrivate {s : CSystem} (h : StacksOfRecordedRun L s) :
    s.mutexes.SlotsPrivate := by
  obtain ⟨m, s₀, s₁, hinit, hrun, hlive, -, -⟩ := h.recorded
  have h₀ : s₀.mutexes.SlotsPrivate := by
    obtain ⟨-, rfl⟩ := (csystemGrowStateStack_eq_ok L).mp hinit
    exact ⟨(fun _ _ ha => nomatch ha), fun _ _ ha => nomatch ha⟩
  exact (hrun.slotsPrivate h₀).of_liveEq hlive.symm

/-- In every state the scheduler reaches, distinct mutexes have distinct shadow
slots, none above `mut_next`; so `csystem_run` of any next transition keeps them
private and leaves the shadow of every mutex the transition does not name as it
was. -/
theorem slotsPrivate_of_reachable {s : CSystem} (h : Reachable A L s) :
    s.mutexes.SlotsPrivate ∧ ∀ tid s', csystemRun L s tid = .ok s' →
      s'.mutexes.SlotsPrivate ∧ ∀ b, (∀ op, (s.tNext tid).operation = .mutex op → op.mutex.mutex ≠ b) →
        s'.mutexes.shadowOf b = s.mutexes.shadowOf b := by
  have hs := h.stacksOfRecordedRun.slotsPrivate
  exact ⟨hs, fun _ _ hrun => ⟨hs.apply (csystemRun_mutexes hrun),
    fun _ hb => hs.shadowOf_apply (csystemRun_mutexes hrun) hb⟩⟩

/-- Thread `0` initialises mutex `5`, then mutex `6`. -/
theorem slotsPrivate_of_reachable_twoInits :
    let L : Limits := ⟨1, 2, 4⟩
    ∃ s, Reachable SpecAlgebra.algebra L s ∧ s.mutexes.SlotsPrivate ∧
      ∀ tid s', csystemRun L s tid = .ok s' → s'.mutexes.SlotsPrivate ∧
        ∀ b, (∀ op, (s.tNext tid).operation = .mutex op → op.mutex.mutex ≠ b) →
          s'.mutexes.shadowOf b = s.mutexes.shadowOf b := by
  intro L
  let init₅ : Transition := ⟨0, .mutex ⟨.init, ⟨5, .unknown⟩⟩⟩
  let init₆ : Transition := ⟨0, .mutex ⟨.init, ⟨6, .unknown⟩⟩⟩
  have hs₅ : Reachable SpecAlgebra.algebra L _ :=
    .step (c := .run 0) (.step (c := .setNextTransition 0 init₅)
      (.step (c := .registerThread) (.init (m := .staticStorage init₅) rfl) trivial rfl) trivial rfl)
      (by unfold ApiCall.KeepsStacks; decide) rfl
  have hs₆ : Reachable SpecAlgebra.algebra L _ :=
    .step (c := .run 0) (.step (c := .setNextTransition 0 init₆) hs₅ trivial rfl)
      (by unfold ApiCall.KeepsStacks; decide) rfl
  exact ⟨_, hs₆, slotsPrivate_of_reachable hs₆⟩

end McMini.ConcurrentSystem
