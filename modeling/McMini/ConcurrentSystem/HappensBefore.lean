/-
# Happens-before on the transition stack

`happens_before` and `happens_before_thread` of `concurrent_system.c`, and the
relation the DPOR algorithm needs: the reflexive-transitive closure of
"executed by one thread or dependent" along the stack. The code relates `S_i`
only to the transitions it is directly dependent with, so its relation is one
step of that closure. This module proves the inclusion that does hold, and
`happensBeforeThread_misses_chain` shows a chain of two steps the code misses.
-/

import McMini.ConcurrentSystem.SpecAlgebra
import Mathlib.Logic.Relation

namespace McMini.ConcurrentSystem

section HappensBefore

variable (A : TransitionAlgebra)

/-- `happens_before(ref, i, j)`: `i ≤ j` and `S_i`, `S_j` are dependent. -/
def happensBefore (s : CSystem) (i j : Nat) : Bool :=
  decide (i ≤ j) && A.transitionsDependent (s.tStack i) (s.tStack j)

/-- `happens_before_thread(ref, i, p)`: some `S_k` with `i ≤ k ≤ t_stack_top`
that `happens_before(i, k)` is executed by `p`. -/
def happensBeforeThread (s : CSystem) (i : Nat) (p : Tid) : Bool :=
  (List.range' i ((s.tStackTop + 1).toNat - i)).any fun k =>
    happensBefore A s i k && (s.tStack k).thread == p

/-- One link of a happens-before chain: `j` is a later position of the stack,
and `S_i`, `S_j` are executed by one thread or dependent. -/
def HappensBeforeLink (s : CSystem) (i j : Nat) : Prop :=
  i < j ∧ (j : Int) ≤ s.tStackTop ∧
    ((s.tStack i).thread = (s.tStack j).thread ∨ A.transitionsDependent (s.tStack i) (s.tStack j))

/-- The happens-before relation of DPOR between position `i` and thread `p`: a
chain of links from `i`, possibly empty, reaches a transition `p` executes. -/
def HappensBeforeChain (s : CSystem) (i : Nat) (p : Tid) : Prop :=
  ∃ j, Relation.ReflTransGen (HappensBeforeLink A s) i j ∧ (s.tStack j).thread = p

variable {A}

/-- What the code computes: one position `k` of the live stack, at or after `i`,
dependent with `S_i` and executed by `p`. -/
theorem happensBeforeThread_iff {s : CSystem} {i : Nat} {p : Tid} :
    happensBeforeThread A s i p = true ↔
      ∃ k, i ≤ k ∧ (k : Int) ≤ s.tStackTop ∧
        A.transitionsDependent (s.tStack i) (s.tStack k) = true ∧ (s.tStack k).thread = p := by
  simp only [happensBeforeThread, happensBefore, List.any_eq_true, List.mem_range'_1,
    Bool.and_eq_true, decide_eq_true_eq, beq_iff_eq]
  constructor
  · rintro ⟨k, ⟨hik, hk⟩, ⟨-, hdep⟩, hp⟩
    exact ⟨k, hik, by omega, hdep, hp⟩
  · rintro ⟨k, hik, hk, hdep, hp⟩
    exact ⟨k, ⟨hik, by omega⟩, ⟨hik, hdep⟩, hp⟩

/-- Above the top of the stack there is nothing to happen before. -/
theorem happensBeforeThread_of_top_lt {s : CSystem} {i : Nat} (p : Tid)
    (htop : s.tStackTop < i) : happensBeforeThread A s i p = false := by
  rw [← Bool.not_eq_true, happensBeforeThread_iff]
  rintro ⟨k, hik, hk, -⟩
  omega

/-- Everything the code reports is a happens-before chain: a direct dependency
is a chain of one link, and `S_i` itself a chain of none. -/
theorem happensBeforeChain_of_happensBeforeThread {s : CSystem} {i : Nat} {p : Tid}
    (h : happensBeforeThread A s i p = true) : HappensBeforeChain A s i p := by
  obtain ⟨k, hik, hk, hdep, hp⟩ := happensBeforeThread_iff.mp h
  rcases Nat.eq_or_lt_of_le hik with rfl | hlt
  · exact ⟨i, .refl, hp⟩
  · exact ⟨k, .single ⟨hlt, hk, .inr hdep⟩, hp⟩

/-- Thread `1` takes the mutex thread `0` released: the code's answer is the
chain of that one link. -/
theorem happensBeforeChain_of_happensBeforeThread_unlockLock :
    let unlock₀ : Transition := ⟨0, .mutex ⟨.unlock, ⟨1, .locked⟩⟩⟩
    let lock₁ : Transition := ⟨1, .mutex ⟨.lock, ⟨1, .unlocked⟩⟩⟩
    let s : CSystem := { CSystem.staticStorage unlock₀ with
                         tStackTop := 1, tStack := fun k => [unlock₀, lock₁].getD k unlock₀ }
    happensBeforeThread SpecAlgebra.algebra s 0 1 = true ∧ HappensBeforeChain SpecAlgebra.algebra s 0 1 :=
  ⟨rfl, happensBeforeChain_of_happensBeforeThread rfl⟩

/-- From the top of the stack a chain has no link to take. -/
theorem happensBeforeChain_iff_of_top_le {s : CSystem} {i : Nat} {p : Tid}
    (htop : s.tStackTop ≤ i) : HappensBeforeChain A s i p ↔ (s.tStack i).thread = p := by
  refine ⟨fun ⟨j, hchain, hp⟩ => ?_, fun hp => ⟨i, .refl, hp⟩⟩
  rcases hchain.cases_head with rfl | ⟨c, ⟨hlt, hc, -⟩, -⟩
  · exact hp
  · omega

/-- Thread `0` releases mutex `1`, thread `1` takes it and releases mutex `2`,
thread `2` takes that. `S_0` happens before thread `2` through two links, and
no transition of thread `2` depends on `S_0` directly, so the code answers no. -/
theorem happensBeforeThread_misses_chain :
    let unlock₀ : Transition := ⟨0, .mutex ⟨.unlock, ⟨1, .locked⟩⟩⟩
    let lock₁ : Transition := ⟨1, .mutex ⟨.lock, ⟨1, .unlocked⟩⟩⟩
    let unlock₁ : Transition := ⟨1, .mutex ⟨.unlock, ⟨2, .locked⟩⟩⟩
    let lock₂ : Transition := ⟨2, .mutex ⟨.lock, ⟨2, .unlocked⟩⟩⟩
    let s : CSystem := { CSystem.staticStorage unlock₀ with
                         tStackTop := 3, tStack := fun k => [unlock₀, lock₁, unlock₁, lock₂].getD k unlock₀ }
    happensBeforeThread SpecAlgebra.algebra s 0 2 = false ∧
      HappensBeforeChain SpecAlgebra.algebra s 0 2 := by
  intro unlock₀ lock₁ unlock₁ lock₂ s
  have mutexOne : HappensBeforeLink SpecAlgebra.algebra s 0 1 := ⟨by decide, by decide, by decide⟩
  have threadOne : HappensBeforeLink SpecAlgebra.algebra s 1 2 := ⟨by decide, by decide, by decide⟩
  have mutexTwo : HappensBeforeLink SpecAlgebra.algebra s 2 3 := ⟨by decide, by decide, by decide⟩
  exact ⟨rfl, 3, ((Relation.ReflTransGen.single mutexOne).tail threadOne).tail mutexTwo, rfl⟩

end HappensBefore

end McMini.ConcurrentSystem
