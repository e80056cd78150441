/-
# Visible objects

`visible_object` of the design: the history of states of one object a program's
threads communicate through, oldest first. The public constructor pushes the
initial state; `slice(k)` copies the first `k` states into a new object through
the private constructor, and `clone()` is `slice(get_num_states())`.

States are values here, and `visible_object_state::clone`, declared outside the
sources, is the deep copy the design describes, so a copied state is the state
itself. `slice` counts its index in an `int`, whose increment past `INT_MAX` is
undefined behaviour; a model run that performs it ends with
`Fault.signedOverflow`.
-/

import Mathlib.Data.List.Basic

namespace McMini.Design

/-- How a model run of the design code stops early: a failed
`asserts::assert_condition` with its message, `std::vector::at` out of range,
`back()` of an empty vector, or an `int` incremented past `INT_MAX`. -/
inductive Fault
  | assertion (message : String)
  | outOfRange
  | emptyBack
  | signedOverflow
  deriving DecidableEq, Repr

/-- `INT_MAX` of a 32-bit `int`, `2^31 - 1`. -/
def intMax : Nat := 2147483647

/-- `visible_object`: its history of states. -/
structure VisibleObject (σ : Type) where
  history : List σ
  deriving DecidableEq, Repr

namespace VisibleObject

variable {σ : Type}

/-- `push_state`. -/
def pushState (o : VisibleObject σ) (s : σ) : VisibleObject σ := ⟨o.history ++ [s]⟩

/-- The public constructor: `push_state` of the initial state. -/
def ofInitial (initial : σ) : VisibleObject σ := pushState ⟨[]⟩ initial

/-- `get_num_states`. -/
def getNumStates (o : VisibleObject σ) : Nat := o.history.length

/-- `get_current_state`: `history.back()`. -/
def getCurrentState (o : VisibleObject σ) : Except Fault σ :=
  match o.history.getLast? with
  | some s => pure s
  | none => throw .emptyBack

/-- `history.at(j)`. -/
def stateAt (o : VisibleObject σ) (j : Nat) : Except Fault σ :=
  match o.history[j]? with
  | some s => pure s
  | none => throw .outOfRange

/-- The loop of `slice` with `n` iterations left and index `j`: copy state `j`,
then `j++`. -/
def sliceLoop (o : VisibleObject σ) : Nat → Nat → List σ → Except Fault (List σ)
  | 0, _, acc => pure acc
  | n + 1, j, acc => do
      let s ← o.stateAt j
      if j = intMax then throw .signedOverflow
      sliceLoop o n (j + 1) (acc ++ [s])

/-- `slice(num_states)`. -/
def slice (o : VisibleObject σ) (numStates : Nat) : Except Fault (VisibleObject σ) := do
  let states ← o.sliceLoop numStates 0 []
  pure ⟨states⟩

/-- `clone()`. -/
def clone (o : VisibleObject σ) : Except Fault (VisibleObject σ) := o.slice o.getNumStates

theorem stateAt_of_lt {o : VisibleObject σ} {j : Nat} (h : j < o.history.length) :
    o.stateAt j = pure (o.history.get ⟨j, h⟩) := by
  simp [stateAt, List.getElem?_eq_getElem h]

/-- Within the history and below `INT_MAX` the loop copies `n` states from `j`. -/
theorem sliceLoop_eq {o : VisibleObject σ} (n : Nat) :
    ∀ j acc, j + n ≤ o.history.length → j + n ≤ intMax →
      o.sliceLoop n j acc = pure (acc ++ (o.history.drop j).take n) := by
  induction n with
  | zero =>
      intro j acc _ _
      rw [sliceLoop, List.take_zero, List.append_nil]
  | succ n ih =>
      intro j acc hlen hmax
      have hj : j < o.history.length := by omega
      rw [sliceLoop, stateAt_of_lt hj, pure_bind, if_neg (by omega),
        ih (j + 1) _ (by omega) (by omega), List.drop_eq_getElem_cons hj, List.take_succ_cons]
      simp

/-- Reaching index `INT_MAX` inside the history, the loop's increment overflows. -/
theorem sliceLoop_overflow {o : VisibleObject σ} (n : Nat) :
    ∀ j acc, j ≤ intMax → intMax < j + n → j + n ≤ o.history.length →
      o.sliceLoop n j acc = throw .signedOverflow := by
  induction n with
  | zero => intro j acc _ h _; omega
  | succ n ih =>
      intro j acc hj hover hlen
      rw [sliceLoop, stateAt_of_lt (by omega), pure_bind]
      by_cases hmax : j = intMax
      · rw [if_pos hmax]
        rfl
      · rw [if_neg hmax, pure_bind, ih (j + 1) _ (by omega) (by omega) (by omega)]

/-- A slice of at most `INT_MAX` states of the history is its first `k` states. -/
theorem slice_eq {o : VisibleObject σ} {k : Nat} (hk : k ≤ o.getNumStates) (hmax : k ≤ intMax) :
    o.slice k = pure ⟨o.history.take k⟩ := by
  rw [slice, sliceLoop_eq k 0 [] (by simpa [getNumStates] using hk) (by simpa using hmax), pure_bind]
  simp

theorem clone_eq {o : VisibleObject σ} (hmax : o.getNumStates ≤ intMax) : o.clone = pure o := by
  rw [clone, slice_eq (Nat.le_refl _) hmax, getNumStates, List.take_length]

/-- A clone of more than `INT_MAX` states overflows its loop index. -/
theorem clone_overflow {o : VisibleObject σ} (h : intMax < o.getNumStates) :
    o.clone = throw .signedOverflow := by
  rw [clone, slice, sliceLoop_overflow _ 0 [] (Nat.zero_le _) (by simpa using h)
    (by simp [getNumStates])]
  rfl

/-- The operations objects are built with after the public constructor. -/
inductive ObjectOp (σ : Type)
  | push (s : σ)
  | slice (k : Nat)
  | clone

/-- One operation; a slice or clone replaces the object by its result. -/
def applyOp (o : VisibleObject σ) : ObjectOp σ → Except Fault (VisibleObject σ)
  | .push s => pure (o.pushState s)
  | .slice k => o.slice k
  | .clone => o.clone

/-- The operations in order. -/
def applyOps (o : VisibleObject σ) (ops : List (ObjectOp σ)) : Except Fault (VisibleObject σ) :=
  ops.foldlM applyOp o

theorem applyOps_pushes (o : VisibleObject σ) (ss : List σ) (rest : List (ObjectOp σ)) :
    applyOps o (ss.map .push ++ rest) = applyOps ⟨o.history ++ ss⟩ rest := by
  induction ss generalizing o with
  | nil => simp
  | cons s ss ih =>
      simp only [applyOps, List.map_cons, List.cons_append, List.foldlM_cons, applyOp, pure_bind]
      exact (ih _).trans (by simp [pushState, applyOps])

/-- The operations on `o` that keep its history nonempty and its lengths within
`int`: pushes, slices of at least one and at most `INT_MAX` of its states, and
clones of at most `INT_MAX` states. -/
def Admissible (o : VisibleObject σ) : ObjectOp σ → Prop
  | .push _ => True
  | .slice k => 1 ≤ k ∧ k ≤ o.getNumStates ∧ k ≤ intMax
  | .clone => o.getNumStates ≤ intMax

instance (o : VisibleObject σ) (op : ObjectOp σ) : Decidable (Admissible o op) :=
  match op with
  | .push _ => inferInstanceAs (Decidable True)
  | .slice k => inferInstanceAs (Decidable (1 ≤ k ∧ k ≤ o.getNumStates ∧ k ≤ intMax))
  | .clone => inferInstanceAs (Decidable (o.getNumStates ≤ intMax))

/-- `o'` is built from `o` by admissible operations. -/
inductive AdmissibleRun : VisibleObject σ → List (ObjectOp σ) → VisibleObject σ → Prop
  | nil (o : VisibleObject σ) : AdmissibleRun o [] o
  | cons {o o₁ o₂ : VisibleObject σ} {op : ObjectOp σ} {ops : List (ObjectOp σ)} :
      Admissible o op → applyOp o op = pure o₁ → AdmissibleRun o₁ ops o₂ →
      AdmissibleRun o (op :: ops) o₂

/-- One admissible operation keeps the history nonempty. -/
theorem history_ne_nil_applyOp {o o' : VisibleObject σ} {op : ObjectOp σ} (hne : o.history ≠ [])
    (hadm : Admissible o op) (h : applyOp o op = pure o') : o'.history ≠ [] := by
  cases op with
  | push s =>
      cases h
      simp [pushState]
  | slice k =>
      obtain ⟨hk, hle, hmax⟩ := hadm
      rw [applyOp, slice_eq hle hmax] at h
      cases h
      simpa [List.take_eq_nil_iff] using And.intro (by omega) hne
  | clone =>
      rw [applyOp, clone_eq hadm] at h
      cases h
      exact hne

theorem AdmissibleRun.history_ne_nil {o o' : VisibleObject σ} {ops : List (ObjectOp σ)}
    (hrun : AdmissibleRun o ops o') (hne : o.history ≠ []) : o'.history ≠ [] := by
  induction hrun with
  | nil => exact hne
  | cons hadm happly _ ih => exact ih (history_ne_nil_applyOp hne hadm happly)

end VisibleObject

open VisibleObject

/-- Objects built by the public constructor and then pushes, slices of at least
one and at most `INT_MAX` states, and clones of at most `INT_MAX` states: the
history is never empty and `get_current_state` returns its last state; a slice
of `k ≤ INT_MAX` states is the first `k` states, and a clone of at most
`INT_MAX` states has the same states. -/
theorem visibleObject_admissibleRun {σ : Type} {initial : σ} {ops : List (ObjectOp σ)}
    {o : VisibleObject σ} (hrun : AdmissibleRun (ofInitial initial) ops o) :
    (∃ s, o.getCurrentState = pure s ∧ o.history.getLast? = some s) ∧
    (∀ k, k ≤ o.getNumStates → k ≤ intMax → o.slice k = pure ⟨o.history.take k⟩) ∧
    (o.getNumStates ≤ intMax → o.clone = pure o) := by
  refine ⟨?_, fun _ hk hmax => slice_eq hk hmax, clone_eq⟩
  obtain ⟨s, hs⟩ := List.getLast?_isSome.mpr (hrun.history_ne_nil (by simp [ofInitial, pushState]))
    |> Option.isSome_iff_exists.mp
  exact ⟨s, by simp [getCurrentState, hs], hs⟩

/-- A push, a slice of one state and a clone. -/
theorem visibleObject_admissibleRun_pushSliceClone :
    AdmissibleRun (ofInitial (0 : Nat)) [.push 1, .slice 1, .clone] ⟨[0]⟩ ∧
      ((∃ s, (⟨[0]⟩ : VisibleObject Nat).getCurrentState = pure s ∧ [0].getLast? = some s) ∧
      (∀ k, k ≤ (⟨[0]⟩ : VisibleObject Nat).getNumStates → k ≤ intMax →
        (⟨[0]⟩ : VisibleObject Nat).slice k = pure ⟨[0].take k⟩) ∧
      ((⟨[0]⟩ : VisibleObject Nat).getNumStates ≤ intMax →
        (⟨[0]⟩ : VisibleObject Nat).clone = pure ⟨[0]⟩)) := by
  have hrun : AdmissibleRun (ofInitial (0 : Nat)) [.push 1, .slice 1, .clone] ⟨[0]⟩ :=
    .cons trivial rfl (.cons ⟨le_rfl, by decide, by decide⟩ rfl (.cons (by decide) rfl (.nil _)))
  exact ⟨hrun, visibleObject_admissibleRun hrun⟩

/-- Outside those bounds: `slice(0)` leaves an empty history, on which
`get_current_state` reads the back of an empty vector, and a clone of `2^31`
states overflows its `int` loop index. -/
theorem visibleObject_slice_zero_and_overflow :
    (ofInitial (0 : Nat)).slice 0 = pure ⟨[]⟩ ∧
      (⟨[]⟩ : VisibleObject Nat).getCurrentState = throw .emptyBack ∧
      applyOps (ofInitial (0 : Nat)) (List.replicate intMax (.push 0) ++ [.clone]) =
        throw .signedOverflow := by
  refine ⟨rfl, rfl, ?_⟩
  have hlen : intMax <
      (⟨(ofInitial (0 : Nat)).history ++ List.replicate intMax 0⟩ : VisibleObject Nat).getNumStates := by
    have hone : (ofInitial (0 : Nat)).history.length = 1 := rfl
    rw [getNumStates, List.length_append, List.length_replicate, hone, Nat.add_comm]
    exact Nat.lt_succ_self _
  rw [← List.map_replicate, applyOps_pushes]
  simp only [applyOps, List.foldlM_cons, List.foldlM_nil, applyOp, bind_pure]
  exact clone_overflow hlen

end McMini.Design
