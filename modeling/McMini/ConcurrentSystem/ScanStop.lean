/-
# Where the backward scan stops

The scan of `csystem_dynamically_update_backtrack_sets` visits the positions
`n - 1, n - 2, …` of a transition stack of height `n`. At position `i` it pops
`S_i` and stops if no thread enabled at the top is still pending; otherwise the
loop body handles, and drops, every pending thread whose next transition is
co-enabled and dependent with `S_i`. Its happens-before test always passes
there (`DependencyReads`). A thread is therefore pending at position `i`
exactly when its transition races with none of `S_{i+1} … S_{n-1}`, and the
scan stops one below the highest position at which nothing is pending.

`scanStop` computes that top from the stack and the enabled transitions alone.
This module proves that the code's scan stops there, so the transition stack
an update leaves (`BacktrackStop`) is determined by it: intact when
`scanStop` is `-1`, and with `S_k` copied into every slot above `k = scanStop`
otherwise.
-/

import McMini.ConcurrentSystem.DependencyReads

namespace McMini.ConcurrentSystem

section Stop

variable (A : TransitionAlgebra)

/-- The race the loop body tests once its happens-before test has passed:
`t` and `u` are co-enabled and dependent. -/
def racesWith (t u : Transition) : Bool :=
  A.transitionsCoenabled t u && A.transitionsDependent t u

/-- The pairs of `pending` still unhandled when the scan of a stack of height
`n` reaches position `i`: those racing with none of `S_{i+1} … S_{n-1}`. -/
def pendingAt (stack : Nat → Transition) (n : Nat) (pending : PendingMap) (i : Nat) : PendingMap :=
  pending.filter fun q => (List.range' (i + 1) (n - (i + 1))).all fun j => !racesWith A (stack j) q.2

/-- The top the scan stops at with `m` positions left to visit, from the
pending pairs `P i` at each position `i`. -/
def scanStopFrom (P : Nat → PendingMap) : Nat → Int
  | 0 => -1
  | i + 1 => if (P i).isEmpty then (i : Int) - 1 else scanStopFrom P i

/-- The top the scan of the update from `s` stops at. -/
def scanStop (s : CSystem) : Int :=
  let n := (s.tStackTop + 1).toNat
  scanStopFrom (pendingAt A s.tStack n
    (enabledTransitionMap A { s with isBacktracking := true, detachedTTop := s.tStackTop }
      s.tidNext)) n

/-- Handling position `i + 1` leaves the pairs pending at position `i`. -/
theorem pendingAt_succ {stack : Nat → Transition} {n : Nat} (pending : PendingMap) {i : Nat}
    (hi : i + 1 < n) :
    (pendingAt A stack n pending (i + 1)).filter (fun q => !racesWith A (stack (i + 1)) q.2) =
      pendingAt A stack n pending i := by
  rw [pendingAt, pendingAt, List.filter_filter]
  refine List.filter_congr fun q _ => ?_
  rw [show n - (i + 1) = n - (i + 1 + 1) + 1 by omega, List.range'_succ, List.all_cons, Bool.and_comm]

end Stop

/-- A key the lookup misses is no key of the list. -/
theorem ne_of_lookup_eq_none {l : PendingMap} {tid : Tid} (h : l.lookup tid = none) :
    ∀ q ∈ l, q.1 ≠ tid := by
  induction l with
  | nil => exact fun _ hq => nomatch hq
  | cons e l ih =>
      rw [List.lookup_cons] at h
      split at h
      · cases h
      · rename_i hne
        rintro q (_ | ⟨_, hq⟩)
        · exact fun heq => by rw [heq, beq_self_eq_true] at hne; cases hne
        · exact ih h q hq

/-- With distinct keys, the lookup of a key finds its pair. -/
theorem lookup_of_mem {l : PendingMap} (hkeys : (l.map Prod.fst).Nodup) {q : Tid × Transition}
    (hq : q ∈ l) : l.lookup q.1 = some q.2 := by
  induction l with
  | nil => cases hq
  | cons e l ih =>
      rw [List.map_cons, List.nodup_cons] at hkeys
      rcases List.mem_cons.mp hq with rfl | hq
      · rw [List.lookup_cons, beq_self_eq_true]
      · have hne : q.1 ≠ e.1 := fun heq => hkeys.1 (heq ▸ List.mem_map_of_mem Prod.fst hq)
        rw [List.lookup_cons, beq_false_of_ne hne]
        exact ih hkeys.2 hq

section Scan

variable {A : TransitionAlgebra} {L : Limits}

/-- After the pop, the loop body drops the pair of `tid` exactly when its
transition races with `S_i`. -/
theorem updateBacktrackSetForThread_pending_eq {i : Nat} {Si : Transition} {sTopI : Nat}
    {st st' : CSystem × PendingMap} {tid : Tid} (htop : st.1.tStackTop < i)
    (hkeys : (st.2.map Prod.fst).Nodup)
    (h : updateBacktrackSetForThread A i Si sTopI st tid = .ok st') :
    st'.2 = st.2.filter fun q => !(q.1 == tid && racesWith A Si q.2) := by
  unfold updateBacktrackSetForThread at h
  rw [happensBeforeThread_of_top_lt tid htop] at h
  split at h
  · cases h
    rename_i hnone
    refine (List.filter_eq_self.mpr fun q hq => ?_).symm
    simp [ne_of_lookup_eq_none hnone q hq]
  · rename_i next hnext
    have hsame : ∀ q ∈ st.2, q.1 = tid → q.2 = next := fun q hq hk =>
      Option.some.inj ((hk ▸ lookup_of_mem hkeys hq).symm.trans hnext)
    split at h
    · rename_i hrace
      have hr : racesWith A Si next = true := by simpa [racesWith] using hrace
      simp only [except_bind_eq_ok, except_pure_eq_ok] at h
      obtain ⟨-, -, rfl⟩ := h
      refine List.filter_congr fun q hq => ?_
      by_cases hk : q.1 = tid
      · simp [hk, hsame q hq hk, hr]
      · simp only [bne, beq_false_of_ne hk, Bool.not_false, Bool.false_and]
    · rename_i hrace
      have hr : racesWith A Si next = false := by simpa [racesWith] using hrace
      cases h
      refine (List.filter_eq_self.mpr fun q hq => ?_).symm
      by_cases hk : q.1 = tid
      · simp [hk, hsame q hq hk, hr]
      · simp [beq_false_of_ne hk]

/-- The loop over `tid` drops exactly the pairs of the threads it visits whose
transitions race with `S_i`. -/
theorem foldlM_updateBacktrackSetForThread_pending_eq {i : Nat} {Si : Transition} {sTopI : Nat}
    (tids : List Tid) :
    ∀ {st st' : CSystem × PendingMap}, st.1.tStackTop < i → (st.2.map Prod.fst).Nodup →
      tids.foldlM (updateBacktrackSetForThread A i Si sTopI) st = .ok st' →
      st'.2 = st.2.filter fun q => !(decide (q.1 ∈ tids) && racesWith A Si q.2) := by
  induction tids with
  | nil =>
      intro st st' _ _ h
      cases h
      exact (List.filter_eq_self.mpr fun q _ => by simp).symm
  | cons tid tids ih =>
      intro st st' htop hkeys h
      obtain ⟨st₁, hstep, hrest⟩ := except_bind_eq_ok.mp h
      have h₁ := updateBacktrackSetForThread_pending_eq htop hkeys hstep
      obtain ⟨_, hst₁⟩ := updateBacktrackSetForThread_eq_ok hstep
      have hkeys₁ : (st₁.2.map Prod.fst).Nodup :=
        h₁ ▸ hkeys.sublist ((List.filter_sublist _).map Prod.fst)
      rw [ih (by rw [hst₁]; exact htop) hkeys₁ hrest, h₁, List.filter_filter]
      refine List.filter_congr fun q _ => ?_
      cases racesWith A Si q.2 <;> by_cases hk : q.1 = tid <;> simp [hk]

/-- The scan with `m ≤ n` positions left, from a stack whose top is `m - 1` and
whose pending map is the abstract one at position `m - 1`, stops at the top
`scanStopFrom` computes. -/
theorem scanTransitionStack_tStackTop {threadCount n : Nat} {stack : Nat → Transition}
    {pending : PendingMap} (hkeys : (pending.map Prod.fst).Nodup)
    (hlt : ∀ q ∈ pending, q.1 < threadCount) (m : Nat) :
    ∀ {x x' : CSystem} {P : PendingMap}, m ≤ n → x.tStackTop = (m : Int) - 1 → x.tStack = stack →
      (∀ i, m = i + 1 → P = pendingAt A stack n pending i) →
      scanTransitionStack A L threadCount m x P = .ok x' →
      x'.tStackTop = scanStopFrom (pendingAt A stack n pending) m := by
  induction m with
  | zero =>
      intro x x' P _ htop _ _ h
      cases h
      simpa using htop
  | succ i ih =>
      intro x x' P hm htop hstack hP h
      rw [hP i rfl] at h
      obtain ⟨⟨x₁, t⟩, hpop, h⟩ := except_bind_eq_ok.mp h
      obtain ⟨-, rfl, mutexes, -, rfl⟩ := csystemShrinkTransitionStack_eq_ok.mp hpop
      obtain ⟨sTopI, -, h⟩ := except_bind_eq_ok.mp h
      have hpos : (x.tStackTop).toNat = i := by omega
      rw [hpos, hstack] at h
      simp only [scanStopFrom]
      split at h
      · rename_i hempty
        cases h
        rw [if_pos hempty]
        dsimp only
        omega
      · rename_i hempty
        rw [if_neg hempty]
        obtain ⟨st, hfold, hrest⟩ := except_bind_eq_ok.mp h
        have hsub : List.Sublist (pendingAt A stack n pending i) pending := List.filter_sublist _
        have hpend := foldlM_updateBacktrackSetForThread_pending_eq _ (by dsimp only; omega)
          (hkeys.sublist (hsub.map Prod.fst)) hfold
        obtain ⟨_, hst⟩ := foldlM_updateBacktrackSetForThread_eq_ok _ hfold
        refine ih (by omega) (by rw [hst]; dsimp only; omega) (by rw [hst])
          (fun i' hi' => ?_) hrest
        subst hi'
        rw [hpend, ← pendingAt_succ A pending (i := i') (by omega)]
        refine List.filter_congr fun q hq => ?_
        simp [hlt q (hsub.subset hq)]

end Scan

/-- The transition stack every update leaves is determined by `scanStop`:
from any state, an update that returns leaves the stack as it was when
`scanStop` is `-1`, and otherwise one entry higher, with `S_k` copied into every
slot above `k = scanStop`. -/
theorem csystemDynamicallyUpdateBacktrackSets_tStack_scanStop {A : TransitionAlgebra} {L : Limits}
    {s s' : CSystem} (h : csystemDynamicallyUpdateBacktrackSets A L s = .ok s') :
    (scanStop A s = -1 ∧ s'.tStackTop = s.tStackTop ∧ s'.tStack = s.tStack) ∨
      (0 ≤ scanStop A s ∧ s'.tStackTop = s.tStackTop + 1 ∧
        s'.tStack = fillAbove s.tStack (scanStop A s).toNat (s.tStackTop + 1 - scanStop A s).toNat) := by
  obtain ⟨sb, hstart, h⟩ := except_bind_eq_ok.mp h
  simp only [csystemStartBacktrack, except_bind_eq_ok, mcAssert_eq_ok, except_pure_eq_ok] at hstart
  obtain ⟨-, -, rfl⟩ := hstart
  obtain ⟨x, hscan, h⟩ := except_bind_eq_ok.mp h
  obtain ⟨x', hend, h⟩ := except_bind_eq_ok.mp h
  cases except_pure_eq_ok.mp h
  obtain ⟨top, mutexes, tNext, tids, -, rfl, hcount⟩ :=
    scanTransitionStack_eq_ok (fun _ => True) (fun _ _ => trivial) _ _ trivial hscan
  obtain ⟨hlt, hend⟩ := csystemEndBacktrack_eq_ok (fun _ => True) (fun _ _ => trivial) trivial hend
  dsimp only at hlt hcount
  have hn : 0 ≤ s.tStackTop := by rcases hcount with ⟨_, rfl⟩ | ⟨_, _, _⟩ <;> omega
  have hge : -1 ≤ top := by
    rcases hcount with ⟨hm, -⟩ | ⟨-, h, -⟩
    · omega
    · exact h
  have hkeys : ((enabledTransitionMap A { s with isBacktracking := true, detachedTTop := s.tStackTop }
      s.tidNext).map Prod.fst).Nodup := by
    simp only [enabledTransitionMap, List.map_map, Function.comp_def, List.map_id']
    exact (List.nodup_range _).filter _
  have hstop : top = scanStop A s :=
    scanTransitionStack_tStackTop hkeys (fun q hq => by
        obtain ⟨tid, htid, rfl⟩ := List.mem_map.mp hq
        exact List.mem_range.mp (List.mem_filter.mp htid).1) ((s.tStackTop + 1).toNat) (Nat.le_refl _)
      (by dsimp only; omega) rfl (fun i hi => by
        rw [pendingAt, ← hi, Nat.sub_self, List.range'_zero]
        exact (List.filter_eq_self.mpr fun _ _ => rfl).symm) hscan
  subst hstop
  obtain ⟨mutexes', -, -, ⟨hk, rfl⟩ | ⟨hk, rfl⟩⟩ := hend hge
  · exact .inl ⟨hk, rfl, rfl⟩
  · exact .inr ⟨hk, rfl, rfl⟩

/-- Init and lock of one mutex by thread `0`, whose next transition, a relock,
is disabled: nothing is pending at the top, so the scan stops at the init, and
the update copies it into the slot of the lock and the one above. -/
theorem csystemDynamicallyUpdateBacktrackSets_tStack_scanStop_initLock :
    let L : Limits := ⟨1, 4, 4⟩
    let init : Transition := ⟨0, .mutex ⟨.init, ⟨5, .unknown⟩⟩⟩
    let lock : Transition := ⟨0, .mutex ⟨.lock, ⟨5, .unknown⟩⟩⟩
    let relock : Transition := ⟨0, .mutex ⟨.lock, ⟨5, .locked⟩⟩⟩
    ∃ s₀ s₁, csystemInit L (.staticStorage init) = .ok s₀ ∧ RecordedRun L s₀ [init, lock] s₁ ∧
      let s : CSystem := { s₁ with tidNext := 1, tNext := fun _ => relock }
      scanStop SpecAlgebra.algebra s = 0 ∧
      ∃ s', csystemDynamicallyUpdateBacktrackSets SpecAlgebra.algebra L s = .ok s' ∧
        ((scanStop SpecAlgebra.algebra s = -1 ∧ s'.tStackTop = s.tStackTop ∧ s'.tStack = s.tStack) ∨
          (0 ≤ scanStop SpecAlgebra.algebra s ∧ s'.tStackTop = s.tStackTop + 1 ∧
            s'.tStack = fillAbove s.tStack (scanStop SpecAlgebra.algebra s).toNat
              (s.tStackTop + 1 - scanStop SpecAlgebra.algebra s).toNat)) := by
  intro L init lock relock
  obtain ⟨s₀, hinit, hrun⟩ :=
    RecordedRun.of_init_recordedRunEnd L (.staticStorage init) [init, lock] rfl
  refine ⟨s₀, _, hinit, hrun, ?_⟩
  intro s
  obtain ⟨s', h⟩ : ∃ s', csystemDynamicallyUpdateBacktrackSets SpecAlgebra.algebra L s = .ok s' :=
    ⟨_, rfl⟩
  exact ⟨rfl, s', h, csystemDynamicallyUpdateBacktrackSets_tStack_scanStop h⟩

end McMini.ConcurrentSystem
