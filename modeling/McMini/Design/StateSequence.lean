/-
# The state sequence

`state_sequence` of the design keeps the visible objects of a program in a
vector; an object's id is its index. `track_new_visible_object` appends an
object and returns `visible_objects.size() - 1`, narrowed from `size_t` to
`objid_t = uint32_t`; `record_new_state_for_visible_object` asserts that the id
is in range and pushes onto that object's history.

The abstract model says what a run of calls should leave: object `i` holds the
initial state of the `i`-th track followed by every state recorded for id `i`,
in call order. `refines_runCalls` proves the code keeps it along every run in
which each record names an object already tracked; the ids returned are the
indices modulo `2^32`. The snapshot `state_sequence::element`, which copies the
current state of every object, then exists and answers as the sequence does.
-/

import Mathlib.Data.List.Nodup
import McMini.Design.VisibleObject

namespace McMini.Design

/-- `state_sequence`: the tracked objects, by index. -/
structure StateSequence (σ : Type) where
  visibleObjects : List (VisibleObject σ)

namespace StateSequence

variable {σ : Type}

/-- `contains_object_with_id`: the id, widened to `size_t`, is below the size. -/
def containsObjectWithId (seq : StateSequence σ) (id : UInt32) : Bool :=
  id.toNat < seq.visibleObjects.length

/-- `track_new_visible_object`. -/
def trackNewVisibleObject (seq : StateSequence σ) (initial : σ) : StateSequence σ × UInt32 :=
  let seq : StateSequence σ := ⟨seq.visibleObjects ++ [.ofInitial initial]⟩
  (seq, UInt32.ofNat (seq.visibleObjects.length - 1))

/-- `visible_objects.at(i)`. -/
def objectAt (seq : StateSequence σ) (i : Nat) : Except Fault (VisibleObject σ) :=
  match seq.visibleObjects[i]? with
  | some o => pure o
  | none => throw .outOfRange

/-- The message of the assertion in `record_new_state_for_visible_object`. -/
def recordAssertionMessage : String :=
  "The object must already tracked in order to add a new state"

/-- `record_new_state_for_visible_object`. -/
def recordNewStateForVisibleObject (seq : StateSequence σ) (id : UInt32) (next : σ) :
    Except Fault (StateSequence σ) := do
  if !seq.containsObjectWithId id then throw (.assertion recordAssertionMessage)
  let o ← seq.objectAt id.toNat
  pure ⟨seq.visibleObjects.set id.toNat (o.pushState next)⟩

/-- `get_state_of_object`. -/
def getStateOfObject (seq : StateSequence σ) (id : UInt32) : Except Fault σ := do
  let o ← seq.objectAt id.toNat
  o.getCurrentState

/-- `state_sequence::element`: the current state of every object, by id. -/
structure Element (σ : Type) where
  visibleObjectStates : List σ

/-- The constructor `element(state_sequence &owner)`: `get_current_state()` of
each object, in order. -/
def element (seq : StateSequence σ) : Except Fault (Element σ) :=
  Element.mk <$> seq.visibleObjects.mapM VisibleObject.getCurrentState

/-- `element::contains_object_with_id`. -/
def Element.containsObjectWithId (e : Element σ) (id : UInt32) : Bool :=
  id.toNat < e.visibleObjectStates.length

/-- `element::get_state_of_object`: `visible_object_states.at(id)`. -/
def Element.getStateOfObject (e : Element σ) (id : UInt32) : Except Fault σ :=
  match e.visibleObjectStates[id.toNat]? with
  | some s => pure s
  | none => throw .outOfRange

/-- The states `mapM` collects stand index by index for the objects' current
states. -/
theorem mapM_getCurrentState {os : List (VisibleObject σ)} {ss : List σ}
    (h : os.mapM VisibleObject.getCurrentState = .ok ss) :
    ∀ i : Nat, os[i]?.map VisibleObject.getCurrentState = ss[i]?.map Except.ok := by
  induction os generalizing ss with
  | nil =>
      cases h
      intro i
      rfl
  | cons o os ih =>
      simp only [List.mapM_cons, bind, Except.bind] at h
      split at h
      · cases h
      · rename_i s hs
        split at h
        · cases h
        · rename_i rest hrest
          cases h
          rintro (_ | i)
          · simp [hs]
          · simpa using ih hrest i

/-- The snapshot exists when every object has a current state. -/
theorem mapM_getCurrentState_ok {os : List (VisibleObject σ)}
    (h : ∀ o ∈ os, o.history ≠ []) : ∃ ss, os.mapM VisibleObject.getCurrentState = .ok ss := by
  induction os with
  | nil => exact ⟨[], rfl⟩
  | cons o os ih =>
      obtain ⟨s, hs⟩ := List.getLast?_isSome.mpr (h o (List.mem_cons_self _ _))
        |> Option.isSome_iff_exists.mp
      obtain ⟨ss, hss⟩ := ih fun o' ho' => h o' (List.mem_cons_of_mem _ ho')
      exact ⟨s :: ss, by rw [List.mapM_cons, VisibleObject.getCurrentState, hs, hss]; rfl⟩

/-- A snapshot of the sequence answers every query as the sequence does. -/
theorem element_agrees {seq : StateSequence σ} {e : Element σ} (h : seq.element = .ok e) :
    (∀ id, e.containsObjectWithId id = seq.containsObjectWithId id) ∧
      ∀ id, e.getStateOfObject id = seq.getStateOfObject id := by
  unfold element at h
  cases hss : seq.visibleObjects.mapM VisibleObject.getCurrentState with
  | error err =>
      rw [hss] at h
      cases h
  | ok ss =>
      rw [hss] at h
      cases h
      have hidx := mapM_getCurrentState hss
      have hnone : ∀ i : Nat, seq.visibleObjects.length ≤ i ↔ ss.length ≤ i := fun i => by
        rw [← List.getElem?_eq_none_iff, ← List.getElem?_eq_none_iff, ← Option.map_eq_none',
          hidx i, Option.map_eq_none']
      refine ⟨fun id => ?_, fun id => ?_⟩
      · have hid := hnone id.toNat
        simp only [Element.containsObjectWithId, containsObjectWithId, decide_eq_decide]
        omega
      · have hone := hidx id.toNat
        simp only [Element.getStateOfObject, getStateOfObject, objectAt]
        cases ho : seq.visibleObjects[id.toNat]? <;> cases hs : ss[id.toNat]? <;> (simp_all; try rfl)

end StateSequence

open StateSequence

/-- A call on a state sequence. -/
inductive SequenceCall (σ : Type)
  | track (initial : σ)
  | record (id : UInt32) (next : σ)

section Runs

variable {σ : Type}

/-- One call, keeping the ids the tracks returned. -/
def applyCall (st : StateSequence σ × List UInt32) :
    SequenceCall σ → Except Fault (StateSequence σ × List UInt32)
  | .track initial =>
      let tracked := trackNewVisibleObject st.1 initial
      pure (tracked.1, st.2 ++ [tracked.2])
  | .record id next => do
      let seq ← recordNewStateForVisibleObject st.1 id next
      pure (seq, st.2)

/-- The calls in order on an initially empty state sequence. -/
def runCalls (calls : List (SequenceCall σ)) : Except Fault (StateSequence σ × List UInt32) :=
  calls.foldlM applyCall (⟨[]⟩, [])

/-- The initial states of the tracks, in order. -/
def trackedInitials (calls : List (SequenceCall σ)) : List σ :=
  calls.filterMap fun
    | .track initial => some initial
    | .record _ _ => none

/-- The states recorded for index `i`, in order. -/
def recordsFor (calls : List (SequenceCall σ)) (i : Nat) : List σ :=
  calls.filterMap fun
    | .track _ => none
    | .record id next => if id.toNat = i then some next else none

/-- Every record names an object tracked before it, `n` having been tracked
before the calls. -/
def recordsTracked : Nat → List (SequenceCall σ) → Bool
  | _, [] => true
  | n, .track _ :: calls => recordsTracked (n + 1) calls
  | n, .record id _ :: calls => decide (id.toNat < n) && recordsTracked n calls

@[simp] theorem trackedInitials_append_track (calls : List (SequenceCall σ)) (initial : σ) :
    trackedInitials (calls ++ [.track initial]) = trackedInitials calls ++ [initial] := by
  simp [trackedInitials]

@[simp] theorem trackedInitials_append_record (calls : List (SequenceCall σ)) (id : UInt32)
    (next : σ) : trackedInitials (calls ++ [.record id next]) = trackedInitials calls := by
  simp [trackedInitials]

@[simp] theorem recordsFor_append_track (calls : List (SequenceCall σ)) (initial : σ) (i : Nat) :
    recordsFor (calls ++ [.track initial]) i = recordsFor calls i := by
  simp [recordsFor]

@[simp] theorem recordsFor_append_record (calls : List (SequenceCall σ)) (id : UInt32) (next : σ)
    (i : Nat) : recordsFor (calls ++ [.record id next]) i =
      recordsFor calls i ++ if id.toNat = i then [next] else [] := by
  by_cases h : id.toNat = i <;> simp [recordsFor, h]

/-- The objects the calls should leave: object `i` holds the initial state of
the `i`-th track followed by the states recorded for `i`. -/
def specObjects (calls : List (SequenceCall σ)) : List (VisibleObject σ) :=
  (trackedInitials calls).mapIdx fun i initial => ⟨initial :: recordsFor calls i⟩

/-- What the calls `calls` should leave in `st`: the objects of `specObjects`,
no state recorded for an index not yet tracked, and the indices returned as
ids, narrowed to `objid_t`. -/
structure Refines (calls : List (SequenceCall σ)) (st : StateSequence σ × List UInt32) : Prop where
  objects_eq : st.1.visibleObjects = specObjects calls
  recordsFor_untracked : ∀ i, (trackedInitials calls).length ≤ i → recordsFor calls i = []
  ids_eq : st.2 = (List.range (trackedInitials calls).length).map UInt32.ofNat

theorem refines_nil : Refines ([] : List (SequenceCall σ)) (⟨[]⟩, []) :=
  ⟨rfl, fun _ _ => rfl, rfl⟩

theorem Refines.length_eq {calls : List (SequenceCall σ)} {st : StateSequence σ × List UInt32}
    (h : Refines calls st) : st.1.visibleObjects.length = (trackedInitials calls).length := by
  rw [h.objects_eq, specObjects, List.length_mapIdx]

theorem Refines.track {calls : List (SequenceCall σ)} {st : StateSequence σ × List UInt32}
    (h : Refines calls st) (initial : σ) :
    Refines (calls ++ [.track initial])
      ((trackNewVisibleObject st.1 initial).1, st.2 ++ [(trackNewVisibleObject st.1 initial).2]) where
  objects_eq := by
    simp only [trackNewVisibleObject, specObjects, trackedInitials_append_track,
      recordsFor_append_track, List.mapIdx_concat, h.recordsFor_untracked _ le_rfl]
    rw [h.objects_eq]
    rfl
  recordsFor_untracked i hi := by
    simp only [trackedInitials_append_track, List.length_append, List.length_singleton] at hi
    rw [recordsFor_append_track, h.recordsFor_untracked i (by omega)]
  ids_eq := by
    simp only [trackNewVisibleObject, h.ids_eq, List.length_append, List.length_singleton,
      h.length_eq, trackedInitials_append_track, List.range_succ, List.map_append, List.map_cons,
      List.map_nil, Nat.add_sub_cancel]

/-- A record for a tracked index pushes its state onto that object alone. -/
theorem recordNewStateForVisibleObject_of_lt (seq : StateSequence σ) {id : UInt32} (next : σ)
    (h : id.toNat < seq.visibleObjects.length) :
    recordNewStateForVisibleObject seq id next =
      pure ⟨seq.visibleObjects.set id.toNat (seq.visibleObjects[id.toNat].pushState next)⟩ := by
  simp [recordNewStateForVisibleObject, containsObjectWithId, h, objectAt]

/-- A record for an id out of range fails its assertion. -/
theorem recordNewStateForVisibleObject_of_le (seq : StateSequence σ) {id : UInt32} (next : σ)
    (h : seq.visibleObjects.length ≤ id.toNat) :
    recordNewStateForVisibleObject seq id next = throw (.assertion recordAssertionMessage) := by
  simp [recordNewStateForVisibleObject, containsObjectWithId, Nat.not_lt.mpr h]
  rfl

theorem Refines.record {calls : List (SequenceCall σ)} {st : StateSequence σ × List UInt32}
    (h : Refines calls st) {id : UInt32} (hid : id.toNat < (trackedInitials calls).length)
    (next : σ) :
    ∃ seq, recordNewStateForVisibleObject st.1 id next = pure seq ∧
      Refines (calls ++ [.record id next]) (seq, st.2) := by
  refine ⟨_, recordNewStateForVisibleObject_of_lt _ _ (h.length_eq ▸ hid), ⟨?_, ?_, ?_⟩⟩
  · simp only [h.objects_eq, specObjects, trackedInitials_append_record, recordsFor_append_record]
    refine List.ext_getElem? fun j => ?_
    by_cases hj : id.toNat = j
    · subst hj
      simp [List.getElem?_set, List.getElem?_mapIdx, hid, VisibleObject.pushState]
    · simp [List.getElem?_set, List.getElem?_mapIdx, hj]
  · intro i hi
    rw [trackedInitials_append_record] at hi
    rw [recordsFor_append_record, h.recordsFor_untracked i hi, if_neg (by omega)]
    rfl
  · rw [h.ids_eq, trackedInitials_append_record]

/-- Along calls in which every record names a tracked object, the code keeps
the abstract model. -/
theorem Refines.foldlM (cs : List (SequenceCall σ)) :
    ∀ {calls : List (SequenceCall σ)} {st : StateSequence σ × List UInt32}, Refines calls st →
      recordsTracked (trackedInitials calls).length cs = true →
      ∃ st', cs.foldlM applyCall st = pure st' ∧ Refines (calls ++ cs) st' := by
  induction cs with
  | nil => exact fun h _ => ⟨_, rfl, by simpa using h⟩
  | cons c cs ih =>
      intro calls st h hvalid
      cases c with
      | track initial =>
          have hvalid' : recordsTracked (trackedInitials (calls ++ [.track initial])).length cs :=
            by simpa [recordsTracked] using hvalid
          obtain ⟨st', hrun, h'⟩ := ih (h.track initial) hvalid'
          exact ⟨st', hrun, by simpa using h'⟩
      | record id next =>
          simp only [recordsTracked, Bool.and_eq_true, decide_eq_true_eq] at hvalid
          obtain ⟨seq, hseq, h₁⟩ := h.record hvalid.1 next
          obtain ⟨st', hrun, h'⟩ := ih h₁ (by simpa using hvalid.2)
          refine ⟨st', ?_, by simpa using h'⟩
          simp only [List.foldlM_cons, applyCall, hseq]
          exact hrun

theorem refines_runCalls {calls : List (SequenceCall σ)} (hvalid : recordsTracked 0 calls = true) :
    ∃ st, runCalls calls = pure st ∧ Refines calls st := by
  simpa using Refines.foldlM calls refines_nil hvalid

/-- A record naming an object not tracked before it ends the run with the
assertion of `record_new_state_for_visible_object`. -/
theorem runCalls_record_untracked {calls rest : List (SequenceCall σ)} {id : UInt32} {next : σ}
    (hvalid : recordsTracked 0 calls = true) (hid : (trackedInitials calls).length ≤ id.toNat) :
    runCalls (calls ++ .record id next :: rest) = throw (.assertion recordAssertionMessage) := by
  obtain ⟨st, hrun, h⟩ := refines_runCalls hvalid
  rw [runCalls, List.foldlM_append]
  rw [runCalls] at hrun
  rw [hrun]
  simp only [pure_bind, List.foldlM_cons, applyCall,
    recordNewStateForVisibleObject_of_le _ _ (h.length_eq ▸ hid)]
  rfl

/-- `get_state_of_object` of a tracked index reads the last state of its object. -/
theorem getStateOfObject_of_lt (seq : StateSequence σ) {id : UInt32}
    (h : id.toNat < seq.visibleObjects.length) :
    seq.getStateOfObject id = seq.visibleObjects[id.toNat].getCurrentState := by
  simp [getStateOfObject, objectAt, h]

/-- A record changes no object but the one its id names. -/
theorem recordNewStateForVisibleObject_frame {seq seq' : StateSequence σ} {id : UInt32} {next : σ}
    (h : recordNewStateForVisibleObject seq id next = pure seq') {j : Nat} (hj : j ≠ id.toNat) :
    seq'.visibleObjects[j]? = seq.visibleObjects[j]? := by
  by_cases hid : id.toNat < seq.visibleObjects.length
  · rw [recordNewStateForVisibleObject_of_lt _ _ hid] at h
    cases h
    exact List.getElem?_set_ne (Ne.symm hj)
  · rw [recordNewStateForVisibleObject_of_le _ _ (Nat.not_lt.mp hid)] at h
    cases h

/-- Up to `2^32` tracks, the ids returned are the indices themselves. -/
theorem toNat_ids {n : Nat} (hn : n ≤ UInt32.size) :
    ((List.range n).map UInt32.ofNat).map UInt32.toNat = List.range n := by
  rw [List.map_map]
  refine (List.map_congr_left fun k hk => ?_).trans (List.map_id _)
  exact UInt32.toNat_ofNat_of_lt (by simp only [List.mem_range] at hk; omega)

theorem mem_ids_iff {n : Nat} (hn : n ≤ UInt32.size) (id : UInt32) :
    id ∈ (List.range n).map UInt32.ofNat ↔ id.toNat < n := by
  constructor
  · intro hmem
    have hnat : id.toNat ∈ ((List.range n).map UInt32.ofNat).map UInt32.toNat :=
      List.mem_map.mpr ⟨id, hmem, rfl⟩
    rwa [toNat_ids hn, List.mem_range] at hnat
  · intro hlt
    exact List.mem_map.mpr ⟨id.toNat, List.mem_range.mpr hlt,
      UInt32.toNat.inj (UInt32.toNat_ofNat_of_lt (UInt32.toNat_lt_size id))⟩

theorem getStateOfObject_of_refines {calls : List (SequenceCall σ)}
    {st : StateSequence σ × List UInt32} (h : Refines calls st) {id : UInt32} {initial : σ}
    (hinit : (trackedInitials calls)[id.toNat]? = some initial) :
    st.1.getStateOfObject id =
      pure ((initial :: recordsFor calls id.toNat).getLast (List.cons_ne_nil _ _)) := by
  have hlt : id.toNat < st.1.visibleObjects.length := by
    rw [h.length_eq]
    exact (List.getElem?_eq_some_iff.mp hinit).1
  have hobj : st.1.visibleObjects[id.toNat]? = some ⟨initial :: recordsFor calls id.toNat⟩ := by
    rw [h.objects_eq, specObjects, List.getElem?_mapIdx, hinit]
    rfl
  rw [getStateOfObject_of_lt _ hlt, List.getElem_eq_iff.mpr hobj, VisibleObject.getCurrentState,
    List.getLast?_eq_getLast _ (List.cons_ne_nil _ _)]

/-- For calls from an empty state sequence with at most `2^32` tracks, every
record naming an id returned before it: the `k`-th track returns `k`, so the ids
are distinct; `contains_object_with_id` holds exactly for the ids returned; each
object's history is its initial state followed by the states recorded for its
id, in call order, and `get_state_of_object` returns the last of them; a record
changes no other object; and a further record for an id never returned fails
its assertion, ending the run. -/
theorem stateSequence_runCalls {calls : List (SequenceCall σ)}
    (hvalid : recordsTracked 0 calls = true)
    (hcount : (trackedInitials calls).length ≤ UInt32.size) :
    ∃ seq ids, runCalls calls = pure (seq, ids) ∧
      ids.map UInt32.toNat = List.range (trackedInitials calls).length ∧ ids.Nodup ∧
      (∀ id, seq.containsObjectWithId id = true ↔ id ∈ ids) ∧
      seq.visibleObjects = specObjects calls ∧
      (∀ id initial, (trackedInitials calls)[id.toNat]? = some initial →
        seq.getStateOfObject id =
          pure ((initial :: recordsFor calls id.toNat).getLast (List.cons_ne_nil _ _))) ∧
      (∀ (seq₀ seq₁ : StateSequence σ) id next, recordNewStateForVisibleObject seq₀ id next = pure seq₁ →
        ∀ j ≠ id.toNat, seq₁.visibleObjects[j]? = seq₀.visibleObjects[j]?) ∧
      (∀ id next rest, id ∉ ids →
        runCalls (calls ++ .record id next :: rest) = throw (.assertion recordAssertionMessage)) := by
  obtain ⟨⟨seq, ids⟩, hrun, h⟩ := refines_runCalls hvalid
  have hids_eq : ids = (List.range (trackedInitials calls).length).map UInt32.ofNat := h.ids_eq
  have hids : ids.map UInt32.toNat = List.range (trackedInitials calls).length := by
    rw [hids_eq, toNat_ids hcount]
  refine ⟨seq, ids, hrun, hids, List.Nodup.of_map _ (hids ▸ List.nodup_range _), fun id => ?_,
    h.objects_eq, fun _ _ => getStateOfObject_of_refines h,
    fun _ _ _ _ hrec _ hj => recordNewStateForVisibleObject_frame hrec hj,
    fun id _ _ hid => runCalls_record_untracked hvalid ?_⟩
  · rw [hids_eq, mem_ids_iff hcount, containsObjectWithId, h.length_eq, decide_eq_true_iff]
  · rw [hids_eq, mem_ids_iff hcount] at hid
    omega

/-- Two tracks around a record for the first. -/
theorem stateSequence_runCalls_trackRecord :
    let calls : List (SequenceCall Nat) := [.track 0, .record 0 1, .track 2]
    recordsTracked 0 calls = true ∧ (trackedInitials calls).length ≤ UInt32.size ∧
      ∃ seq ids, runCalls calls = pure (seq, ids) ∧
        ids.map UInt32.toNat = List.range (trackedInitials calls).length ∧ ids.Nodup ∧
        (∀ id, seq.containsObjectWithId id = true ↔ id ∈ ids) ∧
        seq.visibleObjects = specObjects calls ∧
        (∀ id initial, (trackedInitials calls)[id.toNat]? = some initial →
          seq.getStateOfObject id =
            pure ((initial :: recordsFor calls id.toNat).getLast (List.cons_ne_nil _ _))) ∧
        (∀ (seq₀ seq₁ : StateSequence Nat) id next,
          recordNewStateForVisibleObject seq₀ id next = pure seq₁ →
          ∀ j ≠ id.toNat, seq₁.visibleObjects[j]? = seq₀.visibleObjects[j]?) ∧
        (∀ id next rest, id ∉ ids →
          runCalls (calls ++ .record id next :: rest) = throw (.assertion recordAssertionMessage)) :=
  ⟨rfl, by decide, stateSequence_runCalls rfl (by decide)⟩

/-- After calls from an empty sequence in which every record names a tracked
object, the snapshot `element` of the sequence is built without reading an empty
history, and it answers `contains_object_with_id` and `get_state_of_object` as
the sequence does. -/
theorem element_of_runCalls {calls : List (SequenceCall σ)} (hvalid : recordsTracked 0 calls = true) :
    ∃ seq ids e, runCalls calls = pure (seq, ids) ∧ seq.element = .ok e ∧
      (∀ id, e.containsObjectWithId id = seq.containsObjectWithId id) ∧
      ∀ id, e.getStateOfObject id = seq.getStateOfObject id := by
  obtain ⟨⟨seq, ids⟩, hrun, h⟩ := refines_runCalls hvalid
  have hne : ∀ o ∈ seq.visibleObjects, o.history ≠ [] := by
    intro o ho
    rw [show seq.visibleObjects = specObjects calls from h.objects_eq, specObjects,
      List.mem_mapIdx] at ho
    obtain ⟨i, -, rfl⟩ := ho
    exact List.cons_ne_nil _ _
  obtain ⟨ss, hss⟩ := mapM_getCurrentState_ok hne
  have helement : seq.element = .ok ⟨ss⟩ := by rw [element, hss]; rfl
  exact ⟨seq, ids, ⟨ss⟩, hrun, helement, element_agrees helement⟩

/-- A track and a record for it. -/
theorem element_of_runCalls_trackRecord :
    let calls : List (SequenceCall Nat) := [.track 0, .record 0 1]
    recordsTracked 0 calls = true ∧
      ∃ seq ids e, runCalls calls = pure (seq, ids) ∧ seq.element = .ok e ∧
        (∀ id, e.containsObjectWithId id = seq.containsObjectWithId id) ∧
        ∀ id, e.getStateOfObject id = seq.getStateOfObject id :=
  ⟨rfl, element_of_runCalls rfl⟩

theorem recordsTracked_replicate_track (initial : σ) (k : Nat) :
    ∀ n, recordsTracked n (List.replicate k (SequenceCall.track initial)) = true := by
  induction k with
  | zero => exact fun _ => rfl
  | succ k ih => exact fun n => ih (n + 1)

theorem trackedInitials_replicate_track (initial : σ) (k : Nat) :
    trackedInitials (List.replicate k (SequenceCall.track initial)) = List.replicate k initial := by
  induction k with
  | zero => rfl
  | succ k ih => simpa [List.replicate_succ', ← List.append_assoc] using ih

/-- After `2^32` tracks the next one returns `0` again: `size() - 1` narrowed to
`objid_t` reuses the first id. -/
theorem trackNewVisibleObject_reuses_id :
    ∃ seq ids, runCalls (List.replicate (UInt32.size + 1) (SequenceCall.track (0 : Nat))) =
        pure (seq, ids) ∧ ids[0]? = some 0 ∧ ids[UInt32.size]? = some 0 := by
  obtain ⟨⟨seq, ids⟩, hrun, h⟩ :=
    refines_runCalls (recordsTracked_replicate_track (0 : Nat) (UInt32.size + 1) 0)
  have hids : ids = (List.range (UInt32.size + 1)).map UInt32.ofNat := by
    refine h.ids_eq.trans ?_
    rw [trackedInitials_replicate_track, List.length_replicate]
  refine ⟨seq, ids, hrun, ?_, ?_⟩
  · rw [hids, List.getElem?_map, List.getElem?_range (Nat.succ_pos _)]
    rfl
  · rw [hids, List.getElem?_map, List.getElem?_range (Nat.lt_succ_self _)]
    rfl

end Runs

end McMini.Design
