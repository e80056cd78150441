/-
# The concurrent system record

`concurrent_system.c` keeps the whole checker state in one global record: the
registered threads, the shadow mutexes, the transition stack with the next
transition of every thread, and the state stack whose items carry the backtrack
and done sets of DPOR. This module fixes that record, the transitions stored in
it, and the fixed-size arrays behind it.

The array sizes are macros defined outside the sources, so they are the
parameters `Limits`. A write past the end of one of those arrays is undefined
behaviour in C; a model run that performs one ends with `Fault.outOfBounds`,
naming the array and the slot, so that memory safety is a statement about
faults. The hash tables of the C code are functions, and the hash sets of a
state-stack item are duplicate-free lists.
-/

import Mathlib.Logic.Function.Basic

namespace McMini.ConcurrentSystem

/-- Thread ids, handed out densely from zero by `csystem_register_thread`. A
`thread_ref` into the thread array is identified with its index. -/
abbrev Tid := Nat

/-- The address of a `pthread_mutex_t`, the key of the mutex map. -/
abbrev Addr := Nat

/-- The sizes of the fixed arrays of `struct concurrent_system`. -/
structure Limits where
  maxTotalThreadsPerSchedule : Nat
  maxMutexObjectCount : Nat
  maxVisibleOperationDepth : Nat
  deriving DecidableEq, Repr

/-- The fixed arrays a model run may write past. -/
inductive FixedArray
  | threads
  | locks
  | tStack
  | sStack
  deriving DecidableEq, Repr

/-- How a model run of the C code stops early: a failed `mc_assert`, a write
past the end of a fixed array, or a dereference of the `NULL` a missing
hash-table entry yields. -/
inductive Fault
  | assertionFailure
  | outOfBounds (array : FixedArray) (slot : Int)
  | nullDereference
  deriving DecidableEq, Repr

@[simp] theorem except_bind_eq_ok {ε α β : Type} {x : Except ε α} {f : α → Except ε β} {b : β} :
    x >>= f = .ok b ↔ ∃ a, x = .ok a ∧ f a = .ok b := by
  cases x <;> simp [bind, Except.bind]

@[simp] theorem except_ok_bind {ε α β : Type} (a : α) (f : α → Except ε β) :
    (Except.ok a >>= f) = f a := rfl

@[simp] theorem except_map_eq_ok {ε α β : Type} {x : Except ε α} {f : α → β} {b : β} :
    f <$> x = .ok b ↔ ∃ a, x = .ok a ∧ f a = b := by
  cases x <;> simp [Functor.map, Except.map]

@[simp] theorem except_pure_eq_ok {ε α : Type} {a b : α} : (pure a : Except ε α) = .ok b ↔ a = b := by
  simp [pure, Except.pure]

/-- `mc_assert`: abort unless the condition holds. -/
def mcAssert (c : Prop) [Decidable c] : Except Fault Unit :=
  if c then pure () else throw .assertionFailure

@[simp] theorem mcAssert_eq_ok {c : Prop} [Decidable c] {u : Unit} :
    mcAssert c = .ok u ↔ c := by
  unfold mcAssert; split <;> simp_all [pure, throw, throwThe, Except.pure, MonadExceptOf.throw]

/-- Write `value` into slot `slot` of a C array of `capacity` elements. -/
def storeSlot {α : Type} (array : FixedArray) (capacity : Nat) (a : Nat → α) (slot : Int)
    (value : α) : Except Fault (Nat → α) :=
  if 0 ≤ slot ∧ slot < capacity then .ok (Function.update a slot.toNat value)
  else .error (.outOfBounds array slot)

theorem storeSlot_eq_ok {α : Type} {array : FixedArray} {capacity : Nat} {a b : Nat → α}
    {slot : Int} {value : α} :
    storeSlot array capacity a slot value = .ok b ↔
      (0 ≤ slot ∧ slot < capacity) ∧ Function.update a slot.toNat value = b := by
  unfold storeSlot; split <;> simp_all

/-- `mutex_state`. `MUTEX_UNKNOWN` marks a shadow whose contents were never
defined, unlike `MUTEX_DESTROYED`, whose contents are undefined for a known
reason. -/
inductive MutexState
  | unknown
  | locked
  | unlocked
  | destroyed
  deriving DecidableEq, Repr

/-- `struct mutex`: a system mutex and the state of its shadow. -/
structure Mutex where
  mutex : Addr
  state : MutexState
  deriving DecidableEq, Repr

inductive MutexOperationType
  | init
  | lock
  | unlock
  deriving DecidableEq, Repr

/-- `struct mutex_operation`. The `mutex` field is a copy of a shadow: the
revert code restores a shadow from it. -/
structure MutexOperation where
  type : MutexOperationType
  mutex : Mutex
  deriving DecidableEq, Repr

inductive ThreadOperationType
  | start
  | create
  | join
  | finish
  deriving DecidableEq, Repr

/-- `struct thread_operation`: the operation and the thread it targets. -/
structure ThreadOperation where
  type : ThreadOperationType
  thread : Tid
  deriving DecidableEq, Repr

/-- `struct visible_operation`, tagged by `MUTEX` or `THREAD_LIFECYCLE`. -/
inductive VisibleOperation
  | mutex (op : MutexOperation)
  | threadLifecycle (op : ThreadOperation)
  deriving DecidableEq, Repr

/-- `struct transition`: the executing thread and its visible operation. -/
structure Transition where
  thread : Tid
  operation : VisibleOperation
  deriving DecidableEq, Repr

/-- `struct thread`, with the fields registration sets that the model keeps;
the owner `pthread_t`, argument and start routine are host values. -/
structure Thread where
  tid : Tid
  isAlive : Bool
  deriving DecidableEq, Repr

/-- `struct state_stack_item`: the backtrack and done sets of one state. -/
structure StateStackItem where
  backtrackSet : List Tid
  doneSet : List Tid
  deriving DecidableEq, Repr

/-- The item `csystem_grow_state_stack` writes: two freshly created hash sets. -/
def StateStackItem.empty : StateStackItem := ⟨[], []⟩

/-- `hash_set_insert` of each thread of `tids` into the backtrack set. -/
def StateStackItem.addBacktrack (item : StateStackItem) (tids : List Tid) : StateStackItem :=
  { item with backtrackSet := tids.foldl (fun set q => set.insert q) item.backtrackSet }

@[simp] theorem StateStackItem.mem_addBacktrack (item : StateStackItem) (tids : List Tid)
    (q : Tid) : q ∈ (item.addBacktrack tids).backtrackSet ↔ q ∈ item.backtrackSet ∨ q ∈ tids := by
  unfold addBacktrack
  induction tids generalizing item with
  | nil => simp
  | cons t ts ih =>
      simp only [List.foldl_cons, List.mem_cons] at ih ⊢
      rw [ih ⟨item.backtrackSet.insert t, item.doneSet⟩, List.mem_insert_iff, or_assoc,
        or_left_comm]

@[simp] theorem StateStackItem.addBacktrack_doneSet (item : StateStackItem) (tids : List Tid) :
    (item.addBacktrack tids).doneSet = item.doneSet := rfl

/-- The shadow-mutex part of the record: `mut_next`, the next free slot less one;
`mutex_map`, from a `pthread_mutex_t*` to its slot; and `locks`, the slots. -/
structure MutexStore where
  mutNext : Int
  mutexMap : Addr → Option Nat
  locks : Nat → Mutex

namespace MutexStore

/-- The live shadow of a system mutex: the slot the map sends it to. -/
def shadowOf (m : MutexStore) (a : Addr) : Option Mutex :=
  (m.mutexMap a).map m.locks

/-- `csystem_get_mutex_with_pthread` followed by a dereference: the `NULL` of a
missing entry faults. -/
def getShadow (m : MutexStore) (a : Addr) : Except Fault Nat :=
  match m.mutexMap a with
  | some slot => .ok slot
  | none => .error .nullDereference

theorem getShadow_eq_ok {m : MutexStore} {a : Addr} {slot : Nat} :
    m.getShadow a = .ok slot ↔ m.mutexMap a = some slot := by
  unfold getShadow; split <;> simp_all

/-- Two stores agree on everything the C code can observe: `mut_next`, the map,
and the contents of every live slot. Slots no entry points to may differ. -/
structure LiveEq (m n : MutexStore) : Prop where
  mutNext_eq : m.mutNext = n.mutNext
  mutexMap_eq : m.mutexMap = n.mutexMap
  shadowOf_eq : m.shadowOf = n.shadowOf

theorem LiveEq.refl (m : MutexStore) : LiveEq m m := ⟨rfl, rfl, rfl⟩

theorem LiveEq.symm {m n : MutexStore} (h : LiveEq m n) : LiveEq n m :=
  ⟨h.1.symm, h.2.symm, h.3.symm⟩

theorem LiveEq.trans {m n o : MutexStore} (h : LiveEq m n) (h' : LiveEq n o) : LiveEq m o :=
  ⟨h.1.trans h'.1, h.2.trans h'.2, h.3.trans h'.3⟩

/-- A live slot holds the same shadow in two agreeing stores. -/
theorem LiveEq.locks_eq {m n : MutexStore} (h : LiveEq m n) {a : Addr} {slot : Nat}
    (hslot : m.mutexMap a = some slot) : m.locks slot = n.locks slot := by
  have hshadow := congrFun h.shadowOf_eq a
  simp only [shadowOf, hslot, ← h.mutexMap_eq, Option.map_some', Option.some.injEq] at hshadow
  exact hshadow

end MutexStore

/-- `struct concurrent_system`. The `transition_map` of the C record is created
and never read, so it is left out. -/
structure CSystem where
  tidNext : Nat
  threads : Nat → Thread
  mutexes : MutexStore
  tStackTop : Int
  tStack : Nat → Transition
  tNext : Nat → Transition
  sStackTop : Int
  sStack : Nat → StateStackItem
  isBacktracking : Bool
  detachedTTop : Int

/-- Static storage of the global record before the first `csystem_init`:
counters zero, the flag clear, no mutex mapped, and every transition slot
holding `t`. -/
def CSystem.staticStorage (t : Transition) : CSystem where
  tidNext := 0
  threads := fun tid => ⟨tid, false⟩
  mutexes := ⟨0, fun _ => none, fun _ => ⟨0, .unknown⟩⟩
  tStackTop := 0
  tStack := fun _ => t
  tNext := fun _ => t
  sStackTop := 0
  sStack := fun _ => .empty
  isBacktracking := false
  detachedTTop := 0

end McMini.ConcurrentSystem
