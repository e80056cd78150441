/-
# The transition algebra of the design

`concurrent_system.c` calls `transition_enabled`, `transitions_coenabled` and
`transitions_dependent` but their bodies are not among the sources. Every
theorem about the C code holds for each `TransitionAlgebra`; this module gives
the one the design describes, restricted to the mutex and thread-lifecycle
operations of the C model, so that concrete runs can be evaluated.
-/

import McMini.ConcurrentSystem.Operations

namespace McMini.ConcurrentSystem.SpecAlgebra

/-- `transition_enabled`, as the design describes it. A lock waits while the shadow
of its mutex is locked, and needs a shadow; a freshly initialised shadow, whose
state is the `MUTEX_UNKNOWN` its init recorded, counts as unlocked. A join
waits for its target to die. Every other operation is enabled. -/
def transitionEnabled (s : CSystem) (t : Transition) : Bool :=
  match t.operation with
  | .mutex ⟨.lock, mu⟩ =>
      match s.mutexes.shadowOf mu.mutex with
      | some shadow => shadow.state != .locked
      | none => false
  | .threadLifecycle ⟨.join, target⟩ => !(s.threads target).isAlive
  | _ => true

/-- `transitions_coenabled`, as the design describes it. Co-enabled unless both lock
the same mutex; the owner of a mutex, which the design's other exception needs,
is not recorded in the C shadow. -/
def transitionsCoenabled (t u : Transition) : Bool :=
  match t.operation, u.operation with
  | .mutex ⟨.lock, a⟩, .mutex ⟨.lock, b⟩ => a.mutex != b.mutex
  | _, _ => true

/-- `t` creates the thread that executes `u`. -/
def createsExecutor (t u : Transition) : Bool :=
  match t.operation with
  | .threadLifecycle ⟨.create, child⟩ => child == u.thread
  | _ => false

/-- `t` joins the thread whose finish `u` is. -/
def joinsFinish (t u : Transition) : Bool :=
  match t.operation, u.operation with
  | .threadLifecycle ⟨.join, target⟩, .threadLifecycle ⟨.finish, _⟩ => target == u.thread
  | _, _ => false

/-- Both transitions act on the same mutex. -/
def sameMutex (t u : Transition) : Bool :=
  match t.operation, u.operation with
  | .mutex a, .mutex b => a.mutex.mutex == b.mutex.mutex
  | _, _ => false

/-- `transitions_dependent`, as the design describes it. One thread executes both,
both act on one mutex, one creates the executor of the other, or one joins the
thread whose finish the other is. -/
def transitionsDependent (t u : Transition) : Bool :=
  t.thread == u.thread || sameMutex t u || createsExecutor t u || createsExecutor u t ||
    joinsFinish t u || joinsFinish u t

/-- The algebra of the design. -/
def algebra : TransitionAlgebra :=
  ⟨transitionEnabled, transitionsCoenabled, transitionsDependent⟩

end McMini.ConcurrentSystem.SpecAlgebra
