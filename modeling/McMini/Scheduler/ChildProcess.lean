/-
# The scheduler's child processes

`mc_scheduler_main` of `src/MCMINI.cpp`, on the scheduler's side of every
`fork()`. The scheduler keeps at most one checked child, whose pid is the global
`cpid`: `mc_spawn_child` asserts `cpid == -1` and forks, `mc_child_kill` signals
the child with `SIGUSR1` and reaps it, and `mc_child_wait` asserts `cpid != -1`
and reaps the child of a GDB session. The process calls are recorded in order,
and every exit records the call site it leaves from. These two assertions on
`cpid` are the only `MC_ASSERT`s modelled: `mc_run_thread_to_next_visible_operation`
and its `MC_ASSERT(tid != TID_INVALID)` touch no process and are left out.

What the program state answers is an input: how each run of
`mc_exhaust_threads` ends (its deadlock verdict, or a panic of the child, or
undefined behaviour the scheduler reports), whether the top state-stack item has
a thread to backtrack on, the state-stack height after each trace, and whether
the child of a GDB session exits or panics while the scheduler waits; the trace
ids that start a GDB session or a dump of the stacks are the configuration's
predicates. The calls into the program state that start, wake or simulate
threads touch no process and are left out; `fork()` returns `1, 2, …` in turn.

The loop's exit at the end of the exploration is `mc_init`'s
`__real_exit(EXIT_SUCCESS)` after `mc_scheduler_main` returns.
-/

import Mathlib.Data.List.Basic

namespace McMini.Scheduler

/-- A process call of the scheduler. -/
inductive SysCall
  | fork (pid : Int)
  | kill (pid : Int)
  | waitpid (pid : Int)
  deriving DecidableEq, Repr

/-- The scheduler process: the global `cpid`, the pid the next `fork()` returns,
and the process calls made so far. -/
structure Procs where
  cpid : Int
  nextPid : Int
  calls : List SysCall
  deriving DecidableEq, Repr

/-- The scheduler before its first `fork()`. -/
def Procs.init : Procs := ⟨-1, 1, []⟩

/-- The call sites at which the scheduler process exits. -/
inductive ExitSite
  /-- `__real_exit(0)` in `mc_exhaust_threads`, with the `programIsInDeadlock()`
  verdict it read. -/
  | exhaustThreads (deadlock : Bool)
  /-- `_exit(1)` in `sigusr1_handler_scheduler`. -/
  | signalHandler
  /-- `exit(EXIT_FAILURE)` in `mc_report_undefined_behavior`. -/
  | undefinedBehavior
  /-- `__real_exit(0)` in `mc_exit_with_trace_if_necessary`. -/
  | traceDump
  /-- `__real_exit(0)` in `mc_enter_gdb_debugging_session`. -/
  | gdbSession
  /-- `__real_exit(EXIT_SUCCESS)` in `mc_init` once the exploration is over. -/
  | completed
  deriving DecidableEq, Repr

/-- How the scheduler process ends. -/
inductive Stop
  /-- `exit`, `_exit` or `__real_exit` at `site` with a status. -/
  | exit (site : ExitSite) (status : Int)
  /-- An `MC_ASSERT` fails. -/
  | assertFailed
  deriving DecidableEq, Repr

/-- The configuration the process calls depend on. -/
structure Config where
  stopAtFirstDeadlock : Bool
  isTargetTraceIdForGDB : Nat → Bool
  isTargetTraceIdForStackContents : Nat → Bool

/-- How one run of `mc_exhaust_threads` ends. -/
inductive ExhaustAnswer
  /-- No transition is enabled any more; `programIsInDeadlock()` is the verdict. -/
  | finished (deadlock : Bool)
  /-- The child calls `mc_child_panic`, which signals the scheduler. -/
  | childPanic
  /-- A simulated transition calls `mc_report_undefined_behavior`. -/
  | undefinedBehavior

/-- How the child of a GDB session ends while the scheduler waits for it. -/
inductive GdbChildAnswer
  /-- The child exits, and `waitpid` returns. -/
  | exits
  /-- The daemon thread calls `mc_child_panic` after replaying the trace, which
  signals the scheduler during its wait. -/
  | panics

/-- What the program state answers in one pass of the loop of
`mc_scheduler_main`. -/
inductive LoopAnswer
  /-- The top item has no thread to backtrack on. -/
  | noBacktrack
  /-- It has one: the trace replayed from it ends as `exhaust` says and leaves a
  state stack `depth` items high. -/
  | backtrack (exhaust : ExhaustAnswer) (depth : Nat)

/-- A step of the scheduler process: it goes on, or it ends. -/
abbrev SchedulerM := Except (Stop × Procs) Procs

section Calls

variable (cfg : Config)

/-- `MC_ASSERT`. -/
def mcAssert (p : Procs) (c : Bool) : Except (Stop × Procs) Unit :=
  if c then pure () else throw (.assertFailed, p)

/-- Ending the process at `site` with `status`. -/
def exitWith (site : ExitSite) (status : Int) (p : Procs) : SchedulerM :=
  throw (.exit site status, p)

/-- `mc_spawn_child`, on the scheduler's side. -/
def mcSpawnChild (p : Procs) : SchedulerM := do
  mcAssert p (p.cpid == -1)
  pure { cpid := p.nextPid, nextPid := p.nextPid + 1, calls := p.calls ++ [.fork p.nextPid] }

/-- `mc_child_kill`. -/
def mcChildKill (p : Procs) : Procs :=
  if p.cpid = -1 then p
  else { p with cpid := -1, calls := p.calls ++ [.kill p.cpid, .waitpid p.cpid] }

/-- `sigusr1_handler_scheduler`: `_exit(1)` after killing the child. -/
def sigusr1HandlerScheduler (p : Procs) : SchedulerM := exitWith .signalHandler 1 (mcChildKill p)

/-- `mc_child_wait`: `waitpid` returns when the child exits; a `SIGUSR1` from the
child during the wait runs the handler instead. -/
def mcChildWait (child : GdbChildAnswer) (p : Procs) : SchedulerM := do
  mcAssert p (p.cpid != -1)
  match child with
  | .exits => pure { p with calls := p.calls ++ [.waitpid p.cpid] }
  | .panics => sigusr1HandlerScheduler p

/-- `mc_begin_target_program_at_main`, on the scheduler's side. -/
def mcBeginTargetProgramAtMain (p : Procs) : SchedulerM := mcSpawnChild p

/-- `mc_spawn_child_following_transition_stack`, on the scheduler's side: the
replay of the transition stack only wakes threads. -/
def mcSpawnChildFollowingTransitionStack (p : Procs) : SchedulerM := mcBeginTargetProgramAtMain p

/-- `mc_report_undefined_behavior`: `exit(EXIT_FAILURE)` after killing the child. -/
def mcReportUndefinedBehavior (p : Procs) : SchedulerM :=
  exitWith .undefinedBehavior 1 (mcChildKill p)

/-- `mc_exhaust_threads` from the end of its loop. -/
def mcExhaustThreads (p : Procs) : ExhaustAnswer → SchedulerM
  | .finished deadlock =>
      if deadlock && cfg.stopAtFirstDeadlock then exitWith (.exhaustThreads deadlock) 0 p
      else pure (mcChildKill p)
  | .childPanic => sigusr1HandlerScheduler p
  | .undefinedBehavior => mcReportUndefinedBehavior p

/-- `mc_readvance_main`, on the scheduler's side. -/
def mcReadvanceMain (p : Procs) (exhaust : ExhaustAnswer) : SchedulerM := do
  let p ← mcSpawnChildFollowingTransitionStack p
  mcExhaustThreads cfg p exhaust

/-- `mc_exit_with_trace_if_necessary`. -/
def mcExitWithTraceIfNecessary (trid : Nat) (p : Procs) : SchedulerM :=
  if cfg.isTargetTraceIdForStackContents trid then exitWith .traceDump 0 (mcChildKill p)
  else pure p

/-- `mc_enter_gdb_debugging_session`, on the scheduler's side. -/
def mcEnterGdbDebuggingSession (child : GdbChildAnswer) (p : Procs) : SchedulerM := do
  let p ← mcBeginTargetProgramAtMain p
  let p ← mcChildWait child p
  exitWith .gdbSession 0 p

/-- `mc_enter_gdb_debugging_session_if_necessary`. -/
def mcEnterGdbDebuggingSessionIfNecessary (child : GdbChildAnswer) (trid : Nat) (p : Procs) :
    SchedulerM :=
  if cfg.isTargetTraceIdForGDB trid then mcEnterGdbDebuggingSession child p else pure p

/-- The loop of `mc_scheduler_main` at state-stack height `depth` and trace id
`trid`, a GDB session's child ending as `child` says. When the loop ends,
`mc_scheduler_main` returns and `mc_init` exits with `EXIT_SUCCESS`; when the
answers run out first, the scheduler is still running. -/
def schedulerLoop (child : GdbChildAnswer) : Nat → Nat → Procs → List LoopAnswer → SchedulerM
  | 0, _, p, _ => exitWith .completed 0 p
  | _ + 1, _, p, [] => pure p
  | depth + 1, trid, p, .noBacktrack :: answers => schedulerLoop child depth trid p answers
  | _ + 1, trid, p, .backtrack exhaust depth :: answers => do
      let p ← mcEnterGdbDebuggingSessionIfNecessary cfg child trid p
      let p ← mcReadvanceMain cfg p exhaust
      let p ← mcExitWithTraceIfNecessary cfg trid p
      schedulerLoop child depth (trid + 1) p answers

/-- `mc_scheduler_main`, on the scheduler's side, with the first trace ending as
`exhaust` says and leaving a state stack `depth` items high. -/
def mcSchedulerMain (child : GdbChildAnswer) (exhaust : ExhaustAnswer) (depth : Nat)
    (answers : List LoopAnswer) (p : Procs) : SchedulerM := do
  let p ← mcBeginTargetProgramAtMain p
  let p ← mcExhaustThreads cfg p exhaust
  let p ← mcExitWithTraceIfNecessary cfg 0 p
  let p ← mcEnterGdbDebuggingSessionIfNecessary cfg child 0 p
  schedulerLoop cfg child depth 1 p answers

end Calls

section Invariant

/-- Every child forked was signalled and reaped. -/
def Settled (calls : List SysCall) : Prop :=
  ∀ pid, SysCall.fork pid ∈ calls → SysCall.kill pid ∈ calls ∧ SysCall.waitpid pid ∈ calls

/-- Every child forked but `child` was signalled and reaped. -/
def SettledBut (child : Int) (calls : List SysCall) : Prop :=
  ∀ pid, SysCall.fork pid ∈ calls → pid = child ∨
    (SysCall.kill pid ∈ calls ∧ SysCall.waitpid pid ∈ calls)

/-- Between two traces: no checked child, every child forked so far signalled
and reaped, and the next pid positive. -/
structure Quiet (p : Procs) : Prop where
  cpid_eq : p.cpid = -1
  nextPid_pos : 0 < p.nextPid
  settled : Settled p.calls

/-- Where the scheduler is after any part of its run from a quiet state: still
running and quiet, or ended by an exit with every child signalled and reaped.
Two exit sites leave the checked child unsignalled: the GDB session, after
`mc_child_wait` has reaped it, and `mc_exhaust_threads` on a deadlock verdict
with `stopAtFirstDeadlock` set, which leaves it unreaped. No assertion on
`cpid` fails. -/
def Safe (cfg : Config) : SchedulerM → Prop
  | .ok p => Quiet p
  | .error (.assertFailed, _) => False
  | .error (.exit (.exhaustThreads deadlock) _, p) =>
      deadlock = true ∧ cfg.stopAtFirstDeadlock = true ∧ SettledBut p.cpid p.calls
  | .error (.exit .gdbSession _, p) =>
      SettledBut p.cpid p.calls ∧ SysCall.waitpid p.cpid ∈ p.calls
  | .error (.exit _ _, p) => Settled p.calls

variable {cfg : Config}

theorem quiet_init : Quiet Procs.init := ⟨rfl, Int.zero_lt_one, fun _ h => nomatch h⟩

theorem Safe.bind {x : SchedulerM} {f : Procs → SchedulerM} (hx : Safe cfg x)
    (hf : ∀ p, Quiet p → Safe cfg (f p)) : Safe cfg (x >>= f) := by
  match x, hx with
  | .ok p, hp => exact hf p hp
  | .error e, he => exact he

theorem Settled.append_killed {calls : List SysCall} (h : Settled calls) (pid : Int) :
    Settled (calls ++ [.fork pid, .kill pid, .waitpid pid]) := by
  intro q hfork
  simp only [List.mem_append, List.mem_cons, List.mem_singleton, List.not_mem_nil, or_false,
    SysCall.fork.injEq, reduceCtorEq] at hfork ⊢
  rcases hfork with hold | rfl
  · exact ⟨.inl (h q hold).1, .inl (h q hold).2⟩
  · simp

theorem SettledBut.append_waitpid {child : Int} {calls : List SysCall} (h : SettledBut child calls)
    (pid : Int) : SettledBut child (calls ++ [.waitpid pid]) := by
  intro q hfork
  simp only [List.mem_append, List.mem_singleton, reduceCtorEq, or_false] at hfork
  exact (h q hfork).imp_right fun ⟨hk, hw⟩ => ⟨List.mem_append_left _ hk, List.mem_append_left _ hw⟩

/-- The scheduler after `mc_spawn_child` from a quiet state. -/
def Procs.spawned (p : Procs) : Procs :=
  { cpid := p.nextPid, nextPid := p.nextPid + 1, calls := p.calls ++ [.fork p.nextPid] }

theorem mcSpawnChild_of_quiet {p : Procs} (hp : Quiet p) : mcSpawnChild p = pure p.spawned := by
  simp [mcSpawnChild, mcAssert, hp.cpid_eq, Procs.spawned]

theorem mcChildKill_of_quiet {p : Procs} (hp : Quiet p) : mcChildKill p = p := by
  simp [mcChildKill, hp.cpid_eq]

theorem mcChildKill_spawned {p : Procs} (hp : Quiet p) :
    mcChildKill p.spawned =
      ⟨-1, p.nextPid + 1, p.calls ++ [.fork p.nextPid, .kill p.nextPid, .waitpid p.nextPid]⟩ := by
  have hne : p.nextPid ≠ -1 := by have := hp.nextPid_pos; omega
  simp [mcChildKill, Procs.spawned, hne]

/-- Killing the child just spawned makes the scheduler quiet again. -/
theorem quiet_mcChildKill_spawned {p : Procs} (hp : Quiet p) : Quiet (mcChildKill p.spawned) := by
  rw [mcChildKill_spawned hp]
  exact ⟨rfl, Int.lt_add_one_of_le (Int.le_of_lt hp.nextPid_pos), hp.settled.append_killed _⟩

/-- The child just spawned is the only one not reaped. -/
theorem settledBut_spawned {p : Procs} (hp : Quiet p) :
    SettledBut p.spawned.cpid p.spawned.calls := by
  intro q hfork
  simp only [Procs.spawned, List.mem_append, List.mem_singleton, SysCall.fork.injEq] at hfork ⊢
  rcases hfork with hold | rfl
  · exact .inr ⟨.inl (hp.settled q hold).1, .inl (hp.settled q hold).2⟩
  · exact .inl rfl

/-- Every end of `mc_exhaust_threads` kills the child, except the exit at a
first deadlock. -/
theorem safe_mcExhaustThreads_spawned {p : Procs} (hp : Quiet p) (exhaust : ExhaustAnswer) :
    Safe cfg (mcExhaustThreads cfg p.spawned exhaust) := by
  cases exhaust with
  | finished deadlock =>
      rw [mcExhaustThreads]
      by_cases hstop : (deadlock && cfg.stopAtFirstDeadlock) = true
      · rw [if_pos hstop]
        rw [Bool.and_eq_true] at hstop
        exact ⟨hstop.1, hstop.2, settledBut_spawned hp⟩
      · rw [if_neg hstop]
        exact quiet_mcChildKill_spawned hp
  | childPanic => exact (quiet_mcChildKill_spawned hp).settled
  | undefinedBehavior => exact (quiet_mcChildKill_spawned hp).settled

theorem safe_mcReadvanceMain {p : Procs} (hp : Quiet p) (exhaust : ExhaustAnswer) :
    Safe cfg (mcReadvanceMain cfg p exhaust) := by
  rw [mcReadvanceMain, mcSpawnChildFollowingTransitionStack, mcBeginTargetProgramAtMain,
    mcSpawnChild_of_quiet hp, pure_bind]
  exact safe_mcExhaustThreads_spawned hp exhaust

theorem safe_mcExitWithTraceIfNecessary {p : Procs} (hp : Quiet p) (trid : Nat) :
    Safe cfg (mcExitWithTraceIfNecessary cfg trid p) := by
  rw [mcExitWithTraceIfNecessary, mcChildKill_of_quiet hp]
  split
  · exact hp.settled
  · exact hp

/-- The GDB session exits after reaping its child: with `mc_child_wait` when the
child exits, or killing it in the handler when it panics. -/
theorem safe_mcEnterGdbDebuggingSessionIfNecessary {p : Procs} (hp : Quiet p)
    (child : GdbChildAnswer) (trid : Nat) :
    Safe cfg (mcEnterGdbDebuggingSessionIfNecessary cfg child trid p) := by
  rw [mcEnterGdbDebuggingSessionIfNecessary]
  split
  · have hne : p.nextPid ≠ -1 := by have := hp.nextPid_pos; omega
    simp only [mcEnterGdbDebuggingSession, mcBeginTargetProgramAtMain, mcSpawnChild_of_quiet hp,
      pure_bind, mcChildWait, mcAssert, Procs.spawned, bne_iff_ne, ne_eq, hne, not_false_eq_true,
      if_true]
    cases child with
    | exits => exact ⟨(settledBut_spawned hp).append_waitpid _, by simp⟩
    | panics => exact (quiet_mcChildKill_spawned hp).settled
  · exact hp

/-- The run lemma of the loop: from a quiet state, over any answers. -/
theorem safe_schedulerLoop (child : GdbChildAnswer) (answers : List LoopAnswer) :
    ∀ (depth trid : Nat) {p : Procs}, Quiet p →
      Safe cfg (schedulerLoop cfg child depth trid p answers) := by
  induction answers with
  | nil =>
      rintro (_ | depth) trid p hp
      · exact hp.settled
      · exact hp
  | cons answer answers ih =>
      rintro (_ | depth) trid p hp
      · exact hp.settled
      · cases answer with
        | noBacktrack => exact ih depth trid hp
        | backtrack exhaust depth' =>
            exact (safe_mcEnterGdbDebuggingSessionIfNecessary hp child trid).bind fun p hp =>
              (safe_mcReadvanceMain hp exhaust).bind fun p hp =>
                (safe_mcExitWithTraceIfNecessary hp trid).bind fun p hp => ih depth' (trid + 1) hp

/-- Over every exploration: neither assertion on `cpid` fails, so every
`mc_spawn_child` finds `cpid == -1` and every `mc_child_wait` a child; and the
scheduler exits only after signalling and reaping every child it forked, but at
two sites. The GDB session exits after `mc_child_wait` has reaped the child that
exits by itself; `mc_exhaust_threads` exits on a deadlock verdict with
`stopAtFirstDeadlock` set and leaves its child unreaped. -/
theorem mcSchedulerMain_safe (cfg : Config) (child : GdbChildAnswer) (exhaust : ExhaustAnswer)
    (depth : Nat) (answers : List LoopAnswer) :
    Safe cfg (mcSchedulerMain cfg child exhaust depth answers Procs.init) := by
  rw [mcSchedulerMain, mcBeginTargetProgramAtMain, mcSpawnChild_of_quiet quiet_init, pure_bind]
  exact (safe_mcExhaustThreads_spawned quiet_init exhaust).bind fun p hp =>
    (safe_mcExitWithTraceIfNecessary hp 0).bind fun p hp =>
      (safe_mcEnterGdbDebuggingSessionIfNecessary hp child 0).bind fun p hp =>
        safe_schedulerLoop child answers depth 1 hp

/-- With `stopAtFirstDeadlock` set and a first trace that ends in deadlock,
the scheduler exits from `mc_exhaust_threads` with status `0` right after
forking its first child, which it never signals nor reaps, whatever the rest of
the configuration and the answers. -/
theorem mcSchedulerMain_exits_with_child (gdb dump : Nat → Bool) (child : GdbChildAnswer)
    (depth : Nat) (answers : List LoopAnswer) :
    mcSchedulerMain ⟨true, gdb, dump⟩ child (.finished true) depth answers Procs.init =
      throw (.exit (.exhaustThreads true) 0, ⟨1, 2, [.fork 1]⟩) :=
  rfl

end Invariant

end McMini.Scheduler
