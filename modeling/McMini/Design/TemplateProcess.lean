/-
# The template process

`mc_template_process_loop_forever` of `libmcmini/entry.c`. The template process
waits on `libmcmini_sem`, forks, and posts `mcmini_process_sem` after writing
the child's pid into `tpt->cpid`; the engine reads `cpid` once its wait on that
semaphore returns. The forked child sees `fork()` return `0` and returns into
the program instead of looping.

The value `TEMPLATE_FORK_FAILED` is defined outside the sources, so it is the
parameter `templateForkFailed`. The loop writes it when `fork()` fails and then
falls through to `tpt->cpid = cpid`, so the post after a failed fork carries
`-1`.
-/

import Mathlib.Logic.Basic

namespace McMini.Design

/-- The part of `struct template_process_t` the loop writes: the pid slot, and
the value of that slot at each post of `mcmini_process_sem`, in order. -/
structure TemplateProcess where
  cpid : Int
  posts : List Int
  deriving DecidableEq, Repr

/-- The result of one `fork()`: a child with a positive pid, which `fork()`
returns to the template while the child sees `0`, or a failure, `-1`. -/
inductive ForkResult
  | forked (pid : Int) (hpos : 0 < pid)
  | failed

/-- What `fork()` returns in the template process. -/
def ForkResult.inTemplate : ForkResult → Int
  | .forked pid _ => pid
  | .failed => -1

theorem ForkResult.inTemplate_ne_zero (r : ForkResult) : r.inTemplate ≠ 0 := by
  cases r with
  | forked pid hpos => exact Int.ne_of_gt hpos
  | failed => decide

section Loop

variable (templateForkFailed : Int)

/-- The loop body after `sem_wait`, in a process to which `fork()` returned
`cpid`. The child (`cpid = 0`) returns into the program: `none`. -/
def loopBody (tpt : TemplateProcess) (cpid : Int) : Option TemplateProcess := do
  let tpt ←
    if cpid = -1 then pure { tpt with cpid := templateForkFailed }
    else if cpid = 0 then none
    else pure tpt
  pure { tpt with cpid, posts := tpt.posts ++ [cpid] }

/-- The template process serving one request per fork result. -/
def templateLoop (tpt : TemplateProcess) : List ForkResult → TemplateProcess
  | [] => tpt
  | r :: rs =>
      match loopBody templateForkFailed tpt r.inTemplate with
      | some tpt' => templateLoop tpt' rs
      | none => tpt

/-- The forked child never posts: its pass through the body returns. -/
theorem loopBody_child (tpt : TemplateProcess) : loopBody templateForkFailed tpt 0 = none := by
  simp [loopBody]

/-- In the template the body always posts, after writing what `fork()`
returned: the value `TEMPLATE_FORK_FAILED` written on a failure is overwritten
before the post. -/
theorem loopBody_of_ne_zero (tpt : TemplateProcess) {cpid : Int} (h : cpid ≠ 0) :
    loopBody templateForkFailed tpt cpid = some { cpid, posts := tpt.posts ++ [cpid] } := by
  by_cases hfail : cpid = -1 <;> simp [loopBody, hfail, h]

/-- Over any sequence of fork results, the template posts once per request, and
the engine reads at each post what `fork()` returned in the template: the
child's pid, or `-1` after a failure, whatever `TEMPLATE_FORK_FAILED` is. -/
theorem templateLoop_posts (tpt : TemplateProcess) (rs : List ForkResult) :
    (templateLoop templateForkFailed tpt rs).posts = tpt.posts ++ rs.map ForkResult.inTemplate := by
  induction rs generalizing tpt with
  | nil => simp [templateLoop]
  | cons r rs ih =>
      rw [templateLoop, loopBody_of_ne_zero _ _ r.inTemplate_ne_zero, ih]
      simp

end Loop

end McMini.Design
