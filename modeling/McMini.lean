import McMini.ConcurrentSystem.Basic
import McMini.ConcurrentSystem.Operations
import McMini.ConcurrentSystem.Revert
import McMini.ConcurrentSystem.SpecAlgebra
import McMini.ConcurrentSystem.HappensBefore
import McMini.ConcurrentSystem.Backtrack
import McMini.ConcurrentSystem.BacktrackFrame
import McMini.ConcurrentSystem.BacktrackTarget
import McMini.ConcurrentSystem.Api
import McMini.ConcurrentSystem.Reachable
import McMini.ConcurrentSystem.BacktrackStop
import McMini.ConcurrentSystem.WellFormed
import McMini.ConcurrentSystem.TraceEnd
import McMini.ConcurrentSystem.ShadowSlots
import McMini.ConcurrentSystem.DependencyReads
import McMini.ConcurrentSystem.ScanStop
import McMini.Design.TemplateProcess
import McMini.Design.VisibleObject
import McMini.Design.StateSequence
import McMini.Scheduler.ChildProcess
