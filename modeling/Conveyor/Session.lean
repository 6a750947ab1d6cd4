import Conveyor.Console
import Conveyor.Failure
import Conveyor.World

/-!
Sessions: the world that jobs work on, and what was told to the user so far. A job step changes both
and may fail; what it changed and told before it failed stays.
-/

namespace Conveyor

structure Session (σ : Type) where
  world : World σ
  notices : List Notice := []

abbrev JobStep (σ : Type) := ExceptT JobFailure (StateM (Session σ))

/-- A step of a run. It fails only by faults. -/
abbrev RunStep (σ : Type) := ExceptT Fault (StateM (Session σ))

namespace Session

variable {σ : Type}

/-- Adds to what was told. It takes every notice; a console that may fail instead is a `Printer`. -/
def tell (s : Session σ) (n : Notice) : Session σ := { s with notices := s.notices ++ [n] }

end Session

variable {σ α : Type}

namespace JobStep

def tell (n : Notice) : JobStep σ Unit := modify (·.tell n)

/-- An action on the world as a step; its fault fails the job. -/
def ofAction (a : Action σ α) : JobStep σ α :=
  ExceptT.mk fun s =>
    let (answer, w) := a.run.run s.world
    (answer.mapError .ofFault, { s with world := w })

def ask (f : FileTree → Except JobFailure α) : JobStep σ α :=
  ExceptT.mk fun s => (f s.world.files, s)

/-- Goes on with the failure of a step as an answer. -/
def attempt (step : JobStep σ α) : StateM (Session σ) (Except JobFailure α) := step.run

/-- A step of a run within a job; its fault fails the job. -/
def ofRun (step : RunStep σ α) : JobStep σ α :=
  ExceptT.mk do return (← step.run).mapError .ofFault

end JobStep

namespace RunStep

def tell (n : Notice) : RunStep σ Unit := modify (·.tell n)

def ofAction (a : Action σ α) : RunStep σ α :=
  ExceptT.mk fun s =>
    let (answer, w) := a.run.run s.world
    (answer, { s with world := w })

/-- Something that never fails as a step of a run. -/
def ofState (a : StateM (Session σ) α) : RunStep σ α := liftM a

/-- Goes on with the fault of a step as an answer. -/
def attempt (step : RunStep σ α) : StateM (Session σ) (Except Fault α) := step.run

end RunStep

/-- How notices are told. `RunStep.tell` adds each of them to the session; another printer may fail with
some, as a stream does that is closed or has no code for a letter. -/
abbrev Printer (σ : Type) := Notice → RunStep σ Unit

/-- A printer within a job, which fails with a notice that is not told. -/
def Printer.inJob (printer : Printer σ) (n : Notice) : JobStep σ Unit := .ofRun (printer n)

end Conveyor
