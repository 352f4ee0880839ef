import MarkerBus.Storage.Failing

namespace MarkerBus.Storage

inductive Operation where
  | create
  | list
  | remove
  | probe
  | reset
deriving DecidableEq, Repr

def Request.operation : Request → Operation
  | .create _ => .create
  | .list _ => .list
  | .remove _ => .remove
  | .probe _ => .probe
  | .reset _ => .reset

/-- Lets the first `skip` calls of its kind pass, and then strikes `times?` times, or
for ever. -/
structure PlannedFailure where
  operation : Operation
  /-- The path that is struck; none stands for every path. -/
  path? : Option String
  /-- The number to report; none breaks the call off without a report. -/
  code? : Option ErrorNumber
  skip : Nat
  times? : Option Nat
deriving DecidableEq, Repr

namespace PlannedFailure

def concerns (planned : PlannedFailure) (request : Request) : Bool :=
  planned.operation = request.operation ∧ planned.times? ≠ some 0 ∧
    (planned.path? = none ∨ planned.path? = some request.path)

def failure (planned : PlannedFailure) (path : String) : Failure :=
  match planned.code? with
  | some code => .reported ⟨.planned, path, code⟩
  | none => .interrupted path

end PlannedFailure

/-- The failure that strikes a call, if any, and the plan from then on.  The
first failure that is due strikes; those before it may count the call. -/
def PlannedFailure.strike : Strike (List PlannedFailure)
  | _, [] => (none, [])
  | request, planned :: rest =>
      if planned.concerns request then
        if planned.skip = 0 then
          (some (planned.failure request.path),
            { planned with times? := planned.times?.map (· - 1) } :: rest)
        else
          let (struck, rest) := strike request rest
          (struck, { planned with skip := planned.skip - 1 } :: rest)
      else
        let (struck, rest) := strike request rest
        (struck, planned :: rest)

end MarkerBus.Storage
