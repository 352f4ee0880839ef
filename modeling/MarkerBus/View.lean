import MarkerBus.Message

namespace MarkerBus

/-- At most one message for each instant, ascending by instant. -/
abbrev View := List Message

namespace View

def record (message : Message) : View → View
  | [] => [message]
  | head :: rest =>
      if message.instant < head.instant then
        message :: head :: rest
      else if head.instant < message.instant then
        head :: record message rest
      else if head.phase.rank < message.phase.rank then
        message :: rest
      else
        head :: rest

def resolve (messages : List Message) : View :=
  messages.foldl (fun view message => view.record message) []

/-- The greatest instant, unless it is complete.  An aborted instant still
counts as pending, so that it can be taken up again. -/
def pending? (view : View) : Option Instant :=
  match view.getLast? with
  | some message => if message.isComplete then none else some message.instant
  | none => none

def isAborted (view : View) (instant : Instant) : Bool :=
  view.any fun message => message.instant = instant ∧ message.isAborted

end View

end MarkerBus
