import MarkerBus.Text.Terminated

namespace MarkerBus

structure Environment where
  bindings : List (String × String)
deriving Repr

namespace Environment

/-- The value of a variable, if it is set.  A value ends at its first NUL. -/
def value? (environment : Environment) (name : String) : Option String :=
  (environment.bindings.lookup name).map Text.beforeNul

end Environment

end MarkerBus
