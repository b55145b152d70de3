import AspectWeaving.Library

/-!
How a module is to be woven: which type all decorators derive from, whether methods are woven in
parallel, whether woven bodies are validated and whether information is reported.
-/
namespace AspectWeaving

/-- How a module is to be woven. -/
structure Policy where
  marker : TypeName := WellKnown.decoratorAttribute
  parallel : Bool := true
  validates : Bool := true
  reportsInfo : Bool := true
  deriving DecidableEq, Inhabited

namespace Policy

/-- No validation and no information. -/
def minimal : Policy := { validates := false, reportsInfo := false }

/-- One method after another, validated and fully reported. -/
def strict : Policy := { parallel := false }

/-- The policy with another type that all decorators derive from. -/
def withMarker (p : Policy) (fullName : String) : Policy := { p with marker := .parse fullName }

end Policy

end AspectWeaving
