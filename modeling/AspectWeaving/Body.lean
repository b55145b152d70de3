import AspectWeaving.Code
import AspectWeaving.Fault
import AspectWeaving.TypeSig

/-!
Method bodies: code with local slots and exception handlers. A handler guards one region of the code
and handles exceptions in another; regions are bounded by handles, so they keep their instructions
while code goes in around them.
-/
namespace AspectWeaving

/-- A local variable. -/
structure LocalSlot where
  name : Option String
  sig : TypeSig

/-- A stretch of code from a first instruction up to and without a last one, or up to the end. -/
structure Region where
  start : Handle
  stop : Option Handle
  deriving DecidableEq

/-- The names of those flags that are set. -/
def namesOfSet (flags : List (Bool × String)) : List String := (flags.filter (·.1)).map (·.2)

/-- The flags of an exception handler, all 16 bits. -/
structure HandlerFlags where
  bits : UInt16
  deriving DecidableEq

namespace HandlerFlags

/-- A clause that catches exceptions of a type. -/
def catching : HandlerFlags := ⟨0⟩
/-- A clause with a filter. -/
def filter : HandlerFlags := ⟨1⟩
/-- A clause that runs in any case. -/
def always : HandlerFlags := ⟨2⟩
/-- A clause that runs after any exception. -/
def fault : HandlerFlags := ⟨4⟩

/-- The known flags among the bits. -/
def ofBits (bits : UInt16) : HandlerFlags := ⟨bits &&& 7⟩

/-- All bits of the other flags are set. -/
def includes (f other : HandlerFlags) : Bool := f.bits &&& other.bits == other.bits

/-- The names of the flags that are set. A catch clause is the absence of flags, so its name is always
    among them. -/
def names (f : HandlerFlags) : List String :=
  namesOfSet [(f.includes catching, "EXCEPTION"), (f.includes filter, "FILTER"),
    (f.includes always, "FINALLY"), (f.includes fault, "FAULT")]

/-- A filter, finally or fault clause. -/
def isOtherClause (f : HandlerFlags) : Bool := f.bits &&& 7 != 0

end HandlerFlags

/-- An exception handler. Without a type it catches everything. -/
structure Handler where
  flags : HandlerFlags := .catching
  guarded : Region
  handling : Region
  catchType : Option Token

namespace Handler

/-- A catch clause without further flags. -/
def isCatch (h : Handler) : Bool := h.flags == .catching

/-- The handles a handler names: of the guarded region, then of the handling one. -/
def boundaries (h : Handler) : List Handle :=
  h.guarded.start :: h.guarded.stop.toList ++ h.handling.start :: h.handling.stop.toList

end Handler

/-- The depth of the evaluation stack of a body that does not say. -/
def defaultMaxStack : Nat := 8

/-- The body of a method. -/
structure Body where
  code : Code
  slots : Array LocalSlot := #[]
  /-- Slots start with the default value of their type, and are not to be read before a store otherwise. -/
  initSlots : Bool := false
  maxStack : Nat := defaultMaxStack
  /-- Inner handlers stand before outer ones. -/
  handlers : List Handler := []
  deriving Inhabited

namespace Body

/-- The number of slots a body can have. -/
def maxSlots : Nat := 65535

/-- Adds a slot; its index is the number of slots before. -/
def addSlot (b : Body) (slot : LocalSlot) : Except Fault Body :=
  if b.slots.size < maxSlots then .ok { b with slots := b.slots.push slot }
  else .error (.malformed .tooManySlots)

end Body

end AspectWeaving
