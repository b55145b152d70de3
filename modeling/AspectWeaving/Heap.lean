import AspectWeaving.Value

/-!
The heap: the objects that exist, numbered in the order in which they were made. No object is ever
taken away, so a reference to one stays good. Objects are reached through values (`Heap.object`), and
a value that does not lead to an object of the right kind is a fault.
-/
namespace AspectWeaving

/-- An object. -/
inductive HeapObject where
  | boxed (value : Value)
  | array (elements : Array Value)
  | string (value : String)
  /-- The description of a method. -/
  | method (token : Token)
  /-- The description of a type. -/
  | type (token : Token)
  | instance (type : Token)
  /-- An exception of a library type. -/
  | exception (typeName : String) (message : Option String)
  deriving Inhabited

/-- The kind of an object in words. -/
def HeapObject.kind : HeapObject → String
  | .boxed _ => "boxed value"
  | .array _ => "array"
  | .string _ => "string"
  | .method _ => "method"
  | .type _ => "type"
  | .instance _ => "instance"
  | .exception _ _ => "exception"

/-- The objects that exist; the one at index `i` is numbered `i + 1`. -/
structure Heap where
  objects : Array HeapObject := #[]
  deriving Inhabited

namespace Heap

/-- The number of objects. -/
def size (h : Heap) : Nat := h.objects.size

/-- The reference to the object that is made next. -/
def nextRef (h : Heap) : HeapRef := ⟨h.size + 1⟩

/-- Makes an object, to which `nextRef` refers. -/
def push (h : Heap) (object : HeapObject) : Heap := ⟨h.objects.push object⟩

/-- The reference leads to an object. -/
def contains (h : Heap) (r : HeapRef) : Bool := 0 < r.id && r.id ≤ h.size

/-- The object of a reference, if there is one. -/
def get? (h : Heap) (r : HeapRef) : Option HeapObject :=
  if r.id = 0 then none else h.objects[r.id - 1]?

/-- The object of a reference. -/
def get (h : Heap) (r : HeapRef) : Except ExecutionFault HeapObject :=
  match h.get? r with
  | some object => .ok object
  | none => .error (.invalidHeapReference r.id)

/-- Replaces the object of a reference by a function of it. -/
def modify (h : Heap) (r : HeapRef) (f : HeapObject → HeapObject) : Heap :=
  if r.id = 0 then h else ⟨h.objects.modify (r.id - 1) f⟩

/-- The object a value refers to. -/
def object (h : Heap) : Value → Except ExecutionFault HeapObject
  | .ref reference => h.get reference
  | .null => .error .nullReference
  | other => .error (other.mismatch "object")

/-- The fault of an object of the wrong kind. -/
def mismatch (expected : String) (found : HeapObject) : ExecutionFault :=
  .heapTypeMismatch expected found.kind

/-- The elements of the array a value refers to. -/
def array (h : Heap) (v : Value) : Except ExecutionFault (Array Value) := do
  match ← h.object v with
  | .array elements => return elements
  | other => throw (mismatch "array" other)

/-- The text a value refers to. -/
def string (h : Heap) (v : Value) : Except ExecutionFault String := do
  match ← h.object v with
  | .string value => return value
  | other => throw (mismatch "string" other)

/-- The value in the box a value refers to. -/
def unbox (h : Heap) (v : Value) : Except ExecutionFault Value := do
  match ← h.object v with
  | .boxed value => return value
  | other => throw (mismatch "boxed value" other)

/-- The place an index names among elements. -/
def elementIndex (index : Int32) (length : Nat) : Except ExecutionFault Nat :=
  if 0 ≤ index.toInt ∧ index.toInt < length then .ok index.toInt.toNat
  else .error (.arrayIndexOutOfBounds index.toInt length)

/-- The element an index names. -/
def element (elements : Array Value) (index : Int32) : Except ExecutionFault Value := do
  let place ← elementIndex index elements.size
  return elements.getD place .null

end Heap

end AspectWeaving
