import AspectWeaving.Code
import Std.Data.HashMap

/-!
Linked code. The instructions stand in an arena under the handles of `Code`, and each is linked with the one before and the one behind it;
the order is what a walk along the links finds. An insertion links a new node in by hand, with cases of its own for both ends.
A node is never taken out, and an operation at a handle that the arena does not hold answers `none`.
-/
namespace AspectWeaving

namespace Arena

/-- An instruction with its links. -/
structure Node where
  instruction : Instruction
  previous : Option Handle := none
  next : Option Handle := none

end Arena

/-- A sequence of instructions that are linked both ways. -/
structure Arena where
  nodes : Array Arena.Node := #[]
  head : Option Handle := none
  tail : Option Handle := none

namespace Arena

/-- The number of instructions. -/
def size (a : Arena) : Nat := a.nodes.size

/-- The handle of the instruction that is added next. A handle has 32 bits. -/
def nextHandle (a : Arena) : Handle := ⟨a.size % UInt32.size⟩

/-- The arena holds the handle. -/
def contains (a : Arena) (h : Handle) : Bool := h.index < a.size

/-- The instruction of a handle. -/
def get? (a : Arena) (h : Handle) : Option Instruction := a.nodes[h.index]?.map (·.instruction)

/-- The handle after a handle. -/
def next? (a : Arena) (h : Handle) : Option Handle := a.nodes[h.index]?.bind (·.next)

/-- The handle before a handle. -/
def prev? (a : Arena) (h : Handle) : Option Handle := a.nodes[h.index]?.bind (·.previous)

/-- Links a handle with the one after it. -/
def setNext (a : Arena) (h : Handle) (next : Option Handle) : Arena :=
  { a with nodes := a.nodes.modify h.index ({ · with next }) }

/-- Links a handle with the one before it. -/
def setPrevious (a : Arena) (h : Handle) (previous : Option Handle) : Arena :=
  { a with nodes := a.nodes.modify h.index ({ · with previous }) }

/-- Adds a node that is not linked yet; its handle is `nextHandle`. -/
def alloc (a : Arena) (i : Instruction) : Arena := { a with nodes := a.nodes.push { instruction := i } }

/-- Adds an instruction at the end. -/
def push (a : Arena) (i : Instruction) : Arena × Handle :=
  let added := a.nextHandle
  let b := a.alloc i
  let linked := match b.tail with
    | some tail => (b.setNext tail added).setPrevious added tail
    | none => { b with head := added }
  ({ linked with tail := added }, added)

/-- Adds an instruction before a handle. -/
def insertBefore (a : Arena) (anchor : Handle) (i : Instruction) : Arena × Option Handle :=
  if a.contains anchor then
    let added := a.nextHandle
    let b := a.alloc i
    let previous := b.prev? anchor
    let linked := ((b.setPrevious added previous).setNext added anchor).setPrevious anchor added
    let b := match previous with
      | some previous => linked.setNext previous added
      | none => { linked with head := added }
    (b, added)
  else
    (a, none)

/-- Adds an instruction after a handle. -/
def insertAfter (a : Arena) (anchor : Handle) (i : Instruction) : Arena × Option Handle :=
  if a.contains anchor then
    let added := a.nextHandle
    let b := a.alloc i
    let next := b.next? anchor
    let linked := ((b.setPrevious added anchor).setNext added next).setNext anchor added
    let b := match next with
      | some next => linked.setPrevious next added
      | none => { linked with tail := added }
    (b, added)
  else
    (a, none)

/-- Adds instructions before a handle one by one, until one is refused. -/
def insertEach (a : Arena) (anchor : Handle) : List Instruction → Arena × Option (List Handle)
  | [] => (a, some [])
  | i :: rest =>
    match a.insertBefore anchor i with
    | (b, none) => (b, none)
    | (b, some added) =>
      let (c, others) := b.insertEach anchor rest
      (c, others.map (added :: ·))

/-- Adds instructions before a handle, in their order. -/
def insertAllBefore (a : Arena) (anchor : Handle) (is : List Instruction) : Arena × Option (List Handle) :=
  if a.contains anchor then a.insertEach anchor is else (a, none)

/-- Replaces the instruction of a handle by a function of it, and answers with what it was. -/
def modify (a : Arena) (h : Handle) (f : Instruction → Instruction) : Arena × Option Instruction :=
  ({ a with nodes := a.nodes.modify h.index fun node => { node with instruction := f node.instruction } }, a.get? h)

/-- The arena of a list of instructions. -/
def ofList (is : List Instruction) : Arena := is.foldl (fun a i => (a.push i).1) {}

/-- The handles and instructions that a walk along the links meets from a handle on, in so many steps. It ends at a handle without a link,
    and at one that the arena does not hold. -/
def walk (a : Arena) (link : Node → Option Handle) : Nat → Option Handle → List (Handle × Instruction)
  | 0, _ => []
  | _ + 1, none => []
  | n + 1, some h =>
    match a.nodes[h.index]? with
    | none => []
    | some node => (h, node.instruction) :: a.walk link n (link node)

/-- The handles with their instructions, from the first one forward. -/
def entries (a : Arena) : List (Handle × Instruction) := a.walk (·.next) a.size a.head

/-- The handles in order. -/
def handles (a : Arena) : List Handle := a.entries.map Prod.fst

/-- The place of every handle in the order. -/
def positions (a : Arena) : Std.HashMap Handle Nat := .ofList a.handles.zipIdx

end Arena

end AspectWeaving
