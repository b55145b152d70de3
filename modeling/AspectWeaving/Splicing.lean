import AspectWeaving.WeavePlan

/-!
Splicing: the woven body of a plan. Around the code of a method goes

    prologue     the method and its attribute, found by reflection; the arguments in an array; onEntry
    guarded      the code, in which every return leads to the epilogue
    epilogue     store the result, call onExit, leave for the return
    handler      store the exception, call onException, raise the exception again
    return       load the result, return

where the code from the anchor on and the epilogue are guarded by the handler. The prologue goes
before the anchor; all else goes to the end, so the places it takes are known beforehand.
-/
namespace AspectWeaving

/-- The slots that woven code keeps its values in. -/
structure WovenSlots where
  method : UInt16
  attr : UInt16
  exception : UInt16
  arguments : UInt16
  result : UInt16

/-- The slots from a first one on. -/
def WovenSlots.startingAt (first : Nat) : WovenSlots where
  method := UInt16.ofNat first
  attr := UInt16.ofNat (first + 1)
  exception := UInt16.ofNat (first + 2)
  arguments := UInt16.ofNat (first + 3)
  result := UInt16.ofNat (first + 4)

namespace WeavePlan

open Instruction (loadArgument loadSlot storeSlot pushInt32)

/-- The slots a plan adds. A method without a result has an unnamed slot in the place of it. -/
def slots (p : WeavePlan) : List LocalSlot :=
  [⟨some "__fody$method", .classType p.methodBase⟩,
   ⟨some "__fody$attribute", .classType p.attributeType⟩,
   ⟨some "__fody$exception", .classType p.exception⟩,
   ⟨some "__fody$parameters", .array .object⟩,
   if p.result.isVoid then ⟨none, .object⟩ else ⟨some "__fody$retval", p.result⟩]

/-- Stores an argument in the array of arguments. -/
def storeArgument (s : WovenSlots) (l : ParameterLoad) (position : Nat) : List Instruction :=
  [loadSlot s.arguments, pushInt32 (Int32.ofNat position), loadArgument l.argument] ++
    l.deref.toList ++ (l.boxType.map fun type => ⟨.box, .type type⟩).toList ++ [⟨.stelemRef, .none⟩]

/-- The code before the anchor. -/
def prologue (p : WeavePlan) (s : WovenSlots) (method declaringType : Token) : List Instruction :=
  [⟨.ldtoken, .method method⟩, ⟨.ldtoken, .type declaringType⟩, ⟨.call, .method p.getMethodFromHandle⟩,
   storeSlot s.method, loadSlot s.method, ⟨.ldtoken, .type p.attributeType⟩,
   ⟨.call, .method p.getTypeFromHandle⟩, pushInt32 0, ⟨.callvirt, .method p.getCustomAttributes⟩,
   pushInt32 0, ⟨.ldelemRef, .none⟩, ⟨.castclass, .type p.attributeType⟩, storeSlot s.attr,
   pushInt32 (Int32.ofNat p.parameters.length), ⟨.newarr, .type p.object⟩, storeSlot s.arguments] ++
  (p.parameters.zipIdx.flatMap fun (l, position) => storeArgument s l position) ++
  [loadSlot s.attr, loadSlot s.method, loadSlot s.arguments, ⟨.callvirt, .method p.onEntry⟩]

/-- The code that returns come to, up to the leave for the return. -/
def epilogue (p : WeavePlan) (s : WovenSlots) (goal : Handle) : List Instruction :=
  (if p.storesResult then [storeSlot s.result] else []) ++
  [loadSlot s.attr, loadSlot s.result] ++ (p.resultBox.map fun type => ⟨.box, .type type⟩).toList ++
  [loadSlot s.method, loadSlot s.arguments, ⟨.callvirt, .method p.onExit⟩, ⟨.leave, .target goal⟩]

/-- The code that handles exceptions. -/
def handler (p : WeavePlan) (s : WovenSlots) : List Instruction :=
  [storeSlot s.exception, loadSlot s.attr, loadSlot s.exception, loadSlot s.method,
   loadSlot s.arguments, ⟨.callvirt, .method p.onException⟩, ⟨.rethrow, .none⟩]

/-- The code that returns. -/
def returnBlock (p : WeavePlan) (s : WovenSlots) : List Instruction :=
  if p.result.isVoid then [⟨.ret, .none⟩] else [loadSlot s.result, ⟨.ret, .none⟩]

end WeavePlan

/-- Where the parts of woven code behind the old code start. -/
structure WovenPlaces where
  epilogue : Handle
  handler : Handle
  returnBlock : Handle

/-- The places of the parts behind the old code, of which the epilogue comes first. -/
def WeavePlan.places (p : WeavePlan) (s : WovenSlots) (epilogue : Handle) : WovenPlaces :=
  let handler : Handle := ⟨epilogue.index + (p.epilogue s epilogue).length⟩
  { epilogue, handler, returnBlock := ⟨handler.index + (p.handler s).length⟩ }

/-- An instruction in woven code: a return is a branch to the epilogue, all else stays. -/
def redirectReturn (epilogue : Handle) (i : Instruction) : Instruction :=
  if i.opcode = .ret then ⟨.br, .target epilogue⟩ else i

/-- A handler whose regions that ran up to the end of the old code stop at the epilogue. -/
def Handler.closedAt (h : Handler) (stop : Handle) : Handler :=
  { h with
    guarded := ⟨h.guarded.start, some (h.guarded.stop.getD stop)⟩
    handling := ⟨h.handling.start, some (h.handling.stop.getD stop)⟩ }

/-- The depth of the evaluation stack that woven code needs. -/
def wovenMaxStack : Nat := 4

/-- The woven body of a method. -/
def WeavePlan.splice (p : WeavePlan) (b : Body) (method declaringType : Token) : Except Fault Body := do
  let s := WovenSlots.startingAt b.slots.size
  let enlarged ← p.slots.foldlM Body.addSlot b
  let prologue := p.prologue s method declaringType
  let places := p.places s ⟨b.code.size + prologue.length⟩
  let redirected := b.code.mapInstructions fun _ => redirectReturn places.epilogue
  let some entered := redirected.insertAllBefore? p.anchor prologue
    | throw (.malformed (.noInsertionPoint p.anchor))
  return {
    code := entered.append (p.epilogue s places.returnBlock ++ p.handler s ++ p.returnBlock s)
    slots := enlarged.slots
    initSlots := true
    maxStack := max b.maxStack wovenMaxStack
    handlers := b.handlers.map (·.closedAt places.epilogue) ++
      [{ guarded := ⟨p.anchor, some places.handler⟩
         handling := ⟨places.handler, some places.returnBlock⟩
         catchType := some p.exception }] }

end AspectWeaving
