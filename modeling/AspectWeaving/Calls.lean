import AspectWeaving.Frame

/-!
Calls: what a call of a token comes to. A virtual call on an object of a type of the module goes to
the nearest method of the name and number of parameters (`dispatch`). Then a host method stands in if
there is one; a method of the module needs a body, which is entered; and of the library methods the
machine knows those that woven code and exceptions need (`callLibrary`). A call that runs a body is
not over, so what is still to be done with the outcome is kept as `Pending` (`complete`).
-/
namespace AspectWeaving

open Running (compute fail allocate modifyObject note callHost)

/-- What a call comes to: it is over, or a body is to run first. -/
inductive Progress where
  | done (outcome : Outcome)
  | enter (frame : Frame)

/-- A call that is over and has a result. -/
def Progress.result (value : Value) : Progress := .done (.returned value)

/-- What a call comes to when more is to be done with its outcome. -/
def Progress.andThen (next : Pending) (finish : Value → Running Progress) : Progress → Running Progress
  | .done (.returned value) => finish value
  | .done (.threw exception) => return .done (.threw exception)
  | .enter frame => return .enter { frame with pending := frame.pending ++ [next] }

/-! ### What a token calls -/

/-- What a call needs to know of a method. -/
structure CallShape where
  name : String
  parameters : Nat
  hasThis : Bool

/-- The number of arguments a call takes off the stack. -/
def CallShape.argumentCount (s : CallShape) : Nat := s.parameters + s.hasThis.toNat

/-- The shape of the method of a token, defined or imported. -/
def Module.callShape (m : Module) (token : Token) : Except ExecutionFault CallShape :=
  let shape? : Option CallShape :=
    if token.table = Token.methodDef then
      (m.method? token).map fun (_, d) => ⟨d.name, d.parameters.length, d.hasThis⟩
    else if token.table = Token.memberRef then
      (m.imports.getMemberRef? token).map fun row => ⟨row.name, row.parameters.length, row.hasThis⟩
    else none
  match shape? with
  | some shape => .ok shape
  | none => .error (.methodNotFound token)

/-- A method that a virtual call of a name and number of parameters may go to. -/
def MethodDef.answers (d : MethodDef) (name : String) (parameters : Nat) : Bool :=
  d.hasThis && d.name == name && d.parameters.length == parameters

/-- The method that a virtual call goes to. -/
def dispatch (m : Module) (h : Heap) (target : Token) (this? : Option Value) :
    Except ExecutionFault Token := do
  let some (.ref reference) := this? | return target
  let .instance type ← h.get reference | return target
  let shape ← m.callShape target
  let methods := (m.definitionChain type).flatMap (·.methods)
  return ((methods.find? (·.answers shape.name shape.parameters)).map (·.token)).getD target

/-! ### Methods of the module -/

/-- Enters the body of a method. The number of arguments has to fit, and there may be no more bodies
    under execution than the limit says; `depth` is how many there are. -/
def enterBody (p : Program) (depth : Nat) (d : MethodDef) (body : Body) (arguments : List Value) :
    Running Progress := do
  unless arguments.length = d.signature.argumentCount do
    fail (.argumentCountMismatch d.signature.argumentCount arguments.length)
  unless depth < p.limits.callDepth do
    fail (.callDepthExceeded p.limits.callDepth)
  note (.entered d.token)
  match body.code.first? with
  | none => fail (.fellThroughEnd d.token)
  | some first => return .enter (.start (.ofMethod d body arguments) [] first)

/-- Calls a method of the module, or the host method that stands in for it. -/
def callDefinition (p : Program) (depth : Nat) (token : Token) (arguments : List Value) :
    Running Progress :=
  match p.hostMethod? token with
  | some host => return .done (← callHost host arguments)
  | none =>
    match p.module.method? token with
    | none => fail (.methodNotFound token)
    | some (_, d) =>
      match d.body with
      | none => fail (.methodNotFound token)
      | some body => enterBody p depth d body arguments

/-- Makes an object of the type of a constructor and initializes it. -/
def constructDefinition (p : Program) (depth : Nat) (token : Token) (arguments : List Value) :
    Running Progress :=
  match p.module.method? token with
  | none => fail (.methodNotFound token)
  | some (type, _) => do
    let object ← allocate (.instance type.token)
    let call ← callDefinition p depth token (.ref object :: arguments)
    call.andThen (.construct object) fun _ => return .result (.ref object)

/-! ### Attributes as objects -/

/-- The value of an argument of an attribute; a text becomes an object. -/
def AttributeArgument.toValue : AttributeArgument → Running Value
  | .boolean value => return .int32 (if value then 1 else 0)
  | .int32 value => return .int32 value
  | .int64 value => return .int64 value
  | .real value => return .real value
  | .string value => return .ref (← allocate (.string value))

/-- Makes an object of an attribute with the constructor of as many parameters. No constructor is
    needed where there are no arguments. -/
def instantiate (p : Program) (depth : Nat) (a : Attribute) : Running Progress := do
  let arguments ← a.arguments.mapM (·.toValue)
  let constructors := ((p.module.typeDef? a.type).map (·.methods)).getD []
  match constructors.find? fun d => d.isConstructor && d.parameters.length == arguments.length with
  | some d => constructDefinition p depth d.token arguments
  | none =>
    if arguments.isEmpty then return .result (.ref (← allocate (.instance a.type)))
    else
      let typeName ← compute (p.module.naming a.type)
      throw (.memberNotFound (typeName.getD "") s!"{constructorName}/{arguments.length}")

/-- Makes objects of attributes and puts them into an array behind those that are there. -/
def collect (p : Program) (depth : Nat) (objects : Array Value) : List Attribute → Running Progress
  | [] => return .result (.ref (← allocate (.array objects)))
  | a :: rest => do
    let call ← instantiate p depth a
    call.andThen (.collect objects rest) fun object => collect p depth (objects.push object) rest

/-- The type of an attribute is a type or derives from it within the module. -/
def derivesWithin (m : Module) (attr type : Token) : Bool := (m.definitionChain attr).any (·.token == type)

/-- The type of an attribute is a type or derives from it. -/
def attributeIs (m : Module) (attr type : Token) : Bool :=
  derivesWithin m attr type ||
    match m.outerBase? attr, m.tokenName? type with
    | some base, some name => (m.library.baseChain base).any (·.name.fullName == name)
    | _, _ => false

/-! ### Library methods -/

/-- The fault of an argument that is to be a handle. -/
def handleMismatch (expected : String) (found : Option Value) : ExecutionFault :=
  .stackTypeMismatch expected ((found.map (·.typeName)).getD "nothing")

/-- The object a method is called on. -/
def thisArgument (arguments : List Value) : Except ExecutionFault Value :=
  match arguments with
  | this :: _ => .ok this
  | [] => .error (.argumentIndexOutOfBounds 0 0)

/-- The object that a method is called on, on the heap. -/
def thisObject (h : Heap) (arguments : List Value) : Except ExecutionFault HeapObject := do
  h.object (← thisArgument arguments)

/-- The name of the method or type that an object describes. -/
def memberName (m : Module) : HeapObject → Except ExecutionFault String
  | .method token => (m.callShape token).map (·.name)
  | .type token => (m.naming token).map (·.getD "")
  | other => .error (Heap.mismatch "member" other)

/-- The message of an exception. -/
def exceptionMessage : HeapObject → Except ExecutionFault (Option String)
  | .exception _ message => .ok message
  | other => .error (Heap.mismatch "exception" other)

/-- The method whose attributes are asked for. -/
def describedMethod : HeapObject → Except ExecutionFault Token
  | .method token => .ok token
  | other => .error (Heap.mismatch "method" other)

/-- The type of the attributes that are asked for; without one it is all of them. -/
def describedType (h : Heap) : Option Value → Except ExecutionFault (Option Token)
  | none | some .null => .ok none
  | some value => do
    match ← h.object value with
    | .type token => return some token
    | other => throw (Heap.mismatch "type" other)

/-- The attributes of a method, those of a type if there is one. -/
def attributesOf (m : Module) (method : Token) (type : Option Token) : List Attribute :=
  match m.method? method with
  | none => []
  | some (_, d) => d.attributes.filter fun a => type.all (attributeIs m a.type)

/-- The attributes of a method that are asked for. A type is named if one of them does not derive from it within
    the module. -/
def selectAttributes (m : Module) (method : Token) (type : Option Token) :
    Except ExecutionFault (List Attribute) := do
  if let some type := type then
    unless (attributesOf m method none).all (derivesWithin m ·.type type) do
      let _ ← m.naming type
  return attributesOf m method type

/-- The text of the message that an exception is made with. -/
def messageArgument (h : Heap) : Option Value → Except ExecutionFault (Option String)
  | none | some .null => .ok none
  | some value => some <$> h.string value

/-- Puts a message into an exception; other objects stay as they are. -/
def HeapObject.withMessage (message : Option String) : HeapObject → HeapObject
  | .exception typeName _ => .exception typeName message
  | other => other

/-- Initializes an object of a library type. -/
def initializeLibrary (arguments : List Value) : Running Progress := do
  let this ← compute (thisArgument arguments)
  let message ← compute (messageArgument (← Running.heap) arguments[1]?)
  let some reference := this.ref? | fail .nullReference
  let _ ← compute ((← Running.heap).get reference)
  modifyObject reference (·.withMessage message)
  return .result .void

/-- Calls a method of the library. -/
def callLibrary (p : Program) (depth : Nat) (token : Token) (arguments : List Value) :
    Running Progress := do
  let some row := p.module.imports.getMemberRef? token | fail (.methodNotFound token)
  match row.name with
  | "GetMethodFromHandle" =>
    match arguments.head? with
    | some (.methodHandle method) => return .result (.ref (← allocate (.method method)))
    | other => fail (handleMismatch "RuntimeMethodHandle" other)
  | "GetTypeFromHandle" =>
    match arguments.head? with
    | some (.typeHandle type) => return .result (.ref (← allocate (.type type)))
    | other => fail (handleMismatch "RuntimeTypeHandle" other)
  | "GetCustomAttributes" =>
    let method ← compute (describedMethod (← compute (thisObject (← Running.heap) arguments)))
    let type ← compute (describedType (← Running.heap) arguments[1]?)
    collect p depth #[] (← compute (selectAttributes p.module method type))
  | "get_Name" =>
    let name ← compute (memberName p.module (← compute (thisObject (← Running.heap) arguments)))
    return .result (.ref (← allocate (.string name)))
  | "get_Message" =>
    match ← compute (exceptionMessage (← compute (thisObject (← Running.heap) arguments))) with
    | some message => return .result (.ref (← allocate (.string message)))
    | none => return .result .null
  | ".ctor" => initializeLibrary arguments
  | _ => fail (.methodNotFound token)

/-! ### Calls -/

/-- Calls a token. A host method for the token that a virtual call goes to comes before one for the
    token that is called. -/
def call (p : Program) (depth : Nat) (target : Token) (arguments : List Value) (dynamic : Bool) :
    Running Progress := do
  let resolved ←
    if dynamic then compute (dispatch p.module (← Running.heap) target arguments.head?) else pure target
  match p.hostMethod? resolved <|> p.hostMethod? target with
  | some host => return .done (← callHost host arguments)
  | none =>
    if resolved.table = Token.methodDef then callDefinition p depth resolved arguments
    else if resolved.table = Token.memberRef then callLibrary p depth resolved arguments
    else fail (.methodNotFound resolved)

/-- Makes an exception of a library type and initializes it. -/
def constructException (p : Program) (depth : Nat) (token : Token) (arguments : List Value) :
    Running Progress :=
  match p.module.imports.getMemberRef? token with
  | none => fail (.methodNotFound token)
  | some row => do
    let some typeName ← compute (p.module.naming row.parent) | fail (.methodNotFound token)
    unless p.module.library.isException typeName do
      throw (.notSupported (.construction typeName))
    let object ← allocate (.exception typeName none)
    let call ← call p depth token (.ref object :: arguments) false
    call.andThen (.construct object) fun _ => return .result (.ref object)

/-- Makes an object with a constructor. -/
def construct (p : Program) (depth : Nat) (token : Token) (arguments : List Value) : Running Progress :=
  if token.table = Token.methodDef then constructDefinition p depth token arguments
  else if token.table = Token.memberRef then constructException p depth token arguments
  else fail (.methodNotFound token)

/-- What is to become of the outcome of a body. An exception stays what it is. -/
def complete (p : Program) (depth : Nat) : List Pending → Outcome → Running Progress
  | [], outcome => return .done outcome
  | _ :: _, .threw exception => return .done (.threw exception)
  | .construct object :: rest, .returned _ => complete p depth rest (.returned (.ref object))
  | .collect objects attributes :: rest, .returned object => do
    match ← collect p depth (objects.push object) attributes with
    | .done outcome => complete p depth rest outcome
    | .enter frame => return .enter { frame with pending := frame.pending ++ rest }

end AspectWeaving
