import ManagedCode.Machine.Execution

/-!
# Machines for hosts

What a host can do with a machine: construct objects, call methods with values of
the host, and read and write properties and fields.  Arguments are brought to the
types of the parameters, and results to the return type.

A machine works on a heap, which several machines of one session may share.
-/

namespace ManagedCode

/-- A machine with the heap that it works on. -/
structure HostState where
  machine : Machine
  heap : Heap
deriving Inhabited

/-- Why a call of the host has no result: a fault, or a run that did not finish. -/
inductive Halt where
  | fault (error : Fault)
  | unfinished
deriving Inhabited

/-- A call of the host. -/
abbrev Host (α : Type) := ExceptT Halt (StateM HostState) α

/-- Whether a host may pass a value for a type. -/
def Value.fits (v : Value) (t : TypeRef) : Bool :=
  match t.form, v with
  | .generic, _ => true
  | .bool, .bool _ => true
  | .bool, .i32 _ => true
  | .char, .i32 _ => true
  | .signed .w64, .i32 _ => true
  | .signed .w64, .i64 _ => true
  | .unsigned .w64, .i32 _ => true
  | .unsigned .w64, .i64 _ => true
  | .signed _, .i32 _ => true
  | .unsigned _, .i32 _ => true
  | .float _, .f32 _ => true
  | .float _, .f64 _ => true
  | .reference, .null => true
  | .reference, .str _ => t == .string || t == .object
  | .reference, .array _ =>
    match t with
    | .array _ | .object => true
    | _ => false
  | .reference, .object _ | .reference, .boxed .. =>
    match t with
    | .defined _ | .object => true
    | _ => false
  | _, _ => false

namespace RealizedMethod

/-- Whether a method can be called with the given arguments.  Parameters that are
left over need defaults. -/
def takes (m : RealizedMethod) (args : List Value) : Bool :=
  args.length ≤ m.params.length
    && (m.params.drop args.length).all (·.default.isSome)
    && (m.params.zip args).all fun (p, v) => v.fits p.type

/-- The value that a parameter gets, from an argument or from its default. -/
def bindParam (m : RealizedMethod) (p : Parameter) (arg : Option Value) : Except Fault Value :=
  match arg <|> p.default.map Value.ofConstant with
  | some v => .ok (v.coerceTo p.type).toStack
  | none => .error (.typeError ("missing argument '" ++ p.name ++ "' for '" ++ m.name ++ "'"))

/-- The values of the parameters for a call with the given arguments. -/
def bindArguments (m : RealizedMethod) (args : List Value) : Except Fault (List Value) :=
  if m.params.length < args.length then
    .error (.typeError ("'" ++ m.name ++ "' takes " ++ toString m.params.length
      ++ " argument(s), got " ++ toString args.length))
  else (m.params.mapIdx fun i p => (i, p)).mapM fun (i, p) => m.bindParam p args[i]?

end RealizedMethod

/-- The reference that a host passes as a receiver. -/
def Value.receiver : Value → Except Fault ObjectRef
  | .object r => .ok r
  | .null => .error .nullReference
  | v => .error (.typeError ("expected an object, found " ++ v.kindName))

namespace Session

/-- The fault of a member that no search has found. -/
def missingOn (s : Session) (id : TypeId) (member : String) : Fault :=
  .missingMember (s.typeName id) member

/-- The first answer along base links; `member` is what was looked for. -/
def findAt (s : Session) (id : TypeId) (member : String) (f : RealizedType → Option α) :
    Except Fault α :=
  match s.findOnLineage id f with
  | .ok (some found) => .ok found
  | .ok none => .error (s.missingOn id member)
  | .error missing => .error (.unknownType missing)

/-- The first field with a name on the base links of a type. -/
def fieldNamed (s : Session) (id : TypeId) (name : String) :
    Except Fault RealizedField :=
  s.findAt id name (·.findField? name)

/-- The method that reads a property. -/
def getterOf (s : Session) (id : TypeId) (name : String) : Except Fault MethodRef :=
  s.findAt id ("get_" ++ name) fun t => (t.property? name).bind (·.getter)

/-- The method that writes a property. -/
def setterOf (s : Session) (id : TypeId) (name : String) : Except Fault MethodRef :=
  s.findAt id ("set_" ++ name) fun t => (t.property? name).bind (·.setter)

/-- The class of the object that a value refers to. -/
def typeOf? (s : Session) (v : Value) : Option RealizedType :=
  v.asObject?.bind fun r => s.realized? r.type

end Session

namespace Host

/-- The call fails. -/
def fault (error : Fault) : Host α :=
  throw (.fault error)

/-- A computation that leaves the host as it is. -/
def lift (r : Except Fault α) : Host α :=
  match r with
  | .ok a => pure a
  | .error error => fault error

/-- Runs a method to its end.  The count of instructions starts anew. -/
def execute (session : Session) (m : RealizedMethod) (args : List Value)
    (typeArgs : List TypeRef) : Host Value := do
  let _ ← lift (m.callableBody typeArgs)
  let host ← get
  let machine := { host.machine with steps := 0 }
  let start : Execution := { machine := machine, heap := host.heap, frames := [] }
  let status := match start.enter m args typeArgs .dropResult with
    | .running e => e.run session machine.limits.fuel
    | finished => finished
  match status with
  | .finished machine heap result =>
    set ({ machine := machine, heap := heap } : HostState)
    lift result
  | .running e =>
    set ({ machine := e.machine, heap := e.heap } : HostState)
    throw .unfinished

/-- Sets up the static side of a type. -/
def initializeType (session : Session) (id : TypeId) : Host Unit := do
  let host ← get
  let (initializer, machine) := host.machine.prepare session id
  set { host with machine := machine }
  match ← lift initializer with
  | none => pure ()
  | some m => discard (execute session m [] [])

/-- Makes an object of a class, without running a constructor. -/
def makeObject (session : Session) (t : RealizedType) : Host Value := do
  if !t.isInstantiable then fault (.abstractInstantiation t.fullName)
  initializeType session t.id
  let host ← get
  let (r, heap) := host.heap.allocObject t.id (t.instanceDefaults.map Value.toStack)
  set { host with heap := heap }
  return .object r

/-- A new object of a class that can be instantiated, after its constructor has run. -/
def construct (session : Session) (t : RealizedType) (constructor : RealizedMethod)
    (args : List Value) : Host Value := do
  let object ← makeObject session t
  let bound ← lift (constructor.bindArguments args)
  let _ ← execute session constructor (object :: bound) []
  return object

/-- Constructs an object with the first constructor that accepts the arguments. -/
def create (session : Session) (id : TypeId) (args : List Value) : Host Value := do
  let t ← lift (session.typeAt id)
  match t.constructors.find? (·.takes args) with
  | some m => construct session t m args
  | none => fault (.missingMember t.fullName (".ctor/" ++ toString args.length))

/-- A new object, by the handle of the constructor. -/
def createWith (session : Session) (constructor : MethodRef) (args : List Value) :
    Host Value := do
  let t ← lift (session.typeAt constructor.owner)
  let m ← lift (session.methodAt constructor)
  construct session t m args

/-- The arguments of a call with the receiver of an instance method in front. -/
def withReceiver (m : RealizedMethod) (receiver : Option Value) (bound : List Value) :
    Except Fault (List Value) :=
  match receiver with
  | none => .error (.typeError ("instance method '" ++ m.name ++ "' needs a receiver"))
  | some v => if v.isNull then .error .nullReference else .ok (v :: bound)

/-- Calls a method with host arguments; a static method first has its type
initialized. -/
def callResolved (session : Session) (m : RealizedMethod) (receiver : Option Value)
    (args : List Value) (typeArgs : List TypeRef) : Host Value := do
  let bound ← lift (m.bindArguments args)
  let bound ←
    if m.isStatic then do
      initializeType session m.handle.owner
      pure bound
    else lift (withReceiver m receiver bound)
  let result ← execute session m bound typeArgs
  return result.coerceTo (m.returnType.substitute m.genericParams typeArgs)

/-- A call of the method that a handle names, whatever the type of the receiver. -/
def call (session : Session) (method : MethodRef) (receiver : Option Value)
    (args : List Value) : Host Value := do
  let m ← lift (session.methodAt method)
  callResolved session m receiver args []

/-- Calls a method on an object, as the object's class implements it. -/
def callVirtual (session : Session) (receiver : Value) (method : MethodRef)
    (args : List Value) : Host Value := do
  let declared ← lift (session.methodAt method)
  let target ← lift (session.dispatch receiver declared)
  callResolved session target (some receiver) args []

/-- Calls the first instance method of a name that accepts the arguments. -/
def callByName (session : Session) (receiver : Value) (name : String) (args : List Value) :
    Host Value := do
  let r ← lift receiver.receiver
  let declared ← lift (session.findAt r.type name fun t =>
    t.methods.find? fun m =>
      m.name == name && !m.isStatic && !m.kind.isConstructor && m.takes args)
  let target ← lift (session.dispatch receiver declared)
  callResolved session target (some receiver) args []

/-- A call of a static method by its name. -/
def callStatic (session : Session) (id : TypeId) (name : String) (args : List Value) :
    Host Value := do
  let t ← lift (session.typeAt id)
  let found := t.methods.find? fun m =>
    m.name == name && m.isStatic && !m.kind.isConstructor && m.takes args
  match found with
  | some m => callResolved session m none args []
  | none => fault (.missingMember t.fullName name)

/-- Calls a method with type arguments, by dispatch if it has a receiver. -/
def callGenericMethod (session : Session) (method : MethodRef) (typeArgs : List TypeRef)
    (receiver : Option Value) (args : List Value) : Host Value := do
  let m ← lift (session.methodAt method)
  let m ← match receiver with
    | some v => if m.isStatic then pure m else lift (session.dispatch v m)
    | none => pure m
  callResolved session m receiver args typeArgs

/-! ## Properties and fields -/

/-- The value of a property, by a call of its getter. -/
def readProperty (session : Session) (receiver : Value) (name : String) : Host Value := do
  let r ← lift receiver.receiver
  let getter ← lift (session.getterOf r.type name)
  callVirtual session receiver getter []

/-- A new value for a property, by a call of its setter. -/
def writeProperty (session : Session) (receiver : Value) (name : String) (v : Value) :
    Host Unit := do
  let r ← lift receiver.receiver
  let setter ← lift (session.setterOf r.type name)
  discard (callVirtual session receiver setter [v])

/-- The value of a static property, by a call of its getter. -/
def readStaticProperty (session : Session) (id : TypeId) (name : String) : Host Value := do
  let getter ← lift (session.getterOf id name)
  call session getter none []

/-- A new value for a static property, by a call of its setter. -/
def writeStaticProperty (session : Session) (id : TypeId) (name : String) (v : Value) :
    Host Unit := do
  let setter ← lift (session.setterOf id name)
  discard (call session setter none [v])

/-- The value of a field of an object. -/
def readField (session : Session) (receiver : Value) (name : String) : Host Value := do
  let r ← lift receiver.receiver
  let field ← lift (session.fieldNamed r.type name)
  match field.slot with
  | .instance slot =>
    match (← get).heap.slot? r slot with
    | some v => return v.coerceTo field.type
    | none => fault (.runtimeError ("field slot " ++ toString slot ++ " missing"))
  | .literal => return field.literalValue
  | .static _ => fault (.typeError ("'" ++ name ++ "' is a static field"))

/-- A new value for a field of an object. -/
def writeField (session : Session) (receiver : Value) (name : String) (v : Value) :
    Host Unit := do
  let r ← lift receiver.receiver
  let field ← lift (session.fieldNamed r.type name)
  match field.slot with
  | .instance slot =>
    let host ← get
    match host.heap.setSlot r slot (v.coerceTo field.type).toStack with
    | .ok heap => set { host with heap := heap }
    | .error reason => fault (.runtimeError reason)
  | _ => fault (.typeError ("'" ++ name ++ "' is not an instance field"))

/-- The value of a static field, once its type is set up. -/
def readStaticField (session : Session) (id : TypeId) (name : String) : Host Value := do
  let field ← lift (session.fieldNamed id name)
  match field.slot with
  | .literal => return field.literalValue
  | .static slot =>
    initializeType session field.handle.owner
    let v ← lift ((← get).machine.static field.handle.owner slot)
    return v.coerceTo field.type
  | .instance _ => fault (.typeError ("'" ++ name ++ "' is an instance field"))

/-- A new value for a static field, once its type is set up. -/
def writeStaticField (session : Session) (id : TypeId) (name : String) (v : Value) :
    Host Unit := do
  let field ← lift (session.fieldNamed id name)
  match field.slot with
  | .static slot =>
    initializeType session field.handle.owner
    let host ← get
    let stored := (v.coerceTo field.type).toStack
    let machine ← lift (host.machine.setStatic field.handle.owner slot stored)
    set { host with machine := machine }
  | _ => fault (.typeError ("'" ++ name ++ "' is not a writable static field"))

end Host

end ManagedCode
