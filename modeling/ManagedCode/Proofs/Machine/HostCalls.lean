import ManagedCode.Machine.Host
import ManagedCode.Proofs.Assembly.Building

/-!
# Calls of the host

`HostCall` lists what a host can ask of a machine.  A call runs nothing, or it constructs an
object, calls a method, or uses the static side of a type (`HostPlan`), and it starts the
interpreter at most twice: for the initializer of a type, and for what has been called.
`HostCall.launches` are the runs that a call starts, each with the state that it finds.

`Host.Runs` ties an operation of the host to its runs: between them the operation sets up types,
makes objects and writes slots only, and it fails as its last run fails.  This holds of every
call (`HostCall.runs`).
-/

namespace ManagedCode

/-- What a host can ask of a machine. -/
inductive HostCall where
  | create (id : TypeId) (args : List Value)
  | createWith (constructor : MethodRef) (args : List Value)
  | call (method : MethodRef) (receiver : Option Value) (args : List Value)
  | callVirtual (receiver : Value) (method : MethodRef) (args : List Value)
  | callByName (receiver : Value) (name : String) (args : List Value)
  | callStatic (id : TypeId) (name : String) (args : List Value)
  | callGenericMethod (method : MethodRef) (typeArgs : List TypeRef) (receiver : Option Value)
      (args : List Value)
  | readProperty (receiver : Value) (name : String)
  | writeProperty (receiver : Value) (name : String) (v : Value)
  | readStaticProperty (id : TypeId) (name : String)
  | writeStaticProperty (id : TypeId) (name : String) (v : Value)
  | readField (receiver : Value) (name : String)
  | writeField (receiver : Value) (name : String) (v : Value)
  | readStaticField (id : TypeId) (name : String)
  | writeStaticField (id : TypeId) (name : String) (v : Value)

/-- Does what the host asks for.  A write answers with null. -/
def HostCall.perform (session : Session) : HostCall → Host Value
  | create id args => Host.create session id args
  | createWith constructor args => Host.createWith session constructor args
  | call method receiver args => Host.call session method receiver args
  | callVirtual receiver method args => Host.callVirtual session receiver method args
  | callByName receiver name args => Host.callByName session receiver name args
  | callStatic id name args => Host.callStatic session id name args
  | callGenericMethod method typeArgs receiver args =>
    Host.callGenericMethod session method typeArgs receiver args
  | readProperty receiver name => Host.readProperty session receiver name
  | writeProperty receiver name v => do
    Host.writeProperty session receiver name v
    return .null
  | readStaticProperty id name => Host.readStaticProperty session id name
  | writeStaticProperty id name v => do
    Host.writeStaticProperty session id name v
    return .null
  | readField receiver name => Host.readField session receiver name
  | writeField receiver name v => do
    Host.writeField session receiver name v
    return .null
  | readStaticField id name => Host.readStaticField session id name
  | writeStaticField id name v => do
    Host.writeStaticField session id name v
    return .null

/-! ## The runs of a call -/

/-- A run of the interpreter that the host starts, with the state that it finds. -/
structure Launch where
  host : HostState
  method : RealizedMethod
  args : List Value
  typeArgs : List TypeRef

/-- The machine and the heap of a program, or what it has left of them. -/
def Status.host : Status → HostState
  | .running e => ⟨e.machine, e.heap⟩
  | .finished machine heap _ => ⟨machine, heap⟩

namespace Execution

/-- Entering a method changes frames only. -/
theorem enter_host
    (e : Execution) (m : RealizedMethod) (args : List Value) (typeArgs : List TypeRef)
    (resume : Resume) :
  (e.enter m args typeArgs resume).host = ⟨e.machine, e.heap⟩
  := by
  rw [enter]
  split
  · rfl
  · split <;> rfl

theorem complete_host (e : Execution) (f : Frame) (callers : List Frame) (v : Value) :
  (e.complete f callers v).host = ⟨e.machine, e.heap⟩
  := by
  rw [complete]
  split <;> rfl

theorem raise_host (session : Session) (e : Execution) (f : Frame) (callers : List Frame)
    (exception : Value) :
  (e.raise session f callers exception).host = ⟨e.machine, e.heap⟩
  := by
  rw [raise]
  split <;> rfl

end Execution

/-- What a program answers the host. -/
def Status.answer : Status → Except Halt Value
  | .running _ => .error .unfinished
  | .finished _ _ (.ok v) => .ok v
  | .finished _ _ (.error error) => .error (.fault error)

/-- Runs a program on. -/
def Status.run (session : Session) (fuel : Nat) : Status → Status
  | .running e => e.run session fuel
  | .finished machine heap result => .finished machine heap result

namespace Launch

/-- The machine before the method is entered.  The count of instructions starts anew. -/
def start (l : Launch) : Execution :=
  { machine := { l.host.machine with steps := 0 }, heap := l.host.heap, frames := [] }

/-- The program when the method has been entered. -/
def entered (l : Launch) : Status :=
  l.start.enter l.method l.args l.typeArgs .dropResult

/-- What the run ends in. -/
def status (session : Session) (l : Launch) : Status :=
  match l.entered with
  | .running e => e.run session l.host.machine.limits.fuel
  | finished => finished

theorem status_eq_run (session : Session) (l : Launch) :
  l.status session = l.entered.run session l.host.machine.limits.fuel
  := by
  rw [status]
  cases l.entered <;> rfl

end Launch

/-- The run of a method, which needs a body for the type arguments. -/
def launching (m : RealizedMethod) (args : List Value) (typeArgs : List TypeRef)
    (host : HostState) : List Launch :=
  match m.callableBody typeArgs with
  | .ok _ => [⟨host, m, args, typeArgs⟩]
  | .error _ => []

namespace Host

/-- What comes after an answer. -/
def answered {α : Type} (r : Except Fault α) (next : α → List Launch) : List Launch :=
  match r with
  | .ok a => next a
  | .error _ => []

/-- What comes after an operation of the host. -/
def followed {α : Type} (x : Host α) (next : α → HostState → List Launch) (host : HostState) :
    List Launch :=
  match x.exec host with
  | (.ok a, host) => next a host
  | (.error _, _) => []

/-- The run of the initializer of a type, if it has not run and has to. -/
def initializing (session : Session) (id : TypeId) (host : HostState) : List Launch :=
  match host.machine.prepare session id with
  | (.ok (some m), machine) => launching m [] [] { host with machine := machine }
  | _ => []

end Host

/-- What a call of the host comes down to. -/
inductive HostPlan where
  | answer
  | access (owner : TypeId)
  | construct (t : RealizedType) (constructor : RealizedMethod) (args : List Value)
  | invoke (m : RealizedMethod) (receiver : Option Value) (args : List Value)
      (typeArgs : List TypeRef)

open Host in
/-- The runs that the host starts. -/
def HostPlan.launches (session : Session) : HostPlan → HostState → List Launch
  | answer, _ => []
  | access owner, host => initializing session owner host
  | construct t constructor args, host =>
    if t.isInstantiable then
      initializing session t.id host ++ followed (makeObject session t) (fun object host =>
        answered (constructor.bindArguments args) fun bound =>
          launching constructor (object :: bound) [] host) host
    else []
  | invoke m receiver args typeArgs, host =>
    answered (m.bindArguments args) fun bound =>
      if m.isStatic then
        initializing session m.handle.owner host
          ++ followed (initializeType session m.handle.owner) (fun _ host =>
            launching m bound typeArgs host) host
      else
        answered (withReceiver m receiver bound) fun bound => launching m bound typeArgs host

namespace HostCall

/-- What a call comes down to, or why it comes to nothing. -/
def plan (session : Session) : HostCall → Except Fault HostPlan
  | create id args => do
    let t ← session.typeAt id
    match t.constructors.find? (·.takes args) with
    | some m => return .construct t m args
    | none => .error (.missingMember t.fullName (".ctor/" ++ toString args.length))
  | createWith constructor args => do
    let t ← session.typeAt constructor.owner
    let m ← session.methodAt constructor
    return .construct t m args
  | call method receiver args => do
    let m ← session.methodAt method
    return .invoke m receiver args []
  | callVirtual receiver method args => dispatched receiver method args
  | callByName receiver name args => do
    let r ← receiver.receiver
    let declared ← session.findAt r.type name fun t =>
      t.methods.find? fun m =>
        m.name == name && !m.isStatic && !m.kind.isConstructor && m.takes args
    let target ← session.dispatch receiver declared
    return .invoke target (some receiver) args []
  | callStatic id name args => do
    let t ← session.typeAt id
    let found := t.methods.find? fun m =>
      m.name == name && m.isStatic && !m.kind.isConstructor && m.takes args
    match found with
    | some m => return .invoke m none args []
    | none => .error (.missingMember t.fullName name)
  | callGenericMethod method typeArgs receiver args => do
    let m ← session.methodAt method
    let m ← match receiver with
      | some v => if m.isStatic then pure m else session.dispatch v m
      | none => pure m
    return .invoke m receiver args typeArgs
  | readProperty receiver name => do
    let r ← receiver.receiver
    let getter ← session.getterOf r.type name
    dispatched receiver getter []
  | writeProperty receiver name v => do
    let r ← receiver.receiver
    let setter ← session.setterOf r.type name
    dispatched receiver setter [v]
  | readStaticProperty id name => do
    let getter ← session.getterOf id name
    let m ← session.methodAt getter
    return .invoke m none [] []
  | writeStaticProperty id name v => do
    let setter ← session.setterOf id name
    let m ← session.methodAt setter
    return .invoke m none [v] []
  | readField _ _ => return .answer
  | writeField _ _ _ => return .answer
  | readStaticField id name => accessed id name
  | writeStaticField id name _ => accessed id name
where
  /-- A call that the class of the receiver implements. -/
  dispatched (receiver : Value) (method : MethodRef) (args : List Value) :
      Except Fault HostPlan := do
    let declared ← session.methodAt method
    let target ← session.dispatch receiver declared
    return .invoke target (some receiver) args []
  /-- The use of a static field, which needs its type only if it has storage. -/
  accessed (id : TypeId) (name : String) : Except Fault HostPlan := do
    let field ← session.fieldNamed id name
    match field.slot with
    | .static _ => return .access field.handle.owner
    | _ => return .answer

/-- The runs that a call starts. -/
def launches (session : Session) (call : HostCall) (host : HostState) : List Launch :=
  Host.answered (call.plan session) fun plan => plan.launches session host

end HostCall

/-! ## What the host does between runs -/

/-- What an operation of the host changes without a run. -/
inductive HostState.Changes (session : Session) : HostState → HostState → Prop
  | prepare (host : HostState) (id : TypeId) :
      Changes session host { host with machine := (host.machine.prepare session id).2 }
  | setStatic (host : HostState) {machine : Machine} {id : TypeId} {slot : Nat} {v : Value}
      (hset : host.machine.setStatic id slot v = .ok machine) :
      Changes session host { host with machine := machine }
  | allocObject (host : HostState) (id : TypeId) (slots : List Value) :
      Changes session host { host with heap := (host.heap.allocObject id slots).2 }
  | setSlot (host : HostState) {heap : Heap} {r : ObjectRef} {slot : Nat} {v : Value}
      (hset : host.heap.setSlot r slot v = .ok heap) :
      Changes session host { host with heap := heap }

/-- The way from one state of the host to another one, with the runs on it. -/
inductive HostState.Course (session : Session) : HostState → List Launch → HostState → Prop
  | refl (host : HostState) : Course session host [] host
  | change {host host' host'' : HostState} {launches : List Launch}
      (hchange : host.Changes session host') (hrest : Course session host' launches host'') :
      Course session host launches host''
  | run (l : Launch) {host : HostState} {launches : List Launch}
      (hrest : Course session (l.status session).host launches host) :
      Course session l.host (l :: launches) host

theorem HostState.Course.trans
    {session : Session} {host host' host'' : HostState} {launches later : List Launch}
    (hcourse : Course session host launches host') (hlater : Course session host' later host'') :
  Course session host (launches ++ later) host''
  := by
  induction hcourse with
  | refl => exact hlater
  | change hchange _ ih => exact .change hchange (ih hlater)
  | run l _ ih => exact .run l (ih hlater)

namespace Host

/-- What is left of a run when it has ended. -/
theorem exec_settle (status : Status) (host : HostState) :
  ExceptT.exec (match status with
    | .finished machine heap result => do
      set ({ machine := machine, heap := heap } : HostState)
      lift result
    | .running e => do
      set ({ machine := e.machine, heap := e.heap } : HostState)
      throw .unfinished : Host Value) host = (status.answer, status.host)
  := by
  cases status with
  | running e => rfl
  | finished machine heap result => cases result <;> rfl

theorem exec_execute (session : Session) (m : RealizedMethod) (args : List Value)
    (typeArgs : List TypeRef) (host : HostState) :
  (execute session m args typeArgs).exec host
    = match m.callableBody typeArgs with
      | .error error => (.error (.fault error), host)
      | .ok _ =>
        ((Launch.status session ⟨host, m, args, typeArgs⟩).answer,
          (Launch.status session ⟨host, m, args, typeArgs⟩).host)
  := by
  rw [execute]
  cases hbody : m.callableBody typeArgs with
  | error error => rfl
  | ok body => exact exec_settle _ host

variable {session : Session} {α β : Type} {host host' : HostState} {launches later : List Launch}

/-- An operation goes through some runs, and if the last of them fails, it fails in the same
way. -/
structure Runs (session : Session) (x : Host α) (host : HostState) (launches : List Launch) :
    Prop where
  course : host.Course session launches (x.exec host).2
  fails : ∀ l ∈ launches.getLast?, ∀ halt, (l.status session).answer = .error halt →
    (x.exec host).1 = .error halt

namespace Runs

theorem quiet {x : Host α} (hx : host.Course session [] (x.exec host).2) :
  Runs session x host []
  := by
  refine ⟨hx, ?_⟩
  rintro l ⟨⟩

theorem pure (a : α) (host : HostState) : Runs session (Pure.pure a : Host α) host [] :=
  quiet (.refl host)

theorem fault (error : Fault) (host : HostState) : Runs session (Host.fault error : Host α) host []
  := quiet (.refl host)

/-- Two operations one after the other launch what the first launches, and then what the second
does.  The last launch may be one of the first operation, which has not failed. -/
theorem bind_ok {x : Host α} {k : α → Host β} {a : α}
    (hx : Runs session x host launches) (ha : x.exec host = (.ok a, host'))
    (hk : Runs session (k a) host' later) :
  Runs session (x >>= k) host (launches ++ later)
  := by
  have hcourse := hx.course
  rw [ha] at hcourse
  have hexec : (x >>= k).exec host = (k a).exec host' := by
    rw [exec_bind, ha]
  constructor
  · rw [hexec]
    exact hcourse.trans hk.course
  · intro l hl halt hhalt
    rw [hexec]
    rw [List.getLast?_append] at hl
    cases hlater : later.getLast? with
    | some l' =>
        rw [hlater] at hl
        cases hl
        exact hk.fails l hlater halt hhalt
    | none =>
        rw [hlater] at hl
        have hfailed := hx.fails l hl halt hhalt
        rw [ha] at hfailed
        cases hfailed

theorem bind_error {x : Host α} {k : α → Host β} {halt : Halt}
    (hx : Runs session x host launches) (herror : x.exec host = (.error halt, host')) :
  Runs session (x >>= k) host launches
  := by
  have hexec : (x >>= k).exec host = (.error halt, host') := by
    rw [exec_bind, herror]
  constructor
  · rw [hexec, ← congrArg Prod.snd herror]
    exact hx.course
  · intro l hl halt' hhalt
    have hfailed := hx.fails l hl halt' hhalt
    rw [herror] at hfailed
    cases hfailed
    rw [hexec]

/-- One operation after another. -/
theorem bind {x : Host α} {k : α → Host β} {next : α → HostState → List Launch}
    (hx : Runs session x host launches)
    (hk : ∀ a host', x.exec host = (.ok a, host') → Runs session (k a) host' (next a host')) :
  Runs session (x >>= k) host (launches ++ followed x next host)
  := by
  rw [followed]
  cases h : x.exec host with
  | mk answer host' =>
      cases answer with
      | ok a => exact hx.bind_ok h (hk a host' h)
      | error halt =>
          rw [List.append_nil]
          exact hx.bind_error h

/-- After an operation, no run is needed any more. -/
theorem then_quiet {x : Host α} {k : α → Host β}
    (hx : Runs session x host launches) (hk : ∀ a host', Runs session (k a) host' []) :
  Runs session (x >>= k) host launches
  := by
  cases h : x.exec host with
  | mk answer host' =>
      cases answer with
      | ok a =>
          rw [← List.append_nil launches]
          exact hx.bind_ok h (hk a host')
      | error halt => exact hx.bind_error h

/-- An operation that goes on with an answer. -/
theorem lift {r : Except Fault α} {k : α → Host β} {next : α → List Launch}
    (hk : ∀ a, r = .ok a → Runs session (k a) host (next a)) :
  Runs session (Host.lift r >>= k) host (answered r next)
  := by
  cases r with
  | ok a => exact (hk a rfl)
  | error error => exact quiet (.refl host)

theorem lift_quiet {r : Except Fault α} {k : α → Host β}
    (hk : ∀ a, r = .ok a → Runs session (k a) host []) :
  Runs session (Host.lift r >>= k) host []
  := by
  cases r with
  | ok a => exact hk a rfl
  | error error => exact quiet (.refl host)

/-- An operation that goes on with an answer, as its plan does. -/
theorem planned {r : Except Fault α} {k : α → Host β} {p : α → Except Fault HostPlan}
    (hk : ∀ a, Runs session (k a) host (answered (p a) fun plan => plan.launches session host)) :
  Runs session (Host.lift r >>= k) host
    (answered (r >>= p) fun plan => plan.launches session host)
  := by
  cases r with
  | ok a => exact hk a
  | error error => exact quiet (.refl host)

theorem execute (session : Session) (m : RealizedMethod) (args : List Value)
    (typeArgs : List TypeRef) (host : HostState) :
  Runs session (Host.execute session m args typeArgs) host (launching m args typeArgs host)
  := by
  have hexec := exec_execute session m args typeArgs host
  rw [launching]
  cases hbody : m.callableBody typeArgs with
  | error error =>
      rw [hbody] at hexec
      apply quiet
      rw [hexec]
      exact .refl host
  | ok body =>
      rw [hbody] at hexec
      constructor
      · rw [hexec]
        exact .run ⟨host, m, args, typeArgs⟩ (.refl _)
      · rintro l ⟨⟩ halt hhalt
        rw [hexec]
        exact hhalt

theorem get {k : HostState → Host α} (hk : Runs session (k host) host launches) :
  Runs session (MonadState.get >>= k) host launches
  := ⟨hk.course, hk.fails⟩

/-- The host changes the state, and goes on. -/
theorem change {k : PUnit → Host α}
    (hchange : host.Changes session host') (hk : Runs session (k ⟨⟩) host' launches) :
  Runs session (MonadStateOf.set host' >>= k) host launches
  := ⟨.change hchange hk.course, hk.fails⟩

/-- What is made of an answer needs no run. -/
theorem answer {x : Host α} (f : α → β) (hx : Runs session x host launches) :
  Runs session (x >>= fun a => Pure.pure (f a)) host launches
  := hx.then_quiet fun _ _ => pure _ _

theorem discard {x : Host α} (hx : Runs session x host launches) :
  Runs session (Functor.discard x) host launches
  := by
  have hdiscard : Functor.discard x = x >>= fun _ => Pure.pure PUnit.unit := by
    rw [bind_pure_comp]
    rfl
  rw [hdiscard]
  exact hx.answer _

end Runs

theorem runs_initializeType (session : Session) (id : TypeId) (host : HostState) :
  Runs session (initializeType session id) host (initializing session id host)
  := by
  have hprepared : host.Changes session _ := .prepare host id
  rw [initializing, initializeType]
  apply Runs.get
  cases hprepare : host.machine.prepare session id with
  | mk initializer machine =>
      rw [hprepare] at hprepared
      apply Runs.change hprepared
      cases initializer with
      | error error => exact .quiet (.refl _)
      | ok initializer =>
          cases initializer with
          | none => exact .quiet (.refl _)
          | some m => exact (Runs.execute session m [] [] _).discard

theorem runs_makeObject (session : Session) (t : RealizedType) (host : HostState) :
  Runs session (makeObject session t) host
    (if t.isInstantiable then initializing session t.id host else [])
  := by
  rw [makeObject]
  cases hinstantiable : t.isInstantiable with
  | false => exact .quiet (.refl host)
  | true =>
      apply Runs.then_quiet (runs_initializeType session t.id host)
      intro _ host'
      apply Runs.get
      exact .change (.allocObject host' t.id _) (.pure _ _)

theorem runs_construct (session : Session) (t : RealizedType) (constructor : RealizedMethod)
    (args : List Value) (host : HostState) :
  Runs session (construct session t constructor args) host
    ((HostPlan.construct t constructor args).launches session host)
  := by
  have hmake := runs_makeObject session t host
  rw [construct, HostPlan.launches]
  cases hinstantiable : t.isInstantiable with
  | false =>
      rw [hinstantiable] at hmake
      have hfault : (makeObject session t).exec host
          = (.error (.fault (.abstractInstantiation t.fullName)), host) := by
        rw [makeObject, hinstantiable]
        rfl
      exact hmake.bind_error hfault
  | true =>
      rw [hinstantiable] at hmake
      apply hmake.bind
      intro object host' _
      apply Runs.lift
      intro bound _
      exact (Runs.execute session constructor (object :: bound) [] host').answer fun _ => object

theorem runs_callResolved (session : Session) (m : RealizedMethod) (receiver : Option Value)
    (args : List Value) (typeArgs : List TypeRef) (host : HostState) :
  Runs session (callResolved session m receiver args typeArgs) host
    ((HostPlan.invoke m receiver args typeArgs).launches session host)
  := by
  rw [callResolved, HostPlan.launches]
  apply Runs.lift
  intro bound _
  cases hstatic : m.isStatic with
  | true =>
      simp only [if_true, pure_bind]
      apply (runs_initializeType session m.handle.owner host).bind
      intro _ host' _
      exact (Runs.execute session m bound typeArgs host').answer _
  | false =>
      simp only [Bool.false_eq_true, if_false]
      apply Runs.lift
      intro bound _
      exact (Runs.execute session m bound typeArgs host).answer _

/-- A call on a receiver, by dispatch. -/
theorem runs_callVirtual (session : Session) (receiver : Value) (method : MethodRef)
    (args : List Value) (host : HostState) :
  Runs session (callVirtual session receiver method args) host
    (answered (HostCall.plan.dispatched session receiver method args) fun plan =>
      plan.launches session host)
  := by
  rw [callVirtual, HostCall.plan.dispatched]
  apply Runs.planned
  intro declared
  apply Runs.planned
  intro target
  exact runs_callResolved session target (some receiver) args [] host

theorem runs_readField (session : Session) (receiver : Value) (name : String) (host : HostState) :
  Runs session (readField session receiver name) host []
  := by
  apply Runs.lift_quiet
  intro r _
  apply Runs.lift_quiet
  intro field _
  split
  · apply Runs.get
    split <;> exact .quiet (.refl host)
  · exact .pure _ host
  · exact .fault _ host

theorem runs_writeField (session : Session) (receiver : Value) (name : String) (v : Value)
    (host : HostState) :
  Runs session (writeField session receiver name v) host []
  := by
  apply Runs.lift_quiet
  intro r _
  apply Runs.lift_quiet
  intro field _
  split
  · apply Runs.get
    split
    · next heap hset => exact .quiet (.change (.setSlot host hset) (.refl _))
    · exact .fault _ host
  · exact .fault _ host

/-- Reading a static field runs what its type needs. -/
theorem runs_readStaticField (session : Session) (id : TypeId) (name : String)
    (host : HostState) :
  Runs session (readStaticField session id name) host
    (answered (HostCall.plan.accessed session id name) fun plan => plan.launches session host)
  := by
  apply Runs.planned
  intro field
  cases field.slot with
  | «instance» slot => exact .fault _ host
  | «static» slot =>
      apply (runs_initializeType session field.handle.owner host).then_quiet
      intro _ host'
      apply Runs.get
      apply Runs.lift_quiet
      intro v _
      exact .pure _ host'
  | literal => exact .pure _ host

theorem runs_writeStaticField (session : Session) (id : TypeId) (name : String) (v : Value)
    (host : HostState) :
  Runs session (writeStaticField session id name v) host
    (answered (HostCall.plan.accessed session id name) fun plan => plan.launches session host)
  := by
  apply Runs.planned
  intro field
  cases field.slot with
  | «instance» slot => exact .fault _ host
  | «static» slot =>
      apply (runs_initializeType session field.handle.owner host).then_quiet
      intro _ host'
      apply Runs.get
      apply Runs.lift_quiet
      intro machine hset
      exact .quiet (.change (.setStatic host' hset) (.refl _))
  | literal => exact .fault _ host

end Host

open Host in
/-- Every call goes through its runs, and fails as the last of them does. -/
theorem HostCall.runs (session : Session) (call : HostCall) (host : HostState) :
  Runs session (call.perform session) host (call.launches session host)
  := by
  rw [launches]
  cases call with
  | create id args =>
      apply Runs.planned
      intro t
      cases t.constructors.find? (·.takes args) with
      | none => exact .fault _ host
      | some m => exact runs_construct session t m args host
  | createWith constructor args =>
      apply Runs.planned
      intro t
      apply Runs.planned
      intro m
      exact runs_construct session t m args host
  | call method receiver args =>
      apply Runs.planned
      intro m
      exact runs_callResolved session m receiver args [] host
  | callVirtual receiver method args => exact runs_callVirtual session receiver method args host
  | callByName receiver name args =>
      apply Runs.planned
      intro r
      apply Runs.planned
      intro declared
      apply Runs.planned
      intro target
      exact runs_callResolved session target (some receiver) args [] host
  | callStatic id name args =>
      apply Runs.planned
      intro t
      dsimp only
      cases t.methods.find? fun m =>
          m.name == name && m.isStatic && !m.kind.isConstructor && m.takes args with
      | none => exact .fault _ host
      | some m => exact runs_callResolved session m none args [] host
  | callGenericMethod method typeArgs receiver args =>
      apply Runs.planned
      intro m
      cases receiver with
      | none => exact runs_callResolved session m none args typeArgs host
      | some v =>
          dsimp only
          split
          · exact runs_callResolved session m (some v) args typeArgs host
          · apply Runs.planned
            intro target
            exact runs_callResolved session target (some v) args typeArgs host
  | readProperty receiver name =>
      apply Runs.planned
      intro r
      apply Runs.planned
      intro getter
      exact runs_callVirtual session receiver getter [] host
  | writeProperty receiver name v =>
      apply Runs.then_quiet _ fun _ host' => .pure _ host'
      apply Runs.planned
      intro r
      apply Runs.planned
      intro setter
      exact (runs_callVirtual session receiver setter [v] host).discard
  | readStaticProperty id name =>
      apply Runs.planned
      intro getter
      apply Runs.planned
      intro m
      exact runs_callResolved session m none [] [] host
  | writeStaticProperty id name v =>
      apply Runs.then_quiet _ fun _ host' => .pure _ host'
      apply Runs.planned
      intro setter
      apply Runs.discard
      apply Runs.planned
      intro m
      exact runs_callResolved session m none [v] [] host
  | readField receiver name => exact runs_readField session receiver name host
  | writeField receiver name v =>
      exact (runs_writeField session receiver name v host).then_quiet fun _ host' => .pure _ host'
  | readStaticField id name => exact runs_readStaticField session id name host
  | writeStaticField id name v =>
      exact (runs_writeStaticField session id name v host).then_quiet fun _ host' => .pure _ host'

/-! ## How many runs a call starts -/

/-- At most one run, or two of which the first has answered. -/
inductive Launch.Few (session : Session) : List Launch → Prop
  | none : Few session []
  | one (l : Launch) : Few session [l]
  | two (first second : Launch) {v : Value} (hfirst : (first.status session).answer = .ok v) :
      Few session [first, second]

section

open Host

variable {α : Type} {session : Session} {host : HostState} {launches : List Launch}

theorem launching_length_le (m : RealizedMethod) (args : List Value) (typeArgs : List TypeRef)
    (host : HostState) :
  (launching m args typeArgs host).length ≤ 1
  := by
  rw [launching]
  split
  · exact Nat.le_refl 1
  · exact Nat.zero_le 1

theorem Host.initializing_length_le (session : Session) (id : TypeId) (host : HostState) :
  (initializing session id host).length ≤ 1
  := by
  rw [initializing]
  split
  · apply launching_length_le
  · exact Nat.zero_le 1

theorem Launch.cases_of_length_le (hlength : launches.length ≤ 1) :
  launches = [] ∨ ∃ l, launches = [l]
  := by
  cases launches with
  | nil => exact .inl rfl
  | cons l rest =>
      have hrest : rest.length = 0 := Nat.le_zero.mp (Nat.le_of_succ_le_succ hlength)
      rw [List.length_eq_zero_iff.mp hrest]
      exact .inr ⟨l, rfl⟩

theorem Launch.Few.of_length_le (hlength : launches.length ≤ 1) : Few session launches := by
  obtain rfl | ⟨l, rfl⟩ := cases_of_length_le hlength
  · exact .none
  · exact .one l

theorem Host.Runs.few {x : Host α} {next : α → HostState → List Launch}
    (hx : Runs session x host launches) (hlaunches : launches.length ≤ 1)
    (hnext : ∀ a host', (next a host').length ≤ 1) :
  Launch.Few session (launches ++ followed x next host)
  := by
  rw [followed]
  cases h : x.exec host with
  | mk answer host' =>
      cases answer with
      | error halt =>
          rw [List.append_nil]
          exact .of_length_le hlaunches
      | ok a =>
          dsimp only
          obtain rfl | ⟨first, rfl⟩ := Launch.cases_of_length_le hlaunches
          · exact .of_length_le (hnext a host')
          · cases hfirst : (first.status session).answer with
            | ok v =>
                obtain hnone | ⟨second, hsecond⟩ := Launch.cases_of_length_le (hnext a host')
                · rw [hnone]
                  exact .one first
                · rw [hsecond]
                  exact .two first second hfirst
            | error halt =>
                have hfailed := hx.fails first rfl halt hfirst
                rw [h] at hfailed
                cases hfailed

theorem HostPlan.few (session : Session) (plan : HostPlan) (host : HostState) :
  Launch.Few session (plan.launches session host)
  := by
  cases plan with
  | answer => exact .none
  | access owner => exact .of_length_le (initializing_length_le session owner host)
  | construct t constructor args =>
      have hmake := runs_makeObject session t host
      rw [launches]
      cases hinstantiable : t.isInstantiable with
      | false => exact .none
      | true =>
          rw [hinstantiable] at hmake
          apply hmake.few (initializing_length_le session t.id host)
          intro object host'
          cases constructor.bindArguments args with
          | ok bound => apply launching_length_le
          | error error => exact Nat.zero_le 1
  | invoke m receiver args typeArgs =>
      rw [launches]
      cases m.bindArguments args with
      | error error => exact .none
      | ok bound =>
          rw [answered]
          cases m.isStatic with
          | true =>
              apply (runs_initializeType session m.handle.owner host).few
              · apply initializing_length_le
              · intro _ host'
                apply launching_length_le
          | false =>
              apply Launch.Few.of_length_le
              cases withReceiver m receiver bound with
              | ok bound => apply launching_length_le
              | error error => exact Nat.zero_le 1

/-- A call starts at most two runs, and the second one only if the first has answered. -/
theorem HostCall.few (session : Session) (call : HostCall) (host : HostState) :
  Launch.Few session (call.launches session host)
  := by
  rw [launches]
  cases call.plan session with
  | ok plan => exact plan.few session host
  | error error => exact .none

end

/-! ## What a call runs -/

/-- The method of a run has a body for the type arguments. -/
def Launch.Callable (l : Launch) : Prop :=
  ∃ body, l.method.callableBody l.typeArgs = .ok body

theorem launching_callable (m : RealizedMethod) (args : List Value) (typeArgs : List TypeRef)
    (host : HostState) :
  ∀ l ∈ launching m args typeArgs host, l.Callable
  := by
  rw [launching]
  split
  · next body hbody =>
    intro l hl
    cases List.mem_singleton.mp hl
    exact ⟨body, hbody⟩
  · rintro l ⟨⟩

namespace Host

variable {α : Type} {P : Launch → Prop}

theorem forall_answered
    {r : Except Fault α} {next : α → List Launch} (hnext : ∀ a, ∀ l ∈ next a, P l) :
  ∀ l ∈ answered r next, P l
  := by
  cases r with
  | ok a => exact hnext a
  | error error => rintro l ⟨⟩

theorem forall_followed
    {x : Host α} {next : α → HostState → List Launch} {host : HostState}
    (hnext : ∀ a host', ∀ l ∈ next a host', P l) :
  ∀ l ∈ followed x next host, P l
  := by
  rw [followed]
  split
  · apply hnext
  · rintro l ⟨⟩

theorem initializing_callable (session : Session) (id : TypeId) (host : HostState) :
  ∀ l ∈ initializing session id host, l.Callable
  := by
  rw [initializing]
  split
  · apply launching_callable
  · rintro l ⟨⟩

end Host

open Host in
theorem HostPlan.launches_callable (session : Session) (plan : HostPlan) (host : HostState) :
  ∀ l ∈ plan.launches session host, l.Callable
  := by
  cases plan with
  | answer => rintro l ⟨⟩
  | access owner => exact initializing_callable session owner host
  | construct t constructor args =>
      rw [launches]
      split
      · apply List.forall_mem_append.mpr ⟨initializing_callable session t.id host, _⟩
        apply forall_followed
        intro object host'
        apply forall_answered
        intro bound
        apply launching_callable
      · rintro l ⟨⟩
  | invoke m receiver args typeArgs =>
      apply forall_answered
      intro bound
      split
      · apply List.forall_mem_append.mpr ⟨initializing_callable session m.handle.owner host, _⟩
        apply forall_followed
        intro _ host'
        apply launching_callable
      · apply forall_answered
        intro bound
        apply launching_callable

theorem HostCall.launches_callable (session : Session) (call : HostCall) (host : HostState) :
  ∀ l ∈ call.launches session host, l.Callable
  := Host.forall_answered fun plan => plan.launches_callable session host

end ManagedCode
