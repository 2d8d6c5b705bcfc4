import ManagedCode.Proofs.Machine.Initialization

/-!
# When types are initialized

The log of all that happens to the static sides of types while a host acts (`World.log`), with what
happens in the calls of the host (`HostCall.events`).

Whatever a host does, the log of each of its machines is orderly: the slots of a type are created
once, its initializer is started at most once, and both happen before the type is used
(`World.statics_after`).  An initializer that has been started is never started again, however it
has ended (`World.initialized_after`).
-/

namespace ManagedCode

open StaticLog

variable {ρ : Type}

/-! ## What a session finds -/

namespace Session

variable {s : Session} {id : TypeId}

theorem mem_lineageFrom {fuel : Nat} {t : RealizedType} (ht : t ∈ (s.lineageFrom fuel id).types) :
  t ∈ s.types
  := by
  induction fuel generalizing id with
  | zero => cases ht
  | succ fuel ih =>
      rw [lineageFrom] at ht
      split at ht
      · cases ht
      · next u hu =>
        have humem := (realized?_some hu).1
        split at ht
        · exact List.mem_singleton.mp ht ▸ humem
        · obtain rfl | ht := List.mem_cons.mp ht
          · exact humem
          · exact ih ht

/-- What is found along base links is an answer of a realized type. -/
theorem findAt_ok {α : Type} {member : String} {f : RealizedType → Option α} {a : α}
    (hfound : s.findAt id member f = .ok a) :
  ∃ t ∈ s.types, f t = some a
  := by
  rw [findAt, findOnLineage] at hfound
  split at hfound
  · next found hline =>
    cases hfound
    split at hline
    · next hfirst =>
      cases hline
      obtain ⟨t, ht, hanswer⟩ := List.exists_of_findSome?_eq_some hfirst
      exact ⟨t, mem_lineageFrom ht, hanswer⟩
    · cases hline
    · cases hline
  · cases hfound
  · cases hfound

namespace Addressed

variable {m declared : RealizedMethod} {t : RealizedType}

/-- A method that is found is a method of a realized type. -/
theorem realized_of_methodAt
    (h : s.Addressed) {handle : MethodRef} (hm : s.methodAt handle = .ok m) :
  ∃ t, s.realized? m.handle.owner = some t
  := by
  obtain ⟨rfl, t, ht, -⟩ := h.methodAt hm
  exact ⟨t, ht⟩

theorem realized_of_mem (h : s.Addressed) (ht : t ∈ s.types) (hm : m ∈ t.methods) :
  ∃ u, s.realized? m.handle.owner = some u
  := h.realized_of_methodAt (h.mem_methods ht hm).2

/-- So is the method that a call by dispatch runs. -/
theorem realized_of_dispatch
    (h : s.Addressed) (hdeclared : ∃ t, s.realized? declared.handle.owner = some t)
    {receiver : Value} (hdispatch : s.dispatch receiver declared = .ok m) :
  ∃ t, s.realized? m.handle.owner = some t
  := by
  obtain rfl | ⟨_, -, _, hm, -⟩ := dispatch_cases hdispatch
  · exact hdeclared
  · exact h.realized_of_methodAt hm

theorem realized_of_fieldNamed
    (h : s.Addressed) {name : String} {field : RealizedField}
    (hfield : s.fieldNamed id name = .ok field) :
  ∃ t, s.realized? field.handle.owner = some t
  := by
  obtain ⟨t, ht, hfound⟩ := findAt_ok hfield
  obtain ⟨i, hi⟩ := List.getElem?_of_mem (List.mem_of_find?_eq_some hfound)
  rw [h.fields t ht i field hi]
  exact ⟨t, h.types t ht⟩

end Addressed

end Session

/-! ## What happens in a call of the host -/

namespace Host

/-- What happens when the static side of a type is set up, and then used. -/
def settling (session : Session) (id : TypeId) (uses : StaticLog) (host : HostState) : StaticLog :=
  host.machine.preparing session id
    ++ (initializing session id host).flatMap (·.events session)
    ++ match ((initializeType session id).exec host).1 with
      | .ok _ => uses
      | .error _ => []

end Host

open Host in
/-- What happens as the plan of a call is carried out, with the uses that an access is for. -/
def HostPlan.events (session : Session) (uses : StaticLog) : HostPlan → HostState → StaticLog
  | answer, _ => []
  | access owner, host => settling session owner uses host
  | construct t constructor args, host =>
    if t.isInstantiable then
      settling session t.id [.constructs t] host
        ++ (followed (makeObject session t) (fun object host =>
            answered (constructor.bindArguments args) fun bound =>
              launching constructor (object :: bound) [] host) host).flatMap (·.events session)
    else []
  | invoke m receiver args typeArgs, host =>
    match m.bindArguments args with
    | .error _ => []
    | .ok bound =>
      if m.isStatic then
        settling session m.handle.owner [.calls m] host
          ++ (followed (initializeType session m.handle.owner) (fun _ host =>
              launching m bound typeArgs host) host).flatMap (·.events session)
      else
        (answered (withReceiver m receiver bound) fun bound =>
          launching m bound typeArgs host).flatMap (·.events session)

namespace HostCall

/-- The uses of a static field that the host asks for. -/
def uses (session : Session) : HostCall → StaticLog
  | readStaticField id name => named id name fun field slot => .reads field.handle.owner slot
  | writeStaticField id name v => named id name fun field slot =>
    .writes field.handle.owner slot (v.coerceTo field.type).toStack
  | _ => []
where
  /-- The use of a static field with storage. -/
  named (id : TypeId) (name : String) (use : RealizedField → Nat → StaticEvent) : StaticLog :=
    match session.fieldNamed id name with
    | .error _ => []
    | .ok field =>
      match field.slot with
      | .static slot => [use field slot]
      | _ => []

/-- What happens when a call comes down to a plan. -/
def planned (session : Session) (uses : StaticLog) (plan : Except Fault HostPlan)
    (host : HostState) : StaticLog :=
  match plan with
  | .ok plan => plan.events session uses host
  | .error _ => []

/-- What happens in a call of the host. -/
def events (session : Session) (call : HostCall) (host : HostState) : StaticLog :=
  planned session (call.uses session) (call.plan session) host

section

variable {session : Session} {c : HostCall} {id : TypeId} {name : String}
  {use : RealizedField → Nat → StaticEvent}

/-- The host uses a static field with storage. -/
theorem named_events
    (huses : c.uses session = uses.named session id name use)
    (hplan : c.plan session = plan.accessed session id name) {field : RealizedField} {slot : Nat}
    (hfield : session.fieldNamed id name = .ok field) (hslot : field.slot = .static slot)
    (host : HostState) :
  c.events session host = Host.settling session field.handle.owner [use field slot] host
  := by
  rw [events, huses, hplan, uses.named, plan.accessed, hfield]
  dsimp only [bind, Except.bind]
  rw [hslot]
  rfl

/-- The host names a field without storage, or none. -/
theorem named_events_nil
    (huses : c.uses session = uses.named session id name use)
    (hplan : c.plan session = plan.accessed session id name)
    (hnone : ¬ ∃ field slot, session.fieldNamed id name = .ok field ∧ field.slot = .static slot)
    (host : HostState) :
  c.events session host = []
  := by
  rw [events, huses, hplan, uses.named, plan.accessed]
  cases hfield : session.fieldNamed id name with
  | error error => rfl
  | ok field =>
      dsimp only [bind, Except.bind]
      cases hslot : field.slot with
      | «static» slot => exact absurd ⟨field, slot, hfield, hslot⟩ hnone
      | _ => rfl

end

end HostCall

namespace Host

/-- An operation of the host leaves a machine that a log accounts for if it has the events of the
operation. -/
def Accounts (Known : RealizedType → Prop) (runs : Bool) {α : Type} (x : Host α)
    (events : HostState → StaticLog) : Prop :=
  ∀ (log : StaticLog) (host : HostState), Ledger Known runs log host.machine →
    Ledger Known runs (log ++ events host) (x.exec host).2.machine

/-- An operation of the host that leaves the machine alone. -/
def Still {α : Type} (x : Host α) : Prop :=
  ∀ host, (x.exec host).2.machine = host.machine

/-- Setting up a type runs the initializer that the machine asks for. -/
theorem exec_initializeType (session : Session) (id : TypeId) (host : HostState) :
  (initializeType session id).exec host
    = ExceptT.exec (match (host.machine.prepare session id).1 with
        | .error error => fault error
        | .ok none => pure ()
        | .ok (some m) => discard (execute session m [] []) : Host Unit)
      { host with machine := (host.machine.prepare session id).2 }
  := by
  rw [initializeType]
  change ExceptT.exec (lift (host.machine.prepare session id).1 >>= _)
    { host with machine := (host.machine.prepare session id).2 } = _
  cases (host.machine.prepare session id).1 with
  | error error => rfl
  | ok initializer => cases initializer <;> rfl

/-- The host reads a static field with storage. -/
theorem readStaticField_eq {session : Session} {id : TypeId} {name : String} {field : RealizedField}
    {slot : Nat} (hfield : session.fieldNamed id name = .ok field)
    (hslot : field.slot = .static slot) :
  readStaticField session id name = do
    initializeType session field.handle.owner
    let v ← lift ((← get).machine.static field.handle.owner slot)
    return v.coerceTo field.type
  := by
  rw [readStaticField, hfield]
  simp only [lift, pure_bind, hslot]

theorem writeStaticField_eq {session : Session} {id : TypeId} {name : String}
    {field : RealizedField} {slot : Nat} (hfield : session.fieldNamed id name = .ok field)
    (hslot : field.slot = .static slot) (v : Value) :
  writeStaticField session id name v = (do
    initializeType session field.handle.owner
    let host ← get
    let stored := (v.coerceTo field.type).toStack
    let machine ← lift (host.machine.setStatic field.handle.owner slot stored)
    set { host with machine := machine })
  := by
  rw [writeStaticField, hfield]
  simp only [lift, pure_bind, hslot]

/-- The host makes an object of a class that can be instantiated. -/
theorem makeObject_eq {session : Session} {t : RealizedType} (ht : t.isInstantiable = true) :
  makeObject session t = (do
    initializeType session t.id
    let host ← get
    let (r, heap) := host.heap.allocObject t.id (t.instanceDefaults.map Value.toStack)
    set { host with heap := heap }
    return .object r)
  := by
  rw [makeObject, ht]
  rfl

/-- With nothing to use afterwards, it does not matter how setting up a type ends. -/
theorem settling_nil (session : Session) (id : TypeId) (host : HostState) :
  settling session id [] host
    = host.machine.preparing session id ++ (initializing session id host).flatMap (·.events session)
  := by
  rw [settling]
  cases ((initializeType session id).exec host).1 <;> exact List.append_nil _

theorem still_pure {α : Type} (a : α) : Still (pure a) :=
  fun _ => rfl

theorem still_lift_bind {α β : Type} {r : Except Fault α} {k : α → Host β}
    (hk : ∀ a, r = .ok a → Still (k a)) :
  Still (lift r >>= k)
  := by
  cases r with
  | ok a => exact hk a rfl
  | error error => exact fun _ => rfl

theorem still_get_bind {α : Type} {k : HostState → Host α}
    (hk : ∀ host, ((k host).exec host).2.machine = host.machine) :
  Still (get >>= k)
  := hk

section

variable {session : Session} {Known : RealizedType → Prop} {runs : Bool} {α β : Type}
  {host : HostState} {log : StaticLog} {id : TypeId}

namespace Accounts

theorem of_eq {x : Host α} {events events' : HostState → StaticLog}
    (hx : Accounts Known runs x events) (hevents : ∀ host, events' host = events host) :
  Accounts Known runs x events'
  := funext hevents ▸ hx

theorem still {x : Host α} (hx : Still x) : Accounts Known runs x fun _ => [] := by
  intro log host h
  rw [List.append_nil, hx host]
  exact h

/-- One operation after another, with the runs that the second starts. -/
theorem bind
    {x : Host α} {k : α → Host β} {events : HostState → StaticLog}
    {next : α → HostState → List Launch} (hx : Accounts Known runs x events)
    (hk : ∀ a, Accounts Known runs (k a) fun host => (next a host).flatMap (·.events session)) :
  Accounts Known runs (x >>= k)
    fun host => events host ++ (followed x next host).flatMap (·.events session)
  := by
  intro log host h
  have hfirst := hx log host h
  beta_reduce
  rw [exec_bind, followed]
  cases hexec : x.exec host with
  | mk answer host' =>
      rw [hexec] at hfirst
      cases answer with
      | ok a =>
          dsimp only
          rw [← List.append_assoc]
          exact hk a _ host' hfirst
      | error halt =>
          dsimp only
          rw [List.flatMap_nil, List.append_nil]
          exact hfirst

theorem then_still
    {x : Host α} {k : α → Host β} {events : HostState → StaticLog}
    (hx : Accounts Known runs x events) (hk : ∀ a, Still (k a)) :
  Accounts Known runs (x >>= k) events
  := by
  intro log host h
  have hfirst := hx log host h
  rw [exec_bind]
  cases hexec : x.exec host with
  | mk answer host' =>
      rw [hexec] at hfirst
      cases answer with
      | ok a =>
          dsimp only
          rw [hk a host']
          exact hfirst
      | error halt => exact hfirst

/-- An operation that goes on with an answer, and with the runs that it starts. -/
theorem lift {r : Except Fault α} {k : α → Host β} {next : α → HostState → List Launch}
    (hk : ∀ a, Accounts Known runs (k a) fun host => (next a host).flatMap (·.events session)) :
  Accounts Known runs (Host.lift r >>= k)
    fun host => (answered r fun a => next a host).flatMap (·.events session)
  := by
  cases r with
  | ok a => exact hk a
  | error error => exact still fun host => rfl

/-- An operation that goes on with an answer, as its plan does. -/
theorem planned {uses : StaticLog} {r : Except Fault α} {k : α → Host β}
    {p : α → Except Fault HostPlan}
    (hk : ∀ a, r = .ok a → Accounts Known runs (k a) (HostCall.planned session uses (p a))) :
  Accounts Known runs (Host.lift r >>= k) (HostCall.planned session uses (r >>= p))
  := by
  cases r with
  | ok a => exact hk a rfl
  | error error => exact still fun host => rfl

end Accounts

variable (hsession : session.Addressed) (hknown : ∀ t ∈ session.types, Known t)
include hsession hknown

theorem execute_accounts (m : RealizedMethod) (args : List Value) (typeArgs : List TypeRef) :
  Accounts Known runs (execute session m args typeArgs)
    fun host => (launching m args typeArgs host).flatMap (·.events session)
  := by
  intro log host h
  beta_reduce
  rw [exec_execute, launching]
  cases m.callableBody typeArgs with
  | error error =>
      rw [List.flatMap_nil, List.append_nil]
      exact h
  | ok body =>
      rw [List.flatMap_singleton]
      exact (Launch.status_accounted (l := ⟨host, m, args, typeArgs⟩) hsession hknown h).ledger

/-- The static side of a type is set up, and the type is ready even if its initializer fails. -/
theorem initializeType_settles
    (h : Ledger Known runs log host.machine) (hid : ∃ t, session.realized? id = some t) :
  Ledger Known runs (log ++ settling session id [] host)
      ((initializeType session id).exec host).2.machine
    ∧ Ready runs (log ++ settling session id [] host) id
  := by
  obtain ⟨hprepared, hready, initializer, hanswer⟩ := h.prepare hsession hknown hid
  rw [settling_nil, ← List.append_assoc]
  refine ⟨?_, hready.more _⟩
  rw [exec_initializeType, hanswer, initializing]
  cases hmachine : host.machine.prepare session id with
  | mk answer machine =>
      rw [hmachine] at hprepared hanswer
      obtain rfl : answer = .ok initializer := hanswer
      cases initializer with
      | none =>
          dsimp only
          rw [List.flatMap_nil, List.append_nil]
          exact hprepared
      | some m =>
          have hrun : Accounts Known runs (discard (execute session m [] [])) _ :=
            (execute_accounts hsession hknown m [] []).then_still fun _ => still_pure ()
          exact hrun _ ⟨machine, host.heap⟩ hprepared

/-- The static side of a type is set up, and then it is used. -/
theorem settling_accounts
    {k : Unit → Host α} {use : StaticEvent} (hid : ∃ t, session.realized? id = some t)
    (hk : ∀ log host, Ledger Known runs log host.machine → Ready runs log id →
      Ledger Known runs (log ++ [use]) ((k ()).exec host).2.machine) :
  Accounts Known runs (initializeType session id >>= k) (settling session id [use])
  := by
  intro log host h
  obtain ⟨hledger, hready⟩ := initializeType_settles hsession hknown h hid
  rw [exec_bind]
  rw [settling] at hledger hready ⊢
  cases hexec : (initializeType session id).exec host with
  | mk answer host' =>
      rw [hexec] at hledger hready
      cases answer with
      | ok _ =>
          dsimp only at hledger hready ⊢
          rw [List.append_nil] at hledger hready
          rw [← List.append_assoc]
          exact hk _ host' hledger hready
      | error halt => exact hledger

/-- A use that leaves the slots alone. -/
theorem initializeType_accounts
    (hid : ∃ t, session.realized? id = some t) (use : StaticEvent) (hused : use.used? = some id)
    (hreplay : ∀ statics, use.replay statics = statics) :
  Accounts Known runs (initializeType session id) (settling session id [use])
  := by
  rw [← bind_pure (initializeType session id)]
  apply settling_accounts hsession hknown hid
  intro log host h hready
  apply h.use hused hready
  rw [hreplay]
  rfl

theorem makeObject_accounts
    {t : RealizedType} (hid : ∃ u, session.realized? t.id = some u)
    (hinstantiable : t.isInstantiable = true) :
  Accounts Known runs (makeObject session t) (settling session t.id [.constructs t])
  := by
  rw [makeObject_eq hinstantiable]
  apply settling_accounts hsession hknown hid
  intro log host h hready
  exact h.use rfl hready rfl

theorem construct_accounts
    {t : RealizedType} (hid : ∃ u, session.realized? t.id = some u) (constructor : RealizedMethod)
    (args : List Value) (uses : StaticLog) :
  Accounts Known runs (construct session t constructor args)
    ((HostPlan.construct t constructor args).events session uses)
  := by
  have hrest : ∀ object, Accounts Known runs (do
      let bound ← lift (constructor.bindArguments args)
      let _ ← execute session constructor (object :: bound) []
      return object : Host Value) fun host =>
        (answered (constructor.bindArguments args) fun bound =>
          launching constructor (object :: bound) [] host).flatMap (·.events session) := by
    intro object
    apply Accounts.lift
    intro bound
    exact (execute_accounts hsession hknown constructor (object :: bound) []).then_still
      fun _ => still_pure object
  cases hinstantiable : t.isInstantiable with
  | false =>
      have hstill : Still (construct session t constructor args) := by
        intro host
        rw [construct, makeObject, hinstantiable]
        rfl
      apply (Accounts.still hstill).of_eq
      intro host
      rw [HostPlan.events, hinstantiable]
      rfl
  | true =>
      apply ((makeObject_accounts hsession hknown hid hinstantiable).bind hrest).of_eq
      intro host
      rw [HostPlan.events, hinstantiable]
      rfl

theorem callResolved_accounts
    {m : RealizedMethod} (hm : ∃ t, session.realized? m.handle.owner = some t)
    (receiver : Option Value) (args : List Value) (typeArgs : List TypeRef) (uses : StaticLog) :
  Accounts Known runs (callResolved session m receiver args typeArgs)
    ((HostPlan.invoke m receiver args typeArgs).events session uses)
  := by
  have hrun : ∀ bound, Accounts Known runs (do
      let result ← execute session m bound typeArgs
      return result.coerceTo (m.returnType.substitute m.genericParams typeArgs) : Host Value)
        fun host => (launching m bound typeArgs host).flatMap (·.events session) :=
    fun bound => (execute_accounts hsession hknown m bound typeArgs).then_still
      fun _ => still_pure _
  cases hbound : m.bindArguments args with
  | error error =>
      have hstill : Still (callResolved session m receiver args typeArgs) := by
        intro host
        rw [callResolved, hbound]
        rfl
      apply (Accounts.still hstill).of_eq
      intro host
      rw [HostPlan.events, hbound]
  | ok bound =>
      rw [callResolved, hbound]
      cases hstatic : m.isStatic with
      | true =>
          apply Accounts.of_eq ((initializeType_accounts hsession hknown hm (.calls m) rfl
            fun _ => rfl).bind fun _ => hrun bound)
          intro host
          rw [HostPlan.events, hbound, hstatic]
          rfl
      | false =>
          apply Accounts.of_eq (Accounts.lift hrun)
          intro host
          rw [HostPlan.events, hbound, hstatic]
          rfl

theorem call_accounts (method : MethodRef) (receiver : Option Value) (args : List Value)
    (uses : StaticLog) :
  Accounts Known runs (call session method receiver args)
    (HostCall.planned session uses do
      let m ← session.methodAt method
      return .invoke m receiver args [])
  := by
  apply Accounts.planned
  intro m hm
  have hrealized := hsession.realized_of_methodAt hm
  exact callResolved_accounts hsession hknown hrealized receiver args [] uses

theorem callVirtual_accounts (receiver : Value) (method : MethodRef) (args : List Value)
    (uses : StaticLog) :
  Accounts Known runs (callVirtual session receiver method args)
    (HostCall.planned session uses (HostCall.plan.dispatched session receiver method args))
  := by
  apply Accounts.planned
  intro declared hdeclared
  apply Accounts.planned
  intro target htarget
  have hrealized := hsession.realized_of_dispatch (hsession.realized_of_methodAt hdeclared) htarget
  exact callResolved_accounts hsession hknown hrealized (some receiver) args [] uses

theorem readStaticField_accounts (id : TypeId) (name : String) :
  Accounts Known runs (readStaticField session id name)
    ((HostCall.readStaticField id name).events session)
  := by
  by_cases hstatic : ∃ field slot,
      session.fieldNamed id name = .ok field ∧ field.slot = .static slot
  · obtain ⟨field, slot, hfield, hslot⟩ := hstatic
    rw [readStaticField_eq hfield hslot]
    apply Accounts.of_eq _ (HostCall.named_events rfl rfl hfield hslot)
    apply settling_accounts hsession hknown (hsession.realized_of_fieldNamed hfield)
    intro log host h hready
    have hused := h.use (e := .reads field.handle.owner slot) rfl hready rfl
    change Ledger Known runs _ (ExceptT.exec (do
      let v ← lift (host.machine.static field.handle.owner slot)
      return v.coerceTo field.type : Host Value) host).2.machine
    cases host.machine.static field.handle.owner slot <;> exact hused
  · apply Accounts.of_eq (.still _) (HostCall.named_events_nil rfl rfl hstatic)
    apply still_lift_bind
    intro field hfield
    cases hslot : field.slot with
    | «static» slot => exact absurd ⟨field, slot, hfield, hslot⟩ hstatic
    | _ => exact fun _ => rfl

theorem writeStaticField_accounts (id : TypeId) (name : String) (v : Value) :
  Accounts Known runs (writeStaticField session id name v)
    ((HostCall.writeStaticField id name v).events session)
  := by
  by_cases hstatic : ∃ field slot,
      session.fieldNamed id name = .ok field ∧ field.slot = .static slot
  · obtain ⟨field, slot, hfield, hslot⟩ := hstatic
    rw [writeStaticField_eq hfield hslot]
    apply Accounts.of_eq _ (HostCall.named_events rfl rfl hfield hslot)
    apply settling_accounts hsession hknown (hsession.realized_of_fieldNamed hfield)
    intro log host h hready
    have hwritten := h.setStatic hready slot (v.coerceTo field.type).toStack
    change Ledger Known runs _ (ExceptT.exec (do
      let machine ← lift
        (host.machine.setStatic field.handle.owner slot (v.coerceTo field.type).toStack)
      set { host with machine := machine } : Host Unit) host).2.machine
    cases hset : host.machine.setStatic field.handle.owner slot (v.coerceTo field.type).toStack with
    | ok machine =>
        rw [hset] at hwritten
        exact hwritten
    | error error =>
        rw [hset] at hwritten
        exact hwritten
  · apply Accounts.of_eq (.still _) (HostCall.named_events_nil rfl rfl hstatic)
    apply still_lift_bind
    intro field hfield
    cases hslot : field.slot with
    | «static» slot => exact absurd ⟨field, slot, hfield, hslot⟩ hstatic
    | _ => exact fun _ => rfl

end

theorem still_readField (session : Session) (receiver : Value) (name : String) :
  Still (readField session receiver name)
  := by
  apply still_lift_bind
  intro r _
  apply still_lift_bind
  intro field _
  cases field.slot with
  | «instance» slot =>
      apply still_get_bind
      intro host
      cases host.heap.slot? r slot <;> rfl
  | _ => exact fun _ => rfl

theorem still_writeField (session : Session) (receiver : Value) (name : String) (v : Value) :
  Still (writeField session receiver name v)
  := by
  apply still_lift_bind
  intro r _
  apply still_lift_bind
  intro field _
  cases field.slot with
  | «instance» slot =>
      apply still_get_bind
      intro host
      cases host.heap.setSlot r slot (v.coerceTo field.type).toStack <;> rfl
  | _ => exact fun _ => rfl

end Host

section

variable {session : Session} {Known : RealizedType → Prop} {runs : Bool}

open Host in
/-- Whatever the host asks for, what happens is accounted for. -/
theorem HostCall.accounts
    (hsession : session.Addressed) (hknown : ∀ t ∈ session.types, Known t) (call : HostCall) :
  Accounts Known runs (call.perform session) (call.events session)
  := by
  cases call with
  | create id args =>
      apply Accounts.planned
      intro t ht
      have hrealized := Session.typeAt_ok ht
      obtain ⟨-, rfl⟩ := Session.realized?_some hrealized
      cases t.constructors.find? (·.takes args) with
      | none => exact .still fun _ => rfl
      | some m => exact construct_accounts hsession hknown ⟨t, hrealized⟩ m args []
  | createWith constructor args =>
      apply Accounts.planned
      intro t ht
      have hrealized := Session.typeAt_ok ht
      obtain ⟨-, hid⟩ := Session.realized?_some hrealized
      apply Accounts.planned
      intro m _
      exact construct_accounts hsession hknown ⟨t, hid ▸ hrealized⟩ m args []
  | call method receiver args => exact call_accounts hsession hknown method receiver args []
  | callVirtual receiver method args =>
      exact callVirtual_accounts hsession hknown receiver method args []
  | callByName receiver name args =>
      apply Accounts.planned
      intro r _
      apply Accounts.planned
      intro declared hdeclared
      apply Accounts.planned
      intro target htarget
      obtain ⟨t, ht, hfound⟩ := Session.findAt_ok hdeclared
      have hrealized := hsession.realized_of_dispatch
        (hsession.realized_of_mem ht (List.mem_of_find?_eq_some hfound)) htarget
      exact callResolved_accounts hsession hknown hrealized (some receiver) args [] []
  | callStatic id name args =>
      apply Accounts.planned
      intro t ht
      have hmem := (Session.realized?_some (Session.typeAt_ok ht)).1
      dsimp only
      cases hfound : t.methods.find? fun m =>
          m.name == name && m.isStatic && !m.kind.isConstructor && m.takes args with
      | none => exact .still fun _ => rfl
      | some m =>
          have hrealized := hsession.realized_of_mem hmem (List.mem_of_find?_eq_some hfound)
          exact callResolved_accounts hsession hknown hrealized none args [] []
  | callGenericMethod method typeArgs receiver args =>
      apply Accounts.planned
      intro m hm
      have hrealized := hsession.realized_of_methodAt hm
      cases receiver with
      | none => exact callResolved_accounts hsession hknown hrealized none args typeArgs []
      | some v =>
          dsimp only
          split
          · exact callResolved_accounts hsession hknown hrealized (some v) args typeArgs []
          · apply Accounts.planned
            intro target htarget
            exact callResolved_accounts hsession hknown
              (hsession.realized_of_dispatch hrealized htarget) (some v) args typeArgs []
  | readProperty receiver name =>
      apply Accounts.planned
      intro r _
      apply Accounts.planned
      intro getter _
      exact callVirtual_accounts hsession hknown receiver getter [] []
  | writeProperty receiver name v =>
      refine Accounts.then_still ?_ fun _ => still_pure _
      apply Accounts.planned
      intro r _
      apply Accounts.planned
      intro setter _
      exact (callVirtual_accounts hsession hknown receiver setter [v] []).then_still
        fun _ => still_pure _
  | readStaticProperty id name =>
      apply Accounts.planned
      intro getter _
      exact call_accounts hsession hknown getter none [] _
  | writeStaticProperty id name v =>
      refine Accounts.then_still ?_ fun _ => still_pure _
      apply Accounts.planned
      intro setter _
      exact (call_accounts hsession hknown setter none [v] []).then_still fun _ => still_pure _
  | readField receiver name => exact .still (still_readField session receiver name)
  | writeField receiver name v =>
      exact (Accounts.still (still_writeField session receiver name v)).then_still
        fun _ => still_pure _
  | readStaticField id name => exact readStaticField_accounts hsession hknown id name
  | writeStaticField id name v =>
      exact (writeStaticField_accounts hsession hknown id name v).then_still fun _ => still_pure _

end

/-! ## Histories -/

namespace World

/-- What happens at the machine `k` when the host acts. -/
def events (w : World) (k : Nat) : Act ρ → StaticLog
  | .call j c =>
    if j = k then
      match w.machines[k]? with
      | some machine => c.events w.project.session ⟨machine, w.heap⟩
      | none => []
    else []
  | .session _ | .machine _ _ | .object _ _ | .array _ _ => []

/-- All that happens at the machine `k`. -/
def log (w : World) (k : Nat) : List (Act ρ) → StaticLog
  | [] => []
  | a :: history => w.events k a ++ (w.act a).log k history

theorem log_append (w : World) (k : Nat) (before later : List (Act ρ)) :
  w.log k (before ++ later) = w.log k before ++ (w.after before).log k later
  := by
  induction before generalizing w with
  | nil => rfl
  | cons a before ih =>
      rw [List.cons_append, log, log, ih, List.append_assoc]
      rfl

/-- A log accounts for the machine `k`, and is empty if there is none. -/
structure Accounted (Known : RealizedType → Prop) (k : Nat) (log : StaticLog) (w : World) :
    Prop where
  ledger : ∀ machine, w.machines[k]? = some machine →
    Ledger Known machine.runInitializers log machine
  none : w.machines[k]? = none → log = []

variable {Known Known' : RealizedType → Prop} {w : World} {k : Nat} {log : StaticLog}

/-- What happens at a machine is accounted for whatever a host does.  Nothing has happened yet at a
machine that is new. -/
theorem Accounted.act
    (h : w.Accounted Known k log) (hsession : w.project.session.Addressed)
    (hknown : ∀ t ∈ w.project.session.types, Known t) (a : Act ρ) :
  (w.act a).Accounted Known k (log ++ w.events k a)
  := by
  cases a with
  | session e | object type slots | array element items =>
      rw [events, List.append_nil]
      exact ⟨h.ledger, h.none⟩
  | machine limits runInitializers =>
      rw [events, List.append_nil]
      constructor
      · intro machine hmachine
        rw [World.act, List.getElem?_append] at hmachine
        split at hmachine
        · exact h.ledger machine hmachine
        · next hlt =>
          rw [h.none (List.getElem?_eq_none (Nat.le_of_not_lt hlt))]
          rw [List.mem_singleton.mp (List.mem_of_getElem? hmachine)]
          exact .new limits runInitializers
      · intro hnone
        apply h.none
        rw [World.act, List.getElem?_append] at hnone
        split at hnone
        · exact hnone
        · next hlt => exact List.getElem?_eq_none (Nat.le_of_not_lt hlt)
  | call j c =>
      rw [events]
      cases hj : w.machines[j]? with
      | none =>
          rw [act_call_none hj]
          split
          · next hsame =>
            obtain rfl := hsame
            rw [hj, List.append_nil]
            exact h
          · rw [List.append_nil]
            exact h
      | some machine =>
          have hleft := getElem?_left hj ((c.perform w.project.session).exec ⟨machine, w.heap⟩).2 k
          rw [act_call hj]
          by_cases hsame : j = k
          · obtain rfl := hsame
            have hcall := c.accounts hsession hknown log ⟨machine, w.heap⟩ (h.ledger machine hj)
            rw [if_pos rfl] at hleft
            rw [if_pos rfl, hj]
            constructor
            · intro machine' hmachine'
              obtain rfl := Option.some.inj (hleft.symm.trans hmachine')
              exact hcall.initializers.symm ▸ hcall
            · intro hnone
              rw [hleft] at hnone
              cases hnone
          · rw [if_neg (Ne.symm hsame)] at hleft
            rw [if_neg hsame, List.append_nil]
            constructor
            · rw [hleft]
              exact h.ledger
            · rw [hleft]
              exact h.none

/-- There is a machine where something has happened. -/
theorem Accounted.exists_ledger (h : w.Accounted Known k log) {e : StaticEvent} (he : e ∈ log) :
  ∃ machine, Ledger Known machine.runInitializers log machine
  := by
  cases hk : w.machines[k]? with
  | none =>
      rw [h.none hk] at he
      cases he
  | some machine => exact ⟨machine, h.ledger machine hk⟩

/-- A type that the session has had at some time. -/
def HasRealized (verify : Bool) (history : List (Act ρ)) (t : RealizedType) : Prop :=
  ∃ before, before <+: history
    ∧ ((empty verify).after before).project.session.realized? t.id = some t

theorem accounted_after (verify : Bool) (history : List (Act ρ)) (k : Nat) :
  ((empty verify).after history).Accounted (HasRealized verify history) k
    ((empty verify).log k history)
  := by
  induction history using List.reverseRecOn with
  | nil =>
      constructor
      · rintro machine ⟨⟩
      · intro _
        rfl
  | append_singleton before a ih =>
      have hsession : ((empty verify).after before).project.session.Addressed := by
        rw [project_after]
        exact Project.addressed_run verify _
      have hmore : ∀ t, HasRealized verify before t → HasRealized verify (before ++ [a]) t :=
        fun t ⟨earlier, hprefix, ht⟩ => ⟨earlier, hprefix.trans (List.prefix_append _ _), ht⟩
      have hknown : ∀ t ∈ ((empty verify).after before).project.session.types,
          HasRealized verify (before ++ [a]) t :=
        fun t ht => ⟨before, List.prefix_append _ _, hsession.types t ht⟩
      rw [after_append, log_append]
      have hlog : ((empty verify).after before).log k [a]
          = ((empty verify).after before).events k a := List.append_nil _
      rw [hlog]
      exact Accounted.act ⟨fun machine hmachine => (ih.ledger machine hmachine).mono hmore, ih.none⟩
        hsession hknown a

end World

/-- A machine takes the static side of a type as set up: an instruction that needs it goes on at
once, and so does the host, who finds the slots and gets objects. -/
structure Machine.HasSetUp (machine : Machine) (t : RealizedType) : Prop where
  program : ∀ (session : Session) (e : Execution) (f : Frame) (callers : List Frame)
    (rest : Deferred), e.machine = machine →
      e.prepare session f callers t.id rest = e.perform f callers rest
  slots : ∀ slot < t.staticDefaults.length, (∃ v, machine.static t.id slot = .ok v)
    ∧ ∀ v, ∃ machine', machine.setStatic t.id slot v = .ok machine'
  host : ∀ (session : Session) (heap : Heap),
    (Host.initializeType session t.id).exec ⟨machine, heap⟩ = (.ok (), ⟨machine, heap⟩)
  reads : ∀ (session : Session) (heap : Heap) (id : TypeId) (name : String)
    (field : RealizedField) (slot : Nat), session.fieldNamed id name = .ok field →
      field.slot = .static slot → field.handle.owner = t.id → slot < t.staticDefaults.length →
      ∃ v, (Host.readStaticField session id name).exec ⟨machine, heap⟩ = (.ok v, ⟨machine, heap⟩)
  calls : ∀ (session : Session) (heap : Heap) (m : RealizedMethod) (receiver : Option Value)
    (args bound : List Value) (typeArgs : List TypeRef), m.isStatic = true →
      m.handle.owner = t.id → m.bindArguments args = .ok bound →
      (Host.callResolved session m receiver args typeArgs).exec ⟨machine, heap⟩
        = ExceptT.exec (do
            let result ← Host.execute session m bound typeArgs
            return result.coerceTo (m.returnType.substitute m.genericParams typeArgs) : Host Value)
          ⟨machine, heap⟩
  makes : ∀ (session : Session) (heap : Heap), t.isInstantiable = true →
    ∃ r heap', (Host.makeObject session t).exec ⟨machine, heap⟩
      = (.ok (.object r), ⟨machine, heap'⟩)

/-- A type whose slots have been created has been set up. -/
theorem Ledger.hasSetUp {Known : RealizedType → Prop} {runs : Bool} {log : StaticLog}
    {machine : Machine} {t : RealizedType} (h : Ledger Known runs log machine)
    (ht : .creates t ∈ log) :
  machine.HasSetUp t
  := by
  have hmarked : machine.initialized.contains t.id = true :=
    List.contains_iff_mem.mpr (h.created _ (mem_created ht))
  have hprepare : ∀ session, machine.prepare session t.id = (.ok none, machine) := by
    intro session
    rw [Machine.prepare, if_pos hmarked]
  obtain ⟨slots, hmem, hlength⟩ := exists_slots ht
  have hslots : machine.statics.lookup t.id = some slots := by
    apply lookup_of_nodup h.nodup
    rw [h.statics]
    exact hmem
  have hhost : ∀ session heap,
      (Host.initializeType session t.id).exec ⟨machine, heap⟩ = (.ok (), ⟨machine, heap⟩) := by
    intro session heap
    rw [Host.exec_initializeType, hprepare]
    rfl
  have hread : ∀ slot < t.staticDefaults.length, ∃ v, machine.static t.id slot = .ok v := by
    intro slot hlt
    rw [← hlength] at hlt
    refine ⟨slots[slot], ?_⟩
    rw [Machine.static, hslots, Option.bind_some, List.getElem?_eq_getElem hlt]
  constructor
  case program =>
    rintro session e f callers rest rfl
    rw [Execution.prepare, hprepare]
  case slots =>
    intro slot hlt
    refine ⟨hread slot hlt, ?_⟩
    rw [← hlength] at hlt
    intro v
    rw [Machine.setStatic, hslots]
    exact ⟨_, if_pos hlt⟩
  case host => exact hhost
  case reads =>
    intro session heap id name field slot hfield hslot howner hlt
    obtain ⟨v, hv⟩ := hread slot hlt
    refine ⟨v.coerceTo field.type, ?_⟩
    rw [Host.readStaticField_eq hfield hslot, howner, exec_bind, hhost]
    change ExceptT.exec (do
      let v ← Host.lift (machine.static t.id slot)
      return v.coerceTo field.type : Host Value) ⟨machine, heap⟩ = _
    rw [hv]
    rfl
  case calls =>
    intro session heap m receiver args bound typeArgs hstatic howner hbound
    have hcall : Host.callResolved session m receiver args typeArgs = do
        Host.initializeType session m.handle.owner
        let result ← Host.execute session m bound typeArgs
        return result.coerceTo (m.returnType.substitute m.genericParams typeArgs) := by
      rw [Host.callResolved, hbound, hstatic]
      rfl
    rw [hcall, howner, exec_bind, hhost]
  case makes =>
    intro session heap hinstantiable
    rw [Host.makeObject_eq hinstantiable, exec_bind, hhost]
    exact ⟨_, _, rfl⟩

namespace World

/-- When the initializer of a type has been started, it is never started again, and the slots of
the type are never created again.  From then on the machine takes the type as set up, whether its
initializer has returned or has failed. -/
theorem initialized_after
    (verify : Bool) (before later : List (Act ρ)) {k : Nat} {t : RealizedType} {m : RealizedMethod}
    (hstarted : .starts t m ∈ (empty verify).log k before) :
  (∀ u, .creates u ∈ ((empty verify).after before).log k later → u.id ≠ t.id)
  ∧ (∀ u m', .starts u m' ∈ ((empty verify).after before).log k later → u.id ≠ t.id)
  ∧ ∀ machine, ((empty verify).after (before ++ later)).machines[k]? = some machine →
      machine.HasSetUp t
  := by
  have hbefore := accounted_after verify before k
  have hall := accounted_after verify (before ++ later) k
  obtain ⟨earlier, hearlier⟩ := hbefore.exists_ledger hstarted
  have hcreated := hearlier.orderly.creates_of_starts hstarted
  rw [log_append] at hall
  obtain ⟨machine, hledger⟩ := hall.exists_ledger (List.mem_append_left _ hcreated)
  have horderly := hledger.orderly
  refine ⟨?_, ?_, ?_⟩
  · intro u hu hsame
    have hnodup := horderly.created
    rw [created, List.filterMap_append] at hnodup
    exact (List.nodup_append.mp hnodup).2.2 _ (mem_created hcreated) _ (mem_created hu) hsame.symm
  · intro u m' hu hsame
    have hnodup := horderly.started
    rw [started, List.filterMap_append] at hnodup
    exact (List.nodup_append.mp hnodup).2.2 _ (mem_started hstarted) _ (mem_started hu) hsame.symm
  · intro machine hk
    exact (hall.ledger machine hk).hasSetUp (List.mem_append_left _ hcreated)

/-- A class whose initializer stores into a static field, and then divides by zero. -/
def failing : List (Act Unit) :=
  [ .session (.build (.openUnit "A")),
    .session (.build (.change 0 (.declareType "T" .classType {} none))),
    .session (.build (.change 0
      (.defineField ⟨1⟩ "X" (.primitive .i32) { modifier := .isStatic }))),
    .session (.build (.change 0 (.defineConstructor ⟨1⟩ { isStatic := true }
      (.generate fun _ e =>
        .ok ((((((e.loadI32 5).emitField .stsfld ⟨⟨1⟩, 0⟩).loadI32 1).loadI32 0).emit
          (.binary .div)).emit .pop |>.emit .ret, []))))),
    .session (.build (.change 0 .finalize)),
    .machine {} true ]

/-- The host reads the field. -/
def reading : Act Unit :=
  .call 0 (.readStaticField ⟨1⟩ "X")

/-- The host that reads the field is told that the initializer has failed, but the machine takes the
class as set up, and the next time the host gets what the initializer has stored. -/
theorem initialized_of_failing :
  (((empty true).after failing).answer? 0 (.readStaticField ⟨1⟩ "X")).map (·.1)
      = some (.error (.fault .divideByZero))
  ∧ (∃ t m, .starts t m ∈ (empty true).log 0 (failing ++ [reading])
      ∧ ∀ machine, ((empty true).after (failing ++ [reading])).machines[0]? = some machine →
        machine.HasSetUp t)
  ∧ (((empty true).after (failing ++ [reading])).answer? 0 (.readStaticField ⟨1⟩ "X")).map (·.1)
      = some (.ok (.i32 5))
  := by
  refine ⟨rfl, ?_, rfl⟩
  have hstarted : ⟨1⟩ ∈ ((empty true).log 0 (failing ++ [reading])).started := by decide +kernel
  obtain ⟨t, m, hmem, -⟩ := exists_starts hstarted
  obtain ⟨-, -, hsetup⟩ := initialized_after true (failing ++ [reading]) [] hmem
  rw [List.append_nil] at hsetup
  exact ⟨t, m, hmem, hsetup⟩

/-- It is not so that a static field cannot be read when the initializer of its type has failed. -/
theorem not_initializers_completed :
  ¬ ∀ (history : List (Act Unit)) (k : Nat) (id : TypeId) (name : String) (machine : Machine)
      (l : Launch) (halt : Halt),
      ((empty true).after history).machines[k]? = some machine →
      l ∈ (HostCall.readStaticField id name).launches ((empty true).after history).project.session
        ⟨machine, ((empty true).after history).heap⟩ →
      (l.status ((empty true).after history).project.session).answer = .error halt →
      ∀ v, (((empty true).after (history ++ [.call k (.readStaticField id name)])).answer? k
        (.readStaticField id name)).map (·.1) ≠ some (.ok v)
  := by
  intro hall
  exact hall failing 0 ⟨1⟩ "X" _ _ _ rfl (List.mem_singleton_self _) rfl (.i32 5) rfl

end World

end ManagedCode
