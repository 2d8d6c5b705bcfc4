import ManagedCode.Proofs.Assembly.Lifetimes
import ManagedCode.Proofs.Machine.HostCalls

/-!
# Worlds

Everything that a host can set up and do: a session that is built, several machines that work in
it, and the heap that they share, on which the host also makes objects and arrays of its own
(`World`).  A host acts on a world, and after some acts there is a world again
(`World.after`).  What the acts of a host do to the project is a lifetime of its session
(`World.project_after`).

A call of the host keeps what its runs keep and what is kept when it sets up a type, makes an
object and writes a slot (`HostState.Stable.perform`).  It halts only for the reasons for which its
runs do, or with a fault (`HostState.Confined.perform`).
-/

namespace ManagedCode

variable {ρ : Type}

/-! ## What calls of the host keep -/

/-- A property of a machine and its heap that is kept when a type is set up, when a method runs,
when an object is made and when the host writes a slot. -/
structure HostState.Stable (session : Session) (P : HostState → Prop) : Prop where
  prepare : ∀ {host : HostState} (id : TypeId), P host →
    P { host with machine := (host.machine.prepare session id).2 }
  run : ∀ {l : Launch}, P l.host → P (l.status session).host
  setStatic : ∀ {host : HostState} {machine : Machine} {id : TypeId} {slot : Nat} {v : Value},
    P host → host.machine.setStatic id slot v.toStack = .ok machine →
    P { host with machine := machine }
  allocObject : ∀ {host : HostState} (t : RealizedType), P host →
    P { host with heap := (host.heap.allocObject t.id (t.instanceDefaults.map Value.toStack)).2 }
  setSlot : ∀ {host : HostState} {heap : Heap} {r : ObjectRef} {slot : Nat} {v : Value},
    P host → host.heap.setSlot r slot v.toStack = .ok heap → P { host with heap := heap }

/-- Moreover, a run that starts with the property halts only for certain reasons, faults among
them. -/
structure HostState.Confined (session : Session) (P : HostState → Prop) (reason : Halt → Prop) :
    Prop extends HostState.Stable session P where
  fault : ∀ error, reason (.fault error)
  halts : ∀ {l : Launch} {halt : Halt}, P l.host →
    (l.status session).answer = .error halt → reason halt

/-- A property that runs keep says nothing about how they end. -/
theorem HostState.Stable.confined
    {session : Session} {P : HostState → Prop} (hP : HostState.Stable session P) :
  HostState.Confined session P fun _ => True
  := { hP with
    fault := fun _ => trivial
    halts := fun _ _ => trivial }

namespace Host

variable {session : Session} {P : HostState → Prop} {reason : Halt → Prop} {α β : Type}
  {host : HostState}

/-- An operation of the host keeps a property of the state. -/
def Keeps (P : HostState → Prop) (x : Host α) : Prop :=
  ∀ host, P host → P (x.exec host).2

/-- An operation of the host keeps a property of the state, and halts only for certain reasons. -/
def Stays (P : HostState → Prop) (reason : Halt → Prop) (x : Host α) : Prop :=
  ∀ host, P host → P (x.exec host).2 ∧ ∀ halt, (x.exec host).1 = .error halt → reason halt

namespace Stays

/-- What an operation stays within is kept. -/
theorem keeps {x : Host α} (hx : Stays P reason x) : Keeps P x :=
  fun host h => (hx host h).1

/-- An answer is no reason to halt. -/
theorem of_ok {a : α} (halt : Halt) (hhalt : (.ok a : Except Halt α) = .error halt) :
  reason halt
  := by
  cases hhalt

/-- An answer changes nothing. -/
theorem pure (a : α) : Stays P reason (Pure.pure a : Host α) :=
  fun _ h => ⟨h, of_ok⟩

/-- A fault halts for one of the reasons. -/
theorem fault (hP : HostState.Confined session P reason) (error : Fault) :
  Stays P reason (Host.fault error : Host α)
  := by
  intro host h
  refine ⟨h, ?_⟩
  rintro halt ⟨⟩
  exact hP.fault error

/-- So does a failed answer. -/
theorem lift (hP : HostState.Confined session P reason) (r : Except Fault α) :
  Stays P reason (Host.lift r)
  := by
  cases r with
  | ok a => exact .pure a
  | error error => exact .fault hP error

/-- Operations may follow each other. -/
theorem bind {x : Host α} {k : α → Host β}
    (hx : Stays P reason x) (hk : ∀ a, Stays P reason (k a)) :
  Stays P reason (x >>= k)
  := by
  intro host h
  have hfirst := hx host h
  rw [exec_bind]
  cases hexec : x.exec host with
  | mk answer host' =>
      rw [hexec] at hfirst
      cases answer with
      | ok a => exact hk a host' hfirst.1
      | error halt =>
          refine ⟨hfirst.1, ?_⟩
          rintro halt' ⟨⟩
          exact hfirst.2 halt rfl

theorem lift_bind (hP : HostState.Confined session P reason) {r : Except Fault α}
    {k : α → Host β} (hk : ∀ a, Stays P reason (k a)) :
  Stays P reason (Host.lift r >>= k)
  := (lift hP r).bind hk

/-- An operation that goes on from the state that it finds. -/
theorem get {k : HostState → Host α}
    (hk : ∀ host, P host → P ((k host).exec host).2
      ∧ ∀ halt, ((k host).exec host).1 = .error halt → reason halt) :
  Stays P reason (MonadState.get >>= k)
  := hk

end Stays

open Stays

/-- A run stays within what its launch has. -/
theorem stays_execute (hP : HostState.Confined session P reason) (m : RealizedMethod) (args : List Value)
    (typeArgs : List TypeRef) :
  Stays P reason (execute session m args typeArgs)
  := by
  intro host h
  rw [exec_execute]
  split
  · exact Stays.fault hP _ host h
  · let l : Launch := ⟨host, m, args, typeArgs⟩
    exact ⟨hP.run (l := l) h, fun halt => hP.halts (l := l) h⟩

/-- So does setting up a type, whose initializer may run. -/
theorem stays_initializeType (hP : HostState.Confined session P reason) (id : TypeId) :
  Stays P reason (initializeType session id)
  := by
  apply Stays.get
  intro host h
  refine (Stays.lift_bind hP fun initializer => ?_ : Stays P reason _) _ (hP.prepare id h)
  cases initializer with
  | none => exact .pure _
  | some m => exact (stays_execute hP m [] []).bind fun _ => .pure _

/-- So does making an object. -/
theorem stays_makeObject (hP : HostState.Confined session P reason) (t : RealizedType) :
  Stays P reason (makeObject session t)
  := by
  rw [makeObject]
  split
  · exact .fault hP _
  · apply (stays_initializeType hP t.id).bind
    intro _
    apply Stays.get
    intro host h
    exact ⟨hP.allocObject t h, Stays.of_ok⟩

/-- So does constructing one. -/
theorem stays_construct (hP : HostState.Confined session P reason) (t : RealizedType)
    (constructor : RealizedMethod) (args : List Value) :
  Stays P reason (construct session t constructor args)
  := by
  apply (stays_makeObject hP t).bind
  intro object
  apply Stays.lift_bind hP
  intro bound
  exact (stays_execute hP constructor (object :: bound) []).bind fun _ => .pure _

/-- So does a call of a method. -/
theorem stays_callResolved (hP : HostState.Confined session P reason) (m : RealizedMethod)
    (receiver : Option Value) (args : List Value) (typeArgs : List TypeRef) :
  Stays P reason (callResolved session m receiver args typeArgs)
  := by
  have hrun : ∀ bound, Stays P reason (do
      let result ← execute session m bound typeArgs
      return result.coerceTo (m.returnType.substitute m.genericParams typeArgs) : Host Value) :=
    fun bound => (stays_execute hP m bound typeArgs).bind fun _ => .pure _
  apply Stays.lift_bind hP
  intro bound
  split
  · exact (stays_initializeType hP m.handle.owner).bind fun _ => hrun bound
  · exact Stays.lift_bind hP hrun

/-- So does a call by dispatch. -/
theorem stays_callVirtual (hP : HostState.Confined session P reason) (receiver : Value) (method : MethodRef)
    (args : List Value) :
  Stays P reason (callVirtual session receiver method args)
  := by
  apply Stays.lift_bind hP
  intro declared
  apply Stays.lift_bind hP
  intro target
  exact stays_callResolved hP target (some receiver) args []

/-- So does a call of a method that is named. -/
theorem stays_call (hP : HostState.Confined session P reason) (method : MethodRef) (receiver : Option Value)
    (args : List Value) :
  Stays P reason (call session method receiver args)
  := Stays.lift_bind hP fun m => stays_callResolved hP m receiver args []

/-- Reading a field runs nothing. -/
theorem stays_readField (hP : HostState.Confined session P reason) (receiver : Value) (name : String) :
  Stays P reason (readField session receiver name)
  := by
  apply Stays.lift_bind hP
  intro r
  apply Stays.lift_bind hP
  intro field
  split
  · apply Stays.get
    intro host h
    split
    · exact Stays.pure _ host h
    · exact Stays.fault hP _ host h
  · exact .pure _
  · exact .fault hP _

/-- Nor does writing one. -/
theorem stays_writeField (hP : HostState.Confined session P reason) (receiver : Value) (name : String)
    (v : Value) :
  Stays P reason (writeField session receiver name v)
  := by
  apply Stays.lift_bind hP
  intro r
  apply Stays.lift_bind hP
  intro field
  split
  · apply Stays.get
    intro host h
    split
    · next hset => exact ⟨hP.setSlot h hset, Stays.of_ok⟩
    · exact Stays.fault hP _ host h
  · exact .fault hP _

/-- Reading a static field may run an initializer. -/
theorem stays_readStaticField (hP : HostState.Confined session P reason) (id : TypeId) (name : String) :
  Stays P reason (readStaticField session id name)
  := by
  apply Stays.lift_bind hP
  intro field
  split
  · exact .pure _
  · next slot _ =>
    apply (stays_initializeType hP field.handle.owner).bind
    intro _
    apply Stays.get
    intro host h
    exact (Stays.lift_bind hP fun v => .pure _ : Stays P reason _) host h
  · exact .fault hP _

/-- So may writing one. -/
theorem stays_writeStaticField (hP : HostState.Confined session P reason) (id : TypeId) (name : String)
    (v : Value) :
  Stays P reason (writeStaticField session id name v)
  := by
  apply Stays.lift_bind hP
  intro field
  split
  · next slot _ =>
    apply (stays_initializeType hP field.handle.owner).bind
    intro _
    apply Stays.get
    intro host h
    dsimp only
    cases hset : host.machine.setStatic field.handle.owner slot (v.coerceTo field.type).toStack with
    | ok machine => exact ⟨hP.setStatic h hset, Stays.of_ok⟩
    | error error => exact Stays.fault hP _ host h
  · exact .fault hP _

end Host

open Host in
/-- Every call of the host stays within what runs have, and halts for their reasons. -/
theorem HostState.Confined.perform
    {session : Session} {P : HostState → Prop} {reason : Halt → Prop}
    (hP : HostState.Confined session P reason) (call : HostCall) :
  Host.Stays P reason (call.perform session)
  := by
  cases call with
  | create id args =>
      apply Stays.lift_bind hP
      intro t
      split
      · exact stays_construct hP t _ args
      · exact .fault hP _
  | createWith constructor args =>
      apply Stays.lift_bind hP
      intro t
      apply Stays.lift_bind hP
      intro m
      exact stays_construct hP t m args
  | call method receiver args => exact stays_call hP method receiver args
  | callVirtual receiver method args => exact stays_callVirtual hP receiver method args
  | callByName receiver name args =>
      apply Stays.lift_bind hP
      intro r
      apply Stays.lift_bind hP
      intro declared
      apply Stays.lift_bind hP
      intro target
      exact stays_callResolved hP target (some receiver) args []
  | callStatic id name args =>
      apply Stays.lift_bind hP
      intro t
      dsimp only
      split
      · exact stays_callResolved hP _ none args []
      · exact .fault hP _
  | callGenericMethod method typeArgs receiver args =>
      apply Stays.lift_bind hP
      intro m
      cases receiver with
      | none => exact stays_callResolved hP m none args typeArgs
      | some v =>
          dsimp only
          split
          · exact stays_callResolved hP m (some v) args typeArgs
          · apply Stays.lift_bind hP
            intro target
            exact stays_callResolved hP target (some v) args typeArgs
  | readProperty receiver name =>
      apply Stays.lift_bind hP
      intro r
      apply Stays.lift_bind hP
      intro getter
      exact stays_callVirtual hP receiver getter []
  | writeProperty receiver name v =>
      have hwrite : Host.Stays P reason (writeProperty session receiver name v) := by
        apply Stays.lift_bind hP
        intro r
        apply Stays.lift_bind hP
        intro setter
        exact (stays_callVirtual hP receiver setter [v]).bind fun _ => .pure _
      exact hwrite.bind fun _ => .pure _
  | readStaticProperty id name =>
      apply Stays.lift_bind hP
      intro getter
      exact stays_call hP getter none []
  | writeStaticProperty id name v =>
      have hwrite : Host.Stays P reason (writeStaticProperty session id name v) := by
        apply Stays.lift_bind hP
        intro setter
        exact (stays_call hP setter none [v]).bind fun _ => .pure _
      exact hwrite.bind fun _ => .pure _
  | readField receiver name => exact stays_readField hP receiver name
  | writeField receiver name v => exact (stays_writeField hP receiver name v).bind fun _ => .pure _
  | readStaticField id name => exact stays_readStaticField hP id name
  | writeStaticField id name v =>
      exact (stays_writeStaticField hP id name v).bind fun _ => .pure _

/-- What runs keep, every call of the host keeps. -/
theorem HostState.Stable.perform
    {session : Session} {P : HostState → Prop} (hP : HostState.Stable session P)
    (call : HostCall) :
  Host.Keeps P (call.perform session)
  := (hP.confined.perform call).keeps

namespace Host

variable {session : Session} {P : HostState → Prop} {α : Type} {host : HostState}

/-- A run starts from the machine as it is. -/
theorem launching_host {m : RealizedMethod} {args : List Value} {typeArgs : List TypeRef}
    (h : P host) :
  ∀ l ∈ launching m args typeArgs host, P l.host
  := by
  rw [launching]
  split
  · exact List.forall_mem_singleton.mpr h
  · rintro l ⟨⟩

/-- An initializer runs on a machine with the property. -/
theorem initializing_host (hP : HostState.Stable session P) (id : TypeId) (h : P host) :
  ∀ l ∈ initializing session id host, P l.host
  := by
  have hprepared := hP.prepare id h
  rw [initializing]
  split
  · next hmachine =>
    rw [hmachine] at hprepared
    exact launching_host hprepared
  · rintro l ⟨⟩

/-- So do the runs that follow an operation. -/
theorem followed_host {x : Host α} {next : α → HostState → List Launch} (hx : Keeps P x)
    (h : P host) (hnext : ∀ a host', P host' → ∀ l ∈ next a host', P l.host) :
  ∀ l ∈ followed x next host, P l.host
  := by
  have hfirst := hx host h
  rw [followed]
  split
  · next hexec =>
    rw [hexec] at hfirst
    exact hnext _ _ hfirst
  · rintro l ⟨⟩

end Host

open Host in
/-- What is kept holds whenever a call starts a run. -/
theorem HostState.Stable.launches {session : Session} {P : HostState → Prop}
    (hP : HostState.Stable session P) (call : HostCall) {host : HostState} (h : P host) :
  ∀ l ∈ call.launches session host, P l.host
  := by
  apply forall_answered
  intro plan
  cases plan with
  | answer => rintro l ⟨⟩
  | access owner => exact initializing_host hP owner h
  | construct t constructor args =>
      rw [HostPlan.launches]
      split
      · refine List.forall_mem_append.mpr ⟨initializing_host hP t.id h, ?_⟩
        apply followed_host ((stays_makeObject hP.confined t).keeps) h
        intro object host' h'
        exact forall_answered fun bound => launching_host h'
      · rintro l ⟨⟩
  | invoke m receiver args typeArgs =>
      apply forall_answered
      intro bound
      split
      · refine List.forall_mem_append.mpr ⟨initializing_host hP m.handle.owner h, ?_⟩
        apply followed_host (stays_initializeType hP.confined m.handle.owner).keeps h
        intro _ host' h'
        exact launching_host h'
      · exact forall_answered fun bound => launching_host h

/-! ## Worlds -/

/-- A session with its units, its machines and their heap.  The addresses of the objects that the
host has made itself are kept. -/
structure World where
  project : Project
  machines : List Machine := []
  heap : Heap := {}
  foreign : List Nat := []

/-- What a host can do: build and change the session, make a machine, an object or an array, and
call a machine. -/
inductive Act (ρ : Type) where
  | session (e : HostEvent ρ)
  | machine (limits : Limits) (runInitializers : Bool)
  | object (type : TypeId) (slots : List Value)
  | array (element : TypeRef) (items : Array Value)
  | call (k : Nat) (c : HostCall)

namespace World

/-- What the machine `k` answers a call, with the state that it leaves. -/
def answer? (w : World) (k : Nat) (c : HostCall) : Option (Except Halt Value × HostState) :=
  w.machines[k]?.map fun machine => (c.perform w.project.session).exec ⟨machine, w.heap⟩

/-- The world after a call of the machine `k` has left a state. -/
def left (w : World) (k : Nat) (host : HostState) : World :=
  { w with machines := w.machines.set k host.machine, heap := host.heap }

/-- What a host does to a world: it changes the project, adds a machine, or calls one. -/
def act (w : World) : Act ρ → World
  | .session e => { w with project := w.project.host e }
  | .machine limits runInitializers =>
    { w with machines := w.machines ++ [{ limits := limits, runInitializers := runInitializers }] }
  | .object type slots =>
    { w with
      heap := (w.heap.allocObject type slots).2
      foreign := w.heap.objects.size :: w.foreign }
  | .array element items => { w with heap := (w.heap.allocArray element items).2 }
  | .call k c =>
    match w.answer? k c with
    | some (_, host) => w.left k host
    | none => w

/-- A world in which nothing has been done. -/
def empty (verifyImplementations : Bool) : World :=
  { project := .empty verifyImplementations }

/-- The world after all that the host has done. -/
def after (w : World) (history : List (Act ρ)) : World :=
  history.foldl act w

/-- One list of acts after another. -/
theorem after_append (w : World) (before later : List (Act ρ)) :
  w.after (before ++ later) = (w.after before).after later
  := List.foldl_append

end World

/-- What an act does to the session. -/
def Act.event? : Act ρ → Option (HostEvent ρ)
  | session e => some e
  | _ => none

namespace World

variable {w : World} {k : Nat} {c : HostCall} {machine : Machine}

/-- A call of a machine that there is. -/
theorem act_call (hk : w.machines[k]? = some machine) (c : HostCall) :
  w.act (.call k c : Act ρ)
    = w.left k ((c.perform w.project.session).exec ⟨machine, w.heap⟩).2
  := by
  rw [act, answer?, hk]
  rfl

/-- A call of a machine that there is not does nothing. -/
theorem act_call_none (hk : w.machines[k]? = none) (c : HostCall) :
  w.act (.call k c : Act ρ) = w
  := by
  rw [act, answer?, hk]
  rfl

/-- An act changes the project only by its event. -/
theorem project_act (w : World) (a : Act ρ) :
  (w.act a).project = w.project.run a.event?.toList
  := by
  cases a with
  | call k c =>
      cases hk : w.machines[k]? with
      | none =>
          rw [act_call_none hk]
          rfl
      | some machine =>
          rw [act_call hk]
          rfl
  | _ => rfl

/-- The project has the lifetime that the acts of the host make. -/
theorem project_after (w : World) (history : List (Act ρ)) :
  (w.after history).project = w.project.run (history.filterMap Act.event?)
  := by
  induction history generalizing w with
  | nil => rfl
  | cons a history ih =>
      have hsplit : (a :: history).filterMap Act.event?
          = a.event?.toList ++ history.filterMap Act.event? := by
        rw [List.filterMap_cons]
        cases a.event? <;> rfl
      rw [hsplit, Project.run_append, ← project_act]
      exact ih (w.act a)

/-- The machines after a call: the one that has been called, and the others as they were. -/
theorem getElem?_left (hk : w.machines[k]? = some machine) (host : HostState) (j : Nat) :
  (w.left k host).machines[j]? = if j = k then some host.machine else w.machines[j]?
  := by
  obtain ⟨hlt, -⟩ := List.getElem?_eq_some_iff.mp hk
  rw [left, List.getElem?_set]
  by_cases hj : k = j
  · rw [if_pos hj, if_pos hj.symm, if_pos hlt]
  · rw [if_neg hj, if_neg (Ne.symm hj)]

end World

end ManagedCode
