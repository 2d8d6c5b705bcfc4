import ManagedCode.Proofs.Machine.BackedProperties
import ManagedCode.Proofs.Machine.OwnSlots
import ManagedCode.Proofs.Machine.StaticSlots

/-!
# Properties read as they have been written

A host that writes an automatic property reads the value that it has written, in the form of the
type, as often as it reads the property; and nothing but the field behind the property has changed
(`Project.roundTrip_of_history`).  The value takes the way through the stack twice, which takes it
back to the same form (`Value.coerceTo_toStack_coerceTo`).
-/

namespace ManagedCode

variable {ρ : Type} {session : Session}

/-! ## Calls that are repeated -/

/-- The host with another count of instructions. -/
def HostState.counting (host : HostState) (steps : Nat) : HostState :=
  { host with machine := { host.machine with steps := steps } }

namespace Host

variable {α : Type} {a : α} {call : Host α} {host host' : HostState}

/-- The answers of as many calls, one after the other. -/
def times : Nat → Host α → Host (List α)
  | 0, _ => pure []
  | n + 1, call => do
    let a ← call
    let rest ← times n call
    return a :: rest

/-- However often a call is made, it answers the same and changes nothing but the count of
instructions. -/
def Repeats (call : Host α) (host : HostState) (a : α) : Prop :=
  ∀ n, ∃ steps, (call.times n).exec host = (.ok (List.replicate n a), host.counting steps)

/-- A call repeats its answer if the count of instructions does not matter to it. -/
theorem repeats_of_counting
    (h : ∀ steps, ∃ steps', call.exec (host.counting steps) = (.ok a, host.counting steps')) :
  call.Repeats host a
  := by
  have hfrom (n : Nat) : ∀ steps, ∃ steps', (call.times n).exec (host.counting steps)
      = (.ok (List.replicate n a), host.counting steps') := by
    induction n with
    | zero => exact fun steps => ⟨steps, rfl⟩
    | succ n ih =>
        intro steps
        obtain ⟨steps₁, hone⟩ := h steps
        obtain ⟨steps₂, hrest⟩ := ih steps₁
        refine ⟨steps₂, ?_⟩
        rw [times, exec_bind, hone]
        dsimp only
        rw [exec_bind, hrest]
        rfl
  exact fun n => hfrom n host.machine.steps

end Host

/-! ## Runs of accessors -/

namespace Machine.Assigns

variable {machine machine' : Machine} {id : TypeId} {slot : Nat} {v : Value}

theorem limits (h : Assigns id slot v machine machine') : machine'.limits = machine.limits :=
  (congrArg Machine.limits h.rest :)

theorem counting (h : Assigns id slot v machine machine') (steps : Nat) :
  Assigns id slot v machine { machine' with steps := steps }
  :=
  ⟨h.value, h.others, h.rest⟩

end Machine.Assigns

namespace Host

variable {m : RealizedMethod} {f : RealizedField} {o : ObjectRef} {k : Nat} {v : Value}
  {host host' : HostState}

/-- A getter loads the field of the object. -/
theorem exec_execute_loading
    (hbody : m.callableBody [] = .ok (f.handle.loadingBody false)) (hreturns : m.returnType ≠ .void)
    (hfield : session.fieldAt f.handle = .ok f) (hslot : f.slot = .instance k)
    (hvalue : host.heap.slot? o k = some v) (hallow : host.machine.limits.Allow 1 1 3) :
  (execute session m [.object o] []).exec host = (.ok v.toStack, host.counting 3)
  := by
  let l : Launch := ⟨host, m, [.object o], []⟩
  have hobject : l.Passes session (f.handle.loadingBody false) 1 host [.object o] :=
    Launch.Passes.start.loadArg (v := .object o) hallow (by decide) rfl Nat.zero_lt_one rfl
  have hloaded := hobject.loadField hallow (by decide) rfl Nat.zero_lt_one hfield hslot hvalue
  exact hloaded.exec_execute hbody hallow (by decide) (by decide)
    (Launch.step_ret rfl (fun budget hb => hallow.steps budget hb) hreturns)

/-- A setter that comes to its end has stored its argument into the field of the object. -/
theorem exec_execute_storing
    {u : Value} (hbody : m.callableBody [] = .ok (f.handle.storingBody false))
    (hreturns : m.returnType = .void) (hfield : session.fieldAt f.handle = .ok f)
    (hslot : f.slot = .instance k) (hallow : host.machine.limits.Allow 1 2 4)
    (hok : (execute session m [.object o, v] []).exec host = (.ok u, host')) :
  ∃ heap, host.heap.setSlot o k v.toStack = .ok heap ∧ host' = { host with heap := heap }.counting 4
  := by
  let l : Launch := ⟨host, m, [.object o, v], []⟩
  have hobject : l.Passes session (f.handle.storingBody false) 1 host [.object o] :=
    Launch.Passes.start.loadArg (v := .object o) hallow (by decide) rfl Nat.zero_lt_two rfl
  have hvalue : l.Passes session (f.handle.storingBody false) 2 host [v.toStack, .object o] :=
    hobject.loadArg hallow (by decide) rfl Nat.one_lt_two rfl
  obtain ⟨heap, hset, hstored⟩ | ⟨machine, heap, error, hfailed⟩ :=
    hvalue.storeField hallow (by decide) rfl hfield hslot
  · have hreturned := hstored.exec_execute hbody hallow (by decide) (by decide)
      (Launch.step_ret_void rfl (fun budget hb => hallow.steps budget hb) hreturns)
    exact ⟨heap, hset, (Prod.mk.inj (hok.symm.trans hreturned)).2⟩
  · have hreturned := hvalue.exec_execute hbody hallow (by decide) (by decide) hfailed
    cases (Prod.mk.inj (hok.symm.trans hreturned)).1

/-- A getter loads the static field. -/
theorem exec_execute_loadingStatic
    (hbody : m.callableBody [] = .ok (f.handle.loadingBody true)) (hreturns : m.returnType ≠ .void)
    (hfield : session.fieldAt f.handle = .ok f) (hslot : f.slot = .static k)
    (hmarked : f.handle.owner ∈ host.machine.initialized)
    (hvalue : host.machine.static f.handle.owner k = .ok v)
    (hallow : host.machine.limits.Allow 1 1 2) :
  (execute session m [] []).exec host = (.ok v.toStack, host.counting 2)
  := by
  let l : Launch := ⟨host, m, [], []⟩
  have hloaded : l.Passes session (f.handle.loadingBody true) 1 host [v.toStack] :=
    Launch.Passes.loadStatic hallow (by decide) hfield hslot hmarked .start rfl Nat.zero_lt_one
      hvalue
  exact hloaded.exec_execute hbody hallow (by decide) (by decide)
    (Launch.step_ret rfl (fun budget hb => hallow.steps budget hb) hreturns)

/-- A setter that comes to its end has stored its argument into the static field. -/
theorem exec_execute_storingStatic
    {u : Value} (hbody : m.callableBody [] = .ok (f.handle.storingBody true))
    (hreturns : m.returnType = .void) (hfield : session.fieldAt f.handle = .ok f)
    (hslot : f.slot = .static k) (hmarked : f.handle.owner ∈ host.machine.initialized)
    (hallow : host.machine.limits.Allow 1 1 3)
    (hok : (execute session m [v] []).exec host = (.ok u, host')) :
  host'.heap = host.heap
    ∧ Machine.Assigns f.handle.owner k v.toStack host.machine host'.machine
  := by
  let l : Launch := ⟨host, m, [v], []⟩
  have hvalue : l.Passes session (f.handle.storingBody true) 1 host [v.toStack] :=
    Launch.Passes.start.loadArg hallow (by decide) rfl Nat.zero_lt_one rfl
  obtain ⟨machine, hassigns, hstored⟩ | ⟨machine, heap, error, hfailed⟩ :=
    Launch.Passes.storeStatic hallow (by decide) hfield hslot hmarked hvalue rfl
  · have hlimits := hassigns.limits
    have hreturned := hstored.exec_execute hbody hallow (by decide) (by decide)
      (Launch.step_ret_void rfl (hlimits ▸ fun budget hb => hallow.steps budget hb) hreturns)
    obtain rfl := (Prod.mk.inj (hok.symm.trans hreturned)).2
    exact ⟨rfl, hassigns.counting 3⟩
  · have hreturned := hvalue.exec_execute hbody hallow (by decide) (by decide) hfailed
    cases (Prod.mk.inj (hok.symm.trans hreturned)).1

end Host

/-! ## Accesses by hosts -/

theorem RealizedMethod.Presents.callableBody
    {m : RealizedMethod} {params : List Parameter} {returnType : TypeRef}
    {attributes : MethodAttributes} {body : MethodBody}
    (h : m.Presents params returnType attributes body) (habstract : m.isAbstract = false) :
  m.callableBody [] = .ok body
  :=
  RealizedMethod.callableBody_eq (h.body habstract) habstract
    (congrArg List.length h.genericParams).symm

/-- What a host names a property on: an object, or a type for the property of the type itself. -/
inductive Holder where
  | object (r : ObjectRef)
  | type (id : TypeId)

namespace Holder

/-- The type where a property is looked for first. -/
def id : Holder → TypeId
  | object r => r.type
  | type id => id

/-- The value that the accessors get as their receiver. -/
def receiver : Holder → Option Value
  | object r => some (.object r)
  | type _ => none

def read (session : Session) (name : String) : Holder → Host Value
  | object r => Host.readProperty session (.object r) name
  | type id => Host.readStaticProperty session id name

def write (session : Session) (name : String) (v : Value) : Holder → Host Unit
  | object r => Host.writeProperty session (.object r) name v
  | type id => Host.writeStaticProperty session id name v

end Holder

namespace Session.Backs

variable {c : TypeId} {name : String} {t : TypeRef} {spec : PropertySpec ρ} {f : RealizedField}
  {getter setter : RealizedMethod} {x : Holder} {v : Value} {host host' : HostState} {k : Nat}

section

variable (h : session.Backs c name t spec f getter setter) (hx : x.id = c)

include h hx

/-- Reading a property calls its getter. -/
theorem read_eq
    (hown : ∀ r : ObjectRef, r.type = c → session.dispatch (.object r) getter = .ok getter) :
  x.read session name = Host.callResolved session getter x.receiver [] []
  := by
  have hgetter : session.getterOf x.id name = .ok getter.handle := hx ▸ h.getterOf
  cases x with
  | object r =>
      have hgetter : session.getterOf r.type name = .ok getter.handle := hgetter
      rw [Holder.read, Host.readProperty]
      simp only [Value.receiver, Host.lift, pure_bind, hgetter, Host.callVirtual, h.getterAt,
        hown r hx]
      rfl
  | type id =>
      have hgetter : session.getterOf id name = .ok getter.handle := hgetter
      rw [Holder.read, Host.readStaticProperty]
      simp only [Host.lift, pure_bind, hgetter, Host.call, h.getterAt]
      rfl

/-- Writing a property calls its setter. -/
theorem write_eq
    (hown : ∀ r : ObjectRef, r.type = c → session.dispatch (.object r) setter = .ok setter)
    (v : Value) :
  x.write session name v = discard (Host.callResolved session setter x.receiver [v] [])
  := by
  have hsetter : session.setterOf x.id name = .ok setter.handle := hx ▸ h.setterOf
  cases x with
  | object r =>
      have hsetter : session.setterOf r.type name = .ok setter.handle := hsetter
      rw [Holder.write, Host.writeProperty]
      simp only [Value.receiver, Host.lift, pure_bind, hsetter, Host.callVirtual, h.setterAt,
        hown r hx]
      rfl
  | type id =>
      have hsetter : session.setterOf id name = .ok setter.handle := hsetter
      rw [Holder.write, Host.writeStaticProperty]
      simp only [Host.lift, pure_bind, hsetter, Host.call, h.setterAt]
      rfl

end

/-- The accessors are abstract together. -/
theorem isAbstract_eq (h : session.Backs c name t spec f getter setter) :
  getter.isAbstract = setter.isAbstract
  := by
  rw [RealizedMethod.isAbstract, h.loads.attributes, RealizedMethod.isAbstract,
    h.stores.attributes]

theorem isStatic_eq (h : session.Backs c name t spec f getter setter) :
  getter.isStatic = (spec.modifier == .isStatic) ∧ setter.isStatic = (spec.modifier == .isStatic)
  := by
  rw [RealizedMethod.isStatic, h.loads.attributes, RealizedMethod.isStatic, h.stores.attributes]
  exact ⟨spec.accessorAttributes_isStatic, spec.accessorAttributes_isStatic⟩

theorem getter_bind (h : session.Backs c name t spec f getter setter) :
  getter.bindArguments [] = .ok []
  := by
  rw [RealizedMethod.bindArguments, h.loads.params]
  rfl

theorem setter_bind (h : session.Backs c name t spec f getter setter) (v : Value) :
  setter.bindArguments [v] = .ok [(v.coerceTo t).toStack]
  := by
  rw [RealizedMethod.bindArguments, h.stores.params]
  rfl

section

variable (h : session.Backs c name t spec f getter setter) (hvoid : t ≠ .void)
  (hgeneric : t.isGeneric = false) (hfits : v.fits t = true) (hx : x.id = c)

include h hvoid hgeneric hfits hx

/-- A property of an object is read from the slot of the field. -/
theorem repeats_object
    {o : ObjectRef} (hinstance : (spec.modifier == .isStatic) = false)
    (hown : ∀ r : ObjectRef, r.type = c → session.dispatch (.object r) getter = .ok getter)
    (habstract : getter.isAbstract = false) (ho : x = .object o) (hslot : f.slot = .instance k)
    (hvalue : host.heap.slot? o k = some (v.coerceTo t).toStack)
    (hallow : host.machine.limits.Allow 1 1 3) :
  (x.read session name).Repeats host (v.coerceTo t)
  := by
  have hreturns := h.loads.returnType
  have hcallable := h.loads.callableBody habstract
  rw [hinstance] at hcallable
  rw [h.read_eq hx hown, ho]
  apply Host.repeats_of_counting
  intro steps
  refine ⟨3, ?_⟩
  have hbound : (Host.arguments session getter (some (.object o)) []).exec (host.counting steps)
      = (.ok [.object o], host.counting steps) :=
    Host.exec_arguments_object (h.isStatic_eq.1.trans hinstance) h.getter_bind
  have hloaded : (Host.execute session getter [.object o] []).exec (host.counting steps)
      = (.ok (v.coerceTo t).toStack.toStack, host.counting 3) :=
    Host.exec_execute_loading hcallable (hreturns ▸ hvoid) h.fieldAt hslot hvalue hallow
  rw [Holder.receiver, Host.exec_callResolved_of_execute hbound hloaded, hreturns,
    Value.coerceTo_substitute hgeneric, Value.toStack_toStack,
    Value.coerceTo_toStack_coerceTo hgeneric hfits]

/-- A property of the type is read from the slot of the static field, once the type has been set
up. -/
theorem repeats_static
    (hstatic : (spec.modifier == .isStatic) = true)
    (hown : ∀ r : ObjectRef, r.type = c → session.dispatch (.object r) getter = .ok getter)
    (habstract : getter.isAbstract = false) (hslot : f.slot = .static k)
    (hmarked : c ∈ host.machine.initialized)
    (hvalue : host.machine.static c k = .ok (v.coerceTo t).toStack)
    (hallow : host.machine.limits.Allow 1 1 2) :
  (x.read session name).Repeats host (v.coerceTo t)
  := by
  have hreturns := h.loads.returnType
  have hcallable := h.loads.callableBody habstract
  rw [hstatic] at hcallable
  rw [h.read_eq hx hown]
  apply Host.repeats_of_counting
  intro steps
  refine ⟨2, ?_⟩
  have hsetup : (Host.initializeType session getter.handle.owner).exec (host.counting steps)
      = (.ok (), host.counting steps) := by
    rw [h.getterOwner]
    exact Host.exec_initializeType_of_marked session hmarked
  have hbound : (Host.arguments session getter x.receiver []).exec (host.counting steps)
      = (.ok [], host.counting steps) :=
    Host.exec_arguments_static (h.isStatic_eq.1.trans hstatic) h.getter_bind hsetup
  have hloaded : (Host.execute session getter [] []).exec (host.counting steps)
      = (.ok (v.coerceTo t).toStack.toStack, host.counting 2) :=
    Host.exec_execute_loadingStatic hcallable (hreturns ▸ hvoid) h.fieldAt hslot
      (h.owner ▸ hmarked) (h.owner ▸ hvalue) hallow
  rw [Host.exec_callResolved_of_execute hbound hloaded, hreturns,
    Value.coerceTo_substitute hgeneric, Value.toStack_toStack,
    Value.coerceTo_toStack_coerceTo hgeneric hfits]

end

section

variable (h : session.Backs c name t spec f getter setter) (hx : x.id = c)
  (hown : ∀ r : ObjectRef, r.type = c → session.dispatch (.object r) setter = .ok setter)
  (hwrite : (x.write session name v).exec host = (.ok (), host'))

include h hx hown hwrite

/-- What a host has written to a property, the setter has been run with. -/
theorem exists_of_write :
  ∃ bound host₀ u, (Host.arguments session setter x.receiver [v]).exec host = (.ok bound, host₀)
    ∧ (Host.execute session setter bound []).exec host₀ = (.ok u, host')
    ∧ setter.callableBody [] = .ok (f.handle.storingBody (spec.modifier == .isStatic))
    ∧ getter.isAbstract = false
  := by
  rw [h.write_eq hx hown] at hwrite
  obtain ⟨u, host₁, hcall, hrest⟩ := exists_of_exec_bind_ok hwrite
  cases hrest
  obtain ⟨bound, host₀, u', hbound, hexecute⟩ := Host.exists_of_callResolved hcall
  have habstract := Host.isAbstract_of_execute hexecute
  exact ⟨bound, host₀, u', hbound, hexecute, h.stores.callableBody habstract,
    h.isAbstract_eq.trans habstract⟩

/-- A property of an object is written to the slot of the field. -/
theorem stored_object
    {o : ObjectRef} (hinstance : (spec.modifier == .isStatic) = false)
    (ho : x = .object o) (hslot : f.slot = .instance k)
    (hallow : host.machine.limits.Allow 1 2 4) :
  ∃ heap, host.heap.setSlot o k (v.coerceTo t).toStack = .ok heap
    ∧ host' = { host with heap := heap }.counting 4 ∧ getter.isAbstract = false
  := by
  obtain ⟨bound, host₀, u, hbound, hexecute, hcallable, habstract⟩ :=
    h.exists_of_write hx hown hwrite
  subst ho
  rw [hinstance] at hcallable
  have harguments : (Host.arguments session setter (some (.object o)) [v]).exec host
      = (.ok [.object o, (v.coerceTo t).toStack], host) :=
    Host.exec_arguments_object (h.isStatic_eq.2.trans hinstance) (h.setter_bind v)
  cases hbound.symm.trans harguments
  obtain ⟨heap, hset, hhost⟩ := Host.exec_execute_storing hcallable h.stores.returnType h.fieldAt
    hslot hallow hexecute
  rw [Value.toStack_toStack] at hset
  exact ⟨heap, hset, hhost, habstract⟩

/-- A property of the type is written to the slot of the static field, after the type has been set
up. -/
theorem stored_static
    (hstatic : (spec.modifier == .isStatic) = true) (hslot : f.slot = .static k)
    (hallow : host.machine.limits.Allow 1 1 3) :
  ∃ host₀, (Host.initializeType session c).exec host = (.ok (), host₀)
    ∧ host₀.machine.limits = host.machine.limits ∧ host'.heap = host₀.heap
    ∧ Machine.Assigns c k (v.coerceTo t).toStack host₀.machine host'.machine
    ∧ getter.isAbstract = false
  := by
  obtain ⟨bound, host₀, u, hbound, hexecute, hcallable, habstract⟩ :=
    h.exists_of_write hx hown hwrite
  rw [hstatic] at hcallable
  obtain ⟨given, hgiven, ⟨-, rfl, hsetup⟩ | ⟨hnot, -⟩⟩ := Host.exists_of_arguments hbound
  rotate_left
  · rw [h.isStatic_eq.2.trans hstatic] at hnot
    cases hnot
  rw [h.setter_bind] at hgiven
  cases hgiven
  rw [h.setterOwner] at hsetup
  have hmarked := Host.initialized_of_initializeType hsetup
  have hlimits := Host.arguments_limits hbound
  obtain ⟨hheap, hassigns⟩ := Host.exec_execute_storingStatic hcallable h.stores.returnType
    h.fieldAt hslot (h.owner ▸ hmarked) (hlimits ▸ hallow) hexecute
  rw [h.owner, Value.toStack_toStack] at hassigns
  exact ⟨host₀, hsetup, hlimits, hheap, hassigns, habstract⟩

end

end Session.Backs

/-! ## Throughout a session -/

/-- Only for a realized type something is found along base links. -/
theorem Session.realized_of_findAt
    {s : Session} {id : TypeId} {member : String} {α : Type} {f : RealizedType → Option α} {a : α}
    (h : s.findAt id member f = .ok a) :
  ∃ t, s.realized? id = some t
  := by
  cases hnone : s.realized? id with
  | some t => exact ⟨t, rfl⟩
  | none =>
      rw [findAt, findOnLineage, lineage, lineageFrom, hnone] at h
      cases h

/-- Only properties of realized types can be written. -/
theorem Holder.realized_of_write
    {x : Holder} {name : String} {v : Value} {host host' : HostState}
    (h : (x.write session name v).exec host = (.ok (), host')) :
  ∃ t, session.realized? x.id = some t
  := by
  cases x with
  | object r =>
      obtain ⟨r', host₁, hlifted, hrest⟩ := exists_of_exec_bind_ok h
      obtain ⟨⟨⟩, rfl⟩ := Host.exec_lift_ok hlifted
      obtain ⟨setter, host₂, hlifted, -⟩ := exists_of_exec_bind_ok hrest
      exact Session.realized_of_findAt (Host.exec_lift_ok hlifted).1
  | type id =>
      obtain ⟨setter, host₁, hlifted, -⟩ := exists_of_exec_bind_ok h
      exact Session.realized_of_findAt (Host.exec_lift_ok hlifted).1

namespace Project

/-- A method is declared to override and to implement no other one. -/
def StandsAlone (p : Project) (m : MethodRef) : Prop :=
  ∀ decl, p.methodDecl? m = some decl → decl.overrides = none ∧ decl.baseSlot = none

theorem StandsAlone.unlinked {p : Project} {m : MethodRef} (h : p.StandsAlone m) (b : MethodRef) :
  ¬ p.LinksTo m b
  := by
  rintro ⟨decl, hdecl, hlink⟩
  rw [(h decl hdecl).2] at hlink
  cases hlink

section

variable (verify : Bool) (before later : List (HostEvent ρ)) {i k : Nat} {a : Assembly}
  {c : TypeId} {name : String} {t : TypeRef} {spec : PropertySpec ρ} {g s : MethodRef}
  {f : FieldRef} {remarks : List ρ} {w' : Workspace}
  (ha : ((empty verify).run before).units[i]? = some a) (hauto : spec.accessors = .auto true)
  (hdefine : (Build.defineProperty c name t spec).exec
      { session := ((empty verify).run before).session, assembly := a }
    = (.ok (⟨c, k, some g, some s, some f⟩, remarks), w'))
  (hkept : ∀ e ∈ later, ¬ e.Replaces g ∧ ¬ e.Replaces s)
  (history : List (HostEvent ρ))
  (hhistory : history = before ++ .build (.change i (.defineProperty c name t spec)) :: later)
  (p : Project) (hp : p = (empty verify).run history)
  (hrise : p.LinksRise p.session.types) (halone : p.StandsAlone g ∧ p.StandsAlone s)

include ha hauto hdefine hkept hhistory hp hrise halone

/-- A host that accesses an automatic property of a class calls the accessors that have been made
for it. -/
theorem backs_of_history {u : RealizedType} (hu : u ∈ p.session.types) (hid : u.id = c) :
  t ≠ .void ∧ ∃ field getter setter, p.session.Backs c name t spec field getter setter
    ∧ field.handle = f
    ∧ (∀ r : ObjectRef, r.type = c → p.session.dispatch (.object r) getter = .ok getter)
    ∧ ∀ r : ObjectRef, r.type = c → p.session.dispatch (.object r) setter = .ok setter
  := by
  subst hp hhistory
  have hlayered := stacked_run verify
    (before ++ .build (.change i (.defineProperty c name t spec)) :: later)
  have hsound := (sound_empty verify).run
    (before ++ .build (.change i (.defineProperty c name t spec)) :: later)
  obtain ⟨hg, hs, hf, hvoid, d, hd, hproperty⟩ :=
    autoProperty_of_history verify before later ha hauto hdefine hkept
  subst hid
  obtain ⟨gowner, g⟩ := g
  obtain ⟨sowner, s⟩ := s
  obtain ⟨fowner, f⟩ := f
  obtain rfl : gowner = u.id := hg
  obtain rfl : sowner = u.id := hs
  obtain rfl : fowner = u.id := hf
  have hplain : ∀ k, k = g ∨ k = s → ∀ m, d.methods[k]? = some m →
      m.overrides = none ∧ m.baseSlot = none := by
    intro k hk m hm
    have hdecl : Project.methodDecl? _ ⟨u.id, k⟩ = some m :=
      Option.bind_eq_some_iff.mpr ⟨d, hd, hm⟩
    obtain rfl | rfl := hk
    · exact halone.1 m hdecl
    · exact halone.2 m hdecl
  obtain ⟨field, getter, setter, hbacks, hfield, hgetter, hgetterHandle, hsetter, hsetterHandle⟩ :=
    hproperty.backs hlayered hu hd hplain
  have hclass : u.handle.kind = .classType := by
    obtain ⟨d', hd', henacts⟩ := hlayered.enacts hu
    rw [hd] at hd'
    cases hd'
    have htype : Referent.type u.handle _ _ _ _ = Referent.type d.handle _ _ _ _ :=
      congrArg Profile.type henacts.profile
    rw [(Referent.type.inj htype).1]
    exact hproperty.isClass
  refine ⟨hvoid, field, getter, setter, hbacks, hfield, ?_, ?_⟩
  · intro r hr
    exact dispatch_own hsound hlayered hrise hu hclass hgetter
      (hgetterHandle ▸ halone.1.unlinked) hr
  · intro r hr
    exact dispatch_own hsound hlayered hrise hu hclass hsetter
      (hsetterHandle ▸ halone.2.unlinked) hr

/-- A host that has written an automatic property of a class, with the accessors that have been made
for it, reads the value in the form of the type, as often as it does.  Of an object only the field
behind the property has changed, and of the static sides only the slot of the field, once the class
has been set up.  The history declares fewer than `2 ^ 32 - 1` types, so that 32 bits tell their ids
apart. -/
theorem roundTrip_of_history
    (hnumbered : p.session.Numbered) (hgeneric : t.isGeneric = false) :
  (∀ earlier, earlier <+: history → ((empty verify).run earlier).NumbersFit)
  ∧ (spec.modifier ≠ .isStatic → ∀ (o : ObjectRef) v host host', o.type = c →
    v.fits t = true → host.machine.limits.Allow 1 2 4 →
    (Host.writeProperty p.session (.object o) name v).exec host = (.ok (), host') →
      (∃ field ∈ p.session.instanceFields c, field.handle = f
        ∧ p.session.Assigns o field (v.coerceTo t).toStack host.heap host'.heap)
      ∧ { host'.machine with steps := host.machine.steps } = host.machine
      ∧ (Host.readProperty p.session (.object o) name).Repeats host' (v.coerceTo t))
  ∧ (spec.modifier = .isStatic → ∀ (x y : Holder) v host host', x.id = c → y.id = c →
    v.fits t = true → host.machine.limits.Allow 1 1 3 →
    (x.write p.session name v).exec host = (.ok (), host') →
      ∃ field slot host₀, p.session.fieldAt f = .ok field ∧ field.slot = .static slot
        ∧ (Host.initializeType p.session c).exec host = (.ok (), host₀)
        ∧ host'.heap = host₀.heap
        ∧ Machine.Assigns c slot (v.coerceTo t).toStack host₀.machine host'.machine
        ∧ (y.read p.session name).Repeats host' (v.coerceTo t))
  := by
  have hlayered : p.Stacked := hp ▸ stacked_run verify history
  have hbacks {u : RealizedType} (hu : u ∈ p.session.types) (hid : u.id = c) :=
    backs_of_history verify before later ha hauto hdefine hkept history hhistory p hp hrise halone
      hu hid
  refine ⟨fun earlier => numbersFit_run verify (hp ▸ hnumbered), ?_, ?_⟩
  · intro hmodifier o v host host' ho hfits hallow hwrite
    have hinstance : (spec.modifier == .isStatic) = false := beq_false_of_ne hmodifier
    obtain ⟨u, hu⟩ := Holder.realized_of_write (x := .object o) hwrite
    have hid : u.id = o.type := beq_iff_eq.mp (List.find?_some hu :)
    have hmem := List.mem_of_find?_eq_some hu
    obtain ⟨hvoid, field, getter, setter, hbacked, hfield, hget, hset⟩ :=
      hbacks hmem (hid.trans ho)
    have hown := hbacked.slot
    rw [hinstance, if_neg Bool.false_ne_true, ← ho] at hown
    obtain ⟨slot, -, hslot⟩ := (hlayered.laidOut hmem).slot (hid ▸ hown)
    obtain ⟨heap, hstored, rfl, habstract⟩ :=
      hbacked.stored_object (x := .object o) ho hset hwrite hinstance rfl hslot hallow
    have hassigns := assigns_of_setSlot hlayered hmem hid hown hslot hstored
    obtain ⟨slot', hslot', hvalue⟩ := hassigns.field.slot
    rw [hslot] at hslot'
    cases hslot'
    refine ⟨⟨field, ho ▸ hown, hfield, hassigns⟩, rfl, ?_⟩
    exact hbacked.repeats_object hvoid hgeneric hfits (x := .object o) ho hinstance hget habstract
      rfl hslot hvalue (hallow.mono (by decide) (by decide))
  · intro hmodifier x y v host host' hx hy hfits hallow hwrite
    have hstatic : (spec.modifier == .isStatic) = true := beq_iff_eq.mpr hmodifier
    obtain ⟨u, hu⟩ := Holder.realized_of_write hwrite
    have hid : u.id = x.id := by simpa using List.find?_some hu
    obtain ⟨hvoid, field, getter, setter, hbacked, hfield, hget, hset⟩ :=
      hbacks (List.mem_of_find?_eq_some hu) (hid.trans hx)
    obtain ⟨slot, hslot⟩ : ∃ slot, field.slot = .static slot := by
      have hkind := hbacked.slot
      rwa [hstatic, if_pos rfl] at hkind
    obtain ⟨host₀, hsetup, hlimits, hheap, hassigns, habstract⟩ :=
      hbacked.stored_static hx hset hwrite hstatic hslot hallow
    have hmarked : c ∈ host'.machine.initialized := by
      have hsame : host'.machine.initialized = host₀.machine.initialized :=
        (congrArg Machine.initialized hassigns.rest :)
      rw [hsame]
      exact Host.initialized_of_initializeType hsetup
    refine ⟨field, slot, host₀, hfield ▸ hbacked.fieldAt, hslot, hsetup, hheap, hassigns, ?_⟩
    apply hbacked.repeats_static hvoid hgeneric hfits hy hstatic hget habstract hslot hmarked
      hassigns.value
    rw [hassigns.limits, hlimits]
    exact hallow.mono (by decide) (by decide)

end

/-- A class without members. -/
def meter : List (HostEvent Unit) :=
  [ .build (.openUnit "Metering"),
    .build (.change 0 (.declareType "Meter" .classType {} none)) ]

/-- A wide count of each object. -/
def meterCount : PropertySpec Unit :=
  { modifier := .isVirtual }

/-- Whether the class has been used. -/
def meterUsed : PropertySpec Unit :=
  { modifier := .isStatic }

/-- The class with both properties. -/
def metered : List (HostEvent Unit) :=
  meter ++
    [ .build (.change 0 (.defineProperty ⟨1⟩ "Count" (.primitive .i64) meterCount)),
      .build (.change 0 (.defineProperty ⟨1⟩ "Used" (.primitive .bool) meterUsed)),
      .build (.change 0 (.defineConstructor ⟨1⟩ {} .minimal)),
      .build (.change 0 .finalize) ]

/-- A count that is written as a narrow integer is read as a wide one, and what is written to a
property of truth values is read as one. -/
theorem roundTrip_of_metered :
  ∃ (r : ObjectRef) (host₁ host₂ host₃ : HostState),
    (Host.create ((empty true).run metered).session ⟨1⟩ []).exec ⟨{}, {}⟩ = (.ok (.object r), host₁)
      ∧ (Host.writeProperty ((empty true).run metered).session (.object r) "Count" (.i32 5)).exec
          host₁ = (.ok (), host₂)
      ∧ (Host.readProperty ((empty true).run metered).session (.object r) "Count").Repeats host₂
          (.i64 5)
      ∧ (Host.writeStaticProperty ((empty true).run metered).session ⟨1⟩ "Used" (.i32 7)).exec
          host₂ = (.ok (), host₃)
      ∧ (Host.readProperty ((empty true).run metered).session (.object r) "Used").Repeats host₃
          (.bool true)
  := by
  have hcalls : ((do
      let o ← Host.create ((empty true).run metered).session ⟨1⟩ []
      Host.writeProperty ((empty true).run metered).session o "Count" (.i32 5)
      Host.writeStaticProperty ((empty true).run metered).session ⟨1⟩ "Used" (.i32 7)
      pure o.asObject? : Host (Option ObjectRef)).exec ⟨{}, {}⟩).1.toOption
        = some (some ⟨0, ⟨1⟩⟩) := by
    decide +kernel
  have hrise : ((empty true).run metered).LinksRise ((empty true).run metered).session.types := by
    rw [(stacked_run true metered).linksRise_iff]
    decide +kernel
  have halone : ∀ i < 4, ((empty true).run metered).StandsAlone ⟨⟨1⟩, i⟩ := by
    have hmethods : ∀ i < 4, (((empty true).run metered).methodDecl? ⟨⟨1⟩, i⟩).map
        (fun m => (m.overrides, m.baseSlot)) = some (none, none) := by
      decide +kernel
    intro i hi m hm
    have hlinks := hmethods i hi
    rw [hm] at hlinks
    exact Prod.mk.inj (Option.some.inj hlinks)
  obtain ⟨a, ha⟩ : ∃ a, ((empty true).run meter).units[0]? = some a := ⟨_, rfl⟩
  obtain ⟨b, hb⟩ : ∃ b, ((empty true).run (meter ++
      [.build (.change 0 (.defineProperty ⟨1⟩ "Count" (.primitive .i64) meterCount))])).units[0]?
        = some b := ⟨_, rfl⟩
  have hcount : ((Build.defineProperty ⟨1⟩ "Count" (.primitive .i64) meterCount).exec
      { session := ((empty true).run meter).session, assembly := a }).1.toOption
        = some (⟨⟨1⟩, 0, some ⟨⟨1⟩, 0⟩, some ⟨⟨1⟩, 1⟩, some ⟨⟨1⟩, 0⟩⟩, []) := by
    cases ha
    decide +kernel
  have hused : ((Build.defineProperty ⟨1⟩ "Used" (.primitive .bool) meterUsed).exec
      { session := ((empty true).run (meter ++
          [.build (.change 0 (.defineProperty ⟨1⟩ "Count" (.primitive .i64) meterCount))])).session
        assembly := b }).1.toOption
        = some (⟨⟨1⟩, 1, some ⟨⟨1⟩, 2⟩, some ⟨⟨1⟩, 3⟩, some ⟨⟨1⟩, 1⟩⟩, []) := by
    cases hb
    decide +kernel
  obtain ⟨-, hobjects, -⟩ := roundTrip_of_history true meter
    [ .build (.change 0 (.defineProperty ⟨1⟩ "Used" (.primitive .bool) meterUsed)),
      .build (.change 0 (.defineConstructor ⟨1⟩ {} .minimal)),
      .build (.change 0 .finalize) ]
    ha rfl (Prod.ext (ok_of_toOption hcount) rfl) (by simp [HostEvent.Replaces]) metered rfl _ rfl
    hrise ⟨halone 0 (by decide), halone 1 (by decide)⟩ (by decide +kernel) rfl
  have hobjects := hobjects (by decide)
  obtain ⟨-, -, hstatics⟩ := roundTrip_of_history true _
    [ .build (.change 0 (.defineConstructor ⟨1⟩ {} .minimal)),
      .build (.change 0 .finalize) ]
    hb rfl (Prod.ext (ok_of_toOption hused) rfl) (by simp [HostEvent.Replaces]) metered rfl _ rfl
    hrise ⟨halone 2 (by decide), halone 3 (by decide)⟩ (by decide +kernel) rfl
  have hstatics := hstatics rfl
  have hlives := @lives_create Unit true metered ⟨1⟩ [] ⟨{}, {}⟩
  generalize ((empty true).run metered).session = s at *
  obtain ⟨v, host₁, hcreate, hrest⟩ := exists_of_exec_bind_ok (Prod.ext (ok_of_toOption hcalls) rfl)
  obtain ⟨_, host₂, hwrite, hrest⟩ := exists_of_exec_bind_ok hrest
  obtain ⟨_, host₃, hwrite', hlast⟩ := exists_of_exec_bind_ok hrest
  obtain ⟨r, rfl, -⟩ := hlives hcreate
  have hr : r = ⟨0, ⟨1⟩⟩ := Option.some.inj (Except.ok.inj (Prod.mk.inj hlast).1)
  have hroom : Limits.Allow {} 1 2 4 := by
    refine ⟨by decide, by decide, ?_⟩
    intro budget hbudget
    cases hbudget
  have hlimits : host₁.machine.limits = {} := by
    have hkept := HostCall.limits_eq s (.create ⟨1⟩ []) ⟨{}, {}⟩
    rw [HostCall.perform, hcreate] at hkept
    exact hkept
  obtain ⟨-, hmachine, hread⟩ :=
    hobjects r (.i32 5) host₁ host₂ (hr ▸ rfl) rfl (hlimits ▸ hroom) hwrite
  have hlimits' : host₂.machine.limits = {} :=
    (congrArg Machine.limits hmachine :).trans hlimits
  obtain ⟨_, _, _, -, -, -, -, -, hread'⟩ :=
    hstatics (.type ⟨1⟩) (.object r) (.i32 7) host₂ host₃ rfl (hr ▸ rfl) rfl
      (hlimits' ▸ hroom.mono (by decide) (by decide)) hwrite'
  exact ⟨r, host₁, host₂, host₃, hcreate, hwrite, hread, hwrite', hread'⟩

end Project

end ManagedCode
