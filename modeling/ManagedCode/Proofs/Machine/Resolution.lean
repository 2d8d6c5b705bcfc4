import ManagedCode.Proofs.Machine.Endings

/-!
# Resolved frames

A frame puts its type arguments in place of the generic parameters of its method whenever it
comes to a type: in an operand, at a handler, for the defaults of its locals.  `Frame.resolved`
puts them there at once: it is the frame of a body without generic parameters.  Nothing that a
frame does depends on when that happens, so that every operation on frames and every instruction
commutes with it (`Surroundings.execute_resolved`).
-/

namespace ManagedCode

/-! ## Type arguments in bodies -/

/-- Without type arguments, every generic parameter stays. -/
theorem TypeRef.substitute_nil (t : TypeRef) (params : List String) : t.substitute params [] = t := by
  induction t with
  | array element ih => rw [substitute, ih]
  | generic name =>
      rw [substitute, argumentFor]
      cases params.findIdx? (· == name) <;> rfl
  | _ => rfl

/-- Type arguments do not change a type without generic parameters. -/
theorem TypeRef.substitute_of_not_hasGeneric
    {t : TypeRef} (h : t.hasGeneric = false) (params : List String) (typeArgs : List TypeRef) :
  t.substitute params typeArgs = t
  := by
  induction t with
  | array element ih => rw [substitute, ih h]
  | generic name => cases h
  | _ => rfl

/-- The types of an operand with the type arguments in place of the generic parameters. -/
def Operand.substitute (params : List String) (typeArgs : List TypeRef) : Operand → Operand
  | type t => .type (t.substitute params typeArgs)
  | genericMethod m types => .genericMethod m (types.map (·.substitute params typeArgs))
  | operand => operand

/-- An instruction with type arguments in its operand. -/
def Instruction.substitute (params : List String) (typeArgs : List TypeRef) (i : Instruction) :
    Instruction :=
  { i with operand := i.operand.substitute params typeArgs }

/-- A region with type arguments in the type that it catches. -/
def Region.substitute (params : List String) (typeArgs : List TypeRef) (r : Region) : Region :=
  match r.kind with
  | .catching t => { r with kind := .catching (t.substitute params typeArgs) }
  | .finalizing => r

/-- The types of the locals, of the operands and of the handlers of a body with the type arguments
in place of the generic parameters. -/
def MethodBody.substitute (params : List String) (typeArgs : List TypeRef) (body : MethodBody) :
    MethodBody :=
  { body with
    instructions := body.instructions.map (·.substitute params typeArgs)
    locals := body.locals.map (·.substitute params typeArgs)
    regions := body.regions.map (·.substitute params typeArgs) }

/-- Without type arguments, an operand stays as it is. -/
theorem Operand.substitute_nil (o : Operand) (params : List String) : o.substitute params [] = o := by
  cases o with
  | type t => exact congrArg type (t.substitute_nil params)
  | genericMethod m types =>
      have hmap : types.map (·.substitute params []) = types := by
        simp only [TypeRef.substitute_nil, List.map_id']
      exact congrArg (genericMethod m) hmap
  | _ => rfl

/-- So does an instruction. -/
theorem Instruction.substitute_nil (i : Instruction) (params : List String) :
  i.substitute params [] = i
  := by
  rw [substitute, Operand.substitute_nil]

/-- So does a region. -/
theorem Region.substitute_nil (r : Region) (params : List String) : r.substitute params [] = r := by
  rw [substitute]
  split
  · next t hkind =>
    rw [t.substitute_nil, ← hkind]
  · rfl

/-- So does a body. -/
theorem MethodBody.substitute_nil (body : MethodBody) (params : List String) :
  body.substitute params [] = body
  := by
  simp only [substitute, Instruction.substitute_nil, TypeRef.substitute_nil, Region.substitute_nil,
    Array.map_id', List.map_id']

/-! ## Computations -/

/-- If what follows two answers agrees, it agrees behind the computations that gave them. -/
theorem bind_map_congr
    {α α' β β' : Type} {x : Except Fault α} {k : α → Except Fault β} {k' : α' → Except Fault β'}
    {g : α → α'} {h : β → β'} (hk : ∀ a, k' (g a) = h <$> k a) :
  (g <$> x) >>= k' = h <$> (x >>= k)
  := by
  cases x with
  | ok a => exact hk a
  | error error => rfl

/-- Two computations agree up to a map if their continuations do. -/
theorem bind_congr_map
    {α β β' : Type} {x : Except Fault α} {k : α → Except Fault β} {k' : α → Except Fault β'}
    {h : β → β'} (hk : ∀ a, k' a = h <$> k a) :
  x >>= k' = h <$> (x >>= k)
  := by
  cases x with
  | ok a => exact hk a
  | error error => rfl

/-! ## Frames -/

/-- What a frame looks at in its method: the name, and whether there is a value to return. -/
def RealizedMethod.seen (m : RealizedMethod) : RealizedMethod :=
  { (default : RealizedMethod) with
    name := m.name
    returnType := if m.returnType = .void then .void else .object
    genericParams := [] }

/-- What is seen of a method shows whether it has a result. -/
theorem RealizedMethod.seen_returns (m : RealizedMethod) :
  m.seen.returnType = .void ↔ m.returnType = .void
  := by
  rw [seen]
  dsimp only
  split
  · next hvoid => exact iff_of_true rfl hvoid
  · next hreturns =>
    constructor
    · rintro ⟨⟩
    · exact fun hvoid => absurd hvoid hreturns

/-- Methods look the same if they have one name and if both or neither have a result. -/
theorem RealizedMethod.seen_eq
    {m m' : RealizedMethod} (hname : m.name = m'.name)
    (hreturns : m.returnType = .void ↔ m'.returnType = .void) :
  m.seen = m'.seen
  := by
  simp only [seen, hname, hreturns]

namespace Frame

/-- The frame with its type arguments in the place of the generic parameters. -/
def resolved (f : Frame) : Frame :=
  { f with
    method := f.method.seen
    body := f.body.substitute f.method.genericParams f.typeArgs
    typeArgs := [] }

/-- A frame without type arguments is resolved already. -/
theorem resolved_resolved (f : Frame) : f.resolved.resolved = f.resolved := by
  have hmethod : f.resolved.method.seen = f.resolved.method :=
    RealizedMethod.seen_eq rfl f.method.seen_returns
  have hbody : f.resolved.body.substitute f.resolved.method.genericParams f.resolved.typeArgs
      = f.resolved.body := MethodBody.substitute_nil _ _
  rw [resolved, hmethod, hbody]
  rfl

/-- A type without generic parameters would stay as it is, so it is not looked at twice. -/
theorem resolve_eq (f : Frame) (t : TypeRef) :
  f.resolve t = t.substitute f.method.genericParams f.typeArgs
  := by
  rw [resolve]
  split
  · rfl
  · next h => exact (TypeRef.substitute_of_not_hasGeneric (by simpa using h) _ _).symm

/-- A type with the type arguments is the same to the frame and to the resolved one. -/
theorem resolve_resolved (f : Frame) (t : TypeRef) :
  f.resolved.resolve (t.substitute f.method.genericParams f.typeArgs) = f.resolve t
  := by
  rw [resolve_eq, resolve_eq]
  exact TypeRef.substitute_nil _ _

/-- The stack of a frame does not depend on its type arguments. -/
theorem pop_resolved (f : Frame) : f.resolved.pop = Prod.map id resolved <$> f.pop := by
  have hstack : f.resolved.stack = f.stack := rfl
  rw [pop, pop, hstack]
  cases f.stack <;> rfl

theorem popMany_resolved (f : Frame) (n : Nat) :
  f.resolved.popMany n = Prod.map id resolved <$> f.popMany n
  := by
  have hstack : f.resolved.stack = f.stack := rfl
  rw [popMany, popMany, hstack]
  split <;> rfl

theorem push_resolved (f : Frame) (limit : Nat) (v : Value) :
  f.resolved.push limit v = resolved <$> f.push limit v
  := by
  have hstack : f.resolved.stack = f.stack := rfl
  rw [push, push, hstack]
  split <;> rfl

theorem setArg_resolved (f : Frame) (i : Nat) (v : Value) :
  f.resolved.setArg i v = resolved <$> f.setArg i v
  := by
  have hargs : f.resolved.args = f.args := rfl
  rw [setArg, setArg, hargs]
  split <;> rfl

/-- Nor do its locals. -/
theorem setLocal_resolved (f : Frame) (i : Nat) (v : Value) :
  f.resolved.setLocal i v = resolved <$> f.setLocal i v
  := by
  have hlocals : f.resolved.locals = f.locals := rfl
  rw [setLocal, setLocal, hlocals]
  split <;> rfl

end Frame

/-! ## Handlers -/

namespace Region

variable (r : Region) (params : List String) (typeArgs : List TypeRef) (ip : Nat)

/-- A region protects the same instructions whatever it catches. -/
theorem protects_substitute : (r.substitute params typeArgs).protects ip = r.protects ip := by
  rw [substitute]
  split <;> rfl

/-- Its handler has the same instructions. -/
theorem inHandler_substitute : (r.substitute params typeArgs).inHandler ip = r.inHandler ip := by
  rw [substitute]
  split <;> rfl

theorem handlerStart_substitute : (r.substitute params typeArgs).handlerStart = r.handlerStart := by
  rw [substitute]
  split <;> rfl

/-- A finally region is one with every type argument. -/
theorem kind_substitute :
  (r.substitute params typeArgs).kind = .finalizing ↔ r.kind = .finalizing
  := by
  rw [substitute]
  split
  · next t hkind => simp [hkind]
  · rfl

end Region

namespace Frame

variable (f : Frame)

/-- The regions of a resolved frame are those of the frame with its type arguments. -/
theorem regions_resolved (region : Nat) :
  f.resolved.body.regions[region]?
    = f.body.regions[region]?.map (·.substitute f.method.genericParams f.typeArgs)
  := List.getElem?_map

/-- A test of a region that the exception of its handler plays no part in. -/
theorem any_regions_resolved
    {p : Region → Bool} (hp : ∀ r params typeArgs, p (Region.substitute params typeArgs r) = p r)
    (region : Nat) :
  f.resolved.body.regions[region]?.any p = f.body.regions[region]?.any p
  := by
  rw [regions_resolved]
  cases f.body.regions[region]? with
  | none => rfl
  | some r => exact hp r _ _

/-- A position is in the handlers that it has been in before. -/
theorem inHandlerOf_resolved (region ip : Nat) :
  f.resolved.inHandlerOf region ip = f.inHandlerOf region ip
  := f.any_regions_resolved (fun r _ _ => r.inHandler_substitute _ _ ip) region

/-- The exception that is being handled does not depend on the type arguments. -/
theorem handled?_resolved : f.resolved.handled? = f.handled? := by
  simp only [handled?, inHandlerOf_resolved]
  rfl

/-- A finally handler is entered as before. -/
theorem enterFinally_resolved (region target : Nat) (remaining : List Nat) :
  f.resolved.enterFinally region target remaining
    = (f.enterFinally region target remaining).resolved
  := by
  have hstart : (f.resolved.body.regions[region]?).map (·.handlerStart)
      = (f.body.regions[region]?).map (·.handlerStart) := by
    rw [regions_resolved, Option.map_map]
    exact congrArg (Option.map · _) (funext fun r => r.handlerStart_substitute _ _)
  rw [enterFinally, enterFinally, hstart]
  rfl

/-- So are those on the way to a target. -/
theorem continueTo_resolved (target : Nat) (finallies : List Nat) :
  f.resolved.continueTo target finallies = (f.continueTo target finallies).resolved
  := by
  cases finallies with
  | nil => rfl
  | cons region remaining => exact f.enterFinally_resolved region target remaining

/-- The finally regions that a jump leaves are the same. -/
theorem finalliesBetween_resolved (ip target : Nat) :
  f.resolved.finalliesBetween ip target = f.finalliesBetween ip target
  := by
  have hregions : f.resolved.body.regions
      = f.body.regions.map (·.substitute f.method.genericParams f.typeArgs) := rfl
  rw [finalliesBetween, finalliesBetween, hregions]
  simp only [List.mapIdx_eq_zipIdx_map, List.zipIdx_map, List.filterMap_map]
  congr 1
  funext ⟨r, i⟩
  simp [Region.protects_substitute, Region.kind_substitute]

/-- A leave does not depend on the type arguments. -/
theorem leave_resolved (target : Nat) : f.resolved.leave target = (f.leave target).resolved := by
  have hkeeps : ∀ region, f.resolved.keepsHandling target region = f.keepsHandling target region := by
    intro region
    apply f.any_regions_resolved
    intro r params typeArgs
    rw [Region.inHandler_substitute, Region.inHandler_substitute]
  rw [leave, leave, ← continueTo_resolved, finalliesBetween_resolved]
  simp only [hkeeps]
  rfl

/-- Nor do the handlers that an exception gives up. -/
theorem abandonHandlers_resolved : f.resolved.abandonHandlers = f.abandonHandlers.resolved := by
  have hany : ∀ region : Nat, f.resolved.body.regions[region]?.any (fun r => !r.inHandler f.ip)
      = f.body.regions[region]?.any fun r => !r.inHandler f.ip := by
    apply f.any_regions_resolved
    intro r params typeArgs
    rw [Region.inHandler_substitute]
  have hip : f.resolved.ip = f.ip := rfl
  rw [abandonHandlers, hip]
  simp only [hany]
  rfl

/-- A resolved frame catches what the frame catches, for the types are resolved beforehand. -/
theorem enterHandler_resolved (session : Session) (limit : Nat) (exception : Value)
    (regions : List Region) (index : Nat) :
  enterHandler session limit f.resolved exception index
      (regions.map (·.substitute f.method.genericParams f.typeArgs))
    = Option.map resolved <$> enterHandler session limit f exception index regions
  := by
  induction regions generalizing index with
  | nil => rfl
  | cons r rest ih =>
      have hip : f.resolved.ip = f.ip := rfl
      rw [List.map_cons, enterHandler, enterHandler, Region.protects_substitute, hip]
      split
      · cases hkind : r.kind with
        | finalizing =>
            rw [(r.kind_substitute _ _).mpr hkind, r.handlerStart_substitute]
            rfl
        | catching t =>
            have hcatching : (r.substitute f.method.genericParams f.typeArgs).kind
                = .catching (t.substitute f.method.genericParams f.typeArgs) := by
              rw [Region.substitute, hkind]
            rw [hcatching, r.handlerStart_substitute]
            dsimp only
            rw [f.resolve_resolved]
            split
            · change ({ f with stack := [] } : Frame).resolved.push limit exception >>= _ = _
              rw [push_resolved]
              exact bind_map_congr fun g => rfl
            · exact ih (index + 1)
      · exact ih (index + 1)

/-- An exception is taken by the same handler. -/
theorem raise_resolved (session : Session) (limit : Nat) (exception : Value) :
  f.resolved.raise session limit exception
    = Option.map resolved <$> f.raise session limit exception
  := by
  rw [raise, raise, abandonHandlers_resolved]
  exact f.abandonHandlers.enterHandler_resolved session limit exception f.body.regions 0

end Frame

/-! ## Operands -/

namespace Instruction

variable (i : Instruction) (params : List String) (typeArgs : List TypeRef)

/-- An index has no types in it. -/
theorem argIndex_substitute : (i.substitute params typeArgs).argIndex = i.argIndex := by
  obtain ⟨op, operand⟩ := i
  cases operand <;> rfl

theorem localIndex_substitute : (i.substitute params typeArgs).localIndex = i.localIndex := by
  obtain ⟨op, operand⟩ := i
  cases operand <;> rfl

/-- Nor has a label. -/
theorem label_substitute : (i.substitute params typeArgs).label = i.label := by
  obtain ⟨op, operand⟩ := i
  cases operand <;> rfl

theorem fieldRef_substitute : (i.substitute params typeArgs).fieldRef = i.fieldRef := by
  obtain ⟨op, operand⟩ := i
  cases operand <;> rfl

/-- Nor has a constant. -/
theorem constant_substitute : (i.substitute params typeArgs).constant = i.constant := by
  obtain ⟨op, operand⟩ := i
  cases operand with
  | type t => cases op <;> rfl
  | genericMethod handle methodArgs => cases op <;> rfl
  | _ => rfl

/-- A type in an operand gets the type arguments. -/
theorem typeRef_substitute :
  (i.substitute params typeArgs).typeRef = (·.substitute params typeArgs) <$> i.typeRef
  := by
  obtain ⟨op, operand⟩ := i
  cases operand <;> rfl

/-- So do the type arguments of a call. -/
theorem methodRef_substitute :
  (i.substitute params typeArgs).methodRef
    = Prod.map id (List.map (·.substitute params typeArgs)) <$> i.methodRef
  := by
  obtain ⟨op, operand⟩ := i
  cases operand <;> rfl

end Instruction

/-! ## Instructions -/

/-- A request of a resolved frame. -/
def Request.resolved : Request → Request
  | proceed f => .proceed f.resolved
  | finish v => .finish v
  | raise f exception => .raise f.resolved exception
  | invoke f callee args typeArgs resume => .invoke f.resolved callee args typeArgs resume
  | prepare f owner rest => .prepare f.resolved owner rest

/-- The instruction as the frame executes it. -/
abbrev Frame.resolveIn (f : Frame) (i : Instruction) : Instruction :=
  i.substitute f.method.genericParams f.typeArgs

namespace Surroundings

variable (s : Surroundings) (heap : Heap) (f : Frame) (i : Instruction)

theorem push_resolved (v : Value) : s.push f.resolved v = Frame.resolved <$> s.push f v := by
  rw [push, push, f.push_resolved]
  exact bind_map_congr fun g => rfl

/-- What an operation makes of the top of the stack does not depend on the type arguments. -/
theorem onTop_resolved (op : Value → Except Fault Value) :
  s.onTop f.resolved op = Frame.resolved <$> s.onTop f op
  := by
  rw [onTop, onTop, f.pop_resolved]
  apply bind_map_congr
  rintro ⟨v, g⟩
  exact bind_congr_map fun w => s.push_resolved g w

/-- Nor does what it makes of the two values on top. -/
theorem onTopTwo_resolved (op : Value → Value → Except Fault Value) :
  s.onTopTwo f.resolved op = Frame.resolved <$> s.onTopTwo f op
  := by
  rw [onTopTwo, onTopTwo, f.pop_resolved]
  apply bind_map_congr
  rintro ⟨b, g⟩
  dsimp only [Prod.map]
  rw [g.pop_resolved]
  apply bind_map_congr
  rintro ⟨a, h⟩
  exact bind_congr_map fun v => s.push_resolved h v

theorem store_resolved
    {set set' : Frame → Value → Except Fault Frame}
    (hset : ∀ g v, set' g.resolved v = Frame.resolved <$> set g v) :
  store f.resolved set' = Frame.resolved <$> store f set
  := by
  rw [store, store, f.pop_resolved]
  apply bind_map_congr
  rintro ⟨v, g⟩
  dsimp only [Prod.map, id]
  rw [hset]
  exact bind_map_congr fun h => rfl

/-- A constant is loaded as before. -/
theorem loadConstant_resolved :
  s.loadConstant f.resolved (f.resolveIn i) = Frame.resolved <$> s.loadConstant f i
  := by
  rw [loadConstant_eq, loadConstant_eq, i.constant_substitute]
  exact bind_congr_map fun v => s.push_resolved f v

/-- A branch tests the same values. -/
theorem testBranch_resolved (test : BranchTest) (op : String) :
  testBranch f.resolved test op = Prod.map id Frame.resolved <$> testBranch f test op
  := by
  cases test with
  | always => rfl
  | isTrue | isFalse =>
      rw [testBranch, testBranch, f.pop_resolved]
      exact bind_map_congr fun r => rfl
  | compare c =>
      rw [testBranch, testBranch, f.pop_resolved]
      apply bind_map_congr
      rintro ⟨b, g⟩
      dsimp only [Prod.map]
      rw [g.pop_resolved]
      apply bind_map_congr
      rintro ⟨a, h⟩
      exact bind_congr_map fun taken => rfl

/-- A branch goes where it has gone before. -/
theorem branch_resolved (test : BranchTest) :
  branch f.resolved (f.resolveIn i) test = Frame.resolved <$> branch f i test
  := by
  rw [branch, branch, i.label_substitute]
  apply bind_congr_map
  intro l
  rw [testBranch_resolved]
  apply bind_map_congr
  rintro ⟨taken, g⟩
  cases taken with
  | true => exact bind_congr_map fun ip => rfl
  | false => rfl

/-- So does a selection. -/
theorem switch_resolved :
  switch f.resolved (f.resolveIn i) = Frame.resolved <$> switch f i
  := by
  obtain ⟨op, operand⟩ := i
  cases operand with
  | switch labels =>
      change f.resolved.pop >>= _ = _ <$> (f.pop >>= _)
      rw [f.pop_resolved]
      apply bind_map_congr
      rintro ⟨v, g⟩
      dsimp only [Prod.map, id]
      split
      · rfl
      · split
        · exact bind_congr_map fun ip => rfl
        · rfl
  | _ => rfl

/-! ### Objects and arrays -/

/-- A field has the value that it has had before. -/
theorem loadField_resolved :
  s.loadField heap f.resolved (f.resolveIn i) = Frame.resolved <$> s.loadField heap f i
  := by
  rw [loadField, loadField, i.fieldRef_substitute]
  refine bind_congr_map fun handle => bind_congr_map fun field => ?_
  rw [f.pop_resolved]
  apply bind_map_congr
  rintro ⟨v, g⟩
  dsimp only [Prod.map, id]
  split
  · rfl
  · split
    · apply push_resolved
    · rfl
  · apply push_resolved
  · rfl

/-- A field gets the value that it has got before. -/
theorem storeField_resolved :
  s.storeField heap f.resolved (f.resolveIn i)
    = Prod.map Frame.resolved id <$> s.storeField heap f i
  := by
  rw [storeField, storeField, i.fieldRef_substitute]
  refine bind_congr_map fun handle => bind_congr_map fun field => ?_
  rw [f.pop_resolved]
  apply bind_map_congr
  rintro ⟨v, g⟩
  dsimp only [Prod.map, id]
  rw [g.pop_resolved]
  apply bind_map_congr
  rintro ⟨receiver, h⟩
  dsimp only [Prod.map, id]
  split
  · rfl
  · split <;> rfl
  · rfl

/-- A box has the type that the frame resolves. -/
theorem box_resolved (t : TypeRef) :
  s.box heap f.resolved t = Prod.map Frame.resolved id <$> s.box heap f t
  := by
  rw [box, box, f.pop_resolved]
  apply bind_map_congr
  rintro ⟨v, g⟩
  dsimp only [Prod.map, id]
  rw [s.push_resolved]
  exact bind_map_congr fun h => rfl

/-- So has an array. -/
theorem newArray_resolved (t : TypeRef) :
  s.newArray heap f.resolved t = Prod.map Frame.resolved id <$> s.newArray heap f t
  := by
  rw [newArray, newArray, f.pop_resolved]
  apply bind_map_congr
  rintro ⟨length, g⟩
  dsimp only [Prod.map, id]
  split
  · rfl
  · split
    · rfl
    · rw [s.push_resolved]
      exact bind_map_congr fun h => rfl

theorem loadElement_resolved :
  s.loadElement heap f.resolved = Frame.resolved <$> s.loadElement heap f
  := by
  rw [loadElement, loadElement, f.pop_resolved]
  apply bind_map_congr
  rintro ⟨index, g⟩
  dsimp only [Prod.map, id]
  rw [g.pop_resolved]
  apply bind_map_congr
  rintro ⟨array, h⟩
  refine bind_congr_map fun r => bind_congr_map fun n => ?_
  apply push_resolved

theorem storeElement_resolved :
  storeElement heap f.resolved = Prod.map Frame.resolved id <$> storeElement heap f
  := by
  rw [storeElement, storeElement, f.pop_resolved]
  apply bind_map_congr
  rintro ⟨v, g⟩
  dsimp only [Prod.map, id]
  rw [g.pop_resolved]
  apply bind_map_congr
  rintro ⟨index, h⟩
  dsimp only [Prod.map, id]
  rw [h.pop_resolved]
  apply bind_map_congr
  rintro ⟨array, h'⟩
  exact bind_congr_map fun r => bind_congr_map fun n => rfl

/-! ### Requests to the machine -/

/-- A read of a static field asks for the type that it has asked for before. -/
theorem loadStatic_resolved :
  s.loadStatic f.resolved (f.resolveIn i) = Request.resolved <$> s.loadStatic f i
  := by
  rw [loadStatic, loadStatic, i.fieldRef_substitute]
  refine bind_congr_map fun handle => bind_congr_map fun field => ?_
  split
  · rfl
  · rw [s.push_resolved]
    exact bind_map_congr fun g => rfl
  · rfl

/-- So does a write. -/
theorem storeStatic_resolved :
  s.storeStatic f.resolved (f.resolveIn i) = Request.resolved <$> s.storeStatic f i
  := by
  rw [storeStatic, storeStatic, i.fieldRef_substitute]
  refine bind_congr_map fun handle => bind_congr_map fun field => ?_
  rw [f.pop_resolved]
  apply bind_map_congr
  rintro ⟨v, g⟩
  dsimp only [Prod.map, id]
  split <;> rfl

/-- The type arguments of a call are those of the frame. -/
theorem map_resolve_resolved (types : List TypeRef) :
  (types.map (·.substitute f.method.genericParams f.typeArgs)).map f.resolved.resolve
    = types.map f.resolve
  := by
  rw [List.map_map]
  exact List.map_congr_left fun t _ => f.resolve_resolved t

/-- A call has the type arguments that the frame resolves. -/
theorem call_resolved (dispatched : Bool) :
  s.call f.resolved (f.resolveIn i) dispatched = Request.resolved <$> s.call f i dispatched
  := by
  rw [call, call, i.methodRef_substitute]
  apply bind_map_congr
  rintro ⟨handle, types⟩
  dsimp only [Prod.map, id]
  rw [map_resolve_resolved]
  refine bind_congr_map fun m => ?_
  rw [f.popMany_resolved]
  apply bind_map_congr
  rintro ⟨args, g⟩
  dsimp only [Prod.map, id]
  split
  · rfl
  · split
    · split
      · rfl
      · exact bind_congr_map fun target => rfl
    · rfl

/-- So has the construction of an object. -/
theorem construct_resolved :
  s.construct f.resolved (f.resolveIn i) = Request.resolved <$> s.construct f i
  := by
  rw [construct, construct, i.methodRef_substitute]
  apply bind_map_congr
  rintro ⟨handle, types⟩
  dsimp only [Prod.map, id]
  rw [map_resolve_resolved]
  refine bind_congr_map fun m => bind_congr_map fun t => ?_
  rw [f.popMany_resolved]
  apply bind_map_congr
  rintro ⟨args, g⟩
  dsimp only [Prod.map, id]
  split <;> rfl

/-- A method returns a value whatever its type arguments are. -/
theorem returnValue_resolved : returnValue f.resolved = Request.resolved <$> returnValue f := by
  have hreturns : f.resolved.method.returnType = .void ↔ f.method.returnType = .void :=
    f.method.seen_returns
  rw [returnValue, returnValue, f.pop_resolved]
  by_cases hvoid : f.method.returnType = .void
  · rw [if_pos hvoid, if_pos (hreturns.mpr hvoid)]
    rfl
  · rw [if_neg hvoid, if_neg (mt hreturns.mp hvoid)]
    exact bind_map_congr fun r => rfl

theorem throwTop_resolved : throwTop f.resolved = Request.resolved <$> throwTop f := by
  rw [throwTop, throwTop, f.pop_resolved]
  apply bind_map_congr
  rintro ⟨v, g⟩
  dsimp only [Prod.map, id]
  split <;> rfl

theorem rethrow_resolved : rethrow f.resolved = Request.resolved <$> rethrow f := by
  rw [rethrow, rethrow, f.handled?_resolved]
  split <;> rfl

/-- What goes on after a finally handler does not depend on the type arguments. -/
theorem endFinally_resolved : endFinally f.resolved = Request.resolved <$> endFinally f := by
  have hpending : f.resolved.pending = f.pending := rfl
  rw [endFinally, endFinally, hpending]
  split
  · rfl
  · next c pending _ =>
    have hended : { f.resolved with stack := [], pending := pending }
        = ({ f with stack := [], pending := pending } : Frame).resolved := rfl
    dsimp only
    rw [hended]
    split
    · rw [Frame.continueTo_resolved]
      rfl
    · rfl

/-! ### Every instruction -/

/-- A resolved frame executes an instruction as the frame does. -/
theorem execute_resolved :
  s.execute heap f.resolved (f.resolveIn i) = Prod.map Request.resolved id <$> s.execute heap f i
  := by
  have hframe : ∀ {x x' : Except Fault Frame}, x' = Frame.resolved <$> x →
      x'.map (fun g => (Request.proceed g, heap))
        = Prod.map Request.resolved id <$> x.map fun g => (Request.proceed g, heap) := by
    rintro x _ rfl
    cases x <;> rfl
  have hheap : ∀ {x x' : Except Fault (Frame × Heap)}, x' = Prod.map Frame.resolved id <$> x →
      x'.map (fun r => (Request.proceed r.1, r.2))
        = Prod.map Request.resolved id <$> x.map fun r => (Request.proceed r.1, r.2) := by
    rintro x _ rfl
    cases x <;> rfl
  have hrequest : ∀ {x x' : Except Fault Request}, x' = Request.resolved <$> x →
      x'.map (·, heap) = Prod.map Request.resolved id <$> x.map (·, heap) := by
    rintro x _ rfl
    cases x <;> rfl
  have hopcode : (f.resolveIn i).opcode = i.opcode := rfl
  rw [execute, execute, hopcode]
  cases hop : i.opcode with
  | nop => rfl
  | dup =>
      apply hframe
      rw [f.pop_resolved]
      exact bind_map_congr fun r => s.push_resolved f r.1
  | pop =>
      apply hframe
      rw [f.pop_resolved]
      exact bind_map_congr fun r => rfl
  | ldnull | ldcI4MinusOne | ldcI4Implied _ | ldcI4 _ | ldcI8 | ldcR4 | ldcR8 | ldstr =>
      exact hframe (s.loadConstant_resolved f i)
  | ldargImplied n => exact hframe (bind_congr_map fun v => s.push_resolved f v)
  | ldarg w =>
      apply hframe
      rw [i.argIndex_substitute]
      exact bind_congr_map fun n => bind_congr_map fun v => s.push_resolved f v
  | starg w =>
      apply hframe
      rw [i.argIndex_substitute]
      exact store_resolved f fun g v => bind_congr_map fun n => g.setArg_resolved n v
  | ldlocImplied n => exact hframe (bind_congr_map fun v => s.push_resolved f v)
  | ldloc w =>
      apply hframe
      rw [i.localIndex_substitute]
      exact bind_congr_map fun n => bind_congr_map fun v => s.push_resolved f v
  | stlocImplied n => exact hframe (store_resolved f fun g v => g.setLocal_resolved n v)
  | stloc w =>
      apply hframe
      rw [i.localIndex_substitute]
      exact store_resolved f fun g v => bind_congr_map fun n => g.setLocal_resolved n v
  | binary _ | shift _ | compare _ => exact hframe (s.onTopTwo_resolved f _)
  | neg | not | ckfinite | conv _ | convOvf _ => exact hframe (s.onTop_resolved f _)
  | branch test w => exact hframe (branch_resolved f i test)
  | switch => exact hframe (switch_resolved f i)
  | call => exact hrequest (s.call_resolved f i false)
  | callvirt => exact hrequest (s.call_resolved f i true)
  | newobj => exact hrequest (s.construct_resolved f i)
  | ret => exact hrequest (returnValue_resolved f)
  | ldfld => exact hframe (s.loadField_resolved heap f i)
  | stfld => exact hheap (s.storeField_resolved heap f i)
  | ldsfld => exact hrequest (s.loadStatic_resolved f i)
  | stsfld => exact hrequest (s.storeStatic_resolved f i)
  | castclass | isinst | unboxAny =>
      apply hframe
      rw [i.typeRef_substitute]
      refine bind_map_congr fun t => ?_
      rw [f.resolve_resolved]
      apply onTop_resolved
  | box =>
      apply hheap
      rw [i.typeRef_substitute]
      refine bind_map_congr fun t => ?_
      rw [f.resolve_resolved]
      apply box_resolved
  | newarr =>
      apply hheap
      rw [i.typeRef_substitute]
      refine bind_map_congr fun t => ?_
      rw [f.resolve_resolved]
      apply newArray_resolved
  | ldlen => exact hframe (s.onTop_resolved f _)
  | ldelem => exact hframe (s.loadElement_resolved heap f)
  | stelem => exact hheap (storeElement_resolved heap f)
  | throw => exact hrequest (throwTop_resolved f)
  | rethrow => exact hrequest (rethrow_resolved f)
  | leave w =>
      apply hframe
      rw [i.label_substitute]
      refine bind_congr_map fun l => bind_congr_map fun target => ?_
      rw [f.leave_resolved]
      rfl
  | endfinally => exact hrequest (endFinally_resolved f)

end Surroundings

end ManagedCode
