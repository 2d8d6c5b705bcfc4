import ManagedCode.Proofs.Machine.Resolution

/-!
# Programs with other instructions

`recode` puts other instructions into every body of a session, of a frame, and of the methods that a
frame has still to call.  An instruction looks at the labels and the regions of its body and not at
the other instructions, so that every operation on frames, every instruction and all that a machine
does for one commutes with it (`Surroundings.execute_recode`, `Execution.serve_recode`).
-/

namespace ManagedCode

/-! ## Other instructions -/

/-- The body with the instructions that `code` has for it. -/
def MethodBody.recode (code : MethodBody → Array Instruction) (body : MethodBody) : MethodBody :=
  { body with instructions := code body }

/-- A method with other instructions in its body. -/
def RealizedMethod.recode (code : MethodBody → Array Instruction) (m : RealizedMethod) :
    RealizedMethod :=
  { m with body := m.body.map (·.recode code) }

/-- A type whose methods have other instructions. -/
def RealizedType.recode (code : MethodBody → Array Instruction) (t : RealizedType) : RealizedType :=
  { t with methods := t.methods.map (·.recode code) }

/-- A session whose methods have other instructions. -/
def Session.recode (code : MethodBody → Array Instruction) (s : Session) : Session :=
  { s with types := s.types.map (·.recode code) }

/-- The rest of an instruction, with other instructions in the method that it calls. -/
def Deferred.recode (code : MethodBody → Array Instruction) : Deferred → Deferred
  | load owner slot => .load owner slot
  | store owner slot v => .store owner slot v
  | call m args typeArgs => .call (m.recode code) args typeArgs
  | construct t m args typeArgs => .construct (t.recode code) (m.recode code) args typeArgs

/-- What a caller waits for, with other instructions in what is left to do. -/
def Resume.recode (code : MethodBody → Array Instruction) : Resume → Resume
  | pushResult => .pushResult
  | dropResult => .dropResult
  | pushObject object => .pushObject object
  | perform rest => .perform (rest.recode code)

/-- A frame that runs other instructions. -/
def Frame.recode (code : MethodBody → Array Instruction) (f : Frame) : Frame :=
  { f with
    method := f.method.recode code
    body := f.body.recode code
    resume := f.resume.recode code }

/-- A request of a frame that runs other instructions. -/
def Request.recode (code : MethodBody → Array Instruction) : Request → Request
  | proceed f => .proceed (f.recode code)
  | finish v => .finish v
  | raise f exception => .raise (f.recode code) exception
  | invoke f callee args typeArgs resume =>
    .invoke (f.recode code) (callee.recode code) args typeArgs (resume.recode code)
  | prepare f owner rest => .prepare (f.recode code) owner (rest.recode code)

/-- The surroundings of a frame that runs other instructions. -/
def Surroundings.recode (code : MethodBody → Array Instruction) (s : Surroundings) : Surroundings :=
  { s with session := s.session.recode code }

/-- A program all of whose frames run other instructions. -/
def Execution.recode (code : MethodBody → Array Instruction) (e : Execution) : Execution :=
  { e with frames := e.frames.map (·.recode code) }

/-- What has become of a program all of whose frames run other instructions. -/
def Status.recode (code : MethodBody → Array Instruction) : Status → Status
  | running e => .running (e.recode code)
  | finished machine heap result => .finished machine heap result

variable {code : MethodBody → Array Instruction}

/-! ## Sessions -/

namespace Session

variable (s : Session)

/-- A type is found as before, with other instructions. -/
theorem realized?_recode (id : TypeId) :
  (s.recode code).realized? id = (s.realized? id).map (·.recode code)
  := List.find?_map

/-- The types along base links are as before, with other instructions. -/
theorem lineageFrom_recode (fuel : Nat) (id : TypeId) :
  (s.recode code).lineageFrom fuel id
    = ⟨(s.lineageFrom fuel id).types.map (·.recode code), (s.lineageFrom fuel id).missing⟩
  := by
  induction fuel generalizing id with
  | zero => rfl
  | succ fuel ih =>
      rw [lineageFrom, lineageFrom, realized?_recode]
      cases s.realized? id with
      | none => rfl
      | some t =>
          have hbase : (t.recode code).base = t.base := rfl
          dsimp only [Option.map_some]
          rw [hbase]
          cases t.base with
          | none => rfl
          | some base =>
              dsimp only
              rw [ih]
              rfl

/-- Types derive from each other whatever their instructions are. -/
theorem reaches_recode (id target : TypeId) :
  (s.recode code).reaches id target = s.reaches id target
  := by
  have hlength : (s.recode code).types.length = s.types.length := List.length_map _
  rw [reaches, reaches, lineage, lineage, hlength, lineageFrom_recode]
  dsimp only
  rw [List.any_map]
  rfl

/-- Values are instances of the same types. -/
theorem isInstance_recode (v : Value) (t : TypeRef) :
  (s.recode code).isInstance v t = s.isInstance v t
  := by
  simp only [isInstance, reaches_recode]

theorem typeAt_recode (id : TypeId) :
  (s.recode code).typeAt id = RealizedType.recode code <$> s.typeAt id
  := by
  rw [typeAt, typeAt, realized?_recode]
  cases s.realized? id <;> rfl

/-- A method is found as before, with other instructions. -/
theorem methodAt_recode (m : MethodRef) :
  (s.recode code).methodAt m = RealizedMethod.recode code <$> s.methodAt m
  := by
  rw [methodAt, methodAt, typeAt_recode]
  apply bind_map_congr
  intro t
  have hmethod : (t.recode code).method? m.index = (t.method? m.index).map (·.recode code) :=
    List.getElem?_map
  rw [hmethod]
  cases t.method? m.index <;> rfl

/-- Fields have no instructions. -/
theorem fieldAt_recode (field : FieldRef) : (s.recode code).fieldAt field = s.fieldAt field := by
  rw [fieldAt, fieldAt, typeAt_recode]
  cases s.typeAt field.owner <;> rfl

/-- A call by dispatch finds the method that it has found before, with other instructions. -/
theorem dispatch_recode (receiver : Value) (declared : RealizedMethod) :
  (s.recode code).dispatch receiver (declared.recode code)
    = RealizedMethod.recode code <$> s.dispatch receiver declared
  := by
  have hslot (t : RealizedType) (target : RealizedMethod) :
      (target.recode code).vtableSlot.bind (t.recode code).vtable.method?
        = target.vtableSlot.bind t.vtable.method? := rfl
  have hfilled (m : MethodRef) (target : RealizedMethod) :
      (if m = target.handle then pure (target.recode code) else (s.recode code).methodAt m)
        = RealizedMethod.recode code <$>
          if m = target.handle then pure target else s.methodAt m := by
    split
    · rfl
    · apply methodAt_recode
  cases receiver with
  | object r =>
      have howner : (declared.recode code).handle = declared.handle := rfl
      rw [dispatch, dispatch]
      dsimp only
      rw [reaches_recode, howner]
      split
      · rfl
      · rw [typeAt_recode]
        apply bind_map_congr
        intro t
        rw [typeAt_recode]
        apply bind_map_congr
        intro declaring
        have himplementation : (t.recode code).implementation? declared.handle
            = t.implementation? declared.handle := rfl
        have hkind : (declaring.recode code).handle = declaring.handle := rfl
        rw [himplementation, hkind]
        split
        · split
          · rw [methodAt_recode]
            apply bind_map_congr
            intro target
            rw [hslot]
            cases target.vtableSlot.bind t.vtable.method? with
            | none => rfl
            | some m => exact hfilled m target
          · rfl
        · dsimp only [bind, Except.bind]
          rw [hslot]
          cases declared.vtableSlot.bind t.vtable.method? with
          | none => rfl
          | some m => exact hfilled m declared
  | null => rfl
  | _ =>
      change (if declared.isVirtual then _ else _) = _ <$> if declared.isVirtual then _ else _
      split <;> rfl

end Session

/-! ## Frames -/

namespace Frame

variable (f : Frame)

/-- The stack of a frame does not depend on its instructions. -/
theorem pop_recode : (f.recode code).pop = Prod.map id (recode code) <$> f.pop := by
  have hstack : (f.recode code).stack = f.stack := rfl
  rw [pop, pop, hstack]
  cases f.stack <;> rfl

theorem popMany_recode (n : Nat) :
  (f.recode code).popMany n = Prod.map id (recode code) <$> f.popMany n
  := by
  have hstack : (f.recode code).stack = f.stack := rfl
  rw [popMany, popMany, hstack]
  split <;> rfl

theorem push_recode (limit : Nat) (v : Value) :
  (f.recode code).push limit v = recode code <$> f.push limit v
  := by
  have hstack : (f.recode code).stack = f.stack := rfl
  rw [push, push, hstack]
  split <;> rfl

theorem setArg_recode (i : Nat) (v : Value) :
  (f.recode code).setArg i v = recode code <$> f.setArg i v
  := by
  have hargs : (f.recode code).args = f.args := rfl
  rw [setArg, setArg, hargs]
  split <;> rfl

theorem setLocal_recode (i : Nat) (v : Value) :
  (f.recode code).setLocal i v = recode code <$> f.setLocal i v
  := by
  have hlocals : (f.recode code).locals = f.locals := rfl
  rw [setLocal, setLocal, hlocals]
  split <;> rfl

theorem continueTo_recode (target : Nat) (finallies : List Nat) :
  (f.recode code).continueTo target finallies = (f.continueTo target finallies).recode code
  := by
  cases finallies <;> rfl

theorem leave_recode (target : Nat) :
  (f.recode code).leave target = (f.leave target).recode code
  := by
  let left : Frame :=
    { f with
      stack := []
      handling := f.handling.filter fun handler => f.keepsHandling target handler.1 }
  exact left.continueTo_recode target (f.finalliesBetween f.ip target)

/-- The handler that takes an exception depends on the regions of a body, not on its instructions.
-/
theorem enterHandler_recode (session : Session) (limit : Nat) (exception : Value)
    (regions : List Region) (index : Nat) :
  enterHandler (session.recode code) limit (f.recode code) exception index regions
    = Option.map (recode code) <$> enterHandler session limit f exception index regions
  := by
  have hip : (f.recode code).ip = f.ip := rfl
  have hresolve (t : TypeRef) : (f.recode code).resolve t = f.resolve t := rfl
  induction regions generalizing index with
  | nil => rfl
  | cons r rest ih =>
      rw [enterHandler, enterHandler, hip]
      split
      · cases r.kind with
        | finalizing => rfl
        | catching t =>
            dsimp only
            rw [hresolve, Session.isInstance_recode]
            split
            · change ({ f with stack := [] }.recode code).push limit exception >>= _ = _
              rw [push_recode]
              exact bind_map_congr fun g => rfl
            · exact ih (index + 1)
      · exact ih (index + 1)

/-- An exception is taken where it has been taken before. -/
theorem raise_recode (session : Session) (limit : Nat) (exception : Value) :
  (f.recode code).raise (session.recode code) limit exception
    = Option.map (recode code) <$> f.raise session limit exception
  := f.abandonHandlers.enterHandler_recode session limit exception f.body.regions 0

/-- Unwinding leaves the frames that it has left before, with other instructions. -/
theorem unwind_recode (session : Session) (limit : Nat) (exception : Value)
    (frames : List Frame) :
  unwind (session.recode code) limit exception (frames.map (·.recode code))
    = List.map (recode code) <$> unwind session limit exception frames
  := by
  induction frames with
  | nil => rfl
  | cons f callers ih =>
      rw [List.map_cons, unwind, unwind, f.raise_recode]
      apply bind_map_congr
      intro answer
      cases answer with
      | some g => rfl
      | none => exact ih

end Frame

/-! ## Instructions -/

namespace Surroundings

variable (s : Surroundings) (heap : Heap) (f : Frame) (i : Instruction)

theorem session_recode : (s.recode code).session = s.session.recode code := rfl

theorem push_recode (v : Value) :
  (s.recode code).push (f.recode code) v = Frame.recode code <$> s.push f v
  := by
  rw [push, push, f.push_recode]
  exact bind_map_congr fun g => rfl

/-- What an operation makes of the top of the stack does not depend on the instructions. -/
theorem onTop_recode {op op' : Value → Except Fault Value} (hop : ∀ v, op' v = op v) :
  (s.recode code).onTop (f.recode code) op' = Frame.recode code <$> s.onTop f op
  := by
  rw [onTop, onTop, f.pop_recode]
  apply bind_map_congr
  rintro ⟨v, g⟩
  dsimp only [Prod.map, id]
  rw [hop]
  exact bind_congr_map fun w => s.push_recode g w

/-- Nor does what it makes of the two values on top. -/
theorem onTopTwo_recode (op : Value → Value → Except Fault Value) :
  (s.recode code).onTopTwo (f.recode code) op = Frame.recode code <$> s.onTopTwo f op
  := by
  rw [onTopTwo, onTopTwo, f.pop_recode]
  apply bind_map_congr
  rintro ⟨b, g⟩
  dsimp only [Prod.map, id]
  rw [g.pop_recode]
  apply bind_map_congr
  rintro ⟨a, h⟩
  exact bind_congr_map fun v => s.push_recode h v

theorem store_recode
    {set : Frame → Value → Except Fault Frame}
    (hset : ∀ g v, set (g.recode code) v = Frame.recode code <$> set g v) :
  store (f.recode code) set = Frame.recode code <$> store f set
  := by
  rw [store, store, f.pop_recode]
  apply bind_map_congr
  rintro ⟨v, g⟩
  dsimp only [Prod.map, id]
  rw [hset]
  exact bind_map_congr fun h => rfl

/-- A branch tests the same values. -/
theorem testBranch_recode (test : BranchTest) (op : String) :
  testBranch (f.recode code) test op = Prod.map id (Frame.recode code) <$> testBranch f test op
  := by
  cases test with
  | always => rfl
  | isTrue | isFalse =>
      rw [testBranch, testBranch, f.pop_recode]
      exact bind_map_congr fun r => rfl
  | compare c =>
      rw [testBranch, testBranch, f.pop_recode]
      apply bind_map_congr
      rintro ⟨b, g⟩
      dsimp only [Prod.map, id]
      rw [g.pop_recode]
      apply bind_map_congr
      rintro ⟨a, h⟩
      exact bind_congr_map fun taken => rfl

/-- A branch goes where it has gone before. -/
theorem branch_recode (test : BranchTest) :
  branch (f.recode code) i test = Frame.recode code <$> branch f i test
  := by
  rw [branch, branch]
  apply bind_congr_map
  intro l
  rw [testBranch_recode]
  apply bind_map_congr
  rintro ⟨taken, g⟩
  cases taken with
  | true => exact bind_congr_map fun ip => rfl
  | false => rfl

/-- A selection goes where it has gone before. -/
theorem switch_recode : switch (f.recode code) i = Frame.recode code <$> switch f i := by
  rw [switch, switch]
  split
  · rw [f.pop_recode]
    apply bind_map_congr
    rintro ⟨v, g⟩
    dsimp only [Prod.map, id]
    split
    · rfl
    · split
      · exact bind_congr_map fun ip => rfl
      · rfl
  · rfl

/-! ### Objects and arrays -/

/-- A field has the value that it has had before. -/
theorem loadField_recode :
  (s.recode code).loadField heap (f.recode code) i = Frame.recode code <$> s.loadField heap f i
  := by
  rw [loadField, loadField]
  apply bind_congr_map
  intro handle
  rw [session_recode, Session.fieldAt_recode]
  apply bind_congr_map
  intro field
  rw [f.pop_recode]
  apply bind_map_congr
  rintro ⟨v, g⟩
  dsimp only [Prod.map, id]
  split
  · rfl
  · split
    · apply push_recode
    · rfl
  · apply push_recode
  · rfl

/-- A field gets the value that it has got before. -/
theorem storeField_recode :
  (s.recode code).storeField heap (f.recode code) i
    = Prod.map (Frame.recode code) id <$> s.storeField heap f i
  := by
  rw [storeField, storeField]
  apply bind_congr_map
  intro handle
  rw [session_recode, Session.fieldAt_recode]
  apply bind_congr_map
  intro field
  rw [f.pop_recode]
  apply bind_map_congr
  rintro ⟨v, g⟩
  dsimp only [Prod.map, id]
  rw [g.pop_recode]
  apply bind_map_congr
  rintro ⟨receiver, h⟩
  dsimp only [Prod.map, id]
  split
  · rfl
  · split <;> rfl
  · rfl

/-- A cast succeeds on the same values. -/
theorem castTo_recode (t : TypeRef) (v : Value) : (s.recode code).castTo t v = s.castTo t v := by
  rw [castTo, castTo]
  rw [session_recode, Session.isInstance_recode]

theorem unbox_recode (t : TypeRef) (v : Value) : (s.recode code).unbox t v = s.unbox t v := by
  simp only [unbox, castTo_recode]

theorem box_recode (t : TypeRef) :
  (s.recode code).box heap (f.recode code) t = Prod.map (Frame.recode code) id <$> s.box heap f t
  := by
  rw [box, box, f.pop_recode]
  apply bind_map_congr
  rintro ⟨v, g⟩
  dsimp only [Prod.map, id]
  rw [s.push_recode]
  exact bind_map_congr fun h => rfl

theorem newArray_recode (t : TypeRef) :
  (s.recode code).newArray heap (f.recode code) t
    = Prod.map (Frame.recode code) id <$> s.newArray heap f t
  := by
  rw [newArray, newArray, f.pop_recode]
  apply bind_map_congr
  rintro ⟨length, g⟩
  dsimp only [Prod.map, id]
  split
  · rfl
  · split
    · rfl
    · rw [s.push_recode]
      exact bind_map_congr fun h => rfl

theorem loadElement_recode :
  (s.recode code).loadElement heap (f.recode code) = Frame.recode code <$> s.loadElement heap f
  := by
  rw [loadElement, loadElement, f.pop_recode]
  apply bind_map_congr
  rintro ⟨index, g⟩
  dsimp only [Prod.map, id]
  rw [g.pop_recode]
  apply bind_map_congr
  rintro ⟨array, h⟩
  refine bind_congr_map fun r => bind_congr_map fun n => ?_
  apply push_recode

theorem storeElement_recode :
  storeElement heap (f.recode code) = Prod.map (Frame.recode code) id <$> storeElement heap f
  := by
  rw [storeElement, storeElement, f.pop_recode]
  apply bind_map_congr
  rintro ⟨v, g⟩
  dsimp only [Prod.map, id]
  rw [g.pop_recode]
  apply bind_map_congr
  rintro ⟨index, h⟩
  dsimp only [Prod.map, id]
  rw [h.pop_recode]
  apply bind_map_congr
  rintro ⟨array, h'⟩
  exact bind_congr_map fun r => bind_congr_map fun n => rfl

/-! ### Requests to the machine -/

/-- Whether a method has a result does not depend on its instructions. -/
theorem resumeFor_recode (m : RealizedMethod) :
  resumeFor (m.recode code) = (resumeFor m).recode code
  := by
  change (if m.returnType = .void then _ else _) = _
  rw [resumeFor]
  split <;> rfl

/-- A read of a static field asks for the type that it has asked for before. -/
theorem loadStatic_recode :
  (s.recode code).loadStatic (f.recode code) i = Request.recode code <$> s.loadStatic f i
  := by
  rw [loadStatic, loadStatic]
  apply bind_congr_map
  intro handle
  rw [session_recode, Session.fieldAt_recode]
  apply bind_congr_map
  intro field
  split
  · rfl
  · rw [s.push_recode]
    exact bind_map_congr fun g => rfl
  · rfl

/-- So does a write. -/
theorem storeStatic_recode :
  (s.recode code).storeStatic (f.recode code) i = Request.recode code <$> s.storeStatic f i
  := by
  rw [storeStatic, storeStatic]
  apply bind_congr_map
  intro handle
  rw [session_recode, Session.fieldAt_recode]
  apply bind_congr_map
  intro field
  rw [f.pop_recode]
  apply bind_map_congr
  rintro ⟨v, g⟩
  dsimp only [Prod.map, id]
  split <;> rfl

/-- A call asks for the method that it has asked for before, with other instructions. -/
theorem call_recode (dispatched : Bool) :
  (s.recode code).call (f.recode code) i dispatched
    = Request.recode code <$> s.call f i dispatched
  := by
  rw [call, call]
  apply bind_congr_map
  rintro ⟨handle, types⟩
  dsimp only
  rw [session_recode, Session.methodAt_recode]
  apply bind_map_congr
  intro m
  have hstatic : (m.recode code).isStatic = m.isStatic := rfl
  have hparams : (m.recode code).params = m.params := rfl
  rw [f.popMany_recode, hstatic, hparams]
  apply bind_map_congr
  rintro ⟨args, g⟩
  dsimp only [Prod.map, id]
  split
  · rfl
  · split
    · split
      · rfl
      · rw [Session.dispatch_recode]
        apply bind_map_congr
        intro target
        rw [resumeFor_recode]
        rfl
    · rw [resumeFor_recode]
      rfl

/-- So does the construction of an object. -/
theorem construct_recode :
  (s.recode code).construct (f.recode code) i = Request.recode code <$> s.construct f i
  := by
  rw [construct, construct]
  apply bind_congr_map
  rintro ⟨handle, types⟩
  dsimp only
  rw [session_recode, Session.methodAt_recode]
  apply bind_map_congr
  intro m
  rw [Session.typeAt_recode]
  apply bind_map_congr
  intro t
  have hparams : (m.recode code).params = m.params := rfl
  rw [f.popMany_recode, hparams]
  apply bind_map_congr
  rintro ⟨args, g⟩
  change (if t.isInstantiable then _ else _) = _ <$> if t.isInstantiable then _ else _
  split <;> rfl

/-- A method returns what it has returned before. -/
theorem returnValue_recode :
  returnValue (f.recode code) = Request.recode code <$> returnValue f
  := by
  rw [returnValue, returnValue, f.pop_recode]
  change (if f.method.returnType = .void then _ else _) = _
  split
  · rfl
  · exact bind_map_congr fun r => rfl

theorem throwTop_recode : throwTop (f.recode code) = Request.recode code <$> throwTop f := by
  rw [throwTop, throwTop, f.pop_recode]
  apply bind_map_congr
  rintro ⟨v, g⟩
  dsimp only [Prod.map, id]
  split <;> rfl

theorem rethrow_recode : rethrow (f.recode code) = Request.recode code <$> rethrow f := by
  have hhandled : (f.recode code).handled? = f.handled? := rfl
  rw [rethrow, rethrow, hhandled]
  split <;> rfl

/-- What goes on after a finally handler does not depend on the instructions. -/
theorem endFinally_recode :
  endFinally (f.recode code) = Request.recode code <$> endFinally f
  := by
  have hpending : (f.recode code).pending = f.pending := rfl
  rw [endFinally, endFinally, hpending]
  split
  · rfl
  · next c pending _ =>
    have hended : { f.recode code with stack := [], pending := pending }
        = ({ f with stack := [], pending := pending } : Frame).recode code := rfl
    dsimp only
    rw [hended]
    split
    · rw [Frame.continueTo_recode]
      rfl
    · rfl

/-! ### Every instruction -/

/-- An instruction does the same in a program with other instructions. -/
theorem execute_recode :
  (s.recode code).execute heap (f.recode code) i
    = Prod.map (Request.recode code) id <$> s.execute heap f i
  := by
  have hframe {x x' : Except Fault Frame} (hx : x' = Frame.recode code <$> x) :
      x'.map (fun g => (Request.proceed g, heap))
        = Prod.map (Request.recode code) id <$> x.map fun g => (Request.proceed g, heap) := by
    rw [hx]
    cases x <;> rfl
  have hheap {x x' : Except Fault (Frame × Heap)}
      (hx : x' = Prod.map (Frame.recode code) id <$> x) :
      x'.map (fun r => (Request.proceed r.1, r.2))
        = Prod.map (Request.recode code) id <$> x.map fun r => (Request.proceed r.1, r.2) := by
    rw [hx]
    cases x <;> rfl
  have hrequest {x x' : Except Fault Request} (hx : x' = Request.recode code <$> x) :
      x'.map (·, heap) = Prod.map (Request.recode code) id <$> x.map (·, heap) := by
    rw [hx]
    cases x <;> rfl
  have hresolve (t : TypeRef) : (f.recode code).resolve t = f.resolve t := rfl
  rw [execute, execute]
  cases hop : i.opcode with
  | nop => rfl
  | dup =>
      apply hframe
      rw [f.pop_recode]
      exact bind_map_congr fun r => s.push_recode f r.1
  | pop =>
      apply hframe
      rw [f.pop_recode]
      exact bind_map_congr fun r => rfl
  | ldnull | ldcI4MinusOne | ldcI4Implied _ | ldcI4 _ | ldcI8 | ldcR4 | ldcR8 | ldstr =>
      apply hframe
      rw [loadConstant_eq, loadConstant_eq]
      exact bind_congr_map fun v => s.push_recode f v
  | ldargImplied n => exact hframe (bind_congr_map fun v => s.push_recode f v)
  | ldarg w => exact hframe (bind_congr_map fun n => bind_congr_map fun v => s.push_recode f v)
  | starg w =>
      exact hframe (store_recode f fun g v => bind_congr_map fun n => g.setArg_recode n v)
  | ldlocImplied n => exact hframe (bind_congr_map fun v => s.push_recode f v)
  | ldloc w => exact hframe (bind_congr_map fun n => bind_congr_map fun v => s.push_recode f v)
  | stlocImplied n => exact hframe (store_recode f fun g v => g.setLocal_recode n v)
  | stloc w =>
      exact hframe (store_recode f fun g v => bind_congr_map fun n => g.setLocal_recode n v)
  | binary _ | shift _ | compare _ => exact hframe (s.onTopTwo_recode f _)
  | neg | not | ckfinite | conv _ | convOvf _ => exact hframe (s.onTop_recode f fun _ => rfl)
  | branch test w => exact hframe (branch_recode f i test)
  | switch => exact hframe (switch_recode f i)
  | call => exact hrequest (s.call_recode f i false)
  | callvirt => exact hrequest (s.call_recode f i true)
  | newobj => exact hrequest (s.construct_recode f i)
  | ret => exact hrequest (returnValue_recode f)
  | ldfld => exact hframe (s.loadField_recode heap f i)
  | stfld => exact hheap (s.storeField_recode heap f i)
  | ldsfld => exact hrequest (s.loadStatic_recode f i)
  | stsfld => exact hrequest (s.storeStatic_recode f i)
  | castclass => exact hframe (bind_congr_map fun t => s.onTop_recode f (s.castTo_recode _))
  | isinst =>
      refine hframe (bind_congr_map fun t => s.onTop_recode f fun v => ?_)
      rw [session_recode, Session.isInstance_recode, hresolve]
  | unboxAny => exact hframe (bind_congr_map fun t => s.onTop_recode f (s.unbox_recode _))
  | box => exact hheap (bind_congr_map fun t => s.box_recode heap f _)
  | newarr => exact hheap (bind_congr_map fun t => s.newArray_recode heap f _)
  | ldlen => exact hframe (s.onTop_recode f fun _ => rfl)
  | ldelem => exact hframe (s.loadElement_recode heap f)
  | stelem => exact hheap (storeElement_recode heap f)
  | throw => exact hrequest (throwTop_recode f)
  | rethrow => exact hrequest (rethrow_recode f)
  | leave w =>
      refine hframe (bind_congr_map fun l => bind_congr_map fun target => ?_)
      rw [f.leave_recode]
      rfl
  | endfinally => exact hrequest (endFinally_recode f)

end Surroundings

/-! ## Executions -/

/-- The machine asks for the initializer that it has asked for before, with other instructions. -/
theorem Machine.prepare_recode (machine : Machine) (session : Session) (id : TypeId) :
  machine.prepare (session.recode code) id
    = Prod.map (Option.map (RealizedMethod.recode code) <$> ·) (fun machine => machine)
        (machine.prepare session id)
  := by
  rw [prepare, prepare, session.realized?_recode]
  split
  · rfl
  · cases session.realized? id with
    | none => rfl
    | some t =>
        have hinitializer : (t.recode code).typeInitializer = t.typeInitializer := rfl
        dsimp only [Option.map_some]
        rw [hinitializer]
        cases t.typeInitializer with
        | none => rfl
        | some m =>
            dsimp only
            split
            · rw [session.methodAt_recode]
              cases session.methodAt m <;> rfl
            · rfl

/-- A method has a body if it has had one before. -/
theorem RealizedMethod.callableBody_recode (m : RealizedMethod) (typeArgs : List TypeRef) :
  (m.recode code).callableBody typeArgs = MethodBody.recode code <$> m.callableBody typeArgs
  := by
  have hbody : (m.recode code).body = m.body.map (·.recode code) := rfl
  have hname : (m.recode code).name = m.name := rfl
  have habstract : (m.recode code).isAbstract = m.isAbstract := rfl
  have hparams : (m.recode code).genericParams = m.genericParams := rfl
  rw [callableBody, callableBody, hbody, hname, habstract, hparams]
  cases m.body with
  | none => rfl
  | some body =>
      dsimp only [Option.map_some]
      split
      · rfl
      · split <;> rfl

namespace Execution

variable (session : Session) (e : Execution) (f : Frame) (callers : List Frame)

/-- A method is entered with other instructions. -/
theorem enter_recode (m : RealizedMethod) (args : List Value) (typeArgs : List TypeRef)
    (resume : Resume) :
  (e.recode code).enter (m.recode code) args typeArgs (resume.recode code)
    = (e.enter m args typeArgs resume).recode code
  := by
  have hlength : (e.recode code).frames.length = e.frames.length := List.length_map _
  have hmachine : (e.recode code).machine = e.machine := rfl
  rw [enter, enter, m.callableBody_recode, hlength, hmachine]
  cases m.callableBody typeArgs with
  | error error => rfl
  | ok body =>
      change (if _ then _ else _) = Status.recode code (if _ then _ else _)
      split <;> rfl

/-- A frame goes on with a value as before. -/
theorem complete_recode (v : Value) :
  (e.recode code).complete (f.recode code) (callers.map (·.recode code)) v
    = (e.complete f callers v).recode code
  := by
  have hmachine : (e.recode code).machine = e.machine := rfl
  rw [complete, complete, hmachine, f.push_recode]
  cases f.push e.machine.limits.maxStackDepth v <;> rfl

/-- An instruction that has waited goes on as before. -/
theorem perform_recode (rest : Deferred) :
  (e.recode code).perform (f.recode code) (callers.map (·.recode code)) (rest.recode code)
    = (e.perform f callers rest).recode code
  := by
  have hmachine : (e.recode code).machine = e.machine := rfl
  cases rest with
  | load owner slot =>
      rw [Deferred.recode, perform, perform, hmachine]
      cases e.machine.static owner slot with
      | ok v => apply complete_recode
      | error error => rfl
  | store owner slot v =>
      rw [Deferred.recode, perform, perform, hmachine]
      cases e.machine.setStatic owner slot v <;> rfl
  | call m args typeArgs =>
      rw [perform, ← enter_recode, ← Surroundings.resumeFor_recode]
      rfl
  | construct t m args typeArgs =>
      let made := e.heap.allocObject t.id (t.instanceDefaults.map Value.toStack)
      exact enter_recode ({ e with heap := made.2 }.withFrame f callers) m (.object made.1 :: args)
        typeArgs (.pushObject (.object made.1))

/-- The static side of a type is set up as before. -/
theorem prepare_recode (owner : TypeId) (rest : Deferred) :
  (e.recode code).prepare (session.recode code) (f.recode code) (callers.map (·.recode code)) owner
      (rest.recode code)
    = (e.prepare session f callers owner rest).recode code
  := by
  have hmachine : (e.recode code).machine = e.machine := rfl
  rw [prepare, prepare, hmachine, Machine.prepare_recode]
  rcases e.machine.prepare session owner with ⟨error | ⟨_ | m⟩, machine⟩
  · rfl
  · exact perform_recode { e with machine := machine } f callers rest
  · exact enter_recode ({ e with machine := machine }.withFrame f callers) m [] [] (.perform rest)

/-- A frame returns as before. -/
theorem finish_recode (v : Value) :
  (e.recode code).finish (f.recode code) (callers.map (·.recode code)) v
    = (e.finish f callers v).recode code
  := by
  cases callers with
  | nil => rfl
  | cons caller callers =>
      have hresume : (f.recode code).resume = f.resume.recode code := rfl
      rw [List.map_cons, finish, finish, hresume]
      cases f.resume with
      | pushResult => apply complete_recode
      | dropResult => rfl
      | pushObject object => apply complete_recode
      | perform rest => apply perform_recode

theorem raise_recode (exception : Value) :
  (e.recode code).raise (session.recode code) (f.recode code) (callers.map (·.recode code))
      exception
    = (e.raise session f callers exception).recode code
  := by
  have hmachine : (e.recode code).machine = e.machine := rfl
  rw [raise, raise, hmachine, ← List.map_cons, Frame.unwind_recode]
  cases Frame.unwind session e.machine.limits.maxStackDepth exception (f :: callers) with
  | error error => rfl
  | ok frames => cases frames <;> rfl

/-- A request is served as before. -/
theorem serve_recode (request : Request) :
  (e.recode code).serve (session.recode code) (callers.map (·.recode code)) (request.recode code)
    = (e.serve session callers request).recode code
  := by
  cases request with
  | proceed g => rfl
  | finish v =>
      obtain ⟨machine, heap, frames⟩ := e
      cases frames with
      | nil => rfl
      | cons f rest => exact finish_recode { machine, heap, frames := f :: rest } f callers v
  | raise g exception => exact e.raise_recode session g callers exception
  | invoke g m args typeArgs resume =>
      exact (e.withFrame g callers).enter_recode m args typeArgs resume
  | prepare g owner rest => exact e.prepare_recode session g callers owner rest

end Execution

end ManagedCode
