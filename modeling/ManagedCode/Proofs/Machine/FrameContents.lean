import ManagedCode.Proofs.Machine.Limits

/-!
# What frames hold

An instruction takes values from the stack of its frame and puts others there, in the form that the
stack has for them.  Only an instruction that stores into a local changes the locals
(`Instruction.storedLocal?`).  So what is true of all values in this form, and of the locals
whatever is stored into them, stays true of the frame (`Activation.Step.holds`).
-/

namespace ManagedCode

/-- The local that an instruction stores into. -/
def Instruction.storedLocal? (i : Instruction) : Option Nat :=
  match i.opcode, i.operand with
  | .stlocImplied n, _ => some n
  | .stloc _, .localSlot n => some n.toNat
  | _, _ => none

/-- The index that an instruction stores at is that of its operand. -/
theorem Instruction.localIndex_stored {i : Instruction} {w : Width} (hop : i.opcode = .stloc w) :
  Yields True (fun n => i.storedLocal? = some n) i.localIndex
  := by
  rw [localIndex]
  split
  · next n hoperand =>
    change i.storedLocal? = some n.toNat
    rw [storedLocal?, hop, hoperand]
  · trivial

/-- What waits for the initializer of a type stores a value of a kind. -/
def Deferred.Holds (V : Value → Prop) : Deferred → Prop
  | store _ _ v => V v
  | _ => True

/-- What a frame waits to store has the property. -/
def Phase.Holds (V : Value → Prop) : Phase → Prop
  | waiting (.perform rest) => rest.Holds V
  | _ => True

/-- Every phase has the trivial property. -/
theorem Phase.holds_true (phase : Phase) : phase.Holds fun _ => True := by
  cases phase with
  | waiting resume =>
      cases resume with
      | perform rest => cases rest <;> trivial
      | _ => trivial
  | _ => trivial

/-- The values on the stack of a frame are of a kind, and so are all locals together. -/
structure Frame.Holds (V : Value → Prop) (L : List Value → Prop) (f : Frame) : Prop where
  stack : ∀ v ∈ f.stack, V v
  locals : L f.locals

/-- The values that a frame has, and the one that it waits to store, have the property, and so have
its locals as a list. -/
structure Activation.Holds (V : Value → Prop) (L : List Value → Prop) (a : Activation) :
    Prop where
  frame : a.frame.Holds V L
  phase : a.phase.Holds V

variable {V : Value → Prop} {L : List Value → Prop}

namespace Frame

variable {f : Frame}

/-- The property is kept when the stack is cleared. -/
theorem Holds.cleared (h : f.Holds V L) (g : Frame) (hstack : g.stack = [])
    (hlocals : g.locals = f.locals) :
  g.Holds V L
  := by
  constructor
  · rw [hstack]
    rintro v ⟨⟩
  · rw [hlocals]
    exact h.locals

/-- It is kept by a push, for every value in stack form has it. -/
theorem Holds.push (hV : ∀ v : Value, V v.toStack) (h : f.Holds V L) (limit : Nat) (v : Value) :
  Yields True (Holds V L) (f.push limit v)
  := by
  rw [Frame.push]
  split
  · exact ⟨List.forall_mem_cons.mpr ⟨hV v, h.stack⟩, h.locals⟩
  · trivial

/-- What is popped has the property, and the rest keeps it. -/
theorem Holds.pop (h : f.Holds V L) :
  Yields True (fun r => V r.1 ∧ r.2.Holds V L) f.pop
  := by
  rw [Frame.pop]
  split
  · next v rest hstack =>
    have hvalues := h.stack
    rw [hstack, List.forall_mem_cons] at hvalues
    exact ⟨hvalues.1, hvalues.2, h.locals⟩
  · trivial

theorem Holds.popMany (h : f.Holds V L) (n : Nat) :
  Yields True (fun r => r.2.Holds V L) (f.popMany n)
  := by
  rw [Frame.popMany]
  split
  · trivial
  · exact ⟨fun v hv => h.stack v (List.mem_of_mem_drop hv), h.locals⟩

/-- A store into a local keeps what the locals have if the new list has it. -/
theorem Holds.setLocal
    (h : f.Holds V L) (i : Nat) {v : Value} (hset : L f.locals → L (f.locals.set i v)) :
  Yields True (Holds V L) (f.setLocal i v)
  := by
  rw [Frame.setLocal]
  split
  · exact ⟨h.stack, hset h.locals⟩
  · trivial

/-- A store into an argument changes neither the stack nor the locals. -/
theorem Holds.setArg (h : f.Holds V L) (i : Nat) (v : Value) :
  Yields True (Holds V L) (f.setArg i v)
  := by
  rw [Frame.setArg]
  split
  · exact ⟨h.stack, h.locals⟩
  · trivial

/-- The way to a target leaves the locals as they are. -/
theorem locals_continueTo (f : Frame) (target : Nat) (finallies : List Nat) :
  (f.continueTo target finallies).locals = f.locals
  := by
  cases finallies <;> rfl

/-- A handler starts with nothing on the stack, or with the exception. -/
theorem Holds.raise
    (hV : ∀ v : Value, V v.toStack) (h : f.Holds V L) {session : Session} {limit : Nat}
    {exception : Value} {g : Frame} (hraise : f.raise session limit exception = .ok (some g)) :
  g.Holds V L
  := by
  obtain ⟨index, r, -, -, hcatches⟩ := raise_ok hraise
  cases hcatches with
  | finalizing => exact h.cleared _ rfl rfl
  | catching =>
      exact ⟨List.forall_mem_singleton.mpr (hV exception), h.locals⟩

end Frame

/-! ## Instructions -/

/-- What the frame that asks for something is left with. -/
def Request.Holds (V : Value → Prop) (L : List Value → Prop) (r : Request) : Prop :=
  ∀ a ∈ r.after, a.Holds V L

/-- A frame that goes on has what its request has. -/
theorem Request.holds_proceed {f : Frame} (h : f.Holds V L) : (Request.proceed f).Holds V L := by
  rintro a ⟨⟩
  exact ⟨h, trivial⟩

namespace Surroundings

variable {s : Surroundings} {heap : Heap} {f : Frame}

/-- An instruction that pushes keeps the property. -/
theorem push_holds
    (hV : ∀ v : Value, V v.toStack) (s : Surroundings) (h : f.Holds V L) (v : Value) :
  Yields True (Frame.Holds V L) (s.push f v)
  := Yields.bind (h.push hV s.stackLimit v) fun _ hg => ⟨hg.stack, hg.locals⟩

/-- So does one that replaces the top of the stack. -/
theorem onTop_holds
    (hV : ∀ v : Value, V v.toStack) (s : Surroundings) (h : f.Holds V L)
    (op : Value → Except Fault Value) :
  Yields True (Frame.Holds V L) (s.onTop f op)
  := by
  apply Yields.bind h.pop
  rintro ⟨v, g⟩ ⟨-, hg⟩
  apply Yields.bind (Yields.any (op v))
  intro u _
  exact push_holds hV s hg u

/-- So does one that replaces the two values on top. -/
theorem onTopTwo_holds (hV : ∀ v : Value, V v.toStack) (s : Surroundings) (h : f.Holds V L)
    (op : Value → Value → Except Fault Value) :
  Yields True (Frame.Holds V L) (s.onTopTwo f op)
  := by
  apply Yields.bind h.pop
  rintro ⟨b, g⟩ ⟨-, hg⟩
  apply Yields.bind hg.pop
  rintro ⟨a, g⟩ ⟨-, hg⟩
  apply Yields.bind (Yields.any (op a b))
  intro u _
  exact push_holds hV s hg u

/-- Storing the top of the stack keeps what the store keeps of the values on it. -/
theorem store_holds (h : f.Holds V L) {set : Frame → Value → Except Fault Frame}
    (hset : ∀ g v, g.Holds V L → V v → Yields True (Frame.Holds V L) (set g v)) :
  Yields True (Frame.Holds V L) (store f set)
  := by
  apply Yields.bind h.pop
  rintro ⟨v, g⟩ ⟨hv, hg⟩
  apply Yields.bind (hset g v hg hv)
  intro g hg
  exact ⟨hg.stack, hg.locals⟩

theorem loadConstant_holds
    (hV : ∀ v : Value, V v.toStack) (s : Surroundings) (h : f.Holds V L) (i : Instruction) :
  Yields True (Frame.Holds V L) (s.loadConstant f i)
  := by
  rw [loadConstant_eq]
  exact Yields.bind (Yields.any i.constant) fun v _ => push_holds hV s h v

/-- A test takes values away. -/
theorem testBranch_holds (h : f.Holds V L) (test : BranchTest) (op : String) :
  Yields True (fun r => r.2.Holds V L) (testBranch f test op)
  := by
  cases test with
  | always => exact h
  | isTrue => exact Yields.bind h.pop fun _ hr => hr.2
  | isFalse => exact Yields.bind h.pop fun _ hr => hr.2
  | compare c =>
      apply Yields.bind h.pop
      rintro ⟨b, g⟩ ⟨-, hg⟩
      apply Yields.bind hg.pop
      rintro ⟨a, g⟩ ⟨-, hg⟩
      exact Yields.bind (Yields.any (c.eval op a b)) fun _ _ => hg

/-- So does a branch. -/
theorem branch_holds (h : f.Holds V L) (i : Instruction) (test : BranchTest) :
  Yields True (Frame.Holds V L) (branch f i test)
  := by
  apply Yields.bind (Yields.any i.label)
  intro l _
  apply Yields.bind (testBranch_holds h test _)
  rintro ⟨taken, g⟩ hg
  dsimp only
  split
  · exact Yields.bind (Yields.any (g.target l)) fun _ _ => ⟨hg.stack, hg.locals⟩
  · exact ⟨hg.stack, hg.locals⟩

/-- So does a selection. -/
theorem switch_holds (h : f.Holds V L) (i : Instruction) :
  Yields True (Frame.Holds V L) (switch f i)
  := by
  rw [switch]
  split
  · apply Yields.bind h.pop
    rintro ⟨v, g⟩ ⟨-, hg⟩
    dsimp only
    split
    · trivial
    · split
      · exact Yields.bind (Yields.any (g.target _)) fun _ _ => ⟨hg.stack, hg.locals⟩
      · exact ⟨hg.stack, hg.locals⟩
  · trivial

/-- The value of a field is pushed in stack form. -/
theorem loadField_holds
    (hV : ∀ v : Value, V v.toStack) (s : Surroundings) (heap : Heap) (h : f.Holds V L)
    (i : Instruction) :
  Yields True (Frame.Holds V L) (s.loadField heap f i)
  := by
  apply Yields.bind (Yields.any i.fieldRef)
  intro handle _
  apply Yields.bind (Yields.any (s.session.fieldAt handle))
  intro field _
  apply Yields.bind h.pop
  rintro ⟨receiver, g⟩ ⟨-, hg⟩
  dsimp only
  split
  · trivial
  · split
    · exact push_holds hV s hg _
    · trivial
  · exact push_holds hV s hg _
  · trivial

/-- A write of a field takes values away. -/
theorem storeField_holds (s : Surroundings) (heap : Heap) (h : f.Holds V L) (i : Instruction) :
  Yields True (fun r => r.1.Holds V L) (s.storeField heap f i)
  := by
  apply Yields.bind (Yields.any i.fieldRef)
  intro handle _
  apply Yields.bind (Yields.any (s.session.fieldAt handle))
  intro field _
  apply Yields.bind h.pop
  rintro ⟨v, g⟩ ⟨-, hg⟩
  apply Yields.bind hg.pop
  rintro ⟨receiver, g⟩ ⟨-, hg⟩
  dsimp only
  split
  · trivial
  · split
    · exact ⟨hg.stack, hg.locals⟩
    · trivial
  · trivial

/-- A box is pushed in stack form. -/
theorem box_holds
    (hV : ∀ v : Value, V v.toStack) (s : Surroundings) (heap : Heap) (h : f.Holds V L)
    (t : TypeRef) :
  Yields True (fun r => r.1.Holds V L) (s.box heap f t)
  := by
  apply Yields.bind h.pop
  rintro ⟨v, g⟩ ⟨-, hg⟩
  exact Yields.bind (push_holds hV s hg _) fun _ hg => hg

theorem newArray_holds
    (hV : ∀ v : Value, V v.toStack) (s : Surroundings) (heap : Heap) (h : f.Holds V L)
    (element : TypeRef) :
  Yields True (fun r => r.1.Holds V L) (s.newArray heap f element)
  := by
  apply Yields.bind h.pop
  rintro ⟨length, g⟩ ⟨-, hg⟩
  dsimp only
  split
  · trivial
  · split
    · trivial
    · exact Yields.bind (push_holds hV s hg _) fun _ hg => hg

/-- So is an item of an array. -/
theorem loadElement_holds
    (hV : ∀ v : Value, V v.toStack) (s : Surroundings) (heap : Heap) (h : f.Holds V L) :
  Yields True (Frame.Holds V L) (s.loadElement heap f)
  := by
  apply Yields.bind h.pop
  rintro ⟨index, g⟩ ⟨-, hg⟩
  apply Yields.bind hg.pop
  rintro ⟨array, g⟩ ⟨-, hg⟩
  apply Yields.bind (Yields.any (expectArray array))
  intro r _
  apply Yields.bind (Yields.any (checkIndex index (heap.length r)))
  intro n _
  exact push_holds hV s hg _

theorem storeElement_holds (heap : Heap) (h : f.Holds V L) :
  Yields True (fun r => r.1.Holds V L) (storeElement heap f)
  := by
  apply Yields.bind h.pop
  rintro ⟨v, g⟩ ⟨-, hg⟩
  apply Yields.bind hg.pop
  rintro ⟨index, g⟩ ⟨-, hg⟩
  apply Yields.bind hg.pop
  rintro ⟨array, g⟩ ⟨-, hg⟩
  apply Yields.bind (Yields.any (expectArray array))
  intro r _
  apply Yields.bind (Yields.any (checkIndex index (heap.length r)))
  intro n _
  exact ⟨hg.stack, hg.locals⟩

/-- A read of a static field has nothing to store. -/
theorem loadStatic_holds
    (hV : ∀ v : Value, V v.toStack) (s : Surroundings) (h : f.Holds V L) (i : Instruction) :
  Yields True (Request.Holds V L) (s.loadStatic f i)
  := by
  apply Yields.bind (Yields.any i.fieldRef)
  intro handle _
  apply Yields.bind (Yields.any (s.session.fieldAt handle))
  intro field _
  split
  · rintro a ⟨⟩
    exact ⟨h, trivial⟩
  · exact Yields.bind (push_holds hV s h _) fun _ hg => Request.holds_proceed hg
  · trivial

/-- A write of a static field stores a value of the stack. -/
theorem storeStatic_holds (s : Surroundings) (h : f.Holds V L) (i : Instruction) :
  Yields True (Request.Holds V L) (s.storeStatic f i)
  := by
  apply Yields.bind (Yields.any i.fieldRef)
  intro handle _
  apply Yields.bind (Yields.any (s.session.fieldAt handle))
  intro field _
  apply Yields.bind h.pop
  rintro ⟨v, g⟩ ⟨hv, hg⟩
  dsimp only
  split
  · rintro a ⟨⟩
    exact ⟨hg, hv⟩
  · trivial

/-- A call takes its arguments from the stack. -/
theorem call_holds (s : Surroundings) (h : f.Holds V L) (i : Instruction) (dispatched : Bool) :
  Yields True (Request.Holds V L) (s.call f i dispatched)
  := by
  have hwaiting : ∀ {g : Frame} (m : RealizedMethod), g.Holds V L →
      Activation.Holds V L ⟨g, .waiting (resumeFor m)⟩ := by
    intro g m hg
    refine ⟨hg, ?_⟩
    rw [resumeFor]
    split <;> trivial
  apply Yields.bind (Yields.any i.methodRef)
  rintro ⟨handle, typeArgs⟩ _
  apply Yields.bind (Yields.any (s.session.methodAt handle))
  intro m _
  apply Yields.bind (h.popMany _)
  rintro ⟨args, g⟩ hg
  dsimp only
  split
  · rintro a ⟨⟩
    exact ⟨hg, trivial⟩
  · split
    · split
      · trivial
      · apply Yields.bind (Yields.any (s.session.dispatch _ m))
        rintro target - a ⟨⟩
        exact hwaiting target hg
    · rintro a ⟨⟩
      exact hwaiting m hg

/-- So does the construction of an object. -/
theorem construct_holds (s : Surroundings) (h : f.Holds V L) (i : Instruction) :
  Yields True (Request.Holds V L) (s.construct f i)
  := by
  apply Yields.bind (Yields.any i.methodRef)
  rintro ⟨handle, typeArgs⟩ _
  apply Yields.bind (Yields.any (s.session.methodAt handle))
  intro m _
  apply Yields.bind (Yields.any (s.session.typeAt handle.owner))
  intro t _
  apply Yields.bind (h.popMany _)
  rintro ⟨args, g⟩ hg
  dsimp only
  split
  · rintro a ⟨⟩
    exact ⟨hg, trivial⟩
  · trivial

theorem returnValue_holds (f : Frame) : Yields True (Request.Holds V L) (returnValue f) := by
  rw [returnValue]
  split
  · rintro a ⟨⟩
  · apply Yields.bind (Yields.any f.pop)
    rintro ⟨v, g⟩ - a ⟨⟩

/-- What is thrown has been on the stack. -/
theorem throwTop_holds (h : f.Holds V L) : Yields True (Request.Holds V L) (throwTop f) := by
  apply Yields.bind h.pop
  rintro ⟨v, g⟩ ⟨-, hg⟩
  dsimp only
  split
  · trivial
  · rintro a ⟨⟩
    exact ⟨hg, trivial⟩

theorem rethrow_holds (h : f.Holds V L) : Yields True (Request.Holds V L) (rethrow f) := by
  rw [rethrow]
  split
  · rintro a ⟨⟩
    exact ⟨h, trivial⟩
  · trivial

/-- The end of a finally handler clears the stack. -/
theorem endFinally_holds (h : f.Holds V L) : Yields True (Request.Holds V L) (endFinally f) := by
  rw [endFinally]
  split
  · trivial
  · next c pending _ =>
    cases c with
    | leave region target remaining =>
        apply Request.holds_proceed
        apply h.cleared
        · apply Frame.continueTo_stack
        · apply Frame.locals_continueTo
    | unwind region exception =>
        rintro a ⟨⟩
        exact ⟨h.cleared _ rfl rfl, trivial⟩

/-- Whatever an instruction asks for, its frame still holds what it held. -/
theorem execute_holds
    (hV : ∀ v : Value, V v.toStack) (s : Surroundings) (heap : Heap) (h : f.Holds V L)
    {i : Instruction} (hset : ∀ n ls v, i.storedLocal? = some n → L ls → V v → L (ls.set n v)) :
  Yields True (fun r => r.1.Holds V L) (s.execute heap f i)
  := by
  have hframe : ∀ {x : Except Fault Frame}, Yields True (Frame.Holds V L) x →
      Yields True (fun r => r.1.Holds V L) (x.map fun g => (Request.proceed g, heap)) :=
    fun hx => hx.map fun _ hg => Request.holds_proceed hg
  have hheap : ∀ {x : Except Fault (Frame × Heap)}, Yields True (fun r => r.1.Holds V L) x →
      Yields True (fun r => r.1.Holds V L)
        (x.map fun r => (Request.proceed r.1, r.2)) :=
    fun hx => hx.map fun _ hg => Request.holds_proceed hg
  have hrequest : ∀ {x : Except Fault Request}, Yields True (Request.Holds V L) x →
      Yields True (fun r => r.1.Holds V L) (x.map (·, heap)) :=
    fun hx => hx.map fun _ hr => hr
  have hpush : ∀ (x : Except Fault Value),
      Yields True (Frame.Holds V L) (x >>= fun v => s.push f v) :=
    fun x => Yields.bind (Yields.any x) fun v _ => push_holds hV s h v
  have hadvance : ∀ {g : Frame}, g.Holds V L → g.advance.Holds V L :=
    fun hg => ⟨hg.stack, hg.locals⟩
  rw [execute]
  cases hop : i.opcode with
  | nop => exact hframe (hadvance h)
  | dup => exact hframe (Yields.bind (Yields.any f.pop) fun r _ => push_holds hV s h r.1)
  | pop => exact hframe (Yields.bind h.pop fun _ hr => hadvance hr.2)
  | ldnull | ldcI4MinusOne | ldcI4Implied _ | ldcI4 _ | ldcI8 | ldcR4 | ldcR8 | ldstr =>
      exact hframe (loadConstant_holds hV s h i)
  | ldargImplied n => exact hframe (hpush (f.argAt n))
  | ldarg _ =>
      exact hframe (Yields.bind (Yields.any i.argIndex) fun n _ => hpush (f.argAt n))
  | starg _ =>
      refine hframe (store_holds h fun g v hg _ => ?_)
      exact Yields.bind (Yields.any i.argIndex) fun n _ => hg.setArg n v
  | ldlocImplied n => exact hframe (hpush (f.localAt n))
  | ldloc _ =>
      exact hframe (Yields.bind (Yields.any i.localIndex) fun n _ => hpush (f.localAt n))
  | stlocImplied n =>
      have hstored : i.storedLocal? = some n.val := by rw [Instruction.storedLocal?, hop]
      refine hframe (store_holds h fun g v hg hv => ?_)
      exact hg.setLocal n fun hls => hset n _ v hstored hls hv
  | stloc _ =>
      refine hframe (store_holds h fun g v hg hv => ?_)
      apply Yields.bind (Instruction.localIndex_stored hop)
      intro n hstored
      exact hg.setLocal n fun hls => hset n _ v hstored hls hv
  | binary op => exact hframe (onTopTwo_holds hV s h _)
  | shift op => exact hframe (onTopTwo_holds hV s h _)
  | neg => exact hframe (onTop_holds hV s h _)
  | not => exact hframe (onTop_holds hV s h _)
  | ckfinite => exact hframe (onTop_holds hV s h _)
  | compare op => exact hframe (onTopTwo_holds hV s h _)
  | conv target => exact hframe (onTop_holds hV s h _)
  | convOvf target => exact hframe (onTop_holds hV s h _)
  | branch test _ => exact hframe (branch_holds h i test)
  | switch => exact hframe (switch_holds h i)
  | call => exact hrequest (s.call_holds h i false)
  | callvirt => exact hrequest (s.call_holds h i true)
  | newobj => exact hrequest (s.construct_holds h i)
  | ret => exact hrequest (returnValue_holds f)
  | ldfld => exact hframe (loadField_holds hV s heap h i)
  | stfld => exact hheap (s.storeField_holds heap h i)
  | ldsfld => exact hrequest (loadStatic_holds hV s h i)
  | stsfld => exact hrequest (s.storeStatic_holds h i)
  | castclass =>
      exact hframe (Yields.bind (Yields.any i.typeRef) fun t _ => onTop_holds hV s h _)
  | isinst => exact hframe (Yields.bind (Yields.any i.typeRef) fun t _ => onTop_holds hV s h _)
  | box => exact hheap (Yields.bind (Yields.any i.typeRef) fun t _ => box_holds hV s heap h _)
  | unboxAny =>
      exact hframe (Yields.bind (Yields.any i.typeRef) fun t _ => onTop_holds hV s h _)
  | newarr =>
      exact hheap (Yields.bind (Yields.any i.typeRef) fun t _ => newArray_holds hV s heap h _)
  | ldlen => exact hframe (onTop_holds hV s h _)
  | ldelem => exact hframe (loadElement_holds hV s heap h)
  | stelem => exact hheap (storeElement_holds heap h)
  | throw => exact hrequest (throwTop_holds h)
  | rethrow => exact hrequest (rethrow_holds h)
  | leave _ =>
      apply hframe
      apply Yields.bind (Yields.any i.label)
      intro l _
      apply Yields.bind (Yields.any (f.target l))
      intro target _
      apply h.cleared
      · apply Frame.continueTo_stack
      · apply Frame.locals_continueTo
  | endfinally => exact hrequest (endFinally_holds h)

end Surroundings

/-- The steps of a frame keep what it holds, unless a store changes that. -/
theorem Activation.Step.holds
    (hV : ∀ v : Value, V v.toStack) {session : Session} {limit : Nat} {a b : Activation}
    (hstep : Step session limit a b) (h : a.Holds V L)
    (hset : a.phase = .ready → ∀ i, a.frame.body.instructions[a.frame.ip]? = some i →
      ∀ n ls v, i.storedLocal? = some n → L ls → V v → L (ls.set n v)) :
  b.Holds V L
  := by
  have hframe := h.frame
  cases hstep with
  | execute hinstruction hexecute hafter =>
      exact (Surroundings.execute_holds hV _ _ hframe (hset rfl _ hinstruction)).of_ok
        hexecute _ hafter
  | passed => exact ⟨hframe, trivial⟩
  | handled hraise => exact ⟨hframe.raise hV hraise, trivial⟩
  | result hpush | object hpush | loaded hpush =>
      have hg := (hframe.push hV limit _).of_ok hpush
      exact ⟨⟨hg.stack, hg.locals⟩, trivial⟩
  | dropped | stored => exact ⟨⟨hframe.stack, hframe.locals⟩, trivial⟩
  | @called f m args typeArgs =>
      refine ⟨hframe, ?_⟩
      dsimp only
      rw [Surroundings.resumeFor]
      split <;> trivial
  | constructed => exact ⟨hframe, trivial⟩

end ManagedCode
