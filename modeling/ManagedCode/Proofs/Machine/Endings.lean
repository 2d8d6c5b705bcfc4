import ManagedCode.Proofs.Machine.Requests

/-!
# How instructions fail

An instruction that its operand fits, and whose labels stand for something, ends in an
`Ordinary` fault: control is not lost, no budget is exceeded and no exception gets out
(`Surroundings.execute_faults`).  A step ends as its instruction does, unless the budget is
exceeded (`Execution.step_ends`).
-/

namespace ManagedCode

/-! ## The stack -/

namespace Frame

/-- Taking a value fails only for lack of one. -/
theorem pop_faults (f : Frame) : Faults Fault.Ordinary f.pop := by
  rw [pop]
  split <;> trivial

theorem popMany_faults (f : Frame) (n : Nat) : Faults Fault.Ordinary (f.popMany n) := by
  rw [popMany]
  split <;> trivial

/-- A label has the same target throughout an activation. -/
theorem SameCall.target_eq {f g : Frame} (h : f.SameCall g) (l : Label) :
  g.target l = f.target l
  := by
  rw [target, target, h.body, h.method]

end Frame

/-! ## Operands -/

namespace Instruction

variable {P : Fault → Prop} {i : Instruction} {kind : OperandKind}

/-- An instruction whose operand does not fit has a fault with the property `P`. -/
def Usable (P : Fault → Prop) (i : Instruction) : Prop :=
  i.operand.fits i.opcode.operandKind = false → P i.malformed

/-- What is said of an operand of the wrong kind has the property. -/
theorem Usable.malformed
    (hi : i.Usable P) (hkind : i.opcode.operandKind = kind) (hfits : i.operand.fits kind = false) :
  P i.malformed
  := by
  subst hkind
  exact hi hfits

/-- An instruction that names an argument only fails as its operand allows. -/
theorem argIndex_faults {w : Width}
    (hi : i.Usable P) (hop : i.opcode = .ldarg w ∨ i.opcode = .starg w) :
  Faults P i.argIndex
  := by
  obtain ⟨op, operand⟩ := i
  cases operand with
  | arg n => trivial
  | _ => rcases hop with rfl | rfl <;> cases w <;> exact hi rfl

theorem localIndex_faults {w : Width}
    (hi : i.Usable P) (hop : i.opcode = .ldloc w ∨ i.opcode = .stloc w) :
  Faults P i.localIndex
  := by
  obtain ⟨op, operand⟩ := i
  cases operand with
  | localSlot n => trivial
  | _ => rcases hop with rfl | rfl <;> cases w <;> exact hi rfl

/-- An instruction that names a label only fails as its operand allows. -/
theorem label_faults (hi : i.Usable P) (hkind : i.opcode.operandKind = .label) :
  Faults P i.label
  := by
  obtain ⟨op, operand⟩ := i
  cases operand with
  | label l => trivial
  | _ => exact hi.malformed hkind rfl

/-- The label of an instruction is one that its operand names. -/
theorem mem_labels_of_label {l : Label} (hl : i.label = .ok l) : l ∈ i.operand.labels := by
  have hyields : Yields False (fun l => i.operand = .label l) i.label := i.label_yields
  rw [hyields.of_ok hl]
  apply List.mem_singleton_self

/-- So does one that names a field. -/
theorem fieldRef_faults (hi : i.Usable P) (hkind : i.opcode.operandKind = .field) :
  Faults P i.fieldRef
  := by
  obtain ⟨op, operand⟩ := i
  cases operand with
  | field target => trivial
  | _ => exact hi.malformed hkind rfl

/-- So does one that names a type. -/
theorem typeRef_faults (hi : i.Usable P) (hkind : i.opcode.operandKind = .type) :
  Faults P i.typeRef
  := by
  obtain ⟨op, operand⟩ := i
  cases operand with
  | type target => trivial
  | _ => exact hi.malformed hkind rfl

/-- So does one that names a method. -/
theorem methodRef_faults (hi : i.Usable P) (hkind : i.opcode.operandKind = .method) :
  Faults P i.methodRef
  := by
  obtain ⟨op, operand⟩ := i
  cases operand with
  | method target | genericMethod target typeArgs => trivial
  | _ => exact hi.malformed hkind rfl

end Instruction

/-! ## Instructions -/

/-- The opcodes that load a constant. -/
def Opcode.LoadsConstant : Opcode → Prop
  | ldnull | ldcI4MinusOne | ldcI4Implied _ | ldcI4 _ | ldcI8 | ldcR4 | ldcR8 | ldstr => True
  | _ => False

/-- An instruction that loads a constant only fails as its operand allows. -/
theorem Instruction.constant_faults {P : Fault → Prop} {i : Instruction}
    (hi : i.Usable P) (hload : i.opcode.LoadsConstant) :
  Faults P i.constant
  := by
  obtain ⟨op, operand⟩ := i
  cases op with
  | ldnull | ldcI4MinusOne | ldcI4Implied v => trivial
  | ldcI4 w =>
      cases operand with
      | i32 v => trivial
      | _ => cases w <;> exact hi rfl
  | ldcI8 =>
      cases operand with
      | i64 v => trivial
      | _ => exact hi rfl
  | ldcR4 =>
      cases operand with
      | f32 v => trivial
      | _ => exact hi rfl
  | ldcR8 =>
      cases operand with
      | f64 v => trivial
      | _ => exact hi rfl
  | ldstr =>
      cases operand with
      | str v => trivial
      | _ => exact hi rfl
  | _ => cases hload

namespace Surroundings

variable {P : Fault → Prop} {s : Surroundings} {heap : Heap} {f : Frame} {i : Instruction}

/-- A push fails only for lack of room. -/
theorem push_faults (s : Surroundings) (f : Frame) (v : Value) :
  Faults Fault.Ordinary (s.push f v)
  := Faults.bind (f.push_faults s.stackLimit v).ordinary fun _ _ => trivial

/-- An operation on the top of the stack fails as the stack does, or as the operation. -/
theorem onTop_faults {op : Value → Except Fault Value} (hop : ∀ v, Faults Fault.Plain (op v)) :
  Faults Fault.Ordinary (s.onTop f op)
  := by
  apply Faults.bind f.pop_faults
  intro r _
  apply Faults.bind (hop r.1).ordinary
  intro v _
  apply push_faults

theorem onTopTwo_faults {op : Value → Value → Except Fault Value}
    (hop : ∀ a b, Faults Fault.Plain (op a b)) :
  Faults Fault.Ordinary (s.onTopTwo f op)
  := by
  apply Faults.bind f.pop_faults
  intro b _
  apply Faults.bind b.2.pop_faults
  intro a _
  apply Faults.bind (hop a.1 b.1).ordinary
  intro v _
  apply push_faults

/-- Storing the top of the stack fails as the stack does, or as the store. -/
theorem store_faults {set : Frame → Value → Except Fault Frame}
    (hP : ∀ error, error.Ordinary → P error) (hset : ∀ g v, Faults P (set g v)) :
  Faults P (store f set)
  := by
  apply Faults.bind (f.pop_faults.mono hP)
  intro r _
  exact Faults.bind (hset r.2 r.1) fun _ _ => trivial

theorem loadConstant_faults
    (hP : ∀ error, error.Ordinary → P error) (hi : i.Usable P) (hload : i.opcode.LoadsConstant) :
  Faults P (s.loadConstant f i)
  := by
  rw [loadConstant_eq]
  exact Faults.bind (i.constant_faults hi hload) fun v _ => (s.push_faults f v).mono hP

/-- A test fails for lack of values, or on values that have no order. -/
theorem testBranch_faults (f : Frame) (test : BranchTest) (op : String) :
  Faults Fault.Ordinary (testBranch f test op)
  := by
  cases test with
  | always => trivial
  | isTrue | isFalse => exact Faults.bind f.pop_faults fun _ _ => trivial
  | compare c =>
      apply Faults.bind f.pop_faults
      intro b _
      apply Faults.bind b.2.pop_faults
      intro a _
      exact Faults.bind (c.eval_faults op a.1 b.1).ordinary fun _ _ => trivial

/-- A branch fails as its operand allows, or as its label does. -/
theorem branch_faults
    (hP : ∀ error, error.Ordinary → P error) (hi : i.Usable P)
    (hlabels : ∀ l ∈ i.operand.labels, Faults P (f.target l)) {test : BranchTest} {w : Width}
    (hop : i.opcode = .branch test w) :
  Faults P (branch f i test)
  := by
  apply Faults.bind (i.label_faults hi (by rw [hop]; rfl))
  intro l hl
  apply Faults.bind ((testBranch_faults f test _).mono hP)
  rintro ⟨taken, g⟩ htest
  have hcall : f.SameCall g :=
    ((testBranch_yields f test _).of_ok htest).1.toSameCall
  dsimp only
  split
  · rw [hcall.target_eq]
    exact Faults.bind (hlabels l (i.mem_labels_of_label hl)) fun _ _ => trivial
  · trivial

/-- So does a selection. -/
theorem switch_faults
    (hP : ∀ error, error.Ordinary → P error) (hi : i.Usable P)
    (hlabels : ∀ l ∈ i.operand.labels, Faults P (f.target l)) (hop : i.opcode = .switch) :
  Faults P (switch f i)
  := by
  obtain ⟨op, operand⟩ := i
  cases operand with
  | switch labels =>
      apply Faults.bind (f.pop_faults.mono hP)
      rintro ⟨v, g⟩ hpop
      have hcall : f.SameCall g := (f.pop_yields.of_ok hpop).1.toSameCall
      dsimp only
      split
      · exact hP _ trivial
      · split
        · next l hl =>
          rw [hcall.target_eq]
          exact Faults.bind (hlabels l (List.mem_of_getElem? hl)) fun _ _ => trivial
        · trivial
  | _ =>
      obtain rfl : op = .switch := hop
      exact hi rfl

/-! ### Objects and arrays -/

/-- Reading a field fails as the operand allows, or in an ordinary way. -/
theorem loadField_faults
    (hP : ∀ error, error.Ordinary → P error) (hi : i.Usable P) (hop : i.opcode = .ldfld) :
  Faults P (s.loadField heap f i)
  := by
  apply Faults.bind (i.fieldRef_faults hi (by rw [hop]; rfl))
  intro handle _
  apply Faults.mono _ hP
  apply Faults.bind (s.session.fieldAt_faults handle).ordinary
  intro field _
  apply Faults.bind f.pop_faults
  intro r _
  dsimp only
  split
  · trivial
  · split
    · apply push_faults
    · simp [Faults, Fault.Ordinary, Fault.Derailing, Fault.derailments]
  · apply push_faults
  · trivial

/-- So does writing one. -/
theorem storeField_faults
    (hP : ∀ error, error.Ordinary → P error) (hi : i.Usable P) (hop : i.opcode = .stfld) :
  Faults P (s.storeField heap f i)
  := by
  apply Faults.bind (i.fieldRef_faults hi (by rw [hop]; rfl))
  intro handle _
  apply Faults.mono _ hP
  apply Faults.bind (s.session.fieldAt_faults handle).ordinary
  intro field _
  apply Faults.bind f.pop_faults
  intro v _
  apply Faults.bind v.2.pop_faults
  intro receiver _
  dsimp only
  split
  · trivial
  · split
    · trivial
    · next reason hset =>
      rw [Heap.setSlot] at hset
      split at hset
      · cases hset
      · cases hset
        simp [Faults, Fault.Ordinary, Fault.Derailing, Fault.derailments]
  · trivial

/-- Boxing fails in an ordinary way. -/
theorem box_faults (s : Surroundings) (heap : Heap) (f : Frame) (t : TypeRef) :
  Faults Fault.Ordinary (s.box heap f t)
  := by
  apply Faults.bind f.pop_faults
  intro r _
  exact Faults.bind (s.push_faults r.2 _) fun _ _ => trivial

theorem newArray_faults (s : Surroundings) (heap : Heap) (f : Frame) (t : TypeRef) :
  Faults Fault.Ordinary (s.newArray heap f t)
  := by
  apply Faults.bind f.pop_faults
  intro r _
  dsimp only
  split
  · trivial
  · split
    · trivial
    · exact Faults.bind (s.push_faults r.2 _) fun _ _ => trivial

/-- So does reading an item of an array. -/
theorem loadElement_faults (s : Surroundings) (heap : Heap) (f : Frame) :
  Faults Fault.Ordinary (s.loadElement heap f)
  := by
  apply Faults.bind f.pop_faults
  intro index _
  apply Faults.bind index.2.pop_faults
  intro array _
  apply Faults.bind (expectArray_faults array.1).ordinary
  intro r _
  apply Faults.bind (checkIndex_faults index.1 _).ordinary
  intro n _
  apply push_faults

theorem storeElement_faults (heap : Heap) (f : Frame) :
  Faults Fault.Ordinary (storeElement heap f)
  := by
  apply Faults.bind f.pop_faults
  intro v _
  apply Faults.bind v.2.pop_faults
  intro index _
  apply Faults.bind index.2.pop_faults
  intro array _
  apply Faults.bind (expectArray_faults array.1).ordinary
  intro r _
  exact Faults.bind (checkIndex_faults index.1 _).ordinary fun _ _ => trivial

/-! ### Requests to the machine -/

/-- Reading a static field fails as the operand allows, or in an ordinary way. -/
theorem loadStatic_faults
    (hP : ∀ error, error.Ordinary → P error) (hi : i.Usable P) (hop : i.opcode = .ldsfld) :
  Faults P (s.loadStatic f i)
  := by
  apply Faults.bind (i.fieldRef_faults hi (by rw [hop]; rfl))
  intro handle _
  apply Faults.mono _ hP
  apply Faults.bind (s.session.fieldAt_faults handle).ordinary
  intro field _
  split
  · trivial
  · exact Faults.bind (s.push_faults f _) fun _ _ => trivial
  · trivial

theorem storeStatic_faults
    (hP : ∀ error, error.Ordinary → P error) (hi : i.Usable P) (hop : i.opcode = .stsfld) :
  Faults P (s.storeStatic f i)
  := by
  apply Faults.bind (i.fieldRef_faults hi (by rw [hop]; rfl))
  intro handle _
  apply Faults.mono _ hP
  apply Faults.bind (s.session.fieldAt_faults handle).ordinary
  intro field _
  apply Faults.bind f.pop_faults
  rintro ⟨v, g⟩ _
  dsimp only
  split <;> trivial

/-- A call fails as its operand allows, or in an ordinary way. -/
theorem call_faults {dispatched : Bool}
    (hP : ∀ error, error.Ordinary → P error) (hi : i.Usable P)
    (hkind : i.opcode.operandKind = .method) :
  Faults P (s.call f i dispatched)
  := by
  apply Faults.bind (i.methodRef_faults hi hkind)
  rintro ⟨handle, typeArgs⟩ _
  apply Faults.mono _ hP
  apply Faults.bind (s.session.methodAt_faults handle).ordinary
  intro m _
  apply Faults.bind (f.popMany_faults _)
  rintro ⟨args, g⟩ _
  dsimp only
  split
  · trivial
  · split
    · split
      · trivial
      · exact Faults.bind (s.session.dispatch_faults _ m).ordinary fun _ _ => trivial
    · trivial

/-- So does the construction of an object. -/
theorem construct_faults
    (hP : ∀ error, error.Ordinary → P error) (hi : i.Usable P)
    (hkind : i.opcode.operandKind = .method) :
  Faults P (s.construct f i)
  := by
  apply Faults.bind (i.methodRef_faults hi hkind)
  rintro ⟨handle, typeArgs⟩ _
  apply Faults.mono _ hP
  apply Faults.bind (s.session.methodAt_faults handle).ordinary
  intro m _
  apply Faults.bind (s.session.typeAt_faults handle.owner).ordinary
  intro t _
  apply Faults.bind (f.popMany_faults _)
  rintro ⟨args, g⟩ _
  dsimp only
  split <;> trivial

/-- A return fails in an ordinary way. -/
theorem returnValue_faults (f : Frame) : Faults Fault.Ordinary (returnValue f) := by
  rw [returnValue]
  split
  · trivial
  · exact Faults.bind f.pop_faults fun _ _ => trivial

theorem throwTop_faults (f : Frame) : Faults Fault.Ordinary (throwTop f) := by
  apply Faults.bind f.pop_faults
  intro r _
  dsimp only
  split <;> trivial

theorem rethrow_faults (f : Frame) : Faults Fault.Ordinary (rethrow f) := by
  rw [rethrow]
  split
  · trivial
  · simp [Faults, Fault.Ordinary, Fault.Derailing, Fault.derailments]

/-- So does the end of a finally handler. -/
theorem endFinally_faults (f : Frame) : Faults Fault.Ordinary (endFinally f) := by
  rw [endFinally]
  split
  · simp [Faults, Fault.Ordinary, Fault.Derailing, Fault.derailments]
  · dsimp only
    split <;> trivial

/-! ### Every instruction -/

/-- An instruction ends in an ordinary fault, unless it cannot use its operand or a label of it
stands for nothing. -/
theorem execute_faults
    (hP : ∀ error, error.Ordinary → P error) (hi : i.Usable P)
    (hlabels : ∀ l ∈ i.operand.labels, Faults P (f.target l)) :
  Faults P (s.execute heap f i)
  := by
  have hordinary : ∀ {α : Type} {x : Except Fault α}, Faults Fault.Ordinary x → Faults P x :=
    fun hx => hx.mono hP
  have hplain : ∀ {α : Type} {x : Except Fault α}, Faults Fault.Plain x → Faults P x :=
    fun hx => hordinary hx.ordinary
  rw [execute]
  cases hop : i.opcode with
  | nop => trivial
  | dup => exact (hordinary (Faults.bind f.pop_faults fun _ _ => s.push_faults f _)).map
  | pop =>
      apply (hordinary (Faults.bind f.pop_faults _)).map
      exact fun _ _ => trivial
  | ldnull | ldcI4MinusOne | ldcI4Implied _ | ldcI4 _ | ldcI8 | ldcR4 | ldcR8 | ldstr =>
      apply (loadConstant_faults hP hi _).map
      rw [hop]
      trivial
  | ldargImplied n =>
      exact (hordinary (Faults.bind (f.argAt_faults n).ordinary fun _ _ => s.push_faults f _)).map
  | ldarg w =>
      apply (Faults.bind (i.argIndex_faults hi (.inl hop)) _).map
      intro n _
      exact hordinary (Faults.bind (f.argAt_faults n).ordinary fun _ _ => s.push_faults f _)
  | starg w =>
      apply (store_faults hP _).map
      intro g v
      apply Faults.bind (i.argIndex_faults hi (.inr hop))
      intro n _
      exact hplain (g.setArg_faults n v)
  | ldlocImplied n =>
      exact (hordinary (Faults.bind (f.localAt_faults n).ordinary fun _ _ => s.push_faults f _)).map
  | ldloc w =>
      apply (Faults.bind (i.localIndex_faults hi (.inl hop)) _).map
      intro n _
      exact hordinary (Faults.bind (f.localAt_faults n).ordinary fun _ _ => s.push_faults f _)
  | stlocImplied n => exact (store_faults hP fun g v => hplain (g.setLocal_faults n v)).map
  | stloc w =>
      apply (store_faults hP _).map
      intro g v
      apply Faults.bind (i.localIndex_faults hi (.inr hop))
      intro n _
      exact hplain (g.setLocal_faults n v)
  | binary op => exact (hordinary (onTopTwo_faults (Arithmetic.binary_faults op))).map
  | shift op => exact (hordinary (onTopTwo_faults (Arithmetic.shift_faults op))).map
  | neg => exact (hordinary (onTop_faults Arithmetic.negate_faults)).map
  | not => exact (hordinary (onTop_faults Arithmetic.complement_faults)).map
  | ckfinite => exact (hordinary (onTop_faults Arithmetic.checkFinite_faults)).map
  | compare op =>
      apply (hordinary (onTopTwo_faults _)).map
      intro a b
      exact Faults.bind (op.eval_faults a b) fun _ _ => trivial
  | conv target => exact (hordinary (onTop_faults (Opcode.convertValue_faults target))).map
  | convOvf target =>
      exact (hordinary (onTop_faults (Opcode.convertValueChecked_faults target))).map
  | branch test w => exact (branch_faults hP hi hlabels hop).map
  | switch => exact (switch_faults hP hi hlabels hop).map
  | call | callvirt => exact (call_faults hP hi (by rw [hop]; rfl)).map
  | newobj => exact (construct_faults hP hi (by rw [hop]; rfl)).map
  | ret => exact (hordinary (returnValue_faults f)).map
  | ldfld => exact (loadField_faults hP hi hop).map
  | stfld => exact (storeField_faults hP hi hop).map
  | ldsfld => exact (loadStatic_faults hP hi hop).map
  | stsfld => exact (storeStatic_faults hP hi hop).map
  | castclass =>
      apply (Faults.bind (i.typeRef_faults hi (by rw [hop]; rfl)) _).map
      intro t _
      exact hordinary (onTop_faults (s.castTo_faults _))
  | isinst =>
      apply (Faults.bind (i.typeRef_faults hi (by rw [hop]; rfl)) _).map
      intro t _
      exact hordinary (onTop_faults fun _ => trivial)
  | box =>
      apply (Faults.bind (i.typeRef_faults hi (by rw [hop]; rfl)) _).map
      intro t _
      exact hordinary (s.box_faults heap f _)
  | unboxAny =>
      apply (Faults.bind (i.typeRef_faults hi (by rw [hop]; rfl)) _).map
      intro t _
      exact hordinary (onTop_faults (s.unbox_faults _))
  | newarr =>
      apply (Faults.bind (i.typeRef_faults hi (by rw [hop]; rfl)) _).map
      intro t _
      exact hordinary (s.newArray_faults heap f _)
  | ldlen => exact (hordinary (onTop_faults (arrayLength_faults heap))).map
  | ldelem => exact (hordinary (s.loadElement_faults heap f)).map
  | stelem => exact (hordinary (storeElement_faults heap f)).map
  | throw => exact (hordinary (throwTop_faults f)).map
  | rethrow => exact (hordinary (rethrow_faults f)).map
  | leave w =>
      refine (Faults.bind (i.label_faults hi (by rw [hop]; rfl)) fun l hl => ?_).map
      exact Faults.bind (hlabels l (i.mem_labels_of_label hl)) fun _ _ => trivial
  | endfinally => exact (hordinary (endFinally_faults f)).map

end Surroundings

/-! ## Steps -/

namespace Execution

variable {P : Fault → Prop} {session : Session} {e : Execution} {f : Frame} {callers : List Frame}

/-- A step ends in a fault of its instruction, unless there is none or the budget is exceeded. -/
theorem step_ends
    (hframes : e.frames = f :: callers) (hP : ∀ error, error.Plain → P error)
    (hexception : ∀ v, P (.exception v)) (hbudget : ∀ budget, P (.stepBudgetExceeded budget))
    (hended : f.body.instructions[f.ip]? = none →
      P (.runtimeError ("control fell off the end of '" ++ f.method.name ++ "'")))
    (hexecute : ∀ i limit, f.body.instructions[f.ip]? = some i →
      Faults P (Surroundings.execute ⟨session, limit⟩ e.heap f i)) :
  (e.step session).Ends P
  := by
  have htick := e.machine.tick_faults
  rw [step, hframes]
  dsimp only
  cases hinstruction : f.body.instructions[f.ip]? with
  | none => exact hended hinstruction
  | some i =>
      dsimp only
      split
      · next error machine hrefused =>
        rw [hrefused] at htick
        obtain ⟨budget, rfl⟩ := htick
        exact hbudget budget
      · split
        · next error herror => exact (hexecute i _ hinstruction).of_error herror
        · apply (serve_sequel session _ callers _).ends.mono
          rintro error (hplain | ⟨v, rfl⟩)
          · exact hP error hplain
          · exact hexception v

end Execution

end ManagedCode
