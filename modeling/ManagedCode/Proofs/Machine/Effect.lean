import ManagedCode.Proofs.Machine.Faults

/-!
# The effect of an instruction on its frame

`Surroundings.execute` answers an instruction of a frame with a request.  The
relation `Outcome` lists what it can ask for: how many values it has taken from the
stack of the frame and put there, where the frame goes on, and what becomes of the
handlers that the frame is inside of, which change at `leave` and `endfinally` only.

`Short` holds when the stack has fewer values than the instruction takes, and only
then does the instruction end in a lack of values.
-/

namespace ManagedCode

namespace Frame

/-- `g` is a state of the same activation as `f`. -/
structure SameCall (f g : Frame) : Prop where
  method : g.method = f.method
  body : g.body = f.body
  typeArgs : g.typeArgs = f.typeArgs
  resume : g.resume = f.resume

/-- `g` is `f` after `pops` values are taken from its stack and `pushes` values put
there.  Arguments, locals and position may differ, the handlers are the same. -/
structure Rewrites (pops pushes : Nat) (f g : Frame) : Prop extends SameCall f g where
  pending : g.pending = f.pending
  handling : g.handling = f.handling
  enough : pops ≤ f.stack.length
  stack : ∃ values, values.length = pushes ∧ g.stack = values ++ f.stack.drop pops

/-- A frame is a state of its own activation. -/
theorem SameCall.refl (f : Frame) : SameCall f f := ⟨rfl, rfl, rfl, rfl⟩

/-- What is a state of one activation stays that. -/
theorem SameCall.trans {f g h : Frame} (hfg : SameCall f g) (hgh : SameCall g h) :
  SameCall f h
  := ⟨hgh.method.trans hfg.method, hgh.body.trans hfg.body,
    hgh.typeArgs.trans hfg.typeArgs, hgh.resume.trans hfg.resume⟩

namespace Rewrites

variable {f g h : Frame} {pops pushes : Nat}

/-- The height of the stack after values have been taken and put. -/
theorem length (hfg : Rewrites pops pushes f g) :
  g.stack.length = f.stack.length - pops + pushes
  := by
  obtain ⟨values, hlength, hstack⟩ := hfg.stack
  rw [hstack, List.length_append, List.length_drop, hlength]
  omega

/-- Values are taken before any is put back. -/
theorem trans {more : Nat} (hfg : Rewrites pops 0 f g) (hgh : Rewrites more pushes g h) :
  Rewrites (pops + more) pushes f h
  := by
  obtain ⟨values, hlength, hstack⟩ := hgh.stack
  obtain ⟨none, hnone, htaken⟩ := hfg.stack
  obtain rfl := List.length_eq_zero_iff.mp hnone
  have henough := hgh.enough
  rw [hfg.length] at henough
  exact
    { toSameCall := hfg.toSameCall.trans hgh.toSameCall
      pending := hgh.pending.trans hfg.pending
      handling := hgh.handling.trans hfg.handling
      enough := by have := hfg.enough; omega
      stack := ⟨values, hlength, by
        rw [hstack, htaken, List.nil_append, List.drop_drop]⟩ }

/-- A change of the frame that leaves the stack may follow. -/
theorem trans_same (hfg : Rewrites pops pushes f g) (hgh : Rewrites 0 0 g h) :
  Rewrites pops pushes f h
  := by
  obtain ⟨values, hlength, hstack⟩ := hfg.stack
  obtain ⟨none, hnone, hkept⟩ := hgh.stack
  obtain rfl := List.length_eq_zero_iff.mp hnone
  exact
    { toSameCall := hfg.toSameCall.trans hgh.toSameCall
      pending := hgh.pending.trans hfg.pending
      handling := hgh.handling.trans hfg.handling
      enough := hfg.enough
      stack := ⟨values, hlength, by
        rw [hkept, List.nil_append, List.drop_zero, hstack]⟩ }

/-- Values that stay where they are count as taken and put back. -/
theorem keep {v : Value} {rest : List Value} (hfg : Rewrites 0 pushes f g)
    (htop : f.stack = v :: rest) :
  Rewrites 1 (pushes + 1) f g
  := by
  obtain ⟨values, hlength, hstack⟩ := hfg.stack
  exact
    { toSameCall := hfg.toSameCall
      pending := hfg.pending
      handling := hfg.handling
      enough := by rw [htop]; simp
      stack := ⟨values ++ [v], by rw [List.length_append, hlength]; rfl, by
        rw [hstack, htop]
        simp⟩ }

end Rewrites

/-- A frame that stays as it is takes no values. -/
theorem rewrites_refl (f : Frame) : Rewrites 0 0 f f :=
  { SameCall.refl f with
    pending := rfl
    handling := rfl
    enough := Nat.zero_le _
    stack := ⟨[], rfl, rfl⟩ }

/-- Going on to the next instruction takes no values. -/
theorem rewrites_advance (f : Frame) : Rewrites 0 0 f f.advance :=
  { SameCall.refl f with
    pending := rfl
    handling := rfl
    enough := Nat.zero_le _
    stack := ⟨[], rfl, rfl⟩ }

/-- Nor does a jump. -/
theorem rewrites_jump (f : Frame) (ip : Nat) : Rewrites 0 0 f (f.jump ip) :=
  { SameCall.refl f with
    pending := rfl
    handling := rfl
    enough := Nat.zero_le _
    stack := ⟨[], rfl, rfl⟩ }

/-! ## The stack, the arguments and the locals -/

/-- The top of the stack is taken, if there is one. -/
theorem pop_yields (f : Frame) :
  Yields (f.stack.length < 1)
    (fun r => Rewrites 1 0 f r.2 ∧ r.2.ip = f.ip ∧ f.stack = r.1 :: r.2.stack) f.pop
  := by
  rw [pop]
  split
  · next v rest hstack =>
    refine ⟨?_, rfl, hstack⟩
    exact
      { SameCall.refl f with
        pending := rfl
        handling := rfl
        enough := by rw [hstack]; simp
        stack := ⟨[], rfl, by rw [hstack]; rfl⟩ }
  · next hstack =>
    rw [hstack]
    apply Nat.zero_lt_one

/-- Several values are taken, if there are as many. -/
theorem popMany_yields (f : Frame) (n : Nat) :
  Yields (f.stack.length < n)
    (fun r => Rewrites n 0 f r.2 ∧ r.2.ip = f.ip ∧ r.1 = (f.stack.take n).reverse) (f.popMany n)
  := by
  rw [popMany]
  split
  · next hshort => exact hshort
  · next henough =>
    refine ⟨?_, rfl, rfl⟩
    exact
      { SameCall.refl f with
        pending := rfl
        handling := rfl
        enough := Nat.le_of_not_lt henough
        stack := ⟨[], rfl, rfl⟩ }

/-- A value is put onto the stack, if there is room. -/
theorem push_yields {short : Prop} (f : Frame) (limit : Nat) (v : Value) :
  Yields short (fun g => Rewrites 0 1 f g ∧ g.ip = f.ip) (f.push limit v)
  := by
  rw [push]
  split
  · refine ⟨?_, rfl⟩
    exact
      { SameCall.refl f with
        pending := rfl
        handling := rfl
        enough := Nat.zero_le _
        stack := ⟨[v.toStack], rfl, rfl⟩ }
  · trivial

/-- A store into an argument leaves the stack as it is. -/
theorem setArg_yields {short : Prop} (f : Frame) (i : Nat) (v : Value) :
  Yields short (fun g => Rewrites 0 0 f g ∧ g.ip = f.ip) (f.setArg i v)
  := by
  rw [setArg]
  split
  · refine ⟨?_, rfl⟩
    exact
      { SameCall.refl f with
        pending := rfl
        handling := rfl
        enough := Nat.zero_le _
        stack := ⟨[], rfl, rfl⟩ }
  · trivial

/-- So does a store into a local. -/
theorem setLocal_yields {short : Prop} (f : Frame) (i : Nat) (v : Value) :
  Yields short (fun g => Rewrites 0 0 f g ∧ g.ip = f.ip) (f.setLocal i v)
  := by
  rw [setLocal]
  split
  · refine ⟨?_, rfl⟩
    exact
      { SameCall.refl f with
        pending := rfl
        handling := rfl
        enough := Nat.zero_le _
        stack := ⟨[], rfl, rfl⟩ }
  · trivial

/-- A push fails only for lack of room. -/
theorem push_faults (f : Frame) (limit : Nat) (v : Value) :
  Faults Fault.Plain (f.push limit v)
  := by
  rw [push]
  split <;> trivial

/-- An index out of range is an ordinary fault. -/
theorem outOfRange_plain {what : String} (hwhat : what = "argument" ∨ what = "local") (f : Frame)
    (i : Nat) :
  (f.outOfRange what i).Plain
  := by
  rcases hwhat with rfl | rfl <;>
    simp [outOfRange, Fault.Plain, Fault.Ordinary, Fault.Derailing, Fault.derailments]

/-- An argument is read unless its index is out of range. -/
theorem argAt_faults (f : Frame) (i : Nat) : Faults Fault.Plain (f.argAt i) := by
  rw [argAt]
  split
  · trivial
  · exact outOfRange_plain (.inl rfl) f i

theorem setArg_faults (f : Frame) (i : Nat) (v : Value) : Faults Fault.Plain (f.setArg i v) := by
  rw [setArg]
  split
  · trivial
  · exact outOfRange_plain (.inl rfl) f i

/-- So is a local. -/
theorem localAt_faults (f : Frame) (i : Nat) : Faults Fault.Plain (f.localAt i) := by
  rw [localAt]
  split
  · trivial
  · exact outOfRange_plain (.inr rfl) f i

theorem setLocal_faults (f : Frame) (i : Nat) (v : Value) :
  Faults Fault.Plain (f.setLocal i v)
  := by
  rw [setLocal]
  split
  · trivial
  · exact outOfRange_plain (.inr rfl) f i

/-- A label goes to the target that the body has for it. -/
theorem target_yields {short : Prop} (f : Frame) (l : Label) :
  Yields short (fun ip => f.body.target? l = some ip) (f.target l)
  := by
  rw [target]
  split
  · next ip h => exact h
  · trivial

end Frame

/-- How many values a call of a method by an instruction takes from the stack. -/
def RealizedMethod.taken (m : RealizedMethod) (op : Opcode) : Nat :=
  m.params.length + if op = .newobj ∨ m.isStatic then 0 else 1

namespace Instruction

/-- The label of an instruction is its operand. -/
theorem label_yields {short : Prop} (i : Instruction) :
  Yields short (fun l => i.operand = .label l) i.label
  := by
  rw [label]
  split
  · next l h => exact h
  · trivial

/-- An instruction without an index for its operand fails, but not for lack of values. -/
theorem argIndex_always (i : Instruction) : Yields.Always i.argIndex := by
  rw [argIndex]
  split <;> trivial

theorem localIndex_always (i : Instruction) : Yields.Always i.localIndex := by
  rw [localIndex]
  split <;> trivial

theorem fieldRef_always (i : Instruction) : Yields.Always i.fieldRef := by
  rw [fieldRef]
  split <;> trivial

theorem typeRef_always (i : Instruction) : Yields.Always i.typeRef := by
  rw [typeRef]
  split <;> trivial

theorem methodRef_always (i : Instruction) : Yields.Always i.methodRef := by
  rw [methodRef]
  split <;> trivial

/-- The constant that an instruction loads, before it is put on a stack. -/
def constant (i : Instruction) : Except Fault Value :=
  match i.opcode, i.operand with
  | .ldnull, _ => .ok .null
  | .ldcI4MinusOne, _ => .ok (.i32 (-1))
  | .ldcI4Implied v, _ => .ok (.i32 (Int32.ofNat v))
  | .ldcI4 _, .i32 v => .ok (.i32 v)
  | .ldcI8, .i64 v => .ok (.i64 v)
  | .ldcR4, .f32 v => .ok (.f32 v)
  | .ldcR8, .f64 v => .ok (.f64 v)
  | .ldstr, .str v => .ok (.str v)
  | _, _ => .error i.malformed

/-- The constant of an instruction does not depend on the stack. -/
theorem constant_always (i : Instruction) : Yields.Always i.constant := by
  rw [constant]
  split <;> trivial

end Instruction

namespace Session

/-- A lookup of a type fails in a plain way. -/
theorem typeAt_faults (s : Session) (id : TypeId) : Faults Fault.Plain (s.typeAt id) := by
  unfold typeAt
  split <;> trivial

/-- So does one of a method. -/
theorem methodAt_faults (s : Session) (m : MethodRef) : Faults Fault.Plain (s.methodAt m) := by
  apply Faults.bind (s.typeAt_faults m.owner)
  intro t _
  split <;> trivial

/-- So does one of a field. -/
theorem fieldAt_faults (s : Session) (m : FieldRef) : Faults Fault.Plain (s.fieldAt m) := by
  apply Faults.bind (s.typeAt_faults m.owner)
  intro t _
  split <;> trivial

/-- So does a call by dispatch. -/
theorem dispatch_faults (s : Session) (receiver : Value) (declared : RealizedMethod) :
  Faults Fault.Plain (s.dispatch receiver declared)
  := by
  have hfilled : ∀ (target : RealizedMethod) (m : MethodRef),
      Faults Fault.Plain (if m = target.handle then pure target else s.methodAt m) := by
    intro target m
    split
    · trivial
    · apply s.methodAt_faults
  unfold dispatch
  split
  · trivial
  · dsimp only
    split
    · trivial
    · apply Faults.bind (s.typeAt_faults _)
      intro t _
      apply Faults.bind (s.typeAt_faults _)
      intro declaring _
      split
      · split
        · apply Faults.bind (s.methodAt_faults _)
          intro target _
          split
          · apply hfilled
          · trivial
        · trivial
      · apply Faults.bind (x := .ok declared) trivial
        intro target _
        split
        · apply hfilled
        · trivial
  · split <;> trivial

end Session

namespace Surroundings

variable {s : Surroundings} {heap : Heap} {f g : Frame} {i : Instruction}

/-- The method that an instruction calls. -/
def Names (s : Surroundings) (i : Instruction) (handle : MethodRef) (typeArgs : List TypeRef)
    (m : RealizedMethod) : Prop :=
  i.methodRef = .ok (handle, typeArgs) ∧ s.session.methodAt handle = .ok m

/-- The stack of a frame has fewer values than an instruction takes. -/
def Short (s : Surroundings) (f : Frame) (i : Instruction) : Prop :=
  match i.opcode.stackEffect with
  | .fixed pops _ => f.stack.length < pops
  | .call => ∃ handle typeArgs m, s.Names i handle typeArgs m ∧ f.stack.length < m.taken i.opcode
  | .ret => f.method.returnType ≠ .void ∧ f.stack.length < 1
  | .clear => False

/-- What an instruction of a frame can ask of the machine. -/
inductive Outcome (s : Surroundings) (f : Frame) (i : Instruction) : Request → Prop
  | next {g : Frame} {pops pushes : Nat}
      (hflow : i.opcode.flow = .next) (heffect : i.opcode.stackEffect = .fixed pops pushes)
      (hg : f.Rewrites pops pushes g) (hip : g.ip = f.ip + 1) :
      Outcome s f i (.proceed g)
  | branch {g : Frame} {pops : Nat}
      (hflow : i.opcode.flow = .branch ∨ i.opcode.flow = .condBranch ∨ i.opcode.flow = .switch)
      (heffect : i.opcode.stackEffect = .fixed pops 0) (hg : f.Rewrites pops 0 g)
      (hip : (∃ l ∈ i.operand.labels, f.body.target? l = some g.ip)
        ∨ i.opcode.flow ≠ .branch ∧ g.ip = f.ip + 1) :
      Outcome s f i (.proceed g)
  | leave {w : Width} {l : Label} {target : Nat}
      (hop : i.opcode = .leave w) (hlabel : i.operand = .label l)
      (htarget : f.body.target? l = some target) :
      Outcome s f i (.proceed (f.leave target))
  | endLeave {region target : Nat} {remaining : List Nat} {pending : List AfterFinally}
      (hop : i.opcode = .endfinally)
      (hpending : f.pending = .leave region target remaining :: pending) :
      Outcome s f i
        (.proceed ({ f with stack := [], pending := pending }.continueTo target remaining))
  | endUnwind {region : Nat} {exception : Value} {pending : List AfterFinally}
      (hop : i.opcode = .endfinally)
      (hpending : f.pending = .unwind region exception :: pending) :
      Outcome s f i (.raise { f with stack := [], pending := pending } exception)
  | throw {g : Frame} {v : Value}
      (hop : i.opcode = .throw) (hg : f.Rewrites 1 0 g) (hip : g.ip = f.ip)
      (htop : f.stack = v :: g.stack) :
      Outcome s f i (.raise g v)
  | rethrow {v : Value} (hop : i.opcode = .rethrow) (hhandled : f.handled? = some v) :
      Outcome s f i (.raise f v)
  | finish {v : Value} (hop : i.opcode = .ret)
      (hresult : f.method.returnType = .void ∧ v = .null ∨ ∃ rest, f.stack = v :: rest) :
      Outcome s f i (.finish v)
  | invoke {g : Frame} {handle : MethodRef} {typeArgs : List TypeRef} {m target : RealizedMethod}
      {args : List Value}
      (hop : i.opcode = .call ∨ i.opcode = .callvirt) (hnames : s.Names i handle typeArgs m)
      (hstatic : m.isStatic = false) (hg : f.Rewrites (m.taken i.opcode) 0 g)
      (hip : g.ip = f.ip) (hargs : args = (f.stack.take (m.taken i.opcode)).reverse)
      (htarget : i.opcode = .call ∧ target = m
        ∨ i.opcode = .callvirt ∧ ∃ receiver, s.session.dispatch receiver m = .ok target) :
      Outcome s f i (.invoke g target args (typeArgs.map f.resolve) (resumeFor target))
  | callStatic {g : Frame} {handle : MethodRef} {typeArgs : List TypeRef} {m : RealizedMethod}
      {args : List Value}
      (hop : i.opcode = .call ∨ i.opcode = .callvirt) (hnames : s.Names i handle typeArgs m)
      (hstatic : m.isStatic = true) (hg : f.Rewrites (m.taken i.opcode) 0 g)
      (hip : g.ip = f.ip) (hargs : args = (f.stack.take (m.taken i.opcode)).reverse) :
      Outcome s f i (.prepare g handle.owner (.call m args (typeArgs.map f.resolve)))
  | construct {g : Frame} {handle : MethodRef} {typeArgs : List TypeRef} {m : RealizedMethod}
      {t : RealizedType} {args : List Value}
      (hop : i.opcode = .newobj) (hnames : s.Names i handle typeArgs m)
      (htype : s.session.typeAt handle.owner = .ok t) (hinstantiable : t.isInstantiable = true)
      (hg : f.Rewrites (m.taken i.opcode) 0 g) (hip : g.ip = f.ip)
      (hargs : args = (f.stack.take (m.taken i.opcode)).reverse) :
      Outcome s f i (.prepare g t.id (.construct t m args (typeArgs.map f.resolve)))
  | loadStatic {owner : TypeId} {slot : Nat} (hop : i.opcode = .ldsfld) :
      Outcome s f i (.prepare f owner (.load owner slot))
  | storeStatic {g : Frame} {owner : TypeId} {slot : Nat} {v : Value}
      (hop : i.opcode = .stsfld) (hg : f.Rewrites 1 0 g) (hip : g.ip = f.ip)
      (htop : f.stack = v :: g.stack) :
      Outcome s f i (.prepare g owner (.store owner slot v))

/-! ## Pushing and popping -/

/-- What an instruction does that takes `pops` values, leaves `pushes` and goes on to
the next instruction. -/
abbrev Moves (pops pushes : Nat) (f g : Frame) : Prop :=
  f.Rewrites pops pushes g ∧ g.ip = f.ip + 1

/-- An instruction that pushes a value goes on to the next one. -/
theorem push_yields {short : Prop} (s : Surroundings) (f : Frame) (v : Value) :
  Yields short (Moves 0 1 f) (s.push f v)
  := by
  apply Yields.bind (f.push_yields s.stackLimit v)
  rintro g ⟨hg, hip⟩
  constructor
  · apply hg.trans_same g.rewrites_advance
  · rw [← hip]
    rfl

/-- After values have been popped, a push ends the instruction. -/
theorem push_after_yields {short : Prop} {pops : Nat} (hg : f.Rewrites pops 0 g)
    (hip : g.ip = f.ip) (v : Value) :
  Yields short (Moves pops 1 f) (s.push g v)
  := by
  apply (s.push_yields g v).mono id
  rintro h ⟨hh, hip'⟩
  constructor
  · apply hg.trans hh
  · rw [hip', hip]

/-- An operation replaces the top of the stack and goes on. -/
theorem onTop_yields {op : Value → Except Fault Value} (hop : ∀ v, Faults Fault.Plain (op v)) :
  Yields (f.stack.length < 1) (Moves 1 1 f) (s.onTop f op)
  := by
  apply Yields.bind f.pop_yields
  rintro ⟨v, g⟩ ⟨hg, hip, -⟩
  apply Yields.bind (hop v).always.mono
  intro w _
  apply push_after_yields hg hip

/-- A pop behind another one. -/
theorem second_pop_yields (hg : f.Rewrites 1 0 g) (hip : g.ip = f.ip) :
  Yields (f.stack.length < 2) (fun r => f.Rewrites 2 0 r.2 ∧ r.2.ip = f.ip) g.pop
  := by
  have hshort : g.stack.length < 1 → f.stack.length < 2 := by
    have hlength : g.stack.length = f.stack.length - 1 + 0 := hg.length
    omega
  apply g.pop_yields.mono hshort
  rintro ⟨a, h⟩ ⟨hh, hip', -⟩
  exact ⟨hg.trans hh, hip'.trans hip⟩

/-- Two pops in a row. -/
theorem pop_pop_yields {α : Type} {R : α → Prop} (k : Value → Value → Frame → Except Fault α)
    (hk : ∀ a b g, f.Rewrites 2 0 g → g.ip = f.ip → Yields (f.stack.length < 2) R (k a b g)) :
  Yields (f.stack.length < 2) R (do
    let (b, g) ← f.pop
    let (a, g) ← g.pop
    k a b g)
  := by
  apply Yields.bind (f.pop_yields.mono (by omega) fun _ h => h)
  rintro ⟨b, g⟩ ⟨hg, hip, -⟩
  apply Yields.bind (second_pop_yields hg hip)
  rintro ⟨a, h⟩ ⟨hh, hip'⟩
  apply hk a b h hh hip'

/-- An operation replaces the two values on top and goes on. -/
theorem onTopTwo_yields {op : Value → Value → Except Fault Value}
    (hop : ∀ a b, Faults Fault.Plain (op a b)) :
  Yields (f.stack.length < 2) (Moves 2 1 f) (s.onTopTwo f op)
  := by
  apply pop_pop_yields fun a b g => op a b >>= s.push g
  intro a b g hg hip
  apply Yields.bind (hop a b).always.mono
  intro v _
  apply push_after_yields hg hip

/-- Storing takes the top of the stack and goes on. -/
theorem store_yields {set : Frame → Value → Except Fault Frame}
    (hset : ∀ g v, Yields False (fun h => g.Rewrites 0 0 h ∧ h.ip = g.ip) (set g v)) :
  Yields (f.stack.length < 1) (Moves 1 0 f) (store f set)
  := by
  apply Yields.bind f.pop_yields
  rintro ⟨v, g⟩ ⟨hg, hip, -⟩
  apply Yields.bind ((hset g v).mono False.elim fun _ h => h)
  rintro h ⟨hh, hip'⟩
  constructor
  · apply (hg.trans_same hh).trans_same h.rewrites_advance
  · rw [← hip, ← hip']
    rfl

/-! ## Constants, arguments, locals and branches -/

/-- A constant is read from the instruction and pushed. -/
theorem loadConstant_eq (s : Surroundings) (f : Frame) (i : Instruction) :
  s.loadConstant f i = i.constant >>= s.push f
  := by
  obtain ⟨op, operand⟩ := i
  cases op with
  | ldcI4 _ | ldcI8 | ldcR4 | ldcR8 | ldstr => cases operand <;> rfl
  | _ => rfl

/-- So it takes no values. -/
theorem loadConstant_yields {short : Prop} (s : Surroundings) (f : Frame) (i : Instruction) :
  Yields short (Moves 0 1 f) (s.loadConstant f i)
  := by
  rw [loadConstant_eq]
  exact Yields.bind i.constant_always.mono fun v _ => s.push_yields f v

/-- A branch takes the values that it tests, and one without a test is always taken. -/
theorem testBranch_yields (f : Frame) (test : BranchTest) (op : String) :
  Yields (f.stack.length < test.pops)
    (fun r => f.Rewrites test.pops 0 r.2 ∧ r.2.ip = f.ip ∧ (test = .always → r.1 = true))
    (testBranch f test op)
  := by
  cases test with
  | always =>
      exact ⟨f.rewrites_refl, rfl, fun _ => rfl⟩
  | isTrue =>
      apply Yields.bind f.pop_yields
      rintro ⟨v, g⟩ ⟨hg, hip, -⟩
      exact ⟨hg, hip, by simp⟩
  | isFalse =>
      apply Yields.bind f.pop_yields
      rintro ⟨v, g⟩ ⟨hg, hip, -⟩
      exact ⟨hg, hip, by simp⟩
  | compare c =>
      apply pop_pop_yields fun a b g => return (← c.eval op a b, g)
      intro a b g hg hip
      apply Yields.bind (c.eval_faults op a b).always.mono
      intro taken _
      exact ⟨hg, hip, by simp⟩

/-- A branch goes to its label or, if it tests anything, on to the next instruction. -/
theorem branch_yields (f : Frame) (i : Instruction) (test : BranchTest) :
  Yields (f.stack.length < test.pops)
    (fun g => f.Rewrites test.pops 0 g
      ∧ ((∃ l ∈ i.operand.labels, f.body.target? l = some g.ip)
        ∨ test ≠ .always ∧ g.ip = f.ip + 1))
    (branch f i test)
  := by
  apply Yields.bind i.label_yields
  intro l hl
  apply Yields.bind (testBranch_yields f test _)
  rintro ⟨taken, g⟩ ⟨hg, hip, halways⟩
  dsimp only at hg hip halways ⊢
  split
  · apply Yields.bind (g.target_yields l)
    intro ip htarget
    refine ⟨hg.trans_same (g.rewrites_jump ip), .inl ⟨l, ?_, ?_⟩⟩
    · rw [hl]
      apply List.mem_singleton_self l
    · rw [hg.body] at htarget
      exact htarget
  · next hstay =>
    refine ⟨hg.trans_same g.rewrites_advance, .inr ⟨fun h => hstay (halways h), ?_⟩⟩
    rw [← hip]
    rfl

/-- A selection takes its index, and goes to one of its labels or on. -/
theorem switch_yields (f : Frame) (i : Instruction) :
  Yields (f.stack.length < 1)
    (fun g => f.Rewrites 1 0 g
      ∧ ((∃ l ∈ i.operand.labels, f.body.target? l = some g.ip) ∨ g.ip = f.ip + 1))
    (switch f i)
  := by
  rw [switch]
  split
  · next labels hlabels =>
    apply Yields.bind f.pop_yields
    rintro ⟨v, g⟩ ⟨hg, hip, -⟩
    dsimp only at hg hip ⊢
    split
    · trivial
    · split
      · next l hl =>
        apply Yields.bind (g.target_yields l)
        intro ip htarget
        refine ⟨hg.trans_same (g.rewrites_jump ip), .inl ⟨l, ?_, ?_⟩⟩
        · rw [hlabels]
          exact List.mem_of_getElem? hl
        · rw [hg.body] at htarget
          exact htarget
      · refine ⟨hg.trans_same g.rewrites_advance, .inr ?_⟩
        rw [← hip]
        rfl
  · trivial

/-! ## Objects and arrays -/

/-- Reading a field replaces the object by the value. -/
theorem loadField_yields (s : Surroundings) (heap : Heap) (f : Frame) (i : Instruction) :
  Yields (f.stack.length < 1) (Moves 1 1 f) (s.loadField heap f i)
  := by
  apply Yields.bind i.fieldRef_always.mono
  intro handle _
  apply Yields.bind (s.session.fieldAt_faults handle).always.mono
  intro field _
  apply Yields.bind f.pop_yields
  rintro ⟨receiver, g⟩ ⟨hg, hip, -⟩
  dsimp only at hg hip ⊢
  split
  · trivial
  · split
    · apply push_after_yields hg hip
    · trivial
  · apply push_after_yields hg hip
  · trivial

/-- Writing a field takes the object and the value. -/
theorem storeField_yields (s : Surroundings) (heap : Heap) (f : Frame) (i : Instruction) :
  Yields (f.stack.length < 2) (fun r => Moves 2 0 f r.1) (s.storeField heap f i)
  := by
  apply Yields.bind i.fieldRef_always.mono
  intro handle _
  apply Yields.bind (s.session.fieldAt_faults handle).always.mono
  intro field _
  apply Yields.bind (f.pop_yields.mono (by omega) fun _ h => h)
  rintro ⟨v, g⟩ ⟨hg, hip, -⟩
  apply Yields.bind (second_pop_yields hg hip)
  rintro ⟨receiver, g⟩ ⟨hg, hip⟩
  dsimp only at hg hip ⊢
  split
  · trivial
  · split
    · refine ⟨hg.trans_same g.rewrites_advance, ?_⟩
      rw [← hip]
      rfl
    · trivial
  · trivial

/-- A cast fails in a plain way. -/
theorem castTo_faults (s : Surroundings) (t : TypeRef) (v : Value) :
  Faults Fault.Plain (s.castTo t v)
  := by
  unfold castTo
  split <;> trivial

/-- So does unboxing. -/
theorem unbox_faults (s : Surroundings) (t : TypeRef) (v : Value) :
  Faults Fault.Plain (s.unbox t v)
  := by
  unfold unbox
  split
  · split
    · trivial
    · split <;> trivial
    · trivial
  · apply s.castTo_faults t v

/-- Boxing replaces the value by the box. -/
theorem box_yields (s : Surroundings) (heap : Heap) (f : Frame) (t : TypeRef) :
  Yields (f.stack.length < 1) (fun r => Moves 1 1 f r.1) (s.box heap f t)
  := by
  apply Yields.bind f.pop_yields
  rintro ⟨v, g⟩ ⟨hg, hip, -⟩
  dsimp only at hg hip ⊢
  apply Yields.bind (push_after_yields hg hip _)
  intro h hh
  exact hh

/-- A new array replaces its length. -/
theorem newArray_yields (s : Surroundings) (heap : Heap) (f : Frame) (t : TypeRef) :
  Yields (f.stack.length < 1) (fun r => Moves 1 1 f r.1) (s.newArray heap f t)
  := by
  apply Yields.bind f.pop_yields
  rintro ⟨v, g⟩ ⟨hg, hip, -⟩
  dsimp only at hg hip ⊢
  split
  · trivial
  · split
    · trivial
    · apply Yields.bind (push_after_yields hg hip _)
      intro h hh
      exact hh

theorem arrayLength_faults (heap : Heap) (v : Value) :
  Faults Fault.Plain (arrayLength heap v)
  := by
  unfold arrayLength
  split <;> trivial

theorem expectArray_faults (v : Value) : Faults Fault.Plain (expectArray v) := by
  unfold expectArray
  split <;> trivial

/-- An index that is out of range is a plain fault. -/
theorem checkIndex_faults (v : Value) (length : Nat) :
  Faults Fault.Plain (checkIndex v length)
  := by
  rw [checkIndex]
  split
  · trivial
  · split <;> trivial

/-- Reading an item replaces the array and the index by the item. -/
theorem loadElement_yields (s : Surroundings) (heap : Heap) (f : Frame) :
  Yields (f.stack.length < 2) (Moves 2 1 f) (s.loadElement heap f)
  := by
  apply pop_pop_yields fun array index g => do
    let r ← expectArray array
    let i ← checkIndex index (heap.length r)
    s.push g ((heap.item? r i).getD .null)
  intro array index g hg hip
  apply Yields.bind (expectArray_faults array).always.mono
  intro r _
  apply Yields.bind (checkIndex_faults index _).always.mono
  intro n _
  apply push_after_yields hg hip

/-- Writing an item takes the array, the index and the item. -/
theorem storeElement_yields (heap : Heap) (f : Frame) :
  Yields (f.stack.length < 3) (fun r => Moves 3 0 f r.1) (storeElement heap f)
  := by
  apply Yields.bind (f.pop_yields.mono (by omega) fun _ h => h)
  rintro ⟨v, g⟩ ⟨hg, hip, -⟩
  dsimp only at hg hip ⊢
  have hshort : g.stack.length < 2 → f.stack.length < 3 := by
    have hlength := hg.length
    omega
  refine Yields.mono (P := fun r => Moves 2 0 g r.1) ?_ hshort ?_
  · apply pop_pop_yields fun array index h => do
      let r ← expectArray array
      let i ← checkIndex index (heap.length r)
      return (h.advance, heap.setItem r i v)
    intro array index h hh hip'
    apply Yields.bind (expectArray_faults array).always.mono
    intro r _
    apply Yields.bind (checkIndex_faults index _).always.mono
    intro n _
    refine ⟨hh.trans_same h.rewrites_advance, ?_⟩
    rw [← hip']
    rfl
  · rintro r ⟨hr, hip'⟩
    exact ⟨hg.trans hr, hip'.trans (congrArg (· + 1) hip)⟩

/-! ## Requests to the machine -/

/-- A read of a static field takes no values and asks for its type. -/
theorem loadStatic_yields {short : Prop} (hop : i.opcode = .ldsfld) :
  Yields short (s.Outcome f i) (s.loadStatic f i)
  := by
  apply Yields.bind i.fieldRef_always.mono
  intro handle _
  apply Yields.bind (s.session.fieldAt_faults handle).always.mono
  intro field _
  split
  · exact .loadStatic hop
  · apply Yields.bind (s.push_yields f _)
    rintro g ⟨hg, hip⟩
    exact .next (by rw [hop]; rfl) (by rw [hop]; rfl) hg hip
  · trivial

/-- A write of a static field takes the value and asks for the type. -/
theorem storeStatic_yields (hop : i.opcode = .stsfld) :
  Yields (f.stack.length < 1) (s.Outcome f i) (s.storeStatic f i)
  := by
  apply Yields.bind i.fieldRef_always.mono
  intro handle _
  apply Yields.bind (s.session.fieldAt_faults handle).always.mono
  intro field _
  apply Yields.bind f.pop_yields
  rintro ⟨v, g⟩ ⟨hg, hip, htop⟩
  dsimp only at hg hip htop ⊢
  split
  · exact .storeStatic hop hg hip htop
  · trivial

/-- A call takes what the method that it names does.  A method that is not static takes its receiver
as well. -/
theorem call_yields {dispatched : Bool}
    (hop : i.opcode = if dispatched then .callvirt else .call) :
  Yields (∃ handle typeArgs m, s.Names i handle typeArgs m ∧ f.stack.length < m.taken i.opcode)
    (s.Outcome f i) (s.call f i dispatched)
  := by
  have hcall : i.opcode = .call ∨ i.opcode = .callvirt := by
    cases dispatched <;> simp_all
  apply Yields.bind i.methodRef_always.answer
  rintro ⟨handle, typeArgs⟩ href
  apply Yields.bind (s.session.methodAt_faults handle).always.answer
  intro m hm
  have htaken : m.params.length + (if m.isStatic then 0 else 1) = m.taken i.opcode := by
    rcases hcall with h | h <;> simp [RealizedMethod.taken, h]
  rw [htaken]
  have hshort : f.stack.length < m.taken i.opcode →
      ∃ handle typeArgs m, s.Names i handle typeArgs m ∧ f.stack.length < m.taken i.opcode :=
    fun h => ⟨handle, typeArgs, m, ⟨href, hm⟩, h⟩
  apply Yields.bind ((f.popMany_yields _).mono hshort fun _ h => h)
  rintro ⟨args, g⟩ ⟨hg, hip, hargs⟩
  dsimp only at hg hip hargs ⊢
  split
  · next hstatic => exact .callStatic hcall ⟨href, hm⟩ hstatic hg hip hargs
  · next hinstance =>
    have hinstance : m.isStatic = false := by simpa using hinstance
    split
    · next hdispatched =>
      rw [if_pos hdispatched] at hop
      split
      · have hlength : (f.stack.take (m.taken i.opcode)).reverse.length = m.taken i.opcode := by
          have henough := hg.enough
          simp only [List.length_reverse, List.length_take]
          omega
        rw [← hargs, ← htaken, hinstance] at hlength
        simp at hlength
      · next receiver _ =>
        apply Yields.bind (s.session.dispatch_faults receiver m).always.answer
        intro target htarget
        exact .invoke hcall ⟨href, hm⟩ hinstance hg hip hargs (.inr ⟨hop, receiver, htarget⟩)
    · next hdispatched =>
      rw [if_neg hdispatched] at hop
      exact .invoke hcall ⟨href, hm⟩ hinstance hg hip hargs (.inl ⟨hop, rfl⟩)

/-- The construction of an object takes what the constructor does, without the object. -/
theorem construct_yields (hop : i.opcode = .newobj) :
  Yields (∃ handle typeArgs m, s.Names i handle typeArgs m ∧ f.stack.length < m.taken i.opcode)
    (s.Outcome f i) (s.construct f i)
  := by
  apply Yields.bind i.methodRef_always.answer
  rintro ⟨handle, typeArgs⟩ href
  apply Yields.bind (s.session.methodAt_faults handle).always.answer
  intro m hm
  apply Yields.bind (s.session.typeAt_faults handle.owner).always.answer
  intro t ht
  have htaken : m.params.length = m.taken i.opcode := by
    simp [RealizedMethod.taken, hop]
  rw [htaken]
  have hshort : f.stack.length < m.taken i.opcode →
      ∃ handle typeArgs m, s.Names i handle typeArgs m ∧ f.stack.length < m.taken i.opcode :=
    fun h => ⟨handle, typeArgs, m, ⟨href, hm⟩, h⟩
  apply Yields.bind ((f.popMany_yields _).mono hshort fun _ h => h)
  rintro ⟨args, g⟩ ⟨hg, hip, hargs⟩
  dsimp only at hg hip hargs ⊢
  split
  · next hinstantiable => exact .construct hop ⟨href, hm⟩ ht hinstantiable hg hip hargs
  · trivial

/-- A return takes the result, if the method has one. -/
theorem returnValue_yields (hop : i.opcode = .ret) :
  Yields (f.method.returnType ≠ .void ∧ f.stack.length < 1) (s.Outcome f i) (returnValue f)
  := by
  rw [returnValue]
  split
  · next hvoid => exact .finish hop (.inl ⟨hvoid, rfl⟩)
  · next hvalue =>
    apply Yields.bind (f.pop_yields.mono (fun h => ⟨hvalue, h⟩) fun _ h => h)
    rintro ⟨v, g⟩ ⟨-, -, htop⟩
    exact .finish hop (.inr ⟨_, htop⟩)

/-- The top of the stack is thrown. -/
theorem throwTop_yields (hop : i.opcode = .throw) :
  Yields (f.stack.length < 1) (s.Outcome f i) (throwTop f)
  := by
  apply Yields.bind f.pop_yields
  rintro ⟨v, g⟩ ⟨hg, hip, htop⟩
  dsimp only at hg hip htop ⊢
  split
  · trivial
  · exact .throw hop hg hip htop

/-- The exception that is being handled is thrown again. -/
theorem rethrow_yields {short : Prop} (hop : i.opcode = .rethrow) :
  Yields short (s.Outcome f i) (rethrow f)
  := by
  rw [rethrow]
  split
  · next v hhandled => exact .rethrow hop hhandled
  · trivial

/-- The end of a finally handler goes on with what has been pending. -/
theorem endFinally_yields {short : Prop} (hop : i.opcode = .endfinally) :
  Yields short (s.Outcome f i) (endFinally f)
  := by
  rw [endFinally]
  split
  · trivial
  · next c pending hpending =>
    cases c with
    | leave region target remaining => exact .endLeave hop hpending
    | unwind region exception => exact .endUnwind hop hpending

/-! ## Every instruction -/

/-- An instruction that stays in its frame, as `execute` runs it. -/
theorem proceed_yields {α : Type} {op : Opcode} {pops pushes : Nat} {frame : α → Frame}
    {x : Except Fault α} {k : α → Request × Heap} (hop : i.opcode = op) (hflow : op.flow = .next)
    (heffect : op.stackEffect = .fixed pops pushes) (hk : ∀ a, (k a).1 = .proceed (frame a))
    (hx : Yields (f.stack.length < pops) (fun a => Moves pops pushes f (frame a)) x) :
  Yields (f.stack.length < pops) (fun r => s.Outcome f i r.1) (x.map k)
  := by
  apply hx.map
  rintro a ⟨ha, hip⟩
  rw [hk]
  exact .next (by rw [hop, hflow]) (by rw [hop, heffect]) ha hip

/-- What an instruction asks for is one of the outcomes, and it lacks values on the
stack only if the stack is short of what it takes. -/
theorem execute_yields (s : Surroundings) (heap : Heap) (f : Frame) (i : Instruction) :
  Yields (s.Short f i) (fun r => s.Outcome f i r.1) (s.execute heap f i)
  := by
  rw [execute, Short]
  cases hop : i.opcode with
  | nop => exact proceed_yields hop rfl rfl (fun _ => rfl) ⟨f.rewrites_advance, rfl⟩
  | dup =>
      apply proceed_yields hop rfl rfl fun _ => rfl
      apply Yields.bind f.pop_yields
      rintro ⟨v, g⟩ ⟨-, -, htop⟩
      apply (s.push_yields f v).mono id
      rintro h ⟨hh, hip⟩
      exact ⟨hh.keep htop, hip⟩
  | pop =>
      apply proceed_yields hop rfl rfl fun _ => rfl
      apply Yields.bind f.pop_yields
      rintro ⟨v, g⟩ ⟨hg, hip, -⟩
      exact ⟨hg.trans_same g.rewrites_advance, congrArg (· + 1) hip⟩
  | ldnull | ldcI4MinusOne | ldcI4Implied _ | ldcI4 _ | ldcI8 | ldcR4 | ldcR8 | ldstr =>
      apply proceed_yields hop rfl rfl (fun _ => rfl) (s.loadConstant_yields f i)
  | ldargImplied n =>
      apply proceed_yields hop rfl rfl fun _ => rfl
      apply Yields.bind (f.argAt_faults n).always.mono
      intro v _
      apply s.push_yields
  | ldarg _ =>
      apply proceed_yields hop rfl rfl fun _ => rfl
      apply Yields.bind i.argIndex_always.mono
      intro n _
      apply Yields.bind (f.argAt_faults n).always.mono
      intro v _
      apply s.push_yields
  | starg _ =>
      apply proceed_yields hop rfl rfl fun _ => rfl
      apply store_yields
      intro g v
      apply Yields.bind i.argIndex_always
      intro n _
      apply g.setArg_yields n v
  | ldlocImplied n =>
      apply proceed_yields hop rfl rfl fun _ => rfl
      apply Yields.bind (f.localAt_faults n).always.mono
      intro v _
      apply s.push_yields
  | ldloc _ =>
      apply proceed_yields hop rfl rfl fun _ => rfl
      apply Yields.bind i.localIndex_always.mono
      intro n _
      apply Yields.bind (f.localAt_faults n).always.mono
      intro v _
      apply s.push_yields
  | stlocImplied n =>
      apply proceed_yields hop rfl rfl fun _ => rfl
      apply store_yields
      intro g v
      apply g.setLocal_yields n v
  | stloc _ =>
      apply proceed_yields hop rfl rfl fun _ => rfl
      apply store_yields
      intro g v
      apply Yields.bind i.localIndex_always
      intro n _
      apply g.setLocal_yields n v
  | binary op =>
      apply proceed_yields hop rfl rfl (fun _ => rfl) (onTopTwo_yields (Arithmetic.binary_faults op))
  | shift op =>
      apply proceed_yields hop rfl rfl (fun _ => rfl) (onTopTwo_yields (Arithmetic.shift_faults op))
  | neg => apply proceed_yields hop rfl rfl (fun _ => rfl) (onTop_yields Arithmetic.negate_faults)
  | not => apply proceed_yields hop rfl rfl (fun _ => rfl) (onTop_yields Arithmetic.complement_faults)
  | ckfinite =>
      apply proceed_yields hop rfl rfl (fun _ => rfl) (onTop_yields Arithmetic.checkFinite_faults)
  | compare op =>
      apply proceed_yields hop rfl rfl fun _ => rfl
      apply onTopTwo_yields
      intro a b
      exact Faults.bind (op.eval_faults a b) fun _ _ => trivial
  | conv target =>
      apply proceed_yields hop rfl rfl (fun _ => rfl)
        (onTop_yields (Opcode.convertValue_faults target))
  | convOvf target =>
      apply proceed_yields hop rfl rfl (fun _ => rfl)
        (onTop_yields (Opcode.convertValueChecked_faults target))
  | branch test w =>
      apply (branch_yields f i test).map
      rintro g ⟨hg, hip⟩
      cases test with
      | always =>
          refine .branch (.inl (by rw [hop]; rfl)) (by rw [hop]; rfl) hg (.inl ?_)
          apply hip.resolve_right fun h => h.1 rfl
      | isFalse | isTrue | compare _ =>
          refine .branch (.inr (.inl (by rw [hop]; rfl))) (by rw [hop]; rfl) hg ?_
          apply hip.imp_right fun h => ⟨by rw [hop]; simp [Opcode.flow], h.2⟩
  | switch =>
      apply (switch_yields f i).map
      rintro g ⟨hg, hip⟩
      refine .branch (.inr (.inr (by rw [hop]; rfl))) (by rw [hop]; rfl) hg ?_
      apply hip.imp_right fun h => ⟨by rw [hop]; simp [Opcode.flow], h⟩
  | call =>
      have hcall : Yields _ (s.Outcome f i) (s.call f i false) := call_yields hop
      rw [hop] at hcall
      exact hcall.map fun _ h => h
  | callvirt =>
      have hcall : Yields _ (s.Outcome f i) (s.call f i true) := call_yields hop
      rw [hop] at hcall
      exact hcall.map fun _ h => h
  | newobj =>
      have hconstruct : Yields _ (s.Outcome f i) (s.construct f i) := construct_yields hop
      rw [hop] at hconstruct
      exact hconstruct.map fun _ h => h
  | ret => exact (returnValue_yields hop).map fun _ h => h
  | ldfld => apply proceed_yields hop rfl rfl (fun _ => rfl) (s.loadField_yields heap f i)
  | stfld => apply proceed_yields hop rfl rfl (fun _ => rfl) (s.storeField_yields heap f i)
  | ldsfld => exact (loadStatic_yields hop).map fun _ h => h
  | stsfld => exact (storeStatic_yields hop).map fun _ h => h
  | castclass =>
      apply proceed_yields hop rfl rfl fun _ => rfl
      apply Yields.bind i.typeRef_always.mono
      intro t _
      apply onTop_yields (s.castTo_faults _)
  | isinst =>
      apply proceed_yields hop rfl rfl fun _ => rfl
      apply Yields.bind i.typeRef_always.mono
      intro t _
      apply onTop_yields
      intro v
      trivial
  | box =>
      apply proceed_yields hop rfl rfl fun _ => rfl
      apply Yields.bind i.typeRef_always.mono
      intro t _
      apply s.box_yields
  | unboxAny =>
      apply proceed_yields hop rfl rfl fun _ => rfl
      apply Yields.bind i.typeRef_always.mono
      intro t _
      apply onTop_yields (s.unbox_faults _)
  | newarr =>
      apply proceed_yields hop rfl rfl fun _ => rfl
      apply Yields.bind i.typeRef_always.mono
      intro t _
      apply s.newArray_yields
  | ldlen => apply proceed_yields hop rfl rfl (fun _ => rfl) (onTop_yields (arrayLength_faults heap))
  | ldelem => apply proceed_yields hop rfl rfl (fun _ => rfl) (s.loadElement_yields heap f)
  | stelem => apply proceed_yields hop rfl rfl (fun _ => rfl) (storeElement_yields heap f)
  | throw => exact (throwTop_yields hop).map fun _ h => h
  | rethrow => exact (rethrow_yields hop).map fun _ h => h
  | leave w =>
      apply Yields.map (P := fun g => s.Outcome f i (.proceed g))
      · apply Yields.bind i.label_yields
        intro l hl
        apply Yields.bind (f.target_yields l)
        intro target htarget
        exact .leave hop hl htarget
      · exact fun _ h => h
  | endfinally => exact (endFinally_yields hop).map fun _ h => h

end Surroundings

end ManagedCode
