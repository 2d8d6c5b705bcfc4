import ManagedCode.Proofs.Machine.FoldedConversions
import ManagedCode.Proofs.Machine.IntegerArithmetic
import ManagedCode.Proofs.Machine.StackForms

/-!
# Boxing a value and taking it back

The emitter decides by the type as it is written whether to box a value and how to take it back,
and the machine decides again by the type that it stands for in an activation.  The two agree: a
value of a value type is boxed and unboxed, and a reference passes through and is cast.
-/

namespace ManagedCode

/-! ## What is emitted -/

namespace TypeRef

/-- The code that boxes a value of a type. -/
def boxCode (t : TypeRef) : List Instruction :=
  if t.isValueType || t.isGeneric then [⟨.box, .type t⟩] else []

/-- The code that takes a reference back to a type. -/
def unboxCode (t : TypeRef) : List Instruction :=
  if t = .object then []
  else if t.isValueType || t.isGeneric then [⟨.unboxAny, .type t⟩]
  else [⟨.castclass, .type t⟩]

theorem boxCode_unlabeled (t : TypeRef) : ∀ i ∈ t.boxCode, i.operand.labels = [] := by
  rw [boxCode]
  split <;> simp [Operand.labels]

end TypeRef

namespace Emitter

variable {e e' : Emitter} {code : List Instruction}

theorem boxAs_finished (e : Emitter) (t : TypeRef) : (e.boxAs t).finished = e.finished := by
  rw [boxAs]
  split
  · apply emitWith_finished
  · rfl

/-- Boxing emits its instructions, and none for a type without a box. -/
theorem Appends.boxAs (hfinished : e.finished = false) (t : TypeRef) :
  e.Appends t.boxCode (e.boxAs t)
  := by
  rw [Emitter.boxAs, TypeRef.boxCode]
  split
  · exact (Appends.nil e).emitWith hfinished (fun _ hi => absurd hi List.not_mem_nil) rfl rfl
  · exact .nil e

/-- Unboxing emits its instruction after what has been emitted. -/
theorem Appends.unboxAs (h : e.Appends code e') (hfinished : e'.finished = false)
    (hcode : ∀ i ∈ code, i.operand.labels = []) (t : TypeRef) :
  e.Appends (code ++ t.unboxCode) (e'.unboxAs t)
  := by
  rw [Emitter.unboxAs, TypeRef.unboxCode]
  split
  · rwa [List.append_nil]
  · split <;> exact h.emitWith hfinished hcode rfl rfl

end Emitter

/-! ## What the instructions do -/

/-- A value as boxing it as a value of a type leaves it, with the heap after that. -/
def Heap.boxing (h : Heap) (t : TypeRef) (v : Value) : Value × Heap :=
  if t.isValueType then h.allocBox t v else (v, h)

/-- A frame some instructions further, with a value on top of its stack. -/
def Frame.put (f : Frame) (n : Nat) (v : Value) (rest : List Value) : Frame :=
  { f with stack := v :: rest, ip := f.ip + n }

@[simp] theorem Frame.resolve_put (f : Frame) (n : Nat) (v : Value) (rest : List Value)
    (t : TypeRef) :
  (f.put n v rest).resolve t = f.resolve t
  := rfl

@[simp] theorem Frame.put_put (f : Frame) (m n : Nat) (v w : Value) (rest : List Value) :
  (f.put m v rest).put n w rest = f.put (m + n) w rest
  := by
  simp only [put, Nat.add_assoc]

/-- What boxing leaves is in the form of the stack again. -/
theorem Heap.toStack_boxing {v : Value} (hv : v.toStack = v) (heap : Heap) (t : TypeRef) :
  (heap.boxing t v).1.toStack = (heap.boxing t v).1
  := by
  rw [boxing]
  split
  · rfl
  · exact hv

namespace Surroundings

variable {s : Surroundings} {f : Frame} {v : Value} {rest : List Value}

section Instructions

variable (hstack : f.stack = v :: rest) (hlimit : rest.length < s.stackLimit) (heap : Heap)
  (t : TypeRef)

include hstack hlimit

theorem onTop_put (op : Value → Except Fault Value) :
  s.onTop f op = (op v).map fun w => f.put 1 w.toStack rest
  := by
  rw [onTop_of_stack hstack]
  cases op v with
  | error error => rfl
  | ok w => exact push_of_lt hlimit f w

/-- A box takes the place of the value. -/
theorem execute_box :
  s.execute heap f ⟨.box, .type t⟩
    = .ok (.proceed (f.put 1 (heap.boxing (f.resolve t) v).1.toStack rest),
        (heap.boxing (f.resolve t) v).2)
  := by
  change (s.box heap f (f.resolve t)).map _ = _
  rw [box, Frame.pop, hstack]
  change Except.map _ ((s.push { f with stack := rest } _) >>= _) = _
  rw [push_of_lt hlimit]
  rfl

/-- A cast leaves the value if it is an instance. -/
theorem execute_castclass :
  s.execute heap f ⟨.castclass, .type t⟩
    = (s.castTo (f.resolve t) v).map fun w => (.proceed (f.put 1 w.toStack rest), heap)
  := by
  change (s.onTop f (s.castTo (f.resolve t))).map _ = _
  rw [onTop_put hstack hlimit]
  cases s.castTo (f.resolve t) v <;> rfl

/-- The content takes the place of the box. -/
theorem execute_unboxAny :
  s.execute heap f ⟨.unboxAny, .type t⟩
    = (s.unbox (f.resolve t) v).map fun w => (.proceed (f.put 1 w.toStack rest), heap)
  := by
  change (s.onTop f (s.unbox (f.resolve t))).map _ = _
  rw [onTop_put hstack hlimit]
  cases s.unbox (f.resolve t) v <;> rfl

end Instructions

/-- What has been boxed is unboxed, and what has not been boxed is cast. -/
theorem unbox_boxing (s : Surroundings) (heap : Heap) (t : TypeRef) (v : Value) :
  s.unbox t (heap.boxing t v).1 = if t.isValueType then .ok v else s.castTo t v
  := by
  cases ht : t.isValueType <;> simp [unbox, Heap.boxing, Heap.allocBox, ht]

end Surroundings

/-! ## Running code -/

theorem MethodBody.Holds.uncons
    {body : MethodBody} {ip : Nat} {i : Instruction} {code : List Instruction}
    (h : body.Holds ip (i :: code)) :
  body.instructions[ip]? = some i ∧ body.Holds (ip + 1) code
  := by
  obtain ⟨tail, htail⟩ := h
  constructor
  · rw [← Array.getElem?_toList, ← List.head?_drop, ← htail]
    rfl
  · rw [Holds, ← List.drop_drop, ← htail]
    exact List.prefix_append _ _

namespace Execution

/-- A program behind code of a frame, with what the code has left on top of the stack. -/
def past (e : Execution) (code : List Instruction) (heap : Heap) (v : Value) (f : Frame)
    (rest : List Value) (callers : List Frame) : Execution :=
  { machine := { e.machine with steps := e.machine.steps + code.length }
    heap := heap
    frames := f.put code.length v rest :: callers }

theorem past_past (e : Execution) (code code' : List Instruction) (heap heap' : Heap) (v w : Value)
    (f : Frame) (rest : List Value) (callers : List Frame) :
  (e.past code heap w f rest callers).past code' heap' v (f.put code.length w rest) rest callers
    = e.past (code ++ code') heap' v f rest callers
  := by
  simp only [past, Frame.put_put, List.length_append, Nat.add_assoc]

namespace Meets

variable {session : Session} {e : Execution} {i : Instruction} {code : List Instruction}
  {v w : Value} {f : Frame} {rest : List Value} {callers : List Frame} {heap : Heap}

theorem past_nil (h : e.Meets [] v f rest callers) : e.past [] e.heap v f rest callers = e := by
  have hframe : f.put 0 v rest = f := by
    rw [Frame.put, ← h.stack, Nat.add_zero]
  obtain ⟨machine, heap, frames⟩ := e
  rw [past, List.length_nil, hframe]
  exact congrArg (Execution.mk machine heap) h.frames.symm

theorem executes (h : e.Meets (i :: code) v f rest callers) :
  e.Executes i f callers { e.machine with steps := e.machine.steps + 1 }
  := by
  refine ⟨h.frames, h.holds.uncons.1, Machine.tick_of_le fun budget hbudget => ?_⟩
  have := h.budget budget hbudget
  rw [List.length_cons] at this
  omega

/-- Where code goes on when its first instruction has replaced the value on top of the stack. -/
theorem next (h : e.Meets (i :: code) v f rest callers) (heap : Heap) (w : Value) :
  (e.past [i] heap w f rest callers).Meets code w (f.put 1 w rest) rest callers
  := by
  refine ⟨rfl, h.holds.uncons.2, rfl, h.depth, fun budget hbudget => ?_⟩
  have := h.budget budget hbudget
  rw [List.length_cons] at this
  change e.machine.steps + 1 + code.length ≤ budget
  omega

/-- An instruction that replaces the value on top of the stack. -/
theorem run_one (h : e.Meets (i :: code) v f rest callers)
    (hexecute : Surroundings.execute ⟨session, e.machine.limits.maxStackDepth⟩ e.heap f i
      = .ok (.proceed (f.put 1 w rest), heap)) :
  e.run session 1 = .running (e.past [i] heap w f rest callers)
  :=
  run_of_running (h.executes.step_eq hexecute)

/-- An instruction that fails ends the run. -/
theorem run_one_error (h : e.Meets (i :: code) v f rest callers) {error : Fault}
    (hexecute : Surroundings.execute ⟨session, e.machine.limits.maxStackDepth⟩ e.heap f i
      = .error error) :
  e.run session 1
    = .finished { e.machine with steps := e.machine.steps + 1 } e.heap (.error error)
  := by
  apply run_of_finished
  rw [step, h.frames]
  dsimp only
  rw [h.executes.instruction]
  dsimp only
  rw [h.executes.budget]
  dsimp only
  rw [hexecute]
  rfl

end Meets

end Execution

/-! ## There and back -/

/-- The value comes back from its box, or passes a cast. -/
def Session.Admits (session : Session) (v : Value) (t : TypeRef) : Prop :=
  t.isValueType = true ∨ v.isNull = true ∨ session.isInstance v t = true

/-- What becomes of the value on top of the stack when code boxes it as a value of a type and takes
it back.  A value of a value type comes back out of a box that conforms to the type and to the type
of all objects only; another value comes back if it is null or conforms to the type. -/
structure Session.RoundTrips (session : Session) (t : TypeRef) (e : Execution) (v : Value)
    (f : Frame) (rest : List Value) (callers : List Frame) : Prop where
  boxed : (f.resolve t).isValueType = true → ∃ w,
    e.run session t.boxCode.length
      = .running (e.past t.boxCode (e.heap.boxing (f.resolve t) v).2 w f rest callers)
    ∧ ∀ u, session.isInstance w u = true ↔ u = .object ∨ u = f.resolve t
  returns : session.Admits v (f.resolve t) →
    e.run session (t.boxCode ++ t.unboxCode).length
      = .running (e.past (t.boxCode ++ t.unboxCode) (e.heap.boxing (f.resolve t) v).2 v f rest
          callers)
  refuses : ¬ session.Admits v (f.resolve t) →
    e.run session (t.boxCode ++ t.unboxCode).length
      = .finished (e.past (t.boxCode ++ t.unboxCode) e.heap v f rest callers).machine e.heap
          (.error (Surroundings.invalidCast v (f.resolve t)))

namespace TypeRef

/-- Only a value type, or a generic parameter, can stand for a value type. -/
theorem isValueType_substitute
    {t : TypeRef} (ht : (t.isValueType || t.isGeneric) = false) (names : List String)
    (args : List TypeRef) :
  (t.substitute names args).isValueType = false
  := by
  cases t with
  | generic name => cases ht
  | array element => rfl
  | _ => exact (Bool.or_eq_false_iff.mp ht).1

end TypeRef

namespace Session

variable {session : Session} {v : Value} {t : TypeRef}

/-- A box is an instance of its type and of the universal base, and of nothing else. -/
theorem isInstance_boxed
    (session : Session) (a : Nat) (u : TypeRef) (v : Value) (t : TypeRef) :
  session.isInstance (.boxed a u v) t = true ↔ t = .object ∨ t = u
  := by
  by_cases hobject : t = .object
  case pos =>
    subst hobject
    exact ⟨fun _ => .inl rfl, fun _ => rfl⟩
  case neg =>
    have hboxed : session.isInstance (.boxed a u v) t = (u == t) := by
      cases t <;> first | rfl | exact absurd rfl hobject
    rw [hboxed, beq_iff_eq]
    exact ⟨fun h => .inr h.symm, fun h => (h.resolve_left hobject).symm⟩

theorem admits_object (session : Session) (v : Value) : session.Admits v .object := by
  right
  cases v with
  | null => exact .inl rfl
  | _ => exact .inr rfl

/-- A cast to a reference type succeeds on what the type admits. -/
theorem castTo_of_admits (h : session.Admits v t) (ht : t.isValueType = false) (limit : Nat) :
  Surroundings.castTo ⟨session, limit⟩ t v = .ok v
  := by
  rw [Admits, ht] at h
  apply if_pos
  simpa using h

/-- It fails on everything else. -/
theorem castTo_of_not_admits (h : ¬ session.Admits v t) (limit : Nat) :
  Surroundings.castTo ⟨session, limit⟩ t v = .error (Surroundings.invalidCast v t)
  := by
  apply if_neg
  intro hconforms
  apply h
  right
  simpa using hconforms

/-- What has been boxed comes out of the box. -/
theorem unbox_of_admits (h : session.Admits v t) (limit : Nat) (heap : Heap) :
  Surroundings.unbox ⟨session, limit⟩ t (heap.boxing t v).1 = .ok v
  := by
  rw [Surroundings.unbox_boxing]
  split
  · rfl
  · next ht => exact castTo_of_admits h (eq_false_of_ne_true ht) limit

/-- A box of another type is no instance. -/
theorem unbox_of_not_admits (h : ¬ session.Admits v t) (limit : Nat) (heap : Heap) :
  Surroundings.unbox ⟨session, limit⟩ t (heap.boxing t v).1
    = .error (Surroundings.invalidCast v t)
  := by
  rw [Surroundings.unbox_boxing, if_neg fun ht => h (.inl ht)]
  exact castTo_of_not_admits h limit

namespace RoundTrips

variable {e : Execution} {f : Frame} {rest : List Value} {callers : List Frame}

/-- The type may stand for a value type, so the machine decides what to do. -/
theorem of_boxed
    (ht : (t.isValueType || t.isGeneric) = true) (hv : v.toStack = v)
    (hmeets : e.Meets (t.boxCode ++ t.unboxCode) v f rest callers) :
  session.RoundTrips t e v f rest callers
  := by
  have hobject : t ≠ .object := by
    rintro rfl
    cases ht
  have hbox : t.boxCode = [⟨.box, .type t⟩] := if_pos ht
  have hunbox : t.unboxCode = [⟨.unboxAny, .type t⟩] := (if_neg hobject).trans (if_pos ht)
  obtain ⟨w, heap, hmade⟩ : ∃ w heap, e.heap.boxing (f.resolve t) v = (w, heap) := ⟨_, _, rfl⟩
  rw [hbox, hunbox] at hmeets
  have hfirst := Surroundings.execute_box (s := ⟨session, e.machine.limits.maxStackDepth⟩)
    hmeets.stack hmeets.depth e.heap t
  rw [e.heap.toStack_boxing hv, hmade] at hfirst
  have hboxed := hmeets.run_one hfirst
  have hthen := hmeets.next heap w
  have hsecond := Surroundings.execute_unboxAny (s := ⟨session, e.machine.limits.maxStackDepth⟩)
    hthen.stack hthen.depth heap t
  rw [Frame.resolve_put] at hsecond
  have hw : w = (e.heap.boxing (f.resolve t) v).1 := by rw [hmade]
  have hrun : ∀ n, e.run session (1 + n) = (e.past _ heap w f rest callers).run session n :=
    Execution.run_add hboxed
  constructor
  case boxed =>
    intro hvalue
    rw [hbox, hmade]
    refine ⟨w, hboxed, fun u => ?_⟩
    rw [hw, Heap.boxing, if_pos hvalue]
    apply session.isInstance_boxed
  case returns =>
    intro hadmits
    rw [hw, unbox_of_admits hadmits, ← hw] at hsecond
    change _ = Except.ok (_, heap) at hsecond
    rw [hv] at hsecond
    rw [hbox, hunbox, hmade]
    refine (hrun 1).trans ((hthen.run_one hsecond).trans ?_)
    rw [← Execution.past_past]
    rfl
  case refuses =>
    intro hrefused
    rw [hw, unbox_of_not_admits hrefused, ← hw] at hsecond
    rw [hbox, hunbox]
    have hheap : heap = e.heap := by
      rw [Heap.boxing, if_neg fun hvalue => hrefused (.inl hvalue)] at hmade
      exact (Prod.mk.inj hmade).2.symm
    rw [hheap] at hrun hthen hsecond
    exact (hrun 1).trans (hthen.run_one_error hsecond)

/-- The type stands for no value type, so the value is not boxed, and a cast takes it back. -/
theorem of_cast
    (ht : (t.isValueType || t.isGeneric) = false) (hv : v.toStack = v)
    (hmeets : e.Meets (t.boxCode ++ t.unboxCode) v f rest callers) :
  session.RoundTrips t e v f rest callers
  := by
  have hreference : (f.resolve t).isValueType = false := by
    rw [f.resolve_eq]
    exact TypeRef.isValueType_substitute ht _ _
  have hheap : (e.heap.boxing (f.resolve t) v).2 = e.heap := by
    rw [Heap.boxing, hreference]
    rfl
  have hbox : t.boxCode = [] := if_neg (ht ▸ Bool.false_ne_true)
  have hboxed : ¬ (f.resolve t).isValueType = true := hreference ▸ Bool.false_ne_true
  by_cases hobject : t = .object
  case pos =>
    have hunbox : t.unboxCode = [] := if_pos hobject
    rw [hbox, hunbox] at hmeets
    refine ⟨fun h => absurd h hboxed, fun _ => ?_, fun h => ?_⟩
    · rw [hbox, hunbox, hheap, List.append_nil, hmeets.past_nil]
      rfl
    · subst hobject
      exact absurd (session.admits_object v) h
  case neg =>
    have hunbox : t.unboxCode = [⟨.castclass, .type t⟩] :=
      (if_neg hobject).trans (if_neg (ht ▸ Bool.false_ne_true))
    rw [hbox, hunbox, List.nil_append] at hmeets
    have hcast := Surroundings.execute_castclass (s := ⟨session, e.machine.limits.maxStackDepth⟩)
      hmeets.stack hmeets.depth e.heap t
    refine ⟨fun h => absurd h hboxed, fun hadmits => ?_, fun hrefused => ?_⟩
    · rw [castTo_of_admits hadmits hreference] at hcast
      change _ = Except.ok (_, e.heap) at hcast
      rw [hv] at hcast
      rw [hbox, hunbox, hheap, List.nil_append]
      exact hmeets.run_one hcast
    · rw [castTo_of_not_admits hrefused] at hcast
      rw [hbox, hunbox, List.nil_append]
      exact hmeets.run_one_error hcast

end RoundTrips

end Session

/-- A value inside of a machine is in the form of the stack. -/
theorem Value.Internal.toStack {v : Value} (h : v.Internal) : v.toStack = v := by
  cases v with
  | bool b => exact absurd rfl (h b)
  | _ => rfl

/-- Whatever a type stands for in an activation, the code that boxes a value as one of the type and
takes it back does so. -/
theorem Emitter.boxes_and_unboxes {e : Emitter} (hfinished : e.finished = false) (t : TypeRef) :
  e.Appends (t.boxCode ++ t.unboxCode) ((e.boxAs t).unboxAs t)
  ∧ ∀ session exec v f rest callers, Value.Internal v →
      Execution.Meets exec (t.boxCode ++ t.unboxCode) v f rest callers →
      Session.RoundTrips session t exec v f rest callers
  := by
  constructor
  · apply (Appends.boxAs hfinished t).unboxAs _ t.boxCode_unlabeled
    rw [boxAs_finished, hfinished]
  · intro session exec v f rest callers hv hmeets
    cases ht : t.isValueType || t.isGeneric with
    | true => exact .of_boxed ht hv.toStack hmeets
    | false => exact .of_cast ht hv.toStack hmeets

/-- An activation of a generic method for arrays of objects, with an array of strings. -/
def passingFrame : Frame :=
  { (default : Frame) with
    method := { (default : RealizedMethod) with genericParams := ["T"] }
    body := { (default : MethodBody) with
      instructions := #[⟨.box, .type (.generic "T")⟩, ⟨.unboxAny, .type (.generic "T")⟩] }
    typeArgs := [.array .object]
    stack := [.array ⟨0, .string⟩]
    ip := 0 }

/-- An array of strings passes as an array of objects, without a box. -/
theorem passingFrame_boxes_and_unboxes :
  Execution.run default 2 ⟨{}, {}, [passingFrame]⟩
    = .running (Execution.past ⟨{}, {}, [passingFrame]⟩
        [⟨.box, .type (.generic "T")⟩, ⟨.unboxAny, .type (.generic "T")⟩] {}
        (.array ⟨0, .string⟩) passingFrame [] [])
  := by
  obtain ⟨-, hruns⟩ := Emitter.boxes_and_unboxes (e := { method := "M" }) rfl (.generic "T")
  have hmeets : Execution.Meets ⟨{}, {}, [passingFrame]⟩
      (TypeRef.boxCode (.generic "T") ++ TypeRef.unboxCode (.generic "T"))
      (.array ⟨0, .string⟩) passingFrame [] [] :=
    { frames := rfl
      holds := List.prefix_refl _
      stack := rfl
      depth := Nat.zero_lt_succ _
      budget := fun _ hbudget => nomatch hbudget }
  have hinternal : Value.Internal (.array ⟨0, .string⟩) := fun _ hb => nomatch hb
  exact (hruns default _ _ _ _ _ hinternal hmeets).returns (.inr (.inr rfl))

end ManagedCode
