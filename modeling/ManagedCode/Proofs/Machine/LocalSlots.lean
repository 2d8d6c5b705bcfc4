import ManagedCode.Proofs.Assembly.Bodies
import ManagedCode.Proofs.Machine.EmittedConversions
import ManagedCode.Proofs.Machine.StackForms
import ManagedCode.Proofs.Machine.Transfers

/-!
# The slots of locals

An emitter declares any number of locals and keeps the index of each in 16 bits.  A local that is
declared after `k` others therefore stands for the slot `k` modulo 2^16 of the body: it has a slot
to itself as long as 16 bits hold `k`, and from there on it shares one with an earlier local
(`Emitter.slot_of_declares`).  In a frame every slot starts at the default of the type that is
declared for it, and holds what was last stored into it (`Activation.Run.entered_locals`).
-/

namespace ManagedCode

open Relation

/-- The last of the first elements of an array. -/
theorem getElem?_of_push_prefix
    {α : Type} {xs ys : Array α} {x : α} (h : (xs.push x).toList <+: ys.toList) :
  ys[xs.size]? = some x
  := by
  obtain ⟨later, hlater⟩ := h
  have hlt : xs.size < (xs.push x).toList.length := by
    rw [Array.length_toList, Array.size_push]
    exact Nat.lt_succ_self _
  rw [← Array.getElem?_toList, ← hlater, List.getElem?_append_left hlt, Array.getElem?_toList,
    Array.getElem?_push_size]

/-! ## Declarations -/

namespace Emitter

variable {e e₁ e' : Emitter}

theorem emitWith_locals (e : Emitter) (op : Opcode) (operand : Operand) :
  (e.emitWith op operand).locals = e.locals
  := by
  rw [emitWith, recordSealed]
  split
  · split <;> rfl
  · rfl

theorem closeHandler_locals (e : Emitter) : e.closeHandler.locals = e.locals := by
  rw [closeHandler]
  split
  · rfl
  · split <;> rfl

theorem markLabel_locals (e : Emitter) (l : Label) : (e.markLabel l).locals = e.locals := by
  rw [markLabel]
  split <;> rfl

theorem Begins.locals {kind : HandlerKind} (h : e.Begins kind e') : e'.locals = e.locals := by
  obtain ⟨block, outer, -, -, rfl⟩ := h
  have hclosed : (e.emitWith (.leave .long) (.label block.exit)).closeHandler.locals = e.locals :=
    (closeHandler_locals _).trans (e.emitWith_locals _ _)
  rw [openHandler]
  dsimp only
  split <;> exact hclosed

theorem endBlock_locals (hok : e.endBlock = .ok e') : e'.locals = e.locals := by
  rw [endBlock] at hok
  split at hok
  · cases hok
  · split at hok
    · cases hok
    · cases hok
      rw [markLabel_locals]
      dsimp only
      rw [closeHandler_locals]
      split <;> apply emitWith_locals

/-- Until the body is sealed, the locals so far stay the first ones. -/
theorem Step.locals (hstep : e.Step e') (hfinished : e'.finished = false) :
  e.locals.toList <+: e'.locals.toList
  := by
  have hkept : e'.locals = e.locals → e.locals.toList <+: e'.locals.toList :=
    fun h => h ▸ List.prefix_rfl
  cases hstep with
  | emitWith op operand => exact hkept (e.emitWith_locals op operand)
  | defineLabel => exact hkept rfl
  | markLabel l => exact hkept (e.markLabel_locals l)
  | declareLocal t =>
      change e.locals.toList <+: (e.locals.push t).toList
      rw [Array.toList_push]
      apply List.prefix_append
  | beginBlock => exact hkept rfl
  | beginCatch hok => exact hkept (begins_of_beginCatch hok).locals
  | beginFinally hok => exact hkept (begins_of_beginFinally hok).locals
  | endBlock hok => exact hkept (endBlock_locals hok)
  | sealBodyWith effectOf =>
      rw [sealBodyWith_finished] at hfinished
      cases hfinished

theorem Steps.locals (hsteps : e.Steps e') (hfinished : e'.finished = false) :
  e.locals.toList <+: e'.locals.toList
  := by
  induction hsteps with
  | refl => exact List.prefix_rfl
  | tail _ hstep ih =>
      exact (ih (hstep.extends hfinished).1).trans (hstep.locals hfinished)

/-- A local has been declared after `k` others, those included that no caller has asked for. -/
def Declares (e : Emitter) (k : Nat) (x : LocalVar) : Prop :=
  ∃ e₀ e₁ : Emitter, e₀.locals.size = k ∧ e₀.declareLocal x.type = (x, e₁) ∧ e₁.Steps e

namespace Declares

variable {j k : Nat} {x y : LocalVar}

theorem index_eq (h : e.Declares k x) : x.index.toNat = k % 2 ^ 16 := by
  obtain ⟨e₀, e₁, rfl, hdeclare, -⟩ := h
  rw [← congrArg (·.1.index) hdeclare]
  exact UInt16.toNat_ofNat'

theorem index_eq_iff (hx : e.Declares k x) (hy : e.Declares j y) :
  y.index = x.index ↔ j % 2 ^ 16 = k % 2 ^ 16
  := by
  rw [← UInt16.toNat_inj, hx.index_eq, hy.index_eq]

theorem type_eq (h : e.Declares k x) (hfinished : e.finished = false) :
  e.locals[k]? = some x.type
  := by
  obtain ⟨e₀, e₁, rfl, hdeclare, hsteps⟩ := h
  have hlocals : e₁.locals = e₀.locals.push x.type := (congrArg (·.2.locals) hdeclare).symm
  apply getElem?_of_push_prefix
  rw [← hlocals]
  exact hsteps.locals hfinished

end Declares

/-! ## Code that stores and loads -/

/-- An instruction without labels stays where it is emitted. -/
theorem getElem?_of_emitWith
    {op : Opcode} {operand : Operand} {effectOf : Opcode → MethodRef → Option CallEffect}
    {body : MethodBody} (hsteps : (e₁.emitWith op operand).Steps e) (hlabels : operand.labels = [])
    (hsealed : (e.sealBodyWith effectOf).1 = .ok body) :
  body.instructions[e₁.position]? = some ⟨op, operand⟩
  := by
  obtain ⟨hopen, -, maxStack, -, rfl⟩ := sealBodyWith_ok hsealed
  obtain ⟨hfinished, hextends⟩ := hsteps.extends hopen
  rw [emitWith_finished] at hfinished
  rw [Extends, (emitWith_of_unfinished hfinished op operand).1] at hextends
  have hemitted : e.instructions[e₁.position]? = some ⟨op, operand⟩ :=
    getElem?_of_push_prefix hextends
  change (e.instructions.mapIdx e.relaxInstruction)[e₁.position]? = _
  rw [Array.getElem?_mapIdx, hemitted, Option.map_some, relaxInstruction_of_unlabeled _ _ hlabels]

end Emitter

/-- The local that an instruction loads. -/
def Instruction.loadedLocal? (i : Instruction) : Option Nat :=
  match i.opcode, i.operand with
  | .ldlocImplied n, _ => some n
  | .ldloc _, .localSlot n => some n.toNat
  | _, _ => none

namespace Instruction

variable {i : Instruction} {n : Nat}

theorem storedLocal?_eq_some :
  i.storedLocal? = some n ↔ ∃ m : UInt16, m.toNat = n ∧ i.transfer? = some (.store .locals m)
  := by
  constructor
  · intro h
    obtain ⟨op, operand⟩ := i
    rw [storedLocal?] at h
    dsimp only at h
    split at h <;> cases h
    · exact ⟨_, Opcode.toNat_indexFrom rfl, rfl⟩
    · exact ⟨_, rfl, rfl⟩
  · rintro ⟨m, rfl, h⟩
    unfold transfer? at h
    split at h <;> cases h
    · rw [Opcode.toNat_indexFrom rfl]
      rfl
    · rfl

theorem loadedLocal?_eq_some :
  i.loadedLocal? = some n ↔ ∃ m : UInt16, m.toNat = n ∧ i.transfer? = some (.load .locals m)
  := by
  constructor
  · intro h
    obtain ⟨op, operand⟩ := i
    rw [loadedLocal?] at h
    dsimp only at h
    split at h <;> cases h
    · exact ⟨_, Opcode.toNat_indexFrom rfl, rfl⟩
    · exact ⟨_, rfl, rfl⟩
  · rintro ⟨m, rfl, h⟩
    unfold transfer? at h
    split at h <;> cases h
    · rw [Opcode.toNat_indexFrom rfl]
      rfl
    · rfl

end Instruction

namespace Emitter

theorem storeLocal_eq (e : Emitter) (n : UInt16) :
  ∃ i : Instruction, e.storeLocal n = e.emitWith i.opcode i.operand ∧ i.operand.labels = []
    ∧ i.storedLocal? = some n.toNat
  := by
  have hspells := Instruction.Spells.shortest (.store .locals n)
  refine ⟨_, e.transfer_eq (.store .locals n), hspells.labels, ?_⟩
  exact Instruction.storedLocal?_eq_some.mpr ⟨n, rfl, hspells.transfer⟩

theorem loadLocal_eq (e : Emitter) (n : UInt16) :
  ∃ i : Instruction, e.loadLocal n = e.emitWith i.opcode i.operand ∧ i.operand.labels = []
    ∧ i.loadedLocal? = some n.toNat
  := by
  have hspells := Instruction.Spells.shortest (.load .locals n)
  refine ⟨_, e.transfer_eq (.load .locals n), hspells.labels, ?_⟩
  exact Instruction.loadedLocal?_eq_some.mpr ⟨n, rfl, hspells.transfer⟩

end Emitter

namespace Surroundings

variable {heap : Heap} {f : Frame} {i : Instruction} {n : Nat} {v : Value} {rest : List Value}

theorem execute_store
    (s : Surroundings) (hi : i.storedLocal? = some n) (hstack : f.stack = v :: rest)
    (hn : n < f.locals.length) :
  s.execute heap f i
    = .ok (.proceed { f with stack := rest, locals := f.locals.set n v, ip := f.ip + 1 }, heap)
  := by
  obtain ⟨m, rfl, hm⟩ := Instruction.storedLocal?_eq_some.mp hi
  have hvalues : m.toNat < (Variables.locals.values f).length := hn
  rw [execute_transfer hm, Transfer.perform, hstack]
  dsimp only
  rw [if_pos hvalues]
  rfl

/-- What a store finds, if it does not fail. -/
theorem execute_store_ok
    {s : Surroundings} {r : Request × Heap} (hi : i.storedLocal? = some n)
    (hok : s.execute heap f i = .ok r) :
  (∃ v rest, f.stack = v :: rest) ∧ n < f.locals.length
  := by
  obtain ⟨m, rfl, hm⟩ := Instruction.storedLocal?_eq_some.mp hi
  rw [execute_transfer hm, Transfer.perform] at hok
  split at hok
  · cases hok
  · next v rest hstack =>
    split at hok
    · next hn => exact ⟨⟨v, rest, hstack⟩, hn⟩
    · cases hok

theorem execute_load
    (s : Surroundings) (hi : i.loadedLocal? = some n) (hlocal : f.locals[n]? = some v) :
  s.execute heap f i = (s.push f v).map fun g => (.proceed g, heap)
  := by
  obtain ⟨m, rfl, hm⟩ := Instruction.loadedLocal?_eq_some.mp hi
  have hvalues : (Variables.locals.values f)[m.toNat]? = some v := hlocal
  rw [execute_transfer hm, Transfer.perform, hvalues, push_eq]

end Surroundings

/-! ## The locals of a frame -/

namespace Activation

variable {session : Session} {limit n : Nat} {a b : Activation} {states : List Activation}

/-- What the next instruction of a frame stores into a local. -/
def stored? (n : Nat) (a : Activation) : Option Value :=
  match a.phase, a.frame.body.instructions[a.frame.ip]? with
  | .ready, some i => if i.storedLocal? = some n then a.frame.stack.head? else none
  | _, _ => none

/-- What was stored into a local by the last one of these steps that did. -/
def lastStored (n : Nat) : List Activation → Option Value
  | [] => none
  | a :: states => (lastStored n states).or (a.stored? n)

theorem stored?_of_ready {f : Frame} {i : Instruction} (n : Nat)
    (hi : f.body.instructions[f.ip]? = some i) :
  stored? n ⟨f, .ready⟩ = if i.storedLocal? = some n then f.stack.head? else none
  := by
  rw [stored?]
  dsimp only
  rw [hi]

/-- Steps that store into no local keep all of them. -/
theorem Step.locals_eq
    (hstep : Step session limit a b)
    (hnone : a.phase = .ready →
      ∀ i, a.frame.body.instructions[a.frame.ip]? = some i → i.storedLocal? = none) :
  b.frame.locals = a.frame.locals
  := by
  have ha : a.Holds (fun _ => True) (· = a.frame.locals) :=
    ⟨⟨fun _ _ => trivial, rfl⟩, a.phase.holds_true⟩
  apply (hstep.holds (fun _ => trivial) ha _).frame.locals
  intro hready i hi n ls v hstored
  rw [hnone hready i hi] at hstored
  cases hstored

/-- A step changes a local to what its instruction stores there.  A frame that waits or raises
executes no instruction, so it stores nothing. -/
theorem Step.locals (hstep : Step session limit a b) (n : Nat) :
  b.frame.locals[n]? = a.frame.locals[n]?.map (a.stored? n).getD
  := by
  have hkept (hnone : a.phase = .ready →
        ∀ i, a.frame.body.instructions[a.frame.ip]? = some i → i.storedLocal? = none)
      (hstored : a.stored? n = none) :
      b.frame.locals[n]? = a.frame.locals[n]?.map (a.stored? n).getD := by
    rw [hstep.locals_eq hnone, hstored]
    exact Option.map_id'.symm
  cases hstep with
  | @execute f i heap heap' request b hinstruction hexecute hafter =>
      have hstored := stored?_of_ready n hinstruction
      cases hslot : i.storedLocal? with
      | none =>
          rw [hslot] at hstored
          apply hkept _ hstored
          intro _ i' hi'
          cases hinstruction.symm.trans hi'
          exact hslot
      | some slot =>
          obtain ⟨⟨v, rest, hstack⟩, hlt⟩ := Surroundings.execute_store_ok hslot hexecute
          rw [Surroundings.execute_store _ hslot hstack hlt] at hexecute
          cases hexecute
          cases hafter
          rw [hstored, hslot, hstack]
          change (f.locals.set slot v)[n]? = _
          by_cases hsame : slot = n
          · subst hsame
            rw [List.getElem?_set_self hlt, List.getElem?_eq_getElem hlt, if_pos rfl]
            rfl
          · rw [List.getElem?_set_ne hsame, if_neg (hsame ∘ Option.some.inj)]
            exact Option.map_id'.symm
  | _ => exact hkept nofun rfl

/-- The locals of a frame after a run: each is what was last stored into it. -/
theorem Run.locals (hrun : Run session limit a states b) (n : Nat) :
  b.frame.locals[n]? = a.frame.locals[n]?.map (lastStored n states).getD
  := by
  induction hrun with
  | refl => exact Option.map_id'.symm
  | @step a b c states hstep hrun ih =>
      rw [ih, hstep.locals n, Option.map_map]
      congr 1
      funext v
      rw [lastStored, Option.getD_or]
      rfl

/-- In a method, a slot starts at the default of the type that is declared for it. -/
theorem Run.entered_locals
    {m : RealizedMethod} {body : MethodBody} {args : List Value} {typeArgs : List TypeRef}
    {resume : Resume} {t : TypeRef} (ht : body.locals[n]? = some t)
    (hrun : Run session limit (.enter m body args typeArgs resume) states a) :
  a.frame.locals[n]? = some ((lastStored n states).getD
    (Value.initial (t.substitute m.genericParams typeArgs)).toStack)
  := by
  have hentered : (enter m body args typeArgs resume).frame.locals[n]?
      = some (Value.initial (t.substitute m.genericParams typeArgs)).toStack := by
    change (body.locals.toList.map _)[n]? = _
    rw [List.getElem?_map, Array.getElem?_toList, ht, Option.map_some]
  rw [hrun.locals n, hentered, Option.map_some]

end Activation

/-! ## Slots of a body -/

/-- At a position of a body a value is stored into a slot, whatever the frame has done before. -/
def MethodBody.Stores (body : MethodBody) (ip slot : Nat) : Prop :=
  ∃ i, body.instructions[ip]? = some i ∧ i.storedLocal? = some slot
    ∧ ∀ session limit m args typeArgs resume states f heap v rest,
      Activation.Run session limit (.enter m body args typeArgs resume) states ⟨f, .ready⟩ →
      f.stack = v :: rest →
      Surroundings.execute ⟨session, limit⟩ heap f i
        = .ok (.proceed
          { f with stack := rest, locals := f.locals.set slot v, ip := f.ip + 1 }, heap)

/-- At a position of a body the value is loaded that the frame has last stored into a slot, or the
default of a type before the first store. -/
def MethodBody.Loads (body : MethodBody) (ip slot : Nat) (t : TypeRef) : Prop :=
  ∃ i, body.instructions[ip]? = some i
    ∧ ∀ session limit m args typeArgs resume states f heap v,
      Activation.Run session limit (.enter m body args typeArgs resume) states ⟨f, .ready⟩ →
      (Activation.lastStored slot states).getD
        (Value.initial (t.substitute m.genericParams typeArgs)).toStack = v →
      Surroundings.execute ⟨session, limit⟩ heap f i
        = if f.stack.length < limit then
            .ok (.proceed { f with stack := v :: f.stack, ip := f.ip + 1 }, heap)
          else .error .stackOverflow

namespace MethodBody

variable {body : MethodBody} {i : Instruction} {ip n : Nat} {t : TypeRef}

theorem Stores.of_storedLocal
    (hi : body.instructions[ip]? = some i) (hstored : i.storedLocal? = some n)
    (ht : body.locals[n]? = some t) :
  body.Stores ip n
  := by
  refine ⟨i, hi, hstored, ?_⟩
  intro session limit m args typeArgs resume states f heap v rest hrun hstack
  apply Surroundings.execute_store _ hstored hstack
  exact (List.getElem?_eq_some_iff.mp (hrun.entered_locals ht)).1

theorem Loads.of_loadedLocal
    (hi : body.instructions[ip]? = some i) (hloaded : i.loadedLocal? = some n)
    (ht : body.locals[n]? = some t) :
  body.Loads ip n t
  := by
  refine ⟨i, hi, ?_⟩
  intro session limit m args typeArgs resume states f heap v hrun hv
  have hlocal : f.locals[n]? = some v := hv ▸ hrun.entered_locals ht
  have hinternal : v.Internal := by
    have hframe := hrun.keeps (fun _ _ => (Activation.internal_invariant session limit).step)
      ⟨Frame.internal_enter m body args typeArgs resume, trivial⟩
    exact hframe.frame.locals v (List.mem_of_getElem? hlocal)
  have hstack : v.toStack = v := by
    cases v with
    | bool b => exact absurd rfl (hinternal b)
    | _ => rfl
  rw [Surroundings.execute_load _ hloaded hlocal, Surroundings.push, Frame.push, hstack]
  split <;> rfl

end MethodBody

/-- A local that is declared after `k` others has the slot `k` of the body, which its index stands
for as long as 16 bits hold it.  What is stored through the local and loaded through it is stored
into the slot of its index and loaded from there, and another local has the same index exactly when
the number of locals before it is `k` modulo 2^16. -/
theorem Emitter.slot_of_declares
    {e : Emitter} {k : Nat} {x : LocalVar} {effectOf : Opcode → MethodRef → Option CallEffect}
    {body : MethodBody} (hx : e.Declares k x) (hsealed : (e.sealBodyWith effectOf).1 = .ok body) :
  body.locals[k]? = some x.type
    ∧ (x.index.toNat = k ↔ k < 2 ^ 16)
    ∧ (∀ j y, e.Declares j y → (y.index = x.index ↔ j % 2 ^ 16 = k % 2 ^ 16))
    ∧ (∀ e₁ : Emitter, (e₁.storeLocal x.index).Steps e → body.Stores e₁.position (k % 2 ^ 16))
    ∧ ∃ t, body.locals[k % 2 ^ 16]? = some t ∧ (k < 2 ^ 16 → t = x.type)
      ∧ ∀ e₁ : Emitter, (e₁.loadLocal x.index).Steps e → body.Loads e₁.position (k % 2 ^ 16) t
  := by
  have hindex := hx.index_eq
  obtain ⟨hopen, -, _, -, hbody⟩ := sealBodyWith_ok hsealed
  have htype : body.locals[k]? = some x.type := by
    rw [hbody]
    exact hx.type_eq hopen
  obtain ⟨hk, -⟩ := Array.getElem?_eq_some_iff.mp htype
  obtain ⟨t, ht⟩ : ∃ t, body.locals[k % 2 ^ 16]? = some t :=
    ⟨_, Array.getElem?_eq_getElem (Nat.lt_of_le_of_lt (Nat.mod_le k _) hk)⟩
  refine ⟨htype, ?_, fun j y hy => hx.index_eq_iff hy, ?_, t, ht, ?_, ?_⟩
  · rw [hindex, Nat.mod_eq_iff_lt (by decide)]
  · intro e₁ hsteps
    obtain ⟨i, heq, hlabels, hstored⟩ := e₁.storeLocal_eq x.index
    rw [heq] at hsteps
    rw [hindex] at hstored
    exact .of_storedLocal (getElem?_of_emitWith hsteps hlabels hsealed) hstored ht
  · intro hlt
    rw [Nat.mod_eq_of_lt hlt, htype] at ht
    exact (Option.some.inj ht).symm
  · intro e₁ hsteps
    obtain ⟨i, heq, hlabels, hloaded⟩ := e₁.loadLocal_eq x.index
    rw [heq] at hsteps
    rw [hindex] at hloaded
    exact .of_loadedLocal (getElem?_of_emitWith hsteps hlabels hsealed) hloaded ht

/-! ## A crowded body -/

namespace Emitter

/-- A method with a number of integers as its locals. -/
def crowded (n : Nat) : Emitter :=
  run { method := "M", returnsValue := true } (List.replicate n (.declareLocal (.primitive .i32)))

/-- Code that stores -1 into a slot and loads it from there. -/
def passing (n : Nat) : Emitter :=
  ((((crowded n).loadI32 (-1)).storeLocal 0).loadLocal 0).emit .ret

/-- The body of this code. -/
def passingBody (n : Nat) : MethodBody :=
  { instructions := #[⟨.ldcI4MinusOne, .none⟩, ⟨.firstStloc, .none⟩,
      ⟨.firstLdloc, .none⟩, ⟨.ret, .none⟩]
    labels := #[]
    locals := Array.replicate n (.primitive .i32)
    regions := []
    maxStack := 1 }

theorem crowded_succ (n : Nat) :
  crowded (n + 1) = ((crowded n).declareLocal (.primitive .i32)).2
  := by
  rw [crowded, List.replicate_succ', run_append]
  rfl

theorem crowded_eq (n : Nat) :
  crowded n
    = { method := "M", returnsValue := true, locals := Array.replicate n (.primitive .i32) }
  := by
  induction n with
  | zero => rfl
  | succ n ih =>
      rw [crowded_succ, ih, Array.replicate_succ]
      rfl

theorem passing_eq (n : Nat) :
  passing n
    = { method := "M"
        returnsValue := true
        instructions := (passingBody n).instructions
        locals := (passingBody n).locals }
  := by
  rw [passing, passingBody, crowded_eq]
  generalize Array.replicate n (TypeRef.primitive .i32) = locals
  rfl

theorem sealBody_passing (n : Nat) : (passing n).sealBody.1 = .ok (passingBody n) := by
  rw [passing_eq]
  exact sealBodyWith_of_relax_eq rfl rfl rfl rfl

theorem steps_crowded (k later : Nat) : (crowded k).Steps (crowded (k + later)) := by
  induction later with
  | zero => exact .refl
  | succ later ih =>
      rw [← Nat.add_assoc, crowded_succ]
      exact .tail ih (.declareLocal _ _)

theorem declares_passing (k later : Nat) :
  (passing (k + 1 + later)).Declares k ⟨UInt16.ofNat k, .primitive .i32⟩
  := by
  have hsize : (crowded k).locals.size = k := by
    rw [crowded_eq]
    exact Array.size_replicate
  have hcode : (crowded (k + 1 + later)).Steps (passing (k + 1 + later)) :=
    Steps.run _ [.loadI32 (-1), .storeLocal 0, .loadLocal 0, .emitWith .ret .none]
  refine ⟨crowded k, crowded (k + 1), hsize, ?_, (steps_crowded (k + 1) later).trans hcode⟩
  rw [crowded_succ, declareLocal, hsize]

/-- The store in this code, and the load, are those of the first local. -/
theorem passing_code (n : Nat) :
  (((crowded n).loadI32 (-1)).storeLocal 0).Steps (passing n)
    ∧ ((((crowded n).loadI32 (-1)).storeLocal 0).loadLocal 0).Steps (passing n)
    ∧ ((crowded n).loadI32 (-1)).position = 1
    ∧ (((crowded n).loadI32 (-1)).storeLocal 0).position = 2
  := by
  refine ⟨Steps.run _ [.loadLocal 0, .emitWith .ret .none], Steps.run _ [.emitWith .ret .none], ?_⟩
  rw [crowded_eq]
  exact ⟨rfl, rfl⟩

/-- The first of two locals is stored into and loaded from its own slot, and the second has another
index. -/
theorem slot_of_first :
  (passing 2).Declares 0 ⟨0, .primitive .i32⟩ ∧ (passing 2).Declares 1 ⟨1, .primitive .i32⟩
    ∧ (passing 2).sealBody.1 = .ok (passingBody 2)
    ∧ (passingBody 2).Stores 1 0 ∧ (passingBody 2).Loads 2 0 (.primitive .i32)
    ∧ (1 : UInt16) ≠ 0
  := by
  have hx : (passing 2).Declares 0 ⟨0, .primitive .i32⟩ := declares_passing 0 1
  have hy : (passing 2).Declares 1 ⟨1, .primitive .i32⟩ := declares_passing 1 0
  have hsealed := sealBody_passing 2
  obtain ⟨hstore, hload, hstorePosition, hloadPosition⟩ := passing_code 2
  obtain ⟨-, -, hindex, hstores, t, -, htype, hloads⟩ := slot_of_declares hx hsealed
  have hstored := hstores _ hstore
  rw [hstorePosition] at hstored
  have hloaded := hloads _ hload
  rw [hloadPosition, htype (by decide)] at hloaded
  refine ⟨hx, hy, hsealed, hstored, hloaded, ?_⟩
  exact fun h => absurd ((hindex 1 _ hy).mp h) (by decide)

/-- The last of 2^16 + 1 locals does not have a slot to itself: what is stored through it is then
found in the first one. -/
theorem not_apart :
  ¬ ∀ (e : Emitter) (body : MethodBody) (j k : Nat) (x y : LocalVar),
      e.sealBody.1 = .ok body → e.Declares k x → e.Declares j y → j ≠ k →
      ∀ e₁ : Emitter, (e₁.storeLocal y.index).Steps e →
      ∀ session limit m args typeArgs resume states f b,
        Activation.Run session limit (.enter m body args typeArgs resume) states ⟨f, .ready⟩ →
        f.ip = e₁.position → Activation.Step session limit ⟨f, .ready⟩ b →
        b.frame.localAt x.index.toNat = f.localAt x.index.toNat
  := by
  intro h
  obtain ⟨n, hn⟩ : ∃ n, n + 1 = 2 ^ 16 := ⟨65535, rfl⟩
  let start : Frame := .enter default (passingBody (n + 2)) [] [] .pushResult
  let f : Frame := { start with stack := [.i32 (-1)], ip := 1 }
  have hlocals : start.locals = .replicate (n + 2) (.i32 0) := by
    dsimp only [start, Frame.enter, passingBody]
    rw [Array.toList_replicate, List.map_replicate]
    rfl
  have hbefore : f.locals[0]? = some (.i32 0) := by
    change start.locals[0]? = _
    rw [hlocals]
    rfl
  have hlt : 0 < f.locals.length := (List.getElem?_eq_some_iff.mp hbefore).1
  have hindex : UInt16.ofNat (n + 1) = 0 := by
    rw [hn]
    rfl
  have hx := declares_passing 0 (n + 1)
  have hy := declares_passing (n + 1) 0
  rw [Nat.zero_add, Nat.add_comm 1] at hx
  rw [hindex] at hy
  obtain ⟨hstore, -, hposition, -⟩ := passing_code (n + 2)
  have hrun : Activation.Run {} 1 ⟨start, .ready⟩ [⟨start, .ready⟩] ⟨f, .ready⟩ :=
    .next ⟨.ldcI4MinusOne, .none⟩ default rfl rfl rfl .refl
  let g : Frame := { f with stack := [], locals := f.locals.set 0 (.i32 (-1)), ip := 2 }
  have hexecute : Surroundings.execute ⟨{}, 1⟩ default f ⟨.firstStloc, .none⟩
      = .ok (.proceed g, default) := Surroundings.execute_store _ rfl rfl hlt
  have hsame := h _ _ (n + 1) 0 _ _ (sealBody_passing (n + 2)) hx hy (Nat.succ_ne_zero n) _ hstore
    _ _ _ _ _ _ _ _ _ hrun hposition.symm (.execute rfl hexecute rfl)
  have hfound : g.localAt 0 = .ok (.i32 (-1)) := by
    rw [Frame.localAt, List.getElem?_set_self hlt]
  have hstart : f.localAt 0 = .ok (.i32 0) := by rw [Frame.localAt, hbefore]
  cases hfound.symm.trans (hsame.trans hstart)

end Emitter

end ManagedCode
