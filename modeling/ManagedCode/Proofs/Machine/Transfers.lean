import ManagedCode.Proofs.Machine.EmittedConversions
import ManagedCode.Proofs.Machine.Recoding

/-!
# Constants and variables in short and in long form

A transfer puts an integer on the stack of a frame, or moves a value between the stack and a
variable of the frame.  It has a long form, whose operand holds any integer or index, and shorter
ones for small operands: an operand of one byte, or an opcode that implies the operand by its place
in a block of opcodes (`Opcode.indexed`).

Every form is read back as the transfer that it is a form of (`Instruction.transfer?`), and an
instruction does what its transfer does (`Surroundings.execute_transfer`).  The emitter may
therefore choose the shortest form, and a program runs as it would with the long forms
(`Emitter.transfers_in_shortest_form`).
-/

namespace ManagedCode

/-! ## Blocks of opcodes -/

namespace Opcode

/-- The list has every opcode. -/
theorem mem_all (op : Opcode) : op ∈ all := by
  cases op with
  | ldcI4Implied n | ldargImplied n | ldlocImplied n | stlocImplied n => revert n; decide
  | ldcI4 w | ldarg w | starg w | ldloc w | stloc w | leave w => cases w <;> decide
  | binary op | shift op | compare op | convOvf op => cases op <;> decide
  | conv t =>
      cases t with
      | int t => cases t <;> decide
      | _ => decide
  | branch test w =>
      cases test with
      | compare c =>
          cases c with
          | ordered r | unordered r => cases r <;> cases w <;> decide
          | _ => cases w <;> decide
      | _ => cases w <;> decide
  | _ => decide

/-- No two opcodes have the same byte. -/
theorem ofByte?_byte (op : Opcode) : ofByte? op.byte = some op := by
  have hall : ∀ op ∈ all, ofByte? op.byte = some op := by decide +kernel
  exact hall op op.mem_all

/-- The opcode that stands a number of places behind the first of a block. -/
def indexed (first : Opcode) (n : Nat) : Opcode :=
  (ofByte? (first.byte + n)).getD first

/-- How many places an opcode stands behind the first of its block. -/
def indexFrom (first op : Opcode) : Nat :=
  op.byte - first.byte

variable {first op : Opcode} {n : Nat}

/-- An opcode so many bytes further is the indexed one. -/
theorem indexed_eq (h : op.byte = first.byte + n) : first.indexed n = op := by
  rw [indexed, ← h, ofByte?_byte, Option.getD_some]

/-- Its index is the distance. -/
theorem indexFrom_eq (h : op.byte = first.byte + n) : first.indexFrom op = n := by
  rw [indexFrom, h, Nat.add_sub_cancel_left]

/-- Its index fits an operand. -/
theorem toNat_indexFrom {n : Fin 4} (h : op.byte = first.byte + n) :
  (UInt16.ofNat (first.indexFrom op)).toNat = n
  := by
  rw [indexFrom_eq h, UInt16.toNat_ofNat', Nat.mod_eq_of_lt (by omega)]

/-- The opcodes of small constants follow that of zero. -/
theorem indexed_ldcI4 (n : Fin 9) : firstLdcI4.indexed n = .ldcI4Implied n :=
  indexed_eq rfl

/-- The opcodes that store into the first locals follow that of the first one. -/
theorem indexed_stloc (n : Fin 4) : firstStloc.indexed n = .stlocImplied n :=
  indexed_eq rfl

end Opcode

/-! ## Variables -/

/-- The two lists of variables that a frame has. -/
inductive Variables where
  | args | locals
deriving DecidableEq, Repr, Inhabited

namespace Variables

/-- The variables of a frame. -/
def values (f : Frame) : Variables → List Value
  | args => f.args
  | locals => f.locals

/-- A frame with other values in its variables. -/
def replace (f : Frame) (vs : List Value) : Variables → Frame
  | args => { f with args := vs }
  | locals => { f with locals := vs }

/-- What faults call one of the variables. -/
def noun : Variables → String
  | args => "argument"
  | locals => "local"

/-- What the machine reads from one of the variables. -/
def get (f : Frame) (n : Nat) : Variables → Except Fault Value
  | args => f.argAt n
  | locals => f.localAt n

/-- What the machine makes of a frame when it writes to one of the variables. -/
def put (f : Frame) (n : Nat) (v : Value) : Variables → Except Fault Frame
  | args => f.setArg n v
  | locals => f.setLocal n v

/-- Replacing the ones leaves the others. -/
theorem values_replace (f : Frame) (vs : List Value) (xs ys : Variables) :
  xs.values (ys.replace f vs) = if ys = xs then vs else xs.values f
  := by
  cases xs <;> cases ys <;> rfl

/-- A variable is read, or its index is out of range. -/
theorem get_eq (f : Frame) (n : Nat) (xs : Variables) :
  xs.get f n
    = match (xs.values f)[n]? with
      | some v => .ok v
      | none => .error (f.outOfRange xs.noun n)
  := by
  cases xs <;> rfl

/-- A variable is written and the others stay, or its index is out of range. -/
theorem put_eq (f : Frame) (n : Nat) (v : Value) (xs : Variables) :
  xs.put f n v
    = if n < (xs.values f).length then .ok (xs.replace f ((xs.values f).set n v))
      else .error (f.outOfRange xs.noun n)
  := by
  cases xs <;> rfl

/-- The operand that names a variable. -/
def operand (i : UInt16) : Variables → Operand
  | args => .arg i
  | locals => .localSlot i

/-- The opcode that loads a variable that its operand names. -/
def loading (w : Width) : Variables → Opcode
  | args => .ldarg w
  | locals => .ldloc w

/-- The opcode that loads one of the first variables. -/
def loadingImplied (n : Fin 4) : Variables → Opcode
  | args => .ldargImplied n
  | locals => .ldlocImplied n

/-- The opcode that loads the first variable. -/
def firstLoading : Variables → Opcode
  | args => .firstLdarg
  | locals => .firstLdloc

/-- The opcode that stores into a variable that its operand names. -/
def storing (w : Width) : Variables → Opcode
  | args => .starg w
  | locals => .stloc w

/-- The opcodes of the first variables follow that of the first one. -/
theorem indexed_loading (xs : Variables) (n : Fin 4) :
  xs.firstLoading.indexed n = xs.loadingImplied n
  := by
  cases xs <;> exact Opcode.indexed_eq rfl

end Variables

/-! ## Transfers -/

/-- What puts an integer or a variable on the stack, or takes the top of the stack to a variable. -/
inductive Transfer where
  | constant (v : Int32)
  | load (xs : Variables) (i : UInt16)
  | store (xs : Variables) (i : UInt16)
deriving DecidableEq, Repr, Inhabited

namespace Transfer

/-- A frame that has pushed a value. -/
def pushing (limit : Nat) (f : Frame) (v : Value) : Except Fault Frame :=
  if f.stack.length < limit then .ok { f with stack := v.toStack :: f.stack, ip := f.ip + 1 }
  else .error .stackOverflow

/-- What a transfer makes of a frame whose stack may hold `limit` values. -/
def perform (limit : Nat) (f : Frame) : Transfer → Except Fault Frame
  | constant v => pushing limit f (.i32 v)
  | load xs i =>
    match (xs.values f)[i.toNat]? with
    | some v => pushing limit f v
    | none => .error (f.outOfRange xs.noun i.toNat)
  | store xs i =>
    match f.stack with
    | [] => .error .stackUnderflow
    | v :: rest =>
      if i.toNat < (xs.values f).length then
        .ok (xs.replace { f with stack := rest, ip := f.ip + 1 } ((xs.values f).set i.toNat v))
      else .error (f.outOfRange xs.noun i.toNat)

/-- The variable that a transfer writes to. -/
def target? : Transfer → Option (Variables × Nat)
  | store xs i => some (xs, i.toNat)
  | _ => none

variable {a : Transfer} {limit : Nat} {f g : Frame} {v : Value}

/-- A push leaves the variables as they are. -/
theorem values_of_pushing (hok : pushing limit f v = .ok g) (xs : Variables) :
  xs.values g = xs.values f
  := by
  rw [pushing] at hok
  split at hok
  · cases hok
    cases xs <;> rfl
  · cases hok

/-- A transfer writes the top of the stack to its variable, and nothing to any other. -/
theorem values_of_perform (hok : a.perform limit f = .ok g) (xs : Variables) (n : Nat) :
  (xs.values g)[n]?
    = if a.target? = some (xs, n) then f.stack.head? else (xs.values f)[n]?
  := by
  cases a with
  | constant v => exact congrArg (·[n]?) (values_of_pushing hok xs)
  | load ys i =>
      rw [perform] at hok
      split at hok
      · exact congrArg (·[n]?) (values_of_pushing hok xs)
      · cases hok
  | store ys i =>
      rw [perform] at hok
      split at hok
      · cases hok
      split at hok
      · next v rest hstack hi =>
        cases hok
        rw [Variables.values_replace, hstack]
        change _ = if some (ys, i.toNat) = some (xs, n) then some v else (xs.values f)[n]?
        by_cases hxs : ys = xs
        · subst hxs
          rw [if_pos rfl, List.getElem?_set]
          by_cases hn : i.toNat = n
          · rw [if_pos hn, if_pos hi, if_pos (hn ▸ rfl)]
          · rw [if_neg hn, if_neg fun h => hn (Prod.mk.inj (Option.some.inj h)).2]
        · rw [if_neg hxs, if_neg fun h => hxs (Prod.mk.inj (Option.some.inj h)).1]
          cases xs <;> rfl
      · cases hok

end Transfer

/-! ## Forms -/

/-- The transfer that an instruction is a form of. -/
def Instruction.transfer? : Instruction → Option Transfer
  | ⟨.ldcI4MinusOne, _⟩ => some (.constant (-1))
  | ⟨.ldcI4Implied n, _⟩ =>
    some (.constant (.ofNat (Opcode.firstLdcI4.indexFrom (.ldcI4Implied n))))
  | ⟨.ldcI4 _, .i32 v⟩ => some (.constant v)
  | ⟨.ldargImplied n, _⟩ =>
    some (.load .args (.ofNat (Opcode.firstLdarg.indexFrom (.ldargImplied n))))
  | ⟨.ldarg _, .arg i⟩ => some (.load .args i)
  | ⟨.starg _, .arg i⟩ => some (.store .args i)
  | ⟨.ldlocImplied n, _⟩ =>
    some (.load .locals (.ofNat (Opcode.firstLdloc.indexFrom (.ldlocImplied n))))
  | ⟨.ldloc _, .localSlot i⟩ => some (.load .locals i)
  | ⟨.stlocImplied n, _⟩ =>
    some (.store .locals (.ofNat (Opcode.firstStloc.indexFrom (.stlocImplied n))))
  | ⟨.stloc _, .localSlot i⟩ => some (.store .locals i)
  | _ => none

/-- The width of an operand that holds an index. -/
def Width.ofIndex (i : UInt16) : Width :=
  if i ≤ 255 then .short else .long

/-- An index in the short form fits a byte. -/
theorem Width.le_of_ofIndex {i : UInt16} (h : ofIndex i = .short) : i ≤ 255 := by
  rw [ofIndex] at h
  split at h
  · assumption
  · cases h

namespace Transfer

/-- The form with an operand that holds every integer or index. -/
def long : Transfer → Instruction
  | constant v => ⟨.ldcI4 .long, .i32 v⟩
  | load xs i => ⟨xs.loading .long, xs.operand i⟩
  | store xs i => ⟨xs.storing .long, xs.operand i⟩

/-- The shortest form.  Only a store to an argument always has an operand. -/
def shortest : Transfer → Instruction
  | constant v =>
    if v = -1 then ⟨.ldcI4MinusOne, .none⟩
    else if 0 ≤ v.toInt ∧ v.toInt ≤ 8 then ⟨Opcode.firstLdcI4.indexed v.toInt.toNat, .none⟩
    else if -128 ≤ v ∧ v ≤ 127 then ⟨.ldcI4 .short, .i32 v⟩
    else ⟨.ldcI4 .long, .i32 v⟩
  | load xs i =>
    if i.toNat < 4 then ⟨xs.firstLoading.indexed i.toNat, .none⟩
    else ⟨xs.loading (.ofIndex i), xs.operand i⟩
  | store .args i => ⟨.starg (.ofIndex i), .arg i⟩
  | store .locals i =>
    if i.toNat < 4 then ⟨Opcode.firstStloc.indexed i.toNat, .none⟩
    else ⟨.stloc (.ofIndex i), .localSlot i⟩

end Transfer

/-- An instruction is a form of a transfer, with an operand of the kind that its opcode expects. -/
structure Instruction.Spells (i : Instruction) (a : Transfer) : Prop where
  transfer : i.transfer? = some a
  fits : i.operand.fits i.opcode.operandKind = true
  labels : i.operand.labels = []

namespace Instruction.Spells

/-- The opcodes of small constants load them. -/
theorem ldcI4Implied (n : Fin 9) : Spells ⟨.ldcI4Implied n, .none⟩ (.constant (.ofNat n)) := by
  refine ⟨?_, rfl, rfl⟩
  rw [transfer?, Opcode.indexFrom_eq (n := n) rfl]

/-- A constant is loaded from the operand, if the form has room for it. -/
theorem ldcI4 {w : Width} {v : Int32} (hw : w = .short → -128 ≤ v ∧ v ≤ 127) :
  Spells ⟨.ldcI4 w, .i32 v⟩ (.constant v)
  := by
  cases w with
  | short => exact ⟨rfl, decide_eq_true (hw rfl), rfl⟩
  | long => exact ⟨rfl, rfl, rfl⟩

/-- The opcodes of the first variables load them. -/
theorem loadingImplied (xs : Variables) (n : Fin 4) :
  Spells ⟨xs.loadingImplied n, .none⟩ (.load xs (.ofNat n))
  := by
  cases xs with
  | args | locals =>
      refine ⟨?_, rfl, rfl⟩
      rw [Variables.loadingImplied, transfer?, Opcode.indexFrom_eq (n := n) rfl]

/-- A variable is loaded by its index, if the form has room for it. -/
theorem loading {w : Width} {i : UInt16} (xs : Variables) (hw : w = .short → i ≤ 255) :
  Spells ⟨xs.loading w, xs.operand i⟩ (.load xs i)
  := by
  cases w with
  | short => cases xs <;> exact ⟨rfl, decide_eq_true (hw rfl), rfl⟩
  | long => cases xs <;> exact ⟨rfl, rfl, rfl⟩

/-- The opcodes of the first locals store into them. -/
theorem stlocImplied (n : Fin 4) :
  Spells ⟨.stlocImplied n, .none⟩ (.store .locals (.ofNat n))
  := by
  refine ⟨?_, rfl, rfl⟩
  rw [transfer?, Opcode.indexFrom_eq (n := n) rfl]

/-- A variable is stored into by its index, if the form has room for it. -/
theorem storing {w : Width} {i : UInt16} (xs : Variables) (hw : w = .short → i ≤ 255) :
  Spells ⟨xs.storing w, xs.operand i⟩ (.store xs i)
  := by
  cases w with
  | short => cases xs <;> exact ⟨rfl, decide_eq_true (hw rfl), rfl⟩
  | long => cases xs <;> exact ⟨rfl, rfl, rfl⟩

theorem long (a : Transfer) : a.long.Spells a := by
  cases a with
  | constant v => exact ldcI4 nofun
  | load xs i => exact loading xs nofun
  | store xs i => exact storing xs nofun

theorem shortest (a : Transfer) : a.shortest.Spells a := by
  cases a with
  | constant v =>
      rw [Transfer.shortest]
      split
      · next hminus =>
        rw [hminus]
        exact ⟨rfl, rfl, rfl⟩
      split
      · next himplied =>
        have hv : Int32.ofNat v.toInt.toNat = v := by
          apply Int32.toInt_inj.mp
          rw [Int32.toInt_ofNat_of_lt (by omega)]
          omega
        have h := ldcI4Implied ⟨v.toInt.toNat, by omega⟩
        rwa [← Opcode.indexed_ldcI4, hv] at h
      split
      · next hshort => exact ldcI4 fun _ => hshort
      · exact long (.constant v)
  | load xs i =>
      rw [Transfer.shortest]
      split
      · next himplied =>
        have h := loadingImplied xs ⟨i.toNat, himplied⟩
        rwa [← xs.indexed_loading, UInt16.ofNat_toNat] at h
      · exact loading xs Width.le_of_ofIndex
  | store xs i =>
      cases xs with
      | args => exact storing .args Width.le_of_ofIndex
      | locals =>
          rw [Transfer.shortest]
          split
          · next himplied =>
            have h := stlocImplied ⟨i.toNat, himplied⟩
            rwa [← Opcode.indexed_stloc, UInt16.ofNat_toNat] at h
          · exact storing .locals Width.le_of_ofIndex

end Instruction.Spells

/-- The instruction, in its long form if it makes a transfer. -/
def Instruction.inFull (i : Instruction) : Instruction :=
  match i.transfer? with
  | some a => a.long
  | none => i

/-- All forms of a transfer have one long form. -/
theorem Instruction.Spells.inFull_eq {i : Instruction} {a : Transfer} (h : i.Spells a) :
  i.inFull = a.long
  := by
  rw [inFull, h.transfer]

/-! ## Execution -/

namespace Surroundings

/-- A push goes on to the next instruction. -/
theorem push_eq (s : Surroundings) (f : Frame) (v : Value) :
  s.push f v = Transfer.pushing s.stackLimit f v
  := by
  rw [push, Frame.push, Transfer.pushing]
  split <;> rfl

/-- Reading a variable and pushing it is a load. -/
theorem get_push_eq (s : Surroundings) (f : Frame) (xs : Variables) (i : UInt16) :
  xs.get f i.toNat >>= s.push f = (Transfer.load xs i).perform s.stackLimit f
  := by
  rw [Variables.get_eq, Transfer.perform]
  cases (xs.values f)[i.toNat]? with
  | none => rfl
  | some v => exact s.push_eq f v

/-- Storing the top of the stack into a variable is a store. -/
theorem store_put_eq (limit : Nat) (f : Frame) (xs : Variables) (i : UInt16) :
  store f (fun g v => xs.put g i.toNat v) = (Transfer.store xs i).perform limit f
  := by
  rw [store, Frame.pop, Transfer.perform]
  cases f.stack with
  | nil => rfl
  | cons v rest =>
      have hvalues : xs.values { f with stack := rest } = xs.values f := by cases xs <;> rfl
      dsimp only [bind, Except.bind]
      rw [Variables.put_eq, hvalues]
      by_cases hi : i.toNat < (xs.values f).length
      · rw [if_pos hi, if_pos hi]
        cases xs <;> rfl
      · rw [if_neg hi, if_neg hi]
        rfl

/-- An instruction does what its transfer does, whatever its form. -/
theorem execute_transfer
    {i : Instruction} {a : Transfer} (hi : i.transfer? = some a) (s : Surroundings) (heap : Heap)
    (f : Frame) :
  s.execute heap f i = (a.perform s.stackLimit f).map fun g => (.proceed g, heap)
  := by
  unfold Instruction.transfer? at hi
  split at hi <;> cases hi
  case h_1 | h_3 => exact congrArg (Except.map _) (s.push_eq f _)
  case h_2 n _ =>
    rw [Opcode.indexFrom_eq (n := n) rfl]
    exact congrArg (Except.map _) (s.push_eq f _)
  case h_4 n _ | h_7 n _ =>
    rw [← get_push_eq, Opcode.toNat_indexFrom (n := n) rfl]
    rfl
  case h_5 | h_8 =>
    rw [← get_push_eq]
    rfl
  case h_9 n _ =>
    rw [← store_put_eq, Opcode.toNat_indexFrom (n := n) rfl]
    rfl
  case h_6 | h_10 =>
    rw [← store_put_eq]
    rfl

/-- An instruction does what its long form does. -/
theorem execute_inFull (s : Surroundings) (heap : Heap) (f : Frame) (i : Instruction) :
  s.execute heap f i.inFull = s.execute heap f i
  := by
  rw [Instruction.inFull]
  cases hi : i.transfer? with
  | none => rfl
  | some a => rw [execute_transfer (Instruction.Spells.long a).transfer, execute_transfer hi]

end Surroundings

/-! ## Programs -/

/-- The code of a body, with every transfer in its long form. -/
def MethodBody.inFull (body : MethodBody) : Array Instruction :=
  body.instructions.map Instruction.inFull

namespace Execution

/-- A step of a program is one of the program in long forms.  The form of the instruction may be
changed first, and the program around it afterwards. -/
theorem step_inFull (session : Session) (e : Execution) :
  (e.recode MethodBody.inFull).step (session.recode MethodBody.inFull)
    = (e.step session).recode MethodBody.inFull
  := by
  obtain ⟨machine, heap, frames⟩ := e
  cases frames with
  | nil => rfl
  | cons f callers =>
      have hframes : (Execution.mk machine heap (f :: callers)).recode MethodBody.inFull
          = { machine, heap, frames := f.recode MethodBody.inFull
                :: callers.map (·.recode MethodBody.inFull) } := rfl
      have hfetch : (f.recode MethodBody.inFull).body.instructions[(f.recode MethodBody.inFull).ip]?
          = f.body.instructions[f.ip]?.map Instruction.inFull := Array.getElem?_map
      rw [hframes, step, step]
      dsimp only
      rw [hfetch]
      cases f.body.instructions[f.ip]? with
      | none => rfl
      | some i =>
          dsimp only [Option.map_some]
          rcases machine.tick with ⟨error | ⟨⟩, machine⟩
          · rfl
          · let s : Surroundings := ⟨session, machine.limits.maxStackDepth⟩
            have hexecute : Surroundings.execute
                ⟨session.recode MethodBody.inFull, machine.limits.maxStackDepth⟩ heap
                (f.recode MethodBody.inFull) i
              = Prod.map (Request.recode MethodBody.inFull) id <$> s.execute heap f i :=
              s.execute_recode heap f i
            dsimp only
            rw [Surroundings.execute_inFull, hexecute]
            cases s.execute heap f i with
            | error error => rfl
            | ok answer =>
                exact serve_recode session { machine, heap := answer.2, frames := f :: callers }
                  callers answer.1

/-- So is a run. -/
theorem run_inFull (session : Session) (e : Execution) (fuel : Nat) :
  (e.recode MethodBody.inFull).run (session.recode MethodBody.inFull) fuel
    = (e.run session fuel).recode MethodBody.inFull
  := by
  induction fuel generalizing e with
  | zero => rfl
  | succ fuel ih =>
      rw [run, run, step_inFull]
      cases e.step session with
      | running e' => exact ih e'
      | finished machine heap result => rfl

end Execution

/-! ## Emission -/

namespace Emitter

variable {e : Emitter}

/-- Emits a transfer. -/
def transfer (e : Emitter) : Transfer → Emitter
  | .constant v => e.loadI32 v
  | .load .args i => e.loadArg i
  | .load .locals i => e.loadLocal i
  | .store .args i => e.storeArg i
  | .store .locals i => e.storeLocal i

/-- The emitter pushes the shortest form. -/
theorem transfer_eq (e : Emitter) (a : Transfer) :
  e.transfer a = e.emitWith a.shortest.opcode a.shortest.operand
  := by
  cases a with
  | constant v =>
      rw [transfer, loadI32, Transfer.shortest]
      split
      · rfl
      split
      · next himplied =>
        rw [Opcode.indexed_ldcI4 ⟨v.toInt.toNat, by omega⟩]
        rfl
      split <;> rfl
  | load xs i =>
      have himplied (h : i.toNat < 4) := xs.indexed_loading ⟨i.toNat, h⟩
      rw [Transfer.shortest, Width.ofIndex]
      cases xs with
      | args =>
          rw [transfer, loadArg]
          split
          · next h => rw [himplied h]; rfl
          split <;> rfl
      | locals =>
          rw [transfer, loadLocal]
          split
          · next h => rw [himplied h]; rfl
          split <;> rfl
  | store xs i =>
      cases xs with
      | args =>
          rw [transfer, storeArg, Transfer.shortest, Width.ofIndex]
          split <;> rfl
      | locals =>
          rw [transfer, storeLocal, Transfer.shortest, Width.ofIndex]
          split
          · next h => rw [Opcode.indexed_stloc ⟨i.toNat, h⟩]; rfl
          split <;> rfl

/-- An instruction without a fault is all that is added. -/
theorem emitWith_of_fits
    (hfinished : e.finished = false) {op : Opcode} {operand : Operand}
    (hfits : operand.fits op.operandKind = true) (hlabels : operand.labels = []) :
  e.emitWith op operand = { e with instructions := e.instructions.push ⟨op, operand⟩ }
  := by
  have hfaults : e.faults op operand = [] := by
    rw [faults, if_pos hfits, hlabels]
    rfl
  rw [emitWith, hfinished, hfaults, List.append_nil]
  rfl

/-- An emitter that is not sealed adds one instruction for a transfer, which fits its opcode and
stands in every body that is sealed later.  In every frame the instruction does what the long form
does: it puts the integer on the stack, or reads or writes the variable and no other one.  A program
runs as it would with the long form of every transfer. -/
theorem transfers_in_shortest_form (hfinished : e.finished = false) (a : Transfer) :
  e.transfer a = { e with instructions := e.instructions.push a.shortest }
  ∧ e.Appends [a.shortest] (e.transfer a)
  ∧ a.shortest.operand.fits a.shortest.opcode.operandKind = true
  ∧ (∀ (s : Surroundings) (heap : Heap) (f : Frame),
    s.execute heap f a.shortest = s.execute heap f a.long
    ∧ s.execute heap f a.long = (a.perform s.stackLimit f).map fun g => (.proceed g, heap))
  ∧ (∀ limit f g, a.perform limit f = .ok g → ∀ (xs : Variables) (n : Nat),
    (xs.values g)[n]? = if a.target? = some (xs, n) then f.stack.head? else (xs.values f)[n]?)
  ∧ a.shortest.inFull = a.long
  ∧ ∀ (session : Session) (x : Execution) (fuel : Nat),
    (x.recode MethodBody.inFull).run (session.recode MethodBody.inFull) fuel
      = (x.run session fuel).recode MethodBody.inFull
  := by
  have hspells := Instruction.Spells.shortest a
  have hlong := Instruction.Spells.long a
  refine ⟨?_, ?_, hspells.fits, fun s heap f => ⟨?_, ?_⟩, ?_, hspells.inFull_eq, ?_⟩
  · rw [transfer_eq]
    exact emitWith_of_fits hfinished hspells.fits hspells.labels
  · rw [transfer_eq]
    exact (Appends.nil e).emitWith hfinished (fun _ hi => absurd hi List.not_mem_nil) hspells.fits
      hspells.labels
  · rw [← hspells.inFull_eq, s.execute_inFull]
  · exact Surroundings.execute_transfer hlong.transfer s heap f
  · exact fun limit f g hok xs n => Transfer.values_of_perform hok xs n
  · exact fun session x fuel => x.run_inFull session fuel

/-- A frame about to store a value into one of its five locals. -/
def fiveLocals : Frame :=
  { (default : Frame) with
    locals := [.i32 0, .i32 1, .i32 2, .i32 3, .i32 4]
    stack := [.i32 7] }

/-- The last local that an opcode implies. -/
theorem fiveLocals_store_three :
  ({ method := "M" } : Emitter).finished = false
  ∧ ({ method := "M" } : Emitter).storeLocal 3
    = { method := "M", instructions := #[⟨.stlocImplied 3, .none⟩] }
  ∧ Surroundings.execute ⟨default, 1⟩ {} fiveLocals ⟨.stlocImplied 3, .none⟩
    = Surroundings.execute ⟨default, 1⟩ {} fiveLocals ⟨.stloc .long, .localSlot 3⟩
  ∧ Surroundings.execute ⟨default, 1⟩ {} fiveLocals ⟨.stloc .long, .localSlot 3⟩
    = .ok (.proceed
      { fiveLocals with
        locals := [.i32 0, .i32 1, .i32 2, .i32 7, .i32 4]
        stack := []
        ip := 1 }, {})
  := by
  have hform : (Transfer.store .locals 3).shortest = ⟨.stlocImplied 3, .none⟩ := rfl
  obtain ⟨hemits, -, -, hexecutes, -⟩ :=
    transfers_in_shortest_form (e := { method := "M" }) rfl (.store .locals 3)
  obtain ⟨hsame, hperforms⟩ := hexecutes ⟨default, 1⟩ {} fiveLocals
  rw [hform] at hemits hsame
  exact ⟨rfl, hemits, hsame, hperforms⟩

end Emitter

end ManagedCode
