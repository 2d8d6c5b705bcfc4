import ManagedCode.Proofs.Emitter.Protection
import ManagedCode.Proofs.Emitter.Sealing

/-!
# What sealing has checked

A fault that a call records stays recorded (`Emitter.Records`), and an emitter without recorded
faults holds no instruction whose operand does not fit its opcode.  Sealing refuses an emitter
with recorded faults, so a body that comes from calls is `MethodBody.Checked`: its operands fit,
its labels stand for instructions, and control does not run over its last instruction.
-/

namespace ManagedCode

/-! ## Operands that fit -/

/-- The operand is one that the opcode takes. -/
def Instruction.Fits (i : Instruction) : Prop :=
  i.operand.fits i.opcode.operandKind = true

/-- A branch has a label for its operand in both widths. -/
theorem Opcode.withWidth_operandKind {op : Opcode} (w : Width) (hop : op.operandKind = .label) :
  (op.withWidth w).operandKind = .label
  := by
  cases op with
  | branch test w' => rfl
  | leave w' => rfl
  | _ => exact hop

/-- Only an operand of labels fits an opcode that takes a label. -/
theorem Operand.kind_of_label_fits {l : Label} {kind : OperandKind}
    (hfits : (label l).fits kind = true) :
  kind = .label
  := by
  cases kind with
  | label => rfl
  | _ => cases hfits

namespace Emitter

variable {e e' e'' : Emitter}

/-- Without recorded faults, the operand of every instruction fits. -/
def Fitting (e : Emitter) : Prop :=
  e.errors = [] → ∀ i ∈ e.instructions, i.Fits

/-- What has been recorded stays recorded, and an operand that does not fit is recorded. -/
structure Records (e e' : Emitter) : Prop where
  errors : e.errors <+: e'.errors
  fitting : e.Fitting → e'.Fitting

namespace Records

/-- A stream may stay as it is. -/
theorem refl (e : Emitter) : Records e e := ⟨List.prefix_refl _, id⟩

/-- What has been recorded stays recorded. -/
theorem trans (h : Records e e') (h' : Records e' e'') : Records e e'' :=
  ⟨h.errors.trans h'.errors, h'.fitting ∘ h.fitting⟩

/-- The instructions and the faults are the same. -/
theorem of_eq (herrors : e'.errors = e.errors) (hinstructions : e'.instructions = e.instructions) :
  Records e e'
  := by
  constructor
  · exact herrors ▸ List.prefix_refl e.errors
  · rw [Fitting, Fitting, herrors, hinstructions]
    exact id

/-- One more error is recorded. -/
theorem record (e : Emitter) (error : EmitError) : Records e (e.record error) := by
  constructor
  · apply List.prefix_append
  · intro _ hnone
    cases List.append_ne_nil_of_right_ne_nil _ (List.cons_ne_nil error []) hnone

/-- So is a use of a sealed stream. -/
theorem recordSealed (e : Emitter) : Records e e.recordSealed := by
  rw [Emitter.recordSealed]
  split
  · exact .refl e
  · apply record

/-- An instruction without faults has an operand that fits. -/
theorem fits_of_faults {op : Opcode} {operand : Operand} (hnone : e.faults op operand = []) :
  Instruction.Fits ⟨op, operand⟩
  := by
  have hfits := (List.append_eq_nil_iff.mp hnone).1
  split at hfits
  · assumption
  · cases hfits

/-- An instruction whose operand does not fit is recorded. -/
theorem emitWith (e : Emitter) (op : Opcode) (operand : Operand) :
  Records e (e.emitWith op operand)
  := by
  rw [Emitter.emitWith]
  split
  · apply recordSealed
  · constructor
    · apply List.prefix_append
    · intro hfitting hnone i hi
      obtain ⟨hbefore, hfaults⟩ := List.append_eq_nil_iff.mp hnone
      rcases Array.mem_push.mp hi with hi | rfl
      · exact hfitting hbefore i hi
      · apply fits_of_faults hfaults

/-- A label that is marked twice is recorded. -/
theorem markLabel (e : Emitter) (l : Label) : Records e (e.markLabel l) := by
  rw [Emitter.markLabel]
  split
  · apply record
  · apply record
  · exact .of_eq rfl rfl

/-- Closing a handler keeps what has been recorded. -/
theorem closeHandler (e : Emitter) : Records e e.closeHandler := by
  rw [Emitter.closeHandler]
  split
  · exact .refl e
  · split
    · exact .refl e
    · exact .of_eq rfl rfl

/-- So does opening one. -/
theorem openHandler (e : Emitter) (exit : Label) (kind : HandlerKind) :
  Records e (e.openHandler exit kind)
  := by
  have hclosed := (emitWith e (.leave .long) (.label exit)).trans (closeHandler _)
  rw [Emitter.openHandler]
  dsimp only
  split
  · exact hclosed
  · exact hclosed.trans (.of_eq rfl rfl)

/-- So does the start of a catch handler. -/
theorem beginCatch {t : TypeRef} (hok : e.beginCatch t = .ok e') : Records e e' := by
  rw [Emitter.beginCatch] at hok
  split at hok
  · cases hok
  · split at hok
    · cases hok
    · cases hok
      apply openHandler

/-- So does that of a finally handler. -/
theorem beginFinally (hok : e.beginFinally = .ok e') : Records e e' := by
  rw [Emitter.beginFinally] at hok
  split at hok
  · cases hok
  · split at hok
    · cases hok
    · cases hok
      apply openHandler

/-- So does the end of a block.  What follows the last instruction of the block closes its handler
and marks the exit, which records no fault. -/
theorem endBlock (hok : e.endBlock = .ok e') : Records e e' := by
  have hclose : ∀ (e : Emitter) (exit : Label),
      Records e (({ e.closeHandler with blocks := e.closeHandler.blocks.tail }).markLabel exit) := by
    intro e exit
    apply (closeHandler e).trans
    have hpopped : Records e.closeHandler
        { e.closeHandler with blocks := e.closeHandler.blocks.tail } := .of_eq rfl rfl
    apply hpopped.trans (markLabel _ exit)
  rw [Emitter.endBlock] at hok
  split at hok
  · cases hok
  · split at hok
    · cases hok
    · next kind _ =>
      cases kind with
      | finalizing =>
          cases hok
          exact (emitWith e .endfinally .none).trans (hclose _ _)
      | catching t =>
          cases hok
          exact (emitWith e _ _).trans (hclose _ _)

/-- The width of a branch has no part in whether its operand fits. -/
theorem relaxInstruction_fits {i : Instruction} (ip : Nat) (hi : i.Fits) :
  (e.relaxInstruction ip i).Fits
  := by
  obtain ⟨op, operand⟩ := i
  rw [relaxInstruction]
  split
  · next l hoperand =>
    cases hoperand
    split
    · rw [Instruction.Fits, Opcode.withWidth_operandKind _ (Operand.kind_of_label_fits hi)]
      rfl
    · exact hi
  · exact hi

/-- So does choosing the short forms. -/
theorem relax (e : Emitter) : Records e e.relax := by
  constructor
  · exact List.prefix_refl e.errors
  · intro hfitting hnone i hi
    obtain ⟨ip, hip, rfl⟩ := Array.mem_mapIdx.mp hi
    apply relaxInstruction_fits ip (hfitting hnone _ (Array.getElem_mem hip))

/-- So does sealing. -/
theorem sealBodyWith (e : Emitter) (effectOf : Opcode → MethodRef → Option CallEffect) :
  Records e (e.sealBodyWith effectOf).2
  := by
  have hrelaxed : Records e { e.relax with finished := true } := (relax e).trans (.of_eq rfl rfl)
  rw [Emitter.sealBodyWith]
  split
  · exact .refl e
  · split
    · exact .of_eq rfl rfl
    · dsimp only
      split
      · exact hrelaxed
      · refine ⟨hrelaxed.errors, ?_⟩
        rintro - - i hi
        cases Array.not_mem_empty i hi

end Records

/-- So does every call. -/
theorem Step.records (hstep : e.Step e') : Records e e' := by
  cases hstep with
  | emitWith op operand => apply Records.emitWith
  | defineLabel => exact .of_eq rfl rfl
  | markLabel l => apply Records.markLabel
  | declareLocal t => exact .of_eq rfl rfl
  | beginBlock => exact .of_eq rfl rfl
  | beginCatch hok => exact .beginCatch hok
  | beginFinally hok => exact .beginFinally hok
  | endBlock hok => exact .endBlock hok
  | sealBodyWith effectOf => apply Records.sealBodyWith

/-- Calls record what they find, and take back nothing. -/
theorem Steps.records (hsteps : e.Steps e') : Records e e' := by
  induction hsteps with
  | refl => exact .refl e
  | tail _ hstep ih => exact ih.trans hstep.records

end Emitter

/-! ## Checked bodies -/

/-- What sealing has checked of a body. -/
structure MethodBody.Checked (body : MethodBody) : Prop where
  fits : ∀ i ∈ body.instructions, i.Fits
  labels : ∀ i ∈ body.instructions, ∀ l ∈ i.operand.labels,
    ∃ ip < body.instructions.size, body.target? l = some ip
  nonempty : 0 < body.instructions.size
  /-- Only a terminator comes last. -/
  ends : ∀ ip i, body.instructions[ip]? = some i → i.opcode.isTerminator = false →
    ip + 1 < body.instructions.size
  handlers : ∀ r ∈ body.regions, r.handlerStart < body.instructions.size

namespace Emitter

variable {e : Emitter} {effectOf : Opcode → MethodRef → Option CallEffect} {body : MethodBody}

/-- A stream that passes the check has no errors. -/
theorem errors_of_check (hcheck : e.check = .ok ()) : e.errors = [] := by
  rw [check] at hcheck
  split at hcheck
  · cases hcheck
  · assumption

/-- The last instruction of a checked stream is a terminator. -/
theorem last_of_check (hcheck : e.check = .ok ()) :
  ∃ last, e.instructions.back? = some last ∧ last.opcode.isTerminator = true
  := by
  rw [check] at hcheck
  split at hcheck
  · cases hcheck
  · split at hcheck
    · cases hcheck
    · cases hlabels : (e.instructions.toList.flatMap (·.operand.labels)).forM
          fun l => discard (e.resolve l) with
      | error error =>
          rw [hlabels] at hcheck
          cases hcheck
      | ok _ =>
          rw [hlabels] at hcheck
          dsimp only [bind, Except.bind] at hcheck
          split at hcheck
          · next last hback =>
            split at hcheck
            · next hterminator => exact ⟨last, hback, hterminator⟩
            · cases hcheck
          · cases hcheck

/-- A short form ends a block if the long one does. -/
theorem relaxInstruction_isTerminator (e : Emitter) (ip : Nat) (i : Instruction) :
  (e.relaxInstruction ip i).opcode.isTerminator = i.opcode.isTerminator
  := by
  have hwidth : ∀ (op : Opcode) (w : Width), (op.withWidth w).isTerminator = op.isTerminator := by
    intro op w
    cases op with
    | branch test w' => cases test <;> rfl
    | _ => rfl
  rw [relaxInstruction]
  split
  · split
    · apply hwidth
    · rfl
  · rfl

/-- A label that resolves stands for an instruction of the body. -/
theorem target_of_resolve {l : Label} {ip : Nat} (hresolve : e.resolve l = .ok ip) :
  (e.labels[l.id]?).join = some ip ∧ ip < e.position
  := by
  rw [resolve] at hresolve
  split at hresolve
  · cases hresolve
  · cases hresolve
  · next target htarget =>
    split at hresolve
    · next hbefore =>
      cases hresolve
      rw [htarget]
      exact ⟨rfl, hbefore⟩
    · cases hresolve

/-- A body is checked if every fault of its emitter has been recorded.  The last instruction is a
terminator, so that every other one has an instruction after it. -/
theorem Built.checked
    (hbuilt : e.Built) (hfitting : e.Fitting)
    (hsealed : (e.sealBodyWith effectOf).1 = .ok body) :
  body.Checked
  := by
  obtain ⟨blocks, harranged⟩ := hbuilt.arranged hsealed
  have hranges := harranged.structured.ranges
  obtain ⟨-, hcheck, maxStack, -, rfl⟩ := sealBodyWith_ok hsealed
  obtain ⟨last, hlast, hterminator⟩ := last_of_check hcheck
  have hsize : e.relax.instructions.size = e.instructions.size := Array.size_mapIdx
  constructor
  · exact (Records.relax e).fitting hfitting (errors_of_check (e := e) hcheck)
  · intro i hi l hl
    obtain ⟨ip, hip, rfl⟩ := Array.mem_mapIdx.mp hi
    rw [relaxInstruction_operand] at hl
    obtain ⟨target, hresolve⟩ := resolve_of_check hcheck (Array.getElem_mem hip) hl
    obtain ⟨htarget, hbefore⟩ := target_of_resolve hresolve
    refine ⟨target, ?_, htarget⟩
    rw [hsize]
    exact hbefore
  · rw [hsize]
    apply Array.size_pos_of_mem (Array.mem_of_back? hlast)
  · intro ip i hi hgoes
    have hi' : (e.instructions.mapIdx e.relaxInstruction)[ip]? = some i := hi
    rw [Array.getElem?_mapIdx, Option.map_eq_some_iff] at hi'
    obtain ⟨i, hi', rfl⟩ := hi'
    rw [relaxInstruction_isTerminator] at hgoes
    obtain ⟨hip, -⟩ := Array.getElem?_eq_some_iff.mp hi'
    rw [hsize]
    apply Nat.lt_of_le_of_ne hip
    intro hend
    rw [Array.back?_eq_getElem?, ← hend, Nat.succ_sub_one, hi'] at hlast
    cases hlast
    rw [hgoes] at hterminator
    cases hterminator
  · intro r hr
    have := hranges r hr
    omega

end Emitter

end ManagedCode
