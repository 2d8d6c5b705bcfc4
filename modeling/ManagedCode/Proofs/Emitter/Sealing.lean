import ManagedCode.Emitter.Sealing

/-!
# Sealed bodies

What sealing accepts, how the body that it makes comes from the emitter, and that the
depth analysis follows the labels of the body as a running frame does.
-/

namespace ManagedCode.Emitter

variable {e : Emitter} {effectOf : Opcode → MethodRef → Option CallEffect} {body : MethodBody}

/-- What sealing accepts, and the body that it makes. -/
theorem sealBodyWith_ok
    (hok : (e.sealBodyWith effectOf).1 = .ok body) :
  e.finished = false ∧ e.check = .ok () ∧ ∃ maxStack,
    (e.relax.graph effectOf).maxDepth = .ok maxStack
    ∧ body =
      { instructions := e.relax.instructions
        labels := e.labels
        locals := e.locals
        regions := e.regions
        maxStack := maxStack }
  := by
  rw [sealBodyWith] at hok
  split at hok
  · cases hok
  · next hfinished =>
    split at hok
    · cases hok
    · next hcheck =>
      dsimp only at hok
      split at hok
      · cases hok
      · next maxStack hdepth =>
        cases hok
        exact ⟨by simpa using hfinished, hcheck, maxStack, hdepth, rfl⟩

/-- A stream that passes the check and whose depth is bounded is sealed. -/
theorem sealBodyWith_of_maxDepth
    {depth : Nat} (hopen : e.finished = false) (hcheck : e.check = .ok ())
    (hdepth : (e.relax.graph effectOf).maxDepth = .ok depth) :
  (e.sealBodyWith effectOf).1
    = .ok ⟨e.relax.instructions, e.labels, e.locals, e.regions, depth⟩
  := by
  have hsealed : (({ e.relax with finished := true } : Emitter).graph effectOf).maxDepth
      = .ok depth := hdepth
  rw [sealBodyWith, hopen, if_neg Bool.false_ne_true, hcheck]
  dsimp only
  rw [hsealed]
  rfl

/-- A stream whose branches have their forms already is sealed as it is. -/
theorem sealBodyWith_of_relax_eq
    {depth : Nat} (hopen : e.finished = false) (hcheck : e.check = .ok ()) (hrelax : e.relax = e)
    (hdepth : (e.graph effectOf).maxDepth = .ok depth) :
  (e.sealBodyWith effectOf).1 = .ok ⟨e.instructions, e.labels, e.locals, e.regions, depth⟩
  := by
  have hrelaxed : (e.relax.graph effectOf).maxDepth = .ok depth := by rw [hrelax, hdepth]
  rw [sealBodyWith_of_maxDepth hopen hcheck hrelaxed, hrelax]

/-! ## labels -/

theorem resolve_relax (e : Emitter) (l : Label) : e.relax.resolve l = e.resolve l := by
  have hposition : e.relax.position = e.position := Array.size_mapIdx
  rw [resolve]
  rw [hposition]
  rfl

theorem relaxInstruction_operand (e : Emitter) (ip : Nat) (i : Instruction) :
  (e.relaxInstruction ip i).operand = i.operand
  := by
  rw [relaxInstruction]
  split
  · split <;> rfl
  · rfl

theorem forM_ok {α β ε : Type} {f : α → Except ε β} {xs : List α}
    (hok : xs.forM (fun x => discard (f x)) = .ok ()) :
  ∀ x ∈ xs, ∃ b, f x = .ok b
  := by
  induction xs with
  | nil =>
      rintro x ⟨⟩
  | cons x xs ih =>
      have hok : (discard (f x) >>= fun _ => xs.forM fun x => discard (f x)) = .ok () := hok
      cases hx : f x with
      | error error =>
          rw [hx] at hok
          cases hok
      | ok b =>
          rw [hx] at hok
          apply List.forall_mem_cons.mpr ⟨⟨b, hx⟩, ih hok⟩

/-- A checked stream has no open block. -/
theorem openBlocks_of_check (hcheck : e.check = .ok ()) : e.blocks = [] := by
  rw [check] at hcheck
  split at hcheck
  · cases hcheck
  · split at hcheck
    · cases hcheck
    · next hopen => exact List.length_eq_zero_iff.mp (Nat.eq_zero_of_not_pos hopen)

/-- Every label that a checked stream names precedes an instruction. -/
theorem resolve_of_check (hcheck : e.check = .ok ()) {i : Instruction} (hi : i ∈ e.instructions)
    {l : Label} (hl : l ∈ i.operand.labels) :
  ∃ ip, e.resolve l = .ok ip
  := by
  rw [check] at hcheck
  split at hcheck
  · cases hcheck
  · split at hcheck
    · cases hcheck
    · cases hlabels : (e.instructions.toList.flatMap (·.operand.labels)).forM
          fun l => discard (e.resolve l) with
      | error error =>
          rw [hlabels] at hcheck
          cases hcheck
      | ok _ =>
          apply forM_ok hlabels
          apply List.mem_flatMap.mpr ⟨i, Array.mem_toList_iff.mpr hi, hl⟩

/-- The analysis follows the labels of a body as a running frame does. -/
theorem sealed_target
    (hsealed : (e.sealBodyWith effectOf).1 = .ok body) {ip : Nat} {i : Instruction} {l : Label}
    (hi : body.instructions[ip]? = some i) (hl : l ∈ i.operand.labels) :
  (e.relax.graph effectOf).target l = body.target? l
  := by
  obtain ⟨-, hcheck, maxStack, -, rfl⟩ := sealBodyWith_ok hsealed
  have hi' : (e.instructions.mapIdx e.relaxInstruction)[ip]? = some i := hi
  rw [Array.getElem?_mapIdx, Option.map_eq_some_iff] at hi'
  obtain ⟨i₀, hi₀, rfl⟩ := hi'
  rw [relaxInstruction_operand] at hl
  obtain ⟨ip', hresolve⟩ := resolve_of_check hcheck (Array.mem_of_getElem? hi₀) hl
  have hlabel : (e.labels[l.id]?).join = some ip' := by
    rw [resolve] at hresolve
    split at hresolve
    · cases hresolve
    · cases hresolve
    · next t ht =>
      split at hresolve
      · cases hresolve
        rw [ht]
        rfl
      · cases hresolve
  change (e.relax.resolve l).toOption = (e.labels[l.id]?).join
  rw [resolve_relax, hresolve, hlabel]
  rfl

end ManagedCode.Emitter
