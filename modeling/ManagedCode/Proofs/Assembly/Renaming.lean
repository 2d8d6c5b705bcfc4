import ManagedCode.Proofs.Assembly.Overriding
import ManagedCode.Realized

/-!
# Renaming generic parameters

A declaration that leaves parameters and return type open takes the types of the method
that it overrides, with the generic parameters renamed by position.  An interface method is
compared with its candidates by a renaming in the opposite direction.  The two undo each
other, also where the two lists of names overlap, so the new method fulfils the interface
method that it took its types from.
-/

namespace ManagedCode

namespace TypeRef

/-- Every generic parameter that a type mentions is one of those listed. -/
def MentionsOnly (names : List String) : TypeRef → Prop
  | generic name => name ∈ names
  | array element => element.MentionsOnly names
  | _ => True

instance decidableMentionsOnly (names : List String) :
    (t : TypeRef) → Decidable (t.MentionsOnly names)
  | generic name => inferInstanceAs (Decidable (name ∈ names))
  | array element => decidableMentionsOnly names element
  | void | primitive _ | string | object | defined _ => isTrue trivial

variable {names others : List String}

theorem argumentFor_getElem
    (hnodup : names.Nodup) {i : Nat} (hi : i < names.length) (args : List TypeRef) :
  argumentFor names args names[i] = args[i]?
  := by
  have hindex : names.findIdx? (· == names[i]) = some i := by
    rw [List.findIdx?_eq_some_iff_getElem]
    refine ⟨hi, beq_self_eq_true _, ?_⟩
    intro j hj
    simpa using fun heq => Nat.ne_of_lt hj ((hnodup.getElem_inj_iff).mp heq)
  rw [argumentFor, hindex, Option.bind_some]

/-- The name at a position of a list is replaced by the name at that position of the
other list. -/
theorem substitute_getElem
    (hnodup : names.Nodup) {i : Nat} (hi : i < names.length) (hi' : i < others.length) :
  (generic names[i]).substitute names (others.map .generic) = generic others[i]
  := by
  rw [substitute, argumentFor_getElem hnodup hi, List.getElem?_map, List.getElem?_eq_getElem hi']
  rfl

theorem MentionsOnly.substitute
    (hnodup : names.Nodup) (hlength : others.length = names.length)
    {t : TypeRef} (h : t.MentionsOnly names) :
  (t.substitute names (others.map .generic)).MentionsOnly others
  := by
  induction t with
  | generic name =>
      obtain ⟨i, hi, rfl⟩ := List.getElem_of_mem h
      have hi' : i < others.length := hlength ▸ hi
      rw [substitute_getElem hnodup hi hi']
      apply List.getElem_mem
  | array element ih => exact ih h
  | void | primitive p | string | object | defined d => trivial

/-- Renaming by position and back again leaves a type as it was, if it mentions only the
names that are replaced. -/
theorem MentionsOnly.substitute_back
    (hnames : names.Nodup) (hothers : others.Nodup) (hlength : others.length = names.length)
    {t : TypeRef} (h : t.MentionsOnly names) :
  (t.substitute names (others.map .generic)).substitute others (names.map .generic) = t
  := by
  induction t with
  | generic name =>
      obtain ⟨i, hi, rfl⟩ := List.getElem_of_mem h
      have hi' : i < others.length := hlength ▸ hi
      rw [substitute_getElem hnames hi hi', substitute_getElem hothers hi' hi]
  | array element ih =>
      change array _ = array _
      rw [ih h]
  | void | primitive p | string | object | defined d => rfl

end TypeRef

/-- The generic parameters of a method are distinct, and its types mention no others. -/
structure MethodSignature.Closed (sig : MethodSignature) : Prop where
  distinct : sig.genericParams.Nodup
  params : ∀ t ∈ sig.params, t.MentionsOnly sig.genericParams
  returnType : sig.returnType.MentionsOnly sig.genericParams

namespace MethodSpec

/-- A declaration leaves parameters and return type open, and its own generic parameters,
if there are any, can stand for those of a method. -/
structure Open (spec : MethodSpec) (sig : MethodSignature) : Prop where
  params : spec.params = none
  returnType : spec.returnType = none
  genericParams : spec.genericParams = []
    ∨ spec.genericParams.length = sig.genericParams.length ∧ spec.genericParams.Nodup

variable {spec : MethodSpec} {sig : MethodSignature}

theorem Open.renames (h : spec.Open sig) : spec.Renames sig := by
  rw [Renames, genericsFor]
  obtain hnone | ⟨hlength, -⟩ := h.genericParams
  · simp [hnone]
  · split
    · rfl
    · exact hlength

theorem Open.distinct (h : spec.Open sig) (hsig : sig.Closed) : (spec.genericsFor sig).Nodup := by
  rw [genericsFor]
  split
  · exact hsig.distinct
  · next hsome =>
    obtain hnone | ⟨-, hdistinct⟩ := h.genericParams
    · simp [hnone] at hsome
    · exact hdistinct

end MethodSpec

namespace CompletedSignature

/-- A method of objects with a given name and signature. -/
structure IsOf (s : CompletedSignature) (name : String) (m : RealizedMethod) : Prop where
  name : m.name = name
  notStatic : m.isStatic = false
  notConstructor : m.kind.isConstructor = false
  params : m.params = s.params
  returnType : m.returnType = s.returnType
  genericParams : m.genericParams = s.genericParams

/-- A signature has the shape of an interface method, its types mention only its own
generic parameters, and every method of objects that has it fulfils the interface method. -/
structure Restates (s : CompletedSignature) (contract : RealizedMethod) : Prop where
  arity : s.params.length = contract.params.length
  genericArity : s.genericParams.length = contract.genericParams.length
  params : ∀ p ∈ s.params, p.type.MentionsOnly s.genericParams
  returnType : s.returnType.MentionsOnly s.genericParams
  fulfils : ∀ m : RealizedMethod, s.IsOf contract.name m → m.fulfils contract

end CompletedSignature

variable {spec : MethodSpec} {contract : RealizedMethod}

/-! ## Taking over a signature -/

section Taken

variable (hopen : spec.Open contract.sig) (method : MethodRef) (origin : OverrideSource)

include hopen

theorem MethodSpec.Open.params_taken :
  (completeSignature spec (some ⟨method, origin, contract.sig⟩)).params.map (·.type)
    = contract.paramTypes.map (contract.sig.rename (spec.genericsFor contract.sig))
  := by
  have hnames : contract.sig.paramNames.length = contract.sig.params.length := by
    simp [RealizedMethod.sig, RealizedMethod.paramTypes]
  rw [completeSignature_params hnames (by simp [MethodSpec.paramTypes, hopen.params]),
    if_pos ⟨hopen.params, hopen.renames⟩]
  rfl

theorem MethodSpec.Open.returnType_taken :
  (completeSignature spec (some ⟨method, origin, contract.sig⟩)).returnType
    = contract.sig.rename (spec.genericsFor contract.sig) contract.returnType
  := by
  rw [completeSignature_returnType (by simp [hopen.returnType]),
    if_pos ⟨hopen.returnType, hopen.renames⟩]
  rfl

end Taken

/-- A method fulfils an interface method whose types, renamed by position, are its own. -/
theorem RealizedMethod.fulfils_of_renamed
    (hclosed : contract.sig.Closed) {m : RealizedMethod} (hname : m.name = contract.name)
    (hstatic : m.isStatic = false) (hkind : m.kind.isConstructor = false)
    (hdistinct : m.genericParams.Nodup)
    (hlength : m.genericParams.length = contract.genericParams.length)
    (hparams : m.paramTypes = contract.paramTypes.map (contract.sig.rename m.genericParams))
    (hreturn : m.returnType = contract.sig.rename m.genericParams contract.returnType) :
  m.fulfils contract
  := by
  have hback : ∀ t : TypeRef, t.MentionsOnly contract.genericParams →
      (contract.sig.rename m.genericParams t).substitute m.genericParams
        (contract.genericParams.map .generic) = t := by
    intro t ht
    apply ht.substitute_back hclosed.distinct hdistinct hlength
  have htypes : m.params.map (fun p =>
      p.type.substitute m.genericParams (contract.genericParams.map .generic))
        = contract.paramTypes := by
    calc
      _ = m.paramTypes.map
            (·.substitute m.genericParams (contract.genericParams.map .generic)) := by
          rw [RealizedMethod.paramTypes, List.map_map]
          rfl
      _ = contract.paramTypes.map id := by
          rw [hparams, List.map_map]
          apply List.map_congr_left
          intro t ht
          exact hback t (hclosed.params t ht)
      _ = contract.paramTypes := List.map_id _
  simp only [RealizedMethod.fulfils, Bool.and_eq_true, beq_iff_eq, Bool.not_eq_true']
  refine ⟨⟨⟨⟨⟨hname, hstatic⟩, hkind⟩, hlength⟩, htypes⟩, ?_⟩
  rw [hreturn]
  apply hback _ hclosed.returnType

/-- The signature that an open declaration takes from a method restates the signature of
that method, whatever names it gives to the generic parameters. -/
theorem completeSignature_restates
    (hclosed : contract.sig.Closed) (hopen : spec.Open contract.sig)
    (method : MethodRef) (origin : OverrideSource) :
  (completeSignature spec (some ⟨method, origin, contract.sig⟩)).Restates contract
  := by
  have hgenerics : (completeSignature spec (some ⟨method, origin, contract.sig⟩)).genericParams
      = spec.genericsFor contract.sig := rfl
  have hparams := hopen.params_taken method origin
  have hreturn := hopen.returnType_taken method origin
  have hmentions : ∀ t : TypeRef, t.MentionsOnly contract.genericParams →
      (contract.sig.rename (spec.genericsFor contract.sig) t).MentionsOnly
        (spec.genericsFor contract.sig) := by
    intro t ht
    apply ht.substitute hclosed.distinct hopen.renames
  constructor
  case arity => simpa [RealizedMethod.paramTypes] using congrArg List.length hparams
  case genericArity => exact hopen.renames
  case params =>
    intro p hp
    have hmem := List.mem_map_of_mem (f := Parameter.type) hp
    rw [hparams] at hmem
    obtain ⟨t, ht, htype⟩ := List.mem_map.mp hmem
    rw [← htype, hgenerics]
    apply hmentions t (hclosed.params t ht)
  case returnType =>
    rw [hreturn, hgenerics]
    apply hmentions _ hclosed.returnType
  case fulfils =>
    intro m hm
    have hown : m.genericParams = spec.genericsFor contract.sig := hm.genericParams
    apply RealizedMethod.fulfils_of_renamed hclosed hm.name hm.notStatic hm.notConstructor
    · rw [hown]
      apply hopen.distinct hclosed
    · rw [hown]
      apply hopen.renames
    · rw [hown, ← hparams, RealizedMethod.paramTypes, hm.params]
    · rw [hown, ← hreturn, hm.returnType]

/-- An interface method with two generic parameters that its types mention inside arrays. -/
def pairing : RealizedMethod :=
  { (default : RealizedMethod) with
    name := "Pair"
    params := [{ name := "first", type := .array (.generic "T") },
      { name := "second", type := .generic "U" }]
    returnType := .array (.array (.generic "U"))
    genericParams := ["T", "U"] }

/-- The names of the generic parameters may change places. -/
theorem pairing_swapped :
  (completeSignature { genericParams := ["U", "T"] }
    (some ⟨pairing.handle, .interface, pairing.sig⟩)).Restates pairing
  := by
  apply completeSignature_restates
  · exact ⟨by decide, by decide, by decide⟩
  · exact ⟨rfl, rfl, .inr ⟨rfl, by decide⟩⟩

end ManagedCode
