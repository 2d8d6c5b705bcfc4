import ManagedCode.Proofs.Assembly.Bases

/-!
# Methods that override

What the search for an overridden method finds, and what the new method has in common
with it.  Name and number of parameters always agree; the types agree up to a renaming of
generic parameters by position exactly when the declaration leaves open every type that
the renaming changes (`MethodSpec.Faithful`).
-/

namespace ManagedCode

theorem TypeRef.substitute_generics (t : TypeRef) (names : List String) :
  t.substitute names (names.map .generic) = t
  := by
  induction t with
  | array element ih => rw [TypeRef.substitute, ih]
  | generic name =>
      rw [TypeRef.substitute, argumentFor]
      cases hindex : names.findIdx? (· == name) with
      | none => rfl
      | some i =>
          obtain ⟨hi, hname, -⟩ := List.findIdx?_eq_some_iff_getElem.mp hindex
          have hname : names[i] = name := by simpa using hname
          simp [hi, hname]
  | void => rfl
  | primitive p => rfl
  | string => rfl
  | object => rfl
  | defined h => rfl

/-- A type of a method with the generic parameters of the method renamed by position. -/
def MethodSignature.rename (sig : MethodSignature) (names : List String) (t : TypeRef) : TypeRef :=
  t.substitute sig.genericParams (names.map .generic)

/-- A method can stand in for another one as far as its name, its number of parameters and
the attributes of the other one tell. -/
structure MethodDecl.Replaces (m : MethodDecl) (sig : MethodSignature) : Prop where
  isVirtual : sig.isVirtual = true
  notFinal : sig.isFinal = false
  notStatic : sig.isStatic = false
  name : m.name = sig.name
  arity : m.params.length = sig.params.length

/-- A method has the types of another one, with generic parameters renamed by position. -/
structure MethodDecl.SameTypes (m : MethodDecl) (sig : MethodSignature) : Prop where
  params : m.paramTypes = sig.params.map (sig.rename m.genericParams)
  returnType : m.returnType = sig.rename m.genericParams sig.returnType

namespace MethodSpec

/-- The generic parameters that a declaration gets when it overrides a method. -/
def genericsFor (spec : MethodSpec) (sig : MethodSignature) : List String :=
  if spec.genericParams.isEmpty then sig.genericParams else spec.genericParams

/-- The generic parameters of a declaration can stand for those of a method. -/
def Renames (spec : MethodSpec) (sig : MethodSignature) : Prop :=
  (spec.genericsFor sig).length = sig.genericParams.length

instance (spec : MethodSpec) (sig : MethodSignature) : Decidable (spec.Renames sig) :=
  inferInstanceAs (Decidable (_ = _))

/-- A declaration leaves open every type that renaming the generic parameters changes, and
has as many generic parameters if there is one. -/
structure Faithful (spec : MethodSpec) (sig : MethodSignature) : Prop where
  params : (spec.params = none ∧ spec.Renames sig)
    ∨ ∀ t ∈ sig.params, sig.rename (spec.genericsFor sig) t = t
  returnType : (spec.returnType = none ∧ spec.Renames sig)
    ∨ sig.rename (spec.genericsFor sig) sig.returnType = sig.returnType

variable {spec : MethodSpec} {sig : MethodSignature}

/-- A declaration without generic parameters of its own is always faithful. -/
theorem Faithful.of_no_generics (h : spec.genericParams = []) : spec.Faithful sig := by
  have hgenerics : spec.genericsFor sig = sig.genericParams := by simp [genericsFor, h]
  constructor
  · right
    intro t _
    rw [hgenerics]
    apply TypeRef.substitute_generics
  · right
    rw [hgenerics]
    apply TypeRef.substitute_generics

end MethodSpec

/-! ## The signature that a declaration gets -/

/-- What a declaration takes over it takes over renamed, if it can rename anything. -/
theorem adopt_eq (spec : MethodSpec) (sig : MethodSignature) (t : TypeRef) :
  spec.adopt sig t = if spec.Renames sig then sig.rename (spec.genericsFor sig) t else t
  := by
  unfold MethodSpec.adopt MethodSpec.Renames MethodSpec.genericsFor MethodSignature.rename
  by_cases hempty : spec.genericParams.isEmpty
  · simp [hempty, TypeRef.substitute_generics]
  · simp [hempty]

variable {spec : MethodSpec} {t : Overridden}

/-- The types that a method gets when those that are given match the overridden method. -/
theorem completeSignature_params
    (hnames : t.signature.paramNames.length = t.signature.params.length)
    (hmatch : spec.paramTypes.all (· == t.signature.params)) :
  (completeSignature spec (some t)).params.map (·.type)
    = if spec.params = none ∧ spec.Renames t.signature then
        t.signature.params.map (t.signature.rename (spec.genericsFor t.signature))
      else t.signature.params
  := by
  rw [completeSignature]
  dsimp only
  rw [MethodSpec.paramTypes] at hmatch
  cases hparams : spec.params with
  | some params =>
      rw [hparams] at hmatch
      simpa using hmatch
  | none =>
      rw [Option.getD_none, List.map_map]
      have hzip : ∀ f : TypeRef → TypeRef,
          (t.signature.params.zip t.signature.paramNames).map (fun p => f p.1)
            = t.signature.params.map f := by
        intro f
        have := congrArg (List.map f) (List.map_fst_zip (Nat.le_of_eq hnames.symm))
        rwa [List.map_map] at this
      change (t.signature.params.zip t.signature.paramNames).map
        (fun p => spec.adopt t.signature p.1) = _
      rw [hzip]
      split
      · next hrenames =>
        apply List.map_congr_left
        intro u _
        rw [adopt_eq, if_pos hrenames.2]
      · next hrenames =>
        have hstays : ∀ u ∈ t.signature.params, spec.adopt t.signature u = id u := by
          intro u _
          rw [adopt_eq, if_neg fun h => hrenames ⟨rfl, h⟩]
          rfl
        rw [List.map_congr_left hstays, List.map_id]

theorem completeSignature_returnType
    (hmatch : spec.returnType.all (· == t.signature.returnType)) :
  (completeSignature spec (some t)).returnType
    = if spec.returnType = none ∧ spec.Renames t.signature then
        t.signature.rename (spec.genericsFor t.signature) t.signature.returnType
      else t.signature.returnType
  := by
  rw [completeSignature]
  dsimp only
  cases hreturn : spec.returnType with
  | some returnType =>
      rw [hreturn] at hmatch
      simpa using hmatch
  | none =>
      by_cases hrenames : spec.Renames t.signature <;> simp [adopt_eq, hrenames]

/-! ## What the search finds -/

/-- The methods of a realized type are those of a declaration of its number. -/
def Session.Traced (session : Session) : Prop :=
  ∀ {x : TypeId} {t : RealizedType}, session.realized? x = some t →
    ∃ d : TypeDecl, d.id = x ∧ (TypeView.ofRealized t).methods = (TypeView.ofDecl d).methods

theorem Project.Consistent.traced {p : Project} (h : p.Consistent) : p.session.Traced := by
  intro x t ht
  have hx : t.id = x := by simpa using List.find?_some ht
  obtain ⟨i, a, d, ha, hd, hrealized⟩ := h.origin t (List.mem_of_find?_eq_some ht)
  obtain ⟨t', ht', hmirrors⟩ := h.mirrored ha hd hrealized
  rw [hx, ht] at ht'
  cases ht'
  exact ⟨d, by rw [Assembly.decl?_id hd, hx], hmirrors.methods⟩

namespace Workspace

variable {w : Workspace} {name : String}

/-- A method that a unit sees is found under its handle, and each of its parameters has a
name. -/
theorem methodSignature_of_mem
    (htraced : w.session.Traced) {x : TypeId} {s : TypeView} (hs : w.view? x = some s)
    {sig : MethodSignature} (hsig : sig ∈ s.methods) :
  sig.handle.owner = x ∧ w.methodSignature sig.handle = .ok sig
    ∧ sig.paramNames.length = sig.params.length
  := by
  have hdecl : ∃ d : TypeDecl, d.id = x ∧ s.methods = (TypeView.ofDecl d).methods := by
    cases hd : w.assembly.decl? x with
    | some d =>
        rw [view?_of_decl hd] at hs
        cases hs
        exact ⟨d, Assembly.decl?_id hd, rfl⟩
    | none =>
        rw [view?_of_no_decl hd] at hs
        obtain ⟨t, ht, rfl⟩ := Option.map_eq_some_iff.mp hs
        apply htraced ht
  obtain ⟨d, hd, hmethods⟩ := hdecl
  obtain ⟨i, hi⟩ := List.getElem?_of_mem hsig
  have hlookup := hi
  rw [hmethods] at hi
  obtain ⟨m, -, rfl⟩ := Option.map_eq_some_iff.mp (List.getElem?_mapIdx ▸ hi)
  refine ⟨hd, ?_, by simp [MethodDecl.sig, MethodDecl.paramTypes]⟩
  rw [methodSignature_ok_iff]
  exact ⟨s, by rw [← hs, ← hd]; rfl, hlookup⟩

/-- A base method that a declaration overrides. -/
structure Overridable (w : Workspace) (name : String) (spec : MethodSpec) (t : Overridden) :
    Prop where
  origin : t.origin = .baseType
  signature : w.methodSignature t.method = .ok t.signature
  isVirtual : t.signature.isVirtual = true
  notFinal : t.signature.isFinal = false
  notStatic : t.signature.isStatic = false
  isMatch : t.signature.isMatch name spec.paramTypes spec.returnType = true
  named : t.signature.paramNames.length = t.signature.params.length

theorem overriddenBase_ok
    (htraced : w.session.Traced) {chain : List TypeId}
    (h : w.overriddenBase name spec chain = .ok (some t)) :
  t.method.owner ∈ chain ∧ w.Overridable name spec t
  := by
  induction chain with
  | nil => cases h
  | cons base rest ih =>
      obtain ⟨s, hs, h⟩ := exists_of_bind_ok h
      dsimp only at h
      split at h
      · obtain ⟨hmem, hfound⟩ := ih h
        exact ⟨List.mem_cons_of_mem _ hmem, hfound⟩
      · next m hm =>
        split at h
        · cases h
        · next hopen =>
          cases h
          obtain ⟨howner, hsig, hnamed⟩ :=
            methodSignature_of_mem htraced (view_ok hs) (List.mem_of_find?_eq_some hm)
          have hfound := List.find?_some hm
          simp only [Bool.and_eq_true, Bool.not_eq_true'] at hfound
          simp only [Bool.or_eq_true, Bool.not_eq_true', not_or, Bool.not_eq_false,
            Bool.not_eq_true] at hopen
          refine ⟨?_, rfl, hsig, hopen.1, hopen.2, hfound.1, hfound.2, hnamed⟩
          rw [howner]
          apply List.mem_cons_self

theorem origin_of_interface
    {interfaces : List TypeId} (h : w.implementedInterface name spec interfaces = .ok (some t)) :
  t.origin = .interface
  := by
  obtain ⟨found, -, h⟩ := exists_of_bind_ok h
  cases found with
  | none => cases h
  | some m =>
      cases h
      rfl

/-- The method that a declaration overrides belongs to an interface, or is a base method
that can be overridden. -/
theorem findOverridden_ok
    (htraced : w.session.Traced) {owner : TypeId} (h : w.findOverridden owner name spec = .ok (some t)) :
  t.origin = .interface
  ∨ spec.isExplicit = false ∧ w.Below owner t.method.owner ∧ w.Overridable name spec t
  := by
  rw [findOverridden] at h
  dsimp only at h
  split at h
  · left
    obtain ⟨_, ⟨⟩, h⟩ := exists_of_bind_ok h
    obtain ⟨s, -, h⟩ := exists_of_bind_ok h
    obtain ⟨interfaces, -, h⟩ := exists_of_bind_ok h
    apply origin_of_interface h
  · next hexplicit =>
    obtain ⟨chain, hchain, h⟩ := exists_of_bind_ok h
    obtain ⟨fromBase, hbase, h⟩ := exists_of_bind_ok h
    cases fromBase with
    | some target =>
        right
        cases h
        obtain ⟨hmem, hfound⟩ := overriddenBase_ok htraced hbase
        exact ⟨by simpa using hexplicit, (mem_bases_iff hchain _).mp hmem, hfound⟩
    | none =>
        left
        obtain ⟨s, -, h⟩ := exists_of_bind_ok h
        obtain ⟨interfaces, -, h⟩ := exists_of_bind_ok h
        apply origin_of_interface h

end Workspace

/-! ## What a new method has of the one that it overrides -/

namespace Workspace.Overridable

variable {w : Workspace} {name : String} {owner : TypeKind} {kind : MethodKind}

theorem paramTypes_entry (h : w.Overridable name spec t) :
  (w.entry owner name spec kind (some t)).paramTypes
    = if spec.params = none ∧ spec.Renames t.signature then
        t.signature.params.map (t.signature.rename (spec.genericsFor t.signature))
      else t.signature.params
  := by
  have hmatch := h.isMatch
  simp only [MethodSignature.isMatch, Bool.and_eq_true] at hmatch
  apply completeSignature_params h.named hmatch.1.2

theorem returnType_entry (h : w.Overridable name spec t) :
  (w.entry owner name spec kind (some t)).returnType
    = if spec.returnType = none ∧ spec.Renames t.signature then
        t.signature.rename (spec.genericsFor t.signature) t.signature.returnType
      else t.signature.returnType
  := by
  have hmatch := h.isMatch
  simp only [MethodSignature.isMatch, Bool.and_eq_true] at hmatch
  apply completeSignature_returnType hmatch.2

theorem replaces_entry (h : w.Overridable name spec t) (hexplicit : spec.isExplicit = false) :
  (w.entry owner name spec kind (some t)).Replaces t.signature
  := by
  have hmatch := h.isMatch
  simp only [MethodSignature.isMatch, Bool.and_eq_true, beq_iff_eq] at hmatch
  refine ⟨h.isVirtual, h.notFinal, h.notStatic, ?_, ?_⟩
  · change (if spec.isExplicit then _ else name) = _
    rw [hexplicit, hmatch.1.1.1]
    rfl
  · have hparams : (w.entry owner name spec kind (some t)).params.map (·.type) = _ :=
      h.paramTypes_entry
    have hlength := congrArg List.length hparams
    rw [List.length_map] at hlength
    rw [hlength]
    split <;> simp

/-- The new method has the types of the one that it overrides exactly when its declaration
is faithful. -/
theorem sameTypes_entry_iff (h : w.Overridable name spec t) :
  (w.entry owner name spec kind (some t)).SameTypes t.signature ↔ spec.Faithful t.signature
  := by
  have hgenerics : (w.entry owner name spec kind (some t)).genericParams
      = spec.genericsFor t.signature := rfl
  constructor
  · rintro ⟨hparams, hreturn⟩
    rw [h.paramTypes_entry, hgenerics] at hparams
    rw [h.returnType_entry, hgenerics] at hreturn
    constructor
    · by_cases hopen : spec.params = none ∧ spec.Renames t.signature
      · left
        apply hopen
      · right
        rw [if_neg hopen] at hparams
        intro u hu
        have hmap : t.signature.params.map id
            = t.signature.params.map (t.signature.rename (spec.genericsFor t.signature)) := by
          rw [List.map_id, ← hparams]
        exact (List.map_inj_left.mp hmap u hu).symm
    · by_cases hopen : spec.returnType = none ∧ spec.Renames t.signature
      · left
        apply hopen
      · right
        rw [if_neg hopen] at hreturn
        rw [← hreturn]
  · rintro ⟨hparams, hreturn⟩
    constructor
    · rw [h.paramTypes_entry, hgenerics]
      split
      · rfl
      · next hopen =>
        have hstays : ∀ u ∈ t.signature.params,
            t.signature.rename (spec.genericsFor t.signature) u = id u :=
          hparams.resolve_left hopen
        rw [List.map_congr_left hstays, List.map_id]
    · rw [h.returnType_entry, hgenerics]
      split
      · rfl
      · next hopen => rw [hreturn.resolve_left hopen]

end Workspace.Overridable

end ManagedCode
