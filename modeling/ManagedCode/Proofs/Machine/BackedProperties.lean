import ManagedCode.Proofs.Assembly.AutoProperties
import ManagedCode.Proofs.Machine.FieldAccess

/-!
# Properties with a field behind them

What a host meets when it reads and writes an automatic property of a realized class
(`Session.Backs`): it finds the accessors under the name of the property, they have the signatures
and the bodies that have been made for them, and the field has a slot in each object of the class or
on the static side of the class.
-/

namespace ManagedCode

variable {ρ : Type} {verify : Bool}

/-! ## Members of realized types -/

/-- A method that a type declares is realized. -/
theorem RealizedType.Enacts.exists_method
    {t : RealizedType} {d : TypeDecl} (h : t.Enacts d) {i : Nat} {m : MethodDecl}
    (hm : d.methods[i]? = some m) :
  ∃ r, t.methods[i]? = some r ∧ r.referent = m.referent ⟨t.id, i⟩ ∧ r.body = m.body
  := by
  obtain ⟨r, hr⟩ : ∃ r, t.methods[i]? = some r := by
    have hlength := congrArg List.length h.bodies
    rw [List.length_map, List.length_map] at hlength
    exact ⟨_, List.getElem?_eq_getElem (hlength ▸ (List.getElem?_eq_some_iff.mp hm).1)⟩
  obtain ⟨m', hm', hsame⟩ := h.method hr
  rw [hm] at hm'
  cases hm'
  exact ⟨r, hr, hsame⟩

/-- A property is realized as its type declares it. -/
theorem RealizedType.Enacts.property?
    {t : RealizedType} {d : TypeDecl} (h : t.Enacts d) {name : String} {p : PropertyDecl}
    (hp : d.properties.find? (·.name == name) = some p) :
  ∃ r, t.property? name = some r ∧ r.getter = p.getter.map (MethodRef.mk t.id)
    ∧ r.setter = p.setter.map (MethodRef.mk t.id)
  := by
  have hid : t.id = d.id := congrArg Profile.id h.profile
  have hproperties : t.properties.map (·.referent) = d.properties.map (·.referent d) :=
    congrArg Profile.properties h.profile
  have hfound := congrArg (·.find? (·.name == name)) hproperties
  simp only [List.find?_map] at hfound
  have hdeclared :
      d.properties.find? ((fun x => x.name == name) ∘ fun x => x.referent d) = some p := hp
  rw [hdeclared, Option.map_some] at hfound
  obtain ⟨r, hr, hreferent⟩ := Option.map_eq_some_iff.mp hfound
  obtain ⟨-, -, hgetter, hsetter, -⟩ := Referent.property.inj hreferent
  rw [hid]
  exact ⟨r, hr, hgetter, hsetter⟩

/-- A field that a type declares is realized. -/
theorem Layered.exists_field
    {decls : TypeId → Option TypeDecl} {ts : List RealizedType} (h : Layered verify decls ts)
    {t : RealizedType} (ht : t ∈ ts) {d : TypeDecl} (hd : decls t.id = some d) {i : Nat}
    {fd : FieldDecl} (hfd : d.fields[i]? = some fd) :
  ∃ f, t.fields[i]? = some f ∧ f.declared = fd
  := by
  obtain ⟨d', hd', hlays⟩ := h.fields ht
  rw [hd] at hd'
  cases hd'
  have hdeclared := congrArg (·[i]?) hlays.declared
  rw [List.getElem?_map, hfd] at hdeclared
  exact Option.map_eq_some_iff.mp hdeclared

/-- A method of a realized type is found under its handle. -/
theorem Layered.methodAt_of_getElem?
    {decls : TypeId → Option TypeDecl} {s : Session} (h : Layered verify decls s.types)
    {t : RealizedType} (ht : t ∈ s.types) {i : Nat} {r : RealizedMethod}
    (hr : t.methods[i]? = some r) (hhandle : r.handle = ⟨t.id, i⟩) :
  s.methodAt r.handle = .ok r
  := by
  rw [Session.methodAt, hhandle]
  dsimp only
  rw [Session.typeAt_eq (h.find ht)]
  dsimp only [bind, Except.bind]
  rw [RealizedType.method?, hr]
  rfl

/-- What the class itself answers is found first. -/
theorem Layered.findAt_self
    {decls : TypeId → Option TypeDecl} {s : Session} (h : Layered verify decls s.types)
    {t : RealizedType} (ht : t ∈ s.types) {α : Type} {f : RealizedType → Option α} {a : α}
    (hanswer : f t = some a) (member : String) :
  s.findAt t.id member f = .ok a
  := by
  obtain ⟨rest, hrest, -⟩ := h.lineage ht
  rw [Session.findAt, Session.findOnLineage, hrest]
  simp only [List.findSome?_cons, hanswer]

/-! ## Accessors -/

/-- A realized method has the given signature, and the given body unless it is abstract. -/
structure RealizedMethod.Presents (m : RealizedMethod) (params : List Parameter)
    (returnType : TypeRef) (attributes : MethodAttributes) (body : MethodBody) : Prop where
  params : m.params = params
  returnType : m.returnType = returnType
  genericParams : m.genericParams = []
  attributes : m.attributes = attributes
  body : m.isAbstract = false → m.body = some body

namespace PropertySpec

/-- The attributes of the accessors of a property of a class. -/
def accessorAttributes (spec : PropertySpec ρ) : MethodAttributes :=
  { MethodAttributes.of .classType spec.visibility spec.modifier with specialName := true }

theorem accessorAttributes_isStatic (spec : PropertySpec ρ) :
  spec.accessorAttributes.isStatic = (spec.modifier == .isStatic)
  := by
  obtain ⟨visibility, modifier, accessors⟩ := spec
  cases modifier <;> cases visibility <;> rfl

end PropertySpec

/-- What a host meets when it reads and writes a property of a class that has a field behind it. -/
structure Session.Backs (s : Session) (c : TypeId) (name : String) (t : TypeRef)
    (spec : PropertySpec ρ) (f : RealizedField) (getter setter : RealizedMethod) : Prop where
  getterOf : s.getterOf c name = .ok getter.handle
  setterOf : s.setterOf c name = .ok setter.handle
  getterAt : s.methodAt getter.handle = .ok getter
  setterAt : s.methodAt setter.handle = .ok setter
  getterOwner : getter.handle.owner = c
  setterOwner : setter.handle.owner = c
  loads : getter.Presents [] t spec.accessorAttributes
    (f.handle.loadingBody (spec.modifier == .isStatic))
  stores : setter.Presents [{ name := "value", type := t }] .void spec.accessorAttributes
    (f.handle.storingBody (spec.modifier == .isStatic))
  owner : f.handle.owner = c
  type : f.type = t
  fieldAt : s.fieldAt f.handle = .ok f
  slot : if spec.modifier == .isStatic then ∃ k, f.slot = .static k else f ∈ s.instanceFields c

/-- An accessor is realized as it has been asked for. -/
theorem TypeDecl.Serves.presents
    {t : RealizedType} {d : TypeDecl} {i : Nat} {spec : MethodSpec} {kind : MethodKind}
    {body : MethodBody} (h : d.Serves i spec kind body) (henacts : t.Enacts d)
    (hplain : ∀ m, d.methods[i]? = some m → m.overrides = none ∧ m.baseSlot = none)
    (hgeneric : spec.genericParams = []) :
  ∃ r, t.methods[i]? = some r ∧ r.handle = ⟨t.id, i⟩
    ∧ r.Presents (spec.params.getD []) (spec.returnType.getD .void)
        (spec.declaredAttributes d.handle.kind kind) body
  := by
  obtain ⟨m, hm, hparams, hreturns, hbody, hown⟩ := h
  obtain ⟨r, hr, hreferent, hsame⟩ := henacts.exists_method hm
  obtain ⟨hhandle, -, -, hattributes, hgiven, htype, hnames, -⟩ := Referent.method.inj hreferent
  obtain ⟨hoverrides, hslot⟩ := hplain m hm
  obtain ⟨hnone, hdeclared⟩ := hown hoverrides hslot
  refine ⟨r, hr, hhandle, hgiven.trans hparams, htype.trans hreturns, ?_,
    hattributes.trans hdeclared, ?_⟩
  · rw [hnames, hnone, hgeneric]
  · intro habstract
    rw [hsame]
    exact hbody ((congrArg MethodAttributes.isAbstract hattributes).symm.trans habstract)

/-- A realized class that declares an automatic property offers it to hosts. -/
theorem TypeDecl.AutoProperty.backs
    {decls : TypeId → Option TypeDecl} {s : Session} (hlayered : Layered verify decls s.types)
    {u : RealizedType} (hu : u ∈ s.types) {d : TypeDecl} (hd : decls u.id = some d) {name : String}
    {t : TypeRef} {spec : PropertySpec ρ} {f i j : Nat} (h : d.AutoProperty name t spec f i j)
    (hplain : ∀ k, k = i ∨ k = j → ∀ m, d.methods[k]? = some m →
      m.overrides = none ∧ m.baseSlot = none) :
  ∃ field getter setter, s.Backs u.id name t spec field getter setter
    ∧ field.handle = ⟨u.id, f⟩ ∧ u.methods[i]? = some getter ∧ getter.handle = ⟨u.id, i⟩
    ∧ u.methods[j]? = some setter ∧ setter.handle = ⟨u.id, j⟩
  := by
  obtain ⟨d', hd', henacts⟩ := hlayered.enacts hu
  rw [hd] at hd'
  cases hd'
  have hid : u.id = d.id := congrArg Profile.id henacts.profile
  obtain ⟨p, hp, hgetter, hsetter⟩ := h.property
  obtain ⟨found, hfound, hgets, hsets⟩ := henacts.property? hp
  rw [hgetter] at hgets
  rw [hsetter] at hsets
  obtain ⟨getter, hi, hgetterHandle, hloads⟩ :=
    h.getter.presents henacts (hplain i (.inl rfl)) rfl
  obtain ⟨setter, hj, hsetterHandle, hstores⟩ :=
    h.setter.presents henacts (hplain j (.inr rfl)) rfl
  obtain ⟨fd, hfd, htype, hliteral, hstatic⟩ := h.field
  obtain ⟨field, hfield, rfl⟩ := hlayered.exists_field hu hd hfd
  obtain ⟨hhandle, hfieldAt⟩ := hlayered.fieldAt_of_getElem? hu hfield
  have hself : d.fieldRef f = field.handle := by
    rw [hhandle, hid, TypeDecl.fieldRef]
  rw [hself, h.isClass] at hloads hstores
  refine ⟨field, getter, setter, ?_, hhandle, hi, hgetterHandle, hj, hsetterHandle⟩
  constructor
  · rw [hgetterHandle]
    apply hlayered.findAt_self hu
    rw [hfound, Option.bind_some, hgets, Option.map_some]
  · rw [hsetterHandle]
    apply hlayered.findAt_self hu
    rw [hfound, Option.bind_some, hsets, Option.map_some]
  · exact hlayered.methodAt_of_getElem? hu hi hgetterHandle
  · exact hlayered.methodAt_of_getElem? hu hj hsetterHandle
  · rw [hgetterHandle]
  · rw [hsetterHandle]
  · exact hloads
  · exact hstores
  · rw [hhandle]
  · exact htype
  · exact hfieldAt
  · split
    · next hmodifier =>
      exact hlayered.stationed hu field (List.mem_of_getElem? hfield) hliteral
        (hstatic.trans hmodifier)
    · next hmodifier =>
      obtain ⟨rest, hrest, -⟩ := hlayered.lineage hu
      apply List.mem_flatMap.mpr
      refine ⟨u, List.mem_reverse.mpr ?_, List.mem_filter.mpr ⟨List.mem_of_getElem? hfield, ?_⟩⟩
      · rw [hrest]
        exact List.mem_cons_self
      · rw [RealizedField.isInstance, FieldDecl.isInstance, hliteral, hstatic,
          eq_false_of_ne_true hmodifier]
        rfl

end ManagedCode
