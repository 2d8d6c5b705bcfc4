import ManagedCode.Proofs.Assembly.Bases
import ManagedCode.Proofs.Assembly.Outlines

/-!
# What operations do to outlines

An operation keeps the outlines of a unit, or it declares one type, gives one type another
base or one more interface, or realizes types (`Workspace.Redraws`).  Whatever it does, it
leaves a realized type exactly as it is, the declarations of a unit stay regular, and only a
new type changes which types are nested in which.
-/

namespace ManagedCode

variable {ρ : Type} {w w' : Workspace}

/-! ## Outcomes -/

namespace Workspace

/-- A workspace in which a type has been declared. -/
def declaring (w : Workspace) (d : TypeDecl) : Workspace :=
  match d.enclosing with
  | some outer => (w.enterType d).updated outer fun o => { o with nested := o.nested ++ [d.id] }
  | none => w.enterType d

/-- What is known of a type when it is declared. -/
structure Declares (w : Workspace) (d : TypeDecl) : Prop where
  fresh : d.id = ⟨w.session.nextTypeId⟩
  unused : ∀ e ∈ w.assembly.types, e.id ≠ d.id
  finalized : w.assembly.finalized = none
  enclosing : ∀ outer, d.enclosing = some outer → ∃ o, w.assembly.building outer = .ok o
  attributes : d.attributes = .of d.handle.kind d.visibility d.modifier d.enclosing.isSome
  base : ∀ base, d.base = some base →
    d.handle.kind = .classType ∧ ∃ given, w.acceptBase d.fullName given = .ok (some base)
  interfaces : ∃ given, d.interfaces = [] ∨ w.acceptInterfaces d.fullName [] given = .ok d.interfaces
  methods : d.methods = []
  nested : d.nested = []
  state : d.state = .building

/-- A type that is opened gets a new id and a new name. -/
theorem declares_of_newType
    (hfresh : w.Fresh) {name : String} {kind : TypeKind} {spec : TypeSpec}
    {enclosing : Option TypeId} {d : TypeDecl} (h : w.newType name kind spec enclosing = .ok d) :
  w.Declares d
  := by
  rw [newType] at h
  dsimp only at h
  obtain ⟨-, h⟩ := of_guard_ok h
  obtain ⟨hopen, h⟩ := of_guard_ok h
  obtain ⟨fullName, hname, h⟩ := exists_of_bind_ok h
  obtain ⟨-, h⟩ := of_guard_ok h
  obtain ⟨base, hbase, h⟩ := exists_of_bind_ok h
  have hfinalized : w.assembly.finalized = none := by
    simpa [Assembly.isFinalized] using hopen
  have houter : ∀ outer, enclosing = some outer → ∃ o, w.assembly.building outer = .ok o := by
    rintro outer rfl
    obtain ⟨o, ho, -⟩ := exists_of_bind_ok hname
    exact ⟨o, ho⟩
  have haccepted : ∀ b, base = some b →
      kind = .classType ∧ ∃ given, w.acceptBase fullName given = .ok (some b) := by
    rintro b rfl
    unfold declaredBase at hbase
    split at hbase
    · cases hbase
    · exact ⟨rfl, _, hbase⟩
    · split at hbase <;> cases hbase
    · cases hbase
  split at h
  · obtain ⟨interfaces, hinterfaces, h⟩ := exists_of_bind_ok h
    cases h
    cases hinterfaces
    exact ⟨rfl, hfresh.unused, hfinalized, houter, rfl, haccepted, ⟨[], .inl rfl⟩, rfl, rfl, rfl⟩
  · obtain ⟨interfaces, hinterfaces, h⟩ := exists_of_bind_ok h
    cases h
    exact ⟨rfl, hfresh.unused, hfinalized, houter, rfl, haccepted,
      ⟨spec.interfaces, .inr hinterfaces⟩, rfl, rfl, rfl⟩

/-- No declaration has had the id of the new type. -/
theorem Declares.decl?_eq_none {d : TypeDecl} (h : w.Declares d) :
  w.assembly.decl? d.id = none
  := by
  apply List.find?_eq_none.mpr
  simpa using h.unused

/-- A workspace in which a type has got another base. -/
def rebasing (w : Workspace) (id : TypeId) (base : Option TypeRef) : Workspace :=
  w.updated id fun d => { d with base := base }

/-- A workspace in which a type has got one more interface. -/
def implementing (w : Workspace) (id : TypeId) (interface : TypeRef) : Workspace :=
  w.updated id fun d =>
    if d.interfaces.contains interface then d
    else { d with interfaces := d.interfaces ++ [interface] }

end Workspace

namespace Build

open Workspace

/-- Opening a type is refused, or it adds the type that was described. -/
theorem exec_declareType
    (name : String) (kind : TypeKind) (spec : TypeSpec) (enclosing : Option TypeId) (w : Workspace) :
  (∃ e, (declareType name kind spec enclosing).exec w = (.error e, w))
  ∨ ∃ d, w.newType name kind spec enclosing = .ok d
    ∧ (declareType name kind spec enclosing).exec w = (.ok d.id, w.declaring d)
  := by
  rw [declareType]
  rw [exec_bind, exec_ask]
  cases hd : w.newType name kind spec enclosing with
  | error e =>
      left
      exact ⟨e, rfl⟩
  | ok d =>
      right
      refine ⟨d, rfl, ?_⟩
      obtain ⟨-, rfl, -⟩ := newType_ok hd
      rw [declaring]
      cases d.enclosing <;> rfl

/-- An interface is refused, or it comes to those of the type. -/
theorem exec_addInterface (id : TypeId) (interface : TypeRef) (w : Workspace) :
  (∃ e, (addInterface id interface).exec w = (.error e, w))
  ∨ ∃ d, w.assembly.building id = .ok d ∧ d.handle.kind.isEnum = false
    ∧ w.acceptInterface d.fullName interface = .ok ()
    ∧ (addInterface id interface).exec w = (.ok (), w.implementing id interface)
  := by
  rw [addInterface, building]
  rw [exec_bind, exec_ask]
  cases w.assembly.building id with
  | error e =>
      left
      exact ⟨e, rfl⟩
  | ok d =>
      dsimp only
      rw [exec_ite]
      split
      · left
        exact ⟨_, rfl⟩
      · next henum =>
        rw [exec_bind, exec_ask]
        cases haccepted : w.acceptInterface d.fullName interface with
        | error e =>
            left
            exact ⟨e, rfl⟩
        | ok _ =>
            right
            exact ⟨d, rfl, by simpa using henum, haccepted, rfl⟩

end Build

/-! ## Redrawing -/

/-- What an operation can do to a unit and its session. -/
inductive Workspace.Redraws (w w' : Workspace) : Prop
  | edits (h : w.Edits w')
  | declares (d : TypeDecl) (h : w.Declares d) (heq : w' = w.declaring d)
  | rebases (id : TypeId) (d : TypeDecl) (given : TypeRef) (base : Option TypeRef)
      (hd : w.assembly.building id = .ok d) (hkind : d.handle.kind = .classType)
      (hother : given.definedId? ≠ some id) (hbase : w.acceptBase d.fullName given = .ok base)
      (heq : w' = w.rebasing id base)
  | implements (id : TypeId) (d : TypeDecl) (interface : TypeRef)
      (hd : w.assembly.building id = .ok d) (hkind : d.handle.kind.isEnum = false)
      (hinterface : w.acceptInterface d.fullName interface = .ok ())
      (heq : w' = w.implementing id interface)
  | realizes (new : List RealizedType) (unit : FinalizedUnit) (h : w.Realizes new)
      (hopen : w.assembly.finalized = none) (hrun : Build.finalize.exec w = (.ok unit, w'))
      (heq : w' = { w.realizing new with
        assembly := { (w.realizing new).assembly with finalized := some unit } })

/-- Every operation redraws the unit in one of the ways that are listed. -/
theorem Change.redraws (c : Change ρ) (hfresh : w.Fresh) : w.Redraws (c.perform w) := by
  cases c with
  | declareType name kind spec enclosing =>
      rw [perform]
      obtain ⟨e, hexec⟩ | ⟨d, hd, hexec⟩ := Build.exec_declareType name kind spec enclosing w
      · rw [hexec]
        apply Workspace.Redraws.edits (.refl w)
      · rw [hexec]
        apply Workspace.Redraws.declares d (Workspace.declares_of_newType hfresh hd) rfl
  | setBase id given =>
      rw [perform]
      obtain ⟨e, hexec⟩ | ⟨d, base, hd, hkind, hother, hbase, hexec⟩ := Build.exec_setBase id given w
      · rw [hexec]
        apply Workspace.Redraws.edits (.refl w)
      · rw [hexec]
        apply Workspace.Redraws.rebases id d given base hd hkind hother hbase rfl
  | addInterface id interface =>
      rw [perform]
      obtain ⟨e, hexec⟩ | ⟨d, hd, hkind, hinterface, hexec⟩ :=
        Build.exec_addInterface id interface w
      · rw [hexec]
        apply Workspace.Redraws.edits (.refl w)
      · rw [hexec]
        apply Workspace.Redraws.implements id d interface hd hkind hinterface rfl
  | defineField id name t spec =>
      apply Workspace.Redraws.edits (Build.editing_defineField w id name t spec).edits
  | defineLiteral id name value =>
      apply Workspace.Redraws.edits (Build.editing_defineLiteral w id name value).edits
  | defineMethod owner name spec body =>
      apply Workspace.Redraws.edits (Build.editing_defineMethod w owner name spec body _).edits
  | defineConstructor owner spec body =>
      apply Workspace.Redraws.edits (Build.editing_defineConstructor w owner spec body).edits
  | defineProperty id name t spec =>
      apply Workspace.Redraws.edits (Build.editing_defineProperty w id name t spec).edits
  | replaceBody m body =>
      apply Workspace.Redraws.edits (Build.editing_replaceBody w m body).edits
  | setMethodAttribute m custom =>
      apply Workspace.Redraws.edits (Build.editing_setMethodAttribute w m custom).edits
  | setTypeAttribute id custom =>
      apply Workspace.Redraws.edits (Build.editing_setTypeAttribute w id custom).edits
  | finalize =>
      rw [perform]
      obtain hsame | ⟨new, unit, hnew, hopen, hexec⟩ := Build.finalize_outcome hfresh
      · rw [hsame]
        apply Workspace.Redraws.edits (.refl w)
      · apply Workspace.Redraws.realizes new unit hnew hopen <;> rw [hexec]

namespace Workspace

/-- The declarations of a unit after a new one. -/
theorem decl?_declaring
    {d : TypeDecl} (hunused : ∀ e ∈ w.assembly.types, e.id ≠ d.id) (x : TypeId) :
  (w.declaring d).assembly.decl? x
    = ((w.assembly.decl? x).or (if d.id = x then some d else none)).map fun o =>
        if d.enclosing = some x then { o with nested := o.nested ++ [d.id] } else o
  := by
  have henter : (w.enterType d).assembly.decl? x
      = (w.assembly.decl? x).or (if d.id = x then some d else none) := by
    simp only [Assembly.decl?, types_enterType hunused, List.find?_append, List.find?_cons,
      List.find?_nil]
    by_cases hid : d.id = x <;> simp [hid, beq_eq_false_iff_ne.mpr]
  rw [declaring]
  split
  · next outer houter =>
    change ((w.enterType d).assembly.update outer _).decl? x = _
    rw [Assembly.decl?_update _ outer (fun o => { o with nested := o.nested ++ [d.id] })
      fun _ => rfl, henter, houter]
    cases ho : (w.assembly.decl? x).or (if d.id = x then some d else none) with
    | none => rfl
    | some o =>
        have hid : o.id = x := by
          rw [← henter] at ho
          apply Assembly.decl?_id ho
        simp only [Option.map_some, hid, Option.some.injEq, eq_comm]
  · next houter =>
    rw [henter, houter]
    simp

/-- The declarations of a unit after one has been changed. -/
theorem decl?_updated
    (w : Workspace) (id : TypeId) {f : TypeDecl → TypeDecl} (hf : ∀ d, (f d).handle = d.handle)
    (x : TypeId) :
  (w.updated id f).assembly.decl? x = (w.assembly.decl? x).map fun d => if x = id then f d else d
  := by
  change (w.assembly.update id f).decl? x = _
  rw [Assembly.decl?_update _ _ _ hf]
  cases hd : w.assembly.decl? x with
  | none => rfl
  | some d => simp only [Option.map_some, Assembly.decl?_id hd]

theorem decl?_rebasing (w : Workspace) (id : TypeId) (base : Option TypeRef) (x : TypeId) :
  (w.rebasing id base).assembly.decl? x
    = (w.assembly.decl? x).map fun d => if x = id then { d with base := base } else d
  :=
  decl?_updated w id (f := fun d => { d with base := base }) (fun _ => rfl) x

theorem implementing_handle (interface : TypeRef) (d : TypeDecl) :
  (if d.interfaces.contains interface then d
    else { d with interfaces := d.interfaces ++ [interface] } : TypeDecl).handle = d.handle
  := by
  split <;> rfl

theorem decl?_implementing (w : Workspace) (id : TypeId) (interface : TypeRef) (x : TypeId) :
  (w.implementing id interface).assembly.decl? x
    = (w.assembly.decl? x).map fun d =>
        if x = id then
          if d.interfaces.contains interface then d
          else { d with interfaces := d.interfaces ++ [interface] }
        else d
  := by
  apply decl?_updated w id (implementing_handle interface)

/-- A type is open as long as it is being built. -/
theorem open_of_building {id : TypeId} {d : TypeDecl} (hd : w.assembly.building id = .ok d) :
  w.Open id
  :=
  (Edits.refl w).open_of_building hd

/-! ## Realized declarations -/

/-- A realized type is never declared anew. -/
theorem Redraws.frozen
    (h : w.Redraws w') {x : TypeId} {d : TypeDecl} (hd : w.assembly.decl? x = some d)
    (hrealized : d.state = .realized) :
  w'.assembly.decl? x = some d
  := by
  have hother : ∀ {id d'}, w.assembly.building id = .ok d' → x ≠ id := by
    rintro id d' hbuilding rfl
    have := open_of_building hbuilding d hd
    rw [hrealized] at this
    cases this
  cases h with
  | edits h =>
      have hx := h.decl x
      rw [hd] at hx
      obtain ⟨d', hd', hedited⟩ := rel_some hx
      rw [hd', hedited.frozen hrealized]
  | declares d' h heq =>
      rw [heq, decl?_declaring h.unused, hd, Option.some_or, Option.map_some]
      split
      · next houter =>
        obtain ⟨o, ho⟩ := h.enclosing x houter
        cases hother ho rfl
      · rfl
  | rebases id d' given base hd' hkind hother' hbase heq =>
      rw [heq, decl?_rebasing, hd, Option.map_some, if_neg (hother hd')]
  | implements id d' interface hd' hkind hinterface heq =>
      rw [heq, decl?_implementing, hd, Option.map_some, if_neg (hother hd')]
  | realizes new unit h hopen hrun heq =>
      rw [heq]
      change (w.realizing new).assembly.decl? x = _
      rw [decl?_realizing, hd, Option.map_some]
      have hnot : x ∉ new.map (·.id) := by
        intro hmem
        obtain ⟨t, ht, rfl⟩ := List.mem_map.mp hmem
        obtain ⟨d', hd', hbuilding, -⟩ := h.decl ht
        rw [hd] at hd'
        cases hd'
        rw [hrealized] at hbuilding
        cases hbuilding
      rw [if_neg hnot]

end Workspace

/-- As long as a unit is not finalized, none of its types is realized. -/
def Assembly.Opened (a : Assembly) : Prop :=
  a.finalized = none → ∀ x d, a.decl? x = some d → d.state = .building

/-- The types of a unit stay open until it is finalized. -/
theorem Workspace.Redraws.opened (h : w.Redraws w') (hopened : w.assembly.Opened) :
  w'.assembly.Opened
  := by
  cases h with
  | edits h =>
      have hfinalized : w'.assembly.finalized = w.assembly.finalized :=
        (congrArg Assembly.finalized h.assembly :)
      intro hopen x d hd
      have hx := h.decl x
      rw [hd] at hx
      obtain ⟨d₀, hd₀, hedited⟩ := rel_of_some hx
      rw [hedited.state]
      apply hopened (hfinalized.symm.trans hopen) x d₀ hd₀
  | declares d' h heq =>
      subst heq
      intro _ x d hd
      rw [decl?_declaring h.unused] at hd
      obtain ⟨d₀, hd₀, rfl⟩ := Option.map_eq_some_iff.mp hd
      have hstate : d₀.state = .building := by
        obtain hold | ⟨-, hnew⟩ := Option.or_eq_some_iff.mp hd₀
        · apply hopened h.finalized x d₀ hold
        · split at hnew
          · cases hnew
            apply h.state
          · cases hnew
      split <;> exact hstate
  | rebases id d' given base hd' hkind hother hbase heq =>
      subst heq
      intro hopen x d hd
      rw [decl?_rebasing] at hd
      obtain ⟨d₀, hd₀, rfl⟩ := Option.map_eq_some_iff.mp hd
      have hstate := hopened hopen x d₀ hd₀
      split <;> exact hstate
  | implements id d' interface hd' hkind hinterface heq =>
      subst heq
      intro hopen x d hd
      rw [decl?_implementing] at hd
      obtain ⟨d₀, hd₀, rfl⟩ := Option.map_eq_some_iff.mp hd
      have hstate := hopened hopen x d₀ hd₀
      split
      · split <;> exact hstate
      · exact hstate
  | realizes new unit h hopen hrun heq =>
      subst heq
      rintro ⟨⟩

/-! ## Regular declarations -/

/-- A declaration refers to a class as its base and to interfaces as its interfaces, has the
attributes that its kind and its modifier come to, and has proper methods. -/
structure TypeDecl.Regular (d : TypeDecl) : Prop where
  base : ∀ base, d.base = some base →
    d.handle.kind = .classType ∧ ∃ id, base = .defined ⟨id, .classType⟩
  interfaces : ∀ i ∈ d.interfaces, ∃ id, i = .defined ⟨id, .interfaceType⟩
  attributes : d.attributes = .of d.handle.kind d.visibility d.modifier d.enclosing.isSome
  methods : ∀ m ∈ d.methods, m.Proper

theorem acceptBase_some
    {owner : String} {given base : TypeRef} (h : w.acceptBase owner given = .ok (some base)) :
  given = base ∧ ∃ id, base = .defined ⟨id, .classType⟩ ∧ (w.view? id).isSome
  := by
  unfold Workspace.acceptBase at h
  split at h
  · cases h
  · next id =>
    obtain ⟨s, hs, h⟩ := exists_of_bind_ok h
    cases h
    refine ⟨rfl, id, rfl, ?_⟩
    rw [Workspace.view_ok hs]
    rfl
  · cases h

/-- What is accepted as an interface is one, and is known. -/
theorem acceptInterface_ok
    {owner : String} {interface : TypeRef} (h : w.acceptInterface owner interface = .ok ()) :
  ∃ id, interface = .defined ⟨id, .interfaceType⟩ ∧ (w.view? id).isSome
  := by
  unfold Workspace.acceptInterface at h
  split at h
  · next id =>
    obtain ⟨s, hs, h⟩ := exists_of_bind_ok h
    refine ⟨id, rfl, ?_⟩
    rw [Workspace.view_ok hs]
    rfl
  · cases h

/-- Each of the interfaces that are accepted is one, and is known. -/
theorem acceptInterfaces_ok
    {owner : String} {given accepted interfaces : List TypeRef}
    (h : w.acceptInterfaces owner accepted given = .ok interfaces) :
  ∀ i ∈ interfaces, i ∈ accepted ∨ ∃ id, i = .defined ⟨id, .interfaceType⟩ ∧ (w.view? id).isSome
  := by
  induction given generalizing accepted with
  | nil =>
      cases h
      intro i hi
      left
      apply hi
  | cons interface rest ih =>
      rw [Workspace.acceptInterfaces] at h
      obtain ⟨_, hone, h⟩ := exists_of_bind_ok h
      intro i hi
      obtain hi | hi := ih h i hi
      · split at hi
        · left
          apply hi
        · obtain hi | hi := List.mem_append.mp hi
          · left
            apply hi
          · right
            obtain rfl := List.mem_singleton.mp hi
            apply acceptInterface_ok hone
      · right
        apply hi

namespace TypeDecl.Regular

variable {d d' : TypeDecl}

/-- A declaration that has kept its outline. -/
theorem edited (h : d.Regular) (hedited : d.Edited d') : d'.Regular := by
  have hbase : d'.base = d.base := (congrArg TypeDecl.base hedited.outline :)
  have hinterfaces : d'.interfaces = d.interfaces := (congrArg TypeDecl.interfaces hedited.outline :)
  have hattributes : d'.attributes = d.attributes := (congrArg TypeDecl.attributes hedited.outline :)
  have hvisibility : d'.visibility = d.visibility := (congrArg TypeDecl.visibility hedited.outline :)
  have hmodifier : d'.modifier = d.modifier := (congrArg TypeDecl.modifier hedited.outline :)
  have henclosing : d'.enclosing = d.enclosing := (congrArg TypeDecl.enclosing hedited.outline :)
  constructor
  · rw [hbase, hedited.handle]
    apply h.base
  · rw [hinterfaces]
    apply h.interfaces
  · rw [hattributes, hedited.handle, hvisibility, hmodifier, henclosing]
    apply h.attributes
  · intro m hm
    obtain ⟨m₀, hm₀, hhead⟩ | hproper := hedited.methods m hm
    · apply (h.methods m₀ hm₀).of_head hhead
    · apply hproper

/-- A new declaration. -/
theorem of_declares (h : w.Declares d) : d.Regular := by
  constructor
  · intro base hbase
    obtain ⟨hkind, given, haccepted⟩ := h.base base hbase
    obtain ⟨-, id, hid, -⟩ := acceptBase_some haccepted
    exact ⟨hkind, id, hid⟩
  · intro i hi
    obtain ⟨given, hnone | haccepted⟩ := h.interfaces
    · rw [hnone] at hi
      cases hi
    · obtain hnil | ⟨id, hid, -⟩ := acceptInterfaces_ok haccepted i hi
      · cases hnil
      · exact ⟨id, hid⟩
  · apply h.attributes
  · rw [h.methods]
    simp

end TypeDecl.Regular

/-- All declarations of a unit are regular. -/
def Assembly.Regular (a : Assembly) : Prop :=
  ∀ x d, a.decl? x = some d → d.Regular

/-- Declarations stay regular whatever is done to the unit. -/
theorem Workspace.Redraws.regular (h : w.Redraws w') (hregular : w.assembly.Regular) :
  w'.assembly.Regular
  := by
  cases h with
  | edits h =>
      intro x d hd
      have hx := h.decl x
      rw [hd] at hx
      obtain ⟨d₀, hd₀, hedited⟩ := rel_of_some hx
      apply (hregular x d₀ hd₀).edited hedited
  | declares d' h heq =>
      subst heq
      intro x d hd
      rw [decl?_declaring h.unused] at hd
      obtain ⟨d₀, hd₀, rfl⟩ := Option.map_eq_some_iff.mp hd
      have hd₀ : d₀.Regular := by
        obtain hold | ⟨-, hnew⟩ := Option.or_eq_some_iff.mp hd₀
        · apply hregular x d₀ hold
        · split at hnew
          · cases hnew
            apply TypeDecl.Regular.of_declares h
          · cases hnew
      split
      · exact ⟨hd₀.base, hd₀.interfaces, hd₀.attributes, hd₀.methods⟩
      · apply hd₀
  | rebases id d' given base hd' hkind hother hbase heq =>
      subst heq
      intro x d hd
      rw [decl?_rebasing] at hd
      obtain ⟨d₀, hd₀, rfl⟩ := Option.map_eq_some_iff.mp hd
      have hregular₀ := hregular x d₀ hd₀
      split
      · next hx =>
        subst hx
        obtain ⟨hd', -⟩ := Assembly.building_ok hd'
        rw [hd₀] at hd'
        cases hd'
        refine ⟨?_, hregular₀.interfaces, hregular₀.attributes, hregular₀.methods⟩
        rintro b rfl
        obtain ⟨-, id, hid, -⟩ := acceptBase_some hbase
        exact ⟨hkind, id, hid⟩
      · apply hregular₀
  | implements id d' interface hd' hkind hinterface heq =>
      subst heq
      intro x d hd
      rw [decl?_implementing] at hd
      obtain ⟨d₀, hd₀, rfl⟩ := Option.map_eq_some_iff.mp hd
      have hregular₀ := hregular x d₀ hd₀
      split
      · split
        · apply hregular₀
        · refine ⟨hregular₀.base, ?_, hregular₀.attributes, hregular₀.methods⟩
          intro i hi
          obtain hi | hi := List.mem_append.mp hi
          · apply hregular₀.interfaces i hi
          · obtain rfl := List.mem_singleton.mp hi
            obtain ⟨id, hid, -⟩ := acceptInterface_ok hinterface
            exact ⟨id, hid⟩
      · apply hregular₀
  | realizes new unit h hopen hrun heq =>
      subst heq
      intro x d hd
      change (w.realizing new).assembly.decl? x = _ at hd
      rw [decl?_realizing] at hd
      obtain ⟨d₀, hd₀, rfl⟩ := Option.map_eq_some_iff.mp hd
      have hregular₀ := hregular x d₀ hd₀
      split
      · exact ⟨hregular₀.base, hregular₀.interfaces, hregular₀.attributes, hregular₀.methods⟩
      · apply hregular₀

end ManagedCode
