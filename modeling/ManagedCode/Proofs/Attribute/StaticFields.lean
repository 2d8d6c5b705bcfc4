import ManagedCode.Proofs.Assembly.FieldNames
import ManagedCode.Proofs.Machine.BackedProperties
import ManagedCode.Proofs.Machine.MinimalBodies
import ManagedCode.Proofs.Machine.StaticSlots

/-!
# Static fields in attributes

A static field or a literal of a realized type can be read twice: by a host, from a machine that
runs no initializers, and by an attribute expression, in the session.  Both readings succeed, for
every declared default, and give the value that the field starts with, with one exception
(`Project.readings_of_field`): a boolean that has been declared for a field of another type is a
boolean in the attribute, and an integer for the host, who gets what has been on the stack.
-/

namespace ManagedCode

variable {ρ : Type} {verify : Bool}

namespace Value

/-- A Boolean is coerced only to a type of Booleans. -/
theorem coerceTo_bool (b : Bool) {t : TypeRef} (ht : t.form ≠ .bool) : (bool b).coerceTo t = bool b
  := by
  unfold coerceTo
  generalize t.form = form at ht
  cases form with
  | bool => exact absurd rfl ht
  | signed w | unsigned w => cases w <;> rfl
  | float w => cases w <;> rfl
  | _ => rfl

/-- Only a Boolean constant is a Boolean. -/
theorem ofConstant_eq_bool {c : Constant} {b : Bool} : ofConstant c = bool b ↔ c = .bool b := by
  cases c <;> simp [ofConstant]

/-- A constant can be used in an attribute as it is. -/
theorem ofValue_ofConstant (c : Constant) :
  AttributeValue.ofValue (ofConstant c) = .ok (.ofConstant c)
  := by
  cases c <;> rfl

/-- What a field starts with can be an argument of an attribute. -/
theorem exists_ofValue_ofConstant (c : Constant) (t : TypeRef) :
  ∃ a, AttributeValue.ofValue ((ofConstant c).coerceTo t) = .ok a
  := by
  unfold coerceTo
  generalize t.form = form
  cases form with
  | signed w | unsigned w => cases w <;> cases c <;> exact ⟨_, rfl⟩
  | float w => cases w <;> cases c <;> exact ⟨_, rfl⟩
  | _ => cases c <;> exact ⟨_, rfl⟩

/-- The default of every type can be used in an attribute. -/
theorem exists_ofValue_initial (t : TypeRef) :
  ∃ a, AttributeValue.ofValue (initial t) = .ok a
  := by
  unfold initial
  cases t.form with
  | signed w | unsigned w => cases w <;> exact ⟨_, rfl⟩
  | float w => cases w <;> exact ⟨_, rfl⟩
  | _ => exact ⟨_, rfl⟩

end Value

/-- Different values are different in an attribute. -/
theorem AttributeValue.eq_of_ofValue {u v : Value} {a : AttributeValue} (hu : ofValue u = .ok a)
    (hv : ofValue v = .ok a) :
  u = v
  := by
  cases u <;> cases hu <;> cases v <;> cases hv <;> rfl

/-! ## Slots of static fields -/

/-- The fields that a type has once: a literal has no slot, and the slot of any other starts with
the value of the field. -/
def FieldLayout.Shares (l : FieldLayout) : Prop :=
  ∀ f ∈ l.fields, f.isInstance = false →
    (f.isLiteral = true ∧ f.slot = .literal)
    ∨ f.isLiteral = false ∧ ∃ k, f.slot = .static k ∧ l.staticDefaults[k]? = some f.initial

/-- A further field has its default where it is stored. -/
theorem FieldLayout.Shares.push {l : FieldLayout} (h : l.Shares) (owner : TypeId) (f : FieldDecl) :
  (l.push owner f).Shares
  := by
  have hnext : ∃ (r : RealizedField) (added : List Value),
      (l.push owner f).fields = l.fields ++ [r]
      ∧ (l.push owner f).staticDefaults = l.staticDefaults ++ added
      ∧ (r.isInstance = false →
        (r.isLiteral = true ∧ r.slot = .literal)
        ∨ r.isLiteral = false ∧ r.slot = .static l.staticDefaults.length
          ∧ added = [r.initial]) := by
    rw [FieldLayout.push]
    cases hliteral : f.attributes.isLiteral with
    | true => exact ⟨_, [], rfl, (List.append_nil _).symm, fun _ => .inl ⟨hliteral, rfl⟩⟩
    | false =>
        cases hstatic : f.isStatic with
        | true => exact ⟨_, _, rfl, rfl, fun _ => .inr ⟨hliteral, rfl, rfl⟩⟩
        | false =>
            have hinstance : f.isInstance = true := by
              rw [FieldDecl.isInstance, hliteral, hstatic]
              rfl
            refine ⟨_, [], rfl, (List.append_nil _).symm, fun hshared => ?_⟩
            exact absurd (hinstance.symm.trans hshared) Bool.noConfusion
  obtain ⟨r, added, hfields, hdefaults, hr⟩ := hnext
  intro g hg hshared
  rw [hfields] at hg
  rw [hdefaults]
  obtain hg | hg := List.mem_append.mp hg
  · obtain hliteral | ⟨hliteral, k, hslot, hvalue⟩ := h g hg hshared
    · left
      exact hliteral
    · right
      refine ⟨hliteral, k, hslot, ?_⟩
      rw [List.getElem?_append_left (List.getElem?_eq_some_iff.mp hvalue).1, hvalue]
  · obtain rfl := List.mem_singleton.mp hg
    obtain hliteral | ⟨hliteral, hslot, rfl⟩ := hr hshared
    · left
      exact hliteral
    · right
      exact ⟨hliteral, _, hslot, List.getElem?_concat_length⟩

/-- So have all fields of a type. -/
theorem FieldLayout.shares_ofFields
    (owner : TypeId) (inherited : List Value) (ds : List FieldDecl) :
  (ofFields owner inherited ds).Shares
  := by
  have hfrom : ∀ l : FieldLayout, l.Shares → (ds.foldl (·.push owner ·) l).Shares := by
    induction ds with
    | nil => exact fun l h => h
    | cons f ds ih => exact fun l h => ih _ (h.push owner f)
  exact hfrom ⟨[], inherited, []⟩ fun f hf => nomatch hf

/-- A type is laid out so. -/
theorem Workspace.layoutType_shares
    {w : Workspace} {id : TypeId} {t : RealizedType} (h : w.layoutType id = .ok t) :
  FieldLayout.Shares ⟨t.fields, t.instanceDefaults, t.staticDefaults⟩
  := by
  rw [layoutType] at h
  obtain ⟨d, -, h⟩ := exists_of_bind_ok h
  obtain ⟨base, -, h⟩ := exists_of_bind_ok h
  obtain ⟨methods, -, h⟩ := exists_of_bind_ok h
  obtain ⟨⟨all, map⟩, -, h⟩ := exists_of_bind_ok h
  obtain ⟨_, -, h⟩ := exists_of_bind_ok h
  cases h
  exact FieldLayout.shares_ofFields id _ d.fields

/-- So are all types of a session. -/
theorem Layered.shares
    {decls : TypeId → Option TypeDecl} {ts : List RealizedType} (h : Layered verify decls ts)
    {t : RealizedType} (ht : t ∈ ts) :
  FieldLayout.Shares ⟨t.fields, t.instanceDefaults, t.staticDefaults⟩
  := by
  induction h with
  | nil => cases ht
  | snoc h hsettled hverify hd hbuilding hdecl hkept hlayout ih =>
      obtain ht | ht := List.mem_append.mp ht
      · exact ih ht
      · obtain rfl := List.mem_singleton.mp ht
        exact Workspace.layoutType_shares hlayout

/-! ## What fields start with -/

namespace RealizedField

/-- A boolean is declared for a field that has a slot and is of another form. -/
structure Misfits (f : RealizedField) (b : Bool) : Prop where
  stored : f.isLiteral = false
  constant : f.constant = some (.bool b)
  form : f.type.form ≠ .bool

variable {f : RealizedField}

/-- A field with a constant starts with it, coerced. -/
theorem initial_eq_of_constant {c : Constant} (hc : f.constant = some c) :
  f.initial = (Value.ofConstant c).coerceTo f.type
  := by
  have hdeclared : f.declared.constant = some c := hc
  rw [initial, FieldDecl.initial, hdeclared]
  rfl

/-- A field without one starts with the default of its type. -/
theorem initial_eq_of_none (hnone : f.constant = none) : f.initial = .initial f.type := by
  have hdeclared : f.declared.constant = none := hnone
  rw [initial, FieldDecl.initial, hdeclared]
  rfl

/-- A literal has the value that it would start with. -/
theorem literalValue_eq {c : Constant} (hc : f.constant = some c) : f.literalValue = f.initial := by
  rw [literalValue, initial_eq_of_constant hc, hc]
  rfl

/-- What a field starts with comes back from the stack, unless it is a boolean that misfits. -/
theorem coerceTo_toStack_initial (hstored : f.isLiteral = false) :
  f.initial.toStack.coerceTo f.type = f.initial ↔ ¬∃ b, f.Misfits b
  := by
  cases hconstant : f.constant with
  | none =>
      rw [initial_eq_of_none hconstant]
      refine iff_of_true (Value.coerceTo_initial f.type) ?_
      rintro ⟨b, hmisfits⟩
      cases hconstant.symm.trans hmisfits.constant
  | some c =>
      rw [initial_eq_of_constant hconstant, Value.coerceTo_toStack_coerceTo_iff]
      apply not_congr
      apply exists_congr
      intro b
      rw [Value.ofConstant_eq_bool]
      constructor
      · rintro ⟨rfl, hform⟩
        exact ⟨hstored, hconstant, hform⟩
      · intro hmisfits
        exact ⟨Option.some.inj (hconstant.symm.trans hmisfits.constant), hmisfits.form⟩

/-- A field whose Boolean does not fit starts with it all the same. -/
theorem Misfits.initial {b : Bool} (h : f.Misfits b) : f.initial = .bool b := by
  rw [initial_eq_of_constant h.constant, Value.ofConstant]
  exact Value.coerceTo_bool b h.form

/-- What a field starts with can be used in an attribute. -/
theorem exists_ofValue_initial (f : RealizedField) :
  ∃ a, AttributeValue.ofValue f.initial = .ok a
  := by
  cases hconstant : f.constant with
  | none =>
      rw [initial_eq_of_none hconstant]
      exact Value.exists_ofValue_initial f.type
  | some c =>
      rw [initial_eq_of_constant hconstant]
      exact Value.exists_ofValue_ofConstant c f.type

end RealizedField

/-! ## Reading -/

/-- A field of a realized type is found under its handle and under its name. -/
structure Session.Lists (s : Session) (t : RealizedType) (f : RealizedField) : Prop where
  realized : s.realized? t.id = some t
  owner : f.handle.owner = t.id
  field : t.fields[f.handle.index]? = some f
  named : s.fieldNamed t.id f.name = .ok f

/-- What a host works on that has done nothing yet, on a machine that runs no initializers. -/
def HostState.idle (limits : Limits) (heap : Heap) : HostState :=
  ⟨{ limits := limits, runInitializers := false }, heap⟩

/-- What a static field or a literal of a type is read as, by such a host and by an attribute
expression. -/
structure Session.ReadsTwice (s : Session) (limits : Limits) (heap : Heap) (t : RealizedType)
    (f : RealizedField) (v : Value) (a : AttributeValue) : Prop where
  host : ((Host.readStaticField s t.id f.name).exec (.idle limits heap)).1 = .ok v
  folded : AttributeTerm.evaluate (some s) (.staticField f.handle) = pure a

/-- A static field that is read is folded. -/
theorem AttributeTerm.evaluate_staticField
    {session : Option Session} {f : FieldRef} {a : AttributeValue}
    (h : readStatic session f = .ok a) :
  evaluate session (.staticField f) = pure a
  := by
  rw [evaluate]
  rw [h]
  rfl

namespace Session.Lists

variable {s : Session} {t : RealizedType} {f : RealizedField} (h : s.Lists t f)

include h

/-- A literal has its value for the host, and its constant in attributes. -/
theorem reads_literal
    (hslot : f.slot = .literal) {c : Constant} (hc : f.constant = some c) (limits : Limits)
    (heap : Heap) :
  s.ReadsTwice limits heap t f f.initial (.ofConstant c)
  := by
  constructor
  · rw [Host.readStaticField, h.named, ← RealizedField.literalValue_eq hc]
    simp only [Host.lift, pure_bind, hslot]
    rfl
  · apply AttributeTerm.evaluate_staticField
    rw [AttributeTerm.readStatic]
    simp only [h.owner, h.realized, RealizedType.field?, h.field, hslot, hc]

/-- A slot is read as it has been laid out. -/
theorem reads_stored
    {k : Nat} {v : Value} {a : AttributeValue} (hslot : f.slot = .static k)
    (hvalue : t.staticDefaults[k]? = some v) (ha : AttributeValue.ofValue v = .ok a)
    (limits : Limits) (heap : Heap) :
  s.ReadsTwice limits heap t f (v.toStack.coerceTo f.type) a
  := by
  constructor
  · let machine : Machine :=
      { limits := limits
        runInitializers := false
        initialized := [t.id]
        statics := [(t.id, t.staticDefaults.map Value.toStack)] }
    have hprepare : (HostState.idle limits heap).machine.prepare s t.id = (.ok none, machine) := by
      have hnew : (HostState.idle limits heap).machine.initialized.contains t.id = false := rfl
      rw [Machine.prepare, hnew, h.realized]
      dsimp only
      cases t.typeInitializer <;> rfl
    have hstatic : machine.static t.id k = .ok v.toStack := by
      simp [Machine.static, machine, hvalue]
    rw [Host.readStaticField_eq h.named hslot, h.owner, exec_bind, Host.exec_initializeType,
      hprepare]
    change ((do
      let v ← Host.lift (machine.static t.id k)
      return v.coerceTo f.type : Host Value).exec ⟨machine, heap⟩).1 = _
    rw [hstatic]
    rfl
  · apply AttributeTerm.evaluate_staticField
    rw [AttributeTerm.readStatic]
    simp only [h.owner, h.realized, RealizedType.field?, h.field, hslot, hvalue, ha]

end Session.Lists

namespace Project

/-- In every session, the fields of realized types are found under their handles and names, and
those that are literals have a constant of the form of their type. -/
theorem lists_run
    (verify : Bool) (history : List (HostEvent ρ)) {t : RealizedType} {f : RealizedField}
    (ht : t ∈ ((empty verify).run history).session.types) (hf : f ∈ t.fields) :
  ((empty verify).run history).session.Lists t f ∧ f.declared.Formed
  := by
  have hlayered := stacked_run verify history
  have hfielded := fielded_run verify history
  generalize (empty verify).run history = p at *
  obtain ⟨d, hd, hlays⟩ := hlayered.fields ht
  obtain ⟨j, u, hu, hdecl⟩ := exists_of_decl? hd
  have hd : d.Fielded := hfielded j u hu t.id d hdecl
  obtain ⟨i, hi⟩ := List.getElem?_of_mem hf
  obtain ⟨hhandle, -⟩ := hlayered.fieldAt_of_getElem? ht hi
  constructor
  · refine ⟨hlayered.find ht, congrArg FieldRef.owner hhandle, ?_, ?_⟩
    · rw [hhandle, hi]
    · apply hlayered.findAt_self ht
      apply find?_of_nodup _ hf
      have hnames : t.fields.map (·.name) = d.fields.map (·.name) := by
        rw [← hlays.declared, List.map_map]
        rfl
      rw [hnames]
      exact hd.distinct
  · apply hd.formed
    rw [← hlays.declared]
    exact List.mem_map_of_mem hf

/-- A static field or a literal of a realized type is read by the host and by an attribute
expression.  Both get what the field starts with, except that a boolean which misfits its field is
an integer for the host. -/
theorem readings_of_field
    (verify : Bool) (history : List (HostEvent ρ)) {t : RealizedType} {f : RealizedField}
    (ht : t ∈ ((empty verify).run history).session.types) (hf : f ∈ t.fields)
    (hshared : f.isInstance = false) (limits : Limits) (heap : Heap) :
  ∃ v a, ((empty verify).run history).session.ReadsTwice limits heap t f v a
    ∧ AttributeValue.ofValue f.initial = .ok a
    ∧ (AttributeValue.ofValue v = .ok a ↔ ¬∃ b, f.Misfits b)
    ∧ ∀ b, f.Misfits b → a = .bool b ∧ v = (Value.i32 (if b then 1 else 0)).coerceTo f.type
  := by
  obtain ⟨hlists, hformed⟩ := lists_run verify history ht hf
  obtain ⟨hliteral, hslot⟩ | ⟨hstored, k, hslot, hvalue⟩ :=
    (stacked_run verify history).shares ht f hf hshared
  · obtain ⟨c, hconstant, hcoerce⟩ := hformed hliteral
    have hofValue : AttributeValue.ofValue f.initial = .ok (.ofConstant c) := by
      rw [RealizedField.initial_eq_of_constant hconstant]
      exact (congrArg AttributeValue.ofValue hcoerce).trans (Value.ofValue_ofConstant c)
    have hnot : ¬∃ b, f.Misfits b := by
      rintro ⟨b, hmisfits⟩
      cases hliteral.symm.trans hmisfits.stored
    exact ⟨_, _, hlists.reads_literal hslot hconstant limits heap, hofValue,
      iff_of_true hofValue hnot, fun b hmisfits => absurd ⟨b, hmisfits⟩ hnot⟩
  · obtain ⟨a, ha⟩ := f.exists_ofValue_initial
    refine ⟨_, a, hlists.reads_stored hslot hvalue ha limits heap, ha, ?_, ?_⟩
    · rw [← RealizedField.coerceTo_toStack_initial hstored]
      constructor
      · intro hsame
        exact AttributeValue.eq_of_ofValue hsame ha
      · intro hsame
        rw [hsame, ha]
    · intro b hmisfits
      rw [hmisfits.initial] at ha ⊢
      cases ha
      exact ⟨rfl, rfl⟩

/-- A class with two static fields that are declared to be true, one of them an integer. -/
def flags : List (HostEvent Unit) :=
  [ .build (.openUnit "A"),
    .build (.change 0 (.declareType "T" .classType {} none)),
    .build (.change 0 (.defineField ⟨1⟩ "X" (.primitive .i32)
      { modifier := .isStatic, default := some (.bool true) })),
    .build (.change 0 (.defineField ⟨1⟩ "Y" (.primitive .bool)
      { modifier := .isStatic, default := some (.bool true) })),
    .build (.change 0 .finalize)]

/-- Of two static fields, the one with a Boolean that does not fit its type is read in two ways. -/
theorem readings_of_flags :
  ∃ t f g, ((empty true).run flags).session.types = [t] ∧ t.fields = [f, g]
    ∧ f.Misfits true ∧ ((empty true).run flags).session.ReadsTwice {} {} t f (.i32 1) (.bool true)
    ∧ (¬∃ b, g.Misfits b)
    ∧ ∃ v a, ((empty true).run flags).session.ReadsTwice {} {} t g v a
      ∧ AttributeValue.ofValue v = .ok a
  := by
  obtain ⟨t, f, g, htypes, hfields, hshared, hshared', htype, hf, hg⟩ : ∃ t f g,
      ((empty true).run flags).session.types = [t] ∧ t.fields = [f, g]
      ∧ f.isInstance = false ∧ g.isInstance = false ∧ f.type = .primitive .i32
      ∧ f.Misfits true ∧ ¬∃ b, g.Misfits b := by
    refine ⟨_, _, _, rfl, rfl, rfl, rfl, rfl, ⟨rfl, rfl, by decide⟩, ?_⟩
    rintro ⟨b, hmisfits⟩
    exact hmisfits.form rfl
  have ht : t ∈ ((empty true).run flags).session.types := by simp [htypes]
  obtain ⟨v, a, hreads, -, -, hmisfit⟩ :=
    readings_of_field true flags ht (f := f) (by simp [hfields]) hshared {} {}
  obtain ⟨rfl, rfl⟩ := hmisfit true hf
  obtain ⟨v', a', hreads', -, hsame, -⟩ :=
    readings_of_field true flags ht (f := g) (by simp [hfields]) hshared' {} {}
  rw [htype] at hreads
  exact ⟨t, f, g, htypes, hfields, hf, hreads, hg, v', a', hreads', hsame.mpr hg⟩

/-- The two readings are not always the same. -/
theorem not_reads_alike :
  ¬ ∀ (history : List (HostEvent Unit)) (t : RealizedType) (f : RealizedField),
      t ∈ ((empty true).run history).session.types → f ∈ t.fields → f.isInstance = false →
      ∃ v a, ((empty true).run history).session.ReadsTwice {} {} t f v a
        ∧ AttributeValue.ofValue v = .ok a
  := by
  intro hclaim
  obtain ⟨t, f, ht, hf, hshared, hhost, hattribute⟩ : ∃ t f,
      t ∈ ((empty true).run flags).session.types ∧ f ∈ t.fields ∧ f.isInstance = false
      ∧ ((Host.readStaticField ((empty true).run flags).session t.id f.name).exec
        (.idle {} {})).1 = .ok (.i32 1)
      ∧ AttributeTerm.evaluate (some ((empty true).run flags).session) (.staticField f.handle)
        = pure (.bool true) :=
    ⟨_, _, List.mem_cons_self, List.mem_cons_self, rfl, rfl, rfl⟩
  obtain ⟨v, a, hreads, hsame⟩ := hclaim flags t f ht hf hshared
  cases hhost.symm.trans hreads.host
  have hfold := congrArg (·.run.run []) (hattribute.symm.trans hreads.folded)
  cases hfold
  cases hsame

end Project

end ManagedCode
