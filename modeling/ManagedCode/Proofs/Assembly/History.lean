import ManagedCode.Proofs.Assembly.Declaring
import ManagedCode.Proofs.Assembly.Realization

/-!
# Histories

A project is a session with the units that have been opened in it.  A history is any
sequence of operations on the units of a project, those that fail included: a failing
operation leaves what it leaves.  In every project with a history, the types of all units
have numbers of their own, and the session holds exactly the types that a unit has
realized, as the unit declares them (`Project.Consistent`).
-/

namespace ManagedCode

/-- A session with the units that build in it.  Only one unit changes at a time. -/
structure Project where
  session : Session
  units : List Assembly

/-- An operation on a unit. -/
inductive Change (ρ : Type) where
  | declareType (name : String) (kind : TypeKind) (spec : TypeSpec) (enclosing : Option TypeId)
  | setBase (id : TypeId) (base : TypeRef)
  | addInterface (id : TypeId) (interface : TypeRef)
  | defineField (id : TypeId) (name : String) (t : TypeRef) (spec : FieldSpec)
  | defineLiteral (id : TypeId) (name : String) (value : Option Int64)
  | defineMethod (owner : TypeId) (name : String) (spec : MethodSpec) (body : Body ρ)
  | defineConstructor (owner : TypeId) (spec : ConstructorSpec) (body : Body ρ)
  | defineProperty (id : TypeId) (name : String) (t : TypeRef) (spec : PropertySpec ρ)
  | replaceBody (m : MethodRef) (body : Body ρ)
  | setMethodAttribute (m : MethodRef) (custom : CustomAttribute)
  | setTypeAttribute (id : TypeId) (custom : CustomAttribute)
  | finalize

/-- What happens to a project: a unit is opened, or one of its operations runs. -/
inductive Event (ρ : Type) where
  | openUnit (name : String)
  | change (unit : Nat) (c : Change ρ)

variable {ρ : Type}

/-- The workspace that an operation leaves, whatever it answers. -/
def Change.perform (w : Workspace) : Change ρ → Workspace
  | declareType name kind spec enclosing => ((Build.declareType name kind spec enclosing).exec w).2
  | setBase id base => ((Build.setBase id base).exec w).2
  | addInterface id interface => ((Build.addInterface id interface).exec w).2
  | defineField id name t spec => ((Build.defineField id name t spec).exec w).2
  | defineLiteral id name value => ((Build.defineLiteral id name value).exec w).2
  | defineMethod owner name spec body =>
      ((Build.defineMethod owner name spec body .method).exec w).2
  | defineConstructor owner spec body => ((Build.defineConstructor owner spec body).exec w).2
  | defineProperty id name t spec => ((Build.defineProperty id name t spec).exec w).2
  | replaceBody m body => ((Build.replaceBody m body).exec w).2
  | setMethodAttribute m custom => ((Build.setMethodAttribute m custom).exec w).2
  | setTypeAttribute id custom => ((Build.setTypeAttribute id custom).exec w).2
  | finalize => (Build.finalize.exec w).2

namespace Project

/-- A session in which nothing has been built. -/
def empty (verifyImplementations : Bool) : Project :=
  { session := { verifyImplementations := verifyImplementations }, units := [] }

/-- A unit with the session of its project. -/
def workspace (p : Project) (a : Assembly) : Workspace :=
  ⟨p.session, a⟩

/-- The project that an operation on one of its units leaves. -/
def put (p : Project) (unit : Nat) (w : Workspace) : Project :=
  { session := w.session, units := p.units.set unit w.assembly }

/-- An event changes one unit, and the session with it. -/
def apply (p : Project) : Event ρ → Project
  | .openUnit name => { p with units := p.units ++ [.new name] }
  | .change unit c =>
    match p.units[unit]? with
    | none => p
    | some a => p.put unit (c.perform (p.workspace a))

/-- The project after a history. -/
def after (p : Project) (history : List (Event ρ)) : Project :=
  history.foldl apply p

end Project

/-! ## What an operation does to a unit -/

/-- The numbers of the types of a unit. -/
def Assembly.ids (a : Assembly) : List TypeId :=
  a.types.map (·.id)

/-- The next number is not that of a type below it. -/
theorem Workspace.unused_of_below
    {w : Workspace} (hbelow : ∀ x ∈ w.assembly.ids, x.number < w.session.nextTypeId) {d : TypeDecl}
    (hd : d ∈ w.assembly.types) :
  d.id ≠ ⟨w.session.nextTypeId⟩
  := by
  intro hid
  have := hbelow d.id (List.mem_map_of_mem hd)
  rw [hid] at this
  apply Nat.lt_irrefl _ this

/-- A class has got another base. -/
structure Workspace.Rebases (id : TypeId) (base : Option TypeRef) (w w' : Workspace) : Prop where
  building : ∃ d, w.assembly.building id = .ok d
  eq : w' = w.updated id fun d => { d with base := base }

/-- What an operation can do to a unit and its session, other than changing a base. -/
inductive Workspace.Turn (w w' : Workspace) : Prop
  | grow (id : TypeId) (ms : List MethodDecl) (h : w.Grows id ms w')
  | opens (d : TypeDecl) (h : Build.Opens d w w')
  | realize (new : List RealizedType) (unit : FinalizedUnit) (h : w.Realizes new)
      (heq : w' = { w.realizing new with
        assembly := { (w.realizing new).assembly with finalized := some unit } })

/-- A class has been given another base. -/
def Change.Rebases (w : Workspace) (c : Change ρ) : Prop :=
  ∃ id given base, c = .setBase id given ∧ ((Build.setBase id given).exec w).1 = .ok ()
    ∧ base.bind TypeRef.definedId? = given.definedId? ∧ w.Rebases id base (c.perform w)

/-- The base class that is accepted is the one that was given. -/
theorem acceptBase_ok
    {w : Workspace} {owner : String} {given : TypeRef} {base : Option TypeRef}
    (h : w.acceptBase owner given = .ok base) :
  base.bind TypeRef.definedId? = given.definedId?
  := by
  unfold Workspace.acceptBase at h
  split at h
  · cases h
    rfl
  · obtain ⟨_, -, h⟩ := exists_of_bind_ok h
    cases h
    rfl
  · cases h

/-- An operation is a turn of its unit, unless it gives a class another base. -/
theorem Change.turn (c : Change ρ) {w : Workspace} (hfresh : w.Fresh) :
  w.Turn (c.perform w) ∨ c.Rebases w
  := by
  have hstay {α : Type} {b : Build α} (hb : Build.Stays b) : w.Turn (b.exec w).2 :=
    .grow ⟨0⟩ [] (hb ⟨0⟩ w)
  cases c with
  | setBase id given =>
      obtain ⟨e, hexec⟩ | ⟨d, base, hd, -, -, hbase, hexec⟩ := Build.exec_setBase id given w
      · left
        rw [perform, hexec]
        apply Workspace.Turn.grow ⟨0⟩ [] (.refl _ w)
      · right
        use id, given, base, rfl, congrArg Prod.fst hexec, acceptBase_ok hbase
        rw [perform, hexec]
        exact ⟨⟨d, hd⟩, rfl⟩
  | declareType name kind spec enclosing =>
      left
      rw [perform]
      obtain hsame | ⟨d, hopens⟩ := Build.declareType_outcome hfresh.unused name kind spec enclosing
      · rw [hsame]
        apply Workspace.Turn.grow ⟨0⟩ [] (.refl _ w)
      · apply Workspace.Turn.opens d hopens
  | addInterface id interface =>
      left
      apply hstay (Build.stays_addInterface id interface)
  | defineField id name t spec =>
      left
      apply hstay (Build.stays_defineField id name t spec)
  | defineLiteral id name value =>
      left
      apply hstay (Build.stays_defineLiteral id name value)
  | defineMethod owner name spec body =>
      left
      rw [perform]
      obtain ⟨answer, w', entry, target, hexec, -, hgrows⟩ | ⟨e, w', hexec, hgrows⟩ :=
        Build.defineMethod_outcome owner name spec body .method w
      · rw [hexec]
        apply Workspace.Turn.grow owner _ hgrows
      · rw [hexec]
        apply Workspace.Turn.grow owner _ hgrows
  | defineConstructor owner spec body =>
      left
      obtain ⟨ms, -, hgrows⟩ := Build.defineConstructor_outcome owner spec body w
      apply Workspace.Turn.grow owner ms hgrows
  | defineProperty id name t spec =>
      left
      obtain ⟨ms, hgrows⟩ := (Build.defineProperty_grown id name t spec w).grows
      apply Workspace.Turn.grow id ms hgrows
  | replaceBody m body =>
      left
      apply hstay (Build.stays_replaceBody m body)
  | setMethodAttribute m custom =>
      left
      apply hstay (Build.stays_setMethodAttribute m custom)
  | setTypeAttribute id custom =>
      left
      apply hstay (Build.stays_setTypeAttribute id custom)
  | finalize =>
      left
      rw [perform]
      obtain hsame | ⟨new, unit, hnew, -, hexec⟩ := Build.finalize_outcome hfresh
      · rw [hsame]
        apply Workspace.Turn.grow ⟨0⟩ [] (.refl _ w)
      · rw [hexec]
        apply Workspace.Turn.realize new unit hnew rfl

/-- What is known of the types of a session is known after an operation, if laying out one
more type keeps it. -/
theorem Change.types_perform
    (c : Change ρ) {w : Workspace} (hfresh : w.Fresh) {Q : List RealizedType → Prop}
    (hold : Q w.session.types)
    (hsnoc : ∀ {new : List RealizedType} {t : RealizedType}, w.Realizes new →
      (∀ t' ∈ (w.realizing new).session.types, t'.id ≠ t.id) →
      (w.realizing new).layoutType t.id = .ok t → Q (w.realizing new).session.types →
        Q ((w.realizing new).session.types ++ [t])) :
  Q (c.perform w).session.types
  := by
  obtain hturn | ⟨id, given, base, -, -, -, ⟨-, heq⟩⟩ := c.turn hfresh
  · cases hturn with
    | grow id ms h =>
        rw [h.session]
        apply hold
    | opens d h =>
        rw [h.session]
        apply hold
    | realize new finished h heq =>
        rw [heq]
        clear heq
        change Q (_ ++ new)
        induction h with
        | nil =>
            rw [List.append_nil]
            apply hold
        | snoc h hd hbuilding hlayout hfree ih =>
            rw [← List.append_assoc]
            apply hsnoc h _ hlayout ih
            apply (h.snoc hd hbuilding hlayout hfree).last_unrealized hfresh
  · rw [heq]
    apply hold

/-! ## What an operation keeps -/

/-- All types have numbers below the next one, those of the unit numbers of their own; the
types that are realized are in the session, as they are declared. -/
structure Workspace.Settled (w : Workspace) : Prop extends w.Fresh where
  below : ∀ x ∈ w.assembly.ids, x.number < w.session.nextTypeId
  taken : ∀ t ∈ w.session.types, t.id.number < w.session.nextTypeId
  mirrored : ∀ {x : TypeId} {d : TypeDecl}, w.assembly.decl? x = some d → d.state = .realized →
    ∃ t, w.session.realized? x = some t ∧ t.Mirrors d
  distinct : (w.session.types.map (·.id)).Nodup

/-- A workspace that an operation has left: types may have been added to the unit, and
types of the unit to the session. -/
structure Workspace.Follows (w w' : Workspace) : Prop where
  nodup : w'.assembly.ids.Nodup
  ids : ∀ x ∈ w'.assembly.ids, x ∈ w.assembly.ids ∨ x.number = w.session.nextTypeId
  next : w.session.nextTypeId ≤ w'.session.nextTypeId
  below : ∀ x ∈ w'.assembly.ids, x.number < w'.session.nextTypeId
  kept : ∀ {x : TypeId} {t : RealizedType}, w.session.realized? x = some t →
    w'.session.realized? x = some t
  mirrored : ∀ {x : TypeId} {d : TypeDecl}, w'.assembly.decl? x = some d →
    d.state = .realized → ∃ t, w'.session.realized? x = some t ∧ t.Mirrors d
  realized : ∀ {x : TypeId} {d : TypeDecl}, w.assembly.decl? x = some d →
    d.state = .realized → ∃ d', w'.assembly.decl? x = some d' ∧ d'.state = .realized
  origin : ∀ t ∈ w'.session.types, t ∈ w.session.types
    ∨ ∃ d, w'.assembly.decl? t.id = some d ∧ d.state = .realized
  distinct : (w'.session.types.map (·.id)).Nodup

/-- Types that stay realized stay as they are declared. -/
structure Workspace.Retains (w w' : Workspace) : Prop where
  session : w'.session = w.session
  ids : w'.assembly.ids = w.assembly.ids
  decl : ∀ x, Option.Rel
    (fun d d' => d'.state = d.state
      ∧ (d.state = .realized → ∀ t : RealizedType, t.Mirrors d → t.Mirrors d'))
    (w.assembly.decl? x) (w'.assembly.decl? x)

theorem Assembly.mem_ids {a : Assembly} {x : TypeId} {d : TypeDecl} (hd : a.decl? x = some d) :
  x ∈ a.ids
  := by
  rw [← Assembly.decl?_id hd]
  apply List.mem_map_of_mem (List.mem_of_find?_eq_some hd)

theorem rel_imp
    {α β : Type} {R S : α → β → Prop} {a : Option α} {b : Option β} (h : Option.Rel R a b)
    (himp : ∀ x y, R x y → S x y) :
  Option.Rel S a b
  := by
  cases h with
  | none => exact .none
  | some h => exact .some (himp _ _ h)

/-- A unit keeps its declarations when one of them grows.  A realized type gets no more methods. -/
theorem Workspace.Grows.retains
    {id : TypeId} {ms : List MethodDecl} {w w' : Workspace} (h : w.Grows id ms w') :
  w.Retains w'
  := by
  refine ⟨h.session, ?_, fun x => ?_⟩
  · have := congrArg (List.map DefinedType.id) h.handles
    rw [List.map_map, List.map_map] at this
    apply this
  · apply rel_imp (h.decl x)
    intro d d' hextends
    refine ⟨hextends.state, fun hrealized t hmirrors => ?_⟩
    apply hmirrors.of_extends
    have hnone : (if x = id then ms else []) = [] := by
      by_contra hne
      have := hextends.building hne
      rw [hrealized] at this
      cases this
    rwa [hnone] at hextends

/-- It keeps them when a class gets another base.  Such a class is open, so that no realized type
mirrors it yet. -/
theorem Workspace.Rebases.retains
    {id : TypeId} {base : Option TypeRef} {w w' : Workspace} (h : w.Rebases id base w') :
  w.Retains w'
  := by
  obtain ⟨⟨d₀, hd₀⟩, rfl⟩ := h
  obtain ⟨hd₀, hbuilding⟩ := Assembly.building_ok hd₀
  refine ⟨rfl, ?_, fun x => ?_⟩
  · have := congrArg (List.map DefinedType.id)
      (w.assembly.update_handles id (f := fun d => { d with base := base }) fun _ => rfl)
    rw [List.map_map, List.map_map] at this
    apply this
  · change Option.Rel _ _ ((w.assembly.update id _).decl? x)
    rw [Assembly.decl?_update _ id (fun d => { d with base := base }) fun _ => rfl]
    cases hd : w.assembly.decl? x with
    | none => exact .none
    | some d =>
        apply Option.Rel.some
        dsimp only
        split
        · next hid =>
          rw [Assembly.decl?_id hd] at hid
          subst hid
          rw [hd₀] at hd
          cases hd
          refine ⟨rfl, fun hrealized => ?_⟩
          rw [hbuilding] at hrealized
          cases hrealized
        · exact ⟨rfl, fun _ t hmirrors => hmirrors⟩

theorem rel_of_some
    {α β : Type} {R : α → β → Prop} {a : Option α} {y : β} (h : Option.Rel R a (some y)) :
  ∃ x, a = some x ∧ R x y
  := by
  cases h with
  | some h => exact ⟨_, rfl, h⟩

theorem rel_some
    {α β : Type} {R : α → β → Prop} {x : α} {b : Option β} (h : Option.Rel R (some x) b) :
  ∃ y, b = some y ∧ R x y
  := by
  cases h with
  | some h => exact ⟨_, rfl, h⟩

theorem eq_none_of_rel
    {α β : Type} {R : α → β → Prop} {b : Option β} (h : Option.Rel R none b) :
  b = none
  := by
  cases h
  rfl

namespace Workspace

variable {w w' : Workspace}

/-- Types that were known stay known if declarations are kept. -/
theorem Retains.follows (hsettled : w.Settled) (h : w.Retains w') : w.Follows w' := by
  constructor
  · rw [h.ids]
    apply hsettled.nodup
  · intro x hx
    left
    rwa [← h.ids]
  · apply Nat.le_of_eq
    rw [h.session]
  · rw [h.ids, h.session]
    apply hsettled.below
  · intro x t ht
    rwa [h.session]
  · intro x d' hd' hrealized
    have hx := h.decl x
    rw [hd'] at hx
    obtain ⟨d, hd, hstate, hmirrors⟩ := rel_of_some hx
    rw [hstate] at hrealized
    obtain ⟨t, ht, hmirror⟩ := hsettled.mirrored hd hrealized
    rw [h.session]
    exact ⟨t, ht, hmirrors hrealized t hmirror⟩
  · intro x d hd hrealized
    have hx := h.decl x
    rw [hd] at hx
    obtain ⟨d', hd', hstate, -⟩ := rel_some hx
    exact ⟨d', hd', hstate.trans hrealized⟩
  · intro t ht
    left
    rwa [← h.session]
  · rw [h.session]
    apply hsettled.distinct

/-- They stay known when a type is opened, for its id is a new one. -/
theorem Opens.follows
    (hsettled : w.Settled) {d : TypeDecl} (h : Build.Opens d w w') :
  w.Follows w'
  := by
  have htypes : w'.session.types = w.session.types := by rw [h.session]
  have hfind : w'.session.realized? = w.session.realized? := by
    funext x
    rw [Session.realized?, htypes, Session.realized?]
  have hnext : w'.session.nextTypeId = w.session.nextTypeId + 1 := by rw [h.session]
  have hids : w'.assembly.ids = w.assembly.ids ++ [d.id] := by
    have := congrArg (List.map DefinedType.id) h.handles
    rw [List.map_append, List.map_map, List.map_map] at this
    apply this
  have hnew : d.id ∉ w.assembly.ids := by
    intro hmem
    have := hsettled.below _ hmem
    rw [h.fresh] at this
    simp at this
  constructor
  · rw [hids]
    apply List.nodup_append_comm.mp
    apply List.nodup_cons.mpr ⟨hnew, hsettled.nodup⟩
  · intro x hx
    rw [hids] at hx
    obtain hx | hx := List.mem_append.mp hx
    · left
      apply hx
    · right
      rw [List.mem_singleton.mp hx, h.fresh]
  · rw [hnext]
    apply Nat.le_succ
  · intro x hx
    rw [hids] at hx
    rw [hnext]
    obtain hx | hx := List.mem_append.mp hx
    · have := hsettled.below x hx
      omega
    · rw [List.mem_singleton.mp hx, h.fresh]
      apply Nat.lt_succ_self
  · intro x t ht
    rwa [hfind]
  · intro x d' hd' hrealized
    have hx := h.decl x
    rw [hd'] at hx
    obtain ⟨d₀, hd₀, hextends⟩ := rel_of_some hx
    rw [hextends.state] at hrealized
    obtain hold | ⟨-, hlast⟩ := Option.or_eq_some_iff.mp hd₀
    · obtain ⟨t, ht, hmirrors⟩ := hsettled.mirrored hold hrealized
      rw [hfind]
      exact ⟨t, ht, hmirrors.of_extends hextends⟩
    · split at hlast
      · cases hlast
        rw [h.state] at hrealized
        cases hrealized
      · cases hlast
  · intro x d₀ hd₀ hrealized
    have hx := h.decl x
    rw [hd₀, Option.some_or] at hx
    obtain ⟨d', hd', hextends⟩ := rel_some hx
    exact ⟨d', hd', hextends.state.trans hrealized⟩
  · intro t ht
    left
    rwa [← htypes]
  · rw [htypes]
    apply hsettled.distinct

/-- A type is found by its id as soon as it is realized. -/
theorem realized?_realizing
    (hfresh : w.Fresh) {new : List RealizedType} (h : w.Realizes new) {t : RealizedType}
    (ht : t ∈ new) :
  (w.realizing new).session.realized? t.id = some t
  := by
  obtain ⟨d, hd, hbuilding, -⟩ := h.decl ht
  have hnone : w.session.types.find? (·.id == t.id) = none := by
    rw [List.find?_eq_none]
    intro t' ht'
    simpa using hfresh.not_realized hd hbuilding t' ht'
  change (w.session.types ++ new).find? (·.id == t.id) = some t
  rw [List.find?_append, hnone, Option.none_or]
  apply find?_of_nodup h.nodup ht

/-- Finalizing adds to the session the types that it realizes. -/
theorem Realizes.follows
    (hsettled : w.Settled) {new : List RealizedType} (h : w.Realizes new) :
  w.Follows (w.realizing new)
  := by
  have hids : (w.realizing new).assembly.ids = w.assembly.ids := by
    rw [Assembly.ids]
    rw [types_realizing, List.map_map]
    apply List.map_congr_left
    intro d _
    simp only [Function.comp_apply]
    split <;> rfl
  have hkept : ∀ {x t}, w.session.realized? x = some t →
      (w.realizing new).session.realized? x = some t := by
    intro x t ht
    change (w.session.types ++ new).find? _ = some t
    rw [List.find?_append]
    change (w.session.realized? x).or _ = _
    rw [ht, Option.some_or]
  constructor
  · rw [hids]
    apply hsettled.nodup
  · intro x hx
    left
    rwa [← hids]
  · apply Nat.le_refl
  · rw [hids]
    apply hsettled.below
  · apply hkept
  · intro x d' hd' hrealized
    rw [decl?_realizing] at hd'
    obtain ⟨d, hd, rfl⟩ := Option.map_eq_some_iff.mp hd'
    split
    · next hmem =>
      obtain ⟨t, ht, rfl⟩ := List.mem_map.mp hmem
      obtain ⟨d₀, hd₀, -, hmirrors⟩ := h.decl ht
      rw [hd] at hd₀
      cases hd₀
      exact ⟨t, realized?_realizing hsettled.toFresh h ht, hmirrors.asRealized⟩
    · next hmem =>
      rw [if_neg hmem] at hrealized
      obtain ⟨t, ht, hmirrors⟩ := hsettled.mirrored hd hrealized
      exact ⟨t, hkept ht, hmirrors⟩
  · intro x d hd hrealized
    rw [decl?_realizing, hd]
    refine ⟨_, rfl, ?_⟩
    split
    · rfl
    · apply hrealized
  · intro t ht
    obtain ht | ht := List.mem_append.mp ht
    · left
      apply ht
    · right
      obtain ⟨d, hd, -, -⟩ := h.decl ht
      rw [decl?_realizing, hd]
      refine ⟨_, rfl, ?_⟩
      dsimp only
      rw [if_pos (List.mem_map_of_mem ht)]
      rfl
  · change ((w.session.types ++ new).map (·.id)).Nodup
    rw [List.map_append]
    apply List.nodup_append.mpr ⟨hsettled.distinct, h.nodup, ?_⟩
    intro x hx y hy hxy
    obtain ⟨t, ht, rfl⟩ := List.mem_map.mp hx
    obtain ⟨t', ht', rfl⟩ := List.mem_map.mp hy
    obtain ⟨d, hd, hbuilding, -⟩ := h.decl ht'
    apply hsettled.not_realized hd hbuilding t ht hxy

/-- Types that were known stay known in every turn. -/
theorem Turn.follows (hsettled : w.Settled) (h : w.Turn w') : w.Follows w' := by
  cases h with
  | grow id ms h => apply h.retains.follows hsettled
  | opens d h => apply Opens.follows hsettled h
  | realize new unit h heq =>
      subst heq
      exact { Realizes.follows hsettled h with }

end Workspace

/-- What an operation leaves follows what it has found. -/
theorem Change.follows (c : Change ρ) {w : Workspace} (hsettled : w.Settled) :
  w.Follows (c.perform w)
  := by
  obtain h | ⟨id, given, base, -, -, -, h⟩ := c.turn hsettled.toFresh
  · apply h.follows hsettled
  · apply h.retains.follows hsettled

/-! ## What every history keeps -/

/-- The types of all units have numbers of their own, and the session holds the types that
a unit has realized, as the unit declares them. -/
structure Project.Consistent (p : Project) : Prop where
  nodup : ∀ {i : Nat} {a : Assembly}, p.units[i]? = some a → a.ids.Nodup
  disjoint : ∀ {i j : Nat} {a b : Assembly}, p.units[i]? = some a → p.units[j]? = some b →
    i ≠ j → ∀ x ∈ a.ids, x ∉ b.ids
  below : ∀ {i : Nat} {a : Assembly}, p.units[i]? = some a →
    ∀ x ∈ a.ids, x.number < p.session.nextTypeId
  mirrored : ∀ {i : Nat} {a : Assembly} {x : TypeId} {d : TypeDecl}, p.units[i]? = some a →
    a.decl? x = some d → d.state = .realized →
      ∃ t, p.session.realized? x = some t ∧ t.Mirrors d
  origin : ∀ t ∈ p.session.types, ∃ (i : Nat) (a : Assembly) (d : TypeDecl),
    p.units[i]? = some a ∧ a.decl? t.id = some d ∧ d.state = .realized
  distinct : (p.session.types.map (·.id)).Nodup

namespace Project

variable {p : Project} {i j : Nat} {a b : Assembly} {w' : Workspace}

/-- A unit of the project afterwards is the one that was changed, or is as before. -/
theorem put_cases (ha : p.units[i]? = some a) (hb : (p.put i w').units[j]? = some b) :
  (j = i ∧ b = w'.assembly) ∨ (j ≠ i ∧ p.units[j]? = some b)
  := by
  obtain ⟨hi, -⟩ := List.getElem?_eq_some_iff.mp ha
  rw [put] at hb
  rw [List.getElem?_set] at hb
  by_cases hij : i = j
  · left
    subst hij
    simp only [if_true, if_pos hi, Option.some.injEq] at hb
    exact ⟨rfl, hb.symm⟩
  · right
    rw [if_neg hij] at hb
    exact ⟨fun h => hij h.symm, hb⟩

theorem put_same (ha : p.units[i]? = some a) : (p.put i w').units[i]? = some w'.assembly := by
  obtain ⟨hi, -⟩ := List.getElem?_eq_some_iff.mp ha
  simp [put, hi]

theorem put_other (hij : j ≠ i) : (p.put i w').units[j]? = p.units[j]? := by
  simp [put, Ne.symm hij]

/-- The ids that a unit gives out have not been taken. -/
theorem Consistent.fresh (h : p.Consistent) (ha : p.units[i]? = some a) :
  (p.workspace a).Fresh
  := by
  refine ⟨h.nodup ha, fun d hd => Workspace.unused_of_below (h.below ha) hd, ?_⟩
  intro d hd hbuilding t ht hid
  obtain ⟨j, b, d', hb, hd', hrealized⟩ := h.origin t ht
  have hmem : t.id ∈ a.ids := by
    rw [hid]
    apply List.mem_map_of_mem hd
  by_cases hij : i = j
  · subst hij
    rw [ha] at hb
    cases hb
    rw [hid, Assembly.decl?, find?_of_nodup (h.nodup ha) hd] at hd'
    cases hd'
    rw [hbuilding] at hrealized
    cases hrealized
  · apply h.disjoint ha hb hij t.id hmem (Assembly.mem_ids hd')

theorem Consistent.taken (h : p.Consistent) :
  ∀ t ∈ p.session.types, t.id.number < p.session.nextTypeId
  := by
  intro t ht
  obtain ⟨j, b, d, hb, hd, -⟩ := h.origin t ht
  apply h.below hb t.id (Assembly.mem_ids hd)

/-- What a unit has finalized is registered in the session. -/
theorem Consistent.settled (h : p.Consistent) (ha : p.units[i]? = some a) :
  (p.workspace a).Settled
  :=
  { h.fresh ha with
    below := h.below ha
    taken := h.taken
    mirrored := h.mirrored ha
    distinct := h.distinct }

/-- An operation on one unit keeps the numbers of all units apart. -/
theorem Consistent.put
    (h : p.Consistent) (ha : p.units[i]? = some a) (hw : (p.workspace a).Follows w') :
  (p.put i w').Consistent
  := by
  have hapart : ∀ {j b}, p.units[j]? = some b → j ≠ i → ∀ x ∈ w'.assembly.ids, x ∉ Assembly.ids b := by
    intro j b hb hij x hx hmem
    obtain hx | hx := hw.ids x hx
    · apply h.disjoint ha hb hij.symm x hx hmem
    · have := h.below hb x hmem
      rw [hx] at this
      apply Nat.lt_irrefl _ this
  constructor
  · intro j b hb
    obtain ⟨hj, hb'⟩ | ⟨hj, hb'⟩ := put_cases ha hb
    · rw [hb']
      apply hw.nodup
    · apply h.nodup hb'
  · intro j k b c hb hc hjk x hxb hxc
    obtain ⟨hj, hb'⟩ | ⟨hj, hb'⟩ := put_cases ha hb
    · obtain ⟨hk, hc'⟩ | ⟨hk, hc'⟩ := put_cases ha hc
      · cases hjk (hj.trans hk.symm)
      · rw [hb'] at hxb
        apply hapart hc' hk x hxb hxc
    · obtain ⟨hk, hc'⟩ | ⟨hk, hc'⟩ := put_cases ha hc
      · rw [hc'] at hxc
        apply hapart hb' hj x hxc hxb
      · apply h.disjoint hb' hc' hjk x hxb hxc
  · intro j b hb x hx
    obtain ⟨hj, hb'⟩ | ⟨hj, hb'⟩ := put_cases ha hb
    · rw [hb'] at hx
      apply hw.below x hx
    · apply Nat.lt_of_lt_of_le (h.below hb' x hx) hw.next
  · intro j b x d hb hd hrealized
    obtain ⟨hj, hb'⟩ | ⟨hj, hb'⟩ := put_cases ha hb
    · rw [hb'] at hd
      apply hw.mirrored hd hrealized
    · obtain ⟨t, ht, hmirrors⟩ := h.mirrored hb' hd hrealized
      exact ⟨t, hw.kept ht, hmirrors⟩
  · intro t ht
    obtain ht | ⟨d, hd, hrealized⟩ := hw.origin t ht
    · obtain ⟨j, b, d, hb, hd, hrealized⟩ := h.origin t ht
      by_cases hij : j = i
      · subst hij
        rw [ha] at hb
        cases hb
        obtain ⟨d', hd', hrealized'⟩ := hw.realized hd hrealized
        exact ⟨j, w'.assembly, d', put_same ha, hd', hrealized'⟩
      · exact ⟨j, b, d, (put_other hij).trans hb, hd, hrealized⟩
    · exact ⟨i, w'.assembly, d, put_same ha, hd, hrealized⟩
  · apply hw.distinct

/-- A type of the session is found under its number. -/
theorem Consistent.realized_of_mem
    (h : p.Consistent) {t : RealizedType} (ht : t ∈ p.session.types) :
  p.session.realized? t.id = some t
  :=
  find?_of_nodup h.distinct ht

theorem consistent_empty (verify : Bool) : (empty verify).Consistent := by
  constructor <;> intros <;> simp_all [empty]

/-- A new unit has no types. -/
theorem Consistent.open_unit (h : p.Consistent) (name : String) :
  Consistent { p with units := p.units ++ [.new name] }
  := by
  have hcases : ∀ {j : Nat} {b : Assembly}, (p.units ++ [Assembly.new name])[j]? = some b →
      p.units[j]? = some b ∨ b = .new name := by
    intro j b hb
    rw [List.getElem?_append] at hb
    split at hb
    · left
      apply hb
    · right
      rw [List.getElem?_singleton] at hb
      split at hb
      · exact (Option.some.inj hb).symm
      · cases hb
  constructor
  · intro j b hb
    obtain hb | rfl := hcases hb
    · apply h.nodup hb
    · apply List.nodup_nil
  · intro j k b c hb hc hjk x hxb hxc
    obtain hb | rfl := hcases hb
    · obtain hc | rfl := hcases hc
      · apply h.disjoint hb hc hjk x hxb hxc
      · cases hxc
    · cases hxb
  · intro j b hb x hx
    obtain hb | rfl := hcases hb
    · apply h.below hb x hx
    · cases hx
  · intro j b x d hb hd hrealized
    obtain hb | rfl := hcases hb
    · apply h.mirrored hb hd hrealized
    · cases hd
  · intro t ht
    obtain ⟨j, b, d, hb, hd, hrealized⟩ := h.origin t ht
    obtain ⟨hj, -⟩ := List.getElem?_eq_some_iff.mp hb
    exact ⟨j, b, d, by rw [List.getElem?_append_left hj, hb], hd, hrealized⟩
  · apply h.distinct

/-- A project stays consistent through every event. -/
theorem Consistent.apply (h : p.Consistent) (e : Event ρ) : (p.apply e).Consistent := by
  cases e with
  | openUnit name => apply h.open_unit name
  | change unit c =>
      unfold Project.apply
      dsimp only
      split
      · apply h
      · next a ha => apply h.put ha (c.follows (h.settled ha))

/-- Every history leaves a consistent project. -/
theorem Consistent.after (h : p.Consistent) (history : List (Event ρ)) :
  (p.after history).Consistent
  := by
  induction history generalizing p with
  | nil => apply h
  | cons e history ih => apply ih (h.apply e)

/-- A workspace is that of a unit at some point of a history. -/
def Meets (p : Project) (history : List (Event ρ)) (w : Workspace) : Prop :=
  ∃ (before : List (Event ρ)) (i : Nat) (a : Assembly), before <+: history
    ∧ (p.after before).units[i]? = some a ∧ w = (p.after before).workspace a

/-- While a unit is finalized, its types have numbers of their own. -/
theorem settled_realizing
    {verify : Bool} {history : List (Event ρ)} {w : Workspace}
    (hmeets : (empty verify).Meets history w) {new : List RealizedType} (hnew : w.Realizes new) :
  (w.realizing new).Settled
  := by
  obtain ⟨before, i, a, -, ha, rfl⟩ := hmeets
  have hconsistent := (consistent_empty verify).after before
  apply (hconsistent.put ha (Workspace.Realizes.follows (hconsistent.settled ha) hnew)).settled
  apply put_same ha

theorem after_append (p : Project) (before : List (Event ρ)) (e : Event ρ) :
  p.after (before ++ [e]) = (p.after before).apply e
  := by
  rw [after]
  rw [List.foldl_append]
  rfl

/-- What is known of the types of a session is known after every history, if laying out one
more type keeps it. -/
theorem realized_induction
    {verify : Bool} {history : List (Event ρ)} {Q : List RealizedType → Prop} (hnil : Q [])
    (hsnoc : ∀ {w : Workspace} {new : List RealizedType} {t : RealizedType},
      (empty verify).Meets history w → w.Realizes new →
      (∀ t' ∈ (w.realizing new).session.types, t'.id ≠ t.id) →
      (w.realizing new).layoutType t.id = .ok t → Q (w.realizing new).session.types →
        Q ((w.realizing new).session.types ++ [t])) :
  Q ((empty verify).after history).session.types
  := by
  have hall : ∀ before : List (Event ρ), before <+: history →
      Q ((empty verify).after before).session.types := by
    intro before
    induction before using List.reverseRecOn with
    | nil =>
        intro _
        apply hnil
    | append_singleton before e ih =>
        intro hinitial
        have hbefore := (List.prefix_append before [e]).trans hinitial
        have hold := ih hbefore
        rw [after_append]
        cases e with
        | openUnit name => apply hold
        | change unit c =>
            rw [Project.apply]
            split
            · apply hold
            · next a ha =>
              have hfresh := ((consistent_empty verify).after before).fresh ha
              apply c.types_perform hfresh hold
              intro new t
              apply hsnoc ⟨before, unit, a, hbefore, ha, rfl⟩
  apply hall history (List.prefix_refl history)

/-! ## Numbers in 32 bits -/

/-- 32 bits hold the numbers of all types of a project as they are, and the next one. -/
structure NumbersFit (p : Project) : Prop where
  next : (UInt32.ofNat p.session.nextTypeId).toNat = p.session.nextTypeId
  declared : ∀ {i : Nat} {a : Assembly}, p.units[i]? = some a →
    ∀ x ∈ a.ids, x.bits.toNat = x.number
  realized : ∀ t ∈ p.session.types, t.id.bits.toNat = t.id.number

/-- Ids below the counter fit into their width if the counter does. -/
theorem numbersFit_of_below
    (hnumbered : p.session.Numbered)
    (hbelow : ∀ {i : Nat} {a : Assembly}, p.units[i]? = some a →
      ∀ x ∈ a.ids, x.number < p.session.nextTypeId)
    (htaken : ∀ t ∈ p.session.types, t.id.number < p.session.nextTypeId) :
  p.NumbersFit
  := by
  have hfits : ∀ x : TypeId, x.number < p.session.nextTypeId → x.bits.toNat = x.number :=
    fun x hx => UInt32.toNat_ofNat_of_lt' (Nat.lt_trans hx hnumbered)
  exact ⟨UInt32.toNat_ofNat_of_lt' hnumbered, fun ha x hx => hfits x (hbelow ha x hx),
    fun t ht => hfits t.id (htaken t ht)⟩

/-- The counter never goes back. -/
theorem Consistent.next_apply (h : p.Consistent) (e : Event ρ) :
  p.session.nextTypeId ≤ (p.apply e).session.nextTypeId
  := by
  cases e with
  | openUnit name => apply Nat.le_refl
  | change unit c =>
      unfold Project.apply
      dsimp only
      split
      · apply Nat.le_refl
      · next a ha => exact (c.follows (h.settled ha)).next

/-- The next number never falls. -/
theorem Consistent.next_after (h : p.Consistent) (history : List (Event ρ)) :
  p.session.nextTypeId ≤ (p.after history).session.nextTypeId
  := by
  induction history generalizing p with
  | nil => apply Nat.le_refl
  | cons e history ih => exact Nat.le_trans (h.next_apply e) (ih (h.apply e))

/-- Throughout a history in which fewer than `2 ^ 32 - 1` types are declared, 32 bits hold their
numbers. -/
theorem numbersFit_after
    (verify : Bool) {before history : List (Event ρ)}
    (hnumbered : ((empty verify).after history).session.Numbered) (hbefore : before <+: history) :
  ((empty verify).after before).NumbersFit
  := by
  obtain ⟨later, rfl⟩ := hbefore
  have hconsistent := (consistent_empty verify).after before
  have hsplit : (empty verify).after (before ++ later) = ((empty verify).after before).after later :=
    List.foldl_append
  rw [hsplit] at hnumbered
  apply numbersFit_of_below _ hconsistent.below hconsistent.taken
  exact Nat.lt_of_le_of_lt (hconsistent.next_after later) hnumbered

end Project

end ManagedCode
