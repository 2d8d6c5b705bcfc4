import ManagedCode.Proofs.Assembly.Handles
import ManagedCode.Proofs.Machine.Coherence

/-!
# Lookups of units and of sessions

A unit sees a realized type as the session has it, whether it has declared the type or not
(`Project.Sound.faithful`).  So a unit and its session find the same fields, the same constructors
and the same methods, except that a session follows base links only: a method that an interface
inherits from another interface is found by units and withheld by the session
(`Project.lookups_of_history`).
-/

namespace ManagedCode

open Relation

variable {ρ : Type}

/-! ## What units see -/

section

variable {verify : Bool} {decls : TypeId → Option TypeDecl} {ts : List RealizedType}
  {t : RealizedType} {d : TypeDecl}

/-- Fields that have been laid out have the signatures that have been declared. -/
theorem FieldLayout.Lays.signatures
    {inherited : List Value} {l : FieldLayout} (h : Lays d.id inherited d.fields l) :
  l.fields.map (·.sig) = (TypeView.ofDecl d).fields
  := by
  have hsig : ∀ (i : Nat) (r : RealizedField), l.fields[i]? = some r →
      r.handle = d.fieldRef i := by
    intro i r hr
    have hhandle := congrArg (·[i]?) h.handles
    obtain ⟨hi, -⟩ := List.getElem?_eq_some_iff.mp hr
    have hlength : l.fields.length = d.fields.length := by
      rw [← h.declared, List.length_map]
    simp only [List.getElem?_map, hr, Option.map_some, List.getElem?_range (hlength ▸ hi)]
      at hhandle
    exact Option.some.inj hhandle
  apply List.ext_getElem?
  intro i
  have hdeclared := congrArg (·[i]?) h.declared
  simp only [TypeView.ofDecl, List.getElem?_map, List.getElem?_mapIdx] at hdeclared ⊢
  rw [← hdeclared]
  cases hr : l.fields[i]? with
  | none => rfl
  | some r =>
      rw [Option.map_some, Option.map_some, Option.map_some, ← hsig i r hr]
      rfl

/-- A realized type looks like the declaration that its unit has kept. -/
theorem Layered.view (h : Layered verify decls ts) (ht : t ∈ ts) :
  ∃ d, decls t.id = some d ∧ TypeView.ofDecl d = .ofRealized t
  := by
  obtain ⟨d, hd, -, hmirrors, hinterfaces⟩ := h.mirrors ht
  obtain ⟨d', hd', hlays⟩ := h.fields ht
  obtain rfl := Option.some.inj (hd.symm.trans hd')
  have hid : t.id = d.id := congrArg DefinedType.id hmirrors.handle
  rw [hid] at hlays
  refine ⟨d, hd, ?_⟩
  have hfields := hlays.signatures
  have hmethods := hmirrors.methods
  rw [TypeView.ofRealized, TypeView.ofDecl] at *
  simp only at hfields hmethods
  rw [hmirrors.handle, hmirrors.fullName, hmirrors.base, hinterfaces, hfields, hmethods]

end

/-- A unit sees the realized types of its session as they are. -/
def Workspace.Faithful (w : Workspace) : Prop :=
  ∀ t ∈ w.session.types, w.view? t.id = some (.ofRealized t)

namespace Project

variable {p : Project} {i : Nat} {a : Assembly} {w : Workspace}

/-- Units see realized types as they are, also while they define their own members. -/
theorem Sound.faithful
    (h : p.Sound) (hstacked : p.Stacked) (ha : p.units[i]? = some a)
    (hw : (p.workspace a).Edits w) :
  w.Faithful
  := by
  intro t ht
  rw [hw.session] at ht
  change t ∈ p.session.types at ht
  obtain ⟨d, hd, hview⟩ := hstacked.view ht
  obtain ⟨d₁, hd₁, hrealized, -⟩ := hstacked.mirrors ht
  rw [hd] at hd₁
  cases hd₁
  have hx := hw.decl t.id
  change Option.Rel _ (a.decl? t.id) _ at hx
  cases hown : a.decl? t.id with
  | some d' =>
      have hsame := h.decl?_eq ha hown
      rw [hd] at hsame
      cases hsame
      rw [hown] at hx
      obtain ⟨d', hd', hedited⟩ := rel_some hx
      rw [Workspace.view?_of_decl hd', hedited.frozen hrealized, hview]
  | none =>
      rw [hown] at hx
      rw [Workspace.view?_of_no_decl (eq_none_of_rel hx), hw.session]
      change (p.session.realized? t.id).map _ = _
      rw [Session.realized?, hstacked.find ht]
      rfl

end Project

/-! ## Interfaces -/

/-- A realized type has an interface link to another one. -/
def RealizedInterface (ts : List RealizedType) (t u : RealizedType) : Prop :=
  ∃ x ∈ t.interfaces, ts.find? (·.id == x) = some u

namespace Workspace

variable {w : Workspace} {new : List RealizedType}

/-- When a unit has been finalized, all its types are realized. -/
theorem Realizes.all_realized
    {unit : FinalizedUnit} (hnew : w.Realizes new) (hfresh : w.Fresh) (hopened : w.assembly.Opened)
    (hopen : w.assembly.finalized = none)
    (hclosed : Assembly.Closed { (w.realizing new).assembly with finalized := some unit })
    (x : TypeId) (d : TypeDecl) (hd : w.assembly.decl? x = some d) :
  ∃ t, (w.realizing new).session.realized? x = some t
  := by
  have hd' : (w.realizing new).assembly.decl? x
      = some (if x ∈ new.map (·.id) then d.asRealized else d) := by
    rw [decl?_realizing, hd, Option.map_some]
  have hrealized := hclosed.realized rfl x _ hd'
  split at hrealized
  · next hmem =>
    obtain ⟨t, ht, rfl⟩ := List.mem_map.mp hmem
    exact ⟨t, realized?_realizing hfresh hnew ht⟩
  · rw [hopened hopen x d hd] at hrealized
    cases hrealized

/-- The search for interfaces succeeds if whatever links lead to can be seen. -/
theorem exists_inheritedInterfacesFrom
    {fuel : Nat} {seen pending : List TypeId}
    (h : ∀ r ∈ pending, ∀ x, ReflTransGen w.HasInterface r x → (w.view? x).isSome) :
  ∃ found, w.inheritedInterfacesFrom fuel seen pending = .ok found
  := by
  induction fuel generalizing seen pending with
  | zero =>
      cases pending with
      | nil => exact ⟨[], rfl⟩
      | cons id pending => exact ⟨[], rfl⟩
  | succ fuel ih =>
      cases pending with
      | nil => exact ⟨[], rfl⟩
      | cons id pending =>
          have hpending : ∀ r ∈ pending, ∀ x, ReflTransGen w.HasInterface r x →
              (w.view? x).isSome :=
            fun r hr => h r (List.mem_cons_of_mem id hr)
          rw [inheritedInterfacesFrom]
          split
          · apply ih hpending
          · obtain ⟨s, hs⟩ := Option.isSome_iff_exists.mp (h id List.mem_cons_self id .refl)
            have hnext : ∀ r ∈ s.interfaces ++ pending, ∀ x, ReflTransGen w.HasInterface r x →
                (w.view? x).isSome := by
              intro r hr x hpath
              obtain hr | hr := List.mem_append.mp hr
              · apply h id List.mem_cons_self x (hpath.head ⟨s, hs, hr⟩)
              · apply hpending r hr x hpath
            obtain ⟨rest, hrest⟩ :
                ∃ rest, w.inheritedInterfacesFrom fuel (id :: seen) (s.interfaces ++ pending)
                  = .ok rest := ih hnext
            use id :: rest
            rw [view, hs]
            change (w.inheritedInterfacesFrom fuel (id :: seen) _ >>= _) = _
            rw [hrest]
            rfl

end Workspace

namespace Project

variable {p : Project}

/-- Whatever happens, the interfaces of realized types stay realized. -/
theorem implements_turns
    {q : Project} (hsound : p.Sound) (hclosed : p.Closed) (h : p.session.Implements)
    (hq : p.Turns ρ q) :
  q.session.Implements
  := by
  have hclosed' := hclosed.turns hsound hq
  cases hq with
  | stays => exact h
  | opens name => exact h
  | registers registry => exact h
  | @changes i a ha c =>
      change (c.perform (p.workspace a)).session.Implements
      obtain ⟨next, hsession⟩ | ⟨new, unit, hnew, hopen, heq⟩ :=
        (c.redraws (hsound.fresh ha)).session
      · rw [hsession]
        exact h
      · rw [heq] at hclosed' ⊢
        have hall := hnew.all_realized (hsound.fresh ha) (hsound.opened ha) hopen
          (hclosed' i _ (put_same ha))
        apply hnew.implements (hsound.settled ha hopen) hall h

/-- Throughout the lifetime of a session, the interfaces of realized types are realized. -/
theorem implements_run (verify : Bool) (history : List (HostEvent ρ)) :
  ((empty verify).run history).session.Implements
  := by
  have hboth : ((empty verify).run history).Closed
      ∧ ((empty verify).run history).session.Implements := by
    apply run_induction (P := fun p => p.Closed ∧ p.session.Implements) verify
    · exact ⟨by rintro i a ⟨⟩, by rintro t ⟨⟩⟩
    · rintro p q hsound ⟨hclosed, h⟩ hq
      exact ⟨hclosed.turns hsound hq, implements_turns hsound hclosed h hq⟩
    · rintro p ⟨hclosed, -⟩
      exact ⟨hclosed, by rintro t ⟨⟩⟩
  exact hboth.2

end Project

/-! ## Base links -/

namespace Session.Leads

variable {s : Session} {x : TypeId} {line : Session.Lineage}

/-- The types of a line are realized, and base links lead to them from its first type. -/
theorem inherits (h : s.Leads x line) :
  ∀ c ∈ line.types, c ∈ s.types ∧ ∃ t, s.realized? x = some t ∧ Inherits s.types t c
  := by
  induction h with
  | missing h => simp
  | @root x t ht hbase =>
      intro c hc
      obtain rfl := List.mem_singleton.mp hc
      exact ⟨List.mem_of_find?_eq_some ht, c, ht, .refl⟩
  | @link x y t line ht hbase hrest ih =>
      intro c hc
      obtain rfl | hc := List.mem_cons.mp hc
      · exact ⟨List.mem_of_find?_eq_some ht, c, ht, .refl⟩
      · obtain ⟨hmem, u, hu, hpath⟩ := ih c hc
        exact ⟨hmem, t, ht, .head ⟨y, hbase, hu⟩ hpath⟩

/-- A line starts with the type where it starts. -/
theorem first
    {t : RealizedType} {rest : List RealizedType} (h : s.Leads x line)
    (htypes : line.types = t :: rest) :
  s.realized? x = some t
  := by
  cases h with
  | missing h => cases htypes
  | root ht hbase =>
      cases htypes
      exact ht
  | link ht hbase hrest =>
      cases htypes
      exact ht

/-- No type is met twice. -/
theorem nodup
    (h : s.Leads x line) (hdistinct : (s.types.map (·.id)).Nodup)
    (hacyclic : ∀ t, ¬ TransGen (RealizedBase s.types) t t) :
  (line.types.map (·.id)).Nodup
  := by
  induction h with
  | missing h => exact List.nodup_nil
  | root ht hbase => exact List.nodup_singleton _
  | @link x y t line ht hbase hrest ih =>
      rw [List.map_cons]
      apply List.nodup_cons.mpr ⟨_, ih⟩
      intro hmem
      obtain ⟨c, hc, hid⟩ := List.mem_map.mp hmem
      obtain ⟨hcmem, u, hu, hpath⟩ := hrest.inherits c hc
      have hfound := find?_of_nodup hdistinct hcmem
      rw [hid, find?_of_nodup hdistinct (List.mem_of_find?_eq_some ht)] at hfound
      obtain rfl := Option.some.inj hfound
      apply hacyclic t (.head' ⟨y, hbase, hu⟩ hpath)

end Session.Leads

namespace Workspace

variable {w : Workspace} {t : RealizedType} {rest : List RealizedType} {α : Type}

theorem Faithful.basesFrom_succ
    (h : w.Faithful) {start x : TypeId} (ht : w.session.realized? x = some t) {fuel : Nat}
    {seen ids : List TypeId} (hseen : t.id ∉ seen)
    (hids : w.basesFrom start fuel (t.id :: seen) t.base = .ok ids) :
  w.basesFrom start (fuel + 1) seen (some x) = .ok (t.id :: ids)
  := by
  obtain rfl : t.id = x := by simpa using List.find?_some ht
  rw [Workspace.basesFrom, if_neg (by simpa using hseen), view,
    h t (List.mem_of_find?_eq_some ht)]
  change (w.basesFrom start fuel (t.id :: seen) t.base >>= _) = _
  rw [hids]
  rfl

/-- Following base links meets the types of a line. -/
theorem Faithful.basesFrom
    (h : w.Faithful) {start x : TypeId} {line : Session.Lineage} (hline : w.session.Leads x line)
    (hend : line.missing = none) (hnodup : (line.types.map (·.id)).Nodup) {fuel : Nat}
    {seen : List TypeId} (hfuel : line.types.length ≤ fuel)
    (hnew : ∀ c ∈ line.types, c.id ∉ seen) :
  w.basesFrom start fuel seen (some x) = .ok (line.types.map (·.id))
  := by
  induction hline generalizing fuel seen with
  | missing hx => cases hend
  | @root x t ht hbase =>
      obtain _ | fuel := fuel
      · cases hfuel
      · apply h.basesFrom_succ ht (hnew t List.mem_cons_self)
        rw [hbase]
        cases fuel <;> rfl
  | @link x y t line ht hbase hrest ih =>
      obtain _ | fuel := fuel
      · cases hfuel
      · rw [List.map_cons, List.nodup_cons] at hnodup
        apply h.basesFrom_succ ht (hnew t List.mem_cons_self)
        rw [hbase]
        apply ih hend hnodup.2 (Nat.le_of_succ_le_succ hfuel)
        intro c hc hmem
        obtain hsame | hseen := List.mem_cons.mp hmem
        · apply hnodup.1
          rw [← hsame]
          exact List.mem_map_of_mem hc
        · apply hnew c (List.mem_cons_of_mem t hc) hseen

theorem Faithful.bases
    (h : w.Faithful) {line : Session.Lineage} (hline : w.session.Leads t.id line)
    (htypes : line.types = t :: rest) (hend : line.missing = none)
    (hnodup : (line.types.map (·.id)).Nodup) :
  w.bases t.id = .ok (rest.map (·.id))
  := by
  have hsubset : line.types ⊆ w.session.types := fun c hc => (hline.inherits c hc).1
  have hlength : line.types.length ≤ w.session.types.length :=
    ((List.Nodup.of_map _ hnodup).subperm hsubset).length_le
  have ht : t ∈ line.types := by
    rw [htypes]
    apply List.mem_cons_self
  rw [Workspace.bases, view, h t (hsubset ht)]
  change w.basesFrom t.id (w.typeCount + 1) [t.id] t.base = _
  cases hline with
  | missing hx => cases ht
  | root ht hbase =>
      cases htypes
      rw [hbase]
      rfl
  | @link _ y _ line ht hbase hrest =>
      cases htypes
      rw [List.map_cons, List.nodup_cons] at hnodup
      rw [hbase]
      apply h.basesFrom hrest hend hnodup.2
      · rw [List.length_cons] at hlength
        rw [typeCount]
        omega
      · intro c hc hmem
        apply hnodup.1
        rw [← List.mem_singleton.mp hmem]
        exact List.mem_map_of_mem hc

/-- A search among realized types. -/
theorem Faithful.findIn
    (h : w.Faithful) (f : TypeView → Option α) {ts : List RealizedType}
    (hts : ts ⊆ w.session.types) :
  w.findIn f (ts.map (·.id)) = .ok (ts.findSome? fun t => f (.ofRealized t))
  := by
  induction ts with
  | nil => rfl
  | cons t ts ih =>
      obtain ⟨ht, hts⟩ := List.cons_subset.mp hts
      rw [List.map_cons, Workspace.findIn, view, h t ht, List.findSome?_cons]
      dsimp only [bind, Except.bind]
      cases f (.ofRealized t) with
      | some found => rfl
      | none => exact ih hts

/-! ## Members -/

/-- A unit and its session complain alike. -/
theorem Faithful.unresolvable
    (h : w.Faithful) (hfound : w.session.realized? t.id = some t) (member : String) :
  w.unresolvable t.id member = w.session.unresolvable t.id member
  := by
  rw [Workspace.unresolvable, Session.unresolvable, typeName, Session.typeName,
    h t (List.mem_of_find?_eq_some hfound), hfound]
  rfl

end Workspace

/-- What a session finds along a line that comes to an end. -/
theorem Session.findMember_eq
    {s : Session} {x : TypeId} {ts : List RealizedType} (hline : s.lineage x = ⟨ts, none⟩)
    {α : Type} (f : RealizedType → Option α) (member : String) :
  s.findMember x member f
    = match ts.findSome? f with
      | some found => .ok found
      | none => .error (s.unresolvable x member)
  := by
  rw [findMember, findOnLineage, hline]
  dsimp only
  cases ts.findSome? f <;> rfl

namespace RealizedType

variable (t : RealizedType)

theorem view_findMethod (name : String) (params : Option (List TypeRef)) :
  (TypeView.ofRealized t).methods.find? (·.isMatch name params none)
    = (t.findMethod? name params).map (·.sig)
  := by
  change (t.methods.map (·.sig)).find? _ = _
  rw [List.find?_map, findMethod?]
  congr 2
  funext m
  simp [MethodSignature.isMatch, RealizedMethod.sig]

theorem view_findField (name : String) :
  (TypeView.ofRealized t).fields.find? (·.name == name) = (t.findField? name).map (·.sig)
  := by
  change (t.fields.map (·.sig)).find? _ = _
  rw [List.find?_map]
  rfl

theorem view_constructor (params : List TypeRef) :
  (TypeView.ofRealized t).methods.find? (fun m => m.kind == .constructor && m.params == params)
    = (t.constructor? params).map (·.sig)
  := by
  change (t.methods.map (·.sig)).find? _ = _
  rw [List.find?_map, constructor?, constructors, List.find?_filter]
  congr 2
  funext m
  rw [Bool.eq_iff_iff]
  simp [RealizedMethod.sig]

end RealizedType

/-- Interface links lead from a realized type to realized types. -/
theorem Workspace.Faithful.reached
    {w : Workspace} (h : w.Faithful) (himplements : w.session.Implements) {t : RealizedType}
    (ht : t ∈ w.session.types) {x : TypeId} (hpath : ReflTransGen w.HasInterface t.id x) :
  ∃ u ∈ w.session.types, u.id = x ∧ ReflTransGen (RealizedInterface w.session.types) t u
  := by
  induction hpath with
  | refl => exact ⟨t, ht, rfl, .refl⟩
  | tail _ hstep ih =>
      obtain ⟨u, hu, rfl, hpath⟩ := ih
      obtain ⟨s, hs, hx⟩ := hstep
      rw [h u hu] at hs
      cases hs
      obtain ⟨hdeclared, hrealized⟩ := himplements u hu
      obtain ⟨v, hv⟩ := hrealized _ (hdeclared hx)
      refine ⟨v, List.mem_of_find?_eq_some hv, by simpa using List.find?_some hv, ?_⟩
      apply hpath.tail ⟨_, hx, hv⟩

theorem Workspace.Faithful.reaches
    {w : Workspace} (h : w.Faithful) {t u : RealizedType} (ht : t ∈ w.session.types)
    (hpath : ReflTransGen (RealizedInterface w.session.types) t u) :
  u ∈ w.session.types ∧ ReflTransGen w.HasInterface t.id u.id
  := by
  induction hpath with
  | refl => exact ⟨ht, .refl⟩
  | @tail u v _ hstep ih =>
      obtain ⟨hu, hpath⟩ := ih
      obtain ⟨x, hx, hv⟩ := hstep
      obtain rfl : v.id = x := by simpa using List.find?_some hv
      exact ⟨List.mem_of_find?_eq_some hv, hpath.tail ⟨_, h u hu, hx⟩⟩

/-- A session keeps back a method that an interface inherits: neither the interface nor a base of
it has the method, but interface links lead to a type that has it. -/
structure Session.Withholds (s : Session) (t : RealizedType) (name : String)
    (params : Option (List TypeRef)) : Prop where
  interface : t.handle.kind.isInterface = true
  unfound : ∀ c, Inherits s.types t c → c.findMethod? name params = none
  inherited : ∃ u, ReflTransGen (RealizedInterface s.types) t u
    ∧ (u.findMethod? name params).isSome

/-- A unit answers lookups on a type as a session does, but for methods that the session keeps
back: these it finds at a type that interface links lead to. -/
structure Workspace.Answers (w : Workspace) (s : Session) (t : RealizedType) : Prop where
  fields : ∀ name, w.findField t.id name = s.findField t.id name
  constructors : ∀ params, w.findConstructor t.id params = s.findConstructor t.id params
  methods : ∀ name params, w.findMethod t.id name params = s.findMethod t.id name params
    ↔ ¬ s.Withholds t name params
  withheld : ∀ name params, s.Withholds t name params →
    s.findMethod t.id name params = .error (s.unresolvable t.id name)
    ∧ ∃ u m, ReflTransGen (RealizedInterface s.types) t u ∧ u.findMethod? name params = some m
      ∧ w.findMethod t.id name params = .ok m.sig

namespace Workspace

variable {w : Workspace} {t : RealizedType} {rest : List RealizedType} {name : String}
  {params : Option (List TypeRef)}

theorem Faithful.findConstructor_eq
    (h : w.Faithful) (hfound : w.session.realized? t.id = some t) (params : List TypeRef) :
  w.findConstructor t.id params = w.session.findConstructor t.id params
  := by
  have hview := h t (List.mem_of_find?_eq_some hfound)
  rw [findConstructor, Session.findConstructor, view, hview, hfound]
  dsimp only [bind, Except.bind]
  rw [RealizedType.view_constructor]
  cases t.constructor? params with
  | some found => rfl
  | none => exact congrArg Except.error (h.unresolvable hfound _)

section

variable (h : w.Faithful) (hline : w.session.lineage t.id = ⟨t :: rest, none⟩)
  (hleads : w.session.Leads t.id ⟨t :: rest, none⟩) (hnodup : ((t :: rest).map (·.id)).Nodup)

include h hline hleads hnodup

theorem Faithful.findField_eq (name : String) :
  w.findField t.id name = w.session.findField t.id name
  := by
  have hsubset : t :: rest ⊆ w.session.types := fun c hc => (hleads.inherits c hc).1
  rw [findField, h.bases hleads rfl rfl hnodup, Session.findField, Session.findMember_eq hline]
  change (w.findIn _ ((t :: rest).map (·.id)) >>= _) = _
  rw [h.findIn _ hsubset]
  simp only [RealizedType.view_findField]
  cases List.findSome? (fun c => (c.findField? name).map (·.sig)) (t :: rest) with
  | some found => rfl
  | none => exact congrArg Except.error (h.unresolvable (hleads.first rfl) name)

/-- A method that a type has or inherits from a base. -/
theorem Faithful.findMethod_of_found {m : MethodSignature}
    (hm : (t :: rest).findSome? (fun c => (c.findMethod? name params).map (·.sig)) = some m) :
  w.findMethod t.id name params = .ok m ∧ w.session.findMethod t.id name params = .ok m
  := by
  have hsubset : t :: rest ⊆ w.session.types := fun c hc => (hleads.inherits c hc).1
  constructor
  · rw [findMethod, h.bases hleads rfl rfl hnodup]
    change (w.findIn _ ((t :: rest).map (·.id)) >>= _) = _
    rw [h.findIn _ hsubset]
    simp only [RealizedType.view_findMethod, hm]
    rfl
  · rw [Session.findMethod, Session.findMember_eq hline, hm]

/-- A method that a type neither has nor inherits from a base. -/
theorem Faithful.findMethod_of_none
    (hm : (t :: rest).findSome? (fun c => (c.findMethod? name params).map (·.sig)) = none)
    {us : List RealizedType} (hus : us ⊆ w.session.types)
    (hinherited : (if t.handle.kind.isInterface then w.inheritedInterfaces [t.id] else .ok [])
      = .ok (us.map (·.id))) :
  (w.findMethod t.id name params
    = match us.findSome? (fun c => (c.findMethod? name params).map (·.sig)) with
      | some m => .ok m
      | none => .error (w.session.unresolvable t.id name))
  ∧ w.session.findMethod t.id name params = .error (w.session.unresolvable t.id name)
  := by
  have hsubset : t :: rest ⊆ w.session.types := fun c hc => (hleads.inherits c hc).1
  have hlast : (w.findIn (fun s => s.methods.find? (·.isMatch name params none)) (us.map (·.id))
        >>= fun found => match found with
          | some m => pure m
          | none => .error (w.unresolvable t.id name))
      = match us.findSome? (fun c => (c.findMethod? name params).map (·.sig)) with
        | some m => .ok m
        | none => .error (w.session.unresolvable t.id name) := by
    rw [h.findIn _ hus, h.unresolvable (hleads.first rfl)]
    simp only [RealizedType.view_findMethod]
    cases us.findSome? (fun c => (c.findMethod? name params).map (·.sig)) <;> rfl
  constructor
  · rw [findMethod, h.bases hleads rfl rfl hnodup]
    change (w.findIn _ ((t :: rest).map (·.id)) >>= _) = _
    rw [h.findIn _ hsubset]
    simp only [RealizedType.view_findMethod, hm]
    rw [view, h t (hsubset List.mem_cons_self)]
    cases hkind : t.handle.kind.isInterface with
    | true =>
        rw [hkind, if_pos rfl] at hinherited
        change (if t.handle.kind.isInterface = true
          then w.inheritedInterfaces [t.id] >>= fun ids => w.findIn _ ids >>= _ else _) = _
        rw [if_pos hkind, hinherited]
        exact hlast
    | false =>
        rw [hkind, if_neg Bool.false_ne_true] at hinherited
        change (if t.handle.kind.isInterface = true then _
          else (.ok [] : Except BuildError _) >>= fun ids => w.findIn _ ids >>= _) = _
        rw [if_neg (by rw [hkind]; exact Bool.false_ne_true), hinherited]
        exact hlast
  · rw [Session.findMethod, Session.findMember_eq hline, hm]

end

variable {verify : Bool} {decls : TypeId → Option TypeDecl}

/-- What an interface inherits, as realized types. -/
theorem Faithful.exists_inherited
    (h : w.Faithful) (hlayered : Layered verify decls w.session.types)
    (himplements : w.session.Implements) (ht : t ∈ w.session.types) :
  ∃ us ⊆ w.session.types,
    (if t.handle.kind.isInterface then w.inheritedInterfaces [t.id] else .ok [])
        = .ok (us.map (·.id))
    ∧ ∀ u, u ∈ us ↔ t.handle.kind.isInterface = true
        ∧ ReflTransGen (RealizedInterface w.session.types) t u
  := by
  cases hkind : t.handle.kind.isInterface with
  | false => exact ⟨[], List.nil_subset _, rfl, by simp⟩
  | true =>
      obtain ⟨found, hfound⟩ : ∃ found, w.inheritedInterfaces [t.id] = .ok found := by
        apply exists_inheritedInterfacesFrom
        intro r hr x hpath
        obtain rfl := List.mem_singleton.mp hr
        obtain ⟨u, hu, rfl, -⟩ := h.reached himplements ht hpath
        rw [h u hu]
        rfl
      have hmem : ∀ x, x ∈ found ↔ ReflTransGen w.HasInterface t.id x := by
        intro x
        rw [mem_inheritedInterfaces_iff hfound]
        simp
      have hrealized : ∀ x ∈ found, ∃ u, w.session.realized? x = some u ∧ u.id = x
          ∧ ReflTransGen (RealizedInterface w.session.types) t u := by
        intro x hx
        obtain ⟨u, hu, rfl, hpath⟩ := h.reached himplements ht ((hmem x).mp hx)
        exact ⟨u, hlayered.find hu, rfl, hpath⟩
      refine ⟨found.filterMap w.session.realized?, ?_, ?_, ?_⟩
      · intro u hu
        obtain ⟨x, -, hu⟩ := List.mem_filterMap.mp hu
        exact List.mem_of_find?_eq_some hu
      · rw [if_pos rfl, hfound, List.map_filterMap]
        congr 1
        conv_lhs => rw [← List.filterMap_some (l := found)]
        apply List.filterMap_congr
        intro x hx
        obtain ⟨u, hu, hid, -⟩ := hrealized x hx
        rw [hu, Option.map_some, hid]
      · intro u
        rw [List.mem_filterMap]
        constructor
        · rintro ⟨x, hx, hu⟩
          obtain ⟨v, hv, -, hpath⟩ := hrealized x hx
          rw [hu] at hv
          cases hv
          exact ⟨rfl, hpath⟩
        · rintro ⟨-, hpath⟩
          obtain ⟨hu, hlinks⟩ := h.reaches ht hpath
          exact ⟨u.id, (hmem u.id).mpr hlinks, hlayered.find hu⟩

/-- When a session keeps a method back. -/
theorem withholds_iff
    {s : Session} {us : List RealizedType} (hline : ∀ c, c ∈ t :: rest ↔ Inherits s.types t c)
    (hus : ∀ u, u ∈ us ↔ t.handle.kind.isInterface = true
      ∧ ReflTransGen (RealizedInterface s.types) t u) :
  s.Withholds t name params
    ↔ (t :: rest).findSome? (fun c => (c.findMethod? name params).map (·.sig)) = none
      ∧ (us.findSome? fun c => (c.findMethod? name params).map (·.sig)).isSome
  := by
  rw [List.findSome?_eq_none_iff, List.findSome?_isSome_iff]
  simp only [Option.map_eq_none_iff, Option.isSome_map, hline, hus]
  constructor
  · rintro ⟨hkind, hunfound, u, hpath, hu⟩
    exact ⟨hunfound, u, ⟨hkind, hpath⟩, hu⟩
  · rintro ⟨hunfound, u, ⟨hkind, hpath⟩, hu⟩
    exact ⟨hkind, hunfound, u, hpath, hu⟩

/-- What a unit answers to lookups on a realized type. -/
theorem Faithful.answers
    (h : w.Faithful) (hlayered : Layered verify decls w.session.types)
    (himplements : w.session.Implements)
    (hacyclic : ∀ t, ¬ TransGen (RealizedBase w.session.types) t t) (ht : t ∈ w.session.types) :
  w.Answers w.session t
  := by
  obtain ⟨rest, hline, hmem⟩ := hlayered.lineage ht
  have hleads := Session.leads_lineage hlayered t.id
  rw [hline] at hleads
  have hnodup := hleads.nodup hlayered.distinct hacyclic
  obtain ⟨us, hus, hinherited, hreached⟩ := h.exists_inherited hlayered himplements ht
  have hinherits : ∀ c, c ∈ t :: rest ↔ Inherits w.session.types t c := by
    intro c
    rw [List.mem_cons, hmem, Inherits, reflTransGen_iff_eq_or_transGen]
  constructor
  case fields => apply h.findField_eq hline hleads hnodup
  case constructors => apply h.findConstructor_eq (hleads.first rfl)
  case methods =>
    intro name params
    rw [withholds_iff hinherits hreached]
    cases hm : (t :: rest).findSome? fun c => (c.findMethod? name params).map (·.sig) with
    | some m =>
        obtain ⟨hunit, hsession⟩ := h.findMethod_of_found hline hleads hnodup hm
        simp [hunit, hsession]
    | none =>
        obtain ⟨hunit, hsession⟩ :=
          h.findMethod_of_none hline hleads hnodup hm hus hinherited
        rw [hunit, hsession]
        cases us.findSome? fun c => (c.findMethod? name params).map (·.sig) <;> simp
  case withheld =>
    intro name params hwithholds
    obtain ⟨hm, hfound⟩ := (withholds_iff hinherits hreached).mp hwithholds
    obtain ⟨hunit, hsession⟩ := h.findMethod_of_none hline hleads hnodup hm hus hinherited
    obtain ⟨sig, hsig⟩ := Option.isSome_iff_exists.mp hfound
    obtain ⟨u, hu, hown⟩ := List.exists_of_findSome?_eq_some hsig
    obtain ⟨m, hm, rfl⟩ := Option.map_eq_some_iff.mp hown
    rw [hsig] at hunit
    exact ⟨hsession, u, m, ((hreached u).mp hu).2, hm, hunit⟩

end Workspace

namespace Project

/-- After every history, a unit that looks up a member of a realized type, between its operations or
for the body of one of its methods, gets what the session answers, but for methods that an interface
inherits from other interfaces: the unit finds them and the session does not.  The history declares
fewer than `2 ^ 32 - 1` types, so that 32 bits tell their ids apart. -/
theorem lookups_of_history
    (verify : Bool) (history : List (HostEvent ρ)) {i : Nat} {a : Assembly} {w : Workspace}
    {t : RealizedType} (hnumbered : ((empty verify).run history).session.Numbered)
    (ha : ((empty verify).run history).units[i]? = some a)
    (hw : (((empty verify).run history).workspace a).Edits w)
    (ht : t ∈ ((empty verify).run history).session.types) :
  (∀ before, before <+: history → ((empty verify).run before).NumbersFit)
  ∧ w.Answers ((empty verify).run history).session t
  := by
  refine ⟨fun before => numbersFit_run verify hnumbered, ?_⟩
  have hsound := (sound_empty verify).run history
  have hstacked := stacked_run verify history
  have himplements := implements_run verify history
  have hsession : w.session = ((empty verify).run history).session := hw.session
  have hacyclic := Stacked.acyclic hstacked
  have hfaithful := hsound.faithful hstacked ha hw
  rw [← hsession] at himplements hacyclic ht ⊢
  rw [Stacked, ← hsession] at hstacked
  apply hfaithful.answers hstacked himplements hacyclic ht

/-- An interface with a method, and an interface that inherits it. -/
def inheritingInterface : List (HostEvent Unit) :=
  [ .build (.openUnit "A"),
    .build (.change 0 (.declareType "I" .interfaceType {} none)),
    .build (.change 0 (.defineMethod ⟨1⟩ "F" {} .minimal)),
    .build (.change 0 (.declareType "J" .interfaceType
      { interfaces := [.defined ⟨⟨1⟩, .interfaceType⟩] } none)),
    .build (.change 0 .finalize)]

/-- The unit finds the method that `J` inherits, and the session does not. -/
theorem lookups_differ :
  ∃ a t m, ((empty true).run inheritingInterface).units[0]? = some a
    ∧ t ∈ ((empty true).run inheritingInterface).session.types ∧ t.fullName = "J"
    ∧ m.handle = ⟨⟨1⟩, 0⟩
    ∧ (((empty true).run inheritingInterface).workspace a).findMethod t.id "F" none = .ok m
    ∧ ((empty true).run inheritingInterface).session.findMethod t.id "F" none
      = .error (.unresolvableMember "J" "F")
  := by
  refine ⟨_, _, _, rfl, List.mem_of_getElem? (i := 1) rfl, ?_, ?_, rfl, ?_⟩ <;> decide +kernel

/-- The unit and the session answer alike but for the method that `J` inherits. -/
theorem lookups_of_inheritingInterface :
  ∃ a t, ((empty true).run inheritingInterface).units[0]? = some a
    ∧ t ∈ ((empty true).run inheritingInterface).session.types ∧ t.fullName = "J"
    ∧ (((empty true).run inheritingInterface).workspace a).Answers
        ((empty true).run inheritingInterface).session t
    ∧ ((((empty true).run inheritingInterface).workspace a).findMethod t.id "F" none).map (·.handle)
        = .ok ⟨⟨1⟩, 0⟩
  := by
  obtain ⟨a, t, m, ha, ht, hname, hhandle, hunit, -⟩ := lookups_differ
  refine ⟨a, t, ha, ht, hname, ?_, ?_⟩
  · exact (lookups_of_history true inheritingInterface (by decide +kernel) ha (.refl _) ht).2
  · rw [hunit, ← hhandle]
    rfl

/-- It is not so that a session finds every method that a unit finds. -/
theorem not_sessions_find_methods :
  ¬ ∀ (verify : Bool) (history : List (HostEvent Unit)) (i : Nat) (a : Assembly)
      (t : RealizedType), ((empty verify).run history).units[i]? = some a →
      t ∈ ((empty verify).run history).session.types →
      ∀ (name : String) (params : Option (List TypeRef)) (m : MethodSignature),
        (((empty verify).run history).workspace a).findMethod t.id name params = .ok m →
        ((empty verify).run history).session.findMethod t.id name params = .ok m
  := by
  intro h
  obtain ⟨a, t, m, ha, ht, -, -, hunit, hsession⟩ := lookups_differ
  have hfound := h true inheritingInterface 0 a t ha ht "F" none m hunit
  rw [hsession] at hfound
  cases hfound

end Project

end ManagedCode
