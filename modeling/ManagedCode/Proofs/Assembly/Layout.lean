import ManagedCode.Assembly.Layout
import ManagedCode.Proofs.Assembly.Building

/-!
# Realized types and their declarations

What laying out a type makes of its declaration: its place, its base and its methods are
those of the declaration, position by position, and a class gets the interface map that
`implementAll` makes from the map of its base.
-/

namespace ManagedCode

/-- A realized type has the place, the base and the methods of a declaration. -/
structure RealizedType.Mirrors (t : RealizedType) (d : TypeDecl) : Prop where
  handle : t.handle = d.handle
  fullName : t.fullName = d.fullName
  base : t.base = d.baseId?
  methods : (TypeView.ofRealized t).methods = (TypeView.ofDecl d).methods
  overrides : t.methods.map (·.overrides) = d.methods.map (·.overrides)

/-- The methods of a declaration as lookups see them, of which the first are at the
given position. -/
def TypeDecl.signaturesFrom (d : TypeDecl) (index : Nat) (ms : List MethodDecl) :
    List MethodSignature :=
  ms.mapIdx fun i m => m.sig (d.methodRef (i + index))

/-- Signatures are settled with the heads of methods. -/
theorem signatures_of_heads (ms : List MethodDecl) (at' : Nat → MethodRef) :
  ((ms.map (·.head)).mapIdx fun i m => m.sig (at' i)) = ms.mapIdx fun i m => m.sig (at' i)
  := by
  apply List.ext_getElem?
  intro i
  simp only [List.getElem?_mapIdx, List.getElem?_map, Option.map_map]
  rfl

/-- The signatures of a type that has grown. -/
theorem TypeDecl.Extends.signatures
    {d d' : TypeDecl} {ms : List MethodDecl} (h : d.Extends ms d') :
  (TypeView.ofDecl d').methods
    = (TypeView.ofDecl d).methods ++ d.signaturesFrom d.methods.length ms
  := by
  have href : d'.methodRef = d.methodRef := by
    funext i
    rw [TypeDecl.methodRef, h.id_eq, TypeDecl.methodRef]
  change (d'.methods.mapIdx fun i m => m.sig (d'.methodRef i)) = _
  rw [← signatures_of_heads, h.methods, href, List.mapIdx_append, signatures_of_heads,
    signatures_of_heads]
  simp only [List.length_map]
  rfl

theorem RealizedType.Mirrors.of_extends
    {t : RealizedType} {d d' : TypeDecl} (h : t.Mirrors d) (hextends : d.Extends [] d') :
  t.Mirrors d'
  := by
  constructor
  · rw [h.handle, hextends.handle]
  · rw [h.fullName, hextends.fullName]
  · rw [h.base, TypeDecl.baseId?, TypeDecl.baseId?, hextends.base]
  · rw [h.methods, hextends.signatures]
    simp [TypeDecl.signaturesFrom]
  · have := congrArg (List.map (·.overrides)) hextends.methods
    rw [h.overrides]
    simpa [Function.comp_def, MethodDecl.head] using this.symm

namespace Workspace

variable {w : Workspace} {d : TypeDecl}

/-- A method keeps what it was declared with. -/
theorem layoutMethod_ok
    {l l' : MethodLayout} {m : MethodDecl} (h : w.layoutMethod d l m = .ok l') :
  ∃ r : RealizedMethod, l'.methods = l.methods ++ [r]
    ∧ r.sig = m.sig (d.methodRef l.methods.length) ∧ r.overrides = m.overrides
  := by
  rw [layoutMethod] at h
  dsimp only at h
  split at h
  · cases h
  split at h
  · cases h
  split at h
  · obtain ⟨⟨slot, vtable⟩, -, h⟩ := exists_of_bind_ok h
    cases h
    exact ⟨_, rfl, rfl, rfl⟩
  · cases h
    exact ⟨_, rfl, rfl, rfl⟩

theorem layoutMethods_ok
    {ms : List MethodDecl} {l l' : MethodLayout} (h : ms.foldlM (w.layoutMethod d) l = .ok l') :
  ∃ rs : List RealizedMethod, l'.methods = l.methods ++ rs
    ∧ rs.map (·.sig) = d.signaturesFrom l.methods.length ms
    ∧ rs.map (·.overrides) = ms.map (·.overrides)
  := by
  induction ms generalizing l with
  | nil =>
      cases h
      exact ⟨[], by simp, rfl, rfl⟩
  | cons m ms ih =>
      rw [List.foldlM_cons] at h
      obtain ⟨l₁, hone, hrest⟩ := exists_of_bind_ok h
      obtain ⟨r, hr, hsig, hoverrides⟩ := layoutMethod_ok hone
      obtain ⟨rs, hrs, hsigs, hall⟩ := ih hrest
      refine ⟨r :: rs, ?_, ?_, ?_⟩
      · rw [hrs, hr, List.append_assoc, List.singleton_append]
      · rw [List.map_cons, hsigs, hsig, hr]
        simp [TypeDecl.signaturesFrom, List.mapIdx_cons, Nat.add_right_comm _ 1, Nat.add_assoc]
      · rw [List.map_cons, List.map_cons, hall, hoverrides]

theorem layoutBase_ok {base : Option RealizedType} (h : w.layoutBase d = .ok base) :
  base = d.baseId?.bind w.session.realized? ∧ base.map (·.id) = d.baseId?
  := by
  rw [layoutBase] at h
  split at h
  · next hbase =>
    cases h
    rw [hbase]
    exact ⟨rfl, rfl⟩
  · next b hbase =>
    split at h
    · cases h
    · next t ht =>
      split at h
      · cases h
      · cases h
        rw [hbase]
        refine ⟨ht.symm, ?_⟩
        have := List.find?_some ht
        simpa using this

/-- What laying out a type reads off its declaration and the realized base. -/
theorem layoutType_ok {id : TypeId} {t : RealizedType} (h : w.layoutType id = .ok t) :
  ∃ d base, w.assembly.decl? id = some d ∧ t.Mirrors d ∧ w.layoutBase d = .ok base
    ∧ w.layoutInterfaces d t.methods ((base.map (·.interfaceMap)).getD [])
      = .ok (t.allInterfaces, t.interfaceMap)
  := by
  rw [layoutType] at h
  obtain ⟨d, hd, h⟩ := exists_of_bind_ok h
  obtain ⟨base, hbase, h⟩ := exists_of_bind_ok h
  obtain ⟨-, hid⟩ := layoutBase_ok hbase
  obtain ⟨methods, hmethods, h⟩ := exists_of_bind_ok h
  obtain ⟨rs, hrs, hsigs, hoverrides⟩ := layoutMethods_ok hmethods
  obtain ⟨⟨all, map⟩, hmap, h⟩ := exists_of_bind_ok h
  obtain ⟨_, -, h⟩ := exists_of_bind_ok h
  cases h
  rw [List.nil_append] at hrs
  subst hrs
  refine ⟨d, base, Assembly.decl_ok hd, ⟨rfl, rfl, hid, ?_, hoverrides⟩, hbase, hmap⟩
  change methods.methods.map (·.sig) = _
  rw [hsigs]
  simp [TypeDecl.signaturesFrom, TypeView.ofDecl]

theorem layoutType_interfaces
    {id : TypeId} {t : RealizedType} (h : w.layoutType id = .ok t)
    (hd : w.assembly.decl? id = some d) :
  t.interfaces = d.interfaceIds
  := by
  rw [layoutType] at h
  obtain ⟨d', hd', h⟩ := exists_of_bind_ok h
  rw [Assembly.decl_ok hd'] at hd
  obtain rfl := Option.some.inj hd
  obtain ⟨base, -, h⟩ := exists_of_bind_ok h
  obtain ⟨methods, -, h⟩ := exists_of_bind_ok h
  obtain ⟨⟨all, map⟩, -, h⟩ := exists_of_bind_ok h
  obtain ⟨_, -, h⟩ := exists_of_bind_ok h
  cases h
  rfl

end Workspace

end ManagedCode
