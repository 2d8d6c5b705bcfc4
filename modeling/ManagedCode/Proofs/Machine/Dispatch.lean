import ManagedCode.Proofs.Assembly.Roots
import ManagedCode.Proofs.Machine.InterfaceCalls

/-!
# Which method runs

What a call by dispatch runs on an object of a realized type.  A method of a class runs as the
type has filled its slot (`Session.dispatch_class`), a method of an interface as the method
that the type takes for it (`Session.dispatch_contract`).
-/

namespace ManagedCode

open Relation

variable {p : Project} {verify : Bool} {decls : TypeId → Option TypeDecl}

/-! ## The bases of a type -/

/-- The bases of a realized type are met by following its base links. -/
theorem Layered.lineageFrom
    {s : Session} (h : Layered verify decls s.types) {fuel k : Nat} {t : RealizedType}
    (ht : s.types[k]? = some t) (hk : k < fuel) :
  ∃ rest, s.lineageFrom fuel t.id = ⟨t :: rest, none⟩
    ∧ ∀ c, c ∈ rest ↔ TransGen (RealizedBase s.types) t c
  := by
  induction fuel generalizing k t with
  | zero => cases hk
  | succ fuel ih =>
      have hmem := List.mem_of_getElem? ht
      have hrealized : s.realized? t.id = some t := h.find hmem
      rw [Session.lineageFrom]
      rw [hrealized]
      dsimp only
      split
      · next hbase =>
        refine ⟨[], rfl, ?_⟩
        intro c
        constructor
        · rintro ⟨⟩
        · intro habove
          obtain ⟨u, ⟨x, hx, -⟩, -⟩ := TransGen.head'_iff.mp habove
          rw [hbase] at hx
          cases hx
      · next x hbase =>
        obtain ⟨u, hu, -⟩ := h.tabled.base t hmem x hbase
        have hstep : RealizedBase s.types t u := ⟨x, hbase, hu⟩
        obtain ⟨j, hj, huj⟩ := h.earlier ht hstep
        obtain ⟨rest, hrest, hmemrest⟩ := ih huj (by omega)
        have hx : u.id = x := by simpa using List.find?_some hu
        rw [← hx, hrest]
        refine ⟨u :: rest, rfl, ?_⟩
        intro c
        rw [List.mem_cons, hmemrest]
        constructor
        · rintro (rfl | habove)
          · exact .single hstep
          · exact .head hstep habove
        · intro habove
          obtain ⟨u', hstep', hpath⟩ := TransGen.head'_iff.mp habove
          obtain rfl := hstep.unique hstep'
          obtain rfl | habove := reflTransGen_iff_eq_or_transGen.mp hpath
          · left
            rfl
          · right
            apply habove

theorem Layered.lineage
    {s : Session} (h : Layered verify decls s.types) {t : RealizedType} (ht : t ∈ s.types) :
  ∃ rest, s.lineage t.id = ⟨t :: rest, none⟩
    ∧ ∀ c, c ∈ rest ↔ TransGen (RealizedBase s.types) t c
  := by
  obtain ⟨k, hk⟩ := List.getElem?_of_mem ht
  have hlt := (List.getElem?_eq_some_iff.mp hk).1
  apply h.lineageFrom hk
  omega

/-- What a realized type reaches. -/
theorem Layered.reaches_iff
    {s : Session} (h : Layered verify decls s.types) {t : RealizedType} (ht : t ∈ s.types)
    {target : TypeId} :
  s.reaches t.id target = true
    ↔ ∃ c, Inherits s.types t c ∧ (c.id = target ∨ target ∈ c.allInterfaces)
  := by
  obtain ⟨rest, hrest, hmem⟩ := h.lineage ht
  have hinherits : ∀ c, c ∈ t :: rest ↔ Inherits s.types t c := by
    intro c
    rw [List.mem_cons, hmem]
    change _ ↔ ReflTransGen (RealizedBase s.types) t c
    rw [reflTransGen_iff_eq_or_transGen]
  rw [Session.reaches]
  rw [hrest]
  simp only [reduceCtorEq, Bool.or_eq_true, List.any_eq_true, hinherits,
    RealizedType.implements, beq_iff_eq, List.contains_iff_mem, or_false]

/-! ## What runs -/

namespace Session

variable {s : Session} {t u : RealizedType} {r : ObjectRef} {m own : RealizedMethod}

/-- What runs for a method on objects of a type: the method that the type has put into its
slot, or the method itself if it has no slot there. -/
def filled (s : Session) (t : RealizedType) (m : RealizedMethod) : Except Fault RealizedMethod :=
  match m.vtableSlot.bind t.vtable.method? with
  | some held => s.methodAt held
  | none => .ok m

theorem typeAt_eq {x : TypeId} (h : s.realized? x = some t) : s.typeAt x = .ok t := by
  rw [typeAt]
  rw [h]

/-- What a call runs once it is known which method fills its slot. -/
theorem filled_eq (h : s.methodAt m.handle = .ok m) :
  (match m.vtableSlot.bind t.vtable.method? with
    | some held => if held = m.handle then return m else s.methodAt held
    | none => return m)
  = s.filled t m
  := by
  rw [filled]
  cases m.vtableSlot.bind t.vtable.method? with
  | none => rfl
  | some held =>
      dsimp only
      split
      · next hsame =>
        rw [hsame, h]
        rfl
      · rfl

/-- A method of a class runs as the type of the object has filled its slot. -/
theorem dispatch_class
    (ht : s.realized? r.type = some t) (hu : s.realized? m.handle.owner = some u)
    (hclass : u.handle.kind.isInterface = false)
    (hreaches : s.reaches r.type m.handle.owner = true) (hm : s.methodAt m.handle = .ok m) :
  s.dispatch (.object r) m = s.filled t m
  := by
  rw [dispatch, ← filled_eq hm]
  dsimp only
  rw [hreaches, typeAt_eq ht, typeAt_eq hu]
  simp only [Bool.not_true, Bool.false_eq_true, if_false]
  change (if u.handle.kind.isInterface = true then _ else _ >>= _) = _
  rw [hclass]
  rfl

/-- A method of an interface runs as the method that the type of the object takes for it. -/
theorem dispatch_contract
    (ht : s.realized? r.type = some t) (hu : s.realized? m.handle.owner = some u)
    (hinterface : u.handle.kind.isInterface = true)
    (hreaches : s.reaches r.type m.handle.owner = true)
    (hm : t.implementation? m.handle = some own.handle) (hown : s.methodAt own.handle = .ok own) :
  s.dispatch (.object r) m = s.filled t own
  := by
  rw [dispatch, ← filled_eq hown]
  dsimp only
  rw [hreaches, typeAt_eq ht, typeAt_eq hu]
  simp only [Bool.not_true, Bool.false_eq_true, if_false]
  change (if u.handle.kind.isInterface = true then _ else _ >>= _) = _
  rw [hinterface, hm]
  dsimp only
  rw [if_pos rfl, hown]
  rfl

end Session

end ManagedCode
