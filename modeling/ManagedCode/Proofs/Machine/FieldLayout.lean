import ManagedCode.Proofs.Assembly.FieldSlots
import ManagedCode.Proofs.Machine.Dispatch

/-!
# The fields of objects

An object has the fields that its class and the bases of the class declare for objects, those of
the last base first (`Session.instanceFields`).  In every session their slots are numbered one
after the other in this order, and the values that slots start with are those of the fields
(`Project.LaidOut`), so that an object starts with what an object of a base starts with, followed
by more.
-/

namespace ManagedCode

variable {ρ : Type} {verify : Bool} {decls : TypeId → Option TypeDecl}

/-- The fields that the objects of a type have. -/
def Session.instanceFields (s : Session) (x : TypeId) : List RealizedField :=
  (s.lineage x).types.reverse.flatMap (·.instanceFields)

/-- How the fields of a class and of its bases are laid out: they are the declared ones, the slots
of those that objects have are numbered one after the other, each starts with the value of its
field, and the bases have the same slots. -/
structure Project.LaidOut (p : Project) (t : RealizedType) : Prop where
  complete : (p.session.lineage t.id).missing = none
  declared : ∀ u ∈ (p.session.lineage t.id).types,
    ∃ d, p.decl? u.id = some d ∧ u.fields.map (·.declared) = d.fields
  slots : (p.session.instanceFields t.id).map (·.slot)
    = (List.range t.instanceDefaults.length).map .instance
  defaults : (p.session.instanceFields t.id).map (·.initial) = t.instanceDefaults
  inherited : ∀ u ∈ (p.session.lineage t.id).types, u.instanceDefaults <+: t.instanceDefaults

/-- How the fields along a line of bases are laid out, the last of which come first: their slots
are numbered one after the other, and start with the given values. -/
structure Lined (line : List RealizedType) (values : List Value) : Prop where
  slots : (line.reverse.flatMap (·.instanceFields)).map (·.slot)
    = (List.range values.length).map .instance
  defaults : (line.reverse.flatMap (·.instanceFields)).map (·.initial) = values
  inherited : ∀ u ∈ line, u.instanceDefaults <+: values

theorem Lined.nil : Lined [] [] :=
  ⟨rfl, rfl, by simp⟩

/-- A class whose fields are laid out behind those of its base. -/
theorem Lined.cons
    {line : List RealizedType} {values : List Value} {t : RealizedType} (h : Lined line values)
    (hdefaults : t.instanceDefaults = values ++ t.instanceFields.map (·.initial))
    (hslots : t.instanceFields.map (·.slot)
      = (List.range' values.length t.instanceFields.length).map .instance) :
  Lined (t :: line) t.instanceDefaults
  := by
  have hjoined := List.range'_append_1 (s := 0) (m := values.length) (n := t.instanceFields.length)
  rw [Nat.zero_add] at hjoined
  refine ⟨?_, ?_, ?_⟩
  · simp only [List.reverse_cons, List.flatMap_append, List.flatMap_singleton, List.map_append]
    rw [h.slots, hslots, hdefaults, ← List.map_append, List.length_append, List.length_map,
      List.range_eq_range', List.range_eq_range', hjoined]
  · simp only [List.reverse_cons, List.flatMap_append, List.flatMap_singleton, List.map_append]
    rw [h.defaults, ← hdefaults]
  · intro u hu
    obtain rfl | hu := List.mem_cons.mp hu
    · exact List.prefix_rfl
    · exact (h.inherited u hu).trans ⟨_, hdefaults.symm⟩

namespace Layered

variable {s : Session} {t u : RealizedType} {fuel k : Nat}

/-- The fields of a type and of all its bases. -/
theorem lined (h : Layered verify decls s.types) (ht : s.types[k]? = some t) (hk : k < fuel) :
  Lined (s.lineageFrom fuel t.id).types t.instanceDefaults
  := by
  induction fuel generalizing k t with
  | zero => cases hk
  | succ fuel ih =>
      have hmem := List.mem_of_getElem? ht
      obtain ⟨d, -, hlays⟩ := h.fields hmem
      have hdefaults : t.instanceDefaults
          = t.inheritedDefaults s.types ++ t.instanceFields.map (·.initial) := hlays.defaults
      have hslots : t.instanceFields.map (·.slot)
          = (List.range' (t.inheritedDefaults s.types).length t.instanceFields.length).map
              .instance := hlays.slots
      have hrealized : s.realized? t.id = some t := h.find hmem
      rw [Session.lineageFrom]
      rw [hrealized]
      dsimp only
      split
      · next hbase =>
        have hnone : t.inheritedDefaults s.types = [] := by
          rw [RealizedType.inheritedDefaults]
          rw [hbase]
          rfl
        rw [hnone] at hdefaults hslots
        exact Lined.nil.cons hdefaults hslots
      · next x hbase =>
        obtain ⟨u, hu, -⟩ := h.tabled.base t hmem x hbase
        have hstep : RealizedBase s.types t u := ⟨x, hbase, hu⟩
        obtain ⟨j, hj, huj⟩ := h.earlier ht hstep
        have hx : u.id = x := by simpa using List.find?_some hu
        have hline := ih huj (by omega)
        rw [hx] at hline
        rw [hstep.inheritedDefaults] at hdefaults hslots
        exact hline.cons hdefaults hslots

/-- The bases of a realized type are realized. -/
theorem mem_of_mem_lineage
    (h : Layered verify decls s.types) (ht : t ∈ s.types) (hu : u ∈ (s.lineage t.id).types) :
  u ∈ s.types
  := by
  obtain ⟨rest, hrest, hmem⟩ := h.lineage ht
  rw [hrest] at hu
  obtain rfl | hu := List.mem_cons.mp hu
  · exact ht
  · exact (h.tabled.size_le ht ((hmem u).mp hu).to_reflTransGen).1

/-- A field of a realized type is found under its handle. -/
theorem fieldAt_of_getElem?
    (h : Layered verify decls s.types) (ht : t ∈ s.types) {f : RealizedField} {i : Nat}
    (hf : t.fields[i]? = some f) :
  f.handle = ⟨t.id, i⟩ ∧ s.fieldAt f.handle = .ok f
  := by
  obtain ⟨d, -, hlays⟩ := h.fields ht
  have hhandle : f.handle = ⟨t.id, i⟩ := by
    have hhandles := congrArg (·[i]?) hlays.handles
    simp only [List.getElem?_map, hf, Option.map_some] at hhandles
    obtain ⟨j, hj, hsame⟩ := Option.map_eq_some_iff.mp hhandles.symm
    rw [← hsame, (List.getElem?_eq_some_iff.mp hj).2.symm, List.getElem_range]
  refine ⟨hhandle, ?_⟩
  rw [Session.fieldAt]
  rw [hhandle, Session.typeAt_eq (h.find ht)]
  dsimp only [bind, Except.bind]
  rw [RealizedType.field?, hf]
  rfl

/-- A field of an object is found under its handle. -/
theorem fieldAt_eq
    (h : Layered verify decls s.types) (ht : t ∈ s.types) {f : RealizedField}
    (hf : f ∈ s.instanceFields t.id) :
  s.fieldAt f.handle = .ok f
  := by
  obtain ⟨u, hu, hf⟩ := List.mem_flatMap.mp hf
  have humem := h.mem_of_mem_lineage ht (List.mem_reverse.mp hu)
  obtain ⟨i, hi⟩ := List.getElem?_of_mem (List.mem_of_mem_filter hf)
  exact (h.fieldAt_of_getElem? humem hi).2

theorem laidOut
    {p : Project} (h : Layered verify p.decl? p.session.types) (ht : t ∈ p.session.types) :
  p.LaidOut t
  := by
  obtain ⟨k, hk⟩ := List.getElem?_of_mem ht
  have hlt := (List.getElem?_eq_some_iff.mp hk).1
  have hlined := h.lined hk (Nat.lt_succ_of_lt hlt)
  constructor
  · obtain ⟨rest, hrest, -⟩ := h.lineage ht
    rw [hrest]
  · intro u hu
    obtain ⟨d, hd, hlays⟩ := h.fields (h.mem_of_mem_lineage ht hu)
    exact ⟨d, hd, hlays.declared⟩
  · exact hlined.slots
  · exact hlined.defaults
  · exact hlined.inherited

end Layered

namespace Project

/-- In every session the fields of all types are laid out like this. -/
theorem laidOut_run (verify : Bool) (history : List (HostEvent ρ)) :
  ∀ t ∈ ((empty verify).run history).session.types, ((empty verify).run history).LaidOut t
  := by
  intro t ht
  exact (stacked_run verify history).laidOut ht

variable {p : Project} {t : RealizedType} {f g : RealizedField}

/-- A field of an object has a slot that the object has. -/
theorem LaidOut.slot (h : p.LaidOut t) (hf : f ∈ p.session.instanceFields t.id) :
  ∃ i < t.instanceDefaults.length, f.slot = .instance i
  := by
  have hmem := List.mem_map_of_mem (f := (·.slot)) hf
  rw [h.slots] at hmem
  obtain ⟨i, hi, hslot⟩ := List.mem_map.mp hmem
  exact ⟨i, List.mem_range.mp hi, hslot.symm⟩

/-- Different fields of an object have different slots. -/
theorem LaidOut.eq_of_slot
    (h : p.LaidOut t) (hf : f ∈ p.session.instanceFields t.id)
    (hg : g ∈ p.session.instanceFields t.id) (hslot : g.slot = f.slot) :
  g = f
  := by
  have hnodup : ((p.session.instanceFields t.id).map (·.slot)).Nodup := by
    rw [h.slots]
    apply List.nodup_range.map
    intro i j hij
    exact FieldStorage.instance.inj hij
  exact List.inj_on_of_nodup_map hnodup hg hf hslot

end Project

end ManagedCode
