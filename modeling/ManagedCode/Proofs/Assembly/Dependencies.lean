import ManagedCode.Proofs.Assembly.CircularInheritance

/-!
# Dependencies within a unit

What a type has as its base or as an interface is a type of its unit, or a type that has been
realized (`Project.Grounded`).  So no link leads from a realized type back to a unit that is
still open, and a type that depends on another one of its unit is led to it by links of types
of the unit (`Project.Grounded.derives_of_depends`).
-/

namespace ManagedCode

open Relation

variable {ρ : Type}

theorem TypeDecl.mem_links_iff {d : TypeDecl} {y : TypeId} :
  y ∈ d.baseId?.toList ++ d.interfaceIds
    ↔ (∃ base, d.base = some base ∧ base.definedId? = some y)
      ∨ ∃ i ∈ d.interfaces, i.definedId? = some y
  := by
  rw [List.mem_append, Option.mem_toList, baseId?, interfaceIds, TypeRef.definedIds,
    Option.bind_eq_some_iff, List.mem_filterMap]

theorem Assembly.declares_iff {a : Assembly} {x : TypeId} : a.Declares x ↔ x ∈ a.ids := by
  constructor
  · rintro ⟨d, hd⟩
    apply mem_ids hd
  · intro hx
    obtain ⟨d, hd, rfl⟩ := List.mem_map.mp hx
    apply Option.isSome_iff_exists.mp
    rw [decl?, List.find?_isSome]
    exact ⟨d, hd, beq_self_eq_true _⟩

namespace Workspace

variable {w w' : Workspace} {x y : TypeId}

/-- The links of a new type lead to types that can be seen. -/
theorem Declares.isSome_of_link
    {d : TypeDecl} (h : w.Declares d) (hy : y ∈ d.baseId?.toList ++ d.interfaceIds) :
  (w.view? y).isSome
  := by
  obtain ⟨base, hbase, hid⟩ | ⟨i, hi, hid⟩ := TypeDecl.mem_links_iff.mp hy
  · obtain ⟨-, given, haccepted⟩ := h.base base hbase
    obtain ⟨-, id, rfl, hview⟩ := acceptBase_some haccepted
    cases hid
    exact hview
  · obtain ⟨given, hnone | haccepted⟩ := h.interfaces
    · rw [hnone] at hi
      cases hi
    · obtain hnil | ⟨id, rfl, hview⟩ := acceptInterfaces_ok haccepted i hi
      · cases hnil
      · cases hid
        exact hview

/-- Whatever an operation does to a unit, a new link leads to a type that can be seen. -/
theorem Redraws.derives_cases (h : w.Redraws w') (hxy : w'.assembly.Derives x y) :
  w.assembly.Derives x y ∨ (w.view? y).isSome
  := by
  obtain ⟨d', hd', hy⟩ := id hxy
  cases h with
  | edits h =>
      left
      have hx := h.decl x
      rw [hd'] at hx
      obtain ⟨d, hd, hedited⟩ := rel_of_some hx
      have hlinks : d'.baseId?.toList ++ d'.interfaceIds = d.baseId?.toList ++ d.interfaceIds :=
        (congrArg (fun d : TypeDecl => d.baseId?.toList ++ d.interfaceIds) hedited.outline :)
      rw [hlinks] at hy
      exact ⟨d, hd, hy⟩
  | declares d h heq =>
      rw [heq, decl?_declaring h.unused] at hd'
      obtain ⟨d₀, hd₀, rfl⟩ := Option.map_eq_some_iff.mp hd'
      have hy : y ∈ d₀.baseId?.toList ++ d₀.interfaceIds := by
        split at hy <;> exact hy
      obtain hold | ⟨-, hnew⟩ := Option.or_eq_some_iff.mp hd₀
      · left
        exact ⟨d₀, hold, hy⟩
      · right
        split at hnew
        · cases hnew
          apply h.isSome_of_link hy
        · cases hnew
  | rebases id d given base hd hkind hother hbase heq =>
      rw [heq, decl?_rebasing] at hd'
      obtain ⟨d₀, hd₀, rfl⟩ := Option.map_eq_some_iff.mp hd'
      split at hy
      · obtain ⟨base, rfl, hid⟩ | hinterface := TypeDecl.mem_links_iff.mp hy
        · right
          obtain ⟨-, id, rfl, hview⟩ := acceptBase_some hbase
          cases hid
          exact hview
        · left
          exact ⟨d₀, hd₀, TypeDecl.mem_links_iff.mpr (.inr hinterface)⟩
      · left
        exact ⟨d₀, hd₀, hy⟩
  | implements id d interface hd hkind hinterface heq =>
      rw [heq, decl?_implementing] at hd'
      obtain ⟨d₀, hd₀, rfl⟩ := Option.map_eq_some_iff.mp hd'
      split at hy
      · split at hy
        · left
          exact ⟨d₀, hd₀, hy⟩
        · obtain hbase | ⟨i, hi, hid⟩ := TypeDecl.mem_links_iff.mp hy
          · left
            exact ⟨d₀, hd₀, TypeDecl.mem_links_iff.mpr (.inl hbase)⟩
          · obtain hi | hi := List.mem_append.mp hi
            · left
              exact ⟨d₀, hd₀, TypeDecl.mem_links_iff.mpr (.inr ⟨i, hi, hid⟩)⟩
            · right
              obtain rfl := List.mem_singleton.mp hi
              obtain ⟨id, rfl, hview⟩ := acceptInterface_ok hinterface
              cases hid
              exact hview
      · left
        exact ⟨d₀, hd₀, hy⟩
  | realizes new unit h hopen hrun heq =>
      left
      rw [heq] at hxy
      rw [← derives_realizing w new]
      exact hxy

/-- Whatever an operation does to a unit, its types stay declared. -/
theorem Redraws.declares_of_declares (h : w.Redraws w') (hx : w.assembly.Declares x) :
  w'.assembly.Declares x
  := by
  rw [Assembly.declares_iff] at hx ⊢
  obtain ⟨hids, -⟩ | ⟨hids, -⟩ := h.numbers
  · rwa [hids]
  · rw [hids]
    apply List.mem_append_left _ hx

/-- A type has a base link or an interface link to another one. -/
def Refers (w : Workspace) (x y : TypeId) : Prop :=
  w.HasBase x y ∨ w.HasInterface x y

theorem Depends.refers (h : w.Depends x y) : TransGen w.Refers x y := by
  have hbase : ∀ {u v}, ReflTransGen w.HasBase u v → ReflTransGen w.Refers u v :=
    fun hpath => ReflTransGen.mono (fun _ _ => .inl) _ _ hpath
  have hinterface : ∀ {u v}, ReflTransGen w.HasInterface u v → ReflTransGen w.Refers u v :=
    fun hpath => ReflTransGen.mono (fun _ _ => .inr) _ _ hpath
  obtain hbelow | ⟨c, i, hc, hi, hpath⟩ := h
  · exact TransGen.mono (fun _ _ => .inl) _ _ hbelow
  · apply TransGen.trans_left _ (hinterface hpath)
    apply TransGen.tail' (hbase hc) (.inr hi)

end Workspace

namespace Project

variable {p : Project} {i : Nat} {a : Assembly} {x y : TypeId}

/-- A unit has declared a type that has been realized. -/
def Realized (p : Project) (x : TypeId) : Prop :=
  ∃ d, p.decl? x = some d ∧ d.state = .realized

/-- Every base and every interface of a type is a type of its unit or has been realized. -/
def Grounded (p : Project) : Prop :=
  ∀ (i : Nat) (a : Assembly), p.units[i]? = some a →
    ∀ x y, a.Derives x y → a.Declares y ∨ p.Realized y

/-- What a unit can see is a type of the unit or has been realized. -/
theorem Sound.realized_of_view (h : p.Sound) (hy : ((p.workspace a).view? y).isSome) :
  a.Declares y ∨ p.Realized y
  := by
  cases hd : a.decl? y with
  | some d =>
      left
      exact ⟨d, hd⟩
  | none =>
      right
      rw [Workspace.view?_of_no_decl hd, Option.isSome_map, Option.isSome_iff_exists] at hy
      obtain ⟨t, ht⟩ := hy
      obtain ⟨j, b, d, hb, hd', hrealized, -⟩ := h.origin t (List.mem_of_find?_eq_some ht)
      obtain rfl : t.id = y := by simpa using List.find?_some ht
      exact ⟨d, h.decl?_eq hb hd', hrealized⟩

theorem Grounded.turns {q : Project} (h : p.Grounded) (hsound : p.Sound) (hq : p.Turns ρ q) :
  q.Grounded
  := by
  cases hq with
  | stays => apply h
  | registers registry => exact h
  | opens name =>
      intro j b hb x y hxy
      obtain hb | rfl := open_cases hb
      · rw [Realized, decl?_open]
        apply h j b hb x y hxy
      · obtain ⟨d, hd, -⟩ := hxy
        cases hd
  | @changes i a ha c =>
      have hw := c.redraws (hsound.fresh ha)
      have hrealized : ∀ {y}, p.Realized y → (p.put i (c.perform (p.workspace a))).Realized y := by
        rintro y ⟨d, hd, hstate⟩
        exact ⟨d, hsound.decl?_put ha hw hd hstate, hstate⟩
      intro j b hb x y hxy
      obtain ⟨-, rfl⟩ | ⟨-, hb⟩ := put_cases ha hb
      · have hy : a.Declares y ∨ p.Realized y := by
          obtain hold | hview := hw.derives_cases hxy
          · apply h i a ha x y hold
          · apply hsound.realized_of_view hview
        apply hy.imp hw.declares_of_declares hrealized
      · apply (h j b hb x y hxy).imp_right hrealized

/-- A unit that is open has no realized type. -/
theorem Sound.not_realized
    (h : p.Sound) (ha : p.units[i]? = some a) (hopen : a.finalized = none) (hx : a.Declares x) :
  ¬ p.Realized x
  := by
  rintro ⟨d, hd, hstate⟩
  obtain ⟨d', hd'⟩ := hx
  rw [h.decl?_eq ha hd'] at hd
  cases hd
  rw [h.opened ha hopen x _ hd'] at hstate
  cases hstate

/-- A link that an open unit can see and that leads to one of its types comes from one of its types.
The links of a realized type are those of its declaration in another unit, which cannot see types of
this one. -/
theorem Grounded.derives_of_link
    (h : p.Grounded) (hsound : p.Sound) (hstacked : p.Stacked) (ha : p.units[i]? = some a)
    (hopen : a.finalized = none) (hlink : (p.workspace a).Refers x y) (hy : a.Declares y) :
  a.Derives x y
  := by
  cases hd : a.decl? x with
  | some d =>
      refine ⟨d, hd, List.mem_append.mpr ?_⟩
      obtain ⟨s, hs, hlink⟩ | ⟨s, hs, hlink⟩ := hlink
      · rw [Workspace.view?_of_decl hd] at hs
        cases hs
        left
        exact Option.mem_toList.mpr hlink
      · rw [Workspace.view?_of_decl hd] at hs
        cases hs
        right
        exact hlink
  | none =>
      have hview : ∀ {s}, (p.workspace a).view? x = some s → ∃ j b, p.units[j]? = some b ∧ j ≠ i
          ∧ ∀ z, s.base = some z ∨ z ∈ s.interfaces → b.Derives x z := by
        intro s hs
        rw [Workspace.view?_of_no_decl hd] at hs
        obtain ⟨t, ht, rfl⟩ := Option.map_eq_some_iff.mp hs
        obtain rfl : t.id = x := by simpa using List.find?_some ht
        obtain ⟨d, hd', -, hmirrors, hinterfaces⟩ :=
          Layered.mirrors hstacked (List.mem_of_find?_eq_some ht)
        obtain ⟨j, b, hb, hd'⟩ := exists_of_decl? hd'
        refine ⟨j, b, hb, ?_, ?_⟩
        · rintro rfl
          rw [ha] at hb
          cases hb
          rw [hd] at hd'
          cases hd'
        · intro z hz
          refine ⟨d, hd', List.mem_append.mpr ?_⟩
          rw [← hinterfaces, ← hmirrors.base]
          apply hz.imp_left Option.mem_toList.mpr
      have hnot : ∀ {j b}, p.units[j]? = some b → j ≠ i → ¬ b.Derives x y := by
        intro j b hb hji hxy
        obtain hyb | hrealized := h j b hb x y hxy
        · rw [Assembly.declares_iff] at hy hyb
          apply hsound.disjoint ha hb hji.symm y hy hyb
        · apply hsound.not_realized ha hopen hy hrealized
      obtain ⟨s, hs, hlink⟩ | ⟨s, hs, hlink⟩ := hlink
      · obtain ⟨j, b, hb, hji, hlinks⟩ := hview hs
        cases hnot hb hji (hlinks y (.inl hlink))
      · obtain ⟨j, b, hb, hji, hlinks⟩ := hview hs
        cases hnot hb hji (hlinks y (.inr hlink))

/-- In an open unit, a type that depends on another one is led to it by links of the unit. -/
theorem Grounded.derives_of_depends
    (h : p.Grounded) (hsound : p.Sound) (hstacked : p.Stacked) (ha : p.units[i]? = some a)
    (hopen : a.finalized = none) (hdepends : (p.workspace a).Depends x y) (hy : a.Declares y) :
  TransGen a.Derives x y
  := by
  have hstep : ∀ {u v}, (p.workspace a).Refers u v → a.Declares v → a.Derives u v :=
    fun hlink hv => h.derives_of_link hsound hstacked ha hopen hlink hv
  have hpath := hdepends.refers
  clear hdepends
  induction hpath using TransGen.head_induction_on with
  | single hlink => exact .single (hstep hlink hy)
  | head hlink _ ih =>
      obtain ⟨z, hfirst, -⟩ := TransGen.head'_iff.mp ih
      exact .head (hstep hlink hfirst.declares) ih

end Project

end ManagedCode
