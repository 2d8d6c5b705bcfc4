import ManagedCode.Proofs.Assembly.Visiting

/-!
# Where types are placed

Every type of a unit is a type at the top level, or is nested in one at some depth
(`Assembly.Rooted`), and it is nested in the type that encloses it (`Assembly.Enclosing`).
This holds throughout the lifetime of a session.
-/

namespace ManagedCode

open Relation

variable {ρ : Type}

namespace Assembly

/-- Every type of a unit is nested, at some depth, in a type at the top level. -/
def Rooted (a : Assembly) : Prop :=
  ∀ x, a.Declares x → ∃ root ∈ a.topLevel, ReflTransGen a.Nests root x

/-- A type that is enclosed in another one is nested in it. -/
def Enclosing (a : Assembly) : Prop :=
  ∀ x d outer, a.decl? x = some d → d.enclosing = some outer → a.Nests outer x

/-- A unit has kept its types where they were. -/
structure KeepsPlaces (a a' : Assembly) : Prop where
  topLevel : a.topLevel ⊆ a'.topLevel
  nests : ∀ x y, a.Nests x y → a'.Nests x y

variable {a a' : Assembly} {x y : TypeId}

theorem KeepsPlaces.rooted (h : a.KeepsPlaces a') (hroot : ∃ root ∈ a.topLevel, ReflTransGen a.Nests root x) :
  ∃ root ∈ a'.topLevel, ReflTransGen a'.Nests root x
  := by
  obtain ⟨root, hroot, hpath⟩ := hroot
  exact ⟨root, h.topLevel hroot, ReflTransGen.mono h.nests root x hpath⟩

theorem KeepsPlaces.of_decl
    (htopLevel : a.topLevel ⊆ a'.topLevel)
    (hdecl : ∀ x d, a.decl? x = some d → ∃ d', a'.decl? x = some d' ∧ d.nested ⊆ d'.nested) :
  a.KeepsPlaces a'
  := by
  refine ⟨htopLevel, ?_⟩
  rintro x y ⟨d, hd, hy⟩
  obtain ⟨d', hd', hnested⟩ := hdecl x d hd
  exact ⟨d', hd', hnested hy⟩

end Assembly

namespace Workspace

variable {w w' : Workspace}

/-- A new type leaves the others where they are. -/
theorem Declares.keepsPlaces {d : TypeDecl} (h : w.Declares d) :
  w.assembly.KeepsPlaces (w.declaring d).assembly
  := by
  apply Assembly.KeepsPlaces.of_decl
  · rw [declaring]
    split <;> apply List.subset_append_left
  · intro x d' hd'
    rw [decl?_declaring h.unused, hd', Option.some_or, Option.map_some]
    refine ⟨_, rfl, ?_⟩
    split
    · apply List.subset_append_left
    · apply List.Subset.refl

/-- A new type has its place at the top level or in a type that there was before. -/
theorem Declares.placed {d : TypeDecl} (h : w.Declares d) :
  (d.enclosing = none ∧ d.id ∈ (w.declaring d).assembly.topLevel)
  ∨ ∃ outer, d.enclosing = some outer ∧ w.assembly.Declares outer
    ∧ (w.declaring d).assembly.Nests outer d.id
  := by
  cases houter : d.enclosing with
  | none =>
      left
      refine ⟨rfl, ?_⟩
      rw [declaring]
      simp [houter, enterType]
  | some outer =>
      right
      obtain ⟨o, ho⟩ := h.enclosing outer houter
      obtain ⟨ho, -⟩ := Assembly.building_ok ho
      refine ⟨outer, rfl, ⟨o, ho⟩, { o with nested := o.nested ++ [d.id] }, ?_, by simp⟩
      rw [decl?_declaring h.unused, ho, Option.some_or, Option.map_some, if_pos houter]

/-- Where nothing is declared, all types stay in their places. -/
theorem keepsPlaces_of_kept
    {a' : Assembly} (htopLevel : a'.topLevel = w.assembly.topLevel)
    (hdecl : ∀ x, Option.Rel (fun d d' => d'.nested = d.nested ∧ d'.enclosing = d.enclosing)
      (w.assembly.decl? x) (a'.decl? x)) :
  w.assembly.KeepsPlaces a'
  := by
  apply Assembly.KeepsPlaces.of_decl
  · rw [htopLevel]
    apply List.Subset.refl
  · intro x d hd
    have hx := hdecl x
    rw [hd] at hx
    obtain ⟨d', hd', hnested, -⟩ := rel_some hx
    refine ⟨d', hd', ?_⟩
    rw [hnested]
    apply List.Subset.refl

theorem topLevel_realizing (w : Workspace) (new : List RealizedType) :
  (w.realizing new).assembly.topLevel = w.assembly.topLevel
  := by
  induction new using List.reverseRecOn with
  | nil => rfl
  | append_singleton new t ih =>
      rw [realizing_append]
      apply ih

/-- Whatever an operation does to a unit, its types stay where they are, and there is at most
one new type, which has a place. -/
theorem Redraws.places (h : w.Redraws w') :
  w.assembly.KeepsPlaces w'.assembly
  ∧ ∀ x d', w'.assembly.decl? x = some d' →
      (∃ d, w.assembly.decl? x = some d ∧ d'.enclosing = d.enclosing)
      ∨ (d'.enclosing = none ∧ x ∈ w'.assembly.topLevel)
      ∨ ∃ outer, d'.enclosing = some outer ∧ w.assembly.Declares outer
        ∧ w'.assembly.Nests outer x
  := by
  have hkept : w'.assembly.topLevel = w.assembly.topLevel →
      (∀ x, Option.Rel (fun d d' => d'.nested = d.nested ∧ d'.enclosing = d.enclosing)
        (w.assembly.decl? x) (w'.assembly.decl? x)) →
      w.assembly.KeepsPlaces w'.assembly
      ∧ ∀ x d', w'.assembly.decl? x = some d' →
        ∃ d, w.assembly.decl? x = some d ∧ d'.enclosing = d.enclosing := by
    intro htopLevel hdecl
    refine ⟨keepsPlaces_of_kept htopLevel hdecl, ?_⟩
    intro x d' hd'
    have hx := hdecl x
    rw [hd'] at hx
    obtain ⟨d, hd, -, henclosing⟩ := rel_of_some hx
    exact ⟨d, hd, henclosing⟩
  have hmap : ∀ {d? : Option TypeDecl} {f : TypeDecl → TypeDecl},
      (∀ d, (f d).nested = d.nested ∧ (f d).enclosing = d.enclosing) →
        Option.Rel (fun d d' => d'.nested = d.nested ∧ d'.enclosing = d.enclosing)
          d? (d?.map f) := by
    intro d? f hf
    cases d? with
    | none => exact .none
    | some d => exact .some (hf d)
  cases h with
  | edits h =>
      have htopLevel : w'.assembly.topLevel = w.assembly.topLevel :=
        (congrArg Assembly.topLevel h.assembly :)
      refine (hkept htopLevel fun x => ?_).imp_right fun hdecl x d' hd' => .inl (hdecl x d' hd')
      apply rel_imp (h.decl x)
      intro d d' hedited
      exact ⟨(congrArg TypeDecl.nested hedited.outline :),
        (congrArg TypeDecl.enclosing hedited.outline :)⟩
  | declares d h heq =>
      subst heq
      refine ⟨h.keepsPlaces, ?_⟩
      intro x d' hd'
      rw [decl?_declaring h.unused] at hd'
      obtain ⟨d₀, hd₀, rfl⟩ := Option.map_eq_some_iff.mp hd'
      have henclosing : ∀ {d₀ : TypeDecl} {p : Prop} [Decidable p], (if p
          then { d₀ with nested := d₀.nested ++ [d.id] } else d₀ : TypeDecl).enclosing
            = d₀.enclosing := by
        intro d₀ p _
        split <;> rfl
      rw [henclosing]
      obtain hold | ⟨-, hnew⟩ := Option.or_eq_some_iff.mp hd₀
      · left
        exact ⟨d₀, hold, rfl⟩
      · right
        split at hnew
        · next hid =>
          cases hnew
          subst hid
          apply h.placed
        · cases hnew
  | rebases id d given base hd hkind hother hbase heq =>
      rw [heq] at hkept ⊢
      refine (hkept rfl fun x => ?_).imp_right fun hdecl x d' hd' => .inl (hdecl x d' hd')
      rw [decl?_rebasing]
      apply hmap
      intro d
      split <;> exact ⟨rfl, rfl⟩
  | implements id d interface hd hkind hinterface heq =>
      rw [heq] at hkept ⊢
      refine (hkept rfl fun x => ?_).imp_right fun hdecl x d' hd' => .inl (hdecl x d' hd')
      rw [decl?_implementing]
      apply hmap
      intro d
      split
      · split <;> exact ⟨rfl, rfl⟩
      · exact ⟨rfl, rfl⟩
  | realizes new unit h hopen hrun heq =>
      rw [heq] at hkept ⊢
      refine (hkept (topLevel_realizing w new) fun x => ?_).imp_right
        fun hdecl x d' hd' => .inl (hdecl x d' hd')
      change Option.Rel _ _ ((w.realizing new).assembly.decl? x)
      rw [decl?_realizing]
      apply hmap
      intro d
      split <;> exact ⟨rfl, rfl⟩

/-- Whatever an operation does to a unit, its types stay rooted. -/
theorem Redraws.rooted (h : w.Redraws w') (hrooted : w.assembly.Rooted) : w'.assembly.Rooted := by
  obtain ⟨hplaces, hdecl⟩ := h.places
  rintro x ⟨d', hd'⟩
  obtain ⟨d, hd, -⟩ | ⟨-, htop⟩ | ⟨outer, -, houter, hnests⟩ := hdecl x d' hd'
  · apply hplaces.rooted (hrooted x ⟨d, hd⟩)
  · exact ⟨x, htop, .refl⟩
  · obtain ⟨root, hroot, hpath⟩ := hplaces.rooted (hrooted outer houter)
    exact ⟨root, hroot, hpath.tail hnests⟩

/-- Whatever an operation does to a unit, its types stay nested in those that enclose them. -/
theorem Redraws.enclosing (h : w.Redraws w') (henclosing : w.assembly.Enclosing) :
  w'.assembly.Enclosing
  := by
  obtain ⟨hplaces, hdecl⟩ := h.places
  intro x d' outer hd' houter
  obtain ⟨d, hd, hsame⟩ | ⟨hnone, -⟩ | ⟨outer', houter', -, hnests⟩ := hdecl x d' hd'
  · apply hplaces.nests
    apply henclosing x d outer hd
    rw [← hsame, houter]
  · rw [hnone] at houter
    cases houter
  · rw [houter] at houter'
    cases houter'
    apply hnests

end Workspace

end ManagedCode
