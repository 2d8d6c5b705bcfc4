import ManagedCode.Proofs.Assembly.Placement
import ManagedCode.Proofs.Assembly.Roots

/-!
# Reports of circular inheritance

Looking the bases of a type up is the one search that reports circular inheritance, and it
does so only where base links form a cycle (`Workspace.exists_cycle_of_bases`).  Types that
have been realized lie on no such cycle, so the cycle is one of types of the unit
(`Workspace.Settled.derives_cycle`).
-/

namespace ManagedCode

open Relation

/-- An error reports circular inheritance. -/
def BuildError.IsCircular (e : BuildError) : Prop :=
  ∃ fullName, e = .circularInheritance fullName

/-! ## Searches that report nothing of the kind -/

section

variable {α β : Type} {x : Except BuildError α} {f : α → Except BuildError β}

/-- A computation does not report circular inheritance. -/
def Quiet (x : Except BuildError α) : Prop :=
  ∀ e, x = .error e → ¬ e.IsCircular

/-- An answer is no refusal. -/
theorem quiet_ok (a : α) : Quiet (.ok a) := by
  rintro e ⟨⟩

/-- A failure that is not circular is quiet. -/
theorem quiet_error {e : BuildError} (he : ¬ e.IsCircular) : Quiet (.error e : Except BuildError α) := by
  rintro _ ⟨⟩
  apply he

/-- Quiet computations may follow each other. -/
theorem quiet_bind (hx : Quiet x) (hf : ∀ a, x = .ok a → Quiet (f a)) : Quiet (x >>= f) := by
  cases x with
  | ok a => apply hf a rfl
  | error e =>
      rintro _ ⟨⟩
      apply hx e rfl

/-- So may quiet ones along a list. -/
theorem quiet_foldlM
    {f : β → α → Except BuildError β} (hf : ∀ b a, Quiet (f b a)) (xs : List α) (b : β) :
  Quiet (xs.foldlM f b)
  := by
  induction xs generalizing b with
  | nil => apply quiet_ok
  | cons a xs ih =>
      rw [List.foldlM_cons]
      apply quiet_bind (hf b a)
      intro b' _
      apply ih

/-- So may quiet ones for each item. -/
theorem quiet_mapM (hf : ∀ a, Quiet (f a)) (xs : List α) : Quiet (xs.mapM f) := by
  induction xs with
  | nil => apply quiet_ok
  | cons a xs ih =>
      rw [List.mapM_cons]
      apply quiet_bind (hf a)
      intro b _
      apply quiet_bind ih
      intro bs _
      apply quiet_ok

end

/-- A type that is not known is no circle. -/
theorem not_circular_unknownType (id : TypeId) : ¬ (BuildError.unknownType id).IsCircular := by
  rintro ⟨fullName, ⟨⟩⟩

theorem not_circular_invalidMember (owner reason : String) :
  ¬ (BuildError.invalidMember owner reason).IsCircular
  := by
  rintro ⟨fullName, ⟨⟩⟩

/-- Installing a type does not find a circle. -/
theorem Session.quiet_install (s : Session) (t : RealizedType) : Quiet (s.install t) := by
  apply quiet_bind
  · rw [register]
    split
    · apply quiet_error
      rintro ⟨fullName, ⟨⟩⟩
    · apply quiet_ok
  · intro s' _
    apply quiet_ok

namespace Workspace

variable {w : Workspace} {id : TypeId}

/-- Nor does looking at one. -/
theorem quiet_view (w : Workspace) (id : TypeId) : Quiet (w.view id) := by
  rw [view]
  split
  · apply quiet_ok
  · apply quiet_error
    apply not_circular_unknownType

/-- The closure of interfaces stops at what it has seen. -/
theorem quiet_inheritedInterfaces (w : Workspace) (roots : List TypeId) :
  Quiet (w.inheritedInterfaces roots)
  := by
  have hfrom : ∀ fuel seen pending, Quiet (w.inheritedInterfacesFrom fuel seen pending) := by
    intro fuel
    induction fuel with
    | zero =>
        intro seen pending
        cases pending <;> apply quiet_ok
    | succ fuel ih =>
        intro seen pending
        cases pending with
        | nil => apply quiet_ok
        | cons x pending =>
            rw [inheritedInterfacesFrom]
            split
            · apply ih
            · apply quiet_bind (quiet_view w x)
              intro s _
              apply quiet_bind (ih _ _)
              intro rest _
              apply quiet_ok
  apply hfrom

/-- All interfaces of a type are found without a circle if its bases are. -/
theorem quiet_allInterfaces (h : Quiet (w.bases id)) : Quiet (w.allInterfaces id) := by
  apply quiet_bind (quiet_view w id)
  intro s _
  apply quiet_bind h
  intro bases _
  apply quiet_bind
  · apply quiet_mapM
    intro base
    apply quiet_bind (quiet_view w base)
    intro s _
    apply quiet_ok
  · intro inherited _
    apply quiet_inheritedInterfaces

/-- A type is compared with its bases and interfaces. -/
theorem quiet_dependsOn (h : Quiet (w.bases id)) (other : TypeId) : Quiet (w.dependsOn id other) := by
  apply quiet_bind h
  intro bases _
  split
  · apply quiet_ok
  · apply quiet_bind (quiet_allInterfaces h)
    intro interfaces _
    apply quiet_ok

/-! ## Laying types out -/

theorem quiet_invalidType {α : Type} (owner reason : String) :
  Quiet (invalidType owner reason : Except BuildError α)
  := by
  apply quiet_error
  apply not_circular_invalidMember

/-- The base of a type is laid out already. -/
theorem quiet_layoutBase (w : Workspace) (d : TypeDecl) : Quiet (w.layoutBase d) := by
  rw [layoutBase]
  split
  · apply quiet_ok
  · split
    · apply quiet_error
      apply not_circular_unknownType
    · split
      · apply quiet_invalidType
      · apply quiet_ok

/-- A method is laid out on its own. -/
theorem quiet_layoutMethod (w : Workspace) (d : TypeDecl) (l : MethodLayout) (m : MethodDecl) :
  Quiet (w.layoutMethod d l m)
  := by
  rw [layoutMethod]
  dsimp only
  split
  · apply quiet_invalidType
  · split
    · apply quiet_invalidType
    · split
      · apply quiet_bind
        · rw [placeVirtual]
          split
          · apply quiet_ok
          · split
            · apply quiet_ok
            · apply quiet_invalidType
        · intro placed _
          apply quiet_ok
      · apply quiet_ok

/-- Interfaces are implemented one after the other. -/
theorem quiet_implementAll
    (w : Workspace) (d : TypeDecl) (methods : List RealizedMethod) (bases : List TypeId)
    (map : List (MethodRef × MethodRef)) (ids : List TypeId) :
  Quiet (w.implementAll d methods bases map ids)
  := by
  have hone : ∀ interface contracts map,
      Quiet (w.implementOne d methods bases interface map contracts) := by
    intro interface contracts
    induction contracts with
    | nil =>
        intro map
        apply quiet_ok
    | cons contract rest ih =>
        intro map
        rw [implementOne]
        split
        · apply ih
        · split
          · apply ih
          · split
            · apply quiet_invalidType
            · apply ih
  induction ids generalizing map with
  | nil => apply quiet_ok
  | cons i rest ih =>
      rw [implementAll]
      split
      · apply quiet_error
        apply not_circular_unknownType
      · apply quiet_bind (hone _ _ _)
        intro map' _
        apply ih

/-- The interfaces of a type are laid out without a circle if its bases are found. -/
theorem quiet_layoutInterfaces
    {d : TypeDecl} (h : Quiet (w.bases d.id)) (methods : List RealizedMethod)
    (inherited : List (MethodRef × MethodRef)) :
  Quiet (w.layoutInterfaces d methods inherited)
  := by
  rw [layoutInterfaces]
  split
  · apply quiet_bind (quiet_allInterfaces h)
    intro interfaces _
    apply quiet_bind h
    intro bases _
    apply quiet_bind (quiet_implementAll w d methods bases inherited interfaces)
    intro map _
    apply quiet_ok
  · apply quiet_bind (quiet_inheritedInterfaces w _)
    intro interfaces _
    apply quiet_ok

/-- Slots are checked one after the other. -/
theorem quiet_checkSlots (w : Workspace) (d : TypeDecl) (l : MethodLayout) : Quiet (w.checkSlots d l) := by
  rw [checkSlots]
  split
  · split
    · apply quiet_invalidType
    · apply quiet_ok
  · apply quiet_ok

/-- So only the bases of a type may form a circle as it is laid out. -/
theorem quiet_layoutType (h : Quiet (w.bases id)) : Quiet (w.layoutType id) := by
  rw [layoutType]
  apply quiet_bind
  · rw [Assembly.decl]
    split
    · apply quiet_ok
    · apply quiet_error
      apply not_circular_unknownType
  intro d hd
  have hid : d.id = id := Assembly.decl?_id (Assembly.decl_ok hd)
  apply quiet_bind (quiet_layoutBase w d)
  intro base _
  apply quiet_bind (quiet_foldlM (quiet_layoutMethod w d) d.methods _)
  intro methods _
  apply quiet_bind (quiet_layoutInterfaces (by rwa [hid]) methods.methods _)
  intro interfaces _
  apply quiet_bind (quiet_checkSlots w d methods)
  intro _ _
  apply quiet_ok

/-! ## Cycles of base links -/

/-- Types that can be seen are types of the unit or of the session. -/
theorem length_le_typeCount
    {seen : List TypeId} (hnodup : seen.Nodup) (hseen : ∀ x ∈ seen, (w.view? x).isSome) :
  seen.length ≤ w.typeCount
  := by
  have hsubset : seen ⊆ w.assembly.types.map (·.id) ++ w.session.types.map (·.id) := by
    intro x hx
    obtain ⟨s, hs⟩ := Option.isSome_iff_exists.mp (hseen x hx)
    cases hd : w.assembly.decl? x with
    | some d =>
        apply List.mem_append_left
        rw [← Assembly.decl?_id hd]
        apply List.mem_map_of_mem (List.mem_of_find?_eq_some hd)
    | none =>
        rw [view?_of_no_decl hd] at hs
        obtain ⟨t, ht, -⟩ := Option.map_eq_some_iff.mp hs
        have hid : t.id = x := by simpa using List.find?_some ht
        apply List.mem_append_right
        rw [← hid]
        apply List.mem_map_of_mem (List.mem_of_find?_eq_some ht)
  have hle := (hnodup.subperm hsubset).length_le
  rwa [List.length_append, List.length_map, List.length_map] at hle

/-- A search that has come from the types seen reports circular inheritance only where it has
met one of them again. -/
theorem exists_cycle_of_basesFrom
    {start : TypeId} {fuel : Nat} {seen : List TypeId} {next : Option TypeId} {e : BuildError}
    (hnodup : seen.Nodup) (hseen : ∀ x ∈ seen, (w.view? x).isSome)
    (hpath : ∀ c, next = some c → ∀ x ∈ seen, w.Below x c)
    (hfuel : w.typeCount < seen.length + fuel) (h : w.basesFrom start fuel seen next = .error e)
    (he : e.IsCircular) :
  ∃ x, w.Below x x
  := by
  induction fuel generalizing seen next with
  | zero =>
      have := length_le_typeCount hnodup hseen
      omega
  | succ fuel ih =>
      cases next with
      | none => cases h
      | some c =>
          rw [basesFrom] at h
          split at h
          · next hmem =>
            exact ⟨c, hpath c rfl c (by simpa using hmem)⟩
          · next hmem =>
            cases hs : w.view c with
            | error e' =>
                rw [hs] at h
                cases h
                cases quiet_view w c e hs he
            | ok s =>
                rw [hs] at h
                have hrest : w.basesFrom start fuel (c :: seen) s.base = .error e := by
                  change (w.basesFrom start fuel (c :: seen) s.base >>= _) = _ at h
                  cases hrest : w.basesFrom start fuel (c :: seen) s.base with
                  | error e' =>
                      rw [hrest] at h
                      cases h
                      rfl
                  | ok rest =>
                      rw [hrest] at h
                      cases h
                apply ih _ _ _ _ hrest
                · apply List.nodup_cons.mpr ⟨by simpa using hmem, hnodup⟩
                · intro x hx
                  obtain rfl | hx := List.mem_cons.mp hx
                  · rw [view_ok hs]
                    rfl
                  · apply hseen x hx
                · intro c' hc' x hx
                  have hstep : w.HasBase c c' := ⟨s, view_ok hs, hc'⟩
                  obtain rfl | hx := List.mem_cons.mp hx
                  · exact .single hstep
                  · exact (hpath c rfl x hx).tail hstep
                · rw [List.length_cons]
                  omega

/-- The search for the bases of a type reports circular inheritance only where base links form
a cycle. -/
theorem exists_cycle_of_bases (h : ¬ Quiet (w.bases id)) : ∃ x, w.Below x x := by
  simp only [Quiet, not_forall, not_not] at h
  obtain ⟨e, h, he⟩ := h
  cases hs : w.view id with
  | error e' =>
      rw [bases, hs] at h
      cases h
      cases quiet_view w id e hs he
  | ok s =>
      rw [bases, hs] at h
      apply exists_cycle_of_basesFrom _ _ _ _ h he
      · simp
      · intro x hx
        rw [List.mem_singleton.mp hx, view_ok hs]
        rfl
      · intro c hc x hx
        rw [List.mem_singleton.mp hx]
        exact .single ⟨s, view_ok hs, hc⟩
      · rw [List.length_singleton]
        omega

/-- A declaration has one base. -/
theorem HasBase.unique {x y z : TypeId} (h : w.HasBase x y) (h' : w.HasBase x z) : y = z := by
  obtain ⟨s, hs, hy⟩ := h
  obtain ⟨s', hs', hz⟩ := h'
  rw [hs] at hs'
  cases hs'
  rw [hy] at hz
  exact Option.some.inj hz

/-- The next type on a cycle of base links is on a cycle. -/
theorem below_next {x y : TypeId} (h : w.Below x x) (hstep : w.HasBase x y) : w.Below y y := by
  obtain ⟨y', hstep', hpath⟩ := TransGen.head'_iff.mp h
  obtain rfl := hstep.unique hstep'
  apply TransGen.tail' hpath hstep

/-- A type on a cycle of base links is one of the unit.  A realized type would have been realized
before itself. -/
theorem Settled.declares_of_cycle
    (h : w.Settled) {verify : Bool} {decls : TypeId → Option TypeDecl}
    (hlayered : Layered verify decls w.session.types) {x : TypeId} (hcycle : w.Below x x) :
  w.assembly.Declares x
  := by
  by_contra hnone
  obtain ⟨y, hstep, hpath⟩ := TransGen.head'_iff.mp hcycle
  obtain ⟨t, ht⟩ : ∃ t, w.session.realized? x = some t := by
    obtain ⟨s, hs, -⟩ := hstep
    have hd : w.assembly.decl? x = none := by
      apply Option.eq_none_iff_forall_ne_some.mpr
      intro d hd
      apply hnone ⟨d, hd⟩
    rw [view?_of_no_decl hd] at hs
    obtain ⟨t, ht, -⟩ := Option.map_eq_some_iff.mp hs
    exact ⟨t, ht⟩
  have hmem := List.mem_of_find?_eq_some ht
  have hbase := h.base_of_realized ht hstep
  obtain ⟨u, hu, -⟩ := hlayered.tabled.base t hmem y hbase
  obtain ⟨t', ht', hinherits⟩ := h.inherits hlayered.tabled hu hpath
  rw [ht] at ht'
  cases ht'
  have habove : TransGen (RealizedBase w.session.types) t t := .head' ⟨y, hbase, hu⟩ hinherits
  obtain ⟨k, hk⟩ := List.getElem?_of_mem hmem
  obtain ⟨j, hj, hjt⟩ := hlayered.earlier_of_above hk habove
  have hlt : j < (w.session.types.map (·.id)).length := by
    rw [List.length_map]
    apply (List.getElem?_eq_some_iff.mp hjt).1
  have hsame : j = k := by
    apply (List.getElem?_inj hlt hlayered.distinct).mp
    rw [List.getElem?_map, List.getElem?_map, hjt, hk]
  omega

/-- A cycle of base links is one of types of the unit. -/
theorem Settled.derives_cycle
    (h : w.Settled) {verify : Bool} {decls : TypeId → Option TypeDecl}
    (hlayered : Layered verify decls w.session.types) {x : TypeId} (hcycle : w.Below x x) :
  TransGen w.assembly.Derives x x
  := by
  have hstep : ∀ {y z}, w.Below y y → w.HasBase y z → w.assembly.Derives y z := by
    rintro y z hy ⟨s, hs, hz⟩
    obtain ⟨d, hd⟩ := h.declares_of_cycle hlayered hy
    rw [view?_of_decl hd] at hs
    cases hs
    refine ⟨d, hd, List.mem_append_left _ ?_⟩
    change d.baseId? = some z at hz
    rw [hz]
    apply List.mem_singleton_self
  have hall : ∀ {z}, w.Below x z → TransGen w.assembly.Derives x z ∧ w.Below z z := by
    intro z hz
    induction hz with
    | single hfirst => exact ⟨.single (hstep hcycle hfirst), below_next hcycle hfirst⟩
    | tail _ hnext ih =>
        obtain ⟨hpath, hb⟩ := ih
        exact ⟨hpath.tail (hstep hb hnext), below_next hb hnext⟩
  apply (hall hcycle).1

end Workspace

end ManagedCode
