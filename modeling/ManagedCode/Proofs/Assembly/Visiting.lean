import ManagedCode.Proofs.Assembly.Interfaces
import ManagedCode.Proofs.Assembly.Lifetimes
import Mathlib.Data.Finset.Card

/-!
# The visit of a type

A type waits for its base, for its interfaces, and for the types nested in it unless they
depend on it (`Workspace.Waits`).  When the visit of a type succeeds, the type has been
realized behind all that it waits for, and so have all types that are nested in what has been
realized on the way (`Realize.realize_visits`).
-/

namespace ManagedCode

open Relation

namespace Assembly

/-- A type of a unit has another one as its base or as an interface. -/
def Derives (a : Assembly) (x y : TypeId) : Prop :=
  ∃ d, a.decl? x = some d ∧ y ∈ d.baseId?.toList ++ d.interfaceIds

/-- A type of a unit has another one nested in it. -/
def Nests (a : Assembly) (x y : TypeId) : Prop :=
  ∃ d, a.decl? x = some d ∧ y ∈ d.nested

/-- A unit declares a type. -/
def Declares (a : Assembly) (x : TypeId) : Prop :=
  ∃ d, a.decl? x = some d

end Assembly

namespace Workspace

variable {w : Workspace} {new : List RealizedType} {x y : TypeId} {ids : List TypeId}

/-- A type asks for another one before it is realized. -/
def Asks (w : Workspace) (x y : TypeId) : Prop :=
  w.assembly.Derives x y ∨ w.assembly.Nests x y ∧ ¬ w.Depends y x

/-- A type of a unit waits for another type of the unit. -/
structure Waits (w : Workspace) (x y : TypeId) : Prop where
  asks : w.Asks x y
  declared : w.assembly.Declares y

/-- Each type comes behind all that it waits for. -/
inductive Ordered (w : Workspace) : List TypeId → Prop
  | nil : Ordered w []
  | snoc {ids : List TypeId} {x : TypeId} (h : Ordered w ids) (hx : ∀ y, w.Waits x y → y ∈ ids) :
      Ordered w (ids ++ [x])

theorem Ordered.closed (h : w.Ordered ids) (hx : x ∈ ids) (hxy : w.Waits x y) : y ∈ ids := by
  induction h with
  | nil => cases hx
  | snoc h hlast ih =>
      apply List.mem_append_left
      obtain hx | hx := List.mem_append.mp hx
      · apply ih hx
      · rw [List.mem_singleton.mp hx] at hxy
        apply hlast y hxy

/-- No type waits for itself. -/
theorem Ordered.acyclic (h : w.Ordered ids) (hx : x ∈ ids) : ¬ TransGen w.Waits x x := by
  induction h with
  | nil => cases hx
  | @snoc ids last h hlast ih =>
      intro hcycle
      obtain ⟨y, hxy, hpath⟩ := TransGen.head'_iff.mp hcycle
      have hy : y ∈ ids := by
        obtain hx | hx := List.mem_append.mp hx
        · apply h.closed hx hxy
        · rw [List.mem_singleton.mp hx] at hxy
          apply hlast y hxy
      have hback : x ∈ ids := by
        clear ih hcycle hxy hx
        induction hpath with
        | refl => apply hy
        | tail _ hstep hmem => apply h.closed hmem hstep
      apply ih hback hcycle

/-! ## Types that have been realized meanwhile -/

/-- What a unit sees does not change while it is finalized, apart from being realized. -/
theorem Realizes.view? (h : w.Realizes new) (x : TypeId) : (w.realizing new).view? x = w.view? x := by
  have hdecl := decl?_realizing w new x
  cases hd : w.assembly.decl? x with
  | some d =>
      rw [hd] at hdecl
      rw [view?_of_decl hdecl, view?_of_decl hd]
      split <;> rfl
  | none =>
      rw [hd] at hdecl
      rw [view?_of_no_decl hdecl, view?_of_no_decl hd]
      change ((w.session.types ++ new).find? _).map _ = _
      have hnone : new.find? (·.id == x) = none := by
        apply List.find?_eq_none.mpr
        intro t ht hid
        obtain ⟨d, hd', -⟩ := h.decl ht
        rw [beq_iff_eq.mp hid, hd] at hd'
        cases hd'
      rw [List.find?_append, hnone, Option.or_none]
      rfl

theorem Realizes.hasBase (h : w.Realizes new) : (w.realizing new).HasBase = w.HasBase := by
  funext x y
  rw [HasBase, h.view?, HasBase]

theorem Realizes.depends (h : w.Realizes new) : (w.realizing new).Depends = w.Depends := by
  have hinterface : (w.realizing new).HasInterface = w.HasInterface := by
    funext x y
    rw [HasInterface, h.view?, HasInterface]
  funext x y
  rw [Depends, Below, Implements, h.hasBase, hinterface, Depends, Below, Implements]

end Workspace

/-! ## Visits -/

/-- The types of a unit that are done. -/
def Realization.ids (r : Realization) : List TypeId :=
  r.done.map (·.id)

namespace Realize

open Workspace

variable {w : Workspace} {r r' r'' : Realization} {ids ids' nested deferred : List TypeId}
  {fuel : Nat} {x : TypeId}

/-- The types of a unit whose turn has not come. -/
def untouched (w : Workspace) (r : Realization) : Finset TypeId :=
  {x ∈ w.assembly.ids.toFinset | x ∉ r.ids ∧ x ∉ r.inProgress}

/-- Fuel suffices for all types whose turn has not come. -/
structure Ready (w : Workspace) (fuel : Nat) (r : Realization) : Prop where
  progress : Progress w r
  fuel : (untouched w r).card < fuel

/-- What a visit of types has done when it succeeds. -/
structure Visited (w : Workspace) (r : Realization) (ids : List TypeId) (r' : Realization) : Prop where
  progress : Progress w r'
  inProgress : r'.inProgress = r.inProgress
  grows : r.ids ⊆ r'.ids
  visited : ∀ x ∈ ids, w.assembly.Declares x → x ∈ r'.ids
  ordered : w.Ordered r.ids → w.Ordered r'.ids
  nested : ∀ x ∈ r'.ids, x ∉ r.ids → ∀ y, w.assembly.Nests x y → w.assembly.Declares y →
    y ∈ r'.ids

theorem Visited.refl (h : Progress w r) (hids : ∀ x ∈ ids, w.assembly.Declares x → x ∈ r.ids) :
  Visited w r ids r
  :=
  ⟨h, rfl, fun _ hx => hx, hids, fun ho => ho, fun _ hx hnot => absurd hx hnot⟩

theorem Visited.trans (h : Visited w r ids r') (h' : Visited w r' ids' r'') :
  Visited w r (ids ++ ids') r''
  := by
  constructor
  · apply h'.progress
  · rw [h'.inProgress, h.inProgress]
  · apply List.Subset.trans h.grows h'.grows
  · intro x hx hdeclared
    obtain hx | hx := List.mem_append.mp hx
    · apply h'.grows (h.visited x hx hdeclared)
    · apply h'.visited x hx hdeclared
  · intro ho
    apply h'.ordered (h.ordered ho)
  · intro x hx hnot y hy hdeclared
    by_cases hmem : x ∈ r'.ids
    · apply h'.grows (h.nested x hmem hnot y hy hdeclared)
    · apply h'.nested x hx hmem y hy hdeclared

theorem untouched_le (h : ∀ x, x ∈ r.ids ∨ x ∈ r.inProgress → x ∈ r'.ids ∨ x ∈ r'.inProgress) :
  (untouched w r').card ≤ (untouched w r).card
  := by
  apply Finset.card_le_card
  intro x
  simp only [untouched, Finset.mem_filter]
  have := h x
  tauto

theorem Ready.visited (h : Ready w fuel r) (hvisited : Visited w r ids r') : Ready w fuel r' := by
  refine ⟨hvisited.progress, Nat.lt_of_le_of_lt (untouched_le ?_) h.fuel⟩
  intro x hx
  obtain hx | hx := hx
  · left
    apply hvisited.grows hx
  · right
    rwa [hvisited.inProgress]

/-- The turn of a type comes. -/
theorem Ready.enter
    (h : Ready w (fuel + 1) r) (hdeclared : w.assembly.Declares x) (hdone : x ∉ r.ids)
    (hprogress : x ∉ r.inProgress) :
  Ready w fuel { r with inProgress := x :: r.inProgress }
  := by
  refine ⟨h.progress, ?_⟩
  have hlt : (untouched w { r with inProgress := x :: r.inProgress }).card
      < (untouched w r).card := by
    apply Finset.card_lt_card
    rw [Finset.ssubset_iff_of_subset]
    · refine ⟨x, ?_, ?_⟩
      · obtain ⟨d, hd⟩ := hdeclared
        simp only [untouched, Finset.mem_filter, List.mem_toFinset]
        exact ⟨Assembly.mem_ids hd, hdone, hprogress⟩
      · simp [untouched]
    · intro y
      simp only [untouched, Finset.mem_filter, List.mem_cons, not_or]
      change _ ∧ y ∉ r.ids ∧ _ → _
      tauto
  have := h.fuel
  omega

/-- Visits do what they should. -/
def Visits (w : Workspace) (fuel : Nat) (visit : TypeId → Realize Unit) : Prop :=
  ∀ x r r', Ready w fuel r → (visit x).exec r = (.ok (), r') → Visited w r [x] r'

variable {visit : TypeId → Realize Unit}

theorem forM_visited
    (hvisit : Visits w fuel visit) (hready : Ready w fuel r)
    (h : (ids.forM visit).exec r = (.ok (), r')) :
  Visited w r ids r'
  := by
  induction ids generalizing r with
  | nil =>
      cases h
      apply Visited.refl hready.progress
      simp
  | cons x ids ih =>
      obtain ⟨⟨⟩, r₁, hfirst, hrest⟩ := exists_of_exec_bind_ok h
      have hone := hvisit x r r₁ hready hfirst
      apply hone.trans (ih (hready.visited hone) hrest)

theorem exec_ask_ok
    {α : Type} {f : Workspace → Except BuildError α} {a : α} (h : (ask f).exec r = (.ok a, r')) :
  f r.workspace = .ok a ∧ r = r'
  := by
  rw [exec_ask] at h
  obtain ⟨ha, hr⟩ := Prod.mk.inj h
  exact ⟨ha, hr⟩

/-- The question whether a type depends on another one is answered for the unit as it was
before it was finalized. -/
theorem Progress.dependsOn
    (h : Progress w r) {y : TypeId} {depends : Bool}
    (hask : (ask (·.dependsOn x y)).exec r = (.ok depends, r')) :
  (depends = true ↔ w.Depends x y) ∧ r = r'
  := by
  obtain ⟨hdepends, rfl⟩ := exec_ask_ok hask
  obtain ⟨new, hnew, hworkspace, -⟩ := h
  rw [dependsOn_ok_iff hdepends, hworkspace, hnew.depends]
  exact ⟨Iff.rfl, rfl⟩

/-- Nested types are visited, or put off because they depend on the type around them. -/
theorem visitNested_visited
    (hvisit : Visits w fuel visit) (hready : Ready w fuel r)
    (h : (visitNested visit x nested).exec r = (.ok deferred, r')) :
  ∃ ids, Visited w r ids r' ∧ (∀ y ∈ nested, y ∈ ids ∨ y ∈ deferred)
    ∧ ∀ y ∈ deferred, y ∈ nested ∧ w.Depends y x
  := by
  induction nested generalizing r deferred with
  | nil =>
      cases h
      exact ⟨[], .refl hready.progress (by simp), by simp, by simp⟩
  | cons inner nested ih =>
      rw [visitNested] at h
      obtain ⟨depends, r₁, hask, h⟩ := exists_of_exec_bind_ok h
      obtain ⟨hdepends, rfl⟩ := hready.progress.dependsOn hask
      have hrest : ∀ {r₁}, Ready w fuel r₁ → (do
          let others ← visitNested visit x nested
          return if depends then inner :: others else others : Realize _).exec r₁
            = (.ok deferred, r') →
          ∃ others ids, Visited w r₁ ids r' ∧ (∀ y ∈ nested, y ∈ ids ∨ y ∈ others)
            ∧ (∀ y ∈ others, y ∈ nested ∧ w.Depends y x)
            ∧ deferred = if depends then inner :: others else others := by
        intro r₁ hready h
        obtain ⟨others, r₂, hothers, h⟩ := exists_of_exec_bind_ok h
        cases h
        obtain ⟨ids, hvisited, hids, hput⟩ := ih hready hothers
        exact ⟨others, ids, hvisited, hids, hput, rfl⟩
      cases depends with
      | true =>
          obtain ⟨others, ids, hvisited, hids, hput, rfl⟩ := hrest hready h
          rw [if_pos rfl]
          refine ⟨ids, hvisited, ?_, ?_⟩
          · intro y hy
            obtain rfl | hy := List.mem_cons.mp hy
            · right
              apply List.mem_cons_self
            · apply (hids y hy).imp_right (List.mem_cons_of_mem inner)
          · intro y hy
            obtain rfl | hy := List.mem_cons.mp hy
            · exact ⟨List.mem_cons_self, hdepends.mp rfl⟩
            · apply (hput y hy).imp_left (List.mem_cons_of_mem inner)
      | false =>
          obtain ⟨⟨⟩, r₂, hinner, h⟩ := exists_of_exec_bind_ok h
          have hone := hvisit inner r r₂ hready hinner
          obtain ⟨others, ids, hvisited, hids, hput, rfl⟩ := hrest (hready.visited hone) h
          refine ⟨[inner] ++ ids, hone.trans hvisited, ?_, ?_⟩
          · intro y hy
            obtain rfl | hy := List.mem_cons.mp hy
            · left
              apply List.mem_cons_self
            · apply (hids y hy).imp_left (List.mem_cons_of_mem inner)
          · intro y hy
            apply (hput y hy).imp_left (List.mem_cons_of_mem inner)

/-- Laying a type out ends its turn. -/
theorem install_done
    (h : (install x).exec r = (.ok (), r')) :
  r'.ids = r.ids ++ [x] ∧ r'.inProgress = r.inProgress.filter (· != x)
  := by
  rw [install] at h
  obtain ⟨t, r₁, hask, h⟩ := exists_of_exec_bind_ok h
  obtain ⟨hlayout, rfl⟩ := exec_ask_ok hask
  obtain ⟨session, r₂, hask', h⟩ := exists_of_exec_bind_ok h
  obtain ⟨-, rfl⟩ := exec_ask_ok hask'
  cases h
  have hid : t.handle.id = x := layoutType_id hlayout
  simp [Realization.ids, hid]

theorem Ready.install
    (hfresh : w.Fresh) {d : TypeDecl} (hd : w.assembly.decl? x = some d) (hbuilding : d.state = .building)
    (hready : Ready w fuel r) (h : (install x).exec r = (.ok (), r')) :
  Ready w fuel r'
  := by
  obtain ⟨hlast, hturn⟩ := install_done h
  constructor
  · have := install_keeps hfresh hd hbuilding r hready.progress
    rwa [h] at this
  · apply Nat.lt_of_le_of_lt (untouched_le _) hready.fuel
    intro y hy
    rw [hlast, hturn]
    by_cases hyx : y = x
    · simp [hyx]
    · simpa [hyx] using hy

/-- The turn of a type that was not among those in progress is over. -/
theorem inProgress_of_install
    (hprogress : x ∉ r.inProgress) (hturn : r'.inProgress = x :: r.inProgress)
    (h : (install x).exec r' = (.ok (), r'')) :
  r''.inProgress = r.inProgress
  := by
  rw [(install_done h).2, hturn, List.filter_cons_of_neg (by simp), List.filter_eq_self]
  intro y hy
  rw [bne_iff_ne]
  rintro rfl
  apply hprogress hy

/-- A declaration that is still open is the one that there was before. -/
theorem Progress.decl_cases
    (h : Progress w r) (hopened : ∀ x d, w.assembly.decl? x = some d → d.state = .building)
    {d : TypeDecl} (hd : r.workspace.assembly.decl? x = some d) :
  d.isRealized = true ∧ x ∈ r.ids
  ∨ d.isRealized = false ∧ x ∉ r.ids ∧ w.assembly.decl? x = some d
  := by
  obtain ⟨new, -, hworkspace, hdone⟩ := h
  have hids : r.ids = new.map (·.id) := by
    rw [Realization.ids, hdone, List.map_map]
    rfl
  rw [hworkspace, decl?_realizing] at hd
  obtain ⟨d₀, hd₀, rfl⟩ := Option.map_eq_some_iff.mp hd
  rw [hids]
  split
  · next hmem =>
    left
    exact ⟨rfl, hmem⟩
  · next hmem =>
    right
    refine ⟨?_, hmem, hd₀⟩
    rw [TypeDecl.isRealized, hopened x d₀ hd₀]
    rfl

/-- The turn of a type that is open, with all that comes before and after it. -/
theorem turn_visited
    (hfresh : w.Fresh) {d : TypeDecl} (hd : w.assembly.decl? x = some d) (hbuilding : d.state = .building)
    (hvisit : Visits w fuel visit) (hready : Ready w (fuel + 1) r) (hdone : x ∉ r.ids)
    (hprogress : x ∉ r.inProgress)
    (h : (do
        (d.baseId?.toList ++ d.interfaceIds).forM visit
        let deferred ← visitNested visit x d.nested
        install x
        deferred.forM visit : Realize Unit).exec { r with inProgress := x :: r.inProgress }
      = (.ok (), r')) :
  Visited w r [x] r'
  := by
  have hdecl : ∀ {d'}, w.assembly.decl? x = some d' → d' = d := by
    intro d' hd'
    rw [hd] at hd'
    exact (Option.some.inj hd').symm
  have hentered := hready.enter ⟨d, hd⟩ hdone hprogress
  obtain ⟨⟨⟩, r₁, hlinks, h⟩ := exists_of_exec_bind_ok h
  have hbefore := forM_visited hvisit hentered hlinks
  obtain ⟨deferred, r₂, hnested, h⟩ := exists_of_exec_bind_ok h
  obtain ⟨ids, hinner, hids, hput⟩ :=
    visitNested_visited hvisit (hentered.visited hbefore) hnested
  have hfirst := hbefore.trans hinner
  obtain ⟨⟨⟩, r₃, hinstall, h⟩ := exists_of_exec_bind_ok h
  have hlast := (install_done hinstall).1
  have hafter :=
    forM_visited hvisit ((hentered.visited hfirst).install hfresh hd hbuilding hinstall) h
  have hgrows : r₂.ids ⊆ r'.ids := by
    intro y hy
    apply hafter.grows
    rw [hlast]
    apply List.mem_append_left _ hy
  constructor
  · apply hafter.progress
  · rw [hafter.inProgress, inProgress_of_install hprogress hfirst.inProgress hinstall]
  · apply List.Subset.trans hfirst.grows hgrows
  · intro y hy _
    apply hafter.grows
    rw [hlast, List.mem_singleton.mp hy]
    simp
  · intro ho
    apply hafter.ordered
    rw [hlast]
    apply (hfirst.ordered ho).snoc
    rintro y ⟨⟨d', hd', hy⟩ | ⟨⟨d', hd', hy⟩, hdepends⟩, hdeclared⟩
    · rw [hdecl hd'] at hy
      apply hfirst.visited y (List.mem_append_left _ hy) hdeclared
    · rw [hdecl hd'] at hy
      obtain hy | hy := hids y hy
      · apply hfirst.visited y (List.mem_append_right _ hy) hdeclared
      · cases hdepends (hput y hy).2
  · intro z hz hnot y hy hdeclared
    by_cases hz₂ : z ∈ r₂.ids
    · apply hgrows (hfirst.nested z hz₂ hnot y hy hdeclared)
    · by_cases hzx : z = x
      · subst hzx
        obtain ⟨d', hd', hy⟩ := hy
        rw [hdecl hd'] at hy
        obtain hy | hy := hids y hy
        · apply hgrows (hfirst.visited y (List.mem_append_right _ hy) hdeclared)
        · apply hafter.visited y hy hdeclared
      · apply hafter.nested z hz _ y hy hdeclared
        rw [hlast]
        simp [hz₂, hzx]

/-- Visits of types of an open unit do what they should, as long as fuel suffices. -/
theorem realize_visits
    (hfresh : w.Fresh) (hopened : ∀ x d, w.assembly.decl? x = some d → d.state = .building)
    (fuel : Nat) :
  Visits w fuel (realize fuel)
  := by
  induction fuel with
  | zero =>
      rintro x r r' ⟨-, hfuel⟩ h
      cases hfuel
  | succ fuel ih =>
      intro x r r' hready h
      rw [realize] at h
      rw [exec_bind, exec_get] at h
      dsimp only at h
      split at h
      · next hnone =>
        cases h
        apply Visited.refl hready.progress
        rintro y hy ⟨d, hd⟩
        obtain ⟨new, -, hworkspace, -⟩ := hready.progress
        rw [hworkspace, decl?_realizing, ← List.mem_singleton.mp hy, hd] at hnone
        cases hnone
      · next d hd =>
        obtain ⟨hrealized, hmem⟩ | ⟨hrealized, hmem, hd⟩ :=
          hready.progress.decl_cases hopened hd
        · rw [if_pos hrealized] at h
          cases h
          apply Visited.refl hready.progress
          intro y hy _
          rwa [List.mem_singleton.mp hy]
        · rw [hrealized, if_neg (by simp)] at h
          split at h
          · cases h
          · next hprogress =>
            rw [exec_bind] at h
            have hnot : x ∉ r.inProgress := by simpa using hprogress
            apply turn_visited hfresh hd (hopened x d hd) ih hready hmem hnot h

end Realize

end ManagedCode
