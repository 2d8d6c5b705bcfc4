import ManagedCode.Proofs.Assembly.Circularity

/-!
# Cycles

A unit whose base and interface links form a cycle is never finalized.  The converse fails: a
unit is also refused for circular inheritance when a nested type leads back to what waits for
it, although links form no cycle.  Whether a nested type has to come behind the type around it
is decided with a view to that one type, and a type that does is realized at once behind it,
also while others are waiting (`Workspace.Entangled`).
-/

namespace ManagedCode

open Relation

variable {ρ : Type}

namespace Assembly

variable {a : Assembly} {x y : TypeId}

/-- A type has another one as its base or as an interface, or has it nested in it. -/
def Leads (a : Assembly) (x y : TypeId) : Prop :=
  a.Derives x y ∨ a.Nests x y

/-- A type is led to from the top level without coming to another one. -/
def ReachedWithout (a : Assembly) (outer x : TypeId) : Prop :=
  ∃ root ∈ a.topLevel, root ≠ outer
    ∧ ReflTransGen (fun u v => a.Leads u v ∧ v ≠ outer) root x

/-- Base and interface links of a unit form a cycle. -/
def Cyclic (a : Assembly) : Prop :=
  ∃ x, TransGen a.Derives x x

end Assembly

namespace Workspace

variable {w : Workspace} {x y z : TypeId} {turns turns' path : List TypeId}

/-- A nested type does not depend on the type around it, but leads back to it; or it does
depend on it, and leads to a type that may be waiting for the type around it. -/
def Entangled (w : Workspace) : Prop :=
  ∃ outer inner, w.assembly.Nests outer inner
    ∧ (¬ w.Depends inner outer ∧ ReflTransGen w.assembly.Leads inner outer
      ∨ w.Depends inner outer ∧ ∃ x, w.assembly.ReachedWithout outer x
        ∧ TransGen w.assembly.Leads x outer ∧ ReflTransGen w.assembly.Leads inner x)

/-! ## Trails -/

/-- The way on which a visit has come to a type, the last type first: from a type whose turn
it is to one that it asks for, and from one that is done to a nested type that depends on
it. -/
inductive Trail (w : Workspace) (turns : List TypeId) : List TypeId → Prop
  | root {x : TypeId} (hx : x ∈ w.assembly.topLevel) : Trail w turns [x]
  | step {x y : TypeId} {path : List TypeId} (h : Trail w turns (y :: path))
      (hasks : y ∈ turns → w.Asks y x)
      (hput : y ∉ turns → w.assembly.Nests y x ∧ w.Depends x y) : Trail w turns (x :: y :: path)

theorem Asks.leads (h : w.Asks x y) : w.assembly.Leads x y :=
  h.imp_right And.left

/-- Whose turn it is matters for the types on the way only. -/
theorem Trail.congr
    (h : w.Trail turns (x :: path)) (hturns : ∀ y ∈ path, (y ∈ turns ↔ y ∈ turns')) :
  w.Trail turns' (x :: path)
  := by
  induction path generalizing x with
  | nil =>
      cases h with
      | root hx => exact .root hx
  | cons y path ih =>
      have hy := hturns y List.mem_cons_self
      cases h with
      | step h hasks hput =>
          apply Trail.step (ih h fun z hz => hturns z (List.mem_cons_of_mem y hz))
          · rwa [← hy]
          · rwa [← hy]

theorem Trail.leads (h : w.Trail turns (x :: y :: path)) : w.assembly.Leads y x := by
  cases h with
  | step h hasks hput =>
      by_cases hy : y ∈ turns
      · apply (hasks hy).leads
      · right
        apply (hput hy).1

/-- A way that does not come to a type. -/
theorem Trail.reachedWithout
    (h : w.Trail turns path) (hx : x ∈ path) (hy : y ∉ path) :
  w.assembly.ReachedWithout y x
  := by
  induction path generalizing x with
  | nil => cases hx
  | cons z path ih =>
      cases path with
      | nil =>
          cases h with
          | root hroot =>
              obtain rfl := List.mem_singleton.mp hx
              refine ⟨x, hroot, ?_, .refl⟩
              rintro rfl
              apply hy hx
      | cons u path =>
          have hleads := h.leads
          cases h with
          | step h _ _ =>
              have hnot : y ∉ u :: path := fun hmem => hy (List.mem_cons_of_mem z hmem)
              obtain rfl | hx := List.mem_cons.mp hx
              · obtain ⟨root, hroot, hne, hpath⟩ := ih h List.mem_cons_self hnot
                refine ⟨root, hroot, hne, hpath.tail ⟨hleads, ?_⟩⟩
                rintro rfl
                apply hy List.mem_cons_self
              · apply ih h hx hnot

/-- Between two types on a way, a nested type is led to from the type around it. -/
def Tangled (w : Workspace) (x z : TypeId) : Prop :=
  ∃ outer inner, w.assembly.Nests outer inner ∧ ReflTransGen w.assembly.Leads x outer
    ∧ ReflTransGen w.assembly.Leads inner z
    ∧ (¬ w.Depends inner outer
      ∨ w.Depends inner outer ∧ x ≠ outer ∧ w.assembly.ReachedWithout outer x)

/-- From a type whose turn it is, the way has come by links alone, or through nested types.  The way
to a type that has led through another one came there first. -/
theorem Trail.links_or_tangled
    (h : w.Trail turns (z :: path)) (hnodup : path.Nodup) (hx : x ∈ path) (hturn : x ∈ turns) :
  TransGen w.assembly.Derives x z ∨ w.Tangled x z
  := by
  induction path generalizing z with
  | nil => cases hx
  | cons y path ih =>
      have hleads := h.leads
      obtain ⟨hy, hnodup⟩ := List.nodup_cons.mp hnodup
      cases h with
      | step h hasks hput =>
          obtain rfl | hmem := List.mem_cons.mp hx
          · obtain hlink | ⟨hnests, hdepends⟩ := hasks hturn
            · left
              exact .single hlink
            · right
              exact ⟨x, z, hnests, .refl, .refl, .inl hdepends⟩
          · obtain hlinks | ⟨outer, inner, hnests, hto, hfrom, hrest⟩ := ih h hnodup hmem
            · have hto : ReflTransGen w.assembly.Leads x y :=
                ReflTransGen.mono (fun _ _ => .inl) x y hlinks.to_reflTransGen
              by_cases hturn' : y ∈ turns
              · obtain hlink | ⟨hnests, hdepends⟩ := hasks hturn'
                · left
                  exact hlinks.tail hlink
                · right
                  exact ⟨y, z, hnests, hto, .refl, .inl hdepends⟩
              · right
                obtain ⟨hnests, hdepends⟩ := hput hturn'
                refine ⟨y, z, hnests, hto, .refl, .inr ⟨hdepends, ?_, ?_⟩⟩
                · rintro rfl
                  apply hy hmem
                · cases h with
                  | root _ => cases hmem
                  | step h _ _ => apply h.reachedWithout hmem hy
            · right
              exact ⟨outer, inner, hnests, hto, hfrom.tail hleads, hrest⟩

end Workspace

/-! ## Visits that report circular inheritance -/

namespace Realize

open Workspace

variable {w : Workspace} {r r' : Realization} {ids path nested : List TypeId} {fuel : Nat}
  {x : TypeId} {e : BuildError} {visit : TypeId → Realize Unit}

/-- A visit comes to a type. -/
structure Entering (w : Workspace) (r : Realization) (path : List TypeId) (x : TypeId) : Prop where
  trail : w.Trail r.inProgress (x :: path)
  nodup : path.Nodup
  covered : ∀ y ∈ path, y ∈ r.ids ∨ y ∈ r.inProgress
  turns : ∀ y ∈ r.inProgress, y ∈ path

theorem Entering.visited (h : Entering w r path x) (hvisited : Visited w r ids r') :
  Entering w r' path x
  := by
  obtain ⟨htrail, hnodup, hcovered, hturns⟩ := h
  rw [← hvisited.inProgress] at htrail hturns
  refine ⟨htrail, hnodup, ?_, hturns⟩
  intro y hy
  rw [hvisited.inProgress]
  apply (hcovered y hy).imp_left
  apply hvisited.grows

/-- A visit that comes to a type whose turn it is already. -/
theorem Entering.again (h : Entering w r path x) (hx : x ∈ r.inProgress) :
  w.assembly.Cyclic ∨ w.Entangled
  := by
  obtain hlinks | ⟨outer, inner, hnests, hto, hfrom, hdepends | ⟨hdepends, hne, hwithout⟩⟩ :=
    h.trail.links_or_tangled h.nodup (h.turns x hx) hx
  · left
    exact ⟨x, hlinks⟩
  · right
    exact ⟨outer, inner, hnests, .inl ⟨hdepends, hfrom.trans hto⟩⟩
  · right
    refine ⟨outer, inner, hnests, .inr ⟨hdepends, x, hwithout, ?_, hfrom⟩⟩
    apply (reflTransGen_iff_eq_or_transGen.mp hto).resolve_left (Ne.symm hne)

/-- Visits report circular inheritance only of cyclic or entangled units. -/
def Reports (w : Workspace) (fuel : Nat) (visit : TypeId → Realize Unit) : Prop :=
  ∀ x path r r' e, Ready w fuel r → Entering w r path x → (visit x).exec r = (.error e, r') →
    e.IsCircular → w.assembly.Cyclic ∨ w.Entangled

theorem forM_reports
    (hvisit : Visits w fuel visit) (hreports : Reports w fuel visit) (hready : Ready w fuel r)
    (hentering : ∀ y ∈ ids, Entering w r path y) (h : (ids.forM visit).exec r = (.error e, r'))
    (he : e.IsCircular) :
  w.assembly.Cyclic ∨ w.Entangled
  := by
  induction ids generalizing r with
  | nil => cases h
  | cons y ids ih =>
      obtain hfirst | ⟨⟨⟩, r₁, hfirst, hrest⟩ := cases_of_exec_bind_error h
      · apply hreports y path r r' e hready (hentering y List.mem_cons_self) hfirst he
      · have hone := hvisit y r r₁ hready hfirst
        apply ih (hready.visited hone) _ hrest
        intro y' hy'
        apply (hentering y' (List.mem_cons_of_mem y hy')).visited hone

/-- Circular inheritance that is reported while a unit is finalized. -/
theorem Progress.exists_cycle
    (h : Progress w r) {α : Type} {f : Workspace → Except BuildError α}
    (hf : ∀ w : Workspace, Quiet (w.bases x) → Quiet (f w))
    (hask : (ask f).exec r = (.error e, r')) (he : e.IsCircular) :
  ∃ y, w.Below y y
  := by
  rw [exec_ask] at hask
  obtain ⟨herror, -⟩ := Prod.mk.inj hask
  obtain ⟨new, hnew, hworkspace, -⟩ := h
  have hloud : ¬ Quiet (r.workspace.bases x) := fun hquiet => hf _ hquiet e herror he
  rw [hworkspace] at hloud
  obtain ⟨y, hy⟩ := exists_cycle_of_bases hloud
  rw [Below, hnew.hasBase] at hy
  exact ⟨y, hy⟩

theorem visitNested_reports
    (hvisit : Visits w fuel visit) (hreports : Reports w fuel visit) (hready : Ready w fuel r)
    (hbelow : ∀ y, w.Below y y → w.assembly.Cyclic)
    (hentering : ∀ y ∈ nested, ¬ w.Depends y x → Entering w r path y)
    (h : (visitNested visit x nested).exec r = (.error e, r')) (he : e.IsCircular) :
  w.assembly.Cyclic ∨ w.Entangled
  := by
  induction nested generalizing r with
  | nil => cases h
  | cons inner nested ih =>
      rw [visitNested] at h
      obtain hask | ⟨depends, r₁, hask, h⟩ := cases_of_exec_bind_error h
      · left
        obtain ⟨y, hy⟩ := hready.progress.exists_cycle
          (fun w hquiet => quiet_dependsOn hquiet x) hask he
        apply hbelow y hy
      · obtain ⟨hdepends, rfl⟩ := hready.progress.dependsOn hask
        have hrest : ∀ {r₁}, Ready w fuel r₁ →
            (∀ y ∈ nested, ¬ w.Depends y x → Entering w r₁ path y) → (do
              let others ← visitNested visit x nested
              return if depends then inner :: others else others : Realize _).exec r₁
                = (.error e, r') →
            w.assembly.Cyclic ∨ w.Entangled := by
          intro r₁ hready hentering h
          obtain h | ⟨others, r₂, -, h⟩ := cases_of_exec_bind_error h
          · apply ih hready hentering h
          · cases h
        cases depends with
        | true =>
            apply hrest hready _ h
            intro y hy
            apply hentering y (List.mem_cons_of_mem inner hy)
        | false =>
            have hnot : ¬ w.Depends inner x := fun hd => Bool.false_ne_true (hdepends.mpr hd)
            obtain hinner | ⟨⟨⟩, r₂, hinner, h⟩ := cases_of_exec_bind_error h
            · apply hreports inner path r r' e hready _ hinner he
              apply hentering inner List.mem_cons_self hnot
            · have hone := hvisit inner r r₂ hready hinner
              apply hrest (hready.visited hone) _ h
              intro y hy hdepends
              apply (hentering y (List.mem_cons_of_mem inner hy) hdepends).visited hone

/-- Laying a type out. -/
theorem install_reports
    (h : (install x).exec r = (.error e, r')) (hprogress : Progress w r) (he : e.IsCircular) :
  ∃ y, w.Below y y
  := by
  rw [install] at h
  obtain hask | ⟨t, r₁, hask, h⟩ := cases_of_exec_bind_error h
  · apply hprogress.exists_cycle (fun w hquiet => quiet_layoutType hquiet) hask he
  · obtain ⟨-, rfl⟩ := exec_ask_ok hask
    obtain hask | ⟨session, r₂, -, h⟩ := cases_of_exec_bind_error h
    · rw [exec_ask] at hask
      obtain ⟨herror, -⟩ := Prod.mk.inj hask
      cases Session.quiet_install _ t e herror he
    · cases h

/-- A type whose turn has come asks for another one. -/
theorem Entering.ask
    {y : TypeId} (h : Entering w r path x) (hx : x ∉ path) (hasks : w.Asks x y) :
  Entering w { r with inProgress := x :: r.inProgress } (x :: path) y
  := by
  obtain ⟨htrail, hnodup, hcovered, hturns⟩ := h
  constructor
  · apply Trail.step
    · apply htrail.congr
      intro z hz
      rw [List.mem_cons, or_iff_right]
      rintro rfl
      apply hx hz
    · exact fun _ => hasks
    · intro hnot
      cases hnot List.mem_cons_self
  · exact List.nodup_cons.mpr ⟨hx, hnodup⟩
  · intro z hz
    obtain rfl | hz := List.mem_cons.mp hz
    · right
      apply List.mem_cons_self
    · apply (hcovered z hz).imp_right (List.mem_cons_of_mem x)
  · intro z hz
    obtain rfl | hz := List.mem_cons.mp hz
    · apply List.mem_cons_self
    · apply List.mem_cons_of_mem x (hturns z hz)

/-- A type that is done is followed by a nested type that depends on it. -/
theorem Entering.behind
    {y : TypeId} (h : Entering w r path x) (hx : x ∉ path) (hprogress : x ∉ r.inProgress)
    (hgrows : r.ids ⊆ r'.ids) (hdone : x ∈ r'.ids) (hsame : r'.inProgress = r.inProgress)
    (hnests : w.assembly.Nests x y) (hdepends : w.Depends y x) :
  Entering w r' (x :: path) y
  := by
  obtain ⟨htrail, hnodup, hcovered, hturns⟩ := h
  rw [← hsame] at htrail hcovered hturns hprogress
  constructor
  · apply Trail.step htrail
    · intro hturn
      cases hprogress hturn
    · exact fun _ => ⟨hnests, hdepends⟩
  · exact List.nodup_cons.mpr ⟨hx, hnodup⟩
  · intro z hz
    obtain rfl | hz := List.mem_cons.mp hz
    · left
      apply hdone
    · apply (hcovered z hz).imp_left
      apply hgrows
  · intro z hz
    apply List.mem_cons_of_mem x (hturns z hz)

/-- The turn of a type that is open, with all that comes before and after it. -/
theorem turn_reports
    (hfresh : w.Fresh) {d : TypeDecl} (hd : w.assembly.decl? x = some d) (hbuilding : d.state = .building)
    (hvisit : Visits w fuel visit) (hreports : Reports w fuel visit)
    (hbelow : ∀ y, w.Below y y → w.assembly.Cyclic)
    (hready : Ready w (fuel + 1) r) (hdone : x ∉ r.ids) (hprogress : x ∉ r.inProgress)
    (hentering : Entering w r path x)
    (h : (do
        (d.baseId?.toList ++ d.interfaceIds).forM visit
        let deferred ← visitNested visit x d.nested
        install x
        deferred.forM visit : Realize Unit).exec { r with inProgress := x :: r.inProgress }
      = (.error e, r'))
    (he : e.IsCircular) :
  w.assembly.Cyclic ∨ w.Entangled
  := by
  have hx : x ∉ path := fun hx => (hentering.covered x hx).elim hdone hprogress
  have hentered := hready.enter ⟨d, hd⟩ hdone hprogress
  obtain hlinks | ⟨⟨⟩, r₁, hlinks, h⟩ := cases_of_exec_bind_error h
  · have hasks : ∀ y ∈ d.baseId?.toList ++ d.interfaceIds, Entering w _ (x :: path) y :=
      fun y hy => hentering.ask hx (.inl ⟨d, hd, hy⟩)
    apply forM_reports hvisit hreports hentered hasks hlinks he
  have hbefore := forM_visited hvisit hentered hlinks
  obtain hnested | ⟨deferred, r₂, hnested, h⟩ := cases_of_exec_bind_error h
  · have hasks : ∀ y ∈ d.nested, ¬ w.Depends y x → Entering w r₁ (x :: path) y := by
      intro y hy hdepends
      apply (hentering.ask hx (.inr ⟨⟨d, hd, hy⟩, hdepends⟩)).visited hbefore
    apply visitNested_reports hvisit hreports (hentered.visited hbefore) hbelow hasks hnested he
  obtain ⟨ids, hinner, -, hput⟩ :=
    visitNested_visited hvisit (hentered.visited hbefore) hnested
  have hfirst := hbefore.trans hinner
  obtain hinstall | ⟨⟨⟩, r₃, hinstall, h⟩ := cases_of_exec_bind_error h
  · left
    obtain ⟨y, hy⟩ := install_reports hinstall hfirst.progress he
    apply hbelow y hy
  · have hlast := (install_done hinstall).1
    have hready₃ := (hentered.visited hfirst).install hfresh hd hbuilding hinstall
    have hbehind : ∀ y ∈ deferred, Entering w r₃ (x :: path) y := by
      intro y hy
      obtain ⟨hy, hdepends⟩ := hput y hy
      apply hentering.behind hx hprogress _ _ _ ⟨d, hd, hy⟩ hdepends
      · intro z hz
        rw [hlast]
        apply List.mem_append_left _ (hfirst.grows hz)
      · simp [hlast]
      · apply inProgress_of_install hprogress hfirst.inProgress hinstall
    apply forM_reports hvisit hreports hready₃ hbehind h he

/-- Visits of types of an open unit report circular inheritance of cyclic or entangled units
only. -/
theorem realize_reports
    (hfresh : w.Fresh) (hopened : ∀ x d, w.assembly.decl? x = some d → d.state = .building)
    (hbelow : ∀ y, w.Below y y → w.assembly.Cyclic) (fuel : Nat) :
  Reports w fuel (realize fuel)
  := by
  induction fuel with
  | zero =>
      intro x path r r' e hready
      cases hready.fuel
  | succ fuel ih =>
      intro x path r r' e hready hentering h he
      rw [realize, exec_bind, exec_get] at h
      dsimp only at h
      split at h
      · cases h
      · next d hd =>
        obtain ⟨hrealized, -⟩ | ⟨hrealized, hdone, hd⟩ := hready.progress.decl_cases hopened hd
        · rw [if_pos hrealized] at h
          cases h
        · rw [hrealized, if_neg (by simp)] at h
          split at h
          · next hprogress =>
            apply hentering.again
            simpa using hprogress
          · next hprogress =>
            rw [exec_bind] at h
            have hprogress : x ∉ r.inProgress := by simpa using hprogress
            apply turn_reports hfresh hd (hopened x d hd) (realize_visits hfresh hopened fuel) ih
              hbelow hready hdone hprogress hentering h he

end Realize

end ManagedCode
