import ManagedCode.Proofs.Assembly.Cycles
import ManagedCode.Proofs.Assembly.Placement

/-!
# Circular inheritance

Whatever has happened in the lifetime of a session, a unit whose base and interface links form
a cycle is not finalized, and a unit that is refused for circular inheritance has such a cycle
or is entangled (`Project.circular_finalize`).
-/

namespace ManagedCode

open Relation

variable {ρ : Type}

/-! ## Units that are finalized -/

namespace Assembly

variable {a : Assembly} {x y : TypeId}

theorem Derives.declares (h : a.Derives x y) : a.Declares x := by
  obtain ⟨d, hd, -⟩ := h
  exact ⟨d, hd⟩

theorem Nests.declares (h : a.Nests x y) : a.Declares x := by
  obtain ⟨d, hd, -⟩ := h
  exact ⟨d, hd⟩

/-- Links along which some number goes down form no cycle. -/
theorem not_cyclic_of_rank
    (rank : TypeId → Nat) (h : ∀ d ∈ a.types, ∀ y ∈ d.baseId?.toList ++ d.interfaceIds, rank y < rank d.id) :
  ¬ a.Cyclic
  := by
  have hstep : ∀ {x y}, a.Derives x y → rank y < rank x := by
    rintro x y ⟨d, hd, hy⟩
    have := h d (List.mem_of_find?_eq_some hd) y hy
    rwa [decl?_id hd] at this
  have hpath : ∀ {x y}, TransGen a.Derives x y → rank y < rank x := by
    intro x y hpath
    induction hpath with
    | single h => apply hstep h
    | tail _ h ih => apply Nat.lt_trans (hstep h) ih
  rintro ⟨x, hcycle⟩
  apply Nat.lt_irrefl _ (hpath hcycle)

end Assembly

namespace Realize

open Workspace

variable {w : Workspace} {r r' : Realization} {e : BuildError} {x y : TypeId}

/-- Fuel suffices for all types of a unit. -/
theorem ready_start (w : Workspace) : Ready w (w.assembly.types.length + 1) { workspace := w } := by
  refine ⟨⟨[], .nil, by simp [Workspace.realizing], rfl⟩, ?_⟩
  rw [Nat.lt_succ_iff]
  calc (untouched w { workspace := w }).card
      ≤ w.assembly.ids.toFinset.card := Finset.card_le_card (Finset.filter_subset _ _)
    _ ≤ w.assembly.ids.length := List.toFinset_card_le _
    _ = w.assembly.types.length := List.length_map _

/-- When all types at the top level of a unit have been visited, all types have been. -/
theorem Visited.all
    (h : Visited w { workspace := w } w.assembly.topLevel r) (hrooted : w.assembly.Rooted)
    (hx : w.assembly.Declares x) :
  x ∈ r.ids
  := by
  obtain ⟨root, hroot, hpath⟩ := hrooted x hx
  have hsource : ∀ {y}, ReflTransGen w.assembly.Nests y x → w.assembly.Declares y := by
    intro y hpath
    obtain rfl | ⟨z, hstep, -⟩ := hpath.cases_head
    · apply hx
    · apply hstep.declares
  have hall : ∀ {y}, ReflTransGen w.assembly.Nests y x → y ∈ r.ids → x ∈ r.ids := by
    intro y hpath
    induction hpath using ReflTransGen.head_induction_on with
    | refl => exact id
    | head hstep hpath ih =>
        intro hy
        apply ih
        apply h.nested _ hy (List.not_mem_nil) _ hstep (hsource hpath)
  apply hall hpath
  apply h.visited root hroot (hsource hpath)

/-- A path of links is one of types that wait for each other. -/
theorem waits_of_derives
    (h : TransGen w.assembly.Derives x y) (hy : w.assembly.Declares y) :
  TransGen w.Waits x y
  := by
  induction h with
  | single h => exact .single ⟨.inl h, hy⟩
  | tail _ h ih => exact (ih h.declares).tail ⟨.inl h, hy⟩

/-- A unit in which all types have been visited has no cycle of links. -/
theorem Visited.not_cyclic
    (h : Visited w { workspace := w } w.assembly.topLevel r) (hrooted : w.assembly.Rooted) :
  ¬ w.assembly.Cyclic
  := by
  rintro ⟨x, hcycle⟩
  have hx : w.assembly.Declares x := by
    obtain ⟨y, hstep, -⟩ := TransGen.head'_iff.mp hcycle
    apply hstep.declares
  apply (h.ordered .nil).acyclic (h.all hrooted hx)
  apply waits_of_derives hcycle hx

/-- What a unit is refused for. -/
theorem topLevel_reports
    (hfresh : w.Fresh) (hopened : ∀ x d, w.assembly.decl? x = some d → d.state = .building)
    (hbelow : ∀ y, w.Below y y → w.assembly.Cyclic)
    (h : (w.assembly.topLevel.forM (realize (w.assembly.types.length + 1))).exec { workspace := w }
      = (.error e, r'))
    (he : e.IsCircular) :
  w.assembly.Cyclic ∨ w.Entangled
  := by
  have hentering : ∀ root ∈ w.assembly.topLevel, Entering w { workspace := w } [] root := by
    intro root hroot
    exact ⟨.root hroot, List.nodup_nil, by simp, by simp⟩
  apply forM_reports (realize_visits hfresh hopened _) (realize_reports hfresh hopened hbelow _)
    (ready_start w) hentering h he

end Realize

namespace Workspace

variable {w w' : Workspace} {unit : FinalizedUnit} {e : BuildError}

/-- What finalizing an open unit comes to. -/
theorem exec_finalize_cases (hopen : w.assembly.finalized = none) :
  (∃ e r, (w.assembly.topLevel.forM
        (Realize.realize (w.assembly.types.length + 1))).exec { workspace := w } = (.error e, r)
      ∧ (Build.finalize.exec w).1 = .error e)
  ∨ ∃ unit r, (w.assembly.topLevel.forM
        (Realize.realize (w.assembly.types.length + 1))).exec { workspace := w } = (.ok (), r)
      ∧ Build.finalize.exec w = (.ok unit, { r.workspace with
          assembly := { r.workspace.assembly with finalized := some unit } })
  := by
  rw [Build.finalize]
  rw [exec_bind, exec_get]
  dsimp only
  rw [hopen]
  dsimp only
  split
  · next e r hrun =>
    left
    exact ⟨e, r, hrun, rfl⟩
  · next r hrun =>
    right
    exact ⟨_, r, hrun, rfl⟩

/-- What an open unit is finalized to. -/
theorem exec_finalize_ok
    (hopen : w.assembly.finalized = none) (h : Build.finalize.exec w = (.ok unit, w')) :
  ∃ r, (w.assembly.topLevel.forM
      (Realize.realize (w.assembly.types.length + 1))).exec { workspace := w } = (.ok (), r)
    ∧ unit.types = r.done
    ∧ w' = { r.workspace with assembly := { r.workspace.assembly with finalized := some unit } }
  := by
  rw [Build.finalize] at h
  rw [exec_bind, exec_get] at h
  dsimp only at h
  rw [hopen] at h
  dsimp only at h
  split at h
  · cases h
  · next r hrun =>
    cases h
    exact ⟨r, hrun, rfl, rfl⟩

theorem derives_realizing (w : Workspace) (new : List RealizedType) :
  (w.realizing new).assembly.Derives = w.assembly.Derives
  := by
  funext x y
  rw [Assembly.Derives, Assembly.Derives, eq_iff_iff]
  simp only [decl?_realizing, Option.map_eq_some_iff]
  constructor
  · rintro ⟨-, ⟨d, hd, rfl⟩, hy⟩
    refine ⟨d, hd, ?_⟩
    split at hy <;> exact hy
  · rintro ⟨d, hd, hy⟩
    refine ⟨_, ⟨d, hd, rfl⟩, ?_⟩
    split <;> exact hy

/-- A unit that has been finalized has all its types realized, without a cycle of links. -/
theorem finalize_closes
    (hfresh : w.Fresh) (hopen : w.assembly.finalized = none) (hopened : w.assembly.Opened)
    (hrooted : w.assembly.Rooted) (h : Build.finalize.exec w = (.ok unit, w')) :
  (∀ x d, w'.assembly.decl? x = some d → d.state = .realized)
  ∧ w'.assembly.Derives = w.assembly.Derives ∧ ¬ w.assembly.Cyclic
  := by
  obtain ⟨r, hrun, -, rfl⟩ := exec_finalize_ok hopen h
  have hvisited := Realize.forM_visited (Realize.realize_visits hfresh (hopened hopen) _)
    (Realize.ready_start w) hrun
  refine ⟨?_, ?_, hvisited.not_cyclic hrooted⟩
  · intro x d hd
    obtain ⟨hrealized, -⟩ | ⟨-, hdone, hd⟩ :=
      hvisited.progress.decl_cases (hopened hopen) hd
    · simpa [TypeDecl.isRealized] using hrealized
    · cases hdone (hvisited.all hrooted ⟨d, hd⟩)
  · obtain ⟨new, -, hworkspace, -⟩ := hvisited.progress
    change r.workspace.assembly.Derives = _
    rw [hworkspace, derives_realizing]

end Workspace

/-! ## Units that have been finalized -/

/-- All types of a unit have their places, and once it is finalized, all are realized and links
form no cycle. -/
structure Assembly.Closed (a : Assembly) : Prop where
  rooted : a.Rooted
  realized : a.finalized.isSome → ∀ x d, a.decl? x = some d → d.state = .realized
  acyclic : a.finalized.isSome → ¬ a.Cyclic

namespace Workspace

variable {w w' : Workspace}

/-- A unit that has been finalized is at most edited. -/
theorem Redraws.edits_of_finalized
    (h : w.Redraws w') (hfinalized : w.assembly.finalized.isSome)
    (hrealized : ∀ x d, w.assembly.decl? x = some d → d.state = .realized) :
  w.Edits w'
  := by
  have hnot : ∀ {id d}, w.assembly.building id ≠ .ok d := by
    intro id d hbuilding
    obtain ⟨hd, hstate⟩ := Assembly.building_ok hbuilding
    rw [hrealized id d hd] at hstate
    cases hstate
  cases h with
  | edits h => exact h
  | declares d h heq =>
      rw [h.finalized] at hfinalized
      cases hfinalized
  | rebases id d given base hd hkind hother hbase heq => cases hnot hd
  | implements id d interface hd hkind hinterface heq => cases hnot hd
  | realizes new unit h hopen hrun heq =>
      rw [hopen] at hfinalized
      cases hfinalized

/-- Nothing changes the declarations of a unit that has been finalized. -/
theorem Redraws.decl?_of_finalized
    (h : w.Redraws w') (hfinalized : w.assembly.finalized.isSome)
    (hrealized : ∀ x d, w.assembly.decl? x = some d → d.state = .realized) :
  w'.assembly.decl? = w.assembly.decl?
  := by
  funext x
  cases hd : w.assembly.decl? x with
  | some d => apply h.frozen hd (hrealized x d hd)
  | none =>
      have hx := (h.edits_of_finalized hfinalized hrealized).decl x
      rw [hd] at hx
      apply eq_none_of_rel hx

/-- An open unit stays open, or it is finalized. -/
theorem Redraws.open_cases (h : w.Redraws w') (hopen : w.assembly.finalized = none) :
  w'.assembly.finalized = none ∨ ∃ unit, Build.finalize.exec w = (.ok unit, w')
  := by
  cases h with
  | edits h =>
      left
      have hfinalized : w'.assembly.finalized = w.assembly.finalized :=
        (congrArg Assembly.finalized h.assembly :)
      rw [hfinalized, hopen]
  | declares d h heq =>
      left
      rw [heq, declaring]
      split <;> exact hopen
  | rebases id d given base hd hkind hother hbase heq =>
      left
      rw [heq]
      exact hopen
  | implements id d interface hd hkind hinterface heq =>
      left
      rw [heq]
      exact hopen
  | realizes new unit h hopen hrun heq =>
      right
      exact ⟨unit, hrun⟩

theorem Redraws.closed
    (h : w.Redraws w') (hfresh : w.Fresh) (hopened : w.assembly.Opened) (hclosed : w.assembly.Closed) :
  w'.assembly.Closed
  := by
  have hrooted := h.rooted hclosed.rooted
  cases hfinalized : w.assembly.finalized with
  | some unit =>
      have hsome : w.assembly.finalized.isSome := by rw [hfinalized]; rfl
      have hdecl := h.decl?_of_finalized hsome (hclosed.realized hsome)
      refine ⟨hrooted, fun _ => ?_, fun _ => ?_⟩
      · rw [hdecl]
        apply hclosed.realized hsome
      · rw [Assembly.Cyclic]
        unfold Assembly.Derives
        rw [hdecl]
        apply hclosed.acyclic hsome
  | none =>
      obtain hopen | ⟨unit, hrun⟩ := h.open_cases hfinalized
      · refine ⟨hrooted, ?_, ?_⟩ <;> simp [hopen]
      · obtain ⟨hrealized, hderives, hacyclic⟩ :=
          finalize_closes hfresh hfinalized hopened hclosed.rooted hrun
        refine ⟨hrooted, fun _ => hrealized, fun _ => ?_⟩
        rw [Assembly.Cyclic, hderives]
        apply hacyclic

end Workspace

namespace Project

variable {p : Project} {i : Nat} {a : Assembly}

/-- The units of a project are closed. -/
def Closed (p : Project) : Prop :=
  ∀ (i : Nat) (a : Assembly), p.units[i]? = some a → a.Closed

theorem Closed.turns {q : Project} (h : p.Closed) (hsound : p.Sound) (hq : p.Turns ρ q) :
  q.Closed
  := by
  cases hq with
  | stays => apply h
  | registers registry => exact h
  | opens name =>
      intro j b hb
      obtain hb | rfl := open_cases hb
      · apply h j b hb
      · refine ⟨?_, ?_, ?_⟩
        · rintro x ⟨d, ⟨⟩⟩
        · rintro ⟨⟩
        · rintro ⟨⟩
  | @changes i a ha c =>
      intro j b hb
      obtain ⟨-, rfl⟩ | ⟨-, hb⟩ := put_cases ha hb
      · apply (c.redraws (hsound.fresh ha)).closed (hsound.fresh ha) (hsound.opened ha) (h i a ha)
      · apply h j b hb

/-- Throughout the lifetime of a session, the units of the project are closed. -/
theorem closed_run (verify : Bool) (history : List (HostEvent ρ)) :
  ((empty verify).run history).Closed
  := by
  apply run_induction verify
  · rintro i a ⟨⟩
  · intro p q hsound h hq
    apply h.turns hsound hq
  · intro p h
    exact h

/-- A unit whose links form a cycle is not finalized, and a unit that is refused for circular
inheritance has links that form a cycle, or is entangled.  The history declares fewer than `2 ^ 32 -
1` types, so that 32 bits tell their ids apart. -/
theorem circular_finalize
    (verify : Bool) (history : List (HostEvent ρ)) {i : Nat} {a : Assembly}
    (hnumbered : ((empty verify).run history).session.Numbered)
    (ha : ((empty verify).run history).units[i]? = some a) :
  (∀ before, before <+: history → ((empty verify).run before).NumbersFit)
  ∧ (a.Cyclic →
      ∀ unit, (Build.finalize.exec (((empty verify).run history).workspace a)).1 ≠ .ok unit)
  ∧ ∀ e, (Build.finalize.exec (((empty verify).run history).workspace a)).1 = .error e →
      e.IsCircular → a.Cyclic ∨ (((empty verify).run history).workspace a).Entangled
  := by
  have hsound := (sound_empty verify).run history
  have hclosed := closed_run verify history i a ha
  have hstacked := stacked_run verify history
  refine ⟨fun before => numbersFit_run verify hnumbered, ?_⟩
  clear hnumbered
  generalize (empty verify).run history = p at *
  cases hfinalized : a.finalized with
  | some unit =>
      constructor
      · intro hcyclic
        cases hclosed.acyclic (by rw [hfinalized]; rfl) hcyclic
      · intro e he
        rw [exec_finalize_again hfinalized] at he
        cases he
  | none =>
      constructor
      · intro hcyclic unit hok
        obtain ⟨-, -, hacyclic⟩ :=
          Workspace.finalize_closes (hsound.fresh ha) hfinalized (hsound.opened ha) hclosed.rooted
            (Prod.ext hok rfl)
        apply hacyclic hcyclic
      · intro e he hcircular
        obtain ⟨e', r, hrun, herror⟩ | ⟨unit, r, -, hexec⟩ :=
          Workspace.exec_finalize_cases (w := p.workspace a) hfinalized
        · rw [herror] at he
          cases he
          apply Realize.topLevel_reports (hsound.fresh ha) (hsound.opened ha hfinalized) _ hrun
            hcircular
          intro x hx
          exact ⟨x, (hsound.settled ha hfinalized).derives_cycle hstacked hx⟩
        · rw [hexec] at he
          cases he

/-- Two classes, each of which has the other one as its base. -/
def opposed : List (HostEvent Unit) :=
  [ .build (.openUnit "A"),
    .build (.change 0 (.declareType "P" .classType {} none)),
    .build (.change 0
      (.declareType "Q" .classType { base := some (.defined ⟨⟨1⟩, .classType⟩) } none)),
    .build (.change 0 (.setBase ⟨1⟩ (.defined ⟨⟨2⟩, .classType⟩)))]

/-- A class in which one is nested that derives from it, and before both of them one that
derives from the nested one. -/
def detour : List (HostEvent Unit) :=
  [ .build (.openUnit "A"),
    .build (.change 0 (.declareType "E" .classType {} none)),
    .build (.change 0 (.declareType "A" .classType {} none)),
    .build (.change 0
      (.declareType "B" .classType { base := some (.defined ⟨⟨2⟩, .classType⟩) } (some ⟨2⟩))),
    .build (.change 0 (.setBase ⟨1⟩ (.defined ⟨⟨3⟩, .classType⟩)))]

/-- The detour is refused, although the types could be realized one after another. -/
theorem exists_detour :
  ∃ a, ((empty true).run detour).units[0]? = some a
    ∧ (Build.finalize.exec (((empty true).run detour).workspace a)).1
      = .error (.circularInheritance "A+B")
    ∧ ¬ a.Cyclic
  := by
  obtain ⟨a, ha, hrefused, hranked⟩ : ∃ a, ((empty true).run detour).units[0]? = some a
      ∧ (Build.finalize.exec (((empty true).run detour).workspace a)).1
        = .error (.circularInheritance "A+B")
      ∧ ∀ d ∈ a.types, ∀ y ∈ d.baseId?.toList ++ d.interfaceIds,
          [2, 3, 1].idxOf y.number < [2, 3, 1].idxOf d.id.number := by
    refine ⟨_, rfl, ?_, ?_⟩ <;> decide +kernel
  exact ⟨a, ha, hrefused, Assembly.not_cyclic_of_rank _ hranked⟩

/-- The opposed classes are refused for their cycle, and the detour because it is entangled. -/
theorem circular_opposed :
  (∃ a, ((empty true).run opposed).units[0]? = some a ∧ a.Cyclic
    ∧ ∀ unit, (Build.finalize.exec (((empty true).run opposed).workspace a)).1 ≠ .ok unit)
  ∧ ∃ a, ((empty true).run detour).units[0]? = some a
    ∧ (Build.finalize.exec (((empty true).run detour).workspace a)).1
      = .error (.circularInheritance "A+B")
    ∧ (((empty true).run detour).workspace a).Entangled
  := by
  constructor
  · obtain ⟨a, ha, hfirst, hsecond⟩ : ∃ a, ((empty true).run opposed).units[0]? = some a
        ∧ (a.decl? ⟨1⟩).map (·.baseId?.toList) = some [⟨2⟩]
        ∧ (a.decl? ⟨2⟩).map (·.baseId?.toList) = some [⟨1⟩] := by
      refine ⟨_, rfl, ?_, ?_⟩ <;> decide +kernel
    have hderives : ∀ {x y}, (a.decl? x).map (·.baseId?.toList) = some [y] → a.Derives x y := by
      intro x y h
      obtain ⟨d, hd, hbase⟩ := Option.map_eq_some_iff.mp h
      refine ⟨d, hd, ?_⟩
      rw [hbase]
      apply List.mem_append_left
      apply List.mem_singleton_self
    have hcyclic : a.Cyclic := ⟨⟨1⟩, .tail (.single (hderives hfirst)) (hderives hsecond)⟩
    exact ⟨a, ha, hcyclic, (circular_finalize true opposed (by decide +kernel) ha).2.1 hcyclic⟩
  · obtain ⟨a, ha, hrefused, hacyclic⟩ := exists_detour
    refine ⟨a, ha, hrefused, ?_⟩
    obtain ⟨-, -, hcircular⟩ := circular_finalize true detour (by decide +kernel) ha
    apply (hcircular _ hrefused ⟨_, rfl⟩).resolve_left hacyclic

/-- A unit can be refused for circular inheritance although links form no cycle. -/
theorem not_cyclic_of_circular :
  ¬ ∀ (history : List (HostEvent Unit)) (i : Nat) (a : Assembly) (e : BuildError),
      ((empty true).run history).units[i]? = some a →
        (Build.finalize.exec (((empty true).run history).workspace a)).1 = .error e →
        e.IsCircular → a.Cyclic
  := by
  intro hclaim
  obtain ⟨a, ha, hrefused, hacyclic⟩ := exists_detour
  apply hacyclic
  apply hclaim detour 0 a _ ha hrefused ⟨_, rfl⟩

end Project

end ManagedCode
