import ManagedCode.Proofs.Assembly.Dependencies

/-!
# The order of a finalized unit

A finalized unit lists each of its types once.  A type comes behind its base and its interfaces,
and a nested type comes before the type around it exactly if links of the unit do not lead from
it to that type (`Project.finalized_order`).
-/

namespace ManagedCode

open Relation

variable {ρ : Type}

/-- A unit lists a type before another one. -/
def FinalizedUnit.Before (unit : FinalizedUnit) (x y : TypeId) : Prop :=
  y ∈ unit.types.map (·.id) ∧ (unit.types.map (·.id)).idxOf x < (unit.types.map (·.id)).idxOf y

/-- A unit lists the types of an assembly, each behind all that it waits for. -/
structure FinalizedUnit.Lists (unit : FinalizedUnit) (a : Assembly) : Prop where
  all : unit.types.Perm (a.types.map (·.handle))
  behind : ∀ x y, a.Derives x y → a.Declares y → unit.Before y x
  nested : ∀ inner outer, a.Nests outer inner → a.Declares inner →
    ¬ TransGen a.Derives inner outer → unit.Before inner outer

namespace FinalizedUnit

variable {unit : FinalizedUnit} {a a' : Assembly} {x y z : TypeId}

theorem Before.trans (hxy : unit.Before x y) (hyz : unit.Before y z) : unit.Before x z :=
  ⟨hyz.1, Nat.lt_trans hxy.2 hyz.2⟩

/-- A path of links leads to a type that is listed before. -/
theorem Lists.behind_path (h : unit.Lists a) (hpath : TransGen a.Derives x y) (hy : a.Declares y) :
  unit.Before y x
  := by
  induction hpath using TransGen.head_induction_on with
  | single hlink => apply h.behind _ _ hlink hy
  | head hlink hpath ih =>
      obtain ⟨z, hfirst, -⟩ := TransGen.head'_iff.mp hpath
      apply ih.trans (h.behind _ _ hlink hfirst.declares)

/-- A nested type is listed before the type around it, unless links lead to that type. -/
theorem Lists.nested_iff
    (h : unit.Lists a) {inner outer : TypeId} (hnests : a.Nests outer inner)
    (hinner : a.Declares inner) :
  unit.Before inner outer ↔ ¬ TransGen a.Derives inner outer
  := by
  constructor
  · intro hbefore hpath
    have hbehind := h.behind_path hpath hnests.declares
    apply Nat.lt_asymm hbefore.2 hbehind.2
  · apply h.nested inner outer hnests hinner

/-- What a unit lists depends on the places and the links of the types only. -/
theorem Lists.congr
    (h : unit.Lists a) (hhandles : a'.types.map (·.handle) = a.types.map (·.handle))
    (hdecl : ∀ x, Option.Rel (fun d d' => d'.base = d.base ∧ d'.interfaces = d.interfaces
      ∧ d'.nested = d.nested) (a.decl? x) (a'.decl? x)) :
  unit.Lists a'
  := by
  have hback : ∀ {x d'}, a'.decl? x = some d' → ∃ d, a.decl? x = some d
      ∧ d'.baseId?.toList ++ d'.interfaceIds = d.baseId?.toList ++ d.interfaceIds
      ∧ d'.nested = d.nested := by
    intro x d' hd'
    have hx := hdecl x
    rw [hd'] at hx
    obtain ⟨d, hd, hbase, hinterfaces, hnested⟩ := rel_of_some hx
    refine ⟨d, hd, ?_, hnested⟩
    rw [TypeDecl.baseId?, TypeDecl.interfaceIds, hbase, hinterfaces]
    rfl
  have hdeclares : ∀ {x}, a'.Declares x → a.Declares x := by
    rintro x ⟨d', hd'⟩
    obtain ⟨d, hd, -⟩ := hback hd'
    exact ⟨d, hd⟩
  have hnests : ∀ {x y}, a'.Nests x y → a.Nests x y := by
    rintro x y ⟨d', hd', hy⟩
    obtain ⟨d, hd, -, hnested⟩ := hback hd'
    exact ⟨d, hd, hnested ▸ hy⟩
  have hderives : a'.Derives = a.Derives := by
    funext x y
    rw [eq_iff_iff]
    constructor
    · rintro ⟨d', hd', hy⟩
      obtain ⟨d, hd, hlinks, -⟩ := hback hd'
      exact ⟨d, hd, hlinks ▸ hy⟩
    · rintro ⟨d, hd, hy⟩
      have hx := hdecl x
      rw [hd] at hx
      obtain ⟨d', hd', hbase, hinterfaces, -⟩ := rel_some hx
      refine ⟨d', hd', ?_⟩
      rw [TypeDecl.baseId?, TypeDecl.interfaceIds, hbase, hinterfaces]
      exact hy
  constructor
  · rw [hhandles]
    apply h.all
  · intro x y hxy hy
    rw [hderives] at hxy
    apply h.behind x y hxy (hdeclares hy)
  · intro inner outer hinner hdeclared hpath
    rw [hderives] at hpath
    apply h.nested inner outer (hnests hinner) (hdeclares hdeclared) hpath

end FinalizedUnit

/-! ## Finalizing -/

namespace Workspace

variable {w w' : Workspace} {unit : FinalizedUnit} {ids : List TypeId} {new : List RealizedType}
  {x y : TypeId}

/-- In an order, a type comes behind what it waits for. -/
theorem Ordered.idxOf_lt (h : w.Ordered ids) (hx : x ∈ ids) (hxy : w.Waits x y) :
  ids.idxOf y < ids.idxOf x
  := by
  induction h with
  | nil => cases hx
  | @snoc ids last h hlast ih =>
      by_cases hold : x ∈ ids
      · rw [List.idxOf_append_of_mem hold, List.idxOf_append_of_mem (h.closed hold hxy)]
        apply ih hold
      · obtain hx | hx := List.mem_append.mp hx
        · cases hold hx
        · obtain rfl := List.mem_singleton.mp hx
          have hy : y ∈ ids := hlast y hxy
          rw [List.idxOf_append_of_mem hy, List.idxOf_append_of_notMem hold]
          apply Nat.lt_of_lt_of_le (List.idxOf_lt_length_of_mem hy) (Nat.le_add_right _ _)

theorem handles_realizing (w : Workspace) (new : List RealizedType) :
  (w.realizing new).assembly.types.map (·.handle) = w.assembly.types.map (·.handle)
  := by
  rw [types_realizing, List.map_map]
  apply List.map_congr_left
  intro d _
  rw [Function.comp_apply]
  split <;> rfl

/-- What has been realized are types of the unit. -/
theorem Realizes.handles_subset (h : w.Realizes new) :
  new.map (·.handle) ⊆ w.assembly.types.map (·.handle)
  := by
  intro handle hhandle
  obtain ⟨t, ht, rfl⟩ := List.mem_map.mp hhandle
  obtain ⟨d, hd, -, hmirrors⟩ := h.decl ht
  rw [hmirrors.handle]
  apply List.mem_map_of_mem (List.mem_of_find?_eq_some hd)

/-- When an open unit is finalized, all its types are listed in order. -/
theorem finalize_lists
    (hfresh : w.Fresh) (hopen : w.assembly.finalized = none) (hopened : w.assembly.Opened)
    (hrooted : w.assembly.Rooted)
    (hdepends : ∀ x y, w.Depends x y → w.assembly.Declares y → TransGen w.assembly.Derives x y)
    (h : Build.finalize.exec w = (.ok unit, w')) :
  unit.Lists w.assembly ∧ w'.assembly.finalized = some unit
  ∧ ∃ new, w'.assembly.decl? = (w.realizing new).assembly.decl?
    ∧ w'.assembly.types = (w.realizing new).assembly.types
  := by
  obtain ⟨r, hrun, htypes, rfl⟩ := exec_finalize_ok hopen h
  have hvisited := Realize.forM_visited (Realize.realize_visits hfresh (hopened hopen) _)
    (Realize.ready_start w) hrun
  obtain ⟨new, hnew, hworkspace, hdone⟩ := hvisited.progress
  have hids : unit.types.map (·.id) = r.ids := by
    rw [htypes]
    rfl
  have hordered : w.Ordered r.ids := hvisited.ordered .nil
  have hbefore : ∀ {x y}, w.assembly.Declares x → w.Waits x y → unit.Before y x := by
    intro x y hx hxy
    rw [FinalizedUnit.Before, hids]
    exact ⟨hvisited.all hrooted hx, hordered.idxOf_lt (hvisited.all hrooted hx) hxy⟩
  refine ⟨⟨?_, ?_, ?_⟩, rfl, new, ?_, ?_⟩
  · have hidsNodup : (unit.types.map (·.id)).Nodup := by
      rw [htypes, hdone, List.map_map]
      exact hnew.nodup
    have hhandlesNodup : (w.assembly.types.map (·.handle)).Nodup := by
      apply List.Nodup.of_map (·.id)
      rw [List.map_map]
      exact hfresh.nodup
    rw [List.perm_ext_iff_of_nodup hidsNodup.of_map hhandlesNodup]
    intro handle
    constructor
    · rw [htypes, hdone]
      intro hmem
      apply hnew.handles_subset hmem
    · intro hmem
      obtain ⟨d, hd, rfl⟩ := List.mem_map.mp hmem
      have hall : d.id ∈ unit.types.map (·.id) := by
        rw [hids]
        apply hvisited.all hrooted
        rw [Assembly.declares_iff]
        apply List.mem_map_of_mem hd
      obtain ⟨handle, hhandle, hid⟩ := List.mem_map.mp hall
      have hlisted : handle ∈ w.assembly.types.map (·.handle) := by
        rw [htypes, hdone] at hhandle
        apply hnew.handles_subset hhandle
      obtain ⟨d', hd', rfl⟩ := List.mem_map.mp hlisted
      rw [← List.inj_on_of_nodup_map hfresh.nodup hd' hd hid]
      exact hhandle
  · intro x y hxy hy
    apply hbefore hxy.declares ⟨.inl hxy, hy⟩
  · intro inner outer hnests hinner hpath
    apply hbefore hnests.declares ⟨.inr ⟨hnests, fun hdep => ?_⟩, hinner⟩
    apply hpath (hdepends inner outer hdep hnests.declares)
  · rw [← hworkspace]
    rfl
  · rw [← hworkspace]

end Workspace

/-! ## Throughout a session -/

namespace Workspace

variable {w w' : Workspace} {unit : FinalizedUnit}

/-- Whatever an operation does to a unit, once the unit is finalized it lists its types. -/
theorem Redraws.lists
    (h : w.Redraws w') (hfresh : w.Fresh) (hopened : w.assembly.Opened)
    (hclosed : w.assembly.Closed)
    (hdepends : w.assembly.finalized = none →
      ∀ x y, w.Depends x y → w.assembly.Declares y → TransGen w.assembly.Derives x y)
    (hlists : ∀ unit, w.assembly.finalized = some unit → unit.Lists w.assembly)
    (hunit : w'.assembly.finalized = some unit) :
  unit.Lists w'.assembly
  := by
  cases hfinalized : w.assembly.finalized with
  | some unit₀ =>
      have hsome : w.assembly.finalized.isSome := by rw [hfinalized]; rfl
      have hedits := h.edits_of_finalized hsome (hclosed.realized hsome)
      have hsame : w'.assembly.finalized = w.assembly.finalized :=
        (congrArg Assembly.finalized hedits.assembly :)
      apply (hlists unit (hsame ▸ hunit)).congr hedits.handles
      intro x
      rw [h.decl?_of_finalized hsome (hclosed.realized hsome)]
      cases w.assembly.decl? x with
      | none => exact .none
      | some d => exact .some ⟨rfl, rfl, rfl⟩
  | none =>
      obtain hopen | ⟨unit', hrun⟩ := h.open_cases hfinalized
      · rw [hopen] at hunit
        cases hunit
      · obtain ⟨hlists, hunit', new, hdecl, htypes⟩ :=
          finalize_lists hfresh hfinalized hopened hclosed.rooted (hdepends hfinalized) hrun
        rw [hunit'] at hunit
        cases hunit
        apply hlists.congr
        · rw [htypes, handles_realizing]
        · intro x
          rw [hdecl, decl?_realizing]
          cases w.assembly.decl? x with
          | none => exact .none
          | some d =>
              apply Option.Rel.some
              dsimp only
              split <;> exact ⟨rfl, rfl, rfl⟩

end Workspace

namespace Project

variable {p : Project} {i : Nat} {a : Assembly}

/-- Types and links are in their places, and what has been finalized lists its types in order. -/
structure Listing (p : Project) : Prop where
  stacked : p.Stacked
  grounded : p.Grounded
  closed : p.Closed
  enclosing : ∀ (i : Nat) (a : Assembly), p.units[i]? = some a → a.Enclosing
  lists : ∀ (i : Nat) (a : Assembly) (unit : FinalizedUnit),
    p.units[i]? = some a → a.finalized = some unit → unit.Lists a

theorem Listing.depends
    (h : p.Listing) (hsound : p.Sound) (ha : p.units[i]? = some a) (hopen : a.finalized = none)
    {x y : TypeId} (hdepends : (p.workspace a).Depends x y) (hy : a.Declares y) :
  TransGen a.Derives x y
  := by
  apply h.grounded.derives_of_depends hsound h.stacked ha hopen hdepends hy

theorem Listing.turns {q : Project} (h : p.Listing) (hsound : p.Sound) (hq : p.Turns ρ q) :
  q.Listing
  := by
  constructor
  case stacked => apply h.stacked.turns hsound hq
  case grounded => apply h.grounded.turns hsound hq
  case closed => apply h.closed.turns hsound hq
  case enclosing =>
    cases hq with
    | stays => apply h.enclosing
    | registers registry => exact h.enclosing
    | opens name =>
        intro j b hb
        obtain hb | rfl := open_cases hb
        · apply h.enclosing j b hb
        · rintro x d outer ⟨⟩
    | @changes i a ha c =>
        intro j b hb
        obtain ⟨-, rfl⟩ | ⟨-, hb⟩ := put_cases ha hb
        · apply (c.redraws (hsound.fresh ha)).enclosing (h.enclosing i a ha)
        · apply h.enclosing j b hb
  case lists =>
    cases hq with
    | stays => apply h.lists
    | registers registry => exact h.lists
    | opens name =>
        intro j b unit hb hunit
        obtain hb | rfl := open_cases hb
        · apply h.lists j b unit hb hunit
        · cases hunit
    | @changes i a ha c =>
        intro j b unit hb hunit
        obtain ⟨-, rfl⟩ | ⟨-, hb⟩ := put_cases ha hb
        · apply (c.redraws (hsound.fresh ha)).lists (hsound.fresh ha) (hsound.opened ha)
            (h.closed i a ha) _ (fun unit => h.lists i a unit ha) hunit
          intro hopen x y
          apply h.depends hsound ha hopen
        · apply h.lists j b unit hb hunit

/-- Throughout the lifetime of a session, finalized units list their types in order. -/
theorem listing_run (verify : Bool) (history : List (HostEvent ρ)) :
  ((empty verify).run history).Listing
  := by
  apply run_induction verify
  · refine ⟨.nil, ?_, ?_, ?_, ?_⟩
    · rintro i a ⟨⟩
    · rintro i a ⟨⟩
    · rintro i a ⟨⟩
    · intro i a unit ha
      cases ha
  · intro p q hsound h hq
    apply h.turns hsound hq
  · intro p h
    exact ⟨.nil, h.grounded, h.closed, h.enclosing, h.lists⟩

/-- A unit that is finalized lists each of its types once, behind its base and its interfaces, and a
nested type before the type around it exactly if no links lead from it to that type.  The history
declares fewer than `2 ^ 32 - 1` types, so that 32 bits tell their ids apart. -/
theorem finalized_order
    (verify : Bool) (history : List (HostEvent ρ)) {i : Nat} {a : Assembly} {unit : FinalizedUnit}
    (hnumbered : ((empty verify).run history).session.Numbered)
    (ha : ((empty verify).run history).units[i]? = some a)
    (hok : (Build.finalize.exec (((empty verify).run history).workspace a)).1 = .ok unit) :
  (∀ before, before <+: history → ((empty verify).run before).NumbersFit)
  ∧ unit.types.Perm (a.types.map (·.handle)) ∧ unit.types.Nodup
  ∧ (∀ x y, a.Derives x y → a.Declares y → unit.Before y x)
  ∧ ∀ inner outer d, a.decl? inner = some d → d.enclosing = some outer →
      (unit.Before inner outer ↔ ¬ TransGen a.Derives inner outer)
  := by
  have hsound := (sound_empty verify).run history
  have hlisting := listing_run verify history
  refine ⟨fun before => numbersFit_run verify hnumbered, ?_⟩
  clear hnumbered
  generalize (empty verify).run history = p at *
  have hlists : unit.Lists a := by
    cases hfinalized : a.finalized with
    | some unit' =>
        rw [exec_finalize_again hfinalized] at hok
        cases hok
        apply hlisting.lists i a unit ha hfinalized
    | none =>
        have hexec : Build.finalize.exec (p.workspace a) = (.ok unit, _) := Prod.ext hok rfl
        apply (Workspace.finalize_lists (hsound.fresh ha) hfinalized (hsound.opened ha)
          (hlisting.closed i a ha).rooted _ hexec).1
        intro x y
        apply hlisting.depends hsound ha hfinalized
  have hnodup : (a.types.map (·.handle)).Nodup := by
    apply List.Nodup.of_map (·.id)
    rw [List.map_map]
    exact hsound.nodup ha
  refine ⟨hlists.all, hlists.all.nodup_iff.mpr hnodup, hlists.behind, ?_⟩
  intro inner outer d hd houter
  exact hlists.nested_iff (hlisting.enclosing i a ha inner d outer hd houter) ⟨d, hd⟩

/-- A class in which two are nested, one that derives from it and one that does not. -/
def familiar : List (HostEvent Unit) :=
  [ .build (.openUnit "A"),
    .build (.change 0 (.declareType "A" .classType {} none)),
    .build (.change 0 (.declareType "B" .classType {} (some ⟨1⟩))),
    .build (.change 0
      (.declareType "C" .classType { base := some (.defined ⟨⟨1⟩, .classType⟩) } (some ⟨1⟩)))]

/-- The nested class is listed before the one around it, and the derived one behind it. -/
theorem finalized_order_familiar :
  ∃ a unit, ((empty true).run familiar).units[0]? = some a
    ∧ (Build.finalize.exec (((empty true).run familiar).workspace a)).1 = .ok unit
    ∧ unit.types.map (·.id) = [⟨2⟩, ⟨1⟩, ⟨3⟩]
    ∧ unit.types.Perm (a.types.map (·.handle))
    ∧ unit.Before ⟨1⟩ ⟨3⟩ ∧ unit.Before ⟨2⟩ ⟨1⟩ ∧ ¬ TransGen a.Derives ⟨2⟩ ⟨1⟩
  := by
  obtain ⟨a, ha, hlisted, houter, hnested, hbase⟩ : ∃ a, ((empty true).run familiar).units[0]? = some a
      ∧ (Build.finalize.exec (((empty true).run familiar).workspace a)).1.map
          (·.types.map (·.id)) = .ok [⟨2⟩, ⟨1⟩, ⟨3⟩]
      ∧ (a.decl? ⟨1⟩).isSome ∧ (a.decl? ⟨2⟩).map (·.enclosing) = some (some ⟨1⟩)
      ∧ (a.decl? ⟨3⟩).map (·.baseId?.toList) = some [⟨1⟩] := by
    refine ⟨_, rfl, ?_, ?_, ?_, ?_⟩ <;> decide +kernel
  obtain ⟨unit, hok, hids⟩ : ∃ unit,
      (Build.finalize.exec (((empty true).run familiar).workspace a)).1 = .ok unit
        ∧ unit.types.map (·.id) = [⟨2⟩, ⟨1⟩, ⟨3⟩] := by
    generalize (Build.finalize.exec (((empty true).run familiar).workspace a)).1 = result at *
    cases result with
    | error e => cases hlisted
    | ok unit => exact ⟨unit, rfl, Except.ok.inj hlisted⟩
  obtain ⟨-, hall, -, hbehind, hinner⟩ :=
    finalized_order true familiar (by decide +kernel) ha hok
  obtain ⟨b, hb, hplace⟩ := Option.map_eq_some_iff.mp hnested
  obtain ⟨c, hc, hlinks⟩ := Option.map_eq_some_iff.mp hbase
  have hlink : a.Derives ⟨3⟩ ⟨1⟩ := by
    refine ⟨c, hc, ?_⟩
    rw [hlinks]
    apply List.mem_append_left
    apply List.mem_singleton_self
  have hbefore : unit.Before ⟨2⟩ ⟨1⟩ := by
    rw [FinalizedUnit.Before, hids]
    decide
  refine ⟨a, unit, ha, hok, hids, hall, ?_, hbefore, ?_⟩
  · apply hbehind _ _ hlink (Option.isSome_iff_exists.mp houter)
  · apply (hinner _ _ b hb hplace).mp hbefore

end Project

end ManagedCode
