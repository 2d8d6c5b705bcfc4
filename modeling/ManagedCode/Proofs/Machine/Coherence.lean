import ManagedCode.Proofs.Assembly.Contracts
import ManagedCode.Proofs.Assembly.Registration
import ManagedCode.Proofs.Machine.Dispatch

/-!
# Coherent sessions

After every history of operations on units, names, realized types and the declarations of the
units agree, and whatever a realized type refers to is realized (`Project.coherent_after`).
Base links form no cycle, so that a loop which climbs them comes to an end, with the answer that
the search along the lineage of a type gives (`Session.Climbs`).
-/

namespace ManagedCode

open Relation

variable {ρ : Type}

/-! ## Interfaces of realized types -/

namespace Workspace

variable {w : Workspace} {new : List RealizedType} {t : RealizedType} {x : TypeId}

/-- The search for interfaces finds only types that can be seen. -/
theorem isSome_of_inheritedInterfacesFrom
    {fuel : Nat} {seen pending found : List TypeId}
    (h : w.inheritedInterfacesFrom fuel seen pending = .ok found) (hx : x ∈ found) :
  (w.view? x).isSome
  := by
  induction fuel generalizing seen pending found with
  | zero =>
      cases pending <;>
      · cases h
        cases hx
  | succ fuel ih =>
      cases pending with
      | nil =>
          cases h
          cases hx
      | cons id pending =>
          rw [inheritedInterfacesFrom] at h
          split at h
          · apply ih h hx
          · obtain ⟨s, hs, h⟩ := exists_of_bind_ok h
            obtain ⟨rest, hrest, h⟩ := exists_of_bind_ok h
            cases h
            obtain rfl | hx := List.mem_cons.mp hx
            · rw [view_ok hs]
              rfl
            · apply ih hrest hx

/-- A type is laid out with the interfaces that it declares, and only with types that its unit
can see. -/
theorem layoutType_allInterfaces (h : w.layoutType x = .ok t) :
  t.interfaces ⊆ t.allInterfaces ∧ ∀ y ∈ t.allInterfaces, (w.view? y).isSome
  := by
  obtain ⟨d, base, hd, -, -, hinterfaces⟩ := layoutType_ok h
  rw [layoutType_interfaces h hd]
  rw [layoutInterfaces] at hinterfaces
  split at hinterfaces
  · obtain ⟨all, hall, hinterfaces⟩ := exists_of_bind_ok hinterfaces
    obtain ⟨bases, -, hinterfaces⟩ := exists_of_bind_ok hinterfaces
    obtain ⟨map, -, hinterfaces⟩ := exists_of_bind_ok hinterfaces
    obtain ⟨rfl, -⟩ := Prod.mk.inj (Except.ok.inj hinterfaces)
    rw [Assembly.decl?_id hd] at hall
    constructor
    · intro y hy
      apply (mem_allInterfaces_iff hall y).mpr
      exact ⟨x, y, .refl, ⟨_, view?_of_decl hd, hy⟩, .refl⟩
    · intro y hy
      obtain ⟨s, -, hall⟩ := exists_of_bind_ok hall
      obtain ⟨bases, -, hall⟩ := exists_of_bind_ok hall
      obtain ⟨inherited, -, hall⟩ := exists_of_bind_ok hall
      apply isSome_of_inheritedInterfacesFrom hall hy
  · obtain ⟨all, hall, hinterfaces⟩ := exists_of_bind_ok hinterfaces
    obtain ⟨rfl, -⟩ := Prod.mk.inj (Except.ok.inj hinterfaces)
    constructor
    · intro y hy
      apply (mem_inheritedInterfaces_iff hall y).mpr ⟨y, hy, .refl⟩
    · intro y hy
      apply isSome_of_inheritedInterfacesFrom hall hy

/-- What a unit can see while it is finalized is realized in the end. -/
theorem realized_of_view
    (hall : ∀ x d, w.assembly.decl? x = some d →
      ∃ t, (w.realizing new).session.realized? x = some t)
    {before : List RealizedType} (hbefore : before <+: new)
    (hx : ((w.realizing before).view? x).isSome) :
  ∃ t, (w.realizing new).session.realized? x = some t
  := by
  obtain ⟨after, rfl⟩ := hbefore
  cases hd : w.assembly.decl? x with
  | some d => apply hall x d hd
  | none =>
      have hnone : (w.realizing before).assembly.decl? x = none := by
        rw [decl?_realizing, hd]
        rfl
      rw [view?_of_no_decl hnone, Option.isSome_map] at hx
      obtain ⟨t, ht⟩ := Option.isSome_iff_exists.mp hx
      use t
      change (w.session.types ++ (before ++ after)).find? _ = some t
      rw [← List.append_assoc]
      apply find?_append_of_some ht

end Workspace

/-- The interfaces of the realized types, declared and inherited, are realized. -/
def Session.Implements (s : Session) : Prop :=
  ∀ t ∈ s.types, t.interfaces ⊆ t.allInterfaces
    ∧ ∀ x ∈ t.allInterfaces, ∃ u, s.realized? x = some u

/-- A type is realized with interfaces that are realized, if the whole unit is. -/
theorem Workspace.Realizes.implements
    {w : Workspace} {new : List RealizedType} (hnew : w.Realizes new) (hsettled : w.Settled)
    (hall : ∀ x d, w.assembly.decl? x = some d →
      ∃ t, (w.realizing new).session.realized? x = some t)
    (h : w.session.Implements) :
  (w.realizing new).session.Implements
  := by
  intro t ht
  obtain ht | ht := List.mem_append.mp ht
  · obtain ⟨hdeclared, hrealized⟩ := h t ht
    refine ⟨hdeclared, fun x hx => ?_⟩
    obtain ⟨u, hu⟩ := hrealized x hx
    exact ⟨u, (hnew.follows hsettled).kept hu⟩
  · obtain ⟨before, hbefore, hlayout⟩ := hnew.exists_layout ht
    obtain ⟨hdeclared, hseen⟩ := Workspace.layoutType_allInterfaces hlayout
    refine ⟨hdeclared, fun x hx => ?_⟩
    apply Workspace.realized_of_view hall hbefore (hseen x hx)

theorem Project.implements_after (verify : Bool) (history : List (Event ρ)) :
  ((empty verify).after history).session.Implements
  := by
  apply session_induction verify
  · rintro t ⟨⟩
  · intro s next h
    exact h
  · intro w new hsettled hnew hall h
    apply hnew.implements hsettled hall h

/-! ## Loops over base links -/

namespace Session

variable {α β : Type} {s : Session}

/-- A loop that starts at a type and climbs base links until it has an answer.  It asks at each
type, also at one that is not realized; behind the last base it answers `last`. -/
inductive Climbs (s : Session) (ask : TypeId → Option RealizedType → Option β) (last : β) :
    TypeId → β → Prop
  | stops {x : TypeId} {b : β} (h : ask x (s.realized? x) = some b) : Climbs s ask last x b
  | ends {x : TypeId} {t : RealizedType} (ht : s.realized? x = some t)
      (h : ask x (some t) = none) (hbase : t.base = none) : Climbs s ask last x last
  | climbs {x y : TypeId} {t : RealizedType} {b : β} (ht : s.realized? x = some t)
      (h : ask x (some t) = none) (hbase : t.base = some y) (hrest : Climbs s ask last y b) :
      Climbs s ask last x b

/-- A loop for the first type that a function answers for; a type that is not realized is an
error. -/
def search (f : RealizedType → Option α) (x : TypeId) :
    Option RealizedType → Option (Except TypeId (Option α))
  | none => some (.error x)
  | some t => (f t).map fun a => .ok (some a)

/-- A loop for a type that is the target or implements it. -/
def descent (target x : TypeId) (t? : Option RealizedType) : Option Bool :=
  if x == target then some true
  else match t? with
    | none => some false
    | some t => if t.implements target then some true else none

/-- A type with its bases and the link, if any, to a type that is not realized, as base links
lead to them. -/
inductive Leads (s : Session) : TypeId → Lineage → Prop
  | missing {x : TypeId} (h : s.realized? x = none) : Leads s x ⟨[], some x⟩
  | root {x : TypeId} {t : RealizedType} (ht : s.realized? x = some t) (hbase : t.base = none) :
      Leads s x ⟨[t], none⟩
  | link {x y : TypeId} {t : RealizedType} {line : Lineage} (ht : s.realized? x = some t)
      (hbase : t.base = some y) (hrest : Leads s y line) :
      Leads s x ⟨t :: line.types, line.missing⟩

/-- The types along base links are those of the lineage, for a base is realized before what is
derived from it. -/
theorem leads_lineage
    {verify : Bool} {decls : TypeId → Option TypeDecl} (h : Layered verify decls s.types)
    (x : TypeId) :
  s.Leads x (s.lineage x)
  := by
  have hposition : ∀ (fuel k : Nat) (t : RealizedType), s.types[k]? = some t → k < fuel →
      s.Leads t.id (s.lineageFrom fuel t.id) := by
    intro fuel
    induction fuel with
    | zero =>
        intro k t _ hk
        cases hk
    | succ fuel ih =>
        intro k t ht hk
        have hmem := List.mem_of_getElem? ht
        have hrealized : s.realized? t.id = some t := h.find hmem
        rw [lineageFrom]
        rw [hrealized]
        dsimp only
        split
        · next hbase => exact .root hrealized hbase
        · next y hbase =>
          obtain ⟨u, hu, -⟩ := h.tabled.base t hmem y hbase
          obtain ⟨j, hj, huj⟩ := h.earlier ht ⟨y, hbase, hu⟩
          obtain rfl : u.id = y := by simpa using List.find?_some hu
          exact .link hrealized hbase (ih j u huj (by omega))
  rw [lineage]
  cases ht : s.realized? x with
  | none =>
      rw [lineageFrom]
      rw [ht]
      exact .missing ht
  | some t =>
      obtain ⟨k, hk⟩ := List.getElem?_of_mem (List.mem_of_find?_eq_some ht)
      obtain rfl : t.id = x := by simpa using List.find?_some ht
      have hlt := (List.getElem?_eq_some_iff.mp hk).1
      apply hposition _ k t hk
      omega

/-- The first answer along a line is where a loop stops that climbs it. -/
theorem Leads.search {x : TypeId} {line : Lineage} (h : s.Leads x line)
    (f : RealizedType → Option α) :
  s.Climbs (search f) (.ok none) x
    (match line.types.findSome? f, line.missing with
      | some found, _ => .ok (some found)
      | none, some y => .error y
      | none, none => .ok none)
  := by
  induction h with
  | missing h =>
      apply Climbs.stops
      rw [h]
      rfl
  | @root x t ht hbase =>
      rw [List.findSome?_cons, List.findSome?_nil]
      cases hf : f t with
      | some a =>
          apply Climbs.stops
          rw [ht, Session.search, hf]
          rfl
      | none =>
          apply Climbs.ends ht _ hbase
          rw [Session.search, hf]
          rfl
  | @link x y t line ht hbase hrest ih =>
      rw [List.findSome?_cons]
      cases hf : f t with
      | some a =>
          apply Climbs.stops
          rw [ht, Session.search, hf]
          rfl
      | none =>
          apply Climbs.climbs ht _ hbase ih
          rw [Session.search, hf]
          rfl

theorem Leads.descent {x : TypeId} {line : Lineage} (h : s.Leads x line) (target : TypeId) :
  s.Climbs (descent target) false x
    (line.types.any (fun t => t.id == target || t.implements target)
      || line.missing == some target)
  := by
  have hid : ∀ {x t}, s.realized? x = some t → t.id = x := by
    intro x t ht
    simpa using List.find?_some ht
  induction h with
  | @missing x h =>
      apply Climbs.stops
      rw [h, Session.descent]
      cases hx : x == target <;> simp_all
  | @root x t ht hbase =>
      obtain rfl := hid ht
      rw [List.any_cons, List.any_nil, Bool.or_false]
      cases hstop : t.id == target || t.implements target with
      | true =>
          apply Climbs.stops
          rw [ht, Session.descent]
          cases hx : t.id == target <;> simp_all
      | false =>
          rw [Bool.or_eq_false_iff] at hstop
          apply Climbs.ends ht _ hbase
          rw [Session.descent, hstop.1, hstop.2]
          rfl
  | @link x y t line ht hbase hrest ih =>
      obtain rfl := hid ht
      rw [List.any_cons]
      cases hstop : t.id == target || t.implements target with
      | true =>
          apply Climbs.stops
          rw [ht, Session.descent]
          cases hx : t.id == target <;> simp_all
      | false =>
          rw [Bool.or_eq_false_iff] at hstop
          rw [Bool.false_or]
          apply Climbs.climbs ht _ hbase ih
          rw [Session.descent, hstop.1, hstop.2]
          rfl

end Session

/-! ## Coherence -/

/-- What a realized type refers to is realized. -/
structure Session.Completes (s : Session) (t : RealizedType) : Prop where
  base : ∀ b, t.base = some b → ∃ u, s.realized? b = some u
  interfaces : ∀ i, i ∈ t.interfaces ∨ i ∈ t.allInterfaces → ∃ u, s.realized? i = some u
  vtable : ∀ slot m, t.vtable.method? slot = some m →
    ∃ held, s.methodAt m = .ok held ∧ held.handle = m
  interfaceMap : ∀ k m, t.implementation? k = some m →
    (∃ contract, s.methodAt k = .ok contract ∧ contract.handle = k)
    ∧ ∃ own, s.methodAt m = .ok own ∧ own.handle = m

namespace Project

/-- Names, realized types and declarations agree, and base links come to an end. -/
structure Coherent (p : Project) : Prop where
  resolves : ∀ name handle, p.session.resolveType? name = some handle
    ↔ ∃ t, p.session.realized? handle.id = some t ∧ t.handle = handle ∧ t.fullName = name
  ids : (p.session.types.map (·.id)).Nodup
  names : (p.session.types.map (·.fullName)).Nodup
  states : ∀ (i : Nat) (a : Assembly), p.units[i]? = some a → ∀ d ∈ a.types,
    (d.state = .realized
      ↔ ∃ t, p.session.realized? d.id = some t ∧ t.handle = d.handle ∧ t.fullName = d.fullName)
  completes : ∀ t ∈ p.session.types, p.session.Completes t
  acyclic : ∀ t, ¬ TransGen (RealizedBase p.session.types) t t
  searches : ∀ {α : Type} (f : RealizedType → Option α) (x : TypeId),
    p.session.Climbs (Session.search f) (.ok none) x (p.session.findOnLineage x f)
  descents : ∀ x target, p.session.Climbs (Session.descent target) false x (p.session.reaches x target)

variable {p : Project}

theorem Consistent.resolves_iff
    (h : p.Consistent) (hregistered : p.session.Registered) (name : String) (handle : DefinedType) :
  p.session.resolveType? name = some handle
    ↔ ∃ t, p.session.realized? handle.id = some t ∧ t.handle = handle ∧ t.fullName = name
  := by
  rw [hregistered.resolveType?_iff]
  constructor
  · rintro ⟨t, ht, rfl, rfl⟩
    exact ⟨t, h.realized_of_mem ht, rfl, rfl⟩
  · rintro ⟨t, ht, rfl, rfl⟩
    exact ⟨t, List.mem_of_find?_eq_some ht, rfl, rfl⟩

/-- A declaration is realized exactly if its type is. -/
theorem Consistent.realized_iff
    (h : p.Consistent) {i : Nat} {a : Assembly} (ha : p.units[i]? = some a) {d : TypeDecl}
    (hd : d ∈ a.types) :
  d.state = .realized
    ↔ ∃ t, p.session.realized? d.id = some t ∧ t.handle = d.handle ∧ t.fullName = d.fullName
  := by
  have hdecl := (h.fresh ha).decl_unique hd
  constructor
  · intro hrealized
    obtain ⟨t, ht, hmirrors⟩ := h.mirrored ha hdecl hrealized
    exact ⟨t, ht, hmirrors.handle, hmirrors.fullName⟩
  · rintro ⟨t, ht, -⟩
    cases hstate : d.state with
    | realized => rfl
    | building =>
        have hid : t.id = d.id := by simpa using List.find?_some ht
        cases (h.fresh ha).unrealized d hd hstate t (List.mem_of_find?_eq_some ht) hid

theorem Sound.completes
    (h : p.Sound) (hconsistent : p.Consistent) (hstacked : p.Stacked)
    (himplements : p.session.Implements) {t : RealizedType} (ht : t ∈ p.session.types) :
  p.session.Completes t
  := by
  have hmethod : ∀ {c m}, c ∈ p.session.types → m ∈ c.methods →
      p.session.methodAt m.handle = .ok m :=
    fun hc hm => (hconsistent.methodAt hc hm).2
  constructor
  · intro b hb
    obtain ⟨u, hu, -⟩ := hstacked.tabled.base t ht b hb
    exact ⟨u, hu⟩
  · obtain ⟨hdeclared, hrealized⟩ := himplements t ht
    rintro i (hi | hi)
    · apply hrealized i (hdeclared hi)
    · apply hrealized i hi
  · intro slot m hm
    obtain ⟨k, hk⟩ := List.getElem?_of_mem ht
    obtain ⟨held, hholds, rfl⟩ := exists_holds hstacked (h.arranged hstacked) hk hm
    obtain ⟨c, hinherits, hmem, -⟩ := hholds.mem
    exact ⟨held, hmethod (hstacked.tabled.size_le ht hinherits).1 hmem, rfl⟩
  · intro k m hm
    obtain ⟨interface, hinterface, contract, hcontract, -, rfl, c, hc, -, own, hown, rfl, -⟩ :=
      hstacked.mapped.entries t ht k m hm
    exact ⟨⟨contract, hmethod hinterface hcontract, rfl⟩, own, hmethod hc hown, rfl⟩

/-- Base links form no cycle. -/
theorem Stacked.acyclic (h : p.Stacked) (t : RealizedType) :
  ¬ TransGen (RealizedBase p.session.types) t t
  := by
  intro hcycle
  obtain ⟨u, -, hlast⟩ := TransGen.tail'_iff.mp hcycle
  obtain ⟨k, hk⟩ := List.getElem?_of_mem hlast.mem
  induction k using Nat.strongRecOn with
  | ind k ih =>
      obtain ⟨j, hj, htj⟩ := Layered.earlier_of_above h hk hcycle
      apply ih j hj htj

/-- After every history of operations on units, whichever have been refused, the session and the
units agree: a name stands for the type that is realized under it, a declaration is realized
exactly if its type is, realized types refer to realized types, and base links come to an end. -/
theorem coherent_after (verify : Bool) (history : List (Event ρ)) :
  ((empty verify).after history).Coherent
  := by
  have hconsistent := (consistent_empty verify).after history
  have hregistered := registered_after verify history
  have himplements := implements_after verify history
  have hsound := (sound_empty verify).run (history.map .build)
  have hstacked := stacked_run verify (history.map .build)
  rw [← after_eq_run] at hsound hstacked
  generalize (empty verify).after history = p at *
  constructor
  case resolves => apply hconsistent.resolves_iff hregistered
  case ids => apply hconsistent.distinct
  case names => apply hregistered.names
  case states =>
    intro i a ha d hd
    apply hconsistent.realized_iff ha hd
  case completes =>
    intro t ht
    apply hsound.completes hconsistent hstacked himplements ht
  case acyclic => apply hstacked.acyclic
  case searches =>
    intro α f x
    apply (Session.leads_lineage hstacked x).search
  case descents =>
    intro x target
    apply (Session.leads_lineage hstacked x).descent

end Project

end ManagedCode
