import ManagedCode.Proofs.Assembly.History
import Mathlib.Logic.Relation

/-!
# Base classes

One type is below another one when base links lead from it there, by at least one step
(`Workspace.Below`); where following base links comes to an end, the types met are exactly
those (`mem_bases_iff`).  No operation but a change of a base takes a type away from below
another one, and a change of a base takes away what was below only through the class that
has got another base (`Workspace.Rebases.below_iff`).
-/

namespace ManagedCode.Workspace

open Relation

variable {w w' : Workspace}

/-- A type has a base link to another one. -/
def HasBase (w : Workspace) (c b : TypeId) : Prop :=
  ∃ s, w.view? c = some s ∧ s.base = some b

/-- One or more base links lead from a type to another one. -/
def Below (w : Workspace) : TypeId → TypeId → Prop :=
  TransGen w.HasBase

/-- A type that a search sees is known. -/
theorem view_ok {id : TypeId} {s : TypeView} (h : w.view id = .ok s) : w.view? id = some s := by
  rw [view] at h
  split at h
  · cases h
    assumption
  · cases h

/-- The types on base links are those that can be reached along them. -/
theorem mem_basesFrom_iff
    {start : TypeId} {fuel : Nat} {seen chain : List TypeId} {next : Option TypeId}
    (h : w.basesFrom start fuel seen next = .ok chain) (x : TypeId) :
  x ∈ chain ↔ ∃ c, next = some c ∧ ReflTransGen w.HasBase c x
  := by
  induction fuel generalizing seen next chain with
  | zero =>
      cases next with
      | none =>
          cases h
          simp
      | some c => cases h
  | succ fuel ih =>
      cases next with
      | none =>
          cases h
          simp
      | some c =>
          rw [basesFrom] at h
          split at h
          · cases h
          obtain ⟨s, hs, h⟩ := exists_of_bind_ok h
          obtain ⟨rest, hrest, h⟩ := exists_of_bind_ok h
          cases h
          rw [List.mem_cons, ih hrest]
          constructor
          · rintro (rfl | ⟨b, hb, hpath⟩)
            · exact ⟨x, rfl, .refl⟩
            · exact ⟨c, rfl, .head ⟨s, view_ok hs, hb⟩ hpath⟩
          · rintro ⟨_, ⟨⟩, hpath⟩
            obtain rfl | ⟨b, hstep, hpath⟩ := hpath.cases_head
            · left
              rfl
            · right
              obtain ⟨s', hs', hb⟩ := hstep
              rw [view_ok hs] at hs'
              cases hs'
              exact ⟨b, hb, hpath⟩

/-- The base classes of a type are the types that it is below. -/
theorem mem_bases_iff {id : TypeId} {chain : List TypeId} (h : w.bases id = .ok chain) (x : TypeId) :
  x ∈ chain ↔ w.Below id x
  := by
  obtain ⟨s, hs, h⟩ := exists_of_bind_ok h
  rw [mem_basesFrom_iff h]
  constructor
  · rintro ⟨c, hc, hpath⟩
    apply TransGen.head' ⟨s, view_ok hs, hc⟩ hpath
  · intro hbelow
    obtain ⟨c, ⟨s', hs', hc⟩, hpath⟩ := TransGen.head'_iff.mp hbelow
    rw [view_ok hs] at hs'
    cases hs'
    exact ⟨c, hc, hpath⟩

/-! ## What operations leave of base links -/

/-- Every type that a unit has seen is still there, with its methods at their positions,
and with its base unless that has been changed. -/
def Widens (changed : TypeId → Prop) (w w' : Workspace) : Prop :=
  ∀ (x : TypeId) (s : TypeView), w.view? x = some s → ∃ s', w'.view? x = some s'
    ∧ (¬ changed x → s'.base = s.base) ∧ s.methods <+: s'.methods

/-- A type of the unit is seen as it is declared. -/
theorem view?_of_decl {x : TypeId} {d : TypeDecl} (hd : w.assembly.decl? x = some d) :
  w.view? x = some (.ofDecl d)
  := by
  rw [view?]
  rw [hd]

/-- A type of another unit is seen as it is realized. -/
theorem view?_of_no_decl {x : TypeId} (hd : w.assembly.decl? x = none) :
  w.view? x = (w.session.realized? x).map .ofRealized
  := by
  rw [view?]
  rw [hd]

theorem widens_of_extends
    {d d' : TypeDecl} {ms : List MethodDecl} (h : d.Extends ms d') :
  (TypeView.ofDecl d').base = (TypeView.ofDecl d).base
    ∧ (TypeView.ofDecl d).methods <+: (TypeView.ofDecl d').methods
  := by
  constructor
  · change d'.baseId? = d.baseId?
    rw [TypeDecl.baseId?, h.base, TypeDecl.baseId?]
  · rw [h.signatures]
    apply List.prefix_append

/-- A declaration that grows leaves every base link as it is. -/
theorem Grows.widens {id : TypeId} {ms : List MethodDecl} (h : w.Grows id ms w') :
  w.Widens (fun _ => False) w'
  := by
  intro x s hs
  have hx := h.decl x
  cases hd : w.assembly.decl? x with
  | some d =>
      rw [view?_of_decl hd] at hs
      cases hs
      rw [hd] at hx
      obtain ⟨d', hd', hextends⟩ := rel_some hx
      obtain ⟨hbase, hmethods⟩ := widens_of_extends hextends
      exact ⟨_, view?_of_decl hd', fun _ => hbase, hmethods⟩
  | none =>
      rw [hd] at hx
      have hd' : w'.assembly.decl? x = none := eq_none_of_rel hx
      rw [view?_of_no_decl hd] at hs
      refine ⟨s, ?_, fun _ => rfl, List.prefix_rfl⟩
      rw [view?_of_no_decl hd', h.session, hs]

/-- A type that is opened leaves every base link as it is.  No realized type has its number. -/
theorem Opens.widens (hsettled : w.Settled) {d : TypeDecl} (h : Build.Opens d w w') :
  w.Widens (fun _ => False) w'
  := by
  intro x s hs
  have hx := h.decl x
  cases hd : w.assembly.decl? x with
  | some d₀ =>
      rw [view?_of_decl hd] at hs
      cases hs
      rw [hd, Option.some_or] at hx
      obtain ⟨d', hd', hextends⟩ := rel_some hx
      obtain ⟨hbase, hmethods⟩ := widens_of_extends hextends
      exact ⟨_, view?_of_decl hd', fun _ => hbase, hmethods⟩
  | none =>
      rw [view?_of_no_decl hd] at hs
      obtain ⟨t, ht, rfl⟩ := Option.map_eq_some_iff.mp hs
      have hne : d.id ≠ x := by
        intro hid
        have htaken := hsettled.taken t (List.mem_of_find?_eq_some ht)
        have hnumber : t.id = x := by simpa using List.find?_some ht
        rw [hnumber, ← hid, h.fresh] at htaken
        apply Nat.lt_irrefl _ htaken
      rw [hd, if_neg hne] at hx
      have hd' : w'.assembly.decl? x = none := eq_none_of_rel hx
      refine ⟨_, ?_, fun _ => rfl, List.prefix_rfl⟩
      rw [view?_of_no_decl hd', h.session]
      change (w.session.realized? x).map _ = _
      rw [ht]
      rfl

/-- One class is seen with another base, and everything else as before. -/
theorem Rebases.view?_eq
    {id : TypeId} {base : Option TypeRef} (h : w.Rebases id base w') (x : TypeId) :
  w'.view? x = (w.view? x).map fun s =>
    if x = id then { s with base := base.bind TypeRef.definedId? } else s
  := by
  obtain ⟨⟨d₀, hd₀⟩, rfl⟩ := h
  obtain ⟨hd₀, -⟩ := Assembly.building_ok hd₀
  have hdecl := Assembly.decl?_update w.assembly id (fun d => { d with base := base })
    (fun _ => rfl) x
  cases hd : w.assembly.decl? x with
  | some d =>
      rw [hd] at hdecl
      rw [view?_of_decl hd, view?_of_decl hdecl]
      simp only [Option.map_some, Assembly.decl?_id hd]
      split <;> rfl
  | none =>
      have hne : x ≠ id := by
        intro hid
        rw [hid, hd₀] at hd
        cases hd
      rw [hd] at hdecl
      rw [view?_of_no_decl hd, view?_of_no_decl hdecl]
      simp only [if_neg hne, Option.map_id']
      rfl

/-- Only the class that gets another base has another one. -/
theorem Rebases.widens {id : TypeId} {base : Option TypeRef} (h : w.Rebases id base w') :
  w.Widens (· = id) w'
  := by
  intro x s hs
  rw [h.view?_eq, hs]
  refine ⟨_, rfl, ?_, ?_⟩
  · intro hne
    simp only [if_neg hne]
  · dsimp only
    split <;> apply List.prefix_rfl

/-- Finalizing changes nothing that a unit sees of a type. -/
theorem realizing_widens (w : Workspace) (new : List RealizedType) :
  w.Widens (fun _ => False) (w.realizing new)
  := by
  intro x s hs
  have hdecl := decl?_realizing w new x
  cases hd : w.assembly.decl? x with
  | some d =>
      rw [view?_of_decl hd] at hs
      cases hs
      rw [hd] at hdecl
      refine ⟨_, view?_of_decl hdecl, ?_, ?_⟩
      · intro _
        dsimp only
        split <;> rfl
      · dsimp only
        split <;> apply List.prefix_rfl
  | none =>
      rw [view?_of_no_decl hd] at hs
      obtain ⟨t, ht, rfl⟩ := Option.map_eq_some_iff.mp hs
      rw [hd] at hdecl
      refine ⟨_, ?_, fun _ => rfl, List.prefix_rfl⟩
      rw [view?_of_no_decl hdecl]
      change ((w.session.types ++ new).find? _).map _ = _
      rw [List.find?_append]
      change ((w.session.realized? x).or _).map _ = _
      rw [ht]
      rfl

/-- A handle names a method by its owner and by the position at which it was declared. -/
theorem methodSignature_ok_iff {m : MethodRef} {sig : MethodSignature} :
  w.methodSignature m = .ok sig
    ↔ ∃ s, w.view? m.owner = some s ∧ s.methods[m.index]? = some sig
  := by
  rw [methodSignature]
  constructor
  · intro h
    obtain ⟨s, hs, h⟩ := exists_of_bind_ok h
    refine ⟨s, view_ok hs, ?_⟩
    split at h
    · cases h
      assumption
    · cases h
  · rintro ⟨s, hs, hsig⟩
    rw [view]
    rw [hs]
    dsimp only [Bind.bind, Except.bind]
    rw [hsig]
    rfl

/-- What lookups of methods have answered they answer again. -/
theorem Widens.methodSignature
    {changed : TypeId → Prop} (h : w.Widens changed w') {m : MethodRef} {sig : MethodSignature}
    (hm : w.methodSignature m = .ok sig) :
  w'.methodSignature m = .ok sig
  := by
  rw [methodSignature_ok_iff] at hm ⊢
  obtain ⟨s, hs, hsig⟩ := hm
  obtain ⟨s', hs', -, more, hmore⟩ := h _ _ hs
  refine ⟨s', hs', ?_⟩
  obtain ⟨hindex, -⟩ := List.getElem?_eq_some_iff.mp hsig
  rw [← hmore, List.getElem?_append_left hindex, hsig]

/-- A class keeps its base unless it gets another one. -/
theorem Widens.hasBase
    {changed : TypeId → Prop} (h : w.Widens changed w') {c b : TypeId} (hc : ¬ changed c)
    (hbase : w.HasBase c b) :
  w'.HasBase c b
  := by
  obtain ⟨s, hs, hb⟩ := hbase
  obtain ⟨s', hs', hsame, -⟩ := h c s hs
  exact ⟨s', hs', by rw [hsame hc, hb]⟩

/-- A class stays below another if none gets another base. -/
theorem Widens.below (h : w.Widens (fun _ => False) w') {c b : TypeId} (hbelow : w.Below c b) :
  w'.Below c b
  :=
  TransGen.mono (fun _ _ hbase => h.hasBase (fun hc => hc) hbase) c b hbelow

/-! ## Changing a base -/

/-- A base link of another class than the given one. -/
def HasBaseBeside (w : Workspace) (id c b : TypeId) : Prop :=
  c ≠ id ∧ w.HasBase c b

/-- Base links lead from a class to another one if those of the class `id` go to `base`
instead: either they do without that class, or they lead to it and on from `base`. -/
def Survives (w : Workspace) (id : TypeId) (base : TypeRef) (c b : TypeId) : Prop :=
  TransGen (w.HasBaseBeside id) c b
  ∨ ReflTransGen (w.HasBaseBeside id) c id
    ∧ ∃ next, base.definedId? = some next ∧ ReflTransGen (w.HasBaseBeside id) next b

/-- Paths over steps that may also go from one point to a goal.  The last step from the point to a
goal cuts such a path in two. -/
theorem transGen_redirect
    {α : Type} {r s : α → α → Prop} {x : α} {goal : α → Prop}
    (hr : ∀ a b, r a b ↔ s a b ∨ (a = x ∧ goal b)) (a b : α) :
  TransGen r a b
    ↔ TransGen s a b ∨ ReflTransGen s a x ∧ ∃ y, goal y ∧ ReflTransGen s y b
  := by
  constructor
  · intro h
    induction h with
    | single hstep =>
        obtain hbeside | ⟨rfl, hgoal⟩ := (hr _ _).mp hstep
        · left
          exact .single hbeside
        · right
          exact ⟨.refl, _, hgoal, .refl⟩
    | tail _ hstep ih =>
        obtain hbeside | ⟨rfl, hgoal⟩ := (hr _ _).mp hstep
        · obtain hpath | ⟨hfirst, y, hy, hpath⟩ := ih
          · left
            exact .tail hpath hbeside
          · right
            exact ⟨hfirst, y, hy, hpath.tail hbeside⟩
        · right
          obtain hpath | ⟨hfirst, -⟩ := ih
          · exact ⟨hpath.to_reflTransGen, _, hgoal, .refl⟩
          · exact ⟨hfirst, _, hgoal, .refl⟩
  · have hmono : s ≤ r := fun a b h => (hr a b).mpr (.inl h)
    rintro (hpath | ⟨hfirst, y, hy, hpath⟩)
    · apply TransGen.mono hmono _ _ hpath
    · have hstep : r x y := (hr x y).mpr (.inr ⟨rfl, hy⟩)
      have hbefore : TransGen r a y := .tail' (ReflTransGen.mono hmono _ _ hfirst) hstep
      apply hbefore.trans_left (ReflTransGen.mono hmono _ _ hpath)

/-- What is below what after a class has got another base. -/
theorem Rebases.below_iff
    {id : TypeId} {base : Option TypeRef} {given : TypeRef} (h : w.Rebases id base w')
    (hgiven : base.bind TypeRef.definedId? = given.definedId?) (c b : TypeId) :
  w'.Below c b ↔ w.Survives id given c b
  := by
  apply transGen_redirect
  intro c b
  rw [HasBase]
  constructor
  · rintro ⟨s', hs', hb⟩
    rw [h.view?_eq] at hs'
    obtain ⟨s, hs, rfl⟩ := Option.map_eq_some_iff.mp hs'
    by_cases hid : c = id
    · right
      rw [if_pos hid] at hb
      exact ⟨hid, hgiven ▸ hb⟩
    · left
      rw [if_neg hid] at hb
      exact ⟨hid, s, hs, hb⟩
  · rintro (⟨hid, s, hs, hb⟩ | ⟨rfl, hb⟩)
    · refine ⟨s, ?_, hb⟩
      rw [h.view?_eq, hs, Option.map_some, if_neg hid]
    · obtain ⟨d, hd⟩ := h.building
      obtain ⟨hd, -⟩ := Assembly.building_ok hd
      have hview := h.view?_eq c
      rw [view?_of_decl hd, Option.map_some, if_pos rfl] at hview
      exact ⟨_, hview, hgiven.trans hb⟩

end ManagedCode.Workspace
