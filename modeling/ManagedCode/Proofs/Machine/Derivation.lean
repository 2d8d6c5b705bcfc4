import ManagedCode.Proofs.Assembly.Revisions
import ManagedCode.Proofs.Machine.IntegerArithmetic
import ManagedCode.Proofs.Machine.Lookups

/-!
# Derivation

A realized type has been given all interfaces that interface links lead to from it and from its
bases (`Session.Collects`).  So it reaches exactly what base links and then interface links lead to
(`Layered.reaches_iff_ascends`).  If no type that another one declares as an interface has a base,
the order of the links does not matter: a type reaches whatever links lead to, and casts follow
(`Project.descends_of_history`).
-/

namespace ManagedCode

open Relation

variable {ρ : Type}

/-! ## Links of a session -/

namespace Session

/-- A realized type has another one as its base. -/
def HasBase (s : Session) (x y : TypeId) : Prop :=
  ∃ t, s.realized? x = some t ∧ t.base = some y

/-- A realized type declares another one as an interface. -/
def HasInterface (s : Session) (x y : TypeId) : Prop :=
  ∃ t, s.realized? x = some t ∧ y ∈ t.interfaces

/-- A realized type has a link to another one. -/
def Links (s : Session) (x y : TypeId) : Prop :=
  s.HasBase x y ∨ s.HasInterface x y

/-- Links lead from a type to another one, in whatever order. -/
def Derives (s : Session) : TypeId → TypeId → Prop :=
  ReflTransGen s.Links

/-- Base links lead from a type to one from where interface links lead to another type. -/
def Ascends (s : Session) (x y : TypeId) : Prop :=
  ∃ c, ReflTransGen s.HasBase x c ∧ ReflTransGen s.HasInterface c y

/-- A type ascends to another one by an interface link at least. -/
def Adopts (s : Session) (x y : TypeId) : Prop :=
  ∃ c i, ReflTransGen s.HasBase x c ∧ s.HasInterface c i ∧ ReflTransGen s.HasInterface i y

/-- Links lead from realized types to realized types. -/
def Complete (s : Session) : Prop :=
  ∀ x y, s.Links x y → ∃ t, s.realized? y = some t

/-- Each realized type has exactly the interfaces that it adopts. -/
def Collects (s : Session) : Prop :=
  ∀ t ∈ s.types, ∀ y, y ∈ t.allInterfaces ↔ s.Adopts t.id y

/-- No type that another one declares as an interface has a base. -/
def Rootless (s : Session) : Prop :=
  ∀ t ∈ s.types, ∀ y ∈ t.interfaces, (s.realized? y).bind (·.base) = none

end Session

/-- Two relations have the same paths from a point if they are the same at all points that the
paths of one of them lead to. -/
theorem reflTransGen_congr_on
    {α : Type} {r r' : α → α → Prop} {P : α → Prop} {x y : α}
    (hsame : ∀ a b, P a → (r a b ↔ r' a b)) (hclosed : ∀ a b, P a → r a b → P b) (hx : P x) :
  (ReflTransGen r x y ↔ ReflTransGen r' x y) ∧ (ReflTransGen r x y → P y)
  := by
  have hto : ReflTransGen r x y → ReflTransGen r' x y ∧ P y := by
    intro hpath
    induction hpath with
    | refl => exact ⟨.refl, hx⟩
    | tail _ hstep ih => exact ⟨ih.1.tail ((hsame _ _ ih.2).mp hstep), hclosed _ _ ih.2 hstep⟩
  have hfrom : ReflTransGen r' x y → ReflTransGen r x y ∧ P y := by
    clear hto
    intro hpath
    induction hpath with
    | refl => exact ⟨.refl, hx⟩
    | tail _ hstep ih =>
        have hstep := (hsame _ _ ih.2).mpr hstep
        exact ⟨ih.1.tail hstep, hclosed _ _ ih.2 hstep⟩
  exact ⟨⟨fun h => (hto h).1, fun h => (hfrom h).1⟩, fun h => (hto h).2⟩

namespace Session

variable {s s' : Session} {x y z : TypeId}

/-- What a realized type adopts stays the same when more types are realized. -/
theorem Complete.adopts_iff
    (h : s.Complete)
    (hkept : ∀ {x t}, s.realized? x = some t → s'.realized? x = some t) {t : RealizedType}
    (ht : s.realized? x = some t) :
  s.Adopts x y ↔ s'.Adopts x y
  := by
  have hbase : ∀ a b, (∃ u, s.realized? a = some u) → (s.HasBase a b ↔ s'.HasBase a b) := by
    rintro a b ⟨u, hu⟩
    rw [HasBase, HasBase, hu, hkept hu]
  have hinterface : ∀ a b, (∃ u, s.realized? a = some u) →
      (s.HasInterface a b ↔ s'.HasInterface a b) := by
    rintro a b ⟨u, hu⟩
    rw [HasInterface, HasInterface, hu, hkept hu]
  have hbases : ∀ c, _ := fun c => reflTransGen_congr_on (y := c) hbase
    (fun a b _ hlink => h a b (.inl hlink)) ⟨t, ht⟩
  have hrest : ∀ i, (∃ u, s.realized? i = some u) → _ := fun i hi =>
    (reflTransGen_congr_on (y := y) hinterface (fun a b _ hlink => h a b (.inr hlink)) hi).1
  constructor
  · rintro ⟨c, i, hc, hi, hpath⟩
    have hi' := (hinterface c i ((hbases c).2 hc)).mp hi
    exact ⟨c, i, (hbases c).1.mp hc, hi', (hrest i (h c i (.inr hi))).mp hpath⟩
  · rintro ⟨c, i, hc, hi, hpath⟩
    have hc := (hbases c).1.mpr hc
    have hi := (hinterface c i ((hbases c).2 hc)).mpr hi
    exact ⟨c, i, hc, hi, (hrest i (h c i (.inr hi))).mpr hpath⟩

theorem Ascends.derives (h : s.Ascends x y) : s.Derives x y := by
  obtain ⟨c, hc, hy⟩ := h
  have hbases : s.Derives x c := ReflTransGen.mono (fun _ _ h => Or.inl h) x c hc
  have hrest : s.Derives c y := ReflTransGen.mono (fun _ _ h => Or.inr h) c y hy
  exact hbases.trans hrest

/-- Where no interface has a base, a path of links starts with all its base links.  A base link
behind an interface link would give an interface a base. -/
theorem Rootless.ascends_iff (h : s.Rootless) : s.Ascends x y ↔ s.Derives x y := by
  constructor
  · apply Ascends.derives
  · intro hpath
    induction hpath with
    | refl => exact ⟨x, .refl, .refl⟩
    | @tail y z _ hlink ih =>
        obtain ⟨c, hc, hy⟩ := ih
        obtain hbase | hinterface := hlink
        · obtain rfl | ⟨w, -, hw⟩ := ReflTransGen.cases_tail hy
          · exact ⟨z, hc.tail hbase, .refl⟩
          · obtain ⟨t, ht, hdeclared⟩ := hw
            obtain ⟨u, hu, hbase⟩ := hbase
            have hroot := h t (List.mem_of_find?_eq_some ht) y hdeclared
            rw [hu, Option.bind_some, hbase] at hroot
            cases hroot
        · exact ⟨c, hc, hy.tail hinterface⟩

end Session

/-! ## The interfaces that a type is given -/

namespace Workspace

variable {w : Workspace} {new : List RealizedType} {t : RealizedType} {x : TypeId}

/-- Each type has been laid out when some of the others were realized. -/
theorem Realizes.exists_realizes (h : w.Realizes new) (ht : t ∈ new) :
  ∃ before, w.Realizes before ∧ (w.realizing before).layoutType t.id = .ok t
  := by
  induction h with
  | nil => cases ht
  | @snoc new last d h hd hbuilding hlayout hfree ih =>
      obtain ht | ht := List.mem_append.mp ht
      · apply ih ht
      · obtain rfl := List.mem_singleton.mp ht
        exact ⟨new, h, hlayout⟩

theorem Realizes.implements_eq (h : w.Realizes new) : (w.realizing new).Implements = w.Implements := by
  have hinterface : (w.realizing new).HasInterface = w.HasInterface := by
    funext x y
    rw [HasInterface, h.view?, HasInterface]
  funext x y
  rw [Implements, Implements, h.hasBase, hinterface]

/-- A type is laid out with everything that it implements.  Only a class has a base from which it
inherits interfaces. -/
theorem layoutType_implements
    {d : TypeDecl} (h : w.layoutType x = .ok t) (hd : w.assembly.decl? x = some d)
    (hregular : d.Regular) (y : TypeId) :
  y ∈ t.allInterfaces ↔ w.Implements x y
  := by
  obtain ⟨d', base, hd', hmirrors, hbase, hinterfaces⟩ := layoutType_ok h
  rw [hd] at hd'
  cases hd'
  by_cases hclass : d.handle.kind = .classType
  · obtain ⟨-, hall, -⟩ := layoutType_class h hd (hmirrors.handle ▸ hclass)
    apply mem_allInterfaces_iff hall
  · rw [layoutInterfaces, if_neg (by simpa using hclass)] at hinterfaces
    obtain ⟨all, hall, hinterfaces⟩ := exists_of_bind_ok hinterfaces
    obtain ⟨rfl, -⟩ := Prod.mk.inj (Except.ok.inj hinterfaces)
    rw [mem_inheritedInterfaces_iff hall]
    have hview := view?_of_decl hd
    have hroot : ∀ {c}, ReflTransGen w.HasBase x c → c = x := by
      intro c hpath
      obtain rfl | ⟨b, ⟨s, hs, hb⟩, -⟩ := ReflTransGen.cases_head hpath
      · rfl
      · rw [hview] at hs
        cases hs
        obtain ⟨given, hgiven, -⟩ := Option.bind_eq_some_iff.mp hb
        cases hclass (hregular.base given hgiven).1
    constructor
    · rintro ⟨i, hi, hpath⟩
      exact ⟨x, i, .refl, ⟨_, hview, hi⟩, hpath⟩
    · rintro ⟨c, i, hc, ⟨s, hs, hi⟩, hpath⟩
      obtain rfl := hroot hc
      rw [hview] at hs
      cases hs
      exact ⟨i, hi, hpath⟩

/-- A unit sees exactly the realized types, and as they are. -/
def Transparent (w : Workspace) : Prop :=
  ∀ x, w.view? x = (w.session.realized? x).map .ofRealized

theorem Transparent.implements_iff (h : w.Transparent) (y : TypeId) :
  w.Implements x y ↔ w.session.Adopts x y
  := by
  have hbase : w.HasBase = w.session.HasBase := by
    funext x y
    rw [HasBase, h x, Session.HasBase]
    cases w.session.realized? x <;> simp [TypeView.ofRealized]
  have hinterface : w.HasInterface = w.session.HasInterface := by
    funext x y
    rw [HasInterface, h x, Session.HasInterface]
    cases w.session.realized? x <;> simp [TypeView.ofRealized]
  rw [Implements, Session.Adopts, hbase, hinterface]

/-- When a unit is finalized, the types that it has realized have the interfaces that they adopt,
and those that were realized before keep theirs. -/
theorem Realizes.collects
    (hnew : w.Realizes new) (hsettled : w.Settled) (hregular : w.assembly.Regular)
    (htransparent : (w.realizing new).Transparent) (hcomplete : w.session.Complete)
    (h : w.session.Collects) :
  (w.realizing new).session.Collects
  := by
  intro t ht y
  obtain ht | ht := List.mem_append.mp ht
  · have hfound : w.session.realized? t.id = some t := find?_of_nodup hsettled.distinct ht
    rw [h t ht y]
    exact hcomplete.adopts_iff (hnew.follows hsettled).kept hfound
  · obtain ⟨before, hbefore, hlayout⟩ := hnew.exists_realizes ht
    obtain ⟨d, -, hd, -⟩ := layoutType_ok hlayout
    have hdecl : d.Regular := by
      rw [decl?_realizing] at hd
      obtain ⟨d₀, hd₀, rfl⟩ := Option.map_eq_some_iff.mp hd
      have hkept := hregular _ d₀ hd₀
      split
      · exact ⟨hkept.base, hkept.interfaces, hkept.attributes, hkept.methods⟩
      · exact hkept
    rw [layoutType_implements hlayout hd hdecl, hbefore.implements_eq, ← hnew.implements_eq]
    apply htransparent.implements_iff

end Workspace

namespace Project

variable {p q : Project}

/-- Links of realized types lead to realized types. -/
theorem Stacked.complete (h : p.Stacked) (himplements : p.session.Implements) :
  p.session.Complete
  := by
  rintro x y (⟨t, ht, hbase⟩ | ⟨t, ht, hinterface⟩)
  · obtain ⟨u, hu, -⟩ := h.tabled.base t (List.mem_of_find?_eq_some ht) y hbase
    exact ⟨u, hu⟩
  · obtain ⟨hdeclared, hrealized⟩ := himplements t (List.mem_of_find?_eq_some ht)
    exact hrealized y (hdeclared hinterface)

/-- A unit whose types are realized sees exactly the realized types. -/
theorem Sound.transparent
    (h : p.Sound) (hstacked : p.Stacked) {i : Nat} {a : Assembly} (ha : p.units[i]? = some a)
    (hall : ∀ x d, a.decl? x = some d → ∃ t, p.session.realized? x = some t) :
  (p.workspace a).Transparent
  := by
  intro x
  change (p.workspace a).view? x = (p.session.realized? x).map .ofRealized
  cases ht : p.session.realized? x with
  | some t =>
      obtain rfl : t.id = x := by simpa using List.find?_some ht
      exact h.faithful hstacked ha (.refl _) t (List.mem_of_find?_eq_some ht)
  | none =>
      have hnone : (p.workspace a).assembly.decl? x = none := by
        cases hd : a.decl? x with
        | none => exact hd
        | some d =>
            obtain ⟨t, ht'⟩ := hall x d hd
            rw [ht] at ht'
            cases ht'
      rw [Workspace.view?_of_no_decl hnone]
      change (p.session.realized? x).map _ = _
      rw [ht]

theorem collects_turns
    (hsound : p.Sound) (hstacked : p.Stacked) (hclosed : p.Closed)
    (himplements : p.session.Implements) (h : p.session.Collects) (hq : p.Turns ρ q) :
  q.session.Collects
  := by
  have hqsound := hsound.turns hq
  have hqstacked := hstacked.turns hsound hq
  have hqclosed := hclosed.turns hsound hq
  cases hq with
  | stays => exact h
  | opens name => exact h
  | registers registry => exact h
  | @changes i a ha c =>
      change (c.perform (p.workspace a)).session.Collects
      obtain ⟨next, hsession⟩ | ⟨new, unit, hnew, hopen, heq⟩ :=
        (c.redraws (hsound.fresh ha)).session
      · rw [hsession]
        exact h
      · rw [heq] at hqsound hqstacked hqclosed ⊢
        have hall := hnew.all_realized (hsound.fresh ha) (hsound.opened ha) hopen
          (hqclosed i _ (put_same ha))
        have htransparent := hqsound.transparent hqstacked (put_same ha) (by
          intro x d hd
          change ((p.workspace a).realizing new).assembly.decl? x = some d at hd
          rw [Workspace.decl?_realizing] at hd
          obtain ⟨d₀, hd₀, -⟩ := Option.map_eq_some_iff.mp hd
          exact hall x d₀ hd₀)
        exact hnew.collects (hsound.settled ha hopen) (hsound.regular ha) htransparent
          (hstacked.complete himplements) h

/-- Throughout the lifetime of a session, realized types have the interfaces that they adopt. -/
theorem collects_run (verify : Bool) (history : List (HostEvent ρ)) :
  ((empty verify).run history).session.Collects
  := by
  have hall : ((empty verify).run history).Closed ∧ ((empty verify).run history).Stacked
      ∧ ((empty verify).run history).session.Implements
      ∧ ((empty verify).run history).session.Collects := by
    apply run_induction
      (P := fun p => p.Closed ∧ p.Stacked ∧ p.session.Implements ∧ p.session.Collects) verify
    · exact ⟨by rintro i a ⟨⟩, .nil, by rintro t ⟨⟩, by rintro t ⟨⟩⟩
    · rintro p q hsound ⟨hclosed, hstacked, himplements, h⟩ hq
      exact ⟨hclosed.turns hsound hq, hstacked.turns hsound hq,
        implements_turns hsound hclosed himplements hq,
        collects_turns hsound hstacked hclosed himplements h hq⟩
    · rintro p ⟨hclosed, -⟩
      exact ⟨hclosed, .nil, by rintro t ⟨⟩, by rintro t ⟨⟩⟩
  exact hall.2.2.2

end Project

/-! ## What a type reaches -/

section

variable {verify : Bool} {decls : TypeId → Option TypeDecl} {s : Session} {t : RealizedType}
  {x y : TypeId}

/-- Base links between numbers and between realized types are the same. -/
theorem Layered.hasBase_iff (h : Layered verify decls s.types) (ht : t ∈ s.types) :
  ReflTransGen s.HasBase t.id x ↔ ∃ c ∈ s.types, c.id = x ∧ Inherits s.types t c
  := by
  constructor
  · intro hpath
    induction hpath with
    | refl => exact ⟨t, ht, rfl, .refl⟩
    | @tail _ y _ hstep ih =>
        obtain ⟨c, hc, rfl, hpath⟩ := ih
        obtain ⟨c', hc', hbase⟩ := hstep
        obtain rfl := Option.some.inj ((h.find hc).symm.trans hc')
        obtain ⟨u, hu, -⟩ := h.tabled.base c hc y hbase
        refine ⟨u, List.mem_of_find?_eq_some hu, by simpa using List.find?_some hu, ?_⟩
        exact hpath.tail ⟨y, hbase, hu⟩
  · rintro ⟨c, -, rfl, hpath⟩
    induction hpath with
    | refl => exact .refl
    | @tail b c hpath hstep ih =>
        obtain ⟨x, hx, hc⟩ := hstep
        obtain rfl : c.id = x := by simpa using List.find?_some hc
        exact ih.tail ⟨b, h.find (h.tabled.size_le ht hpath).1, hx⟩

/-- A type reaches what base links and then interface links lead to. -/
theorem Layered.reaches_iff_ascends
    (h : Layered verify decls s.types) (hcollects : s.Collects) (ht : t ∈ s.types) :
  s.reaches t.id y = true ↔ s.Ascends t.id y
  := by
  rw [h.reaches_iff ht]
  constructor
  · rintro ⟨c, hc, hy⟩
    have hmem := (h.tabled.size_le ht hc).1
    have hpath := (h.hasBase_iff ht).mpr ⟨c, hmem, rfl, hc⟩
    obtain rfl | hy := hy
    · exact ⟨c.id, hpath, .refl⟩
    · obtain ⟨e, i, he, hi, hrest⟩ := (hcollects c hmem y).mp hy
      exact ⟨e, hpath.trans he, .head hi hrest⟩
  · rintro ⟨x, hx, hy⟩
    obtain rfl | ⟨i, hi, hrest⟩ := ReflTransGen.cases_head hy
    · obtain ⟨c, -, rfl, hpath⟩ := (h.hasBase_iff ht).mp hx
      exact ⟨c, hpath, .inl rfl⟩
    · exact ⟨t, .refl, .inr ((hcollects t ht y).mpr ⟨x, i, hx, hi, hrest⟩)⟩

/-- A type that is not realized reaches nothing but itself. -/
theorem Session.reaches_of_unrealized (hx : s.realized? x = none) :
  s.reaches x y = true ↔ x = y
  := by
  rw [reaches, lineage, lineageFrom, hx]
  simp

end

/-! ## Enumerations -/

/-- An operation leaves a type its handle, and an enumeration without further interfaces. -/
theorem Workspace.Redraws.interfaces_of_enum
    {w w' : Workspace} (h : w.Redraws w') {x : TypeId} {d d' : TypeDecl}
    (hd : w.assembly.decl? x = some d) (hd' : w'.assembly.decl? x = some d') :
  d'.handle = d.handle ∧ (d.handle.kind.isEnum = true → d'.interfaces = d.interfaces)
  := by
  cases h with
  | edits h =>
      have hx := h.decl x
      rw [hd] at hx
      obtain ⟨d₁, hd₁, hedited⟩ := rel_some hx
      rw [hd'] at hd₁
      cases hd₁
      exact ⟨hedited.handle, fun _ => (congrArg TypeDecl.interfaces hedited.outline :)⟩
  | declares e h heq =>
      rw [heq, decl?_declaring h.unused, hd, Option.some_or, Option.map_some] at hd'
      cases hd'
      split <;> exact ⟨rfl, fun _ => rfl⟩
  | rebases id e given base he hkind hother hbase heq =>
      rw [heq, decl?_rebasing, hd, Option.map_some] at hd'
      cases hd'
      split <;> exact ⟨rfl, fun _ => rfl⟩
  | implements id e interface he hkind hinterface heq =>
      rw [heq, decl?_implementing, hd, Option.map_some] at hd'
      cases hd'
      split
      · next hx =>
        refine ⟨implementing_handle interface d, fun henum => ?_⟩
        obtain ⟨he, -⟩ := Assembly.building_ok he
        rw [← hx, hd] at he
        cases he
        rw [hkind] at henum
        cases henum
      · exact ⟨rfl, fun _ => rfl⟩
  | realizes new unit h hopen hrun heq =>
      rw [heq] at hd'
      change (w.realizing new).assembly.decl? x = _ at hd'
      rw [decl?_realizing, hd, Option.map_some] at hd'
      cases hd'
      split <;> exact ⟨rfl, fun _ => rfl⟩

namespace Project

/-- No enumeration has interfaces. -/
def EnumsBare (p : Project) : Prop :=
  ∀ (i : Nat) (a : Assembly), p.units[i]? = some a → ∀ x d, a.decl? x = some d →
    d.handle.kind.isEnum = true → d.interfaces = []

variable {p q : Project}

theorem EnumsBare.turns (h : p.EnumsBare) (hsound : p.Sound) (hq : p.Turns ρ q) : q.EnumsBare := by
  cases hq with
  | stays => exact h
  | registers registry => exact h
  | opens name =>
      intro j b hb x d hd henum
      obtain hb | rfl := open_cases hb
      · exact h j b hb x d hd henum
      · cases hd
  | @changes i a ha c =>
      intro j b hb x d hd henum
      obtain ⟨-, rfl⟩ | ⟨-, hb⟩ := put_cases ha hb
      · cases hold : (p.workspace a).assembly.decl? x with
        | none => exact (c.declared (hsound.fresh ha) hold hd).interfaces henum
        | some d₀ =>
            obtain ⟨hhandle, hkept⟩ :=
              (c.redraws (hsound.fresh ha)).interfaces_of_enum hold hd
            rw [hhandle] at henum
            rw [hkept henum]
            exact h i a ha x d₀ hold henum
      · exact h j b hb x d hd henum

theorem enumsBare_run (verify : Bool) (history : List (HostEvent ρ)) :
  ((empty verify).run history).EnumsBare
  := by
  apply run_induction verify
  · rintro i a ⟨⟩
  · intro p q hsound h hq
    exact h.turns hsound hq
  · intro p h
    exact h

/-- Enumerations have no links. -/
theorem EnumsBare.not_links
    (h : p.EnumsBare) (hsound : p.Sound) (hstacked : p.Stacked) {t : RealizedType}
    (ht : t ∈ p.session.types) (henum : t.handle.kind.isEnum = true) (y : TypeId) :
  ¬ p.session.Links t.id y
  := by
  obtain ⟨d, hd, -, hmirrors, hinterfaces⟩ := hstacked.mirrors ht
  obtain ⟨i, a, ha, hd⟩ := exists_of_decl? hd
  rw [hmirrors.handle] at henum
  have hfound : p.session.realized? t.id = some t := hstacked.find ht
  rintro (⟨t', ht', hbase⟩ | ⟨t', ht', hinterface⟩)
  · rw [hfound] at ht'
    cases ht'
    rw [hmirrors.base] at hbase
    obtain ⟨given, hgiven, -⟩ := Option.bind_eq_some_iff.mp hbase
    rw [((hsound.regular ha _ d hd).base given hgiven).1] at henum
    cases henum
  · rw [hfound] at ht'
    cases ht'
    rw [hinterfaces, TypeDecl.interfaceIds, h i a ha _ d hd henum] at hinterface
    cases hinterface

end Project

/-! ## Casts -/

/-- A boxed value holds a value of a value type, as boxing makes it. -/
def Value.Boxes (v : Value) : Prop :=
  ∀ a t content, v = .boxed a t content → t.isValueType = true

/-- The type that an instruction of a frame casts the value on top of the stack to is a realized
type, and the stack has room for the value. -/
structure Frame.Casts (f : Frame) (limit : Nat) (v : Value) (type : TypeRef) (u : RealizedType) :
    Prop where
  type : f.resolve type = .defined u.handle
  stack : ∃ rest, f.stack = v :: rest ∧ rest.length < limit

/-- The two instructions that cast a value: one fails with values of other types, and the other one
leaves null in their place. -/
inductive Opcode.IsCast : Opcode → Prop
  | castclass : IsCast .castclass
  | isinst : IsCast .isinst

namespace Surroundings

variable {s : Surroundings} {f : Frame} {v : Value} {type : TypeRef} {u : RealizedType}
  {heap : Heap}

/-- Casts leave null and the instances of a type where they are. -/
theorem execute_cast_of_instance
    (hcasts : f.Casts s.stackLimit v type u) {op : Opcode} (hop : op.IsCast)
    (h : v.isNull = true ∨ s.session.isInstance v (.defined u.handle) = true) :
  s.execute heap f ⟨op, .type type⟩ = .ok (.proceed f.advance, heap)
  := by
  obtain ⟨htype, rest, hstack, hlimit⟩ := hcasts
  have hform : v.toStack = v := by
    cases v with
    | bool b => simp [Value.isNull, Session.isInstance] at h
    | _ => rfl
  have hsame : { f with stack := v.toStack :: rest, ip := f.ip + 1 } = f.advance := by
    rw [hform, ← hstack]
    rfl
  cases hop with
  | castclass =>
      change (s.onTop f (s.castTo (f.resolve type))).map _ = _
      rw [onTop_of_stack hstack, htype, castTo, if_pos (by simpa using h)]
      change (s.push { f with stack := rest } v).map _ = _
      rw [push_of_lt hlimit, hsame]
      rfl
  | isinst =>
      change (s.onTop f fun v => .ok (if s.session.isInstance v (f.resolve type) then v else .null)).map
        _ = _
      rw [onTop_of_stack hstack, htype]
      have hleft : (if s.session.isInstance v (.defined u.handle) then v else .null) = v := by
        split
        · rfl
        · next hnot =>
          cases v with
          | null => rfl
          | _ => simp [Value.isNull, hnot] at h
      rw [hleft]
      change (s.push { f with stack := rest } v).map _ = _
      rw [push_of_lt hlimit, hsame]
      rfl

/-- A cast of another value fails. -/
theorem execute_castclass_of_other
    (hcasts : f.Casts s.stackLimit v type u) (hnull : v.isNull = false)
    (h : s.session.isInstance v (.defined u.handle) = false) :
  s.execute heap f ⟨.castclass, .type type⟩ = .error (invalidCast v (.defined u.handle))
  := by
  obtain ⟨htype, rest, hstack, -⟩ := hcasts
  change (s.onTop f (s.castTo (f.resolve type))).map _ = _
  rw [onTop_of_stack hstack, htype, castTo, hnull, h]
  rfl

theorem execute_isinst_of_other
    (hcasts : f.Casts s.stackLimit v type u)
    (h : s.session.isInstance v (.defined u.handle) = false) :
  s.execute heap f ⟨.isinst, .type type⟩
    = .ok (.proceed { f.advance with stack := .null :: f.stack.tail }, heap)
  := by
  obtain ⟨htype, rest, hstack, hlimit⟩ := hcasts
  change (s.onTop f fun v => .ok (if s.session.isInstance v (f.resolve type) then v else .null)).map
    _ = _
  rw [onTop_of_stack hstack, htype, h]
  change (s.push { f with stack := rest } .null).map _ = _
  rw [push_of_lt hlimit, hstack]
  rfl

/-- What a cast leaves where it is is null or an instance. -/
theorem instance_of_execute_cast
    (hcasts : f.Casts s.stackLimit v type u) {op : Opcode} (hop : op.IsCast)
    (h : s.execute heap f ⟨op, .type type⟩ = .ok (.proceed f.advance, heap)) :
  v.isNull = true ∨ s.session.isInstance v (.defined u.handle) = true
  := by
  cases hnull : v.isNull with
  | true => exact .inl rfl
  | false =>
      right
      cases hinstance : s.session.isInstance v (.defined u.handle) with
      | true => rfl
      | false =>
          cases hop with
          | castclass =>
              rw [execute_castclass_of_other hcasts hnull hinstance] at h
              cases h
          | isinst =>
              rw [execute_isinst_of_other hcasts hinstance] at h
              obtain ⟨-, rest, hstack, -⟩ := hcasts
              have hstacks : (.null :: f.stack.tail : List Value) = f.stack := by
                injection h with h
                injection h with h
                injection h with h
                exact congrArg Frame.stack h
              rw [hstack] at hstacks
              cases hstacks
              cases hnull

end Surroundings

/-! ## Casts follow links -/

/-- A realized type reaches exactly what links lead to.  Objects are cast to such types, and to no
others, and what has been cast to a type can be cast to whatever links lead to from there. -/
structure Session.Descends (s : Session) : Prop where
  reaches : ∀ t ∈ s.types, ∀ u ∈ s.types, s.reaches t.id u.id = true ↔ s.Derives t.id u.id
  refl : ∀ t ∈ s.types, s.reaches t.id t.id = true
  trans : ∀ t ∈ s.types, ∀ u ∈ s.types, ∀ v ∈ s.types, s.reaches t.id u.id = true →
    s.reaches u.id v.id = true → s.reaches t.id v.id = true
  casts : ∀ t ∈ s.types, ∀ u ∈ s.types, ∀ (limit : Nat) (heap : Heap) (f : Frame) (type : TypeRef)
    (r : ObjectRef), r.type = t.id → f.Casts limit (.object r) type u →
    (s.Derives t.id u.id → ∀ op : Opcode, op.IsCast →
      Surroundings.execute ⟨s, limit⟩ heap f ⟨op, .type type⟩ = .ok (.proceed f.advance, heap))
    ∧ (¬ s.Derives t.id u.id →
      Surroundings.execute ⟨s, limit⟩ heap f ⟨.castclass, .type type⟩
        = .error (Surroundings.invalidCast (.object r) (.defined u.handle))
      ∧ Surroundings.execute ⟨s, limit⟩ heap f ⟨.isinst, .type type⟩
        = .ok (.proceed { f.advance with stack := .null :: f.stack.tail }, heap))
  upcasts : ∀ u ∈ s.types, ∀ w ∈ s.types, s.Derives u.id w.id → ∀ v : Value, v.Boxes →
    ∀ (limit : Nat) (heap heap' : Heap) (f f' : Frame) (type type' : TypeRef) (op op' : Opcode),
    op.IsCast → op'.IsCast → f.Casts limit v type u → f'.Casts limit v type' w →
    Surroundings.execute ⟨s, limit⟩ heap f ⟨op, .type type⟩ = .ok (.proceed f.advance, heap) →
    Surroundings.execute ⟨s, limit⟩ heap' f' ⟨op', .type type'⟩
      = .ok (.proceed f'.advance, heap')

/-- What has been cast to a type is an instance of everything that links lead to from there.  What
is in a box is of an enumeration, from which no link leads away. -/
theorem Session.isInstance_of_derives
    {s : Session} (hnodup : (s.types.map (·.id)).Nodup)
    (hreaches : ∀ t ∈ s.types, ∀ y, s.reaches t.id y = true ↔ s.Derives t.id y)
    (hbare : ∀ t ∈ s.types, t.handle.kind.isEnum = true → ∀ y, ¬ s.Links t.id y)
    {u w : RealizedType} (hu : u ∈ s.types) (hw : w ∈ s.types) (hlinks : s.Derives u.id w.id)
    {v : Value} (hboxes : v.Boxes) (h : s.isInstance v (.defined u.handle) = true) :
  s.isInstance v (.defined w.handle) = true
  := by
  have hfind : ∀ {c}, c ∈ s.types → s.realized? c.id = some c := find?_of_nodup hnodup
  cases v with
  | object r =>
      change s.reaches r.type u.id = true at h
      change s.reaches r.type w.id = true
      cases ht : s.realized? r.type with
      | none =>
          rw [s.reaches_of_unrealized ht] at h
          rw [h, hfind hu] at ht
          cases ht
      | some t =>
          have hmem := List.mem_of_find?_eq_some ht
          obtain hid : t.id = r.type := by simpa using List.find?_some ht
          rw [← hid] at h ⊢
          rw [hreaches t hmem] at h ⊢
          exact h.trans hlinks
  | boxed a t content =>
      change (t == .defined u.handle) = true at h
      change (t == .defined w.handle) = true
      obtain rfl := eq_of_beq h
      have henum : u.handle.kind.isEnum = true := by
        have hvalue := hboxes a _ content rfl
        revert hvalue
        rcases u.handle with ⟨x, _ | _ | p⟩ <;> simp [TypeRef.isValueType, TypeKind.isEnum]
      obtain hsame | ⟨y, hlink, -⟩ := ReflTransGen.cases_head hlinks
      · have hfound := hfind hu
        rw [hsame, hfind hw] at hfound
        obtain rfl := Option.some.inj hfound
        exact h
      · cases hbare u hu henum y hlink
  | _ => simp [isInstance] at h

theorem Layered.descends
    {verify : Bool} {decls : TypeId → Option TypeDecl} {s : Session}
    (h : Layered verify decls s.types) (hcollects : s.Collects) (hrootless : s.Rootless)
    (hbare : ∀ t ∈ s.types, t.handle.kind.isEnum = true → ∀ y, ¬ s.Links t.id y) :
  s.Descends
  := by
  have hreaches : ∀ t ∈ s.types, ∀ y, s.reaches t.id y = true ↔ s.Derives t.id y := by
    intro t ht y
    rw [h.reaches_iff_ascends hcollects ht, hrootless.ascends_iff]
  constructor
  case reaches =>
    intro t ht u _
    exact hreaches t ht u.id
  case refl =>
    intro t ht
    exact (hreaches t ht t.id).mpr .refl
  case trans =>
    intro t ht u hu v _ htu huv
    rw [hreaches t ht] at htu ⊢
    rw [hreaches u hu] at huv
    exact htu.trans huv
  case casts =>
    intro t ht u _ limit heap f type r hr hcasts
    have hinstance : s.isInstance (.object r) (.defined u.handle) = s.reaches t.id u.id := by
      rw [← hr]
      rfl
    rw [← hreaches t ht, ← hinstance, Bool.not_eq_true]
    constructor
    · intro hof op hop
      exact Surroundings.execute_cast_of_instance hcasts hop (.inr hof)
    · intro hof
      exact ⟨Surroundings.execute_castclass_of_other hcasts rfl hof,
        Surroundings.execute_isinst_of_other hcasts hof⟩
  case upcasts =>
    intro u hu w hw hlinks v hboxes limit heap heap' f f' type type' op op' hop hop' hcasts hcasts'
      hcast
    apply Surroundings.execute_cast_of_instance hcasts' hop'
    obtain hnull | hof := Surroundings.instance_of_execute_cast hcasts hop hcast
    · exact .inl hnull
    · exact .inr (Session.isInstance_of_derives h.distinct hreaches hbare hu hw hlinks hboxes hof)

namespace Project

/-- After every history in which no type that another one declares as an interface has got a base,
realized types reach what links lead to, and casts follow the links.  The history declares fewer
than `2 ^ 32 - 1` types, so that 32 bits tell their ids apart. -/
theorem descends_of_history
    (verify : Bool) (history : List (HostEvent ρ))
    (hnumbered : ((empty verify).run history).session.Numbered)
    (hrootless : ((empty verify).run history).session.Rootless) :
  (∀ before, before <+: history → ((empty verify).run before).NumbersFit)
  ∧ ((empty verify).run history).session.Descends
  := by
  refine ⟨fun before => numbersFit_run verify hnumbered, ?_⟩
  have hsound := (sound_empty verify).run history
  have hstacked := stacked_run verify history
  apply Layered.descends hstacked (collects_run verify history) hrootless
  intro t ht henum y
  exact (enumsBare_run verify history).not_links hsound hstacked ht henum y

/-- A unit with an interface that inherits another one, and a class for it; and a unit with a class
that is two base links below. -/
def descending : List (HostEvent Unit) :=
  [ .build (.openUnit "A"),
    .build (.change 0 (.declareType "I" .interfaceType {} none)),
    .build (.change 0 (.declareType "J" .interfaceType
      { interfaces := [.defined ⟨⟨1⟩, .interfaceType⟩] } none)),
    .build (.change 0 (.declareType "X" .classType
      { interfaces := [.defined ⟨⟨2⟩, .interfaceType⟩] } none)),
    .build (.change 0 .finalize),
    .build (.openUnit "B"),
    .build (.change 1 (.declareType "Y" .classType { base := some (.defined ⟨⟨3⟩, .classType⟩) } none)),
    .build (.change 1 (.declareType "Z" .classType { base := some (.defined ⟨⟨4⟩, .classType⟩) } none)),
    .build (.change 1 .finalize)]

/-- Links lead from `Z` to `I`, and `Z` reaches it. -/
theorem descends_of_descending :
  ((empty true).run descending).session.Rootless
  ∧ ∃ t u, t ∈ ((empty true).run descending).session.types
    ∧ u ∈ ((empty true).run descending).session.types ∧ t.fullName = "Z" ∧ u.fullName = "I"
    ∧ ((empty true).run descending).session.reaches t.id u.id = true
    ∧ ((empty true).run descending).session.Derives t.id u.id
  := by
  have hrootless : ((empty true).run descending).session.Rootless := by
    rw [Session.Rootless]
    decide +kernel
  have hZ : (((empty true).run descending).session.types[4]?.map fun t => (t.fullName, t.id))
      = some ("Z", ⟨5⟩) := by decide +kernel
  have hI : (((empty true).run descending).session.types[0]?.map fun t => (t.fullName, t.id))
      = some ("I", ⟨1⟩) := by decide +kernel
  have hreaches : ((empty true).run descending).session.reaches ⟨5⟩ ⟨1⟩ = true := by decide +kernel
  obtain ⟨t, ht, hname⟩ := Option.map_eq_some_iff.mp hZ
  obtain ⟨u, hu, hname'⟩ := Option.map_eq_some_iff.mp hI
  obtain ⟨ht', hid⟩ := Prod.mk.inj hname
  obtain ⟨hu', hid'⟩ := Prod.mk.inj hname'
  rw [← hid, ← hid'] at hreaches
  obtain ⟨-, hdescends⟩ := descends_of_history true descending (by decide +kernel) hrootless
  exact ⟨hrootless, t, u, List.mem_of_getElem? ht, List.mem_of_getElem? hu, ht', hu', hreaches,
    (hdescends.reaches t (List.mem_of_getElem? ht) u (List.mem_of_getElem? hu)).mp hreaches⟩

/-- A class that is declared as an interface, and has a base. -/
def mislabelled : List (HostEvent Unit) :=
  [ .build (.openUnit "A"),
    .build (.change 0 (.declareType "Y" .classType {} none)),
    .build (.change 0 (.declareType "X" .classType { base := some (.defined ⟨⟨1⟩, .classType⟩) } none)),
    .build (.change 0 (.declareType "T" .classType
      { interfaces := [.defined ⟨⟨2⟩, .interfaceType⟩] } none)),
    .build (.change 0 .finalize)]

/-- Links lead from `T` over `X` to `Y`, but `T` does not reach it; and a box that is labelled with
the class `X` is an instance of `X` and not of its base. -/
theorem not_descends_of_mislabelled :
  (¬ ∀ t ∈ ((empty true).run mislabelled).session.types,
    ∀ u ∈ ((empty true).run mislabelled).session.types,
      ((empty true).run mislabelled).session.reaches t.id u.id = true
        ↔ ((empty true).run mislabelled).session.Derives t.id u.id)
  ∧ ¬ ∀ u ∈ ((empty true).run mislabelled).session.types,
    ∀ w ∈ ((empty true).run mislabelled).session.types,
      ((empty true).run mislabelled).session.Derives u.id w.id → ∀ v : Value,
      ((empty true).run mislabelled).session.isInstance v (.defined u.handle) = true →
      ((empty true).run mislabelled).session.isInstance v (.defined w.handle) = true
  := by
  have hY : (((empty true).run mislabelled).session.types[0]?.map (·.handle))
      = some ⟨⟨1⟩, .classType⟩ := by decide +kernel
  have hX : (((empty true).run mislabelled).session.types[1]?.map
      fun t => (t.handle, t.base)) = some (⟨⟨2⟩, .classType⟩, some ⟨1⟩) := by decide +kernel
  have hT : (((empty true).run mislabelled).session.types[2]?.map
      fun t => (t.handle, t.interfaces)) = some (⟨⟨3⟩, .classType⟩, [⟨2⟩]) := by decide +kernel
  have hstacked := stacked_run true mislabelled
  obtain ⟨y, hy, hyhandle⟩ := Option.map_eq_some_iff.mp hY
  obtain ⟨x, hx, hxshape⟩ := Option.map_eq_some_iff.mp hX
  obtain ⟨t, ht, htshape⟩ := Option.map_eq_some_iff.mp hT
  obtain ⟨hxhandle, hbase⟩ := Prod.mk.inj hxshape
  obtain ⟨hthandle, hinterfaces⟩ := Prod.mk.inj htshape
  have hmem := List.mem_of_getElem? hx
  have hderives : ((empty true).run mislabelled).session.Derives x.id y.id := by
    apply ReflTransGen.single
    left
    refine ⟨x, hstacked.find hmem, ?_⟩
    rw [hbase, RealizedType.id, hyhandle]
  constructor
  · intro h
    have hlink : ((empty true).run mislabelled).session.Links t.id x.id := by
      right
      refine ⟨t, hstacked.find (List.mem_of_getElem? ht), ?_⟩
      rw [hinterfaces, RealizedType.id, hxhandle]
      exact List.mem_singleton_self _
    have hreaches := (h t (List.mem_of_getElem? ht) y (List.mem_of_getElem? hy)).mpr
      (.head hlink hderives)
    rw [RealizedType.id, RealizedType.id, hthandle, hyhandle] at hreaches
    have hnot : ((empty true).run mislabelled).session.reaches ⟨3⟩ ⟨1⟩ = false := by decide +kernel
    rw [hnot] at hreaches
    cases hreaches
  · intro h
    have hinstance := h x hmem y (List.mem_of_getElem? hy) hderives
      (.boxed 0 (.defined ⟨⟨2⟩, .classType⟩) .null) (by rw [hxhandle]; rfl)
    rw [hyhandle] at hinstance
    cases hinstance

end Project

end ManagedCode
