import ManagedCode.Proofs.Assembly.Referents
import ManagedCode.Proofs.Assembly.Registration

/-!
# Handles last

A handle that an operation has handed back stands for the same member ever after: in the
declaration of the type, whatever operations follow, accepted or refused, and in the realized type
when the unit has been finalized.  The realized type refers to the base and the interfaces that
have been set last, and no operation changes it or its declaration any more
(`Project.handles_last`).
-/

namespace ManagedCode

variable {ρ : Type}

/-! ## Base and interfaces -/

/-- The base class and the interfaces that a type refers to. -/
structure Ancestry where
  base : Option TypeRef
  interfaces : List TypeRef
deriving DecidableEq

def TypeDecl.ancestry (d : TypeDecl) : Ancestry :=
  ⟨d.base, d.interfaces⟩

/-- What an operation that is accepted makes of the ancestry of a type.  The class that is above
all others is no base, and an interface is taken once. -/
def Change.relink (x : TypeId) (l : Ancestry) : Change ρ → Ancestry
  | setBase id base =>
    if id = x then { l with base := if base = .object then none else some base } else l
  | addInterface id interface =>
    if id = x ∧ interface ∉ l.interfaces then { l with interfaces := l.interfaces ++ [interface] }
    else l
  | _ => l

namespace Project

/-- What an event makes of the ancestry of a type.  An operation that is refused does nothing. -/
def relink (p : Project) (x : TypeId) (l : Ancestry) : Event ρ → Ancestry
  | .openUnit _ => l
  | .change i c =>
    match p.units[i]? with
    | none => l
    | some a =>
      match (c.build.exec (p.workspace a)).1 with
      | .ok _ => c.relink x l
      | .error _ => l

/-- The ancestry of a type after a history. -/
def relinked (x : TypeId) : Project → List (Event ρ) → Ancestry → Ancestry
  | _, [], l => l
  | p, e :: later, l => (p.apply e).relinked x later (p.relink x l e)

end Project

namespace Workspace

variable {w w' : Workspace} {x : TypeId} {d d' : TypeDecl} {handles : List Handle}

theorem Edits.ancestry
    (h : w.Edits w') (hd : w.assembly.decl? x = some d) (hd' : w'.assembly.decl? x = some d') :
  d'.ancestry = d.ancestry
  := by
  have hx := h.decl x
  rw [hd] at hx
  obtain ⟨d₁, hd₁, hedited⟩ := rel_some hx
  rw [hd'] at hd₁
  cases hd₁
  exact (congrArg TypeDecl.ancestry hedited.outline :)

theorem acceptBase_eq
    {owner : String} {given : TypeRef} {base : Option TypeRef}
    (h : w.acceptBase owner given = .ok base) :
  base = if given = .object then none else some given
  := by
  unfold acceptBase at h
  split at h
  · cases h
    rfl
  · obtain ⟨_, -, h⟩ := exists_of_bind_ok h
    cases h
    rw [if_neg (by rintro ⟨⟩)]
  · cases h

theorem ancestry_of_setBase
    {id : TypeId} {given : TypeRef} (haccepted : ((Build.setBase id given).exec w).1 = .ok ())
    (hd : w.assembly.decl? x = some d)
    (hd' : ((Build.setBase id given).exec w).2.assembly.decl? x = some d') :
  d'.ancestry = (Change.setBase id given : Change ρ).relink x d.ancestry
  := by
  obtain ⟨e, hexec⟩ | ⟨owner, base, -, -, -, hbase, hexec⟩ := Build.exec_setBase id given w
  · rw [hexec] at haccepted
    cases haccepted
  · rw [hexec] at hd'
    change (w.rebasing id base).assembly.decl? x = _ at hd'
    rw [decl?_rebasing, hd, Option.map_some] at hd'
    cases hd'
    rw [Change.relink, ← acceptBase_eq hbase]
    split
    · next hx => rw [if_pos hx.symm, TypeDecl.ancestry, TypeDecl.ancestry]
    · next hx => rw [if_neg (Ne.symm hx)]

theorem ancestry_of_addInterface
    {id : TypeId} {interface : TypeRef}
    (haccepted : ((Build.addInterface id interface).exec w).1 = .ok ())
    (hd : w.assembly.decl? x = some d)
    (hd' : ((Build.addInterface id interface).exec w).2.assembly.decl? x = some d') :
  d'.ancestry = (Change.addInterface id interface : Change ρ).relink x d.ancestry
  := by
  obtain ⟨e, hexec⟩ | ⟨owner, -, -, -, hexec⟩ := Build.exec_addInterface id interface w
  · rw [hexec] at haccepted
    cases haccepted
  · rw [hexec] at hd'
    rw [decl?_implementing, hd, Option.map_some] at hd'
    cases hd'
    rw [Change.relink]
    by_cases hx : x = id
    · by_cases hmem : interface ∈ d.interfaces
      · simp [hx, hmem, TypeDecl.ancestry]
      · simp [hx, hmem, TypeDecl.ancestry]
    · rw [if_neg hx, if_neg fun h => hx h.1.symm]

/-- What has been handed back as a list of handles has been handed back. -/
theorem ok_of_map {α : Type} {f : α → List Handle} {b : Build α}
    (h : ((f <$> b).exec w).1 = .ok handles) :
  ∃ a, (b.exec w).1 = .ok a
  := by
  rw [exec_map] at h
  cases hanswer : (b.exec w).1 with
  | ok a => exact ⟨a, rfl⟩
  | error e =>
      rw [hanswer] at h
      cases h

/-- An operation that is accepted sets the ancestry of a type as it says. -/
theorem ancestry_of_accepted
    (c : Change ρ) (hfresh : w.Fresh) (haccepted : (c.build.exec w).1 = .ok handles)
    (hd : w.assembly.decl? x = some d) (hd' : (c.perform w).assembly.decl? x = some d') :
  d'.ancestry = c.relink x d.ancestry
  := by
  cases c with
  | setBase id given =>
      obtain ⟨⟨⟩, hok⟩ := ok_of_map haccepted
      exact ancestry_of_setBase hok hd hd'
  | addInterface id interface =>
      obtain ⟨⟨⟩, hok⟩ := ok_of_map haccepted
      exact ancestry_of_addInterface hok hd hd'
  | declareType name kind spec enclosing =>
      rw [Change.perform] at hd'
      obtain ⟨e, hexec⟩ | ⟨new, hnew, hexec⟩ := Build.exec_declareType name kind spec enclosing w
      · rw [hexec, hd] at hd'
        cases hd'
        rfl
      · have hunused := (declares_of_newType hfresh hnew).unused
        rw [hexec] at hd'
        rw [decl?_declaring hunused, hd, Option.some_or, Option.map_some] at hd'
        cases hd'
        split <;> rfl
  | defineField id name t spec =>
      exact (Build.editing_defineField w id name t spec).edits.ancestry hd hd'
  | defineLiteral id name value =>
      exact (Build.editing_defineLiteral w id name value).edits.ancestry hd hd'
  | defineMethod owner name spec body =>
      exact (Build.editing_defineMethod w owner name spec body _).edits.ancestry hd hd'
  | defineConstructor owner spec body =>
      exact (Build.editing_defineConstructor w owner spec body).edits.ancestry hd hd'
  | defineProperty id name t spec =>
      exact (Build.editing_defineProperty w id name t spec).edits.ancestry hd hd'
  | replaceBody m body => exact (Build.editing_replaceBody w m body).edits.ancestry hd hd'
  | setMethodAttribute m custom =>
      exact (Build.editing_setMethodAttribute w m custom).edits.ancestry hd hd'
  | setTypeAttribute id custom =>
      exact (Build.editing_setTypeAttribute w id custom).edits.ancestry hd hd'
  | finalize =>
      rw [Change.perform] at hd'
      obtain hsame | ⟨new, unit, -, -, hexec⟩ := Build.finalize_outcome hfresh
      · rw [hsame, hd] at hd'
        cases hd'
        rfl
      · rw [hexec] at hd'
        change (w.realizing new).assembly.decl? x = _ at hd'
        rw [decl?_realizing, hd, Option.map_some] at hd'
        cases hd'
        split <;> rfl

/-! ## One operation -/

/-- A type goes on from its declaration, whatever operation is accepted. -/
theorem Accepts.prolongs
    (h : w.Accepts handles w') (hd : w.assembly.decl? x = some d) :
  ∃ d', w'.assembly.decl? x = some d' ∧ d.Prolongs d'
  := by
  cases h with
  | stays hhandles heq =>
      rw [heq]
      exact ⟨d, hd, .refl d⟩
  | adds e e' h hprolongs hstate hindexed hhas heq =>
      rw [heq, decl?_redefining, hd, Option.map_some, hprolongs.id_eq]
      split
      · next hx =>
        have hsame := h.decl
        rw [← hx, hd] at hsame
        cases hsame
        exact ⟨e', rfl, hprolongs⟩
      · exact ⟨d, rfl, .refl d⟩
  | declares e h hmembers hhandles heq =>
      rw [heq, decl?_declaring h.unused, hd, Option.some_or, Option.map_some]
      split
      · exact ⟨_, rfl, rfl, List.prefix_rfl, List.prefix_rfl, List.prefix_rfl⟩
      · exact ⟨d, rfl, .refl d⟩
  | realizes new unit h hhandles heq =>
      rw [heq]
      change ∃ d', (w.realizing new).assembly.decl? x = some d' ∧ _
      rw [decl?_realizing, hd, Option.map_some]
      split
      · exact ⟨_, rfl, rfl, List.prefix_rfl, List.prefix_rfl, List.prefix_rfl⟩
      · exact ⟨d, rfl, .refl d⟩

/-- What is handed back are handles of a type that is open, or of members that it has. -/
theorem Accepts.has
    (h : w.Accepts handles w') {handle : Handle} (hmem : handle ∈ handles) :
  ∃ d, w'.assembly.decl? handle.owner = some d ∧ d.Has handle ∧ d.state = .building
  := by
  cases h with
  | stays hhandles heq =>
      rw [hhandles] at hmem
      cases hmem
  | adds e e' h hprolongs hstate hindexed hhas heq =>
      have howner := (hhas handle hmem).owner
      refine ⟨e', ?_, hhas handle hmem, hstate.trans h.building⟩
      rw [heq, ← howner, decl?_redefining, hprolongs.id_eq, h.decl, Option.map_some, if_pos rfl]
  | declares e h hmembers hhandles heq =>
      rw [hhandles] at hmem
      obtain rfl := List.mem_singleton.mp hmem
      rw [heq, Handle.owner, decl?_declaring h.unused, h.decl?_eq_none, Option.none_or, if_pos rfl,
        Option.map_some]
      split
      · exact ⟨_, rfl, rfl, h.state⟩
      · exact ⟨e, rfl, rfl, h.state⟩
  | realizes new unit h hhandles heq =>
      rw [hhandles] at hmem
      cases hmem

/-- A type is realized by finalizing the unit only. -/
theorem Redraws.realized_cases
    (h : w.Redraws w') (hd : w.assembly.decl? x = some d) (hbuilding : d.state = .building)
    (hd' : w'.assembly.decl? x = some d') (hrealized : d'.state = .realized) :
  ∃ new unit, w.Realizes new ∧ w.assembly.finalized = none ∧ x ∈ new.map (·.id)
    ∧ d' = d.asRealized
    ∧ w' = { w.realizing new with
        assembly := { (w.realizing new).assembly with finalized := some unit } }
  := by
  have hsame : d'.state = d.state → False := by
    rw [hbuilding, hrealized]
    rintro ⟨⟩
  cases h with
  | edits h =>
      have hx := h.decl x
      rw [hd] at hx
      obtain ⟨d₁, hd₁, hedited⟩ := rel_some hx
      rw [hd'] at hd₁
      cases hd₁
      cases hsame hedited.state
  | declares e h heq =>
      rw [heq, decl?_declaring h.unused, hd, Option.some_or, Option.map_some] at hd'
      cases hd'
      cases hsame (by split <;> rfl)
  | rebases id e given base he hkind hother hbase heq =>
      rw [heq, decl?_rebasing, hd, Option.map_some] at hd'
      cases hd'
      cases hsame (by split <;> rfl)
  | implements id e interface he hkind hinterface heq =>
      rw [heq, decl?_implementing, hd, Option.map_some] at hd'
      cases hd'
      cases hsame (by split <;> [split <;> rfl; rfl])
  | realizes new unit h hopen hrun heq =>
      have hfound := hd'
      rw [heq] at hfound
      change (w.realizing new).assembly.decl? x = _ at hfound
      rw [decl?_realizing, hd, Option.map_some] at hfound
      split at hfound
      · next hmem =>
        cases hfound
        exact ⟨new, unit, h, hopen, hmem, rfl, heq⟩
      · cases hfound
        cases hsame rfl

/-- An operation that is accepted sets the ancestry of types of its own unit only. -/
theorem relink_of_foreign
    (c : Change ρ) (haccepted : (c.build.exec w).1 = .ok handles) (hnone : w.assembly.decl? x = none)
    (l : Ancestry) :
  c.relink x l = l
  := by
  have hother : ∀ {id d}, w.assembly.building id = .ok d → id ≠ x := by
    rintro id d hbuilding rfl
    rw [(Assembly.building_ok hbuilding).1] at hnone
    cases hnone
  cases c with
  | setBase id given =>
      obtain ⟨⟨⟩, hok⟩ := ok_of_map haccepted
      obtain ⟨e, hexec⟩ | ⟨owner, base, hd, -, -, -, -⟩ := Build.exec_setBase id given w
      · rw [hexec] at hok
        cases hok
      · rw [Change.relink, if_neg (hother hd)]
  | addInterface id interface =>
      obtain ⟨⟨⟩, hok⟩ := ok_of_map haccepted
      obtain ⟨e, hexec⟩ | ⟨owner, hd, -, -, -⟩ := Build.exec_addInterface id interface w
      · rw [hexec] at hok
        cases hok
      · rw [Change.relink, if_neg fun h => hother hd h.1]
  | _ => rfl

end Workspace

/-- A realized type is what its unit declares: it has its profile, and refers to its base and its
interfaces. -/
structure RealizedType.Embodies (t : RealizedType) (d : TypeDecl) : Prop where
  profile : t.profile = d.profile
  base : t.base = d.baseId?
  interfaces : t.interfaces = d.interfaceIds

namespace Workspace

variable {w w' : Workspace} {x : TypeId} {d d' : TypeDecl}

/-- A type that finalizing realizes is what the unit declares. -/
theorem Realizes.embodies
    {new : List RealizedType} (h : w.Realizes new) (hfresh : w.Fresh)
    (hd : w.assembly.decl? x = some d) (hx : x ∈ new.map (·.id)) :
  ∃ t, (w.realizing new).session.realized? x = some t ∧ t.Embodies d.asRealized
  := by
  obtain ⟨t, ht, rfl⟩ := List.mem_map.mp hx
  refine ⟨t, realized?_realizing hfresh h ht, ?_⟩
  obtain ⟨before, -, hlayout⟩ := h.exists_layout ht
  obtain ⟨e, base, he, hmirrors, -⟩ := layoutType_ok hlayout
  have hprofile := layoutType_profile hlayout he
  have hinterfaces := layoutType_interfaces hlayout he
  have hsame : e.asRealized = d.asRealized := by
    rw [decl?_realizing, hd, Option.map_some] at he
    cases he
    split <;> rfl
  rw [← hsame]
  exact ⟨hprofile, hmirrors.base, hinterfaces⟩

/-- If a type becomes realized, it is what the unit declares. -/
theorem Redraws.embodies
    (h : w.Redraws w') (hfresh : w.Fresh) (hd : w.assembly.decl? x = some d)
    (hbuilding : d.state = .building) (hd' : w'.assembly.decl? x = some d')
    (hrealized : d'.state = .realized) :
  ∃ t, w'.session.realized? x = some t ∧ t.Embodies d'
  := by
  obtain ⟨new, unit, hnew, -, hmem, rfl, rfl⟩ := h.realized_cases hd hbuilding hd' hrealized
  exact hnew.embodies hfresh hd hmem

end Workspace

/-! ## All that follows -/

namespace Project

variable {p q : Project} {i : Nat} {a : Assembly} {c : Change ρ} {handles : List Handle}
  {d e : TypeDecl} {l : Ancestry}

/-- What a project is, whatever its history. -/
structure Lawful (p : Project) : Prop where
  sound : p.Sound
  indexed : p.Indexed
  closed : p.Closed

theorem lawful_run (verify : Bool) (history : List (HostEvent ρ)) :
  ((empty verify).run history).Lawful
  :=
  ⟨(sound_empty verify).run history, indexed_run verify history, closed_run verify history⟩

theorem Lawful.apply (h : p.Lawful) (event : Event ρ) : (p.apply event).Lawful := by
  have hturns := p.turns_apply event
  exact ⟨h.sound.turns hturns, h.indexed.turns h.sound hturns, h.closed.turns h.sound hturns⟩

theorem Lawful.after (h : p.Lawful) (later : List (Event ρ)) : (p.after later).Lawful := by
  induction later generalizing p with
  | nil => exact h
  | cons event later ih => exact ih (h.apply event)

/-- A unit goes on from a declaration of a type, with the given ancestry, and when the type is
realized, it is what the unit declares. -/
structure Continues (p : Project) (i : Nat) (d e : TypeDecl) (l : Ancestry) : Prop where
  declared : ∃ a, p.units[i]? = some a ∧ a.decl? d.id = some e
  prolongs : d.Prolongs e
  ancestry : e.ancestry = l
  embodied : e.state = .realized → ∃ t, p.session.realized? d.id = some t ∧ t.Embodies e

/-- An operation on the unit itself. -/
theorem Continues.change
    (h : p.Continues i d e l) (hsound : p.Sound) (ha : p.units[i]? = some a)
    (haccepted : (c.build.exec (p.workspace a)).1 = .ok handles)
    (haccepts : (p.workspace a).Accepts handles (c.perform (p.workspace a))) :
  ∃ e', (p.put i (c.perform (p.workspace a))).Continues i d e' (c.relink d.id l)
  := by
  obtain ⟨b, hb, hd⟩ := h.declared
  rw [ha] at hb
  cases hb
  have hfresh := hsound.fresh ha
  have hredraws := c.redraws hfresh
  obtain ⟨e', hd', hprolongs⟩ := haccepts.prolongs hd
  refine ⟨e', ⟨_, put_same ha, hd'⟩, h.prolongs.trans hprolongs, ?_, ?_⟩
  · rw [← h.ancestry]
    exact Workspace.ancestry_of_accepted c hfresh haccepted hd hd'
  · intro hrealized
    cases hstate : e.state with
    | building => exact hredraws.embodies hfresh hd hstate hd' hrealized
    | realized =>
        have hsame := hredraws.frozen hd hstate
        rw [hd'] at hsame
        cases hsame
        obtain ⟨t, ht, hembodies⟩ := h.embodied hstate
        exact ⟨t, hsound.realized?_turns (.changes ha c) ht, hembodies⟩

/-- Whatever leaves the unit alone. -/
theorem Continues.turns
    (h : p.Continues i d e l) (hsound : p.Sound) (hq : p.Turns ρ q)
    (hunit : ∀ a, p.units[i]? = some a → q.units[i]? = some a) :
  q.Continues i d e l
  := by
  obtain ⟨a, ha, hd⟩ := h.declared
  refine ⟨⟨a, hunit a ha, hd⟩, h.prolongs, h.ancestry, ?_⟩
  intro hrealized
  obtain ⟨t, ht, hembodies⟩ := h.embodied hrealized
  exact ⟨t, hsound.realized?_turns hq ht, hembodies⟩

theorem Continues.openUnit (h : p.Continues i d e l) (hsound : p.Sound) (name : String) :
  (p.apply (.openUnit name : Event ρ)).Continues i d e l
  := by
  apply h.turns hsound (p.turns_apply (.openUnit name : Event ρ))
  intro a ha
  obtain ⟨hi, -⟩ := List.getElem?_eq_some_iff.mp ha
  change (p.units ++ [.new name])[i]? = some a
  rw [List.getElem?_append_left hi, ha]

/-- An operation on another unit. -/
theorem Continues.elsewhere
    (h : p.Continues i d e l) (hsound : p.Sound) {j : Nat} (hij : i ≠ j)
    (ha : p.units[j]? = some a) (haccepted : (c.build.exec (p.workspace a)).1 = .ok handles) :
  (p.put j (c.perform (p.workspace a))).Continues i d e (c.relink d.id l)
  := by
  have hnone : a.decl? d.id = none := by
    obtain ⟨b, hb, hd⟩ := h.declared
    by_contra hsome
    obtain ⟨e', he'⟩ := Option.ne_none_iff_exists'.mp hsome
    exact hsound.disjoint hb ha hij _ (Assembly.mem_ids hd) (Assembly.mem_ids he')
  rw [Workspace.relink_of_foreign c haccepted hnone l]
  apply h.turns hsound (.changes ha c)
  intro b hb
  rw [put_other hij, hb]

/-- A unit goes on from a declaration, whatever happens. -/
theorem Continues.apply (h : p.Continues i d e l) (hlawful : p.Lawful) (event : Event ρ) :
  ∃ e', (p.apply event).Continues i d e' (p.relink d.id l event)
  := by
  cases event with
  | openUnit name => exact ⟨e, h.openUnit hlawful.sound name⟩
  | change j c =>
      rw [Project.apply, relink]
      cases ha : p.units[j]? with
      | none => exact ⟨e, h⟩
      | some a =>
          dsimp only
          obtain ⟨error, hexec⟩ | ⟨handles, w', hexec, haccepts⟩ :=
            c.settles (hlawful.indexed.orderly hlawful.sound ha)
          · rw [c.perform_eq, hexec, put_self ha]
            exact ⟨e, h⟩
          · have haccepted := congrArg Prod.fst hexec
            have hperform : c.perform (p.workspace a) = w' := by
              rw [c.perform_eq, hexec]
            rw [← hperform] at haccepts
            rw [hexec]
            by_cases hij : i = j
            · subst hij
              exact h.change hlawful.sound ha haccepted haccepts
            · exact ⟨e, h.elsewhere hlawful.sound hij ha haccepted⟩

theorem Continues.after
    (h : p.Continues i d e l) (hlawful : p.Lawful) (later : List (Event ρ)) :
  ∃ e', (p.after later).Continues i d e' (p.relinked d.id later l)
  := by
  induction later generalizing p e l with
  | nil => exact ⟨e, h⟩
  | cons event later ih =>
      obtain ⟨e', h'⟩ := h.apply hlawful event
      exact ih h' (hlawful.apply event)

/-- No operation changes a realized type, or its declaration. -/
theorem Sound.frozen_after
    (h : p.Sound) {x : TypeId} {t : RealizedType} (hd : p.decl? x = some d)
    (hrealized : d.state = .realized) (ht : p.session.realized? x = some t)
    (later : List (Event ρ)) :
  (p.after later).decl? x = some d ∧ (p.after later).session.realized? x = some t
  := by
  induction later generalizing p with
  | nil => exact ⟨hd, ht⟩
  | cons event later ih =>
      have hturns := p.turns_apply event
      exact ih (h.turns hturns) (h.decl?_turns hturns hd hrealized) (h.realized?_turns hturns ht)

/-- What an operation that is accepted hands back are handles of a type that is open. -/
theorem Lawful.accepted
    (hlawful : p.Lawful) (ha : p.units[i]? = some a)
    (haccepted : (c.build.exec (p.workspace a)).1 = .ok handles) {h : Handle} (hmem : h ∈ handles) :
  ∃ d, d.Has h ∧ (p.apply (.change i c)).Continues i d d d.ancestry
  := by
  obtain ⟨error, hexec⟩ | ⟨handles', w', hexec, haccepts⟩ :=
    c.settles (hlawful.indexed.orderly hlawful.sound ha)
  · rw [hexec] at haccepted
    cases haccepted
  · rw [hexec] at haccepted
    cases haccepted
    obtain ⟨d, hd, hhas, hbuilding⟩ := haccepts.has hmem
    rw [Project.apply, ha]
    dsimp only
    rw [c.perform_eq, hexec]
    refine ⟨d, hhas, ⟨_, put_same ha, ?_⟩, .refl d, rfl, ?_⟩
    · rw [hhas.owner]
      exact hd
    · rw [hbuilding]
      rintro ⟨⟩

/-- Finalizing leaves the ancestry of all types. -/
theorem relink_finalize (p : Project) (x : TypeId) (l : Ancestry) :
  p.relink x l (.change i .finalize : Event ρ) = l
  := by
  rw [relink]
  split
  · rfl
  · split <;> rfl

/-- A unit that has been finalized says so. -/
theorem finalized_of_ok {w w' : Workspace} {unit : FinalizedUnit}
    (h : Build.finalize.exec w = (.ok unit, w')) :
  w'.assembly.finalized.isSome
  := by
  cases hfinalized : w.assembly.finalized with
  | some unit' =>
      rw [exec_finalize_again hfinalized] at h
      cases h
      rw [hfinalized]
      rfl
  | none =>
      obtain ⟨r, -, -, rfl⟩ := Workspace.exec_finalize_ok hfinalized h
      rfl

/-- When a unit is finalized, each of its types is realized as the unit declares it. -/
theorem Continues.finalize
    (h : p.Continues i d e l) (hlawful : p.Lawful) {unit : FinalizedUnit}
    (ha : p.units[i]? = some a)
    (hfinalized : (Build.finalize.exec (p.workspace a)).1 = .ok unit)
    (hq : q = p.apply (.change i .finalize : Event ρ)) :
  ∃ e' t, q.Continues i d e' l ∧ e'.state = .realized ∧ q.session.realized? d.id = some t
    ∧ t.Embodies e'
  := by
  obtain ⟨e', hcontinues⟩ := h.apply hlawful (.change i .finalize : Event ρ)
  have hclosed := (hlawful.apply (.change i .finalize : Event ρ)).closed
  rw [relink_finalize, ← hq] at hcontinues
  rw [← hq] at hclosed
  obtain ⟨b, hb, he'⟩ := hcontinues.declared
  have hsome : b.finalized.isSome := by
    rw [hq, Project.apply, ha] at hb
    dsimp only at hb
    rw [put_same ha] at hb
    cases hb
    exact finalized_of_ok (Prod.ext hfinalized rfl)
  have hrealized := (hclosed i b hb).realized hsome _ _ he'
  obtain ⟨t, ht, hembodies⟩ := hcontinues.embodied hrealized
  exact ⟨e', t, hcontinues, hrealized, ht, hembodies⟩

/-- A handle that an operation has handed back stands for the same member in the declaration of its
type after all that follows, and in the realized type when the unit has been finalized.  The
realized type refers to the base and the interfaces that have been set last, and whatever is done
later, it stays, and so does its declaration.  The history declares fewer than `2 ^ 32 - 1` types,
so that 32 bits tell their ids apart. -/
theorem handles_last
    (verify : Bool) (before : List (HostEvent ρ)) {b : Assembly} {h : Handle}
    {later : List (Event ρ)} {unit : FinalizedUnit}
    (ha : ((empty verify).run before).units[i]? = some a)
    (haccepted : (c.build.exec (((empty verify).run before).workspace a)).1 = .ok handles)
    (hmem : h ∈ handles)
    (hp : p = ((empty verify).run before).apply (.change i c))
    (hnumbered : (p.after later).session.Numbered) (hb : (p.after later).units[i]? = some b)
    (hfinalized : (Build.finalize.exec ((p.after later).workspace b)).1 = .ok unit)
    (hq : q = (p.after later).apply (.change i .finalize : Event ρ)) :
  (p.after later).NumbersFit
  ∧ ∃ d e t r, p.decl? h.owner = some d ∧ d.profile.referent? h = some r
    ∧ e.profile.referent? h = some r ∧ t.profile.referent? h = some r
    ∧ e.ancestry = p.relinked h.owner later d.ancestry
    ∧ t.base = e.baseId? ∧ t.interfaces = e.interfaceIds
    ∧ ∀ last : List (Event ρ), (q.after last).session.Numbered →
        (q.after last).NumbersFit ∧ (q.after last).decl? h.owner = some e
        ∧ (q.after last).session.realized? h.owner = some t
  := by
  have hbefore := lawful_run verify before
  have hlawful : p.Lawful := by
    rw [hp]
    exact hbefore.apply _
  have hqlawful : q.Lawful := by
    rw [hq]
    exact (hlawful.after later).apply _
  have hsound := hqlawful.sound
  obtain ⟨d, hhas, hfirst⟩ := hbefore.accepted ha haccepted hmem
  rw [← hp] at hfirst
  obtain ⟨r, hr⟩ := hhas.referent?
  obtain ⟨a', ha', hd⟩ := hfirst.declared
  obtain ⟨e', hlater⟩ := hfirst.after hlawful later
  obtain ⟨e, t, hlast, hrealized, ht, hembodies⟩ :=
    hlater.finalize (hlawful.after later) hb hfinalized hq
  obtain ⟨b', hb', he⟩ := hlast.declared
  have hre := hlast.prolongs.referent? hr
  rw [hhas.owner] at hd he ht
  refine ⟨(hlawful.after later).sound.numbersFit hnumbered, d, e, t, r,
    hlawful.sound.decl?_eq ha' hd, hr, hre, ?_, ?_, hembodies.base, hembodies.interfaces, ?_⟩
  · rw [hembodies.profile, hre]
  · rw [← hhas.owner]
    exact hlast.ancestry
  · intro last hnumbered'
    exact ⟨(hqlawful.after last).sound.numbersFit hnumbered',
      hsound.frozen_after (hsound.decl?_eq hb' he) hrealized ht last⟩

/-- A class with a property gets a base and an interface, and the getter gets another body.  Another
property, and the class itself as its base, are refused. -/
def revising : List (Event Unit) :=
  [ .change 0 (.declareType "B" .classType {} none),
    .change 0 (.declareType "I" .interfaceType {} none),
    .change 0 (.defineProperty ⟨1⟩ "Size" (.primitive .i32)
      { accessors := .custom (some .minimal) (some (.ofEmitter id)) }),
    .change 0 (.setBase ⟨1⟩ (.defined ⟨⟨2⟩, .classType⟩)),
    .change 0 (.addInterface ⟨1⟩ (.defined ⟨⟨3⟩, .interfaceType⟩)),
    .change 0 (.setBase ⟨1⟩ (.defined ⟨⟨1⟩, .classType⟩)),
    .change 0 (.replaceBody ⟨⟨1⟩, 0⟩ .minimal)]

/-- The handle of the property still stands for it when the unit has been finalized. -/
theorem handles_of_revising :
  ∃ (p q : Project) (d : TypeDecl) (t : RealizedType) (r : Referent),
    p = ((empty true).run lonely).apply (.change 0 (counting none))
      ∧ q = (p.after revising).apply (.change 0 .finalize : Event Unit)
      ∧ p.decl? ⟨1⟩ = some d ∧ r.name = "Count"
      ∧ d.profile.referent? (.property ⟨⟨1⟩, 0, some ⟨⟨1⟩, 0⟩, none, none⟩) = some r
      ∧ t.profile.referent? (.property ⟨⟨1⟩, 0, some ⟨⟨1⟩, 0⟩, none, none⟩) = some r
      ∧ t.base = some ⟨2⟩ ∧ t.interfaces = [⟨3⟩]
      ∧ ∀ last : List (Event Unit), (q.after last).session.Numbered →
          (q.after last).session.realized? ⟨1⟩ = some t
  := by
  obtain ⟨a, ha, haccepted⟩ : ∃ a, ((empty true).run lonely).units[0]? = some a
      ∧ ((counting none).build.exec (((empty true).run lonely).workspace a)).1
        = .ok [.property ⟨⟨1⟩, 0, some ⟨⟨1⟩, 0⟩, none, none⟩, .method ⟨⟨1⟩, 0⟩] := by
    refine ⟨_, rfl, ?_⟩
    decide +kernel
  have hdeclared : ((((empty true).run lonely).apply (.change 0 (counting none))).decl? ⟨1⟩).map
      (fun d => (d.ancestry, (d.profile.referent?
        (.property ⟨⟨1⟩, 0, some ⟨⟨1⟩, 0⟩, none, none⟩)).map Referent.name))
      = some (⟨none, []⟩, some "Count") := by
    decide +kernel
  have hrelinked : (((empty true).run lonely).apply (.change 0 (counting none))).relinked ⟨1⟩
      revising ⟨none, []⟩
      = ⟨some (.defined ⟨⟨2⟩, .classType⟩), [.defined ⟨⟨3⟩, .interfaceType⟩]⟩ := by
    decide +kernel
  have hfinalizes : ((((empty true).run lonely).apply (.change 0 (counting none))).after
      revising).units[0]?.map (fun b => (Build.finalize.exec
        (((((empty true).run lonely).apply (.change 0 (counting none))).after revising).workspace
          b)).1.toOption.isSome)
      = some true := by
    decide +kernel
  have hnumbered : ((((empty true).run lonely).apply
      (.change 0 (counting none))).after revising).session.Numbered := by
    decide +kernel
  generalize hp : ((empty true).run lonely).apply (.change 0 (counting none)) = p at *
  obtain ⟨b, hb, hsome⟩ := Option.map_eq_some_iff.mp hfinalizes
  cases hfinalized : (Build.finalize.exec ((p.after revising).workspace b)).1 with
  | error e =>
      rw [hfinalized] at hsome
      cases hsome
  | ok unit =>
      obtain ⟨-, d, e, t, r, hd, hr, -, htr, hancestry, hbase, hinterfaces, hstays⟩ :=
        handles_last true lonely ha haccepted List.mem_cons_self hp.symm hnumbered hb hfinalized rfl
      change p.decl? ⟨1⟩ = some d at hd
      rw [hd, Option.map_some, hr] at hdeclared
      obtain ⟨hnone, hname⟩ := Prod.mk.inj (Option.some.inj hdeclared)
      rw [hnone] at hancestry
      obtain ⟨hlastBase, hlastInterfaces⟩ := Ancestry.mk.inj (hancestry.trans hrelinked)
      refine ⟨p, _, d, t, r, rfl, rfl, hd, Option.some.inj hname, hr, htr, ?_, ?_,
        fun last hnumbered => (hstays last hnumbered).2.2⟩
      · rw [hbase, TypeDecl.baseId?, hlastBase]
        rfl
      · rw [hinterfaces, TypeDecl.interfaceIds, hlastInterfaces]
        rfl

end Project

end ManagedCode
