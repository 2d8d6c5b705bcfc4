import ManagedCode.Proofs.Assembly.Redrawing

/-!
# Lifetimes of sessions

Between operations on units, the host of a session can register names of its own choice and
clear the session.  Whatever it does, units keep their types apart, a unit that is not
finalized has no realized type, and each type of the session is realized as one of the units
declares it (`Project.Sound`).  A unit that is refused when it is to be finalized leaves the
project as it was, and what happens afterwards happens as if it had never been tried
(`Project.refused_finalize`).
-/

namespace ManagedCode

variable {ρ : Type}

/-- What happens in the lifetime of a session. -/
inductive HostEvent (ρ : Type) where
  | build (e : Event ρ)
  | register (fullName : String) (handle : DefinedType)
  | clear

namespace Project

/-- An event of a host, which may also clear the session. -/
def host (p : Project) : HostEvent ρ → Project
  | .build e => p.apply e
  | .register fullName handle =>
    match p.session.register fullName handle with
    | .ok session => { p with session := session }
    | .error _ => p
  | .clear => { p with session := p.session.clear }

/-- The project after all that has happened. -/
def run (p : Project) (history : List (HostEvent ρ)) : Project :=
  history.foldl host p

theorem run_append (p : Project) (before after : List (HostEvent ρ)) :
  p.run (before ++ after) = (p.run before).run after
  :=
  List.foldl_append

/-- What the project turns into by all that happens, unless the session is cleared. -/
inductive Turns (ρ : Type) (p : Project) : Project → Prop where
  | stays : Turns ρ p p
  | opens (name : String) : Turns ρ p { p with units := p.units ++ [.new name] }
  | changes {i : Nat} {a : Assembly} (ha : p.units[i]? = some a) (c : Change ρ) :
      Turns ρ p (p.put i (c.perform (p.workspace a)))
  | registers (registry : List (String × DefinedType)) :
      Turns ρ p { p with session := { p.session with registry := registry } }

/-- An event of the units changes one of them by a turn. -/
theorem turns_apply (p : Project) (e : Event ρ) : p.Turns ρ (p.apply e) := by
  cases e with
  | openUnit name => apply Turns.opens
  | change unit c =>
      rw [apply]
      split
      · apply Turns.stays
      · next a ha => apply Turns.changes ha

/-- The session is cleared, or a unit takes a turn. -/
theorem host_cases (p : Project) (e : HostEvent ρ) :
  (e = .clear ∧ p.host e = { p with session := p.session.clear }) ∨ p.Turns ρ (p.host e)
  := by
  cases e with
  | build e =>
      right
      apply p.turns_apply
  | register fullName handle =>
      right
      unfold Project.host
      dsimp only
      split
      · next session hsession =>
        rw [Session.register] at hsession
        split at hsession
        · cases hsession
        · cases hsession
          apply Turns.registers
      · apply Turns.stays
  | clear => exact .inl ⟨rfl, rfl⟩

end Project

/-! ## What an operation does to numbers and realized types -/

namespace Workspace

variable {w w' : Workspace} {new : List RealizedType}

/-- A changed declaration keeps its id. -/
theorem ids_updated
    (w : Workspace) (id : TypeId) {f : TypeDecl → TypeDecl} (hf : ∀ d, (f d).handle = d.handle) :
  (w.updated id f).assembly.ids = w.assembly.ids
  := by
  have := congrArg (List.map DefinedType.id) (w.assembly.update_handles id hf)
  rw [List.map_map, List.map_map] at this
  apply this

/-- Realization adds no declarations. -/
theorem ids_realizing (w : Workspace) (new : List RealizedType) :
  (w.realizing new).assembly.ids = w.assembly.ids
  := by
  rw [Assembly.ids]
  rw [types_realizing, List.map_map]
  apply List.map_congr_left
  intro d _
  simp only [Function.comp_apply]
  split <;> rfl

/-- Opening a type adds its id. -/
theorem ids_declaring {d : TypeDecl} (hunused : ∀ e ∈ w.assembly.types, e.id ≠ d.id) :
  (w.declaring d).assembly.ids = w.assembly.ids ++ [d.id]
  := by
  have henter : (w.enterType d).assembly.ids = w.assembly.ids ++ [d.id] := by
    rw [Assembly.ids, types_enterType hunused, List.map_append]
    rfl
  rw [declaring]
  split
  · rw [ids_updated, henter]
    intro o
    rfl
  · apply henter

theorem session_declaring (w : Workspace) (d : TypeDecl) :
  (w.declaring d).session = { w.session with nextTypeId := w.session.nextTypeId + 1 }
  := by
  rw [declaring]
  split <;> rfl

/-- An operation keeps the numbers of a unit, or takes the next one. -/
theorem Redraws.numbers (h : w.Redraws w') :
  (w'.assembly.ids = w.assembly.ids ∧ w'.session.nextTypeId = w.session.nextTypeId)
  ∨ (w'.assembly.ids = w.assembly.ids ++ [⟨w.session.nextTypeId⟩]
      ∧ w'.session.nextTypeId = w.session.nextTypeId + 1)
  := by
  cases h with
  | edits h =>
      left
      have hids := congrArg (List.map DefinedType.id) h.handles
      rw [List.map_map, List.map_map] at hids
      exact ⟨hids, congrArg Session.nextTypeId h.session⟩
  | declares d h heq =>
      right
      rw [heq, ids_declaring h.unused, session_declaring, h.fresh]
      exact ⟨rfl, rfl⟩
  | rebases id d given base hd hkind hother hbase heq =>
      left
      rw [heq, rebasing, ids_updated]
      · exact ⟨rfl, rfl⟩
      · intro d
        rfl
  | implements id d interface hd hkind hinterface heq =>
      left
      rw [heq, implementing, ids_updated w id (implementing_handle interface)]
      exact ⟨rfl, rfl⟩
  | realizes new unit h hopen hrun heq =>
      left
      rw [heq]
      exact ⟨ids_realizing w new, rfl⟩

/-- An operation keeps the session apart from the next number, or realizes types. -/
theorem Redraws.session (h : w.Redraws w') :
  (∃ next, w'.session = { w.session with nextTypeId := next })
  ∨ ∃ new unit, w.Realizes new ∧ w.assembly.finalized = none
    ∧ w' = { w.realizing new with
        assembly := { (w.realizing new).assembly with finalized := some unit } }
  := by
  cases h with
  | edits h =>
      left
      rw [h.session]
      exact ⟨_, rfl⟩
  | declares d h heq =>
      left
      rw [heq, session_declaring]
      exact ⟨_, rfl⟩
  | rebases id d given base hd hkind hother hbase heq =>
      left
      rw [heq]
      exact ⟨_, rfl⟩
  | implements id d interface hd hkind hinterface heq =>
      left
      rw [heq]
      exact ⟨_, rfl⟩
  | realizes new unit h hopen hrun heq =>
      right
      exact ⟨new, unit, h, hopen, heq⟩

/-- A unit in which no type is realized. -/
theorem Fresh.settled
    (h : w.Fresh) (hbelow : ∀ x ∈ w.assembly.ids, x.number < w.session.nextTypeId)
    (htaken : ∀ t ∈ w.session.types, t.id.number < w.session.nextTypeId)
    (hopened : w.assembly.Opened) (hopen : w.assembly.finalized = none)
    (hdistinct : (w.session.types.map (·.id)).Nodup) :
  w.Settled
  :=
  { h with
    below := hbelow
    taken := htaken
    mirrored := by
      intro x d hd hrealized
      rw [hopened hopen x d hd] at hrealized
      cases hrealized
    distinct := hdistinct }

/-- A unit of which types have been realized. -/
theorem Settled.realizing (h : w.Settled) (hnew : w.Realizes new) : (w.realizing new).Settled := by
  have hfollows := hnew.follows h
  have hfresh : (w.realizing new).Fresh := by
    refine ⟨hfollows.nodup, fun d hd => unused_of_below hfollows.below hd, ?_⟩
    intro d hd hbuilding t ht hid
    have hdecl : (w.realizing new).assembly.decl? t.id = some d := by
      rw [hid, Assembly.decl?]
      apply find?_of_nodup hfollows.nodup hd
    obtain ht | ⟨d', hd', hrealized⟩ := hfollows.origin t ht
    · rw [decl?_realizing] at hdecl
      obtain ⟨d₀, hd₀, rfl⟩ := Option.map_eq_some_iff.mp hdecl
      have hstate : d₀.state = .building := by
        split at hbuilding
        · cases hbuilding
        · apply hbuilding
      apply h.not_realized hd₀ hstate t ht rfl
    · rw [hdecl] at hd'
      cases hd'
      rw [hbuilding] at hrealized
      cases hrealized
  exact
    { hfresh with
      below := hfollows.below
      taken := by
        intro t ht
        obtain ht | ⟨d, hd, -⟩ := hfollows.origin t ht
        · apply h.taken t ht
        · apply hfollows.below t.id (Assembly.mem_ids hd)
      mirrored := hfollows.mirrored
      distinct := hfollows.distinct }

end Workspace

/-! ## Sound projects -/

namespace Project

/-- Units keep their types apart and have regular declarations, an open unit has no realized
type, and each type of the session is realized as a unit declares it. -/
structure Sound (p : Project) : Prop where
  nodup : ∀ {i : Nat} {a : Assembly}, p.units[i]? = some a → a.ids.Nodup
  disjoint : ∀ {i j : Nat} {a b : Assembly}, p.units[i]? = some a → p.units[j]? = some b →
    i ≠ j → ∀ x ∈ a.ids, x ∉ b.ids
  below : ∀ {i : Nat} {a : Assembly}, p.units[i]? = some a →
    ∀ x ∈ a.ids, x.number < p.session.nextTypeId
  opened : ∀ {i : Nat} {a : Assembly}, p.units[i]? = some a → a.Opened
  regular : ∀ {i : Nat} {a : Assembly}, p.units[i]? = some a → a.Regular
  origin : ∀ t ∈ p.session.types, ∃ (i : Nat) (a : Assembly) (d : TypeDecl),
    p.units[i]? = some a ∧ a.decl? t.id = some d ∧ d.state = .realized ∧ t.Mirrors d
  distinct : (p.session.types.map (·.id)).Nodup

variable {p : Project} {i j : Nat} {a b : Assembly} {w' : Workspace}

/-- The ids that a unit gives out have not been taken, whatever the session has forgotten. -/
theorem Sound.fresh (h : p.Sound) (ha : p.units[i]? = some a) : (p.workspace a).Fresh := by
  refine ⟨h.nodup ha, fun d hd => Workspace.unused_of_below (h.below ha) hd, ?_⟩
  intro d hd hbuilding t ht hid
  obtain ⟨j, b, d', hb, hd', hrealized, -⟩ := h.origin t ht
  by_cases hij : i = j
  · subst hij
    rw [ha] at hb
    cases hb
    rw [hid, Assembly.decl?, find?_of_nodup (h.nodup ha) hd] at hd'
    cases hd'
    rw [hbuilding] at hrealized
    cases hrealized
  · apply h.disjoint ha hb hij t.id _ (Assembly.mem_ids hd')
    rw [hid]
    apply List.mem_map_of_mem hd

theorem Sound.taken (h : p.Sound) : ∀ t ∈ p.session.types, t.id.number < p.session.nextTypeId := by
  intro t ht
  obtain ⟨j, b, d, hb, hd, -⟩ := h.origin t ht
  apply h.below hb t.id (Assembly.mem_ids hd)

/-- What an open unit has finalized is registered in the session. -/
theorem Sound.settled (h : p.Sound) (ha : p.units[i]? = some a) (hopen : a.finalized = none) :
  (p.workspace a).Settled
  :=
  (h.fresh ha).settled (h.below ha) h.taken (h.opened ha) hopen h.distinct

/-- An operation on one unit keeps the numbers of all units apart. -/
theorem Sound.put_ids
    (h : p.Sound) (ha : p.units[i]? = some a) (hw : (p.workspace a).Redraws w') :
  w'.assembly.ids.Nodup
  ∧ (∀ x ∈ w'.assembly.ids, x.number < w'.session.nextTypeId)
  ∧ p.session.nextTypeId ≤ w'.session.nextTypeId
  ∧ ∀ {j : Nat} {b : Assembly}, p.units[j]? = some b → j ≠ i →
      ∀ x ∈ w'.assembly.ids, x ∉ b.ids
  := by
  obtain ⟨hids, hnext⟩ | ⟨hids, hnext⟩ := hw.numbers
  · rw [hids, hnext]
    exact ⟨h.nodup ha, h.below ha, Nat.le_refl _, fun hb hij => h.disjoint ha hb hij.symm⟩
  · have hnew : ∀ {j : Nat} {b : Assembly}, p.units[j]? = some b →
        (⟨p.session.nextTypeId⟩ : TypeId) ∉ b.ids := by
      intro j b hb hmem
      apply Nat.lt_irrefl _ (h.below hb _ hmem)
    rw [hids, hnext]
    refine ⟨?_, ?_, Nat.le_succ _, ?_⟩
    · apply List.nodup_append_comm.mp
      apply List.nodup_cons.mpr ⟨hnew ha, h.nodup ha⟩
    · intro x hx
      obtain hx | hx := List.mem_append.mp hx
      · apply Nat.lt_succ_of_lt (h.below ha x hx)
      · rw [List.mem_singleton.mp hx]
        apply Nat.lt_succ_self
    · intro j b hb hij x hx hmem
      obtain hx | hx := List.mem_append.mp hx
      · apply h.disjoint ha hb hij.symm x hx hmem
      · rw [List.mem_singleton.mp hx] at hmem
        apply hnew hb hmem

/-- The types of a session after an operation on one unit. -/
theorem Sound.put_types
    (h : p.Sound) (ha : p.units[i]? = some a) (hw : (p.workspace a).Redraws w') :
  (∀ t ∈ w'.session.types, t ∈ p.session.types
      ∨ ∃ d, w'.assembly.decl? t.id = some d ∧ d.state = .realized ∧ t.Mirrors d)
  ∧ (w'.session.types.map (·.id)).Nodup
  := by
  obtain ⟨next, hsession⟩ | ⟨new, unit, hnew, hopen, rfl⟩ := hw.session
  · rw [hsession]
    exact ⟨fun t ht => .inl ht, h.distinct⟩
  · have hfollows := hnew.follows (h.settled ha hopen)
    refine ⟨?_, hfollows.distinct⟩
    intro t ht
    obtain ht | ⟨d, hd, hrealized⟩ := hfollows.origin t ht
    · left
      apply ht
    · right
      obtain ⟨t', ht', hmirrors⟩ := hfollows.mirrored hd hrealized
      have hfound : ((p.workspace a).realizing new).session.realized? t.id = some t :=
        find?_of_nodup hfollows.distinct ht
      rw [hfound] at ht'
      cases ht'
      exact ⟨d, hd, hrealized, hmirrors⟩

/-- A project stays sound through a turn of a unit. -/
theorem Sound.put
    (h : p.Sound) (ha : p.units[i]? = some a) (hw : (p.workspace a).Redraws w') :
  (p.put i w').Sound
  := by
  obtain ⟨hnodup, hbelow, hnext, hapart⟩ := h.put_ids ha hw
  obtain ⟨htypes, hdistinct⟩ := h.put_types ha hw
  constructor
  · intro j b hb
    obtain ⟨-, rfl⟩ | ⟨-, hb'⟩ := put_cases ha hb
    · apply hnodup
    · apply h.nodup hb'
  · intro j k b c hb hc hjk x hxb hxc
    obtain ⟨hj, hb'⟩ | ⟨hj, hb'⟩ := put_cases ha hb
    · obtain ⟨hk, hc'⟩ | ⟨hk, hc'⟩ := put_cases ha hc
      · cases hjk (hj.trans hk.symm)
      · rw [hb'] at hxb
        apply hapart hc' hk x hxb hxc
    · obtain ⟨hk, hc'⟩ | ⟨hk, hc'⟩ := put_cases ha hc
      · rw [hc'] at hxc
        apply hapart hb' hj x hxc hxb
      · apply h.disjoint hb' hc' hjk x hxb hxc
  · intro j b hb x hx
    obtain ⟨-, rfl⟩ | ⟨-, hb'⟩ := put_cases ha hb
    · apply hbelow x hx
    · apply Nat.lt_of_lt_of_le (h.below hb' x hx) hnext
  · intro j b hb
    obtain ⟨-, rfl⟩ | ⟨-, hb'⟩ := put_cases ha hb
    · apply hw.opened (h.opened ha)
    · apply h.opened hb'
  · intro j b hb
    obtain ⟨-, rfl⟩ | ⟨-, hb'⟩ := put_cases ha hb
    · apply hw.regular (h.regular ha)
    · apply h.regular hb'
  · intro t ht
    obtain ht | ⟨d, hd, hrealized, hmirrors⟩ := htypes t ht
    · obtain ⟨j, b, d, hb, hd, hrealized, hmirrors⟩ := h.origin t ht
      by_cases hij : j = i
      · subst hij
        rw [ha] at hb
        cases hb
        exact ⟨j, w'.assembly, d, put_same ha, hw.frozen hd hrealized, hrealized, hmirrors⟩
      · exact ⟨j, b, d, (put_other hij).trans hb, hd, hrealized, hmirrors⟩
    · exact ⟨i, w'.assembly, d, put_same ha, hd, hrealized, hmirrors⟩
  · apply hdistinct

theorem sound_empty (verify : Bool) : (empty verify).Sound := by
  constructor <;> intros <;> simp_all [empty]

/-- The units of a project in which one more has been opened. -/
theorem open_cases
    {units : List Assembly} {name : String} (hb : (units ++ [Assembly.new name])[j]? = some b) :
  units[j]? = some b ∨ b = .new name
  := by
  rw [List.getElem?_append] at hb
  split at hb
  · left
    apply hb
  · right
    rw [List.getElem?_singleton] at hb
    split at hb
    · exact (Option.some.inj hb).symm
    · cases hb

/-- A new unit has no types. -/
theorem Sound.open_unit (h : p.Sound) (name : String) :
  Sound { p with units := p.units ++ [.new name] }
  := by
  constructor
  · intro j b hb
    obtain hb | rfl := open_cases hb
    · apply h.nodup hb
    · apply List.nodup_nil
  · intro j k b c hb hc hjk x hxb hxc
    obtain hb | rfl := open_cases hb
    · obtain hc | rfl := open_cases hc
      · apply h.disjoint hb hc hjk x hxb hxc
      · cases hxc
    · cases hxb
  · intro j b hb x hx
    obtain hb | rfl := open_cases hb
    · apply h.below hb x hx
    · cases hx
  · intro j b hb
    obtain hb | rfl := open_cases hb
    · apply h.opened hb
    · rintro - x d ⟨⟩
  · intro j b hb
    obtain hb | rfl := open_cases hb
    · apply h.regular hb
    · rintro x d ⟨⟩
  · intro t ht
    obtain ⟨j, b, d, hb, hd, hrealized, hmirrors⟩ := h.origin t ht
    obtain ⟨hj, -⟩ := List.getElem?_eq_some_iff.mp hb
    exact ⟨j, b, d, by rw [List.getElem?_append_left hj, hb], hd, hrealized, hmirrors⟩
  · apply h.distinct

/-- A project stays sound through an event of its units. -/
theorem Sound.turns {q : Project} (h : p.Sound) (hq : p.Turns ρ q) : q.Sound := by
  cases hq with
  | stays => apply h
  | opens name => apply h.open_unit name
  | changes ha c => apply h.put ha (c.redraws (h.fresh ha))
  | registers registry =>
      exact ⟨h.nodup, h.disjoint, h.below, h.opened, h.regular, h.origin, h.distinct⟩

/-- A project stays sound through every event, clearing included. -/
theorem Sound.host (h : p.Sound) (e : HostEvent ρ) : (p.host e).Sound := by
  obtain ⟨-, hcleared⟩ | hturns := p.host_cases e
  · rw [hcleared]
    refine ⟨h.nodup, h.disjoint, h.below, h.opened, h.regular, ?_, List.nodup_nil⟩
    rintro t ⟨⟩
  · apply h.turns hturns

/-- Whatever happens, the project is sound. -/
theorem Sound.run (h : p.Sound) (history : List (HostEvent ρ)) : (p.run history).Sound := by
  induction history generalizing p with
  | nil => apply h
  | cons e history ih => apply ih (h.host e)

theorem Sound.numbersFit (h : p.Sound) (hnumbered : p.session.Numbered) : p.NumbersFit :=
  numbersFit_of_below hnumbered h.below h.taken

/-- The counter never goes back, not even when the session is cleared. -/
theorem Sound.next_host (h : p.Sound) (e : HostEvent ρ) :
  p.session.nextTypeId ≤ (p.host e).session.nextTypeId
  := by
  obtain ⟨-, hcleared⟩ | hturns := p.host_cases e
  · rw [hcleared]
    apply Nat.le_refl
  · generalize p.host e = q at hturns ⊢
    cases hturns with
    | stays | opens | registers => apply Nat.le_refl
    | changes ha c =>
        obtain ⟨-, -, hnext, -⟩ := h.put_ids ha (c.redraws (h.fresh ha))
        exact hnext

/-- The next number never falls. -/
theorem Sound.next_run (h : p.Sound) (history : List (HostEvent ρ)) :
  p.session.nextTypeId ≤ (p.run history).session.nextTypeId
  := by
  induction history generalizing p with
  | nil => apply Nat.le_refl
  | cons e history ih => exact Nat.le_trans (h.next_host e) (ih (h.host e))

/-- Throughout a lifetime in which fewer than `2 ^ 32 - 1` types are declared, 32 bits hold their
numbers. -/
theorem numbersFit_run
    (verify : Bool) {before history : List (HostEvent ρ)}
    (hnumbered : ((empty verify).run history).session.Numbered) (hbefore : before <+: history) :
  ((empty verify).run before).NumbersFit
  := by
  obtain ⟨later, rfl⟩ := hbefore
  have hsound := (sound_empty verify).run before
  rw [run_append] at hnumbered
  apply hsound.numbersFit
  exact Nat.lt_of_le_of_lt (hsound.next_run later) hnumbered

/-- What holds of the empty project, and is preserved by all that happens to sound projects,
holds throughout the lifetime of a session. -/
theorem run_induction {P : Project → Prop}
    (verify : Bool) (hempty : P (empty verify))
    (hturns : ∀ {p q : Project}, p.Sound → P p → p.Turns ρ q → P q)
    (hclear : ∀ {p : Project}, P p → P { p with session := p.session.clear })
    (history : List (HostEvent ρ)) :
  P ((empty verify).run history)
  := by
  have hrun : ∀ {p : Project}, p.Sound → P p → P (p.run history) := by
    induction history with
    | nil =>
        intro p _ h
        apply h
    | cons e history ih =>
        intro p hsound h
        apply ih (hsound.host e)
        obtain ⟨-, hcleared⟩ | hnext := p.host_cases e
        · rw [hcleared]
          apply hclear h
        · apply hturns hsound h hnext
  apply hrun (sound_empty verify) hempty

/-! ## A unit that is refused -/

/-- A unit that is finalized answers with what it has been sealed to. -/
theorem exec_finalize_again {w : Workspace} {unit : FinalizedUnit} (h : w.assembly.finalized = some unit) :
  Build.finalize.exec w = (.ok unit, w)
  := by
  rw [Build.finalize]
  rw [exec_bind, exec_get]
  dsimp only
  rw [h]
  rfl

theorem put_self (ha : p.units[i]? = some a) : p.put i (p.workspace a) = p := by
  obtain ⟨hi, rfl⟩ := List.getElem?_eq_some_iff.mp ha
  rw [put]
  simp [workspace]

/-- When a unit is refused, at whatever type, the project stays as it was: the names and the
realized types of the session, and all units with all their declarations.  The unit is not
finalized, and all that happens later happens as if it had not been tried.  The history declares
fewer than `2 ^ 32 - 1` types, so that 32 bits tell their ids apart. -/
theorem refused_finalize
    (verify : Bool) (history : List (HostEvent ρ)) {i : Nat} {a : Assembly} {e : BuildError}
    (hnumbered : ((empty verify).run history).session.Numbered)
    (ha : ((empty verify).run history).units[i]? = some a)
    (hrefused : (Build.finalize.exec (((empty verify).run history).workspace a)).1 = .error e) :
  (∀ before, before <+: history → ((empty verify).run before).NumbersFit)
  ∧ ((empty verify).run history).apply (.change i .finalize : Event ρ) = (empty verify).run history
  ∧ a.finalized = none
  ∧ ∀ later : List (HostEvent ρ),
      (empty verify).run (history ++ .build (.change i .finalize) :: later)
        = (empty verify).run (history ++ later)
  := by
  have hsound := (sound_empty verify).run history
  refine ⟨fun before => numbersFit_run verify hnumbered, ?_⟩
  clear hnumbered
  generalize hp : (empty verify).run history = p at *
  have hsame : (Build.finalize.exec (p.workspace a)).2 = p.workspace a := by
    obtain hsame | ⟨new, unit, -, -, hexec⟩ := Build.finalize_outcome (hsound.fresh ha)
    · apply hsame
    · rw [hexec] at hrefused
      cases hrefused
  have hstays : p.apply (.change i .finalize : Event ρ) = p := by
    rw [apply]
    rw [ha]
    change p.put i (Build.finalize.exec (p.workspace a)).2 = p
    rw [hsame, put_self ha]
  refine ⟨hstays, ?_, ?_⟩
  · cases hfinalized : a.finalized with
    | none => rfl
    | some unit =>
        rw [exec_finalize_again hfinalized] at hrefused
        cases hrefused
  · intro later
    rw [run_append, run_append, hp]
    change (p.apply (.change i .finalize : Event ρ)).run later = _
    rw [hstays]

/-- A unit with two types, the second of which has a name that the host has registered
meanwhile. -/
def clashing : List (HostEvent Unit) :=
  [ .build (.openUnit "A"),
    .build (.change 0 (.declareType "P" .classType {} none)),
    .build (.change 0 (.declareType "Q" .classType {} none)),
    .register "Q" ⟨⟨7⟩, .classType⟩]

/-- The first type is realized and taken back; the name of the host stays. -/
theorem refused_clashing :
  ∃ a, ((empty true).run clashing).units[0]? = some a
    ∧ (Build.finalize.exec (((empty true).run clashing).workspace a)).1
        = .error (.duplicateType "Q")
    ∧ (((empty true).run clashing).apply (.change 0 .finalize : Event Unit)).session.registry
        = [("Q", ⟨⟨7⟩, .classType⟩)]
    ∧ a.finalized = none
  := by
  obtain ⟨a, ha, hrefused⟩ : ∃ a, ((empty true).run clashing).units[0]? = some a
      ∧ (Build.finalize.exec (((empty true).run clashing).workspace a)).1
        = .error (.duplicateType "Q") := by
    refine ⟨_, rfl, ?_⟩
    decide +kernel
  obtain ⟨-, hsame, hopen, -⟩ := refused_finalize true clashing (by decide +kernel) ha hrefused
  refine ⟨a, ha, hrefused, ?_, hopen⟩
  rw [hsame]
  decide +kernel

end Project

end ManagedCode
