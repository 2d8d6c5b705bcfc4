import ManagedCode.Assembly.Finalize
import ManagedCode.Proofs.Assembly.Layout
import Mathlib.Data.List.Induction
import Mathlib.Data.List.Nodup

/-!
# Finalizing

Finalizing realizes the types of a unit one after another: `Workspace.realizing` is a
workspace after some of them, and `Workspace.Realizes` says that each was laid out behind
those before it.  That a unit is finalized means that this has gone on to the end; when
a type is refused, the types realized before it are taken back, and nothing is left.
-/

namespace ManagedCode

/-- The first entry with a key is the only one, if keys are not repeated. -/
theorem find?_of_nodup
    {α β : Type} [BEq β] [LawfulBEq β] {key : α → β} {xs : List α} (hnodup : (xs.map key).Nodup)
    {x : α} (hx : x ∈ xs) :
  xs.find? (key · == key x) = some x
  := by
  cases hfound : xs.find? (key · == key x) with
  | none =>
      have := List.find?_eq_none.mp hfound x hx
      simp at this
  | some y =>
      have hkey : key y = key x := by simpa using List.find?_some hfound
      rw [List.inj_on_of_nodup_map hnodup (List.mem_of_find?_eq_some hfound) hx hkey]

/-- A declaration that has its final layout. -/
def TypeDecl.asRealized (d : TypeDecl) : TypeDecl :=
  { d with state := .realized }

theorem RealizedType.Mirrors.of_asRealized
    {t : RealizedType} {d : TypeDecl} (h : t.Mirrors d.asRealized) :
  t.Mirrors d
  :=
  ⟨h.handle, h.fullName, h.base, h.methods, h.overrides⟩

theorem RealizedType.Mirrors.asRealized
    {t : RealizedType} {d : TypeDecl} (h : t.Mirrors d) :
  t.Mirrors d.asRealized
  :=
  ⟨h.handle, h.fullName, h.base, h.methods, h.overrides⟩

namespace Workspace

/-- A workspace in which types of the unit have been realized, in order. -/
def realizing (w : Workspace) (new : List RealizedType) : Workspace :=
  { session :=
      { w.session with
        types := w.session.types ++ new
        registry := w.session.registry ++ new.map fun t => (t.fullName, t.handle) }
    assembly := new.foldl (fun a t => a.update t.id (·.asRealized)) w.assembly }

/-- Types of a unit have been laid out one after another, each in the workspace in which
those before it are realized. -/
inductive Realizes (w : Workspace) : List RealizedType → Prop
  | nil : Realizes w []
  | snoc {new : List RealizedType} {t : RealizedType} {d : TypeDecl} (h : Realizes w new)
      (hd : w.assembly.decl? t.id = some d) (hbuilding : d.state = .building)
      (hlayout : (w.realizing new).layoutType t.id = .ok t)
      (hfree : (w.realizing new).session.isRegistered t.fullName = false) :
      Realizes w (new ++ [t])

variable {w : Workspace} {new : List RealizedType}

/-- One type more is realized. -/
theorem realizing_append (w : Workspace) (new : List RealizedType) (t : RealizedType) :
  w.realizing (new ++ [t])
    = { session :=
          { (w.realizing new).session with
            types := (w.realizing new).session.types ++ [t]
            registry := (w.realizing new).session.registry ++ [(t.fullName, t.handle)] }
        assembly := (w.realizing new).assembly.update t.id (·.asRealized) }
  := by
  simp [realizing]

/-- Realization changes the states of declarations and nothing else. -/
theorem types_realizing (w : Workspace) (new : List RealizedType) :
  (w.realizing new).assembly.types
    = w.assembly.types.map fun d => if d.id ∈ new.map (·.id) then d.asRealized else d
  := by
  induction new using List.reverseRecOn with
  | nil => simp [realizing]
  | append_singleton new t ih =>
      rw [realizing_append]
      simp only [Assembly.update, ih, List.map_map]
      apply List.map_congr_left
      intro d _
      have hrealized : d.asRealized.id = d.id := rfl
      have htwice : d.asRealized.asRealized = d.asRealized := rfl
      simp only [Function.comp_apply, List.map_append, List.mem_append, List.map_cons,
        List.map_nil, List.mem_singleton, beq_iff_eq]
      by_cases hmem : d.id ∈ new.map (·.id)
      · simp only [hmem, if_true, true_or, htwice, ite_self]
      · simp only [hmem, if_false, false_or]

/-- A declaration is found as before, and is realized if it is among the types. -/
theorem decl?_realizing (w : Workspace) (new : List RealizedType) (x : TypeId) :
  (w.realizing new).assembly.decl? x
    = (w.assembly.decl? x).map fun d => if x ∈ new.map (·.id) then d.asRealized else d
  := by
  have hid : ∀ d : TypeDecl, (if d.id ∈ new.map (·.id) then d.asRealized else d).id = d.id := by
    intro d
    split <;> rfl
  unfold Assembly.decl?
  rw [types_realizing, List.find?_map]
  simp only [Function.comp_def, hid]
  cases hd : w.assembly.types.find? (·.id == x) with
  | none => rfl
  | some d =>
      have hx : d.id = x := Assembly.decl?_id hd
      simp only [Option.map_some, hx]

/-- Each realized type comes from a declaration that was open before. -/
theorem Realizes.decl (h : w.Realizes new) {t : RealizedType} (ht : t ∈ new) :
  ∃ d, w.assembly.decl? t.id = some d ∧ d.state = .building ∧ t.Mirrors d
  := by
  induction h with
  | nil => cases ht
  | snoc h hd hbuilding hlayout hfree ih =>
      obtain ht | ht := List.mem_append.mp ht
      · apply ih ht
      · obtain rfl := List.mem_singleton.mp ht
        obtain ⟨d', -, hd', hmirrors, -⟩ := layoutType_ok hlayout
        rw [decl?_realizing, hd] at hd'
        refine ⟨_, hd, hbuilding, ?_⟩
        obtain rfl := Option.some.inj hd'
        split at hmirrors
        · apply hmirrors.of_asRealized
        · apply hmirrors

/-- A name is free if no type in the session has it. -/
theorem isRegistered_eq_false {s : Session} {fullName : String} :
  s.isRegistered fullName = false ↔ ∀ p ∈ s.registry, p.1 ≠ fullName
  := by
  simp only [Session.isRegistered, Session.resolveType?, Option.isSome_eq_false_iff,
    Option.isNone_iff_eq_none, List.lookup_eq_none_iff, bne_iff_ne, ne_comm]

/-- No type is realized twice.  A type of the same number would be the same declaration, whose name
is taken. -/
theorem Realizes.nodup (h : w.Realizes new) :
  (new.map (·.id)).Nodup
  := by
  induction h with
  | nil => simp
  | @snoc new t d h hd hbuilding hlayout hfree ih =>
      rw [List.map_append, List.nodup_append]
      refine ⟨ih, by simp, ?_⟩
      intro x hx y hy hxy
      obtain ⟨t', ht', hid⟩ := List.mem_map.mp hx
      obtain rfl : y = t.id := by simpa using hy
      obtain ⟨d', hd', -, hmirrors⟩ := h.decl ht'
      obtain ⟨d'', hd'', -, hlast⟩ := (Realizes.snoc h hd hbuilding hlayout hfree).decl
        (List.mem_append_right new (List.mem_singleton_self t))
      rw [hid, hxy, hd''] at hd'
      obtain rfl := Option.some.inj hd'
      apply isRegistered_eq_false.mp hfree (t'.fullName, t'.handle)
      · apply List.mem_append_right
        apply List.mem_map_of_mem ht'
      · change t'.fullName = t.fullName
        rw [hmirrors.fullName, hlast.fullName]

/-- The last type has been laid out when all before it were realized. -/
theorem Realizes.last {t : RealizedType} (h : w.Realizes (new ++ [t])) :
  w.Realizes new ∧ ∃ d, w.assembly.decl? t.id = some d ∧ d.state = .building
    ∧ (w.realizing new).layoutType t.id = .ok t
    ∧ (w.realizing new).session.isRegistered t.fullName = false
  := by
  generalize hl : new ++ [t] = l at h
  cases h with
  | nil => simp at hl
  | snoc h hd hbuilding hlayout hfree =>
      obtain ⟨rfl, hlast⟩ := List.append_inj' hl rfl
      obtain rfl := List.singleton_inj.mp hlast
      exact ⟨h, _, hd, hbuilding, hlayout, hfree⟩

/-! ## Fresh units -/

/-- The types of a unit have numbers of their own, none of them the next number of the session, and
none that is open has been realized. -/
structure Fresh (w : Workspace) : Prop where
  nodup : (w.assembly.types.map (·.id)).Nodup
  unused : ∀ d ∈ w.assembly.types, d.id ≠ ⟨w.session.nextTypeId⟩
  unrealized : ∀ d ∈ w.assembly.types, d.state = .building →
    ∀ t ∈ w.session.types, t.id ≠ d.id

/-- No realized type has the id of a declaration under construction. -/
theorem Fresh.not_realized
    (hfresh : w.Fresh) {x : TypeId} {d : TypeDecl} (hd : w.assembly.decl? x = some d)
    (hbuilding : d.state = .building) :
  ∀ t ∈ w.session.types, t.id ≠ x
  := by
  intro t ht
  rw [← Assembly.decl?_id hd]
  apply hfresh.unrealized d (List.mem_of_find?_eq_some hd) hbuilding t ht

/-- The declaration of a number is the only one. -/
theorem Fresh.decl_unique
    (hfresh : w.Fresh) {d : TypeDecl} (hd : d ∈ w.assembly.types) :
  w.assembly.decl? d.id = some d
  :=
  find?_of_nodup hfresh.nodup hd

/-- The type that is realized last has not been realized before. -/
theorem Realizes.last_unrealized
    {t : RealizedType} (h : w.Realizes (new ++ [t])) (hfresh : w.Fresh) :
  ∀ t' ∈ (w.realizing new).session.types, t'.id ≠ t.id
  := by
  obtain ⟨-, d, hd, hbuilding, -⟩ := h.last
  have hnodup := h.nodup
  rw [List.map_append, List.nodup_append] at hnodup
  intro t' ht'
  obtain ht' | ht' := List.mem_append.mp ht'
  · apply hfresh.not_realized hd hbuilding t' ht'
  · apply hnodup.2.2 _ (List.mem_map_of_mem ht') _ (by simp)

end Workspace

/-! ## The visit of the types -/

namespace Realize

open Workspace

/-- A question changes nothing. -/
theorem exec_ask (f : Workspace → Except BuildError α) (r : Realization) :
  (ask f).exec r = (f r.workspace, r)
  := by
  rw [ask]
  rw [exec_bind, exec_get]
  dsimp only
  cases f r.workspace <;> rfl

/-- How far a unit has been realized. -/
def Progress (w : Workspace) (r : Realization) : Prop :=
  ∃ new, w.Realizes new ∧ r.workspace = w.realizing new ∧ r.done = new.map (·.handle)

variable {w : Workspace}

theorem keeps_ask (P : Realization → Prop) (f : Workspace → Except BuildError α) :
  Keeps P (ask f)
  := by
  intro r hr
  rw [exec_ask]
  apply hr

theorem layoutType_id {id : TypeId} {t : RealizedType} (h : w.layoutType id = .ok t) :
  t.id = id
  := by
  obtain ⟨d, -, hd, hmirrors, -⟩ := layoutType_ok h
  rw [← Assembly.decl?_id hd]
  apply congrArg DefinedType.id hmirrors.handle

/-- The name of a type that is entered was free. -/
theorem isRegistered_of_install {s s' : Session} {t : RealizedType} (h : s.install t = .ok s') :
  s.isRegistered t.fullName = false
  := by
  obtain ⟨s₁, hs₁, -⟩ := exists_of_bind_ok h
  rw [Session.register] at hs₁
  split at hs₁
  · cases hs₁
  · next hfree => simpa using hfree

/-- A type that is entered under a number without a realized type replaces none. -/
theorem install_ok
    {s s' : Session} {t : RealizedType} (hunrealized : ∀ t' ∈ s.types, t'.id ≠ t.id)
    (h : s.install t = .ok s') :
  s' =
    { s with
      types := s.types ++ [t]
      registry := s.registry ++ [(t.fullName, t.handle)] }
  := by
  have hfree := isRegistered_of_install h
  have hkept : s.types.filter (·.id != t.id) = s.types := by
    apply List.filter_eq_self.mpr
    intro t' ht'
    exact bne_iff_ne.mpr (hunrealized t' ht')
  rw [Session.install, Session.register, hfree] at h
  cases h
  simp only [hkept]

/-- A type that is installed is one more that is realized. -/
theorem install_keeps
    (hfresh : w.Fresh) {id : TypeId} {d : TypeDecl} (hd : w.assembly.decl? id = some d)
    (hbuilding : d.state = .building) :
  Keeps (Progress w) (install id)
  := by
  intro r hr
  obtain ⟨new, hnew, hworkspace, hdone⟩ := hr
  rw [install]
  rw [exec_bind, exec_ask]
  cases hlayout : r.workspace.layoutType id with
  | error e => exact ⟨new, hnew, hworkspace, hdone⟩
  | ok t =>
      dsimp only
      rw [exec_bind, exec_ask]
      cases hinstall : r.workspace.session.install t with
      | error e => exact ⟨new, hnew, hworkspace, hdone⟩
      | ok session =>
          obtain rfl := layoutType_id hlayout
          rw [hworkspace] at hlayout hinstall
          have hnext : w.Realizes (new ++ [t]) :=
            .snoc hnew hd hbuilding hlayout (isRegistered_of_install hinstall)
          obtain rfl := install_ok (hnext.last_unrealized hfresh) hinstall
          refine ⟨new ++ [t], hnext, ?_, ?_⟩
          · rw [realizing_append]
            simp only [exec_modify, hworkspace]
            rfl
          · simp [hdone]

/-- What each visit keeps is kept when nested types are visited. -/
theorem visitNested_keeps
    {P : Realization → Prop} {visit : TypeId → Realize Unit} (hvisit : ∀ id, Keeps P (visit id))
    (outer : TypeId) (ids : List TypeId) :
  Keeps P (visitNested visit outer ids)
  := by
  induction ids with
  | nil => apply keeps_pure
  | cons inner rest ih =>
      apply keeps_bind (keeps_ask P _)
      intro deferred
      have hrest : Keeps P (do
          let others ← visitNested visit outer rest
          return if deferred then inner :: others else others) := by
        apply keeps_bind ih
        intro others
        apply keeps_pure
      cases deferred with
      | true => apply hrest
      | false =>
          apply keeps_bind (hvisit inner)
          intro _
          apply hrest

/-- A visit realizes types and does nothing else, on success and on failure.  What is open during
the visit has been open before. -/
theorem realize_keeps (hfresh : w.Fresh) (fuel : Nat) (id : TypeId) :
  Keeps (Progress w) (realize fuel id)
  := by
  induction fuel generalizing id with
  | zero => apply keeps_pure
  | succ fuel ih =>
      intro r hr
      rw [realize]
      rw [exec_bind, exec_get]
      dsimp only
      split
      · apply hr
      · next d hd =>
        split
        · apply hr
        · next hrealized =>
          split
          · apply hr
          · obtain ⟨new, hnew, hworkspace, hdone⟩ := hr
            rw [hworkspace, decl?_realizing] at hd
            obtain ⟨d', hd', hopen⟩ := Option.map_eq_some_iff.mp hd
            have hbuilding : d'.state = .building := by
              split at hopen
              · subst hopen
                simp [TypeDecl.isRealized, TypeDecl.asRealized] at hrealized
              · subst hopen
                apply TypeDecl.state_of_not_realized hrealized
            have hrest : Keeps (Progress w) (do
                (d.baseId?.toList ++ d.interfaceIds).forM (realize fuel)
                let deferred ← visitNested (realize fuel) id d.nested
                install id
                deferred.forM (realize fuel)) := by
              apply keeps_bind (keeps_forM fun id _ => ih id)
              intro _
              apply keeps_bind (visitNested_keeps ih id d.nested)
              intro deferred
              apply keeps_bind (install_keeps hfresh hd' hbuilding)
              intro _
              apply keeps_forM fun id _ => ih id
            rw [exec_bind]
            apply hrest
            exact ⟨new, hnew, hworkspace, hdone⟩

end Realize

/-! ## Taking realized types back -/

theorem Assembly.update_eq_self
    {a : Assembly} {x : TypeId} {f : TypeDecl → TypeDecl} (hf : ∀ d ∈ a.types, d.id = x → f d = d) :
  a.update x f = a
  := by
  have htypes : (a.types.map fun d => if d.id == x then f d else d) = a.types.map id := by
    apply List.map_congr_left
    intro d hd
    split
    · next hid => apply hf d hd (by simpa using hid)
    · rfl
  rw [Assembly.update]
  rw [htypes, List.map_id]

namespace Workspace

variable {w : Workspace} {new : List RealizedType}

/-- A workspace in which one type has been taken back. -/
def reopen (w : Workspace) (x : TypeId) : Workspace :=
  { session := w.session.uninstall x
    assembly := w.assembly.update x fun d => { d with state := .building } }

/-- Taking back the type that has been realized last. -/
theorem reopen_last (hfresh : w.Fresh) {t : RealizedType} (h : w.Realizes (new ++ [t])) :
  (w.realizing (new ++ [t])).reopen t.id = w.realizing new
  := by
  have hother := h.last_unrealized hfresh
  obtain ⟨hnew, d, hd, hbuilding, -, hfree⟩ := h.last
  have hnodup := h.nodup
  rw [List.map_append, List.nodup_append] at hnodup
  have hopen : ∀ d' ∈ (w.realizing new).assembly.types, d'.id = t.id → d'.state = .building := by
    intro d' hd' hid
    rw [types_realizing] at hd'
    obtain ⟨d₀, hd₀, rfl⟩ := List.mem_map.mp hd'
    have hnotin : d₀.id ∉ new.map (·.id) := by
      intro hin
      rw [if_pos hin] at hid
      apply hnodup.2.2 _ hin t.id (by simp) hid
    rw [if_neg hnotin] at hid ⊢
    have := hfresh.decl_unique hd₀
    rw [hid, hd] at this
    rw [← Option.some.inj this, hbuilding]
  rw [realizing_append]
  generalize w.realizing new = w' at hfree hother hopen
  rw [reopen]
  congr 1
  · have hfind : (w'.session.types ++ [t]).find? (·.id == t.id) = some t := by
      rw [List.find?_append, List.find?_eq_none.mpr (by simpa using hother)]
      simp
    have htypes : (w'.session.types ++ [t]).filter (·.id != t.id) = w'.session.types := by
      rw [List.filter_append, List.filter_eq_self.mpr (by simpa using hother)]
      simp
    have hregistry : (w'.session.registry ++ [(t.fullName, t.handle)]).filter (·.1 != t.fullName)
        = w'.session.registry := by
      rw [List.filter_append,
        List.filter_eq_self.mpr (by simpa using isRegistered_eq_false.mp hfree)]
      simp
    simp only [Session.uninstall, Session.realized?, hfind, htypes, hregistry]
  · rw [Assembly.update_update _ _ TypeDecl.asRealized fun _ => rfl]
    apply Assembly.update_eq_self
    intro d' hd' hid
    rw [← hopen d' hd' hid]
    rfl

/-- Taking back all types that have been realized leaves nothing of them. -/
theorem withdraw_realizing (hfresh : w.Fresh) (h : w.Realizes new) :
  (w.realizing new).withdraw (new.map (·.handle)) = w
  := by
  induction new using List.reverseRecOn with
  | nil => simp [withdraw, realizing]
  | append_singleton new t ih =>
      calc (w.realizing (new ++ [t])).withdraw ((new ++ [t]).map (·.handle))
          = ((w.realizing (new ++ [t])).reopen t.id).withdraw (new.map (·.handle)) := by
            rw [withdraw]
            rw [List.map_append, List.reverse_append]
            rfl
        _ = (w.realizing new).withdraw (new.map (·.handle)) := by rw [reopen_last hfresh h]
        _ = w := ih h.last.1

end Workspace

/-- Finalizing realizes the types of the unit, or changes nothing. -/
theorem Build.finalize_outcome {w : Workspace} (hfresh : w.Fresh) :
  ((finalize.exec w).2 = w)
  ∨ ∃ new unit, w.Realizes new ∧ w.assembly.finalized = none
    ∧ finalize.exec w = (.ok unit,
        { w.realizing new with
          assembly := { (w.realizing new).assembly with finalized := some unit } })
  := by
  rw [finalize]
  rw [exec_bind, exec_get]
  dsimp only
  split
  · left
    rfl
  · next hopen =>
    have hkeeps : Keeps (Realize.Progress w)
        (w.assembly.topLevel.forM (Realize.realize (w.assembly.types.length + 1))) :=
      keeps_forM fun id _ => Realize.realize_keeps hfresh _ id
    obtain ⟨new, hnew, hworkspace, hdone⟩ :=
      hkeeps { workspace := w } ⟨[], .nil, by simp [Workspace.realizing], rfl⟩
    rw [ExceptT.exec] at hworkspace hdone
    split
    · next e r hrun =>
      left
      rw [hrun] at hworkspace hdone
      rw [exec_bind, exec_set]
      simp only at hworkspace hdone
      rw [hworkspace, hdone, Workspace.withdraw_realizing hfresh hnew]
      rfl
    · next r hrun =>
      right
      rw [hrun] at hworkspace hdone
      simp only at hworkspace hdone
      rw [exec_bind, exec_set, hworkspace]
      exact ⟨new, _, hnew, hopen, rfl⟩

end ManagedCode
