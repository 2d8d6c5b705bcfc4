import ManagedCode.Proofs.Assembly.CircularInheritance

/-!
# Names of realized types

As long as only units work in a session, its registry and its realized types are in step: each
realized type is registered under its full name, and nothing else is (`Session.Registered`).
A name is taken back with its type when a unit is refused, so that this holds after every
history, whichever units have failed.
-/

namespace ManagedCode

variable {ρ : Type}

/-! ## Sessions after a history -/

namespace Workspace

variable {w : Workspace} {new : List RealizedType} {t : RealizedType}

/-- Each type has been laid out when some of the others were realized. -/
theorem Realizes.exists_layout (h : w.Realizes new) (ht : t ∈ new) :
  ∃ before, before <+: new ∧ (w.realizing before).layoutType t.id = .ok t
  := by
  induction h with
  | nil => cases ht
  | @snoc new last d h hd hbuilding hlayout hfree ih =>
      obtain ht | ht := List.mem_append.mp ht
      · obtain ⟨before, hbefore, hlayout⟩ := ih ht
        exact ⟨before, hbefore.trans (List.prefix_append new [last]), hlayout⟩
      · obtain rfl := List.mem_singleton.mp ht
        exact ⟨new, List.prefix_append new [t], hlayout⟩

end Workspace

namespace Project

/-- In a history of operations on units, the host does nothing else. -/
theorem after_eq_run (p : Project) (history : List (Event ρ)) :
  p.after history = p.run (history.map .build)
  := by
  rw [after, run, List.foldl_map]
  rfl

/-- When a unit is finalized, all its types are realized. -/
theorem realized_of_finalized
    {q : Project} (hclosed : q.Closed) (hconsistent : q.Consistent) {i : Nat} {w : Workspace}
    {new : List RealizedType} {unit : FinalizedUnit}
    (hsession : q.session = (w.realizing new).session)
    (hunit : q.units[i]?
      = some { (w.realizing new).assembly with finalized := some unit }) :
  ∀ x d, w.assembly.decl? x = some d → ∃ t, (w.realizing new).session.realized? x = some t
  := by
  intro x d hd
  have hd' : (w.realizing new).assembly.decl? x
      = some (if x ∈ new.map (·.id) then d.asRealized else d) := by
    rw [Workspace.decl?_realizing, hd, Option.map_some]
  have hrealized := (hclosed i _ hunit).realized rfl x _ hd'
  obtain ⟨t, ht, -⟩ := hconsistent.mirrored hunit hd' hrealized
  rw [hsession] at ht
  exact ⟨t, ht⟩

/-- What holds of a new session holds after every history, if handing out a number keeps it, and
so does finalizing a unit, by which all types of the unit are realized. -/
theorem session_induction {P : Session → Prop}
    (verify : Bool) (hempty : P (empty verify).session)
    (hnumber : ∀ {s : Session} {next : Nat}, P s → P { s with nextTypeId := next })
    (hrealizes : ∀ {w : Workspace} {new : List RealizedType}, w.Settled → w.Realizes new →
      (∀ x d, w.assembly.decl? x = some d →
        ∃ t, (w.realizing new).session.realized? x = some t) →
      P w.session → P (w.realizing new).session)
    (history : List (Event ρ)) :
  P ((empty verify).after history).session
  := by
  induction history using List.reverseRecOn with
  | nil => apply hempty
  | append_singleton before e ih =>
      have hclosed := closed_run verify ((before ++ [e]).map .build)
      have hconsistent := (consistent_empty verify).after (before ++ [e])
      rw [← after_eq_run] at hclosed
      rw [after_append] at hclosed hconsistent ⊢
      have hbefore := (consistent_empty verify).after before
      generalize (empty verify).after before = p at *
      cases e with
      | openUnit name => apply ih
      | change i c =>
          rw [apply] at hclosed hconsistent ⊢
          split
          · apply ih
          · next a ha =>
            simp only [ha] at hclosed hconsistent
            change P (c.perform (p.workspace a)).session
            obtain ⟨next, hsession⟩ | ⟨new, unit, hnew, -, heq⟩ :=
              (c.redraws (hbefore.fresh ha)).session
            · rw [hsession]
              apply hnumber ih
            · rw [heq] at hclosed hconsistent ⊢
              apply hrealizes (hbefore.settled ha) hnew _ ih
              apply realized_of_finalized hclosed hconsistent rfl (put_same ha)

end Project

/-! ## The registry -/

/-- An entry is found under its key, if keys are not repeated. -/
theorem lookup_of_nodup
    {α β : Type} [BEq α] [LawfulBEq α] {entries : List (α × β)}
    (hnodup : (entries.map (·.1)).Nodup) {k : α} {b : β} (hmem : (k, b) ∈ entries) :
  entries.lookup k = some b
  := by
  induction entries with
  | nil => cases hmem
  | cons entry entries ih =>
      obtain ⟨k', b'⟩ := entry
      rw [List.map_cons, List.nodup_cons] at hnodup
      rw [List.lookup_cons]
      obtain hfirst | hrest := List.mem_cons.mp hmem
      · cases hfirst
        rw [beq_self_eq_true]
      · have hne : (k == k') = false := by
          apply beq_eq_false_iff_ne.mpr
          rintro rfl
          apply hnodup.1 (List.mem_map.mpr ⟨_, hrest, rfl⟩)
        rw [hne]
        apply ih hnodup.2 hrest

namespace Session

/-- The registry holds the realized types, each under a full name of its own. -/
structure Registered (s : Session) : Prop where
  registry : s.registry = s.types.map fun t => (t.fullName, t.handle)
  names : (s.types.map (·.fullName)).Nodup

variable {s : Session} {name : String} {handle : DefinedType}

theorem Registered.resolveType?_iff (h : s.Registered) :
  s.resolveType? name = some handle ↔ ∃ t ∈ s.types, t.fullName = name ∧ t.handle = handle
  := by
  have hkeys : (s.registry.map (·.1)).Nodup := by
    rw [h.registry, List.map_map]
    exact h.names
  rw [resolveType?]
  constructor
  · intro hfound
    obtain ⟨before, after, hsplit, -⟩ := List.lookup_eq_some_iff.mp hfound
    have hmem : (name, handle) ∈ s.registry := by
      rw [hsplit]
      simp
    rw [h.registry] at hmem
    obtain ⟨t, ht, hentry⟩ := List.mem_map.mp hmem
    obtain ⟨hname, hhandle⟩ := Prod.mk.inj hentry
    exact ⟨t, ht, hname, hhandle⟩
  · rintro ⟨t, ht, rfl, rfl⟩
    apply lookup_of_nodup hkeys
    rw [h.registry]
    exact List.mem_map_of_mem (f := fun t : RealizedType => (t.fullName, t.handle)) ht

end Session

namespace Workspace

variable {w : Workspace} {new : List RealizedType}

/-- A type is realized only under a name that is free. -/
theorem Realizes.registered (hnew : w.Realizes new) (h : w.session.Registered) :
  (w.realizing new).session.Registered
  := by
  induction hnew with
  | nil => simpa [realizing] using h
  | @snoc new t d hnew hd hbuilding hlayout hfree ih =>
      rw [realizing_append]
      generalize w.realizing new = w' at ih hfree
      constructor
      · change w'.session.registry ++ _ = (w'.session.types ++ [t]).map _
        rw [ih.registry, List.map_append]
        rfl
      · change ((w'.session.types ++ [t]).map (·.fullName)).Nodup
        rw [List.map_append]
        apply List.nodup_append.mpr ⟨ih.names, by simp, ?_⟩
        intro name hname other hother
        obtain rfl := List.mem_singleton.mp hother
        obtain ⟨t', ht', rfl⟩ := List.mem_map.mp hname
        apply isRegistered_eq_false.mp hfree (t'.fullName, t'.handle)
        rw [ih.registry]
        apply List.mem_map_of_mem (f := fun t : RealizedType => (t.fullName, t.handle)) ht'

end Workspace

/-- After every history, the registry holds exactly the realized types. -/
theorem Project.registered_after (verify : Bool) (history : List (Event ρ)) :
  ((empty verify).after history).session.Registered
  := by
  apply session_induction verify
  · exact ⟨rfl, List.nodup_nil⟩
  · intro s next h
    exact ⟨h.registry, h.names⟩
  · intro w new _ hnew _ h
    apply hnew.registered h

end ManagedCode
