import ManagedCode.Proofs.Assembly.Lifetimes
import ManagedCode.Proofs.Assembly.Slots

/-!
# Layers of realized types

The types of a session lie on top of each other: each was laid out when those before it were
realized, from the declaration that its unit still has (`Layered`).  What a method is linked
to is declared as a virtual method, in whichever unit (`Project.Anchored`).
-/

namespace ManagedCode

variable {ρ : Type}

/-- Each type has been laid out in a workspace whose session had the types before it, from a
declaration that has been kept. -/
inductive Layered (verify : Bool) (decls : TypeId → Option TypeDecl) : List RealizedType → Prop
  | nil : Layered verify decls []
  | snoc {w : Workspace} {t : RealizedType} {d : TypeDecl}
      (h : Layered verify decls w.session.types) (hsettled : w.Settled)
      (hverify : w.session.verifyImplementations = verify)
      (hd : w.assembly.decl? t.id = some d) (hbuilding : d.state = .building)
      (hdecl : decls t.id = some d.asRealized)
      (hkept : ∀ x d', w.assembly.decl? x = some d' → d'.state = .realized → decls x = some d')
      (hlayout : w.layoutType t.id = .ok t) :
      Layered verify decls (w.session.types ++ [t])

variable {verify : Bool} {decls decls' : TypeId → Option TypeDecl} {ts : List RealizedType}

theorem Layered.mono
    (h : Layered verify decls ts)
    (hdecls : ∀ x d, decls x = some d → d.state = .realized → decls' x = some d) :
  Layered verify decls' ts
  := by
  induction h with
  | nil => exact .nil
  | snoc h hsettled hverify hd hbuilding hdecl hkept hlayout ih =>
      apply Layered.snoc ih hsettled hverify hd hbuilding (hdecls _ _ hdecl rfl) _ hlayout
      intro x d' hd' hrealized
      apply hdecls x d' (hkept x d' hd' hrealized) hrealized

theorem Layered.tabled (h : Layered verify decls ts) : Tabled ts := by
  induction h with
  | nil => exact ⟨by simp, by simp⟩
  | snoc h hsettled hverify hd hbuilding hdecl hkept hlayout ih => apply ih.snoc hlayout

theorem Layered.distinct (h : Layered verify decls ts) : (ts.map (·.id)).Nodup := by
  induction h with
  | nil => exact List.nodup_nil
  | snoc h hsettled hverify hd hbuilding hdecl hkept hlayout ih =>
      rw [List.map_append]
      apply List.nodup_append.mpr ⟨ih, by simp, ?_⟩
      intro x hx y hy hxy
      obtain ⟨t', ht', rfl⟩ := List.mem_map.mp hx
      obtain rfl := List.mem_singleton.mp hy
      apply hsettled.not_realized hd hbuilding t' ht' hxy

/-- A type of the session is found under its number. -/
theorem Layered.find (h : Layered verify decls ts) {t : RealizedType} (ht : t ∈ ts) :
  ts.find? (·.id == t.id) = some t
  :=
  find?_of_nodup h.distinct ht

/-- A realized type has the place, the base, the interfaces and the methods of its
declaration. -/
theorem Layered.mirrors (h : Layered verify decls ts) {t : RealizedType} (ht : t ∈ ts) :
  ∃ d, decls t.id = some d ∧ d.state = .realized ∧ t.Mirrors d ∧ t.interfaces = d.interfaceIds
  := by
  induction h with
  | nil => cases ht
  | @snoc w t' d h hsettled hverify hd hbuilding hdecl hkept hlayout ih =>
      obtain ht | ht := List.mem_append.mp ht
      · apply ih ht
      · obtain rfl := List.mem_singleton.mp ht
        obtain ⟨d', base, hd', hmirrors, -⟩ := Workspace.layoutType_ok hlayout
        rw [hd] at hd'
        cases hd'
        refine ⟨_, hdecl, rfl, hmirrors.asRealized, ?_⟩
        apply Workspace.layoutType_interfaces hlayout hd

namespace Workspace

variable {w : Workspace} {new : List RealizedType}

/-- What finalizing adds to a session lies on top of it. -/
theorem Realizes.layered
    (hnew : w.Realizes new) (hsettled : w.Settled) (hopened : w.assembly.Opened)
    (hopen : w.assembly.finalized = none)
    (hdecls : ∀ t ∈ new, ∀ d, w.assembly.decl? t.id = some d → decls t.id = some d.asRealized)
    (h : Layered w.session.verifyImplementations decls w.session.types) :
  Layered w.session.verifyImplementations decls (w.realizing new).session.types
  := by
  induction hnew with
  | nil =>
      change Layered _ decls (w.session.types ++ [])
      rwa [List.append_nil]
  | @snoc new t d hnew hd hbuilding hlayout hfree ih =>
      have hlast := (Realizes.snoc hnew hd hbuilding hlayout hfree).nodup
      rw [List.map_append, List.nodup_append] at hlast
      have hnot : t.id ∉ new.map (·.id) := fun hmem => hlast.2.2 _ hmem t.id (by simp) rfl
      rw [realizing_append]
      apply Layered.snoc (ih fun t' ht' => hdecls t' (List.mem_append_left _ ht'))
        (hsettled.realizing hnew) rfl _ hbuilding (hdecls t (by simp) d hd) _ hlayout
      · rw [decl?_realizing, hd, Option.map_some, if_neg hnot]
      · intro x d' hd' hrealized
        rw [decl?_realizing] at hd'
        obtain ⟨d₀, hd₀, rfl⟩ := Option.map_eq_some_iff.mp hd'
        split
        · next hmem =>
          obtain ⟨t', ht', rfl⟩ := List.mem_map.mp hmem
          apply hdecls t' (List.mem_append_left _ ht') d₀ hd₀
        · next hmem =>
          rw [if_neg hmem, hopened hopen x d₀ hd₀] at hrealized
          cases hrealized

end Workspace

/-! ## Declarations of all units -/

namespace Project

/-- The declaration of a type, in whichever unit. -/
def decl? (p : Project) (x : TypeId) : Option TypeDecl :=
  p.units.findSome? (·.decl? x)

variable {p : Project} {i : Nat} {a : Assembly} {x : TypeId} {d : TypeDecl} {w' : Workspace}

theorem exists_of_decl? (hd : p.decl? x = some d) :
  ∃ (i : Nat) (a : Assembly), p.units[i]? = some a ∧ a.decl? x = some d
  := by
  obtain ⟨a, ha, hd⟩ := List.exists_of_findSome?_eq_some hd
  obtain ⟨i, hi⟩ := List.getElem?_of_mem ha
  exact ⟨i, a, hi, hd⟩

/-- No other unit declares a type of a unit. -/
theorem Sound.decl?_eq (h : p.Sound) (ha : p.units[i]? = some a) (hd : a.decl? x = some d) :
  p.decl? x = some d
  := by
  cases hfound : p.decl? x with
  | none =>
      have := List.findSome?_eq_none_iff.mp hfound a (List.mem_of_getElem? ha)
      rw [hd] at this
      cases this
  | some d' =>
      obtain ⟨j, b, hb, hd'⟩ := exists_of_decl? hfound
      by_cases hij : i = j
      · subst hij
        rw [ha] at hb
        cases hb
        rw [← hd', hd]
      · cases h.disjoint ha hb hij x (Assembly.mem_ids hd) (Assembly.mem_ids hd')

/-- Realized declarations stay, whatever an operation does to a unit. -/
theorem Sound.decl?_put
    (h : p.Sound) (ha : p.units[i]? = some a) (hw : (p.workspace a).Redraws w')
    (hd : p.decl? x = some d) (hrealized : d.state = .realized) :
  (p.put i w').decl? x = some d
  := by
  obtain ⟨j, b, hb, hd⟩ := exists_of_decl? hd
  by_cases hij : j = i
  · subst hij
    rw [ha] at hb
    cases hb
    apply (h.put ha hw).decl?_eq (put_same ha) (hw.frozen hd hrealized)
  · apply (h.put ha hw).decl?_eq ((put_other hij).trans hb) hd

theorem decl?_open (p : Project) (name : String) (x : TypeId) :
  decl? { p with units := p.units ++ [.new name] } x = p.decl? x
  := by
  have hnone : (Assembly.new name).decl? x = none := rfl
  rw [decl?]
  simp [List.findSome?_append, hnone, decl?]

/-- Nothing that happens declares a realized type anew. -/
theorem Sound.decl?_turns
    {q : Project} (h : p.Sound) (hq : p.Turns ρ q) (hd : p.decl? x = some d)
    (hrealized : d.state = .realized) :
  q.decl? x = some d
  := by
  cases hq with
  | stays => apply hd
  | registers registry => apply hd
  | opens name =>
      rw [decl?_open]
      apply hd
  | changes ha c => apply h.decl?_put ha (c.redraws (h.fresh ha)) hd hrealized

/-- Nothing but clearing the session takes realized types away. -/
theorem Sound.realized?_turns
    {q : Project} (h : p.Sound) (hq : p.Turns ρ q) {t : RealizedType}
    (ht : p.session.realized? x = some t) :
  q.session.realized? x = some t
  := by
  cases hq with
  | stays => apply ht
  | opens name => apply ht
  | registers registry => apply ht
  | changes ha c =>
      change (c.perform _).session.realized? x = some t
      obtain ⟨next, hsession⟩ | ⟨new, finished, -, -, heq⟩ := (c.redraws (h.fresh ha)).session
      · rw [hsession]
        apply ht
      · rw [heq]
        apply find?_append_of_some ht

theorem Sound.realized?_run
    (h : p.Sound) {history : List (HostEvent ρ)} (hclear : .clear ∉ history) {t : RealizedType}
    (ht : p.session.realized? x = some t) :
  (p.run history).session.realized? x = some t
  := by
  induction history generalizing p with
  | nil => apply ht
  | cons e history ih =>
      obtain ⟨he, hclear⟩ := not_or.mp (mt List.mem_cons.mpr hclear)
      apply ih (h.host e) hclear
      obtain ⟨hcleared, -⟩ | hturns := p.host_cases e
      · cases he hcleared.symm
      · apply h.realized?_turns hturns ht

/-- The types of the session lie on top of each other. -/
def Stacked (p : Project) : Prop :=
  Layered p.session.verifyImplementations p.decl? p.session.types

theorem Stacked.turns {q : Project} (h : p.Stacked) (hsound : p.Sound) (hq : p.Turns ρ q) :
  q.Stacked
  := by
  have hmono := Layered.mono h fun x d => hsound.decl?_turns hq (x := x) (d := d)
  cases hq with
  | stays => apply h
  | opens name => apply hmono
  | registers registry => apply h
  | changes ha c =>
      have hw := c.redraws (hsound.fresh ha)
      obtain ⟨next, hsession⟩ | ⟨new, finished, hnew, hopen, heq⟩ := hw.session
      · rw [Stacked]
        change Layered (c.perform _).session.verifyImplementations _ (c.perform _).session.types
        rw [hsession]
        apply hmono
      · rw [heq] at hw hmono ⊢
        apply hnew.layered (hsound.settled ha hopen) (hsound.opened ha) hopen _ hmono
        intro t ht d hd
        apply (hsound.put ha hw).decl?_eq (put_same ha)
        change ((p.workspace _).realizing new).assembly.decl? t.id = _
        rw [Workspace.decl?_realizing, hd, Option.map_some, if_pos (List.mem_map_of_mem ht)]

/-- Whatever happens, the types of the session lie on top of each other. -/
theorem stacked_run (verify : Bool) (history : List (HostEvent ρ)) :
  ((empty verify).run history).Stacked
  := by
  apply run_induction verify .nil
  · intro p q hsound h hq
    apply h.turns hsound hq
  · intro p h
    exact .nil

theorem verify_turns {q : Project} (hsound : p.Sound) (hq : p.Turns ρ q) :
  q.session.verifyImplementations = p.session.verifyImplementations
  := by
  cases hq with
  | stays => rfl
  | opens name => rfl
  | registers registry => rfl
  | changes ha c =>
      change (c.perform _).session.verifyImplementations = _
      obtain ⟨next, hsession⟩ | ⟨new, finished, -, -, heq⟩ :=
        (c.redraws (hsound.fresh ha)).session
      · rw [hsession]
        rfl
      · rw [heq]
        rfl

/-- A session verifies implementations throughout its lifetime, or never. -/
theorem verify_run (verify : Bool) (history : List (HostEvent ρ)) :
  ((empty verify).run history).session.verifyImplementations = verify
  := by
  apply run_induction (P := fun p => p.session.verifyImplementations = verify) verify rfl
  · intro p q hsound h hq
    rw [verify_turns hsound hq, h]
  · intro p h
    apply h

end Project

end ManagedCode
