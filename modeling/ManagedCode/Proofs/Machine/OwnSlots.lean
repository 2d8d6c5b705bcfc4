import ManagedCode.Proofs.Machine.VirtualCalls

/-!
# Slots of their own

A method that has been given a slot has taken it over from a realized method that it is linked to,
or it stands behind all methods of its type with smaller slots (`Project.Sound.takes_over`).  So
while all links lead to methods of bases, no method of a type takes away the slot of another one
that is linked to nothing, and on an object of the type itself this method runs
(`Project.dispatch_own`).
-/

namespace ManagedCode

open Relation

namespace Project

variable {p : Project} {verify : Bool} {ts : List RealizedType} {t : RealizedType}
  {r : RealizedMethod} {i slot : Nat}

/-- A method has taken over its slot from a method that it is linked to. -/
def TakesOver (p : Project) (ts : List RealizedType) (m : MethodRef) (slot : Nat) : Prop :=
  ∃ b target, p.LinksTo m b ∧ methodIn ts b = some target ∧ target.vtableSlot = some slot

/-- A method of a type that is laid out takes over its slot, or it gets one behind those of the
methods before it. -/
theorem taken_of_layout
    {w : Workspace} {d : TypeDecl} (hd : w.assembly.decl? t.id = some d)
    (hdecl : p.decl? t.id = some d.asRealized) (hregular : d.Regular)
    (hlayout : w.layoutType t.id = .ok t) (hr : t.methods[i]? = some r)
    (hslot : r.vtableSlot = some slot) :
  p.TakesOver w.session.types r.handle slot
    ∨ ∀ r' ∈ t.methods.take i, ∀ slot', r'.vtableSlot = some slot' → slot' < slot
  := by
  obtain ⟨d', base, l, hd', hbase, hl, hmethods, -⟩ := Workspace.layoutType_methods hlayout
  rw [hd] at hd'
  cases hd'
  obtain ⟨m, hm, hproper, hhandle, hplaces⟩ :=
    places_of_layout hd hdecl hregular (Workspace.arranges_layoutMethods hl) hmethods hr
  obtain hinherited | ⟨-, -, hbefore⟩ := hplaces.slot slot hslot
  · left
    obtain ⟨b, hb⟩ := Workspace.exists_baseSlot hinherited
    have hnewSlot := (hproper.linked (by rw [hb]; rfl)).2
    rw [Workspace.inheritedSlot?_eq hnewSlot, hb, Option.bind_some] at hinherited
    obtain ⟨target, htarget, hsame⟩ := Option.bind_eq_some_iff.mp hinherited
    refine ⟨b, target, ⟨m, ?_, hb⟩, htarget, hsame⟩
    rw [hhandle, hm]
  · right
    exact hbefore

/-- A method of a realized type has taken over its slot, or it has one behind those of the methods
before it. -/
theorem Sound.takes_over
    (h : p.Sound) (hlayered : Layered verify p.decl? ts) (ht : t ∈ ts)
    (hr : t.methods[i]? = some r) (hslot : r.vtableSlot = some slot) :
  p.TakesOver ts r.handle slot
    ∨ ∀ r' ∈ t.methods.take i, ∀ slot', r'.vtableSlot = some slot' → slot' < slot
  := by
  have hmore : ∀ {ts : List RealizedType} (new : List RealizedType),
      p.TakesOver ts r.handle slot → p.TakesOver (ts ++ new) r.handle slot := by
    rintro ts new ⟨b, target, hlink, htarget, hsame⟩
    exact ⟨b, target, hlink, methodIn_append htarget new, hsame⟩
  induction hlayered with
  | nil => cases ht
  | @snoc w t' d hlayered hsettled hverify hd hbuilding hdecl hkept hlayout ih =>
      obtain ht | ht := List.mem_append.mp ht
      · exact (ih ht).imp_left (hmore [t'])
      · obtain rfl := List.mem_singleton.mp ht
        have hregular : d.Regular := by
          obtain ⟨i, a, ha, hd'⟩ := exists_of_decl? hdecl
          obtain ⟨hbase, hinterfaces, hattributes, hmethods⟩ := h.regular ha _ _ hd'
          exact ⟨hbase, hinterfaces, hattributes, hmethods⟩
        exact (taken_of_layout hd hdecl hregular hlayout hr hslot).imp_left (hmore [t])

variable (hsound : p.Sound) (hlayered : Layered verify p.decl? p.session.types)
  (hrise : p.LinksRise p.session.types) (ht : t ∈ p.session.types)

include hsound hlayered hrise ht

/-- The slot of a method that is linked to nothing holds the method.  A later method with the slot
would have it from a base, all of whose slots are smaller. -/
theorem held_of_unlinked
    (hr : t.methods[i]? = some r) (hunlinked : ∀ b, ¬ p.LinksTo r.handle b)
    (hslot : r.vtableSlot = some slot) :
  t.vtable.method? slot = some r.handle
  := by
  have harranged := hsound.arranged hlayered t ht
  obtain ⟨hbases, -⟩ := harranged.unlinked i r slot hr hunlinked hslot
  obtain ⟨last, hlast⟩ : ∃ last, lastIn t.methods slot = some last := by
    apply Option.ne_none_iff_exists'.mp
    intro hnone
    exact lastIn_eq_none_iff.mp hnone r (List.mem_of_getElem? hr) hslot
  obtain ⟨before, after, hmethods, hsame, hafter⟩ := exists_of_lastIn hlast
  have hposition : t.methods[before.length]? = some last := by
    rw [hmethods]
    simp
  have hfirst : t.methods.take before.length = before := by
    rw [hmethods]
    simp
  have hrest : t.methods.drop (before.length + 1) = after := by
    rw [hmethods]
    simp
  have hi : i ≤ before.length := by
    by_contra hlt
    have hlater : after[i - (before.length + 1)]? = some r := by
      rw [← hrest, List.getElem?_drop, Nat.add_sub_cancel' (Nat.lt_of_not_le hlt)]
      exact hr
    exact hafter r (List.mem_of_getElem? hlater) hslot
  obtain hlt | rfl := Nat.lt_or_eq_of_le hi
  · have hbefore : r ∈ before := by
      rw [hmethods, List.getElem?_append_left hlt] at hr
      exact List.mem_of_getElem? hr
    obtain ⟨b, target, hlink, htarget, htaken⟩ | hsmaller :=
      hsound.takes_over hlayered ht hposition hsame
    · have hhandle := harranged.handle_eq hposition
      rw [hhandle] at hlink
      obtain ⟨c, target', habove, hc, htarget'⟩ := hrise t ht before.length b hlink
      obtain ⟨u, hbase, hinherits⟩ := TransGen.head'_iff.mp habove
      obtain ⟨hcmem, hsize⟩ := hlayered.tabled.size_le hbase.mem hinherits
      rw [methodIn, ← hc, hlayered.find hcmem, Option.bind_some, htarget'] at htarget
      cases htarget
      have hown := hlayered.tabled.own c hcmem target (List.mem_of_getElem? htarget') slot htaken
      have hsizes := hbases u hbase
      omega
    · rw [hfirst] at hsmaller
      exact absurd (hsmaller r hbefore slot hslot) (Nat.lt_irrefl slot)
  · rw [hposition] at hr
    cases hr
    exact harranged.held slot r hlast

/-- On an object of the type itself a method that is linked to nothing runs. -/
theorem dispatch_own
    (hclass : t.handle.kind = .classType) (hr : t.methods[i]? = some r)
    (hunlinked : ∀ b, ¬ p.LinksTo r.handle b) {o : ObjectRef} (ho : o.type = t.id) :
  p.session.dispatch (.object o) r = .ok r
  := by
  have harranged := hsound.arranged hlayered
  have hmem := List.mem_of_getElem? hr
  rw [dispatch_filled hlayered harranged ht .refl hclass hmem ho, Session.filled]
  cases hslot : r.vtableSlot with
  | none => rfl
  | some slot =>
      rw [Option.bind_some, held_of_unlinked hsound hlayered hrise ht hr hunlinked hslot]
      exact methodAt_ok_iff.mpr ((harranged t ht).methodIn_handle hlayered ht hmem)

end Project

end ManagedCode
