import ManagedCode.Proofs.Assembly.Layers

/-!
# Where links lead

A method that is linked to a base method is linked to one that some unit declares, as a
virtual method of objects.  This holds throughout the lifetime of a session, also of links to
types that the session has forgotten (`Project.anchored_run`).
-/

namespace ManagedCode

variable {ρ : Type}

/-! ## Methods that stay -/

theorem TypeDecl.Extends.exists_method
    {d d' : TypeDecl} {ms : List MethodDecl} (h : d.Extends ms d') {i : Nat} {m : MethodDecl}
    (hm : d.methods[i]? = some m) :
  ∃ m', d'.methods[i]? = some m' ∧ m'.head = m.head
  := by
  have hhead : (d'.methods.map (·.head))[i]? = some m.head := by
    rw [h.methods, List.getElem?_append_left, List.getElem?_map, hm, Option.map_some]
    rw [List.length_map]
    apply (List.getElem?_eq_some_iff.mp hm).1
  rw [List.getElem?_map] at hhead
  apply Option.map_eq_some_iff.mp hhead

/-- A method stays at its position, with what was settled when it was declared. -/
theorem Change.exists_method
    (c : Change ρ) {w : Workspace} (hfresh : w.Fresh) {x : TypeId} {d : TypeDecl} {i : Nat}
    {m : MethodDecl} (hd : w.assembly.decl? x = some d) (hm : d.methods[i]? = some m) :
  ∃ d' m', (c.perform w).assembly.decl? x = some d' ∧ d'.methods[i]? = some m'
    ∧ m'.head = m.head
  := by
  obtain hturn | ⟨id, given, base, -, -, -, ⟨-, heq⟩⟩ := c.turn hfresh
  · cases hturn with
    | grow id ms h =>
        have hx := h.decl x
        rw [hd] at hx
        obtain ⟨d', hd', hextends⟩ := rel_some hx
        obtain ⟨m', hm', hhead⟩ := hextends.exists_method hm
        exact ⟨d', m', hd', hm', hhead⟩
    | opens d₀ h =>
        have hx := h.decl x
        rw [hd, Option.some_or] at hx
        obtain ⟨d', hd', hextends⟩ := rel_some hx
        obtain ⟨m', hm', hhead⟩ := hextends.exists_method hm
        exact ⟨d', m', hd', hm', hhead⟩
    | realize new unit h heq =>
        rw [heq]
        have hx := Workspace.decl?_realizing w new x
        rw [hd] at hx
        refine ⟨_, m, hx, ?_, rfl⟩
        dsimp only
        split <;> exact hm
  · rw [heq]
    have hx := Workspace.decl?_rebasing w id base x
    rw [hd] at hx
    refine ⟨_, m, hx, ?_, rfl⟩
    dsimp only
    split <;> exact hm

namespace Project

/-- A method as its unit declares it. -/
def methodDecl? (p : Project) (m : MethodRef) : Option MethodDecl :=
  (p.decl? m.owner).bind (·.methods[m.index]?)

/-- A method is linked to a base method. -/
def LinksTo (p : Project) (m b : MethodRef) : Prop :=
  ∃ method, p.methodDecl? m = some method ∧ method.baseSlot = some b

/-- A method is declared as a virtual method of objects. -/
def DeclaresVirtual (p : Project) (m : MethodRef) : Prop :=
  ∃ method, p.methodDecl? m = some method ∧ method.attributes.isVirtual = true
    ∧ method.isStatic = false

/-- All links lead to methods that are declared as virtual methods of objects. -/
def Anchored (p : Project) : Prop :=
  ∀ m b, p.LinksTo m b → p.DeclaresVirtual b

variable {p : Project} {i : Nat} {a : Assembly} {m b : MethodRef}

theorem Sound.traced (h : p.Sound) : p.session.Traced := by
  intro x t ht
  obtain ⟨i, a, d, -, hd, -, hmirrors⟩ := h.origin t (List.mem_of_find?_eq_some ht)
  have hx : t.id = x := by simpa using List.find?_some ht
  exact ⟨d, by rw [Assembly.decl?_id hd, hx], hmirrors.methods⟩

/-- A method that a unit sees is declared, in this unit or another one. -/
theorem Sound.methodDecl?_of_signature
    (h : p.Sound) (ha : p.units[i]? = some a) {sig : MethodSignature}
    (hsig : (p.workspace a).methodSignature b = .ok sig) :
  ∃ method, p.methodDecl? b = some method ∧ method.attributes = sig.attributes
  := by
  obtain ⟨s, hs, hsig⟩ := Workspace.methodSignature_ok_iff.mp hsig
  have hdecl : ∃ d, p.decl? b.owner = some d ∧ s.methods = (TypeView.ofDecl d).methods := by
    cases hd : (p.workspace a).assembly.decl? b.owner with
    | some d =>
        rw [Workspace.view?_of_decl hd] at hs
        cases hs
        exact ⟨d, h.decl?_eq ha hd, rfl⟩
    | none =>
        rw [Workspace.view?_of_no_decl hd] at hs
        obtain ⟨t, ht, rfl⟩ := Option.map_eq_some_iff.mp hs
        obtain ⟨j, a', d, ha', hd', -, hmirrors⟩ := h.origin t (List.mem_of_find?_eq_some ht)
        have hx : t.id = b.owner := by simpa using List.find?_some ht
        rw [hx] at hd'
        exact ⟨d, h.decl?_eq ha' hd', hmirrors.methods⟩
  obtain ⟨d, hd, hmethods⟩ := hdecl
  rw [hmethods] at hsig
  change (d.methods.mapIdx _)[b.index]? = _ at hsig
  rw [List.getElem?_mapIdx] at hsig
  obtain ⟨method, hmethod, rfl⟩ := Option.map_eq_some_iff.mp hsig
  refine ⟨method, ?_, rfl⟩
  rw [methodDecl?]
  rw [hd]
  apply hmethod

/-- Operations on a unit leave the methods of all units, as far as they were settled. -/
theorem Sound.declaresVirtual_put
    (h : p.Sound) (ha : p.units[i]? = some a) (c : Change ρ) (hm : p.DeclaresVirtual m) :
  (p.put i (c.perform (p.workspace a))).DeclaresVirtual m
  := by
  have hfresh := h.fresh ha
  have hsound := h.put ha (c.redraws hfresh)
  obtain ⟨method, hmethod, hvirtual, hstatic⟩ := hm
  obtain ⟨d, hd, hmethod⟩ := Option.bind_eq_some_iff.mp hmethod
  obtain ⟨j, b, hb, hd⟩ := exists_of_decl? hd
  by_cases hij : j = i
  · subst hij
    rw [ha] at hb
    cases hb
    obtain ⟨d', method', hd', hmethod', hhead⟩ := c.exists_method hfresh hd hmethod
    have hattributes : method'.attributes = method.attributes :=
      (congrArg MethodDecl.attributes hhead :)
    refine ⟨method', ?_, hattributes ▸ hvirtual, ?_⟩
    · rw [methodDecl?]
      rw [hsound.decl?_eq (put_same ha) hd']
      apply hmethod'
    · rw [MethodDecl.isStatic, hattributes]
      apply hstatic
  · refine ⟨method, ?_, hvirtual, hstatic⟩
    rw [methodDecl?]
    rw [hsound.decl?_eq ((put_other hij).trans hb) hd]
    apply hmethod

/-- A link of a unit. -/
theorem Sound.linksTo_of_links
    (h : p.Sound) (ha : p.units[i]? = some a) {x : TypeId} {method : MethodDecl}
    (hlink : (p.workspace a).Links x method b) :
  ∃ m, p.LinksTo m b
  := by
  obtain ⟨d, hd, hmem, hbase⟩ := hlink
  obtain ⟨index, hindex⟩ := List.getElem?_of_mem hmem
  refine ⟨⟨x, index⟩, method, ?_, hbase⟩
  rw [methodDecl?]
  rw [h.decl?_eq ha hd]
  apply hindex

theorem Anchored.put
    (h : p.Anchored) (hsound : p.Sound) (ha : p.units[i]? = some a) (c : Change ρ) :
  (p.put i (c.perform (p.workspace a))).Anchored
  := by
  have hfresh := hsound.fresh ha
  have hsound' := hsound.put ha (c.redraws hfresh)
  rintro m b ⟨method, hmethod, hbase⟩
  obtain ⟨d, hdecl, hat⟩ := Option.bind_eq_some_iff.mp hmethod
  obtain ⟨j, a', ha', hd⟩ := exists_of_decl? hdecl
  have hmem := List.mem_of_getElem? hat
  obtain ⟨rfl, rfl⟩ | ⟨hj, hold⟩ := put_cases ha ha'
  · have hlink : (c.perform (p.workspace a)).Links m.owner method b :=
      ⟨d, hd, hmem, hbase⟩
    obtain ⟨m₀, -, hlink₀⟩ | ⟨spec, sig, hmakes, -⟩ := c.links hfresh hsound.traced hlink
    · obtain ⟨m', hm'⟩ := hsound.linksTo_of_links ha hlink₀
      apply hsound.declaresVirtual_put ha c (h m' b hm')
    · obtain ⟨target, htarget, hattributes⟩ :=
        hsound'.methodDecl?_of_signature (put_same ha) hmakes.signature
      refine ⟨target, htarget, ?_, ?_⟩
      · rw [hattributes]
        apply hmakes.replaces.isVirtual
      · rw [MethodDecl.isStatic, hattributes]
        apply hmakes.replaces.notStatic
  · have hlink : (p.workspace a').Links m.owner method b :=
      ⟨d, hd, hmem, hbase⟩
    obtain ⟨m', hm'⟩ := hsound.linksTo_of_links hold hlink
    apply hsound.declaresVirtual_put ha c (h m' b hm')

theorem Anchored.congr {q : Project} (h : p.Anchored) (hq : ∀ x, q.decl? x = p.decl? x) :
  q.Anchored
  := by
  rintro m b ⟨method, hmethod, hbase⟩
  have hdecl : q.methodDecl? = p.methodDecl? := by
    funext m
    rw [methodDecl?, hq, methodDecl?]
  rw [hdecl] at hmethod
  rw [DeclaresVirtual, hdecl]
  apply h m b ⟨method, hmethod, hbase⟩

theorem Anchored.turns {q : Project} (h : p.Anchored) (hsound : p.Sound) (hq : p.Turns ρ q) :
  q.Anchored
  := by
  cases hq with
  | stays => apply h
  | opens name => apply h.congr (decl?_open p name)
  | registers registry => apply h.congr fun _ => rfl
  | changes ha c => apply h.put hsound ha c

/-- Throughout the lifetime of a session, links lead to methods that are declared as virtual
methods of objects. -/
theorem anchored_run (verify : Bool) (history : List (HostEvent ρ)) :
  ((empty verify).run history).Anchored
  := by
  apply run_induction verify
  · rintro m b ⟨method, hmethod, -⟩
    cases hmethod
  · intro p q hsound h hq
    apply h.turns hsound hq
  · intro p h
    apply h.congr fun _ => rfl

end Project

end ManagedCode
