import ManagedCode.Proofs.Assembly.Links
import ManagedCode.Proofs.Assembly.Tables

/-!
# Links over histories

The links of all units are in order throughout a history exactly when the operations of
the history are careful.  A method whose link is in order takes over the slot of the base
method that it overrides, and no other.
-/

namespace ManagedCode

variable {ρ : Type}

namespace Workspace

/-- All links of a unit go to methods that can be overridden, under the name and with the
number of parameters of the linked methods. -/
def Signed (w : Workspace) : Prop :=
  ∀ (c : TypeId) (m : MethodDecl) (b : MethodRef), w.Links c m b →
    ∃ sig, w.methodSignature b = .ok sig ∧ m.Replaces sig

/-- While a unit is finalized, its methods take over only slots of the methods that they
override, and slots that their types have inherited. -/
def TakesLinkedSlots (w : Workspace) : Prop :=
  ∀ (new : List RealizedType) (c : TypeId) (d : TypeDecl) (m : MethodDecl)
      (base : Option RealizedType) (slot : Nat),
    w.Realizes new → (w.realizing new).assembly.decl? c = some d →
    (w.realizing new).layoutBase d = .ok base → m ∈ d.methods →
    (w.realizing new).inheritedSlot? m = some slot →
      ∃ b inherited above method, m.baseSlot = some b ∧ (w.realizing new).LinkHolds c m b
        ∧ base = some inherited ∧ slot < inherited.vtable.size
        ∧ (w.realizing new).session.realized? b.owner = some above
        ∧ above.method? b.index = some method ∧ method.vtableSlot = some slot

end Workspace

namespace Project

/-- All units of a project, with its session, have a property. -/
def Every (P : Workspace → Prop) (p : Project) : Prop :=
  ∀ (i : Nat) (a : Assembly), p.units[i]? = some a → P (p.workspace a)

/-- An operation does its part if it is careful. -/
def Careful (p : Project) : Event ρ → Prop
  | .openUnit _ => True
  | .change unit c => ∀ a, p.units[unit]? = some a → c.Careful (p.workspace a)

variable {p : Project} {i : Nat} {a : Assembly} {P : Workspace → Prop}

/-- Other units see no less of the session than before. -/
theorem widens_other
    {w' : Workspace} (hfollows : (p.workspace a).Follows w') (b : Assembly) :
  (p.workspace b).Widens (fun _ => False) ((p.put i w').workspace b)
  := by
  intro x s hs
  refine ⟨s, ?_, fun _ => rfl, List.prefix_rfl⟩
  cases hd : (p.workspace b).assembly.decl? x with
  | some d =>
      rw [Workspace.view?_of_decl hd] at hs
      rw [← hs]
      apply Workspace.view?_of_decl (w := (p.put i w').workspace b) hd
  | none =>
      rw [Workspace.view?_of_no_decl hd] at hs
      obtain ⟨t, ht, rfl⟩ := Option.map_eq_some_iff.mp hs
      rw [Workspace.view?_of_no_decl (w := (p.put i w').workspace b) hd]
      change (w'.session.realized? x).map _ = _
      rw [hfollows.kept ht]
      rfl

/-- What all units have they have after an operation on one of them, if the others keep it
and this one gets it back. -/
theorem every_put_iff
    {w' : Workspace} (ha : p.units[i]? = some a) (hevery : p.Every P)
    (hother : ∀ b, P (p.workspace b) → P ((p.put i w').workspace b)) :
  (p.put i w').Every P ↔ P w'
  := by
  constructor
  · intro h
    apply h i w'.assembly (put_same ha)
  · intro h j b hb
    obtain ⟨rfl, rfl⟩ | ⟨hj, hb⟩ := put_cases ha hb
    · apply h
    · apply hother b (hevery j b hb)

/-- A new unit has no links. -/
theorem not_links_new {session : Session} {name : String} {c : TypeId} {m : MethodDecl} {b : MethodRef} :
  ¬ Workspace.Links ⟨session, .new name⟩ c m b
  := by
  rintro ⟨d, hd, -⟩
  cases hd

theorem every_open
    (hevery : p.Every P) {name : String} (hnew : P (p.workspace (.new name))) :
  Every P { p with units := p.units ++ [.new name] }
  := by
  intro j b hb
  rw [List.getElem?_append] at hb
  split at hb
  · apply hevery j b hb
  · rw [List.getElem?_singleton] at hb
    split at hb
    · cases hb
      apply hnew
    · cases hb

/-- Exactly the careful operations leave all links in order. -/
theorem linked_apply_iff
    (h : p.Consistent) (hlinked : p.Every Workspace.Linked) (e : Event ρ) :
  (p.apply e).Every Workspace.Linked ↔ p.Careful e
  := by
  cases e with
  | openUnit name =>
      apply iff_of_true _ trivial
      apply every_open hlinked
      intro c m b hlink
      cases not_links_new hlink
  | change unit c =>
      unfold apply Careful
      dsimp only
      split
      · next hnone =>
        apply iff_of_true hlinked
        intro a ha
        rw [hnone] at ha
        cases ha
      · next a ha =>
        have hsettled := h.settled ha
        rw [every_put_iff ha hlinked, c.linked_iff hsettled h.traced (hlinked unit a ha)]
        · constructor
          · intro hcareful a' ha'
            rw [ha] at ha'
            cases ha'
            apply hcareful
          · intro hcareful
            apply hcareful a ha
        · intro b hb c' m b' hlink
          apply (hb c' m b' hlink).widen (widens_other (c.follows hsettled) b)

/-- Every operation leaves links to methods that can be overridden. -/
theorem signed_apply
    (h : p.Consistent) (hsigned : p.Every Workspace.Signed) (e : Event ρ) :
  (p.apply e).Every Workspace.Signed
  := by
  cases e with
  | openUnit name =>
      apply every_open hsigned
      intro c m b hlink
      cases not_links_new hlink
  | change unit c =>
      unfold apply
      dsimp only
      split
      · apply hsigned
      · next a ha =>
        have hsettled := h.settled ha
        rw [every_put_iff ha hsigned]
        · intro c' m b hlink
          obtain ⟨m₀, hhead, hold⟩ | ⟨spec, sig, hmakes, -⟩ :=
            c.links hsettled.toFresh h.traced hlink
          · obtain ⟨sig, hsig, hreplaces⟩ := hsigned unit a ha c' m₀ b hold
            exact ⟨sig, c.methodSignature hsettled hsig, hreplaces.of_head hhead⟩
          · exact ⟨sig, hmakes.signature, hmakes.replaces⟩
        · intro b hb c' m b' hlink
          obtain ⟨sig, hsig, hreplaces⟩ := hb c' m b' hlink
          have hwidens := widens_other (i := unit) (c.follows hsettled) b
          exact ⟨sig, hwidens.methodSignature hsig, hreplaces⟩

theorem every_empty (verify : Bool) : (empty verify).Every P := by
  intro i a ha
  cases ha

theorem takesLinkedSlots
    (h : p.Consistent) (htabled : Tabled p.session.types) (ha : p.units[i]? = some a)
    (hlinked : (p.workspace a).Linked) :
  (p.workspace a).TakesLinkedSlots
  := by
  intro new c d m base slot hnew hd hbase hm hslot
  have hsettled : ((p.workspace a).realizing new).Settled :=
    (h.put ha (Workspace.Realizes.follows (h.settled ha) hnew)).settled (put_same ha)
  obtain ⟨b, hb⟩ := Workspace.exists_baseSlot hslot
  have hholds : ((p.workspace a).realizing new).LinkHolds c m b :=
    (hlinked c m b (Workspace.links_realizing new ⟨d, hd, hm, hb⟩)).widen
      (Workspace.realizing_widens (p.workspace a) new)
  obtain ⟨inherited, above, method, hinherited, habove, -, hmethod, hslot, hsize⟩ :=
    hsettled.inheritedSlot_linked (hnew.tabled htabled) hd hbase hb hholds.below hslot
  exact ⟨b, inherited, above, method, hb, hholds, hinherited, hsize, habove, hmethod, hslot⟩

/-- All links are in order throughout a history exactly when its operations are careful. -/
theorem linked_iff_careful (verify : Bool) (history : List (Event ρ)) :
  (∀ before, before <+: history → ((empty verify).after before).Every Workspace.Linked)
    ↔ ∀ before e, before ++ [e] <+: history → ((empty verify).after before).Careful e
  := by
  have hconsistent : ∀ before : List (Event ρ), ((empty verify).after before).Consistent :=
    fun before => (consistent_empty verify).after before
  constructor
  · intro hlinked before e hinitial
    have hbefore := hlinked before ((List.prefix_append before [e]).trans hinitial)
    rw [← linked_apply_iff (hconsistent before) hbefore, ← after_append]
    apply hlinked _ hinitial
  · intro hcareful before
    induction before using List.reverseRecOn with
    | nil =>
        intro _
        apply every_empty
    | append_singleton before e ih =>
        intro hinitial
        have hbefore := ih ((List.prefix_append before [e]).trans hinitial)
        rw [after_append, linked_apply_iff (hconsistent before) hbefore]
        apply hcareful before e hinitial

/-- An operation that changes no base and declares no generic parameters. -/
def Plain : Event ρ → Prop
  | .change _ (.setBase ..) => False
  | .change _ (.defineMethod _ _ spec _) => spec.genericParams = []
  | _ => True

theorem careful_of_plain {e : Event ρ} (h : Plain e) : p.Careful e := by
  cases e with
  | openUnit name => trivial
  | change unit c =>
      intro a _
      cases c with
      | setBase id base => cases h
      | defineMethod owner name spec body =>
          intro answer m t _ _ _
          apply MethodSpec.Faithful.of_no_generics h
      | _ => trivial

/-- Plain operations leave all links in order. -/
theorem linked_of_plain
    {verify : Bool} {history : List (Event ρ)} (h : ∀ e ∈ history, Plain e) :
  ∀ before, before <+: history → ((empty verify).after before).Every Workspace.Linked
  := by
  rw [linked_iff_careful]
  intro before e hinitial
  apply careful_of_plain
  apply h e (hinitial.mem (by simp))

/-- In every history a link goes to a method that can be overridden, under the name and with the
number of parameters of the linked method.  That all links go to methods of base classes with the
types of the linked methods, in all states of a history, is the case exactly when all its operations
are careful; then methods take over only slots of the methods that they override.  The history
declares fewer than `2 ^ 32 - 1` types, so that 32 bits tell their ids apart. -/
theorem links_of_history
    (verify : Bool) (history : List (Event ρ))
    (hnumbered : ((empty verify).after history).session.Numbered) :
  (∀ before, before <+: history → ((empty verify).after before).NumbersFit)
  ∧ ((empty verify).after history).Every Workspace.Signed
  ∧ ((∀ before, before <+: history → ((empty verify).after before).Every Workspace.Linked)
      ↔ ∀ before e, before ++ [e] <+: history → ((empty verify).after before).Careful e)
  ∧ ((empty verify).after history).Every fun w => w.Linked → w.TakesLinkedSlots
  := by
  refine ⟨fun before => numbersFit_after verify hnumbered, ?_, linked_iff_careful verify history, ?_⟩
  · clear hnumbered
    induction history using List.reverseRecOn with
    | nil => apply every_empty
    | append_singleton history e ih =>
        rw [after_append]
        apply signed_apply ((consistent_empty verify).after history) ih
  · intro i a ha hlinked
    apply takesLinkedSlots ((consistent_empty verify).after history) _ ha hlinked
    apply tabled_after verify history

/-! ## A class with another base -/

/-- A class overrides the method of its base. -/
def overriding : List (Event Unit) :=
  [ .openUnit "A",
    .change 0 (.declareType "Base" .classType {} none),
    .change 0 (.defineMethod ⟨1⟩ "Run" { modifier := .isVirtual } .minimal),
    .change 0 (.declareType "Other" .classType {} none),
    .change 0 (.defineMethod ⟨2⟩ "Stop" { modifier := .isVirtual } .minimal),
    .change 0 (.declareType "C" .classType { base := some (.defined ⟨⟨1⟩, .classType⟩) } none),
    .change 0 (.defineMethod ⟨3⟩ "Run" {} .minimal)]

/-- The class gets another base afterwards. -/
def rebasing : List (Event Unit) :=
  overriding ++ [.change 0 (.setBase ⟨3⟩ (.defined ⟨⟨2⟩, .classType⟩))]

/-- As long as the class has its base, its link is in order. -/
theorem linked_overriding :
  ((empty true).after overriding).Every Workspace.Linked
    ∧ ∃ a m, ((empty true).after overriding).units[0]? = some a
      ∧ (((empty true).after overriding).workspace a).Links ⟨3⟩ m ⟨⟨1⟩, 0⟩
  := by
  constructor
  · obtain ⟨-, -, hlinked, -⟩ := links_of_history true overriding (by decide +kernel)
    apply hlinked.mpr _ overriding (List.prefix_refl overriding)
    intro before e hinitial
    have hplain : ∀ e ∈ overriding, Plain e := by simp [overriding, Plain]
    apply careful_of_plain (hplain e (hinitial.mem (by simp)))
  · exact ⟨_, _, rfl, _, rfl, List.mem_singleton_self _, rfl⟩

/-- With another base it is not: the method goes on to be linked to a method of the class
that was the base before, and takes the slot that the new base has given to `Stop`. -/
theorem not_linked_rebasing :
  (¬ ∀ history : List (Event Unit), ((empty true).after history).Every Workspace.Linked)
    ∧ ((empty true).after (rebasing ++ [.change 0 .finalize])).session.types.map (·.vtable.methods)
      = [[⟨⟨1⟩, 0⟩], [⟨⟨2⟩, 0⟩], [⟨⟨3⟩, 0⟩]]
  := by
  refine ⟨?_, by decide +kernel⟩
  intro hclaim
  obtain ⟨a, ha, hlink, hbase, hroot⟩ : ∃ a, ((empty true).after rebasing).units[0]? = some a
      ∧ (∃ m, (((empty true).after rebasing).workspace a).Links ⟨3⟩ m ⟨⟨1⟩, 0⟩)
      ∧ ((((empty true).after rebasing).workspace a).view? ⟨3⟩).bind (·.base) = some ⟨2⟩
      ∧ ((((empty true).after rebasing).workspace a).view? ⟨2⟩).bind (·.base) = none :=
    ⟨_, rfl, ⟨_, _, rfl, List.mem_singleton_self _, rfl⟩, rfl, rfl⟩
  obtain ⟨m, hlink⟩ := hlink
  have hbelow := (hclaim rebasing 0 a ha ⟨3⟩ m ⟨⟨1⟩, 0⟩ hlink).below
  obtain ⟨next, ⟨s, hs, hnext⟩, hpath⟩ := Relation.TransGen.head'_iff.mp hbelow
  rw [hs, Option.bind_some, hnext] at hbase
  obtain rfl := Option.some.inj hbase
  obtain hsame | ⟨last, ⟨s, hs, hlast⟩, -⟩ := hpath.cases_head
  · cases hsame
  · rw [hs, Option.bind_some, hlast] at hroot
    cases hroot

end Project

end ManagedCode
