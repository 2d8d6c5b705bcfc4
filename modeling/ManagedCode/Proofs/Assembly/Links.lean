import ManagedCode.Proofs.Assembly.Overriding

/-!
# Links to base methods

A method that overrides a base method is linked to it when it is defined, and the link is
never changed.  Over every history the linked method exists and can be overridden, under
the name and with the number of parameters of the method that is linked to it.  That its
class stays a base class, and that the types are the same, depends on two operations
(`Change.Careful`): giving a class another base, and defining a method with generic
parameters of its own.
-/

namespace ManagedCode

variable {ρ : Type}

namespace Workspace

/-- A method of a class of the unit is linked to a base method. -/
def Links (w : Workspace) (c : TypeId) (m : MethodDecl) (b : MethodRef) : Prop :=
  ∃ d, w.assembly.decl? c = some d ∧ m ∈ d.methods ∧ m.baseSlot = some b

/-- A link goes to a method of a base class that has the types of the linked method. -/
structure LinkHolds (w : Workspace) (c : TypeId) (m : MethodDecl) (b : MethodRef) : Prop where
  below : w.Below c b.owner
  overrides : ∃ sig, w.methodSignature b = .ok sig ∧ m.Replaces sig ∧ m.SameTypes sig

/-- All links of a unit go to methods of base classes with the types of the linked methods. -/
def Linked (w : Workspace) : Prop :=
  ∀ (c : TypeId) (m : MethodDecl) (b : MethodRef), w.Links c m b → w.LinkHolds c m b

/-- A link that the declaration of a method has made. -/
structure Makes (w : Workspace) (spec : MethodSpec) (c : TypeId) (m : MethodDecl) (b : MethodRef)
    (sig : MethodSignature) : Prop where
  below : w.Below c b.owner
  signature : w.methodSignature b = .ok sig
  replaces : m.Replaces sig
  sameTypes : m.SameTypes sig ↔ spec.Faithful sig

end Workspace

/-! ## What is settled of a link -/

namespace MethodDecl

variable {m m' : MethodDecl} {sig : MethodSignature}

/-- Whether a method may replace another depends on what stands before its body. -/
theorem Replaces.of_head (hhead : m.head = m'.head) (h : m.Replaces sig) : m'.Replaces sig := by
  have hname : m.name = m'.name := (congrArg MethodDecl.name hhead :)
  have hparams : m.params = m'.params := (congrArg MethodDecl.params hhead :)
  exact ⟨h.isVirtual, h.notFinal, h.notStatic, hname ▸ h.name, hparams ▸ h.arity⟩

theorem SameTypes.of_head (hhead : m.head = m'.head) (h : m.SameTypes sig) : m'.SameTypes sig := by
  have hparams : m.paramTypes = m'.paramTypes := (congrArg MethodDecl.paramTypes hhead :)
  have hreturn : m.returnType = m'.returnType := (congrArg MethodDecl.returnType hhead :)
  have hgenerics : m.genericParams = m'.genericParams := (congrArg MethodDecl.genericParams hhead :)
  constructor
  · rw [← hparams, ← hgenerics, h.params]
  · rw [← hreturn, ← hgenerics, h.returnType]

end MethodDecl

namespace Workspace

variable {w w' : Workspace} {c : TypeId} {m m' : MethodDecl} {b : MethodRef}
  {spec : MethodSpec} {sig : MethodSignature}

/-- So does whether its link holds. -/
theorem LinkHolds.of_head (hhead : m.head = m'.head) (h : w.LinkHolds c m b) :
  w.LinkHolds c m' b
  := by
  obtain ⟨hbelow, sig, hsig, hreplaces, htypes⟩ := h
  exact ⟨hbelow, sig, hsig, hreplaces.of_head hhead, htypes.of_head hhead⟩

/-- A link that holds goes on holding when types only get more methods. -/
theorem LinkHolds.widen (h : w.LinkHolds c m b) (hwidens : w.Widens (fun _ => False) w') :
  w'.LinkHolds c m b
  := by
  obtain ⟨hbelow, sig, hsig, hreplaces, htypes⟩ := h
  exact ⟨hwidens.below hbelow, sig, hwidens.methodSignature hsig, hreplaces, htypes⟩

theorem Makes.of_head (hhead : m.head = m'.head) (h : w.Makes spec c m b sig) :
  w.Makes spec c m' b sig
  := by
  refine ⟨h.below, h.signature, h.replaces.of_head hhead, ?_⟩
  rw [← h.sameTypes]
  constructor
  · apply MethodDecl.SameTypes.of_head hhead.symm
  · apply MethodDecl.SameTypes.of_head hhead

/-- What made a link can be told afterwards when types only get more methods. -/
theorem Makes.widen (h : w.Makes spec c m b sig) (hwidens : w.Widens (fun _ => False) w') :
  w'.Makes spec c m b sig
  :=
  ⟨hwidens.below h.below, hwidens.methodSignature h.signature, h.replaces, h.sameTypes⟩

/-- A link that an operation makes holds. -/
theorem Makes.linkHolds (h : w.Makes spec c m b sig) (hfaithful : spec.Faithful sig) :
  w.LinkHolds c m b
  :=
  ⟨h.below, sig, h.signature, h.replaces, h.sameTypes.mpr hfaithful⟩

/-- A declaration that overrides a base method makes a link to it. -/
theorem declaration_makes
    (htraced : w.session.Traced) {name : String} {kind : MethodKind} {target : Option Overridden}
    (h : w.declaration c name spec kind = .ok (m, target)) (hbase : m.baseSlot = some b) :
  ∃ t, target = some t ∧ t.origin = .baseType ∧ t.method = b
    ∧ w.Makes spec c m b t.signature
  := by
  obtain ⟨d, hd, rfl, hfound⟩ := Build.declaration_ok h
  have hslot : (target.filter (·.origin == .baseType)).map (·.method) = some b := hbase
  obtain ⟨t, ht, rfl⟩ := Option.map_eq_some_iff.mp hslot
  obtain ⟨rfl, horigin⟩ := Option.filter_eq_some_iff.mp ht
  have horigin : t.origin = .baseType := by simpa using horigin
  obtain hnone | hfound := hfound
  · cases hnone
  · obtain hinterface | ⟨hexplicit, hbelow, htarget⟩ := findOverridden_ok htraced hfound
    · rw [horigin] at hinterface
      cases hinterface
    · exact ⟨t, rfl, horigin, rfl, hbelow, htarget.signature, htarget.replaces_entry hexplicit,
        htarget.sameTypes_entry_iff⟩

/-! ## What operations do to links -/

/-- The links of a unit that has grown are old ones, or those of methods that it has got. -/
theorem Grows.links {id : TypeId} {ms : List MethodDecl} (h : w.Grows id ms w')
    (hlink : w'.Links c m b) :
  (∃ m₀, m₀.head = m.head ∧ w.Links c m₀ b)
  ∨ c = id ∧ ∃ m₀ ∈ ms, m₀.head = m.head ∧ m₀.baseSlot = some b
  := by
  obtain ⟨d', hd', hm, hbase⟩ := hlink
  have hc := h.decl c
  rw [hd'] at hc
  obtain ⟨d, hd, hextends⟩ := rel_of_some hc
  have hmem : m.head ∈ d'.methods.map (·.head) := List.mem_map_of_mem hm
  rw [hextends.methods] at hmem
  obtain hmem | hmem := List.mem_append.mp hmem
  · left
    obtain ⟨m₀, hm₀, hhead⟩ := List.mem_map.mp hmem
    exact ⟨m₀, hhead, d, hd, hm₀, (congrArg MethodDecl.baseSlot hhead).trans hbase⟩
  · right
    obtain ⟨m₀, hm₀, hhead⟩ := List.mem_map.mp hmem
    split at hm₀
    · next hid => exact ⟨hid, m₀, hm₀, hhead, (congrArg MethodDecl.baseSlot hhead).trans hbase⟩
    · cases hm₀

theorem Grows.links_of_no_methods {id : TypeId} (h : w.Grows id [] w') (hlink : w'.Links c m b) :
  ∃ m₀, m₀.head = m.head ∧ w.Links c m₀ b
  := by
  obtain hold | ⟨-, m₀, hm₀, -⟩ := h.links hlink
  · apply hold
  · cases hm₀

/-- A type that is opened has no methods, and so no links. -/
theorem Opens.links {d : TypeDecl} (h : Build.Opens d w w') (hlink : w'.Links c m b) :
  ∃ m₀, m₀.head = m.head ∧ w.Links c m₀ b
  := by
  obtain ⟨d', hd', hm, hbase⟩ := hlink
  have hc := h.decl c
  rw [hd'] at hc
  obtain ⟨d₀, hd₀, hextends⟩ := rel_of_some hc
  have hmem : m.head ∈ d'.methods.map (·.head) := List.mem_map_of_mem hm
  rw [hextends.methods, List.map_nil, List.append_nil] at hmem
  obtain ⟨m₀, hm₀, hhead⟩ := List.mem_map.mp hmem
  obtain hold | ⟨-, hlast⟩ := Option.or_eq_some_iff.mp hd₀
  · exact ⟨m₀, hhead, d₀, hold, hm₀, (congrArg MethodDecl.baseSlot hhead).trans hbase⟩
  · split at hlast
    · cases hlast
      rw [h.methods] at hm₀
      cases hm₀
    · cases hlast

/-- A class keeps its links when it gets another base. -/
theorem Rebases.links_iff {id : TypeId} {base : Option TypeRef} (h : w.Rebases id base w') :
  w'.Links c m b ↔ w.Links c m b
  := by
  obtain ⟨-, rfl⟩ := h
  have hdecl := Assembly.decl?_update w.assembly id (fun d => { d with base := base })
    (fun _ => rfl) c
  rw [Links]
  constructor
  · rintro ⟨d', hd', hm, hbase⟩
    rw [updated, hdecl] at hd'
    obtain ⟨d, hd, rfl⟩ := Option.map_eq_some_iff.mp hd'
    refine ⟨d, hd, ?_, hbase⟩
    split at hm <;> exact hm
  · rintro ⟨d, hd, hm, hbase⟩
    rw [hd] at hdecl
    refine ⟨_, hdecl, ?_, hbase⟩
    dsimp only
    split <;> exact hm

/-- Realization makes no links. -/
theorem links_realizing (new : List RealizedType) (hlink : (w.realizing new).Links c m b) :
  w.Links c m b
  := by
  obtain ⟨d', hd', hm, hbase⟩ := hlink
  rw [decl?_realizing] at hd'
  obtain ⟨d, hd, rfl⟩ := Option.map_eq_some_iff.mp hd'
  refine ⟨d, hd, ?_, hbase⟩
  split at hm <;> exact hm

/-- The links that a property makes are those of declarations without generic parameters. -/
theorem grown_links
    (htraced : w.session.Traced) {owner : TypeId} (h : Build.Grown owner w w')
    (hlink : w'.Links c m b) :
  (∃ m₀, m₀.head = m.head ∧ w.Links c m₀ b)
  ∨ ∃ spec sig, spec.genericParams = [] ∧ w'.Makes spec c m b sig
  := by
  induction h generalizing m with
  | refl =>
      left
      exact ⟨m, rfl, hlink⟩
  | stays h hgrows ih =>
      obtain ⟨m₁, hhead, hlink⟩ := hgrows.links_of_no_methods hlink
      obtain ⟨m₀, hhead₀, hold⟩ | ⟨spec, sig, hspec, hmakes⟩ := ih hlink
      · left
        exact ⟨m₀, hhead₀.trans hhead, hold⟩
      · right
        exact ⟨spec, sig, hspec, (hmakes.of_head hhead).widen hgrows.widens⟩
  | @declares w₁ w₂ name spec kind entry target h hspec hdeclared hgrows ih =>
      obtain ⟨m₁, hhead, hlink⟩ | ⟨rfl, m₁, hm₁, hhead, hbase⟩ := hgrows.links hlink
      · obtain ⟨m₀, hhead₀, hold⟩ | ⟨spec, sig, hspec, hmakes⟩ := ih hlink
        · left
          exact ⟨m₀, hhead₀.trans hhead, hold⟩
        · right
          exact ⟨spec, sig, hspec, (hmakes.of_head hhead).widen hgrows.widens⟩
      · right
        obtain rfl := List.mem_singleton.mp hm₁
        obtain ⟨ms, hms⟩ := h.grows
        have htraced₁ : w₁.session.Traced := by
          rw [hms.session]
          apply htraced
        obtain ⟨t, rfl, -, rfl, hmakes⟩ := declaration_makes htraced₁ hdeclared hbase
        exact ⟨spec, t.signature, hspec, (hmakes.of_head hhead).widen hgrows.widens⟩

/-- In every turn, types only get more methods. -/
theorem Turn.widens (hsettled : w.Settled) (h : w.Turn w') : w.Widens (fun _ => False) w' := by
  cases h with
  | grow id ms h => apply h.widens
  | opens d h => apply Opens.widens hsettled h
  | realize new unit h heq =>
      subst heq
      apply realizing_widens w new

end Workspace

/-! ## Careful operations -/

/-- An operation leaves every link that there is a link to a method of a base class, and
links a method only to one whose types it can have. -/
def Change.Careful (w : Workspace) : Change ρ → Prop
  | .setBase id base =>
      ((Build.setBase id base).exec w).1 = .ok () →
        ∀ c m b, w.Links c m b → w.Survives id base c b.owner
  | .defineMethod owner name spec body =>
      ∀ answer m t, ((Build.defineMethod owner name spec body .method).exec w).1 = .ok answer →
        w.declaration owner name spec .method = .ok (m, some t) → t.origin = .baseType →
          spec.Faithful t.signature
  | _ => True

namespace Change

open Workspace

variable {w : Workspace} {x : TypeId} {m : MethodDecl} {b : MethodRef}

/-- A link has been there before an operation, or the operation has made it.  A constructor is not
linked to anything. -/
theorem links (c : Change ρ) (hfresh : w.Fresh) (htraced : w.session.Traced)
    (hlink : (c.perform w).Links x m b) :
  (∃ m₀, m₀.head = m.head ∧ w.Links x m₀ b)
  ∨ ∃ spec sig, (c.perform w).Makes spec x m b sig ∧ (c.Careful w → spec.Faithful sig)
  := by
  have hstay {α : Type} {build : Build α} (hstays : Build.Stays build)
      (hlink : (build.exec w).2.Links x m b) : ∃ m₀, m₀.head = m.head ∧ w.Links x m₀ b :=
    (hstays x w).links_of_no_methods hlink
  cases c with
  | declareType name kind spec enclosing =>
      left
      rw [perform] at hlink
      obtain hsame | ⟨d, hopens⟩ := Build.declareType_outcome hfresh.unused name kind spec enclosing
      · rw [hsame] at hlink
        exact ⟨m, rfl, hlink⟩
      · apply Opens.links hopens hlink
  | setBase id base =>
      left
      rw [perform] at hlink
      obtain ⟨e, hexec⟩ | ⟨d, base', hd, -, -, -, hexec⟩ := Build.exec_setBase id base w
      · rw [hexec] at hlink
        exact ⟨m, rfl, hlink⟩
      · have hrebases : w.Rebases id base' ((Build.setBase id base).exec w).2 := by
          rw [hexec]
          exact ⟨⟨d, hd⟩, rfl⟩
        exact ⟨m, rfl, hrebases.links_iff.mp hlink⟩
  | addInterface id interface =>
      left
      apply hstay (Build.stays_addInterface id interface) hlink
  | defineField id name t spec =>
      left
      apply hstay (Build.stays_defineField id name t spec) hlink
  | defineLiteral id name value =>
      left
      apply hstay (Build.stays_defineLiteral id name value) hlink
  | defineMethod owner name spec body =>
      rw [perform] at hlink ⊢
      obtain ⟨answer, w', entry, target, hexec, hdeclared, hgrows⟩ | ⟨e, w', hexec, hgrows⟩ :=
        Build.defineMethod_outcome owner name spec body .method w
      · rw [hexec] at hlink ⊢
        obtain hold | ⟨rfl, m₁, hm₁, hhead, hbase⟩ := hgrows.links hlink
        · left
          apply hold
        · right
          obtain rfl := List.mem_singleton.mp hm₁
          obtain ⟨t, rfl, horigin, rfl, hmakes⟩ := declaration_makes htraced hdeclared hbase
          refine ⟨spec, t.signature, (hmakes.of_head hhead).widen hgrows.widens, ?_⟩
          intro hcareful
          apply hcareful answer m₁ t (congrArg Prod.fst hexec) hdeclared horigin
      · left
        rw [hexec] at hlink
        apply hgrows.links_of_no_methods hlink
  | defineConstructor owner spec body =>
      left
      obtain ⟨ms, hms, hgrows⟩ := Build.defineConstructor_outcome owner spec body w
      obtain hold | ⟨-, m₁, hm₁, -, hbase⟩ := hgrows.links hlink
      · apply hold
      · obtain rfl := List.mem_singleton.mp (hms hm₁)
        cases hbase
  | defineProperty id name t spec =>
      obtain hold | ⟨spec, sig, hspec, hmakes⟩ :=
        grown_links htraced (Build.defineProperty_grown id name t spec w) hlink
      · left
        apply hold
      · right
        exact ⟨spec, sig, hmakes, fun _ => .of_no_generics hspec⟩
  | replaceBody m body =>
      left
      apply hstay (Build.stays_replaceBody m body) hlink
  | setMethodAttribute m custom =>
      left
      apply hstay (Build.stays_setMethodAttribute m custom) hlink
  | setTypeAttribute id custom =>
      left
      apply hstay (Build.stays_setTypeAttribute id custom) hlink
  | finalize =>
      left
      rw [perform] at hlink
      obtain hsame | ⟨new, unit, hnew, -, hexec⟩ := Build.finalize_outcome hfresh
      · rw [hsame] at hlink
        exact ⟨m, rfl, hlink⟩
      · rw [hexec] at hlink
        exact ⟨m, rfl, links_realizing new hlink⟩

/-- The methods that there are keep their signatures. -/
theorem methodSignature
    (c : Change ρ) (hsettled : w.Settled) {sig : MethodSignature}
    (hsig : w.methodSignature b = .ok sig) :
  (c.perform w).methodSignature b = .ok sig
  := by
  obtain hturn | ⟨id, given, base, -, -, -, hrebases⟩ := c.turn hsettled.toFresh
  · apply (hturn.widens hsettled).methodSignature hsig
  · apply hrebases.widens.methodSignature hsig

/-- A link that there is goes on to hold unless its class is taken away. -/
theorem linkHolds
    (c : Change ρ) (hsettled : w.Settled) (hcareful : c.Careful w) (hlink : w.Links x m b)
    (hholds : w.LinkHolds x m b) :
  (c.perform w).LinkHolds x m b
  := by
  obtain hturn | ⟨id, given, base, rfl, haccepted, hgiven, hrebases⟩ := c.turn hsettled.toFresh
  · apply hholds.widen (hturn.widens hsettled)
  · obtain ⟨hbelow, sig, hsig, hreplaces, htypes⟩ := hholds
    refine ⟨?_, sig, hrebases.widens.methodSignature hsig, hreplaces, htypes⟩
    rw [hrebases.below_iff hgiven]
    apply hcareful haccepted x m b hlink

/-- A method that has been accepted is among the methods of its type. -/
theorem exists_link
    {owner : TypeId} {w' : Workspace} (hgrows : w.Grows owner [m] w') {d : TypeDecl}
    (hd : w.assembly.decl? owner = some d) (hbase : m.baseSlot = some b) :
  ∃ m', m.head = m'.head ∧ w'.Links owner m' b
  := by
  have howner := hgrows.decl owner
  rw [hd, if_pos rfl] at howner
  obtain ⟨d', hd', hextends⟩ := rel_some howner
  have hmem : m.head ∈ d'.methods.map (·.head) := by
    rw [hextends.methods]
    simp
  obtain ⟨m', hm', hhead⟩ := List.mem_map.mp hmem
  exact ⟨m', hhead.symm, d', hd', hm', (congrArg MethodDecl.baseSlot hhead).trans hbase⟩

/-- Exactly the careful operations leave all links of their unit in order.  A linked method goes on
to have the signature that the declaration has found. -/
theorem linked_iff
    (c : Change ρ) (hsettled : w.Settled) (htraced : w.session.Traced) (hlinked : w.Linked) :
  (c.perform w).Linked ↔ c.Careful w
  := by
  constructor
  · intro hafter
    cases c with
    | setBase id given =>
        intro haccepted x m b hlink
        obtain ⟨e, hexec⟩ | ⟨d, base, hd, -, -, hbase, hexec⟩ := Build.exec_setBase id given w
        · rw [hexec] at haccepted
          cases haccepted
        · have hrebases : w.Rebases id base ((Build.setBase id given).exec w).2 := by
            rw [hexec]
            exact ⟨⟨d, hd⟩, rfl⟩
          rw [← hrebases.below_iff (acceptBase_ok hbase)]
          apply (hafter x m b (hrebases.links_iff.mpr hlink)).below
    | defineMethod owner name spec body =>
        intro answer m t haccepted hdeclared horigin
        have hbase : m.baseSlot = some t.method := by
          obtain ⟨d, -, rfl, -⟩ := Build.declaration_ok hdeclared
          simp [Workspace.entry, horigin]
        obtain ⟨t', ht', -, -, hmakes⟩ := declaration_makes htraced hdeclared hbase
        cases ht'
        obtain ⟨d, hd, -, -⟩ := Build.declaration_ok hdeclared
        obtain ⟨hd, -⟩ := Assembly.building_ok hd
        rw [perform] at hafter
        obtain ⟨_, w', entry, target, hexec, hdeclared', hgrows⟩ | ⟨e, w', hexec, -⟩ :=
          Build.defineMethod_outcome owner name spec body .method w
        · rw [hexec] at hafter
          rw [hdeclared] at hdeclared'
          cases hdeclared'
          obtain ⟨m', hhead, hlink⟩ := exists_link hgrows hd hbase
          obtain ⟨-, sig, hsig, -, htypes⟩ := hafter owner m' t.method hlink
          rw [hgrows.widens.methodSignature hmakes.signature] at hsig
          cases hsig
          rw [← hmakes.sameTypes]
          apply htypes.of_head hhead.symm
        · rw [hexec] at haccepted
          cases haccepted
    | _ => trivial
  · intro hcareful x m b hlink
    obtain ⟨m₀, hhead, hold⟩ | ⟨spec, sig, hmakes, hfaithful⟩ :=
      c.links hsettled.toFresh htraced hlink
    · apply (c.linkHolds hsettled hcareful hold (hlinked x m₀ b hold)).of_head hhead
    · apply hmakes.linkHolds (hfaithful hcareful)

end Change

end ManagedCode
