import ManagedCode.Attribute.Term
import ManagedCode.Proofs.Assembly.Building

/-!
# Folding expressions

What an attribute expression folds to (`AttributeTerm.Folds`), and the steps in which it is folded:
the parts of an expression in post-order, the items of an array with their conversion to the element
type, and the properties of an attribute, each before the value that it is set to.  An evaluation
takes the steps in order, up to the first that fails, and calls the getters among those that it has
taken (`AttributeTerm.Takes`).

So an expression is folded if and only if no part of it would have to run and every conversion and
every read of a static field succeeds, and an attribute is compiled if and only if it is a
constructor call, its arguments and the values of its properties are folded, and no property is set
twice (`AttributeTerm.evaluates_and_compiles`).
-/

namespace ManagedCode

/-! ## Errors -/

/-- A computation only fails at a malformed expression. -/
def Malforms {α : Type} (r : Except AttributeError α) : Prop :=
  ∀ error, r = .error error → ∃ reason, error = .malformed reason

theorem malforms_ok {α : Type} (a : α) : Malforms (.ok a : Except AttributeError α) :=
  nofun

theorem malforms_error {α : Type} (reason : String) :
  Malforms (.error (.malformed reason) : Except AttributeError α)
  := by
  rintro _ ⟨⟩
  exact ⟨reason, rfl⟩

namespace AttributeValue

theorem malforms_ofValue (v : Value) : Malforms (ofValue v) := by
  unfold ofValue
  split
  case h_8 => exact malforms_error _
  all_goals exact malforms_ok _

theorem malforms_convert (v : AttributeValue) (target : TypeRef) : Malforms (v.convert target) := by
  unfold convert
  dsimp only
  split
  case h_1 | h_2 => exact malforms_ok v
  case h_4 => exact malforms_error _
  all_goals
    split
    · exact malforms_ok _
    · exact malforms_error _

end AttributeValue

namespace AttributeTerm

theorem malforms_readStatic (session : Option Session) (f : FieldRef) :
  Malforms (readStatic session f)
  := by
  unfold readStatic
  split
  · exact malforms_error _
  split
  · exact malforms_error _
  split
  · exact malforms_error _
  split
  · exact malforms_ok _
  · split
    · exact malforms_error _
    · exact AttributeValue.malforms_ofValue _
  · exact malforms_error _

/-! ## What folds -/

/-- An expression folds to a constant. -/
inductive Folds (session : Option Session) : AttributeTerm → AttributeValue → Prop
  | constant (v : AttributeValue) : Folds session (constant v) v
  | getter (name : String) (v : AttributeValue) : Folds session (getter name v) v
  | staticField {f : FieldRef} {v : AttributeValue} (hread : readStatic session f = .ok v) :
    Folds session (staticField f) v
  | convert {operand : AttributeTerm} {target : TypeRef} {v w : AttributeValue}
      (hoperand : Folds session operand v) (hconvert : v.convert target = .ok w) :
    Folds session (convert operand target) w
  | newArray {element : TypeRef} {items : List AttributeTerm} {vs : List AttributeValue}
      (hitems : List.Forall₂ (Folds session) (items.map (·.convert element)) vs) :
    Folds session (newArray element items) (.array vs)

/-- An expression would have to run. -/
def runs : AttributeTerm → Bool
  | construct .. | memberInit .. | call .. | binary .. => true
  | _ => false

/-- Induction on the parts that are folded.  An item of an array is folded with its conversion. -/
@[elab_as_elim]
theorem foldInduction {P : AttributeTerm → Prop}
    (constant : ∀ v, P (constant v)) (getter : ∀ name v, P (getter name v))
    (staticField : ∀ f, P (staticField f))
    (convert : ∀ operand target, P operand → P (convert operand target))
    (newArray : ∀ element items, (∀ e ∈ items.map (·.convert element), P e) →
      P (newArray element items))
    (runs : ∀ e, e.runs = true → P e) :
  ∀ e, P e
  | .constant v => constant v
  | .getter name v => getter name v
  | .staticField f => staticField f
  | .convert operand target =>
    convert operand target (foldInduction constant getter staticField convert newArray runs operand)
  | .newArray element items => by
    apply newArray
    intro e he
    obtain ⟨item, hitem, rfl⟩ := List.mem_map.mp he
    have := List.sizeOf_lt_of_mem hitem
    exact convert item element
      (foldInduction constant getter staticField convert newArray runs item)
  | .construct _ _ | .memberInit _ _ | .call _ _ | .binary _ _ _ => runs _ rfl

variable {session : Option Session} {e : AttributeTerm} {v w : AttributeValue}

/-- The items of an array are folded with their conversion to the element type. -/
theorem evaluateItems_eq (session : Option Session) (element : TypeRef)
    (items : List AttributeTerm) :
  evaluateItems session element items = (items.map (·.convert element)).mapM (evaluate session)
  := by
  induction items with
  | nil => rfl
  | cons e items ih =>
      rw [evaluateItems, ih, List.map_cons, List.mapM_cons, evaluate, bind_assoc]

theorem Folds.not_runs (h : Folds session e v) : e.runs = false := by
  cases h <;> rfl

/-- What folds is folded. -/
theorem Folds.exec_evaluate (h : Folds session e v) (called : List String) :
  ((evaluate session e).exec called).1 = .ok v
  := by
  induction e using foldInduction generalizing v called with
  | constant u =>
      cases h
      rfl
  | getter name u =>
      cases h
      rfl
  | staticField f =>
      cases h with
      | staticField hread =>
          rw [evaluate, hread]
          rfl
  | convert operand target ih =>
      cases h with
      | convert hoperand hconvert =>
          rw [evaluate, exec_bind, ih hoperand]
          exact hconvert
  | newArray element items ih =>
      cases h with
      | newArray hitems =>
          rw [evaluate, evaluateItems_eq, exec_bind]
          suffices hvs : (((items.map (·.convert element)).mapM (evaluate session)).exec called).1
              = .ok _ by
            rw [hvs]
            rfl
          generalize items.map (·.convert element) = es at ih hitems
          induction hitems generalizing called with
          | nil => rfl
          | cons hv _ ihes =>
              rw [List.mapM_cons, exec_bind, ih _ List.mem_cons_self hv]
              dsimp only
              rw [exec_bind, ihes _ fun e he => ih e (List.mem_cons_of_mem _ he)]
              rfl
  | runs e hruns =>
      rw [h.not_runs] at hruns
      cases hruns

/-- An expression folds to one constant only. -/
theorem Folds.unique (h : Folds session e v) (h' : Folds session e w) : v = w :=
  Except.ok.inj ((h.exec_evaluate []).symm.trans (h'.exec_evaluate []))

/-! ## Steps -/

/-- A step of an evaluation: a part of an expression is folded, after its own parts, or a property
is set. -/
inductive Step where
  | part (e : AttributeTerm)
  | property (name : String) (before : List String)

namespace Step

/-- A part folds, and a property has not been set before. -/
def Passes (session : Option Session) : Step → Prop
  | part e => ∃ v, Folds session e v
  | property name before => name ∉ before

/-- The getter that is called. -/
def getter? : Step → Option String
  | part (getter name _) => some name
  | _ => none

end Step

mutual

/-- The steps in which an expression is folded. -/
def steps : AttributeTerm → List Step
  | convert operand target => operand.steps ++ [.part (convert operand target)]
  | newArray element items => itemSteps element items ++ [.part (newArray element items)]
  | e => [.part e]

def itemSteps (element : TypeRef) : List AttributeTerm → List Step
  | [] => []
  | e :: items => (e.steps ++ [.part (e.convert element)]) ++ itemSteps element items

end

/-- The steps in which properties are set to the values of expressions. -/
def bindingSteps : List String → List (String × AttributeTerm) → List Step
  | _, [] => []
  | before, (name, e) :: bindings =>
    .property name before :: (e.steps ++ bindingSteps (before ++ [name]) bindings)

theorem itemSteps_eq (element : TypeRef) (items : List AttributeTerm) :
  itemSteps element items = (items.map (·.convert element)).flatMap steps
  := by
  induction items with
  | nil => rfl
  | cons e items ih => rw [itemSteps, ih, List.map_cons, List.flatMap_cons, steps]

/-! ## Getters from left to right -/

mutual

/-- The getters in an expression from left to right, those included that are never called. -/
def getters : AttributeTerm → List String
  | constant _ | staticField _ => []
  | getter name _ => [name]
  | convert operand _ => operand.getters
  | newArray _ items | construct _ items | call _ items => gettersOf items
  | memberInit construction bindings => construction.getters ++ bindingGetters bindings
  | binary _ left right => left.getters ++ right.getters

def gettersOf : List AttributeTerm → List String
  | [] => []
  | e :: es => e.getters ++ gettersOf es

def bindingGetters : List (String × AttributeTerm) → List String
  | [] => []
  | (_, e) :: bindings => e.getters ++ bindingGetters bindings

end

/-- The getters of the first steps are the first ones of a list, as far as the steps pass. -/
def Reads (session : Option Session) (steps : List Step) (names : List String) : Prop :=
  ∀ done rest, steps = done ++ rest → (∀ s ∈ done, s.Passes session) →
    done.filterMap Step.getter? <+: names ∧ (rest = [] → done.filterMap Step.getter? = names)

namespace Reads

variable {steps steps' : List Step} {names names' : List String} {s : Step}

theorem nil : Reads session [] [] := by
  intro done rest hsteps _
  obtain ⟨rfl, rfl⟩ := List.append_eq_nil_iff.mp hsteps.symm
  exact ⟨List.prefix_rfl, fun _ => rfl⟩

theorem append (h : Reads session steps names) (h' : Reads session steps' names') :
  Reads session (steps ++ steps') (names ++ names')
  := by
  intro done rest hsteps hpasses
  rcases List.append_eq_append_iff.mp hsteps with ⟨done', rfl, hsteps'⟩ | ⟨rest', hsteps', rfl⟩
  · obtain ⟨hpasses, hpasses'⟩ := List.forall_mem_append.mp hpasses
    obtain ⟨-, hall⟩ := h steps [] (List.append_nil _).symm hpasses
    obtain ⟨hinitial, hall'⟩ := h' done' rest hsteps' hpasses'
    rw [List.filterMap_append, hall rfl]
    exact ⟨(List.prefix_append_right_inj _).mpr hinitial, fun hrest => by rw [hall' hrest]⟩
  · obtain ⟨hinitial, hall⟩ := h done rest' hsteps' hpasses
    refine ⟨hinitial.trans (List.prefix_append _ _), fun hrest => ?_⟩
    obtain ⟨rfl, rfl⟩ := List.append_eq_nil_iff.mp hrest
    obtain ⟨-, hnil⟩ := h' [] [] rfl fun _ hs => absurd hs List.not_mem_nil
    rw [hall rfl, ← hnil rfl, List.filterMap_nil, List.append_nil]

/-- A step without a getter. -/
theorem single (hgetter : s.getter? = none) : Reads session [s] [] := by
  intro done rest hsteps _
  have hnone : done.filterMap Step.getter? = [] := by
    apply List.filterMap_eq_nil_iff.mpr
    intro t ht
    have hmem : t ∈ [s] := hsteps ▸ List.mem_append_left rest ht
    rw [List.mem_singleton.mp hmem, hgetter]
  rw [hnone]
  exact ⟨List.prefix_rfl, fun _ => rfl⟩

/-- A step that does not pass. -/
theorem of_not_passes (hfails : ¬ s.Passes session) (names : List String) :
  Reads session [s] names
  := by
  intro done rest hsteps hpasses
  cases done with
  | nil =>
      refine ⟨List.nil_prefix, ?_⟩
      rintro rfl
      cases hsteps
  | cons t done =>
      obtain ⟨rfl, -⟩ := List.cons.inj hsteps
      exact absurd (hpasses s List.mem_cons_self) hfails

theorem flatMap {es : List AttributeTerm}
    (h : ∀ e ∈ es, Reads session e.steps e.getters) :
  Reads session (es.flatMap AttributeTerm.steps) (gettersOf es)
  := by
  induction es with
  | nil => exact .nil
  | cons e es ih =>
      rw [List.flatMap_cons, gettersOf]
      exact (h e List.mem_cons_self).append (ih fun e he => h e (List.mem_cons_of_mem _ he))

end Reads

theorem gettersOf_map_convert (element : TypeRef) (items : List AttributeTerm) :
  gettersOf (items.map (·.convert element)) = gettersOf items
  := by
  induction items with
  | nil => rfl
  | cons e items ih => rw [List.map_cons, gettersOf, gettersOf, ih, getters]

theorem not_passes_of_runs (hruns : e.runs = true) : ¬ Step.Passes session (.part e) := by
  rintro ⟨v, hv⟩
  rw [hv.not_runs] at hruns
  cases hruns

theorem steps_of_runs (hruns : e.runs = true) : e.steps = [.part e] := by
  cases e <;> first | rfl | cases hruns

/-- The steps of an expression come to its getters from left to right. -/
theorem reads_steps (session : Option Session) (e : AttributeTerm) :
  Reads session e.steps e.getters
  := by
  induction e using foldInduction with
  | constant v | staticField f => exact .single rfl
  | getter name v =>
      intro done rest hsteps _
      cases done with
      | nil =>
          refine ⟨List.nil_prefix, ?_⟩
          rintro rfl
          cases hsteps
      | cons s done =>
          obtain ⟨rfl, hrest⟩ := List.cons.inj hsteps
          obtain ⟨rfl, rfl⟩ := List.append_eq_nil_iff.mp hrest.symm
          exact ⟨List.prefix_rfl, fun _ => rfl⟩
  | convert operand target ih =>
      rw [steps, getters, ← List.append_nil operand.getters]
      exact ih.append (.single rfl)
  | newArray element items ih =>
      rw [steps, getters, itemSteps_eq, ← gettersOf_map_convert element,
        ← List.append_nil (gettersOf _)]
      exact (Reads.flatMap ih).append (.single rfl)
  | runs e hruns =>
      rw [steps_of_runs hruns]
      exact .of_not_passes (not_passes_of_runs hruns) _

theorem reads_bindingSteps
    (session : Option Session) (before : List String) (bindings : List (String × AttributeTerm)) :
  Reads session (bindingSteps before bindings) (bindingGetters bindings)
  := by
  induction bindings generalizing before with
  | nil => exact .nil
  | cons binding bindings ih =>
      obtain ⟨name, e⟩ := binding
      have hproperty : Reads session [.property name before] [] := .single rfl
      exact hproperty.append ((reads_steps session e).append (ih _))

/-! ## What evaluations do -/

/-- What an evaluation leaves that has been given getters: it takes all steps and answers, or it
fails at a step that does not pass.  It calls the getters of the steps before. -/
inductive Outcome {α : Type} (session : Option Session) (steps : List Step) (answer : α → Prop)
    (called : List String) : Except AttributeError α × List String → Prop
  | answers {a : α} (hpasses : ∀ s ∈ steps, s.Passes session) (hanswer : answer a) :
    Outcome session steps answer called (.ok a, called ++ steps.filterMap Step.getter?)
  | fails {done rest : List Step} {s : Step} {reason : String} (hsteps : steps = done ++ s :: rest)
      (hpasses : ∀ s ∈ done, s.Passes session) (hfails : ¬ s.Passes session) :
    Outcome session steps answer called
      (.error (.malformed reason), called ++ done.filterMap Step.getter?)

/-- An evaluation takes steps in order, up to the first that does not pass. -/
def Takes {α : Type} (session : Option Session) (x : Eval α) (steps : List Step)
    (answer : α → Prop) : Prop :=
  ∀ called, Outcome session steps answer called (x.exec called)

namespace Takes

variable {α β : Type} {x : Eval α} {f : α → Eval β} {answer : α → Prop} {answer' : β → Prop}
  {steps steps' : List Step}

theorem pure {a : α} (ha : answer a) : Takes session (pure a) [] answer := by
  intro called
  have houtcome : Outcome session [] answer called (.ok a, called ++ []) :=
    .answers (fun _ hs => absurd hs List.not_mem_nil) ha
  rwa [List.append_nil] at houtcome

theorem bind (h : Takes session x steps answer)
    (hf : ∀ a, answer a → Takes session (f a) steps' answer') :
  Takes session (x >>= f) (steps ++ steps') answer'
  := by
  intro called
  rw [exec_bind]
  have hx := h called
  generalize x.exec called = outcome at hx
  cases hx with
  | answers hpasses ha =>
      have hfa := hf _ ha (called ++ steps.filterMap Step.getter?)
      dsimp only
      generalize ExceptT.exec (f _) _ = outcome at hfa
      cases hfa with
      | answers hpasses' hb =>
          rw [List.append_assoc, ← List.filterMap_append]
          exact .answers (List.forall_mem_append.mpr ⟨hpasses, hpasses'⟩) hb
      | @fails done rest s _ hsteps hpasses' hfails =>
          have hsteps' : steps ++ steps' = (steps ++ done) ++ s :: rest := by
            rw [hsteps, List.append_assoc]
          rw [List.append_assoc, ← List.filterMap_append]
          exact .fails hsteps' (List.forall_mem_append.mpr ⟨hpasses, hpasses'⟩) hfails
  | @fails done rest s _ hsteps hpasses hfails =>
      have hsteps' : steps ++ steps' = done ++ s :: (rest ++ steps') := by
        rw [hsteps, List.append_assoc, List.cons_append]
      exact .fails hsteps' hpasses hfails

/-- A step without a getter. -/
theorem single
    {r : Except AttributeError α} {s : Step} (hmalforms : Malforms r)
    (hgetter : s.getter? = none) (hok : ∀ a, r = .ok a → s.Passes session ∧ answer a)
    (herror : ∀ error, r = .error error → ¬ s.Passes session) :
  Takes session (ExceptT.mk (Pure.pure r)) [s] answer
  := by
  intro called
  change Outcome session [s] answer called (r, called)
  cases r with
  | ok a =>
      obtain ⟨hpasses, ha⟩ := hok a rfl
      have houtcome : Outcome session [s] answer called (.ok a, called ++ [s].filterMap Step.getter?)
        := .answers (List.forall_mem_singleton.mpr hpasses) ha
      rwa [List.filterMap_cons_none hgetter, List.filterMap_nil, List.append_nil] at houtcome
  | error error =>
      obtain ⟨reason, rfl⟩ := hmalforms error rfl
      have houtcome : Outcome session [s] answer called
          (.error (.malformed reason), called ++ [].filterMap Step.getter?) :=
        .fails rfl (fun _ hs => absurd hs List.not_mem_nil) (herror _ rfl)
      rwa [List.filterMap_nil, List.append_nil] at houtcome

/-- An evaluation that fails at its first step. -/
theorem throw {s : Step} {reason : String} (hfails : ¬ s.Passes session) :
  Takes session (throw (.malformed reason)) (s :: steps) answer
  := by
  intro called
  have houtcome : Outcome session (s :: steps) answer called
      (.error (.malformed reason), called ++ [].filterMap Step.getter?) :=
    .fails rfl (fun _ hs => absurd hs List.not_mem_nil) hfails
  rwa [List.filterMap_nil, List.append_nil] at houtcome

/-- A first step that passes without a getter. -/
theorem skip {s : Step} (hpasses : s.Passes session) (hgetter : s.getter? = none)
    (h : Takes session x steps answer) :
  Takes session x (s :: steps) answer
  := by
  have hfirst : Takes session (Pure.pure ()) [s] fun _ => True :=
    .single (malforms_ok ()) hgetter (fun _ _ => ⟨hpasses, trivial⟩) nofun
  exact hfirst.bind fun _ _ => h

/-- Expressions are folded one after the other. -/
theorem mapM {es : List AttributeTerm}
    (h : ∀ e ∈ es, Takes session (evaluate session e) e.steps (Folds session e)) :
  Takes session (es.mapM (evaluate session)) (es.flatMap AttributeTerm.steps)
    (List.Forall₂ (Folds session) es)
  := by
  induction es with
  | nil => exact .pure .nil
  | cons e es ih =>
      rw [List.mapM_cons, List.flatMap_cons]
      apply (h e List.mem_cons_self).bind
      intro v hv
      have hrest := ih fun e he => h e (List.mem_cons_of_mem _ he)
      rw [← List.append_nil (es.flatMap _)]
      apply hrest.bind
      intro vs hvs
      exact .pure (.cons hv hvs)

theorem exists_ok_iff (h : Takes session x steps answer) (called : List String) :
  (∃ a, (x.exec called).1 = .ok a) ↔ ∀ s ∈ steps, s.Passes session
  := by
  have houtcome := h called
  generalize x.exec called = outcome at houtcome
  cases houtcome with
  | answers hpasses _ => exact ⟨fun _ => hpasses, fun _ => ⟨_, rfl⟩⟩
  | @fails done rest s _ hsteps _ hfails =>
      constructor
      · rintro ⟨a, ⟨⟩⟩
      · intro hpasses
        have hmem : s ∈ steps := hsteps ▸ List.mem_append_right done List.mem_cons_self
        exact absurd (hpasses s hmem) hfails

theorem answer_of_ok
    (h : Takes session x steps answer) {called : List String} {a : α}
    (hok : (x.exec called).1 = .ok a) :
  answer a
  := by
  have houtcome := h called
  generalize x.exec called = outcome at houtcome hok
  cases houtcome with
  | answers _ ha =>
      cases hok
      exact ha
  | fails => cases hok

theorem malforms (h : Takes session x steps answer) (called : List String) :
  Malforms (x.exec called).1
  := by
  have houtcome := h called
  generalize x.exec called = outcome at houtcome
  cases houtcome with
  | answers => exact malforms_ok _
  | fails => exact malforms_error _

/-- The getters that are called are the first ones from left to right, and all of them if the
evaluation answers. -/
theorem exists_called {names : List String}
    (h : Takes session x steps answer) (hreads : Reads session steps names)
    (called : List String) :
  ∃ read, (x.exec called).2 = called ++ read ∧ read <+: names
    ∧ ((∃ a, (x.exec called).1 = .ok a) → read = names)
  := by
  have houtcome := h called
  generalize x.exec called = outcome at houtcome
  cases houtcome with
  | answers hpasses _ =>
      obtain ⟨hinitial, hall⟩ := hreads steps [] (List.append_nil _).symm hpasses
      exact ⟨_, rfl, hinitial, fun _ => hall rfl⟩
  | fails hsteps hpasses _ =>
      refine ⟨_, rfl, (hreads _ _ hsteps hpasses).1, ?_⟩
      rintro ⟨a, ⟨⟩⟩

end Takes

/-- An expression is folded in its steps, to what it folds to. -/
theorem takes_evaluate (session : Option Session) (e : AttributeTerm) :
  Takes session (evaluate session e) e.steps (Folds session e)
  := by
  induction e using foldInduction with
  | constant v =>
      rw [evaluate]
      apply Takes.single (malforms_ok v) rfl
      · rintro _ ⟨⟩
        exact ⟨⟨v, .constant v⟩, .constant v⟩
      · nofun
  | getter name v =>
      intro called
      rw [evaluate]
      exact .answers (List.forall_mem_singleton.mpr ⟨v, .getter name v⟩) (.getter name v)
  | staticField f =>
      rw [evaluate]
      apply Takes.single (malforms_readStatic session f) rfl
      · intro v hread
        exact ⟨⟨v, .staticField hread⟩, .staticField hread⟩
      · rintro error herror ⟨v, hfolds⟩
        cases hfolds with
        | staticField hread =>
            rw [herror] at hread
            cases hread
  | convert operand target ih =>
      rw [evaluate, steps]
      apply ih.bind
      intro v hv
      apply Takes.single (v.malforms_convert target) rfl
      · intro w hw
        exact ⟨⟨w, .convert hv hw⟩, .convert hv hw⟩
      · rintro error herror ⟨w, hfolds⟩
        cases hfolds with
        | convert hoperand hconvert =>
            rw [← hv.unique hoperand, herror] at hconvert
            cases hconvert
  | newArray element items ih =>
      rw [evaluate, steps, evaluateItems_eq, itemSteps_eq]
      apply (Takes.mapM ih).bind
      intro vs hvs
      apply Takes.single (malforms_ok _) rfl
      · rintro _ ⟨⟩
        exact ⟨⟨_, .newArray hvs⟩, .newArray hvs⟩
      · nofun
  | runs e hruns =>
      rw [steps_of_runs hruns]
      cases e with
      | construct | memberInit | call | binary =>
          rw [evaluate]
          exact .throw (not_passes_of_runs hruns)
      | _ => cases hruns

/-- An expression folds if and only if all of its steps pass. -/
theorem steps_pass_iff : (∀ s ∈ e.steps, s.Passes session) ↔ ∃ v, Folds session e v := by
  rw [← (takes_evaluate session e).exists_ok_iff []]
  constructor
  · rintro ⟨v, hv⟩
    exact ⟨v, (takes_evaluate session e).answer_of_ok hv⟩
  · rintro ⟨v, hv⟩
    exact ⟨v, hv.exec_evaluate []⟩

/-! ## What compilations do -/

/-- The values of properties are folded, and each property is set once. -/
theorem takes_evaluateBindings
    (session : Option Session) (before : List String) (bindings : List (String × AttributeTerm)) :
  Takes session (evaluateBindings session before bindings) (bindingSteps before bindings)
    (List.Forall₂ (Folds session) (bindings.map (·.2)))
  := by
  induction bindings generalizing before with
  | nil => exact .pure .nil
  | cons binding bindings ih =>
      obtain ⟨name, e⟩ := binding
      rw [evaluateBindings, bindingSteps]
      by_cases hbefore : name ∈ before
      · rw [if_pos (List.contains_iff_mem.mpr hbefore)]
        exact .throw (not_not_intro hbefore)
      · rw [if_neg (hbefore ∘ List.contains_iff_mem.mp)]
        have hpasses : Step.Passes session (.property name before) := hbefore
        apply Takes.skip hpasses rfl
        apply (takes_evaluate session e).bind
        intro v hv
        rw [← List.append_nil (bindingSteps _ _)]
        apply (ih _).bind
        intro vs hvs
        exact .pure (.cons hv hvs)

/-- The steps of properties pass if and only if their values fold and no property is set twice. -/
theorem bindingSteps_pass_iff {before : List String} {bindings : List (String × AttributeTerm)} :
  (∀ s ∈ bindingSteps before bindings, s.Passes session)
    ↔ (∀ b ∈ bindings, ∃ v, Folds session b.2 v) ∧ (∀ b ∈ bindings, b.1 ∉ before)
      ∧ (bindings.map (·.1)).Nodup
  := by
  induction bindings generalizing before with
  | nil => simp [bindingSteps]
  | cons binding bindings ih =>
      obtain ⟨name, e⟩ := binding
      have hbehind : (∀ b ∈ bindings, b.1 ∉ before ++ [name])
          ↔ (∀ b ∈ bindings, b.1 ∉ before) ∧ name ∉ bindings.map (·.1) := by
        simp only [List.mem_append, List.mem_singleton, not_or, List.mem_map, not_exists, not_and,
          forall_and]
      rw [bindingSteps, List.forall_mem_cons, List.forall_mem_append, steps_pass_iff, ih, hbehind,
        List.forall_mem_cons, List.forall_mem_cons, List.map_cons, List.nodup_cons]
      simp only [Step.Passes]
      tauto

/-- An expression is a constructor call, possibly with properties set on its result. -/
inductive Constructs : AttributeTerm → String → List AttributeTerm →
    List (String × AttributeTerm) → Prop
  | construct (name : String) (args : List AttributeTerm) :
    Constructs (construct name args) name args []
  | memberInit (name : String) (args : List AttributeTerm)
      (bindings : List (String × AttributeTerm)) :
    Constructs (memberInit (construct name args) bindings) name args bindings

variable {name : String} {args : List AttributeTerm} {bindings : List (String × AttributeTerm)}

/-- A custom attribute has the arguments and the properties of a constructor call, in order. -/
structure Compiles (session : Option Session) (name : String) (args : List AttributeTerm)
    (bindings : List (String × AttributeTerm)) (custom : CustomAttribute) : Prop where
  attributeName : custom.attributeName = name
  args : List.Forall₂ (Folds session) args custom.args
  names : custom.names = bindings.map (·.1)
  values : List.Forall₂ (Folds session) (bindings.map (·.2)) custom.values

/-- Arguments are folded before properties are set. -/
theorem takes_compile (h : e.Constructs name args bindings) :
  Takes session (compile session e) (args.flatMap steps ++ bindingSteps [] bindings)
    (Compiles session name args bindings)
  := by
  have hcompile : compile session e = (do
      let vs ← args.mapM (evaluate session)
      let ws ← evaluateBindings session [] bindings
      ExceptT.mk (pure (CustomAttribute.ofParts name vs (bindings.map (·.1)) ws))) := by
    cases h <;> rfl
  rw [hcompile]
  apply (Takes.mapM fun a _ => takes_evaluate session a).bind
  intro vs hvs
  rw [← List.append_nil (bindingSteps _ _)]
  apply (takes_evaluateBindings session [] bindings).bind
  intro ws hws
  have hlength : (bindings.map (·.1)).length = ws.length := by
    rw [← hws.length_eq, List.length_map, List.length_map]
  rw [CustomAttribute.ofParts, if_pos hlength]
  exact .pure ⟨rfl, hvs, rfl, hws⟩

/-- Any other expression is refused before a getter is called. -/
theorem exec_compile_of_not_constructs
    (h : ¬ ∃ name args bindings, e.Constructs name args bindings) (session : Option Session)
    (called : List String) :
  ∃ reason, (compile session e).exec called = (.error (.malformed reason), called)
  := by
  cases e with
  | construct name args => exact absurd ⟨_, _, _, .construct name args⟩ h
  | memberInit construction bindings =>
      cases construction with
      | construct name args => exact absurd ⟨_, _, _, .memberInit name args bindings⟩ h
      | _ => exact ⟨_, rfl⟩
  | _ => exact ⟨_, rfl⟩

/-- How an expression is evaluated, whatever getters have been called before. -/
structure Evaluates (session : Option Session) (e : AttributeTerm) : Prop where
  takes : Takes session (evaluate session e) e.steps (Folds session e)
  ok_iff : ∀ called v, ((evaluate session e).exec called).1 = .ok v ↔ Folds session e v
  runs : ∀ p, .part p ∈ e.steps → p.runs = true → ∀ called,
    ∃ reason, ((evaluate session e).exec called).1 = .error (.malformed reason)
  read : ∀ called, ∃ read, ((evaluate session e).exec called).2 = called ++ read
    ∧ read <+: e.getters
    ∧ ((∃ v, ((evaluate session e).exec called).1 = .ok v) → read = e.getters)

/-- How an expression is compiled to a custom attribute. -/
structure Compilation (session : Option Session) (e : AttributeTerm) : Prop where
  takes : ∀ name args bindings, e.Constructs name args bindings →
    Takes session (compile session e) (args.flatMap steps ++ bindingSteps [] bindings)
      (Compiles session name args bindings)
  refuses : (¬ ∃ name args bindings, e.Constructs name args bindings) → ∀ called,
    ∃ reason, (compile session e).exec called = (.error (.malformed reason), called)
  ok_iff : ∀ called, (∃ custom, ((compile session e).exec called).1 = .ok custom)
    ↔ ∃ name args bindings, e.Constructs name args bindings
      ∧ (∀ a ∈ args, ∃ v, Folds session a v) ∧ (∀ b ∈ bindings, ∃ v, Folds session b.2 v)
      ∧ (bindings.map (·.1)).Nodup
  distinct : ∀ called custom, ((compile session e).exec called).1 = .ok custom →
    custom.names.length = custom.values.length ∧ custom.names.Nodup
  malforms : ∀ called, Malforms ((compile session e).exec called).1
  read : ∀ called, ∃ read, ((compile session e).exec called).2 = called ++ read
    ∧ read <+: e.getters
    ∧ ((∃ custom, ((compile session e).exec called).1 = .ok custom) → read = e.getters)

theorem evaluates (session : Option Session) (e : AttributeTerm) : Evaluates session e where
  takes := takes_evaluate session e
  ok_iff called v :=
    ⟨fun hok => (takes_evaluate session e).answer_of_ok hok, fun hv => hv.exec_evaluate called⟩
  runs := by
    intro p hp hruns called
    have hnot : ¬ ∃ v, ((evaluate session e).exec called).1 = .ok v := by
      rw [(takes_evaluate session e).exists_ok_iff called]
      exact fun hpasses => not_passes_of_runs hruns (hpasses _ hp)
    cases hresult : ((evaluate session e).exec called).1 with
    | ok v => exact absurd ⟨v, hresult⟩ hnot
    | error error =>
        obtain ⟨reason, rfl⟩ := (takes_evaluate session e).malforms called error hresult
        exact ⟨reason, rfl⟩
  read := (takes_evaluate session e).exists_called (reads_steps session e)

/-- All steps of a constructor call pass if and only if its parts fold and no property is set
twice. -/
theorem compileSteps_pass_iff :
  (∀ s ∈ args.flatMap steps ++ bindingSteps [] bindings, s.Passes session)
    ↔ (∀ a ∈ args, ∃ v, Folds session a v) ∧ (∀ b ∈ bindings, ∃ v, Folds session b.2 v)
      ∧ (bindings.map (·.1)).Nodup
  := by
  have hargs : (∀ s ∈ args.flatMap steps, s.Passes session) ↔ ∀ a ∈ args, ∃ v, Folds session a v
    := by
    simp only [← steps_pass_iff, List.mem_flatMap]
    constructor
    · intro h a ha s hs
      exact h s ⟨a, ha, hs⟩
    · rintro h s ⟨a, ha, hs⟩
      exact h a ha s hs
  rw [List.forall_mem_append, hargs, bindingSteps_pass_iff]
  simp only [List.not_mem_nil, not_false_eq_true, implies_true, true_and]

namespace Constructs

/-- An expression is one constructor call only. -/
theorem unique
    {name' : String} {args' : List AttributeTerm} {bindings' : List (String × AttributeTerm)}
    (h : e.Constructs name args bindings) (h' : e.Constructs name' args' bindings') :
  name' = name ∧ args' = args ∧ bindings' = bindings
  := by
  cases h <;> cases h' <;> exact ⟨rfl, rfl, rfl⟩

theorem getters_eq (h : e.Constructs name args bindings) :
  e.getters = gettersOf args ++ bindingGetters bindings
  := by
  cases h with
  | construct => rw [getters, bindingGetters, List.append_nil]
  | memberInit => rw [getters, getters]

theorem compilation (h : e.Constructs name args bindings) (session : Option Session) :
  Compilation session e
  := by
  have htakes : Takes session _ _ _ := takes_compile h
  have hreads : Reads session (args.flatMap steps ++ bindingSteps [] bindings) e.getters := by
    rw [h.getters_eq]
    exact (Reads.flatMap fun a _ => reads_steps session a).append
      (reads_bindingSteps session [] bindings)
  refine ⟨?_, ?_, ?_, ?_, htakes.malforms, htakes.exists_called hreads⟩
  · intro name' args' bindings' h'
    exact takes_compile h'
  · intro hnot
    exact absurd ⟨name, args, bindings, h⟩ hnot
  · intro called
    rw [htakes.exists_ok_iff called, compileSteps_pass_iff]
    constructor
    · intro hparts
      exact ⟨name, args, bindings, h, hparts⟩
    · rintro ⟨name', args', bindings', h', hparts⟩
      obtain ⟨rfl, rfl, rfl⟩ := h.unique h'
      exact hparts
  · intro called custom hok
    have hcompiles := htakes.answer_of_ok hok
    obtain ⟨-, -, hnodup⟩ :=
      compileSteps_pass_iff.mp ((htakes.exists_ok_iff called).mp ⟨custom, hok⟩)
    rw [hcompiles.names, ← hcompiles.values.length_eq, List.length_map, List.length_map]
    exact ⟨rfl, hnodup⟩

end Constructs

theorem compilation_of_not_constructs
    (h : ¬ ∃ name args bindings, e.Constructs name args bindings) (session : Option Session) :
  Compilation session e
  := by
  have hrefuses := exec_compile_of_not_constructs h session
  have hfails : ∀ called custom, ((compile session e).exec called).1 ≠ .ok custom := by
    intro called custom hok
    obtain ⟨reason, hexec⟩ := hrefuses called
    rw [hexec] at hok
    cases hok
  refine ⟨?_, fun _ => hrefuses, ?_, ?_, ?_, ?_⟩
  · intro name args bindings hconstructs
    exact absurd ⟨name, args, bindings, hconstructs⟩ h
  · intro called
    constructor
    · rintro ⟨custom, hok⟩
      exact absurd hok (hfails called custom)
    · rintro ⟨name, args, bindings, hconstructs, -⟩
      exact absurd ⟨name, args, bindings, hconstructs⟩ h
  · intro called custom hok
    exact absurd hok (hfails called custom)
  · intro called
    obtain ⟨reason, hexec⟩ := hrefuses called
    rw [hexec]
    exact malforms_error reason
  · intro called
    obtain ⟨reason, hexec⟩ := hrefuses called
    refine ⟨[], ?_, List.nil_prefix, ?_⟩
    · rw [hexec, List.append_nil]
    · rintro ⟨custom, hok⟩
      exact absurd hok (hfails called custom)

/-- Every expression is evaluated in its steps, and compiled in those of its arguments and then of
its properties. -/
theorem evaluates_and_compiles (session : Option Session) (e : AttributeTerm) :
  Evaluates session e ∧ Compilation session e
  := by
  refine ⟨evaluates session e, ?_⟩
  by_cases h : ∃ name args bindings, e.Constructs name args bindings
  case pos =>
    obtain ⟨name, args, bindings, h⟩ := h
    exact h.compilation session
  case neg => exact compilation_of_not_constructs h session

/-- The getter behind an argument that would have to run is not called. -/
example :
  (compile none (.construct "A" [.getter "x" .null, .call "f" [], .getter "y" .null])).exec []
    = (.error (.malformed "method call 'f' cannot be folded to a constant"), ["x"])
  := rfl

/-- The payload has the values that arguments and properties are converted to. -/
example :
  (compile none (.memberInit (.construct "A" [.convert (.constant (.i32 300)) (.primitive .u8)])
      [("P", .convert (.getter "x" (.i32 40000)) (.primitive .i16))])).exec []
    = (.ok ⟨"A", [.i32 44], ["P"], [.i32 (-25536)]⟩, ["x"])
  := rfl

/-- The items of an array are converted to the type of its elements. -/
example :
  (compile none
      (.construct "A" [.newArray (.primitive .i64) [.constant (.i32 (-1)), .constant (.i64 2)]])).exec []
    = (.ok ⟨"A", [.array [.i64 (-1), .i64 2]], [], []⟩, [])
  := rfl

end AttributeTerm

end ManagedCode
