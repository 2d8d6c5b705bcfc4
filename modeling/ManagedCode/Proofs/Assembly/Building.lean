import ManagedCode.Assembly.Finalize
import ManagedCode.Assembly.Members
import Mathlib.Data.List.Forall2

/-!
# What building operations change

An operation answers, or fails, and leaves a workspace in both cases.  Apart from the
session, what the operations on a unit leave to later lookups is, for every type, its
base and the heads of its methods: `TypeDecl.Extends` says that a type has the same
place and base as before and that methods have been added at its end, and
`Workspace.Grows` that this is all that has happened to a unit, and to one type of it.
-/

/-- The answer of an operation with the state that it leaves. -/
def ExceptT.exec {ε σ α : Type} (b : ExceptT ε (StateM σ) α) (s : σ) : Except ε α × σ :=
  b.run.run s

namespace ManagedCode

/-- Two computations in sequence answer only if both do. -/
theorem exists_of_bind_ok
    {ε α β : Type} {x : Except ε α} {f : α → Except ε β} {b : β} :
  (x >>= f) = .ok b → ∃ a, x = .ok a ∧ f a = .ok b
  := by
  intro h
  match x, h with
  | .ok a, h => exact ⟨a, rfl, h⟩

/-- A computation goes on behind a guard only if the guard lets it. -/
theorem of_guard_ok
    {ε α β : Type} {c : Prop} [Decidable c] {e : ε} {f : α → Except ε β} {x : Except ε β} {b : β} :
  (if c then (throw e : Except ε α) >>= f else x) = .ok b → ¬c ∧ x = .ok b
  := by
  split
  · intro h
    cases h
  · next hc =>
    intro h
    exact ⟨hc, h⟩

/-! ## Operations that keep the state in which they fail -/

section

variable {σ α β : Type}

/-- One operation after another goes on from what the first one leaves. -/
theorem exec_bind
    {ε : Type} (b : ExceptT ε (StateM σ) α) (f : α → ExceptT ε (StateM σ) β) (s : σ) :
  (b >>= f).exec s = match (b.exec s).1 with
    | .ok a => (f a).exec (b.exec s).2
    | .error e => (.error e, (b.exec s).2)
  := by
  unfold ExceptT.exec
  rw [ExceptT.run_bind, StateT.run_bind]
  generalize b.run.run s = outcome
  obtain ⟨r, s'⟩ := outcome
  cases r <;> rfl

/-- Two operations in sequence answer only if both do. -/
theorem exists_of_exec_bind_ok
    {ε : Type} {b : ExceptT ε (StateM σ) α} {f : α → ExceptT ε (StateM σ) β} {s s' : σ} {c : β}
    (h : (b >>= f).exec s = (.ok c, s')) :
  ∃ a s₁, b.exec s = (.ok a, s₁) ∧ (f a).exec s₁ = (.ok c, s')
  := by
  rw [exec_bind] at h
  split at h
  · next a ha => exact ⟨a, _, Prod.ext ha rfl, h⟩
  · cases h

/-- Two operations in sequence fail if one of them does. -/
theorem cases_of_exec_bind_error
    {ε : Type} {b : ExceptT ε (StateM σ) α} {f : α → ExceptT ε (StateM σ) β} {s s' : σ} {e : ε}
    (h : (b >>= f).exec s = (.error e, s')) :
  b.exec s = (.error e, s')
  ∨ ∃ a s₁, b.exec s = (.ok a, s₁) ∧ (f a).exec s₁ = (.error e, s')
  := by
  rw [exec_bind] at h
  split at h
  · next a ha =>
    right
    exact ⟨a, _, Prod.ext ha rfl, h⟩
  · next e' he =>
    left
    cases h
    exact Prod.ext he rfl

/-- The handler of a failure goes on from what the failed operation leaves. -/
theorem exec_tryCatch
    (b : ExceptT BuildError (StateM σ) α) (h : BuildError → ExceptT BuildError (StateM σ) α)
    (s : σ) :
  (tryCatch b h).exec s = match (b.exec s).1 with
    | .ok _ => b.exec s
    | .error e => (h e).exec (b.exec s).2
  := by
  unfold ExceptT.exec
  rw [ExceptT.run_tryCatch, StateT.run_bind]
  generalize b.run.run s = outcome
  obtain ⟨r, s'⟩ := outcome
  cases r <;> rfl

/-- A decision is made before anything is done. -/
theorem exec_ite
    (c : Prop) [Decidable c] (b b' : ExceptT BuildError (StateM σ) α) (s : σ) :
  (if c then b else b').exec s = if c then b.exec s else b'.exec s
  := by
  split <;> rfl

@[simp] theorem exec_pure (a : α) (s : σ) :
  (pure a : ExceptT BuildError (StateM σ) α).exec s = (.ok a, s)
  := rfl

@[simp] theorem exec_throw (e : BuildError) (s : σ) :
  (throw e : ExceptT BuildError (StateM σ) α).exec s = (.error e, s)
  := rfl

@[simp] theorem exec_get (s : σ) :
  (get : ExceptT BuildError (StateM σ) σ).exec s = (.ok s, s)
  := rfl

@[simp] theorem exec_modify (f : σ → σ) (s : σ) :
  (modify f : ExceptT BuildError (StateM σ) PUnit).exec s = (.ok ⟨⟩, f s)
  := rfl

@[simp] theorem exec_set (s s' : σ) :
  (set s' : ExceptT BuildError (StateM σ) PUnit).exec s = (.ok ⟨⟩, s')
  := rfl

/-- An operation keeps a property of the state, also when it fails. -/
def Keeps (P : σ → Prop) (b : ExceptT BuildError (StateM σ) α) : Prop :=
  ∀ s, P s → P (b.exec s).2

/-- An answer changes nothing. -/
theorem keeps_pure (P : σ → Prop) (a : α) :
  Keeps P (pure a : ExceptT BuildError (StateM σ) α)
  :=
  fun _ hs => hs

/-- Operations that keep a property may follow each other. -/
theorem keeps_bind
    {P : σ → Prop} {b : ExceptT BuildError (StateM σ) α}
    {f : α → ExceptT BuildError (StateM σ) β} (hb : Keeps P b) (hf : ∀ a, Keeps P (f a)) :
  Keeps P (b >>= f)
  := by
  intro s hs
  rw [exec_bind]
  cases (b.exec s).1 with
  | ok a => apply hf a _ (hb s hs)
  | error e => apply hb s hs

/-- So may one for each item. -/
theorem keeps_forM
    {P : σ → Prop} {xs : List β} {f : β → ExceptT BuildError (StateM σ) PUnit}
    (hf : ∀ x ∈ xs, Keeps P (f x)) :
  Keeps P (xs.forM f)
  := by
  induction xs with
  | nil => apply keeps_pure
  | cons x xs ih =>
      change Keeps P (f x >>= fun _ => xs.forM f)
      apply keeps_bind (hf x List.mem_cons_self)
      intro _
      apply ih
      intro y hy
      apply hf y (List.mem_cons_of_mem _ hy)

end

namespace Build

@[simp] theorem exec_ask (f : Workspace → Except BuildError α) (w : Workspace) :
  (ask f).exec w = (f w, w)
  := by
  rw [ask]
  rw [exec_bind, exec_get]
  dsimp only
  cases f w <;> rfl

@[simp] theorem exec_updateType (id : TypeId) (f : TypeDecl → TypeDecl) (w : Workspace) :
  (updateType id f).exec w = (.ok (), { w with assembly := w.assembly.update id f })
  := rfl

end Build

/-! ## Types that grow -/

/-- What is settled of a method when it is declared. -/
def MethodDecl.head (m : MethodDecl) : MethodDecl :=
  { m with body := none, customAttributes := [] }

/-- A type has kept its place, its base and the heads of its methods, and methods have
been added at its end. -/
structure TypeDecl.Extends (ms : List MethodDecl) (d d' : TypeDecl) : Prop where
  handle : d'.handle = d.handle
  fullName : d'.fullName = d.fullName
  base : d'.base = d.base
  state : d'.state = d.state
  methods : d'.methods.map (·.head) = d.methods.map (·.head) ++ ms.map (·.head)
  building : ms ≠ [] → d.state = .building

namespace TypeDecl

/-- A declaration extends itself by nothing. -/
theorem Extends.refl (d : TypeDecl) :
  d.Extends [] d
  :=
  ⟨rfl, rfl, rfl, rfl, by simp, by simp⟩

/-- One extension after another adds the methods of both. -/
theorem Extends.trans
    {ms ms' : List MethodDecl} {d d' d'' : TypeDecl} (h : d.Extends ms d')
    (h' : d'.Extends ms' d'') :
  d.Extends (ms ++ ms') d''
  := by
  constructor
  · rw [h'.handle, h.handle]
  · rw [h'.fullName, h.fullName]
  · rw [h'.base, h.base]
  · rw [h'.state, h.state]
  · rw [h'.methods, h.methods, List.map_append, List.append_assoc]
  · intro hne
    by_cases hms : ms = []
    · rw [← h.state]
      apply h'.building
      simpa [hms] using hne
    · apply h.building hms

/-- An extended declaration has the same number. -/
theorem Extends.id_eq {ms : List MethodDecl} {d d' : TypeDecl} (h : d.Extends ms d') :
  d'.id = d.id
  :=
  congrArg DefinedType.id h.handle

/-- Taking back the method that has just been added leaves the methods as before. -/
theorem Extends.push_drop (d : TypeDecl) (m : MethodDecl) :
  d.Extends [] ((d.pushMethod m).dropMethod d.methods.length)
  := by
  have hlength : (d.pushMethod m).methods.length = d.methods.length + 1 := by simp [pushMethod]
  rw [dropMethod]
  rw [if_pos hlength]
  exact ⟨rfl, rfl, rfl, rfl, by simp [pushMethod], by simp⟩

/-- A declaration that loses a method keeps its handle. -/
theorem dropMethod_handle (d : TypeDecl) (index : Nat) :
  (d.dropMethod index).handle = d.handle
  := by
  rw [dropMethod]
  split <;> rfl

/-- A method is added at the end. -/
theorem Extends.push (d : TypeDecl) (m : MethodDecl) (hd : d.state = .building) :
  d.Extends [m] (d.pushMethod m)
  :=
  ⟨rfl, rfl, rfl, rfl, by simp [pushMethod], fun _ => hd⟩

/-- Changing what is not settled of one method. -/
theorem Extends.modify
    (d : TypeDecl) (index : Nat) (f : MethodDecl → MethodDecl) (hf : ∀ m, (f m).head = m.head) :
  d.Extends [] { d with methods := d.methods.modify index f }
  := by
  refine ⟨rfl, rfl, rfl, rfl, ?_, by simp⟩
  simp only [List.map_nil, List.append_nil]
  apply List.ext_getElem?
  intro i
  simp only [List.getElem?_map, List.getElem?_modify]
  by_cases hi : index = i <;> simp [hi, Function.comp_def, hf]

/-- A body is no new method. -/
theorem Extends.setBody (d : TypeDecl) (index : Nat) (body : MethodBody) :
  d.Extends [] (d.setBody index body)
  :=
  Extends.modify d index _ fun _ => rfl

/-- Cutting a type back to its first methods. -/
theorem Extends.truncate
    {d d' : TypeDecl} {ms : List MethodDecl} (h : d.Extends ms d') (fields members : Nat) :
  d.Extends [] (d'.truncate fields d.methods.length members)
  := by
  refine ⟨h.handle, h.fullName, h.base, h.state, ?_, by simp⟩
  change (d'.methods.take d.methods.length).map (·.head) = _
  rw [List.map_take, h.methods, List.take_left' (by simp)]
  simp

end TypeDecl

/-- What is not realized is being built. -/
theorem TypeDecl.state_of_not_realized {d : TypeDecl} (h : ¬ d.isRealized) :
  d.state = .building
  := by
  cases hstate : d.state with
  | building => rfl
  | realized => simp [TypeDecl.isRealized, hstate] at h

/-- A declaration is found under its number. -/
theorem Assembly.decl?_id {a : Assembly} {x : TypeId} {d : TypeDecl} (hd : a.decl? x = some d) :
  d.id = x
  := by
  have := List.find?_some hd
  simpa using this

/-- What is asked for and found is a declaration of the unit. -/
theorem Assembly.decl_ok {a : Assembly} {x : TypeId} {d : TypeDecl} (hd : a.decl x = .ok d) :
  a.decl? x = some d
  := by
  rw [Assembly.decl] at hd
  split at hd
  · cases hd
    assumption
  · cases hd

/-- What may be changed is a declaration that is being built. -/
theorem Assembly.building_ok {a : Assembly} {id : TypeId} {d : TypeDecl}
    (hd : a.building id = .ok d) :
  a.decl? id = some d ∧ d.state = .building
  := by
  obtain ⟨d', hd', hbuilding⟩ := exists_of_bind_ok hd
  split at hbuilding
  · cases hbuilding
  · next hrealized =>
    cases hbuilding
    refine ⟨Assembly.decl_ok hd', ?_⟩
    apply TypeDecl.state_of_not_realized hrealized

/-- A change of one declaration leaves the others. -/
theorem Assembly.decl?_update
    (a : Assembly) (id : TypeId) (f : TypeDecl → TypeDecl)
    (hf : ∀ d, (f d).handle = d.handle) (x : TypeId) :
  (a.update id f).decl? x = (a.decl? x).map fun d => if d.id = id then f d else d
  := by
  have hid : ∀ d : TypeDecl, (if d.id = id then f d else d).id = d.id := by
    intro d
    split
    · apply congrArg DefinedType.id (hf d)
    · rfl
  simp only [Assembly.decl?, Assembly.update, beq_iff_eq, List.find?_map, Function.comp_def, hid]

/-- A change that keeps handles keeps all of them. -/
theorem Assembly.update_handles
    (a : Assembly) (id : TypeId) {f : TypeDecl → TypeDecl} (hf : ∀ d, (f d).handle = d.handle) :
  (a.update id f).types.map (·.handle) = a.types.map (·.handle)
  := by
  simp only [Assembly.update, List.map_map]
  apply List.map_congr_left
  intro d _
  simp only [Function.comp]
  split
  · apply hf d
  · rfl

/-- Two changes of one declaration are one change. -/
theorem Assembly.update_update
    (a : Assembly) (x : TypeId) (f : TypeDecl → TypeDecl) {g : TypeDecl → TypeDecl}
    (hf : ∀ d, (f d).handle = d.handle) :
  (a.update x f).update x g = a.update x fun d => g (f d)
  := by
  have hid : ∀ d, (f d).id = d.id := fun d => congrArg DefinedType.id (hf d)
  simp only [Assembly.update, List.map_map]
  congr 1
  apply List.map_congr_left
  intro d _
  simp only [Function.comp]
  split <;> simp_all

/-- One type of a unit has got methods, and no other type has changed as far as lookups
can tell. -/
structure Workspace.Grows (id : TypeId) (ms : List MethodDecl) (w w' : Workspace) : Prop where
  session : w'.session = w.session
  finalized : w'.assembly.finalized = w.assembly.finalized
  handles : w'.assembly.types.map (·.handle) = w.assembly.types.map (·.handle)
  decl : ∀ x, Option.Rel (TypeDecl.Extends (if x = id then ms else []))
    (w.assembly.decl? x) (w'.assembly.decl? x)

namespace Workspace

/-- A workspace in which one type of the unit has been changed. -/
def updated (w : Workspace) (id : TypeId) (f : TypeDecl → TypeDecl) : Workspace :=
  { w with assembly := w.assembly.update id f }

/-- Two changes of one declaration are one change. -/
theorem updated_updated
    (w : Workspace) (id : TypeId) (f : TypeDecl → TypeDecl) {g : TypeDecl → TypeDecl}
    (hf : ∀ d, (f d).handle = d.handle) :
  (w.updated id f).updated id g = w.updated id fun d => g (f d)
  := by
  simp only [updated]
  rw [Assembly.update_update _ _ f hf]

/-- A workspace grows by nothing as it stays. -/
theorem Grows.refl (id : TypeId) (w : Workspace) :
  w.Grows id [] w
  := by
  refine ⟨rfl, rfl, rfl, fun x => ?_⟩
  cases w.assembly.decl? x with
  | none => exact .none
  | some d =>
      rw [ite_self]
      exact .some (.refl d)

/-- One growth after another adds the methods of both. -/
theorem Grows.trans
    {id : TypeId} {ms ms' : List MethodDecl} {w w' w'' : Workspace} (h : w.Grows id ms w')
    (h' : w'.Grows id ms' w'') :
  w.Grows id (ms ++ ms') w''
  := by
  refine ⟨h'.session.trans h.session, h'.finalized.trans h.finalized,
    h'.handles.trans h.handles, fun x => ?_⟩
  have hx := h.decl x
  have hx' := h'.decl x
  revert hx hx'
  generalize w.assembly.decl? x = a, w'.assembly.decl? x = b, w''.assembly.decl? x = c
  intro hx hx'
  cases hx with
  | none =>
      cases hx'
      exact .none
  | some hx =>
      cases hx' with
      | some hx' =>
          apply Option.Rel.some
          by_cases hid : x = id
          · simp only [if_pos hid] at hx hx' ⊢
            apply hx.trans hx'
          · simp only [if_neg hid] at hx hx' ⊢
            apply hx.trans hx'

/-- A workspace grows as one of its declarations does. -/
theorem Grows.updated
    {id : TypeId} {ms : List MethodDecl} {f : TypeDecl → TypeDecl} (w : Workspace)
    (hhandle : ∀ d, (f d).handle = d.handle)
    (hf : ∀ d, w.assembly.decl? id = some d → d.Extends ms (f d)) :
  w.Grows id ms (w.updated id f)
  := by
  refine ⟨rfl, rfl, ?_, fun x => ?_⟩
  · apply Assembly.update_handles _ id hhandle
  · change Option.Rel _ _ ((w.assembly.update id f).decl? x)
    rw [Assembly.decl?_update _ _ _ hhandle]
    cases hd : w.assembly.decl? x with
    | none => exact .none
    | some d =>
        have hx : d.id = x := Assembly.decl?_id hd
        apply Option.Rel.some
        by_cases hid : x = id
        · rw [if_pos hid]
          simp only [if_pos (hx.trans hid)]
          apply hf d
          rw [← hid, hd]
        · rw [if_neg hid]
          simp only [hx, if_neg hid]
          apply TypeDecl.Extends.refl

/-- Cutting a type back to the methods that it had. -/
theorem Grows.truncate
    {id : TypeId} {ms : List MethodDecl} {w w' : Workspace} {d : TypeDecl}
    (h : w.Grows id ms w') (hd : w.assembly.decl? id = some d) (fields members : Nat) :
  w.Grows id [] (w'.updated id (·.truncate fields d.methods.length members))
  := by
  refine ⟨h.session, h.finalized, ?_, fun x => ?_⟩
  · rw [← h.handles]
    apply Assembly.update_handles
    intro d'
    rfl
  · change Option.Rel _ _ ((w'.assembly.update id _).decl? x)
    rw [Assembly.decl?_update _ id (·.truncate fields d.methods.length members) fun _ => rfl,
      ite_self]
    have hx := h.decl x
    by_cases hid : x = id
    · subst hid
      rw [if_pos rfl] at hx
      rw [hd] at hx ⊢
      cases hd' : w'.assembly.decl? x with
      | none =>
          rw [hd'] at hx
          cases hx
      | some d' =>
          rw [hd'] at hx
          cases hx with
          | some hx =>
              apply Option.Rel.some
              simp only [if_pos (Assembly.decl?_id hd')]
              apply hx.truncate
    · rw [if_neg hid] at hx
      cases hd' : w'.assembly.decl? x with
      | none =>
          rw [hd'] at hx
          apply hx
      | some d' =>
          rw [hd'] at hx
          simp only [Option.map_some, Assembly.decl?_id hd', if_neg hid]
          apply hx

/-- A change that is not settled leaves a unit as it was. -/
theorem Grows.untouched
    {id : TypeId} {f : TypeDecl → TypeDecl} (w : Workspace) (hf : ∀ d, TypeDecl.Extends [] d (f d)) :
  w.Grows id [] (w.updated id f)
  :=
  Grows.updated w (fun d => (hf d).handle) (fun d _ => hf d)

end Workspace

end ManagedCode
