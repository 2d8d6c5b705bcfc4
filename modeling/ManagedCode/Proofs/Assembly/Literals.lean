import ManagedCode.Proofs.Assembly.Revisions
import Mathlib.Algebra.Group.Int.Defs

/-!
# The literals of an enumeration

The fields of an enumeration are the literals that have been accepted, in the order of the calls
that have defined them (`Project.literals_of_history`).  A literal has the value that is given, or
one more than the literal before it, and a value that the enumeration cannot have is refused.  Two
things go otherwise.  What follows the greatest 64-bit value is the least one; and a value of an
unsigned 32-bit enumeration that has its highest bit set is written down as a negative number.
-/

namespace ManagedCode

variable {ρ : Type} {w : Workspace} {d : TypeDecl} {p : Primitive}

/-! ## Values -/

/-- The values of an integral type.  Those of the unsigned 64-bit type are told by their bits. -/
def Primitive.Represents (p : Primitive) (n : Int) : Prop :=
  match p.form with
  | .signed width => -2 ^ (width.bits - 1) ≤ n ∧ n < 2 ^ (width.bits - 1)
  | .unsigned .w64 => -2 ^ 63 ≤ n ∧ n < 2 ^ 63
  | .unsigned width => 0 ≤ n ∧ n < 2 ^ width.bits
  | .char => 0 ≤ n ∧ n < 2 ^ 16
  | _ => False

theorem Primitive.admits_iff (p : Primitive) (v : Int64) :
  p.admits v = true ↔ p.Represents v.toInt
  := by
  have hlow := v.le_toInt
  have hhigh := v.toInt_lt
  cases p <;>
    simp only [admits, Represents, form, IntWidth.bits, decide_eq_true_eq] <;> grind

/-- What is read of a constant that an integer has been written down as. -/
theorem Constant.asI64?_integral {v : Int64} (h : p.Represents v.toInt) :
  (integral v p).asI64?.map Int64.toInt
    = some (if p = .u32 ∧ 2 ^ 31 ≤ v.toInt then v.toInt - 2 ^ 32 else v.toInt)
  := by
  have hnarrow : v.toInt32.toInt64.toInt = v.toInt.bmod (2 ^ 32) := by
    rw [Int32.toInt_toInt64, Int64.toInt_toInt32]
  cases p <;>
    simp only [Primitive.Represents, Primitive.form, IntWidth.bits] at h <;>
    simp only [integral, asI64?, Option.map_some, hnarrow, Option.some.injEq, Int.bmod_def] <;>
    grind

/-- A literal of an enumeration, with its value. -/
structure Literal where
  name : String
  value : Int64
deriving DecidableEq

/-- The field of an enumeration that a literal is. -/
def Literal.field (l : Literal) (h : DefinedType) (p : Primitive) : FieldDecl :=
  { name := l.name
    type := .defined h
    attributes := .ofLiteral
    constant := some (.integral l.value p) }

/-- What comes behind the last literal, in 64 bits. -/
def Literal.successor (ls : List Literal) : Int64 :=
  match ls.getLast? with
  | none => 0
  | some l => l.value + 1

/-! ## Calls -/

/-- A call that defines a literal, with the unit that it finds. -/
structure LiteralCall where
  workspace : Workspace
  name : String
  value : Option Int64

namespace LiteralCall

/-- What a call comes to. -/
def exec (c : LiteralCall) (id : TypeId) : Except BuildError FieldRef × Workspace :=
  (Build.defineLiteral id c.name c.value).exec c.workspace

/-- The value that a call asks for behind the literals that there are. -/
inductive Value (c : LiteralCall) (ls : List Literal) : Int64 → Prop
  | given {v : Int64} (h : c.value = some v) : Value c ls v
  | first (h : c.value = none) (hnone : ls.getLast? = none) : Value c ls 0
  | next {l : Literal} {v : Int64} (h : c.value = none) (hlast : ls.getLast? = some l)
      (hv : v.toInt = l.value.toInt + 1) : Value c ls v
  | wraps {l : Literal} (h : c.value = none) (hlast : ls.getLast? = some l)
      (hmax : l.value = .maxValue) : Value c ls .minValue

/-- Why a call is refused when the given literals are there. -/
inductive Refusal (c : LiteralCall) (id : TypeId) (p : Primitive) (ls : List Literal) : Prop
  | unnamed (h : c.name = "")
  | closed (e : BuildError) (h : c.workspace.assembly.building id = .error e)
  | unfit (v : Int64) (hv : c.Value ls v) (hfit : ¬p.Represents v.toInt)
  | taken (l : Literal) (hl : l ∈ ls) (h : l.name = c.name)

/-- The literals that calls on an enumeration have left.  A call that is refused leaves the unit as
it has found it. -/
inductive Account (id : TypeId) (p : Primitive) : List LiteralCall → List Literal → Prop
  | nil : Account id p [] []
  | accepted {calls : List LiteralCall} {ls : List Literal} {c : LiteralCall} {v : Int64}
      (h : Account id p calls ls) (hname : c.name ≠ "")
      (hopen : ∃ d, c.workspace.assembly.building id = .ok d) (hvalue : c.Value ls v)
      (hfit : p.Represents v.toInt) (hfree : ∀ l ∈ ls, l.name ≠ c.name)
      (hanswer : (c.exec id).1 = .ok ⟨id, ls.length⟩) :
      Account id p (calls ++ [c]) (ls ++ [⟨c.name, v⟩])
  | refused {calls : List LiteralCall} {ls : List Literal} {c : LiteralCall} {e : BuildError}
      (h : Account id p calls ls) (hreason : c.Refusal id p ls)
      (hanswer : c.exec id = (.error e, c.workspace)) : Account id p (calls ++ [c]) ls

variable {c : LiteralCall} {id : TypeId} {calls : List LiteralCall} {ls : List Literal}

theorem value_getD (c : LiteralCall) (ls : List Literal) :
  c.Value ls (c.value.getD (Literal.successor ls))
  := by
  cases hvalue : c.value with
  | some v => exact .given hvalue
  | none =>
      rw [Option.getD_none, Literal.successor]
      cases hlast : ls.getLast? with
      | none => exact .first hvalue hlast
      | some l =>
          dsimp only
          by_cases hmax : l.value = .maxValue
          · rw [hmax]
            exact .wraps hvalue hlast hmax
          · apply Value.next hvalue hlast
            have hlt : l.value.toInt ≠ 2 ^ 63 - 1 := by
              rw [← Int64.toInt_maxValue]
              intro h
              exact hmax (Int64.toInt_inj.mp h)
            have hlow := l.value.le_toInt
            have hhigh := l.value.toInt_lt
            rw [Int64.toInt_add, Int64.toInt_one]
            apply Int.bmod_eq_of_le <;> omega

/-- An accepted literal has a value of the enumeration. -/
theorem Account.represents (h : Account id p calls ls) : ∀ l ∈ ls, p.Represents l.value.toInt := by
  induction h with
  | nil =>
      intro l hl
      cases hl
  | accepted h hname hopen hvalue hfit hfree hanswer ih =>
      intro l hl
      obtain hold | hnew := List.mem_append.mp hl
      · exact ih l hold
      · rw [List.mem_singleton.mp hnew]
        exact hfit
  | refused h hreason hanswer ih => exact ih

end LiteralCall

/-! ## One call -/

/-- The fields of an enumeration are its literals, and the next one comes behind them. -/
structure TypeDecl.Lists (d : TypeDecl) (p : Primitive) (ls : List Literal) : Prop where
  kind : d.handle.kind = .enumType p
  fields : d.fields = ls.map (·.field d.handle p)
  next : d.nextLiteral = Literal.successor ls

theorem TypeDecl.Lists.push {ls : List Literal} (h : d.Lists p ls) (name : String) (v : Int64) :
  TypeDecl.Lists
    { d.pushField ((⟨name, v⟩ : Literal).field d.handle p) with nextLiteral := v + 1 } p
    (ls ++ [⟨name, v⟩])
  := by
  refine ⟨h.kind, ?_, ?_⟩
  · change d.fields ++ [_] = _
    rw [h.fields, List.map_append]
    rfl
  · rw [Literal.successor, List.getLast?_concat]

namespace Build

/-- A field is appended unless its name is taken. -/
theorem exec_pushField_open (h : w.Editable d) (f : FieldDecl) :
  (pushField d.id f).exec w =
    if d.fields.any (·.name == f.name) then (.error (.duplicateMember d.fullName f.name), w)
    else (.ok (d.fieldRef d.fields.length), w.redefining (d.pushField f))
  := by
  rw [pushField]
  rw [exec_bind, exec_building h]
  dsimp only
  rw [exec_ite]
  split
  · rfl
  · rw [exec_bind, exec_updateType]
    change (_, w.updated d.id _) = _
    rw [h.updated_eq (f := (·.pushField f)) rfl]

/-- What a call on an open enumeration comes to. -/
theorem exec_defineLiteral_open
    (h : w.Editable d) (hkind : d.handle.kind = .enumType p) (name : String)
    (value : Option Int64) :
  (defineLiteral d.id name value).exec w =
    let v := value.getD d.nextLiteral
    if name.isEmpty then (.error (.emptyName "Literal"), w)
    else if !p.admits v then
      (.error (.invalidMember (w.typeName d.id)
        ("literal '" ++ name ++ "' value " ++ toString v.toInt ++ " does not fit " ++ p.name)), w)
    else if d.fields.any (·.name == name) then (.error (.duplicateMember d.fullName name), w)
    else (.ok (d.fieldRef d.fields.length), w.redefining
      { d.pushField ((⟨name, v⟩ : Literal).field d.handle p) with nextLiteral := v + 1 })
  := by
  rw [defineLiteral]
  rw [exec_ite]
  split
  · rfl
  · rw [exec_bind, exec_building h]
    simp only [hkind]
    rw [exec_ite]
    split
    · rfl
    · rw [exec_bind, exec_pushField_open h]
      dsimp only
      by_cases htaken : d.fields.any (·.name == name) = true
      · rw [if_pos htaken, if_pos htaken]
      · rw [if_neg htaken, if_neg htaken]
        dsimp only
        rw [exec_bind, exec_updateType]
        exact congrArg _ (updated_pushField h _ _)

end Build

namespace LiteralCall

variable {c : LiteralCall} {id : TypeId} {calls : List LiteralCall} {ls : List Literal}

/-- A call on a type that is not open is refused. -/
theorem exec_closed {e : BuildError} (h : c.workspace.assembly.building id = .error e) :
  ∃ e', c.exec id = (.error e', c.workspace)
  := by
  have hneeds : Build.Needs id (Build.defineLiteral id c.name c.value) :=
    Build.needs_guard (Build.needs_building _)
  exact hneeds h

/-- An open enumeration goes on to list its literals, whether a call is accepted or refused.  A call
that is refused leaves it as it is. -/
theorem Account.call
    (h : Account d.id p calls ls) (hd : c.workspace.Editable d) (hlists : d.Lists p ls) :
  ∃ d' ls', (c.exec d.id).2 = c.workspace.redefining d' ∧ d'.id = d.id ∧ d'.Lists p ls'
    ∧ Account d.id p (calls ++ [c]) ls'
  := by
  have hvalue := c.value_getD ls
  have hexec := Build.exec_defineLiteral_open hd hlists.kind c.name c.value
  rw [hlists.next] at hexec
  change c.exec d.id = _ at hexec
  dsimp only at hexec
  have hrefused : ∀ {e}, c.exec d.id = (.error e, c.workspace) → c.Refusal d.id p ls →
      ∃ d' ls', (c.exec d.id).2 = c.workspace.redefining d' ∧ d'.id = d.id ∧ d'.Lists p ls'
        ∧ Account d.id p (calls ++ [c]) ls' := by
    intro e he hreason
    refine ⟨d, ls, ?_, rfl, hlists, .refused h hreason he⟩
    rw [he, hd.redefining_self]
  split at hexec
  · next hname => exact hrefused hexec (.unnamed (String.isEmpty_iff.mp hname))
  · next hname =>
    split at hexec
    · next hfit =>
      apply hrefused hexec (.unfit _ hvalue _)
      rw [← Primitive.admits_iff]
      simpa using hfit
    · next hfit =>
      have hrepresents : p.Represents (c.value.getD (Literal.successor ls)).toInt := by
        rw [← Primitive.admits_iff]
        simpa using hfit
      split at hexec
      · next htaken =>
        rw [hlists.fields, List.any_map, List.any_eq_true] at htaken
        obtain ⟨l, hl, hsame⟩ := htaken
        exact hrefused hexec (.taken l hl (beq_iff_eq.mp hsame))
      · next hfree =>
        refine ⟨_, _, congrArg Prod.snd hexec, rfl, hlists.push c.name _, ?_⟩
        apply h.accepted (fun hempty => hname (String.isEmpty_iff.mpr hempty))
          ⟨d, hd.building_eq⟩ hvalue hrepresents
        · intro l hl hsame
          apply hfree
          rw [hlists.fields, List.any_map, List.any_eq_true]
          exact ⟨l, hl, beq_iff_eq.mpr hsame⟩
        · rw [hexec, hlists.fields, List.length_map]
          rfl

end LiteralCall

/-! ## All calls -/

namespace Project

variable {q : Project} {i : Nat} {a : Assembly} {id : TypeId} {calls : List LiteralCall}

/-- What a unit declares under a number. -/
def declIn? (q : Project) (i : Nat) (id : TypeId) : Option TypeDecl :=
  q.units[i]?.bind (·.decl? id)

/-- The call by which an event defines a literal of a type of a unit. -/
def literalCall (q : Project) (i : Nat) (id : TypeId) : HostEvent ρ → List LiteralCall
  | .build (.change j (.defineLiteral x name value)) =>
    if j = i ∧ x = id then q.units[i]?.toList.map fun a => ⟨q.workspace a, name, value⟩ else []
  | _ => []

/-- All calls that define literals of a type of a unit, accepted or refused. -/
def literalCalls (i : Nat) (id : TypeId) : Project → List (HostEvent ρ) → List LiteralCall
  | _, [] => []
  | q, e :: later => q.literalCall i id e ++ literalCalls i id (q.host e) later

theorem literalCalls_concat (q : Project) (history : List (HostEvent ρ)) (e : HostEvent ρ) :
  q.literalCalls i id (history ++ [e])
    = q.literalCalls i id history ++ (q.run history).literalCall i id e
  := by
  induction history generalizing q with
  | nil => exact List.append_nil _
  | cons first history ih =>
      rw [List.cons_append, literalCalls, literalCalls, ih, List.append_assoc]
      rfl

/-- The calls on a type account for its literals, if it is an enumeration; as long as there is no
such type, all of them have been refused. -/
structure Accounted (q : Project) (i : Nat) (id : TypeId) (calls : List LiteralCall) : Prop where
  absent : q.declIn? i id = none → ∀ p, LiteralCall.Account id p calls []
  declared : ∀ d p, q.declIn? i id = some d → d.handle.kind = .enumType p →
    ∃ ls, d.Lists p ls ∧ LiteralCall.Account id p calls ls

theorem Accounted.of_declIn?
    {q' : Project} (h : q.Accounted i id calls) (hsame : q'.declIn? i id = q.declIn? i id) :
  q'.Accounted i id calls
  := by
  refine ⟨?_, ?_⟩
  · rw [hsame]
    exact h.absent
  · rw [hsame]
    exact h.declared

theorem declIn?_of_unit (ha : q.units[i]? = some a) : q.declIn? i id = a.decl? id := by
  rw [declIn?, ha, Option.bind_some]

theorem declIn?_put (ha : q.units[i]? = some a) (w' : Workspace) :
  (q.put i w').declIn? i id = w'.assembly.decl? id
  := by
  rw [declIn?_of_unit (put_same ha)]

/-- A call on the type. -/
theorem Accounted.call
    (h : q.Accounted i id calls) (ha : q.units[i]? = some a) (horderly : (q.workspace a).Orderly)
    (name : String) (value : Option Int64) :
  (q.put i ((Build.defineLiteral id name value).exec (q.workspace a)).2).Accounted i id
    (calls ++ [⟨q.workspace a, name, value⟩])
  := by
  let c : LiteralCall := ⟨q.workspace a, name, value⟩
  change (q.put i (c.exec id).2).Accounted i id (calls ++ [c])
  have hdecl : q.declIn? i id = a.decl? id := declIn?_of_unit ha
  cases hbuilding : (q.workspace a).assembly.building id with
  | error e =>
      obtain ⟨e', hexec⟩ := c.exec_closed hbuilding
      have hrefused : ∀ {p ls}, LiteralCall.Account id p calls ls →
          LiteralCall.Account id p (calls ++ [c]) ls :=
        fun haccount => .refused haccount (.closed e hbuilding) hexec
      rw [hexec, put_self ha]
      refine ⟨fun hnone p => hrefused (h.absent hnone p), fun d p hd hkind => ?_⟩
      obtain ⟨ls, hlists, haccount⟩ := h.declared d p hd hkind
      exact ⟨ls, hlists, hrefused haccount⟩
  | ok d =>
      obtain ⟨heditable, rfl⟩ := horderly.editable hbuilding
      have hd : c.workspace.assembly.decl? d.id = some d := heditable.decl
      obtain ⟨d', hd', hrevises⟩ :=
        (Change.defineLiteral d.id name value : Change Unit).revises horderly hd
      change (c.exec d.id).2.assembly.decl? d.id = some d' at hd'
      refine ⟨fun hnone => ?_, fun d'' p hd'' hkind => ?_⟩
      · rw [declIn?_put ha, hd'] at hnone
        cases hnone
      · rw [declIn?_put ha, hd'] at hd''
        cases hd''
        have hhandle : d'.handle = d.handle := (congrArg TypeDecl.handle hrevises.prolongs.place :)
        rw [hhandle] at hkind
        obtain ⟨ls, hlists, haccount⟩ := h.declared d p (hdecl.trans hd) hkind
        obtain ⟨e, ls', hexec, hid, hlists', haccount'⟩ := haccount.call (c := c) heditable hlists
        rw [hexec, Workspace.decl?_redefining, hid, hd, Option.map_some, if_pos rfl] at hd'
        cases hd'
        exact ⟨ls', hlists', haccount'⟩

/-- Any other operation on the unit. -/
theorem Accounted.change
    (h : q.Accounted i id calls) (ha : q.units[i]? = some a) (horderly : (q.workspace a).Orderly)
    {c : Change ρ} (hother : ∀ name value, c ≠ .defineLiteral id name value) :
  (q.put i (c.perform (q.workspace a))).Accounted i id calls
  := by
  have hdecl : q.declIn? i id = a.decl? id := declIn?_of_unit ha
  cases hd : a.decl? id with
  | none =>
      have haccount := h.absent (hdecl.trans hd)
      refine ⟨fun _ => haccount, fun d p hd' hkind => ?_⟩
      rw [declIn?_put ha] at hd'
      obtain ⟨hfields, hnext, -⟩ := c.declared horderly.toFresh hd hd'
      exact ⟨[], ⟨hkind, hfields, hnext⟩, haccount p⟩
  | some d =>
      obtain ⟨d', hd', hrevises⟩ := c.revises horderly hd
      have hhandle : d'.handle = d.handle := (congrArg TypeDecl.handle hrevises.prolongs.place :)
      rw [← Assembly.decl?_id hd] at hother
      refine ⟨fun hnone => ?_, fun d'' p hd'' hkind => ?_⟩
      · rw [declIn?_put ha, hd'] at hnone
        cases hnone
      · rw [declIn?_put ha, hd'] at hd''
        cases hd''
        rw [hhandle] at hkind
        obtain ⟨ls, hlists, haccount⟩ := h.declared d p (hdecl.trans hd) hkind
        have henum : d.handle.kind.isEnum = true := by
          rw [hkind]
          rfl
        obtain ⟨hfields, hnext⟩ := hrevises.literals henum hother
        refine ⟨ls, ⟨?_, ?_, ?_⟩, haccount⟩
        · rw [hhandle, hkind]
        · rw [hfields, hhandle, hlists.fields]
        · rw [hnext, hlists.next]

theorem declIn?_openUnit (q : Project) (name : String) :
  (q.host (.build (.openUnit name) : HostEvent ρ)).declIn? i id = q.declIn? i id
  := by
  change (q.units ++ [Assembly.new name])[i]?.bind _ = _
  rw [declIn?, List.getElem?_append]
  split
  · rfl
  · next hi =>
    rw [List.getElem?_eq_none (Nat.le_of_not_lt hi), List.getElem?_singleton]
    split <;> rfl

theorem literalCall_eq_nil
    (q : Project) (j : Nat) {c : Change ρ}
    (hother : j ≠ i ∨ ∀ name value, c ≠ .defineLiteral id name value) :
  q.literalCall i id (.build (.change j c)) = []
  := by
  cases c with
  | defineLiteral x name value =>
      rw [literalCall]
      apply if_neg
      rintro ⟨rfl, rfl⟩
      obtain hj | hc := hother
      · exact hj rfl
      · exact hc name value rfl
  | _ => rfl

/-- Whatever happens, the calls account for the literals. -/
theorem Accounted.host
    (h : q.Accounted i id calls)
    (horderly : ∀ a, q.units[i]? = some a → (q.workspace a).Orderly) (e : HostEvent ρ) :
  (q.host e).Accounted i id (calls ++ q.literalCall i id e)
  := by
  cases e with
  | clear =>
      change Accounted _ i id (calls ++ [])
      rw [List.append_nil]
      exact h.of_declIn? rfl
  | register fullName handle =>
      change Accounted _ i id (calls ++ [])
      rw [List.append_nil]
      apply h.of_declIn?
      rw [Project.host]
      split <;> rfl
  | build event =>
      cases event with
      | openUnit name =>
          change Accounted _ i id (calls ++ [])
          rw [List.append_nil]
          exact h.of_declIn? (q.declIn?_openUnit name)
      | change j c =>
          rw [Project.host, Project.apply]
          by_cases hj : j = i
          · subst hj
            cases ha : q.units[j]? with
            | none =>
                have hnil : q.literalCall j id (.build (.change j c)) = [] := by
                  cases c with
                  | defineLiteral x name value =>
                      rw [literalCall, ha]
                      split <;> rfl
                  | _ => rfl
                rw [hnil, List.append_nil]
                exact h
            | some a =>
                dsimp only
                by_cases hc : ∃ name value, c = .defineLiteral id name value
                · obtain ⟨name, value, rfl⟩ := hc
                  rw [literalCall, if_pos ⟨rfl, rfl⟩, ha]
                  exact h.call ha (horderly a ha) name value
                · have hother : ∀ name value, c ≠ .defineLiteral id name value :=
                    fun name value heq => hc ⟨name, value, heq⟩
                  rw [q.literalCall_eq_nil j (.inr hother), List.append_nil]
                  exact h.change ha (horderly a ha) hother
          · rw [q.literalCall_eq_nil j (.inl hj), List.append_nil]
            split
            · exact h
            · apply h.of_declIn?
              rw [declIn?, declIn?, put_other (Ne.symm hj)]

theorem accounted_run (verify : Bool) (i : Nat) (id : TypeId) (history : List (HostEvent ρ)) :
  ((empty verify).run history).Accounted i id ((empty verify).literalCalls i id history)
  := by
  induction history using List.reverseRecOn with
  | nil =>
      refine ⟨fun _ _ => .nil, fun d p hd => ?_⟩
      cases hd
  | append_singleton history e ih =>
      rw [run_append, literalCalls_concat]
      exact ih.host (fun a => orderly_run verify history) e

/-- After every history, the fields of an enumeration are the literals that the calls on it account
for.  What is read of the constant of a literal is its value, unless the enumeration is one over the
unsigned 32-bit type and the value has its highest bit set: then it is less by `2 ^ 32`.  The
history declares fewer than `2 ^ 32 - 1` types, so that 32 bits tell their ids apart. -/
theorem literals_of_history
    (verify : Bool) (history : List (HostEvent ρ)) {d : TypeDecl} {p : Primitive}
    (hnumbered : ((empty verify).run history).session.Numbered)
    (ha : ((empty verify).run history).units[i]? = some a) (hd : a.decl? id = some d)
    (hkind : d.handle.kind = .enumType p) :
  (∀ before, before <+: history → ((empty verify).run before).NumbersFit)
  ∧ ∃ ls : List Literal,
    LiteralCall.Account id p ((empty verify).literalCalls i id history) ls
    ∧ d.fields = ls.map (·.field d.handle p)
    ∧ ∀ l ∈ ls, ((l.field d.handle p).constant.bind Constant.asI64?).map Int64.toInt
        = some (if p = .u32 ∧ 2 ^ 31 ≤ l.value.toInt then l.value.toInt - 2 ^ 32
            else l.value.toInt)
  := by
  have haccounted := accounted_run verify i id history
  obtain ⟨ls, hlists, haccount⟩ :=
    haccounted.declared d p ((declIn?_of_unit ha).trans hd) hkind
  refine ⟨fun before => numbersFit_run verify hnumbered, ls, haccount, hlists.fields,
    fun l hl => ?_⟩
  exact Constant.asI64?_integral (haccount.represents l hl)

/-- A unit with an enumeration that has no literals yet. -/
def blank (p : Primitive) : List (HostEvent Unit) :=
  [ .build (.openUnit "A"),
    .build (.change 0 (.declareType "E" (.enumType p) {} none))]

/-- An enumeration of bytes.  The literal behind the greatest byte is refused, and so is a name that
is taken. -/
def numbering : List (HostEvent Unit) :=
  blank .u8 ++
  [ .build (.change 0 (.defineLiteral ⟨1⟩ "A" (some 254))),
    .build (.change 0 (.defineLiteral ⟨1⟩ "B" none)),
    .build (.change 0 (.defineLiteral ⟨1⟩ "C" none)),
    .build (.change 0 (.defineLiteral ⟨1⟩ "A" (some 3))),
    .build (.change 0 (.defineLiteral ⟨1⟩ "D" (some 7))),
    .build (.change 0 (.defineLiteral ⟨1⟩ "E" none))]

/-- The literals that are left have the values given, or follow the last one accepted. -/
theorem literals_of_numbering :
  ∃ a d ls, ((empty true).run numbering).units[0]? = some a ∧ a.decl? ⟨1⟩ = some d
    ∧ d.handle.kind = .enumType .u8
    ∧ LiteralCall.Account ⟨1⟩ .u8 ((empty true).literalCalls 0 ⟨1⟩ numbering) ls
    ∧ ls.map (·.name) = ["A", "B", "D", "E"] ∧ ls.map (·.value.toInt) = [254, 255, 7, 8]
  := by
  obtain ⟨a, d, ha, hd, hkind, hnames, hreads⟩ : ∃ a d,
      ((empty true).run numbering).units[0]? = some a ∧ a.decl? ⟨1⟩ = some d
      ∧ d.handle.kind = .enumType .u8 ∧ d.fields.map (·.name) = ["A", "B", "D", "E"]
      ∧ d.fields.map (fun f => (f.constant.bind Constant.asI64?).map Int64.toInt)
        = [some 254, some 255, some 7, some 8] := by
    refine ⟨_, _, rfl, rfl, ?_, ?_, ?_⟩ <;> decide +kernel
  obtain ⟨-, ls, haccount, hfields, hread⟩ :=
    literals_of_history true numbering (by decide +kernel) ha hd hkind
  refine ⟨a, d, ls, ha, hd, hkind, haccount, ?_, ?_⟩
  · rw [← hnames, hfields, List.map_map]
    rfl
  · apply List.map_injective_iff.mpr (Option.some_injective Int)
    rw [List.map_map]
    change _ = [some 254, some 255, some 7, some 8]
    rw [← hreads, hfields, List.map_map]
    apply List.map_congr_left
    intro l hl
    exact (hread l hl).symm

/-- It is not so that the constant of a literal that is accepted always reads back as the value
that has been given, nor that a literal that is accepted without a value is always one more than
the one before it. -/
theorem not_literals_exact :
  (¬ ∀ (history : List (HostEvent Unit)) (a : Assembly) (c : LiteralCall) (v : Int64)
      (handle : FieldRef) (w : Workspace) (d : TypeDecl) (f : FieldDecl),
      ((empty true).run history).units[0]? = some a →
      c.workspace = ((empty true).run history).workspace a → c.value = some v →
      c.exec ⟨1⟩ = (.ok handle, w) → w.assembly.decl? ⟨1⟩ = some d →
      d.fields[handle.index]? = some f → f.constant.bind Constant.asI64? = some v)
  ∧ ¬ ∀ (history : List (HostEvent Unit)) (a : Assembly) (c : LiteralCall) (k : Nat)
      (w : Workspace) (d : TypeDecl) (f g : FieldDecl) (x y : Int64),
      ((empty true).run history).units[0]? = some a →
      c.workspace = ((empty true).run history).workspace a → c.value = none →
      c.exec ⟨1⟩ = (.ok ⟨⟨1⟩, k + 1⟩, w) → w.assembly.decl? ⟨1⟩ = some d →
      d.fields[k]? = some f → d.fields[k + 1]? = some g →
      f.constant.bind Constant.asI64? = some x → g.constant.bind Constant.asI64? = some y →
      y.toInt = x.toInt + 1
  := by
  constructor
  · intro hall
    have hread := hall (blank .u32) _ ⟨_, "A", some 3000000000⟩ _ _ _ _ _ rfl rfl rfl rfl rfl rfl
    exact absurd hread (by decide +kernel)
  · intro hall
    have hnext := hall (blank .i64 ++ [.build (.change 0 (.defineLiteral ⟨1⟩ "A" (some .maxValue)))])
      _ ⟨_, "B", none⟩ 0 _ _ _ _ _ _ rfl rfl rfl rfl rfl rfl rfl rfl rfl
    exact absurd hnext (by decide +kernel)

end Project

end ManagedCode
