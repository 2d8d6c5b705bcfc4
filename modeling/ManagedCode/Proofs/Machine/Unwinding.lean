import ManagedCode.Proofs.Machine.Serving

/-!
# Unwinding

The way of a frame out of the ranges around an instruction, for a leave or with an
exception.  It goes from one finally handler to the next, and the regions around the
instruction say which handlers these are and where it ends
(`Activation.Begins.runs_crossed`).

Each endfinally looks for the rest of the way anew: a leave has recorded it, and an
exception is raised again at the endfinally.  Both give the regions that are left.
-/

namespace ManagedCode

/-- Why control leaves the ranges around an instruction. -/
inductive Exit where
  | leave (target : Nat)
  | exception (v : Value)

namespace Frame

variable {session : Session} {limit index : Nat} {f g : Frame} {v : Value} {r : Region}

/-- A catch region takes an exception. -/
def Matches (session : Session) (f : Frame) (v : Value) (r : Region) : Prop :=
  ∃ t, r.kind = .catching t ∧ session.isInstance v (f.resolve t) = true

/-- A region is the first catch region around an instruction that takes an exception. -/
structure FirstMatching (session : Session) (f : Frame) (v : Value) (index : Nat)
    (r : Region) : Prop where
  region : f.body.regions[index]? = some r
  protects : r.protects f.ip
  matching : f.Matches session v r
  first : ∀ j s, j < index → f.body.regions[j]? = some s → s.protects f.ip →
    ¬ f.Matches session v s

/-- The finally handlers to run: for a leave, those of the regions that protect the instruction
and not the target, and for an exception, those of the regions around the instruction before the
first one that catches it. -/
def Crosses (session : Session) (f : Frame) (exit : Exit) (index : Nat) : Prop :=
  ∃ r, f.body.regions[index]? = some r ∧ r.kind = .finalizing ∧ r.protects f.ip
    ∧ match exit with
      | .leave target => ¬ r.protects target
      | .exception v => ∀ j s, j < index → f.body.regions[j]? = some s → s.protects f.ip →
        ¬ f.Matches session v s

/-- A region that is crossed is a finally region around the instruction. -/
theorem Crosses.protects
    {exit : Exit} (h : f.Crosses session exit index) (hr : f.body.regions[index]? = some r) :
  r.kind = .finalizing ∧ r.protects f.ip
  := by
  obtain ⟨s, hs, hkind, hprotects, -⟩ := h
  obtain rfl := Option.some.inj (hr.symm.trans hs)
  exact ⟨hkind, hprotects⟩

/-- The finally regions that are crossed come from the inside to the outside. -/
theorem Crosses.pairwise_encloses
    {exit : Exit} {blocks : List Block} {all : List Nat} (hbody : f.body.Arranged blocks)
    (hsorted : all.Pairwise (· < ·)) (hall : ∀ i ∈ all, f.Crosses session exit i) :
  all.Pairwise fun i j => ∀ r s, f.body.regions[i]? = some r → f.body.regions[j]? = some s →
    s.Encloses r
  := by
  apply hsorted.imp_of_mem
  intro i j hi hj hij r s hr hs
  obtain ⟨hkind, hrip⟩ := (hall i hi).protects hr
  obtain ⟨-, hsip⟩ := (hall j hj).protects hs
  apply hbody.encloses_of_protects hr hs hij hrip hsip (.inl hkind)

/-- A jump crosses the finally regions that it leaves. -/
theorem crosses_leave_iff {target : Nat} :
  f.Crosses session (.leave target) index ↔ index ∈ f.finalliesBetween f.ip target
  := mem_finalliesBetween_iff.symm

/-- The first matching catch region is determined. -/
theorem FirstMatching.unique
    {j : Nat} {s : Region} (h : f.FirstMatching session v index r)
    (h' : f.FirstMatching session v j s) :
  j = index ∧ s = r
  := by
  rcases Nat.lt_trichotomy j index with hlt | rfl | hgt
  · exact absurd h'.matching (h.first j s hlt h'.region h'.protects)
  · exact ⟨rfl, Option.some.inj (h'.region.symm.trans h.region)⟩
  · exact absurd h.matching (h'.first index r hgt h.region h.protects)

/-- The regions that a raise stops at are the finally regions and the matching ones. -/
theorem takes_iff : f.Takes session v r ↔ r.kind = .finalizing ∨ f.Matches session v r := by
  rw [Takes, Matches]
  cases r.kind with
  | finalizing => simp
  | catching t => simp

theorem Matches.not_finalizing (h : f.Matches session v r) : r.kind ≠ .finalizing := by
  obtain ⟨t, hkind, -⟩ := h
  rw [hkind]
  apply HandlerKind.noConfusion

/-- Whether a region matches does not change within an activation. -/
theorem SameCall.matches_iff (h : f.SameCall g) :
  g.Matches session v r ↔ f.Matches session v r
  := by
  have hresolve : ∀ t, g.resolve t = f.resolve t := by
    intro t
    rw [resolve, resolve, h.method, h.typeArgs]
  simp only [Matches, hresolve]

end Frame

namespace Activation

variable {session : Session} {limit : Nat} {body : MethodBody} {blocks : List Block}
  {a b z : Activation} {fs : List Nat}

/-! ## The way out -/

/-- An exception comes up in a frame, at once or with the next step. -/
def ComesUp (session : Session) (limit : Nat) (z : Activation) (v : Value) (f : Frame) : Prop :=
  z = ⟨f, .raising v⟩ ∨ Step session limit z ⟨f, .raising v⟩

/-- A frame goes on until it is ready again.  An exception may come up on the way. -/
def Proceeds (session : Session) (limit : Nat) (z b : Activation) : Prop :=
  b.phase = .ready ∧ (Step session limit z b
    ∨ ∃ v f, Step session limit z ⟨f, .raising v⟩ ∧ Step session limit ⟨f, .raising v⟩ b)

/-- A frame is about to leave, or is where an exception has been raised. -/
def Begins (exit : Exit) (a : Activation) : Prop :=
  match exit with
  | .leave target => a.LeavesFor target
  | .exception v => a.phase = .raising v

/-- How far a frame has come on its way out: the finally handlers that it has started and served,
in this order, and where it is at the end of the last one. -/
inductive Course (session : Session) (limit : Nat) (body : MethodBody) (a : Activation) :
    List Nat → Activation → Prop
  | start : Course session limit body a [] a
  | handler {fs : List Nat} {z b z' : Activation} {index : Nat} {r : Region}
      {states : List Activation}
      (hcourse : Course session limit body a fs z) (hproceeds : Proceeds session limit z b)
      (hr : body.regions[index]? = some r) (hstarts : Starts index r z b)
      (hserved : Served session limit body index r b states z') :
      Course session limit body a (fs ++ [index]) z'

/-- Where the way out ends: at the target with an empty stack, at the first matching catch handler
with the exception on the stack, or with the exception in the callers of the frame. -/
def Arrives (session : Session) (limit : Nat) (f : Frame) (exit : Exit) (z : Activation) : Prop :=
  match exit with
  | .leave target =>
    (∃ b, Proceeds session limit z b)
      ∧ ∀ b, Proceeds session limit z b → b.frame.ip = target ∧ b.frame.stack = []
  | .exception v =>
    (∀ index r, f.FirstMatching session v index r →
      (∃ b, Proceeds session limit z b)
        ∧ ∀ b, Proceeds session limit z b → b.frame.ip = r.handlerStart
          ∧ b.frame.stack = [v.toStack] ∧ b.frame.handling.head? = some (index, v))
    ∧ ((∀ s ∈ f.body.regions, s.protects f.ip → ¬ f.Matches session v s) →
      (∃ g, ComesUp session limit z v g)
        ∧ ∀ g, ComesUp session limit z v g → ∀ callers,
          Frame.unwind session limit v (g :: callers) = Frame.unwind session limit v callers)

/-- What comes next on the way out: the handler of the first region that remains, or the end. -/
def Continues (session : Session) (limit : Nat) (f : Frame) (exit : Exit) (rest : List Nat)
    (z : Activation) : Prop :=
  match rest with
  | next :: _ =>
    ∃ r, f.body.regions[next]? = some r ∧ (∃ b, Proceeds session limit z b)
      ∧ ∀ b, Proceeds session limit z b → Starts next r z b
  | [] => Arrives session limit f exit z

theorem Proceeds.sameCall (h : Proceeds session limit z b) : z.frame.SameCall b.frame := by
  obtain ⟨-, hstep | ⟨v, f, hfirst, hsecond⟩⟩ := h
  · exact hstep.sameCall
  · exact hfirst.sameCall.trans hsecond.sameCall

/-- A run stays in its activation. -/
theorem Run.sameCall {states : List Activation} (hrun : Run session limit a states z) :
  a.frame.SameCall z.frame
  := by
  induction hrun with
  | refl => exact .refl _
  | step hstep _ ih => exact hstep.sameCall.trans ih

/-- So does a course through handlers. -/
theorem Course.sameCall (hcourse : Course session limit body a fs z) :
  a.frame.SameCall z.frame
  := by
  induction hcourse with
  | start => exact .refl _
  | handler _ hproceeds _ _ hserved ih =>
      exact (ih.trans hproceeds.sameCall).trans hserved.run.sameCall

/-! ## Single steps on the way -/

theorem Step.iff_of_raising {f : Frame} {v : Value} :
  Step session limit ⟨f, .raising v⟩ b
    ↔ b.phase = .ready ∧ f.raise session limit v = .ok (some b.frame)
  := by
  constructor
  · intro hstep
    cases hstep with
    | handled hraise => exact ⟨rfl, hraise⟩
  · obtain ⟨g, phase⟩ := b
    rintro ⟨rfl, hraise⟩
    exact .handled hraise

/-- A frame with one step, to a ready frame. -/
theorem proceeds_iff_of_ready
    {g : Frame} (h : ∀ b, Step session limit z b ↔ b = ⟨g, .ready⟩) :
  Proceeds session limit z b ↔ b = ⟨g, .ready⟩
  := by
  constructor
  · rintro ⟨-, hstep | ⟨v, f, hfirst, -⟩⟩
    · apply (h b).mp hstep
    · cases (h _).mp hfirst
  · rintro rfl
    exact ⟨rfl, .inl ((h _).mpr rfl)⟩

/-- The step of an instruction that says by itself what comes after it. -/
theorem Step.iff_of_after
    {f : Frame} {i : Instruction} {request : Request} {c : Activation}
    (hinstruction : f.body.instructions[f.ip]? = some i)
    (hexecute : ∀ heap, Surroundings.execute ⟨session, limit⟩ heap f i = .ok (request, heap))
    (hafter : request.after = some c) :
  Step session limit ⟨f, .ready⟩ b ↔ b = c
  := by
  constructor
  · intro hstep
    cases hstep with
    | execute hinstruction' hexecute' hafter' =>
        obtain rfl := Option.some.inj (hinstruction.symm.trans hinstruction')
        rw [hexecute] at hexecute'
        cases hexecute'
        exact Option.some.inj (hafter'.symm.trans hafter)
  · rintro rfl
    exact .execute hinstruction (hexecute default) hafter

/-- A jump out of regions goes to the first handler on its way. -/
theorem LeavesFor.step_iff {target : Nat} (hleaves : a.LeavesFor target) :
  Step session limit a b ↔ b = ⟨a.frame.leave target, .ready⟩
  := by
  obtain ⟨f, phase⟩ := a
  obtain ⟨rfl, w, l, hinstruction, htarget⟩ := hleaves
  have hlabel : f.target l = .ok target := by
    rw [Frame.target]
    rw [show f.body.target? l = some target from htarget]
  have hexecute : ∀ heap, Surroundings.execute ⟨session, limit⟩ heap f ⟨.leave w, .label l⟩
      = .ok (.proceed (f.leave target), heap) := by
    intro heap
    show Except.map _ (Except.bind (f.target l) _) = _
    rw [hlabel]
    rfl
  apply Step.iff_of_after hinstruction hexecute rfl

/-- The step of an endfinally goes on as the next continuation says. -/
theorem Step.iff_of_endFinally
    {operand : Operand} {k : AfterFinally} {older : List AfterFinally} {c : Activation}
    (hready : z.phase = .ready)
    (hends : z.frame.body.instructions[z.frame.ip]? = some ⟨.endfinally, operand⟩)
    (hpending : z.frame.pending = k :: older)
    (hafter : (k.goOn { z.frame with stack := [], pending := older }).after = some c) :
  Step session limit z b ↔ b = c
  := by
  obtain ⟨f, phase⟩ := z
  obtain rfl : phase = .ready := hready
  have hexecute : ∀ heap, Surroundings.execute ⟨session, limit⟩ heap f ⟨.endfinally, operand⟩
      = .ok (k.goOn { f with stack := [], pending := older }, heap) := by
    intro heap
    show Except.map _ (Surroundings.endFinally f) = _
    rw [Surroundings.endFinally_cons hpending]
    rfl
  apply Step.iff_of_after hends hexecute hafter

/-! ## Leaving for a target -/

/-- A frame goes on to a target through the finally handlers that remain. -/
structure GoesTo (session : Session) (limit : Nat) (target : Nat) (rest : List Nat)
    (z : Activation) (g : Frame) : Prop where
  body : g.body = z.frame.body
  stack : g.stack = []
  older : g.pending.Sublist z.frame.pending
  fresh : ∀ next later, rest = next :: later →
    ¬ (.leave next target later :: g.pending).Sublist z.frame.pending
  proceeds : ∀ b, Proceeds session limit z b ↔ b = ⟨g.continueTo target rest, .ready⟩

/-- At first all handlers on the way are to come. -/
theorem LeavesFor.goesTo {target : Nat} (hleaves : a.LeavesFor target) :
  GoesTo session limit target (a.frame.finalliesBetween a.frame.ip target) a
    { a.frame with
      stack := []
      handling := a.frame.handling.filter fun p => a.frame.keepsHandling target p.1 }
  where
  body := rfl
  stack := rfl
  older := .refl _
  fresh := by
    intro next later _ hsub
    have hlength := hsub.length_le
    rw [List.length_cons] at hlength
    exact Nat.not_succ_le_self _ hlength
  proceeds := by
    intro b
    apply proceeds_iff_of_ready
    intro c
    apply hleaves.step_iff

/-- After a handler, those that were to come are still to come. -/
theorem goesTo_of_endFinally
    {operand : Operand} {region target : Nat} {rest : List Nat} {older : List AfterFinally}
    (hready : z.phase = .ready)
    (hends : z.frame.body.instructions[z.frame.ip]? = some ⟨.endfinally, operand⟩)
    (hpending : z.frame.pending = .leave region target rest :: older) :
  GoesTo session limit target rest z { z.frame with stack := [], pending := older }
  where
  body := rfl
  stack := rfl
  older := by
    rw [hpending]
    apply List.sublist_cons_self
  fresh := by
    rintro next later rfl hsub
    rw [hpending] at hsub
    cases hsub.eq_of_length rfl
  proceeds := by
    intro b
    apply proceeds_iff_of_ready
    intro c
    apply Step.iff_of_endFinally hready hends hpending rfl

variable {index target : Nat} {rest later : List Nat} {r : Region} {g : Frame}

/-- The next handler to come is the one that starts. -/
theorem GoesTo.starts
    (hgoes : GoesTo session limit target (index :: later) z g)
    (hr : z.frame.body.regions[index]? = some r) (hproceeds : Proceeds session limit z b) :
  Starts index r z b
  := by
  obtain rfl := (hgoes.proceeds b).mp hproceeds
  rw [← hgoes.body] at hr
  exact starts_of_continueTo hr rfl rfl (hgoes.fresh index later rfl)

theorem GoesTo.next_of_starts
    (hgoes : GoesTo session limit target rest z g) (hproceeds : Proceeds session limit z b)
    (hstarts : Starts index r z b) :
  ∃ later, rest = index :: later ∧ b.frame.pending = .leave index target later :: g.pending
  := by
  obtain rfl := (hgoes.proceeds b).mp hproceeds
  cases rest with
  | nil => exact absurd hstarts (Starts.not_of_sublist hgoes.older)
  | cons next later =>
      obtain ⟨k, older, hpending, hindex, -⟩ := hstarts.recorded
      obtain ⟨rfl, -⟩ := List.cons.inj hpending
      obtain rfl : next = index := hindex
      exact ⟨later, rfl, rfl⟩

/-- Once no handler is to come, control is at the target. -/
theorem GoesTo.continues
    {f : Frame} (hgoes : GoesTo session limit target rest z g) (hcall : f.SameCall z.frame)
    (hrest : ∀ i ∈ rest, f.Crosses session (.leave target) i) :
  Continues session limit f (.leave target) rest z
  := by
  cases rest with
  | nil =>
      constructor
      · exact ⟨_, (hgoes.proceeds _).mpr rfl⟩
      · intro b hproceeds
        obtain rfl := (hgoes.proceeds b).mp hproceeds
        exact ⟨rfl, hgoes.stack⟩
  | cons next later =>
      obtain ⟨r, hr, -⟩ := hrest next List.mem_cons_self
      refine ⟨r, hr, ⟨_, (hgoes.proceeds _).mpr rfl⟩, ?_⟩
      intro b hproceeds
      apply hgoes.starts _ hproceeds
      rw [hcall.body]
      exact hr

/-- The handlers that a jump has run are the first of those on its way. -/
theorem Course.leave
    (hcourse : Course session limit body a fs z) (hbody : body.Arranged blocks)
    (ha : a.frame.body = body) (hleaves : a.LeavesFor target) :
  ∃ rest g, a.frame.finalliesBetween a.frame.ip target = fs ++ rest
    ∧ GoesTo session limit target rest z g
  := by
  induction hcourse with
  | start => exact ⟨_, _, rfl, hleaves.goesTo⟩
  | @handler fs z b z' index r states hcourse hproceeds hr hstarts hserved ih =>
      obtain ⟨rest, g, hway, hgoes⟩ := ih
      obtain ⟨later, rfl, hpending⟩ := hgoes.next_of_starts hproceeds hstarts
      have hcrosses : a.frame.Crosses session (.leave target) index := by
        rw [Frame.crosses_leave_iff, hway]
        exact List.mem_append_right _ List.mem_cons_self
      obtain ⟨hkind, -⟩ := hcrosses.protects (by rw [ha]; exact hr)
      have hcall := hcourse.sameCall.trans hproceeds.sameCall
      have hlast := hserved.pending hbody (hcall.body.trans ha) hr hkind hpending rfl
      obtain ⟨operand, hends⟩ := hserved.ends
      refine ⟨later, _, ?_, goesTo_of_endFinally hserved.ready hends hlast⟩
      rw [hway, List.append_cons]

/-! ## Unwinding with an exception -/

/-- A frame with one step, to where an exception is raised. -/
theorem proceeds_iff_of_raising
    {f : Frame} {v : Value} (h : ∀ b, Step session limit z b ↔ b = ⟨f, .raising v⟩) :
  Proceeds session limit z b ↔ b.phase = .ready ∧ f.raise session limit v = .ok (some b.frame)
  := by
  constructor
  · rintro ⟨hready, hstep | ⟨v', f', hfirst, hsecond⟩⟩
    · obtain rfl := (h b).mp hstep
      cases hready
    · cases (h _).mp hfirst
      apply Step.iff_of_raising.mp hsecond
  · intro hraise
    exact ⟨hraise.1, .inr ⟨v, f, (h _).mpr rfl, Step.iff_of_raising.mpr hraise⟩⟩

/-- An exception comes up in `f`.  The regions around it are those of the regions around `f₀` that
have the number `n` or a greater one, and of those before none matches. -/
structure Unwound (session : Session) (limit : Nat) (f₀ : Frame) (v : Value) (n : Nat)
    (z : Activation) (f : Frame) : Prop where
  sameCall : f₀.SameCall f
  comesUp : ∀ g, ComesUp session limit z v g ↔ g = f
  proceeds : ∀ b, Proceeds session limit z b
    ↔ b.phase = .ready ∧ f.raise session limit v = .ok (some b.frame)
  protects : ∀ j s, f₀.body.regions[j]? = some s → (s.protects f.ip ↔ n ≤ j ∧ s.protects f₀.ip)
  unmatched : ∀ j s, j < n → f₀.body.regions[j]? = some s → s.protects f₀.ip →
    ¬ f₀.Matches session v s
  older : f.pending.Sublist z.frame.pending
  fresh : ∀ next kept, n ≤ next → (.unwind next v :: kept).Sublist z.frame.pending →
    (.unwind next v :: kept).Sublist f.pending

/-- When an exception is raised, no region has been passed. -/
theorem unwound_of_raising {f : Frame} {v : Value} :
  Unwound session limit f v 0 ⟨f, .raising v⟩ f
  where
  sameCall := .refl f
  comesUp := by
    intro g
    constructor
    · rintro (heq | hstep)
      · cases heq
        rfl
      · cases (Step.iff_of_raising.mp hstep).1
    · rintro rfl
      exact .inl rfl
  proceeds := by
    intro b
    constructor
    · rintro ⟨-, hstep | ⟨v', f', hfirst, -⟩⟩
      · apply Step.iff_of_raising.mp hstep
      · cases (Step.iff_of_raising.mp hfirst).1
    · intro hraise
      exact ⟨hraise.1, .inl (Step.iff_of_raising.mpr hraise)⟩
  protects := fun j _ _ => ⟨fun hprotects => ⟨Nat.zero_le j, hprotects⟩, And.right⟩
  unmatched := fun j _ hj => absurd hj (Nat.not_lt_zero j)
  older := .refl _
  fresh := fun _ _ _ hsub => hsub

variable {f f₀ : Frame} {v : Value} {n : Nat}

/-- After the service of a finally handler that the exception crosses. -/
theorem unwound_of_served
    {operand : Operand} {older : List AfterFinally} (hbody : body.Arranged blocks)
    (hf₀ : f₀.body = body) (hcall : f₀.SameCall z.frame) (hready : z.phase = .ready)
    (hends : z.frame.body.instructions[z.frame.ip]? = some ⟨.endfinally, operand⟩)
    (hpending : z.frame.pending = .unwind index v :: older) (hr : body.regions[index]? = some r)
    (howns : body.Owns r z.frame.ip) (hcrosses : f₀.Crosses session (.exception v) index) :
  Unwound session limit f₀ v (index + 1) z { z.frame with stack := [], pending := older }
  := by
  have hstep : ∀ b, Step session limit z b
      ↔ b = ⟨{ z.frame with stack := [], pending := older }, .raising v⟩ :=
    fun b => Step.iff_of_endFinally hready hends hpending rfl
  obtain ⟨r', hr', hkind, hip, hunmatched⟩ := hcrosses
  rw [hf₀] at hr'
  obtain rfl := Option.some.inj (hr.symm.trans hr')
  constructor
  case sameCall => exact ⟨hcall.method, hcall.body, hcall.typeArgs, hcall.resume⟩
  case comesUp =>
    intro g
    constructor
    · rintro (rfl | hraised)
      · cases hready
      · cases (hstep _).mp hraised
        rfl
    · rintro rfl
      exact .inr ((hstep _).mpr rfl)
  case proceeds =>
    intro b
    apply proceeds_iff_of_raising hstep
  case protects =>
    intro j s hs
    rw [hf₀] at hs
    apply hbody.protects_iff_of_owns hr hkind hip howns hs
  case unmatched =>
    intro j s hj hs hprotects hmatches
    rcases Nat.lt_succ_iff_lt_or_eq.mp hj with hlt | rfl
    · apply hunmatched j s hlt hs hprotects hmatches
    · rw [hf₀] at hs
      obtain rfl := Option.some.inj (hr.symm.trans hs)
      exact absurd hkind hmatches.not_finalizing
  case older =>
    rw [hpending]
    apply List.sublist_cons_self
  case fresh =>
    intro next kept hnext hsub
    rw [hpending] at hsub
    cases hsub with
    | cons _ hsub => exact hsub
    | cons_cons => exact absurd hnext (Nat.not_succ_le_self _)

/-- What becomes of the exception. -/
inductive Rises (session : Session) (limit : Nat) (f₀ : Frame) (v : Value) (n : Nat)
    (f : Frame) : Prop
  | gone (hraise : f.raise session limit v = .ok none)
      (hlast : ∀ i, n ≤ i → ¬ f₀.Crosses session (.exception v) i)
      (hnone : ∀ s ∈ f₀.body.regions, s.protects f₀.ip → ¬ f₀.Matches session v s)
  | caught {index : Nat} {r : Region}
      (hraise : f.raise session limit v = .ok (some
        { f.abandonHandlers with
          stack := [v.toStack]
          handling := (index, v) :: f.abandonHandlers.handling
          ip := r.handlerStart }))
      (hlast : ∀ i, n ≤ i → ¬ f₀.Crosses session (.exception v) i)
      (hfirst : f₀.FirstMatching session v index r)
  | finalized {index : Nat} {r : Region}
      (hraise : f.raise session limit v = .ok (some
        { f.abandonHandlers with
          stack := []
          pending := .unwind index v :: f.abandonHandlers.pending
          ip := r.handlerStart }))
      (hr : f₀.body.regions[index]? = some r) (hprotects : r.protects f.ip)
      (hnext : n ≤ index) (hcrosses : f₀.Crosses session (.exception v) index)
      (hleast : ∀ i, n ≤ i → f₀.Crosses session (.exception v) i → index ≤ i)

/-- An exception does not go past a region that it crosses. -/
theorem Unwound.takes_of_crosses
    (h : Unwound session limit f₀ v n z f) {i : Nat} (hi : n ≤ i)
    (hcrosses : f₀.Crosses session (.exception v) i) :
  ∃ s, f.body.regions[i]? = some s ∧ s.protects f.ip ∧ f.Takes session v s
  := by
  obtain ⟨s, hs, hkind, hprotects, -⟩ := hcrosses
  refine ⟨s, ?_, (h.protects i s hs).mpr ⟨hi, hprotects⟩, Frame.takes_of_finalizing hkind⟩
  rw [h.sameCall.body]
  exact hs

/-- Before the first region that takes the exception there is no catch region that matches. -/
theorem Unwound.unmatched_of_first
    (h : Unwound session limit f₀ v n z f)
    (hfirst : ∀ j s, j < index → f.body.regions[j]? = some s → s.protects f.ip →
      ¬ f.Takes session v s) :
  ∀ j s, j < index → f₀.body.regions[j]? = some s → s.protects f₀.ip → ¬ f₀.Matches session v s
  := by
  intro j s hj hs hprotects hmatches
  by_cases hn : n ≤ j
  · have htakes : f.Takes session v s :=
      Frame.takes_iff.mpr (.inr (h.sameCall.matches_iff.mpr hmatches))
    have hprotects' := (h.protects j s hs).mpr ⟨hn, hprotects⟩
    rw [← h.sameCall.body] at hs
    apply hfirst j s hj hs hprotects' htakes
  · apply h.unmatched j s (Nat.lt_of_not_le hn) hs hprotects hmatches

/-- The exception rises from the regions that have been passed. -/
theorem Unwound.rises (h : Unwound session limit f₀ v n z f) (hlimit : 1 ≤ limit) :
  Rises session limit f₀ v n f
  := by
  obtain ⟨hraise, hnone⟩ | ⟨index, r, hfirst, ⟨g, hraise, hcatches⟩ | ⟨hzero, -⟩⟩ :=
    Frame.raise_cases session limit f v
  · apply Rises.gone hraise
    · intro i hi hcrosses
      obtain ⟨s, hs, hprotects, htakes⟩ := h.takes_of_crosses hi hcrosses
      apply hnone s (List.mem_of_getElem? hs) hprotects htakes
    · intro s hs hprotects
      obtain ⟨j, hj⟩ := List.mem_iff_getElem?.mp hs
      have hfirst : ∀ i t, i < j + 1 → f.body.regions[i]? = some t → t.protects f.ip →
          ¬ f.Takes session v t := by
        intro i t _ ht
        apply hnone t (List.mem_of_getElem? ht)
      apply h.unmatched_of_first hfirst j s (Nat.lt_succ_self j) hj hprotects
  · have hr := hfirst.region
    rw [h.sameCall.body] at hr
    obtain ⟨hnext, hprotects⟩ := (h.protects index r hr).mp hfirst.protects
    have hunmatched := h.unmatched_of_first hfirst.first
    have hleast : ∀ i, n ≤ i → f₀.Crosses session (.exception v) i → index ≤ i := by
      intro i hi hcrosses
      by_contra hlt
      obtain ⟨s, hs, hsprotects, htakes⟩ := h.takes_of_crosses hi hcrosses
      apply hfirst.first i s (Nat.lt_of_not_le hlt) hs hsprotects htakes
    cases hcatches with
    | finalizing hkind =>
        have hcrosses : f₀.Crosses session (.exception v) index :=
          ⟨r, hr, hkind, hprotects, hunmatched⟩
        exact .finalized hraise hr hfirst.protects hnext hcrosses hleast
    | catching hkind =>
        have hmatches : f₀.Matches session v r := by
          apply h.sameCall.matches_iff.mp
          apply (Frame.takes_iff.mp hfirst.takes).resolve_left
          rw [hkind]
          apply HandlerKind.noConfusion
        apply Rises.caught hraise _ ⟨hr, hprotects, hmatches, hunmatched⟩
        intro i hi hcrosses
        rcases Nat.lt_or_eq_of_le (hleast i hi hcrosses) with hlt | rfl
        · obtain ⟨_, _, _, _, hbefore⟩ := hcrosses
          apply hbefore index r hlt hr hprotects hmatches
        · obtain ⟨s, hs, hskind, -⟩ := hcrosses
          obtain rfl := Option.some.inj (hr.symm.trans hs)
          apply hmatches.not_finalizing hskind
  · rw [hzero] at hlimit
    exact absurd hlimit (Nat.not_succ_le_zero 0)

/-- The handler that starts is that of the next crossed region. -/
theorem Unwound.starts
    (h : Unwound session limit f₀ v n z f) (hbody : body.Arranged blocks) (hf₀ : f₀.body = body)
    (hraise : f.raise session limit v = .ok (some
      { f.abandonHandlers with
        stack := []
        pending := .unwind index v :: f.abandonHandlers.pending
        ip := r.handlerStart }))
    (hr : f₀.body.regions[index]? = some r) (hprotects : r.protects f.ip) (hnext : n ≤ index)
    (hproceeds : Proceeds session limit z b) :
  Starts index r z b
  := by
  obtain ⟨hready, hframe⟩ := (h.proceeds b).mp hproceeds
  rw [hraise] at hframe
  have hframe := Option.some.inj (Except.ok.inj hframe)
  rw [hf₀] at hr
  refine ⟨hready, by rw [← hframe], .unwind index v, f.abandonHandlers.pending, ?_, rfl, ?_⟩
  · rw [← hframe]
  · rw [← hframe]
    intro hsub
    have hsub := h.fresh index _ hnext hsub
    apply not_sublist_of_abandoned hbody (h.sameCall.body.trans hf₀) hr hprotects (by rfl) hsub

/-- The handler that starts is that of the first region that is left to cross. -/
theorem Unwound.next_of_starts
    (h : Unwound session limit f₀ v n z f) (hlimit : 1 ≤ limit)
    (hproceeds : Proceeds session limit z b) (hstarts : Starts index r z b) :
  n ≤ index ∧ f₀.Crosses session (.exception v) index
    ∧ (∀ i, n ≤ i → f₀.Crosses session (.exception v) i → index ≤ i)
    ∧ ∃ older, b.frame.pending = .unwind index v :: older
  := by
  obtain ⟨-, hframe⟩ := (h.proceeds b).mp hproceeds
  cases h.rises hlimit with
  | gone hraise _ _ =>
      rw [hraise] at hframe
      cases hframe
  | caught hraise _ _ =>
      rw [hraise] at hframe
      have hframe := Option.some.inj (Except.ok.inj hframe)
      have hkept : b.frame.pending.Sublist f.pending := by
        rw [← hframe]
        apply List.filter_sublist
      exact absurd hstarts (Starts.not_of_sublist (hkept.trans h.older))
  | finalized hraise _ _ hnext hcrosses hleast =>
      rw [hraise] at hframe
      have hframe := Option.some.inj (Except.ok.inj hframe)
      obtain ⟨k, older, hpending, hindex, -⟩ := hstarts.recorded
      rw [← hframe] at hpending
      obtain ⟨rfl, -⟩ := List.cons.inj hpending
      obtain rfl := hindex
      exact ⟨hnext, hcrosses, hleast, _, by rw [← hframe]; rfl⟩

/-- In a sorted list, the least of the numbers that come after a bound. -/
theorem next_of_least
    {all rest : List Nat} (hsorted : all.Pairwise (· < ·)) (hall : all = fs ++ rest)
    (hfs : ∀ i ∈ fs, i < n) (hrest : ∀ i ∈ rest, n ≤ i) (hmem : index ∈ all) (hnext : n ≤ index)
    (hleast : ∀ i ∈ all, n ≤ i → index ≤ i) :
  ∃ later, rest = index :: later ∧ ∀ i ∈ later, index + 1 ≤ i
  := by
  rw [hall] at hsorted
  obtain ⟨-, hsorted, -⟩ := List.pairwise_append.mp hsorted
  have hmem' : index ∈ rest := by
    rw [hall] at hmem
    rcases List.mem_append.mp hmem with hmem | hmem
    · exact absurd hnext (Nat.not_le_of_lt (hfs index hmem))
    · exact hmem
  cases rest with
  | nil => cases hmem'
  | cons next later =>
      obtain ⟨hlater, -⟩ := List.pairwise_cons.mp hsorted
      have hle : index ≤ next := by
        apply hleast next _ (hrest next List.mem_cons_self)
        rw [hall]
        exact List.mem_append_right _ List.mem_cons_self
      rcases List.mem_cons.mp hmem' with rfl | hmem'
      · exact ⟨later, rfl, hlater⟩
      · exact absurd (hlater index hmem') (Nat.not_lt_of_le hle)

/-- The handlers that an exception has run are the first of those that it crosses. -/
theorem Course.exception
    (hcourse : Course session limit body a fs z) (hbody : body.Arranged blocks)
    (ha : a.frame.body = body) (hlimit : 1 ≤ limit) (hraising : a.phase = .raising v)
    {all : List Nat} (hsorted : all.Pairwise (· < ·))
    (hall : ∀ i, i ∈ all ↔ a.frame.Crosses session (.exception v) i) :
  ∃ rest n f, all = fs ++ rest ∧ (∀ i ∈ fs, i < n) ∧ (∀ i ∈ rest, n ≤ i)
    ∧ Unwound session limit a.frame v n z f
  := by
  induction hcourse with
  | start =>
      obtain ⟨f, phase⟩ := a
      obtain rfl : phase = .raising v := hraising
      refine ⟨all, 0, f, rfl, ?_, fun i _ => Nat.zero_le i, unwound_of_raising⟩
      rintro i ⟨⟩
  | @handler fs z b z' index r states hcourse hproceeds hr hstarts hserved ih =>
      obtain ⟨rest, n, f, hsplit, hfs, hrest, hunwound⟩ := ih
      obtain ⟨hnext, hcrosses, hleast, older, hpending⟩ :=
        hunwound.next_of_starts hlimit hproceeds hstarts
      obtain ⟨later, rfl, hlater⟩ := next_of_least hsorted hsplit hfs hrest
        ((hall index).mpr hcrosses) hnext fun i hi hn => hleast i hn ((hall i).mp hi)
      have hcall := hcourse.sameCall.trans hproceeds.sameCall
      obtain ⟨hkind, -⟩ := hcrosses.protects (by rw [ha]; exact hr)
      have hlast := hserved.pending hbody (hcall.body.trans ha) hr hkind hpending rfl
      obtain ⟨operand, hends⟩ := hserved.ends
      refine ⟨later, index + 1, _, ?_, ?_, hlater, unwound_of_served hbody ha
        (hcall.trans hserved.run.sameCall) hserved.ready hends hlast hr hserved.owns hcrosses⟩
      · rw [hsplit, List.append_cons]
      · intro i hi
        rcases List.mem_append.mp hi with hi | hi
        · exact Nat.lt_succ_of_lt (Nat.lt_of_lt_of_le (hfs i hi) hnext)
        · rw [List.mem_singleton.mp hi]
          exact Nat.lt_succ_self index

/-- When no crossed region is left, the exception is caught or leaves the frame. -/
theorem Unwound.continues
    (h : Unwound session limit f₀ v n z f) (hbody : body.Arranged blocks) (hf₀ : f₀.body = body)
    (hlimit : 1 ≤ limit) {all rest : List Nat} (hsorted : all.Pairwise (· < ·))
    (hall : ∀ i, i ∈ all ↔ f₀.Crosses session (.exception v) i) (hsplit : all = fs ++ rest)
    (hfs : ∀ i ∈ fs, i < n) (hrest : ∀ i ∈ rest, n ≤ i) :
  Continues session limit f₀ (.exception v) rest z
  := by
  have hempty (hlast : ∀ i, n ≤ i → ¬ f₀.Crosses session (.exception v) i) : rest = [] := by
    apply List.eq_nil_iff_forall_not_mem.mpr
    intro i hi
    apply hlast i (hrest i hi)
    rw [← hall, hsplit]
    exact List.mem_append_right _ hi
  cases h.rises hlimit with
  | gone hraise hlast hnone =>
      obtain rfl := hempty hlast
      constructor
      · intro index r hfirst
        have hmem := List.mem_of_getElem? hfirst.region
        exact absurd hfirst.matching (hnone r hmem hfirst.protects)
      · intro _
        refine ⟨⟨f, (h.comesUp f).mpr rfl⟩, ?_⟩
        intro g hg callers
        obtain rfl := (h.comesUp g).mp hg
        rw [Frame.unwind, hraise]
        rfl
  | @caught index r hraise hlast hfirst =>
      obtain rfl := hempty hlast
      constructor
      · intro j s hfirst'
        obtain ⟨rfl, rfl⟩ := hfirst.unique hfirst'
        constructor
        · exact ⟨⟨_, .ready⟩, (h.proceeds _).mpr ⟨rfl, hraise⟩⟩
        · intro b hproceeds
          obtain ⟨-, hframe⟩ := (h.proceeds b).mp hproceeds
          rw [hraise] at hframe
          rw [← Option.some.inj (Except.ok.inj hframe)]
          exact ⟨rfl, rfl, rfl⟩
      · intro hnone
        have hmem := List.mem_of_getElem? hfirst.region
        exact absurd hfirst.matching (hnone r hmem hfirst.protects)
  | @finalized index r hraise hr hprotects hnext hcrosses hleast =>
      obtain ⟨later, rfl, -⟩ := next_of_least hsorted hsplit hfs hrest ((hall index).mpr hcrosses)
        hnext fun i hi hn => hleast i hn ((hall i).mp hi)
      refine ⟨r, hr, ⟨⟨_, .ready⟩, (h.proceeds _).mpr ⟨rfl, hraise⟩⟩, ?_⟩
      intro b hproceeds
      apply h.starts hbody hf₀ hraise hr hprotects hnext hproceeds

/-! ## The whole way -/

/-- The regions that are crossed, in order. -/
theorem exists_crossed (session : Session) (f : Frame) (exit : Exit) :
  ∃ all : List Nat, all.Pairwise (· < ·) ∧ ∀ i, i ∈ all ↔ f.Crosses session exit i
  := by
  classical
  refine ⟨(List.range f.body.regions.length).filter fun i => f.Crosses session exit i, ?_, ?_⟩
  · apply List.pairwise_lt_range.filter
  · intro i
    rw [List.mem_filter, List.mem_range, decide_eq_true_iff]
    constructor
    · exact And.right
    · intro hcrosses
      obtain ⟨r, hr, -⟩ := id hcrosses
      exact ⟨(List.getElem?_eq_some_iff.mp hr).1, hcrosses⟩

/-- In a sealed body, a frame that leaves for a target, or in which an exception has been raised,
crosses finally regions from the inside to the outside.  It starts their handlers one after the
other, each when the one before has been served, and arrives after the last of them. -/
theorem Begins.runs_crossed
    {e : Emitter} {effectOf : Opcode → MethodRef → Option CallEffect} {body : MethodBody}
    (hbuilt : e.Built) (hsealed : (e.sealBodyWith effectOf).1 = .ok body)
    {session : Session} {limit : Nat} (hlimit : 1 ≤ limit) {a : Activation}
    (ha : a.frame.body = body) {exit : Exit} (hbegins : a.Begins exit) :
  ∃ all : List Nat, all.Pairwise (· < ·)
    ∧ (∀ i, i ∈ all ↔ a.frame.Crosses session exit i)
    ∧ (all.Pairwise fun i j => ∀ r s, body.regions[i]? = some r → body.regions[j]? = some s →
      s.Encloses r)
    ∧ ∀ fs z, Course session limit body a fs z →
      ∃ rest, all = fs ++ rest ∧ Continues session limit a.frame exit rest z
  := by
  obtain ⟨blocks, hbody⟩ := hbuilt.arranged hsealed
  have hway : ∃ all : List Nat, all.Pairwise (· < ·)
      ∧ (∀ i, i ∈ all ↔ a.frame.Crosses session exit i)
      ∧ ∀ fs z, Course session limit body a fs z →
        ∃ rest, all = fs ++ rest ∧ Continues session limit a.frame exit rest z := by
    cases exit with
    | leave target =>
        refine ⟨_, a.frame.pairwise_finalliesBetween a.frame.ip target,
          fun i => Frame.crosses_leave_iff.symm, ?_⟩
        intro fs z hcourse
        obtain ⟨rest, g, hsplit, hgoes⟩ := hcourse.leave hbody ha hbegins
        refine ⟨rest, hsplit, hgoes.continues hcourse.sameCall ?_⟩
        intro i hi
        rw [Frame.crosses_leave_iff, hsplit]
        exact List.mem_append_right _ hi
    | exception v =>
        obtain ⟨all, hsorted, hall⟩ := exists_crossed session a.frame (.exception v)
        refine ⟨all, hsorted, hall, ?_⟩
        intro fs z hcourse
        obtain ⟨rest, n, f, hsplit, hfs, hrest, hunwound⟩ :=
          hcourse.exception hbody ha hlimit hbegins hsorted hall
        exact ⟨rest, hsplit, hunwound.continues hbody ha hlimit hsorted hall hsplit hfs hrest⟩
  obtain ⟨all, hsorted, hall, hcourses⟩ := hway
  have hencloses := Frame.Crosses.pairwise_encloses (by rw [ha]; exact hbody) hsorted
    fun i hi => (hall i).mp hi
  rw [ha] at hencloses
  exact ⟨all, hsorted, hall, hencloses, hcourses⟩

/-! ## a leave out of two ranges -/

def innerRegion : Region :=
  { tryStart := 0, tryEnd := 2, handlerStart := 2, handlerEnd := 3, kind := .finalizing }

def outerRegion : Region :=
  { tryStart := 0, tryEnd := 4, handlerStart := 4, handlerEnd := 5, kind := .finalizing }

/-- A body with a leave from the inner of two blocks to the end of the outer one. -/
def crossingBody : MethodBody :=
  { instructions := #[
      ⟨.leave .short, .label ⟨0⟩⟩, ⟨.leave .short, .label ⟨1⟩⟩, ⟨.endfinally, .none⟩,
      ⟨.leave .short, .label ⟨0⟩⟩, ⟨.endfinally, .none⟩, ⟨.ret, .none⟩]
    labels := #[some 5, some 3]
    locals := #[]
    regions := [innerRegion, outerRegion]
    maxStack := 0 }

theorem crossingBody_built :
  ∃ e : Emitter, e.Built ∧ (e.sealBodyWith fun _ _ => none).1 = .ok crossingBody
  := by
  have h := (Emitter.Built.start "T::M" false).beginBlock.beginBlock
  have h := h.emitWith (.leave .long) (.label ⟨0⟩)
  have h := (h.beginFinally rfl).endBlock rfl
  have h := (h.beginFinally rfl).endBlock rfl
  exact ⟨_, h.emitWith .ret .none, rfl⟩

/-- A frame of the body somewhere on its way. -/
def crossingState (ip : Nat) (pending : List AfterFinally) : Activation :=
  ⟨{ Frame.enter default crossingBody [] [] .dropResult with
      ip := ip
      pending := pending },
    .ready⟩

theorem crossing_serves
    {index : Nat} {r : Region} {k : AfterFinally} (hr : crossingBody.regions[index]? = some r)
    (hends : crossingBody.instructions[r.handlerEnd - 1]? = some ⟨.endfinally, .none⟩) :
  Served default 8 crossingBody index r (crossingState (r.handlerEnd - 1) [k]) []
    (crossingState (r.handlerEnd - 1) [k])
  := by
  obtain ⟨e, hbuilt, hsealed⟩ := crossingBody_built
  obtain ⟨blocks, hbody⟩ := hbuilt.arranged hsealed
  have howns := hbody.owns_last hr
  constructor
  case run => exact .refl
  case stays => exact List.forall_mem_singleton.mpr howns.1
  case nested => exact List.forall_mem_singleton.mpr (by rintro k ⟨⟩)
  case ready => rfl
  case ends => exact ⟨.none, hends⟩
  case owns => exact howns
  all_goals rintro x ⟨⟩

theorem crossing_course :
  Course default 8 crossingBody (crossingState 0 []) [0, 1] (crossingState 4 [.leave 1 5 []])
  := by
  have hleaves : LeavesFor (crossingState 0 []) 5 := ⟨rfl, .short, ⟨0⟩, rfl, rfl⟩
  have hfirst : Proceeds default 8 (crossingState 0 []) (crossingState 2 [.leave 0 5 [1]]) :=
    ⟨rfl, .inl (hleaves.step_iff.mpr rfl)⟩
  have hsecond : Proceeds default 8 (crossingState 2 [.leave 0 5 [1]])
      (crossingState 4 [.leave 1 5 []]) :=
    ⟨rfl, .inl ((Step.iff_of_endFinally rfl rfl rfl rfl).mpr rfl)⟩
  have hinner : Starts 0 innerRegion (crossingState 0 []) (crossingState 2 [.leave 0 5 [1]]) :=
    hleaves.goesTo.starts rfl hfirst
  have houter : Starts 1 outerRegion (crossingState 2 [.leave 0 5 [1]])
      (crossingState 4 [.leave 1 5 []]) :=
    (goesTo_of_endFinally rfl rfl rfl).starts rfl hsecond
  have hcourse := Course.start.handler hfirst rfl hinner (crossing_serves rfl rfl)
  exact hcourse.handler hsecond rfl houter (crossing_serves rfl rfl)

/-- The leave runs both handlers, the inner one first, and arrives at the end of the outer
block. -/
theorem crossing_arrives :
  Course default 8 crossingBody (crossingState 0 []) [0, 1] (crossingState 4 [.leave 1 5 []])
    ∧ (∃ b, Proceeds default 8 (crossingState 4 [.leave 1 5 []]) b)
    ∧ ∀ b, Proceeds default 8 (crossingState 4 [.leave 1 5 []]) b →
      b.frame.ip = 5 ∧ b.frame.stack = []
  := by
  obtain ⟨e, hbuilt, hsealed⟩ := crossingBody_built
  have hbegins : Begins (.leave 5) (crossingState 0 []) := ⟨rfl, .short, ⟨0⟩, rfl, rfl⟩
  have hlimit : 1 ≤ 8 := by decide
  obtain ⟨all, hsorted, hall, -, hcourses⟩ :=
    @Begins.runs_crossed _ _ _ hbuilt hsealed default _ hlimit _ rfl _ hbegins
  obtain ⟨rest, hsplit, hcontinues⟩ := hcourses _ _ crossing_course
  cases rest with
  | nil => exact ⟨crossing_course, hcontinues⟩
  | cons next later =>
      exfalso
      rw [hsplit] at hsorted hall
      have hmem : next ∈ [0, 1] ++ next :: later :=
        List.mem_append_right _ List.mem_cons_self
      obtain ⟨r, hr, -⟩ := (hall next).mp hmem
      have hbound : next < 2 := (List.getElem?_eq_some_iff.mp hr).1
      have hlater : 1 < next := (List.pairwise_append.mp hsorted).2.2 1 (by simp) next (by simp)
      omega

end Activation

end ManagedCode
