import ManagedCode.Proofs.Machine.Crossing

/-!
# The service of a finally handler

From the start of a finally handler to its own endfinally.  Handlers that are entered
meanwhile have ended by then, so the continuation of the handler is what comes next again
(`Activation.Served.pending`).  The regions that protect the endfinally are those of the
regions around the range of the handler that come later
(`MethodBody.Arranged.protects_iff_of_owns`).
-/

namespace ManagedCode

/-! ## What is in a handler -/

/-- The handler of a region holds the range and the handler of another one. -/
def Region.Holds (r s : Region) : Prop :=
  r.handlerStart ≤ s.tryStart ∧ s.handlerEnd ≤ r.handlerEnd

/-- An instruction is in the handler of a region, and of the blocks in the handler none has it in
its range or in its finally handler. -/
def MethodBody.Owns (body : MethodBody) (r : Region) (ip : Nat) : Prop :=
  r.inHandler ip ∧ ∀ s ∈ body.regions, r.Holds s →
    ¬ s.protects ip ∧ (s.kind = .finalizing → ¬ s.inHandler ip)

namespace MethodBody.Arranged

variable {body : MethodBody} {blocks : List Block} {index j ip ip' : Nat} {r s : Region}

/-- A handler that shares an instruction with the handler of a finally region, and is not around
it, is of a block in it. -/
theorem holds_of_inHandler
    (h : body.Arranged blocks) (hr : body.regions[index]? = some r) (hkind : r.kind = .finalizing)
    (hs : body.regions[j]? = some s) (hapart : ¬ s.Covers r) (hrip : r.inHandler ip)
    (hsip : s.inHandler ip) :
  r.Holds s
  := by
  obtain ⟨hrange, hafter, -, -⟩ := h.ranges (List.mem_of_getElem? hr)
  obtain ⟨hsrange, hsafter, -, -⟩ := h.ranges (List.mem_of_getElem? hs)
  rw [Region.inHandler_iff] at hrip hsip
  rw [Region.Covers] at hapart
  rcases Nat.lt_trichotomy j index with hlt | rfl | hgt
  · cases h.precedes_of_index hs hr hlt with
    | sibling _ hrcatch _ _ _ => exact absurd hkind hrcatch
    | held hstart hend => exact ⟨hstart, hend⟩
    | covered _ hend => omega
    | before hle => omega
    | between _ hend => omega
  · obtain rfl := Option.some.inj (hr.symm.trans hs)
    exact absurd ⟨Nat.le_refl _, Nat.le_refl _⟩ hapart
  · cases h.precedes_of_index hr hs hgt with
    | sibling hrcatch _ _ _ _ => exact absurd hkind hrcatch
    | held hstart hend => omega
    | covered _ hend => omega
    | before hle => omega
    | between _ hend => omega

/-- The last instruction of a handler belongs to the handler itself. -/
theorem owns_last (h : body.Arranged blocks) (hr : body.regions[index]? = some r) :
  body.Owns r (r.handlerEnd - 1)
  := by
  have hranges := h.ranges (List.mem_of_getElem? hr)
  constructor
  · rw [Region.inHandler_iff]
    omega
  · rintro s hs ⟨hstart, hend⟩
    obtain ⟨j, hj⟩ := List.mem_iff_getElem?.mp hs
    have hbefore : s.handlerEnd < r.handlerEnd := by
      rcases Nat.lt_trichotomy j index with hlt | rfl | hgt
      · exact h.handlerEnd_lt hj hr hlt
      · obtain rfl := Option.some.inj (hr.symm.trans hj)
        omega
      · have := h.handlerEnd_lt hr hj hgt
        omega
    have hsranges := h.ranges hs
    rw [Region.protects_iff, Region.inHandler_iff]
    omega

/-- Of the regions around the range of a finally region, the later ones are those around what
belongs to its handler. -/
theorem protects_iff_of_owns
    (h : body.Arranged blocks) (hr : body.regions[index]? = some r) (hkind : r.kind = .finalizing)
    (hip : r.protects ip) (howns : body.Owns r ip') (hs : body.regions[j]? = some s) :
  s.protects ip' ↔ index < j ∧ s.protects ip
  := by
  obtain ⟨hhandler, hown⟩ := howns
  have hranges := h.ranges (List.mem_of_getElem? hr)
  have hsranges := h.ranges (List.mem_of_getElem? hs)
  have hnot := hown s (List.mem_of_getElem? hs)
  rw [Region.protects_iff] at hnot ⊢
  rw [Region.protects_iff] at hip ⊢
  rw [Region.inHandler_iff] at hhandler
  rcases Nat.lt_trichotomy j index with hlt | rfl | hgt
  · have hnone : ¬ (s.tryStart ≤ ip' ∧ ip' < s.tryEnd) := by
      cases h.precedes_of_index hs hr hlt with
      | sibling _ hrcatch _ _ _ => exact absurd hkind hrcatch
      | held hstart hend => exact (hnot ⟨hstart, hend⟩).1
      | covered _ hend => omega
      | before hle => omega
      | between _ hend => omega
    constructor
    · intro hprotects
      exact absurd hprotects hnone
    · rintro ⟨hindex, -⟩
      exact absurd hindex (Nat.lt_asymm hlt)
  · obtain rfl := Option.some.inj (hr.symm.trans hs)
    omega
  · cases h.precedes_of_index hr hs hgt with
    | sibling hrcatch _ _ _ _ => exact absurd hkind hrcatch
    | covered hstart hend => omega
    | held hstart hend => omega
    | before hle => omega
    | between hstart hend => omega

end MethodBody.Arranged

/-- The finally regions that are entered when a handler has ended. -/
def AfterFinally.remaining : AfterFinally → List Nat
  | leave _ _ remaining => remaining
  | unwind _ _ => []

namespace Activation

variable {session : Session} {limit : Nat} {body : MethodBody} {blocks : List Block} {index : Nat}
  {r : Region} {a b z : Activation} {states : List Activation} {k : AfterFinally}
  {older : List AfterFinally}

/-- A run of a frame from the start of a finally handler to an endfinally of its own.  In between,
no exception is raised, and control stays in the handler and in each handler that it enters, until
that one has ended. -/
structure Served (session : Session) (limit : Nat) (body : MethodBody) (index : Nat) (r : Region)
    (b : Activation) (states : List Activation) (z : Activation) : Prop where
  run : Run session limit b states z
  quiet : ∀ x ∈ states, ¬ x.IsRaising
  stays : ∀ x ∈ states ++ [z], r.inHandler x.frame.ip
  nested : ∀ x ∈ states ++ [z],
    ∀ k ∈ x.frame.pending.take (x.frame.pending.length - b.frame.pending.length),
      x.frame.inHandlerOf k.region x.frame.ip
  unended : ∀ x ∈ states, ∀ k, x.Ends k → k.region ≠ index
  ready : z.phase = .ready
  ends : ∃ operand, z.frame.body.instructions[z.frame.ip]? = some ⟨.endfinally, operand⟩
  owns : body.Owns r z.frame.ip

/-! ## What is pending during the service -/

/-- The given regions are finally regions, and none of them has the index. -/
def OtherFinallies (body : MethodBody) (index : Nat) (regions : List Nat) : Prop :=
  ∀ j ∈ regions, j ≠ index ∧ ∃ s, body.regions[j]? = some s ∧ s.kind = .finalizing

/-- Before the continuation of a handler there are only those of finally handlers in it. -/
def Under (body : MethodBody) (index : Nat) (r : Region) (k : AfterFinally)
    (older : List AfterFinally) (f : Frame) : Prop :=
  ∃ news, f.pending = news ++ k :: older
    ∧ ∀ k' ∈ news, OtherFinallies body index (k'.region :: k'.remaining) ∧ body.Apart r k'.region

theorem under_continueTo
    {f : Frame} {target : Nat} {rest : List Nat} (hbody : body.WellNested)
    (hr : body.regions[index]? = some r) (hf : f.body = body)
    (hrest : OtherFinallies body index rest) (hinside : r.inHandler (f.continueTo target rest).ip)
    (hunder : Under body index r k older f) :
  Under body index r k older (f.continueTo target rest)
  := by
  obtain ⟨news, hpending, hnews⟩ := hunder
  cases rest with
  | nil => exact ⟨news, hpending, hnews⟩
  | cons next later =>
      obtain ⟨hne, s, hs, -⟩ := hrest next List.mem_cons_self
      rw [Frame.continueTo, Frame.enterFinally, hf, hs] at hinside
      have hapart := hbody.apart_of_start hr hs hne hinside
      refine ⟨.leave next target later :: news, congrArg _ hpending, ?_⟩
      exact List.forall_mem_cons.mpr ⟨⟨hrest, hapart⟩, hnews⟩

theorem others_finalliesBetween
    {f : Frame} {target : Nat} (hbody : body.WellNested) (hr : body.regions[index]? = some r)
    (hf : f.body = body) (hinside : r.inHandler f.ip) :
  OtherFinallies body index (f.finalliesBetween f.ip target)
  := by
  intro j hj
  obtain ⟨s, hs, hkind, hprotects⟩ := Frame.mem_finalliesBetween hj
  rw [hf] at hs
  refine ⟨?_, s, hs, hkind⟩
  rintro rfl
  obtain rfl := Option.some.inj (hr.symm.trans hs)
  apply (hbody.proper r (List.mem_of_getElem? hr)).not_inHandler hprotects hinside

theorem Step.under
    (hstep : Step session limit a b) (hbody : body.WellNested) (ha : a.frame.body = body)
    (hr : body.regions[index]? = some r) (hk : k.region = index) (hquiet : ¬ a.IsRaising)
    (hends : ∀ k, a.Ends k → k.region ≠ index) (hinside : r.inHandler a.frame.ip)
    (hstays : r.inHandler b.frame.ip) (hunder : Under body index r k older a.frame) :
  Under body index r k older b.frame
  := by
  have hpopped : ∀ {k' rest}, a.Ends k' → a.frame.pending = k' :: rest →
      OtherFinallies body index k'.remaining
        ∧ Under body index r k older { a.frame with stack := [], pending := rest } := by
    intro k' rest hend hpending
    obtain ⟨news, htop, hnews⟩ := hunder
    rw [hpending] at htop
    cases news with
    | nil =>
        cases htop
        exact absurd hk (hends _ hend)
    | cons first news =>
        cases htop
        obtain ⟨⟨hothers, -⟩, hrest⟩ := List.forall_mem_cons.mp hnews
        exact ⟨fun j hj => hothers j (List.mem_cons_of_mem _ hj), news, rfl, hrest⟩
  cases hstep.turn with
  | keep _ _ hpending =>
      obtain ⟨news, htop, hnews⟩ := hunder
      exact ⟨news, hpending.trans htop, hnews⟩
  | @leave target _ hframe =>
      rw [hframe, Frame.leave] at hstays ⊢
      have hothers : OtherFinallies body index (a.frame.finalliesBetween a.frame.ip target) :=
        others_finalliesBetween hbody hr ha hinside
      apply under_continueTo hbody hr (by exact ha) hothers hstays (by exact hunder)
  | @endLeave region target remaining rest hend hpending hframe =>
      obtain ⟨hothers, hrest⟩ := hpopped hend hpending
      rw [hframe] at hstays ⊢
      apply under_continueTo hbody hr (by exact ha) (by exact hothers) hstays hrest
  | endUnwind hend hpending hframe =>
      rw [hframe]
      apply (hpopped hend hpending).2
  | caught hraising _ _ _ => exact absurd ⟨_, hraising⟩ hquiet

theorem Run.under
    (hrun : Run session limit b states z) (hbody : body.WellNested) (hb : b.frame.body = body)
    (hr : body.regions[index]? = some r) (hk : k.region = index)
    (hquiet : ∀ x ∈ states, ¬ x.IsRaising) (hends : ∀ x ∈ states, ∀ k, x.Ends k → k.region ≠ index)
    (hstays : ∀ x ∈ states ++ [z], r.inHandler x.frame.ip)
    (hunder : Under body index r k older b.frame) :
  Under body index r k older z.frame ∧ z.frame.body = body
  := by
  induction hrun with
  | refl => exact ⟨hunder, hb⟩
  | @step a b c states hstep hrun ih =>
      obtain ⟨ha, hstays⟩ := List.forall_mem_cons.mp hstays
      obtain ⟨hquiet, hlater⟩ := List.forall_mem_cons.mp hquiet
      obtain ⟨hend, hends⟩ := List.forall_mem_cons.mp hends
      have hnext : r.inHandler b.frame.ip := by
        cases hrun with
        | refl => exact hstays _ List.mem_cons_self
        | step _ _ => exact hstays _ List.mem_cons_self
      apply ih (hstep.sameCall.body.trans hb) hlater hends hstays
      apply hstep.under hbody hb hr hk hquiet hend ha hnext hunder

/-- At the end of the service, the continuation of the handler is the next one. -/
theorem Served.pending
    (hserved : Served session limit body index r b states z) (hbody : body.Arranged blocks)
    (hb : b.frame.body = body) (hr : body.regions[index]? = some r) (hkind : r.kind = .finalizing)
    (hpending : b.frame.pending = k :: older) (hk : k.region = index) :
  z.frame.pending = k :: older
  := by
  have hz : z ∈ states ++ [z] := List.mem_append_right _ List.mem_cons_self
  have hfirst : Under body index r k older b.frame := ⟨[], hpending, by rintro k ⟨⟩⟩
  obtain ⟨⟨news, hlast, hnews⟩, hzbody⟩ := hserved.run.under hbody.wellNested hb hr hk
    hserved.quiet hserved.unended hserved.stays hfirst
  cases news with
  | nil => exact hlast
  | cons first news =>
      exfalso
      have hnested := hserved.nested z hz first (by
        rw [hlast, hpending, List.length_append, Nat.add_sub_cancel, List.take_left]
        exact List.mem_cons_self)
      obtain ⟨hothers, hapart⟩ := hnews first List.mem_cons_self
      obtain ⟨-, s, hs, hskind⟩ := hothers first.region List.mem_cons_self
      rw [Frame.inHandlerOf, hzbody, hs] at hnested
      have hholds := hbody.holds_of_inHandler hr hkind hs (hapart s hs) (hserved.stays z hz) hnested
      apply (hserved.owns.2 s (List.mem_of_getElem? hs) hholds).2 hskind hnested

end Activation

end ManagedCode
