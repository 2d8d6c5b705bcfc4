import ManagedCode.Proofs.Machine.Crossing

/-!
# Leaving the range of a finally region

A step out of the range that a finally region protects starts the handler of the region,
unless the instruction is a branch, or an endfinally that ends a handler outside of the
range (`Activation.Run.starts_unless_bypassed`).  An exception does not leave the frame
from there; a return does, and so the handler does not run on every way out of the
range.
-/

namespace ManagedCode

theorem Opcode.not_endsRange {op : Opcode} (hflow : op.flow ≠ .leave ∧ op.flow ≠ .endFinally) :
  ¬ op.EndsRange
  := by
  intro hends
  cases op with
  | leave w => exact hflow.1 rfl
  | endfinally => exact hflow.2 rfl
  | _ => exact hends

namespace MethodBody.Arranged

variable {body : MethodBody} {blocks : List Block} {ip : Nat} {i : Instruction} {r : Region}

/-- The range of a finally region ends where the handler starts. -/
theorem tryEnd_of_finally
    (h : body.Arranged blocks) (hr : r ∈ body.regions) (hkind : r.kind = .finalizing) :
  r.tryEnd = r.handlerStart
  := by
  obtain ⟨b, hb, hrb⟩ := h.exists_block hr
  have htryEnd := ((h.proper b hb).1.belongs hrb).tryEnd_cases
  exact (htryEnd.resolve_left fun h => h.1 hkind).2

/-- Control does not fall out of the range of a finally region. -/
theorem protects_succ
    (h : body.Arranged blocks) (hr : r ∈ body.regions) (hkind : r.kind = .finalizing)
    (hip : r.protects ip) (hi : body.instructions[ip]? = some i) (hends : ¬ i.opcode.EndsRange) :
  r.protects (ip + 1)
  := by
  obtain ⟨⟨hpos, last, hlast, hop⟩, -⟩ := h.cut r hr
  rw [← h.tryEnd_of_finally hr hkind] at hlast hpos
  rw [Region.protects_iff] at hip ⊢
  have hne : ip ≠ r.tryEnd - 1 := by
    rintro rfl
    rw [hi] at hlast
    cases hlast
    exact hends hop
  omega

end MethodBody.Arranged

namespace Activation

variable {session : Session} {limit : Nat} {body : MethodBody} {blocks : List Block}
  {a b : Activation} {states : List Activation} {index : Nat} {r : Region}

/-! ## What is pending -/

/-- A continuation is part of the way from some instruction to its target. -/
def OnWay (f : Frame) : AfterFinally → Prop
  | .leave region target remaining =>
    ∃ ip before, f.finalliesBetween ip target = before ++ region :: remaining
  | .unwind _ _ => True

/-- Every continuation is part of a way, and a frame that waits is not about to end a range. -/
structure Oriented (a : Activation) : Prop where
  pending : ∀ k ∈ a.frame.pending, OnWay a.frame k
  waiting : ∀ resume, a.phase = .waiting resume →
    ∃ i, a.frame.body.instructions[a.frame.ip]? = some i ∧ ¬ i.opcode.EndsRange

theorem onWay_congr {f g : Frame} (h : f.SameCall g) {k : AfterFinally} (hk : OnWay f k) :
  OnWay g k
  := by
  cases k with
  | unwind region exception => trivial
  | leave region target remaining =>
      obtain ⟨ip, before, hway⟩ := hk
      refine ⟨ip, before, ?_⟩
      rw [← hway, Frame.finalliesBetween, h.body]
      rfl

theorem onWay_continueTo
    {f : Frame} {ip target : Nat} {before rest : List Nat}
    (hway : f.finalliesBetween ip target = before ++ rest)
    (hpending : ∀ k ∈ f.pending, OnWay f k) :
  ∀ k ∈ (f.continueTo target rest).pending, OnWay f k
  := by
  cases rest with
  | nil => exact hpending
  | cons next later => exact List.forall_mem_cons.mpr ⟨⟨ip, before, hway⟩, hpending⟩

theorem Step.onWay (hstep : Step session limit a b) (h : ∀ k ∈ a.frame.pending, OnWay a.frame k) :
  ∀ k ∈ b.frame.pending, OnWay b.frame k
  := by
  have hcall := hstep.sameCall
  suffices hkept : ∀ k ∈ b.frame.pending, OnWay a.frame k from
    fun k hk => onWay_congr hcall (hkept k hk)
  cases hstep.turn with
  | keep _ _ hpending =>
      rw [hpending]
      exact h
  | @leave target _ hframe =>
      have hway : a.frame.finalliesBetween a.frame.ip target
          = [] ++ a.frame.finalliesBetween a.frame.ip target := rfl
      rw [hframe]
      exact onWay_continueTo hway h
  | endLeave _ hpending hframe =>
      rw [hpending] at h
      obtain ⟨⟨ip, before, hway⟩, hrest⟩ := List.forall_mem_cons.mp h
      rw [List.append_cons] at hway
      rw [hframe]
      exact onWay_continueTo hway hrest
  | endUnwind _ hpending hframe =>
      rw [hpending] at h
      rw [hframe]
      exact (List.forall_mem_cons.mp h).2
  | caught _ _ _ hcatches =>
      have hfiltered : ∀ k ∈ a.frame.abandonHandlers.pending, OnWay a.frame k :=
        fun k hk => h k (List.mem_filter.mp hk).1
      generalize b.frame = g at hcatches hcall ⊢
      cases hcatches with
      | finalizing _ => exact List.forall_mem_cons.mpr ⟨trivial, hfiltered⟩
      | catching _ => exact hfiltered

theorem Step.oriented (hstep : Step session limit a b) (h : a.Oriented) : b.Oriented := by
  refine ⟨hstep.onWay h.pending, ?_⟩
  intro resume hresume
  cases hstep with
  | @execute f i heap heap' request b hinstruction hexecute hafter =>
      have hcalls : ∀ {g : Frame}, g.ip = f.ip → f.SameCall g → i.opcode.flow = .next →
          ∃ i, g.body.instructions[g.ip]? = some i ∧ ¬ i.opcode.EndsRange := by
        intro g hip hcall hflow
        refine ⟨i, ?_, Opcode.not_endsRange (by rw [hflow]; decide)⟩
        rw [hip, hcall.body]
        exact hinstruction
      cases Surroundings.execute_outcome hexecute with
      | next | branch | leave | endLeave | endUnwind | throw | rethrow =>
          obtain rfl := Option.some.inj hafter
          cases hresume
      | finish => cases hafter
      | invoke hop _ _ hg hip =>
          obtain rfl := Option.some.inj hafter
          apply hcalls hip hg.toSameCall
          obtain hop | hop := hop <;> rw [hop] <;> rfl
      | callStatic hop _ _ hg hip =>
          obtain rfl := Option.some.inj hafter
          apply hcalls hip hg.toSameCall
          obtain hop | hop := hop <;> rw [hop] <;> rfl
      | construct hop _ _ _ hg hip =>
          obtain rfl := Option.some.inj hafter
          apply hcalls hip hg.toSameCall
          rw [hop]
          rfl
      | loadStatic hop =>
          obtain rfl := Option.some.inj hafter
          apply hcalls rfl (.refl f)
          rw [hop]
          rfl
      | storeStatic hop hg hip =>
          obtain rfl := Option.some.inj hafter
          apply hcalls hip hg.toSameCall
          rw [hop]
          rfl
  | passed | handled | result | dropped | object | loaded | stored => cases hresume
  | called | constructed => exact h.waiting _ rfl

theorem Run.oriented
    {m : RealizedMethod} {args : List Value} {typeArgs : List TypeRef} {resume : Resume}
    (hrun : Run session limit (.enter m body args typeArgs resume) states a) :
  a.Oriented ∧ a.frame.body = body
  := by
  refine hrun.keeps (P := fun x => x.Oriented ∧ x.frame.body = body) ?_ ?_
  · rintro x y ⟨hx, hxbody⟩ hstep
    exact ⟨hstep.oriented hx, hstep.sameCall.body.trans hxbody⟩
  · exact ⟨⟨by rintro k ⟨⟩, by rintro resume ⟨⟩⟩, rfl⟩

/-! ## One step out of a range -/

/-- A frame is at a branch, or about to end a handler that is outside of the range of a region. -/
inductive Bypasses (r : Region) (a : Activation) : Prop
  | branch {i : Instruction} (hready : a.phase = .ready)
      (hinstruction : a.frame.body.instructions[a.frame.ip]? = some i)
      (hflow : i.opcode.flow = .branch ∨ i.opcode.flow = .condBranch ∨ i.opcode.flow = .switch)
  | endfinally {region target : Nat} {remaining : List Nat}
      (hends : a.Ends (.leave region target remaining))
      (houtside : ∀ s, a.frame.body.regions[region]? = some s → ¬ r.Encloses s)

/-- A finally handler that encloses a region comes later, and protects what the region protects. -/
theorem later_of_encloses
    (hbody : body.Arranged blocks) {region : Nat} {s : Region}
    (hr : body.regions[index]? = some r) (hs : body.regions[region]? = some s)
    (hencloses : r.Encloses s) :
  region < index ∧ ∀ ip, s.protects ip → r.protects ip
  := by
  obtain ⟨hstart, hend⟩ := hencloses
  have hrranges := hbody.ranges (List.mem_of_getElem? hr)
  have hsranges := hbody.ranges (List.mem_of_getElem? hs)
  constructor
  · rcases Nat.lt_trichotomy region index with hlt | rfl | hgt
    · exact hlt
    · obtain rfl := Option.some.inj (hr.symm.trans hs)
      omega
    · have := hbody.handlerEnd_lt hr hs hgt
      omega
  · intro ip hip
    rw [Region.protects_iff] at hip ⊢
    omega

theorem LeavesFor.not_bypasses {target : Nat} (hleaves : a.LeavesFor target) : ¬ a.Bypasses r := by
  obtain ⟨-, w, l, hleave, -⟩ := hleaves
  rintro (⟨-, hinstruction, hflow⟩ | ⟨⟨-, operand, rest, hend, -⟩, -⟩)
  · obtain rfl := Option.some.inj (hleave.symm.trans hinstruction)
    rcases hflow with hflow | hflow | hflow <;> cases hflow
  · cases hleave.symm.trans hend

/-- A leave out of the range starts the handler, unless control stays in the range. -/
theorem starts_of_leave
    {target : Nat} (hbody : body.Arranged blocks) (ha : a.frame.body = body)
    (hr : body.regions[index]? = some r) (hkind : r.kind = .finalizing)
    (hip : r.protects a.frame.ip) (hready : b.phase = .ready)
    (hframe : b.frame = a.frame.leave target) (hout : ¬ r.protects b.frame.ip) :
  Starts index r a b
  := by
  have hway : a.frame.finalliesBetween a.frame.ip target
      = [] ++ a.frame.finalliesBetween a.frame.ip target := rfl
  rw [Frame.leave] at hframe
  obtain ⟨later, hlater⟩ | hstays :=
    Frame.continueTo_protected hbody ha (by exact ha) hr hkind hip hway List.not_mem_nil hframe
  · rw [hlater] at hframe
    apply starts_of_continueTo (by rw [← ha] at hr; exact hr) hready hframe
    intro hsub
    have := hsub.length_le
    rw [List.length_cons] at this
    exact Nat.not_succ_le_self _ this
  · exact absurd hstays hout

section

variable {region ip target : Nat} {remaining before : List Nat} {rest : List AfterFinally}
  {s : Region}

theorem Ends.bypasses_iff
    (hends : a.Ends (.leave region target remaining))
    (hs : a.frame.body.regions[region]? = some s) :
  a.Bypasses r ↔ ¬ r.Encloses s
  := by
  constructor
  · obtain ⟨-, operand, rest, hend, hpending⟩ := hends
    rintro (⟨-, hinstruction, hflow⟩ | ⟨⟨-, operand', rest', -, hpending'⟩, houtside⟩)
    · obtain rfl := Option.some.inj (hend.symm.trans hinstruction)
      rcases hflow with hflow | hflow | hflow <;> cases hflow
    · cases hpending.symm.trans hpending'
      apply houtside s hs
  · intro hnot
    apply Bypasses.endfinally hends
    intro t ht
    obtain rfl := Option.some.inj (hs.symm.trans ht)
    exact hnot

/-- The end of a handler in the range starts the handler of the region, if control leaves the
range. -/
theorem starts_of_endLeave
    (hbody : body.Arranged blocks) (ha : a.frame.body = body) (hr : body.regions[index]? = some r)
    (hkind : r.kind = .finalizing) (hs : body.regions[region]? = some s)
    (hencloses : r.Encloses s) (hip : s.protects ip)
    (hway : a.frame.finalliesBetween ip target = before ++ region :: remaining)
    (hready : b.phase = .ready)
    (hpending : a.frame.pending = .leave region target remaining :: rest)
    (hframe : b.frame = { a.frame with stack := [], pending := rest }.continueTo target remaining)
    (hout : ¬ r.protects b.frame.ip) :
  Starts index r a b
  := by
  obtain ⟨hlater, hprotects⟩ := later_of_encloses hbody hr hs hencloses
  have hbefore : index ∉ before ++ [region] := by
    have hsorted := a.frame.pairwise_finalliesBetween ip target
    rw [hway, List.pairwise_append] at hsorted
    rw [List.mem_append, List.mem_singleton]
    rintro (hindex | rfl)
    · exact Nat.lt_asymm hlater (hsorted.2.2 index hindex region List.mem_cons_self)
    · exact Nat.lt_irrefl _ hlater
  rw [List.append_cons] at hway
  obtain ⟨later, rfl⟩ | hstays := Frame.continueTo_protected hbody ha
    (by exact ha) hr hkind (hprotects ip hip) hway hbefore hframe
  · apply starts_of_continueTo (by rw [← ha] at hr; exact hr) hready hframe
    rw [hpending]
    intro hsub
    cases hsub.eq_of_length rfl
  · exact absurd hstays hout

/-- The end of a handler starts only handlers of regions around it. -/
theorem encloses_of_starts
    (hbody : body.Arranged blocks) (ha : a.frame.body = body) (hr : body.regions[index]? = some r)
    (hs : body.regions[region]? = some s) (hskind : s.kind = .finalizing) (hip : s.protects ip)
    (hway : a.frame.finalliesBetween ip target = before ++ region :: remaining)
    (hpending : a.frame.pending = .leave region target remaining :: rest)
    (hframe : b.frame = { a.frame with stack := [], pending := rest }.continueTo target remaining)
    (hstarts : Starts index r a b) :
  r.Encloses s
  := by
  cases remaining with
  | nil =>
      have hkept : b.frame.pending.Sublist a.frame.pending := by
        rw [hframe, hpending]
        apply List.sublist_cons_self
      exact absurd hstarts (Starts.not_of_sublist hkept)
  | cons next later =>
      obtain ⟨k, older, hk, hindex, -⟩ := hstarts.recorded
      rw [hframe] at hk
      obtain ⟨rfl, -⟩ := List.cons.inj hk
      obtain rfl : next = index := hindex
      have hnext : next ∈ a.frame.finalliesBetween ip target := by
        rw [hway]
        exact List.mem_append_right _ (List.mem_cons_of_mem _ List.mem_cons_self)
      obtain ⟨r', hr', -, hrip, -⟩ := Frame.mem_finalliesBetween_iff.mp hnext
      rw [ha, hr] at hr'
      obtain rfl := Option.some.inj hr'
      have hsorted := a.frame.pairwise_finalliesBetween ip target
      rw [hway, List.pairwise_append, List.pairwise_cons] at hsorted
      have hlt := hsorted.2.1.1 next List.mem_cons_self
      exact hbody.encloses_of_protects hs hr hlt hip hrip (.inl hskind)

/-- An endfinally out of the range starts the handler if it ends a handler in the range, and
bypasses it otherwise. -/
theorem Ends.starts_iff
    (hends : a.Ends (.leave region target remaining)) (hbody : body.Arranged blocks)
    (ha : a.frame.body = body) (horiented : a.Oriented) (hr : body.regions[index]? = some r)
    (hkind : r.kind = .finalizing) (hready : b.phase = .ready)
    (hpending : a.frame.pending = .leave region target remaining :: rest)
    (hframe : b.frame = { a.frame with stack := [], pending := rest }.continueTo target remaining)
    (hout : ¬ r.protects b.frame.ip) :
  Starts index r a b ↔ ¬ a.Bypasses r
  := by
  have hmem : .leave region target remaining ∈ a.frame.pending := by
    rw [hpending]
    exact List.mem_cons_self
  obtain ⟨ip, before, hway⟩ := horiented.pending _ hmem
  have hregion : region ∈ a.frame.finalliesBetween ip target := by
    rw [hway]
    exact List.mem_append_right _ List.mem_cons_self
  obtain ⟨s, hs, hskind, hip, -⟩ := Frame.mem_finalliesBetween_iff.mp hregion
  rw [hends.bypasses_iff hs, not_not]
  rw [ha] at hs
  constructor
  · exact encloses_of_starts hbody ha hr hs hskind hip hway hpending hframe
  · intro hencloses
    exact starts_of_endLeave hbody ha hr hkind hs hencloses hip hway hready hpending hframe hout

end

/-- An exception that leaves the range starts the handler.  A handler in the range would keep it
there. -/
theorem starts_of_raise
    {f g : Frame} {exception : Value} (hbody : body.Arranged blocks) (hf : f.body = body)
    (hr : body.regions[index]? = some r) (hkind : r.kind = .finalizing) (hip : r.protects f.ip)
    (hraise : f.raise session limit exception = .ok (some g)) (hout : ¬ r.protects g.ip) :
  Starts index r ⟨f, .raising exception⟩ ⟨g, .ready⟩
  := by
  have htakes : f.Takes session exception r := Frame.takes_of_finalizing hkind
  obtain ⟨hnone, -⟩ | ⟨j, s, hfirst, ⟨g', hg', hcatches⟩ | ⟨-, herror⟩⟩ :=
    Frame.raise_cases session limit f exception
  · rw [hraise] at hnone
    cases hnone
  · rw [hraise] at hg'
    cases hg'
    have hs := hfirst.region
    rw [hf] at hs
    rcases Nat.lt_trichotomy j index with hlt | rfl | hgt
    · exfalso
      apply hout
      have hencloses := hbody.encloses_of_protects hs hr hlt hfirst.protects hip (.inr hkind)
      obtain ⟨hrange, hafter, hhandler, -⟩ := hbody.ranges (List.mem_of_getElem? hs)
      have hstart := hencloses.protects_handlerStart (Nat.lt_of_lt_of_le hrange hafter) hhandler
      cases hcatches <;> exact hstart
    · rw [hr] at hs
      cases hs
      cases hcatches with
      | catching hcatch =>
          rw [hkind] at hcatch
          cases hcatch
      | finalizing _ =>
          refine ⟨rfl, rfl, _, _, rfl, rfl, not_sublist_of_abandoned hbody hf hr hip rfl⟩
    · rw [← hf] at hr
      exact absurd htakes (hfirst.first index r hgt hr hip)
  · rw [hraise] at herror
    cases herror

/-- A step out of the range of a finally region starts its handler unless it bypasses it.  An
instruction that does not end a range is followed by one in the range, so that only ends of ranges
lead out in order. -/
theorem Step.starts_iff
    (hstep : Step session limit a b) (hbody : body.Arranged blocks) (ha : a.frame.body = body)
    (horiented : a.Oriented) (hr : body.regions[index]? = some r) (hkind : r.kind = .finalizing)
    (hip : r.protects a.frame.ip) (hout : ¬ r.protects b.frame.ip) :
  Starts index r a b ↔ ¬ a.Bypasses r
  := by
  have hmem := List.mem_of_getElem? hr
  have hnext : ∀ {i : Instruction}, a.frame.body.instructions[a.frame.ip]? = some i →
      ¬ i.opcode.EndsRange → b.frame.ip ≠ a.frame.ip + 1 := by
    intro i hi hends hadvance
    apply hout
    rw [hadvance]
    rw [ha] at hi
    exact hbody.protects_succ hmem hkind hip hi hends
  have hsame : b.frame.ip ≠ a.frame.ip := by
    intro heq
    rw [heq] at hout
    exact hout hip
  have hwaits : ∀ {resume}, a.phase = .waiting resume → b.frame.ip ≠ a.frame.ip + 1 := by
    intro resume hresume
    obtain ⟨i, hi, hends⟩ := horiented.waiting resume hresume
    exact hnext hi hends
  cases hstep with
  | @execute f i heap heap' request b hinstruction hexecute hafter =>
      cases Surroundings.execute_outcome hexecute with
      | next hflow _ hg hadvance =>
          obtain rfl := Option.some.inj hafter
          have hends : ¬ i.opcode.EndsRange := Opcode.not_endsRange (by rw [hflow]; decide)
          cases hnext hinstruction hends hadvance
      | branch hflow _ hg _ =>
          obtain rfl := Option.some.inj hafter
          have hbypasses : Bypasses r ⟨f, .ready⟩ := .branch rfl hinstruction hflow
          apply iff_of_false (Starts.not_of_sublist _) (not_not_intro hbypasses)
          rw [show _ = f.pending from hg.pending]
      | @leave w l target hop hlabel htarget =>
          obtain rfl := Option.some.inj hafter
          obtain ⟨op, operand⟩ := i
          obtain rfl : op = .leave w := hop
          obtain rfl : operand = .label l := hlabel
          have hleaves : LeavesFor ⟨f, .ready⟩ target := ⟨rfl, w, l, hinstruction, htarget⟩
          have hstarts := starts_of_leave hbody ha hr hkind hip rfl rfl hout
          exact iff_of_true hstarts hleaves.not_bypasses
      | endLeave hop hpending =>
          obtain rfl := Option.some.inj hafter
          obtain ⟨op, operand⟩ := i
          obtain rfl : op = .endfinally := hop
          have hends : Ends ⟨f, .ready⟩ _ := ⟨rfl, operand, _, hinstruction, hpending⟩
          exact hends.starts_iff hbody ha horiented hr hkind rfl hpending rfl hout
      | endUnwind hop hpending =>
          obtain rfl := Option.some.inj hafter
          cases hsame rfl
      | throw _ _ hstays | invoke _ _ _ _ hstays | callStatic _ _ _ _ hstays
      | construct _ _ _ _ _ hstays | storeStatic _ _ hstays =>
          obtain rfl := Option.some.inj hafter
          cases hsame hstays
      | rethrow _ _ | loadStatic _ =>
          obtain rfl := Option.some.inj hafter
          cases hsame rfl
      | finish _ _ => cases hafter
  | handled hraise =>
      apply iff_of_true (starts_of_raise hbody ha hr hkind hip hraise hout)
      rintro (⟨⟨⟩, -, -⟩ | ⟨⟨⟨⟩, -⟩, -⟩)
  | passed | called | constructed => cases hsame rfl
  | dropped | stored => cases hwaits rfl rfl
  | result hpush | object hpush | loaded hpush =>
      cases hwaits rfl (congrArg (· + 1) (Frame.push_ok hpush).2)

/-- In a sealed body, consider a frame in the range of a finally region.  A step out of the range
starts the handler unless it bypasses it.  An exception does not leave the frame from there, and
of the instructions only a return does. -/
theorem Run.starts_unless_bypassed
    {e : Emitter} {effectOf : Opcode → MethodRef → Option CallEffect} {body : MethodBody}
    (hbuilt : e.Built) (hsealed : (e.sealBodyWith effectOf).1 = .ok body)
    {m : RealizedMethod} {args : List Value} {typeArgs : List TypeRef} {resume : Resume}
    (hrun : Run session limit (.enter m body args typeArgs resume) states a)
    (hr : body.regions[index]? = some r) (hkind : r.kind = .finalizing)
    (hip : r.protects a.frame.ip) :
  (∀ b, Step session limit a b → ¬ r.protects b.frame.ip →
    (Starts index r a b ↔ ¬ a.Bypasses r))
  ∧ (∀ v, a.phase = .raising v → a.frame.raise session limit v ≠ .ok none)
  ∧ ∀ i heap heap' request, a.frame.body.instructions[a.frame.ip]? = some i →
    Surroundings.execute ⟨session, limit⟩ heap a.frame i = .ok (request, heap') →
    request.after = none → i.opcode = .ret
  := by
  obtain ⟨blocks, hbody⟩ := hbuilt.arranged hsealed
  obtain ⟨horiented, ha⟩ := hrun.oriented
  refine ⟨?_, ?_, ?_⟩
  · intro b hstep hout
    exact hstep.starts_iff hbody ha horiented hr hkind hip hout
  · intro v _ hnone
    obtain ⟨-, hall⟩ | ⟨j, s, -, ⟨g, hg, -⟩ | ⟨-, herror⟩⟩ :=
      Frame.raise_cases session limit a.frame v
    · rw [ha] at hall
      exact hall r (List.mem_of_getElem? hr) hip (Frame.takes_of_finalizing hkind)
    · rw [hnone] at hg
      cases hg
    · rw [hnone] at herror
      cases herror
  · intro i heap heap' request _ hexecute hafter
    cases Surroundings.execute_outcome hexecute with
    | finish hop _ => exact hop
    | _ => cases hafter

/-! ## a branch over a finally handler -/

def skippingRegion : Region :=
  { tryStart := 0, tryEnd := 3, handlerStart := 3, handlerEnd := 4, kind := .finalizing }

/-- A body with a branch from the range of its finally region to the end of its block. -/
def skippingBody : MethodBody :=
  { instructions := #[
      ⟨.firstLdarg, .none⟩, ⟨.branch .isTrue .short, .label ⟨1⟩⟩,
      ⟨.leave .short, .label ⟨0⟩⟩, ⟨.endfinally, .none⟩, ⟨.ret, .none⟩]
    labels := #[some 4, some 4]
    locals := #[]
    regions := [skippingRegion]
    maxStack := 1 }

theorem skippingBody_built :
  ∃ e : Emitter, e.Built ∧ (e.sealBodyWith fun _ _ => none).1 = .ok skippingBody
  := by
  have h := (Emitter.Built.start "T::M" false).beginBlock.defineLabel
  have h := (h.emitWith .firstLdarg .none).emitWith (.branch .isTrue .long) (.label ⟨1⟩)
  have h := (h.beginFinally rfl).endBlock rfl
  have h := (h.markLabel ⟨1⟩).emitWith .ret .none
  exact ⟨_, h, rfl⟩

/-- A frame of the body that has been called with a number. -/
def skippingFrame (n : Int32) (ip : Nat) (stack : List Value) (pending : List AfterFinally) :
    Frame :=
  { Frame.enter default skippingBody [.i32 n] [] .dropResult with
    ip := ip
    stack := stack
    pending := pending }

theorem skipping_branches :
  (∃ states, Run default 8 (.enter default skippingBody [.i32 1] [] .dropResult) states
      ⟨skippingFrame 1 1 [.i32 1] [], .ready⟩)
    ∧ Step default 8 ⟨skippingFrame 1 1 [.i32 1] [], .ready⟩ ⟨skippingFrame 1 4 [] [], .ready⟩
  := by
  constructor
  · exact ⟨_, .next ⟨.firstLdarg, .none⟩ default rfl rfl rfl .refl⟩
  · exact .execute (i := ⟨.branch .isTrue .short, .label ⟨1⟩⟩) rfl
      (show Surroundings.execute ⟨default, 8⟩ default _ _ = _ from rfl) rfl

/-- A branch leaves the range and does not start the handler. -/
theorem not_starts_leaving :
  ¬ ∀ {e : Emitter} {effectOf : Opcode → MethodRef → Option CallEffect} {body : MethodBody}
    {session : Session} {limit : Nat} {m : RealizedMethod} {args : List Value}
    {typeArgs : List TypeRef} {resume : Resume} {states : List Activation} {a b : Activation}
    {index : Nat} {r : Region},
    e.Built → (e.sealBodyWith effectOf).1 = .ok body →
    Run session limit (.enter m body args typeArgs resume) states a →
    body.regions[index]? = some r → r.kind = .finalizing → r.protects a.frame.ip →
    Step session limit a b → ¬ r.protects b.frame.ip → Starts index r a b
  := by
  intro hclaim
  obtain ⟨e, hbuilt, hsealed⟩ := skippingBody_built
  obtain ⟨⟨states, hrun⟩, hstep⟩ := skipping_branches
  have hr : skippingBody.regions[0]? = some skippingRegion := rfl
  have hstarts := hclaim hbuilt hsealed hrun hr rfl rfl hstep (by decide)
  obtain ⟨k, older, hpending, -⟩ := hstarts.recorded
  cases hpending

theorem skipping_leaves :
  (∃ states, Run default 8 (.enter default skippingBody [.i32 0] [] .dropResult) states
      ⟨skippingFrame 0 2 [] [], .ready⟩)
    ∧ Step default 8 ⟨skippingFrame 0 2 [] [], .ready⟩
      ⟨skippingFrame 0 3 [] [.leave 0 4 []], .ready⟩
  := by
  constructor
  · exact ⟨_, .next ⟨.firstLdarg, .none⟩ default rfl rfl rfl <|
      .next ⟨.branch .isTrue .short, .label ⟨1⟩⟩ default rfl rfl rfl .refl⟩
  · exact .execute (i := ⟨.leave .short, .label ⟨0⟩⟩) rfl
      (show Surroundings.execute ⟨default, 8⟩ default _ _ = _ from rfl) rfl

/-- The leave at the end of the range starts the handler. -/
theorem skipping_starts :
  Starts 0 skippingRegion ⟨skippingFrame 0 2 [] [], .ready⟩
    ⟨skippingFrame 0 3 [] [.leave 0 4 []], .ready⟩
  := by
  obtain ⟨e, hbuilt, hsealed⟩ := skippingBody_built
  obtain ⟨⟨states, hrun⟩, hstep⟩ := skipping_leaves
  have hleaves : LeavesFor ⟨skippingFrame 0 2 [] [], .ready⟩ 4 := ⟨rfl, .short, ⟨0⟩, rfl, rfl⟩
  have hr : skippingBody.regions[0]? = some skippingRegion := rfl
  have hcrosses := hrun.starts_unless_bypassed hbuilt hsealed hr rfl rfl
  exact (hcrosses.1 _ hstep (by decide)).mpr hleaves.not_bypasses

end Activation

end ManagedCode
