import ManagedCode.Proofs.Machine.HandlerStay

/-!
# Crossing protected ranges

Where control goes from an instruction in the range of a finally region.  Of two regions
that protect an instruction, the later one protects the handler of the earlier one as
well (`MethodBody.Arranged.encloses_of_protects`).  So the finally handlers on the way to
a target, and the handlers that are tried for an exception, are met from the inside to
the outside.
-/

namespace ManagedCode

/-! ## Regions around an instruction -/

/-- A region protects the range and the handler of another one. -/
def Region.Encloses (s r : Region) : Prop :=
  s.tryStart ≤ r.tryStart ∧ r.handlerEnd ≤ s.tryEnd

namespace MethodBody.Arranged

variable {body : MethodBody} {blocks : List Block} {i j ip : Nat} {r s : Region}

/-- The handlers of the regions end one after the other. -/
theorem handlerEnd_lt
    (h : body.Arranged blocks) (hr : body.regions[i]? = some r) (hs : body.regions[j]? = some s)
    (hij : i < j) :
  r.handlerEnd < s.handlerEnd
  := by
  obtain ⟨hi, rfl⟩ := List.getElem?_eq_some_iff.mp hr
  obtain ⟨hj, rfl⟩ := List.getElem?_eq_some_iff.mp hs
  exact List.pairwise_iff_getElem.mp h.sorted i j hi hj hij

/-- A region precedes those with a greater number. -/
theorem precedes_of_index
    (h : body.Arranged blocks) (hr : body.regions[i]? = some r) (hs : body.regions[j]? = some s)
    (hij : i < j) :
  r.Precedes s
  := by
  obtain ⟨hi, rfl⟩ := List.getElem?_eq_some_iff.mp hr
  obtain ⟨hj, rfl⟩ := List.getElem?_eq_some_iff.mp hs
  exact List.pairwise_iff_getElem.mp h.pairwise_precedes i j hi hj hij

/-- Of two regions that protect an instruction, one of them a finally region, the later one
encloses the earlier one. -/
theorem encloses_of_protects
    (h : body.Arranged blocks) (hr : body.regions[i]? = some r) (hs : body.regions[j]? = some s)
    (hij : i < j) (hrip : r.protects ip) (hsip : s.protects ip)
    (hfinally : r.kind = .finalizing ∨ s.kind = .finalizing) :
  s.Encloses r
  := by
  have hrranges := h.ranges (List.mem_of_getElem? hr)
  have hsranges := h.ranges (List.mem_of_getElem? hs)
  rw [Region.protects_iff] at hrip hsip
  cases h.precedes_of_index hr hs hij with
  | sibling hrcatch hscatch _ _ _ => exact absurd hfinally (not_or.mpr ⟨hrcatch, hscatch⟩)
  | covered hstart hend => exact ⟨hstart, hend⟩
  | held hstart hend => omega
  | before hle => omega
  | between hstart hend => omega

end MethodBody.Arranged

theorem Region.Encloses.protects_handlerStart
    {r s : Region} (h : s.Encloses r) (hrange : r.tryStart < r.handlerStart)
    (hhandler : r.handlerStart < r.handlerEnd) :
  s.protects r.handlerStart
  := by
  obtain ⟨hstart, hend⟩ := h
  rw [Region.protects_iff]
  omega

/-! ## The way to a target -/

namespace Frame

variable {f g h : Frame} {ip target index : Nat} {r : Region}

theorem mem_finalliesBetween_iff :
  index ∈ f.finalliesBetween ip target
    ↔ ∃ r, f.body.regions[index]? = some r ∧ r.kind = .finalizing ∧ r.protects ip
      ∧ ¬ r.protects target
  := by
  rw [finalliesBetween, List.mem_filterMap]
  constructor
  · rintro ⟨⟨k, r⟩, hmem, hsome⟩
    obtain ⟨k', hk', hpair⟩ := List.mem_mapIdx.mp hmem
    cases hpair
    dsimp only at hsome
    split at hsome
    · next hcrossed =>
      cases hsome
      obtain ⟨hkind, hip, htarget⟩ := hcrossed
      exact ⟨_, List.getElem?_eq_getElem hk', hkind, hip, by simpa using htarget⟩
    · cases hsome
  · rintro ⟨r, hr, hkind, hip, htarget⟩
    obtain ⟨hlt, rfl⟩ := List.getElem?_eq_some_iff.mp hr
    refine ⟨(index, f.body.regions[index]), List.mem_mapIdx.mpr ⟨index, hlt, rfl⟩, ?_⟩
    exact if_pos ⟨hkind, hip, by simpa using htarget⟩

/-- The finally regions on the way to a target are in order. -/
theorem pairwise_finalliesBetween (f : Frame) (ip target : Nat) :
  (f.finalliesBetween ip target).Pairwise (· < ·)
  := by
  rw [finalliesBetween, List.pairwise_filterMap]
  have hpairs : (f.body.regions.mapIdx fun i r => (i, r)).Pairwise fun p q => p.1 < q.1 := by
    rw [List.pairwise_iff_getElem]
    intro i j hi hj hij
    simpa using hij
  apply hpairs.imp
  rintro ⟨i, r⟩ ⟨j, s⟩ hij i' hi' j' hj'
  dsimp only at hij hi' hj'
  split at hi'
  · split at hj'
    · cases hi'
      cases hj'
      exact hij
    · cases hj'
  · cases hi'

/-- On the way to a target, control stays in the range of a finally region until the region comes
next.  A next region around the range would protect the target as well, so it lies in the range. -/
theorem continueTo_protected
    {body : MethodBody} {blocks : List Block} (hbody : body.Arranged blocks) (hf : f.body = body)
    (hg : g.body = body) (hr : body.regions[index]? = some r) (hkind : r.kind = .finalizing)
    (hip : r.protects ip) {before rest : List Nat}
    (hway : f.finalliesBetween ip target = before ++ rest) (hbefore : index ∉ before)
    (hgoes : h = g.continueTo target rest) :
  (∃ later, rest = index :: later) ∨ r.protects h.ip
  := by
  have hmem : index ∈ before ++ rest ↔ ¬ r.protects target := by
    rw [← hway, mem_finalliesBetween_iff, hf]
    constructor
    · rintro ⟨s, hs, -, -, htarget⟩
      obtain rfl := Option.some.inj (hr.symm.trans hs)
      exact htarget
    · intro htarget
      exact ⟨r, hr, hkind, hip, htarget⟩
  rw [hgoes]
  cases rest with
  | nil =>
      right
      by_contra htarget
      rw [List.append_nil] at hmem
      exact hbefore (hmem.mpr htarget)
  | cons next later =>
      have hnext : next ∈ f.finalliesBetween ip target := by
        rw [hway]
        exact List.mem_append_right _ List.mem_cons_self
      obtain ⟨s, hs, hskind, hsip, hstarget⟩ := mem_finalliesBetween_iff.mp hnext
      rw [hf] at hs
      rcases Nat.lt_trichotomy next index with hlt | rfl | hgt
      · right
        have hencloses := hbody.encloses_of_protects hs hr hlt hsip hip (.inl hskind)
        obtain ⟨hrange, hafter, hhandler, -⟩ := hbody.ranges (List.mem_of_getElem? hs)
        rw [continueTo, enterFinally, hg, hs]
        exact hencloses.protects_handlerStart (Nat.lt_of_lt_of_le hrange hafter) hhandler
      · exact .inl ⟨later, rfl⟩
      · exfalso
        have hencloses := hbody.encloses_of_protects hr hs hgt hip hsip (.inl hkind)
        have hranges := hbody.ranges (List.mem_of_getElem? hr)
        have hnot : index ∉ before ++ next :: later := by
          rw [List.mem_append, List.mem_cons]
          have hsorted := f.pairwise_finalliesBetween ip target
          rw [hway, List.pairwise_append, List.pairwise_cons] at hsorted
          rintro (hmem | rfl | hlater)
          · exact hbefore hmem
          · exact Nat.lt_irrefl _ hgt
          · exact Nat.lt_asymm hgt (hsorted.2.1.1 index hlater)
        have htarget : r.protects target := by
          by_contra htarget
          exact hnot (hmem.mpr htarget)
        apply hstarget
        obtain ⟨hstart, hend⟩ := hencloses
        rw [Region.protects_iff] at htarget ⊢
        omega

end Frame

/-! ## The search for a handler -/

namespace Frame

variable {f g : Frame} {session : Session} {limit index : Nat} {exception : Value} {r : Region}

/-- A region takes an exception to its handler. -/
def Takes (session : Session) (f : Frame) (exception : Value) (r : Region) : Prop :=
  match r.kind with
  | .finalizing => True
  | .catching t => session.isInstance exception (f.resolve t) = true

theorem takes_of_finalizing (hkind : r.kind = .finalizing) : f.Takes session exception r := by
  rw [Takes, hkind]
  trivial

/-- A region is the first of those around an instruction that takes an exception. -/
structure FirstTaking (session : Session) (f : Frame) (exception : Value) (index : Nat)
    (r : Region) : Prop where
  region : f.body.regions[index]? = some r
  protects : r.protects f.ip
  takes : f.Takes session exception r
  first : ∀ j s, j < index → f.body.regions[j]? = some s → s.protects f.ip →
    ¬ f.Takes session exception s

/-- An exception enters the first of the given regions that protects the instruction and takes
it, unless the stack may hold no value. -/
theorem enterHandler_cases (session : Session) (limit : Nat) (f : Frame) (exception : Value)
    (regions : List Region) (index : Nat) :
  (enterHandler session limit f exception index regions = .ok none
    ∧ ∀ s ∈ regions, s.protects f.ip → ¬ f.Takes session exception s)
  ∨ ∃ k r, regions[k]? = some r ∧ r.protects f.ip ∧ f.Takes session exception r
    ∧ (∀ j s, j < k → regions[j]? = some s → s.protects f.ip → ¬ f.Takes session exception s)
    ∧ ((∃ g, enterHandler session limit f exception index regions = .ok (some g)
        ∧ f.Catches exception (index + k) r g)
      ∨ limit = 0 ∧ enterHandler session limit f exception index regions = .error .stackOverflow)
  := by
  induction regions generalizing index with
  | nil =>
      left
      exact ⟨rfl, by rintro s ⟨⟩⟩
  | cons r rest ih =>
      have hfirst : r.protects f.ip → f.Takes session exception r →
          (∃ g, enterHandler session limit f exception index (r :: rest) = .ok (some g)
            ∧ f.Catches exception index r g)
          ∨ limit = 0
            ∧ enterHandler session limit f exception index (r :: rest) = .error .stackOverflow := by
        intro hprotects htakes
        rw [enterHandler, if_pos hprotects]
        rw [Takes] at htakes
        cases hkind : r.kind with
        | finalizing => exact .inl ⟨_, rfl, .finalizing hkind⟩
        | catching t =>
            rw [hkind] at htakes
            dsimp only at htakes ⊢
            rw [if_pos htakes, push]
            by_cases hlimit : 0 < limit
            · rw [if_pos (by exact hlimit)]
              exact .inl ⟨_, rfl, .catching hkind⟩
            · rw [if_neg (by exact hlimit)]
              exact .inr ⟨Nat.eq_zero_of_not_pos hlimit, rfl⟩
      by_cases htaken : r.protects f.ip ∧ f.Takes session exception r
      · right
        refine ⟨0, r, rfl, htaken.1, htaken.2, ?_, hfirst htaken.1 htaken.2⟩
        intro j s hj
        cases Nat.not_lt_zero j hj
      · have hskip : enterHandler session limit f exception index (r :: rest)
            = enterHandler session limit f exception (index + 1) rest := by
          rw [enterHandler]
          by_cases hprotects : r.protects f.ip
          · rw [if_pos hprotects]
            have hnot : ¬ f.Takes session exception r := fun h => htaken ⟨hprotects, h⟩
            rw [Takes] at hnot
            cases hkind : r.kind with
            | finalizing =>
                rw [hkind] at hnot
                exact absurd trivial hnot
            | catching t =>
                rw [hkind] at hnot
                exact if_neg hnot
          · rw [if_neg hprotects]
        rw [hskip]
        have hhead : r.protects f.ip → ¬ f.Takes session exception r :=
          fun hprotects htakes => htaken ⟨hprotects, htakes⟩
        obtain ⟨hnone, hall⟩ | ⟨k, s, hs, hprotects, htakes, hbefore, hresult⟩ := ih (index + 1)
        · left
          exact ⟨hnone, List.forall_mem_cons.mpr ⟨hhead, hall⟩⟩
        · right
          refine ⟨k + 1, s, hs, hprotects, htakes, ?_, ?_⟩
          · intro j t hj ht
            cases j with
            | zero =>
                cases ht
                exact hhead
            | succ j => exact hbefore j t (Nat.lt_of_succ_lt_succ hj) ht
          · rw [Nat.add_assoc, Nat.add_comm 1] at hresult
            exact hresult

/-- Where an exception goes that is raised in a frame. -/
theorem raise_cases (session : Session) (limit : Nat) (f : Frame) (exception : Value) :
  (f.raise session limit exception = .ok none
    ∧ ∀ s ∈ f.body.regions, s.protects f.ip → ¬ f.Takes session exception s)
  ∨ ∃ index r, f.FirstTaking session exception index r
    ∧ ((∃ g, f.raise session limit exception = .ok (some g)
        ∧ f.abandonHandlers.Catches exception index r g)
      ∨ limit = 0 ∧ f.raise session limit exception = .error .stackOverflow)
  := by
  obtain hnone | ⟨k, r, hr, hprotects, htakes, hbefore, hresult⟩ :=
    enterHandler_cases session limit f.abandonHandlers exception f.body.regions 0
  · exact .inl hnone
  · rw [Nat.zero_add] at hresult
    exact .inr ⟨k, r, ⟨hr, hprotects, htakes, hbefore⟩, hresult⟩

end Frame

/-! ## The start of a finally handler -/

namespace Activation

variable {a b : Activation} {body : MethodBody} {blocks : List Block} {index : Nat} {r : Region}

/-- A step starts the handler of a region: it goes to the first instruction of the handler, and
what goes on after the handler has been recorded. -/
structure Starts (index : Nat) (r : Region) (a b : Activation) : Prop where
  ready : b.phase = .ready
  at_start : b.frame.ip = r.handlerStart
  recorded : ∃ k older, b.frame.pending = k :: older ∧ k.region = index
    ∧ ¬ b.frame.pending.Sublist a.frame.pending

theorem Starts.not_of_sublist (h : b.frame.pending.Sublist a.frame.pending) :
  ¬ Starts index r a b
  := by
  rintro ⟨-, -, k, older, -, -, hnot⟩
  exact hnot h

/-- Going on to a target starts the handler that comes first on the way. -/
theorem starts_of_continueTo
    {f : Frame} (hr : f.body.regions[index]? = some r) {target : Nat} {later : List Nat}
    (hready : b.phase = .ready) (hframe : b.frame = f.continueTo target (index :: later))
    (hnew : ¬ (.leave index target later :: f.pending).Sublist a.frame.pending) :
  Starts index r a b
  := by
  refine ⟨hready, ?_, .leave index target later, f.pending, ?_, rfl, ?_⟩
  · rw [hframe, Frame.continueTo, Frame.enterFinally, hr]
    rfl
  · rw [hframe]
    rfl
  · rw [hframe]
    exact hnew

/-- A continuation of the region stands for more than the handlers that an exception has left. -/
theorem not_sublist_of_abandoned
    {f : Frame} {k : AfterFinally} (hbody : body.Arranged blocks) (hf : f.body = body)
    (hr : body.regions[index]? = some r) (hip : r.protects f.ip) (hk : k.region = index) :
  ¬ (k :: f.abandonHandlers.pending).Sublist f.pending
  := by
  intro hsub
  have hkept : ((f.body.regions[k.region]?).any (!·.inHandler f.ip)) = true := by
    rw [hk, hf, hr, Option.any_some]
    have hranges := hbody.ranges (List.mem_of_getElem? hr)
    have hnot : r.inHandler f.ip = false := by
      rw [Region.protects_iff] at hip
      rw [← Bool.not_eq_true, Region.inHandler_iff]
      omega
    rw [hnot]
    rfl
  have hfiltered := hsub.filter fun c => (f.body.regions[c.region]?).any (!·.inHandler f.ip)
  rw [List.filter_cons] at hfiltered
  have hlength := hfiltered.length_le
  simp only [hkept, if_true, Frame.abandonHandlers, List.filter_filter, Bool.and_self,
    List.length_cons] at hlength
  exact Nat.not_succ_le_self _ hlength

end Activation

end ManagedCode
