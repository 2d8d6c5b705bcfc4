import ManagedCode.Proofs.Emitter.Blocks

/-!
# The handlers of a body are nested

The regions of a built body are recorded when their handlers end.  So of two regions,
the one that is recorded first lies in the range or in the handler of the other one, or
ends before the handler of the other one starts (`Region.Precedes`), and every handler
comes after the range that it protects.
-/

namespace ManagedCode

namespace Region

/-- The handler of a region is a proper part of another one, after its start. -/
def Inside (r outer : Region) : Prop :=
  outer.handlerStart < r.handlerStart ∧ r.handlerEnd ≤ outer.handlerEnd

/-- The handler holds an instruction and comes after the range. -/
structure Proper (r : Region) : Prop where
  after_range : r.tryEnd ≤ r.handlerStart
  nonempty : r.handlerStart < r.handlerEnd

/-- Each handler ends before a later one starts, or is inside of it. -/
def Nested (regions : List Region) : Prop :=
  regions.Pairwise fun r later => r.handlerEnd ≤ later.handlerStart ∨ r.Inside later

theorem inHandler_iff {r : Region} {ip : Nat} :
  r.inHandler ip = true ↔ r.handlerStart ≤ ip ∧ ip < r.handlerEnd
  := decide_eq_true_iff

theorem protects_iff {r : Region} {ip : Nat} :
  r.protects ip = true ↔ r.tryStart ≤ ip ∧ ip < r.tryEnd
  := decide_eq_true_iff

/-- The range that a region protects is outside of its handler. -/
theorem Proper.not_inHandler {r : Region} {ip : Nat} (hr : r.Proper) (hprotects : r.protects ip) :
  ¬ r.inHandler ip
  := by
  rw [protects_iff] at hprotects
  rw [inHandler_iff]
  have := hr.after_range
  omega

/-- Two handlers that share an instruction are one, or one is inside the other. -/
theorem Nested.cases {regions : List Region} (hnested : Nested regions) {j k : Nat}
    {r s : Region} {ip : Nat} (hr : regions[j]? = some r) (hs : regions[k]? = some s)
    (hrip : r.inHandler ip) (hsip : s.inHandler ip) :
  j = k ∨ r.Inside s ∨ s.Inside r
  := by
  obtain ⟨hj, rfl⟩ := List.getElem?_eq_some_iff.mp hr
  obtain ⟨hk, rfl⟩ := List.getElem?_eq_some_iff.mp hs
  rw [inHandler_iff] at hrip hsip
  rcases Nat.lt_trichotomy j k with hlt | heq | hlt
  · rcases List.pairwise_iff_getElem.mp hnested j k hj hk hlt with hends | hinside
    · omega
    · exact .inr (.inl hinside)
  · exact .inl heq
  · rcases List.pairwise_iff_getElem.mp hnested k j hk hj hlt with hends | hinside
    · omega
    · exact .inr (.inr hinside)

end Region

/-- How a region lies to one that is recorded after it. -/
inductive Region.Precedes (r s : Region) : Prop
  /-- Both are catch handlers of one block. -/
  | sibling (hr : r.kind ≠ .finalizing) (hs : s.kind ≠ .finalizing)
      (hstart : s.tryStart = r.tryStart) (hend : s.tryEnd = r.tryEnd)
      (hafter : r.handlerEnd ≤ s.handlerStart)
  /-- The other one protects the range and the handler of the first. -/
  | covered (hstart : s.tryStart ≤ r.tryStart) (hend : r.handlerEnd ≤ s.tryEnd)
  /-- The handler of the other one holds the range and the handler of the first. -/
  | held (hstart : s.handlerStart ≤ r.tryStart) (hend : r.handlerEnd ≤ s.handlerEnd)
  /-- The first ends before the other one starts. -/
  | before (h : r.handlerEnd ≤ s.tryStart)
  /-- The first lies in a handler between the range and the handler of the other one. -/
  | between (hstart : s.tryEnd ≤ r.tryStart) (hend : r.handlerEnd ≤ s.handlerStart)

namespace MethodBody.Arranged

variable {body : MethodBody} {blocks : List Block} {b c : Block} {r s : Region}

/-- Each range of a region holds an instruction, and the handler comes behind the range that it
protects. -/
theorem ranges (h : body.Arranged blocks) (hr : r ∈ body.regions) :
  r.tryStart < r.tryEnd ∧ r.tryEnd ≤ r.handlerStart ∧ r.handlerStart < r.handlerEnd
  ∧ r.handlerEnd ≤ body.instructions.size
  := by
  obtain ⟨b, hb, hrb⟩ := h.exists_block hr
  obtain ⟨hproper, hstop⟩ := h.proper b hb
  have hrange := hproper.range
  obtain ⟨hstart, -, hafter, hnonempty, hended⟩ := hproper.belongs hrb
  have hend := (hproper.belongs hrb).tryEnd_cases
  omega

/-- Two handlers of one block. -/
theorem precedes_of_same
    (h : body.Arranged blocks) (hb : b ∈ blocks) (hr : r ∈ b.regions) (hs : s ∈ b.regions)
    (hlt : r.handlerEnd < s.handlerEnd) :
  r.Precedes s
  := by
  have hproper := (h.proper b hb).1
  have hrange := hproper.range
  obtain ⟨hrstart, -, hrafter, hrnonempty, hrended⟩ := hproper.belongs hr
  obtain ⟨hsstart, -, hsafter, hsnonempty, hsended⟩ := hproper.belongs hs
  have hrend := (hproper.belongs hr).tryEnd_cases
  have hsend := (hproper.belongs hs).tryEnd_cases
  obtain rfl | ⟨hrcatch, hle⟩ | ⟨-, hle⟩ := hproper.order hr hs
  · omega
  · obtain ⟨hscatch, hsend⟩ | ⟨hfinally, hsend⟩ := hsend
    · apply Region.Precedes.sibling hrcatch hscatch (hsstart.trans hrstart.symm) _ hle
      rw [hsend, (hrend.resolve_right fun h => hrcatch h.1).2]
    · apply Region.Precedes.covered <;> omega
  · omega

/-- A handler of a block within another one, and a handler of that one. -/
theorem precedes_of_within
    (h : body.Arranged blocks) (hb : b ∈ blocks) (hc : c ∈ blocks) (hr : r ∈ b.regions)
    (hs : s ∈ c.regions) (hlt : r.handlerEnd < s.handlerEnd) (hwithin : b.Within c) :
  r.Precedes s
  := by
  have hrange := (h.proper c hc).1.range
  obtain ⟨hrstart, -, hrafter, hrnonempty, hrended⟩ := (h.proper b hb).1.belongs hr
  obtain ⟨hsstart, -, hsafter, hsnonempty, hsended⟩ := (h.proper c hc).1.belongs hs
  have hsend := ((h.proper c hc).1.belongs hs).tryEnd_cases
  obtain ⟨hfirst, hlast⟩ | ⟨t, ht, hfirst, hlast⟩ := hwithin
  · apply Region.Precedes.covered <;> omega
  · have htafter := ((h.proper c hc).1.belongs ht).after
    have hbrange := (h.proper b hb).1.range
    obtain rfl | ⟨-, hle⟩ | ⟨-, hle⟩ := (h.proper c hc).1.order ht hs
    · apply Region.Precedes.held <;> omega
    · obtain ⟨-, hsend⟩ | ⟨-, hsend⟩ := hsend
      · apply Region.Precedes.between <;> omega
      · apply Region.Precedes.covered <;> omega
    · omega

/-- A handler of a block around another one, and a handler of that one. -/
theorem precedes_of_around
    (h : body.Arranged blocks) (hb : b ∈ blocks) (hc : c ∈ blocks) (hr : r ∈ b.regions)
    (hs : s ∈ c.regions) (hlt : r.handlerEnd < s.handlerEnd) (hwithin : c.Within b) :
  r.Precedes s
  := by
  obtain ⟨hrstart, -, hrafter, hrnonempty, hrended⟩ := (h.proper b hb).1.belongs hr
  obtain ⟨hsstart, -, hsafter, hsnonempty, hsended⟩ := (h.proper c hc).1.belongs hs
  obtain ⟨hfirst, hlast⟩ | ⟨t, ht, hfirst, hlast⟩ := hwithin
  · omega
  · obtain rfl | ⟨-, hle⟩ | ⟨-, hle⟩ := (h.proper b hb).1.order hr ht
    · omega
    · apply Region.Precedes.before
      omega
    · omega

/-- How two regions lie to each other. -/
theorem precedes_of_lt
    (h : body.Arranged blocks) (hr : r ∈ body.regions) (hs : s ∈ body.regions)
    (hlt : r.handlerEnd < s.handlerEnd) :
  r.Precedes s
  := by
  obtain ⟨b, hb, hrb⟩ := h.exists_block hr
  obtain ⟨c, hc, hsc⟩ := h.exists_block hs
  obtain rfl | (hbefore | hwithin) | (hbefore | hwithin) := h.placed_cases hb hc
  · apply h.precedes_of_same hb hrb hsc hlt
  · have hrended := ((h.proper b hb).1.belongs hrb).ended
    have hsstart := ((h.proper c hc).1.belongs hsc).tryStart_eq
    apply Region.Precedes.before
    rw [Block.Before] at hbefore
    omega
  · apply h.precedes_of_within hb hc hrb hsc hlt hwithin
  · obtain ⟨hrstart, -, hrafter, hrnonempty, -⟩ := (h.proper b hb).1.belongs hrb
    have hsended := ((h.proper c hc).1.belongs hsc).ended
    have hbrange := (h.proper b hb).1.range
    rw [Block.Before] at hbefore
    omega
  · apply h.precedes_of_around hb hc hrb hsc hlt hwithin

/-- A region precedes all that are recorded after it. -/
theorem pairwise_precedes (h : body.Arranged blocks) :
  body.regions.Pairwise Region.Precedes
  := by
  apply h.sorted.imp_of_mem
  intro r s hr hs hlt
  apply h.precedes_of_lt hr hs hlt

end MethodBody.Arranged

/-- The handlers of a body are nested, and hold instructions of the body. -/
structure MethodBody.WellNested (body : MethodBody) : Prop where
  proper : ∀ r ∈ body.regions, r.Proper
  ended : ∀ r ∈ body.regions, r.handlerEnd ≤ body.instructions.size
  nested : Region.Nested body.regions

theorem MethodBody.Arranged.wellNested
    {body : MethodBody} {blocks : List Block} (h : body.Arranged blocks) :
  body.WellNested
  := by
  constructor
  · intro r hr
    obtain ⟨-, hafter, hnonempty, -⟩ := h.ranges hr
    exact ⟨hafter, hnonempty⟩
  · intro r hr
    exact (h.ranges hr).2.2.2
  · apply h.pairwise_precedes.imp_of_mem
    intro r s hr hs hprecedes
    obtain ⟨hrange, hafter, -, -⟩ := h.ranges hr
    obtain ⟨hsrange, hsafter, -, -⟩ := h.ranges hs
    cases hprecedes with
    | sibling _ _ _ _ hle => exact .inl hle
    | covered hstart hend => exact .inl (Nat.le_trans hend hsafter)
    | held hstart hend => exact .inr ⟨by omega, hend⟩
    | before hle => exact .inl (by omega)
    | between hstart hend => exact .inl hend

theorem Emitter.Built.wellNested
    {e : Emitter} {effectOf : Opcode → MethodRef → Option CallEffect} {body : MethodBody}
    (hbuilt : e.Built) (hok : (e.sealBodyWith effectOf).1 = .ok body) :
  body.WellNested
  := by
  obtain ⟨blocks, harranged⟩ := hbuilt.arranged hok
  exact harranged.wellNested

end ManagedCode
