import ManagedCode.Emitter.Depth
import Mathlib.Algebra.BigOperators.Group.Finset.Basic
import Mathlib.Algebra.BigOperators.Fin
import Mathlib.Data.List.Indexes

/-!
# The depth analysis

The paths of control through a body start at its entries and go on to successors, and
`FlowGraph.Reaches` says at which depths they come to an instruction.  The analysis
looks at each instruction with the depth of one path only.  A `Survey` is its state, and
`FlowGraph.Visiting` what holds in every one: visits come from paths, and what a path
comes to is visited or waits to be.

`FlowGraph.Balanced` is what the analysis takes for granted: that the depth at an
instruction does not depend on the path.  For a balanced body its answer is right, as
`FlowGraph.maxDepth_bounds` states.
-/

namespace ManagedCode

namespace FlowControl

/-- Whether control may go on to the instruction that follows. -/
def continues : FlowControl → Bool
  | next | condBranch | switch => true
  | _ => false

/-- Whether control may go to the labels of the instruction. -/
def jumps : FlowControl → Bool
  | branch | condBranch | switch | leave => true
  | _ => false

/-- A branch may go to its labels. -/
theorem jumps_of_branch {flow : FlowControl}
    (h : flow = .branch ∨ flow = .condBranch ∨ flow = .switch) :
  flow.jumps = true
  := by
  obtain rfl | rfl | rfl := h <;> rfl

/-- A branch with a condition may go on to the instruction that follows. -/
theorem continues_of_branch {flow : FlowControl}
    (h : flow = .branch ∨ flow = .condBranch ∨ flow = .switch) (hcond : flow ≠ .branch) :
  flow.continues = true
  := by
  obtain rfl | rfl | rfl := h
  · exact absurd rfl hcond
  · rfl
  · rfl

end FlowControl

namespace FlowGraph

variable {g : FlowGraph}

/-- The successors of an instruction are the instruction that follows and the targets of its labels,
if control may go there. -/
theorem mem_successors_iff {ip next : Nat} {i : Instruction} :
  next ∈ g.successors ip i
    ↔ i.opcode.flow.continues = true ∧ next = ip + 1
      ∨ i.opcode.flow.jumps = true ∧ ∃ l ∈ i.operand.labels, g.target l = some next
  := by
  rw [successors, ← List.mem_filterMap]
  cases i.opcode.flow with
  | next => simp [FlowControl.continues, FlowControl.jumps]
  | branch | leave => simp [FlowControl.continues, FlowControl.jumps]
  | condBranch | switch => simp [FlowControl.continues, FlowControl.jumps]
  | ret | throw | endFinally => simp [FlowControl.continues, FlowControl.jumps]

/-- The depth after an instruction that finds enough values. -/
def after (g : FlowGraph) (depth : Nat) (i : Instruction) : Nat :=
  depth - (g.effect depth i).1 + (g.effect depth i).2

/-- A path comes to a position at a depth. -/
inductive Reaches (g : FlowGraph) : Nat → Nat → Prop
  | entry {ip depth : Nat} (hentry : (ip, depth) ∈ g.entries) : Reaches g ip depth
  | step {ip depth next : Nat} {i : Instruction} (hreaches : Reaches g ip depth)
      (hinstruction : g.instructions[ip]? = some i) (henough : (g.effect depth i).1 ≤ depth)
      (hnext : next ∈ g.successors ip i) : Reaches g next (g.after depth i)

/-- Control can come to a position, whatever the depth of the stack. -/
inductive Connected (g : FlowGraph) : Nat → Prop
  | entry {ip depth : Nat} (hentry : (ip, depth) ∈ g.entries) : Connected g ip
  | step {ip next : Nat} {i : Instruction} (hconnected : Connected g ip)
      (hinstruction : g.instructions[ip]? = some i) (hnext : next ∈ g.successors ip i) :
    Connected g next

theorem Reaches.connected {ip depth : Nat} (h : g.Reaches ip depth) : g.Connected ip := by
  induction h with
  | entry hentry => exact .entry hentry
  | step _ hinstruction _ hnext ih => exact .step ih hinstruction hnext

/-- The depth at an instruction does not depend on the path. -/
def Balanced (g : FlowGraph) : Prop :=
  ∀ {ip depth depth'}, ip < g.instructions.size →
    g.Reaches ip depth → g.Reaches ip depth' → depth = depth'

/-- Every path finds enough values at an instruction, and no more than `bound`. -/
structure Bounds (g : FlowGraph) (bound ip depth : Nat) (i : Instruction) : Prop where
  enough : (g.effect depth i).1 ≤ depth
  before : depth ≤ bound
  after : g.after depth i ≤ bound

/-! ## The analysis step by step -/

/-- The analysis on its way: the visits that are pending, the positions that have been visited, and
the greatest depth so far. -/
structure Survey where
  pending : List (Nat × Nat)
  seen : Array Bool
  deepest : Nat

/-- Nothing has been visited. -/
def start (g : FlowGraph) : Survey :=
  { pending := g.entries
    seen := Array.replicate g.instructions.size false
    deepest := 0 }

variable {s s' : Survey} {pending : List (Nat × Nat)} {seen : Array Bool} {deepest ip depth : Nat}
  {found : Nat → Option Nat} {i : Instruction}

/-- One pending visit is made, or there is nothing to visit. -/
inductive Step (g : FlowGraph) : Survey → Survey → Prop
  | visit {pending : List (Nat × Nat)} {seen : Array Bool} {deepest ip depth : Nat}
      {i : Instruction} (hinstruction : g.instructions[ip]? = some i)
      (hunseen : seen[ip]? = some false) (henough : (g.effect depth i).1 ≤ depth) :
    Step g ⟨(ip, depth) :: pending, seen, deepest⟩
      ⟨(g.successors ip i).reverse.map (·, g.after depth i) ++ pending, seen.setIfInBounds ip true,
        max deepest (max (g.after depth i) depth)⟩
  | skip {pending : List (Nat × Nat)} {seen : Array Bool} {deepest ip depth : Nat}
      (hother : ∀ i, g.instructions[ip]? = some i → seen[ip]? ≠ some false) :
    Step g ⟨(ip, depth) :: pending, seen, deepest⟩ ⟨pending, seen, deepest⟩

/-- How the analysis ends: with nothing pending, or at an instruction that finds too few values. -/
inductive Ends (g : FlowGraph) : Survey → Except Nat Survey → Prop
  | done {seen : Array Bool} {deepest : Nat} :
    Ends g ⟨[], seen, deepest⟩ (.ok ⟨[], seen, deepest⟩)
  | underflow {pending : List (Nat × Nat)} {seen : Array Bool} {deepest ip depth : Nat}
      {i : Instruction} (hinstruction : g.instructions[ip]? = some i)
      (hunseen : seen[ip]? = some false) (hshort : depth < (g.effect depth i).1) :
    Ends g ⟨(ip, depth) :: pending, seen, deepest⟩ (.error ip)
  | step {s s' : Survey} {answer : Except Nat Survey} (hstep : g.Step s s')
      (hends : Ends g s' answer) : Ends g s answer

theorem Step.unique {s₁ s₂ : Survey} (h₁ : g.Step s s₁) (h₂ : g.Step s s₂) : s₁ = s₂ := by
  cases h₁ with
  | visit hinstruction hunseen _ =>
      cases h₂ with
      | visit hinstruction' _ _ =>
          obtain rfl := Option.some.inj (hinstruction.symm.trans hinstruction')
          rfl
      | skip hother => exact absurd hunseen (hother _ hinstruction)
  | skip hother =>
      cases h₂ with
      | visit hinstruction hunseen _ => exact absurd hunseen (hother _ hinstruction)
      | skip _ => rfl

theorem Step.not_short
    (h : g.Step ⟨(ip, depth) :: pending, seen, deepest⟩ s')
    (hinstruction : g.instructions[ip]? = some i) (hunseen : seen[ip]? = some false) :
  ¬ depth < (g.effect depth i).1
  := by
  cases h with
  | visit hinstruction' _ henough =>
      obtain rfl := Option.some.inj (hinstruction.symm.trans hinstruction')
      exact Nat.not_lt.mpr henough
  | skip hother => exact absurd hunseen (hother _ hinstruction)

theorem Ends.unique {answer answer' : Except Nat Survey} (h : g.Ends s answer)
    (h' : g.Ends s answer') :
  answer = answer'
  := by
  induction h with
  | done =>
      cases h' with
      | done => rfl
      | step hstep _ => cases hstep
  | underflow hinstruction hunseen hshort =>
      cases h' with
      | underflow _ _ _ => rfl
      | step hstep _ => exact absurd hshort (hstep.not_short hinstruction hunseen)
  | step hstep _ ih =>
      cases h' with
      | done => cases hstep
      | underflow hinstruction hunseen hshort =>
          exact absurd hshort (hstep.not_short hinstruction hunseen)
      | step hstep' hends' =>
          obtain rfl := hstep.unique hstep'
          exact ih hends'

/-! ## The fuel of the analysis -/

/-- The number of ways out of the instruction at a position. -/
def ways (g : FlowGraph) (ip : Nat) : Nat :=
  match g.instructions[ip]? with
  | some i => (g.successors ip i).length
  | none => 0

/-- The positions that have not been visited. -/
def unseen (seen : Array Bool) : Finset Nat :=
  {ip ∈ Finset.range seen.size | seen[ip]? = some false}

theorem unseen_visit (hip : seen[ip]? = some false) :
  unseen (seen.setIfInBounds ip true) = (unseen seen).erase ip
  := by
  ext j
  rw [Finset.mem_erase, unseen, unseen, Finset.mem_filter, Finset.mem_filter,
    Array.size_setIfInBounds, Array.getElem?_setIfInBounds]
  by_cases hj : ip = j
  · subst hj
    have hlt : ip < seen.size := (Array.getElem?_eq_some_iff.mp hip).1
    simp [hlt]
  · simp only [hj, if_false]
    constructor
    · exact fun h => ⟨fun he => hj he.symm, h⟩
    · exact fun h => h.2

/-- A visit replaces one way out of the unseen instructions by the ways out of the
instruction visited. -/
theorem sum_ways_visit (hip : seen[ip]? = some false) :
  ∑ j ∈ unseen (seen.setIfInBounds ip true), g.ways j + g.ways ip = ∑ j ∈ unseen seen, g.ways j
  := by
  rw [unseen_visit hip]
  apply Finset.sum_erase_add
  rw [unseen, Finset.mem_filter, Finset.mem_range]
  exact ⟨(Array.getElem?_eq_some_iff.mp hip).1, hip⟩

/-- How many visits there may still be: those that are pending, and one for each way out of an
instruction that has not been visited. -/
def work (g : FlowGraph) (s : Survey) : Nat :=
  s.pending.length + ∑ j ∈ unseen s.seen, g.ways j

theorem work_start (g : FlowGraph) : g.work g.start = g.visits := by
  have hall : unseen (Array.replicate g.instructions.size false)
      = Finset.range g.instructions.size := by
    ext j
    rw [unseen, Finset.mem_filter, Array.size_replicate, Array.getElem?_replicate]
    simp
  have hsum : ((g.instructions.toList.mapIdx g.successors).flatten).length
      = ∑ j ∈ Finset.range g.instructions.size, g.ways j := by
    rw [List.length_flatten, List.mapIdx_eq_ofFn, List.map_ofFn, List.sum_ofFn, Finset.sum_range]
    apply Finset.sum_congr rfl
    intro j _
    rw [ways, Array.getElem?_eq_getElem j.isLt]
    rfl
  rw [work, start, visits, hall, hsum]

theorem Step.work_lt (h : g.Step s s') : g.work s' < g.work s := by
  cases h with
  | @visit pending seen deepest ip depth i hinstruction hunseen _ =>
      have hways := g.sum_ways_visit hunseen
      have hlength : g.ways ip = (g.successors ip i).length := by
        rw [ways, hinstruction]
      simp only [work, List.length_append, List.length_map, List.length_reverse, List.length_cons]
      omega
  | skip _ => simp only [work, List.length_cons, Nat.add_lt_add_iff_right, Nat.lt_succ_self]

/-- With enough fuel the analysis comes to an end.  Every step lowers the work that is left. -/
theorem explore_ends {fuel : Nat} (hfuel : g.work s ≤ fuel) :
  ∃ answer, g.Ends s answer
    ∧ g.explore fuel s.pending s.seen s.deepest = answer.map (·.deepest)
  := by
  induction fuel generalizing s with
  | zero =>
      obtain ⟨pending, seen, deepest⟩ := s
      have hnone : pending = [] := by
        apply List.length_eq_zero_iff.mp
        simp only [work] at hfuel
        omega
      subst hnone
      exact ⟨_, .done, rfl⟩
  | succ fuel ih =>
      obtain ⟨_ | ⟨⟨ip, depth⟩, pending⟩, seen, deepest⟩ := s
      · exact ⟨_, .done, rfl⟩
      · have hstep {s' : Survey} (hstep : g.Step ⟨(ip, depth) :: pending, seen, deepest⟩ s') :
            ∃ answer, g.Ends ⟨(ip, depth) :: pending, seen, deepest⟩ answer
              ∧ g.explore fuel s'.pending s'.seen s'.deepest = answer.map (·.deepest) := by
          obtain ⟨answer, hends, hexplore⟩ :=
            ih (Nat.le_of_lt_succ (Nat.lt_of_lt_of_le hstep.work_lt hfuel))
          exact ⟨answer, .step hstep hends, hexplore⟩
        dsimp only
        rw [explore]
        split
        · next i hinstruction hunseen =>
          dsimp only
          split
          · next hshort => exact ⟨_, .underflow hinstruction hunseen hshort, rfl⟩
          · next hshort => exact hstep (.visit hinstruction hunseen (Nat.le_of_not_lt hshort))
        · next hother => exact hstep (.skip hother)

/-- The analysis ends, and its fuel is enough for that. -/
theorem maxDepth_ends (g : FlowGraph) :
  ∃ answer, g.Ends g.start answer ∧ g.maxDepth = answer.map (·.deepest)
  := explore_ends (Nat.le_of_eq g.work_start)

/-! ## What the analysis visits -/

/-- The depths at which instructions have been visited so far. -/
structure Visiting (g : FlowGraph) (s : Survey) (found : Nat → Option Nat) : Prop where
  pending_reaches : ∀ p ∈ s.pending, g.Reaches p.1 p.2
  reaches : ∀ ip depth, found ip = some depth → g.Reaches ip depth
  bounds : ∀ ip depth i, found ip = some depth → g.instructions[ip]? = some i →
    g.Bounds s.deepest ip depth i
  attained : s.deepest = 0 ∨ ∃ ip depth i, g.Reaches ip depth ∧ g.instructions[ip]? = some i
    ∧ (g.effect depth i).1 ≤ depth ∧ (s.deepest = depth ∨ s.deepest = g.after depth i)
  entered : ∀ p ∈ g.entries, p.1 < g.instructions.size →
    (found p.1).isSome ∨ ∃ q ∈ s.pending, q.1 = p.1
  closed : ∀ ip depth i next, found ip = some depth → g.instructions[ip]? = some i →
    next ∈ g.successors ip i → next < g.instructions.size →
    (found next).isSome ∨ ∃ p ∈ s.pending, p.1 = next
  size : s.seen.size = g.instructions.size
  seen : ∀ ip, s.seen[ip]? = some true ↔ (found ip).isSome

theorem visiting_start (g : FlowGraph) : g.Visiting g.start fun _ => none := by
  constructor
  · exact fun p hp => .entry hp
  · rintro ip depth ⟨⟩
  · rintro ip depth i ⟨⟩
  · exact .inl rfl
  · exact fun p hp _ => .inr ⟨p, hp, rfl⟩
  · rintro ip depth i next ⟨⟩
  · exact Array.size_replicate
  · intro ip
    rw [start, Array.getElem?_replicate]
    split <;> simp

theorem Bounds.mono {bound bound' : Nat} (hbounds : g.Bounds bound ip depth i)
    (hle : bound ≤ bound') :
  g.Bounds bound' ip depth i
  := ⟨hbounds.enough, Nat.le_trans hbounds.before hle, Nat.le_trans hbounds.after hle⟩

/-- Visiting an instruction for the first time.  What has been visited or is pending is so
afterwards, and the successors are pending as well. -/
theorem Visiting.visit
    (hvisiting : g.Visiting ⟨(ip, depth) :: pending, seen, deepest⟩ found)
    (hinstruction : g.instructions[ip]? = some i) (henough : (g.effect depth i).1 ≤ depth) :
  g.Visiting
    ⟨(g.successors ip i).reverse.map (·, g.after depth i) ++ pending, seen.setIfInBounds ip true,
      max deepest (max (g.after depth i) depth)⟩
    (Function.update found ip (some depth))
  := by
  have hhere := hvisiting.pending_reaches (ip, depth) List.mem_cons_self
  have hcovered {j : Nat} (hj : (found j).isSome ∨ ∃ p ∈ (ip, depth) :: pending, p.1 = j) :
      (Function.update found ip (some depth) j).isSome
        ∨ ∃ p ∈ (g.successors ip i).reverse.map (·, g.after depth i) ++ pending, p.1 = j := by
    by_cases hjip : j = ip
    · left
      rw [hjip, Function.update_self]
      rfl
    · rw [Function.update_of_ne hjip]
      rcases hj with hfound | ⟨p, hp, rfl⟩
      · exact .inl hfound
      · rcases List.mem_cons.mp hp with rfl | hp
        · exact absurd rfl hjip
        · exact .inr ⟨p, List.mem_append_right _ hp, rfl⟩
  constructor
  · intro p hp
    rcases List.mem_append.mp hp with hp | hp
    · obtain ⟨next, hnext, rfl⟩ := List.mem_map.mp hp
      exact .step hhere hinstruction henough (List.mem_reverse.mp hnext)
    · apply hvisiting.pending_reaches p (List.mem_cons_of_mem _ hp)
  · intro j d hj
    by_cases hjip : j = ip
    · subst hjip
      rw [Function.update_self] at hj
      obtain rfl := Option.some.inj hj
      exact hhere
    · rw [Function.update_of_ne hjip] at hj
      apply hvisiting.reaches j d hj
  · intro j d i' hj hi'
    by_cases hjip : j = ip
    · subst hjip
      rw [Function.update_self] at hj
      obtain rfl := Option.some.inj hj
      obtain rfl := Option.some.inj (hinstruction.symm.trans hi')
      exact ⟨henough, by dsimp only; omega, by dsimp only; omega⟩
    · rw [Function.update_of_ne hjip] at hj
      apply (hvisiting.bounds j d i' hj hi').mono (Nat.le_max_left _ _)
  · have hattained := hvisiting.attained
    dsimp only at hattained ⊢
    rcases max_choice deepest (max (g.after depth i) depth) with hmax | hmax
    · rw [hmax]
      exact hattained
    · rw [hmax]
      right
      refine ⟨ip, depth, i, hhere, hinstruction, henough, ?_⟩
      exact (max_choice (g.after depth i) depth).symm
  · exact fun p hp hlt => hcovered (hvisiting.entered p hp hlt)
  · intro j d i' next hj hi' hnext hlt
    by_cases hjip : j = ip
    · subst hjip
      obtain rfl := Option.some.inj (hinstruction.symm.trans hi')
      right
      refine ⟨(next, g.after depth i), List.mem_append_left _ ?_, rfl⟩
      apply List.mem_map.mpr ⟨next, List.mem_reverse.mpr hnext, rfl⟩
    · rw [Function.update_of_ne hjip] at hj
      exact hcovered (hvisiting.closed j d i' next hj hi' hnext hlt)
  · exact Array.size_setIfInBounds.trans hvisiting.size
  · intro j
    by_cases hjip : j = ip
    · have hlt : ip < seen.size := by
        rw [hvisiting.size]
        exact (Array.getElem?_eq_some_iff.mp hinstruction).1
      rw [hjip, Function.update_self, Array.getElem?_setIfInBounds_self_of_lt hlt]
      simp
    · rw [Function.update_of_ne hjip, ← hvisiting.seen,
        Array.getElem?_setIfInBounds, if_neg (Ne.symm hjip)]

/-- A position that has been visited, or has no instruction, needs no visit. -/
theorem Visiting.skip
    (hvisiting : g.Visiting ⟨(ip, depth) :: pending, seen, deepest⟩ found)
    (hother : ∀ i, g.instructions[ip]? = some i → seen[ip]? ≠ some false) :
  g.Visiting ⟨pending, seen, deepest⟩ found
  := by
  have hdone (hlt : ip < g.instructions.size) : (found ip).isSome := by
    have hlt' : ip < seen.size := by
      rw [hvisiting.size]
      exact hlt
    have hmark := hother _ (Array.getElem?_eq_getElem hlt)
    rw [← hvisiting.seen]
    dsimp only
    rw [Array.getElem?_eq_getElem hlt'] at hmark ⊢
    cases hvalue : seen[ip] with
    | true => rfl
    | false =>
        rw [hvalue] at hmark
        apply absurd rfl hmark
  have hcovered {j : Nat} (hlt : j < g.instructions.size)
      (hj : (found j).isSome ∨ ∃ p ∈ (ip, depth) :: pending, p.1 = j) :
      (found j).isSome ∨ ∃ p ∈ pending, p.1 = j := by
    rcases hj with hfound | ⟨p, hp, rfl⟩
    · exact .inl hfound
    · rcases List.mem_cons.mp hp with rfl | hp
      · exact .inl (hdone hlt)
      · exact .inr ⟨p, hp, rfl⟩
  exact
    { hvisiting with
      pending_reaches := fun p hp => hvisiting.pending_reaches p (List.mem_cons_of_mem _ hp)
      entered := fun p hp hlt => hcovered hlt (hvisiting.entered p hp hlt)
      closed := fun j d i next hj hi hnext hlt =>
        hcovered hlt (hvisiting.closed j d i next hj hi hnext hlt) }

theorem Visiting.step (hvisiting : g.Visiting s found) (hstep : g.Step s s') :
  ∃ found', g.Visiting s' found'
  := by
  cases hstep with
  | visit hinstruction _ henough => exact ⟨_, hvisiting.visit hinstruction henough⟩
  | skip hother => exact ⟨found, hvisiting.skip hother⟩

/-- When nothing is pending, everything that control can come to has been visited. -/
theorem Visiting.isSome_of_connected (hvisiting : g.Visiting s found) (hdone : s.pending = [])
    (hconnected : g.Connected ip) (hlt : ip < g.instructions.size) :
  (found ip).isSome
  := by
  have hnone {j : Nat} : ¬ ∃ p ∈ s.pending, p.1 = j := by
    rw [hdone]
    rintro ⟨p, ⟨⟩, -⟩
  induction hconnected with
  | entry hentry => exact (hvisiting.entered _ hentry hlt).resolve_right hnone
  | @step ip next i _ hinstruction hnext ih =>
      obtain ⟨d, hd⟩ := Option.isSome_iff_exists.mp
        (ih (Array.getElem?_eq_some_iff.mp hinstruction).1)
      exact (hvisiting.closed ip d i next hd hinstruction hnext hlt).resolve_right hnone

/-- An analysis that finds no fault ends with no visit pending. -/
theorem Ends.visiting (h : g.Ends s (.ok s')) (hvisiting : g.Visiting s found) :
  s'.pending = [] ∧ ∃ found', g.Visiting s' found'
  := by
  generalize hanswer : Except.ok s' = answer at h
  induction h generalizing found with
  | done =>
      cases hanswer
      exact ⟨rfl, found, hvisiting⟩
  | underflow => cases hanswer
  | step hstep _ ih =>
      obtain ⟨found', hvisiting'⟩ := hvisiting.step hstep
      exact ih hvisiting' hanswer

/-- A path comes to the fault that the analysis finds. -/
theorem Ends.reaches (h : g.Ends s (.error ip)) (hvisiting : g.Visiting s found) :
  ∃ depth i, g.Reaches ip depth ∧ g.instructions[ip]? = some i ∧ depth < (g.effect depth i).1
  := by
  generalize hanswer : Except.error ip = answer at h
  induction h generalizing found with
  | done => cases hanswer
  | @underflow pending seen deepest ip depth i hinstruction _ hshort =>
      cases hanswer
      exact ⟨depth, i, hvisiting.pending_reaches (ip, depth) List.mem_cons_self, hinstruction,
        hshort⟩
  | step hstep _ ih =>
      obtain ⟨found', hvisiting'⟩ := hvisiting.step hstep
      exact ih hvisiting' hanswer

/-- If the depth at an instruction does not depend on the path, every path finds enough
values at every instruction and never more than the analysis says. -/
theorem maxDepth_bounds {bound : Nat}
    (hok : g.maxDepth = .ok bound) (hbalanced : g.Balanced) (hreaches : g.Reaches ip depth)
    (hinstruction : g.instructions[ip]? = some i) :
  g.Bounds bound ip depth i
  := by
  obtain ⟨s, hends, rfl⟩ : ∃ s, g.Ends g.start (.ok s) ∧ s.deepest = bound := by
    obtain ⟨answer, hends, hanswer⟩ := g.maxDepth_ends
    rw [hok] at hanswer
    cases answer with
    | error ip => cases hanswer
    | ok s => exact ⟨s, hends, (Except.ok.inj hanswer).symm⟩
  obtain ⟨hdone, found, hvisiting⟩ := hends.visiting g.visiting_start
  have hip := (Array.getElem?_eq_some_iff.mp hinstruction).1
  obtain ⟨d, hd⟩ := Option.isSome_iff_exists.mp
    (hvisiting.isSome_of_connected hdone hreaches.connected hip)
  obtain rfl := hbalanced hip hreaches (hvisiting.reaches ip d hd)
  apply hvisiting.bounds ip depth i hd hinstruction

/-- A body is balanced if the depths can be written beside its instructions. -/
theorem balanced_of_depths (depths : Nat → Nat)
    (hentries : ∀ p ∈ g.entries, p.2 = depths p.1)
    (hsteps : ∀ ip (hip : ip < g.instructions.size), ∀ next ∈ g.successors ip g.instructions[ip],
      g.after (depths ip) g.instructions[ip] = depths next) :
  g.Balanced
  := by
  have hdepth {ip depth : Nat} (hreaches : g.Reaches ip depth) : depth = depths ip := by
    induction hreaches with
    | entry hentry => apply hentries _ hentry
    | step _ hinstruction _ hnext ih =>
        obtain ⟨hip, rfl⟩ := Array.getElem?_eq_some_iff.mp hinstruction
        rw [ih]
        apply hsteps _ hip _ hnext
  intro ip depth depth' _ hdepth₁ hdepth₂
  rw [hdepth hdepth₁, hdepth hdepth₂]

end FlowGraph

end ManagedCode
