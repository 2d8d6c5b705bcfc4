import ManagedCode.Proofs.Emitter.Depth
import ManagedCode.Proofs.Emitter.Nesting
import ManagedCode.Proofs.Machine.Endings

/-!
# The evaluation stack of a running frame

The frames of a sealed body follow the paths of control that the depth analysis has
looked at: when a frame is ready for an instruction, some path comes to the instruction
at the depth of the stack.  `Activation.OnPath` says so for each phase of a frame, and is
kept by its steps if calls have the effects that the analysis was given.  Where the depth
at an instruction does not depend on the path, no instruction of a frame then finds too
few values, and the stack never holds more than the body says.

The analysis follows no way that a branch cannot take: every successor of a branch is where
some values send a frame (`FlowGraph.mem_successors_iff_exists`).
-/

namespace ManagedCode

/-- How many values a call of a method leaves. -/
def RealizedMethod.results (m : RealizedMethod) : Nat :=
  if m.returnType = .void then 0 else 1

/-- How many values a frame gets when it goes on. -/
def Resume.pushes : Resume → Nat
  | pushResult => 1
  | dropResult => 0
  | pushObject _ => 1
  | perform (.load _ _) => 1
  | perform (.store _ _ _) => 0
  | perform (.call m _ _) => m.results
  | perform (.construct _ _ _ _) => 1

theorem Surroundings.resumeFor_pushes (m : RealizedMethod) : (resumeFor m).pushes = m.results := by
  rw [resumeFor, RealizedMethod.results]
  split <;> rfl

/-- The methods that a call of a method by an instruction may run. -/
def Session.MayRun (s : Session) (op : Opcode) (m target : RealizedMethod) : Prop :=
  if op = .callvirt ∧ m.isStatic = false then ∃ receiver, s.dispatch receiver m = .ok target
  else target = m

/-- The effect of a call that an analysis is given. -/
def FlowGraph.callEffect (g : FlowGraph) (i : Instruction) : CallEffect :=
  (i.operand.method?.bind (g.effectOf i.opcode)).getD .unknown

/-- An analysis is given what the calls of a body take and leave when they run. -/
structure FlowGraph.Faithful (g : FlowGraph) (s : Session) (body : MethodBody) : Prop where
  pops : ∀ {i : Instruction} {handle typeArgs m}, i ∈ body.instructions → i.opcode.isCall →
    i.methodRef = .ok (handle, typeArgs) → s.methodAt handle = .ok m →
    (g.callEffect i).pops = m.taken i.opcode
  pushes : ∀ {i : Instruction} {handle typeArgs m target}, i ∈ body.instructions → i.opcode.isCall →
    i.methodRef = .ok (handle, typeArgs) → s.methodAt handle = .ok m →
    s.MayRun i.opcode m target →
    (g.callEffect i).pushes = if i.opcode = .newobj then 1 else target.results

/-- A flow graph of a body in which no path finds too few values, or more than the body
says. -/
structure FlowGraph.Sound (g : FlowGraph) (body : MethodBody) : Prop where
  instructions : g.instructions = body.instructions
  regions : g.regions = body.regions
  target : ∀ {ip : Nat} {i : Instruction} {l : Label}, body.instructions[ip]? = some i →
    l ∈ i.operand.labels → g.target l = body.target? l
  bounds : ∀ {ip depth : Nat} {i : Instruction}, g.Reaches ip depth →
    body.instructions[ip]? = some i → g.Bounds body.maxStack ip depth i
  handlers : ∀ r ∈ body.regions, r.handlerStart < body.instructions.size

theorem Emitter.Built.sound
    {e : Emitter} {effectOf : Opcode → MethodRef → Option CallEffect} {body : MethodBody}
    (hbuilt : e.Built) (hsealed : (e.sealBodyWith effectOf).1 = .ok body)
    (hbalanced : (e.relax.graph effectOf).Balanced) :
  (e.relax.graph effectOf).Sound body
  := by
  have hnested := hbuilt.wellNested hsealed
  obtain ⟨-, -, maxStack, hdepth, hbody⟩ := sealBodyWith_ok hsealed
  constructor
  · rw [hbody]
    rfl
  · rw [hbody]
    rfl
  · exact sealed_target hsealed
  · intro ip depth i hreaches hinstruction
    rw [hbody] at hinstruction ⊢
    apply FlowGraph.maxDepth_bounds hdepth hbalanced hreaches hinstruction
  · intro r hr
    apply Nat.lt_of_lt_of_le (hnested.proper r hr).nonempty (hnested.ended r hr)

namespace FlowGraph.Sound

variable {g : FlowGraph} {body : MethodBody} {ip depth j : Nat} {s : Region}

theorem reaches_finalizing
    (hg : g.Sound body) (hs : body.regions[j]? = some s) (hkind : s.kind = .finalizing) :
  g.Reaches s.handlerStart 0
  := by
  apply Reaches.entry
  rw [entries, hg.regions]
  apply List.mem_append_left
  rw [List.mem_reverse]
  apply List.mem_map.mpr ⟨s, List.mem_of_getElem? hs, by rw [hkind]⟩

theorem reaches_catching {t : TypeRef}
    (hg : g.Sound body) (hs : body.regions[j]? = some s) (hkind : s.kind = .catching t) :
  g.Reaches s.handlerStart 1
  := by
  apply Reaches.entry
  rw [entries, hg.regions]
  apply List.mem_append_left
  rw [List.mem_reverse]
  apply List.mem_map.mpr ⟨s, List.mem_of_getElem? hs, by rw [hkind]⟩

theorem reaches_start : g.Reaches 0 0 := by
  apply Reaches.entry
  rw [entries]
  apply List.mem_append_right _ (List.mem_singleton_self _)

/-- A path is never deeper than the body says, also where there is no instruction. -/
theorem le_maxStack (hg : g.Sound body) (hreaches : g.Reaches ip depth) :
  depth ≤ body.maxStack
  := by
  cases hreaches with
  | entry hentry =>
      have hreaches := Reaches.entry hentry
      rw [entries, hg.regions] at hentry
      rcases List.mem_append.mp hentry with hhandler | hstart
      · obtain ⟨r, hr, hpair⟩ := List.mem_map.mp (List.mem_reverse.mp hhandler)
        have hip : ip < body.instructions.size := by
          have hstart := hg.handlers r hr
          have hfst := congrArg Prod.fst hpair
          dsimp only at hfst
          omega
        exact (hg.bounds hreaches (Array.getElem?_eq_getElem hip)).before
      · cases List.mem_singleton.mp hstart
        apply Nat.zero_le _
  | step hreaches hinstruction _ _ =>
      rw [hg.instructions] at hinstruction
      exact (hg.bounds hreaches hinstruction).after

end FlowGraph.Sound

/-! ## Branches along edges -/

/-- Two integers compare as one likes, with or without their signs. -/
theorem Arithmetic.exists_order (op : String) (unsigned : Bool) (o : Ordering) :
  ∃ a b, order op unsigned a b = .ok (some o)
  := by
  cases o with
  | lt => exact ⟨.i32 0, .i32 1, by cases unsigned <;> rfl⟩
  | eq => exact ⟨.i32 0, .i32 0, by cases unsigned <;> rfl⟩
  | gt => exact ⟨.i32 1, .i32 0, by cases unsigned <;> rfl⟩

/-- No inequality holds in all orders, and each holds in some. -/
theorem Inequality.exists_holds (r : Inequality) (taken : Bool) : ∃ o, r.holds o = taken := by
  cases r <;> cases taken
  case ge.false | gt.false => exact ⟨.lt, rfl⟩
  case le.false | lt.false => exact ⟨.gt, rfl⟩
  case ge.true | gt.true => exact ⟨.gt, rfl⟩
  case le.true | lt.true => exact ⟨.lt, rfl⟩

/-- Every condition holds of some values and does not hold of others. -/
theorem Condition.exists_eval (c : Condition) (op : String) (taken : Bool) :
  ∃ a b, c.eval op a b = .ok taken
  := by
  cases c with
  | equal =>
      cases taken
      · exact ⟨.i32 0, .i32 1, rfl⟩
      · exact ⟨.i32 0, .i32 0, rfl⟩
  | notEqual =>
      cases taken
      · exact ⟨.i32 0, .i32 0, rfl⟩
      · exact ⟨.i32 0, .i32 1, rfl⟩
  | ordered r =>
      obtain ⟨o, rfl⟩ := r.exists_holds taken
      obtain ⟨a, b, horder⟩ := Arithmetic.exists_order op false o
      exact ⟨a, b, by rw [eval, horder]; rfl⟩
  | unordered r =>
      obtain ⟨o, rfl⟩ := r.exists_holds taken
      obtain ⟨a, b, horder⟩ := Arithmetic.exists_order op true o
      exact ⟨a, b, by rw [eval, horder]; rfl⟩

namespace Surroundings

/-- A test comes out either way on some values, unless it is no test. -/
theorem exists_testBranch (f : Frame) (test : BranchTest) (op : String) (taken : Bool)
    (htaken : test = .always → taken = true) :
  ∃ values, testBranch { f with stack := values ++ f.stack } test op = .ok (taken, f)
  := by
  cases test with
  | always =>
      rw [htaken rfl]
      exact ⟨[], rfl⟩
  | isTrue => exact ⟨[.bool taken], rfl⟩
  | isFalse =>
      refine ⟨[.bool !taken], ?_⟩
      conv_rhs => rw [← Bool.not_not taken]
      rfl
  | compare c =>
      obtain ⟨a, b, heval⟩ := c.exists_eval op taken
      refine ⟨[b, a], ?_⟩
      change (do return (← c.eval op a b, f)) = _
      rw [heval]
      rfl

end Surroundings

/-- A branch with what it needs: a label, or labels that an index on the stack can select from. -/
inductive Instruction.Branches : Instruction → Prop
  | test (t : BranchTest) (w : Width) (l : Label) : Branches ⟨.branch t w, .label l⟩
  | select {labels : List Label} (hlength : labels.length < 2 ^ 32) :
      Branches ⟨.switch, .switch labels⟩

/-- Control may go from a branch to its labels. -/
theorem Instruction.Branches.flow {i : Instruction} (h : i.Branches) :
  i.opcode.flow = .branch ∨ i.opcode.flow = .condBranch ∨ i.opcode.flow = .switch
  := by
  cases h with
  | test t w l => cases t <;> simp [Opcode.flow]
  | select _ => exact .inr (.inr rfl)

namespace Surroundings

variable {f : Frame} {next : Nat}

/-- A test sends a frame on, or to its label. -/
theorem exists_execute_test
    (s : Surroundings) (heap : Heap) {t : BranchTest} {l : Label} (w : Width)
    (hnext : t ≠ .always ∧ next = f.ip + 1 ∨ f.body.target? l = some next) :
  ∃ values, s.execute heap { f with stack := values ++ f.stack } ⟨.branch t w, .label l⟩
    = .ok (.proceed { f with ip := next }, heap)
  := by
  obtain ⟨hcond, rfl⟩ | htarget := hnext
  · obtain ⟨values, htest⟩ :=
      exists_testBranch f t (Opcode.branch t w).mnemonic false fun h => absurd h hcond
    refine ⟨values, ?_⟩
    rw [execute]
    dsimp only
    rw [branch]
    simp only [Instruction.label, bind, Except.bind, htest]
    rfl
  · obtain ⟨values, htest⟩ :=
      exists_testBranch f t (Opcode.branch t w).mnemonic true fun _ => rfl
    refine ⟨values, ?_⟩
    rw [execute]
    dsimp only
    rw [branch]
    simp only [Instruction.label, bind, Except.bind, htest]
    simp only [Frame.target, htarget]
    rfl

/-- A selection sends a frame on, or to one of its labels. -/
theorem exists_execute_switch
    (s : Surroundings) (heap : Heap) {labels : List Label} (hlength : labels.length < 2 ^ 32)
    (hnext : next = f.ip + 1 ∨ ∃ l ∈ labels, f.body.target? l = some next) :
  ∃ values, s.execute heap { f with stack := values ++ f.stack } ⟨.switch, .switch labels⟩
    = .ok (.proceed { f with ip := next }, heap)
  := by
  have hindex : ∀ k ≤ labels.length, (Int32.ofNat k).toUInt32.toNat = k := by
    intro k hk
    exact UInt32.toNat_ofNat_of_lt' (Nat.lt_of_le_of_lt hk hlength)
  obtain ⟨k, hk, hgoes⟩ : ∃ k ≤ labels.length, labels[k]? = none ∧ next = f.ip + 1
      ∨ ∃ l, labels[k]? = some l ∧ f.body.target? l = some next := by
    obtain rfl | ⟨l, hl, htarget⟩ := hnext
    · exact ⟨labels.length, Nat.le_refl _, .inl ⟨List.getElem?_eq_none (Nat.le_refl _), rfl⟩⟩
    · obtain ⟨k, hk, rfl⟩ := List.getElem_of_mem hl
      exact ⟨k, Nat.le_of_lt hk, .inr ⟨labels[k], List.getElem?_eq_getElem hk, htarget⟩⟩
  refine ⟨[.i32 (Int32.ofNat k)], ?_⟩
  rw [execute]
  dsimp only
  rw [switch]
  simp only [Frame.pop, List.cons_append, List.nil_append, bind, Except.bind, Value.asI32?,
    hindex k hk]
  obtain ⟨hlabel, rfl⟩ | ⟨l, hlabel, htarget⟩ := hgoes
  · rw [hlabel]
    rfl
  · rw [hlabel]
    simp only [Frame.target, htarget]
    rfl

end Surroundings

/-- The successors of a branch are where a frame may go that executes it. -/
theorem FlowGraph.mem_successors_iff_exists
    {g : FlowGraph} {i : Instruction} (hbranches : i.Branches) (s : Surroundings) (heap : Heap)
    (f : Frame) (htarget : ∀ l ∈ i.operand.labels, f.body.target? l = g.target l) {next : Nat} :
  next ∈ g.successors f.ip i
    ↔ ∃ values, s.execute heap { f with stack := values ++ f.stack } i
        = .ok (.proceed { f with ip := next }, heap)
  := by
  rw [mem_successors_iff]
  constructor
  · intro hnext
    cases hbranches with
    | test t w l =>
        apply Surroundings.exists_execute_test
        obtain ⟨hcontinues, rfl⟩ | ⟨-, l', hl', hnext⟩ := hnext
        · left
          refine ⟨?_, rfl⟩
          rintro rfl
          cases hcontinues
        · right
          rw [← htarget l' hl'] at hnext
          rwa [List.mem_singleton.mp hl'] at hnext
    | select hlength =>
        apply Surroundings.exists_execute_switch s heap hlength
        obtain ⟨-, hnext⟩ | ⟨-, l, hl, hnext⟩ := hnext
        · exact .inl hnext
        · exact .inr ⟨l, hl, (htarget l hl).trans hnext⟩
  · rintro ⟨values, hexecute⟩
    have hflow := hbranches.flow
    generalize hrequest : Request.proceed { f with ip := next } = request at hexecute
    have houtcome := Surroundings.execute_outcome hexecute
    cases houtcome with
    | next hnext _ _ _ => simp [hnext] at hflow
    | branch _ _ _ hip =>
        cases hrequest
        obtain ⟨l, hl, hnext⟩ | ⟨hcond, hnext⟩ := hip
        · exact .inr ⟨FlowControl.jumps_of_branch hflow, l, hl, (htarget l hl).symm.trans hnext⟩
        · exact .inl ⟨FlowControl.continues_of_branch hflow hcond, hnext⟩
    | leave hop _ _ | endLeave hop _ => simp [hop, Opcode.flow] at hflow
    | _ => cases hrequest

/-- In a body that has been checked, the successors of a branch are where its frames may go. -/
theorem FlowGraph.Sound.mem_successors_iff
    {g : FlowGraph} {body : MethodBody} (hg : g.Sound body) {f : Frame} (hbody : f.body = body)
    {i : Instruction} (hinstruction : body.instructions[f.ip]? = some i) (hbranches : i.Branches)
    (s : Surroundings) (heap : Heap) {next : Nat} :
  next ∈ g.successors f.ip i
    ↔ ∃ values, s.execute heap { f with stack := values ++ f.stack } i
        = .ok (.proceed { f with ip := next }, heap)
  := by
  apply g.mem_successors_iff_exists hbranches s heap f
  intro l hl
  rw [hbody]
  exact (hg.target hinstruction hl).symm

/-! ## Frames on a path -/

/-- What goes on after a finally handler finds an empty stack at the target of a leave,
and finally handlers on the way. -/
def AfterFinally.OnPath (g : FlowGraph) (body : MethodBody) : AfterFinally → Prop
  | leave _ target remaining =>
    g.Reaches target 0
      ∧ ∀ j ∈ remaining, ∃ s, body.regions[j]? = some s ∧ s.kind = .finalizing
  | unwind _ _ => True

/-- A frame that is ready is on a path at the depth of its stack.  One that waits has
taken the values of its instruction, and gets those that the instruction leaves. -/
def Phase.OnPath (g : FlowGraph) (body : MethodBody) (f : Frame) : Phase → Prop
  | ready => g.Reaches f.ip f.stack.length
  | waiting resume => ∃ depth i, g.Reaches f.ip depth ∧ body.instructions[f.ip]? = some i
    ∧ i.opcode.flow = .next ∧ f.stack.length = depth - (g.effect depth i).1
    ∧ (g.effect depth i).2 = resume.pushes
  | raising _ => f.stack.length ≤ body.maxStack

namespace Activation

structure OnPath (g : FlowGraph) (body : MethodBody) (a : Activation) : Prop where
  pending : ∀ k ∈ a.frame.pending, k.OnPath g body
  phase : a.phase.OnPath g body a.frame

variable {g : FlowGraph} {body : MethodBody} {f h : Frame} {i : Instruction}

theorem OnPath.length_le {a : Activation} (hg : g.Sound body) (ha : a.OnPath g body) :
  a.frame.stack.length ≤ body.maxStack
  := by
  obtain ⟨f, phase⟩ := a
  cases phase with
  | ready => apply hg.le_maxStack ha.phase
  | waiting resume =>
      obtain ⟨depth, i, hreaches, -, -, hlength, -⟩ := ha.phase
      have := hg.le_maxStack hreaches
      dsimp only at hlength ⊢
      omega
  | raising exception => exact ha.phase

/-- Going on to a target, through the finally handlers on the way. -/
theorem onPath_continueTo
    (hg : g.Sound body) (hbody : f.body = body) (hstack : f.stack = [])
    (hpending : ∀ k ∈ f.pending, k.OnPath g body) {region target : Nat} {remaining : List Nat}
    (htarget : (AfterFinally.leave region target remaining).OnPath g body) :
  OnPath g body ⟨f.continueTo target remaining, .ready⟩
  := by
  obtain ⟨hreaches, hremaining⟩ := htarget
  cases remaining with
  | nil =>
      refine ⟨hpending, ?_⟩
      show g.Reaches target f.stack.length
      rw [hstack]
      exact hreaches
  | cons j rest =>
      obtain ⟨hj, hrest⟩ := List.forall_mem_cons.mp hremaining
      obtain ⟨s, hs, hkind⟩ := hj
      constructor
      · exact List.forall_mem_cons.mpr ⟨⟨hreaches, hrest⟩, hpending⟩
      · show g.Reaches (((f.body.regions[j]?).map (·.handlerStart)).getD target) f.stack.length
        rw [hbody, hs, hstack]
        apply hg.reaches_finalizing hs hkind

/-- The effect that the analysis assumes of an instruction with a fixed effect. -/
theorem effect_fixed {depth pops pushes : Nat}
    (heffect : i.opcode.stackEffect = .fixed pops pushes) :
  g.effect depth i = (pops, pushes)
  := by
  rw [FlowGraph.effect, heffect]

theorem effect_call {depth : Nat} (hcall : i.opcode.isCall) :
  g.effect depth i = ((g.callEffect i).pops, (g.callEffect i).pushes)
  := by
  have heffect : i.opcode.stackEffect = .call := by
    revert hcall
    cases i.opcode <;> intro hcall <;> first | rfl | cases hcall
  rw [FlowGraph.effect, heffect]
  rfl

/-- Going on to a successor with the values that the instruction leaves. -/
theorem onPath_step {depth : Nat}
    (hg : g.Sound body) (hreaches : g.Reaches f.ip depth)
    (hinstruction : body.instructions[f.ip]? = some i) (hnext : h.ip ∈ g.successors f.ip i)
    (hlength : h.stack.length = g.after depth i) (hpending : ∀ k ∈ h.pending, k.OnPath g body) :
  OnPath g body ⟨h, .ready⟩
  := by
  refine ⟨hpending, ?_⟩
  show g.Reaches h.ip h.stack.length
  rw [hlength]
  have henough := (hg.bounds hreaches hinstruction).enough
  rw [← hg.instructions] at hinstruction
  exact .step hreaches hinstruction henough hnext

theorem mem_successors_next (hflow : i.opcode.flow = .next) (ip : Nat) :
  ip + 1 ∈ g.successors ip i
  := by
  rw [FlowGraph.mem_successors_iff, hflow]
  exact .inl ⟨rfl, rfl⟩

/-- A frame that waits gets what its instruction leaves and goes on. -/
theorem OnPath.resume {resume : Resume}
    (hg : g.Sound body) (ha : OnPath g body ⟨f, .waiting resume⟩)
    (hrewrites : f.Rewrites 0 resume.pushes h) (hip : h.ip = f.ip + 1) :
  OnPath g body ⟨h, .ready⟩
  := by
  obtain ⟨depth, i, hreaches, hinstruction, hflow, hlength, hpushes⟩ := ha.phase
  dsimp only at hreaches hinstruction hlength
  apply onPath_step hg hreaches hinstruction
  · rw [hip]
    apply mem_successors_next hflow f.ip
  · rw [hrewrites.length, FlowGraph.after, hpushes, hlength]
    omega
  · rw [hrewrites.pending]
    exact ha.pending

/-- An instruction that makes its frame wait. -/
theorem OnPath.wait {pops : Nat} {resume : Resume}
    (ha : OnPath g body ⟨f, .ready⟩) (hinstruction : body.instructions[f.ip]? = some i)
    (hflow : i.opcode.flow = .next)
    (heffect : g.effect f.stack.length i = (pops, resume.pushes))
    (hrewrites : f.Rewrites pops 0 h) (hip : h.ip = f.ip) :
  OnPath g body ⟨h, .waiting resume⟩
  := by
  constructor
  · rw [hrewrites.pending]
    exact ha.pending
  · refine ⟨f.stack.length, i, ?_⟩
    dsimp only
    rw [hip, heffect, hrewrites.length]
    exact ⟨ha.phase, hinstruction, hflow, rfl, rfl⟩

theorem OnPath.branch {pops : Nat}
    (hg : g.Sound body) (ha : OnPath g body ⟨f, .ready⟩) (hbody : f.body = body)
    (hinstruction : body.instructions[f.ip]? = some i)
    (hflow : i.opcode.flow = .branch ∨ i.opcode.flow = .condBranch ∨ i.opcode.flow = .switch)
    (heffect : i.opcode.stackEffect = .fixed pops 0) (hrewrites : f.Rewrites pops 0 h)
    (hip : (∃ l ∈ i.operand.labels, f.body.target? l = some h.ip)
      ∨ i.opcode.flow ≠ .branch ∧ h.ip = f.ip + 1) :
  OnPath g body ⟨h, .ready⟩
  := by
  apply onPath_step hg ha.phase hinstruction
  · rw [FlowGraph.mem_successors_iff]
    rcases hip with ⟨l, hl, ht⟩ | ⟨hcond, hnext⟩
    · rw [hbody] at ht
      exact .inr ⟨FlowControl.jumps_of_branch hflow, l, hl, (hg.target hinstruction hl).trans ht⟩
    · exact .inl ⟨FlowControl.continues_of_branch hflow hcond, hnext⟩
  · rw [hrewrites.length, FlowGraph.after]
    dsimp only
    rw [effect_fixed heffect]
  · rw [hrewrites.pending]
    exact ha.pending

theorem OnPath.leave {w : Width} {l : Label} {target : Nat}
    (hg : g.Sound body) (ha : OnPath g body ⟨f, .ready⟩) (hbody : f.body = body)
    (hinstruction : body.instructions[f.ip]? = some i) (hop : i.opcode = .leave w)
    (hlabel : i.operand = .label l) (htarget : f.body.target? l = some target) :
  OnPath g body ⟨f.leave target, .ready⟩
  := by
  have hl : l ∈ i.operand.labels := by
    rw [hlabel]
    apply List.mem_singleton_self l
  rw [hbody] at htarget
  have heffect : g.effect f.stack.length i = (f.stack.length, 0) := by
    rw [FlowGraph.effect, hop]
    rfl
  have hsuccessor : target ∈ g.successors f.ip i := by
    rw [FlowGraph.mem_successors_iff, hop]
    exact .inr ⟨rfl, l, hl, (hg.target hinstruction hl).trans htarget⟩
  have hreaches : g.Reaches target 0 := by
    rw [← hg.instructions] at hinstruction
    have hstep := FlowGraph.Reaches.step ha.phase hinstruction
      (by dsimp only; rw [heffect]) hsuccessor
    rw [FlowGraph.after] at hstep
    dsimp only at hstep
    rw [heffect, Nat.sub_self] at hstep
    exact hstep
  have hfinallies : ∀ j ∈ f.finalliesBetween f.ip target,
      ∃ s, body.regions[j]? = some s ∧ s.kind = .finalizing := by
    intro j hj
    obtain ⟨s, hs, hkind, -⟩ := Frame.mem_finalliesBetween hj
    rw [hbody] at hs
    exact ⟨s, hs, hkind⟩
  let left : Frame :=
    { f with
      stack := []
      handling := f.handling.filter fun entry => f.keepsHandling target entry.1 }
  have hafter : (AfterFinally.leave 0 target (f.finalliesBetween f.ip target)).OnPath g body :=
    ⟨hreaches, hfinallies⟩
  apply onPath_continueTo (f := left) hg hbody rfl ha.pending hafter

theorem OnPath.handled {session : Session} {limit : Nat} {exception : Value}
    (hg : g.Sound body) (ha : OnPath g body ⟨f, .raising exception⟩) (hbody : f.body = body)
    (hraise : f.raise session limit exception = .ok (some h)) :
  OnPath g body ⟨h, .ready⟩
  := by
  obtain ⟨index, r, hr, -, hcatches⟩ := Frame.raise_ok hraise
  rw [hbody] at hr
  have hpending : ∀ k ∈ f.abandonHandlers.pending, k.OnPath g body := by
    intro k hk
    apply ha.pending k (List.mem_filter.mp hk).1
  cases hcatches with
  | finalizing hkind =>
      constructor
      · apply List.forall_mem_cons.mpr ⟨trivial, hpending⟩
      · apply hg.reaches_finalizing hr hkind
  | catching hkind =>
      exact ⟨hpending, hg.reaches_catching hr hkind⟩

/-- Calls have the effects that the analysis was given. -/
theorem effect_of_call {session : Session} {limit depth : Nat} {handle : MethodRef}
    {typeArgs : List TypeRef} {m target : RealizedMethod} {ip : Nat}
    (hfaithful : g.Faithful session body) (hinstruction : body.instructions[ip]? = some i)
    (hcall : i.opcode.isCall)
    (hnames : Surroundings.Names ⟨session, limit⟩ i handle typeArgs m)
    (hruns : session.MayRun i.opcode m target) :
  g.effect depth i = (m.taken i.opcode, if i.opcode = .newobj then 1 else target.results)
  := by
  have hmem := Array.mem_of_getElem? hinstruction
  rw [effect_call hcall, hfaithful.pops hmem hcall hnames.1 hnames.2,
    hfaithful.pushes hmem hcall hnames.1 hnames.2 hruns]

theorem OnPath.execute {session : Session} {limit : Nat} {request : Request} {b : Activation}
    (hg : g.Sound body) (hfaithful : g.Faithful session body)
    (ha : OnPath g body ⟨f, .ready⟩) (hbody : f.body = body)
    (hinstruction : body.instructions[f.ip]? = some i)
    (houtcome : Surroundings.Outcome ⟨session, limit⟩ f i request)
    (hafter : request.after = some b) :
  OnPath g body b
  := by
  cases houtcome with
  | next hflow heffect hrewrites hip =>
      obtain rfl := Option.some.inj hafter
      apply onPath_step hg ha.phase hinstruction
      · rw [hip]
        apply mem_successors_next hflow f.ip
      · rw [hrewrites.length, FlowGraph.after]
        dsimp only
        rw [effect_fixed heffect]
      · rw [hrewrites.pending]
        exact ha.pending
  | branch hflow heffect hrewrites hip =>
      obtain rfl := Option.some.inj hafter
      apply ha.branch hg hbody hinstruction hflow heffect hrewrites hip
  | leave hop hlabel htarget =>
      obtain rfl := Option.some.inj hafter
      apply ha.leave hg hbody hinstruction hop hlabel htarget
  | @endLeave region target remaining pending hop hpending =>
      obtain rfl := Option.some.inj hafter
      have hall := ha.pending
      rw [hpending] at hall
      obtain ⟨hfirst, hrest⟩ := List.forall_mem_cons.mp hall
      apply onPath_continueTo (f := { f with stack := [], pending := pending }) hg hbody rfl hrest
        hfirst
  | endUnwind hop hpending =>
      obtain rfl := Option.some.inj hafter
      have hall := ha.pending
      rw [hpending] at hall
      exact ⟨(List.forall_mem_cons.mp hall).2, Nat.zero_le _⟩
  | throw hop hrewrites hip htop =>
      obtain rfl := Option.some.inj hafter
      constructor
      · rw [hrewrites.pending]
        exact ha.pending
      · have hle := ha.length_le hg
        have hlength := hrewrites.length
        show _ ≤ _
        dsimp only at hle hlength ⊢
        omega
  | rethrow hop hhandled =>
      obtain rfl := Option.some.inj hafter
      have hle := ha.length_le hg
      exact ⟨ha.pending, hle⟩
  | finish _ _ => cases hafter
  | @invoke h handle typeArgs m target args hop hnames hstatic hrewrites hip hargs htarget =>
      obtain rfl := Option.some.inj hafter
      have hruns : session.MayRun i.opcode m target := by
        rw [Session.MayRun]
        rcases htarget with ⟨hcall, rfl⟩ | ⟨hcallvirt, hdispatch⟩
        · rw [if_neg (by rw [hcall]; simp)]
        · rw [if_pos ⟨hcallvirt, hstatic⟩]
          exact hdispatch
      apply ha.wait hinstruction _ _ hrewrites hip
      · rcases hop with hop | hop <;> rw [hop] <;> rfl
      · rw [effect_of_call hfaithful hinstruction (by rcases hop with hop | hop <;> rw [hop] <;> rfl)
          hnames hruns, Surroundings.resumeFor_pushes,
          if_neg (by rcases hop with hop | hop <;> rw [hop] <;> exact Opcode.noConfusion)]
  | @callStatic h handle typeArgs m args hop hnames hstatic hrewrites hip hargs =>
      obtain rfl := Option.some.inj hafter
      have hruns : session.MayRun i.opcode m m := by
        rw [Session.MayRun, if_neg (by rw [hstatic]; simp)]
      apply ha.wait hinstruction _ _ hrewrites hip
      · rcases hop with hop | hop <;> rw [hop] <;> rfl
      · rw [effect_of_call hfaithful hinstruction (by rcases hop with hop | hop <;> rw [hop] <;> rfl)
          hnames hruns,
          if_neg (by rcases hop with hop | hop <;> rw [hop] <;> exact Opcode.noConfusion)]
        rfl
  | @construct h handle typeArgs m t args hop hnames htype hinstantiable hrewrites hip hargs =>
      obtain rfl := Option.some.inj hafter
      have hruns : session.MayRun i.opcode m m := by
        rw [Session.MayRun, if_neg (by rw [hop]; simp)]
      apply ha.wait hinstruction (by rw [hop]; rfl) _ hrewrites hip
      rw [effect_of_call hfaithful hinstruction (by rw [hop]; rfl) hnames hruns, if_pos hop]
      rfl
  | loadStatic hop =>
      obtain rfl := Option.some.inj hafter
      apply ha.wait hinstruction (by rw [hop]; rfl) _ f.rewrites_refl rfl
      apply effect_fixed (by rw [hop]; rfl)
  | storeStatic hop hrewrites hip htop =>
      obtain rfl := Option.some.inj hafter
      apply ha.wait hinstruction (by rw [hop]; rfl) _ hrewrites hip
      apply effect_fixed (by rw [hop]; rfl)

theorem OnPath.step {session : Session} {limit : Nat} {a b : Activation}
    (hg : g.Sound body) (hfaithful : g.Faithful session body) (ha : a.OnPath g body)
    (hbody : a.frame.body = body) (hstep : Step session limit a b) :
  b.OnPath g body
  := by
  cases hstep with
  | execute hinstruction hexecute hafter =>
      dsimp only at hbody
      rw [hbody] at hinstruction
      apply ha.execute hg hfaithful hbody hinstruction (Surroundings.execute_outcome hexecute)
        hafter
  | passed =>
      have hle := ha.length_le hg
      exact ⟨ha.pending, hle⟩
  | handled hraise => apply ha.handled hg hbody hraise
  | result hpush | object hpush | loaded hpush =>
      obtain ⟨hrewrites, hip⟩ := Frame.push_ok hpush
      apply ha.resume hg (hrewrites.trans_same (Frame.rewrites_advance _)) (congrArg (· + 1) hip)
  | dropped | stored => apply ha.resume hg (Frame.rewrites_advance _) rfl
  | @called f m args typeArgs =>
      obtain ⟨depth, i, hreaches, hinstruction, hflow, hlength, hpushes⟩ := ha.phase
      have hresults := Surroundings.resumeFor_pushes m
      exact ⟨ha.pending, depth, i, hreaches, hinstruction, hflow, hlength,
        hpushes.trans hresults.symm⟩
  | constructed =>
      obtain ⟨depth, i, hreaches, hinstruction, hflow, hlength, hpushes⟩ := ha.phase
      exact ⟨ha.pending, depth, i, hreaches, hinstruction, hflow, hlength, hpushes⟩

theorem onPath_invariant {session : Session} (hg : g.Sound body)
    (hfaithful : g.Faithful session body) (limit : Nat) :
  Invariant session limit fun a => a.frame.body = body → a.OnPath g body
  := by
  constructor
  · rintro m body' args typeArgs resume - rfl
    exact ⟨by rintro k ⟨⟩, FlowGraph.Sound.reaches_start⟩
  · intro a b ha hstep hbody
    rw [hstep.sameCall.body] at hbody
    apply (ha hbody).step hg hfaithful hbody hstep

/-- An instruction of a frame on a path finds the values that it takes. -/
theorem OnPath.not_short {session : Session} {limit : Nat}
    (hg : g.Sound body) (hfaithful : g.Faithful session body) (ha : OnPath g body ⟨f, .ready⟩)
    (hinstruction : body.instructions[f.ip]? = some i)
    (hreturns : f.method.returnType ≠ .void → g.returnsValue = true) :
  ¬ Surroundings.Short ⟨session, limit⟩ f i
  := by
  have henough := (hg.bounds ha.phase hinstruction).enough
  have hmem := Array.mem_of_getElem? hinstruction
  intro hshort
  rw [Surroundings.Short] at hshort
  rw [FlowGraph.effect] at henough
  cases heffect : i.opcode.stackEffect with
  | fixed pops pushes =>
      rw [heffect] at hshort henough
      dsimp only at hshort henough
      omega
  | call =>
      rw [heffect] at hshort henough
      obtain ⟨handle, typeArgs, m, hnames, hlt⟩ := hshort
      have hcall : i.opcode.isCall := by
        revert heffect
        cases i.opcode <;> intro heffect <;> first | rfl | cases heffect
      have hpops : (g.callEffect i).pops = m.taken i.opcode :=
        hfaithful.pops hmem hcall hnames.1 hnames.2
      have henough : (g.callEffect i).pops ≤ f.stack.length := henough
      omega
  | ret =>
      rw [heffect] at hshort henough
      obtain ⟨hvalue, hlt⟩ := hshort
      rw [hreturns hvalue] at henough
      simp only [if_true] at henough
      omega
  | clear =>
      rw [heffect] at hshort
      exact hshort

end Activation

/-! ## Where a lack of values comes from -/

/-- The program has not ended in a lack of values. -/
def Status.HasValues : Status → Prop
  | .finished _ _ (.error .stackUnderflow) => False
  | _ => True

theorem Status.Ends.hasValues {status : Status} (hends : status.Ends (· ≠ .stackUnderflow)) :
  status.HasValues
  := by
  unfold HasValues
  split
  · exact hends rfl
  · trivial

namespace Execution

variable {session : Session} {e : Execution} {f : Frame} {callers : List Frame}

/-- A program lacks values only if its innermost frame is short of what its instruction
takes. -/
theorem step_hasValues
    (hframes : e.frames = f :: callers)
    (hshort : ∀ i limit, f.body.instructions[f.ip]? = some i →
      ¬ Surroundings.Short ⟨session, limit⟩ f i) :
  (e.step session).HasValues
  := by
  have hplain : ∀ error : Fault, error.Plain → error ≠ .stackUnderflow := by
    rintro error hplain rfl
    exact hplain
  apply Status.Ends.hasValues
  apply step_ends hframes hplain
  · rintro v ⟨⟩
  · rintro budget ⟨⟩
  · rintro - ⟨⟩
  · intro i limit hinstruction
    apply (Surroundings.execute_yields ⟨session, limit⟩ e.heap f i).faults.mono
    rintro error hlack rfl
    exact hshort i limit hinstruction (hlack rfl)

/-- The frames of a program that starts with one method are on paths of control, if they
are frames of the body. -/
theorem Reaches.onPath
    {g : FlowGraph} {body : MethodBody} (hg : g.Sound body) (hfaithful : g.Faithful session body)
    {start e₀ e₁ : Execution} {m : RealizedMethod} {args : List Value} {typeArgs : List TypeRef}
    {resume : Resume} (hstart : start.frames = [])
    (henter : start.enter m args typeArgs resume = .running e₀)
    (hreaches : Reaches session e₀ e₁) :
  ∀ a ∈ e₁.activations, a.frame.body = body → a.OnPath g body
  := hreaches.keeps_entered (Activation.onPath_invariant hg hfaithful _) hstart henter

end Execution

/-- In a running program, the frames of a sealed body never hold more values than the
body says, and none of its instructions finds too few, if calls have the effects that
the body was sealed with and the depth at an instruction does not depend on the path. -/
theorem Emitter.Built.stack_bounded_of_balanced
    {e : Emitter} {effectOf : Opcode → MethodRef → Option CallEffect} {body : MethodBody}
    (hbuilt : e.Built) (hsealed : (e.sealBodyWith effectOf).1 = .ok body)
    (hbalanced : (e.relax.graph effectOf).Balanced) {session : Session}
    (hfaithful : (e.relax.graph effectOf).Faithful session body)
    {start e₀ e₁ : Execution} {m : RealizedMethod} {args : List Value} {typeArgs : List TypeRef}
    {resume : Resume} (hstart : start.frames = [])
    (henter : start.enter m args typeArgs resume = .running e₀)
    (hreaches : Execution.Reaches session e₀ e₁) :
  (∀ f ∈ e₁.frames, f.body = body → f.stack.length ≤ body.maxStack)
    ∧ ∀ f callers, e₁.frames = f :: callers → f.body = body →
      (f.method.returnType ≠ .void → e.returnsValue = true) →
      ∀ machine heap, e₁.step session ≠ .finished machine heap (.error .stackUnderflow)
  := by
  have hsound := hbuilt.sound hsealed hbalanced
  have hframes := hreaches.onPath hsound hfaithful hstart henter
  constructor
  · intro f hf hbody
    obtain ⟨phase, hmem⟩ := Activation.exists_of_mem hf
    apply (hframes _ hmem hbody).length_le hsound
  · intro f callers hcons hbody hreturns machine heap hstep
    have hf : Activation.mk f .ready ∈ e₁.activations := by
      rw [Execution.activations, hcons]
      apply List.mem_cons_self
    have hvalues : (e₁.step session).HasValues := by
      apply Execution.step_hasValues hcons
      intro i limit hinstruction
      rw [hbody] at hinstruction
      apply (hframes _ hf hbody).not_short hsound hfaithful hinstruction hreturns
    rw [hstep] at hvalues
    exact hvalues

/-! ## joins -/

/-- A body without calls is given the effects of all its calls. -/
theorem FlowGraph.faithful_of_no_calls {g : FlowGraph} {body : MethodBody} (session : Session)
    (hcalls : ∀ i ∈ body.instructions, i.opcode.isCall = false) :
  g.Faithful session body
  := by
  constructor
  · intro i handle typeArgs m hi hcall
    rw [hcalls i hi] at hcall
    cases hcall
  · intro i handle typeArgs m target hi hcall
    rw [hcalls i hi] at hcall
    cases hcall

/-- A method whose argument selects one of two ways to a return, of which the one that
is taken for zero has no value to return. -/
def joiningBody : MethodBody :=
  { instructions := #[
      ⟨.firstLdarg, .none⟩, ⟨.branch .isTrue .short, .label ⟨0⟩⟩,
      ⟨.branch .always .short, .label ⟨1⟩⟩, ⟨.ldcI4Implied ⟨5, by decide⟩, .none⟩,
      ⟨.ret, .none⟩]
    labels := #[some 3, some 4]
    locals := #[]
    regions := []
    maxStack := 1 }

theorem joiningBody_built :
  ∃ e : Emitter, e.Built ∧ e.returnsValue = true ∧ (e.sealBodyWith fun _ _ => none).1 = .ok joiningBody
  := by
  have h := (Emitter.Built.start "T::M" true).defineLabel.defineLabel
  have h := (h.emitWith .firstLdarg .none).emitWith (.branch .isTrue .long) (.label ⟨0⟩)
  have h := (h.emitWith (.branch .always .long) (.label ⟨1⟩)).markLabel ⟨0⟩
  have h := (h.emitWith (.ldcI4Implied 5) .none).markLabel ⟨1⟩
  have h := h.emitWith .ret .none
  exact ⟨_, h, rfl, rfl⟩

def joiningMethod (body : MethodBody) : RealizedMethod :=
  { (default : RealizedMethod) with
    name := "M"
    returnType := .primitive .i32
    body := some body }

/-- A program that runs a method with one argument and has come to an instruction. -/
def joiningProgram (body : MethodBody) (arg : Int32) (steps ip : Nat) (stack : List Value) :
    Execution :=
  { machine := { steps := steps }
    heap := default
    frames := [
      { Frame.enter (joiningMethod body) body [.i32 arg] [] .dropResult with
        ip := ip
        stack := stack }] }

theorem joiningProgram_starts (body : MethodBody) (arg : Int32) :
  ∃ start : Execution, start.frames = []
    ∧ start.enter (joiningMethod body) [.i32 arg] [] .dropResult
      = .running (joiningProgram body arg 0 0 [])
  := ⟨⟨{}, default, []⟩, rfl, rfl⟩

/-- Control comes to the return by the way without a value. -/
theorem joiningProgram_reaches (session : Session) :
  Execution.Reaches session (joiningProgram joiningBody 0 0 0 [])
    (joiningProgram joiningBody 0 3 4 [])
  := by
  have htest : Execution.Reaches session (joiningProgram joiningBody 0 0 0 [])
      (joiningProgram joiningBody 0 1 1 [.i32 0]) := .step .refl rfl
  have hbranch : Execution.Reaches session (joiningProgram joiningBody 0 0 0 [])
      (joiningProgram joiningBody 0 2 2 []) := htest.step rfl
  apply hbranch.step rfl

theorem not_sealed_stack_bounded :
  ¬ ∀ {e : Emitter} {effectOf : Opcode → MethodRef → Option CallEffect} {body : MethodBody}
    {session : Session} {start e₀ e₁ : Execution} {m : RealizedMethod} {args : List Value}
    {typeArgs : List TypeRef} {resume : Resume} {f : Frame} {callers : List Frame}
    {machine : Machine} {heap : Heap},
    e.Built → (e.sealBodyWith effectOf).1 = .ok body →
    (e.relax.graph effectOf).Faithful session body → start.frames = [] →
    start.enter m args typeArgs resume = .running e₀ → Execution.Reaches session e₀ e₁ →
    e₁.frames = f :: callers → f.body = body →
    (f.method.returnType ≠ .void → e.returnsValue = true) →
    e₁.step session ≠ .finished machine heap (.error .stackUnderflow)
  := by
  intro hclaim
  obtain ⟨e, hbuilt, hreturns, hsealed⟩ := joiningBody_built
  obtain ⟨start, hstart, henter⟩ := joiningProgram_starts joiningBody 0
  have hfaithful : (e.relax.graph fun _ _ => none).Faithful default joiningBody :=
    FlowGraph.faithful_of_no_calls default (by decide)
  apply hclaim hbuilt hsealed hfaithful hstart henter (joiningProgram_reaches default) rfl rfl
    (fun _ => hreturns) rfl

/-- A method in which both ways come to the join without a value. -/
def levelBody : MethodBody :=
  { instructions := #[
      ⟨.firstLdarg, .none⟩, ⟨.branch .isTrue .short, .label ⟨0⟩⟩,
      ⟨.nop, .none⟩, ⟨.ldcI4Implied ⟨5, by decide⟩, .none⟩, ⟨.ret, .none⟩]
    labels := #[some 3]
    locals := #[]
    regions := []
    maxStack := 1 }

theorem levelBody_built :
  ∃ e : Emitter, e.Built ∧ (e.sealBodyWith fun _ _ => none).1 = .ok levelBody
    ∧ e.returnsValue = true ∧ (e.relax.graph fun _ _ => none).Balanced
  := by
  have h := (Emitter.Built.start "T::M" true).defineLabel
  have h := (h.emitWith .firstLdarg .none).emitWith (.branch .isTrue .long) (.label ⟨0⟩)
  have h := (h.emitWith .nop .none).markLabel ⟨0⟩
  have h := (h.emitWith (.ldcI4Implied 5) .none).emitWith .ret .none
  refine ⟨_, h, rfl, rfl, ?_⟩
  apply FlowGraph.balanced_of_depths fun ip => if ip = 1 ∨ ip = 4 then 1 else 0
  · decide
  · decide

theorem joiningProgram_reaches_return (session : Session) :
  Execution.Reaches session (joiningProgram levelBody 0 0 0 [])
    (joiningProgram levelBody 0 4 4 [.i32 5])
  := by
  have htest : Execution.Reaches session (joiningProgram levelBody 0 0 0 [])
      (joiningProgram levelBody 0 1 1 [.i32 0]) := .step .refl rfl
  have hjoin : Execution.Reaches session (joiningProgram levelBody 0 0 0 [])
      (joiningProgram levelBody 0 2 2 []) := htest.step rfl
  have hload : Execution.Reaches session (joiningProgram levelBody 0 0 0 [])
      (joiningProgram levelBody 0 3 3 []) := hjoin.step rfl
  apply hload.step rfl

/-- The program has its value at the return, and no more than the body says. -/
theorem levelBody_stack_bounded :
  Execution.Reaches default (joiningProgram levelBody 0 0 0 [])
      (joiningProgram levelBody 0 4 4 [.i32 5])
    ∧ (∀ f ∈ (joiningProgram levelBody 0 4 4 [.i32 5]).frames,
      f.body = levelBody → f.stack.length ≤ 1)
    ∧ ∀ machine heap, (joiningProgram levelBody 0 4 4 [.i32 5]).step default
      ≠ .finished machine heap (.error .stackUnderflow)
  := by
  obtain ⟨e, hbuilt, hsealed, hreturns, hbalanced⟩ := levelBody_built
  obtain ⟨start, hstart, henter⟩ := joiningProgram_starts levelBody 0
  have hfaithful : (e.relax.graph fun _ _ => none).Faithful default levelBody :=
    FlowGraph.faithful_of_no_calls default (by decide)
  have hreaches := joiningProgram_reaches_return default
  have hbounded := hbuilt.stack_bounded_of_balanced hsealed hbalanced hfaithful hstart henter
    hreaches
  exact ⟨hreaches, hbounded.1, hbounded.2 _ _ rfl rfl fun _ => hreturns⟩

end ManagedCode
