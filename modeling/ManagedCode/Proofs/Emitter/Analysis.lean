import ManagedCode.Proofs.Emitter.Depth
import ManagedCode.Proofs.Emitter.Checks

/-!
# What the depth analysis reports

Sealing a checked stream ends with one answer of the analysis.  A reported underflow lies on a path,
and an analysis without one has visited the instructions that control can come to and no others
(`Emitter.seal_depth`).
-/

namespace ManagedCode

namespace FlowGraph

variable {g : FlowGraph} {s : FlowGraph.Survey}

/-- An analysis that finds no fault has visited what control can come to. -/
theorem Ends.seen_iff (hends : g.Ends g.start (.ok s)) (ip : Nat) :
  s.seen[ip]? = some true ↔ ip < g.instructions.size ∧ g.Connected ip
  := by
  obtain ⟨hdone, found, hvisiting⟩ := hends.visiting g.visiting_start
  constructor
  · intro hseen
    obtain ⟨depth, hfound⟩ := Option.isSome_iff_exists.mp ((hvisiting.seen ip).mp hseen)
    refine ⟨?_, (hvisiting.reaches ip depth hfound).connected⟩
    rw [← hvisiting.size]
    exact (Array.getElem?_eq_some_iff.mp hseen).1
  · rintro ⟨hlt, hconnected⟩
    exact (hvisiting.seen ip).mpr (hvisiting.isSome_of_connected hdone hconnected hlt)

/-- An analysis that finds no fault has visited instructions on paths only. -/
theorem Ends.connected_iff (hends : g.Ends g.start (.ok s)) {ip : Nat}
    (hlt : ip < g.instructions.size) :
  g.Connected ip ↔ ∃ depth, g.Reaches ip depth
  := by
  obtain ⟨hdone, found, hvisiting⟩ := hends.visiting g.visiting_start
  constructor
  · intro hconnected
    obtain ⟨depth, hfound⟩ := Option.isSome_iff_exists.mp
      (hvisiting.isSome_of_connected hdone hconnected hlt)
    exact ⟨depth, hvisiting.reaches ip depth hfound⟩
  · rintro ⟨depth, hreaches⟩
    exact hreaches.connected

theorem reaches_zero (g : FlowGraph) : g.Reaches 0 0 :=
  .entry (List.mem_append_right _ List.mem_cons_self)

/-- The greatest depth is the depth before or after an instruction on a path.  The depth after an
instruction is that before the next one, and where there is no next one it is no greater, for then
nothing is left to be taken. -/
theorem Ends.attained (hends : g.Ends g.start (.ok s)) (hsize : 0 < g.instructions.size) :
  ∃ ip depth i, g.Reaches ip depth ∧ g.instructions[ip]? = some i
    ∧ (g.effect depth i).1 ≤ depth ∧ (s.deepest = depth ∨ s.deepest = g.after depth i)
  := by
  obtain ⟨hdone, found, hvisiting⟩ := hends.visiting g.visiting_start
  rcases hvisiting.attained with hzero | hattained
  · have hfirst := Array.getElem?_eq_getElem hsize
    obtain ⟨depth, hfound⟩ := Option.isSome_iff_exists.mp
      (hvisiting.isSome_of_connected hdone g.reaches_zero.connected hsize)
    have hbounds := hvisiting.bounds 0 depth _ hfound hfirst
    refine ⟨0, depth, _, hvisiting.reaches 0 depth hfound, hfirst, hbounds.enough, .inl ?_⟩
    have := hbounds.before
    omega
  · exact hattained

end FlowGraph

namespace Emitter

variable {e : Emitter}

theorem sealBodyWith_of_check (hfinished : e.finished = false) (hcheck : e.check = .ok ())
    (effectOf : Opcode → MethodRef → Option CallEffect) :
  (∀ ip, (e.relax.graph effectOf).maxDepth = .error ip →
    (e.sealBodyWith effectOf).1 = .error (.stackUnderflow e.method ip))
  ∧ ∀ maxStack, (e.relax.graph effectOf).maxDepth = .ok maxStack →
    ∃ body, (e.sealBodyWith effectOf).1 = .ok body ∧ body.maxStack = maxStack
  := by
  have hunfinished : ¬ e.finished = true := by
    rw [hfinished]
    exact Bool.false_ne_true
  have hgraph : Emitter.graph { e.relax with finished := true } effectOf
      = e.relax.graph effectOf := rfl
  constructor
  · intro ip hdepth
    rw [sealBodyWith, if_neg hunfinished, hcheck]
    dsimp only
    rw [hgraph, hdepth]
    rfl
  · intro maxStack hdepth
    exact ⟨_, sealBodyWith_of_maxDepth hfinished hcheck hdepth, rfl⟩

/-- The analysis of a checked stream ends with one answer.  Where sealing reports an underflow a
path comes with too few values; otherwise just the instructions are visited that control can come
to, and the bound of the body is the depth before or after an instruction on a path. -/
theorem seal_depth (hfinished : e.finished = false) (hcheck : e.check = .ok ())
    (effectOf : Opcode → MethodRef → Option CallEffect) :
  let g := e.relax.graph effectOf
  (∃! answer, g.Ends g.start answer)
  ∧ ((∃ ip depth i,
      g.Ends g.start (.error ip)
      ∧ (e.sealBodyWith effectOf).1 = .error (.stackUnderflow e.method ip)
      ∧ g.Reaches ip depth ∧ g.instructions[ip]? = some i ∧ depth < (g.effect depth i).1)
    ∨ ∃ s body,
      g.Ends g.start (.ok s)
      ∧ (e.sealBodyWith effectOf).1 = .ok body
      ∧ (∀ ip, s.seen[ip]? = some true ↔ ip < g.instructions.size ∧ g.Connected ip)
      ∧ (∀ ip < g.instructions.size, g.Connected ip ↔ ∃ depth, g.Reaches ip depth)
      ∧ ∃ ip depth i, g.Reaches ip depth ∧ g.instructions[ip]? = some i
        ∧ (g.effect depth i).1 ≤ depth ∧ (body.maxStack = depth ∨ body.maxStack = g.after depth i))
  := by
  intro g
  obtain ⟨answer, hends, hdepth⟩ := g.maxDepth_ends
  obtain ⟨hunderflow, hsealed⟩ := sealBodyWith_of_check hfinished hcheck effectOf
  refine ⟨⟨answer, hends, fun _ hends' => hends'.unique hends⟩, ?_⟩
  cases answer with
  | error ip =>
      obtain ⟨depth, i, hshort⟩ := hends.reaches g.visiting_start
      exact .inl ⟨ip, depth, i, hends, hunderflow ip hdepth, hshort⟩
  | ok s =>
      obtain ⟨body, hbody, hmaxStack⟩ := hsealed s.deepest hdepth
      have hsize : 0 < g.instructions.size := by
        obtain ⟨last, hlast, -⟩ := last_of_check hcheck
        have hrelax : g.instructions.size = e.instructions.size := Array.size_mapIdx
        rw [hrelax]
        exact Array.size_pos_of_mem (Array.mem_of_back? hlast)
      have hattained := hends.attained hsize
      rw [← hmaxStack] at hattained
      exact .inr ⟨s, body, hends, hbody, hends.seen_iff, fun ip hlt => hends.connected_iff hlt,
        hattained⟩

/-- A stream that takes a value from the empty stack. -/
def popping : Emitter :=
  { method := "Pop"
    instructions := #[⟨.pop, .none⟩, ⟨.ret, .none⟩] }

/-- The path on which there is nothing to take. -/
theorem popping_seal_depth :
  popping.finished = false ∧ popping.check = .ok ()
  ∧ (popping.sealBodyWith fun _ _ => none).1 = .error (.stackUnderflow "Pop" 0)
  ∧ ∃ depth i, (popping.relax.graph fun _ _ => none).Reaches 0 depth
    ∧ popping.instructions[0]? = some i
    ∧ depth < ((popping.relax.graph fun _ _ => none).effect depth i).1
  := by
  have hcheck : popping.check = .ok () := rfl
  have hreported : (popping.sealBodyWith fun _ _ => none).1
      = .error (.stackUnderflow "Pop" 0) := rfl
  refine ⟨rfl, hcheck, hreported, ?_⟩
  obtain ⟨-, hanswer⟩ := seal_depth (e := popping) rfl hcheck fun _ _ => none
  obtain ⟨ip, depth, i, -, hsealed, hreaches, hinstruction, hshort⟩ | ⟨s, body, -, hsealed, -⟩ :=
    hanswer
  · cases hreported.symm.trans hsealed
    exact ⟨depth, i, hreaches, hinstruction, hshort⟩
  · cases hreported.symm.trans hsealed

end Emitter

end ManagedCode
