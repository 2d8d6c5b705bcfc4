import ManagedCode.Proofs.Assembly.Circularity
import ManagedCode.Proofs.Assembly.Refusals

/-!
# Searches

Looking things up follows base links and interface links of all kinds of states, also where the
links form cycles or lead to types that have gone.  Following links ends after as many turns as
there can be types or links (`Workspace.climbs_bases`, `Workspace.collects_inheritedInterfaces`),
and what it comes to is told by where the links lead (`Workspace.searches_end`).
-/

namespace ManagedCode

open Relation

namespace Workspace

variable {w : Workspace} {n : Nat} {id start x y : TypeId}
  {seen pending roots found chain : List TypeId}

/-- A unit sees a type. -/
def Knows (w : Workspace) (x : TypeId) : Prop :=
  (w.view? x).isSome

theorem knows_of_view {s : TypeView} (hs : w.view? x = some s) : w.Knows x := by
  rw [Knows, hs]
  rfl

theorem view_of_knows (h : w.Knows x) : ∃ s, w.view? x = some s ∧ w.view x = .ok s := by
  obtain ⟨s, hs⟩ := Option.isSome_iff_exists.mp h
  refine ⟨s, hs, ?_⟩
  rw [view, hs]

theorem view_error {e : BuildError} (h : w.view x = .error e) : ¬ w.Knows x ∧ e = .unknownType x := by
  rw [view] at h
  split at h
  · cases h
  · next hnone =>
    cases h
    exact ⟨by simp [Knows, hnone], rfl⟩

/-! ## The turns of a search -/

/-- The turns of the search for bases from the type where it goes on, with its answer. -/
inductive Climbs (w : Workspace) (start : TypeId) :
    Nat → List TypeId → Option TypeId → Except BuildError (List TypeId) → Prop
  | top {seen : List TypeId} : Climbs w start 0 seen none (.ok [])
  | again {seen : List TypeId} {x : TypeId} (hseen : x ∈ seen) :
      Climbs w start 1 seen (some x) (.error (.circularInheritance (w.typeName start)))
  | unknown {seen : List TypeId} {x : TypeId} {e : BuildError} (hseen : x ∉ seen)
      (hx : w.view x = .error e) : Climbs w start 1 seen (some x) (.error e)
  | climb {n : Nat} {seen : List TypeId} {x : TypeId} {s : TypeView}
      {answer : Except BuildError (List TypeId)} (hseen : x ∉ seen) (hx : w.view x = .ok s)
      (hrest : Climbs w start n (x :: seen) s.base answer) :
      Climbs w start (n + 1) seen (some x) ((x :: ·) <$> answer)

/-- The turns of the search for interfaces from the types that are pending, with its answer. -/
inductive Collects (w : Workspace) :
    Nat → List TypeId → List TypeId → Except BuildError (List TypeId) → Prop
  | done {seen : List TypeId} : Collects w 0 seen [] (.ok [])
  | skip {n : Nat} {seen pending : List TypeId} {x : TypeId}
      {answer : Except BuildError (List TypeId)} (hseen : x ∈ seen)
      (hrest : Collects w n seen pending answer) : Collects w (n + 1) seen (x :: pending) answer
  | unknown {seen pending : List TypeId} {x : TypeId} {e : BuildError} (hseen : x ∉ seen)
      (hx : w.view x = .error e) : Collects w 1 seen (x :: pending) (.error e)
  | visit {n : Nat} {seen pending : List TypeId} {x : TypeId} {s : TypeView}
      {answer : Except BuildError (List TypeId)} (hseen : x ∉ seen) (hx : w.view x = .ok s)
      (hrest : Collects w n (x :: seen) (s.interfaces ++ pending) answer) :
      Collects w (n + 1) seen (x :: pending) ((x :: ·) <$> answer)

/-- The search for bases that has come from the types seen ends after at most one turn for each
other type and a last one.  No more types can be seen than there are, so that the fuel is never used
up. -/
theorem climbs_basesFrom
    {fuel : Nat} {next : Option TypeId} (hnodup : seen.Nodup) (hseen : ∀ x ∈ seen, w.Knows x)
    (hfuel : w.typeCount < seen.length + fuel) :
  ∃ n ≤ fuel, w.Climbs start n seen next (w.basesFrom start fuel seen next)
  := by
  induction fuel generalizing seen next with
  | zero =>
      have := length_le_typeCount hnodup hseen
      omega
  | succ fuel ih =>
      cases next with
      | none => exact ⟨0, Nat.zero_le _, .top⟩
      | some x =>
          rw [basesFrom]
          split
          · next hmem => exact ⟨1, Nat.le_add_left _ _, .again (List.contains_iff_mem.mp hmem)⟩
          · next hmem =>
            rw [List.contains_iff_mem] at hmem
            cases hx : w.view x with
            | error e => exact ⟨1, Nat.le_add_left _ _, .unknown hmem hx⟩
            | ok s =>
                have hknown : ∀ y ∈ x :: seen, w.Knows y := by
                  intro y hy
                  obtain rfl | hy := List.mem_cons.mp hy
                  · exact knows_of_view (view_ok hx)
                  · exact hseen y hy
                obtain ⟨n, hn, hrest⟩ : ∃ n ≤ fuel, w.Climbs start n (x :: seen) s.base
                    (w.basesFrom start fuel (x :: seen) s.base) := by
                  apply ih (List.nodup_cons.mpr ⟨hmem, hnodup⟩) hknown
                  rw [List.length_cons]
                  omega
                exact ⟨n + 1, Nat.succ_le_succ hn, .climb hmem hx hrest⟩

/-- Following base links from a type ends. -/
theorem climbs_bases {s : TypeView} (hs : w.view? id = some s) :
  ∃ n ≤ w.typeCount + 1, w.Climbs id n [id] s.base (w.bases id)
  := by
  have hbases : w.bases id = w.basesFrom id (w.typeCount + 1) [id] s.base := by
    rw [bases, view, hs]
    rfl
  rw [hbases]
  apply climbs_basesFrom (List.nodup_singleton id)
  · intro x hx
    rw [List.mem_singleton.mp hx]
    exact knows_of_view hs
  · rw [List.length_singleton]
    omega

/-- The search for interfaces ends when it has visited what is pending and followed each link of
the types that have not been seen. -/
theorem collects_inheritedInterfacesFrom
    {fuel : Nat} (hfuel : pending.length + w.unseenLinks seen ≤ fuel) :
  ∃ n ≤ fuel, w.Collects n seen pending (w.inheritedInterfacesFrom fuel seen pending)
  := by
  induction fuel generalizing seen pending with
  | zero =>
      cases pending with
      | nil => exact ⟨0, Nat.le_refl _, .done⟩
      | cons x pending =>
          rw [List.length_cons] at hfuel
          omega
  | succ fuel ih =>
      cases pending with
      | nil => exact ⟨0, Nat.zero_le _, .done⟩
      | cons x pending =>
          rw [List.length_cons] at hfuel
          rw [inheritedInterfacesFrom]
          split
          · next hmem =>
            have hless : pending.length + w.unseenLinks seen ≤ fuel := by omega
            obtain ⟨n, hn, hrest⟩ := ih hless
            exact ⟨n + 1, Nat.succ_le_succ hn, .skip (List.contains_iff_mem.mp hmem) hrest⟩
          · next hmem =>
            rw [List.contains_iff_mem] at hmem
            cases hx : w.view x with
            | error e => exact ⟨1, Nat.le_add_left _ _, .unknown hmem hx⟩
            | ok s =>
                have hvisit := unseenLinks_visit (view_ok hx) hmem
                have hless : (s.interfaces ++ pending).length + w.unseenLinks (x :: seen) ≤ fuel := by
                  rw [List.length_append]
                  omega
                obtain ⟨n, hn, hrest⟩ := ih hless
                exact ⟨n + 1, Nat.succ_le_succ hn, .visit hmem hx hrest⟩

/-- Following interface links from some types ends. -/
theorem collects_inheritedInterfaces (w : Workspace) (roots : List TypeId) :
  ∃ n ≤ roots.length + w.interfaceLinks, w.Collects n [] roots (w.inheritedInterfaces roots)
  := by
  apply collects_inheritedInterfacesFrom
  rw [unseenLinks_nil]

/-! ## What following interface links comes to -/

/-- Interface links lead to a type from one of the given ones. -/
def Reaches (w : Workspace) (roots : List TypeId) (x : TypeId) : Prop :=
  ∃ r ∈ roots, ReflTransGen w.HasInterface r x

/-- What a search for interfaces has come to: all types that links lead to, each once and the first
one in front, if they are all known, and else one that is not. -/
def Collected (w : Workspace) (roots : List TypeId) : Except BuildError (List TypeId) → Prop
  | .ok found => found.Nodup ∧ found.head? = roots.head? ∧ (∀ x ∈ found, w.Knows x)
      ∧ ∀ x, x ∈ found ↔ w.Reaches roots x
  | .error e => ∃ x, w.Reaches roots x ∧ ¬ w.Knows x ∧ e = .unknownType x

theorem Collects.error {e : BuildError} {answer : Except BuildError (List TypeId)}
    (h : w.Collects n seen pending answer) (he : answer = .error e) :
  ∃ x, w.Reaches pending x ∧ ¬ w.Knows x ∧ e = .unknownType x
  := by
  induction h with
  | done => cases he
  | skip hseen _ ih =>
      obtain ⟨x, ⟨r, hr, hpath⟩, hunknown⟩ := ih he
      exact ⟨x, ⟨r, List.mem_cons_of_mem _ hr, hpath⟩, hunknown⟩
  | @unknown _ _ x _ hseen hx =>
      cases he
      exact ⟨x, ⟨x, List.mem_cons_self, .refl⟩, view_error hx⟩
  | @visit _ _ _ x s answer hseen hx _ ih =>
      cases answer with
      | ok rest => cases he
      | error e' =>
          cases he
          obtain ⟨y, ⟨r, hr, hpath⟩, hunknown⟩ := ih rfl
          refine ⟨y, ?_, hunknown⟩
          obtain hr | hr := List.mem_append.mp hr
          · exact ⟨x, List.mem_cons_self, .head ⟨s, view_ok hx, hr⟩ hpath⟩
          · exact ⟨r, List.mem_cons_of_mem x hr, hpath⟩

theorem Collects.ok {answer : Except BuildError (List TypeId)}
    (h : w.Collects n seen pending answer) (hok : answer = .ok found) :
  found.Nodup ∧ (∀ x ∈ found, x ∉ seen ∧ w.Knows x)
    ∧ ∀ x ∈ pending.head?, x ∉ seen → found.head? = some x
  := by
  induction h generalizing found with
  | done =>
      cases hok
      simp
  | skip hseen _ ih =>
      obtain ⟨hnodup, hfound, -⟩ := ih hok
      refine ⟨hnodup, hfound, ?_⟩
      rintro _ ⟨⟩ hunseen
      exact absurd hseen hunseen
  | unknown => cases hok
  | @visit _ _ _ x s answer hseen hx _ ih =>
      cases answer with
      | error e => cases hok
      | ok rest =>
          cases hok
          obtain ⟨hnodup, hfound, -⟩ := ih rfl
          refine ⟨List.nodup_cons.mpr ⟨?_, hnodup⟩, ?_, fun _ hfirst _ => hfirst⟩
          · intro hmem
            exact (hfound x hmem).1 List.mem_cons_self
          · intro y hy
            obtain rfl | hy := List.mem_cons.mp hy
            · exact ⟨hseen, knows_of_view (view_ok hx)⟩
            · exact ⟨fun hmem => (hfound y hy).1 (List.mem_cons_of_mem x hmem), (hfound y hy).2⟩

theorem collected_inheritedInterfaces (w : Workspace) (roots : List TypeId) :
  w.Collected roots (w.inheritedInterfaces roots)
  := by
  obtain ⟨n, -, hcollects⟩ := w.collects_inheritedInterfaces roots
  cases hanswer : w.inheritedInterfaces roots with
  | error e => exact hcollects.error hanswer
  | ok found =>
      obtain ⟨hnodup, hfound, hhead⟩ := hcollects.ok hanswer
      refine ⟨hnodup, ?_, fun x hx => (hfound x hx).2, mem_inheritedInterfaces_iff hanswer⟩
      cases roots with
      | nil =>
          cases found with
          | nil => rfl
          | cons x found =>
              obtain ⟨_, ⟨⟩, -⟩ := (mem_inheritedInterfaces_iff hanswer x).mp List.mem_cons_self
      | cons x roots => exact hhead x rfl List.not_mem_nil

/-- The search succeeds exactly where all types that links lead to are known. -/
theorem Collected.ok_iff {answer : Except BuildError (List TypeId)} (h : w.Collected roots answer) :
  (∃ found, answer = .ok found) ↔ ∀ x, w.Reaches roots x → w.Knows x
  := by
  cases answer with
  | ok found =>
      obtain ⟨-, -, hknown, hmem⟩ := h
      exact iff_of_true ⟨found, rfl⟩ fun x hx => hknown x ((hmem x).mpr hx)
  | error e =>
      obtain ⟨x, hx, hunknown, -⟩ := h
      refine iff_of_false ?_ fun hall => hunknown (hall x hx)
      rintro ⟨found, ⟨⟩⟩

/-! ## What following base links comes to -/

/-- Following base links from a type comes to a type again. -/
def Revisits (w : Workspace) (x : TypeId) : Prop :=
  ∃ y, ReflTransGen w.HasBase x y ∧ w.Below y y

/-- Base links lead from a type along a list of types to one that has no base. -/
def Ascends (w : Workspace) : TypeId → List TypeId → Prop
  | x, [] => ∃ s, w.view? x = some s ∧ s.base = none
  | x, y :: chain => w.HasBase x y ∧ w.Ascends y chain

/-- What a search for bases has come to, where it goes on from a type. -/
def Climbed (w : Workspace) (start x : TypeId) : Except BuildError (List TypeId) → Prop
  | .ok chain => w.Ascends x chain
  | .error e => w.Revisits x ∧ e = .circularInheritance (w.typeName start)
      ∨ ∃ y, w.Below x y ∧ ¬ w.Knows y ∧ e = .unknownType y

theorem Climbs.climbed
    {next : Option TypeId} {answer : Except BuildError (List TypeId)} {s : TypeView}
    (h : w.Climbs start n seen next answer) (hs : w.view? x = some s) (hnext : s.base = next)
    (hpath : ∀ y ∈ seen, ReflTransGen w.HasBase y x) :
  w.Climbed start x answer
  := by
  induction h generalizing x s with
  | top => exact ⟨s, hs, hnext⟩
  | @again _ y hseen =>
      have hstep : w.HasBase x y := ⟨s, hs, hnext⟩
      exact .inl ⟨⟨y, .single hstep, .tail' (hpath y hseen) hstep⟩, rfl⟩
  | @unknown _ y _ hseen hy =>
      have hstep : w.HasBase x y := ⟨s, hs, hnext⟩
      exact .inr ⟨y, .single hstep, view_error hy⟩
  | @climb _ _ y s' answer hseen hy _ ih =>
      have hstep : w.HasBase x y := ⟨s, hs, hnext⟩
      have hclimbed : w.Climbed start y answer := by
        apply ih (view_ok hy) rfl
        intro z hz
        obtain rfl | hz := List.mem_cons.mp hz
        · exact .refl
        · exact (hpath z hz).tail hstep
      cases answer with
      | ok rest => exact ⟨hstep, hclimbed⟩
      | error e =>
          obtain ⟨⟨z, hz, hcycle⟩, he⟩ | ⟨z, hz, hunknown⟩ := hclimbed
          · exact .inl ⟨⟨z, hz.head hstep, hcycle⟩, he⟩
          · exact .inr ⟨z, .head hstep hz, hunknown⟩

theorem climbed_bases (h : w.Knows id) : w.Climbed id id (w.bases id) := by
  obtain ⟨s, hs, -⟩ := view_of_knows h
  obtain ⟨n, -, hclimbs⟩ := climbs_bases hs
  apply hclimbs.climbed hs rfl
  intro y hy
  rw [List.mem_singleton.mp hy]

theorem rightUnique_hasBase (w : Workspace) : Relator.RightUnique w.HasBase :=
  fun _ _ _ h h' => h.unique h'

theorem not_hasBase_of_unknown (h : ¬ w.Knows x) (y : TypeId) : ¬ w.HasBase x y := by
  rintro ⟨s, hs, -⟩
  exact h (knows_of_view hs)

theorem not_hasBase_of_none
    {s : TypeView} (hs : w.view? x = some s) (hnone : s.base = none) (y : TypeId) :
  ¬ w.HasBase x y
  := by
  rintro ⟨s', hs', hy⟩
  rw [hs] at hs'
  cases hs'
  rw [hnone] at hy
  cases hy

/-- Base links lead nowhere from their end. -/
theorem eq_of_path (hend : ∀ z, ¬ w.HasBase x z) (hpath : ReflTransGen w.HasBase x y) : x = y := by
  obtain heq | ⟨z, hz, -⟩ := hpath.cases_head
  · exact heq
  · exact absurd hz (hend z)

/-- A type that base links lead to from a cycle is on a cycle. -/
theorem below_of_path (hcycle : w.Below x x) (hpath : ReflTransGen w.HasBase x y) : w.Below y y := by
  induction hpath with
  | refl => exact hcycle
  | tail _ hstep ih => exact below_next ih hstep

/-- Where base links come to an end, no type is met again. -/
theorem not_revisits (hpath : ReflTransGen w.HasBase x y) (hend : ∀ z, ¬ w.HasBase y z) :
  ¬ w.Revisits x
  := by
  rintro ⟨z, hz, hcycle⟩
  have hy : w.Below y y := by
    obtain hzy | hyz := ReflTransGen.total_of_right_unique w.rightUnique_hasBase hz hpath
    · exact below_of_path hcycle hzy
    · rwa [eq_of_path hend hyz]
  obtain ⟨b, hb, -⟩ := TransGen.head'_iff.mp hy
  exact hend b hb

/-- Base links have one end. -/
theorem end_unique
    {z : TypeId} (hx : ReflTransGen w.HasBase z x) (hy : ReflTransGen w.HasBase z y)
    (hendx : ∀ u, ¬ w.HasBase x u) (hendy : ∀ u, ¬ w.HasBase y u) :
  x = y
  := by
  obtain hxy | hyx := ReflTransGen.total_of_right_unique w.rightUnique_hasBase hx hy
  · exact eq_of_path hendx hxy
  · exact (eq_of_path hendy hyx).symm

namespace Ascends

/-- The type at the end has no base. -/
theorem exists_end (h : w.Ascends x chain) :
  ∃ y, ReflTransGen w.HasBase x y ∧ ∀ z, ¬ w.HasBase y z
  := by
  induction chain generalizing x with
  | nil =>
      obtain ⟨s, hs, hnone⟩ := h
      exact ⟨x, .refl, not_hasBase_of_none hs hnone⟩
  | cons y chain ih =>
      obtain ⟨hstep, hrest⟩ := h
      obtain ⟨z, hz, hend⟩ := ih hrest
      exact ⟨z, hz.head hstep, hend⟩

theorem not_revisits (h : w.Ascends x chain) : ¬ w.Revisits x := by
  obtain ⟨y, hpath, hend⟩ := h.exists_end
  exact Workspace.not_revisits hpath hend

/-- All types that base links lead to are known. -/
theorem knows (h : w.Ascends x chain) (hpath : ReflTransGen w.HasBase x y) : w.Knows y := by
  induction chain generalizing x with
  | nil =>
      obtain ⟨s, hs, hnone⟩ := h
      rw [← eq_of_path (not_hasBase_of_none hs hnone) hpath]
      exact knows_of_view hs
  | cons z chain ih =>
      obtain ⟨hstep, hrest⟩ := h
      obtain rfl | ⟨z', hstep', hpath⟩ := hpath.cases_head
      · obtain ⟨s, hs, -⟩ := hstep
        exact knows_of_view hs
      · obtain rfl := hstep.unique hstep'
        exact ih hrest hpath

/-- Base links lead to all types along them. -/
theorem path (h : w.Ascends x chain) (hy : y ∈ x :: chain) : ReflTransGen w.HasBase x y := by
  induction chain generalizing x with
  | nil => rw [List.mem_singleton.mp hy]
  | cons z chain ih =>
      obtain ⟨hstep, hrest⟩ := h
      obtain rfl | hy := List.mem_cons.mp hy
      · exact .refl
      · exact .head hstep (ih hrest hy)

theorem unique {chain' : List TypeId} (h : w.Ascends x chain) (h' : w.Ascends x chain') :
  chain = chain'
  := by
  induction chain generalizing x chain' with
  | nil =>
      obtain ⟨s, hs, hnone⟩ := h
      cases chain' with
      | nil => rfl
      | cons y chain' => exact absurd h'.1 (not_hasBase_of_none hs hnone y)
  | cons y chain ih =>
      cases chain' with
      | nil =>
          obtain ⟨s, hs, hnone⟩ := h'
          exact absurd h.1 (not_hasBase_of_none hs hnone y)
      | cons y' chain' =>
          obtain rfl := h.1.unique h'.1
          rw [ih h.2 h'.2]

end Ascends

/-- Circular inheritance is reported exactly where base links come to a type again. -/
theorem bases_circular_iff (h : w.Knows id) :
  (∃ fullName, w.bases id = .error (.circularInheritance fullName)) ↔ w.Revisits id
  := by
  have hclimbed := climbed_bases h
  cases hanswer : w.bases id with
  | ok chain =>
      rw [hanswer] at hclimbed
      refine iff_of_false ?_ hclimbed.not_revisits
      rintro ⟨fullName, ⟨⟩⟩
  | error e =>
      rw [hanswer] at hclimbed
      obtain ⟨hrevisits, rfl⟩ | ⟨y, hy, hunknown, rfl⟩ := hclimbed
      · exact iff_of_true ⟨_, rfl⟩ hrevisits
      · refine iff_of_false ?_ (not_revisits hy.to_reflTransGen (not_hasBase_of_unknown hunknown))
        rintro ⟨fullName, ⟨⟩⟩

/-- A type is reported as unknown exactly where base links lead to it and it is not known. -/
theorem bases_unknown_iff (h : w.Knows id) :
  w.bases id = .error (.unknownType x) ↔ w.Below id x ∧ ¬ w.Knows x
  := by
  have hclimbed := climbed_bases h
  cases hanswer : w.bases id with
  | ok chain =>
      rw [hanswer] at hclimbed
      refine iff_of_false ?_ fun hx => hx.2 (hclimbed.knows hx.1.to_reflTransGen)
      rintro ⟨⟩
  | error e =>
      rw [hanswer] at hclimbed
      obtain ⟨hrevisits, rfl⟩ | ⟨y, hy, hunknown, rfl⟩ := hclimbed
      · refine iff_of_false ?_ fun hx =>
          not_revisits hx.1.to_reflTransGen (not_hasBase_of_unknown hx.2) hrevisits
        rintro ⟨⟩
      · constructor
        · rintro ⟨⟩
          exact ⟨hy, hunknown⟩
        · rintro ⟨hx, hunknown'⟩
          rw [end_unique hx.to_reflTransGen hy.to_reflTransGen (not_hasBase_of_unknown hunknown')
            (not_hasBase_of_unknown hunknown)]

/-- Otherwise the bases are the types along the base links. -/
theorem bases_ok_iff (h : w.Knows id) : w.bases id = .ok chain ↔ w.Ascends id chain := by
  have hclimbed := climbed_bases h
  cases hanswer : w.bases id with
  | ok chain' =>
      rw [hanswer] at hclimbed
      constructor
      · rintro ⟨⟩
        exact hclimbed
      · intro hascends
        rw [hascends.unique hclimbed]
  | error e =>
      rw [hanswer] at hclimbed
      refine iff_of_false ?_ fun hascends => ?_
      · rintro ⟨⟩
      · obtain ⟨hrevisits, -⟩ | ⟨y, hy, hunknown, -⟩ := hclimbed
        · exact hascends.not_revisits hrevisits
        · exact hunknown (hascends.knows hy.to_reflTransGen)

/-- Following base links from a type that is known comes to one of these ends. -/
theorem decided_of_knows (h : w.Knows id) :
  w.Revisits id ∨ (∃ x, w.Below id x ∧ ¬ w.Knows x) ∨ ∃ chain, w.Ascends id chain
  := by
  have hclimbed := climbed_bases h
  cases hanswer : w.bases id with
  | ok chain =>
      rw [hanswer] at hclimbed
      exact .inr (.inr ⟨chain, hclimbed⟩)
  | error e =>
      rw [hanswer] at hclimbed
      obtain ⟨hrevisits, -⟩ | ⟨y, hy, hunknown, -⟩ := hclimbed
      · exact .inl hrevisits
      · exact .inr (.inl ⟨y, hy, hunknown⟩)

/-! ## Members along the links -/

section

variable {α : Type} {f : TypeView → Option α} {name : String} {params : Option (List TypeRef)}

/-- The field of a name that a type has itself. -/
def fieldOf (w : Workspace) (name : String) (x : TypeId) : Option FieldSignature :=
  (w.view? x).bind fun s => s.fields.find? (·.name == name)

/-- The method of a name, and where given of parameter types, that a type has itself. -/
def methodOf (w : Workspace) (name : String) (params : Option (List TypeRef)) (x : TypeId) :
    Option MethodSignature :=
  (w.view? x).bind fun s => s.methods.find? (·.isMatch name params none)

/-- The interfaces that a type itself is declared with. -/
def interfacesOf (w : Workspace) (x : TypeId) : List TypeId :=
  (w.view? x).elim [] (·.interfaces)

/-- The member that has been found, if any. -/
def resolve (w : Workspace) (id : TypeId) (name : String) (found : Option α) : Except BuildError α :=
  found.elim (.error (w.unresolvable id name)) .ok

/-- A search through types that are known finds the first member that there is. -/
theorem findIn_of_knows {ids : List TypeId} (h : ∀ x ∈ ids, w.Knows x) :
  w.findIn f ids = .ok (ids.findSome? fun x => (w.view? x).bind f)
  := by
  induction ids with
  | nil => rfl
  | cons x ids ih =>
      obtain ⟨s, hs, hview⟩ := view_of_knows (h x List.mem_cons_self)
      have hrest := ih fun y hy => h y (List.mem_cons_of_mem x hy)
      rw [findIn, hview, List.findSome?_cons, hs, Option.bind_some]
      dsimp only [Bind.bind, Except.bind]
      cases f s with
      | some found => rfl
      | none => exact hrest

theorem knows_of_bases (h : w.bases id = .ok chain) : w.Knows id := by
  obtain ⟨s, hs, -⟩ := exists_of_bind_ok h
  exact knows_of_view (view_ok hs)

/-- All bases that have been found are known. -/
theorem knows_bases (h : w.bases id = .ok chain) : ∀ x ∈ id :: chain, w.Knows x := by
  have hascends := (bases_ok_iff (knows_of_bases h)).mp h
  exact fun x hx => hascends.knows (hascends.path hx)

/-- The field of a type is that of the first type along its base links that has one. -/
theorem findField_eq (w : Workspace) (id : TypeId) (name : String) :
  w.findField id name
    = w.bases id >>= fun chain => w.resolve id name ((id :: chain).findSome? (w.fieldOf name))
  := by
  rw [findField]
  cases hbases : w.bases id with
  | error e => rfl
  | ok chain =>
      change (w.findIn _ (id :: chain) >>= _) = w.resolve id name _
      rw [findIn_of_knows (knows_bases hbases)]
      change (Except.ok ((id :: chain).findSome? (w.fieldOf name)) >>= _) = _
      cases (id :: chain).findSome? (w.fieldOf name) <;> rfl

/-- The interfaces that a lookup in a type goes on to: those that an interface inherits. -/
def furtherInterfaces (w : Workspace) (id : TypeId) : Except BuildError (List TypeId) :=
  if (w.view? id).any (·.handle.kind.isInterface) then w.inheritedInterfaces [id] else .ok []

theorem knows_furtherInterfaces (h : w.furtherInterfaces id = .ok found) : ∀ x ∈ found, w.Knows x := by
  rw [furtherInterfaces] at h
  split at h
  · have hcollected := w.collected_inheritedInterfaces [id]
    rw [h] at hcollected
    exact hcollected.2.2.1
  · cases h
    rintro x ⟨⟩

/-- The method of a type is that of the first type along its base links that has one, or else that
of the first of the interfaces that an interface inherits. -/
theorem findMethod_eq (w : Workspace) (id : TypeId) (name : String) (params : Option (List TypeRef)) :
  w.findMethod id name params
    = w.bases id >>= fun chain => ((id :: chain).findSome? (w.methodOf name params)).elim
      (w.furtherInterfaces id >>= fun found =>
        w.resolve id name (found.findSome? (w.methodOf name params))) .ok
  := by
  rw [findMethod]
  cases hbases : w.bases id with
  | error e => rfl
  | ok chain =>
      obtain ⟨s, hs, hview⟩ := view_of_knows (knows_of_bases hbases)
      change (w.findIn _ (id :: chain) >>= _) = Option.elim _ _ _
      rw [findIn_of_knows (knows_bases hbases)]
      change (Except.ok ((id :: chain).findSome? (w.methodOf name params)) >>= _) = _
      cases (id :: chain).findSome? (w.methodOf name params) with
      | some m => rfl
      | none =>
          have hfurther : w.furtherInterfaces id
              = if s.handle.kind.isInterface then w.inheritedInterfaces [id] else .ok [] := by
            rw [furtherInterfaces, hs]
            rfl
          rw [hview, Option.elim_none]
          change (if s.handle.kind.isInterface then _ else _) = _
          split
          · next hkind =>
            rw [if_pos hkind] at hfurther
            rw [hfurther]
            cases hfound : w.inheritedInterfaces [id] with
            | error e => rfl
            | ok found =>
                change (w.findIn _ found >>= _) = w.resolve id name _
                rw [findIn_of_knows (knows_furtherInterfaces (hfurther.trans hfound))]
                change (Except.ok (found.findSome? (w.methodOf name params)) >>= _) = _
                cases found.findSome? (w.methodOf name params) <;> rfl
          · next hkind =>
            rw [if_neg hkind] at hfurther
            rw [hfurther]
            rfl

theorem mapM_interfaces {ids : List TypeId} (h : ∀ x ∈ ids, w.Knows x) :
  (ids.mapM fun x => return (← w.view x).interfaces) = .ok (ids.map w.interfacesOf)
  := by
  induction ids with
  | nil => rfl
  | cons x ids ih =>
      obtain ⟨s, hs, hview⟩ := view_of_knows (h x List.mem_cons_self)
      rw [List.mapM_cons, hview, ih fun y hy => h y (List.mem_cons_of_mem x hy), List.map_cons,
        interfacesOf, hs]
      rfl

/-- The interfaces of a type are those that links lead to from the ones that it and its bases are
declared with. -/
theorem allInterfaces_eq (w : Workspace) (id : TypeId) :
  w.allInterfaces id
    = w.bases id >>= fun chain => w.inheritedInterfaces ((id :: chain).flatMap w.interfacesOf)
  := by
  cases hbases : w.bases id with
  | error e =>
      rw [allInterfaces, hbases]
      cases hview : w.view id with
      | error e' =>
          rw [bases, hview] at hbases
          cases hbases
          rfl
      | ok s => rfl
  | ok chain =>
      have hknown := knows_bases hbases
      obtain ⟨s, hs, hview⟩ := view_of_knows (hknown id List.mem_cons_self)
      rw [allInterfaces, hview, hbases]
      change ((chain.mapM fun x => return (← w.view x).interfaces) >>= _) = w.inheritedInterfaces _
      rw [mapM_interfaces fun x hx => hknown x (List.mem_cons_of_mem id hx), List.flatMap_cons,
        interfacesOf, hs]
      rfl

/-- What interface links lead to from the declarations of a type and its bases. -/
theorem reaches_interfacesOf (h : w.bases id = .ok chain) (x : TypeId) :
  w.Reaches ((id :: chain).flatMap w.interfacesOf) x ↔ w.Implements id x
  := by
  have hdeclared : ∀ c i, i ∈ w.interfacesOf c ↔ w.HasInterface c i := by
    intro c i
    rw [interfacesOf, HasInterface]
    cases w.view? c <;> simp
  have hmem : ∀ c, c ∈ id :: chain ↔ ReflTransGen w.HasBase id c := by
    intro c
    rw [List.mem_cons, mem_bases_iff h, reflTransGen_iff_eq_or_transGen]
    rfl
  simp only [Reaches, Implements, List.mem_flatMap, hmem, hdeclared]
  constructor
  · rintro ⟨i, ⟨c, hc, hi⟩, hpath⟩
    exact ⟨c, i, hc, hi, hpath⟩
  · rintro ⟨c, i, hc, hi, hpath⟩
    exact ⟨i, ⟨c, hc, hi⟩, hpath⟩

end

/-! ## All searches -/

/-- How the searches of a unit end.  From a type that is known, following base links ends with
circular inheritance where they come to a type again, with a type that they lead to and that is not
known, or with the types along them.  Following interface links ends with all types that they lead
to, each once and the first root in front, or with one that is not known.  Looking members up takes
these searches and single passes over what they have found. -/
structure SearchesEnd (w : Workspace) : Prop where
  climbs : ∀ id s, w.view? id = some s →
    ∃ n ≤ w.typeCount + 1, w.Climbs id n [id] s.base (w.bases id)
  circular : ∀ id, w.Knows id →
    ((∃ fullName, w.bases id = .error (.circularInheritance fullName)) ↔ w.Revisits id)
  unknown : ∀ id x, w.Knows id →
    (w.bases id = .error (.unknownType x) ↔ w.Below id x ∧ ¬ w.Knows x)
  ascends : ∀ id chain, w.Knows id → (w.bases id = .ok chain ↔ w.Ascends id chain)
  decided : ∀ id, w.Knows id →
    w.Revisits id ∨ (∃ x, w.Below id x ∧ ¬ w.Knows x) ∨ ∃ chain, w.Ascends id chain
  collects : ∀ roots,
    ∃ n ≤ roots.length + w.interfaceLinks, w.Collects n [] roots (w.inheritedInterfaces roots)
  collected : ∀ roots, w.Collected roots (w.inheritedInterfaces roots)
  complete : ∀ roots,
    (∃ found, w.inheritedInterfaces roots = .ok found) ↔ ∀ x, w.Reaches roots x → w.Knows x
  field : ∀ id name, w.findField id name
    = w.bases id >>= fun chain => w.resolve id name ((id :: chain).findSome? (w.fieldOf name))
  method : ∀ id name params, w.findMethod id name params
    = w.bases id >>= fun chain => ((id :: chain).findSome? (w.methodOf name params)).elim
      (w.furtherInterfaces id >>= fun found =>
        w.resolve id name (found.findSome? (w.methodOf name params))) .ok
  interfaces : ∀ id, w.allInterfaces id
    = w.bases id >>= fun chain => w.inheritedInterfaces ((id :: chain).flatMap w.interfacesOf)
  implemented : ∀ id chain, w.bases id = .ok chain → ∀ x,
    w.Reaches ((id :: chain).flatMap w.interfacesOf) x ↔ w.Implements id x

/-- All searches end, whatever the links of a unit are like: they may form cycles, and they may lead
to types that have gone. -/
theorem searches_end (w : Workspace) : w.SearchesEnd where
  climbs _ _ hs := climbs_bases hs
  circular _ h := bases_circular_iff h
  unknown _ _ h := bases_unknown_iff h
  ascends _ _ h := bases_ok_iff h
  decided _ h := decided_of_knows h
  collects roots := w.collects_inheritedInterfaces roots
  collected roots := w.collected_inheritedInterfaces roots
  complete roots := (w.collected_inheritedInterfaces roots).ok_iff
  field id name := w.findField_eq id name
  method id name params := w.findMethod_eq id name params
  interfaces id := w.allInterfaces_eq id
  implemented _ _ h := reaches_interfacesOf h

end Workspace

namespace Project

/-- Two classes that are the bases of each other, and two interfaces that inherit each other. -/
def turning : List (HostEvent Unit) :=
  [ .build (.openUnit "A"),
    .build (.change 0 (.declareType "P" .classType {} none)),
    .build (.change 0 (.declareType "Q" .classType { base := some (.defined ⟨⟨1⟩, .classType⟩) } none)),
    .build (.change 0 (.setBase ⟨1⟩ (.defined ⟨⟨2⟩, .classType⟩))),
    .build (.change 0 (.declareType "I" .interfaceType {} none)),
    .build (.change 0 (.declareType "J" .interfaceType
      { interfaces := [.defined ⟨⟨3⟩, .interfaceType⟩] } none)),
    .build (.change 0 (.addInterface ⟨3⟩ (.defined ⟨⟨4⟩, .interfaceType⟩)))]

example :
  ∃ a, ((empty true).run turning).units[0]? = some a
    ∧ (((empty true).run turning).workspace a).bases ⟨1⟩ = .error (.circularInheritance "P")
    ∧ (((empty true).run turning).workspace a).inheritedInterfaces [⟨3⟩] = .ok [⟨3⟩, ⟨4⟩]
  := by
  refine ⟨_, rfl, ?_, ?_⟩ <;> decide +kernel

/-- Types of a second unit with links to a class and an interface of the first one, from before the
session has forgotten what it had realized. -/
def forgetting : List (HostEvent Unit) :=
  [ .build (.openUnit "A"),
    .build (.change 0 (.declareType "B" .classType {} none)),
    .build (.change 0 (.declareType "K" .interfaceType {} none)),
    .build (.change 0 .finalize),
    .build (.openUnit "U"),
    .build (.change 1 (.declareType "X" .classType { base := some (.defined ⟨⟨1⟩, .classType⟩) } none)),
    .build (.change 1 (.defineMethod ⟨3⟩ "M" { params := some [], returnType := some .void } .minimal)),
    .build (.change 1 (.declareType "C" .classType { base := some (.defined ⟨⟨3⟩, .classType⟩) } none)),
    .build (.change 1 (.declareType "J" .interfaceType
      { interfaces := [.defined ⟨⟨2⟩, .interfaceType⟩] } none)),
    .build (.change 1 (.defineMethod ⟨5⟩ "N" { params := some [], returnType := some .void } .minimal)),
    .build (.change 1 (.declareType "I" .interfaceType
      { interfaces := [.defined ⟨⟨5⟩, .interfaceType⟩] } none)),
    .clear ]

/-- The bases of `C` are not answered, though no type is met again, and the interfaces that `I`
inherits are not answered, though `I` is known.  So neither `M` is found in the base `X` of `C` nor
`N` in the interface `J` that `I` inherits. -/
theorem not_links_answered :
  ∃ a, ((empty true).run forgetting).units[1]? = some a
    ∧ (¬ ∀ id, (((empty true).run forgetting).workspace a).Knows id →
      ¬ (((empty true).run forgetting).workspace a).Revisits id →
      ∃ chain, (((empty true).run forgetting).workspace a).bases id = .ok chain)
    ∧ (¬ ∀ roots, (∀ r ∈ roots, (((empty true).run forgetting).workspace a).Knows r) →
      ∃ found, (((empty true).run forgetting).workspace a).inheritedInterfaces roots = .ok found)
    ∧ (((empty true).run forgetting).workspace a).findMethod ⟨4⟩ "M" (some [])
      = .error (.unknownType ⟨1⟩)
    ∧ (((empty true).run forgetting).workspace a).findMethod ⟨6⟩ "N" (some [])
      = .error (.unknownType ⟨2⟩)
  := by
  obtain ⟨a, ha, hC, hI, hbases, hinterfaces, hM, hN⟩ :
      ∃ a, ((empty true).run forgetting).units[1]? = some a
      ∧ ((((empty true).run forgetting).workspace a).view? ⟨4⟩).isSome = true
      ∧ ((((empty true).run forgetting).workspace a).view? ⟨6⟩).isSome = true
      ∧ (((empty true).run forgetting).workspace a).bases ⟨4⟩ = .error (.unknownType ⟨1⟩)
      ∧ (((empty true).run forgetting).workspace a).inheritedInterfaces [⟨6⟩]
        = .error (.unknownType ⟨2⟩)
      ∧ (((empty true).run forgetting).workspace a).findMethod ⟨4⟩ "M" (some [])
        = .error (.unknownType ⟨1⟩)
      ∧ (((empty true).run forgetting).workspace a).findMethod ⟨6⟩ "N" (some [])
        = .error (.unknownType ⟨2⟩) := by
    refine ⟨_, rfl, ?_, ?_, ?_, ?_, ?_, ?_⟩ <;> decide +kernel
  refine ⟨a, ha, ?_, ?_, hM, hN⟩
  · intro hall
    obtain ⟨chain, hchain⟩ := hall ⟨4⟩ hC fun hrevisits => by
      obtain ⟨fullName, hcircular⟩ := (Workspace.bases_circular_iff hC).mpr hrevisits
      rw [hbases] at hcircular
      cases hcircular
    rw [hbases] at hchain
    cases hchain
  · intro hall
    obtain ⟨found, hfound⟩ := hall [⟨6⟩] fun r hr => by
      rw [List.mem_singleton.mp hr]
      exact hI
    rw [hinterfaces] at hfound
    cases hfound

end Project

end ManagedCode
