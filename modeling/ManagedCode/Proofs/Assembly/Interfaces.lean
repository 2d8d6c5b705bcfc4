import ManagedCode.Proofs.Assembly.Bases

/-!
# Interfaces of a type

The search for interfaces follows each link of a type that it meets, and meets each type once,
so that it needs no more steps than there are links: what it finds is exactly what interface
links lead to (`mem_inheritedInterfaces_iff`).  The interfaces of a type are what they lead to
from the type and from its bases (`mem_allInterfaces_iff`).
-/

namespace ManagedCode.Workspace

open Relation

variable {w : Workspace}

/-- A type has an interface link to another one. -/
def HasInterface (w : Workspace) (c i : TypeId) : Prop :=
  ∃ s, w.view? c = some s ∧ i ∈ s.interfaces

/-- Interface links lead to a type from another one or from its bases. -/
def Implements (w : Workspace) (x y : TypeId) : Prop :=
  ∃ c i, ReflTransGen w.HasBase x c ∧ w.HasInterface c i ∧ ReflTransGen w.HasInterface i y

/-- A type is below another one or implements it. -/
def Depends (w : Workspace) (x y : TypeId) : Prop :=
  w.Below x y ∨ w.Implements x y

/-! ## The fuel of the search -/

section

variable {α : Type} {key : α → TypeId} {f : α → Nat} {xs : List α} {seen : List TypeId}

/-- A sum over what has not been visited. -/
def unseenSum (key : α → TypeId) (f : α → Nat) (xs : List α) (seen : List TypeId) : Nat :=
  (xs.filter fun x => !seen.contains (key x)).foldr (fun x n => f x + n) 0

theorem unseenSum_cons (x : α) :
  unseenSum key f (x :: xs) seen
    = (if key x ∈ seen then 0 else f x) + unseenSum key f xs seen
  := by
  rw [unseenSum]
  rw [List.filter_cons]
  by_cases hx : key x ∈ seen <;> simp [hx, unseenSum]

theorem unseenSum_nil {β : Type} (key : α → TypeId) (g : α → List β) (xs : List α) :
  unseenSum key (fun x => (g x).length) xs [] = (xs.flatMap g).length
  := by
  induction xs with
  | nil => rfl
  | cons x xs ih =>
      rw [unseenSum_cons, ih]
      simp

theorem unseenSum_le (key : α → TypeId) (f : α → Nat) (xs : List α) (seen : List TypeId) (x : TypeId) :
  unseenSum key f xs (x :: seen) ≤ unseenSum key f xs seen
  := by
  induction xs with
  | nil => apply Nat.le_refl
  | cons y xs ih =>
      rw [unseenSum_cons, unseenSum_cons]
      have hone : (if key y ∈ x :: seen then 0 else f y) ≤ if key y ∈ seen then 0 else f y := by
        by_cases hy : key y ∈ seen
        · simp [hy]
        · rw [if_neg hy]
          split <;> omega
      omega

/-- A visit takes what is visited out of the sum. -/
theorem unseenSum_visit {x : α} (hx : x ∈ xs) (hseen : key x ∉ seen) :
  unseenSum key f xs (key x :: seen) + f x ≤ unseenSum key f xs seen
  := by
  induction xs with
  | nil => cases hx
  | cons y xs ih =>
      rw [unseenSum_cons, unseenSum_cons]
      obtain rfl | hx := List.mem_cons.mp hx
      · rw [if_pos List.mem_cons_self, if_neg hseen]
        have := unseenSum_le key f xs seen (key x)
        omega
      · have hrest := ih hx
        have hone : (if key y ∈ key x :: seen then 0 else f y)
            ≤ if key y ∈ seen then 0 else f y := by
          by_cases hy : key y ∈ seen
          · simp [hy]
          · rw [if_neg hy]
            split <;> omega
        omega

end

/-- The number of interface links of the types that have not been visited. -/
def unseenLinks (w : Workspace) (seen : List TypeId) : Nat :=
  unseenSum TypeDecl.id (·.interfaces.length) w.assembly.types seen
    + unseenSum RealizedType.id (·.interfaces.length) w.session.types seen

theorem unseenLinks_nil (w : Workspace) : w.unseenLinks [] = w.interfaceLinks := by
  rw [unseenLinks]
  rw [unseenSum_nil, unseenSum_nil]
  rfl

/-- A visit takes the links of a type out of those that there are. -/
theorem unseenLinks_visit
    {seen : List TypeId} {x : TypeId} {s : TypeView} (hs : w.view? x = some s) (hx : x ∉ seen) :
  w.unseenLinks (x :: seen) + s.interfaces.length ≤ w.unseenLinks seen
  := by
  rw [unseenLinks]
  rw [unseenLinks]
  cases hd : w.assembly.decl? x with
  | some d =>
      rw [view?_of_decl hd] at hs
      cases hs
      obtain rfl := Assembly.decl?_id hd
      have hvisit := unseenSum_visit (f := fun d : TypeDecl => d.interfaces.length)
        (List.mem_of_find?_eq_some hd) hx
      have hother := unseenSum_le RealizedType.id (·.interfaces.length) w.session.types seen d.id
      have hlength : (TypeView.ofDecl d).interfaces.length ≤ d.interfaces.length := by
        apply List.length_filterMap_le
      omega
  | none =>
      rw [view?_of_no_decl hd] at hs
      obtain ⟨t, ht, rfl⟩ := Option.map_eq_some_iff.mp hs
      obtain rfl : t.id = x := by simpa using List.find?_some ht
      have hvisit := unseenSum_visit (f := fun t : RealizedType => t.interfaces.length)
        (List.mem_of_find?_eq_some ht) hx
      have hother := unseenSum_le TypeDecl.id (·.interfaces.length) w.assembly.types seen t.id
      change _ + t.interfaces.length ≤ _
      omega

/-! ## What the search finds -/

/-- What the search finds comes from what is pending, and with all that has been seen it holds
what is pending and everything that links lead to. -/
structure Found (w : Workspace) (seen pending found : List TypeId) : Prop where
  origin : ∀ x ∈ found, ∃ r ∈ pending, ReflTransGen w.HasInterface r x
  pending : ∀ x ∈ pending, x ∈ found ∨ x ∈ seen
  closed : ∀ x ∈ found, ∀ y, w.HasInterface x y → y ∈ found ∨ y ∈ seen

theorem Found.visit
    {seen pending found : List TypeId} {x : TypeId} {s : TypeView} (hs : w.view? x = some s)
    (h : w.Found (x :: seen) (s.interfaces ++ pending) found) :
  w.Found seen (x :: pending) (x :: found)
  := by
  have hmem : ∀ y, y ∈ found ∨ y ∈ x :: seen → y ∈ x :: found ∨ y ∈ seen := by
    intro y hy
    simp only [List.mem_cons] at hy ⊢
    tauto
  constructor
  · intro y hy
    obtain rfl | hy := List.mem_cons.mp hy
    · exact ⟨y, List.mem_cons_self, .refl⟩
    · obtain ⟨r, hr, hpath⟩ := h.origin y hy
      obtain hr | hr := List.mem_append.mp hr
      · exact ⟨x, List.mem_cons_self, hpath.head ⟨s, hs, hr⟩⟩
      · exact ⟨r, List.mem_cons_of_mem x hr, hpath⟩
  · intro y hy
    obtain rfl | hy := List.mem_cons.mp hy
    · left
      apply List.mem_cons_self
    · apply hmem
      apply h.pending y (List.mem_append_right _ hy)
  · intro y hy z hz
    apply hmem
    obtain rfl | hy := List.mem_cons.mp hy
    · obtain ⟨s', hs', hz⟩ := hz
      rw [hs] at hs'
      cases hs'
      apply h.pending z (List.mem_append_left _ hz)
    · apply h.closed y hy z hz

theorem inheritedInterfacesFrom_ok
    {fuel : Nat} {seen pending found : List TypeId}
    (hfuel : pending.length + w.unseenLinks seen ≤ fuel)
    (h : w.inheritedInterfacesFrom fuel seen pending = .ok found) :
  w.Found seen pending found
  := by
  induction fuel generalizing seen pending found with
  | zero =>
      cases pending with
      | nil =>
          cases h
          constructor <;> simp
      | cons x pending =>
          rw [List.length_cons] at hfuel
          omega
  | succ fuel ih =>
      cases pending with
      | nil =>
          cases h
          constructor <;> simp
      | cons x pending =>
          rw [List.length_cons] at hfuel
          rw [inheritedInterfacesFrom] at h
          split at h
          · next hseen =>
            have hfound := ih (by omega) h
            constructor
            · intro y hy
              obtain ⟨r, hr, hpath⟩ := hfound.origin y hy
              exact ⟨r, List.mem_cons_of_mem x hr, hpath⟩
            · intro y hy
              obtain rfl | hy := List.mem_cons.mp hy
              · right
                simpa using hseen
              · apply hfound.pending y hy
            · apply hfound.closed
          · next hseen =>
            obtain ⟨s, hs, h⟩ := exists_of_bind_ok h
            obtain ⟨rest, hrest, h⟩ := exists_of_bind_ok h
            cases h
            have hvisit := unseenLinks_visit (view_ok hs) (by simpa using hseen)
            apply Found.visit (view_ok hs)
            apply ih _ hrest
            rw [List.length_append]
            omega

/-- What interface links lead to from the given types. -/
theorem mem_inheritedInterfaces_iff
    {roots found : List TypeId} (h : w.inheritedInterfaces roots = .ok found) (x : TypeId) :
  x ∈ found ↔ ∃ r ∈ roots, ReflTransGen w.HasInterface r x
  := by
  have hfound : w.Found [] roots found := by
    apply inheritedInterfacesFrom_ok _ h
    apply Nat.le_of_eq
    rw [unseenLinks_nil]
  constructor
  · apply hfound.origin
  · rintro ⟨r, hr, hpath⟩
    induction hpath with
    | refl => simpa using hfound.pending r hr
    | tail _ hstep ih => simpa using hfound.closed _ ih _ hstep

/-- The interface links of several types. -/
theorem mem_viewInterfaces_iff
    {ids : List TypeId} {interfaces : List (List TypeId)}
    (h : (ids.mapM fun id => return (← w.view id).interfaces) = .ok interfaces) (i : TypeId) :
  i ∈ interfaces.flatten ↔ ∃ c ∈ ids, w.HasInterface c i
  := by
  induction ids generalizing interfaces with
  | nil =>
      cases h
      simp
  | cons c ids ih =>
      rw [List.mapM_cons] at h
      obtain ⟨first, hfirst, h⟩ := exists_of_bind_ok h
      obtain ⟨rest, hrest, h⟩ := exists_of_bind_ok h
      obtain ⟨s, hs, hfirst⟩ := exists_of_bind_ok hfirst
      cases h
      cases hfirst
      rw [List.flatten_cons, List.mem_append, ih hrest, List.exists_mem_cons_iff]
      apply or_congr_left
      rw [HasInterface, view_ok hs]
      simp

/-- The interfaces of a type. -/
theorem mem_allInterfaces_iff
    {id : TypeId} {found : List TypeId} (h : w.allInterfaces id = .ok found) (x : TypeId) :
  x ∈ found ↔ w.Implements id x
  := by
  obtain ⟨s, hs, h⟩ := exists_of_bind_ok h
  obtain ⟨bases, hbases, h⟩ := exists_of_bind_ok h
  obtain ⟨inherited, hinherited, h⟩ := exists_of_bind_ok h
  rw [mem_inheritedInterfaces_iff h]
  have hroot : ∀ i, i ∈ s.interfaces ++ inherited.flatten
      ↔ ∃ c, ReflTransGen w.HasBase id c ∧ w.HasInterface c i := by
    intro i
    rw [List.mem_append, mem_viewInterfaces_iff hinherited]
    constructor
    · rintro (hi | ⟨c, hc, hi⟩)
      · exact ⟨id, .refl, s, view_ok hs, hi⟩
      · exact ⟨c, ((mem_bases_iff hbases c).mp hc).to_reflTransGen, hi⟩
    · rintro ⟨c, hpath, hi⟩
      obtain rfl | hbelow := reflTransGen_iff_eq_or_transGen.mp hpath
      · obtain ⟨s', hs', hi⟩ := hi
        rw [view_ok hs] at hs'
        cases hs'
        left
        apply hi
      · right
        exact ⟨c, (mem_bases_iff hbases c).mpr hbelow, hi⟩
  constructor
  · rintro ⟨i, hi, hpath⟩
    obtain ⟨c, hc, hi⟩ := (hroot i).mp hi
    exact ⟨c, i, hc, hi, hpath⟩
  · rintro ⟨c, i, hc, hi, hpath⟩
    exact ⟨i, (hroot i).mpr ⟨c, hc, hi⟩, hpath⟩

/-- Whether a type depends on another one. -/
theorem dependsOn_ok_iff
    {id other : TypeId} {depends : Bool} (h : w.dependsOn id other = .ok depends) :
  depends = true ↔ w.Depends id other
  := by
  obtain ⟨bases, hbases, h⟩ := exists_of_bind_ok h
  rw [Depends, ← mem_bases_iff hbases]
  split at h
  · next hmem =>
    cases h
    exact iff_of_true rfl (.inl (by simpa using hmem))
  · next hmem =>
    obtain ⟨interfaces, hinterfaces, h⟩ := exists_of_bind_ok h
    cases h
    rw [← mem_allInterfaces_iff hinterfaces, List.contains_iff_mem]
    rw [List.contains_iff_mem] at hmem
    exact ⟨.inr, fun h => h.resolve_left hmem⟩

end ManagedCode.Workspace
