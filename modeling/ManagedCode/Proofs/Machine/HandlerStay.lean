import ManagedCode.Proofs.Emitter.Nesting
import ManagedCode.Proofs.Machine.Activation

/-!
# Staying in a handler

A frame records what each of its handlers was entered for: a catch handler with the
exception, a finally handler with what goes on after it.  While control stays in a
handler of a well nested body, the record of that handler is safe from everything
but an exception.  Raising one inside the handler gives the record up, also when a
region inside of the same handler catches the exception, and nothing brings it back.
-/

namespace ManagedCode

/-- What an endfinally asks for when it has ended a handler. -/
def AfterFinally.goOn : AfterFinally → Frame → Request
  | leave _ target remaining, f => .proceed (f.continueTo target remaining)
  | unwind _ exception, f => .raise f exception

/-- The finally region that is entered next. -/
def AfterFinally.next? : AfterFinally → Option Nat
  | leave _ _ remaining => remaining.head?
  | unwind _ _ => none

theorem Surroundings.endFinally_cons
    {f : Frame} {k : AfterFinally} {rest : List AfterFinally} (hpending : f.pending = k :: rest) :
  endFinally f = .ok (k.goOn { f with stack := [], pending := rest })
  := by
  rw [endFinally]
  rw [hpending]
  cases k <;> rfl

/-! ## Steps that change the records -/

namespace Activation

def IsRaising (a : Activation) : Prop :=
  ∃ exception, a.phase = .raising exception

/-- A frame is about to leave its range for a target. -/
def LeavesFor (a : Activation) (target : Nat) : Prop :=
  a.phase = .ready ∧ ∃ w l, a.frame.body.instructions[a.frame.ip]? = some ⟨.leave w, .label l⟩
    ∧ a.frame.body.target? l = some target

/-- A frame is about to end a finally handler and to go on as recorded. -/
def Ends (a : Activation) (k : AfterFinally) : Prop :=
  a.phase = .ready ∧ ∃ operand rest,
    a.frame.body.instructions[a.frame.ip]? = some ⟨.endfinally, operand⟩
    ∧ a.frame.pending = k :: rest

/-- What a step does to the records of a frame. -/
inductive Turn (a b : Activation) : Prop
  | keep (hquiet : ¬ a.IsRaising) (hhandling : b.frame.handling = a.frame.handling)
      (hpending : b.frame.pending = a.frame.pending)
  | leave {target : Nat} (hleaves : a.LeavesFor target)
      (hframe : b.frame = a.frame.leave target)
  | endLeave {region target : Nat} {remaining : List Nat} {rest : List AfterFinally}
      (hends : a.Ends (.leave region target remaining))
      (hpending : a.frame.pending = .leave region target remaining :: rest)
      (hframe : b.frame
        = { a.frame with stack := [], pending := rest }.continueTo target remaining)
  | endUnwind {region : Nat} {exception : Value} {rest : List AfterFinally}
      (hends : a.Ends (.unwind region exception))
      (hpending : a.frame.pending = .unwind region exception :: rest)
      (hframe : b.frame = { a.frame with stack := [], pending := rest })
  | caught {exception : Value} {index : Nat} {r : Region}
      (hraising : a.phase = .raising exception) (hr : a.frame.body.regions[index]? = some r)
      (hprotects : r.protects a.frame.ip)
      (hcatches : a.frame.abandonHandlers.Catches exception index r b.frame)

theorem Step.turn
    {session : Session} {limit : Nat} {a b : Activation} (hstep : Step session limit a b) :
  Turn a b
  := by
  cases hstep with
  | @execute f i heap heap' request b hinstruction hexecute hafter =>
      have hquiet : ¬ IsRaising ⟨f, .ready⟩ := by rintro ⟨exception, ⟨⟩⟩
      cases Surroundings.execute_outcome hexecute with
      | next _ _ hg _ | branch _ _ hg _ | throw _ hg _ _ | invoke _ _ _ hg _ _ _
      | callStatic _ _ _ hg _ _ | construct _ _ _ _ hg _ _ | storeStatic _ hg _ _ =>
          obtain rfl := Option.some.inj hafter
          exact .keep hquiet hg.handling hg.pending
      | @leave w l target hop hlabel htarget =>
          obtain rfl := Option.some.inj hafter
          obtain ⟨op, operand⟩ := i
          obtain rfl : op = .leave w := hop
          obtain rfl : operand = .label l := hlabel
          exact .leave ⟨rfl, w, l, hinstruction, htarget⟩ rfl
      | endLeave hop hpending =>
          obtain rfl := Option.some.inj hafter
          obtain ⟨op, operand⟩ := i
          obtain rfl : op = .endfinally := hop
          exact .endLeave ⟨rfl, operand, _, hinstruction, hpending⟩ hpending rfl
      | endUnwind hop hpending =>
          obtain rfl := Option.some.inj hafter
          obtain ⟨op, operand⟩ := i
          obtain rfl : op = .endfinally := hop
          exact .endUnwind ⟨rfl, operand, _, hinstruction, hpending⟩ hpending rfl
      | rethrow _ _ | loadStatic _ =>
          obtain rfl := Option.some.inj hafter
          exact .keep hquiet rfl rfl
      | finish _ _ => cases hafter
  | handled hraise =>
      obtain ⟨index, r, hr, hprotects, hcatches⟩ := Frame.raise_ok hraise
      exact .caught rfl hr hprotects hcatches
  | result hpush | object hpush | loaded hpush =>
      obtain ⟨hg, -⟩ := Frame.push_ok hpush
      exact .keep (by rintro ⟨exception, ⟨⟩⟩) hg.handling hg.pending
  | passed | dropped | stored | called | constructed =>
      exact .keep (by rintro ⟨exception, ⟨⟩⟩) rfl rfl

/-! ## One step of a stay -/

/-- A frame is in the handler of a region, is not about to leave it, and ends neither
this handler nor one after which it would be entered again. -/
structure StaysIn (index : Nat) (r : Region) (a : Activation) : Prop where
  inside : r.inHandler a.frame.ip
  leaves : ∀ target, a.LeavesFor target → r.inHandler target
  ends : ∀ k, a.Ends k → k.region ≠ index ∧ k.next? ≠ some index

theorem StaysIn.of_plain {index : Nat} {r : Region} {a : Activation} {i : Instruction}
    (hinside : r.inHandler a.frame.ip)
    (hinstruction : a.frame.body.instructions[a.frame.ip]? = some i)
    (hplain : i.opcode.stackEffect ≠ .clear) :
  a.StaysIn index r
  := by
  constructor
  · exact hinside
  · rintro target ⟨-, w, l, hleave, -⟩
    obtain rfl := Option.some.inj (hinstruction.symm.trans hleave)
    apply absurd rfl hplain
  · rintro k ⟨-, operand, rest, hend, -⟩
    obtain rfl := Option.some.inj (hinstruction.symm.trans hend)
    apply absurd rfl hplain

theorem StaysIn.of_leave {index : Nat} {r : Region} {a : Activation} {w : Width} {l : Label}
    {target : Nat} (hinside : r.inHandler a.frame.ip)
    (hinstruction : a.frame.body.instructions[a.frame.ip]? = some ⟨.leave w, .label l⟩)
    (htarget : a.frame.body.target? l = some target) (hstays : r.inHandler target) :
  a.StaysIn index r
  := by
  constructor
  · exact hinside
  · rintro target' ⟨-, w', l', hleave, htarget'⟩
    cases hinstruction.symm.trans hleave
    obtain rfl := Option.some.inj (htarget.symm.trans htarget')
    exact hstays
  · rintro k ⟨-, operand, rest, hend, -⟩
    cases hinstruction.symm.trans hend

end Activation

namespace Region

/-- A handler is around that of another region, or is the same. -/
def Covers (s r : Region) : Prop :=
  s.handlerStart ≤ r.handlerStart ∧ r.handlerEnd ≤ s.handlerEnd

theorem Covers.inHandler {s r : Region} {ip : Nat} (hcovers : s.Covers r) (hip : r.inHandler ip) :
  s.inHandler ip
  := by
  obtain ⟨hstart, hend⟩ := hcovers
  rw [inHandler_iff] at hip ⊢
  omega

end Region

namespace MethodBody

variable {body : MethodBody} {index j : Nat} {r s : Region} {ip : Nat}

/-- The handler of a numbered region is not around that of `r`. -/
def Apart (body : MethodBody) (r : Region) (j : Nat) : Prop :=
  ∀ s, body.regions[j]? = some s → ¬ s.Covers r

theorem Apart.ne (hr : body.regions[index]? = some r) (hapart : body.Apart r j) : j ≠ index := by
  rintro rfl
  apply hapart r hr ⟨Nat.le_refl _, Nat.le_refl _⟩

/-- A handler that starts in another one is inside of it. -/
theorem WellNested.apart_of_start
    (hbody : body.WellNested) (hr : body.regions[index]? = some r)
    (hs : body.regions[j]? = some s) (hne : j ≠ index) (hstart : r.inHandler s.handlerStart) :
  body.Apart r j
  := by
  intro t ht hcovers
  obtain rfl := Option.some.inj (hs.symm.trans ht)
  have hproper := hbody.proper s (List.mem_of_getElem? hs)
  have hself : s.inHandler s.handlerStart :=
    Region.inHandler_iff.mpr ⟨Nat.le_refl _, hproper.nonempty⟩
  rw [Region.inHandler_iff] at hstart
  rcases hbody.nested.cases hs hr hself (Region.inHandler_iff.mpr hstart) with heq | hin | hin
  · apply hne heq
  · have := hin.1
    have := hcovers.1
    omega
  · have := hin.1
    omega

/-- A handler without an instruction is not around one with it. -/
theorem apart_of_not_inHandler
    (hs : body.regions[j]? = some s) (hip : r.inHandler ip) (hnot : ¬ s.inHandler ip) :
  body.Apart r j
  := by
  intro t ht hcovers
  obtain rfl := Option.some.inj (hs.symm.trans ht)
  apply hnot (hcovers.inHandler hip)

end MethodBody

namespace Frame

variable {f : Frame}

/-- Going on to a target enters the first of the finally handlers on the way. -/
theorem continueTo_cases (f : Frame) (target : Nat) (remaining : List Nat) :
  (f.continueTo target remaining).handling = f.handling
    ∧ ((f.continueTo target remaining).pending = f.pending
      ∨ ∃ j rest, remaining.head? = some j
        ∧ (f.continueTo target remaining).pending = .leave j target rest :: f.pending
        ∧ ∀ s, f.body.regions[j]? = some s →
          (f.continueTo target remaining).ip = s.handlerStart)
  := by
  cases remaining with
  | nil => exact ⟨rfl, .inl rfl⟩
  | cons j rest =>
      refine ⟨rfl, .inr ⟨j, rest, rfl, rfl, ?_⟩⟩
      intro s hs
      rw [continueTo, enterFinally, hs]
      rfl

end Frame

namespace Activation

section

variable {session : Session} {limit : Nat} {body : MethodBody} {index : Nat} {r : Region}
  {a b : Activation}

/-- What goes on the pending list as control goes on within a handler. -/
theorem continueTo_apart
    (hbody : body.WellNested) (hr : body.regions[index]? = some r) {f : Frame} {target : Nat}
    {remaining : List Nat} (hf : f.body = body) (hnext : remaining.head? ≠ some index)
    (hinside : r.inHandler (f.continueTo target remaining).ip) :
  ∃ news, (f.continueTo target remaining).pending = news ++ f.pending
    ∧ ∀ k ∈ news, body.Apart r k.region
  := by
  obtain ⟨-, hsame | ⟨j, rest, hj, hpending, hstart⟩⟩ := f.continueTo_cases target remaining
  · exact ⟨[], hsame, by rintro k ⟨⟩⟩
  · refine ⟨[.leave j target rest], hpending, ?_⟩
    intro k hk
    obtain rfl := List.mem_singleton.mp hk
    intro s hs
    have hne : j ≠ index := by
      rintro rfl
      apply hnext hj
    rw [hstart s (by rw [hf]; exact hs)] at hinside
    apply hbody.apart_of_start hr hs hne hinside s hs

/-- A step that raises nothing keeps the exception of the handler, and takes at most
one continuation, not that of the handler, from the pending ones. -/
theorem Step.stay_of_quiet
    (hstep : Step session limit a b) (hbody : body.WellNested) (ha : a.frame.body = body)
    (hr : body.regions[index]? = some r) (hstays : a.StaysIn index r) (hquiet : ¬ a.IsRaising)
    (hinside : r.inHandler b.frame.ip) :
  (∃ p : Nat × Value → Bool, b.frame.handling = a.frame.handling.filter p
      ∧ ∀ v, p (index, v) = true)
    ∧ ∃ news kept, b.frame.pending = news ++ kept ∧ (∀ k ∈ news, body.Apart r k.region)
      ∧ (kept = a.frame.pending ∨ ∃ k, k.region ≠ index ∧ a.frame.pending = k :: kept)
  := by
  have hall : a.frame.handling.filter (fun _ => true) = a.frame.handling :=
    List.filter_eq_self.mpr fun _ _ => rfl
  cases hstep.turn with
  | keep _ hhandling hpending =>
      refine ⟨⟨fun _ => true, ?_, fun _ => rfl⟩, [], _, hpending, by rintro k ⟨⟩, .inl rfl⟩
      rw [hhandling, hall]
  | @leave target hleaves hframe =>
      have hproper := hbody.proper r (List.mem_of_getElem? hr)
      rw [hframe, Frame.leave] at hinside
      have hnext : (a.frame.finalliesBetween a.frame.ip target).head? ≠ some index := by
        intro hhead
        obtain ⟨s, hs, -, hprotects⟩ := Frame.mem_finalliesBetween (List.mem_of_head? hhead)
        rw [ha, hr] at hs
        obtain rfl := Option.some.inj hs
        apply hproper.not_inHandler hprotects hstays.inside
      obtain ⟨news, hnews, hapart⟩ := continueTo_apart hbody hr (by exact ha) hnext hinside
      constructor
      · refine ⟨fun p => a.frame.keepsHandling target p.1, ?_, ?_⟩
        · rw [hframe]
          exact (Frame.continueTo_cases _ _ _).1
        · intro v
          show a.frame.keepsHandling target index = true
          rw [Frame.keepsHandling, ha, hr]
          simp [hstays.leaves target hleaves]
      · rw [hframe]
        exact ⟨news, _, hnews, hapart, .inl rfl⟩
  | @endLeave region target remaining rest hends hpending hframe =>
      obtain ⟨hregion, hnext⟩ := hstays.ends _ hends
      rw [hframe] at hinside
      obtain ⟨news, hnews, hapart⟩ := continueTo_apart hbody hr (by exact ha) hnext hinside
      constructor
      · refine ⟨fun _ => true, ?_, fun _ => rfl⟩
        rw [hframe, (Frame.continueTo_cases _ _ _).1, hall]
      · rw [hframe]
        exact ⟨news, _, hnews, hapart, .inr ⟨_, hregion, hpending⟩⟩
  | @endUnwind region exception rest hends hpending hframe =>
      obtain ⟨hregion, -⟩ := hstays.ends _ hends
      rw [hframe]
      refine ⟨⟨fun _ => true, ?_, fun _ => rfl⟩, [], rest, rfl, by rintro k ⟨⟩,
        .inr ⟨_, hregion, hpending⟩⟩
      rw [hall]
  | caught hraising _ _ _ => apply absurd ⟨_, hraising⟩ hquiet

/-- An exception that is raised in a handler leaves no record of it, nor of any other
handler around it. -/
theorem Step.stay_of_raising
    (hstep : Step session limit a b) (hbody : body.WellNested) (ha : a.frame.body = body)
    (hr : body.regions[index]? = some r) (hip : r.inHandler a.frame.ip) (hraising : a.IsRaising)
    (hinside : r.inHandler b.frame.ip) :
  (∀ p ∈ b.frame.handling, body.Apart r p.1) ∧ ∀ k ∈ b.frame.pending, body.Apart r k.region
  := by
  have habandoned (j : Nat) (hj : (a.frame.body.regions[j]?).any (!·.inHandler a.frame.ip)) :
      body.Apart r j := by
    intro s hs
    rw [ha, hs] at hj
    apply MethodBody.apart_of_not_inHandler hs hip (by simpa using hj) s hs
  have hproper := hbody.proper r (List.mem_of_getElem? hr)
  cases hstep.turn with
  | caught hphase hs hprotects hcatches =>
      rename_i exception j s
      rw [ha] at hs
      have hne : j ≠ index := by
        rintro rfl
        obtain rfl := Option.some.inj (hr.symm.trans hs)
        apply hproper.not_inHandler hprotects hip
      have hhandling : ∀ p ∈ a.frame.abandonHandlers.handling, body.Apart r p.1 := by
        intro p hp
        apply habandoned p.1 (List.mem_filter.mp hp).2
      have hpending : ∀ k ∈ a.frame.abandonHandlers.pending, body.Apart r k.region := by
        intro k hk
        apply habandoned k.region (List.mem_filter.mp hk).2
      generalize b.frame = g at hcatches hinside ⊢
      cases hcatches with
      | finalizing _ =>
          have hnew := hbody.apart_of_start hr hs hne hinside
          exact ⟨hhandling, List.forall_mem_cons.mpr ⟨hnew, hpending⟩⟩
      | catching _ =>
          have hnew := hbody.apart_of_start hr hs hne hinside
          exact ⟨List.forall_mem_cons.mpr ⟨hnew, hhandling⟩, hpending⟩
  | keep hquiet _ _ => apply absurd hraising hquiet
  | leave hleaves _ =>
      obtain ⟨exception, hphase⟩ := hraising
      cases hleaves.1.symm.trans hphase
  | endLeave hends _ _ | endUnwind hends _ _ =>
      obtain ⟨exception, hphase⟩ := hraising
      cases hends.1.symm.trans hphase

/-! ## A stay -/

/-- A run of a frame that stays in the handler of a region. -/
structure Stay (session : Session) (limit : Nat) (body : MethodBody) (index : Nat) (r : Region)
    (a : Activation) (states : List Activation) (z : Activation) : Prop where
  run : Run session limit a states z
  body_eq : a.frame.body = body
  stays : ∀ x ∈ states, x.StaysIn index r
  inside : r.inHandler z.frame.ip

variable {states : List Activation} {x z : Activation}

theorem Stay.inside_first (hstay : Stay session limit body index r a states z) :
  r.inHandler a.frame.ip
  := by
  cases hstay.run with
  | refl => exact hstay.inside
  | step _ _ => exact (hstay.stays a List.mem_cons_self).inside

theorem Stay.tail
    (hstay : Stay session limit body index r a (a :: states) z) (hstep : Step session limit a b)
    (hrun : Run session limit b states z) :
  Stay session limit body index r b states z
  where
  run := hrun
  body_eq := hstep.sameCall.body.trans hstay.body_eq
  stays := fun x hx => hstay.stays x (List.mem_cons_of_mem _ hx)
  inside := hstay.inside

/-- What the steps of a stay keep, the stay keeps. -/
theorem Stay.keeps {P : Activation → Prop}
    (hstay : Stay session limit body index r a states z)
    (hstep : ∀ x y, x ∈ states → x.frame.body = body → Step session limit x y →
      r.inHandler y.frame.ip → P x → P y)
    (ha : P a) :
  P z
  := by
  have hrun := hstay.run
  induction hrun with
  | refl => exact ha
  | @step a b c states hfirst hrest ih =>
      have htail := hstay.tail hfirst hrest
      apply ih htail fun x y hx => hstep x y (List.mem_cons_of_mem _ hx)
      apply hstep a b List.mem_cons_self hstay.body_eq hfirst htail.inside_first ha

/-- The rest of a stay from one of its states. -/
theorem Stay.after_mem
    (hstay : Stay session limit body index r a states z) (hx : x ∈ states) :
  x.frame.body = body ∧ ∃ y rest, Step session limit x y
    ∧ Stay session limit body index r y rest z
  := by
  have hrun := hstay.run
  induction hrun with
  | refl => cases hx
  | @step a b c states hfirst hrest ih =>
      have htail := hstay.tail hfirst hrest
      rcases List.mem_cons.mp hx with rfl | hx
      · exact ⟨hstay.body_eq, b, states, hfirst, htail⟩
      · apply ih htail hx

/-- The exception of the handler comes before those of the handlers around it. -/
def Handles (body : MethodBody) (index : Nat) (r : Region) (v : Value) (f : Frame) : Prop :=
  ∃ news older, f.handling = news ++ (index, v) :: older ∧ ∀ p ∈ news, body.Apart r p.1

/-- The continuation of the handler comes before those of the handlers around it. -/
def Pends (body : MethodBody) (r : Region) (k : AfterFinally) (older : List AfterFinally)
    (f : Frame) : Prop :=
  ∃ news, f.pending = news ++ k :: older ∧ ∀ k' ∈ news, body.Apart r k'.region

/-- Neither the handler nor one around it has a record. -/
def Forgotten (body : MethodBody) (r : Region) (f : Frame) : Prop :=
  (∀ p ∈ f.handling, body.Apart r p.1) ∧ ∀ k ∈ f.pending, body.Apart r k.region

theorem Stay.handles
    (hstay : Stay session limit body index r a states z) (hbody : body.WellNested)
    (hr : body.regions[index]? = some r) (hquiet : ∀ x ∈ states, ¬ x.IsRaising) {v : Value}
    (ha : Handles body index r v a.frame) :
  Handles body index r v z.frame
  := by
  refine hstay.keeps (P := fun x => Handles body index r v x.frame) ?_ ha
  rintro x y hx hxbody hstep hinside ⟨news, older, hhandling, hapart⟩
  obtain ⟨⟨p, hp, hself⟩, -⟩ :=
    hstep.stay_of_quiet hbody hxbody hr (hstay.stays x hx) (hquiet x hx) hinside
  refine ⟨news.filter p, older.filter p, ?_, ?_⟩
  · rw [hp, hhandling, List.filter_append, List.filter_cons_of_pos (hself v)]
  · intro q hq
    apply hapart q (List.mem_filter.mp hq).1

theorem Stay.pends
    (hstay : Stay session limit body index r a states z) (hbody : body.WellNested)
    (hr : body.regions[index]? = some r) (hquiet : ∀ x ∈ states, ¬ x.IsRaising)
    {k : AfterFinally} {older : List AfterFinally} (hk : k.region = index)
    (ha : Pends body r k older a.frame) :
  Pends body r k older z.frame
  := by
  refine hstay.keeps (P := fun x => Pends body r k older x.frame) ?_ ha
  rintro x y hx hxbody hstep hinside ⟨news, hpending, hapart⟩
  obtain ⟨-, more, kept, hmore, hnew, hkept⟩ :=
    hstep.stay_of_quiet hbody hxbody hr (hstay.stays x hx) (hquiet x hx) hinside
  rcases hkept with rfl | ⟨k', hk', htaken⟩
  · refine ⟨more ++ news, by rw [hmore, hpending, List.append_assoc], ?_⟩
    intro k' hmem
    rcases List.mem_append.mp hmem with hmem | hmem
    · apply hnew k' hmem
    · apply hapart k' hmem
  · rw [hpending] at htaken
    cases news with
    | nil =>
        cases htaken
        apply absurd hk hk'
    | cons first news =>
        cases htaken
        refine ⟨more ++ news, by rw [hmore, List.append_assoc]; rfl, ?_⟩
        intro k'' hmem
        rcases List.mem_append.mp hmem with hmem | hmem
        · apply hnew k'' hmem
        · apply hapart k'' (List.mem_cons_of_mem _ hmem)

theorem Step.forgotten
    (hstep : Step session limit a b) (hbody : body.WellNested) (ha : a.frame.body = body)
    (hr : body.regions[index]? = some r) (hstays : a.StaysIn index r)
    (hinside : r.inHandler b.frame.ip) (hforgotten : a.IsRaising ∨ Forgotten body r a.frame) :
  Forgotten body r b.frame
  := by
  by_cases hraising : a.IsRaising
  · apply hstep.stay_of_raising hbody ha hr hstays.inside hraising hinside
  · obtain ⟨hhandling, hpending⟩ := hforgotten.resolve_left hraising
    obtain ⟨⟨p, hp, -⟩, more, kept, hmore, hnew, hkept⟩ :=
      hstep.stay_of_quiet hbody ha hr hstays hraising hinside
    constructor
    · intro q hq
      rw [hp] at hq
      apply hhandling q (List.mem_filter.mp hq).1
    · intro k hk
      rw [hmore] at hk
      rcases List.mem_append.mp hk with hk | hk
      · apply hnew k hk
      · rcases hkept with rfl | ⟨k', -, htaken⟩
        · apply hpending k hk
        · rw [htaken] at hpending
          apply hpending k (List.mem_cons_of_mem _ hk)

/-- An exception in the handler is the end of its record, wherever it is caught. -/
theorem Stay.forgotten
    (hstay : Stay session limit body index r a states z) (hbody : body.WellNested)
    (hr : body.regions[index]? = some r) (hraised : ∃ x ∈ states, x.IsRaising) :
  Forgotten body r z.frame
  := by
  obtain ⟨x, hx, hraising⟩ := hraised
  obtain ⟨hxbody, y, rest, hstep, hrest⟩ := hstay.after_mem hx
  have hy : Forgotten body r y.frame :=
    hstep.forgotten hbody hxbody hr (hstay.stays x hx) hrest.inside_first (.inl hraising)
  refine hrest.keeps (P := fun x => Forgotten body r x.frame) ?_ hy
  intro w w' hw hwbody hstep' hinside hforgotten
  apply hstep'.forgotten hbody hwbody hr (hrest.stays w hw) hinside (.inr hforgotten)

/-! ## What the handler finds at the end of a stay -/

/-- Only catch handlers have exceptions. -/
def CatchesOnly (f : Frame) : Prop :=
  ∀ p ∈ f.handling, ∃ s, f.body.regions[p.1]? = some s ∧ s.kind ≠ .finalizing

theorem Step.catchesOnly
    (hstep : Step session limit a b) (ha : CatchesOnly a.frame) :
  CatchesOnly b.frame
  := by
  have hsub (hhandling : ∀ p ∈ b.frame.handling, p ∈ a.frame.handling) : CatchesOnly b.frame := by
    intro p hp
    rw [hstep.sameCall.body]
    apply ha p (hhandling p hp)
  cases hstep.turn with
  | keep _ hhandling _ =>
      apply hsub
      rw [hhandling]
      exact fun p hp => hp
  | leave _ hframe =>
      apply hsub
      rw [hframe, Frame.leave, (Frame.continueTo_cases _ _ _).1]
      exact fun p hp => (List.mem_filter.mp hp).1
  | endLeave _ _ hframe =>
      apply hsub
      rw [hframe, (Frame.continueTo_cases _ _ _).1]
      exact fun p hp => hp
  | endUnwind _ _ hframe =>
      apply hsub
      rw [hframe]
      exact fun p hp => hp
  | @caught exception j s _ hs _ hcatches =>
      have hbody := hstep.sameCall.body
      generalize b.frame = g at hcatches hbody hsub ⊢
      cases hcatches with
      | finalizing _ =>
          apply hsub fun p hp => (List.mem_filter.mp hp).1
      | catching hkind =>
          intro p hp
          rcases List.mem_cons.mp hp with rfl | hp
          · exact ⟨s, hs, by rw [hkind]; exact HandlerKind.noConfusion⟩
          · apply ha p (List.mem_filter.mp hp).1

theorem Run.catchesOnly
    {m : RealizedMethod} {args : List Value} {typeArgs : List TypeRef} {resume : Resume}
    (hrun : Run session limit (.enter m body args typeArgs resume) states a) :
  CatchesOnly a.frame ∧ a.frame.body = body
  := by
  refine hrun.keeps (P := fun x => CatchesOnly x.frame ∧ x.frame.body = body) ?_ ?_
  · rintro x y ⟨hx, hxbody⟩ hstep
    exact ⟨hstep.catchesOnly hx, hstep.sameCall.body.trans hxbody⟩
  · exact ⟨by rintro p ⟨⟩, rfl⟩

end

end Activation

/-- The handler of a region is the innermost of the catch handlers that hold an
instruction. -/
def MethodBody.InnermostCatch (body : MethodBody) (r : Region) (ip : Nat) : Prop :=
  ∀ s ∈ body.regions, s.kind ≠ .finalizing → s.inHandler ip → s.Covers r

namespace Activation

section

variable {session : Session} {limit : Nat} {body : MethodBody} {index : Nat} {r : Region}
  {f : Frame}

/-- A record that is not of a handler around the innermost one is not of a handler
that holds the instruction. -/
theorem not_inHandlerOf
    (hf : f.body = body) (hcatches : CatchesOnly f) (hinnermost : body.InnermostCatch r f.ip)
    {p : Nat × Value} (hp : p ∈ f.handling) (hapart : body.Apart r p.1) :
  f.inHandlerOf p.1 f.ip = false
  := by
  obtain ⟨s, hs, hkind⟩ := hcatches p hp
  rw [hf] at hs
  rw [Frame.inHandlerOf, hf, hs]
  rw [Option.any_some]
  by_contra hin
  have hin : s.inHandler f.ip := by simpa using hin
  apply hapart s hs (hinnermost s (List.mem_of_getElem? hs) hkind hin)

theorem handled?_eq (f : Frame) :
  f.handled? = (f.handling.find? fun p => f.inHandlerOf p.1 f.ip).map (·.2)
  := rfl

theorem rethrow_of_handles
    (hf : f.body = body) (hcatches : CatchesOnly f) (hr : body.regions[index]? = some r)
    (hinside : r.inHandler f.ip) (hinnermost : body.InnermostCatch r f.ip) {v : Value}
    (hhandles : Handles body index r v f) :
  Surroundings.rethrow f = .ok (.raise f v)
  := by
  obtain ⟨news, older, hhandling, hapart⟩ := hhandles
  have hnews : news.find? (fun p => f.inHandlerOf p.1 f.ip) = none := by
    rw [List.find?_eq_none]
    intro p hp
    have hmem : p ∈ f.handling := by
      rw [hhandling]
      apply List.mem_append_left _ hp
    rw [not_inHandlerOf hf hcatches hinnermost hmem (hapart p hp)]
    apply Bool.false_ne_true
  have hself : f.inHandlerOf index f.ip = true := by
    rw [Frame.inHandlerOf, hf, hr]
    exact hinside
  have hhandled : f.handled? = some v := by
    rw [handled?_eq, hhandling, List.find?_append, hnews, Option.none_or, List.find?_cons, hself]
    rfl
  rw [Surroundings.rethrow, hhandled]

theorem rethrow_of_forgotten
    (hf : f.body = body) (hcatches : CatchesOnly f) (hinnermost : body.InnermostCatch r f.ip)
    (hforgotten : Forgotten body r f) :
  Surroundings.rethrow f = .error (.runtimeError "rethrow outside of a catch handler")
  := by
  have hhandled : f.handled? = none := by
    rw [handled?_eq, Option.map_eq_none_iff, List.find?_eq_none]
    intro p hp
    rw [not_inHandlerOf hf hcatches hinnermost hp (hforgotten.1 p hp)]
    apply Bool.false_ne_true
  rw [Surroundings.rethrow, hhandled]

theorem endFinally_of_pends {k : AfterFinally} {older : List AfterFinally}
    (hpends : Pends body r k older f) (hlength : f.pending.length ≤ older.length + 1) :
  Surroundings.endFinally f = .ok (k.goOn { f with stack := [], pending := older })
  := by
  obtain ⟨news, hpending, -⟩ := hpends
  have hnone : news = [] := by
    rw [hpending, List.length_append, List.length_cons] at hlength
    apply List.length_eq_zero_iff.mp (by omega)
  rw [hnone] at hpending
  apply Surroundings.endFinally_cons hpending

theorem endFinally_of_forgotten
    (hr : body.regions[index]? = some r) (hforgotten : Forgotten body r f) :
  Surroundings.endFinally f = .error (.runtimeError "endfinally outside of a finally handler")
    ∨ ∃ k rest, k.region ≠ index ∧ f.pending = k :: rest
      ∧ Surroundings.endFinally f = .ok (k.goOn { f with stack := [], pending := rest })
  := by
  cases hpending : f.pending with
  | nil =>
      left
      rw [Surroundings.endFinally, hpending]
  | cons k rest =>
      right
      have hapart := hforgotten.2 k (by rw [hpending]; exact List.mem_cons_self)
      exact ⟨k, rest, hapart.ne hr, rfl, Surroundings.endFinally_cons hpending⟩

end

/-- In a sealed body, consider a handler that a frame enters and then stays in.  A
rethrow that belongs to a catch handler raises the exception that the handler was
entered with if no exception has been raised in the handler since, and otherwise
faults.  A finally handler, when the finally handlers entered within it have ended,
goes on with what it was entered for if no exception has been raised in it since, and
otherwise with something else or not at all. -/
theorem Stay.record_kept_unless_raised
    {e : Emitter} {effectOf : Opcode → MethodRef → Option CallEffect} {body : MethodBody}
    (hbuilt : e.Built) (hsealed : (e.sealBodyWith effectOf).1 = .ok body)
    {session : Session} {limit : Nat} {m : RealizedMethod} {args : List Value}
    {typeArgs : List TypeRef} {resume : Resume} {before states : List Activation}
    {a b z : Activation} {index : Nat} {r : Region}
    (hbefore : Run session limit (.enter m body args typeArgs resume) before a)
    (henters : Step session limit a b) (hr : body.regions[index]? = some r)
    (hstay : Stay session limit body index r b states z) :
  (∀ v, a.phase = .raising v → b.frame.handling.head? = some (index, v) →
    body.InnermostCatch r z.frame.ip →
      ((∀ x ∈ states, ¬ x.IsRaising) →
        Surroundings.rethrow z.frame = .ok (.raise z.frame v))
      ∧ ((∃ x ∈ states, x.IsRaising) →
        Surroundings.rethrow z.frame
          = .error (.runtimeError "rethrow outside of a catch handler")))
  ∧ (∀ k older, b.frame.pending = k :: older → k.region = index →
    z.frame.pending.length ≤ b.frame.pending.length →
      ((∀ x ∈ states, ¬ x.IsRaising) →
        Surroundings.endFinally z.frame
          = .ok (k.goOn { z.frame with stack := [], pending := older }))
      ∧ ((∃ x ∈ states, x.IsRaising) →
        Surroundings.endFinally z.frame
            = .error (.runtimeError "endfinally outside of a finally handler")
        ∨ ∃ k' rest, k'.region ≠ index ∧ z.frame.pending = k' :: rest
          ∧ Surroundings.endFinally z.frame
            = .ok (k'.goOn { z.frame with stack := [], pending := rest })))
  := by
  have hbody := hbuilt.wellNested hsealed
  have hwhole := ((hbefore.snoc henters).trans hstay.run).catchesOnly
  obtain ⟨hcatches, hz⟩ := hwhole
  constructor
  · intro v _ hhead hinnermost
    constructor
    · intro hquiet
      obtain ⟨older, hhandling⟩ := List.head?_eq_some_iff.mp hhead
      have hb : Handles body index r v b.frame := ⟨[], older, hhandling, by rintro p ⟨⟩⟩
      apply rethrow_of_handles hz hcatches hr hstay.inside hinnermost
        (hstay.handles hbody hr hquiet hb)
    · intro hraised
      apply rethrow_of_forgotten hz hcatches hinnermost (hstay.forgotten hbody hr hraised)
  · intro k older hpending hk hlength
    constructor
    · intro hquiet
      have hb : Pends body r k older b.frame := ⟨[], hpending, by rintro k' ⟨⟩⟩
      rw [hpending] at hlength
      apply endFinally_of_pends (hstay.pends hbody hr hquiet hk hb) hlength
    · intro hraised
      apply endFinally_of_forgotten hr (hstay.forgotten hbody hr hraised)

/-! ## a catch handler within a catch handler -/

/-- The region of a handler that throws and catches an exception of its own, and then
rethrows the exception that it was entered with. -/
def rethrowingRegion : Region :=
  { tryStart := 0, tryEnd := 3, handlerStart := 3, handlerEnd := 11, kind := .catching .object }

def rethrowingBody : MethodBody :=
  { instructions := #[
      ⟨.ldstr, .str "outer"⟩, ⟨.throw, .none⟩, ⟨.leave .short, .label ⟨0⟩⟩,
      ⟨.pop, .none⟩,
      ⟨.ldstr, .str "inner"⟩, ⟨.throw, .none⟩, ⟨.leave .short, .label ⟨1⟩⟩,
      ⟨.pop, .none⟩, ⟨.leave .short, .label ⟨1⟩⟩,
      ⟨.rethrow, .none⟩, ⟨.leave .short, .label ⟨0⟩⟩, ⟨.ret, .none⟩]
    labels := #[some 11, some 9]
    locals := #[]
    regions := [
      { tryStart := 4, tryEnd := 7, handlerStart := 7, handlerEnd := 9, kind := .catching .object },
      rethrowingRegion]
    maxStack := 1 }

theorem rethrowingBody_built :
  ∃ e : Emitter, e.Built ∧ (e.sealBodyWith fun _ _ => none).1 = .ok rethrowingBody
  := by
  have h := (Emitter.Built.start "T::M" false).beginBlock
  have h := (h.emitWith .ldstr (.str "outer")).emitWith .throw .none
  have h := (h.beginCatch (t := .object) rfl).emitWith .pop .none
  have h := (h.beginBlock.emitWith .ldstr (.str "inner")).emitWith .throw .none
  have h := (h.beginCatch (t := .object) rfl).emitWith .pop .none
  have h := (h.endBlock rfl).emitWith .rethrow .none
  have h := (h.endBlock rfl).emitWith .ret .none
  exact ⟨_, h, rfl⟩

/-- A frame of the body somewhere on its way. -/
def rethrowingFrame (m : RealizedMethod) (ip : Nat) (stack : List Value)
    (handling : List (Nat × Value)) : Frame :=
  { Frame.enter m rethrowingBody [] [] .dropResult with
    ip := ip
    stack := stack
    handling := handling }

/-- The way through the handler, up to the rethrow. -/
def rethrowingStates (m : RealizedMethod) : List Activation :=
  [⟨rethrowingFrame m 3 [.str "outer"] [(1, .str "outer")], .ready⟩,
    ⟨rethrowingFrame m 4 [] [(1, .str "outer")], .ready⟩,
    ⟨rethrowingFrame m 5 [.str "inner"] [(1, .str "outer")], .ready⟩,
    ⟨rethrowingFrame m 5 [] [(1, .str "outer")], .raising (.str "inner")⟩,
    ⟨rethrowingFrame m 7 [.str "inner"] [(0, .str "inner")], .ready⟩,
    ⟨rethrowingFrame m 8 [] [(0, .str "inner")], .ready⟩]

theorem rethrowing_enters (session : Session) (m : RealizedMethod) :
  (∃ before, Run session 8 (.enter m rethrowingBody [] [] .dropResult) before
      ⟨rethrowingFrame m 1 [] [], .raising (.str "outer")⟩)
    ∧ Step session 8 ⟨rethrowingFrame m 1 [] [], .raising (.str "outer")⟩
      ⟨rethrowingFrame m 3 [.str "outer"] [(1, .str "outer")], .ready⟩
  := by
  constructor
  · exact ⟨_, .next ⟨.ldstr, .str "outer"⟩ default rfl rfl rfl <|
      .next ⟨.throw, .none⟩ default rfl rfl rfl .refl⟩
  · exact .handled rfl

theorem rethrowing_stays (session : Session) (m : RealizedMethod) :
  Stay session 8 rethrowingBody 1 rethrowingRegion
    ⟨rethrowingFrame m 3 [.str "outer"] [(1, .str "outer")], .ready⟩ (rethrowingStates m)
    ⟨rethrowingFrame m 9 [] [], .ready⟩
  where
  run :=
    .next ⟨.pop, .none⟩ default rfl rfl rfl <|
    .next ⟨.ldstr, .str "inner"⟩ default rfl rfl rfl <|
    .next ⟨.throw, .none⟩ default rfl rfl rfl <|
    .step (.handled rfl) <|
    .next ⟨.pop, .none⟩ default rfl rfl rfl <|
    .next ⟨.leave .short, .label ⟨1⟩⟩ default rfl rfl rfl .refl
  body_eq := rfl
  stays := by
    simp only [rethrowingStates, List.forall_mem_cons]
    refine ⟨?_, ?_, ?_, ?_, ?_, ?_, by simp⟩
    · exact .of_plain (i := ⟨.pop, .none⟩) rfl rfl (by decide)
    · exact .of_plain (i := ⟨.ldstr, .str "inner"⟩) rfl rfl (by decide)
    · exact .of_plain (i := ⟨.throw, .none⟩) rfl rfl (by decide)
    · exact .of_plain (i := ⟨.throw, .none⟩) rfl rfl (by decide)
    · exact .of_plain (i := ⟨.pop, .none⟩) rfl rfl (by decide)
    · exact .of_leave (l := ⟨1⟩) rfl rfl rfl rfl
  inside := rfl

theorem rethrowing_innermost : rethrowingBody.InnermostCatch rethrowingRegion 9 := by
  intro s hs _ hin
  rcases List.mem_cons.mp hs with rfl | hs
  · cases hin
  · obtain rfl := List.mem_singleton.mp hs
    exact ⟨Nat.le_refl _, Nat.le_refl _⟩

/-- An exception that a catch handler has thrown and caught within itself takes away
the exception that the handler was entered with. -/
theorem not_rethrow_raises_entered :
  ¬ ∀ {e : Emitter} {effectOf : Opcode → MethodRef → Option CallEffect} {body : MethodBody}
    {session : Session} {limit : Nat} {m : RealizedMethod} {args : List Value}
    {typeArgs : List TypeRef} {resume : Resume} {before states : List Activation}
    {a b z : Activation} {index : Nat} {r : Region} {v : Value},
    e.Built → (e.sealBodyWith effectOf).1 = .ok body →
    Run session limit (.enter m body args typeArgs resume) before a →
    Step session limit a b → body.regions[index]? = some r →
    Stay session limit body index r b states z →
    a.phase = .raising v → b.frame.handling.head? = some (index, v) →
    body.InnermostCatch r z.frame.ip →
    Surroundings.rethrow z.frame = .ok (.raise z.frame v)
  := by
  intro hclaim
  obtain ⟨e, hbuilt, hsealed⟩ := rethrowingBody_built
  obtain ⟨⟨before, hbefore⟩, henters⟩ := rethrowing_enters default default
  have hrethrow := hclaim hbuilt hsealed hbefore henters rfl (rethrowing_stays default default)
    rfl rfl rethrowing_innermost
  cases hrethrow

/-- An exception has been thrown and caught within the handler, and then the handler cannot rethrow
the one that it was entered with. -/
theorem rethrowing_record_lost :
  ∃ before, Run default 8 (.enter default rethrowingBody [] [] .dropResult) before
      ⟨rethrowingFrame default 1 [] [], .raising (.str "outer")⟩
    ∧ Stay default 8 rethrowingBody 1 rethrowingRegion
      ⟨rethrowingFrame default 3 [.str "outer"] [(1, .str "outer")], .ready⟩
      (rethrowingStates default) ⟨rethrowingFrame default 9 [] [], .ready⟩
    ∧ Surroundings.rethrow (rethrowingFrame default 9 [] [])
      = .error (.runtimeError "rethrow outside of a catch handler")
  := by
  obtain ⟨e, hbuilt, hsealed⟩ := rethrowingBody_built
  obtain ⟨⟨before, hbefore⟩, henters⟩ := rethrowing_enters default default
  have hstay := rethrowing_stays default default
  have hraised : ∃ x ∈ rethrowingStates default, x.IsRaising :=
    ⟨⟨rethrowingFrame default 5 [] [(1, .str "outer")], .raising (.str "inner")⟩,
      by simp [rethrowingStates], .str "inner", rfl⟩
  have hrecord := (hstay.record_kept_unless_raised hbuilt hsealed hbefore henters rfl).1 _ rfl rfl
    rethrowing_innermost
  exact ⟨before, hbefore, hstay, hrecord.2 hraised⟩

end Activation

end ManagedCode
