import Tenure.Proofs.Association
import Tenure.Proofs.Scopes

/- One binding at a time. What carrying out acts does to one binding depends on that binding alone: on
   its usage so far, on whether the innermost closure declares it, and on what that closure has done
   with it. Only the numbering of events runs through all bindings. -/
namespace Tenure

def Event.plain (e : Event) : Event := { e with seq := 0 }

def Usage.plain (u : Usage) : Usage := { u with events := u.events.map Event.plain }

def Usage.grown (known : Option Usage) (e : Event) : Usage :=
  { known.getD { binding := e.binding } with
    events := (known.getD { binding := e.binding }).events ++ [e] }

structure Thread where
  usage : Option Usage := none
  isLocal : Bool := true
  capture : Option Capture := none

namespace Thread

def note (t : Thread) (e : Event) (access : Access) : Thread :=
  if t.isLocal then { t with usage := some (Usage.grown t.usage e) }
  else
    let cap := t.capture.getD { binding := e.binding, span := e.span }
    { t with capture := some (cap.add access) }

def declare (t : Thread) (depth b : Nat) : Thread :=
  { t with usage := some (t.usage.getD { binding := b, declLoop := depth }), isLocal := true }

def declareIn (t : Thread) (depth b : Nat) (bs : List Nat) : Thread :=
  if b ∈ bs then t.declare depth b else t

def enter (t : Thread) (depth b : Nat) (params : List Nat) : Thread :=
  ({ usage := t.usage, isLocal := false } : Thread).declareIn depth b params

def leave (t inner : Thread) (depth expr : Nat) (escapes : Bool) (spot : Spot) : Thread :=
  match inner.capture with
  | none => { t with usage := inner.usage }
  | some cap =>
    { t with usage := inner.usage }.note (cap.event depth expr escapes spot) (cap.access escapes)

end Thread

mutual
def Act.follow (b : Nat) (loops : List Nat) : Act → Thread → Thread
  | .declare c, t => t.declareIn loops.length b [c]
  | .use u, t => if u.binding = b then t.note (u.event loops.length) u.access else t
  | .loop stmt acts, t => Act.followAll b (stmt :: loops) acts t
  | .each site acts, t =>
    Act.followAll b (site.stmt :: loops) acts
      (t.declareIn (loops.length + 1) b (bindingsOf [site.var]))
  | .closure expr escapes params spot acts, t =>
    t.leave (Act.followAll b loops acts (t.enter loops.length b params)) loops.length expr escapes spot
def Act.followAll (b : Nat) (loops : List Nat) : List Act → Thread → Thread
  | [], t => t
  | a :: as, t => Act.followAll b loops as (a.follow b loops t)
end

namespace Ledger

def usage? (l : Ledger) (b : Nat) : Option Usage := l.usages.find? (·.binding == b)

def isLocal (l : Ledger) (b : Nat) : Bool := (l.frames.head?.map (·.locals.contains b)).getD true

def capture? (l : Ledger) (b : Nat) : Option Capture :=
  l.frames.head?.bind fun f => f.captures.find? (·.binding == b)

def thread (l : Ledger) (b : Nat) : Thread :=
  { usage := (l.usage? b).map Usage.plain, isLocal := l.isLocal b, capture := l.capture? b }

def Tidy (l : Ledger) : Prop := ∀ f ∈ l.frames, (f.captures.map (·.binding)).Nodup

end Ledger

section Entries

theorem find_addEvent (e : Event) (us : List Usage) (b : Nat) :
    (Collector.addEvent e us).find? (·.binding == b) =
      if e.binding = b then some (Usage.grown (us.find? (·.binding == b)) e)
      else us.find? (·.binding == b) := by
  have grown : ∀ known : Option Usage, Usage.grown known e =
      (known.map fun u => { u with events := u.events ++ [e] }).getD
        { binding := e.binding, events := [e] } := by
    rintro (_ | _) <;> rfl
  rw [grown]
  exact (addEvent_updates e).find rfl (fun _ => id) us b

@[simp] theorem add_binding (cap : Capture) (access : Access) :
    (cap.add access).binding = cap.binding := by
  cases access <;> rfl

theorem find_addCapture (c : Nat) (access : Access) (span : Range) (caps : List Capture) (b : Nat) :
    (addCapture c access span caps).find? (·.binding == b) =
      if c = b then some (((caps.find? (·.binding == b)).getD { binding := c, span }).add access)
      else caps.find? (·.binding == b) := by
  rw [(addCapture_updates c access span).find (add_binding _ _) fun _ => (add_binding _ _).trans]
  cases caps.find? (·.binding == b) <;> rfl

theorem addCapture_bindings (c : Nat) (access : Access) (span : Range) (caps : List Capture) :
    (addCapture c access span caps).map (·.binding) =
      if c ∈ caps.map (·.binding) then caps.map (·.binding) else caps.map (·.binding) ++ [c] :=
  (addCapture_updates c access span).keys (add_binding _ _) (fun _ => (add_binding _ _).trans) caps

end Entries

namespace Ledger

section Thread

variable (l : Ledger) (b : Nat)

theorem thread_record (e : Event) (plain : e.seq = 0) (here : l.isLocal e.binding = true) :
    (l.record e).thread b = if e.binding = b then (l.thread b).note e .read else l.thread b := by
  have unnumbered : ({ e with seq := l.seq } : Event).plain = e := by
    rw [Event.plain, ← plain]
  have found := find_addEvent { e with seq := l.seq } l.usages b
  simp only [thread, usage?, record] at found ⊢
  by_cases same : e.binding = b
  · rw [found, if_pos same, if_pos same, Thread.note, if_pos (same ▸ here)]
    cases l.usages.find? (·.binding == b) with
    | none =>
      simp only [Usage.grown, Option.getD_none, Option.map_some, Option.map_none, Usage.plain,
        List.nil_append, List.map_cons, List.map_nil, unnumbered]
      rfl
    | some u =>
      simp only [Usage.grown, Option.getD_some, Option.map_some, Usage.plain, List.map_append,
        List.map_cons, List.map_nil, unnumbered]
      rfl
  · rw [found, if_neg same, if_neg same]
    rfl

theorem thread_note (e : Event) (access : Access) (plain : e.seq = 0) :
    (l.note e access).thread b =
      if e.binding = b then (l.thread b).note e access else l.thread b := by
  have recorded : ∀ here : l.isLocal e.binding = true,
      (l.record e).thread b = if e.binding = b then (l.thread b).note e access else l.thread b := by
    intro here
    rw [thread_record l b e plain here]
    split
    · rename_i same
      have mine : (l.thread b).isLocal = true := same ▸ here
      rw [Thread.note, Thread.note, if_pos mine, if_pos mine]
    · rfl
  unfold note
  split
  · rename_i frames
    exact recorded (by simp [isLocal, frames])
  · rename_i f fs frames
    split
    · rename_i here
      exact recorded (by simpa [isLocal, frames] using here)
    · rename_i away
      have found := find_addCapture e.binding access e.span f.captures b
      simp only [thread, usage?, isLocal, capture?, frames, Frame.capture, List.head?_cons,
        Option.map_some, Option.getD_some, Option.bind_some, found]
      by_cases same : e.binding = b
      · rw [same] at away
        simp only [if_pos same, Thread.note, away]
        rfl
      · simp only [if_neg same]

theorem thread_declare (depth c : Nat) :
    (l.declare depth c).thread b = (l.thread b).declareIn depth b [c] := by
  have locals : (l.declare depth c).isLocal b = (decide (b = c) || l.isLocal b) := by
    rw [isLocal, isLocal, declare]
    cases l.frames with
    | nil => simp
    | cons f fs => simp [List.modifyHead]
  have captures : (l.declare depth c).capture? b = l.capture? b := by
    rw [capture?, capture?, declare]
    cases l.frames with
    | nil => rfl
    | cons f fs => rfl
  have usages : (l.declare depth c).usage? b =
      if b = c then some ((l.usage? b).getD { binding := b, declLoop := depth }) else l.usage? b := by
    simp only [usage?, declare]
    by_cases same : b = c
    · subst same
      rw [if_pos rfl]
      cases found : l.usages.find? (·.binding == b) with
      | none =>
        have missing : l.usages.any (·.binding == b) = false := by
          rw [List.any_eq_false]
          exact List.find?_eq_none.mp found
        simp [missing, found]
      | some u =>
        have present : l.usages.any (·.binding == b) = true := by
          have matched := List.find?_some found
          exact List.any_eq_true.mpr ⟨u, List.mem_of_find?_eq_some found, matched⟩
        rw [if_pos present, found, Option.getD_some]
    · rw [if_neg same]
      split
      · rfl
      · simp [List.find?_append, Ne.symm same]
  rw [thread, locals, captures, usages, Thread.declareIn]
  by_cases same : b = c
  · simp only [same, List.mem_singleton, if_true, thread, Thread.declare, decide_true, Bool.true_or,
      Option.map_some]
    cases l.usage? c with
    | none => rfl
    | some u => rfl
  · simp [same, thread]

theorem thread_declareAll (depth : Nat) (bs : List Nat) :
    (l.declareAll depth bs).thread b = (l.thread b).declareIn depth b bs := by
  have twice : ∀ t : Thread, (t.declare depth b).declare depth b = t.declare depth b := by
    intro t
    cases t with
    | mk usage isLocal capture => cases usage <;> rfl
  induction bs generalizing l with
  | nil => simp [declareAll, Thread.declareIn]
  | cons c bs ih =>
    rw [declareAll, List.foldl_cons, ← declareAll, ih, thread_declare]
    unfold Thread.declareIn
    by_cases first : b = c
    · subst first
      by_cases later : b ∈ bs
      · simp [later, twice]
      · simp [later]
    · simp [first]

theorem thread_enter (depth : Nat) (params : List Nat) :
    (l.enter depth params).thread b = (l.thread b).enter depth b params :=
  thread_declareAll { l with frames := {} :: l.frames } b depth params

theorem thread_visit (depth : Nat) (site : LoopSite) :
    (l.visit depth site).thread b = (l.thread b).declareIn depth b (bindingsOf [site.var]) :=
  thread_declareAll { l with loops := l.loops ++ [site] } b depth _

theorem capture_seq (cap : Capture) (depth expr : Nat) (escapes : Bool) (spot : Spot) :
    (cap.event depth expr escapes spot).seq = 0 := rfl

theorem thread_captures (depth expr : Nat) (escapes : Bool) (spot : Spot) (caps : List Capture)
    (once : (caps.map (·.binding)).Nodup) :
    (caps.foldl (fun l cap => l.note (cap.event depth expr escapes spot) (cap.access escapes))
        l).thread b =
      match caps.find? (·.binding == b) with
      | none => l.thread b
      | some cap => (l.thread b).note (cap.event depth expr escapes spot) (cap.access escapes) := by
  induction caps generalizing l with
  | nil => rfl
  | cons cap caps ih =>
    rw [List.map_cons, List.nodup_cons] at once
    rw [List.foldl_cons, ih _ once.2, thread_note l b _ _ (capture_seq ..), List.find?_cons]
    by_cases mine : cap.binding = b
    · have gone : caps.find? (·.binding == b) = none := by
        rw [List.find?_eq_none]
        intro other member same
        rw [beq_iff_eq, ← mine] at same
        exact once.1 (same ▸ List.mem_map_of_mem member)
      have own : (cap.event depth expr escapes spot).binding = b := mine
      simp only [gone, own, if_true, mine, beq_self_eq_true]
    · have other : (cap.event depth expr escapes spot).binding ≠ b := mine
      have differs : (cap.binding == b) = false := beq_eq_false_iff_ne.mpr mine
      simp only [if_neg other, differs]

end Thread

structure Keeps (l k : Ledger) : Prop where
  outer : k.frames.tail = l.frames.tail
  depth : k.frames.length = l.frames.length
  tidy : l.Tidy → k.Tidy

theorem Keeps.refl (l : Ledger) : Keeps l l := ⟨rfl, rfl, id⟩

theorem Keeps.trans {l k j : Ledger} (first : Keeps l k) (second : Keeps k j) : Keeps l j :=
  ⟨second.outer.trans first.outer, second.depth.trans first.depth, second.tidy ∘ first.tidy⟩

theorem note_keeps (l : Ledger) (e : Event) (access : Access) : Keeps l (l.note e access) := by
  unfold note
  split
  · exact ⟨rfl, rfl, id⟩
  · rename_i f fs frames
    split
    · exact ⟨rfl, rfl, id⟩
    · refine ⟨by simp [frames], by simp [frames], ?_⟩
      intro tidy
      simp only [Tidy, frames, List.forall_mem_cons, Frame.capture, addCapture_bindings] at tidy ⊢
      refine ⟨?_, tidy.2⟩
      split
      · exact tidy.1
      · rename_i fresh
        rw [List.nodup_append]
        refine ⟨tidy.1, by simp, ?_⟩
        intro x there y here same
        rw [List.mem_singleton.mp here] at same
        exact fresh (same ▸ there)

theorem declare_keeps (l : Ledger) (depth b : Nat) : Keeps l (l.declare depth b) := by
  refine ⟨?_, by simp [declare], ?_⟩
  · rw [declare]
    cases l.frames with
    | nil => rfl
    | cons f fs => rfl
  · intro tidy
    simp only [Tidy, declare] at tidy ⊢
    cases frames : l.frames with
    | nil => exact fun _ member => absurd member List.not_mem_nil
    | cons f fs =>
      rw [frames, List.forall_mem_cons] at tidy
      rw [List.modifyHead_cons, List.forall_mem_cons]
      exact tidy

theorem declareAll_keeps (l : Ledger) (depth : Nat) (bs : List Nat) :
    Keeps l (l.declareAll depth bs) := by
  induction bs generalizing l with
  | nil => exact .refl l
  | cons b bs ih => exact (declare_keeps l depth b).trans (ih _)

theorem visit_keeps (l : Ledger) (depth : Nat) (site : LoopSite) : Keeps l (l.visit depth site) := by
  obtain ⟨outer, length, tidy⟩ :=
    declareAll_keeps { l with loops := l.loops ++ [site] } depth (bindingsOf [site.var])
  exact ⟨outer, length, tidy⟩

theorem captures_keep (l : Ledger) (depth expr : Nat) (escapes : Bool) (spot : Spot)
    (caps : List Capture) :
    Keeps l (caps.foldl
      (fun l cap => l.note (cap.event depth expr escapes spot) (cap.access escapes)) l) := by
  induction caps generalizing l with
  | nil => exact .refl l
  | cons cap caps ih => exact (note_keeps l _ _).trans (ih _)

theorem Tidy.enter {l : Ledger} (tidy : l.Tidy) (depth : Nat) (params : List Nat) :
    (l.enter depth params).Tidy :=
  (declareAll_keeps { l with frames := {} :: l.frames } depth params).tidy
    (List.forall_mem_cons.mpr ⟨List.nodup_nil, tidy⟩)

theorem Keeps.closure {l k : Ledger} {depth : Nat} {params : List Nat}
    (inner : Keeps (l.enter depth params) k) :
    ∃ f, k.frames = f :: l.frames ∧ (l.Tidy → (f.captures.map (·.binding)).Nodup) := by
  have entered : Keeps { l with frames := {} :: l.frames } (l.enter depth params) :=
    declareAll_keeps _ depth params
  have whole := entered.trans inner
  cases frames : k.frames with
  | nil =>
    have depth := whole.depth
    rw [frames] at depth
    exact absurd depth (by simp)
  | cons f fs =>
    have outer : fs = l.frames := by
      have outer := whole.outer
      rwa [frames] at outer
    refine ⟨f, by rw [outer], ?_⟩
    intro tidy
    exact inner.tidy (tidy.enter depth params) f (by rw [frames]; exact List.mem_cons_self)

end Ledger

open Ledger (Keeps)

theorem runAll_keeps (as : List Act) (loops : List Nat) (l : Ledger) :
    Keeps l (Act.runAll loops as l) := by
  induction as using acts_induction generalizing loops l with
  | nil => exact .refl l
  | cons a as first rest => exact (first loops l).trans (rest loops _)
  | declare b => exact Ledger.declare_keeps l _ b
  | use u => exact Ledger.note_keeps l _ _
  | loop stmt acts inner => exact inner _ l
  | each site acts inner => exact (Ledger.visit_keeps l _ site).trans (inner _ _)
  | closure expr escapes params spot acts inner =>
    rw [Act.runAll, Act.runAll, Act.run, Ledger.leave]
    obtain ⟨f, frames, -⟩ := (inner loops (l.enter loops.length params)).closure
    simp only [frames]
    have back : Keeps l { Act.runAll loops acts (l.enter loops.length params) with
      frames := l.frames } := ⟨rfl, rfl, id⟩
    exact back.trans (Ledger.captures_keep ..)

theorem runAll_thread (b : Nat) (as : List Act) (loops : List Nat) (l : Ledger) (tidy : l.Tidy) :
    (Act.runAll loops as l).thread b = Act.followAll b loops as (l.thread b) := by
  induction as using acts_induction generalizing loops l with
  | nil => rfl
  | cons a as first rest =>
    have one := first loops l tidy
    simp only [Act.runAll, Act.followAll] at one ⊢
    rw [← one]
    exact rest loops _ ((runAll_keeps [a] loops l).tidy tidy)
  | declare c => exact l.thread_declare b _ c
  | use u => exact l.thread_note b _ _ rfl
  | loop stmt acts inner => exact inner _ l tidy
  | each site acts inner =>
    simp only [Act.runAll, Act.run, Act.followAll, Act.follow, ← l.thread_visit]
    exact inner _ _ ((Ledger.visit_keeps l _ site).tidy tidy)
  | closure expr escapes params spot acts inner =>
    obtain ⟨f, frames, once⟩ := (runAll_keeps acts loops (l.enter loops.length params)).closure
    have done := inner loops _ (tidy.enter loops.length params)
    rw [l.thread_enter] at done
    simp only [Act.runAll, Act.run, Act.followAll, Act.follow, ← done, Ledger.leave, frames]
    rw [Ledger.thread_captures _ b _ _ _ _ _ (once tidy), Thread.leave]
    have captured : (Act.runAll loops acts (l.enter loops.length params)).capture? b =
        f.captures.find? (·.binding == b) := by
      rw [Ledger.capture?, frames]
      rfl
    simp only [Ledger.thread, captured]
    rfl

/-- A property of ledgers that holds whatever closures are open and whatever loops are known, and that
events and declarations keep. -/
structure Ledger.Lasting (P : Ledger → Prop) : Prop where
  frames : ∀ l fs, P l → P { l with frames := fs }
  loops : ∀ l ls, P l → P { l with loops := ls }
  record : ∀ l e, P l → P (l.record e)
  declare : ∀ l depth b, P l → P (l.declare depth b)

namespace Ledger.Lasting

variable {P : Ledger → Prop} (h : Lasting P)

include h

theorem note (l : Ledger) (e : Event) (access : Access) (holds : P l) : P (l.note e access) := by
  unfold Ledger.note
  split
  · exact h.record l e holds
  · split
    · exact h.record l e holds
    · exact h.frames l _ holds

theorem declareAll (l : Ledger) (depth : Nat) (bs : List Nat) (holds : P l) :
    P (l.declareAll depth bs) := by
  induction bs generalizing l with
  | nil => exact holds
  | cons b bs ih => exact ih _ (h.declare l depth b holds)

theorem leave (l : Ledger) (depth expr : Nat) (escapes : Bool) (spot : Spot) (holds : P l) :
    P (l.leave depth expr escapes spot) := by
  unfold Ledger.leave
  split
  · exact holds
  · rename_i f fs _
    have outside := h.frames l fs holds
    revert outside
    generalize ({ l with frames := fs } : Ledger) = k
    intro outside
    induction f.captures generalizing k with
    | nil => exact outside
    | cons cap caps ih => exact ih _ (h.note k _ _ outside)

end Ledger.Lasting

theorem runAll_lasting {P : Ledger → Prop} (h : Ledger.Lasting P) (as : List Act) (loops : List Nat)
    (l : Ledger) (holds : P l) : P (Act.runAll loops as l) := by
  induction as using acts_induction generalizing loops l with
  | nil => exact holds
  | cons a as first rest => exact rest loops _ (first loops l holds)
  | declare b => exact h.declare l _ b holds
  | use u => exact h.note l _ _ holds
  | loop stmt acts inner => exact inner _ l holds
  | each site acts inner => exact inner _ _ (h.declareAll _ _ _ (h.loops l _ holds))
  | closure expr escapes params spot acts inner =>
    exact h.leave _ _ _ _ _ (inner _ _ (h.declareAll _ _ _ (h.frames l _ holds)))

/-- Every binding has one usage, whose events carry its number and stand in the order of their own
numbers; no two events have the same one. -/
structure Usage.Numbered (us : List Usage) : Prop where
  once : (us.map (·.binding)).Nodup
  own : ∀ u ∈ us, ∀ e ∈ u.events, e.binding = u.binding
  rising : ∀ u ∈ us, u.events.Pairwise (·.seq < ·.seq)
  distinct : ((us.flatMap (·.events)).map (·.seq)).Nodup

section Numbers

variable {us : List Usage}

theorem addEvent_cases (e : Event) (us : List Usage) :
    ∃ front u back, u.binding = e.binding ∧
      Collector.addEvent e us = front ++ { u with events := u.events ++ [e] } :: back ∧
      (us = front ++ u :: back ∨
        e.binding ∉ us.map (·.binding) ∧ front ++ u :: back = us ++ [{ binding := e.binding }]) := by
  rcases (addEvent_updates e).cases us with ⟨front, u, back, rfl, -, own, added⟩ | ⟨fresh, added⟩
  · exact ⟨front, u, back, own, added, .inl rfl⟩
  · exact ⟨us, { binding := e.binding }, [], rfl, added, .inr ⟨fresh, rfl⟩⟩

theorem Usage.Numbered.opened (h : Usage.Numbered us) {b : Nat} (fresh : b ∉ us.map (·.binding))
    (depth : Nat) : Usage.Numbered (us ++ [{ binding := b, declLoop := depth }]) := by
  obtain ⟨once, own, rising, distinct⟩ := h
  refine ⟨?_, List.forall_mem_append.mpr ⟨own, by simp⟩, List.forall_mem_append.mpr ⟨rising, by simp⟩,
    by simpa using distinct⟩
  · rw [List.map_append, List.map_singleton]
    refine List.nodup_append.mpr ⟨once, by simp, ?_⟩
    intro x there y here same
    have new : x = b := same.trans (List.mem_singleton.mp here)
    exact fresh (new ▸ there)

theorem below_opened {n b depth : Nat} (below : ∀ u ∈ us, ∀ e ∈ u.events, e.seq < n) :
    ∀ u ∈ us ++ [{ binding := b, declLoop := depth }], ∀ e ∈ u.events, e.seq < n :=
  List.forall_mem_append.mpr ⟨below, by simp⟩

theorem Usage.Numbered.appended {front back : List Usage} {u : Usage}
    (h : Usage.Numbered (front ++ u :: back)) {e : Event} (mine : u.binding = e.binding)
    (above : ∀ w ∈ front ++ u :: back, ∀ d ∈ w.events, d.seq < e.seq) :
    Usage.Numbered (front ++ { u with events := u.events ++ [e] } :: back) := by
  obtain ⟨once, own, rising, distinct⟩ := h
  have here : u ∈ front ++ u :: back := by simp
  -- what holds of every usage holds of the others, and of this one with the new event
  have each : ∀ {Q : Usage → Prop}, (∀ w ∈ front ++ u :: back, Q w) →
      Q { u with events := u.events ++ [e] } →
      ∀ w ∈ front ++ { u with events := u.events ++ [e] } :: back, Q w := by
    intro Q old new w member
    simp only [List.mem_append, List.mem_cons] at member old
    rcases member with front | rfl | back
    · exact old w (.inl front)
    · exact new
    · exact old w (.inr (.inr back))
  refine ⟨by simpa using once, each own ?_, each rising ?_, ?_⟩
  · exact List.forall_mem_append.mpr ⟨own u here, List.forall_mem_singleton.mpr mine.symm⟩
  · refine List.pairwise_append.mpr ⟨rising u here, List.pairwise_singleton .., ?_⟩
    intro d old d' new
    rw [List.mem_singleton.mp new]
    exact above u here d old
  · have moved : ((front ++ { u with events := u.events ++ [e] } :: back).flatMap (·.events)).Perm
        (e :: (front ++ u :: back).flatMap (·.events)) := by
      simp only [List.flatMap_append, List.flatMap_cons, List.append_assoc, List.singleton_append]
      rw [← List.append_assoc, ← List.append_assoc _ _ (back.flatMap _)]
      exact List.perm_middle
    refine (moved.map _).nodup_iff.mpr ?_
    rw [List.map_cons, List.nodup_cons]
    refine ⟨?_, distinct⟩
    intro member
    obtain ⟨d, there, same⟩ := List.mem_map.mp member
    obtain ⟨w, among, old⟩ := List.mem_flatMap.mp there
    exact absurd same (Nat.ne_of_lt (above w among d old))

theorem numbered_lasting : Ledger.Lasting fun l =>
    Usage.Numbered l.usages ∧ ∀ u ∈ l.usages, ∀ e ∈ u.events, e.seq < l.seq where
  frames _ _ := id
  loops _ _ := id
  record l e := by
    rintro ⟨numbered, below⟩
    obtain ⟨front, u, back, mine, added, origin⟩ := addEvent_cases { e with seq := l.seq } l.usages
    simp only [Ledger.record, added]
    have before : Usage.Numbered (front ++ u :: back) ∧
        ∀ w ∈ front ++ u :: back, ∀ d ∈ w.events, d.seq < l.seq := by
      rcases origin with there | ⟨fresh, opened⟩
      · rw [← there]
        exact ⟨numbered, below⟩
      · rw [opened]
        exact ⟨numbered.opened fresh 0, below_opened below⟩
    refine ⟨before.1.appended mine before.2, ?_⟩
    intro w member d there
    have old := before.2
    simp only [List.mem_append, List.mem_cons] at member old
    rcases member with first | rfl | last
    · exact Nat.lt_succ_of_lt (old w (.inl first) d there)
    · rcases List.mem_append.mp there with earlier | new
      · exact Nat.lt_succ_of_lt (old u (.inr (.inl rfl)) d earlier)
      · rw [List.mem_singleton.mp new]
        exact Nat.lt_succ_self _
    · exact Nat.lt_succ_of_lt (old w (.inr (.inr last)) d there)
  declare l depth b := by
    rintro ⟨numbered, below⟩
    simp only [Ledger.declare]
    split
    · exact ⟨numbered, below⟩
    · rename_i missing
      refine ⟨numbered.opened ?_ depth, ?_⟩
      · intro member
        obtain ⟨u, there, same⟩ := List.mem_map.mp member
        exact missing (List.any_eq_true.mpr ⟨u, there, by simpa using same⟩)
      · exact below_opened below

end Numbers

theorem collect_numbered (f : FuncDecl) (table : Signatures) :
    Usage.Numbered (f.collect table).usages := by
  have start : Usage.Numbered ({} : Ledger).usages ∧
      ∀ u ∈ ({} : Ledger).usages, ∀ e ∈ u.events, e.seq < ({} : Ledger).seq :=
    ⟨⟨List.nodup_nil, by simp, by simp, List.nodup_nil⟩, by simp⟩
  rw [FuncDecl.collect_eq, (FuncDecl.collectWith_ledger f _).1]
  exact (runAll_lasting numbered_lasting _ [] {} start).1

end Tenure
