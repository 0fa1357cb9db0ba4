import Tenure.Proofs.Mentions
import Tenure.Proofs.Taking

/- Settling the bindings of a function one by one. Loop variables come first, and a loop that modifies
   its variable turns reads of what it runs over into modifications. When every loop stands behind the
   loops whose variables it runs over, this never touches a binding that is settled: each outcome is the
   one that the final uses give. -/
namespace Tenure

namespace Collection

def settlement? (m : Module) (c : Collection) (b : Nat) : Option Settlement :=
  (m.binding? b).map (·.settle ((c.usage? b).getD { binding := b }))

def mapEvents (c : Collection) (g : Event → Event) : Collection :=
  { c with usages := c.usages.map fun u => { u with events := u.events.map g } }

def runners (c : Collection) (b : Nat) : List Nat := (c.events b).map (·.loopVar)

def Ranked (c : Collection) : Prop :=
  ∀ front site back, c.loops = front ++ site :: back → site.var ≠ 0 →
    ∀ l ∈ front ++ [site], l.var ∈ c.runners site.var → l.var = 0

section MapEvents

variable (c : Collection) (g : Event → Event) (b : Nat)

theorem usage_mapEvents :
    (c.mapEvents g).usage? b = (c.usage? b).map fun u => { u with events := u.events.map g } := by
  rw [usage?, usage?, mapEvents, List.find?_map]
  rfl

theorem events_mapEvents : (c.mapEvents g).events b = (c.events b).map g := by
  rw [events, usage_mapEvents, events]
  cases c.usage? b <;> rfl

theorem mapEvents_mapEvents (h : Event → Event) :
    (c.mapEvents g).mapEvents h = c.mapEvents (h ∘ g) := by
  simp [mapEvents, Function.comp_def]

theorem mapEvents_id : c.mapEvents id = c := by
  simp [mapEvents]

theorem settlement_zero (m : Module) : c.settlement? m 0 = none := rfl

theorem settlement_mapEvents {g : Event → Event} {b : Nat} (m : Module)
    (same : ∀ e ∈ c.events b, g e = e) :
    (c.mapEvents g).settlement? m b = c.settlement? m b := by
  rw [settlement?, settlement?, usage_mapEvents]
  rw [events] at same
  cases found : c.usage? b with
  | none => rfl
  | some u =>
    rw [found, Option.map_some, Option.getD_some] at same
    have kept : u.events.map g = u.events := (List.map_congr_left same).trans (List.map_id _)
    rw [Option.map_some, kept]

end MapEvents

end Collection

namespace Verdict

structure Settled (m : Module) (c : Collection) (bs : List Nat) (v : Verdict) : Prop where
  modes : ∀ b, v.modes.lookup b = if b ∈ bs then (c.settlement? m b).map (·.mode) else none
  points : v.points = (bs.filterMap (c.settlement? m)).flatMap (·.points)
  findings : v.findings = (bs.filterMap (c.settlement? m)).flatMap (·.findings)

section Settled

variable {m : Module} {c d : Collection} {bs : List Nat} {v : Verdict}

theorem Settled.start (m : Module) (c : Collection) : Settled m c [] {} :=
  ⟨fun _ => rfl, rfl, rfl⟩

theorem Settled.settle (h : Settled m c bs v) (b : Nat) : Settled m c (bs ++ [b]) (v.settle m c b) := by
  obtain ⟨modes, points, findings⟩ := h
  cases known : m.binding? b with
  | none =>
    have nothing : c.settlement? m b = none := by rw [Collection.settlement?, known, Option.map_none]
    have same : v.settle m c b = v := by simp only [Verdict.settle, known]
    rw [same]
    refine ⟨?_, by simp [points, nothing], by simp [findings, nothing]⟩
    intro a
    rw [modes]
    simp only [List.mem_append, List.mem_singleton]
    by_cases mine : a = b
    · subst mine
      simp [nothing]
    · simp [mine]
  | some bd =>
    have outcome : c.settlement? m b = some (bd.settle ((c.usage? b).getD { binding := b })) := by
      rw [Collection.settlement?, known, Option.map_some]
    have added : v.settle m c b = v.add b (bd.settle ((c.usage? b).getD { binding := b })) := by
      simp only [Verdict.settle, known]
    rw [added]
    refine ⟨?_, by simp [Verdict.add, points, outcome], by simp [Verdict.add, findings, outcome]⟩
    intro a
    rw [Verdict.add, lookup_setKey, modes]
    simp only [List.mem_append, List.mem_singleton]
    by_cases mine : a = b
    · subst mine
      simp [outcome]
    · simp [mine]

theorem Settled.transport (h : Settled m c bs v)
    (same : ∀ b ∈ bs, d.settlement? m b = c.settlement? m b) : Settled m d bs v := by
  have all : bs.filterMap (d.settlement? m) = bs.filterMap (c.settlement? m) :=
    List.filterMap_congr same
  refine ⟨?_, by rw [h.points, all], by rw [h.findings, all]⟩
  intro b
  rw [h.modes b]
  by_cases member : b ∈ bs
  · rw [if_pos member, if_pos member, same b member]
  · rw [if_neg member, if_neg member]

theorem Settled.mode (h : Settled m c bs v) {b : Nat} (member : b ∈ bs) :
    v.mode b = ((c.settlement? m b).map (·.mode)).getD .unresolved := by
  rw [Verdict.mode, h.modes, if_pos member]

theorem Settled.rest (h : Settled m c bs v) (todo : List Nat) :
    ∃ more, Settled m c (bs ++ more) (todo.foldl (settleNew m c) v) ∧
      (∀ b, b ∈ bs ++ more ↔ b ∈ bs ∨ b ∈ todo) ∧
      ((bindingsOf bs).Nodup → (bindingsOf (bs ++ more)).Nodup) := by
  induction todo generalizing v bs with
  | nil => exact ⟨[], by simpa using h, by simp, by simp⟩
  | cons b todo ih =>
    by_cases member : b ∈ bs
    · have same : v.settleNew m c b = v := by
        unfold settleNew
        split
        · rfl
        · rename_i missing
          have unknown : m.binding? b = none := by
            rw [h.modes, if_pos member, Collection.settlement?] at missing
            simpa using missing
          simp only [Verdict.settle, unknown]
      obtain ⟨more, settled, members, once⟩ := ih h
      rw [List.foldl_cons, same]
      refine ⟨more, settled, ?_, once⟩
      intro a
      rw [members, List.mem_cons]
      constructor
      · rintro (old | new)
        · exact .inl old
        · exact .inr (.inr new)
      · rintro (old | rfl | new)
        · exact .inl old
        · exact .inl member
        · exact .inr new
    · have missing : v.modes.lookup b = none := by rw [h.modes, if_neg member]
      have new : v.settleNew m c b = v.settle m c b := by
        rw [settleNew, missing]
        rfl
      obtain ⟨more, settled, members, once⟩ := ih (h.settle b)
      rw [List.append_assoc] at settled members once
      rw [List.foldl_cons, new]
      refine ⟨[b] ++ more, settled, ?_, ?_⟩
      · intro a
        rw [members, List.mem_append, List.mem_singleton, List.mem_cons, or_assoc]
      · intro distinct
        apply once
        rw [bindingsOf, List.filter_append, ← bindingsOf, List.nodup_append]
        refine ⟨distinct, (List.nodup_singleton b).filter _, ?_⟩
        intro x there y here same
        have new : x = b := same.trans (List.mem_singleton.mp (List.mem_filter.mp here).1)
        exact member (new ▸ (List.mem_filter.mp there).1)

end Settled

end Verdict

/-- What becomes of an event when the loops with these variables are settled: reading what a loop runs
over is modifying it when the variable is modified. -/
def Event.ranOver (v : Verdict) (vars : List Nat) (e : Event) : Event :=
  if e.kind = .read ∧ e.loopVar ∈ vars ∧ v.mode e.loopVar = .exclusive then { e with kind := .mutate }
  else e

theorem ranOver_loopVar (v : Verdict) (vars : List Nat) (e : Event) :
    (e.ranOver v vars).loopVar = e.loopVar := by
  unfold Event.ranOver
  split <;> rfl

theorem runners_ranOver (c : Collection) (v : Verdict) (vars : List Nat) (b : Nat) :
    (c.mapEvents (Event.ranOver v vars)).runners b = c.runners b := by
  rw [Collection.runners, Collection.events_mapEvents, List.map_map, Collection.runners]
  exact List.map_congr_left fun e _ => ranOver_loopVar v vars e

variable {vars : List Nat} {c : Collection}

theorem ranOver_congr {v w : Verdict} (same : ∀ x ∈ vars, w.mode x = v.mode x)
    (e : Event) : e.ranOver w vars = e.ranOver v vars := by
  unfold Event.ranOver
  by_cases member : e.loopVar ∈ vars
  · rw [same _ member]
  · simp [member]

theorem ranOver_cons {v w : Verdict} (same : ∀ x ∈ vars, w.mode x = v.mode x)
    (x : Nat) (e : Event) :
    e.ranOver w (x :: vars) =
      if w.mode x = .exclusive then (e.ranOver v vars).retarget x else e.ranOver v vars := by
  rw [← ranOver_congr same]
  by_cases reading : e.kind = .read
  · by_cases mine : e.loopVar = x
    · by_cases strong : w.mode x = .exclusive
      · by_cases member : x ∈ vars
        · simp [Event.ranOver, Event.retarget, reading, mine, strong, member]
        · simp [Event.ranOver, Event.retarget, reading, mine, strong, member]
      · simp [Event.ranOver, mine, strong]
    · have other : (e.ranOver w vars).retarget x = e.ranOver w vars := by
        rw [Event.retarget, ranOver_loopVar, if_neg (fun both => mine both.1)]
      rw [other, ite_self]
      simp [Event.ranOver, mine]
  · have plain : ∀ vars, e.ranOver w vars = e := by
      intro vars
      rw [Event.ranOver, if_neg (fun all => reading all.1)]
    have kept : e.retarget x = e := by rw [Event.retarget, if_neg (fun both => reading both.2)]
    rw [plain, plain, kept, ite_self]

section Loops

variable {m : Module} {c : Collection}

theorem Verdict.Settled.nonzero {bs : List Nat} {v : Verdict} (h : v.Settled m c bs) {b : Nat}
    (strong : v.mode b = .exclusive) : b ≠ 0 := by
  intro zero
  subst zero
  rw [Verdict.mode, h.modes, Collection.settlement_zero] at strong
  simp at strong

theorem resolveLoop_settled {d : Collection} {v : Verdict} {l : LoopSite} {vars : List Nat}
    (settled : v.Settled m d vars.reverse) (uses : d = c.mapEvents (Event.ranOver v vars))
    (free : (v.settle m d l.var).mode l.var = .exclusive →
      ∀ b ∈ l.var :: vars, b ≠ 0 → l.var ∉ c.runners b) :
    (resolveLoop m l (d, v)).2.Settled m (resolveLoop m l (d, v)).1 (l.var :: vars).reverse ∧
      (resolveLoop m l (d, v)).1 =
        c.mapEvents (Event.ranOver (resolveLoop m l (d, v)).2 (l.var :: vars)) := by
  have next := settled.settle l.var
  rw [← List.reverse_cons] at next
  have mode : ∀ x ∈ vars, (v.settle m d l.var).mode x = v.mode x := by
    intro x member
    rw [settled.mode (List.mem_reverse.mpr member),
      next.mode (List.mem_reverse.mpr (List.mem_cons_of_mem _ member))]
  have after : Event.ranOver (v.settle m d l.var) (l.var :: vars) = fun e =>
      if (v.settle m d l.var).mode l.var = .exclusive then (e.ranOver v vars).retarget l.var
      else e.ranOver v vars := funext (ranOver_cons mode l.var)
  -- the adaptor of the loop matters to neither
  suffices goal : (v.settle m d l.var).Settled m (resolveLoop m l (d, v)).1 (l.var :: vars).reverse ∧
      (resolveLoop m l (d, v)).1 =
        c.mapEvents (Event.ranOver (v.settle m d l.var) (l.var :: vars)) from
    ⟨⟨goal.1.modes, goal.1.points, goal.1.findings⟩, goal.2⟩
  unfold resolveLoop
  dsimp only
  rw [after]
  by_cases strong : (v.settle m d l.var).mode l.var = .exclusive
  · simp only [if_pos strong]
    constructor
    · apply next.transport
      intro b member
      by_cases known : b = 0
      · rw [known, Collection.settlement_zero, Collection.settlement_zero]
      · apply Collection.settlement_mapEvents
        intro e there
        have missing := free strong b (List.mem_reverse.mp member) known
        rw [← runners_ranOver c v vars, ← uses] at missing
        rw [Event.retarget, if_neg]
        exact fun both => missing (both.1 ▸ List.mem_map_of_mem there)
    · rw [uses]
      exact Collection.mapEvents_mapEvents ..
  · simp only [if_neg strong]
    exact ⟨next, uses⟩

theorem loops_settled (ranked : c.Ranked) (m : Module) (front ls : List LoopSite)
    (split : c.loops = front ++ ls) :
    (ls.foldr (resolveLoop m) (c, {})).2.Settled m (ls.foldr (resolveLoop m) (c, {})).1
        (ls.map (·.var)).reverse ∧
      (ls.foldr (resolveLoop m) (c, {})).1 =
        c.mapEvents (Event.ranOver (ls.foldr (resolveLoop m) (c, {})).2 (ls.map (·.var))) := by
  induction ls generalizing front with
  | nil =>
    refine ⟨.start m c, ?_⟩
    have same : Event.ranOver {} [] = id := by
      funext e
      simp [Event.ranOver]
    rw [List.foldr_nil, List.map_nil, same, Collection.mapEvents_id]
  | cons l ls ih =>
    obtain ⟨settled, uses⟩ := ih (front ++ [l]) (by rw [split, List.append_assoc]; rfl)
    rw [List.foldr_cons, List.map_cons]
    refine resolveLoop_settled settled uses ?_
    intro strong b member known runs
    refine (settled.settle l.var).nonzero strong ?_
    rcases List.mem_cons.mp member with rfl | later
    · exact ranked front l ls split known l (by simp) runs
    · obtain ⟨site, there, rfl⟩ := List.mem_map.mp later
      obtain ⟨before, behind, rfl⟩ := List.append_of_mem there
      refine ranked (front ++ l :: before) site behind ?_ known l (by simp) runs
      rw [split, List.append_assoc, List.cons_append]

end Loops

/-- What a resolution amounts to: the final uses, and for each of the bindings the outcome that these
uses give. -/
structure Collection.Resolves (m : Module) (c : Collection) (bs : List Nat) : Prop where
  uses : (c.resolve m).1 =
    c.mapEvents (Event.ranOver (c.resolve m).2 (c.loops.map (·.var)))
  modes : ∀ b ∈ bindingsOf bs, (c.resolve m).2.mode b =
    (((c.resolve m).1.settlement? m b).map (·.mode)).getD .unresolved
  points : (c.resolve m).2.points.Perm
    ((bs.filterMap ((c.resolve m).1.settlement? m)).flatMap (·.points) ++
      (c.projections.map (Projection.provide m)).filterMap Provision.point?)
  findings : (c.resolve m).2.findings.Perm
    ((bs.filterMap ((c.resolve m).1.settlement? m)).flatMap (·.findings) ++
      (c.projections.map (Projection.provide m)).filterMap Provision.finding?)

theorem resolve_settled (ranked : c.Ranked) (m : Module) : ∃ bs, c.Resolves m bs ∧
      (∀ b, b ∈ bs ↔ b ∈ c.loops.map (·.var) ∨ b ∈ c.usages.map (·.binding)) ∧
      ((bindingsOf (c.loops.map (·.var))).Nodup → (bindingsOf bs).Nodup) := by
  obtain ⟨looped, uses⟩ := loops_settled ranked m [] c.loops rfl
  obtain ⟨more, settled, members, once⟩ := looped.rest ((c.looped m).1.usages.map (·.binding))
  obtain ⟨final, modes, points, findings⟩ := c.resolve_eq m
  have shape : (c.looped m).1 =
      c.mapEvents (Event.ranOver (c.looped m).2 (c.loops.map (·.var))) := uses
  have parts : (c.looped m).1.projections = c.projections := by
    rw [shape]
    rfl
  have bindings : (c.looped m).1.usages.map (·.binding) = c.usages.map (·.binding) := by
    rw [shape, Collection.mapEvents, List.map_map]
    rfl
  rw [bindings] at members
  have all : (c.settled m).Settled m (c.looped m).1 ((c.loops.map (·.var)).reverse ++ more) := settled
  have mode : ∀ b, (c.resolve m).2.mode b = (c.settled m).mode b := by
    intro b
    rw [Verdict.mode, modes, Verdict.mode]
  rw [parts] at points findings
  refine ⟨(c.loops.map (·.var)).reverse ++ more, ⟨?_, ?_, ?_, ?_⟩, ?_, ?_⟩
  · rw [final, shape]
    congr 1
    funext e
    apply ranOver_congr
    intro x member
    have early : x ∈ (c.loops.map (·.var)).reverse := List.mem_reverse.mpr member
    rw [mode, all.mode (List.mem_append_left _ early)]
    exact looped.mode early
  · intro b member
    rw [mode, all.mode (List.mem_filter.mp member).1, final]
  · rw [final, ← all.points]
    exact points
  · rw [final, ← all.findings]
    exact findings
  · intro b
    rw [members, List.mem_reverse]
  · intro distinct
    apply once
    rw [bindingsOf, List.filter_reverse]
    exact List.nodup_reverse.mpr distinct

theorem Collection.Resolves.reorder {m : Module} {bs ds : List Nat}
    (h : c.Resolves m bs) (same : (bindingsOf bs).Perm (bindingsOf ds)) : c.Resolves m ds := by
  have proper : ∀ xs : List Nat, (bindingsOf xs).filterMap ((c.resolve m).1.settlement? m) =
      xs.filterMap ((c.resolve m).1.settlement? m) := by
    intro xs
    induction xs with
    | nil => rfl
    | cons x xs ih =>
      by_cases zero : x = 0
      · subst zero
        rw [List.filterMap_cons, settlement_zero, ← ih]
        rfl
      · have kept : bindingsOf (x :: xs) = x :: bindingsOf xs :=
          List.filter_cons_of_pos (by simpa using zero)
        rw [kept, List.filterMap_cons, List.filterMap_cons, ih]
  have all : (bs.filterMap ((c.resolve m).1.settlement? m)).Perm
      (ds.filterMap ((c.resolve m).1.settlement? m)) := by
    rw [← proper bs, ← proper ds]
    exact same.filterMap _
  refine ⟨h.uses, fun b member => h.modes b (same.mem_iff.mpr member), ?_, ?_⟩
  · exact h.points.trans ((all.flatMap_right _).append_right _)
  · exact h.findings.trans ((all.flatMap_right _).append_right _)

end Tenure
