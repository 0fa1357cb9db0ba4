import Mathlib.Data.List.Forall2
import Tenure.Program.Sketch
import Tenure.Proofs.Threads

/- Every use of a binding is recorded once. A use outside of closures, or inside closures that also
   declare the binding, is an event of its own. All uses inside a closure that does not declare the
   binding are one event together, at the outermost such closure, as strong as the strongest of them. -/
namespace Tenure

variable {b : Nat} {as : List Act} {t : Thread} {view seen : List Nat}

namespace Access

def rank : Access → Nat
  | .read => 0
  | .mutate => 1
  | .move => 2
  | .store => 3

def join (a b : Access) : Access := if a.rank < b.rank then b else a

/-- What an access inside closures amounts to outside: what is given away, or is used by a closure that
outlives its statement, is stored. -/
def effect (escapes : Bool) (a : Access) : Access := if escapes || a.transfers then .store else a

def strongest (as : List Access) : Access := as.foldl join .read

theorem read_join (a : Access) : Access.read.join a = a := by
  cases a <;> rfl

theorem join_assoc (a b c : Access) : (a.join b).join c = a.join (b.join c) := by
  cases a <;> cases b <;> cases c <;> rfl

theorem effect_effect (d e : Bool) (a : Access) : (a.effect d).effect e = a.effect (e || d) := by
  cases a <;> cases d <;> cases e <;> rfl

theorem join_effect (e : Bool) (a b : Access) :
    (a.join b).effect e = (a.effect e).join (b.effect e) := by
  cases a <;> cases b <;> cases e <;> rfl

theorem foldl_join (as : List Access) (a : Access) : as.foldl join a = a.join (strongest as) := by
  induction as generalizing a with
  | nil => cases a <;> rfl
  | cons b as ih => rw [strongest, List.foldl_cons, List.foldl_cons, ih, ih, read_join, join_assoc]

theorem strongest_cons (a : Access) (as : List Access) :
    strongest (a :: as) = a.join (strongest as) := by
  rw [strongest, List.foldl_cons, read_join, foldl_join]

theorem strongest_effect {as : List Access} (some : as ≠ []) (e : Bool) :
    strongest (as.map (effect e)) = (strongest as).effect e := by
  induction as with
  | nil => exact absurd rfl some
  | cons a as ih =>
    rw [List.map_cons, strongest_cons, strongest_cons, join_effect]
    by_cases more : as = []
    · subst more
      cases a <;> cases e <;> rfl
    · rw [ih more]

def absorb (known : Option Access) (as : List Access) : Option Access :=
  if as.isEmpty then known else some ((known.getD .read).join (strongest as))

theorem absorb_append (known : Option Access) (as bs : List Access) :
    absorb (absorb known as) bs = absorb known (as ++ bs) := by
  cases as with
  | nil => rfl
  | cons a as =>
    cases bs with
    | nil => rw [List.append_nil]; rfl
    | cons b bs =>
      have joined : strongest (a :: (as ++ b :: bs)) =
          (strongest (a :: as)).join (strongest (b :: bs)) :=
        (List.foldl_append (l := a :: as)).trans (foldl_join ..)
      simp only [absorb, List.isEmpty_cons, Bool.false_eq_true, if_false, Option.getD_some, joined,
        join_assoc, List.cons_append]

end Access

namespace Capture

theorem add_access (cap : Capture) (a : Access) :
    (cap.add a).access false = (cap.access false).join (a.effect false) := by
  obtain ⟨b, span, mutates, moves⟩ := cap
  cases a <;> cases mutates <;> cases moves <;> rfl

theorem access_effect (cap : Capture) (escapes : Bool) :
    cap.access escapes = (cap.access false).effect escapes := by
  obtain ⟨b, span, mutates, moves⟩ := cap
  cases escapes <;> cases mutates <;> cases moves <;> rfl

theorem event_effective (cap : Capture) (depth expr : Nat) (escapes : Bool) (spot : Spot) :
    (cap.event depth expr escapes spot).effective = EventKind.ofAccess (cap.access escapes) := by
  obtain ⟨b, span, mutates, moves⟩ := cap
  cases escapes <;> cases mutates <;> cases moves <;> rfl

end Capture

/-- Something that is recorded for a binding: a use of its own, or all uses in a closure. -/
structure Mention where
  expr : Nat
  isCapture : Bool := false
  effect : EventKind
  stmt : Range
  loops : List Nat
  inReturn : Bool
  reinit : Bool := false
  loopVar : Nat := 0

def Use.mention (u : Use) (loops : List Nat) : Mention :=
  { expr := u.expr, effect := EventKind.ofAccess u.access, stmt := u.spot.stmt, loops
    inReturn := u.spot.inReturn, reinit := u.reinit, loopVar := u.spot.loopVar }

mutual
def Act.effects (b : Nat) (escapes : Bool) : Act → List Access
  | .declare _ => []
  | .use u => if u.binding = b then [u.access.effect escapes] else []
  | .loop _ acts => Act.effectsAll b escapes acts
  | .each _ acts => Act.effectsAll b escapes acts
  | .closure _ inner _ _ acts => Act.effectsAll b (escapes || inner) acts
def Act.effectsAll (b : Nat) (escapes : Bool) : List Act → List Access
  | [] => []
  | a :: as => a.effects b escapes ++ Act.effectsAll b escapes as
end

def capturing (expr : Nat) (spot : Spot) (loops : List Nat) (effects : List Access) : List Mention :=
  if effects.isEmpty then []
  else [{ expr, isCapture := true, effect := EventKind.ofAccess (Access.strongest effects)
          stmt := spot.stmt, loops, inReturn := spot.inReturn }]

mutual
/-- What is recorded for `b`. A closure outside of which `b` is declared counts as a whole. -/
def Act.mentions (b : Nat) (loops : List Nat) : Act → List Mention
  | .declare _ => []
  | .use u => if u.binding = b then [u.mention loops] else []
  | .loop stmt acts => Act.mentionsAll b (stmt :: loops) acts
  | .each site acts => Act.mentionsAll b (site.stmt :: loops) acts
  | .closure expr escapes params spot acts =>
    if b ∈ params ++ Act.declaredAll acts then Act.mentionsAll b loops acts
    else capturing expr spot loops (Act.effectsAll b escapes acts)
def Act.mentionsAll (b : Nat) (loops : List Nat) : List Act → List Mention
  | [] => []
  | a :: as => a.mentions b loops ++ Act.mentionsAll b loops as
end

mutual
def Act.home? (b : Nat) (loops : List Nat) : Act → Option (List Nat)
  | .declare c => if b = c then some loops else none
  | .use _ => none
  | .loop stmt acts => Act.homeAll? b (stmt :: loops) acts
  | .each site acts =>
    if b ∈ bindingsOf [site.var] then some (site.stmt :: loops)
    else Act.homeAll? b (site.stmt :: loops) acts
  | .closure _ _ params _ acts =>
    if b ∈ params then some loops else Act.homeAll? b loops acts
def Act.homeAll? (b : Nat) (loops : List Nat) : List Act → Option (List Nat)
  | [] => none
  | a :: as => (a.home? b loops).or (Act.homeAll? b loops as)
end

structure Event.Records (e : Event) (x : Mention) : Prop where
  expr : e.expr = x.expr
  capture : e.kind = .capture ↔ x.isCapture = true
  effect : e.effective = x.effect
  stmt : e.stmt = x.stmt
  depth : e.loopDepth = x.loops.length
  inReturn : e.inReturn = x.inReturn
  reinit : e.reinit = x.reinit
  loopVar : e.loopVar = x.loopVar

theorem Use.event_records (u : Use) (loops : List Nat) :
    (u.event loops.length).Records (u.mention loops) := by
  refine ⟨rfl, ?_, ?_, rfl, rfl, rfl, rfl, rfl⟩
  · simp only [Use.event, Use.mention]
    cases u.access <;> decide
  · obtain ⟨b, access, expr, span, reinit, spot⟩ := u
    cases access <;> rfl

theorem effectsAll_escaping (b : Nat) (as : List Act) (d e : Bool) :
    (Act.effectsAll b d as).map (Access.effect e) = Act.effectsAll b (e || d) as := by
  induction as using acts_induction generalizing d <;>
    simp only [Act.effectsAll, Act.effects, List.map_append, List.map_nil, List.append_nil] at *
  case cons a as rest first => rw [first, rest]
  case use u =>
    split
    · rw [List.map_singleton, Access.effect_effect]
    · rfl
  case loop stmt acts inner | each site acts inner => exact inner d
  case closure expr escapes params spot acts inner => rw [inner, Bool.or_assoc]

namespace Thread

def strength (t : Thread) : Option Access := t.capture.map (·.access false)

def record (t : Thread) (e : Event) : Thread := { t with usage := some (Usage.grown t.usage e) }

theorem foldl_record_local (es : List Event) (t : Thread) :
    (es.foldl record t).isLocal = t.isLocal ∧ (es.foldl record t).capture = t.capture := by
  induction es generalizing t with
  | nil => exact ⟨rfl, rfl⟩
  | cons e es ih => exact ih (t.record e)

theorem foldl_record_usage (es : List Event) (t : Thread) {u : Usage} (known : t.usage = some u) :
    (es.foldl record t).usage = some { u with events := u.events ++ es } := by
  induction es generalizing t u with
  | nil => simpa using known
  | cons e es ih =>
    have first : (t.record e).usage = some { u with events := u.events ++ [e] } := by
      rw [record, known]
      rfl
    rw [List.foldl_cons, ih _ first, List.append_assoc, List.singleton_append]

structure Absorbs (t k : Thread) (effects : List Access) : Prop where
  usage : k.usage = t.usage
  away : k.isLocal = false
  strength : k.strength = Access.absorb t.strength effects

theorem Absorbs.none (away : t.isLocal = false) : t.Absorbs t [] := ⟨rfl, away, rfl⟩

theorem Absorbs.trans {k j : Thread} {as bs : List Access} (first : t.Absorbs k as)
    (second : k.Absorbs j bs) : t.Absorbs j (as ++ bs) where
  usage := second.usage.trans first.usage
  away := second.away
  strength := by rw [second.strength, first.strength, Access.absorb_append]

theorem note_away (away : t.isLocal = false) (e : Event) (access : Access) :
    t.Absorbs (t.note e access) [access.effect false] := by
  rw [note, if_neg (by simp [away])]
  refine ⟨rfl, away, ?_⟩
  simp only [strength, Option.map_some, Capture.add_access, Access.absorb, List.isEmpty_cons,
    Bool.false_eq_true, if_false, Access.strongest_cons]
  cases t.capture with
  | none => cases access <;> rfl
  | some cap =>
    simp only [Option.getD_some, Option.map_some]
    cases access <;> rfl

theorem enter_away {params : List Nat} (out : b ∉ params) (t : Thread) (depth : Nat) :
    t.enter depth b params = { usage := t.usage, isLocal := false } := if_neg out

section Leave

variable {t inner : Thread} {effects : List Access} (depth expr : Nat) (escapes : Bool) (spot : Spot)

theorem captured {cap : Capture} (done : Absorbs { usage := t.usage, isLocal := false } inner effects)
    (captured : inner.capture = some cap) :
    effects ≠ [] ∧
      cap.access escapes = Access.strongest (effects.map (Access.effect escapes)) := by
  have strength := done.strength
  rw [Thread.strength, captured, Option.map_some] at strength
  have some : effects ≠ [] := by
    intro none
    rw [none] at strength
    exact absurd strength (by simp [Access.absorb, Thread.strength])
  have known : cap.access false = Access.strongest effects := by
    simpa [Access.absorb, some, Thread.strength, Access.read_join] using strength
  refine ⟨some, ?_⟩
  rw [cap.access_effect, known, Access.strongest_effect some]

theorem uncaptured (done : Absorbs { usage := t.usage, isLocal := false } inner effects)
    (free : inner.capture = none) : effects = [] := by
  have strength := done.strength
  rw [Thread.strength, free, Option.map_none] at strength
  by_cases some : effects = []
  · exact some
  · exact absurd strength (by simp [Access.absorb, some])

theorem leave_away (away : t.isLocal = false)
    (done : Absorbs { usage := t.usage, isLocal := false } inner effects) :
    t.Absorbs (t.leave inner depth expr escapes spot) (effects.map (Access.effect escapes)) := by
  rw [leave]
  split
  · rename_i free
    rw [uncaptured done free]
    exact ⟨done.usage, away, rfl⟩
  · rename_i cap found
    obtain ⟨some, access⟩ := captured escapes done found
    obtain ⟨usage, out, strength⟩ := note_away (t := { t with usage := inner.usage }) away
      (cap.event depth expr escapes spot) (cap.access escapes)
    refine ⟨usage.trans done.usage, out, strength.trans ?_⟩
    have again : (cap.access escapes).effect false = cap.access escapes := by
      rw [cap.access_effect, Access.effect_effect, Bool.false_or]
    have nonempty : effects.isEmpty = false := by simp [some]
    rw [again]
    simp only [Access.absorb, List.isEmpty_cons, Bool.false_eq_true, if_false, List.isEmpty_map,
      nonempty, access, Access.strongest, List.foldl_cons, List.foldl_nil, Access.read_join]
    rfl

theorem leave_local (loops : List Nat) (here : t.isLocal = true)
    (done : Absorbs { usage := t.usage, isLocal := false } inner effects) :
    ∃ es, List.Forall₂ Event.Records es
        (capturing expr spot loops (effects.map (Access.effect escapes))) ∧
      t.leave inner loops.length expr escapes spot = es.foldl record t := by
  have same : ({ t with usage := inner.usage } : Thread) = t := by rw [done.usage]
  rw [leave]
  split
  · rename_i free
    rw [uncaptured done free, same]
    exact ⟨[], .nil, rfl⟩
  · rename_i cap found
    obtain ⟨some, access⟩ := captured escapes done found
    have nonempty : effects.isEmpty = false := by simp [some]
    refine ⟨[cap.event loops.length expr escapes spot], ?_, ?_⟩
    · rw [capturing, List.isEmpty_map, nonempty, if_neg Bool.false_ne_true]
      refine .cons ⟨rfl, by simp [Capture.event], ?_, rfl, rfl, rfl, rfl, rfl⟩ .nil
      rw [cap.event_effective, access]
    · rw [same, note, if_pos here]
      rfl

end Leave

end Thread

theorem followAll_away (loops : List Nat) (out : b ∉ Act.declaredAll as) (away : t.isLocal = false) :
    t.Absorbs (Act.followAll b loops as t) (Act.effectsAll b false as) := by
  induction as using acts_induction generalizing loops t <;>
    simp only [Act.declaredAll, Act.declared, Act.followAll, Act.follow, Act.effectsAll, Act.effects,
      List.append_nil, List.mem_append, not_or] at *
  case nil => exact .none away
  case cons a as rest first =>
    have done := first loops out.1 away
    exact done.trans (rest loops out.2 done.away)
  case declare c =>
    rw [Thread.declareIn, if_neg out]
    exact .none away
  case use u =>
    split
    · exact Thread.note_away away _ _
    · exact .none away
  case loop stmt acts inner => exact inner _ out away
  case each site acts inner =>
    rw [Thread.declareIn, if_neg out.1]
    exact inner _ out.2 away
  case closure expr escapes params spot acts inner =>
    rw [Bool.false_or, Thread.enter_away out.1]
    have left := Thread.leave_away loops.length expr escapes spot away (inner loops out.2 rfl)
    rwa [effectsAll_escaping, Bool.or_false] at left

theorem followAll_local (loops : List Nat) (out : b ∉ Act.declaredAll as) (here : t.isLocal = true) :
    ∃ es, List.Forall₂ Event.Records es (Act.mentionsAll b loops as) ∧
      Act.followAll b loops as t = es.foldl Thread.record t := by
  induction as using acts_induction generalizing loops t <;>
    simp only [Act.declaredAll, Act.declared, Act.followAll, Act.follow, Act.mentionsAll, Act.mentions,
      List.append_nil, List.mem_append, not_or] at *
  case nil => exact ⟨[], .nil, rfl⟩
  case cons a as rest first =>
    obtain ⟨es, records, followed⟩ := first loops out.1 here
    have still := (Thread.foldl_record_local es t).1.trans here
    obtain ⟨ds, more, after⟩ := rest loops out.2 still
    refine ⟨es ++ ds, List.rel_append records more, ?_⟩
    rw [followed, after, List.foldl_append]
  case declare c =>
    rw [Thread.declareIn, if_neg out]
    exact ⟨[], .nil, rfl⟩
  case use u =>
    split
    · refine ⟨[u.event loops.length], .cons (u.event_records loops) .nil, ?_⟩
      rw [Thread.note, if_pos here]
      rfl
    · exact ⟨[], .nil, rfl⟩
  case loop stmt acts inner => exact inner _ out here
  case each site acts inner =>
    rw [Thread.declareIn, if_neg out.1]
    exact inner _ out.2 here
  case closure expr escapes params spot acts _ =>
    rw [if_neg (not_or.mpr out), Thread.enter_away out.1]
    have inner := followAll_away (t := { usage := t.usage, isLocal := false }) loops out.2 rfl
    have left := Thread.leave_local expr escapes spot loops here inner
    rwa [effectsAll_escaping, Bool.or_false] at left

theorem opens_declared (a : Act) (opened : b ∈ a.opens) : b ∈ a.declared := by
  cases a with
  | declare c => rwa [Act.declared]
  | _ => cases opened

theorem unused (within : Act.AllScoped view seen as) (hidden : b ∉ view)
    (out : b ∉ Act.declaredAll as) (escapes : Bool) (loops : List Nat) :
    Act.effectsAll b escapes as = [] ∧ Act.mentionsAll b loops as = [] := by
  induction as using acts_induction generalizing view seen escapes loops <;>
    simp only [Act.AllScoped, Act.Scoped, Act.declaredAll, Act.declared, Act.effectsAll, Act.effects,
      Act.mentionsAll, Act.mentions, List.append_nil, List.mem_append, not_or, and_true] at *
  case cons a as rest first =>
    obtain ⟨effects, mentions⟩ := first within.1 hidden out.1 escapes loops
    have closed : b ∉ view ++ a.opens := by
      rw [List.mem_append, not_or]
      exact ⟨hidden, fun opened => out.1 (opens_declared a opened)⟩
    obtain ⟨more, others⟩ := rest within.2 closed out.2 escapes loops
    rw [effects, mentions, more, others]
    exact ⟨rfl, rfl⟩
  case use u =>
    have other : u.binding ≠ b := fun same => hidden (same ▸ within.1)
    rw [if_neg other, if_neg other]
    exact ⟨rfl, rfl⟩
  case loop stmt acts inner => exact inner within hidden out escapes _
  case each site acts inner => exact inner within (by simp [hidden, out.1]) out.2 escapes _
  case closure expr escapes params spot acts inner =>
    have quiet := fun escapes => (inner within (by simp [hidden, out.1]) out.2 escapes loops).1
    rw [if_neg (not_or.mpr out), quiet, quiet]
    exact ⟨rfl, rfl⟩

theorem followAll_unused (within : Act.AllScoped view seen as) (hidden : b ∉ view)
    (out : b ∉ Act.declaredAll as) (loops : List Nat) (t : Thread) :
    Act.mentionsAll b loops as = [] ∧ (Act.followAll b loops as t).usage = t.usage ∧
      (t.capture = none → (Act.followAll b loops as t).capture = none) := by
  obtain ⟨effects, mentions⟩ := unused within hidden out false loops
  refine ⟨mentions, ?_⟩
  by_cases here : t.isLocal = true
  · obtain ⟨es, records, followed⟩ := followAll_local loops out here
    rw [mentions, List.forall₂_nil_right_iff] at records
    rw [followed, records]
    exact ⟨rfl, id⟩
  · obtain ⟨usage, -, strength⟩ := followAll_away loops out (by simpa using here)
    refine ⟨usage, ?_⟩
    intro free
    rw [effects, Thread.strength, Thread.strength, free] at strength
    exact Option.map_eq_none_iff.mp strength

theorem homeAll_none (loops : List Nat) (out : b ∉ Act.declaredAll as) :
    Act.homeAll? b loops as = none := by
  induction as using acts_induction generalizing loops <;>
    simp only [Act.declaredAll, Act.declared, Act.homeAll?, Act.home?, List.append_nil, List.mem_append,
      List.mem_singleton, not_or, Option.or_none] at *
  case cons a as rest first => rw [first loops out.1, rest loops out.2, Option.or_none]
  case declare c => exact if_neg out
  case loop stmt acts inner => exact inner _ out
  case each site acts inner | closure expr escapes params spot acts inner =>
    rw [if_neg out.1, inner _ out.2]

theorem mem_capturing {expr : Nat} {spot : Spot} {loops : List Nat} {effects : List Access} {x : Mention}
    (member : x ∈ capturing expr spot loops effects) : x.loops = loops ∧ x.loopVar = 0 := by
  rw [capturing] at member
  split at member
  · cases member
  · rw [List.mem_singleton.mp member]
    exact ⟨rfl, rfl⟩

theorem mentions_loops {loops : List Nat} {x : Mention} (member : x ∈ Act.mentionsAll b loops as) :
    loops <:+ x.loops := by
  induction as using acts_induction generalizing loops <;>
    simp only [Act.mentionsAll, Act.mentions, List.append_nil, List.mem_append, List.not_mem_nil] at *
  case cons a as rest first => exact member.elim first rest
  case use u =>
    split at member
    · rw [List.mem_singleton.mp member]
      exact List.suffix_refl loops
    · cases member
  case loop stmt acts inner | each site acts inner => exact (List.suffix_cons _ loops).trans (inner member)
  case closure expr escapes params spot acts inner =>
    split at member
    · exact inner member
    · exact (mem_capturing member).1 ▸ List.suffix_refl loops

structure Thread.Recorded (t : Thread) (b : Nat) (home : List Nat) (ms : List Mention) : Prop where
  events : ∃ es, List.Forall₂ Event.Records es ms ∧
    t.usage = some { binding := b, declLoop := home.length, events := es }
  free : t.capture = none
  inside : ∀ x ∈ ms, home <:+ x.loops

section Recorded

variable {t : Thread} {b : Nat} {home loops : List Nat} {ms : List Mention} {as : List Act}

theorem Thread.declare_recorded (new : t.usage = none) (free : t.capture = none) :
    (t.declare home.length b).Recorded b home [] where
  events := ⟨[], .nil, by rw [declare, new]; rfl⟩
  free := free
  inside _ member := absurd member List.not_mem_nil

theorem Thread.Recorded.followed (h : t.Recorded b home ms) (here : t.isLocal = true)
    (out : b ∉ Act.declaredAll as) (inner : home <:+ loops) :
    (Act.followAll b loops as t).Recorded b home (ms ++ Act.mentionsAll b loops as) := by
  obtain ⟨⟨es, records, known⟩, free, inside⟩ := h
  obtain ⟨ds, more, followed⟩ := followAll_local loops out here
  rw [followed]
  refine ⟨⟨es ++ ds, List.rel_append records more, foldl_record_usage ds t known⟩, ?_, ?_⟩
  · rw [(foldl_record_local ds t).2, free]
  · intro x member
    rcases List.mem_append.mp member with old | new
    · exact inside x old
    · exact inner.trans (mentions_loops new)

theorem Thread.Recorded.kept (h : t.Recorded b home ms) (within : Act.AllScoped view seen as)
    (hidden : b ∉ view) (out : b ∉ Act.declaredAll as) :
    (Act.followAll b loops as t).Recorded b home (ms ++ Act.mentionsAll b loops as) := by
  obtain ⟨none, usage, free⟩ := followAll_unused within hidden out loops t
  rw [none, List.append_nil]
  exact ⟨by rw [usage]; exact h.events, free h.free, h.inside⟩

end Recorded

theorem followAll_declaring (loops : List Nat) (within : Act.AllScoped view seen as)
    (hidden : b ∉ view) (here : b ∈ Act.declaredAll as) (once : (Act.declaredAll as).Nodup)
    (new : t.usage = none) (free : t.capture = none) :
    ∃ home, Act.homeAll? b loops as = some home ∧
      (Act.followAll b loops as t).Recorded b home (Act.mentionsAll b loops as) := by
  have alone := fun a => @followAll_unused b [a]
  have nowhere := fun a => @homeAll_none b [a]
  induction as using acts_induction generalizing loops t view seen <;>
    simp only [Act.AllScoped, Act.Scoped, Act.declaredAll, Act.declared, Act.homeAll?, Act.home?,
      Act.followAll, Act.follow, Act.mentionsAll, Act.mentions, List.append_nil, Option.or_none,
      and_true] at *
  case nil | use u => cases here
  case cons a as rest first =>
    by_cases mine : b ∈ a.declared
    · have out : b ∉ Act.declaredAll as := List.disjoint_of_nodup_append once mine
      by_cases visible : b ∈ a.opens
      · cases a with
        | declare c =>
          obtain rfl := List.mem_singleton.mp visible
          have declared := @Thread.declare_recorded t b loops new free
          rw [Act.home?, if_pos rfl, Act.follow, Act.mentions, Thread.declareIn, if_pos (by simp)]
          exact ⟨loops, rfl, declared.followed rfl out (List.suffix_refl _)⟩
        | _ => cases visible
      · obtain ⟨home, found, recorded⟩ :=
          first loops within.1 hidden mine (List.Nodup.of_append_left once) new free
        rw [found, Option.some_or]
        exact ⟨home, rfl, recorded.kept within.2 (by simp [hidden, visible]) out⟩
    · have closed : b ∉ view ++ a.opens := by
        rw [List.mem_append, not_or]
        exact ⟨hidden, fun opened => mine (opens_declared a opened)⟩
      obtain ⟨none, usage, still⟩ := alone a within.1 hidden mine loops t
      rw [nowhere a loops mine, Option.none_or, none, List.nil_append]
      exact rest loops within.2 closed ((List.mem_append.mp here).resolve_left mine)
        (List.Nodup.of_append_right once) (usage.trans new) (still free)
  case declare c =>
    obtain rfl := List.mem_singleton.mp here
    rw [if_pos rfl, Thread.declareIn, if_pos here]
    exact ⟨loops, rfl, Thread.declare_recorded new free⟩
  case loop stmt acts inner => exact inner _ within hidden here once new free
  case each site acts inner =>
    rw [Thread.declareIn]
    by_cases counter : b ∈ bindingsOf [site.var]
    · have declared : (t.declare (loops.length + 1) b).Recorded b (site.stmt :: loops) [] :=
        @Thread.declare_recorded t b (site.stmt :: loops) new free
      rw [if_pos counter, if_pos counter]
      exact ⟨_, rfl, declared.followed rfl (List.disjoint_of_nodup_append once counter)
        (List.suffix_refl _)⟩
    · rw [if_neg counter, if_neg counter]
      exact inner _ within (by simp [hidden, counter]) ((List.mem_append.mp here).resolve_left counter)
        (List.Nodup.of_append_right once) new free
  case closure expr escapes params spot acts inner =>
    rw [if_pos here]
    -- the closure declares the binding, so it captures nothing of it
    have left : ∀ {inner : Thread} {home : List Nat} {ms : List Mention}, inner.Recorded b home ms →
        (t.leave inner loops.length expr escapes spot).Recorded b home ms := by
      intro inner home ms recorded
      rw [Thread.leave, recorded.free]
      exact ⟨recorded.events, free, recorded.inside⟩
    by_cases param : b ∈ params
    · have declared : (({ usage := t.usage, isLocal := false } : Thread).declare loops.length
          b).Recorded b loops [] := Thread.declare_recorded new rfl
      rw [if_pos param, Thread.enter, Thread.declareIn, if_pos param]
      exact ⟨_, rfl, left (declared.followed rfl (List.disjoint_of_nodup_append once param)
        (List.suffix_refl _))⟩
    · rw [if_neg param, Thread.enter_away param]
      obtain ⟨home, found, recorded⟩ := inner (t := { usage := t.usage, isLocal := false }) loops within
        (by simp [hidden, param]) ((List.mem_append.mp here).resolve_left param)
        (List.Nodup.of_append_right once) new rfl
      exact ⟨home, found, left recorded⟩

mutual
def Act.uses : Act → List Use
  | .declare _ => []
  | .use u => [u]
  | .loop _ acts => Act.usesAll acts
  | .each _ acts => Act.usesAll acts
  | .closure _ _ _ _ acts => Act.usesAll acts
def Act.usesAll : List Act → List Use
  | [] => []
  | a :: as => a.uses ++ Act.usesAll as
end

def Act.occurring (as : List Act) : List (Nat × Nat) :=
  (Act.usesAll as).map fun u => (u.binding, u.expr)

section Occurring

theorem uses_acts : Gathers Act.usesAll Act.uses := ⟨rfl, fun _ _ => rfl⟩

theorem occurring_append (as bs : List Act) :
    Act.occurring (as ++ bs) = Act.occurring as ++ Act.occurring bs := by
  simp only [Act.occurring, uses_acts.append, List.map_append]

theorem occurring_declares (bs : List Nat) : Act.occurring (bs.map .declare) = [] := by
  rw [Act.occurring, uses_acts.none (by simp [Act.uses]), List.map_nil]

theorem occurring_inside (a : Act) (as : List Act) (inside : a.uses = Act.usesAll as) :
    Act.occurring [a] = Act.occurring as := by
  rw [Act.occurring, uses_acts.single, inside, Act.occurring]

theorem occurring_use (info : ExprInfo) (access : Access) (spot : Spot) (reinit : Bool) :
    Act.occurring ({ info.use access spot with reinit } : Use).acts = info.occurrence := by
  unfold Use.acts ExprInfo.occurrence ExprInfo.use
  dsimp only
  split <;> rfl

end Occurring

theorem Course.occurring {o : Outlook} {w : Nat} {vs : List Node} {ns : List Nat}
    {os : List (Nat × Nat)} {bs : List Act} (h : Course Eq o o w vs ns os as bs) :
    Act.occurring as = os := by
  induction h with
  | nil | expr | stmt => rfl
  | append _ _ first second => rw [occurring_append, first, second]
  | use => exact occurring_use _ _ _ _
  | closure _ _ _ inner | loop _ inner => rw [occurring_inside _ _ (by rw [Act.uses]), inner]
  | named _ _ inner => rw [occurring_append, inner rfl, occurring_declares, List.append_nil]
  | each _ _ _ source inner =>
    rw [occurring_append, source, occurring_inside _ _ (by rw [Act.uses]), inner]

theorem stmts_occurring (o : Outlook) (ss : List Stmt) :
    Act.occurring (Stmt.actsAll o ss) = Stmt.occurrencesAll ss :=
  (@stmts_course Eq o o o.agree_self ss 0).occurring

namespace FuncDecl

def mentions (f : FuncDecl) (o : Outlook) (b : Nat) : List Mention := Act.mentionsAll b [] (f.acts o)

def home? (f : FuncDecl) (o : Outlook) (b : Nat) : Option (List Nat) := Act.homeAll? b [] (f.acts o)

variable {f : FuncDecl} (within : f.isScoped = true)

theorem collect_thread (f : FuncDecl) (table : Signatures) (b : Nat) :
    ((f.collect table).usage? b).map Usage.plain =
      (Act.followAll b [] (f.acts (f.outlook table)) {}).usage := by
  have run := runAll_thread b (f.acts (f.outlook table)) [] {}
    (fun _ member => absurd member List.not_mem_nil)
  have start : ({} : Ledger).thread b = {} := rfl
  rw [start] at run
  rw [← run, collect_eq]
  simp only [Collection.usage?, (f.collectWith_ledger (f.outlook table)).1]
  rfl

include within

theorem collect_declared (table : Signatures) (declared : b ∈ f.binds) :
    ∃ u home, (f.collect table).usage? b = some u ∧ f.home? (f.outlook table) b = some home ∧
      u.declLoop = home.length ∧
      List.Forall₂ Event.Records u.events (f.mentions (f.outlook table) b) ∧
      ∀ x ∈ f.mentions (f.outlook table) b, home <:+ x.loops := by
  have once := binds_distinct within
  rw [← f.acts_declared (f.outlook table)] at declared once
  obtain ⟨home, found, ⟨es, records, usage⟩, -, inside⟩ := followAll_declaring (t := {}) []
    (acts_scoped within (f.outlook table)) List.not_mem_nil declared once rfl rfl
  rw [← collect_thread f table b, Option.map_eq_some_iff] at usage
  obtain ⟨u, present, plain⟩ := usage
  obtain ⟨-, depth, events⟩ := Usage.mk.inj plain
  refine ⟨u, home, present, found, depth, ?_, inside⟩
  rw [← events, List.forall₂_map_left_iff] at records
  refine records.imp ?_
  rintro e x ⟨expr, capture, effect, stmt, depth, inReturn, reinit, loopVar⟩
  exact ⟨expr, capture, effect, stmt, depth, inReturn, reinit, loopVar⟩

theorem collect_undeclared (table : Signatures) (out : b ∉ f.binds) :
    (f.collect table).usage? b = none ∧ f.mentions (f.outlook table) b = [] := by
  rw [← f.acts_declared (f.outlook table)] at out
  obtain ⟨none, same, -⟩ :=
    followAll_unused (acts_scoped within (f.outlook table)) List.not_mem_nil out [] {}
  rw [← collect_thread f table b] at same
  exact ⟨Option.map_eq_none_iff.mp same, none⟩

end FuncDecl

/-- Collecting records every use once, as a use of its own or with the other uses in the outermost
closure that does not declare the binding, and numbers what it records in order. -/
theorem collect_records_uses {f : FuncDecl} (within : f.isScoped = true) (table : Signatures) :
    Act.occurring (f.acts (f.outlook table)) = Stmt.occurrencesAll f.body ∧
      (∀ b, List.Forall₂ Event.Records ((f.collect table).events b)
        (f.mentions (f.outlook table) b)) ∧
      Usage.Numbered (f.collect table).usages := by
  refine ⟨?_, ?_, collect_numbered f table⟩
  · rw [FuncDecl.acts, occurring_append, occurring_declares, stmts_occurring, List.nil_append]
  · intro b
    by_cases declared : b ∈ f.binds
    · obtain ⟨u, home, present, -, -, records, -⟩ := FuncDecl.collect_declared within table declared
      rw [Collection.events, present]
      exact records
    · obtain ⟨absent, none⟩ := FuncDecl.collect_undeclared within table declared
      rw [Collection.events, absent, none]
      exact .nil

namespace Sample

def name (id binding : Nat) : Expr :=
  .node { Sketch.blank .ident .string with id, name := "x", binding } (.absent 0) (.absent 0) [] []
    (.absent 0) (.absent 0)

def lambda (id : Nat) (params : List Nat) (body : Stmt) (result : Expr) : Expr :=
  .node { Sketch.blank .closure .string with id, params } (.absent 0) (.absent 0) [] [] body result

def stmt (id : Nat) (kind : StmtKind) (binding : Nat) (value : Expr) (body : List Stmt := []) : Stmt :=
  .node ⟨id, kind, Range.zero, binding, "="⟩ (.absent 0) value body (.absent 0)

def nested : FuncDecl :=
  { id := 1, name := "nested", receiver := 0, owner := "", params := [1], result := .string
    body := [
      stmt 1 .eval 0 (name 1 1),
      stmt 2 .give 0 (lambda 2 [] (stmt 3 .block 0 (.absent 0) [
        stmt 4 .eval 0 (name 3 1),
        stmt 5 .eval 0 (lambda 4 [2] (.absent 0) (.node
          { Sketch.blank .binary .string with id := 5, op := "+" } (name 6 1) (name 7 2) [] []
          (.absent 0) (.absent 0)))]) (.absent 0))]
    isExtern := false, span := Range.zero }

end Sample

theorem nested_records_uses :
    Sample.nested.isScoped = true ∧
      ((Sample.nested.collect []).events 1).map (fun e => (e.expr, e.effective)) =
        [(1, .read), (2, .store)] ∧
      ((Sample.nested.collect []).events 2).map (fun e => (e.expr, e.effective)) = [(7, .read)] := by
  have within : Sample.nested.isScoped = true := by decide
  obtain ⟨-, records, -⟩ := collect_records_uses within []
  have told : ∀ b, ((Sample.nested.collect []).events b).map (fun e => (e.expr, e.effective)) =
      (Sample.nested.mentions (Sample.nested.outlook []) b).map (fun x => (x.expr, x.effect)) := by
    intro b
    rw [← List.forall₂_eq_eq_eq, List.forall₂_map_left_iff, List.forall₂_map_right_iff]
    exact (records b).imp fun e x h => by rw [h.expr, h.effect]
  exact ⟨within, (told 1).trans (by decide), (told 2).trans (by decide)⟩

end Tenure
