import Tenure.Ownership.Analysis
import Tenure.Proofs.Settlements

/- Modes fit what is done with a binding. In a well scoped function a loop that runs over a loop variable
   stands inside that variable's loop, so every binding is settled by its final uses. -/
namespace Tenure

mutual
def Act.sites : Act → List LoopSite
  | .declare _ => []
  | .use _ => []
  | .loop _ acts => Act.sitesAll acts
  | .each site acts => site :: Act.sitesAll acts
  | .closure _ _ _ _ acts => Act.sitesAll acts
def Act.sitesAll : List Act → List LoopSite
  | [] => []
  | a :: as => a.sites ++ Act.sitesAll as
end

namespace Ledger

theorem note_loops (l : Ledger) (e : Event) (access : Access) : (l.note e access).loops = l.loops := by
  unfold note
  split
  · rfl
  · split <;> rfl

theorem declareAll_loops (l : Ledger) (depth : Nat) (bs : List Nat) :
    (l.declareAll depth bs).loops = l.loops := by
  induction bs generalizing l with
  | nil => rfl
  | cons b bs ih => exact ih (l.declare depth b)

theorem leave_loops (l : Ledger) (depth expr : Nat) (escapes : Bool) (spot : Spot) :
    (l.leave depth expr escapes spot).loops = l.loops := by
  unfold leave
  split
  · rfl
  · rename_i f fs _
    exact List.foldlRecOn (motive := fun k : Ledger => k.loops = l.loops) f.captures _ rfl
      fun k same cap _ => (note_loops k _ _).trans same

end Ledger

theorem runAll_loops (as : List Act) (loops : List Nat) (l : Ledger) :
    (Act.runAll loops as l).loops = l.loops ++ Act.sitesAll as := by
  induction as using acts_induction generalizing loops l <;>
    simp only [Act.runAll, Act.run, Act.sitesAll, Act.sites, List.append_nil] at *
  case cons a as rest first => rw [rest, first, List.append_assoc]
  case declare b => rfl
  case use u => exact Ledger.note_loops l _ _
  case loop stmt acts inner => exact inner _ l
  case each site acts inner =>
    rw [inner, Ledger.visit, Ledger.declareAll_loops, List.append_assoc, List.singleton_append]
  case closure expr escapes params spot acts inner =>
    rw [Ledger.leave_loops, inner, Ledger.enter, Ledger.declareAll_loops]

theorem bindingsOf_append (xs ys : List Nat) : bindingsOf (xs ++ ys) = bindingsOf xs ++ bindingsOf ys :=
  List.filter_append xs ys

theorem sitesAll_declared (as : List Act) :
    (bindingsOf ((Act.sitesAll as).map (·.var))).Sublist (Act.declaredAll as) := by
  induction as using acts_induction <;>
    simp only [Act.sitesAll, Act.sites, Act.declaredAll, Act.declared, List.append_nil] at *
  case nil | declare b | use u => exact List.nil_sublist _
  case cons a as rest first =>
    rw [List.map_append, bindingsOf_append]
    exact first.append rest
  case loop stmt acts inner => exact inner
  case each site acts inner =>
    rw [List.map_cons, ← List.singleton_append, bindingsOf_append]
    exact (List.Sublist.refl _).append inner
  case closure expr escapes params spot acts inner =>
    exact inner.trans (List.sublist_append_right params _)

def Ahead (declared : List Nat) (b w : Nat) : Prop :=
  w = 0 ∨ ∃ before rest, declared = before ++ rest ∧ b ∈ before ∧ w ∉ before

theorem Ahead.extend {declared : List Nat} {b w : Nat} (h : Ahead declared b w) (more : List Nat) :
    Ahead (declared ++ more) b w := by
  rcases h with zero | ⟨before, rest, rfl, first, later⟩
  · exact .inl zero
  · exact .inr ⟨before, rest ++ more, List.append_assoc .., first, later⟩

theorem Ahead.outside {xs ys declared : List Nat} {b w : Nat} (h : Ahead declared b w)
    (part : (xs ++ b :: ys).Sublist declared) (once : declared.Nodup) (known : w ≠ 0) :
    w ∉ xs ++ [b] := by
  rcases h with zero | ⟨before, rest, rfl, first, later⟩
  · exact absurd zero known
  · intro member
    apply later
    obtain ⟨l, r, split, left, right⟩ := List.sublist_append_iff.mp part
    have behind : b ∉ r := fun there =>
      (List.nodup_append.mp once).2.2 b first b (right.subset there) rfl
    rcases List.append_eq_append_iff.mp split with ⟨zs, rfl, tail⟩ | ⟨zs, rfl, tail⟩
    · cases zs with
      | nil =>
        rw [List.nil_append] at tail
        exact absurd (tail ▸ List.mem_cons_self) behind
      | cons z zs =>
        rw [List.cons_append, List.cons.injEq] at tail
        rw [← tail.1] at left
        apply left.subset
        rcases List.mem_append.mp member with there | here
        · exact List.mem_append_left _ there
        · rw [List.mem_singleton.mp here]
          simp
    · exact absurd (tail ▸ by simp) behind

theorem widen {view seen xs ys : List Nat} (known : view ⊆ seen) (more : xs ⊆ ys) :
    view ++ xs ⊆ seen ++ ys :=
  List.append_subset.mpr ⟨List.Subset.trans known (List.subset_append_left ..),
    List.Subset.trans more (List.subset_append_right ..)⟩

theorem mentions_ahead {b : Nat} {as : List Act} {loops view seen : List Nat}
    (within : Act.AllScoped view seen as) (known : view ⊆ seen) {x : Mention}
    (member : x ∈ Act.mentionsAll b loops as) : Ahead (seen ++ Act.declaredAll as) b x.loopVar := by
  induction as using acts_induction generalizing loops view seen <;>
    simp only [Act.AllScoped, Act.Scoped, Act.mentionsAll, Act.mentions, Act.declaredAll, Act.declared,
      List.append_nil, List.mem_append, List.not_mem_nil, ← List.append_assoc, and_true] at *
  case cons a as rest first =>
    rcases member with here | later
    · exact (first within.1 known here).extend _
    · exact rest within.2 (widen known fun _ => opens_declared a) later
  case use u =>
    split at member
    · rename_i mine
      rw [List.mem_singleton.mp member]
      exact within.2.imp_right fun later => ⟨seen, [], by simp, known (mine ▸ within.1), later⟩
    · cases member
  case loop stmt acts inner => exact inner within known member
  case each site acts inner => exact inner within (widen known (List.Subset.refl _)) member
  case closure expr escapes params spot acts inner =>
    split at member
    · exact inner within (widen known (List.Subset.refl _)) member
    · exact .inl (mem_capturing member).2

theorem mention_of_event {es : List Event} {ms : List Mention}
    (records : List.Forall₂ Event.Records es ms) {e : Event} (there : e ∈ es) :
    ∃ x ∈ ms, e.Records x := by
  induction records with
  | nil => cases there
  | cons told rest ih =>
    rcases List.mem_cons.mp there with rfl | later
    · exact ⟨_, List.mem_cons_self, told⟩
    · obtain ⟨x, member, told⟩ := ih later
      exact ⟨x, List.mem_cons_of_mem _ member, told⟩

theorem loops_declared (f : FuncDecl) (table : Signatures) :
    (bindingsOf ((f.collect table).loops.map (·.var))).Sublist f.binds := by
  have sites := runAll_loops (f.acts (f.outlook table)) [] {}
  rw [FuncDecl.collect_eq, (f.collectWith_ledger _).2, sites, ← f.acts_declared (f.outlook table)]
  exact sitesAll_declared _

section Scoped

variable {f : FuncDecl} (within : f.isScoped = true) (table : Signatures)

include within

theorem event_ahead {b : Nat} {e : Event} (there : e ∈ (f.collect table).events b) :
    Ahead f.binds b e.loopVar := by
  by_cases declared : b ∈ f.binds
  · obtain ⟨u, home, present, -, -, records, -⟩ := FuncDecl.collect_declared within table declared
    rw [Collection.events, present] at there
    obtain ⟨x, member, told⟩ := mention_of_event records there
    rw [told.loopVar, ← f.acts_declared (f.outlook table), ← List.nil_append (Act.declaredAll _)]
    exact mentions_ahead (FuncDecl.acts_scoped within _) (List.Subset.refl _) member
  · rw [Collection.events, (FuncDecl.collect_undeclared within table declared).1] at there
    cases there

theorem collect_ranked : (f.collect table).Ranked := by
  intro front site back split counts l member runs
  obtain ⟨e, there, same⟩ := List.mem_map.mp runs
  have ahead := event_ahead within table there
  have declared := loops_declared f table
  have vars : bindingsOf ((f.collect table).loops.map (·.var)) =
      bindingsOf (front.map (·.var)) ++ site.var :: bindingsOf (back.map (·.var)) := by
    rw [split, List.map_append, List.map_cons, bindingsOf_append]
    simp [bindingsOf, counts]
  rw [same] at ahead
  rw [vars] at declared
  by_contra known
  refine ahead.outside declared (FuncDecl.binds_distinct within) known ?_
  rcases List.mem_append.mp member with earlier | own
  · exact List.mem_append_left _
      (List.mem_filter.mpr ⟨List.mem_map_of_mem earlier, by simpa using known⟩)
  · rw [List.mem_singleton.mp own]
    simp

theorem usages_declared (b : Nat) : b ∈ (f.collect table).usages.map (·.binding) ↔ b ∈ f.binds := by
  constructor
  · intro member
    by_contra out
    obtain ⟨u, there, rfl⟩ := List.mem_map.mp member
    have absent := (FuncDecl.collect_undeclared within table out).1
    exact List.find?_eq_none.mp absent u there (beq_self_eq_true _)
  · intro declared
    obtain ⟨u, -, present, -⟩ := FuncDecl.collect_declared within table declared
    have own := List.find?_some present
    rw [beq_iff_eq] at own
    exact own ▸ List.mem_map_of_mem (List.mem_of_find?_eq_some present)

theorem collect_resolves (m : Module) : (f.collect table).Resolves m f.binds := by
  obtain ⟨bs, resolves, members, once⟩ := resolve_settled (collect_ranked within table) m
  have distinct := FuncDecl.binds_distinct within
  have declared := loops_declared f table
  have proper : (bindingsOf f.binds).Nodup := distinct.filter _
  apply resolves.reorder
  rw [List.perm_ext_iff_of_nodup (once (declared.nodup distinct)) proper]
  intro b
  rw [bindingsOf, bindingsOf, List.mem_filter, List.mem_filter, members, usages_declared within table]
  constructor
  · rintro ⟨var | own, known⟩
    · exact ⟨declared.subset (List.mem_filter.mpr ⟨var, known⟩), known⟩
    · exact ⟨own, known⟩
  · rintro ⟨own, known⟩
    exact ⟨.inr own, known⟩

end Scoped

def Mode.admits : Mode → Event → Bool
  | .unresolved, _ => false
  | .shared, e => !e.isMutation && !e.transfers
  | .exclusive, e => !e.transfers
  | .owned, _ => true

/-- The weakest mode that admits all uses. -/
structure Mode.Weakest (k : Mode) (es : List Event) : Prop where
  admits : ∀ e ∈ es, k.admits e = true
  least : ∀ j : Mode, j ≠ .unresolved → (∀ e ∈ es, j.admits e = true) → k.rank ≤ j.rank
  owned : k = .owned ↔ ∃ e ∈ es, e.transfers = true
  exclusive : k = .exclusive ↔ (¬∃ e ∈ es, e.transfers = true) ∧ ∃ e ∈ es, e.isMutation = true

def Mode.ofUses (es : List Event) : Mode :=
  if (es.find? Event.transfers).isSome then .owned
  else if (es.find? Event.isMutation).isSome then .exclusive
  else .shared

theorem ofUses_weakest (es : List Event) : (Mode.ofUses es).Weakest es := by
  unfold Mode.ofUses
  by_cases given : ∃ e ∈ es, e.transfers = true
  · rw [if_pos (List.find?_isSome.mpr given)]
    obtain ⟨e, there, transfers⟩ := given
    refine ⟨fun _ _ => rfl, ?_, ?_, ?_⟩
    · intro j _ all
      have admitted := all e there
      cases j <;> first | exact Nat.le_refl _ | simp [Mode.admits, transfers] at admitted
    · exact ⟨fun _ => ⟨e, there, transfers⟩, fun _ => rfl⟩
    · exact ⟨fun h => (nomatch h), fun h => absurd ⟨e, there, transfers⟩ h.1⟩
  · rw [if_neg (fun some => given (List.find?_isSome.mp some))]
    have kept : ∀ e ∈ es, e.transfers = false := by
      intro e there
      rw [Bool.eq_false_iff]
      exact fun transfers => given ⟨e, there, transfers⟩
    by_cases changed : ∃ e ∈ es, e.isMutation = true
    · rw [if_pos (List.find?_isSome.mpr changed)]
      obtain ⟨e, there, mutates⟩ := changed
      refine ⟨fun e there => by simp [Mode.admits, kept e there], ?_, ?_, ?_⟩
      · intro j _ all
        have admitted := all e there
        cases j <;> first | decide | simp [Mode.admits, mutates] at admitted
      · exact ⟨fun h => (nomatch h), fun h => absurd h given⟩
      · exact ⟨fun _ => ⟨given, e, there, mutates⟩, fun _ => rfl⟩
    · rw [if_neg (fun some => changed (List.find?_isSome.mp some))]
      have same : ∀ e ∈ es, e.isMutation = false := by
        intro e there
        rw [Bool.eq_false_iff]
        exact fun mutates => changed ⟨e, there, mutates⟩
      refine ⟨fun e there => by simp [Mode.admits, kept e there, same e there], ?_, ?_, ?_⟩
      · intro j proper _
        cases j <;> first | decide | exact absurd rfl proper
      · exact ⟨fun h => (nomatch h), fun h => absurd h given⟩
      · exact ⟨fun h => (nomatch h), fun h => absurd h.2 changed⟩

/-- The value is given away here and needed again: later, or when a loop comes here again. -/
def Event.needsDuplicate (e : Event) (declLoop : Nat) (later : List Event) : Bool :=
  e.transfers && !e.inReturn && ((nextUse later).isSome || decide (declLoop < e.loopDepth))

structure DuplicatePoint.Serves (p : DuplicatePoint) (e : Event) : Prop where
  seq : p.seq = e.seq
  expr : p.expr = e.expr
  span : p.span = e.span
  reason : p.reason ≠ .projection

structure Diagnostic.Refuses (d : Diagnostic) (bd : Binding) (e : Event) : Prop where
  severity : d.severity = .error
  code : d.code = .escapingCaptureMutated ∨ d.code = .nonClonableDuplicate
  primary : d.primary = e.span
  note : ∃ n ∈ d.notes, n.range = bd.span

theorem provide_cases (bd : Binding) (declLoop : Nat) (e : Event) (later : List Event) :
    (e.needsDuplicate declLoop later = false ∧ provide bd declLoop e later = .nothing) ∨
      e.needsDuplicate declLoop later = true ∧
        ((∃ p, provide bd declLoop e later = .duplicate p ∧ p.Serves e) ∨
          ∃ d, provide bd declLoop e later = .refused d ∧ d.Refuses bd e) := by
  have provided : ∀ reason : Reason, reason ≠ .projection → e.transfers = true → e.inReturn = false →
      (if (nextUse later).isSome then some .laterUse
        else if declLoop < e.loopDepth then some .loopCarried else none) = some reason →
      (∃ p, provide bd declLoop e later = .duplicate p ∧ p.Serves e) ∨
        ∃ d, provide bd declLoop e later = .refused d ∧ d.Refuses bd e := by
    intro reason proper given stays chosen
    unfold provide
    simp only [given, stays, Bool.not_true, Bool.or_self, Bool.false_eq_true, if_false, chosen]
    split
    · exact .inr ⟨_, rfl, rfl, .inl rfl, rfl, _, List.mem_cons_self, rfl⟩
    · split
      · exact .inl ⟨_, rfl, rfl, rfl, rfl, proper⟩
      · exact .inr ⟨_, rfl, rfl, .inr rfl, rfl, _, List.mem_cons_self, rfl⟩
  unfold Event.needsDuplicate
  by_cases applies : (!e.transfers || e.inReturn) = true
  · left
    refine ⟨?_, by rw [provide, if_pos applies]⟩
    cases given : e.transfers <;> cases back : e.inReturn <;> simp [given, back] at applies ⊢
  · have given : e.transfers = true := by
      cases given : e.transfers <;> simp [given] at applies ⊢
    have stays : e.inReturn = false := by
      cases back : e.inReturn <;> simp [back] at applies ⊢
    by_cases again : (nextUse later).isSome = true
    · right
      refine ⟨by simp [given, stays, again], ?_⟩
      exact provided .laterUse (by decide) given stays (if_pos again)
    · by_cases inner : declLoop < e.loopDepth
      · right
        refine ⟨by simp [given, stays, inner], ?_⟩
        exact provided .loopCarried (by decide) given stays (by rw [if_neg again, if_pos inner])
      · left
        refine ⟨by simp [again, inner], ?_⟩
        unfold provide
        simp [given, stays, again, inner]

section Provisions

variable {bd : Binding} {declLoop : Nat}

variable {later es : List Event} {p : DuplicatePoint}

theorem provide_point {e : Event} (made : (provide bd declLoop e later).point? = some p) :
    provide bd declLoop e later = .duplicate p ∧ p.Serves e := by
  rcases provide_cases bd declLoop e later with
    ⟨-, none⟩ | ⟨-, ⟨q, duplicate, serves⟩ | ⟨d, refused, -⟩⟩
  · rw [none] at made
    exact nomatch made
  · rw [duplicate] at made
    obtain rfl : q = p := Option.some.inj made
    exact ⟨duplicate, serves⟩
  · rw [refused] at made
    exact nomatch made

theorem provide_finding {e : Event} {d : Diagnostic}
    (made : (provide bd declLoop e later).finding? = some d) : d.Refuses bd e := by
  rcases provide_cases bd declLoop e later with
    ⟨-, none⟩ | ⟨-, ⟨p, duplicate, -⟩ | ⟨r, refused, refuses⟩⟩
  · rw [none] at made
    exact nomatch made
  · rw [duplicate] at made
    exact nomatch made
  · rw [refused] at made
    obtain rfl : r = d := Option.some.inj made
    exact refuses

theorem mem_provisions {x : Provision} (made : x ∈ provisions bd declLoop es) :
    ∃ front e later, es = front ++ e :: later ∧ x = provide bd declLoop e later := by
  induction es with
  | nil => cases made
  | cons d es ih =>
    rw [provisions] at made
    rcases List.mem_cons.mp made with first | there
    · exact ⟨[], d, es, rfl, first⟩
    · obtain ⟨front, e, later, split, same⟩ := ih there
      exact ⟨d :: front, e, later, by rw [split, List.cons_append], same⟩

theorem provisions_points (made : p ∈ (provisions bd declLoop es).filterMap Provision.point?) :
    ∃ front e later, es = front ++ e :: later ∧
      provide bd declLoop e later = .duplicate p ∧ p.Serves e := by
  obtain ⟨x, there, same⟩ := List.mem_filterMap.mp made
  obtain ⟨front, e, later, split, rfl⟩ := mem_provisions there
  exact ⟨front, e, later, split, provide_point same⟩

end Provisions

theorem Projection.provide_cases (m : Module) (p : Projection) :
    (∃ q, p.provide m = .duplicate q ∧ q.reason = .projection) ∨
      ∃ d, p.provide m = .refused d ∧ d.notes = [] := by
  unfold Projection.provide
  split
  · exact .inl ⟨_, rfl, rfl⟩
  · exact .inr ⟨_, rfl, rfl⟩

section Settle

variable (bd : Binding) (u : Usage)

theorem settle_marked (marked : bd.marker ≠ .none) :
    (bd.settle u).mode = Mode.ofMarker bd.marker := by
  unfold Binding.settle
  dsimp only
  cases marker : bd.marker with
  | none => exact absurd marker marked
  | ref => rfl
  | mutRef => rfl
  | owned =>
    dsimp only
    split
    · rfl
    · rw [if_pos (.inl rfl)]
      rfl

theorem settle_copied (unmarked : bd.marker = .none) (copied : bd.ty.isCopy = true) :
    (bd.settle u).mode = .owned ∧ (bd.settle u).points = [] := by
  simp [Binding.settle, unmarked, copied]

theorem settle_unmarked (unmarked : bd.marker = .none) (single : bd.ty.isCopy = false) :
    (bd.settle u).mode = Mode.ofUses u.events := by
  unfold Binding.settle Mode.ofUses
  simp only [unmarked, single, Bool.false_eq_true, if_false, reduceCtorEq, false_or]
  split
  · rfl
  · rfl

theorem settle_admits :
    (∃ d ∈ (bd.settle u).findings, d.severity = .error ∧ ∃ n ∈ d.notes, n.range = bd.span) ∨
      ∀ e ∈ u.events, (bd.settle u).mode.admits e = true := by
  cases marker : bd.marker with
  | none =>
    right
    cases copied : bd.ty.isCopy with
    | true =>
      rw [(settle_copied bd u marker copied).1]
      exact fun _ _ => rfl
    | false =>
      rw [settle_unmarked bd u marker copied]
      exact (ofUses_weakest u.events).admits
  | owned =>
    right
    rw [settle_marked bd u (by simp [marker]), marker]
    exact fun _ _ => rfl
  | mutRef =>
    simp only [Binding.settle, marker]
    cases transfer : u.events.find? Event.transfers with
    | some e => exact .inl ⟨_, List.mem_cons_self, rfl, _, List.mem_cons_self, rfl⟩
    | none =>
      right
      intro e there
      simp [Mode.admits, List.find?_eq_none.mp transfer e there]
  | ref =>
    simp only [Binding.settle, marker]
    cases change : u.events.find? Event.isMutation with
    | some e =>
      exact .inl ⟨_, List.mem_append_left _ List.mem_cons_self, rfl, _, List.mem_cons_self, rfl⟩
    | none =>
      cases transfer : u.events.find? Event.transfers with
      | some e =>
        exact .inl ⟨_, List.mem_append_right _ List.mem_cons_self, rfl, _, List.mem_cons_self, rfl⟩
      | none =>
        right
        intro e there
        simp [Mode.admits, List.find?_eq_none.mp change e there,
          List.find?_eq_none.mp transfer e there]

theorem settle_points {p : DuplicatePoint} (made : p ∈ (bd.settle u).points) :
    ∃ e ∈ u.events, p.Serves e := by
  unfold Binding.settle at made
  dsimp only at made
  split at made
  · cases made
  · cases made
  · split at made
    · cases made
    · split at made
      · obtain ⟨front, e, later, split, -, serves⟩ := provisions_points made
        exact ⟨e, by simp [split], serves⟩
      · cases made

end Settle

section Numbers

variable {c : Collection}

theorem Usage.Numbered.mapEvents (h : Usage.Numbered c.usages) {g : Event → Event}
    (seq : ∀ e, (g e).seq = e.seq) (binding : ∀ e, (g e).binding = e.binding) :
    Usage.Numbered (c.mapEvents g).usages := by
  obtain ⟨once, own, rising, distinct⟩ := h
  unfold Collection.mapEvents
  refine ⟨by simpa [Function.comp_def] using once, ?_, ?_, ?_⟩
  · intro u member e there
    obtain ⟨w, old, rfl⟩ := List.mem_map.mp member
    obtain ⟨d, before, rfl⟩ := List.mem_map.mp there
    rw [binding]
    exact own w old d before
  · intro u member
    obtain ⟨w, old, rfl⟩ := List.mem_map.mp member
    rw [List.pairwise_map]
    simpa only [seq] using rising w old
  · rw [List.flatMap_map, List.map_flatMap]
    rw [List.map_flatMap] at distinct
    simpa [Function.comp_def, seq] using distinct

theorem Usage.Numbered.same (h : Usage.Numbered c.usages) {a b : Nat} {d e : Event}
    (first : d ∈ c.events a) (second : e ∈ c.events b) (seq : d.seq = e.seq) : a = b := by
  have found : ∀ {x : Nat} {e : Event}, e ∈ c.events x →
      e ∈ c.usages.flatMap (·.events) ∧ e.binding = x := by
    intro x e there
    rw [Collection.events] at there
    cases present : c.usage? x with
    | none =>
      rw [present] at there
      cases there
    | some u =>
      rw [present] at there
      have member := List.mem_of_find?_eq_some present
      have own := List.find?_some present
      rw [beq_iff_eq] at own
      exact ⟨List.mem_flatMap.mpr ⟨u, member, there⟩, (h.own u member e there).trans own⟩
  obtain ⟨one, mine⟩ := found first
  obtain ⟨two, yours⟩ := found second
  have equal : d = e := List.inj_on_of_nodup_map h.distinct one two seq
  rw [← mine, ← yours, equal]

end Numbers

section Analysis

variable {m : Module} {f : FuncDecl} (within : f.isScoped = true) (table : Signatures)

theorem ranOver_seq (v : Verdict) (vars : List Nat) (e : Event) :
    (e.ranOver v vars).seq = e.seq ∧ (e.ranOver v vars).binding = e.binding := by
  unfold Event.ranOver
  split <;> exact ⟨rfl, rfl⟩

include within

theorem analyze_numbered (m : Module) : Usage.Numbered (f.analyze m table).uses.usages := by
  have uses : (f.analyze m table).uses = _ := (collect_resolves within table m).uses
  rw [uses]
  exact (collect_numbered f table).mapEvents (fun e => (ranOver_seq _ _ e).1)
    (fun e => (ranOver_seq _ _ e).2)

theorem analyze_settled {b : Nat} {bd : Binding} (declared : b ∈ f.binds)
    (known : m.binding? b = some bd) :
    ∃ u, u.events = (f.analyze m table).uses.events b ∧
      (f.analyze m table).uses.settlement? m b = some (bd.settle u) ∧
      (f.analyze m table).verdict.mode b = (bd.settle u).mode ∧
      ∀ d ∈ (bd.settle u).findings, d ∈ (f.analyze m table).verdict.findings := by
  have resolves := collect_resolves within table m
  have proper : b ≠ 0 := by
    intro zero
    subst zero
    exact absurd known (by simp [Module.binding?])
  have outcome : (f.analyze m table).uses.settlement? m b =
      some (bd.settle (((f.analyze m table).uses.usage? b).getD { binding := b })) := by
    rw [Collection.settlement?, known, Option.map_some]
  refine ⟨((f.analyze m table).uses.usage? b).getD { binding := b }, Collection.usage_events _ b,
    outcome, ?_, ?_⟩
  · have mode : (f.analyze m table).verdict.mode b =
        (((f.analyze m table).uses.settlement? m b).map (·.mode)).getD .unresolved :=
      resolves.modes b (List.mem_filter.mpr ⟨declared, by simpa using proper⟩)
    rw [mode, outcome]
    rfl
  · intro d there
    refine resolves.findings.mem_iff.mpr (List.mem_append_left _ ?_)
    exact List.mem_flatMap.mpr ⟨_, List.mem_filterMap.mpr ⟨b, declared, outcome⟩, there⟩

theorem analyze_point {p : DuplicatePoint} (made : p ∈ (f.analyze m table).verdict.points)
    (whole : p.reason ≠ .projection) :
    ∃ b s, (f.analyze m table).uses.settlement? m b = some s ∧ p ∈ s.points ∧
      ∃ e ∈ (f.analyze m table).uses.events b, p.Serves e := by
  have resolves := collect_resolves within table m
  rcases List.mem_append.mp (resolves.points.mem_iff.mp made) with settled | part
  · obtain ⟨s, member, there⟩ := List.mem_flatMap.mp settled
    obtain ⟨b, -, outcome⟩ := List.mem_filterMap.mp member
    refine ⟨b, s, outcome, there, ?_⟩
    obtain ⟨bd, -, rfl⟩ := Option.map_eq_some_iff.mp outcome
    obtain ⟨e, used, serves⟩ := settle_points bd _ there
    rw [Collection.usage_events] at used
    exact ⟨e, used, serves⟩
  · obtain ⟨outcome, member, point⟩ := List.mem_filterMap.mp part
    obtain ⟨q, -, rfl⟩ := List.mem_map.mp member
    rcases Projection.provide_cases m q with ⟨r, duplicate, reason⟩ | ⟨d, refused, -⟩
    · rw [duplicate] at point
      obtain rfl : r = p := Option.some.inj point
      exact absurd reason whole
    · rw [refused] at point
      exact absurd point (by simp [Provision.point?])

end Analysis

/-- The mode of a binding admits its uses, or the conflict is reported. Without a marker it is the
weakest such mode, with a marker the mode that the marker says, and a copied value is owned and never
duplicated. The uses are those that are recorded, with reads of what a modified variable runs over
turned into modifications. -/
theorem mode_fits_uses {m : Module} {f : FuncDecl} (within : f.isScoped = true) (table : Signatures)
    {b : Nat} {bd : Binding} (declared : b ∈ f.binds) (known : m.binding? b = some bd) :
    (f.analyze m table).uses.events b = ((f.collect table).events b).map
        (Event.ranOver (f.analyze m table).verdict ((f.collect table).loops.map (·.var))) ∧
      ((∃ d ∈ (f.analyze m table).verdict.findings,
          d.severity = .error ∧ ∃ n ∈ d.notes, n.range = bd.span) ∨
        ∀ e ∈ (f.analyze m table).uses.events b,
          ((f.analyze m table).verdict.mode b).admits e = true) ∧
      (bd.marker = .none → bd.ty.isCopy = false →
        ((f.analyze m table).verdict.mode b).Weakest ((f.analyze m table).uses.events b)) ∧
      (bd.marker = .none → bd.ty.isCopy = true →
        (f.analyze m table).verdict.mode b = .owned ∧
          ∀ p ∈ (f.analyze m table).verdict.points, p.reason ≠ .projection →
            ∀ e ∈ (f.analyze m table).uses.events b, p.seq ≠ e.seq) ∧
      (bd.marker ≠ .none → (f.analyze m table).verdict.mode b = Mode.ofMarker bd.marker) := by
  obtain ⟨u, events, outcome, mode, findings⟩ := analyze_settled within table declared known
  rw [mode]
  refine ⟨?_, ?_, ?_, ?_, settle_marked bd u⟩
  · have uses : (f.analyze m table).uses = _ := (collect_resolves within table m).uses
    rw [uses]
    exact Collection.events_mapEvents ..
  · rw [← events]
    rcases settle_admits bd u with ⟨d, there, noted⟩ | admits
    · exact .inl ⟨d, findings d there, noted⟩
    · exact .inr admits
  · intro unmarked single
    rw [settle_unmarked bd u unmarked single, ← events]
    exact ofUses_weakest u.events
  · intro unmarked copied
    obtain ⟨owned, none⟩ := settle_copied bd u unmarked copied
    refine ⟨owned, ?_⟩
    intro p made whole e there same
    obtain ⟨a, s, settled, point, e', used, serves⟩ := analyze_point within table made whole
    have mine : a = b :=
      (analyze_numbered within table m).same used there (serves.seq.symm.trans same)
    subst mine
    rw [outcome, Option.some.injEq] at settled
    rw [← settled, none] at point
    exact absurd point List.not_mem_nil

namespace Sample

def sweep : FuncDecl :=
  { id := 1, name := "sweep", receiver := 0, owner := "", params := [1], result := .string
    body := [
      stmt 1 .forLoop 2 (name 1 1) [
        stmt 2 .forLoop 3 (name 2 2) [
          .node ⟨3, .assign, Range.zero, 0, "+="⟩ (name 3 3) (.absent 0) [] (.absent 0)]]]
    isExtern := false, span := Range.zero }

def swept : Module :=
  { name := "swept", path := "swept.kl", file := 0, structs := [], funcs := [sweep], exprs := #[]
    stmts := #[]
    bindings := #[
      ⟨1, "grid", .param, .string, false, .none, 0, Range.zero⟩,
      ⟨2, "row", .loop, .string, false, .none, 0, Range.zero⟩,
      ⟨3, "cell", .loop, .string, false, .none, 0, Range.zero⟩] }

end Sample

theorem sweep_fits_uses :
    ((Sample.sweep.analyze Sample.swept []).verdict.mode 1).Weakest
        ((Sample.sweep.analyze Sample.swept []).uses.events 1) ∧
      (Sample.sweep.analyze Sample.swept []).verdict.mode 1 = .exclusive := by
  have fits := mode_fits_uses (m := Sample.swept) (f := Sample.sweep) (by decide) [] (b := 1)
    (by decide) rfl
  exact ⟨fits.2.2.1 rfl rfl, by decide⟩

end Tenure
