import Tenure.Proofs.Captures
import Tenure.Proofs.Mentions

/- Which closures escape. A closure that a `let` names escapes when its name is given away in a body
   whose named closures all stay. Once some of them escape, what they capture is given away too. A
   closure whose name is only given away in this way stays classified as before. -/
namespace Tenure

namespace Collection

def gives (c : Collection) (b : Nat) : Bool := (c.events b).any Event.transfers

def escapes (c : Collection) (k : Nat) : Bool := (c.escaping.lookup k).getD false

def captured (c : Collection) (k b : Nat) : Bool := ((c.captures.lookup k).getD []).contains b

end Collection

namespace Thread

def gives (t : Thread) : Bool :=
  (t.usage.any fun u => u.events.any Event.transfers) || t.capture.any (·.moves)

section Steps

variable (t : Thread) (depth b : Nat)

theorem note_gives {e : Event} {access : Access} (same : e.transfers = access.transfers) :
    (t.note e access).gives = (t.gives || access.transfers) := by
  unfold note
  split
  · cases known : t.usage with
    | none => simp [gives, known, Usage.grown, same, Bool.or_comm]
    | some u =>
      simp only [gives, known, Usage.grown, Option.getD_some, Option.any_some, List.any_append,
        List.any_cons, List.any_nil, same, Bool.or_false]
      exact Bool.or_right_comm ..
  · cases known : t.capture with
    | none => cases access <;> simp [gives, known, Capture.add, Access.transfers]
    | some cap => cases access <;> simp [gives, known, Capture.add, Access.transfers]

theorem declareIn_gives (bs : List Nat) : (t.declareIn depth b bs).gives = t.gives := by
  unfold declareIn
  split
  · cases known : t.usage with
    | none => simp [gives, declare, known]
    | some u => simp [gives, declare, known]
  · rfl

theorem leave_gives (inner : Thread) (expr : Nat) (escapes : Bool) (spot : Spot) :
    (t.leave inner depth expr escapes spot).gives =
      (inner.gives || t.capture.any (·.moves) || escapes && inner.capture.isSome) := by
  unfold leave
  cases captured : inner.capture with
  | none => simp [gives, captured]
  | some cap =>
    have transfers : (cap.event depth expr escapes spot).transfers =
        (cap.access escapes).transfers := by
      obtain ⟨b, span, mutates, moves⟩ := cap
      cases escapes <;> cases mutates <;> cases moves <;> rfl
    have given : (cap.access escapes).transfers = (escapes || cap.moves) := by
      obtain ⟨b, span, mutates, moves⟩ := cap
      cases escapes <;> cases mutates <;> cases moves <;> rfl
    dsimp only
    rw [note_gives _ transfers, given, gives, gives, captured, Option.any_some, Option.isSome_some,
      Bool.and_true]
    ac_rfl

end Steps

end Thread

mutual
/-- Whether an act gives `b` away, by a use or by a closure that escapes with it. -/
def Act.gives (b : Nat) : Act → Bool
  | .declare _ => false
  | .use u => u.binding == b && u.access.transfers
  | .loop _ acts => Act.givesAll b acts
  | .each _ acts => Act.givesAll b acts
  | .closure _ escapes params _ acts => escapes && Act.takes b params acts || Act.givesAll b acts
def Act.givesAll (b : Nat) : List Act → Bool
  | [] => false
  | a :: as => a.gives b || Act.givesAll b as
end

theorem followAll_gives {b : Nat} (as : List Act) (loops : List Nat) (t : Thread) :
    (Act.followAll b loops as t).gives = (t.gives || Act.givesAll b as) := by
  induction as using acts_induction generalizing loops t <;>
    simp only [Act.followAll, Act.follow, Act.givesAll, Act.gives, Bool.or_false] at *
  case cons a as rest first => rw [rest, first, Bool.or_assoc]
  case declare c => exact t.declareIn_gives _ _ [c]
  case use u =>
    split
    · rename_i mine
      have same : (u.event loops.length).transfers = u.access.transfers := by
        obtain ⟨b, access, expr, span, reinit, spot⟩ := u
        cases access <;> rfl
      simp [t.note_gives same, mine]
    · rename_i other
      simp [other]
  case loop stmt acts inner => exact inner _ t
  case each site acts inner => rw [inner, Thread.declareIn_gives]
  case closure expr escapes params spot acts inner =>
    rw [Thread.leave_gives, inner, takes_eq, Thread.enter, Thread.declareIn_gives]
    simp only [Thread.gives, Option.any_none, Bool.or_false]
    ac_rfl

theorem FuncDecl.collectWith_gives (f : FuncDecl) (o : Outlook) (b : Nat) :
    (f.collectWith o).gives b = Act.givesAll b (f.acts o) := by
  have run := runAll_thread b (f.acts o) [] {} (fun _ member => absurd member List.not_mem_nil)
  have closed : (Act.runAll [] (f.acts o) {}).frames = [] :=
    List.eq_nil_of_length_eq_zero (runAll_keeps (f.acts o) [] {}).depth
  have start : ({} : Ledger).thread b = {} := rfl
  have given := followAll_gives (b := b) (f.acts o) [] {}
  rw [← start, ← run] at given
  have known : ((Act.runAll [] (f.acts o) {}).thread b).gives = (f.collectWith o).gives b := by
    have free : ((Act.runAll [] (f.acts o) {}).thread b).capture = none := by
      simp [Ledger.thread, Ledger.capture?, closed]
    rw [Thread.gives, free, Collection.gives, Collection.events, Collection.usage?,
      (f.collectWith_ledger o).1]
    simp only [Ledger.thread, Ledger.usage?, Option.any_none, Bool.or_false]
    cases (Act.runAll [] (f.acts o) {}).usages.find? (·.binding == b) with
    | none => rfl
    | some u =>
      simp only [Option.map_some, Option.any_some, Option.getD_some, Usage.plain, List.any_map]
      rfl
  rw [← known, given]
  rfl

theorem followAll_append (b : Nat) (loops : List Nat) (as bs : List Act) (t : Thread) :
    Act.followAll b loops (as ++ bs) t = Act.followAll b loops bs (Act.followAll b loops as t) := by
  induction as generalizing t with
  | nil => rw [Act.followAll, List.nil_append]
  | cons a as ih => rw [List.cons_append, Act.followAll, Act.followAll, ih]

theorem closure_sight (o : Outlook) {e : Expr} (closure : e.isKind .closure = true) (a a' : Access)
    (spot : Spot) (b : Nat) (loops : List Nat) (t : Thread) :
    (Act.followAll b loops (e.acts o a spot) t).sight =
      (Act.followAll b loops (e.acts o a' spot) t).sight := by
  cases e with
  | absent id => simp [Expr.isKind, Expr.info?] at closure
  | node info x y args inits body result =>
    have kind : info.kind = .closure := by simpa [Expr.isKind, Expr.info?] using closure
    simp only [Expr.acts, kind, Act.followAll, Act.follow, Thread.leave_sight]

theorem letAccess_other (o : Outlook) (info : StmtInfo) {value : Expr}
    (other : ¬value.isKind .closure = true) : o.letAccess info value = .move := by
  simp [Outlook.letAccess, other]

theorem Course.sight {o p : Outlook} {w : Nat} {vs : List Node} {ns : List Nat} {os : List (Nat × Nat)}
    {as bs : List Act} (h : Course Eq o p w vs ns os as bs) (b : Nat) :
    ∀ (loops : List Nat) {t t' : Thread}, t.sight = t'.sight →
      (Act.followAll b loops as t).sight = (Act.followAll b loops bs t').sight := by
  induction h with
  | nil | expr | stmt => exact fun _ _ _ same => same
  | append _ _ first second =>
    intro loops t t' same
    rw [followAll_append, followAll_append]
    exact second loops (first loops same)
  | use _ _ access =>
    rw [access]
    exact fun loops _ _ same => followAll_sight loops loops same
  | closure _ _ _ inner =>
    intro loops t t' same
    simp only [Act.followAll, Act.follow, Thread.leave_sight, same]
    exact congrArg _ (inner loops ((Thread.enter_sight ..).trans (Thread.enter_sight ..).symm))
  | @named _ info _ value _ _ _ _ inner =>
    intro loops t t' same
    rw [followAll_append, followAll_append]
    refine followAll_sight loops loops ?_
    by_cases closure : value.isKind .closure = true
    · rw [closure_sight o closure _ .read, closure_sight p closure _ .read]
      exact inner rfl loops same
    · rw [letAccess_other o info closure, letAccess_other p info closure]
      exact inner rfl loops same
  | loop _ inner => exact fun loops _ _ same => inner (_ :: loops) same
  | each _ _ _ source inner =>
    intro loops t t' same
    rw [followAll_append, followAll_append]
    refine inner (_ :: loops) ?_
    rw [Thread.declareIn_sight, Thread.declareIn_sight, source loops same]

theorem Course.takes {o p : Outlook} {w : Nat} {vs : List Node} {ns : List Nat} {os : List (Nat × Nat)}
    {as bs : List Act} (h : Course Eq o p w vs ns os as bs) (b : Nat) (params : List Nat) :
    Act.takes b params as = Act.takes b params bs :=
  congrArg Sight.isCaptured (h.sight b [] rfl)

theorem closure_gives (o : Outlook) (info : StmtInfo) (target : Expr) {value : Expr} (body : List Stmt)
    (orElse : Stmt) (closure : value.isKind .closure = true) (access : Access) (b : Nat) :
    Act.givesAll b (value.acts o access { stmt := info.span }) =
      (Act.givesAll b (value.acts o .read { stmt := info.span }) ||
        access.transfers && (Node.stmt (.node info target value body orElse)).takes o b) := by
  cases value with
  | absent id => simp [Expr.isKind, Expr.info?] at closure
  | node i x y args inits inside result =>
    have kind : i.kind = .closure := by simpa [Expr.isKind, Expr.info?] using closure
    simp only [Expr.acts, kind, Act.givesAll, Act.gives, Node.takes, Spot.inClosure, Access.transfers]
    simp [Bool.or_comm]

theorem givesAll_append (b : Nat) (as bs : List Act) :
    Act.givesAll b (as ++ bs) = (Act.givesAll b as || Act.givesAll b bs) := by
  induction as with
  | nil => rw [Act.givesAll, List.nil_append, Bool.false_or]
  | cons a as ih => rw [List.cons_append, Act.givesAll, Act.givesAll, ih, Bool.or_assoc]

namespace Outlook

def bare (o : Outlook) : Outlook := { table := o.table }

def hands (o : Outlook) (b : Nat) (vs : List Node) : Bool :=
  vs.any fun v => v.naming?.any (o.escapingLets.contains ·.name) && v.takes o b

def Adds (o : Outlook) (b : Nat) (vs : List Node) (as bs : List Act) : Prop :=
  Act.givesAll b as = (Act.givesAll b bs || o.hands b vs)

section Adds

variable {o : Outlook} {b : Nat} {vs ws : List Node} {as bs cs ds : List Act}

theorem Adds.same (as : List Act) : o.Adds b [] as as := (Bool.or_false _).symm

theorem Adds.append (first : o.Adds b vs as cs) (second : o.Adds b ws bs ds) :
    o.Adds b (vs ++ ws) (as ++ bs) (cs ++ ds) := by
  unfold Adds at *
  rw [givesAll_append, givesAll_append, first, second, hands, hands, hands, List.any_append]
  ac_rfl

theorem Adds.behind {n : Node} (h : o.Adds b vs as bs) (naming : n.naming? = none) :
    o.Adds b (n :: vs) as bs := by
  rw [Adds, hands, List.any_cons, naming]
  exact h

theorem Adds.inside {a c : Act} (h : o.Adds b vs as bs) (first : a.gives b = Act.givesAll b as)
    (second : c.gives b = Act.givesAll b bs) : o.Adds b vs [a] [c] := by
  simp only [Adds, Act.givesAll, first, second, Bool.or_false]
  exact h

theorem let_adds {info : StmtInfo} {value : Expr} (target : Expr) (body : List Stmt) (orElse : Stmt)
    (kind : info.kind = .letVar)
    (inner : ∀ access, o.Adds b value.visits (value.acts o access { stmt := info.span })
      (value.acts o.bare access { stmt := info.span })) :
    o.Adds b (.stmt (.node info target value body orElse) :: value.visits)
      (value.acts o (o.letAccess info value) { stmt := info.span })
      (value.acts o.bare (o.bare.letAccess info value) { stmt := info.span }) := by
  by_cases closure : value.isKind .closure = true
  · have stays : o.bare.letAccess info value = .read := by
      rw [letAccess, closure]
      rfl
    have naming : (Node.stmt (.node info target value body orElse)).naming? =
        some ⟨info.binding, value⟩ := if_pos ⟨kind, closure⟩
    have given := inner .read
    rw [Adds, hands] at given
    rw [Adds, stays, closure_gives o info target body orElse closure, given,
      letAccess_transfers o info closure, hands, List.any_cons, naming, Option.any_some]
    ac_rfl
  · rw [letAccess_other o info closure, letAccess_other o.bare info closure]
    exact (inner .move).behind (if_neg fun both => closure both.2)

end Adds

end Outlook

theorem Course.adds {o : Outlook} {w : Nat} {vs : List Node} {ns : List Nat} {os : List (Nat × Nat)}
    {as bs : List Act} (h : Course Eq o o.bare w vs ns os as bs) (b : Nat) : o.Adds b vs as bs := by
  induction h with
  | nil => exact .same []
  | append _ _ first second => exact first.append second
  | use _ _ same =>
    rw [same]
    exact (Outlook.Adds.same _).behind rfl
  | expr => exact (Outlook.Adds.same []).behind rfl
  | stmt plain => exact (Outlook.Adds.same []).behind (if_neg fun both => plain (.inl both.1))
  | closure kind same course inner =>
    refine Outlook.Adds.behind ?_ rfl
    simp only [Outlook.Adds, Act.givesAll, Act.gives, Bool.or_false, same] at inner ⊢
    rw [inner, course.takes, Bool.or_assoc]
  | named kind _ inner =>
    rw [← List.append_nil (Node.stmt _ :: _)]
    exact (Outlook.let_adds _ _ _ kind fun _ => inner rfl).append (.same _)
  | loop _ inner => exact inner.inside (by rw [Act.gives]) (by rw [Act.gives])
  | each kind _ _ source inner =>
    refine source.append ((inner.inside ?_ ?_).behind (if_neg (by simp [kind])))
    · rw [Act.gives]
    · rw [Act.gives]

theorem Outlook.agree_bare (o : Outlook) : o.Agree Eq o.bare :=
  ⟨fun _ => rfl, congrArg _, fun _ _ => rfl, fun _ => rfl, fun _ _ => rfl⟩

theorem stmts_add (o : Outlook) (b : Nat) (ss : List Stmt) :
    o.Adds b (Stmt.visitsAll ss) (Stmt.actsAll o ss) (Stmt.actsAll o.bare ss) :=
  (@stmts_course Eq o o.bare o.agree_bare ss 0).adds b

namespace FuncDecl

variable {f : FuncDecl} {n : Naming}

theorem naming_listed (member : n ∈ f.namings) : n.name ∈ f.closureLets := by
  obtain ⟨node, visited, naming⟩ := List.mem_filterMap.mp member
  refine List.mem_filterMap.mpr ⟨node, stmts_visits_nodes f.body visited, ?_⟩
  cases node with
  | expr e => exact absurd naming (by simp [Node.naming?])
  | stmt s =>
    cases s with
    | absent id => exact absurd naming (by simp [Node.naming?])
    | node info target value body orElse =>
      simp only [Node.naming?] at naming
      split at naming
      · rename_i named
        obtain rfl := Option.some.inj naming
        exact if_pos named
      · exact absurd naming (by simp)

theorem outlook_contains (table : Signatures) (member : n ∈ f.namings) :
    (f.outlook table).escapingLets.contains n.name = (f.collectWith { table }).gives n.name := by
  rw [Bool.eq_iff_iff, List.contains_iff_mem, outlook, List.mem_filter]
  exact and_iff_right (naming_listed member)

theorem collect_notes (distinct : f.closures.Nodup) (table : Signatures) (member : n ∈ f.namings) :
    (f.collect table).escaping.lookup n.closure.id = some ((f.collectWith { table }).gives n.name) ∧
      ∀ v ∈ f.visits, n ∈ v.naming? →
        ∀ b, (f.collect table).captured n.closure.id b = v.takes (f.outlook table) b := by
  have noted : ∀ v ∈ f.visits, n ∈ v.naming? → (f.collect table).Notes n.closure.id
      ((f.collectWith { table }).gives n.name) fun b => v.takes (f.outlook table) b := by
    intro v visited naming
    have noted := collectWith_notes distinct (f.outlook table) v visited n naming
    rwa [outlook_contains table member, ← collect_eq] at noted
  obtain ⟨v, visited, naming⟩ := List.mem_filterMap.mp member
  constructor
  · obtain ⟨bs, entry, -⟩ := noted v visited naming
    exact congrArg Prod.fst entry
  · intro v visited naming b
    obtain ⟨bs, entry, captured⟩ := noted v visited naming
    rw [Collection.captured, (Prod.mk.inj entry).2, Option.getD_some, Bool.eq_iff_iff,
      List.contains_iff_mem]
    exact captured b

theorem collect_gives (distinct : f.closures.Nodup) (table : Signatures) (b : Nat) :
    (f.collect table).gives b = ((f.collectWith { table }).gives b ||
      f.namings.any fun n => (f.collect table).escapes n.closure.id &&
        (f.collect table).captured n.closure.id b) := by
  have each : ∀ v ∈ f.visits, ∀ n ∈ v.naming?, ((f.outlook table).escapingLets.contains n.name &&
      v.takes (f.outlook table) b) = ((f.collect table).escapes n.closure.id &&
        (f.collect table).captured n.closure.id b) := by
    intro v visited n naming
    have member : n ∈ f.namings := List.mem_filterMap.mpr ⟨v, visited, naming⟩
    obtain ⟨escapes, captured⟩ := collect_notes distinct table member
    rw [outlook_contains table member, Collection.escapes, escapes, captured v visited naming,
      Option.getD_some]
  have handed : (f.outlook table).hands b f.visits =
      f.namings.any fun n => (f.collect table).escapes n.closure.id &&
        (f.collect table).captured n.closure.id b := by
    rw [Bool.eq_iff_iff, Outlook.hands, List.any_eq_true, List.any_eq_true]
    constructor
    · rintro ⟨v, visited, handed⟩
      rw [Bool.and_eq_true, Option.any_eq_true] at handed
      obtain ⟨⟨n, naming, name⟩, taken⟩ := handed
      refine ⟨n, List.mem_filterMap.mpr ⟨v, visited, naming⟩, ?_⟩
      rw [← each v visited n naming, name, taken, Bool.and_self]
    · rintro ⟨n, member, handed⟩
      obtain ⟨v, visited, naming⟩ := List.mem_filterMap.mp member
      refine ⟨v, visited, ?_⟩
      rw [naming, Option.any_some, each v visited n naming]
      exact handed
  have added := stmts_add (f.outlook table) b f.body
  rw [← handed, collect_eq, collectWith_gives, collectWith_gives, acts, acts,
    givesAll_append, givesAll_append, Bool.or_assoc]
  exact congrArg _ added

end FuncDecl

/-- A named closure is classified by what the first pass finds. In the end a binding is given away when
the first pass finds it so, or when a named closure that escapes captures it. So the classification
agrees with the collection exactly when named closures that escape capture no name of one that stays. -/
theorem named_closures_escape {f : FuncDecl} (distinct : f.closures.Nodup) (table : Signatures) :
    (∀ n ∈ f.namings, (f.collect table).escaping.lookup n.closure.id =
        some ((f.collectWith { table }).gives n.name)) ∧
      (∀ b, (f.collect table).gives b = ((f.collectWith { table }).gives b ||
        f.namings.any fun n => (f.collect table).escapes n.closure.id &&
          (f.collect table).captured n.closure.id b)) ∧
      (∀ n ∈ f.namings, (f.collect table).escapes n.closure.id = true →
        (f.collect table).gives n.name = true) ∧
      ((∀ n ∈ f.namings, (f.collect table).escapes n.closure.id = (f.collect table).gives n.name) ↔
        ∀ m ∈ f.namings, ∀ n ∈ f.namings, (f.collect table).escapes m.closure.id = true →
          (f.collect table).captured m.closure.id n.name = true →
            (f.collect table).escapes n.closure.id = true) := by
  have noted := fun n member => (FuncDecl.collect_notes (n := n) distinct table member).1
  have given := FuncDecl.collect_gives distinct table
  have escapes : ∀ n ∈ f.namings, (f.collect table).escapes n.closure.id =
      (f.collectWith { table }).gives n.name := by
    intro n member
    rw [Collection.escapes, noted n member, Option.getD_some]
  have sound : ∀ n ∈ f.namings, (f.collect table).escapes n.closure.id = true →
      (f.collect table).gives n.name = true := by
    intro n member escaping
    rw [given, ← escapes n member, escaping, Bool.true_or]
  refine ⟨noted, given, sound, ?_, ?_⟩
  · intro agree m here n there escaping captured
    rw [agree n there, given, Bool.or_eq_true, List.any_eq_true]
    exact .inr ⟨m, here, by rw [escaping, captured, Bool.true_and]⟩
  · intro closed n there
    rw [Bool.eq_iff_iff]
    refine ⟨sound n there, ?_⟩
    intro gives
    rw [given, ← escapes n there, Bool.or_eq_true, List.any_eq_true] at gives
    rcases gives with escaping | ⟨m, here, taken⟩
    · exact escaping
    · rw [Bool.and_eq_true] at taken
      exact closed m here n there taken.1 taken.2

namespace Sample

def chain : FuncDecl :=
  { id := 1, name := "chain", receiver := 0, owner := "", params := [], result := .unknown
    body := [
      stmt 1 .letVar 1 (lambda 1 [] (.absent 0) (name 2 0)),
      stmt 2 .letVar 2 (lambda 3 [] (.absent 0) (.node
        { Sketch.blank .call .string with id := 4, name := "x", binding := 1 } (.absent 0) (.absent 0)
        [] [] (.absent 0) (.absent 0))),
      stmt 3 .give 0 (name 5 2)]
    isExtern := false, span := Range.zero }

end Sample

/-- The first closure of the chain is given away with the second, and is not classified as escaping. -/
theorem closure_left_behind :
    Sample.chain.isScoped = true ∧ Sample.chain.closures.Nodup ∧
      ∃ n ∈ Sample.chain.namings, (Sample.chain.collect []).escapes n.closure.id = false ∧
        (Sample.chain.collect []).gives n.name = true := by
  decide

theorem chain_captures_staying :
    Sample.chain.closures.Nodup ∧
      ¬∀ m ∈ Sample.chain.namings, ∀ n ∈ Sample.chain.namings,
        (Sample.chain.collect []).escapes m.closure.id = true →
          (Sample.chain.collect []).captured m.closure.id n.name = true →
            (Sample.chain.collect []).escapes n.closure.id = true := by
  have distinct : Sample.chain.closures.Nodup := by decide
  obtain ⟨-, -, -, agrees⟩ := named_closures_escape distinct []
  refine ⟨distinct, ?_⟩
  rw [← agrees]
  decide

end Tenure
