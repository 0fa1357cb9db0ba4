import Tenure.Proofs.Association
import Tenure.Proofs.Headers
import Tenure.Proofs.Modes

/- The signature table of an analysis and what it was derived from. The results of the last round go by
   the table that is returned, whichever way the rounds end. A table is only looked up by name, so the
   order in which functions stand in a module decides nothing. -/
namespace Tenure

section Lookups

structure Outlook.Matches (o p : Outlook) : Prop where
  table : ∀ name, o.table.get? name = p.table.get? name
  lets : o.escapingLets = p.escapingLets

variable {o p : Outlook}

mutual
theorem Expr.collect_matches (h : o.Matches p) : ∀ e : Expr, e.collect o = e.collect p
  | .absent _ => rfl
  | .node info x y args inits body result => by
    funext access c
    simp only [Expr.collect, Expr.collect_matches h x, Expr.collect_matches h y,
      Expr.collect_matches h result, Stmt.collect_matches h body, Expr.collectAll_matches h args,
      FieldInit.collectAll_matches h inits, h.table]
theorem Expr.collectAll_matches (h : o.Matches p) :
    ∀ es : List Expr, Expr.collectAll o es = Expr.collectAll p es
  | [] => rfl
  | e :: es => by
    funext access i c
    simp only [Expr.collectAll, Expr.collect_matches h e, Expr.collectAll_matches h es]
theorem FieldInit.collectAll_matches (h : o.Matches p) :
    ∀ inits : List FieldInit, FieldInit.collectAll o inits = FieldInit.collectAll p inits
  | [] => rfl
  | .mk _ _ value :: inits => by
    funext c
    simp only [FieldInit.collectAll, Expr.collect_matches h value, FieldInit.collectAll_matches h inits]
theorem Stmt.collect_matches (h : o.Matches p) : ∀ s : Stmt, s.collect o = s.collect p
  | .absent _ => rfl
  | .node info target value body orElse => by
    funext c
    simp only [Stmt.collect, Expr.collect_matches h target, Expr.collect_matches h value,
      Stmt.collectAll_matches h body, Stmt.collect_matches h orElse, h.lets]
theorem Stmt.collectAll_matches (h : o.Matches p) :
    ∀ ss : List Stmt, Stmt.collectAll o ss = Stmt.collectAll p ss
  | [] => rfl
  | s :: ss => by
    funext c
    simp only [Stmt.collectAll, Stmt.collect_matches h s, Stmt.collectAll_matches h ss]
end

variable {S T : Signatures}

theorem get_matches (same : ∀ name, S.lookup name = T.lookup name) (name : String) :
    S.get? name = T.get? name := by
  rw [Signatures.get?, Signatures.get?, same]

theorem collect_lookups (same : ∀ name, S.lookup name = T.lookup name) (f : FuncDecl) :
    f.collect S = f.collect T := by
  have each : ∀ lets, f.collectWith { table := S, escapingLets := lets } =
      f.collectWith { table := T, escapingLets := lets } := by
    intro lets
    have matched : Outlook.Matches { table := S, escapingLets := lets }
        { table := T, escapingLets := lets } := ⟨get_matches same, rfl⟩
    rw [FuncDecl.collectWith, FuncDecl.collectWith, Stmt.collectAll_matches matched]
  simp only [FuncDecl.collect, each]

theorem analyze_lookups (same : ∀ name, S.lookup name = T.lookup name) (m : Module)
    (funcs : List FuncDecl) (f : FuncDecl) :
    f.analyze { m with funcs } S = f.analyze m T := by
  rw [FuncDecl.analyze, collect_lookups same]
  rfl

end Lookups

namespace Signatures

variable {table : Signatures}

theorem lookup_insert (table : Signatures) (name : String) (s : Signature) (k : String) :
    (table.insert name s).lookup k = if k = name then some s else table.lookup k :=
  lookup_set _ (insert_updates name s) table k

variable {s : Signature} {fas : List FuncAnalysis}

theorem insert_same {name : String} (there : table.lookup name = some s) :
    table.insert name s = table := by
  induction table with
  | nil => simp at there
  | cons e table ih =>
    obtain ⟨key, t⟩ := e
    rw [insert]
    rw [List.lookup_cons] at there
    by_cases here : key = name
    · subst here
      simp only [beq_self_eq_true, Option.some.injEq] at there
      rw [if_pos rfl, there]
    · rw [beq_eq_false_iff_ne.mpr (Ne.symm here)] at there
      rw [if_neg here, ih there]

structure Keyed (m : Module) (table : Signatures) : Prop where
  total : ∀ f ∈ m.funcs, ∃ s, table.lookup f.qualified = some s
  named : ∀ k s, table.lookup k = some s → s.name = k

theorem insert_named {name : String} (named : ∀ k s, table.lookup k = some s → s.name = k)
    (own : s.name = name) : ∀ k t, (table.insert name s).lookup k = some t → t.name = k := by
  intro k t there
  rw [lookup_insert] at there
  by_cases mine : k = name
  · rw [if_pos mine, Option.some.injEq] at there
    rw [← there, own, mine]
  · rw [if_neg mine] at there
    exact named k t there

theorem insert_total {name k : String} (there : ∃ t, table.lookup k = some t) :
    ∃ t, (table.insert name s).lookup k = some t := by
  rw [lookup_insert]
  by_cases mine : k = name
  · exact ⟨s, if_pos mine⟩
  · rw [if_neg mine]
    exact there

theorem Keyed.insert {m : Module} (keyed : Keyed m table) {name : String}
    (own : s.name = name) : Keyed m (table.insert name s) :=
  ⟨fun f member => insert_total (keyed.total f member), insert_named keyed.named own⟩

theorem Keyed.seed (m : Module) : Keyed m (seed m) := by
  -- the functions that are seeded already have their signatures
  have all : ∀ (todo : List FuncDecl) (table : Signatures),
      (∀ f ∈ m.funcs, f ∈ todo ∨ ∃ s, table.lookup f.qualified = some s) →
      (∀ k s, table.lookup k = some s → s.name = k) →
      Keyed m (todo.foldl (fun table f => Signatures.insert table f.qualified (seedOf m f)) table) := by
    intro todo
    induction todo with
    | nil =>
      intro table known named
      exact ⟨fun f member => (known f member).resolve_left List.not_mem_nil, named⟩
    | cons g todo ih =>
      intro table known named
      rw [List.foldl_cons]
      apply ih
      · intro f member
        rcases known f member with next | done
        · rcases List.mem_cons.mp next with rfl | later
          · exact .inr ⟨seedOf m f, by rw [lookup_insert, if_pos rfl]⟩
          · exact .inl later
        · exact .inr (insert_total done)
      · exact insert_named named rfl
  exact all m.funcs [] (fun f member => .inl member) (fun _ _ there => by simp at there)

variable {m : Module} {fa : FuncAnalysis}

theorem Keyed.advance (keyed : Keyed m table) (fas : List FuncAnalysis) :
    Keyed m (table.advance fas).1 :=
  List.foldlRecOn (motive := fun s : Signatures × Bool => Keyed m s.1) fas _ keyed
    fun _ keyed _ _ => keyed.insert rfl

theorem absorb_same_iff (keyed : Keyed m table) (member : fa.func ∈ m.funcs) :
    (Signatures.absorb (table, false) fa).1 = table ↔ (Signatures.absorb (table, false) fa).2 = false := by
  obtain ⟨old, there⟩ := keyed.total fa.func member
  have own : old.name = fa.func.qualified := keyed.named _ _ there
  have made : Signatures.absorb (table, false) fa =
      (table.insert fa.func.qualified (refined old fa), !(refined old fa).agrees old) := by
    simp only [Signatures.absorb, there, Option.getD_some, Bool.false_or]
  rw [made, Bool.not_eq_false']
  constructor
  · intro same
    have kept : table.insert fa.func.qualified (refined old fa) = table := same
    have found := lookup_insert table fa.func.qualified (refined old fa) fa.func.qualified
    rw [kept, there, if_pos rfl, Option.some.injEq] at found
    rw [← found]
    simp [Signature.agrees]
  · intro agree
    have equal : refined old fa = old := by
      simp only [Signature.agrees, Bool.and_eq_true, beq_iff_eq] at agree
      rw [Signature.mk.injEq]
      exact ⟨own.symm, agree.1.1, agree.1.2, agree.2, rfl⟩
    rw [equal, insert_same there]

theorem foldl_flag (fas : List FuncAnalysis) (s : Signatures × Bool) (flag : s.2 = true) :
    (fas.foldl Signatures.absorb s).2 = true := by
  induction fas generalizing s with
  | nil => exact flag
  | cons fa fas ih =>
    apply ih
    rw [Signatures.absorb, flag, Bool.true_or]

theorem advance_same_iff (keyed : Keyed m table) (members : ∀ fa ∈ fas, fa.func ∈ m.funcs) :
    (table.advance fas).2 = false ↔ ∀ fa ∈ fas, (Signatures.absorb (table, false) fa).1 = table := by
  unfold advance
  induction fas with
  | nil => simp
  | cons fa fas ih =>
    rw [List.forall_mem_cons] at members ⊢
    rw [List.foldl_cons, ← ih members.2, absorb_same_iff keyed members.1]
    cases flag : (Signatures.absorb (table, false) fa).2 with
    | true => simp [foldl_flag fas _ flag]
    | false =>
      have same := (absorb_same_iff keyed members.1).mpr flag
      have kept : Signatures.absorb (table, false) fa = (table, false) := Prod.ext same flag
      rw [kept]
      simp

theorem advance_same (each : ∀ fa ∈ fas, (Signatures.absorb (table, false) fa).1 = table) :
    (table.advance fas).1 = table := by
  unfold advance
  suffices all : ∀ flag, (fas.foldl Signatures.absorb (table, flag)).1 = table from all false
  induction fas with
  | nil => exact fun _ => rfl
  | cons fa fas ih =>
    intro flag
    rw [List.forall_mem_cons] at each
    have kept : Signatures.absorb (table, flag) fa = (table, (Signatures.absorb (table, flag) fa).2) :=
      Prod.ext each.1 rfl
    rw [List.foldl_cons, kept]
    exact ih each.2 _

end Signatures

namespace Round

theorem rounds_length (m : Module) (limit : Nat) (table : Signatures) :
    (rounds m limit table).length ≤ limit + 1 := by
  induction limit generalizing table with
  | zero => exact Nat.le_refl _
  | succ limit ih =>
    unfold rounds
    dsimp only
    split
    · have later := ih (run m table).next.1
      simp only [List.length_cons]
      omega
    · simp

end Round

theorem converged_iff (m : Module) (limit : Int) :
    (Analysis.of m limit).converged = true ↔ ∀ fa ∈ (Analysis.of m limit).funcs,
      (Signatures.absorb ((Analysis.of m limit).table, false) fa).1 = (Analysis.of m limit).table := by
  obtain ⟨T, keyed, final⟩ := analysis_last (P := Signatures.Keyed m) (.seed m)
    (fun _ keyed => keyed.advance _) limit
  have members : ∀ fa ∈ (Round.run m T).funcs, fa.func ∈ m.funcs := by
    intro fa member
    obtain ⟨f, there, rfl⟩ := List.mem_map.mp member
    exact List.mem_of_mem_filter there
  rw [Analysis.converged, Analysis.funcs, Analysis.table, final, Round.isStable, Bool.not_eq_true']
  exact Signatures.advance_same_iff keyed members

namespace Standing

section Perm

variable {s t : Standing}

theorem lookup_iff (distinct : s.names.Nodup) {name : String} {sig : Signature} :
    s.table.lookup name = some sig ↔ (name, sig) ∈ s.table := by
  constructor
  · intro found
    obtain ⟨front, back, shape, -⟩ := List.lookup_eq_some_iff.mp found
    rw [shape]
    simp
  · intro member
    obtain ⟨⟨f, sig⟩, there, same⟩ := List.mem_map.mp member
    obtain ⟨rfl, rfl⟩ := Prod.mk.inj same
    exact lookup_of_mem distinct there

theorem lookup_perm (distinct : s.names.Nodup) (perm : s.Perm t) (name : String) :
    s.table.lookup name = t.table.lookup name := by
  have names : t.names.Nodup := (perm.map _).nodup_iff.mp distinct
  apply Option.ext
  intro sig
  rw [lookup_iff distinct, lookup_iff names]
  exact (perm.map _).mem_iff

variable {m : Module} {funcs : List FuncDecl}

theorem step_lookups {S T : Signatures} (same : ∀ name, S.lookup name = T.lookup name)
    (e : FuncDecl × Signature) : step { m with funcs } S e = step m T e := by
  rw [step, step, analyze_lookups same]

theorem next_perm (distinct : s.names.Nodup) (perm : s.Perm t) :
    (s.next m).Perm (t.next { m with funcs }) := by
  have same : t.next { m with funcs } = t.map (step m s.table) :=
    List.map_congr_left fun e _ => step_lookups (fun name => (lookup_perm distinct perm name).symm) e
  rw [same]
  exact perm.map _

theorem changes_perm (distinct : s.names.Nodup) (perm : s.Perm t) :
    s.changes m s.table = t.changes { m with funcs } t.table := by
  have same : ∀ e, step { m with funcs } t.table e = step m s.table e :=
    step_lookups fun name => (lookup_perm distinct perm name).symm
  unfold changes
  simp only [same]
  exact perm.any_eq

theorem rounds_perm (distinct : (m.funcs.map (·.qualified)).Nodup) (perm : m.funcs.Perm funcs)
    (limit : Nat) (all : s.map (·.1) = m.funcs) (others : t.map (·.1) = funcs) (same : s.Perm t) :
    (Round.rounds m limit s.table).length =
        (Round.rounds { m with funcs } limit t.table).length ∧
      ∃ u v : Standing, u.map (·.1) = m.funcs ∧ v.map (·.1) = funcs ∧ u.Perm v ∧
        (Round.rounds m limit s.table).getLast? = some (Round.run m u.table) ∧
        (Round.rounds { m with funcs } limit t.table).getLast? =
          some (Round.run { m with funcs } v.table) := by
  have names : s.names.Nodup := names_nodup distinct all
  have permuted : (funcs.map (·.qualified)).Nodup := (perm.map _).nodup_iff.mp distinct
  induction limit generalizing s t with
  | zero => exact ⟨rfl, s, t, all, others, same, rfl, rfl⟩
  | succ limit ih =>
    rw [Round.rounds, Round.rounds, run_next distinct all,
      run_next (m := { m with funcs }) permuted others, ← changes_perm names same]
    by_cases moves : s.changes m s.table = true
    · have left : (s.next m).map (·.1) = m.funcs := (next_fst m s).trans all
      have right : (t.next { m with funcs }).map (·.1) = funcs := (next_fst _ t).trans others
      obtain ⟨length, u, v, one, two, perm, last, last'⟩ :=
        ih left right (next_perm names same) (names_nodup distinct left)
      simp only [moves, if_true, List.length_cons, length, List.getLast?_cons, last, last',
        Option.getD_some]
      exact ⟨trivial, u, v, one, two, perm, rfl, rfl⟩
    · simp only [moves, Bool.false_eq_true, if_false]
      exact ⟨rfl, s, t, all, others, same, rfl, rfl⟩

end Perm

end Standing

structure Analysis.Alike (a b : Analysis) : Prop where
  table : ∀ name, a.table.lookup name = b.table.lookup name
  rounds : a.rounds = b.rounds
  converged : a.converged = b.converged
  funcs : a.funcs.Perm b.funcs

variable {m : Module}

theorem limitOf_perm {funcs : List FuncDecl} (perm : m.funcs.Perm funcs) (limit : Int) :
    Analysis.limitOf { m with funcs } limit = Analysis.limitOf m limit := by
  have bound : Analysis.roundBound { m with funcs } = Analysis.roundBound m := by
    apply List.Perm.foldl_eq'
    · exact perm.symm
    · intro f _ g _ n
      omega
  rw [Analysis.limitOf, Analysis.limitOf, bound]

theorem analysis_perm (distinct : (m.funcs.map (·.qualified)).Nodup)
    {funcs : List FuncDecl} (perm : m.funcs.Perm funcs) (limit : Int) :
    (Analysis.of m limit).Alike (Analysis.of { m with funcs } limit) := by
  have permuted : (funcs.map (·.qualified)).Nodup := (perm.map _).nodup_iff.mp distinct
  obtain ⟨length, u, v, one, two, same, last, last'⟩ :=
    Standing.rounds_perm distinct perm (Analysis.limitOf m limit) (Standing.seed_fst m)
      (Standing.seed_fst { m with funcs }) (perm.map _)
  have names := Standing.names_nodup distinct one
  rw [← Standing.seed_table distinct] at length last
  rw [← Standing.seed_table (m := { m with funcs }) permuted] at length last'
  rw [← limitOf_perm perm] at last'
  have final : (Analysis.of m limit).last = Round.run m u.table := congrArg (Option.getD · _) last
  have final' : (Analysis.of { m with funcs } limit).last = Round.run { m with funcs } v.table :=
    congrArg (Option.getD · _) last'
  have lookups := Standing.lookup_perm names same
  constructor
  · rw [Analysis.table, Analysis.table, final, final']
    exact lookups
  · have history : (Analysis.of { m with funcs } limit).history =
        Round.rounds { m with funcs } (Analysis.limitOf m limit) (Signatures.seed { m with funcs }) := by
      rw [← limitOf_perm perm]
      rfl
    rw [Analysis.rounds, Analysis.rounds, history]
    exact length
  · rw [Analysis.converged, Analysis.converged, final, final', Round.isStable, Round.isStable,
      Standing.run_next distinct one, Standing.run_next (m := { m with funcs }) permuted two,
      Standing.changes_perm names same]
  · rw [Analysis.funcs, Analysis.funcs, final, final']
    have each : (Round.run { m with funcs } v.table).funcs =
        (funcs.filter (!·.isExtern)).map (FuncDecl.analyze m u.table) :=
      List.map_congr_left fun f _ => analyze_lookups (fun name => (lookups name).symm) m funcs f
    rw [each]
    exact (perm.filter _).map _

section Fixed

def Module.isFixed (m : Module) (b : Nat) : Bool :=
  (m.binding? b).any fun bd => bd.marker != .none || bd.ty.isCopy

variable {m : Module}

def Verdict.Given (m : Module) (v : Verdict) : Prop :=
  ∀ b md, v.modes.lookup b = some md → ∃ bd u, m.binding? b = some bd ∧ md = (Binding.settle bd u).mode

theorem Verdict.Given.settle {v : Verdict} (given : v.Given m) (c : Collection) (b : Nat) :
    (v.settle m c b).Given m := by
  intro a md found
  unfold Verdict.settle at found
  cases known : m.binding? b with
  | none =>
    rw [known] at found
    exact given a md found
  | some bd =>
    simp only [known, Verdict.add, lookup_setKey] at found
    by_cases mine : a = b
    · rw [if_pos mine, Option.some.injEq] at found
      exact ⟨bd, _, mine ▸ known, found.symm⟩
    · rw [if_neg mine] at found
      exact given a md found

theorem resolve_given (c : Collection) : (c.resolve m).2.Given m := by
  have keeps : SettlingKeeps m fun _ v => v.Given m :=
    ⟨fun given b => given.settle _ b, fun given _ => given, fun given _ => given⟩
  intro b md found
  rw [(c.resolve_eq m).2.1] at found
  exact keeps.settled (fun b md found => by simp at found) b md found

theorem join_owned_left (a : Mode) : Mode.owned.join a = .owned := by
  cases a <;> rfl

theorem join_self (a : Mode) : a.join a = a := by
  cases a <;> rfl

theorem join_unresolved (a : Mode) : a.join .unresolved = a := by
  cases a <;> rfl

theorem rises_trans {xs ys zs : List Mode} (first : Rises xs ys) (second : Rises ys zs) : Rises xs zs := by
  induction first generalizing zs with
  | nil => exact second
  | cons le _ ih =>
    cases second with
    | cons le' rest => exact .cons (Nat.le_trans le le') (ih rest)

theorem join_fixed (table : Signatures) (f : FuncDecl) {b : Nat} (fixed : m.isFixed b = true) :
    (Signatures.seedMode f.isExtern (m.binding? b)).join ((f.analyze m table).verdict.mode b) =
      Signatures.seedMode f.isExtern (m.binding? b) := by
  have given := resolve_given (m := m) (f.collect table) b
  have mode : (f.analyze m table).verdict.mode b =
      (((f.collect table).resolve m).2.modes.lookup b).getD .unresolved := rfl
  cases known : m.binding? b with
  | none => simp [Module.isFixed, known] at fixed
  | some bd =>
    simp only [Module.isFixed, known, Option.any_some, Bool.or_eq_true, bne_iff_ne] at fixed
    by_cases marked : bd.marker = .none
    · have owned : Signatures.seedMode f.isExtern (some bd) = .owned := by
        simp [Signatures.seedMode, marked, fixed.resolve_left (not_not_intro marked)]
      rw [owned]
      exact join_owned_left _
    · have seed : Signatures.seedMode f.isExtern (some bd) = Mode.ofMarker bd.marker := if_pos marked
      rw [seed, mode]
      cases found : ((f.collect table).resolve m).2.modes.lookup b with
      | none => exact join_unresolved _
      | some md =>
        obtain ⟨bd', u, same, rfl⟩ := given md found
        obtain rfl : bd = bd' := Option.some.inj (known.symm.trans same)
        rw [Option.getD_some, settle_marked bd u marked]
        exact join_self _

structure Signature.Grown (m : Module) (f : FuncDecl) (s : Signature) : Prop where
  rises : Rises (Signatures.seedOf m f).slots s.slots
  foreign : f.isExtern = true → s = Signatures.seedOf m f
  receiver : f.receiver ≠ 0 → m.isFixed f.receiver = true →
    s.receiver = (Signatures.seedOf m f).receiver
  params : ∀ i (h : i < f.params.length), m.isFixed f.params[i] = true →
    s.param i = (Signatures.seedOf m f).param i

theorem Signature.Grown.seed (m : Module) (f : FuncDecl) : (Signatures.seedOf m f).Grown m f := by
  constructor
  · exact List.forall₂_same.mpr fun _ _ => Nat.le_refl _
  · exact fun _ => rfl
  · exact fun _ _ => rfl
  · exact fun _ _ _ => rfl

variable {f : FuncDecl}

theorem seed_param {i : Nat} (h : i < f.params.length) :
    (Signatures.seedOf m f).param i = Signatures.seedMode f.isExtern (m.binding? f.params[i]) := by
  simp [Signature.param, Signatures.seedOf, h]

theorem Signature.Grown.refined {s : Signature} (grown : s.Grown m f) (fits : s.Fits f)
    (body : ¬ f.isExtern = true) (table : Signatures) :
    (Signatures.refined s (f.analyze m table)).Grown m f := by
  constructor
  · exact rises_trans grown.rises (refined_rises fits table)
  · exact fun foreign => absurd foreign body
  · intro proper fixed
    have has : s.hasReceiver = true := by
      rw [fits.receiver]
      simpa using proper
    have own : (Signatures.seedOf m f).receiver = Signatures.seedMode f.isExtern (m.binding? f.receiver) :=
      if_neg proper
    rw [refined_receiver table has, grown.receiver proper fixed, own, join_fixed table f fixed]
  · intro i inside fixed
    rw [refined_param table inside, grown.params i inside fixed, seed_param inside,
      join_fixed table f fixed]

theorem signature_grown (distinct : (m.funcs.map (·.qualified)).Nodup) (limit : Int)
    (there : f ∈ m.funcs) :
    ∃ sig, (Analysis.of m limit).table.lookup f.qualified = some sig ∧ sig.Grown m f := by
  have kept : ∀ T e, e.2.Fits e.1 ∧ e.2.Grown m e.1 →
      (Standing.step m T e).2.Fits (Standing.step m T e).1 ∧
        (Standing.step m T e).2.Grown m (Standing.step m T e).1 := by
    rintro T e ⟨fits, grown⟩
    refine ⟨Standing.step_fits fits, ?_⟩
    unfold Standing.step
    split
    · exact grown
    · rename_i body
      exact grown.refined fits body T
  obtain ⟨sig, found, -, grown⟩ :=
    Standing.signature_kept distinct (fun f => ⟨.seed m f, .seed m f⟩) kept limit there
  exact ⟨sig, found, grown⟩

end Fixed

/-- The results of an analysis go by its own table, and it has converged exactly when none of them changes
that table. -/
structure Analysis.InStep (a : Analysis) : Prop where
  funcs : a.funcs = (a.module.funcs.filter (!·.isExtern)).map (FuncDecl.analyze a.module a.table)
  converged : a.converged = true ↔ ∀ fa ∈ a.funcs, (Signatures.absorb (a.table, false) fa).1 = a.table
  -- Not the other way: functions of one name may take turns at one signature, so that the joined table
  -- comes back to itself while single results have changed it.
  joined : a.converged = true → (a.table.advance a.funcs).1 = a.table
  rounds : a.rounds ≤ a.limit + 1

theorem Analysis.InStep.of (m : Module) (limit : Int) : (Analysis.of m limit).InStep := by
  have converged := converged_iff m limit
  constructor
  · exact analysis_funcs m limit
  · exact converged
  · intro stable
    exact Signatures.advance_same (converged.mp stable)
  · exact Round.rounds_length m _ _

theorem joined_iff (distinct : (m.funcs.map (·.qualified)).Nodup) (limit : Int) :
    (Analysis.of m limit).converged = true ↔
      ((Analysis.of m limit).table.advance (Analysis.of m limit).funcs).1 = (Analysis.of m limit).table := by
  obtain ⟨t, all, -, final⟩ := Standing.last_kept (P := fun _ => True) distinct (fun _ => trivial)
    (fun _ _ _ => trivial) limit
  refine ⟨(Analysis.InStep.of m limit).joined, ?_⟩
  intro same
  have next : (Round.run m t.table).next.1 = t.table := by
    rw [Analysis.funcs, Analysis.table, final] at same
    exact same
  rw [Standing.run_next distinct all] at next
  rw [Analysis.converged, final, Round.isStable, Standing.run_next distinct all, Bool.not_eq_true',
    Standing.changes, List.any_eq_false]
  intro e member
  rw [Standing.next, Standing.table, Standing.table, List.map_map] at next
  have kept := List.map_inj_left.mp next e member
  have signature : (Standing.step m t.table e).2 = e.2 := (Prod.mk.inj kept).2
  rw [signature]
  simp [Signature.agrees]

/-- An analysis is in step with its signature table after any number of rounds. When names are distinct,
signatures grow from their seeds, what is foreign or fixed stays as it was seeded, and the order of the
functions decides nothing. -/
theorem analysis_in_step (m : Module) (limit : Int) :
    (Analysis.of m limit).InStep ∧
      ((m.funcs.map (·.qualified)).Nodup →
        ((Analysis.of m limit).converged = true ↔
          ((Analysis.of m limit).table.advance (Analysis.of m limit).funcs).1 =
            (Analysis.of m limit).table) ∧
        (∀ f ∈ m.funcs, ∃ sig, (Analysis.of m limit).table.lookup f.qualified = some sig ∧
          sig.Grown m f) ∧
        ∀ funcs, m.funcs.Perm funcs →
          (Analysis.of m limit).Alike (Analysis.of { m with funcs } limit)) := by
  refine ⟨.of m limit, fun distinct => ⟨joined_iff distinct limit, ?_, ?_⟩⟩
  · intro f there
    exact signature_grown distinct limit there
  · intro funcs perm
    exact analysis_perm distinct perm limit

theorem relayed_in_step :
    (Sample.relayed.funcs.map (·.qualified)).Nodup ∧
      (Analysis.of Sample.relayed 1).rounds = 2 ∧ (Analysis.of Sample.relayed 1).converged = false ∧
      (Analysis.of { Sample.relayed with funcs := Sample.relayed.funcs.reverse } 1).rounds = 2 ∧
      (Analysis.of { Sample.relayed with funcs := Sample.relayed.funcs.reverse } 1).converged = false := by
  have distinct : (Sample.relayed.funcs.map (·.qualified)).Nodup := by decide +kernel
  have short : (Analysis.of Sample.relayed 1).rounds = 2 ∧
      (Analysis.of Sample.relayed 1).converged = false := by decide +kernel
  have alike := ((analysis_in_step Sample.relayed 1).2 distinct).2.2 _ (List.reverse_perm _).symm
  exact ⟨distinct, short.1, short.2, alike.rounds ▸ short.1, alike.converged ▸ short.2⟩

end Tenure
