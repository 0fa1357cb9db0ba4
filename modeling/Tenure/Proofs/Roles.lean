import Tenure.Proofs.Mentions
import Tenure.Proofs.Writings

/- What an expression is there for. Outside of closures every expression that is written has a role in
   the expression or statement around it. The text writes it at the place that the role asks for, and
   collecting records a name by the access that the role stands for. What the text gives away is
   recorded as given away, apart from the roles that only lend the value. -/
namespace Tenure

variable {info : ExprInfo} {p : Expr × Role} {role : Role} {table : Signatures} {spot : Spot}

inductive Role where
  | first (whole : Role) (info : ExprInfo) (x : Expr)
  | second (info : ExprInfo) (x : Expr)
  | argument (info : ExprInfo) (i : Nat)
  | init
  | value (info : StmtInfo) (target : Expr)
  | target

namespace Role

def place (g : Rendering) : Role → Place
  | .first _ info x => info.xPlace x
  | .second info x => info.yPlace x
  | .argument info i => g.argPlace info i
  | .init => .value
  | .value info aim => info.valuePlace aim
  | .target => .plain

def access (o : Outlook) : Role → Access
  | .first whole info _ => match info.kind with
    | .field | .index => (whole.access o).ofPart
    | .methodCall => o.receiverAccess info
    | _ => .read
  | .second .. => .read
  | .argument info i => match info.kind with
    | .call => o.callAccess info i
    | .methodCall => o.methodAccess info i
    | _ => .store
  | .init => .store
  | .value info aim => match info.kind with
    | .letVar | .give => .move
    | .assign =>
      if aim.info?.isNone || info.op != "=" then .read
      else if aim.isKind .ident then .move else .store
    | _ => .read
  | .target => .mutate

/-- Only read, although the text may give the value away: an argument of a method that has no signature
and keeps nothing, and the value of an assignment that has no target or another operator than `=`. -/
def isLent (table : Signatures) : Role → Bool
  | .argument info _ =>
    info.kind == .methodCall && (table.get? info.target).isNone &&
      (BuiltinMethod.named info.name).args == .read
  | .value info aim => info.kind == .assign && (aim.info?.isNone || info.op != "=")
  | _ => false

end Role

namespace Signatures

def Known (table : Signatures) : Prop := ∀ e ∈ table, ∀ a ∈ e.2.params, a ≠ Mode.unresolved

variable {s : Signature}

theorem param_known (known : ∀ a ∈ s.params, a ≠ Mode.unresolved) (i : Nat) :
    s.param i ≠ .unresolved := by
  rw [Signature.param, List.getD_eq_getElem?_getD]
  cases at_ : s.params[i]? with
  | none => decide
  | some a => exact known a (List.mem_of_getElem? at_)

theorem mem_of_lookup {name : String} (h : table.lookup name = some s) : (name, s) ∈ table := by
  obtain ⟨front, back, rfl, -⟩ := List.lookup_eq_some_iff.mp h
  simp

theorem Known.get (known : table.Known) {name : String} {s : Signature}
    (h : table.get? name = some s) (i : Nat) : s.param i ≠ .unresolved := by
  unfold get? at h
  split at h
  · cases h
  · exact param_known (known _ (mem_of_lookup h)) i

theorem Known.insert (known : table.Known) (name : String)
    (new : ∀ a ∈ s.params, a ≠ Mode.unresolved) : (table.insert name s).Known :=
  (insert_updates name s).forall_mem known new fun _ _ => new

theorem seed_known (m : Module) : (seed m).Known := by
  refine List.foldlRecOn m.funcs _ (fun _ member => absurd member List.not_mem_nil) ?_
  intro table known f _
  apply known.insert
  intro a member
  exact (Signature.Fits.seed m f).known a (List.mem_append_right _ member)

theorem absorb_known {s : Signatures × Bool} (known : s.1.Known) (fa : FuncAnalysis) :
    (absorb s fa).1.Known := by
  apply known.insert
  intro a member
  obtain ⟨i, bound, rfl⟩ := List.mem_mapIdx.mp member
  apply join_known
  cases old : s.1.lookup fa.func.qualified with
  | none => exact param_known (fun _ member => absurd member List.not_mem_nil) i
  | some sig => exact param_known (known _ (mem_of_lookup old)) i

theorem advance_known (known : table.Known) (funcs : List FuncAnalysis) :
    (table.advance funcs).1.Known :=
  List.foldlRecOn (motive := fun s : Signatures × Bool => s.1.Known) funcs _ known
    fun _ known fa _ => absorb_known known fa

theorem analysis_known (m : Module) (limit : Int) : (Analysis.of m limit).table.Known := by
  obtain ⟨T, known, final⟩ := analysis_last (seed_known m) (fun _ known => advance_known known _) limit
  rw [Analysis.table, final]
  exact known

end Signatures

section Agreement

theorem named_args (name : String) :
    (BuiltinMethod.named name).args = .read ∨ (BuiltinMethod.named name).args = .store := by
  have all : ∀ e ∈ BuiltinMethod.table, e.2.args = .read ∨ e.2.args = .store := by decide
  unfold BuiltinMethod.named
  revert all
  generalize BuiltinMethod.table = table
  intro all
  induction table with
  | nil => exact .inl rfl
  | cons e table ih =>
    obtain ⟨first, rest⟩ := List.forall_mem_cons.mp all
    rw [List.lookup_cons]
    split
    · exact first
    · exact ih rest

theorem ofMode_value {a : Mode} (known : a ≠ .unresolved) (h : Place.ofMode a = .value) :
    Access.ofMode a = .move := by
  cases a with
  | unresolved => exact absurd rfl known
  | shared | exclusive => cases h
  | owned => rfl

theorem ofMode_exclusive {a : Mode} (h : Place.ofMode a = .exclusive) :
    Access.ofMode a = .mutate := by
  cases a with
  | exclusive => rfl
  | unresolved | shared | owned => cases h

theorem xPlace_reads (info : ExprInfo) (x : Expr) :
    info.xPlace x = .plain ∨ info.xPlace x = .operand := by
  unfold ExprInfo.xPlace
  cases info.kind <;> simp only [true_or, or_true]
  split <;> simp

theorem yPlace_reads (info : ExprInfo) (x : Expr) :
    info.yPlace x = .plain ∨ info.yPlace x = .operand := by
  unfold ExprInfo.yPlace
  split <;> simp

theorem outerPlace_reads (name : String) :
    Rendering.outerPlace name = .plain ∨ Rendering.outerPlace name = .operand := by
  unfold Rendering.outerPlace
  split <;> simp

theorem reads_apart {p : Place} (reads : p = .plain ∨ p = .operand) :
    p ≠ .value ∧ p ≠ .exclusive := by
  rcases reads with rfl | rfl <;> decide

variable {g : Rendering} {o : Outlook} (same : o.table = g.table) (known : g.table.Known)

include same known

theorem argument_value {i : Nat} (h : g.argPlace info i = .value) :
    ((Role.argument info i).access o).transfers = !(Role.argument info i).isLent g.table := by
  unfold Rendering.argPlace at h
  cases kind : info.kind with
  | call =>
    simp only [kind] at h
    simp only [Role.access, Role.isLent, kind, Outlook.callAccess]
    split at h
    · rename_i named
      rw [if_pos named]
      rfl
    · rename_i unnamed
      rw [if_neg unnamed, same]
      cases sig : g.table.get? info.callee with
      | none =>
        rw [sig] at h
        exact absurd h (reads_apart (outerPlace_reads info.name)).1
      | some s =>
        rw [sig] at h
        rw [argAccess, ofMode_value (known.get sig i) h]
        rfl
  | methodCall =>
    simp only [kind] at h
    simp only [Role.access, Role.isLent, kind, Outlook.methodAccess, same]
    cases sig : g.table.get? info.target with
    | some s =>
      rw [sig] at h
      simp only [argAccess, ofMode_value (known.get sig i) h]
      rfl
    | none =>
      rcases named_args info.name with read | store
      · simp only [read]
        rfl
      · simp only [store]
        rfl
  | _ => simp only [Role.access, Role.isLent, kind]; rfl

omit known in
theorem argument_exclusive {i : Nat} (h : g.argPlace info i = .exclusive) :
    (Role.argument info i).access o = .mutate := by
  unfold Rendering.argPlace at h
  cases kind : info.kind with
  | call =>
    simp only [kind] at h
    simp only [Role.access, kind, Outlook.callAccess]
    split at h
    · cases h
    · rename_i unnamed
      rw [if_neg unnamed, same]
      cases sig : g.table.get? info.callee with
      | none =>
        rw [sig] at h
        exact absurd h (reads_apart (outerPlace_reads info.name)).2
      | some s =>
        rw [sig] at h
        rw [argAccess, ofMode_exclusive h]
  | methodCall =>
    simp only [kind] at h
    simp only [Role.access, kind, Outlook.methodAccess, same]
    cases sig : g.table.get? info.target with
    | some s =>
      rw [sig] at h
      simp only [argAccess, ofMode_exclusive h]
    | none =>
      rw [sig] at h
      dsimp only at h
      split at h
      · cases h
      · split at h <;> cases h
  | _ =>
    simp only [kind] at h
    cases h

theorem value_transfers {r : Role} (h : r.place g = .value) :
    (r.access o).transfers = !r.isLent g.table := by
  cases r with
  | first whole info x => exact absurd h (reads_apart (xPlace_reads info x)).1
  | second info x => exact absurd h (reads_apart (yPlace_reads info x)).1
  | argument info i => exact argument_value same known h
  | init => rfl
  | value info target =>
    simp only [Role.place, StmtInfo.valuePlace] at h
    cases kind : info.kind with
    | letVar | give => simp only [Role.access, Role.isLent, kind]; rfl
    | assign =>
      simp only [Role.access, Role.isLent, kind]
      by_cases lent : (target.info?.isNone || info.op != "=") = true
      · rw [if_pos lent, lent]
        rfl
      · rw [if_neg lent, Bool.not_eq_true] at *
        rw [lent]
        split <;> rfl
    | _ =>
      rw [kind] at h
      cases h
  | target => cases h

omit known in
theorem lent_reads {r : Role} (h : r.isLent g.table = true) : r.access o = .read := by
  cases r with
  | argument info i =>
    simp only [Role.isLent, Bool.and_eq_true, beq_iff_eq, Option.isNone_iff_eq_none] at h
    obtain ⟨⟨kind, sig⟩, read⟩ := h
    simp only [Role.access, kind, Outlook.methodAccess, same, sig, read]
  | value info target =>
    simp only [Role.isLent, Bool.and_eq_true, beq_iff_eq] at h
    simp only [Role.access, h.1, h.2, if_true]
  | _ => cases h

omit known in
theorem exclusive_mutates {r : Role} (h : r.place g = .exclusive) : r.access o = .mutate := by
  cases r with
  | first whole info x => exact absurd h (reads_apart (xPlace_reads info x)).2
  | second info x => exact absurd h (reads_apart (yPlace_reads info x)).2
  | argument info i => exact argument_exclusive same h
  | init => cases h
  | value info target =>
    simp only [Role.place, StmtInfo.valuePlace] at h
    split at h
    · cases h
    · cases h
    · split at h
      · cases h
      · split at h <;> cases h
    · cases h
    · cases h
    · cases h
  | target => rfl

end Agreement

mutual
def Expr.roles : Expr → Role → List (Expr × Role)
  | .absent _, _ => []
  | .node info x y args inits body result, role =>
    (.node info x y args inits body result, role) ::
      match info.kind with
      | .ident | .lit | .closure => []
      | .field | .unary => x.roles (.first role info x)
      | .index | .binary | .range => x.roles (.first role info x) ++ y.roles (.second info x)
      | .call | .arrayLit => Expr.rolesAll args info 0
      | .methodCall => x.roles (.first role info x) ++ Expr.rolesAll args info 0
      | .structLit => FieldInit.rolesAll inits
def Expr.rolesAll : List Expr → ExprInfo → Nat → List (Expr × Role)
  | [], _, _ => []
  | e :: es, info, i => e.roles (.argument info i) ++ Expr.rolesAll es info (i + 1)
def FieldInit.rolesAll : List FieldInit → List (Expr × Role)
  | [] => []
  | .mk _ _ value :: is => value.roles .init ++ FieldInit.rolesAll is
def Stmt.roles : Stmt → List (Expr × Role)
  | .absent _ => []
  | .node info target value body orElse => match info.kind with
    | .letVar | .give => if value.id = 0 then [] else value.roles (.value info target)
    | .assign => target.roles .target ++ value.roles (.value info target)
    | .eval => value.roles (.value info target)
    | .branch => value.roles (.value info target) ++ Stmt.rolesAll body ++ orElse.roles
    | .whileLoop | .forLoop => value.roles (.value info target) ++ Stmt.rolesAll body
    | .leave | .again => []
    | .block => Stmt.rolesAll body
def Stmt.rolesAll : List Stmt → List (Expr × Role)
  | [] => []
  | s :: ss => s.roles ++ Stmt.rolesAll ss
end

section Shown

def ShownAs (g : Rendering) (root : Doc) (p : Expr × Role) : Prop :=
  ∃ depth stmt, root.Shows (p.1.render g depth stmt (p.2.place g))

theorem ShownAs.within {g : Rendering} {root d : Doc} (h : ShownAs g d p) (shows_ : root.Shows d) :
    ShownAs g root p := by
  obtain ⟨depth, stmt, inner⟩ := h
  exact ⟨depth, stmt, shows_.trans inner⟩

theorem Stmt.there_of_roles {s : Stmt} (h : p ∈ s.roles) : s.info?.isSome = true := by
  cases s with
  | absent => rw [Stmt.roles] at h; cases h
  | node => rfl

theorem Expr.mem_roles {x y : Expr} {args : List Expr} {inits : List FieldInit} {body : Stmt}
    {result : Expr} :
    p ∈ (Expr.node info x y args inits body result).roles role ↔
      p = (.node info x y args inits body result, role) ∨
      info.kind.hasBase = true ∧ p ∈ x.roles (.first role info x) ∨
      info.kind.hasSecond = true ∧ p ∈ y.roles (.second info x) ∨
      info.kind.hasArgs = true ∧ p ∈ Expr.rolesAll args info 0 ∨
      info.kind = .structLit ∧ p ∈ FieldInit.rolesAll inits := by
  rw [Expr.roles, List.mem_cons]
  cases info.kind <;> simp [ExprKind.hasBase, ExprKind.hasSecond, ExprKind.hasArgs]

theorem Stmt.mem_roles {info : StmtInfo} {target value : Expr} {body : List Stmt} {orElse : Stmt} :
    p ∈ (Stmt.node info target value body orElse).roles ↔
      info.kind = .assign ∧ p ∈ target.roles .target ∨
      info.hasValue value = true ∧ p ∈ value.roles (.value info target) ∨
      info.kind.hasBlock = true ∧ p ∈ Stmt.rolesAll body ∨
      info.kind = .branch ∧ p ∈ orElse.roles := by
  rw [Stmt.roles, StmtInfo.hasValue]
  cases info.kind <;> by_cases value.id = 0 <;> simp_all [StmtKind.hasBlock]

theorem mem_rolesAll {es : List Expr} {k : Nat} (member : p ∈ Expr.rolesAll es info k) :
    ∃ (i : Nat) (e : Expr), es[i]? = some e ∧ p ∈ e.roles (.argument info (k + i)) := by
  induction es generalizing k with
  | nil => cases member
  | cons e es ih =>
    rcases List.mem_append.mp member with here | later
    · exact ⟨0, e, rfl, here⟩
    · obtain ⟨i, e, here, part⟩ := ih later
      exact ⟨i + 1, e, here, by rwa [Nat.add_comm i, ← Nat.add_assoc]⟩

theorem roles_inits : Gathers FieldInit.rolesAll (·.value.roles .init) := ⟨rfl, by rintro ⟨⟩ _; rfl⟩

theorem roles_stmts : Gathers Stmt.rolesAll Stmt.roles := ⟨rfl, fun _ _ => rfl⟩

end Shown

theorem roles_shown (g : Rendering) : Inherits
    (fun e => ∀ role depth r, ∀ p ∈ e.roles role, ShownAs g (e.render g depth r (role.place g)) p)
    fun s => ∀ depth, ∀ p ∈ s.roles, ShownAs g (s.render g depth) p where
  noExpr _ _ _ _ _ member := absurd member List.not_mem_nil
  noStmt _ _ _ member := absurd member List.not_mem_nil
  expr info x y args inits body result hx hy hargs hinits _ _ role depth r p member := by
    rcases Expr.mem_roles.mp member with rfl | ⟨has, part⟩ | ⟨has, part⟩ | ⟨has, part⟩ | ⟨kind, part⟩
    · exact ⟨depth, r, .refl _⟩
    · exact (hx _ depth r p part).within (Writing.Part.base has).shows_
    · exact (hy _ depth r p part).within (Writing.Part.second has).shows_
    · obtain ⟨i, e, here, part⟩ := mem_rolesAll part
      rw [Nat.zero_add] at part
      exact (hargs e (List.mem_of_getElem? here) _ depth r p part).within (Writing.Part.arg has here).shows_
    · obtain ⟨i, inside, part⟩ := List.mem_flatMap.mp (roles_inits.flatMap inits ▸ part)
      exact (hinits i inside _ depth r p part).within (Writing.Part.init kind inside).shows_
  stmt info target value body orElse htarget hvalue hbody horElse depth p member := by
    rcases Stmt.mem_roles.mp member with ⟨kind, part⟩ | ⟨has, part⟩ | ⟨has, part⟩ | ⟨kind, part⟩
    · exact (htarget _ depth _ p part).within (Writing.Part.target kind).shows_
    · exact (hvalue _ depth _ p part).within (Writing.Part.value has).shows_
    · obtain ⟨s, inside, part⟩ := List.mem_flatMap.mp (roles_stmts.flatMap body ▸ part)
      exact (hbody s inside _ p part).within (Writing.Part.line has inside (Stmt.there_of_roles part)).shows_
    · exact (horElse depth p part).within (Writing.Part.orElse kind (Stmt.there_of_roles part)).shows_

mutual
def Act.outerUses : Act → List Use
  | .declare _ => []
  | .use u => [u]
  | .loop _ acts => Act.outerUsesAll acts
  | .each _ acts => Act.outerUsesAll acts
  | .closure .. => []
def Act.outerUsesAll : List Act → List Use
  | [] => []
  | a :: as => a.outerUses ++ Act.outerUsesAll as
end

structure Expr.Names (e : Expr) (info : ExprInfo) : Prop where
  node : e.info? = some info
  ident : info.kind = .ident
  bound : info.binding ≠ 0

def Act.Uses (as : List Act) (info : ExprInfo) (access : Access) : Prop :=
  ∃ u ∈ Act.outerUsesAll as, u.binding = info.binding ∧ u.expr = info.id ∧ u.access = access

section Uses

variable {info : ExprInfo} {access : Access}

theorem outer_acts : Gathers Act.outerUsesAll Act.outerUses := ⟨rfl, fun _ _ => rfl⟩

theorem uses_here (bound : info.binding ≠ 0) (spot : Spot) (reinit : Bool) :
    Act.Uses ({ info.use access spot with reinit } : Use).acts info access := by
  have acts : ({ info.use access spot with reinit } : Use).acts =
      [.use { info.use access spot with reinit }] := if_neg bound
  rw [acts]
  exact ⟨_, List.mem_cons_self, rfl, rfl, rfl⟩

end Uses

/-- Every name among these expressions is used by the acts as its role says. -/
def Fills (o : Outlook) (rs : List (Expr × Role)) (as : List Act) : Prop :=
  ∀ p ∈ rs, ∀ name, p.1.Names name → Act.Uses as name (p.2.access o)

section Fills

variable {o : Outlook} {rs qs : List (Expr × Role)} {as bs : List Act}

theorem Fills.nil : Fills o [] as := fun _ member => absurd member List.not_mem_nil

theorem Fills.mono (h : Fills o rs as) (sub : Act.outerUsesAll as ⊆ Act.outerUsesAll bs) :
    Fills o rs bs := by
  intro p member name names
  obtain ⟨u, used, told⟩ := h p member name names
  exact ⟨u, sub used, told⟩

theorem Fills.left (h : Fills o rs as) : Fills o rs (as ++ bs) :=
  h.mono (outer_acts.append as bs ▸ List.subset_append_left _ _)

theorem Fills.right (h : Fills o rs bs) : Fills o rs (as ++ bs) :=
  h.mono (outer_acts.append as bs ▸ List.subset_append_right _ _)

theorem Fills.inside {a : Act} (h : Fills o rs as) (inside : a.outerUses = Act.outerUsesAll as) :
    Fills o rs [a] :=
  h.mono (by rw [outer_acts.single, inside]; exact List.Subset.refl _)

theorem Fills.both (h : Fills o rs as) (k : Fills o qs as) : Fills o (rs ++ qs) as :=
  fun p member => (List.mem_append.mp member).elim (h p) (k p)

theorem Fills.append (h : Fills o rs as) (k : Fills o qs bs) : Fills o (rs ++ qs) (as ++ bs) :=
  h.left.both k.right

theorem Fills.swap (h : Fills o rs as) (k : Fills o qs bs) : Fills o (rs ++ qs) (bs ++ as) :=
  h.right.both k.left

theorem Fills.name {x y result : Expr} {args : List Expr} {inits : List FieldInit} {body : Stmt}
    (ident : info.kind = .ident) (spot : Spot) (reinit : Bool) :
    Fills o ((Expr.node info x y args inits body result).roles role)
      ({ info.use (role.access o) spot with reinit } : Use).acts := by
  intro p member name names
  rw [Expr.roles, ident, List.mem_singleton] at member
  subst member
  obtain rfl := Option.some.inj names.node
  exact uses_here names.bound spot reinit

theorem Fills.node {x y result : Expr} {args : List Expr} {inits : List FieldInit} {body : Stmt}
    (other : info.kind ≠ .ident) (h : Fills o rs as) :
    Fills o ((.node info x y args inits body result, role) :: rs) as := by
  intro p member name names
  rcases List.mem_cons.mp member with rfl | part
  · obtain rfl := Option.some.inj names.node
    exact absurd names.ident other
  · exact h p part name names

end Fills

mutual
theorem expr_roles_used (o : Outlook) : ∀ (e : Expr) (role : Role) {access : Access} {spot : Spot},
    role.access o = access → Fills o (e.roles role) (e.acts o access spot)
  | .absent _, _, _, _, _ => .nil
  | .node info x y args inits body result, role, _, spot, rfl => by
    by_cases ident : info.kind = .ident
    · simp only [Expr.acts, ident]
      exact .name ident spot false
    rw [Expr.roles, Expr.acts]
    refine .node ident ?_
    cases kind : info.kind with
    | ident => exact absurd kind ident
    | lit | closure => exact .nil
    | field | unary => exact expr_roles_used o x _ (by simp only [Role.access, kind])
    | index =>
      exact (expr_roles_used o x _ (by simp only [Role.access, kind])).swap
        (expr_roles_used o y (.second info x) rfl)
    | call => exact (exprs_roles_used o args info (fun i => by simp only [Role.access, kind]) 0).right
    | methodCall =>
      exact (expr_roles_used o x _ (by simp only [Role.access, kind])).append
        (exprs_roles_used o args info (fun i => by simp only [Role.access, kind]) 0)
    | binary | range =>
      exact (expr_roles_used o x _ (by simp only [Role.access, kind])).append
        (expr_roles_used o y (.second info x) rfl)
    | structLit => exact inits_roles_used o inits
    | arrayLit => exact exprs_roles_used o args info (fun i => by simp only [Role.access, kind]) 0
theorem exprs_roles_used (o : Outlook) : ∀ (es : List Expr) (info : ExprInfo) {access : Nat → Access},
    (∀ i, (Role.argument info i).access o = access i) → ∀ (i : Nat) {spot : Spot},
      Fills o (Expr.rolesAll es info i) (Expr.actsAll o es access i spot)
  | [], _, _, _, _, _ => .nil
  | e :: es, info, _, same, i, _ =>
    (expr_roles_used o e _ (same i)).append (exprs_roles_used o es info same (i + 1))
theorem inits_roles_used (o : Outlook) : ∀ (is : List FieldInit) {spot : Spot},
    Fills o (FieldInit.rolesAll is) (FieldInit.actsAll o is spot)
  | [], _ => .nil
  | .mk _ _ value :: is, _ => (expr_roles_used o value .init rfl).append (inits_roles_used o is)
theorem stmt_roles_used (o : Outlook) : ∀ s : Stmt, Fills o s.roles (s.acts o)
  | .absent _ => .nil
  | .node info target value body orElse => by
    have valued : ∀ {access : Access} {spot : Spot}, (Role.value info target).access o = access →
        Fills o (value.roles (.value info target)) (value.acts o access spot) :=
      fun same => expr_roles_used o value _ same
    have inner := stmts_roles_used o body
    rw [Stmt.roles, Stmt.acts]
    cases kind : info.kind with
    | letVar =>
      dsimp only
      split
      · exact .nil
      · apply Fills.left
        -- a closure has no parts outside of itself, and every other value is moved
        by_cases closure : value.isKind .closure = true
        · cases value with
          | absent => exact .nil
          | node v =>
            have lambda : v.kind = .closure := by simpa [Expr.isKind, Expr.info?] using closure
            rw [Expr.roles, lambda]
            exact .node (by simp [lambda]) .nil
        · apply valued
          simp only [Role.access, kind, Outlook.letAccess, closure, Bool.false_and,
            Bool.false_eq_true, if_false]
    | assign =>
      cases target with
      | absent => exact valued (by simp [Role.access, kind, Expr.info?])
      | node t x y args inits inside result =>
        have aim := @expr_roles_used o (.node t x y args inits inside result) .target .mutate
          { stmt := info.span } rfl
        simp only [Expr.info?]
        split
        · rename_i compound
          exact aim.swap (valued (by simp [Role.access, kind, compound]))
        · rename_i plain
          rw [Decidable.not_not] at plain
          split
          · rename_i whole
            refine Fills.swap (.name whole _ true) (valued ?_)
            simp [Role.access, kind, plain, Expr.info?, Expr.isKind, whole]
          · rename_i part
            refine aim.swap (valued ?_)
            simp [Role.access, kind, plain, Expr.info?, Expr.isKind, part]
    | eval => exact valued (by simp only [Role.access, kind])
    | give =>
      dsimp only
      split
      · exact .nil
      · exact valued (by simp only [Role.access, kind])
    | branch =>
      exact ((valued (by simp only [Role.access, kind])).append inner).append (stmt_roles_used o orElse)
    | whileLoop =>
      have test := @valued .read { stmt := info.span } (by simp only [Role.access, kind])
      exact (test.append inner).inside (by rw [Act.outerUses])
    | forLoop =>
      exact (valued (by simp only [Role.access, kind])).append (inner.inside (by rw [Act.outerUses]))
    | leave | again => exact .nil
    | block => exact inner
theorem stmts_roles_used (o : Outlook) : ∀ ss : List Stmt, Fills o (Stmt.rolesAll ss) (Stmt.actsAll o ss)
  | [] => .nil
  | s :: ss => (stmt_roles_used o s).append (stmts_roles_used o ss)
end

namespace Thread

def events (t : Thread) : List Event := (t.usage.map (·.events)).getD []

structure Extends (t k : Thread) : Prop where
  here : t.isLocal = true → k.isLocal = true
  kept : t.events ⊆ k.events

theorem Extends.refl (t : Thread) : t.Extends t := ⟨id, fun _ => id⟩

theorem Extends.trans {t k j : Thread} (first : t.Extends k) (second : k.Extends j) : t.Extends j :=
  ⟨second.here ∘ first.here, List.Subset.trans first.kept second.kept⟩

theorem note_extends (t : Thread) (e : Event) (access : Access) : t.Extends (t.note e access) := by
  unfold note
  split
  · rename_i here
    refine ⟨fun _ => here, ?_⟩
    intro d member
    cases known : t.usage with
    | none => rw [events, known] at member; cases member
    | some u =>
      rw [events, known] at member
      exact List.mem_append_left _ member
  · rename_i away
    exact ⟨fun here => absurd here away, fun _ => id⟩

theorem declareIn_extends (t : Thread) (depth b : Nat) (bs : List Nat) :
    t.Extends (t.declareIn depth b bs) := by
  unfold declareIn
  split
  · refine ⟨fun _ => rfl, ?_⟩
    intro d member
    cases known : t.usage with
    | none => rw [events, known] at member; cases member
    | some u =>
      rw [events, known] at member
      rw [events, declare, known]
      exact member
  · exact .refl t

theorem leave_extends {t inner : Thread} (kept : t.events ⊆ inner.events) (depth expr : Nat)
    (escapes : Bool) (spot : Spot) : t.Extends (t.leave inner depth expr escapes spot) := by
  have back : t.Extends { t with usage := inner.usage } := ⟨id, kept⟩
  unfold leave
  split
  · exact back
  · exact back.trans (note_extends _ _ _)

end Thread

theorem followAll_extends (b : Nat) (as : List Act) (loops : List Nat) (t : Thread) :
    t.Extends (Act.followAll b loops as t) := by
  induction as using acts_induction generalizing loops t <;>
    simp only [Act.followAll, Act.follow] at *
  case nil => exact .refl t
  case cons a as first rest => exact (first loops t).trans (rest loops _)
  case declare c => exact t.declareIn_extends _ b [c]
  case use u =>
    split
    · exact t.note_extends _ _
    · exact .refl t
  case loop stmt acts inner => exact inner _ t
  case each site acts inner => exact (t.declareIn_extends _ b _).trans (inner _ _)
  case closure expr escapes params spot acts inner =>
    apply Thread.leave_extends
    have opened := ({ usage := t.usage, isLocal := false } : Thread).declareIn_extends
      loops.length b params
    exact (opened.trans (inner loops _)).kept

structure Event.Of (e : Event) (u : Use) : Prop where
  expr : e.expr = u.expr
  kind : e.kind = EventKind.ofAccess u.access

theorem followAll_outer {as : List Act} {u : Use} (member : u ∈ Act.outerUsesAll as) (loops : List Nat)
    {t : Thread} (here : t.isLocal = true) :
    ∃ e ∈ (Act.followAll u.binding loops as t).events, e.Of u := by
  have one := fun a => followAll_extends u.binding [a]
  induction as using acts_induction generalizing loops t <;>
    simp only [Act.outerUsesAll, Act.outerUses, Act.followAll, Act.follow, List.append_nil] at *
  case nil | declare | closure => cases member
  case cons a as rest first =>
    rcases List.mem_append.mp member with now | later
    · obtain ⟨e, recorded, told⟩ := first now loops here
      exact ⟨e, (followAll_extends _ as loops _).kept recorded, told⟩
    · exact rest later loops ((one a loops t).here here)
  case use w =>
    obtain rfl := List.mem_singleton.mp member
    rw [if_pos rfl, Thread.note, if_pos here]
    exact ⟨u.event loops.length, List.mem_append_right _ List.mem_cons_self, rfl, rfl⟩
  case loop stmt acts inner => exact inner member _ here
  case each site acts inner => exact inner member _ ((t.declareIn_extends _ _ _).here here)

theorem collect_outer (f : FuncDecl) (table : Signatures) {u : Use}
    (member : u ∈ Act.outerUsesAll (f.acts (f.outlook table))) :
    ∃ e ∈ (f.collect table).events u.binding, e.Of u := by
  obtain ⟨e, recorded, told⟩ := followAll_outer member [] (t := {}) rfl
  rw [Thread.events, ← FuncDecl.collect_thread f table u.binding, Option.map_map] at recorded
  rw [Collection.events]
  cases found : (f.collect table).usage? u.binding with
  | none => rw [found] at recorded; cases recorded
  | some usage =>
    rw [found] at recorded
    obtain ⟨d, there, rfl⟩ := List.mem_map.mp recorded
    exact ⟨d, there, told.expr, told.kind⟩

theorem role_recorded (f : FuncDecl) (table : Signatures) {e : Expr}
    (there : (e, role) ∈ Stmt.rolesAll f.body) {name : ExprInfo} (names : e.Names name) :
    ∃ d ∈ (f.collect table).events name.binding, d.expr = name.id ∧
      d.kind = EventKind.ofAccess (role.access (f.outlook table)) := by
  have used : Act.Uses (f.acts (f.outlook table)) name (role.access (f.outlook table)) := by
    rw [FuncDecl.acts]
    exact Fills.right (stmts_roles_used (f.outlook table) f.body) _ there name names
  obtain ⟨u, member, binding, expr, access⟩ := used
  obtain ⟨d, recorded, told⟩ := collect_outer f table member
  rw [binding] at recorded
  exact ⟨d, recorded, told.expr.trans expr, by rw [told.kind, access]⟩

theorem role_shown {a : Analysis} {f : FuncDecl} (there : f ∈ Layout.written a.module)
    (member : p ∈ Stmt.rolesAll f.body) : ShownAs (Rendering.of a f) (Backend.whole a) p := by
  obtain ⟨depth, block⟩ := body_shown there
  obtain ⟨s, inside, member⟩ := List.mem_flatMap.mp (roles_stmts.flatMap f.body ▸ member)
  have shown := (roles_shown (Rendering.of a f)).onStmt s (depth + 1) p member
  have there := Stmt.there_of_roles member
  exact shown.within (block.trans (blockDoc_shows (line_written inside there)))

/-- Text and uses agree about names outside of closures, in every module and after any number of rounds.
A name stands in the file at the place of its role. Where its value is given away it is recorded as
given away, apart from the roles that only lend the value, where it is recorded as read. Where it is
lent to be modified it is recorded as modified. -/
theorem places_agree_with_uses (m : Module) (limit : Int) {f : FuncDecl} (there : f ∈ Layout.written m)
    {e : Expr} {role : Role} (member : (e, role) ∈ Stmt.rolesAll f.body) {name : ExprInfo}
    (names : e.Names name) :
    let a := Analysis.of m limit
    let g := Rendering.of a f
    f.analyze m a.table ∈ a.funcs ∧
      (∃ depth stmt, (Backend.whole a).Shows (e.render g depth stmt (role.place g))) ∧
      (role.place g = .value → ∃ d ∈ (f.collect a.table).events name.binding, d.expr = name.id ∧
        if role.isLent a.table then d.kind = .read else d.kind = .move ∨ d.kind = .store) ∧
      (role.place g = .exclusive → ∃ d ∈ (f.collect a.table).events name.binding,
        d.expr = name.id ∧ d.kind = .mutate) := by
  intro a g
  have known : g.table.Known := Signatures.analysis_known m limit
  have same : (f.outlook a.table).table = g.table := rfl
  obtain ⟨d, recorded, expr, kind⟩ := role_recorded f a.table member names
  refine ⟨?_, role_shown (a := a) there member, ?_, ?_⟩
  · rw [analysis_funcs]
    exact List.mem_map_of_mem there
  · intro value
    refine ⟨d, recorded, expr, ?_⟩
    have given := value_transfers same known value
    split
    · rename_i lent
      rw [kind, lent_reads same lent]
      rfl
    · rename_i kept
      rw [kind]
      rw [Bool.not_eq_true] at kept
      rw [show role.isLent g.table = false from kept] at given
      revert given
      cases role.access (f.outlook a.table) with
      | read => exact fun h => by cases h
      | mutate => exact fun h => by cases h
      | move => exact fun _ => .inl rfl
      | store => exact fun _ => .inr rfl
  · intro exclusive
    refine ⟨d, recorded, expr, ?_⟩
    rw [kind, exclusive_mutates same exclusive]
    rfl

namespace Sample

def handing : ExprInfo := { Sketch.blank .call .string with id := 2, name := "keep", target := "keep" }

def pass : FuncDecl :=
  unary 1 "pass" 1 [plain .eval (.node handing (.absent 0) (.absent 0) [leaf "given" 1] [] (.absent 0)
    (.absent 0))]

end Sample

theorem relayed_places_agree :
    Sample.pass ∈ Layout.written Sample.relayed ∧
      (Role.argument Sample.handing 0).place
        (Rendering.of (Analysis.of Sample.relayed) Sample.pass) = .value ∧
      ∃ d ∈ (Sample.pass.collect (Analysis.of Sample.relayed).table).events 1,
        d.expr = 0 ∧ (d.kind = .move ∨ d.kind = .store) := by
  have there : Sample.pass ∈ Layout.written Sample.relayed := List.mem_of_getElem? (i := 0) rfl
  have member : (Sample.leaf "given" 1, Role.argument Sample.handing 0) ∈
      Stmt.rolesAll Sample.pass.body := List.mem_of_getElem? (i := 1) rfl
  have place : (Role.argument Sample.handing 0).place
      (Rendering.of (Analysis.of Sample.relayed) Sample.pass) = .value := by decide +kernel
  have lent : (Role.argument Sample.handing 0).isLent (Analysis.of Sample.relayed).table = false := by
    decide +kernel
  obtain ⟨-, -, given, -⟩ := places_agree_with_uses Sample.relayed 0 there member
    ⟨rfl, rfl, by decide⟩
  obtain ⟨d, recorded, expr, kind⟩ := given place
  rw [if_neg (by rw [lent]; decide)] at kind
  exact ⟨there, place, d, recorded, expr, kind⟩

namespace Sample

def describing : ExprInfo := { Sketch.blank .methodCall .string with id := 4, name := "describe" }

def describe : FuncDecl :=
  { id := 1, name := "f", receiver := 0, owner := "", params := [1], result := .unit
    body := [
      stmt 1 .letVar 2 (.node { Sketch.blank .lit .string with id := 1, lit := "x", litKind := .string }
        (.absent 0) (.absent 0) [] [] (.absent 0) (.absent 0)),
      stmt 2 .eval 0 (.node describing (name 2 1) (.absent 0) [name 3 2] [] (.absent 0) (.absent 0))]
    isExtern := false, span := Range.zero }

def described : Module :=
  { name := "described", path := "described.kl", file := 0, structs := [], funcs := [describe]
    exprs := #[], stmts := #[]
    bindings := #[
      ⟨1, "subject", .param, .string, false, .none, 0, Range.zero⟩,
      ⟨2, "detail", .local_, .string, false, .none, 0, Range.zero⟩] }

end Sample

/-- The text gives the argument of an unknown method away, and the only use that is recorded reads it. -/
theorem unknown_method_reads_given :
    (Analysis.of Sample.described).converged = true ∧
      (Sample.described.binding? 2).map (·.ty.isCopy) = some false ∧
      (Sample.name 3 2, Role.argument Sample.describing 0) ∈ Stmt.rolesAll Sample.describe.body ∧
      (Role.argument Sample.describing 0).place
        (Rendering.of (Analysis.of Sample.described) Sample.describe) = .value ∧
      ((Sample.describe.collect (Analysis.of Sample.described).table).events 2).map
        (fun d => (d.expr, d.kind)) = [(3, .read)] := by
  refine ⟨?_, ?_, List.mem_of_getElem? (i := 3) rfl, ?_, ?_⟩
  · decide +kernel
  · decide
  · decide +kernel
  · decide +kernel

end Tenure
