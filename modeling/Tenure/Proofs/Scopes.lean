import Mathlib.Data.List.Nodup
import Tenure.Proofs.Courses
import Tenure.Proofs.Trees

/- Scopes. A body is well scoped when every binding is declared once and every use stands in the scope
   of its declaration: a parameter is in view in the body, a variable behind its declaration to the end
   of the statements it stands in, a loop variable in the body of the loop. -/
namespace Tenure

def inView (vis : List Nat) (b : Nat) : Bool := b == 0 || vis.contains b

def Stmt.opens : Stmt → List Nat
  | .absent _ => []
  | .node info .. => if info.kind = .letVar then [info.binding] else []

mutual
def Expr.isScoped (vis : List Nat) : Expr → Bool
  | .absent _ => true
  | .node info x y args inits body result => match info.kind with
    | .ident => inView vis info.binding
    | .lit => true
    | .field | .unary => x.isScoped vis
    | .index | .binary | .range => x.isScoped vis && y.isScoped vis
    | .call => inView vis info.binding && Expr.areScoped vis args
    | .methodCall => x.isScoped vis && Expr.areScoped vis args
    | .structLit => FieldInit.areScoped vis inits
    | .arrayLit => Expr.areScoped vis args
    | .closure => result.isScoped (info.params ++ vis) && body.isScoped (info.params ++ vis)
def Expr.areScoped (vis : List Nat) : List Expr → Bool
  | [] => true
  | e :: es => e.isScoped vis && Expr.areScoped vis es
def FieldInit.areScoped (vis : List Nat) : List FieldInit → Bool
  | [] => true
  | .mk _ _ value :: is => value.isScoped vis && FieldInit.areScoped vis is
def Stmt.isScoped (vis : List Nat) : Stmt → Bool
  | .absent _ => true
  | .node info target value body orElse => match info.kind with
    | .letVar | .eval | .give => value.isScoped vis
    | .assign => value.isScoped vis && target.isScoped vis
    | .branch => value.isScoped vis && Stmt.areScoped vis body && orElse.isScoped vis
    | .whileLoop => value.isScoped vis && Stmt.areScoped vis body
    | .forLoop => value.isScoped vis && Stmt.areScoped (info.binding :: vis) body
    | .block => Stmt.areScoped vis body
    | .leave | .again => true
def Stmt.areScoped (vis : List Nat) : List Stmt → Bool
  | [] => true
  | s :: ss => s.isScoped vis && Stmt.areScoped (s.opens ++ vis) ss
end

namespace FuncDecl

def binds (f : FuncDecl) : List Nat := f.inputs ++ Stmt.bindsAll f.body

/-- Every binding is declared once, and used only in the scope that its declaration opens. -/
def isScoped (f : FuncDecl) : Bool :=
  decide f.binds.Nodup && Stmt.areScoped (f.receiver :: f.params) f.body

end FuncDecl

mutual
def Act.declared : Act → List Nat
  | .declare b => [b]
  | .use _ => []
  | .loop _ acts => Act.declaredAll acts
  | .each site acts => bindingsOf [site.var] ++ Act.declaredAll acts
  | .closure _ _ params _ acts => params ++ Act.declaredAll acts
def Act.declaredAll : List Act → List Nat
  | [] => []
  | a :: as => a.declared ++ Act.declaredAll as
end

def Act.opens : Act → List Nat
  | .declare b => [b]
  | _ => []

mutual
/-- Every use stands in view of the declaration, and what runs over it is declared later. `seen` are
the bindings declared so far. -/
def Act.Scoped (view seen : List Nat) : Act → Prop
  | .declare _ => True
  | .use u => u.binding ∈ view ∧ (u.spot.loopVar = 0 ∨ u.spot.loopVar ∉ seen)
  | .loop _ acts => Act.AllScoped view seen acts
  | .each site acts =>
    Act.AllScoped (view ++ bindingsOf [site.var]) (seen ++ bindingsOf [site.var]) acts
  | .closure _ _ params _ acts => Act.AllScoped (view ++ params) (seen ++ params) acts
def Act.AllScoped (view seen : List Nat) : List Act → Prop
  | [] => True
  | a :: as => a.Scoped view seen ∧ Act.AllScoped (view ++ a.opens) (seen ++ a.declared) as
end

theorem declared_acts : Gathers Act.declaredAll Act.declared := ⟨rfl, fun _ _ => rfl⟩

theorem declaredAll_declares (bs : List Nat) : Act.declaredAll (bs.map .declare) = bs := by
  simp [declared_acts.flatMap, List.flatMap_map, Act.declared]

theorem declared_use (u : Use) : Act.declaredAll u.acts = [] := by
  unfold Use.acts
  split <;> rfl

theorem Course.declared {o : Outlook} {w : Nat} {vs : List Node} {ns : List Nat}
    {os : List (Nat × Nat)} {as bs : List Act} (h : Course Eq o o w vs ns os as bs) :
    Act.declaredAll as = ns := by
  induction h with
  | nil | expr | stmt => rfl
  | append _ _ first second => rw [declared_acts.append, first, second]
  | use => exact declared_use _
  | closure _ _ _ inner | loop _ inner => rw [declared_acts.single, Act.declared, inner]
  | named _ _ inner => rw [declared_acts.append, inner rfl, declaredAll_declares]
  | each _ _ _ source inner => rw [declared_acts.append, source, declared_acts.single, Act.declared, inner]

theorem stmt_declared (o : Outlook) (s : Stmt) : Act.declaredAll (s.acts o) = s.binds :=
  (@stmt_course Eq o o o.agree_self s 0).declared

theorem stmts_declared (o : Outlook) (ss : List Stmt) :
    Act.declaredAll (Stmt.actsAll o ss) = Stmt.bindsAll ss :=
  (@stmts_course Eq o o o.agree_self ss 0).declared

theorem FuncDecl.acts_declared (f : FuncDecl) (o : Outlook) :
    Act.declaredAll (f.acts o) = f.binds := by
  rw [acts, binds, declared_acts.append, declaredAll_declares, stmts_declared]

section Scoped

variable {vis view seen : List Nat} {as bs : List Act}

theorem allScoped_append :
    Act.AllScoped view seen (as ++ bs) ↔
      Act.AllScoped view seen as ∧
        Act.AllScoped (view ++ as.flatMap Act.opens) (seen ++ Act.declaredAll as) bs := by
  induction as generalizing view seen with
  | nil => simp [Act.AllScoped, Act.declaredAll]
  | cons a as ih =>
    rw [List.cons_append, Act.AllScoped, Act.AllScoped, ih, List.flatMap_cons, Act.declaredAll,
      List.append_assoc, List.append_assoc, and_assoc]

def Covers (vis view : List Nat) : Prop := ∀ b ∈ vis, b ≠ 0 → b ∈ view

theorem Covers.more (h : Covers vis view) (more : List Nat) : Covers vis (view ++ more) :=
  fun b member known => List.mem_append_left more (h b member known)

theorem Covers.both (h : Covers vis view) (bs : List Nat) :
    Covers (bs ++ vis) (view ++ bindingsOf bs) := by
  intro b member known
  rcases List.mem_append.mp member with new | old
  · exact List.mem_append_right _ (List.mem_filter.mpr ⟨new, by simpa using known⟩)
  · exact List.mem_append_left _ (h b old known)

/-- What is declared here is new, and what runs over the value is declared neither before nor here. -/
structure Room (seen : List Nat) (spot : Spot) (binds : List Nat) : Prop where
  distinct : (seen ++ binds).Nodup
  ahead : spot.loopVar = 0 ∨ spot.loopVar ∉ seen ++ binds

theorem Room.split {spot : Spot} {xs ys : List Nat} (h : Room seen spot (xs ++ ys)) :
    Room seen spot xs ∧ Room (seen ++ xs) spot ys := by
  have whole : seen ++ (xs ++ ys) = seen ++ xs ++ ys := (List.append_assoc ..).symm
  obtain ⟨distinct, ahead⟩ := h
  rw [whole] at distinct ahead
  refine ⟨⟨List.Nodup.of_append_left distinct, ?_⟩, distinct, ahead⟩
  exact ahead.imp id fun out member => out (List.mem_append_left ys member)

/-- The acts declare these bindings, and they stay in scope where the bindings `vis` are in view and there
is room for them. -/
structure Fits (vis : List Nat) (spot : Spot) (ns : List Nat) (as : List Act) : Prop where
  declared : Act.declaredAll as = ns
  stays : ∀ {view seen : List Nat}, Covers vis view → Room seen spot ns → Act.AllScoped view seen as

variable {spot free : Spot} {ns ms : List Nat}

theorem Fits.nil : Fits vis spot [] [] where
  declared := by rw [Act.declaredAll]
  stays _ _ := by
    rw [Act.AllScoped]
    trivial

theorem Fits.append (h : Fits vis spot ns as) (k : Fits vis spot ms bs) :
    Fits vis spot (ns ++ ms) (as ++ bs) where
  declared := by rw [declared_acts.append, h.declared, k.declared]
  stays covers room := by
    obtain ⟨first, second⟩ := room.split
    rw [allScoped_append, h.declared]
    exact ⟨h.stays covers first, k.stays (covers.more _) second⟩

theorem Fits.anywhere (h : Fits vis free ns as) (none : free.loopVar = 0) : Fits vis spot ns as where
  declared := h.declared
  stays covers room := h.stays covers ⟨room.distinct, .inl none⟩

theorem Fits.use (u : Use) (known : inView vis u.binding = true) : Fits vis u.spot [] u.acts where
  declared := declared_use u
  stays covers room := by
    have ahead := room.ahead
    rw [List.append_nil] at ahead
    unfold Use.acts
    split
    · rw [Act.AllScoped]
      trivial
    · rename_i resolved
      have member : u.binding ∈ vis := by simpa [inView, resolved] using known
      rw [Act.AllScoped, Act.AllScoped, Act.Scoped]
      exact ⟨⟨covers _ member resolved, ahead⟩, trivial⟩

theorem Fits.closure {expr : Nat} {escapes : Bool} {params : List Nat}
    (h : Fits (params ++ vis) spot.inClosure ns as) :
    Fits vis free (bindingsOf params ++ ns) [.closure expr escapes (bindingsOf params) spot as] where
  declared := by rw [Act.declaredAll, Act.declaredAll, Act.declared, h.declared, List.append_nil]
  stays covers room := by
    rw [Act.AllScoped, Act.AllScoped, Act.Scoped]
    exact ⟨h.stays (covers.both params) ⟨room.split.2.distinct, .inl rfl⟩, trivial⟩

theorem Fits.loop {stmt : Nat} (h : Fits vis spot ns as) : Fits vis spot ns [.loop stmt as] where
  declared := by rw [Act.declaredAll, Act.declaredAll, Act.declared, h.declared, List.append_nil]
  stays covers room := by
    rw [Act.AllScoped, Act.AllScoped, Act.Scoped]
    exact ⟨h.stays covers room, trivial⟩

theorem Fits.each (site : LoopSite) (source : Fits vis free ns as)
    (mark : free.loopVar = site.var ∨ free.loopVar = 0) (h : Fits (site.var :: vis) spot ms bs) :
    Fits vis spot (ns ++ (bindingsOf [site.var] ++ ms)) (as ++ [.each site bs]) where
  declared := by
    rw [declared_acts.append, source.declared, Act.declaredAll, Act.declaredAll, Act.declared, h.declared,
      List.append_nil]
  stays := by
    intro view seen covers room
    obtain ⟨first, second⟩ := room.split
    have ahead : free.loopVar = 0 ∨ free.loopVar ∉ seen ++ ns := by
      by_cases zero : free.loopVar = 0
      · exact .inl zero
      · refine .inr fun member => ?_
        have var := mark.resolve_right zero
        refine (List.nodup_append.mp second.distinct).2.2 _ member free.loopVar ?_ rfl
        exact List.mem_append_left _ (List.mem_filter.mpr ⟨by simp [var], by simpa using zero⟩)
    rw [allScoped_append, source.declared, Act.AllScoped, Act.AllScoped, Act.Scoped]
    exact ⟨source.stays covers ⟨first.distinct, ahead⟩,
      h.stays ((covers.more _).both [site.var]) second.split.2, trivial⟩

theorem declares_scoped (bs : List Nat) : Act.AllScoped view seen (bs.map .declare) := by
  induction bs generalizing view seen with
  | nil =>
    rw [List.map_nil, Act.AllScoped]
    trivial
  | cons b bs ih =>
    rw [List.map_cons, Act.AllScoped, Act.Scoped]
    exact ⟨trivial, ih⟩

theorem declares_open (bs : List Nat) : (bs.map Act.declare).flatMap Act.opens = bs := by
  rw [List.flatMap_map]
  exact List.flatMap_singleton' bs

theorem opens_covered (o : Outlook) (s : Stmt) (covers : Covers vis view) :
    Covers (s.opens ++ vis) (view ++ (s.acts o).flatMap Act.opens) := by
  cases s with
  | absent id => exact covers.more _
  | node info target value body orElse =>
    by_cases named : info.kind = .letVar
    · simp only [Stmt.opens, Stmt.acts, named, if_true, List.flatMap_append, declares_open]
      rw [← List.append_assoc]
      exact (covers.more _).both _
    · simp only [Stmt.opens, if_neg named, List.nil_append]
      exact covers.more _

end Scoped

mutual
theorem expr_scoped (o : Outlook) : ∀ (e : Expr) (access : Access) {spot : Spot} {vis : List Nat},
    e.isScoped vis = true → Fits vis spot e.binds (e.acts o access spot)
  | .absent _, _, _, _, _ => .nil
  | .node info x y args inits body result, _, _, vis, within => by
    rw [Expr.isScoped] at within
    rw [Expr.binds, Expr.acts]
    cases kind : info.kind <;> simp only [kind, Bool.and_eq_true] at within
    case ident => exact .use (info.use _ _) within
    case lit => exact .nil
    case field | unary => exact expr_scoped o x _ within
    case index =>
      exact ((expr_scoped o y _ within.2).anywhere rfl).append (expr_scoped o x _ within.1)
    case call =>
      exact Fits.append (.use (info.use _ _) within.1) (exprs_scoped o args _ 0 within.2)
    case methodCall =>
      exact (expr_scoped o x _ within.1).append (exprs_scoped o args _ 0 within.2)
    case binary | range => exact (expr_scoped o x _ within.1).append (expr_scoped o y _ within.2)
    case structLit => exact inits_scoped o inits within
    case arrayLit => exact exprs_scoped o args _ 0 within
    case closure =>
      exact .closure ((expr_scoped o result _ within.1).append (stmt_scoped o body within.2))
theorem exprs_scoped (o : Outlook) : ∀ (es : List Expr) (access : Nat → Access) (i : Nat) {spot : Spot}
    {vis : List Nat}, Expr.areScoped vis es = true →
      Fits vis spot (Expr.bindsAll es) (Expr.actsAll o es access i spot)
  | [], _, _, _, _, _ => .nil
  | e :: es, access, i, _, _, within => by
    rw [Expr.areScoped, Bool.and_eq_true] at within
    exact (expr_scoped o e _ within.1).append (exprs_scoped o es access (i + 1) within.2)
theorem inits_scoped (o : Outlook) : ∀ (is : List FieldInit) {spot : Spot} {vis : List Nat},
    FieldInit.areScoped vis is = true → Fits vis spot (FieldInit.bindsAll is) (FieldInit.actsAll o is spot)
  | [], _, _, _ => .nil
  | .mk _ _ value :: is, _, _, within => by
    rw [FieldInit.areScoped, Bool.and_eq_true] at within
    exact (expr_scoped o value _ within.1).append (inits_scoped o is within.2)
theorem stmt_scoped (o : Outlook) : ∀ (s : Stmt) {spot : Spot} {vis : List Nat}, s.isScoped vis = true →
    Fits vis spot s.binds (s.acts o)
  | .absent _, _, _, _ => .nil
  | .node info target value body orElse, spot, vis, within => by
    have valued : ∀ (access : Access) {free : Spot}, value.isScoped vis = true → free.loopVar = 0 →
        Fits vis spot value.binds (value.acts o access free) :=
      fun access _ within none => (expr_scoped o value access within).anywhere none
    rw [Stmt.isScoped] at within
    rw [Stmt.binds, Stmt.acts]
    cases kind : info.kind <;> simp only [kind, Bool.and_eq_true] at within
    case letVar =>
      exact (valued _ within rfl).append ⟨declaredAll_declares _, fun _ _ => declares_scoped _⟩
    case assign =>
      have aim : Fits vis spot target.binds (target.acts o .mutate { stmt := info.span }) :=
        (expr_scoped o target .mutate within.2).anywhere rfl
      cases target with
      | absent id =>
        simp only [Expr.info?, Expr.binds, List.append_nil]
        exact valued .read within.1 rfl
      | node t x y args inits inner result =>
        simp only [Expr.info?]
        split
        · exact (valued .read within.1 rfl).append aim
        · split
          · rename_i whole
            simp only [Expr.isScoped, Expr.binds, whole] at within ⊢
            exact (valued .move within.1 rfl).append
              (Fits.anywhere (.use { t.use _ _ with reinit := true } within.2) rfl)
          · exact (valued .store within.1 rfl).append aim
    case eval | give => exact valued _ within rfl
    case branch =>
      exact ((valued .read within.1.1 rfl).append (stmts_scoped o body within.1.2)).append
        (stmt_scoped o orElse within.2)
    case whileLoop => exact .loop ((valued .read within.1 rfl).append (stmts_scoped o body within.2))
    case forLoop =>
      refine .each ⟨info.id, info.binding, value⟩ (expr_scoped o value _ within.1) ?_
        (stmts_scoped o body within.2)
      dsimp only
      split
      · exact .inl rfl
      · exact .inr rfl
    case block => exact stmts_scoped o body within
    case leave | again => exact .nil
theorem stmts_scoped (o : Outlook) : ∀ (ss : List Stmt) {spot : Spot} {vis : List Nat},
    Stmt.areScoped vis ss = true → Fits vis spot (Stmt.bindsAll ss) (Stmt.actsAll o ss)
  | [], _, _, _ => .nil
  | s :: ss, spot, vis, within => by
    rw [Stmt.areScoped, Bool.and_eq_true] at within
    have first : Fits vis spot s.binds (s.acts o) := stmt_scoped o s within.1
    have rest : Fits (s.opens ++ vis) spot (Stmt.bindsAll ss) (Stmt.actsAll o ss) :=
      stmts_scoped o ss within.2
    rw [Stmt.bindsAll, Stmt.actsAll]
    refine ⟨by rw [declared_acts.append, first.declared, rest.declared], fun covers room => ?_⟩
    rw [allScoped_append, first.declared]
    exact ⟨first.stays covers room.split.1, rest.stays (opens_covered o s covers) room.split.2⟩
end

theorem FuncDecl.acts_scoped {f : FuncDecl} (h : f.isScoped = true) (o : Outlook) :
    Act.AllScoped [] [] (f.acts o) := by
  rw [isScoped, Bool.and_eq_true, decide_eq_true_eq] at h
  rw [acts, allScoped_append, declares_open, declaredAll_declares]
  refine ⟨declares_scoped f.inputs, ?_⟩
  have covers : Covers ((f.receiver :: f.params) ++ []) ([] ++ f.inputs) :=
    Covers.both (fun _ member => absurd member List.not_mem_nil) _
  rw [List.append_nil] at covers
  have body : Fits (f.receiver :: f.params) { stmt := f.span } _ _ := stmts_scoped o f.body h.2
  exact body.stays covers ⟨h.1, .inl rfl⟩

theorem FuncDecl.binds_distinct {f : FuncDecl} (h : f.isScoped = true) : f.binds.Nodup := by
  rw [isScoped, Bool.and_eq_true, decide_eq_true_eq] at h
  exact h.1

end Tenure
