import Tenure.Proofs.Findings
import Tenure.Proofs.Introductions
import Tenure.Proofs.Iterables
import Tenure.Proofs.Tables

/- Modified bindings in the text. A binding that is modified is taken by value or by exclusive
   reference, and in the head of a function, by `let` and by loops it is introduced as mutable. The
   parameters of closures are not: there the text has names only. -/
namespace Tenure

open Backend (whole)

abbrev Mode.Strong (a : Mode) : Prop := a = .exclusive ∨ a = .owned

theorem Mode.Strong.join {a : Mode} (strong : a.Strong) (b : Mode) : (b.join a).Strong := by
  rcases strong with rfl | rfl
  · cases b <;> decide
  · cases b <;> decide

theorem Mode.Strong.not_shared {a : Mode} (strong : a.Strong) : a ≠ .shared := by
  rcases strong with rfl | rfl <;> decide

section Settling

variable {m : Module} {c : Collection} {v : Verdict}

theorem settle_strong (bd : Binding) {u : Usage} (modified : (u.events.find? Event.isMutation).isSome) :
    (bd.settle u).mode.Strong ∨ (bd.settle u).findings ≠ [] := by
  obtain ⟨e, found⟩ := Option.isSome_iff_exists.mp modified
  unfold Binding.settle
  dsimp only
  split
  · exact .inr (by simp [found])
  · exact .inl (.inl rfl)
  · split
    · exact .inl (.inr rfl)
    · split
      · exact .inl (.inr rfl)
      · exact .inl (.inl rfl)

theorem settle_mutated (bd : Binding) (u : Usage) :
    (bd.settle u).mutated = (u.events.find? Event.isMutation).isSome := by
  unfold Binding.settle
  dsimp only
  split
  · rfl
  · rfl
  · split
    · rfl
    · split <;> rfl

namespace Collection

def usesOf (c : Collection) (b : Nat) : Usage := (c.usage? b).getD { binding := b }

def Modifies (c : Collection) (b : Nat) : Prop := ((c.usesOf b).events.find? Event.isMutation).isSome

theorem Modifies.used {b : Nat} (modified : c.Modifies b) : b ∈ c.usages.map (·.binding) := by
  unfold Modifies usesOf at modified
  cases found : c.usage? b with
  | none =>
    rw [found] at modified
    cases modified
  | some u =>
    have own := List.find?_some found
    exact List.mem_map.mpr ⟨u, List.mem_of_find?_eq_some found, by simpa using own⟩

theorem Modifies.retarget {b : Nat} (modified : c.Modifies b) (w : Nat) : (c.retarget w).Modifies b := by
  have shape : c.retarget w = c.mapEvents (Event.retarget w) := rfl
  unfold Modifies usesOf at modified ⊢
  rw [shape, usage_mapEvents]
  cases found : c.usage? b with
  | none => rw [found] at modified; cases modified
  | some u =>
    rw [found, Option.getD_some, List.find?_isSome] at modified
    obtain ⟨e, there, changes⟩ := modified
    rw [Option.map_some, Option.getD_some, List.find?_isSome]
    refine ⟨e.retarget w, List.mem_map_of_mem there, ?_⟩
    rcases retarget_cases w e with same | ⟨-, -, turned⟩
    · rw [same, changes]
    · rw [turned]
      rfl

end Collection

def Verdict.Upholds (m : Module) (c : Collection) (v : Verdict) : Prop :=
  ∀ b ∈ v.mutated, c.Modifies b ∧ (∃ bd, m.binding? b = some bd) ∧ ((v.mode b).Strong ∨ v.findings ≠ [])

theorem Verdict.Upholds.settle (holds : v.Upholds m c) (b : Nat) : (v.settle m c b).Upholds m c := by
  unfold Verdict.settle
  cases known : m.binding? b with
  | none => exact holds
  | some bd =>
    intro x member
    have old : x ∈ v.mutated ∨ x = b ∧ c.Modifies b := by
      dsimp only [Verdict.add] at member
      split at member
      · rename_i mutated
        rw [settle_mutated] at mutated
        rcases List.mem_cons.mp member with rfl | old
        · exact .inr ⟨rfl, mutated⟩
        · exact .inl old
      · exact .inl member
    have modified : c.Modifies x := by
      rcases old with old | ⟨rfl, modified⟩
      · exact (holds x old).1
      · exact modified
    by_cases same : x = b
    · subst same
      refine ⟨modified, ⟨bd, known⟩, ?_⟩
      rcases settle_strong bd modified with strong | found
      · left
        simpa [Verdict.mode, Verdict.add, lookup_setKey, Collection.usesOf] using strong
      · exact .inr fun none => found (List.append_eq_nil_iff.mp none).2
    · obtain ⟨-, bound, outcome⟩ := holds x (old.resolve_right fun new => same new.1)
      refine ⟨modified, bound, ?_⟩
      rcases outcome with strong | found
      · left
        simpa [Verdict.mode, Verdict.add, lookup_setKey, same] using strong
      · exact .inr fun none => found (List.append_eq_nil_iff.mp none).1

theorem Verdict.Upholds.retarget (holds : v.Upholds m c) (w : Nat) : v.Upholds m (c.retarget w) :=
  fun b member => ⟨(holds b member).1.retarget w, (holds b member).2⟩

theorem loops_bindings (m : Module) (c : Collection) :
    (c.looped m).1.usages.map (·.binding) = c.usages.map (·.binding) := by
  have keeps : SettlingKeeps m fun d _ => d.usages.map (·.binding) = c.usages.map (·.binding) := by
    refine ⟨fun same _ => same, fun same _ => same, fun same w => ?_⟩
    rw [← same, Collection.retarget, List.map_map]
    rfl
  exact keeps.looped rfl

theorem resolve_strong {b : Nat} (mutated : (c.resolve m).2.isMutated b = true)
    (clean : (c.resolve m).2.findings = []) :
    b ∈ c.usages.map (·.binding) ∧ (∃ bd, m.binding? b = some bd) ∧ ((c.resolve m).2.mode b).Strong := by
  obtain ⟨-, modes, -, findings⟩ := c.resolve_eq m
  have keeps : SettlingKeeps m fun c v => v.Upholds m c :=
    ⟨fun holds b => holds.settle b, fun holds _ => holds, fun holds w => holds.retarget w⟩
  have all := keeps.settled (c := c) fun b member => absurd member List.not_mem_nil
  have same : (c.resolve m).2.mutated = (c.settled m).mutated := by
    rw [Collection.settled, List.foldl_map]
    rfl
  rw [Verdict.isMutated, List.contains_iff_mem, same] at mutated
  obtain ⟨modified, bound, outcome⟩ := all b mutated
  refine ⟨loops_bindings m c ▸ modified.used, bound, ?_⟩
  rw [Verdict.mode, modes]
  refine outcome.resolve_right fun found => found ?_
  rw [clean] at findings
  exact (List.append_eq_nil_iff.mp findings.symm.eq_nil).1

end Settling

section Header

variable {m : Module} {limit : Int} {f : FuncDecl} {b : Nat}

theorem signature_stable (converged : (Analysis.of m limit).converged = true)
    (there : f ∈ Layout.written m) :
    ∃ sig, (Analysis.of m limit).table.lookup f.qualified = some sig ∧
      sig = Signatures.refined sig (f.analyze m (Analysis.of m limit).table) := by
  have member : f.analyze m (Analysis.of m limit).table ∈ (Analysis.of m limit).funcs := by
    rw [analysis_funcs]
    exact List.mem_map_of_mem there
  have same := (converged_iff m limit).mp converged _ member
  have found : (Analysis.of m limit).table.lookup f.qualified = some (Signatures.refined
      (((Analysis.of m limit).table.lookup f.qualified).getD { name := "" })
      (f.analyze m (Analysis.of m limit).table)) := by
    nth_rewrite 1 [← same]
    exact (Signatures.lookup_insert ..).trans (if_pos rfl)
  cases own : (Analysis.of m limit).table.lookup f.qualified with
  | none => rw [own] at found; cases found
  | some sig =>
    rw [own, Option.getD_some] at found
    exact ⟨sig, rfl, Option.some.inj found⟩

theorem header_cases {sig : Signature} {mode : Mode}
    (found : (Rendering.headerOf f (some sig)).lookup b = some mode) :
    (∃ (i : Nat) (bound : i < f.params.length), f.params[i] = b ∧ sig.param i = mode) ∨
      f.receiver ≠ 0 ∧ f.receiver = b ∧ sig.receiver = mode := by
  obtain ⟨front, back, shape, -⟩ := List.lookup_eq_some_iff.mp found
  have member : (b, mode) ∈ Rendering.headerOf f (some sig) := by rw [shape]; simp
  rcases List.mem_append.mp member with param | receiver
  · obtain ⟨i, bound, own⟩ := List.mem_mapIdx.mp (List.mem_reverse.mp param)
    exact .inl ⟨i, bound, Prod.mk.inj own⟩
  · split at receiver
    · cases receiver
    · rename_i has
      obtain ⟨rfl, rfl⟩ := Prod.mk.inj (List.mem_singleton.mp receiver)
      exact .inr ⟨has, rfl, rfl⟩

theorem header_strong {sig : Signature} {table : Signatures}
    (stable : sig = Signatures.refined sig (f.analyze m table))
    (strong : ((f.analyze m table).verdict.mode b).Strong) {mode : Mode}
    (found : (Rendering.headerOf f (some sig)).lookup b = some mode) : mode ≠ .shared := by
  rcases header_cases found with ⟨i, bound, rfl, rfl⟩ | ⟨-, rfl, rfl⟩
  · rw [stable, refined_param table bound]
    exact (strong.join _).not_shared
  · rw [stable, Signatures.refined]
    dsimp only
    split
    · exact (strong.join _).not_shared
    · decide

theorem mode_strong (filed : m.Filed) (converged : (Analysis.of m limit).converged = true)
    (there : f ∈ Layout.written m)
    (strong : ((f.analyze m (Analysis.of m limit).table).verdict.mode b).Strong) :
    (Rendering.of (Analysis.of m limit) f).mode b ≠ .shared := by
  obtain ⟨sig, found, stable⟩ := signature_stable converged there
  have header : (Rendering.of (Analysis.of m limit) f).header =
      Rendering.headerOf f ((Analysis.of m limit).table.get? f.qualified) := rfl
  rw [Rendering.mode, rendering_verdict filed there, header, Signatures.get?, found]
  cases listed : (Rendering.headerOf f (if f.qualified.isEmpty then none else some sig)).lookup b with
  | none => exact strong.not_shared
  | some mode =>
    split at listed
    · cases listed
    · exact header_strong stable strong listed

end Header

section Loops

variable {m : Module} {c : Collection}

theorem loops_adaptors_other {stmt : Nat} (ls : List LoopSite) (s : Collection × Verdict)
    (others : ∀ l ∈ ls, l.stmt ≠ stmt) :
    (ls.foldr (resolveLoop m) s).2.adaptors.lookup stmt = s.2.adaptors.lookup stmt := by
  induction ls with
  | nil => rfl
  | cons l ls ih =>
    rw [List.forall_mem_cons] at others
    rw [List.foldr_cons, resolveLoop]
    simp only [lookup_setKey, settle_adaptors, if_neg (Ne.symm others.1), ih others.2]

theorem adaptor_site {stmt : Nat} (has : (c.resolve m).2.adaptor stmt ≠ .none) :
    ∃ l ∈ c.loops, l.stmt = stmt := by
  by_contra missing
  push Not at missing
  rw [Verdict.adaptor, resolve_adaptors, Collection.looped, loops_adaptors_other c.loops _ missing] at has
  exact has rfl

theorem adaptor_by_mode {front back : List LoopSite} {site : LoopSite}
    (split : c.loops = front ++ site :: back)
    (others : ∀ l ∈ front, l.var ≠ site.var ∧ l.stmt ≠ site.stmt) {bd : Binding}
    (known : m.binding? site.var = some bd) :
    (c.resolve m).2.adaptor site.stmt = site.adaptor m ((c.resolve m).2.mode site.var) := by
  rw [resolve_loop_mode split (fun l there => (others l there).1) known, Verdict.adaptor,
    resolve_adaptors, Collection.looped, split, List.foldr_append,
    loops_adaptors_other front _ fun l there => (others l there).2, List.foldr_cons]
  simp only [resolveLoop, lookup_setKey, if_true, Option.getD_some]

end Loops

section Introduced

variable {m : Module} {f : FuncDecl} {b : Nat}

theorem loop_node {ns : List Node} {s : Stmt} {info : StmtInfo} {iter : Expr}
    (member : .loop s info iter ∈ f.introducedAt ns) : .stmt s ∈ ns ∧ info.kind = .forLoop ∧
      ∃ target body orElse, s = .node info target iter body orElse := by
  rcases List.mem_append.mp member with head | body
  · rcases List.mem_append.mp head with receiver | param
    · split at receiver <;> simp at receiver
    · simp at param
  · obtain ⟨n, there, own⟩ := List.mem_flatMap.mp body
    unfold Node.introductions at own
    split at own
    · split at own
      · simp at own
      · rename_i kind
        obtain ⟨rfl, rfl, rfl⟩ := Introduction.loop.inj (List.mem_singleton.mp own)
        exact ⟨there, kind, _, _, _, rfl⟩
      · cases own
    · split at own
      · simp at own
      · cases own
    · cases own

theorem loop_introduced (filed : m.Filed) (known : f ∈ m.funcs) {table : Signatures} {ad : Adaptor}
    (found : (Rendering.loopsOf f (f.analyze m table).verdict).lookup b = some ad) (does : ad ≠ .none) :
    ∃ s info iter, .loop s info iter ∈ f.introducedAt f.visits ∧ info.binding = b ∧
      ad = (f.analyze m table).verdict.adaptor info.id := by
  obtain ⟨front, back, shape, -⟩ := List.lookup_eq_some_iff.mp found
  have member : (b, ad) ∈ Rendering.loopsOf f (f.analyze m table).verdict := by rw [shape]; simp
  obtain ⟨n, node, own⟩ := List.mem_filterMap.mp (List.mem_reverse.mp member)
  split at own
  · rename_i info target value body orElse
    split at own
    · rename_i kind
      obtain ⟨rfl, rfl⟩ := Prod.mk.inj (Option.some.inj own)
      obtain ⟨l, met, number⟩ := adaptor_site does
      obtain ⟨_, _, _, _, _, visited, rfl⟩ := site_node met
      -- the loop that is met has the number of the node, so it is the node
      have same := stored_stmt_unique (stmts_visits_stored (filed.bodies f known) _ visited)
        (stmts_nodes_stored (filed.bodies f known) _ node) number
      rw [same] at visited
      refine ⟨.node info target value body orElse, info, value, ?_, rfl, rfl⟩
      refine List.mem_append_right _ (List.mem_flatMap.mpr ⟨_, visited, ?_⟩)
      simp [Node.introductions, kind]
    · cases own
  · cases own

theorem loop_adaptor (filed : m.Filed) (known : f ∈ m.funcs) (once : f.binds.Nodup)
    (table : Signatures) {s : Stmt} {info : StmtInfo} {iter : Expr}
    (member : .loop s info iter ∈ f.introducedAt f.visits) {bd : Binding}
    (bound : m.binding? info.binding = some bd) :
    (f.analyze m table).verdict.adaptor info.id =
      (LoopSite.mk info.id info.binding iter).adaptor m
        ((f.analyze m table).verdict.mode info.binding) := by
  obtain ⟨visited, kind, target, body, orElse, rfl⟩ := loop_node member
  have site : LoopSite.mk info.id info.binding iter ∈ (f.collect table).loops := by
    rw [FuncDecl.collect_loops]
    exact List.mem_filterMap.mpr ⟨_, visited, if_pos kind⟩
  obtain ⟨front, back, split⟩ := List.append_of_mem site
  have counts : info.binding ≠ 0 := fun zero => by simp [zero, Module.binding?] at bound
  refine adaptor_by_mode split (fun l there => ?_) bound
  have var := (other_loop_vars once split counts).1 l there
  refine ⟨var, fun number => var ?_⟩
  have listed : l ∈ (f.collect table).loops := by rw [split]; exact List.mem_append_left _ there
  rw [site_unique filed known table listed site number]

end Introduced

def Module.lends (m : Module) (v : Verdict) (b : Nat) : Bool :=
  ((m.binding? b).map (·.kind.isParam)).getD false && v.mode b = .exclusive

def Introduction.isMarked (m : Module) (v : Verdict) : Introduction → Bool
  | .receiver _ => true
  | .param _ => true
  | .letVar _ info => !m.lends v info.binding
  | .loop _ info iter => !m.lends v info.binding ||
      !iter.isKind .range && !((m.binding? info.binding).map (·.ty.isCopy)).getD false
  | .closureParam .. => false

section Marks

variable {m : Module} {limit : Int} {f : FuncDecl} {i : Introduction} {bd : Binding}

theorem header_apart (once : f.binds.Nodup) (member : i ∈ f.introducedAt f.visits) (free : i ∉ f.heads)
    (counts : i.binding ≠ 0) (sig : Option Signature) :
    (Rendering.headerOf f sig).lookup i.binding = none := by
  cases found : (Rendering.headerOf f sig).lookup i.binding with
  | none => rfl
  | some mode =>
    refine absurd ?_ free
    have listed : ∀ j ∈ f.heads, j.binding = i.binding → i ∈ f.heads := by
      intro j head same
      rwa [FuncDecl.introduction_unique once member (List.mem_append_left _ head) same.symm (same ▸ counts)]
    cases sig with
    | none => cases found
    | some sig =>
      rcases header_cases found with ⟨k, bound, own, -⟩ | ⟨has, own, -⟩
      · refine listed (.param f.params[k]) ?_ own
        exact List.mem_append_right _ (List.mem_map_of_mem (List.getElem_mem bound))
      · exact listed (.receiver f.receiver) (by simp [FuncDecl.heads, has]) own

variable {g : Rendering} {b : Nat}

theorem ref_param (bound : g.module.binding? b = some bd)
    (kind : bd.kind.isParam = true) (strong : g.mode b ≠ .shared) :
    g.ref b = if g.mode b = .exclusive then .exclusive else .none := by
  rw [Rendering.ref, bound]
  cases which : bd.kind with
  | param | receiver => simp only [which]; cases mode : g.mode b <;> simp_all
  | local_ | loop | closureParam => rw [which] at kind; cases kind

theorem ref_other (bound : g.module.binding? b = some bd)
    (kind : bd.kind.isParam = false) (held : g.ref b ≠ .none) :
    ∃ ad, g.loops.lookup b = some ad ∧ (ad = .iter ∨ ad = .iterMut) := by
  rw [Rendering.ref, bound] at held
  cases which : bd.kind with
  | param | receiver => rw [which] at kind; cases kind
  | local_ | closureParam => simp [which] at held
  | loop =>
    simp only [which] at held
    split at held
    · exact ⟨_, ‹_›, .inl rfl⟩
    · exact ⟨_, ‹_›, .inr rfl⟩
    · exact absurd rfl held

theorem lends_eq {v : Verdict} (bound : m.binding? b = some bd) :
    m.lends v b = (bd.kind.isParam && v.mode b = .exclusive) := by
  rw [Module.lends, bound, Option.map_some, Option.getD_some]

theorem adaptor_strong {l : LoopSite} {mode : Mode} (strong : mode.Strong) :
    l.adaptor m mode ≠ .iter ∧ (l.adaptor m mode = .iterMut ↔ mode = .exclusive ∧
      l.iter.isKind .range = false ∧ ((m.binding? l.var).map (·.ty.isCopy)).getD false = false) := by
  unfold LoopSite.adaptor
  split
  · simp_all
  · split
    · simp_all
    · rcases strong with rfl | rfl <;> simp_all

section Wordings

variable {g : Rendering} {b : Nat}

theorem head_mutable (needs : g.needsMut b = (g.ref b == .none)) (weak : g.ref b ≠ .shared) :
    Wording.isMutable { mark := if g.needsMut b then "mut " else "", ref := FuncDecl.refMark (g.ref b) } =
      true := by
  rw [needs]
  cases held : g.ref b with
  | none => rfl
  | shared => exact absurd held weak
  | exclusive => rfl

theorem body_mutable (needs : g.needsMut b = (g.ref b == .none)) (ad : Adaptor) :
    Wording.isMutable { mark := if g.needsMut b then "mut " else "", adaptor := ad.suffixText } =
      decide (g.ref b = .none ∨ ad = .iterMut) := by
  rw [needs]
  cases g.ref b <;> cases ad <;> decide

end Wordings

section Held

variable (filed : m.Filed) (there : f ∈ Layout.written m) (once : f.binds.Nodup)
  (member : i ∈ f.introducedAt f.visits) (bound : m.binding? i.binding = some bd)
include filed there once member bound

theorem held_introduced (limit : Int) (kind : bd.kind.isParam = false)
    (held : (Rendering.of (Analysis.of m limit) f).ref i.binding ≠ .none) :
    ∃ s info iter, i = .loop s info iter ∧ ∃ ad, (ad = .iter ∨ ad = .iterMut) ∧
      (f.analyze m (Analysis.of m limit).table).verdict.adaptor info.id = ad := by
  obtain ⟨ad, found, which⟩ := ref_other bound kind held
  have loops : (Rendering.of (Analysis.of m limit) f).loops =
      Rendering.loopsOf f (Rendering.of (Analysis.of m limit) f).verdict := rfl
  rw [loops, rendering_verdict filed there] at found
  obtain ⟨s, info, iter, introduced, same, own⟩ := loop_introduced filed (List.mem_filter.mp there).1
    found (by rcases which with rfl | rfl <;> decide)
  have counts : i.binding ≠ 0 := fun zero => by simp [zero, Module.binding?] at bound
  exact ⟨s, info, iter, FuncDecl.introduction_unique once member introduced same.symm
    (fun zero => counts (same.symm.trans zero)), ad, which, own.symm⟩

variable (converged : (Analysis.of m limit).converged = true)
  (strong : ((f.analyze m (Analysis.of m limit).table).verdict.mode i.binding).Strong)
include converged strong

theorem not_held_shared (other : ∀ s info iter, i ≠ .loop s info iter) :
    (Rendering.of (Analysis.of m limit) f).ref i.binding ≠ .shared := by
  cases kind : bd.kind.isParam with
  | true =>
    rw [ref_param bound kind (mode_strong filed converged there strong)]
    split <;> decide
  | false =>
    intro shared
    obtain ⟨s, info, iter, same, -⟩ := held_introduced filed there once member bound limit kind
      (by rw [shared]; decide)
    exact other s info iter same

theorem ref_in_body (kind : bd.kind.isParam = true) (free : i ∉ f.heads) :
    (Rendering.of (Analysis.of m limit) f).ref i.binding = .none ↔
      (f.analyze m (Analysis.of m limit).table).verdict.mode i.binding ≠ .exclusive := by
  have counts : i.binding ≠ 0 := fun zero => by simp [zero, Module.binding?] at bound
  have header : (Rendering.of (Analysis.of m limit) f).header =
      Rendering.headerOf f ((Analysis.of m limit).table.get? f.qualified) := rfl
  have mode : (Rendering.of (Analysis.of m limit) f).mode i.binding =
      (f.analyze m (Analysis.of m limit).table).verdict.mode i.binding := by
    rw [Rendering.mode, header, header_apart once member free counts, rendering_verdict filed there]
    rfl
  rw [ref_param bound kind (mode_strong filed converged there strong), mode]
  split <;> simp_all

theorem introduction_marked
    (mutated : (f.analyze m (Analysis.of m limit).table).verdict.isMutated i.binding = true) :
    (i.wording (Rendering.of (Analysis.of m limit) f)).isMutable =
      i.isMarked m (f.analyze m (Analysis.of m limit).table).verdict := by
  have needs : (Rendering.of (Analysis.of m limit) f).needsMut i.binding =
      ((Rendering.of (Analysis.of m limit) f).ref i.binding == .none) := by
    rw [Rendering.needsMut, rendering_verdict filed there, mutated, Bool.true_and]
  have heldBy := held_introduced filed there once member bound limit
  have weak := not_held_shared filed there once member bound converged strong
  have body := ref_in_body filed there once member bound converged strong
  cases i with
  | receiver b | param b => exact head_mutable needs (weak fun _ _ _ other => by cases other)
  | closureParam e info b => simp [Introduction.wording, Wording.isMutable, Introduction.isMarked]
  | letVar s info =>
    dsimp only [Introduction.binding] at bound needs heldBy body
    refine (body_mutable needs .none).trans ?_
    rw [Introduction.isMarked, lends_eq bound]
    cases kind : bd.kind.isParam with
    | true =>
      have own := body kind fun head => by simp [FuncDecl.heads] at head
      simp [own]
    | false =>
      have plain : (Rendering.of (Analysis.of m limit) f).ref info.binding = .none := by
        by_contra held
        obtain ⟨_, _, _, same, -⟩ := heldBy kind held
        cases same
      simp [plain]
  | loop s info iter =>
    dsimp only [Introduction.binding] at bound needs heldBy body strong
    have adaptor := loop_adaptor filed (List.mem_filter.mp there).1 once (Analysis.of m limit).table
      member bound
    obtain ⟨moving, inPlace⟩ := @adaptor_strong m ⟨info.id, info.binding, iter⟩ _ strong
    rw [← adaptor] at moving inPlace
    refine (body_mutable needs _).trans ?_
    rw [Introduction.isMarked, lends_eq bound, rendering_verdict filed there]
    cases kind : bd.kind.isParam with
    | true =>
      have own := body kind fun head => by simp [FuncDecl.heads] at head
      by_cases lent : (f.analyze m (Analysis.of m limit).table).verdict.mode info.binding = .exclusive
      · simp [own, inPlace, lent]
      · simp [own, lent]
    | false =>
      have either : (Rendering.of (Analysis.of m limit) f).ref info.binding = .none ∨
          (f.analyze m (Analysis.of m limit).table).verdict.adaptor info.id = .iterMut := by
        by_contra none
        obtain ⟨held, elsewhere⟩ := not_or.mp none
        obtain ⟨_, _, _, same, ad, which, own⟩ := heldBy kind held
        obtain ⟨-, rfl, -⟩ := Introduction.loop.inj same
        exact which.elim (moving <| own.trans ·) (elsewhere <| own.trans ·)
      simp [either]

end Held

end Marks

theorem clean_findings {m : Module} {limit : Int} (clean : (Analysis.of m limit).hasErrors = false)
    {fa : FuncAnalysis} (member : fa ∈ (Analysis.of m limit).funcs) : fa.verdict.findings = [] := by
  have errors := List.any_eq_false.mp clean fa member
  rw [analysis_funcs] at member
  obtain ⟨f, -, rfl⟩ := List.mem_map.mp member
  apply List.eq_nil_iff_forall_not_mem.mpr
  intro d found
  refine List.any_eq_false.mp (Bool.eq_false_iff.mpr errors) d found ?_
  rw [(resolve_findings m _ d found).1]
  rfl

/-- In an accepted program that is analysed to the end without errors and written, everything that a
function modifies and declares once stands in the text as mutable wherever it is introduced, by `mut`, as
an exclusive reference or by visiting elements in place. Exempt are the parameters of closures, and what
the body introduces although it is declared as a parameter and held by reference. In a well scoped
function whose closures have a body or a result, but not both, everything modified is introduced. -/
theorem modified_introduced_mutable {fs : FileSet} {disk : String → Option Bytes} {d : Document}
    {m : Module} (accepted : (d.accept fs disk).2 = .ok m) {limit : Int}
    (converged : (Analysis.of m limit).converged = true)
    (clean : (Analysis.of m limit).hasErrors = false) {file : String} {u : Generated}
    (made : (Analysis.of m limit).generate file = some u) {fa : FuncAnalysis}
    (member : fa ∈ (Analysis.of m limit).funcs) (once : fa.func.binds.Nodup) {b : Nat}
    (mutated : fa.verdict.isMutated b = true) :
    (∀ i ∈ fa.func.introductions, i.binding = b →
      (∃ p, i.ReadIn (Analysis.of m limit) fa.func p ∧ u.Prints p.text) ∧
      (i.wording (Rendering.of (Analysis.of m limit) fa.func)).isMutable = i.isMarked m fa.verdict) ∧
    (fa.func.isScoped = true → (∀ e ∈ m.exprs, e.isForked = false) →
      ∃ i ∈ fa.func.introductions, i.binding = b) := by
  have filed := Document.accept_filed accepted
  have silent := clean_findings clean member
  rw [analysis_funcs] at member
  obtain ⟨f, there, rfl⟩ := List.mem_map.mp member
  obtain ⟨used, ⟨bd, bound⟩, strong⟩ := resolve_strong mutated silent
  have sound := (generate_spec made).1
  constructor
  · rintro i introduced rfl
    obtain ⟨p, d, shown, writes, reads⟩ := introduction_reads there sound introduced bound
    refine ⟨⟨p, ⟨d, shown, writes, reads⟩, prints_of_reads made shown reads⟩, ?_⟩
    have visited := FuncDecl.introducedAt_mono (stmts_written_visited f.body) introduced
    exact introduction_marked filed there once visited bound converged strong mutated
  · intro within single
    have bodies := filed.bodies f (List.mem_filter.mp there).1
    have declared := (usages_declared within _ b).mp used
    obtain ⟨i, introduced, own⟩ := FuncDecl.introduction_of_binds declared
    refine ⟨i, ?_, own⟩
    exact FuncDecl.introducedAt_mono (@stmts_visits_written ⟨m.exprs, m.stmts⟩ single _ bodies) introduced

namespace Sample

def appendTo (binding line : Nat) : Document.Stmt :=
  .node { kind := "expr", span := [line, 3, line, 13] } .absent
    (.node { kind := "method_call", name := "push", span := [line, 3, line, 13] }
      (nameAt binding [line, 3, line, 5]) .absent
      [.node { kind := "lit", lit := "1", litKind := "int", ty := "int", span := [line, 11, line, 12] }
        .absent .absent [] [] .absent .absent] [] .absent .absent) [] .absent

def growing : Document :=
  { file := "src/main.kl", module := "main", source := some ""
    bindings := [
      { id := 1, name := "ys", mutable := true, ty := "[int]" },
      { id := 2, name := "grow", ty := "fn([int])" },
      { id := 3, name := "xs", kind := "closure_param", mutable := true, ty := "[int]" }]
    funcs := [{
      name := "main", span := [1, 1, 8, 2]
      body := [
        .node { kind := "let", binding := 1, span := [2, 3, 2, 13] } .absent .absent [] .absent,
        appendTo 1 3,
        .node { kind := "let", binding := 2, span := [4, 3, 6, 4] } .absent
          (.node { kind := "closure", params := [3], span := [4, 14, 6, 4] } .absent .absent [] []
            (.node { kind := "block", span := [4, 23, 6, 4] } .absent .absent [appendTo 3 5] .absent)
            .absent) [] .absent] }] }

def grownText : String :=
  "fn main() \x7b\n    let mut ys: Vec<i64>;\n    ys.push(1);\n    let grow = |xs| \x7b\n" ++
    "        xs.push(1);\n    \x7d;\n\x7d"

theorem growing_accepted : growing.program?.isSome = true := by decide +kernel

def grown : Module := growing.program?.get growing_accepted

theorem grown_checked :
    (Analysis.of grown).converged = true ∧ (Analysis.of grown).hasErrors = false ∧
      (Analysis.of grown).generate.isSome = true ∧ (∀ e ∈ grown.exprs, e.isForked = false) ∧
      ∃ fa ∈ (Analysis.of grown).funcs, fa.func.isScoped = true ∧
        (fa.verdict.isMutated 1 = true ∧ ∀ i ∈ fa.func.introductions, i.binding = 1 →
          i.isMarked grown fa.verdict = true) ∧
        fa.verdict.isMutated 3 = true ∧ (∃ i ∈ fa.func.introductions, i.binding = 3 ∧
          (i.wording (Rendering.of (Analysis.of grown) fa.func)).isMutable = false) ∧
        (fa.func.declaration (Rendering.of (Analysis.of grown) fa.func) 0).flat = grownText := by
  decide +kernel

end Sample

theorem grown_introduced_mutable :
    ∃ u, (Sample.growing.accept {} fun _ => none).2 = .ok Sample.grown ∧
      (Analysis.of Sample.grown).generate = some u ∧
      ∃ fa ∈ (Analysis.of Sample.grown).funcs, fa.verdict.isMutated 1 = true ∧
        ∃ i ∈ fa.func.introductions, i.binding = 1 ∧
          (∃ p, i.ReadIn (Analysis.of Sample.grown) fa.func p ∧ u.Prints p.text) ∧
          (i.wording (Rendering.of (Analysis.of Sample.grown) fa.func)).isMutable = true := by
  have accepted := Document.accept_program Sample.growing_accepted
  obtain ⟨converged, clean, generated, single, fa, member, within, ⟨mutated, marked⟩, -⟩ :=
    Sample.grown_checked
  obtain ⟨u, made⟩ := Option.isSome_iff_exists.mp generated
  obtain ⟨each, some_⟩ := modified_introduced_mutable accepted converged clean made member
    (FuncDecl.binds_distinct within) mutated
  obtain ⟨i, introduced, own⟩ := some_ within single
  obtain ⟨reads, wording⟩ := each i introduced own
  exact ⟨u, accepted, made, fa, member, mutated, i, introduced, own, reads,
    wording.trans (marked i introduced own)⟩

/-- The parameter of the closure is modified, and introduced without a mark. -/
theorem closure_parameter_unmarked :
    (Sample.growing.accept {} fun _ => none).2 = .ok Sample.grown ∧
      (Analysis.of Sample.grown).converged = true ∧ (Analysis.of Sample.grown).hasErrors = false ∧
      (Analysis.of Sample.grown).generate.isSome = true ∧
      ∃ fa ∈ (Analysis.of Sample.grown).funcs, fa.verdict.isMutated 3 = true ∧
        (∃ i ∈ fa.func.introductions, i.binding = 3 ∧
          (i.wording (Rendering.of (Analysis.of Sample.grown) fa.func)).isMutable = false) ∧
        (fa.func.declaration (Rendering.of (Analysis.of Sample.grown) fa.func) 0).flat =
          Sample.grownText := by
  obtain ⟨converged, clean, generated, -, fa, member, -, -, mutated, unmarked⟩ := Sample.grown_checked
  exact ⟨Document.accept_program Sample.growing_accepted, converged, clean, generated, fa, member, mutated,
    unmarked⟩

end Tenure
