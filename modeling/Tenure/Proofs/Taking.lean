import Tenure.Ownership.Analysis
import Tenure.Proofs.Association
import Tenure.Proofs.Courses

/- What is given away does not depend on what is modified: a body gives the same values away whether a
   parameter that it calls with is read or modified by the callee. So the owned modes of one round
   follow from the owned modes of the table alone. -/
namespace Tenure

def Access.coarse : Access → Access
  | .mutate => .read
  | a => a

def Mode.coarse : Mode → Mode
  | .exclusive => .shared
  | m => m

def Signature.coarse (s : Signature) : Signature :=
  { s with receiver := s.receiver.coarse, params := s.params.map Mode.coarse }

def Signatures.coarse (table : Signatures) : Signatures := table.map fun e => (e.1, e.2.coarse)

def Outlook.coarse (o : Outlook) : Outlook := { o with table := o.table.coarse }

@[simp] theorem transfers_coarse (a : Access) : a.coarse.transfers = a.transfers := by
  cases a <;> rfl

theorem transfers_of_coarse {a b : Access} (h : a.coarse = b.coarse) : a.transfers = b.transfers := by
  rw [← transfers_coarse, h, transfers_coarse]

theorem ofPart_coarse (a : Access) : a.ofPart.coarse = .read := by
  cases a <;> rfl

theorem ofMode_coarse (m : Mode) : (Access.ofMode m).coarse = Access.ofMode m.coarse := by
  cases m <;> rfl

theorem lookup_coarse (table : Signatures) (name : String) :
    table.coarse.lookup name = (table.lookup name).map Signature.coarse := by
  induction table with
  | nil => rfl
  | cons e table ih =>
    obtain ⟨key, s⟩ := e
    rw [Signatures.coarse, List.map_cons, List.lookup_cons, List.lookup_cons]
    cases name == key with
    | true => rfl
    | false => exact ih

theorem get_coarse (table : Signatures) (name : String) :
    table.coarse.get? name = (table.get? name).map Signature.coarse := by
  unfold Signatures.get?
  split
  · rfl
  · exact lookup_coarse table name

theorem param_coarse (s : Signature) (i : Nat) : s.coarse.param i = (s.param i).coarse := by
  simp only [Signature.param, Signature.coarse, List.getD_eq_getElem?_getD, List.getElem?_map]
  cases s.params[i]? <;> rfl

theorem argAccess_coarse (table : Signatures) (name : String) (i : Nat) :
    (argAccess (table.get? name) i).coarse = argAccess (table.coarse.get? name) i := by
  rw [get_coarse]
  cases table.get? name with
  | none => rfl
  | some s =>
    simp only [argAccess, Option.map_some]
    rw [ofMode_coarse, param_coarse]

section Outlook

variable {o p : Outlook} (alike : o.coarse = p.coarse)

include alike

theorem escapingLets_alike : o.escapingLets = p.escapingLets := by
  injection alike

theorem table_alike : o.table.coarse = p.table.coarse := by
  injection alike

theorem letAccess_alike (info : StmtInfo) (value : Expr) :
    o.letAccess info value = p.letAccess info value := by
  rw [Outlook.letAccess, Outlook.letAccess, escapingLets_alike alike]

theorem callAccess_alike (info : ExprInfo) (i : Nat) :
    (o.callAccess info i).coarse = (p.callAccess info i).coarse := by
  unfold Outlook.callAccess
  split
  · rfl
  · rw [argAccess_coarse, argAccess_coarse, table_alike alike]

theorem target_alike (info : ExprInfo) :
    (o.table.get? info.target).map Signature.coarse =
      (p.table.get? info.target).map Signature.coarse := by
  rw [← get_coarse, ← get_coarse, table_alike alike]

theorem receiverAccess_alike (info : ExprInfo) :
    (o.receiverAccess info).coarse = (p.receiverAccess info).coarse := by
  have known := target_alike alike info
  unfold Outlook.receiverAccess
  cases one : o.table.get? info.target with
  | none =>
    rw [one, Option.map_none, eq_comm, Option.map_eq_none_iff] at known
    rw [known]
  | some s =>
    rw [one, Option.map_some, eq_comm, Option.map_eq_some_iff] at known
    obtain ⟨t, two, same⟩ := known
    rw [two]
    simp only [ofMode_coarse]
    exact congrArg (fun s : Signature => Access.ofMode s.receiver) same.symm

theorem methodAccess_alike (info : ExprInfo) (i : Nat) :
    (o.methodAccess info i).coarse = (p.methodAccess info i).coarse := by
  have known := target_alike alike info
  have args := argAccess_coarse o.table info.target i
  rw [table_alike alike, ← argAccess_coarse] at args
  unfold Outlook.methodAccess
  cases one : o.table.get? info.target with
  | none =>
    rw [one, Option.map_none, eq_comm, Option.map_eq_none_iff] at known
    rw [known]
  | some s =>
    rw [one, Option.map_some, eq_comm, Option.map_eq_some_iff] at known
    obtain ⟨t, two, -⟩ := known
    rw [one, two] at args
    rw [two]
    exact args

end Outlook

def Use.coarse (u : Use) : Use := { u with access := u.access.coarse }

mutual
def Act.coarse : Act → Act
  | .declare b => .declare b
  | .use u => .use u.coarse
  | .loop stmt acts => .loop stmt (Act.coarseAll acts)
  | .each site acts => .each site (Act.coarseAll acts)
  | .closure expr escapes params spot acts => .closure expr escapes params spot (Act.coarseAll acts)
def Act.coarseAll : List Act → List Act
  | [] => []
  | a :: as => a.coarse :: Act.coarseAll as
end

theorem coarseAll_append (as bs : List Act) :
    Act.coarseAll (as ++ bs) = Act.coarseAll as ++ Act.coarseAll bs := by
  induction as with
  | nil => rfl
  | cons a as ih => rw [List.cons_append, Act.coarseAll, Act.coarseAll, ih, List.cons_append]

variable {as bs : List Act} {o p : Outlook} {c d : Collection} {S T : Signatures} {m : Module}

theorem append_alike {cs ds : List Act} (first : Act.coarseAll as = Act.coarseAll cs)
    (second : Act.coarseAll bs = Act.coarseAll ds) :
    Act.coarseAll (as ++ bs) = Act.coarseAll (cs ++ ds) := by
  rw [coarseAll_append, coarseAll_append, first, second]

theorem use_alike {u v : Use} (h : u.coarse = v.coarse) :
    Act.coarseAll u.acts = Act.coarseAll v.acts := by
  have binding : u.coarse.binding = v.coarse.binding := congrArg Use.binding h
  unfold Use.acts
  rw [show u.binding = v.binding from binding]
  split
  · rfl
  · simp only [Act.coarseAll, Act.coarse, h]

theorem closure_alike {a b : Access} (expr : Nat) (params : List Nat) (spot : Spot)
    (escapes : a.coarse = b.coarse) (inner : Act.coarseAll as = Act.coarseAll bs) :
    Act.coarseAll [.closure expr a.transfers params spot as] =
      Act.coarseAll [.closure expr b.transfers params spot bs] := by
  simp only [Act.coarseAll, Act.coarse, inner, transfers_of_coarse escapes]

theorem agree_alike (alike : o.coarse = p.coarse) : o.Agree (fun a b => a.coarse = b.coarse) p where
  refl _ := rfl
  part {a b} _ := (ofPart_coarse a).trans (ofPart_coarse b).symm
  call := callAccess_alike alike
  receiver := receiverAccess_alike alike
  method := methodAccess_alike alike

theorem Course.alike {o p : Outlook} (alike : o.coarse = p.coarse) {w : Nat} {vs : List Node}
    {ns : List Nat} {os : List (Nat × Nat)} {as bs : List Act}
    (h : Course (fun a b => a.coarse = b.coarse) o p w vs ns os as bs) :
    Act.coarseAll as = Act.coarseAll bs := by
  induction h with
  | nil | expr | stmt => rfl
  | append _ _ first second => exact append_alike first second
  | use _ _ same => exact use_alike (by simp only [Use.coarse, ExprInfo.use, same])
  | closure _ same _ inner => exact closure_alike _ _ _ same inner
  | named _ _ inner =>
    exact append_alike (inner (congrArg Access.coarse (letAccess_alike alike _ _))) rfl
  | loop _ inner => simp only [Act.coarseAll, Act.coarse, inner]
  | each _ _ _ source inner =>
    refine append_alike source ?_
    simp only [Act.coarseAll, Act.coarse, inner]

theorem stmts_alike (alike : o.coarse = p.coarse) (ss : List Stmt) :
    Act.coarseAll (Stmt.actsAll o ss) = Act.coarseAll (Stmt.actsAll p ss) :=
  Course.alike alike (@stmts_course _ o p (agree_alike alike) ss 0)

def Event.coarse (e : Event) : Event :=
  { e with kind := if e.kind = .mutate then .read else e.kind, mutates := false }

def Usage.coarse (u : Usage) : Usage := { u with events := u.events.map Event.coarse }

def Capture.coarse (c : Capture) : Capture := { c with mutates := false }

def Frame.coarse (f : Frame) : Frame := { f with captures := f.captures.map Capture.coarse }

def Ledger.coarse (l : Ledger) : Ledger :=
  { l with usages := l.usages.map Usage.coarse, frames := l.frames.map Frame.coarse }

@[simp] theorem event_transfers_coarse (e : Event) : e.coarse.transfers = e.transfers := by
  obtain ⟨_, kind, _, _, _, _, _, _, _, escaping, mutates, moves, _⟩ := e
  cases kind <;> cases escaping <;> cases moves <;> cases mutates <;> rfl

section Steps

variable (l : Ledger)

theorem addEvent_coarse (e : Event) (us : List Usage) :
    (Collector.addEvent e us).map Usage.coarse =
      Collector.addEvent e.coarse (us.map Usage.coarse) :=
  (addEvent_updates e).map (addEvent_updates e.coarse) Usage.coarse (fun _ => rfl) rfl
    (fun u => by simp [Usage.coarse]) us

theorem add_coarse (c : Capture) (a : Access) : (c.add a).coarse = c.coarse.add a.coarse := by
  cases a <;> rfl

theorem addCapture_coarse (b : Nat) (a : Access) (span : Range) (cs : List Capture) :
    (addCapture b a span cs).map Capture.coarse =
      addCapture b a.coarse span (cs.map Capture.coarse) :=
  (addCapture_updates b a span).map (addCapture_updates b a.coarse span) Capture.coarse
    (fun _ => rfl) (add_coarse _ a) (fun c => add_coarse c a) cs

theorem access_coarse (c : Capture) (escapes : Bool) :
    (c.access escapes).coarse = c.coarse.access escapes := by
  obtain ⟨binding, span, mutates, moves⟩ := c
  cases escapes <;> cases moves <;> cases mutates <;> rfl

theorem note_coarse (e : Event) (a : Access) :
    (l.note e a).coarse = l.coarse.note e.coarse a.coarse := by
  have recorded : (l.record e).coarse = l.coarse.record e.coarse := by
    simp only [Ledger.record, Ledger.coarse, addEvent_coarse]
    rfl
  obtain ⟨usages, loops, seq, frames⟩ := l
  cases frames with
  | nil => exact recorded
  | cons f fs =>
    simp only [Ledger.note, Ledger.coarse, List.map_cons]
    have here : f.coarse.locals.contains e.coarse.binding = f.locals.contains e.binding := rfl
    rw [here]
    split
    · exact recorded
    · simp only [Ledger.mk.injEq, List.map_cons, true_and, List.cons.injEq, and_true]
      simp only [Frame.coarse, Frame.capture, addCapture_coarse]
      rfl

theorem declare_coarse (depth b : Nat) :
    (l.declare depth b).coarse = l.coarse.declare depth b := by
  have known : (l.usages.map Usage.coarse).any (·.binding == b) = l.usages.any (·.binding == b) := by
    rw [List.any_map]
    rfl
  obtain ⟨usages, loops, seq, frames⟩ := l
  simp only [Ledger.declare, Ledger.coarse, known, Ledger.mk.injEq, true_and]
  constructor
  · split
    · rfl
    · rw [List.map_append]
      rfl
  · cases frames with
    | nil => rfl
    | cons f fs => rfl

theorem declareAll_coarse (depth : Nat) (bs : List Nat) :
    (l.declareAll depth bs).coarse = l.coarse.declareAll depth bs := by
  induction bs generalizing l with
  | nil => rfl
  | cons b bs ih =>
    refine (ih (l.declare depth b)).trans ?_
    rw [declare_coarse]
    rfl

theorem leave_coarse (depth expr : Nat) (escapes : Bool) (spot : Spot) :
    (l.leave depth expr escapes spot).coarse = l.coarse.leave depth expr escapes spot := by
  have noted : ∀ (caps : List Capture) (l : Ledger),
      (caps.foldl (fun l cap => l.note (cap.event depth expr escapes spot) (cap.access escapes))
        l).coarse =
      (caps.map Capture.coarse).foldl
        (fun l cap => l.note (cap.event depth expr escapes spot) (cap.access escapes)) l.coarse := by
    intro caps
    induction caps with
    | nil => intro l; rfl
    | cons cap caps ih =>
      intro l
      rw [List.foldl_cons, ih, note_coarse, access_coarse, List.map_cons, List.foldl_cons]
      rfl
  obtain ⟨usages, loops, seq, frames⟩ := l
  cases frames with
  | nil => rfl
  | cons f fs => exact noted f.captures ⟨usages, loops, seq, fs⟩

end Steps

theorem runAll_coarse (as : List Act) (loops : List Nat) (l : Ledger) :
    (Act.runAll loops as l).coarse = Act.runAll loops (Act.coarseAll as) l.coarse := by
  induction as using acts_induction generalizing loops l <;>
    simp only [Act.runAll, Act.run, Act.coarseAll, Act.coarse] at *
  case cons a as rest first => rw [rest, first]
  case declare b => exact declare_coarse l loops.length b
  case use u =>
    have event : (u.event loops.length).coarse = u.coarse.event loops.length := by
      obtain ⟨b, access, expr, span, reinit, spot⟩ := u
      cases access <;> rfl
    rw [note_coarse, event]
    rfl
  case loop stmt acts inner => exact inner _ l
  case each site acts inner =>
    rw [inner]
    exact congrArg _ (declareAll_coarse _ _ _)
  case closure expr escapes params spot acts inner =>
    rw [leave_coarse, inner]
    exact congrArg (fun l => Ledger.leave l loops.length expr escapes spot)
      (congrArg _ (declareAll_coarse _ _ _))

structure Collection.Alike (c d : Collection) : Prop where
  usages : c.usages.map Usage.coarse = d.usages.map Usage.coarse
  loops : c.loops = d.loops

theorem collectWith_alike (alike : o.coarse = p.coarse) (f : FuncDecl) :
    (f.collectWith o).Alike (f.collectWith p) := by
  have acts : Act.coarseAll (f.acts o) = Act.coarseAll (f.acts p) :=
    append_alike rfl (stmts_alike alike f.body)
  have runs : (Act.runAll [] (f.acts o) {}).coarse = (Act.runAll [] (f.acts p) {}).coarse := by
    rw [runAll_coarse, runAll_coarse, acts]
  obtain ⟨usages, loops⟩ := f.collectWith_ledger o
  obtain ⟨usages', loops'⟩ := f.collectWith_ledger p
  refine ⟨?_, ?_⟩
  · rw [usages, usages']
    exact congrArg Ledger.usages runs
  · rw [loops, loops']
    have same := congrArg Ledger.loops runs
    exact same

theorem usage_coarse (us : List Usage) (b : Nat) :
    (us.map Usage.coarse).find? (·.binding == b) =
      (us.find? (·.binding == b)).map Usage.coarse := by
  rw [List.find?_map]
  rfl

theorem given_alike (alike : c.Alike d) (b : Nat) :
    (c.events b).any Event.transfers = (d.events b).any Event.transfers := by
  have coarse : ∀ e : Collection, (e.events b).any Event.transfers =
      ((((e.usages.map Usage.coarse).find? (·.binding == b)).map (·.events)).getD []).any
        Event.transfers := by
    intro e
    rw [usage_coarse, Collection.events, Collection.usage?]
    cases e.usages.find? (·.binding == b) with
    | none => rfl
    | some u => simp [Usage.coarse, Function.comp_def]
  rw [coarse, coarse, alike.usages]

theorem outlook_alike (h : S.coarse = T.coarse) (f : FuncDecl) :
    (f.outlook S).coarse = (f.outlook T).coarse := by
  have first : (f.collectWith { table := S }).Alike (f.collectWith { table := T }) :=
    collectWith_alike (by simp only [Outlook.coarse, h]) f
  simp only [FuncDecl.outlook, Outlook.coarse, h, given_alike first]

theorem collect_alike (h : S.coarse = T.coarse) (f : FuncDecl) :
    (f.collect S).Alike (f.collect T) := by
  rw [f.collect_eq, f.collect_eq]
  exact collectWith_alike (outlook_alike h f) f

theorem retarget_alike (alike : c.Alike d) (v : Nat) : (c.retarget v).Alike d := by
  have same : ∀ e : Event, (e.retarget v).coarse = e.coarse := by
    intro e
    unfold Event.retarget
    split
    · rename_i read
      simp [Event.coarse, read.2]
    · rfl
  refine ⟨?_, alike.loops⟩
  rw [← alike.usages, Collection.retarget, List.map_map]
  apply List.map_congr_left
  intro u _
  simp [Usage.coarse, same, Function.comp_def]

def Binding.takes (b : Binding) (given : Bool) : Bool :=
  match b.marker with
  | .none => b.ty.isCopy || given
  | .owned => true
  | _ => false

theorem settle_owned (b : Binding) (u : Usage) :
    ((b.settle u).mode == .owned) = b.takes (u.events.any Event.transfers) := by
  have given : (u.events.find? Event.transfers).isSome = u.events.any Event.transfers := by
    rw [Bool.eq_iff_iff, List.find?_isSome, List.any_eq_true]
  unfold Binding.settle Binding.takes
  dsimp only
  cases b.marker with
  | none =>
    dsimp only
    by_cases copied : b.ty.isCopy = true
    · rw [if_pos copied, copied]
      rfl
    · rw [if_neg copied, given]
      by_cases taken : u.events.any Event.transfers = true
      · rw [if_pos (Or.inr taken), taken, Bool.or_true]
        rfl
      · rw [if_neg (by simp [taken])]
        rw [Bool.not_eq_true] at copied taken
        rw [copied, taken]
        dsimp only
        split <;> rfl
  | ref => rfl
  | mutRef => rfl
  | owned =>
    dsimp only
    split
    · rfl
    · rw [if_pos (Or.inl rfl)]
      rfl

theorem lookup_setKey {α : Type} (key : Nat) (value : α) (kvs : List (Nat × α)) (b : Nat) :
    (setKey key value kvs).lookup b = if b = key then some value else kvs.lookup b :=
  lookup_set (setKey key value) ⟨rfl, fun _ _ => rfl⟩ kvs b

def Verdict.Alike (v w : Verdict) : Prop :=
  ∀ b, (v.modes.lookup b).map (· == .owned) = (w.modes.lookup b).map (· == .owned)

theorem Collection.usage_events (c : Collection) (b : Nat) :
    ((c.usage? b).getD { binding := b }).events = c.events b := by
  rw [Collection.events]
  cases c.usage? b <;> rfl

theorem settle_alike {v w : Verdict} (same : c.Alike d)
    (alike : v.Alike w) (b : Nat) : (v.settle m c b).Alike (w.settle m d b) := by
  unfold Verdict.settle
  cases m.binding? b with
  | none => exact alike
  | some binding =>
    intro a
    simp only [Verdict.add, lookup_setKey]
    split
    · simp only [Option.map_some, settle_owned, Collection.usage_events, given_alike same]
    · exact alike a

theorem Collection.Alike.symm (alike : c.Alike d) : d.Alike c :=
  ⟨alike.usages.symm, alike.loops.symm⟩

theorem resolveLoop_alike {s t : Collection × Verdict} (same : s.1.Alike t.1)
    (alike : s.2.Alike t.2) (l : LoopSite) :
    (resolveLoop m l s).1.Alike (resolveLoop m l t).1 ∧
      (resolveLoop m l s).2.Alike (resolveLoop m l t).2 := by
  refine ⟨?_, settle_alike same alike l.var⟩
  -- one side may go on with a modified iterable where the other does not
  have left : (resolveLoop m l s).1.Alike t.1 := by
    unfold resolveLoop
    dsimp only
    split
    · exact retarget_alike same l.var
    · exact same
  unfold resolveLoop at left ⊢
  dsimp only at left ⊢
  generalize (if (s.2.settle m s.1 l.var).mode l.var = .exclusive then s.1.retarget l.var
    else s.1) = c at left
  split
  · exact (retarget_alike left.symm l.var).symm
  · exact left

theorem loops_alike {m : Module} (ls : List LoopSite) {s t : Collection × Verdict}
    (same : s.1.Alike t.1) (alike : s.2.Alike t.2) :
    (ls.foldr (resolveLoop m) s).1.Alike (ls.foldr (resolveLoop m) t).1 ∧
      (ls.foldr (resolveLoop m) s).2.Alike (ls.foldr (resolveLoop m) t).2 := by
  induction ls with
  | nil => exact ⟨same, alike⟩
  | cons l ls ih => exact resolveLoop_alike ih.1 ih.2 l

def Verdict.settleNew (m : Module) (c : Collection) (v : Verdict) (b : Nat) : Verdict :=
  if (v.modes.lookup b).isSome then v else v.settle m c b

theorem settleNew_alike (same : c.Alike d) (bs : List Nat) {v w : Verdict} (alike : v.Alike w) :
    (bs.foldl (Verdict.settleNew m c) v).Alike (bs.foldl (Verdict.settleNew m d) w) := by
  induction bs generalizing v w with
  | nil => exact alike
  | cons b bs ih =>
    refine ih ?_
    have known : (v.modes.lookup b).isSome = (w.modes.lookup b).isSome := by
      rw [← Option.isSome_map, alike b, Option.isSome_map]
    unfold Verdict.settleNew
    rw [known]
    split
    · exact alike
    · exact settle_alike same alike b

namespace Collection

def looped (m : Module) (c : Collection) : Collection × Verdict := c.loops.foldr (resolveLoop m) (c, {})

def settled (m : Module) (c : Collection) : Verdict :=
  ((c.looped m).1.usages.map (·.binding)).foldl (Verdict.settleNew m (c.looped m).1) (c.looped m).2

theorem resolve_eq (m : Module) (c : Collection) :
    (c.resolve m).1 = (c.looped m).1 ∧ (c.resolve m).2.modes = (c.settled m).modes ∧
      (c.resolve m).2.points.Perm ((c.settled m).points ++
        ((c.looped m).1.projections.map (Projection.provide m)).filterMap Provision.point?) ∧
      (c.resolve m).2.findings.Perm ((c.settled m).findings ++
        ((c.looped m).1.projections.map (Projection.provide m)).filterMap Provision.finding?) := by
  unfold settled
  rw [List.foldl_map]
  exact ⟨rfl, rfl, List.mergeSort_perm _ _, List.mergeSort_perm _ _⟩

end Collection

section Keeps

variable {m : Module} {P : Collection → Verdict → Prop} {c : Collection}

/-- Kept by each step of settling: for a binding, for the way a loop visits its elements, and for what is
modified because a loop runs over it. -/
structure SettlingKeeps (m : Module) (P : Collection → Verdict → Prop) : Prop where
  settle : ∀ {c v}, P c v → ∀ b, P c (v.settle m c b)
  adapt : ∀ {c v}, P c v → ∀ adaptors, P c { v with adaptors }
  retarget : ∀ {c v}, P c v → ∀ w, P (c.retarget w) v

theorem SettlingKeeps.looped (keeps : SettlingKeeps m P) (start : P c {}) :
    P (c.looped m).1 (c.looped m).2 := by
  unfold Collection.looped
  generalize c.loops = ls
  induction ls with
  | nil => exact start
  | cons l ls ih =>
    have settled := keeps.adapt (keeps.settle ih l.var)
    rw [List.foldr_cons, resolveLoop]
    dsimp only
    split
    · exact keeps.retarget (settled _) l.var
    · exact settled _

theorem SettlingKeeps.settled (keeps : SettlingKeeps m P) (start : P c {}) :
    P (c.looped m).1 (c.settled m) := by
  refine List.foldlRecOn _ _ (keeps.looped start) fun v holds b _ => ?_
  unfold Verdict.settleNew
  split
  · exact holds
  · exact keeps.settle holds b

end Keeps

theorem resolve_alike {m : Module} {c d : Collection} (same : c.Alike d) :
    (c.resolve m).2.Alike (d.resolve m).2 := by
  obtain ⟨uses, modes⟩ : (c.looped m).1.Alike (d.looped m).1 ∧ (c.looped m).2.Alike (d.looped m).2 := by
    rw [Collection.looped, Collection.looped, ← same.loops]
    exact loops_alike c.loops same fun _ => rfl
  have bindings : ∀ us : List Usage, us.map (·.binding) = (us.map Usage.coarse).map (·.binding) := by
    intro us
    rw [List.map_map]
    rfl
  unfold Verdict.Alike
  rw [(c.resolve_eq m).2.1, (d.resolve_eq m).2.1, Collection.settled, bindings, uses.usages, ← bindings]
  exact settleNew_alike uses _ modes

theorem analyze_owned (h : S.coarse = T.coarse) (f : FuncDecl) (b : Nat) :
    (f.analyze m S).verdict.mode b = .owned ↔ (f.analyze m T).verdict.mode b = .owned := by
  have alike := @resolve_alike m _ _ (collect_alike h f) b
  simp only [FuncDecl.analyze, Verdict.mode]
  cases one : (((f.collect S).resolve m).2.modes.lookup b) with
  | none =>
    rw [one, Option.map_none, eq_comm, Option.map_eq_none_iff] at alike
    rw [alike]
  | some md =>
    rw [one, Option.map_some, eq_comm, Option.map_eq_some_iff] at alike
    obtain ⟨md', two, same⟩ := alike
    rw [two, Option.getD_some, Option.getD_some]
    rw [Bool.eq_iff_iff, beq_iff_eq, beq_iff_eq] at same
    exact same.symm

end Tenure
