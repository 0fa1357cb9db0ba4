import Mathlib.Algebra.Ring.Nat
import Mathlib.Data.List.Forall2
import Tenure.Program.Sketch
import Tenure.Proofs.Taking

/- How many rounds an analysis takes. Every parameter and every receiver has a mode of its own, a slot,
   and slots only grow. As long as some slot becomes owned, there are fewer slots left to own. A round
   in which none does is followed by such rounds only, because what is given away follows from what is
   owned; from there on every slot that grows does so once, from shared to exclusive. Modules whose
   functions correspond and end with the same modes go through the same rounds. -/
namespace Tenure

section Modes

theorem join_rank (a b : Mode) : a.rank ≤ (a.join b).rank := by
  cases a <;> cases b <;> decide

theorem join_known {a : Mode} (h : a ≠ .unresolved) (b : Mode) : a.join b ≠ .unresolved := by
  cases a <;> cases b <;> first | decide | exact absurd rfl h

theorem join_owned {a b : Mode} (h : b = .owned) : a.join b = .owned := by
  subst h
  cases a <;> rfl

theorem join_coarse {a b : Mode} (known : a ≠ .unresolved) (h : b = .owned → a = .owned) :
    (a.join b).coarse = a.coarse := by
  cases a <;> cases b <;> first | rfl | exact absurd rfl known | exact absurd (h rfl) (by decide)

def taken (slots : List Mode) : Nat := slots.countP (· == .owned)

def raised (slots : List Mode) : Nat := slots.countP (2 ≤ ·.rank)

abbrev Rises : List Mode → List Mode → Prop := List.Forall₂ fun a b => a.rank ≤ b.rank

theorem taken_le_raised (slots : List Mode) : taken slots ≤ raised slots := by
  apply List.countP_mono_left
  intro a _ owned
  rw [beq_iff_eq.mp owned]
  decide

theorem raised_le_length (slots : List Mode) : raised slots ≤ slots.length := List.countP_le_length

theorem taken_cons (a : Mode) (xs : List Mode) :
    taken (a :: xs) = taken xs + if a = .owned then 1 else 0 := by
  rw [taken, List.countP_cons, ← taken]
  simp only [beq_iff_eq]

theorem taken_coarse (slots : List Mode) : taken slots = taken (slots.map Mode.coarse) := by
  have owned : ∀ a : Mode, (a == .owned) = (a.coarse == .owned) := by
    intro a
    cases a <;> rfl
  rw [taken, taken, List.countP_map]
  exact congrArg (List.countP · slots) (funext owned)

theorem raised_cons (a : Mode) (xs : List Mode) :
    raised (a :: xs) = raised xs + if 2 ≤ a.rank then 1 else 0 := by
  rw [raised, List.countP_cons, ← raised]
  simp only [decide_eq_true_eq]

variable {xs ys : List Mode}

theorem rises_countP {p : Mode → Bool} (up : ∀ a b : Mode, a.rank ≤ b.rank → p a = true → p b = true)
    (h : Rises xs ys) : xs.countP p ≤ ys.countP p := by
  induction h with
  | nil => exact Nat.le_refl _
  | cons le _ ih =>
    rw [List.countP_cons, List.countP_cons]
    have more := up _ _ le
    split <;> split <;> first | omega | exact absurd (more ‹_›) ‹_›

theorem rises_taken (h : Rises xs ys) : taken xs ≤ taken ys :=
  rises_countP (by rintro ⟨⟩ ⟨⟩ <;> decide) h

theorem rises_raised (h : Rises xs ys) : raised xs ≤ raised ys :=
  rises_countP (by rintro ⟨⟩ ⟨⟩ <;> decide) h

theorem coarse_of_taken (h : Rises xs ys) (known : ∀ a ∈ xs, a ≠ .unresolved)
    (same : taken ys ≤ taken xs) : ys.map Mode.coarse = xs.map Mode.coarse := by
  induction h with
  | nil => rfl
  | @cons a b xs ys le rest ih =>
    have more := rises_taken rest
    rw [List.forall_mem_cons] at known
    rw [taken_cons, taken_cons] at same
    have head : b.coarse = a.coarse := by
      cases a <;> cases b <;>
        first | rfl | exact absurd rfl known.1 | exact absurd le (by decide) | (simp at same; omega)
    have fewer : taken ys ≤ taken xs := by
      by_cases owned : a = .owned
      · rw [if_pos owned] at same
        have top : b = .owned := by
          subst owned
          cases b <;> first | rfl | exact absurd le (by decide)
        rw [if_pos top] at same
        omega
      · rw [if_neg owned] at same
        omega
    rw [List.map_cons, List.map_cons, head, ih known.2 fewer]

theorem eq_of_raised (h : Rises xs ys) (known : ∀ a ∈ xs, a ≠ .unresolved)
    (coarse : ys.map Mode.coarse = xs.map Mode.coarse) (same : raised ys ≤ raised xs) : ys = xs := by
  induction h with
  | nil => rfl
  | @cons a b xs ys le rest ih =>
    have more := rises_raised rest
    rw [List.forall_mem_cons] at known
    rw [List.map_cons, List.map_cons, List.cons.injEq] at coarse
    rw [raised_cons, raised_cons] at same
    have head : b = a := by
      obtain ⟨equal, -⟩ := coarse
      cases a <;> cases b <;>
        first
          | rfl | exact absurd rfl known.1 | exact absurd le (by decide)
          | exact absurd equal (by decide) | (simp [Mode.rank] at same; omega)
    subst head
    rw [ih known.2 coarse.2 (by omega)]

end Modes

def Signature.slots (s : Signature) : List Mode :=
  (if s.hasReceiver then [s.receiver] else []) ++ s.params

structure Signature.Fits (f : FuncDecl) (s : Signature) : Prop where
  name : s.name = f.qualified
  receiver : s.hasReceiver = (f.receiver != 0)
  params : s.params.length = f.params.length
  free : s.hasReceiver = false → s.receiver = .unresolved
  known : ∀ a ∈ s.slots, a ≠ .unresolved

def FuncDecl.slots (f : FuncDecl) : Nat := f.params.length + if f.receiver = 0 then 0 else 1

namespace Signature.Fits

variable {f : FuncDecl} {s : Signature}

theorem slots_length (fits : s.Fits f) : s.slots.length = f.slots := by
  rw [Signature.slots, FuncDecl.slots, fits.receiver, List.length_append, fits.params]
  by_cases h : f.receiver = 0
  · simp [h]
  · simp [h, Nat.add_comm]

theorem seed (m : Module) (f : FuncDecl) : (Signatures.seedOf m f).Fits f := by
  have known : ∀ b, Signatures.seedMode f.isExtern b ≠ .unresolved := by
    intro b
    unfold Signatures.seedMode
    cases b with
    | none => exact fun h => nomatch h
    | some b =>
      dsimp only
      split
      · rename_i marked
        cases marker : b.marker with
        | none => exact absurd marker marked
        | ref | mutRef | owned => decide
      · split
        · decide
        · decide
  refine ⟨rfl, rfl, List.length_map _, ?_, ?_⟩
  · intro free
    have none : f.receiver = 0 := by simpa [Signatures.seedOf] using free
    exact if_pos none
  · intro a member
    simp only [Signature.slots, Signatures.seedOf, List.mem_append, List.mem_map] at member
    rcases member with first | ⟨p, -, rfl⟩
    · by_cases h : f.receiver = 0
      · simp [h] at first
      · simp only [h, bne_iff_ne, ne_eq, not_false_eq_true, if_true, if_false,
          List.mem_singleton] at first
        rw [first]
        exact known _
    · exact known _

theorem param_mem (fits : s.Fits f) {i : Nat} (h : i < f.params.length) : s.param i ∈ s.slots := by
  rw [← fits.params] at h
  rw [Signature.param, List.getD_eq_getElem?_getD, List.getElem?_eq_getElem h, Option.getD_some]
  exact List.mem_append_right _ (List.getElem_mem h)

theorem receiver_mem (has : s.hasReceiver = true) : s.receiver ∈ s.slots :=
  List.mem_append_left _ (by simp [has])

end Signature.Fits

section Refined

variable {m : Module} {f : FuncDecl} {s : Signature}

@[simp] theorem analyze_func (table : Signatures) : (f.analyze m table).func = f := rfl

theorem refined_fits (fits : s.Fits f) (table : Signatures) :
    (Signatures.refined s (f.analyze m table)).Fits f where
  name := rfl
  receiver := fits.receiver
  params := List.length_mapIdx
  free := by
    intro free
    have none : s.hasReceiver = false := free
    simp [Signatures.refined, none]
  known := by
    intro a member
    simp only [Signature.slots, Signatures.refined, List.mem_append] at member
    rcases member with first | rest
    · by_cases has : s.hasReceiver = true
      · simp only [has, if_true, List.mem_singleton] at first
        rw [first]
        exact join_known (fits.known _ (Signature.Fits.receiver_mem has)) _
      · simp [has] at first
    · obtain ⟨i, bound, rfl⟩ := List.mem_mapIdx.mp rest
      exact join_known (fits.known _ (fits.param_mem bound)) _

theorem refined_rises (fits : s.Fits f) (table : Signatures) :
    Rises s.slots (Signatures.refined s (f.analyze m table)).slots := by
  have params : Rises s.params (Signatures.refined s (f.analyze m table)).params := by
    refine List.forall₂_iff_get.mpr ⟨fits.params.trans List.length_mapIdx.symm, ?_⟩
    intro i old new
    have param : s.param i = s.params[i] := by
      rw [Signature.param, List.getD_eq_getElem?_getD, List.getElem?_eq_getElem old,
        Option.getD_some]
    simp only [Signatures.refined, List.get_eq_getElem, List.getElem_mapIdx, param]
    exact join_rank _ _
  by_cases has : s.hasReceiver = true
  · simp only [Signature.slots, Signatures.refined, has, if_true, List.singleton_append]
    exact .cons (join_rank _ _) params
  · simp only [Signature.slots, Signatures.refined, has]
    exact params

theorem refined_param (table : Signatures) {i : Nat} (h : i < f.params.length) :
    (Signatures.refined s (f.analyze m table)).param i =
      (s.param i).join ((f.analyze m table).verdict.mode f.params[i]) := by
  have bound : i < (Signatures.refined s (f.analyze m table)).params.length := by
    rwa [Signatures.refined, List.length_mapIdx]
  rw [Signature.param, List.getD_eq_getElem?_getD, List.getElem?_eq_getElem bound, Option.getD_some]
  simp only [Signatures.refined, List.getElem_mapIdx, analyze_func]

theorem refined_receiver (table : Signatures) (has : s.hasReceiver = true) :
    (Signatures.refined s (f.analyze m table)).receiver =
      s.receiver.join ((f.analyze m table).verdict.mode f.receiver) := if_pos has

theorem refined_again (fits : s.Fits f) {S T : Signatures} (h : S.coarse = T.coarse) :
    (Signatures.refined (Signatures.refined s (f.analyze m S)) (f.analyze m T)).slots.map
        Mode.coarse =
      (Signatures.refined s (f.analyze m S)).slots.map Mode.coarse := by
  have once := refined_fits (m := m) fits S
  have same : ∀ (a : Mode) (b : Nat), a.join ((f.analyze m S).verdict.mode b) ≠ .unresolved →
      ((a.join ((f.analyze m S).verdict.mode b)).join ((f.analyze m T).verdict.mode b)).coarse =
        (a.join ((f.analyze m S).verdict.mode b)).coarse := by
    intro a b known
    exact join_coarse known fun owned => join_owned ((analyze_owned h f b).mpr owned)
  have params : (Signatures.refined (Signatures.refined s (f.analyze m S))
        (f.analyze m T)).params.map Mode.coarse =
      (Signatures.refined s (f.analyze m S)).params.map Mode.coarse := by
    apply List.ext_getElem
    · simp [Signatures.refined]
    · intro i bound _
      have inside : i < f.params.length := by simpa [Signatures.refined] using bound
      have known := once.known _ (once.param_mem inside)
      have param := refined_param (m := m) (s := s) S inside
      rw [param] at known
      simp only [Signatures.refined, List.getElem_map, List.getElem_mapIdx, analyze_func] at param ⊢
      rw [param]
      exact same _ _ known
  simp only [Signature.slots, List.map_append, params]
  by_cases has : s.hasReceiver = true
  · have once' : (Signatures.refined s (f.analyze m S)).hasReceiver = true := has
    have twice : (Signatures.refined (Signatures.refined s (f.analyze m S))
      (f.analyze m T)).hasReceiver = true := has
    have known := once.known _ (Signature.Fits.receiver_mem once')
    rw [refined_receiver S has] at known
    rw [if_pos once', if_pos twice, refined_receiver T once', refined_receiver S has, List.map_cons,
      List.map_cons, same _ _ known]
  · rw [if_neg (show ¬(Signatures.refined s (f.analyze m S)).hasReceiver = true from has),
      if_neg (show ¬(Signatures.refined (Signatures.refined s (f.analyze m S))
        (f.analyze m T)).hasReceiver = true from has)]

end Refined

section Determined

variable {f : FuncDecl} {s t : Signature}

variable (first : s.Fits f) (second : t.Fits f)

include first second

theorem parts_of_slots {α : Type} (g : Mode → α) (same : s.slots.map g = t.slots.map g) :
    s.hasReceiver = t.hasReceiver ∧ g s.receiver = g t.receiver ∧ s.params.map g = t.params.map g := by
  have has := first.receiver.trans second.receiver.symm
  simp only [Signature.slots, has] at same
  refine ⟨has, ?_⟩
  cases h : t.hasReceiver with
  | true => simpa [h] using same
  | false => simpa [h, first.free (has.trans h), second.free h] using same

theorem coarse_of_slots (ext : s.isExtern = t.isExtern)
    (same : s.slots.map Mode.coarse = t.slots.map Mode.coarse) : s.coarse = t.coarse := by
  obtain ⟨has, receiver, params⟩ := parts_of_slots first second Mode.coarse same
  unfold Signature.coarse
  rw [receiver, params, first.name, second.name, has, ext]

theorem agrees_of_slots (same : s.slots = t.slots) : s.agrees t = true := by
  obtain ⟨has, receiver, params⟩ := parts_of_slots first second id (by rw [same])
  rw [List.map_id, List.map_id] at params
  simp [Signature.agrees, has, show s.receiver = t.receiver from receiver, params]

end Determined

abbrev Standing := List (FuncDecl × Signature)

namespace Standing

def table (s : Standing) : Signatures := s.map fun e => (e.1.qualified, e.2)

def names (s : Standing) : List String := s.map (·.1.qualified)

def step (m : Module) (table : Signatures) (e : FuncDecl × Signature) : FuncDecl × Signature :=
  if e.1.isExtern then e else (e.1, Signatures.refined e.2 (e.1.analyze m table))

def next (m : Module) (s : Standing) : Standing := s.map (step m s.table)

def changes (m : Module) (table : Signatures) (s : Standing) : Bool :=
  s.any fun e => !(step m table e).2.agrees e.2

variable {m : Module} {e : FuncDecl × Signature} {done s : Standing} {f : FuncDecl}

theorem step_foreign {table : Signatures} (h : e.1.isExtern = true) : step m table e = e := by
  rw [step, if_pos h]

theorem step_body {table : Signatures} (h : ¬e.1.isExtern = true) :
    step m table e = (e.1, Signatures.refined e.2 (e.1.analyze m table)) := by
  rw [step, if_neg h]

theorem step_fst (m : Module) (table : Signatures) (e : FuncDecl × Signature) :
    (step m table e).1 = e.1 := by
  unfold step
  split <;> rfl

theorem next_fst (m : Module) (s : Standing) : (s.next m).map (·.1) = s.map (·.1) := by
  rw [next, List.map_map]
  exact List.map_congr_left fun e _ => step_fst m s.table e

theorem lookup_table {rest : Standing} {s : Signature} (fresh : f.qualified ∉ done.names) :
    (table (done ++ (f, s) :: rest)).lookup f.qualified = some s := by
  induction done with
  | nil => exact List.lookup_cons_self
  | cons e done ih =>
    simp only [names, List.map_cons, List.mem_cons, not_or] at fresh
    rw [List.cons_append, table, List.map_cons, List.lookup_cons, beq_eq_false_iff_ne.mpr fresh.1]
    exact ih fresh.2

theorem insert_table {rest : Standing} {s : Signature} (t : Signature)
    (fresh : f.qualified ∉ done.names) :
    Signatures.insert (table (done ++ (f, s) :: rest)) f.qualified t =
      table (done ++ (f, t) :: rest) := by
  induction done with
  | nil => simp [table, Signatures.insert]
  | cons e done ih =>
    simp only [names, List.map_cons, List.mem_cons, not_or] at fresh
    simp only [List.cons_append, table, List.map_cons, Signatures.insert]
    rw [if_neg (Ne.symm fresh.1)]
    exact congrArg _ (ih fresh.2)

theorem absorb_foldl (m : Module) (T : Signatures) (todo done : Standing) (flag : Bool)
    (distinct : (names (done ++ todo)).Nodup) :
    (((todo.map (·.1)).filter (!·.isExtern)).map (FuncDecl.analyze m T)).foldl Signatures.absorb
        (table (done ++ todo), flag) =
      (table (done ++ todo.map (step m T)), flag || changes m T todo) := by
  induction todo generalizing done flag with
  | nil => simp [changes]
  | cons e todo ih =>
    obtain ⟨f, s⟩ := e
    have moved : ∀ e : FuncDecl × Signature, done ++ e :: todo = (done ++ [e]) ++ todo := by simp
    have fresh : f.qualified ∉ done.names := by
      rw [names, List.map_append, List.nodup_append] at distinct
      intro member
      exact distinct.2.2 _ member _ (by simp) rfl
    by_cases foreign : f.isExtern = true
    · have kept : step m T (f, s) = (f, s) := step_foreign foreign
      have same : s.agrees s = true := by simp [Signature.agrees]
      rw [moved] at distinct ⊢
      simp only [List.map_cons, List.filter_cons, foreign, Bool.not_true, Bool.false_eq_true,
        if_false]
      rw [ih (done ++ [(f, s)]) flag distinct]
      simp [changes, kept, same]
    · have raised : step m T (f, s) = (f, Signatures.refined s (f.analyze m T)) := step_body foreign
      have one : Signatures.absorb (table (done ++ (f, s) :: todo), flag) (f.analyze m T) =
          (table (done ++ [(f, Signatures.refined s (f.analyze m T))] ++ todo),
            flag || !(Signatures.refined s (f.analyze m T)).agrees s) := by
        have func : (f.analyze m T).func = f := rfl
        simp only [Signatures.absorb, func, lookup_table fresh, Option.getD_some,
          insert_table _ fresh, ← moved]
      have later : (names (done ++ [(f, Signatures.refined s (f.analyze m T))] ++ todo)).Nodup := by
        simpa [names] using distinct
      simp only [List.map_cons, List.filter_cons, foreign, Bool.not_false, if_true,
        List.foldl_cons]
      rw [one, ih _ _ later]
      simp [changes, raised, Bool.or_assoc]

theorem run_next (distinct : (m.funcs.map (·.qualified)).Nodup) (funcs : s.map (·.1) = m.funcs) :
    (Round.run m s.table).next = ((s.next m).table, s.changes m s.table) := by
  rw [← funcs, List.map_map] at distinct
  have all := absorb_foldl m s.table s [] false distinct
  rw [funcs, List.nil_append, List.nil_append, Bool.false_or] at all
  exact all

def Fits (s : Standing) : Prop := ∀ e ∈ s, e.2.Fits e.1

theorem step_fits {T : Signatures} (fits : e.2.Fits e.1) : (step m T e).2.Fits (step m T e).1 := by
  unfold step
  split
  · exact fits
  · exact refined_fits fits T

theorem next_fits (fits : s.Fits) : (s.next m).Fits := by
  intro e member
  obtain ⟨d, there, rfl⟩ := List.mem_map.mp member
  exact step_fits (fits d there)

def total (w : List Mode → Nat) (s : Standing) : Nat :=
  (s.map fun e => if e.1.isExtern then 0 else w e.2.slots).sum

theorem total_cons (w : List Mode → Nat) (e : FuncDecl × Signature) (s : Standing) :
    total w (e :: s) = (if e.1.isExtern then 0 else w e.2.slots) + total w s := List.sum_cons

theorem total_le {v w : List Mode → Nat} (h : ∀ slots, v slots ≤ w slots) (s : Standing) :
    total v s ≤ total w s := by
  induction s with
  | nil => exact Nat.le_refl _
  | cons e s ih =>
    rw [total_cons, total_cons]
    have := h e.2.slots
    split
    · omega
    · omega

section Step

variable {m : Module} {T : Signatures} {s : Standing}

variable {w : List Mode → Nat} {S : Signatures}

theorem total_step (grows : ∀ {xs ys}, Rises xs ys → w xs ≤ w ys)
    (fits : s.Fits) : total w s ≤ total w (s.map (step m T)) := by
  induction s with
  | nil => exact Nat.le_refl _
  | cons e s ih =>
    rw [Fits, List.forall_mem_cons] at fits
    rw [List.map_cons, total_cons, total_cons, step_fst]
    have rest := ih fits.2
    by_cases foreign : e.1.isExtern = true
    · rw [if_pos foreign, if_pos foreign]
      omega
    · have risen := grows (refined_rises (m := m) fits.1 T)
      rw [if_neg foreign, if_neg foreign, step_body foreign]
      dsimp only
      omega

theorem total_same (grows : ∀ {xs ys}, Rises xs ys → w xs ≤ w ys)
    (fits : s.Fits) (same : total w (s.map (step m T)) ≤ total w s) :
    ∀ e ∈ s, e.1.isExtern = false →
      w (Signatures.refined e.2 (e.1.analyze m T)).slots ≤ w e.2.slots := by
  induction s with
  | nil => exact fun e member => absurd member List.not_mem_nil
  | cons e s ih =>
    rw [Fits, List.forall_mem_cons] at fits
    rw [List.map_cons, total_cons, total_cons, step_fst] at same
    have rest := total_step (m := m) (T := T) grows fits.2
    rw [List.forall_mem_cons]
    by_cases foreign : e.1.isExtern = true
    · rw [if_pos foreign, if_pos foreign] at same
      exact ⟨fun body => absurd foreign (by simp [body]), ih fits.2 (by omega)⟩
    · have risen := grows (refined_rises (m := m) fits.1 T)
      rw [if_neg foreign, if_neg foreign, step_body foreign] at same
      dsimp only at same
      exact ⟨fun _ => by omega, ih fits.2 (by omega)⟩

theorem total_length (fits : s.Fits) :
    total List.length (s.map (step m T)) = total List.length s := by
  induction s with
  | nil => rfl
  | cons e s ih =>
    rw [Fits, List.forall_mem_cons] at fits
    rw [List.map_cons, total_cons, total_cons, step_fst, ih fits.2]
    have after := (step_fits (m := m) (T := T) fits.1).slots_length
    rw [step_fst] at after
    rw [after, fits.1.slots_length]

theorem coarse_of_total (fits : s.Fits) (same : total taken (s.map (step m T)) ≤ total taken s) :
    (table (s.map (step m T))).coarse = s.table.coarse := by
  have each := total_same rises_taken fits same
  simp only [Signatures.coarse, table, List.map_map]
  apply List.map_congr_left
  intro e member
  simp only [Function.comp_apply, step_fst, Prod.mk.injEq, true_and]
  by_cases foreign : e.1.isExtern = true
  · rw [step_foreign foreign]
  · rw [step_body foreign]
    refine coarse_of_slots (refined_fits (fits e member) T) (fits e member) rfl ?_
    exact coarse_of_taken (refined_rises (fits e member) T) (fits e member).known
      (each e member (by simpa using foreign))

theorem unchanged_of_total (fits : s.Fits)
    (coarse : total taken (s.map (step m T)) ≤ total taken s)
    (same : total raised (s.map (step m T)) ≤ total raised s) : s.changes m T = false := by
  have owned := total_same rises_taken fits coarse
  have lifted := total_same rises_raised fits same
  rw [changes, List.any_eq_false]
  intro e member
  by_cases foreign : e.1.isExtern = true
  · simp [step_foreign foreign, Signature.agrees]
  · have body : e.1.isExtern = false := by simpa using foreign
    have rises := refined_rises (m := m) (fits e member) T
    have known := (fits e member).known
    have slots := eq_of_raised rises known (coarse_of_taken rises known (owned e member body))
      (lifted e member body)
    have agree := agrees_of_slots (refined_fits (m := m) (fits e member) T) (fits e member) slots
    rw [step_body foreign, agree]
    decide

theorem step_again {e : FuncDecl × Signature} (fits : e.2.Fits e.1) (h : S.coarse = T.coarse) :
    taken (step m T (step m S e)).2.slots = taken (step m S e).2.slots := by
  by_cases foreign : e.1.isExtern = true
  · rw [step_foreign (e := e) foreign, step_foreign foreign]
  · have again := refined_again (m := m) fits h
    generalize made : step m S e = d
    rw [step_body foreign] at made
    have body : ¬d.1.isExtern = true := by
      rw [← made]
      exact foreign
    rw [step_body body, ← made, taken_coarse, again, ← taken_coarse]

theorem taken_again (fits : s.Fits) (h : S.coarse = T.coarse) :
    total taken ((s.map (step m S)).map (step m T)) = total taken (s.map (step m S)) := by
  induction s with
  | nil => simp only [List.map_nil]
  | cons e s ih =>
    rw [Fits, List.forall_mem_cons] at fits
    rw [List.map_cons, List.map_cons, total_cons, total_cons, ih fits.2, step_fst,
      step_again fits.1 h]

end Step

/-- At most `k` more rounds change something: either that few slots are not owned yet, or nothing
becomes owned any more and that few are not exclusive yet. -/
def Within (m : Module) (k : Nat) (s : Standing) : Prop :=
  total List.length s ≤ total taken s + k ∨
    total taken (s.next m) ≤ total taken s ∧ total List.length s ≤ total raised s + k

theorem within_next {k : Nat} (fits : s.Fits) (h : s.Within m k)
    (moves : s.changes m s.table = true) : ∃ j, k = j + 1 ∧ (s.next m).Within m j := by
  have length : total List.length (s.next m) = total List.length s := total_length fits
  have lower := total_le taken_le_raised s
  have upper := total_le raised_le_length (s.next m)
  have top := total_le taken_le_raised (s.next m)
  by_cases calm : total taken (s.next m) ≤ total taken s
  · have lifted : total raised s < total raised (s.next m) := by
      apply Nat.lt_of_not_le
      intro same
      rw [unchanged_of_total fits calm same] at moves
      exact absurd moves (by decide)
    have room : total List.length s ≤ total raised s + k := by
      rcases h with first | ⟨-, second⟩
      · omega
      · exact second
    have still : total taken ((s.next m).next m) ≤ total taken (s.next m) :=
      Nat.le_of_eq (taken_again fits (coarse_of_total fits calm).symm)
    exact ⟨k - 1, by omega, .inr ⟨still, by omega⟩⟩
  · rcases h with first | ⟨second, -⟩
    · exact ⟨k - 1, by omega, .inl (by omega)⟩
    · exact absurd second calm

theorem rounds_within (distinct : (m.funcs.map (·.qualified)).Nodup) (limit : Nat)
    {k : Nat} (funcs : s.map (·.1) = m.funcs) (fits : s.Fits) (h : s.Within m k)
    (enough : k ≤ limit) :
    (Round.rounds m limit s.table).length ≤ k + 1 ∧
      ∃ r, (Round.rounds m limit s.table).getLast? = some r ∧ r.isStable = true := by
  induction limit generalizing k s with
  | zero =>
    refine ⟨by simp [Round.rounds], Round.run m s.table, rfl, ?_⟩
    rw [Round.isStable, run_next distinct funcs, Bool.not_eq_true', Bool.eq_false_iff]
    intro moves
    obtain ⟨j, more, -⟩ := within_next fits h moves
    omega
  | succ limit ih =>
    rw [Round.rounds, run_next distinct funcs]
    by_cases moves : s.changes m s.table = true
    · obtain ⟨j, rfl, rest⟩ := within_next fits h moves
      have later : (s.next m).map (·.1) = m.funcs := (next_fst m s).trans funcs
      obtain ⟨few, r, last, stable⟩ := ih later (next_fits fits) rest (by omega)
      simp only [moves, if_true, List.length_cons, List.getLast?_cons, last, Option.getD_some]
      exact ⟨by omega, r, rfl, stable⟩
    · simp only [moves, Bool.false_eq_true, if_false]
      refine ⟨by simp, Round.run m s.table, rfl, ?_⟩
      rw [Round.isStable, run_next distinct funcs]
      simpa using moves

def seed (m : Module) : Standing := m.funcs.map fun f => (f, Signatures.seedOf m f)

theorem seed_fst (m : Module) : (seed m).map (·.1) = m.funcs := by
  rw [seed, List.map_map]
  exact List.map_id _

theorem insert_fresh (f : FuncDecl) (t : Signature) (fresh : f.qualified ∉ s.names) :
    Signatures.insert s.table f.qualified t = table (s ++ [(f, t)]) := by
  induction s with
  | nil => rfl
  | cons e s ih =>
    simp only [names, List.map_cons, List.mem_cons, not_or] at fresh
    simp only [List.cons_append, table, List.map_cons, Signatures.insert]
    rw [if_neg (Ne.symm fresh.1)]
    exact congrArg _ (ih fresh.2)

theorem seed_foldl (m : Module) (todo : List FuncDecl) (done : Standing)
    (distinct : (done.names ++ todo.map (·.qualified)).Nodup) :
    todo.foldl (fun table f => Signatures.insert table f.qualified (Signatures.seedOf m f))
        done.table =
      table (done ++ todo.map fun f => (f, Signatures.seedOf m f)) := by
  induction todo generalizing done with
  | nil => simp
  | cons f todo ih =>
    have fresh : f.qualified ∉ done.names := by
      intro member
      exact (List.nodup_append.mp distinct).2.2 _ member _ (by simp) rfl
    rw [List.foldl_cons, insert_fresh f _ fresh, ih]
    · simp
    · simpa [names] using distinct

theorem seed_table (distinct : (m.funcs.map (·.qualified)).Nodup) :
    Signatures.seed m = (seed m).table :=
  seed_foldl m m.funcs [] distinct

end Standing

def Module.slots (m : Module) : Nat := ((m.funcs.filter (!·.isExtern)).map FuncDecl.slots).sum

theorem Standing.seed_length (m : Module) :
    total List.length (seed m) = m.slots := by
  unfold seed Module.slots
  induction m.funcs with
  | nil => rfl
  | cons f funcs ih =>
    rw [List.map_cons, total_cons, ih, (Signature.Fits.seed m f).slots_length]
    by_cases foreign : f.isExtern = true
    · simp [foreign]
    · simp [foreign]

theorem slots_bounded (m : Module) : m.slots + 4 ≤ Analysis.roundBound m := by
  have all : ∀ (funcs : List FuncDecl) (n : Nat),
      ((funcs.filter (!·.isExtern)).map FuncDecl.slots).sum + n ≤
        funcs.foldl (fun n f => n + f.params.length + 1) n := by
    intro funcs
    induction funcs with
    | nil => simp
    | cons f funcs ih =>
      intro n
      have rest := ih (n + f.params.length + 1)
      have own : f.slots ≤ f.params.length + 1 := by
        unfold FuncDecl.slots
        split <;> omega
      rw [List.foldl_cons, List.filter_cons]
      split
      · rw [List.map_cons, List.sum_cons]
        omega
      · omega
  exact all m.funcs 4

theorem analysis_last {m : Module} {P : Signatures → Prop} (seed : P (Signatures.seed m))
    (next : ∀ T, P T → P (Round.run m T).next.1) (limit : Int) :
    ∃ T, P T ∧ (Analysis.of m limit).last = Round.run m T := by
  have all : ∀ (n : Nat) (T : Signatures), P T →
      ∃ U, P U ∧ (Round.rounds m n T).getLast? = some (Round.run m U) := by
    intro n
    induction n with
    | zero => exact fun T holds => ⟨T, holds, rfl⟩
    | succ n ih =>
      intro T holds
      unfold Round.rounds
      dsimp only
      split
      · obtain ⟨U, good, last⟩ := ih _ (next T holds)
        exact ⟨U, good, by rw [List.getLast?_cons, last]; rfl⟩
      · exact ⟨T, holds, rfl⟩
  obtain ⟨T, good, last⟩ := all (Analysis.limitOf m limit) _ seed
  exact ⟨T, good, congrArg (Option.getD · _) last⟩

theorem analysis_funcs (m : Module) (limit : Int) :
    (Analysis.of m limit).funcs =
      (m.funcs.filter (!·.isExtern)).map (FuncDecl.analyze m (Analysis.of m limit).table) := by
  obtain ⟨T, -, final⟩ := analysis_last (P := fun _ => True) trivial (fun _ => id) limit
  rw [Analysis.funcs, Analysis.table, final]
  rfl

section InStep

structure FuncAnalysis.Peers (f g : FuncAnalysis) : Prop where
  name : g.func.qualified = f.func.qualified
  receiver : g.func.receiver = f.func.receiver
  params : g.func.params = f.func.params
  modes : g.verdict.modes = f.verdict.modes

theorem advance_peers {fs gs : List FuncAnalysis} (peers : List.Forall₂ FuncAnalysis.Peers fs gs)
    (table : Signatures) : table.advance gs = table.advance fs := by
  unfold Signatures.advance
  generalize (table, false) = start
  induction peers generalizing start with
  | nil => rfl
  | @cons f g _ _ head _ ih =>
    have step : Signatures.absorb start g = Signatures.absorb start f := by
      simp only [Signatures.absorb, Signatures.refined, Verdict.mode, head.name, head.receiver,
        head.params, head.modes]
    rw [List.foldl_cons, List.foldl_cons, step, ih]

theorem rounds_in_step {m n : Module} {R : Round → Round → Prop}
    (run : ∀ table, R (Round.run m table) (Round.run n table))
    (next : ∀ {r s : Round}, R r s → s.next = r.next) (limit : Nat) (table : Signatures) :
    List.Forall₂ R (Round.rounds m limit table) (Round.rounds n limit table) := by
  induction limit generalizing table with
  | zero => exact .cons (run table) .nil
  | succ limit ih =>
    have first := run table
    rw [Round.rounds, Round.rounds]
    simp only [next first]
    split
    · exact .cons first (ih _)
    · exact .cons first .nil

variable {α : Type} {R : α → α → Prop} {xs ys : List α}

theorem last_in_step (step : List.Forall₂ R xs ys) {x y : α} (other : R x y) :
    R (xs.getLast?.getD x) (ys.getLast?.getD y) := by
  induction step generalizing x y with
  | nil => exact other
  | cons head _ ih =>
    rw [List.getLast?_cons, List.getLast?_cons]
    exact ih head

theorem find_in_step {p : α → Bool} (step : List.Forall₂ R xs ys)
    (same : ∀ {x y : α}, R x y → p y = p x) : Option.Rel R (xs.find? p) (ys.find? p) := by
  induction step with
  | nil => exact .none
  | cons head _ ih =>
    rw [List.find?_cons, List.find?_cons, same head]
    split
    · exact .some head
    · exact ih

end InStep

/-- An analysis ends by itself, after one round more than there are slots at the latest. -/
theorem analysis_settles {m : Module} (distinct : (m.funcs.map (·.qualified)).Nodup) :
    (Analysis.of m).converged = true ∧ (Analysis.of m).rounds ≤ m.slots + 1 ∧
      (Analysis.of m).rounds < Analysis.roundBound m ∧ (Analysis.of m).hitLimit = false := by
  have fits : (Standing.seed m).Fits := by
    intro e member
    obtain ⟨f, -, rfl⟩ := List.mem_map.mp member
    exact .seed m f
  have start : (Standing.seed m).Within m m.slots := by
    left
    rw [Standing.seed_length]
    omega
  have bound := slots_bounded m
  obtain ⟨few, r, last, stable⟩ :=
    Standing.rounds_within distinct (Analysis.roundBound m) (Standing.seed_fst m) fits
      start (by omega)
  rw [← Standing.seed_table distinct] at few last
  have rounds : (Analysis.of m).rounds ≤ m.slots + 1 := few
  have final : (Analysis.of m).last = r := congrArg (Option.getD · _) last
  refine ⟨by rw [Analysis.converged, final, stable], rounds, by omega, ?_⟩
  have limit : (Analysis.of m).limit = Analysis.roundBound m := rfl
  rw [Analysis.hitLimit, limit, decide_eq_false_iff_not]
  omega

namespace Sample

def leaf (name : String) (binding : Nat) : Expr :=
  .node { Sketch.blank .ident .string with name, binding } (.absent 0) (.absent 0) [] [] (.absent 0)
    (.absent 0)

def plain (kind : StmtKind) (value : Expr) : Stmt :=
  .node ⟨1, kind, Range.zero, 0, ""⟩ (.absent 0) value [] (.absent 0)

def unary (id : Nat) (name : String) (param : Nat) (body : List Stmt) : FuncDecl :=
  { id, name, receiver := 0, owner := "", params := [param], result := .string, body
    isExtern := false, span := Range.zero }

def relayed : Module :=
  { name := "relayed", path := "relayed.kl", file := 0, structs := []
    funcs := [
      unary 1 "pass" 1 [plain .eval
        (.node { Sketch.blank .call .string with id := 2, name := "keep", target := "keep" } (.absent 0)
          (.absent 0) [leaf "given" 1] [] (.absent 0) (.absent 0))],
      unary 2 "keep" 2 [plain .give (leaf "kept" 2)]]
    exprs := #[], stmts := #[]
    bindings := #[
      ⟨1, "given", .param, .string, false, .none, 0, Range.zero⟩,
      ⟨2, "kept", .param, .string, false, .none, 0, Range.zero⟩] }

end Sample

theorem relayed_settles :
    Sample.relayed.slots = 2 ∧ (Analysis.of Sample.relayed).rounds = 3 ∧
      (Analysis.of Sample.relayed).converged = true ∧
      (Analysis.of Sample.relayed).rounds ≤ Sample.relayed.slots + 1 ∧
      (Analysis.of Sample.relayed).rounds < Analysis.roundBound Sample.relayed := by
  have settles := analysis_settles (m := Sample.relayed) (by decide +kernel)
  exact ⟨by decide, by decide +kernel, settles.1, settles.2.1, settles.2.2.1⟩

end Tenure
