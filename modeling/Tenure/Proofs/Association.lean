import Mathlib.Data.List.Forall2
import Tenure.Ownership.Collect

/- Lists of entries under keys, in which the first entry under a key counts, keys that are listed
   once, and lists that are made entry by entry. -/
namespace Tenure

section Updates

variable {α β κ : Type} [DecidableEq κ] {key : α → κ} {k : κ} {new : α} {grow : α → α}
  {put : List α → List α}

/-- The first entry under a key is changed, or a new one is added behind all others. -/
structure Updates (key : α → κ) (k : κ) (new : α) (grow : α → α) (put : List α → List α) : Prop where
  nil : put [] = [new]
  cons (a : α) (as : List α) : put (a :: as) = if key a = k then grow a :: as else a :: put as

namespace Updates

theorem cases (updates : Updates key k new grow put) (as : List α) :
    (∃ front a back, as = front ++ a :: back ∧ k ∉ front.map key ∧ key a = k ∧
      put as = front ++ grow a :: back) ∨ k ∉ as.map key ∧ put as = as ++ [new] := by
  induction as with
  | nil => exact .inr ⟨List.not_mem_nil, updates.nil⟩
  | cons a as ih =>
    rw [updates.cons]
    by_cases mine : key a = k
    · exact .inl ⟨[], a, as, rfl, List.not_mem_nil, mine, if_pos mine⟩
    · have out {bs : List α} (rest : k ∉ bs.map key) : k ∉ (a :: bs).map key :=
        List.not_mem_cons_of_ne_of_not_mem (Ne.symm mine) rest
      rw [if_neg mine]
      rcases ih with ⟨front, b, back, rfl, before, own, same⟩ | ⟨rest, same⟩
      · exact .inl ⟨a :: front, b, back, rfl, out before, own, congrArg _ same⟩
      · exact .inr ⟨out rest, congrArg _ same⟩

theorem forall_mem (updates : Updates key k new grow put) {P : α → Prop} {as : List α}
    (all : ∀ a ∈ as, P a) (added : P new) (grown : ∀ a, P a → P (grow a)) : ∀ a ∈ put as, P a := by
  rcases updates.cases as with ⟨front, a, back, rfl, -, -, same⟩ | ⟨-, same⟩
  · rw [same]
    rw [List.forall_mem_append, List.forall_mem_cons] at all ⊢
    exact ⟨all.1, grown a all.2.1, all.2.2⟩
  · rw [same]
    exact List.forall_mem_append.mpr ⟨all, List.forall_mem_singleton.mpr added⟩

theorem keys (updates : Updates key k new grow put) (own : key new = k)
    (same : ∀ a, key a = k → key (grow a) = k) (as : List α) :
    (put as).map key = if k ∈ as.map key then as.map key else as.map key ++ [k] := by
  rcases updates.cases as with ⟨front, a, back, rfl, -, mine, put⟩ | ⟨out, put⟩
  · rw [put, if_pos (by simp [mine]), List.map_append, List.map_append, List.map_cons, List.map_cons,
      same a mine, mine]
  · rw [put, if_neg out, List.map_append, List.map_singleton, own]

theorem find [BEq κ] [LawfulBEq κ] (updates : Updates key k new grow put) (own : key new = k)
    (same : ∀ a, key a = k → key (grow a) = k) (as : List α) (b : κ) :
    (put as).find? (key · == b) =
      if k = b then some (((as.find? (key · == b)).map grow).getD new)
      else as.find? (key · == b) := by
  have missing {as : List α} (out : k ∉ as.map key) : as.find? (key · == k) = none := by
    rw [List.find?_eq_none]
    intro a member mine
    exact out (List.mem_map.mpr ⟨a, member, by simpa using mine⟩)
  rcases updates.cases as with ⟨front, a, back, rfl, before, mine, put⟩ | ⟨out, put⟩
  · rw [put, List.find?_append, List.find?_append, List.find?_cons, List.find?_cons, same a mine, mine]
    by_cases here : k = b
    · subst here
      simp [missing before]
    · rw [if_neg here, beq_eq_false_iff_ne.mpr here]
  · rw [put, List.find?_append, List.find?_singleton, own]
    by_cases here : k = b
    · subst here
      simp [missing out]
    · simp [here]

theorem map {key' : β → κ} {new' : β} {grow' : β → β} {put' : List β → List β}
    (updates : Updates key k new grow put) (updates' : Updates key' k new' grow' put') (f : α → β)
    (keys : ∀ a, key' (f a) = key a) (added : f new = new') (grown : ∀ a, f (grow a) = grow' (f a))
    (as : List α) : (put as).map f = put' (as.map f) := by
  induction as with
  | nil => rw [updates.nil, List.map_nil, updates'.nil, List.map_singleton, added]
  | cons a as ih =>
    rw [updates.cons, List.map_cons, updates'.cons, keys, apply_ite (List.map f), List.map_cons,
      List.map_cons, grown, ih]

end Updates

omit [DecidableEq κ] in
theorem lookup_eq_find [BEq κ] [LawfulBEq κ] (kvs : List (κ × β)) (b : κ) :
    kvs.lookup b = (kvs.find? (·.1 == b)).map (·.2) := by
  induction kvs with
  | nil => rfl
  | cons a kvs ih =>
    rw [List.lookup_cons, List.find?_cons, BEq.comm, ih]
    split <;> rfl

theorem lookup_set [BEq κ] [LawfulBEq κ] (set : List (κ × β) → List (κ × β)) {value : β}
    (sets : Updates Prod.fst k (k, value) (fun _ => (k, value)) set) (kvs : List (κ × β)) (b : κ) :
    (set kvs).lookup b = if b = k then some value else kvs.lookup b := by
  rw [lookup_eq_find, lookup_eq_find, sets.find rfl (fun _ _ => rfl)]
  by_cases mine : k = b
  · rw [if_pos mine, if_pos mine.symm]
    cases kvs.find? (·.1 == b) <;> rfl
  · rw [if_neg mine, if_neg (Ne.symm mine)]

theorem addEvent_updates (e : Event) : Updates (·.binding) e.binding
    { binding := e.binding, events := [e] } (fun u => { u with events := u.events ++ [e] })
    (Collector.addEvent e) := ⟨rfl, fun _ _ => rfl⟩

theorem addCapture_updates (b : Nat) (access : Access) (span : Range) : Updates (·.binding) b
    (Capture.add { binding := b, span } access) (·.add access) (addCapture b access span) :=
  ⟨rfl, fun _ _ => rfl⟩

theorem insert_updates (name : String) (s : Signature) :
    Updates Prod.fst name (name, s) (fun _ => (name, s)) (Signatures.insert · name s) :=
  ⟨rfl, fun _ _ => rfl⟩

end Updates

theorem eraseDups_nodup {α : Type} [BEq α] [LawfulBEq α] (as : List α) : as.eraseDups.Nodup := by
  induction size : as.length using Nat.strongRecOn generalizing as with
  | ind n ih =>
    cases as with
    | nil => simp
    | cons a as =>
      rw [List.eraseDups_cons, List.nodup_cons, List.mem_eraseDups]
      have shorter := List.length_filter_le (fun b => !b == a) as
      rw [List.length_cons] at size
      exact ⟨by simp, ih _ (by omega) _ rfl⟩

section Steps

variable {α β ε : Type}

theorem ok_of_bind {x : Except ε α} {f : α → Except ε β} {b : β} (done : x >>= f = .ok b) :
    ∃ a, x = .ok a ∧ f a = .ok b := by
  cases x with
  | error e => cases done
  | ok a => exact ⟨a, rfl, done⟩

theorem mapM_ok {f : α → Except ε β} {xs : List α} {ys : List β} (done : xs.mapM f = .ok ys) :
    List.Forall₂ (fun x y => f x = .ok y) xs ys := by
  induction xs generalizing ys with
  | nil =>
    cases done
    exact .nil
  | cons x xs ih =>
    rw [List.mapM_cons] at done
    obtain ⟨y, first, done⟩ := ok_of_bind done
    obtain ⟨ys, rest, done⟩ := ok_of_bind done
    cases done
    exact .cons first (ih rest)

end Steps

end Tenure
