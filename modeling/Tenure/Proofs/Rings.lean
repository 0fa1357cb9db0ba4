import Mathlib.Data.List.Rotate
import Tenure.Trace.Ring

/- What a ring keeps. Read from the place that is taken next, its places hold the latest of all that
   came, and empty ones come first; so a snapshot is the end of the list of events that pass. -/
namespace Tenure.Trace.Ring

variable {level : Level} {places : Nat} {r : Ring} {told : List Event}

structure Remembers (level : Level) (places : Nat) (r : Ring) (told : List Event) : Prop where
  level : r.level = level
  size : r.slots.toList.length = places
  head : r.head = told.length % places
  full : r.full = true ↔ places ≤ told.length
  turned : r.slots.toList.rotate r.head =
    (List.replicate places none ++ told.map some).drop told.length

theorem empty_remembers (level : Level) (room : 0 < places) :
    Remembers level places { level, slots := Array.replicate places none } [] where
  level := rfl
  size := by simp
  head := (Nat.zero_mod _).symm
  full := ⟨Bool.noConfusion, fun none => absurd room (Nat.not_lt.mpr none)⟩
  turned := by simp

theorem rotate_set {α : Type} {xs : List α} {i : Nat} (h : i < xs.length) (a : α) :
    (xs.set i a).rotate ((i + 1) % xs.length) = (xs.rotate i).tail ++ [a] := by
  have wrap := List.rotate_mod (xs.set i a) (i + 1)
  rw [List.length_set] at wrap
  rw [wrap, List.rotate_eq_drop_append_take (by simpa using Nat.succ_le_of_lt h),
    List.rotate_eq_drop_append_take (Nat.le_of_lt h), List.drop_set_of_lt (Nat.lt_succ_self i),
    List.take_succ_eq_append_getElem (by simpa using h), List.getElem_set_self,
    List.take_set_of_le (Nat.le_refl i), List.drop_eq_getElem_cons h, List.cons_append,
    List.tail_cons, List.append_assoc]

theorem emit_remembers (h : Remembers level places r told) (room : 0 < places) {e : Event}
    (passes : level.passes e = true) : Remembers level places (r.emit e) (told ++ [e]) := by
  have place : r.head < r.slots.toList.length := by
    rw [h.size, h.head]
    exact Nat.mod_lt _ room
  have next : (r.head + 1) % places = (told.length + 1) % places := by rw [h.head, Nat.mod_add_mod]
  have size : r.slots.size = places := h.size
  rw [emit, if_pos (h.level ▸ passes)]
  refine ⟨h.level, by simpa using size, by simpa [size] using next, ?_, ?_⟩
  · -- A ring that is not full has not come round yet; it does now if this was its last place.
    simp only [Bool.or_eq_true, h.full, size, next, beq_iff_eq, List.length_append,
      List.length_singleton]
    constructor
    · rintro (old | round)
      · exact Nat.le_succ_of_le old
      · exact Nat.le_of_dvd (Nat.succ_pos _) (Nat.dvd_of_mod_eq_zero round)
    · intro enough
      rcases Nat.eq_or_lt_of_le enough with last | old
      · exact .inr (last ▸ Nat.mod_self _)
      · exact .inl (Nat.le_of_lt_succ old)
  · have step := rotate_set place (some e)
    rw [h.turned, h.size, List.tail_drop] at step
    have longer : told.length + 1 ≤ (List.replicate places none ++ told.map some).length := by
      rw [List.length_append, List.length_replicate, List.length_map, Nat.add_comm]
      exact Nat.add_le_add_right room _
    simp only [Array.set!_eq_setIfInBounds, Array.toList_setIfInBounds, size, step]
    rw [List.map_append, ← List.append_assoc, List.length_append]
    exact (List.drop_append_of_le_length longer).symm

theorem emitAll_remembers (h : Remembers level places r told) (room : 0 < places) (es : List Event) :
    Remembers level places (r.emitAll es) (told ++ es.filter level.passes) := by
  induction es generalizing r told with
  | nil => simpa [emitAll] using h
  | cons e es ih =>
    by_cases passes : level.passes e = true
    · have rest := ih (emit_remembers h room passes)
      rwa [List.append_assoc, List.singleton_append, ← List.filter_cons_of_pos passes] at rest
    · have same : r.emit e = r := if_neg (h.level ▸ passes)
      rw [List.filter_cons_of_neg passes, emitAll, List.foldl_cons, same]
      exact ih h

theorem snapshot_of_remembers (h : Remembers level places r told) (room : 0 < places) :
    r.snapshot = told.drop (told.length - places) := by
  have turned := h.turned
  rw [List.rotate_eq_drop_append_take (by rw [h.size, h.head]; exact Nat.le_of_lt (Nat.mod_lt _ room))]
    at turned
  rcases Nat.lt_or_ge told.length places with few | enough
  · have unfilled : ¬ r.full = true := fun full => Nat.not_lt.mpr (h.full.mp full) few
    rw [List.drop_append_of_le_length (by simpa using Nat.le_of_lt few), List.drop_replicate] at turned
    have kept := List.append_inj_right turned
      (by simp only [List.length_drop, h.size, h.head, Nat.mod_eq_of_lt few, List.length_replicate])
    simp [snapshot, unfilled, kept, Nat.sub_eq_zero_of_le (Nat.le_of_lt few)]
  · simp only [snapshot, h.full.mpr enough, if_true, turned]
    rw [List.drop_append, List.drop_eq_nil_of_le (by simpa using enough), List.length_replicate,
      List.nil_append, ← List.map_drop, List.filterMap_map]
    exact List.filterMap_some

/-- A snapshot is the end of the events that pass, in the order in which they came: all of them, or as
many as there are places. -/
theorem snapshot_holds_latest (capacity : Int) (level : Level) (es : List Event) :
    let told := es.filter fun e => level.tells e.scope || e.kind == .heartbeat
    let kept := ((new capacity level).emitAll es).snapshot
    kept <:+ told ∧
      kept.length = min told.length (if capacity ≤ 0 then defaultCapacity else capacity.toNat) := by
  intro told kept
  have room : 0 < if capacity ≤ 0 then defaultCapacity else capacity.toNat := by
    rw [defaultCapacity]
    split <;> omega
  have latest : kept = told.drop (told.length - _) :=
    snapshot_of_remembers (emitAll_remembers (empty_remembers level room) room es) room
  rw [latest]
  refine ⟨List.drop_suffix _ _, ?_⟩
  rw [List.length_drop]
  omega

end Tenure.Trace.Ring
