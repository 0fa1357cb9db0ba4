import Tenure.Build.Native
import Tenure.Command.Report
import Tenure.Proofs.Bags
import Tenure.Proofs.Modes
import Tenure.Proofs.Rounds

/- Which findings a build ends with. A bag with a limit keeps what comes first, and of records that
   count as one only the first is told. So an error can be lost behind warnings; it is not when nothing
   but errors is said, or when there is room for everything and no warning stands in for it. -/
namespace Tenure

namespace Relay

def Same (r : Relay) (a b : RawDiagnostic) : Prop :=
  ((r.tell a).kind ≠ .unrecognized ∧ (r.tell b).kind ≠ .unrecognized ∧
      (r.tell a).key = (r.tell b).key) ∨
    ((r.tell a).kind = .unrecognized ∧ (r.tell b).kind = .unrecognized ∧ keyOf a = keyOf b)

def Unshadowed (r : Relay) (records : List RawDiagnostic) : Prop :=
  records.Pairwise fun a b => r.Same a b → b.severity = .error → a.severity = .error

def news (r : Relay) (known : List (Code × Range)) (unknown : List RecordKey) :
    List RawDiagnostic → List Diagnostic
  | [] => []
  | d :: ds =>
    if (r.tell d).kind ≠ .unrecognized then
      if known.contains (r.tell d).key then r.news known unknown ds
      else r.tell d :: r.news ((r.tell d).key :: known) unknown ds
    else if unknown.contains (keyOf d) then r.news known unknown ds
    else r.tell d :: r.news known (keyOf d :: unknown) ds

variable {r : Relay} {known : List (Code × Range)} {unknown : List RecordKey}
  {records : List RawDiagnostic}

theorem tell_severity (r : Relay) (d : RawDiagnostic) : (r.tell d).severity = d.severity := by
  unfold tell
  dsimp only
  split <;> rfl

theorem isError_tell {d : RawDiagnostic} (error : d.severity = .error) : (r.tell d).isError = true := by
  rw [Diagnostic.isError, tell_severity, error]
  rfl

theorem gather_news (r : Relay) (g : Gathered) (records : List RawDiagnostic) :
    (records.foldl r.gather g).bag = g.bag.addAll (r.news g.known.seen g.unknown records) := by
  induction records generalizing g with
  | nil => rfl
  | cons d ds ih =>
    rw [List.foldl_cons, ih, news]
    by_cases recognized : (r.tell d).kind ≠ .unrecognized
    · by_cases told : g.known.seen.contains (r.tell d).key = true
      · simp only [gather, if_pos recognized, DedupReporter.report, if_pos told]
      · simp only [gather, if_pos recognized, DedupReporter.report, if_neg told]
        rfl
    · by_cases told : g.unknown.contains (keyOf d) = true
      · simp only [gather, if_neg recognized, if_pos told]
      · simp only [gather, if_neg recognized, if_neg told]
        rfl

variable {d : Diagnostic} {e : RawDiagnostic}

theorem mem_tellAll : d ∈ r.tellAll ↔ d ∈ fitting r.limit (r.news [] [] r.records) := by
  unfold tellAll
  rw [Bag.mem_sort, gather_news, Bag.addAll_items (Bag.sized_empty _)]
  rfl

theorem news_ne_nil (some : records ≠ []) : r.news [] [] records ≠ [] := by
  cases records with
  | nil => exact absurd rfl some
  | cons a as =>
    unfold news
    split <;> simp

def recordKey (r : Relay) (a : RawDiagnostic) : (Code × Range) ⊕ RecordKey :=
  if (r.tell a).kind ≠ .unrecognized then .inl (r.tell a).key else .inr (keyOf a)

theorem same_iff {a b : RawDiagnostic} : r.Same a b ↔ r.recordKey a = r.recordKey b := by
  unfold Same recordKey
  by_cases first : (r.tell a).kind = .unrecognized <;>
    by_cases second : (r.tell b).kind = .unrecognized <;> simp [first, second]

theorem news_eq_firsts {seen : List ((Code × Range) ⊕ RecordKey)}
    (known_iff : ∀ k, .inl k ∈ seen ↔ k ∈ known) (unknown_iff : ∀ k, .inr k ∈ seen ↔ k ∈ unknown) :
    r.news known unknown records = (firsts r.recordKey seen records).map r.tell := by
  induction records generalizing known unknown seen with
  | nil => rfl
  | cons a as ih =>
    by_cases recognized : (r.tell a).kind ≠ .unrecognized
    · have key : r.recordKey a = .inl (r.tell a).key := if_pos recognized
      by_cases told : (r.tell a).key ∈ known
      · rw [news, if_pos recognized, if_pos (List.contains_iff_mem.mpr told), ih known_iff unknown_iff,
          firsts_seen (key ▸ (known_iff _).mpr told)]
      · rw [news, if_pos recognized, if_neg (told ∘ List.contains_iff_mem.mp),
          firsts_new (key ▸ told ∘ (known_iff _).mp), List.map_cons, key]
        exact congrArg _ (ih (by simp [known_iff]) (by simp [unknown_iff]))
    · have key : r.recordKey a = .inr (keyOf a) := if_neg recognized
      by_cases told : keyOf a ∈ unknown
      · rw [news, if_neg recognized, if_pos (List.contains_iff_mem.mpr told), ih known_iff unknown_iff,
          firsts_seen (key ▸ (unknown_iff _).mpr told)]
      · rw [news, if_neg recognized, if_neg (told ∘ List.contains_iff_mem.mp),
          firsts_new (key ▸ told ∘ (unknown_iff _).mp), List.map_cons, key]
        exact congrArg _ (ih (by simp [known_iff]) (by simp [unknown_iff]))

theorem news_start (r : Relay) (records : List RawDiagnostic) :
    r.news [] [] records = (firsts r.recordKey [] records).map r.tell :=
  news_eq_firsts (by simp) (by simp)

theorem news_error (unshadowed : r.Unshadowed records) (mem : e ∈ records)
    (error : e.severity = .error) : ∃ d ∈ r.news [] [] records, d.isError = true := by
  obtain ⟨b, told, same, earlier⟩ := firsts_stand_in r.recordKey unshadowed mem List.not_mem_nil
  rw [news_start]
  refine ⟨r.tell b, List.mem_map_of_mem told, isError_tell ?_⟩
  rcases earlier with rfl | before
  · exact error
  · exact before (same_iff.mpr same) error

theorem tellAll_of_errors (errors : ∀ a ∈ r.records, a.severity = .error) :
    (∀ d ∈ r.tellAll, d.isError = true) ∧ (r.records ≠ [] → r.tellAll ≠ []) := by
  constructor
  · intro d mem
    have told := mem_of_mem_fitting (mem_tellAll.mp mem)
    rw [news_start] at told
    obtain ⟨a, first, rfl⟩ := List.mem_map.mp told
    exact isError_tell (errors a ((firsts_sublist _ _ _).subset first))
  · intro some none
    have first := fitting_ne_nil r.limit (news_ne_nil (r := r) some)
    obtain ⟨d, mem⟩ := List.exists_mem_of_ne_nil _ first
    rw [← mem_tellAll, none] at mem
    cases mem

theorem tellAll_of_room (room : r.limit ≤ 0 ∨ r.records.length ≤ r.limit)
    (unshadowed : r.Unshadowed r.records) (mem : e ∈ r.records)
    (error : e.severity = .error) : ∃ d ∈ r.tellAll, d.isError = true := by
  obtain ⟨d, told, graver⟩ := news_error unshadowed mem error
  refine ⟨d, mem_tellAll.mpr ?_, graver⟩
  rw [fitting_of_le]
  · exact told
  · have short := (firsts_sublist r.recordKey [] r.records).length_le
    rw [news_start, List.length_map]
    omega

end Relay

section Local

def Diagnostic.IsLocal (d : Diagnostic) : Prop := d.severity = .error ∧ d.kind.isLocal = true

variable {d : Diagnostic}

theorem provide_refused {b : Binding} {declLoop : Nat} {e : Event} {later : List Event}
    (refused : provide b declLoop e later = .refused d) : d.IsLocal := by
  unfold provide at refused
  split at refused
  · cases refused
  · dsimp only at refused
    split at refused
    · cases refused
    · split at refused
      · cases refused
        exact ⟨rfl, rfl⟩
      · split at refused
        · cases refused
        · cases refused
          exact ⟨rfl, rfl⟩

theorem provisions_refused {b : Binding} {declLoop : Nat} {es : List Event}
    (mem : d ∈ (provisions b declLoop es).filterMap Provision.finding?) : d.IsLocal := by
  obtain ⟨x, there, refused⟩ := List.mem_filterMap.mp mem
  obtain ⟨front, e, later, -, rfl⟩ := mem_provisions there
  cases made : provide b declLoop e later <;> rw [made] at refused <;> cases refused
  exact provide_refused made

theorem settle_findings (b : Binding) (u : Usage) :
    ∀ d ∈ (b.settle u).findings, d.IsLocal := by
  intro d mem
  unfold Binding.settle at mem
  dsimp only at mem
  split at mem
  · simp only [List.mem_append, Option.mem_toList, Option.map_eq_some_iff] at mem
    rcases mem with ⟨e, -, rfl⟩ | ⟨e, -, rfl⟩ <;> exact ⟨rfl, rfl⟩
  · simp only [Option.mem_toList, Option.map_eq_some_iff] at mem
    obtain ⟨e, -, rfl⟩ := mem
    exact ⟨rfl, rfl⟩
  · have illegal : d ∈ ((u.events.find? fun e => e.isMutation && !b.allows e).map b.immutable).toList →
        d.IsLocal := by
      intro mem
      simp only [Option.mem_toList, Option.map_eq_some_iff] at mem
      obtain ⟨e, -, rfl⟩ := mem
      exact ⟨rfl, rfl⟩
    split at mem
    · exact illegal mem
    · split at mem
      · rcases List.mem_append.mp mem with mem | mem
        · exact illegal mem
        · exact provisions_refused mem
      · exact illegal mem

def Verdict.Grave (v : Verdict) : Prop := ∀ d ∈ v.findings, d.IsLocal

theorem Verdict.Grave.settle {v : Verdict} (grave : v.Grave) (m : Module) (c : Collection) (b : Nat) :
    (v.settle m c b).Grave := by
  unfold Verdict.settle
  split
  · exact grave
  · intro d mem
    rcases List.mem_append.mp mem with old | new
    · exact grave d old
    · exact settle_findings _ _ d new

theorem resolve_findings (m : Module) (c : Collection) :
    ∀ d ∈ (c.resolve m).2.findings, d.IsLocal := by
  have keeps : SettlingKeeps m fun _ v => v.Grave :=
    ⟨fun grave b => grave.settle m _ b, fun grave _ => grave, fun grave _ => grave⟩
  obtain ⟨-, -, -, findings⟩ := c.resolve_eq m
  intro d mem
  rcases List.mem_append.mp (findings.mem_iff.mp mem) with old | part
  · exact keeps.settled (fun d mem => by cases mem) d old
  · obtain ⟨provision, made, refused⟩ := List.mem_filterMap.mp part
    obtain ⟨p, -, rfl⟩ := List.mem_map.mp made
    unfold Projection.provide at refused
    split at refused
    · cases refused
    · cases refused
      exact ⟨rfl, rfl⟩

theorem analysis_findings {m : Module} {limit : Int}
    (mem : d ∈ (Analysis.of m limit).findings) : d.IsLocal := by
  obtain ⟨fa, member, found⟩ := List.mem_flatMap.mp mem
  rw [analysis_funcs] at member
  obtain ⟨f, -, rfl⟩ := List.mem_map.mp member
  exact resolve_findings m _ d found

end Local

end Tenure
