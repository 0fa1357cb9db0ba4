import Mathlib.Data.List.Induction
import Tenure.Proofs.Tellings

/- Runs of a relay. Its user may call it in any order, and the toolchain may answer or fail in any way.
   Of all calls of a run two at most are accepted: first one that brings records, and behind it one that
   has them told. A refused call changes nothing. -/
namespace Tenure

namespace Relay

/-- What the user of a relay can ask for; with a build comes what the toolchain answers to it. -/
inductive Call where
  | build (answer : Except ToolFault BuildOutcome)
  | receive (records : List RawDiagnostic)
  | recount

def Call.brings? : Call → Option (List RawDiagnostic)
  | .build (.ok o) => some o.records
  | .build (.error _) => none
  | .receive records => some records
  | .recount => none

def perform (r : Relay) : Call → Relay × Option Fault
  | .build answer => match r.build answer with
    | (next, .ok _) => (next, none)
    | (next, .error f) => (next, some f)
  | .receive records => match r.receive records with
    | .ok next => (next, none)
    | .error f => (r, some f)
  | .recount => match r.recount with
    | .ok next => (next, none)
    | .error f => (r, some f)

structure Turn where
  before : Relay
  call : Call
  fault : Option Fault
  after : Relay

namespace Turn

def isAccepted (t : Turn) : Bool := t.fault.isNone

def taken? (t : Turn) : Option (List RawDiagnostic) := if t.isAccepted then t.call.brings? else none

def tells (t : Turn) : Bool :=
  match t.call with
  | .recount => t.isAccepted
  | _ => false

end Turn

def turn (r : Relay) (c : Call) : Turn :=
  { before := r, call := c, fault := (r.perform c).2, after := (r.perform c).1 }

def turns (r : Relay) : List Call → List Turn
  | [] => []
  | c :: cs => r.turn c :: (r.perform c).1.turns cs

def after (r : Relay) (calls : List Call) : Relay := calls.foldl (fun r c => (r.perform c).1) r

def tellOf (r : Relay) (records : List RawDiagnostic) : List Diagnostic :=
  ({ r with records } : Relay).tellAll

section Calls

variable {r : Relay} {c : Call}

theorem perform_cases (r : Relay) (c : Call) :
    (∃ f, r.perform c = (r, some f)) ∨
      (∃ records, c.brings? = some records ∧
        r.perform c = ({ r with records, phase := .received }, none)) ∨
      (c = .recount ∧ r.phase = .received ∧
        r.perform c = ({ r with told := r.tellAll, phase := .told }, none)) := by
  cases c with
  | build answer =>
    cases phase : r.phase with
    | idle =>
      cases answer with
      | error f => exact .inl ⟨.tool f, by simp [perform, build, phase]⟩
      | ok o => exact .inr (.inl ⟨o.records, rfl, by simp [perform, build, phase, receive]⟩)
    | _ => exact .inl ⟨.outOfTurn "build" r.phase, by simp only [perform, build, phase]⟩
  | receive records =>
    cases phase : r.phase with
    | idle | invoking => exact .inr (.inl ⟨records, rfl, by simp only [perform, receive, phase]⟩)
    | _ => exact .inl ⟨.outOfTurn "receive" r.phase, by simp only [perform, receive, phase]⟩
  | recount =>
    cases phase : r.phase with
    | received => exact .inr (.inr ⟨rfl, rfl, by simp only [perform, recount, phase]⟩)
    | _ => exact .inl ⟨.outOfTurn "translate" r.phase, by simp only [perform, recount, phase]⟩

theorem perform_idle (idle : r.phase = .idle) {records : List RawDiagnostic}
    (brought : c.brings? = some records) :
    r.perform c = ({ r with records, phase := .received }, none) := by
  cases c with
  | build answer =>
    cases answer with
    | error f => cases brought
    | ok o =>
      cases brought
      simp [perform, build, idle, receive]
  | receive given =>
    cases brought
    simp only [perform, receive, idle]
  | recount => cases brought

theorem perform_closed (closed : r.phase = .received ∨ r.phase = .told) (other : c ≠ .recount) :
    ∃ f, r.perform c = (r, some f) := by
  cases c with
  | build answer =>
    rcases closed with phase | phase <;>
      exact ⟨.outOfTurn "build" r.phase, by simp only [perform, build, phase]⟩
  | receive records =>
    rcases closed with phase | phase <;>
      exact ⟨.outOfTurn "receive" r.phase, by simp only [perform, receive, phase]⟩
  | recount => exact absurd rfl other

theorem recount_received (there : r.phase = .received) :
    r.perform .recount = ({ r with told := r.tellAll, phase := .told }, none) := by
  simp only [perform, recount, there]

theorem recount_refused (empty : r.phase ≠ .received) :
    ∃ f, r.perform .recount = (r, some f) := by
  obtain refused | ⟨records, brought, -⟩ | ⟨-, there, -⟩ := perform_cases r .recount
  · exact refused
  · cases brought
  · exact absurd there empty

end Calls

section Runs

variable {r : Relay}

theorem turns_append (r : Relay) (cs ds : List Call) :
    r.turns (cs ++ ds) = r.turns cs ++ (r.after cs).turns ds := by
  induction cs generalizing r with
  | nil => rfl
  | cons c cs ih => exact congrArg (r.turn c :: ·) (ih (r.perform c).1)

theorem after_append (r : Relay) (cs ds : List Call) :
    r.after (cs ++ ds) = (r.after cs).after ds := List.foldl_append

theorem turns_split {calls : List Call} {front back : List Turn} {t : Turn}
    (split : r.turns calls = front ++ t :: back) :
    ∃ cs c ds, calls = cs ++ c :: ds ∧ front = r.turns cs ∧ t = (r.after cs).turn c := by
  induction calls generalizing r front with
  | nil => simp [turns] at split
  | cons c calls ih =>
    rw [turns] at split
    cases front with
    | nil =>
      obtain ⟨rfl, -⟩ := List.cons.inj split
      exact ⟨[], c, calls, rfl, rfl, rfl⟩
    | cons u front =>
      obtain ⟨rfl, rest⟩ := List.cons.inj split
      obtain ⟨cs, d, ds, rfl, rfl, rfl⟩ := ih rest
      exact ⟨c :: cs, d, ds, rfl, rfl, rfl⟩

inductive Reached (r : Relay) : List Turn → Relay → Prop where
  | fresh : Reached r [] r
  | stored {t : Turn} {records : List RawDiagnostic} (taken : t.taken? = some records) :
      Reached r [t] { r with records, phase := .received }
  | finished {t u : Turn} {records : List RawDiagnostic} (taken : t.taken? = some records)
      (told : u.tells = true) :
      Reached r [t, u] { r with records, phase := .told, told := r.tellOf records }

theorem Reached.step (idle : r.phase = .idle) {ts : List Turn} {s : Relay} (reached : Reached r ts s)
    (c : Call) : Reached r (ts ++ [s.turn c].filter Turn.isAccepted) (s.perform c).1 := by
  have refusal {f : Fault} (refused : s.perform c = (s, some f)) :
      Reached r (ts ++ [s.turn c].filter Turn.isAccepted) (s.perform c).1 := by
    have dropped : [s.turn c].filter Turn.isAccepted = [] := by
      simp [turn, Turn.isAccepted, refused]
    rw [dropped, List.append_nil, refused]
    exact reached
  have acceptance {next : Relay} (accepted : s.perform c = (next, none)) :
      [s.turn c].filter Turn.isAccepted = [s.turn c] := by
    simp [turn, Turn.isAccepted, accepted]
  obtain ⟨f, refused⟩ | ⟨records, brought, done⟩ | ⟨rfl, there, done⟩ := perform_cases s c
  · exact refusal refused
  · have closed (phase : s.phase = .received ∨ s.phase = .told) :
        Reached r (ts ++ [s.turn c].filter Turn.isAccepted) (s.perform c).1 := by
      have other : c ≠ .recount := by
        rintro rfl
        cases brought
      obtain ⟨f, refused⟩ := perform_closed phase other
      exact refusal refused
    cases reached with
    | fresh =>
      rw [acceptance done, done]
      exact .stored (by simp [Turn.taken?, Turn.isAccepted, turn, done, brought])
    | stored taken => exact closed (.inl rfl)
    | finished taken told => exact closed (.inr rfl)
  · cases reached with
    | fresh =>
      rw [idle] at there
      cases there
    | stored taken =>
      rw [acceptance done, done]
      exact .finished taken (by simp [Turn.tells, Turn.isAccepted, turn, done])
    | finished taken told => cases there

theorem reached (idle : r.phase = .idle) (calls : List Call) :
    Reached r ((r.turns calls).filter Turn.isAccepted) (r.after calls) := by
  induction calls using List.reverseRecOn with
  | nil => exact .fresh
  | append_singleton cs c ih =>
    rw [turns_append, List.filter_append, after_append]
    exact ih.step idle c

theorem after_told (told : r.phase = .told) (calls : List Call) : r.after calls = r := by
  induction calls with
  | nil => rfl
  | cons c calls ih =>
    have refused : ∃ f, r.perform c = (r, some f) := by
      cases c with
      | recount => exact recount_refused (by rw [told]; decide)
      | build answer => exact perform_closed (.inr told) Call.noConfusion
      | receive records => exact perform_closed (.inr told) Call.noConfusion
    obtain ⟨f, refused⟩ := refused
    rw [after, List.foldl_cons, refused]
    exact ih

end Runs

section Turns

variable {t : Turn}

theorem accepted_of_taken (taken : t.taken?.isSome = true) : t.isAccepted = true := by
  unfold Turn.taken? at taken
  split at taken
  · assumption
  · cases taken

theorem accepted_of_tells (told : t.tells = true) : t.isAccepted = true := by
  unfold Turn.tells at told
  split at told
  · exact told
  · cases told

theorem untaken_of_tells (told : t.tells = true) : t.taken? = none := by
  unfold Turn.tells at told
  split at told
  · rename_i recounted
    rw [Turn.taken?, recounted]
    exact ite_self none
  · cases told

end Turns

theorem filter_accepted {p : Turn → Bool} (only : ∀ {t}, p t = true → t.isAccepted = true)
    (ts : List Turn) : (ts.filter Turn.isAccepted).filter p = ts.filter p := by
  rw [List.filter_filter]
  refine List.filter_congr fun t _ => ?_
  cases done : p t with
  | false => rfl
  | true => exact only done

section Facts

variable {r s : Relay} {ts : List Turn} (idle : r.phase = .idle)

include idle

theorem Reached.storing (reached : Reached r ts s) :
    (ts.filter (·.taken?.isSome)).length ≤ 1 ∧
      (ts.filter (·.taken?.isSome) = [] ↔ s.phase = .idle) := by
  cases reached with
  | fresh => simp [idle]
  | stored taken => simp [taken]
  | finished taken told => simp [taken, untaken_of_tells told]

theorem Reached.telling (reached : Reached r ts s) :
    (ts.filter Turn.tells).length ≤ 1 ∧ (ts.filter Turn.tells = [] ↔ s.phase ≠ .told) := by
  have silent {t : Turn} {records : List RawDiagnostic} (taken : t.taken? = some records) :
      ¬t.tells = true := by
    intro told
    rw [untaken_of_tells told] at taken
    cases taken
  cases reached with
  | fresh => simp [idle]
  | stored taken => simp [silent taken]
  | finished taken told => simp [silent taken, told]

theorem Reached.phase_cases (reached : Reached r ts s) :
    s.phase = .idle ∨ s.phase = .received ∨ s.phase = .told := by
  cases reached with
  | fresh => exact .inl idle
  | stored => exact .inr (.inl rfl)
  | finished => exact .inr (.inr rfl)

theorem Reached.told_of_phase (reached : Reached r ts s) (done : s.phase = .told) :
    ∃ t ∈ ts, ∃ records, t.taken? = some records ∧ s.told = r.tellOf records := by
  cases reached with
  | fresh =>
    rw [idle] at done
    cases done
  | stored => cases done
  | finished taken told => exact ⟨_, List.mem_cons_self, _, taken, rfl⟩

omit idle in
theorem Reached.untold (reached : Reached r ts s) (pending : s.phase ≠ .told) : s.told = r.told := by
  cases reached with
  | fresh => rfl
  | stored => rfl
  | finished => exact absurd rfl pending

theorem unstored_iff (calls : List Call) :
    (∀ t ∈ r.turns calls, t.taken? = none) ↔ (r.after calls).phase = .idle := by
  have way := (reached idle calls).storing idle
  rw [filter_accepted accepted_of_taken] at way
  simpa using way.2

theorem untold_iff (calls : List Call) :
    (∀ t ∈ r.turns calls, t.tells = false) ↔ (r.after calls).phase ≠ .told := by
  have way := (reached idle calls).telling idle
  rw [filter_accepted accepted_of_tells] at way
  simpa using way.2

end Facts

/-- What holds of every run: two calls at most do something, one behind the other, and what is told are
the records that the first one stored. -/
structure Orderly (r : Relay) (calls : List Call) : Prop where
  stored_once : ((r.turns calls).filter (·.taken?.isSome)).length ≤ 1
  told_once : ((r.turns calls).filter Turn.tells).length ≤ 1
  /-- Records are accepted unless others were before; a toolchain that fails brings none. -/
  welcome : ∀ {front t back}, r.turns calls = front ++ t :: back → t.call ≠ .recount →
    (t.isAccepted = true ↔ t.call.brings?.isSome = true ∧ ∀ u ∈ front, u.taken? = none)
  due : ∀ {front t back}, r.turns calls = front ++ t :: back → t.call = .recount →
    (t.isAccepted = true ↔
      (∃ u ∈ front, u.taken?.isSome = true) ∧ ∀ u ∈ front, u.tells = false)
  /-- A refused call leaves the records, the findings and the phase as they were. -/
  refused : ∀ t ∈ r.turns calls, t.isAccepted = false → t.after = t.before
  silent : (∀ t ∈ r.turns calls, t.tells = false) → (r.after calls).told = []
  /-- What is told are the records that were stored, each that repeats none before it, as many as the
  limit has room for and in order, now and after any further calls. -/
  final : ∀ u ∈ r.turns calls, u.tells = true → ∃ t ∈ r.turns calls, ∃ records told,
    t.taken? = some records ∧ StablySorted (fitting r.limit ((r.fresh records).map r.tell)) told ∧
      ∀ more, (r.after (calls ++ more)).told = told

section Orderly

variable {r : Relay} (idle : r.phase = .idle) (calls : List Call)

variable {t : Turn} {front back : List Turn}

theorem turn_refused (member : t ∈ r.turns calls) (refused : t.isAccepted = false) :
    t.after = t.before := by
  obtain ⟨front, back, split⟩ := List.append_of_mem member
  obtain ⟨cs, c, ds, -, -, rfl⟩ := turns_split split
  obtain ⟨f, stayed⟩ | ⟨records, -, done⟩ | ⟨-, -, done⟩ := perform_cases (r.after cs) c
  · rw [turn, stayed]
  · simp [turn, Turn.isAccepted, done] at refused
  · simp [turn, Turn.isAccepted, done] at refused

include idle

theorem turn_welcome (split : r.turns calls = front ++ t :: back) (other : t.call ≠ .recount) :
    t.isAccepted = true ↔ t.call.brings?.isSome = true ∧ ∀ u ∈ front, u.taken? = none := by
  obtain ⟨cs, c, ds, -, rfl, rfl⟩ := turns_split split
  rw [unstored_iff idle cs]
  simp only [turn, Turn.isAccepted] at other ⊢
  obtain empty | closed := (reached idle cs).phase_cases idle
  · obtain ⟨f, refused⟩ | ⟨records, brought, done⟩ | ⟨again, -⟩ := perform_cases (r.after cs) c
    · have nothing : c.brings? = none := by
        by_contra some
        obtain ⟨records, brought⟩ := Option.ne_none_iff_exists'.mp some
        simp [perform_idle empty brought] at refused
      simp [refused, nothing]
    · simp [done, brought, empty]
    · exact absurd again other
  · obtain ⟨f, refused⟩ := perform_closed closed other
    have full : (r.after cs).phase ≠ .idle := by
      rcases closed with phase | phase <;> rw [phase] <;> decide
    simp [refused, full]

theorem turn_due (split : r.turns calls = front ++ t :: back) (asked : t.call = .recount) :
    t.isAccepted = true ↔
      (∃ u ∈ front, u.taken?.isSome = true) ∧ ∀ u ∈ front, u.tells = false := by
  obtain ⟨cs, c, ds, -, rfl, rfl⟩ := turns_split split
  have stored : (∃ u ∈ r.turns cs, u.taken?.isSome = true) ↔ (r.after cs).phase ≠ .idle := by
    rw [← not_iff_not, not_not, ← unstored_iff idle cs]
    simp
  rw [stored, untold_iff idle cs]
  simp only [turn, Turn.isAccepted] at asked ⊢
  subst asked
  obtain phase | phase | phase := (reached idle cs).phase_cases idle
  · obtain ⟨f, refused⟩ := recount_refused (r := r.after cs) (by rw [phase]; decide)
    simp [refused, phase]
  · simp [recount_received phase, phase]
  · obtain ⟨f, refused⟩ := recount_refused (r := r.after cs) (by rw [phase]; decide)
    simp [refused, phase]

theorem told_final {u : Turn} (member : u ∈ r.turns calls) (told : u.tells = true) :
    ∃ t ∈ r.turns calls, ∃ records told, t.taken? = some records ∧
      StablySorted (fitting r.limit ((r.fresh records).map r.tell)) told ∧
      ∀ more, (r.after (calls ++ more)).told = told := by
  have done : (r.after calls).phase = .told := by
    by_contra pending
    rw [(untold_iff idle calls).mpr pending u member] at told
    cases told
  obtain ⟨t, accepted, records, taken, said⟩ := (reached idle calls).told_of_phase idle done
  refine ⟨t, (List.mem_filter.mp accepted).1, records, _, taken,
    tellAll_stable { r with records }, fun more => ?_⟩
  rw [after_append, after_told done, said, tellOf]

end Orderly

end Relay

/-- Every run of a relay is orderly, whatever is asked for and whatever the toolchain answers. -/
theorem relay_runs_orderly (catalog : Catalog) (files : FileSet) (unit : Generated) (limit : Int)
    (calls : List Relay.Call) : (Relay.start catalog files unit limit).Orderly calls := by
  have idle : (Relay.start catalog files unit limit).phase = .idle := rfl
  have way := Relay.reached idle calls
  constructor
  case stored_once =>
    rw [← Relay.filter_accepted Relay.accepted_of_taken]
    exact (way.storing idle).1
  case told_once =>
    rw [← Relay.filter_accepted Relay.accepted_of_tells]
    exact (way.telling idle).1
  case welcome => exact Relay.turn_welcome idle calls
  case due => exact Relay.turn_due idle calls
  case refused => exact fun t member => Relay.turn_refused calls member
  case silent =>
    intro quiet
    exact way.untold ((Relay.untold_iff idle calls).mp quiet)
  case final => exact fun u member told => Relay.told_final idle calls member told

end Tenure
