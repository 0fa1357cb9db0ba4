import Mathlib.Data.List.Nodup
import Tenure.Catalog.Builtin
import Tenure.Catalog.Document
import Tenure.Catalog.Match
import Tenure.Proofs.Association

/- Catalogs that documents make. Their indexes follow from their entries, whatever the documents put in,
   replace or name twice, so that matching a record goes by the order of the entries alone. -/
namespace Tenure

namespace Catalog

variable {c next : Catalog} {es : List Entry} {text : String} {e : Entry}

/-- No two entries share a code, and both indexes are those of the entries. -/
structure Indexed (c : Catalog) : Prop where
  codes : (c.entries.map (·.code)).Nodup
  byCode : c.byCode = c.entries.map fun e => (e.code, e)
  byBackend : c.byBackend = c.entries.foldl indexBackend []

theorem Indexed.empty : Indexed empty := ⟨List.nodup_nil, rfl, rfl⟩

theorem Indexed.ext {d : Catalog} (hc : c.Indexed) (hd : d.Indexed) (same : c.entries = d.entries) :
    c = d := by
  obtain ⟨-, byCode, byBackend⟩ := hc
  obtain ⟨-, byCode', byBackend'⟩ := hd
  cases c
  cases d
  simp only at same byCode byBackend byCode' byBackend'
  subst same byCode byBackend byCode' byBackend'
  rfl

section Codes

theorem lookup_setCode (code : Code) (e : Entry) (index : List (Code × Entry)) (k : Code) :
    (setCode code e index).lookup k = if k = code then some e else index.lookup k :=
  lookup_set (setCode code e) ⟨rfl, fun _ _ => rfl⟩ index k

theorem lookup_entries (es : List Entry) (code : Code) :
    (es.map fun e => (e.code, e)).lookup code = es.find? fun e => code == e.code := by
  induction es with
  | nil => rfl
  | cons e es ih =>
    rw [List.map_cons, List.lookup_cons, List.find?_cons, ih]

def Entry.supplant (e f : Entry) : Entry := if f.code = e.code then e else f

theorem supplant_code (e f : Entry) : (e.supplant f).code = f.code := by
  unfold Entry.supplant
  split
  · exact Eq.symm ‹_›
  · rfl

theorem supplant_codes (e : Entry) (es : List Entry) :
    (es.map e.supplant).map (·.code) = es.map (·.code) := by
  rw [List.map_map]
  exact List.map_congr_left fun f _ => supplant_code e f

theorem supplant_absent (absent : e.code ∉ es.map (·.code)) : es.map e.supplant = es := by
  have apart : ∀ f ∈ es, e.supplant f = f := by
    intro f member
    exact if_neg fun same => absent (List.mem_map.mpr ⟨f, member, same⟩)
  rw [List.map_congr_left apart, List.map_id']

theorem setCode_entries (distinct : (es.map (·.code)).Nodup) (e : Entry) :
    setCode e.code e (es.map fun f => (f.code, f)) =
      (if e.code ∈ es.map (·.code) then es.map e.supplant else es ++ [e]).map
        fun f => (f.code, f) := by
  induction es with
  | nil => rfl
  | cons f es ih =>
    rw [List.map_cons, List.nodup_cons] at distinct
    rw [List.map_cons, setCode]
    by_cases here : f.code = e.code
    · rw [if_pos here, if_pos (by simp [here]), List.map_cons, List.map_cons,
        supplant_absent (here ▸ distinct.1), Entry.supplant, if_pos here]
    · rw [if_neg here, ih distinct.2]
      have other : e.code ∈ (f :: es).map (·.code) ↔ e.code ∈ es.map (·.code) := by
        simp [Ne.symm here]
      by_cases there : e.code ∈ es.map (·.code)
      · rw [if_pos there, if_pos (other.mpr there), List.map_cons, List.map_cons, Entry.supplant,
          if_neg here]
      · rw [if_neg there, if_neg (mt other.mp there), List.cons_append, List.map_cons]

end Codes

section Naming

theorem lookup_addBackend (name : String) (e : Entry) (index : List (String × List Entry))
    (k : String) :
    ((addBackend name e index).lookup k).getD [] =
      (index.lookup k).getD [] ++ if k = name then [e] else [] := by
  have updates : Updates Prod.fst name (name, [e]) (fun b => (b.1, b.2 ++ [e]))
      (addBackend name e) := ⟨rfl, fun _ _ => rfl⟩
  rw [lookup_eq_find, lookup_eq_find, updates.find rfl fun _ => id]
  by_cases mine : name = k
  · rw [if_pos mine, if_pos mine.symm]
    cases index.find? (·.1 == k) <;> rfl
  · rw [if_neg mine, if_neg (Ne.symm mine), List.append_nil]

theorem lookup_indexBackend (index : List (String × List Entry)) (e : Entry) (k : String) :
    ((indexBackend index e).lookup k).getD [] =
      (index.lookup k).getD [] ++ List.replicate (e.backendCodes.count k) e := by
  have each : ∀ (names : List String) (index : List (String × List Entry)),
      ((names.foldl (fun index name => addBackend name e index) index).lookup k).getD [] =
        (index.lookup k).getD [] ++ List.replicate (names.count k) e := by
    intro names
    induction names with
    | nil => simp
    | cons name names ih =>
      intro index
      rw [List.foldl_cons, ih, lookup_addBackend, List.count_cons]
      by_cases mine : k = name
      · simp [mine, List.replicate_succ]
      · simp [mine, Ne.symm mine]
  exact each e.backendCodes index

theorem lookup_indexBackends (es : List Entry) (index : List (String × List Entry)) (k : String) :
    ((es.foldl indexBackend index).lookup k).getD [] =
      (index.lookup k).getD [] ++ es.flatMap fun e => List.replicate (e.backendCodes.count k) e := by
  induction es generalizing index with
  | nil => simp
  | cons e es ih =>
    rw [List.foldl_cons, ih, lookup_indexBackend, List.flatMap_cons, List.append_assoc]

end Naming

section Put

variable {c : Catalog}

theorem Indexed.lookup_eq (h : c.Indexed) (code : Code) :
    c.lookup code = c.entries.find? fun e => code == e.code := by
  rw [lookup, h.byCode, lookup_entries]

theorem Indexed.lookup_iff (h : c.Indexed) (code : Code) (e : Entry) :
    c.lookup code = some e ↔ e ∈ c.entries ∧ e.code = code := by
  rw [h.lookup_eq]
  constructor
  · intro found
    have mine : code = e.code := by simpa using List.find?_some found
    exact ⟨List.mem_of_find?_eq_some found, mine.symm⟩
  · rintro ⟨member, rfl⟩
    obtain ⟨f, found⟩ := Option.isSome_iff_exists.mp
      (List.find?_isSome.mpr ⟨e, member, beq_self_eq_true e.code⟩ :
        (c.entries.find? fun f => e.code == f.code).isSome = true)
    have mine : e.code = f.code := by simpa using List.find?_some found
    rw [found, List.inj_on_of_nodup_map h.codes (List.mem_of_find?_eq_some found) member mine.symm]

theorem Indexed.lookup_isSome (h : c.Indexed) (code : Code) :
    (c.lookup code).isSome = true ↔ code ∈ c.entries.map (·.code) := by
  rw [Option.isSome_iff_exists, List.mem_map]
  exact exists_congr fun e => h.lookup_iff code e

theorem Indexed.put_entries (h : c.Indexed) (e : Entry) :
    (c.put e).entries =
      if e.code ∈ c.entries.map (·.code) then c.entries.map e.supplant else c.entries ++ [e] := by
  unfold put
  by_cases known : e.code ∈ c.entries.map (·.code)
  · rw [if_pos known, if_pos ((h.lookup_isSome e.code).mpr known)]
    rfl
  · rw [if_neg known, if_neg (mt (h.lookup_isSome e.code).mp known)]

theorem Indexed.put (h : c.Indexed) (e : Entry) : (c.put e).Indexed := by
  have entries := h.put_entries e
  constructor
  · rw [entries]
    split
    · rw [supplant_codes]
      exact h.codes
    · rename_i fresh
      rw [List.map_append, List.nodup_append]
      refine ⟨h.codes, List.nodup_singleton _, ?_⟩
      intro a member b single same
      rw [List.map_singleton, List.mem_singleton] at single
      exact fresh (single ▸ same ▸ member)
  · rw [entries, ← setCode_entries h.codes, ← h.byCode]
    unfold Catalog.put
    split <;> rfl
  · unfold Catalog.put
    split
    · rfl
    · rw [List.foldl_append, ← h.byBackend]
      rfl

theorem lookup_put (c : Catalog) (e : Entry) (code : Code) :
    (c.put e).lookup code = if code = e.code then some e else c.lookup code := by
  have index : (c.put e).byCode = setCode e.code e c.byCode := by
    unfold put
    split <;> rfl
  rw [lookup, index, lookup_setCode]
  rfl

theorem Indexed.putAll (h : c.Indexed) (es : List Entry) : (es.foldl Catalog.put c).Indexed := by
  induction es generalizing c with
  | nil => exact h
  | cons e es ih => exact ih (h.put e)

theorem lookup_putAll (es : List Entry) (c : Catalog) (code : Code) :
    (es.foldl put c).lookup code = (es.reverse.find? fun e => code == e.code).or (c.lookup code) := by
  induction es generalizing c with
  | nil => rfl
  | cons e es ih =>
    rw [List.foldl_cons, ih, lookup_put, List.reverse_cons, List.find?_append, Option.or_assoc]
    by_cases mine : code = e.code
    · simp [mine]
    · simp [mine, beq_eq_false_iff_ne.mpr mine]

theorem Indexed.putAll_codes (h : c.Indexed) (es : List Entry) :
    c.entries.map (·.code) <+: (es.foldl Catalog.put c).entries.map (·.code) := by
  induction es generalizing c with
  | nil => exact List.prefix_rfl
  | cons e es ih =>
    refine List.IsPrefix.trans ?_ (ih (h.put e))
    rw [h.put_entries]
    split
    · exact (congrArg (_ <+: ·) (supplant_codes e c.entries)).mpr List.prefix_rfl
    · rw [List.map_append]
      exact List.prefix_append _ _

theorem Indexed.putAll_fresh (h : c.Indexed) (distinct : ((c.entries ++ es).map (·.code)).Nodup) :
    (es.foldl Catalog.put c).entries = c.entries ++ es := by
  induction es generalizing c with
  | nil => exact (List.append_nil _).symm
  | cons e es ih =>
    have fresh : e.code ∉ c.entries.map (·.code) := by
      rw [List.map_append, List.map_cons, List.nodup_append] at distinct
      exact fun member => distinct.2.2 _ member _ List.mem_cons_self rfl
    have entries : (c.put e).entries = c.entries ++ [e] := by rw [h.put_entries, if_neg fresh]
    rw [List.foldl_cons, ih (h.put e), entries, List.append_assoc, List.singleton_append]
    rwa [entries, List.append_assoc, List.singleton_append]

theorem Indexed.copy (h : c.Indexed) : c.copy = c :=
  (Indexed.empty.putAll c.entries).ext h (Indexed.empty.putAll_fresh h.codes)

end Put

section Documents

abbrev Checked : List Draft → List Entry → Prop := List.Forall₂ fun d e => d.check = .ok e

theorem add_ok {d : Draft} (added : c.add d = .ok next) : ∃ e, d.check = .ok e ∧ next = c.put e := by
  obtain ⟨e, checked, added⟩ := ok_of_bind added
  cases added
  exact ⟨e, checked, rfl⟩

theorem addItems_ok {items : List (Option Draft)} (added : items.foldlM addItem c = .ok next) :
    ∃ drafts es, items = drafts.map some ∧ Checked drafts es ∧ next = es.foldl put c := by
  induction items generalizing c with
  | nil =>
    cases added
    exact ⟨[], [], rfl, .nil, rfl⟩
  | cons item items ih =>
    rw [List.foldlM_cons] at added
    obtain ⟨middle, first, added⟩ := ok_of_bind added
    cases item with
    | none => cases first
    | some d =>
      obtain ⟨e, checked, rfl⟩ := add_ok first
      obtain ⟨drafts, es, rfl, rest, rfl⟩ := ih added
      exact ⟨d :: drafts, e :: es, rfl, .cons checked rest, rfl⟩

theorem addItems_checked {drafts : List Draft} (checked : Checked drafts es) (c : Catalog) :
    (drafts.map some).foldlM addItem c = .ok (es.foldl put c) := by
  induction checked generalizing c with
  | nil => rfl
  | cons first _ ih =>
    rw [List.map_cons, List.foldlM_cons, addItem, add, first]
    exact ih _

/-- The document can be read, has the right version, and each of its drafts makes one of these
entries. -/
def MakesEntries (text : String) (es : List Entry) : Prop :=
  ∃ drafts, document? text = some (1, drafts.map some) ∧ Checked drafts es

theorem extend_ok_iff :
    c.extend text = .ok next ↔ ∃ es, MakesEntries text es ∧ next = es.foldl put c.copy := by
  unfold extend
  constructor
  · intro accepted
    cases read : document? text with
    | none =>
      rw [read] at accepted
      cases accepted
    | some found =>
      obtain ⟨version, items⟩ := found
      rw [read] at accepted
      dsimp only at accepted
      split at accepted
      · cases accepted
      · rename_i current
        obtain rfl := not_not.mp current
        obtain ⟨drafts, es, rfl, checked, rfl⟩ := addItems_ok accepted
        exact ⟨es, ⟨drafts, read, checked⟩, rfl⟩
  · rintro ⟨es, ⟨drafts, read, checked⟩, rfl⟩
    rw [read]
    exact addItems_checked checked c.copy

theorem addAll_ok {drafts : List Draft} (added : c.addAll drafts = .ok next) :
    ∃ es, Checked drafts es ∧ next = es.foldl put c := by
  have items : (drafts.map some).foldlM addItem c = .ok next := by
    rw [List.foldlM_map]
    exact added
  obtain ⟨others, es, same, checked, rfl⟩ := addItems_ok items
  obtain rfl := List.map_inj_right (fun _ _ => Option.some.inj) |>.mp same
  exact ⟨es, checked, rfl⟩

end Documents

section Checks

theorem patternsOf_ok {id : String} {sources : List String} {ps : List Pattern}
    (parsed : Draft.patternsOf id sources = .ok ps) :
    List.Forall₂ (fun s p => Pattern.parse? s = some p) sources ps := by
  refine (mapM_ok parsed).imp fun s p read => ?_
  cases first : Pattern.parse? s with
  | none => simp [first] at read
  | some q => simpa [first] using read

structure Entry.Valid (e : Entry) : Prop where
  matchers : List.Forall₂ (fun s p => Pattern.parse? s = some p) e.patterns e.matchers
  labelMatchers : List.Forall₂ (fun s p => Pattern.parse? s = some p) e.labelPatterns e.labelMatchers
  slots : ∀ slot ∈ e.slots, slot ∈ Draft.groupNames (e.matchers ++ e.labelMatchers) ∨
    (e.defaults.lookup slot).isSome = true

theorem check_ok {d : Draft} (checked : d.check = .ok e) : e.toDraft = d ∧ e.Valid := by
  unfold Draft.check at checked
  dsimp only at checked
  split at checked
  rotate_left
  · cases checked
  obtain ⟨code, -, checked⟩ := ok_of_bind checked
  split at checked
  · cases checked
  split at checked
  · cases checked
  obtain ⟨matchers, parsed, checked⟩ := ok_of_bind checked
  obtain ⟨labelMatchers, labelled, checked⟩ := ok_of_bind checked
  split at checked
  · cases checked
  · rename_i filled
    cases checked
    refine ⟨rfl, patternsOf_ok parsed, patternsOf_ok labelled, fun slot member => ?_⟩
    have known := List.find?_eq_none.mp filled slot member
    simpa [Option.isSome_iff_ne_none, or_iff_not_imp_left] using known

end Checks

section Matching

def Entry.hits (e : Entry) (message : String) : Bool :=
  e.matchers.any fun p => (p.find? message).isSome

/-- The entry that a record is told by, in the order of the entries: the first one that names its code
and has no patterns or one that is found in its message, or else the first one with such a pattern. -/
def chosen (c : Catalog) (d : RawDiagnostic) : Option Entry :=
  (c.entries.find? fun e => !d.code.isEmpty && e.backendCodes.contains d.code &&
      (e.patterns.isEmpty || e.hits (Text.composed d.message))).or
    (c.entries.find? (·.hits (Text.composed d.message)))

theorem firstCapture_isSome (ps : List Pattern) (text : String) (known : Captures) :
    (firstCapture ps text known).isSome = ps.any fun p => (p.find? text).isSome := by
  induction ps with
  | nil => rfl
  | cons p ps ih =>
    rw [firstCapture, List.findSome?_cons, List.any_cons]
    cases p.find? text with
    | none => exact ih
    | some texts => rfl

theorem captures_isSome (e : Entry) (message label : String) (byCode : Bool) :
    (e.captures? message label byCode).isSome =
      ((byCode && e.matchers.isEmpty) || e.hits message) := by
  unfold Entry.captures? Entry.hits
  rw [Option.isSome_map]
  cases byCode && e.matchers.isEmpty with
  | true => rfl
  | false =>
    rw [if_neg Bool.false_ne_true, firstCapture_isSome, Bool.false_or]

theorem find_named (es : List Entry) (name : String) (p : Entry → Bool) :
    (es.flatMap fun e => List.replicate (e.backendCodes.count name) e).find? p =
      es.find? fun e => e.backendCodes.contains name && p e := by
  induction es with
  | nil => rfl
  | cons e es ih =>
    rw [List.flatMap_cons, List.find?_append, ih, List.find?_cons]
    by_cases named : name ∈ e.backendCodes
    · have some : e.backendCodes.count name ≠ 0 := mt List.count_eq_zero.mp (not_not.mpr named)
      rw [List.find?_replicate, if_neg some, List.contains_iff_mem.mpr named, Bool.true_and]
      cases p e <;> rfl
    · simp [List.count_eq_zero.mpr named, named]

theorem find_congr {p q : Entry → Bool} (same : ∀ e ∈ es, p e = q e) : es.find? p = es.find? q := by
  rw [← List.head?_filter, List.filter_congr same, List.head?_filter]

theorem findSome_entry (es : List Entry) (captures? : Entry → Option Captures) :
    (es.findSome? fun e => (captures? e).map fun captures => ({ entry := e, captures } : CatalogMatch)).map
      (·.entry) = es.find? fun e => (captures? e).isSome := by
  induction es with
  | nil => rfl
  | cons e es ih =>
    rw [List.findSome?_cons, List.find?_cons]
    cases captures? e with
    | none => exact ih
    | some captures => rfl

variable {c : Catalog}

theorem Indexed.naming_eq (h : c.Indexed) (name : String) :
    c.naming name = c.entries.flatMap fun e => List.replicate (e.backendCodes.count name) e := by
  rw [naming, h.byBackend, lookup_indexBackends]
  rfl

theorem Entry.Valid.isEmpty_eq (valid : e.Valid) : e.matchers.isEmpty = e.patterns.isEmpty := by
  rw [Bool.eq_iff_iff, List.isEmpty_iff_length_eq_zero, List.isEmpty_iff_length_eq_zero,
    valid.matchers.length_eq]

theorem Indexed.match_eq (h : c.Indexed) (valid : ∀ e ∈ c.entries, e.Valid) (d : RawDiagnostic) :
    (c.match? d).map (·.entry) = c.chosen d := by
  have plain : ∀ e ∈ c.entries,
      (e.captures? (Text.composed d.message) (Text.composed d.label) false).isSome =
        e.hits (Text.composed d.message) := by
    intro e _
    rw [captures_isSome, Bool.false_and, Bool.false_or]
  have coded : ∀ e ∈ c.entries,
      (e.captures? (Text.composed d.message) (Text.composed d.label) true).isSome =
        (e.patterns.isEmpty || e.hits (Text.composed d.message)) := by
    intro e member
    rw [captures_isSome, Bool.true_and, (valid e member).isEmpty_eq]
  unfold match? chosen
  dsimp only
  rw [Option.map_or, findSome_entry, find_congr plain]
  congr 1
  cases d.code.isEmpty with
  | true =>
    rw [if_pos rfl, Option.map_none, eq_comm, List.find?_eq_none]
    simp
  | false =>
    rw [if_neg Bool.false_ne_true, findSome_entry, h.naming_eq, find_named]
    refine find_congr fun e member => ?_
    rw [coded e member, Bool.not_false, Bool.true_and]

end Matching

structure Sound (c : Catalog) : Prop where
  codes : (c.entries.map (·.code)).Nodup
  lookup_iff : ∀ code e, c.lookup code = some e ↔ e ∈ c.entries ∧ e.code = code
  /-- The index by backend code lists its entries in their order, once for each naming. -/
  naming_eq : ∀ name,
    c.naming name = c.entries.flatMap fun e => List.replicate (e.backendCodes.count name) e
  match_eq : ∀ d, (c.match? d).map (·.entry) = c.chosen d

/-- What entries make of a catalog: of those with one code the last one counts, other codes keep their
entries, and all codes that were there stay in their places. -/
structure Extends (c next : Catalog) (es : List Entry) : Prop where
  lookup_eq : ∀ code,
    next.lookup code = (es.reverse.find? fun e => code == e.code).or (c.lookup code)
  places : c.entries.map (·.code) <+: next.entries.map (·.code)

section Runs

/-- What the user of catalogs can ask for. Catalogs at hand are known by their places, and a document may
be added to any of them. -/
inductive Call where
  | parse (text : String)
  | extend (place : Nat) (text : String)

def Call.answer? (shelf : List Catalog) : Call → Option (Except CatalogFault Catalog)
  | .parse text => some (Catalog.parse text)
  | .extend place text => shelf[place]?.map (·.extend text)

def stockWith (shelf : List Catalog) : Option (Except CatalogFault Catalog) → List Catalog
  | some (.ok c) => shelf ++ [c]
  | _ => shelf

def Call.stock (shelf : List Catalog) (call : Call) : List Catalog :=
  stockWith shelf (call.answer? shelf)

def shelf (calls : List Call) : List Catalog := calls.foldl Call.stock [builtin]

structure Made (c : Catalog) : Prop where
  indexed : c.Indexed
  valid : ∀ e ∈ c.entries, e.Valid

variable {c : Catalog}

theorem Made.put (h : c.Made) (valid : e.Valid) : (c.put e).Made := by
  refine ⟨h.indexed.put e, fun f member => ?_⟩
  rw [h.indexed.put_entries] at member
  split at member
  · obtain ⟨g, old, rfl⟩ := List.mem_map.mp member
    unfold Entry.supplant
    split
    · exact valid
    · exact h.valid g old
  · exact List.forall_mem_append.mpr ⟨h.valid, List.forall_mem_singleton.mpr valid⟩ f member

theorem Made.putAll (h : c.Made) {drafts : List Draft} (checked : Checked drafts es) :
    (es.foldl Catalog.put c).Made := by
  induction checked generalizing c with
  | nil => exact h
  | cons first _ ih => exact ih (h.put (check_ok first).2)

theorem Made.empty : Made empty := ⟨.empty, fun _ member => absurd member List.not_mem_nil⟩

theorem Made.builtin : Made builtin := by
  unfold Catalog.builtin
  cases added : Catalog.empty.addAll builtinDrafts with
  | error f => exact .empty
  | ok c =>
    obtain ⟨es, checked, rfl⟩ := addAll_ok added
    exact Made.empty.putAll checked

theorem Made.extend_eq (h : c.Made) (extended : c.extend text = .ok next) :
    ∃ es, MakesEntries text es ∧ next = es.foldl Catalog.put c := by
  obtain ⟨es, made, rfl⟩ := extend_ok_iff.mp extended
  exact ⟨es, made, by rw [h.indexed.copy]⟩

theorem Made.extend (h : c.Made) (extended : c.extend text = .ok next) : next.Made := by
  obtain ⟨es, ⟨drafts, -, checked⟩, rfl⟩ := h.extend_eq extended
  exact h.putAll checked

theorem Made.extends (h : c.Made) (extended : c.extend text = .ok next) :
    ∃ es, MakesEntries text es ∧ c.Extends next es := by
  obtain ⟨es, made, rfl⟩ := h.extend_eq extended
  exact ⟨es, made, lookup_putAll es c, h.indexed.putAll_codes es⟩

theorem Made.sound (h : c.Made) : c.Sound :=
  ⟨h.indexed.codes, h.indexed.lookup_iff, h.indexed.naming_eq, h.indexed.match_eq h.valid⟩

theorem stock_cases (shelf : List Catalog) (call : Call) :
    call.stock shelf = shelf ∨
      ∃ c, call.answer? shelf = some (.ok c) ∧ call.stock shelf = shelf ++ [c] := by
  unfold Call.stock
  cases call.answer? shelf with
  | none => exact .inl rfl
  | some answer =>
    cases answer with
    | error f => exact .inl rfl
    | ok c => exact .inr ⟨c, rfl, rfl⟩

theorem stock_made {shelf : List Catalog} (made : ∀ c ∈ shelf, c.Made) (call : Call) :
    ∀ c ∈ call.stock shelf, c.Made := by
  obtain same | ⟨c, answered, new⟩ := stock_cases shelf call
  · rwa [same]
  · have fresh : c.Made := by
      cases call with
      | parse text => exact Made.empty.extend (Option.some.inj answered)
      | extend place text =>
        obtain ⟨old, there, extended⟩ := Option.map_eq_some_iff.mp answered
        exact (made old (List.mem_of_getElem? there)).extend extended
    rw [new]
    exact List.forall_mem_append.mpr ⟨made, List.forall_mem_singleton.mpr fresh⟩

theorem stock_keeps (shelf : List Catalog) (call : Call) : shelf <+: call.stock shelf := by
  obtain same | ⟨c, -, new⟩ := stock_cases shelf call
  · exact ⟨[], by rw [List.append_nil, same]⟩
  · exact ⟨[c], new.symm⟩

theorem shelf_made (calls : List Call) : ∀ c ∈ shelf calls, c.Made := by
  have run : ∀ (calls : List Call) (shelf : List Catalog), (∀ c ∈ shelf, c.Made) →
      ∀ c ∈ calls.foldl Call.stock shelf, c.Made := by
    intro calls
    induction calls with
    | nil => exact fun _ made => made
    | cons call calls ih => exact fun shelf made => ih _ (stock_made made call)
  refine run calls [builtin] fun c member => ?_
  rw [List.mem_singleton.mp member]
  exact .builtin

theorem shelf_parse (parsed : (Catalog.parse text).toOption = some c) : c ∈ shelf [.parse text] := by
  have stocked : shelf [.parse text] = stockWith [builtin] (some (Catalog.parse text)) := by
    rw [shelf, List.foldl_cons, List.foldl_nil, Call.stock, Call.answer?]
  rw [stocked]
  cases read : Catalog.parse text with
  | error f =>
    rw [read] at parsed
    cases parsed
  | ok found =>
    rw [read] at parsed
    cases parsed
    exact List.mem_append_right _ (List.mem_singleton_self c)

theorem shelf_keeps (calls more : List Call) : shelf calls <+: shelf (calls ++ more) := by
  rw [shelf, shelf, List.foldl_append]
  generalize calls.foldl Call.stock [builtin] = stock
  induction more generalizing stock with
  | nil => exact List.prefix_rfl
  | cons call more ih => exact (stock_keeps stock call).trans (ih _)

end Runs

end Catalog

/-- Whatever documents are read and added to whatever catalogs at hand, in whatever order: all catalogs
are sound and stay what they were, and adding a document makes one catalog more when each of its drafts
makes an entry, and none otherwise. Catalogs are values, so that they stay would hold of any way to extend
them; what this one adds to is a copy, and the copy is the catalog again. -/
theorem catalogs_sound (calls : List Catalog.Call) :
    (∀ c ∈ Catalog.shelf calls, c.Sound) ∧
      (∀ more, Catalog.shelf calls <+: Catalog.shelf (calls ++ more)) ∧
      ∀ place c text, (Catalog.shelf calls)[place]? = some c →
        c.copy = c ∧
        ((∃ next, c.extend text = .ok next) ↔ ∃ es, Catalog.MakesEntries text es) ∧
        (∀ next, c.extend text = .ok next →
          Catalog.shelf (calls ++ [.extend place text]) = Catalog.shelf calls ++ [next] ∧
          ∃ es, Catalog.MakesEntries text es ∧ c.Extends next es) ∧
        ∀ f, c.extend text = .error f →
          Catalog.shelf (calls ++ [.extend place text]) = Catalog.shelf calls := by
  refine ⟨fun c member => (Catalog.shelf_made calls c member).sound, Catalog.shelf_keeps calls, ?_⟩
  intro place c text there
  have made := Catalog.shelf_made calls c (List.mem_of_getElem? there)
  have stocked : Catalog.shelf (calls ++ [.extend place text]) =
      Catalog.stockWith (Catalog.shelf calls) (some (c.extend text)) := by
    have answer : (Catalog.shelf calls)[place]?.map (·.extend text) = some (c.extend text) := by
      rw [there, Option.map_some]
    rw [← answer, Catalog.shelf, List.foldl_append]
    rfl
  refine ⟨made.indexed.copy, ?_, ?_, ?_⟩
  · constructor
    · rintro ⟨next, extended⟩
      obtain ⟨es, entries, -⟩ := Catalog.extend_ok_iff.mp extended
      exact ⟨es, entries⟩
    · rintro ⟨es, entries⟩
      exact ⟨_, Catalog.extend_ok_iff.mpr ⟨es, entries, rfl⟩⟩
  · intro next extended
    refine ⟨?_, made.extends extended⟩
    rw [stocked, extended]
    rfl
  · intro f refused
    rw [stocked, refused]
    rfl

end Tenure
