import Tenure.Proofs.Association
import Tenure.Proofs.Catalogs

/- What fills the slots of an entry's texts. An entry is accepted when each of its slots has a default or
   is the name of a group in any of its patterns, but a match only knows the groups of the patterns that
   were found first. So a slot without a default may stay as it is written. -/
namespace Tenure

namespace Template

theorem slot_split {s name : List Char} (found : slot? s = some name) :
    name ≠ [] ∧ s = name ++ '}' :: s.drop (name.length + 1) := by
  unfold slot? at found
  dsimp only at found
  split at found
  · rename_i closed
    cases found
    rw [Bool.and_eq_true, beq_iff_eq] at closed
    obtain ⟨rest, behind⟩ := List.head?_eq_some_iff.mp closed.2
    refine ⟨fun empty => by simp [empty] at closed, ?_⟩
    rw [← List.drop_drop, behind, List.drop_succ_cons, List.drop_zero, ← behind]
    exact (List.prefix_iff_eq_append.mp (List.takeWhile_prefix isNameChar)).symm
  · cases found

theorem slots_nonempty {s slot : String} (member : slot ∈ slots s) : slot ≠ "" := by
  have each : ∀ (fuel : Nat) (cs : List Char), .slot slot ∈ piecesFrom fuel cs → slot ≠ "" := by
    intro fuel
    induction fuel with
    | zero =>
      intro cs member
      cases member
    | succ fuel ih =>
      intro cs member
      cases cs with
      | nil => cases member
      | cons c cs =>
        rw [piecesFrom] at member
        split at member
        · rename_i name found
          rcases List.mem_cons.mp member with here | later
          · split at found
            · cases here
              exact fun empty => (slot_split found).1 (by simpa using congrArg String.toList empty)
            · cases found
          · exact ih _ later
        · rcases List.mem_cons.mp member with here | later
          · cases here
          · exact ih _ later
  obtain ⟨piece, there, named⟩ := List.mem_filterMap.mp member
  cases piece with
  | char c => cases named
  | slot name =>
    cases named
    exact each _ _ there

theorem unfilled_shown {value? : String → Option String} {s slot : String} (member : slot ∈ slots s)
    (unknown : value? slot = none) : written slot <:+: (fill value? s).toList := by
  obtain ⟨piece, there, named⟩ := List.mem_filterMap.mp member
  cases piece with
  | char c => cases named
  | slot name =>
    cases named
    obtain ⟨before, behind, split⟩ := List.append_of_mem there
    rw [fill, split, String.toList_ofList, List.flatMap_append, List.flatMap_cons]
    simp only [Piece.shown, unknown]
    exact ⟨_, _, List.append_assoc ..⟩

/-- The second text is the first with its slots exchanged for their values. A slot without a value
stays as it is written. -/
inductive Filled (value? : String → Option String) : List Char → List Char → Prop where
  | nil : Filled value? [] []
  | char {c : Char} {s t : List Char} (plain : c = '{' → slot? s = none) (rest : Filled value? s t) :
      Filled value? (c :: s) (c :: t)
  | known {name v : String} {s t : List Char} (slot : slot? (name.toList ++ '}' :: s) = some name.toList)
      (value : value? name = some v) (rest : Filled value? s t) :
      Filled value? ('{' :: name.toList ++ '}' :: s) (v.toList ++ t)
  | unknown {name : String} {s t : List Char} (slot : slot? (name.toList ++ '}' :: s) = some name.toList)
      (value : value? name = none) (rest : Filled value? s t) :
      Filled value? ('{' :: name.toList ++ '}' :: s) (written name ++ t)

theorem fill_filled (value? : String → Option String) (s : String) :
    Filled value? s.toList (fill value? s).toList := by
  have each : ∀ (fuel : Nat) (cs : List Char), cs.length ≤ fuel →
      Filled value? cs ((piecesFrom fuel cs).flatMap (Piece.shown value?)) := by
    intro fuel
    induction fuel with
    | zero =>
      intro cs enough
      obtain rfl := List.length_eq_zero_iff.mp (Nat.le_zero.mp enough)
      exact .nil
    | succ fuel ih =>
      intro cs enough
      cases cs with
      | nil => exact .nil
      | cons c cs =>
        rw [List.length_cons] at enough
        rw [piecesFrom]
        split
        · rename_i name found
          split at found
          · rename_i brace
            subst brace
            have shape := (slot_split found).2
            have shorter := congrArg List.length shape
            rw [List.length_append, List.length_cons] at shorter
            have rest := ih (cs.drop (name.length + 1)) (by omega)
            generalize cs.drop (name.length + 1) = behind at shape rest
            subst shape
            rw [← String.toList_ofList (l := name)] at found ⊢
            rw [List.flatMap_cons, String.ofList_toList, Piece.shown]
            cases value : value? (String.ofList name) with
            | none => exact .unknown found value rest
            | some v => exact .known found value rest
          · cases found
        · rename_i plain
          refine .char (fun brace => ?_) (ih cs (by omega))
          rwa [if_pos brace] at plain
  rw [fill, String.toList_ofList]
  exact each s.length s.toList (Nat.le_of_eq String.length_toList)

theorem Filled.congr {value? other? : String → Option String} (same : ∀ name, name ≠ "" → value? name = other? name)
    {s t : List Char} (filled : Filled value? s t) : Filled other? s t := by
  have named {name : String} {s : List Char} (slot : slot? s = some name.toList) : name ≠ "" :=
    fun empty => (slot_split slot).1 (by rw [empty]; rfl)
  induction filled with
  | nil => exact .nil
  | char plain _ ih => exact .char plain ih
  | known slot value _ ih => exact .known slot ((same _ (named slot)).symm.trans value) ih
  | unknown slot value _ ih => exact .unknown slot ((same _ (named slot)).symm.trans value) ih

end Template

namespace Captures

theorem lookup_put (name text : String) (cs : Captures) (k : String) :
    (cs.put name text).lookup k = if k = name then some text else cs.lookup k := by
  refine lookup_set (put name text) ⟨rfl, fun (n, t) rest => ?_⟩ cs k
  rw [put]
  by_cases here : n = name <;> simp [here]

theorem lookup_addGroups (cs : Captures) (names texts : List String) {k : String} (named : k ≠ "") :
    (cs.addGroups names texts).lookup k =
      (((names.zip texts).reverse.find? fun g => g.1 == k && !g.2.isEmpty).map (·.2)).or
        (cs.lookup k) := by
  rw [addGroups]
  generalize names.zip texts = groups
  induction groups generalizing cs with
  | nil => rfl
  | cons g groups ih =>
    obtain ⟨n, t⟩ := g
    rw [List.foldl_cons, ih, List.reverse_cons, List.find?_append, Option.map_or, Option.or_assoc]
    congr 1
    by_cases mine : k = n
    · subst mine
      have some : k.isEmpty = false := by simpa using named
      cases empty : t.isEmpty <;> simp [some, empty, lookup_put]
    · have other : (n == k) = false := beq_eq_false_iff_ne.mpr (Ne.symm mine)
      simp only [List.find?_cons, other, Bool.false_and, List.find?_nil, Option.map_none, Option.none_or]
      split
      · rfl
      · rw [lookup_put, if_neg mine]

end Captures

/-- What the pattern captures under a name: the text of the last group that has this name and a text. -/
def Pattern.captured? (p : Pattern) (text name : String) : Option String :=
  (p.find? text).bind fun texts =>
    ((p.groups.zip texts).reverse.find? fun g => g.1 == name && !g.2.isEmpty).map (·.2)

def capturedFirst? (ps : List Pattern) (text name : String) : Option String :=
  (ps.find? fun p => (p.find? text).isSome).bind (·.captured? text name)

theorem firstCapture_lookup (ps : List Pattern) (text : String) (known : Captures) {name : String}
    (named : name ≠ "") :
    ((firstCapture ps text known).getD known).lookup name =
      (capturedFirst? ps text name).or (known.lookup name) := by
  unfold firstCapture capturedFirst?
  induction ps with
  | nil => rfl
  | cons p ps ih =>
    rw [List.findSome?_cons, List.find?_cons]
    cases found : p.find? text with
    | none => exact ih
    | some texts =>
      simp only [Option.map_some, Option.getD_some, Option.isSome_some, Option.bind_some,
        Pattern.captured?, found]
      exact Captures.lookup_addGroups known p.groups texts named

namespace Catalog

/-- The value for a slot of the entry when a record is told by it: what the patterns for the label
capture, or else those for the message, in source terms, or else the default. -/
def Entry.filling? (e : Entry) (d : RawDiagnostic) (slot : String) : Option String :=
  (((capturedFirst? e.labelMatchers (Text.composed d.label) slot).or
    (capturedFirst? e.matchers (Text.composed d.message) slot)).map (domainCapture slot)).or
      (e.defaults.lookup slot)

theorem captures_lookup {e : Entry} {message label : String} {byCode : Bool} {cs : Captures}
    (captured : e.captures? message label byCode = some cs) {name : String} (named : name ≠ "") :
    cs.lookup name = (capturedFirst? e.labelMatchers label name).or
      (capturedFirst? e.matchers message name) := by
  unfold Entry.captures? at captured
  obtain ⟨known, found, rfl⟩ := Option.map_eq_some_iff.mp captured
  rw [firstCapture_lookup _ _ _ named]
  congr 1
  split at found
  · rename_i bare
    cases found
    rw [Bool.and_eq_true, List.isEmpty_iff] at bare
    rw [bare.2]
    rfl
  · have given := firstCapture_lookup e.matchers message [] named
    rw [found] at given
    simpa using given

variable {c : Catalog} {d : RawDiagnostic} {m : CatalogMatch}

theorem match_captures (matched : c.match? d = some m) :
    ∃ byCode, m.entry.captures? (Text.composed d.message) (Text.composed d.label) byCode =
      some m.captures := by
  have among {es : List Entry} {byCode : Bool}
      (found : (es.findSome? fun e =>
        (e.captures? (Text.composed d.message) (Text.composed d.label) byCode).map
          fun captures => ({ entry := e, captures } : CatalogMatch)) = some m) :
      m.entry.captures? (Text.composed d.message) (Text.composed d.label) byCode =
        some m.captures := by
    obtain ⟨e, -, fits⟩ := List.exists_of_findSome?_eq_some found
    obtain ⟨captures, captured, rfl⟩ := Option.map_eq_some_iff.mp fits
    exact captured
  unfold match? at matched
  dsimp only at matched
  rcases Option.or_eq_some_iff.mp matched with named | ⟨-, plain⟩
  · split at named
    · cases named
    · exact ⟨true, among named⟩
  · exact ⟨false, among plain⟩

theorem match_value (matched : c.match? d = some m) {slot : String} (named : slot ≠ "") :
    m.value? slot = m.entry.filling? d slot := by
  obtain ⟨byCode, captured⟩ := match_captures matched
  rw [CatalogMatch.value?, Entry.filling?, captures_lookup captured named]
  cases (capturedFirst? m.entry.labelMatchers (Text.composed d.label) slot).or
      (capturedFirst? m.entry.matchers (Text.composed d.message) slot) with
  | none => rfl
  | some t => rfl

theorem Entry.Valid.group_of_unfilled {e : Entry} (valid : e.Valid) {slot : String}
    (member : slot ∈ e.slots) (unfilled : e.filling? d slot = none) :
    slot ∈ Draft.groupNames (e.matchers ++ e.labelMatchers) := by
  rcases valid.slots slot member with group | default
  · exact group
  · rw [(Option.or_eq_none_iff.mp unfilled).2] at default
    cases default

theorem match_mem (sound : c.Sound) (matched : c.match? d = some m) : m.entry ∈ c.entries := by
  have picked := sound.match_eq d
  rw [matched, Option.map_some, chosen] at picked
  rcases Option.or_eq_some_iff.mp picked.symm with named | ⟨-, plain⟩
  · exact List.mem_of_find?_eq_some named
  · exact List.mem_of_find?_eq_some plain

end Catalog

namespace CatalogMatch

def IsFilled (m : CatalogMatch) : Prop := ∀ slot ∈ m.entry.slots, (m.value? slot).isSome = true

theorem texts_shown (m : CatalogMatch) :
    List.Forall₂ (fun template shown => Template.Filled m.value? template.toList shown.toList ∧
        ∀ slot ∈ Template.slots template, m.value? slot = none →
          Template.written slot <:+: shown.toList)
      (m.entry.message :: m.entry.suggestions) (m.message :: m.suggestions) := by
  have texts : m.message :: m.suggestions =
      (m.entry.message :: m.entry.suggestions).map (Template.fill m.value?) := rfl
  rw [texts, List.forall₂_map_right_iff, List.forall₂_same]
  exact fun template _ => ⟨Template.fill_filled m.value? template,
    fun slot member unknown => Template.unfilled_shown member unknown⟩

end CatalogMatch

/-- A record that a catalog knows is told with every slot filled in exactly when each slot of the entry
is captured by the first of the patterns for the message that is found, or by the first one for the label,
or has a default. In the message and the suggestions that are told, this is what stands in its place. Any
other slot is a group of some pattern, and shows as it is written. -/
theorem match_filled_iff {calls : List Catalog.Call} {c : Catalog} (there : c ∈ Catalog.shelf calls)
    {d : RawDiagnostic} {m : CatalogMatch} (matched : c.match? d = some m) :
    m.entry ∈ c.entries ∧
      (m.IsFilled ↔ ∀ slot ∈ m.entry.slots, (m.entry.filling? d slot).isSome = true) ∧
      (∀ slot ∈ m.entry.slots, m.value? slot = m.entry.filling? d slot) ∧
      (∀ slot ∈ m.entry.slots, m.value? slot = none →
        slot ∈ Draft.groupNames (m.entry.matchers ++ m.entry.labelMatchers)) ∧
      List.Forall₂ (fun template shown =>
          Template.Filled (m.entry.filling? d) template.toList shown.toList ∧
          ∀ slot ∈ Template.slots template, m.value? slot = none →
            Template.written slot <:+: shown.toList)
        (m.entry.message :: m.entry.suggestions) (m.message :: m.suggestions) := by
  have made := Catalog.shelf_made calls c there
  have entry : m.entry ∈ c.entries := Catalog.match_mem made.sound matched
  have value : ∀ slot ∈ m.entry.slots, m.value? slot = m.entry.filling? d slot := by
    intro slot member
    obtain ⟨text, -, within⟩ := List.mem_flatMap.mp member
    exact Catalog.match_value matched (Template.slots_nonempty within)
  have shown := m.texts_shown.imp fun _ _ text =>
    And.imp_left (Template.Filled.congr fun _ named => Catalog.match_value matched named) text
  refine ⟨entry, ?_, value, ?_, shown⟩
  · exact forall₂_congr fun slot member => by rw [value slot member]
  · intro slot member unfilled
    rw [value slot member] at unfilled
    exact (made.valid m.entry entry).group_of_unfilled member unfilled

namespace Sample

def overtaken : String :=
  "version: 1\nentries:\n- code: BCK4001\n  category: lost\n  message: 'lost \x7bname\x7d'\n" ++
    "  patterns: [lost, 'lost (?P<name>q)']\n"

def lostRecord : RawDiagnostic := { message := "lost q" }

theorem overtaken_told :
    ((Catalog.parse overtaken).toOption.bind (·.match? lostRecord)).map
        (fun m => (m.message, m.entry.slots, m.value? "name")) =
      some ("lost \x7bname\x7d", ["name"], none) := by
  decide +kernel

theorem overtaken_matched :
    ∃ c m, c ∈ Catalog.shelf [.parse overtaken] ∧ c.match? lostRecord = some m ∧
      m.message = "lost \x7bname\x7d" ∧ m.entry.slots = ["name"] ∧ m.value? "name" = none := by
  obtain ⟨m, found, told⟩ := Option.map_eq_some_iff.mp overtaken_told
  obtain ⟨c, parsed, matched⟩ := Option.bind_eq_some_iff.mp found
  obtain ⟨message, rest⟩ := Prod.mk.inj told
  obtain ⟨slots, unknown⟩ := Prod.mk.inj rest
  exact ⟨c, m, Catalog.shelf_parse parsed, matched, message, slots, unknown⟩

end Sample

/-- A slot that a pattern has a group for, and that is left open nevertheless. -/
theorem slot_left_open :
    ∃ c m, c ∈ Catalog.shelf [.parse Sample.overtaken] ∧ c.match? Sample.lostRecord = some m ∧
      ¬m.IsFilled ∧ m.message = "lost \x7bname\x7d" := by
  obtain ⟨c, m, there, matched, message, slots, unknown⟩ := Sample.overtaken_matched
  refine ⟨c, m, there, matched, fun filled => ?_, message⟩
  have known := filled "name" (by rw [slots]; exact List.mem_singleton_self _)
  rw [unknown] at known
  cases known

theorem overtaken_filled_iff :
    ∃ c m, c ∈ Catalog.shelf [.parse Sample.overtaken] ∧ c.match? Sample.lostRecord = some m ∧
      m.entry.filling? Sample.lostRecord "name" = none ∧
      "name" ∈ Draft.groupNames (m.entry.matchers ++ m.entry.labelMatchers) := by
  obtain ⟨c, m, there, matched, -, slots, unknown⟩ := Sample.overtaken_matched
  obtain ⟨-, -, value, group, -⟩ := match_filled_iff there matched
  have member : "name" ∈ m.entry.slots := by rw [slots]; exact List.mem_singleton_self _
  exact ⟨c, m, there, matched, (value "name" member).symm.trans unknown, group "name" member unknown⟩

end Tenure
