import Tenure.Backend.Spelling
import Tenure.Proofs.TypeGrammar
import Tenure.Proofs.TypeScans

/- A type that is written for the backend and told in source terms reads as itself. The two texts meet in
   the brief spelling of the type, which leaves out unit results. -/
namespace Tenure

namespace TypeText

open Text (Solid listed)

variable {c : Char} {x : List Char}

theorem isPlain_of_isNameChar (name : Ty.isNameChar c = true) : isPlain c = true := by
  have foreign : ∀ d ∈ ['<', '(', '[', '>', ')', ']', ',', '-'], c ≠ d := by
    have others : ['<', '(', '[', '>', ')', ']', ',', '-'].all (!Ty.isNameChar ·) = true := by decide
    rintro d mem rfl
    have foreign := List.all_eq_true.mp others c mem
    rw [name] at foreign
    exact absurd foreign (by decide)
  simp only [List.forall_mem_cons] at foreign
  simp [isPlain, isOpening, isClosing, foreign]

structure Tells (x s : List Char) : Prop where
  steady : Steady 0 x
  solid : Solid x
  owned : x.head? ≠ some '&'
  told : ∀ {fuel}, x.length < fuel → domainFrom fuel x = s

theorem stripRefs_owned (owned : x.head? ≠ some '&') (fuel : Nat) : stripRefs fuel x = x := by
  cases fuel with
  | zero => rfl
  | succ fuel =>
    rw [stripRefs]
    rintro t rfl
    exact owned rfl

theorem scalar?_foreign (mem : c ∈ x) (foreign : c ∈ [' ', '<', 'F']) : scalar? x = none := by
  have none : scalars.find? (fun s => s.1.toList == x) = none := by
    rw [List.find?_eq_none]
    intro s known is
    rw [beq_iff_eq] at is
    have others : scalars.all (fun s => [' ', '<', 'F'].all fun c => !s.1.toList.contains c) = true := by
      decide
    have missing := List.all_eq_true.mp (List.all_eq_true.mp others s known) c foreign
    rw [is, List.contains_iff_mem.mpr mem] at missing
    exact absurd missing (by decide)
  rw [scalar?, none]
  rfl

theorem cutLead_missing {lead : String} (mem : c ∈ lead.toList)
    (missing : c ∉ x) : cutLead lead x = none := by
  rw [cutLead, if_neg]
  intro here
  exact missing ((List.isPrefixOf_iff_prefix.1 here).subset mem)

theorem upToColons_plain (plain : ':' ∉ x) : upToColons x = x := by
  induction x with
  | nil => rfl
  | cons c x ih =>
    rw [List.mem_cons, not_or] at plain
    rw [upToColons, ih plain.2]
    rintro _ rfl
    exact absurd rfl plain.1

theorem lastSegment_plain (plain : ':' ∉ x) (other : scalar? x = none) : lastSegment x = x := by
  have last : (upToColons x.reverse).reverse = x := by
    rw [upToColons_plain (by simpa using plain), List.reverse_reverse]
  rw [lastSegment, last, other]
  rfl

section Forms

variable {x s : List Char}

structure Unmarked (x : List Char) : Prop where
  solid : Solid x
  owned : x.head? ≠ some '&'
  other : scalar? x = none
  unled : (cutLead "impl " x).or (cutLead "dyn " x) = none
  round : x.head? ≠ some '('
  square : x.head? ≠ some '['

theorem Unmarked.of_capital {c : Char} (first : x.head? = some c) (capital : c ∈ ['V', 'O', 'B', 'F'])
    (last : ∃ c front, x = front ++ [c] ∧ Text.isBlank c = false) (other : scalar? x = none) :
    Unmarked x := by
  obtain ⟨rest, rfl⟩ := List.head?_eq_some_iff.1 first
  simp only [List.mem_cons, List.not_mem_nil, or_false] at capital
  rcases capital with rfl | rfl | rfl | rfl
  all_goals
    constructor
    · exact ⟨⟨_, rest, rfl, by decide⟩, last⟩
    · simp
    · exact other
    · rfl
    · simp
    · simp

theorem functionParts?_capital {c : Char} (first : x.head? = some c) (capital : c ∈ ['V', 'O', 'B']) :
    functionParts? x = none := by
  obtain ⟨rest, rfl⟩ := List.head?_eq_some_iff.1 first
  simp only [List.mem_cons, List.not_mem_nil, or_false] at capital
  rcases capital with rfl | rfl | rfl <;> rfl

theorem enclosed?_head {front back : Char} (differs : x.head? ≠ some front) :
    enclosed? front back x = none := by
  cases x with
  | nil => rfl
  | cons c x =>
    rw [enclosed?, if_neg]
    rintro ⟨rfl, -⟩
    exact differs rfl

theorem domainFrom_function (unmarked : Unmarked x) {params rest : List Char}
    (parts? : functionParts? x = some (params, rest)) (fuel : Nat) :
    domainFrom (fuel + 1) x =
      let result := ((cutLead "->" (Text.trimChars rest)).map (domainFrom fuel)).getD "void".toList
      "fn(".toList ++ listed ((parts params).map (domainFrom fuel)) ++ [')'] ++
        (if result = "void".toList then [] else arrow ++ result) := by
  rw [domainFrom]
  simp only [Text.trimChars_solid unmarked.solid, stripRefs_owned unmarked.owned, unmarked.other,
    unmarked.unled, enclosed?_head unmarked.round, enclosed?_head unmarked.square, parts?, listed]
  cases cutLead "->" (Text.trimChars rest) <;> rfl

theorem domainFrom_segment (unmarked : Unmarked x) (parts? : functionParts? x = none)
    (plain : '<' ∉ x) (fuel : Nat) : domainFrom (fuel + 1) x = lastSegment x := by
  have whole : x.takeWhile (· != '<') = x := by
    rw [List.takeWhile_eq_self_iff]
    intro c mem
    rw [bne_iff_ne]
    rintro rfl
    exact plain mem
  rw [domainFrom]
  simp only [Text.trimChars_solid unmarked.solid, stripRefs_owned unmarked.owned, unmarked.other,
    unmarked.unled, enclosed?_head unmarked.round, enclosed?_head unmarked.square, parts?, whole,
    List.drop_length]

theorem domainFrom_application {name args : List Char} (unmarked : Unmarked (name ++ '<' :: args ++ ['>']))
    (parts? : functionParts? (name ++ '<' :: args ++ ['>']) = none) (plain : '<' ∉ name) (fuel : Nat) :
    domainFrom (fuel + 1) (name ++ '<' :: args ++ ['>']) =
      application (lastSegment name) ((parts args).map (domainFrom fuel)) := by
  have front : (name ++ '<' :: args ++ ['>']).takeWhile (· != '<') = name := by
    rw [List.append_assoc, List.takeWhile_append_of_pos]
    · simp
    · intro c mem
      rw [bne_iff_ne]
      rintro rfl
      exact plain mem
  have back : (name ++ '<' :: args ++ ['>']).drop name.length = '<' :: (args ++ ['>']) := by
    simp
  rw [domainFrom]
  simp only [Text.trimChars_solid unmarked.solid, stripRefs_owned unmarked.owned, unmarked.other,
    unmarked.unled, enclosed?_head unmarked.round, enclosed?_head unmarked.square, parts?, front, back,
    List.getLast?_concat, if_true, List.dropLast_concat]

theorem Tells.of_step (steady : Steady 0 x) (solid : Solid x) (owned : x.head? ≠ some '&')
    (step : ∀ {fuel}, x.length < fuel + 1 → domainFrom (fuel + 1) x = s) : Tells x s := by
  refine ⟨steady, solid, owned, fun {fuel} enough => ?_⟩
  obtain ⟨fuel, rfl⟩ := Nat.exists_eq_succ_of_ne_zero (Nat.ne_zero_of_lt enough)
  exact step enough

theorem Tells.scalar (known : scalar? x = some s) (steady : Steady 0 x) (solid : Solid x)
    (owned : x.head? ≠ some '&') : Tells x s := by
  refine .of_step steady solid owned fun _ => ?_
  rw [domainFrom]
  simp only [Text.trimChars_solid solid, stripRefs_owned owned, known]

section Names

variable {word : List Char}

theorem solid_names (some : word ≠ []) (all : ∀ c ∈ word, Ty.isNameChar c = true) : Solid word := by
  constructor
  · obtain ⟨c, rest, rfl⟩ := List.exists_cons_of_ne_nil some
    exact ⟨c, rest, rfl, Ty.visible_of_isNameChar (all c (by simp))⟩
  · have last := all _ (List.getLast_mem some)
    exact ⟨_, _, (List.dropLast_append_getLast some).symm, Ty.visible_of_isNameChar last⟩

theorem Steady.names (all : ∀ c ∈ word, Ty.isNameChar c = true) : Steady 0 word := by
  apply Steady.plain
  rw [List.all_eq_true]
  intro c mem
  exact isPlain_of_isNameChar (all c mem)

theorem Tells.name (some : word ≠ []) (all : ∀ c ∈ word, Ty.isNameChar c = true)
    (other : scalar? word = none) : Tells word word := by
  have missing : ∀ d, Ty.isNameChar d = false → d ∉ word := by
    intro d foreign mem
    rw [all d mem] at foreign
    exact absurd foreign (by decide)
  have head : ∀ d, Ty.isNameChar d = false → word.head? ≠ Option.some d := fun d foreign first =>
    missing d foreign (List.mem_of_mem_head? first)
  have unmarked : Unmarked word := by
    constructor
    · exact solid_names some all
    · exact head '&' (by decide)
    · exact other
    · rw [cutLead_missing (c := ' ') (by decide) (missing _ (by decide)),
        cutLead_missing (c := ' ') (by decide) (missing _ (by decide))]
      rfl
    · exact head '(' (by decide)
    · exact head '[' (by decide)
  have parts? : functionParts? word = none := by
    have none : functionNames.findSome? (fun n => cutLead (n ++ "(") word) = none := by
      rw [List.findSome?_eq_none_iff]
      intro n _
      exact cutLead_missing (c := '(') (by simp) (missing _ (by decide))
    rw [functionParts?, none]
    rfl
  refine .of_step (.names all) unmarked.solid unmarked.owned fun _ => ?_
  rw [domainFrom_segment unmarked parts? (missing _ (by decide)),
    lastSegment_plain (missing _ (by decide)) other]

end Names

theorem Tells.led {lead : String} (known : lead = "impl " ∨ lead = "dyn ") (tells : Tells x s) :
    Tells (lead.toList ++ x) s := by
  have solid : Solid (lead.toList ++ x) := by
    constructor
    · rcases known with rfl | rfl
      · exact ⟨'i', _, rfl, by decide⟩
      · exact ⟨'d', _, rfl, by decide⟩
    · obtain ⟨c, front, rfl, visible⟩ := tells.solid.last
      exact ⟨c, lead.toList ++ front, by simp, visible⟩
  have owned : (lead.toList ++ x).head? ≠ some '&' := by
    rcases known with rfl | rfl <;> simp
  have plain : lead.toList.all isPlain = true ∧ ' ' ∈ lead.toList := by
    rcases known with rfl | rfl <;> decide
  refine .of_step ((Steady.plain plain.1).append tells.steady) solid owned fun {fuel} enough => ?_
  have other : scalar? (lead.toList ++ x) = none :=
    scalar?_foreign (List.mem_append_left x plain.2) (by decide)
  have cut : (cutLead "impl " (lead.toList ++ x)).or (cutLead "dyn " (lead.toList ++ x)) = some x := by
    rcases known with rfl | rfl <;> rfl
  have shorter : x.length < fuel := by
    have long := List.length_pos_of_mem plain.2
    rw [List.length_append] at enough
    omega
  rw [domainFrom]
  simp only [Text.trimChars_solid solid, stripRefs_owned owned, other, cut, tells.told shorter]

theorem Tells.wrapped {name : List Char} (known : name ∈ ["Vec".toList, "Option".toList, "Box".toList])
    (tells : Tells x s) : Tells (name ++ '<' :: x ++ ['>']) (application name [s]) := by
  have plain : name.all isPlain = true ∧ '<' ∉ name ∧ ':' ∉ name ∧ scalar? name = none := by
    revert name
    decide
  obtain ⟨c, capital, first⟩ : ∃ c ∈ ['V', 'O', 'B'], name.head? = some c := by
    simp only [List.mem_cons, List.not_mem_nil, or_false] at known
    rcases known with rfl | rfl | rfl
    · exact ⟨'V', by simp, rfl⟩
    · exact ⟨'O', by simp, rfl⟩
    · exact ⟨'B', by simp, rfl⟩
  have head : (name ++ '<' :: x ++ ['>']).head? = some c := by
    obtain ⟨rest, rfl⟩ := List.head?_eq_some_iff.1 first
    rfl
  have unmarked : Unmarked (name ++ '<' :: x ++ ['>']) := by
    apply Unmarked.of_capital head
    · exact List.mem_append_left ['F'] capital
    · exact ⟨'>', name ++ '<' :: x, rfl, by decide⟩
    · exact scalar?_foreign (c := '<') (by simp) (by decide)
  have alone : parts x = [x] := by
    have single : parts (listed [x]) = [x] :=
      parts_listed (by simpa using tells.steady) (by simpa using tells.solid)
    rwa [listed, List.intercalate_singleton] at single
  refine .of_step ?_ unmarked.solid unmarked.owned fun {fuel} enough => ?_
  · have front : Steady 0 name := .plain plain.1
    rw [List.append_assoc]
    exact front.append (tells.steady.deeper (by decide)).angled
  · have shorter : x.length < fuel := by
      simp only [List.length_append, List.length_cons, List.length_nil] at enough
      omega
    rw [domainFrom_application unmarked (functionParts?_capital head capital) plain.2.1,
      lastSegment_plain plain.2.2.1 plain.2.2.2, alone, List.map_singleton, tells.told shorter]

section Functions

variable {xs ss : List (List Char)}

theorem steady_of_tells (tells : List.Forall₂ Tells xs ss) : ∀ x ∈ xs, Steady 0 x := by
  induction tells with
  | nil => simp
  | cons first _ ih => exact List.forall_mem_cons.2 ⟨first.steady, ih⟩

theorem solid_of_tells (tells : List.Forall₂ Tells xs ss) : ∀ x ∈ xs, Solid x := by
  induction tells with
  | nil => simp
  | cons first _ ih => exact List.forall_mem_cons.2 ⟨first.solid, ih⟩

theorem domainFrom_blank (solid : Solid x) (fuel : Nat) :
    domainFrom (fuel + 1) (' ' :: x) = domainFrom (fuel + 1) x := by
  rw [domainFrom, domainFrom]
  simp only [Text.trimChars_blank solid, Text.trimChars_solid solid]

def fnHead (xs : List (List Char)) : List Char := 'F' :: 'n' :: '(' :: listed xs ++ [')']

theorem functionParts?_fnHead (tells : List.Forall₂ Tells xs ss) (rest : List Char) :
    functionParts? (fnHead xs ++ rest) = some (listed xs, rest) := by
  have steady : Steady 1 (listed xs) := .listed (steady_of_tells tells)
  have text : fnHead xs ++ rest = 'F' :: 'n' :: '(' :: (listed xs ++ ')' :: rest) := by
    simp [fnHead]
  have cut : functionParts? ('F' :: 'n' :: '(' :: (listed xs ++ ')' :: rest)) =
      balanced 1 (listed xs ++ ')' :: rest) := rfl
  rw [text, cut, steady.parens 0]
  simp [balanced]

theorem map_told (tells : List.Forall₂ Tells xs ss) {fuel : Nat} (enough : (listed xs).length < fuel) :
    (parts (listed xs)).map (domainFrom fuel) = ss := by
  have each : ∀ x ∈ xs, x.length < fuel := fun x mem =>
    Nat.lt_of_le_of_lt (Text.length_le_listed mem) enough
  rw [parts_listed (steady_of_tells tells) (solid_of_tells tells)]
  clear enough
  induction tells with
  | nil => rfl
  | cons first _ ih =>
    rw [List.forall_mem_cons] at each
    rw [List.map_cons, first.told each.1, ih each.2]

theorem Unmarked.fn (xs : List (List Char)) {rest : List Char}
    (last : ∃ c front, fnHead xs ++ rest = front ++ [c] ∧ Text.isBlank c = false) :
    Unmarked (fnHead xs ++ rest) := by
  apply Unmarked.of_capital (c := 'F') rfl (by decide) last
  exact scalar?_foreign (c := 'F') (by simp [fnHead]) (by decide)

theorem Steady.fnHead (tells : List.Forall₂ Tells xs ss) : Steady 0 (fnHead xs) := by
  have name : Steady 0 ['F', 'n'] := .plain (by decide)
  exact name.append (Steady.listed (steady_of_tells tells)).parenthesized

theorem Tells.procedure (tells : List.Forall₂ Tells xs ss) :
    Tells (fnHead xs) ('f' :: 'n' :: '(' :: listed ss ++ [')']) := by
  have unmarked : Unmarked (fnHead xs ++ []) :=
    .fn xs ⟨')', 'F' :: 'n' :: '(' :: listed xs, by simp [fnHead], by decide⟩
  have parts? := functionParts?_fnHead tells []
  rw [List.append_nil] at unmarked parts?
  refine .of_step (.fnHead tells) unmarked.solid unmarked.owned fun {fuel} enough => ?_
  have shorter : (listed xs).length < fuel := by
    simp only [fnHead, List.length_append, List.length_cons, List.length_nil] at enough
    omega
  have no_result : cutLead "->" (Text.trimChars []) = none := rfl
  rw [domainFrom_function unmarked parts?, map_told tells shorter, no_result]
  simp

theorem Tells.function (tells : List.Forall₂ Tells xs ss) {r t : List Char} (result : Tells r t)
    (some : t ≠ "void".toList) :
    Tells (fnHead xs ++ (" -> ".toList ++ r))
      ('f' :: 'n' :: '(' :: listed ss ++ ')' :: ' ' :: '-' :: '>' :: ' ' :: t) := by
  have unmarked : Unmarked (fnHead xs ++ (" -> ".toList ++ r)) := by
    obtain ⟨c, front, rfl, visible⟩ := result.solid.last
    exact .fn xs ⟨c, fnHead xs ++ (" -> ".toList ++ front), by simp, visible⟩
  refine .of_step ((Steady.fnHead tells).append (Steady.arrow.append result.steady)) unmarked.solid
    unmarked.owned fun {fuel} enough => ?_
  simp only [fnHead, List.length_append, List.length_cons, List.length_nil] at enough
  have shorter : (listed xs).length < fuel := by omega
  have cut : cutLead "->" (Text.trimChars (" -> ".toList ++ r)) = Option.some (' ' :: r) := by
    have solid : Solid ('-' :: '>' :: ' ' :: r) := by
      obtain ⟨c, front, rfl, visible⟩ := result.solid.last
      exact ⟨⟨'-', _, rfl, by decide⟩, ⟨c, '-' :: '>' :: ' ' :: front, rfl, visible⟩⟩
    have trimmed : Text.trimChars (" -> ".toList ++ r) = '-' :: '>' :: ' ' :: r :=
      Text.trimChars_blank solid
    rw [trimmed]
    rfl
  have told : domainFrom fuel (' ' :: r) = t := by
    obtain ⟨fuel, rfl⟩ := Nat.exists_eq_succ_of_ne_zero (Nat.ne_zero_of_lt shorter)
    rw [domainFrom_blank result.solid, result.told (by omega)]
  rw [domainFrom_function unmarked (functionParts?_fnHead tells _), map_told tells shorter, cut]
  simp only [Option.map_some, Option.getD_some, told, if_neg some]
  simp [arrow]

end Functions

end Forms

end TypeText

namespace Ty

open Text (listed)
open TypeText (Tells Steady fnHead)

mutual
def brief : Ty → String
  | .unknown | .unit => "void"
  | .int => "int"
  | .float => "float"
  | .bool => "bool"
  | .string => "string"
  | .named name .. => name
  | .array elem => "[" ++ elem.brief ++ "]"
  | .optional elem => elem.brief ++ "?"
  | .func params result => "fn(" ++ ", ".intercalate (briefs params) ++ ")" ++
    if result.isUnit then "" else " -> " ++ result.brief
def briefs : List Ty → List String
  | [] => []
  | t :: ts => t.brief :: briefs ts
end

theorem toList_brief_array (elem : Ty) :
    (array elem).brief.toList = '[' :: elem.brief.toList ++ [']'] := by
  simp [brief]

theorem toList_brief_optional (elem : Ty) :
    (optional elem).brief.toList = elem.brief.toList ++ ['?'] := by
  simp [brief]

theorem toList_brief_func (params : List Ty) (result : Ty) :
    (func params result).brief.toList =
      'f' :: 'n' :: '(' :: listed ((briefs params).map String.toList) ++
        ')' :: if result.isUnit then [] else ' ' :: '-' :: '>' :: ' ' :: result.brief.toList := by
  have comma : ", ".toList = [',', ' '] := rfl
  cases unit : result.isUnit <;> simp [brief, unit, listed, String.toList_intercalate, comma]

def keywords : List String := ["int", "float", "bool", "string", "void", "unit"]

def isStructName (name : String) : Bool :=
  !name.toList.isEmpty && name.toList.all isNameChar && !keywords.contains name &&
    (TypeText.scalar? name.toList).isNone

def isFunc : Ty → Bool
  | .func .. => true
  | _ => false

mutual
/-- The type can be told: it is known, its names mean structs, and no function is optional, whose mark
would belong to the result. -/
def isTellable : Ty → Bool
  | .unknown => false
  | .named name .. => isStructName name
  | .array elem => elem.isTellable
  | .optional elem => !elem.isFunc && elem.isTellable
  | .func params result => areTellable params && result.isTellable
  | _ => true
def areTellable : List Ty → Bool
  | [] => true
  | t :: ts => t.isTellable && areTellable ts
end

def bare (t : Ty) : Ty := t.withProps fun _ => some (false, false)

mutual
def isBare : Ty → Bool
  | .named _ copy noClone => !copy && !noClone
  | .array elem | .optional elem => elem.isBare
  | .func params result => areBare params && result.isBare
  | _ => true
def areBare : List Ty → Bool
  | [] => true
  | t :: ts => t.isBare && areBare ts
end

mutual
theorem bare_eq_self {t : Ty} (h : t.isBare = true) : t.bare = t := by
  cases t with
  | named name copy noClone =>
    rw [isBare, Bool.and_eq_true, Bool.not_eq_true', Bool.not_eq_true'] at h
    rw [bare, withProps, h.1, h.2]
  | array elem =>
    rw [isBare] at h
    have elem := bare_eq_self h
    rw [bare] at elem
    rw [bare, withProps, elem]
  | optional elem =>
    rw [isBare] at h
    have elem := bare_eq_self h
    rw [bare] at elem
    rw [bare, withProps, elem]
  | func params result =>
    rw [isBare, Bool.and_eq_true] at h
    have result := bare_eq_self h.2
    rw [bare] at result
    rw [bare, withProps, result, bareAll_eq_self h.1]
  | _ => rfl
theorem bareAll_eq_self {ts : List Ty} (h : areBare ts = true) :
    withPropsAll (fun _ => some (false, false)) ts = ts := by
  cases ts with
  | nil => rfl
  | cons t ts =>
    rw [areBare, Bool.and_eq_true] at h
    have first := bare_eq_self h.1
    rw [bare] at first
    rw [withPropsAll, first, bareAll_eq_self h.2]
end

theorem isStructName_iff {name : String} : isStructName name = true ↔
    name.toList ≠ [] ∧ (∀ c ∈ name.toList, isNameChar c = true) ∧ name ∉ keywords ∧
      TypeText.scalar? name.toList = none := by
  simp [isStructName, and_assoc]

theorem ofName_struct {name : String} (other : name ∉ keywords) :
    ofName name = .named name false false := by
  unfold ofName
  split
  all_goals simp_all [keywords]

theorem fnBound_toList (params : List String) (isUnit : Bool) (result : String) :
    (fnBound params isUnit result).toList = fnHead (params.map String.toList) ++
      if isUnit then [] else " -> ".toList ++ result.toList := by
  have comma : ", ".toList = [',', ' '] := rfl
  cases isUnit <;>
    simp [fnBound, fnHead, listed, String.toList_append, String.toList_intercalate, comma]

theorem brief_ne_void {t : Ty} (tellable : t.isTellable = true) (other : t.isUnit = false) :
    t.brief.toList ≠ "void".toList := by
  cases t with
  | unknown | unit => simp [isUnit] at other
  | named name copy noClone =>
    rw [isTellable, isStructName_iff] at tellable
    intro same
    rw [brief, String.toList_inj] at same
    exact tellable.2.2.1 (same ▸ by decide)
  | optional elem =>
    intro same
    rw [toList_brief_optional] at same
    have last := congrArg List.getLast? same
    simp at last
  | _ => simp [brief]

theorem tells_fnBound {params : List Ty} {result : Ty}
    (told : List.Forall₂ Tells ((backendAll params).map String.toList) ((briefs params).map String.toList))
    (back : Tells result.backend.toList result.brief.toList)
    (some : result.isUnit = false → result.brief.toList ≠ "void".toList) :
    Tells (fnBound (backendAll params) result.isUnit result.backend).toList
      (func params result).brief.toList := by
  rw [fnBound_toList, toList_brief_func]
  cases unit : result.isUnit with
  | true =>
    rw [if_pos rfl, if_pos rfl, List.append_nil]
    exact .procedure told
  | false =>
    rw [if_neg (by decide), if_neg (by decide)]
    exact .function told back (some unit)

mutual
theorem tells_backend {t : Ty} (h : t.isTellable = true) : Tells t.backend.toList t.brief.toList := by
  cases t with
  | unknown => simp [isTellable] at h
  | unit =>
    exact .scalar rfl (Steady.nil 1).parenthesized
      ⟨⟨'(', [')'], rfl, by decide⟩, ⟨')', ['('], rfl, by decide⟩⟩ (by decide)
  | named name copy noClone =>
    rw [isTellable, isStructName_iff] at h
    exact .name h.1 h.2.1 h.2.2.2
  | array elem =>
    rw [isTellable] at h
    have text : (array elem).backend.toList = "Vec".toList ++ '<' :: elem.backend.toList ++ ['>'] := by
      simp [backend]
    rw [text, toList_brief_array]
    exact .wrapped (by decide) (tells_backend h)
  | optional elem =>
    rw [isTellable, Bool.and_eq_true] at h
    have text : (optional elem).backend.toList = "Option".toList ++ '<' :: elem.backend.toList ++ ['>'] := by
      simp [backend]
    rw [text, toList_brief_optional]
    exact .wrapped (by decide) (tells_backend h.2)
  | func params result =>
    rw [isTellable, Bool.and_eq_true] at h
    have text : (func params result).backend.toList =
        "impl ".toList ++ (fnBound (backendAll params) result.isUnit result.backend).toList := by
      simp [backend]
    rw [text]
    exact .led (.inl rfl)
      (tells_fnBound (tells_backendAll h.1) (tells_backend h.2) (brief_ne_void h.2))
  | _ =>
    apply Tells.scalar rfl
    · exact .names (List.all_eq_true.mp (by decide))
    · exact TypeText.solid_names (by decide) (List.all_eq_true.mp (by decide))
    · decide
theorem tells_backendAll {ts : List Ty} (h : areTellable ts = true) :
    List.Forall₂ Tells ((backendAll ts).map String.toList) ((briefs ts).map String.toList) := by
  cases ts with
  | nil => exact .nil
  | cons t ts =>
    rw [areTellable, Bool.and_eq_true] at h
    exact .cons (tells_backend h.1) (tells_backendAll h.2)
end

theorem tells_backendField {t : Ty} (h : t.isTellable = true) :
    Tells t.backendField.toList t.brief.toList := by
  cases t with
  | func params result =>
    rw [isTellable, Bool.and_eq_true] at h
    have text : (func params result).backendField.toList = "Box".toList ++
        '<' :: ("dyn ".toList ++ (fnBound (backendAll params) result.isUnit result.backend).toList) ++
          ['>'] := by
      simp [backendField]
    have bound := tells_fnBound (tells_backendAll h.1) (tells_backend h.2) (brief_ne_void h.2)
    rw [text]
    exact .wrapped (by decide) (.led (.inr rfl) bound)
  | _ => exact tells_backend h

mutual
theorem reads_brief {t : Ty} (h : t.isTellable = true) :
    Written t.brief.toList t.bare ∧ (t.isFunc = false → Marked t.brief.toList t.bare) := by
  have taken (type : Marked t.brief.toList t.bare) :
      Written t.brief.toList t.bare ∧ (t.isFunc = false → Marked t.brief.toList t.bare) :=
    ⟨.marked type, fun _ => type⟩
  cases t with
  | unknown => simp [isTellable] at h
  | named name copy noClone =>
    rw [isTellable, isStructName_iff] at h
    have type := Marked.name 0 h.1 h.2.1
    rw [String.ofList_toList, ofName_struct h.2.2.1] at type
    exact taken type
  | array elem =>
    rw [isTellable] at h
    rw [toList_brief_array] at taken ⊢
    exact taken (.array 0 0 (reads_brief h).1)
  | optional elem =>
    rw [isTellable, Bool.and_eq_true, Bool.not_eq_true'] at h
    rw [toList_brief_optional] at taken ⊢
    exact taken (.optional 0 ((reads_brief h.2).2 h.1))
  | func params result =>
    rw [isTellable, Bool.and_eq_true] at h
    rw [toList_brief_func]
    constructor
    · cases unit : result.isUnit with
      | true =>
        have void : result = .unit := by
          cases result <;> simp_all [isUnit, isTellable]
        rw [void]
        exact .marked (.procedure 0 (.listed (reads_briefs h.1)))
      | false =>
        have type : Written _ (func params result).bare :=
          .function 0 1 (.listed (reads_briefs h.1)) (reads_brief h.2).1.blank
        simpa [spaced] using type
    · simp [isFunc]
  | _ => exact taken (Marked.name 0 (by decide) (List.all_eq_true.mp (by decide)))
theorem reads_briefs {ts : List Ty} (h : areTellable ts = true) :
    List.Forall₂ Written ((briefs ts).map String.toList)
      (withPropsAll (fun _ => some (false, false)) ts) := by
  cases ts with
  | nil => exact .nil
  | cons t ts =>
    rw [areTellable, Bool.and_eq_true] at h
    exact .cons (reads_brief h.1).1 (reads_briefs h.2)
end

end Ty

theorem parse_domainType {x : String} {s : List Char} {t : Ty} (tells : TypeText.Tells x.toList s)
    (reads : Ty.Written s t) : Ty.parse (domainType x) = .ok t := by
  have told : TypeText.domainFrom (x.length + 1) x.toList = s :=
    tells.told (by rw [String.length_toList]; exact Nat.lt_succ_self _)
  apply Ty.Written.parse_toList
  rwa [domainType, told, String.toList_ofList]

/-- Writing a type for the backend, as the type of a value or of a field, and telling that text in source
terms gives a text that reads as the type, up to the properties of its structs, which are not written. -/
theorem parse_domainType_backend (t : Ty) (tellable : t.isTellable = true) :
    Ty.parse (domainType t.backend) = .ok t.bare ∧ Ty.parse (domainType t.backendField) = .ok t.bare ∧
      (t.isBare = true → t.bare = t) := by
  have reads := (Ty.reads_brief tellable).1
  refine ⟨?_, ?_, Ty.bare_eq_self⟩
  · exact parse_domainType (Ty.tells_backend tellable) reads
  · exact parse_domainType (Ty.tells_backendField tellable) reads

namespace Sample

def callbackType : Ty :=
  .func [.array (.optional (.named "Point" false false)), .func [.int, .string] .unit]
    (.optional (.array (.func [] .unit)))

end Sample

theorem parse_domainType_callback :
    Sample.callbackType.isTellable = true ∧
      Sample.callbackType.backendField =
        "Box<dyn Fn(Vec<Option<Point>>, impl Fn(i64, String)) -> Option<Vec<impl Fn()>>>" ∧
      Ty.parse (domainType Sample.callbackType.backend) = .ok Sample.callbackType ∧
      Ty.parse (domainType Sample.callbackType.backendField) = .ok Sample.callbackType := by
  have tellable : Sample.callbackType.isTellable = true := by decide
  have parsed := parse_domainType_backend Sample.callbackType tellable
  rw [parsed.2.2 (by decide)] at parsed
  exact ⟨tellable, by decide, parsed.1, parsed.2.1⟩

end Tenure
