import Tenure.Backend.Generate
import Tenure.Program.Sketch
import Tenure.Proofs.Encoding
import Tenure.Proofs.Marks
import Tenure.Proofs.Segments

/- A generated file piece by piece. As long as every declaration ends at a word, the map of the file
   covers the declarations, from their first word to the closing brace, and nothing else; and the file is
   what one pass over all pieces in a row writes. The last declaration may end behind all words, since
   nothing looks there. -/
namespace Tenure

open Backend (whole pieceDoc Writer)

section InWords

variable {m : Mark} {d : Doc} {ds : List Doc} {off : Nat}

theorem Doc.inWords_cons :
    (cat (d :: ds)).InWords off ↔ d.InWords off ∧ (cat ds).InWords (off + d.size) := by
  simp only [InWords, entries_cat_cons, List.mem_append, or_imp, forall_and]

theorem Doc.inWords_marked : (marked m d).InWords off ↔ d.InWords off ∧ off + d.size < range32 := by
  simp [InWords, or_imp, forall_and, Mark.entry]

/-- Documents that are written each on its own and then put in a row, from `off` on: each of them starts
at a word, and its marks are words when they are counted from there. -/
def Doc.Stackable : Nat → List Doc → Prop
  | _, [] => True
  | off, d :: ds => off < range32 ∧ d.InWords 0 ∧ Stackable (off + d.size) ds

instance Doc.decidableStackable : ∀ off ds, Decidable (Stackable off ds)
  | _, [] => inferInstanceAs (Decidable True)
  | off, d :: ds =>
    have := decidableStackable (off + d.size) ds
    inferInstanceAs (Decidable (off < range32 ∧ d.InWords 0 ∧ Stackable (off + d.size) ds))

def Doc.IsStack : Doc → Prop
  | .cat (d :: ds) => Stackable d.size ds
  | _ => True

instance Doc.decidableIsStack : ∀ d : Doc, Decidable d.IsStack
  | .cat (d :: ds) => inferInstanceAs (Decidable (Stackable d.size ds))
  | .cat [] | .text _ | .marked _ _ | .fault => inferInstanceAs (Decidable True)

theorem Doc.stackable_of_lt (fits : off + (cat ds).size < range32) : Stackable off ds := by
  induction ds generalizing off with
  | nil => trivial
  | cons d ds ih =>
    rw [size_cat_cons] at fits
    exact ⟨by omega, inWords_of_lt (by omega), ih (by omega)⟩

end InWords

namespace Backend.Writer

/-- The text of a document behind all others, and its marks, passed through `f`. -/
def add (f : Entry → Entry) (w : Writer) (d : Doc) : Writer :=
  { w with text := w.text ++ d.flat, entries := w.entries ++ (d.entries w.size).map f }

section Add

variable (f : Entry → Entry) (w : Writer) (d : Doc)

theorem size_add : (w.add f d).size = w.size + d.size := by
  rw [size, add, String.utf8ByteSize_append, Doc.flat_size, size]

theorem add_cat_nil : w.add f (.cat []) = w := by simp [add]

theorem add_cat_cons (ds : List Doc) : w.add f (.cat (d :: ds)) = (w.add f d).add f (.cat ds) := by
  have size := w.size_add f d
  rw [add] at size
  simp [add, size, String.append_assoc]

end Add

theorem pos?_eq_some_iff {w : Writer} {n : Nat} : w.pos? = some n ↔ w.size < range32 ∧ w.size = n := by
  rw [pos?, Option.ite_none_right_eq_some, Option.some.injEq]

theorem put_eq_some_iff {d : Doc} {w v : Writer} :
    put d w = some v ↔ d.isSound = true ∧ d.InWords w.size ∧ w.add id d = v := by
  induction d using Doc.parts_induction generalizing w v with
  | text s => simp [put, add, Doc.isSound, Doc.InWords]
  | nil => simp [put, putAll, add, Doc.isSound, Doc.isSoundAll, Doc.InWords]
  | fault => simp [put, Doc.isSound]
  | cons d ds first rest =>
    have parts : put (.cat (d :: ds)) w = (put d w).bind (put (.cat ds)) := by rw [put, putAll]; rfl
    have sound : (Doc.cat (d :: ds)).isSound = (d.isSound && (Doc.cat ds).isSound) := rfl
    rw [parts, Option.bind_eq_some_iff, sound, Bool.and_eq_true, Doc.inWords_cons, add_cat_cons]
    simp only [first, rest]
    constructor
    · rintro ⟨_, ⟨sound, words, rfl⟩, sounds, more, rfl⟩
      exact ⟨⟨sound, sounds⟩, ⟨words, by rwa [size_add] at more⟩, rfl⟩
    · rintro ⟨⟨sound, sounds⟩, ⟨words, more⟩, rfl⟩
      exact ⟨_, ⟨sound, words, rfl⟩, sounds, by rwa [size_add], rfl⟩
  | marked m d ih =>
    have parts : put (.marked m d) w = w.pos?.bind fun start => (put d w).bind fun v =>
        v.pos?.bind fun stop => some { v with entries := v.entries ++ [Entry.normal
          { start, stop, origin := m.origin, stmt := m.stmt, synthetic := m.synthetic }] } := by
      rw [put]
      rfl
    have sound : (Doc.marked m d).isSound = d.isSound := rfl
    have normal : Entry.normal { start := w.size, stop := w.size + d.size, origin := m.origin
                                 stmt := m.stmt, synthetic := m.synthetic } = m.entry d w.size :=
      if_neg (by simp)
    have done : { w.add id d with entries := (w.add id d).entries ++ [m.entry d w.size] } =
        w.add id (.marked m d) := by simp [add]
    simp only [parts, Option.bind_eq_some_iff, pos?_eq_some_iff, ih, sound, Doc.inWords_marked, ← done]
    constructor
    · rintro ⟨_, ⟨-, rfl⟩, _, ⟨sound, words, rfl⟩, _, ⟨fits, rfl⟩, made⟩
      rw [size_add] at fits
      rw [size_add, normal] at made
      exact ⟨sound, ⟨words, fits⟩, Option.some.inj made⟩
    · rintro ⟨sound, ⟨words, fits⟩, rfl⟩
      refine ⟨_, ⟨by omega, rfl⟩, _, ⟨sound, words, rfl⟩, _, ⟨by rwa [size_add], rfl⟩, ?_⟩
      rw [size_add, normal]

theorem putPiece_eq (a : Analysis) (p : Piece) :
    ∃ depth, ∀ w, putPiece a w p = put (pieceDoc a p) (w.setIndent depth) := by
  cases p <;> exact ⟨_, fun _ => rfl⟩

theorem appendPiece_eq_some_iff {a : Analysis} {p : Piece} {w v : Writer} :
    appendPiece a w p = some v ↔ (pieceDoc a p).isSound = true ∧ w.size < range32 ∧
      (pieceDoc a p).InWords 0 ∧ w.add (Entry.shift 0) (pieceDoc a p) = v := by
  obtain ⟨depth, piece⟩ := putPiece_eq a p
  have chunk : ((setIndent {} depth).add id (pieceDoc a p)).text = (pieceDoc a p).flat ∧
      ((setIndent {} depth).add id (pieceDoc a p)).entries = (pieceDoc a p).entries 0 :=
    ⟨String.empty_append, (List.nil_append _).trans (List.map_id _)⟩
  have moved := (pieceDoc a p).entries_shift w.size
  simp only [appendPiece, piece, Option.bind_eq_some_iff, put_eq_some_iff, append, Option.bind_eq_bind,
    pos?_eq_some_iff]
  constructor
  · rintro ⟨_, ⟨sound, words, rfl⟩, _, ⟨fits, rfl⟩, made⟩
    rw [chunk.1, chunk.2, moved] at made
    exact ⟨sound, fits, words, Option.some.inj made⟩
  · rintro ⟨sound, fits, words, rfl⟩
    refine ⟨_, ⟨sound, words, rfl⟩, _, ⟨fits, rfl⟩, ?_⟩
    rw [chunk.1, chunk.2, moved]
    rfl

theorem appendPieces_eq_some_iff {a : Analysis} {ps : List Piece} {w v : Writer} :
    ps.foldlM (appendPiece a) w = some v ↔ (Doc.cat (ps.map (pieceDoc a))).isSound = true ∧
      Doc.Stackable w.size (ps.map (pieceDoc a)) ∧
      w.add (Entry.shift 0) (.cat (ps.map (pieceDoc a))) = v := by
  induction ps generalizing w with
  | nil => simp [Doc.isSound, Doc.isSoundAll, Doc.Stackable, add_cat_nil]
  | cons p ps ih =>
    have sound : (Doc.cat ((p :: ps).map (pieceDoc a))).isSound =
        ((pieceDoc a p).isSound && (Doc.cat (ps.map (pieceDoc a))).isSound) := rfl
    rw [List.foldlM_cons, Option.bind_eq_bind, Option.bind_eq_some_iff, sound, Bool.and_eq_true,
      List.map_cons, Doc.Stackable, add_cat_cons]
    simp only [appendPiece_eq_some_iff, ih]
    constructor
    · rintro ⟨_, ⟨sound, fits, words, rfl⟩, sounds, more, rfl⟩
      exact ⟨⟨sound, sounds⟩, ⟨fits, words, by rwa [size_add] at more⟩, rfl⟩
    · rintro ⟨⟨sound, sounds⟩, ⟨fits, words, more⟩, rfl⟩
      exact ⟨_, ⟨sound, fits, words, rfl⟩, sounds, by rwa [size_add], rfl⟩

end Backend.Writer

theorem assemble_eq_some_iff {a : Analysis} {w : Writer} :
    Backend.assemble a = some w ↔ (whole a).isSound = true ∧ (whole a).IsStack ∧
      Writer.add (Entry.shift 0) {} (whole a) = w := by
  have header : Writer.put (Backend.header a.module) {} =
      some (Writer.add (Entry.shift 0) {} (Backend.header a.module)) :=
    Writer.put_eq_some_iff.mpr ⟨rfl, by simp [Doc.InWords, Backend.header], by
      simp [Writer.add, Backend.header]⟩
  have sound : (whole a).isSound =
      ((Backend.header a.module).isSound && (Doc.cat (a.module.layout.map (pieceDoc a))).isSound) := rfl
  have empty : Writer.size {} = 0 := rfl
  rw [Backend.assemble, header, Option.bind_some, Writer.appendPieces_eq_some_iff, Writer.size_add, sound,
    whole, Writer.add_cat_cons, empty, Nat.zero_add]
  rfl

theorem generate_eq (a : Analysis) (file : String) :
    a.generate file =
      if (whole a).isSound ∧ (whole a).IsStack then
        some { module := a.module.name
               file := Backend.fileName a.module file
               text := (whole a).flat
               map := some (SourceMap.build a.module.name (Backend.fileName a.module file)
                 (((whole a).entries 0).map (Entry.shift 0))) }
      else none := by
  have text : (Writer.add (Entry.shift 0) {} (whole a)).text = (whole a).flat := String.empty_append
  have entries : (Writer.add (Entry.shift 0) {} (whole a)).entries =
      ((whole a).entries 0).map (Entry.shift 0) := List.nil_append _
  unfold Analysis.generate
  split
  · rename_i fine
    rw [assemble_eq_some_iff.mpr ⟨fine.1, fine.2, rfl⟩, Option.map_some, text, entries]
  · rename_i flawed
    rw [Option.map_eq_none_iff, Option.eq_none_iff_forall_ne_some]
    intro w made
    obtain ⟨sound, stacked, -⟩ := assemble_eq_some_iff.mp made
    exact flawed ⟨sound, stacked⟩

theorem generate_isSome {a : Analysis} {file : String} : (a.generate file).isSome = true ↔
    (whole a).isSound = true ∧ (whole a).IsStack := by
  rw [generate_eq, Option.isSome_ite]

theorem generate_spec {a : Analysis} {file : String} {u : Generated} (made : a.generate file = some u) :
    (whole a).isSound = true ∧ u.text = (whole a).flat ∧
      u.map = some (SourceMap.build a.module.name (Backend.fileName a.module file)
        (((whole a).entries 0).map (Entry.shift 0))) := by
  rw [generate_eq, Option.ite_none_right_eq_some, Option.some.injEq] at made
  obtain ⟨⟨sound, -⟩, rfl⟩ := made
  exact ⟨sound, rfl, rfl⟩

/-- The text of a piece: a declaration from its first word to the closing brace, with what stands in
front of it and behind it. -/
structure Strip where
  lead : String
  decl : String
  trail : String

namespace Strip

def text (f : Strip) : String := f.lead ++ f.decl ++ f.trail

def of (a : Analysis) : Piece → Strip
  | .struct s => ⟨"", s.declaration.flat, "\n\n"⟩
  | .func f depth => ⟨indentText depth, (f.declaration (Rendering.of a f) depth).flat, "\n"⟩
  | .text s => ⟨s, "", ""⟩

def Spells (f : Strip) : Piece → Prop
  | .struct s => ∃ traits inner,
      f.decl = "#[derive(" ++ traits ++ ")]\npub struct " ++ s.name ++ " \x7b\n" ++ inner ++ "\x7d"
  | .func g _ => ∃ inner, f.decl = "fn " ++ Backend.identifier g.name ++ "(" ++ inner ++ "\x7d"
  | .text _ => f.decl = ""

def Declares (f : Strip) (off o : Nat) : Prop :=
  off + f.lead.utf8ByteSize ≤ o ∧ o < off + f.lead.utf8ByteSize + f.decl.utf8ByteSize

/-- The byte belongs to a declaration of strips in a row, the first of which starts at `off`. -/
def InDeclaration : Nat → List Strip → Nat → Prop
  | _, [], _ => False
  | off, f :: fs, o => f.Declares off o ∨ InDeclaration (off + f.text.utf8ByteSize) fs o

instance (f : Strip) (off o : Nat) : Decidable (f.Declares off o) :=
  inferInstanceAs (Decidable (_ ∧ _))

instance decidableInDeclaration : ∀ off fs o, Decidable (InDeclaration off fs o)
  | _, [], _ => inferInstanceAs (Decidable False)
  | off, f :: fs, o =>
    have := decidableInDeclaration (off + f.text.utf8ByteSize) fs o
    inferInstanceAs (Decidable (f.Declares off o ∨ InDeclaration (off + f.text.utf8ByteSize) fs o))

end Strip

theorem blockDoc_flat (depth : Nat) (lines : List Doc) :
    ∃ inner, (blockDoc depth lines).flat = inner ++ "\x7d" := by
  refine ⟨"\x7b\n" ++ (Doc.cat lines).flat ++ indentText depth, ?_⟩
  simp [blockDoc, Doc.flat_cat_append, String.append_assoc]

theorem derives_text (s : StructDecl) : ∃ traits, s.derives = "#[derive(" ++ traits ++ ")]\n" := by
  unfold StructDecl.derives
  split
  · exact ⟨"Debug", rfl⟩
  · split
    · exact ⟨"Debug, Clone, Copy, PartialEq", rfl⟩
    · exact ⟨"Debug, Clone, PartialEq", rfl⟩

section Strip

variable (a : Analysis)

theorem strip_spells (p : Piece) : (Strip.of a p).Spells p := by
  cases p with
  | struct s =>
    obtain ⟨traits, derives⟩ := derives_text s
    refine ⟨traits, (Doc.cat (s.fields.map s.fieldDoc)).flat, ?_⟩
    simp [Strip.of, StructDecl.declaration, Doc.mapped, derives, Doc.flat_cat_append,
      String.append_assoc]
  | func f depth =>
    let g := Rendering.of a f
    let inputs := (if f.receiver = 0 then [] else [f.receiverDoc g]) ++ f.params.map (f.paramDoc g)
    let result := if f.result.isUnit then "" else " -> " ++ f.result.backend
    obtain ⟨inner, closed⟩ := blockDoc_flat depth (Stmt.renderLines g (depth + 1) f.body)
    refine ⟨(Doc.cat (Doc.joined ", " inputs)).flat ++ ")" ++ result ++ " " ++ inner, ?_⟩
    simp [Strip.of, FuncDecl.declaration, Doc.mapped, closed, g, inputs, result, Doc.flat_cat_append,
      String.append_assoc]
  | text s => rfl

theorem strip_flat (p : Piece) : (pieceDoc a p).flat = (Strip.of a p).text := by
  cases p with
  | struct s => simp [pieceDoc, StructDecl.render, Strip.of, Strip.text]
  | func f depth => simp [pieceDoc, FuncDecl.render, Strip.of, Strip.text, String.append_assoc]
  | text s => simp [pieceDoc, Strip.of, Strip.text]

def Strip.declaration : Piece → Doc
  | .struct s => s.declaration
  | .func f depth => f.declaration (Rendering.of a f) depth
  | .text _ => .empty

theorem strip_decl (p : Piece) :
    (Strip.of a p).decl.utf8ByteSize = (Strip.declaration a p).size := by
  cases p with
  | struct | func => exact Doc.flat_size _
  | text s => rfl

theorem strip_entries (p : Piece) (off : Nat) : (pieceDoc a p).entries off =
    (Strip.declaration a p).entries (off + (Strip.of a p).lead.utf8ByteSize) := by
  cases p with
  | struct s => simp [pieceDoc, StructDecl.render, Strip.declaration, Strip.of]
  | func f depth => simp [pieceDoc, FuncDecl.render, Strip.declaration, Strip.of]
  | text s => rfl

theorem strip_covers (p : Piece) (off o : Nat) :
    (∃ e ∈ (pieceDoc a p).entries off, e.covers o = true) ↔ (Strip.of a p).Declares off o := by
  rw [strip_entries, Strip.Declares, strip_decl]
  cases p with
  | struct | func => exact Doc.mapped_covers_iff _ _ _ _ o
  | text s =>
    constructor
    · rintro ⟨e, member, -⟩
      cases member
    · rintro ⟨start, stop⟩
      exact absurd stop (Nat.not_lt.mpr start)

theorem strip_ends {p : Piece} {off : Nat} {e : Entry} (member : e ∈ (pieceDoc a p).entries off) :
    ∃ o, (Strip.of a p).Declares off o ∧ e.stop ≤ o + 1 := by
  have closed : ∃ inner, (Strip.of a p).decl = inner ++ "\x7d" := by
    cases p with
    | struct s =>
      obtain ⟨traits, inner, spelled⟩ := strip_spells a (.struct s)
      exact ⟨_, spelled⟩
    | func f depth =>
      obtain ⟨inner, spelled⟩ := strip_spells a (.func f depth)
      exact ⟨_, spelled⟩
    | text s => cases member
  obtain ⟨inner, spelled⟩ := closed
  have brace : "\x7d".utf8ByteSize = 1 := by decide
  have size := congrArg String.utf8ByteSize spelled
  rw [String.utf8ByteSize_append, brace, strip_decl] at size
  rw [strip_entries] at member
  have inside := Doc.entries_inside member
  refine ⟨off + (Strip.of a p).lead.utf8ByteSize + inner.utf8ByteSize, ?_, by omega⟩
  rw [Strip.Declares, strip_decl]
  omega

theorem strip_size (p : Piece) : (pieceDoc a p).size = (Strip.of a p).text.utf8ByteSize := by
  rw [← Doc.flat_size, strip_flat]

theorem strips_flat (ps : List Piece) :
    (Doc.cat (ps.map (pieceDoc a))).flat = String.join (ps.map fun p => (Strip.of a p).text) := by
  induction ps with
  | nil => simp
  | cons p ps ih => simp [strip_flat, ih]

theorem strips_cover (ps : List Piece) (off o : Nat) :
    (∃ e ∈ (Doc.cat (ps.map (pieceDoc a))).entries off, e.covers o = true) ↔
      Strip.InDeclaration off (ps.map (Strip.of a)) o := by
  induction ps generalizing off with
  | nil => simp [Strip.InDeclaration]
  | cons p ps ih =>
    rw [List.map_cons, List.map_cons, Strip.InDeclaration, ← strip_covers, ← ih, ← strip_size]
    simp only [Doc.entries_cat_cons, List.mem_append, or_and_right, exists_or]

theorem strips_end {ps : List Piece} {off : Nat} {e : Entry}
    (member : e ∈ (Doc.cat (ps.map (pieceDoc a))).entries off) :
    ∃ o, Strip.InDeclaration off (ps.map (Strip.of a)) o ∧ e.stop ≤ o + 1 := by
  induction ps generalizing off with
  | nil => cases member
  | cons p ps ih =>
    rw [List.map_cons, Doc.entries_cat_cons, List.mem_append, strip_size] at member
    rcases member with here | later
    · obtain ⟨o, declares, ends⟩ := strip_ends a here
      exact ⟨o, Or.inl declares, ends⟩
    · obtain ⟨o, declares, ends⟩ := ih later
      exact ⟨o, Or.inr declares, ends⟩

def Analysis.Declares (o : Nat) : Prop :=
  Strip.InDeclaration (Backend.header a.module).size (a.module.layout.map (Strip.of a)) o

instance (o : Nat) : Decidable (a.Declares o) := inferInstanceAs (Decidable (Strip.InDeclaration _ _ _))

/-- No declaration ends behind the words. -/
def Analysis.EndsInWords : Prop := ∀ o, a.Declares o → o + 1 < range32

theorem whole_entries :
    (whole a).entries 0 =
      (Doc.cat (a.module.layout.map (pieceDoc a))).entries (Backend.header a.module).size := by
  have header : (Backend.header a.module).entries 0 = [] := by simp [Backend.header]
  rw [whole, Doc.entries_cat_cons, header, List.nil_append, Nat.zero_add]

theorem whole_covers_iff (o : Nat) :
    (∃ e ∈ (whole a).entries 0, e.covers o = true) ↔ a.Declares o := by
  rw [whole_entries, strips_cover, Analysis.Declares]

theorem endsInWords_iff : a.EndsInWords ↔ (whole a).InWords 0 := by
  constructor
  · intro ends e member
    rw [whole_entries] at member
    obtain ⟨o, declares, stop⟩ := strips_end a member
    have := ends o declares
    omega
  · intro words o declares
    obtain ⟨e, member, covered⟩ := (whole_covers_iff a o).mpr declares
    have := words e member
    have := Entry.covers_iff.mp covered
    omega

theorem generate_covers_iff (o : Nat) :
    (∃ s ∈ SourceMap.flatten ((whole a).entries 0), s.contains o = true) ↔ a.Declares o := by
  rw [SourceMap.flatten_covers_iff (Doc.entries_wellNested (whole a) 0), whole_covers_iff]

end Strip

/-- The segments of a file are filled, stay inside its text and stand one behind the other. If every
declaration ends at a word, the marks nest and stay inside the text, and the segments together are the
declarations: no byte of one is left out, and no byte between them, of the opening lines or of the braces
around methods is part of any segment. If one does not, some of its bytes are left out. -/
theorem generate_maps_declarations {a : Analysis} {file : String} {u : Generated}
    (made : a.generate file = some u) :
    ∃ w m, Backend.assemble a = some w ∧ u.map = some m ∧ m.segments = SourceMap.flatten w.entries ∧
      (∀ s ∈ m.segments, s.start < s.stop ∧ s.stop ≤ u.text.utf8ByteSize) ∧
      m.segments.Pairwise (fun s t => s.stop ≤ t.start) ∧
      (∀ p ∈ a.module.layout, (Strip.of a p).Spells p) ∧
      u.text = (Backend.header a.module).flat ++
        String.join (a.module.layout.map fun p => (Strip.of a p).text) ∧
      (a.EndsInWords → (∀ d ∈ w.entries, ∀ e ∈ w.entries, d.Fits e) ∧
        ∀ e ∈ w.entries, e.start ≤ e.stop ∧ e.stop ≤ u.text.utf8ByteSize) ∧
      ((∀ o, (∃ s ∈ m.segments, s.contains o = true) ↔ a.Declares o) ↔ a.EndsInWords) := by
  rw [generate_eq, Option.ite_none_right_eq_some, Option.some.injEq] at made
  obtain ⟨⟨sound, stacked⟩, rfl⟩ := made
  have inside : ∀ e ∈ (whole a).entries 0, e.start ≤ e.stop ∧ e.stop ≤ (whole a).flat.utf8ByteSize := by
    intro e he
    have := Doc.entries_inside he
    rw [Doc.flat_size]
    omega
  have below : ∀ e ∈ ((whole a).entries 0).map (Entry.shift 0), e.stop ≤ range32 - 1 := by
    intro e he
    obtain ⟨d, -, rfl⟩ := List.mem_map.mp he
    exact Nat.le_sub_one_of_lt (Nat.mod_lt _ (by decide))
  refine ⟨_, _, assemble_eq_some_iff.mpr ⟨sound, stacked, rfl⟩, rfl, rfl, ?_, SourceMap.flatten_pairwise _,
    fun p _ => strip_spells a p, by rw [whole, Doc.flat_cat_cons, strips_flat], ?_, ?_⟩
  · intro s hs
    refine ⟨SourceMap.flatten_filled hs, ?_⟩
    by_cases small : (whole a).size < range32
    · rw [SourceMap.build, (Doc.inWords_of_lt (by omega)).entries_shift] at hs
      exact SourceMap.flatten_stop_le (fun e he => (inside e he).2) hs
    · have := SourceMap.flatten_stop_le below hs
      rw [Doc.flat_size]
      omega
  · intro ends
    have entries : (Writer.add (Entry.shift 0) {} (whole a)).entries = (whole a).entries 0 :=
      (List.nil_append _).trans ((endsInWords_iff a).mp ends).entries_shift
    rw [entries]
    exact ⟨fun d hd e he => Doc.entries_fit hd he, inside⟩
  · constructor
    · intro covers o declares
      obtain ⟨s, hs, here⟩ := (covers o).mpr declares
      have := SourceMap.flatten_stop_le below hs
      rw [SourceMap.segment_contains_iff] at here
      omega
    · intro ends
      rw [SourceMap.build, ((endsInWords_iff a).mp ends).entries_shift]
      exact generate_covers_iff a

theorem generates_small {a : Analysis} (sound : (whole a).isSound = true)
    (size : (whole a).size < range32) (file : String) :
    ∃ u, a.generate file = some u ∧ u.text.utf8ByteSize < range32 := by
  have stacked : (whole a).IsStack := Doc.stackable_of_lt size
  refine ⟨_, (generate_eq ..).trans (if_pos ⟨sound, stacked⟩), ?_⟩
  rwa [Doc.flat_size]

namespace Sample

def useOfName (id : Nat) (span : Range) : Expr :=
  .node { Sketch.blank .ident .string with id, span, name := "name", binding := 1 } (.absent 0)
    (.absent 0) [] [] (.absent 0) (.absent 0)

def wideText : Expr :=
  .node { Sketch.blank .lit .string with
      id := 2, span := Range.of 0 6 10 6 14, lit := "é", litKind := .string }
    (.absent 0) (.absent 0) [] [] (.absent 0) (.absent 0)

def returned : Stmt :=
  .node ⟨2, .give, Range.of 0 6 3 6 21, 0, ""⟩ (.absent 0)
    (.node { Sketch.blank .binary .string with id := 4, span := Range.of 0 6 10 6 21, op := "+" }
      wideText (useOfName 3 (Range.of 0 6 17 6 21)) [] [] (.absent 0) (.absent 0))
    [] (.absent 0)

def greet : FuncDecl :=
  { id := 0, name := "greet", receiver := 0, owner := "", params := [1], result := .string
    body := [
      .node ⟨1, .letVar, Range.of 0 5 3 5 18, 2, ""⟩ (.absent 0)
        (useOfName 1 (Range.of 0 5 14 5 18)) [] (.absent 0),
      returned]
    isExtern := false, span := Range.of 0 4 1 7 2 }

def greeting : Module :=
  { name := "greeting", path := "greeting.kl", file := 0
    structs := [{
      name := "Tag", fields := [⟨"text", .string, Range.of 0 2 3 2 15⟩], copy := false
      noClone := false, span := Range.of 0 1 1 3 2 }]
    funcs := [greet], exprs := #[], stmts := #[]
    bindings := #[
      ⟨1, "name", .param, .string, false, .none, 0, Range.of 0 4 10 4 14⟩,
      ⟨2, "copy", .local_, .string, false, .none, 0, Range.of 0 5 7 5 11⟩] }

theorem greeting_small : (whole (Analysis.of greeting)).size < range32 := by decide +kernel

theorem greeting_ends : (Analysis.of greeting).EndsInWords :=
  (endsInWords_iff _).mpr (Doc.inWords_of_lt (by have := greeting_small; omega))

theorem greeting_generated :
    ∃ u, (Analysis.of greeting).generate = some u ∧ u.text.utf8ByteSize < range32 :=
  generates_small (by decide +kernel) greeting_small ""

def lone (name : String) : StructDecl :=
  { name, fields := [], copy := false, noClone := false, span := Range.of 0 1 1 1 9 }

def sole (name : String) : Module :=
  { name := "main", path := "main.kl", file := 0, structs := [lone name], funcs := []
    exprs := #[], stmts := #[], bindings := #[] }

section Sole

variable (name : String)

theorem lone_size : (lone name).declaration.size = 50 + name.utf8ByteSize := by
  have parts : "#[derive(Debug, Clone, PartialEq)]\npub struct ".utf8ByteSize = 46 ∧
      " \x7b\n".utf8ByteSize = 3 ∧ "\x7d".utf8ByteSize = 1 := by decide +kernel
  simp [StructDecl.declaration, StructDecl.derives, lone, Doc.mapped, String.utf8ByteSize_append, parts]
  omega

theorem lone_entries (off : Nat) : (pieceDoc (Analysis.of (sole name)) (.struct (lone name))).entries off =
    [⟨off, off + (50 + name.utf8ByteSize), Range.of 0 1 1 1 9, Range.of 0 1 1 1 9, false⟩] := by
  rw [← lone_size]
  rfl

theorem sole_header : (Backend.header (Analysis.of (sole name)).module).size = 136 := by
  have constant : (Backend.header (sole "")).size = 136 := by decide +kernel
  exact constant

theorem sole_entries : (whole (Analysis.of (sole name))).entries 0 =
    [⟨136, 136 + (50 + name.utf8ByteSize), Range.of 0 1 1 1 9, Range.of 0 1 1 1 9, false⟩] := by
  rw [← lone_entries, whole_entries, sole_header]
  rfl

end Sole

theorem ofList_replicate_size (n : Nat) : (String.ofList (List.replicate n 'a')).utf8ByteSize = n := by
  rw [← Bytes.ofString_length, Bytes.ofString, String.toList_ofList]
  induction n with
  | zero => rfl
  | succ n ih =>
    have one : (String.utf8EncodeChar 'a').length = 1 := by decide
    rw [List.replicate_succ, List.flatMap_cons, List.length_append, ih, one, Nat.add_comm]

theorem sole_vast : ∃ name : String, name = String.ofList (List.replicate (range32 - 100) 'a') ∧
    name.utf8ByteSize = range32 - 100 :=
  ⟨_, rfl, ofList_replicate_size _⟩

theorem sole_generated {name : String} (vast : name.utf8ByteSize = range32 - 100) (file : String) :
    ∃ u, (Analysis.of (sole name)).generate file = some u ∧
      u.map = some (SourceMap.build "main" (Backend.fileName (sole name) file) [
        ⟨136, 86, Range.of 0 1 1 1 9, Range.of 0 1 1 1 9, false⟩]) := by
  have stacked : (whole (Analysis.of (sole name))).IsStack := by
    refine ⟨?_, ?_, trivial⟩
    · rw [sole_header]
      decide
    · intro e member
      rw [lone_entries, vast] at member
      cases List.mem_singleton.mp member
      decide
  refine ⟨_, (generate_eq ..).trans (if_pos ⟨rfl, stacked⟩), ?_⟩
  rw [sole_entries, vast]
  rfl

end Sample

theorem generate_maps_greeting :
    ∃ u m, (Analysis.of Sample.greeting).generate = some u ∧ u.map = some m ∧
      (∃ s ∈ m.segments, s.contains 214 = true) ∧ (¬∃ s ∈ m.segments, s.contains 215 = true) ∧
      (¬∃ s ∈ m.segments, s.contains 216 = true) ∧ ∃ s ∈ m.segments, s.contains 217 = true := by
  obtain ⟨u, made, -⟩ := Sample.greeting_generated
  obtain ⟨-, m, -, map, -, -, -, -, -, -, covers⟩ := generate_maps_declarations made
  refine ⟨u, m, made, map, ?_⟩
  simp only [covers.mpr Sample.greeting_ends]
  decide +kernel

/-- The struct of the sample is written whole, and no byte of it is mapped. -/
theorem vast_declaration_unmapped :
    ∃ name u m, name = String.ofList (List.replicate (range32 - 100) 'a') ∧
      (Analysis.of (Sample.sole name)).generate = some u ∧ u.map = some m ∧ m.segments = [] ∧
      (Analysis.of (Sample.sole name)).Declares 136 := by
  obtain ⟨name, spelled, vast⟩ := Sample.sole_vast
  obtain ⟨u, made, map⟩ := Sample.sole_generated vast ""
  have nothing : SourceMap.flatten
      [⟨136, 86, Range.of 0 1 1 1 9, Range.of 0 1 1 1 9, false⟩] = [] := by
    refine List.eq_nil_iff_forall_not_mem.mpr fun s hs => ?_
    have filled := SourceMap.flatten_filled hs
    obtain ⟨e, he, covered, -⟩ :=
      SourceMap.flatten_backed hs (o := s.start) (SourceMap.segment_contains_iff.mpr (by omega))
    cases List.mem_singleton.mp he
    have := Entry.covers_iff.mp covered
    simp only at this
    omega
  refine ⟨name, u, _, spelled, made, map, nothing, ?_⟩
  refine (whole_covers_iff _ _).mp ⟨_, by rw [Sample.sole_entries]; exact List.mem_singleton_self _, ?_⟩
  exact Entry.covers_iff.mpr (by simp only; omega)

def Backend.Writer.putModule (a : Analysis) : Option Writer :=
  (put (header a.module) {}).bind (a.module.layout.foldlM (putPiece a))

namespace Backend.Writer

theorem putPieces_eq_some_iff {a : Analysis} {ps : List Piece} {w v : Writer} :
    (ps.foldlM (putPiece a) w).map (setIndent · 0) = some v ↔
      (Doc.cat (ps.map (pieceDoc a))).isSound = true ∧ (Doc.cat (ps.map (pieceDoc a))).InWords w.size ∧
      (w.add id (.cat (ps.map (pieceDoc a)))).setIndent 0 = v := by
  induction ps generalizing w with
  | nil => simp [Doc.isSound, Doc.isSoundAll, Doc.InWords, add_cat_nil]
  | cons p ps ih =>
    obtain ⟨depth, piece⟩ := putPiece_eq a p
    have sound : (Doc.cat ((p :: ps).map (pieceDoc a))).isSound =
        ((pieceDoc a p).isSound && (Doc.cat (ps.map (pieceDoc a))).isSound) := rfl
    have next : (((w.setIndent depth).add id (pieceDoc a p)).add id
        (.cat (ps.map (pieceDoc a)))).setIndent 0 =
        (w.add id (.cat ((p :: ps).map (pieceDoc a)))).setIndent 0 := by
      rw [List.map_cons, add_cat_cons]
      rfl
    rw [List.foldlM_cons, piece, Option.bind_eq_bind, Option.map_bind, Option.bind_eq_some_iff, sound,
      Bool.and_eq_true, ← next, List.map_cons, Doc.inWords_cons]
    simp only [put_eq_some_iff, Function.comp_apply, ih]
    constructor
    · rintro ⟨_, ⟨sound, words, rfl⟩, sounds, more, rfl⟩
      exact ⟨⟨sound, sounds⟩, ⟨words, by rwa [size_add] at more⟩, rfl⟩
    · rintro ⟨⟨sound, sounds⟩, ⟨words, more⟩, rfl⟩
      exact ⟨_, ⟨sound, words, rfl⟩, sounds, by rwa [size_add], rfl⟩

theorem putModule_eq_some_iff {a : Analysis} {v : Writer} :
    (putModule a).map (setIndent · 0) = some v ↔
      (whole a).isSound = true ∧ a.EndsInWords ∧ add id {} (whole a) = v := by
  have header : put (header a.module) {} = some (add id {} (header a.module)) :=
    put_eq_some_iff.mpr ⟨rfl, by simp [Doc.InWords, Backend.header], rfl⟩
  have empty : size {} = 0 := rfl
  have marks : (Backend.header a.module).InWords 0 := by simp [Doc.InWords, Backend.header]
  rw [putModule, header, Option.bind_some, putPieces_eq_some_iff, endsInWords_iff, size_add, empty, whole,
    Doc.inWords_cons, add_cat_cons, and_iff_right marks]
  rfl

end Backend.Writer

/-- Chunks that were rendered on their own and put together, entries moved along, are what one pass over
all pieces writes. That pass comes to an end exactly if every declaration ends at a word. -/
theorem chunks_written_in_one_pass {a : Analysis} {file : String} {u : Generated}
    (made : a.generate file = some u) :
    ∃ w, Backend.assemble a = some w ∧ u.text = w.text ∧
      u.map = some (SourceMap.build a.module.name (Backend.fileName a.module file) w.entries) ∧
      ((Writer.putModule a).isSome = true ↔ a.EndsInWords) ∧
      ∀ v, Writer.putModule a = some v → v.text = w.text ∧ v.entries = w.entries := by
  obtain ⟨w, assembled, rfl⟩ := Option.map_eq_some_iff.mp made
  refine ⟨w, assembled, rfl, rfl, ?_, ?_⟩
  · have sound := (assemble_eq_some_iff.mp assembled).1
    rw [← Option.isSome_map (f := (Writer.setIndent · 0)), Option.isSome_iff_exists]
    simp only [Writer.putModule_eq_some_iff, sound, true_and, exists_and_left, exists_eq', and_true]
  · intro v written
    obtain ⟨-, -, rfl⟩ := assemble_eq_some_iff.mp assembled
    obtain ⟨-, ends, same⟩ := Writer.putModule_eq_some_iff.mp (congrArg (Option.map _) written)
    have entries := ((endsInWords_iff a).mp ends).entries_shift
    constructor
    · exact (congrArg Writer.text same).symm
    · refine (congrArg Writer.entries same).symm.trans ?_
      simp only [Writer.add, List.map_id, show Writer.size {} = 0 from rfl, entries]

theorem greeting_written_in_one_pass :
    ∃ u v, (Analysis.of Sample.greeting).generate = some u ∧
      Writer.putModule (Analysis.of Sample.greeting) = some v ∧ u.text = v.text ∧
      u.map = some (SourceMap.build "greeting" "greeting.rs" v.entries) := by
  obtain ⟨u, made, -⟩ := Sample.greeting_generated
  obtain ⟨w, -, text, map, completes, same⟩ := chunks_written_in_one_pass made
  obtain ⟨v, written⟩ := Option.isSome_iff_exists.mp (completes.mpr Sample.greeting_ends)
  obtain ⟨texts, entries⟩ := same v written
  exact ⟨u, v, made, written, text.trans texts.symm, entries ▸ map⟩

/-- In one pass the end of the declaration is asked for. -/
theorem vast_not_written_in_one_pass :
    ∃ name, name = String.ofList (List.replicate (range32 - 100) 'a') ∧
      (Analysis.of (Sample.sole name)).generate.isSome = true ∧
      Writer.putModule (Analysis.of (Sample.sole name)) = none := by
  obtain ⟨name, spelled, vast⟩ := Sample.sole_vast
  obtain ⟨u, made, -⟩ := Sample.sole_generated vast ""
  refine ⟨name, spelled, Option.isSome_iff_exists.mpr ⟨u, made⟩, ?_⟩
  by_contra some
  obtain ⟨v, written⟩ := Option.ne_none_iff_exists'.mp some
  obtain ⟨-, ends, -⟩ := Writer.putModule_eq_some_iff.mp (congrArg (Option.map _) written)
  have stop := (endsInWords_iff _).mp ends _ (by rw [Sample.sole_entries]; exact List.mem_singleton_self _)
  rw [vast] at stop
  exact absurd stop (by decide)

end Tenure
