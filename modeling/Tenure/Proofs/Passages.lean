import Tenure.Backend.Generate
import Tenure.Proofs.Marks

/- Statements and declarations in the text. Every mark names a statement, and that is the innermost
   one whose text stands around the mark. -/
namespace Tenure

inductive Passage : Range → Doc → Prop where
  | stmt (g : Rendering) (depth : Nat) (info : StmtInfo) (target value : Expr) (body : List Stmt)
      (orElse : Stmt) :
      Passage info.span ((Stmt.node info target value body orElse).render g depth)
  | func (f : FuncDecl) (g : Rendering) (depth : Nat) : Passage f.span (f.declaration g depth)
  | struct (s : StructDecl) : Passage s.span s.declaration

/-- The byte at `b` of a text that starts at `off` belongs to the passage at `o`. -/
structure Doc.Covers (d : Doc) (off b : Nat) (r : Range) (o : Nat) (u : Doc) : Prop where
  passage : Passage r u
  place : d.At o u
  lo : off + o ≤ b
  hi : b < off + o + u.size

namespace Doc

variable {s : String} {m : Mark} {v : Doc} {o : Nat} {ds : List Doc}

theorem no_mark_in_text : ¬(Doc.text s).At o (.marked m v) := by
  intro h
  cases h

theorem no_mark_in_nil : ¬(Doc.cat []).At o (.marked m v) := by
  intro h
  cases h

theorem text_size_pos (own : .text s ∈ ds) (filled : s ≠ "") : 0 < (Doc.cat ds).size := by
  induction ds with
  | nil => simp at own
  | cons d ds ih =>
    rw [size_cat_cons]
    rcases List.mem_cons.mp own with rfl | later
    · have := Nat.pos_of_ne_zero (mt String.utf8ByteSize_eq_zero_iff.mp filled)
      simp only [size_text]
      omega
    · have := ih later
      omega

theorem marked_size_lt (own : .text s ∈ ds) (filled : s ≠ "")
    (h : (Doc.cat ds).At o (.marked m v)) :
    v.size < (Doc.cat ds).size := by
  induction ds generalizing o with
  | nil => simp at own
  | cons d ds ih =>
    rw [size_cat_cons]
    cases h with
    | head h =>
      have short := h.inside
      rw [size_marked] at short
      rcases List.mem_cons.mp own with rfl | later
      · exact absurd h no_mark_in_text
      · have := text_size_pos later filled
        omega
    | tail h =>
      have short := h.inside
      rw [size_marked] at short
      rcases List.mem_cons.mp own with rfl | later
      · have := Nat.pos_of_ne_zero (mt String.utf8ByteSize_eq_zero_iff.mp filled)
        simp only [size_text]
        omega
      · have := ih later h
        omega

end Doc

theorem stmtContent_own_text (g : Rendering) (info : StmtInfo) (target value : Expr)
    (targetDoc valueDoc block : Doc) (orElse : Option Doc) :
    (∃ s, .text s ∈ g.stmtContent info target value targetDoc valueDoc block orElse ∧ s ≠ "") ∨
      g.stmtContent info target value targetDoc valueDoc block orElse = [block] := by
  unfold Rendering.stmtContent
  split
  · exact Or.inl ⟨"let ", by simp, by decide⟩
  · exact Or.inl ⟨";", by simp, by decide⟩
  · exact Or.inl ⟨";", by simp, by decide⟩
  · split
    · exact Or.inl ⟨"return;", by simp, by decide⟩
    · exact Or.inl ⟨"return ", by simp, by decide⟩
  · exact Or.inl ⟨"if ", by simp, by decide⟩
  · exact Or.inl ⟨"while ", by simp, by decide⟩
  · exact Or.inl ⟨"for ", by simp, by decide⟩
  · exact Or.inl ⟨"break;", by simp, by decide⟩
  · exact Or.inl ⟨"continue;", by simp, by decide⟩
  · exact Or.inr rfl

theorem passage_shape {r : Range} {u : Doc} (h : Passage r u) :
    ∃ ds, u = .marked ⟨r, r, false⟩ (.cat ds) ∧
      ∀ o m v, (Doc.cat ds).At o (.marked m v) → v.size < u.size := by
  cases h with
  | stmt g depth info target value body orElse =>
    rw [Stmt.render]
    refine ⟨_, rfl, ?_⟩
    intro o m v h
    rw [Doc.mapped, Doc.size_marked]
    rcases stmtContent_own_text g info target value
      (target.render g depth info.span .plain)
      (value.render g depth info.span (info.valuePlace target))
      (blockDoc depth (Stmt.renderLines g (depth + 1) body))
      (if orElse.info?.isSome then some (orElse.render g depth) else none)
      with ⟨s, own, filled⟩ | only
    · exact Doc.marked_size_lt own filled h
    · rw [only] at h ⊢
      cases h with
      | head h =>
        have own : .text "\x7b\n" ∈ (.text "\x7b\n" ::
            Stmt.renderLines g (depth + 1) body ++ [.text (indentText depth), .text "\x7d"]) := by simp
        have := Doc.marked_size_lt own (by decide) h
        simpa [blockDoc] using this
      | tail h => exact absurd h Doc.no_mark_in_nil
  | func f g depth =>
    refine ⟨_, rfl, ?_⟩
    intro o m v h
    refine Doc.marked_size_lt (s := ")") ?_ (by decide) h
    simp
  | struct s =>
    refine ⟨_, rfl, ?_⟩
    intro o m v h
    refine Doc.marked_size_lt (s := "\x7d") ?_ (by decide) h
    simp

namespace Doc.Covers

variable {d : Doc} {ds : List Doc} {off b o : Nat} {r : Range} {u : Doc} {m : Mark}

theorem of_head (here : b < off + d.size) (h : (Doc.cat (d :: ds)).Covers off b r o u) :
    d.Covers off b r o u := by
  obtain ⟨passage, place, lo, hi⟩ := h
  obtain ⟨_, shape, -⟩ := passage_shape passage
  cases place with
  | here => cases shape
  | head place => exact ⟨passage, place, lo, hi⟩
  | tail place => omega

theorem of_tail (behind : off + d.size ≤ b) (h : (Doc.cat (d :: ds)).Covers off b r o u) :
    ∃ p, o = d.size + p ∧ (Doc.cat ds).Covers (off + d.size) b r p u := by
  obtain ⟨passage, place, lo, hi⟩ := h
  obtain ⟨_, shape, -⟩ := passage_shape passage
  cases place with
  | here => cases shape
  | head place =>
    have := place.inside
    omega
  | tail place => exact ⟨_, rfl, passage, place, by omega, by omega⟩

theorem of_marked (h : (Doc.marked m d).Covers off b r o u) :
    (o = 0 ∧ u = .marked m d ∧ m = ⟨r, r, false⟩) ∨ d.Covers off b r o u := by
  obtain ⟨passage, place, lo, hi⟩ := h
  obtain ⟨_, shape, -⟩ := passage_shape passage
  cases place with
  | here =>
    cases shape
    exact Or.inl ⟨rfl, rfl, rfl⟩
  | marked place => exact Or.inr ⟨passage, place, lo, hi⟩

theorem chain_ne_nil (h : d.Covers off b r o u) : (d.entries off).filter (·.covers b) ≠ [] := by
  obtain ⟨passage, place, lo, hi⟩ := h
  obtain ⟨ds, rfl, -⟩ := passage_shape passage
  obtain ⟨outer, eq⟩ := place.around_part off
  have covered : (Mark.entry ⟨r, r, false⟩ (.cat ds) (off + o)).covers b = true := by
    rw [Doc.size_marked] at hi
    exact Entry.covers_iff.mpr ⟨lo, hi⟩
  rw [eq b lo hi, Doc.entries_marked, List.filter_append]
  simp [covered]

end Doc.Covers

theorem Range.contains_self (r : Range) : r.contains r = true := by
  simp [Range.contains, Pos.less]

def Mark.Sound (m : Mark) : Prop :=
  m.stmt.isZero = false ∧ (m.synthetic = false → m.stmt.contains m.origin = true)

/-- The marks of a document that stand in no passage inside it name `owner` as their statement, and
those that do name the passage. -/
inductive Owned : Option Range → Doc → Prop where
  | text {owner : Option Range} (s : String) : Owned owner (.text s)
  | fault {owner : Option Range} : Owned owner .fault
  | nil {owner : Option Range} : Owned owner (.cat [])
  | cons {owner : Option Range} {d : Doc} {ds : List Doc} (first : Owned owner d)
      (rest : Owned owner (.cat ds)) : Owned owner (.cat (d :: ds))
  | mark {m : Mark} {d : Doc} (sound : m.Sound) (inner : Owned (some m.stmt) d) :
      Owned (some m.stmt) (.marked m d)
  | passage {owner : Option Range} {r : Range} {d : Doc}
      (passage : Passage r (.marked ⟨r, r, false⟩ d)) (known : r.isZero = false)
      (inner : Owned (some r) d) : Owned owner (.marked ⟨r, r, false⟩ d)

/-- The innermost passage around a byte has the span `r`: all others around the byte are longer, if
they do not have the same span. -/
def Doc.Innermost (d : Doc) (off b : Nat) (r : Range) : Prop :=
  ∃ o u, d.Covers off b r o u ∧
    ∀ r' o' u', d.Covers off b r' o' u' → r' = r ∨
      (o' ≤ o ∧ o + u.size ≤ o' + u'.size ∧ u.size < u'.size)

variable {d : Doc} {b : Nat} {e : Entry} {outer : List Entry}

theorem innermost_unique {off : Nat} {r r' : Range} (h : d.Innermost off b r)
    (h' : d.Innermost off b r') : r = r' := by
  obtain ⟨o, u, covers, longer⟩ := h
  obtain ⟨o', u', covers', longer'⟩ := h'
  rcases longer r' o' u' covers' with same | small
  · exact same.symm
  · rcases longer' r o u covers with same | small'
    · exact same
    · omega

/-- Either no passage stands between a document and the mark around a byte, or the innermost one
has the statement of the mark as its span. -/
def Doc.Tells (d : Doc) (owner : Option Range) (off b : Nat) (r : Range) : Prop :=
  (owner = some r ∧ ∀ r' o u, d.Covers off b r' o u → r' = r) ∨ d.Innermost off b r

namespace Doc.Tells

variable {d : Doc} {ds : List Doc} {owner : Option Range} {off b : Nat} {r : Range} {m : Mark}

theorem head (here : b < off + d.size) (h : d.Tells owner off b r) :
    (Doc.cat (d :: ds)).Tells owner off b r := by
  rcases h with ⟨same, alone⟩ | ⟨o, u, covers, longer⟩
  · exact Or.inl ⟨same, fun r' o u h => alone r' o u (h.of_head here)⟩
  · refine Or.inr ⟨o, u, ⟨covers.passage, .head covers.place, covers.lo, covers.hi⟩, ?_⟩
    intro r' o' u' h
    exact longer r' o' u' (h.of_head here)

theorem tail (behind : off + d.size ≤ b) (h : (Doc.cat ds).Tells owner (off + d.size) b r) :
    (Doc.cat (d :: ds)).Tells owner off b r := by
  rcases h with ⟨same, alone⟩ | ⟨o, u, covers, longer⟩
  · refine Or.inl ⟨same, ?_⟩
    intro r' o u h
    obtain ⟨p, -, h⟩ := h.of_tail behind
    exact alone r' p u h
  · have lo := covers.lo
    have hi := covers.hi
    refine Or.inr ⟨d.size + o, u, ⟨covers.passage, .tail covers.place, by omega, by omega⟩, ?_⟩
    intro r' o' u' h
    obtain ⟨p, rfl, inside⟩ := h.of_tail behind
    rcases longer r' p u' inside with same | around
    · exact Or.inl same
    · exact Or.inr (by omega)

end Doc.Tells

namespace Doc.Innermost

variable {d : Doc} {off b : Nat} {r : Range}

theorem marked {m : Mark} (h : d.Innermost off b r) : (Doc.marked m d).Innermost off b r := by
  obtain ⟨o, u, covers, longer⟩ := h
  refine ⟨o, u, ⟨covers.passage, .marked covers.place, covers.lo, covers.hi⟩, ?_⟩
  intro r' o' u' h
  obtain ⟨_, shape, shorter⟩ := passage_shape h.passage
  rcases h.of_marked with ⟨rfl, rfl, -⟩ | inside
  · obtain ⟨rfl, rfl⟩ := Doc.marked.inj shape
    obtain ⟨_, rfl, -⟩ := passage_shape covers.passage
    have inside := covers.place.inside
    have := shorter _ _ _ covers.place
    simp only [Doc.size_marked] at *
    exact Or.inr (by omega)
  · exact longer r' o' u' inside

theorem here (passage : Passage r (.marked ⟨r, r, false⟩ d)) (lo : off ≤ b) (hi : b < off + d.size)
    (alone : ∀ r' o u, d.Covers off b r' o u → r' = r) :
    (Doc.marked ⟨r, r, false⟩ d).Innermost off b r := by
  refine ⟨0, _, ⟨passage, .here _, lo, by simpa using hi⟩, ?_⟩
  intro r' o' u' h
  rcases h.of_marked with ⟨-, -, same⟩ | inside
  · exact Or.inl (Mark.mk.inj same).1.symm
  · exact Or.inl (alone r' o' u' inside)

end Doc.Innermost

theorem mem_of_chain {off : Nat} (chain : (d.entries off).filter (·.covers b) = e :: outer) :
    e ∈ d.entries off ∧ e.start ≤ b ∧ b < e.stop := by
  have member : e ∈ (d.entries off).filter (·.covers b) := by simp [chain]
  rw [List.mem_filter, Entry.covers_iff] at member
  exact member

theorem chain_of_marked {m : Mark} {off : Nat}
    (chain : ((Doc.marked m d).entries off).filter (·.covers b) = e :: outer) :
    ((d.entries off).filter (·.covers b) = [] ∧ e = m.entry d off) ∨
      ∃ inner, (d.entries off).filter (·.covers b) = e :: inner := by
  rw [Doc.entries_marked, List.filter_append] at chain
  cases inside : (d.entries off).filter (·.covers b) with
  | nil =>
    rw [inside, List.nil_append] at chain
    have member : e ∈ [m.entry d off] := (List.mem_filter.mp (by rw [chain]; simp)).1
    exact Or.inl ⟨rfl, List.mem_singleton.mp member⟩
  | cons f fs =>
    rw [inside, List.cons_append] at chain
    exact Or.inr ⟨fs, by rw [(List.cons.inj chain).1]⟩

/-- A statement or declaration with the span `r` is a part of the document. -/
def Doc.HasPassage (d : Doc) (r : Range) : Prop := ∃ o u, Passage r u ∧ d.At o u

theorem Doc.HasPassage.of_part {part : Doc} {o : Nat} {r : Range} (place : d.At o part)
    (h : part.HasPassage r) : d.HasPassage r := by
  obtain ⟨_, u, passage, within⟩ := h
  exact ⟨_, u, passage, place.trans within⟩

theorem owned_entries {owner : Option Range} (h : Owned owner d) {off : Nat} (he : e ∈ d.entries off) :
    e.stmt.isZero = false ∧ (e.synthetic = false → e.stmt.contains e.origin = true) ∧
      (owner = some e.stmt ∨ d.HasPassage e.stmt) := by
  induction h generalizing off with
  | text s => simp at he
  | fault | nil => simp at he
  | cons first rest ihd ihds =>
    rw [Doc.entries_cat_cons, List.mem_append] at he
    rcases he with here | later
    · obtain ⟨known, sound, named⟩ := ihd here
      exact ⟨known, sound, named.imp_right (.of_part (.head (.here _)))⟩
    · obtain ⟨known, sound, named⟩ := ihds later
      exact ⟨known, sound, named.imp_right (.of_part (.tail (.here _)))⟩
  | mark sound inner ih =>
    rw [Doc.entries_marked, List.mem_append, List.mem_singleton] at he
    rcases he with deeper | rfl
    · obtain ⟨known, sound, named⟩ := ih deeper
      exact ⟨known, sound, named.imp_right (.of_part (.marked (.here _)))⟩
    · exact ⟨sound.1, sound.2, .inl rfl⟩
  | @passage owner r d passage known inner ih =>
    have own : (Doc.marked ⟨r, r, false⟩ d).HasPassage r := ⟨0, _, passage, .here _⟩
    rw [Doc.entries_marked, List.mem_append, List.mem_singleton] at he
    rcases he with deeper | rfl
    · obtain ⟨known, sound, above | within⟩ := ih deeper
      · exact ⟨known, sound, .inr (Option.some.inj above ▸ own)⟩
      · exact ⟨known, sound, .inr (.of_part (.marked (.here _)) within)⟩
    · exact ⟨known, fun _ => Range.contains_self r, .inr own⟩

theorem owned_chain {owner : Option Range} (h : Owned owner d) {off : Nat}
    (chain : (d.entries off).filter (·.covers b) = e :: outer) : d.Tells owner off b e.stmt := by
  induction h generalizing off e outer with
  | text s => simp at chain
  | fault | nil => simp at chain
  | @cons owner d ds first rest ihd ihds =>
    rw [Doc.entries_cat_cons, List.filter_append] at chain
    by_cases here : b < off + d.size
    · have empty : ((Doc.cat ds).entries (off + d.size)).filter (·.covers b) = [] :=
        Doc.filter_covers_before (by omega)
      rw [empty, List.append_nil] at chain
      exact (ihd chain).head here
    · have empty : (d.entries off).filter (·.covers b) = [] := Doc.filter_covers_behind (by omega)
      rw [empty, List.nil_append] at chain
      exact (ihds chain).tail (by omega)
  | @mark m d sound inner ih =>
    rcases chain_of_marked chain with ⟨empty, rfl⟩ | ⟨fs, inside⟩
    · refine Or.inl ⟨rfl, ?_⟩
      intro r' o u h
      rcases h.of_marked with ⟨-, -, rfl⟩ | inner
      · rfl
      · exact absurd empty inner.chain_ne_nil
    · rcases ih inside with ⟨same, alone⟩ | innermost
      · refine Or.inl ⟨same, ?_⟩
        intro r' o u h
        rcases h.of_marked with ⟨-, -, rfl⟩ | inner
        · exact Option.some.inj same
        · exact alone r' o u inner
      · exact Or.inr innermost.marked
  | @passage owner r d passage known inner ih =>
    obtain ⟨member, lo, hi⟩ := mem_of_chain chain
    have bounds := Doc.entries_inside member
    rw [Doc.size_marked] at bounds
    rcases chain_of_marked chain with ⟨empty, rfl⟩ | ⟨fs, inside⟩
    · refine Or.inr (.here passage (by omega) (by omega) ?_)
      intro r' o u h
      exact absurd empty h.chain_ne_nil
    · refine Or.inr ?_
      rcases ih inside with ⟨same, alone⟩ | innermost
      · obtain rfl := Option.some.inj same
        exact .here passage (by omega) (by omega) alone
      · exact innermost.marked

end Tenure
