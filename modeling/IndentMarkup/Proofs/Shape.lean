import IndentMarkup.Proofs.Origin
import IndentMarkup.Proofs.Recompilation
import Mathlib.Logic.ExistsUnique

/-! Shapes of lines. Whatever text a line is read from, either nothing is written for it, or
it opens a level and has the pieces to enclose others with, or it is complete on its own and
what it is written as is all of its pieces, with no blank around them to be taken off. -/
namespace IndentMarkup
open Text

theorem Text.solid_of_getLast? {s : Text} {c : Char} (last : s.getLast? = some c)
    (shown : isBlank c = false) : Solid s := by
  intro d other
  rw [last] at other
  exact Option.some.inj other ▸ shown

theorem exists_piece_of_trim_getD {piece? : Option Text} (shown : trim (piece?.getD []) ≠ []) :
    ∃ piece, piece? = some piece ∧ trim piece ≠ [] := by
  cases piece? with
  | none => exact absurd rfl shown
  | some piece => exact ⟨piece, rfl, shown⟩

theorem region_eq (code : Text) : region code = "<?php ".toList ++ code ++ " ?>".toList := rfl

theorem solid_region (code : Text) : Solid (region code) :=
  (solid_of_getLast? (c := '>') (by decide) (by decide)).append_left (by decide) _

namespace Element

theorem solid_startTag (e : Element) (selfClosing : Bool) : Solid (e.startTag selfClosing) := by
  cases selfClosing with
  | false =>
    have ending : Solid ">".toList := solid_of_getLast? (c := '>') (by decide) (by decide)
    exact (ending.append_left (by decide) _).append_left (by simp) ['<']
  | true =>
    have ending : Solid " />".toList := solid_of_getLast? (c := '>') (by decide) (by decide)
    exact (ending.append_left (by decide) _).append_left (by simp) ['<']

theorem solid_endTag (e : Element) : Solid e.endTag :=
  (solid_of_getLast? (c := '>') (by decide) (by decide)).append_left (by decide) _

end Element

namespace Statement

def pieces (s : Statement) : Text :=
  s.opening?.getD [] ++ s.inline?.getD [] ++ s.closing?.getD []

theorem solid_declaration (type : Doctype) : Solid type.declaration := by
  cases type with
  | html5 => exact solid_of_getLast? (c := '>') (by decide) (by decide)
  | xml => exact solid_of_getLast? (c := '>') (by decide) (by decide)
  | _ =>
    have ending : Solid "\">".toList := solid_of_getLast? (c := '>') (by decide) (by decide)
    exact ending.append_left (by decide) _

theorem solid_pieces {statement : Statement} (made : ∀ text, statement ≠ .literal text) :
    Solid statement.pieces := by
  have alone {piece : Text} (solid : Solid piece) : Solid ([] ++ piece ++ []) := by
    simpa using solid
  cases statement with
  | ignored => exact solid_nil
  | literal text => exact absurd rfl (made text)
  | doctype type => exact alone (solid_declaration type)
  | comment text =>
    have ending : Solid " -->".toList := solid_of_getLast? (c := '>') (by decide) (by decide)
    exact ending.append_left (by decide) _
  | element e body =>
    cases body with
    | void => exact alone (e.solid_startTag true)
    | _ => exact e.solid_endTag.append_left (List.cons_ne_nil _ _) _
  | block keyword condition => exact (solid_region _).append_left (List.cons_ne_nil _ _) _
  | code source => exact alone (solid_region source)
  | echo expression => exact alone (solid_region _)

theorem render_read {s : Text} (trimmed : trim s = s) (counts : (read s).isIgnored = false) :
    (read s).render = (read s).pieces := by
  by_cases literal : ∃ text, read s = .literal text
  · obtain ⟨text, literal⟩ := literal
    have origin := origin_read s
    rw [literal] at origin ⊢
    obtain rfl : text = s := origin
    simp [render, pieces, opening?, inline?, closing?, trimmed]
  · have made : ∀ text, read s ≠ .literal text := fun text same => literal ⟨text, same⟩
    obtain ⟨rest, starts⟩ := exists_tag_pieces counts made
    have off : Off isBlank (read s).pieces := by
      rw [pieces, starts]
      exact off_cons.2 (by decide)
    exact trim_eq off (solid_pieces made)

theorem ne_nil_of_argument? {marker s text : Text} (found : argument? marker s = some (some text)) :
    text ≠ [] := by
  unfold argument? at found
  split at found
  · dsimp only at found
    split at found
    · cases found
    · split at found
      · exact (nonempty?_eq_some_iff.1 (Option.some.inj found)).2
      · cases found
  · cases found

theorem ne_nil_of_read?_text {s content : Text} {e : Element} (solid : Solid s)
    (found : Element.read? s = some (e, .text content)) : content ≠ [] := by
  obtain ⟨d, rfl⟩ := Element.exists_declaration_of_read? solid found
  rw [d.read?_spelling] at found
  obtain ⟨-, body⟩ := Prod.mk.inj (Option.some.inj found)
  cases tail : d.tail with
  | inline gap content' apart valid =>
    rw [tail] at body
    exact Body.text.inj body ▸ valid.given
  | _ => simp [tail, Tail.body] at body

theorem Origin.inline_ne_nil {s piece : Text} {statement : Statement} (origin : statement.Origin s)
    (solid : Solid s) (given : s ≠ []) (inline : statement.inline? = some piece) : piece ≠ [] := by
  cases statement with
  | ignored => cases inline
  | block keyword condition => cases inline
  | doctype type =>
    obtain ⟨rest, starts⟩ := exists_tag_declaration type
    rw [← Option.some.inj inline, starts]
    exact List.cons_ne_nil _ _
  | comment text =>
    have found : argument? "/".toList s = some text := origin
    exact ne_nil_of_argument? (found.trans (congrArg some inline))
  | element e body =>
    cases body with
    | nested => cases inline
    | void => exact Option.some.inj inline ▸ List.cons_ne_nil _ _
    | echo expression => exact Option.some.inj inline ▸ List.cons_ne_nil _ _
    | text content => exact Option.some.inj inline ▸ ne_nil_of_read?_text solid origin
  | code source => exact Option.some.inj inline ▸ List.cons_ne_nil _ _
  | echo expression => exact Option.some.inj inline ▸ List.cons_ne_nil _ _
  | literal text => exact Option.some.inj inline ▸ (origin : text = s) ▸ given

theorem closing?_block (keyword : Keyword) (condition : Text) :
    (block keyword condition).closing? =
      some ("<?php end".toList ++ keyword.word ++ "; ?>".toList) := by
  have opening : "<?php end".toList = "<?php ".toList ++ "end".toList := rfl
  have ending : "; ?>".toList = ";".toList ++ " ?>".toList := rfl
  simp only [closing?, region_eq, opening, ending, List.append_assoc]

/-- The statements that open a level, each with the piece that closes it. -/
inductive ClosedBy : Statement → Text → Prop
  | comment : ClosedBy (comment none) " -->".toList
  | element (e : Element) : ClosedBy (element e .nested) ("</".toList ++ e.tag ++ ">".toList)
  | block (keyword : Keyword) (condition : Text) :
    ClosedBy (block keyword condition) ("<?php end".toList ++ keyword.word ++ "; ?>".toList)

theorem closedBy_of_opensLevel {statement : Statement} (opens : statement.opensLevel = true)
    {piece : Text} (closing : statement.closing? = some piece) : statement.ClosedBy piece := by
  cases statement with
  | comment text =>
    cases text with
    | none => exact Option.some.inj closing ▸ .comment
    | some text => cases opens
  | element e body =>
    obtain rfl := (opensLevel_element e body).1 opens
    exact Option.some.inj closing ▸ .element e
  | block keyword condition =>
    exact Option.some.inj ((closing?_block keyword condition).symm.trans closing) ▸ .block _ _
  | _ => cases closing

def isSingle : Statement → Bool
  | doctype _ => true
  | code _ => true
  | echo _ => true
  | literal _ => true
  | element _ .void => true
  | _ => false

theorem pieces_of_isSingle {statement : Statement} (single : statement.isSingle = true) :
    statement.opening? = none ∧ statement.closing? = none ∧ statement.inline?.isSome = true := by
  cases statement with
  | doctype type => exact ⟨rfl, rfl, rfl⟩
  | code source => exact ⟨rfl, rfl, rfl⟩
  | echo expression => exact ⟨rfl, rfl, rfl⟩
  | literal text => exact ⟨rfl, rfl, rfl⟩
  | element e body =>
    cases body with
    | void => exact ⟨rfl, rfl, rfl⟩
    | _ => cases single
  | _ => cases single

end Statement

namespace Line

structure IsSkipped (line : Line) : Prop where
  ignored : line.isIgnored = true
  opening : line.statement.opening? = none
  inline : line.statement.inline? = none
  closing : line.statement.closing? = none
  render : line.render = []

structure IsOpening (line : Line) : Prop where
  opens : line.opensLevel = true
  inline : line.statement.inline? = none
  opening : ∃ piece, line.statement.opening? = some piece ∧ trim piece ≠ []
  closing : ∃ piece, line.statement.closing? = some piece ∧ trim piece ≠ [] ∧
    line.statement.ClosedBy piece

structure IsComplete (line : Line) : Prop where
  shut : line.opensLevel = false
  inline : ∃ piece, line.statement.inline? = some piece ∧ piece ≠ []
  render : line.render = line.statement.pieces

end Line

inductive Shape
  | skipped | opening | complete
  deriving DecidableEq, Repr

def Shape.Fits (line : Line) : Shape → Prop
  | skipped => line.IsSkipped
  | opening => line.IsOpening
  | complete => line.IsComplete

namespace Line

theorem isSkipped_of_isIgnored {line : Line} (ignored : line.isIgnored = true) :
    line.IsSkipped := by
  have same : line.statement = .ignored := by
    unfold isIgnored at ignored
    cases made : line.statement <;> simp_all [Statement.isIgnored]
  refine ⟨ignored, ?_, ?_, ?_, ?_⟩
  · rw [same]; rfl
  · rw [same]; rfl
  · rw [same]; rfl
  · rw [render, same]; rfl

theorem isOpening_of_opensLevel {line : Line} (opens : line.opensLevel = true) :
    line.IsOpening := by
  obtain ⟨opening, opened, shown⟩ :=
    exists_piece_of_trim_getD (Statement.trim_opening_ne_nil opens)
  obtain ⟨closing, closed, shown'⟩ :=
    exists_piece_of_trim_getD (Statement.trim_closing_ne_nil opens)
  have inline : line.statement.inline? = none := by
    have both := Bool.and_eq_true_iff.1 opens
    exact Option.isNone_iff_eq_none.1 both.2
  exact ⟨opens, inline, ⟨opening, opened, shown⟩,
    ⟨closing, closed, shown', Statement.closedBy_of_opensLevel opens closed⟩⟩

theorem isComplete_read {number : Nat} {raw piece : Text}
    (inline : (read number raw).statement.inline? = some piece) :
    (read number raw).IsComplete := by
  have counts : (read number raw).isIgnored = false := by
    refine Bool.eq_false_iff.2 fun ignored => ?_
    rw [(isSkipped_of_isIgnored ignored).inline] at inline
    cases inline
  have given := trim_ne_nil_of_not_ignored counts
  refine ⟨?_, ⟨piece, inline, ?_⟩, Statement.render_read (trim_trim raw) counts⟩
  · simp [opensLevel, Statement.opensLevel, inline]
  · exact (Statement.origin_read (trim raw)).inline_ne_nil (solid_trim raw) given inline

/-- The shape by which the line is handled: nothing but the inline piece and whether the line
is ignored decide it. -/
def shape (line : Line) : Shape :=
  if line.opensLevel then .opening
  else if line.statement.inline?.isSome then .complete else .skipped

theorem fits_shape (number : Nat) (raw : Text) :
    (read number raw).shape.Fits (read number raw) := by
  unfold shape
  split
  next opens => exact isOpening_of_opensLevel opens
  next shut =>
    split
    next some =>
      obtain ⟨piece, inline⟩ := Option.isSome_iff_exists.1 some
      exact isComplete_read inline
    next none =>
      rw [opensLevel, Statement.opensLevel, Option.not_isSome_iff_eq_none.1 none] at shut
      have ignored : (read number raw).statement.isIgnored = true := by simpa using shut
      exact isSkipped_of_isIgnored ignored

theorem shape_eq_of_fits {line : Line} {shape : Shape} (fits : shape.Fits line) :
    line.shape = shape := by
  unfold Line.shape
  cases shape with
  | skipped =>
    have ignored : line.statement.isIgnored = true := fits.ignored
    simp [opensLevel, Statement.opensLevel, ignored, fits.inline]
  | opening => rw [if_pos fits.opens]
  | complete =>
    obtain ⟨piece, inline, -⟩ := fits.inline
    simp [fits.shut, inline]

/-- A line has one shape, and if it is one piece that is all it has. Its content is what was
read but for the blanks around it, and a space that makes no level is a single one. -/
theorem existsUnique_shape (number : Nat) (raw : Text) :
    let line := read number raw
    (∃! shape : Shape, shape.Fits line) ∧
    (line.statement.isSingle = true →
      line.IsComplete ∧ line.statement.opening? = none ∧ line.statement.closing? = none) ∧
    (∃ lead trail : Gap, raw = lead.val ++ line.content ++ trail.val) ∧
    Off isBlank line.content ∧ Solid line.content ∧
    (line.leadingSpaces = 2 * line.indent ∨ line.leadingSpaces = 2 * line.indent + 1) := by
  intro line
  obtain ⟨trail, blank, parts⟩ := exists_trimEnd_append raw
  refine ⟨⟨line.shape, fits_shape number raw, fun _ fits => (shape_eq_of_fits fits).symm⟩, ?_, ?_,
    off_trim raw, solid_trim raw, ?_⟩
  · intro single
    obtain ⟨opening, closing, inline⟩ := Statement.pieces_of_isSingle single
    obtain ⟨piece, inline⟩ := Option.isSome_iff_exists.1 inline
    exact ⟨isComplete_read inline, opening, closing⟩
  · refine ⟨⟨margin (trimEnd raw), fun _ => isBlank_of_mem_margin⟩, ⟨trail, blank⟩, ?_⟩
    change raw = margin (trimEnd raw) ++ trimStart (trimEnd raw) ++ trail
    rw [margin_append_trimStart, parts]
  · rw [indent]
    omega

end Line

end IndentMarkup
