import IndentMarkup.Assembly

/-! Frames and entries under any use. An assembly may be given lines, closed to a
level and flushed in any order, whether or not the lines are indented rightly and
whether or not they are ignored ones. The frames then still stand further in the
later they were opened, and the entries still are the pieces of a bracketing whose
open brackets are the frames. -/
namespace IndentMarkup

/-- Frames, innermost first, each further in than those around it. -/
def Descending (frames : List Frame) : Prop :=
  frames.Pairwise fun inner outer => outer.level < inner.level

namespace Descending

theorem lt_of_mem_dropWhile {frames : List Frame} (descending : Descending frames) {level : Nat}
    {frame : Frame} (member : frame ∈ frames.dropWhile (level ≤ ·.level)) :
    frame.level < level := by
  induction frames with
  | nil => cases member
  | cons first frames ih =>
    have ⟨further, rest⟩ := List.pairwise_cons.1 descending
    by_cases stale : level ≤ first.level
    · rw [List.dropWhile_cons_of_pos (by simpa using stale)] at member
      exact ih rest member
    · rw [List.dropWhile_cons_of_neg (by simpa using stale)] at member
      rcases List.mem_cons.1 member with rfl | outer
      · omega
      · have := further frame outer
        omega

theorem le_of_mem_takeWhile {frames : List Frame} {level : Nat} {frame : Frame}
    (member : frame ∈ frames.takeWhile (level ≤ ·.level)) : level ≤ frame.level := by
  simpa using List.all_eq_true.1 List.all_takeWhile frame member

theorem takeWhile_eq_filter {frames : List Frame} (descending : Descending frames) (level : Nat) :
    frames.takeWhile (level ≤ ·.level) = frames.filter (level ≤ ·.level) := by
  have stale : (frames.takeWhile (level ≤ ·.level)).filter (level ≤ ·.level) =
      frames.takeWhile (level ≤ ·.level) := by
    simpa using fun frame member => le_of_mem_takeWhile member
  have kept : (frames.dropWhile (level ≤ ·.level)).filter (level ≤ ·.level) = [] := by
    simpa using fun frame member => descending.lt_of_mem_dropWhile member
  calc
    frames.takeWhile (level ≤ ·.level) =
        (frames.takeWhile (level ≤ ·.level) ++ frames.dropWhile (level ≤ ·.level)).filter
          (level ≤ ·.level) := by rw [List.filter_append, stale, kept, List.append_nil]
    _ = frames.filter (level ≤ ·.level) := by rw [List.takeWhile_append_dropWhile]

theorem dropWhile_eq_filter {frames : List Frame} (descending : Descending frames) (level : Nat) :
    frames.dropWhile (level ≤ ·.level) = frames.filter (·.level < level) := by
  have stale : (frames.takeWhile (level ≤ ·.level)).filter (·.level < level) = [] := by
    simpa using fun frame member => le_of_mem_takeWhile member
  have kept : (frames.dropWhile (level ≤ ·.level)).filter (·.level < level) =
      frames.dropWhile (level ≤ ·.level) := by
    simpa using fun frame member => descending.lt_of_mem_dropWhile member
  calc
    frames.dropWhile (level ≤ ·.level) =
        (frames.takeWhile (level ≤ ·.level) ++ frames.dropWhile (level ≤ ·.level)).filter
          (·.level < level) := by rw [List.filter_append, stale, kept, List.nil_append]
    _ = frames.filter (·.level < level) := by rw [List.takeWhile_append_dropWhile]

theorem closeTo {assembly : Assembly} (descending : Descending assembly.frames) (level : Nat) :
    Descending (assembly.closeTo level).frames :=
  descending.sublist (List.dropWhile_sublist _)

theorem add {assembly : Assembly} (descending : Descending assembly.frames) (line : Line) :
    Descending (assembly.add line).frames := by
  have settled := descending.closeTo line.indent
  have around : ∀ outer ∈ (assembly.closeTo line.indent).frames, outer.level < line.indent :=
    fun _ member => descending.lt_of_mem_dropWhile member
  unfold Assembly.add
  split
  · exact List.pairwise_cons.2 ⟨around, settled⟩
  · exact settled

theorem levels {frames : List Frame} (descending : Descending frames) :
    (frames.reverse.map Frame.level).Pairwise (· < ·) :=
  List.pairwise_map.2 (List.pairwise_reverse.2 descending)

end Descending

namespace Assembly

def Use.line? : Use → Option Line
  | add line => some line
  | closeTo _ => none
  | flush => none

def applyAll (assembly : Assembly) (uses : List Use) : Assembly := uses.foldl apply assembly

def ofUses (uses : List Use) : Assembly := ({} : Assembly).applyAll uses

theorem ofUses_append (uses later : List Use) :
    ofUses (uses ++ later) = (ofUses uses).applyAll later := List.foldl_append

theorem descending_apply {assembly : Assembly} (descending : Descending assembly.frames)
    (asked : Use) : Descending (assembly.apply asked).frames := by
  cases asked with
  | add line => exact descending.add line
  | closeTo level => exact descending.closeTo level
  | flush => exact List.Pairwise.nil

theorem descending_applyAll {assembly : Assembly} (descending : Descending assembly.frames)
    (uses : List Use) : Descending (assembly.applyAll uses).frames := by
  induction uses generalizing assembly with
  | nil => exact descending
  | cons asked uses ih => exact ih (descending_apply descending asked)

theorem entries_prefix_apply (assembly : Assembly) (asked : Use) :
    assembly.entries.toList <+: (assembly.apply asked).entries.toList := by
  cases asked with
  | add line => simp [apply]
  | closeTo level => simp [apply]
  | flush => simp [apply]

theorem entries_prefix_applyAll (assembly : Assembly) (uses : List Use) :
    assembly.entries.toList <+: (assembly.applyAll uses).entries.toList := by
  induction uses generalizing assembly with
  | nil => exact List.prefix_rfl
  | cons asked uses ih =>
    exact (assembly.entries_prefix_apply asked).trans (ih (assembly.apply asked))

end Assembly

/-- What an entry is to a line: all of it, or one of the two pieces around others. -/
inductive Piece
  | whole (line : Line)
  | opening (line : Line)
  | closing (line : Line)
  deriving DecidableEq, Repr

namespace Piece

def entry : Piece → Entry
  | whole line => ⟨line.indent, line.render⟩
  | opening line => ⟨line.indent, Text.trim (line.statement.opening?.getD [])⟩
  | closing line => ⟨line.indent, Text.trim (line.statement.closing?.getD [])⟩

def arrival? : Piece → Option Line
  | whole line => some line
  | opening line => some line
  | closing _ => none

def ofLine (line : Line) : Piece := if line.opensLevel then opening line else whole line

theorem entry_ofLine (line : Line) : (ofLine line).entry = line.entry := by
  unfold ofLine Line.entry
  split <;> rfl

theorem arrival?_ofLine (line : Line) : (ofLine line).arrival? = some line := by
  unfold ofLine
  split <;> rfl

theorem map_entry_closing (lines : List Line) :
    (lines.map closing).map entry = (lines.map Line.frame).map Frame.entry := by
  simp only [List.map_map]
  rfl

end Piece

/-- Pieces in which every level is opened and closed by the same line, and what
stands between the two is of this kind again. -/
inductive Balanced : List Piece → Prop
  | nil : Balanced []
  | whole {line : Line} {after : List Piece} (shut : line.opensLevel = false)
      (rest : Balanced after) : Balanced (.whole line :: after)
  | level {line : Line} {inside after : List Piece} (opens : line.opensLevel = true)
      (inner : Balanced inside) (rest : Balanced after) :
      Balanced (.opening line :: (inside ++ .closing line :: after))

theorem Balanced.append {first second : List Piece} (left : Balanced first)
    (right : Balanced second) : Balanced (first ++ second) := by
  induction left with
  | nil => exact right
  | whole shut _ ih => exact .whole shut ih
  | level opens inner _ _ ih => simpa using Balanced.level opens inner ih

/-- Pieces in which the levels of `lines`, innermost first, are opened and not yet
closed, and all others are closed by the lines that opened them. -/
inductive Unclosed : List Line → List Piece → Prop
  | none {pieces : List Piece} (balanced : Balanced pieces) : Unclosed [] pieces
  | level {line : Line} {lines : List Line} {before inside : List Piece}
      (opens : line.opensLevel = true) (outer : Unclosed lines before)
      (inner : Balanced inside) : Unclosed (line :: lines) (before ++ .opening line :: inside)

namespace Unclosed

theorem append {lines : List Line} {pieces more : List Piece} (unclosed : Unclosed lines pieces)
    (balanced : Balanced more) : Unclosed lines (pieces ++ more) := by
  cases unclosed with
  | none whole => exact .none (whole.append balanced)
  | level opens outer inner => simpa using Unclosed.level opens outer (inner.append balanced)

theorem arrive {lines : List Line} {pieces : List Piece} (unclosed : Unclosed lines pieces)
    (line : Line) :
    Unclosed (if line.opensLevel then line :: lines else lines) (pieces ++ [.ofLine line]) := by
  cases opens : line.opensLevel with
  | true => simpa [Piece.ofLine, opens] using Unclosed.level opens unclosed .nil
  | false => simpa [Piece.ofLine, opens] using unclosed.append (.whole opens .nil)

theorem close {line : Line} {lines : List Line} {pieces : List Piece}
    (unclosed : Unclosed (line :: lines) pieces) : Unclosed lines (pieces ++ [.closing line]) := by
  cases unclosed with
  | level opens outer inner =>
    have level := Balanced.level opens inner .nil
    simpa using outer.append level

theorem closeAll {closed kept : List Line} {pieces : List Piece}
    (unclosed : Unclosed (closed ++ kept) pieces) :
    Unclosed kept (pieces ++ closed.map .closing) := by
  induction closed generalizing pieces with
  | nil => simpa using unclosed
  | cons line closed ih => simpa using ih unclosed.close

theorem balanced {lines : List Line} {pieces : List Piece} (unclosed : Unclosed lines pieces) :
    Balanced (pieces ++ lines.map .closing) := by
  have all : Unclosed (lines ++ []) pieces := by simpa using unclosed
  cases all.closeAll with
  | none balanced => exact balanced

end Unclosed

namespace Assembly

/-- An account of an assembly: the lines that arrived, the pieces that its entries
are, and the lines whose levels are open, innermost first. -/
structure Account (assembly : Assembly) (arrived : List Line) (pieces : List Piece)
    (pending : List Line) : Prop where
  entries : assembly.entries.toList = pieces.map Piece.entry
  frames : assembly.frames = pending.map Line.frame
  arrivals : pieces.filterMap Piece.arrival? = arrived
  unclosed : Unclosed pending pieces

namespace Account

variable {assembly : Assembly} {arrived pending : List Line} {pieces : List Piece}

theorem start : Account {} [] [] [] := ⟨rfl, rfl, rfl, .none .nil⟩

theorem stale (account : Account assembly arrived pieces pending) (level : Nat) :
    assembly.stale level = (pending.takeWhile (level ≤ ·.indent)).map Line.frame := by
  rw [Assembly.stale, account.frames, List.takeWhile_map]
  rfl

theorem closeTo (account : Account assembly arrived pieces pending) (level : Nat) :
    Account (assembly.closeTo level) arrived
      (pieces ++ (pending.takeWhile (level ≤ ·.indent)).map .closing)
      (pending.dropWhile (level ≤ ·.indent)) where
  entries := by
    rw [entries_closeTo, account.stale, account.entries, List.map_append, Piece.map_entry_closing]
  frames := by
    rw [Assembly.closeTo, account.frames, List.dropWhile_map]
    rfl
  arrivals := by
    rw [List.filterMap_append, account.arrivals, List.filterMap_map]
    simp [Function.comp_def, Piece.arrival?]
  unclosed := by
    apply Unclosed.closeAll
    rw [List.takeWhile_append_dropWhile]
    exact account.unclosed

theorem arrive (account : Account assembly arrived pieces pending) (line : Line) :
    Account
      { frames := if line.opensLevel then line.frame :: assembly.frames else assembly.frames
        entries := assembly.entries.push line.entry }
      (arrived ++ [line]) (pieces ++ [.ofLine line])
      (if line.opensLevel then line :: pending else pending) where
  entries := by simp [account.entries, Piece.entry_ofLine]
  frames := by split <;> simp [account.frames]
  arrivals := by simp [account.arrivals, Piece.arrival?_ofLine]
  unclosed := account.unclosed.arrive line

theorem apply (account : Account assembly arrived pieces pending) (asked : Use) :
    ∃ pieces pending,
      Account (assembly.apply asked) (arrived ++ asked.line?.toList) pieces pending := by
  cases asked with
  | add line => exact ⟨_, _, (account.closeTo line.indent).arrive line⟩
  | closeTo level =>
    rw [Use.line?, Option.toList_none, List.append_nil]
    exact ⟨_, _, account.closeTo level⟩
  | flush =>
    rw [Use.line?, Option.toList_none, List.append_nil, Assembly.apply, ← closeTo_zero]
    exact ⟨_, _, account.closeTo 0⟩

theorem applyAll (account : Account assembly arrived pieces pending) (uses : List Use) :
    ∃ pieces pending,
      Account (assembly.applyAll uses) (arrived ++ uses.filterMap Use.line?) pieces pending := by
  induction uses generalizing assembly arrived pieces pending with
  | nil => exact ⟨pieces, pending, by simpa [Assembly.applyAll] using account⟩
  | cons asked uses ih =>
    obtain ⟨_, _, next⟩ := account.apply asked
    obtain ⟨pieces, pending, final⟩ := ih next
    refine ⟨pieces, pending, ?_⟩
    cases given : asked.line? <;> simpa [given, Assembly.applyAll] using final

end Account

/-- However an assembly has been used, its frames stand further in towards the
inside, its entries stay where they are, and they are the pieces of the lines added,
in order, in a bracketing of which the frames are what is open. Closing to a level
closes the frames at that level or further in and no others, from the inside out,
and flushing is closing to level zero. -/
theorem ofUses_discipline (uses later : List Use) (level : Nat) :
    ((ofUses uses).frames.reverse.map Frame.level).Pairwise (· < ·) ∧
    (ofUses uses).entries.toList <+: (ofUses (uses ++ later)).entries.toList ∧
    (∃ pieces pending,
      (ofUses uses).entries.toList = pieces.map Piece.entry ∧
      (ofUses uses).frames = pending.map Line.frame ∧
      pieces.filterMap Piece.arrival? = uses.filterMap Use.line? ∧
      Unclosed pending pieces ∧
      Balanced (pieces ++ pending.map .closing)) ∧
    ((ofUses uses).closeTo level).frames = (ofUses uses).frames.filter (·.level < level) ∧
    ((ofUses uses).closeTo level).entries.toList = (ofUses uses).entries.toList ++
      ((ofUses uses).frames.filter (level ≤ ·.level)).map Frame.entry ∧
    (((ofUses uses).frames.filter (level ≤ ·.level)).map Frame.level).Pairwise (· > ·) ∧
    (ofUses uses).report? (.closeTo level) =
      some ((ofUses uses).frames.filter (level ≤ ·.level)).length ∧
    (ofUses uses).flush = (ofUses uses).closeTo 0 ∧
    (ofUses uses).report? .flush = (ofUses uses).report? (.closeTo 0) := by
  have start : Descending ({} : Assembly).frames := List.Pairwise.nil
  have descending : Descending (ofUses uses).frames := descending_applyAll start uses
  have stale : (ofUses uses).stale level = (ofUses uses).frames.filter (level ≤ ·.level) :=
    descending.takeWhile_eq_filter level
  have further : Descending ((ofUses uses).frames.filter (level ≤ ·.level)) :=
    descending.sublist List.filter_sublist
  obtain ⟨pieces, pending, account⟩ := Account.start.applyAll uses
  refine ⟨descending.levels, ?_, ?_, ?_, ?_, ?_, ?_, ?_, ?_⟩
  · rw [ofUses_append]
    exact entries_prefix_applyAll _ later
  · exact ⟨pieces, pending, account.entries, account.frames, account.arrivals, account.unclosed,
      account.unclosed.balanced⟩
  · exact descending.dropWhile_eq_filter level
  · rw [entries_closeTo, stale]
  · exact List.pairwise_map.2 further
  · rw [report?, stale]
  · exact (closeTo_zero _).symm
  · rw [report?, report?, stale_zero]

end Assembly

end IndentMarkup
