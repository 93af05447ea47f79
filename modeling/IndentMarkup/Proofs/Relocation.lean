import IndentMarkup.Proofs.Run

/-! Lines at other places. Moving lines gives them other numbers and puts all of
them the same number of levels further in. A run over moved lines that starts inside
frames around all of them keeps step with the run over the lines themselves, and
writes, warns and fails as that one does, at the other place. -/
namespace IndentMarkup
open Text

def Warning.renumber (f : Nat → Nat) : Warning → Warning
  | literalFallback line content => literalFallback (f line) content
  | unsupportedControl line keyword => unsupportedControl (f line) keyword
  | tabIndentation line => tabIndentation (f line)

namespace Fault

def renumber (f : Nat → Nat) : Fault → Fault
  | tooDeep line => tooDeep (f line)
  | oddIndentation line spaces => oddIndentation (f line) spaces
  | unreadable path cause => unreadable path cause

def deepen (rise : Nat) : Fault → Fault
  | tooDeep line => tooDeep line
  | oddIndentation line spaces => oddIndentation line (spaces + 2 * rise)
  | unreadable path cause => unreadable path cause

@[simp] theorem deepen_zero (fault : Fault) : fault.deepen 0 = fault := by
  cases fault <;> rfl

end Fault

def Entry.raise (rise : Nat) (entry : Entry) : Entry := ⟨entry.level + rise, entry.text⟩

@[simp] theorem Entry.raise_zero (entry : Entry) : entry.raise 0 = entry := rfl

@[simp] theorem Entry.map_raise_zero (entries : List Entry) : entries.map (raise 0) = entries :=
  List.map_id entries

def Frame.raise (rise : Nat) (frame : Frame) : Frame := ⟨frame.level + rise, frame.closing⟩

theorem Frame.entry_raise (rise : Nat) (frame : Frame) :
    (frame.raise rise).entry = frame.entry.raise rise := rfl

namespace Line

def move (f : Nat → Nat) (rise : Nat) (line : Line) : Line :=
  { line with
    number := f line.number
    raw := List.replicate (2 * rise) ' ' ++ line.raw
    leadingSpaces := line.leadingSpaces + 2 * rise }

section
variable (f : Nat → Nat) (rise : Nat) (line : Line)

@[simp] theorem isIgnored_move : (line.move f rise).isIgnored = line.isIgnored := rfl

@[simp] theorem opensLevel_move : (line.move f rise).opensLevel = line.opensLevel := rfl

@[simp] theorem indent_move : (line.move f rise).indent = line.indent + rise := by
  simp only [indent, move]
  omega

theorem entry_move : (line.move f rise).entry = line.entry.raise rise := by
  simp only [entry, opensLevel_move, indent_move]
  split <;> rfl

theorem frame_move : (line.move f rise).frame = line.frame.raise rise := by
  simp only [frame, indent_move]
  rfl

theorem limit_move : limit (some (line.move f rise)) = limit (some line) + rise := by
  rw [limit, limit, indent_move]
  exact Nat.add_right_comm _ _ _

theorem tabWarning?_move :
    (line.move f rise).tabWarning? = line.tabWarning?.map (Warning.renumber f) := by
  have blank : ∀ c ∈ List.replicate (2 * rise) ' ', isBlank c = true := by
    intro c member
    rw [(List.mem_replicate.1 member).2]
    decide
  have margin_move : margin (line.move f rise).raw =
      List.replicate (2 * rise) ' ' ++ margin line.raw :=
    List.takeWhile_append_of_pos blank
  have tabs : (margin (line.move f rise).raw).contains '\t' = (margin line.raw).contains '\t' := by
    simp [margin_move]
  unfold tabWarning?
  rw [tabs]
  split <;> rfl

theorem fallbackWarning?_move :
    (line.move f rise).fallbackWarning? = line.fallbackWarning?.map (Warning.renumber f) := by
  have statement : (line.move f rise).statement = line.statement := rfl
  have content : (line.move f rise).content = line.content := rfl
  unfold fallbackWarning?
  rw [statement, content]
  cases line.statement with
  | literal text => dsimp only; split <;> rfl
  | code source => dsimp only; split <;> rfl
  | _ => rfl

theorem warnings_move :
    (line.move f rise).warnings = line.warnings.map (Warning.renumber f) := by
  simp only [warnings, tabWarning?_move, fallbackWarning?_move, Option.toList_map, List.map_append]

variable {line}

theorem fault?_move {previous previous' : Option Line}
    (deeper : limit previous' = limit previous + rise) :
    (line.move f rise).fault? previous' =
      (line.fault? previous).map fun fault => (fault.renumber f).deepen rise := by
  have odd : ((line.move f rise).leadingSpaces % 2 ≠ 0) = (line.leadingSpaces % 2 ≠ 0) := by
    simp only [move]
    rw [Nat.add_mul_mod_self_left]
  have deep : (limit previous' < (line.move f rise).indent) = (limit previous < line.indent) := by
    rw [deeper, indent_move, Nat.add_lt_add_iff_right]
  unfold fault?
  simp only [odd, deep]
  split
  · rfl
  · split <;> rfl

end

end Line

theorem counted_map_move (f : Nat → Nat) (rise : Nat) (lines : List Line) :
    counted (lines.map (Line.move f rise)) = (counted lines).map (Line.move f rise) :=
  List.filter_map

theorem takeWhile_dropWhile_raise {rise : Nat} {around : List Frame}
    (enclosing : ∀ frame ∈ around, frame.level < rise) (frames : List Frame) (level : Nat) :
    (frames.map (Frame.raise rise) ++ around).takeWhile (level + rise ≤ ·.level) =
        (frames.takeWhile (level ≤ ·.level)).map (Frame.raise rise) ∧
      (frames.map (Frame.raise rise) ++ around).dropWhile (level + rise ≤ ·.level) =
        (frames.dropWhile (level ≤ ·.level)).map (Frame.raise rise) ++ around := by
  induction frames with
  | nil =>
    cases around with
    | nil => exact ⟨rfl, rfl⟩
    | cons frame around =>
      have outside := enclosing frame List.mem_cons_self
      have kept : ¬level + rise ≤ frame.level := by omega
      simp [kept]
  | cons frame frames ih =>
    by_cases stale : level ≤ frame.level
    · simpa [Frame.raise, stale] using ih
    · simp [Frame.raise, stale]

namespace Assembly

/-- The assembly `outer` is `inner` put `rise` levels further in, inside the frames
`around` and behind the entries `before`. -/
structure Embedded (rise : Nat) (around : List Frame) (before : List Entry)
    (inner outer : Assembly) : Prop where
  enclosing : ∀ frame ∈ around, frame.level < rise
  frames : outer.frames = inner.frames.map (Frame.raise rise) ++ around
  entries : outer.entries.toList = before ++ inner.entries.toList.map (Entry.raise rise)

namespace Embedded

variable {rise : Nat} {around : List Frame} {before : List Entry} {inner outer : Assembly}

theorem stale (embedded : Embedded rise around before inner outer) (level : Nat) :
    outer.stale (level + rise) = (inner.stale level).map (Frame.raise rise) := by
  rw [Assembly.stale, embedded.frames, (takeWhile_dropWhile_raise embedded.enclosing _ _).1]
  rfl

theorem closeTo (embedded : Embedded rise around before inner outer) (level : Nat) :
    Embedded rise around before (inner.closeTo level) (outer.closeTo (level + rise)) where
  enclosing := embedded.enclosing
  frames := by
    rw [Assembly.closeTo, embedded.frames, (takeWhile_dropWhile_raise embedded.enclosing _ _).2]
    rfl
  entries := by
    simp [embedded.entries, embedded.stale, Frame.entry_raise, Function.comp_def]

theorem add (embedded : Embedded rise around before inner outer) (f : Nat → Nat) (line : Line) :
    Embedded rise around before (inner.add line) (outer.add (line.move f rise)) := by
  have settled := embedded.closeTo line.indent
  rw [← Line.indent_move f] at settled
  refine ⟨embedded.enclosing, ?_, ?_⟩
  · simp only [Assembly.add, Line.opensLevel_move, Line.frame_move, settled.frames]
    split <;> rfl
  · simp only [Assembly.add, Array.toList_push, settled.entries, Line.entry_move,
      List.map_append, List.append_assoc, List.map_cons, List.map_nil]

theorem flush (embedded : Embedded rise around before inner outer) :
    outer.flush.entries.toList =
      before ++ inner.flush.entries.toList.map (Entry.raise rise) ++ around.map Frame.entry := by
  simp [embedded.entries, embedded.frames, Frame.entry_raise, Function.comp_def]

end Embedded

end Assembly

namespace Compilation

theorem run_counted (state : Compilation) (lines : List Line) :
    state.run (counted lines) = state.run lines := by
  induction lines generalizing state with
  | nil => rfl
  | cons line lines ih =>
    rcases run_cons_cases state line with
      ⟨ignored, next⟩ | ⟨counts, right, next⟩ | ⟨fault, counts, wrong, next⟩
    · rw [counted_cons_ignored ignored, next, ih]
    · rw [counted_cons counts, next, next, ih]
    · rw [counted_cons counts, next, next]

/-- The compilation `outer` keeps step with `inner`, which is given lines that `outer`
is given moved; `noted` are the warnings `outer` had before. -/
structure Embedded (f : Nat → Nat) (rise : Nat) (around : List Frame) (before : List Entry)
    (noted : List Warning) (inner outer : Compilation) : Prop where
  assembly : Assembly.Embedded rise around before inner.assembly outer.assembly
  warnings : outer.warnings.toList = noted ++ inner.warnings.toList.map (Warning.renumber f)
  limit : Line.limit outer.previous = Line.limit inner.previous + rise

namespace Embedded

variable {f : Nat → Nat} {rise : Nat} {around : List Frame} {before : List Entry}
  {noted : List Warning} {inner outer : Compilation}

theorem accept (embedded : Embedded f rise around before noted inner outer) (line : Line) :
    Embedded f rise around before noted (inner.accept line)
      (outer.accept (line.move f rise)) where
  assembly := embedded.assembly.add f line
  warnings := by
    simp [Compilation.accept, embedded.warnings, Line.warnings_move]
  limit := Line.limit_move f rise line

theorem run (embedded : Embedded f rise around before noted inner outer) (lines : List Line) :
    ∃ final,
      outer.run (lines.map (Line.move f rise)) =
        (final, (inner.run lines).2.map fun fault => (fault.renumber f).deepen rise) ∧
      Embedded f rise around before noted (inner.run lines).1 final := by
  induction lines generalizing inner outer with
  | nil => exact ⟨outer, rfl, embedded⟩
  | cons line lines ih =>
    have same : (line.move f rise).fault? outer.previous =
        (line.fault? inner.previous).map fun fault => (fault.renumber f).deepen rise :=
      Line.fault?_move f rise embedded.limit
    rw [List.map_cons]
    rcases run_cons_cases inner line with
      ⟨ignored, next⟩ | ⟨counts, right, next⟩ | ⟨fault, counts, wrong, next⟩
    · rw [next, run_ignored outer (by simpa using ignored)]
      exact ih embedded
    · rw [right] at same
      rw [next, run_accept outer (by simpa using counts) same]
      exact ih (embedded.accept line)
    · rw [wrong] at same
      rw [next, run_fault outer (by simpa using counts) same]
      exact ⟨outer, rfl, embedded⟩

theorem finish (embedded : Embedded f rise around before noted inner outer) :
    outer.finish =
      ⟨before ++ inner.finish.entries.map (Entry.raise rise) ++ around.map Frame.entry,
        noted ++ inner.finish.warnings.map (Warning.renumber f)⟩ := by
  rw [Compilation.finish, embedded.assembly.flush, embedded.warnings]
  rfl

theorem compileLines {raws moved : List Text}
    (embedded : Embedded f rise around before noted {} outer)
    (ran : ({} : Compilation).run (readLines 1 moved) =
      outer.run ((counted (readLines 1 raws)).map (Line.move f rise))) :
    (∀ document, IndentMarkup.compileLines raws = .ok document →
      IndentMarkup.compileLines moved =
        .ok ⟨before ++ document.entries.map (Entry.raise rise) ++ around.map Frame.entry,
          noted ++ document.warnings.map (Warning.renumber f)⟩) ∧
    ∀ fault, IndentMarkup.compileLines raws = .error fault →
      IndentMarkup.compileLines moved = .error ((fault.renumber f).deepen rise) := by
  obtain ⟨final, reached, embedded⟩ := embedded.run (counted (readLines 1 raws))
  rw [run_counted] at reached embedded
  rw [reached] at ran
  rcases alone : ({} : Compilation).run (readLines 1 raws) with ⟨state, _ | fault⟩
  · rw [alone] at ran embedded
    rw [compileLines_of_run alone, compileLines_of_run ran, embedded.finish]
    refine ⟨?_, fun _ failed => nomatch failed⟩
    rintro _ ⟨⟩
    rfl
  · rw [alone] at ran
    rw [compileLines_of_run_fault alone, compileLines_of_run_fault ran]
    refine ⟨(fun _ compiled => nomatch compiled), ?_⟩
    rintro _ ⟨⟩
    rfl

end Embedded

end Compilation

end IndentMarkup
