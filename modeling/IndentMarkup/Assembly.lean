import IndentMarkup.Entry
import IndentMarkup.Line

/-! Assembly of a document from lines. A frame is a level that has been opened
and still owes its closing piece; frames are kept innermost first, and a line
closes every frame that does not enclose it before it adds its own entry. -/
namespace IndentMarkup

structure Frame where
  level : Nat
  closing : Text
  deriving DecidableEq, Repr

def Frame.entry (frame : Frame) : Entry := ⟨frame.level, frame.closing⟩

namespace Line

def entry (line : Line) : Entry :=
  if line.opensLevel then ⟨line.indent, Text.trim (line.statement.opening?.getD [])⟩
  else ⟨line.indent, line.render⟩

def frame (line : Line) : Frame :=
  ⟨line.indent, Text.trim (line.statement.closing?.getD [])⟩

end Line

structure Assembly where
  frames : List Frame := []
  entries : Array Entry := #[]
  deriving DecidableEq, Repr

namespace Assembly

def push (assembly : Assembly) (entry : Entry) : Assembly :=
  { assembly with entries := assembly.entries.push entry }

def stale (assembly : Assembly) (level : Nat) : List Frame :=
  assembly.frames.takeWhile (level ≤ ·.level)

def closeTo (assembly : Assembly) (level : Nat) : Assembly where
  frames := assembly.frames.dropWhile (level ≤ ·.level)
  entries := assembly.entries ++ (assembly.stale level).map Frame.entry

theorem stale_append_frames_closeTo (assembly : Assembly) (level : Nat) :
    assembly.stale level ++ (assembly.closeTo level).frames = assembly.frames :=
  List.takeWhile_append_dropWhile

@[simp] theorem entries_closeTo (assembly : Assembly) (level : Nat) :
    (assembly.closeTo level).entries.toList =
      assembly.entries.toList ++ (assembly.stale level).map Frame.entry := by
  simp [closeTo]

def add (assembly : Assembly) (line : Line) : Assembly :=
  let settled := assembly.closeTo line.indent
  { frames := if line.opensLevel then line.frame :: settled.frames else settled.frames
    entries := settled.entries.push line.entry }

@[simp] theorem entries_add (assembly : Assembly) (line : Line) :
    (assembly.add line).entries.toList =
      assembly.entries.toList ++ (assembly.stale line.indent).map Frame.entry ++ [line.entry] := by
  simp [add]

def flush (assembly : Assembly) : Assembly where
  frames := []
  entries := assembly.entries ++ assembly.frames.map Frame.entry

@[simp] theorem entries_flush (assembly : Assembly) :
    assembly.flush.entries.toList =
      assembly.entries.toList ++ assembly.frames.map Frame.entry := by
  simp [flush]

theorem stale_zero (assembly : Assembly) : assembly.stale 0 = assembly.frames := by
  unfold stale
  induction assembly.frames with
  | nil => rfl
  | cons frame frames ih =>
    have closed : decide (0 ≤ frame.level) = true := decide_eq_true (Nat.zero_le _)
    rw [List.takeWhile_cons, if_pos closed, ih]

theorem closeTo_zero (assembly : Assembly) : assembly.closeTo 0 = assembly.flush := by
  have none : (assembly.closeTo 0).frames = [] := by
    simpa [stale_zero] using stale_append_frames_closeTo assembly 0
  rw [flush, ← none]
  simp only [closeTo, stale_zero]

inductive Use
  | add (line : Line)
  | closeTo (level : Nat)
  | flush
  deriving DecidableEq, Repr

def apply (assembly : Assembly) : Use → Assembly
  | .add line => assembly.add line
  | .closeTo level => assembly.closeTo level
  | .flush => assembly.flush

/-- The number of frames closed, as a use reports it; adding a line reports nothing. -/
def report? (assembly : Assembly) : Use → Option Nat
  | .add _ => none
  | .closeTo level => some (assembly.stale level).length
  | .flush => some assembly.frames.length

def render (assembly : Assembly) : Text := Entry.render assembly.entries.toList

end Assembly

end IndentMarkup
