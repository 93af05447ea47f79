import IndentMarkup.Text.Blank

/-! The visible part of a text: what is left when control characters and the
control sequences of terminals are taken out. Sequences are told apart only as
far as it takes to find their ends. -/
namespace IndentMarkup.Text

/-- What a character is read as part of. A device control string has a head of
parameters and intermediates, after which it is a string like others. -/
inductive Sequence
  | none
  | escape
  | escapeIntermediate
  | control
  | deviceEntry
  | deviceParameter
  | deviceIntermediate
  | string
  | systemCommand
  deriving DecidableEq, Repr

def isSpacing (c : Char) : Bool := c = '\t' || c = '\n' || c = '\x0c' || c = '\r'

def isAscii (c : Char) : Bool := c.toNat < 0x80

def isShown (c : Char) : Bool := isSpacing c || (0x20 ≤ c.toNat && c ≠ '\x7f')

/-- A string ends at the byte 9C, also where it is one of the bytes of a character. -/
def holdsTerminator (c : Char) : Bool := (String.utf8EncodeChar c).contains 0x9C

namespace Sequence

/-- The sequence that goes on after `c`. Control characters leave most as they
are, cancel and substitute end every one, and escape begins one anew. -/
def next (sequence : Sequence) (c : Char) : Sequence :=
  let n := c.toNat
  if n = 0x18 || n = 0x1A then none
  else if n = 0x1B then escape
  else match sequence with
    | none => none
    | escape =>
      if n < 0x20 || 0x7F ≤ n then escape
      else if n < 0x30 then escapeIntermediate
      else if c = '[' then control
      else if c = ']' then systemCommand
      else if c = 'P' then deviceEntry
      else if c = 'X' || c = '^' || c = '_' then string
      else none
    | escapeIntermediate => if n < 0x30 || 0x7F ≤ n then escapeIntermediate else none
    | control => if n < 0x40 || 0x7F ≤ n then control else none
    | deviceEntry =>
      if n < 0x20 || 0x7F ≤ n then deviceEntry
      else if n < 0x30 then deviceIntermediate
      else if n < 0x40 then deviceParameter
      else string
    | deviceParameter =>
      if n < 0x20 || 0x7F ≤ n then deviceParameter
      else if n < 0x30 then deviceIntermediate
      else if n < 0x3C then deviceParameter
      else string
    | deviceIntermediate => if n < 0x30 || 0x7F ≤ n then deviceIntermediate else string
    | string => if holdsTerminator c then none else string
    | systemCommand => if n = 0x07 then none else systemCommand

def shows (sequence : Sequence) (c : Char) : Bool :=
  match sequence with
  | none => isShown c
  | escape => isSpacing c
  | escapeIntermediate => isSpacing c
  | control => isSpacing c
  | _ => false

end Sequence

/-- A text read so far, with its visible part in reverse. Once a character has
been shown, all are up to the next that is not visible by itself; a sequence
that a spacing character interrupts is taken up again there, unless a character
beyond ASCII has come between. -/
structure Display where
  sequence : Sequence := .none
  showing : Bool := true
  shown : Text := []

def Display.read (display : Display) (c : Char) : Display :=
  if display.showing && isShown c then
    { display with
      sequence := if isAscii c then display.sequence else .none
      shown := c :: display.shown }
  else if display.sequence.shows c then
    { sequence := display.sequence.next c, showing := true, shown := c :: display.shown }
  else { display with sequence := display.sequence.next c, showing := false }

def visible (s : Text) : Text := (s.foldl Display.read {}).shown.reverse

end IndentMarkup.Text
