import IndentMarkup.Json.Basic

/-! The printed form of JSON values: one item or field to a line, two spaces to
a level, and empty arrays and objects closed at once. Of the characters in a
string only quotation marks, backslashes and those below the space are escaped. -/
namespace IndentMarkup.Json

def hexDigit (n : Nat) : Char := (Nat.toDigits 16 (n % 16)).head?.getD '0'

def escape (c : Char) : List Char :=
  if c = '"' then ['\\', '"']
  else if c = '\\' then ['\\', '\\']
  else if c = '\n' then ['\\', 'n']
  else if c = '\r' then ['\\', 'r']
  else if c = '\t' then ['\\', 't']
  else if c = '\x08' then ['\\', 'b']
  else if c = '\x0c' then ['\\', 'f']
  else if c.toNat < 0x20 then ['\\', 'u', '0', '0', hexDigit (c.toNat / 16), hexDigit c.toNat]
  else [c]

def quoted (s : String) : String := String.ofList ('"' :: (s.toList.flatMap escape ++ ['"']))

def newline (level : Nat) : String := String.ofList ('\n' :: List.replicate (2 * level) ' ')

mutual

def printAt (level : Nat) : Json → String
  | null => "null"
  | bool true => "true"
  | bool false => "false"
  | number spelling => spelling
  | string value => quoted value
  | array [] => "[]"
  | array (item :: items) =>
    "[" ++ newline (level + 1) ++ printAt (level + 1) item ++ printItems level items ++
      newline level ++ "]"
  | object [] => "\x7b\x7d"
  | object ((key, value) :: fields) =>
    "\x7b" ++ newline (level + 1) ++ quoted key ++ ": " ++ printAt (level + 1) value ++
      printFields level fields ++ newline level ++ "\x7d"

def printItems (level : Nat) : List Json → String
  | [] => ""
  | item :: items =>
    "," ++ newline (level + 1) ++ printAt (level + 1) item ++ printItems level items

def printFields (level : Nat) : List (String × Json) → String
  | [] => ""
  | (key, value) :: fields =>
    "," ++ newline (level + 1) ++ quoted key ++ ": " ++ printAt (level + 1) value ++
      printFields level fields

end

def print (value : Json) : String := value.printAt 0

end IndentMarkup.Json
