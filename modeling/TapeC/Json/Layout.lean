import TapeC.Json.Token
import TapeC.Decimal.Layout

namespace TapeC.Json

/-- A character inside a string. -/
def escapeChar (c : Char) : List Char :=
  match c with
  | '"' => ['\\', '"']
  | '\\' => ['\\', '\\']
  | '\x08' => ['\\', 'b']
  | '\x0c' => ['\\', 'f']
  | '\n' => ['\\', 'n']
  | '\r' => ['\\', 'r']
  | '\t' => ['\\', 't']
  | c =>
    if c.toNat < 0x10 then ['\\', 'u', '0', '0', '0'] ++ Nat.toDigits 16 c.toNat
    else if c.toNat < 0x20 then ['\\', 'u', '0', '0'] ++ Nat.toDigits 16 c.toNat
    else [c]

/-- A token as it is written. A token that is no part of any JSON text is written as nothing. -/
def Token.spelling : Token → List Char
  | .braceOpen => ['\x7b']
  | .braceClose => ['\x7d']
  | .bracketOpen => ['[']
  | .bracketClose => [']']
  | .colon => [':']
  | .comma => [',']
  | .null => ['n', 'u', 'l', 'l']
  | .bool true => ['t', 'r', 'u', 'e']
  | .bool false => ['f', 'a', 'l', 's', 'e']
  | .number (.integer value) =>
    if value < 0 then '-' :: Nat.toDigits 10 value.natAbs else Nat.toDigits 10 value.natAbs
  | .number (.real value) => (value.render ⟨-5, 15⟩).toList
  | .number .tooLarge => []
  | .string text => ['"'] ++ text.toList.flatMap escapeChar ++ ['"']
  | .faultyString _ => []
  | .broken _ _ _ => []
  | .other => []

/-- A line break and the indentation of the next line. -/
def newline (depth : Nat) : List Char := '\n' :: List.replicate (2 * depth) ' '

/-- Lays out tokens at a depth of nesting. An empty list or object stays on one line. -/
def layout : Nat → List Token → List Char
  | _, [] => []
  | depth, .bracketOpen :: .bracketClose :: rest => '[' :: ']' :: layout depth rest
  | depth, .braceOpen :: .braceClose :: rest => '\x7b' :: '\x7d' :: layout depth rest
  | depth, token :: rest =>
    match token with
    | .bracketOpen | .braceOpen =>
      token.spelling ++ newline (depth + 1) ++ layout (depth + 1) rest
    | .bracketClose | .braceClose =>
      newline (depth - 1) ++ token.spelling ++ layout (depth - 1) rest
    | .comma => token.spelling ++ newline depth ++ layout depth rest
    | .colon => token.spelling ++ [' '] ++ layout depth rest
    | _ => token.spelling ++ layout depth rest

/-- The text of some tokens. -/
def render (tokens : List Token) : String := String.ofList (layout 0 tokens)

end TapeC.Json
