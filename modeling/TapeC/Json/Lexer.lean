import TapeC.Json.Token

namespace TapeC.Json

/-- What may stand between tokens. -/
def isSpace (c : Char) : Bool := c == ' ' || c == '\t' || c == '\n' || c == '\r'

def digit? (c : Char) : Option Nat := if c.isDigit then some (c.toNat - '0'.toNat) else none

def hexDigit? (c : Char) : Option Nat :=
  if c.isDigit then some (c.toNat - '0'.toNat)
  else if 'a' ≤ c ∧ c ≤ 'f' then some (c.toNat - 'a'.toNat + 10)
  else if 'A' ≤ c ∧ c ≤ 'F' then some (c.toNat - 'A'.toNat + 10)
  else none

/-- Where the lexer stands in a numeral. -/
inductive NumberPhase where
  | minus
  | zero
  | whole
  | point
  | fraction
  | mark
  | sign
  | exponent
deriving DecidableEq, Repr

/-- Whether a numeral may end in a phase. -/
def NumberPhase.complete : NumberPhase → Bool
  | .zero | .whole | .fraction | .exponent => true
  | .minus | .point | .mark | .sign => false

/-- What a character does to a numeral. -/
inductive NumberStep where
  | more (phase : NumberPhase) (n : Numeral)
  | ends
  | invalid

/-- A point or an exponent mark after digits, or the end of the numeral. -/
def afterDigits (pointAllowed : Bool) (n : Numeral) (c : Char) : NumberStep :=
  if c == '.' && pointAllowed then .more .point n
  else if c == 'e' || c == 'E' then .more .mark n
  else .ends

def NumberPhase.step (phase : NumberPhase) (n : Numeral) (c : Char) : NumberStep :=
  match phase, digit? c with
  | .minus, some 0 => .more .zero { n with whole := [0] }
  | .minus, some d => .more .whole { n with whole := [d] }
  | .minus, none => .invalid
  | .zero, some _ => .invalid
  | .zero, none => afterDigits true n c
  | .whole, some d => .more .whole { n with whole := d :: n.whole }
  | .whole, none => afterDigits true n c
  | .point, some d => .more .fraction { n with fraction := [d] }
  | .point, none => .invalid
  | .fraction, some d => .more .fraction { n with fraction := d :: n.fraction }
  | .fraction, none => afterDigits false n c
  | .mark, some d => .more .exponent { n with exponent := [d] }
  | .mark, none =>
    if c == '+' then .more .sign n
    else if c == '-' then .more .sign { n with smallExponent := true }
    else .invalid
  | .sign, some d => .more .exponent { n with exponent := [d] }
  | .sign, none => .invalid
  | .exponent, some d => .more .exponent { n with exponent := d :: n.exponent }
  | .exponent, none => .ends

/-- Where the lexer stands in a string. -/
inductive StringPhase where
  | plain
  | escape
  /-- After the mark of a hexadecimal escape: how many bytes were seen, and their value as long as
  they are digits. -/
  | hex (bytes : Nat) (value : Option Nat)
deriving DecidableEq, Repr

/-- A string in progress: its text so far, last character first, or what is wrong with it; a high
surrogate that awaits its other half; and the phase. -/
structure StringScan where
  text : Except Fault (List Char) := .ok []
  high : Option Nat := none
  phase : StringPhase := .plain

namespace StringScan

/-- Notes a fault of the text; the first one counts. -/
def note (s : StringScan) (fault : Fault) : StringScan :=
  match s.text with
  | .ok _ => { s with text := .error fault }
  | .error _ => s

def push (s : StringScan) (c : Char) : StringScan :=
  { s with text := s.text.map (c :: ·), phase := .plain }

/-- Gives up waiting for the other half of a pair of surrogates. -/
def dropHigh (s : StringScan) : StringScan :=
  match s.high with
  | some _ => { s.note .unfinishedPair with high := none }
  | none => s

/-- The token of a string that cannot be completed. -/
def broken (s : StringScan) (fault : Fault) : Token :=
  match s.text with
  | .ok _ => .broken .string fault fault
  | .error first => .broken .string first fault

/-- The token of a string that has been closed. -/
def close (s : StringScan) : Token :=
  match s.dropHigh.text with
  | .ok cs => .string (String.ofList cs.reverse)
  | .error fault => .faultyString fault

/-- Takes in the code unit of a hexadecimal escape. -/
def pushUnit (s : StringScan) (unit : Nat) : StringScan :=
  let s := { s with phase := .plain }
  let isLow := 0xdc00 ≤ unit && unit ≤ 0xdfff
  match s.high with
  | none =>
    if isLow then s.note .loneSurrogate
    else if 0xd800 ≤ unit && unit ≤ 0xdbff then { s with high := some unit }
    else s.push (Char.ofNat unit)
  | some high =>
    let s := { s with high := none }
    if isLow then s.push (Char.ofNat (0x10000 + (high - 0xd800) * 0x400 + (unit - 0xdc00)))
    else s.note .loneSurrogate

/-- The character of a one-letter escape. -/
def escaped? : Char → Option Char
  | '"' => some '"'
  | '\\' => some '\\'
  | '/' => some '/'
  | 'b' => some '\x08'
  | 'f' => some '\x0c'
  | 'n' => some '\n'
  | 'r' => some '\r'
  | 't' => some '\t'
  | _ => none

/-- What a character does to a string: it goes on, or a token is complete or broken. -/
def step (s : StringScan) (c : Char) : StringScan ⊕ Token :=
  match s.phase with
  | .plain =>
    if c == '"' then .inr s.close
    else if c == '\\' then .inl { s with phase := .escape }
    else if c.toNat < 0x20 then .inr (s.dropHigh.broken .controlCharacter)
    else .inl (s.dropHigh.push c)
  | .escape =>
    if c == 'u' then .inl { s with phase := .hex 0 (some 0) }
    else
      match escaped? c with
      | some e => .inl (s.dropHigh.push e)
      | none => .inr (s.dropHigh.broken .invalidEscape)
  | .hex bytes value =>
    let bytes := bytes + c.utf8Size
    let value := do return (← value) * 16 + (← hexDigit? c)
    if bytes < 4 then .inl { s with phase := .hex bytes value }
    else
      match value with
      | some unit => .inl (s.pushUnit unit)
      | none => .inr (s.broken .invalidEscape)

end StringScan

/-- What the lexer is in the middle of. -/
inductive LexState where
  | ground
  /-- A word of which a letter, and perhaps more, are still to come. -/
  | word (next : Char) (rest : List Char) (token : Token)
  | number (phase : NumberPhase) (n : Numeral)
  | string (s : StringScan)
  /-- After a broken token nothing more is read. -/
  | dead

/-- What a character begins: a token of its own, if any, and the state after it. -/
def LexState.start (c : Char) : List Token × LexState :=
  if isSpace c then ([], .ground)
  else
    match c with
    | '\x7b' => ([.braceOpen], .ground)
    | '\x7d' => ([.braceClose], .ground)
    | '[' => ([.bracketOpen], .ground)
    | ']' => ([.bracketClose], .ground)
    | ':' => ([.colon], .ground)
    | ',' => ([.comma], .ground)
    | '"' => ([], .string {})
    | '-' => ([], .number .minus { negative := true })
    | 'n' => ([], .word 'u' ['l', 'l'] .null)
    | 't' => ([], .word 'r' ['u', 'e'] (.bool true))
    | 'f' => ([], .word 'a' ['l', 's', 'e'] (.bool false))
    | c =>
      match digit? c with
      | some 0 => ([], .number .zero { whole := [0] })
      | some d => ([], .number .whole { whole := [d] })
      | none => ([.other], .dead)

/-- What a character does: the tokens it completes and the state after it. -/
def LexState.step : LexState → Char → List Token × LexState
  | .ground, c => start c
  | .word next rest token, c =>
    if c == next then
      match rest with
      | [] => ([token], .ground)
      | next :: rest => ([], .word next rest token)
    else ([.broken .word .expectedWord .expectedWord], .dead)
  | .number phase n, c =>
    match phase.step n c with
    | .more phase n => ([], .number phase n)
    | .ends =>
      let (tokens, state) := start c
      (.number n.toNumber :: tokens, state)
    | .invalid => ([.broken .number .invalidNumber .invalidNumber], .dead)
  | .string s, c =>
    match s.step c with
    | .inl s => ([], .string s)
    | .inr (.broken start whenRead whenSkipped) => ([.broken start whenRead whenSkipped], .dead)
    | .inr token => ([token], .ground)
  | .dead, _ => ([], .dead)

/-- The token that the end of the text completes or breaks, if any. -/
def LexState.finish : LexState → List Token
  | .ground => []
  | .word _ _ _ => [.broken .word .endInValue .endInValue]
  | .number phase n =>
    if phase.complete then [.number n.toNumber]
    else [.broken .number .endInValue .invalidNumber]
  | .string s => [s.broken .endInString]
  | .dead => []

/-- The tokens of a text from a state on, put behind tokens that were found before, last first. -/
def LexState.lex : LexState → List Token → List Char → List Token
  | state, found, [] => found.reverse ++ state.finish
  | state, found, c :: cs =>
    let (tokens, next) := state.step c
    next.lex (tokens.reverse ++ found) cs

/-- The tokens of a JSON text. -/
def tokens (text : String) : List Token := LexState.ground.lex [] text.toList

end TapeC.Json
