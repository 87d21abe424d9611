import TapeC.Json.Token

namespace TapeC.Json

/-- A list or object that is open. -/
inductive Frame where
  | list
  | object
deriving DecidableEq, Repr

/-- What comes next in a value that is being skipped. -/
inductive Expect where
  /-- A value. -/
  | value
  /-- The first item of the innermost frame, or its end. -/
  | first
  /-- A key of the innermost object. -/
  | key
  | colon
  /-- A comma or the end of the innermost frame. -/
  | next
deriving DecidableEq, Repr

/-- What a token does to a skip: it goes on, or the value is complete. -/
inductive SkipStep where
  | more (expect : Expect) (frames : List Frame)
  | done

/-- The step after a complete value. -/
def SkipStep.afterValue : List Frame → SkipStep
  | [] => .done
  | frames => .more .next frames

/-- A token where a value is expected. -/
def skipValueToken (frames : List Frame) : Token → Except Fault SkipStep
  | .null | .bool _ | .number _ | .string _ | .faultyString _ => .ok (.afterValue frames)
  | .bracketOpen => .ok (.more .first (.list :: frames))
  | .braceOpen => .ok (.more .first (.object :: frames))
  | .broken _ _ whenSkipped => .error whenSkipped
  | _ => .error .expectedValue

/-- A token where a key is expected. -/
def skipKeyToken (frames : List Frame) : Token → Except Fault SkipStep
  | .string _ | .faultyString _ => .ok (.more .colon frames)
  | .broken .string _ whenSkipped => .error whenSkipped
  | _ => .error .keyNotString

def Expect.step (frames : List Frame) : Expect → Token → Except Fault SkipStep
  | .value, token => skipValueToken frames token
  | .key, token => skipKeyToken frames token
  | .colon, .colon => .ok (.more .value frames)
  | .colon, _ => .error .expectedColon
  | .first, token =>
    match frames, token with
    | .list :: outer, .bracketClose => .ok (.afterValue outer)
    | .object :: outer, .braceClose => .ok (.afterValue outer)
    | .object :: _, token => skipKeyToken frames token
    | _, token => skipValueToken frames token
  | .next, token =>
    match frames, token with
    | .list :: outer, .bracketClose => .ok (.afterValue outer)
    | .object :: outer, .braceClose => .ok (.afterValue outer)
    | .object :: _, .comma => .ok (.more .key frames)
    | .object :: _, _ => .error .expectedObjectEnd
    | _, .comma => .ok (.more .value frames)
    | _, _ => .error .expectedListEnd

/-- The fault of a text that ends. -/
def Expect.atEnd (frames : List Frame) : Expect → Fault
  | .value => .endInValue
  | .key | .colon => .endInObject
  | .first | .next =>
    match frames with
    | .object :: _ => .endInObject
    | _ => .endInList

/-- Skips tokens to the end of a value. -/
def skipFrom : Expect → List Frame → List Token → Except Fault (List Token)
  | expect, frames, [] => .error (expect.atEnd frames)
  | expect, frames, token :: rest =>
    match expect.step frames token with
    | .error fault => .error fault
    | .ok .done => .ok rest
    | .ok (.more expect frames) => skipFrom expect frames rest

/-- Skips one value. -/
def skip (tokens : List Token) : Except Fault (List Token) := skipFrom .value [] tokens

end TapeC.Json
