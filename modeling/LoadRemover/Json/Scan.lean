import LoadRemover.Json.Number

/-!
# Scanning JSON text

A scanner for a JSON text of which only the kind of the outermost value matters. It takes the text byte by byte and
keeps the open brackets on a stack, so any depth is fine. What an object contains is skipped, but the names of its own
members must be proper text. An array is accepted if it is empty.
-/

namespace LoadRemover.Json

/-- Why a text is not accepted. -/
inductive Fault where
  | truncated
  | malformed
  | mistyped
deriving DecidableEq

def isBlank (b : UInt8) : Bool := b = 0x20 || b = 0x0A || b = 0x09 || b = 0x0D

def hexValue? (b : UInt8) : Option Nat :=
  if isDigit b then some (b.toNat - 0x30)
  else if 0x61 ≤ b && b ≤ 0x66 then some (b.toNat - 0x57)
  else if 0x41 ≤ b && b ≤ 0x46 then some (b.toNat - 0x37)
  else none

/-- An open bracket. -/
inductive Frame where
  | array | object
deriving DecidableEq

/-- What a text in quotes is. -/
inductive Role where
  | key | value
deriving DecidableEq

/-- How far a text in quotes was read. -/
inductive StringState where
  | plain
  | escape
  /-- Within the four digits of an escape; `low` says that it has to be the second half of a surrogate pair. -/
  | hex (digits : Bytes) (low : Bool)
  /-- After the first half of a surrogate pair. -/
  | high
  /-- After the backslash that follows the first half of a surrogate pair. -/
  | highEscape
deriving DecidableEq

/-- How far the text was read; `frames` are the open brackets, innermost first. -/
inductive Mode where
  | start
  /-- After the bracket of an outermost array. -/
  | emptyArray
  | finished
  /-- After an opening brace. -/
  | keyOrClose (frames : List Frame)
  /-- After a comma in an object. -/
  | key (frames : List Frame)
  | colon (frames : List Frame)
  | value (frames : List Frame)
  /-- After an opening bracket. -/
  | valueOrClose (frames : List Frame)
  | afterValue (frames : List Frame)
  | string (state : StringState) (role : Role) (frames : List Frame)
  | literal (rest : Bytes) (frames : List Frame)
  /-- Within a number; `text` is what was read of it, last byte first. -/
  | number (state : NumberState) (text : Bytes) (frames : List Frame)

/-- After a complete value. Outside all brackets the value is of another kind than wanted. -/
def complete : List Frame → Except Fault Mode
  | [] => .error .mistyped
  | frames => .ok (.afterValue frames)

def close : List Frame → Except Fault Mode
  | [] | [_] => .ok .finished
  | _ :: frames => .ok (.afterValue frames)

def beginValue (frames : List Frame) (b : UInt8) : Except Fault Mode :=
  if b = 0x22 then .ok (.string .plain .value frames)
  else if b = 0x7B then .ok (.keyOrClose (.object :: frames))
  else if b = 0x5B then .ok (.valueOrClose (.array :: frames))
  else if b = 0x6E then .ok (.literal [0x75, 0x6C, 0x6C] frames)
  else if b = 0x74 then .ok (.literal [0x72, 0x75, 0x65] frames)
  else if b = 0x66 then .ok (.literal [0x61, 0x6C, 0x73, 0x65] frames)
  else
    match NumberState.first? b with
    | some state => .ok (.number state [b] frames)
    | none => .error .malformed

def afterValue (frames : List Frame) (b : UInt8) : Except Fault Mode :=
  match frames with
  | .array :: _ =>
    if b = 0x2C then .ok (.value frames) else if b = 0x5D then close frames else .error .malformed
  | .object :: _ =>
    if b = 0x2C then .ok (.key frames) else if b = 0x7D then close frames else .error .malformed
  | [] => .error .malformed

/-- Whether the escapes of a text in quotes have to denote characters: so in the names of the outermost object's
members and in an outermost text, not in what is skipped. -/
def mustBeText : Role → List Frame → Bool
  | .key, [_] => true
  | .value, [] => true
  | _, _ => false

def endEscape (mustBeText low : Bool) (n : Nat) : Except Fault StringState :=
  let isHigh := 0xD800 ≤ n && n < 0xDC00
  let isLow := 0xDC00 ≤ n && n < 0xE000
  if !mustBeText then .ok .plain
  else if low then if isLow then .ok .plain else .error .malformed
  else if isLow then .error .malformed
  else if isHigh then .ok .high
  else .ok .plain

/-- A byte within a text in quotes; `none` is the end of the text. -/
def stringStep (mustBeText : Bool) (state : StringState) (b : UInt8) : Except Fault (Option StringState) :=
  match state with
  | .plain =>
    if b = 0x22 then .ok none
    else if b = 0x5C then .ok (some .escape)
    else if b < 0x20 then .error .malformed
    else .ok (some .plain)
  | .escape =>
    if b = 0x75 then .ok (some (.hex [] false))
    else if b ∈ [0x22, 0x5C, 0x2F, 0x62, 0x66, 0x6E, 0x72, 0x74] then .ok (some .plain)
    else .error .malformed
  | .hex digits low =>
    let digits := digits ++ [b]
    if digits.length < 4 then .ok (some (.hex digits low))
    else
      match digits.mapM hexValue? with
      | some values => (endEscape mustBeText low (values.foldl (16 * · + ·) 0)).map some
      | none => .error .malformed
  | .high => if b = 0x5C then .ok (some .highEscape) else .error .malformed
  | .highEscape => if b = 0x75 then .ok (some (.hex [] true)) else .error .malformed

def step (mode : Mode) (b : UInt8) : Except Fault Mode :=
  match mode with
  | .string state role frames => do
    match ← stringStep (mustBeText role frames) state b with
    | some state => return .string state role frames
    | none =>
      match role with
      | .key => return .colon frames
      | .value => complete frames
  | .literal rest frames =>
    match rest with
    | [] => complete frames
    | [c] => if b = c then complete frames else .error .malformed
    | c :: rest => if b = c then .ok (.literal rest frames) else .error .malformed
  | .number state text frames =>
    match state.next? b with
    | some state => .ok (.number state (b :: text) frames)
    | none =>
      if !state.isComplete || (state = .zero && isDigit b) then .error .malformed
      else if frames.isEmpty then .error (if isOutOfRange text.reverse then .malformed else .mistyped)
      else if isBlank b then .ok (.afterValue frames)
      else afterValue frames b
  | .start =>
    if isBlank b then .ok .start
    else if b = 0x5B then .ok .emptyArray
    else beginValue [] b
  | .emptyArray => if isBlank b then .ok .emptyArray else if b = 0x5D then .ok .finished else .error .malformed
  | .finished => if isBlank b then .ok .finished else .error .malformed
  | .keyOrClose frames =>
    if isBlank b then .ok mode
    else if b = 0x22 then .ok (.string .plain .key frames)
    else if b = 0x7D then close frames
    else .error .malformed
  | .key frames =>
    if isBlank b then .ok mode else if b = 0x22 then .ok (.string .plain .key frames) else .error .malformed
  | .colon frames => if isBlank b then .ok mode else if b = 0x3A then .ok (.value frames) else .error .malformed
  | .value frames => if isBlank b then .ok mode else beginValue frames b
  | .valueOrClose frames =>
    if isBlank b then .ok mode else if b = 0x5D then close frames else beginValue frames b
  | .afterValue frames => if isBlank b then .ok mode else afterValue frames b

def finish : Mode → Except Fault Unit
  | .finished => .ok ()
  | .number state text frames =>
    if frames.isEmpty then
      if !state.isComplete then .error .truncated
      else .error (if isOutOfRange text.reverse then .malformed else .mistyped)
    else .error (if state.isComplete then .truncated else .malformed)
  | _ => .error .truncated

def scan (text : Bytes) : Except Fault Unit := do
  finish (← text.foldlM step .start)

end LoadRemover.Json
