/-!
# Decoding UTF-8

Bytes as characters, read in blocks. A byte sequence that is no character is described by its
bytes, its place in the block that is being decoded, and the reason. Line ends of all kinds become
line feeds.
-/
namespace Reckoner.Text.Utf8

inductive Fault where
  | invalidStart
  /-- The next byte does not continue the `size` bytes before it. -/
  | invalidContinuation (size : Nat)
  | unexpectedEnd
deriving DecidableEq, Repr

def isContinuation (b : Nat) : Bool := 0x80 ≤ b && b < 0xc0

/-- Whether `b` may follow the first byte of a longer sequence. -/
def mayFollow (first b : Nat) : Bool :=
  isContinuation b && (first ≠ 0xe0 || 0xa0 ≤ b) && (first ≠ 0xed || b < 0xa0) &&
    (first ≠ 0xf0 || 0x90 ≤ b) && (first ≠ 0xf4 || b < 0x90)

def sequenceLength? (first : Nat) : Option Nat :=
  if first < 0x80 then some 1
  else if 0xc2 ≤ first && first < 0xe0 then some 2
  else if 0xe0 ≤ first && first < 0xf0 then some 3
  else if 0xf0 ≤ first && first < 0xf5 then some 4
  else none

/-- The first character and the number of its bytes. -/
def character : List Nat → Except Fault (Char × Nat)
  | [] => .error .unexpectedEnd
  | first :: rest => match sequenceLength? first with
    | none => .error .invalidStart
    | some 1 => .ok (Char.ofNat first, 1)
    | some n => match n, rest with
      | _, [] => .error .unexpectedEnd
      | 2, b :: _ =>
        if isContinuation b then .ok (Char.ofNat ((first - 0xc0) * 64 + (b - 0x80)), 2)
        else .error (.invalidContinuation 1)
      | 3, [b] => .error (if mayFollow first b then .unexpectedEnd else .invalidContinuation 1)
      | 3, b :: c :: _ =>
        if !mayFollow first b then .error (.invalidContinuation 1)
        else if !isContinuation c then .error (.invalidContinuation 2)
        else .ok (Char.ofNat (((first - 0xe0) * 64 + (b - 0x80)) * 64 + (c - 0x80)), 3)
      | _, [b] => .error (if mayFollow first b then .unexpectedEnd else .invalidContinuation 1)
      | _, [b, c] => .error (if !mayFollow first b then .invalidContinuation 1
          else if isContinuation c then .unexpectedEnd else .invalidContinuation 2)
      | _, b :: c :: d :: _ =>
        if !mayFollow first b then .error (.invalidContinuation 1)
        else if !isContinuation c then .error (.invalidContinuation 2)
        else if !isContinuation d then .error (.invalidContinuation 3)
        else .ok (Char.ofNat
          ((((first - 0xf0) * 64 + (b - 0x80)) * 64 + (c - 0x80)) * 64 + (d - 0x80)), 4)

def describe (position : Nat) (bytes : List Nat) (reason : String) : String :=
  match bytes with
  | [b] =>
    let digits := String.ofList [Nat.digitChar (b / 16), Nat.digitChar (b % 16)]
    s!"'utf-8' codec can't decode byte 0x{digits} in position {position}: {reason}"
  | _ =>
    let last := position + bytes.length - 1
    s!"'utf-8' codec can't decode bytes in position {position}-{last}: {reason}"

def message (position : Nat) (bytes : List Nat) : Fault → String
  | .invalidStart => describe position (bytes.take 1) "invalid start byte"
  | .invalidContinuation n => describe position (bytes.take n) "invalid continuation byte"
  | .unexpectedEnd => describe position bytes "unexpected end of data"

/-- The characters of a block, the bytes of an incomplete one at its end, or what is wrong. -/
def block : Nat → Nat → List Nat → Except String (List Char × List Nat)
  | 0, _, bytes => .ok ([], bytes)
  | _, _, [] => .ok ([], [])
  | fuel + 1, position, bytes => match character bytes with
    | .ok (c, n) => match block fuel (position + n) (bytes.drop n) with
      | .ok (cs, rest) => .ok (c :: cs, rest)
      | .error e => .error e
    | .error .unexpectedEnd => .ok ([], bytes)
    | .error fault => .error (message position bytes fault)

def blockSize : Nat := 8192

/-- Decodes block by block; incomplete bytes at the end of a block count for the next one. -/
def blocks : Nat → List Nat → List Nat → Except String (List Char)
  | 0, _, _ => .ok []
  | fuel + 1, pending, bytes =>
    if bytes.isEmpty then
      if pending.isEmpty then .ok [] else .error (message 0 pending .unexpectedEnd)
    else
      let start := pending ++ bytes.take blockSize
      match block start.length 0 start with
      | .error e => .error e
      | .ok (cs, rest) => (blocks fuel rest (bytes.drop blockSize)).map (cs ++ ·)

def lineFeeds : List Char → List Char
  | '\r' :: '\n' :: cs => '\n' :: lineFeeds cs
  | '\r' :: cs => '\n' :: lineFeeds cs
  | c :: cs => c :: lineFeeds cs
  | [] => []

/-- The text of a file that is read block by block, with line feeds as line ends. -/
def decode (bytes : ByteArray) : Except String String :=
  let bytes := bytes.toList.map UInt8.toNat
  (blocks (bytes.length / blockSize + 2) [] bytes).map fun cs => String.ofList (lineFeeds cs)

/-- The text of a file that is read at once, with line feeds as line ends. -/
def decodeWhole (bytes : ByteArray) : Except String String :=
  let bytes := bytes.toList.map UInt8.toNat
  match block bytes.length 0 bytes with
  | .error e => .error e
  | .ok (cs, []) => .ok (String.ofList (lineFeeds cs))
  | .ok (_, rest) => .error (message (bytes.length - rest.length) rest .unexpectedEnd)

end Reckoner.Text.Utf8
