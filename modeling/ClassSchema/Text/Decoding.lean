import ClassSchema.Text.Hex

/-!
# From bytes to text

Files are read whole.  Three encodings are known.  In UTF-8 each character is
one to four bytes; the table of the Unicode standard says which second byte may
follow which first one, so that no character has two encodings and no surrogate
is encoded.  A file that breaks the rules is refused at the first byte that
starts no character, and the fault names the longest stretch that still began
like one.

After decoding, a carriage return followed by a line feed, and a carriage return
alone, both become a line feed.
-/

namespace ClassSchema.Text

/-- The known encodings. -/
inductive Encoding where
  | utf8
  | latin1
  | ascii
  deriving DecidableEq, Repr

/-- Why a stretch of bytes encodes no character. -/
inductive DecodingReason where
  /-- No character begins with this byte. -/
  | invalidStart
  /-- A later byte of the character is out of range. -/
  | invalidContinuation
  /-- The bytes end inside a character. -/
  | unexpectedEnd
  /-- A byte above 127 where only ASCII is allowed. -/
  | outOfRange
  deriving DecidableEq, Repr

/-- A stretch of bytes that encodes no character. -/
structure DecodingFault where
  /-- The encoding in use. -/
  encoding : Encoding
  /-- The first byte of the stretch. -/
  byte : Nat
  /-- The offset of that byte. -/
  position : Nat
  /-- Bytes in the stretch. -/
  width : Nat
  /-- What is wrong with it. -/
  reason : DecodingReason
  deriving DecidableEq, Repr

namespace Encoding

/-- The name of the encoding in messages. -/
def name : Encoding → String
  | utf8 => "utf-8"
  | latin1 => "latin-1"
  | ascii => "ascii"

end Encoding

namespace DecodingReason

/-- The wording of a reason. -/
def message : DecodingReason → String
  | invalidStart => "invalid start byte"
  | invalidContinuation => "invalid continuation byte"
  | unexpectedEnd => "unexpected end of data"
  | outOfRange => "ordinal not in range(128)"

end DecodingReason

namespace DecodingFault

/-- The wording of a fault: one byte is shown, several are counted off. -/
def message (fault : DecodingFault) : String :=
  let subject :=
    if fault.width = 1 then
      "byte 0x" ++ String.ofList (hexPadded 2 fault.byte) ++ " in position "
        ++ toString fault.position
    else
      "bytes in position " ++ toString fault.position ++ "-"
        ++ toString (fault.position + fault.width - 1)
  "'" ++ fault.encoding.name ++ "' codec can't decode " ++ subject ++ ": " ++ fault.reason.message

end DecodingFault

/-! ## One character of UTF-8 -/

/-- A byte that continues a character. -/
def isTail (byte : Nat) : Bool := 0x80 ≤ byte && byte ≤ 0xBF

/-- The second bytes that may follow a first byte of three or four. -/
def isSecond (first second : Nat) : Bool :=
  match first with
  | 0xE0 => 0xA0 ≤ second && second ≤ 0xBF
  | 0xED => 0x80 ≤ second && second ≤ 0x9F
  | 0xF0 => 0x90 ≤ second && second ≤ 0xBF
  | 0xF4 => 0x80 ≤ second && second ≤ 0x8F
  | _ => isTail second

/-- Bytes of a character that starts with `first`; zero if none does. -/
def utf8Width (first : Nat) : Nat :=
  if first ≤ 0x7F then 1
  else if 0xC2 ≤ first && first ≤ 0xDF then 2
  else if 0xE0 ≤ first && first ≤ 0xEF then 3
  else if 0xF0 ≤ first && first ≤ 0xF4 then 4
  else 0

/-- Whether the byte at `index` of a character that starts with `first` is allowed. -/
def continues (first index byte : Nat) : Bool :=
  if index = 1 then isSecond first byte else isTail byte

/-- The length of the longest prefix of `tail` that continues `first`, starting at `index`. -/
def goodTail (first : Nat) : Nat → List Nat → Nat
  | _, [] => 0
  | index, byte :: rest =>
      if continues first index byte then goodTail first (index + 1) rest + 1 else 0

/-- The code point of a first byte and its continuation bytes. -/
def utf8CodePoint (first : Nat) (tail : List Nat) : Nat :=
  let lead := match tail.length with
    | 0 => first
    | 1 => first - 0xC0
    | 2 => first - 0xE0
    | _ => first - 0xF0
  tail.foldl (fun value byte => value * 64 + (byte - 0x80)) lead

/-- The bytes at the front that are one character, or what is wrong with them. -/
def utf8Char (first : Nat) (rest : List Nat) : Except (DecodingReason × Nat) (Char × Nat) :=
  let width := utf8Width first
  if width = 0 then .error (.invalidStart, 1)
  else
    let wanted := rest.take (width - 1)
    let good := goodTail first 1 wanted
    if good = width - 1 then .ok (Char.ofNat (utf8CodePoint first wanted), good)
    else if good = wanted.length then .error (.unexpectedEnd, good + 1)
    else .error (.invalidContinuation, good + 1)

/-! ## Whole texts -/

/-- Decodes UTF-8; `position` is the offset of the first byte, `pending` counts the bytes that
belong to the character read last, and `done` holds the characters read, last one first. -/
def decodeUtf8From (position pending : Nat) (done : List Char) :
    List Nat → Except DecodingFault (List Char)
  | [] => .ok done.reverse
  | byte :: rest =>
      match pending with
      | pending + 1 => decodeUtf8From (position + 1) pending done rest
      | 0 =>
          match utf8Char byte rest with
          | .error (reason, width) => .error ⟨.utf8, byte, position, width, reason⟩
          | .ok (c, pending) => decodeUtf8From (position + 1) pending (c :: done) rest

/-- The first byte above 127, with its offset counted from `position`. -/
def firstAbove127 (position : Nat) : List Nat → Option (Nat × Nat)
  | [] => none
  | byte :: rest => if byte < 0x80 then firstAbove127 (position + 1) rest else some (byte, position)

/-- The text that a sequence of bytes encodes. -/
def decode (encoding : Encoding) (bytes : List Nat) : Except DecodingFault (List Char) :=
  match encoding with
  | .utf8 => decodeUtf8From 0 0 [] bytes
  | .latin1 => .ok (bytes.map Char.ofNat)
  | .ascii =>
      match firstAbove127 0 bytes with
      | some (byte, position) => .error ⟨.ascii, byte, position, 1, .outOfRange⟩
      | none => .ok (bytes.map Char.ofNat)

/-! ## Line ends -/

/-- Copies one character to the front of `done`; a carriage return becomes a line feed, and a
line feed right behind a carriage return is left out. -/
def newlineStep (state : Bool × List Char) (c : Char) : Bool × List Char :=
  if c = '\r' then (true, '\n' :: state.2)
  else if c = '\n' ∧ state.1 then (false, state.2)
  else (false, c :: state.2)

/-- Turns both a carriage return with its line feed and one that stands alone into a line feed. -/
def unifyNewlines (text : List Char) : List Char :=
  (text.foldl newlineStep (false, [])).2.reverse

/-- The text of a file with these bytes. -/
def readText (encoding : Encoding) (bytes : List Nat) : Except DecodingFault (List Char) :=
  (decode encoding bytes).map unifyNewlines

end ClassSchema.Text
