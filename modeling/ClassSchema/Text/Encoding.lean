/-!
# From text to bytes

What is written is encoded in UTF-8: a character takes one to four bytes, of
which the first tells the number and the others hold six bits each.
-/

namespace ClassSchema.Text

/-- A byte that holds the lowest six bits of a number. -/
def tailByte (bits : Nat) : Nat := 0x80 + bits % 64

/-- The bytes of a character. -/
def utf8Bytes (c : Char) : List Nat :=
  let point := c.toNat
  if point < 0x80 then [point]
  else if point < 0x800 then [0xC0 + point / 64, tailByte point]
  else if point < 0x10000 then
    [0xE0 + point / 64 / 64, tailByte (point / 64), tailByte point]
  else
    [0xF0 + point / 64 / 64 / 64, tailByte (point / 64 / 64), tailByte (point / 64),
      tailByte point]

/-- The bytes of a text. -/
def encode (text : List Char) : List Nat := text.flatMap utf8Bytes

end ClassSchema.Text
