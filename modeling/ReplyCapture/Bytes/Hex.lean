import ReplyCapture.Bytes.Basic

namespace ReplyCapture.Hex

/-- The lower-case digit of a number below sixteen. -/
def digit (value : Nat) : Char :=
  Nat.digitChar (value % 16)

/-- The two digits of a byte, high half first. -/
def byteDigits (byte : UInt8) : List Char :=
  [digit (byte.toNat / 16), digit byte.toNat]

/-- The digits of all bytes, unseparated. -/
def ofBytes (bytes : Bytes) : String :=
  String.ofList (bytes.flatMap byteDigits)

/-- Bytes shown on one line of a dump. -/
def rowWidth : Nat := 16

/-- Cuts bytes into rows, at most `bound` of them. -/
def rowsWithin : (bound : Nat) → Bytes → List Bytes
  | 0, _ => []
  | _ + 1, [] => []
  | bound + 1, byte :: rest =>
    (byte :: rest).take rowWidth :: rowsWithin bound ((byte :: rest).drop rowWidth)

/-- The rows of a dump; only the last may be short. No row is empty, so the bytes' own number
    bounds them. -/
def rows (bytes : Bytes) : List Bytes :=
  rowsWithin bytes.length bytes

/-- An offset in at least four digits. -/
def offsetDigits (offset : Nat) : List Char :=
  let digits := Nat.toDigits 16 offset
  List.replicate (4 - digits.length) '0' ++ digits

/-- One line: the offset of its first byte, a bar, and each byte with a blank after it. -/
def line (offset : Nat) (row : Bytes) : List Char :=
  offsetDigits offset ++ [' ', '|', ' '] ++ row.flatMap fun byte => byteDigits byte ++ [' ']

/-- The lines of a dump whose first row starts at `offset`. -/
def linesFrom (offset : Nat) : List Bytes → List (List Char)
  | [] => []
  | row :: rest => line offset row :: linesFrom (offset + rowWidth) rest

/-- All bytes in rows of sixteen, with a line break between rows and none at the end. -/
def dump (bytes : Bytes) : String :=
  String.ofList (['\n'].intercalate (linesFrom 0 (rows bytes)))

end ReplyCapture.Hex
