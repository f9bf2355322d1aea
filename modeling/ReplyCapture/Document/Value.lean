import ReplyCapture.Bytes.LittleEndian
import ReplyCapture.Calendar.Instant
import ReplyCapture.Number.Binary64
import Std.Data.TreeSet.Lemmas

namespace ReplyCapture

/-- The twelve bytes that identify an object. -/
structure ObjectId where
  bytes : Bytes
  length_bytes : bytes.length = 12

/-- A position in a server's operation log. -/
structure Timestamp where
  time : Int32
  increment : Int32
deriving DecidableEq, Repr

/-- The halves of a 64-bit word, the time in the upper one. -/
def Timestamp.ofWord (word : UInt64) : Timestamp :=
  ⟨(UInt32.ofNat (word.toNat / UInt32.size)).toInt32, (UInt32.ofNat word.toNat).toInt32⟩

/-- A field's value. A document is the list of its fields in order, an array the list of its items. -/
inductive Value
  | double (number : Binary64)
  | string (text : String)
  | document (fields : List (String × Value))
  | array (items : List Value)
  /-- The subtype is kept as its byte. A subtype of the user's own that has one of the numbers 0 to 5 is written and
      read back as the named one of that number, and is no value of its own here. -/
  | binary (subtype : UInt8) (data : Bytes)
  | objectId (id : ObjectId)
  | boolean (flag : Bool)
  | date (instant : Instant)
  | null
  | regex (pattern options : String)
  | code (source : String)
  | codeWithScope (source : String) (scope : List (String × Value))
  | int32 (number : Int32)
  | timestamp (stamp : Timestamp)
  | int64 (number : Int64)
  | symbol (name : String)

instance : Inhabited Value := ⟨.null⟩

/-- Fields in order. Every operation here keeps keys distinct where they were. -/
abbrev Document := List (String × Value)

namespace Document

/-- The value of a key. -/
def get? (document : Document) (key : String) : Option Value :=
  document.lookup key

/-- Appends a field; an earlier field of that key goes. -/
def insert (document : Document) (key : String) (value : Value) : Document :=
  document.filter (fun field => field.1 != key) ++ [(key, value)]

/-- A field in front of those kept so far and the set of their keys, unless its key is among them. -/
def keepField (field : String × Value) (kept : Std.TreeSet String × Document) :
    Std.TreeSet String × Document :=
  if kept.1.contains field.1 then kept else (kept.1.insert field.1, field :: kept.2)

/-- The document that inserting each field in order gives: of a repeated key the last field stays,
    where it stands. -/
def ofFields (fields : List (String × Value)) : Document :=
  (fields.foldr keepField (∅, [])).2

@[simp]
theorem ofFields_nil : ofFields [] = [] := rfl

/-- The set holds the keys of the kept fields and no others. -/
theorem contains_keepField (fields : List (String × Value)) (key : String) :
    (fields.foldr keepField (∅, [])).1.contains key =
      (ofFields fields).any (fun field => field.1 == key) := by
  unfold ofFields
  induction fields with
  | nil => simp
  | cons field rest ih =>
    rw [List.foldr_cons, keepField]
    split
    · exact ih
    · rw [Std.TreeSet.contains_insert, List.any_cons, ih]
      congr 1
      rw [Bool.eq_iff_iff, beq_iff_eq, beq_iff_eq, Std.LawfulEqOrd.compare_eq_iff_eq]

/-- A field stays if no later one has its key. -/
theorem ofFields_cons (field : String × Value) (rest : List (String × Value)) :
    ofFields (field :: rest) =
      if (ofFields rest).any (fun later => later.1 == field.1) then ofFields rest
      else field :: ofFields rest := by
  have hkeys := contains_keepField rest field.1
  unfold ofFields at hkeys ⊢
  rw [List.foldr_cons, keepField, hkeys]
  split <;> rfl

end Document

end ReplyCapture
