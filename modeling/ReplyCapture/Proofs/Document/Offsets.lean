import ReplyCapture.Document.Structure
import ReplyCapture.Proofs.Document.Probe

namespace ReplyCapture

/-- A buffer in a machine whose numbers count all its bytes. -/
structure Memory where
  bytes : Bytes
  /-- The largest number of the machine. -/
  largest : Nat
  counted : bytes.length ≤ largest

namespace Memory

open Probe

def byteAt (memory : Memory) (index : Nat) : Probe UInt8 :=
  attempt (.byte index) memory.bytes[index]?

def slice (memory : Memory) (start stop : Nat) : Probe Bytes :=
  attempt (.slice start stop) <|
    if start ≤ stop ∧ stop ≤ memory.bytes.length then some ((memory.bytes.take stop).drop start) else none

def add (memory : Memory) (left right : Nat) : Probe Nat :=
  attempt (.sum left right) <| if left + right ≤ memory.largest then some (left + right) else none

def subtract (left right : Nat) : Probe Nat :=
  attempt (.difference left right) <| if right ≤ left then some (left - right) else none

/-- The offset behind `size` bytes, if the limit leaves room for them. The sum is looked at before it is used. -/
def spanAt (memory : Memory) (part : Part) (size offset limit : Nat) : Probe Nat :=
  within .span offset limit <|
    if offset + size ≤ memory.largest ∧ offset + size ≤ limit then return offset + size
    else refuse (.misfit (.overrun part size offset))

/-- The length in front of a part. -/
def lengthAt (memory : Memory) (part : Part) (offset limit : Nat) : Probe Nat := do
  note (.entered .length offset limit)
  let _ ← memory.spanAt part 4 offset limit
  let first ← memory.byteAt offset
  let second ← memory.add offset 1 >>= memory.byteAt
  let third ← memory.add offset 2 >>= memory.byteAt
  let fourth ← memory.add offset 3 >>= memory.byteAt
  let length := LittleEndian.signed (LittleEndian.decodeWord [first, second, third, fourth])
  if length < 0 then refuse (.misfit (.negativeLength part offset length))
  return length.toNat

/-- The offset behind a name and the zero that ends it. -/
def nameAt (memory : Memory) (offset limit : Nat) : Probe Nat :=
  within .name offset limit do
    let room ← memory.slice offset limit
    match room.findIdx? fun byte => byte = 0 with
    | some place => do
      let stop ← memory.add offset place
      memory.add stop 1
    | none => refuse (.misfit (.unendedName offset))

/-- The offset behind a length and the text that it counts. -/
def stringAt (memory : Memory) (offset limit : Nat) : Probe Nat :=
  within .string offset limit do
    let length ← memory.lengthAt .string offset limit
    if length < 1 then refuse (.misfit .emptyString)
    let text ← memory.add offset 4
    let stop ← memory.spanAt .string length text limit
    let last ← subtract stop 1 >>= memory.byteAt
    if last ≠ 0 then refuse (.misfit (.unendedString offset))
    return stop

def binaryAt (memory : Memory) (offset limit : Nat) : Probe Nat := do
  let length ← memory.lengthAt .binary offset limit
  let data ← memory.spanAt .binarySubtype 5 offset limit
  memory.spanAt .binary length data limit

/-- The offset behind code with scope, whose text and scope have the length in front of them for a limit. -/
def codeWithScopeAt (memory : Memory) (nested : (start limit : Nat) → Probe Nat) (offset limit : Nat) : Probe Nat := do
  let length ← memory.lengthAt .codeWithScope offset limit
  if length < Structure.leastCodeWithScope then refuse (.misfit (.shortCodeWithScope length))
  let stop ← memory.spanAt .codeWithScope length offset limit
  let text ← memory.add offset 4
  let scope ← memory.stringAt text stop
  let last ← nested scope stop
  if last ≠ stop then refuse (.misfit (.codeWithScopeEnd offset last stop))
  return stop

/-- The offset behind a value; `nested` looks at a document inside it. -/
def valueAt (memory : Memory) (nested : (start limit : Nat) → Probe Nat) (byte : UInt8) (offset limit : Nat) :
    Probe Nat :=
  within .value offset limit <|
    match Tag.ofByte? byte with
    | none => refuse (.unknownTag byte)
    | some .double | some .date | some .timestamp | some .int64 => memory.spanAt .long 8 offset limit
    | some .int32 => memory.spanAt .word 4 offset limit
    | some .objectId => memory.spanAt .objectId 12 offset limit
    | some .boolean => memory.spanAt .boolean 1 offset limit
    | some .null => return offset
    | some .string | some .code | some .symbol => memory.stringAt offset limit
    | some .document | some .array => nested offset limit
    | some .binary => memory.binaryAt offset limit
    | some .regex => do
      let options ← memory.nameAt offset limit
      memory.nameAt options limit
    | some .codeWithScope => memory.codeWithScopeAt nested offset limit

/-- The offset behind the zero that ends the fields from `offset` on. The loop looks at no place but its own: that it
    ends, and ends within the limit, is not asked. It is followed for `bound` rounds. -/
def fieldsAt (memory : Memory) (value : UInt8 → (offset limit : Nat) → Probe Nat) (limit : Nat) :
    (bound offset : Nat) → Probe Nat
  | 0, _ => unfinished
  | bound + 1, offset => do
    note (.tag offset limit)
    let byte ← memory.byteAt offset
    let name ← memory.add offset 1
    if byte = 0 then return name
    else do
      let field ← memory.nameAt name limit
      let stop ← value byte field limit
      note (.field offset stop)
      memory.fieldsAt value limit bound stop

/-- The offset behind a document that starts at `start` and lies `depth` levels below the outermost one. It is followed
    for `levels` levels, and for `bound` rounds on each of them. -/
def documentAt (memory : Memory) (bound : Nat) : (levels depth start limit : Nat) → Probe Nat
  | 0, _, _, _ => unfinished
  | levels + 1, depth, start, limit =>
    within (.document depth) start limit do
      if nestingLimit < depth then refuse (.misfit .tooDeep)
      let length ← memory.lengthAt .document start limit
      if length < Structure.leastDocument then refuse (.misfit (.shortDocument length))
      let stop ← memory.spanAt .document length start limit
      let bodyLimit ← subtract stop 1
      let last ← memory.byteAt bodyLimit
      if last ≠ 0 then refuse (.misfit (.unendedDocument start))
      let first ← memory.add start 4
      let fields ← memory.fieldsAt (memory.valueAt (memory.documentAt bound levels (depth + 1))) bodyLimit bound first
      if fields ≠ stop then refuse (.misfit (.documentEnd start fields stop))
      return stop

/-- The check of a whole buffer by offsets. -/
def checkAt (memory : Memory) (levels bound : Nat) : Probe Unit := do
  let stop ← memory.documentAt bound levels 0 0 memory.bytes.length
  if stop ≠ memory.bytes.length then
    let count ← subtract memory.bytes.length stop
    refuse (.misfit (.trailing count))

end Memory

end ReplyCapture
