import ReplyCapture.Bytes.Basic

namespace ReplyCapture

/-- A place from which on every read of a source fails, and the words it fails with. -/
structure Failure where
  position : Nat
  text : String
deriving DecidableEq, Repr

/-- Bytes that arrive bit by bit. -/
structure Source where
  /-- What has not been read yet. -/
  pending : Bytes
  /-- How many bytes have been read. -/
  position : Nat := 0
  /-- The most that one read delivers. -/
  chunk : Option Nat := none
  failure : Option Failure := none
  /-- Positions at which one read is interrupted and has to be tried again. -/
  interrupts : List Nat := []
deriving DecidableEq, Repr

/-- What one read of a source gives. -/
inductive Arrival
  /-- Some bytes, or none at the end. -/
  | bytes (bytes : Bytes)
  | interrupted
  | failed (text : String)
deriving DecidableEq, Repr

/-- What several reads of a source give together. -/
structure Delivery where
  bytes : Bytes
  /-- The words of the failure that cut it short. -/
  failure : Option String
  source : Source
deriving DecidableEq, Repr

namespace Source

/-- All bytes at hand at once. -/
def ofBytes (bytes : Bytes) : Source :=
  { pending := bytes }

/-- The lesser of a count and the way to a stop that lies ahead. -/
def upTo (position count stop : Nat) : Nat :=
  if position < stop then min count (stop - position) else count

/-- How many of `want` bytes one read may deliver: no more than a chunk, and none beyond a failure
    or an interruption. -/
def reach (source : Source) (want : Nat) : Nat :=
  let whole := min want (source.chunk.getD want)
  let intact := match source.failure with
    | some failure => upTo source.position whole failure.position
    | none => whole
  source.interrupts.foldl (upTo source.position) intact

/-- The source after its first `count` bytes have been read. -/
def advance (source : Source) (count : Nat) : Source :=
  { source with pending := source.pending.drop count, position := source.position + count }

/-- One read of at most `want` bytes. -/
def read (source : Source) (want : Nat) : Arrival × Source :=
  match source.failure.filter (·.position = source.position) with
  | some failure => (.failed failure.text, source)
  | none =>
    if source.position ∈ source.interrupts then
      (.interrupted, { source with interrupts := source.interrupts.erase source.position })
    else
      let bytes := source.pending.take (source.reach want)
      (.bytes bytes, source.advance bytes.length)

/-- Reads until `want` bytes have come or no more do, at most `bound` times, on top of `taken`. -/
def collectOnto (taken : Bytes) : (bound want : Nat) → Source → Delivery
  | 0, _, source => ⟨taken.reverse, none, source⟩
  | _ + 1, 0, source => ⟨taken.reverse, none, source⟩
  | bound + 1, want, source =>
    match source.read want with
    | (.failed text, source) => ⟨taken.reverse, some text, source⟩
    | (.interrupted, source) => collectOnto taken bound want source
    | (.bytes [], source) => ⟨taken.reverse, none, source⟩
    | (.bytes bytes, source) => collectOnto (bytes.reverse ++ taken) bound (want - bytes.length) source

/-- Reads up to `want` bytes, trying interrupted reads again. A source from which nothing is wanted
    is left alone. Each read delivers a byte, is interrupted or is the last, which bounds them. -/
def collect (source : Source) (want : Nat) : Delivery :=
  collectOnto [] (want + source.interrupts.length) want source

end Source

end ReplyCapture
