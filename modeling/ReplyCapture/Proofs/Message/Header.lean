import Mathlib.Algebra.Group.Nat.Defs
import ReplyCapture.Proofs.Source.Stepwise
import ReplyCapture.Reply.Decode

namespace ReplyCapture

namespace OpCode

/-- The numbers of the operations. -/
def words : List UInt32 :=
  [1, 2001, 2002, 2004, 2005, 2006, 2007, 2010, 2011, 2013]

/-- The listed words are those of the operations. -/
theorem mem_words_iff {word : UInt32} : word ∈ words ↔ ∃ code : OpCode, word = code.toWord := by
  constructor
  · intro hword
    have hknown : (words.all fun word => (ofWord? word).isSome) = true := rfl
    obtain ⟨code, hcode⟩ := Option.isSome_iff_exists.mp (List.all_eq_true.mp hknown word hword)
    exact ⟨code, ofWord?_eq_some_iff.mp hcode⟩
  · intro hcode
    obtain ⟨code, rfl⟩ := hcode
    cases code <;> decide

theorem ofWord?_eq_none_iff {word : UInt32} : ofWord? word = none ↔ word ∉ words := by
  simp only [mem_words_iff, ← ofWord?_eq_some_iff, Option.eq_none_iff_forall_ne_some, not_exists, ne_eq]

end OpCode

namespace Header

open Reading

theorem parseWord_eq_ok_iff {buffer rest : Bytes} {word : UInt32} :
    parseWord buffer = .ok (word, rest) ↔ buffer = LittleEndian.encodeWord word ++ rest := by
  rw [← LittleEndian.word?_eq_some_iff, parseWord]
  cases LittleEndian.word? buffer <;> simp

theorem parseOpCode_eq_ok_iff {word : UInt32} {code : OpCode} : parseOpCode word = .ok code ↔ word = code.toWord := by
  rw [← OpCode.ofWord?_eq_some_iff, parseOpCode]
  cases OpCode.ofWord? word <;> simp

/-- A header is read where its four words stand, and nowhere else. -/
theorem parse_eq_ok_iff {buffer rest : Bytes} {header : Header} :
    parse buffer = .ok (header, rest) ↔ buffer = header.encode ++ rest := by
  simp only [parse, bind_eq_ok_iff, Prod.exists, parseWord_eq_ok_iff, parseOpCode_eq_ok_iff, pure_eq_ok_iff,
    Prod.mk.injEq]
  constructor
  · intro hwords
    obtain ⟨_, _, rfl, _, _, rfl, _, _, rfl, _, _, rfl, _, rfl, rfl, rfl⟩ := hwords
    simp only [encode, List.append_assoc]
  · intro hbuffer
    obtain rfl := hbuffer
    refine ⟨header.messageLength, _, ?_, header.requestId, _, rfl, header.responseTo, _, rfl, header.opCode.toWord,
      rest, rfl, header.opCode, rfl, rfl, rfl⟩
    simp only [encode, List.append_assoc]

/-- Four words as they stand in a header, the last of which need not name an operation. -/
def words (messageLength requestId responseTo opWord : UInt32) : Bytes :=
  LittleEndian.encodeWord messageLength ++ LittleEndian.encodeWord requestId ++ LittleEndian.encodeWord responseTo ++
    LittleEndian.encodeWord opWord

@[simp]
theorem length_words (messageLength requestId responseTo opWord : UInt32) :
    (words messageLength requestId responseTo opWord).length = size := by
  simp [words, size]

/-- Four words are a header if the last one names an operation, and are refused for that word alone if it does not. -/
theorem parse_words (messageLength requestId responseTo opWord : UInt32) (rest : Bytes) :
    parse (words messageLength requestId responseTo opWord ++ rest) =
      (parseOpCode opWord).map fun code => (⟨messageLength, requestId, responseTo, code⟩, rest) := by
  have hword (word : UInt32) (tail : Bytes) : parseWord (LittleEndian.encodeWord word ++ tail) = .ok (word, tail) :=
    parseWord_eq_ok_iff.mpr rfl
  simp only [parse, words, List.append_assoc, hword, bind, Except.bind]
  cases parseOpCode opWord <;> rfl

/-- Where nothing comes of what is behind a word, nothing comes of the word. -/
theorem bind_parseWord_of_short {α : Type} {buffer : Bytes} {next : UInt32 × Bytes → Except MessageError α}
    (hnext : ∀ word rest, rest.length + 4 = buffer.length → next (word, rest) = .error .shortBuffer) :
    parseWord buffer >>= next = .error .shortBuffer := by
  cases hword : LittleEndian.word? buffer with
  | none =>
    rw [parseWord, hword]
    rfl
  | some found =>
    have hlength := congrArg List.length (LittleEndian.word?_eq_some_iff.mp hword)
    rw [List.length_append, LittleEndian.length_encodeWord] at hlength
    rw [parseWord, hword]
    exact hnext found.1 found.2 (by omega)

/-- Fewer bytes than a header's are none. -/
theorem parse_of_short {buffer : Bytes} (hshort : buffer.length < size) : parse buffer = .error .shortBuffer := by
  rw [size] at hshort
  refine bind_parseWord_of_short fun messageLength behind hbehind => ?_
  refine bind_parseWord_of_short fun requestId afterId hafterId => ?_
  refine bind_parseWord_of_short fun responseTo afterResponse hafterResponse => ?_
  exact bind_parseWord_of_short fun opWord rest hrest => by omega

/-- The word that starts at a place of a buffer. -/
def wordAt (buffer : Bytes) (place : Nat) : UInt32 :=
  LittleEndian.decodeWord ((buffer.drop place).take 4)

/-- As many bytes as a header's are the words at its four places, and what is behind them. -/
theorem words_append_drop {buffer : Bytes} (hlength : size ≤ buffer.length) :
    words (wordAt buffer 0) (wordAt buffer 4) (wordAt buffer 8) (wordAt buffer 12) ++ buffer.drop size = buffer := by
  rw [size] at hlength ⊢
  have hword (place : Nat) (hplace : place + 4 ≤ buffer.length) :
      LittleEndian.encodeWord (wordAt buffer place) ++ buffer.drop (place + 4) = buffer.drop place := by
    have htaken : ((buffer.drop place).take 4).length = 4 := by
      rw [List.length_take, List.length_drop]
      omega
    rw [wordAt, LittleEndian.encodeWord_decodeWord htaken, ← List.drop_drop, List.take_append_drop]
  have hfirst := hword 0 (by omega)
  have hsecond := hword 4 (by omega)
  have hthird := hword 8 (by omega)
  have hfourth := hword 12 (by omega)
  rw [words, List.append_assoc, List.append_assoc, List.append_assoc, hfourth, hthird, hsecond, hfirst, List.drop_zero]

/-- As many bytes as a header's are four words. -/
theorem exists_eq_words {buffer : Bytes} (hlength : size ≤ buffer.length) :
    ∃ messageLength requestId responseTo opWord rest,
      buffer = words messageLength requestId responseTo opWord ++ rest :=
  ⟨_, _, _, _, _, (words_append_drop hlength).symm⟩

/-- The lengths that are accepted, and the body they leave. -/
theorem bodySize_eq_ok_iff {header : Header} {limits : Limits} {bodyLength : Nat} :
    header.bodySize limits = .ok bodyLength ↔
      header.messageLength.toNat = 16 + bodyLength ∧ header.messageLength.toNat ≤ limits.messageSize ∧
        header.messageLength.toNat < 2 ^ 31 := by
  have hsigned := LittleEndian.signed_eq header.messageLength
  have hword := header.messageLength.toNat_lt
  unfold bodySize size
  simp only
  split
  · next hbounds =>
    simp only [reduceCtorEq, false_iff]
    split at hsigned <;> omega
  · next hbounds =>
    simp only [Except.ok.injEq]
    split at hsigned <;> omega

/-- A length that is not accepted is reported as it reads with a sign. -/
theorem bodySize_eq_error {header : Header} {limits : Limits} {error : MessageError}
    (herror : header.bodySize limits = .error error) :
    error = .lengthOutOfBounds (LittleEndian.signed header.messageLength) := by
  unfold bodySize at herror
  simp only at herror
  split at herror
  · exact (Except.error.inj herror).symm
  · cases herror

/-- Where a source has fewer bytes than a header's, these are taken and missed. -/
theorem run_read_of_short {source : Source} (hshort : source.ready.length < size) :
    read.run source = ⟨.error (source.shortage size), source.spent, []⟩ := by
  rw [read, run_bind_of_error (run_exactly_of_lt hshort)]

/-- Four words at the front of a source are taken, whether they are a header or not, and nothing behind them. -/
theorem run_read_of_words {messageLength requestId responseTo opWord : UInt32} {source : Source}
    (hready : words messageLength requestId responseTo opWord <+: source.ready) :
    read.run source =
      ⟨(parseOpCode opWord).map fun code => ⟨messageLength, requestId, responseTo, code⟩, source.past size, []⟩ := by
  have hlength := hready.length_le
  rw [length_words] at hlength
  have hfront := List.prefix_iff_eq_take.mp hready
  rw [length_words] at hfront
  have hread := run_exactly_of_le hlength
  have hparse := parse_words messageLength requestId responseTo opWord []
  rw [List.append_nil] at hparse
  rw [← hfront] at hread
  rw [read, run_bind_of_ok hread, hparse]
  cases parseOpCode opWord <;> rfl

/-- A header at the front of a source is read, and nothing behind it. -/
theorem run_read_of_encode {header : Header} {source : Source} (hready : header.encode <+: source.ready) :
    read.run source = ⟨.ok header, source.past size, []⟩ := by
  rw [run_read_of_words hready, parseOpCode_eq_ok_iff.mpr rfl]
  rfl

/-- A header is taken whole and then looked at. -/
theorem stepwise_read : Stepwise (fun _ => True) read := by
  apply (Stepwise.exactly size).bind
  intro bytes
  apply (stepwise_ofExcept fun _ _ => trivial).bind
  intro found
  exact stepwise_pure found.1

/-- The reader of headers takes exactly the bytes of one. -/
theorem accepts_read : Accepts read fun bytes header => bytes = header.encode := by
  refine ((accepts_exactly size).bind fun bytes => (accepts_ofExcept (parse bytes)).bind fun found =>
    accepts_pure found.1).congr fun bytes header => ?_
  constructor
  · intro haccepted
    obtain ⟨front, _, _, rfl, ⟨rfl, hfront⟩, _, _, found, rfl, ⟨rfl, hparse⟩, rfl, rfl⟩ := haccepted
    have hbytes := parse_eq_ok_iff.mp hparse
    have hlength := congrArg List.length hbytes
    rw [List.length_append, length_encode, hfront] at hlength
    have hrest : found.2 = [] := List.eq_nil_of_length_eq_zero (by omega)
    rw [List.append_nil, List.append_nil, hbytes, hrest, List.append_nil]
  · intro hbytes
    obtain rfl := hbytes
    have hparse : parse header.encode = .ok (header, []) := parse_eq_ok_iff.mpr (List.append_nil _).symm
    exact ⟨header.encode, [], header.encode, (List.append_nil _).symm, ⟨rfl, header.length_encode⟩,
      [], [], (header, []), rfl, ⟨rfl, hparse⟩, rfl, rfl⟩

/-- As many bytes as a header's are refused for their last word or not at all. -/
theorem parse_of_length {buffer : Bytes} (hlength : size ≤ buffer.length) :
    parse buffer = (parseOpCode (wordAt buffer 12)).map fun code =>
      (⟨wordAt buffer 0, wordAt buffer 4, wordAt buffer 8, code⟩, buffer.drop size) := by
  have hparse := parse_words (wordAt buffer 0) (wordAt buffer 4) (wordAt buffer 8) (wordAt buffer 12) (buffer.drop size)
  rwa [words_append_drop hlength] at hparse

theorem parseOpCode_eq_error_iff {word : UInt32} {error : MessageError} :
    parseOpCode word = .error error ↔ word ∉ OpCode.words ∧ error = .unknownOpCode word := by
  rw [← OpCode.ofWord?_eq_none_iff, parseOpCode]
  cases OpCode.ofWord? word <;> simp [eq_comm]

/-- A buffer is refused as too short or for a word that names no operation, and for nothing else. -/
theorem parse_eq_error_iff {buffer : Bytes} {error : MessageError} :
    parse buffer = .error error ↔
      buffer.length < size ∧ error = .shortBuffer ∨
        size ≤ buffer.length ∧ wordAt buffer 12 ∉ OpCode.words ∧ error = .unknownOpCode (wordAt buffer 12) := by
  by_cases hlength : size ≤ buffer.length
  · rw [parse_of_length hlength, map_eq_error_iff, parseOpCode_eq_error_iff]
    simp only [hlength, Nat.not_lt.mpr hlength, false_and, false_or, true_and]
  · have hshort := Nat.lt_of_not_le hlength
    rw [parse_of_short hshort, Except.error.injEq, eq_comm]
    simp only [hshort, hlength, true_and, false_and, or_false]

/-- Headers and the bytes of their four words are the same thing. A header's bytes are parsed as it, with whatever is
    behind them left over, and read as it off any source on which they come first, which then stands in front of the
    rest. A buffer is too short exactly if it has fewer bytes than a header; if it has as many, the word at its last
    place is unknown exactly if it is the number of no operation; and otherwise the bytes of the header that is found
    and the rest are the buffer again. -/
theorem codec_exact :
    (∀ (header : Header) (rest : Bytes),
      parse (header.encode ++ rest) = .ok (header, rest) ∧
        ∀ source : Source, source.ready = header.encode ++ rest →
          (read.run source).result = .ok header ∧ (read.run source).source.position = source.position + 16 ∧
            (read.run source).source.ready = rest) ∧
    ∀ buffer : Bytes,
      (parse buffer = .error .shortBuffer ↔ buffer.length < 16) ∧
      (∀ word, parse buffer = .error (.unknownOpCode word) ↔
        16 ≤ buffer.length ∧ wordAt buffer 12 = word ∧ word ∉ OpCode.words) ∧
      (16 ≤ buffer.length → wordAt buffer 12 ∈ OpCode.words →
        ∃ header rest, parse buffer = .ok (header, rest) ∧ header.encode ++ rest = buffer) := by
  constructor
  · intro header rest
    refine ⟨parse_eq_ok_iff.mpr rfl, ?_⟩
    intro source hready
    have hfront : header.encode <+: source.ready := ⟨rest, hready.symm⟩
    have hwithin := hfront.length_le
    have hbehind : (header.encode ++ rest).drop header.encode.length = rest := List.drop_left
    rw [length_encode] at hwithin hbehind
    rw [run_read_of_encode hfront]
    refine ⟨rfl, source.position_past size, ?_⟩
    rw [Source.ready_past hwithin, hready, hbehind]
  · intro buffer
    refine ⟨?_, ?_, ?_⟩
    · rw [parse_eq_error_iff]
      simp only [reduceCtorEq, and_false, or_false, and_true, size]
    · intro word
      rw [parse_eq_error_iff]
      simp only [reduceCtorEq, and_false, false_or, MessageError.unknownOpCode.injEq, size]
      constructor
      · intro hrefused
        obtain ⟨hlength, hunknown, rfl⟩ := hrefused
        exact ⟨hlength, rfl, hunknown⟩
      · intro hunknown
        obtain ⟨hlength, rfl, hunknown⟩ := hunknown
        exact ⟨hlength, hunknown, rfl⟩
    · intro hlength hknown
      cases hparse : parse buffer with
      | ok found => exact ⟨found.1, found.2, rfl, (parse_eq_ok_iff.mp hparse).symm⟩
      | error error =>
        obtain ⟨hshort, _⟩ | ⟨_, hunknown, _⟩ := parse_eq_error_iff.mp hparse
        · exact absurd hlength (Nat.not_le.mpr hshort)
        · exact absurd hknown hunknown

/-- A header of great numbers and a byte behind it, which come three bytes at a time and with an interruption. -/
def pieces : Source :=
  { pending := [254, 255, 255, 255, 7, 0, 0, 128, 0, 1, 0, 0, 219, 7, 0, 0, 238], position := 3, chunk := some 3,
    interrupts := [8] }

theorem codec_exact_pieces :
    pieces.ready = (Header.mk 4294967294 2147483655 256 .commandReply).encode ++ [238] ∧
      (read.run pieces).result = .ok ⟨4294967294, 2147483655, 256, .commandReply⟩ ∧
      (read.run pieces).source.position = 19 ∧ (read.run pieces).source.ready = [238] ∧
      16 ≤ pieces.pending.length ∧ wordAt pieces.pending 12 ∈ OpCode.words ∧
      ∃ header rest, parse pieces.pending = .ok (header, rest) ∧ header.encode ++ rest = pieces.pending := by
  have hready : pieces.ready = (Header.mk 4294967294 2147483655 256 .commandReply).encode ++ [238] := rfl
  have hlength : 16 ≤ pieces.pending.length := by decide
  have hknown : wordAt pieces.pending 12 ∈ OpCode.words := by decide
  obtain ⟨hencoded, hbuffer⟩ := codec_exact
  obtain ⟨_, hread⟩ := hencoded ⟨4294967294, 2147483655, 256, .commandReply⟩ [238]
  obtain ⟨hresult, hposition, hrest⟩ := hread pieces hready
  obtain ⟨_, _, hparsed⟩ := hbuffer pieces.pending
  exact ⟨hready, hresult, hposition, hrest, hlength, hknown, hparsed hlength hknown⟩

end Header

end ReplyCapture
