import ReplyCapture.Proofs.Bytes.Digits

namespace ReplyCapture.Hex

/-- The lines of a text, which a line break parts. A text without characters has none. -/
def linesOf (text : String) : List (List Char) :=
  if text.isEmpty then [] else text.toList.splitOn '\n'

/-- The bytes of columns, each two digits and a blank. -/
def columns? : List Char → Option Bytes
  | [] => some []
  | high :: low :: ' ' :: rest => do
    let value ← number? [high, low]
    let bytes ← columns? rest
    return UInt8.ofNat value :: bytes
  | _ => none

/-- The bytes of a line, whatever stands in front of its bar. -/
def row? (line : List Char) : Option Bytes :=
  match line.dropWhile (· ≠ '|') with
  | '|' :: ' ' :: columns => columns? columns
  | _ => none

/-- The bytes of a dump. -/
def read? (text : String) : Option Bytes :=
  ((linesOf text).mapM row?).map List.flatten

/-- What is written for a byte in one pass over all of them: where a row starts, a line break unless it is the first,
    the place and a bar; and then the byte's digits and a blank. -/
def mark (place : Nat) (byte : UInt8) : List Char :=
  (if place % rowWidth = 0 then (if 0 < place then ['\n'] else []) ++ offsetDigits place ++ [' ', '|', ' '] else []) ++
    byteDigits byte ++ [' ']

/-- What is written in one pass over bytes of which the first stands at a place. -/
def written (place : Nat) (bytes : Bytes) : List Char :=
  (bytes.zipIdx place).flatMap fun (byte, place) => mark place byte

section Rows

variable {bytes row : Bytes} {bound place : Nat}

theorem rowsWithin_succ (hsome : bytes ≠ []) :
    rowsWithin (bound + 1) bytes = bytes.take rowWidth :: rowsWithin bound (bytes.drop rowWidth) := by
  cases bytes with
  | nil => exact absurd rfl hsome
  | cons byte rest => rfl

/-- Behind a row there are fewer bytes. -/
theorem length_drop_rowWidth_le (hsome : bytes ≠ []) (hbound : bytes.length ≤ bound + 1) :
    (bytes.drop rowWidth).length ≤ bound := by
  have hpositive := List.length_pos_iff.mpr hsome
  rw [List.length_drop, rowWidth]
  omega

/-- The rows hold every byte in order. As many rows as there are bytes are enough. -/
theorem flatten_rowsWithin (hbound : bytes.length ≤ bound) : (rowsWithin bound bytes).flatten = bytes := by
  induction bound generalizing bytes with
  | zero => rw [rowsWithin, List.eq_nil_of_length_eq_zero (Nat.le_zero.mp hbound), List.flatten_nil]
  | succ bound ih =>
    by_cases hsome : bytes = []
    · rw [hsome, rowsWithin, List.flatten_nil]
    · rw [rowsWithin_succ hsome, List.flatten_cons, ih (length_drop_rowWidth_le hsome hbound), List.take_append_drop]

/-- Every row but the last is full, so that a row starts at sixteen times its index. -/
theorem getElem?_rowsWithin (hbound : bytes.length ≤ bound) (index : Nat) :
    (rowsWithin bound bytes)[index]? =
      if 16 * index < bytes.length then some ((bytes.drop (16 * index)).take 16) else none := by
  induction bound generalizing bytes index with
  | zero => simp [rowsWithin, Nat.le_zero.mp hbound]
  | succ bound ih =>
    by_cases hsome : bytes = []
    · simp [hsome, rowsWithin]
    · have hpositive := List.length_pos_iff.mpr hsome
      rw [rowsWithin_succ hsome]
      cases index with
      | zero => simp [hpositive, rowWidth]
      | succ index =>
        have hplace : rowWidth + 16 * index = 16 * (index + 1) := by
          rw [rowWidth]
          omega
        have hwithin : 16 * index < bytes.length - rowWidth ↔ 16 * (index + 1) < bytes.length := by
          rw [rowWidth]
          omega
        rw [List.getElem?_cons_succ, ih (length_drop_rowWidth_le hsome hbound), List.length_drop, List.drop_drop,
          hplace]
        simp only [hwithin]

/-- The place in front of a line follows from its index alone. -/
theorem getElem?_linesFrom (place : Nat) (rows : List Bytes) (index : Nat) :
    (linesFrom place rows)[index]? = rows[index]?.map (line (place + 16 * index)) := by
  induction rows generalizing place index with
  | nil => rfl
  | cons row rest ih =>
    cases index with
    | zero => rfl
    | succ index =>
      have hplace : place + rowWidth + 16 * index = place + 16 * (index + 1) := by
        rw [rowWidth]
        omega
      rw [linesFrom, List.getElem?_cons_succ, List.getElem?_cons_succ, ih, hplace]

/-- Columns are read back as the bytes that they were written for. -/
theorem columns?_flatMap (row : Bytes) : columns? (row.flatMap fun byte => byteDigits byte ++ [' ']) = some row := by
  induction row with
  | nil => rfl
  | cons byte rest ih =>
    have hdigits : number? [digit (byte.toNat / 16), digit byte.toNat] = some byte.toNat := number?_byteDigits byte
    simp only [byteDigits, List.flatMap_cons, List.cons_append, List.nil_append, columns?, hdigits,
      Option.bind_eq_bind, Option.bind_some] at ih ⊢
    rw [ih]
    simp

/-- A line's bytes are read back, whatever its place. -/
theorem row?_line (place : Nat) (row : Bytes) : row? (line place row) = some row := by
  have hbar : '|' ∉ offsetDigits place := notMem_of_number? (spells_offsetDigits place).number rfl
  have hfront : ∀ char ∈ offsetDigits place ++ [' '], decide (char ≠ '|') = true := by
    intro char hmem
    apply decide_eq_true
    rintro rfl
    simp [hbar] at hmem
  have hline : line place row =
      (offsetDigits place ++ [' ']) ++ '|' :: ' ' :: row.flatMap fun byte => byteDigits byte ++ [' '] := by
    simp [line]
  rw [row?, hline, List.dropWhile_append_of_pos hfront]
  exact columns?_flatMap row

/-- Lines are read back as their rows, from whatever place they count. -/
theorem mapM_row?_linesFrom (place : Nat) (rows : List Bytes) : (linesFrom place rows).mapM row? = some rows := by
  induction rows generalizing place with
  | nil => rfl
  | cons row rest ih => simp [linesFrom, List.mapM_cons, row?_line, ih]

/-- A line is not broken inside, so that the breaks between lines are the only ones. -/
theorem lineBreak_notMem_line (place : Nat) (row : Bytes) : '\n' ∉ line place row := by
  have hplace : '\n' ∉ offsetDigits place := notMem_of_number? (spells_offsetDigits place).number rfl
  have hbyte (byte : UInt8) : '\n' ∉ byteDigits byte := notMem_of_number? (number?_byteDigits byte) rfl
  simp [line, hplace, hbyte]

theorem written_nil (place : Nat) : written place [] = [] := rfl

theorem written_cons (place : Nat) (byte : UInt8) (rest : Bytes) :
    written place (byte :: rest) = mark place byte ++ written (place + 1) rest := by
  rw [written, List.zipIdx_cons, List.flatMap_cons]
  rfl

/-- Of the bytes in front, only their number matters to what is written behind. -/
theorem written_append (place : Nat) (front back : Bytes) :
    written place (front ++ back) = written place front ++ written (place + front.length) back := by
  rw [written, List.zipIdx_append, List.flatMap_append]
  rfl

/-- Within a row nothing is written but columns. -/
theorem written_of_within (hwithin : ∀ index < row.length, (place + index) % rowWidth ≠ 0) :
    written place row = row.flatMap fun byte => byteDigits byte ++ [' '] := by
  induction row generalizing place with
  | nil => rfl
  | cons byte rest ih =>
    have hrest : ∀ index < rest.length, (place + 1 + index) % rowWidth ≠ 0 := by
      intro index hindex
      have hnext := hwithin (index + 1) (Nat.succ_lt_succ hindex)
      rwa [Nat.add_assoc, Nat.add_comm 1]
    have hfirst : place % rowWidth ≠ 0 := hwithin 0 (Nat.succ_pos rest.length)
    rw [written_cons, ih hrest, List.flatMap_cons, mark, if_neg hfirst, List.nil_append]

/-- From the start of a row on, its line is written, behind a line break unless it is the first of all. -/
theorem written_row (hplace : place % rowWidth = 0) (hsome : row ≠ []) (hlength : row.length ≤ rowWidth) :
    written place row = (if 0 < place then ['\n'] else []) ++ line place row := by
  cases row with
  | nil => exact absurd rfl hsome
  | cons byte rest =>
    have hwithin : ∀ index < rest.length, (place + 1 + index) % rowWidth ≠ 0 := by
      intro index hindex
      rw [List.length_cons] at hlength
      rw [rowWidth] at *
      omega
    rw [written_cons, mark, if_pos hplace, written_of_within hwithin]
    simp [line]

/-- Where there are bytes there is a line. -/
theorem linesFrom_rowsWithin_ne_nil (place : Nat) (hsome : bytes ≠ []) (hbound : bytes.length ≤ bound) :
    linesFrom place (rowsWithin bound bytes) ≠ [] := by
  cases bound with
  | zero => exact absurd (List.eq_nil_of_length_eq_zero (Nat.le_zero.mp hbound)) hsome
  | succ bound =>
    rw [rowsWithin_succ hsome, linesFrom]
    exact List.cons_ne_nil _ _

/-- From the start of a row on, one pass writes the lines, with a line break in front of each but the first of all. -/
theorem written_eq_intercalate (hplace : place % rowWidth = 0) (hsome : bytes ≠ []) (hbound : bytes.length ≤ bound) :
    written place bytes =
      (if 0 < place then ['\n'] else []) ++ ['\n'].intercalate (linesFrom place (rowsWithin bound bytes)) := by
  induction bound generalizing bytes place with
  | zero => exact absurd (List.eq_nil_of_length_eq_zero (Nat.le_zero.mp hbound)) hsome
  | succ bound ih =>
    have hfirst : bytes.take rowWidth ≠ [] := by simp [hsome, rowWidth]
    have hrow := written_row hplace hfirst (List.length_take_le _ _)
    rw [rowsWithin_succ hsome, linesFrom]
    by_cases hlast : bytes.length ≤ rowWidth
    · have hnone : rowsWithin bound [] = [] := by cases bound <;> rfl
      rw [List.drop_eq_nil_of_le hlast, hnone, linesFrom, List.intercalate_singleton, ← hrow,
        List.take_of_length_le hlast]
    · -- The bytes behind a full row start a row of their own, which stands behind a line break.
      have hfull : (bytes.take rowWidth).length = rowWidth := List.length_take_of_le (by omega)
      have hmore : bytes.drop rowWidth ≠ [] := by simpa [List.drop_eq_nil_iff] using hlast
      have hfewer := length_drop_rowWidth_le hsome hbound
      have hlines := linesFrom_rowsWithin_ne_nil (place + rowWidth) hmore hfewer
      have hnext : (place + rowWidth) % rowWidth = 0 := by rw [Nat.add_mod_right, hplace]
      have hbehind := ih hnext hmore hfewer
      have hsplit := written_append place (bytes.take rowWidth) (bytes.drop rowWidth)
      rw [if_pos (Nat.add_pos_right place (by decide))] at hbehind
      rw [List.take_append_drop, hfull] at hsplit
      calc written place bytes
          = written place (bytes.take rowWidth) ++ written (place + rowWidth) (bytes.drop rowWidth) := hsplit
        _ = (if 0 < place then ['\n'] else []) ++ line place (bytes.take rowWidth) ++ (['\n'] ++
              ['\n'].intercalate (linesFrom (place + rowWidth) (rowsWithin bound (bytes.drop rowWidth)))) := by
            rw [hrow, hbehind]
        _ = _ := by rw [List.intercalate_cons_of_ne_nil hlines, List.append_assoc, List.append_assoc]

end Rows

/-- Lines joined by line breaks are what one pass over the bytes writes. -/
theorem toList_dump (bytes : Bytes) : (dump bytes).toList = written 0 bytes := by
  rw [dump, String.toList_ofList]
  by_cases hsome : bytes = []
  · rw [hsome]
    rfl
  · rw [rows, written_eq_intercalate rfl hsome (Nat.le_refl _), if_neg (Nat.lt_irrefl 0), List.nil_append]

/-- The last character that is written is the blank behind the last byte. -/
theorem getLast?_written {bytes : Bytes} (place : Nat) (hsome : bytes ≠ []) :
    (written place bytes).getLast? = some ' ' := by
  obtain ⟨front, byte, rfl⟩ := (List.eq_nil_or_concat bytes).resolve_left hsome
  rw [List.concat_eq_append, written_append, written_cons, written_nil, mark]
  simp

/-- Split at its line breaks, a dump is its lines. -/
theorem linesOf_dump (bytes : Bytes) : linesOf (dump bytes) = linesFrom 0 (rows bytes) := by
  by_cases hsome : bytes = []
  · rw [hsome]
    rfl
  · have hlines := linesFrom_rowsWithin_ne_nil 0 hsome (Nat.le_refl _)
    have hbreaks : ∀ text ∈ linesFrom 0 (rows bytes), '\n' ∉ text := by
      intro text hmem
      obtain ⟨index, hindex⟩ := List.mem_iff_getElem?.mp hmem
      rw [getElem?_linesFrom, Option.map_eq_some_iff] at hindex
      obtain ⟨row, _, rfl⟩ := hindex
      exact lineBreak_notMem_line _ row
    have hlast := getLast?_written 0 hsome
    have htext : ¬ (dump bytes).isEmpty := by
      rw [String.isEmpty_iff, ← String.toList_eq_nil_iff, toList_dump]
      intro hempty
      rw [hempty] at hlast
      cases hlast
    rw [linesOf, if_neg htext, dump, String.toList_ofList]
    exact List.splitOn_intercalate _ hbreaks hlines

/-- The bytes of a dump are read back from it. -/
theorem read?_dump (bytes : Bytes) : read? (dump bytes) = some bytes := by
  rw [read?, linesOf_dump, mapM_row?_linesFrom, Option.map_some, rows, flatten_rowsWithin (Nat.le_refl _)]

/-- A line shows the sixteen bytes from its place on, or those that are left there. -/
theorem getElem?_linesOf_dump (bytes : Bytes) (index : Nat) :
    (linesOf (dump bytes))[index]? =
      if 16 * index < bytes.length then some (line (16 * index) ((bytes.drop (16 * index)).take 16)) else none := by
  rw [linesOf_dump, getElem?_linesFrom, rows, getElem?_rowsWithin (Nat.le_refl _), Nat.zero_add]
  split <;> rfl

/-- There is a line for every sixteen bytes, and one for what is left. -/
theorem length_linesOf_dump (bytes : Bytes) : (linesOf (dump bytes)).length = (bytes.length + 15) / 16 := by
  have hlines (index : Nat) : (linesOf (dump bytes)).length ≤ index ↔ bytes.length ≤ 16 * index := by
    rw [← List.getElem?_eq_none_iff, getElem?_linesOf_dump]
    split <;> simp <;> omega
  have henough := (hlines _).mp (Nat.le_refl _)
  have hneeded := (hlines ((bytes.length + 15) / 16)).mpr (by omega)
  omega

/-- A dump loses nothing. It is what one pass over the bytes writes. Its line breaks part as many lines as rows of
    sixteen bytes are begun, none for no bytes, and no line break stands at the end. A line is the place of its first
    byte, a bar, and its bytes with a blank behind each. The place is spelled with at least four digits and a byte with
    two, in the only way there is. The bytes are read back from the columns, so that different bytes have different
    dumps. -/
theorem dump_loses_nothing (bytes : Bytes) :
    (dump bytes).toList = written 0 bytes ∧
    (linesOf (dump bytes)).length = (bytes.length + 15) / 16 ∧
    (∀ index text, (linesOf (dump bytes))[index]? = some text ↔ 16 * index < bytes.length ∧
      text = offsetDigits (16 * index) ++ [' ', '|', ' '] ++
        ((bytes.drop (16 * index)).take 16).flatMap fun byte => byteDigits byte ++ [' ']) ∧
    (∀ place digits, Spells 4 digits place ↔ digits = offsetDigits place) ∧
    (∀ byte digits, Spells 2 digits byte.toNat ↔ digits = byteDigits byte) ∧
    (dump bytes).toList.getLast? ≠ some '\n' ∧
    read? (dump bytes) = some bytes ∧
    ∀ other, dump other = dump bytes ↔ other = bytes := by
  refine ⟨toList_dump bytes, length_linesOf_dump bytes, ?_, fun place _ => (spells_offsetDigits place).iff_eq,
    fun byte _ => (spells_byteDigits byte).iff_eq, ?_, read?_dump bytes, ?_⟩
  · intro index text
    rw [getElem?_linesOf_dump]
    split
    · next hindex => simp only [Option.some.injEq, hindex, true_and, line, eq_comm]
    · next hindex => simp only [reduceCtorEq, hindex, false_and]
  · rw [toList_dump]
    by_cases hsome : bytes = []
    · rw [hsome, written_nil, List.getLast?_nil]
      exact nofun
    · rw [getLast?_written 0 hsome]
      decide
  · intro other
    constructor
    · intro hsame
      have hread := read?_dump other
      rw [hsame, read?_dump] at hread
      exact (Option.some.inj hread).symm
    · rintro rfl
      rfl

/-- One byte more than there are places of four digits. -/
def longRun : Bytes :=
  List.replicate 65537 7

theorem dump_loses_nothing_long :
    (linesOf (dump longRun)).length = 4097 ∧ (linesOf (dump longRun))[4096]? = some "10000 | 07 ".toList ∧
      read? (dump longRun) = some longRun := by
  have hlength : longRun.length = 65537 := List.length_replicate
  have hlast : (longRun.drop (16 * 4096)).take 16 = [7] := by
    rw [longRun, List.drop_replicate]
    rfl
  obtain ⟨_, hcount, hlines, _, _, _, hread, _⟩ := dump_loses_nothing longRun
  rw [hlength] at hcount
  refine ⟨hcount, (hlines _ _).mpr ⟨by rw [hlength]; decide, ?_⟩, hread⟩
  rw [hlast]
  decide

end ReplyCapture.Hex
