import Mathlib.Data.List.Forall2
import ReplyCapture.Document.Encode
import ReplyCapture.Proofs.Number.Binary64
import ReplyCapture.Reply.ReportedError

namespace ReplyCapture

namespace Value

/-- A value is a number, of whatever type, and equals this whole one. -/
def Equals : Value → Int → Prop
  | .int32 number, whole => number.toInt = whole
  | .int64 number, whole => number.toInt = whole
  | .double number, whole => number.value? = some (whole : Rat)
  | _, _ => False

theorem whole?_eq_some_iff {value : Value} {whole : Int} : value.whole? = some whole ↔ value.Equals whole := by
  cases value with
  | int32 number | int64 number => exact Option.some_inj
  | double number => exact Binary64.toInt?_eq_some_iff
  | _ => exact ⟨nofun, nofun⟩

/-- The numbers that a value gives as a code. A double does not give the least one. -/
def CodeOf (value : Value) (whole : Int) : Prop :=
  value.Equals whole ∧ -2147483648 ≤ whole ∧ whole ≤ 2147483647 ∧ (value.tag = .double → whole ≠ -2147483648)

/-- Only a double has a least code of its own. -/
theorem leastCode_le_iff {value : Value} {whole : Int} :
    value.leastCode ≤ whole ↔ -2147483648 ≤ whole ∧ (value.tag = .double → whole ≠ -2147483648) := by
  cases value with
  | double number =>
    simp only [leastCode, tag, true_implies]
    omega
  | _ => simp [leastCode, tag]

/-- A value gives the code that it equals, if that is one it can give. No whole number is rounded or wraps around. -/
theorem errorCode?_eq_some_iff {value : Value} {whole : Int} :
    value.errorCode?.map Int32.toInt = some whole ↔ value.CodeOf whole := by
  have hrange (number : Int) : (value.leastCode ≤ number ∧ number ≤ greatestCode) ↔
      -2147483648 ≤ number ∧ number ≤ 2147483647 ∧ (value.tag = .double → number ≠ -2147483648) := by
    rw [leastCode_le_iff, greatestCode, and_right_comm, and_assoc]
  rw [CodeOf, ← whole?_eq_some_iff, ← hrange, errorCode?]
  cases hnumber : value.whole? with
  | none => simp
  | some number =>
    rw [Option.some_inj]
    dsimp only
    split
    · next hcode =>
      obtain ⟨hleast, hgreatest, _⟩ := (hrange number).mp hcode
      rw [Option.map_some, Int32.toInt_ofInt_of_le hleast (by omega), Option.some_inj]
      constructor
      · rintro rfl
        exact ⟨rfl, hcode⟩
      · exact And.left
    · next hcode =>
      constructor
      · exact nofun
      · rintro ⟨rfl, hother⟩
        exact absurd hother hcode

/-- No value equals two numbers. -/
theorem Equals.eq {value : Value} {whole other : Int} (hwhole : value.Equals whole) (hother : value.Equals other) :
    whole = other := by
  rw [← whole?_eq_some_iff] at hwhole hother
  exact Option.some.inj (hwhole.symm.trans hother)

/-- What is stored as the code of a value that is an error by itself. Only a document stores one. -/
def ownCode? : Value → Option Value
  | .document fields => Document.get? fields "code"
  | _ => none

/-- What is stored in two places is the same, or the same number whatever type it has there. The least code counts as
    the same only where both or none are doubles. -/
def StoredAlike (stored counterpart : Option Value) : Prop :=
  stored = counterpart ∨
    ∃ value other whole, stored = some value ∧ counterpart = some other ∧ value.Equals whole ∧ other.Equals whole ∧
      (whole = -2147483648 → (value.tag = .double ↔ other.tag = .double))

/-- Values stored alike give the same code, or none. -/
theorem StoredAlike.bind_errorCode? {stored counterpart : Option Value} (halike : StoredAlike stored counterpart) :
    stored.bind errorCode? = counterpart.bind errorCode? := by
  obtain rfl | ⟨value, other, whole, rfl, rfl, hvalue, hother, hleast⟩ := halike
  · rfl
  · have hcodes (code : Int) : value.CodeOf code ↔ other.CodeOf code := by
      constructor
      · rintro ⟨hcode, hlow, hhigh, hdouble⟩
        obtain rfl := hcode.eq hvalue
        exact ⟨hother, hlow, hhigh, fun htag hsame => hdouble ((hleast hsame).mpr htag) hsame⟩
      · rintro ⟨hcode, hlow, hhigh, hdouble⟩
        obtain rfl := hcode.eq hother
        exact ⟨hvalue, hlow, hhigh, fun htag hsame => hdouble ((hleast hsame).mp htag) hsame⟩
    -- A value's code is known by the whole numbers it equals only, so the codes are compared as whole numbers.
    have hinjective : Function.Injective Int32.toInt := fun _ _ hsame => Int32.toInt_inj.mp hsame
    apply Option.map_injective hinjective
    apply Option.ext
    intro code
    rw [Option.bind_some, Option.bind_some, errorCode?_eq_some_iff, errorCode?_eq_some_iff, hcodes]

end Value

/-- The failures of single writes that a document lists, if it lists them in an array. -/
def Document.writeErrors (document : Document) : List Value :=
  match document.get? "writeErrors" with
  | some (.array items) => items
  | _ => []

/-- The place of each error that a document reports, in their order, and what is stored as its code. -/
def Document.codeSites (document : Document) : List (ErrorPlace × Option Value) :=
  (document.get? "$err").toList.map (fun _ => (.queryFailure, document.get? "code")) ++
    (document.get? "errmsg").toList.map (fun _ => (.errorMessage, document.get? "code")) ++
    document.writeErrors.map (fun item => (.writeError, item.ownCode?)) ++
    (document.get? "writeConcernError").toList.map fun value => (.writeConcernError, value.ownCode?)

namespace ReportedError

/-- Where an error is reported, and its code. -/
def site (error : ReportedError) : ErrorPlace × Option Int32 :=
  (error.place, error.code)

theorem site_ofNested (place : ErrorPlace) (value : Value) :
    (ofNested place value).site = (place, value.ownCode?.bind Value.errorCode?) := by
  cases value <;> rfl

theorem ofField_eq (document : Document) (place : ErrorPlace) :
    ofField document place =
      (document.get? place.field).toList.map fun value => ⟨place, value.errorMessage, document.errorCode?⟩ := by
  unfold ofField
  cases document.get? place.field <;> rfl

theorem ofWrites_eq (document : Document) : ofWrites document = document.writeErrors.map (ofNested .writeError) := by
  simp only [ofWrites, Document.writeErrors, ErrorPlace.field]
  cases document.get? "writeErrors" with
  | none => rfl
  | some value => cases value <;> rfl

theorem ofWriteConcern_eq (document : Document) :
    ofWriteConcern document = (document.get? "writeConcernError").toList.map (ofNested .writeConcernError) := by
  simp only [ofWriteConcern, ErrorPlace.field]
  cases document.get? "writeConcernError" <;> rfl

/-- Each error has the code that what is stored for it stands for. -/
theorem map_site_ofDocument (document : Document) :
    (ofDocument document).map site =
      document.codeSites.map fun stored => (stored.1, stored.2.bind Value.errorCode?) := by
  simp only [ofDocument, Document.codeSites, List.map_append, ofField_eq, ofWrites_eq, ofWriteConcern_eq, List.map_map,
    Function.comp_def, site_ofNested, ErrorPlace.field]
  rfl

/-- The codes that a document reports are the numbers stored for them, whatever types these are stored as. An error at
    any place has a code exactly if what is stored there equals a whole number of 32 bits, which is then the code; only
    the least of these numbers is none when it is stored as a double. So documents that store the same numbers at the
    same places report the same codes, and each number of 32 bits can be stored as each of the three types. -/
theorem code_ofDocument (document : Document) :
    List.Forall₂
        (fun error stored => error.place = stored.1 ∧
          ∀ whole : Int, error.code.map Int32.toInt = some whole ↔
            ∃ value, stored.2 = some value ∧ value.Equals whole ∧ -2147483648 ≤ whole ∧ whole ≤ 2147483647 ∧
              (value.tag = .double → whole ≠ -2147483648))
        (ofDocument document) document.codeSites ∧
      (∀ other : Document,
        List.Forall₂ (fun stored counterpart => Value.StoredAlike stored.2 counterpart.2) document.codeSites
          other.codeSites →
        (ofDocument document).map code = (ofDocument other).map code) ∧
      ∀ whole : Int, -2147483648 ≤ whole → whole ≤ 2147483647 →
        (∃ number, (Value.int32 number).Equals whole) ∧ (∃ number, (Value.int64 number).Equals whole) ∧
          ∃ number, (Value.double number).Equals whole := by
  refine ⟨?_, ?_, ?_⟩
  · have hsites := map_site_ofDocument document
    rw [← List.forall₂_eq_eq_eq, List.forall₂_map_left_iff, List.forall₂_map_right_iff] at hsites
    refine hsites.imp ?_
    intro error stored hsite
    obtain ⟨hplace, hcode⟩ := Prod.mk.inj hsite
    refine ⟨hplace, ?_⟩
    intro whole
    rw [hcode, Option.map_bind, Option.bind_eq_some_iff]
    simp only [Function.comp_apply, Value.errorCode?_eq_some_iff, Value.CodeOf]
  · intro other halike
    have hcodes (document : Document) :
        (ofDocument document).map code = document.codeSites.map fun stored => stored.2.bind Value.errorCode? := by
      have hsites := congrArg (List.map Prod.snd) (map_site_ofDocument document)
      rwa [List.map_map, List.map_map] at hsites
    rw [hcodes, hcodes, ← List.forall₂_eq_eq_eq, List.forall₂_map_left_iff, List.forall₂_map_right_iff]
    exact halike.imp fun _ _ hstored => hstored.bind_errorCode?
  · intro whole hleast hgreatest
    refine ⟨⟨Int32.ofInt whole, ?_⟩, ⟨Int64.ofInt whole, ?_⟩, ?_⟩
    · exact Int32.toInt_ofInt_of_le hleast (by omega)
    · exact Int64.toInt_ofInt_of_le (by omega) (by omega)
    · exact Binary64.exists_value?_eq_intCast (by omega)

/-- Two failures of writes, one of them with a code, and one of the write concern, below an error of the document. -/
def failures (top own concern : Value) : Document :=
  [("code", top), ("errmsg", .string "stopped"),
    ("writeErrors", .array [.document [("index", .int32 3), ("code", own)], .string "lost"]),
    ("writeConcernError", .document [("errmsg", .string "late"), ("code", concern)])]

/-- The codes 17, 26 and -64 as doubles, and as integers. -/
theorem code_ofDocument_failures :
    List.Forall₂ (fun stored counterpart => Value.StoredAlike stored.2 counterpart.2)
        (failures (.double ⟨0x4031000000000000⟩) (.double ⟨0x403A000000000000⟩) (.double ⟨0xC050000000000000⟩)).codeSites
        (failures (.int32 17) (.int64 26) (.int64 (-64))).codeSites ∧
      (ofDocument (failures (.double ⟨0x4031000000000000⟩) (.double ⟨0x403A000000000000⟩)
        (.double ⟨0xC050000000000000⟩))).map code = [some 17, some 26, none, some (-64)] := by
  have halike : List.Forall₂ (fun stored counterpart => Value.StoredAlike stored.2 counterpart.2)
      (failures (.double ⟨0x4031000000000000⟩) (.double ⟨0x403A000000000000⟩) (.double ⟨0xC050000000000000⟩)).codeSites
      (failures (.int32 17) (.int64 26) (.int64 (-64))).codeSites := by
    have hnumbers (bits : UInt64) (other : Value) (whole : Int) (hbits : (Binary64.mk bits).toInt? = some whole)
        (hother : other.Equals whole) (hsize : whole ≠ -2147483648) :
        Value.StoredAlike (some (.double ⟨bits⟩)) (some other) :=
      .inr ⟨_, _, whole, rfl, rfl, Binary64.toInt?_eq_some_iff.mp hbits, hother, fun hleast => absurd hleast hsize⟩
    refine .cons ?_ (.cons ?_ (.cons ?_ (.cons ?_ .nil)))
    · exact hnumbers _ (.int32 17) 17 rfl rfl (by decide)
    · exact hnumbers _ (.int64 26) 26 rfl rfl (by decide)
    · exact .inl rfl
    · exact hnumbers _ (.int64 (-64)) (-64) rfl rfl (by decide)
  obtain ⟨_, hcodes, _⟩ := code_ofDocument
    (failures (.double ⟨0x4031000000000000⟩) (.double ⟨0x403A000000000000⟩) (.double ⟨0xC050000000000000⟩))
  exact ⟨halike, hcodes _ halike⟩

/-- The least number of 32 bits is no code when it is stored as a double, though it is one as an integer. -/
theorem code_of_least_double :
    (Value.double ⟨0xC1E0000000000000⟩).Equals (-2147483648) ∧ (Value.int64 (-2147483648)).Equals (-2147483648) ∧
      (ofDocument [("errmsg", .string "x"), ("code", .double ⟨0xC1E0000000000000⟩)]).map code = [none] ∧
      (ofDocument [("errmsg", .string "x"), ("code", .int64 (-2147483648))]).map code = [some (-2147483648)] :=
  ⟨Binary64.toInt?_eq_some_iff.mp rfl, rfl, rfl, rfl⟩

end ReportedError

end ReplyCapture
