import ReplyCapture.Proofs.Text.Utf8
import ReplyCapture.Reply.Render

namespace ReplyCapture

namespace Utf8

theorem encode_append (front back : String) : encode (front ++ back) = encode front ++ encode back := by
  rw [encode, String.toList_append, List.flatMap_append]
  rfl

/-- Where each of some characters starts among their bytes, if these stand at a place. -/
def startsFrom (place : Nat) : List Char → List Nat
  | [] => []
  | char :: rest => place :: startsFrom (place + char.utf8Size) rest

/-- Where each character of a text starts among its bytes. -/
def starts (text : String) : List Nat :=
  startsFrom 0 text.toList

theorem length_startsFrom (place : Nat) (chars : List Char) : (startsFrom place chars).length = chars.length := by
  induction chars generalizing place with
  | nil => rfl
  | cons char chars ih => rw [startsFrom, List.length_cons, List.length_cons, ih]

/-- A character starts behind the bytes of those in front of it. -/
theorem startsFrom_getElem? {chars : List Char} {place index start : Nat}
    (hstart : (startsFrom place chars)[index]? = some start) :
    start = place + ((chars.take index).flatMap String.utf8EncodeChar).length := by
  induction chars generalizing place index with
  | nil => cases hstart
  | cons char chars ih =>
    cases index with
    | zero => exact (Option.some.inj hstart).symm
    | succ index =>
      rw [ih hstart, List.take_succ_cons, List.flatMap_cons, List.length_append, String.length_utf8EncodeChar,
        Nat.add_assoc]

/-- The bytes in front of a character are those of the characters in front of it. -/
theorem take_encode_of_starts {text : String} {index start : Nat} (hstart : (starts text)[index]? = some start) :
    (encode text).take start = encode (String.ofList (text.toList.take index)) := by
  have hsplit : encode text = (text.toList.take index).flatMap String.utf8EncodeChar ++
      (text.toList.drop index).flatMap String.utf8EncodeChar := by
    rw [encode, ← List.flatMap_append, List.take_append_drop]
  rw [startsFrom_getElem? hstart, Nat.zero_add, hsplit, List.take_left, encode, String.toList_ofList]

end Utf8

/-- What a text is cut to. It stays as it is or is cut behind `limit` characters. -/
inductive Cut (limit : Nat) : String → String → Prop
  | whole {text : String} (hfits : text.length ≤ limit) : Cut limit text text
  | behind {front back : String} (hfront : front.length = limit) (hback : back ≠ "") :
    Cut limit (front ++ back) (front ++ "...")

variable {text : String} {limit : Nat}

theorem clip_of_le (hfits : text.length ≤ limit) : clip text limit = text := by
  rw [← String.length_toList] at hfits
  rw [clip, if_pos hfits]

theorem clip_of_lt (hlong : limit < text.length) :
    clip text limit = String.ofList (text.toList.take limit) ++ "..." := by
  rw [← String.length_toList] at hlong
  rw [clip, if_neg (Nat.not_le.mpr hlong), String.ofList_append]

theorem lt_length_append {front back : String} (hfront : front.length = limit) (hback : back ≠ "") :
    limit < (front ++ back).length := by
  have hmore : back.length ≠ 0 := by
    rw [Ne, String.length_eq_zero_iff]
    exact hback
  rw [String.length_append]
  omega

theorem clip_append_of_length_eq {front back : String} (hfront : front.length = limit) (hback : back ≠ "") :
    clip (front ++ back) limit = front ++ "..." := by
  have hlong := lt_length_append hfront hback
  rw [← String.length_toList] at hfront
  rw [clip_of_lt hlong, String.toList_append, List.take_left' hfront, String.ofList_toList]

/-- Every text is whole or ends behind as many characters. -/
theorem cut_clip (text : String) (limit : Nat) : Cut limit text (clip text limit) := by
  by_cases hfits : text.length ≤ limit
  · rw [clip_of_le hfits]
    exact .whole hfits
  · have hlong := Nat.lt_of_not_le hfits
    have hback : String.ofList (text.toList.drop limit) ≠ "" := by
      rw [Ne, ← String.toList_eq_nil_iff, String.toList_ofList, List.drop_eq_nil_iff, String.length_toList]
      exact hfits
    have hfront : (String.ofList (text.toList.take limit)).length = limit := by
      rw [String.length_ofList, List.length_take_of_le]
      rw [String.length_toList]
      omega
    have hcut := Cut.behind hfront hback
    rwa [← String.ofList_append, List.take_append_drop, String.ofList_toList, ← clip_of_lt hlong] at hcut

/-- There is one way only to cut a text. -/
theorem cut_iff {shown : String} : Cut limit text shown ↔ shown = clip text limit := by
  constructor
  · intro hcut
    cases hcut with
    | whole hfits => exact (clip_of_le hfits).symm
    | behind hfront hback => exact (clip_append_of_length_eq hfront hback).symm
  · rintro rfl
    exact cut_clip text limit

namespace Cut

variable {shown : String}

theorem length_le (hcut : Cut limit text shown) : shown.length ≤ limit + 3 := by
  cases hcut with
  | whole hfits => exact Nat.le_add_right_of_le hfits
  | behind hfront _ =>
    rw [String.length_append, hfront]
    exact Nat.le_refl _

/-- A text that has been cut is cut no further. -/
theorem clip_eq (hcut : Cut limit text shown) : clip shown limit = shown := by
  cases hcut with
  | whole hfits => exact clip_of_le hfits
  | behind hfront _ => exact clip_append_of_length_eq hfront (by decide)

/-- At the end of another text, a text that does not end with a dot is left as it is only if it fits. -/
theorem append_eq_iff (hcut : Cut limit text shown) (hlast : text.toList.getLast? ≠ some '.') {other front : String} :
    other ++ shown = front ++ text ↔ other = front ∧ text.length ≤ limit := by
  cases hcut with
  | whole hfits => rw [String.append_left_inj, and_iff_left hfits]
  | @behind first back hfirst hback =>
    -- The cut text ends with a dot, and the whole one is too long, so neither side holds.
    have hlong := lt_length_append hfirst hback
    constructor
    · intro hsame
      have hdots : (other ++ (first ++ "...")).toList.getLast? = some '.' := by simp
      rw [hsame, String.toList_append, List.getLast?_append] at hdots
      cases hend : (first ++ back).toList.getLast? with
      | none =>
        rw [List.getLast?_eq_none_iff, String.toList_eq_nil_iff] at hend
        rw [hend] at hlong
        exact absurd hlong (Nat.not_lt_zero limit)
      | some last =>
        rw [hend] at hdots
        exact absurd (hend.trans hdots) hlast
    · intro hparts
      obtain ⟨_, hfits⟩ := hparts
      exact absurd hfits (Nat.not_le.mpr hlong)

end Cut

/-- The bytes of a text that is cut are those in front of where character `limit` starts, and three dots. -/
theorem encode_clip_of_starts {start : Nat} (hstart : (Utf8.starts text)[limit]? = some start) :
    Utf8.encode (clip text limit) = (Utf8.encode text).take start ++ Utf8.encode "..." := by
  obtain ⟨hindex, _⟩ := List.getElem?_eq_some_iff.mp hstart
  rw [Utf8.starts, Utf8.length_startsFrom, String.length_toList] at hindex
  rw [clip_of_lt hindex, Utf8.take_encode_of_starts hstart, Utf8.encode_append]

theorem clip_of_starts_eq_none (hnone : (Utf8.starts text)[limit]? = none) : clip text limit = text := by
  rw [List.getElem?_eq_none_iff, Utf8.starts, Utf8.length_startsFrom, String.length_toList] at hnone
  exact clip_of_le hnone

end ReplyCapture
