namespace ReplyCapture

/-- A run of octets. A list lets every reader recurse on what it reads. -/
abbrev Bytes := List UInt8

namespace Bytes

/-- Moves `count` bytes onto `taken`, last one on top. -/
def splitOnto (taken : Bytes) : Bytes → Nat → Option (Bytes × Bytes)
  | rest, 0 => some (taken.reverse, rest)
  | [], _ + 1 => none
  | byte :: rest, count + 1 => splitOnto (byte :: taken) rest count

/-- The first `count` bytes and what follows them, when there are that many. Stops at the end of
    a short input, so a huge `count` costs nothing. -/
def split? (bytes : Bytes) (count : Nat) : Option (Bytes × Bytes) :=
  splitOnto [] bytes count

theorem splitOnto_eq (taken bytes : Bytes) (count : Nat) :
    splitOnto taken bytes count =
      if count ≤ bytes.length then some (taken.reverse ++ bytes.take count, bytes.drop count)
      else none := by
  induction bytes generalizing taken count with
  | nil => cases count <;> simp [splitOnto]
  | cons byte rest ih => cases count <;> simp [splitOnto, ih]

theorem split?_eq (bytes : Bytes) (count : Nat) :
    bytes.split? count =
      if count ≤ bytes.length then some (bytes.take count, bytes.drop count) else none := by
  simp [split?, splitOnto_eq]

theorem split?_append (front rest : Bytes) : split? (front ++ rest) front.length = some (front, rest) := by
  simp [split?_eq]

/-- Moves the bytes before the first zero onto `taken` and drops that zero. -/
def splitZeroOnto (taken : Bytes) : Bytes → Option (Bytes × Bytes)
  | [] => none
  | byte :: rest => if byte = 0 then some (taken.reverse, rest) else splitZeroOnto (byte :: taken) rest

/-- The bytes before the first zero and those after it. -/
def splitZero? (bytes : Bytes) : Option (Bytes × Bytes) :=
  splitZeroOnto [] bytes

theorem splitZeroOnto_eq_some {taken bytes front rest : Bytes}
    (hsplit : splitZeroOnto taken bytes = some (front, rest)) :
    ∃ name, front = taken.reverse ++ name ∧ 0 ∉ name ∧ bytes = name ++ 0 :: rest := by
  induction bytes generalizing taken with
  | nil => simp [splitZeroOnto] at hsplit
  | cons byte tail ih =>
    by_cases hzero : byte = 0
    · simp only [splitZeroOnto, hzero, if_true, Option.some.injEq, Prod.mk.injEq] at hsplit
      obtain ⟨rfl, rfl⟩ := hsplit
      exact ⟨[], by simp, by simp, by simp [hzero]⟩
    · simp only [splitZeroOnto, hzero, if_false] at hsplit
      obtain ⟨name, rfl, hname, rfl⟩ := ih hsplit
      exact ⟨byte :: name, by simp, by simp [hname, Ne.symm hzero], rfl⟩

theorem splitZeroOnto_append {name : Bytes} (taken rest : Bytes) (hname : 0 ∉ name) :
    splitZeroOnto taken (name ++ 0 :: rest) = some (taken.reverse ++ name, rest) := by
  induction name generalizing taken with
  | nil => simp [splitZeroOnto]
  | cons byte name ih =>
    simp only [List.mem_cons, not_or] at hname
    simp [splitZeroOnto, Ne.symm hname.1, ih _ hname.2]

/-- A name ends at its first zero, whatever follows. -/
theorem splitZero?_eq_some_iff {bytes name rest : Bytes} :
    bytes.splitZero? = some (name, rest) ↔ 0 ∉ name ∧ bytes = name ++ 0 :: rest := by
  constructor
  · intro hsplit
    obtain ⟨found, rfl, hfound, rfl⟩ := splitZeroOnto_eq_some hsplit
    exact ⟨by simpa using hfound, by simp⟩
  · rintro ⟨hname, rfl⟩
    simpa [splitZero?] using splitZeroOnto_append [] rest hname

end Bytes

end ReplyCapture
