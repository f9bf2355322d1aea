import ReplyCapture.Document.Error
import ReplyCapture.Proofs.Steps

namespace ReplyCapture

/-- The parts of a walk that goes by offsets into one buffer. Each is given an offset and a limit. -/
inductive Routine
  /-- A document, so many levels below the outermost one. -/
  | document (depth : Nat)
  | value
  | string
  | name
  | length
  | span
deriving DecidableEq, Repr

/-- No document is looked at deeper than one level below the deepest that is accepted. -/
def Routine.Allowed : Routine → Prop
  | .document depth => depth ≤ nestingLimit + 1
  | _ => True

/-- What a walk by offsets does. A machine can refuse the first four, the others only tell how the walk goes. -/
inductive Act
  | byte (index : Nat)
  | slice (start stop : Nat)
  | sum (left right : Nat)
  | difference (left right : Nat)
  | entered (routine : Routine) (offset limit : Nat)
  /-- A routine has found the offset behind its part. -/
  | found (routine : Routine) (offset stop limit : Nat)
  /-- The tag of a field, or the zero that ends the fields, is about to be read. -/
  | tag (offset limit : Nat)
  /-- A field has been passed over, from its tag to the end of its value. -/
  | field (offset stop : Nat)
deriving DecidableEq, Repr

/-- What an act keeps to in a buffer of `size` bytes. The offset of a tag is one of the buffer, even where it is the
    limit, and so are all sums of offsets. A field takes two bytes at least. -/
def Act.Safe (size : Nat) : Act → Prop
  | .byte index => index < size
  | .slice start stop => start ≤ stop ∧ stop ≤ size
  | .sum left right => left + right ≤ size
  | .difference left right => right ≤ left
  | .entered routine offset limit => routine.Allowed ∧ offset ≤ limit ∧ limit ≤ size
  | .found _ offset stop limit => offset ≤ stop ∧ stop ≤ limit
  | .tag offset limit => offset ≤ limit ∧ limit < size
  | .field offset stop => offset + 2 ≤ stop

/-- What stops a walk. -/
inductive Halt
  | refused (cause : DecodeError)
  /-- The machine does not allow an act. -/
  | fault (act : Act)
  /-- The walk was not followed any further. -/
  | unfinished
deriving DecidableEq, Repr

/-- A walk by offsets: all its acts, in order, and what comes of it. -/
structure Probe (α : Type) where
  acts : List Act
  outcome : Except Halt α

namespace Probe

variable {α β : Type}

protected def pure (value : α) : Probe α :=
  ⟨[], .ok value⟩

protected def bind (probe : Probe α) (next : α → Probe β) : Probe β :=
  match probe.outcome with
  | .ok value => ⟨probe.acts ++ (next value).acts, (next value).outcome⟩
  | .error halt => ⟨probe.acts, .error halt⟩

instance : Monad Probe where
  pure := Probe.pure
  bind := Probe.bind

def refuse (cause : DecodeError) : Probe α :=
  ⟨[], .error (.refused cause)⟩

def unfinished : Probe α :=
  ⟨[], .error .unfinished⟩

def note (act : Act) : Probe Unit :=
  ⟨[act], .ok ()⟩

/-- An act that the machine may refuse. -/
def attempt (act : Act) : Option α → Probe α
  | some value => ⟨[act], .ok value⟩
  | none => ⟨[act], .error (.fault act)⟩

/-- What a routine does between its entry and its exit. -/
def within (routine : Routine) (offset limit : Nat) (body : Probe Nat) : Probe Nat := do
  note (.entered routine offset limit)
  let stop ← body
  note (.found routine offset stop limit)
  return stop

variable {γ δ : Type} {size : Nat} {related : α → β → Prop} {others : γ → δ → Prop}

/-- A walk by offsets that comes to the same as a walk by cursors, and whose acts are safe all the way: either both are
    refused for the same cause, or both find something, and what they find is related. -/
structure Agrees (size : Nat) (probe : Probe α) (walk : Except DecodeError β) (related : α → β → Prop) : Prop where
  safe : ∀ act ∈ probe.acts, act.Safe size
  refused : ∀ cause, walk = .error cause → probe.outcome = .error (.refused cause)
  passed : ∀ found, walk = .ok found → ∃ value, probe.outcome = .ok value ∧ related value found

/-- Safe acts of which a value comes. -/
structure Yields (size : Nat) (probe : Probe α) (value : α) : Prop where
  safe : ∀ act ∈ probe.acts, act.Safe size
  outcome : probe.outcome = .ok value

/-- A walk that goes on keeps its acts in front of those that follow. -/
theorem bind_of_ok {probe : Probe α} {next : α → Probe γ} {value : α} (hprobe : probe.outcome = .ok value) :
    probe >>= next = ⟨probe.acts ++ (next value).acts, (next value).outcome⟩ := by
  change Probe.bind probe next = _
  rw [Probe.bind, hprobe]

/-- A walk that halts has no acts behind that place. -/
theorem bind_of_error {probe : Probe α} {next : α → Probe γ} {halt : Halt} (hprobe : probe.outcome = .error halt) :
    probe >>= next = ⟨probe.acts, .error halt⟩ := by
  change Probe.bind probe next = _
  rw [Probe.bind, hprobe]

/-- The acts of a value on the way change nothing of what is agreed on behind them. -/
theorem Yields.bind {probe : Probe α} {value : α} {next : α → Probe γ} {walk : Except DecodeError δ}
    (hprobe : Yields size probe value) (hnext : Agrees size (next value) walk others) :
    Agrees size (probe >>= next) walk others := by
  rw [bind_of_ok hprobe.outcome]
  exact ⟨List.forall_mem_append.mpr ⟨hprobe.safe, hnext.safe⟩, hnext.refused, hnext.passed⟩

/-- What one act yields may be needed for the next. -/
theorem Yields.trans {probe : Probe α} {value : α} {next : α → Probe γ} {result : γ} (hprobe : Yields size probe value)
    (hnext : Yields size (next value) result) : Yields size (probe >>= next) result := by
  rw [bind_of_ok hprobe.outcome]
  exact ⟨List.forall_mem_append.mpr ⟨hprobe.safe, hnext.safe⟩, hnext.outcome⟩

/-- Walks that agree may go on in any two ways that agree on what was found. A refusal of the first is that of both. -/
theorem Agrees.bind {probe : Probe α} {walk : Except DecodeError β} {next : α → Probe γ}
    {further : β → Except DecodeError δ} (hprobe : Agrees size probe walk related)
    (hnext : ∀ value found, related value found → Agrees size (next value) (further found) others) :
    Agrees size (probe >>= next) (walk >>= further) others := by
  cases hwalk : walk with
  | error cause =>
    rw [bind_of_error (hprobe.refused cause hwalk)]
    refine ⟨hprobe.safe, ?_, fun _ hfound => nomatch hfound⟩
    intro other hother
    obtain rfl := Except.error.inj hother
    rfl
  | ok found =>
    obtain ⟨value, houtcome, hrelated⟩ := hprobe.passed found hwalk
    exact Yields.bind ⟨hprobe.safe, houtcome⟩ (hnext value found hrelated)

/-- Less may be said of what was found. -/
theorem Agrees.mono {probe : Probe α} {walk : Except DecodeError β} {wider : α → β → Prop}
    (hprobe : Agrees size probe walk related) (hwider : ∀ value found, related value found → wider value found) :
    Agrees size probe walk wider := by
  refine ⟨hprobe.safe, hprobe.refused, ?_⟩
  intro found hfound
  obtain ⟨value, houtcome, hrelated⟩ := hprobe.passed found hfound
  exact ⟨value, houtcome, hwider value found hrelated⟩

/-- The other walk may make something of what it has found. -/
theorem Agrees.map {probe : Probe α} {walk : Except DecodeError β} {change : β → δ} {wider : α → δ → Prop}
    (hprobe : Agrees size probe walk related)
    (hchange : ∀ value found, related value found → wider value (change found)) :
    Agrees size probe (walk >>= fun found => pure (change found)) wider := by
  refine ⟨hprobe.safe, ?_, ?_⟩
  · intro cause hcause
    exact hprobe.refused cause (bind_pure_eq_error_iff.mp hcause)
  · intro result hresult
    obtain ⟨found, hfound, hlast⟩ := bind_eq_ok_iff.mp hresult
    obtain rfl := pure_eq_ok_iff.mp hlast
    obtain ⟨value, houtcome, hrelated⟩ := hprobe.passed found hfound
    exact ⟨value, houtcome, hchange value found hrelated⟩

/-- Walks that find the same come to the same. -/
theorem Agrees.outcome_eq {probe : Probe α} {walk : Except DecodeError α} (hprobe : Agrees size probe walk Eq) :
    probe.outcome = walk.mapError .refused := by
  cases hwalk : walk with
  | error cause => exact hprobe.refused cause hwalk
  | ok found =>
    obtain ⟨value, houtcome, rfl⟩ := hprobe.passed found hwalk
    exact houtcome

/-- Acts that yield a value agree with a walk that has found its own already. -/
theorem Yields.agrees {probe : Probe α} {value : α} {found : β} (hprobe : Yields size probe value)
    (hrelated : related value found) : Agrees size probe (.ok found) related := by
  refine ⟨hprobe.safe, fun _ hcause => (nomatch hcause), ?_⟩
  intro other hother
  obtain rfl := Except.ok.inj hother
  exact ⟨value, hprobe.outcome, hrelated⟩

theorem yields_pure (size : Nat) (value : α) : Yields size (pure value) value :=
  ⟨fun _ hact => absurd hact List.not_mem_nil, rfl⟩

theorem agrees_pure {value : α} {found : β} (hrelated : related value found) :
    Agrees size (pure value) (pure found) related :=
  (yields_pure size value).agrees hrelated

/-- To refuse takes no act, so that it is safe in any buffer. -/
theorem agrees_refuse (cause : DecodeError) (related : α → β → Prop) :
    Agrees size (refuse cause) (.error cause) related := by
  refine ⟨fun _ hact => absurd hact List.not_mem_nil, ?_, fun _ hfound => nomatch hfound⟩
  intro other hother
  obtain rfl := Except.error.inj hother
  rfl

/-- Both walks are past the same guard, or neither is. -/
theorem Agrees.guard {condition : Prop} [Decidable condition] {cause : DecodeError} {skipped : γ → Probe α}
    {passed : δ → Except DecodeError β} {probe : Probe α} {walk : Except DecodeError β}
    (hnext : ¬ condition → Agrees size probe walk related) :
    Agrees size (if condition then refuse cause >>= skipped else probe)
      (if condition then throw cause >>= passed else walk) related := by
  split
  · exact agrees_refuse cause related
  · next hcondition => exact hnext hcondition

/-- A note is as safe as what it tells of. The machine has no say in it. -/
theorem yields_note {act : Act} (hsafe : act.Safe size) : Yields size (note act) () := by
  refine ⟨?_, rfl⟩
  intro other hother
  obtain rfl := List.mem_singleton.mp hother
  exact hsafe

/-- That the machine allows an act is not enough: it has to be safe as well. -/
theorem yields_attempt {act : Act} {value : α} (hsafe : act.Safe size) :
    Yields size (attempt act (some value)) value := by
  refine ⟨?_, rfl⟩
  intro other hother
  obtain rfl := List.mem_singleton.mp hother
  exact hsafe

/-- What a routine finds is what its body finds, between its offset and its limit. -/
theorem Agrees.within {routine : Routine} {offset limit : Nat} {body : Probe Nat} {walk : Except DecodeError β}
    {related : Nat → β → Prop} (hallowed : routine.Allowed) (hoffset : offset ≤ limit) (hlimit : limit ≤ size)
    (hbody : Agrees size body walk related)
    (hfound : ∀ stop found, related stop found → offset ≤ stop ∧ stop ≤ limit) :
    Agrees size (within routine offset limit body) walk related := by
  have hexit : Agrees size (body >>= fun stop => note (.found routine offset stop limit) >>= fun _ => pure stop)
      (walk >>= pure) related := by
    refine hbody.bind fun stop found hrelated => ?_
    exact Yields.bind (yields_note (hfound stop found hrelated)) (agrees_pure hrelated)
  rw [bind_pure] at hexit
  exact Yields.bind (yields_note ⟨hallowed, hoffset, hlimit⟩) hexit

end Probe

end ReplyCapture
