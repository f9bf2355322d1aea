import ReplyCapture.Source.Reading

namespace ReplyCapture

namespace Source

/-- How many bytes reads still deliver at most: those in front of a failure that lies ahead, or all there are.
    A source of which no read delivers anything has none. -/
def room (source : Source) : Nat :=
  if source.chunk = some 0 then 0
  else match source.failure with
    | some failure =>
      if source.position ≤ failure.position then failure.position - source.position else source.pending.length
    | none => source.pending.length

/-- The bytes that reads still deliver. -/
def ready (source : Source) : Bytes :=
  source.pending.take source.room

/-- The words of the failure behind the ready bytes, if there is one and not the end. -/
def ending (source : Source) : Option String :=
  (source.failure.filter fun failure => failure.position = source.position + source.ready.length).map Failure.text

/-- A source that never fails and of which every read delivers something as long as there is anything. -/
structure Unfailing (source : Source) : Prop where
  failure : source.failure = none
  chunk : source.chunk ≠ some 0

/-- The source behind its next `count` bytes, with the interruptions in front of that place used up. -/
def past (source : Source) (count : Nat) : Source :=
  { source.advance count with
    interrupts := source.interrupts.filter fun place => place < source.position ∨ source.position + count ≤ place }

/-- The source after more than all its ready bytes were wanted. The end is met by a read that can be
    interrupted, a failure is not. -/
def spent (source : Source) : Source :=
  let stop := source.position + source.ready.length
  { source.advance source.ready.length with
    interrupts := source.interrupts.filter fun place =>
      place < source.position ∨ stop < place ∨ (place = stop ∧ source.ending.isSome) }

@[simp]
theorem position_past (source : Source) (count : Nat) : (source.past count).position = source.position + count := rfl

@[simp]
theorem pending_past (source : Source) (count : Nat) : (source.past count).pending = source.pending.drop count := rfl

/-- No interruption is lost where none lies on the way. -/
theorem past_eq_advance {source : Source} {count : Nat}
    (hway : ∀ stop ∈ source.interrupts, stop < source.position ∨ source.position + count ≤ stop) :
    source.past count = source.advance count := by
  have hall : ∀ stop ∈ source.interrupts,
      decide (stop < source.position ∨ source.position + count ≤ stop) = true := by
    intro stop hstop
    exact decide_eq_true (hway stop hstop)
  rw [past, List.filter_eq_self.mpr hall]
  rfl

@[simp]
theorem past_zero (source : Source) : source.past 0 = source := by
  rw [past_eq_advance]
  · rfl
  · intro stop _
    omega

/-- To go on twice is to go on once as far, interruptions included. -/
theorem past_past (source : Source) (first second : Nat) :
    (source.past first).past second = source.past (first + second) := by
  simp only [past, advance, List.drop_drop, List.filter_filter, Nat.add_assoc, Source.mk.injEq, true_and]
  apply List.filter_congr
  intro stop _
  simp only [← Bool.decide_and, decide_eq_decide]
  omega

/-- No more is ready than there is room for; less, where the source ends first. -/
theorem length_ready_le_room (source : Source) : source.ready.length ≤ source.room :=
  List.length_take_le _ _

/-- The ready bytes are the front of what is pending. -/
theorem take_pending {source : Source} {count : Nat} (hcount : count ≤ source.ready.length) :
    source.pending.take count = source.ready.take count := by
  have hroom := source.length_ready_le_room
  rw [ready, List.take_take, Nat.min_eq_left (by omega)]

/-- Without failures, and with reads that deliver something, all that is pending is ready. -/
theorem Unfailing.ready {source : Source} (hunfailing : source.Unfailing) : source.ready = source.pending := by
  have hroom : source.room = source.pending.length := by
    rw [room, if_neg hunfailing.chunk, hunfailing.failure]
  rw [Source.ready, hroom, List.take_length]

theorem Unfailing.ending {source : Source} (hunfailing : source.Unfailing) : source.ending = none := by
  rw [Source.ending, hunfailing.failure]
  rfl

/-- Reading on takes from the room what was read. A failure that was passed before does not come to lie ahead again. -/
theorem room_past {source : Source} {count : Nat} (hcount : count ≤ source.room) :
    (source.past count).room = source.room - count := by
  unfold room at *
  simp only [past, advance, List.length_drop]
  by_cases hchunk : source.chunk = some 0
  · simp [hchunk]
  · simp only [if_neg hchunk] at hcount ⊢
    cases hfailure : source.failure with
    | none => rfl
    | some failure =>
      simp only [hfailure] at hcount ⊢
      by_cases hahead : source.position ≤ failure.position
      · rw [if_pos hahead] at hcount ⊢
        rw [if_pos (by omega)]
        omega
      · rw [if_neg hahead, if_neg (by omega)]

/-- Ready bytes that were read are no longer ready, and the others still are. -/
@[simp]
theorem ready_past {source : Source} {count : Nat} (hcount : count ≤ source.ready.length) :
    (source.past count).ready = source.ready.drop count := by
  have hroom := source.length_ready_le_room
  rw [ready, ready, room_past (by omega), pending_past, List.drop_take]

theorem length_ready_past {source : Source} {count : Nat} (hcount : count ≤ source.ready.length) :
    (source.past count).ready.length = source.ready.length - count := by
  rw [ready_past hcount, List.length_drop]

/-- Reading some of the ready bytes does not change what is behind them. -/
@[simp]
theorem ending_past {source : Source} {count : Nat} (hcount : count ≤ source.ready.length) :
    (source.past count).ending = source.ending := by
  have hplace : source.position + count + (source.ready.length - count) = source.position + source.ready.length := by
    omega
  rw [ending, ending, length_ready_past hcount, position_past, hplace]
  rfl

/-- A source that delivers exactly these bytes and then ends. -/
structure Holds (source : Source) (bytes : Bytes) : Prop where
  ready : source.ready = bytes
  ending : source.ending = none

/-- Behind its front, a source holds the rest. -/
theorem Holds.past {source : Source} {front rest : Bytes} (hholds : source.Holds (front ++ rest)) :
    (source.past front.length).Holds rest := by
  have hfront : front.length ≤ source.ready.length := by
    rw [hholds.ready, List.length_append]
    exact Nat.le_add_right _ _
  constructor
  · rw [ready_past hfront, hholds.ready, List.drop_left]
  · rw [ending_past hfront, hholds.ending]

theorem Holds.front {source : Source} {front rest : Bytes} (hholds : source.Holds (front ++ rest)) :
    front <+: source.ready :=
  ⟨rest, hholds.ready.symm⟩

@[simp]
theorem ready_ofBytes (bytes : Bytes) : (ofBytes bytes).ready = bytes :=
  List.take_length

/-- The way to a stop ahead bounds a count, and leaves some of it. -/
theorem upTo_spec (position count stop : Nat) :
    upTo position count stop ≤ count ∧ (position < stop → upTo position count stop ≤ stop - position) ∧
      (0 < count → 0 < upTo position count stop) := by
  unfold upTo
  split <;> omega

/-- The same of several stops: each of them that lies ahead bounds the count, and all together still leave some of
    it. -/
theorem foldl_upTo_spec (position count : Nat) (stops : List Nat) :
    stops.foldl (upTo position) count ≤ count ∧
      (∀ stop ∈ stops, position < stop → stops.foldl (upTo position) count ≤ stop - position) ∧
      (0 < count → 0 < stops.foldl (upTo position) count) := by
  induction stops generalizing count with
  | nil => simp
  | cons first rest ih =>
    obtain ⟨hfirst, hway, hsome⟩ := upTo_spec position count first
    obtain ⟨hrest, hways, hleft⟩ := ih (upTo position count first)
    rw [List.foldl_cons]
    refine ⟨Nat.le_trans hrest hfirst, ?_, fun hcount => hleft (hsome hcount)⟩
    intro stop hstop hahead
    cases hstop with
    | head => exact Nat.le_trans hrest (hway hahead)
    | tail _ hstop => exact hways stop hstop hahead

/-- One read goes no further than a chunk, a failure or an interruption, and gets on where a chunk holds
    anything. -/
theorem reach_spec (source : Source) (want : Nat) :
    source.reach want ≤ min want (source.chunk.getD want) ∧
      (∀ failure, source.failure = some failure → source.position < failure.position →
        source.reach want ≤ failure.position - source.position) ∧
      (∀ stop ∈ source.interrupts, source.position < stop → source.reach want ≤ stop - source.position) ∧
      (0 < min want (source.chunk.getD want) → 0 < source.reach want) := by
  unfold reach
  cases source.failure with
  | none =>
    obtain ⟨hreach, hways, hsome⟩ :=
      foldl_upTo_spec source.position (min want (source.chunk.getD want)) source.interrupts
    refine ⟨hreach, ?_, hways, hsome⟩
    intro failure hfailure
    cases hfailure
  | some failure =>
    obtain ⟨hintact, hfailure, hleft⟩ :=
      upTo_spec source.position (min want (source.chunk.getD want)) failure.position
    obtain ⟨hreach, hways, hsome⟩ := foldl_upTo_spec source.position
      (upTo source.position (min want (source.chunk.getD want)) failure.position) source.interrupts
    refine ⟨Nat.le_trans hreach hintact, ?_, hways, fun hwhole => hsome (hleft hwhole)⟩
    intro other hother hahead
    obtain rfl := Option.some.inj hother
    exact Nat.le_trans hreach (hfailure hahead)

/-- With nothing in front of it, a failure is met at once. The source stays as it is, so that the next read fails
    again. -/
theorem read_of_failing {source : Source} {want : Nat} {text : String} (hready : source.ready = [])
    (hending : source.ending = some text) : source.read want = (.failed text, source) := by
  simp only [ending, hready, List.length_nil, Nat.add_zero, Option.map_eq_some_iff] at hending
  obtain ⟨failure, hfailing, rfl⟩ := hending
  rw [read, hfailing]

/-- No failure is met where bytes are ready or the end is. -/
theorem filter_failure_eq_none {source : Source} (hready : source.ready ≠ [] ∨ source.ending = none) :
    (source.failure.filter fun failure => failure.position = source.position) = none := by
  cases hfailing : source.failure.filter fun failure => failure.position = source.position with
  | none => rfl
  | some failure =>
    have hempty : source.ready = [] := by
      obtain ⟨hfailure, hposition⟩ := Option.filter_eq_some_iff.mp hfailing
      have hhere : failure.position = source.position := by simpa using hposition
      rw [ready, room, hfailure]
      simp [hhere]
    have hending : source.ending = some failure.text := by
      simp only [ending, hempty, List.length_nil, Nat.add_zero, hfailing, Option.map_some]
    simp [hempty, hending] at hready

/-- An interruption is used up by the read that meets it, and no byte goes with it. -/
theorem read_of_interrupted {source : Source} {want : Nat} (hready : source.ready ≠ [] ∨ source.ending = none)
    (hinterrupted : source.position ∈ source.interrupts) :
    source.read want =
      (.interrupted, { source with interrupts := source.interrupts.erase source.position }) := by
  rw [read, filter_failure_eq_none hready]
  simp only [if_pos hinterrupted]

/-- One read does not reach beyond the ready bytes. A failure at the very place of the source is ruled out, for it would
    not be reached but met. -/
theorem reach_le_room {source : Source} {want : Nat} (hready : source.ready ≠ [] ∨ source.ending = none) :
    min (source.reach want) source.pending.length ≤ source.room := by
  obtain ⟨hreach, hfailure, _, _⟩ := source.reach_spec want
  have hnone := filter_failure_eq_none hready
  unfold room
  by_cases hchunk : source.chunk = some 0
  · rw [hchunk, Option.getD_some, Nat.min_zero] at hreach
    omega
  · rw [if_neg hchunk]
    cases hahead : source.failure with
    | none => exact Nat.min_le_right _ _
    | some failure =>
      have hplace : failure.position ≠ source.position := by
        intro hhere
        simp [hahead, Option.filter, hhere] at hnone
      have hway := hfailure failure hahead
      simp only
      split <;> omega

/-- A read that meets neither a failure nor an interruption delivers some of the ready bytes, and none only
    where none is ready. -/
theorem read_of_calm {source : Source} {want : Nat} (hwant : 0 < want)
    (hready : source.ready ≠ [] ∨ source.ending = none) (hcalm : source.position ∉ source.interrupts) :
    ∃ count ≤ min want source.ready.length, (source.ready ≠ [] → 0 < count) ∧
      source.read want = (.bytes (source.ready.take count), source.past count) := by
  obtain ⟨hreach, _, hways, hsome⟩ := source.reach_spec want
  have hroom : min (source.reach want) source.pending.length ≤ source.room := reach_le_room hready
  have hlength : source.ready.length = min source.room source.pending.length := List.length_take
  have hcount : min (source.reach want) source.pending.length ≤ min want source.ready.length := by omega
  refine ⟨min (source.reach want) source.pending.length, hcount, ?_, ?_⟩
  · intro hnonempty
    have hpositive := List.length_pos_iff.mpr hnonempty
    have hchunk : 0 < source.chunk.getD want := by
      cases hchunk : source.chunk with
      | none => exact hwant
      | some size =>
        have hsize : size ≠ 0 := by
          intro hzero
          have hnoroom : source.room = 0 := by rw [room, hchunk, hzero, if_pos rfl]
          omega
        exact Nat.pos_of_ne_zero hsize
    have hreached := hsome (by omega)
    omega
  · have hway : ∀ stop ∈ source.interrupts,
        stop < source.position ∨ source.position + min (source.reach want) source.pending.length ≤ stop := by
      intro stop hstop
      have hplace : stop ≠ source.position := fun hhere => hcalm (hhere ▸ hstop)
      have hahead := hways stop hstop
      omega
    have hfront : source.pending.take (source.reach want) =
        source.pending.take (min (source.reach want) source.pending.length) := List.take_eq_take_min
    rw [past_eq_advance hway, ← take_pending (by omega), read, filter_failure_eq_none hready]
    simp only [if_neg hcalm, List.length_take]
    rw [hfront]

/-- Taking out what is not kept anyway changes nothing about what is kept. -/
theorem filter_erase {stops : List Nat} {stop : Nat} {keep : Nat → Bool} (hstop : keep stop = false) :
    (stops.erase stop).filter keep = stops.filter keep := by
  induction stops with
  | nil => rfl
  | cons first rest ih =>
    by_cases hfirst : first = stop
    · rw [hfirst, List.erase_cons_head, List.filter_cons_of_neg (by simp [hstop])]
    · rw [List.erase_cons_tail (by simpa using hfirst), List.filter_cons, List.filter_cons, ih]

/-- Once some bytes have been read, no interruption in front of them matters. -/
theorem past_erase {source : Source} {count : Nat} (hcount : 0 < count) :
    past { source with interrupts := source.interrupts.erase source.position } count = source.past count := by
  rw [past, past]
  simp only [advance, Source.mk.injEq, true_and]
  apply filter_erase
  simp only [decide_eq_false_iff_not]
  omega

/-- An interruption that was met on the way to the end makes no difference to how the source is left. -/
theorem spent_erase {source : Source} (hready : source.ready ≠ [] ∨ source.ending = none) :
    spent { source with interrupts := source.interrupts.erase source.position } = source.spent := by
  have hsame : ready { source with interrupts := source.interrupts.erase source.position } = source.ready := rfl
  have hnone : ending { source with interrupts := source.interrupts.erase source.position } = source.ending := rfl
  rw [spent, spent, hsame, hnone]
  simp only [advance, Source.mk.injEq, true_and]
  apply filter_erase
  obtain hready | hending := hready
  · have hpositive := List.length_pos_iff.mpr hready
    simp only [decide_eq_false_iff_not]
    omega
  · simp [hending]

/-- A source without ready bytes is spent as it is, if no interruption is left to be met there. In front of a failure
    none would be. -/
theorem spent_of_empty {source : Source} (hempty : source.ready = [])
    (hcalm : source.ending.isSome ∨ source.position ∉ source.interrupts) : source.spent = source := by
  have hall : ∀ place ∈ source.interrupts,
      decide (place < source.position ∨ source.position < place ∨ (place = source.position ∧ source.ending.isSome)) =
        true := by
    intro place hplace
    apply decide_eq_true
    obtain hending | hcalm := hcalm
    · simp only [hending, and_true]
      omega
    · have hother : place ≠ source.position := fun hhere => hcalm (hhere ▸ hplace)
      omega
  rw [spent, hempty]
  simp only [List.length_nil, Nat.add_zero, List.filter_eq_self.mpr hall]
  rfl

/-- However much was read before, a spent source is the same one. -/
theorem spent_past {source : Source} {count : Nat} (hcount : count ≤ source.ready.length) :
    (source.past count).spent = source.spent := by
  rw [spent, spent, ready_past hcount, ending_past hcount]
  simp only [past, advance, List.drop_drop, List.length_drop, List.filter_filter, Source.mk.injEq, true_and]
  refine ⟨by congr 1; omega, by omega, ?_⟩
  apply List.filter_congr
  intro place _
  simp only [← Bool.decide_and, decide_eq_decide]
  by_cases hending : source.ending.isSome = true
  · simp only [hending, and_true]
    omega
  · simp only [hending, Bool.false_eq_true, and_false, or_false]
    omega

/-- One read, and what is collected after it, where a read is still allowed and something is wanted. -/
theorem collectOnto_succ (taken : Bytes) (bound want : Nat) (source : Source) :
    collectOnto taken (bound + 1) (want + 1) source =
      match source.read (want + 1) with
      | (.failed text, source) => ⟨taken.reverse, some text, source⟩
      | (.interrupted, source) => collectOnto taken bound (want + 1) source
      | (.bytes [], source) => ⟨taken.reverse, none, source⟩
      | (.bytes bytes, source) => collectOnto (bytes.reverse ++ taken) bound (want + 1 - bytes.length) source :=
  rfl

/-- The ready bytes come however many reads, chunks and interruptions it takes. -/
theorem collectOnto_of_le {taken : Bytes} {bound want : Nat} {source : Source} (hwant : want ≤ source.ready.length)
    (hbound : want + source.interrupts.length ≤ bound) :
    collectOnto taken bound want source = ⟨taken.reverse ++ source.ready.take want, none, source.past want⟩ := by
  induction bound generalizing taken want source with
  | zero =>
    obtain rfl : want = 0 := by omega
    simp [collectOnto]
  | succ bound ih =>
    cases want with
    | zero => simp [collectOnto]
    | succ want =>
      have hready : source.ready ≠ [] := List.length_pos_iff.mp (by omega)
      by_cases hinterrupted : source.position ∈ source.interrupts
      · have hfewer := List.length_erase_of_mem hinterrupted
        have hsome := List.length_pos_of_mem hinterrupted
        have hbound : want + 1 + (source.interrupts.erase source.position).length ≤ bound := by omega
        rw [collectOnto_succ, read_of_interrupted (.inl hready) hinterrupted, ← past_erase (Nat.succ_pos want)]
        exact ih hwant hbound
      · obtain ⟨count, hcount, hsome, hread⟩ := read_of_calm (Nat.succ_pos want) (.inl hready) hinterrupted
        have hlength : (source.ready.take count).length = count := List.length_take_of_le (by omega)
        obtain ⟨byte, rest, hbytes⟩ : ∃ byte rest, source.ready.take count = byte :: rest :=
          List.exists_cons_of_length_pos (by have := hsome hready; omega)
        have hleft : want + 1 - count ≤ (source.past count).ready.length := by
          rw [length_ready_past (by omega)]
          omega
        have hfewer : (source.past count).interrupts.length ≤ source.interrupts.length := List.length_filter_le _ _
        have hmore := hsome hready
        rw [collectOnto_succ, hread, hbytes]
        simp only
        rw [← hbytes, hlength, ih hleft (by omega), past_past, ready_past (by omega)]
        have htake : source.ready.take (want + 1) =
            source.ready.take count ++ (source.ready.drop count).take (want + 1 - count) := by
          rw [← List.take_add]
          congr 1
          omega
        rw [htake, List.reverse_append, List.reverse_reverse, List.append_assoc]
        congr 2
        omega

/-- Where more is wanted than is ready, all of it comes, and then the failure or the end. -/
theorem collectOnto_of_lt {taken : Bytes} {bound want : Nat} {source : Source} (hwant : source.ready.length < want)
    (hbound : want + source.interrupts.length ≤ bound) :
    collectOnto taken bound want source = ⟨taken.reverse ++ source.ready, source.ending, source.spent⟩ := by
  induction bound generalizing taken want source with
  | zero => omega
  | succ bound ih =>
    obtain ⟨want, rfl⟩ : ∃ fewer, want = fewer + 1 := ⟨want - 1, by omega⟩
    by_cases hready : source.ready ≠ [] ∨ source.ending = none
    · by_cases hinterrupted : source.position ∈ source.interrupts
      · have hfewer := List.length_erase_of_mem hinterrupted
        have hsome := List.length_pos_of_mem hinterrupted
        have hbound : want + 1 + (source.interrupts.erase source.position).length ≤ bound := by omega
        rw [collectOnto_succ, read_of_interrupted hready hinterrupted, ← spent_erase hready]
        exact ih hwant hbound
      · obtain ⟨count, hcount, hsome, hread⟩ := read_of_calm (Nat.succ_pos want) hready hinterrupted
        have hlength : (source.ready.take count).length = count := List.length_take_of_le (by omega)
        rw [collectOnto_succ, hread]
        cases hbytes : source.ready.take count with
        | nil =>
          have hempty : source.ready = [] := by
            apply Decidable.byContradiction
            intro hnonempty
            have hmore := hsome hnonempty
            rw [hbytes, List.length_nil] at hlength
            omega
          have hending : source.ending = none := by simpa [hempty] using hready
          rw [hbytes, List.length_nil] at hlength
          simp only
          rw [← hlength, past_zero, spent_of_empty hempty (.inr hinterrupted), hempty, hending, List.append_nil]
        | cons byte rest =>
          have hnonempty : source.ready ≠ [] := by
            intro hempty
            simp [hempty] at hbytes
          have hmore := hsome hnonempty
          have hleft : (source.past count).ready.length < want + 1 - count := by
            rw [length_ready_past (by omega)]
            omega
          have hfewer : (source.past count).interrupts.length ≤ source.interrupts.length := List.length_filter_le _ _
          simp only
          rw [← hbytes, hlength, ih hleft (by omega), spent_past (by omega), ending_past (by omega),
            ready_past (by omega), List.reverse_append, List.reverse_reverse, List.append_assoc,
            List.take_append_drop]
    · simp only [not_or, ne_eq, Decidable.not_not] at hready
      obtain ⟨hempty, hending⟩ := hready
      obtain ⟨text, hending⟩ := Option.ne_none_iff_exists'.mp hending
      rw [collectOnto_succ, read_of_failing hempty hending, spent_of_empty hempty (.inl (by simp [hending])), hempty,
        hending, List.append_nil]

/-- What a source delivers in however many reads: the ready bytes, as many as are wanted. -/
theorem collect_of_le {source : Source} {want : Nat} (hwant : want ≤ source.ready.length) :
    source.collect want = ⟨source.ready.take want, none, source.past want⟩ :=
  collectOnto_of_le hwant Nat.le.refl

/-- And where fewer are ready than are wanted: all of them, and then the failure or the end. -/
theorem collect_of_lt {source : Source} {want : Nat} (hwant : source.ready.length < want) :
    source.collect want = ⟨source.ready, source.ending, source.spent⟩ :=
  collectOnto_of_lt hwant Nat.le.refl

/-- Why more than the ready bytes cannot be had. -/
def shortage (source : Source) (want : Nat) : MessageError :=
  match source.ending with
  | some text => .io text
  | none => .truncated want source.ready.length

end Source

namespace Reading

/-- Bytes that are ready are read however they arrive, and nothing is logged. -/
theorem run_exactly_of_le {source : Source} {count : Nat} (hcount : count ≤ source.ready.length) :
    (exactly count).run source = ⟨.ok (source.ready.take count), source.past count, []⟩ := by
  have hlength : (source.ready.take count).length = count := List.length_take_of_le hcount
  simp [exactly, Source.collect_of_le hcount, Delivery.verdict, hlength, Except.map]

/-- Where too few are ready, reading uses all of them up before it tells of the shortage. -/
theorem run_exactly_of_lt {source : Source} {count : Nat} (hcount : source.ready.length < count) :
    (exactly count).run source = ⟨.error (source.shortage count), source.spent, []⟩ := by
  simp only [exactly, Source.collect_of_lt hcount, Delivery.verdict, Source.shortage]
  cases source.ending with
  | none => simp [hcount, Except.map]
  | some text => rfl

end Reading

end ReplyCapture
