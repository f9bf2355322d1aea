import Mathlib.Algebra.GroupWithZero.Nat
import ReplyCapture.Proofs.Message.Frame
import ReplyCapture.Proofs.Message.Header

namespace ReplyCapture.Reply

open Reading

/-- Documents that fill a body one after the other, each framed and readable. -/
structure Fills (limits : Limits) (documents : List Bytes) (body : Bytes) : Prop where
  flatten : documents.flatten = body
  framed : ∀ bytes ∈ documents, Frame.Framed limits.documentSize bytes
  readable : ∀ bytes ∈ documents, ∃ raw, RawDocument.ofBytes bytes = .ok raw

theorem fills_nil_iff {limits : Limits} {body : Bytes} : Fills limits [] body ↔ body = [] := by
  constructor
  · intro hfills
    exact hfills.flatten.symm
  · intro hbody
    exact ⟨hbody.symm, by simp, by simp⟩

/-- The first of the documents is the front of the body, and the others fill what is behind it. -/
theorem fills_cons_iff {limits : Limits} {document : Bytes} {documents : List Bytes} {body : Bytes} :
    Fills limits (document :: documents) body ↔
      ∃ rest, body = document ++ rest ∧ Frame.Framed limits.documentSize document ∧
        (∃ raw, RawDocument.ofBytes document = .ok raw) ∧ Fills limits documents rest := by
  constructor
  · intro hfills
    obtain ⟨hflatten, hframed, hreadable⟩ := hfills
    simp only [List.mem_cons, forall_eq_or_imp] at hframed hreadable
    exact ⟨documents.flatten, hflatten.symm, hframed.1, hreadable.1, rfl, hframed.2, hreadable.2⟩
  · intro hparts
    obtain ⟨rest, rfl, hfirst, hread, hflatten, hframed, hreadable⟩ := hparts
    refine ⟨by rw [List.flatten_cons, hflatten], ?_, ?_⟩
    · simpa only [List.mem_cons, forall_eq_or_imp] using ⟨hfirst, hframed⟩
    · simpa only [List.mem_cons, forall_eq_or_imp] using ⟨hread, hreadable⟩

/-- Only no documents fill no bytes, since each has at least five. -/
theorem eq_nil_of_fills {limits : Limits} {documents : List Bytes} (hfills : Fills limits documents []) :
    documents = [] := by
  cases documents with
  | nil => rfl
  | cons document documents =>
    obtain ⟨rest, hbody, hframed, _⟩ := fills_cons_iff.mp hfills
    have hleast := hframed.least
    have hlength := congrArg List.length hbody
    simp only [List.length_nil, List.length_append] at hlength
    omega

/-- A document and the keeping of it, at one place of a body. -/
theorem accepts_document (limits : Limits) (consumed expected : Nat) :
    Accepts (Frame.nextWithin limits.documentSize consumed expected >>= Frame.keep) fun bytes raw =>
      Frame.Framed limits.documentSize bytes ∧ bytes.length ≤ expected - consumed ∧
        RawDocument.ofBytes bytes = .ok raw := by
  refine ((Frame.accepts_nextWithin _ _ _).bind Frame.accepts_keep).congr fun bytes raw => ?_
  constructor
  · intro haccepted
    obtain ⟨front, _, _, rfl, ⟨rfl, hframed, hlength⟩, rfl, hraw⟩ := haccepted
    rw [List.append_nil]
    exact ⟨hframed, hlength, hraw⟩
  · intro haccepted
    obtain ⟨hframed, hlength, hraw⟩ := haccepted
    exact ⟨bytes, [], bytes, (List.append_nil _).symm, ⟨rfl, hframed, hlength⟩, rfl, hraw⟩

/-- An output document is accepted as any other in the body is, and moves the count by its own length. -/
theorem accepts_readOutput (limits : Limits) (expected consumed : Nat) :
    Accepts (readOutput limits expected consumed) fun bytes item =>
      Frame.Framed limits.documentSize bytes ∧ bytes.length ≤ expected - consumed ∧
        RawDocument.ofBytes bytes = .ok item.1 ∧ item.2 = consumed + bytes.length := by
  refine ((Frame.accepts_nextWithin _ _ _).bind fun found => (Frame.accepts_keep found).bind fun raw =>
    accepts_pure (raw, consumed + found.length)).congr fun bytes item => ?_
  constructor
  · intro haccepted
    obtain ⟨front, _, _, rfl, ⟨rfl, hframed, hlength⟩, _, _, raw, rfl, ⟨rfl, hraw⟩, rfl, rfl⟩ := haccepted
    simp only [List.append_nil]
    exact ⟨hframed, hlength, hraw, trivial⟩
  · intro haccepted
    obtain ⟨hframed, hlength, hraw, hplace⟩ := haccepted
    refine ⟨bytes, [], bytes, (List.append_nil _).symm, ⟨rfl, hframed, hlength⟩, ?_⟩
    exact ⟨[], [], item.1, rfl, ⟨rfl, hraw⟩, rfl, Prod.ext rfl hplace⟩

/-- The step of the loop over output documents: one more as long as the body is not used up. -/
def outputStep (limits : Limits) (expected consumed : Nat) : Option (Reading (RawDocument × Nat)) :=
  if consumed < expected then some (readOutput limits expected consumed) else none

/-- What the loop takes where `left` bytes of the body are left. -/
def OutputsOf (limits : Limits) (left : Nat) (bytes : Bytes) (outputs : List RawDocument) : Prop :=
  ∃ documents : List Bytes, outputs = documents.map RawDocument.mk ∧ Fills limits documents bytes ∧ bytes.length = left

/-- Where nothing is left, the loop takes no bytes. -/
theorem accepts_no_outputs (limits : Limits) : Accepts (pure []) (OutputsOf limits 0) := by
  refine (accepts_pure []).congr fun bytes outputs => ?_
  constructor
  · intro hnone
    obtain ⟨rfl, rfl⟩ := hnone
    exact ⟨[], rfl, fills_nil_iff.mpr rfl, rfl⟩
  · intro haccepted
    obtain ⟨documents, rfl, hfills, hlength⟩ := haccepted
    obtain rfl := List.eq_nil_of_length_eq_zero hlength
    obtain rfl := eq_nil_of_fills hfills
    exact ⟨rfl, rfl⟩

/-- As long as bytes are left, a document comes first. -/
theorem outputsOf_iff {limits : Limits} {left : Nat} {bytes : Bytes} {outputs : List RawDocument} (hleft : 0 < left) :
    OutputsOf limits left bytes outputs ↔
      ∃ document rest raw others, bytes = document ++ rest ∧ outputs = raw :: others ∧
        Frame.Framed limits.documentSize document ∧ document.length ≤ left ∧ RawDocument.ofBytes document = .ok raw ∧
        OutputsOf limits (left - document.length) rest others := by
  constructor
  · intro houtputs
    obtain ⟨documents, rfl, hfills, hlength⟩ := houtputs
    cases documents with
    | nil =>
      obtain rfl := fills_nil_iff.mp hfills
      simp only [List.length_nil] at hlength
      omega
    | cons document documents =>
      obtain ⟨rest, rfl, hframed, ⟨raw, hraw⟩, hrest⟩ := fills_cons_iff.mp hfills
      obtain rfl := (RawDocument.ofBytes_eq_ok_iff.mp hraw).2
      rw [List.length_append] at hlength
      exact ⟨document, rest, ⟨document⟩, documents.map RawDocument.mk, rfl, rfl, hframed, by omega, hraw,
        documents, rfl, hrest, by omega⟩
  · intro hparts
    obtain ⟨document, rest, raw, _, rfl, rfl, hframed, hwithin, hraw, documents, rfl, hrest, hlength⟩ := hparts
    have hbytes := (RawDocument.ofBytes_eq_ok_iff.mp hraw).2
    refine ⟨document :: documents, by rw [List.map_cons, hbytes], ?_, ?_⟩
    · exact fills_cons_iff.mpr ⟨rest, rfl, hframed, ⟨raw, hraw⟩, hrest⟩
    · rw [List.length_append]
      omega

/-- The loop takes documents that fill what is left of the body, however many these are. -/
theorem accepts_outputs (limits : Limits) (expected bound consumed : Nat) (hbound : expected - consumed ≤ bound) :
    Accepts (many (outputStep limits expected) bound consumed) (OutputsOf limits (expected - consumed)) := by
  induction bound generalizing consumed with
  | zero =>
    rw [many_zero, Nat.le_zero.mp hbound]
    exact accepts_no_outputs limits
  | succ bound ih =>
    rw [many_succ, outputStep]
    by_cases hleft : consumed < expected
    · rw [if_pos hleft]
      have hstep := (accepts_readOutput limits expected consumed).bind_of fun front item haccepted => by
        obtain ⟨hframed, _, _, hplace⟩ := haccepted
        have hleast := hframed.least
        exact (ih item.2 (by omega)).bind fun rest => accepts_pure (item.1 :: rest)
      refine hstep.congr fun bytes outputs => ?_
      rw [outputsOf_iff (by omega)]
      constructor
      · intro haccepted
        obtain ⟨front, _, item, rfl, ⟨hframed, hwithin, hraw, hplace⟩, back, _, rest, rfl, hrest, rfl, rfl⟩ := haccepted
        rw [hplace, ← Nat.sub_sub] at hrest
        rw [List.append_nil]
        exact ⟨front, back, item.1, rest, rfl, rfl, hframed, hwithin, hraw, hrest⟩
      · intro haccepted
        obtain ⟨document, rest, raw, others, rfl, rfl, hframed, hwithin, hraw, hrest⟩ := haccepted
        rw [Nat.sub_sub] at hrest
        refine ⟨document, rest, (raw, consumed + document.length), rfl, ⟨hframed, hwithin, hraw, rfl⟩, ?_⟩
        exact ⟨rest, [], others, (List.append_nil _).symm, hrest, rfl, rfl⟩
    · rw [if_neg hleft, Nat.sub_eq_zero_of_le (Nat.le_of_not_lt hleft)]
      exact accepts_no_outputs limits

/-- The body is two documents and then others, and fills the declared length. -/
theorem accepts_readBody {header : Header} (limits : Limits) (hcode : header.opCode = .commandReply) :
    Accepts (readBody header limits) fun body reply =>
      ∃ first second others, header.bodySize limits = .ok body.length ∧
        Fills limits (first :: second :: others) body ∧
        reply = ofDocuments header ⟨first⟩ ⟨second⟩ (others.map RawDocument.mk) := by
  unfold readBody
  rw [if_neg (by simp [hcode])]
  have hsteps := (accepts_ofExcept (header.bodySize limits)).bind fun expected =>
    (accepts_document limits 0 expected).bind fun commandReply =>
      (accepts_document limits commandReply.size expected).bind fun metadata =>
        (accepts_outputs limits expected expected (commandReply.size + metadata.size) (Nat.sub_le _ _)).bind
          fun outputs => (accepts_record (.decoded header outputs.length)).bind fun _ =>
            accepts_pure (ofDocuments header commandReply metadata outputs)
  refine Accepts.congr hsteps fun body reply => ?_
  constructor
  · intro haccepted
    obtain ⟨_, _, expected, rfl, ⟨rfl, hsize⟩, first, _, commandReply, rfl, hfirst, hbehind⟩ := haccepted
    obtain ⟨second, _, metadata, rfl, hsecond, rest, _, outputs, rfl, houtputs, _, _, _, rfl, rfl, rfl, rfl⟩ := hbehind
    obtain ⟨hfirst, hfits, hreply⟩ := hfirst
    obtain ⟨hsecond, hfollows, hmetadata⟩ := hsecond
    obtain ⟨others, rfl, hothers, hlength⟩ := houtputs
    obtain rfl := (RawDocument.ofBytes_eq_ok_iff.mp hreply).2
    obtain rfl := (RawDocument.ofBytes_eq_ok_iff.mp hmetadata).2
    simp only [RawDocument.size] at hfollows hlength
    refine ⟨first, second, others, ?_, ?_, rfl⟩
    · rw [hsize]
      simp only [List.nil_append, List.append_nil, List.length_append, Except.ok.injEq]
      omega
    · simp only [List.nil_append, List.append_nil]
      have hbehind := fills_cons_iff.mpr ⟨_, rfl, hsecond, ⟨_, hmetadata⟩, hothers⟩
      exact fills_cons_iff.mpr ⟨_, rfl, hfirst, ⟨_, hreply⟩, hbehind⟩
  · intro haccepted
    obtain ⟨first, second, others, hsize, hfills, rfl⟩ := haccepted
    obtain ⟨_, rfl, hfirst, ⟨commandReply, hreply⟩, hfills⟩ := fills_cons_iff.mp hfills
    obtain ⟨rest, rfl, hsecond, ⟨metadata, hmetadata⟩, hothers⟩ := fills_cons_iff.mp hfills
    obtain rfl := (RawDocument.ofBytes_eq_ok_iff.mp hreply).2
    obtain rfl := (RawDocument.ofBytes_eq_ok_iff.mp hmetadata).2
    have hlength : (first ++ (second ++ rest)).length = first.length + second.length + rest.length := by
      simp only [List.length_append, Nat.add_assoc]
    have houtputs : OutputsOf limits ((first ++ (second ++ rest)).length - (first.length + second.length)) rest
        (others.map RawDocument.mk) := ⟨others, rfl, hothers, by omega⟩
    refine ⟨[], _, _, rfl, ⟨rfl, hsize⟩, first, _, ⟨first⟩, rfl, ⟨hfirst, by omega, hreply⟩, second, _, ⟨second⟩, rfl,
      ⟨hsecond, ?_, hmetadata⟩, rest, _, others.map RawDocument.mk, (List.append_nil rest).symm, houtputs, ?_⟩
    · simp only [RawDocument.size]
      omega
    · exact ⟨[], [], (), rfl, rfl, rfl, rfl⟩

/-- A body is read in steps, each of which reports errors of the body only. -/
theorem stepwise_readBody (header : Header) (limits : Limits) :
    Stepwise MessageError.OfBody (readBody header limits) := by
  have hdocument (consumed expected : Nat) : Stepwise MessageError.OfBody
      (Frame.nextWithin limits.documentSize consumed expected >>= Frame.keep) :=
    (Frame.stepwise_nextWithin _ _ _).bind Frame.stepwise_keep
  have houtput (expected consumed : Nat) : Stepwise MessageError.OfBody (readOutput limits expected consumed) := by
    apply (Frame.stepwise_nextWithin _ _ _).bind
    intro bytes
    apply (Frame.stepwise_keep bytes).bind
    intro raw
    exact stepwise_pure _
  unfold readBody
  split
  · exact stepwise_fail trivial
  · apply (stepwise_ofExcept fun error herror => Header.bodySize_eq_error herror ▸ trivial).bind
    intro expected
    apply (hdocument 0 expected).bind
    intro commandReply
    apply (hdocument commandReply.size expected).bind
    intro metadata
    have houtputs : Stepwise MessageError.OfBody
        (readOutputs limits expected (commandReply.size + metadata.size)) := by
      apply stepwise_many
      intro consumed item hitem
      split at hitem
      · obtain rfl := Option.some.inj hitem
        exact houtput expected consumed
      · cases hitem
    apply houtputs.bind
    intro outputs
    apply (stepwise_record _).bind
    intro _
    exact stepwise_pure _

theorem within_document (limits : Limits) (consumed expected : Nat) :
    Within (Frame.nextWithin limits.documentSize consumed expected >>= Frame.keep) (expected - consumed) :=
  (Frame.within_nextWithin _ _ _).bind (Frame.accepts_nextWithin _ _ _) fun _ bytes _ _ => Frame.within_keep bytes _

theorem within_readOutput (limits : Limits) (expected consumed : Nat) :
    Within (readOutput limits expected consumed) (expected - consumed) := by
  refine (Frame.within_nextWithin _ _ _).bind (Frame.accepts_nextWithin _ _ _) fun _ bytes _ _ => ?_
  exact (Frame.within_keep bytes _).bind (Frame.accepts_keep bytes) fun _ _ _ _ => within_pure _ _

/-- The loop takes nothing beyond what is left of the body. -/
theorem within_outputs (limits : Limits) (expected bound consumed : Nat) (hbound : expected - consumed ≤ bound) :
    Within (many (outputStep limits expected) bound consumed) (expected - consumed) := by
  induction bound generalizing consumed with
  | zero => exact within_pure [] _
  | succ bound ih =>
    rw [many_succ, outputStep]
    by_cases hleft : consumed < expected
    · rw [if_pos hleft]
      refine (within_readOutput _ _ _).bind (accepts_readOutput _ _ _) fun front item haccepted _ => ?_
      obtain ⟨hframed, _, _, hplace⟩ := haccepted
      have hleast := hframed.least
      have hbound : expected - item.2 ≤ bound := by omega
      rw [Nat.sub_sub, ← hplace]
      exact (ih item.2 hbound).bind (accepts_outputs _ _ _ _ hbound) fun _ _ _ _ => within_pure _ _
    · rw [if_neg hleft]
      exact within_pure [] _

/-- Whether a body can be read or not, nothing behind it is taken. -/
theorem within_readBody {header : Header} {limits : Limits} {size : Nat} (hsize : header.bodySize limits = .ok size) :
    Within (readBody header limits) size := by
  unfold readBody
  split
  · exact within_fail _ _
  · refine (within_ofExcept _ _).bind (accepts_ofExcept _) fun taken expected haccepted _ => ?_
    obtain ⟨rfl, hexpected⟩ := haccepted
    obtain rfl := Except.ok.inj (hsize.symm.trans hexpected)
    refine (within_document limits 0 size).bind (accepts_document _ _ _) fun first commandReply hfirst _ => ?_
    obtain ⟨_, _, hreply⟩ := hfirst
    obtain rfl := (RawDocument.ofBytes_eq_ok_iff.mp hreply).2
    refine (within_document limits first.length size).bind (accepts_document _ _ _) fun second metadata hsecond _ => ?_
    obtain ⟨_, _, hmetadata⟩ := hsecond
    obtain rfl := (RawDocument.ofBytes_eq_ok_iff.mp hmetadata).2
    have houtputs := within_outputs limits size size (first.length + second.length) (Nat.sub_le _ _)
    rw [← Nat.sub_sub] at houtputs
    refine houtputs.bind (accepts_outputs _ _ _ _ (Nat.sub_le _ _)) fun _ outputs _ _ => ?_
    exact (within_record _ _).bind (accepts_record _) fun _ _ _ _ => within_pure _ _

/-- A body is read exactly when its declared length is accepted and the source holds that many bytes, which are
    two or more documents one after the other. The documents are then these, the only ones, in wire order, and
    nothing more of the source is taken. -/
theorem readBody_ok_iff {header : Header} (hcode : header.opCode = .commandReply) (limits : Limits) (source : Source) :
    ((∃ reply, ((readBody header limits).run source).result = .ok reply) ↔
      ∃ size, header.bodySize limits = .ok size ∧ size ≤ source.ready.length ∧
        ∃ documents, 2 ≤ documents.length ∧ Fills limits documents (source.ready.take size)) ∧
    ∀ reply, ((readBody header limits).run source).result = .ok reply →
      ∃ size first second others, header.bodySize limits = .ok size ∧
        Fills limits (first :: second :: others) (source.ready.take size) ∧
        (∀ documents, Fills limits documents (source.ready.take size) → documents = first :: second :: others) ∧
        reply = ofDocuments header ⟨first⟩ ⟨second⟩ (others.map RawDocument.mk) ∧
        ((first :: second :: others).map List.length).sum + 16 = header.messageLength.toNat ∧
        ((readBody header limits).run source).source.position = source.position + size ∧
        ((readBody header limits).run source).source.pending = source.pending.drop size := by
  have hbody := accepts_readBody limits hcode source
  constructor
  · constructor
    · intro hread
      obtain ⟨reply, hresult⟩ := hread
      obtain ⟨body, hfront, ⟨first, second, others, hsize, hfills, _⟩, _⟩ :=
        (hbody reply _).mp (gives_of_result hresult)
      rw [List.prefix_iff_eq_take.mp hfront] at hfills
      exact ⟨body.length, hsize, hfront.length_le, first :: second :: others, by simp, hfills⟩
    · intro hfilled
      obtain ⟨size, hsize, hready, documents, htwo, hfills⟩ := hfilled
      obtain ⟨first, second, others, rfl⟩ : ∃ first second others, documents = first :: second :: others := by
        match documents, htwo with
        | first :: second :: others, _ => exact ⟨first, second, others, rfl⟩
      have hlength : (source.ready.take size).length = size := List.length_take_of_le hready
      rw [← hlength] at hsize
      obtain ⟨log, hrun⟩ := (hbody _ _).mpr
        ⟨source.ready.take size, List.take_prefix _ _, ⟨first, second, others, hsize, hfills, rfl⟩, rfl⟩
      exact ⟨_, congrArg Outcome.result hrun⟩
  · intro reply hresult
    obtain ⟨body, hfront, ⟨first, second, others, hsize, hfills, rfl⟩, hafter⟩ :=
      (hbody reply _).mp (gives_of_result hresult)
    rw [List.prefix_iff_eq_take.mp hfront] at hfills
    have htotal := congrArg List.length hfills.flatten
    rw [List.length_flatten, List.length_take_of_le hfront.length_le] at htotal
    have hdeclared := (Header.bodySize_eq_ok_iff.mp hsize).1
    refine ⟨body.length, first, second, others, hsize, hfills, ?_, rfl, by omega, ?_, ?_⟩
    · intro documents hdocuments
      exact Frame.flatten_framed_inj hdocuments.framed hfills.framed (hdocuments.flatten.trans hfills.flatten.symm)
    · rw [hafter, Source.position_past]
    · rw [hafter, Source.pending_past]

/-- Three empty documents, which come two bytes at a time and with an interruption in the middle. -/
theorem readBody_ok_three_empty :
    (Header.mk 31 7 8 .commandReply).opCode = .commandReply ∧
      ∃ reply, ((readBody ⟨31, 7, 8, .commandReply⟩ ⟨64, 64⟩).run
        { pending := [5, 0, 0, 0, 0, 5, 0, 0, 0, 0, 5, 0, 0, 0, 0, 9], chunk := some 2, interrupts := [3] }).result =
          .ok reply ∧ reply.returned = 1 := by
  have hcode : (Header.mk 31 7 8 .commandReply).opCode = .commandReply := rfl
  obtain ⟨hread, hsplit⟩ := readBody_ok_iff hcode ⟨64, 64⟩
    { pending := [5, 0, 0, 0, 0, 5, 0, 0, 0, 0, 5, 0, 0, 0, 0, 9], chunk := some 2, interrupts := [3] }
  have hfills : Fills ⟨64, 64⟩ [[5, 0, 0, 0, 0], [5, 0, 0, 0, 0], [5, 0, 0, 0, 0]]
      [5, 0, 0, 0, 0, 5, 0, 0, 0, 0, 5, 0, 0, 0, 0] := by
    refine ⟨rfl, ?_, ?_⟩
    · intro bytes hbytes
      obtain rfl : bytes = [5, 0, 0, 0, 0] := by simpa using hbytes
      exact ⟨by decide, by decide, by decide⟩
    · intro bytes hbytes
      obtain rfl : bytes = [5, 0, 0, 0, 0] := by simpa using hbytes
      exact ⟨_, rfl⟩
  obtain ⟨reply, hreply⟩ := hread.mpr ⟨15, rfl, by decide, _, by decide, hfills⟩
  refine ⟨hcode, reply, hreply, ?_⟩
  obtain ⟨size, first, second, others, hsize, _, honly, rfl, _⟩ := hsplit reply hreply
  obtain rfl : 15 = size := Except.ok.inj hsize
  have hsame := honly _ hfills
  simp only [List.cons.injEq] at hsame
  rw [returned, ofDocuments, List.length_map, ← hsame.2.2]
  rfl

end ReplyCapture.Reply
