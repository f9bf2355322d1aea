import ReplyCapture.Proofs.Reply.Message
import ReplyCapture.Reply.Query

namespace ReplyCapture

/-- What a caller sees of a query: the answer, and what was logged. -/
def Answered.view (answered : Answered) : Answer × List Event :=
  (answered.answer, answered.log)

namespace Query

/-- The latency that a query leaves behind. -/
def latencyAfter (latency : Latency) : Query → Latency
  | .setLatency latest => latest
  | _ => latency

/-- The latency that was set last. It is zero as long as none was. -/
def lastLatency (queries : List Query) : Latency :=
  queries.foldl latencyAfter Latency.zero

end Query

namespace Reply

open Reading

/-- A reply that was read off a buffer or off a source, either with its header or under a header read before. -/
inductive Decoded : Reply → Prop
  | parse {buffer : Bytes} {limits : Limits} {reply : Reply} (hresult : (parse buffer limits).result = .ok reply) :
    Decoded reply
  | parseBody {header : Header} {buffer : Bytes} {limits : Limits} {reply : Reply}
    (hresult : (parseBody header buffer limits).result = .ok reply) : Decoded reply
  | read {limits : Limits} {source : Source} {reply : Reply}
    (hresult : ((read limits).run source).result = .ok reply) : Decoded reply
  | readBody {header : Header} {limits : Limits} {source : Source} {reply : Reply}
    (hresult : ((readBody header limits).run source).result = .ok reply) : Decoded reply

/-- A reply as a caller comes by it: made of documents, which need not be readable, or read. -/
inductive Obtained : Reply → Prop
  | made (header : Header) (commandReply metadata : RawDocument) (outputs : List RawDocument) :
    Obtained (ofDocuments header commandReply metadata outputs)
  | decoded {reply : Reply} (hdecoded : reply.Decoded) : Obtained reply

/-- A copy of a reply of which nothing has been asked, with a latency of its own. -/
def fresh (reply : Reply) (latency : Latency) : Reply :=
  { ofDocuments reply.header reply.commandReply reply.metadata reply.outputs with latency := latency }

/-- However it is read, a reply is carried by a message. -/
theorem Decoded.carries {reply : Reply} (hdecoded : reply.Decoded) :
    ∃ limits message, Carries limits message reply := by
  cases hdecoded with
  | parse hresult => exact ⟨_, _, parse_eq_ok_iff.mp hresult⟩
  | parseBody hresult => exact ⟨_, _, ((whole_eq_ok_iff (accepts_body _ _)).mp hresult).2⟩
  | read hresult =>
    obtain ⟨message, _, hcarries, _⟩ := (accepts_read _ _ _ _).mp (gives_of_result hresult)
    exact ⟨_, message, hcarries⟩
  | readBody hresult =>
    obtain ⟨body, _, ⟨_, hcarries⟩, _⟩ := (accepts_body _ _ _ _ _).mp (gives_of_result hresult)
    exact ⟨_, _, hcarries⟩

theorem Obtained.eq_fresh {reply : Reply} (hobtained : reply.Obtained) : reply = reply.fresh Latency.zero := by
  cases hobtained with
  | made header commandReply metadata outputs => rfl
  | decoded hdecoded =>
    obtain ⟨_, _, hcarries⟩ := hdecoded.carries
    exact hcarries.unasked

variable {origin reply : Reply} {latency : Latency}

/-- What can become of a reply: it has the latency that was set, and knows no cursor or the one that is there. -/
inductive Reached (origin : Reply) (latency : Latency) : Reply → Prop
  | unknown : Reached origin latency (origin.fresh latency)
  | known {number : Int64} (hnumber : Cursor.ofRaw origin.commandReply = .ok number) :
    Reached origin latency { origin.fresh latency with knownCursor := some number }

/-- Nothing has become of a reply when a caller comes by it. -/
theorem Obtained.reached (hobtained : reply.Obtained) : Reached reply Latency.zero reply := by
  have hfresh : Reached reply Latency.zero (reply.fresh Latency.zero) := .unknown
  rwa [← hobtained.eq_fresh] at hfresh

/-- Asked for its cursor, a reply says what is there, whether it knows it or not, and it only remembers a success. -/
theorem Reached.cursorId (hreached : Reached origin latency reply) :
    reply.cursorId.1 = (Cursor.ofRaw origin.commandReply).mapError .unreadable ∧
      Reached origin latency reply.cursorId.2 ∧ reply.cursorId.2.knownCursor = reply.cursorId.1.toOption := by
  cases hreached with
  | unknown =>
    simp only [Reply.cursorId, fresh, ofDocuments]
    cases hcursor : Cursor.ofRaw origin.commandReply with
    | error cause => exact ⟨rfl, .unknown, rfl⟩
    | ok number => exact ⟨rfl, .known hcursor, rfl⟩
  | known hnumber =>
    rw [hnumber]
    exact ⟨rfl, .known hnumber, rfl⟩

theorem Reached.knownCursor (hreached : Reached origin latency reply) :
    reply.knownCursor = none ∨
      ∃ number, reply.knownCursor = some number ∧ Cursor.ofRaw origin.commandReply = .ok number := by
  cases hreached with
  | unknown => exact .inl rfl
  | known hnumber => exact .inr ⟨_, rfl, hnumber⟩

/-- Only the query for the cursor is answered by a cursor. -/
theorem eq_cursorId_of_answer {query : Query} {result : Except MessageError Int64}
    (hresult : (reply.ask query).answer = .cursorId result) : query = .cursorId ∧ result = reply.cursorId.1 := by
  cases query with
  | cursorId =>
    injection hresult with hresult
    exact ⟨rfl, hresult.symm⟩
  | _ => cases hresult

/-- A query shows the same as on a fresh copy, and the latency is all that it leaves behind. -/
theorem Reached.ask (hreached : Reached origin latency reply) (query : Query) :
    (reply.ask query).view = ((origin.fresh latency).ask query).view ∧
      Reached origin (query.latencyAfter latency) (reply.ask query).reply := by
  cases query with
  | cursorId =>
    obtain ⟨hanswer, hafter, _⟩ := hreached.cursorId
    have hunknown : Reached origin latency (origin.fresh latency) := .unknown
    obtain ⟨hfresh, _⟩ := hunknown.cursorId
    refine ⟨?_, hafter⟩
    simp only [Reply.ask, Answered.view, hanswer, hfresh]
  | _ =>
    -- No other query looks at what is known of the cursor.
    cases hreached with
    | unknown => exact ⟨rfl, .unknown⟩
    | known hnumber => exact ⟨rfl, .known hnumber⟩

/-- Each of many queries shows the same as on a fresh copy with the latency that was set last. -/
theorem Reached.map_view_askAll (hreached : Reached origin latency reply) (queries : List Query) :
    (reply.askAll queries).map Answered.view =
      queries.mapIdx fun index query =>
        ((origin.fresh ((queries.take index).foldl Query.latencyAfter latency)).ask query).view := by
  induction queries generalizing latency reply with
  | nil => rfl
  | cons query queries ih =>
    obtain ⟨hview, hafter⟩ := hreached.ask query
    rw [askAll, List.map_cons, hview, ih hafter, List.mapIdx_cons]
    rfl

/-- Each of many queries is asked of what has become of the reply by then. -/
theorem Reached.of_mem_askAll (hreached : Reached origin latency reply) {queries : List Query} {answered : Answered}
    (hanswered : answered ∈ reply.askAll queries) :
    ∃ latency before query, Reached origin latency before ∧ answered = before.ask query := by
  induction queries generalizing latency reply with
  | nil => cases hanswered
  | cons query queries ih =>
    rw [askAll, List.mem_cons] at hanswered
    obtain rfl | hlater := hanswered
    · exact ⟨latency, reply, query, hreached, rfl⟩
    · exact ih (hreached.ask query).2 hlater

/-- A query is answered by what has become of the reply by then. -/
theorem Reached.getElem?_askAll (hreached : Reached origin latency reply) {queries : List Query} {place : Nat}
    {query : Query} (hasked : queries[place]? = some query) :
    ∃ latency before, Reached origin latency before ∧ (reply.askAll queries)[place]? = some (before.ask query) := by
  induction queries generalizing latency reply place with
  | nil => cases hasked
  | cons first rest ih =>
    cases place with
    | zero =>
      obtain rfl := Option.some.inj hasked
      exact ⟨latency, reply, hreached, rfl⟩
    | succ place => exact ih (hreached.ask first).2 hasked

/-- Whenever a reply is asked for its cursor, it says what is there. -/
theorem Obtained.cursorId_asked (hobtained : reply.Obtained) {queries : List Query} {place : Nat}
    (hasked : queries[place]? = some .cursorId) :
    ∃ answered, (reply.askAll queries)[place]? = some answered ∧
      answered.answer = .cursorId ((Cursor.ofRaw reply.commandReply).mapError .unreadable) := by
  obtain ⟨latency, before, hbefore, hanswered⟩ := hobtained.reached.getElem?_askAll hasked
  exact ⟨_, hanswered, congrArg Answer.cursorId hbefore.cursorId.1⟩

/-- A reply has no history. Whatever it was made of or read from and whatever is asked of it, in any order and however
    often, each answer and what is logged with it are those that a fresh copy with the latency last set would give. All
    along, the reply knows no cursor or the one in its command reply; every answer about the cursor is that one or why
    it cannot be read, and only the former is remembered. -/
theorem askAll_forgets (hobtained : reply.Obtained) (queries : List Query) :
    (reply.askAll queries).map Answered.view =
        queries.mapIdx (fun index query =>
          ((reply.fresh (Query.lastLatency (queries.take index))).ask query).view) ∧
      (∀ moment ∈ reply :: (reply.askAll queries).map Answered.reply,
        moment.knownCursor = none ∨
          ∃ number, moment.knownCursor = some number ∧ Cursor.ofRaw reply.commandReply = .ok number) ∧
      ∀ answered ∈ reply.askAll queries, ∀ result, answered.answer = .cursorId result →
        result = (Cursor.ofRaw reply.commandReply).mapError .unreadable ∧
          answered.reply.knownCursor = result.toOption := by
  have hreached := hobtained.reached
  refine ⟨hreached.map_view_askAll queries, ?_, ?_⟩
  · intro moment hmoment
    rw [List.mem_cons, List.mem_map] at hmoment
    obtain rfl | ⟨answered, hanswered, rfl⟩ := hmoment
    · exact hreached.knownCursor
    · obtain ⟨latency, before, query, hbefore, rfl⟩ := hreached.of_mem_askAll hanswered
      exact (hbefore.ask query).2.knownCursor
  · intro answered hanswered result hresult
    obtain ⟨latency, before, query, hbefore, rfl⟩ := hreached.of_mem_askAll hanswered
    obtain ⟨rfl, rfl⟩ := eq_cursorId_of_answer hresult
    obtain ⟨hanswer, _, hknown⟩ := hbefore.cursorId
    exact ⟨hanswer, hknown⟩

/-- A command reply that opens the cursor of number 42. -/
def cursorBytes : Bytes :=
  [30, 0, 0, 0, 3, 99, 117, 114, 115, 111, 114, 0, 17, 0, 0, 0, 18, 105, 100, 0, 42, 0, 0, 0, 0, 0, 0, 0, 0, 0]

/-- A reply read off a buffer, asked for its cursor before and after a latency is set. -/
theorem askAll_forgets_cursor :
    ∃ reply, (parse ([51, 0, 0, 0, 7, 0, 0, 0, 8, 0, 0, 0, 219, 7, 0, 0] ++ cursorBytes ++ [5, 0, 0, 0, 0])
        ⟨64, 64⟩).result = .ok reply ∧ reply.Obtained ∧
      (reply.askAll [.latency, .cursorId, .setLatency ⟨1, 5000, by decide⟩, .cursorId, .latency]).map Answered.view =
        [(.latency Latency.zero, []), (.cursorId (.ok 42), []), (.done, []), (.cursorId (.ok 42), []),
          (.latency ⟨1, 5000, by decide⟩, [])] := by
  have hparse : (parse ([51, 0, 0, 0, 7, 0, 0, 0, 8, 0, 0, 0, 219, 7, 0, 0] ++ cursorBytes ++ [5, 0, 0, 0, 0])
      ⟨64, 64⟩).result =
        .ok (ofDocuments ⟨51, 7, 8, .commandReply⟩ ⟨cursorBytes⟩ ⟨[5, 0, 0, 0, 0]⟩ []) := rfl
  have hobtained := Obtained.decoded (.parse hparse)
  obtain ⟨hviews, _⟩ :=
    askAll_forgets hobtained [.latency, .cursorId, .setLatency ⟨1, 5000, by decide⟩, .cursorId, .latency]
  exact ⟨_, hparse, hobtained, hviews⟩

end Reply

end ReplyCapture
