namespace ReplyCapture

/-- What a message asks or answers. -/
inductive OpCode
  | reply
  | update
  | insert
  | query
  | getMore
  | delete
  | killCursors
  | command
  | commandReply
  | msg
deriving DecidableEq, Repr

namespace OpCode

/-- The number in a header. -/
def toWord : OpCode → UInt32
  | .reply => 1
  | .update => 2001
  | .insert => 2002
  | .query => 2004
  | .getMore => 2005
  | .delete => 2006
  | .killCursors => 2007
  | .command => 2010
  | .commandReply => 2011
  | .msg => 2013

/-- The operation with a number, if there is one. -/
def ofWord? : UInt32 → Option OpCode
  | 1 => some .reply
  | 2001 => some .update
  | 2002 => some .insert
  | 2004 => some .query
  | 2005 => some .getMore
  | 2006 => some .delete
  | 2007 => some .killCursors
  | 2010 => some .command
  | 2011 => some .commandReply
  | 2013 => some .msg
  | _ => none

/-- The name in summaries. -/
def name : OpCode → String
  | .reply => "op_reply"
  | .update => "op_update"
  | .insert => "op_insert"
  | .query => "op_query"
  | .getMore => "op_getmore"
  | .delete => "op_delete"
  | .killCursors => "op_killcursors"
  | .command => "op_command"
  | .commandReply => "op_commandreply"
  | .msg => "op_msg"

/-- The name in error messages. -/
def label : OpCode → String
  | .reply => "OpReply"
  | .update => "OpUpdate"
  | .insert => "OpInsert"
  | .query => "OpQuery"
  | .getMore => "OpGetMore"
  | .delete => "OpDelete"
  | .killCursors => "OpKillCursors"
  | .command => "OpCommand"
  | .commandReply => "OpCommandReply"
  | .msg => "OpMsg"

@[simp]
theorem ofWord?_toWord (code : OpCode) : ofWord? code.toWord = some code := by
  cases code <;> rfl

theorem ofWord?_eq_some_iff {word : UInt32} {code : OpCode} :
    ofWord? word = some code ↔ word = code.toWord := by
  constructor
  · intro hword
    unfold ofWord? at hword
    split at hword <;> first | (cases hword; rfl) | cases hword
  · rintro rfl
    exact ofWord?_toWord code

end OpCode

end ReplyCapture
