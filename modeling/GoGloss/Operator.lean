import GoGloss.Token

/-!
# Operators

The same mark may be several operators: `*` multiplies between two operands and
dereferences in front of one, `<-` receives in front of an operand and sends
after one. Each family of operators says which mark writes it and reads the marks
back.
-/

namespace GoGloss

/-- The operators in front of one operand, the star apart. -/
inductive UnaryOp where
  | plus | minus | not | xor | address | receive | tilde
deriving DecidableEq, Repr

namespace UnaryOp

/-- The mark that writes an operator. -/
def mark : UnaryOp → Mark
  | .plus => .plus
  | .minus => .minus
  | .not => .bang
  | .xor => .caret
  | .address => .amp
  | .receive => .arrow
  | .tilde => .tilde

/-- The spelling of an operator. -/
def text (op : UnaryOp) : String := op.mark.text

/-- The operator a token starts an operand with; receiving is told from a channel type apart. -/
def ofToken? : Token → Option UnaryOp
  | .mark .plus => some .plus
  | .mark .minus => some .minus
  | .mark .bang => some .not
  | .mark .caret => some .xor
  | .mark .amp => some .address
  | .mark .tilde => some .tilde
  | _ => none

end UnaryOp

/-- The operators between two operands. -/
inductive BinaryOp where
  | add | sub | mul | div | rem
  | and | or | xor | shl | shr | andNot
  | logicalAnd | logicalOr
  | eq | ne | lt | le | gt | ge
deriving DecidableEq, Repr

namespace BinaryOp

/-- The mark that writes an operator. -/
def mark : BinaryOp → Mark
  | .add => .plus
  | .sub => .minus
  | .mul => .star
  | .div => .slash
  | .rem => .percent
  | .and => .amp
  | .or => .pipe
  | .xor => .caret
  | .shl => .shl
  | .shr => .shr
  | .andNot => .andNot
  | .logicalAnd => .ampAmp
  | .logicalOr => .pipePipe
  | .eq => .equalEqual
  | .ne => .notEqual
  | .lt => .less
  | .le => .lessEqual
  | .gt => .greater
  | .ge => .greaterEqual

/-- The spelling of an operator. -/
def text (op : BinaryOp) : String := op.mark.text

/-- How tightly an operator binds, from one (loosest) to five. -/
def precedence : BinaryOp → Nat
  | .logicalOr => 1
  | .logicalAnd => 2
  | .eq | .ne | .lt | .le | .gt | .ge => 3
  | .add | .sub | .or | .xor => 4
  | .mul | .div | .rem | .shl | .shr | .and | .andNot => 5

/-- The operator a token is after an operand. -/
def ofToken? : Token → Option BinaryOp
  | .mark .plus => some .add
  | .mark .minus => some .sub
  | .mark .star => some .mul
  | .mark .slash => some .div
  | .mark .percent => some .rem
  | .mark .amp => some .and
  | .mark .pipe => some .or
  | .mark .caret => some .xor
  | .mark .shl => some .shl
  | .mark .shr => some .shr
  | .mark .andNot => some .andNot
  | .mark .ampAmp => some .logicalAnd
  | .mark .pipePipe => some .logicalOr
  | .mark .equalEqual => some .eq
  | .mark .notEqual => some .ne
  | .mark .less => some .lt
  | .mark .lessEqual => some .le
  | .mark .greater => some .gt
  | .mark .greaterEqual => some .ge
  | _ => none

end BinaryOp

/-- The operators of assignments: plain, declaring, and combined with a binary operator. -/
inductive AssignOp where
  | define | assign
  | add | sub | mul | div | rem
  | and | or | xor | shl | shr | andNot
deriving DecidableEq, Repr

namespace AssignOp

/-- The mark that writes an operator. -/
def mark : AssignOp → Mark
  | .define => .define
  | .assign => .assign
  | .add => .plusAssign
  | .sub => .minusAssign
  | .mul => .starAssign
  | .div => .slashAssign
  | .rem => .percentAssign
  | .and => .ampAssign
  | .or => .pipeAssign
  | .xor => .caretAssign
  | .shl => .shlAssign
  | .shr => .shrAssign
  | .andNot => .andNotAssign

/-- The spelling of an operator. -/
def text (op : AssignOp) : String := op.mark.text

/-- The operator a token is after the left-hand side. -/
def ofToken? : Token → Option AssignOp
  | .mark .define => some .define
  | .mark .assign => some .assign
  | .mark .plusAssign => some .add
  | .mark .minusAssign => some .sub
  | .mark .starAssign => some .mul
  | .mark .slashAssign => some .div
  | .mark .percentAssign => some .rem
  | .mark .ampAssign => some .and
  | .mark .pipeAssign => some .or
  | .mark .caretAssign => some .xor
  | .mark .shlAssign => some .shl
  | .mark .shrAssign => some .shr
  | .mark .andNotAssign => some .andNot
  | _ => none

/-- Whether an operator may introduce a range clause. -/
def introducesRange : AssignOp → Bool
  | .define | .assign => true
  | _ => false

end AssignOp

/-- Whether a statement steps its operand up or down. -/
inductive StepOp where
  | increment | decrement
deriving DecidableEq, Repr

/-- The step a token asks for. -/
def StepOp.ofToken? : Token → Option StepOp
  | .mark .plusPlus => some .increment
  | .mark .minusMinus => some .decrement
  | _ => none

/-- The ways a channel may be used. -/
inductive ChanDir where
  | both | send | receive
deriving DecidableEq, Repr

/-- The words in front of a channel's element type, with a blank after them. -/
def ChanDir.text : ChanDir → String
  | .both => "chan "
  | .send => "chan<- "
  | .receive => "<-chan "

/-- The statements that jump. -/
inductive Jump where
  | break_ | continue_ | goto_ | fallthrough_
deriving DecidableEq, Repr

/-- The jump a token starts. -/
def Jump.ofToken? : Token → Option Jump
  | .keyword .break_ => some .break_
  | .keyword .continue_ => some .continue_
  | .keyword .goto_ => some .goto_
  | .keyword .fallthrough_ => some .fallthrough_
  | _ => none

/-- The keywords that start a declaration other than a function's. -/
inductive DeclWord where
  | import_ | const_ | type_ | var_
deriving DecidableEq, Repr

namespace DeclWord

/-- The keyword itself. -/
def keyword : DeclWord → Keyword
  | .import_ => .import_
  | .const_ => .const_
  | .type_ => .type_
  | .var_ => .var_

/-- The declaration keyword a token is. -/
def ofToken? : Token → Option DeclWord
  | .keyword .import_ => some .import_
  | .keyword .const_ => some .const_
  | .keyword .type_ => some .type_
  | .keyword .var_ => some .var_
  | _ => none

end DeclWord

end GoGloss
