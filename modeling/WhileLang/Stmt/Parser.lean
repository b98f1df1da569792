import WhileLang.ParseError
import WhileLang.Stmt

/-!
# Reading programs

A program is read token by token, and what has been read of it is an `Unfinished`
program: the place where the next token goes, inside what is open around it.  A
`StmtContext` is a statement with one statement missing, an `ExprContext` a statement
with one expression missing.  Contexts hold only what belongs there, so every
unfinished program can be finished in some way.

`Unfinished.step` puts the next token in its place, or refuses it.  An expression ends
where a token comes that is no operator, and what is open inside it is closed then
(`ExprContext.plug`); in the same way statements that wait for the rest of their
chain are closed by the token behind the chain (`StmtContext.plug`).

The token stream of a text is followed only as far as the tokens fit, so of several faults in
a text the first one is reported, whether a token is missing or unexpected.
-/

namespace WhileLang

inductive StmtContext where
  /-- The statement is the whole program. -/
  | top
  | thenOf (cond : Expr) (outer : StmtContext)
  | elseOf (cond : Expr) (yes : Stmt) (outer : StmtContext)
  | bodyOf (cond : Expr) (outer : StmtContext)
  /-- The statement comes after `first` and a semicolon. -/
  | after (first : Stmt) (outer : StmtContext)
  deriving DecidableEq

inductive ExprContext where
  | assigned (name : String) (outer : StmtContext)
  | branchCond (outer : StmtContext)
  | loopCond (outer : StmtContext)
  | paren (outer : ExprContext)
  /-- The expression is the right operand of `left op`. -/
  | rightOf (left : Expr) (op : Operator) (outer : ExprContext)
  deriving DecidableEq

/-- A program up to some token. -/
inductive Unfinished where
  /-- A statement comes next. -/
  | statement (ctx : StmtContext)
  /-- The mark `:=` of an assignment comes next. -/
  | target (name : String) (ctx : StmtContext)
  /-- An operand comes next. -/
  | operand (ctx : ExprContext)
  /-- An operand is complete. -/
  | operator (e : Expr) (ctx : ExprContext)
  /-- A statement other than a chain is complete. -/
  | follow (s : Stmt) (ctx : StmtContext)
  deriving DecidableEq

/-- The whole expression that ends with `e`, and the place of that expression. -/
def ExprContext.plug (e : Expr) : ExprContext → Expr × ExprContext
  | .rightOf left op outer => outer.plug (.bin op left e)
  | ctx => (e, ctx)

/-- The whole chain that ends with `s`, and the place of that chain. -/
def StmtContext.plug (s : Stmt) : StmtContext → Stmt × StmtContext
  | .after first outer => outer.plug (.seq first s)
  | ctx => (s, ctx)

namespace Unfinished

/-- The unfinished program after a token that follows a complete statement. -/
def stepFollow (s : Stmt) (ctx : StmtContext) : Token → Option Unfinished
  | .semi => some (.statement (.after s ctx))
  | .keyword .elseWord =>
    match ctx.plug s with
    | (yes, .thenOf cond outer) => some (.statement (.elseOf cond yes outer))
    | _ => none
  | .keyword .endifWord =>
    match ctx.plug s with
    | (no, .elseOf cond yes outer) => some (.follow (.branch cond yes no) outer)
    | _ => none
  | .keyword .endwhileWord =>
    match ctx.plug s with
    | (body, .bodyOf cond outer) => some (.follow (.loop cond body) outer)
    | _ => none
  | _ => none

def stepOperator (e : Expr) (ctx : ExprContext) (t : Token) : Option Unfinished :=
  match t with
  | .op op => some (.operand (.rightOf e op ctx))
  | t =>
    match ctx.plug e, t with
    | (e, .assigned name outer), t => stepFollow (.assign name e) outer t
    | (e, .branchCond outer), .keyword .thenWord => some (.statement (.thenOf e outer))
    | (e, .loopCond outer), .keyword .doWord => some (.statement (.bodyOf e outer))
    | (e, .paren outer), .rparen => some (.operator e outer)
    | _, _ => none

def stepOperand (ctx : ExprContext) : Token → Option Unfinished
  | .var name => some (.operator (.var name) ctx)
  | .number n => some (.operator (.lit (.int n)) ctx)
  | .keyword .trueWord => some (.operator (.lit (.bool true)) ctx)
  | .keyword .falseWord => some (.operator (.lit (.bool false)) ctx)
  | .lparen => some (.operand (.paren ctx))
  | _ => none

def stepStatement (ctx : StmtContext) : Token → Option Unfinished
  | .var name => some (.target name ctx)
  | .keyword .ifWord => some (.operand (.branchCond ctx))
  | .keyword .whileWord => some (.operand (.loopCond ctx))
  | .keyword .skipWord => some (.follow .skip ctx)
  | _ => none

/-- The unfinished program after one more token, if the token fits. -/
def step (u : Unfinished) (t : Token) : Option Unfinished :=
  match u with
  | .statement ctx => stepStatement ctx t
  | .target name ctx => if t = .assign then some (.operand (.assigned name ctx)) else none
  | .operand ctx => stepOperand ctx t
  | .operator e ctx => stepOperator e ctx t
  | .follow s ctx => stepFollow s ctx t

/-- The program, if nothing is missing. -/
def finish? : Unfinished → Option Stmt
  | .operator e ctx =>
    match ctx.plug e with
    | (e, .assigned name outer) => whole? (outer.plug (.assign name e))
    | _ => none
  | .follow s ctx => whole? (ctx.plug s)
  | _ => none
where
  /-- The statement, if it stands nowhere inside another one. -/
  whole? : Stmt × StmtContext → Option Stmt
    | (s, .top) => some s
    | _ => none

def start : Unfinished := .statement .top

/-! ### Reading a text -/

/-- The program that a token stream completes, or the fault that stops the reading and its
offset. -/
def read (u : Unfinished) : TokenStream → Except (ParseFault × Nat) Stmt
  | .finish offset _ =>
    match u.finish? with
    | some s => .ok s
    | none => .error (.unexpectedEnd, offset)
  | .fault cause offset => .error (.lexical cause, offset)
  | .token t offset _ rest =>
    match u.step t with
    | some u => u.read rest
    | none => .error (.unexpected t, offset)

end Unfinished

namespace Stmt

def parse (text : String) : Except ParseError Stmt :=
  match Unfinished.start.read (TokenStream.ofString text) with
  | .ok s => .ok s
  | .error (fault, offset) => .error ⟨fault, offset, Position.ofOffset text.toList offset⟩

end Stmt

end WhileLang
