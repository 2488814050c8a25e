/-!
What a method does, as far as it is followed: calls, decisions and loops, with their bodies where
these are known.
-/
namespace MethodFlow

inductive LoopKind where
  | forLoop
  | whileLoop
  | doWhile
  deriving DecidableEq, Repr

def LoopKind.label : LoopKind → String
  | forLoop => "for"
  | whileLoop => "while"
  | doWhile => "do_while"

inductive Statement where
  | call (name : String) (line : Int) (receiver : Option String)
  | branch (condition : String) (line : Int) (whenTrue whenFalse : List Statement)
  | loop (kind : LoopKind) (condition : String) (line : Int) (body : List Statement)
  /-- A value of another type, which is an error once it is reached. -/
  | unsupported (typeName : String)
  deriving Repr, BEq, Inhabited

structure UnsupportedStatement where
  typeName : String
  deriving DecidableEq, Repr

def UnsupportedStatement.message (error : UnsupportedStatement) : String :=
  "Unsupported statement type: " ++ error.typeName

end MethodFlow
