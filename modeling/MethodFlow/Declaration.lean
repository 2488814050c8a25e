import MethodFlow.Dialect
import MethodFlow.Statement

/-!
Classes and their methods, as found in a source.
-/
namespace MethodFlow

structure Parameter where
  name : String
  type : String
  deriving DecidableEq, Repr

structure Method where
  name : String
  className : String
  visibility : String
  parameters : List Parameter
  /-- None for constructors. -/
  returnType : Option String
  line : Int
  statements : List Statement
  deriving Repr

def Method.fullName (method : Method) : String :=
  method.className ++ "." ++ method.name

structure Supertypes where
  superclass : Option String
  interfaces : List String
  deriving DecidableEq, Repr

structure ClassDecl where
  name : String
  supertypes : Supertypes
  methods : List Method
  line : Int
  package : Option String
  file : Option String
  dialect : Dialect
  deriving Repr

end MethodFlow
