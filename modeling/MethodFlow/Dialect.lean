import MethodFlow.Text.Quoted

/-!
The two source languages.
-/
namespace MethodFlow

inductive Dialect where
  | java
  | kotlin
  deriving DecidableEq, Repr

namespace Dialect

def label : Dialect → String
  | java => "java"
  | kotlin => "kotlin"

structure Unknown where
  label : String

def Unknown.message (unknown : Unknown) : String :=
  Text.quoted unknown.label ++ " is not a valid Dialect"

def ofLabel (label : String) : Except Unknown Dialect :=
  if label = java.label then .ok java
  else if label = kotlin.label then .ok kotlin
  else .error ⟨label⟩

/-- Whatever is not a `.java` file is taken for Kotlin. -/
def ofPath (path : String) : Dialect :=
  if ".java".toList.isSuffixOf path.toList then java else kotlin

end Dialect
end MethodFlow
