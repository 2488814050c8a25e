import MethodFlow.Declaration
import MethodFlow.Text.Search

/-!
The statements of all methods, looked up by full name, `Class.method`. Names keep the order in which
they first came; of two methods of one name the later one counts. A listing shows what can be traced
of them, and by which methods the program can be entered.
-/
namespace MethodFlow

/-- The class and the method of a full name, cut at the last dot. A name without a dot belongs to no
known class. -/
def splitMethodName (fullName : String) : String × String :=
  let reversed := fullName.toList.reverse
  match reversed.dropWhile (· != '.') with
  | [] => ("Unknown", fullName)
  | _ :: className =>
    (String.ofList className.reverse, String.ofList (reversed.takeWhile (· != '.')).reverse)

def entryNames : List String :=
  ["onCreate", "onStart", "onResume", "onPause", "onStop", "onDestroy", "onActivityResult",
    "onRequestPermissionsResult", "main"]

def isEntryMethod (fullName : String) : Bool :=
  entryNames.any fun name => Text.hasInfix name.toList (splitMethodName fullName).2.toList

structure FunctionMap where
  entries : List (String × List Statement)
  deriving Repr

namespace FunctionMap

def keys (map : FunctionMap) : List String :=
  map.entries.map Prod.fst

def get? (map : FunctionMap) (key : String) : Option (List Statement) :=
  map.entries.lookup key

def body (map : FunctionMap) (key : String) : List Statement :=
  (map.get? key).getD []

def contains (map : FunctionMap) (key : String) : Bool :=
  map.keys.contains key

def insertEntry (key : String) (statements : List Statement) :
    List (String × List Statement) → List (String × List Statement)
  | [] => [(key, statements)]
  | entry :: entries =>
    if entry.1 = key then (key, statements) :: entries
    else entry :: insertEntry key statements entries

def insert (map : FunctionMap) (key : String) (statements : List Statement) : FunctionMap :=
  ⟨insertEntry key statements map.entries⟩

def ofList (entries : List (String × List Statement)) : FunctionMap :=
  entries.foldl (fun map (key, statements) => map.insert key statements) ⟨[]⟩

def methodsOf (classes : List ClassDecl) : List Method :=
  classes.flatMap ClassDecl.methods

def ofClasses (classes : List ClassDecl) : FunctionMap :=
  ofList ((methodsOf classes).map fun method => (method.fullName, method.statements))

def duplicates (classes : List ClassDecl) : List Method :=
  go [] (methodsOf classes)
where
  go (seen : List String) : List Method → List Method
    | [] => []
    | method :: methods =>
      let rest := go (method.fullName :: seen) methods
      if seen.contains method.fullName then method :: rest else rest

def namesMethod (name key : String) : Bool :=
  ('.' :: name.toList).isSuffixOf key.toList

/-- The method that a call of `name` goes to: the first one of that name in any class, or else the
one with that full name. -/
def callee? (map : FunctionMap) (name : String) : Option String :=
  map.keys.find? (namesMethod name) <|> if map.contains name then some name else none

def entryMethods (map : FunctionMap) : List String :=
  map.keys.filter isEntryMethod

end FunctionMap

structure Listing where
  entryMethods : List String
  allMethods : List String
  totalClasses : Int
  deriving DecidableEq, Repr

namespace Listing

def totalMethods (listing : Listing) : Nat :=
  listing.allMethods.length

def ofMap (map : FunctionMap) (totalClasses : Nat) : Listing :=
  ⟨map.entryMethods, map.keys, totalClasses⟩

end Listing

end MethodFlow
