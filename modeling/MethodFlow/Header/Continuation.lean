import MethodFlow.Header.Reading

/-!
Headers that go on in the next line.
-/
namespace MethodFlow.Header

open Text

def clauseWords : List String :=
  ["extends", "implements", "permits", "throws", "where"]

def startsAsMore (line : List Char) : Bool :=
  line.head?.any "\x7b:,)(.<=".toList.contains ||
    (clauseWords ++ ["constructor"]).any fun word => (after? word.toList line).any wordEnds

def endsInClauseWord (reversed : List Char) : Bool :=
  clauseWords.any fun word => (after? word.toList.reverse reversed).any wordEnds

/-- Whether a header ends in what needs more. A line feed at its very end does not count. -/
def endsOpen (header : List Char) : Bool :=
  let reversed := match header.reverse with
    | '\n' :: rest => rest
    | reversed => reversed
  reversed.head?.any ",:(<.=".toList.contains || endsInClauseWord reversed

def continues (header line : List Char) : Bool :=
  header.count ')' < header.count '(' || startsAsMore line || endsOpen header

end MethodFlow.Header
