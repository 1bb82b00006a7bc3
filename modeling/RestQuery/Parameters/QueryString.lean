import RestQuery.Parameters
import RestQuery.Text.Cut
import RestQuery.Text.Percent

/-!
# Query strings

A query string is a sequence of pairs with `&` between them, after an optional
`?`. A pair is cut at its first `=`; without one it is a key with the empty
value. Empty pairs are passed over. Keys and values are decoded after the
cutting, so an escaped separator is an ordinary character.
-/

namespace RestQuery

def decodePair (raw : List Char) : String × String :=
  let pair := Text.cut '=' raw
  (.ofList (Text.decodeComponent pair.1), .ofList (Text.decodeComponent pair.2))

def rawPairs (query : List Char) : List (List Char) :=
  (query.splitOn '&').filter (· ≠ [])

def dropQuestionMark : List Char → List Char
  | '?' :: cs => cs
  | cs => cs

def Parameters.ofQueryString (query : String) : Parameters :=
  .ofPairs ((rawPairs (dropQuestionMark query.toList)).map decodePair)

end RestQuery
