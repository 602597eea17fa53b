/-!
Search with regular expressions. It comes from a package of its own, so it is a parameter of whatever
searches; only what a search is asked for is told here.
-/

namespace StyleFunctions.Search

/-- A compiled expression. `replaceAll` puts something else in the place of what is found. What that
is may depend on what was found before, so the replacer has a state. -/
structure Searcher where
  replaceAll : {σ : Type} → (List Char → StateM σ (List Char)) → List Char → StateM σ (List Char)

/-- A package for regular expressions. -/
structure Engine where
  /-- Characters that are folded to the same one are the same without regard to case. -/
  fold : Char → Char
  /-- A searcher, or what is wrong with the expression. -/
  compile : String → Except String Searcher

end StyleFunctions.Search
