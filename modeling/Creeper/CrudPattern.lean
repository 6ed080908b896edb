/-
How `extract_entity` and `extract_id` find what they return
(src/crud_request_handler.cc).

The two build a regular expression from the base URI, as it is, and
search the URI with it. Creeper.Crud computes the search for the bases
that stand for themselves and leaves the others open; here the pattern is
compiled, whatever the base is.
-/
import Creeper.Crud
import Creeper.Lib.RegexSyntax

namespace Creeper

open Lib

/-- `std::regex re(pattern)`, `std::regex_search(uri, match, re)` and
what is made of `match`: its first group, empty if there is no match or
no group. `none` if the constructor throws. -/
def searchPattern (pattern uri : Str) : Option Str :=
  (Pattern.compile pattern).map fun re =>
    match re.search uri with
    | some m => if re.groups + 1 > 1 then m.group 1 else []
    | none => []

/-- What `extract_entity` appends to the base. -/
def entitySuffix : Str := "/([^/]+)".toList

/-- What `extract_id` appends to the base. -/
def idSuffix : Str := "/[^/]+/([^/]+)".toList

/-- `extract_entity` of a handler with this base, `none` where it
throws. -/
def extractEntityUnder (baseUri uri : Str) : Option Str :=
  searchPattern (baseUri ++ entitySuffix) uri

/-- `extract_id` of a handler with this base, `none` where it throws. -/
def extractIdUnder (baseUri uri : Str) : Option Str :=
  searchPattern (baseUri ++ idSuffix) uri

end Creeper
