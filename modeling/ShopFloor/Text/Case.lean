/-!
# Letters of either case

Only the letters `A` to `Z` have a lower case here, so no other character of a text is ever changed
and a text keeps its length.
-/

namespace ShopFloor.Text

/-- A text with the letters `A` to `Z` in lower case. -/
def lower (text : String) : String :=
  String.ofList (text.toList.map Char.toLower)

/-- The characters of a text in lower case. -/
theorem toList_lower (text : String) : (lower text).toList = text.toList.map Char.toLower :=
  String.toList_ofList

end ShopFloor.Text
