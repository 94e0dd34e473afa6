namespace ReorgSync.Text

/-! Comparison of texts without regard to the case of the letters A to Z. Hex
texts are the intended use, so letters outside ASCII are compared exactly. -/

/-- Every letter from A to Z in lower case, all other characters unchanged. -/
def foldCase (text : String) : String :=
  String.ofList (text.toList.map Char.toLower)

/-- Equality up to the case of the letters A to Z. -/
def sameFolded (left right : String) : Bool :=
  foldCase left == foldCase right

/-- Only ASCII letters fold. -/
example : foldCase "0xAbÉ" = "0xabÉ" := by rfl

end ReorgSync.Text
