/-! # Letter case

Names and operators are compared without regard to the case of ASCII letters; all other characters
stand for themselves alone. -/
namespace SqliteSyntax
set_option autoImplicit false

/-- Equality of texts that takes a small and a capital ASCII letter for the same. -/
def sameIgnoringCase (a b : String) : Bool :=
  a.toList.map Char.toLower == b.toList.map Char.toLower

end SqliteSyntax
