/-!
# Options of the scan
-/
namespace ComponentLang

/-- How a word is compared with the spelling of the keywords. -/
inductive KeywordCase where
  | sensitive
  /-- The word is put into lower case first. -/
  | insensitive
  deriving DecidableEq, Repr

structure ScanConfig where
  /-- The number of errors after which one more ends the scan. -/
  maxErrors : Nat := 1000
  keywordCase : KeywordCase := .sensitive
  /-- Whether a decimal number may have an exponent. -/
  scientificNotation : Bool := true
  deriving DecidableEq, Repr

end ComponentLang
