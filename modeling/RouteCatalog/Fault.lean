/-! Faults: operations on document values that have no result. -/

namespace RouteCatalog

inductive Fault where
  /-- A definition refers to itself without end. -/
  | endless
  /-- The parts of a value are asked for that has none. -/
  | notIterable
  /-- The entries of a value are asked for that is no mapping. -/
  | notMapping
  /-- A collection stands where a key is needed. -/
  | notKey
  /-- A value that is no text is put together with texts or read as one. -/
  | notText
  /-- A value that is no text is asked how it begins. -/
  | noBeginning
  /-- A value that is neither a number nor a text is counted with. -/
  | notNumber
  /-- A text is no number or has too many digits, or a number has no whole part. -/
  | badNumber
  /-- An infinite number has no whole part. -/
  | infiniteNumber
  /-- A reference has no name. -/
  | noName
  /-- A mapping is made from items that are not pairs. -/
  | notPairs
  /-- A field is named by something other than a text. -/
  | badField
  /-- A tagged scalar is written as no value of its type. -/
  | badScalar
  /-- A tagged scalar stands for no truth value. -/
  | badTruth
  /-- A tagged scalar has no digits. -/
  | noDigits
  /-- A tagged scalar is no date. -/
  | badDate
  /-- A character is given by a number beyond the last code point. -/
  | badCodePoint
  /-- A character is given by a number of more than 31 bits. -/
  | hugeCodePoint
  /-- A path holds the null character. -/
  | badPath
  /-- Bytes are no text. -/
  | notUnicode
  deriving DecidableEq, Repr

end RouteCatalog
