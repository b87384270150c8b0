import CircuitCache.Yaml.Tag

/-!
# Tokens

What a text is made of: scalars, marks, and the places where block collections start and end, which
only columns show.  A key is announced by a token of its own even where nothing is written for it.
-/

namespace CircuitCache.Yaml

/-- How a scalar is written. -/
inductive ScalarStyle where
  | plain
  | quoted
  | literal
  | folded
  deriving DecidableEq, Repr

/-- A token.  Anchors and the aliases that refer to them have numbers in place of names. -/
inductive Token where
  | directive (d : Directive)
  | documentStart
  | documentEnd
  | blockSequence
  | blockMapping
  | blockEnd
  | flowSequence
  | flowSequenceEnd
  | flowMapping
  | flowMappingEnd
  /-- The dash before an item of a block sequence. -/
  | item
  | comma
  | key
  | value
  | anchor (number : Nat)
  | alias (number : Nat)
  | tag (handle : String) (part : Bytes)
  | scalar (style : ScalarStyle) (text : String)
  deriving DecidableEq, Repr

end CircuitCache.Yaml
