import OrderWatch.Yaml.Tag

/-
  The tokens of a YAML text.

  Block collections have no brackets, so tokens stand for
  their starts and ends as well.  What cannot be read is the
  last token: it is only a fault in a document.

  Key definitions:
    * `Yaml.Style`
    * `Yaml.Token`
-/

namespace OrderWatch

namespace Yaml

/- The written form of a scalar. -/
inductive Style where
  | plain
  | quoted
  | literal
  | folded
deriving DecidableEq, Repr, Inhabited

inductive Token where
  /- The directive that gives a version. -/
  | version
  /- A directive that declares a handle. -/
  | handle (name stem : List Char)
  | documentStart
  | documentEnd
  | blockSequence
  | blockMapping
  | blockEnd
  | flowSequence
  | flowSequenceEnd
  | flowMapping
  | flowMappingEnd
  | blockEntry
  | flowEntry
  | key
  | value
  | alias (name : List Char)
  | anchor (name : List Char)
  | tag (tag : Tag)
  | scalar (style : Style) (text : List Char)
  | unreadable
deriving DecidableEq, Repr, Inhabited

namespace Token

def isDirective : Token → Bool
  | .version | .handle .. => true
  | _ => false

def isAlias : Token → Bool
  | .alias _ => true
  | _ => false

def isAnchor : Token → Bool
  | .anchor _ => true
  | _ => false

/- Whether a token shows by a mark of its own where it ends. -/
def isClosed : Token → Bool
  | .scalar .quoted _ => true
  | .flowSequenceEnd | .flowMappingEnd => true
  | _ => false

/- Whether a token stands before a node and belongs to it. -/
def isProperty : Token → Bool
  | .anchor _ | .tag _ => true
  | _ => false

end Token

end Yaml

end OrderWatch
