import Phrasebook.Template

/-! Which decisions a percentage admits, and whether a content may be there or be left out. -/

namespace Phrasebook

/-- The decisions that a roll against a percentage can lead to, the positive one first. -/
def decisionOutcomes (percent : UInt8) : List Bool :=
  (if percent > 0 then [true] else []) ++ (if percent < 100 then [false] else [])

namespace Modifiers

/-- Whether a content is there after a decision. -/
def includedBy (modifiers : Modifiers) (decision : Bool) : Bool :=
  decision != modifiers.randomOpposite

/-- Whether some decision brings the content. -/
def canInclude (modifiers : Modifiers) : Bool :=
  !modifiers.isOptional || (decisionOutcomes modifiers.inclusionPercent).any modifiers.includedBy

/-- Whether some decision leaves the content out. -/
def canExclude (modifiers : Modifiers) : Bool :=
  modifiers.isOptional &&
    (decisionOutcomes modifiers.inclusionPercent).any (!modifiers.includedBy ·)

end Modifiers

end Phrasebook
