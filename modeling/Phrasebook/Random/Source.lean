/-! Sources of random choices. Whatever draws from a source does so through the two operations here, so
that it can be studied for all choices that a source might make. -/

namespace Phrasebook

/-- A source of random choices, which changes with each choice. -/
class RandomSource (Source : Type) where
  /-- Chooses an index below a number. -/
  index : (count : Nat) → 0 < count → Source → Fin count × Source
  /-- Chooses one of two equally likely cases. -/
  coin : Source → Bool × Source

end Phrasebook
