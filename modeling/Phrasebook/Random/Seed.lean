/-! Seeds derived from other seeds: one for each name, and one for each attempt. -/

namespace Phrasebook.Seed

/-- The odd number by which every step multiplies. -/
def factor : UInt64 := 0x100000001b3

/-- Takes a byte into a seed. -/
def addByte (seed : UInt64) (byte : UInt8) : UInt64 := (seed ^^^ byte.toUInt64) * factor

/-- The seed for a name: the bytes of its UTF-8 form are taken in one by one. -/
def ofName (seed : UInt64) (name : String) : UInt64 :=
  name.toUTF8.data.toList.foldl addByte (seed ^^^ 0xcbf29ce484222325)

/-- The seed for a numbered attempt. -/
def ofAttempt (seed : UInt64) (attempt : UInt64) : UInt64 :=
  (seed ^^^ (attempt * 0x9e3779b97f4a7c15)) * factor

end Phrasebook.Seed
