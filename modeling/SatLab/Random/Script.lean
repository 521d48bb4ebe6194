import SatLab.Random.KeyStream
/-!
Scripted sources hand out a fixed list of words over and over. A `Source` is either kind.
-/

set_option autoImplicit false
set_option relaxedAutoImplicit false

namespace SatLab.Random

/-- A list of words that repeats. -/
structure Script where
  words : Array UInt32
  size_pos : 0 < words.size
  used : Nat

namespace Script

def word (s : Script) : UInt32 × Script :=
  have : s.used % s.words.size < s.words.size := Nat.mod_lt _ s.size_pos
  (s.words[s.used % s.words.size], { s with used := s.used + 1 })

instance : WordSource Script := ⟨word⟩

end Script

inductive Source
  | keyed (s : KeyStream)
  | scripted (s : Script)

namespace Source

def word : Source → UInt32 × Source
  | .keyed s => let (w, s) := s.word; (w, .keyed s)
  | .scripted s => let (w, s) := s.word; (w, .scripted s)

instance : WordSource Source := ⟨word⟩

end Source

end SatLab.Random
