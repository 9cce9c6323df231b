import DepLock.Order.SortedList

/-!
# Punycode

`Punycode.encode` writes a text in ASCII: first the characters that are in ASCII, then for each of
the others, in the order of their code points, how far it is from the one before it. Distances are
numbers in base 36 whose digits come least first, and whose last digit is the one below a threshold
that adapts to the distances so far.
-/

namespace DepLock.Punycode

/-- The first code point outside ASCII. -/
def firstPoint : Nat := 0x80

/-- The digit of a number between 0 and 35. -/
def digit (n : Nat) : Char := if n < 26 then Char.ofNat (97 + n) else Char.ofNat (22 + n)

/-- The threshold of the digit that stands for multiples at the position `k`, between 1 and 26. -/
def threshold (bias k : Nat) : Nat :=
  if k ≤ bias then 1 else if bias + 26 ≤ k then 26 else k - bias

theorem threshold_pos (bias k : Nat) :
  0 < threshold bias k
  := by
  unfold threshold
  split
  · exact Nat.one_pos
  · split <;> omega

/-- The bias after a damped distance, counted from the position `k`. -/
def biasFrom (distance k : Nat) : Nat :=
  if 455 < distance then biasFrom (distance / 35) (k + 36)
  else k + 36 * distance / (distance + 38)
termination_by distance

/-- The bias for the next distance when `count` characters are written. The first distance is damped
more than others. -/
def nextBias (distance count : Nat) (isFirst : Bool) : Nat :=
  let damped := if isFirst then distance / 700 else distance / 2
  biasFrom (damped + damped / count) 0

/-- The digits of a distance from the position `k` on. -/
def digits (bias distance k : Nat) : List Char :=
  let t := threshold bias k
  if distance < t then [digit distance]
  else digit (t + (distance - t) % (36 - t)) :: digits bias ((distance - t) / (36 - t)) (k + 36)
termination_by distance
decreasing_by
  have := threshold_pos bias k
  exact Nat.lt_of_le_of_lt (Nat.div_le_self _ _) (by omega)

/-- What is written so far, the distance and the bias for what comes next, and how many characters
are written. -/
structure Progress where
  written : List Char := []
  distance : Nat := 0
  bias : Nat := 72
  count : Nat

namespace Progress

/-- The progress after a character of the text while those at `point` are written. -/
def pass (basicCount point : Nat) (p : Progress) (c : Nat) : Progress :=
  if c < point then { p with distance := p.distance + 1 }
  else if c = point then
    { written := p.written ++ digits p.bias p.distance 36
      distance := 0
      bias := nextBias p.distance (p.count + 1) (p.count = basicCount)
      count := p.count + 1 }
  else p

/-- The progress after all characters at the given points are written, of which none is below
`next`. -/
def passAll (basicCount : Nat) (text : List Nat) : List Nat → Nat → Progress → Progress
  | [], _, p => p
  | point :: points, next, p =>
    let p := { p with distance := p.distance + (point - next) * (p.count + 1) }
    let p := text.foldl (pass basicCount point) p
    passAll basicCount text points (point + 1) { p with distance := p.distance + 1 }

end Progress

/-- A text written in ASCII. -/
def encode (text : List Char) : List Char :=
  let basic := text.filter fun c => c.toNat < firstPoint
  let points := text.map (·.toNat)
  let others := sortDedup (points.filter (firstPoint ≤ ·))
  let progress := Progress.passAll basic.length points others firstPoint { count := basic.length }
  basic ++ (if basic = [] then [] else ['-']) ++ progress.written

end DepLock.Punycode
