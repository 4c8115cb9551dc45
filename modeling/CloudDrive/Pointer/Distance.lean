/-!
# Distance of two points

The Euclidean distance of two points with double coordinates. The root of the sum of the squares is
rounded, and then corrected once by what its square is off; coordinates whose squares would overflow
or underflow are scaled by a power of two first, so nothing is lost on the way.

* `correctedRoot`: the root of a sum of two squares, with its correction.
* `length`: the length of any vector.
* `Point.distanceTo`: the distance of two points.
-/

namespace CloudDrive.Pointer

/-- The double `2 ^ exponent`, for an exponent from -1022 to 1023. -/
def powerOfTwo (exponent : Int) : Float :=
  Float.ofBits (UInt64.ofNat ((exponent + 1023).toNat <<< 52))

/-- By how much the square of `root` exceeds the sum of the squares of `large` and `small`. The
differences are taken with the coordinate that lies nearer to the root, so that they lose little. -/
def excess (root large small : Float) : Float :=
  if root ≤ 2.0 * small then
    let rest := root - small
    large * (2.0 * rest - large) + (rest - 2.0 * (large - small)) * rest
  else
    let rest := root - large
    2.0 * rest * (large - 2.0 * small) + ((4.0 * rest - small) * small + rest * rest)

/-- The root of the sum of the squares of `large` and `small`, which is not above `large`, if the
squares neither overflow nor underflow. -/
def correctedRoot (large small : Float) : Float :=
  let root := (large * large + small * small).sqrt
  root - excess root large small / (2.0 * root)

/-- The same root, with the coordinates scaled by a power of two and the root scaled back. -/
def scaledRoot (exponent : Int) (large small : Float) : Float :=
  correctedRoot (large * powerOfTwo exponent) (small * powerOfTwo exponent) * powerOfTwo (-exponent)

/-- The length of a vector with finite coordinates of these magnitudes. A coordinate too small to
show in the square of the other is added to it. -/
def finiteLength (large small : Float) : Float :=
  if small * powerOfTwo 54 ≤ large then large + small
  else if powerOfTwo 511 < large then scaledRoot (-600) large small
  else if small < powerOfTwo (-459) then scaledRoot 600 large small
  else correctedRoot large small

/-- The length of the vector `(x, y)`; it is infinite as soon as a coordinate is. -/
def length (x y : Float) : Float :=
  if x.isInf || y.isInf then 1.0 / 0.0
  else if x.isNaN || y.isNaN then 0.0 / 0.0
  else if x.abs < y.abs then finiteLength y.abs x.abs
  else finiteLength x.abs y.abs

/-- A point of the screen, in pixels. -/
structure Point where
  x : Float
  y : Float
  deriving Inhabited

/-- The distance of two points. -/
def Point.distanceTo (a b : Point) : Float := length (a.x - b.x) (a.y - b.y)

end CloudDrive.Pointer
