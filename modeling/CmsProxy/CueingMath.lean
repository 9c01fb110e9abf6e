/-
`CueingMathCpp.cpp`: angles and ranges from Cartesian coordinates, and back.

The functions are translated operation by operation, since every intermediate
result of the original is a `float`. The output parameters of the original are
the fields of `Target`; the incoming value of `az` is an argument, because one
branch of the original leaves it alone on the way (it is overwritten at the end
on every path). `polar2catesian` is not called by the converter. `Polar2D`, which
nothing calls, is left out.
-/
import CmsProxy.Interfaces

set_option autoImplicit false

namespace CmsProxy.CueingMath

open Interfaces Runs

section

variable {F : Type} [CFloat F]

/-- The literal `n.0f`. -/
abbrev whole (F : Type) [CFloat F] (n : ℕ) : F := CFloat.literal n 0

/-- `constexpr float kPi = 3.14159265358979323846f`. -/
def kPi (F : Type) [CFloat F] : F := CFloat.literal 314159265358979323846 20

/-- The first loop of `mod360`: `while (angleDeg < 0.0f) angleDeg += 360.0f`. -/
def raiseLoop (fuel : ℕ) (angleDeg : F) : Option F :=
  whileLoop (fun a => decide (a < whole F 0)) (fun a => a + whole F 360) fuel angleDeg

/-- The second loop: `while (angleDeg >= 360.0f) angleDeg -= 360.0f`. -/
def lowerLoop (fuel : ℕ) (angleDeg : F) : Option F :=
  whileLoop (fun a => decide (whole F 360 ≤ a)) (fun a => a - whole F 360) fuel angleDeg

/-- `mod360`; `none` while one of the loops is still running. -/
def mod360 (fuel : ℕ) (angleDeg : F) : Option F :=
  (raiseLoop fuel angleDeg).bind (lowerLoop fuel)

/-- `rad2deg`. -/
def rad2deg (angleRad : F) : F := angleRad * whole F 180 / kPi F

/-- The output parameters of `cartesian2target`. -/
structure Target (F : Type) where
  az : F
  el : F
  range : F
  azAbs : F

/-- `cartesian2target`. -/
def cartesian2target (rt : Runtime F) (x y z az : F) (isTrueB : Bool)
    (crpX crpY crpZ heading : F) : Option (Target F) := do
  let x := x - crpX
  let y := y - crpY
  let z := z - crpZ
  let range := rt.sqrt (x * x + y * y + z * z)
  -- azimuth in the nautical convention
  let goniometricAngle := rad2deg (rt.atan2 y x)
  let tempAng ← mod360 rt.fuel (whole F 90 - goniometricAngle)
  let azAbs := tempAng
  -- `az` is assigned in the first branch here and again below, on every path
  let (_az, azAbs) :=
    if whole F 180 < azAbs then (azAbs - whole F 360, azAbs)
    else if azAbs < whole F 0 - whole F 180 then (az, azAbs + whole F 360)
    else (az, azAbs)
  let az ←
    if isTrueB then do
      let az ← mod360 rt.fuel (tempAng - heading)
      pure (if whole F 180 < az then az - whole F 360
        else if az < whole F 0 - whole F 180 then az + whole F 360
        else az)
    else pure tempAng
  let projectedRange := rt.sqrt (x * x + y * y)
  let el := rad2deg (rt.atan2 z projectedRange)
  pure { az := az, el := el, range := range, azAbs := azAbs }

/-- `std::cos(float)` and `std::sin(float)`, which only the next function calls. -/
structure Trigonometry (F : Type) where
  cos : F → F
  sin : F → F

/-- The output parameters of `polar2catesian`. -/
structure Point (F : Type) where
  x : F
  y : F
  z : F

/-- `polar2catesian`. The relative bearing is computed and not used. -/
def polar2catesian (rt : Runtime F) (trig : Trigonometry F) (bearing range : F) (isTrueB : Bool)
    (heading : F) : Option (Point F) := do
  let z := whole F 0
  let _relBearing ← if isTrueB then mod360 rt.fuel (bearing - heading) else pure bearing
  let tempAng := whole F 90 - bearing
  let goniometricAngle :=
    if tempAng < whole F 0 then whole F 2 * kPi F + tempAng
    else if whole F 2 * kPi F ≤ tempAng then tempAng - whole F 2 * kPi F
    else tempAng
  let x := range * trig.cos goniometricAngle
  let y := range * trig.sin goniometricAngle
  pure { x := x, y := y, z := z }

/-- `normalize_0_360` of `BinaryConverter.cpp`. -/
def normalize_0_360 (rt : Runtime F) (angleDeg : F) : Option F := mod360 rt.fuel angleDeg

/-- `encode_delta_u16` of `BinaryConverter.cpp`: the rounded angle, cut to `int`
and masked to its low 16 bits. -/
def encode_delta_u16 (rt : Runtime F) (angleDeg : F) : Option UInt16 := do
  let normalized ← normalize_0_360 rt angleDeg
  let rounded := rt.lround normalized
  pure (UInt16.ofInt rounded)

end

end CmsProxy.CueingMath
