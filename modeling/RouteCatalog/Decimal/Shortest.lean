/-! The fewest decimal digits that read back as a given binary floating-point number, found by
exact arithmetic on naturals. A finite value is `m * 2 ^ q`; the reals that round to it form an
interval around it whose ends belong to it exactly when `m` is even. -/

namespace RouteCatalog.Decimal

/-- The value `m * 2 ^ q`. At a power of two the neighbour below is only half as far away as the
neighbour above. -/
structure Binary where
  m : Nat
  q : Int
  nearBelow : Bool
  deriving DecidableEq, Repr

/-- The value `digits * 10 ^ scale`. -/
structure Scaled where
  digits : Nat
  scale : Int
  deriving DecidableEq, Repr

/-- The magnitude of a finite number with these 64 bits. -/
def Binary.ofBits (bits : UInt64) : Binary :=
  let exponent := (bits >>> 52 &&& 0x7FF).toNat
  let fraction := (bits &&& 0xFFFFFFFFFFFFF).toNat
  if exponent = 0 then ⟨fraction, -1074, false⟩
  else ⟨0x10000000000000 + fraction, exponent - 1075, fraction == 0 && exponent > 1⟩

/-- Compares `a * 10 ^ i` with `b * 2 ^ j`. -/
def compareScaled (a : Nat) (i : Int) (b : Nat) (j : Int) : Ordering :=
  compare (a * Nat.pow 10 i.toNat * Nat.pow 2 (-j).toNat)
    (b * Nat.pow 2 j.toNat * Nat.pow 10 (-i).toNat)

/-- Whether a decimal lies among the reals that round to `x`. -/
def Binary.readsBack (x : Binary) (d : Scaled) : Bool :=
  let lower := compareScaled d.digits d.scale (4 * x.m - if x.nearBelow then 1 else 2) (x.q - 2)
  let upper := compareScaled d.digits d.scale (4 * x.m + 2) (x.q - 2)
  if x.m % 2 = 0 then lower != .lt && upper != .gt else lower == .gt && upper == .lt

/-- The numerator and denominator of `x / 10 ^ scale`. -/
def Binary.over (x : Binary) (scale : Int) : Nat × Nat :=
  (x.m * Nat.pow 2 x.q.toNat * Nat.pow 10 (-scale).toNat,
    Nat.pow 2 (-x.q).toNat * Nat.pow 10 scale.toNat)

/-- The least power of ten above `x`, at most one too large before it is corrected. -/
def Binary.magnitude (x : Binary) : Int :=
  let (num, den) := x.over 0
  let guess : Int := (Nat.toDigits 10 num).length - (Nat.toDigits 10 den).length
  if (x.over guess).1 < (x.over guess).2 then guess else guess + 1

/-- The neighbour of `x` on the grid of multiples of `10 ^ scale` that reads back as `x`: the
nearer one if both do, and the one with an even last digit if both are as near. -/
def Binary.onGrid (x : Binary) (scale : Int) : Option Scaled :=
  let (num, den) := x.over scale
  let below := num / den
  let remainder := num % den
  match x.readsBack ⟨below, scale⟩, x.readsBack ⟨below + 1, scale⟩ with
  | true, false => some ⟨below, scale⟩
  | false, true => some ⟨below + 1, scale⟩
  | true, true =>
    if 2 * remainder < den ∨ 2 * remainder = den ∧ below % 2 = 0 then some ⟨below, scale⟩
    else some ⟨below + 1, scale⟩
  | false, false => none

/-- Moves the trailing zeros of the digits into the scale. -/
def Scaled.strip (d : Scaled) : Scaled :=
  if h : d.digits ≠ 0 ∧ d.digits % 10 = 0 then strip ⟨d.digits / 10, d.scale + 1⟩ else d
termination_by d.digits
decreasing_by exact Nat.div_lt_self (Nat.pos_of_ne_zero h.1) (by decide)

/-- The shortest decimal that reads back as `x`; seventeen digits are always enough. -/
def Binary.shortest (x : Binary) : Scaled :=
  if x.m = 0 then ⟨0, 0⟩
  else
    let magnitude := x.magnitude
    match (List.range 17).findSome? fun n => x.onGrid (magnitude - (n + 1 : Nat)) with
    | some d => d.strip
    | none => ⟨(x.over (-1100)).1 / (x.over (-1100)).2, -1100⟩

end RouteCatalog.Decimal
