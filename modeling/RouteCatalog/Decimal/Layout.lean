import RouteCatalog.Decimal.Shortest

/-! How numbers are laid out as text. A floating-point number has its shortest digits, in
positional notation from `10 ^ -4` up to `10 ^ 16` and in exponent notation outside, and always
shows a fraction or an exponent. -/

namespace RouteCatalog.Decimal

def natDigits (n : Nat) : List Char := Nat.toDigits 10 n

def natText (n : Nat) : String := String.ofList (natDigits n)

def intText (n : Int) : String :=
  String.ofList (if n < 0 then '-' :: natDigits n.natAbs else natDigits n.natAbs)

/-- A number of at least `width` digits, filled up with zeros. -/
def padded (width n : Nat) : String :=
  String.ofList (List.replicate (width - (natDigits n).length) '0' ++ natDigits n)

/-- Lays out digits whose decimal point stands after the first `point` of them. -/
def positional (digits : List Char) (point : Int) : List Char :=
  if point ≤ 0 then '0' :: '.' :: (List.replicate (-point).toNat '0' ++ digits)
  else if digits.length ≤ point.toNat then
    digits ++ List.replicate (point.toNat - digits.length) '0' ++ ['.', '0']
  else digits.take point.toNat ++ '.' :: digits.drop point.toNat

/-- Lays out digits as one digit, a fraction and a signed exponent of at least two digits. -/
def scientific (digits : List Char) (exponent : Int) : List Char :=
  let fraction := if digits.length ≤ 1 then [] else '.' :: digits.drop 1
  digits.take 1 ++ fraction ++ ['e', if exponent < 0 then '-' else '+'] ++
    (padded 2 exponent.natAbs).toList

def magnitudeText (d : Scaled) : List Char :=
  let digits := natDigits d.digits
  let point : Int := digits.length + d.scale
  if -4 < point ∧ point ≤ 16 then positional digits point else scientific digits (point - 1)

def floatText (x : Float) : String :=
  let bits := x.toBits
  if x.isNaN then "nan"
  else if x.isInf then if x < 0 then "-inf" else "inf"
  else
    let sign := if bits >>> 63 = 0 then [] else ['-']
    String.ofList (sign ++ magnitudeText (Binary.ofBits bits).shortest)

end RouteCatalog.Decimal
