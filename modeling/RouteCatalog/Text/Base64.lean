/-! Bytes written in base 64. Characters outside the alphabet are passed over; padding ends the
text once it completes a group of four. -/

namespace RouteCatalog.Text.Base64

def digit? (c : Char) : Option Nat :=
  if 'A' ≤ c ∧ c ≤ 'Z' then some (c.toNat - 'A'.toNat)
  else if 'a' ≤ c ∧ c ≤ 'z' then some (c.toNat - 'a'.toNat + 26)
  else if '0' ≤ c ∧ c ≤ '9' then some (c.toNat - '0'.toNat + 52)
  else if c = '+' then some 62
  else if c = '/' then some 63
  else none

/-- Reads on within a group of four: `place` counts its digits so far, `left` is what they leave
for the next byte, `pads` counts the padding since the last digit and `read` holds the bytes in
reverse. -/
def decodeFrom (place left pads : Nat) (read : List UInt8) : List Char → Option (List UInt8)
  | [] => if place = 0 then some read.reverse else none
  | c :: cs =>
    if c = '=' then
      if place ≥ 2 then
        if place + pads + 1 ≥ 4 then some read.reverse else decodeFrom place left (pads + 1) read cs
      else decodeFrom place left pads read cs
    else
      match digit? c with
      | none => decodeFrom place left pads read cs
      | some d =>
        match place with
        | 0 => decodeFrom 1 d 0 read cs
        | 1 => decodeFrom 2 (d % 16) 0 (UInt8.ofNat (left * 4 + d / 16) :: read) cs
        | 2 => decodeFrom 3 (d % 4) 0 (UInt8.ofNat (left * 16 + d / 4) :: read) cs
        | _ => decodeFrom 0 0 0 (UInt8.ofNat (left * 64 + d) :: read) cs

def decode (cs : List Char) : Option (List UInt8) := decodeFrom 0 0 0 [] cs

end RouteCatalog.Text.Base64
