import ExprTyping.Decimal.Shortest

namespace ExprTyping

/-- Whether `.0` is written after a whole number, and the range of positional notation: a nonzero
number is written with an exponent when its first digit stands at a power of ten below
`positionalFrom` or above `positionalTo`. -/
structure Layout where
  wholeFraction : Bool
  positionalFrom : Option Int
  positionalTo : Option Int

namespace Layout

def zeros (n : Nat) : String := String.ofList (List.replicate n '0')

def significant (n : Nat) : List Char :=
  ((Nat.toDigits 10 n).reverse.dropWhile (· == '0')).reverse

def positional (l : Layout) (ds : List Char) (lead : Int) : String :=
  let whole := (lead + 1).toNat
  if lead < 0 then "0." ++ zeros (-lead - 1).toNat ++ String.ofList ds
  else if ds.length ≤ whole then
    String.ofList ds ++ zeros (whole - ds.length) ++ if l.wholeFraction then ".0" else ""
  else String.ofList (ds.take whole) ++ "." ++ String.ofList (ds.drop whole)

def scientific (ds : List Char) (lead : Int) : String :=
  let fraction :=
    match ds.drop 1 with
    | [] => ""
    | rest => "." ++ String.ofList rest
  String.ofList (ds.take 1) ++ fraction ++ "e" ++ toString lead

def magnitude (l : Layout) (x : Magnitude) : String :=
  if x.mantissa = 0 then if l.wholeFraction then "0.0" else "0"
  else
    let d := x.shortest
    let lead := d.exponent + ((Nat.toDigits 10 d.digits).length : Int) - 1
    let ds := significant d.digits
    let small := l.positionalFrom.any (lead < ·)
    let large := l.positionalTo.any (· < lead)
    if small || large then scientific ds lead else l.positional ds lead

def write (l : Layout) (x : Double) : String :=
  if x.isNaN then "NaN"
  else
    let sign := if x.isNegative then "-" else ""
    match x.finite? with
    | none => sign ++ "inf"
    | some v => sign ++ l.magnitude v

end Layout

end ExprTyping
