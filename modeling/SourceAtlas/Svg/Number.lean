import SourceAtlas.Decimal.Fixed

/-! Coordinates in a drawing: two decimals at most, and none that are only zeros. -/

namespace SourceAtlas.Svg

def trimZeros (numeral : String) : String :=
  let back := numeral.toList.reverse.dropWhile (· == '0')
  String.ofList (back.dropWhile (· == '.')).reverse

/-- A coordinate; zero has no sign, and stands for what is no finite number. -/
def number (value : Float) : String :=
  match Decimal.magnitude value.toBits with
  | .finite _ =>
    let s := trimZeros (Decimal.fixed 2 value.toBits)
    if s = "-0" then "0" else s
  | _ => "0"

def translate (x y : Float) : String := "translate(" ++ number x ++ "," ++ number y ++ ")"

end SourceAtlas.Svg
