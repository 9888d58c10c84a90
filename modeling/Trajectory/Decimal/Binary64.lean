import Trajectory.Decimal.Fixed
import Trajectory.Decimal.Shortest
import Trajectory.Number.Binary64

namespace Trajectory.Binary64

/-- The written form of a double, given the form of a positive one `m * 2 ^ e`. -/
def render (form : Nat → Int → List Char) (x : Float) : String :=
  let signed (sign : Float.Model.UnpackedFloat.Sign) (s : List Char) : String :=
    String.ofList (if isNegative sign then '-' :: s else s)
  match parts x with
  | .notANumber => "NaN"
  | .infinity sign => signed sign ['i', 'n', 'f']
  | .zero sign => signed sign (form 0 0)
  | .finite sign m e _ => signed sign (form m e)

/-- The fewest digits that read back as the same double, in positional notation. -/
def shortestForm (m : Nat) (e : Int) : List Char :=
  if m = 0 then ['0'] else (Decimal.shortest m e).positional

def fixedText (places : Nat) (x : Float) : String := render (Decimal.fixed places) x

instance : Numeral Float where
  text := render shortestForm

end Trajectory.Binary64
