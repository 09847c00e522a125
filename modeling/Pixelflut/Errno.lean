import Mathlib.Data.Int.Notation

/-!
# Error numbers

The numbers of `errno.h` that the program uses, as Linux has them. A function
that returns an error returns its negation.
-/

namespace Pixelflut

def ENOMEM : Int := 12

def EINVAL : Int := 22

def ENAMETOOLONG : Int := 36

end Pixelflut
