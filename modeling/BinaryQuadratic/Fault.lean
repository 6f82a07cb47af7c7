import BinaryQuadratic.Decimal.Read
import BinaryQuadratic.Decimal.Write

/-!
# Faults

Everything that can be refused, by cause, and its wording in one place.

* `Fault`: one constructor for each cause, holding what the wording mentions;
* `Fault.message`: the wording.
-/

namespace BinaryQuadratic

/-- Why a request is refused. Values that appear in a message are held as they are shown. -/
inductive Fault
  | unevenArray (extents : List Nat)
  | deepArray (limit : Nat)
  | raggedRows (shown : String)
  | tooManyAxes (axes : Nat)
  | negativeShape
  | flatParts
  | offsetCount (found expected : Nat)
  | offsetStart
  | entryCount
  | offsetEnd
  | positionTooLarge
  | noDimensions
  | noExtent
  | coordinateCount
  | unsizedValues
  | flatCoordinates
  | coordinateTooLarge (axis : Nat) (largest : Int) (extent : Nat)
  | coordinateNegative (axis : Nat) (least : Int)
  | noShape
  | diagonalRank
  | diagonalCount (found expected : Nat)
  | repeatedOffset
  | diagonalOutside
  | notSquare (height width : Nat)
  | linearLength (size found : Nat)
  | pointLength (size found : Nat)
  | pointRows (size found : Nat)
  | pointRank
  | scalarPoint
  | nestedPoint (outer inner : Nat)
  | manyValues
  | notInteger (base : Nat) (shown : String)
  | integerTooLong (digits : Nat)
  | unwritableInteger
  | notIntegral (kind : String)
  | infiniteInteger
  | undefinedInteger
  | notFloat (shown : String)
  | notFloatCell (shown : String)
  | notReal (kind : String)
  | floatOverflow
  | notIterable (kind : String)
  | notPair (index : Nat)
  | pairLength (index length : Nat)
  | unhashable (kind : String)
  | incomparable (sign left right : String)
  | inoperable (sign left right : String)
  | notConcatenable (kind other : String)
  | unknownStrategy (shown : String)
  | unknownOptions (shown : List String)
  | exhausted (size : Nat)
  | outOfBounds (index : Int) (size : Nat)
  | wideIndex
  | unusableIndex
  | negativeSeed
  | unusableSeed (shown : String)
  | fractionalSeed
  | unknownSeedText
  | unsizedSeed (kind : String)
  | negativeCount (shown : String)
  | unrepeatable (kind : String)
  | negativeSize
  | wideSize
  | largeSize
  | wideLength
  | noMemory
  | sparsityRange (shown : String)
  | boundIndex
  | wideBoundIndex
  | scalarStart
  | nestedStart
  | startLength
  | startProduct (found : Nat)
  | emptyBox
  | boundlessRange (negative : Bool)
  | nothingFree
  | unknownMethod (name : String)
  | doglegHessian
  | exactHessian
  | curvatureRequired (region : String)
  | lineSearchSteps
  | notCount (kind : String)
  | wideCount
  | largeCount
  | notNumber (kind : String)
  | optionNames
  | repeatedKeyword (routine name : String)
  | repeatedArgument (routine name : String)
  | fractionalShape (shown : String)
  | unevenHistory (size width : Nat)
  | historyShape
  deriving DecidableEq, Repr

namespace Fault

private def nat (n : Nat) : String := Decimal.integer n

/-- Extents between commas; a single one is followed by a comma. -/
private def shape : List Nat → String
  | [n] => nat n ++ ","
  | extents => ", ".intercalate (extents.map nat)

private def digitsExceeded : String :=
  "Exceeds the limit (" ++ nat Decimal.digitLimit ++ " digits) for integer string conversion"

private def raiseLimit : String := "; use sys.set_int_max_str_digits() to increase the limit"

def message : Fault → String
  | unevenArray extents =>
    "setting an array element with a sequence. The requested array has an inhomogeneous shape "
      ++ "after " ++ nat extents.length ++ " dimensions. The detected shape was ("
      ++ shape extents ++ ") + inhomogeneous part."
  | deepArray limit =>
    "setting an array element with a sequence. The requested array would exceed the maximum "
      ++ "number of dimension of " ++ nat limit ++ "."
  | raggedRows shown => "unrecognized csr_matrix constructor input: " ++ shown
  | tooManyAxes axes => "CSR arrays don't yet support " ++ nat axes ++ "D."
  | negativeShape => "'shape' elements cannot be negative"
  | flatParts => "data, indices, and indptr should be 1-D"
  | offsetCount found expected =>
    "index pointer size " ++ nat found ++ " should be " ++ nat expected
  | offsetStart => "index pointer should start with 0"
  | entryCount => "indices and data should have the same size"
  | offsetEnd =>
    "Last value of index pointer should be less than the size of index and data arrays"
  | positionTooLarge => "indices must be smaller than the extent of their axis"
  | noDimensions => "unable to infer matrix dimensions"
  | noExtent => "cannot infer dimensions from zero sized index arrays"
  | unsizedValues => "len() of unsized object"
  | flatCoordinates => "coordinates and data arrays must be 1-D"
  | coordinateCount => "all index and data arrays must have the same length"
  | coordinateTooLarge axis largest extent =>
    "axis " ++ nat axis ++ " index " ++ Decimal.integer largest ++ " exceeds matrix dimension "
      ++ nat extent
  | coordinateNegative axis least =>
    "negative axis " ++ nat axis ++ " index: " ++ Decimal.integer least
  | noShape => "expected a shape argument"
  | diagonalRank => "data array must have rank 2"
  | diagonalCount found expected =>
    "number of diagonals (" ++ nat found ++ ") does not match the number of offsets ("
      ++ nat expected ++ ")"
  | repeatedOffset => "offset array contains duplicate values"
  | diagonalOutside => "Offset 0 (index 0) out of bounds"
  | notSquare height width =>
    "Q must be square, got shape (" ++ nat height ++ ", " ++ nat width ++ ")"
  | linearLength size found =>
    "Q is " ++ nat size ++ "x" ++ nat size ++ " but c has length " ++ nat found
  | pointLength size found =>
    "matmul: dimension mismatch with signature (n,k=" ++ nat size ++ "),(k=" ++ nat found
      ++ ",1?)->(n,1?)"
  | pointRows size found =>
    "matmul: dimension mismatch with signature (n,k=" ++ nat size ++ "),(k=" ++ nat found
      ++ ",m)->(n,m)"
  | pointRank => "could not interpret dimensions"
  | scalarPoint => "Scalar operands are not allowed, use '*' instead"
  | nestedPoint outer inner =>
    "matmul: Input operand 1 has a mismatch in its core dimension 0, with gufunc signature "
      ++ "(n?,k),(k,m?)->(n?,m?) (size " ++ nat outer ++ " is different from " ++ nat inner ++ ")"
  | manyValues => "only 0-dimensional arrays can be converted to Python scalars"
  | notInteger base shown => "invalid literal for int() with base " ++ nat base ++ ": " ++ shown
  | integerTooLong digits =>
    digitsExceeded ++ ": value has " ++ nat digits ++ " digits" ++ raiseLimit
  | unwritableInteger => digitsExceeded ++ raiseLimit
  | notIntegral kind =>
    "int() argument must be a string, a bytes-like object or a real number, not '" ++ kind ++ "'"
  | infiniteInteger => "cannot convert float infinity to integer"
  | undefinedInteger => "cannot convert float NaN to integer"
  | notFloat shown => "could not convert string to float: " ++ shown
  | notFloatCell shown => "could not convert string to float: np.str_(" ++ shown ++ ")"
  | notReal kind => "float() argument must be a string or a real number, not '" ++ kind ++ "'"
  | floatOverflow => "int too large to convert to float"
  | notIterable kind => "'" ++ kind ++ "' object is not iterable"
  | notPair index =>
    "cannot convert dictionary update sequence element #" ++ nat index ++ " to a sequence"
  | pairLength index length =>
    "dictionary update sequence element #" ++ nat index ++ " has length " ++ nat length
      ++ "; 2 is required"
  | unhashable kind => "unhashable type: '" ++ kind ++ "'"
  | incomparable sign left right =>
    "'" ++ sign ++ "' not supported between instances of '" ++ left ++ "' and '" ++ right ++ "'"
  | inoperable sign left right =>
    "unsupported operand type(s) for " ++ sign ++ ": '" ++ left ++ "' and '" ++ right ++ "'"
  | notConcatenable kind other =>
    "can only concatenate " ++ kind ++ " (not \"" ++ other ++ "\") to " ++ kind
  | unknownStrategy shown => shown ++ " is not a valid BranchStrategy"
  | unknownOptions shown => "Unknown solver options: [" ++ ", ".intercalate shown ++ "]"
  | exhausted size => "No variable to branch on: all " ++ nat size ++ " variables are fixed"
  | outOfBounds index size =>
    "index " ++ Decimal.integer index ++ " is out of bounds for axis 0 with size " ++ nat size
  | wideIndex => "Python int too large to convert to C long"
  | unusableIndex =>
    "only integers, slices (`:`), ellipsis (`...`), numpy.newaxis (`None`) and integer or "
      ++ "boolean arrays are valid indices"
  | negativeSeed => "expected non-negative integer"
  | unusableSeed shown =>
    "SeedSequence expects int or sequence of ints for entropy not " ++ shown
  | fractionalSeed => "seed must be integer"
  | unknownSeedText => "unrecognized seed string"
  | unsizedSeed kind => "object of type '" ++ kind ++ "' has no len()"
  | negativeCount shown => "num_points must be non-negative, got " ++ shown
  | unrepeatable kind => "can't multiply sequence by non-int of type '" ++ kind ++ "'"
  | negativeSize => "negative dimensions are not allowed"
  | wideSize => "Maximum allowed dimension exceeded"
  | largeSize =>
    "array is too big; `arr.size * arr.dtype.itemsize` is larger than the maximum possible size."
  | wideLength => "cannot fit 'int' into an index-sized integer"
  | noMemory => ""
  | sparsityRange shown => "sparsity must be in [0, 1], got " ++ shown
  | boundIndex => "list assignment index out of range"
  | wideBoundIndex => "cannot fit 'int' into an index-sized integer"
  | scalarStart =>
    "too many indices for array: array is 0-dimensional, but 1 were indexed"
  | nestedStart => "'x0' must only have one dimension."
  | startLength => "The number of bounds is not compatible with the length of `x0`."
  | startProduct found =>
    "shapes (1,1) and (" ++ nat found ++ ",) not aligned: 1 (dim 1) != " ++ nat found
      ++ " (dim 0)"
  | boundlessRange negative =>
    if negative then "(np.float64(-inf), np.float64(-inf))"
    else "(np.float64(inf), np.float64(inf))"
  | emptyBox => "not enough values to unpack (expected 2, got 0)"
  | nothingFree => "zero-size array to reduction operation maximum which has no identity"
  | unknownMethod name => "Unknown solver " ++ name
  | doglegHessian => "Hessian is required for dogleg minimization"
  | exactHessian => "Hessian matrix is required for trust region exact minimization."
  | curvatureRequired region =>
    "Either the Hessian or the Hessian-vector product is required for " ++ region
      ++ " trust-region minimization"
  | lineSearchSteps => "maxls must be positive."
  | notCount kind => "'" ++ kind ++ "' object cannot be interpreted as an integer"
  | wideCount => "Python int too large to convert to C long"
  | largeCount => "signed integer is greater than maximum"
  | notNumber kind => "must be real number, not " ++ kind
  | optionNames => "keywords must be strings"
  | repeatedKeyword routine name =>
    routine ++ "() got multiple values for keyword argument '" ++ name ++ "'"
  | repeatedArgument routine name =>
    routine ++ "() got multiple values for argument '" ++ name ++ "'"
  | fractionalShape shown =>
    "expected a sequence of integers or a single integer, got '" ++ shown ++ "'"
  | unevenHistory size width =>
    "cannot reshape array of size " ++ nat size ++ " into shape (" ++ nat width ++ ")"
  | historyShape => "sk and yk must have matching shape, (n_corrs, n)"

end Fault

end BinaryQuadratic
