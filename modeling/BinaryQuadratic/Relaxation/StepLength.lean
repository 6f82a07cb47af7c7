import BinaryQuadratic.Scalar

/-!
# Step lengths

Along a line a function is tried at one step after another, until it has fallen enough and its slope
has flattened enough. The next step to try comes from cubics and secants through what was seen.

* `Sample`: a step with the value and the slope there;
* `Bracket.next`: the step that the samples so far suggest;
* `LineSearch.judge`: whether a sample will do, or which step to try next.
-/

namespace BinaryQuadratic.Relaxation

structure Sample where
  step : Float
  value : Float
  slope : Float
  deriving DecidableEq, Repr

namespace Sample

/-- The sample on a function from which a line through the start is taken off. -/
def less (s : Sample) (slope : Float) : Sample :=
  ⟨s.step, s.value - s.step * slope, s.slope - slope⟩

/-- The sample with a line through the start put back on. -/
def plus (s : Sample) (slope : Float) : Sample :=
  ⟨s.step, s.value + s.step * slope, s.slope + slope⟩

end Sample

def larger (a b : Float) : Float := if a < b then b else a

def smaller (a b : Float) : Float := if b < a then b else a

def cubicBend (known tried : Sample) : Float :=
  3 * (known.value - tried.value) / (tried.step - known.step) + known.slope + tried.slope

/-- The size in which the cubic through two samples is measured. -/
def cubicSize (known tried : Sample) : Float :=
  larger (larger (Scalar.abs (cubicBend known tried)) (Scalar.abs known.slope))
    (Scalar.abs tried.slope)

/-- The square of how far the stationary points of the cubic through two samples lie from the middle
between them, in its size; negative where there are none. -/
def cubicSquare (known tried : Sample) : Float :=
  let bend := cubicBend known tried
  let size := cubicSize known tried
  bend / size * (bend / size) - known.slope / size * (tried.slope / size)

/-- The root of that square, which is no number where the cubic has no stationary points. -/
def cubicRoot (known tried : Sample) : Float :=
  cubicSize known tried * (cubicSquare known tried).sqrt

/-- The root of that square, zero where the cubic has no stationary points. -/
def levelRoot (known tried : Sample) : Float :=
  cubicSize known tried * (larger 0 (cubicSquare known tried)).sqrt

/-- The minimum of the cubic through two samples, reached from one of them. -/
def cubicStep (origin other : Sample) (bend root : Float) : Float :=
  let root := if other.step < origin.step then -root else root
  let ratio := (root - origin.slope + bend) / (root - origin.slope + root + other.slope)
  origin.step + ratio * (other.step - origin.step)

/-- Where the line through two slopes crosses zero. -/
def secantStep (known tried : Sample) : Float :=
  tried.step + tried.slope / (tried.slope - known.slope) * (known.step - tried.step)

/-- The best sample so far, the one on the other side, and whether a minimum lies between. -/
structure Bracket where
  best : Sample
  other : Sample
  closed : Bool
  deriving DecidableEq, Repr

namespace Bracket

/-- The slopes of the best sample and of a tried one point in opposite directions. -/
def turns (b : Bracket) (tried : Sample) : Bool :=
  tried.slope * (b.best.slope / Scalar.abs b.best.slope) < 0

/-- The value rose: between the cubic's minimum and the one of a parabola, nearer to the best. -/
def afterRise (b : Bracket) (tried : Sample) : Float :=
  let best := b.best
  let cubic := cubicStep best tried (cubicBend best tried) (cubicRoot best tried)
  let drop := (best.value - tried.value) / (tried.step - best.step) + best.slope
  let parabola := best.step + best.slope / drop / 2 * (tried.step - best.step)
  if Scalar.abs (cubic - best.step) < Scalar.abs (parabola - best.step) then cubic
  else cubic + (parabola - cubic) / 2

/-- The slope turned: the cubic's minimum or the secant's, whichever is farther. -/
def afterTurn (b : Bracket) (tried : Sample) : Float :=
  let cubic := cubicStep tried b.best (cubicBend b.best tried) (cubicRoot b.best tried)
  let secant := secantStep b.best tried
  if Scalar.abs (secant - tried.step) < Scalar.abs (cubic - tried.step) then cubic else secant

/-- The minimum of the cubic beyond a sample where the slope has flattened, or the end of the range
if it has none there. -/
def beyond (b : Bracket) (tried : Sample) (least most : Float) : Float :=
  let best := b.best
  let bend := cubicBend best tried
  let root := levelRoot best tried
  let root := if best.step < tried.step then -root else root
  let ratio := (root - tried.slope + bend) / (root + (best.slope - tried.slope) + root)
  if ratio < 0 && !(root == 0) then tried.step + ratio * (best.step - tried.step)
  else if best.step < tried.step then most
  else least

/-- The part of a bracket that one step may take. -/
def reach : Float := 0.66

/-- The slope flattened: within a bracket the nearer of cubic and secant, and not too close to the
far end; without one the farther, within the range. -/
def afterFlattening (b : Bracket) (tried : Sample) (least most : Float) : Float :=
  let cubic := b.beyond tried least most
  let secant := secantStep b.best tried
  if b.closed then
    let step := if Scalar.abs (cubic - tried.step) < Scalar.abs (secant - tried.step) then cubic
      else secant
    let limit := tried.step + reach * (b.other.step - tried.step)
    if b.best.step < tried.step then smaller limit step else larger limit step
  else
    let step := if Scalar.abs (secant - tried.step) < Scalar.abs (cubic - tried.step) then cubic
      else secant
    larger least (smaller most step)

/-- The slope did not flatten: the cubic's minimum within a bracket, else the end of the range. -/
def afterSteepening (b : Bracket) (tried : Sample) (least most : Float) : Float :=
  if b.closed then cubicStep tried b.other (cubicBend b.other tried) (cubicRoot b.other tried)
  else if b.best.step < tried.step then most
  else least

/-- The step to try after a sample, and the bracket that the sample narrows. -/
def next (b : Bracket) (tried : Sample) (least most : Float) : Float × Bracket :=
  if b.best.value < tried.value then (b.afterRise tried, ⟨b.best, tried, true⟩)
  else if b.turns tried then (b.afterTurn tried, ⟨tried, b.best, true⟩)
  else
    let step := if Scalar.abs tried.slope < Scalar.abs b.best.slope then
      b.afterFlattening tried least most else b.afterSteepening tried least most
    (step, ⟨tried, b.other, b.closed⟩)

def less (b : Bracket) (slope : Float) : Bracket :=
  { b with best := b.best.less slope, other := b.other.less slope }

def plus (b : Bracket) (slope : Float) : Bracket :=
  { b with best := b.best.plus slope, other := b.other.plus slope }

end Bracket

/-- Where a search along a line stands: the value and slope it began with, the longest step, the
range of the next one, and how wide the bracket was twice before. -/
structure LineSearch where
  value : Float
  slope : Float
  longest : Float
  bracket : Bracket
  least : Float
  most : Float
  width : Float
  lastWidth : Float
  early : Bool
  deriving DecidableEq, Repr

namespace LineSearch

/-- The part of the first slope by which the value has to fall. -/
def fall : Float := 1e-3

/-- The part of the first slope that the slope has to come down to. -/
def flat : Float := 0.9

/-- A bracket that is narrower than this part of its upper end is not divided further. -/
def narrow : Float := 0.1

def start (value slope first longest : Float) : LineSearch :=
  let origin : Sample := ⟨0, value, slope⟩
  ⟨value, slope, longest, ⟨origin, origin, false⟩, 0, first + 4 * first, longest, 2 * longest, true⟩

def target (s : LineSearch) (step : Float) : Float := s.value + step * (fall * s.slope)

/-- The bracket cannot be divided at a step. -/
def exhausted (s : LineSearch) (step : Float) : Bool :=
  s.bracket.closed && (step ≤ s.least || s.most ≤ step || s.most - s.least ≤ narrow * s.most)

/-- A sample fell and flattened enough, or nothing better can be found. -/
def accepts (s : LineSearch) (tried : Sample) : Bool :=
  let fell := tried.value ≤ s.target tried.step
  let required := fall * s.slope
  (fell && Scalar.abs tried.slope ≤ flat * -s.slope)
    || s.exhausted tried.step
    || (tried.step == s.longest && fell && tried.slope ≤ required)
    || (tried.step == 0 && (s.target tried.step < tried.value || required ≤ tried.slope))

/-- The step to try and the bracket after a sample. While the value has not fallen enough the
samples are compared less the line that it has to fall below. -/
def advance (s : LineSearch) (tried : Sample) (early : Bool) : Float × Bracket :=
  if early && tried.value ≤ s.bracket.best.value && s.target tried.step < tried.value then
    let required := fall * s.slope
    let (step, bracket) := (s.bracket.less required).next (tried.less required) s.least s.most
    (step, bracket.plus required)
  else s.bracket.next tried s.least s.most

/-- The range of the next step: the bracket, or a stretch beyond the step. -/
def rangeOf (bracket : Bracket) (step : Float) : Float × Float :=
  let best := bracket.best.step
  if bracket.closed then (smaller best bracket.other.step, larger best bracket.other.step)
  else (step + 1.1 * (step - best), step + 4 * (step - best))

/-- Nothing where a sample will do, else the next step and the search with it. A bracket that does
not shrink fast enough is halved; where it cannot be divided the best step is tried again. -/
def judge (s : LineSearch) (tried : Sample) : Option (Float × LineSearch) :=
  let early := s.early && !(tried.value ≤ s.target tried.step && 0 ≤ tried.slope)
  if s.accepts tried then none
  else
    let (step, bracket) := s.advance tried early
    let best := bracket.best.step
    let width := Scalar.abs (bracket.other.step - best)
    let step := if bracket.closed && Bracket.reach * s.lastWidth ≤ width then
      best + 0.5 * (bracket.other.step - best) else step
    let (least, most) := rangeOf bracket step
    let step := smaller s.longest (larger 0 step)
    let s := { s with
      bracket := bracket
      least := least
      most := most
      width := if bracket.closed then width else s.width
      lastWidth := if bracket.closed then s.width else s.lastWidth
      early := early }
    some (if s.exhausted step then best else step, s)

end LineSearch

end BinaryQuadratic.Relaxation
