/-!
# Minimising methods

* `Method`: the methods that can be asked for, each with a name;
* `Method.ofName?`: the method of a name in any case of letters;
* `Method.call`: how a method is called, and which arguments it is given besides the options.
-/

namespace BinaryQuadratic.Relaxation

inductive Method
  | nelderMead
  | powell
  | conjugateGradient
  | quasiNewton
  | newtonConjugateGradient
  | boundedQuasiNewton
  | truncatedNewton
  | linearApproximation
  | quadraticApproximation
  | sequentialLeastSquares
  | trustConstrained
  | dogleg
  | trustNewton
  | trustExact
  | trustKrylov
  deriving DecidableEq, Repr

namespace Method

def all : List Method :=
  [nelderMead, powell, conjugateGradient, quasiNewton, newtonConjugateGradient, boundedQuasiNewton,
    truncatedNewton, linearApproximation, quadraticApproximation, sequentialLeastSquares,
    trustConstrained, dogleg, trustNewton, trustExact, trustKrylov]

def name : Method → String
  | nelderMead => "nelder-mead"
  | powell => "powell"
  | conjugateGradient => "cg"
  | quasiNewton => "bfgs"
  | newtonConjugateGradient => "newton-cg"
  | boundedQuasiNewton => "l-bfgs-b"
  | truncatedNewton => "tnc"
  | linearApproximation => "cobyla"
  | quadraticApproximation => "cobyqa"
  | sequentialLeastSquares => "slsqp"
  | trustConstrained => "trust-constr"
  | dogleg => "dogleg"
  | trustNewton => "trust-ncg"
  | trustExact => "trust-exact"
  | trustKrylov => "trust-krylov"

/-- The small letter of an ASCII letter or of the kelvin sign. -/
def small (c : Char) : Char := if c = Char.ofNat 0x212A then 'k' else c.toLower

def ofName? (s : String) : Option Method :=
  let lowered := String.ofList (s.toList.map small)
  all.find? fun method => method.name = lowered

/-- Methods that know no box: fixed variables are free for them. -/
def ignoresBox : Method → Bool
  | conjugateGradient | quasiNewton | newtonConjugateGradient => true
  | _ => false

/-- Methods that answer at once when every variable is fixed. -/
def takesPinned : Method → Bool
  | boundedQuasiNewton | truncatedNewton | sequentialLeastSquares => true
  | _ => false

/-- How a method is called: its full name, and what is passed to it in order and by name. -/
structure Call where
  path : String
  title : String
  inOrder : List String
  byName : List String
  deriving DecidableEq, Repr

/-- The arguments that every method takes first. -/
def leading : List String := ["fun", "x0", "args"]

/-- The same where the function has another name. -/
def leadingFunc : List String := ["func", "x0", "args"]

def call : Method → Call
  | nelderMead =>
    ⟨"scipy.optimize._optimize", "_minimize_neldermead", leadingFunc ++ ["callback"], ["bounds"]⟩
  | powell =>
    ⟨"scipy.optimize._optimize", "_minimize_powell", leadingFunc ++ ["callback", "bounds"], []⟩
  | conjugateGradient =>
    ⟨"scipy.optimize._optimize", "_minimize_cg", leading ++ ["jac", "callback"], []⟩
  | quasiNewton =>
    ⟨"scipy.optimize._optimize", "_minimize_bfgs", leading ++ ["jac", "callback"], []⟩
  | newtonConjugateGradient =>
    ⟨"scipy.optimize._optimize", "_minimize_newtoncg",
      leading ++ ["jac", "hess", "hessp", "callback"], []⟩
  | boundedQuasiNewton =>
    ⟨"scipy.optimize._lbfgsb_py", "_minimize_lbfgsb", leading ++ ["jac", "bounds"], ["callback"]⟩
  | truncatedNewton =>
    ⟨"scipy.optimize._tnc", "_minimize_tnc", leading ++ ["jac", "bounds"], ["callback"]⟩
  | linearApproximation =>
    ⟨"scipy.optimize._cobyla_py", "_minimize_cobyla", leading ++ ["constraints"],
      ["callback", "bounds"]⟩
  | quadraticApproximation =>
    ⟨"scipy.optimize._cobyqa_py", "_minimize_cobyqa",
      leading ++ ["bounds", "constraints", "callback"], []⟩
  | sequentialLeastSquares =>
    ⟨"scipy.optimize._slsqp_py", "_minimize_slsqp", leadingFunc ++ ["jac", "bounds", "constraints"],
      ["callback"]⟩
  | trustConstrained =>
    ⟨"scipy.optimize._trustregion_constr.minimize_trustregion_constr",
      "_minimize_trustregion_constr",
      leading ++ ["grad", "hess", "hessp", "bounds", "constraints"], ["callback"]⟩
  | dogleg =>
    ⟨"scipy.optimize._trustregion_dogleg", "_minimize_dogleg", leading ++ ["jac", "hess"],
      ["callback"]⟩
  | trustNewton =>
    ⟨"scipy.optimize._trustregion_ncg", "_minimize_trust_ncg", leading ++ ["jac", "hess", "hessp"],
      ["callback"]⟩
  | trustExact =>
    ⟨"scipy.optimize._trustregion_exact", "_minimize_trustregion_exact",
      leading ++ ["jac", "hess"], ["callback"]⟩
  | trustKrylov =>
    ⟨"scipy.optimize._trustregion_krylov", "_minimize_trust_krylov",
      leading ++ ["jac", "hess", "hessp"], ["callback"]⟩

end Method

end BinaryQuadratic.Relaxation
