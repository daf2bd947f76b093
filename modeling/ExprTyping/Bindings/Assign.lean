import ExprTyping.Bindings.Basic
import ExprTyping.Ty.Generality

/-!
# Assignability

When a type may stand where another is expected, and what its parameters must then stand for. The
rules extend the bindings as they go: a free parameter is bound to the other side if the occurs
check allows it, and a bound one is rebound to the more general of its binding and the other side.

The rules are written over an open recursion (`step`), closed by a bound on the depth. Running out
of depth is an outcome of its own, so that refusal never stands for it.
-/

namespace ExprTyping.Bindings

inductive Outcome
  | assigned (m : Bindings)
  | refused
  | exhausted

def Outcome.toOption : Outcome → Option Bindings
  | assigned m => some m
  | _ => none

/-- What a type is to the bindings: a parameter with or without a binding, or no parameter. -/
inductive Slot
  | bound (t : Ty)
  | free
  | fixed

def slot (m : Bindings) : Ty → Slot
  | .param n =>
    match m.find? (.param n) with
    | some t => .bound t
    | none => .free
  | _ => .fixed

def rebind (m : Bindings) (x t : Ty) : Bindings := if m.mentions x t then m else m.insert x t

def Outcome.rebind (x t : Ty) : Outcome → Outcome
  | assigned m => .assigned (m.rebind x t)
  | o => o

def pairwise (rec : Bindings → Ty → Ty → Outcome) : Bindings → List Ty → List Ty → Outcome
  | m, [], [] => .assigned m
  | m, t :: ts, u :: us =>
    match rec m t u with
    | .assigned m' => pairwise rec m' ts us
    | o => o
  | _, _, _ => .refused

def accept (m : Bindings) (b : Bool) : Outcome := if b then .assigned m else .refused

/-- The rules for two types neither of which is replaced by a binding. -/
def stepShape (rec : Bindings → Ty → Ty → Outcome) (m : Bindings) (t u : Ty) : Outcome :=
  if t.isWildcard || u.isWildcard then .assigned m
  else
    match t, u with
    | .null, u => accept m u.isNullable
    | .wrapper p, u => rec m (.prim p) u
    | .prim p, .wrapper q => accept m (p == q)
    | .prim p, u => accept m (u == .prim p)
    | .abstract a ts, .abstract b us => if a = b then pairwise rec m ts us else .refused
    | .function r ts, .function s us => pairwise rec m (ts ++ [r]) (us ++ [s])
    | .list t, .list u => rec m t u
    | .map k v, .map l w => pairwise rec m [k, v] [l, w]
    | .message a, .message b => accept m (a == b)
    | .type, .type => .assigned m
    | .type, .typeOf _ => .assigned m
    | .typeOf _, .type => .assigned m
    | .typeOf _, .typeOf _ => .assigned m
    | _, _ => .refused

def stepLeft (rec : Bindings → Ty → Ty → Outcome) (m : Bindings) (t u : Ty) : Outcome :=
  match m.slot t with
  | .bound s => (rec m s u).rebind t (s.mostGeneral u)
  | .free => if m.mentions t u then stepShape rec m t u else .assigned (m.insert t u)
  | .fixed => stepShape rec m t u

def step (rec : Bindings → Ty → Ty → Outcome) (m : Bindings) (t u : Ty) : Outcome :=
  if t = u then .assigned m
  else
    match m.slot u with
    | .bound s => (rec m t s).rebind u (t.mostGeneral s)
    | .free => if m.mentions u t then stepLeft rec m t u else .assigned (m.insert u t)
    | .fixed => stepLeft rec m t u

def assignIn : Nat → Bindings → Ty → Ty → Outcome
  | 0, _, _, _ => .exhausted
  | n + 1, m, t, u => step (assignIn n) m t u

/-- A depth no run on acyclic bindings reaches, for types and bindings of total size `w`. Along a
run the set of types that can still be met shrinks with every step into a pair of shapes, and
between two such steps each side follows a chain of bindings. -/
def depthBound (w : Nat) : Nat := (2 * w + 3) * (w + 1)

def assign (m : Bindings) (t u : Ty) : Outcome :=
  assignIn (depthBound (m.weight + t.size + u.size)) m t u

def assignAll (m : Bindings) (ts us : List Ty) : Outcome :=
  pairwise (assignIn (depthBound (m.weight + Ty.sizeAll ts + Ty.sizeAll us))) m ts us

/-- The bindings under which `t` may stand where `u` is expected. -/
def assign? (m : Bindings) (t u : Ty) : Option Bindings := (m.assign t u).toOption

def assignAll? (m : Bindings) (ts us : List Ty) : Option Bindings := (m.assignAll ts us).toOption

end ExprTyping.Bindings
