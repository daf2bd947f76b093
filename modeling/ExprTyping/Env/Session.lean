import ExprTyping.Env.Basic

namespace ExprTyping

structure Session where
  env : Env
  promoted : Table String IdentDecl := {}

namespace Session

def lookupCandidate? (s : Session) (candidate : String) : Option IdentDecl × Session :=
  match s.env.scopes.findIdent? candidate with
  | some d => (some d, s)
  | none =>
    match s.promoted.find? candidate with
    | some d => (some d, s)
    | none =>
      match s.env.promoted? candidate with
      | some d => (some d, { s with promoted := s.promoted.insert candidate d })
      | none => (none, s)

def lookupFirst? (s : Session) : List String → Option IdentDecl × Session
  | [] => (none, s)
  | c :: cs =>
    match s.lookupCandidate? c with
    | (some d, s) => (some d, s)
    | (none, s) => s.lookupFirst? cs

def lookupIdent? (s : Session) (name : String) : Option IdentDecl × Session :=
  s.lookupFirst? (s.env.container.candidates name)

def withEnv (s : Session) (env : Env) : Session := { s with env }

end Session

end ExprTyping
