import ExprTyping.Expr.Builder

namespace ExprTyping

inductive Macro
  | all | exists_ | existsOne | mapEach | filter
  deriving DecidableEq, Repr

def Macro.build : Macro → Expr → String → Expr → Build Expr
  | all => Build.all
  | exists_ => Build.exists_
  | existsOne => Build.existsOne
  | mapEach => Build.mapEach
  | filter => Build.filter

mutual
inductive Draft
  | const (value : Value)
  | ident (name : String)
  | select (operand : Draft) (field : String)
  | has (operand : Draft) (field : String)
  | qualified (name : String)
  | call (function : String) (args : List Draft)
  | method (function : String) (target : Draft) (args : List Draft)
  | list (elems : List Draft)
  | map (entries : List DraftEntry)
  | message (name : String) (fields : List DraftField)
  | fold (iter : String) (range : Draft) (accu : String) (init condition step result : Draft)
  | macroCall (m : Macro) (range : Draft) (var : String) (body : Draft)
  | mapWhere (range : Draft) (var : String) (filter transform : Draft)

inductive DraftEntry
  | mk (key value : Draft)

inductive DraftField
  | mk (field : String) (value : Draft)
end

namespace Draft

mutual
def build : Draft → Build Expr
  | const v => Build.const v
  | ident n => Build.ident n
  | select operand field => do Build.select (← build operand) field
  | has operand field => do Build.has (← build operand) field
  | qualified n => Build.qualified n
  | call f args => do Build.call f (← buildAll args)
  | method f target args => do
    let t ← build target
    Build.method f t (← buildAll args)
  | list elems => do Build.list (← buildAll elems)
  | map entries => do Build.map (← buildEntries entries)
  | message n fields => do Build.message n (← buildFields fields)
  | fold iter range accu init condition step result => do
    let r ← build range
    let i ← build init
    let c ← build condition
    let s ← build step
    Build.fold iter r accu i c s (← build result)
  | macroCall m range var body => do
    let r ← build range
    m.build r var (← build body)
  | mapWhere range var filter transform => do
    let r ← build range
    let f ← build filter
    Build.mapWhere r var f (← build transform)

def buildAll : List Draft → Build (List Expr)
  | [] => pure []
  | d :: ds => do
    let e ← build d
    return e :: (← buildAll ds)

def buildEntries : List DraftEntry → Build (List (Expr × Expr))
  | [] => pure []
  | .mk key value :: ds => do
    let k ← build key
    let v ← build value
    return (k, v) :: (← buildEntries ds)

def buildFields : List DraftField → Build (List (String × Expr))
  | [] => pure []
  | .mk field value :: ds => do
    let v ← build value
    return (field, v) :: (← buildFields ds)
end

def toExpr (d : Draft) : Expr := (d.build.run Build.firstId).1

end Draft

end ExprTyping
