import ExprTyping.Expr.Basic
import ExprTyping.Text.Dotted

namespace ExprTyping

abbrev Build := StateM Int

namespace Build

def firstId : Int := 1

def freshId : Build Int := modifyGet fun n => (n, n + 1)

def node (f : Int → Expr) : Build Expr := do return f (← freshId)

def const (v : Value) : Build Expr := node (.const · v)

def ident (name : String) : Build Expr := node (.ident · name)

def select (operand : Expr) (field : String) : Build Expr := node (.select · operand field false)

def has (operand : Expr) (field : String) : Build Expr := node (.select · operand field true)

def qualified (name : String) : Build Expr := do
  match (Text.Dotted.segments name.toList).map String.ofList with
  | [] => ident ""
  | first :: rest => rest.foldlM select (← ident first)

def call (function : String) (args : List Expr) : Build Expr := node (.call · function args)

def method (function : String) (target : Expr) (args : List Expr) : Build Expr :=
  node (.method · target function args)

def list (elems : List Expr) : Build Expr := node (.list · elems)

/-- The entries take their ids before the map does. -/
def map (entries : List (Expr × Expr)) : Build Expr := do
  let es ← entries.mapM fun e => do return Entry.mk (← freshId) e.1 e.2
  node (.map · es)

def message (name : String) (fields : List (String × Expr)) : Build Expr := do
  let fs ← fields.mapM fun f => do return FieldInit.mk (← freshId) f.1 f.2
  node (.message · name fs)

def fold (iter : String) (range : Expr) (accu : String) (init condition step result : Expr) :
    Build Expr :=
  node (.fold · iter range accu init condition step result)

def accuName : String := "__result__"

def accu : Build Expr := ident accuName

def all (range : Expr) (var : String) (predicate : Expr) : Build Expr := do
  let init ← const (.bool true)
  let condition ← call "@not_strictly_false" [← accu]
  let step ← call "_&&_" [← accu, predicate]
  let result ← accu
  fold var range accuName init condition step result

def exists_ (range : Expr) (var : String) (predicate : Expr) : Build Expr := do
  let init ← const (.bool false)
  let negated ← call "!_" [← accu]
  let condition ← call "@not_strictly_false" [negated]
  let step ← call "_||_" [← accu, predicate]
  let result ← accu
  fold var range accuName init condition step result

def existsOne (range : Expr) (var : String) (predicate : Expr) : Build Expr := do
  let init ← const (.int 0)
  let condition ← const (.bool true)
  let counted ← accu
  let incremented ← call "_+_" [counted, ← const (.int 1)]
  let step ← call "_?_:_" [predicate, incremented, ← accu]
  let total ← accu
  let result ← call "_==_" [total, ← const (.int 1)]
  fold var range accuName init condition step result

def append (element : Expr) : Build Expr := do
  let front ← accu
  call "_+_" [front, ← list [element]]

def mapEach (range : Expr) (var : String) (transform : Expr) : Build Expr := do
  let init ← list []
  let condition ← const (.bool true)
  let step ← append transform
  let result ← accu
  fold var range accuName init condition step result

/-- The macro `range.map(var, filter, transform)`: collects the transformed elements that pass. -/
def mapWhere (range : Expr) (var : String) (filter transform : Expr) : Build Expr := do
  let init ← list []
  let condition ← const (.bool true)
  let appended ← append transform
  let step ← call "_?_:_" [filter, appended, ← accu]
  let result ← accu
  fold var range accuName init condition step result

def filter (range : Expr) (var : String) (predicate : Expr) : Build Expr := do
  let init ← list []
  let condition ← const (.bool true)
  let appended ← append (← ident var)
  let step ← call "_?_:_" [predicate, appended, ← accu]
  let result ← accu
  fold var range accuName init condition step result

end Build

end ExprTyping
