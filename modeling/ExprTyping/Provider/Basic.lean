import ExprTyping.Ty.Basic

namespace ExprTyping

structure Provider where
  message? : String → Option Ty
  field? : String → String → Option Ty
  enumValue? : String → Option Int64

end ExprTyping
