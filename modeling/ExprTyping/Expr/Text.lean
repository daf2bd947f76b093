import ExprTyping.Expr.Basic

namespace ExprTyping

inductive Piece
  | text (s : String)
  | newline
  | indent
  | dedent
  deriving DecidableEq, Repr

namespace Piece

structure Page where
  out : String := ""
  level : Nat := 0
  atStart : Bool := true

def margin : Nat → String
  | 0 => ""
  | n + 1 => "  " ++ margin n

def Page.write (p : Page) : Piece → Page
  | text s =>
    if s = "" then p
    else if p.atStart then { p with out := p.out ++ margin p.level ++ s, atStart := false }
    else { p with out := p.out ++ s }
  | newline => { p with out := p.out ++ "\n", atStart := true }
  | indent => { p with level := p.level + 1 }
  | dedent => { p with level := p.level - 1 }

def layout (ps : List Piece) : String := (ps.foldl Page.write {}).out

def separated : List (List Piece) → List Piece
  | [] => []
  | [ps] => ps
  | ps :: rest => ps ++ [text ",", newline] ++ separated rest

def bracketed (opening closing : String) (items : List (List Piece)) : List Piece :=
  match items with
  | [] => [text opening, text closing]
  | _ => [text opening, newline, indent] ++ separated items ++ [dedent, newline, text closing]

def titled (title : String) (body : List Piece) : List Piece :=
  [text ("// " ++ title), newline] ++ body ++ [text ",", newline]

end Piece

namespace Expr

open Piece

mutual
def pieces (adorn : Expr → String) : Expr → List Piece
  | const i v => [text v.literal, text (adorn (const i v))]
  | ident i n => [text n, text (adorn (ident i n))]
  | select i operand field testOnly =>
    pieces adorn operand ++ [text ".", text field, text (if testOnly then "~test-only" else ""),
      text (adorn (select i operand field testOnly))]
  | call i f args =>
    [text f] ++ bracketed "(" ")" (piecesAll adorn args) ++ [text (adorn (call i f args))]
  | method i target f args =>
    pieces adorn target ++ [text ".", text f] ++ bracketed "(" ")" (piecesAll adorn args) ++
      [text (adorn (method i target f args))]
  | list i elems =>
    bracketed "[" "]" (piecesAll adorn elems) ++ [text (adorn (list i elems))]
  | message i n fields =>
    [text n] ++ bracketed "\x7b" "\x7d" (piecesFields adorn fields) ++
      [text (adorn (message i n fields))]
  | map i entries =>
    bracketed "\x7b" "\x7d" (piecesEntries adorn entries) ++ [text (adorn (map i entries))]
  | fold i iter range accu init condition step result =>
    [text "__comprehension__(", indent, newline] ++
      titled "Variable" [text iter] ++ titled "Target" (pieces adorn range) ++
      titled "Accumulator" [text accu] ++ titled "Init" (pieces adorn init) ++
      titled "LoopCondition" (pieces adorn condition) ++ titled "LoopStep" (pieces adorn step) ++
      [text "// Result", newline] ++ pieces adorn result ++ [text ")", dedent,
        text (adorn (fold i iter range accu init condition step result))]

def piecesAll (adorn : Expr → String) : List Expr → List (List Piece)
  | [] => []
  | e :: es => pieces adorn e :: piecesAll adorn es

def piecesFields (adorn : Expr → String) : List FieldInit → List (List Piece)
  | [] => []
  | .mk _ field value :: fs =>
    ([text field, text ":"] ++ pieces adorn value) :: piecesFields adorn fs

def piecesEntries (adorn : Expr → String) : List Entry → List (List Piece)
  | [] => []
  | .mk _ key value :: es =>
    (pieces adorn key ++ [text ":"] ++ pieces adorn value) :: piecesEntries adorn es
end

def textWith (adorn : Expr → String) (e : Expr) : String := layout (e.pieces adorn)

def text (e : Expr) : String := e.textWith fun _ => ""

end Expr

end ExprTyping
