namespace ExprTyping.Text.Dotted

def rooted? (name : String) : Option String :=
  match name.toList with
  | '.' :: rest => some (String.ofList rest)
  | _ => none

def head (name : String) : String := String.ofList (name.toList.takeWhile (· != '.'))

def tail (name : String) : String := String.ofList (name.toList.dropWhile (· != '.'))

def last (name : String) : String :=
  String.ofList (name.toList.reverse.takeWhile (· != '.')).reverse

def splitLast? (name : String) : Option (String × String) :=
  match name.toList.reverse.dropWhile (· != '.') with
  | [] => none
  | _ :: front => some (String.ofList front.reverse, last name)

def segments : List Char → List (List Char)
  | [] => [[]]
  | c :: cs =>
    if c = '.' then [] :: segments cs
    else
      match segments cs with
      | [] => [[c]]
      | s :: ss => (c :: s) :: ss

def properPackages : List Char → List (List Char)
  | [] => []
  | c :: cs =>
    let rest := (properPackages cs).map (c :: ·)
    if c = '.' then [] :: rest else rest

def packages (name : String) : List String :=
  ((properPackages name.toList ++ [name.toList]).reverse).map String.ofList

def join (package name : String) : String := package ++ "." ++ name

end ExprTyping.Text.Dotted
