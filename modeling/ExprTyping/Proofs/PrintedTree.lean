import ExprTyping.Expr.Text
import ExprTyping.Proofs.Idempotence

namespace ExprTyping

namespace Piece

/-- Written on the same page, the two sequences of pieces leave the same page. -/
def Alike (ps qs : List Piece) : Prop :=
  ∀ p : Page, ps.foldl Page.write p = qs.foldl Page.write p

variable {ps qs ps' qs' : List Piece}

theorem Alike.refl (ps : List Piece) : Alike ps ps := fun _ => rfl

theorem Alike.symm (h : Alike ps qs) : Alike qs ps := fun p => (h p).symm

theorem Alike.trans {rs : List Piece} (h : Alike ps qs) (h' : Alike qs rs) : Alike ps rs :=
  fun p => (h p).trans (h' p)

theorem Alike.append (h : Alike ps qs) (h' : Alike ps' qs') : Alike (ps ++ ps') (qs ++ qs') := by
  intro p
  rw [List.foldl_append, List.foldl_append, h p, h']

theorem Alike.layout_eq (h : Alike ps qs) : layout ps = layout qs := by
  rw [layout, layout, h]

@[simp] theorem Page.write_text_text (p : Page) (s t : String) :
    (p.write (text s)).write (text t) = p.write (text (s ++ t)) := by
  by_cases hs : s = ""
  · simp [Page.write, hs]
  · by_cases ht : t = ""
    · simp [Page.write, ht]
    · cases hp : p.atStart <;> simp [Page.write, hs, ht, hp, String.append_assoc]

variable {items items' : List (List Piece)}

theorem alike_separated (h : List.Forall₂ Alike items items') :
    Alike (separated items) (separated items') := by
  induction h with
  | nil => exact .refl _
  | cons hps hrest ih =>
    cases hrest with
    | nil => exact hps
    | cons _ _ => exact (hps.append (.refl _)).append ih

theorem alike_bracketed (opening closing : String) (h : List.Forall₂ Alike items items') :
    Alike (bracketed opening closing items) (bracketed opening closing items') := by
  cases h with
  | nil => exact .refl _
  | cons hps hrest =>
    exact ((Alike.refl _).append (alike_separated (.cons hps hrest))).append (.refl _)

theorem alike_titled (title : String) (h : Alike ps qs) :
    Alike (titled title ps) (titled title qs) :=
  ((Alike.refl _).append h).append (.refl _)

end Piece

namespace Expr

open Piece

abbrev bare (e : Expr) : List Piece := e.pieces fun _ => ""

abbrev bareAll (es : List Expr) : List (List Piece) := piecesAll (fun _ => "") es

abbrev bareFields (fs : List FieldInit) : List (List Piece) := piecesFields (fun _ => "") fs

abbrev bareEntries (es : List Entry) : List (List Piece) := piecesEntries (fun _ => "") es

theorem alike_of_qualifiedName? {e : Expr} {name : String} (h : e.qualifiedName? = some name) :
    Alike e.bare [Piece.text name] := by
  induction e generalizing name with
  | ident i n =>
    cases h
    intro page
    simp [pieces]
  | select i operand field testOnly ih =>
    cases testOnly with
    | true => cases h
    | false =>
      obtain ⟨p, hp, rfl⟩ := Option.map_eq_some_iff.1 h
      intro page
      simp [pieces, ih hp page]
  | _ => cases h

theorem alike_dot_of_qualifiedName? {e : Expr} {p : String} (h : e.qualifiedName? = some p)
    (s : String) :
    Alike (e.bare ++ [Piece.text ".", Piece.text s]) [Piece.text (p ++ "." ++ s)] := by
  intro page
  simp [alike_of_qualifiedName? h page]

section Congruence

variable {target target' : Expr} {args args' : List Expr}

theorem alike_call (id : Int) (f : String)
    (hargs : List.Forall₂ Alike (bareAll args') (bareAll args)) :
    Alike (call id f args').bare (call id f args).bare :=
  ((Alike.refl _).append (alike_bracketed _ _ hargs)).append (.refl _)

theorem alike_method (id : Int) (f : String) (htarget : Alike target'.bare target.bare)
    (hargs : List.Forall₂ Alike (bareAll args') (bareAll args)) :
    Alike (method id target' f args').bare (method id target f args).bare :=
  ((htarget.append (.refl _)).append (alike_bracketed _ _ hargs)).append (.refl _)

theorem alike_fold (id : Int) (iter accu : String)
    {range range' init init' condition condition' step step' result result' : Expr}
    (hrange : Alike range'.bare range.bare) (hinit : Alike init'.bare init.bare)
    (hcondition : Alike condition'.bare condition.bare) (hstep : Alike step'.bare step.bare)
    (hresult : Alike result'.bare result.bare) :
    Alike (fold id iter range' accu init' condition' step' result').bare
      (fold id iter range accu init condition step result).bare := by
  have hhead := (Alike.refl ([Piece.text "__comprehension__(", indent, newline] ++
    titled "Variable" [Piece.text iter])).append (alike_titled "Target" hrange)
  have hinits := (hhead.append (.refl (titled "Accumulator" [Piece.text accu]))).append
    (alike_titled "Init" hinit)
  have hloop := (hinits.append (alike_titled "LoopCondition" hcondition)).append
    (alike_titled "LoopStep" hstep)
  exact ((hloop.append (.refl _)).append hresult).append (.refl _)

end Congruence

end Expr

namespace Checker

open Piece

variable {env : Env} {s s' : State}

def KeepsText (env : Env) (_ : State) (e e' : Expr) (_ : State) : Prop :=
  env.container = {} → e.Plain → Alike e'.bare e.bare

section Lists

variable (hc : env.container = {})

include hc

theorem InTurn.alike {es es' : List Expr} (h : InTurn (KeepsText env) s es es' s')
    (hes : ∀ n ∈ Expr.nodesAll es, n.IsPlain) :
    List.Forall₂ Alike (Expr.bareAll es') (Expr.bareAll es) := by
  induction h with
  | nil => exact .nil
  | cons he _ ih =>
    rw [Expr.nodesAll, List.forall_mem_append] at hes
    exact .cons (he hc hes.1) (ih hes.2)

theorem Joined.alike {es es' : List Expr} {t t' : Option Ty}
    (h : Joined (KeepsText env) env s t es es' t' s') (hes : ∀ n ∈ Expr.nodesAll es, n.IsPlain) :
    List.Forall₂ Alike (Expr.bareAll es') (Expr.bareAll es) := by
  induction h with
  | nil => exact .nil
  | cons he _ _ ih =>
    rw [Expr.nodesAll, List.forall_mem_append] at hes
    exact .cons (he hc hes.1) (ih hes.2)

theorem JoinedEntries.alike {es es' : List Entry} {k v k' v' : Option Ty}
    (h : JoinedEntries (KeepsText env) env s k v es es' k' v' s')
    (hes : ∀ n ∈ Expr.nodesEntries es, n.IsPlain) :
    List.Forall₂ Alike (Expr.bareEntries es') (Expr.bareEntries es) := by
  induction h with
  | nil => exact .nil
  | cons hx _ hy _ _ ih =>
    rw [Expr.nodesEntries, List.forall_mem_append, List.forall_mem_append] at hes
    exact .cons (((hx hc hes.1.1).append (.refl _)).append (hy hc hes.1.2)) (ih hes.2)

theorem Initialized.alike {fs fs' : List FieldInit} {message : Ty}
    (h : Initialized (KeepsText env) env message s fs fs' s')
    (hfs : ∀ n ∈ Expr.nodesFields fs, n.IsPlain) :
    List.Forall₂ Alike (Expr.bareFields fs') (Expr.bareFields fs) := by
  induction h with
  | nil => exact .nil
  | cons hx _ ih =>
    rw [Expr.nodesFields, List.forall_mem_append] at hfs
    exact .cons ((Alike.refl _).append (hx hc hfs.1)) (ih hfs.2)

end Lists

theorem Rule.keepsText {e e' : Expr} (h : Rule KeepsText env s e e' s') :
    KeepsText env s e e' s' := by
  intro hc hplain
  cases h with
  | const _ => exact .refl _
  | ident hd _ =>
    rw [Env.name_of_lookupIdent? hc (hplain _ (List.mem_singleton_self _)).2 hd]
    exact .refl _
  | undeclaredIdent _ _ => exact .refl _
  | @qualifiedIdent s' id operand field d hd hs =>
    obtain ⟨p, hp, hname, -⟩ :=
      name_of_selectedDecl? hc (fun n hn => hplain n (List.mem_cons_of_mem _ hn)) hd
    have hq : (Expr.select id operand field false).qualifiedName? = some d.name := by
      rw [Expr.qualifiedName?, hp, hname, Option.map_some]
    exact (Expr.alike_of_qualifiedName? rfl).trans (Expr.alike_of_qualifiedName? hq).symm
  | testedIdent _ _ => exact .refl _
  | select _ ho _ _ =>
    exact (ho hc fun n hn => hplain n (List.mem_cons_of_mem _ hn)).append (.refl _)
  | call hargs hd _ =>
    have hargs := hargs.alike hc fun n hn => hplain n (List.mem_cons_of_mem _ hn)
    rw [Env.name_of_lookupFunction? hc (hplain _ List.mem_cons_self) hd]
    exact Expr.alike_call _ _ hargs
  | undeclaredCall hargs _ _ =>
    have hargs := hargs.alike hc fun n hn => hplain n (List.mem_cons_of_mem _ hn)
    exact Expr.alike_call _ _ hargs
  | @namespacedCall s₁ s' id target f args args' d hargs hn hs =>
    have hnodes := List.forall_mem_append.1 fun n hn => hplain n (List.mem_cons_of_mem _ hn)
    obtain ⟨p, hp, hname, -⟩ := name_of_namespacedFunction? hc hnodes.1 hn
    rw [hname]
    exact ((Expr.alike_dot_of_qualifiedName? hp f).symm.append
      (alike_bracketed _ _ (hargs.alike hc hnodes.2))).append (.refl _)
  | method hargs _ ht _ _ =>
    have hnodes := List.forall_mem_append.1 fun n hn => hplain n (List.mem_cons_of_mem _ hn)
    exact Expr.alike_method _ _ (ht hc hnodes.1) (hargs.alike hc hnodes.2)
  | undeclaredMethod hargs _ ht _ _ =>
    have hnodes := List.forall_mem_append.1 fun n hn => hplain n (List.mem_cons_of_mem _ hn)
    exact Expr.alike_method _ _ (ht hc hnodes.1) (hargs.alike hc hnodes.2)
  | list helems _ _ =>
    have helems := helems.alike hc fun n hn => hplain n (List.mem_cons_of_mem _ hn)
    exact (alike_bracketed _ _ helems).append (.refl _)
  | map hentries _ _ _ =>
    have hentries := hentries.alike hc fun n hn => hplain n (List.mem_cons_of_mem _ hn)
    exact (alike_bracketed _ _ hentries).append (.refl _)
  | message hname _ hfields =>
    have hfields := hfields.alike hc fun n hn => hplain n (List.mem_cons_of_mem _ hn)
    obtain rfl := messageLiteral_name hc (hplain _ List.mem_cons_self) hname
    exact ((Alike.refl _).append (alike_bracketed _ _ hfields)).append (.refl _)
  | fold hr hi _ haccu hloop hcond hs ha _ =>
    simp only [Expr.Plain, Expr.nodes, List.forall_mem_cons, List.forall_mem_append] at hplain
    obtain ⟨-, ⟨⟨⟨hpr, hpi⟩, hpc⟩, hps⟩, hpa⟩ := hplain
    -- entering a scope and declaring a name keep the container
    subst haccu hloop
    exact Expr.alike_fold _ _ _ (hr hc hpr) (hi hc hpi) (hcond hc hpc) (hs hc hps) (ha hc hpa)

theorem Completes.alike {e e' : Expr} (hc : env.container = {}) (hplain : e.Plain)
    (h : Completes env s e e' s') : Alike e'.bare e.bare :=
  h.induction (fun _ _ _ _ _ => Rule.keepsText) hc hplain

end Checker

open Checker

/-- In an empty container, and if names have no leading dot, the checked tree is printed like the
tree that was checked. -/
theorem text_check {env : Env} {source : Source} {e : Expr} {r : CheckResult}
    (hc : env.container = {}) (hplain : e.Plain) (h : check env source e = .ok r) :
    r.expr.text = e.text := by
  obtain ⟨e', s, hs, rfl⟩ := check_eq_ok_iff.1 h
  exact (hs.alike hc hplain).layout_eq

theorem text_check_of_nested_names :
    let env : Env :=
      { container := {}, provider := (Catalog.addMessage {} "M" []).provider,
        scopes := (({} : Scopes).addIdent { name := "a.b.c", ty := .int }).setFunction
          { name := "m.f", overloads := [{ id := "f", params := [.int], result := .int }] } }
    let e : Expr :=
      .list 1 [.method 2 (.ident 3 "m") "f"
        [.select 4 (.select 5 (.ident 6 "a") "b" false) "c" false]]
    e.Plain ∧ ∃ r, check env {} e = .ok r ∧ e.walk = [1, 2, 3, 4, 5, 6] ∧
      r.expr.walk = [1, 2, 4] ∧ r.expr.text = e.text ∧
      e.text = "[\n  m.f(\n    a.b.c\n  )\n]" := by
  intro env e
  have hplain : e.Plain := by
    simp only [Expr.Plain, e, Expr.nodes, Expr.nodesAll]
    simp [Expr.IsPlain]
    decide
  obtain ⟨r, h⟩ : ∃ r, check env {} e = .ok r := ⟨_, rfl⟩
  refine ⟨hplain, r, h, rfl, ?_, text_check rfl hplain h, ?_⟩
  · cases h
    rfl
  · decide +zetaReduce

end ExprTyping
