import ExprTyping.Proofs.CheckedTree
import ExprTyping.Proofs.DottedNames

namespace ExprTyping

open Text

section Lookups

variable {env : Env} {name : String}

theorem Container.candidates_empty (hname : Dotted.rooted? name = none) :
    Container.candidates {} name = [name] := by
  simp [Container.candidates, hname, Container.expand?, Table.find?, Table.lookup]

theorem Env.name_of_lookupIdent? (hc : env.container = {}) (hname : Dotted.rooted? name = none)
    {d : IdentDecl} (h : env.lookupIdent? name = some d) : d.name = name := by
  rw [Env.lookupIdent?, hc, Container.candidates_empty hname, List.findSome?_singleton,
    Env.lookupCandidate?] at h
  split at h
  · next hd =>
    cases h
    exact Scopes.name_of_findIdent? hd
  · rw [Env.promoted?] at h
    split at h
    · cases h
      rfl
    · obtain ⟨n, -, rfl⟩ := Option.map_eq_some_iff.1 h
      rfl

theorem Env.name_of_lookupFunction? (hc : env.container = {})
    (hname : Dotted.rooted? name = none) {f : FunctionDecl}
    (h : env.lookupFunction? name = some f) : f.name = name := by
  rw [Env.lookupFunction?, hc, Container.candidates_empty hname, List.findSome?_singleton] at h
  exact Scopes.name_of_findFunction? h

end Lookups

namespace Expr

/-- The name by which the node itself is looked up has no leading dot, and is not empty if it can
begin a longer name. -/
def IsPlain : Expr → Prop
  | ident _ name => name ≠ "" ∧ Dotted.rooted? name = none
  | call _ f _ => Dotted.rooted? f = none
  | message _ name _ => Dotted.rooted? name = none
  | _ => True

def Plain (e : Expr) : Prop := ∀ n ∈ e.nodes, n.IsPlain

theorem Plain.qualifiedName? {e : Expr} (h : e.Plain) {p : String}
    (hp : e.qualifiedName? = some p) : p ≠ "" ∧ Dotted.rooted? p = none := by
  induction e generalizing p with
  | ident i name =>
    cases hp
    exact h (.ident i name) (List.mem_singleton_self _)
  | select i operand field testOnly ih =>
    cases testOnly with
    | true => cases hp
    | false =>
      obtain ⟨q, hq, rfl⟩ := Option.map_eq_some_iff.1 hp
      obtain ⟨hne, hroot⟩ := ih (fun n hn => h n (List.mem_cons_of_mem _ hn)) hq
      refine ⟨?_, ?_⟩
      · simp [String.append_eq_empty_iff]
      · rw [String.append_assoc]
        exact Dotted.rooted?_append hne hroot _
  | _ => cases hp

end Expr

namespace Checker

variable {env : Env} {s s' : State} {id : Int}

theorem messageLiteral_name (hc : env.container = {}) {name name' : String}
    (hname : Dotted.rooted? name = none) {t : Ty}
    (h : messageLiteral env s id name = .ok (name', t, s')) : name' = name := by
  rw [messageLiteral] at h
  split at h
  · cases h
    rfl
  · next d hd =>
    simp only [bind_eq_ok, pure_eq_ok] at h
    obtain ⟨s₁, -, heq⟩ := h
    cases heq
    exact Env.name_of_lookupIdent? hc hname hd

section Names

variable (hc : env.container = {})

include hc

theorem name_of_selectedDecl? {operand : Expr} (hplain : operand.Plain) {field : String}
    {d : IdentDecl} (hd : selectedDecl? env operand field = some d) :
    ∃ p, operand.qualifiedName? = some p ∧ d.name = p ++ "." ++ field ∧
      env.lookupIdent? d.name = some d := by
  obtain ⟨p, hp, hlookup⟩ := Option.bind_eq_some_iff.1 hd
  obtain ⟨hne, hroot⟩ := hplain.qualifiedName? hp
  have hname : d.name = p ++ "." ++ field := by
    apply Env.name_of_lookupIdent? hc _ hlookup
    rw [String.append_assoc]
    exact Dotted.rooted?_append hne hroot _
  exact ⟨p, hp, hname, hname ▸ hlookup⟩

theorem name_of_namespacedFunction? {target : Expr} (hplain : target.Plain) {f : String}
    {d : FunctionDecl} (hd : namespacedFunction? env target f = some d) :
    ∃ p, target.qualifiedName? = some p ∧ d.name = p ++ "." ++ f ∧
      env.lookupFunction? d.name = some d := by
  obtain ⟨p, hp, hlookup⟩ := Option.bind_eq_some_iff.1 hd
  obtain ⟨hne, hroot⟩ := hplain.qualifiedName? hp
  have hname : d.name = p ++ "." ++ f := by
    apply Env.name_of_lookupFunction? hc _ hlookup
    rw [String.append_assoc]
    exact Dotted.rooted?_append hne hroot _
  exact ⟨p, hp, hname, hname ▸ hlookup⟩

end Names

/-- A check of `e` that ends with `e'` would have ended the same way from `e'`. -/
structure Settled (env : Env) (s : State) (e e' : Expr) (s' : State) : Prop where
  id_eq : e'.id = e.id
  name_eq : e'.qualifiedName? = e.qualifiedName?
  completes : Completes env s e' e' s'

def Settles (env : Env) (s : State) (e e' : Expr) (s' : State) : Prop :=
  env.container = {} → e.Plain → Settled env s e e' s'

section Lists

variable (hc : env.container = {})

include hc

theorem InTurn.settled {es es' : List Expr} (h : InTurn (Settles env) s es es' s')
    (hes : ∀ n ∈ Expr.nodesAll es, n.IsPlain) :
    es'.map Expr.id = es.map Expr.id ∧ InTurn (Completes env) s es' es' s' := by
  induction h with
  | nil => exact ⟨rfl, .nil⟩
  | cons he _ ih =>
    rw [Expr.nodesAll, List.forall_mem_append] at hes
    have he := he hc hes.1
    obtain ⟨hids, hrest⟩ := ih hes.2
    refine ⟨?_, .cons he.completes hrest⟩
    rw [List.map_cons, List.map_cons, he.id_eq, hids]

theorem Joined.settled {es es' : List Expr} {t t' : Option Ty}
    (h : Joined (Settles env) env s t es es' t' s')
    (hes : ∀ n ∈ Expr.nodesAll es, n.IsPlain) : Joined (Completes env) env s t es' es' t' s' := by
  induction h with
  | nil => exact .nil
  | cons he hj _ ih =>
    rw [Expr.nodesAll, List.forall_mem_append] at hes
    have he := he hc hes.1
    rw [← he.id_eq] at hj
    exact .cons he.completes hj (ih hes.2)

theorem JoinedEntries.settled {es es' : List Entry} {k v k' v' : Option Ty}
    (h : JoinedEntries (Settles env) env s k v es es' k' v' s')
    (hes : ∀ n ∈ Expr.nodesEntries es, n.IsPlain) :
    JoinedEntries (Completes env) env s k v es' es' k' v' s' := by
  induction h with
  | nil => exact .nil
  | cons hx hk hy hv _ ih =>
    rw [Expr.nodesEntries, List.forall_mem_append, List.forall_mem_append] at hes
    have hx := hx hc hes.1.1
    have hy := hy hc hes.1.2
    rw [← hx.id_eq] at hk
    rw [← hy.id_eq] at hv
    exact .cons hx.completes hk hy.completes hv (ih hes.2)

theorem Initialized.settled {fs fs' : List FieldInit} {message : Ty}
    (h : Initialized (Settles env) env message s fs fs' s')
    (hfs : ∀ n ∈ Expr.nodesFields fs, n.IsPlain) :
    Initialized (Completes env) env message s fs' fs' s' := by
  induction h with
  | nil => exact .nil
  | cons hx _ ih =>
    rw [Expr.nodesFields, List.forall_mem_append] at hfs
    have hx := hx hc hfs.1
    refine .cons hx.completes ?_
    rw [hx.id_eq]
    exact ih hfs.2

end Lists

theorem Settled.selectedDecl? {operand operand' : Expr} (h : Settled env s operand operand' s')
    (field : String) : selectedDecl? env operand' field = selectedDecl? env operand field := by
  rw [Checker.selectedDecl?, h.name_eq, Checker.selectedDecl?]

theorem Settled.namespacedFunction? {target target' : Expr} (h : Settled env s target target' s')
    (f : String) : namespacedFunction? env target' f = namespacedFunction? env target f := by
  rw [Checker.namespacedFunction?, h.name_eq, Checker.namespacedFunction?]

theorem Rule.settles {e e' : Expr} (h : Rule Settles env s e e' s') : Settles env s e e' s' := by
  intro hc hplain
  -- each rule is applied again, except that a name made of several nodes is one node now
  cases h with
  | const hs => exact ⟨rfl, rfl, Rule.completes (.const hs)⟩
  | @ident s' id name d hd hs =>
    have hname := Env.name_of_lookupIdent? hc (hplain _ (List.mem_singleton_self _)).2 hd
    refine ⟨rfl, ?_, Rule.completes (.ident ?_ hs)⟩
    · rw [hname]
    · rw [hname, hd]
  | undeclaredIdent hd hs => exact ⟨rfl, rfl, Rule.completes (.undeclaredIdent hd hs)⟩
  | @qualifiedIdent s' id operand field d hd hs =>
    obtain ⟨p, hp, hname, hlookup⟩ :=
      name_of_selectedDecl? hc (fun n hn => hplain n (List.mem_cons_of_mem _ hn)) hd
    refine ⟨rfl, ?_, Rule.completes (.ident hlookup hs)⟩
    rw [Expr.qualifiedName?, Expr.qualifiedName?, hp, hname, Option.map_some]
  | testedIdent hd hs => exact ⟨rfl, rfl, Rule.completes (.testedIdent hd hs)⟩
  | @select s₁ s₂ s' id operand operand' field testOnly t hd ho hsel hs =>
    have ho := ho hc fun n hn => hplain n (List.mem_cons_of_mem _ hn)
    rw [← ho.id_eq] at hsel
    refine ⟨rfl, ?_, Rule.completes (.select ?_ ho.completes hsel hs)⟩
    · cases testOnly with
      | true => rfl
      | false => rw [Expr.qualifiedName?, ho.name_eq, Expr.qualifiedName?]
    · rw [ho.selectedDecl?, hd]
  | @call s₁ s' id f args args' d hargs hd hs =>
    obtain ⟨hids, hargs⟩ := hargs.settled hc fun n hn => hplain n (List.mem_cons_of_mem _ hn)
    have hname := Env.name_of_lookupFunction? hc (hplain _ List.mem_cons_self) hd
    rw [← hids] at hs
    refine ⟨rfl, rfl, Rule.completes (.call hargs ?_ hs)⟩
    rw [hname, hd]
  | undeclaredCall hargs hd hs =>
    obtain ⟨-, hargs⟩ := hargs.settled hc fun n hn => hplain n (List.mem_cons_of_mem _ hn)
    exact ⟨rfl, rfl, Rule.completes (.undeclaredCall hargs hd hs)⟩
  | @namespacedCall s₁ s' id target f args args' d hargs hn hs =>
    have hnodes := List.forall_mem_append.1 fun n hn => hplain n (List.mem_cons_of_mem _ hn)
    obtain ⟨hids, hargs⟩ := hargs.settled hc hnodes.2
    obtain ⟨-, -, -, hlookup⟩ := name_of_namespacedFunction? hc hnodes.1 hn
    rw [← hids] at hs
    exact ⟨rfl, rfl, Rule.completes (.call hargs hlookup hs)⟩
  | method hargs hn ht hd hs =>
    have hnodes := List.forall_mem_append.1 fun n hn => hplain n (List.mem_cons_of_mem _ hn)
    obtain ⟨hids, hargs⟩ := hargs.settled hc hnodes.2
    have ht := ht hc hnodes.1
    rw [← hids, ← ht.id_eq] at hs
    refine ⟨rfl, rfl, Rule.completes (.method hargs ?_ ht.completes hd hs)⟩
    rw [ht.namespacedFunction?, hn]
  | undeclaredMethod hargs hn ht hd hs =>
    have hnodes := List.forall_mem_append.1 fun n hn => hplain n (List.mem_cons_of_mem _ hn)
    obtain ⟨-, hargs⟩ := hargs.settled hc hnodes.2
    have ht := ht hc hnodes.1
    refine ⟨rfl, rfl, Rule.completes (.undeclaredMethod hargs ?_ ht.completes hd hs)⟩
    rw [ht.namespacedFunction?, hn]
  | list helems hf hs =>
    have helems := helems.settled hc fun n hn => hplain n (List.mem_cons_of_mem _ hn)
    exact ⟨rfl, rfl, Rule.completes (.list helems hf hs)⟩
  | map hentries hk hv hs =>
    have hentries := hentries.settled hc fun n hn => hplain n (List.mem_cons_of_mem _ hn)
    exact ⟨rfl, rfl, Rule.completes (.map hentries hk hv hs)⟩
  | message hname hs hfields =>
    have hfields := hfields.settled hc fun n hn => hplain n (List.mem_cons_of_mem _ hn)
    obtain rfl := messageLiteral_name hc (hplain _ List.mem_cons_self) hname
    exact ⟨rfl, rfl, Rule.completes (.message hname hs hfields)⟩
  | fold hr hi hiter haccu hloop hc' hs ha hset =>
    simp only [Expr.Plain, Expr.nodes, List.forall_mem_cons, List.forall_mem_append] at hplain
    obtain ⟨-, ⟨⟨⟨hpr, hpi⟩, hpc⟩, hps⟩, hpa⟩ := hplain
    have hr := hr hc hpr
    have hi := hi hc hpi
    have hcond := hc' (by rw [hloop, haccu]; exact hc) hpc
    have hs := hs (by rw [hloop, haccu]; exact hc) hps
    have ha := ha (by rw [haccu]; exact hc) hpa
    refine ⟨rfl, rfl, Rule.completes ?_⟩
    rw [← hr.id_eq] at hiter
    rw [← ha.id_eq] at hset
    have hscomp := hs.completes
    have hacomp := ha.completes
    rw [← hcond.id_eq] at hscomp
    rw [← hs.id_eq, ← hi.id_eq] at hacomp
    rw [← hi.id_eq] at haccu
    exact .fold hr.completes hi.completes hiter haccu hloop hcond.completes hscomp hacomp hset

theorem Completes.settled {e e' : Expr} (hc : env.container = {}) (hplain : e.Plain)
    (h : Completes env s e e' s') : Settled env s e e' s' :=
  h.induction (fun _ _ _ _ _ => Rule.settles) hc hplain

end Checker

open Checker

/-- In an empty container, and if names have no leading dot, checking the checked tree again gives
the same tree, types, references and diagnostics. -/
theorem check_checked {env : Env} {source : Source} {e : Expr} {r : CheckResult}
    (hc : env.container = {}) (hplain : e.Plain) (h : check env source e = .ok r) :
    check env source r.expr = .ok r := by
  obtain ⟨e', s, hs, rfl⟩ := check_eq_ok_iff.1 h
  exact check_eq_ok_iff.2 ⟨e', s, (hs.settled hc hplain).completes, rfl⟩

theorem check_checked_of_fold :
    let env : Env :=
      { container := {}, provider := (Catalog.addMessage {} "M" []).provider,
        scopes := (({} : Scopes).addIdent { name := "a.b", ty := .int }).setFunction
          { name := "m.f", overloads := [{ id := "f", params := [.int], result := .int }] } }
    let e : Expr :=
      .fold 1 "i" (.list 2 [.select 3 (.ident 4 "a") "b" false]) "x" (.list 5 [])
        (.const 6 (.bool true)) (.method 7 (.ident 8 "m") "f" [.ident 9 "i"]) (.ident 10 "x")
    e.Plain ∧ ∃ r, check env {} e = .ok r ∧ r.expr.walk = [1, 2, 3, 5, 6, 7, 9, 10] ∧
      r.diagnostics.map (·.cause) = [.typeMismatch (.list (freshVar 0)) .int] ∧
      check env {} r.expr = .ok r := by
  intro env e
  have hplain : e.Plain := by
    simp only [Expr.Plain, e, Expr.nodes, Expr.nodesAll]
    simp [Expr.IsPlain]
    decide
  obtain ⟨r, h⟩ : ∃ r, check env {} e = .ok r := ⟨_, rfl⟩
  refine ⟨hplain, r, h, ?_, ?_, check_checked rfl hplain h⟩
  · cases h
    rfl
  · cases h
    rfl

end ExprTyping
