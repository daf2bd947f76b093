import ExprTyping.Expr.Draft
import ExprTyping.Proofs.CheckedTree

namespace ExprTyping

open Relation

namespace Expr

mutual
def ids : Expr → List Int
  | const i _ => [i]
  | ident i _ => [i]
  | select i operand _ _ => i :: operand.ids
  | call i _ args => i :: idsAll args
  | method i target _ args => i :: (target.ids ++ idsAll args)
  | list i elems => i :: idsAll elems
  | message i _ fields => i :: idsFields fields
  | map i entries => i :: idsEntries entries
  | fold i _ range _ init condition step result =>
    i :: (range.ids ++ init.ids ++ condition.ids ++ step.ids ++ result.ids)

def idsAll : List Expr → List Int
  | [] => []
  | e :: es => e.ids ++ idsAll es

def idsFields : List FieldInit → List Int
  | [] => []
  | .mk i _ value :: fs => i :: (value.ids ++ idsFields fs)

def idsEntries : List Entry → List Int
  | [] => []
  | .mk i key value :: es => i :: (key.ids ++ value.ids ++ idsEntries es)
end

theorem idsAll_eq_flatMap (es : List Expr) : idsAll es = es.flatMap ids := by
  induction es with
  | nil => rfl
  | cons e es ih => simp [idsAll, ih]

theorem idsFields_eq_flatMap (fs : List FieldInit) :
    idsFields fs = fs.flatMap fun f => idsFields [f] := by
  induction fs with
  | nil => rfl
  | cons f fs ih =>
    obtain ⟨i, f, v⟩ := f
    simp [idsFields, ← ih]

theorem idsEntries_eq_flatMap (es : List Entry) :
    idsEntries es = es.flatMap fun e => idsEntries [e] := by
  induction es with
  | nil => rfl
  | cons e es ih =>
    obtain ⟨i, k, v⟩ := e
    simp [idsEntries, ← ih]

theorem walkAll_sublist_idsAll {es : List Expr} (h : ∀ e ∈ es, e.walk.Sublist e.ids) :
    (walkAll es).Sublist (idsAll es) := by
  induction es with
  | nil => exact .slnil
  | cons e es ih =>
    rw [List.forall_mem_cons] at h
    exact h.1.append (ih h.2)

theorem walkFields_sublist_idsFields {fs : List FieldInit}
    (h : ∀ i f v, .mk i f v ∈ fs → v.walk.Sublist v.ids) :
    (walkFields fs).Sublist (idsFields fs) := by
  induction fs with
  | nil => exact .slnil
  | cons f fs ih =>
    obtain ⟨i, f, v⟩ := f
    apply List.Sublist.cons
    apply (h i f v List.mem_cons_self).append
    exact ih fun i f v hm => h i f v (List.mem_cons_of_mem _ hm)

theorem walkEntries_sublist_idsEntries {es : List Entry}
    (h : ∀ i k v, .mk i k v ∈ es → k.walk.Sublist k.ids ∧ v.walk.Sublist v.ids) :
    (walkEntries es).Sublist (idsEntries es) := by
  induction es with
  | nil => exact .slnil
  | cons e es ih =>
    obtain ⟨i, k, v⟩ := e
    obtain ⟨hk, hv⟩ := h i k v List.mem_cons_self
    apply List.Sublist.cons
    apply (hk.append hv).append
    exact ih fun i k v hm => h i k v (List.mem_cons_of_mem _ hm)

theorem walk_sublist_ids (e : Expr) : e.walk.Sublist e.ids := by
  induction e with
  | const i v => exact .refl _
  | ident i name => exact .refl _
  | select i operand field testOnly ih => exact ih.cons_cons i
  | call i f args ih => exact (walkAll_sublist_idsAll ih).cons_cons i
  | method i target f args iht ih => exact (iht.append (walkAll_sublist_idsAll ih)).cons_cons i
  | list i elems ih => exact (walkAll_sublist_idsAll ih).cons_cons i
  | message i name fields ih => exact (walkFields_sublist_idsFields ih).cons_cons i
  | map i entries ih => exact (walkEntries_sublist_idsEntries ih).cons_cons i
  | fold i iter range accu init condition step result ihr ihi ihc ihs iha =>
    exact ((((ihr.append ihi).append ihc).append ihs).append iha).cons_cons i

theorem mem_nodes_self (e : Expr) : e ∈ e.nodes := by
  cases e <;> simp [nodes]

theorem mem_nodesAll {e : Expr} {es : List Expr} (h : e ∈ es) : e ∈ nodesAll es := by
  induction es with
  | nil => cases h
  | cons d es ih =>
    rcases List.mem_cons.1 h with rfl | h
    · exact List.mem_append_left _ e.mem_nodes_self
    · exact List.mem_append_right _ (ih h)

theorem mem_nodesFields {i : Int} {f : String} {v : Expr} {fs : List FieldInit}
    (h : .mk i f v ∈ fs) : v ∈ nodesFields fs := by
  induction fs with
  | nil => cases h
  | cons g fs ih =>
    obtain ⟨j, g, w⟩ := g
    rcases List.mem_cons.1 h with heq | h
    · cases heq
      exact List.mem_append_left _ v.mem_nodes_self
    · exact List.mem_append_right _ (ih h)

theorem mem_nodesEntries {i : Int} {k v : Expr} {es : List Entry} (h : .mk i k v ∈ es) :
    k ∈ nodesEntries es ∧ v ∈ nodesEntries es := by
  induction es with
  | nil => cases h
  | cons e es ih =>
    obtain ⟨j, x, y⟩ := e
    rcases List.mem_cons.1 h with heq | h
    · cases heq
      simp [nodesEntries, mem_nodes_self]
    · exact ⟨List.mem_append_right _ (ih h).1, List.mem_append_right _ (ih h).2⟩

end Expr

namespace Build

section Uses

variable {α β : Type} {g r total : List Int} {x : Build α} {f : α → Build β}
  {o : α → List Int} {o' : β → List Int}

/-- The ids in what is built are the given ones and, once each, those taken from the counter. -/
structure Uses (given : List Int) (x : Build α) (o : α → List Int) : Prop where
  next : ∀ n, n ≤ (x.run n).2
  count : ∀ n i, (o (x.run n).1).count i =
    given.count i + if n ≤ i ∧ i < (x.run n).2 then 1 else 0

namespace Uses

theorem pure {a : α} (h : ∀ i, (o a).count i = g.count i) : Uses g (Pure.pure a) o := by
  refine ⟨fun n => Int.le_refl n, fun n i => ?_⟩
  have hnone : ¬ (n ≤ i ∧ i < n) := by omega
  exact (if_neg hnone).symm ▸ h i

theorem bind (hx : Uses g x o) (hg : ∀ i, total.count i = g.count i + r.count i)
    (hf : ∀ a, Uses (o a ++ r) (f a) o') : Uses total (x >>= f) o' := by
  constructor
  · intro n
    exact Int.le_trans (hx.next n) ((hf _).next _)
  · intro n i
    have hn := hx.next n
    have hn' := (hf (x.run n).1).next (x.run n).2
    have hcount := (hf (x.run n).1).count (x.run n).2 i
    rw [List.count_append, hx.count n i] at hcount
    change (o' ((f (x.run n).1).run (x.run n).2).1).count i =
      total.count i + if n ≤ i ∧ i < ((f (x.run n).1).run (x.run n).2).2 then 1 else 0
    rw [hcount, hg]
    split_ifs <;> omega

theorem leaf (hx : Uses [] x o) (hf : ∀ a, Uses (o a ++ g) (f a) o') : Uses g (x >>= f) o' :=
  hx.bind (fun _ => (Nat.zero_add _).symm) hf

theorem congr (hx : Uses g x o) (h : ∀ i, r.count i = g.count i) : Uses r x o :=
  ⟨hx.next, fun n i => by rw [hx.count, h]⟩

theorem freshId : Uses [] Build.freshId fun i => [i] := by
  constructor
  · intro n
    exact Int.le.intro 1 rfl
  · intro n i
    change [n].count i = 0 + if n ≤ i ∧ i < n + 1 then 1 else 0
    by_cases h : n = i
    · subst h
      simp
    · rw [List.count_singleton, if_neg (by simpa using h), if_neg (by omega)]

theorem mapM {given : α → List Int} (hf : ∀ a, Uses (given a) (f a) o') (l : List α) :
    Uses (l.flatMap given) (l.mapM f) (·.flatMap o') := by
  induction l with
  | nil => exact pure fun i => rfl
  | cons a l ih =>
    rw [List.mapM_cons]
    apply (hf a).bind (r := l.flatMap given)
    · simp
    · intro b
      apply ih.bind (r := o' b)
      · grind
      · intro bs
        apply pure
        grind

end Uses

theorem uses_node {f : Int → Expr} (h : ∀ i, (f i).ids = i :: g) : Uses g (node f) Expr.ids := by
  apply Uses.freshId.leaf
  intro i
  apply Uses.pure
  simp [h]

theorem uses_const (v : Value) : Uses [] (const v) Expr.ids := uses_node fun _ => rfl

theorem uses_ident (name : String) : Uses [] (ident name) Expr.ids := uses_node fun _ => rfl

theorem uses_accu : Uses [] accu Expr.ids := uses_ident accuName

theorem uses_select (operand : Expr) (field : String) :
    Uses operand.ids (select operand field) Expr.ids :=
  uses_node fun _ => rfl

theorem uses_call (function : String) (args : List Expr) :
    Uses (Expr.idsAll args) (call function args) Expr.ids :=
  uses_node fun _ => rfl

theorem uses_list (elems : List Expr) : Uses (Expr.idsAll elems) (list elems) Expr.ids :=
  uses_node fun _ => rfl

theorem uses_fold (iter : String) (range : Expr) (accu : String)
    (init condition step result : Expr) :
    Uses (range.ids ++ init.ids ++ condition.ids ++ step.ids ++ result.ids)
      (fold iter range accu init condition step result) Expr.ids :=
  uses_node fun _ => rfl

theorem uses_foldlM_select (fields : List String) (operand : Expr) :
    Uses operand.ids (fields.foldlM select operand) Expr.ids := by
  induction fields generalizing operand with
  | nil => exact Uses.pure fun i => rfl
  | cons field fields ih =>
    rw [List.foldlM_cons]
    apply (uses_select operand field).bind (r := [])
    · simp
    · intro e
      simpa using ih e

theorem uses_qualified (name : String) : Uses [] (qualified name) Expr.ids := by
  rw [qualified]
  cases (Text.Dotted.segments name.toList).map String.ofList with
  | nil => exact uses_ident ""
  | cons first rest =>
    apply (uses_ident first).leaf
    intro e
    simpa using uses_foldlM_select rest e

theorem uses_map (entries : List (Expr × Expr)) :
    Uses (entries.flatMap fun e => e.1.ids ++ e.2.ids) (map entries) Expr.ids := by
  have hentry (e : Expr × Expr) : Uses (e.1.ids ++ e.2.ids)
      (do return Entry.mk (← Build.freshId) e.1 e.2) fun d => Expr.idsEntries [d] := by
    apply Uses.freshId.leaf
    intro i
    apply Uses.pure
    simp [Expr.idsEntries]
  apply (Uses.mapM hentry entries).bind (r := [])
  · simp
  · intro es
    apply uses_node
    intro i
    rw [List.append_nil, ← Expr.idsEntries_eq_flatMap]
    rfl

theorem uses_message (name : String) (fields : List (String × Expr)) :
    Uses (fields.flatMap fun f => f.2.ids) (message name fields) Expr.ids := by
  have hfield (f : String × Expr) : Uses f.2.ids
      (do return FieldInit.mk (← Build.freshId) f.1 f.2) fun d => Expr.idsFields [d] := by
    apply Uses.freshId.leaf
    intro i
    apply Uses.pure
    simp [Expr.idsFields]
  apply (Uses.mapM hfield fields).bind (r := [])
  · simp
  · intro fs
    apply uses_node
    intro i
    rw [List.append_nil, ← Expr.idsFields_eq_flatMap]
    rfl

theorem uses_append (element : Expr) : Uses element.ids (append element) Expr.ids := by
  apply uses_accu.leaf
  intro front
  apply (uses_list [element]).bind (r := front.ids)
  · grind [Expr.idsAll]
  · intro back
    apply (uses_call "_+_" [front, back]).congr
    grind [Expr.idsAll]

variable (range : Expr) (var : String) (predicate transform : Expr)

theorem uses_loop (init condition step : Expr) :
    Uses (step.ids ++ (condition.ids ++ (init.ids ++ range.ids)))
      (do fold var range accuName init condition step (← accu)) Expr.ids := by
  apply uses_accu.leaf
  intro result
  apply (uses_fold var range accuName init condition step result).congr
  grind

theorem uses_all : Uses (range.ids ++ predicate.ids) (all range var predicate) Expr.ids := by
  refine (uses_const _).leaf fun init => uses_accu.leaf fun a => ?_
  refine (uses_call _ [a]).bind (r := init.ids ++ (range.ids ++ predicate.ids)) ?_
    fun condition => uses_accu.leaf fun b => ?_
  · grind [Expr.idsAll]
  refine (uses_call _ [b, predicate]).bind (r := condition.ids ++ (init.ids ++ range.ids)) ?_
    fun step => uses_loop range var init condition step
  grind [Expr.idsAll]

theorem uses_exists_ :
    Uses (range.ids ++ predicate.ids) (exists_ range var predicate) Expr.ids := by
  refine (uses_const _).leaf fun init => uses_accu.leaf fun a => ?_
  refine (uses_call _ [a]).bind (r := init.ids ++ (range.ids ++ predicate.ids)) ?_
    fun negated => ?_
  · grind [Expr.idsAll]
  refine (uses_call _ [negated]).bind (r := init.ids ++ (range.ids ++ predicate.ids)) ?_
    fun condition => uses_accu.leaf fun b => ?_
  · grind [Expr.idsAll]
  refine (uses_call _ [b, predicate]).bind (r := condition.ids ++ (init.ids ++ range.ids)) ?_
    fun step => uses_loop range var init condition step
  grind [Expr.idsAll]

theorem uses_existsOne :
    Uses (range.ids ++ predicate.ids) (existsOne range var predicate) Expr.ids := by
  refine (uses_const _).leaf fun init => (uses_const _).leaf fun condition => ?_
  refine uses_accu.leaf fun counted => (uses_const _).leaf fun one => ?_
  refine (uses_call _ [counted, one]).bind
    (r := condition.ids ++ (init.ids ++ (range.ids ++ predicate.ids))) ?_
    fun incremented => uses_accu.leaf fun kept => ?_
  · grind [Expr.idsAll]
  refine (uses_call _ [predicate, incremented, kept]).bind
    (r := condition.ids ++ (init.ids ++ range.ids)) ?_
    fun step => uses_accu.leaf fun counter => (uses_const _).leaf fun one' => ?_
  · grind [Expr.idsAll]
  refine (uses_call _ [counter, one']).bind
    (r := step.ids ++ (condition.ids ++ (init.ids ++ range.ids))) ?_ fun result => ?_
  · grind [Expr.idsAll]
  · exact (uses_fold var range accuName init condition step result).congr (by grind)

theorem uses_mapEach :
    Uses (range.ids ++ transform.ids) (mapEach range var transform) Expr.ids := by
  refine (uses_list []).leaf fun init => (uses_const _).leaf fun condition => ?_
  refine (uses_append transform).bind (r := condition.ids ++ (init.ids ++ range.ids)) ?_
    fun step => uses_loop range var init condition step
  grind

theorem uses_mapWhere :
    Uses (range.ids ++ predicate.ids ++ transform.ids) (mapWhere range var predicate transform)
      Expr.ids := by
  refine (uses_list []).leaf fun init => (uses_const _).leaf fun condition => ?_
  refine (uses_append transform).bind
    (r := condition.ids ++ (init.ids ++ (range.ids ++ predicate.ids))) ?_
    fun appended => uses_accu.leaf fun kept => ?_
  · grind
  refine (uses_call _ [predicate, appended, kept]).bind
    (r := condition.ids ++ (init.ids ++ range.ids)) ?_
    fun step => uses_loop range var init condition step
  grind [Expr.idsAll]

theorem uses_filter :
    Uses (range.ids ++ predicate.ids) (filter range var predicate) Expr.ids := by
  refine (uses_list []).leaf fun init => (uses_const _).leaf fun condition => ?_
  refine (uses_ident var).leaf fun element => (uses_append element).bind
    (r := condition.ids ++ (init.ids ++ (range.ids ++ predicate.ids))) ?_
    fun appended => uses_accu.leaf fun kept => ?_
  · grind
  refine (uses_call _ [predicate, appended, kept]).bind
    (r := condition.ids ++ (init.ids ++ range.ids)) ?_
    fun step => uses_loop range var init condition step
  grind [Expr.idsAll]

theorem uses_macroCall (m : Macro) :
    Uses (range.ids ++ predicate.ids) (m.build range var predicate) Expr.ids := by
  cases m with
  | all => exact uses_all range var predicate
  | exists_ => exact uses_exists_ range var predicate
  | existsOne => exact uses_existsOne range var predicate
  | mapEach => exact uses_mapEach range var predicate
  | filter => exact uses_filter range var predicate

end Uses

inductive Call
  | const (value : Value)
  | ident (name : String)
  | select (operand : Expr) (field : String)
  | has (operand : Expr) (field : String)
  | qualified (name : String)
  | call (function : String) (args : List Expr)
  | method (function : String) (target : Expr) (args : List Expr)
  | list (elems : List Expr)
  | map (entries : List (Expr × Expr))
  | message (name : String) (fields : List (String × Expr))
  | fold (iter : String) (range : Expr) (accu : String) (init condition step result : Expr)
  | macroCall (m : Macro) (range : Expr) (var : String) (body : Expr)
  | mapWhere (range : Expr) (var : String) (filter transform : Expr)

namespace Call

def children : Call → List Expr
  | const _ | ident _ | qualified _ => []
  | select operand _ | has operand _ => [operand]
  | call _ args => args
  | method _ target args => target :: args
  | list elems => elems
  | map entries => entries.flatMap fun e => [e.1, e.2]
  | message _ fields => fields.map (·.2)
  | fold _ range _ init condition step result => [range, init, condition, step, result]
  | macroCall _ range _ body => [range, body]
  | mapWhere range _ filter transform => [range, filter, transform]

def build : Call → Build Expr
  | const value => Build.const value
  | ident name => Build.ident name
  | select operand field => Build.select operand field
  | has operand field => Build.has operand field
  | qualified name => Build.qualified name
  | call function args => Build.call function args
  | method function target args => Build.method function target args
  | list elems => Build.list elems
  | map entries => Build.map entries
  | message name fields => Build.message name fields
  | fold iter range accu init condition step result =>
    Build.fold iter range accu init condition step result
  | macroCall m range var body => m.build range var body
  | mapWhere range var filter transform => Build.mapWhere range var filter transform

theorem uses (c : Call) : Uses (c.children.flatMap Expr.ids) c.build Expr.ids := by
  cases c with
  | const value => exact uses_const value
  | ident name => exact uses_ident name
  | select operand field => exact (uses_select operand field).congr (by simp [children])
  | has operand field => exact uses_node (by simp [children, Expr.ids])
  | qualified name => exact uses_qualified name
  | call f args => exact uses_node (by simp [children, Expr.ids, Expr.idsAll_eq_flatMap])
  | method f target args => exact uses_node (by simp [children, Expr.ids, Expr.idsAll_eq_flatMap])
  | list elems => exact uses_node (by simp [children, Expr.ids, Expr.idsAll_eq_flatMap])
  | map entries =>
    apply (uses_map entries).congr
    simp [children, List.flatMap_assoc]
  | message name fields =>
    apply (uses_message name fields).congr
    simp [children, List.flatMap_map]
  | fold iter range accu init condition step result =>
    exact uses_node (by simp [children, Expr.ids])
  | macroCall m range var body =>
    exact (uses_macroCall range var body m).congr (by simp [children])
  | mapWhere range var filter transform =>
    exact (uses_mapWhere range var filter transform).congr (by simp [children])

theorem mem_mapM {α β : Type} {f : α → Build β} {l : List α} {a : α} (h : a ∈ l) (n : Int) :
    ∃ k, ((f a).run k).1 ∈ ((l.mapM f).run n).1 := by
  induction l generalizing n with
  | nil => cases h
  | cons b l ih =>
    rw [List.mapM_cons]
    rcases List.mem_cons.1 h with rfl | h
    · exact ⟨n, List.mem_cons_self⟩
    · obtain ⟨k, hk⟩ := ih h ((f b).run n).2
      exact ⟨k, List.mem_cons_of_mem _ hk⟩

theorem mem_nodes_of_mem_children (c : Call) (n : Int) {x : Expr} (h : x ∈ c.children) :
    x ∈ (c.build.run n).1.nodes := by
  cases c with
  | const value => cases h
  | ident name => cases h
  | qualified name => cases h
  | select operand field =>
    obtain rfl := List.mem_singleton.1 h
    exact List.mem_cons_of_mem _ x.mem_nodes_self
  | has operand field =>
    obtain rfl := List.mem_singleton.1 h
    exact List.mem_cons_of_mem _ x.mem_nodes_self
  | call f args => exact List.mem_cons_of_mem _ (Expr.mem_nodesAll h)
  | method f target args =>
    apply List.mem_cons_of_mem
    rcases List.mem_cons.1 h with rfl | h
    · exact List.mem_append_left _ x.mem_nodes_self
    · exact List.mem_append_right _ (Expr.mem_nodesAll h)
  | list elems => exact List.mem_cons_of_mem _ (Expr.mem_nodesAll h)
  | map entries =>
    obtain ⟨e, he, hx⟩ := List.mem_flatMap.1 h
    obtain ⟨k, hk⟩ := mem_mapM (f := fun e => do return Entry.mk (← freshId) e.1 e.2) he n
    have hmem := Expr.mem_nodesEntries hk
    apply List.mem_cons_of_mem
    rcases List.mem_pair.1 hx with rfl | rfl
    · exact hmem.1
    · exact hmem.2
  | message name fields =>
    obtain ⟨f, hf, rfl⟩ := List.mem_map.1 h
    obtain ⟨k, hk⟩ := mem_mapM (f := fun f => do return FieldInit.mk (← freshId) f.1 f.2) hf n
    exact List.mem_cons_of_mem _ (Expr.mem_nodesFields hk)
  | fold iter range accu init condition step result =>
    simp only [children, List.mem_cons, List.not_mem_nil, or_false] at h
    change x ∈ Expr.nodes (.fold n ..)
    rcases h with rfl | rfl | rfl | rfl | rfl <;> simp [Expr.nodes, Expr.mem_nodes_self]
  | macroCall m range var body =>
    cases m <;> change x ∈ Expr.nodes (.fold _ _ _ _ _ _ (.call _ _ _) _) <;>
      rcases List.mem_pair.1 h with rfl | rfl <;>
      simp [Expr.nodes, Expr.nodesAll, Expr.mem_nodes_self]
  | mapWhere range var filter transform =>
    simp only [children, List.mem_cons, List.not_mem_nil, or_false] at h
    change x ∈ Expr.nodes (.fold _ _ _ _ _ _ (.call _ _ [_, .call _ _ _, _]) _)
    rcases h with rfl | rfl | rfl <;> simp [Expr.nodes, Expr.nodesAll, Expr.mem_nodes_self]

end Call

/-- What one counter has built: the expressions returned so far, and those that are no child of
another one yet. -/
structure Workbench where
  nextId : Int := firstId
  returned : List Expr := []
  unused : List Expr := []

namespace Workbench

variable {w w' : Workbench}

/-- A call takes its children from the unused expressions and leaves the rest of them. -/
inductive Step : Workbench → Workbench → Prop
  | call {w : Workbench} (c : Call) (rest : List Expr) (h : w.unused.Perm (c.children ++ rest)) :
    Step w
      { nextId := (c.build.run w.nextId).2
        returned := (c.build.run w.nextId).1 :: w.returned
        unused := (c.build.run w.nextId).1 :: rest }

def Once (n : Int) (ids : List Int) : Prop :=
  ∀ i, ids.count i ≤ if firstId ≤ i ∧ i < n then 1 else 0

theorem Once.mono {n m : Int} {ids : List Int} (h : Once n ids) (hnm : n ≤ m) : Once m ids := by
  intro i
  have hi := h i
  split_ifs at hi ⊢ <;> omega

theorem Once.nodup {n : Int} {ids : List Int} (h : Once n ids) : ids.Nodup := by
  rw [List.nodup_iff_count_le_one]
  intro i
  have hi := h i
  split_ifs at hi <;> omega

theorem Once.lt {n i : Int} {ids : List Int} (h : Once n ids) (hi : i ∈ ids) :
    firstId ≤ i ∧ i < n := by
  by_contra hn
  have hcount := h i
  rw [if_neg hn] at hcount
  exact absurd (List.count_pos_iff.2 hi) (by omega)

structure Distinct (w : Workbench) : Prop where
  next : firstId ≤ w.nextId
  returned : ∀ e ∈ w.returned, Once w.nextId e.ids
  unused : Once w.nextId (w.unused.flatMap Expr.ids)

theorem Distinct.once_call (hw : w.Distinct) {c : Call} {rest : List Expr}
    (h : w.unused.Perm (c.children ++ rest)) :
    Once (c.build.run w.nextId).2
      (((c.build.run w.nextId).1 :: rest).flatMap Expr.ids) := by
  intro i
  have hpool : (w.unused.flatMap Expr.ids).count i =
      (c.children.flatMap Expr.ids).count i + (rest.flatMap Expr.ids).count i := by
    rw [(h.flatMap_right Expr.ids).count_eq, List.flatMap_append, List.count_append]
  have hold := hw.unused i
  have hfirst := hw.next
  have hnext := c.uses.next w.nextId
  rw [List.flatMap_cons, List.count_append, c.uses.count w.nextId i]
  split_ifs at hold ⊢ <;> omega

theorem Distinct.step (hw : w.Distinct) (h : Step w w') : w'.Distinct := by
  obtain ⟨c, rest, h⟩ := h
  have hnext := c.uses.next w.nextId
  have honce := hw.once_call h
  refine ⟨Int.le_trans hw.next hnext, ?_, honce⟩
  intro e he
  rcases List.mem_cons.1 he with rfl | he
  · intro i
    apply Nat.le_trans _ (honce i)
    rw [List.flatMap_cons, List.count_append]
    exact Nat.le_add_right _ _
  · exact (hw.returned e he).mono hnext

theorem distinct_of_steps (h : ReflTransGen Step {} w) : w.Distinct := by
  induction h with
  | refl => exact ⟨Int.le_refl _, by simp, fun i => Nat.zero_le _⟩
  | tail _ hstep ih => exact ih.step hstep

theorem filter_id_eq_singleton {l : List Expr} {x : Expr} (hl : (l.map Expr.id).Nodup)
    (hx : x ∈ l) : l.filter (·.id = x.id) = [x] := by
  induction l with
  | nil => cases hx
  | cons y l ih =>
    rw [List.map_cons, List.nodup_cons] at hl
    rcases List.mem_cons.1 hx with rfl | hx
    · rw [List.filter_cons_of_pos (by simp), List.filter_eq_nil_iff.2]
      intro z hz hid
      exact hl.1 (of_decide_eq_true hid ▸ List.mem_map_of_mem hz)
    · rw [List.filter_cons_of_neg, ih hl.2 hx]
      intro hid
      exact hl.1 (of_decide_eq_true hid ▸ List.mem_map_of_mem hx)

/-- In what one counter builds no id occurs twice, and only ids below the counter occur. So a call
can tell each of its children in the result by its id. -/
theorem ids_nodup_of_steps (h : ReflTransGen Step {} w) :
    (∀ e ∈ w.returned, e.ids.Nodup ∧ ∀ i ∈ e.ids, 1 ≤ i ∧ i ≤ w.nextId - 1) ∧
    ∀ (c : Call) (rest : List Expr), w.unused.Perm (c.children ++ rest) →
      ∀ x ∈ c.children, (c.build.run w.nextId).1.nodes.filter (·.id = x.id) = [x] := by
  constructor
  · intro e he
    have honce := (distinct_of_steps h).returned e he
    refine ⟨honce.nodup, ?_⟩
    intro i hi
    exact ⟨(honce.lt hi).1, Int.le_sub_one_of_lt (honce.lt hi).2⟩
  · intro c rest hperm x hx
    apply filter_id_eq_singleton _ (c.mem_nodes_of_mem_children w.nextId hx)
    have hids := ((distinct_of_steps h).step (.call c rest hperm)).returned _ List.mem_cons_self
    rw [Expr.map_id_nodes]
    exact hids.nodup.sublist (Expr.walk_sublist_ids _)

theorem ids_nodup_of_steps_nested :
    let d : Draft := .macroCall .exists_ (.list [.const (.int 1)]) "x"
      (.macroCall .all (.ident "y") "z" (.ident "z"))
    d.toExpr.ids.Nodup ∧ (∀ i ∈ d.toExpr.ids, 1 ≤ i ∧ i ≤ 19) ∧
      d.toExpr.nodes.filter (·.id = 2) = [.list 2 [.const 1 (.int 1)]] := by
  have hrange : ReflTransGen Step {} _ :=
    (ReflTransGen.single (.call (.const (.int 1)) [] .nil)).tail
      (.call (.list [.const 1 (.int 1)]) [] (.refl _))
  have hargs := (hrange.tail (.call (.ident "y") _ (.refl _))).tail (.call (.ident "z") _ (.refl _))
  have hbody := hargs.tail (.call (.macroCall .all (.ident 3 "y") "z" (.ident 4 "z"))
    [.list 2 [.const 1 (.int 1)]] (.swap _ _ _))
  have hcall := hbody.tail (.call (.macroCall .exists_ (.list 2 [.const 1 (.int 1)]) "x" _) []
    (.swap _ _ _))
  obtain ⟨hnodup, hbounds⟩ := (ids_nodup_of_steps hcall).1 _ List.mem_cons_self
  refine ⟨hnodup, hbounds, ?_⟩
  exact (ids_nodup_of_steps hbody).2 (.macroCall .exists_ (.list 2 [.const 1 (.int 1)]) "x" _) []
    (.swap _ _ _) _ List.mem_cons_self

end Workbench

end Build

end ExprTyping
