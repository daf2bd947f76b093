import ExprTyping.Proofs.BuiltEnvironments

namespace ExprTyping

section Sameness

theorem Double.same_iff {x y : Double} : x.same y = true ↔
    x.isNaN = false ∧ y.isNaN = false ∧ (x = y ∨ x.isZero = true ∧ y.isZero = true) := by
  obtain ⟨x⟩ := x
  obtain ⟨y⟩ := y
  simp [same, and_assoc]

theorem Double.same_comm (x y : Double) : x.same y = y.same x := by
  rw [Bool.eq_iff_iff, same_iff, same_iff]
  grind

theorem Double.same_trans {x y z : Double} (h : x.same y = true) (h' : y.same z = true) :
    x.same z = true := by
  rw [same_iff] at *
  grind

theorem Value.same_comm (v w : Value) : v.same w = w.same v := by
  cases v <;> cases w <;> simp [same, Double.same_comm, Bool.beq_comm]

theorem Value.same_trans {u v w : Value} (h : u.same v = true) (h' : v.same w = true) :
    u.same w = true := by
  cases u with
  | double x =>
    cases v with
    | double y =>
      cases w with
      | double z => exact Double.same_trans h h'
      | _ => simp [same] at h'
    | _ => simp [same] at h
  | _ =>
    obtain rfl : _ = v := by simpa [same] using h
    exact h'

theorem Value.sameOption_comm (v w : Option Value) : sameOption v w = sameOption w v := by
  cases v <;> cases w <;> simp [sameOption, Value.same_comm]

theorem Value.sameOption_trans {u v w : Option Value} (h : sameOption u v = true)
    (h' : sameOption v w = true) : sameOption u w = true := by
  cases u <;> cases v <;> cases w <;> simp_all [sameOption]
  exact Value.same_trans h h'

namespace IdentDecl

variable {d e f : IdentDecl}

theorem same_comm (d e : IdentDecl) : d.same e = e.same d := by
  simp only [same, Value.sameOption_comm, Bool.beq_comm]

theorem same_trans (h : d.same e = true) (h' : e.same f = true) : d.same f = true := by
  simp only [same, Bool.and_eq_true, beq_iff_eq] at *
  exact ⟨⟨h.1.1.trans h'.1.1, h.1.2.trans h'.1.2⟩, Value.sameOption_trans h.2 h'.2⟩

theorem same_self (h : ∀ x, d.value = some (.double x) → x.isNaN = false) : d.same d = true := by
  have hvalue : Value.sameOption d.value d.value = true := by
    cases hv : d.value with
    | none => rfl
    | some v =>
      cases v with
      | double x => exact Double.same_iff.2 ⟨h x hv, h x hv, .inl rfl⟩
      | _ => simp [Value.sameOption, Value.same]
  simp [same, hvalue]

def FirstSame : List IdentDecl → Prop
  | [] => True
  | d :: ds => ∀ e ∈ ds, d.same e = true

theorem firstSame_toList (o : Option IdentDecl) : FirstSame o.toList := by
  cases o <;> simp [FirstSame]

theorem firstSame_append {l l' : List IdentDecl} :
    FirstSame (l ++ l') ↔ FirstSame l ∧ FirstSame (l.head?.toList ++ l') := by
  cases l with
  | nil => simp [FirstSame]
  | cons d ds => simp [FirstSame, or_imp, forall_and]

theorem firstSame_iff_pairwise {l : List IdentDecl} :
    FirstSame l ↔ l.Pairwise fun d e => d.same e = true := by
  cases l with
  | nil => simp [FirstSame]
  | cons d ds =>
    rw [List.pairwise_cons]
    refine ⟨fun h => ⟨h, ?_⟩, fun h => h.1⟩
    -- two later ones are the same because both are the same as the first
    refine List.pairwise_of_forall_mem_list fun e he f hf => ?_
    exact same_trans ((same_comm e d).trans (h e he)) (h f hf)

end IdentDecl

end Sameness

theorem Table.insert_eq_self {κ α : Type} [DecidableEq κ] {t : Table κ α} {k : κ} {a : α}
    (h : t.find? k = some a) : t.insert k a = t := by
  have hput : ∀ es : List (κ × α), lookup k es = some a → put k a es = es := by
    intro es hes
    induction es with
    | nil => cases hes
    | cons e es ih =>
      obtain ⟨j, b⟩ := e
      by_cases hj : j = k <;> simp_all [lookup, put]
  exact congrArg Table.mk (hput t.entries h)

section Names

def Decl.idents (name : String) : Decl → List IdentDecl
  | .ident d => if d.name = name then [d.normalize] else []
  | .function _ => []

def Decl.overloads (name : String) : Decl → List Overload
  | .ident _ => []
  | .function f => if f.name = name then f.overloads.map Overload.normalize else []

def declaredIdents (name : String) (ds : List Decl) : List IdentDecl := ds.flatMap (·.idents name)

def declaredOverloads (name : String) (ds : List Decl) : List Overload :=
  ds.flatMap (·.overloads name)

variable {name : String} {ds : List Decl}

theorem mem_declaredIdents {d : IdentDecl} : d ∈ declaredIdents name ds ↔
    ∃ e, .ident e ∈ ds ∧ e.name = name ∧ e.normalize = d := by
  rw [declaredIdents, List.mem_flatMap]
  constructor
  · rintro ⟨e | f, he, hd⟩
    · obtain ⟨hname, hd⟩ := List.mem_ite_nil_right.1 hd
      exact ⟨e, he, hname, (List.mem_singleton.1 hd).symm⟩
    · cases hd
  · rintro ⟨e, he, hname, rfl⟩
    exact ⟨.ident e, he, by simp [Decl.idents, hname]⟩

theorem mem_declaredOverloads {o : Overload} : o ∈ declaredOverloads name ds ↔
    ∃ f, .function f ∈ ds ∧ f.name = name ∧ ∃ p ∈ f.overloads, p.normalize = o := by
  rw [declaredOverloads, List.mem_flatMap]
  constructor
  · rintro ⟨e | f, hf, ho⟩
    · cases ho
    · obtain ⟨hname, ho⟩ := List.mem_ite_nil_right.1 ho
      exact ⟨f, hf, hname, List.mem_map.1 ho⟩
  · rintro ⟨f, hf, hname, ho⟩
    exact ⟨.function f, hf, by simpa [Decl.overloads, hname] using ho⟩

theorem declaredIdents_cons (name : String) (d : Decl) (ds : List Decl) :
    declaredIdents name (d :: ds) = d.idents name ++ declaredIdents name ds := rfl

theorem declaredOverloads_cons (name : String) (d : Decl) (ds : List Decl) :
    declaredOverloads name (d :: ds) = d.overloads name ++ declaredOverloads name ds := rfl

end Names

namespace FunctionDecl

variable {f : FunctionDecl} {o : Overload} {os : List Overload}

theorem addOverload_eq_of_mem (h : o ∈ f.overloads) : f.addOverload o = (f, []) := by
  simp [addOverload, h]

theorem addOverload_eq_of_not_mem (h : o ∉ f.overloads) (hnone : f.conflicts o = []) :
    f.addOverload o = ({ f with overloads := f.overloads ++ [o] }, []) := by
  simp [addOverload, h, hnone]

theorem conflicts_addOverload_eq_nil_iff :
    (f.addOverload o).2 = [] ↔ o ∈ f.overloads ∨ f.conflicts o = [] := by
  by_cases h : o ∈ f.overloads
  · simp [addOverload, h]
  · cases hc : f.conflicts o <;> simp [addOverload, h, hc]

@[simp] theorem name_addOverload (f : FunctionDecl) (o : Overload) :
    (f.addOverload o).1.name = f.name := by
  rcases f.addOverload_cases o with h | ⟨-, h⟩ <;> rw [h]

@[simp] theorem name_addOverloads (f : FunctionDecl) (os : List Overload) :
    (f.addOverloads os).1.name = f.name := by
  induction os generalizing f with
  | nil => rfl
  | cons o os ih => exact (ih _).trans (f.name_addOverload o)

theorem addOverloads_cons (f : FunctionDecl) (o : Overload) (os : List Overload) :
    f.addOverloads (o :: os) = (((f.addOverload o).1.addOverloads os).1,
      (f.addOverload o).2 ++ ((f.addOverload o).1.addOverloads os).2) := rfl

theorem addOverloads_append (f : FunctionDecl) (os ps : List Overload) :
    f.addOverloads (os ++ ps) = (((f.addOverloads os).1.addOverloads ps).1,
      (f.addOverloads os).2 ++ ((f.addOverloads os).1.addOverloads ps).2) := by
  induction os generalizing f with
  | nil => rfl
  | cons o os ih => simp [addOverloads_cons, ih, List.append_assoc]

theorem addOverload_grows (f : FunctionDecl) (o : Overload) :
    f.overloads <+: (f.addOverload o).1.overloads ∧
      (f.overloads.Nodup → (f.addOverload o).1.overloads.Nodup) := by
  by_cases h : o ∈ f.overloads
  · rw [addOverload_eq_of_mem h]
    exact ⟨List.prefix_refl _, id⟩
  · rcases f.addOverload_cases o with heq | ⟨-, heq⟩ <;> rw [heq]
    · exact ⟨List.prefix_refl _, id⟩
    · refine ⟨List.prefix_append _ _, fun hf => ?_⟩
      exact List.nodup_append.2 ⟨hf, List.nodup_singleton o, by grind⟩

theorem addOverloads_grows (f : FunctionDecl) (os : List Overload) :
    f.overloads <+: (f.addOverloads os).1.overloads ∧
      (f.overloads.Nodup → (f.addOverloads os).1.overloads.Nodup) := by
  induction os generalizing f with
  | nil => exact ⟨List.prefix_refl _, id⟩
  | cons o os ih =>
    obtain ⟨hpre, hnodup⟩ := f.addOverload_grows o
    obtain ⟨hpre', hnodup'⟩ := ih (f.addOverload o).1
    exact ⟨hpre.trans hpre', fun hf => hnodup' (hnodup hf)⟩

theorem mem_addOverload {p : Overload} (h : (f.addOverload o).2 = []) :
    p ∈ (f.addOverload o).1.overloads ↔ p ∈ f.overloads ∨ p = o := by
  by_cases ho : o ∈ f.overloads
  · rw [addOverload_eq_of_mem ho]
    exact ⟨.inl, fun hp => hp.elim id fun hp => hp ▸ ho⟩
  · have hnone := (conflicts_addOverload_eq_nil_iff.1 h).resolve_left ho
    simp [addOverload_eq_of_not_mem ho hnone]

theorem mem_addOverloads (h : (f.addOverloads os).2 = []) :
    o ∈ (f.addOverloads os).1.overloads ↔ o ∈ f.overloads ∨ o ∈ os := by
  induction os generalizing f with
  | nil => simp [addOverloads]
  | cons p os ih =>
    rw [addOverloads_cons, List.append_eq_nil_iff] at h
    rw [addOverloads_cons, ih h.2, mem_addOverload h.1, List.mem_cons, or_assoc]

theorem addOverloads_eq_of_subset (h : ∀ o ∈ os, o ∈ f.overloads) :
    f.addOverloads os = (f, []) := by
  induction os with
  | nil => rfl
  | cons o os ih =>
    rw [List.forall_mem_cons] at h
    rw [addOverloads_cons, addOverload_eq_of_mem h.1, ih h.2]
    rfl

end FunctionDecl

namespace Scopes

variable {s : Scopes} {d : Decl} {ds : List Decl} {name : String}

def findInnerFunction? (s : Scopes) (name : String) : Option FunctionDecl :=
  s.inner.functions.find? name

def function (s : Scopes) (name : String) : FunctionDecl := (s.findFunction? name).getD { name }

theorem findIdent?_eq (s : Scopes) (name : String) : s.findIdent? name =
    (s.findInnerIdent? name).or (s.outer.findSome? (·.idents.find? name)) := by
  cases h : s.inner.idents.find? name <;> simp [findIdent?, groups, findInnerIdent?, h]

theorem findFunction?_eq (s : Scopes) (name : String) : s.findFunction? name =
    (s.findInnerFunction? name).or (s.outer.findSome? (·.functions.find? name)) := by
  cases h : s.inner.functions.find? name <;> simp [findFunction?, groups, findInnerFunction?, h]

theorem name_function (s : Scopes) (name : String) : (s.function name).name = name := by
  rw [function]
  cases h : s.findFunction? name with
  | none => rfl
  | some f => exact name_of_findFunction? h

theorem addAll_cons (s : Scopes) (d : Decl) (ds : List Decl) :
    s.addAll (d :: ds) = (((s.add d).1.addAll ds).1, (s.add d).2 ++ ((s.add d).1.addAll ds).2) :=
  rfl

theorem outer_add (s : Scopes) (d : Decl) : (s.add d).1.outer = s.outer := by
  cases d with
  | function f => rfl
  | ident d =>
    simp only [add]
    split <;> rfl

theorem outer_addAll (s : Scopes) (ds : List Decl) : (s.addAll ds).1.outer = s.outer := by
  induction ds generalizing s with
  | nil => rfl
  | cons d ds ih => rw [addAll_cons, ih, outer_add]

theorem findInnerFunction?_add_ident (s : Scopes) (d : IdentDecl) (name : String) :
    (s.add (.ident d)).1.findInnerFunction? name = s.findInnerFunction? name := by
  simp only [add]
  split <;> rfl

theorem findInnerFunction?_add_function (s : Scopes) (f : FunctionDecl) (name : String) :
    (s.add (.function f)).1.findInnerFunction? name =
      if f.name = name then
        some ((s.function f.name).addOverloads (f.overloads.map Overload.normalize)).1
      else s.findInnerFunction? name := by
  have hname : ((s.function f.name).addOverloads (f.overloads.map Overload.normalize)).1.name =
      f.name := by
    rw [FunctionDecl.name_addOverloads, name_function]
  refine (Table.find?_insert s.inner.functions _ _ _).trans ?_
  rw [← function, hname]
  rfl

theorem function_add (s : Scopes) (d : Decl) (name : String) :
    (s.add d).1.function name = ((s.function name).addOverloads (d.overloads name)).1 := by
  rw [function, findFunction?_eq, outer_add]
  cases d with
  | ident d =>
    rw [findInnerFunction?_add_ident, ← findFunction?_eq]
    rfl
  | function f =>
    rw [findInnerFunction?_add_function, Decl.overloads]
    split
    · next h =>
      subst h
      rfl
    · rw [← findFunction?_eq]
      rfl

theorem function_addAll (s : Scopes) (ds : List Decl) (name : String) :
    (s.addAll ds).1.function name =
      ((s.function name).addOverloads (declaredOverloads name ds)).1 := by
  induction ds generalizing s with
  | nil => rfl
  | cons d ds ih =>
    rw [addAll_cons, ih, function_add, declaredOverloads_cons, FunctionDecl.addOverloads_append]

theorem findInnerFunction?_addAll_of_declared
    (h : (s.findInnerFunction? name).isSome ∨ ∃ f, .function f ∈ ds ∧ f.name = name) :
    (s.addAll ds).1.findInnerFunction? name = some ((s.addAll ds).1.function name) := by
  induction ds generalizing s with
  | nil =>
    obtain ⟨f, hf⟩ := Option.isSome_iff_exists.1 (h.resolve_right (by simp))
    simp [addAll, function, findFunction?_eq, hf]
  | cons d ds ih =>
    rw [addAll_cons]
    apply ih
    cases d with
    | ident d => simpa [findInnerFunction?_add_ident] using h
    | function f =>
      by_cases hf : f.name = name
      · simp [findInnerFunction?_add_function, hf]
      · simpa [findInnerFunction?_add_function, hf] using h

theorem findInnerFunction?_addAll_of_undeclared (h : ∀ f, .function f ∈ ds → f.name ≠ name) :
    (s.addAll ds).1.findInnerFunction? name = s.findInnerFunction? name := by
  induction ds generalizing s with
  | nil => rfl
  | cons d ds ih =>
    rw [addAll_cons, ih fun f hf => h f (List.mem_cons_of_mem _ hf)]
    cases d with
    | ident d => exact findInnerFunction?_add_ident s d name
    | function f => rw [findInnerFunction?_add_function, if_neg (h f List.mem_cons_self)]

theorem findInnerIdent?_addIdent (s : Scopes) (d : IdentDecl) (name : String) :
    (s.addIdent d).findInnerIdent? name =
      if d.name = name then some d else s.findInnerIdent? name :=
  Table.find?_insert ..

theorem findInnerIdent?_add (s : Scopes) (d : Decl) (name : String) :
    (s.add d).1.findInnerIdent? name =
      ((s.findInnerIdent? name).toList ++ d.idents name).head? := by
  cases d with
  | function f =>
    rw [Decl.idents, List.append_nil, Option.head?_toList]
    rfl
  | ident d =>
    simp only [add, Decl.idents]
    split
    · next e he =>
      by_cases hd : d.name = name
      · subst hd
        rw [show s.findInnerIdent? d.name = some e from he]
        rfl
      · simp [hd]
    · next he =>
      have hname : d.normalize.name = d.name := rfl
      by_cases hd : d.name = name
      · subst hd
        rw [hname] at he
        simp [findInnerIdent?_addIdent, he, hname]
      · simp [findInnerIdent?_addIdent, hd, hname]

/-- The first identifier that is declared under a name stays. -/
theorem findInnerIdent?_addAll (s : Scopes) (ds : List Decl) (name : String) :
    (s.addAll ds).1.findInnerIdent? name =
      ((s.findInnerIdent? name).toList ++ declaredIdents name ds).head? := by
  induction ds generalizing s with
  | nil => simp [addAll, declaredIdents]
  | cons d ds ih =>
    rw [addAll_cons, ih, findInnerIdent?_add, declaredIdents_cons, ← List.append_assoc]
    cases (s.findInnerIdent? name).toList ++ d.idents name <;> rfl

theorem conflicts_add_eq_nil_iff (s : Scopes) (d : Decl) : (s.add d).2 = [] ↔
    (∀ name, IdentDecl.FirstSame ((s.findInnerIdent? name).toList ++ d.idents name)) ∧
      ∀ name, ((s.function name).addOverloads (d.overloads name)).2 = [] := by
  cases d with
  | ident d =>
    have hnone : ∀ name, ((s.function name).addOverloads (Decl.overloads name (.ident d))).2 = [] :=
      fun _ => rfl
    rw [and_iff_left hnone]
    have hown : (s.add (.ident d)).2 = [] ↔
        IdentDecl.FirstSame ((s.findInnerIdent? d.name).toList ++ [d.normalize]) := by
      have hname : d.normalize.name = d.name := rfl
      cases h : s.findInnerIdent? d.name <;> simp [add, hname, h, IdentDecl.FirstSame]
    rw [hown]
    refine ⟨fun h name => ?_, fun h => by simpa [Decl.idents] using h d.name⟩
    by_cases hd : d.name = name
    · simpa [Decl.idents, hd] using hd ▸ h
    · simpa [Decl.idents, hd] using IdentDecl.firstSame_toList _
  | function f =>
    rw [and_iff_right fun name => by simpa [Decl.idents] using IdentDecl.firstSame_toList _]
    have hown : (s.add (.function f)).2 =
        ((s.function f.name).addOverloads (f.overloads.map Overload.normalize)).2 := rfl
    rw [hown]
    refine ⟨fun h name => ?_, fun h => by simpa [Decl.overloads] using h f.name⟩
    by_cases hf : f.name = name
    · simpa [Decl.overloads, hf] using hf ▸ h
    · simp [Decl.overloads, hf, FunctionDecl.addOverloads]

theorem conflicts_addAll_eq_nil_iff (s : Scopes) (ds : List Decl) : (s.addAll ds).2 = [] ↔
    (∀ name, IdentDecl.FirstSame ((s.findInnerIdent? name).toList ++ declaredIdents name ds)) ∧
      ∀ name, ((s.function name).addOverloads (declaredOverloads name ds)).2 = [] := by
  induction ds generalizing s with
  | nil =>
    refine iff_of_true rfl ⟨fun name => ?_, fun name => rfl⟩
    simpa [declaredIdents] using IdentDecl.firstSame_toList _
  | cons d ds ih =>
    simp only [addAll_cons, List.append_eq_nil_iff, conflicts_add_eq_nil_iff, ih,
      declaredIdents_cons, declaredOverloads_cons, ← List.append_assoc, findInnerIdent?_add,
      function_add, IdentDecl.firstSame_append (l := _ ++ _), FunctionDecl.addOverloads_append,
      forall_and]
    exact and_and_and_comm

theorem add_eq_self
    (hident : ∀ e, d = .ident e →
      ∃ i, s.findInnerIdent? e.name = some i ∧ i.same e.normalize = true)
    (hfunction : ∀ f, d = .function f → ∃ g, s.findInnerFunction? f.name = some g ∧
      ∀ o ∈ f.overloads, o.normalize ∈ g.overloads) : s.add d = (s, []) := by
  cases d with
  | ident e =>
    obtain ⟨i, hi, hsame⟩ := hident e rfl
    have hname : e.normalize.name = e.name := rfl
    simp [add, hname, hi, hsame]
  | function f =>
    obtain ⟨g, hg, hsub⟩ := hfunction f rfl
    have hfind : s.findFunction? f.name = some g := by simp [findFunction?_eq, hg]
    have hadd : g.addOverloads (f.overloads.map Overload.normalize) = (g, []) :=
      FunctionDecl.addOverloads_eq_of_subset (by simpa using hsub)
    have hset : s.setFunction g = s := by
      have hinsert : s.inner.functions.insert g.name g = s.inner.functions :=
        Table.insert_eq_self (name_of_findFunction? hfind ▸ hg)
      simp [setFunction, hinsert]
    simp [add, hfind, hadd, hset]

theorem addAll_eq_self (h : ∀ d ∈ ds, s.add d = (s, [])) : s.addAll ds = (s, []) := by
  induction ds with
  | nil => rfl
  | cons d ds ih =>
    rw [List.forall_mem_cons] at h
    rw [addAll_cons, h.1, ih h.2]
    rfl

end Scopes

section Installing

/-- The declarations lead from one chain of scopes to another: all of them are there, and all that
was there still is. -/
structure Scopes.Installs (s : Scopes) (ds : List Decl) (s' : Scopes) : Prop where
  ident : ∀ d, .ident d ∈ ds →
    ∃ e, s'.findInnerIdent? d.name = some e ∧ e.same d.normalize = true
  function : ∀ f, .function f ∈ ds →
    ∃ g, s'.findFunction? f.name = some g ∧ ∀ o ∈ f.overloads, o.normalize ∈ g.overloads
  overloads : ∀ name, (s.function name).overloads <+: (s'.function name).overloads
  nodup : ∀ name, (s.function name).overloads.Nodup → (s'.function name).overloads.Nodup
  other_ident : ∀ name, (∀ d, .ident d ∈ ds → d.name ≠ name) →
    s'.findInnerIdent? name = s.findInnerIdent? name ∧ s'.findIdent? name = s.findIdent? name
  other_function : ∀ name, (∀ f, .function f ∈ ds → f.name ≠ name) →
    s'.findInnerFunction? name = s.findInnerFunction? name ∧
      s'.findFunction? name = s.findFunction? name
  outer : s'.outer = s.outer

/-- No identifier has a constant that is not a number. -/
def NumberConstants (ds : List Decl) : Prop :=
  ∀ d, .ident d ∈ ds → ∀ x, d.value = some (.double x) → x.isNaN = false

variable {s : Scopes} {ds : List Decl}

theorem Scopes.ident_addAll (hds : NumberConstants ds) (h : (s.addAll ds).2 = []) {d : IdentDecl}
    (hd : .ident d ∈ ds) :
    ∃ e, (s.addAll ds).1.findInnerIdent? d.name = some e ∧ e.same d.normalize = true := by
  have hfirst := ((conflicts_addAll_eq_nil_iff s ds).1 h).1 d.name
  have hmem : d.normalize ∈ (s.findInnerIdent? d.name).toList ++ declaredIdents d.name ds :=
    List.mem_append_right _ (mem_declaredIdents.2 ⟨d, hd, rfl, rfl⟩)
  rw [findInnerIdent?_addAll]
  generalize (s.findInnerIdent? d.name).toList ++ declaredIdents d.name ds = l at hfirst hmem
  cases l with
  | nil => cases hmem
  | cons e l =>
    refine ⟨e, rfl, ?_⟩
    rcases List.mem_cons.1 hmem with rfl | hmem
    · exact IdentDecl.same_self (hds d hd)
    · exact hfirst _ hmem

theorem Scopes.mem_function_addAll (h : (s.addAll ds).2 = []) {f : FunctionDecl}
    (hf : .function f ∈ ds) {o : Overload} (ho : o ∈ f.overloads) :
    o.normalize ∈ ((s.addAll ds).1.function f.name).overloads := by
  have hnone := ((conflicts_addAll_eq_nil_iff s ds).1 h).2 f.name
  rw [function_addAll, FunctionDecl.mem_addOverloads hnone]
  exact .inr (mem_declaredOverloads.2 ⟨f, hf, rfl, o, ho, rfl⟩)

theorem Scopes.installs_addAll (hds : NumberConstants ds) (h : (s.addAll ds).2 = []) :
    s.Installs ds (s.addAll ds).1 where
  ident d hd := ident_addAll hds h hd
  function f hf := by
    refine ⟨_, ?_, fun o ho => mem_function_addAll h hf ho⟩
    rw [findFunction?_eq, findInnerFunction?_addAll_of_declared (.inr ⟨f, hf, rfl⟩)]
    rfl
  overloads name := by
    rw [function_addAll]
    exact (FunctionDecl.addOverloads_grows _ _).1
  nodup name := by
    rw [function_addAll]
    exact (FunctionDecl.addOverloads_grows _ _).2
  other_ident name hname := by
    have hnil : declaredIdents name ds = [] := by
      refine List.eq_nil_iff_forall_not_mem.2 fun e he => ?_
      obtain ⟨d, hd, hdname, -⟩ := mem_declaredIdents.1 he
      exact hname d hd hdname
    have hinner : (s.addAll ds).1.findInnerIdent? name = s.findInnerIdent? name := by
      rw [findInnerIdent?_addAll, hnil, List.append_nil, Option.head?_toList]
    exact ⟨hinner, by rw [findIdent?_eq, hinner, outer_addAll, ← findIdent?_eq]⟩
  other_function name hname := by
    have hinner := findInnerFunction?_addAll_of_undeclared (s := s) hname
    exact ⟨hinner, by rw [findFunction?_eq, hinner, outer_addAll, ← findFunction?_eq]⟩
  outer := outer_addAll s ds

theorem Scopes.addAll_addAll (hds : NumberConstants ds) (h : (s.addAll ds).2 = []) :
    (s.addAll ds).1.addAll ds = ((s.addAll ds).1, []) := by
  refine addAll_eq_self fun d hd => add_eq_self ?_ ?_
  · rintro e rfl
    exact ident_addAll hds h hd
  · rintro f rfl
    exact ⟨_, findInnerFunction?_addAll_of_declared (.inr ⟨f, hd, rfl⟩),
      fun o ho => mem_function_addAll h hd ho⟩

/-- A list of declarations that is accepted is installed as a whole, and it has no effect to add it
again. -/
theorem Env.installs_of_add_eq_ok {env env' : Env} (hds : NumberConstants ds)
    (h : env.add ds = .ok env') :
    env.scopes.Installs ds env'.scopes ∧ env' = { env with scopes := env'.scopes } ∧
      env'.add ds = .ok env' := by
  obtain ⟨hnone, rfl⟩ := add_eq_ok_iff.1 h
  refine ⟨Scopes.installs_addAll hds hnone, rfl, ?_⟩
  rw [add_eq_ok_iff, Scopes.addAll_addAll hds hnone]
  exact ⟨rfl, rfl⟩

theorem Env.installs_of_add_nested :
    let ofDuration : Overload :=
      { id := "f_duration", params := [.message "google.protobuf.Duration"], result := .int }
    let ofList : Overload :=
      { id := "f_list", params := [.list (.param "A")], result := .int, typeParams := ["A"] }
    let zero : IdentDecl := { name := "x", ty := .double, value := some (.double ⟨0⟩) }
    let minusZero : IdentDecl := { zero with value := some (.double ⟨0x8000000000000000⟩) }
    let ds : List Decl := [.ident zero, .function ⟨"f", [ofList, ofDuration]⟩, .ident minusZero,
      .function ⟨"f", [ofList]⟩]
    let start : Env :=
      { container := {}, provider := ⟨fun _ => none, fun _ _ => none, fun _ => none⟩ }
    ∃ outer env, start.add [.function ⟨"f", [ofDuration]⟩] = .ok outer ∧ NumberConstants ds ∧
      outer.enter.add ds = .ok env ∧ outer.enter.scopes.Installs ds env.scopes ∧
      (env.scopes.function "f").overloads = [{ ofDuration with params := [.duration] }, ofList] ∧
      env.add ds = .ok env := by
  intro ofDuration ofList zero minusZero ds start
  obtain ⟨outer, env, houter, henv, hover⟩ :
      ∃ outer env, start.add [.function ⟨"f", [ofDuration]⟩] = .ok outer ∧
        outer.enter.add ds = .ok env ∧
        (env.scopes.function "f").overloads = [{ ofDuration with params := [.duration] }, ofList] :=
    ⟨_, _, rfl, rfl, rfl⟩
  have hds : NumberConstants ds := by
    intro d hd x hx
    simp only [ds, zero, minusZero, List.mem_cons, Decl.ident.injEq, List.not_mem_nil, or_false,
      reduceCtorEq, false_or] at hd
    rcases hd with rfl | rfl <;> cases hx <;> rfl
  obtain ⟨hinstalls, -, hagain⟩ := installs_of_add_eq_ok hds henv
  exact ⟨outer, env, houter, hds, henv, hinstalls, hover, hagain⟩

end Installing

end ExprTyping
