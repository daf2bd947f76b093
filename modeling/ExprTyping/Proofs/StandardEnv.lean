import ExprTyping.Env.Add
import ExprTyping.Proofs.LoopBodies
import ExprTyping.Standard

namespace ExprTyping

section Scopes

variable {s : Scopes} {ds : List Decl} {name : String}

theorem Scopes.findIdent?_addIdent (s : Scopes) (d : IdentDecl) (name : String) :
    (s.addIdent d).findIdent? name = if d.name = name then some d else s.findIdent? name := by
  simp only [findIdent?, groups, addIdent, List.findSome?_cons, Table.find?_insert]
  by_cases h : d.name = name <;> simp [h]

theorem Scopes.findFunction?_setFunction (s : Scopes) (f : FunctionDecl) (name : String) :
    (s.setFunction f).findFunction? name =
      if f.name = name then some f else s.findFunction? name := by
  simp only [findFunction?, groups, setFunction, List.findSome?_cons, Table.find?_insert]
  by_cases h : f.name = name <;> simp [h]

theorem Scopes.findIdent?_install {d : IdentDecl}
    (h : (s.install ds).findIdent? name = some d) : s.findIdent? name = some d ∨ .ident d ∈ ds := by
  induction ds generalizing s with
  | nil => exact .inl h
  | cons e ds ih =>
    rcases ih h with h | h
    · cases e with
      | ident e =>
        rw [findIdent?_addIdent] at h
        split at h
        · cases h
          exact .inr List.mem_cons_self
        · exact .inl h
      | function f => exact .inl h
    · exact .inr (List.mem_cons_of_mem _ h)

theorem Scopes.findFunction?_install {f : FunctionDecl}
    (h : (s.install ds).findFunction? name = some f) :
    s.findFunction? name = some f ∨ .function f ∈ ds := by
  induction ds generalizing s with
  | nil => exact .inl h
  | cons e ds ih =>
    rcases ih h with h | h
    · cases e with
      | ident e => exact .inl h
      | function g =>
        rw [findFunction?_setFunction] at h
        split at h
        · cases h
          exact .inr List.mem_cons_self
        · exact .inl h
    · exact .inr (List.mem_cons_of_mem _ h)

theorem Scopes.findFunction?_addAll (s : Scopes) (ds : List IdentDecl) (name : String) :
    (s.addAll (ds.map .ident)).1.findFunction? name = s.findFunction? name := by
  induction ds generalizing s with
  | nil => rfl
  | cons d ds ih =>
    simp only [List.map_cons, addAll, add]
    split
    · exact ih s
    · exact ih (s.addIdent d.normalize)

theorem Scopes.findIdent?_addAll {ds : List IdentDecl} {d : IdentDecl}
    (h : (s.addAll (ds.map .ident)).1.findIdent? name = some d) :
    s.findIdent? name = some d ∨ ∃ e ∈ ds, d = e.normalize := by
  induction ds generalizing s with
  | nil => exact .inl h
  | cons e ds ih =>
    have hcons : ∀ {s : Scopes}, s.findIdent? name = some d ∨ (∃ e ∈ ds, d = e.normalize) →
        s.findIdent? name = some d ∨ ∃ e' ∈ e :: ds, d = e'.normalize := by
      rintro s (h | ⟨e', he', h⟩)
      · exact .inl h
      · exact .inr ⟨e', List.mem_cons_of_mem _ he', h⟩
    simp only [List.map_cons, addAll, add] at h
    split at h
    · exact hcons (ih h)
    · rcases hcons (ih h) with h | h
      · rw [findIdent?_addIdent] at h
        split at h
        · cases h
          exact .inr ⟨e, List.mem_cons_self, rfl⟩
        · exact .inl h
      · exact .inr h

theorem Env.add_eq_ok_iff {env env' : Env} {ds : List Decl} : env.add ds = .ok env' ↔
    (env.scopes.addAll ds).2 = [] ∧ env' = { env with scopes := (env.scopes.addAll ds).1 } := by
  rw [add, addAll]
  obtain ⟨s, cs⟩ := env.scopes.addAll ds
  cases cs with
  | nil => simp [eq_comm]
  | cons c cs => simp

theorem Ty.params_normalize (t : Ty) : t.normalize.params = t.params := by
  have hall : ∀ ts : List Ty, (∀ t ∈ ts, t.normalize.params = t.params) →
      paramsAll (normalizeAll ts) = paramsAll ts := by
    intro ts hts
    induction ts with
    | nil => rfl
    | cons t ts ih =>
      rw [List.forall_mem_cons] at hts
      simp [normalizeAll, paramsAll, hts.1, ih hts.2]
  induction t with
  | message n => exact params_ofMessageName n
  | typeOf t ih => exact ih
  | list t ih => exact ih
  | map k v ihk ihv => simp [normalize, params, ihk, ihv]
  | abstract n ts ih => exact hall ts ih
  | function r ts ihr ih => simp [normalize, params, ihr, hall ts ih]
  | _ => rfl

end Scopes

section Standard

theorem Standard.scoped_functions : ∀ f ∈ Standard.functions, ∀ o ∈ f.overloads,
    (∀ t ∈ o.result :: o.params, ∀ p ∈ t.params, p ∈ o.typeParams) ∧
      ∀ p ∈ o.typeParams, p.length < 4 := by
  decide +kernel

theorem Standard.params_typeNames : ∀ e ∈ Standard.typeNames, ∀ p ∈ e.2.params, p.length < 4 := by
  decide +kernel

theorem Env.findIdent?_standard {container : Container} {provider : Provider} {name : String}
    {d : IdentDecl} (h : (Env.standard container provider).scopes.findIdent? name = some d) :
    ∃ n t, (n, t) ∈ Standard.typeNames ∧ { name := n, ty := .typeOf t } = d := by
  rcases Scopes.findIdent?_install h with h | h
  · cases h
  · simpa [Standard.decls] using h

theorem Env.findFunction?_standard {container : Container} {provider : Provider} {name : String}
    {f : FunctionDecl} (h : (Env.standard container provider).scopes.findFunction? name = some f) :
    f ∈ Standard.functions := by
  rcases Scopes.findFunction?_install h with h | h
  · cases h
  · simpa [Standard.decls] using h

/-- The operators are the standard ones, with all overloads enabled, and the container is empty. -/
structure Env.HasStandard (env : Env) : Prop extends env.SelfContained where
  container : env.container = {}
  enabled : env.options.disabled = []
  add : env.lookupFunction? "_+_" = Standard.function? "_+_"
  conditional : env.lookupFunction? "_?_:_" = Standard.function? "_?_:_"

theorem Env.HasStandard.bind {env : Env} (h : env.HasStandard) (d : IdentDecl) :
    (env.enter.bind d).HasStandard :=
  ⟨h.toSelfContained.bind d, h.container, h.enabled, h.add, h.conditional⟩

/-- Besides, parameters occur in the types of identifiers only inside type values, and type
variables not at all. -/
structure Env.Plain (env : Env) : Prop extends env.HasStandard where
  ident : ∀ name d, env.lookupCandidate? name = some d →
    d.ty.exposed = [] ∧ ∀ k, varName k ∉ d.ty.params

theorem Env.selfContained_standard {provider : Provider}
    (hfield : ∀ m f t, provider.field? m f = some t → t.params = []) :
    (Env.standard {} provider).SelfContained where
  overload name f hf o ho := by
    obtain ⟨hscoped, hlen⟩ := Standard.scoped_functions f (findFunction?_standard hf) o ho
    exact ⟨hscoped, fun k hk => varName_ne_of_length_lt (hlen _ hk) k rfl⟩
  field := hfield

theorem Env.ident_promoted {env : Env}
    (hmessage : ∀ name t, env.provider.message? name = some t → ∀ k, varName k ∉ t.params)
    {name : String} {d : IdentDecl} (h : env.promoted? name = some d) :
    d.ty.exposed = [] ∧ ∀ k, varName k ∉ d.ty.params := by
  rw [promoted?] at h
  split at h
  · next t ht =>
    cases h
    exact ⟨rfl, hmessage name t ht⟩
  · obtain ⟨n, -, rfl⟩ := Option.map_eq_some_iff.1 h
    exact ⟨rfl, by simp [Ty.params]⟩

theorem Env.ident_standard {provider : Provider} {name : String} {d : IdentDecl}
    (h : (Env.standard {} provider).scopes.findIdent? name = some d) :
    d.ty.exposed = [] ∧ ∀ k, varName k ∉ d.ty.params := by
  obtain ⟨n, t, ht, rfl⟩ := findIdent?_standard h
  exact ⟨rfl, fun k hk => varName_ne_of_length_lt (Standard.params_typeNames _ ht _ hk) k rfl⟩

theorem Env.plain_standard {provider : Provider} {ds : List IdentDecl} {env : Env}
    (hmessage : ∀ name t, provider.message? name = some t → ∀ k, varName k ∉ t.params)
    (hfield : ∀ m f t, provider.field? m f = some t → t.params = [])
    (hds : ∀ d ∈ ds, d.ty.params = [])
    (henv : (Env.standard {} provider).add (ds.map .ident) = .ok env) (policy : LiteralPolicy) :
    Env.Plain { env with options := { policy } } := by
  obtain ⟨-, rfl⟩ := add_eq_ok_iff.1 henv
  have hfunction := fun name =>
    Scopes.findFunction?_addAll (Env.standard {} provider).scopes ds name
  have hlookup : ∀ name, Env.lookupFunction? { Env.standard {} provider with
      scopes := ((Env.standard {} provider).scopes.addAll (ds.map .ident)).1,
      options := { policy } } name = (Env.standard {} provider).lookupFunction? name :=
    fun name => congrArg (List.findSome? · _) (funext hfunction)
  refine ⟨⟨⟨fun name f hf => ?_, hfield⟩, rfl, rfl, hlookup "_+_", hlookup "_?_:_"⟩,
    fun name d hd => ?_⟩
  · exact (selfContained_standard hfield).overload name f (hfunction name ▸ hf)
  · rw [lookupCandidate?] at hd
    split at hd
    · next e he =>
      cases hd
      rcases Scopes.findIdent?_addAll he with he | ⟨d', hd', rfl⟩
      · exact ident_standard he
      · have hnil : d'.normalize.ty.params = [] := (Ty.params_normalize _).trans (hds d' hd')
        refine ⟨List.eq_nil_iff_forall_not_mem.2 fun q hq => ?_, by simp [hnil]⟩
        have hq := Ty.mem_params_of_mem_exposed hq
        simp [hnil] at hq
    · exact ident_promoted hmessage hd

end Standard

end ExprTyping
