import ExprTyping.Proofs.Instantiation
import ExprTyping.Proofs.Preservation
import ExprTyping.Proofs.RuleInduction
import ExprTyping.Provider.Catalog

namespace ExprTyping

open Checker State

variable {env : Env} {source : Source} {e : Expr} {r : CheckResult}

theorem check_eq_ok (h : check env source e = .ok r) : ∃ s, checkExpr env {} e = .ok (r.expr, s) ∧
    r.types = s.types.mapValues (s.bindings.subst true) ∧
    r.diagnostics = s.reports.map fun (id, c) => .located source id c := by
  obtain ⟨e', s, hs, rfl⟩ := check_eq_ok_iff.1 h
  exact ⟨s, hs, rfl, rfl⟩

theorem exists_check_eq_ok {i : Int} {u : Ty}
    (h : (check env source e).toOption.map (fun r => (r.isOk, r.types.find? i)) =
      some (true, some u)) :
    ∃ r, check env source e = .ok r ∧ r.diagnostics = [] ∧ r.types.find? i = some u := by
  cases hc : check env source e with
  | error => simp [hc, Except.toOption] at h
  | ok r =>
    rw [hc] at h
    obtain ⟨hok, hu⟩ := Prod.mk.inj (Option.some.inj h)
    exact ⟨r, rfl, List.isEmpty_iff.1 hok, hu⟩

namespace TypeInvariant

variable {K : TypeInvariant}

theorem SoundEnv.start (h : K.SoundEnv env {}) : K.Sound env {} :=
  ⟨h, .empty, nofun, nofun⟩

theorem SoundEnv.points (h : K.SoundEnv env {}) (e : Expr) :
    ∀ p ∈ (runExpr env {} e).points, K.SoundAt p :=
  (K.preserves env e {} h.start).1

theorem SoundEnv.result (h : K.SoundEnv env {}) {e' : Expr} {s : State}
    (hr : checkExpr env {} e = .ok (e', s)) : K.Sound env s :=
  ((K.preserves env e {} h.start).2 (e', s) (by rw [result_runExpr, hr])).1.sound

end TypeInvariant

section Params

def TypeInvariant.ofOverloads (P : Overload → Prop) : TypeInvariant where
  Holds _ _ := True
  Admits := P
  mono _ _ := trivial
  child _ _ _ := trivial
  inst _ _ := trivial
  param _ _ := trivial
  list _ := trivial
  map _ _ := trivial
  value _ _ := trivial
  dyn _ := trivial
  error _ := trivial
  fresh _ := trivial
  literal _ := trivial

theorem wf_freshParams (n : Nat) {ps : List String} (hps : ∀ k, varName k ∉ ps) :
    (Overload.freshParams n ps {}).1.Wf :=
  (Overload.flat_freshParams fun k _ => hps k).wf (TypeInvariant.paramKeys_freshParams n ps)

/-- Every completed check leaves no parameter in its types. Its bindings are acyclic at every point,
and so are those that make the parameters of a tried overload fresh, so every substitution ends. -/
theorem check_params_eq_nil (env : Env) (source : Source) (e : Expr)
    (henv : ∀ name f, env.scopes.findFunction? name = some f →
      ∀ o ∈ f.overloads, ∀ n, varName n ∉ o.typeParams) :
    (∀ r, check env source e = .ok r → ∀ id t, r.types.find? id = some t → t.params = []) ∧
    (∀ p ∈ (runExpr env {} e).points,
      p.state.bindings.ParamKeys ∧ p.state.bindings.Acyclic ∧
      (∀ b t, p.state.bindings.Substitutes b t (p.state.bindings.subst b t)) ∧
      ∀ args o, p.action = .attempt args o →
        (Overload.freshParams p.state.nextVar o.typeParams {}).1.Wf) ∧
    ∀ e' s, checkExpr env {} e = .ok (e', s) →
      s.bindings.ParamKeys ∧ s.bindings.Acyclic ∧
      ∀ b t, s.bindings.Substitutes b t (s.bindings.subst b t) := by
  have hstart : (TypeInvariant.ofOverloads
      fun o => ∀ n, varName n ∉ o.typeParams).SoundEnv env {} :=
    ⟨fun _ _ _ => trivial, fun name f hf o ho => ⟨henv name f hf o ho, fun _ _ => trivial⟩,
      fun _ _ _ _ => trivial⟩
  refine ⟨fun r hr id t ht => ?_, fun p hp => ?_, fun e' s hs => ?_⟩
  · obtain ⟨s, hs, htypes, -⟩ := check_eq_ok hr
    rw [htypes, Table.find?_mapValues, Option.map_eq_some_iff] at ht
    obtain ⟨u, -, rfl⟩ := ht
    exact (hstart.result hs).wf.keys.params_subst u
  · have h := hstart.points e p hp
    exact ⟨h.sound.wf.keys, h.sound.wf.acyclic, h.sound.wf.substitutes, fun args o ho =>
      wf_freshParams _ (h.attempt args o ho)⟩
  · have h := (hstart.result hs).wf
    exact ⟨h.keys, h.acyclic, h.substitutes⟩

theorem check_params_eq_nil_of_empty_list :
    let f : Overload :=
      { id := "first_list", params := [.list (.param "A")], result := .param "A",
        typeParams := ["A"] }
    let env : Env :=
      { container := {}, provider := ⟨fun _ => none, fun _ _ => none, fun _ => none⟩,
        scopes := ⟨{ functions := Table.insert {} "first" ⟨"first", [f]⟩ }, []⟩ }
    ∃ r, check env {} (.call 1 "first" [.list 2 []]) = .ok r ∧ r.type? = some .dyn ∧
      ∀ id t, r.types.find? id = some t → t.params = [] := by
  intro f env
  obtain ⟨r, hr, ht⟩ : ∃ r, check env {} (.call 1 "first" [.list 2 []]) = .ok r ∧
      r.type? = some .dyn := ⟨_, rfl, rfl⟩
  refine ⟨r, hr, ht, (check_params_eq_nil env {} _ ?_).1 r hr⟩
  intro name g hg o ho n hn
  obtain ⟨c, hc, hg⟩ := List.exists_of_findSome?_eq_some hg
  cases List.mem_singleton.1 hc
  rw [Table.find?_insert] at hg
  split at hg
  · cases hg
    cases List.mem_singleton.1 ho
    have hlen := congrArg String.length (List.mem_singleton.1 hn)
    have hvar : "_var".length = 4 := rfl
    have hA : "A".length = 1 := rfl
    rw [varName, String.length_append] at hlen
    omega
  · cases hg

end Params

section Error

theorem error_not_mem_parts_ofMessageName (name : String) :
    .error ∉ (Ty.ofMessageName name).parts := by
  unfold Ty.ofMessageName Ty.wellKnownMessage?
  split <;> simp [Ty.parts]

def TypeInvariant.errorFree : TypeInvariant where
  Holds s t := s.reports = [] → .error ∉ t.parts
  Admits _ := True
  mono hg h hr := h (List.eq_nil_of_prefix_nil (hr ▸ hg.reports))
  child h _ hc hr he := h hr (Ty.mem_parts_of_mem_children hc he)
  inst h hσ hr he := (Ty.mem_parts_inst rfl he).elim (h hr) fun ⟨p, hp, he⟩ => hσ p hp hr he
  param _ _ _ := by simp [Ty.parts]
  list h hr := by simpa [Ty.parts] using h hr
  map hk hv hr := by simpa [Ty.parts] using ⟨hk hr, hv hr⟩
  value _ v _ := by cases v <;> simp [Ty.parts, Value.ty]
  dyn _ _ := by simp [Ty.parts]
  error h hr := absurd hr h
  fresh _ _ := by simp [freshVar, Ty.parts]
  literal _ _ := error_not_mem_parts_ofMessageName _

theorem errorFree_lookupCandidate {name : String} {d : IdentDecl}
    (hident : ∀ name d, env.scopes.findIdent? name = some d → .error ∉ d.ty.parts)
    (hmessage : ∀ name t, env.provider.message? name = some t → .error ∉ t.parts)
    (h : env.lookupCandidate? name = some d) : .error ∉ d.ty.parts := by
  rw [Env.lookupCandidate?] at h
  split at h
  · next d' hd =>
    cases h
    exact hident name d hd
  · rw [Env.promoted?] at h
    split at h
    · next t ht =>
      cases h
      simpa [Ty.parts] using hmessage name t ht
    · obtain ⟨n, -, rfl⟩ := Option.map_eq_some_iff.1 h
      simp [Ty.parts]

/-- If neither the declarations nor the provider know the error type, then there is one in the
result only together with a diagnostic. The same holds at every point of the check: until something
is reported, no node, binding or identifier in scope has an error type. -/
theorem check_errorFree (env : Env) (source : Source) (e : Expr)
    (hident : ∀ name d, env.scopes.findIdent? name = some d → .error ∉ d.ty.parts)
    (hoverload : ∀ name f, env.scopes.findFunction? name = some f →
      ∀ o ∈ f.overloads, ∀ t ∈ o.result :: o.params, .error ∉ t.parts)
    (hmessage : ∀ name t, env.provider.message? name = some t → .error ∉ t.parts)
    (hfield : ∀ m f t, env.provider.field? m f = some t → .error ∉ t.parts) :
    (∀ r, check env source e = .ok r → r.diagnostics = [] →
      ∀ id t, r.types.find? id = some t → .error ∉ t.parts) ∧
    ∀ p ∈ (runExpr env {} e).points, p.state.reports = [] →
      (∀ id t, p.state.types.find? id = some t → .error ∉ t.parts) ∧
      (∀ k t, p.state.bindings.find? k = some t → .error ∉ t.parts) ∧
      ∀ name d, p.env.lookupCandidate? name = some d → .error ∉ d.ty.parts := by
  have hstart : TypeInvariant.errorFree.SoundEnv env {} := by
    refine ⟨fun name d hd _ => ?_, fun name f hf o ho => ⟨trivial, fun t ht _ => ?_⟩,
      fun m f t ht _ => hfield m f t ht⟩
    · exact errorFree_lookupCandidate hident hmessage hd
    · exact hoverload name f hf o ho t ht
  constructor
  · intro r hr hd id t ht
    obtain ⟨s, hs, htypes, hdiag⟩ := check_eq_ok hr
    have hreports : s.reports = [] := by simpa [hdiag] using hd
    rw [htypes, Table.find?_mapValues, Option.map_eq_some_iff] at ht
    obtain ⟨u, hu, rfl⟩ := ht
    have hsound := hstart.result hs
    exact TypeInvariant.subst hsound.wf.keys (fun k v hv => (hsound.bound k v hv).2) true
      (hsound.types id u hu) hreports
  · intro p hp hreports
    have hsound := (hstart.points e p hp).sound
    exact ⟨fun id t ht => hsound.types id t ht hreports,
      fun k t ht => (hsound.bound k t ht).2 hreports,
      fun name d hd => hsound.ident name d hd hreports⟩

theorem check_errorFree_of_message :
    let env : Env :=
      { container := {}, provider := (Catalog.addMessage {} "M" [("x", .int)]).provider,
        scopes := Scopes.addIdent {} { name := "m", ty := .message "M" } }
    let e : Expr := .list 1 [.select 2 (.ident 3 "m") "x" false, .const 4 (.int 0)]
    ∃ r, check env {} e = .ok r ∧ r.diagnostics = [] ∧ r.type? = some (.list .int) ∧
      ∀ id t, r.types.find? id = some t → .error ∉ t.parts := by
  intro env e
  obtain ⟨r, hr, hd, ht⟩ : ∃ r, check env {} e = .ok r ∧ r.diagnostics = [] ∧
      r.type? = some (.list .int) := ⟨_, rfl, rfl, rfl⟩
  refine ⟨r, hr, hd, ht, (check_errorFree env {} e ?_ ?_ ?_ ?_).1 r hr hd⟩
  · intro name d hd
    obtain ⟨g, hg, hd⟩ := List.exists_of_findSome?_eq_some hd
    cases List.mem_singleton.1 hg
    simp only [env, Scopes.addIdent, Table.find?_insert] at hd
    split at hd
    · cases hd
      decide
    · cases hd
  · intro name f hf
    obtain ⟨g, hg, hf⟩ := List.exists_of_findSome?_eq_some hf
    cases List.mem_singleton.1 hg
    cases hf
  · intro name t ht
    simp only [env, Catalog.provider] at ht
    split at ht
    · cases ht
      simp [Ty.parts]
    · cases ht
  · intro m f t ht
    simp only [env, Catalog.provider, Catalog.addMessage, Option.bind_eq_some_iff,
      Table.find?_insert] at ht
    obtain ⟨fields, hfields, ht⟩ := ht
    split at hfields
    · cases hfields
      change Table.find? (Table.insert {} "x" Ty.int) f = some t at ht
      rw [Table.find?_insert] at ht
      split at ht
      · cases ht
        decide
      · cases ht
    · cases hfields

end Error

end ExprTyping
