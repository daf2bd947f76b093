import ExprTyping.Proofs.CheckedTypes
import ExprTyping.Proofs.LexicalScope

namespace ExprTyping

open Checker State

theorem params_ofMessageName (name : String) : (Ty.ofMessageName name).params = [] := by
  unfold Ty.ofMessageName Ty.wellKnownMessage?
  split <;> simp [Ty.params]

/-- All type variables were given out. -/
def TypeInvariant.variablesInUse : TypeInvariant where
  Holds s t := t.Over (inUse s.nextVar)
  Admits o := ∀ k, varName k ∉ o.typeParams
  mono hg h := h.mono (inUse_mono hg.nextVar)
  child h _ hc := h.of_mem_children hc
  inst h hσ q hq := by
    obtain ⟨p, hp, hq⟩ := Ty.mem_params_inst.1 hq
    exact hσ p hp q hq
  param h hp q hq := h q (List.mem_singleton.1 hq ▸ hp)
  list h := h
  map hk hv q h := (List.mem_append.1 h).elim (hk q) (hv q)
  value _ v := Ty.over_of_params_eq_nil (by cases v <;> rfl)
  dyn _ := Ty.over_of_params_eq_nil rfl
  error _ := Ty.over_of_params_eq_nil rfl
  fresh hn q hq := by
    rw [List.mem_singleton.1 hq]
    exact varName_mem_inUse.2 hn
  literal _ := Ty.over_of_params_eq_nil (params_ofMessageName _)

theorem over_inUse_zero_iff {t : Ty} : t.Over (inUse 0) ↔ ∀ k, varName k ∉ t.params := by
  refine ⟨fun h k hk => Nat.not_lt_zero k (varName_mem_inUse.1 (h _ hk)), fun h p hp k hk => ?_⟩
  exact absurd (hk ▸ hp) (h k)

/-- The parameter occurs in the bindings, in the type of a node or in a declaration in scope,
visible or hidden. -/
def Checker.Point.Mentions (p : Point) (q : String) : Prop :=
  (∃ k t, p.state.bindings.find? k = some t ∧ (q ∈ k.params ∨ q ∈ t.params)) ∨
  (∃ id t, p.state.types.find? id = some t ∧ q ∈ t.params) ∨
  ∃ g ∈ p.env.scopes.groups, ∃ name d, g.idents.find? name = some d ∧ q ∈ d.ty.params

section Scopes

variable {env : Env} {g : Group} {name : String} {d d' : IdentDecl}

theorem eq_or_mem_groups_of_bind (hg : g ∈ (env.enter.bind d').scopes.groups)
    (hd : g.idents.find? name = some d) : d = d' ∨ g ∈ env.scopes.groups := by
  rcases List.mem_cons.1 hg with rfl | hg
  · simp only [Env.bind, Scopes.addIdent, Table.find?_insert] at hd
    split at hd
    · cases hd
      exact .inl rfl
    · cases hd
  · exact .inr hg

theorem eq_or_mem_groups_of_within {fs : List Frame} (hg : g ∈ (within env fs).scopes.groups)
    (hd : g.idents.find? name = some d) :
    (∃ f ∈ fs, d = f.loop.iterDecl ∨ d = f.loop.accuDecl) ∨ g ∈ env.scopes.groups := by
  induction fs with
  | nil => exact .inr hg
  | cons f fs ih =>
    suffices h : (d = f.loop.iterDecl ∨ d = f.loop.accuDecl) ∨
        g ∈ (within env fs).scopes.groups by
      rcases h with h | h
      · exact .inl ⟨f, List.mem_cons_self, h⟩
      · refine (ih h).imp_left ?_
        rintro ⟨f, hf, h⟩
        exact ⟨f, List.mem_cons_of_mem _ hf, h⟩
    cases f with
    | body l =>
      rcases eq_or_mem_groups_of_bind hg hd with rfl | hg
      · exact .inl (.inl rfl)
      · rcases eq_or_mem_groups_of_bind hg hd with rfl | hg
        · exact .inl (.inr rfl)
        · exact .inr hg
    | result l =>
      rcases eq_or_mem_groups_of_bind hg hd with rfl | hg
      · exact .inl (.inr rfl)
      · exact .inr hg

theorem Checker.Entered.exists_opens {P : List Point} {fs : List Frame} {f : Frame}
    (h : Entered P env fs) (hf : f ∈ fs) :
    ∃ env' s, ⟨env', s, .enter f.loop.expr⟩ ∈ P ∧ f.loop.Opens env' s := by
  induction fs with
  | nil => cases hf
  | cons g fs ih =>
    obtain ⟨⟨s, hs, ho⟩, hfs⟩ := h
    rcases List.mem_cons.1 hf with rfl | hf
    · exact ⟨_, s, hs, ho⟩
    · exact ih hfs hf

end Scopes

variable {K : TypeInvariant} {env : Env} {e : Expr}

theorem Checker.Loop.Opens.holds {l : Loop} {s : State} (h : l.Opens env s) (hs : K.Sound env s) :
    K.Holds l.entry.2 l.iterDecl.ty ∧ K.Holds l.entry.2 l.accuDecl.ty := by
  obtain ⟨range', s₁, init', hrange, hinit⟩ := h
  obtain ⟨h₁, hid₁⟩ := (K.preserves env l.range s hs).2 _ (by rw [result_runExpr]; exact hrange)
  obtain ⟨h₂, hid₂⟩ := (K.preserves env l.init s₁ h₁.sound).2 _
    (by rw [result_runExpr]; exact hinit)
  have hrange := h₂.sound.subst (h₂.sound.typeAt (h₂.grows.hasType hid₁))
  exact ⟨(h₂.sound.iterType hrange l.range.id).2,
    K.mono (quiet_iterType l.start l.range.id _).toGrows (h₂.sound.typeAt hid₂)⟩

theorem TypeInvariant.SoundEnv.groups (h : K.SoundEnv env {})
    (hident : ∀ g ∈ env.scopes.groups, ∀ name d, g.idents.find? name = some d → K.Holds {} d.ty) :
    ∀ p ∈ (runExpr env {} e).points, ∀ g ∈ p.env.scopes.groups, ∀ name d,
      g.idents.find? name = some d → K.Holds p.state d.ty := by
  intro p hp g hg name d hd
  obtain ⟨hgrows, ⟨fs, henv, -, hentered, hfs⟩, -⟩ := runExpr_traced env {} e p hp
  rw [henv] at hg
  rcases eq_or_mem_groups_of_within hg hd with ⟨f, hf, hd⟩ | hg
  · obtain ⟨env', s, hs, ho⟩ := hentered.exists_opens hf
    obtain ⟨hiter, haccu⟩ := ho.holds (h.points e _ hs).sound
    rcases hd with rfl | rfl
    · exact K.mono (hfs f hf) hiter
    · exact K.mono (hfs f hf) haccu
  · exact K.mono hgrows (hident g hg name d hd)

section Fresh

theorem known_lookupCandidate {name : String} {d : IdentDecl}
    (hident : ∀ g ∈ env.scopes.groups, ∀ name d, g.idents.find? name = some d →
      ∀ k, varName k ∉ d.ty.params)
    (hmessage : ∀ name t, env.provider.message? name = some t → ∀ k, varName k ∉ t.params)
    (h : env.lookupCandidate? name = some d) (k : Nat) : varName k ∉ d.ty.params := by
  rw [Env.lookupCandidate?] at h
  split at h
  · next d' hd =>
    cases h
    obtain ⟨g, hg, hd⟩ := List.exists_of_findSome?_eq_some hd
    exact hident g hg name d hd k
  · rw [Env.promoted?] at h
    split at h
    · next t ht =>
      cases h
      exact hmessage name t ht k
    · obtain ⟨n, -, rfl⟩ := Option.map_eq_some_iff.1 h
      simp [Ty.params]

theorem Checker.Point.mentions_lt {p : Point} (h : TypeInvariant.variablesInUse.SoundState p.state)
    (hscope : ∀ g ∈ p.env.scopes.groups, ∀ name d, g.idents.find? name = some d →
      d.ty.Over (inUse p.state.nextVar)) {k : Nat} (hk : p.Mentions (varName k)) :
    k < p.state.nextVar := by
  rcases hk with ⟨t, u, htu, ht | hu⟩ | ⟨id, t, ht, hk⟩ | ⟨g, hg, name, d, hd, hk⟩
  · exact varName_mem_inUse.1 ((h.bound t u htu).1 _ ht)
  · exact varName_mem_inUse.1 ((h.bound t u htu).2 _ hu)
  · exact varName_mem_inUse.1 (h.types id t ht _ hk)
  · exact varName_mem_inUse.1 (hscope g hg name d hd _ hk)

theorem Overload.mem_params_instantiate {o : Overload} {n : Nat} {q : String}
    (ho : ∀ k, varName k ∉ o.typeParams) {t : Ty}
    (ht : t ∈ (o.instantiate n).2.1 :: (o.instantiate n).1) (hq : q ∈ t.params) :
    (∃ k, n ≤ k ∧ k < (o.instantiate n).2.2 ∧ varName k = q) ∨
      q ∉ o.typeParams ∧ ∃ u ∈ o.result :: o.params, q ∈ u.params := by
  rw [instantiate_eq fun k _ => ho k] at ht ⊢
  obtain ⟨u, hu, rfl⟩ : ∃ u ∈ o.result :: o.params,
      u.rename (freshName n o.typeParams) = t := List.mem_map.1 ht
  obtain ⟨r, hr, rfl⟩ := Ty.mem_params_rename.1 hq
  by_cases hown : r ∈ o.typeParams
  · obtain ⟨k, hn, hk, hname⟩ := freshName_mem_vars (n := n) hown
    exact .inl ⟨k, hn, hk, hname⟩
  · rw [freshName_of_not_mem hown]
    exact .inr ⟨hown, u, hu, hr⟩

theorem find?_types_of_list_nil {s s' : State} {id : Int} {e' : Expr}
    (h : Completes env s (.list id []) e' s') :
    s'.types.find? id = some (.list (freshVar s.nextVar)) := by
  simp only [Completes, checkExpr, checkElems, bind_eq_ok, pure_eq_ok] at h
  obtain ⟨_, rfl, s₁, hs, heq⟩ := h
  cases heq
  exact (grows_setType hs).2.1

theorem find?_types_of_map_nil {s s' : State} {id : Int} {e' : Expr}
    (h : Completes env s (.map id []) e' s') :
    s'.types.find? id = some (.map (freshVar s.nextVar) (freshVar (s.nextVar + 1))) := by
  simp only [Completes, checkExpr, checkEntries, bind_eq_ok, pure_eq_ok] at h
  obtain ⟨_, rfl, s₁, hs, heq⟩ := h
  cases heq
  exact (grows_setType hs).2.1

/-- If no declaration and no type of the provider mentions a type variable, then at every point of a
check, and at its end, the type variables that occur anywhere have numbers below the counter. So the
variables of an instance and those of an empty literal occur nowhere when they are given out. -/
theorem check_variables_fresh (env : Env) (e : Expr)
    (hident : ∀ g ∈ env.scopes.groups, ∀ name d, g.idents.find? name = some d →
      ∀ k, varName k ∉ d.ty.params)
    (hoverload : ∀ name f, env.scopes.findFunction? name = some f → ∀ o ∈ f.overloads,
      (∀ k, varName k ∉ o.typeParams) ∧ ∀ t ∈ o.result :: o.params, ∀ k, varName k ∉ t.params)
    (hmessage : ∀ name t, env.provider.message? name = some t → ∀ k, varName k ∉ t.params)
    (hfield : ∀ m f t, env.provider.field? m f = some t → ∀ k, varName k ∉ t.params) :
    (∀ p ∈ (runExpr env {} e).points,
      (∀ k, p.Mentions (varName k) → k < p.state.nextVar) ∧
      (∀ k, p.state.nextVar ≤ k → ¬ p.Mentions (varName k)) ∧
      (∀ args o, p.action = .attempt args o →
        ∀ t ∈ (o.instantiate p.state.nextVar).2.1 :: (o.instantiate p.state.nextVar).1,
        ∀ q ∈ t.params,
          (∃ k, p.state.nextVar ≤ k ∧ k < (o.instantiate p.state.nextVar).2.2 ∧ varName k = q) ∧
            ¬ p.Mentions q ∨
          q ∉ o.typeParams ∧ ∃ u ∈ o.result :: o.params, q ∈ u.params) ∧
      (∀ id e' s, p.action = .enter (.list id []) →
        checkExpr p.env p.state (.list id []) = .ok (e', s) →
        s.types.find? id = some (.list (freshVar p.state.nextVar))) ∧
      ∀ id e' s, p.action = .enter (.map id []) →
        checkExpr p.env p.state (.map id []) = .ok (e', s) →
        s.types.find? id =
          some (.map (freshVar p.state.nextVar) (freshVar (p.state.nextVar + 1)))) ∧
    ∀ e' s, checkExpr env {} e = .ok (e', s) →
      ∀ k, Point.Mentions ⟨env, s, .proceed⟩ (varName k) → k < s.nextVar := by
  have hstart : TypeInvariant.variablesInUse.SoundEnv env {} := by
    refine ⟨fun name d hd => ?_,
      fun name f hf o ho => ⟨(hoverload name f hf o ho).1, fun t ht => ?_⟩, fun m f t ht => ?_⟩
    · exact over_inUse_zero_iff.2 (known_lookupCandidate hident hmessage hd)
    · exact over_inUse_zero_iff.2 ((hoverload name f hf o ho).2 t ht)
    · exact over_inUse_zero_iff.2 (hfield m f t ht)
  have hgroups := hstart.groups (e := e) fun g hg name d hd =>
    over_inUse_zero_iff.2 (hident g hg name d hd)
  refine ⟨fun p hp => ?_, fun e' s hs k => ?_⟩
  · have hsound := hstart.points e p hp
    have hlt : ∀ k, p.Mentions (varName k) → k < p.state.nextVar := fun k =>
      Point.mentions_lt hsound.sound.toSoundState (hgroups p hp)
    have hfresh : ∀ k, p.state.nextVar ≤ k → ¬ p.Mentions (varName k) := fun k hk hm =>
      Nat.not_lt.2 hk (hlt k hm)
    refine ⟨hlt, hfresh, fun args o ha t ht q hq => ?_,
      fun id e' s _ hs => find?_types_of_list_nil hs, fun id e' s _ hs => find?_types_of_map_nil hs⟩
    rcases Overload.mem_params_instantiate (hsound.attempt args o ha) ht hq with
      ⟨k, hn, hk, rfl⟩ | h
    · exact .inl ⟨⟨k, hn, hk, rfl⟩, hfresh k hn⟩
    · exact .inr h
  · have hend := hstart.result hs
    refine Point.mentions_lt hend.toSoundState fun g hg name d hd => ?_
    exact (over_inUse_zero_iff.2 (hident g hg name d hd)).mono (inUse_mono (Nat.zero_le _))

theorem check_variables_fresh_of_empty_lists :
    let f : Overload :=
      { id := "first_list", params := [.list (.param "A")], result := .param "A",
        typeParams := ["A"] }
    let env : Env :=
      { container := {}, provider := ⟨fun _ => none, fun _ _ => none, fun _ => none⟩,
        scopes := ⟨{ functions := Table.insert {} "first" ⟨"first", [f]⟩ }, []⟩ }
    let e : Expr := .fold 1 "x" (.list 2 []) "y" (.list 3 []) (.const 4 (.bool true))
      (.call 5 "first" [.ident 6 "y"]) (.ident 7 "x")
    ∃ p ∈ (runExpr env {} e).points, p.action = .attempt [.list (freshVar 1)] f ∧
      p.state.nextVar = 2 ∧ p.Mentions (varName 0) ∧ p.Mentions (varName 1) ∧
      ∀ k, 2 ≤ k → ¬ p.Mentions (varName k) := by
  intro f env e
  obtain ⟨p, hp, ha, hn, hx, hy⟩ : ∃ p ∈ (runExpr env {} e).points,
      p.action = .attempt [.list (freshVar 1)] f ∧ p.state.nextVar = 2 ∧
      p.state.types.find? 2 = some (.list (freshVar 0)) ∧
      p.state.types.find? 6 = some (.list (freshVar 1)) :=
    ⟨_, List.mem_of_getElem? (i := 14) rfl, rfl, rfl, rfl, rfl⟩
  refine ⟨p, hp, ha, hn, .inr (.inl ⟨2, _, hx, List.mem_singleton_self _⟩),
    .inr (.inl ⟨6, _, hy, List.mem_singleton_self _⟩), ?_⟩
  have hA : ∀ k, varName k ∉ ["A"] := by
    intro k hk
    exact varName_ne_of_length_lt (by decide) k (List.mem_singleton.1 hk)
  rw [← hn]
  refine ((check_variables_fresh env e ?_ ?_ (by simp [env]) (by simp [env])).1 p hp).2.1
  · intro g hg name d hd
    cases List.mem_singleton.1 hg
    cases hd
  · intro name g hg o ho
    obtain ⟨c, hc, hg⟩ := List.exists_of_findSome?_eq_some hg
    cases List.mem_singleton.1 hc
    rw [Table.find?_insert] at hg
    split at hg
    · cases hg
      cases List.mem_singleton.1 ho
      exact ⟨hA, by simpa [f, Ty.params] using hA⟩
    · cases hg

end Fresh

end ExprTyping
