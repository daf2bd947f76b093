import ExprTyping.Proofs.Growth
import ExprTyping.Proofs.Substitution

/-!
# Invariants of the types of a check

A `TypeInvariant` is a property of types that survives whatever the rules do with types: taking them
apart, substituting, building literals, taking fresh variables. If it holds of all types that the
environment and the state give, then it does so at every point of a check and in the end
(`preserves`). What a property says may depend on the state as long as growth keeps it.
-/

namespace ExprTyping

open Checker State

structure TypeInvariant where
  Holds : State → Ty → Prop
  Admits : Overload → Prop
  mono : ∀ {s s' t}, Grows s s' → Holds s t → Holds s' t
  child : ∀ {s t c}, Holds s t → t.inner? = none → c ∈ t.children → Holds s c
  inst : ∀ {s t σ}, Holds s t → (∀ p ∈ t.params, Holds s (σ p)) → Holds s (t.inst σ)
  param : ∀ {s t p}, Holds s t → p ∈ t.params → Holds s (.param p)
  list : ∀ {s t}, Holds s t → Holds s (.list t)
  map : ∀ {s k v}, Holds s k → Holds s v → Holds s (.map k v)
  value : ∀ s (v : Value), Holds s v.ty
  dyn : ∀ s, Holds s .dyn
  error : ∀ {s}, s.reports ≠ [] → Holds s .error
  fresh : ∀ {s n}, n < s.nextVar → Holds s (freshVar n)
  literal : ∀ {s m}, Holds s (.typeOf (.message m)) → Holds s (.ofMessageName m)

namespace TypeInvariant

variable {K : TypeInvariant} {env env' : Env} {s s₁ s₂ : State} {id : Int} {t u : Ty}

theorem bool (K : TypeInvariant) (s : State) : K.Holds s .bool := K.value s (.bool true)

theorem subst {m : Bindings} (hk : m.ParamKeys) (hm : ∀ k u, m.find? k = some u → K.Holds s u)
    (b : Bool) (ht : K.Holds s t) : K.Holds s (m.subst b t) := by
  have hfree : ∀ {t p}, K.Holds s t → p ∈ t.params → K.Holds s (Bindings.unsolved b p) := by
    intro t p ht hp
    cases b with
    | true => exact K.dyn s
    | false => exact K.param ht hp
  -- on the number of rounds: the bound types of a round are substituted by the next one
  rw [Bindings.subst]
  generalize m.size = n
  induction n generalizing t with
  | zero =>
    rw [Bindings.substIn_zero]
    exact K.inst ht fun p hp => hfree ht hp
  | succ n ih =>
    rw [Bindings.substIn_succ hk]
    refine K.inst ht fun p hp => ?_
    cases h : m.find? (.param p) with
    | none => exact hfree ht hp
    | some u => exact ih (hm _ u h)

structure SoundEnv (K : TypeInvariant) (env : Env) (s : State) : Prop where
  ident : ∀ name d, env.lookupCandidate? name = some d → K.Holds s d.ty
  overload : ∀ name f, env.scopes.findFunction? name = some f →
    ∀ o ∈ f.overloads, K.Admits o ∧ ∀ t ∈ o.result :: o.params, K.Holds s t
  field : ∀ m f t, env.provider.field? m f = some t → K.Holds s t

structure SoundState (K : TypeInvariant) (s : State) : Prop where
  wf : s.bindings.Wf
  bound : ∀ k t, s.bindings.find? k = some t → K.Holds s k ∧ K.Holds s t
  types : ∀ id t, s.types.find? id = some t → K.Holds s t

/-- The invariant holds of all types that the environment and the state give. -/
structure Sound (K : TypeInvariant) (env : Env) (s : State) : Prop
  extends SoundEnv K env s, SoundState K s

theorem SoundEnv.mono (h : K.SoundEnv env s) (hg : Grows s s₁) : K.SoundEnv env s₁ where
  ident name d hd := K.mono hg (h.ident name d hd)
  overload name f hf o ho := (h.overload name f hf o ho).imp_right fun hsig t ht =>
    K.mono hg (hsig t ht)
  field m f t ht := K.mono hg (h.field m f t ht)

namespace Sound

theorem typeAt (h : K.Sound env s) (hid : s.HasType id) : K.Holds s (s.typeAt id) := by
  obtain ⟨t, ht⟩ := Option.isSome_iff_exists.1 hid
  rw [State.typeAt, ht]
  exact h.types id t ht

theorem subst (h : K.Sound env s) (ht : K.Holds s t) : K.Holds s (s.subst t) :=
  TypeInvariant.subst h.wf.keys (fun k u hu => (h.bound k u hu).2) false ht

theorem closed (h : K.Sound env s) : s.bindings.Closed (K.Holds s) where
  child _ _ := K.child
  bound t u _ hu := (h.bound t u hu).2

theorem transfer (h : K.Sound env s) (hg : Grows s s₁) (h₁ : K.Sound env' s₁) : K.Sound env s₁ :=
  ⟨h.toSoundEnv.mono hg, h₁.toSoundState⟩

theorem grow (h : K.Sound env s) (hg : Grows s s₁) (hb : s₁.bindings = s.bindings)
    (ht : ∀ id t, s₁.types.find? id = some t → s.types.find? id = some t ∨ K.Holds s₁ t) :
    K.Sound env s₁ := by
  refine ⟨h.toSoundEnv.mono hg, hg.wf h.wf, ?_, ?_⟩
  · rw [hb]
    exact fun k t hk => ⟨K.mono hg (h.bound k t hk).1, K.mono hg (h.bound k t hk).2⟩
  · exact fun id t hid => (ht id t hid).elim (fun hid => K.mono hg (h.types id t hid)) (fun h => h)

theorem report (h : K.Sound env s) (id : Int) (c : Cause) :
    K.Sound env (s.report id c) ∧ K.Holds (s.report id c) .error :=
  ⟨h.grow (quiet_report s id c).toGrows rfl fun _ _ h => .inl h, K.error (by simp [State.report])⟩

theorem orFresh (h : K.Sound env s) {t : Option Ty} (ht : ∀ u, t = some u → K.Holds s u) :
    K.Sound env (s.orFresh t).2 ∧ K.Holds (s.orFresh t).2 (s.orFresh t).1 := by
  have hg := (quiet_orFresh s t).toGrows
  cases t with
  | some t => exact ⟨h, ht t rfl⟩
  | none => exact ⟨h.grow hg rfl fun _ _ h => .inl h, K.fresh (Nat.lt_succ_self _)⟩

theorem rewrite (h : K.Sound env s) (hg : Grows s s₁) (ht : s₁.types = s.types)
    (hrw : Bindings.Rewrites (K.Holds s₁) s.bindings s₁.bindings) : K.Sound env s₁ := by
  refine ⟨h.toSoundEnv.mono hg, hg.wf h.wf, ?_, ?_⟩
  · intro k t hk
    rcases hrw.find?_cases hk with hk | hk
    · exact ⟨K.mono hg (h.bound k t hk).1, K.mono hg (h.bound k t hk).2⟩
    · exact hk
  · rw [ht]
    exact fun id t hid => K.mono hg (h.types id t hid)

theorem unify (h : K.Sound env s) (ht : K.Holds s t) (hu : K.Holds s u) :
    K.Sound env (s.unify t u).2 := by
  have hq := quiet_unify s t u
  rw [State.unify] at hq ⊢
  split at hq
  · next m hm =>
    refine h.rewrite hq.toGrows rfl ?_
    exact (Bindings.assign?_rewrites h.closed ht hu hm).mono fun _ => K.mono hq.toGrows
  · exact h

theorem require (h : K.Sound env s) (ht : K.Holds s t) (hu : K.Holds s u) (id : Int) (c : Cause) :
    K.Sound env (s.require t u id c) := by
  have h' := h.unify ht hu
  rw [State.require]
  split
  · next heq => rwa [heq] at h'
  · next heq =>
    rw [heq] at h'
    exact (h'.report id c).1

theorem expect (h : K.Sound env s) (hid : s.HasType id) (hu : K.Holds s u) :
    K.Sound env (s.expect id u) :=
  h.require (h.typeAt hid) hu _ _

theorem setType (h : K.Sound env s) (hset : s.setType id t = .ok s₁) (hg : Grows s₁ s₂)
    (hb : s₂.bindings = s.bindings) (ht : s₂.types = s₁.types) (hold : K.Holds s₂ t) :
    K.Sound env s₂ := by
  refine h.grow ((grows_setType hset).1.trans hg) hb fun i u hu => ?_
  rw [ht] at hu
  rcases setType_cases hset with ⟨-, rfl⟩ | ⟨-, rfl⟩
  · by_cases hi : id = i
    · subst hi
      simp only [Table.find?_insert_self, Option.some_inj] at hu
      exact .inr (hu ▸ hold)
    · exact .inl (by rwa [Table.find?_insert_of_ne _ _ hi] at hu)
  · exact .inl hu

end Sound

section Lookups

theorem lookupCandidate?_bind (env : Env) (d : IdentDecl) (name : String) :
    (env.enter.bind d).lookupCandidate? name =
      if d.name = name then some d else env.lookupCandidate? name := by
  by_cases h : d.name = name
  · simp [h, Env.lookupCandidate?, Env.bind, Env.enter, Scopes.findIdent?, Scopes.groups,
      Scopes.addIdent, Scopes.push]
  · have hempty : Table.find? (Table.insert {} d.name d) name = none := by
      rw [Table.find?_insert_of_ne _ _ h]
      rfl
    simp [h, hempty, Env.lookupCandidate?, Env.promoted?, Env.bind, Env.enter, Scopes.findIdent?,
      Scopes.groups, Scopes.addIdent, Scopes.push]

theorem SoundEnv.lookupIdent (h : K.SoundEnv env s) {name : String} {d : IdentDecl}
    (hd : env.lookupIdent? name = some d) : K.Holds s d.ty := by
  obtain ⟨c, -, hc⟩ := List.exists_of_findSome?_eq_some hd
  exact h.ident c d hc

theorem SoundEnv.lookupFunction (h : K.SoundEnv env s) {name : String} {f : FunctionDecl}
    (hf : env.lookupFunction? name = some f) :
    ∀ o ∈ f.overloads, K.Admits o ∧ ∀ t ∈ o.result :: o.params, K.Holds s t := by
  obtain ⟨c, -, hc⟩ := List.exists_of_findSome?_eq_some hf
  exact h.overload c f hc

theorem Sound.bind (h : K.Sound env s) {d : IdentDecl} (hd : K.Holds s d.ty) :
    K.Sound (env.enter.bind d) s := by
  refine ⟨⟨fun name e he => ?_, h.overload, h.field⟩, h.toSoundState⟩
  rw [lookupCandidate?_bind] at he
  split at he
  · cases he
    exact hd
  · exact h.ident name e he

end Lookups

section Helpers

theorem Sound.fieldType (h : K.Sound env s) (id : Int) (message field : String) :
    K.Sound env (fieldType env s id message field).2 ∧
      K.Holds (fieldType env s id message field).2 (fieldType env s id message field).1 := by
  unfold Checker.fieldType
  split
  · exact h.report id _
  · split
    · next t ht => exact ⟨h, h.field message field t ht⟩
    · exact h.report id _

theorem Sound.selection (h : K.Sound env s) (ht : K.Holds s t) (id : Int) (field : String) :
    K.Sound env (selection env s id t field).2 ∧
      K.Holds (selection env s id t field).2 (selection env s id t field).1 := by
  unfold Checker.selection
  split
  · exact ⟨h, K.child ht rfl (by simp [Ty.children])⟩
  · exact h.fieldType id _ field
  · exact ⟨h.unify (K.dyn s) ht, K.dyn _⟩
  · exact ⟨h, ht⟩
  · exact ⟨h, K.dyn s⟩
  · exact h.report id _

theorem Sound.join (h : K.Sound env s) {previous : Option Ty}
    (hp : ∀ t, previous = some t → K.Holds s t) (hu : K.Holds s u) (id : Int) :
    K.Sound env (join env s id previous u).2 ∧
      K.Holds (join env s id previous u).2 (join env s id previous u).1 := by
  unfold Checker.join
  split
  · exact ⟨h, hu⟩
  · next previous =>
    have h' := h.unify (hp previous rfl) hu
    have hg := (quiet_unify s previous u).toGrows
    split
    · next heq =>
      rw [heq] at h' hg
      exact ⟨h', Bindings.mostGeneral_of_both (K.mono hg (hp previous rfl)) (K.mono hg hu)⟩
    · next s₁ heq =>
      rw [heq] at h'
      split
      · exact ⟨h', K.dyn s₁⟩
      · exact h'.report id _

theorem Sound.messageType (h : K.Sound env s) (ht : K.Holds s t) (id : Int) :
    K.Sound env (messageType s id t).2 ∧
      K.Holds (messageType s id t).2 (literalType (messageType s id t).1) ∧
      ((∃ m, (messageType s id t).1 = .message m) ∨ K.Holds (messageType s id t).2 .error) := by
  have hreport : ∀ c, K.Sound env (s.report id c) ∧ K.Holds (s.report id c) (literalType .error) ∧
      ((∃ m, Ty.error = .message m) ∨ K.Holds (s.report id c) .error) := fun c =>
    ⟨(h.report id c).1, (h.report id c).2, .inr (h.report id c).2⟩
  unfold Checker.messageType
  split
  · exact ⟨h, ht, .inr ht⟩
  · exact ⟨h, K.literal ht, .inl ⟨_, rfl⟩⟩
  · exact hreport _
  · exact hreport _
  · exact hreport _

theorem Sound.initField (h : K.Sound env s) {valueId : Int}
    (ht : (∃ m, t = .message m) ∨ K.Holds s .error) (hid : s.HasType valueId) (id : Int)
    (field : String) : K.Sound env (initField env s t id field valueId) := by
  cases t with
  | message m =>
    have hf := h.fieldType id m field
    have hg := (quiet_fieldType env s id m field).toGrows
    exact hf.1.require (K.mono hg (h.typeAt hid)) hf.2 id _
  | _ => exact h.require (h.typeAt hid) (ht.resolve_left nofun) id _

theorem Sound.iterType (h : K.Sound env s) (ht : K.Holds s t) (id : Int) :
    K.Sound env (iterType s id t).2 ∧ K.Holds (iterType s id t).2 (iterType s id t).1 := by
  unfold Checker.iterType
  split
  · exact ⟨h, K.child ht rfl (by simp [Ty.children])⟩
  · exact ⟨h, K.child ht rfl (by simp [Ty.children])⟩
  · exact ⟨h.unify (K.dyn s) ht, K.dyn _⟩
  · exact ⟨h.unify (K.dyn s) ht, K.dyn _⟩
  · exact ⟨h.unify (K.dyn s) ht, K.dyn _⟩
  · exact h.report id _

end Helpers

section Trials

theorem find?_freshParams {n : Nat} {ps : List String} {m : Bindings}
    (h : (Overload.freshParams n ps m).1.find? t = some u) :
    m.find? t = some u ∨ ∃ p ∈ ps, t = .param p ∧
      ∃ k < (Overload.freshParams n ps m).2, u = freshVar k := by
  induction ps generalizing n m with
  | nil => exact .inl h
  | cons p ps ih =>
    rw [Overload.freshParams] at h ⊢
    rcases ih h with h | ⟨q, hq, hrest⟩
    · by_cases hp : .param p = t
      · rw [← hp, Table.find?_insert_self, Option.some_inj] at h
        refine .inr ⟨p, List.mem_cons_self, hp.symm, n, ?_, h.symm⟩
        rw [Overload.nextVar_freshParams]
        omega
      · rw [Table.find?_insert_of_ne _ _ hp] at h
        exact .inl h
    · exact .inr ⟨q, List.mem_cons_of_mem _ hq, hrest⟩

theorem paramKeys_freshParams (n : Nat) (ps : List String) :
    (Overload.freshParams n ps {}).1.ParamKeys := by
  intro k t h
  rcases find?_freshParams h with h | ⟨p, -, hp, -⟩
  · cases h
  · exact ⟨p, hp⟩

theorem holds_instantiate {o : Overload} {n : Nat} (ho : ∀ t ∈ o.result :: o.params, K.Holds s t)
    (hn : (o.instantiate n).2.2 ≤ s.nextVar) :
    ∀ t ∈ (o.instantiate n).2.1 :: (o.instantiate n).1, K.Holds s t := by
  by_cases hp : o.isParametric = true
  · simp only [Overload.instantiate, hp, if_true] at hn ⊢
    have hsubst : ∀ t, K.Holds s t →
        K.Holds s ((Overload.freshParams n o.typeParams {}).1.subst false t) := by
      refine fun t => TypeInvariant.subst (paramKeys_freshParams n o.typeParams) ?_ false
      intro k u h
      rcases find?_freshParams h with h | ⟨p, -, -, j, hj, rfl⟩
      · cases h
      · exact K.fresh (Nat.lt_of_lt_of_le hj hn)
    rw [List.forall_mem_cons] at ho ⊢
    refine ⟨hsubst _ ho.1, fun t ht => ?_⟩
    obtain ⟨u, hu, rfl⟩ := List.mem_map.1 ht
    exact hsubst u (ho.2 u hu)
  · rw [Overload.instantiate, if_neg hp]
    exact ho

theorem holds_add {found : Option Resolution} (hf : ∀ r, found = some r → K.Holds s r.result)
    (ht : K.Holds s t) (id : String) : K.Holds s (Resolution.add found id t).result := by
  cases found with
  | none => exact ht
  | some r =>
    simp only [Resolution.add]
    split
    · exact K.dyn s
    · exact hf r rfl

structure SoundTrial (K : TypeInvariant) (env : Env) (s : State) (t : Trial) : Prop where
  grows : Grows s (s.trying t)
  sound : K.Sound env (s.trying t)
  found : ∀ r, t.found = some r → K.Holds (s.trying t) r.result

theorem SoundTrial.overload {t : Trial} {args : List Ty} {o : Overload} (h : K.SoundTrial env s t)
    (hargs : ∀ u ∈ args, K.Holds s u) (ho : ∀ u ∈ o.result :: o.params, K.Holds s u) :
    K.SoundTrial env s (t.overload args o) := by
  have hstep := (t.quiet_overload s args o).toGrows
  have hg := h.grows.trans hstep
  rcases t.overload_case args o with heq | ⟨m, hm, heq⟩
  · rw [heq] at hstep hg ⊢
    refine ⟨hg, h.sound.grow hstep rfl fun _ _ h => .inl h, fun r hr => ?_⟩
    exact K.mono hstep (h.found r hr)
  · rw [heq] at hstep hg ⊢
    have hinst := holds_instantiate (K := K) (n := t.nextVar)
      (fun u hu => K.mono hg (ho u hu)) (Nat.le_refl _)
    rw [List.forall_mem_cons] at hinst
    have hclosed : t.bindings.Closed (K.Holds (s.trying _)) :=
      ⟨fun _ _ => K.child, fun k u _ hu => K.mono hstep (h.sound.bound k u hu).2⟩
    have hsound := h.sound.rewrite hstep rfl
      (Bindings.assignAll?_rewrites hclosed (fun u hu => K.mono hg (hargs u hu)) hinst.2 hm)
    refine ⟨hg, hsound, fun r hr => ?_⟩
    cases hr
    exact holds_add (fun r hr => K.mono hstep (h.found r hr)) (hsound.subst hinst.1) o.id

end Trials

end TypeInvariant

end ExprTyping
