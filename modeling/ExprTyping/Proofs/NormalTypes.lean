import ExprTyping.Proofs.BuiltEnvironments
import ExprTyping.Proofs.SharedPromotions

namespace ExprTyping

namespace Ty

mutual
/-- The messages in a type outside of type values. -/
def bareMessages : Ty → List String
  | message n => [n]
  | list t => t.bareMessages
  | map k v => k.bareMessages ++ v.bareMessages
  | abstract _ ts => bareMessagesAll ts
  | function r ts => r.bareMessages ++ bareMessagesAll ts
  | _ => []

def bareMessagesAll : List Ty → List String
  | [] => []
  | t :: ts => t.bareMessages ++ bareMessagesAll ts
end

def Normal (t : Ty) : Prop := ∀ n ∈ t.bareMessages, wellKnownMessage? n = none

instance (t : Ty) : Decidable t.Normal :=
  inferInstanceAs (Decidable (∀ n ∈ t.bareMessages, wellKnownMessage? n = none))

variable {t c k v r : Ty} {ts : List Ty} {n : String} {σ : String → Ty}

theorem normal_of_bareMessages_eq_nil (h : t.bareMessages = []) : t.Normal := by
  simp [Normal, h]

theorem normal_map : (map k v).Normal ↔ k.Normal ∧ v.Normal := List.forall_mem_append

theorem normal_abstract : (abstract n ts).Normal ↔ ∀ t ∈ ts, t.Normal := by
  induction ts with
  | nil => simp [Normal, bareMessages, bareMessagesAll]
  | cons t ts ih =>
    rw [List.forall_mem_cons, ← ih]
    exact List.forall_mem_append

theorem normal_function : (function r ts).Normal ↔ r.Normal ∧ ∀ t ∈ ts, t.Normal := by
  rw [← normal_abstract (n := "")]
  exact List.forall_mem_append

theorem Normal.child (h : t.Normal) (hi : t.inner? = none) (hc : c ∈ t.children) : c.Normal := by
  cases t with
  | typeOf t => cases hi
  | wrapper p =>
    rw [List.mem_singleton.1 hc]
    exact normal_of_bareMessages_eq_nil rfl
  | list t => rwa [List.mem_singleton.1 hc]
  | map k v =>
    simp only [children, List.mem_cons, List.not_mem_nil, or_false] at hc
    rcases hc with rfl | rfl
    · exact (normal_map.1 h).1
    · exact (normal_map.1 h).2
  | abstract n ts => exact normal_abstract.1 h c hc
  | function r ts =>
    simp only [children, List.mem_append, List.mem_singleton] at hc
    have := normal_function.1 h
    grind
  | _ => cases hc

theorem Normal.inst (h : t.Normal) (hσ : ∀ p ∈ t.params, (σ p).Normal) : (t.inst σ).Normal := by
  induction t with
  | param p => exact hσ p (by simp [params])
  | typeOf t => exact normal_of_bareMessages_eq_nil rfl
  | list t ih => exact ih h hσ
  | map k v ihk ihv =>
    obtain ⟨hk, hv⟩ := normal_map.1 h
    simp only [params, List.forall_mem_append] at hσ
    exact normal_map.2 ⟨ihk hk hσ.1, ihv hv hσ.2⟩
  | abstract n ts ih =>
    rw [Ty.inst, instAll_eq_map, normal_abstract, List.forall_mem_map]
    exact fun t ht => ih t ht (normal_abstract.1 h t ht) fun p hp =>
      hσ p (mem_paramsAll.2 ⟨t, ht, hp⟩)
  | function r ts ihr ih =>
    obtain ⟨hr, hts⟩ := normal_function.1 h
    simp only [params, List.forall_mem_append] at hσ
    rw [Ty.inst, instAll_eq_map, normal_function, List.forall_mem_map]
    exact ⟨ihr hr hσ.1, fun t ht => ih t ht (hts t ht) fun p hp =>
      hσ.2 p (mem_paramsAll.2 ⟨t, ht, hp⟩)⟩
  | _ => exact h

theorem normal_ofMessageName (n : String) : (ofMessageName n).Normal := by
  rw [ofMessageName]
  cases h : wellKnownMessage? n with
  | none => simpa [Normal, bareMessages] using h
  | some t =>
    refine normal_of_bareMessages_eq_nil ?_
    unfold wellKnownMessage? at h
    split at h <;> cases h <;> rfl

theorem normalizeAll_eq_map (ts : List Ty) : normalizeAll ts = ts.map normalize := by
  induction ts with
  | nil => rfl
  | cons t ts ih => rw [normalizeAll, ih, List.map_cons]

theorem normal_normalize (t : Ty) : t.normalize.Normal := by
  induction t with
  | message n => exact normal_ofMessageName n
  | list t ih => exact ih
  | map k v ihk ihv => exact normal_map.2 ⟨ihk, ihv⟩
  | abstract n ts ih =>
    rw [normalize, normalizeAll_eq_map, normal_abstract, List.forall_mem_map]
    exact ih
  | function r ts ihr ih =>
    rw [normalize, normalizeAll_eq_map, normal_function, List.forall_mem_map]
    exact ⟨ihr, ih⟩
  | _ => exact normal_of_bareMessages_eq_nil rfl

end Ty

open Ty

def TypeInvariant.normal : TypeInvariant where
  Holds _ t := t.Normal
  Admits _ := True
  mono _ h := h
  child h hi hc := h.child hi hc
  inst h hσ := h.inst hσ
  param _ _ := normal_of_bareMessages_eq_nil rfl
  list h := h
  map hk hv := normal_map.2 ⟨hk, hv⟩
  value _ v := normal_of_bareMessages_eq_nil (by cases v <;> rfl)
  dyn _ := normal_of_bareMessages_eq_nil rfl
  error _ := normal_of_bareMessages_eq_nil rfl
  fresh _ := normal_of_bareMessages_eq_nil rfl
  literal _ := normal_ofMessageName _

def DeclInvariant.normal : DeclInvariant where
  Ident d := d.ty.Normal
  Function f := ∀ o ∈ f.overloads, ∀ t ∈ o.result :: o.params, t.Normal
  normalize d := normal_normalize d.ty
  empty _ := by simp
  extend {f o} h _ := by
    refine List.forall_mem_append.2 ⟨h, ?_⟩
    simp [Overload.normalize, normal_normalize, normalizeAll_eq_map]

theorem Standard.normal_functions : ∀ f ∈ Standard.functions, ∀ o ∈ f.overloads,
    ∀ t ∈ o.result :: o.params, t.Normal := by
  decide +kernel

theorem Env.normal_standard (container : Container) (provider : Provider) :
    DeclInvariant.normal.Holds (Env.standard container provider).scopes := by
  constructor
  · intro name d hd
    obtain ⟨n, t, -, rfl⟩ := Env.findIdent?_standard hd
    exact normal_of_bareMessages_eq_nil rfl
  · intro name f hf
    exact Standard.normal_functions f (Env.findFunction?_standard hf)

theorem Env.normal_soundEnv {env : Env} (h : DeclInvariant.normal.Holds env.scopes)
    (hfield : ∀ m f t, env.provider.field? m f = some t → t.Normal) :
    TypeInvariant.normal.SoundEnv env {} := by
  refine ⟨fun name d hd => ?_, fun name f hf o ho => ⟨trivial, h.function name f hf o ho⟩, hfield⟩
  -- the provider's messages become type values
  cases Env.denotes_iff.2 hd with
  | declared hd => exact h.ident name d hd
  | message => exact normal_of_bareMessages_eq_nil rfl
  | constant => exact normal_of_bareMessages_eq_nil rfl

/-- In an environment built on the empty or the standard one, over a provider whose fields have
normal types, the types of every result are normal. -/
theorem check_normal {container : Container} {provider : Provider} {options : Options}
    {start env : Env}
    (hfield : ∀ m f t, provider.field? m f = some t →
      ∀ n ∈ t.bareMessages, wellKnownMessage? n = none)
    (hstart : start = { container, provider, options } ∨
      start = { Env.standard container provider with options })
    (henv : start.Builds env) (source : Source) (e : Expr) (r : CheckResult)
    (hcheck : check env source e = .ok r) :
    ∀ id t, r.types.find? id = some t → ∀ n ∈ t.bareMessages, wellKnownMessage? n = none := by
  have hscopes : DeclInvariant.normal.Holds start.scopes ∧ start.provider = provider := by
    rcases hstart with rfl | rfl
    · exact ⟨DeclInvariant.holds_empty _, rfl⟩
    · exact ⟨Env.normal_standard container provider, rfl⟩
  have hsound : TypeInvariant.normal.SoundEnv env {} :=
    Env.normal_soundEnv (hscopes.1.builds henv) (by rwa [henv.provider_eq, hscopes.2])
  obtain ⟨s, hs, htypes, -⟩ := check_eq_ok hcheck
  intro id t ht
  rw [htypes, Table.find?_mapValues, Option.map_eq_some_iff] at ht
  obtain ⟨u, hu, rfl⟩ := ht
  have h := hsound.result hs
  exact TypeInvariant.subst h.wf.keys (fun k v hv => (h.bound k v hv).2) true (h.types id u hu)

theorem check_normal_of_duration :
    let d := "google.protobuf.Duration"
    let provider : Provider :=
      ⟨fun n => if n = d then some (.message n) else none,
        fun m f => if m = d ∧ f = "seconds" then some .int else none, fun _ => none⟩
    let e : Expr := .map 6 [.mk 5 (.ident 1 d) (.list 4 [.ident 2 "x", .message 3 d []])]
    ∃ env, (Env.standard {} provider).add [.ident { name := "x", ty := .message d }] = .ok env ∧
      ∃ r, check env {} e = .ok r ∧
        r.types.find? 6 = some (.map (.typeOf (.message d)) (.list .duration)) ∧
        ∀ id t, r.types.find? id = some t → ∀ n ∈ t.bareMessages, wellKnownMessage? n = none := by
  intro d provider e
  obtain ⟨env, henv, r, hr, -, ht⟩ : ∃ env,
      (Env.standard {} provider).add [.ident { name := "x", ty := .message d }] = .ok env ∧
      ∃ r, check env {} e = .ok r ∧ r.diagnostics = [] ∧
        r.types.find? 6 = some (.map (.typeOf (.message d)) (.list .duration)) :=
    ⟨_, rfl, exists_check_eq_ok (by decide +kernel)⟩
  have hfield : ∀ m f t, provider.field? m f = some t → t.Normal := by
    intro m f t ht
    simp only [provider, Option.ite_none_right_eq_some, Option.some_inj] at ht
    rw [← ht.2]
    exact normal_of_bareMessages_eq_nil rfl
  exact ⟨env, henv, r, hr, ht, check_normal hfield (.inr rfl) (.add .start henv) {} e r hr⟩

end ExprTyping
