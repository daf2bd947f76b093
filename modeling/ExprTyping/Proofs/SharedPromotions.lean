import ExprTyping.Env.Add
import ExprTyping.Env.Session
import Mathlib.Data.List.Forall2

/-!
# Shared promotions

Environments that are derived from one another share what they remember of their provider, though
their scopes differ and change. Whatever happened to them before, a lookup is answered as if nothing
were remembered (`Family.answers_memoryless`). The reason is that a name is remembered only as what
the one provider makes of it (`Family.Faithful`), and looked for only where no scope declares it.
-/

namespace ExprTyping

/-- What a candidate stands for, said without any memory. -/
inductive Env.Denotes (env : Env) (c : String) : IdentDecl → Prop
  | declared {d : IdentDecl} : env.scopes.findIdent? c = some d → Denotes env c d
  | message {t : Ty} : env.scopes.findIdent? c = none → env.provider.message? c = some t →
      Denotes env c { name := c, ty := .typeOf t }
  | constant {n : Int64} : env.scopes.findIdent? c = none → env.provider.message? c = none →
      env.provider.enumValue? c = some n →
      Denotes env c { name := c, ty := .int, value := some (.int n) }

/-- A name means what the first of its candidates stands for that stands for anything. -/
inductive Env.Means (env : Env) (name : String) : Option IdentDecl → Prop
  | found {before after : List String} {c : String} {d : IdentDecl} :
      env.container.candidates name = before ++ c :: after →
      (∀ b ∈ before, ∀ d, ¬ env.Denotes b d) → env.Denotes c d → Means env name (some d)
  | unknown : (∀ c ∈ env.container.candidates name, ∀ d, ¬ env.Denotes c d) →
      Means env name none

inductive Event
  | lookup (i : Nat) (name : String)
  | clone (i : Nat)
  | enter (i : Nat)
  | exit (i : Nat)
  | bind (i : Nat) (d : IdentDecl)
  | add (i : Nat) (ds : List Decl)

namespace Event

def query? (envs : List Env) : Event → Option (Env × String)
  | lookup i name => envs[i]?.map (·, name)
  | _ => none

/-- A derived environment is a further one, while declarations change the one they are made in. -/
def apply (envs : List Env) : Event → List Env
  | lookup _ _ => envs
  | clone i => envs ++ envs[i]?.toList
  | enter i => envs ++ (envs[i]?.map Env.enter).toList
  | exit i => envs ++ (envs[i]?.map Env.exit).toList
  | bind i d => envs.modify i (·.bind d)
  | add i ds => envs.modify i fun env => (env.addAll ds).1

def queries (envs : List Env) : List Event → List (Env × String)
  | [] => []
  | e :: es => (e.query? envs).toList ++ queries (e.apply envs) es

end Event

/-- Environments with one memory of what their provider made of names. -/
structure Family where
  envs : List Env
  promoted : Table String IdentDecl := {}

namespace Family

def step (F : Family) (e : Event) : List (Option IdentDecl) × Family :=
  match e.query? F.envs with
  | some (env, name) =>
    let (answer, s) := (Session.mk env F.promoted).lookupIdent? name
    ([answer], { envs := e.apply F.envs, promoted := s.promoted })
  | none => ([], { F with envs := e.apply F.envs })

def answers (F : Family) : List Event → List (Option IdentDecl)
  | [] => []
  | e :: es => (F.step e).1 ++ (F.step e).2.answers es

end Family

namespace Env

variable {env : Env} {name c : String} {d : IdentDecl}

theorem denotes_iff : env.Denotes c d ↔ env.lookupCandidate? c = some d := by
  constructor
  · rintro (h | ⟨h, hm⟩ | ⟨h, hm, hn⟩)
    · simp [lookupCandidate?, h]
    · simp [lookupCandidate?, h, promoted?, hm]
    · simp [lookupCandidate?, h, promoted?, hm, hn]
  · intro h
    cases hd : env.scopes.findIdent? c with
    | some _ =>
      simp only [lookupCandidate?, hd] at h
      exact .declared (hd.trans h)
    | none =>
      simp only [lookupCandidate?, hd, promoted?] at h
      cases hm : env.provider.message? c with
      | some t =>
        simp only [hm, Option.some_inj] at h
        exact h ▸ .message hd hm
      | none =>
        simp only [hm, Option.map_eq_some_iff] at h
        obtain ⟨n, hn, rfl⟩ := h
        exact .constant hd hm hn

theorem not_denotes_iff : (∀ d, ¬ env.Denotes c d) ↔ env.lookupCandidate? c = none := by
  simp only [denotes_iff, Option.eq_none_iff_forall_ne_some, ne_eq]

theorem means_iff {a : Option IdentDecl} : env.Means name a ↔ a = env.lookupIdent? name := by
  constructor
  · rintro (⟨heq, hbefore, hc⟩ | h)
    · refine (List.findSome?_eq_some_iff.2 ⟨_, _, _, heq, denotes_iff.1 hc, ?_⟩).symm
      exact fun b hb => not_denotes_iff.1 (hbefore b hb)
    · exact (List.findSome?_eq_none_iff.2 fun c hc => not_denotes_iff.1 (h c hc)).symm
  · rintro rfl
    cases h : env.lookupIdent? name with
    | none =>
      rw [lookupIdent?, List.findSome?_eq_none_iff] at h
      exact .unknown fun c hc => not_denotes_iff.2 (h c hc)
    | some d =>
      rw [lookupIdent?, List.findSome?_eq_some_iff] at h
      obtain ⟨before, c, after, heq, hc, hbefore⟩ := h
      exact .found heq (fun b hb => not_denotes_iff.2 (hbefore b hb)) (denotes_iff.2 hc)

end Env

namespace Session

def Faithful (s : Session) : Prop :=
  ∀ c d, s.promoted.find? c = some d → s.env.promoted? c = some d

structure Answers (s : Session) (a : Option IdentDecl) (r : Option IdentDecl × Session) : Prop where
  answer : r.1 = a
  env : r.2.env = s.env
  faithful : r.2.Faithful

variable {s : Session}

theorem Faithful.insert (h : s.Faithful) {c : String} {d : IdentDecl}
    (hd : s.env.promoted? c = some d) :
    Faithful { s with promoted := s.promoted.insert c d } :=
  Table.forall_find?_insert s.promoted h hd

theorem Faithful.lookupCandidate? (h : s.Faithful) (c : String) :
    s.Answers (s.env.lookupCandidate? c) (s.lookupCandidate? c) := by
  rw [Session.lookupCandidate?, Env.lookupCandidate?]
  cases s.env.scopes.findIdent? c with
  | some d => exact ⟨rfl, rfl, h⟩
  | none =>
    cases hp : s.promoted.find? c with
    | some d => exact ⟨(h c d hp).symm, rfl, h⟩
    | none =>
      cases hd : s.env.promoted? c with
      | some d => exact ⟨rfl, rfl, h.insert hd⟩
      | none => exact ⟨rfl, rfl, h⟩

theorem Faithful.lookupFirst? (h : s.Faithful) (cs : List String) :
    s.Answers (cs.findSome? s.env.lookupCandidate?) (s.lookupFirst? cs) := by
  induction cs generalizing s with
  | nil => exact ⟨rfl, rfl, h⟩
  | cons c cs ih =>
    obtain ⟨hanswer, henv, hfaithful⟩ := h.lookupCandidate? c
    rw [Session.lookupFirst?, List.findSome?_cons]
    cases hr : s.lookupCandidate? c with
    | mk a s' =>
      rw [hr] at hanswer henv hfaithful
      rw [← hanswer]
      cases a with
      | some d => exact ⟨rfl, henv, hfaithful⟩
      | none =>
        obtain ⟨hanswer', henv', hfaithful'⟩ := ih hfaithful
        exact ⟨henv ▸ hanswer', henv'.trans henv, hfaithful'⟩

theorem Faithful.lookupIdent? (h : s.Faithful) (name : String) :
    s.Answers (s.env.lookupIdent? name) (s.lookupIdent? name) :=
  h.lookupFirst? _

end Session

section Provider

variable {envs : List Env} {p : Provider}

theorem Env.promoted?_congr {env env' : Env} (h : env.provider = env'.provider) (c : String) :
    env.promoted? c = env'.promoted? c := by
  rw [promoted?, promoted?, h]

theorem Env.provider_addAll (env : Env) (ds : List Decl) :
    (env.addAll ds).1.provider = env.provider := by
  rw [addAll]
  split <;> rfl

theorem Event.provider_derived (h : ∀ env ∈ envs, env.provider = p) (i : Nat) {f : Env → Env}
    (hf : ∀ env, (f env).provider = env.provider) :
    ∀ env ∈ envs ++ (envs[i]?.map f).toList, env.provider = p := by
  refine List.forall_mem_append.2 ⟨h, fun env henv => ?_⟩
  obtain ⟨env, hi, rfl⟩ := Option.map_eq_some_iff.1 (Option.mem_toList.1 henv)
  rw [hf, h env (List.mem_of_getElem? hi)]

theorem Event.provider_modify (h : ∀ env ∈ envs, env.provider = p) (i : Nat) {f : Env → Env}
    (hf : ∀ env, (f env).provider = env.provider) :
    ∀ env ∈ envs.modify i f, env.provider = p := by
  intro env henv
  obtain ⟨j, hj⟩ := List.mem_iff_getElem?.1 henv
  rw [List.getElem?_modify] at hj
  obtain ⟨env, hi, rfl⟩ := Option.map_eq_some_iff.1 hj
  have hp := h env (List.mem_of_getElem? hi)
  split
  · rw [hf, hp]
  · exact hp

theorem Event.provider_apply (h : ∀ env ∈ envs, env.provider = p) (e : Event) :
    ∀ env ∈ e.apply envs, env.provider = p := by
  cases e with
  | lookup i name => exact h
  | clone i => simpa [apply] using provider_derived h i (f := id) fun _ => rfl
  | enter i => exact provider_derived h i fun _ => rfl
  | exit i => exact provider_derived h i fun _ => rfl
  | bind i d => exact provider_modify h i fun _ => rfl
  | add i ds => exact provider_modify h i fun env => env.provider_addAll ds

theorem Event.mem_of_query? {e : Event} {env : Env} {name : String}
    (h : e.query? envs = some (env, name)) : env ∈ envs := by
  cases e with
  | lookup i name =>
    obtain ⟨env, hi, heq⟩ := Option.map_eq_some_iff.1 h
    cases heq
    exact List.mem_of_getElem? hi
  | _ => cases h

end Provider

namespace Family

structure Faithful (origin : Env) (F : Family) : Prop where
  provider : ∀ env ∈ F.envs, env.provider = origin.provider
  promoted : ∀ c d, F.promoted.find? c = some d → origin.promoted? c = some d

variable {origin : Env} {F : Family}

theorem Faithful.step (h : F.Faithful origin) (e : Event) :
    (F.step e).1 = ((e.query? F.envs).map fun q => q.1.lookupIdent? q.2).toList ∧
      (F.step e).2.envs = e.apply F.envs ∧ (F.step e).2.Faithful origin := by
  have hprovider := Event.provider_apply h.provider e
  rw [Family.step]
  cases hq : e.query? F.envs with
  | none => exact ⟨rfl, rfl, hprovider, h.promoted⟩
  | some q =>
    obtain ⟨env, name⟩ := q
    have hp := Env.promoted?_congr (h.provider env (Event.mem_of_query? hq))
    have hs : Session.Faithful ⟨env, F.promoted⟩ := fun c d hd => (hp c).trans (h.promoted c d hd)
    obtain ⟨hanswer, henv, hfaithful⟩ := hs.lookupIdent? name
    refine ⟨congrArg (fun a => [a]) hanswer, rfl, hprovider, fun c d hd => ?_⟩
    have hd' := hfaithful c d hd
    rw [henv] at hd'
    exact (hp c).symm.trans hd'

theorem Faithful.answers_eq (h : F.Faithful origin) (es : List Event) :
    F.answers es = (Event.queries F.envs es).map fun q => q.1.lookupIdent? q.2 := by
  induction es generalizing F with
  | nil => rfl
  | cons e es ih =>
    obtain ⟨hanswer, henvs, hfaithful⟩ := h.step e
    rw [answers, Event.queries, List.map_append, hanswer, ih hfaithful, henvs, Option.toList_map]

/-- The memory is transparent: in every history of a family that begins with one environment and no
memory, each query is answered by what its environment, as it is then, takes the name to mean. -/
theorem answers_memoryless (env : Env) (es : List Event) :
    answers { envs := [env] } es =
        (Event.queries [env] es).map (fun q => q.1.lookupIdent? q.2) ∧
      List.Forall₂ (fun q answer => ∀ a, q.1.Means q.2 a ↔ a = answer) (Event.queries [env] es)
        (answers { envs := [env] } es) := by
  have h : Faithful env { envs := [env] } := by
    refine ⟨fun e he => ?_, Table.forall_find?_empty⟩
    rw [List.mem_singleton.1 he]
  rw [h.answers_eq]
  refine ⟨rfl, List.forall₂_map_right_iff.2 (List.forall₂_same.2 fun q _ a => ?_)⟩
  exact Env.means_iff

example :
    let env : Env :=
      { container := {},
        provider := ⟨fun n => if n = "M" then some (.message n) else none, fun _ _ => none,
          fun _ => none⟩ }
    let m : IdentDecl := { name := "M", ty := .typeOf (.message "M") }
    let b : IdentDecl := { name := "M", ty := .bool }
    answers { envs := [env] } [.lookup 0 "M", .enter 0, .bind 1 b, .lookup 1 "M", .lookup 0 "M",
      .exit 1, .lookup 2 "M"] = [some m, some b, some m, some m] := rfl

end Family

end ExprTyping
