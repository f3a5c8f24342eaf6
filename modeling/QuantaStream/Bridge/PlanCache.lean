import Mathlib.Data.List.AList
import QuantaStream.Lib.GoString
import QuantaStream.Lib.KeyText
import QuantaStream.Lib.Run

/-!
# The cache of prepared plans

A prepared plan is cached under a digest of everything planning depends on: the statement, the
schema, the catalog version, the user with roles, modes, time zone and variables, and the physical
scope (`qsbridge/cachekey.go`, `prepared_cache.go` and `service.go`).  The parts are
written as names and values with separators between them, and nothing escapes a separator inside a
value.
-/

namespace QuantaStream.Bridge

open List GoString Run AList

/-! ## Requests -/

/-- `SessionContext`, without temporary tables; the variables are those of a map. -/
structure SessionContext where
  id : GoString
  user : GoString
  roles : List GoString
  currentSchema : GoString
  timeZone : GoString
  sqlModes : List GoString
  vars : List (GoString × GoString)
  distinct : (vars.map Prod.fst).Nodup

structure PhysicalScope where
  shardsAll : Bool
  shards : List GoString
  replicas : List GoString
  routing : GoString
  placement : GoString
  cache : GoString

/-- `PlanRequest`; a planner holds the same as defaults, with an empty statement. -/
structure PlanRequest where
  sql : GoString
  defaultSchema : GoString
  catalogVersion : GoString
  session : SessionContext
  scope : PhysicalScope

open PlanRequest

def SessionContext.empty (s : SessionContext) : Prop :=
  s.id = [] ∧ s.user = [] ∧ s.currentSchema = [] ∧ s.roles = [] ∧ s.sqlModes = [] ∧
    s.vars = []

instance (s : SessionContext) : Decidable s.empty := inferInstanceAs (Decidable (_ ∧ _))

def PhysicalScope.unscoped (s : PhysicalScope) : Prop :=
  s.shardsAll = false ∧ s.shards = [] ∧ s.replicas = [] ∧ s.routing = [] ∧ s.placement = [] ∧
    s.cache = []

instance (s : PhysicalScope) : Decidable s.unscoped := inferInstanceAs (Decidable (_ ∧ _))

def orElse (text other : GoString) : GoString := if text = [] then other else text

def withDefaults (planner r : PlanRequest) : PlanRequest :=
  let session := if r.session.empty then planner.session else r.session
  { sql := r.sql
    defaultSchema := orElse r.defaultSchema (orElse session.currentSchema planner.defaultSchema)
    catalogVersion := orElse r.catalogVersion planner.catalogVersion
    session := session
    scope := if r.scope.unscoped then planner.scope else r.scope }

/-! ## Keys -/

namespace PlanRequest

variable (r : PlanRequest)

/-- The schema that names without one are looked up in. -/
def schema : GoString := orElse r.defaultSchema r.session.currentSchema

/-- The names and values `digest` writes. -/
def parts : List (GoString × GoString) :=
  [(ascii "sql", r.sql), (ascii "schema", r.schema),
    (ascii "catalog_version", r.catalogVersion), (ascii "user", r.session.user)] ++
  r.session.roles.mergeSort.map (ascii "role", ·) ++
  r.session.sqlModes.mergeSort.map (ascii "sql_mode", ·) ++
  [(ascii "time_zone", r.session.timeZone)] ++
  (r.session.vars.mergeSort (fun v w => v.1 ≤ w.1)).map (fun v => (ascii "var:" ++ v.1, v.2)) ++
  [(ascii "shards_all", ascii (if r.scope.shardsAll then "true" else "false"))] ++
  r.scope.shards.mergeSort.map (ascii "shard", ·) ++
  r.scope.replicas.mergeSort.map (ascii "replica", ·) ++
  [(ascii "routing", r.scope.routing), (ascii "placement", r.scope.placement),
    (ascii "cache", r.scope.cache)]

end PlanRequest

def writeCachePart (part : GoString × GoString) : GoString := part.1 ++ 61 :: part.2 ++ [0]

/-- What `digest` hashes. -/
def PlanRequest.keyText (r : PlanRequest) : GoString := r.parts.flatMap writeCachePart

/-- The requests agree in everything planning depends on, lists up to their order. -/
structure PlanRequest.Agrees (r r' : PlanRequest) : Prop where
  sql : r.sql = r'.sql
  schema : r.schema = r'.schema
  catalogVersion : r.catalogVersion = r'.catalogVersion
  user : r.session.user = r'.session.user
  roles : r.session.roles ~ r'.session.roles
  sqlModes : r.session.sqlModes ~ r'.session.sqlModes
  timeZone : r.session.timeZone = r'.session.timeZone
  vars : r.session.vars ~ r'.session.vars
  shardsAll : r.scope.shardsAll = r'.scope.shardsAll
  shards : r.scope.shards ~ r'.scope.shards
  replicas : r.scope.replicas ~ r'.scope.replicas
  routing : r.scope.routing = r'.scope.routing
  placement : r.scope.placement = r'.scope.placement
  cache : r.scope.cache = r'.scope.cache

/-- No text of the request holds a separator: no NUL anywhere, no `=` in the name of a variable. -/
def PlanRequest.Clean (r : PlanRequest) : Prop :=
  (∀ text ∈ [r.sql, r.schema, r.catalogVersion, r.session.user, r.session.timeZone,
    r.scope.routing, r.scope.placement, r.scope.cache] ++ r.session.roles ++ r.session.sqlModes ++
    r.scope.shards ++ r.scope.replicas, 0 ∉ text) ∧
  ∀ v ∈ r.session.vars, 0 ∉ v.1 ∧ 61 ∉ v.1 ∧ 0 ∉ v.2

instance (r : PlanRequest) : Decidable r.Clean := inferInstanceAs (Decidable (_ ∧ _))

/-- The part can be read back. -/
def CleanPart (part : GoString × GoString) : Prop := 61 ∉ part.1 ∧ 0 ∉ part.1 ∧ 0 ∉ part.2

/-- Parts that can be read back are read in one way. -/
theorem flatMap_writeCachePart_inj {ps qs : List (GoString × GoString)} (hp : ∀ p ∈ ps, CleanPart p)
    (hq : ∀ q ∈ qs, CleanPart q) (h : ps.flatMap writeCachePart = qs.flatMap writeCachePart) :
    ps = qs := by
  induction ps generalizing qs with
  | nil =>
    cases qs with
    | nil => rfl
    | cons q qs => simp [writeCachePart] at h
  | cons p ps ih =>
    cases qs with
    | nil => simp [writeCachePart] at h
    | cons q qs =>
      have hclean := hp p mem_cons_self
      have hclean' := hq q mem_cons_self
      have hzero : ∀ x : GoString × GoString, CleanPart x → 0 ∉ x.1 ++ 61 :: x.2 := by
        intro x hx
        simp [hx.2.1, hx.2.2]
      rw [flatMap_cons, flatMap_cons, writeCachePart, writeCachePart, append_assoc,
        append_assoc _ [0], singleton_append, singleton_append] at h
      obtain ⟨hpart, hrest⟩ := KeyText.append_separator_inj (hzero p hclean) (hzero q hclean') h
      obtain ⟨hname, hvalue⟩ := KeyText.append_separator_inj hclean.1 hclean'.1 hpart
      rw [Prod.ext hname hvalue, ih (fun p h => hp p (mem_cons_of_mem _ h))
        (fun q h => hq q (mem_cons_of_mem _ h)) hrest]

theorem PlanRequest.Clean.parts {r : PlanRequest} (h : r.Clean) : ∀ p ∈ r.parts, CleanPart p := by
  have hnames : ∀ name ∈ ["sql", "schema", "catalog_version", "user", "role", "sql_mode",
      "time_zone", "shards_all", "shard", "replica", "routing", "placement", "cache", "var:"],
      61 ∉ ascii name ∧ 0 ∉ ascii name := by decide
  have hbool : 0 ∉ ascii (if r.scope.shardsAll then "true" else "false") := by
    cases r.scope.shardsAll <;> decide
  obtain ⟨htexts, hvars⟩ := h
  simp +contextual [PlanRequest.parts, or_imp, forall_and, CleanPart, hnames, htexts, hbool]
  refine ⟨?_, ?_, ?_⟩ <;>
  · rintro _ _ name value hv rfl rfl
    simp [hnames, hvars _ hv]

def valuesOf (ps : List (GoString × GoString)) (name : String) : List GoString :=
  (ps.filter (·.1 = ascii name)).map Prod.snd

def variablesOf (ps : List (GoString × GoString)) : List (GoString × GoString) :=
  (ps.filter (ascii "var:" <+: ·.1)).map fun p => (p.1.drop 4, p.2)

theorem perm_of_mergeSort_eq {α : Type} {le : α → α → Bool} {xs ys : List α}
    (h : xs.mergeSort le = ys.mergeSort le) : xs ~ ys :=
  (mergeSort_perm xs le).symm.trans (h ▸ mergeSort_perm ys le)

/-- Requests with the same parts agree. -/
theorem PlanRequest.Agrees.of_parts {r r' : PlanRequest} (h : r.parts = r'.parts) :
    r.Agrees r' := by
  have hvalues : ∀ name ∈ ["sql", "schema", "catalog_version", "user", "role", "sql_mode",
      "time_zone", "shards_all", "shard", "replica", "routing", "placement", "cache"],
      valuesOf r.parts name = valuesOf r'.parts name :=
    fun name _ => congrArg (valuesOf · name) h
  have hvars := congrArg variablesOf h
  simp [valuesOf, parts, filter_map, Function.comp_def, ascii] at hvalues
  simp [variablesOf, parts, filter_map, Function.comp_def, ascii] at hvars
  obtain ⟨hsql, hschema, hcatalog, huser, hroles, hmodes, hzone, hall, hshards, hreplicas,
    hrouting, hplacement, hcache⟩ := hvalues
  refine ⟨hsql, hschema, hcatalog, huser, perm_of_mergeSort_eq hroles,
    perm_of_mergeSort_eq hmodes, hzone, perm_of_mergeSort_eq hvars, ?_,
    perm_of_mergeSort_eq hshards, perm_of_mergeSort_eq hreplicas, hrouting, hplacement, hcache⟩
  cases hr : r.scope.shardsAll <;> cases hr' : r'.scope.shardsAll <;> simp [hr, hr'] at hall ⊢

/-! ## The cache -/

variable {π : Type} (digest : GoString → GoString)

/-- `PreparedPlan`: the request it was prepared for and the rest of the plan.  The statement is
that of the request, since the parser refuses an empty one. -/
structure PreparedPlan (π : Type) where
  request : PlanRequest
  plan : π

abbrev PlanCache (π : Type) := AList fun _ : GoString => PreparedPlan π

variable (c : PlanCache π)

def PlanCache.get (r : PlanRequest) : Option (PreparedPlan π) :=
  if digest r.keyText = [] then none else c.lookup (digest r.keyText)

def PlanCache.put (p : PreparedPlan π) : PlanCache π :=
  if digest p.request.keyText = [] then c else c.insert (digest p.request.keyText) p

/-- `PrepareWithRequest`: the plan, and the cache after the call; `blocks` marks plans whose
diagnostics block them. -/
def prepareWithRequest (plan : PlanRequest → π) (blocks : π → Bool) (planner : PlanRequest)
    (c : PlanCache π) (r : PlanRequest) : PreparedPlan π × PlanCache π :=
  let r := withDefaults planner r
  match c.get digest r with
  | some p => (p, c)
  | none =>
    let p := ⟨r, plan r⟩
    (p, if blocks p.plan then c else c.put digest p)

/-- What calls do to the cache, in any interleaving; entries may be evicted at any time. -/
inductive CacheEvent (π : Type)
  | put (p : PreparedPlan π)
  | delete (r : PlanRequest)
  | clear
  | evict (d : GoString)

def cacheStep : CacheEvent π → PlanCache π
  | .put p => c.put digest p
  | .delete r => c.erase (digest r.keyText)
  | .clear => ∅
  | .evict d => c.erase d

/-- The plan that is stored was prepared for a request without separators. -/
def CacheEvent.Clean : CacheEvent π → Prop
  | .put p => p.request.Clean
  | _ => True

/-- Every plan is cached under the digest of its own request. -/
def Keyed : Prop :=
  ∀ d p, c.lookup d = some p → d = digest p.request.keyText ∧ p.request.Clean

variable {digest}

theorem Keyed.erase {c : PlanCache π} (h : Keyed digest c) (d : GoString) :
    Keyed digest (c.erase d) := by
  intro d' p hp
  by_cases hd : d' = d
  · rw [hd, lookup_erase] at hp
    cases hp
  · exact h d' p (lookup_erase_ne hd ▸ hp)

theorem Keyed.cacheStep {c : PlanCache π} (h : Keyed digest c) {e : CacheEvent π} (he : e.Clean) :
    Keyed digest (cacheStep digest c e) := by
  cases e with
  | put p =>
    rw [Bridge.cacheStep, PlanCache.put]
    split_ifs
    · exact h
    intro d q hq
    by_cases hd : d = digest p.request.keyText
    · rw [hd, lookup_insert] at hq
      cases hq
      exact ⟨hd, he⟩
    · exact h d q (lookup_insert_ne hd ▸ hq)
  | delete r => exact h.erase _
  | clear => exact fun d p hp => nomatch hp
  | evict d => exact h.erase d

/-- The plan returned for a request was prepared for one that agrees with it, if all texts are
without separators. -/
theorem returned_plan_agrees (hdigest : Function.Injective digest) (plan : PlanRequest → π)
    (blocks : π → Bool) (planner r : PlanRequest) (hr : (withDefaults planner r).Clean)
    (es : List (CacheEvent π)) (hes : Meets (cacheStep digest) (fun _ e => e.Clean) ∅ es) :
    (prepareWithRequest digest plan blocks planner (exec (cacheStep digest) ∅ es)
      r).1.request.Agrees (withDefaults planner r) := by
  have hkeyed : Keyed digest (exec (cacheStep digest) (∅ : PlanCache π) es) :=
    exec_induction (cacheStep digest) (fun c e h he => h.cacheStep he)
      (fun d p hp => nomatch hp) hes
  simp only [prepareWithRequest]
  cases hget : PlanCache.get digest (exec (cacheStep digest) ∅ es)
      (withDefaults planner r) with
  | none => exact .of_parts rfl
  | some p =>
    rw [PlanCache.get] at hget
    split_ifs at hget
    obtain ⟨hd, hclean⟩ := hkeyed _ _ hget
    exact .of_parts (flatMap_writeCachePart_inj hclean.parts hr.parts (hdigest hd).symm)

/-- A request of a user with roles for a statement `s` of the schema `d`. -/
def userRequest (user : GoString) (roles : List GoString) : PlanRequest where
  sql := [115]
  defaultSchema := [100]
  catalogVersion := []
  session := ⟨[], user, roles, [], [], [], [], by simp⟩
  scope := ⟨true, [], [], [], [], []⟩

theorem userPlan_returned :
    (prepareWithRequest id (fun _ => ()) (fun _ => false) (userRequest [] [])
      (exec (cacheStep id) ∅ [.put ⟨userRequest [97] [[120]], ()⟩])
      (userRequest [97] [[120]])).1.request.Agrees (userRequest [97] [[120]]) :=
  have hclean : (userRequest [97] [[120]]).Clean := by decide
  returned_plan_agrees Function.injective_id _ _ (userRequest [] []) (userRequest [97] [[120]])
    hclean _ ⟨hclean, trivial⟩

/-- A plan of the user `a` with the role `x` is returned for a user whose name holds the separator
and the role. -/
theorem userPlan_crosses_user :
    ¬ (prepareWithRequest id (fun _ => ()) (fun _ => false) (userRequest [] [])
      (exec (cacheStep id) ∅ [.put ⟨userRequest [97] [[120]], ()⟩])
      (userRequest ([97, 0] ++ ascii "role=x") [])).1.request.Agrees
        (userRequest ([97, 0] ++ ascii "role=x") []) := by
  set r := userRequest ([97, 0] ++ ascii "role=x") []
  have hkey : r.keyText = (userRequest [97] [[120]]).keyText := by
    simp only [keyText, parts, r, userRequest, mergeSort_nil,
      mergeSort_singleton]
    decide
  have hdefaults : withDefaults (userRequest [] []) r = r := rfl
  have hstored : ((∅ : PlanCache Unit).put id ⟨userRequest [97] [[120]], ()⟩).get id r =
      some ⟨userRequest [97] [[120]], ()⟩ := by
    have hne : id (userRequest [97] [[120]]).keyText ≠ [] := by
      simp [keyText, parts, writeCachePart]
    rw [PlanCache.get, hkey, if_neg hne, PlanCache.put, if_neg hne]
    exact lookup_insert _
  intro h
  simp only [prepareWithRequest, exec, foldl_cons, foldl_nil, cacheStep, hdefaults,
    hstored] at h
  exact absurd h.user (by decide)

end QuantaStream.Bridge
