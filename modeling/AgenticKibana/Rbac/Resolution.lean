import AgenticKibana.Library.Dict
import AgenticKibana.Library.TextLines

/-!
# The permission policy

The effective matrix gives every role, built in or configured, the actions it has on each
resource.  It starts from the default matrix and goes through overrides, additive grants, custom
roles that inherit from each other, and denies.  Every layer acts on one role and one resource at
a time; denies come last, and nothing after them grants again.
-/

namespace AgenticKibana.Rbac

open AgenticKibana.Library
open AgenticKibana.Library.TextLines (strip)

abbrev Name := List Char

def allActions : Name := ['*']

/-- `RESOURCES`: the actions of each resource. -/
def resources : List (Name × List Name) :=
  [("cases".toList, ["read".toList, "write".toList, "close".toList, "assign".toList,
      "comment".toList, "reinvestigate".toList]),
    ("sources".toList, ["read".toList, "manage".toList]),
    ("settings".toList, ["read".toList, "manage".toList]),
    ("users".toList, ["manage".toList]),
    ("proposals".toList, ["read".toList, "approve".toList]),
    ("playbooks".toList, ["read".toList, "run".toList, "manage".toList]),
    ("runbooks".toList, ["read".toList, "manage".toList]),
    ("rag".toList, ["read".toList, "manage".toList]),
    ("memory".toList, ["read".toList, "manage".toList]),
    ("cost".toList, ["view".toList]),
    ("audit".toList, ["view".toList]),
    ("metrics".toList, ["view".toList]),
    ("data_export".toList, ["export".toList]),
    ("system_updates".toList, ["read".toList, "apply".toList, "rollback".toList]),
    ("notifications".toList, ["read".toList, "manage".toList]),
    ("branding".toList, ["read".toList, "manage".toList]),
    ("sessions".toList, ["read".toList, "manage".toList]),
    ("demo".toList, ["read".toList, "manage".toList]),
    ("terminology".toList, ["read".toList, "manage".toList]),
    ("automation".toList, ["read".toList, "manage".toList]),
    ("roles".toList, ["read".toList, "manage".toList]),
    ("models".toList, ["read".toList, "manage".toList]),
    ("enrichment".toList, ["read".toList, "manage".toList]),
    ("inapp".toList, ["read".toList, "manage".toList]),
    ("rules".toList, ["read".toList, "manage".toList])]

def knownActions (res : Name) : Option (List Name) := resources.lookup res

def settingsSplit : List Name :=
  ["notifications".toList, "branding".toList, "sessions".toList, "demo".toList,
    "terminology".toList, "automation".toList, "roles".toList, "models".toList,
    "enrichment".toList, "inapp".toList, "rules".toList]

def settingsLike (settingsActions : List Name) : List (Name × List Name) :=
  if allActions ∈ settingsActions then settingsSplit.map fun res => (res, [allActions])
  else if "read".toList ∈ settingsActions then settingsSplit.map fun res => (res, ["read".toList])
  else []

/-! ### The default matrix -/

/-- The grants of a role: the actions it has on a resource. -/
abbrev Row := Dict Name (List Name)

def wildcardRow : Row := Dict.ofList (resources.map fun e => (e.1, [allActions]))

def socManagerRow : List (Name × List Name) :=
  [("cases".toList, [allActions]), ("sources".toList, [allActions]),
    ("settings".toList, [allActions]), ("users".toList, ["manage".toList]),
    ("proposals".toList, [allActions]), ("playbooks".toList, [allActions]),
    ("runbooks".toList, [allActions]), ("rag".toList, [allActions]),
    ("memory".toList, [allActions]), ("cost".toList, ["view".toList]),
    ("audit".toList, ["view".toList]), ("metrics".toList, ["view".toList]),
    ("data_export".toList, ["export".toList]), ("system_updates".toList, ["read".toList])] ++
    settingsLike [allActions]

def analystTier2Row : List (Name × List Name) :=
  [("cases".toList, ["read".toList, "write".toList, "close".toList, "assign".toList,
      "comment".toList, "reinvestigate".toList]),
    ("sources".toList, ["read".toList]), ("settings".toList, ["read".toList]),
    ("proposals".toList, ["read".toList]), ("playbooks".toList, ["read".toList, "run".toList]),
    ("runbooks".toList, ["read".toList]), ("rag".toList, ["read".toList]),
    ("memory".toList, ["read".toList]), ("cost".toList, ["view".toList]),
    ("metrics".toList, ["view".toList])] ++ settingsLike ["read".toList]

def analystTier1Row : List (Name × List Name) :=
  [("cases".toList, ["read".toList, "write".toList, "comment".toList, "assign".toList]),
    ("sources".toList, ["read".toList]), ("settings".toList, ["read".toList]),
    ("proposals".toList, ["read".toList]), ("playbooks".toList, ["read".toList]),
    ("runbooks".toList, ["read".toList]), ("rag".toList, ["read".toList]),
    ("memory".toList, ["read".toList]), ("cost".toList, ["view".toList]),
    ("metrics".toList, ["view".toList])] ++ settingsLike ["read".toList]

def responderRow : List (Name × List Name) :=
  [("cases".toList, ["read".toList, "write".toList, "comment".toList, "assign".toList]),
    ("sources".toList, ["read".toList]), ("settings".toList, ["read".toList]),
    ("proposals".toList, ["read".toList, "approve".toList]),
    ("playbooks".toList, ["read".toList, "run".toList]), ("runbooks".toList, ["read".toList]),
    ("rag".toList, ["read".toList]), ("memory".toList, ["read".toList]),
    ("cost".toList, ["view".toList]), ("metrics".toList, ["view".toList])] ++
    settingsLike ["read".toList]

def auditorRow : List (Name × List Name) :=
  [("cases".toList, ["read".toList]), ("sources".toList, ["read".toList]),
    ("settings".toList, ["read".toList]), ("proposals".toList, ["read".toList]),
    ("playbooks".toList, ["read".toList]), ("runbooks".toList, ["read".toList]),
    ("rag".toList, ["read".toList]), ("memory".toList, ["read".toList]),
    ("cost".toList, ["view".toList]), ("audit".toList, ["view".toList]),
    ("metrics".toList, ["view".toList])] ++ settingsLike ["read".toList]

def superAdmin : Name := "super_admin".toList

/-- The roles of `DEFAULT_MATRIX` with their rows. -/
def defaultRows : List (Name × List (Name × List Name)) :=
  [(superAdmin, resources.map fun e => (e.1, [allActions])),
    ("soc_manager".toList, socManagerRow),
    ("analyst_tier2".toList, analystTier2Row),
    ("analyst_tier1".toList, analystTier1Row),
    ("responder".toList, responderRow),
    ("auditor".toList, auditorRow)]

abbrev Matrix := Dict Name Row

def defaultMatrix : Matrix := Dict.ofList (defaultRows.map fun e => (e.1, Dict.ofList e.2))

def baseRoleNames : List Name := defaultRows.map Prod.fst

/-- A configured map from resources to actions, as the code reads it: `none` where the value is
not a mapping, or the actions are not a list.  Actions are read through `str`. -/
abbrev Grants := Option (Dict Name (Option (List Name)))

/-- A custom role; `inherits` is empty where it is not a list. -/
structure CustomRole where
  name : Name
  inherits : List Name
  grants : Grants
  denies : Grants

/-- The layers of `RBACConfig`. -/
structure RBACConfig where
  roles : Dict Name Grants
  customRoles : List CustomRole
  resources : Dict Name Grants
  denies : Dict Name Grants

def cleanActions (res : Name) (acts : Option (List Name)) : Option (List Name) :=
  match knownActions res, acts with
  | some valid, some acts => some (acts.filter fun a => a ∈ valid ∨ a = allActions)
  | _, _ => none

def unionActions (existing cleaned : List Name) : List Name :=
  cleaned.foldl (fun merged a => if a ∈ merged then merged else merged ++ [a]) existing

/-- `_merge_grants`, one resource. -/
def mergeResource (additive : Bool) (bucket : Row) (e : Name × Option (List Name)) : Row :=
  match cleanActions e.1 e.2 with
  | none => bucket
  | some cleaned =>
    if additive then bucket.set e.1 (unionActions ((bucket.get? e.1).getD []) cleaned)
    else bucket.set e.1 cleaned

def mergeGrants (additive : Bool) (bucket : Row) : Grants → Row
  | none => bucket
  | some grants => grants.entries.foldl (mergeResource additive) bucket

/-- `_apply_denies`, one resource. -/
def denyResource (bucket : Row) (e : Name × Option (List Name)) : Row :=
  match knownActions e.1, e.2 with
  | some vocabulary, some denied =>
    match bucket.get? e.1 with
    | none => bucket
    | some current =>
      if allActions ∈ denied then bucket.set e.1 []
      else
        -- a wildcard is spelled out, so that a narrow deny can take something away
        let current := if allActions ∈ current then vocabulary else current
        bucket.set e.1 (current.filter fun a => a ∉ denied)
  | _, _ => bucket

def applyDenies (bucket : Row) : Grants → Row
  | none => bucket
  | some denies => denies.entries.foldl denyResource bucket

/-- `_custom_roles_by_name`: later roles of a name replace earlier ones. -/
def customRolesByName (customRoles : List CustomRole) : Dict Name CustomRole :=
  customRoles.foldl (fun out spec =>
    let nm := strip spec.name
    if nm = [] ∨ nm ∈ baseRoleNames then out else out.set nm spec) Dict.empty

def asGrants (row : Row) : Grants := some (row.mapValues fun _ acts => some acts)

variable {spec : CustomRole}

theorem remaining_lt {byName : Dict Name CustomRole} {stack : List Name} {name : Name}
    (hstack : name ∉ stack) (hspec : byName.get? name = some spec) :
    (byName.keys.filter fun n => n ∉ name :: stack).length <
      (byName.keys.filter fun n => n ∉ stack).length := by
  have hmem : name ∈ byName.keys.filter fun n => n ∉ stack := by
    refine List.mem_filter.mpr ⟨?_, decide_eq_true hstack⟩
    by_contra hno
    rw [Dict.get?_eq_none_iff.mpr hno] at hspec
    cases hspec
  have hsub : (byName.keys.filter fun n => n ∉ name :: stack).Sublist
      (byName.keys.filter fun n => n ∉ stack) := by
    apply List.monotone_filter_right
    intro n hn
    simp only [List.mem_cons, not_or, decide_eq_true_eq] at hn ⊢
    exact hn.2
  refine lt_of_le_of_ne hsub.length_le fun hlen => ?_
  have hin : name ∈ byName.keys.filter fun n => n ∉ name :: stack :=
    (hsub.eq_of_length hlen) ▸ hmem
  simp at hin

/-- `_resolve_custom_role`: the grants of the parents, then the role's own, less its denies.  A
role that is being resolved already contributes nothing; so the recursion ends. -/
def resolveCustomRole (byName : Dict Name CustomRole) (base : Matrix) (stack : List Name)
    (name : Name) : Row :=
  if _hstack : name ∈ stack then Dict.empty
  else
    match _hspec : byName.get? name with
    | none => Dict.empty
    | some spec =>
      let bucket := spec.inherits.foldl (fun bucket parent =>
        match base.get? parent with
        | some row => mergeGrants true bucket (asGrants row)
        | none =>
          if byName.contains parent then
            mergeGrants true bucket
              (asGrants (resolveCustomRole byName base (name :: stack) parent))
          else bucket) Dict.empty
      applyDenies (mergeGrants true bucket spec.grants) spec.denies
termination_by (byName.keys.filter fun n => n ∉ stack).length
decreasing_by exact remaining_lt _hstack _hspec

def mergeLayer (additive : Bool) (matrix : Matrix) (layer : Dict Name Grants) : Matrix :=
  layer.entries.foldl (fun merged e =>
    merged.set e.1 (mergeGrants additive ((merged.get? e.1).getD Dict.empty) e.2)) matrix

def baseMatrix (config : RBACConfig) : Matrix :=
  mergeLayer true (mergeLayer false defaultMatrix config.roles) config.resources

def withCustomRoles (config : RBACConfig) : Matrix :=
  let byName := customRolesByName config.customRoles
  byName.keys.foldl (fun merged nm =>
    merged.set nm (resolveCustomRole byName (baseMatrix config) [] nm)) (baseMatrix config)

def denyRole (matrix : Matrix) (e : Name × Grants) : Matrix :=
  if e.1 = superAdmin then matrix
  else
    match matrix.get? e.1 with
    | none => matrix
    | some row => matrix.set e.1 (applyDenies row e.2)

def effectiveMatrix (config : RBACConfig) : Matrix :=
  (config.denies.entries.foldl denyRole (withCustomRoles config)).set superAdmin wildcardRow

def grants (row : Row) (resource action : Name) : Bool :=
  (row.get? resource).any fun actions => allActions ∈ actions ∨ action ∈ actions

def can (role resource action : Name) (config : RBACConfig) : Bool :=
  if role = superAdmin then true
  else ((effectiveMatrix config).get? role).any fun row => grants row resource action

def assignedNames (config : RBACConfig) (customRoles : List Name) : List Name :=
  customRoles.foldl (fun names nm =>
    let nm := strip nm
    if nm = [] ∨ nm ∈ baseRoleNames ∨ (effectiveMatrix config).contains nm = false then names
    else if nm ∈ names then names else names ++ [nm]) []

def canForRoles (baseRole : Name) (customRoles : List Name) (resource action : Name)
    (config : RBACConfig) : Bool :=
  if baseRole = superAdmin then true
  else
    let names := assignedNames config customRoles
    if names = [] then can baseRole resource action config
    else (baseRole :: names).any fun role =>
      ((effectiveMatrix config).get? role).any fun row => grants row resource action

/-! ### What the effective matrix decides -/

open List

theorem get?_foldl_of_notMem {β γ : Type} {step : Dict Name γ → Name × β → Dict Name γ}
    (hother : ∀ b e k, k ≠ e.1 → (step b e).get? k = b.get? k) {es : List (Name × β)} {k : Name}
    (hk : k ∉ es.map Prod.fst) (b : Dict Name γ) : (es.foldl step b).get? k = b.get? k := by
  induction es generalizing b with
  | nil => rfl
  | cons e es ih =>
    simp only [map_cons, mem_cons, not_or] at hk
    rw [foldl_cons, ih hk.2, hother b e k hk.1]

/-- **A loop over the entries of a dictionary that works on the cell of each key** does to a cell
what the entry of its key says. -/
theorem get?_foldl_entries {β γ : Type} {step : Dict Name γ → Name × β → Dict Name γ}
    {cell : Name → β → Option γ → Option γ}
    (hself : ∀ b e, (step b e).get? e.1 = cell e.1 e.2 (b.get? e.1))
    (hother : ∀ b e k, k ≠ e.1 → (step b e).get? k = b.get? k)
    (d : Dict Name β) (b : Dict Name γ) (k : Name) :
    (d.entries.foldl step b).get? k =
      (d.get? k).elim (b.get? k) fun v => cell k v (b.get? k) := by
  cases hget : d.get? k with
  | none =>
    have hk : k ∉ d.entries.map Prod.fst := Dict.get?_eq_none_iff.mp hget
    exact get?_foldl_of_notMem hother hk b
  | some v =>
    obtain ⟨l, r, hsplit⟩ := append_of_mem (Dict.get?_eq_some_iff.mp hget)
    have hnodup := d.nodup
    rw [hsplit, map_append, map_cons] at hnodup
    have hl : k ∉ l.map Prod.fst := fun hmem =>
      (nodup_append.mp hnodup).2.2 k hmem k (mem_cons_self ..) rfl
    have hr : k ∉ r.map Prod.fst :=
      (nodup_cons.mp (nodup_append.mp hnodup).2.1).1
    rw [hsplit, foldl_append, foldl_cons, get?_foldl_of_notMem hother hr,
      hself _ (k, v), get?_foldl_of_notMem hother hl]
    rfl

/-! ### Cells -/

def allows (cell : Option (List Name)) (action : Name) : Bool :=
  cell.any fun actions => allActions ∈ actions ∨ action ∈ actions

def denyCell (res : Name) (denied : Option (List Name)) (cell : Option (List Name)) :
    Option (List Name) :=
  match knownActions res, denied, cell with
  | some vocabulary, some denied, some current =>
    if allActions ∈ denied then some []
    else some ((if allActions ∈ current then vocabulary else current).filter fun a => a ∉ denied)
  | _, _, cell => cell

theorem get?_denyResource (bucket : Row) (e : Name × Option (List Name)) :
    (denyResource bucket e).get? e.1 = denyCell e.1 e.2 (bucket.get? e.1) := by
  unfold denyResource denyCell
  cases hknown : knownActions e.1 with
  | none => rfl
  | some vocabulary =>
    cases hdenied : e.2 with
    | none => rfl
    | some denied =>
      cases hcell : bucket.get? e.1 with
      | none => simp [hcell]
      | some current =>
        by_cases hall : allActions ∈ denied <;> simp [hall]

theorem get?_denyResource_of_ne (bucket : Row) (e : Name × Option (List Name)) (k : Name)
    (hk : k ≠ e.1) : (denyResource bucket e).get? k = bucket.get? k := by
  unfold denyResource
  split
  · split
    · rfl
    · split <;> exact Dict.get?_set_of_ne _ _ hk
  · rfl

theorem get?_applyDenies (bucket : Row) (denies : Dict Name (Option (List Name))) (res : Name) :
    (applyDenies bucket (some denies)).get? res =
      (denies.get? res).elim (bucket.get? res) fun denied =>
        denyCell res denied (bucket.get? res) :=
  get?_foldl_entries get?_denyResource get?_denyResource_of_ne denies bucket res

def mergeCell (additive : Bool) (res : Name) (acts cell : Option (List Name)) :
    Option (List Name) :=
  match cleanActions res acts with
  | none => cell
  | some cleaned => some (if additive then unionActions (cell.getD []) cleaned else cleaned)

theorem get?_mergeGrants (additive : Bool) (bucket : Row)
    (granted : Dict Name (Option (List Name))) (res : Name) :
    (mergeGrants additive bucket (some granted)).get? res =
      (granted.get? res).elim (bucket.get? res) fun acts =>
        mergeCell additive res acts (bucket.get? res) := by
  refine @get?_foldl_entries _ _ _ (mergeCell additive) ?_ ?_ granted bucket res
  · intro b e
    unfold mergeResource mergeCell
    cases cleanActions e.1 e.2 with
    | none => rfl
    | some cleaned => cases additive <;> simp
  · intro b e k hk
    unfold mergeResource
    cases cleanActions e.1 e.2 with
    | none => rfl
    | some cleaned => cases additive <;> exact Dict.get?_set_of_ne _ _ hk

def Denied (denies : Grants) (res action : Name) : Prop :=
  ∃ d denied, denies = some d ∧ d.get? res = some (some denied) ∧
    (action ∈ denied ∨ allActions ∈ denied)

variable {res role : Name} {denies : Grants}

theorem allActions_notMem {vocabulary : List Name}
    (h : knownActions res = some vocabulary) : allActions ∉ vocabulary := by
  have hall : ∀ e ∈ resources, allActions ∉ e.2 := by decide
  obtain ⟨l1, l2, hsplit, -⟩ := List.lookup_eq_some_iff.mp h
  exact hall (res, vocabulary) (by rw [hsplit]; simp)

variable {action : Name} {cell : Option (List Name)}

theorem allows_denyCell {denied : List Name} (hknown : (knownActions res).isSome ∨ cell = none)
    (hdenied : action ∈ denied ∨ allActions ∈ denied) :
    allows (denyCell res (some denied) cell) action = false := by
  cases cell with
  | none =>
    unfold denyCell
    cases knownActions res <;> rfl
  | some current =>
    obtain ⟨vocabulary, hvoc⟩ := Option.isSome_iff_exists.mp (hknown.resolve_right (by simp))
    have hfree := allActions_notMem hvoc
    by_cases hall : allActions ∈ denied
    · simp [denyCell, hvoc, hall, allows]
    · have haction := hdenied.resolve_right hall
      by_cases hwild : allActions ∈ current
      · simp [denyCell, hvoc, hall, hwild, allows, hfree, haction]
      · simp [denyCell, hvoc, hall, hwild, allows, haction]

theorem allows_of_denyCell {denied : Option (List Name)}
    (h : allows (denyCell res denied cell) action = true) : allows cell action = true := by
  unfold denyCell at h
  cases hvoc : knownActions res with
  | none => simpa [hvoc] using h
  | some vocabulary =>
    cases denied with
    | none => simpa [hvoc] using h
    | some denied =>
      cases cell with
      | none => simpa [hvoc] using h
      | some current =>
        by_cases hwild : allActions ∈ current
        · simp [allows, hwild]
        · by_cases hall : allActions ∈ denied
          · simp [hvoc, hall, allows] at h
          · simp only [hvoc, hall, hwild, allows, if_false, Option.any_some,
              mem_filter, decide_eq_true_eq, false_and, false_or] at h ⊢
            exact h.1

/-! ### Rows over the vocabulary -/

def Known (row : Row) : Prop := ∀ res acts, row.get? res = some acts → (knownActions res).isSome

theorem known_empty : Known Dict.empty := fun _ _ h => by cases h

theorem known_ofList {es : List (Name × List Name)}
    (h : ∀ e ∈ es, (knownActions e.1).isSome = true) : Known (Dict.ofList es) := by
  intro res acts hget
  exact h (res, acts) (Dict.mem_of_get?_ofList hget)

variable {additive : Bool} {bucket : Row}

theorem known_mergeGrants (hbucket : Known bucket) (granted : Grants) :
    Known (mergeGrants additive bucket granted) := by
  cases granted with
  | none => exact hbucket
  | some granted =>
    intro res acts hget
    rw [get?_mergeGrants] at hget
    cases hg : granted.get? res with
    | none =>
      rw [hg] at hget
      exact hbucket res acts hget
    | some configured =>
      rw [hg] at hget
      unfold mergeCell cleanActions at hget
      cases hvoc : knownActions res with
      | none =>
        rw [hvoc] at hget
        exact absurd (hbucket res acts hget) (by simp [hvoc])
      | some vocabulary => rfl

theorem known_applyDenies (hbucket : Known bucket) (denies : Grants) :
    Known (applyDenies bucket denies) := by
  cases denies with
  | none => exact hbucket
  | some denies =>
    intro res acts hget
    rw [get?_applyDenies] at hget
    cases hcell : bucket.get? res with
    | some current => exact hbucket res current hcell
    | none =>
      rw [hcell] at hget
      have hnone : ∀ denied, denyCell res denied none = none := by
        intro denied
        unfold denyCell
        cases knownActions res <;> cases denied <;> rfl
      cases hd : denies.get? res with
      | none =>
        rw [hd] at hget
        cases hget
      | some denied =>
        rw [hd, Option.elim_some, hnone] at hget
        cases hget

theorem grants_applyDenies (hbucket : Known bucket) (h : Denied denies res action) :
    grants (applyDenies bucket denies) res action = false := by
  obtain ⟨d, denied, rfl, hget, hdenied⟩ := h
  change allows ((applyDenies bucket (some d)).get? res) action = false
  rw [get?_applyDenies, hget]
  refine allows_denyCell ?_ hdenied
  cases hcell : bucket.get? res with
  | none => exact Or.inr rfl
  | some current => exact Or.inl (hbucket res current hcell)

theorem grants_of_applyDenies (h : grants (applyDenies bucket denies) res action = true) :
    grants bucket res action = true := by
  cases denies with
  | none => exact h
  | some d =>
    change allows ((applyDenies bucket (some d)).get? res) action = true at h
    rw [get?_applyDenies] at h
    change allows (bucket.get? res) action = true
    cases hd : d.get? res with
    | none =>
      rw [hd] at h
      exact h
    | some denied =>
      rw [hd] at h
      exact allows_of_denyCell h

def KnownRows (matrix : Matrix) : Prop := ∀ role row, matrix.get? role = some row → Known row

/-- **What a custom role grants**, as its own denies leave it. -/
theorem resolveCustomRole_eq {byName : Dict Name CustomRole} {base : Matrix} {name : Name}
    {spec : CustomRole} (hspec : byName.get? name = some spec) :
    ∃ bucket, Known bucket ∧
      resolveCustomRole byName base [] name = applyDenies bucket spec.denies := by
  rw [resolveCustomRole, dif_neg not_mem_nil]
  split
  · rename_i hnone
    rw [hspec] at hnone
    cases hnone
  · rename_i spec' hspec'
    obtain rfl : spec = spec' := Option.some.inj (hspec.symm.trans hspec')
    refine ⟨_, known_mergeGrants ?_ spec.grants, rfl⟩
    refine List.foldlRecOn spec.inherits _ known_empty fun bucket h parent _ => ?_
    cases base.get? parent with
    | some row => exact known_mergeGrants h _
    | none =>
      by_cases hcontains : byName.contains parent = true
      · simp only [hcontains, if_true]
        exact known_mergeGrants h _
      · simp only [hcontains]
        exact h

theorem name_of_customRolesByName {customRoles : List CustomRole} {nm : Name}
    (h : (customRolesByName customRoles).get? nm = some spec) : nm ∉ baseRoleNames := by
  induction customRoles using List.reverseRecOn with
  | nil => cases h
  | append_singleton customRoles last ih =>
    simp only [customRolesByName, foldl_append, foldl_cons, foldl_nil] at h ih
    split at h
    · exact ih h
    · rename_i hvalid
      rw [Dict.get?_set] at h
      by_cases hnm : nm = strip last.name
      · rw [hnm]
        exact fun hmem => hvalid (Or.inr hmem)
      · rw [if_neg hnm] at h
        exact ih h

theorem superAdmin_mem : superAdmin ∈ baseRoleNames := by decide

theorem knownRows_mergeLayer {matrix : Matrix} (hmatrix : KnownRows matrix)
    (layer : Dict Name Grants) : KnownRows (mergeLayer additive matrix layer) := by
  unfold mergeLayer
  induction layer.entries generalizing matrix with
  | nil => exact hmatrix
  | cons e es ih =>
    rw [foldl_cons]
    apply ih
    intro role row hget
    rw [Dict.get?_set] at hget
    by_cases hrole : role = e.1
    · rw [if_pos hrole] at hget
      obtain rfl := Option.some.inj hget
      refine known_mergeGrants ?_ e.2
      cases hrow : matrix.get? e.1 with
      | none => exact known_empty
      | some old => exact hmatrix e.1 old hrow
    · rw [if_neg hrole] at hget
      exact hmatrix role row hget

theorem knownRows_default : KnownRows defaultMatrix := by
  intro role row hget
  have hall : ∀ e ∈ defaultRows, ∀ cell ∈ e.2, (knownActions cell.1).isSome = true := by decide
  obtain ⟨e, he, heq⟩ := List.mem_map.mp (Dict.mem_of_get?_ofList hget)
  simp only [Prod.mk.injEq] at heq
  rw [← heq.2]
  exact known_ofList (hall e he)

theorem get?_withCustomRoles (config : RBACConfig) (role : Name) :
    (withCustomRoles config).get? role =
      if role ∈ (customRolesByName config.customRoles).keys then
        some (resolveCustomRole (customRolesByName config.customRoles) (baseMatrix config) [] role)
      else (baseMatrix config).get? role := by
  unfold withCustomRoles
  dsimp only
  generalize hrow : resolveCustomRole (customRolesByName config.customRoles) (baseMatrix config)
    [] = rowOf
  generalize (customRolesByName config.customRoles).keys = keys
  induction keys using List.reverseRecOn with
  | nil => rfl
  | append_singleton keys last ih =>
    rw [foldl_append, foldl_cons, foldl_nil, Dict.get?_set, ih]
    by_cases hlast : role = last
    · simp [hlast]
    · simp [hlast]

theorem knownRows_withCustomRoles (config : RBACConfig) : KnownRows (withCustomRoles config) := by
  intro role row hget
  rw [get?_withCustomRoles] at hget
  split at hget
  · rename_i hmem
    cases hspec : (customRolesByName config.customRoles).get? role with
    | none => exact absurd hmem (Dict.get?_eq_none_iff.mp hspec)
    | some spec =>
      obtain ⟨bucket, hbucket, heq⟩ := @resolveCustomRole_eq _ (baseMatrix config) _ _ hspec
      rw [heq] at hget
      obtain rfl := Option.some.inj hget
      exact known_applyDenies hbucket spec.denies
  · exact knownRows_mergeLayer (knownRows_mergeLayer knownRows_default _) _ role row hget

/-- **The row of a role in the effective matrix**: the denies of its name, over what the layers
before gave it. -/
theorem get?_effectiveMatrix (config : RBACConfig) (hrole : role ≠ superAdmin) :
    (effectiveMatrix config).get? role =
      (config.denies.get? role).elim ((withCustomRoles config).get? role) fun denies =>
        ((withCustomRoles config).get? role).map fun row => applyDenies row denies := by
  have hself : ∀ (matrix : Matrix) (e : Name × Grants), (denyRole matrix e).get? e.1 =
      if e.1 = superAdmin then matrix.get? e.1
      else (matrix.get? e.1).map fun row => applyDenies row e.2 := by
    intro matrix e
    unfold denyRole
    by_cases hsuper : e.1 = superAdmin
    · rw [if_pos hsuper, if_pos hsuper]
    · rw [if_neg hsuper, if_neg hsuper]
      cases hrow : matrix.get? e.1 <;> simp [hrow]
  have hother : ∀ (matrix : Matrix) (e : Name × Grants) (k : Name), k ≠ e.1 →
      (denyRole matrix e).get? k = matrix.get? k := by
    intro matrix e k hk
    unfold denyRole
    split
    · rfl
    · split
      · rfl
      · exact Dict.get?_set_of_ne _ _ hk
  rw [effectiveMatrix, Dict.get?_set_of_ne _ _ hrole,
    @get?_foldl_entries _ _ _ (fun role denies row =>
      if role = superAdmin then row else row.map fun row => applyDenies row denies) hself hother]
  simp only [if_neg hrole]

/-! ### Decisions -/

theorem can_eq (config : RBACConfig) (hrole : role ≠ superAdmin)
    (res action : Name) : can role res action config =
      ((effectiveMatrix config).get? role).any fun row => grants row res action :=
  if_neg hrole

variable {config : RBACConfig}

theorem can_of_denied_global (hrole : role ≠ superAdmin)
    (hdenies : config.denies.get? role = some denies) (hdenied : Denied denies res action) :
    can role res action config = false := by
  rw [can_eq config hrole, get?_effectiveMatrix config hrole, hdenies]
  cases hrow : (withCustomRoles config).get? role with
  | none => rfl
  | some row =>
    exact grants_applyDenies (knownRows_withCustomRoles config role row hrow) hdenied

theorem can_of_denied_own (hspec : (customRolesByName config.customRoles).get? role = some spec)
    (hdenied : Denied spec.denies res action) : can role res action config = false := by
  have hrole : role ≠ superAdmin := by
    rintro rfl
    exact name_of_customRolesByName hspec superAdmin_mem
  have hmem : role ∈ (customRolesByName config.customRoles).keys := by
    by_contra hno
    rw [Dict.get?_eq_none_iff.mpr hno] at hspec
    cases hspec
  obtain ⟨bucket, hbucket, heq⟩ := @resolveCustomRole_eq _ (baseMatrix config) _ _ hspec
  have hown := grants_applyDenies hbucket hdenied
  rw [can_eq config hrole, get?_effectiveMatrix config hrole, get?_withCustomRoles, if_pos hmem,
    heq]
  cases config.denies.get? role with
  | none => exact hown
  | some denies =>
    cases hafter : grants (applyDenies (applyDenies bucket spec.denies) denies) res action with
    | false => exact hafter
    | true =>
      rw [grants_of_applyDenies hafter] at hown
      cases hown

def ValidRole (config : RBACConfig) (nm : Name) : Prop :=
  strip nm ≠ [] ∧ strip nm ∉ baseRoleNames ∧ (effectiveMatrix config).contains (strip nm) = true

theorem mem_assignedNames {customRoles : List Name} : role ∈ assignedNames config customRoles ↔
      ∃ nm ∈ customRoles, ValidRole config nm ∧ role = strip nm := by
  induction customRoles using List.reverseRecOn with
  | nil => simp [assignedNames]
  | append_singleton customRoles last ih =>
    simp only [assignedNames, foldl_append, foldl_cons, foldl_nil,
      mem_append, mem_singleton, or_and_right, exists_or, exists_eq_left] at ih ⊢
    rw [← ih]
    generalize List.foldl _ [] customRoles = names
    by_cases hvalid : ValidRole config last
    · obtain ⟨hblank, hbase, htable⟩ := id hvalid
      by_cases hseen : strip last ∈ names
      · simp only [hblank, hbase, htable, hseen, hvalid, Bool.true_eq_false, false_or, if_false,
          if_true, true_and]
        constructor
        · exact Or.inl
        · rintro (h | rfl)
          · exact h
          · exact hseen
      · simp [hblank, hbase, htable, hseen, hvalid]
    · have hskip : strip last = [] ∨ strip last ∈ baseRoleNames ∨
          (effectiveMatrix config).contains (strip last) = false := by
        by_contra hno
        simp only [not_or, Bool.not_eq_false] at hno
        exact hvalid hno
      simp [hskip, hvalid]

/-- **A user is allowed what the base role or a valid assigned role allows.** -/
theorem canForRoles_iff (config : RBACConfig) (baseRole : Name) (customRoles : List Name)
    (res action : Name) :
    canForRoles baseRole customRoles res action config = true ↔
      can baseRole res action config = true ∨
        ∃ nm ∈ customRoles, ValidRole config nm ∧ can (strip nm) res action config = true := by
  by_cases hsuper : baseRole = superAdmin
  · simp [canForRoles, can, hsuper]
  · have hname : ∀ nm, ValidRole config nm → strip nm ≠ superAdmin := by
      intro nm hvalid heq
      exact hvalid.2.1 (heq ▸ superAdmin_mem)
    have hassigned : (∃ nm ∈ customRoles, ValidRole config nm ∧
          can (strip nm) res action config = true) ↔
        ∃ role ∈ assignedNames config customRoles,
          ((effectiveMatrix config).get? role).any (fun row => grants row res action) = true := by
      constructor
      · rintro ⟨nm, hnm, hvalid, hcan⟩
        refine ⟨strip nm, mem_assignedNames.mpr ⟨nm, hnm, hvalid, rfl⟩, ?_⟩
        rwa [can_eq config (hname nm hvalid)] at hcan
      · rintro ⟨role, hrole, hany⟩
        obtain ⟨nm, hnm, hvalid, rfl⟩ := mem_assignedNames.mp hrole
        exact ⟨nm, hnm, hvalid, by rwa [can_eq config (hname nm hvalid)]⟩
    rw [hassigned, can_eq config hsuper]
    unfold canForRoles
    rw [if_neg hsuper]
    dsimp only
    by_cases hnames : assignedNames config customRoles = []
    · simp [hnames, can_eq config hsuper]
    · rw [if_neg hnames, List.any_eq_true]
      simp only [mem_cons, exists_eq_or_imp]

/-- **Role resolution denies first and never takes away.**  The platform owner is allowed every
action; no other role is allowed what its own denies or those of its name forbid; a user is
allowed what some role allows; names that are not valid add nothing, and more names never take an
action away.  (Resolution ends on every configuration: `resolveCustomRole` is total.) -/
theorem role_resolution (config : RBACConfig) :
    (∀ customRoles res action, canForRoles superAdmin customRoles res action config = true ∧
      can superAdmin res action config = true) ∧
    (∀ role denies res action, role ≠ superAdmin → config.denies.get? role = some denies →
      Denied denies res action → can role res action config = false) ∧
    (∀ role spec res action, (customRolesByName config.customRoles).get? role = some spec →
      Denied spec.denies res action → can role res action config = false) ∧
    (∀ baseRole customRoles res action, canForRoles baseRole customRoles res action config = true ↔
      can baseRole res action config = true ∨
        ∃ nm ∈ customRoles, ValidRole config nm ∧ can (strip nm) res action config = true) ∧
    (∀ baseRole nm customRoles res action, ¬ValidRole config nm →
      canForRoles baseRole (nm :: customRoles) res action config =
        canForRoles baseRole customRoles res action config) ∧
    ∀ baseRole customRoles more res action, customRoles ⊆ more →
      canForRoles baseRole customRoles res action config = true →
        canForRoles baseRole more res action config = true := by
  refine ⟨fun _ _ _ => ⟨rfl, rfl⟩, ?_, ?_, canForRoles_iff config, ?_, ?_⟩
  · intro role denies res action hrole hdenies hdenied
    exact can_of_denied_global hrole hdenies hdenied
  · intro role spec res action hspec hdenied
    exact can_of_denied_own hspec hdenied
  · intro baseRole nm customRoles res action hvalid
    rw [Bool.eq_iff_iff, canForRoles_iff, canForRoles_iff]
    simp [hvalid]
  · intro baseRole customRoles more res action hsub hcan
    rw [canForRoles_iff] at hcan ⊢
    rcases hcan with hbase | ⟨nm, hnm, hvalid, hrole⟩
    · exact Or.inl hbase
    · exact Or.inr ⟨nm, hsub hnm, hvalid, hrole⟩

def ownerDenied : RBACConfig where
  roles := Dict.empty
  customRoles := [⟨"ops".toList, ["auditor".toList], none,
    some (Dict.ofList [("cases".toList, some ["read".toList])])⟩]
  resources := Dict.empty
  denies := Dict.ofList
    [(superAdmin, some (Dict.ofList [("cases".toList, some ["read".toList])]))]

/-- The custom role that inherits the reading of cases and denies it is not allowed to. -/
theorem role_resolution_ops :
    can "ops".toList "cases".toList "read".toList ownerDenied = false :=
  (role_resolution ownerDenied).2.2.1 "ops".toList
    ⟨"ops".toList, ["auditor".toList], none,
      some (Dict.ofList [("cases".toList, some ["read".toList])])⟩
    "cases".toList "read".toList (by rfl)
    ⟨Dict.ofList [("cases".toList, some ["read".toList])], ["read".toList], rfl, by rfl,
      Or.inl (by simp)⟩

/-- The owner is allowed what the deny list of its name forbids. -/
theorem owner_not_denied :
    ¬∀ (config : RBACConfig) (role : Name) (denies : Grants) (res action : Name),
      config.denies.get? role = some denies → Denied denies res action →
        can role res action config = false := by
  intro h
  have hdenied := h ownerDenied superAdmin
    (some (Dict.ofList [("cases".toList, some ["read".toList])])) "cases".toList "read".toList
    (by rfl)
    ⟨Dict.ofList [("cases".toList, some ["read".toList])], ["read".toList], rfl, by rfl,
      Or.inl (by simp)⟩
  cases hdenied

end AgenticKibana.Rbac
