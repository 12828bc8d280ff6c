import AgenticKibana.Library.Grouping
import AgenticKibana.Library.RoundRobin

/-!
# The items chosen for the precedent window

`stratified_selection` shares a bounded window over the groups of its items: it ranks them by a
round-robin nested over the axes, puts items of a transaction that has its share to the back,
and takes the first `limit`.
-/

namespace AgenticKibana.Precedent

open AgenticKibana.Library List

variable {T κ : Type*} [DecidableEq κ]

/-- `_round_robin_rank`: the groups of the first axis are ranked by the other axes and then
interleaved.  An axis on which all items agree is skipped. -/
def roundRobinRank : List (T → κ) → List T → List T
  | [], items => items
  | axis :: rest, items =>
    let groups := Dict.groupBy (fun item => some (axis item)) items
    if groups.size ≤ 1 then roundRobinRank rest items
    else interleave (groups.values.map (roundRobinRank rest))

structure Admission (T κ : Type*) [DecidableEq κ] where
  /-- How many items each transaction was given. -/
  taken : Dict κ Nat
  /-- The items within the cap. -/
  admitted : List T
  /-- The items of transactions that were at the cap. -/
  deferred : List T

def admitItem (transactionKey : T → κ) (cap : Nat) (a : Admission T κ) (item : T) :
    Admission T κ :=
  let group := transactionKey item
  let count := (a.taken.get? group).getD 0
  if count < cap then
    { a with taken := a.taken.set group (count + 1), admitted := a.admitted ++ [item] }
  else
    { a with deferred := a.deferred ++ [item] }

def admitAll (transactionKey : T → κ) (cap : Nat) (ranked : List T) : Admission T κ :=
  ranked.foldl (admitItem transactionKey cap) ⟨Dict.empty, [], []⟩

/-- The ranking after the cap: a missing key, a missing cap and a cap below one all mean that
nothing is capped. -/
def capRanked (transactionKey : Option (T → κ)) (maxPerTransaction : Option Int)
    (ranked : List T) : List T :=
  match transactionKey, maxPerTransaction with
  | some key, some cap =>
    if 0 < cap then
      let a := admitAll key cap.toNat ranked
      a.admitted ++ a.deferred
    else ranked
  | _, _ => ranked

/-- `stratified_selection`; a `key` that is one callable is a list of one axis. -/
def stratifiedSelection (items : List T) (axes : List (T → κ)) (limit : Int)
    (transactionKey : Option (T → κ)) (maxPerTransaction : Option Int) : List T :=
  if limit ≤ 0 then []
  else (capRanked transactionKey maxPerTransaction (roundRobinRank axes items)).take limit.toNat

def group (axis : T → κ) (k : κ) (items : List T) : List T :=
  items.filter fun item => axis item = k

/-- **What a selection owes the groups**: on the first axis a group that received over one item
less than another one is used up, and within each group of the first axis the selection is fair
on the other axes.  An axis on which all items agree asks nothing by itself. -/
def Fair : List (T → κ) → List T → List T → Prop
  | [], _, _ => True
  | axis :: rest, items, selection =>
    (∀ j k, (group axis j selection).length + 1 < (group axis k selection).length →
      (group axis j selection).length = (group axis j items).length) ∧
    ∀ k, Fair rest (group axis k items) (group axis k selection)

def CapRespected (key : T → κ) (cap : Nat) (items selection : List T) : Prop :=
  ∀ j k, cap < (group key j selection).length → (group key k selection).length < cap →
    (group key k selection).length = (group key k items).length

/-! ### The ranking -/

theorem keyed_ranked (axis : T → κ) (rank : List T → List T) (items : List T)
    (hrank : ∀ l, (rank l).Perm l) :
    Keyed axis ((Dict.groupBy (fun item => some (axis item)) items).entries.map
      fun e => (e.1, rank e.2)) := by
  constructor
  · rw [map_map]
    exact (Dict.groupBy (fun item => some (axis item)) items).nodup
  · intro k bucket hmem x hx
    obtain ⟨⟨k', members⟩, hentry, heq⟩ := mem_map.mp hmem
    simp only [Prod.mk.injEq] at heq
    obtain ⟨rfl, rfl⟩ := heq
    have hx' : x ∈ members := (hrank members).mem_iff.mp hx
    rw [(Dict.mem_groupBy.mp hentry).1] at hx'
    exact Option.some.inj (of_decide_eq_true (mem_filter.mp hx').2)

variable {k : κ}

theorem mem_ranked (axis : T → κ) (rank : List T → List T) (items : List T)
    (hne : group axis k items ≠ []) : (k, rank (group axis k items)) ∈
      (Dict.groupBy (fun item => some (axis item)) items).entries.map
        fun e => (e.1, rank e.2) := by
  refine mem_map.mpr ⟨(k, group axis k items), Dict.mem_groupBy.mpr ⟨?_, hne⟩, rfl⟩
  simp [group]

theorem notMem_ranked (axis : T → κ) (rank : List T → List T) (items : List T)
    (hnil : group axis k items = []) :
    k ∉ ((Dict.groupBy (fun item => some (axis item)) items).entries.map
      fun e => (e.1, rank e.2)).map Prod.fst := by
  intro hmem
  rw [map_map] at hmem
  obtain ⟨x, hx, hkey⟩ := Dict.mem_keys_groupBy.mp hmem
  have hin : x ∈ group axis k items :=
    mem_filter.mpr ⟨hx, decide_eq_true (Option.some.inj hkey)⟩
  rw [hnil] at hin
  cases hin

variable {axis : T → κ}

theorem group_eq_of_size_le_one {items : List T}
    (hsize : (Dict.groupBy (fun item => some (axis item)) items).size ≤ 1) (k : κ) :
    group axis k items = [] ∨ ∀ x ∈ items, axis x = k := by
  by_cases hnil : group axis k items = []
  · exact Or.inl hnil
  · right
    intro x hx
    have hk : k ∈ (Dict.groupBy (fun item => some (axis item)) items).keys := by
      obtain ⟨y, hy⟩ := exists_mem_of_ne_nil _ hnil
      obtain ⟨hymem, hykey⟩ := mem_filter.mp hy
      exact Dict.mem_keys_groupBy.mpr ⟨y, hymem, congrArg some (of_decide_eq_true hykey)⟩
    have hx' : axis x ∈ (Dict.groupBy (fun item => some (axis item)) items).keys :=
      Dict.mem_keys_groupBy.mpr ⟨x, hx, rfl⟩
    have hlen : (Dict.groupBy (fun item => some (axis item)) items).keys.length ≤ 1 := by
      simpa [Dict.keys, Dict.size] using hsize
    cases hkeys : (Dict.groupBy (fun item => some (axis item)) items).keys with
    | nil =>
      rw [hkeys] at hk
      cases hk
    | cons k' others =>
      rw [hkeys] at hk hx' hlen
      obtain rfl : others = [] := eq_nil_of_length_eq_zero (by simpa using hlen)
      rw [mem_singleton.mp hk, mem_singleton.mp hx']

theorem roundRobinRank_cons (axis : T → κ) (rest : List (T → κ)) (items : List T) :
    roundRobinRank (axis :: rest) items =
      if (Dict.groupBy (fun item => some (axis item)) items).size ≤ 1 then
        roundRobinRank rest items
      else interleave (((Dict.groupBy (fun item => some (axis item)) items).entries.map
        fun e => (e.1, roundRobinRank rest e.2)).map Prod.snd) := by
  simp only [roundRobinRank, Dict.values, map_map]
  rfl

theorem group_roundRobinRank_of_perm {rest : List (T → κ)}
    (hperm : ∀ l, (roundRobinRank rest l).Perm l) (items : List T) (k : κ) :
    group axis k (roundRobinRank (axis :: rest) items) =
      roundRobinRank rest (group axis k items) := by
  rw [roundRobinRank_cons]
  have hempty : roundRobinRank rest ([] : List T) = [] := (hperm []).eq_nil
  split
  · rename_i hsize
    rcases group_eq_of_size_le_one hsize k with hnil | hall
    · rw [hnil, hempty]
      exact perm_nil.mp (hnil ▸ (hperm items).filter _)
    · have hitems : group axis k items = items :=
        filter_eq_self.mpr fun x hx => decide_eq_true (hall x hx)
      rw [hitems]
      apply filter_eq_self.mpr
      exact fun x hx => decide_eq_true (hall x ((hperm items).mem_iff.mp hx))
  · have hkeyed := keyed_ranked axis (roundRobinRank rest) items hperm
    by_cases hnil : group axis k items = []
    · rw [hnil, hempty]
      exact filter_interleave_of_notMem hkeyed (notMem_ranked axis _ items hnil)
    · exact filter_interleave hkeyed (mem_ranked axis _ items hnil)

theorem roundRobinRank_perm (axes : List (T → κ)) (items : List T) :
    (roundRobinRank axes items).Perm items := by
  induction axes generalizing items with
  | nil => exact List.Perm.refl items
  | cons axis rest ih =>
    apply perm_of_filter_perm (f := axis)
    intro k
    have hgroup : group axis k (roundRobinRank (axis :: rest) items) =
        roundRobinRank rest (group axis k items) :=
      group_roundRobinRank_of_perm (fun _ => ih _) items k
    simp only [group] at hgroup
    rw [hgroup]
    exact ih _

theorem group_roundRobinRank (axis : T → κ) (rest : List (T → κ)) (items : List T) (k : κ) :
    group axis k (roundRobinRank (axis :: rest) items) =
      roundRobinRank rest (group axis k items) :=
  group_roundRobinRank_of_perm (roundRobinRank_perm rest) items k

/-- Every prefix of the ranking took the same number of items of every group of the first axis,
up to one and up to groups that are used up. -/
theorem exists_depth_rank (axis : T → κ) (rest : List (T → κ)) (items : List T) (n : Nat)
    (hgroups : ¬(Dict.groupBy (fun item => some (axis item)) items).size ≤ 1) :
    ∃ d, ∀ k,
      group axis k ((roundRobinRank (axis :: rest) items).take n) =
        (roundRobinRank rest (group axis k items)).take d ∨
      group axis k ((roundRobinRank (axis :: rest) items).take n) =
        (roundRobinRank rest (group axis k items)).take (d + 1) := by
  rw [roundRobinRank_cons, if_neg hgroups]
  have hkeyed := keyed_ranked axis (roundRobinRank rest) items (roundRobinRank_perm rest)
  obtain ⟨d, hd⟩ := exists_depth hkeyed n
  refine ⟨d, fun k => ?_⟩
  by_cases hnil : group axis k items = []
  · left
    rw [hnil, (roundRobinRank_perm rest []).eq_nil, take_nil]
    apply prefix_nil.mp
    rw [← filter_interleave_of_notMem hkeyed (notMem_ranked axis _ items hnil)]
    exact (List.take_prefix n _).filter _
  · exact hd k _ (mem_ranked axis _ items hnil)

theorem group_take_rank (axis : T → κ) (rest : List (T → κ)) (items : List T) (n : Nat) (k : κ) :
    ∃ m, group axis k ((roundRobinRank (axis :: rest) items).take n) =
      (roundRobinRank rest (group axis k items)).take m := by
  have hprefix : group axis k ((roundRobinRank (axis :: rest) items).take n) <+:
      roundRobinRank rest (group axis k items) := by
    rw [← group_roundRobinRank]
    exact (List.take_prefix n _).filter _
  exact ⟨_, (prefix_iff_eq_take.mp hprefix)⟩

/-- **Every prefix of the ranking is fair**, on the first axis and, by induction over the axes,
inside each of its groups. -/
theorem fair_take_rank (axes : List (T → κ)) (items : List T) (n : Nat) :
    Fair axes items ((roundRobinRank axes items).take n) := by
  induction axes generalizing items n with
  | nil => trivial
  | cons axis rest ih =>
    constructor
    · intro j k hless
      by_cases hsize : (Dict.groupBy (fun item => some (axis item)) items).size ≤ 1
      · -- one group: where `k` has items, `j` has none to receive
        rcases group_eq_of_size_le_one hsize j with hnil | hall
        · obtain ⟨m, hm⟩ := group_take_rank axis rest items n j
          rw [hm, hnil, (roundRobinRank_perm rest []).eq_nil, take_nil]
        · exfalso
          rcases group_eq_of_size_le_one hsize k with hnil | hall'
          · obtain ⟨m, hm⟩ := group_take_rank axis rest items n k
            rw [hm, hnil, (roundRobinRank_perm rest []).eq_nil, take_nil] at hless
            simp at hless
          · have hmem : ∀ x ∈ (roundRobinRank (axis :: rest) items).take n, x ∈ items :=
              fun x hx => (roundRobinRank_perm _ items).mem_iff.mp (mem_of_mem_take hx)
            have hj : group axis j ((roundRobinRank (axis :: rest) items).take n) =
                (roundRobinRank (axis :: rest) items).take n :=
              filter_eq_self.mpr fun x hx => decide_eq_true (hall x (hmem x hx))
            have hk : group axis k ((roundRobinRank (axis :: rest) items).take n) =
                (roundRobinRank (axis :: rest) items).take n :=
              filter_eq_self.mpr fun x hx => decide_eq_true (hall' x (hmem x hx))
            rw [hj, hk] at hless
            omega
      · obtain ⟨d, hd⟩ := exists_depth_rank axis rest items n hsize
        have hlen := (roundRobinRank_perm rest (group axis j items)).length_eq
        rcases hd j with hj | hj <;> rcases hd k with hk | hk <;>
          rw [hj, hk] at hless <;> rw [hj] <;>
          simp only [length_take] at hless ⊢ <;> omega
    · intro k
      obtain ⟨m, hm⟩ := group_take_rank axis rest items n k
      rw [hm]
      exact ih _ m

structure Admitted (key : T → κ) (cap : Nat) (met : List T) (a : Admission T κ) : Prop where
  /-- The counter of a transaction is the number of its admitted items. -/
  counts : ∀ k, (a.taken.get? k).getD 0 = (group key k a.admitted).length
  /-- A transaction was given all its items, up to the cap. -/
  admitted : ∀ k, (group key k a.admitted).length = min cap (group key k met).length
  /-- Every item met was admitted or deferred. -/
  perm : (a.admitted ++ a.deferred).Perm met

theorem group_append (key : T → κ) (k : κ) (l l' : List T) :
    group key k (l ++ l') = group key k l ++ group key k l' := filter_append ..

theorem length_group_singleton (key : T → κ) (k : κ) (item : T) :
    (group key k [item]).length = if key item = k then 1 else 0 := by
  by_cases h : key item = k <;> simp [group, h]

variable {key : T → κ} {cap : Nat} {a : Admission T κ}

theorem admitted_step {met : List T} (h : Admitted key cap met a) (item : T) :
    Admitted key cap (met ++ [item]) (admitItem key cap a item) := by
  unfold admitItem
  have hcount := h.counts (key item)
  have hfull := h.admitted (key item)
  dsimp only
  split
  · rename_i hbelow
    constructor
    · intro k
      rw [Dict.get?_set, group_append, length_append, length_group_singleton]
      by_cases hk : k = key item
      · subst hk
        simp [hcount]
      · rw [if_neg hk, if_neg (Ne.symm hk)]
        exact h.counts k
    · intro k
      have hk' := h.admitted k
      rw [group_append, group_append, length_append, length_append,
        length_group_singleton]
      by_cases hk : key item = k
      · subst hk
        rw [if_pos rfl]
        omega
      · rw [if_neg hk]
        simpa using hk'
    · dsimp only
      have hmove : (a.admitted ++ [item] ++ a.deferred).Perm
          (a.admitted ++ a.deferred ++ [item]) := by
        rw [append_assoc, append_assoc]
        exact List.Perm.append_left _ perm_append_comm
      exact hmove.trans (h.perm.append_right [item])
  · rename_i hfullcap
    constructor
    · exact h.counts
    · intro k
      have hk' := h.admitted k
      dsimp only
      rw [group_append, length_append, length_group_singleton]
      by_cases hk : key item = k
      · subst hk
        rw [if_pos rfl]
        omega
      · rw [if_neg hk]
        simpa using hk'
    · dsimp only
      rw [← append_assoc]
      exact h.perm.append_right [item]

theorem admitted_all (key : T → κ) (cap : Nat) (ranked : List T) :
    Admitted key cap ranked (admitAll key cap ranked) := by
  induction ranked using List.reverseRecOn with
  | nil =>
    constructor
    · intro k
      rfl
    · intro k
      simp [admitAll, group]
    · exact List.Perm.refl _
  | append_singleton met item ih =>
    rw [admitAll, foldl_append]
    exact admitted_step ih item

/-- A prefix of the admitted items followed by the deferred ones respects the cap: where it gave
a transaction more than the cap it holds all that was admitted. -/
theorem capRespected_take {ranked : List T} (h : Admitted key cap ranked a) (n : Nat) :
    CapRespected key cap ranked ((a.admitted ++ a.deferred).take n) := by
  intro j k hover hbelow
  rw [take_append] at hover hbelow ⊢
  have hshort : a.admitted.length < n := by
    by_contra hle
    rw [Nat.sub_eq_zero_of_le (Nat.le_of_not_lt hle), take_zero, append_nil] at hover
    have hsub : (group key j (a.admitted.take n)).length ≤ (group key j a.admitted).length :=
      ((take_sublist n a.admitted).filter _).length_le
    have hadm := h.admitted j
    omega
  rw [take_of_length_le hshort.le] at hbelow ⊢
  have htotal := (h.perm.filter fun item => key item = k).length_eq
  have hsplit : (group key k (a.admitted ++ a.deferred)).length =
      (group key k a.admitted).length + (group key k a.deferred).length := by
    rw [group_append, length_append]
  have hsub : (group key k (a.deferred.take (n - a.admitted.length))).length ≤
      (group key k a.deferred).length := ((take_sublist _ _).filter _).length_le
  rw [group_append, length_append] at hbelow ⊢
  have hadm := h.admitted k
  change (group key k (a.admitted ++ a.deferred)).length = (group key k ranked).length at htotal
  omega

def capped (transactionKey : Option (T → κ)) (maxPerTransaction : Option Int) : Bool :=
  transactionKey.isSome && maxPerTransaction.any (0 < ·)

theorem capRanked_of_not_capped {transactionKey : Option (T → κ)} {maxPerTransaction : Option Int}
    (h : capped transactionKey maxPerTransaction = false) (ranked : List T) :
    capRanked transactionKey maxPerTransaction ranked = ranked := by
  cases transactionKey with
  | none => rfl
  | some key =>
    cases maxPerTransaction with
    | none => rfl
    | some cap =>
      have hcap : ¬0 < cap := by simpa [capped] using h
      simp [capRanked, hcap]

theorem capRanked_some (key : T → κ) {cap : Int} (hcap : 0 < cap) (ranked : List T) :
    capRanked (some key) (some cap) ranked =
      (admitAll key cap.toNat ranked).admitted ++ (admitAll key cap.toNat ranked).deferred := by
  simp [capRanked, hcap]

theorem capRanked_perm (transactionKey : Option (T → κ)) (maxPerTransaction : Option Int)
    (ranked : List T) : (capRanked transactionKey maxPerTransaction ranked).Perm ranked := by
  cases transactionKey with
  | none => exact List.Perm.refl _
  | some key =>
    cases maxPerTransaction with
    | none => exact List.Perm.refl _
    | some cap =>
      by_cases hcap : 0 < cap
      · rw [capRanked_some key hcap]
        exact (admitted_all key cap.toNat ranked).perm
      · simp [capRanked, hcap]

/-- **The selection is lossless and fair**: it returns `limit` items whenever there are that
many, all of them items of the input; without a transaction cap it is fair on every axis, and
with one it gives a transaction more than the cap only after every other one has its share. -/
theorem stratifiedSelection_fair (items : List T) (axes : List (T → κ)) (limit : Int)
    (transactionKey : Option (T → κ)) (maxPerTransaction : Option Int) (hlimit : 0 < limit) :
    (stratifiedSelection items axes limit transactionKey maxPerTransaction).length =
        min limit.toNat items.length ∧
      (stratifiedSelection items axes limit transactionKey maxPerTransaction).Subperm items ∧
      (capped transactionKey maxPerTransaction = false →
        Fair axes items (stratifiedSelection items axes limit transactionKey maxPerTransaction)) ∧
      ∀ key cap, transactionKey = some key → maxPerTransaction = some cap → 0 < cap →
        CapRespected key cap.toNat items
          (stratifiedSelection items axes limit transactionKey maxPerTransaction) := by
  have hperm := (capRanked_perm transactionKey maxPerTransaction (roundRobinRank axes items)).trans
    (roundRobinRank_perm axes items)
  rw [stratifiedSelection, if_neg (not_le.mpr hlimit)]
  refine ⟨?_, ?_, ?_, ?_⟩
  · rw [length_take, hperm.length_eq]
  · exact (take_sublist _ _).subperm.trans hperm.subperm
  · intro hcapped
    rw [capRanked_of_not_capped hcapped]
    exact fair_take_rank axes items limit.toNat
  · rintro key cap rfl rfl hcap j k hover hbelow
    rw [capRanked_some key hcap] at hover hbelow ⊢
    have hadmitted := admitted_all key cap.toNat (roundRobinRank axes items)
    rw [capRespected_take hadmitted limit.toNat j k hover hbelow]
    exact ((roundRobinRank_perm axes items).filter _).length_eq

/-- A window of three over two rules, one of which has nearly all the items: the other has its
item in the window. -/
theorem stratifiedSelection_fair_two_rules :
    stratifiedSelection [10, 11, 12, 20] [fun n => n / 10] 3 none none = [10, 20, 11] ∧
      Fair [fun n => n / 10] [10, 11, 12, 20]
        (stratifiedSelection [10, 11, 12, 20] [fun n => n / 10] 3 none none) :=
  ⟨by decide, (stratifiedSelection_fair [10, 11, 12, 20] [fun n => n / 10] 3 none none
    (by decide)).2.2.1 rfl⟩

end AgenticKibana.Precedent
