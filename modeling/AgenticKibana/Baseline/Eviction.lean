import AgenticKibana.Library.Dict
import AgenticKibana.Library.Machine

/-!
# The series a baseline engine holds

An engine holds a bounded number of series, in the order in which they were used, and keeps a list
of those it evicted until the store has deleted them.  What is folded into a sketch does not matter
here.
-/

namespace AgenticKibana.Baseline

open AgenticKibana.Library List

/-- `S` is the state of one bucket. -/
structure BaselineEngine (S : Type) where
  maxSeries : Nat
  series : Dict String (Dict Int S)
  evicted : List String

namespace BaselineEngine

variable {S V : Type} (fresh : S) (fold : S → V → S)

def drainEvictions (e : BaselineEngine S) : List String × BaselineEngine S :=
  (e.evicted, { e with evicted := [] })

def touch (e : BaselineEngine S) (signature : String) : BaselineEngine S :=
  if e.maxSeries = 0 then e
  else match e.series.get? signature with
    | none => e
    | some buckets => { e with series := (e.series.erase signature).set signature buckets }

/-- The bound, which `_state` enforces before it inserts a series. -/
def makeRoom (e : BaselineEngine S) : BaselineEngine S :=
  if e.maxSeries ≠ 0 ∧ e.maxSeries ≤ e.series.size then
    match e.series.keys.head? with
    | none => e
    | some oldest =>
      { e with series := e.series.erase oldest, evicted := e.evicted ++ [oldest] }
  else e

/-- `_state`, up to the bucket. -/
def seat (e : BaselineEngine S) (signature : String) : BaselineEngine S :=
  if e.series.contains signature then e.touch signature
  else { e.makeRoom with series := e.makeRoom.series.set signature Dict.empty }

def update (e : BaselineEngine S) (signature : String) (bucket : Int) (value : V) :
    BaselineEngine S :=
  let seated := e.seat signature
  let buckets := (seated.series.get? signature).getD Dict.empty
  let state := (buckets.get? bucket).getD fresh
  { seated with series := seated.series.set signature (buckets.set bucket (fold state value)) }

def restore (e : BaselineEngine S) (signature : String) (buckets : Dict Int S) :
    BaselineEngine S :=
  { e with series := e.series.set signature buckets }

def clear (e : BaselineEngine S) : Option String → BaselineEngine S
  | none => { e with series := Dict.empty }
  | some signature => { e with series := e.series.erase signature }

end BaselineEngine

inductive Call (S V : Type) where
  | update (signature : String) (bucket : Int) (value : V)
  /-- which also reports on the bucket -/
  | observe (signature : String) (bucket : Int) (value : V)
  | restore (signature : String) (buckets : Dict Int S)
  | clear (signature : Option String)
  | drainEvictions

variable {S V : Type} (fresh : S) (fold : S → V → S)

def call (e : BaselineEngine S) : Call S V → BaselineEngine S
  | .update signature bucket value => e.update fresh fold signature bucket value
  | .observe signature bucket value => e.update fresh fold signature bucket value
  | .restore signature buckets => e.restore signature buckets
  | .clear signature => e.clear signature
  | .drainEvictions => e.drainEvictions.2

/-- An engine, and the signatures in the order in which they were last updated or restored. -/
structure Watched (S : Type) where
  engine : BaselineEngine S
  recency : List String

def used (recency : List String) (signature : String) : List String :=
  recency.filter (· ≠ signature) ++ [signature]

def recencyAfter (recency : List String) : Call S V → List String
  | .update signature _ _ | .observe signature _ _ | .restore signature _ =>
    used recency signature
  | _ => recency

def baselineMachine (maxSeries : Nat) : Machine (Watched S) (Call S V) where
  start w := w = ⟨⟨maxSeries, Dict.empty, []⟩, []⟩
  step w c := some ⟨call fresh fold w.engine c, recencyAfter w.recency c⟩

/-- No series comes back while its eviction is pending, and a series is restored only where there is
room for it, or where it is the one that was used last. -/
def Orderly (w : Watched S) : Call S V → Prop
  | .update signature _ _ | .observe signature _ _ => signature ∉ w.engine.evicted
  | .restore signature _ =>
    signature ∉ w.engine.evicted ∧
      if signature ∈ w.engine.series.keys then
        w.engine.series.keys.getLast? = some signature
      else w.engine.series.size < w.engine.maxSeries
  | _ => True

instance decidableOrderly (w : Watched S) : (c : Call S V) → Decidable (Orderly w c)
  | .update signature _ _ => inferInstanceAs (Decidable (signature ∉ w.engine.evicted))
  | .observe signature _ _ => inferInstanceAs (Decidable (signature ∉ w.engine.evicted))
  | .restore _ _ => inferInstanceAs (Decidable (_ ∧ ite _ _ _))
  | .clear _ => isTrue trivial
  | .drainEvictions => isTrue trivial

/-! ### The invariant -/

structure Kept (maxSeries : Nat) (w : Watched S) : Prop where
  limit : w.engine.maxSeries = maxSeries
  bound : w.engine.series.keys.length ≤ maxSeries
  order : w.engine.series.keys.Sublist w.recency
  apart : ∀ signature ∈ w.engine.evicted, signature ∉ w.engine.series.keys

variable {fresh : S} {fold : S → V → S} {maxSeries : Nat} {w : Watched S} {signature : String}

theorem size_eq_length_keys (d : Dict String (Dict Int S)) : d.size = d.keys.length :=
  (length_map _).symm

/-- Room is made by dropping the first series, or there is room already. -/
theorem makeRoom_cases {e : BaselineEngine S} (hpos : 0 < e.maxSeries) :
    (e.series.keys.length < e.maxSeries ∧ e.makeRoom = e) ∨
      ∃ oldest rest, e.series.keys = oldest :: rest ∧ e.maxSeries ≤ rest.length + 1 ∧
        e.makeRoom.maxSeries = e.maxSeries ∧ e.makeRoom.series.keys = rest ∧
        e.makeRoom.evicted = e.evicted ++ [oldest] := by
  unfold BaselineEngine.makeRoom
  rw [size_eq_length_keys]
  by_cases hfull : e.maxSeries ≤ e.series.keys.length
  · right
    rw [if_pos ⟨hpos.ne', hfull⟩]
    have hnodup : e.series.keys.Nodup := e.series.nodup
    cases hkeys : e.series.keys with
    | nil =>
      rw [hkeys, length_nil] at hfull
      omega
    | cons oldest rest =>
      rw [hkeys] at hnodup hfull
      refine ⟨oldest, rest, rfl, hfull, rfl, ?_, rfl⟩
      change (e.series.erase oldest).keys = rest
      rw [Dict.keys_erase, hkeys, filter_cons_of_neg (by simp)]
      refine filter_eq_self.mpr fun s hs => ?_
      simpa using fun heq : s = oldest => (nodup_cons.mp hnodup).1 (heq ▸ hs)
  · left
    exact ⟨not_le.mp hfull, if_neg fun h => hfull h.2⟩

variable (fresh fold signature) in
/-- A call that uses a series makes it the last one, and drops the first one if there is no room. -/
theorem update_cases (e : BaselineEngine S) (hpos : 0 < e.maxSeries) (bucket : Int) (value : V) :
    (e.update fresh fold signature bucket value).maxSeries = e.maxSeries ∧
    (((e.update fresh fold signature bucket value).evicted = e.evicted ∧
        (e.update fresh fold signature bucket value).series.keys = used e.series.keys signature ∧
        (signature ∈ e.series.keys ∨ e.series.keys.length < e.maxSeries)) ∨
      ∃ oldest rest, e.series.keys = oldest :: rest ∧ signature ∉ e.series.keys ∧
        e.maxSeries ≤ rest.length + 1 ∧
        (e.update fresh fold signature bucket value).evicted = e.evicted ++ [oldest] ∧
        (e.update fresh fold signature bucket value).series.keys = rest ++ [signature]) := by
  have hseated : ∀ seated : BaselineEngine S, signature ∈ seated.series.keys → ∀ buckets,
      (seated.series.set signature buckets).keys = seated.series.keys := by
    intro seated hmem buckets
    rw [Dict.keys_set, if_pos hmem]
  unfold BaselineEngine.update
  dsimp only
  have hcontains : e.series.contains signature = true ↔ signature ∈ e.series.keys := by
    rw [Dict.contains, Option.isSome_iff_ne_none, ne_eq, Dict.get?_eq_none_iff, not_not]
  unfold BaselineEngine.seat
  by_cases hheld : signature ∈ e.series.keys
  · rw [if_pos (hcontains.mpr hheld)]
    obtain ⟨buckets, hbuckets⟩ := Dict.contains_iff.mp (hcontains.mpr hheld)
    have htouch : e.touch signature =
        { e with series := (e.series.erase signature).set signature buckets } := by
      unfold BaselineEngine.touch
      rw [if_neg hpos.ne', hbuckets]
    have hkeys : ((e.series.erase signature).set signature buckets).keys =
        used e.series.keys signature := by
      rw [Dict.keys_set, Dict.keys_erase, if_neg (by simp)]
      rfl
    rw [htouch]
    refine ⟨rfl, .inl ⟨rfl, ?_, .inl hheld⟩⟩
    dsimp only
    rw [Dict.keys_set, if_pos (by rw [hkeys]; simp [used]), hkeys]
  · rw [if_neg fun h => hheld (hcontains.mp h)]
    dsimp only
    have hlast : ∀ d : Dict String (Dict Int S), signature ∉ d.keys → ∀ a b,
        ((d.set signature a).set signature b).keys = d.keys ++ [signature] := by
      intro d hnew a b
      rw [Dict.keys_set, Dict.keys_set, if_neg hnew, if_pos (by simp)]
    rcases makeRoom_cases hpos with ⟨hroom, heq⟩ | ⟨oldest, rest, hkeys, hfull, hlimit, hrest, hout⟩
    · refine ⟨by rw [heq], .inl ⟨by rw [heq], ?_, .inr hroom⟩⟩
      rw [heq, hlast _ hheld]
      unfold used
      rw [filter_eq_self.mpr fun s hs => by simpa using fun h : s = signature => hheld (h ▸ hs)]
    · refine ⟨hlimit, .inr ⟨oldest, rest, hkeys, hheld, hfull, hout, ?_⟩⟩
      rw [hlast _ (by rw [hrest]; exact fun h => hheld (hkeys ▸ mem_cons_of_mem _ h)), hrest]

variable {recency : List String}

theorem length_used (hnodup : recency.Nodup) (h : signature ∈ recency) :
    (used recency signature).length = recency.length := by
  have := length_erase_of_mem h
  have := length_pos_of_mem h
  have hfilter : recency.filter (· ≠ signature) = recency.erase signature := by
    rw [hnodup.erase_eq_filter]
    exact filter_congr fun s _ => by by_cases hs : s = signature <;> simp [hs]
  rw [used, length_append, hfilter, length_singleton]
  omega

theorem mem_used {s : String} (h : s ∈ used recency signature) : s = signature ∨ s ∈ recency := by
  rcases mem_append.mp h with h | h
  · exact .inr (mem_of_mem_filter h)
  · exact .inl (mem_singleton.mp h)

theorem Kept.update (h : Kept maxSeries w) (hpos : 0 < maxSeries)
    (hpending : signature ∉ w.engine.evicted) (bucket : Int) (value : V) :
    Kept maxSeries ⟨w.engine.update fresh fold signature bucket value,
      used w.recency signature⟩ := by
  have hnodup : w.engine.series.keys.Nodup := w.engine.series.nodup
  obtain ⟨hlimit, ⟨hout, hkeys, hroom⟩ | ⟨oldest, rest, hold, hnew, hfull, hout, hkeys⟩⟩ :=
    update_cases fresh fold signature w.engine
      (h.limit ▸ hpos) bucket value
  · refine ⟨hlimit.trans h.limit, ?_, ?_, ?_⟩
    · rw [hkeys]
      rcases hroom with hheld | hroom
      · exact (length_used hnodup hheld).trans_le h.bound
      · rw [h.limit] at hroom
        rw [used, length_append]
        exact (Nat.add_le_add_right (length_filter_le _ _) 1).trans hroom
    · rw [hkeys]
      exact (h.order.filter _).append_right _
    · intro s hs hmem
      rw [hout] at hs
      rw [hkeys] at hmem
      rcases mem_used hmem with rfl | hmem
      · exact hpending hs
      · exact h.apart s hs hmem
  · have horder := h.order
    rw [hold] at horder hnodup hnew
    have hbound := h.bound
    rw [hold] at hbound
    refine ⟨hlimit.trans h.limit, ?_, ?_, ?_⟩
    · rw [hkeys, length_append]
      exact hbound
    · rw [hkeys]
      refine List.Sublist.append_right ?_ _
      have hrest := ((sublist_cons_self oldest rest).trans horder).filter (· ≠ signature)
      rwa [filter_eq_self.mpr fun s hs => by
        simpa using fun heq : s = signature => hnew (heq ▸ mem_cons_of_mem _ hs)] at hrest
    · intro s hs hmem
      rw [hout] at hs
      rw [hkeys] at hmem
      rcases mem_append.mp hs with hs | hs
      · rcases mem_append.mp hmem with hmem | hmem
        · exact h.apart s hs (hold ▸ mem_cons_of_mem oldest hmem)
        · exact hpending (mem_singleton.mp hmem ▸ hs)
      · obtain rfl := mem_singleton.mp hs
        rcases mem_append.mp hmem with hmem | hmem
        · exact (nodup_cons.mp hnodup).1 hmem
        · exact hnew (mem_singleton.mp hmem ▸ mem_cons_self)

theorem Kept.restore (h : Kept maxSeries w) {buckets : Dict Int S}
    (hcall : Orderly w (.restore signature buckets : Call S V)) :
    Kept maxSeries ⟨w.engine.restore signature buckets, used w.recency signature⟩ := by
  obtain ⟨hpending, hplace⟩ := hcall
  have hnodup : w.engine.series.keys.Nodup := w.engine.series.nodup
  have hkeys : (w.engine.restore signature buckets).series.keys =
      used w.engine.series.keys signature := by
    change (w.engine.series.set signature buckets).keys = _
    rw [Dict.keys_set]
    unfold used
    by_cases hheld : signature ∈ w.engine.series.keys
    · rw [if_pos hheld] at hplace
      obtain ⟨before, hbefore⟩ := getLast?_eq_some_iff.mp hplace
      rw [hbefore] at hnodup
      have hout : signature ∉ before := fun hmem =>
        (nodup_append.mp hnodup).2.2 _ hmem _ mem_cons_self rfl
      rw [if_pos hheld, hbefore, filter_append, filter_eq_self.mpr fun s hs => by
        simpa using fun heq : s = signature => hout (heq ▸ hs)]
      simp
    · rw [if_neg hheld, filter_eq_self.mpr fun s hs => by
        simpa using fun heq : s = signature => hheld (heq ▸ hs)]
  refine ⟨h.limit, ?_, ?_, ?_⟩
  · rw [hkeys]
    by_cases hheld : signature ∈ w.engine.series.keys
    · exact (length_used hnodup hheld).trans_le h.bound
    · rw [if_neg hheld, size_eq_length_keys, h.limit] at hplace
      rw [used, length_append]
      exact (Nat.add_le_add_right (length_filter_le _ _) 1).trans hplace
  · rw [hkeys]
    exact (h.order.filter _).append_right _
  · intro s hs hmem
    rw [hkeys] at hmem
    rcases mem_used hmem with rfl | hmem
    · exact hpending hs
    · exact h.apart s hs hmem

theorem Kept.clear (h : Kept maxSeries w) (cleared : Option String) :
    Kept maxSeries ⟨w.engine.clear cleared, w.recency⟩ := by
  have hfewer : (w.engine.clear cleared).series.keys.Sublist w.engine.series.keys := by
    cases cleared with
    | none => exact nil_sublist _
    | some signature =>
      change (w.engine.series.erase signature).keys.Sublist _
      rw [Dict.keys_erase]
      exact filter_sublist
  have hsame : (w.engine.clear cleared).maxSeries = w.engine.maxSeries ∧
      (w.engine.clear cleared).evicted = w.engine.evicted := by
    cases cleared <;> exact ⟨rfl, rfl⟩
  refine ⟨hsame.1.trans h.limit, hfewer.length_le.trans h.bound, hfewer.trans h.order, ?_⟩
  intro s hs hmem
  rw [hsame.2] at hs
  exact h.apart s hs (hfewer.subset hmem)

theorem kept_of_reaches (hpos : 0 < maxSeries)
    (h : (baselineMachine fresh fold maxSeries).Reaches Orderly w) : Kept maxSeries w := by
  refine Machine.invariant ?_ ?_ h
  · rintro _ rfl
    exact ⟨rfl, Nat.zero_le _, List.Sublist.refl _, by simp⟩
  · intro w c w' hkept hcall hstep
    obtain rfl := Option.some.inj hstep
    cases c with
    | update signature bucket value | observe signature bucket value =>
      exact hkept.update hpos hcall bucket value
    | restore signature buckets => exact hkept.restore hcall
    | clear cleared => exact hkept.clear cleared
    | drainEvictions => exact ⟨hkept.limit, hkept.bound, hkept.order, by
        intro s hs
        cases hs⟩

/-- **In an orderly run the engine holds no more series than its bound, what it drains has no
series, and what a call evicts was used before every other series that was held.** -/
theorem orderly_evictions (hpos : 0 < maxSeries)
    (h : (baselineMachine fresh fold maxSeries).Reaches Orderly w) :
    w.engine.series.size ≤ maxSeries ∧
    (∀ signature ∈ w.engine.drainEvictions.1, w.engine.series.get? signature = none) ∧
    ∀ (c : Call S V) (signature : String),
      (call fresh fold w.engine c).evicted = w.engine.evicted ++ [signature] →
      signature ∈ w.engine.series.keys ∧ ∀ other ∈ w.engine.series.keys, other ≠ signature →
        [signature, other].Sublist w.recency := by
  have hkept := kept_of_reaches hpos h
  refine ⟨(size_eq_length_keys _).trans_le hkept.bound,
    fun s hs => Dict.get?_eq_none_iff.mpr (hkept.apart s hs), fun c evicted hout => ?_⟩
  have hused : ∀ signature bucket value,
      (w.engine.update fresh fold signature bucket value).evicted = w.engine.evicted ++ [evicted] →
      ∃ rest, w.engine.series.keys = evicted :: rest := by
    intro signature bucket value hout
    obtain ⟨-, ⟨hsame, -⟩ | ⟨oldest, rest, hold, -, -, hevicted, -⟩⟩ :=
      update_cases fresh fold signature w.engine
        (hkept.limit ▸ hpos) bucket value
    · simp [hsame] at hout
    · rw [hevicted, append_cancel_left_eq, singleton_inj] at hout
      exact ⟨rest, hout ▸ hold⟩
  obtain ⟨rest, hkeys⟩ : ∃ rest, w.engine.series.keys = evicted :: rest := by
    cases c with
    | update signature bucket value | observe signature bucket value =>
      exact hused signature bucket value hout
    | restore signature buckets => exact absurd hout (by simp [call, BaselineEngine.restore])
    | clear cleared => cases cleared <;> exact absurd hout (by simp [call, BaselineEngine.clear])
    | drainEvictions => exact absurd hout (by simp [call, BaselineEngine.drainEvictions])
  have horder := hkept.order
  rw [hkeys] at horder ⊢
  refine ⟨mem_cons_self, fun other hother hne => ?_⟩
  have hlater := (mem_cons.mp hother).resolve_left hne
  exact ((singleton_sublist.mpr hlater).cons_cons evicted).trans horder

def countFold (n : Nat) (_ : Nat) : Nat := n + 1

theorem two_updates_orderly : ∃ w : Watched Nat, w.engine.evicted = ["a"] ∧
    w.engine.series.size ≤ 1 ∧
    (∀ signature ∈ w.engine.drainEvictions.1, w.engine.series.get? signature = none) ∧
    ∀ (c : Call Nat Nat) (signature : String),
      (call 0 countFold w.engine c).evicted = w.engine.evicted ++ [signature] →
      signature ∈ w.engine.series.keys ∧ ∀ other ∈ w.engine.series.keys, other ≠ signature →
        [signature, other].Sublist w.recency := by
  have hrun : ((baselineMachine 0 countFold 1).runChecked (fun w c => decide (Orderly w c))
      ⟨⟨1, Dict.empty, []⟩, []⟩ [.update "a" 0 5, .update "b" 0 7]).any
        (fun w => w.engine.evicted = ["a"]) = true := by
    decide
  obtain ⟨w, hreached, hend⟩ :=
    Machine.reaches_of_runChecked (fun _ _ => of_decide_eq_true) rfl hrun
  exact ⟨w, of_decide_eq_true hend, orderly_evictions Nat.one_pos hreached⟩

/-- Restoring inserts beyond the bound; a series that is restored where it stands is evicted before
one that was used earlier; an evicted series that came back is drained. -/
theorem unruly_evictions :
    (∃ w, (baselineMachine 0 countFold 1).Reaches Machine.anyStep w ∧
      1 < w.engine.series.size) ∧
    (∃ w, (baselineMachine 0 countFold 2).Reaches Machine.anyStep w ∧
      (call 0 countFold w.engine (.update "c" 0 1)).evicted = w.engine.evicted ++ ["a"] ∧
      "b" ∈ w.engine.series.keys ∧ ¬ ["a", "b"].Sublist w.recency) ∧
    ∃ w, (baselineMachine 0 countFold 1).Reaches Machine.anyStep w ∧
      ∃ signature ∈ w.engine.drainEvictions.1, w.engine.series.contains signature = true := by
  refine ⟨?_, ?_, ?_⟩
  · obtain ⟨w, -, hreached, hw⟩ := Machine.reaches_of_run (baselineMachine 0 countFold 1)
      (fun w => 1 < w.engine.series.size) ⟨⟨1, Dict.empty, []⟩, []⟩
      [.restore "a" Dict.empty, .restore "b" Dict.empty] rfl (by decide)
    exact ⟨w, hreached, of_decide_eq_true hw⟩
  · obtain ⟨w, -, hreached, hw⟩ := Machine.reaches_of_run (baselineMachine 0 countFold 2)
      (fun w => (call 0 countFold w.engine (.update "c" 0 1)).evicted = w.engine.evicted ++ ["a"] ∧
        "b" ∈ w.engine.series.keys ∧ ¬ ["a", "b"].Sublist w.recency) ⟨⟨2, Dict.empty, []⟩, []⟩
      [.update "a" 0 1, .update "b" 0 1, .restore "a" Dict.empty] rfl (by decide)
    exact ⟨w, hreached, of_decide_eq_true hw⟩
  · obtain ⟨w, -, hreached, hw⟩ := Machine.reaches_of_run (baselineMachine 0 countFold 1)
      (fun w => ∃ signature ∈ w.engine.drainEvictions.1, w.engine.series.contains signature = true)
      ⟨⟨1, Dict.empty, []⟩, []⟩ [.update "a" 0 1, .update "b" 0 1, .update "a" 0 1] rfl (by decide)
    exact ⟨w, hreached, of_decide_eq_true hw⟩

end AgenticKibana.Baseline
