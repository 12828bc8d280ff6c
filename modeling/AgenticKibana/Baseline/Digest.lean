import Mathlib.Algebra.BigOperators.Group.List.Basic
import Mathlib.Data.List.Sort
import Mathlib.Data.Rat.Floor
import Mathlib.Tactic

/-!
# The quantile sketch

A digest keeps centroids in the order of their means: an observation is inserted by a binary search,
and adjacent centroids are merged while the scale function rises by at most one over what they
cover.  Two neighbours that were not merged cover more than that, which bounds their number.
-/

namespace AgenticKibana.Baseline

open List

structure Centroid where
  mean : ℚ
  weight : ℚ

structure Scale (compression : ℚ) where
  k : ℚ → ℚ
  mono : ∀ a b, 0 ≤ a → a ≤ b → b ≤ 1 → k a ≤ k b
  rise : k 1 - k 0 = compression / 2

variable {compression : ℚ} (scale : Scale compression)

def Scale.k1 (q : ℚ) : ℚ := if q ≤ 0 then scale.k 0 else if 1 ≤ q then scale.k 1 else scale.k q

def totalWeight (cs : List Centroid) : ℚ := (cs.map Centroid.weight).sum

/-- The loop of `_compress`: `cum` is the weight before the current centroid. -/
def mergeFrom (total cum : ℚ) (cur : Centroid) (qLeft : ℚ) : List Centroid → List Centroid
  | [] => [cur]
  | c :: cs =>
    let qRight := (cum + cur.weight + c.weight) / total
    if scale.k1 qRight - scale.k1 qLeft ≤ 1 then
      let weight := cur.weight + c.weight
      mergeFrom total cum ⟨cur.mean + (c.mean - cur.mean) * (c.weight / weight), weight⟩ qLeft cs
    else cur :: mergeFrom total (cum + cur.weight) c ((cum + cur.weight) / total) cs

def compress : List Centroid → List Centroid
  | [] => []
  | c :: cs =>
    if totalWeight (c :: cs) ≤ 0 ∨ (c :: cs).length ≤ 1 then c :: cs
    else mergeFrom scale (totalWeight (c :: cs)) 0 c 0 cs

/-- The first place whose mean is not below `x`, by a binary search between `lo` and `hi`. -/
def insertionPoint (cs : List Centroid) (x : ℚ) (lo hi : Nat) : Nat :=
  if _ : lo < hi then
    match cs[(lo + hi) / 2]? with
    | some c =>
      if c.mean < x then insertionPoint cs x ((lo + hi) / 2 + 1) hi
      else insertionPoint cs x lo ((lo + hi) / 2)
    | none => lo
  else lo
termination_by hi - lo

def add (cs : List Centroid) (x : ℚ) (weight : ℚ := 1) : List Centroid :=
  let inserted := cs.insertIdx (insertionPoint cs x 0 cs.length) ⟨x, weight⟩
  if max 16 (⌊compression⌋.toNat * 2) < inserted.length then compress scale inserted
  else inserted

/-- `from_list`, of a list that `to_list` wrote. -/
def fromList (cs : List Centroid) : List Centroid := cs.mergeSort fun a b => a.mean ≤ b.mean

def digest (observations : List ℚ) : List Centroid :=
  observations.foldl (fun cs x => add scale (fromList cs) x) []

def quantileFrom (target last prevMean prevCenter cum : ℚ) : List Centroid → ℚ
  | [] => last
  | c :: cs =>
    let center := cum + c.weight / 2
    if target ≤ center then
      if center = prevCenter then c.mean
      else
        let frac := max 0 (min 1 ((target - prevCenter) / (center - prevCenter)))
        prevMean + (c.mean - prevMean) * frac
    else quantileFrom target last c.mean center (cum + c.weight) cs

def quantile : List Centroid → ℚ → ℚ
  | [], _ => 0
  | c :: cs, q =>
    if (c :: cs).length = 1 ∨ totalWeight (c :: cs) ≤ 0 then c.mean
    else quantileFrom (q * totalWeight (c :: cs))
      ((c :: cs).getLast (cons_ne_nil c cs)).mean c.mean 0 0 (c :: cs)

/-! ### Order, weight and range -/

def Sorted (cs : List Centroid) : Prop := cs.Pairwise fun a b => a.mean ≤ b.mean

def Positive (cs : List Centroid) : Prop := ∀ c ∈ cs, 0 < c.weight

structure Coarser (cs out : List Centroid) : Prop where
  sorted : Sorted out
  positive : Positive out
  weight : totalWeight out = totalWeight cs
  low : ∀ e ∈ out, ∃ c ∈ cs, c.mean ≤ e.mean
  high : ∀ e ∈ out, ∃ c ∈ cs, e.mean ≤ c.mean

theorem Coarser.refl {cs : List Centroid} (hsorted : Sorted cs) (hpos : Positive cs) :
    Coarser cs cs :=
  ⟨hsorted, hpos, rfl, fun e he => ⟨e, he, le_rfl⟩, fun e he => ⟨e, he, le_rfl⟩⟩

variable {c : Centroid}

theorem merged_mean {cur : Centroid} (hle : cur.mean ≤ c.mean) (hcur : 0 < cur.weight)
    (hc : 0 < c.weight) :
    cur.mean ≤ cur.mean + (c.mean - cur.mean) * (c.weight / (cur.weight + c.weight)) ∧
      cur.mean + (c.mean - cur.mean) * (c.weight / (cur.weight + c.weight)) ≤ c.mean := by
  have hsum : 0 < cur.weight + c.weight := add_pos hcur hc
  have hlow : 0 ≤ c.weight / (cur.weight + c.weight) := (div_pos hc hsum).le
  have hhigh : c.weight / (cur.weight + c.weight) ≤ 1 := by
    rw [div_le_one hsum]
    linarith
  have hgap : 0 ≤ c.mean - cur.mean := sub_nonneg.mpr hle
  constructor
  · linarith [mul_nonneg hgap hlow]
  · linarith [mul_le_mul_of_nonneg_left hhigh hgap]

theorem mergeFrom_coarser (total : ℚ) {cs : List Centroid} : ∀ {cum qLeft : ℚ} {cur : Centroid},
    Sorted (cur :: cs) → Positive (cur :: cs) →
    Coarser (cur :: cs) (mergeFrom scale total cum cur qLeft cs) ∧
      ∀ e ∈ mergeFrom scale total cum cur qLeft cs, cur.mean ≤ e.mean := by
  induction cs with
  | nil =>
    intro cum qLeft cur hsorted hpos
    exact ⟨Coarser.refl hsorted hpos, fun e he => mem_singleton.mp he ▸ le_rfl⟩
  | cons c cs ih =>
    intro cum qLeft cur hsorted hpos
    obtain ⟨hfirst, hrest⟩ := pairwise_cons.mp hsorted
    obtain ⟨hcur, hpos⟩ := forall_mem_cons.mp hpos
    obtain ⟨hc, hpos'⟩ := forall_mem_cons.mp hpos
    unfold mergeFrom
    dsimp only
    by_cases hmerge : scale.k1 ((cum + cur.weight + c.weight) / total) - scale.k1 qLeft ≤ 1
    · rw [if_pos hmerge]
      obtain ⟨hlow, hhigh⟩ := merged_mean (hfirst c mem_cons_self) hcur hc
      set merged : Centroid :=
        ⟨cur.mean + (c.mean - cur.mean) * (c.weight / (cur.weight + c.weight)),
        cur.weight + c.weight⟩
      obtain ⟨hcoarser, hleast⟩ := @ih cum qLeft merged
        (pairwise_cons.mpr ⟨fun e he => hhigh.trans ((pairwise_cons.mp hrest).1 e he),
          (pairwise_cons.mp hrest).2⟩)
        (forall_mem_cons.mpr ⟨add_pos hcur hc, hpos'⟩)
      refine ⟨⟨hcoarser.sorted, hcoarser.positive, ?_, fun e he => ?_, fun e he => ?_⟩,
        fun e he => hlow.trans (hleast e he)⟩
      · rw [hcoarser.weight]
        simp only [totalWeight, map_cons, sum_cons, merged]
        ring
      · exact ⟨cur, mem_cons_self, hlow.trans (hleast e he)⟩
      · obtain ⟨d, hd, hle⟩ := hcoarser.high e he
        rcases mem_cons.mp hd with rfl | hd
        · exact ⟨c, by simp, hle.trans hhigh⟩
        · exact ⟨d, by simp [hd], hle⟩
    · rw [if_neg hmerge]
      obtain ⟨hcoarser, hleast⟩ := @ih (cum + cur.weight) ((cum + cur.weight) / total) c hrest hpos
      have hafter := fun e he => (hfirst c mem_cons_self).trans (hleast e he)
      refine ⟨⟨pairwise_cons.mpr ⟨hafter, hcoarser.sorted⟩,
        forall_mem_cons.mpr ⟨hcur, hcoarser.positive⟩, ?_, fun e he => ?_, fun e he => ?_⟩,
        forall_mem_cons.mpr ⟨le_rfl, hafter⟩⟩
      · have := hcoarser.weight
        simp only [totalWeight, map_cons, sum_cons] at this ⊢
        rw [this]
      · refine ⟨cur, mem_cons_self, ?_⟩
        exact (forall_mem_cons.mpr ⟨le_rfl, hafter⟩ : ∀ d ∈ cur :: _, cur.mean ≤ d.mean) e he
      · rcases mem_cons.mp he with rfl | he
        · exact ⟨e, mem_cons_self, le_rfl⟩
        · obtain ⟨d, hd, hle⟩ := hcoarser.high e he
          exact ⟨d, mem_cons_of_mem cur hd, hle⟩

theorem compress_coarser {cs : List Centroid} (hsorted : Sorted cs) (hpos : Positive cs) :
    Coarser cs (compress scale cs) := by
  cases cs with
  | nil => exact Coarser.refl hsorted hpos
  | cons c cs =>
    rw [compress]
    split
    · exact Coarser.refl hsorted hpos
    · exact (mergeFrom_coarser scale _ hsorted hpos).1

theorem Scale.k1_mono {a b : ℚ} (h : a ≤ b) : scale.k1 a ≤ scale.k1 b := by
  have hmid : ∀ q, 0 ≤ q → q ≤ 1 → scale.k 0 ≤ scale.k q ∧ scale.k q ≤ scale.k 1 :=
    fun q hlow hhigh => ⟨scale.mono 0 q le_rfl hlow hhigh, scale.mono q 1 hlow hhigh le_rfl⟩
  unfold Scale.k1
  split_ifs with ha hb hb' ha' hb hb' hb hb'
  all_goals first
    | exact le_rfl
    | exact (hmid 1 zero_le_one le_rfl).1
    | exact (hmid b (by linarith) (by linarith)).1
    | exact (hmid a (by linarith) (by linarith)).2
    | exact scale.mono a b (by linarith) h (by linarith)
    | exact absurd h (by linarith)

theorem Scale.k1_rise : scale.k1 1 - scale.k1 0 = compression / 2 := by
  have hone : scale.k1 1 = scale.k 1 := by norm_num [Scale.k1]
  have hzero : scale.k1 0 = scale.k 0 := if_pos le_rfl
  rw [hone, hzero, scale.rise]

/-- Both bounds go through the loop together: one counts from the left edge of the current
centroid, and the other from the right edge of what it holds so far. -/
theorem length_mergeFrom_le {total : ℚ} (htotal : 0 < total) {cs : List Centroid} :
    ∀ {cum qLeft : ℚ} {cur : Centroid}, Positive cs → qLeft ≤ 1 →
      cum + cur.weight + totalWeight cs ≤ total →
      ((mergeFrom scale total cum cur qLeft cs).length : ℚ) ≤
          2 * (scale.k1 1 - scale.k1 qLeft) + 1 ∧
        ((mergeFrom scale total cum cur qLeft cs).length : ℚ) ≤
          2 * (scale.k1 1 - scale.k1 ((cum + cur.weight) / total)) + 2 := by
  induction cs with
  | nil =>
    intro cum qLeft cur _ hleft hsum
    have hright : (cum + cur.weight) / total ≤ 1 := by
      rw [div_le_one htotal]
      simpa [totalWeight] using hsum
    have := scale.k1_mono hleft
    have := scale.k1_mono hright
    have hone : ((mergeFrom scale total cum cur qLeft []).length : ℚ) = 1 := by
      simp [mergeFrom]
    constructor <;> linarith
  | cons c cs ih =>
    intro cum qLeft cur hpos hleft hsum
    obtain ⟨hc, hpos⟩ := forall_mem_cons.mp hpos
    have hnonneg : 0 ≤ totalWeight cs := by
      refine sum_nonneg fun w hw => ?_
      obtain ⟨d, hd, rfl⟩ := mem_map.mp hw
      exact (hpos d hd).le
    have hsum' : cum + cur.weight + c.weight + totalWeight cs ≤ total := by
      simp only [totalWeight, map_cons, sum_cons] at hsum ⊢
      linarith
    have hgrow : scale.k1 ((cum + cur.weight) / total) ≤
        scale.k1 ((cum + cur.weight + c.weight) / total) :=
      scale.k1_mono (div_le_div_of_nonneg_right (by linarith) htotal.le)
    unfold mergeFrom
    dsimp only
    by_cases hmerge : scale.k1 ((cum + cur.weight + c.weight) / total) - scale.k1 qLeft ≤ 1
    · rw [if_pos hmerge]
      obtain ⟨hfromLeft, hfromRight⟩ := @ih cum qLeft
        ⟨cur.mean + (c.mean - cur.mean) * (c.weight / (cur.weight + c.weight)),
          cur.weight + c.weight⟩ hpos hleft (by dsimp only; linarith)
      refine ⟨hfromLeft, hfromRight.trans ?_⟩
      dsimp only
      rw [← add_assoc]
      linarith
    · rw [if_neg hmerge]
      obtain ⟨hfromLeft, hfromRight⟩ := @ih (cum + cur.weight) ((cum + cur.weight) / total) c hpos
        (by rw [div_le_one htotal]; linarith) hsum'
      simp only [length_cons, Nat.cast_add, Nat.cast_one]
      constructor <;> linarith

include scale in
theorem compression_nonneg : 0 ≤ compression := by
  have := scale.mono 0 1 le_rfl zero_le_one le_rfl
  have := scale.rise
  linarith

/-- A pass leaves at most one centroid more than the compression. -/
theorem length_compress_le {cs : List Centroid} (hpos : Positive cs) :
    ((compress scale cs).length : ℚ) ≤ compression + 1 := by
  have hnonneg := compression_nonneg scale
  cases cs with
  | nil =>
    rw [compress, length_nil, Nat.cast_zero]
    linarith
  | cons c cs =>
    have htotal : 0 < totalWeight (c :: cs) := by
      refine sum_pos _ (fun w hw => ?_) (by simp)
      obtain ⟨d, hd, rfl⟩ := mem_map.mp hw
      exact hpos d hd
    rw [compress]
    by_cases hfew : totalWeight (c :: cs) ≤ 0 ∨ (c :: cs).length ≤ 1
    · rw [if_pos hfew]
      have hone : ((c :: cs).length : ℚ) ≤ 1 := mod_cast hfew.resolve_left (not_le.mpr htotal)
      linarith
    · rw [if_neg hfew]
      have hcount := (@length_mergeFrom_le _ scale _ htotal cs 0 0 c
        (fun d hd => hpos d (mem_cons_of_mem c hd)) zero_le_one
        (by rw [zero_add, totalWeight, totalWeight, map_cons, sum_cons])).1
      rw [scale.k1_rise] at hcount
      linarith

/-! ### Inserting -/

theorem insertionPoint_spec {cs : List Centroid} (hsorted : Sorted cs) (x : ℚ) {lo hi : Nat}
    (hlohi : lo ≤ hi) (hhi : hi ≤ cs.length) (hlow : ∀ c ∈ cs.take lo, c.mean < x)
    (hhigh : ∀ c ∈ cs.drop hi, x ≤ c.mean) :
    insertionPoint cs x lo hi ≤ cs.length ∧
      (∀ c ∈ cs.take (insertionPoint cs x lo hi), c.mean < x) ∧
      ∀ c ∈ cs.drop (insertionPoint cs x lo hi), x ≤ c.mean := by
  induction hgap : hi - lo using Nat.strong_induction_on generalizing lo hi with
  | h gap ih =>
    rw [insertionPoint]
    by_cases hlt : lo < hi
    · rw [dif_pos hlt]
      have hmid : (lo + hi) / 2 < cs.length := by omega
      have hcut := take_append_drop ((lo + hi) / 2) cs
      rw [drop_eq_getElem_cons hmid] at hcut
      have hpair := hsorted
      rw [Sorted, ← hcut, pairwise_append] at hpair
      obtain ⟨-, hafter, hbefore⟩ := hpair
      rw [List.getElem?_eq_getElem hmid]
      dsimp only
      by_cases hless : cs[(lo + hi) / 2].mean < x
      · rw [if_pos hless]
        refine ih _ (by omega) (by omega) hhi (fun c hc => ?_) hhigh rfl
        rw [take_succ_eq_append_getElem hmid] at hc
        rcases mem_append.mp hc with hc | hc
        · exact (hbefore c hc _ mem_cons_self).trans_lt hless
        · exact mem_singleton.mp hc ▸ hless
      · rw [if_neg hless]
        refine ih _ (by omega) (by omega) (by omega) hlow (fun c hc => ?_) rfl
        rw [drop_eq_getElem_cons hmid] at hc
        rcases mem_cons.mp hc with rfl | hc
        · exact not_lt.mp hless
        · exact (not_lt.mp hless).trans ((pairwise_cons.mp hafter).1 c hc)
    · rw [dif_neg hlt]
      obtain rfl : lo = hi := by omega
      exact ⟨hhi, hlow, hhigh⟩

theorem insertIdx_eq {cs : List Centroid} {place : Nat} (h : place ≤ cs.length) :
    cs.insertIdx place c = cs.take place ++ c :: cs.drop place := by
  induction cs generalizing place with
  | nil =>
    obtain rfl := Nat.le_zero.mp h
    rfl
  | cons d cs ih =>
    cases place with
    | zero => rfl
    | succ place =>
      rw [insertIdx_succ_cons, ih (Nat.le_of_succ_le_succ h)]
      rfl

structure Formed (seen : List ℚ) (cs : List Centroid) : Prop where
  sorted : Sorted cs
  positive : Positive cs
  weight : totalWeight cs = seen.length
  range : ∀ lo hi, (∀ x ∈ seen, lo ≤ x ∧ x ≤ hi) → ∀ c ∈ cs, lo ≤ c.mean ∧ c.mean ≤ hi

variable {scale} {seen : List ℚ} {cs : List Centroid}

theorem Formed.coarser {out : List Centroid} (h : Formed seen cs) (hout : Coarser cs out) :
    Formed seen out := by
  refine ⟨hout.sorted, hout.positive, hout.weight.trans h.weight, fun lo hi hseen e he => ?_⟩
  obtain ⟨c, hc, hlow⟩ := hout.low e he
  obtain ⟨d, hd, hhigh⟩ := hout.high e he
  exact ⟨(h.range lo hi hseen c hc).1.trans hlow, hhigh.trans (h.range lo hi hseen d hd).2⟩

theorem Formed.insert (h : Formed seen cs) (x : ℚ) :
    Formed (seen ++ [x]) (cs.insertIdx (insertionPoint cs x 0 cs.length) ⟨x, 1⟩) := by
  obtain ⟨hlength, hbelow, habove⟩ :=
    insertionPoint_spec h.sorted x (Nat.zero_le _) le_rfl (by simp) (by simp)
  generalize insertionPoint cs x 0 cs.length = place at *
  rw [insertIdx_eq hlength]
  have hmem : ∀ e, e ∈ cs.take place ++ ⟨x, 1⟩ :: cs.drop place → e = ⟨x, 1⟩ ∨ e ∈ cs := by
    intro e he
    rcases mem_append.mp he with he | he
    · exact .inr (mem_of_mem_take he)
    · exact (mem_cons.mp he).imp_right mem_of_mem_drop
  have hpair := h.sorted
  rw [Sorted, ← take_append_drop place cs, pairwise_append] at hpair
  obtain ⟨hbefore, hafter, hcross⟩ := hpair
  refine ⟨?_, fun e he => ?_, ?_, fun lo hi hseen e he => ?_⟩
  · refine pairwise_append.mpr
      ⟨hbefore, pairwise_cons.mpr ⟨habove, hafter⟩, fun c hc d hd => ?_⟩
    rcases mem_cons.mp hd with rfl | hd
    · exact (hbelow c hc).le
    · exact hcross c hc d hd
  · rcases hmem e he with rfl | he
    · exact zero_lt_one
    · exact h.positive e he
  · have hweight := h.weight
    rw [← take_append_drop place cs] at hweight
    simp only [totalWeight, map_append, sum_append, map_cons, sum_cons,
      length_append, length_singleton, Nat.cast_add, Nat.cast_one] at hweight ⊢
    linarith
  · rcases hmem e he with rfl | he
    · exact hseen x (by simp)
    · exact h.range lo hi (fun y hy => hseen y (by simp [hy])) e he

variable (scale) in
theorem Formed.add (h : Formed seen cs) (x : ℚ) :
    Formed (seen ++ [x]) (add scale cs x) ∧
      ((add scale cs x).length : ℚ) ≤ max 16 (2 * compression) := by
  have hinserted := h.insert x
  unfold Baseline.add
  dsimp only
  generalize cs.insertIdx (insertionPoint cs x 0 cs.length) ⟨x, 1⟩ = inserted at *
  have hnonneg := compression_nonneg scale
  split
  · refine ⟨hinserted.coarser (compress_coarser scale hinserted.sorted hinserted.positive), ?_⟩
    have hcount := length_compress_le scale hinserted.positive
    rcases le_or_gt 1 compression with hone | hone
    · exact hcount.trans ((by linarith : compression + 1 ≤ 2 * compression).trans
        (le_max_right _ _))
    · exact hcount.trans ((by linarith : compression + 1 ≤ 16).trans (le_max_left _ _))
  · next hfits =>
    refine ⟨hinserted, ?_⟩
    have hfloor : ((⌊compression⌋.toNat : ℕ) : ℚ) ≤ compression := by
      have hcast : ((⌊compression⌋.toNat : ℤ) : ℚ) = ⌊compression⌋ := by
        rw [Int.toNat_of_nonneg (Int.floor_nonneg.mpr hnonneg)]
      exact_mod_cast hcast.trans_le (Int.floor_le compression)
    have hlength : (inserted.length : ℚ) ≤ max 16 ((⌊compression⌋.toNat : ℚ) * 2) := by
      exact_mod_cast not_lt.mp hfits
    exact hlength.trans (max_le_max le_rfl (by linarith))

theorem fromList_eq (h : Sorted cs) : fromList cs = cs :=
  mergeSort_of_pairwise (h.imp fun hle => decide_eq_true hle)

variable (scale) in
theorem formed_digest (observations : List ℚ) :
    Formed observations (digest scale observations) ∧
      ((digest scale observations).length : ℚ) ≤ max 16 (2 * compression) := by
  have hfold : ∀ (rest seen : List ℚ) (cs : List Centroid), Formed seen cs →
      (cs.length : ℚ) ≤ max 16 (2 * compression) →
      Formed (seen ++ rest) (rest.foldl (fun cs x => Baseline.add scale (fromList cs) x) cs) ∧
        ((rest.foldl (fun cs x => Baseline.add scale (fromList cs) x) cs).length : ℚ) ≤
          max 16 (2 * compression) := by
    intro rest
    induction rest with
    | nil =>
      intro seen cs h hcount
      rw [append_nil]
      exact ⟨h, hcount⟩
    | cons x rest ih =>
      intro seen cs h _
      obtain ⟨hadded, hcount⟩ := h.add scale x
      rw [append_cons, foldl_cons, fromList_eq h.sorted]
      exact ih _ _ hadded hcount
  exact hfold observations [] [] ⟨List.Pairwise.nil, by simp [Positive], by simp [totalWeight],
    by simp⟩ (by simp)

/-- The interpolation from a centre on: between the mean there and the last, and rising. -/
theorem quantileFrom_spec {last : ℚ} :
    ∀ {prevMean prevCenter cum : ℚ}, Sorted cs → Positive cs → prevCenter ≤ cum →
      (∀ c ∈ cs, prevMean ≤ c.mean ∧ c.mean ≤ last) → prevMean ≤ last →
      (∀ target, prevMean ≤ quantileFrom target last prevMean prevCenter cum cs ∧
        quantileFrom target last prevMean prevCenter cum cs ≤ last) ∧
      ∀ target target', target ≤ target' →
        quantileFrom target last prevMean prevCenter cum cs ≤
          quantileFrom target' last prevMean prevCenter cum cs := by
  induction cs with
  | nil =>
    intro prevMean prevCenter cum _ _ _ _ hlast
    exact ⟨fun _ => ⟨hlast, le_rfl⟩, fun _ _ _ => le_rfl⟩
  | cons c cs ih =>
    intro prevMean prevCenter cum hsorted hpos hcenter hmeans hlast
    obtain ⟨hfirst, hsorted⟩ := pairwise_cons.mp hsorted
    obtain ⟨hc, hpos⟩ := forall_mem_cons.mp hpos
    obtain ⟨⟨hprev, hclast⟩, hmeans⟩ := forall_mem_cons.mp hmeans
    have hgap : 0 < cum + c.weight / 2 - prevCenter := by linarith
    obtain ⟨hbounds, hrising⟩ := @ih c.mean (cum + c.weight / 2) (cum + c.weight) hsorted hpos
      (by linarith) (fun d hd => ⟨hfirst d hd, (hmeans d hd).2⟩) hclast
    -- the line between two centres
    obtain ⟨line, hline, hinside, hslope⟩ : ∃ line : ℚ → ℚ,
        (∀ target, line target = prevMean + (c.mean - prevMean) *
          max 0 (min 1 ((target - prevCenter) / (cum + c.weight / 2 - prevCenter)))) ∧
        (∀ target, prevMean ≤ line target ∧ line target ≤ c.mean) ∧
        ∀ target target', target ≤ target' → line target ≤ line target' := by
      refine ⟨_, fun _ => rfl, fun target => ⟨?_, ?_⟩, fun target target' hle => ?_⟩
      · have := mul_nonneg (sub_nonneg.mpr hprev) (le_max_left 0
          (min 1 ((target - prevCenter) / (cum + c.weight / 2 - prevCenter))))
        linarith
      · have := mul_le_mul_of_nonneg_left (max_le zero_le_one (min_le_left 1
          ((target - prevCenter) / (cum + c.weight / 2 - prevCenter)))) (sub_nonneg.mpr hprev)
        linarith
      · have hratio : (target - prevCenter) / (cum + c.weight / 2 - prevCenter) ≤
            (target' - prevCenter) / (cum + c.weight / 2 - prevCenter) :=
          div_le_div_of_nonneg_right (by linarith) hgap.le
        exact add_le_add_right (mul_le_mul_of_nonneg_left
          (max_le_max le_rfl (min_le_min le_rfl hratio)) (sub_nonneg.mpr hprev)) _
    have hvalue : ∀ target, quantileFrom target last prevMean prevCenter cum (c :: cs) =
        if target ≤ cum + c.weight / 2 then line target
        else quantileFrom target last c.mean (cum + c.weight / 2) (cum + c.weight) cs := by
      intro target
      rw [hline, quantileFrom]
      dsimp only
      rw [if_neg (sub_pos.mp hgap).ne']
    refine ⟨fun target => ?_, fun target target' hle => ?_⟩
    · rw [hvalue]
      by_cases hnear : target ≤ cum + c.weight / 2
      · rw [if_pos hnear]
        exact ⟨(hinside target).1, (hinside target).2.trans hclast⟩
      · rw [if_neg hnear]
        exact ⟨hprev.trans (hbounds target).1, (hbounds target).2⟩
    · rw [hvalue, hvalue]
      by_cases hnear : target ≤ cum + c.weight / 2
      · rw [if_pos hnear]
        by_cases hnear' : target' ≤ cum + c.weight / 2
        · rw [if_pos hnear']
          exact hslope target target' hle
        · rw [if_neg hnear']
          exact (hinside target).2.trans (hbounds target').1
      · rw [if_neg hnear, if_neg fun h => hnear (hle.trans h)]
        exact hrising target target' hle

theorem quantile_spec (hsorted : Sorted cs) (hpos : Positive cs) :
    (∀ lo hi, cs ≠ [] → (∀ c ∈ cs, lo ≤ c.mean ∧ c.mean ≤ hi) →
      ∀ q, lo ≤ quantile cs q ∧ quantile cs q ≤ hi) ∧
    ∀ q q', q ≤ q' → quantile cs q ≤ quantile cs q' := by
  cases cs with
  | nil => exact ⟨fun _ _ h => absurd rfl h, fun _ _ _ => le_rfl⟩
  | cons c cs =>
    simp only [quantile]
    by_cases hone : (c :: cs).length = 1 ∨ totalWeight (c :: cs) ≤ 0
    · simp only [if_pos hone]
      exact ⟨fun _ _ _ hmeans _ => hmeans c mem_cons_self, fun _ _ _ => le_rfl⟩
    · simp only [if_neg hone]
      have htotal : 0 < totalWeight (c :: cs) := not_le.mp fun h => hone (.inr h)
      have hfirst : ∀ d ∈ c :: cs, c.mean ≤ d.mean :=
        forall_mem_cons.mpr ⟨le_rfl, (pairwise_cons.mp hsorted).1⟩
      have hmem := getLast_mem (cons_ne_nil c cs)
      have hlast : ∀ d ∈ c :: cs, d.mean ≤ ((c :: cs).getLast (cons_ne_nil c cs)).mean := by
        intro d hd
        have hsplit := dropLast_append_getLast (cons_ne_nil c cs)
        rw [← hsplit] at hd
        rw [Sorted, ← hsplit, pairwise_append] at hsorted
        rcases mem_append.mp hd with hd | hd
        · exact hsorted.2.2 d hd _ mem_cons_self
        · exact (congrArg Centroid.mean (mem_singleton.mp hd)).le
      obtain ⟨hbounds, hrising⟩ := @quantileFrom_spec _ _ c.mean 0 0
        hsorted hpos le_rfl (fun d hd => ⟨hfirst d hd, hlast d hd⟩) (hlast c mem_cons_self)
      refine ⟨fun lo hi _ hmeans q => ?_, fun q q' hle => ?_⟩
      · exact ⟨(hmeans c mem_cons_self).1.trans (hbounds _).1,
          (hbounds _).2.trans (hmeans _ hmem).2⟩
      · exact hrising _ _ (mul_le_mul_of_nonneg_right hle htotal.le)

/-- **The sketch stays well formed**: after every observation the centroids are in order, weigh as
much as was observed, lie within the range of the observations and are few; a pass leaves at most
one more than the compression; and quantiles rise within the range. -/
theorem digest_wellFormed (scale : Scale compression) (observations : List ℚ) :
    let cs := digest scale observations
    Sorted cs ∧ Positive cs ∧ totalWeight cs = observations.length ∧
    (∀ lo hi, (∀ x ∈ observations, lo ≤ x ∧ x ≤ hi) → ∀ c ∈ cs, lo ≤ c.mean ∧ c.mean ≤ hi) ∧
    (cs.length : ℚ) ≤ max 16 (2 * compression) ∧
    (∀ given, Positive given → ((compress scale given).length : ℚ) ≤ compression + 1) ∧
    (∀ q q', q ≤ q' → quantile cs q ≤ quantile cs q') ∧
    ∀ lo hi, observations ≠ [] → (∀ x ∈ observations, lo ≤ x ∧ x ≤ hi) →
      ∀ q, lo ≤ quantile cs q ∧ quantile cs q ≤ hi := by
  obtain ⟨hformed, hcount⟩ := formed_digest scale observations
  obtain ⟨hbounds, hrising⟩ := quantile_spec hformed.sorted hformed.positive
  refine ⟨hformed.sorted, hformed.positive, hformed.weight, hformed.range, hcount,
    fun given hpos => length_compress_le scale hpos, hrising, fun lo hi hsome hseen => ?_⟩
  refine hbounds lo hi (fun hnone => hsome ?_) (hformed.range lo hi hseen)
  have hweight := hformed.weight
  rw [hnone] at hweight
  simpa [totalWeight, eq_comm] using hweight

/-- A scale that rises evenly; at the ends and in the middle it is the arcsine of the source. -/
def evenScale : Scale 100 where
  k q := 50 * q - 25
  mono a b _ hab _ := by linarith
  rise := by norm_num

theorem digest_wellFormed_of_two : Sorted (digest evenScale [3, 1]) ∧
    totalWeight (digest evenScale [3, 1]) = 2 ∧ quantile (digest evenScale [3, 1]) (1 / 2) ≤ 3 := by
  have hrange : ∀ x ∈ ([3, 1] : List ℚ), 1 ≤ x ∧ x ≤ 3 := by
    intro x hx
    rcases mem_pair.mp hx with rfl | rfl <;> norm_num
  obtain ⟨hsorted, -, hweight, -, -, -, -, hquantile⟩ := digest_wellFormed evenScale [3, 1]
  exact ⟨hsorted, hweight, (hquantile 1 3 (cons_ne_nil _ _) hrange (1 / 2)).2⟩

end AgenticKibana.Baseline
