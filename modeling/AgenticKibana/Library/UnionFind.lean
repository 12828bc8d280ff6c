import Mathlib.Logic.Function.Basic
import Mathlib.Logic.Relation
import Mathlib.Data.Finset.Card
import Mathlib.Order.Lattice
import Mathlib.Data.List.Dedup

/-!
# Union-find over ordered nodes

A forest of parent pointers in which the lesser of two roots becomes the parent of the other;
`find` points the nodes on its way to the root, `union` joins the trees of a list of nodes.  After
the unions of some lists, two nodes have one root exactly when the lists connect them, and the
root is the least node that they are connected to.
-/

namespace AgenticKibana.Library.UnionFind

open List

variable {α : Type*} [LinearOrder α]

/-- Follow the parents, at most `n` of them. -/
def climb (p : α → α) : Nat → α → α
  | 0, x => x
  | n + 1, x => if p x = x then x else climb p n (p x)

def compress (root : α) : Nat → (α → α) → α → α → α
  | 0, p, _ => p
  | n + 1, p, x => if p x = x then p else compress root n (Function.update p x root) (p x)

def root (nodes : List α) (p : α → α) (x : α) : α := climb p nodes.length x

def find (nodes : List α) (p : α → α) (x : α) : α × (α → α) :=
  (root nodes p x, compress (root nodes p x) nodes.length p x)

def unionStep (nodes : List α) (s : α × (α → α)) (member : α) : α × (α → α) :=
  let found := find nodes s.2 member
  if s.1 = found.1 then (s.1, found.2)
  else (min s.1 found.1, Function.update found.2 (max s.1 found.1) (min s.1 found.1))

def union (nodes : List α) (p : α → α) : List α → α → α
  | first :: second :: rest => ((second :: rest).foldl (unionStep nodes) (find nodes p first)).2
  | _ => p

/-! ### Forests -/

structure Forest (nodes : List α) (p : α → α) : Prop where
  mem : ∀ x ∈ nodes, p x ∈ nodes
  le : ∀ x ∈ nodes, p x ≤ x

theorem Forest.id (nodes : List α) : Forest nodes (id : α → α) :=
  ⟨fun _ hx => hx, fun _ _ => le_rfl⟩

variable {nodes : List α} {p p' : α → α} {x y : α}

def height (nodes : List α) (x : α) : Nat := (nodes.toFinset.filter (· < x)).card

theorem height_lt_length (hx : x ∈ nodes) : height nodes x < nodes.length := by
  refine lt_of_lt_of_le (Finset.card_lt_card ?_) (toFinset_card_le nodes)
  refine Finset.filter_ssubset.mpr ⟨x, List.mem_toFinset.mpr hx, lt_irrefl x⟩

theorem height_lt_height (hy : y ∈ nodes) (h : y < x) : height nodes y < height nodes x := by
  refine Finset.card_lt_card ⟨fun z hz => ?_, fun hsub => ?_⟩
  · obtain ⟨hmem, hlt⟩ := Finset.mem_filter.mp hz
    exact Finset.mem_filter.mpr ⟨hmem, hlt.trans h⟩
  · have hself := hsub (Finset.mem_filter.mpr ⟨List.mem_toFinset.mpr hy, h⟩)
    exact lt_irrefl y (Finset.mem_filter.mp hself).2

section

variable (hp : Forest nodes p)

include hp

theorem Forest.lt (hx : x ∈ nodes) (hne : p x ≠ x) : p x < x :=
  lt_of_le_of_ne (hp.le x hx) hne

theorem Forest.induct {P : α → Prop}
    (hroot : ∀ x ∈ nodes, p x = x → P x) (hstep : ∀ x ∈ nodes, p x ≠ x → P (p x) → P x)
    (hx : x ∈ nodes) : P x := by
  induction hn : height nodes x using Nat.strong_induction_on generalizing x with
  | _ n ih =>
    by_cases hfixed : p x = x
    · exact hroot x hx hfixed
    · refine hstep x hx hfixed (ih _ ?_ (hp.mem x hx) rfl)
      rw [← hn]
      exact height_lt_height (hp.mem x hx) (hp.lt hx hfixed)

omit hp in
theorem climb_of_fixed (h : p x = x) (n : Nat) : climb p n x = x := by
  cases n with
  | zero => rfl
  | succ n => exact if_pos h

theorem Forest.climb_eq (hx : x ∈ nodes) :
    ∀ n m, height nodes x < n → height nodes x < m → climb p n x = climb p m x := by
  refine hp.induct (P := fun x => ∀ n m, height nodes x < n → height nodes x < m →
    climb p n x = climb p m x) ?_ ?_ hx
  · intro x _ hfixed n m _ _
    rw [climb_of_fixed hfixed, climb_of_fixed hfixed]
  · intro x hx hne ih n m hn hm
    obtain ⟨n, rfl⟩ : ∃ k, n = k + 1 := ⟨n - 1, by omega⟩
    obtain ⟨m, rfl⟩ : ∃ k, m = k + 1 := ⟨m - 1, by omega⟩
    have hlt := height_lt_height (hp.mem x hx) (hp.lt hx hne)
    rw [climb, climb, if_neg hne, if_neg hne]
    exact ih n m (by omega) (by omega)

omit hp in
theorem root_of_fixed (h : p x = x) : root nodes p x = x := climb_of_fixed h _

theorem Forest.root_parent (hx : x ∈ nodes) : root nodes p (p x) = root nodes p x := by
  by_cases hfixed : p x = x
  · rw [hfixed]
  have hlt := height_lt_height (hp.mem x hx) (hp.lt hx hfixed)
  have hlen := height_lt_length hx
  unfold root
  rw [hp.climb_eq hx nodes.length (nodes.length + 1) hlen (by omega), climb, if_neg hfixed]

theorem Forest.root_spec (hx : x ∈ nodes) :
    root nodes p x ∈ nodes ∧ p (root nodes p x) = root nodes p x ∧ root nodes p x ≤ x := by
  refine hp.induct (P := fun x => root nodes p x ∈ nodes ∧
    p (root nodes p x) = root nodes p x ∧ root nodes p x ≤ x) ?_ ?_ hx
  · intro x hx hfixed
    rw [root_of_fixed hfixed]
    exact ⟨hx, hfixed, le_rfl⟩
  · intro x hx _ ih
    rw [hp.root_parent hx] at ih
    exact ⟨ih.1, ih.2.1, ih.2.2.trans (hp.le x hx)⟩

theorem Forest.root_root (hx : x ∈ nodes) : root nodes p (root nodes p x) = root nodes p x :=
  root_of_fixed (hp.root_spec hx).2.1

theorem Forest.root_congr (hp' : Forest nodes p')
    (h : ∀ y ∈ nodes, p' y = p y ∨ p' y = root nodes p y) (hx : x ∈ nodes) :
    root nodes p' x = root nodes p x := by
  refine hp'.induct (P := fun x => root nodes p' x = root nodes p x) ?_ ?_ hx
  · intro x hx hfixed
    rw [root_of_fixed hfixed]
    rcases h x hx with hsame | hroot
    · exact (root_of_fixed (hsame.symm.trans hfixed)).symm
    · exact hfixed.symm.trans hroot
  · intro x hx _ ih
    rw [← hp'.root_parent hx, ih]
    rcases h x hx with hsame | hroot
    · rw [hsame, hp.root_parent hx]
    · rw [hroot, hp.root_root hx]

variable {r : α}

theorem Forest.update (hr : r ∈ nodes) (hle : r ≤ x) : Forest nodes (Function.update p x r) := by
  refine ⟨fun y hy => ?_, fun y hy => ?_⟩
  · by_cases hyx : y = x
    · rw [hyx, Function.update_self]
      exact hr
    · rw [Function.update_of_ne hyx]
      exact hp.mem y hy
  · by_cases hyx : y = x
    · rw [hyx, Function.update_self]
      exact hle
    · rw [Function.update_of_ne hyx]
      exact hp.le y hy

omit hp in
theorem Forest.compress (n : Nat) (hp : Forest nodes p) (hx : x ∈ nodes) :
    Forest nodes (compress (root nodes p x) n p x) ∧
      ∀ y ∈ nodes, root nodes (UnionFind.compress (root nodes p x) n p x) y = root nodes p y := by
  generalize hr : root nodes p x = r
  induction n generalizing p x with
  | zero => exact ⟨hp, fun _ _ => rfl⟩
  | succ n ih =>
    rw [UnionFind.compress]
    split
    · exact ⟨hp, fun _ _ => rfl⟩
    · obtain ⟨hrmem, -, hrle⟩ := hp.root_spec hx
      rw [hr] at hrmem hrle
      have hq := hp.update hrmem hrle
      have hroots : ∀ y ∈ nodes, root nodes (Function.update p x r) y = root nodes p y := by
        intro y hy
        refine hp.root_congr hq (fun z _ => ?_) hy
        by_cases hzx : z = x
        · rw [hzx, Function.update_self]
          exact .inr hr.symm
        · exact .inl (Function.update_of_ne hzx _ _)
      obtain ⟨hforest, hsame⟩ := ih hq (hp.mem x hx)
        (by rw [hroots _ (hp.mem x hx), hp.root_parent hx, hr])
      exact ⟨hforest, fun y hy => (hsame y hy).trans (hroots y hy)⟩

theorem Forest.find (hx : x ∈ nodes) : Forest nodes (find nodes p x).2 ∧
      ∀ y ∈ nodes, root nodes (UnionFind.find nodes p x).2 y = root nodes p y :=
  hp.compress _ hx

/-! ### Joining -/

theorem Forest.link {lo hi : α} (hlo : lo ∈ nodes) (hlt : lo < hi)
    (hfixed : p lo = lo) (hfixed' : p hi = hi) (hx : x ∈ nodes) :
    root nodes (Function.update p hi lo) x =
      if root nodes p x = hi then lo else root nodes p x := by
  have hp' := hp.update hlo hlt.le
  have hloRoot : root nodes (Function.update p hi lo) lo = lo :=
    root_of_fixed (by rw [Function.update_of_ne hlt.ne, hfixed])
  refine hp.induct (P := fun x => root nodes (Function.update p hi lo) x =
    if root nodes p x = hi then lo else root nodes p x) ?_ ?_ hx
  · intro x hx hxfixed
    rw [root_of_fixed hxfixed]
    by_cases hxhi : x = hi
    · rw [if_pos hxhi, ← hp'.root_parent hx, hxhi, Function.update_self]
      exact hloRoot
    · rw [if_neg hxhi]
      exact root_of_fixed (by rw [Function.update_of_ne hxhi, hxfixed])
  · intro x hx hne ih
    have hxhi : x ≠ hi := by
      rintro rfl
      exact hne hfixed'
    rw [← hp'.root_parent hx, Function.update_of_ne hxhi, ih, hp.root_parent hx]

end

def Joined (nodes : List α) (p : α → α) (x y : α) : Prop := root nodes p x = root nodes p y

def Within (nodes : List α) (p : α → α) (E : α → α → Prop) : Prop :=
  ∀ x ∈ nodes, ∀ y ∈ nodes, Joined nodes p x y → E x y

/-- What joining a node to the tree of `first` does. -/
structure Extends (nodes : List α) (first : α) (p p' : α → α) (joined : List α) : Prop where
  forest : Forest nodes p'
  mono : ∀ x ∈ nodes, ∀ y ∈ nodes, Joined nodes p x y → Joined nodes p' x y
  joins : ∀ x ∈ joined, Joined nodes p' first x
  within : ∀ E : α → α → Prop, Equivalence E → Within nodes p E → (∀ x ∈ joined, E first x) →
    Within nodes p' E

variable {first : α}

theorem Forest.link_extends (hp : Forest nodes p) {member lo hi : α} (hfirst : first ∈ nodes)
    (hmember : member ∈ nodes) (hlo : lo ∈ nodes) (hlt : lo < hi) (hfixed : p lo = lo)
    (hfixed' : p hi = hi) (hends : root nodes p first = lo ∧ root nodes p member = hi ∨
      root nodes p first = hi ∧ root nodes p member = lo) :
    Extends nodes first p (Function.update p hi lo) [member] ∧
      root nodes (Function.update p hi lo) first = lo := by
  have hroot : ∀ x ∈ nodes, root nodes (Function.update p hi lo) x =
      if root nodes p x = hi then lo else root nodes p x :=
    fun x hx => hp.link hlo hlt hfixed hfixed' hx
  have hat : ∀ x ∈ nodes, root nodes p x = lo ∨ root nodes p x = hi →
      root nodes (Function.update p hi lo) x = lo := by
    intro x hx hends
    rw [hroot x hx]
    split
    · rfl
    · rename_i hne
      exact hends.resolve_right hne
  have hfirst' : root nodes (Function.update p hi lo) first = lo := by
    refine hat first hfirst ?_
    rcases hends with h | h
    · exact .inl h.1
    · exact .inr h.1
  refine ⟨⟨hp.update hlo hlt.le, ?_, ?_, ?_⟩, hfirst'⟩
  · intro x hx y hy hjoined
    unfold Joined at hjoined ⊢
    rw [hroot x hx, hroot y hy, hjoined]
  · intro x hx
    rw [mem_singleton.mp hx]
    refine hfirst'.trans (hat member hmember ?_).symm
    rcases hends with h | h
    · exact .inr h.2
    · exact .inl h.2
  · intro E hE hwithin hjoin
    have hjoin := hjoin member (mem_singleton_self member)
    -- a node of the greater tree is related to every node of the lesser one
    have hcross : ∀ x ∈ nodes, ∀ y ∈ nodes, root nodes p x = hi → root nodes p y = lo → E x y := by
      intro x hx y hy hxroot hyroot
      rcases hends with ⟨hf, hm⟩ | ⟨hf, hm⟩
      · have hxm := hwithin x hx member hmember (hxroot.trans hm.symm)
        have hfy := hwithin first hfirst y hy (hf.trans hyroot.symm)
        exact hE.trans hxm (hE.trans (hE.symm hjoin) hfy)
      · have hxf := hwithin x hx first hfirst (hxroot.trans hf.symm)
        have hmy := hwithin member hmember y hy (hm.trans hyroot.symm)
        exact hE.trans hxf (hE.trans hjoin hmy)
    intro x hx y hy hjoined
    unfold Joined at hjoined
    rw [hroot x hx, hroot y hy] at hjoined
    by_cases hxhi : root nodes p x = hi
    · by_cases hyhi : root nodes p y = hi
      · exact hwithin x hx y hy (hxhi.trans hyhi.symm)
      · rw [if_pos hxhi, if_neg hyhi] at hjoined
        exact hcross x hx y hy hxhi hjoined.symm
    · by_cases hyhi : root nodes p y = hi
      · rw [if_neg hxhi, if_pos hyhi] at hjoined
        exact hE.symm (hcross y hy x hx hyhi hjoined)
      · rw [if_neg hxhi, if_neg hyhi] at hjoined
        exact hwithin x hx y hy hjoined

variable {q : α → α} {joined : List α}

theorem Extends.of_roots (hroots : ∀ y ∈ nodes, root nodes q y = root nodes p y)
    (h : Extends nodes first q p' joined) : Extends nodes first p p' joined := by
  have hsame : ∀ x ∈ nodes, ∀ y ∈ nodes, Joined nodes p x y ↔ Joined nodes q x y := by
    intro x hx y hy
    unfold Joined
    rw [hroots x hx, hroots y hy]
  refine ⟨h.forest, fun x hx y hy hjoined => h.mono x hx y hy ((hsame x hx y hy).mp hjoined),
    h.joins, fun E hE hwithin => h.within E hE fun x hx y hy hjoined => ?_⟩
  exact hwithin x hx y hy ((hsame x hx y hy).mpr hjoined)

/-- **One step of a union** joins a node to the tree of `first`, and no others. -/
theorem unionStep_extends {member : α} (hp : Forest nodes p) (hfirst : first ∈ nodes)
    (hmember : member ∈ nodes) (hr : r = root nodes p first) :
    Extends nodes first p (unionStep nodes (r, p) member).2 [member] ∧
      (unionStep nodes (r, p) member).1 =
        root nodes (unionStep nodes (r, p) member).2 first := by
  obtain ⟨hq, hroots⟩ := hp.find hmember
  have hfound : find nodes p member = (root nodes p member, (find nodes p member).2) := rfl
  generalize (find nodes p member).2 = q at hfound hq hroots
  have hfirstRoot : root nodes q first = r := (hroots _ hfirst).trans hr.symm
  have hmemberRoot : root nodes q member = root nodes p member := hroots _ hmember
  obtain ⟨hamem, hafixed, -⟩ := hq.root_spec hfirst
  obtain ⟨hbmem, hbfixed, -⟩ := hq.root_spec hmember
  rw [hfirstRoot] at hamem hafixed
  rw [hmemberRoot] at hbmem hbfixed
  generalize root nodes p member = b at hfound hmemberRoot hbmem hbfixed
  unfold unionStep
  dsimp only
  rw [hfound]
  dsimp only
  split
  · rename_i heq
    refine ⟨.of_roots hroots ⟨hq, fun _ _ _ _ h => h, fun x hx => ?_, fun _ _ h _ => h⟩,
      hfirstRoot.symm⟩
    rw [mem_singleton.mp hx]
    exact hfirstRoot.trans (heq.trans hmemberRoot.symm)
  · rename_i hne
    rcases lt_or_gt_of_ne hne with hlt | hlt
    · rw [min_eq_left hlt.le, max_eq_right hlt.le]
      obtain ⟨hextends, hroot⟩ := hq.link_extends hfirst hmember hamem hlt hafixed hbfixed
        (.inl ⟨hfirstRoot, hmemberRoot⟩)
      exact ⟨.of_roots hroots hextends, hroot.symm⟩
    · rw [min_eq_right hlt.le, max_eq_left hlt.le]
      obtain ⟨hextends, hroot⟩ := hq.link_extends hfirst hmember hbmem hlt hbfixed hafixed
        (.inr ⟨hfirstRoot, hmemberRoot⟩)
      exact ⟨.of_roots hroots hextends, hroot.symm⟩

theorem Extends.trans {joined' : List α} (hfirst : first ∈ nodes)
    (hjoined : ∀ x ∈ joined, x ∈ nodes) (h : Extends nodes first p q joined)
    (h' : Extends nodes first q p' joined') : Extends nodes first p p' (joined ++ joined') := by
  refine ⟨h'.forest, fun x hx y hy hxy => h'.mono x hx y hy (h.mono x hx y hy hxy), ?_, ?_⟩
  · intro x hx
    rcases mem_append.mp hx with hx | hx
    · exact h'.mono first hfirst x (hjoined x hx) (h.joins x hx)
    · exact h'.joins x hx
  · intro E hE hwithin hjoin
    refine h'.within E hE (h.within E hE hwithin fun x hx => ?_) fun x hx => ?_
    · exact hjoin x (mem_append_left _ hx)
    · exact hjoin x (mem_append_right _ hx)

theorem foldl_unionStep_extends (hfirst : first ∈ nodes) (members : List α)
    (hmembers : ∀ x ∈ members, x ∈ nodes) (hp : Forest nodes p) (hr : r = root nodes p first) :
    Extends nodes first p (members.foldl (unionStep nodes) (r, p)).2 members := by
  induction members generalizing p r with
  | nil => exact ⟨hp, fun _ _ _ _ h => h, fun _ hx => (not_mem_nil hx).elim, fun _ _ h _ => h⟩
  | cons member members ih =>
    have hmember := hmembers member mem_cons_self
    obtain ⟨hextends, hroot⟩ := unionStep_extends hp hfirst hmember hr
    have hrest := ih (fun x hx => hmembers x (mem_cons_of_mem _ hx)) hextends.forest hroot
    exact hextends.trans hfirst (fun x hx => (mem_singleton.mp hx) ▸ hmember) hrest

/-! ### Components -/

def Together (lists : List (List α)) (x y : α) : Prop := ∃ l ∈ lists, x ∈ l ∧ y ∈ l

abbrev Connected (lists : List (List α)) : α → α → Prop := Relation.EqvGen (Together lists)

/-- **A union** joins the nodes of a list to each other, and no others. -/
theorem union_spec (hp : Forest nodes p) {l : List α} (hl : ∀ x ∈ l, x ∈ nodes) :
    Forest nodes (union nodes p l) ∧
      (∀ x ∈ nodes, ∀ y ∈ nodes, Joined nodes p x y → Joined nodes (union nodes p l) x y) ∧
      (∀ x ∈ l, ∀ y ∈ l, Joined nodes (union nodes p l) x y) ∧
      ∀ E : α → α → Prop, Equivalence E → Within nodes p E → (∀ x ∈ l, ∀ y ∈ l, E x y) →
        Within nodes (union nodes p l) E := by
  cases l with
  | nil => exact ⟨hp, fun _ _ _ _ h => h, fun _ hx => (not_mem_nil hx).elim, fun _ _ h _ => h⟩
  | cons first rest =>
    have hfirst := hl first mem_cons_self
    cases rest with
    | nil =>
      refine ⟨hp, fun _ _ _ _ h => h, fun x hx y hy => ?_, fun _ _ h _ => h⟩
      rw [mem_singleton.mp hx, mem_singleton.mp hy]
      exact rfl
    | cons second rest =>
      obtain ⟨hq, hroots⟩ := hp.find hfirst
      have hextends := Extends.of_roots hroots (foldl_unionStep_extends hfirst (second :: rest)
        (fun x hx => hl x (mem_cons_of_mem _ hx)) hq
        (hroots _ hfirst).symm)
      have hjoins : ∀ x ∈ first :: second :: rest,
          Joined nodes (union nodes p (first :: second :: rest)) first x := by
        intro x hx
        rcases mem_cons.mp hx with rfl | hx
        · exact rfl
        · exact hextends.joins x hx
      refine ⟨hextends.forest, hextends.mono, fun x hx y hy => ?_, fun E hE hwithin hjoin => ?_⟩
      · exact (hjoins x hx).symm.trans (hjoins y hy)
      · exact hextends.within E hE hwithin fun x hx =>
          hjoin first mem_cons_self x (mem_cons_of_mem _ hx)

def unionAll (nodes : List α) (p : α → α) (lists : List (List α)) : α → α :=
  lists.foldl (union nodes) p

section

variable (lists : List (List α)) (hlists : ∀ l ∈ lists, ∀ x ∈ l, x ∈ nodes)

include hlists

theorem unionAll_forest (hp : Forest nodes p) : Forest nodes (unionAll nodes p lists) := by
  induction lists generalizing p with
  | nil => exact hp
  | cons l lists ih =>
    exact ih (fun l' hl' => hlists l' (mem_cons_of_mem _ hl'))
      (union_spec hp (hlists l mem_cons_self)).1

theorem unionAll_mono
    (hp : Forest nodes p) (hx : x ∈ nodes) (hy : y ∈ nodes) (h : Joined nodes p x y) :
    Joined nodes (unionAll nodes p lists) x y := by
  induction lists generalizing p with
  | nil => exact h
  | cons l lists ih =>
    obtain ⟨hforest, hmono, -, -⟩ := union_spec hp (hlists l mem_cons_self)
    exact ih (fun l' hl' => hlists l' (mem_cons_of_mem _ hl')) hforest (hmono x hx y hy h)

theorem unionAll_joins
    (hp : Forest nodes p) (h : Together lists x y) : Joined nodes (unionAll nodes p lists) x y := by
  induction lists generalizing p with
  | nil =>
    obtain ⟨l, hl, -⟩ := h
    cases hl
  | cons l lists ih =>
    have hrest := fun l' hl' => hlists l' (mem_cons_of_mem l hl')
    obtain ⟨hforest, -, hjoins, -⟩ := union_spec hp (hlists l mem_cons_self)
    obtain ⟨l', hl', hx, hy⟩ := h
    rcases mem_cons.mp hl' with rfl | hl'
    · exact unionAll_mono lists hrest hforest (hlists l' mem_cons_self x hx)
        (hlists l' mem_cons_self y hy) (hjoins x hx y hy)
    · exact ih hrest hforest ⟨l', hl', hx, hy⟩

theorem unionAll_within
    (hp : Forest nodes p) (E : α → α → Prop) (hE : Equivalence E) (hwithin : Within nodes p E)
    (htogether : ∀ x y, Together lists x y → E x y) : Within nodes (unionAll nodes p lists) E := by
  induction lists generalizing p with
  | nil => exact hwithin
  | cons l lists ih =>
    obtain ⟨hforest, -, -, hnext⟩ := union_spec hp (hlists l mem_cons_self)
    refine ih (fun l' hl' => hlists l' (mem_cons_of_mem l hl')) hforest
      (hnext E hE hwithin fun x hx y hy => htogether x y ⟨l, mem_cons_self, hx, hy⟩) ?_
    rintro x y ⟨l', hl', hx, hy⟩
    exact htogether x y ⟨l', mem_cons_of_mem l hl', hx, hy⟩

/-- **Union-find computes the components**: after the unions of some lists, two nodes have one root
if and only if the lists connect them. -/
theorem joined_iff_connected (hx : x ∈ nodes) (hy : y ∈ nodes) :
    Joined nodes (unionAll nodes id lists) x y ↔ Connected lists x y := by
  constructor
  · refine unionAll_within lists hlists (Forest.id nodes) (Connected lists)
      (Relation.EqvGen.is_equivalence _) ?_ (fun a b h => .rel a b h) x hx y hy
    intro a _ b _ hjoined
    unfold Joined at hjoined
    rw [root_of_fixed rfl, root_of_fixed rfl] at hjoined
    rw [hjoined]
    exact .refl b
  · intro hconnected
    clear hx hy
    induction hconnected with
    | rel a b h => exact unionAll_joins lists hlists (Forest.id nodes) h
    | refl a => exact rfl
    | symm a b _ ih => exact ih.symm
    | trans a b c _ _ ihab ihbc => exact ihab.trans ihbc

end

theorem root_eq_of_connected {lists lists' : List (List α)} {nodes' : List α}
    (hlists : ∀ l ∈ lists, ∀ x ∈ l, x ∈ nodes) (hlists' : ∀ l ∈ lists', ∀ x ∈ l, x ∈ nodes')
    (hnodes : ∀ z, z ∈ nodes ↔ z ∈ nodes')
    (hsame : ∀ z w, Connected lists z w ↔ Connected lists' z w) (hx : x ∈ nodes) :
    root nodes (unionAll nodes id lists) x = root nodes' (unionAll nodes' id lists') x := by
  have hp := unionAll_forest lists hlists (Forest.id nodes)
  have hp' := unionAll_forest lists' hlists' (Forest.id nodes')
  have hx' := (hnodes x).mp hx
  obtain ⟨hrmem, -, -⟩ := hp.root_spec hx
  obtain ⟨hrmem', -, -⟩ := hp'.root_spec hx'
  -- each root is connected to the other, and not above what it is connected to
  have hleft : Connected lists (root nodes (unionAll nodes id lists) x) x :=
    (joined_iff_connected lists hlists hrmem hx).mp (hp.root_root hx)
  have hright : Connected lists' (root nodes' (unionAll nodes' id lists') x) x :=
    (joined_iff_connected lists' hlists' hrmem' hx').mp (hp'.root_root hx')
  refine le_antisymm ?_ ?_
  · have hmem := (hnodes _).mpr hrmem'
    have hjoined := (joined_iff_connected lists hlists hmem hx).mpr ((hsame _ _).mpr hright)
    rw [← hjoined]
    exact (hp.root_spec hmem).2.2
  · have hmem := (hnodes _).mp hrmem
    have hjoined := (joined_iff_connected lists' hlists' hmem hx').mpr ((hsame _ _).mp hleft)
    rw [← hjoined]
    exact (hp'.root_spec hmem).2.2

end AgenticKibana.Library.UnionFind
