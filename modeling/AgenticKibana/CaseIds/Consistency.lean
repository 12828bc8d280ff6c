import AgenticKibana.CaseIds.NumberPatterns

/-!
# When the numbers of a template are consistent

A template renders consistently exactly if its format specs are ones that `format` knows and, where
it has a pattern, its whitespace is that of the pattern.  Two renderings show that no less will do:
one of a long number with no source and no verdict, one of the number zero with both.
-/

namespace AgenticKibana.CaseIds

open AgenticKibana.Library.Spacing List
open AgenticKibana.Library.TextLines

section Runs

variable {digit : Char → Option Nat} {numberPrefix : Text} {ctx : Context} {n m : Nat} {s : Text}
  {ps : List Piece}

theorem exists_renderPieces (h : ∀ p ∈ ps, ∃ a, renderPiece digit numberPrefix ctx n p = some a) :
    ∃ s, renderPieces digit numberPrefix ctx n ps = some s := by
  induction ps with
  | nil => exact ⟨[], rfl⟩
  | cons p ps ih =>
    rw [forall_mem_cons] at h
    obtain ⟨a, ha⟩ := h.1
    obtain ⟨b, hb⟩ := ih h.2
    exact ⟨a ++ b, renderPieces_cons.mpr ⟨a, b, ha, hb, rfl⟩⟩

variable {p : Piece} {a : Text}

theorem renderPiece_of_renderPieces (h : renderPieces digit numberPrefix ctx n ps = some s)
    (hp : p ∈ ps) :
    ∃ a, renderPiece digit numberPrefix ctx n p = some a ∧ ∀ c ∈ a, c ∈ s := by
  induction ps generalizing s with
  | nil => exact absurd hp not_mem_nil
  | cons q ps ih =>
    obtain ⟨a, b, ha, hb, rfl⟩ := renderPieces_cons.mp h
    rcases mem_cons.mp hp with rfl | hmem
    · exact ⟨a, ha, fun c hc => mem_append_left b hc⟩
    · obtain ⟨x, hx, hin⟩ := ih hb hmem
      exact ⟨x, hx, fun c hc => mem_append_right a (hin c hc)⟩

theorem renderPiece_of_formattable (hok : pieceError digit p = none)
    (h : p.Formattable digit) : ∃ a, renderPiece digit numberPrefix ctx n p = some a := by
  cases p with
  | text t => exact ⟨t, rfl⟩
  | token name spec =>
    cases hp : placeholder name with
    | none => simp [pieceError, hp] at hok
    | some q =>
      simp only [renderPiece, hp]
      cases spec with
      | none => cases q <;> exact ⟨_, rfl⟩
      | some spec =>
        cases q with
        | seq => exact ⟨_, formatInt_eq_some.mpr ⟨h.2, h.1, rfl⟩⟩
        | prefixText | sep | year | yy | mm | dd | source | verdict => exact ⟨_, rfl⟩

theorem formattable_of_renderPiece (hok : pieceError digit p = none)
    (h : renderPiece digit numberPrefix ctx n p = some a) : p.Formattable digit := by
  cases p with
  | text t => trivial
  | token name spec =>
    cases spec with
    | none => trivial
    | some spec =>
      cases hp : placeholder name with
      | none => simp [pieceError, hp] at hok
      | some q =>
        by_cases hq : q = .seq
        · subst hq
          simp only [renderPiece, hp] at h
          obtain ⟨hwidth, htail, -⟩ := formatInt_eq_some.mp h
          exact ⟨htail, hwidth⟩
        · simp [pieceError, hp, hq] at hok

/-- **Where the whitespace is apart and the padding absorbed, the pattern matches.** -/
theorem matches_of_apart {fold : Char → Char} (hok : ∀ p ∈ ps, pieceError digit p = none)
    (h : renderPieces digit numberPrefix ctx n ps = some s) (opened may must : Bool)
    (hmust : must = true → opened = true) (hmay : opened = true → may = true)
    (hapart : Apart may (ps.map (shape digit numberPrefix)))
    (habsorbed : Absorbed must (ps.map (shape digit numberPrefix))) :
    Matches fold (ps.flatMap (pieceItems numberPrefix)) (squeeze opened s) ∧
      openAfter opened s = false := by
  induction ps generalizing s opened may must with
  | nil =>
    cases h
    have hclosed : may = false := hapart
    refine ⟨rfl, ?_⟩
    cases opened with
    | false => rfl
    | true => exact absurd (hmay rfl) (by simp [hclosed])
  | cons p ps ih =>
    rw [forall_mem_cons] at hok
    obtain ⟨a, b, ha, hb, rfl⟩ := renderPieces_cons.mp h
    have hrendered := rendered_of_renderPiece hok.1 ha
    rw [flatMap_cons, squeeze_append, openAfter_append]
    simp only [map_cons] at hapart habsorbed
    generalize shape digit numberPrefix p = sh at hrendered hapart habsorbed
    generalize pieceItems numberPrefix p = items at hrendered
    cases hrendered with
    | fixed =>
      have hfirst : (opened && spaceFirst a) = false := by
        cases ho : opened with
        | false => rfl
        | true => simpa [hmay ho] using hapart.1
      obtain ⟨hmatch, hclosed⟩ := ih hok.2 hb (openAfter opened a) (openAfter may a)
        (openAfter must a) (by cases a with | nil => exact hmust | cons c a => exact id)
        (by cases a with | nil => exact hmay | cons c a => exact id) hapart.2 habsorbed
      rw [squeeze_of_apart hfirst]
      exact ⟨matches_append (matches_literals _) hmatch, hclosed⟩
    | solid hfits hsolid hne =>
      rw [squeeze_solid hsolid, openAfter_solid hsolid hne]
      obtain ⟨hmatch, hclosed⟩ := ih hok.2 hb false false false (by simp) (by simp) hapart habsorbed
      exact ⟨matches_append (matches_fits hfits) hmatch, hclosed⟩
    | @optional q i hq hi =>
      have hfits := value_fits numberPrefix ctx (by rcases hq with rfl | rfl <;> decide) hi
      have hsolid := solid_of_fits hi hfits
      have hopen : openAfter opened (value numberPrefix ctx q) = true → may = true := by
        cases hv : value numberPrefix ctx q with
        | nil => exact hmay
        | cons c v => simp [← hv, openAfter_solid hsolid (by simp [hv])]
      rw [squeeze_solid hsolid]
      obtain ⟨hmatch, hclosed⟩ := ih hok.2 hb _ may false (by simp) hopen hapart habsorbed
      exact ⟨matches_append (matches_fits hfits) hmatch, hclosed⟩
    | padded hfits hsolid hne =>
      have hopen : opened = true := hmust habsorbed.1
      rw [squeeze_append, openAfter_append, squeeze_blanks, if_pos (.inl hopen),
        nil_append, squeeze_solid hsolid, openAfter_solid hsolid hne]
      obtain ⟨hmatch, hclosed⟩ :=
        ih hok.2 hb false false false (by simp) (by simp) hapart habsorbed.2
      exact ⟨matches_append (matches_fits hfits) hmatch, hclosed⟩

/-- A number long enough for every width, with no source and no verdict, has the spaces of the
pattern only if the whitespace is apart. -/
theorem apart_of_spaces (hok : ∀ p ∈ ps, pieceError digit p = none)
    (h : renderPieces digit numberPrefix ctx n ps = some s)
    (hlong : ∀ p ∈ ps, p.width digit ≤ (Nat.toDigits 10 n).length)
    (hbare : ∀ q : Placeholder, q = .source ∨ q = .verdict → value numberPrefix ctx q = [])
    (opened : Bool) :
    spaces (squeeze opened s) ≤ blanks (ps.flatMap (pieceItems numberPrefix)) ∧
      (spaces (squeeze opened s) = blanks (ps.flatMap (pieceItems numberPrefix)) →
        openAfter opened s = false → Apart opened (ps.map (shape digit numberPrefix))) := by
  induction ps generalizing s opened with
  | nil =>
    cases h
    exact ⟨le_rfl, fun _ hclosed => hclosed⟩
  | cons p ps ih =>
    rw [forall_mem_cons] at hok hlong
    obtain ⟨a, b, ha, hb, rfl⟩ := renderPieces_cons.mp h
    have hrendered := rendered_of_renderPiece hok.1 ha
    have hmissing : p.width digit - (Nat.toDigits 10 n).length = 0 := Nat.sub_eq_zero_of_le hlong.1
    rw [hmissing] at hrendered
    simp only [flatMap_cons, squeeze_append, openAfter_append, spaces_append, blanks_append,
      map_cons]
    have hrest := ih hok.2 hb hlong.2
    generalize shape digit numberPrefix p = sh at hrendered
    generalize pieceItems numberPrefix p = items at hrendered
    cases hrendered with
    | fixed =>
      have hcount := spaces_collapse opened a
      rw [← blanks_literal] at hcount
      obtain ⟨hle, heq⟩ := hrest (openAfter opened a)
      refine ⟨by omega, fun hspaces hclosed => ⟨?_, heq (by omega) hclosed⟩⟩
      cases hfirst : opened && spaceFirst a with
      | false => rfl
      | true =>
        simp only [hfirst, Bool.toNat_true] at hcount
        omega
    | solid hfits hsolid hne =>
      rw [squeeze_solid hsolid, openAfter_solid hsolid hne, spaces_solid hsolid]
      obtain ⟨hle, heq⟩ := hrest false
      exact ⟨by omega, fun hspaces hclosed => heq (by omega) hclosed⟩
    | @optional q i hq hi =>
      have hnil := hbare q hq
      obtain ⟨hle, heq⟩ := hrest opened
      have hnone : spaces (squeeze opened (value numberPrefix ctx q)) = 0 := by
        rw [hnil]
        rfl
      rw [show openAfter opened (value numberPrefix ctx q) = opened by rw [hnil]; rfl]
      exact ⟨by omega, fun hspaces hclosed => heq (by omega) hclosed⟩
    | padded hfits hsolid hne =>
      rw [replicate_zero, nil_append, squeeze_solid hsolid,
        openAfter_solid hsolid hne, spaces_solid hsolid]
      obtain ⟨hle, heq⟩ := hrest false
      exact ⟨by omega, fun hspaces hclosed => heq (by omega) hclosed⟩

theorem blanks_of_fits {i : Item} (h : Fits i a) : blanks [i] = 0 := by
  cases i with
  | literal c => exact absurd h id
  | run chars least most => rfl

theorem missing_of_padded (h : shape digit numberPrefix p = .padded) :
    p.width digit - (Nat.toDigits 10 0).length ≠ 0 := by
  cases p with
  | text t => exact absurd h (by simp [shape])
  | token name spec =>
    simp only [shape] at h
    cases hp : placeholder name with
    | none => simp [hp] at h
    | some q =>
      cases q with
      | prefixText | sep | year | yy | mm | dd | source | verdict => simp [hp] at h
      | seq =>
        cases spec with
        | none => simp [hp, seqShape] at h
        | some spec =>
          by_cases hpadded : (specFill spec.tail).1 = ' ' ∧ 2 ≤ specWidth digit spec.tail
          · simp [Piece.width]
            omega
          · simp [hp, seqShape, hpadded] at h

/-- The number zero, with a source and a verdict, has no more spaces than the pattern only if the
padding is absorbed. -/
theorem absorbed_of_spaces (hok : ∀ p ∈ ps, pieceError digit p = none)
    (h : renderPieces digit numberPrefix ctx 0 ps = some s)
    (hfull : ∀ q : Placeholder, q = .source ∨ q = .verdict → value numberPrefix ctx q ≠ [])
    (opened may : Bool) (hmay : opened = true → may = true)
    (hapart : Apart may (ps.map (shape digit numberPrefix))) :
    openAfter opened s = false ∧
      blanks (ps.flatMap (pieceItems numberPrefix)) ≤ spaces (squeeze opened s) ∧
      (spaces (squeeze opened s) = blanks (ps.flatMap (pieceItems numberPrefix)) →
        Absorbed opened (ps.map (shape digit numberPrefix))) := by
  induction ps generalizing s opened may with
  | nil =>
    cases h
    have hclosed : may = false := hapart
    refine ⟨?_, le_rfl, fun _ => trivial⟩
    cases opened with
    | false => rfl
    | true => exact absurd (hmay rfl) (by simp [hclosed])
  | cons p ps ih =>
    rw [forall_mem_cons] at hok
    obtain ⟨a, b, ha, hb, rfl⟩ := renderPieces_cons.mp h
    have hrendered := rendered_of_renderPiece hok.1 ha
    have hpadded : shape digit numberPrefix p = .padded →
        p.width digit - (Nat.toDigits 10 0).length ≠ 0 := missing_of_padded
    simp only [flatMap_cons, squeeze_append, openAfter_append, spaces_append, blanks_append,
      map_cons] at hapart ⊢
    have hrest := ih hok.2 hb
    generalize shape digit numberPrefix p = sh at hrendered hapart hpadded
    generalize pieceItems numberPrefix p = items at hrendered
    generalize p.width digit - (Nat.toDigits 10 0).length = missing at hrendered hpadded
    cases hrendered with
    | fixed =>
      have hfirst : (opened && spaceFirst a) = false := by
        cases ho : opened with
        | false => rfl
        | true => simpa [hmay ho] using hapart.1
      obtain ⟨hclosed, hle, heq⟩ := hrest (openAfter opened a) (openAfter may a)
        (by cases a with | nil => exact hmay | cons c a => exact id) hapart.2
      rw [squeeze_of_apart hfirst, blanks_literal]
      exact ⟨hclosed, by omega, fun hspaces => heq (by omega)⟩
    | solid hfits hsolid hne =>
      rw [squeeze_solid hsolid, openAfter_solid hsolid hne, spaces_solid hsolid,
        blanks_of_fits hfits]
      obtain ⟨hclosed, hle, heq⟩ := hrest false false id hapart
      exact ⟨hclosed, by omega, fun hspaces => heq (by omega)⟩
    | @optional q i hq hi =>
      have hfits := value_fits numberPrefix ctx (by rcases hq with rfl | rfl <;> decide) hi
      have hsolid := solid_of_fits hi hfits
      rw [squeeze_solid hsolid, openAfter_solid hsolid (hfull q hq), spaces_solid hsolid,
        blanks_of_fits hfits]
      obtain ⟨hclosed, hle, heq⟩ := hrest false may (by simp) hapart
      exact ⟨hclosed, by omega, fun hspaces => heq (by omega)⟩
    | padded hfits hsolid hne =>
      rw [squeeze_append, openAfter_append, squeeze_blanks, squeeze_solid hsolid,
        openAfter_solid hsolid hne, spaces_append, spaces_solid hsolid, blanks_of_fits hfits]
      obtain ⟨hclosed, hle, heq⟩ := hrest false false id hapart
      refine ⟨hclosed, by omega, fun hspaces => ?_⟩
      cases opened with
      | true => exact ⟨rfl, heq (by simpa using hspaces)⟩
      | false =>
        have hone : spaces (if false = true ∨ missing = 0 then [] else [' ']) = 1 := by
          simp [hpadded rfl, spaces]
        omega

variable {b : Text} {ctx' : Context}

/-- A placeholder takes no more room in the second of two numbers. -/
def NoWider (numberPrefix : Text) (ctx ctx' : Context) (n m : Nat) (q : Placeholder) : Prop :=
  if q = .seq then n ≤ m
  else (value numberPrefix ctx q).length ≤ (value numberPrefix ctx' q).length

theorem length_renderPiece_le (hle : ∀ q ∈ p.placeholder, NoWider numberPrefix ctx ctx' n m q)
    (ha : renderPiece digit numberPrefix ctx n p = some a)
    (hb : renderPiece digit numberPrefix ctx' m p = some b) : a.length ≤ b.length := by
  cases p with
  | text t =>
    cases ha
    cases hb
    exact le_rfl
  | token name spec =>
    simp only [renderPiece] at ha hb
    cases hp : placeholder name with
    | none =>
      simp only [hp] at ha hb
      cases ha
      cases hb
      exact le_rfl
    | some q =>
      have hle := hle q hp
      simp only [hp] at ha hb
      cases q with
      | prefixText | sep | year | yy | mm | dd | source | verdict =>
        cases ha
        cases hb
        exact hle
      | seq =>
        have hlength := length_toDigits_mono hle
        cases spec with
        | none =>
          cases ha
          cases hb
          exact hlength
        | some spec =>
          obtain ⟨-, -, rfl⟩ := formatInt_eq_some.mp ha
          obtain ⟨-, -, rfl⟩ := formatInt_eq_some.mp hb
          simp only [length_leftpad]
          omega

theorem length_renderPieces_le
    (hle : ∀ p ∈ ps, ∀ q ∈ p.placeholder, NoWider numberPrefix ctx ctx' n m q)
    (ha : renderPieces digit numberPrefix ctx n ps = some a)
    (hb : renderPieces digit numberPrefix ctx' m ps = some b) : a.length ≤ b.length := by
  induction ps generalizing a b with
  | nil =>
    cases ha
    cases hb
    exact le_rfl
  | cons p ps ih =>
    rw [forall_mem_cons] at hle
    obtain ⟨x, x', hx, hx', rfl⟩ := renderPieces_cons.mp ha
    obtain ⟨y, y', hy, hy', rfl⟩ := renderPieces_cons.mp hb
    have hfirst := length_renderPiece_le hle.1 hx hy
    have hrest := ih hle.2 hx' hy'
    simp only [length_append]
    omega

theorem renderPiece_eq (hle : ∀ p ∈ ps, ∀ q ∈ p.placeholder, NoWider numberPrefix ctx ctx' n m q)
    (hn : renderPieces digit numberPrefix ctx n ps = some s)
    (hm : renderPieces digit numberPrefix ctx' m ps = some s) (hp : p ∈ ps) :
    renderPiece digit numberPrefix ctx n p = renderPiece digit numberPrefix ctx' m p := by
  induction ps generalizing s with
  | nil => exact absurd hp not_mem_nil
  | cons q ps ih =>
    rw [forall_mem_cons] at hle
    obtain ⟨x, x', hx, hx', rfl⟩ := renderPieces_cons.mp hn
    obtain ⟨y, y', hy, hy', heq⟩ := renderPieces_cons.mp hm
    have hfirst := length_renderPiece_le hle.1 hx hy
    have hrest := length_renderPieces_le hle.2 hx' hy'
    have htotal := congrArg List.length heq
    simp only [length_append] at htotal
    obtain ⟨rfl, rfl⟩ := append_inj heq (by omega)
    rcases mem_cons.mp hp with rfl | hmem
    · rw [hx, hy]
    · exact ih hle.2 hx' hy' hmem

variable {name : Text} {spec : Option Text}

theorem eq_of_renderPiece (hseq : placeholder name = some .seq)
    (hn : renderPiece digit numberPrefix ctx n (.token name spec) = some a)
    (hm : renderPiece digit numberPrefix ctx' m (.token name spec) = some a) : n = m := by
  simp only [renderPiece, hseq] at hn hm
  cases spec with
  | none =>
    rw [← Option.some.inj hm] at hn
    rw [← @Nat.ofDigitChars_ten_toDigits n, Option.some.inj hn, Nat.ofDigitChars_ten_toDigits]
  | some spec =>
    obtain ⟨-, -, hn⟩ := formatInt_eq_some.mp hn
    obtain ⟨-, -, hm⟩ := formatInt_eq_some.mp hm
    exact leftpad_injective _ (specFill_cases _) (hn.symm.trans hm)

/-- The placeholders of some pieces take as much room in both of two numbers. -/
def SameRoom (numberPrefix : Text) (ctx ctx' : Context) (ps : List Piece) : Prop :=
  ∀ p ∈ ps, ∀ q ∈ p.placeholder, q ≠ .seq →
    (value numberPrefix ctx q).length = (value numberPrefix ctx' q).length

/-- **Two sequence numbers of one period render differently.** -/
theorem eq_of_renderPieces (hroom : SameRoom numberPrefix ctx ctx' ps)
    (hn : renderPieces digit numberPrefix ctx n ps = some s)
    (hm : renderPieces digit numberPrefix ctx' m ps = some s) (hp : .token name spec ∈ ps)
    (hseq : placeholder name = some .seq) : n = m := by
  obtain ⟨a, ha, -⟩ := renderPiece_of_renderPieces hn hp
  have hsame : renderPiece digit numberPrefix ctx n (.token name spec) =
      renderPiece digit numberPrefix ctx' m (.token name spec) := by
    rcases Nat.le_total n m with hle | hle
    · refine renderPiece_eq (fun p hp q hq => ?_) hn hm hp
      unfold NoWider
      split
      · exact hle
      · next hother => exact (hroom p hp q hq hother).le
    · refine (renderPiece_eq (fun p hp q hq => ?_) hm hn hp).symm
      unfold NoWider
      split
      · exact hle
      · next hother => exact (hroom p hp q hq hother).ge
  exact eq_of_renderPiece hseq ha (hsame ▸ ha)

end Runs

/-! ### Consistent templates -/

section Templates

variable {digit : Char → Option Nat} {numberPrefix template : Text} {fold : Char → Char}

def WellSpaced (digit : Char → Option Nat) (numberPrefix template : Text) : Prop :=
  Apart true ((pieces template).map (shape digit numberPrefix)) ∧
    Absorbed true ((pieces template).map (shape digit numberPrefix))

theorem pieceError_of_valid (h : validateTemplate digit template = none) :
    ∀ p ∈ pieces template, pieceError digit p = none := by
  unfold validateTemplate at h
  split at h
  · exact absurd h (by simp)
  split at h
  · exact absurd h (by simp)
  split at h
  · exact absurd h (by simp)
  · exact findSome?_eq_none_iff.mp h

theorem render_of_valid (h : validateTemplate digit template = none) (ctx : Context) (seq : Nat) :
    render digit template numberPrefix ctx seq =
      renderPieces digit numberPrefix ctx seq (pieces template) := by
  rw [render, h]

theorem exists_long (digit : Char → Option Nat) (ps : List Piece) :
    ∃ n, ∀ p ∈ ps, p.width digit ≤ (Nat.toDigits 10 n).length := by
  have hwide : ∃ w, ∀ p ∈ ps, p.width digit ≤ w := by
    induction ps with
    | nil => exact ⟨0, by simp⟩
    | cons p ps ih =>
      obtain ⟨w, hw⟩ := ih
      refine ⟨max (p.width digit) w, ?_⟩
      rw [forall_mem_cons]
      exact ⟨le_max_left _ _, fun q hq => (hw q hq).trans (le_max_right _ _)⟩
  obtain ⟨w, hw⟩ := hwide
  refine ⟨10 ^ (w + 1), fun p hp => (hw p hp).trans ?_⟩
  have hlength : ¬ (Nat.toDigits 10 (10 ^ (w + 1))).length ≤ w + 1 := by
    rw [Nat.length_toDigits_le_iff (by decide) (by omega)]
    exact lt_irrefl _
  omega

theorem exists_solid {ctx : Context} {n : Nat} {s : Text}
    (h : validateTemplate digit template = none)
    (hdigits : (pieces template).any Piece.rendersDigits = true)
    (hs : renderPieces digit numberPrefix ctx n (pieces template) = some s) :
    ∃ c ∈ s, isSpace c = false := by
  obtain ⟨p, hp, hrenders⟩ := any_eq_true.mp hdigits
  obtain ⟨a, ha, hin⟩ := renderPiece_of_renderPieces hs hp
  have hrendered := rendered_of_renderPiece (pieceError_of_valid h p hp) ha
  have hshape : shape digit numberPrefix p = .solid ∨ shape digit numberPrefix p = .padded := by
    cases p with
    | text t => exact absurd hrenders (by simp [Piece.rendersDigits])
    | token name spec =>
      obtain ⟨q, hq, hname⟩ := any_eq_true.mp hrenders
      have hplace : placeholder name = some q := by
        rw [← beq_iff_eq.mp hname]
        simp only [digitPlaceholders, mem_cons, not_mem_nil, or_false] at hq
        rcases hq with rfl | rfl | rfl | rfl | rfl <;> decide
      simp only [shape, hplace]
      simp only [digitPlaceholders, mem_cons, not_mem_nil, or_false] at hq
      rcases hq with rfl | rfl | rfl | rfl | rfl
      · cases spec with
        | none => exact .inl rfl
        | some spec =>
          simp only [seqShape]
          split <;> simp
      all_goals exact .inl rfl
  generalize shape digit numberPrefix p = sh at hrendered hshape
  generalize pieceItems numberPrefix p = items at hrendered
  cases hrendered with
  | fixed | optional => exact absurd hshape (by simp)
  | solid hfits hsolid hne =>
    obtain ⟨c, hc⟩ := exists_mem_of_ne_nil _ hne
    exact ⟨c, hin c hc, hsolid c hc⟩
  | padded hfits hsolid hne =>
    obtain ⟨c, hc⟩ := exists_mem_of_ne_nil _ hne
    exact ⟨c, hin c (mem_append_right _ hc), hsolid c hc⟩

def someDay : Created := ⟨2026, 3, 7, by decide, by decide, by decide, by decide⟩

def bareContext : Context := ⟨[], none, someDay⟩

def fullContext : Context := ⟨['a'], some .truePositive, someDay⟩

theorem full_value {q : Placeholder} (hq : q = .source ∨ q = .verdict) :
    value numberPrefix fullContext q ≠ [] := by
  rcases hq with rfl | rfl
  · change slug ['a'] ≠ []
    decide
  · change verdictText (some .truePositive) ≠ []
    decide

theorem wellSpaced_of_consistent (hfold : ∀ c, fold c = fold ' ' → c = ' ')
    (h : validateTemplate digit template = none)
    (hconsistent : Consistent digit numberPrefix fold template)
    (hdigits : (pieces template).any Piece.rendersDigits = true) :
    WellSpaced digit numberPrefix template := by
  have hok := pieceError_of_valid h
  have hpattern : numberPattern digit template numberPrefix =
      some ((pieces template).flatMap (pieceItems numberPrefix)) := by
    simp [numberPattern, h, hdigits]
  -- every rendering has the spaces of the pattern
  have hspaces : ∀ ctx n, ∃ s, renderPieces digit numberPrefix ctx n (pieces template) = some s ∧
      spaces (normalise s) = blanks ((pieces template).flatMap (pieceItems numberPrefix)) ∧
      ∃ c ∈ s, isSpace c = false := by
    intro ctx n
    obtain ⟨s, hs, hmatch, -⟩ := hconsistent ctx n
    rw [render_of_valid h] at hs
    refine ⟨s, hs, spaces_of_matches hfold ?_ (hmatch _ hpattern), exists_solid h hdigits hs⟩
    intro i hi
    obtain ⟨p, -, hp⟩ := mem_flatMap.mp hi
    exact spaceless_pieceItems i hp
  obtain ⟨n, hlong⟩ := exists_long digit (pieces template)
  obtain ⟨s, hs, hcount, hsolid⟩ := hspaces bareContext n
  obtain ⟨hle, hapart⟩ := apart_of_spaces hok hs hlong (by rintro q (rfl | rfl) <;> rfl) true
  have hends := spaces_normalise hsolid
  have hclosed : openAfter true s = false := by
    cases hopen : openAfter true s with
    | false => rfl
    | true =>
      simp only [hopen, Bool.toNat_true] at hends
      omega
  have hbare := hapart (by omega) hclosed
  obtain ⟨s', hs', hcount', -⟩ := hspaces fullContext 0
  obtain ⟨hclosed', -, habsorbed⟩ := absorbed_of_spaces hok hs'
    (fun q hq => full_value hq) true true id hbare
  exact ⟨hbare, habsorbed (by rw [← normalise_of_closed hclosed', hcount'])⟩

/-- **The numbers of an accepted template are rendered, matched and told apart exactly if `format`
knows its format specs and, where it has a pattern, its whitespace is that of the pattern.** -/
theorem consistent_iff (hfold : ∀ c, fold c = fold ' ' → c = ' ')
    (h : validateTemplate digit template = none) :
    Consistent digit numberPrefix fold template ↔
      (∀ p ∈ pieces template, p.Formattable digit) ∧
        ((pieces template).any Piece.rendersDigits = true →
          WellSpaced digit numberPrefix template) := by
  have hok := pieceError_of_valid h
  constructor
  · intro hconsistent
    refine ⟨fun p hp => ?_, wellSpaced_of_consistent hfold h hconsistent⟩
    obtain ⟨s, hs, -⟩ := hconsistent bareContext 0
    rw [render_of_valid h] at hs
    obtain ⟨a, ha, -⟩ := renderPiece_of_renderPieces hs hp
    exact formattable_of_renderPiece (hok p hp) ha
  · rintro ⟨hformat, hspaced⟩ ctx seq
    have hrenders : ∃ s, renderPieces digit numberPrefix ctx seq (pieces template) = some s :=
      exists_renderPieces fun p hp => renderPiece_of_formattable (hok p hp) (hformat p hp)
    obtain ⟨s, hs⟩ := hrenders
    refine ⟨s, (render_of_valid h ctx seq).trans hs, fun items hitems => ?_, ?_⟩
    · have hdigits : (pieces template).any Piece.rendersDigits = true := by
        by_contra hno
        simp [numberPattern, h, hno] at hitems
      have hpattern : (pieces template).flatMap (pieceItems numberPrefix) = items := by
        simpa [numberPattern, h, hdigits] using hitems
      obtain ⟨hapart, habsorbed⟩ := hspaced hdigits
      have hmatches : Matches fold _ (squeeze true s) ∧ openAfter true s = false :=
        matches_of_apart hok hs true true true id id hapart habsorbed
      obtain ⟨hmatch, hclosed⟩ := hmatches
      rw [← hpattern, normalise_of_closed hclosed]
      exact hmatch
    · rintro ⟨name, spec, hmem, hseq⟩ other hne hother
      rw [render_of_valid h] at hother
      exact hne (eq_of_renderPieces (fun _ _ _ _ _ => rfl) hother hs hmem hseq)

end Templates

def asciiDigit (c : Char) : Option Nat := if c.isDigit then some (c.toNat - '0'.toNat) else none

theorem toLower_blank (c : Char) (h : c.toLower = ' '.toLower) : c = ' ' := by
  unfold Char.toLower at h
  split at h
  · next hupper =>
      have hval := congrArg (fun d : Char => d.val.toNat) h
      have hlow : 65 ≤ c.val.toNat := UInt32.le_iff_toNat_le.mp hupper.1
      have hhigh : c.val.toNat ≤ 90 := UInt32.le_iff_toNat_le.mp hupper.2
      have hsum : (c.val.toNat + 32) % 2 ^ 32 = 32 := hval
      omega
  · exact h

/-- `CaseIdFormatConfig.template`. -/
def defaultTemplate : Text := "CASE-\x7bseq:06d\x7d".toList

theorem defaultTemplate_consistent :
    Consistent asciiDigit "CASE".toList Char.toLower defaultTemplate := by
  have hvalid : validateTemplate asciiDigit defaultTemplate = none := by decide
  apply (consistent_iff toLower_blank hvalid).mpr
  have hpieces : pieces defaultTemplate =
      [.text "CASE-".toList, .token "seq".toList (some ":06d".toList), .text []] := by rfl
  rw [WellSpaced, hpieces]
  refine ⟨?_, fun _ => ⟨⟨rfl, rfl, rfl⟩, trivial⟩⟩
  intro p hp
  simp only [mem_cons, not_mem_nil, or_false] at hp
  rcases hp with rfl | rfl | rfl
  · trivial
  · exact ⟨by decide, by decide⟩
  · trivial

def sourceTemplate : Text := "INC \x7bsource\x7d \x7bseq:04d\x7d".toList

/-- **A case without a source gets a number that the pattern does not match.** -/
theorem sourceTemplate_unmatched : validateTemplate asciiDigit sourceTemplate = none ∧
    ¬ Consistent asciiDigit "CASE".toList Char.toLower sourceTemplate := by
  have hvalid : validateTemplate asciiDigit sourceTemplate = none := by decide
  refine ⟨hvalid, fun hconsistent => ?_⟩
  have hspaced := wellSpaced_of_consistent toLower_blank hvalid hconsistent (by decide)
  have hblank : (true && spaceFirst [' ']) = false := hspaced.1.2.1
  exact absurd hblank (by decide)

end AgenticKibana.CaseIds
