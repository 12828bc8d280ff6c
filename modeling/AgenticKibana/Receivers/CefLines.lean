import AgenticKibana.Receivers.Cef

/-!
# Where a line is cut

The line of an event is cut at the bars that are not escaped, and its extension where white
space and the next key begin: an escaped text holds no bar and no `=` without a backslash
before it.
-/

namespace AgenticKibana.Receivers

open AgenticKibana.Library List
open AgenticKibana.Library.TextLines

theorem escapeChar_cases (special c : Char) :
    (∃ x, escapeChar special c = ['\\', x] ∧ (x = '\\' ∨ x = special ∨ x = 'n' ∨ x = 'r')) ∨
      escapeChar special c = [c] ∧ c ≠ '\\' ∧ c ≠ special ∧ c ≠ '\n' ∧ c ≠ '\r' := by
  unfold escapeChar
  split
  · left
    exact ⟨'\\', rfl, .inl rfl⟩
  split
  · left
    exact ⟨special, rfl, .inr (.inl rfl)⟩
  split
  · left
    exact ⟨'n', rfl, .inr (.inr (.inl rfl))⟩
  split
  · left
    exact ⟨'r', rfl, .inr (.inr (.inr rfl))⟩
  · right
    exact ⟨rfl, by assumption, by assumption, by assumption, by assumption⟩

theorem splitFrom_cons {sep c : Char} (hc : c ≠ '\\') (left : Nat) (buf rest : Text) :
    splitFrom sep left buf (c :: rest) =
      if c = sep ∧ 0 < left then buf :: splitFrom sep (left - 1) [] rest
      else splitFrom sep left (buf ++ [c]) rest := by
  rw [splitFrom]
  intro x xs h
  exact absurd h hc

theorem splitFrom_escape (left : Nat) (buf field rest : Text) :
    splitFrom '|' left buf (escape '|' field ++ rest) =
      splitFrom '|' left (buf ++ escape '|' field) rest := by
  induction field generalizing buf with
  | nil =>
    rw [show escape '|' [] = [] from rfl, append_nil]
    rfl
  | cons c field ih =>
    rw [escape_cons]
    rcases escapeChar_cases '|' c with ⟨x, hx, -⟩ | ⟨hx, hslash, hbar, -⟩
    · rw [hx]
      change splitFrom '|' left buf ('\\' :: x :: (escape '|' field ++ rest)) = _
      rw [splitFrom, ih, append_assoc]
    · rw [hx]
      change splitFrom '|' left buf (c :: (escape '|' field ++ rest)) = _
      rw [splitFrom_cons hslash, if_neg fun h => hbar h.1, ih, append_assoc]

theorem splitFrom_zero (sep : Char) (buf text : Text) :
    splitFrom sep 0 buf text = [buf ++ text] := by
  induction text using List.twoStepInduction generalizing buf with
  | nil => rw [splitFrom, append_nil]
  | singleton c =>
    by_cases hc : c = '\\'
    · subst hc
      rw [splitFrom, if_neg fun h => Nat.lt_irrefl _ h.2, splitFrom]
      intro x xs _ h
      cases h
    · rw [splitFrom_cons hc, if_neg fun h => Nat.lt_irrefl _ h.2, splitFrom]
  | cons_cons c x rest ih ih' =>
    by_cases hc : c = '\\'
    · subst hc
      rw [splitFrom, ih, append_assoc]
      rfl
    · rw [splitFrom_cons hc, if_neg fun h => Nat.lt_irrefl _ h.2, ih', append_assoc]
      rfl

theorem splitFrom_fields (fields : List Text) (buf extension : Text) :
    splitFrom '|' fields.length buf
        ((fields.flatMap fun field => escape '|' field ++ ['|']) ++ extension) =
      match fields with
      | [] => [buf ++ extension]
      | field :: fields =>
        (buf ++ escape '|' field) :: fields.map (escape '|') ++ [extension] := by
  induction fields generalizing buf with
  | nil => exact splitFrom_zero _ _ _
  | cons field fields ih =>
    have hbar : splitFrom '|' (fields.length + 1) (buf ++ escape '|' field)
        ('|' :: ((fields.flatMap fun field => escape '|' field ++ ['|']) ++ extension)) =
          (buf ++ escape '|' field) :: splitFrom '|' fields.length []
            ((fields.flatMap fun field => escape '|' field ++ ['|']) ++ extension) := by
      rw [splitFrom_cons (by decide), if_pos ⟨rfl, Nat.succ_pos _⟩]
      rfl
    rw [flatMap_cons, append_assoc, append_assoc, length_cons,
      splitFrom_escape]
    refine hbar.trans ?_
    rw [ih]
    cases fields with
    | nil | cons next fields => rfl

/-! ### The extension -/

section Extension

variable {word : WordClass} {c : Char} {rest : Text}

theorem isKeyChar_ascii (hascii : c.toNat < 128)
    (hc : (c.isAlphanum || c == '_' || c == '.' || c == '[' || c == ']') = false) :
    isKeyChar word c = false := by
  unfold isKeyChar
  rw [word.ascii c hascii]
  exact hc

/-- `[A-Za-z][\w.\[\]]*`. -/
def KeyShaped (word : WordClass) (key : Text) : Prop :=
  ∃ c cs, key = c :: cs ∧ isKeyStart c = true ∧ ∀ x ∈ cs, isKeyChar word x = true

theorem matchKey_of_shaped {key : Text} (h : KeyShaped word key) (rest : Text) :
    matchKey word (key ++ '=' :: rest) = some (key, rest) := by
  obtain ⟨c, cs, rfl, hc, hcs⟩ := h
  have hstop : isKeyChar word '=' = false := isKeyChar_ascii (by decide) (by decide)
  have hdrop : (cs ++ '=' :: rest).dropWhile (isKeyChar word) = '=' :: rest := by
    rw [dropWhile_append_of_pos hcs, dropWhile_cons, hstop]
    rfl
  have htake : (cs ++ '=' :: rest).takeWhile (isKeyChar word) = cs := by
    rw [takeWhile_append_of_pos hcs, takeWhile_cons, hstop]
    exact append_nil _
  change matchKey word (c :: (cs ++ '=' :: rest)) = some (c :: cs, rest)
  unfold matchKey
  dsimp only
  rw [if_pos hc, hdrop, htake]
  rfl

def Follows (word : WordClass) (rest : Text) : Prop :=
  rest = [] ∨ ∃ key more, KeyShaped word key ∧ rest = ' ' :: (key ++ '=' :: more)

theorem isKeyStart_ascii (h : isKeyStart c = true) : c.toNat < 128 := by
  unfold isKeyStart Char.isAlpha Char.isUpper Char.isLower at h
  simp only [Bool.or_eq_true, Bool.and_eq_true, decide_eq_true_eq, UInt32.le_iff_toNat_le,
    ge_iff_le] at h
  have hval : c.toNat = c.val.toNat := rfl
  have hZ : 'Z'.val.toNat = 90 := rfl
  have hz : 'z'.val.toNat = 122 := rfl
  omega

theorem isKeyStart_isKeyChar (word : WordClass) (h : isKeyStart c = true) :
    isKeyChar word c = true := by
  have hword := word.ascii c (isKeyStart_ascii h)
  unfold isKeyStart at h
  unfold Char.isAlphanum at hword
  unfold isKeyChar
  rw [hword, h]
  rfl

theorem isKeyStart_not_space (word : WordClass) (h : isKeyStart c = true) :
    isSpace c = false := by
  by_contra hspace
  rw [Bool.not_eq_false] at hspace
  have hword := word.ascii c (isKeyStart_ascii h)
  unfold isKeyStart at h
  unfold Char.isAlphanum at hword
  rw [word.space c hspace, h] at hword
  cases hword

theorem valueEnds_of_follows (h : Follows word rest) :
    valueEnds word rest = true := by
  rcases h with rfl | ⟨key, more, hkey, rfl⟩
  · rfl
  · have hmatch := matchKey_of_shaped hkey more
    obtain ⟨c, cs, rfl, hc, -⟩ := hkey
    have hdrop : (' ' :: (c :: cs ++ '=' :: more)).dropWhile isSpace =
        c :: cs ++ '=' :: more := by
      rw [dropWhile_cons, if_pos (by decide)]
      apply dropWhile_of_head
      intro x hx
      cases hx
      exact isKeyStart_not_space word hc
    unfold valueEnds
    dsimp only
    rw [hdrop, hmatch]
    rfl

variable {value : Text}

theorem slash_of_eq_mem_escape {before after : Text}
    (h : escape '=' value = before ++ '=' :: after) : ∃ init, before = init ++ ['\\'] := by
  induction value generalizing before with
  | nil => exact absurd h.symm (append_ne_nil_of_right_ne_nil _ (cons_ne_nil _ _))
  | cons c value ih =>
    rw [escape_cons] at h
    rcases escapeChar_cases '=' c with ⟨x, hx, -⟩ | ⟨hx, -, heq, -⟩
    · rw [hx, cons_append, cons_append, nil_append] at h
      cases before with
      | nil => exact absurd (cons_eq_cons.mp h).1 (by decide)
      | cons y before =>
        obtain ⟨rfl, hrest⟩ := cons_eq_cons.mp h
        cases before with
        | nil => exact ⟨[], rfl⟩
        | cons z before =>
          obtain ⟨init, rfl⟩ := ih (cons_eq_cons.mp hrest).2
          exact ⟨'\\' :: z :: init, rfl⟩
    · rw [hx, cons_append, nil_append] at h
      cases before with
      | nil => exact absurd (cons_eq_cons.mp h).1 heq
      | cons y before =>
        obtain ⟨init, rfl⟩ := ih (cons_eq_cons.mp h).2
        exact ⟨y :: init, rfl⟩

def EndsText (value : Text) : Prop := ∀ c, value.getLast? = some c → isSpace c = false

theorem EndsText.tail (h : EndsText (c :: value)) : EndsText value := by
  intro x hx
  apply h x
  cases value with
  | nil => cases hx
  | cons y value => exact hx

theorem endsText_escape (h : EndsText value) : EndsText (escape '=' value) := by
  intro x hx
  rcases eq_nil_or_concat' value with rfl | ⟨init, c, rfl⟩
  · cases hx
  · have hc : isSpace c = false := h c getLast?_concat
    rw [escape_append, escape_cons] at hx
    rcases escapeChar_cases '=' c with ⟨y, hy, hletter⟩ | ⟨hy, -⟩
    · rw [hy] at hx
      have hlast : (escape '=' init ++ (['\\', y] ++ escape '=' [])).getLast? = some y :=
        getLast?_append_of_ne_nil _ (cons_ne_nil _ _)
      rw [hlast] at hx
      cases hx
      rcases hletter with rfl | rfl | rfl | rfl <;> decide
    · rw [hy] at hx
      have hlast : (escape '=' init ++ ([c] ++ escape '=' [])).getLast? = some c :=
        getLast?_append_of_ne_nil _ (cons_ne_nil _ _)
      rw [hlast] at hx
      cases hx
      exact hc

theorem escape_ne_nil (special c : Char) (value : Text) : escape special (c :: value) ≠ [] := by
  rw [escape_cons]
  apply append_ne_nil_of_left_ne_nil
  rcases escapeChar_cases special c with ⟨x, hx, -⟩ | ⟨hx, -⟩
  · rw [hx]
    exact cons_ne_nil _ _
  · rw [hx]
    exact cons_ne_nil _ _

theorem head_escape_ne_newline {special : Char} {x : Char}
    (h : (escape special (c :: value) ++ rest).head? = some x) : x ≠ '\n' := by
  rw [escape_cons] at h
  rcases escapeChar_cases special c with ⟨y, hy, -⟩ | ⟨hy, -, -, hlf, -⟩
  · rw [hy] at h
    cases h
    decide
  · rw [hy] at h
    cases h
    exact hlf

/-- **No key begins inside a value**: the white space and the word after it would have to end at an
`=` that no backslash stands before. -/
theorem matchKey_inside (hvalue : value ≠ []) (hends : EndsText value) (hrest : Follows word rest) :
    matchKey word ((escape '=' value ++ rest).dropWhile isSpace) = none := by
  have hne : escape '=' value ≠ [] := by
    obtain ⟨c, tail, rfl⟩ := exists_cons_of_ne_nil hvalue
    exact escape_ne_nil _ _ _
  have hword : ∃ x ∈ escape '=' value, isSpace x = false :=
    ⟨_, getLast_mem hne, endsText_escape hends _ (getLast?_eq_some_getLast hne)⟩
  have hnonempty : (escape '=' value).dropWhile isSpace ≠ [] := by
    intro hnil
    obtain ⟨x, hx, hxs⟩ := hword
    rw [dropWhile_eq_nil_iff.mp hnil x hx] at hxs
    cases hxs
  have hdrop : (escape '=' value ++ rest).dropWhile isSpace =
      (escape '=' value).dropWhile isSpace ++ rest := by
    rw [dropWhile_append, if_neg]
    rw [List.isEmpty_iff]
    exact hnonempty
  obtain ⟨k, ks, hk⟩ := exists_cons_of_ne_nil hnonempty
  rw [hdrop, hk]
  change matchKey word (k :: (ks ++ rest)) = none
  unfold matchKey
  dsimp only
  by_cases hstart : isKeyStart k = true
  swap
  · rw [if_neg hstart]
  rw [if_pos hstart]
  have hspace : isKeyChar word ' ' = false := isKeyChar_ascii (by decide) (by decide)
  split
  swap
  · rfl
  rename_i after hafter
  exfalso
  rw [dropWhile_append] at hafter
  split at hafter
  · -- the word goes on to the end of the value
    rcases hrest with rfl | ⟨key, more, -, rfl⟩
    · cases hafter
    · rw [dropWhile_cons, hspace] at hafter
      exact absurd (cons_eq_cons.mp hafter).1 (by decide)
  · rename_i hempty
    rw [List.isEmpty_iff] at hempty
    obtain ⟨e, es, he⟩ := exists_cons_of_ne_nil hempty
    rw [he] at hafter
    obtain ⟨rfl, -⟩ := cons_eq_cons.mp hafter
    have hsplit : escape '=' value =
        ((escape '=' value).takeWhile isSpace ++ k :: ks.takeWhile (isKeyChar word)) ++
          '=' :: es := by
      conv_lhs => rw [← takeWhile_append_dropWhile (p := isSpace) (l := escape '=' value),
        hk, ← takeWhile_append_dropWhile (p := isKeyChar word) (l := ks), he]
      simp only [append_assoc, cons_append]
    obtain ⟨init, hinit⟩ := slash_of_eq_mem_escape hsplit
    have hlast := congrArg List.getLast? hinit
    rw [getLast?_concat, getLast?_append_of_ne_nil _ (cons_ne_nil _ _)] at hlast
    have hmem : '\\' ∈ k :: ks.takeWhile (isKeyChar word) := mem_of_getLast? hlast
    rcases mem_cons.mp hmem with hk' | hks
    · rw [← hk'] at hstart
      exact absurd hstart (by decide)
    · have hslash := mem_takeWhile_imp hks
      rw [isKeyChar_ascii (by decide) (by decide)] at hslash
      cases hslash

theorem valueEnds_inside (hvalue : value ≠ []) (hends : EndsText value)
    (hrest : Follows word rest) : valueEnds word (escape '=' value ++ rest) = false := by
  have hkey := matchKey_inside hvalue hends hrest
  obtain ⟨c, tail, rfl⟩ := exists_cons_of_ne_nil hvalue
  cases htext : escape '=' (c :: tail) ++ rest with
  | nil => exact absurd (append_eq_nil_iff.mp htext).1 (escape_ne_nil _ _ _)
  | cons x text =>
    have hx : x ≠ '\n' := head_escape_ne_newline (by rw [htext]; rfl)
    rw [htext] at hkey
    unfold valueEnds
    dsimp only
    rw [hkey, beq_eq_false_iff_ne.mpr hx]
    simp only [Bool.false_and, Option.isSome_none, Bool.and_false, Bool.or_false]

theorem matchValue_cons (hc : c ≠ '\\') (rest : Text) :
    matchValue word (c :: rest) =
      if valueEnds word (c :: rest) then some ([], c :: rest)
      else if c = '\\' ∨ c = '=' then none
      else (matchValue word rest).map fun m => (c :: m.1, m.2) := by
  rw [matchValue]
  intro x xs h
  exact absurd h hc

/-- **A value is read to its end.** -/
theorem matchValue_escape (hends : EndsText value) (hrest : Follows word rest) :
    matchValue word (escape '=' value ++ rest) = some (escape '=' value, rest) := by
  induction value with
  | nil =>
    change matchValue word rest = some ([], rest)
    have hstop := valueEnds_of_follows hrest
    rcases hrest with rfl | ⟨key, more, -, rfl⟩
    · rfl
    · rw [matchValue_cons (by decide), if_pos hstop]
  | cons c value ih =>
    have hgo := valueEnds_inside (cons_ne_nil c value) hends hrest
    rw [escape_cons] at hgo ⊢
    rcases escapeChar_cases '=' c with ⟨x, hx, hletter⟩ | ⟨hx, hslash, heq, -⟩
    · have hlf : x ≠ '\n' := by
        rcases hletter with rfl | rfl | rfl | rfl <;> decide
      rw [hx] at hgo ⊢
      change valueEnds word ('\\' :: x :: (escape '=' value ++ rest)) = false at hgo
      change matchValue word ('\\' :: x :: (escape '=' value ++ rest)) = _
      rw [matchValue, hgo, if_neg Bool.false_ne_true, if_neg hlf, ih hends.tail]
      rfl
    · rw [hx] at hgo ⊢
      change valueEnds word (c :: (escape '=' value ++ rest)) = false at hgo
      change matchValue word (c :: (escape '=' value ++ rest)) = _
      rw [matchValue_cons hslash, hgo, if_neg Bool.false_ne_true,
        if_neg (not_or.mpr ⟨hslash, heq⟩), ih hends.tail]
      rfl

theorem findPairs_skip (text rest : Text) :
    findPairs word text.length (text ++ rest) = findPairs word 0 rest := by
  induction text with
  | nil => rfl
  | cons c text ih => exact ih

theorem findPairs_pair {pair : Text × Text} (hkey : KeyShaped word pair.1)
    (hends : EndsText pair.2) (hrest : Follows word rest) :
    findPairs word 0 (encodePair pair ++ rest) =
      (pair.1, escape '=' pair.2) :: findPairs word 0 rest := by
  obtain ⟨key, value⟩ := pair
  have hmatch : matchPair word (encodePair (key, value) ++ rest) =
      some (key, escape '=' value) := by
    have htext : encodePair (key, value) ++ rest =
        key ++ '=' :: (escape '=' value ++ rest) := by
      unfold encodePair
      rw [append_assoc]
      rfl
    unfold matchPair
    rw [htext, matchKey_of_shaped hkey, Option.bind_some, matchValue_escape hends hrest]
    rfl
  obtain ⟨c, cs, rfl, -⟩ := hkey
  have hcons : encodePair (c :: cs, value) ++ rest =
      c :: ((cs ++ '=' :: escape '=' value) ++ rest) := rfl
  rw [hcons] at hmatch ⊢
  rw [findPairs, hmatch]
  dsimp only
  have hlength : (c :: cs).length + (escape '=' value).length =
      (cs ++ '=' :: escape '=' value).length := by
    rw [length_append, length_cons, length_cons]
    omega
  rw [hlength, findPairs_skip]

/-- **The extension is read back pair by pair.** -/
theorem findPairs_extension {pairs : List (Text × Text)}
    (hkeys : ∀ pair ∈ pairs, KeyShaped word pair.1) (hends : ∀ pair ∈ pairs, EndsText pair.2) :
    findPairs word 0 (List.intercalate [' '] (pairs.map encodePair)) =
      pairs.map fun pair => (pair.1, escape '=' pair.2) := by
  induction pairs with
  | nil => rfl
  | cons pair pairs ih =>
    have hkey := hkeys pair mem_cons_self
    have hend := hends pair mem_cons_self
    have htail := ih (fun p hp => hkeys p (mem_cons_of_mem _ hp))
      fun p hp => hends p (mem_cons_of_mem _ hp)
    cases pairs with
    | nil =>
      have hlast := findPairs_pair hkey hend (Or.inl (rfl : ([] : Text) = []))
      rw [append_nil] at hlast
      rw [map_singleton, intercalate_singleton]
      exact hlast
    | cons next pairs =>
      obtain ⟨more, hmore⟩ : ∃ more,
          List.intercalate [' '] ((next :: pairs).map encodePair) = next.1 ++ '=' :: more := by
        cases pairs with
        | nil =>
          rw [map_singleton, intercalate_singleton]
          exact ⟨escape '=' next.2, rfl⟩
        | cons p pairs =>
          rw [map_cons, map_cons, intercalate_cons_cons]
          refine ⟨escape '=' next.2 ++ ([' '] ++
            List.intercalate [' '] (encodePair p :: pairs.map encodePair)), ?_⟩
          change next.1 ++ '=' :: escape '=' next.2 ++ [' '] ++ _ = _
          rw [append_assoc, append_assoc]
          rfl
      have hfollows : Follows word
          (' ' :: List.intercalate [' '] ((next :: pairs).map encodePair)) := by
        rw [hmore]
        exact .inr ⟨_, _, hkeys next (mem_cons_of_mem _ mem_cons_self), rfl⟩
      have hspace : findPairs word 0
          (' ' :: List.intercalate [' '] ((next :: pairs).map encodePair)) =
            findPairs word 0 (List.intercalate [' '] ((next :: pairs).map encodePair)) := by
        rw [findPairs]
        rfl
      rw [map_cons, map_cons, intercalate_cons_cons]
      change findPairs word 0 (encodePair pair ++ [' '] ++
        List.intercalate [' '] ((next :: pairs).map encodePair)) = _
      rw [append_assoc]
      refine (findPairs_pair hkey hend hfollows).trans ?_
      rw [hspace, htail]
      rfl

end Extension

end AgenticKibana.Receivers
