import AgenticKibana.Library.JsonText

/-!
# The reader reads no further than a value

What the reader reads at the beginning of a text it reads there too when more text follows.  So
no text of an object goes on: the text of an object, cut short, is not the text of an object.
-/

namespace AgenticKibana.Library.Json

open Option

variable {cs rest : List Char}

/-! ### Characters, strings and numbers -/

variable {c : Char} {v : Json} {fuel fuel' : Nat} {ms : List (String × Json)}

theorem skipSpace_append (more : List Char) (h : skipSpace cs = c :: rest) :
    skipSpace (cs ++ more) = c :: (rest ++ more) := by
  unfold skipSpace at *
  rw [List.dropWhile_append, h]
  rfl

theorem readUnicode_append (more : List Char) {n : Nat} (h : readUnicode n cs = some (c, rest)) :
    readUnicode n (cs ++ more) = some (c, rest ++ more) := by
  unfold readUnicode at *
  by_cases hn : n < 0xD800 ∨ 0xE000 ≤ n
  · rw [if_pos hn] at *
    cases h
    rfl
  · rw [if_neg hn] at *
    split at h
    · next a b c d ds =>
        simp only [List.cons_append]
        cases hm : hex4 a b c d with
        | none => simp only [hm, reduceCtorEq] at h
        | some m =>
          simp only [hm] at h
          by_cases hpair : n < 0xDC00 ∧ 0xDC00 ≤ m ∧ m < 0xE000
          · dsimp only
            rw [if_pos hpair] at h ⊢
            obtain ⟨rfl, rfl⟩ := Prod.mk.inj (Option.some.inj h)
            rfl
          · rw [if_neg hpair] at h
            exact absurd h (some_ne_none _).symm
    · exact nomatch h

theorem readChar_append (more : List Char) (h : readChar cs = some (c, rest)) :
    readChar (cs ++ more) = some (c, rest ++ more) := by
  cases cs with
  | nil => exact nomatch h
  | cons d cs =>
    rw [List.cons_append]
    unfold readChar at *
    dsimp only at h ⊢
    split at h
    · next hback =>
        rw [if_pos hback]
        split at h
        · exact nomatch h
        · rw [List.cons_append]
          dsimp only
          split at h
          · next hu =>
              rw [if_pos hu]
              split at h
              · obtain ⟨n, hn, hread⟩ := bind_eq_some_iff.mp h
                simp only [List.cons_append, hn, bind_some]
                exact readUnicode_append more hread
              · exact nomatch h
          · next hu =>
              rw [if_neg hu]
              obtain ⟨e, he, heq⟩ := map_eq_some_iff.mp h
              cases heq
              rw [he, map_some]
    · next hback =>
        rw [if_neg hback]
        split at h
        · exact nomatch h
        · next hcontrol =>
            cases h
            rw [if_neg hcontrol]

theorem readString_append (more : List Char) {fuel fuel' : Nat} {s : List Char}
    (hfuel : fuel ≤ fuel') (h : readString fuel cs = some (s, rest)) :
    readString fuel' (cs ++ more) = some (s, rest ++ more) := by
  induction fuel generalizing fuel' cs s rest with
  | zero => exact nomatch h
  | succ fuel ih =>
    obtain ⟨fuel', rfl⟩ : ∃ f, fuel' = f + 1 := ⟨fuel' - 1, by omega⟩
    cases cs with
    | nil => exact nomatch h
    | cons c cs =>
      unfold readString at h
      rw [List.cons_append, readString]
      split at h
      · next hquote =>
          cases h
          rw [if_pos hquote]
      · next hquote =>
          rw [if_neg hquote]
          obtain ⟨⟨d, rest'⟩, hchar, h⟩ := bind_eq_some_iff.mp h
          obtain ⟨⟨s', rest''⟩, hstring, h⟩ := bind_eq_some_iff.mp h
          cases h
          have hmore : readChar (c :: (cs ++ more)) = some (d, rest' ++ more) :=
            readChar_append more hchar
          have hrest := ih (Nat.le_of_succ_le_succ hfuel) hstring
          simp only [hmore, bind, bind_some, hrest, pure]

def Bounded (rest : List Char) : Prop :=
  ∃ c ds, rest = c :: ds ∧ (isSpace c = true ∨ c = ',' ∨ c = ']' ∨ c = '}')

theorem bounded_of_skipSpace (h : skipSpace cs = c :: rest)
    (hc : c = ',' ∨ c = ']' ∨ c = '}') : Bounded cs := by
  cases cs with
  | nil => exact nomatch h
  | cons d ds =>
    refine ⟨d, ds, rfl, ?_⟩
    by_cases hd : isSpace d = true
    · exact .inl hd
    · rw [skipSpace_cons ds (Bool.eq_false_iff.mpr hd)] at h
      exact .inr ((List.cons.inj h).1 ▸ hc)

variable {ds : List Char}

theorem Bounded.head (h : Bounded (c :: ds)) : c ≠ '.' ∧ c ≠ 'e' ∧ c ≠ 'E' := by
  obtain ⟨d, _, heq, hd⟩ := h
  cases heq
  refine ⟨?_, ?_, ?_⟩ <;> · rintro rfl; revert hd; decide

theorem digits_append (more : List Char) (h : ds.dropWhile Char.isDigit ≠ []) :
    (ds ++ more).takeWhile Char.isDigit = ds.takeWhile Char.isDigit ∧
      (ds ++ more).dropWhile Char.isDigit = ds.dropWhile Char.isDigit ++ more := by
  refine ⟨?_, ?_⟩
  · rw [List.takeWhile_append, if_neg]
    intro hlen
    have htake := List.takeWhile_append_dropWhile (p := Char.isDigit) (l := ds)
    rw [← htake, List.length_append] at hlen
    rw [htake] at hlen
    exact h (List.length_eq_zero_iff.mp (by omega))
  · rw [List.dropWhile_append, if_neg]
    rwa [List.isEmpty_iff]

theorem readSign_append (more : List Char) (h : (readSign cs).2 ≠ []) :
    readSign (cs ++ more) = ((readSign cs).1, (readSign cs).2 ++ more) := by
  cases cs with
  | nil => exact absurd rfl h
  | cons c cs =>
    by_cases hminus : c = '-'
    · subst hminus
      rfl
    by_cases hplus : c = '+'
    · subst hplus
      rfl
    · simp [readSign, hminus, hplus]

theorem readExponent_append (more : List Char) {ep : Option (Bool × List Char)}
    (h : readExponent cs = (ep, rest)) (hrest : Bounded rest) :
    readExponent (cs ++ more) = (ep, rest ++ more) := by
  obtain ⟨c0, ds0, rfl, hc0⟩ := hrest
  cases cs with
  | nil => cases h
  | cons c cs =>
    unfold readExponent at h
    rw [List.cons_append, readExponent]
    dsimp only at h ⊢
    split at h
    · next he =>
        rw [if_pos he]
        split at h
        · obtain ⟨-, hcons⟩ := Prod.mk.inj h
          obtain ⟨-, he1, he2⟩ := Bounded.head ⟨c0, ds0, rfl, hc0⟩
          rw [(List.cons.inj hcons).1] at he
          exact absurd he (not_or.mpr ⟨he1, he2⟩)
        · next hdigits =>
            obtain ⟨rfl, hdrop⟩ := Prod.mk.inj h
            have hne : (readSign cs).2.dropWhile Char.isDigit ≠ [] := by
              rw [hdrop]
              exact List.cons_ne_nil _ _
            have hcs : (readSign cs).2 ≠ [] := fun hnil => hne (by rw [hnil]; rfl)
            obtain ⟨htake, hdrop'⟩ := digits_append more hne
            rw [readSign_append more hcs]
            dsimp only
            rw [htake, if_neg hdigits, hdrop', hdrop]
    · next he =>
        cases h
        rw [if_neg he]
        rfl

theorem readFraction_append (more : List Char) {fp : Option (List Char)}
    (h : readFraction cs = (fp, rest)) (hne : rest ≠ []) (hpoint : rest.head? ≠ some '.') :
    readFraction (cs ++ more) = (fp, rest ++ more) := by
  unfold readFraction at h
  split at h
  · split at h
    · cases h
      exact absurd rfl hpoint
    · next hdigits =>
        obtain ⟨rfl, hdrop⟩ := Prod.mk.inj h
        obtain ⟨htake, hdrop'⟩ := digits_append more (by rwa [hdrop])
        rw [List.cons_append, readFraction, htake, if_neg hdigits, hdrop', hdrop]
  · next hcs =>
      obtain ⟨rfl, rfl⟩ := Prod.mk.inj h
      cases cs with
      | nil => exact absurd rfl hne
      | cons c cs =>
        rw [List.cons_append, readFraction]
        rintro ds heq
        exact hpoint (by rw [(List.cons.inj heq).1]; rfl)

theorem readNumber_append (more : List Char) (h : readNumber cs = some (v, rest))
    (hrest : Bounded rest) : readNumber (cs ++ more) = some (v, rest ++ more) := by
  have hcs : cs ≠ [] := by
    rintro rfl
    cases h
  have hhead : (cs ++ more).head? = cs.head? := by
    rw [List.head?_append_of_ne_nil cs hcs]
  have hbody : (if cs.head? = some '-' then (cs ++ more).tail else cs ++ more) =
      (if cs.head? = some '-' then cs.tail else cs) ++ more := by
    split
    · exact List.tail_append_of_ne_nil hcs
    · rfl
  unfold readNumber at h ⊢
  simp only [hhead, hbody] at h ⊢
  generalize (if cs.head? = some '-' then cs.tail else cs) = body at h ⊢
  split at h
  · cases h
  · next hdigits =>
      obtain ⟨hnumber, hexponent⟩ := Prod.mk.inj (Option.some.inj h)
      have hexp : readExponent ((readFraction (body.dropWhile Char.isDigit)).2 ++ more) =
          ((readExponent (readFraction (body.dropWhile Char.isDigit)).2).1, rest ++ more) :=
        readExponent_append more (Prod.ext_iff.mpr ⟨rfl, hexponent⟩) hrest
      obtain ⟨c, ds, rfl, hc⟩ := hrest
      -- The exponent leaves something, so the fraction and the digits before it do.
      have hfraction : (readFraction (body.dropWhile Char.isDigit)).2 ≠ [] ∧
          (readFraction (body.dropWhile Char.isDigit)).2.head? ≠ some '.' := by
        refine ⟨fun hnil => ?_, fun hpoint => ?_⟩
        · rw [hnil] at hexponent
          cases hexponent
        · obtain ⟨es, hes⟩ := List.head?_eq_some_iff.mp hpoint
          rw [hes] at hexponent
          obtain ⟨rfl, -⟩ := List.cons.inj hexponent
          exact absurd rfl (Bounded.head ⟨'.', ds, rfl, hc⟩).1
      have hfrac := readFraction_append more (Prod.mk.eta (p := readFraction _)).symm
        hfraction.1 hfraction.2
      have hne : body.dropWhile Char.isDigit ≠ [] := by
        intro hnil
        rw [hnil] at hfraction
        exact hfraction.1 rfl
      obtain ⟨htake, hdrop⟩ := digits_append more hne
      rw [htake, hdrop, if_neg hdigits, hfrac]
      dsimp only
      rw [hexp, ← hnumber]

/-! ### Values -/

theorem readValue_skipSpace (fuel : Nat) (cs : List Char) :
    readValue fuel (skipSpace cs) = readValue fuel cs := by
  cases fuel with
  | zero => rfl
  | succ fuel =>
    have hidem : skipSpace (skipSpace cs) = skipSpace cs := List.dropWhile_idempotent _ cs
    rw [readValue, readValue, hidem]

theorem numberOf_ne_obj (neg : Bool) (ip : List Char) (fp : Option (List Char))
    (ep : Option (Bool × List Char)) (ms : List (String × Json)) :
    numberOf neg ip fp ep ≠ .obj ms := by
  unfold numberOf
  dsimp only
  split <;> simp

theorem head_of_readNumber (h : readNumber cs = some (v, rest)) :
    ∃ c ds, cs = c :: ds ∧ (c = '-' ∨ c.isDigit = true) := by
  cases cs with
  | nil => cases h
  | cons c ds =>
    refine ⟨c, ds, rfl, or_iff_not_imp_left.mpr fun hminus => ?_⟩
    unfold readNumber at h
    by_contra hdigit
    simp [hminus, hdigit] at h

section Openings

variable {ds : List Char} (fuel : Nat)

theorem readValue_quote (h : skipSpace cs = '"' :: ds) : readValue (fuel + 1) cs =
    (readString (ds.length + 1) ds).map fun r => (.str (String.ofList r.1), r.2) := by
  rw [readValue, h]
  rfl

theorem readValue_bracket (h : skipSpace cs = '[' :: ds) : readValue (fuel + 1) cs =
    match skipSpace ds with
    | ']' :: cs => some (.arr [], cs)
    | cs => (readItems fuel cs).map fun r => (.arr r.1, r.2) := by
  rw [readValue, h]
  rfl

theorem readValue_brace (h : skipSpace cs = '\x7b' :: ds) : readValue (fuel + 1) cs =
    match skipSpace ds with
    | '\x7d' :: cs => some (.obj [], cs)
    | cs => (readMembers fuel [] cs).map fun r => (.obj r.1, r.2) := by
  rw [readValue, h]
  rfl

end Openings

structure Stops (fuel : Nat) : Prop where
  value : ∀ {cs rest v}, readValue fuel cs = some (v, rest) →
    (Bounded rest ∨ ∃ ms, v = .obj ms) → ∀ {fuel'}, fuel ≤ fuel' → ∀ more,
      readValue fuel' (cs ++ more) = some (v, rest ++ more)
  items : ∀ {cs rest xs}, readItems fuel cs = some (xs, rest) → ∀ {fuel'}, fuel ≤ fuel' →
    ∀ more, readItems fuel' (cs ++ more) = some (xs, rest ++ more)
  members : ∀ {acc cs rest ms}, readMembers fuel acc cs = some (ms, rest) →
    ∀ {fuel'}, fuel ≤ fuel' → ∀ more, readMembers fuel' acc (cs ++ more) = some (ms, rest ++ more)

variable {xs : List Json}

theorem items_ne_nil (h : readItems fuel cs = some (xs, rest)) : cs ≠ [] := by
  rintro rfl
  rcases fuel with _ | _ | fuel
  · cases h
  · cases h
  · cases h

variable {acc : List (String × Json)}

theorem members_ne_nil (h : readMembers fuel acc cs = some (ms, rest)) : cs ≠ [] := by
  rintro rfl
  cases fuel with
  | zero | succ fuel => cases h

theorem Stops.value_succ (ih : Stops fuel)
    (h : readValue (fuel + 1) cs = some (v, rest)) (hrest : Bounded rest ∨ ∃ ms, v = .obj ms)
    (hfuel : fuel ≤ fuel') (more : List Char) :
    readValue (fuel' + 1) (cs ++ more) = some (v, rest ++ more) := by
  rw [readValue] at h
  split at h
  · next ds hskip =>
      rw [readValue_quote _ (skipSpace_append more hskip)]
      obtain ⟨⟨s, rest'⟩, hstring, hv⟩ := map_eq_some_iff.mp h
      cases hv
      rw [readString_append more (by simp) hstring, map_some]
  · next ds hskip =>
      rw [readValue_bracket _ (skipSpace_append more hskip)]
      split at h
      · next es hskip' =>
          rw [skipSpace_append more hskip']
          cases h
          rfl
      · next hopen =>
          obtain ⟨⟨xs, rest'⟩, hitems, hv⟩ := map_eq_some_iff.mp h
          cases hv
          obtain ⟨c, es, hskip'⟩ := List.exists_cons_of_ne_nil (items_ne_nil hitems)
          have hmore := ih.items hitems hfuel more
          rw [hskip'] at hopen hmore
          rw [skipSpace_append more hskip']
          split
          · next heq => exact absurd ((List.cons.inj heq).1 ▸ rfl) (hopen es)
          · rw [← List.cons_append, hmore, map_some]
  · next ds hskip =>
      rw [readValue_brace _ (skipSpace_append more hskip)]
      split at h
      · next es hskip' =>
          rw [skipSpace_append more hskip']
          cases h
          rfl
      · next hopen =>
          obtain ⟨⟨ms, rest'⟩, hmembers, hv⟩ := map_eq_some_iff.mp h
          cases hv
          obtain ⟨c, es, hskip'⟩ := List.exists_cons_of_ne_nil (members_ne_nil hmembers)
          have hmore := ih.members hmembers hfuel more
          rw [hskip'] at hopen hmore
          rw [skipSpace_append more hskip']
          split
          · next heq => exact absurd ((List.cons.inj heq).1 ▸ rfl) (hopen es)
          · rw [← List.cons_append, hmore, map_some]
  · next hskip =>
      cases h
      rw [readValue, skipSpace_append more hskip]
      rfl
  · next hskip =>
      cases h
      rw [readValue, skipSpace_append more hskip]
      rfl
  · next hskip =>
      cases h
      rw [readValue, skipSpace_append more hskip]
      rfl
  · obtain ⟨c, ds, hskip, hc⟩ := head_of_readNumber h
    have hbounded : Bounded rest := by
      rcases hrest with hrest | ⟨ms, rfl⟩
      · exact hrest
      · unfold readNumber at h
        simp only [ite_none_left_eq_some, Option.some.injEq, Prod.mk.injEq] at h
        exact absurd h.2.1 (numberOf_ne_obj _ _ _ _ _)
    have hmore := readNumber_append more h hbounded
    rw [← readValue_skipSpace, skipSpace_append more hskip, readValue_number hc]
    rw [hskip] at hmore
    exact hmore

theorem Stops.items_succ (ih : Stops fuel) (h : readItems (fuel + 1) cs = some (xs, rest))
    (hfuel : fuel ≤ fuel') (more : List Char) :
    readItems (fuel' + 1) (cs ++ more) = some (xs, rest ++ more) := by
  rw [readItems] at h ⊢
  obtain ⟨⟨v, rest'⟩, hvalue, h⟩ := bind_eq_some_iff.mp h
  dsimp only at h
  split at h
  · next ds hskip =>
      have hbounded := bounded_of_skipSpace hskip (.inl rfl)
      rw [ih.value hvalue (.inl hbounded) hfuel more, bind_some]
      dsimp only
      rw [skipSpace_append more hskip]
      obtain ⟨⟨ys, rest''⟩, hitems, hv⟩ := map_eq_some_iff.mp h
      cases hv
      simp only [ih.items hitems hfuel more, map_some]
  · next ds hskip =>
      have hbounded := bounded_of_skipSpace hskip (.inr (.inl rfl))
      rw [ih.value hvalue (.inl hbounded) hfuel more, bind_some]
      dsimp only
      rw [skipSpace_append more hskip]
      cases h
      rfl
  · cases h

theorem Stops.members_succ (ih : Stops fuel) (h : readMembers (fuel + 1) acc cs = some (ms, rest))
    (hfuel : fuel ≤ fuel') (more : List Char) :
    readMembers (fuel' + 1) acc (cs ++ more) = some (ms, rest ++ more) := by
  rw [readMembers] at h ⊢
  split at h
  · next ds hskip =>
      obtain ⟨⟨key, rest'⟩, hkey, h⟩ := bind_eq_some_iff.mp h
      have hmore := @readString_append _ _ more _ ((ds ++ more).length + 1) _ (by simp) hkey
      rw [skipSpace_append more hskip]
      simp only [hmore, bind_some]
      dsimp only at h
      split at h
      · next es hcolon =>
          rw [skipSpace_append more hcolon]
          simp only
          obtain ⟨⟨v, rest''⟩, hvalue, h⟩ := bind_eq_some_iff.mp h
          dsimp only at h
          split at h
          · next fs hskip' =>
              have hbounded := bounded_of_skipSpace hskip' (.inl rfl)
              rw [ih.value hvalue (.inl hbounded) hfuel more, bind_some]
              dsimp only
              rw [skipSpace_append more hskip']
              exact ih.members h hfuel more
          · next fs hskip' =>
              have hbounded := bounded_of_skipSpace hskip' (.inr (.inr rfl))
              rw [ih.value hvalue (.inl hbounded) hfuel more, bind_some]
              dsimp only
              rw [skipSpace_append more hskip']
              cases h
              rfl
          · cases h
      · cases h
  · cases h

theorem stops (fuel : Nat) : Stops fuel := by
  induction fuel with
  | zero =>
    refine ⟨?_, ?_, ?_⟩
    · intro cs rest v h
      cases h
    · intro cs rest xs h
      cases h
    · intro acc cs rest ms h
      cases h
  | succ fuel ih =>
    refine ⟨?_, ?_, ?_⟩
    · intro cs rest v h hrest fuel' hfuel more
      obtain ⟨fuel', rfl⟩ : ∃ f, fuel' = f + 1 := ⟨fuel' - 1, by omega⟩
      exact ih.value_succ h hrest (Nat.le_of_succ_le_succ hfuel) more
    · intro cs rest xs h fuel' hfuel more
      obtain ⟨fuel', rfl⟩ : ∃ f, fuel' = f + 1 := ⟨fuel' - 1, by omega⟩
      exact ih.items_succ h (Nat.le_of_succ_le_succ hfuel) more
    · intro acc cs rest ms h fuel' hfuel more
      obtain ⟨fuel', rfl⟩ : ∃ f, fuel' = f + 1 := ⟨fuel' - 1, by omega⟩
      exact ih.members_succ h (Nat.le_of_succ_le_succ hfuel) more

/-- **No text of an object goes on**: only white space may follow it. -/
theorem space_of_loads_append {j : Json} {more : List Char}
    (h : loads cs = some (.obj ms)) (hmore : loads (cs ++ more) = some j) :
    skipSpace more = [] := by
  unfold loads at h hmore
  split at h
  · next v rest hread =>
      split at h
      · next hrest =>
          obtain rfl := Option.some.inj h
          rw [(stops _).value hread (.inr ⟨ms, rfl⟩) (by simp) more] at hmore
          dsimp only at hmore
          split at hmore
          · next hnil =>
              unfold skipSpace at hrest hnil ⊢
              rwa [List.dropWhile_append, hrest] at hnil
          · cases hmore
      · cases h
  · cases h

end AgenticKibana.Library.Json
