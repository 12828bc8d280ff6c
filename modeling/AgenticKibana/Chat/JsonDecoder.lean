import AgenticKibana.Chat.Replies

/-!
# A decoder

The reader of JSON texts is a decoder: what it reads of a string is longer than the string.
-/

namespace AgenticKibana.Chat

open AgenticKibana.Library Option
open AgenticKibana.Library.Json

theorem length_skipSpace_le (cs : Text) : (skipSpace cs).length ≤ cs.length :=
  (List.dropWhile_sublist _).length_le

variable {c : Char} {cs rest : Text}

theorem readUnicode_le {n : Nat}
    (h : readUnicode n cs = some (c, rest)) : rest.length ≤ cs.length := by
  unfold readUnicode at h
  split at h
  · obtain ⟨-, rfl⟩ := Prod.mk.inj (Option.some.inj h)
    exact le_rfl
  · split at h
    · split at h
      · split at h
        · obtain ⟨-, rfl⟩ := Prod.mk.inj (Option.some.inj h)
          simp only [List.length_cons]
          omega
        · cases h
      · cases h
    · cases h

theorem readChar_lt (h : readChar cs = some (c, rest)) :
    rest.length < cs.length := by
  cases cs with
  | nil => cases h
  | cons c' cs =>
    unfold readChar at h
    dsimp only at h
    split at h
    · split at h
      · cases h
      · split at h
        · split at h
          · obtain ⟨n, -, hn⟩ := bind_eq_some_iff.mp h
            have hle := readUnicode_le hn
            simp only [List.length_cons]
            omega
          · cases h
        · obtain ⟨e, -, he⟩ := map_eq_some_iff.mp h
          cases he
          simp only [List.length_cons]
          omega
    · split at h
      · cases h
      · cases h
        exact Nat.lt_succ_self _

variable {fuel : Nat}

theorem readString_lt {s : Text} (h : readString fuel cs = some (s, rest)) :
    s.length + rest.length < cs.length := by
  induction fuel generalizing cs s rest with
  | zero => cases h
  | succ fuel ih =>
    cases cs with
    | nil => cases h
    | cons c cs =>
      unfold readString at h
      split at h
      · cases h
        rw [List.length_nil, Nat.zero_add]
        exact Nat.lt_succ_self _
      · obtain ⟨⟨c', rest'⟩, hchar, h⟩ := bind_eq_some_iff.mp h
        obtain ⟨⟨s', rest''⟩, hstring, h⟩ := bind_eq_some_iff.mp h
        cases h
        have hlt := readChar_lt hchar
        have hrec := ih hstring
        rw [List.length_cons]
        omega

theorem readNumber_eq_some {v : Json} (h : readNumber cs = some (v, rest)) :
    rest.length ≤ cs.length ∧ ((∃ n, v = .int n) ∨ ∃ x, v = .float x) := by
  have hdrop : ∀ cs : Text, (cs.dropWhile Char.isDigit).length ≤ cs.length := fun cs =>
    (List.dropWhile_sublist _).length_le
  have hfraction : ∀ cs : Text, (readFraction cs).2.length ≤ cs.length := by
    intro cs
    unfold readFraction
    split
    · split
      · exact le_rfl
      · exact (hdrop _).trans (Nat.le_succ _)
    · exact le_rfl
  have hsign : ∀ cs : Text, (readSign cs).2.length ≤ cs.length := by
    intro cs
    unfold readSign
    split <;> simp
  have hexponent : ∀ cs : Text, (readExponent cs).2.length ≤ cs.length := by
    intro cs
    cases cs with
    | nil => exact le_rfl
    | cons c cs =>
      unfold readExponent
      dsimp only
      split
      · split
        · exact le_rfl
        · exact (hdrop _).trans ((hsign cs).trans (Nat.le_succ _))
      · exact le_rfl
  have hbody : (if cs.head? = some '-' then cs.tail else cs).length ≤ cs.length := by
    split
    · rw [List.length_tail]
      omega
    · exact le_rfl
  unfold readNumber at h
  dsimp only at h
  generalize (if cs.head? = some '-' then cs.tail else cs) = body at h hbody
  split at h
  · cases h
  · obtain ⟨hnumber, rfl⟩ := Prod.mk.inj (Option.some.inj h)
    refine ⟨(hexponent _).trans ((hfraction _).trans ((hdrop _).trans hbody)), ?_⟩
    rw [← hnumber]
    unfold numberOf
    dsimp only
    split
    · exact .inl ⟨_, rfl⟩
    · exact .inr ⟨_, rfl⟩

theorem mem_assign {key key' : String} {value value' : Json} {ms : Obj}
    (h : (key', value') ∈ Dict.assign key value ms) :
    (key', value') = (key, value) ∨ (key', value') ∈ ms := by
  induction ms with
  | nil => exact .inl (List.mem_singleton.mp h)
  | cons m ms ih =>
    obtain ⟨k, v⟩ := m
    unfold Dict.assign at h
    split at h
    · rename_i hkey
      rcases List.mem_cons.mp h with heq | hmem
      · exact .inl heq
      · exact .inr (List.mem_cons_of_mem _ hmem)
    · rcases List.mem_cons.mp h with heq | hmem
      · exact .inr (heq ▸ List.mem_cons_self)
      · exact (ih hmem).imp_right (List.mem_cons_of_mem _)

structure Shortens (fuel : Nat) : Prop where
  value : ∀ {cs rest v}, readValue fuel cs = some (v, rest) → rest.length ≤ cs.length ∧
    ∀ s, v = .str s → s.toList.length + rest.length < cs.length
  items : ∀ {cs rest xs}, readItems fuel cs = some (xs, rest) → rest.length ≤ cs.length
  members : ∀ {acc cs rest ms}, readMembers fuel acc cs = some (ms, rest) →
    rest.length ≤ cs.length ∧ ∀ k s, (k, .str s) ∈ ms →
      (k, .str s) ∈ acc ∨ s.toList.length + rest.length < cs.length

theorem length_of_skipSpace (h : skipSpace cs = c :: rest) :
    rest.length < cs.length := by
  have hle := length_skipSpace_le cs
  rw [h] at hle
  exact hle

theorem Shortens.succ (ih : Shortens fuel) : Shortens (fuel + 1) where
  value := by
    intro cs rest v h
    unfold readValue at h
    split at h
    · rename_i cs' hskip
      obtain ⟨⟨s, rest'⟩, hstring, hv⟩ := map_eq_some_iff.mp h
      obtain ⟨rfl, rfl⟩ := Prod.mk.inj hv
      have hlt := length_of_skipSpace hskip
      have hstr := readString_lt hstring
      refine ⟨by dsimp only; omega, ?_⟩
      rintro s' heq
      cases heq
      rw [String.toList_ofList]
      dsimp only
      omega
    · rename_i cs' hskip
      have hlt := length_of_skipSpace hskip
      split at h
      · rename_i cs'' hskip'
        have hlt' := length_of_skipSpace hskip'
        obtain ⟨rfl, rfl⟩ := Prod.mk.inj (Option.some.inj h)
        exact ⟨by omega, fun s hs => by cases hs⟩
      · obtain ⟨⟨xs, rest'⟩, hitems, hv⟩ := map_eq_some_iff.mp h
        obtain ⟨rfl, rfl⟩ := Prod.mk.inj hv
        have hle := ih.items hitems
        have hle' := length_skipSpace_le cs'
        exact ⟨by dsimp only; omega, fun s hs => by cases hs⟩
    · rename_i cs' hskip
      have hlt := length_of_skipSpace hskip
      split at h
      · rename_i cs'' hskip'
        have hlt' := length_of_skipSpace hskip'
        obtain ⟨rfl, rfl⟩ := Prod.mk.inj (Option.some.inj h)
        exact ⟨by omega, fun s hs => by cases hs⟩
      · obtain ⟨⟨xs, rest'⟩, hmembers, hv⟩ := map_eq_some_iff.mp h
        obtain ⟨rfl, rfl⟩ := Prod.mk.inj hv
        have hle := (ih.members hmembers).1
        have hle' := length_skipSpace_le cs'
        exact ⟨by dsimp only; omega, fun s hs => by cases hs⟩
    · rename_i cs' hskip
      have hlt := length_of_skipSpace hskip
      obtain ⟨rfl, rfl⟩ := Prod.mk.inj (Option.some.inj h)
      simp only [List.length_cons] at hlt
      exact ⟨by omega, fun s hs => by cases hs⟩
    · rename_i cs' hskip
      have hlt := length_of_skipSpace hskip
      obtain ⟨rfl, rfl⟩ := Prod.mk.inj (Option.some.inj h)
      simp only [List.length_cons] at hlt
      exact ⟨by omega, fun s hs => by cases hs⟩
    · rename_i cs' hskip
      have hlt := length_of_skipSpace hskip
      obtain ⟨rfl, rfl⟩ := Prod.mk.inj (Option.some.inj h)
      simp only [List.length_cons] at hlt
      exact ⟨by omega, fun s hs => by cases hs⟩
    · obtain ⟨hle, hnumber⟩ := readNumber_eq_some h
      refine ⟨hle.trans (length_skipSpace_le cs), ?_⟩
      rintro s rfl
      rcases hnumber with ⟨n, hn⟩ | ⟨x, hx⟩
      · cases hn
      · cases hx
  items := by
    intro cs rest xs h
    unfold readItems at h
    obtain ⟨⟨v, rest'⟩, hvalue, h⟩ := bind_eq_some_iff.mp h
    have hle := (ih.value hvalue).1
    dsimp only at h
    split at h
    · rename_i cs' hskip
      have hlt := length_of_skipSpace hskip
      obtain ⟨⟨ys, rest''⟩, hitems, hv⟩ := map_eq_some_iff.mp h
      obtain ⟨rfl, rfl⟩ := Prod.mk.inj hv
      have hle' := ih.items hitems
      dsimp only
      omega
    · rename_i cs' hskip
      have hlt := length_of_skipSpace hskip
      obtain ⟨-, rfl⟩ := Prod.mk.inj (Option.some.inj h)
      omega
    · cases h
  members := by
    intro acc cs rest ms h
    unfold readMembers at h
    split at h
    · rename_i cs' hskip
      have hlt := length_of_skipSpace hskip
      obtain ⟨⟨key, rest'⟩, hkey, h⟩ := bind_eq_some_iff.mp h
      have hltKey := readString_lt hkey
      dsimp only at h
      split at h
      · rename_i cs'' hskip'
        have hlt' := length_of_skipSpace hskip'
        obtain ⟨⟨v, rest''⟩, hvalue, h⟩ := bind_eq_some_iff.mp h
        obtain ⟨hle, hstr⟩ := ih.value hvalue
        dsimp only at h
        have hassigned : ∀ k s, (k, .str s) ∈ Dict.assign (String.ofList key) v acc →
            (k, .str s) ∈ acc ∨ s.toList.length + rest''.length < cs''.length := by
          intro k s hmem
          rcases mem_assign hmem with heq | hold
          · exact .inr (hstr s (congrArg Prod.snd heq).symm)
          · exact .inl hold
        split at h
        · rename_i more hskip''
          have hlt'' := length_of_skipSpace hskip''
          obtain ⟨hle', hmem⟩ := ih.members h
          refine ⟨by omega, ?_⟩
          intro k s hks
          rcases hmem k s hks with hacc | hshort
          · rcases hassigned k s hacc with hold | hshort
            · exact .inl hold
            · exact .inr (by omega)
          · exact .inr (by omega)
        · rename_i more hskip''
          have hlt'' := length_of_skipSpace hskip''
          obtain ⟨rfl, rfl⟩ := Prod.mk.inj (Option.some.inj h)
          refine ⟨by omega, ?_⟩
          intro k s hks
          rcases hassigned k s hks with hold | hshort
          · exact .inl hold
          · exact .inr (by omega)
        · cases h
      · cases h
    · cases h

theorem shortens (fuel : Nat) : Shortens fuel := by
  induction fuel with
  | zero =>
    refine ⟨?_, ?_, ?_⟩
    · intro cs rest v h
      cases h
    · intro cs rest xs h
      cases h
    · intro acc cs rest ms h
      cases h
  | succ fuel ih => exact ih.succ

theorem readValue_shorter {text : Text} {ms : List (String × Json)} {rest : Text} {k s : String}
    (h : readValue (text.length + 1) text = some (.obj ms, rest)) (hmem : (k, .str s) ∈ ms) :
    s.toList.length + rest.length < text.length := by
  unfold readValue at h
  split at h
  · obtain ⟨r, -, hr⟩ := map_eq_some_iff.mp h
    cases hr
  · split at h
    · cases h
    · obtain ⟨r, -, hr⟩ := map_eq_some_iff.mp h
      cases hr
  · rename_i cs' hskip
    have hlt := length_of_skipSpace hskip
    split at h
    · cases h
      cases hmem
    · obtain ⟨⟨ms', rest'⟩, hmembers, hr⟩ := map_eq_some_iff.mp h
      cases hr
      have hle := length_skipSpace_le cs'
      rcases ((shortens _).members hmembers).2 k s hmem with hnil | hshort
      · cases hnil
      · dsimp only
        omega
  · cases h
  · cases h
  · cases h
  · rcases (readNumber_eq_some h).2 with ⟨n, hn⟩ | ⟨x, hx⟩
    · cases hn
    · cases hx

def jsonDecoder : Decoder where
  rawDecode text := readValue (text.length + 1) text
  shorter := @readValue_shorter

end AgenticKibana.Chat
