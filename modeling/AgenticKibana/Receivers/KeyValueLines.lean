import AgenticKibana.Receivers.SyslogRecords
import Mathlib.Data.List.Perm.Subperm
import Mathlib.Algebra.Order.BigOperators.Group.List
import Mathlib.Algebra.BigOperators.Group.List.Basic

/-!
# `key=value` lines

`parse_kv` finds the pairs of a line by a pattern: a key of word characters, dots and dashes, `=`,
and a quoted value or one up to the next white space.  A line of pairs with a white space between
two of them is read back exactly if the keys are made of key characters and no value holds white
space, an escape, or a quote that something closes: the pairs weigh as much as the line, so there
is no room for anything else to be read.
-/

namespace AgenticKibana.Receivers

open AgenticKibana.Library List
open AgenticKibana.Library.TextLines

/-! ### The parser -/

/-- `[^\s]*` at the beginning of a text. -/
def unspacedRun (text : Text) : Text := text.takeWhile fun c => !isSpace c

/-- The value of `_KV_RE` at the beginning of a text: quoted where the quote is closed. -/
def matchKvValue : Text → Text
  | '"' :: rest =>
    match takeQuoted rest with
    | some (body, _) => '"' :: body ++ ['"']
    | none => unspacedRun ('"' :: rest)
  | '\'' :: rest =>
    if '\'' ∈ rest then '\'' :: rest.takeWhile (· ≠ '\'') ++ ['\'']
    else unspacedRun ('\'' :: rest)
  | text => unspacedRun text

/-- `value[0] in "\"'" and value[-1] == value[0]`, of a value of two characters at least. -/
def Quoted (value : Text) : Prop :=
  2 ≤ value.length ∧ (value.head? = some '"' ∨ value.head? = some '\'') ∧
    value.getLast? = value.head?

instance (value : Text) : Decidable (Quoted value) := inferInstanceAs (Decidable (_ ∧ _ ∧ _))

def readKvValue (raw : Text) : Text :=
  let value := if Quoted raw then raw.tail.dropLast else raw
  replacePair '\\' '\\' '\\' (replacePair '\\' '"' '"' value)

section Search

variable (word : WordClass)

/-- `[\w.\-]`. -/
def isKvKeyChar (c : Char) : Bool := word.holds c || c == '.' || c == '-'

/-- A key and its `=` at the beginning of a text, and what follows. -/
def matchKvKey (text : Text) : Option (Text × Text) :=
  match text.takeWhile (isKvKeyChar word), text.dropWhile (isKvKeyChar word) with
  | c :: key, '=' :: rest => some (c :: key, rest)
  | _, _ => none

/-- `_KV_RE.finditer`, after some characters that belong to the last match: the keys and the
values as they are found. -/
def findKv : Nat → Text → List (Text × Text)
  | _, [] => []
  | skip + 1, _ :: cs => findKv skip cs
  | 0, c :: cs =>
    match matchKvKey word (c :: cs) with
    | some (key, rest) =>
      (key, matchKvValue rest) :: findKv (key.length + (matchKvValue rest).length) cs
    | none => findKv 0 cs

def kvPairs (line : Text) : List (Text × Text) :=
  (findKv word 0 line).map fun m => (m.1, readKvValue m.2)

/-- The record of a line of `parse_kv`. -/
def parseKvLine (line : Text) : Record :=
  let found : Record := Dict.ofList (kvPairs word line)
  if found.keys = [] then Dict.ofList [("message".toList, line)]
  else found.setDefault "_raw".toList line

def parseKv (text : Text) : List Record :=
  (((splitLines text).map strip).filter (· ≠ [])).map (parseKvLine word)

end Search

/-! ### What a found pair weighs -/

/-- The characters of a text other than `w`. -/
def weight (w : Char) (text : Text) : Nat := text.countP (· ≠ w)

/-- The characters of a pair other than `w`, with its `=`. -/
def pairWeight (w : Char) (pair : Text × Text) : Nat := weight w pair.1 + 1 + weight w pair.2

section Weight

variable {w : Char}

@[simp] theorem weight_nil : weight w [] = 0 := rfl

@[simp] theorem weight_append (a b : Text) : weight w (a ++ b) = weight w a + weight w b :=
  List.countP_append

variable {c : Char}

theorem weight_cons_of_ne (hc : c ≠ w) (text : Text) :
    weight w (c :: text) = weight w text + 1 := by
  simp [weight, hc]

def Apart (a b : Char) : Char → Char → Prop := fun x y => ¬ (x = a ∧ y = b)

/-- **Replacing a pair** weighs no more; it weighs the same only where the pair does not occur,
and then leaves the text. -/
theorem replacePair_weight {a b : Char} (ha : a ≠ w) (hb : b ≠ w) (hc : c ≠ w) (text : Text) :
    weight w (replacePair a b c text) ≤ weight w text ∧
      (weight w (replacePair a b c text) = weight w text →
        text.IsChain (Apart a b) ∧ replacePair a b c text = text) := by
  fun_induction replacePair a b c text with
  | case1 x y rest hpair ih =>
    obtain ⟨rfl, rfl⟩ := hpair
    have hcons := weight_cons_of_ne hc (replacePair x y c rest)
    have htwo : weight w (x :: y :: rest) = weight w rest + 2 := by
      rw [weight_cons_of_ne ha, weight_cons_of_ne hb]
    constructor
    · omega
    · intro heq
      have := ih.1
      omega
  | case2 x y rest hpair ih =>
    have hcons : ∀ text, weight w (x :: text) = weight w [x] + weight w text :=
      fun text => weight_append [x] text
    rw [hcons, hcons (y :: rest)]
    constructor
    · have := ih.1
      omega
    · intro heq
      obtain ⟨hchain, hsame⟩ := ih.2 (by omega)
      exact ⟨List.isChain_cons_cons.mpr ⟨hpair, hchain⟩, by rw [hsame]⟩
  | case3 text hshort =>
    refine ⟨le_rfl, fun _ => ⟨?_, rfl⟩⟩
    match text, hshort with
    | [], _ => exact List.isChain_nil
    | [x], _ => exact List.isChain_singleton x
    | x :: y :: rest, hshort => exact absurd rfl (hshort x y rest)

theorem replacePair_of_apart {a b : Char} {text : Text} (h : text.IsChain (Apart a b)) :
    replacePair a b c text = text := by
  fun_induction replacePair a b c text with
  | case1 x y rest hpair ih => exact absurd hpair (List.isChain_cons_cons.mp h).1
  | case2 x y rest hpair ih => rw [ih (List.isChain_cons_cons.mp h).2]
  | case3 => rfl

structure Literal (value : Text) : Prop where
  unquoted : ¬ Quoted value
  quotes : value.IsChain (Apart '\\' '"')
  slashes : value.IsChain (Apart '\\' '\\')

variable {value : Text}

theorem readKvValue_of_literal (h : Literal value) : readKvValue value = value := by
  simp only [readKvValue, if_neg h.unquoted, replacePair_of_apart h.quotes,
    replacePair_of_apart h.slashes]

theorem weight_of_quoted (hdouble : w ≠ '"') (hsingle : w ≠ '\'') (h : Quoted value) :
    weight w value.tail.dropLast + 2 = weight w value := by
  obtain ⟨hlength, hhead, hlast⟩ := h
  have hends : ∃ q inner, q ≠ w ∧ value = q :: inner ++ [q] := by
    cases value with
    | nil => simp at hlength
    | cons q rest =>
      obtain ⟨inner, last, rfl⟩ := List.eq_nil_or_concat rest |>.resolve_left
        (by rintro rfl; simp at hlength)
      simp only [List.head?_cons, Option.some.injEq] at hhead
      have hsame : last = q := by simpa [List.getLast?_cons] using hlast
      refine ⟨q, inner, ?_, by simp [hsame]⟩
      rcases hhead with rfl | rfl
      · exact hdouble.symm
      · exact hsingle.symm
  obtain ⟨q, inner, hq, rfl⟩ := hends
  simp [weight_cons_of_ne hq]

/-- **What is read of a value** weighs no more; it weighs the same only of a literal value. -/
theorem readKvValue_weight (hdouble : w ≠ '"') (hsingle : w ≠ '\'') (hslash : w ≠ '\\')
    (raw : Text) :
    weight w (readKvValue raw) ≤ weight w raw ∧
      (weight w (readKvValue raw) = weight w raw → Literal raw) := by
  have hreplaced : ∀ value : Text,
      weight w (replacePair '\\' '\\' '\\' (replacePair '\\' '"' '"' value)) ≤ weight w value ∧
      (weight w (replacePair '\\' '\\' '\\' (replacePair '\\' '"' '"' value)) = weight w value →
        value.IsChain (Apart '\\' '"') ∧ value.IsChain (Apart '\\' '\\')) := by
    intro value
    have hquotes := replacePair_weight hslash.symm hdouble.symm hdouble.symm value
    have hslashes := replacePair_weight hslash.symm hslash.symm hslash.symm
      (replacePair '\\' '"' '"' value)
    refine ⟨hslashes.1.trans hquotes.1, fun heq => ?_⟩
    obtain ⟨hchain, hsame⟩ := hquotes.2 (by omega)
    rw [hsame] at hslashes heq
    exact ⟨hchain, (hslashes.2 heq).1⟩
  simp only [readKvValue]
  split
  · rename_i hquoted
    have hinner := weight_of_quoted hdouble hsingle hquoted
    have hle := (hreplaced raw.tail.dropLast).1
    exact ⟨by omega, fun heq => by omega⟩
  · rename_i hquoted
    refine ⟨(hreplaced raw).1, fun heq => ?_⟩
    obtain ⟨hquotes, hslashes⟩ := (hreplaced raw).2 heq
    exact ⟨hquoted, hquotes, hslashes⟩

end Weight

/-! ### What is found weighs no more than the line -/

section Found

variable {word : WordClass} {w : Char}

def totalWeight (w : Char) (pairs : List (Text × Text)) : Nat := (pairs.map (pairWeight w)).sum

theorem takeQuoted_eq {text body rest : Text} (h : takeQuoted text = some (body, rest)) :
    text = body ++ '"' :: rest := by
  fun_induction takeQuoted text generalizing body with
  | case1 => cases h
  | case2 => cases h; rfl
  | case3 => cases h
  | case4 c cs hc ih =>
    obtain ⟨⟨body', rest'⟩, hm, heq⟩ := Option.map_eq_some_iff.mp h
    cases heq
    rw [ih hm]
    rfl
  | case5 => cases h
  | case6 c cs _ _ _ ih =>
    obtain ⟨⟨body', rest'⟩, hm, heq⟩ := Option.map_eq_some_iff.mp h
    cases heq
    rw [ih hm]
    rfl

theorem unspacedRun_isPrefix (text : Text) : unspacedRun text <+: text := List.takeWhile_prefix _

theorem matchKvValue_isPrefix (text : Text) : matchKvValue text <+: text := by
  fun_cases matchKvValue text with
  | case1 rest body after hm =>
    rw [takeQuoted_eq hm]
    exact ⟨after, by simp⟩
  | case2 => exact unspacedRun_isPrefix _
  | case3 rest hmem =>
    have hdrop : rest.dropWhile (· ≠ '\'') ≠ [] := by
      intro hnil
      have := dropWhile_eq_nil_iff.mp hnil '\'' hmem
      simp at this
    obtain ⟨q, after, hq⟩ := exists_cons_of_ne_nil hdrop
    have hquote : q = '\'' := by
      have := head?_dropWhile_not (fun c : Char => decide (c ≠ '\'')) rest
      rw [hq] at this
      simpa using this
    refine ⟨after, ?_⟩
    conv_rhs => rw [← takeWhile_append_dropWhile (p := fun c => decide (c ≠ '\''))
      (l := rest), hq, hquote]
    simp
  | case4 => exact unspacedRun_isPrefix _
  | case5 => exact unspacedRun_isPrefix _

theorem matchKvKey_eq {text key rest : Text} (h : matchKvKey word text = some (key, rest)) :
    text = key ++ '=' :: rest ∧ key ≠ [] ∧ ∀ c ∈ key, isKvKeyChar word c = true := by
  unfold matchKvKey at h
  split at h
  · rename_i c cs after htake hdrop
    cases h
    refine ⟨?_, cons_ne_nil _ _, ?_⟩
    · rw [← htake, ← hdrop, takeWhile_append_dropWhile]
    · intro x hx
      rw [← htake] at hx
      exact mem_takeWhile_imp hx
  · cases h

/-- **The pairs that are found** weigh no more than the text they are found in. -/
theorem totalWeight_findKv_le (hw : w ≠ '=') (skip : Nat) (text : Text) :
    totalWeight w (findKv word skip text) ≤ weight w (text.drop skip) := by
  fun_induction findKv word skip text with
  | case1 => simp [totalWeight]
  | case2 skip c cs ih => exact ih
  | case3 c cs key rest hkey ih =>
    obtain ⟨htext, -, -⟩ := matchKvKey_eq hkey
    obtain ⟨after, hafter⟩ := matchKvValue_isPrefix rest
    generalize matchKvValue rest = value at ih hafter ⊢
    subst hafter
    have hdrop : cs.drop (key.length + value.length) = after := by
      have hone : cs.drop (key.length + value.length) =
          (c :: cs).drop ((key ++ '=' :: value).length) := by
        simp only [length_append, length_cons, ← Nat.add_assoc, drop_succ_cons]
      have hsplit : key ++ '=' :: (value ++ after) = (key ++ '=' :: value) ++ after := by simp
      rw [hone, htext, hsplit, drop_left]
    rw [hdrop] at ih
    rw [drop_zero, htext]
    simp only [totalWeight, map_cons, sum_cons, weight_append,
      weight_cons_of_ne hw.symm, pairWeight] at ih ⊢
    omega
  | case4 c cs _ ih =>
    simp only [drop_zero] at ih ⊢
    have : weight w (c :: cs) = weight w [c] + weight w cs := weight_append [c] cs
    omega

variable {pairs : List (Text × Text)}

theorem totalWeight_perm {pairs' : List (Text × Text)} (h : pairs.Perm pairs') :
    totalWeight w pairs = totalWeight w pairs' :=
  (h.map _).sum_eq

theorem totalWeight_of_subperm {found : List (Text × Text)} (h : pairs.Subperm found) :
    totalWeight w pairs ≤ totalWeight w found ∧
      (totalWeight w pairs = totalWeight w found → pairs.Perm found) := by
  obtain ⟨chosen, hchosen, hsub⟩ := h
  obtain ⟨rest, happend⟩ := hsub.exists_perm_append
  have hrest : found.Perm (pairs ++ rest) := happend.trans (hchosen.append_right rest)
  have htotal : totalWeight w found = totalWeight w pairs + totalWeight w rest := by
    rw [totalWeight_perm hrest]
    simp [totalWeight]
  refine ⟨by omega, fun heq => ?_⟩
  have hnil : rest = [] := by
    cases rest with
    | nil => rfl
    | cons pair rest =>
      simp only [totalWeight, map_cons, sum_cons, pairWeight] at htotal heq
      omega
  rw [hnil, append_nil] at hrest
  exact hrest.symm

/-- What is read of found pairs weighs no more, and weighs the same only if all values are
literal. -/
theorem totalWeight_read (hdouble : w ≠ '"') (hsingle : w ≠ '\'') (hslash : w ≠ '\\')
    (found : List (Text × Text)) :
    totalWeight w (found.map fun m => (m.1, readKvValue m.2)) ≤ totalWeight w found ∧
      (totalWeight w (found.map fun m => (m.1, readKvValue m.2)) = totalWeight w found →
        ∀ m ∈ found, Literal m.2) := by
  induction found with
  | nil => simp
  | cons m found ih =>
    have hread := readKvValue_weight hdouble hsingle hslash m.2
    simp only [totalWeight, List.map_cons, List.sum_cons, pairWeight, List.forall_mem_cons]
      at ih ⊢
    refine ⟨by omega, fun heq => ⟨hread.2 (by omega), ih.2 (by omega)⟩⟩

/-- **Pairs that weigh as much as the line**, and are all read of it, are what is found in it, and
their values are literal. -/
theorem found_perm (hspace : isSpace w = true) {line : Text} (hkeys : (pairs.map Prod.fst).Nodup)
    (hweight : totalWeight w pairs = weight w line)
    (hread : ∀ pair ∈ pairs, pair ∈ kvPairs word line) :
    pairs.Perm (findKv word 0 line) ∧ ∀ pair ∈ pairs, Literal pair.2 := by
  have hne : ∀ c : Char, isSpace c = false → w ≠ c := by
    rintro c hc rfl
    rw [hspace] at hc
    cases hc
  have hfound := @totalWeight_findKv_le word _ (hne '=' (by decide)) 0 line
  have hvalues := totalWeight_read (hne '"' (by decide)) (hne '\'' (by decide))
    (hne '\\' (by decide)) (findKv word 0 line)
  have hsub := totalWeight_of_subperm (w := w)
    (List.Nodup.subperm (List.Nodup.of_map _ hkeys) hread)
  rw [drop_zero] at hfound
  have hliteral := hvalues.2 (by unfold kvPairs at hsub; omega)
  have hsame : kvPairs word line = findKv word 0 line := by
    unfold kvPairs
    conv_rhs => rw [← List.map_id (findKv word 0 line)]
    apply map_congr_left
    intro m hm
    rw [readKvValue_of_literal (hliteral m hm)]
    rfl
  have hperm := hsub.2 (by unfold kvPairs at hsub ⊢; omega)
  rw [hsame] at hperm
  exact ⟨hperm, fun pair hpair => hliteral pair (hperm.mem_iff.mp hpair)⟩

end Found

/-! ### Pairs between white space -/

/-- `key=value`. -/
def encodeAttr (pair : Text × Text) : Text := pair.1 ++ '=' :: pair.2

def joinAttrs (sep : Char) (attrs : List (Text × Text)) : Text :=
  [sep].intercalate (attrs.map encodeAttr)

def afterFirst (sep : Char) (rest : List (Text × Text)) : Text :=
  if rest = [] then [] else sep :: joinAttrs sep rest

theorem joinAttrs_cons (sep : Char) (pair : Text × Text) (rest : List (Text × Text)) :
    joinAttrs sep (pair :: rest) = encodeAttr pair ++ afterFirst sep rest := by
  cases rest with
  | nil => simp [joinAttrs, afterFirst]
  | cons pair' rest => simp [joinAttrs, afterFirst, intercalate_cons_cons]

section Reading

variable (word : WordClass)

/-- A key that `_KV_RE` takes as a whole. -/
def KvKey (key : Text) : Prop := key ≠ [] ∧ ∀ c ∈ key, isKvKeyChar word c = true

structure PlainValue (value : Text) : Prop where
  unspaced : ∀ c ∈ value, isSpace c = false
  quotes : value.IsChain (Apart '\\' '"')
  slashes : value.IsChain (Apart '\\' '\\')

/-- The pairs that are read back: where a value begins with a quote, neither the rest of it nor a
later value holds that quote. -/
def KvReadable : List (Text × Text) → Prop
  | [] => True
  | pair :: rest =>
    KvKey word pair.1 ∧ PlainValue pair.2 ∧
      (∀ q, q = '"' ∨ q = '\'' → pair.2.head? = some q →
        q ∉ pair.2.tail ∧ ∀ later ∈ rest, q ∉ later.2) ∧
      KvReadable rest

end Reading

section Chains

variable {a b : Char} {text : Text}

theorem apart_of_notMem (h : a ∉ text) : text.IsChain (Apart a b) := by
  induction text with
  | nil => exact isChain_nil
  | cons x text ih =>
    cases text with
    | nil => exact isChain_singleton x
    | cons y text =>
      refine isChain_cons_cons.mpr ⟨?_, ih fun hmem => h (mem_cons_of_mem _ hmem)⟩
      rintro ⟨rfl, -⟩
      exact h mem_cons_self

theorem apart_append_cons {before after : Text} {x : Char} (hxa : x ≠ a) (hxb : x ≠ b)
    (hbefore : before.IsChain (Apart a b)) (hafter : after.IsChain (Apart a b)) :
    (before ++ x :: after).IsChain (Apart a b) := by
  refine isChain_append.mpr ⟨hbefore, ?_, ?_⟩
  · cases after with
    | nil => exact isChain_singleton x
    | cons y after => exact isChain_cons_cons.mpr ⟨fun h => hxa h.1, hafter⟩
  · intro y _ z hz
    rw [head?_cons, Option.mem_some_iff] at hz
    exact fun h => hxb (hz.trans h.2)

theorem takeQuoted_eq_none_iff (hquotes : text.IsChain (Apart '\\' '"'))
    (hslashes : text.IsChain (Apart '\\' '\\')) (hline : '\n' ∉ text) :
    takeQuoted text = none ↔ '"' ∉ text := by
  fun_induction takeQuoted text with
  | case1 => simp
  | case2 => simp
  | case3 => simp at hline
  | case4 c cs hc ih =>
    obtain ⟨hcq, hcs⟩ := isChain_cons_cons.mp hquotes
    have hquote : '"' ≠ c := fun h => hcq ⟨rfl, h.symm⟩
    rw [Option.map_eq_none_iff, ih hcs.tail (List.isChain_cons_cons.mp hslashes).2.tail
      fun h => hline (List.mem_cons_of_mem _ (List.mem_cons_of_mem _ h))]
    simp [hquote]
  | case5 cs hnot hnext =>
    cases cs with
    | nil => simp
    | cons c cs => exact (hnext c cs rfl rfl).elim
  | case6 c cs hquote hnext hc ih =>
    have hne : '"' ≠ c := fun h => hquote h.symm
    rw [Option.map_eq_none_iff, ih hquotes.tail hslashes.tail
      fun h => hline (mem_cons_of_mem _ h)]
    simp [hne]

end Chains

def SpaceFirst (text : Text) : Prop := ∀ c, text.head? = some c → isSpace c = true

variable {value rest : Text}

theorem unspacedRun_append (hrest : SpaceFirst rest) (hvalue : ∀ c ∈ value, isSpace c = false) :
    unspacedRun (value ++ rest) = value := by
  unfold unspacedRun
  rw [takeWhile_append_of_pos fun c hc => by simp [hvalue c hc]]
  have hnone : rest.takeWhile (fun c => !isSpace c) = [] := by
    cases rest with
    | nil => rfl
    | cons c rest => simp [hrest c rfl]
  rw [hnone, append_nil]

theorem unspaced_of_run {text : Text} (h : unspacedRun text = value) :
    ∀ c ∈ value, isSpace c = false := by
  intro c hc
  rw [← h] at hc
  simpa using mem_takeWhile_imp hc

/-- **The value that is found** in front of white space is the whole value exactly if it is not
spaced and no quote it begins with is closed. -/
theorem matchKvValue_append_iff (hrest : SpaceFirst rest) (hliteral : Literal value)
    (hquotes : (value ++ rest).IsChain (Apart '\\' '"'))
    (hslashes : (value ++ rest).IsChain (Apart '\\' '\\')) (hline : '\n' ∉ value ++ rest) :
    matchKvValue (value ++ rest) = value ↔
      (∀ c ∈ value, isSpace c = false) ∧
        ∀ q, q = '"' ∨ q = '\'' → value.head? = some q → q ∉ value.tail ++ rest := by
  have hrun : unspacedRun (value ++ rest) = value ↔ ∀ c ∈ value, isSpace c = false :=
    ⟨unspaced_of_run, unspacedRun_append hrest⟩
  -- a value in quotes is not literal
  have hopen : ∀ q body, q = '"' ∨ q = '\'' → q :: body ++ [q] ≠ value := by
    rintro q body hq rfl
    apply hliteral.unquoted
    refine ⟨by simp, ?_, List.getLast?_concat⟩
    rcases hq with rfl | rfl
    · exact .inl rfl
    · exact .inr rfl
  cases value with
  | nil =>
    have hhead : matchKvValue ([] ++ rest) = unspacedRun ([] ++ rest) := by
      unfold matchKvValue
      split
      · rename_i h
        have := hrest '"' (by rw [nil_append] at h; rw [h]; rfl)
        exact absurd this (by decide)
      · rename_i h
        have := hrest '\'' (by rw [nil_append] at h; rw [h]; rfl)
        exact absurd this (by decide)
      · rfl
    rw [hhead, hrun]
    simp
  | cons q tail =>
    rw [cons_append] at hquotes hslashes hline hrun ⊢
    by_cases hdouble : q = '"'
    · subst hdouble
      have hnone := takeQuoted_eq_none_iff hquotes.tail hslashes.tail
        fun h => hline (List.mem_cons_of_mem _ h)
      rw [List.tail_cons] at hnone
      by_cases hclosed : '"' ∈ tail ++ rest
      · obtain ⟨⟨body, after⟩, hsome⟩ := Option.ne_none_iff_exists'.mp
          fun h => hnone.mp h hclosed
        have hne := hopen '"' body (.inl rfl)
        simp only [matchKvValue, hsome, hne, false_iff, not_and]
        intro _ hall
        exact hall '"' (.inl rfl) rfl hclosed
      · simp only [matchKvValue, hnone.mpr hclosed, hrun]
        refine ⟨fun h => ⟨h, ?_⟩, And.left⟩
        intro q _ hq
        cases hq
        exact hclosed
    · by_cases hsingle : q = '\''
      · subst hsingle
        by_cases hclosed : '\'' ∈ tail ++ rest
        · have hne := hopen '\'' ((tail ++ rest).takeWhile (· ≠ '\'')) (.inr rfl)
          simp only [matchKvValue, hclosed, if_true, hne, false_iff, not_and]
          intro _ hall
          exact hall '\'' (.inr rfl) rfl hclosed
        · simp only [matchKvValue, hclosed, if_false, hrun]
          refine ⟨fun h => ⟨h, ?_⟩, And.left⟩
          intro q _ hq
          cases hq
          exact hclosed
      · have hplain : matchKvValue (q :: (tail ++ rest)) = unspacedRun (q :: (tail ++ rest)) := by
          unfold matchKvValue
          split
          · rename_i h
            exact absurd (cons_eq_cons.mp h).1 hdouble
          · rename_i h
            exact absurd (cons_eq_cons.mp h).1 hsingle
          · rfl
        rw [hplain, hrun]
        refine ⟨fun h => ⟨h, ?_⟩, And.left⟩
        intro q' hq' hhead
        cases hhead
        rcases hq' with rfl | rfl
        · exact absurd rfl hdouble
        · exact absurd rfl hsingle

/-! ### The pairs of a line -/

section Lines

variable {word : WordClass} {sep : Char} {attrs : List (Text × Text)} {c : Char}
  {pair : Text × Text} {rest : List (Text × Text)}

theorem isKvKeyChar_ascii (hascii : c.toNat < 128)
    (hc : (c.isAlphanum || c == '_' || c == '.' || c == '-') = false) :
    isKvKeyChar word c = false := by
  simp only [Bool.or_eq_false_iff] at hc
  simp [isKvKeyChar, word.ascii c hascii, hc]

theorem isKvKeyChar_space (h : isSpace c = true) : isKvKeyChar word c = false := by
  have hdot : c ≠ '.' := by rintro rfl; exact absurd h (by decide)
  have hdash : c ≠ '-' := by rintro rfl; exact absurd h (by decide)
  simp [isKvKeyChar, word.space c h, hdot, hdash]

variable {key : Text}

theorem notMem_key (hkey : KvKey word key) (hc : isKvKeyChar word c = false) : c ∉ key := by
  intro hmem
  rw [hkey.2 c hmem] at hc
  cases hc

theorem matchKvKey_of_key (hkey : KvKey word key) (rest : Text) :
    matchKvKey word (key ++ '=' :: rest) = some (key, rest) := by
  have hstop : isKvKeyChar word '=' = false := isKvKeyChar_ascii (by decide) (by decide)
  have htake : (key ++ '=' :: rest).takeWhile (isKvKeyChar word) = key := by
    rw [takeWhile_append_of_pos hkey.2, takeWhile_cons, hstop]
    exact append_nil _
  have hdrop : (key ++ '=' :: rest).dropWhile (isKvKeyChar word) = '=' :: rest := by
    rw [dropWhile_append_of_pos hkey.2, dropWhile_cons, hstop]
    rfl
  obtain ⟨c, cs, rfl⟩ := exists_cons_of_ne_nil hkey.1
  simp only [matchKvKey, htake, hdrop]

theorem findKv_skip (text rest : Text) :
    findKv word text.length (text ++ rest) = findKv word 0 rest := by
  induction text with
  | nil => rfl
  | cons c text ih => exact ih

theorem findKv_space (hsep : isSpace sep = true) (rest : Text) :
    findKv word 0 (sep :: rest) = findKv word 0 rest := by
  have hmatch : matchKvKey word (sep :: rest) = none := by
    simp [matchKvKey, isKvKeyChar_space hsep]
  rw [findKv, hmatch]

theorem findKv_key (hkey : KvKey word key) (text : Text) :
    ∃ after, findKv word 0 (key ++ '=' :: text) = (key, matchKvValue text) :: after := by
  have hmatch := matchKvKey_of_key hkey text
  obtain ⟨c, cs, rfl⟩ := exists_cons_of_ne_nil hkey.1
  rw [cons_append] at hmatch ⊢
  rw [findKv, hmatch]
  exact ⟨_, rfl⟩

theorem findKv_pair (hkey : KvKey word pair.1) {rest : Text}
    (hvalue : matchKvValue (pair.2 ++ rest) = pair.2) :
    findKv word 0 (encodeAttr pair ++ rest) = pair :: findKv word 0 rest := by
  obtain ⟨key, value⟩ := pair
  have hmatch := matchKvKey_of_key hkey (value ++ rest)
  have hlength : key.length + value.length = (key.tail ++ '=' :: value).length := by
    have hpos : 0 < key.length := length_pos_of_ne_nil hkey.1
    simp only [length_append, length_tail, length_cons]
    omega
  obtain ⟨c, cs, hcs⟩ := exists_cons_of_ne_nil hkey.1
  dsimp only at hcs hvalue hlength hmatch
  have htext : encodeAttr (key, value) ++ rest = c :: ((cs ++ '=' :: value) ++ rest) := by
    simp [encodeAttr, hcs]
  have hmatch' : matchKvKey word (c :: ((cs ++ '=' :: value) ++ rest)) =
      some (key, value ++ rest) := by
    rw [← hmatch, hcs]
    simp
  rw [htext, findKv, hmatch']
  dsimp only
  rw [hvalue, hlength, hcs, tail_cons, findKv_skip]

theorem kvKey_of_found {skip : Nat} {text : Text} {m : Text × Text}
    (h : m ∈ findKv word skip text) : KvKey word m.1 := by
  fun_induction findKv word skip text with
  | case1 => cases h
  | case2 skip c cs ih => exact ih h
  | case3 c cs key rest hkey ih =>
    rcases mem_cons.mp h with rfl | htail
    · exact (matchKvKey_eq hkey).2
    · exact ih htail
  | case4 c cs _ ih => exact ih h

theorem findKv_afterFirst (hsep : isSpace sep = true) (rest : List (Text × Text)) :
    findKv word 0 (afterFirst sep rest) = findKv word 0 (joinAttrs sep rest) := by
  unfold afterFirst
  split
  · rename_i hnil
    rw [hnil]
    rfl
  · exact findKv_space hsep _

theorem afterFirst_spaceFirst (hsep : isSpace sep = true) (rest : List (Text × Text)) :
    SpaceFirst (afterFirst sep rest) := by
  intro c hc
  unfold afterFirst at hc
  split at hc
  · cases hc
  · cases hc
    exact hsep

theorem mem_joinAttrs (h : c ∈ joinAttrs sep attrs) :
    c = sep ∨ c = '=' ∨ ∃ pair ∈ attrs, c ∈ pair.1 ∨ c ∈ pair.2 := by
  induction attrs with
  | nil => simp [joinAttrs] at h
  | cons pair rest ih =>
    rw [joinAttrs_cons, mem_append] at h
    rcases h with hpair | hafter
    · simp only [encodeAttr, mem_append, mem_cons] at hpair
      rcases hpair with hkey | heq | hvalue
      · exact .inr (.inr ⟨pair, mem_cons_self, .inl hkey⟩)
      · exact .inr (.inl heq)
      · exact .inr (.inr ⟨pair, mem_cons_self, .inr hvalue⟩)
    · unfold afterFirst at hafter
      split at hafter
      · cases hafter
      · rcases mem_cons.mp hafter with hc | hrest
        · exact .inl hc
        · rcases ih hrest with hc | hc | ⟨pair', hmem, hc⟩
          · exact .inl hc
          · exact .inr (.inl hc)
          · exact .inr (.inr ⟨pair', mem_cons_of_mem _ hmem, hc⟩)

theorem mem_afterFirst (h : c ∈ afterFirst sep rest) :
    c = sep ∨ c = '=' ∨ ∃ pair ∈ rest, c ∈ pair.1 ∨ c ∈ pair.2 := by
  unfold afterFirst at h
  split at h
  · cases h
  · rcases mem_cons.mp h with hc | hrest
    · exact .inl hc
    · exact mem_joinAttrs hrest

theorem encodeAttr_mem_text (hpair : pair ∈ attrs) :
    ∃ before after, joinAttrs sep attrs = before ++ encodeAttr pair ++ after := by
  induction attrs with
  | nil => cases hpair
  | cons p rest ih =>
    rw [joinAttrs_cons]
    rcases mem_cons.mp hpair with rfl | htail
    · exact ⟨[], afterFirst sep rest, rfl⟩
    · obtain ⟨before, after, hjoin⟩ := ih htail
      refine ⟨encodeAttr p ++ sep :: before, after, ?_⟩
      simp [afterFirst, ne_nil_of_mem htail, hjoin]

theorem mem_joinAttrs_of_pair (hpair : pair ∈ attrs)
    (hc : c ∈ encodeAttr pair) : c ∈ joinAttrs sep attrs := by
  obtain ⟨before, after, hjoin⟩ := encodeAttr_mem_text hpair
  rw [hjoin]
  simp [hc]

theorem mem_afterFirst_of_value
    (hpair : pair ∈ rest) (hc : c ∈ pair.2) : c ∈ afterFirst sep rest := by
  simp only [afterFirst, if_neg (ne_nil_of_mem hpair)]
  exact mem_cons_of_mem _ (mem_joinAttrs_of_pair hpair (by simp [encodeAttr, hc]))

variable {b : Char}

theorem apart_joinAttrs (hb : b = '"' ∨ b = '\\') (hsep : isSpace sep = true)
    (hattrs : ∀ pair ∈ attrs, KvKey word pair.1 ∧ pair.2.IsChain (Apart '\\' b)) :
    (joinAttrs sep attrs).IsChain (Apart '\\' b) := by
  have hslash : isKvKeyChar word '\\' = false := isKvKeyChar_ascii (by decide) (by decide)
  have hsepSlash : sep ≠ '\\' := by rintro rfl; exact absurd hsep (by decide)
  have hsepB : sep ≠ b := by
    rintro rfl
    rcases hb with rfl | rfl
    · exact absurd hsep (by decide)
    · exact absurd hsep (by decide)
  have heqB : '=' ≠ b := by
    rcases hb with rfl | rfl
    · decide
    · decide
  induction attrs with
  | nil => exact List.isChain_nil
  | cons pair rest ih =>
    obtain ⟨hkey, hvalue⟩ := hattrs pair List.mem_cons_self
    have hrest := ih fun p hp => hattrs p (List.mem_cons_of_mem _ hp)
    have hkeyChain : pair.1.IsChain (Apart '\\' b) := apart_of_notMem (notMem_key hkey hslash)
    rw [joinAttrs_cons, encodeAttr, List.append_assoc, List.cons_append]
    apply apart_append_cons (by decide) heqB hkeyChain
    unfold afterFirst
    split
    · rw [List.append_nil]
      exact hvalue
    · exact apart_append_cons hsepSlash hsepB hvalue hrest

variable {value : Text}

theorem apart_afterFirst (hb : b = '"' ∨ b = '\\') (hsep : isSpace sep = true)
    (hattrs : ∀ pair ∈ attrs, KvKey word pair.1 ∧ pair.2.IsChain (Apart '\\' b))
    (hvalue : value.IsChain (Apart '\\' b)) :
    (value ++ afterFirst sep attrs).IsChain (Apart '\\' b) := by
  have hsepSlash : sep ≠ '\\' := by rintro rfl; exact absurd hsep (by decide)
  have hsepB : sep ≠ b := by
    rintro rfl
    rcases hb with rfl | rfl
    · exact absurd hsep (by decide)
    · exact absurd hsep (by decide)
  unfold afterFirst
  split
  · rw [append_nil]
    exact hvalue
  · exact apart_append_cons hsepSlash hsepB hvalue (apart_joinAttrs hb hsep hattrs)

/-- **The first value of a line** is found as a whole exactly if it is plain and a quote it begins
with comes neither in it nor in a later value. -/
theorem first_value_iff (hspace : isSpace sep = true) (hbreak : isBreak sep = false)
    (hvalue : Literal value) (hlater : ∀ pair ∈ rest, KvKey word pair.1 ∧ Literal pair.2)
    (hlines : '\n' ∉ value ∧ ∀ pair ∈ rest, '\n' ∉ pair.2) :
    matchKvValue (value ++ afterFirst sep rest) = value ↔
      PlainValue value ∧ ∀ q, q = '"' ∨ q = '\'' → value.head? = some q →
        q ∉ value.tail ∧ ∀ later ∈ rest, q ∉ later.2 := by
  have hquotes := apart_afterFirst (.inl rfl) hspace
    (fun pair hp => ⟨(hlater pair hp).1, (hlater pair hp).2.quotes⟩) hvalue.quotes
  have hslashes := apart_afterFirst (.inr rfl) hspace
    (fun pair hp => ⟨(hlater pair hp).1, (hlater pair hp).2.slashes⟩) hvalue.slashes
  have hline : '\n' ∉ value ++ afterFirst sep rest := by
    intro hmem
    rcases List.mem_append.mp hmem with hin | hafter
    · exact hlines.1 hin
    · rcases mem_afterFirst hafter with rfl | heq | ⟨pair, hp, hkey | hin⟩
      · exact absurd hbreak (by decide)
      · exact absurd heq (by decide)
      · exact notMem_key (hlater pair hp).1 (isKvKeyChar_ascii (by decide) (by decide)) hkey
      · exact hlines.2 pair hp hin
  rw [matchKvValue_append_iff (afterFirst_spaceFirst hspace rest) hvalue hquotes hslashes hline]
  have hquote : ∀ q, q = '"' ∨ q = '\'' →
      (q ∉ value.tail ++ afterFirst sep rest ↔ q ∉ value.tail ∧ ∀ later ∈ rest, q ∉ later.2) := by
    intro q hq
    have hplain : isKvKeyChar word q = false ∧ q ≠ sep ∧ q ≠ '=' := by
      rcases hq with rfl | rfl
      · refine ⟨isKvKeyChar_ascii (by decide) (by decide), ?_, by decide⟩
        rintro rfl
        exact absurd hspace (by decide)
      · refine ⟨isKvKeyChar_ascii (by decide) (by decide), ?_, by decide⟩
        rintro rfl
        exact absurd hspace (by decide)
    rw [mem_append, not_or]
    refine and_congr_right fun _ => ⟨fun h later hp hin => ?_, fun h hin => ?_⟩
    · exact h (mem_afterFirst_of_value hp hin)
    · rcases mem_afterFirst hin with hsep | heq | ⟨pair, hp, hkey | hvalue⟩
      · exact hplain.2.1 hsep
      · exact hplain.2.2 heq
      · exact notMem_key (hlater pair hp).1 hplain.1 hkey
      · exact h pair hp hvalue
  constructor
  · rintro ⟨hunspaced, hclosed⟩
    exact ⟨⟨hunspaced, hvalue.quotes, hvalue.slashes⟩,
      fun q hq hhead => (hquote q hq).mp (hclosed q hq hhead)⟩
  · rintro ⟨hplain, hclosed⟩
    exact ⟨hplain.unspaced, fun q hq hhead => (hquote q hq).mpr (hclosed q hq hhead)⟩

theorem KvReadable.literal (h : KvReadable word attrs) :
    ∀ pair ∈ attrs, KvKey word pair.1 ∧ Literal pair.2 := by
  induction attrs with
  | nil => simp
  | cons pair rest ih =>
    obtain ⟨hkey, hplain, hquote, hrest⟩ := h
    intro p hp
    rcases mem_cons.mp hp with rfl | htail
    · refine ⟨hkey, ?_, hplain.quotes, hplain.slashes⟩
      rintro ⟨hlength, hhead, hlast⟩
      obtain ⟨q, hq, hfirst⟩ : ∃ q, (q = '"' ∨ q = '\'') ∧ p.2.head? = some q := by
        rcases hhead with hhead | hhead
        · exact ⟨_, .inl rfl, hhead⟩
        · exact ⟨_, .inr rfl, hhead⟩
      apply (hquote q hq hfirst).1
      have hsome := hlast.trans hfirst
      generalize p.2 = value at hlength hfirst hsome
      cases value with
      | nil => cases hfirst
      | cons c tail =>
        cases tail with
        | nil => simp at hlength
        | cons c' tail =>
          rw [getLast?_cons_cons] at hsome
          exact mem_of_getLast? hsome
    · exact ih hrest p htail

/-- **A readable line** is found pair by pair. -/
theorem findKv_joinAttrs (hspace : isSpace sep = true) (hbreak : isBreak sep = false)
    (h : KvReadable word attrs) (hlines : ∀ pair ∈ attrs, '\n' ∉ pair.2) :
    findKv word 0 (joinAttrs sep attrs) = attrs := by
  induction attrs with
  | nil => rfl
  | cons pair rest ih =>
    have hliteral := h.literal
    obtain ⟨hkey, hplain, hquote, hrest⟩ := h
    have hlater := fun p hp => hlines p (mem_cons_of_mem _ hp)
    have hvalue := (first_value_iff hspace hbreak (hliteral pair mem_cons_self).2
      (fun p hp => hliteral p (mem_cons_of_mem _ hp))
      ⟨hlines pair mem_cons_self, hlater⟩).mpr ⟨hplain, hquote⟩
    rw [joinAttrs_cons, findKv_pair hkey hvalue, findKv_afterFirst hspace, ih hrest hlater]

theorem readable_of_found (hspace : isSpace sep = true) (hbreak : isBreak sep = false)
    (hkeys : (attrs.map Prod.fst).Nodup)
    (hfound : attrs.Perm (findKv word 0 (joinAttrs sep attrs)))
    (hliteral : ∀ pair ∈ attrs, Literal pair.2) (hlines : ∀ pair ∈ attrs, '\n' ∉ pair.2) :
    KvReadable word attrs := by
  induction attrs with
  | nil => trivial
  | cons pair rest ih =>
    have hkey : ∀ p ∈ pair :: rest, KvKey word p.1 := fun p hp =>
      kvKey_of_found (hfound.mem_iff.mp hp)
    have hlater := fun p hp => hliteral p (mem_cons_of_mem _ hp)
    have hlinesLater := fun p hp => hlines p (mem_cons_of_mem _ hp)
    obtain ⟨hnot, hnodup⟩ := nodup_cons.mp (map_cons ▸ hkeys)
    -- the pair found first has the first key, so it is the first pair
    have hjoin := joinAttrs_cons sep pair rest
    obtain ⟨after, hafter⟩ := findKv_key (hkey pair mem_cons_self)
      (pair.2 ++ afterFirst sep rest)
    have hline : pair.1 ++ '=' :: (pair.2 ++ afterFirst sep rest) =
        joinAttrs sep (pair :: rest) := by
      rw [hjoin]
      simp [encodeAttr]
    rw [hline] at hafter
    have hvalue : matchKvValue (pair.2 ++ afterFirst sep rest) = pair.2 := by
      have hmem : (pair.1, matchKvValue (pair.2 ++ afterFirst sep rest)) ∈ pair :: rest := by
        rw [hfound.mem_iff, hafter]
        exact mem_cons_self
      rcases mem_cons.mp hmem with heq | htail
      · exact congrArg Prod.snd heq
      · exact absurd (mem_map_of_mem (f := Prod.fst) htail) hnot
    have hfirst := (first_value_iff hspace hbreak (hliteral pair mem_cons_self)
      (fun p hp => ⟨hkey p (mem_cons_of_mem _ hp), hlater p hp⟩)
      ⟨hlines pair mem_cons_self, hlinesLater⟩).mp hvalue
    refine ⟨hkey pair mem_cons_self, hfirst.1, hfirst.2, ih hnodup ?_ hlater hlinesLater⟩
    rw [hjoin, findKv_pair (hkey pair mem_cons_self) hvalue,
      findKv_afterFirst hspace] at hfound
    exact (perm_cons pair).mp hfound

theorem totalWeight_joinAttrs (hsep : sep ≠ '=') :
    totalWeight sep attrs = weight sep (joinAttrs sep attrs) := by
  induction attrs with
  | nil => rfl
  | cons pair rest ih =>
    have hafter : weight sep (afterFirst sep rest) = weight sep (joinAttrs sep rest) := by
      unfold afterFirst
      split
      · rename_i hnil
        rw [hnil]
        rfl
      · simp [weight]
    rw [joinAttrs_cons, weight_append, hafter, ← ih]
    simp only [totalWeight, map_cons, sum_cons, pairWeight, encodeAttr, weight_append,
      weight_cons_of_ne hsep.symm]
    omega

theorem kvPairs_of_readable (hspace : isSpace sep = true) (hbreak : isBreak sep = false)
    (h : KvReadable word attrs) (hlines : ∀ pair ∈ attrs, '\n' ∉ pair.2) :
    kvPairs word (joinAttrs sep attrs) = attrs := by
  rw [kvPairs, findKv_joinAttrs hspace hbreak h hlines]
  conv_rhs => rw [← map_id attrs]
  apply map_congr_left
  intro pair hpair
  rw [readKvValue_of_literal (h.literal pair hpair).2]
  rfl

/-- **Pairs between white space** are all read exactly if they are readable. -/
theorem kv_read_iff (hspace : isSpace sep = true) (hbreak : isBreak sep = false)
    (hkeys : (attrs.map Prod.fst).Nodup) (hlines : ∀ pair ∈ attrs, '\n' ∉ pair.2) :
    (∀ pair ∈ attrs, pair ∈ kvPairs word (joinAttrs sep attrs)) ↔ KvReadable word attrs := by
  have hsep : sep ≠ '=' := by rintro rfl; exact absurd hspace (by decide)
  constructor
  · intro hread
    obtain ⟨hperm, hliteral⟩ := found_perm hspace hkeys (totalWeight_joinAttrs hsep) hread
    exact readable_of_found hspace hbreak hkeys hperm hliteral hlines
  · intro h pair hpair
    rw [kvPairs_of_readable hspace hbreak h hlines]
    exact hpair

end Lines

end AgenticKibana.Receivers
