import AgenticKibana.Library.Dict
import AgenticKibana.Library.Json

/-!
# Reading JSON text

`loads` reads a JSON text: for every value whose objects have no key twice, `loads (dumps j)` is
`j` with its keys sorted (`loads_dumps`), and dumping that again gives the same text
(`dumps_sortKeys`).  A number is read as the decimal number its text denotes; the rounding of a
text that is not the shortest one of its float is not modelled, and half of a surrogate pair on
its own is refused.
-/

namespace AgenticKibana.Library.Json

open List

/-! ### The reader -/

def isSpace (c : Char) : Bool := c = ' ' || c = '\t' || c = '\n' || c = '\r'

def skipSpace (cs : List Char) : List Char := cs.dropWhile isSpace

def hexValue (c : Char) : Option Nat :=
  if c.isDigit then some (c.toNat - 48)
  else if 'a' ≤ c ∧ c ≤ 'f' then some (c.toNat - 87)
  else if 'A' ≤ c ∧ c ≤ 'F' then some (c.toNat - 55)
  else none

def hex4 (a b c d : Char) : Option Nat := do
  let a ← hexValue a
  let b ← hexValue b
  let c ← hexValue c
  let d ← hexValue d
  return ((a * 16 + b) * 16 + c) * 16 + d

def unescape (c : Char) : Option Char :=
  if c = '"' ∨ c = '\\' ∨ c = '/' then some c
  else if c = 'b' then some (Char.ofNat 8)
  else if c = 'f' then some (Char.ofNat 12)
  else if c = 'n' then some '\n'
  else if c = 'r' then some '\r'
  else if c = 't' then some '\t'
  else none

/-- The character `\u` and four digits stand for, of a pair with the four that follow. -/
def readUnicode (n : Nat) (cs : List Char) : Option (Char × List Char) :=
  if n < 0xD800 ∨ 0xE000 ≤ n then some (Char.ofNat n, cs)
  else
    match cs with
    | '\\' :: 'u' :: a :: b :: c :: d :: cs =>
      match hex4 a b c d with
      | some m =>
        if n < 0xDC00 ∧ 0xDC00 ≤ m ∧ m < 0xE000 then
          some (Char.ofNat (0x10000 + (n - 0xD800) * 0x400 + (m - 0xDC00)), cs)
        else none
      | none => none
    | _ => none

def readChar : List Char → Option (Char × List Char)
  | [] => none
  | c :: cs =>
    if c = '\\' then
      match cs with
      | [] => none
      | e :: cs =>
        if e = 'u' then
          match cs with
          | a :: b :: c :: d :: cs => (hex4 a b c d).bind fun n => readUnicode n cs
          | _ => none
        else (unescape e).map fun c => (c, cs)
    else if c.toNat < 32 then none
    else some (c, cs)

def readString : Nat → List Char → Option (List Char × List Char)
  | 0, _ => none
  | _ + 1, [] => none
  | fuel + 1, c :: cs =>
    if c = '"' then some ([], cs)
    else do
      let (c, rest) ← readChar (c :: cs)
      let (s, rest) ← readString fuel rest
      return (c :: s, rest)

def readFraction : List Char → Option (List Char) × List Char
  | '.' :: cs =>
    if cs.takeWhile Char.isDigit = [] then (none, '.' :: cs)
    else (some (cs.takeWhile Char.isDigit), cs.dropWhile Char.isDigit)
  | cs => (none, cs)

def readSign : List Char → Bool × List Char
  | '-' :: cs => (true, cs)
  | '+' :: cs => (false, cs)
  | cs => (false, cs)

def readExponent : List Char → Option (Bool × List Char) × List Char
  | c :: cs =>
    if c = 'e' ∨ c = 'E' then
      let (neg, ds) := readSign cs
      if ds.takeWhile Char.isDigit = [] then (none, c :: cs)
      else (some (neg, ds.takeWhile Char.isDigit), ds.dropWhile Char.isDigit)
    else (none, c :: cs)
  | [] => (none, [])

def signed (neg : Bool) (n : Nat) : Int := if neg then -n else n

def numberOf (neg : Bool) (ip : List Char) (fp : Option (List Char))
    (ep : Option (Bool × List Char)) : Json :=
  let digits := Nat.ofDigitChars 10 (ip ++ fp.getD []) 0
  if fp.isNone && ep.isNone then .int (signed neg digits)
  else
    .float (Decimal.ofParts neg digits
      ((ep.map fun e => signed e.1 (Nat.ofDigitChars 10 e.2 0)).getD 0 - (fp.getD []).length))

def readNumber (cs : List Char) : Option (Json × List Char) :=
  let neg := cs.head? = some '-'
  let body := if neg then cs.tail else cs
  let ip := body.takeWhile Char.isDigit
  if ip = [] ∨ (ip.head? = some '0' ∧ ip.length ≠ 1) then none
  else
    let (fp, rest) := readFraction (body.dropWhile Char.isDigit)
    let (ep, rest) := readExponent rest
    some (numberOf neg ip fp ep, rest)

mutual
def readValue : Nat → List Char → Option (Json × List Char)
  | 0, _ => none
  | fuel + 1, cs =>
    match skipSpace cs with
    | '"' :: cs => (readString (cs.length + 1) cs).map fun r => (.str (String.ofList r.1), r.2)
    | '[' :: cs =>
      match skipSpace cs with
      | ']' :: cs => some (.arr [], cs)
      | cs => (readItems fuel cs).map fun r => (.arr r.1, r.2)
    | '{' :: cs =>
      match skipSpace cs with
      | '}' :: cs => some (.obj [], cs)
      | cs => (readMembers fuel [] cs).map fun r => (.obj r.1, r.2)
    | 'n' :: 'u' :: 'l' :: 'l' :: cs => some (.null, cs)
    | 't' :: 'r' :: 'u' :: 'e' :: cs => some (.bool true, cs)
    | 'f' :: 'a' :: 'l' :: 's' :: 'e' :: cs => some (.bool false, cs)
    | cs => readNumber cs

def readItems : Nat → List Char → Option (List Json × List Char)
  | 0, _ => none
  | fuel + 1, cs =>
    (readValue fuel cs).bind fun r =>
      match skipSpace r.2 with
      | ',' :: cs => (readItems fuel cs).map fun t => (r.1 :: t.1, t.2)
      | ']' :: cs => some ([r.1], cs)
      | _ => none

/-- The members of an object, into the dictionary read so far: a later member replaces an
earlier one of the same key. -/
def readMembers : Nat → List (String × Json) → List Char → Option (List (String × Json) × List Char)
  | 0, _, _ => none
  | fuel + 1, acc, cs =>
    match skipSpace cs with
    | '"' :: cs =>
      (readString (cs.length + 1) cs).bind fun k =>
        match skipSpace k.2 with
        | ':' :: cs =>
          (readValue fuel cs).bind fun r =>
            let acc := Dict.assign (String.ofList k.1) r.1 acc
            match skipSpace r.2 with
            | ',' :: cs => readMembers fuel acc cs
            | '}' :: cs => some (acc, cs)
            | _ => none
        | _ => none
    | _ => none
end

/-- `json.loads(text)`; `none` where it raises. -/
def loads (cs : List Char) : Option Json :=
  match readValue (cs.length + 1) cs with
  | some (j, rest) => if skipSpace rest = [] then some j else none
  | none => none

example : loads "\x7b\"b\": [1, -0.5e1, \"\\u0041\"], \"a\": null\x7d".toList =
    some (.obj [("b", .arr [.int 1, .float (Decimal.ofInt (-5)), .str "A"]), ("a", .null)]) := by
  decide +kernel

variable {n : Nat}

theorem hexValue_hexDigit (h : n < 16) : hexValue (hexDigit n) = some n := by
  revert n
  decide

theorem hexValue_zero : hexValue '0' = some 0 := by decide

theorem readChar_escapeChar (c : Char) (rest : List Char) :
    readChar (escapeChar c ++ rest) = some (c, rest) := by
  unfold escapeChar
  by_cases hquote : c = '"'
  · subst hquote
    rfl
  rw [if_neg hquote]
  by_cases hback : c = '\\'
  · subst hback
    rfl
  rw [if_neg hback]
  by_cases hn : c = '\n'
  · subst hn
    rfl
  rw [if_neg hn]
  by_cases hr : c = '\r'
  · subst hr
    rfl
  rw [if_neg hr]
  by_cases ht : c = '\t'
  · subst ht
    rfl
  rw [if_neg ht]
  by_cases hb : c = Char.ofNat 8
  · subst hb
    rfl
  rw [if_neg hb]
  by_cases hf : c = Char.ofNat 12
  · subst hf
    rfl
  rw [if_neg hf]
  by_cases hcontrol : c.toNat < 32
  · rw [if_pos hcontrol]
    have hhex : hex4 '0' '0' (hexDigit (c.toNat / 16)) (hexDigit (c.toNat % 16)) =
        some c.toNat := by
      unfold hex4
      rw [hexValue_hexDigit (by omega), hexValue_hexDigit (by omega), hexValue_zero]
      simp only [bind, Option.bind_some, pure, Option.some.injEq]
      omega
    change (hex4 '0' '0' (hexDigit (c.toNat / 16)) (hexDigit (c.toNat % 16))).bind
      (fun n => readUnicode n rest) = _
    rw [hhex, Option.bind_some]
    unfold readUnicode
    rw [if_pos (.inl (by omega)), Char.ofNat_toNat]
  · rw [if_neg hcontrol]
    simp [readChar, hback, hcontrol]

theorem escapeChar_cons (c : Char) : ∃ d ds, escapeChar c = d :: ds ∧ d ≠ '"' := by
  unfold escapeChar
  split
  · exact ⟨_, _, rfl, by decide⟩
  · split
    · exact ⟨_, _, rfl, by decide⟩
    · split
      · exact ⟨_, _, rfl, by decide⟩
      · split
        · exact ⟨_, _, rfl, by decide⟩
        · split
          · exact ⟨_, _, rfl, by decide⟩
          · split
            · exact ⟨_, _, rfl, by decide⟩
            · split
              · exact ⟨_, _, rfl, by decide⟩
              · split
                · exact ⟨_, _, rfl, by decide⟩
                · next hquote _ _ _ _ _ _ _ => exact ⟨_, _, rfl, hquote⟩

theorem readString_escaped (s rest : List Char) (fuel : Nat) (hfuel : s.length < fuel) :
    readString fuel (s.flatMap escapeChar ++ '"' :: rest) = some (s, rest) := by
  induction s generalizing fuel with
  | nil =>
    obtain ⟨fuel, rfl⟩ : ∃ f, fuel = f + 1 := ⟨fuel - 1, by simp at hfuel; omega⟩
    simp [readString]
  | cons c s ih =>
    obtain ⟨fuel, rfl⟩ : ∃ f, fuel = f + 1 := ⟨fuel - 1, by simp at hfuel; omega⟩
    have hread := readChar_escapeChar c (s.flatMap escapeChar ++ '"' :: rest)
    obtain ⟨d, ds, hd, hne⟩ := escapeChar_cons c
    have hrest := ih fuel (by simpa using hfuel)
    rw [hd] at hread
    rw [flatMap_cons, append_assoc, hd]
    rw [cons_append] at hread ⊢
    simp only [readString, if_neg hne, hread, bind, Option.bind_some, hrest, pure]

theorem length_flatMap_escapeChar (s : List Char) : s.length ≤ (s.flatMap escapeChar).length := by
  induction s with
  | nil => simp
  | cons c s ih =>
    obtain ⟨d, ds, hd, -⟩ := escapeChar_cons c
    rw [flatMap_cons, hd]
    simp only [length_cons, length_append]
    omega

theorem readString_quote (s : String) (rest : List Char) :
    readString ((s.toList.flatMap escapeChar ++ '"' :: rest).length + 1)
      (s.toList.flatMap escapeChar ++ '"' :: rest) = some (s.toList, rest) := by
  apply readString_escaped
  have := length_flatMap_escapeChar s.toList
  simp only [length_append, length_cons]
  omega

/-! ### Numbers -/

def Closed (rest : List Char) : Prop :=
  ∀ c ∈ rest.head?, c = ',' ∨ c = ']' ∨ c = '}'

theorem closed_nil : Closed [] := by simp [Closed]

variable {c : Char} {cs rest : List Char} {ep : Option (Bool × List Char)}
  {fp : Option (List Char)} {ms : List (String × Json)} {j : Json}

theorem closed_cons (h : c = ',' ∨ c = ']' ∨ c = '}') :
    Closed (c :: cs) := by
  simpa [Closed] using h

variable {ds : List Char}

theorem takeWhile_digits (hds : ∀ c ∈ ds, c.isDigit = true)
    (hrest : ∀ c ∈ rest.head?, c.isDigit = false) :
    (ds ++ rest).takeWhile Char.isDigit = ds ∧ (ds ++ rest).dropWhile Char.isDigit = rest := by
  rw [takeWhile_append_of_pos hds, dropWhile_append_of_pos hds]
  cases rest with
  | nil => simp
  | cons c cs =>
    have hc := hrest c rfl
    simp [hc]

def fractionText : Option (List Char) → List Char
  | none => []
  | some ds => '.' :: ds

def exponentText : Option (Bool × List Char) → List Char
  | none => []
  | some (neg, ds) => 'e' :: (if neg then '-' else '+') :: ds

theorem digit_of_closed (h : Closed rest) :
    ∀ c ∈ rest.head?, c.isDigit = false := by
  intro c hc
  rcases h c hc with rfl | rfl | rfl <;> decide

theorem head_exponentText (ep : Option (Bool × List Char))
    (h : Closed rest) : ∀ c ∈ (exponentText ep ++ rest).head?, c.isDigit = false ∧ c ≠ '.' := by
  cases ep with
  | none =>
    intro c hc
    rcases h c hc with rfl | rfl | rfl <;> decide
  | some e =>
    intro c hc
    obtain rfl : 'e' = c := Option.some.inj hc
    decide

theorem readExponent_text
    (hep : ∀ e ∈ ep, e.2 ≠ [] ∧ ∀ c ∈ e.2, c.isDigit = true) (hrest : Closed rest) :
    readExponent (exponentText ep ++ rest) = (ep, rest) := by
  cases ep with
  | none =>
    cases rest with
    | nil => rfl
    | cons c cs =>
      have hc := hrest c rfl
      have hne : ¬ (c = 'e' ∨ c = 'E') := by
        rcases hc with rfl | rfl | rfl <;> decide
      simp [exponentText, readExponent, hne]
  | some e =>
    obtain ⟨neg, ds⟩ := e
    have hds : ds ≠ [] ∧ ∀ c ∈ ds, c.isDigit = true := hep _ rfl
    obtain ⟨htake, hdrop⟩ := takeWhile_digits hds.2 (digit_of_closed hrest)
    have hsign : readSign ((if neg then '-' else '+') :: (ds ++ rest)) = (neg, ds ++ rest) := by
      cases neg <;> rfl
    simp only [exponentText, cons_append, readExponent, true_or, if_true, hsign, htake,
      hdrop, if_neg hds.1]

theorem readFraction_text (hfp : ∀ ds ∈ fp, ds ≠ [] ∧ ∀ c ∈ ds, c.isDigit = true)
    (hrest : ∀ c ∈ rest.head?, c.isDigit = false ∧ c ≠ '.') :
    readFraction (fractionText fp ++ rest) = (fp, rest) := by
  cases fp with
  | none =>
    cases rest with
    | nil => rfl
    | cons c cs =>
      have hne := (hrest c rfl).2
      change readFraction (c :: cs) = _
      unfold readFraction
      split
      · next hcons => exact absurd (List.cons.inj hcons).1 hne
      · rfl
  | some ds =>
    obtain ⟨hne, hds⟩ := hfp _ rfl
    obtain ⟨htake, hdrop⟩ := takeWhile_digits hds fun c hc => (hrest c hc).1
    simp only [fractionText, cons_append, readFraction, htake, hdrop, if_neg hne]

structure NumberParts (ip : List Char) (fp : Option (List Char)) (ep : Option (Bool × List Char)) :
    Prop where
  present : ip ≠ []
  digits : ∀ c ∈ ip, c.isDigit = true
  leading : ip.head? ≠ some '0' ∨ ip.length = 1
  fraction : ∀ ds ∈ fp, ds ≠ [] ∧ ∀ c ∈ ds, c.isDigit = true
  exponent : ∀ e ∈ ep, e.2 ≠ [] ∧ ∀ c ∈ e.2, c.isDigit = true

def partsText (neg : Bool) (ip : List Char) (fp : Option (List Char))
    (ep : Option (Bool × List Char)) : List Char :=
  (if neg then ['-'] else []) ++ (ip ++ (fractionText fp ++ exponentText ep))

variable {ip : List Char}

/-- **A number is read back from its parts.** -/
theorem readNumber_parts {neg : Bool} (h : NumberParts ip fp ep) (hrest : Closed rest) :
    readNumber (partsText neg ip fp ep ++ rest) = some (numberOf neg ip fp ep, rest) := by
  have htail := head_exponentText ep hrest
  have hfirst : ∀ c ∈ (fractionText fp ++ (exponentText ep ++ rest)).head?, c.isDigit = false := by
    cases fp with
    | none => exact fun c hc => (htail c hc).1
    | some ds =>
      intro c hc
      obtain rfl : '.' = c := Option.some.inj hc
      decide
  obtain ⟨htake, hdrop⟩ := takeWhile_digits h.digits hfirst
  have hbad : ¬ (ip = [] ∨ ip.head? = some '0' ∧ ip.length ≠ 1) := by
    rintro (hnil | ⟨h0, h1⟩)
    · exact h.present hnil
    · exact h.leading.elim (fun hne => hne h0) h1
  have hparts : readFraction (fractionText fp ++ (exponentText ep ++ rest)) =
      (fp, exponentText ep ++ rest) := readFraction_text h.fraction htail
  have hexp := readExponent_text h.exponent hrest
  rw [partsText, append_assoc, append_assoc, append_assoc]
  cases neg with
  | true =>
    unfold readNumber
    simp only [if_true, cons_append, nil_append, head?_cons, decide_true,
      tail_cons, htake, hdrop, if_neg hbad, hparts, hexp]
  | false =>
    have hneg : ¬ (ip ++ (fractionText fp ++ (exponentText ep ++ rest))).head? = some '-' := by
      obtain ⟨c, cs, rfl⟩ := exists_cons_of_ne_nil h.present
      have hc : c ≠ '-' := by
        rintro rfl
        exact absurd (h.digits '-' mem_cons_self) (by decide)
      simpa using hc
    unfold readNumber
    simp only [Bool.false_eq_true, if_false, nil_append, hneg, decide_false, htake, hdrop,
      if_neg hbad, hparts, hexp]

theorem head_toDigits (hn : n ≠ 0) : (Nat.toDigits 10 n).head? ≠ some '0' := by
  induction n using Nat.strongRecOn with
  | ind n ih =>
    by_cases hlt : n < 10
    · have hdigit : ∀ k < 10, k ≠ 0 → [Nat.digitChar k].head? ≠ some '0' := by decide
      rw [Nat.toDigits_of_lt_base hlt]
      exact hdigit n hlt hn
    · rw [Nat.toDigits_of_base_le (by decide) (by omega)]
      obtain ⟨c, cs, hcons⟩ := exists_cons_of_ne_nil (Nat.toDigits_ne_nil (n := n / 10) (b := 10))
      have hhead := ih (n / 10) (by omega) (by omega)
      rw [hcons] at hhead ⊢
      simpa using hhead

theorem digits_toDigits (n : Nat) : ∀ c ∈ Nat.toDigits 10 n, c.isDigit = true :=
  fun _ hc => Nat.isDigit_of_mem_toDigits (by decide) (by decide) hc

theorem digits_zeros (n : Nat) : ∀ c ∈ List.replicate n '0', c.isDigit = true := by
  intro c hc
  rw [eq_of_mem_replicate hc]
  decide

theorem readNumber_intText (n : Int) (hrest : Closed rest) :
    readNumber (intText n ++ rest) = some (.int n, rest) := by
  have hparts : NumberParts (Nat.toDigits 10 n.natAbs) none none := by
    refine ⟨Nat.toDigits_ne_nil, digits_toDigits _, ?_, by simp, by simp⟩
    by_cases hn : n.natAbs = 0
    · rw [hn]
      exact .inr rfl
    · exact .inl (head_toDigits hn)
  have htext : intText n = partsText (decide (n < 0)) (Nat.toDigits 10 n.natAbs) none none := by
    unfold intText
    by_cases hn : n < 0 <;> simp [hn, partsText, fractionText, exponentText]
  have hvalue : numberOf (decide (n < 0)) (Nat.toDigits 10 n.natAbs) none none = .int n := by
    simp only [numberOf, Option.isNone_none, Bool.and_self, if_true, Option.getD_none,
      append_nil, Nat.ofDigitChars_ten_toDigits, signed, decide_eq_true_eq]
    congr 1
    split <;> omega
  rw [htext, readNumber_parts hparts hrest, hvalue]

/-! ### Floats

The four ways a number is written, for its digits `m` and its exponent `e`. -/

section Floats

variable {m : Nat} {e : Int}

theorem parts_exponential {k : Int} (hcons : Nat.toDigits 10 m = c :: cs) {pad : List Char}
    (hpad : pad = [] ∨ pad = ['0']) (hk : k - cs.length = e) :
    ∃ fp ep, (if cs = [] then [] else '.' :: cs) ++
        'e' :: (if k < 0 then '-' else '+') :: (pad ++ Nat.toDigits 10 k.natAbs) =
          fractionText fp ++ exponentText ep ∧ NumberParts [c] fp ep ∧
      (fp.isNone && ep.isNone) = false ∧ Nat.ofDigitChars 10 ([c] ++ fp.getD []) 0 = m * 10 ^ 0 ∧
      ((ep.map fun e => signed e.1 (Nat.ofDigitChars 10 e.2 0)).getD 0 -
        (fp.getD []).length : Int) =
        e - (0 : Nat) := by
  have hdig := digits_toDigits m
  rw [hcons] at hdig
  have hvalue : Nat.ofDigitChars 10 (pad ++ Nat.toDigits 10 k.natAbs) 0 = k.natAbs := by
    rw [Nat.ofDigitChars_append]
    rcases hpad with rfl | rfl <;> exact Nat.ofDigitChars_ten_toDigits
  have hfp : (if cs = [] then none else some cs).getD [] = cs := by
    split
    · next h => exact h.symm
    · rfl
  refine ⟨if cs = [] then none else some cs,
    some (decide (k < 0), pad ++ Nat.toDigits 10 k.natAbs), ?_,
      ⟨by simp, ?_, .inr rfl, ?_, ?_⟩, by simp,
    ?_, ?_⟩
  · by_cases hcs : cs = [] <;> simp [hcs, fractionText, exponentText]
  · intro c' hc'
    rw [mem_singleton.mp hc']
    exact hdig c mem_cons_self
  · intro ds hds
    split at hds
    · cases hds
    · next hcs =>
        obtain rfl := Option.some.inj hds
        exact ⟨hcs, fun c' hc' => hdig c' (mem_cons_of_mem _ hc')⟩
  · rintro e' ⟨⟩
    refine ⟨by simp, fun c' hc' => ?_⟩
    rcases mem_append.mp hc' with hc' | hc'
    · rcases hpad with rfl | rfl
      · cases hc'
      · exact digits_zeros 1 c' hc'
    · exact digits_toDigits _ c' hc'
  · rw [hfp, singleton_append, ← hcons, Nat.ofDigitChars_ten_toDigits]
    simp
  · rw [hfp, Option.map_some, Option.getD_some, hvalue, signed]
    simp only [decide_eq_true_eq]
    split <;> omega

variable {n : Nat}

theorem parts_integral (hm : m ≠ 0) (hn : (n : Int) = e) :
    NumberParts (Nat.toDigits 10 m ++ List.replicate n '0') (some ['0']) none ∧
      Nat.ofDigitChars 10 (Nat.toDigits 10 m ++ List.replicate n '0' ++ ['0']) 0 =
        m * 10 ^ (n + 1) ∧
      (0 - (1 : Nat) : Int) = e - (n + 1 : Nat) := by
  refine ⟨⟨by simp, ?_, .inl ?_, ?_, by simp⟩, ?_, by omega⟩
  · exact fun c hc => (mem_append.mp hc).elim (digits_toDigits m c) (digits_zeros n c)
  · have hhead := head_toDigits hm
    obtain ⟨c, cs, hcons⟩ := exists_cons_of_ne_nil (Nat.toDigits_ne_nil (n := m) (b := 10))
    rw [hcons] at hhead ⊢
    simpa using hhead
  · rintro ds ⟨⟩
    exact ⟨by simp, digits_zeros 1⟩
  · rw [append_assoc, ← replicate_succ', Nat.ofDigitChars_append,
      Nat.ofDigitChars_ten_toDigits, Nat.ofDigitChars_replicate_zero, Nat.mul_comm]

theorem parts_inside (hm : m ≠ 0) (hn : 0 < n ∧ n < (Nat.toDigits 10 m).length)
    (he : ((Nat.toDigits 10 m).length + e : Int) = n) :
    NumberParts ((Nat.toDigits 10 m).take n) (some ((Nat.toDigits 10 m).drop n)) none ∧
      Nat.ofDigitChars 10 ((Nat.toDigits 10 m).take n ++ (Nat.toDigits 10 m).drop n) 0 =
        m * 10 ^ 0 ∧
      (0 - ((Nat.toDigits 10 m).drop n).length : Int) = e - (0 : Nat) := by
  have hdig := digits_toDigits m
  refine ⟨⟨?_, ?_, .inl ?_, ?_, by simp⟩, ?_, ?_⟩
  · rw [Ne, take_eq_nil_iff]
    rintro (h | h)
    · omega
    · exact Nat.toDigits_ne_nil h
  · exact fun c hc => hdig c (mem_of_mem_take hc)
  · have hhead := head_toDigits hm
    obtain ⟨c, cs, hcons⟩ := exists_cons_of_ne_nil (Nat.toDigits_ne_nil (n := m) (b := 10))
    obtain ⟨n, rfl⟩ : ∃ k, n = k + 1 := ⟨n - 1, by omega⟩
    rw [hcons] at hhead ⊢
    simpa using hhead
  · rintro ds ⟨⟩
    refine ⟨?_, fun c hc => hdig c (mem_of_mem_drop hc)⟩
    rw [Ne, drop_eq_nil_iff]
    omega
  · rw [take_append_drop, Nat.ofDigitChars_ten_toDigits]
    simp
  · rw [length_drop]
    omega

theorem parts_below (he : ((Nat.toDigits 10 m).length + e : Int) = -n) :
    NumberParts ['0'] (some (List.replicate n '0' ++ Nat.toDigits 10 m)) none ∧
      Nat.ofDigitChars 10 (['0'] ++ (List.replicate n '0' ++ Nat.toDigits 10 m)) 0 = m * 10 ^ 0 ∧
      (0 - (List.replicate n '0' ++ Nat.toDigits 10 m).length : Int) = e - (0 : Nat) := by
  refine ⟨⟨by simp, digits_zeros 1, .inr rfl, ?_, by simp⟩, ?_, ?_⟩
  · rintro ds ⟨⟩
    exact ⟨by simp, fun c hc =>
      (mem_append.mp hc).elim (digits_zeros n c) (digits_toDigits m c)⟩
  · rw [← append_assoc, singleton_append, ← replicate_succ, Nat.ofDigitChars_append,
      Nat.ofDigitChars_replicate_zero, Nat.mul_zero, Nat.ofDigitChars_ten_toDigits]
    simp
  · rw [length_append, length_replicate]
    omega

end Floats

theorem numberOf_decimal (d : Decimal) (hd : d.digits ≠ 0) {k : Nat}
    (hfloat : (fp.isNone && ep.isNone) = false)
    (hdigits : Nat.ofDigitChars 10 (ip ++ fp.getD []) 0 = d.digits * 10 ^ k)
    (hexp : ((ep.map fun e => signed e.1 (Nat.ofDigitChars 10 e.2 0)).getD 0 -
      (fp.getD []).length : Int) = d.exp - k) : numberOf d.neg ip fp ep = .float d := by
  simp only [numberOf, hfloat, Bool.false_eq_true, if_false, hdigits, hexp,
    Decimal.ofParts_shift d hd k]

/-- **The text of a float is made of the parts of the float.** -/
theorem decimal_parts (d : Decimal) : ∃ ip fp ep, d.text = partsText d.neg ip fp ep ∧
    NumberParts ip fp ep ∧ numberOf d.neg ip fp ep = .float d := by
  unfold Decimal.text
  by_cases hzero : d.digits = 0
  · refine ⟨['0'], some ['0'], none, ?_, ⟨by simp, digits_zeros 1, .inr rfl, ?_, by simp⟩, ?_⟩
    · simp [hzero, partsText, fractionText, exponentText]
    · rintro ds ⟨⟩
      exact ⟨by simp, digits_zeros 1⟩
    · change Json.float (Decimal.ofParts d.neg 0 _) = _
      rw [Decimal.ofParts_zero d hzero]
  · simp only [if_neg hzero]
    obtain ⟨c, cs, hcons⟩ :=
      exists_cons_of_ne_nil (Nat.toDigits_ne_nil (n := d.digits) (b := 10))
    by_cases hsci : 16 < ((Nat.toDigits 10 d.digits).length + d.exp : Int) ∨
        ((Nat.toDigits 10 d.digits).length + d.exp : Int) ≤ -4
    · simp only [if_pos hsci]
      generalize hk : ((Nat.toDigits 10 d.digits).length + d.exp : Int) - 1 = k
      have hpad : (if (Nat.toDigits 10 k.natAbs).length = 1 then ['0'] else []) = [] ∨
          (if (Nat.toDigits 10 k.natAbs).length = 1 then ['0'] else []) = ['0'] := by
        split
        · exact .inr rfl
        · exact .inl rfl
      obtain ⟨fp, ep, htext, hparts, hfloat, hdigits, hexp⟩ :=
        parts_exponential hcons hpad (k := k) (e := d.exp)
          (by rw [hcons, length_cons] at hk; omega)
      refine ⟨[c], fp, ep, ?_, hparts, numberOf_decimal d hzero hfloat hdigits hexp⟩
      rw [partsText, ← htext, hcons]
      by_cases hcs : cs = [] <;> simp [hcs]
    · simp only [if_neg hsci]
      by_cases hpos : 0 ≤ d.exp
      · obtain ⟨hparts, hdigits, hexp⟩ :=
          parts_integral hzero (e := d.exp) (n := d.exp.toNat) (by omega)
        refine ⟨_, _, none, ?_, hparts, numberOf_decimal d hzero rfl hdigits hexp⟩
        simp [if_pos hpos, partsText, fractionText, exponentText]
      · simp only [if_neg hpos]
        by_cases hpoint : 0 < ((Nat.toDigits 10 d.digits).length + d.exp : Int)
        · simp only [if_pos hpoint]
          generalize hn : ((Nat.toDigits 10 d.digits).length + d.exp : Int).toNat = n
          obtain ⟨hparts, hdigits, hexp⟩ :=
            parts_inside hzero (e := d.exp) (n := n) (by omega) (by omega)
          refine ⟨_, _, none, ?_, hparts, numberOf_decimal d hzero rfl hdigits hexp⟩
          simp [partsText, fractionText, exponentText]
        · simp only [if_neg hpoint]
          generalize hn : (-((Nat.toDigits 10 d.digits).length + d.exp : Int)).toNat = n
          obtain ⟨hparts, hdigits, hexp⟩ :=
            parts_below (m := d.digits) (e := d.exp) (n := n) (by omega)
          refine ⟨_, _, none, ?_, hparts, numberOf_decimal d hzero rfl hdigits hexp⟩
          simp [partsText, fractionText, exponentText]

/-- **A float is read back from its shortest text.** -/
theorem readNumber_decimal (d : Decimal) (hrest : Closed rest) :
    readNumber (d.text ++ rest) = some (.float d, rest) := by
  obtain ⟨ip, fp, ep, htext, hparts, hvalue⟩ := decimal_parts d
  rw [htext, readNumber_parts hparts hrest, hvalue]

/-! ### Values -/

mutual
/-- No object has a key twice. -/
def valid : Json → Bool
  | .arr xs => validItems xs
  | .obj ms => decide (ms.map Prod.fst).Nodup && validMembers ms
  | _ => true
termination_by structural j => j

def validItems : List Json → Bool
  | [] => true
  | x :: xs => valid x && validItems xs
termination_by structural j => j

def validMembers : List (String × Json) → Bool
  | [] => true
  | m :: ms => validMember m && validMembers ms
termination_by structural j => j

def validMember : String × Json → Bool
  | (_, v) => valid v
termination_by structural j => j
end

def ReadsBack (j : Json) : Prop :=
  ∀ fuel rest, (text j).length ≤ fuel → Closed rest →
    readValue fuel (text j ++ rest) = some (j, rest)

theorem skipSpace_cons (cs : List Char) (h : isSpace c = false) :
    skipSpace (c :: cs) = c :: cs := by
  simp [skipSpace, h]

def Opens (cs : List Char) : Prop :=
  ∃ c ds, cs = c :: ds ∧ isSpace c = false ∧ c ≠ ']' ∧ c ≠ '}'

theorem opens_of_digit (h : c = '-' ∨ c.isDigit = true) : Opens (c :: ds) := by
  refine ⟨c, ds, rfl, ?_, ?_, ?_⟩
  · cases hc : isSpace c with
    | false => rfl
    | true =>
      simp only [isSpace, Bool.or_eq_true, decide_eq_true_eq] at hc
      rcases hc with ((rfl | rfl) | rfl) | rfl <;> revert h <;> decide
  · rintro rfl
    revert h
    decide
  · rintro rfl
    revert h
    decide

theorem head_partsText {neg : Bool} {ip : List Char} {fp : Option (List Char)}
    {ep : Option (Bool × List Char)} (h : NumberParts ip fp ep) :
    ∃ c ds, partsText neg ip fp ep = c :: ds ∧ (c = '-' ∨ c.isDigit = true) := by
  cases neg with
  | true => exact ⟨'-', _, rfl, .inl rfl⟩
  | false =>
    obtain ⟨c, cs, rfl⟩ := exists_cons_of_ne_nil h.present
    exact ⟨c, _, rfl, .inr (h.digits c mem_cons_self)⟩

variable {fuel : Nat}

theorem readValue_number (h : c = '-' ∨ c.isDigit = true) :
    readValue (fuel + 1) (c :: cs) = readNumber (c :: cs) := by
  obtain ⟨c', ds, hcons, hspace, -⟩ : Opens (c :: cs) := opens_of_digit h
  obtain ⟨rfl, rfl⟩ := List.cons.inj hcons
  rw [readValue, skipSpace_cons cs hspace]
  split
  · next heq => cases heq; exact absurd h (by decide)
  · next heq => cases heq; exact absurd h (by decide)
  · next heq => cases heq; exact absurd h (by decide)
  · next heq => cases heq; exact absurd h (by decide)
  · next heq => cases heq; exact absurd h (by decide)
  · next heq => cases heq; exact absurd h (by decide)
  · rfl

theorem opens_text (j : Json) : Opens (text j) := by
  cases j with
  | null => exact ⟨'n', _, rfl, by decide⟩
  | bool b => cases b <;> exact ⟨_, _, rfl, by decide⟩
  | int n =>
    rw [text]
    by_cases hn : n < 0
    · rw [intText, if_pos hn]
      exact opens_of_digit (.inl rfl)
    · rw [intText, if_neg hn]
      obtain ⟨c, cs, hcons⟩ :=
        exists_cons_of_ne_nil (Nat.toDigits_ne_nil (n := n.natAbs) (b := 10))
      rw [hcons]
      exact opens_of_digit (.inr (digits_toDigits _ c (hcons ▸ mem_cons_self)))
  | float d =>
    obtain ⟨ip, fp, ep, htext, hparts, -⟩ := decimal_parts d
    obtain ⟨c, ds, hcons, hc⟩ := @head_partsText d.neg _ _ _ hparts
    rw [text, htext, hcons]
    exact opens_of_digit hc
  | str s => exact ⟨'"', _, rfl, by decide⟩
  | arr xs =>
    cases xs with
    | nil => exact ⟨'[', [']'], by rw [text], by decide⟩
    | cons x xs => exact ⟨'[', text x ++ itemsText xs, by rw [text, List.cons_append], by decide⟩
  | obj ms =>
    cases ms with
    | nil => exact ⟨'{', ['}'], by rw [text], by decide⟩
    | cons m ms =>
      exact ⟨'{', memberText m ++ membersText ms, by rw [text, List.cons_append], by decide⟩

theorem readItems_text {xs : List Json} (hxs : ∀ x ∈ xs, ReadsBack x) {x : Json}
    (hx : ReadsBack x) {fuel : Nat} {rest : List Char}
    (hfuel : (text x ++ itemsText xs).length ≤ fuel) :
    readItems fuel (text x ++ (itemsText xs ++ rest)) = some (x :: xs, rest) := by
  induction xs generalizing x fuel with
  | nil =>
    simp only [itemsText, List.length_append, List.length_singleton] at hfuel
    obtain ⟨fuel, rfl⟩ : ∃ f, fuel = f + 1 := ⟨fuel - 1, by omega⟩
    rw [itemsText, List.singleton_append, readItems,
      hx fuel _ (by omega) (closed_cons (.inr (.inl rfl)))]
    rfl
  | cons y ys ih =>
    simp only [itemsText, List.length_append, List.length_cons] at hfuel
    obtain ⟨fuel, rfl⟩ : ∃ f, fuel = f + 1 := ⟨fuel - 1, by omega⟩
    have hrest : readItems fuel (text y ++ (itemsText ys ++ rest)) = some (y :: ys, rest) := by
      apply ih (fun z hz => hxs z (List.mem_cons_of_mem y hz)) (hxs y List.mem_cons_self)
      rw [List.length_append]
      omega
    rw [itemsText, List.cons_append, List.cons_append, List.append_assoc, readItems,
      hx fuel _ (by omega) (closed_cons (.inl rfl))]
    simp only [Option.bind_some]
    rw [skipSpace_cons _ (by decide)]
    simp only [hrest, Option.map_some]

theorem readMembers_member {k : String} {v : Json} (hv : ReadsBack v) (acc : List (String × Json))
    (hfuel : (text v).length ≤ fuel) (hrest : Closed rest) :
    readMembers (fuel + 1) acc (memberText (k, v) ++ rest) =
      (match skipSpace rest with
        | ',' :: cs => readMembers fuel (Dict.assign k v acc) cs
        | '}' :: cs => some (Dict.assign k v acc, cs)
        | _ => none) := by
  have htext : memberText (k, v) ++ rest =
      '"' :: (k.toList.flatMap escapeChar ++ '"' :: ':' :: (text v ++ rest)) := by
    simp [memberText, quote]
  rw [htext, readMembers, skipSpace_cons _ (by decide)]
  simp only [readString_quote, Option.bind_some]
  rw [skipSpace_cons _ (by decide)]
  simp only [hv fuel rest hfuel hrest, Option.bind_some, String.ofList_toList]

theorem length_memberText (m : String × Json) : (text m.2).length < (memberText m).length := by
  obtain ⟨k, v⟩ := m
  simp only [memberText, quote, List.length_append, List.length_cons]
  omega

theorem readMembers_text {ms : List (String × Json)} (hms : ∀ m ∈ ms, ReadsBack m.2)
    {m : String × Json} (hm : ReadsBack m.2) {acc : List (String × Json)}
    (hkeys : ((acc ++ m :: ms).map Prod.fst).Nodup) {fuel : Nat} {rest : List Char}
    (hfuel : (memberText m ++ membersText ms).length ≤ fuel) :
    readMembers fuel acc (memberText m ++ (membersText ms ++ rest)) =
      some (acc ++ m :: ms, rest) := by
  have hnew : ∀ {m : String × Json} {acc ms : List (String × Json)},
      ((acc ++ m :: ms).map Prod.fst).Nodup → Dict.assign m.1 m.2 acc = acc ++ [m] := by
    intro m acc ms hkeys
    apply Dict.assign_of_notMem
    intro hmem
    rw [List.map_append, List.map_cons] at hkeys
    exact (List.nodup_append.mp hkeys).2.2 m.1 hmem m.1 List.mem_cons_self rfl
  induction ms generalizing m acc fuel with
  | nil =>
    have hlen := length_memberText m
    simp only [List.length_append] at hfuel
    obtain ⟨fuel, rfl⟩ : ∃ f, fuel = f + 1 := ⟨fuel - 1, by omega⟩
    rw [membersText, List.singleton_append,
      readMembers_member hm acc (by omega) (closed_cons (.inr (.inr rfl))),
      skipSpace_cons _ (by decide), hnew hkeys]
    rfl
  | cons m' ms ih =>
    have hlen := length_memberText m
    simp only [membersText, List.length_append, List.length_cons] at hfuel
    obtain ⟨fuel, rfl⟩ : ∃ f, fuel = f + 1 := ⟨fuel - 1, by omega⟩
    have hrest : readMembers fuel (acc ++ [m]) (memberText m' ++ (membersText ms ++ rest)) =
        some (acc ++ [m] ++ m' :: ms, rest) := by
      apply ih (fun z hz => hms z (List.mem_cons_of_mem m' hz)) (hms m' List.mem_cons_self)
      · simpa using hkeys
      · rw [List.length_append]
        omega
    rw [membersText, List.cons_append, List.cons_append, List.append_assoc,
      readMembers_member hm acc (by omega) (closed_cons (.inl rfl)),
      skipSpace_cons _ (by decide), hnew hkeys]
    simp only [hrest, List.append_assoc, List.singleton_append]

theorem readValue_arr {x : Json} {xs : List Json} (hx : ReadsBack x)
    (hxs : ∀ x ∈ xs, ReadsBack x) :
    ReadsBack (.arr (x :: xs)) := by
  intro fuel rest hfuel _
  simp only [text, List.cons_append, List.length_cons] at hfuel
  obtain ⟨fuel, rfl⟩ : ∃ f, fuel = f + 1 := ⟨fuel - 1, by omega⟩
  have hitems := @readItems_text _ hxs _ hx fuel rest (by omega)
  obtain ⟨c, ds, hcons, hspace, hne, -⟩ := opens_text x
  rw [text, List.cons_append, List.cons_append, List.append_assoc, readValue,
    skipSpace_cons _ (by decide)]
  simp only
  rw [hcons, List.cons_append] at hitems ⊢
  rw [skipSpace_cons _ hspace]
  split
  · next heq => exact absurd (List.cons.inj heq).1 hne
  · simp only [hitems, Option.map_some]

theorem readValue_obj {m : String × Json} (hm : ReadsBack m.2)
    (hms : ∀ m ∈ ms, ReadsBack m.2) (hkeys : ((m :: ms).map Prod.fst).Nodup) :
    ReadsBack (.obj (m :: ms)) := by
  intro fuel rest hfuel _
  simp only [text, List.cons_append, List.length_cons] at hfuel
  obtain ⟨fuel, rfl⟩ : ∃ f, fuel = f + 1 := ⟨fuel - 1, by omega⟩
  have hmembers := @readMembers_text _ hms _ hm [] hkeys fuel rest (by omega)
  obtain ⟨ds, hcons⟩ : ∃ ds, memberText m = '"' :: ds := by
    obtain ⟨k, v⟩ := m
    exact ⟨_, rfl⟩
  rw [text, cons_append, cons_append, append_assoc, readValue,
    skipSpace_cons _ (by decide)]
  rw [hcons, cons_append] at hmembers ⊢
  have hquote := skipSpace_cons (c := '"') (ds ++ (membersText ms ++ rest)) (by decide)
  simp only [hquote]
  split
  · next heq => exact absurd (List.cons.inj heq).1 (by decide)
  · simp only [hmembers, Option.map_some, List.nil_append]

theorem readValue_numberText (htext : text j = cs)
    (hhead : ∃ c ds, cs = c :: ds ∧ (c = '-' ∨ c.isDigit = true))
    (hread : ∀ rest, Closed rest → readNumber (cs ++ rest) = some (j, rest)) : ReadsBack j := by
  intro fuel rest hfuel hrest
  obtain ⟨c, ds, rfl, hc⟩ := hhead
  rw [htext, List.length_cons] at hfuel
  obtain ⟨fuel, rfl⟩ : ∃ f, fuel = f + 1 := ⟨fuel - 1, by omega⟩
  rw [htext, List.cons_append, readValue_number hc]
  exact hread rest hrest

mutual
/-- **Every valid value is read back from its text.** -/
theorem readsBack : (j : Json) → valid j = true → ReadsBack j
  | .null, _ => by
    intro fuel rest hfuel _
    obtain ⟨fuel, rfl⟩ : ∃ f, fuel = f + 1 := ⟨fuel - 1, by simp [text] at hfuel; omega⟩
    rfl
  | .bool b, _ => by
    intro fuel rest hfuel _
    obtain ⟨fuel, rfl⟩ : ∃ f, fuel = f + 1 :=
      ⟨fuel - 1, by cases b <;> simp [text] at hfuel <;> omega⟩
    cases b <;> rfl
  | .int n, _ => by
    refine readValue_numberText rfl ?_ fun rest hrest => readNumber_intText n hrest
    by_cases hn : n < 0
    · exact ⟨'-', _, if_pos hn, .inl rfl⟩
    · obtain ⟨c, cs, hcons⟩ :=
        List.exists_cons_of_ne_nil (Nat.toDigits_ne_nil (n := n.natAbs) (b := 10))
      exact ⟨c, cs, (if_neg hn).trans hcons,
        .inr (digits_toDigits n.natAbs c (hcons ▸ List.mem_cons_self))⟩
  | .float d, _ => by
    refine readValue_numberText rfl ?_ fun rest hrest => readNumber_decimal d hrest
    obtain ⟨ip, fp, ep, htext, hparts, -⟩ := decimal_parts d
    change ∃ c ds, d.text = _ ∧ _
    rw [htext]
    exact head_partsText hparts
  | .str s, _ => by
    intro fuel rest hfuel _
    have htext : text (.str s) ++ rest = '"' :: (s.toList.flatMap escapeChar ++ '"' :: rest) := by
      simp [text, quote]
    obtain ⟨fuel, rfl⟩ : ∃ f, fuel = f + 1 := ⟨fuel - 1, by simp [text, quote] at hfuel; omega⟩
    rw [htext, readValue, skipSpace_cons _ (by decide)]
    simp only [readString_quote, Option.map_some, String.ofList_toList]
  | .arr [], _ => by
    intro fuel rest hfuel _
    obtain ⟨fuel, rfl⟩ : ∃ f, fuel = f + 1 := ⟨fuel - 1, by simp [text] at hfuel; omega⟩
    rfl
  | .arr (x :: xs), h => by
    simp only [valid, validItems, Bool.and_eq_true] at h
    exact readValue_arr (readsBack x h.1) (readsBackItems xs h.2)
  | .obj [], _ => by
    intro fuel rest hfuel _
    obtain ⟨fuel, rfl⟩ : ∃ f, fuel = f + 1 := ⟨fuel - 1, by simp [text] at hfuel; omega⟩
    rfl
  | .obj (m :: ms), h => by
    simp only [valid, validMembers, Bool.and_eq_true, decide_eq_true_eq] at h
    exact readValue_obj (readsBackMember m h.2.1) (readsBackMembers ms h.2.2) h.1
termination_by structural j => j

theorem readsBackItems : (xs : List Json) → validItems xs = true → ∀ x ∈ xs, ReadsBack x
  | [], _ => by simp
  | x :: xs, h => by
    simp only [validItems, Bool.and_eq_true] at h
    intro y hy
    rcases mem_cons.mp hy with heq | hy
    · rw [heq]
      exact readsBack x h.1
    · exact readsBackItems xs h.2 y hy
termination_by structural j => j

theorem readsBackMembers : (ms : List (String × Json)) → validMembers ms = true →
    ∀ m ∈ ms, ReadsBack m.2
  | [], _ => by simp
  | m :: ms, h => by
    simp only [validMembers, Bool.and_eq_true] at h
    intro m' hm'
    rcases mem_cons.mp hm' with heq | hm'
    · rw [heq]
      exact readsBackMember m h.1
    · exact readsBackMembers ms h.2 m' hm'
termination_by structural j => j

theorem readsBackMember : (m : String × Json) → validMember m = true → ReadsBack m.2
  | (_, v), h => readsBack v h
termination_by structural j => j
end

theorem loads_text (h : valid j = true) : loads (text j) = some j := by
  have hread := readsBack j h ((text j).length + 1) [] (by omega) closed_nil
  rw [append_nil] at hread
  unfold loads
  rw [hread]
  rfl

/-! ### Sorted keys -/

theorem sortMembers_eq (ms : List (String × Json)) :
    sortMembers ms = ms.map fun m => (m.1, sortKeys m.2) := by
  induction ms with
  | nil => rfl
  | cons m ms ih =>
    obtain ⟨k, v⟩ := m
    rw [sortMembers, ih, map_cons, sortMember]

theorem validMembers_iff :
    validMembers ms = true ↔ ∀ m ∈ ms, valid m.2 = true := by
  induction ms with
  | nil => simp [validMembers]
  | cons m ms ih =>
    obtain ⟨k, v⟩ := m
    simp [validMembers, validMember, ih]

theorem byKey_perm (ms : List (String × Json)) : (byKey ms).Perm ms := perm_insertionSort _ ms

theorem byKey_byKey (ms : List (String × Json)) : byKey (byKey ms) = byKey ms := by
  have : Std.Total fun a b : String × Json => a.1 ≤ b.1 := ⟨fun a b => le_total a.1 b.1⟩
  have : IsTrans (String × Json) fun a b => a.1 ≤ b.1 := ⟨fun _ _ _ h h' => le_trans h h'⟩
  exact (pairwise_insertionSort _ ms).insertionSort_eq

theorem map_byKey (f : Json → Json) (ms : List (String × Json)) :
    (byKey ms).map (fun m => (m.1, f m.2)) = byKey (ms.map fun m => (m.1, f m.2)) :=
  map_insertionSort _ _ _ _ fun _ _ _ _ => Iff.rfl

mutual
theorem sortKeys_sortKeys : (j : Json) → sortKeys (sortKeys j) = sortKeys j
  | .null | .bool _ | .int _ | .float _ | .str _ => by simp only [sortKeys]
  | .arr xs => by rw [sortKeys, sortKeys, sortItems_sortItems xs]
  | .obj ms => by
    rw [sortKeys, sortKeys, sortMembers_eq (byKey _), map_byKey, ← sortMembers_eq,
      sortMembers_sortMembers ms, byKey_byKey]
termination_by structural j => j

theorem sortItems_sortItems : (xs : List Json) → sortItems (sortItems xs) = sortItems xs
  | [] => rfl
  | x :: xs => by rw [sortItems, sortItems, sortKeys_sortKeys x, sortItems_sortItems xs]
termination_by structural j => j

theorem sortMembers_sortMembers :
    (ms : List (String × Json)) → sortMembers (sortMembers ms) = sortMembers ms
  | [] => rfl
  | m :: ms => by
    rw [sortMembers, sortMembers, sortMember_sortMember m, sortMembers_sortMembers ms]
termination_by structural j => j

theorem sortMember_sortMember : (m : String × Json) → sortMember (sortMember m) = sortMember m
  | (_, v) => by rw [sortMember, sortMember, sortKeys_sortKeys v]
termination_by structural j => j
end

mutual
theorem valid_sortKeys : (j : Json) → valid j = true → valid (sortKeys j) = true
  | .null, _ | .bool _, _ | .int _, _ | .float _, _ | .str _, _ => by simp [sortKeys, valid]
  | .arr xs, h => by
    rw [valid] at h
    rw [sortKeys, valid]
    exact validItems_sortItems xs h
  | .obj ms, h => by
    simp only [valid, Bool.and_eq_true, decide_eq_true_eq] at h
    rw [sortKeys, valid, Bool.and_eq_true, decide_eq_true_eq]
    constructor
    · rw [((byKey_perm _).map Prod.fst).nodup_iff, sortMembers_eq, map_map]
      exact h.1
    · have hmembers := validMembers_iff.mp (validMembers_sortMembers ms h.2)
      exact validMembers_iff.mpr fun m hm => hmembers m ((byKey_perm _).mem_iff.mp hm)
termination_by structural j => j

theorem validItems_sortItems : (xs : List Json) → validItems xs = true →
    validItems (sortItems xs) = true
  | [], _ => rfl
  | x :: xs, h => by
    simp only [validItems, Bool.and_eq_true] at h
    simp only [sortItems, validItems, Bool.and_eq_true]
    exact ⟨valid_sortKeys x h.1, validItems_sortItems xs h.2⟩
termination_by structural j => j

theorem validMembers_sortMembers : (ms : List (String × Json)) → validMembers ms = true →
    validMembers (sortMembers ms) = true
  | [], _ => rfl
  | m :: ms, h => by
    simp only [validMembers, Bool.and_eq_true] at h
    simp only [sortMembers, validMembers, Bool.and_eq_true]
    exact ⟨validMember_sortMember m h.1, validMembers_sortMembers ms h.2⟩
termination_by structural j => j

theorem validMember_sortMember : (m : String × Json) → validMember m = true →
    validMember (sortMember m) = true
  | (_, v), h => valid_sortKeys v h
termination_by structural j => j
end

/-- **What was dumped is loaded**, with its keys in order. -/
theorem loads_dumps (h : valid j = true) : loads (dumps j) = some (sortKeys j) :=
  loads_text (valid_sortKeys j h)

theorem dumps_sortKeys (j : Json) : dumps (sortKeys j) = dumps j := by
  rw [dumps, dumps, sortKeys_sortKeys]

variable {ns : List (String × Json)}

theorem byKey_congr (h : ms.Perm ns) (hnodup : (ms.map Prod.fst).Nodup) : byKey ms = byKey ns := by
  have : Std.Total fun a b : String × Json => a.1 ≤ b.1 := ⟨fun a b => le_total a.1 b.1⟩
  have : IsTrans (String × Json) fun a b => a.1 ≤ b.1 := ⟨fun _ _ _ h h' => le_trans h h'⟩
  have hperm : (byKey ms).Perm (byKey ns) :=
    (byKey_perm ms).trans (h.trans (byKey_perm ns).symm)
  refine List.Perm.eq_of_pairwise ?_ (pairwise_insertionSort _ ms)
    (pairwise_insertionSort _ ns) hperm
  intro a b ha hb hab hba
  have ha := (byKey_perm ms).mem_iff.mp ha
  have hb := h.mem_iff.mpr ((byKey_perm ns).mem_iff.mp hb)
  exact inj_on_of_nodup_map hnodup ha hb (le_antisymm hab hba)

theorem dumps_obj_congr (h : ms.Perm ns) (hnodup : (ms.map Prod.fst).Nodup) :
    dumps (.obj ms) = dumps (.obj ns) := by
  rw [dumps, dumps, sortKeys, sortKeys, sortMembers_eq, sortMembers_eq,
    byKey_congr (h.map fun m => (m.1, sortKeys m.2))]
  rw [map_map]
  exact hnodup

theorem dumps_obj_ne_empty (h : ms ≠ []) :
    dumps (.obj ms) ≠ dumps (.obj []) := by
  have hsorted : byKey (sortMembers ms) ≠ [] := by
    intro hnil
    have hperm := (byKey_perm (sortMembers ms)).length_eq
    rw [hnil, sortMembers_eq, length_map, length_nil] at hperm
    exact h (eq_nil_of_length_eq_zero hperm.symm)
  obtain ⟨m, rest, hcons⟩ := exists_cons_of_ne_nil hsorted
  rw [dumps, dumps, sortKeys, sortKeys, hcons]
  intro heq
  obtain ⟨k, v⟩ := m
  simp [sortMembers, byKey, text, memberText, quote] at heq

end AgenticKibana.Library.Json
