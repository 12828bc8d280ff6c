import Mathlib

/-!
# JSON values, their canonical text and their size

The values a dynamically typed program keeps in a JSON document, with the operations it performs
on them: dictionary lookup, truthiness, conversions, equality that ignores the order of the keys,
and the compact canonical text with sorted keys.  A float is kept as the decimal number its
shortest text denotes (`Decimal`); `NaN` and the infinities have no JSON text and are not values
here.
-/

namespace AgenticKibana.Library

/-! ### Decimal numbers -/

/-- `±digits · 10^exp`, in the one spelling whose digits do not end in a zero. -/
structure Decimal where
  neg : Bool
  digits : Nat
  exp : Int
  normal : digits % 10 ≠ 0 ∨ (digits = 0 ∧ exp = 0)
deriving DecidableEq

namespace Decimal

/-- Strip trailing zeros, at most `fuel` of them. -/
def strip : Nat → Nat → Int → Nat × Int
  | 0, m, e => (m, e)
  | fuel + 1, m, e => if m % 10 = 0 then strip fuel (m / 10) (e + 1) else (m, e)

theorem strip_normal (fuel m : Nat) (e : Int) (hm : m ≠ 0) (hfuel : m < 10 ^ fuel) :
    (strip fuel m e).1 % 10 ≠ 0 := by
  induction fuel generalizing m e with
  | zero => omega
  | succ fuel ih =>
    unfold strip
    by_cases h : m % 10 = 0
    · rw [if_pos h]
      have hlt : m / 10 < 10 ^ fuel := by
        rw [Nat.pow_succ] at hfuel
        omega
      exact ih (m / 10) (e + 1) (by omega) hlt
    · rw [if_neg h]
      exact h

theorem strip_shift (k fuel m : Nat) (e : Int) (hm : m % 10 ≠ 0) (hk : k ≤ fuel) :
    strip fuel (m * 10 ^ k) (e - k) = (m, e) := by
  induction k generalizing fuel e with
  | zero =>
    cases fuel with
    | zero => simp [strip]
    | succ fuel => simp [strip, hm]
  | succ k ih =>
    obtain ⟨fuel, rfl⟩ : ∃ f, fuel = f + 1 := ⟨fuel - 1, by omega⟩
    have hmod : m * 10 ^ (k + 1) % 10 = 0 := by
      rw [Nat.pow_succ, ← Nat.mul_assoc]
      exact Nat.mul_mod_left _ _
    have hdiv : m * 10 ^ (k + 1) / 10 = m * 10 ^ k := by
      rw [Nat.pow_succ, ← Nat.mul_assoc]
      exact Nat.mul_div_cancel _ (by decide)
    have hexp : e - ((k + 1 : Nat) : Int) + 1 = e - k := by omega
    rw [strip, if_pos hmod, hdiv, hexp]
    exact ih fuel e (by omega)

/-- The decimal number `±m · 10^e`. -/
def ofParts (neg : Bool) (m : Nat) (e : Int) : Decimal :=
  if hm : m = 0 then ⟨neg, 0, 0, .inr ⟨rfl, rfl⟩⟩
  else
    let r := strip m m e
    ⟨neg, r.1, r.2, .inl (strip_normal m m e hm (Nat.lt_pow_self (by omega)))⟩

def ofInt (n : Int) : Decimal := ofParts (decide (n < 0)) n.natAbs 0

theorem ofParts_shift (d : Decimal) (hd : d.digits ≠ 0) (k : Nat) :
    ofParts d.neg (d.digits * 10 ^ k) (d.exp - k) = d := by
  obtain ⟨neg, m, e, hnormal⟩ := d
  have hm : m ≠ 0 := hd
  have hmod : m % 10 ≠ 0 := hnormal.resolve_right fun h => hm h.1
  have hten : 0 < 10 ^ k := Nat.pow_pos (by decide)
  have hpow : ¬ m * 10 ^ k = 0 := Nat.mul_ne_zero hm (by omega)
  have hk : k ≤ m * 10 ^ k := by
    calc k ≤ 10 ^ k := (Nat.lt_pow_self (by omega)).le
      _ ≤ m * 10 ^ k := Nat.le_mul_of_pos_left _ (by omega)
  unfold ofParts
  rw [dif_neg hpow]
  simp [strip_shift k _ m e hmod hk]

theorem ofParts_zero (d : Decimal) (hd : d.digits = 0) (e : Int) : ofParts d.neg 0 e = d := by
  obtain ⟨neg, m, e', hnormal⟩ := d
  obtain rfl : m = 0 := hd
  obtain rfl : e' = 0 := (hnormal.resolve_left (by decide)).2
  simp [ofParts]

def toInt (d : Decimal) : Int :=
  let n : Nat := if 0 ≤ d.exp then d.digits * 10 ^ d.exp.toNat else d.digits / 10 ^ (-d.exp).toNat
  if d.neg then -(n : Int) else n

def isZero (d : Decimal) : Bool := d.digits = 0

def unsignedZero (d : Decimal) : Decimal := if d.isZero then ⟨false, 0, 0, .inr ⟨rfl, rfl⟩⟩ else d

/-- The shortest text: positional from `0.0001` to sixteen integer digits, and with
an exponent outside. -/
def text (d : Decimal) : List Char :=
  let ds := Nat.toDigits 10 d.digits
  let point : Int := ds.length + d.exp
  let sign := if d.neg then ['-'] else []
  let body :=
    if d.digits = 0 then ['0', '.', '0']
    else if 16 < point ∨ point ≤ -4 then
      let e := point - 1
      let expDigits := Nat.toDigits 10 e.natAbs
      ds.take 1 ++ (if ds.length = 1 then [] else '.' :: ds.drop 1) ++
        'e' :: (if e < 0 then '-' else '+') ::
          ((if expDigits.length = 1 then ['0'] else []) ++ expDigits)
    else if 0 ≤ d.exp then ds ++ List.replicate d.exp.toNat '0' ++ ['.', '0']
    else if 0 < point then ds.take point.toNat ++ '.' :: ds.drop point.toNat
    else '0' :: '.' :: List.replicate (-point).toNat '0' ++ ds
  sign ++ body

end Decimal

inductive Json where
  | null
  | bool (b : Bool)
  | int (n : Int)
  | float (d : Decimal)
  | str (s : String)
  | arr (xs : List Json)
  | obj (ms : List (String × Json))

namespace Json

instance : Inhabited Json := ⟨.null⟩

mutual
def decEq : (a b : Json) → Decidable (a = b)
  | .null, b => match b with
    | .null => isTrue rfl
    | .bool _ | .int _ | .float _ | .str _ | .arr _ | .obj _ => isFalse (by simp)
  | .bool x, b => match b with
    | .bool y => decidable_of_iff (x = y) (by simp)
    | .null | .int _ | .float _ | .str _ | .arr _ | .obj _ => isFalse (by simp)
  | .int x, b => match b with
    | .int y => decidable_of_iff (x = y) (by simp)
    | .null | .bool _ | .float _ | .str _ | .arr _ | .obj _ => isFalse (by simp)
  | .float x, b => match b with
    | .float y => decidable_of_iff (x = y) (by simp)
    | .null | .bool _ | .int _ | .str _ | .arr _ | .obj _ => isFalse (by simp)
  | .str x, b => match b with
    | .str y => decidable_of_iff (x = y) (by simp)
    | .null | .bool _ | .int _ | .float _ | .arr _ | .obj _ => isFalse (by simp)
  | .arr x, b => match b with
    | .arr y => haveI := decEqItems x y; decidable_of_iff (x = y) (by simp)
    | .null | .bool _ | .int _ | .float _ | .str _ | .obj _ => isFalse (by simp)
  | .obj x, b => match b with
    | .obj y => haveI := decEqMembers x y; decidable_of_iff (x = y) (by simp)
    | .null | .bool _ | .int _ | .float _ | .str _ | .arr _ => isFalse (by simp)
termination_by structural j => j

def decEqItems : (a b : List Json) → Decidable (a = b)
  | [], [] => isTrue rfl
  | [], _ :: _ => isFalse (by simp)
  | _ :: _, [] => isFalse (by simp)
  | x :: xs, y :: ys =>
    haveI := decEq x y
    haveI := decEqItems xs ys
    decidable_of_iff (x = y ∧ xs = ys) (by simp)
termination_by structural j => j

def decEqMembers : (a b : List (String × Json)) → Decidable (a = b)
  | [], [] => isTrue rfl
  | [], _ :: _ => isFalse (by simp)
  | _ :: _, [] => isFalse (by simp)
  | x :: xs, y :: ys =>
    haveI := decEqMember x y
    haveI := decEqMembers xs ys
    decidable_of_iff (x = y ∧ xs = ys) (by simp)
termination_by structural j => j

def decEqMember : (a b : String × Json) → Decidable (a = b)
  | (k, v), (l, w) =>
    haveI := decEq v w
    decidable_of_iff (k = l ∧ v = w) (by simp)
termination_by structural j => j
end

instance : DecidableEq Json := decEq

/-! ### Key order and equality of values -/

def byKey (ms : List (String × Json)) : List (String × Json) :=
  ms.insertionSort fun a b => a.1 ≤ b.1

mutual
def sortKeys : Json → Json
  | .null => .null
  | .bool b => .bool b
  | .int n => .int n
  | .float d => .float d
  | .str s => .str s
  | .arr xs => .arr (sortItems xs)
  | .obj ms => .obj (byKey (sortMembers ms))
termination_by structural j => j

def sortItems : List Json → List Json
  | [] => []
  | x :: xs => sortKeys x :: sortItems xs
termination_by structural j => j

def sortMembers : List (String × Json) → List (String × Json)
  | [] => []
  | m :: ms => sortMember m :: sortMembers ms
termination_by structural j => j

def sortMember : String × Json → String × Json
  | (k, v) => (k, sortKeys v)
termination_by structural j => j
end

mutual
/-- What `==` compares: numbers of every type by their value, a boolean as the number
it is, objects up to the order of their keys. -/
def comparand : Json → Json
  | .null => .null
  | .bool b => .float (Decimal.ofInt (if b then 1 else 0))
  | .int n => .float (Decimal.ofInt n)
  | .float d => .float d.unsignedZero
  | .str s => .str s
  | .arr xs => .arr (comparandItems xs)
  | .obj ms => .obj (byKey (comparandMembers ms))
termination_by structural j => j

def comparandItems : List Json → List Json
  | [] => []
  | x :: xs => comparand x :: comparandItems xs
termination_by structural j => j

def comparandMembers : List (String × Json) → List (String × Json)
  | [] => []
  | m :: ms => comparandMember m :: comparandMembers ms
termination_by structural j => j

def comparandMember : String × Json → String × Json
  | (k, v) => (k, comparand v)
termination_by structural j => j
end

/-- `a == b`. -/
def pyEq (a b : Json) : Bool := decide (a.comparand = b.comparand)

theorem pyEq_symm {a b : Json} (h : pyEq a b = true) : pyEq b a = true := by
  simp only [pyEq, decide_eq_true_eq] at h ⊢
  exact h.symm

theorem pyEq_trans {a b c : Json} (hab : pyEq a b = true) (hbc : pyEq b c = true) :
    pyEq a c = true := by
  simp only [pyEq, decide_eq_true_eq] at hab hbc ⊢
  exact hab.trans hbc

/-! ### Text -/

def hexDigit (n : Nat) : Char := Nat.digitChar n

/-- A character inside a string literal; nothing above the control characters is
escaped except the quote and the backslash. -/
def escapeChar (c : Char) : List Char :=
  if c = '"' then ['\\', '"']
  else if c = '\\' then ['\\', '\\']
  else if c = '\n' then ['\\', 'n']
  else if c = '\r' then ['\\', 'r']
  else if c = '\t' then ['\\', 't']
  else if c = Char.ofNat 8 then ['\\', 'b']
  else if c = Char.ofNat 12 then ['\\', 'f']
  else if c.toNat < 32 then ['\\', 'u', '0', '0', hexDigit (c.toNat / 16), hexDigit (c.toNat % 16)]
  else [c]

def quote (s : String) : List Char := '"' :: s.toList.flatMap escapeChar ++ ['"']

def intText (n : Int) : List Char :=
  if n < 0 then '-' :: Nat.toDigits 10 n.natAbs else Nat.toDigits 10 n.natAbs

mutual
def text : Json → List Char
  | .null => "null".toList
  | .bool true => "true".toList
  | .bool false => "false".toList
  | .int n => intText n
  | .float d => d.text
  | .str s => quote s
  | .arr [] => ['[', ']']
  | .arr (x :: xs) => '[' :: text x ++ itemsText xs
  | .obj [] => ['{', '}']
  | .obj (m :: ms) => '{' :: memberText m ++ membersText ms
termination_by structural j => j

def itemsText : List Json → List Char
  | [] => [']']
  | x :: xs => ',' :: text x ++ itemsText xs
termination_by structural j => j

def membersText : List (String × Json) → List Char
  | [] => ['}']
  | m :: ms => ',' :: memberText m ++ membersText ms
termination_by structural j => j

def memberText : String × Json → List Char
  | (k, v) => quote k ++ ':' :: text v
termination_by structural j => j
end

/-- `json.dumps(value, ensure_ascii=False, separators=(",", ":"), sort_keys=True)`. -/
def dumps (j : Json) : List Char := j.sortKeys.text

def utf8Length (cs : List Char) : Nat := (cs.map Char.utf8Size).sum

/-! ### Conversions -/

inductive ConversionError where
  | typeError
  | valueError
deriving DecidableEq, Repr

def truthy : Json → Bool
  | .null => false
  | .bool b => b
  | .int n => n ≠ 0
  | .float d => !d.isZero
  | .str s => s ≠ ""
  | .arr xs => !xs.isEmpty
  | .obj ms => !ms.isEmpty

/-- `x or y`. -/
def orElse (x y : Json) : Json := if x.truthy then x else y

def pyLen : Json → Except ConversionError Nat
  | .str s => .ok s.length
  | .arr xs => .ok xs.length
  | .obj ms => .ok ms.length
  | .null | .bool _ | .int _ | .float _ => .error .typeError

/-- `list(x)`: the items of a list, the characters of a string, the keys of a
dictionary. -/
def pyList : Json → Except ConversionError (List Json)
  | .str s => .ok (s.toList.map fun c => .str (String.ofList [c]))
  | .arr xs => .ok xs
  | .obj ms => .ok (ms.map fun m => .str m.1)
  | .null | .bool _ | .int _ | .float _ => .error .typeError

/-- The digits of `int(text)`: single underscores may stand between digits. -/
def digitsValue : List Char → Option Nat → Option Nat
  | [], acc => acc
  | '_' :: c :: cs, some n =>
    if c.isDigit then digitsValue cs (some (n * 10 + (c.toNat - '0'.toNat))) else none
  | c :: cs, acc =>
    if c.isDigit then digitsValue cs (some (acc.getD 0 * 10 + (c.toNat - '0'.toNat))) else none

/-- `text.strip()`, on the white space of ASCII. -/
def strip (cs : List Char) : List Char :=
  ((cs.dropWhile Char.isWhitespace).reverse.dropWhile Char.isWhitespace).reverse

def intOfText (cs : List Char) : Option Int :=
  match strip cs with
  | '-' :: ds => (digitsValue ds none).map fun n => -(n : Int)
  | '+' :: ds => (digitsValue ds none).map fun n => (n : Int)
  | ds => (digitsValue ds none).map fun n => (n : Int)

/-- `int(x)`. -/
def pyInt : Json → Except ConversionError Int
  | .bool b => .ok (if b then 1 else 0)
  | .int n => .ok n
  | .float d => .ok d.toInt
  | .str s => match intOfText s.toList with
    | some n => .ok n
    | none => .error .valueError
  | .null | .arr _ | .obj _ => .error .typeError

/-- `float(x)` of a number; text is not read here. -/
def pyFloat : Json → Except ConversionError Decimal
  | .bool b => .ok (Decimal.ofInt (if b then 1 else 0))
  | .int n => .ok (Decimal.ofInt n)
  | .float d => .ok d
  | .str _ => .error .valueError
  | .null | .arr _ | .obj _ => .error .typeError

/-- `repr` of a string; the characters above ASCII count as printable. -/
def reprString (s : String) : List Char :=
  let cs := s.toList
  let q := if '\'' ∈ cs ∧ '"' ∉ cs then '"' else '\''
  let body := cs.flatMap fun c =>
    if c = q ∨ c = '\\' then ['\\', c]
    else if c = '\n' then ['\\', 'n']
    else if c = '\r' then ['\\', 'r']
    else if c = '\t' then ['\\', 't']
    else if c.toNat < 32 ∨ c.toNat = 127 then
      ['\\', 'x', hexDigit (c.toNat / 16), hexDigit (c.toNat % 16)]
    else [c]
  q :: body ++ [q]

mutual
/-- `repr(x)`. -/
def pyRepr : Json → List Char
  | .null => "None".toList
  | .bool true => "True".toList
  | .bool false => "False".toList
  | .int n => intText n
  | .float d => d.text
  | .str s => reprString s
  | .arr [] => ['[', ']']
  | .arr (x :: xs) => '[' :: pyRepr x ++ reprItems xs
  | .obj [] => ['{', '}']
  | .obj (m :: ms) => '{' :: reprMember m ++ reprMembers ms
termination_by structural j => j

def reprItems : List Json → List Char
  | [] => [']']
  | x :: xs => ',' :: ' ' :: pyRepr x ++ reprItems xs
termination_by structural j => j

def reprMembers : List (String × Json) → List Char
  | [] => ['}']
  | m :: ms => ',' :: ' ' :: reprMember m ++ reprMembers ms
termination_by structural j => j

def reprMember : String × Json → List Char
  | (k, v) => reprString k ++ ':' :: ' ' :: pyRepr v
termination_by structural j => j
end

/-- `str(x)`. -/
def pyStr : Json → String
  | .str s => s
  | j => String.ofList j.pyRepr

end Json

end AgenticKibana.Library
