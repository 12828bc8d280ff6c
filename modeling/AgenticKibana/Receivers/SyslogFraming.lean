import AgenticKibana.Library.Utf8
import Mathlib.Data.List.TakeWhile

/-!
# Framing of syslog streams

A stream of bytes that arrives in pieces is cut into messages, by the counts written before them
or by line feeds.  Counted messages are read back however the stream is cut, and the reading of
any stream comes to its end.
-/

namespace AgenticKibana.Receivers.Syslog

open List

open AgenticKibana.Library.TextLines (decode encode)

abbrev Bytes := List UInt8

def space : UInt8 := 32

def lineFeed : UInt8 := 10

/-- A stream reader: how many bytes are at hand when so many are left, and the longest line. -/
structure Reader where
  arrived : Nat → Nat
  limit : Nat

/-- `reader.read(n)`: at most `n` bytes of those at hand, and none at the end only. -/
def Reader.read (r : Reader) (n : Nat) (s : Bytes) : Bytes × Bytes :=
  let k := min n (max 1 (r.arrived s.length))
  (s.take k, s.drop k)

/-- `reader.readline()`; `none` where the line is longer than the limit. -/
def Reader.readline (r : Reader) (s : Bytes) : Option (Bytes × Bytes) :=
  let line := s.takeWhile (· != lineFeed)
  if r.limit < line.length then none
  else some (s.take (line.length + 1), s.drop (line.length + 1))

inductive Ending where
  | returned
  | raised
deriving DecidableEq

structure Run where
  messages : List (List Char)
  ending : Ending
deriving DecidableEq

def Run.yield (message : List Char) (run : Run) : Run :=
  { run with messages := message :: run.messages }

/-! ### Lengths -/

def isBlank (b : UInt8) : Bool := b == 32 || (9 ≤ b && b ≤ 13)

def isDigit (b : UInt8) : Bool := 48 ≤ b && b ≤ 57

/-- `bytes.strip()`. -/
def stripBytes (s : Bytes) : Bytes := ((s.dropWhile isBlank).reverse.dropWhile isBlank).reverse

def readDigits (value : Nat) (afterDigit : Bool) : Bytes → Option Nat
  | [] => if afterDigit then some value else none
  | b :: s =>
    if isDigit b then readDigits (value * 10 + (b.toNat - 48)) true s
    else if b = 95 ∧ afterDigit = true then readDigits value false s
    else none

/-- The longest run of digits that `int` reads. -/
def maxStrDigits : Nat := 4300

def readMagnitude (s : Bytes) : Option Nat :=
  if maxStrDigits < s.countP isDigit then none else readDigits 0 false s

/-- `int(token)`; `none` where it raises `ValueError`. -/
def intOf (token : Bytes) : Option Int :=
  match stripBytes token with
  | 45 :: s => (readMagnitude s).map Int.negOfNat
  | 43 :: s => (readMagnitude s).map Int.ofNat
  | s => (readMagnitude s).map Int.ofNat

/-- Where `body[:length]` ends and `body[length:]` begins. -/
def sliceEnd (body : Bytes) (length : Int) : Nat :=
  if 0 ≤ length then length.toNat else (body.length + length).toNat

def iterLines (r : Reader) : Nat → Bytes → Option Run
  | 0, _ => none
  | fuel + 1, s =>
    match r.readline s with
    | none => some ⟨[], .raised⟩
    | some (line, s) =>
      if line = [] then some ⟨[], .returned⟩
      else (iterLines r fuel s).map (Run.yield (decode line))

/-- The length token, up to the space: `read(1)` gives one byte where there is one. -/
def readToken (buf : Bytes) : Bytes → Bytes × Bytes
  | [] => (buf, [])
  | b :: s => if space ∈ buf then (buf, b :: s) else readToken (buf ++ [b]) s

def readBody (r : Reader) (length : Int) : Nat → Bytes → Bytes → Option (Bytes × Bytes)
  | 0, _, _ => none
  | fuel + 1, body, s =>
    if body.length < length then
      let (chunk, s) := r.read (length - body.length).toNat s
      if chunk = [] then some (body, s) else readBody r length fuel (body ++ chunk) s
    else some (body, s)

def readOctetCounted (r : Reader) : Nat → Bytes → Bytes → Option Run
  | 0, _, _ => none
  | fuel + 1, buf, s =>
    let (buf, s) := readToken buf s
    if space ∈ buf then
      let token := buf.takeWhile (· != space)
      let rest := buf.drop (token.length + 1)
      match intOf token with
      | none => (iterLines r fuel s).map (Run.yield (decode (token ++ space :: rest)))
      | some length =>
        (readBody r length fuel rest s).bind fun (body, s) =>
          let i := sliceEnd body length
          (readOctetCounted r fuel (body.drop i) s).map (Run.yield (decode (body.take i)))
    else some ⟨if stripBytes buf = [] then [] else [decode buf], .returned⟩

/-- `newline` stands for every other text. -/
inductive Framing where
  | auto
  | octetCounting
  | newline
deriving DecidableEq

def readFramed (r : Reader) (fuel : Nat) (framing : Framing) (s : Bytes) : Option Run :=
  match framing with
  | .auto =>
    let (first, s) := r.read 1 s
    if first = [] then some ⟨[], .returned⟩
    else if first.all isDigit then readOctetCounted r fuel first s
    else
      match r.readline s with
      | none => some ⟨[], .raised⟩
      | some (line, s) => (iterLines r fuel s).map (Run.yield (decode (first ++ line)))
  | .octetCounting => readOctetCounted r fuel [] s
  | .newline => iterLines r fuel s

/-! ### Every stream ends -/

section Ends

variable {r : Reader} {s : Bytes}

def LongLine (r : Reader) (s : Bytes) : Prop :=
  ∃ before line after, s = before ++ line ++ after ∧ r.limit < line.length ∧ lineFeed ∉ line

def Explained (r : Reader) (s : Bytes) (run : Run) : Prop := run.ending = .raised → LongLine r s

theorem LongLine.of_suffix {t : Bytes} (h : LongLine r t) (hts : ∃ before, s = before ++ t) :
    LongLine r s := by
  obtain ⟨cut, rfl⟩ := hts
  obtain ⟨before, line, after, rfl, hlong⟩ := h
  exact ⟨cut ++ before, line, after, by simp only [append_assoc], hlong⟩

theorem longLine_of_readline (h : r.readline s = none) : LongLine r s := by
  unfold Reader.readline at h
  dsimp only at h
  split at h
  · next hlong =>
      refine ⟨[], s.takeWhile (· != lineFeed), s.dropWhile (· != lineFeed), ?_, hlong, ?_⟩
      · rw [nil_append, takeWhile_append_dropWhile]
      · intro hmem
        simpa using mem_takeWhile_imp hmem
  · cases h

theorem readline_eq_some {line rest : Bytes} (h : r.readline s = some (line, rest)) :
    s = line ++ rest := by
  unfold Reader.readline at h
  dsimp only at h
  split at h
  · cases h
  · obtain ⟨rfl, rfl⟩ := Prod.mk.inj (Option.some.inj h)
    exact (take_append_drop _ s).symm

theorem iterLines_ends {fuel : Nat} (hfuel : s.length < fuel) :
    ∃ run, iterLines r fuel s = some run ∧ Explained r s run := by
  induction fuel generalizing s with
  | zero => exact absurd hfuel (Nat.not_lt_zero _)
  | succ fuel ih =>
    unfold iterLines
    cases hline : r.readline s with
    | none => exact ⟨_, rfl, fun _ => longLine_of_readline hline⟩
    | some lr =>
      obtain ⟨line, rest⟩ := lr
      dsimp only
      have hs := readline_eq_some hline
      split
      · exact ⟨_, rfl, fun hraised => nomatch hraised⟩
      · next hne =>
          have hlen := length_pos_iff.mpr hne
          rw [hs, length_append] at hfuel
          obtain ⟨run, hrun, hlong⟩ := @ih rest (by omega)
          refine ⟨_, by rw [hrun, Option.map_some], fun hraised => ?_⟩
          exact (hlong hraised).of_suffix ⟨line, hs⟩

theorem readToken_append (buf s : Bytes) :
    (readToken buf s).1 ++ (readToken buf s).2 = buf ++ s := by
  induction s generalizing buf with
  | nil => rfl
  | cons b s ih =>
    unfold readToken
    split
    · rfl
    · rw [ih, append_assoc, singleton_append]

theorem read_append (r : Reader) (n : Nat) (s : Bytes) :
    (r.read n s).1 ++ (r.read n s).2 = s :=
  take_append_drop _ s

theorem readBody_ends {length : Int} {fuel : Nat} {body : Bytes} (hfuel : s.length < fuel) :
    ∃ body' s', readBody r length fuel body s = some (body', s') ∧
      body' ++ s' = body ++ s := by
  induction fuel generalizing body s with
  | zero => exact absurd hfuel (Nat.not_lt_zero _)
  | succ fuel ih =>
    unfold readBody
    split
    · dsimp only
      have hread := read_append r (length - body.length).toNat s
      generalize r.read (length - body.length).toNat s = chunk at hread ⊢
      split
      · next hnil => exact ⟨body, chunk.2, rfl, by rw [← hread, hnil, nil_append]⟩
      · next hne =>
          have hlen := length_pos_iff.mpr hne
          rw [← hread, length_append] at hfuel
          obtain ⟨body', s', hbody, happend⟩ := @ih chunk.2 (body ++ chunk.1) (by omega)
          exact ⟨body', s', hbody, by rw [happend, append_assoc, hread]⟩
    · exact ⟨body, s, rfl, rfl⟩

variable {fuel : Nat}

theorem readOctetCounted_ends {buf : Bytes} (hfuel : buf.length + s.length < fuel) :
    ∃ run, readOctetCounted r fuel buf s = some run ∧ Explained r (buf ++ s) run := by
  induction fuel generalizing buf s with
  | zero => exact absurd hfuel (Nat.not_lt_zero _)
  | succ fuel ih =>
    have htoken := readToken_append buf s
    unfold readOctetCounted
    dsimp only
    generalize readToken buf s = read at htoken ⊢
    obtain ⟨full, left⟩ := read
    dsimp only at htoken ⊢
    rw [← htoken]
    rw [← length_append, ← htoken, length_append] at hfuel
    split
    · next hspace =>
        have hpos := length_pos_of_mem hspace
        cases hint : intOf (full.takeWhile (· != space)) with
        | none =>
          obtain ⟨run, hrun, hlong⟩ := @iterLines_ends r left fuel (by omega)
          refine ⟨_, by simp only [hrun, Option.map_some]; rfl, fun hraised => ?_⟩
          exact (hlong hraised).of_suffix ⟨full, rfl⟩
        | some length =>
          obtain ⟨body, s', hbody, happend⟩ :=
            @readBody_ends r left length fuel
              (full.drop ((full.takeWhile (· != space)).length + 1)) (by omega)
          have hlen := congrArg List.length happend
          simp only [length_append, length_drop] at hlen
          obtain ⟨run, hrun, hlong⟩ :=
            @ih s' (body.drop (sliceEnd body length)) (by rw [length_drop]; omega)
          refine ⟨_, by simp only [hbody, Option.bind_some, hrun, Option.map_some]; rfl, ?_⟩
          intro hraised
          refine (hlong hraised).of_suffix
            ⟨full.take ((full.takeWhile (· != space)).length + 1) ++
              body.take (sliceEnd body length), ?_⟩
          rw [← append_assoc, append_assoc _ (body.take _), take_append_drop,
            append_assoc, happend, ← append_assoc, take_append_drop]
    · exact ⟨_, rfl, fun hraised => nomatch hraised⟩

/-- **The reading of any stream comes to its end**, and fails only at a line that is too long. -/
theorem ends (r : Reader) (framing : Framing) (s : Bytes) (hfuel : s.length < fuel) :
    ∃ run, readFramed r fuel framing s = some run ∧ Explained r s run := by
  cases framing with
  | auto =>
    have hread := read_append r 1 s
    unfold readFramed
    dsimp only
    generalize r.read 1 s = read at hread ⊢
    obtain ⟨first, left⟩ := read
    dsimp only at hread ⊢
    rw [← hread, length_append] at hfuel
    rw [← hread]
    split
    · exact ⟨_, rfl, fun hraised => nomatch hraised⟩
    split
    · exact readOctetCounted_ends hfuel
    · cases hline : r.readline left with
      | none =>
        exact ⟨_, rfl, fun _ => (longLine_of_readline hline).of_suffix ⟨first, rfl⟩⟩
      | some lr =>
        obtain ⟨line, rest⟩ := lr
        have hleft := readline_eq_some hline
        rw [hleft, length_append] at hfuel
        obtain ⟨run, hrun, hlong⟩ := @iterLines_ends r rest fuel (by omega)
        refine ⟨_, by simp only [hrun, Option.map_some]; rfl, fun hraised => ?_⟩
        exact (hlong hraised).of_suffix ⟨first ++ line, by rw [hleft, append_assoc]⟩
  | octetCounting => exact readOctetCounted_ends (by simpa using hfuel)
  | newline => exact iterLines_ends hfuel

end Ends

/-! ### Counted frames -/

/-- A message, whose bytes fit in an object: no longer than `sys.maxsize`. -/
structure Message where
  text : List Char
  sized : (encode text).length < 2 ^ 63

def digitBytes (n : Nat) : Bytes := (Nat.toDigits 10 n).map fun c => UInt8.ofNat c.toNat

/-- `<length> <message>`. -/
def Message.frame (m : Message) : Bytes :=
  digitBytes (encode m.text).length ++ space :: encode m.text

def frames (messages : List Message) : Bytes := messages.flatMap Message.frame

theorem isDigit_byte {c : Char} (hc : c.isDigit = true) :
    isDigit (UInt8.ofNat c.toNat) = true ∧ (UInt8.ofNat c.toNat).toNat = c.toNat := by
  have hrange : 48 ≤ c.toNat ∧ c.toNat ≤ 57 := Char.isDigit_iff_toNat.mp hc
  have hbyte : (UInt8.ofNat c.toNat).toNat = c.toNat :=
    AgenticKibana.Library.TextLines.toNat_ofNat_lt (by omega)
  refine ⟨?_, hbyte⟩
  unfold isDigit
  rw [Bool.and_eq_true, decide_eq_true_eq, decide_eq_true_eq, UInt8.le_iff_toNat_le,
    UInt8.le_iff_toNat_le, hbyte]
  exact hrange

theorem isDigit_digitBytes (n : Nat) : ∀ b ∈ digitBytes n, isDigit b = true := by
  intro b hb
  obtain ⟨c, hc, rfl⟩ := mem_map.mp hb
  exact (isDigit_byte (Nat.isDigit_of_mem_toDigits (by decide) (by decide) hc)).1

theorem digit_facts {b : UInt8} (h : isDigit b = true) :
    isBlank b = false ∧ b ≠ space ∧ b ≠ 45 ∧ b ≠ 43 := by
  obtain ⟨hlow, hhigh⟩ : 48 ≤ b.toNat ∧ b.toNat ≤ 57 := by
    simpa [isDigit, UInt8.le_iff_toNat_le] using h
  rw [← @UInt8.ofNat_toNat b]
  generalize b.toNat = n at hlow hhigh
  interval_cases n
  all_goals decide

theorem readDigits_map (ds : List Char) (hds : ∀ c ∈ ds, c.isDigit = true) (value : Nat)
    (afterDigit : Bool) (h : ds ≠ [] ∨ afterDigit = true) :
    readDigits value afterDigit (ds.map fun c => UInt8.ofNat c.toNat) =
      some (Nat.ofDigitChars 10 ds value) := by
  induction ds generalizing value afterDigit with
  | nil =>
    rw [map_nil, readDigits, if_pos (h.resolve_left (absurd rfl))]
    rfl
  | cons c ds ih =>
    obtain ⟨hdigit, hbyte⟩ := isDigit_byte (hds c mem_cons_self)
    rw [map_cons, readDigits, if_pos hdigit, hbyte,
      ih (fun d hd => hds d (mem_cons_of_mem c hd)) _ _ (.inr rfl), Nat.mul_comm]
    rfl

/-- **The length that was written is the length that is read.** -/
theorem intOf_digitBytes {n : Nat} (hn : n < 2 ^ 63) : intOf (digitBytes n) = some (n : Int) := by
  have hds : ∀ c ∈ Nat.toDigits 10 n, c.isDigit = true := fun c hc =>
    Nat.isDigit_of_mem_toDigits (by decide) (by decide) hc
  have hne : digitBytes n ≠ [] := by
    unfold digitBytes
    simp
  have hfacts : ∀ b ∈ digitBytes n, isBlank b = false ∧ b ≠ space ∧ b ≠ 45 ∧ b ≠ 43 := fun b hb =>
    digit_facts (isDigit_digitBytes n b hb)
  have hdrop : ∀ s : Bytes, (∀ b ∈ s, isBlank b = false) → s.dropWhile isBlank = s := by
    intro s hs
    cases s with
    | nil => rfl
    | cons b s => rw [dropWhile_cons, if_neg (by rw [hs b mem_cons_self]; decide)]
  have hstrip : stripBytes (digitBytes n) = digitBytes n := by
    unfold stripBytes
    rw [hdrop _ fun b hb => (hfacts b hb).1,
      hdrop _ fun b hb => (hfacts b (mem_reverse.mp hb)).1, reverse_reverse]
  have hmagnitude : readMagnitude (digitBytes n) = some n := by
    have hlen : (digitBytes n).length ≤ 19 := by
      unfold digitBytes
      rw [length_map, Nat.length_toDigits_le_iff (by decide) (by decide)]
      exact hn.trans_le (by decide)
    have hcount := (countP_le_length (p := isDigit)).trans hlen
    unfold readMagnitude
    rw [if_neg (by unfold maxStrDigits; omega), digitBytes,
      readDigits_map _ hds 0 false (.inl Nat.toDigits_ne_nil), Nat.ofDigitChars_ten_toDigits]
  obtain ⟨b, s, hcons⟩ := exists_cons_of_ne_nil hne
  have hb := hfacts b (by rw [hcons]; exact mem_cons_self)
  unfold intOf
  rw [hstrip]
  rw [hcons] at hmagnitude ⊢
  split
  · next heq => exact absurd (List.cons.inj heq).1 hb.2.2.1
  · next heq => exact absurd (List.cons.inj heq).1 hb.2.2.2
  · rw [hmagnitude, Option.map_some]
    rfl

section Frames

variable {r : Reader} {more buf : Bytes}

theorem readToken_space (hmore : space ∉ more) (hbuf : space ∉ buf) (rest : Bytes) :
    readToken buf (more ++ space :: rest) = (buf ++ more ++ [space], rest) := by
  induction more generalizing buf with
  | nil =>
    rw [nil_append, readToken, if_neg hbuf, append_nil]
    cases rest with
    | nil => rfl
    | cons b rest => rw [readToken, if_pos (by simp)]
  | cons b more ih =>
    rw [mem_cons, not_or] at hmore
    have hnot : space ∉ buf ++ [b] := by simp [hbuf, hmore.1]
    rw [cons_append, readToken, if_neg hbuf, ih hmore.2 hnot]
    simp only [append_assoc, singleton_append]

theorem readBody_frame {left : Bytes} {fuel : Nat} (hfuel : left.length < fuel)
    (body rest : Bytes) :
    readBody r (body ++ left).length fuel body (left ++ rest) = some (body ++ left, rest) := by
  induction fuel generalizing left body with
  | zero => exact absurd hfuel (Nat.not_lt_zero _)
  | succ fuel ih =>
    unfold readBody
    rw [length_append]
    cases left with
    | nil => rw [if_neg (by simp), append_nil]; rfl
    | cons b left =>
      rw [if_pos (by simp)]
      have hread : r.read (((body.length + (b :: left).length : Nat) : Int) - body.length).toNat
          (b :: left ++ rest) =
          ((b :: left).take (min (b :: left).length (max 1 (r.arrived (b :: left ++ rest).length))),
            (b :: left).drop
              (min (b :: left).length (max 1 (r.arrived (b :: left ++ rest).length))) ++ rest) := by
        unfold Reader.read
        rw [show (((body.length + (b :: left).length : Nat) : Int) - body.length).toNat =
          (b :: left).length by omega]
        dsimp only
        rw [take_append_of_le_length (min_le_left _ _),
          drop_append_of_le_length (min_le_left _ _)]
      rw [hread]
      dsimp only
      generalize hk : min (b :: left).length (max 1 (r.arrived (b :: left ++ rest).length)) = k
      have hpos : 0 < k := by
        rw [← hk]
        simp
      rw [if_neg (by simp; omega)]
      have hsplit : body ++ (b :: left).take k ++ (b :: left).drop k = body ++ b :: left := by
        rw [append_assoc, take_append_drop]
      have hrest := @ih ((b :: left).drop k)
        (by rw [length_drop]; simp only [length_cons] at hfuel ⊢; omega)
        (body ++ (b :: left).take k)
      rw [hsplit, length_append] at hrest
      exact hrest

variable {fuel : Nat}

theorem readOctetCounted_frame {m : Message}
    (hcount : buf ++ more = digitBytes (encode m.text).length)
    (hfuel : (encode m.text).length < fuel) (rest : Bytes) :
    readOctetCounted r (fuel + 1) buf (more ++ space :: (encode m.text ++ rest)) =
      (readOctetCounted r fuel [] rest).map (Run.yield m.text) := by
  have hnot : space ∉ buf ++ more := by
    rw [hcount]
    intro hmem
    exact (digit_facts (isDigit_digitBytes _ _ hmem)).2.1 rfl
  rw [mem_append, not_or] at hnot
  have htake : (buf ++ more ++ [space]).takeWhile (· != space) = buf ++ more := by
    rw [takeWhile_append_of_pos]
    · simp
    · intro b hb
      simp only [bne_iff_ne, ne_eq]
      rintro rfl
      rcases mem_append.mp hb with hb | hb
      · exact hnot.1 hb
      · exact hnot.2 hb
  rw [readOctetCounted, readToken_space hnot.2 hnot.1]
  dsimp only
  rw [if_pos (by simp), htake, drop_eq_nil_of_le (by simp; omega), hcount,
    intOf_digitBytes m.sized]
  have hbody := @readBody_frame r (encode m.text) fuel hfuel [] rest
  rw [nil_append] at hbody
  dsimp only
  rw [hbody, Option.bind_some]
  dsimp only
  have hend : sliceEnd (encode m.text) (encode m.text).length = (encode m.text).length := by
    simp [sliceEnd]
  rw [hend, drop_length, take_length, AgenticKibana.Library.TextLines.decode_encode]

theorem readOctetCounted_frames (messages : List Message)
    (hfuel : (frames messages).length < fuel) :
    readOctetCounted r fuel [] (frames messages) = some ⟨messages.map Message.text, .returned⟩ := by
  induction messages generalizing fuel with
  | nil =>
    obtain ⟨fuel, rfl⟩ : ∃ f, fuel = f + 1 := ⟨fuel - 1, by omega⟩
    rfl
  | cons m messages ih =>
    have hframes : frames (m :: messages) = digitBytes (encode m.text).length ++
        space :: (encode m.text ++ frames messages) := by
      simp [frames, Message.frame]
    rw [hframes] at hfuel ⊢
    simp only [length_append, length_cons] at hfuel
    obtain ⟨fuel, rfl⟩ : ∃ f, fuel = f + 1 := ⟨fuel - 1, by omega⟩
    rw [readOctetCounted_frame rfl (by omega), ih (by omega), Option.map_some]
    rfl

theorem readFramed_frames (messages : List Message) {framing : Framing}
    (hframing : framing ≠ .newline) (hfuel : (frames messages).length < fuel) :
    readFramed r fuel framing (frames messages) =
      some ⟨messages.map Message.text, .returned⟩ := by
  cases framing with
  | newline => exact absurd rfl hframing
  | octetCounting => exact readOctetCounted_frames messages hfuel
  | auto =>
    cases messages with
    | nil => simp [readFramed, Reader.read, frames]
    | cons m messages =>
      have hne : digitBytes (encode m.text).length ≠ [] := by
        unfold digitBytes
        simp
      obtain ⟨b, more, hcons⟩ := exists_cons_of_ne_nil hne
      have hframes : frames (m :: messages) =
          b :: (more ++ space :: (encode m.text ++ frames messages)) := by
        rw [← cons_append, ← hcons]
        simp [frames, Message.frame]
      have hdigit : isDigit b = true :=
        isDigit_digitBytes _ b (by rw [hcons]; exact mem_cons_self)
      rw [hframes] at hfuel ⊢
      simp only [length_append, length_cons] at hfuel
      obtain ⟨fuel, rfl⟩ : ∃ f, fuel = f + 1 := ⟨fuel - 1, by omega⟩
      have hread : r.read 1 (b :: (more ++ space :: (encode m.text ++ frames messages))) =
          ([b], more ++ space :: (encode m.text ++ frames messages)) := by
        unfold Reader.read
        rw [min_eq_left (le_max_left 1 _)]
        rfl
      unfold readFramed
      rw [hread]
      dsimp only
      rw [if_neg (cons_ne_nil _ _), if_pos (by simp [hdigit]),
        readOctetCounted_frame (m := m) (by rw [hcons]; rfl) (by omega),
        readOctetCounted_frames messages (by omega), Option.map_some]
      rfl

end Frames

/-- **Counted frames are read back however they are cut**, and the reading of any stream comes
to its end; it fails only at a line that is longer than the reader allows. -/
theorem framing_exact (r : Reader) :
    (∀ (messages : List Message) (framing : Framing) (fuel : Nat), framing ≠ .newline →
      (frames messages).length < fuel → readFramed r fuel framing (frames messages) =
        some ⟨messages.map Message.text, .returned⟩) ∧
    ∀ (s : Bytes) (framing : Framing) (fuel : Nat), s.length < fuel →
      ∃ run, readFramed r fuel framing s = some run ∧ Explained r s run :=
  ⟨fun messages _ _ hframing hfuel => readFramed_frames messages hframing hfuel,
    fun s framing _ hfuel => ends r framing s hfuel⟩

/-- Two messages, the second of two bytes that arrive one by one; and a stream that begins with
a negative count. -/
theorem framing_exact_two :
    readFramed ⟨fun _ => 1, 65536⟩ 20 .auto [51, 32, 97, 32, 98, 50, 32, 195, 169] =
        some ⟨[['a', ' ', 'b'], ['é']], .returned⟩ ∧
      ∃ run, readFramed ⟨fun _ => 1, 65536⟩ 20 .octetCounting [45, 53, 32, 97, 98, 99] = some run ∧
        Explained ⟨fun _ => 1, 65536⟩ [45, 53, 32, 97, 98, 99] run := by
  have hframes : frames [⟨['a', ' ', 'b'], by decide⟩, ⟨['é'], by decide⟩] =
      [51, 32, 97, 32, 98, 50, 32, 195, 169] := by
    decide
  refine ⟨?_, (framing_exact _).2 _ .octetCounting 20 (by decide)⟩
  rw [← hframes]
  exact (framing_exact _).1 _ .auto 20 (by decide) (by decide)

end AgenticKibana.Receivers.Syslog
